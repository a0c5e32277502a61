import Mathlib.Data.Finmap
import Mathlib.Algebra.BigOperators.Group.Finset.Basic

/-!
# Hash tables as finite maps

A table has no iteration order, so a model over it cannot depend on one. This
module adds the in-place update, the update of every value, the set of the
values and the removal of a set of keys to Mathlib's `Finmap`, with the value
each leaves at a key, and the total of a quantity over the keys of a table.
-/

universe u v w

abbrev Table (κ : Type u) (ν : Type v) := Finmap fun _ : κ => ν

namespace Finmap
variable {κ : Type u} {ν : Type v}

def mapEntries (f : κ → ν → ν) (t : Table κ ν) : Table κ ν where
  entries := t.entries.map fun e => ⟨e.1, f e.1 e.2⟩
  nodupKeys := by
    have h := Multiset.nodup_keys.mpr t.nodupKeys
    refine Multiset.nodup_keys.mp ?_
    simpa only [Multiset.keys, Multiset.map_map, Function.comp_def] using h

def mapValues (f : ν → ν) (t : Table κ ν) : Table κ ν := t.mapEntries fun _ => f

def values [DecidableEq ν] (t : Table κ ν) : Finset ν := (t.entries.map Sigma.snd).toFinset

def filter (p : κ → ν → Bool) (t : Table κ ν) : Table κ ν where
  entries := t.entries.filter fun e => p e.1 e.2
  nodupKeys := by
    have h := Multiset.nodup_keys.mpr t.nodupKeys
    refine Multiset.nodup_keys.mp (Multiset.nodup_of_le ?_ h)
    exact Multiset.map_le_map (Multiset.filter_le _ _)

variable [DecidableEq κ]

@[simp] theorem lookup_mapEntries (f : κ → ν → ν) (t : Table κ ν) (k : κ) :
    (t.mapEntries f).lookup k = (t.lookup k).map (f k) := by
  ext b
  rw [Finmap.lookup_eq_some_iff, Option.map_eq_some_iff]
  constructor
  · intro h
    obtain ⟨⟨k', a⟩, he, heq⟩ := Multiset.mem_map.mp h
    obtain ⟨rfl, hb⟩ := Sigma.mk.inj heq
    exact ⟨a, Finmap.lookup_eq_some_iff.mpr he, eq_of_heq hb⟩
  · intro hex
    obtain ⟨a, ha, rfl⟩ := hex
    exact Multiset.mem_map.mpr ⟨⟨k, a⟩, Finmap.lookup_eq_some_iff.mp ha, rfl⟩

@[simp] theorem lookup_mapValues (f : ν → ν) (t : Table κ ν) (k : κ) :
    (t.mapValues f).lookup k = (t.lookup k).map f :=
  lookup_mapEntries (fun _ => f) t k

theorem lookup_filter_eq_some (p : κ → ν → Bool) (t : Table κ ν) (k : κ) (b : ν) :
    (t.filter p).lookup k = some b ↔ t.lookup k = some b ∧ p k b = true := by
  rw [Finmap.lookup_eq_some_iff, Finmap.lookup_eq_some_iff]
  exact Multiset.mem_filter

theorem lookup_filter_key (p : κ → Bool) (t : Table κ ν) (k : κ) :
    (t.filter fun k _ => p k).lookup k = if p k then t.lookup k else none := by
  ext b
  rw [lookup_filter_eq_some]
  split_ifs with h <;> simp [h]

theorem mem_filter_key (p : κ → Bool) (t : Table κ ν) (k : κ) :
    k ∈ (t.filter fun k _ => p k) ↔ k ∈ t ∧ p k = true := by
  rw [← Finmap.lookup_isSome, ← Finmap.lookup_isSome, lookup_filter_key]
  split_ifs with h <;> simp [h]

theorem mem_values_of_lookup [DecidableEq ν] {t : Table κ ν} {k : κ} {b : ν}
    (h : t.lookup k = some b) : b ∈ t.values :=
  Multiset.mem_toFinset.mpr (Multiset.mem_map_of_mem Sigma.snd (Finmap.mem_lookup_iff.mp h))

@[simp] theorem mem_mapValues (f : ν → ν) (t : Table κ ν) (k : κ) :
    k ∈ t.mapValues f ↔ k ∈ t := by
  rw [← Finmap.lookup_isSome, ← Finmap.lookup_isSome, lookup_mapValues, Option.isSome_map]

@[simp] theorem keys_mapValues (f : ν → ν) (t : Table κ ν) :
    (t.mapValues f).keys = t.keys := by
  ext k
  rw [Finmap.mem_keys, Finmap.mem_keys, mem_mapValues]

/-- Update the value at a key that is present; leave the table alone otherwise. -/
def modify (k : κ) (f : ν → ν) (t : Table κ ν) : Table κ ν :=
  match t.lookup k with
  | some a => t.insert k (f a)
  | none => t

@[simp] theorem lookup_modify_self (k : κ) (f : ν → ν) (t : Table κ ν) :
    (t.modify k f).lookup k = (t.lookup k).map f := by
  unfold modify
  cases h : t.lookup k with
  | none => exact h
  | some a => exact Finmap.lookup_insert t

theorem lookup_modify_of_ne {k k' : κ} (h : k' ≠ k) (f : ν → ν) (t : Table κ ν) :
    (t.modify k f).lookup k' = t.lookup k' := by
  unfold modify
  cases t.lookup k with
  | none => rfl
  | some a => exact Finmap.lookup_insert_of_ne t h

theorem lookup_modify (k k' : κ) (f : ν → ν) (t : Table κ ν) :
    (t.modify k f).lookup k' = if k' = k then (t.lookup k').map f else t.lookup k' := by
  split_ifs with h
  · rw [h, lookup_modify_self]
  · exact lookup_modify_of_ne h f t

@[simp] theorem mem_modify (k k' : κ) (f : ν → ν) (t : Table κ ν) :
    k' ∈ t.modify k f ↔ k' ∈ t := by
  rw [← Finmap.lookup_isSome, ← Finmap.lookup_isSome, lookup_modify]
  split_ifs
  · rw [Option.isSome_map]
  · rfl

@[simp] theorem keys_modify (k : κ) (f : ν → ν) (t : Table κ ν) :
    (t.modify k f).keys = t.keys := by
  ext k'
  rw [Finmap.mem_keys, Finmap.mem_keys, mem_modify]

theorem lookup_insert_eq (k k' : κ) (a : ν) (t : Table κ ν) :
    (t.insert k a).lookup k' = if k' = k then some a else t.lookup k' := by
  split_ifs with h
  · rw [h]; exact Finmap.lookup_insert t
  · exact Finmap.lookup_insert_of_ne t h

theorem lookup_erase_eq (k k' : κ) (t : Table κ ν) :
    (t.erase k).lookup k' = if k' = k then none else t.lookup k' := by
  split_ifs with h
  · rw [h]; exact Finmap.lookup_erase k t
  · exact Finmap.lookup_erase_ne h

theorem keys_insert (k : κ) (a : ν) (t : Table κ ν) :
    (t.insert k a).keys = Insert.insert k t.keys := by
  ext k'
  rw [Finmap.mem_keys, Finmap.mem_insert, Finset.mem_insert, Finmap.mem_keys]

def eraseAll (ks : List κ) (t : Table κ ν) : Table κ ν :=
  ks.foldl (fun m k => m.erase k) t

theorem lookup_eraseAll (ks : List κ) (t : Table κ ν) (k : κ) :
    (t.eraseAll ks).lookup k = if k ∈ ks then none else t.lookup k := by
  induction ks generalizing t with
  | nil => simp [eraseAll]
  | cons k' ks ih =>
    change ((t.erase k').eraseAll ks).lookup k = _
    rw [ih, lookup_erase_eq]
    by_cases h : k ∈ ks <;> by_cases hk : k = k' <;> simp [h, hk]

def total {μ : Type w} [AddCommMonoid μ] (t : Table κ ν) (q : κ → μ) : μ :=
  ∑ k ∈ t.keys, q k

theorem total_add_eq {μ : Type w} [AddCommMonoid μ] {t t' : Table κ ν} {q p : κ → μ} {k : κ}
    (hkeys : t'.keys = t.keys) (hk : k ∈ t) (hne : ∀ i, i ≠ k → p i = q i) :
    t'.total p + q k = t.total q + p k := by
  have hmem : k ∈ t.keys := Finmap.mem_keys.mpr hk
  have hrest : ∑ i ∈ t.keys.erase k, p i = ∑ i ∈ t.keys.erase k, q i :=
    Finset.sum_congr rfl fun i hi => hne i (Finset.ne_of_mem_erase hi)
  calc t'.total p + q k
      = p k + ∑ i ∈ t.keys.erase k, q i + q k := by
        rw [total, hkeys, ← Finset.add_sum_erase _ p hmem, hrest]
    _ = q k + ∑ i ∈ t.keys.erase k, q i + p k := by
        rw [add_assoc, add_comm (p k), add_comm (∑ i ∈ t.keys.erase k, q i)]
    _ = t.total q + p k := by
        rw [total, Finset.add_sum_erase _ q hmem]

end Finmap
