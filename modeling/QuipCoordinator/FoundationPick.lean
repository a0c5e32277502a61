import Mathlib.Data.List.Perm.Basic
import Mathlib.Data.List.Perm.Subperm
import Mathlib.Data.List.Nodup

/-!
# Entries of a list at given positions

A selection is a list of positions; `pick` reads the entries there and skips a
position past the end. Distinct positions of a list without duplicates give a
list without duplicates, and all the positions, in any order, give the list back.
-/

universe u v

namespace List
variable {α : Type u} {β : Type v}

def pick (l : List α) (idx : List Nat) : List α := idx.filterMap fun i => l[i]?

theorem map_pick (f : α → β) (l : List α) (idx : List Nat) :
    (l.pick idx).map f = (l.map f).pick idx := by
  simp only [pick, List.map_filterMap, List.getElem?_map]

theorem mem_of_mem_pick {l : List α} {idx : List Nat} {a : α} (h : a ∈ l.pick idx) : a ∈ l := by
  obtain ⟨i, -, hi⟩ := List.mem_filterMap.mp h
  exact List.mem_of_getElem? hi

theorem length_pick {l : List α} {idx : List Nat} (h : ∀ i ∈ idx, i < l.length) :
    (l.pick idx).length = idx.length := by
  induction idx with
  | nil => rfl
  | cons i idx ih =>
    have hi := h i List.mem_cons_self
    have hrest := ih fun j hj => h j (List.mem_cons_of_mem _ hj)
    rw [pick, List.filterMap_cons_some (List.getElem?_eq_getElem hi), List.length_cons,
      List.length_cons]
    exact congrArg (· + 1) hrest

theorem nodup_pick {l : List α} {idx : List Nat} (hl : l.Nodup) (hidx : idx.Nodup) :
    (l.pick idx).Nodup := by
  refine hidx.filterMap ?_
  intro i j a hi hj
  have hlt : i < l.length := (List.getElem?_eq_some_iff.mp hi).1
  exact (List.getElem?_inj hlt hl).mp ((Option.mem_def.mp hi).trans (Option.mem_def.mp hj).symm)

theorem pick_range (l : List α) : l.pick (List.range l.length) = l := by
  induction l with
  | nil => rfl
  | cons a l ih =>
    rw [List.length_cons, List.range_succ_eq_map, pick,
      List.filterMap_cons_some (List.getElem?_cons_zero), List.filterMap_map]
    exact congrArg (a :: ·) ih

theorem pick_sublist {l : List α} {idx : List Nat} (h : idx.Sublist (List.range l.length)) :
    (l.pick idx).Sublist l := by
  have hpick : (l.pick idx).Sublist (l.pick (List.range l.length)) := h.filterMap _
  rwa [pick_range] at hpick

theorem exists_pick_of_sublist {l l' : List α} (h : l.Sublist l') :
    ∃ idx : List Nat, idx.Sublist (List.range l'.length) ∧ l'.pick idx = l := by
  induction h with
  | slnil => exact ⟨[], List.Sublist.refl _, rfl⟩
  | cons a _ ih =>
    obtain ⟨idx, hsub, hpick⟩ := ih
    refine ⟨idx.map (· + 1), ?_, ?_⟩
    · rw [List.length_cons, List.range_succ_eq_map]
      exact (hsub.map _).cons _
    · rw [pick, List.filterMap_map]
      exact hpick
  | cons_cons a _ ih =>
    obtain ⟨idx, hsub, hpick⟩ := ih
    refine ⟨0 :: idx.map (· + 1), ?_, ?_⟩
    · rw [List.length_cons, List.range_succ_eq_map]
      exact (hsub.map _).cons_cons _
    · rw [pick, List.filterMap_cons_some List.getElem?_cons_zero, List.filterMap_map]
      exact congrArg (a :: ·) hpick

theorem pick_perm {l : List α} {idx : List Nat} (hn : idx.Nodup) (hlt : ∀ i ∈ idx, i < l.length)
    (hlen : idx.length = l.length) : (l.pick idx).Perm l := by
  have hsub : idx ⊆ List.range l.length := fun i hi => List.mem_range.mpr (hlt i hi)
  have hperm : idx.Perm (List.range l.length) := by
    refine (hn.subperm hsub).perm_of_length_le ?_
    exact Nat.le_of_eq (List.length_range.trans hlen.symm)
  have hpick : (l.pick idx).Perm (l.pick (List.range l.length)) := hperm.filterMap _
  rwa [pick_range] at hpick

end List
