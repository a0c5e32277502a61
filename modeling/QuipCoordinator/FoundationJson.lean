import Mathlib.Algebra.Group.Int.Defs
import Mathlib.Algebra.Group.Nat.Defs
import Mathlib.Data.List.Basic

/-!
# JSON values

A number is a 64-bit integer, unsigned or negative, or the bits of a float. A step of
a path is a key of an object or a position in an array. A source says what a value
reports, by path. `Accounted` says that every number inside a value reports its source,
`Spelled` that what is reported stands there as text, and both have one rule for each
kind of value.
-/

namespace Json

inductive Number
  | posInt (n : UInt64)
  | negInt (i : Int64)
  | float (bits : UInt64)
deriving DecidableEq

namespace Number

def ofInt (i : Int) : Number :=
  if 0 ≤ i then .posInt (UInt64.ofNat i.toNat) else .negInt (Int64.ofInt i)

def toInt : Number → Option Int
  | .posInt n => some n.toNat
  | .negInt i => some i.toInt
  | .float _ => none

def asU64 : Number → Option Nat
  | .posInt n => some n.toNat
  | _ => none

def asI64 : Number → Option Int
  | .posInt n => if n.toNat < 2 ^ 63 then some n.toNat else none
  | .negInt i => some i.toInt
  | .float _ => none

theorem asI64_ofInt {i : Int} (hl : -2 ^ 63 ≤ i) (hu : i < 2 ^ 63) :
    (ofInt i).asI64 = some i := by
  unfold ofInt
  split_ifs with h
  · have hn : (UInt64.ofNat i.toNat).toNat = i.toNat := by
      rw [UInt64.toNat_ofNat', Nat.mod_eq_of_lt (by omega)]
    rw [asI64, hn, if_pos (by omega), Int.toNat_of_nonneg h]
  · rw [asI64, Int64.toInt_ofInt_of_le hl hu]

theorem toInt_ofInt {i : Int} (hl : -2 ^ 63 ≤ i) (hu : i < 2 ^ 63) :
    (ofInt i).toInt = some i := by
  unfold ofInt
  split_ifs with h
  · rw [toInt, UInt64.toNat_ofNat', Nat.mod_eq_of_lt (by omega), Int.toNat_of_nonneg h]
  · rw [toInt, Int64.toInt_ofInt_of_le hl hu]

end Number

inductive Value
  | null
  | bool (b : Bool)
  | number (n : Number)
  | string (s : String)
  | array (items : List Value)
  | object (fields : List (String × Value))

abbrev Map := List (String × Value)

inductive Step
  | key (k : String)
  | index (i : Nat)
deriving DecidableEq

namespace Value

def asBool : Value → Option Bool
  | .bool b => some b
  | _ => none

def asU64 : Value → Option Nat
  | .number n => n.asU64
  | _ => none

def asStr : Value → Option String
  | .string s => some s
  | _ => none

def asArray : Value → Option (List Value)
  | .array items => some items
  | _ => none

def get (v : Value) (k : String) : Option Value :=
  match v with
  | .object fields => fields.lookup k
  | _ => none

def pointer : Value → List Step → Option Value
  | v, [] => some v
  | .object fields, .key k :: path => (fields.lookup k).bind (pointer · path)
  | .array items, .index i :: path => items[i]?.bind (pointer · path)
  | _, _ => none

end Value

abbrev Source (α : Type) := List Step → Option α

namespace Source
variable {α : Type}

def empty : Source α := fun _ => none

def leaf (x : Option α) : Source α
  | [] => x
  | _ :: _ => none

def object (fields : List (String × Source α)) : Source α
  | .key k :: path => (fields.lookup k).bind (· path)
  | _ => none

def array (items : List (Source α)) : Source α
  | .index i :: path => items[i]?.bind (· path)
  | _ => none

theorem object_nil (path : List Step) : object ([] : List (String × Source α)) path = none := by
  cases path with
  | nil => rfl
  | cons step path => cases step <;> rfl

theorem array_empty {β : Type} (l : List β) (path : List Step) :
    array (l.map fun _ => (empty : Source α)) path = none := by
  cases path with
  | nil => rfl
  | cons step path =>
    cases step with
    | key k => rfl
    | index i =>
      rw [array, List.getElem?_map]
      cases l[i]? <;> rfl

end Source

theorem lookup_map_key {α β : Type} (l : List (String × α)) (f : String × α → β) (k : String) :
    (l.map fun e => (e.1, f e)).lookup k = (l.find? fun e => k == e.1).map f := by
  induction l with
  | nil => rfl
  | cons e l ih =>
    rw [List.map_cons, List.lookup_cons, List.find?_cons]
    cases k == e.1 with
    | true => rfl
    | false => exact ih

theorem mem_of_lookup {α : Type} {l : List (String × α)} {k : String} {a : α}
    (h : l.lookup k = some a) : (k, a) ∈ l := by
  obtain ⟨before, after, rfl, -⟩ := List.lookup_eq_some_iff.mp h
  simp

namespace Value
variable {α : Type} {R : α → Number → Prop} {T : α → String → Prop}

/-! ## Numbers -/

def Accounted (R : α → Number → Prop) (source : Source α) (v : Value) : Prop :=
  ∀ path n, v.pointer path = some (.number n) → ∃ a, source path = some a ∧ R a n

theorem accounted_scalar {v : Value} (hpointer : ∀ step path, v.pointer (step :: path) = none)
    (hnumber : ∀ n, v ≠ .number n) (source : Source α) : Accounted R source v := by
  intro path n h
  cases path with
  | nil =>
    change some v = _ at h
    exact absurd (Option.some.inj h) (hnumber n)
  | cons step path =>
    rw [hpointer] at h
    cases h

theorem accounted_null (source : Source α) : Accounted R source .null := by
  apply accounted_scalar
  · intro step path
    cases step <;> rfl
  · intro n h
    cases h

theorem accounted_bool (source : Source α) (b : Bool) : Accounted R source (.bool b) := by
  apply accounted_scalar
  · intro step path
    cases step <;> rfl
  · intro n h
    cases h

theorem accounted_string (source : Source α) (s : String) : Accounted R source (.string s) := by
  apply accounted_scalar
  · intro step path
    cases step <;> rfl
  · intro n h
    cases h

theorem accounted_number {a : α} {n : Number} (h : R a n) :
    Accounted R (.leaf (some a)) (.number n) := by
  intro path m hm
  cases path with
  | nil =>
    cases hm
    exact ⟨a, rfl, h⟩
  | cons step path => cases step <;> cases hm

theorem accounted_array {β : Type} {l : List β} {f : β → Value} {g : β → Source α}
    (h : ∀ b ∈ l, Accounted R (g b) (f b)) :
    Accounted R (.array (l.map g)) (.array (l.map f)) := by
  intro path n hn
  cases path with
  | nil => cases hn
  | cons step path =>
    cases step with
    | key k => cases hn
    | index i =>
      obtain ⟨v, hv, hpath⟩ := Option.bind_eq_some_iff.mp hn
      rw [List.getElem?_map] at hv
      obtain ⟨b, hb, rfl⟩ := Option.map_eq_some_iff.mp hv
      obtain ⟨a, ha, hr⟩ := h b (List.mem_of_getElem? hb) path n hpath
      refine ⟨a, ?_, hr⟩
      rw [Source.array, List.getElem?_map, hb]
      exact ha

theorem accounted_object {fields : Map} {sources : List (String × Source α)}
    (h : ∀ k v, fields.lookup k = some v → Accounted R ((sources.lookup k).getD .empty) v) :
    Accounted R (.object sources) (.object fields) := by
  intro path n hn
  cases path with
  | nil => cases hn
  | cons step path =>
    cases step with
    | index i => cases hn
    | key k =>
      obtain ⟨v, hv, hpath⟩ := Option.bind_eq_some_iff.mp hn
      obtain ⟨a, ha, hr⟩ := h k v hv path n hpath
      refine ⟨a, ?_, hr⟩
      rw [Source.object]
      cases hs : sources.lookup k with
      | none =>
        rw [hs] at ha
        cases ha
      | some source =>
        rw [hs] at ha
        exact ha

theorem accounted_fields {fields : Map} {sources : List (String × Source α)}
    (h : ∀ e ∈ fields, Accounted R ((sources.lookup e.1).getD .empty) e.2) :
    Accounted R (.object sources) (.object fields) :=
  accounted_object fun k v hv => h (k, v) (mem_of_lookup hv)

theorem accounted_at {sources : List (String × Source α)} {k : String} {source : Source α}
    {v : Value} (hk : sources.lookup k = some source) (h : Accounted R source v) :
    Accounted R ((sources.lookup k).getD .empty) v := by
  rw [hk]
  exact h

theorem accounted_map {β : Type} {l : List (String × β)} {f : String × β → Value}
    {g : String × β → Source α} (h : ∀ e ∈ l, Accounted R (g e) (f e)) :
    Accounted R (.object (l.map fun e => (e.1, g e))) (.object (l.map fun e => (e.1, f e))) := by
  apply accounted_object
  intro k v hv
  rw [lookup_map_key] at hv
  obtain ⟨e, he, rfl⟩ := Option.map_eq_some_iff.mp hv
  rw [lookup_map_key, he]
  exact h e (List.mem_of_find?_eq_some he)

theorem accounted_of_silent {source : Source α} {v : Value} (h : Accounted R source v)
    (hs : ∀ path, source path = none) (source' : Source α) : Accounted R source' v := by
  intro path n hn
  obtain ⟨a, ha, -⟩ := h path n hn
  rw [hs path] at ha
  cases ha

/-! ## Texts -/

def Spelled (T : α → String → Prop) (source : Source α) (v : Value) : Prop :=
  ∀ path a, source path = some a → ∃ s, v.pointer path = some (.string s) ∧ T a s

theorem spelled_empty (v : Value) : Spelled T .empty v := by
  intro path a h
  cases h

theorem spelled_string {a : α} {s : String} (h : T a s) :
    Spelled T (.leaf (some a)) (.string s) := by
  intro path b hb
  cases path with
  | nil =>
    cases hb
    exact ⟨s, rfl, h⟩
  | cons step path => cases hb

theorem spelled_array {β : Type} {l : List β} {f : β → Value} {g : β → Source α}
    (h : ∀ b ∈ l, Spelled T (g b) (f b)) :
    Spelled T (.array (l.map g)) (.array (l.map f)) := by
  intro path a ha
  cases path with
  | nil => cases ha
  | cons step path =>
    cases step with
    | key k => cases ha
    | index i =>
      obtain ⟨source, hsource, hpath⟩ := Option.bind_eq_some_iff.mp ha
      rw [List.getElem?_map] at hsource
      obtain ⟨b, hb, rfl⟩ := Option.map_eq_some_iff.mp hsource
      obtain ⟨s, hs, ht⟩ := h b (List.mem_of_getElem? hb) path a hpath
      refine ⟨s, ?_, ht⟩
      change ((l.map f)[i]?.bind fun v => v.pointer path) = _
      rw [List.getElem?_map, hb]
      exact hs

theorem spelled_fields {fields : Map} {sources : List (String × Source α)}
    (h : ∀ e ∈ sources, ∃ v, fields.lookup e.1 = some v ∧ Spelled T e.2 v) :
    Spelled T (.object sources) (.object fields) := by
  intro path a ha
  cases path with
  | nil => cases ha
  | cons step path =>
    cases step with
    | index i => cases ha
    | key k =>
      obtain ⟨source, hsource, hpath⟩ := Option.bind_eq_some_iff.mp ha
      obtain ⟨v, hv, hspelled⟩ := h (k, source) (mem_of_lookup hsource)
      obtain ⟨s, hs, ht⟩ := hspelled path a hpath
      refine ⟨s, ?_, ht⟩
      change ((fields.lookup k).bind fun v => v.pointer path) = _
      rw [hv]
      exact hs

end Value
end Json
