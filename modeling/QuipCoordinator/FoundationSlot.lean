import Mathlib.Data.List.Basic

/-!
# A cache with one slot

The slot keeps the last value that was read, with its key. A read under that key is
answered from the slot and any other read goes through and replaces it. What is kept
stays true as long as what is read is true, and then an answer from the slot is one
that a read could have given.
-/

abbrev Slot (κ α : Type) := Option (κ × α)

namespace Slot
variable {κ α ε : Type} [DecidableEq κ]

def find (slot : Slot κ α) (k : κ) : Option α :=
  (slot.filter fun p => p.1 = k).map Prod.snd

omit [DecidableEq κ] in
def Valid (slot : Slot κ α) (P : κ → α → Prop) : Prop :=
  ∀ k a, slot = some (k, a) → P k a

/-- The value from the slot, or from `read`. The slot is left as `missing` when there is none. -/
def through (slot : Slot κ α) (k : κ) (read : Except ε (Option α)) (missing : Slot κ α) :
    Except ε (Option α) × Slot κ α :=
  match slot.find k with
  | some a => (.ok (some a), slot)
  | none =>
    match read with
    | .error e => (.error e, slot)
    | .ok none => (.ok none, missing)
    | .ok (some a) => (.ok (some a), some (k, a))

omit [DecidableEq κ] in
theorem valid_none (P : κ → α → Prop) : Valid (none : Slot κ α) P := by
  intro k a h
  cases h

omit [DecidableEq κ] in
theorem valid_some {P : κ → α → Prop} {k : κ} {a : α} (h : P k a) :
    Valid (some (k, a) : Slot κ α) P := by
  intro k' a' heq
  cases heq
  exact h

theorem of_find {slot : Slot κ α} {P : κ → α → Prop} (h : slot.Valid P) {k : κ} {a : α}
    (hfind : slot.find k = some a) : P k a := by
  obtain ⟨⟨k', a'⟩, hfilter, rfl⟩ := Option.map_eq_some_iff.mp hfind
  obtain ⟨hslot, hk⟩ := Option.filter_eq_some_iff.mp hfilter
  obtain rfl : k' = k := by simpa using hk
  exact h k' a' hslot

theorem valid_through {slot missing : Slot κ α} {P : κ → α → Prop} (h : slot.Valid P)
    (hmissing : missing.Valid P) {k : κ} {read : Except ε (Option α)}
    (hread : ∀ a, read = .ok (some a) → P k a) :
    (slot.through k read missing).2.Valid P := by
  unfold through
  split
  · exact h
  · split
    · exact h
    · exact hmissing
    · exact valid_some (hread _ rfl)

theorem through_ok {slot missing : Slot κ α} {P : κ → α → Prop} (h : slot.Valid P) {k : κ}
    {read : Except ε (Option α)} {answer : Option α}
    (hanswer : (slot.through k read missing).1 = .ok answer) :
    read = .ok answer ∨ ∃ a, answer = some a ∧ P k a := by
  unfold through at hanswer
  split at hanswer
  · rename_i a hfind
    cases hanswer
    exact .inr ⟨a, rfl, of_find h hfind⟩
  · split at hanswer
    · cases hanswer
    · exact .inl hanswer
    · exact .inl hanswer

/-- A slot that keeps what the reads would give is transparent. -/
theorem through_eq {slot missing : Slot κ α} {truth : κ → Option α}
    (h : slot.Valid fun k a => truth k = some a) (k : κ) :
    (slot.through k (.ok (truth k) : Except ε (Option α)) missing).1 = .ok (truth k) := by
  unfold through
  split
  · rename_i a hfind
    rw [of_find h hfind]
  · cases truth k <;> rfl

theorem isOk_through {slot missing : Slot κ α} {k : κ} {read : Except ε (Option α)}
    (hread : read.isOk = true) : (slot.through k read missing).1.isOk = true := by
  unfold through
  split
  · rfl
  · split
    · cases hread
    · rfl
    · rfl

end Slot
