import Mathlib.Data.List.Basic

/-!
# Bounded retries behind a latch

`retry` asks for answers in turn, up to the first that is accepted and at most `n` of
them. A latch keeps every answer of its visits, and a visit to a latch that is set asks
for none. A visit sets the latch once an answer is accepted, or in any case when it gives
up. So an accepted answer is the last one of all visits, and a latch that gives up has
only one visit that asks.
-/

universe u

variable {α : Type u} (accepts : α → Bool)

def retry (answers : Nat → α) : Nat → List α
  | 0 => []
  | n + 1 =>
    answers 0 :: if accepts (answers 0) then [] else retry (fun i => answers (i + 1)) n

def EndsAccepted (log : List α) : Prop :=
  ∀ before a after, log = before ++ a :: after → accepts a = true → after = []

variable {accepts} {log tried : List α}

theorem length_retry (answers : Nat → α) (n : Nat) :
    (retry accepts answers n).length ≤ n := by
  induction n generalizing answers with
  | zero => exact Nat.le_refl 0
  | succ n ih =>
    rw [retry, List.length_cons]
    split_ifs
    · simp
    · exact Nat.succ_le_succ (ih _)

theorem mem_retry {answers : Nat → α} {n : Nat} {a : α} (h : a ∈ retry accepts answers n) :
    ∃ i, a = answers i := by
  induction n generalizing answers with
  | zero => cases h
  | succ n ih =>
    rw [retry] at h
    rcases List.mem_cons.mp h with h | h
    · exact ⟨0, h⟩
    · split_ifs at h
      · cases h
      · obtain ⟨i, hi⟩ := ih h
        exact ⟨i + 1, hi⟩

theorem endsAccepted_nil : EndsAccepted accepts ([] : List α) := by
  intro before a after h
  simp at h

theorem endsAccepted_of_none (h : log.any accepts = false) : EndsAccepted accepts log := by
  intro before a after hlog ha
  rw [hlog, List.any_append, List.any_cons, ha] at h
  simp at h

theorem endsAccepted_append (hlog : log.any accepts = false) (h : EndsAccepted accepts tried) :
    EndsAccepted accepts (log ++ tried) := by
  intro before a after heq ha
  rcases List.append_eq_append_iff.mp heq with ⟨middle, hbefore, htried⟩ | ⟨middle, hfront, hrest⟩
  · exact h middle a after htried ha
  · cases middle with
    | nil => exact h [] a after (by simpa using hrest.symm) ha
    | cons b middle =>
      rw [List.cons_append, List.cons.injEq] at hrest
      rw [hfront, List.any_append, List.any_cons, ← hrest.1, ha] at hlog
      simp at hlog

theorem endsAccepted_retry (answers : Nat → α) (n : Nat) :
    EndsAccepted accepts (retry accepts answers n) := by
  induction n generalizing answers with
  | zero => exact endsAccepted_nil
  | succ n ih =>
    rw [retry]
    split_ifs with h
    · intro before a after heq ha
      cases before with
      | nil =>
        rw [List.nil_append, List.cons.injEq] at heq
        exact heq.2.symm
      | cons b before => simp at heq
    · change EndsAccepted accepts ([answers 0] ++ _)
      apply endsAccepted_append
      · simp [h]
      · exact ih _

structure Latch (α : Type u) where
  set : Bool
  log : List α
deriving DecidableEq

namespace Latch

def fresh : Latch α := ⟨false, []⟩

variable (accepts) in
def visit (givesUp : Bool) (n : Nat) (answers : Nat → α) (l : Latch α) : Latch α :=
  if l.set then l
  else
    let tried := retry accepts answers n
    ⟨givesUp || tried.any accepts, l.log ++ tried⟩

variable (accepts) in
/-- The latch is set exactly by an accepted answer, and that is the last one. -/
structure Keeps (l : Latch α) : Prop where
  set_eq : l.set = l.log.any accepts
  last : EndsAccepted accepts l.log

variable (accepts) in
/-- Only one visit asked, and an accepted answer is the last one. -/
structure Spends (n : Nat) (l : Latch α) : Prop where
  unasked : l.set = false → l.log = []
  bounded : l.log.length ≤ n
  last : EndsAccepted accepts l.log

variable {l : Latch α} {n : Nat} {answers : Nat → α}

theorem visit_of_set (h : l.set = true) (givesUp : Bool) :
    l.visit accepts givesUp n answers = l := by
  rw [visit, if_pos h]

theorem set_visit_of_set (h : l.set = true) (givesUp : Bool) :
    (l.visit accepts givesUp n answers).set = true := by
  rw [visit_of_set h, h]

theorem set_visit_givesUp : (l.visit accepts true n answers).set = true := by
  rw [visit]
  split_ifs with h
  · exact h
  · rfl

theorem mem_visit {givesUp : Bool} {a : α} (h : a ∈ (l.visit accepts givesUp n answers).log) :
    a ∈ l.log ∨ ∃ i, a = answers i := by
  rw [visit] at h
  split_ifs at h
  · exact Or.inl h
  · rcases List.mem_append.mp h with h | h
    · exact Or.inl h
    · exact Or.inr (mem_retry h)

theorem keeps_fresh : (fresh : Latch α).Keeps accepts where
  set_eq := rfl
  last := endsAccepted_nil

theorem Keeps.visit (h : l.Keeps accepts) : (l.visit accepts false n answers).Keeps accepts := by
  rw [Latch.visit]
  split_ifs with hset
  · exact h
  · have hnone : l.log.any accepts = false := by
      rw [← h.set_eq]
      exact Bool.eq_false_iff.mpr hset
    constructor
    · dsimp only
      rw [List.any_append, hnone]
    · exact endsAccepted_append hnone (endsAccepted_retry answers n)

theorem Keeps.brokenOff (h : l.Keeps accepts) (hset : l.set = false)
    (htried : tried.any accepts = false) : (⟨false, l.log ++ tried⟩ : Latch α).Keeps accepts := by
  have hnone : l.log.any accepts = false := by rw [← h.set_eq, hset]
  constructor
  · dsimp only
    rw [List.any_append, hnone, htried]
    rfl
  · exact endsAccepted_append hnone (endsAccepted_of_none htried)

theorem spends_fresh : (fresh : Latch α).Spends accepts n where
  unasked := fun _ => rfl
  bounded := Nat.zero_le n
  last := endsAccepted_nil

theorem Spends.visit (h : l.Spends accepts n) :
    (l.visit accepts true n answers).Spends accepts n := by
  rw [Latch.visit]
  split_ifs with hset
  · exact h
  · have hnil := h.unasked (Bool.eq_false_iff.mpr hset)
    dsimp only
    rw [hnil, List.nil_append]
    constructor
    · intro hfalse
      cases hfalse
    · exact length_retry answers n
    · exact endsAccepted_retry answers n

theorem Spends.give (h : l.Spends accepts n) :
    ({ l with set := true } : Latch α).Spends accepts n where
  unasked := by
    intro hfalse
    cases hfalse
  bounded := h.bounded
  last := h.last

end Latch
