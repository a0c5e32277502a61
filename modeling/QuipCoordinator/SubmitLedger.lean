import Mathlib.Order.Interval.Finset.Nat
import QuipCoordinator.FoundationTable
import QuipCoordinator.Session

/-!
# The ledger of refused submissions

The ledger counts the refusals of a job inside one quantum block and drops blocks
more than seven below the block it last counted in. An id that comes after is then
safe, an id far below is not: blocks above the last one are never dropped, and a
block without an id counts as 0. `Survives` says on the ids alone which blocks are
still there.
-/

namespace QuipCoordinator

def qblockRetention : Nat := 8

structure SubmitLedger where
  maxAttempts : Nat
  counts : Table Nat (Table JobId Nat)
deriving DecidableEq

namespace SubmitLedger

def new (maxAttempts : Nat) : SubmitLedger := ⟨max maxAttempts 1, ∅⟩

def attempts (l : SubmitLedger) (qblockId : Nat) (jobId : JobId) : Nat :=
  ((l.counts.lookup qblockId).bind (·.lookup jobId)).getD 0

def trackedQblocks (l : SubmitLedger) : Nat := l.counts.keys.card

def prune (l : SubmitLedger) (newest : Nat) : SubmitLedger :=
  let cutoff := newest - (qblockRetention - 1)
  { l with counts := l.counts.filter fun q _ => cutoff ≤ q }

def recordFailure (l : SubmitLedger) (qblockId : Nat) (jobId : JobId) :
    SubmitLedger × SubmitAction :=
  let jobs := (l.counts.lookup qblockId).getD ∅
  let n := satAdd 32 ((jobs.lookup jobId).getD 0) 1
  let l := { l with counts := l.counts.insert qblockId (jobs.insert jobId n) }
  (l.prune qblockId, if l.maxAttempts ≤ n then .stopFatal else .retry)

def recordSuccess (l : SubmitLedger) (qblockId : Nat) (jobId : JobId) : SubmitLedger :=
  { l with counts := l.counts.modify qblockId (·.erase jobId) }

variable {l : SubmitLedger} {q p : Nat} {j i : JobId}

theorem attempts_recordFailure :
    (l.recordFailure p i).1.attempts q j =
      if q + 7 < p then 0
      else if q = p ∧ j = i then satAdd 32 (l.attempts q j) 1
      else l.attempts q j := by
  have hlookup : (l.recordFailure p i).1.counts.lookup q =
      if q + 7 < p then none
      else (l.counts.insert p (((l.counts.lookup p).getD ∅).insert i
        (satAdd 32 ((((l.counts.lookup p).getD ∅).lookup i).getD 0) 1))).lookup q := by
    refine (Finmap.lookup_filter_key (fun q => decide (p - 7 ≤ q)) _ q).trans ?_
    simp only [decide_eq_true_eq]
    split_ifs <;> first | rfl | omega
  rw [attempts, hlookup, Finmap.lookup_insert_eq]
  split_ifs with hold hp hboth
  · rfl
  · obtain ⟨rfl, rfl⟩ := hboth
    cases hq : l.counts.lookup q <;> simp [attempts, hq]
  · subst hp
    have hji : j ≠ i := fun h => hboth ⟨rfl, h⟩
    cases hq : l.counts.lookup q <;> simp [attempts, hq, Finmap.lookup_insert_of_ne, hji]
  · rename_i hboth
    exact absurd hboth.1 hp
  · rfl

theorem recordFailure_action :
    (l.recordFailure p i).2 = .stopFatal ↔ l.maxAttempts ≤ satAdd 32 (l.attempts p i) 1 := by
  have hn : (((l.counts.lookup p).getD ∅).lookup i).getD 0 = l.attempts p i := by
    cases hp : l.counts.lookup p <;> simp [attempts, hp]
  rw [recordFailure]
  simp only [hn]
  split_ifs with h
  · exact iff_of_true rfl h
  · exact iff_of_false not_false h

theorem attempts_recordSuccess :
    (l.recordSuccess p i).attempts q j = if q = p ∧ j = i then 0 else l.attempts q j := by
  rw [attempts, recordSuccess, Finmap.lookup_modify]
  split_ifs with hp hboth hboth
  · rw [hboth.2]
    cases l.counts.lookup q <;> simp
  · have hji : j ≠ i := fun h => hboth ⟨hp, h⟩
    cases hq : l.counts.lookup q <;> simp [attempts, hq, Finmap.lookup_erase_ne, hji]
  · exact absurd hboth.1 hp
  · rfl

theorem mem_recordFailure :
    q ∈ (l.recordFailure p i).1.counts ↔ (q = p ∨ q ∈ l.counts) ∧ p ≤ q + 7 := by
  refine (Finmap.mem_filter_key (fun q => decide (p - 7 ≤ q)) _ q).trans ?_
  rw [Finmap.mem_insert, decide_eq_true_eq, Nat.sub_le_iff_le_add]

theorem mem_recordSuccess : q ∈ (l.recordSuccess p i).counts ↔ q ∈ l.counts :=
  Finmap.mem_modify _ _ _ _

end SubmitLedger

/-! ## Sequences of calls -/

inductive LedgerCall
  | failure (qblockId : Nat) (jobId : JobId)
  | success (qblockId : Nat) (jobId : JobId)
deriving DecidableEq

namespace LedgerCall

def qblockId : LedgerCall → Nat
  | failure q _ | success q _ => q

def apply (l : SubmitLedger) : LedgerCall → SubmitLedger
  | failure q j => (l.recordFailure q j).1
  | success q j => l.recordSuccess q j

def failedIds (calls : List LedgerCall) : List Nat :=
  calls.filterMap fun c =>
    match c with
    | failure q _ => some q
    | success _ _ => none

/-- The refusals of a job in a block since its last success there. -/
def failuresSince (calls : List LedgerCall) (q : Nat) (j : JobId) : Nat :=
  (calls.reverse.takeWhile (· ≠ success q j)).count (failure q j)

end LedgerCall

open LedgerCall

def SubmitLedger.run (maxAttempts : Nat) (calls : List LedgerCall) : SubmitLedger :=
  calls.foldl LedgerCall.apply (.new maxAttempts)

/-- An id of the list with no later id more than seven above it. -/
def Survives (ids : List Nat) (q : Nat) : Prop :=
  ∃ before after, ids = before ++ q :: after ∧ ∀ p ∈ after, p ≤ q + 7

theorem survives_concat {ids : List Nat} {p q : Nat} :
    Survives (ids ++ [p]) q ↔ (q = p ∨ Survives ids q) ∧ p ≤ q + 7 := by
  constructor
  · rintro ⟨before, after, heq, hafter⟩
    induction after using List.reverseRecOn with
    | nil =>
      obtain ⟨-, hp⟩ := List.append_inj' heq rfl
      obtain rfl := List.singleton_inj.mp hp
      exact ⟨Or.inl rfl, Nat.le_add_right p 7⟩
    | append_singleton after p' _ =>
      rw [← List.cons_append, ← List.append_assoc] at heq
      obtain ⟨hids, hp⟩ := List.append_inj' heq rfl
      obtain rfl := List.singleton_inj.mp hp
      refine ⟨Or.inr ⟨before, after, hids, fun p' hp' => ?_⟩, ?_⟩
      · exact hafter p' (List.mem_append_left _ hp')
      · exact hafter p (List.mem_append_right _ (List.mem_singleton_self p))
  · rintro ⟨rfl | ⟨before, after, rfl, hafter⟩, hp⟩
    · exact ⟨ids, [], rfl, fun p hp => absurd hp List.not_mem_nil⟩
    · refine ⟨before, after ++ [p], by simp, ?_⟩
      intro p' hp'
      rcases List.mem_append.mp hp' with hp' | hp'
      · exact hafter p' hp'
      · exact (List.mem_singleton.mp hp').trans_le hp

variable {maxAttempts : Nat}

@[simp] theorem run_concat (calls : List LedgerCall) (c : LedgerCall) :
    SubmitLedger.run maxAttempts (calls ++ [c]) = c.apply (.run maxAttempts calls) := by
  simp [SubmitLedger.run]

theorem maxAttempts_run (calls : List LedgerCall) :
    (SubmitLedger.run maxAttempts calls).maxAttempts = max maxAttempts 1 := by
  induction calls using List.reverseRecOn with
  | nil => rfl
  | append_singleton calls c ih =>
    rw [run_concat]
    cases c <;> exact ih

/-- The blocks that the ledger holds are the surviving ids. -/
theorem mem_run_iff (calls : List LedgerCall) (q : Nat) :
    q ∈ (SubmitLedger.run maxAttempts calls).counts ↔ Survives (failedIds calls) q := by
  induction calls using List.reverseRecOn with
  | nil =>
    refine iff_of_false Finmap.notMem_empty ?_
    rintro ⟨before, after, heq, -⟩
    simp [failedIds] at heq
  | append_singleton calls c ih =>
    rw [run_concat]
    cases c with
    | failure p i =>
      have hids : failedIds (calls ++ [failure p i]) = failedIds calls ++ [p] := by
        simp [failedIds]
      rw [hids, survives_concat, ← ih]
      exact SubmitLedger.mem_recordFailure
    | success p i =>
      have hids : failedIds (calls ++ [success p i]) = failedIds calls := by simp [failedIds]
      rw [hids, ← ih]
      exact SubmitLedger.mem_recordSuccess

theorem attempts_run {calls : List LedgerCall} {q : Nat} (h : ∀ c ∈ calls, c.qblockId ≤ q)
    (j : JobId) : (SubmitLedger.run maxAttempts calls).attempts q j =
      min (failuresSince calls q j) (2 ^ 32 - 1) := by
  induction calls using List.reverseRecOn with
  | nil => rfl
  | append_singleton calls c ih =>
    have ih := ih fun c' hc' => h c' (List.mem_append_left _ hc')
    have hc : c.qblockId ≤ q := h c (List.mem_append_right _ (List.mem_singleton_self c))
    rw [run_concat]
    cases c with
    | failure p i =>
      change p ≤ q at hc
      have hsince : failuresSince (calls ++ [failure p i]) q j =
          failuresSince calls q j + if q = p ∧ j = i then 1 else 0 := by
        by_cases hsame : q = p ∧ j = i
        · simp [failuresSince, hsame]
        · have hne : failure p i ≠ failure q j := by
            intro heq
            injection heq with hp hi
            exact hsame ⟨hp.symm, hi.symm⟩
          simp [failuresSince, hsame, List.count_cons_of_ne hne]
      rw [LedgerCall.apply, SubmitLedger.attempts_recordFailure, if_neg (by omega), hsince, ih,
        satAdd]
      split_ifs <;> omega
    | success p i =>
      rw [LedgerCall.apply, SubmitLedger.attempts_recordSuccess, ih]
      split_ifs with hsame
      · obtain ⟨rfl, rfl⟩ := hsame
        simp [failuresSince]
      · have hne : success p i ≠ success q j := by
          intro heq
          injection heq with hp hi
          exact hsame ⟨hp.symm, hi.symm⟩
        simp [failuresSince, hne]

/-! ## The bounds -/

/-- At some point nine refused blocks survive at once. -/
def Crowded (calls : List LedgerCall) : Prop :=
  ∃ past, past <+: calls ∧
    ∃ S : Finset Nat, S.card = qblockRetention + 1 ∧ ∀ q ∈ S, Survives (failedIds past) q

theorem trackedQblocks_le_iff (calls : List LedgerCall) :
    (SubmitLedger.run maxAttempts calls).trackedQblocks ≤ qblockRetention ↔
      ¬∃ S : Finset Nat, S.card = qblockRetention + 1 ∧ ∀ q ∈ S, Survives (failedIds calls) q := by
  constructor
  · rintro hle ⟨S, hcard, hS⟩
    have hsub : S ⊆ (SubmitLedger.run maxAttempts calls).counts.keys :=
      fun q hq => Finmap.mem_keys.mpr ((mem_run_iff calls q).mpr (hS q hq))
    have hmany := Finset.card_le_card hsub
    rw [hcard] at hmany
    exact absurd hle (Nat.not_le.mpr hmany)
  · intro h
    by_contra hgt
    obtain ⟨S, hsub, hcard⟩ := Finset.exists_subset_card_eq (Nat.lt_of_not_le hgt)
    exact h ⟨S, hcard, fun q hq => (mem_run_iff calls q).mp (Finmap.mem_keys.mp (hsub hq))⟩

theorem mem_of_survives {ids : List Nat} {q : Nat} (h : Survives ids q) : q ∈ ids := by
  obtain ⟨before, after, rfl, -⟩ := h
  exact List.mem_append_right before List.mem_cons_self

theorem survivors_close {ids : List Nat} (h : ids.Pairwise fun a b => a ≤ b + 7) {a b : Nat}
    (ha : Survives ids a) (hb : Survives ids b) : b ≤ a + 7 := by
  induction ids using List.reverseRecOn with
  | nil => exact absurd (mem_of_survives ha) List.not_mem_nil
  | append_singleton ids p ih =>
    obtain ⟨hrest, -, hlast⟩ := List.pairwise_append.mp h
    obtain ⟨rfl | ha, hpa⟩ := survives_concat.mp ha
    · obtain ⟨rfl | hb, -⟩ := survives_concat.mp hb
      · exact Nat.le_add_right b 7
      · exact hlast b (mem_of_survives hb) a (List.mem_singleton_self a)
    · obtain ⟨rfl | hb, -⟩ := survives_concat.mp hb
      · exact hpa
      · exact ih hrest ha hb

theorem not_crowded_of_drops {calls : List LedgerCall}
    (h : (failedIds calls).Pairwise fun a b => a ≤ b + 7) : ¬Crowded calls := by
  rintro ⟨past, hpast, S, hcard, hS⟩
  have hsub : failedIds past <+: failedIds calls := hpast.filterMap _
  have hclose := fun a ha b hb =>
    survivors_close (h.sublist hsub.sublist) (hS a ha) (hS b hb)
  have hne : S.Nonempty := by
    rw [← Finset.card_pos, hcard]
    exact Nat.succ_pos _
  obtain ⟨m, hm, hmin⟩ := S.exists_min_image id hne
  have hwindow : S ⊆ Finset.Icc m (m + 7) :=
    fun q hq => Finset.mem_Icc.mpr ⟨hmin q hq, hclose m hm q hq⟩
  have hle := Finset.card_le_card hwindow
  rw [hcard, Nat.card_Icc, qblockRetention] at hle
  omega

structure LedgerLaw (maxAttempts : Nat) (calls : List LedgerCall) : Prop where
  bounded : ∀ past, past <+: calls →
    (SubmitLedger.run maxAttempts past).trackedQblocks ≤ qblockRetention
  fatal : (calls.Pairwise fun a b => a.qblockId ≤ b.qblockId) →
    ∀ past q j, past ++ [failure q j] <+: calls →
      (((SubmitLedger.run maxAttempts past).recordFailure q j).2 = .stopFatal ↔
        max 1 maxAttempts ≤ failuresSince past q j + 1)
  retried : (calls.Pairwise fun a b => a.qblockId ≤ b.qblockId) →
    ∀ past q j, past ++ [failure q j] <+: calls →
      ((SubmitLedger.run maxAttempts past).recordFailure q j).2 = .retry →
      failuresSince (past ++ [failure q j]) q j < max 1 maxAttempts
  isolated : ∀ past p i q j, past ++ [success p i] <+: calls → ¬(q = p ∧ j = i) →
    (SubmitLedger.run maxAttempts (past ++ [success p i])).attempts q j =
      (SubmitLedger.run maxAttempts past).attempts q j

theorem fatal_iff (hmax : maxAttempts < 2 ^ 32) {calls past : List LedgerCall} {q : Nat}
    {j : JobId} (hsorted : calls.Pairwise fun a b => a.qblockId ≤ b.qblockId)
    (hpast : past ++ [failure q j] <+: calls) :
    ((SubmitLedger.run maxAttempts past).recordFailure q j).2 = .stopFatal ↔
      max 1 maxAttempts ≤ failuresSince past q j + 1 := by
  have hle : ∀ c ∈ past, c.qblockId ≤ q := by
    obtain ⟨-, -, hlast⟩ := List.pairwise_append.mp (hsorted.sublist hpast.sublist)
    exact fun c hc => hlast c hc _ (List.mem_singleton_self _)
  rw [SubmitLedger.recordFailure_action, attempts_run hle, maxAttempts_run, satAdd]
  omega

/-- The ledger keeps its bounds exactly when its refusals never crowd. -/
theorem ledger_law_iff (maxAttempts : Nat) (hmax : maxAttempts < 2 ^ 32)
    (calls : List LedgerCall) : LedgerLaw maxAttempts calls ↔ ¬Crowded calls := by
  have hbounded : (∀ past, past <+: calls →
      (SubmitLedger.run maxAttempts past).trackedQblocks ≤ qblockRetention) ↔ ¬Crowded calls := by
    simp only [trackedQblocks_le_iff, Crowded, not_exists, not_and]
  constructor
  · intro h
    exact hbounded.mp h.bounded
  · intro h
    refine ⟨hbounded.mpr h, ?_, ?_, ?_⟩
    · intro hsorted past q j hpast
      exact fatal_iff hmax hsorted hpast
    · intro hsorted past q j hpast hretry
      have hnot : ¬max 1 maxAttempts ≤ failuresSince past q j + 1 := by
        rw [← fatal_iff hmax hsorted hpast, hretry]
        exact SubmitAction.noConfusion
      have hsince : failuresSince (past ++ [failure q j]) q j = failuresSince past q j + 1 := by
        simp [failuresSince]
      rw [hsince]
      exact Nat.lt_of_not_le hnot
    · intro past p i q j _ hne
      rw [run_concat, LedgerCall.apply, SubmitLedger.attempts_recordSuccess, if_neg hne]

/-- Refusals in the blocks 1 to 8 and one while the chain gives no block leave nine blocks. -/
theorem ledger_crowded_by_missing_id :
    qblockRetention < (SubmitLedger.run 3
      ((List.range' 1 8).map (failure · [1]) ++ [failure 0 [1]])).trackedQblocks := by
  decide +kernel

theorem ledger_law_of_two_refusals :
    LedgerLaw 2 [failure 5 [1], failure 5 [1]] ∧
      ((SubmitLedger.run 2 [failure 5 [1]]).recordFailure 5 [1]).2 = .stopFatal := by
  have hlaw := (ledger_law_iff 2 (by decide) [failure 5 [1], failure 5 [1]]).mpr
    (not_crowded_of_drops (by decide))
  exact ⟨hlaw, (hlaw.fatal (by decide) [failure 5 [1]] 5 [1] (List.prefix_refl _)).mpr (by decide)⟩

end QuipCoordinator
