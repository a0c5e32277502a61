import QuipCoordinator.Dashboard

/-!
# The page, the totals and the submission of one trail

A page with a limit shows rows of the whole trail, each with its own number, and what
it says about the trail does not depend on the limit. The totals and the submission
pick their row in different ways: both take the last submitted row, and without one
the totals take none while the submission takes an accepted row or the last.
-/

namespace QuipCoordinator
namespace Dashboard
open Json

theorem kept_some (records : List Map) (n : Nat) :
    List.LastAt tsNsOf n records (kept records (some n)) := by
  have hlast := List.lastAt_drop_insertionSort tsNsOf n records
  simpa only [kept, List.length_insertionSort, List.length_zipIdx] using hlast

theorem envelope_submission (records : List Map) (solutionNumber : Nat) (limit : Option Nat) :
    (envelope records solutionNumber limit).get "submission" =
      some (submissionFromRecords records solutionNumber) := by
  simp [envelope, Value.get]

theorem envelope_attempts (records : List Map) (solutionNumber : Nat) (limit : Option Nat) :
    (envelope records solutionNumber limit).get "attempts" =
      some (.array ((kept records limit).map (attemptAt solutionNumber))) := by
  simp [envelope, Value.get, attempts, List.lookup_cons]

theorem envelope_totals (records : List Map) (solutionNumber : Nat) (limit : Option Nat) :
    (envelope records solutionNumber limit).get "totals" =
      if limit.isSome then some (totalsFromRecords records) else none := by
  cases limit <;> simp [envelope, Value.get, List.lookup_cons]

/-- A limited page has the submission of the whole trail and totals that no limit changes. Its
attempts are as many of the whole trail's as the limit allows, unchanged, in the order of their
times and on equal times of the file, and no attempt left out comes after one of them. -/
theorem limited_page_views_trail (records : List Map) (solutionNumber n : Nat) :
    (envelope records solutionNumber (some n)).get "submission" =
      (envelope records solutionNumber none).get "submission" ∧
    (envelope records solutionNumber (some n)).get "totals" = some (totalsFromRecords records) ∧
    ∃ placed, List.LastAt tsNsOf n records placed ∧
      (envelope records solutionNumber none).get "attempts" =
        some (.array (records.zipIdx.map (attemptAt solutionNumber))) ∧
      (envelope records solutionNumber (some n)).get "attempts" =
        some (.array (placed.map (attemptAt solutionNumber))) := by
  refine ⟨?_, ?_, kept records (some n), kept_some records n, ?_, ?_⟩
  · rw [envelope_submission, envelope_submission]
  · rw [envelope_totals]
    rfl
  · exact envelope_attempts records solutionNumber none
  · exact envelope_attempts records solutionNumber (some n)

/-! ## Totals and submission -/

def Safe (i : Int) : Prop := jsMinSafeInteger ≤ i ∧ i ≤ jsMaxSafeInteger

instance (i : Int) : Decidable (Safe i) := inferInstanceAs (Decidable (_ ∧ _))

theorem safe_zero : Safe 0 := by decide

theorem safeI64_of_safe {i : Int} (h : Safe i) : safeI64 i = .number (.ofInt i) := if_pos h

theorem toInt_of_safe {i : Int} (h : Safe i) : (Number.ofInt i).toInt = some i := by
  unfold Safe jsMinSafeInteger jsMaxSafeInteger at h
  exact Number.toInt_ofInt (by omega) (by omega)

theorem bestEnergyMilli_le {records : List Map} {rec : Map} (hrec : rec ∈ records) {e : Int}
    (h : resolvedEnergyMilli rec = some e) : bestEnergyMilli records ≤ e := by
  have hmem : e ∈ records.filterMap resolvedEnergyMilli := List.mem_filterMap.mpr ⟨rec, hrec, h⟩
  cases hmin : (records.filterMap resolvedEnergyMilli).min? with
  | none =>
    rw [List.min?_eq_none_iff.mp hmin] at hmem
    exact absurd hmem List.not_mem_nil
  | some best =>
    rw [bestEnergyMilli, hmin]
    exact (List.min?_eq_some_iff.mp hmin).2 e hmem

theorem chosenRecord_mem (records : List Map) :
    chosenRecord records ∈ records ∨ chosenRecord records = [] := by
  unfold chosenRecord
  cases hs : records.reverse.find? isSubmitted with
  | some rec => exact Or.inl (List.mem_reverse.mp (List.mem_of_find?_eq_some hs))
  | none =>
    cases ha : records.reverse.find? isAccepted with
    | some rec => exact Or.inl (List.mem_reverse.mp (List.mem_of_find?_eq_some ha))
    | none =>
      cases hl : records.getLast? with
      | some rec => exact Or.inl (List.mem_of_getLast? hl)
      | none => exact Or.inr rfl

def SameNumValid (records : List Map) (solutionNumber : Nat) : Prop :=
  (totalsFromRecords records).get "num_valid" =
    (submissionFromRecords records solutionNumber).get "num_valid"

/-- The best energy of the trail is at most the energy of the submission where its row holds a real
one and both are served as they are. -/
def BestAtMost (records : List Map) (solutionNumber : Nat) : Prop :=
  ∀ e, resolvedEnergyMilli (chosenRecord records) = some e → Safe e →
    Safe (bestEnergyMilli records) →
    ∃ best energy, (totalsFromRecords records).get "best_energy_milli" = some (.number best) ∧
      (submissionFromRecords records solutionNumber).get "energy_milli" = some (.number energy) ∧
      ∃ x y, best.toInt = some x ∧ energy.toInt = some y ∧ x ≤ y

def Agree (records : List Map) (solutionNumber : Nat) : Prop :=
  SameNumValid records solutionNumber ∧ BestAtMost records solutionNumber

/-- Some row is submitted, or the row the submission falls back to has no number of valid
solutions. -/
def OneSource (records : List Map) : Prop :=
  (∃ rec ∈ records, isSubmitted rec = true) ∨
    ∀ rec, (records.reverse.find? isAccepted).or records.getLast? = some rec →
      u64Field rec "n_valid" = none

theorem bestAtMost (records : List Map) (solutionNumber : Nat) :
    BestAtMost records solutionNumber := by
  intro e he hsafe hbest
  have hle : bestEnergyMilli records ≤ e := by
    rcases chosenRecord_mem records with hmem | hempty
    · exact bestEnergyMilli_le hmem he
    · rw [hempty] at he
      cases he
  refine ⟨.ofInt (bestEnergyMilli records), .ofInt e, ?_, ?_, _, _, toInt_of_safe hbest,
    toInt_of_safe hsafe, hle⟩
  · simp [totalsFromRecords, Value.get, List.lookup_cons, safeI64_of_safe hbest]
  · simp [submissionFromRecords, Value.get, List.lookup_cons, wireEnergyMilli, he,
      safeI64_of_safe hsafe]

theorem orNull_safeU64_eq_null {x : Option Nat} : orNull safeU64 x = .null ↔ x = none := by
  cases x with
  | none => exact iff_of_true rfl rfl
  | some n =>
    refine iff_of_false ?_ nofun
    simp only [orNull, safeU64, safeI64]
    split_ifs <;> exact nofun

/-- The totals count the solutions of the newest submitted row and of no other, so they say what the
submission says exactly where one row is submitted or the row it falls back to counts none. Their
energy is never above that of the submission. -/
theorem totals_agree_iff (records : List Map) (solutionNumber : Nat) :
    (SameNumValid records solutionNumber ↔ OneSource records) ∧
      BestAtMost records solutionNumber := by
  refine ⟨?_, bestAtMost records solutionNumber⟩
  have htotals : (totalsFromRecords records).get "num_valid" =
      some (orNull safeU64 ((records.reverse.find? isSubmitted).bind (u64Field · "n_valid"))) := by
    simp [totalsFromRecords, Value.get, List.lookup_cons]
  have hsubmission : (submissionFromRecords records solutionNumber).get "num_valid" =
      some (orNull safeU64 (u64Field (chosenRecord records) "n_valid")) := by
    simp [submissionFromRecords, Value.get, List.lookup_cons]
  rw [SameNumValid, htotals, hsubmission, Option.some.injEq]
  cases hs : records.reverse.find? isSubmitted with
  | some rec =>
    have hchosen : chosenRecord records = rec := by simp [chosenRecord, hs]
    refine iff_of_true (by rw [hchosen]; rfl) (Or.inl ⟨rec, ?_, ?_⟩)
    · exact List.mem_reverse.mp (List.mem_of_find?_eq_some hs)
    · exact List.find?_some hs
  | none =>
    have hchosen : chosenRecord records =
        ((records.reverse.find? isAccepted).or records.getLast?).getD [] := by
      simp [chosenRecord, hs]
    have hnone : ¬∃ rec ∈ records, isSubmitted rec = true := by
      rintro ⟨rec, hrec, hsub⟩
      exact absurd hsub (List.find?_eq_none.mp hs rec (List.mem_reverse.mpr hrec))
    rw [Option.bind_none, eq_comm, OneSource, or_iff_right hnone, hchosen]
    change orNull safeU64 _ = .null ↔ _
    rw [orNull_safeU64_eq_null]
    cases (records.reverse.find? isAccepted).or records.getLast? with
    | none => exact iff_of_true rfl nofun
    | some rec =>
      constructor
      · intro h rec' hrec'
        cases hrec'
        exact h
      · exact fun h => h rec rfl

/-- One accepted row that was not submitted: the submission counts its valid solutions and the
totals count none. -/
theorem totals_disagree_unsubmitted :
    ¬Agree [[("n_valid", .number (.posInt 6)), ("accepted", .bool true),
      ("submitted", .bool false)]] 42 := by
  intro h
  have hvalid : some Value.null = some (Value.number (.ofInt 6)) := h.1
  cases hvalid

end Dashboard
end QuipCoordinator
