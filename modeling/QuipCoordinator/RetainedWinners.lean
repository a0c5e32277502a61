import QuipCoordinator.FoundationGreedy
import QuipCoordinator.FoundationSorted
import QuipCoordinator.SelectedProofs
import QuipCoordinator.Session

/-!
# What a retained winner keeps

A winner whose submit failed goes to the stash with the rows of `stashRows`, not
with the rows that were selected for the proof. The stash rows are taken in order
of energy and every prefix of them clears the diversity gate, so a ceiling admits
a prefix that clears it too. What the gates can still miss is the number of rows:
a best row close to all the others pushes them out. So it is asked of the rows of
the result whether enough of them follow one another far enough apart.
-/

namespace QuipCoordinator
open Crates

section
variable [Crates]

/-- Every prefix of two rows or more clears the diversity gate. -/
def PrefixesDiverse (rows : List (List Int)) (gates : QualityGates) (chosen : List Nat) : Prop :=
  ∀ p, p <+: chosen → 2 ≤ p.length → gates.minDiversityMilli ≤
    (selectAndScore (p.map fun k => rows.getD k []) gates.minSolutions).2

theorem PrefixesDiverse.concat {rows : List (List Int)} {gates : QualityGates} {chosen : List Nat}
    (h : PrefixesDiverse rows gates chosen) {i : Nat}
    (hi : (chosen ++ [i]).length < 2 ∨ gates.minDiversityMilli ≤
      (selectAndScore ((chosen ++ [i]).map fun k => rows.getD k []) gates.minSolutions).2) :
    PrefixesDiverse rows gates (chosen ++ [i]) := by
  intro p hp hlen
  rcases List.prefix_concat_iff.mp hp with rfl | hp
  · rcases hi with hshort | hdiv
    · omega
    · exact hdiv
  · exact h p hp hlen

/-- What the scan does with the next row: it stops, or it skips the row, or it examines the row
and holds it or not. -/
theorem stashScan_cons (rows : List (List Int)) (gates : QualityGates) (i : Nat) (order : List Nat)
    (seen : List (List Int)) (examined : Nat) (chosen : List Nat) :
    let key := canonicalizeSpins (rows.getD i [])
    let scan := stashScan rows gates
    (scan (i :: order) seen examined chosen = chosen ∧
      (chosen.length = maxProofSolutions ∨ examined = stashScanLimit)) ∨
    chosen.length ≠ maxProofSolutions ∧ examined ≠ stashScanLimit ∧
      ((key ∈ seen ∧ scan (i :: order) seen examined chosen = scan order seen examined chosen) ∨
      key ∉ seen ∧
        (((chosen ++ [i]).length < 2 ∨ gates.minDiversityMilli ≤
            (selectAndScore ((chosen ++ [i]).map fun k => rows.getD k []) gates.minSolutions).2) ∧
          scan (i :: order) seen examined chosen =
            scan order (key :: seen) (examined + 1) (chosen ++ [i]) ∨
          scan (i :: order) seen examined chosen =
            scan order (key :: seen) (examined + 1) chosen)) := by
  dsimp only
  rw [stashScan]
  by_cases hstop : chosen.length = maxProofSolutions ∨ examined = stashScanLimit
  · rw [if_pos hstop]
    exact Or.inl ⟨rfl, hstop⟩
  rw [if_neg hstop]
  dsimp only
  refine Or.inr ⟨fun he => hstop (Or.inl he), fun he => hstop (Or.inr he), ?_⟩
  by_cases hseen : canonicalizeSpins (rows.getD i []) ∈ seen
  · rw [if_pos hseen]
    exact Or.inl ⟨hseen, rfl⟩
  rw [if_neg hseen]
  by_cases hgrow : (chosen ++ [i]).length < 2 ∨ gates.minDiversityMilli ≤
      (selectAndScore ((chosen ++ [i]).map fun k => rows.getD k []) gates.minSolutions).2
  · rw [if_pos hgrow]
    exact Or.inr ⟨hseen, Or.inl ⟨hgrow, rfl⟩⟩
  · rw [if_neg hgrow]
    exact Or.inr ⟨hseen, Or.inr rfl⟩

/-- What the scan adds to the rows it holds: a subsequence of the order it goes through, every
prefix diverse, and never more than a proof may hold. -/
theorem stashScan_spec (rows : List (List Int)) (gates : QualityGates) (order : List Nat)
    (seen : List (List Int)) (examined : Nat) {chosen : List Nat}
    (hdiv : PrefixesDiverse rows gates chosen) (hlen : chosen.length ≤ maxProofSolutions) :
    (stashScan rows gates order seen examined chosen).Sublist (chosen ++ order) ∧
      PrefixesDiverse rows gates (stashScan rows gates order seen examined chosen) ∧
      (stashScan rows gates order seen examined chosen).length ≤ maxProofSolutions := by
  induction order generalizing seen examined chosen with
  | nil => exact ⟨by simp [stashScan], hdiv, hlen⟩
  | cons i order ih =>
    have hskip : (chosen ++ order).Sublist (chosen ++ i :: order) :=
      (List.sublist_cons_self i order).append_left chosen
    rcases stashScan_cons rows gates i order seen examined chosen with
      ⟨he, -⟩ | ⟨hroom, -, ⟨-, he⟩ | ⟨-, ⟨hgrow, he⟩ | he⟩⟩
    · rw [he]
      exact ⟨List.sublist_append_left _ _, hdiv, hlen⟩
    · rw [he]
      obtain ⟨hs, hd, hl⟩ := ih seen examined hdiv hlen
      exact ⟨hs.trans hskip, hd, hl⟩
    · rw [he]
      have hfit : (chosen ++ [i]).length ≤ maxProofSolutions := by
        rw [List.length_append, List.length_singleton]
        exact lt_of_le_of_ne hlen hroom
      obtain ⟨hs, hd, hl⟩ := ih (canonicalizeSpins (rows.getD i []) :: seen) (examined + 1)
        (hdiv.concat hgrow) hfit
      refine ⟨?_, hd, hl⟩
      rwa [List.append_assoc, List.singleton_append] at hs
    · rw [he]
      obtain ⟨hs, hd, hl⟩ := ih (canonicalizeSpins (rows.getD i []) :: seen) (examined + 1)
        hdiv hlen
      exact ⟨hs.trans hskip, hd, hl⟩

def stashPositions (rows : List (List Int)) (energies : List Int) (gates : QualityGates) :
    List Nat :=
  stashScan rows gates ((List.range rows.length).insertionSort fun a b =>
    energies.getD a 0 ≤ energies.getD b 0) [] 0 []

theorem stashRows_eq (rows : List (List Int)) (energies : List Int) (gates : QualityGates) :
    stashRows rows energies gates = (stashPositions rows energies gates).map (rowAt rows energies) :=
  rfl

theorem stashPositions_spec (rows : List (List Int)) (energies : List Int) (gates : QualityGates) :
    (stashPositions rows energies gates).Pairwise
        (fun a b => energies.getD a 0 ≤ energies.getD b 0) ∧
      PrefixesDiverse rows gates (stashPositions rows energies gates) ∧
      (stashPositions rows energies gates).length ≤ maxProofSolutions := by
  have hnil : PrefixesDiverse rows gates [] := by
    intro p hp hlen
    rw [List.prefix_nil.mp hp] at hlen
    exact absurd hlen (by decide)
  obtain ⟨hs, hd, hl⟩ := stashScan_spec rows gates
    ((List.range rows.length).insertionSort fun a b => energies.getD a 0 ≤ energies.getD b 0)
    [] 0 hnil (Nat.zero_le _)
  exact ⟨(List.pairwise_insertionSort_key _ _).sublist hs, hd, hl⟩

/-! ## The rows of a result that the stash keeps -/

/-- The rows of a result in order of energy, one of each pair of flips. -/
def offeredRows (rows : List (List Int)) (energies : List Int) : List Nat :=
  (firstOccurrences (fun i => canonicalizeSpins (rows.getD i [])) []
    ((List.range rows.length).insertionSort fun a b =>
      energies.getD a 0 ≤ energies.getD b 0)).take stashScanLimit

omit [Crates] in
theorem nodup_offeredRows (rows : List (List Int)) (energies : List Int) :
    (offeredRows rows energies).Nodup := by
  refine List.Nodup.sublist (List.take_sublist _ _) ?_
  exact (nodup_keys_firstOccurrences _ [] _).of_map

/-- The row is the only one, or its diversity with the held rows is at the gate. -/
def fitsBeside (rows : List (List Int)) (gates : QualityGates) (held : List Nat) (i : Nat) : Bool :=
  decide ((held ++ [i]).length < 2 ∨ gates.minDiversityMilli ≤
    (selectAndScore ((held ++ [i]).map fun k => rows.getD k []) gates.minSolutions).2)

/-- The scan keeps the rows that a greedy walk of the rows keeps, as long as there is room. -/
theorem stashScan_eq_greedy (rows : List (List Int)) (gates : QualityGates) (order : List Nat)
    (seen : List (List Int)) {examined : Nat} {chosen : List Nat}
    (hex : examined ≤ stashScanLimit) (hlen : chosen.length ≤ maxProofSolutions) :
    stashScan rows gates order seen examined chosen = chosen ++
      (List.greedy (fun held => fitsBeside rows gates (chosen ++ held))
        ((firstOccurrences (fun i => canonicalizeSpins (rows.getD i [])) seen order).take
          (stashScanLimit - examined))).take (maxProofSolutions - chosen.length) := by
  induction order generalizing seen examined chosen with
  | nil => simp [stashScan, firstOccurrences, List.greedy]
  | cons i order ih =>
    rw [stashScan]
    by_cases hstop : chosen.length = maxProofSolutions ∨ examined = stashScanLimit
    · rw [if_pos hstop]
      rcases hstop with hfull | hdone
      · rw [hfull, Nat.sub_self, List.take_zero, List.append_nil]
      · rw [hdone, Nat.sub_self, List.take_zero, List.greedy, List.take_nil, List.append_nil]
    have hroom : chosen.length < maxProofSolutions :=
      lt_of_le_of_ne hlen fun heq => hstop (Or.inl heq)
    have hleft : examined < stashScanLimit := lt_of_le_of_ne hex fun heq => hstop (Or.inr heq)
    rw [if_neg hstop, firstOccurrences]
    dsimp only
    by_cases hseen : canonicalizeSpins (rows.getD i []) ∈ seen
    · rw [if_pos hseen, if_pos hseen]
      exact ih seen hex hlen
    have hnext : stashScanLimit - examined = stashScanLimit - (examined + 1) + 1 := by omega
    have hmore : maxProofSolutions - chosen.length =
        maxProofSolutions - (chosen ++ [i]).length + 1 := by
      rw [List.length_append, List.length_singleton]
      omega
    rw [if_neg hseen, if_neg hseen, hnext, List.take_succ_cons, List.greedy, List.append_nil]
    by_cases hfit : fitsBeside rows gates chosen i = true
    · have hgrow : (chosen ++ [i]).length ≤ maxProofSolutions := by
        rw [List.length_append, List.length_singleton]
        exact hroom
      rw [if_pos (of_decide_eq_true hfit), if_pos hfit, ih _ hleft hgrow, hmore,
        List.take_succ_cons, List.append_assoc, List.singleton_append]
      simp only [List.append_assoc, List.singleton_append]
    · have hnot : ¬ _ := fun h => hfit (decide_eq_true h)
      rw [if_neg hnot, if_neg hfit]
      exact ih _ hleft hlen

theorem stashPositions_eq_greedy (rows : List (List Int)) (energies : List Int)
    (gates : QualityGates) : stashPositions rows energies gates =
      (List.greedy (fitsBeside rows gates) (offeredRows rows energies)).take
        maxProofSolutions := by
  have hroom : ([] : List Nat).length ≤ maxProofSolutions := Nat.zero_le _
  have h := stashScan_eq_greedy rows gates ((List.range rows.length).insertionSort fun a b =>
    energies.getD a 0 ≤ energies.getD b 0) [] (Nat.zero_le _) hroom
  simpa [stashPositions, offeredRows] using h

/-- Offered rows under the ceiling, as many as the gates ask for, of which each keeps the diversity
with those before it at the gate. A row that is left out before the last of them does not. -/
def EnoughApart (rows : List (List Int)) (energies : List Int) (gates : QualityGates) : Prop :=
  max gates.minSolutions 1 ≤ maxProofSolutions ∧
    ∃ picked, List.Spaced (fitsBeside rows gates) (offeredRows rows energies) picked ∧
      picked.length = max gates.minSolutions 1 ∧
      ∀ i ∈ picked, energies.getD i 0 < gates.minEnergyMilli

/-- The stash rows that a ceiling admits are those of a prefix. -/
theorem admitted_stashRows (rows : List (List Int)) (energies : List Int)
    (gates later : QualityGates) :
    ∃ p, p <+: stashPositions rows energies gates ∧
      admittedRows (stashRows rows energies gates) later = p.map (rowAt rows energies) := by
  have hpre := List.filter_lt_prefix (stashPositions_spec rows energies gates).1
    later.minEnergyMilli
  refine ⟨_, hpre, ?_⟩
  rw [admittedRows, stashRows_eq, List.filter_map]
  rfl

theorem enoughApart_iff (rows : List (List Int)) (energies : List Int) (gates : QualityGates) :
    EnoughApart rows energies gates ↔
      max gates.minSolutions 1 ≤ (admittedRows (stashRows rows energies gates) gates).length := by
  have hpre : ∀ picked : List Nat, picked <+: stashPositions rows energies gates ↔
      List.Spaced (fitsBeside rows gates) (offeredRows rows energies) picked ∧
        picked.length ≤ maxProofSolutions := by
    intro picked
    rw [stashPositions_eq_greedy, List.prefix_take_iff,
      List.prefix_greedy_iff (nodup_offeredRows rows energies)]
  constructor
  · intro h
    obtain ⟨hcap, picked, hspaced, hlen, hadm⟩ := h
    have hp := (hpre picked).mpr ⟨hspaced, hlen ▸ hcap⟩
    have hall : picked.filter (fun i => decide (energies.getD i 0 < gates.minEnergyMilli)) =
        picked := List.filter_eq_self.mpr fun i hi => decide_eq_true (hadm i hi)
    have hsub := hp.sublist.filter fun i => decide (energies.getD i 0 < gates.minEnergyMilli)
    rw [hall] at hsub
    rw [admittedRows, stashRows_eq, List.filter_map, List.length_map, ← hlen]
    exact hsub.length_le
  · intro h
    obtain ⟨p, hp, hadm⟩ := admitted_stashRows rows energies gates gates
    rw [hadm, List.length_map] at h
    have htake := (List.take_prefix (max gates.minSolutions 1) p).trans hp
    have hlen : (p.take (max gates.minSolutions 1)).length = max gates.minSolutions 1 := by
      rw [List.length_take]
      exact Nat.min_eq_left h
    obtain ⟨hspaced, hcap⟩ := (hpre _).mp htake
    refine ⟨hlen ▸ hcap, _, hspaced, hlen, ?_⟩
    intro i hi
    have hrow : rowAt rows energies i ∈ admittedRows (stashRows rows energies gates) gates := by
      rw [hadm]
      exact List.mem_map_of_mem (List.mem_of_mem_take hi)
    exact of_decide_eq_true (List.mem_filter.mp hrow).2

/-- The laws of `SelectionLaws`, and a row alone is not diverse. -/
structure RetentionLaws : Prop extends SelectionLaws where
  lone : ∀ row, IsSpins row → calculateDiversity [row] = some 0

/-- Gates that ask for one row at most accept a result only when they ask for no diversity. -/
theorem minDiversity_eq_zero (laws : RetentionLaws) {rows : List (List Int)} {energies : List Int}
    {gates : QualityGates} (hspin : ∀ row ∈ rows, IsSpins row) (hone : gates.minSolutions ≤ 1)
    (hacc : (validateScored rows energies gates).accepted = true) : gates.minDiversityMilli = 0 := by
  obtain ⟨-, hdiv⟩ := validateScored_accepted hacc
  by_cases hne : uniqueValid rows energies gates = []
  · have hempty : (uniqueValid rows energies gates).isEmpty = true := by simp [hne]
    unfold uniqueValid at hempty
    have hzero : (validateScored rows energies gates).diversityMilli = 0 := by
      simp only [validateScored, hempty]
      rfl
    omega
  · obtain ⟨idx, hscore, hidx, -, hlt⟩ := selectAndScore_spec laws.toSelectionLaws
      (isSpins_map_getD hspin (uniqueValid rows energies gates)) gates.minSolutions
    obtain ⟨-, hd, -⟩ := validateScored_of_select hne hscore
    have hlen : (((uniqueValid rows energies gates).map fun i => rows.getD i []).pick idx).length =
        1 := by
      have hpos := List.length_pos_of_ne_nil hne
      rw [List.length_pick hlt, hidx, List.length_map]
      omega
    obtain ⟨row, hrow⟩ := List.length_eq_one_iff.mp hlen
    have hspins : IsSpins row := by
      refine isSpins_map_getD hspin (uniqueValid rows energies gates) row ?_
      exact List.mem_of_mem_pick (hrow ▸ List.mem_singleton_self row)
    rw [hrow, laws.lone row hspins] at hd
    rw [hd] at hdiv
    exact Nat.le_zero.mp hdiv

theorem stashed_gates_iff (laws : RetentionLaws) {rows : List (List Int)} {energies : List Int}
    {gates : QualityGates} (hspin : ∀ row ∈ rows, IsSpins row)
    (hacc : (validateScored rows energies gates).accepted = true) :
    (checkProofGates (stashRows rows energies gates) gates).accepted = true ↔
      EnoughApart rows energies gates := by
  rw [enoughApart_iff]
  obtain ⟨p, hp, hadm⟩ := admitted_stashRows rows energies gates gates
  obtain ⟨-, hdiv, hlen⟩ := stashPositions_spec rows energies gates
  have hsmall : p.length % 2 ^ 32 = p.length :=
    Nat.mod_eq_of_lt ((hp.length_le.trans hlen).trans_lt (by decide))
  rw [checkProofGates_accepted_iff, hadm, List.length_map, hsmall, List.map_map, max_le_iff]
  constructor
  · intro hand
    obtain ⟨hne, hmin, -⟩ := hand
    refine ⟨hmin, List.length_pos_of_ne_nil ?_⟩
    exact fun hnil => hne (by rw [hnil, List.map_nil])
  · intro hand
    obtain ⟨hmin, hpos⟩ := hand
    refine ⟨?_, hmin, ?_⟩
    · intro hnil
      rw [List.map_eq_nil_iff.mp hnil, List.length_nil] at hpos
      omega
    · by_cases htwo : 2 ≤ p.length
      · exact hdiv p hp htwo
      · -- one row: the gates ask for one row at most, so for no diversity
        rw [minDiversity_eq_zero laws hspin (by omega) hacc]
        exact Nat.zero_le _

theorem WinStash.mem_insert_of_room {s : WinStash} {cand : Candidate}
    (hv : (s.viabilityBlock cand.bestEnergyMilli).isSome = true)
    (hroom : s.candidates.countP (fun c => decide (c.bestEnergyMilli ≤ cand.bestEnergyMilli)) < s.k) :
    cand ∈ (s.insert cand).1.candidates := by
  obtain ⟨b, hb⟩ := Option.isSome_iff_exists.mp hv
  rw [insert, hb]
  refine List.mem_take_of_countP_le (List.pairwise_insertionSort_key _ _) ?_ ?_
  · exact (List.mem_insertionSort _).mpr (List.mem_append_right _ (List.mem_singleton_self _))
  · rw [(List.perm_insertionSort _ _).countP_eq, List.countP_append, List.countP_singleton,
      if_pos (decide_eq_true le_rfl)]
    exact hroom

namespace PowOutcome

omit [Crates] in
def HasRoom (s : WinStash) (o : PowOutcome) : Prop :=
  s.candidates.countP (fun c => decide (c.bestEnergyMilli ≤ o.candidate.bestEnergyMilli)) < s.k

/-- The stash holds a candidate of the job that clears the gates `o` was accepted under. -/
def Retained (s : WinStash) (o : PowOutcome) : Prop :=
  ∃ c ∈ s.candidates, c.jobId = o.jobId ∧ (checkProofGates c.solutions o.gates).accepted = true

end PowOutcome

/-- The best energy of a result clears within the horizon of the stash, and enough of its rows are
far enough apart. -/
def Retainable (s : WinStash) (rows : List (List Int)) (energies : List Int)
    (gates : QualityGates) : Prop :=
  (s.viabilityBlock (energies.min?.getD i64Max)).isSome = true ∧ EnoughApart rows energies gates

/-- A winner whose submit was not taken, with room in the stash, is kept as a candidate that clears
its gates when its rows are retainable, and only then unless it holds its job already. -/
theorem retained_winner_iff_retainable (laws : RetentionLaws) (st : CoordinatorState)
    (o : PowOutcome) (receipt : Option SubmitAction) (rows : List (List Int)) (energies : List Int)
    (hretry : retainsForRetry receipt = true) (hspin : ∀ row ∈ rows, IsSpins row)
    (hval : o.validated = validateScored rows energies o.gates)
    (hacc : o.validated.accepted = true) (hroom : o.HasRoom st.stash) :
    (Retainable st.stash rows energies o.gates →
        o.Retained (st.settle o (retainsForRetry receipt)).stash) ∧
      ((∀ c ∈ st.stash.candidates, c.jobId ≠ o.jobId) →
        o.Retained (st.settle o (retainsForRetry receipt)).stash →
          Retainable st.stash rows energies o.gates) := by
  have hstash : (st.settle o (retainsForRetry receipt)).stash = (st.stash.insert o.candidate).1 := by
    simp [CoordinatorState.settle, hretry]
  have hgates : (checkProofGates o.candidate.solutions o.gates).accepted = true ↔
      EnoughApart rows energies o.gates := by
    change (checkProofGates o.validated.stashSolutions o.gates).accepted = true ↔ _
    rw [hval] at hacc ⊢
    exact stashed_gates_iff laws hspin hacc
  have hbest : o.candidate.bestEnergyMilli = energies.min?.getD i64Max := by
    change o.validated.rawBestEnergyMilli = _
    rw [hval]
    rfl
  rw [hstash, Retainable, ← hbest]
  refine ⟨?_, ?_⟩
  · intro hkeep
    exact ⟨o.candidate, WinStash.mem_insert_of_room hkeep.1 hroom, rfl, hgates.mpr hkeep.2⟩
  · intro hfresh hkept
    obtain ⟨c, hc, hid, hclears⟩ := hkept
    rcases WinStash.mem_insert hc with hold | ⟨rfl, hv⟩
    · exact absurd hid (hfresh c hold)
    · exact ⟨hv, hgates.mp hclears⟩

end

namespace Separation

theorem retentionLaws : RetentionLaws where
  toSelectionLaws := selectionLaws
  lone := by
    intro row _
    change some (meanMilli [row]) = some 0
    simp [meanMilli, distances]

def gates : QualityGates := ⟨0, 400, 2⟩

def armed : CoordinatorState :=
  { CoordinatorState.new with
    stash := (WinStash.new winStashK).reset 1 (some ⟨0, none, 100, .stepwise⟩) 0 }

def outcome (rows : List (List Int)) (energies : List Int) : PowOutcome where
  minerId := "a"
  job := ⟨[1], .isingSample, 1, 0, none, some ⟨true, []⟩, none⟩
  jobId := [1]
  salt := some (saltFromCounter 1)
  validated := validateScored rows energies gates
  gates := gates
  currentBestMilli := none
  deviceAccessTimeUs := 0

/-- The best row is close to both others, which are far from each other. -/
def crowded : PowOutcome := outcome [[1, 1, 1, -1], [1, 1, 1, 1], [1, 1, -1, -1]] [-30, -20, -10]

def spread : PowOutcome := outcome [[1, 1, 1, 1], [1, 1, -1, -1]] [-30, -20]

instance (s : WinStash) (o : PowOutcome) : Decidable (o.HasRoom s) :=
  inferInstanceAs (Decidable (_ < _))

instance (s : WinStash) (o : PowOutcome) : Decidable (o.Retained s) :=
  inferInstanceAs (Decidable (∃ c ∈ s.candidates, _))

end Separation

open Separation in
theorem retained_winner_iff_retainable_spread :
    spread.validated.accepted = true ∧
      Retainable armed.stash [[1, 1, 1, 1], [1, 1, -1, -1]] [-30, -20] gates ∧
      spread.Retained (armed.settle spread (retainsForRetry (some .retry))).stash := by
  have hkeep : Retainable armed.stash [[1, 1, 1, 1], [1, 1, -1, -1]] [-30, -20] gates := by
    refine ⟨by decide +kernel, (enoughApart_iff _ _ _).mpr ?_⟩
    decide +kernel
  have h := retained_winner_iff_retainable retentionLaws armed spread (some .retry)
    [[1, 1, 1, 1], [1, 1, -1, -1]] [-30, -20] rfl (by simp [IsSpins]) rfl (by decide +kernel)
    (by decide +kernel)
  exact ⟨by decide +kernel, hkeep, h.1 hkeep⟩

open Separation in
/-- The winning pair of rows is accepted, and the stash keeps the best row alone. -/
theorem crowded_winner_not_retained :
    crowded.validated.accepted = true ∧ armed.stash.generation = crowded.job.generation ∧
      crowded.HasRoom armed.stash ∧
      ¬ crowded.Retained (armed.settle crowded (retainsForRetry (some .retry))).stash := by
  decide +kernel

end QuipCoordinator
