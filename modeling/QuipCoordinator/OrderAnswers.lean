import QuipCoordinator.SelectedProofs
import QuipCoordinator.Session

/-!
# Answers to mempool orders

A result for an order is judged on all its distinct rows under the order's
ceiling, and the rows that go to the chain are cut twice after the verdict. The
second cut is the chain's own bound on an answer. The chain filters the rows it
gets by the ceiling and selects from them as many as the order asks for, all of
them without such a number.
-/

namespace QuipCoordinator
open Crates

def DecodesSpins [Crates] : Prop :=
  ∀ bytes n row, decodeSpinsPacked bytes n = some row → IsSpins row

section
variable [Crates]

def orderEnergy (job : Job) (spins : List Int) : Option Int := do
  let problem ← job.ising
  let (hMilli, jMilli) ← problemMilli problem
  energyOfRow spins hMilli (edgesFor problem ⟨[]⟩) jMilli

def orderRows (job : Job) (solutions : List Solution) : Option (List (List Int × Int)) := do
  let problem ← job.ising
  let (hMilli, jMilli) ← problemMilli problem
  pure (solutions.filterMap fun sol => do
    let spins ← decodeSpinsPacked sol.spins hMilli.length
    let energy ← energyOfRow spins hMilli (edgesFor problem ⟨[]⟩) jMilli
    pure (spins, energy))

def chainDiversity (order : JobOrder) (answer : List SpinRow) : Nat :=
  (selectAndScore (answer.map (·.spins)) (order.minSolutions.getD answer.length)).2

structure MeetsOrder (order : JobOrder) (job : Job) (answer : List SpinRow) : Prop where
  nonempty : answer ≠ []
  bound : answer.length ≤ maxOrderSolutions
  energy : ∀ s ∈ answer, ∃ energy, orderEnergy job s.spins = some energy ∧
    ∀ ceiling, order.minEnergyMilli = some ceiling → energy ≤ ceiling
  count : ∀ m, order.minSolutions = some m → m ≤ answer.length
  diversity : ∀ d, order.minDiversityMilli = some d → d ≤ chainDiversity order answer

def candidates (order : JobOrder) (scored : List (List Int × Int)) : List Nat :=
  uniqueValid (scored.map (·.1)) (scored.map (·.2)) (orderGates order)

/-- The rows that were returned for an order and what it asks for: more rows than an answer can have
only where they are not there, and none at all only where one is there. -/
structure AnswerFits (order : JobOrder) (scored : List (List Int × Int)) : Prop where
  large : ∀ m, order.minSolutions = some m → maxOrderSolutions < m →
    (candidates order scored).length % 2 ^ 32 < m ∨
      (selectAndScore ((candidates order scored).map fun i => (scored.map (·.1)).getD i []) m).2 <
        order.minDiversityMilli.getD 0
  zero : order.minSolutions = some 0 → order.minDiversityMilli.getD 0 = 0 →
    candidates order scored ≠ []

theorem orderProof_eq_some {gates : QualityGates} {job : Job} {result : ResultFrame} {proof : Proof}
    (h : orderProof (some gates) job result = some proof) :
    ∃ scored, orderRows job result.solutions = some scored ∧
      (validateScored (scored.map (·.1)) (scored.map (·.2)) gates).accepted = true ∧
      proof.solutions = (validateScored (scored.map (·.1)) (scored.map (·.2))
        gates).selectedSolutions.take maxOrderSolutions := by
  obtain ⟨problem, hising, h⟩ := Option.bind_eq_some_iff.mp h
  simp only [Option.bind_eq_bind, Option.bind_some] at h
  split_ifs at h with haccepted
  cases h
  cases hmilli : problemMilli problem with
  | none =>
    simp [validateResult, hmilli] at haccepted
  | some coefficients =>
    simp only [validateResult, hmilli] at haccepted ⊢
    refine ⟨_, ?_, haccepted, rfl⟩
    simp [orderRows, hising, hmilli]

theorem orderProof_of_accepted {gates : QualityGates} {job : Job} {result : ResultFrame}
    {scored : List (List Int × Int)} (hrows : orderRows job result.solutions = some scored)
    (h : (validateScored (scored.map (·.1)) (scored.map (·.2)) gates).accepted = true) :
    ∃ proof, orderProof (some gates) job result = some proof ∧
      proof.solutions = (validateScored (scored.map (·.1)) (scored.map (·.2))
        gates).selectedSolutions.take maxOrderSolutions := by
  obtain ⟨problem, hising, hrest⟩ := Option.bind_eq_some_iff.mp hrows
  obtain ⟨⟨hMilli, jMilli⟩, hmilli, hscored⟩ := Option.bind_eq_some_iff.mp hrest
  have hvalid : validateResult problem result.solutions gates ⟨[]⟩ =
      validateScored (scored.map (·.1)) (scored.map (·.2)) gates := by
    rw [← Option.some.inj hscored]
    simp only [validateResult, hmilli]
  rw [← hvalid] at h
  have hsome : ∃ proof, orderProof (some gates) job result = some proof := by
    simp only [orderProof, hising, Option.bind_eq_bind, Option.bind_some, h, if_true]
    exact ⟨_, rfl⟩
  obtain ⟨proof, hproof⟩ := hsome
  obtain ⟨scored', hrows', _, hsolutions⟩ := orderProof_eq_some hproof
  cases hrows.symm.trans hrows'
  exact ⟨proof, hproof, hsolutions⟩

theorem isSpins_orderRows (hdec : DecodesSpins) {job : Job} {solutions : List Solution}
    {scored : List (List Int × Int)} (h : orderRows job solutions = some scored) :
    ∀ row ∈ scored.map (·.1), IsSpins row := by
  obtain ⟨problem, _, h⟩ := Option.bind_eq_some_iff.mp h
  obtain ⟨⟨hMilli, jMilli⟩, _, h⟩ := Option.bind_eq_some_iff.mp h
  cases h
  intro row hrow
  obtain ⟨⟨spins, energy⟩, hmem, rfl⟩ := List.mem_map.mp hrow
  obtain ⟨sol, _, hsol⟩ := List.mem_filterMap.mp hmem
  obtain ⟨spins', hspins, hsol⟩ := Option.bind_eq_some_iff.mp hsol
  obtain ⟨energy', _, hsol⟩ := Option.bind_eq_some_iff.mp hsol
  cases hsol
  exact hdec _ _ _ hspins

theorem orderEnergy_orderRows {job : Job} {solutions : List Solution}
    {scored : List (List Int × Int)} (h : orderRows job solutions = some scored) :
    ∀ p ∈ scored, orderEnergy job p.1 = some p.2 := by
  obtain ⟨problem, hising, h⟩ := Option.bind_eq_some_iff.mp h
  obtain ⟨⟨hMilli, jMilli⟩, hmilli, h⟩ := Option.bind_eq_some_iff.mp h
  cases h
  intro p hp
  obtain ⟨sol, _, hsol⟩ := List.mem_filterMap.mp hp
  obtain ⟨spins, _, hsol⟩ := Option.bind_eq_some_iff.mp hsol
  obtain ⟨energy, henergy, hsol⟩ := Option.bind_eq_some_iff.mp hsol
  cases hsol
  simp [orderEnergy, hising, hmilli, henergy]

/-- What goes to the chain when the bound on an answer cuts nothing off: a selection of the
candidates, as many as the order asks for and at least one. -/
theorem answer_of_accepted (laws : SelectionLaws) {gates : QualityGates} {rows : List (List Int)}
    {energies : List Int} (hspin : ∀ row ∈ rows, IsSpins row)
    (hne : uniqueValid rows energies gates ≠ []) (hsmall : gates.minSolutions ≤ maxOrderSolutions)
    (hcount : gates.minSolutions ≤ (uniqueValid rows energies gates).length) :
    ∃ picked : List Nat, (∀ i ∈ picked, i ∈ uniqueValid rows energies gates) ∧
      picked.length = max gates.minSolutions 1 ∧
      (validateScored rows energies gates).selectedSolutions.take maxOrderSolutions =
        picked.map (rowAt rows energies) ∧
      (validateScored rows energies gates).diversityMilli =
        (calculateDiversity (picked.map fun i => rows.getD i [])).getD 0 := by
  obtain ⟨idx, hscore, hidx, _, hlt⟩ := selectAndScore_spec laws
    (isSpins_map_getD hspin (uniqueValid rows energies gates)) gates.minSolutions
  obtain ⟨_, hd, hsel⟩ := validateScored_of_select hne hscore
  rw [List.length_map] at hidx hlt
  have hpos := List.length_pos_iff.mpr hne
  have hlen : ((uniqueValid rows energies gates).pick idx).length = max gates.minSolutions 1 := by
    rw [List.length_pick hlt, hidx]
    omega
  refine ⟨(uniqueValid rows energies gates).pick idx, fun i hi => List.mem_of_mem_pick hi, hlen,
    ?_, ?_⟩
  · have hfits : ((uniqueValid rows energies gates).pick idx).length ≤ maxOrderSolutions :=
      hlen.trans_le (max_le hsmall (by decide))
    have hall : (((uniqueValid rows energies gates).pick idx).map (rowAt rows energies)).length ≤
        maxOrderSolutions := by
      rw [List.length_map]
      exact hfits
    rw [hsel, List.take_of_length_le (hfits.trans (by decide)), List.take_of_length_le hall]
  · rw [hd, List.map_pick]

omit [Crates] in
theorem minSolutions_eq_some {order : JobOrder} (h : (orderGates order).minSolutions = 0 ∨
    2 < (orderGates order).minSolutions) :
    order.minSolutions = some (orderGates order).minSolutions := by
  cases hm : order.minSolutions with
  | some m => simp [orderGates, hm]
  | none =>
    simp only [orderGates, hm, Option.getD_none] at h
    split at h <;> omega

omit [Crates] in
theorem le_ceiling_of_lt {order : JobOrder} {energy ceiling : Int}
    (h : energy < (orderGates order).minEnergyMilli) (hc : order.minEnergyMilli = some ceiling) :
    energy ≤ ceiling := by
  simp only [orderGates, hc, Option.elim_some] at h
  omega

theorem accepted_of_le {rows : List (List Int)} {energies : List Int} {gates : QualityGates}
    (hcount : gates.minSolutions ≤ (uniqueValid rows energies gates).length % 2 ^ 32)
    (hdiv : gates.minDiversityMilli ≤ (validateScored rows energies gates).diversityMilli) :
    (validateScored rows energies gates).accepted = true :=
  decide_eq_true ⟨hcount, hdiv⟩

theorem validateScored_diversity {rows : List (List Int)} {energies : List Int}
    {gates : QualityGates} (hne : uniqueValid rows energies gates ≠ []) :
    (validateScored rows energies gates).diversityMilli =
      (selectAndScore ((uniqueValid rows energies gates).map fun i => rows.getD i [])
        gates.minSolutions).2 :=
  (validateScored_of_select hne (Prod.mk.eta.symm)).2.1

theorem validateScored_of_empty {rows : List (List Int)} {energies : List Int}
    {gates : QualityGates} (hempty : uniqueValid rows energies gates = []) :
    (validateScored rows energies gates).diversityMilli = 0 ∧
      (validateScored rows energies gates).selectedSolutions = [] := by
  have hisEmpty : (uniqueValid rows energies gates).isEmpty = true := by
    rw [hempty, List.isEmpty_nil]
  unfold uniqueValid at hisEmpty
  simp only [validateScored, hisEmpty]
  exact ⟨rfl, rfl⟩

/-- The rows returned for an order fit it, and the verdict is in favour: then there is something to
answer with, and no more than an answer can have is asked for. -/
theorem AnswerFits.counts {order : JobOrder} {scored : List (List Int × Int)}
    (h : AnswerFits order scored)
    (hacc : (validateScored (scored.map (·.1)) (scored.map (·.2)) (orderGates order)).accepted = true) :
    candidates order scored ≠ [] ∧ (orderGates order).minSolutions ≤ maxOrderSolutions := by
  obtain ⟨hcount, hdiv⟩ := validateScored_accepted hacc
  have hne : candidates order scored ≠ [] := by
    intro hempty
    rw [show uniqueValid _ _ _ = [] from hempty, List.length_nil, Nat.zero_mod,
      Nat.le_zero] at hcount
    rw [(validateScored_of_empty hempty).1, Nat.le_zero] at hdiv
    have hzero := minSolutions_eq_some (Or.inl hcount)
    rw [hcount] at hzero
    exact h.zero hzero hdiv hempty
  refine ⟨hne, Nat.le_of_not_lt fun hlarge => ?_⟩
  have htwo : 2 < (orderGates order).minSolutions := Nat.lt_trans (by decide) hlarge
  cases h.large _ (minSolutions_eq_some (Or.inr htwo)) hlarge with
  | inl hfew => exact Nat.not_lt_of_le hcount hfew
  | inr hlow =>
    rw [validateScored_diversity hne] at hdiv
    exact Nat.not_lt_of_le hdiv hlow

theorem orderEnergy_rowAt {job : Job} {solutions : List Solution}
    {scored : List (List Int × Int)} (h : orderRows job solutions = some scored) {i : Nat}
    (hi : i < scored.length) :
    orderEnergy job (rowAt (scored.map (·.1)) (scored.map (·.2)) i).spins =
      some (rowAt (scored.map (·.1)) (scored.map (·.2)) i).energyMilli := by
  have hrow := orderEnergy_orderRows h scored[i] (List.getElem_mem hi)
  simpa [rowAt, hi] using hrow

theorem meetsOrder_of_picked (laws : SelectionLaws) (hdec : DecodesSpins) {order : JobOrder}
    {job : Job} {solutions : List Solution} {scored : List (List Int × Int)}
    (hrows : orderRows job solutions = some scored) {picked : List Nat}
    (hmem : ∀ i ∈ picked, i ∈ candidates order scored)
    (hlen : picked.length = max (orderGates order).minSolutions 1)
    (hsmall : (orderGates order).minSolutions ≤ maxOrderSolutions)
    (hdiv : (orderGates order).minDiversityMilli ≤
      (calculateDiversity (picked.map fun i => (scored.map (·.1)).getD i [])).getD 0) :
    MeetsOrder order job (picked.map (rowAt (scored.map (·.1)) (scored.map (·.2)))) := by
  have hasked : ∀ m, order.minSolutions = some m → (orderGates order).minSolutions = m := by
    intro m hm
    simp [orderGates, hm]
  constructor
  · intro hnil
    rw [List.map_eq_nil_iff.mp hnil, List.length_nil] at hlen
    omega
  · rw [List.length_map, hlen]
    exact max_le hsmall (by decide)
  · intro s hs
    obtain ⟨i, hi, rfl⟩ := List.mem_map.mp hs
    obtain ⟨hlt, henergy⟩ := mem_uniqueValid (hmem i hi)
    rw [List.length_map] at hlt
    exact ⟨_, orderEnergy_rowAt hrows hlt, fun ceiling hc => le_ceiling_of_lt henergy hc⟩
  · intro m hm
    rw [List.length_map, hlen, hasked m hm]
    exact le_max_left m 1
  · intro d hd
    have hspins : (picked.map (rowAt (scored.map (·.1)) (scored.map (·.2)))).map (·.spins) =
        picked.map fun i => (scored.map (·.1)).getD i [] := by
      rw [List.map_map]
      rfl
    have hd' : (orderGates order).minDiversityMilli = d := by simp [orderGates, hd]
    rw [chainDiversity, hspins, selectAndScore_all laws
      (isSpins_map_getD (isSpins_orderRows hdec hrows) picked), ← hd']
    · exact hdiv
    · rw [List.length_map, List.length_map]
      cases hm : order.minSolutions with
      | none => exact le_max_left _ 1
      | some m => rw [hlen, hasked m hm, Option.getD_some]

/-- Whatever is submitted for an order meets it, exactly when the returned rows fit it. -/
theorem order_answer_meets_gates (laws : SelectionLaws) (hdec : DecodesSpins) (order : JobOrder)
    (job : Job) (result : ResultFrame) :
    (∀ proof, orderProof (some (orderGates order)) job result = some proof →
      MeetsOrder order job proof.solutions) ↔
    ∀ scored, orderRows job result.solutions = some scored → AnswerFits order scored := by
  constructor
  · intro hmeets scored hrows
    constructor
    · intro m hm hlarge
      have hgates : (orderGates order).minSolutions = m := by simp [orderGates, hm]
      by_contra hnot
      rw [not_or, Nat.not_lt, Nat.not_lt, ← hgates] at hnot
      have hne : candidates order scored ≠ [] := by
        intro hempty
        rw [hempty, List.length_nil] at hnot
        omega
      have hdiv := hnot.2.trans_eq (validateScored_diversity hne).symm
      obtain ⟨proof, hproof, hsolutions⟩ :=
        orderProof_of_accepted hrows (accepted_of_le hnot.1 hdiv)
      have hcount := (hmeets proof hproof).count m hm
      have hbound := (hmeets proof hproof).bound
      omega
    · intro hzero hnone hempty
      have hgates : (orderGates order).minSolutions = 0 := by simp [orderGates, hzero]
      obtain ⟨proof, hproof, hsolutions⟩ := orderProof_of_accepted hrows
        (accepted_of_le (hgates.trans_le (Nat.zero_le _)) (hnone.trans_le (Nat.zero_le _)))
      apply (hmeets proof hproof).nonempty
      rw [hsolutions, (validateScored_of_empty hempty).2, List.take_nil]
  · intro hfits proof hproof
    obtain ⟨scored, hrows, hacc, hsolutions⟩ := orderProof_eq_some hproof
    obtain ⟨hne, hsmall⟩ := (hfits scored hrows).counts hacc
    obtain ⟨hcount, hdiv⟩ := validateScored_accepted hacc
    obtain ⟨picked, hmem, hlen, hanswer, hd⟩ := answer_of_accepted laws
      (isSpins_orderRows hdec hrows) hne hsmall (hcount.trans (Nat.mod_le _ _))
    rw [hsolutions, hanswer]
    exact meetsOrder_of_picked laws hdec hrows hmem hlen hsmall (hdiv.trans_eq hd)

end

namespace Separation

theorem decodesSpins : DecodesSpins := by
  intro bytes n row h
  simp only [decodeSpinsPacked, Sample.unpackSpins, Option.ite_none_right_eq_some] at h
  cases h.2
  intro s hs
  obtain ⟨i, _, rfl⟩ := List.mem_map.mp hs
  split
  · exact Or.inl rfl
  · exact Or.inr rfl

def sixNodes (minSolutions : Option Nat) : JobOrder :=
  ⟨[5, 0, 0, 0, 0, 0, 0, 0], [0, 1, 2, 3, 4, 5], [], [0, 0, 0, 0, 0, 0], [], some 0, none,
    minSolutions, 0⟩

def sixNodesJob : Job :=
  { jobId := [5, 0, 0, 0, 0, 0, 0, 0]
    kind := .isingSample
    generation := 0
    deadlineMs := 0
    ising := some (milliProblem (some (.edges ⟨[], []⟩)) [0, 0, 0, 0, 0, 0] [])
    generator := none
    provenance := some ⟨false, [5, 0, 0, 0, 0, 0, 0, 0]⟩ }

def packed (rows : List UInt8) : ResultFrame :=
  ⟨[5, 0, 0, 0, 0, 0, 0, 0], rows.map fun row => ⟨[row], 0⟩, 0, [], []⟩

end Separation

open Separation in
theorem order_answer_meets_gates_two :
    jobOrderToJob (sixNodes (some 2)) = some sixNodesJob ∧
      ∃ proof, orderProof (some (orderGates (sixNodes (some 2)))) sixNodesJob (packed [0, 63, 7]) =
        some proof ∧ MeetsOrder (sixNodes (some 2)) sixNodesJob proof.solutions := by
  obtain ⟨proof, hproof⟩ := Option.isSome_iff_exists.mp (by decide +kernel :
    (orderProof (some (orderGates (sixNodes (some 2)))) sixNodesJob (packed [0, 63, 7])).isSome)
  refine ⟨by decide +kernel, proof, hproof, ?_⟩
  refine (order_answer_meets_gates selectionLaws decodesSpins (sixNodes (some 2)) sixNodesJob
    (packed [0, 63, 7])).mpr ?_ proof hproof
  intro scored _
  constructor
  · intro m hm hlarge
    cases hm
    exact absurd hlarge (by decide)
  · intro hzero
    exact nomatch hzero

open Separation in
/-- No row is asked for, none is returned, and none is submitted. Of 21 rows that are asked for and
returned, 20 are submitted. -/
theorem order_answers_miss_their_gates :
    (jobOrderToJob (sixNodes (some 0)) = some sixNodesJob ∧
      ∃ proof, orderProof (some (orderGates (sixNodes (some 0)))) sixNodesJob (packed []) =
        some proof ∧ proof.solutions = []) ∧
    jobOrderToJob (sixNodes (some 21)) = some sixNodesJob ∧
      ∃ proof, orderProof (some (orderGates (sixNodes (some 21)))) sixNodesJob
        (packed ((List.range 21).map UInt8.ofNat)) = some proof ∧ proof.solutions.length < 21 := by
  have hnone : orderRows sixNodesJob (packed []).solutions = some [] := by decide +kernel
  obtain ⟨scored, hscored⟩ := Option.isSome_iff_exists.mp (by decide +kernel :
    (orderRows sixNodesJob (packed ((List.range 21).map UInt8.ofNat)).solutions).isSome)
  have hcount : ∀ scored, orderRows sixNodesJob
      (packed ((List.range 21).map UInt8.ofNat)).solutions = some scored →
      21 ≤ (candidates (sixNodes (some 21)) scored).length % 2 ^ 32 := by
    decide +kernel
  refine ⟨⟨by decide +kernel, ?_⟩, by decide +kernel, ?_⟩
  · obtain ⟨proof, hproof, hsolutions⟩ := orderProof_of_accepted hnone
      (by decide +kernel : (validateScored _ _ (orderGates (sixNodes (some 0)))).accepted = true)
    refine ⟨proof, hproof, ?_⟩
    rw [hsolutions]
    decide +kernel
  · have haccepted : (validateScored (scored.map (·.1)) (scored.map (·.2))
        (orderGates (sixNodes (some 21)))).accepted = true :=
      accepted_of_le (hcount scored hscored) (Nat.zero_le _)
    obtain ⟨proof, hproof, hsolutions⟩ := orderProof_of_accepted hscored haccepted
    refine ⟨proof, hproof, ?_⟩
    rw [hsolutions]
    exact Nat.lt_succ_of_le (List.length_take_le _ _)

end QuipCoordinator
