import QuipCoordinator.WinTime
import Mathlib

/-!
# Exactness of the viability search

The stepwise rule moves the threshold once an epoch by the rounded part of the
room below the cap, by no less than `minEnergyDeltaMilli` and by no more than
the room. So the threshold never falls, stays at or below the cap once below it,
and is the cap after the epochs that the smallest moves take. Over a threshold
that does not fall, the halving of the window ends on the first block that
clears the energy.
-/

namespace QuipCoordinator
open Crates

def IsI64 (x : Int) : Prop := -(2 ^ 63) ≤ x ∧ x ≤ i64Max

def EnergyCurve.roomAt (curve : EnergyCurve) (current : Int) : Int :=
  clampI64 (curve.maxMilli - current)

/-- The epochs in which moves of the smallest size go from the base to the cap. -/
def epochsToCap (baseMilli maxMilli : Int) : Nat :=
  ((maxMilli - baseMilli + minEnergyDeltaMilli - 1) / minEnergyDeltaMilli).toNat

theorem clampI64_eq_self {x : Int} (h : IsI64 x) : clampI64 x = x := by
  unfold IsI64 at h
  unfold clampI64
  omega

section Steps
variable [Crates]

/-- The sum of a step lies between its start and the cap, so it is never saturated. -/
theorem easeStep_eq {current : Int} {curve : EnergyCurve} (hc : IsI64 current)
    (hm : IsI64 curve.maxMilli) :
    easeStep current curve =
      if curve.maxMilli ≤ curve.minMilli ∨ curve.roomAt current ≤ 0 then current
      else current + min (geometricFloored (curve.roomAt current) decayRateMilli
        minEnergyDeltaMilli) (curve.roomAt current) := by
  unfold easeStep
  dsimp only
  by_cases hdeg : curve.maxMilli ≤ curve.minMilli
  · rw [if_pos hdeg, if_pos (Or.inl hdeg)]
  · rw [if_neg hdeg]
    change (if curve.roomAt current ≤ 0 then current else clampI64 (current + min
      (geometricFloored (curve.roomAt current) _ _) (curve.roomAt current))) = _
    by_cases hroom : curve.roomAt current ≤ 0
    · rw [if_pos hroom, if_pos (Or.inr hroom)]
    · rw [if_neg hroom, if_neg (not_or.mpr ⟨hdeg, hroom⟩)]
      apply clampI64_eq_self
      have hfloor : minEnergyDeltaMilli ≤ geometricFloored (curve.roomAt current)
        decayRateMilli minEnergyDeltaMilli := le_max_right _ _
      unfold EnergyCurve.roomAt clampI64 at *
      unfold IsI64 at *
      unfold minEnergyDeltaMilli at *
      unfold i64Max at *
      omega

theorem easeStep_cases {current : Int} {curve : EnergyCurve} (hc : IsI64 current)
    (hm : IsI64 curve.maxMilli) :
    ((curve.maxMilli ≤ curve.minMilli ∨ curve.maxMilli ≤ current) ∧
      easeStep current curve = current) ∨
    (curve.minMilli < curve.maxMilli ∧ current < easeStep current curve ∧
      easeStep current curve ≤ curve.maxMilli ∧
      (current + minEnergyDeltaMilli ≤ easeStep current curve ∨
        easeStep current curve = curve.maxMilli)) := by
  rw [easeStep_eq hc hm]
  have hfloor : minEnergyDeltaMilli ≤ geometricFloored (curve.roomAt current)
    decayRateMilli minEnergyDeltaMilli := le_max_right _ _
  unfold EnergyCurve.roomAt clampI64 at *
  unfold IsI64 at *
  unfold minEnergyDeltaMilli at *
  unfold i64Max at *
  split_ifs with h
  · left
    omega
  · right
    omega

theorem le_easeStep {current : Int} {curve : EnergyCurve} (hc : IsI64 current)
    (hm : IsI64 curve.maxMilli) : current ≤ easeStep current curve := by
  rcases easeStep_cases hc hm with ⟨-, heq⟩ | ⟨-, hlt, -⟩ <;> omega

theorem isI64_easeStep {current : Int} {curve : EnergyCurve} (hc : IsI64 current)
    (hm : IsI64 curve.maxMilli) : IsI64 (easeStep current curve) := by
  rcases easeStep_cases hc hm with ⟨-, heq⟩ | ⟨-, hlt, hle, -⟩
  · rw [heq]
    exact hc
  · exact ⟨hc.1.trans hlt.le, hle.trans hm.2⟩

theorem easeStep_le_max {current : Int} {curve : EnergyCurve} (hc : IsI64 current)
    (hm : IsI64 curve.maxMilli) (hle : current ≤ curve.maxMilli) :
    easeStep current curve ≤ curve.maxMilli := by
  rcases easeStep_cases hc hm with ⟨-, heq⟩ | ⟨-, -, hstep, -⟩
  · exact heq.trans_le hle
  · exact hstep

end Steps

section Epochs
variable [Crates] {base : Int} {curve : EnergyCurve}

@[simp] theorem easeStepwise_zero : easeStepwise base 0 curve = base := rfl

theorem easeStepwise_succ (n : Nat) :
    easeStepwise base (n + 1) curve = easeStep (easeStepwise base n curve) curve := by
  rw [easeStepwise, List.range_succ, List.foldl_append]
  rfl

theorem isI64_easeStepwise (hb : IsI64 base) (hm : IsI64 curve.maxMilli) (n : Nat) :
    IsI64 (easeStepwise base n curve) := by
  induction n with
  | zero => exact hb
  | succ n ih =>
    rw [easeStepwise_succ]
    exact isI64_easeStep ih hm

theorem monotone_easeStepwise (hb : IsI64 base) (hm : IsI64 curve.maxMilli) :
    Monotone fun n => easeStepwise base n curve := by
  apply monotone_nat_of_le_succ
  intro n
  rw [easeStepwise_succ]
  exact le_easeStep (isI64_easeStepwise hb hm n) hm

theorem easeStepwise_le_max (hb : IsI64 base) (hm : IsI64 curve.maxMilli)
    (hle : base ≤ curve.maxMilli) (n : Nat) : easeStepwise base n curve ≤ curve.maxMilli := by
  induction n with
  | zero => exact hle
  | succ n ih =>
    rw [easeStepwise_succ]
    exact easeStep_le_max (isI64_easeStepwise hb hm n) hm ih

/-- Each epoch takes a smallest move off the room until none is left. -/
theorem easeStepwise_progress (hb : IsI64 base) (hm : IsI64 curve.maxMilli)
    (hdeg : curve.minMilli < curve.maxMilli) (hle : base ≤ curve.maxMilli) (n : Nat) :
    base + n * minEnergyDeltaMilli ≤ easeStepwise base n curve ∨
      easeStepwise base n curve = curve.maxMilli := by
  induction n with
  | zero =>
    left
    simp
  | succ n ih =>
    have hcap := easeStepwise_le_max hb hm hle n
    rw [easeStepwise_succ]
    rcases easeStep_cases (isI64_easeStepwise hb hm n) hm with ⟨hstop, heq⟩ | ⟨-, hlt, hstep, hmove⟩
    · right
      omega
    · unfold minEnergyDeltaMilli at *
      push_cast
      omega

theorem easeStepwise_eq_max (hb : IsI64 base) (hm : IsI64 curve.maxMilli)
    (hdeg : curve.minMilli < curve.maxMilli) (hle : base ≤ curve.maxMilli) {n : Nat}
    (hn : epochsToCap base curve.maxMilli ≤ n) : easeStepwise base n curve = curve.maxMilli := by
  rcases easeStepwise_progress hb hm hdeg hle n with hmoved | heq
  · have hcap := easeStepwise_le_max hb hm hle n
    unfold epochsToCap at hn
    unfold minEnergyDeltaMilli at *
    omega
  · exact heq

end Epochs

namespace DecayModel
variable [Crates]

/-- The base and the cap are signed 64-bit integers, as their fields are. -/
def Typed (m : DecayModel) : Prop :=
  IsI64 m.baseMaxEnergyMilli ∧ ∀ curve, m.curve = some curve → IsI64 curve.maxMilli

def RisesTo (m : DecayModel) (horizonBlocks : Nat) : Prop :=
  ∀ a b, a ≤ b → b ≤ horizonBlocks → m.thresholdAt a ≤ m.thresholdAt b

def FirstClears (m : DecayModel) (energyMilli : Int) (horizonBlocks b : Nat) : Prop :=
  b ≤ horizonBlocks ∧ energyMilli < m.thresholdAt b ∧ ∀ a < b, m.thresholdAt a ≤ energyMilli

theorem thresholdAt_stepwise {m : DecayModel} {curve : EnergyCurve} (ha : m.algorithm = .stepwise)
    (hc : m.curve = some curve) (he : 0 < m.epochLength) (b : Nat) :
    m.thresholdAt b = easeStepwise m.baseMaxEnergyMilli (b / m.epochLength) curve := by
  simp [thresholdAt, ha, hc, he.ne']

theorem thresholdAt_eq_base {m : DecayModel} (h : m.curve = none ∨ m.epochLength = 0) (b : Nat) :
    m.thresholdAt b = m.baseMaxEnergyMilli := by
  unfold thresholdAt
  rcases h with hc | he
  · rw [hc]
  · cases m.curve with
    | none => rfl
    | some curve => exact if_pos he

theorem constant_or_stepwise {m : DecayModel} (ha : m.algorithm = .stepwise) :
    (∀ b, m.thresholdAt b = m.baseMaxEnergyMilli) ∨
    ∃ curve, m.curve = some curve ∧ 0 < m.epochLength ∧
      ∀ b, m.thresholdAt b = easeStepwise m.baseMaxEnergyMilli (b / m.epochLength) curve := by
  rcases Nat.eq_zero_or_pos m.epochLength with he | he
  · exact Or.inl (thresholdAt_eq_base (Or.inr he))
  · cases hc : m.curve with
    | none => exact Or.inl (thresholdAt_eq_base (Or.inl hc))
    | some curve => exact Or.inr ⟨curve, rfl, he, thresholdAt_stepwise ha hc he⟩

theorem monotone_thresholdAt {m : DecayModel} (ha : m.algorithm = .stepwise) (ht : m.Typed) :
    Monotone m.thresholdAt := by
  intro a b hab
  rcases constant_or_stepwise ha with hbase | ⟨curve, hc, he, hstep⟩
  · rw [hbase, hbase]
  · rw [hstep, hstep]
    exact monotone_easeStepwise ht.1 (ht.2 curve hc) (Nat.div_le_div_right hab)

theorem thresholdAt_zero {m : DecayModel} (ha : m.algorithm = .stepwise) :
    m.thresholdAt 0 = m.baseMaxEnergyMilli := by
  rcases constant_or_stepwise ha with hbase | ⟨curve, -, -, hstep⟩
  · exact hbase 0
  · rw [hstep, Nat.zero_div, easeStepwise_zero]

theorem isI64_thresholdAt {m : DecayModel} (ha : m.algorithm = .stepwise) (ht : m.Typed) (b : Nat) :
    IsI64 (m.thresholdAt b) := by
  rcases constant_or_stepwise ha with hbase | ⟨curve, hc, he, hstep⟩
  · rw [hbase]
    exact ht.1
  · rw [hstep]
    exact isI64_easeStepwise ht.1 (ht.2 curve hc) _

theorem thresholdAt_le_max {m : DecayModel} {curve : EnergyCurve} (ha : m.algorithm = .stepwise)
    (ht : m.Typed) (hc : m.curve = some curve) (hle : m.baseMaxEnergyMilli ≤ curve.maxMilli)
    (b : Nat) : m.thresholdAt b ≤ curve.maxMilli := by
  rcases constant_or_stepwise ha with hbase | ⟨curve', hc', he, hstep⟩
  · rw [hbase]
    exact hle
  · obtain rfl : curve' = curve := by simpa [hc'] using hc
    rw [hstep]
    exact easeStepwise_le_max ht.1 (ht.2 _ hc) hle _

/-- The threshold of the next epoch is the exact sum, within the range of its type. -/
theorem thresholdAt_next_epoch {m : DecayModel} {curve : EnergyCurve}
    (ha : m.algorithm = .stepwise) (ht : m.Typed) (hc : m.curve = some curve)
    (he : 0 < m.epochLength) (b : Nat) :
    m.thresholdAt (b + m.epochLength) =
      if curve.maxMilli ≤ curve.minMilli ∨ curve.roomAt (m.thresholdAt b) ≤ 0 then m.thresholdAt b
      else m.thresholdAt b + min (geometricFloored (curve.roomAt (m.thresholdAt b))
        decayRateMilli minEnergyDeltaMilli) (curve.roomAt (m.thresholdAt b)) := by
  rw [← easeStep_eq (isI64_thresholdAt ha ht b) (ht.2 curve hc),
    thresholdAt_stepwise ha hc he, thresholdAt_stepwise ha hc he, Nat.add_div_right _ he,
    easeStepwise_succ]

/-- The loop of the search: the window it leaves, or none within that many turns. -/
def searchTurns (m : DecayModel) (energyMilli : Int) : Nat → Nat → Nat → Option (Nat × Nat)
  | 0, lo, hi => if hi - lo ≤ 1 then some (lo, hi) else none
  | turns + 1, lo, hi =>
    if hi - lo ≤ 1 then some (lo, hi)
    else
      let mid := lo + (hi - lo) / 2
      if energyMilli < m.thresholdAt mid then searchTurns m energyMilli turns lo mid
      else searchTurns m energyMilli turns mid hi

/-- Each turn halves the window, and the loop leaves on the block that the search gives. -/
theorem searchTurns_eq {m : DecayModel} {energyMilli : Int} {turns fuel lo hi : Nat}
    (hlt : lo < hi) (hturns : hi - lo ≤ 2 ^ turns) (hfuel : hi - lo ≤ fuel + 1) :
    ∃ left, m.searchTurns energyMilli turns lo hi =
      some (left, m.clearingSearch energyMilli fuel lo hi) := by
  induction turns generalizing fuel lo hi with
  | zero =>
    rw [searchTurns, if_pos (by simpa using hturns)]
    cases fuel with
    | zero => exact ⟨lo, rfl⟩
    | succ fuel =>
      rw [clearingSearch, if_pos (by simpa using hturns)]
      exact ⟨lo, rfl⟩
  | succ turns ih =>
    rw [searchTurns]
    by_cases hw : hi - lo ≤ 1
    · rw [if_pos hw]
      cases fuel with
      | zero => exact ⟨lo, rfl⟩
      | succ fuel =>
        rw [clearingSearch, if_pos hw]
        exact ⟨lo, rfl⟩
    · rw [if_neg hw]
      cases fuel with
      | zero => omega
      | succ fuel =>
        rw [clearingSearch, if_neg hw]
        dsimp only
        have hpow : 2 ^ (turns + 1) = 2 ^ turns + 2 ^ turns := by omega
        split_ifs
        · exact ih (by omega) (by omega) (by omega)
        · exact ih (by omega) (by omega) (by omega)

theorem FirstClears.unique {m : DecayModel} {energyMilli : Int} {horizonBlocks a b : Nat}
    (ha : m.FirstClears energyMilli horizonBlocks a)
    (hb : m.FirstClears energyMilli horizonBlocks b) : a = b := by
  rcases lt_trichotomy a b with hlt | heq | hlt
  · exact absurd ha.2.1 (not_lt.mpr (hb.2.2 a hlt))
  · exact heq
  · exact absurd hb.2.1 (not_lt.mpr (ha.2.2 b hlt))

theorem firstClears_of_eq_some {m : DecayModel} {energyMilli : Int} {horizonBlocks b : Nat}
    (hrise : m.RisesTo horizonBlocks)
    (h : m.firstClearingElapsed energyMilli horizonBlocks = some b) :
    m.FirstClears energyMilli horizonBlocks b := by
  unfold firstClearingElapsed at h
  split_ifs at h with h0 hend
  · obtain rfl := Option.some.inj h
    exact ⟨Nat.zero_le _, h0, fun a ha => absurd ha (Nat.not_lt_zero a)⟩
  · have hpos : 0 < horizonBlocks := by
      rcases Nat.eq_zero_or_pos horizonBlocks with hz | hpos
      · exact absurd (hz ▸ not_le.mp hend) h0
      · exact hpos
    have hturns : horizonBlocks - 0 ≤ horizonBlocks + 1 := by omega
    obtain ⟨c, hc, hle, hbelow, habove⟩ :=
      clearingSearch_spec hpos hturns (not_lt.mp h0) (not_le.mp hend)
    obtain rfl : c + 1 = b := hc.symm.trans (Option.some.inj h)
    exact ⟨hle, habove, fun a ha =>
      (hrise a c (Nat.lt_succ_iff.mp ha) (by omega)).trans hbelow⟩

theorem firstClearingElapsed_eq_none_iff {m : DecayModel} {energyMilli : Int}
    {horizonBlocks : Nat} (hrise : m.RisesTo horizonBlocks) :
    m.firstClearingElapsed energyMilli horizonBlocks = none ↔
      ∀ b ≤ horizonBlocks, m.thresholdAt b ≤ energyMilli := by
  constructor
  · intro h b hb
    unfold firstClearingElapsed at h
    split_ifs at h with h0 hend
    exact (hrise b horizonBlocks hb le_rfl).trans hend
  · intro h
    rw [firstClearingElapsed, if_neg (not_lt.mpr (h 0 (Nat.zero_le _))),
      if_pos (h horizonBlocks le_rfl)]

theorem firstClearingElapsed_eq_some_iff {m : DecayModel} {energyMilli : Int}
    {horizonBlocks b : Nat} (hrise : m.RisesTo horizonBlocks) :
    m.firstClearingElapsed energyMilli horizonBlocks = some b ↔
      m.FirstClears energyMilli horizonBlocks b := by
  refine ⟨firstClears_of_eq_some hrise, fun h => ?_⟩
  cases hf : m.firstClearingElapsed energyMilli horizonBlocks with
  | none =>
    have hnone := (firstClearingElapsed_eq_none_iff hrise).mp hf b h.1
    exact absurd h.2.1 (not_lt.mpr hnone)
  | some c => rw [(firstClears_of_eq_some hrise hf).unique h]

theorem firstClearingElapsed_eq_turns {m : DecayModel} {energyMilli : Int}
    {horizonBlocks turns : Nat} (h0 : m.thresholdAt 0 ≤ energyMilli)
    (hend : energyMilli < m.thresholdAt horizonBlocks) (hturns : horizonBlocks ≤ 2 ^ turns) :
    ∃ lo hi, m.searchTurns energyMilli turns 0 horizonBlocks = some (lo, hi) ∧
      m.firstClearingElapsed energyMilli horizonBlocks = some hi := by
  have hpos : 0 < horizonBlocks := by
    rcases Nat.eq_zero_or_pos horizonBlocks with hz | hpos
    · exact absurd (hz ▸ hend) (not_lt.mpr h0)
    · exact hpos
  obtain ⟨lo, hlo⟩ : ∃ lo, m.searchTurns energyMilli turns 0 horizonBlocks =
      some (lo, m.clearingSearch energyMilli horizonBlocks 0 horizonBlocks) :=
    searchTurns_eq hpos (by simpa using hturns) (by omega)
  refine ⟨lo, _, hlo, ?_⟩
  rw [firstClearingElapsed, if_neg (not_lt.mpr h0), if_neg (not_le.mpr hend)]

structure EasesStepwise (m : DecayModel) : Prop where
  monotone : Monotone m.thresholdAt
  base_le : ∀ b, m.baseMaxEnergyMilli ≤ m.thresholdAt b
  inRange : ∀ b, IsI64 (m.thresholdAt b)
  le_max : ∀ curve, m.curve = some curve → m.baseMaxEnergyMilli ≤ curve.maxMilli →
    ∀ b, m.thresholdAt b ≤ curve.maxMilli
  eq_max : ∀ curve, m.curve = some curve → m.baseMaxEnergyMilli ≤ curve.maxMilli →
    curve.minMilli < curve.maxMilli → 0 < m.epochLength → ∀ b,
      epochsToCap m.baseMaxEnergyMilli curve.maxMilli ≤ b / m.epochLength →
      m.thresholdAt b = curve.maxMilli
  -- the sum of the next epoch is the exact one
  next : ∀ curve, m.curve = some curve → 0 < m.epochLength → ∀ b,
    m.thresholdAt (b + m.epochLength) =
      if curve.maxMilli ≤ curve.minMilli ∨ curve.roomAt (m.thresholdAt b) ≤ 0 then m.thresholdAt b
      else m.thresholdAt b + min (geometricFloored (curve.roomAt (m.thresholdAt b))
        decayRateMilli minEnergyDeltaMilli) (curve.roomAt (m.thresholdAt b))

structure SearchExact (m : DecayModel) (energyMilli : Int) (horizonBlocks : Nat) : Prop where
  found : ∀ b, m.firstClearingElapsed energyMilli horizonBlocks = some b ↔
    m.FirstClears energyMilli horizonBlocks b
  notFound : m.firstClearingElapsed energyMilli horizonBlocks = none ↔
    ¬ ∃ b ≤ horizonBlocks, energyMilli < m.thresholdAt b
  ends : m.thresholdAt 0 ≤ energyMilli → energyMilli < m.thresholdAt horizonBlocks →
    ∀ turns, horizonBlocks ≤ 2 ^ turns →
      ∃ lo hi, m.searchTurns energyMilli turns 0 horizonBlocks = some (lo, hi) ∧
        m.firstClearingElapsed energyMilli horizonBlocks = some hi

theorem easesStepwise {m : DecayModel} (ha : m.algorithm = .stepwise) (ht : m.Typed) :
    m.EasesStepwise := by
  have hmono := monotone_thresholdAt ha ht
  refine ⟨hmono, ?_, isI64_thresholdAt ha ht, fun curve hc hle => thresholdAt_le_max ha ht hc hle,
    ?_, fun curve hc he => thresholdAt_next_epoch ha ht hc he⟩
  · intro b
    rw [← thresholdAt_zero ha]
    exact hmono (Nat.zero_le b)
  · intro curve hc hle hdeg he b hb
    rw [thresholdAt_stepwise ha hc he]
    exact easeStepwise_eq_max ht.1 (ht.2 curve hc) hdeg hle hb

theorem searchExact {m : DecayModel} {horizonBlocks : Nat} (hrise : m.RisesTo horizonBlocks)
    (energyMilli : Int) : m.SearchExact energyMilli horizonBlocks := by
  refine ⟨fun b => firstClearingElapsed_eq_some_iff hrise, ?_,
    fun h0 hend turns => firstClearingElapsed_eq_turns h0 hend⟩
  rw [firstClearingElapsed_eq_none_iff hrise]
  push Not
  rfl

end DecayModel

section
variable [Crates]

theorem viability_search_exact :
    (∀ m : DecayModel, m.algorithm = .stepwise → m.Typed → m.EasesStepwise) ∧
    ∀ (m : DecayModel) (energyMilli : Int) (horizonBlocks : Nat),
      m.RisesTo horizonBlocks → m.SearchExact energyMilli horizonBlocks :=
  ⟨fun _ ha ht => DecayModel.easesStepwise ha ht,
    fun _ energyMilli _ hrise => DecayModel.searchExact hrise energyMilli⟩

end

open Sample in
theorem viability_search_exact_rising :
    let m : DecayModel := ⟨-14000, some ⟨-15000, -12000, -10000⟩, 10, .stepwise⟩
    m.EasesStepwise ∧ m.SearchExact (-12500) 100 ∧
      m.firstClearingElapsed (-12500) 100 = some 20 := by
  intro m
  have htyped : m.Typed := by
    refine ⟨by norm_num [IsI64, i64Max, m], ?_⟩
    intro curve hcurve
    cases hcurve
    norm_num [IsI64, i64Max]
  refine ⟨viability_search_exact.1 m rfl htyped, ?_, by decide +kernel⟩
  refine viability_search_exact.2 m (-12500) 100 ?_
  exact fun a b hab _ => DecayModel.monotone_thresholdAt rfl htyped hab

end QuipCoordinator
