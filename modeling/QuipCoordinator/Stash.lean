import QuipCoordinator.Validate

/-!
# Difficulty decay and the win-time stash

The threshold of a round eases with the blocks since the last proof, under the
rule of the runtime. The stash keeps the best candidates that the easing will
admit within its horizon, lowest energy first, and offers the best one whose
block has come. `clampI64` is the saturation of signed 64-bit arithmetic.
-/

namespace QuipCoordinator
variable [Crates]
open Crates

def decayRateMilli : Int := 25
def minEnergyDeltaMilli : Int := 1000
def targetProofBlocks : Nat := 100
def continuousDecaySpecVersion : Nat := 118
def gatedDecaySpecVersion : Nat := 119
def decayHorizonBlocks : Nat := 25600
def winStashK : Nat := 8

def clampI64 (x : Int) : Int := max (-(2 ^ 63)) (min x i64Max)

structure EnergyCurve where
  minMilli : Int
  kneeMilli : Int
  maxMilli : Int
deriving DecidableEq

def geometricFloored (room rateMilli minDelta : Int) : Int :=
  max (roundedProduct room rateMilli) minDelta

def easeStep (current : Int) (curve : EnergyCurve) : Int :=
  if curve.maxMilli ≤ curve.minMilli then current
  else
    let room := clampI64 (curve.maxMilli - current)
    if room ≤ 0 then current
    else clampI64 (current +
      min (geometricFloored room decayRateMilli minEnergyDeltaMilli) room)

def easeStepwise (baseMaxEnergyMilli : Int) (steps : Nat) (curve : EnergyCurve) : Int :=
  (List.range steps).foldl (fun cur _ => easeStep cur curve) baseMaxEnergyMilli

def easeRoom (room : Int) (blocks epochLength : Nat) (rate : EaseRate) : Int :=
  if room ≤ 0 ∨ blocks = 0 ∨ epochLength = 0 then 0
  else min (easedRounded room blocks epochLength rate) room

def easeContinuous (current : Int) (elapsedBlocks epochLength : Nat) (curve : EnergyCurve) : Int :=
  if curve.maxMilli ≤ curve.minMilli ∨ elapsedBlocks = 0 ∨ epochLength = 0 then current
  else
    let room := clampI64 (curve.maxMilli - current)
    if room ≤ 0 then current
    else
      let inTarget := min elapsedBlocks targetProofBlocks
      let overdue := elapsedBlocks - inTarget
      let first := easeRoom room inTarget epochLength .baseline
      let second := easeRoom (room - first) overdue epochLength .combined
      clampI64 (current + min (first + second) room)

def easeGated (current : Int) (elapsedBlocks epochLength : Nat) (curve : EnergyCurve) : Int :=
  let overdue := elapsedBlocks - targetProofBlocks
  if curve.maxMilli ≤ curve.minMilli ∨ overdue = 0 ∨ epochLength = 0 then current
  else
    let room := clampI64 (curve.maxMilli - current)
    clampI64 (current + easeRoom room overdue epochLength .combined)

inductive DecayAlgorithm
  | stepwise
  | continuous
  | gated
deriving DecidableEq

def DecayAlgorithm.forSpecVersion (specVersion : Nat) : DecayAlgorithm :=
  if gatedDecaySpecVersion ≤ specVersion then .gated
  else if continuousDecaySpecVersion ≤ specVersion then .continuous
  else .stepwise

structure DecayModel where
  baseMaxEnergyMilli : Int
  curve : Option EnergyCurve
  epochLength : Nat
  algorithm : DecayAlgorithm
deriving DecidableEq

namespace DecayModel

def thresholdAt (m : DecayModel) (elapsedBlocks : Nat) : Int :=
  match m.curve with
  | none => m.baseMaxEnergyMilli
  | some curve =>
    if m.epochLength = 0 then m.baseMaxEnergyMilli
    else
      match m.algorithm with
      | .stepwise => easeStepwise m.baseMaxEnergyMilli (elapsedBlocks / m.epochLength) curve
      | .continuous => easeContinuous m.baseMaxEnergyMilli elapsedBlocks m.epochLength curve
      | .gated => easeGated m.baseMaxEnergyMilli elapsedBlocks m.epochLength curve

def clearingSearch (m : DecayModel) (energyMilli : Int) : Nat → Nat → Nat → Nat
  | 0, _, hi => hi
  | fuel + 1, lo, hi =>
    if hi - lo ≤ 1 then hi
    else
      let mid := lo + (hi - lo) / 2
      if energyMilli < m.thresholdAt mid then clearingSearch m energyMilli fuel lo mid
      else clearingSearch m energyMilli fuel mid hi

def firstClearingElapsed (m : DecayModel) (energyMilli : Int) (horizonBlocks : Nat) : Option Nat :=
  if energyMilli < m.thresholdAt 0 then some 0
  else if m.thresholdAt horizonBlocks ≤ energyMilli then none
  -- each turn shrinks the window, so its width bounds the turns
  else some (m.clearingSearch energyMilli horizonBlocks 0 horizonBlocks)

/-- The search ends on a block that clears the energy, one past a block that does not. -/
theorem clearingSearch_spec {m : DecayModel} {energyMilli : Int} {fuel lo hi : Nat}
    (hlt : lo < hi) (hfuel : hi - lo ≤ fuel + 1) (hlo : m.thresholdAt lo ≤ energyMilli)
    (hhi : energyMilli < m.thresholdAt hi) :
    ∃ b, m.clearingSearch energyMilli fuel lo hi = b + 1 ∧ b + 1 ≤ hi ∧
      m.thresholdAt b ≤ energyMilli ∧ energyMilli < m.thresholdAt (b + 1) := by
  induction fuel generalizing lo hi with
  | zero =>
    have hstep : hi = lo + 1 := by omega
    subst hstep
    exact ⟨lo, rfl, le_rfl, hlo, hhi⟩
  | succ fuel ih =>
    rw [clearingSearch]
    by_cases hw : hi - lo ≤ 1
    · have hstep : hi = lo + 1 := by omega
      subst hstep
      exact ⟨lo, if_pos hw, le_rfl, hlo, hhi⟩
    · rw [if_neg hw]
      dsimp only
      by_cases hmid : energyMilli < m.thresholdAt (lo + (hi - lo) / 2)
      · rw [if_pos hmid]
        obtain ⟨b, hb, hle, h1, h2⟩ := ih (by omega) (by omega) hlo hmid
        exact ⟨b, hb, by omega, h1, h2⟩
      · rw [if_neg hmid]
        exact ih (by omega) (by omega) (not_lt.mp hmid) hhi

end DecayModel

structure Candidate where
  jobId : JobId
  salt : Option Bytes32
  generation : Nat
  bestEnergyMilli : Int
  diversityMilli : Nat
  nValid : Nat
  solutions : List SpinRow
  isPow : Bool
  orderId : Bytes
  deviceAccessTimeUs : Nat
  submitted : Bool
deriving DecidableEq

structure WinStash where
  generation : Nat
  model : Option DecayModel
  lastProofBlock : Nat
  k : Nat
  candidates : List Candidate
deriving DecidableEq

namespace WinStash

omit [Crates] in
def new (k : Nat) : WinStash := ⟨0, none, 0, max k 1, []⟩

omit [Crates] in
def reset (s : WinStash) (generation : Nat) (model : Option DecayModel) (lastProofBlock : Nat) :
    WinStash :=
  { s with
    generation := generation
    model := model
    lastProofBlock := lastProofBlock
    candidates := [] }

omit [Crates] in
def setAlgorithm (s : WinStash) (algorithm : DecayAlgorithm) : WinStash :=
  { s with model := s.model.map fun m => { m with algorithm := algorithm } }

def viabilityBlock (s : WinStash) (energyMilli : Int) : Option Nat := do
  let m ← s.model
  let elapsed ← m.firstClearingElapsed energyMilli decayHorizonBlocks
  pure (satAdd 64 s.lastProofBlock elapsed)

def insert (s : WinStash) (cand : Candidate) : WinStash × Bool :=
  match s.viabilityBlock cand.bestEnergyMilli with
  | none => (s, false)
  | some _ =>
    let kept := ((s.candidates ++ [cand]).insertionSort fun a b =>
      a.bestEnergyMilli ≤ b.bestEnergyMilli).take s.k
    ({ s with candidates := kept }, kept.any fun c => c.jobId == cand.jobId)

def dueAt (s : WinStash) (currentBlock : Nat) : Option Candidate :=
  s.candidates.find? fun c =>
    !c.submitted && (s.viabilityBlock c.bestEnergyMilli).any fun b => b ≤ currentBlock

def dueImproving (s : WinStash) (currentBlock : Nat) (currentBest : Option Int) :
    Option Candidate :=
  (s.dueAt currentBlock).filter fun c => currentBest.all fun b => c.bestEnergyMilli < b

omit [Crates] in
def markFirst (jobId : JobId) : List Candidate → List Candidate
  | [] => []
  | c :: cs =>
    if c.jobId = jobId then { c with submitted := true } :: cs else c :: markFirst jobId cs

omit [Crates] in
def markSubmitted (s : WinStash) (jobId : JobId) : WinStash :=
  { s with candidates := markFirst jobId s.candidates }

omit [Crates] in
@[simp] theorem generation_setAlgorithm (s : WinStash) (a : DecayAlgorithm) :
    (s.setAlgorithm a).generation = s.generation := rfl

omit [Crates] in
@[simp] theorem candidates_setAlgorithm (s : WinStash) (a : DecayAlgorithm) :
    (s.setAlgorithm a).candidates = s.candidates := rfl

@[simp] theorem generation_insert (s : WinStash) (cand : Candidate) :
    (s.insert cand).1.generation = s.generation := by
  unfold insert
  cases s.viabilityBlock cand.bestEnergyMilli <;> rfl

theorem mem_insert {s : WinStash} {cand c : Candidate} (h : c ∈ (s.insert cand).1.candidates) :
    c ∈ s.candidates ∨ (c = cand ∧ (s.viabilityBlock cand.bestEnergyMilli).isSome = true) := by
  unfold insert at h
  cases hv : s.viabilityBlock cand.bestEnergyMilli with
  | none => rw [hv] at h; exact Or.inl h
  | some b =>
    rw [hv] at h
    have hmem := (List.mem_insertionSort _).mp (List.mem_of_mem_take h)
    rcases List.mem_append.mp hmem with hc | hc
    · exact Or.inl hc
    · exact Or.inr ⟨List.mem_singleton.mp hc, rfl⟩

theorem dueImproving_mem {s : WinStash} {b : Nat} {best : Option Int} {c : Candidate}
    (h : s.dueImproving b best = some c) : c ∈ s.candidates := by
  obtain ⟨hc, -⟩ := Option.filter_eq_some_iff.mp h
  exact List.mem_of_find?_eq_some hc

theorem dueImproving_beats {s : WinStash} {b : Nat} {best : Option Int} {c : Candidate}
    (h : s.dueImproving b best = some c) : beatsCurrent c.bestEnergyMilli best = true := by
  obtain ⟨-, hb⟩ := Option.filter_eq_some_iff.mp h
  cases best with
  | none => rfl
  | some e => simpa [beatsCurrent] using hb

omit [Crates] in
theorem mem_markFirst {jobId : JobId} {cs : List Candidate} {c : Candidate}
    (h : c ∈ markFirst jobId cs) : ∃ c' ∈ cs, c = c' ∨ c = { c' with submitted := true } := by
  induction cs with
  | nil => exact absurd h List.not_mem_nil
  | cons a cs ih =>
    rw [markFirst] at h
    split_ifs at h
    · rcases List.mem_cons.mp h with rfl | h
      · exact ⟨a, List.mem_cons_self, Or.inr rfl⟩
      · exact ⟨c, List.mem_cons_of_mem _ h, Or.inl rfl⟩
    · rcases List.mem_cons.mp h with rfl | h
      · exact ⟨c, List.mem_cons_self, Or.inl rfl⟩
      · obtain ⟨c', hc', he⟩ := ih h
        exact ⟨c', List.mem_cons_of_mem _ hc', he⟩

end WinStash
end QuipCoordinator
