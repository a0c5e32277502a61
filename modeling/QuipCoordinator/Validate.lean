import QuipCoordinator.Producer

/-!
# Result validation

A result is scored against the edges its problem refers to: inline edges, or
the positions `ResolvedTopo` keeps of the session topology. The scored rows then
pass the energy gate, the deduplication up to a global flip, and the diverse
selection of the chain. Spins and energies are integers. A row index the
selection returns is a position of the list it was given.
-/

namespace QuipCoordinator
variable [Crates]
open Crates

def maxProofSolutions : Nat := 32

def stashScanLimit : Nat := 4 * maxProofSolutions

def i64Max : Int := 2 ^ 63 - 1

structure SpinRow where
  spins : List Int
  energyMilli : Int
deriving DecidableEq

structure QualityGates where
  minEnergyMilli : Int
  minDiversityMilli : Nat
  minSolutions : Nat
deriving DecidableEq

structure Validated where
  bestEnergyMilli : Int
  diversityMilli : Nat
  nValid : Nat
  accepted : Bool
  selectedSolutions : List SpinRow
  rawBestEnergyMilli : Int
  stashSolutions : List SpinRow
deriving DecidableEq

structure ProofGates where
  bestEnergyMilli : Int
  diversityMilli : Nat
  nValid : Nat
  accepted : Bool
deriving DecidableEq

def selectAndScore (rows : List (List Int)) (minSolutions : Nat) : List Nat × Nat :=
  let target := min rows.length (max minSolutions 1)
  let selected := (selectDiverse rows target).getD (List.range rows.length)
  let picked := selected.filterMap fun i => rows[i]?
  (selected, (calculateDiversity picked).getD 0)

def checkProofGates (solutions : List SpinRow) (gates : QualityGates) : ProofGates :=
  let admitted := solutions.filter fun s => s.energyMilli < gates.minEnergyMilli
  match (admitted.map (·.energyMilli)).min? with
  | none => ⟨i64Max, 0, 0, false⟩
  | some best =>
    let rows := admitted.map (·.spins)
    let nValid := rows.length % 2 ^ 32
    let diversity := (selectAndScore rows gates.minSolutions).2
    { bestEnergyMilli := best
      diversityMilli := diversity
      nValid := nValid
      accepted := decide (gates.minSolutions ≤ nValid ∧ gates.minDiversityMilli ≤ diversity) }

omit [Crates] in
def gatesFromTarget (target : Option SetTarget) : QualityGates :=
  match target with
  | none => ⟨i64Max, 0, 0⟩
  | some t => ⟨t.maxEnergyMilli, t.minDiversityMilli, t.minSolutions⟩

structure ResolvedTopo where
  edgesPos : List (Nat × Nat)
deriving DecidableEq

namespace ResolvedTopo

omit [Crates] in
/-- The value a map collected from `nodes` holds at `n`: the last position wins, and an unknown
node reads 0. -/
def position (nodes : List Nat) (n : Nat) : Nat :=
  match nodes.reverse.idxOf? n with
  | some i => (nodes.length - 1 - i) % 2 ^ 32
  | none => 0

omit [Crates] in
def new (nodes : List Nat) (edgesIds : List (Nat × Nat)) : ResolvedTopo where
  edgesPos := edgesIds.map fun e => (position nodes e.1, position nodes e.2)

end ResolvedTopo

omit [Crates] in
def canonicalizeSpins (spins : List Int) : List Int :=
  if spins.head? = some (-1) then spins.map fun s => -s else spins

omit [Crates] in
def energyOfRow (spins hMilli : List Int) (edgesPos : List (Nat × Nat)) (jMilli : List Int) :
    Option Int :=
  if spins.length ≠ hMilli.length then none
  else do
    let fields := (hMilli.zip spins).map fun p => p.1 * p.2
    let couplings ← (edgesPos.zip jMilli).mapM fun p => do
      let su ← spins[p.1.1]?
      let sv ← spins[p.1.2]?
      pure (p.2 * su * sv)
    pure (fields.sum + couplings.sum)

omit [Crates] in
def firstOccurrences {α κ : Type} [DecidableEq κ] (key : α → κ) : List κ → List α → List α
  | _, [] => []
  | seen, a :: as =>
    if key a ∈ seen then firstOccurrences key seen as
    else a :: firstOccurrences key (key a :: seen) as

def stashScan (rows : List (List Int)) (gates : QualityGates) :
    List Nat → List (List Int) → Nat → List Nat → List Nat
  | [], _, _, chosen => chosen
  | i :: order, seen, examined, chosen =>
    if chosen.length = maxProofSolutions ∨ examined = stashScanLimit then chosen
    else
      let key := canonicalizeSpins (rows.getD i [])
      if key ∈ seen then stashScan rows gates order seen examined chosen
      else
        let grown := chosen ++ [i]
        let held := grown.map fun k => rows.getD k []
        if grown.length < 2 ∨
            gates.minDiversityMilli ≤ (selectAndScore held gates.minSolutions).2 then
          stashScan rows gates order (key :: seen) (examined + 1) grown
        else stashScan rows gates order (key :: seen) (examined + 1) chosen

def stashRows (rows : List (List Int)) (energies : List Int) (gates : QualityGates) :
    List SpinRow :=
  let order := (List.range rows.length).insertionSort fun a b =>
    energies.getD a 0 ≤ energies.getD b 0
  (stashScan rows gates order [] 0 []).map fun i => ⟨rows.getD i [], energies.getD i 0⟩

def validateScored (rows : List (List Int)) (energies : List Int) (gates : QualityGates) :
    Validated :=
  let energyValid := (List.range energies.length).filter fun i =>
    energies.getD i 0 < gates.minEnergyMilli
  let unique := firstOccurrences (fun i => canonicalizeSpins (rows.getD i [])) [] energyValid
  let nValid := unique.length % 2 ^ 32
  let (best, diversity, selectedSolutions) :=
    if unique.isEmpty then (i64Max, 0, [])
    else
      let (selected, diversity) :=
        selectAndScore (unique.map fun i => rows.getD i []) gates.minSolutions
      let picked := selected.filterMap fun i => unique[i]?
      ((picked.map fun i => energies.getD i 0).min?.getD i64Max, diversity,
        (picked.take maxProofSolutions).map fun i => ⟨rows.getD i [], energies.getD i 0⟩)
  { bestEnergyMilli := best
    diversityMilli := diversity
    nValid := nValid
    accepted := decide (gates.minSolutions ≤ nValid ∧ gates.minDiversityMilli ≤ diversity)
    selectedSolutions := selectedSolutions
    rawBestEnergyMilli := energies.min?.getD i64Max
    stashSolutions := stashRows rows energies gates }

omit [Crates] in
def edgesFor (problem : IsingProblem) (topo : ResolvedTopo) : List (Nat × Nat) :=
  match problem.graph with
  | some (.edges e) => e.u.zip e.v
  | some (.topologyHash _) => topo.edgesPos
  | none => []

def validateResult (problem : IsingProblem) (solutions : List Solution) (gates : QualityGates)
    (topo : ResolvedTopo) : Validated :=
  match problemMilli problem with
  | none => ⟨i64Max, 0, 0, false, [], i64Max, []⟩
  | some (hMilli, jMilli) =>
    let scored := solutions.filterMap fun sol => do
      let spins ← decodeSpinsPacked sol.spins hMilli.length
      let energy ← energyOfRow spins hMilli (edgesFor problem topo) jMilli
      pure (spins, energy)
    validateScored (scored.map (·.1)) (scored.map (·.2)) gates

omit [Crates] in
def beatsCurrent (candidateMilli : Int) (currentBestMilli : Option Int) : Bool :=
  match currentBestMilli with
  | none => true
  | some cur => candidateMilli < cur

def verifyAndSelect (generator : IsingProblemGenerator) (topology : WireTopology)
    (target : SetTarget) (result : ResultFrame) : Option (Verified × Validated) := do
  let verified ← verifyLeaseResult generator topology result
  let scored := result.solutions.filterMap fun s =>
    (decodeSpinsPacked s.spins topology.nodes.length).map fun spins => (spins, s.energyMilli)
  pure (verified,
    validateScored (scored.map (·.1)) (scored.map (·.2)) (gatesFromTarget (some target)))

omit [Crates] in
/-- The gates of a mempool order. The pallet keeps a row at the ceiling, the validation only
below it, so the ceiling moves up by one. -/
def orderGates (order : JobOrder) : QualityGates :=
  let minDiversityMilli := order.minDiversityMilli.getD 0
  { minEnergyMilli := order.minEnergyMilli.elim i64Max fun e => min (e + 1) i64Max
    minDiversityMilli := minDiversityMilli
    minSolutions := order.minSolutions.getD (if 0 < minDiversityMilli then 2 else 1) }

end QuipCoordinator
