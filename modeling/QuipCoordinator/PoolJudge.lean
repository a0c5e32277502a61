import QuipCoordinator.Feeder
import QuipCoordinator.FoundationFallible
import QuipCoordinator.ProofEncoding
import QuipCoordinator.SelectedProofs

/-!
# Judging a pending proof

The coordinator replays the checks of the pallet on every proof that waits in
the pool. `score` draws the model of the proof's nonce, scores every row it
carries and applies the gates of the polled snapshot. The draw, the packed spin
codec and the energy are parameters: each returns its value or the error as it
is printed. Where `score` returns, its verdict is the one `checkProofGates`
gives on the rows that it scored.
-/

namespace QuipCoordinator

class PoolScoring where
  TopologyIndex : Type
  topologyIndex : List Nat → List (Nat × Nat) → Except String TopologyIndex
  -- nonce, nodes, edges, allowed fields, allowed couplings
  generateIsingModel : Bytes32 → List Nat → List (Nat × Nat) → AllowedValueSpec →
    AllowedValueSpec → TopologyIndex → Except String (List Int × List Int)
  unpackSolution : Bytes → Nat → AllowedValueSpec → Except String (List Int)
  -- spins, fields, edges, couplings
  energyOfSolution : List Int → List Int → List (Nat × Nat) → List Int → TopologyIndex →
    Except String Int
  -- the errors of `selectDiverse` and `calculateDiversity` as they are printed
  selectError : List (List Int) → Nat → String
  diversityError : List (List Int) → String

structure PendingProof where
  extrinsicHash : Bytes32
  account : Bytes32
  proof : QuantumProof
deriving DecidableEq

inductive Verdict
  | clears (bestEnergyMilli : Int)
  | otherRound
  | belowGates
  | malformed (reason : String)
deriving DecidableEq

/-- The vectors of a proof as the SCALE decoder returns them: a length prefix is a compact `u32`,
and the device time is a `u64`. -/
structure QuantumProof.WellFormed (q : QuantumProof) : Prop where
  solutions : q.solutions.length < 2 ^ 32
  rows : ∀ row ∈ q.solutions, row.length < 2 ^ 32
  deviceTime : q.deviceAccessTimeUs < 2 ^ 64

def MiningSnapshot.gates (snap : MiningSnapshot) : QualityGates where
  minEnergyMilli := snap.maxEnergyMilli
  minDiversityMilli := snap.minDiversityMilli
  minSolutions := snap.minSolutions

def signumSpin (value : Int) : Except String Int :=
  if value.sign = 1 then .ok 1 else if value.sign = -1 then .ok (-1) else .error "zero spin"

section
variable [PoolScoring]
open PoolScoring

def scoreRow (snap : MiningSnapshot) (index : TopologyIndex) (h j : List Int) (packed : Bytes) :
    Except String SpinRow := do
  let milli ← (unpackSolution packed snap.nodes.length (.set snap.allowedSpinMilli)).mapError
    ("unpack: " ++ ·)
  let spins ← milli.mapM signumSpin
  let energy ← (energyOfSolution spins h snap.edges j index).mapError ("energy: " ++ ·)
  pure ⟨spins, energy⟩

def scoreRows (proof : QuantumProof) (snap : MiningSnapshot) : Except String (List SpinRow) := do
  let index ← (topologyIndex snap.nodes snap.edges).mapError ("topology: " ++ ·)
  let (h, j) ← (generateIsingModel proof.nonce snap.nodes snap.edges (.set snap.allowedHMilli)
    (.set snap.allowedJMilli) index).mapError ("model: " ++ ·)
  proof.solutions.mapM (scoreRow snap index h j)

variable [Crates]
open Crates

/-- The gates over the rows below the ceiling. The row count saturates at `u32`. -/
def judgeRows (rows : List SpinRow) (gates : QualityGates) : Except String Verdict :=
  let valid := admittedRows rows gates
  match (valid.map (·.energyMilli)).min? with
  | none => .ok .belowGates
  | some best =>
    let rows := valid.map (·.spins)
    let target := min rows.length (max gates.minSolutions 1)
    match selectDiverse rows target with
    | none => .error ("select: " ++ selectError rows target)
    | some idx =>
      let selected := idx.filterMap fun i => rows[i]?
      match calculateDiversity selected with
      | none => .error ("diversity: " ++ diversityError selected)
      | some diversity =>
        let nValid := min rows.length (2 ^ 32 - 1)
        if gates.minSolutions ≤ nValid ∧ gates.minDiversityMilli ≤ diversity then
          .ok (.clears best)
        else .ok .belowGates

def score (proof : QuantumProof) (snap : MiningSnapshot) : Except String Verdict := do
  let rows ← scoreRows proof snap
  judgeRows rows snap.gates

omit [PoolScoring] in
def accountIdentityBytes (account : Bytes32) : Bytes32 := blake2256 account.toList

def judgePendingProof (pending : PendingProof) (snap : MiningSnapshot) : Verdict :=
  if pending.proof.topologyHash.toList ≠ snap.topologyHash then .otherRound
  else
    let identity := accountIdentityBytes pending.account
    let expected := deriveNonce snap.lastProofBlockHash identity pending.proof.salt
    if pending.proof.nonce ≠ expected then .otherRound
    else
      match score pending.proof snap with
      | .ok verdict => verdict
      | .error reason => .malformed reason

omit [Crates] in
theorem scoreRows_eq_ok {proof : QuantumProof} {snap : MiningSnapshot} {rows : List SpinRow}
    (h : scoreRows proof snap = .ok rows) :
    rows.length = proof.solutions.length ∧
      ∀ row ∈ rows, ∃ index h j packed, scoreRow snap index h j packed = .ok row := by
  obtain ⟨index, _, h⟩ := Except.bind_eq_ok.mp h
  obtain ⟨⟨fields, couplings⟩, _, h⟩ := Except.bind_eq_ok.mp h
  obtain ⟨hlen, hrows⟩ := List.mapM_eq_ok h
  refine ⟨hlen, fun row hrow => ?_⟩
  obtain ⟨packed, _, hpacked⟩ := hrows row hrow
  exact ⟨index, fields, couplings, packed, hpacked⟩

/-- What a verdict says about the rows: none is below the ceiling, or the selection and its
diversity were computed and the verdict is the gates'. -/
theorem judgeRows_eq_ok {rows : List SpinRow} {gates : QualityGates} {v : Verdict}
    (h : judgeRows rows gates = .ok v) :
    (admittedRows rows gates = [] ∧ v = .belowGates) ∨
      ∃ best, ((admittedRows rows gates).map (·.energyMilli)).min? = some best ∧
        v = if gates.minSolutions ≤ min (admittedRows rows gates).length (2 ^ 32 - 1) ∧
            gates.minDiversityMilli ≤
              (selectAndScore ((admittedRows rows gates).map (·.spins)) gates.minSolutions).2
          then .clears best else .belowGates := by
  unfold judgeRows at h
  cases hbest : ((admittedRows rows gates).map (·.energyMilli)).min? with
  | none =>
    have hnil : admittedRows rows gates = [] :=
      List.map_eq_nil_iff.mp (List.min?_eq_none_iff.mp hbest)
    simp only [hbest] at h
    exact Or.inl ⟨hnil, (Except.ok.inj h).symm⟩
  | some best =>
    simp only [hbest] at h
    refine Or.inr ⟨best, rfl, ?_⟩
    unfold selectAndScore
    generalize hrows : (admittedRows rows gates).map (·.spins) = spins at h ⊢
    have hlen : spins.length = (admittedRows rows gates).length := by rw [← hrows, List.length_map]
    rw [← hlen]
    cases hsel : selectDiverse spins (min spins.length (max gates.minSolutions 1)) with
    | none =>
      rw [hsel] at h
      exact nomatch h
    | some idx =>
      simp only [hsel] at h
      simp only [hsel, Option.getD_some]
      cases hdiv : calculateDiversity (idx.filterMap fun i => spins[i]?) with
      | none =>
        simp only [hdiv] at h
        exact nomatch h
      | some diversity =>
        simp only [hdiv] at h
        simp only [Option.getD_some]
        split_ifs at h ⊢ <;> exact (Except.ok.inj h).symm

/-- Where `score` returns a verdict, it clears exactly when `checkProofGates` accepts the rows it
scored under the gates of the snapshot, which are those of the stash check, and then with the same
best energy. -/
theorem pool_verdict_matches_proof_gates (snap : MiningSnapshot) (proof : QuantumProof)
    (hproof : proof.WellFormed) (v : Verdict) (h : score proof snap = .ok v) :
    snap.gates = gatesFromTarget (some (targetFromSnapshot snap)) ∧
      ∃ rows, scoreRows proof snap = .ok rows ∧
        ∀ best, v = .clears best ↔ (checkProofGates rows snap.gates).accepted = true ∧
          (checkProofGates rows snap.gates).bestEnergyMilli = best := by
  refine ⟨rfl, ?_⟩
  obtain ⟨rows, hrows, h⟩ := Except.bind_eq_ok.mp h
  refine ⟨rows, hrows, fun b => ?_⟩
  have hlen : (admittedRows rows snap.gates).length < 2 ^ 32 := by
    have hsub : (admittedRows rows snap.gates).length ≤ rows.length := List.length_filter_le _ _
    rw [(scoreRows_eq_ok hrows).1] at hsub
    exact hsub.trans_lt hproof.solutions
  rw [checkProofGates_accepted_iff, Nat.mod_eq_of_lt hlen]
  obtain ⟨hnil, hv⟩ | ⟨best, hbest, hv⟩ := judgeRows_eq_ok h
  · rw [hv]
    exact ⟨Verdict.noConfusion, fun hc => absurd hnil hc.1.1⟩
  · have hne : admittedRows rows snap.gates ≠ [] := by
      intro hnil
      rw [hnil] at hbest
      exact nomatch hbest
    rw [checkProofGates_of_min hbest, hv, min_eq_left (by omega)]
    split_ifs with hgate
    · exact ⟨fun hc => ⟨⟨hne, hgate⟩, Verdict.clears.inj hc⟩, fun hc => congrArg _ hc.2⟩
    · exact ⟨False.elim, fun hc => absurd hc.1.2 hgate⟩

end

namespace Sample

scoped instance poolScoring : PoolScoring where
  TopologyIndex := List (Nat × Nat)
  topologyIndex nodes edges := .ok (ResolvedTopo.new nodes edges).edgesPos
  generateIsingModel _ nodes edges hs js _ :=
    match hs, js with
    | .set (h :: _), .set (j :: _) =>
      .ok (List.replicate nodes.length h, List.replicate edges.length j)
    | _, _ => .error "EmptySet"
  unpackSolution packed n _ :=
    (unpackSpins packed n).elim (.error "BadLength") fun spins => .ok (spins.map (1000 * ·))
  energyOfSolution spins h _ j index := (energyOfRow spins h index j).elim (.error "BadLength") .ok
  selectError _ _ := "BadRow"
  diversityError _ := "BadRow"

def ring : MiningSnapshot where
  lastProofBlockHash := Vector.replicate 32 7
  topologyHash := List.replicate 32 9
  nodes := [0, 1, 2, 3]
  edges := [(0, 1), (1, 2), (2, 3), (0, 3)]
  allowedHMilli := [0]
  allowedJMilli := [-1000]
  allowedSpinMilli := [-1000, 1000]
  minSolutions := 2
  maxEnergyMilli := 1
  minDiversityMilli := 500
  blockNumber := 42
  specVersion := 117

def ringProof : QuantumProof where
  topologyHash := Vector.replicate 32 9
  nonce := Vector.replicate 32 3
  salt := Vector.replicate 32 3
  solutions := [[15], [3]]
  deviceAccessTimeUs := 0

theorem ringProof_wellFormed : ringProof.WellFormed := ⟨by decide, by decide, by decide⟩

end Sample

open Sample Separation in
theorem pool_verdict_matches_proof_gates_ring :
    score ringProof ring = .ok (.clears (-4000)) ∧
      ∃ rows, scoreRows ringProof ring = .ok rows ∧
        (checkProofGates rows ring.gates).accepted = true ∧
        (checkProofGates rows ring.gates).bestEnergyMilli = -4000 := by
  have hscore : score ringProof ring = .ok (.clears (-4000)) := by rfl
  obtain ⟨_, rows, hrows, hiff⟩ :=
    pool_verdict_matches_proof_gates ring ringProof ringProof_wellFormed _ hscore
  exact ⟨hscore, rows, hrows, (hiff _).mp rfl⟩

end QuipCoordinator
