import QuipCoordinator.Session

/-!
# Encoding a proof for the chain

`submit_proof` reads the snapshot of the last poll and builds the call from it:
the topology hash, the spin length and the nonce are those of that snapshot, and
only the rows and the salt come from the proof. What packs the rows is a
parameter. A proof without a 32-byte salt and rows that the snapshot cannot pack
are refused before anything is signed. Nothing compares the nonce with the job.
-/

namespace QuipCoordinator

/-- `pack_solution`: milli spins under the allowed values, or the error as it is printed. -/
class SpinPacking where
  packSolution : List Int → AllowedValueSpec → Except String Bytes

inductive ChainError
  | unavailable (message : String)
  | decode (message : String)
  | submit (message : String)
deriving DecidableEq

structure ProofBuildContext where
  topologyHash : Bytes32
  lastProofBlockHash : Bytes32
  minerIdentity : Bytes32
  salt : Bytes32
  numNodes : Nat
  allowedSpin : AllowedValueSpec
deriving DecidableEq

structure QuantumProof where
  topologyHash : Bytes32
  nonce : Bytes32
  salt : Bytes32
  solutions : List Bytes
  deviceAccessTimeUs : Nat
deriving DecidableEq

def milliSpin (s : Int) : Int :=
  if s = 1 then 1000 else if s = -1 then -1000 else s * 1000

def extractSalt (proof : Proof) : Option Bytes32 :=
  if h : proof.salt.length = 32 then some ⟨proof.salt.toArray, by simpa using h⟩ else none

/-- The hash of a snapshot in 32 bytes, zero when it has another length. -/
def MiningSnapshot.topologyHash32 (snap : MiningSnapshot) : Bytes32 :=
  if h : snap.topologyHash.length = 32 then ⟨snap.topologyHash.toArray, by simpa using h⟩
  else Vector.replicate 32 0

def MiningSnapshot.spinSpec (snap : MiningSnapshot) (lastSpinSpec : Option AllowedValueSpec) :
    AllowedValueSpec :=
  lastSpinSpec.getD (.set snap.allowedSpinMilli)

section
variable [SpinPacking]
open SpinPacking

def packRow (numNodes : Nat) (allowedSpin : AllowedValueSpec) (row : SpinRow) :
    Except String Bytes :=
  if row.spins.length ≠ numNodes then
    .error ("solution length " ++ toString row.spins.length ++ " != topology nodes " ++
      toString numNodes)
  else
    (packSolution (row.spins.map milliSpin) allowedSpin).mapError fun e => "pack_solution: " ++ e

/-- A snapshot can encode a proof: the salt has 32 bytes and every row packs over its nodes. -/
def Encodable (snap : MiningSnapshot) (lastSpinSpec : Option AllowedValueSpec) (proof : Proof) :
    Prop :=
  proof.salt.length = 32 ∧ ∀ row ∈ proof.solutions, row.spins.length = snap.nodes.length ∧
    (packSolution (row.spins.map milliSpin) (snap.spinSpec lastSpinSpec)).isOk = true

instance (snap : MiningSnapshot) (lastSpinSpec : Option AllowedValueSpec) (proof : Proof) :
    Decidable (Encodable snap lastSpinSpec proof) :=
  inferInstanceAs (Decidable (_ ∧ _))

variable [Crates]
open Crates

def buildQuantumProof (proof : Proof) (ctx : ProofBuildContext) : Except String QuantumProof := do
  let packed ← proof.solutions.mapM (packRow ctx.numNodes ctx.allowedSpin)
  pure
    { topologyHash := ctx.topologyHash
      nonce := deriveNonce ctx.lastProofBlockHash ctx.minerIdentity ctx.salt
      salt := ctx.salt
      solutions := packed
      deviceAccessTimeUs := proof.deviceAccessTimeUs }

/-- `submit_proof` up to the call it signs, with what it found in `last_snapshot` and
`last_spin_spec`. -/
def encodeSubmission (minerIdentity : Bytes32) (lastSnapshot : Option MiningSnapshot)
    (lastSpinSpec : Option AllowedValueSpec) (proof : Proof) : Except ChainError QuantumProof :=
  match lastSnapshot with
  | none => .error (.unavailable "submit_proof requires a prior fetch_mining_snapshot")
  | some snap =>
    match extractSalt proof with
    | none => .error (.submit ("proof.salt must be 32 bytes for live submit_proof " ++
        "(session does not yet thread salt through Job)"))
    | some salt =>
      (buildQuantumProof proof
        { topologyHash := snap.topologyHash32
          lastProofBlockHash := snap.lastProofBlockHash
          minerIdentity := minerIdentity
          salt := salt
          numNodes := snap.nodes.length
          allowedSpin := snap.spinSpec lastSpinSpec }).mapError
        fun e => .submit ("encode proof: " ++ e)

omit [Crates] in
theorem packRow_isOk_iff (numNodes : Nat) (allowedSpin : AllowedValueSpec) (row : SpinRow) :
    (packRow numNodes allowedSpin row).isOk = true ↔ row.spins.length = numNodes ∧
      (packSolution (row.spins.map milliSpin) allowedSpin).isOk = true := by
  rw [packRow]
  split_ifs with hlen
  · exact ⟨fun h => absurd h Bool.noConfusion, fun h => absurd h.1 hlen⟩
  · cases packSolution (row.spins.map milliSpin) allowedSpin with
    | error e => exact ⟨fun h => absurd h Bool.noConfusion, fun h => absurd h.2 Bool.noConfusion⟩
    | ok bytes => exact ⟨fun _ => ⟨not_not.mp hlen, rfl⟩, fun _ => rfl⟩

omit [SpinPacking] [Crates] in
theorem isOk_mapM_iff {α β ε : Type} (f : α → Except ε β) (l : List α) :
    (l.mapM f).isOk = true ↔ ∀ a ∈ l, (f a).isOk = true := by
  induction l with
  | nil => simp [Except.isOk, Except.toBool, pure, Except.pure]
  | cons a l ih =>
    rw [List.mapM_cons, List.forall_mem_cons, ← ih]
    cases f a with
    | error e => exact ⟨fun h => absurd h Bool.noConfusion, fun h => absurd h.1 Bool.noConfusion⟩
    | ok b =>
      cases l.mapM f with
      | error e => exact ⟨fun h => absurd h Bool.noConfusion, fun h => absurd h.2 Bool.noConfusion⟩
      | ok bs => exact ⟨fun _ => ⟨rfl, rfl⟩, fun _ => rfl⟩

omit [SpinPacking] [Crates] in
theorem extractSalt_eq_some {proof : Proof} {salt : Bytes32} (h : extractSalt proof = some salt) :
    proof.salt = salt.toList := by
  rw [extractSalt] at h
  split_ifs at h with hlen
  rw [← Option.some.inj h]
  rfl

theorem encodeSubmission_ok {minerIdentity : Bytes32} {lastSnapshot : Option MiningSnapshot}
    {lastSpinSpec : Option AllowedValueSpec} {proof : Proof} {q : QuantumProof}
    (h : encodeSubmission minerIdentity lastSnapshot lastSpinSpec proof = .ok q) :
    ∃ snap, lastSnapshot = some snap ∧ Encodable snap lastSpinSpec proof ∧
      proof.salt = q.salt.toList ∧ q.topologyHash = snap.topologyHash32 ∧
      q.nonce = deriveNonce snap.lastProofBlockHash minerIdentity q.salt := by
  unfold encodeSubmission at h
  cases lastSnapshot with
  | none => exact nomatch h
  | some snap =>
    dsimp only at h
    cases hs : extractSalt proof with
    | none =>
      rw [hs] at h
      exact nomatch h
    | some salt =>
      rw [hs] at h
      dsimp only [buildQuantumProof] at h
      have hsalt := extractSalt_eq_some hs
      cases hp : proof.solutions.mapM (packRow snap.nodes.length (snap.spinSpec lastSpinSpec)) with
      | error e =>
        rw [hp] at h
        exact nomatch h
      | ok packed =>
        rw [hp] at h
        cases h
        refine ⟨snap, rfl, ⟨by rw [hsalt]; simp, fun row hrow => ?_⟩, hsalt, rfl, rfl⟩
        have hok : (proof.solutions.mapM
            (packRow snap.nodes.length (snap.spinSpec lastSpinSpec))).isOk = true := by
          rw [hp]
          rfl
        exact (packRow_isOk_iff _ _ row).mp ((isOk_mapM_iff _ _).mp hok row hrow)

theorem encodeSubmission_of_encodable (minerIdentity : Bytes32) {snap : MiningSnapshot}
    {lastSpinSpec : Option AllowedValueSpec} {proof : Proof}
    (h : Encodable snap lastSpinSpec proof) :
    ∃ q, encodeSubmission minerIdentity (some snap) lastSpinSpec proof = .ok q := by
  have hok : (proof.solutions.mapM
      (packRow snap.nodes.length (snap.spinSpec lastSpinSpec))).isOk = true := by
    refine (isOk_mapM_iff _ _).mpr fun row hrow => ?_
    exact (packRow_isOk_iff _ _ row).mpr (h.2 row hrow)
  unfold encodeSubmission
  dsimp only [extractSalt, buildQuantumProof]
  rw [dif_pos h.1]
  cases hp : proof.solutions.mapM (packRow snap.nodes.length (snap.spinSpec lastSpinSpec)) with
  | error e =>
    rw [hp] at hok
    exact absurd hok Bool.noConfusion
  | ok packed => exact ⟨_, rfl⟩

end

namespace Sample

def packBits (spins : List Int) : Bytes :=
  (List.range ((spins.length + 7) / 8)).map fun i =>
    UInt8.ofNat (((spins.drop (8 * i)).take 8).foldr (fun s n => 2 * n + if 0 < s then 1 else 0) 0)

scoped instance spinPacking : SpinPacking where
  packSolution milli _ := .ok (packBits milli)

end Sample
end QuipCoordinator
