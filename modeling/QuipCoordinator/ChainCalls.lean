import QuipCoordinator.ScaleTypes

/-!
# The calls the coordinator signs

Each call is a pallet byte, a call byte and its arguments in SCALE; the two root calls
are wrapped by `Sudo` without a length, and a descriptor carries a version byte. No head
starts with another, so the bytes of a call show which call it is and where it ends,
and what stands in a signed envelope is read back whole or not taken for a proof.
-/

namespace QuipCoordinator
open Scale Descriptor SpecCodec

structure SeedTopology where
  nodes : List Nat
  edges : List (Nat × Nat)
  allowedHMilli : List Int
  allowedJMilli : List Int
  allowedSpinMilli : List Int
deriving DecidableEq

def encodeRegisterSolverCall (t : SolverType) : Bytes := 9 :: 0 :: solverType.encode t

def encodeDeregisterSolverCall : Bytes := [9, 1]

def submitSolutionArgs : Codec (Nat × List (List Int)) := u64.pair i8.sequence.sequence

def encodeSubmitSolutionCall (orderId : Nat) (solutions : List (List Int)) : Bytes :=
  9 :: 4 :: submitSolutionArgs.encode (orderId, solutions)

def participateArgs : Codec (Nat × MinerKind × Option Nat) :=
  u64.pair (minerKind.pair u32.optional)

def encodeParticipateCall (qblockId : Nat) (kind : MinerKind) (budgetSeconds : Option Nat) :
    Bytes :=
  13 :: 2 :: participateArgs.encode (qblockId, kind, budgetSeconds)

def encodeSetDescriptorCall (descriptor : NodeDescriptorV2Input) : Bytes :=
  13 :: 0 :: 1 :: nodeDescriptor.encode descriptor

def setDifficultyArgs : Codec (Bytes32 × DifficultyConfig) := h256.pair difficultyConfig

def encodeSetDifficulty (topologyHash : Bytes32) (difficulty : DifficultyConfig) : Bytes :=
  6 :: 0 :: 10 :: 3 :: setDifficultyArgs.encode (topologyHash, difficulty)

abbrev TopologyArgs :=
  List Nat × List (Nat × Nat) × AllowedValueSpec × AllowedValueSpec × AllowedValueSpec

def SeedTopology.args (t : SeedTopology) : TopologyArgs :=
  (t.nodes, t.edges, .set t.allowedHMilli, .set t.allowedJMilli, .set t.allowedSpinMilli)

inductive ChainCall
  | submitProof (proof : QuantumProof)
  | registerMiner
  | registerTopology (args : TopologyArgs)
  | setDifficulty (topologyHash : Bytes32) (difficulty : DifficultyConfig)
  | registerSolver (solverType : SolverType)
  | deregisterSolver
  | submitSolution (orderId : Nat) (solutions : List (List Int))
  | participate (qblockId : Nat) (kind : MinerKind) (budgetSeconds : Option Nat)
  | setDescriptor (descriptor : NodeDescriptorV2Input)
deriving DecidableEq

inductive CallKind
  | submitProof
  | registerMiner
  | registerTopology
  | setDifficulty
  | registerSolver
  | deregisterSolver
  | submitSolution
  | participate
  | setDescriptor
deriving DecidableEq

namespace CallKind

def head : CallKind → Bytes
  | submitProof => [quantumPowPalletIndex, submitProofCallIndex]
  | registerMiner => [10, 0]
  | registerTopology => [6, 0, 10, 2]
  | setDifficulty => [6, 0, 10, 3]
  | registerSolver => [9, 0]
  | deregisterSolver => [9, 1]
  | submitSolution => [9, 4]
  | participate => [13, 2]
  | setDescriptor => [13, 0, 1]

def all : List CallKind :=
  [submitProof, registerMiner, registerTopology, setDifficulty, registerSolver, deregisterSolver,
    submitSolution, participate, setDescriptor]

theorem mem_all (k : CallKind) : k ∈ all := by
  cases k <;> decide

theorem prefixFree_head : Codec.PrefixFree head := by
  have h : ∀ i ∈ all, ∀ j ∈ all, head i <+: head j → i = j := by decide
  exact fun i j => h i (mem_all i) j (mem_all j)

def Args : CallKind → Type
  | submitProof => QuantumProof
  | registerMiner | deregisterSolver => Unit
  | registerTopology => TopologyArgs
  | setDifficulty => Bytes32 × DifficultyConfig
  | registerSolver => SolverType
  | submitSolution => Nat × List (List Int)
  | participate => Nat × MinerKind × Option Nat
  | setDescriptor => NodeDescriptorV2Input

end CallKind

section
variable [SpecCodec]

def topologyArgs : Codec TopologyArgs :=
  nodeList.pair (edgeList.pair (allowedValueSpec.pair (allowedValueSpec.pair allowedValueSpec)))

def encodeRegisterTopology (t : SeedTopology) : Bytes :=
  6 :: 0 :: 10 :: 2 :: topologyArgs.encode t.args

def CallKind.args : (k : CallKind) → Codec k.Args
  | submitProof => quantumProofCodec
  | registerMiner | deregisterSolver => .nothing
  | registerTopology => topologyArgs
  | setDifficulty => setDifficultyArgs
  | registerSolver => solverType
  | submitSolution => submitSolutionArgs
  | participate => participateArgs
  | setDescriptor => nodeDescriptor

namespace ChainCall

def codec : Codec ChainCall :=
  (Codec.tagged CallKind.all CallKind.mem_all CallKind.head CallKind.prefixFree_head
    CallKind.args).map
    { toFun
        | ⟨.submitProof, p⟩ => .submitProof p
        | ⟨.registerMiner, _⟩ => .registerMiner
        | ⟨.registerTopology, a⟩ => .registerTopology a
        | ⟨.setDifficulty, a⟩ => .setDifficulty a.1 a.2
        | ⟨.registerSolver, t⟩ => .registerSolver t
        | ⟨.deregisterSolver, _⟩ => .deregisterSolver
        | ⟨.submitSolution, a⟩ => .submitSolution a.1 a.2
        | ⟨.participate, a⟩ => .participate a.1 a.2.1 a.2.2
        | ⟨.setDescriptor, d⟩ => .setDescriptor d
      invFun
        | .submitProof p => ⟨.submitProof, p⟩
        | .registerMiner => ⟨.registerMiner, ()⟩
        | .registerTopology a => ⟨.registerTopology, a⟩
        | .setDifficulty h d => ⟨.setDifficulty, (h, d)⟩
        | .registerSolver t => ⟨.registerSolver, t⟩
        | .deregisterSolver => ⟨.deregisterSolver, ()⟩
        | .submitSolution i s => ⟨.submitSolution, (i, s)⟩
        | .participate i k b => ⟨.participate, (i, k, b)⟩
        | .setDescriptor d => ⟨.setDescriptor, d⟩
      left_inv := by rintro ⟨k, a⟩; cases k <;> rfl
      right_inv := by intro c; cases c <;> rfl }

def encode : ChainCall → Bytes
  | submitProof proof => encodeSubmitProofCall proof
  | registerMiner => encodeRegisterMinerCall
  | registerTopology args => 6 :: 0 :: 10 :: 2 :: topologyArgs.encode args
  | setDifficulty topologyHash difficulty => encodeSetDifficulty topologyHash difficulty
  | registerSolver t => encodeRegisterSolverCall t
  | deregisterSolver => encodeDeregisterSolverCall
  | submitSolution orderId solutions => encodeSubmitSolutionCall orderId solutions
  | participate qblockId kind budget => encodeParticipateCall qblockId kind budget
  | setDescriptor descriptor => encodeSetDescriptorCall descriptor

/-- Every number of the call fits the width of its type, and no list has `2 ^ 32` items. -/
def Fits (c : ChainCall) : Prop := codec.dom c

theorem encode_eq (c : ChainCall) : c.encode = codec.encode c := by
  cases c <;> rfl

theorem encode_append_inj {c d : ChainCall} (hc : c.Fits) (hd : d.Fits) {rest rest' : Bytes}
    (h : c.encode ++ rest = d.encode ++ rest') : c = d ∧ rest = rest' := by
  rw [encode_eq, encode_eq] at h
  exact Codec.encode_append_inj hc hd h

end ChainCall

theorem encodeRegisterTopology_eq (t : SeedTopology) :
    encodeRegisterTopology t = (ChainCall.registerTopology t.args).encode := rfl

/-- A call is read off the front of some bytes exactly when its own bytes stand there, and calls
with one encoding before whatever follows are one call. -/
theorem calls_read_back :
    (∀ (c : ChainCall) (bytes rest : Bytes),
      ChainCall.codec.decode bytes = some (c, rest) ↔ c.Fits ∧ bytes = c.encode ++ rest) ∧
    ∀ c d : ChainCall, c.Fits → d.Fits → ∀ rest rest' : Bytes,
      c.encode ++ rest = d.encode ++ rest' → c = d ∧ rest = rest' := by
  constructor
  · intro c bytes rest
    rw [ChainCall.encode_eq]
    exact Codec.decode_eq_some
  · intro c d hc hd rest rest' h
    exact ChainCall.encode_append_inj hc hd h

end

open Sample in
theorem calls_read_back_participate :
    ChainCall.codec.decode (encodeParticipateCall 7 .metal none ++ [1]) =
        some (.participate 7 .metal none, [1]) ∧
      ChainCall.codec.decode (encodeDeregisterSolverCall ++ [1]) = some (.deregisterSolver, [1]) := by
  constructor
  · refine (calls_read_back.1 (.participate 7 .metal none) _ _).mpr ⟨⟨?_, ?_, ?_⟩, rfl⟩
    · exact (by decide : 7 < 256 ^ 8)
    · exact (by decide : MinerKind.metal ∈ [.cpu, .gpu, .qpuDwave, .qpuIbm, .qpuIonq, .qpuPasqal,
        .asic, .metal])
    · exact fun x h => absurd h (by simp)
  · exact (calls_read_back.1 .deregisterSolver _ _).mpr ⟨trivial, rfl⟩

/-! ## The calls in the pool -/

section
variable [Crates] [HybridCrypto]
open HybridCrypto

omit [Crates] in
theorem signedBody_eq_of_assembled {account account' : Bytes32} {sig sig' : HybridTxSignature}
    {extra extra' call call' : Bytes} (h : assembleSignedExtrinsic account sig extra call =
      assembleSignedExtrinsic account' sig' extra' call') :
    signedBody account sig extra call = signedBody account' sig' extra' call' := by
  have hread : ∀ account sig extra call,
      ∃ n, compactU32.decode (assembleSignedExtrinsic account sig extra call) =
        some (n, signedBody account sig extra call) :=
    fun account sig extra call =>
      ⟨_, compactU32.decode_append _ _ (Nat.mod_lt _ (by decide))⟩
  obtain ⟨n, hleft⟩ := hread account sig extra call
  obtain ⟨n', hright⟩ := hread account' sig' extra' call'
  rw [h, hright] at hleft
  exact (Prod.mk.inj (Option.some.inj hleft)).2.symm

omit [Crates] in
theorem call_eq_of_signedBody {account account' : Bytes32} {sig sig' : HybridTxSignature}
    (hsig : HybridTxSignature.codec.dom sig) (hsig' : HybridTxSignature.codec.dom sig')
    {nonce nonce' tip tip' : Nat} (hnonce : nonce < 2 ^ 32) (hnonce' : nonce' < 2 ^ 32)
    (htip : tip < 2 ^ 128) (htip' : tip' < 2 ^ 128) {mode mode' : UInt8}
    (hmode : mode = metadataHashDisabled ∨ mode = metadataHashEnabled)
    (hmode' : mode' = metadataHashDisabled ∨ mode' = metadataHashEnabled) {call call' : Bytes}
    (h : signedBody account sig (extensionBytes nonce tip mode) call =
      signedBody account' sig' (extensionBytes nonce' tip' mode') call') :
    account = account' ∧ call = call' := by
  simp only [signedBody, List.cons.injEq, true_and] at h
  obtain ⟨haccount, hrest⟩ := List.append_inj h (by simp)
  obtain ⟨-, hrest⟩ := Codec.encode_append_inj hsig hsig' hrest
  have hread : readSignedExtensions (extensionBytes nonce tip mode ++ call) = some (mode, call) :=
    readSignedExtensions_eq_some.mpr ⟨hmode, nonce, hnonce, tip, htip, rfl⟩
  have hread' : readSignedExtensions (extensionBytes nonce tip mode ++ call) =
      some (mode', call') :=
    readSignedExtensions_eq_some.mpr ⟨hmode', nonce', hnonce', tip', htip', hrest⟩
  have hboth := Option.some.inj (hread.symm.trans hread')
  exact ⟨Vector.toList_inj.mp haccount, (Prod.mk.inj hboth).2⟩

theorem call_of_decoded (laws : HybridLaws) {pair : Pair} {callBytes : Bytes}
    {ctx : SignedExtensionContext} (hnonce : ctx.accountNonce < 2 ^ 32) (htip : ctx.tip < 2 ^ 128)
    {rt : RuntimeTxContext} {p : PendingProof}
    (h : decodePendingProof (buildHybridSignedExtrinsic pair callBytes ctx) rt = some p) :
    p.proof.WellFormed ∧ callBytes = encodeSubmitProofCall p.proof := by
  obtain ⟨sig, nonce, tip, mode, hn, ht, hmode, hproof, hsig, -, hbytes, -, -⟩ :=
    decodePendingProof_eq_some.mp h
  have hbody := signedBody_eq_of_assembled hbytes
  exact ⟨hproof,
    (call_eq_of_signedBody (laws.dom _) hsig hnonce hn htip ht (Or.inl rfl) hmode hbody).2⟩

variable [SpecCodec]

def ChainCall.proof? : ChainCall → Option QuantumProof
  | submitProof proof => some proof
  | _ => none

/-- Of the calls the coordinator signs the pool's decoder takes the proofs, each with its own
account and rows, and no other call. -/
theorem pool_takes_proofs_only (laws : HybridLaws) (pair : Pair) (c : ChainCall) (hc : c.Fits)
    (ctx : SignedExtensionContext) (hnonce : ctx.accountNonce < 2 ^ 32) (htip : ctx.tip < 2 ^ 128) :
    let ext := buildHybridSignedExtrinsic pair c.encode ctx
    decodePendingProof ext ctx.runtime =
      if (builtBody pair c.encode ctx).length < 2 ^ 32 then
        c.proof?.map fun proof => ⟨extrinsicHash ext, signerAccountBytes pair, proof⟩
      else none := by
  intro ext
  split_ifs with hlen
  · cases hproof : c.proof? with
    | some proof =>
      have hcall : c = .submitProof proof := by
        cases c <;> simp_all [ChainCall.proof?]
      subst hcall
      exact decodePendingProof_built laws pair ((quantumProofCodec_dom proof).mp hc) hnonce htip
        hlen
    | none =>
      refine Option.eq_none_iff_forall_ne_some.mpr ?_
      intro p hp
      obtain ⟨hwell, hcall⟩ := call_of_decoded laws hnonce htip hp
      have hfits : (ChainCall.submitProof p.proof).Fits := (quantumProofCodec_dom _).mpr hwell
      obtain ⟨rfl, -⟩ := ChainCall.encode_append_inj hc hfits (congrArg (· ++ []) hcall)
      simp [ChainCall.proof?] at hproof
  · exact decodePendingProof_overlong (not_lt.mp hlen) _

end

open Sample in
theorem pool_takes_proofs_only_ring :
    let built (c : ChainCall) := buildHybridSignedExtrinsic alice c.encode signing
    decodePendingProof (built .registerMiner) signing.runtime = none ∧
      decodePendingProof (built (.submitProof ringProof)) signing.runtime =
        some ⟨extrinsicHash (built (.submitProof ringProof)), alice, ringProof⟩ := by
  intro built
  constructor
  · have h := pool_takes_proofs_only hybridLaws alice .registerMiner trivial signing (by decide)
      (by decide)
    exact h.trans (if_pos (by decide +kernel))
  · have h := pool_takes_proofs_only hybridLaws alice (.submitProof ringProof)
      ((quantumProofCodec_dom _).mpr ringProof_wellFormed) signing (by decide) (by decide)
    exact h.trans (if_pos (by decide +kernel))

end QuipCoordinator
