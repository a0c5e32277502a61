import QuipCoordinator.AccountNonces
import QuipCoordinator.FoundationCodec
import QuipCoordinator.PoolJudge

/-!
# Signed extrinsics and the decoder of the pool

`buildHybridSignedExtrinsic` wraps a call in the signed v4 envelope: a compact
length, the version and address bytes, the account, the signature, the signed
extensions and the call. `decodePendingProof` walks the same envelope by hand and
keeps only signed `submit_proof` calls whose signature holds. The hybrid scheme
and the codec of its signatures are parameters. A `U256` is its 32 bytes in the
order in which SCALE writes them.
-/

namespace QuipCoordinator
open Crates

class HybridCrypto where
  Pair : Type
  Public : Type
  Signature : Type
  pairPublic : Pair → Public
  -- with the domain prefix that `HybridTxSignature::sign` applies
  sign : Pair → Bytes → Signature
  verify : Signature → Bytes → Public → Bool
  accountIdFromPublic : Public → Bytes32
  -- public key, then signature
  txSignature : Codec (Public × Signature)

def signedV4 : UInt8 := 0x84
def multiAddressId : UInt8 := 0
def eraImmortal : UInt8 := 0
def metadataHashDisabled : UInt8 := 0
def metadataHashEnabled : UInt8 := 1
def quantumPowPalletIndex : UInt8 := 10
def submitProofCallIndex : UInt8 := 4

def compactU32 : Codec Nat := .compact 4 (by decide)
def compactU128 : Codec Nat := .compact 16 (by decide)

def quantumProofFields : Bytes32 × Bytes32 × Bytes32 × List Bytes × Nat ≃ QuantumProof where
  toFun f := ⟨f.1, f.2.1, f.2.2.1, f.2.2.2.1, f.2.2.2.2⟩
  invFun q := (q.topologyHash, q.nonce, q.salt, q.solutions, q.deviceAccessTimeUs)
  left_inv _ := rfl
  right_inv _ := rfl

def quantumProofCodec : Codec QuantumProof :=
  let rows := (Codec.byte.sequence).sequence
  ((Codec.array 32).pair ((Codec.array 32).pair ((Codec.array 32).pair
    (rows.pair (.littleEndian 8))))).map quantumProofFields

def encodeSubmitProofCall (proof : QuantumProof) : Bytes :=
  quantumPowPalletIndex :: submitProofCallIndex :: quantumProofCodec.encode proof

def extensionBytes (accountNonce tip : Nat) (mode : UInt8) : Bytes :=
  eraImmortal :: (compactU32.encode accountNonce ++ (compactU128.encode tip ++ [mode]))

def encodeExtra (accountNonce tip : Nat) : Bytes :=
  extensionBytes accountNonce tip metadataHashDisabled

def encodeAdditional (specVersion transactionVersion : Nat) (genesisHash : Bytes32) : Bytes :=
  toLeBytes 4 specVersion ++ toLeBytes 4 transactionVersion ++ genesisHash.toList ++
    genesisHash.toList ++ [0]

def SignedExtensionContext.runtime (ctx : SignedExtensionContext) : RuntimeTxContext :=
  ⟨ctx.genesisHash, ctx.specVersion, ctx.transactionVersion⟩

def expectByte (b : UInt8) : Bytes → Option Bytes
  | [] => none
  | c :: rest => if c = b then some rest else none

/-- Position of `rest` inside `bytes`, where `rest` is a suffix of `bytes`. -/
def offset (bytes rest : Bytes) : Option Nat :=
  if rest.length ≤ bytes.length then some (bytes.length - rest.length) else none

/-- `bytes.get(start..stop)`. -/
def slice (bytes : Bytes) (start stop : Nat) : Option Bytes :=
  if start ≤ stop ∧ stop ≤ bytes.length then some ((bytes.take stop).drop start) else none

def readSignedExtensions (input : Bytes) : Option (UInt8 × Bytes) := do
  let input ← expectByte eraImmortal input
  let (_, input) ← compactU32.decode input
  let (_, input) ← compactU128.decode input
  let (mode, input) ← Codec.byte.decode input
  if mode = metadataHashDisabled ∨ mode = metadataHashEnabled then some (mode, input) else none

section
variable [Crates]

def extrinsicHash (ext : Bytes) : Bytes32 := blake2256 ext

def signingPayload (call extra additional : Bytes) : Bytes :=
  let payload := call ++ extra ++ additional
  if 256 < payload.length then (blake2256 payload).toList else payload

variable [HybridCrypto]
open HybridCrypto

structure HybridTxSignature where
  pub : Public
  signature : Signature

namespace HybridTxSignature
omit [Crates]

def codec : Codec HybridTxSignature :=
  txSignature.map ⟨fun p => ⟨p.1, p.2⟩, fun s => (s.pub, s.signature), fun _ => rfl, fun _ => rfl⟩

def sign (pair : Pair) (payload : Bytes) : HybridTxSignature :=
  ⟨pairPublic pair, HybridCrypto.sign pair payload⟩

def derivedAccountId (s : HybridTxSignature) : Bytes32 := accountIdFromPublic s.pub

end HybridTxSignature

omit [Crates] in
def signerAccountBytes (pair : Pair) : Bytes32 := accountIdFromPublic (pairPublic pair)

omit [Crates] in
def signedBody (account : Bytes32) (signature : HybridTxSignature) (extra call : Bytes) : Bytes :=
  signedV4 :: multiAddressId ::
    (account.toList ++ (HybridTxSignature.codec.encode signature ++ (extra ++ call)))

omit [Crates] in
/-- The length is cast to `u32`. -/
def assembleSignedExtrinsic (account : Bytes32) (signature : HybridTxSignature)
    (extra call : Bytes) : Bytes :=
  let body := signedBody account signature extra call
  compactU32.encode (body.length % 2 ^ 32) ++ body

def buildHybridSignedExtrinsic (pair : Pair) (callBytes : Bytes) (ctx : SignedExtensionContext) :
    Bytes :=
  let extra := encodeExtra ctx.accountNonce ctx.tip
  let additional := encodeAdditional ctx.specVersion ctx.transactionVersion ctx.genesisHash
  let sig := HybridTxSignature.sign pair (signingPayload callBytes extra additional)
  assembleSignedExtrinsic (signerAccountBytes pair) sig extra callBytes

def signatureHolds (signature : HybridTxSignature) (account : Bytes32) (call extra : Bytes)
    (metadataHashMode : UInt8) (ctx : RuntimeTxContext) : Bool :=
  if signature.derivedAccountId ≠ account then false
  else if metadataHashMode = metadataHashEnabled then true
  else
    let additional := encodeAdditional ctx.specVersion ctx.transactionVersion ctx.genesisHash
    verify signature.signature (signingPayload call extra additional) signature.pub

def decodePendingProof (bytes : Bytes) (ctx : RuntimeTxContext) : Option PendingProof := do
  let (declared, input) ← compactU32.decode bytes
  guard (declared = input.length)
  let input ← expectByte signedV4 input
  let input ← expectByte multiAddressId input
  let (account, input) ← (Codec.array 32).decode input
  let (signature, input) ← HybridTxSignature.codec.decode input
  let extraStart ← offset bytes input
  let (mode, input) ← readSignedExtensions input
  let callStart ← offset bytes input
  let input ← expectByte quantumPowPalletIndex input
  let input ← expectByte submitProofCallIndex input
  let (proof, input) ← quantumProofCodec.decode input
  guard (input = [])
  let extra ← slice bytes extraStart callStart
  let call ← slice bytes callStart bytes.length
  guard (signatureHolds signature account call extra mode ctx)
  pure ⟨extrinsicHash bytes, account, proof⟩

/-! ## The envelope, read and written -/

section
omit [Crates] [HybridCrypto]

theorem quantumProofCodec_dom (q : QuantumProof) : quantumProofCodec.dom q ↔ q.WellFormed := by
  change (True ∧ True ∧ True ∧ (q.solutions.length < 2 ^ 32 ∧ ∀ row ∈ q.solutions,
    row.length < 2 ^ 32 ∧ ∀ b ∈ row, True) ∧ q.deviceAccessTimeUs < 256 ^ 8) ↔ _
  constructor
  · rintro ⟨-, -, -, ⟨hlen, hrows⟩, htime⟩
    exact ⟨hlen, fun row hrow => (hrows row hrow).1, htime⟩
  · intro h
    exact ⟨trivial, trivial, trivial, ⟨h.solutions, fun row hrow => ⟨h.rows row hrow, by simp⟩⟩,
      h.deviceTime⟩

theorem length_le_encode {q : QuantumProof} {row : Bytes} (h : row ∈ q.solutions) :
    row.length ≤ (quantumProofCodec.encode q).length := by
  change row.length ≤ (q.topologyHash.toList ++ (q.nonce.toList ++ (q.salt.toList ++
    ((Codec.toCompact q.solutions.length ++ q.solutions.flatMap fun r =>
      Codec.toCompact r.length ++ r.flatMap fun b => [b]) ++ Codec.toLe 8 q.deviceAccessTimeUs)))).length
  obtain ⟨before, after, hsplit⟩ := List.append_of_mem h
  simp only [hsplit, List.flatMap_append, List.flatMap_cons, List.flatMap_singleton',
    List.length_append]
  omega

theorem expectByte_bind_eq_some {α : Type} {b : UInt8} {bytes : Bytes} {f : Bytes → Option α}
    {a : α} : (expectByte b bytes >>= f) = some a ↔ ∃ rest, bytes = b :: rest ∧ f rest = some a := by
  cases bytes with
  | nil => simp [expectByte]
  | cons c tail =>
    by_cases h : c = b <;> simp [expectByte, h]

theorem guard_bind_eq_some {α : Type} {p : Prop} [Decidable p] {f : Unit → Option α} {a : α} :
    (guard p >>= f) = some a ↔ p ∧ f () = some a := by
  by_cases h : p <;> simp [guard, h]

theorem offset_append (pre rest : Bytes) : offset (pre ++ rest) rest = some pre.length := by
  simp [offset]

theorem slice_append (pre mid post : Bytes) :
    slice (pre ++ (mid ++ post)) pre.length (pre ++ mid).length = some mid := by
  rw [slice, if_pos (by simp), ← List.append_assoc, List.take_left, List.drop_left]

theorem slice_suffix (pre post : Bytes) :
    slice (pre ++ post) pre.length (pre ++ post).length = some post := by
  rw [slice, if_pos (by simp), List.take_length, List.drop_left]

theorem slices_of_split {bytes pre extra call : Bytes} (h : bytes = pre ++ (extra ++ call)) :
    offset bytes (extra ++ call) = some pre.length ∧
      offset bytes call = some (pre ++ extra).length ∧
      slice bytes pre.length (pre ++ extra).length = some extra ∧
      slice bytes (pre ++ extra).length bytes.length = some call := by
  subst h
  refine ⟨offset_append pre _, ?_, slice_append pre extra call, ?_⟩
  · rw [← List.append_assoc]
    exact offset_append _ call
  · rw [← List.append_assoc]
    exact slice_suffix _ call

theorem readSignedExtensions_eq_some {input rest : Bytes} {mode : UInt8} :
    readSignedExtensions input = some (mode, rest) ↔
      (mode = metadataHashDisabled ∨ mode = metadataHashEnabled) ∧
        ∃ accountNonce < 2 ^ 32, ∃ tip < 2 ^ 128,
          input = extensionBytes accountNonce tip mode ++ rest := by
  unfold readSignedExtensions extensionBytes
  constructor
  · intro h
    obtain ⟨input1, rfl, h1⟩ := expectByte_bind_eq_some.mp h
    obtain ⟨nonce, input2, hn, rfl, h2⟩ := Codec.decode_bind_eq_some.mp h1
    obtain ⟨tip, input3, ht, rfl, h3⟩ := Codec.decode_bind_eq_some.mp h2
    obtain ⟨m, input4, _, rfl, h4⟩ := Codec.decode_bind_eq_some.mp h3
    dsimp only at h4
    split_ifs at h4 with hm
    obtain ⟨rfl, rfl⟩ := Prod.mk.inj (Option.some.inj h4)
    exact ⟨hm, nonce, hn, tip, ht, by simp [Codec.byte]⟩
  · intro ⟨hm, nonce, hn, tip, ht, hinput⟩
    refine expectByte_bind_eq_some.mpr ⟨_, hinput, ?_⟩
    refine Codec.decode_bind_eq_some.mpr ⟨nonce, _, hn, List.append_assoc _ _ _, ?_⟩
    refine Codec.decode_bind_eq_some.mpr ⟨tip, _, ht, List.append_assoc _ _ _, ?_⟩
    refine Codec.decode_bind_eq_some.mpr ⟨mode, rest, trivial, rfl, ?_⟩
    exact if_pos hm

end

omit [Crates] in
def envelopeHead (declared : Nat) (account : Bytes32) (signature : HybridTxSignature) : Bytes :=
  compactU32.encode declared ++
    signedV4 :: multiAddressId :: (account.toList ++ HybridTxSignature.codec.encode signature)

omit [Crates] in
theorem envelopeHead_append (declared : Nat) (account : Bytes32) (signature : HybridTxSignature)
    (extra call : Bytes) : envelopeHead declared account signature ++ (extra ++ call) =
      compactU32.encode declared ++ signedBody account signature extra call := by
  simp [envelopeHead, signedBody]

/-- The decoder accepts exactly the envelopes of a `submit_proof` call, shorter than `2 ^ 32` bytes,
whose signature holds. -/
theorem decodePendingProof_eq_some {bytes : Bytes} {ctx : RuntimeTxContext} {p : PendingProof} :
    decodePendingProof bytes ctx = some p ↔
      ∃ signature accountNonce tip mode,
        let extra := extensionBytes accountNonce tip mode
        let call := encodeSubmitProofCall p.proof
        accountNonce < 2 ^ 32 ∧ tip < 2 ^ 128 ∧
          (mode = metadataHashDisabled ∨ mode = metadataHashEnabled) ∧ p.proof.WellFormed ∧
          HybridTxSignature.codec.dom signature ∧
          (signedBody p.account signature extra call).length < 2 ^ 32 ∧
          bytes = assembleSignedExtrinsic p.account signature extra call ∧
          signatureHolds signature p.account call extra mode ctx = true ∧
          p.extrinsicHash = extrinsicHash bytes := by
  unfold decodePendingProof
  constructor
  · intro h
    obtain ⟨declared, body, hlt, hbytes, h1⟩ := Codec.decode_bind_eq_some.mp h
    obtain ⟨hlen, h2⟩ := guard_bind_eq_some.mp h1
    obtain ⟨body1, rfl, h3⟩ := expectByte_bind_eq_some.mp h2
    obtain ⟨body2, rfl, h4⟩ := expectByte_bind_eq_some.mp h3
    obtain ⟨account, body3, _, rfl, h5⟩ := Codec.decode_bind_eq_some.mp h4
    obtain ⟨signature, body4, hsig, rfl, h6⟩ := Codec.decode_bind_eq_some.mp h5
    obtain ⟨extraStart, hextraStart, h7⟩ := Option.bind_eq_some_iff.mp h6
    obtain ⟨⟨mode, body5⟩, hextra, h8⟩ := Option.bind_eq_some_iff.mp h7
    obtain ⟨hmode, accountNonce, hnonce, tip, htip, rfl⟩ := readSignedExtensions_eq_some.mp hextra
    obtain ⟨callStart, hcallStart, h9⟩ := Option.bind_eq_some_iff.mp h8
    obtain ⟨body6, rfl, h10⟩ := expectByte_bind_eq_some.mp h9
    obtain ⟨body7, rfl, h11⟩ := expectByte_bind_eq_some.mp h10
    obtain ⟨proof, body8, hproof, rfl, h12⟩ := Codec.decode_bind_eq_some.mp h11
    obtain ⟨rfl, h13⟩ := guard_bind_eq_some.mp h12
    obtain ⟨extra, hsliceExtra, h14⟩ := Option.bind_eq_some_iff.mp h13
    obtain ⟨call, hsliceCall, h15⟩ := Option.bind_eq_some_iff.mp h14
    obtain ⟨hholds, h16⟩ := guard_bind_eq_some.mp h15
    obtain rfl := Option.some.inj h16
    rw [List.append_nil] at hlen hextraStart hcallStart hbytes
    have hsplit : bytes = envelopeHead declared account signature ++
        (extensionBytes accountNonce tip mode ++ encodeSubmitProofCall proof) := by
      rw [envelopeHead_append]
      exact hbytes
    obtain ⟨hoffExtra, hoffCall, hextra, hcall⟩ := slices_of_split hsplit
    obtain rfl := Option.some.inj (hextraStart.symm.trans hoffExtra)
    obtain rfl := Option.some.inj (hcallStart.symm.trans hoffCall)
    obtain rfl := Option.some.inj (hsliceExtra.symm.trans hextra)
    obtain rfl := Option.some.inj (hsliceCall.symm.trans hcall)
    have hdeclared : declared = (signedBody account signature
        (extensionBytes accountNonce tip mode) (encodeSubmitProofCall proof)).length := hlen
    have hlt : declared < 2 ^ 32 := hlt
    refine ⟨signature, accountNonce, tip, mode, hnonce, htip, hmode,
      (quantumProofCodec_dom proof).mp hproof, hsig, hdeclared ▸ hlt, ?_, hholds, rfl⟩
    rw [assembleSignedExtrinsic, ← hdeclared, Nat.mod_eq_of_lt hlt]
    exact hbytes
  · intro ⟨signature, accountNonce, tip, mode, hnonce, htip, hmode, hproof, hsig, hlen, hbytes,
      hholds, hhash⟩
    have hbody : bytes = compactU32.encode (signedBody p.account signature
        (extensionBytes accountNonce tip mode) (encodeSubmitProofCall p.proof)).length ++
        signedBody p.account signature (extensionBytes accountNonce tip mode)
          (encodeSubmitProofCall p.proof) := by
      rw [hbytes, assembleSignedExtrinsic, Nat.mod_eq_of_lt hlen]
    have hsplit := hbody.trans (envelopeHead_append _ _ _ _ _).symm
    obtain ⟨hextraStart, hcallStart, hsliceExtra, hsliceCall⟩ := slices_of_split hsplit
    refine Codec.decode_bind_eq_some.mpr ⟨_, _, hlen, hbody, ?_⟩
    refine guard_bind_eq_some.mpr ⟨rfl, ?_⟩
    refine expectByte_bind_eq_some.mpr ⟨_, rfl, ?_⟩
    refine expectByte_bind_eq_some.mpr ⟨_, rfl, ?_⟩
    refine Codec.decode_bind_eq_some.mpr ⟨p.account, _, trivial, rfl, ?_⟩
    refine Codec.decode_bind_eq_some.mpr ⟨signature, _, hsig, rfl, ?_⟩
    refine Option.bind_eq_some_iff.mpr ⟨_, hextraStart, ?_⟩
    refine Option.bind_eq_some_iff.mpr ⟨(mode, encodeSubmitProofCall p.proof),
      readSignedExtensions_eq_some.mpr ⟨hmode, accountNonce, hnonce, tip, htip, rfl⟩, ?_⟩
    refine Option.bind_eq_some_iff.mpr ⟨_, hcallStart, ?_⟩
    refine expectByte_bind_eq_some.mpr ⟨_, rfl, ?_⟩
    refine expectByte_bind_eq_some.mpr ⟨_, rfl, ?_⟩
    refine Codec.decode_bind_eq_some.mpr ⟨p.proof, [], (quantumProofCodec_dom _).mpr hproof,
      (List.append_nil _).symm, ?_⟩
    refine guard_bind_eq_some.mpr ⟨rfl, ?_⟩
    refine Option.bind_eq_some_iff.mpr ⟨_, hsliceExtra, ?_⟩
    refine Option.bind_eq_some_iff.mpr ⟨_, hsliceCall, ?_⟩
    refine guard_bind_eq_some.mpr ⟨hholds, ?_⟩
    exact congrArg some (by rw [← hhash])

/-- The hybrid scheme: every signature has an encoding, and what a pair signs verifies under its
public key. -/
structure HybridLaws : Prop where
  dom : ∀ s, txSignature.dom s
  verify_sign : ∀ pair payload, verify (sign pair payload) payload (pairPublic pair) = true

def builtBody (pair : Pair) (callBytes : Bytes) (ctx : SignedExtensionContext) : Bytes :=
  let extra := encodeExtra ctx.accountNonce ctx.tip
  let additional := encodeAdditional ctx.specVersion ctx.transactionVersion ctx.genesisHash
  signedBody (signerAccountBytes pair)
    (HybridTxSignature.sign pair (signingPayload callBytes extra additional)) extra callBytes

theorem length_lt_builtBody (pair : Pair) {proof : QuantumProof} {row : Bytes}
    (h : row ∈ proof.solutions) (ctx : SignedExtensionContext) :
    row.length < (builtBody pair (encodeSubmitProofCall proof) ctx).length := by
  have hle := length_le_encode h
  simp only [builtBody, signedBody, encodeSubmitProofCall, List.length_cons, List.length_append]
  omega

theorem decodePendingProof_built (laws : HybridLaws) (pair : Pair) {proof : QuantumProof}
    (hproof : proof.WellFormed) {ctx : SignedExtensionContext}
    (hnonce : ctx.accountNonce < 2 ^ 32) (htip : ctx.tip < 2 ^ 128)
    (hlen : (builtBody pair (encodeSubmitProofCall proof) ctx).length < 2 ^ 32) :
    let ext := buildHybridSignedExtrinsic pair (encodeSubmitProofCall proof) ctx
    decodePendingProof ext ctx.runtime =
      some ⟨extrinsicHash ext, signerAccountBytes pair, proof⟩ := by
  intro ext
  refine decodePendingProof_eq_some.mpr ⟨_, ctx.accountNonce, ctx.tip, metadataHashDisabled, hnonce,
    htip, Or.inl rfl, hproof, laws.dom _, hlen, rfl, ?_, rfl⟩
  unfold signatureHolds
  rw [if_neg fun hne => hne rfl, if_neg (by decide)]
  exact laws.verify_sign pair _

/-- From `2 ^ 32` bytes on the cast of the length loses its top, and the prefix is wrong. -/
theorem decodePendingProof_overlong {pair : Pair} {callBytes : Bytes} {ctx : SignedExtensionContext}
    (hlen : 2 ^ 32 ≤ (builtBody pair callBytes ctx).length) (rt : RuntimeTxContext) :
    decodePendingProof (buildHybridSignedExtrinsic pair callBytes ctx) rt = none := by
  refine Option.eq_none_iff_forall_ne_some.mpr fun p hp => ?_
  obtain ⟨signature, accountNonce, tip, mode, _, _, _, _, _, hlt, hbytes, _, _⟩ :=
    decodePendingProof_eq_some.mp hp
  have hread : ∀ body : Bytes, compactU32.decode
      (compactU32.encode (body.length % 2 ^ 32) ++ body) = some (body.length % 2 ^ 32, body) :=
    fun body => compactU32.decode_append _ _ (Nat.mod_lt _ (by decide))
  have hbuilt := hread (builtBody pair callBytes ctx)
  rw [show compactU32.encode ((builtBody pair callBytes ctx).length % 2 ^ 32) ++
    builtBody pair callBytes ctx = _ from hbytes] at hbuilt
  obtain ⟨_, hbody⟩ := Prod.mk.inj (Option.some.inj (hbuilt.symm.trans (hread _)))
  rw [hbody] at hlen
  omega

/-- The decoder inverts the builder on every proof whose signed body is shorter than `2 ^ 32` bytes,
and what it accepts is an assembled `submit_proof` extrinsic, with nothing left over at any level,
signed by the key of its account. -/
theorem pending_proof_decoder_inverts_builder (laws : HybridLaws) :
    (∀ (pair : Pair) (proof : QuantumProof) (ctx : SignedExtensionContext), proof.WellFormed →
      ctx.accountNonce < 2 ^ 32 → ctx.tip < 2 ^ 128 →
      let call := encodeSubmitProofCall proof
      let ext := buildHybridSignedExtrinsic pair call ctx
      ((builtBody pair call ctx).length < 2 ^ 32 → decodePendingProof ext ctx.runtime =
        some ⟨extrinsicHash ext, signerAccountBytes pair, proof⟩) ∧
      (2 ^ 32 ≤ (builtBody pair call ctx).length → decodePendingProof ext ctx.runtime = none)) ∧
    ∀ (bytes : Bytes) (ctx : RuntimeTxContext) (p : PendingProof),
      decodePendingProof bytes ctx = some p → ∃ signature accountNonce tip mode,
        let extra := extensionBytes accountNonce tip mode
        let call := encodeSubmitProofCall p.proof
        let additional := encodeAdditional ctx.specVersion ctx.transactionVersion ctx.genesisHash
        bytes = assembleSignedExtrinsic p.account signature extra call ∧
          p.extrinsicHash = extrinsicHash bytes ∧ p.proof.WellFormed ∧
          accountNonce < 2 ^ 32 ∧ tip < 2 ^ 128 ∧
          (mode = metadataHashDisabled ∨ mode = metadataHashEnabled) ∧
          signature.derivedAccountId = p.account ∧
          (mode = metadataHashDisabled →
            verify signature.signature (signingPayload call extra additional) signature.pub = true) := by
  constructor
  · intro pair proof ctx hproof hnonce htip call ext
    exact ⟨decodePendingProof_built laws pair hproof hnonce htip,
      fun hlen => decodePendingProof_overlong hlen ctx.runtime⟩
  · intro bytes ctx p h
    obtain ⟨signature, accountNonce, tip, mode, hnonce, htip, hmode, hproof, _, _, hbytes, hholds,
      hhash⟩ := decodePendingProof_eq_some.mp h
    unfold signatureHolds at hholds
    split_ifs at hholds with haccount henabled
    · refine ⟨signature, accountNonce, tip, mode, hbytes, hhash, hproof, hnonce, htip, hmode,
        not_not.mp haccount, fun hdisabled => ?_⟩
      rw [hdisabled] at henabled
      exact absurd henabled (by decide)
    · exact ⟨signature, accountNonce, tip, mode, hbytes, hhash, hproof, hnonce, htip, hmode,
        not_not.mp haccount, fun _ => hholds⟩

end

namespace Sample

/-- A pair is its public key, an account is a public key, and a signature is a digest. -/
scoped instance hybridCrypto : HybridCrypto where
  Pair := Bytes32
  Public := Bytes32
  Signature := Bytes32
  pairPublic pair := pair
  sign _ payload := blake2256 payload
  verify signature payload _ := signature = blake2256 payload
  accountIdFromPublic key := key
  txSignature := (Codec.array 32).pair (Codec.array 32)

theorem hybridLaws : HybridLaws where
  dom _ := ⟨trivial, trivial⟩
  verify_sign _ _ := decide_eq_true rfl

def alice : Bytes32 := Vector.replicate 32 5

def signing : SignedExtensionContext := ⟨3, Vector.replicate 32 17, 100, 1, 0⟩

/-- One row of `2 ^ 32 - 1` bytes, the longest that has a length prefix. -/
def longProof : QuantumProof := { ringProof with solutions := [List.replicate (2 ^ 32 - 1) 0] }

theorem longProof_wellFormed : longProof.WellFormed where
  solutions := by decide
  rows := by
    intro row hrow
    rw [List.mem_singleton.mp hrow, List.length_replicate]
    decide
  deviceTime := by decide

theorem longProof_body :
    2 ^ 32 ≤ (builtBody alice (encodeSubmitProofCall longProof) signing).length := by
  have hmem : List.replicate (2 ^ 32 - 1) 0 ∈ longProof.solutions := List.mem_singleton_self _
  have hlt := length_lt_builtBody alice hmem signing
  rw [List.length_replicate] at hlt
  exact Nat.le_of_pred_lt hlt

end Sample

open Sample in
theorem pending_proof_decoder_inverts_builder_ring :
    let ext := buildHybridSignedExtrinsic alice (encodeSubmitProofCall ringProof) signing
    decodePendingProof ext signing.runtime = some ⟨extrinsicHash ext, alice, ringProof⟩ ∧
      ∃ signature accountNonce tip mode, ext = assembleSignedExtrinsic alice signature
        (extensionBytes accountNonce tip mode) (encodeSubmitProofCall ringProof) := by
  intro ext
  have h := pending_proof_decoder_inverts_builder hybridLaws
  have hsome := (h.1 alice ringProof signing ringProof_wellFormed (by decide) (by decide)).1
    (by decide +kernel)
  obtain ⟨signature, accountNonce, tip, mode, hext, _⟩ := h.2 _ _ _ hsome
  exact ⟨hsome, signature, accountNonce, tip, mode, hext⟩

open Sample in
/-- A row of `2 ^ 32 - 1` bytes is a proof that encodes, and its extrinsic decodes to nothing. -/
theorem overlong_extrinsic_decodes_to_nothing :
    longProof.WellFormed ∧ signing.accountNonce < 2 ^ 32 ∧ signing.tip < 2 ^ 128 ∧
      decodePendingProof (buildHybridSignedExtrinsic alice (encodeSubmitProofCall longProof) signing)
        signing.runtime = none :=
  ⟨longProof_wellFormed, by decide, by decide, decodePendingProof_overlong longProof_body _⟩

end QuipCoordinator
