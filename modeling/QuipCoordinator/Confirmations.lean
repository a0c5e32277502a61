import QuipCoordinator.PoolDecoding

/-!
# Confirming a signed call from chain state

`submitSignedCall` signs a call, watches its status and decides from two reads of
the block that includes it: whether the extrinsic is in the body, and whether the
storage entry that a success writes is there after the block. No event is decoded.
The node answers each read or fails. On the chain side a block runs its extrinsics
in order on the storage before it: a dispatch that succeeds returns the new
storage, a dispatch that fails leaves the storage as it is.
-/

namespace QuipCoordinator
open Crates HybridCrypto

def hexDigit (n : Nat) : Char :=
  if n < 10 then Char.ofNat (48 + n) else Char.ofNat (87 + n)

def hexEncode (bytes : Bytes) : String :=
  "0x" ++ String.ofList (bytes.flatMap fun b => [hexDigit (b.toNat / 16), hexDigit (b.toNat % 16)])

def ChainError.display : ChainError → String
  | .unavailable s => "chain unavailable: " ++ s
  | .decode s => "decode error: " ++ s
  | .submit s => "submit error: " ++ s

inductive SolverType
  | cpu
  | gpu
  | qpuDwave
  | qpuIbm
  | qpuIonq
  | qpuPasqal
  | asic
deriving DecidableEq

inductive Confirmation
  | proofWin (account : Bytes32)
  | descriptor (account : Bytes32)
  | minerRegistered (account : Bytes32)
  | participation (qblockId : Nat) (account : Bytes32)
  | defaultTopology
  | difficulty (topologyHash : Bytes32)
  | solverRegistered (account : Bytes32)
  | solverDeregistered (account : Bytes32)
  | solutionAccepted (orderId : Nat) (account : Bytes32)
deriving DecidableEq

inductive SignedCallOutcome
  | success (block : String) (number : Nat)
  | dispatchFailed (error : String) (lostRace : Bool)
  | invalid (message : String)
  | dropped (message : String)
deriving DecidableEq

inductive TxStatus
  | ready
  | broadcast
  | inBlock (block : String)
  | finalized (block : String)
  | dropped (message : String)
  | invalid (message : String)
  | future
  | other (status : String)
deriving DecidableEq

inductive StorageKey
  | qblocks (number : Nat)
  | nodeDescriptors (account : Bytes32)
  | miners (account : Bytes32)
  | participantsByQblock (qblockId : Nat) (account : Bytes32)
  | defaultTopology
  | difficulties (topologyHash : Bytes32)
  | solvers (account : Bytes32)
  | orderSolutions (orderId : Nat) (account : Bytes32)
deriving DecidableEq

inductive StateOutcome
  | won
  | includedButNotWon
  | notIncluded
deriving DecidableEq

/-- What the node answers. A body is the text entries of `block.extrinsics` after `hex_decode`, none
without that array; a value is absent or the text at the key after `hex_decode`. `decodeError` is the
text of a failed SCALE decode. -/
structure Node where
  primaryUrl : Except ChainError String
  submitAndWatch : Bytes → Except ChainError (List (Except ChainError TxStatus))
  getBlock : String → Except ChainError (Option (List (Except String Bytes)))
  getHeaderNumber : String → Except ChainError Nat
  getStorage : String → StorageKey → Except ChainError (Option (Except String Bytes))
  decodeError : Bytes → String

def decodeSolverType : Bytes → Option (SolverType × Bytes)
  | 0 :: rest => some (.cpu, rest)
  | 1 :: rest => some (.gpu, rest)
  | 2 :: rest => some (.qpuDwave, rest)
  | 3 :: rest => some (.qpuIbm, rest)
  | 4 :: rest => some (.qpuIonq, rest)
  | 5 :: rest => some (.qpuPasqal, rest)
  | 6 :: rest => some (.asic, rest)
  | _ => none

def decodeSolverInfo (bytes : Bytes) : Option SolverType := do
  let (_, rest) ← (Codec.array 32).decode bytes
  let (solverType, rest) ← decodeSolverType rest
  let (_, rest) ← (Codec.littleEndian 4).decode rest
  let (_, rest) ← (Codec.littleEndian 8).decode rest
  let _ ← (Codec.littleEndian 16).decode rest
  pure solverType

def decodeSubmittedAt (bytes : Bytes) : Option Nat := do
  let (_, rest) ← (Codec.array 32).decode bytes
  let (_, rest) ← decodeSolverType rest
  let (_, rest) ← Codec.byte.sequence.sequence.decode rest
  let (_, rest) ← (Codec.littleEndian 8).decode rest
  let (_, rest) ← (Codec.littleEndian 4).decode rest
  let (_, rest) ← (Codec.littleEndian 4).decode rest
  let (submittedAt, _) ← (Codec.littleEndian 4).decode rest
  pure submittedAt

namespace Node

def storageValuePresent (node : Node) (key : StorageKey) (block : String) :
    Except ChainError Bool := do
  let raw ← node.getStorage block key
  pure raw.isSome

def readStorage {α : Type} (node : Node) (decode : Bytes → Option α) (key : StorageKey)
    (block : String) : Except ChainError (Option α) := do
  match ← node.getStorage block key with
  | none => pure none
  | some text =>
    let bytes ← text.mapError .decode
    match decode bytes with
    | none => .error (.decode (node.decodeError bytes))
    | some value => pure (some value)

def qblockWinnerAt (node : Node) (block : String) : Except ChainError (Option Bytes32) := do
  let number ← node.getHeaderNumber block
  if 2 ^ 32 ≤ number then .error (.decode "block number exceeds u32")
  else
    match ← node.getStorage block (.qblocks number) with
    | none => pure none
    | some text =>
      let bytes ← text.mapError .decode
      match (Codec.array 32).decode bytes with
      | none => .error (.decode ("QBlocks value is " ++ toString bytes.length ++
          " bytes, too short to hold an account"))
      | some (miner, _) => pure (some miner)

def proofWinAt (node : Node) (block : String) (ourAccount : Bytes32) : Except ChainError Bool := do
  let winner ← node.qblockWinnerAt block
  pure (winner = some ourAccount)

/-- `kind` is the solver type the coordinator is configured with. -/
def confirmationPresent (node : Node) (kind : SolverType) (block : String) :
    Confirmation → Except ChainError Bool
  | .proofWin account => node.proofWinAt block account
  | .descriptor account => node.storageValuePresent (.nodeDescriptors account) block
  | .minerRegistered account => node.storageValuePresent (.miners account) block
  | .participation qblockId account =>
    node.storageValuePresent (.participantsByQblock qblockId account) block
  | .defaultTopology => node.storageValuePresent .defaultTopology block
  | .difficulty topologyHash => node.storageValuePresent (.difficulties topologyHash) block
  | .solverRegistered account => do
    let stored ← node.readStorage decodeSolverInfo (.solvers account) block
    pure (stored = some kind)
  | .solverDeregistered account => do
    let present ← node.storageValuePresent (.solvers account) block
    pure !present
  | .solutionAccepted orderId account => do
    let number ← node.getHeaderNumber block
    let stored ← node.readStorage decodeSubmittedAt (.orderSolutions orderId account) block
    pure (stored = some number)

end Node

def explainProofFailure (ourAccount : Bytes32) : Option Bytes32 → String × Bool
  | some winner =>
    if winner ≠ ourAccount then
      ("lost the qblock to miner " ++ hexEncode winner.toList ++
        "; this proof was valid but arrived behind theirs", true)
    else
      ("we hold the qblock but the win was not observed at this block; treat as a read " ++
        "race, not a rejection", false)
  | none =>
    ("no qblock was recorded at this block, so the pallet rejected the proof itself; " ++
      "check diversity, energy, and registration", false)

def Node.explainFailure (node : Node) (block : String) : Confirmation → String × Bool
  | .proofWin account =>
    match node.qblockWinnerAt block with
    | .ok winner => explainProofFailure account winner
    | .error e =>
      ("dispatch failed and the qblock winner could not be read: " ++ e.display, false)
  | .minerRegistered _ =>
    ("dispatch failed and QuantumPow.Miners still has no entry for this account; " ++
      "the deposit may be unaffordable", false)
  | .descriptor _ =>
    ("dispatch failed and MinerRegistry.NodeDescriptors still has no entry for this " ++
      "account", false)
  | .participation qblockId _ =>
    ("dispatch failed and this account is absent from the participant set for qblock " ++
      toString qblockId, false)
  | .defaultTopology =>
    ("dispatch failed and QuantumPow.DefaultTopology is still unset", false)
  | .difficulty _ =>
    ("dispatch failed and QuantumPow.Difficulties has no entry for this topology", false)
  | .solverRegistered _ =>
    ("dispatch failed and QuantumComputeMempool.Solvers has no entry with the requested " ++
      "solver type for this account", false)
  | .solverDeregistered _ =>
    ("dispatch failed and QuantumComputeMempool.Solvers still holds this account", false)
  | .solutionAccepted orderId _ =>
    ("dispatch failed and OrderSolutions for order " ++ toString orderId ++
      " holds no submission from this block; the order may have closed, or the solutions " ++
      "missed its gates", false)

def classifyStateOutcome (included wonHere : Bool) : StateOutcome :=
  match included, wonHere with
  | true, true => .won
  | true, false => .includedButNotWon
  | false, _ => .notIncluded

section
variable [Crates]

def containsHash (wantHash : Bytes32) : List (Except String Bytes) → Except ChainError Bool
  | [] => .ok false
  | .error e :: _ => .error (.decode e)
  | .ok bytes :: rest =>
    if extrinsicHash bytes = wantHash then .ok true else containsHash wantHash rest

namespace Node

def blockContains (node : Node) (block : String) (wantHash : Bytes32) : Except ChainError Bool := do
  match ← node.getBlock block with
  | none => .error (.decode "chain_getBlock has no block.extrinsics array")
  | some exts => containsHash wantHash exts

def confirmInBlock (node : Node) (kind : SolverType) (block : String) (wantHash : Bytes32)
    (confirmation : Confirmation) : Except ChainError SignedCallOutcome := do
  let included ← node.blockContains block wantHash
  let confirmed ← node.confirmationPresent kind block confirmation
  match classifyStateOutcome included confirmed with
  | .won =>
    let number ← node.getHeaderNumber block
    pure (.success block number)
  | .includedButNotWon =>
    let (error, lostRace) := node.explainFailure block confirmation
    pure (.dispatchFailed error lostRace)
  | .notIncluded => pure (.dropped ("extrinsic absent from block " ++ block))

def watchStatus (node : Node) (kind : SolverType) (wantHash : Bytes32)
    (confirmation : Confirmation) :
    List (Except ChainError TxStatus) → Except ChainError SignedCallOutcome
  | [] => .error (.unavailable "transaction status stream ended before inclusion")
  | .error e :: _ => .error e
  | .ok (.inBlock block) :: _ | .ok (.finalized block) :: _ =>
    node.confirmInBlock kind block wantHash confirmation
  | .ok (.invalid message) :: _ => .ok (.invalid message)
  | .ok (.dropped message) :: _ => .ok (.dropped message)
  | .ok (.other _) :: stream | .ok .ready :: stream | .ok .broadcast :: stream
  | .ok .future :: stream => watchStatus node kind wantHash confirmation stream

/-- Everything after the signing: a node that refuses the submit gives a verdict, any other error
is one. -/
def submitExtrinsic (node : Node) (kind : SolverType) (ext : Bytes) (confirmation : Confirmation) :
    Except ChainError (SignedCallOutcome × Bytes32) := do
  let wantHash := extrinsicHash ext
  let _ ← node.primaryUrl
  match node.submitAndWatch ext with
  | .error (.submit message) => pure (.invalid message, wantHash)
  | .error e => .error e
  | .ok stream =>
    let outcome ← node.watchStatus kind wantHash confirmation stream
    pure (outcome, wantHash)

variable [HybridCrypto]

def submitSignedCall (node : Node) (kind : SolverType) (pair : Except ChainError Pair)
    (signedCtx : Except ChainError SignedExtensionContext) (call : Bytes)
    (confirmation : Confirmation) : Except ChainError (SignedCallOutcome × Bytes32) := do
  let pair ← pair
  let ctx ← signedCtx
  node.submitExtrinsic kind (buildHybridSignedExtrinsic pair call ctx) confirmation

end Node
end

/-! ## The chain side -/

abbrev ChainStorage := StorageKey → Option Bytes

/-- An extrinsic in a block: none when its dispatch fails. -/
structure Extrinsic where
  bytes : Bytes
  dispatch : ChainStorage → Option ChainStorage

def runExtrinsics (extrinsics : List Extrinsic) (s : ChainStorage) : ChainStorage :=
  extrinsics.foldl (fun s e => (e.dispatch s).getD s) s

structure ChainBlock where
  number : Nat
  before : ChainStorage
  extrinsics : List Extrinsic

def ChainBlock.after (b : ChainBlock) : ChainStorage := runExtrinsics b.extrinsics b.before

def ChainBlock.stateAt (b : ChainBlock) (i : Nat) : ChainStorage :=
  runExtrinsics (b.extrinsics.take i) b.before

/-- What one value says: none when it is there and cannot be read. -/
def entryHolds {α : Type} [DecidableEq α] (decode : Bytes → Option α) (expected : α) :
    Option Bytes → Option Bool
  | none => some false
  | some value => (decode value).map fun found => found = expected

def decodeMiner (value : Bytes) : Option Bytes32 := ((Codec.array 32).decode value).map Prod.fst

/-- What the storage `s` after the block of the given number says about a call: none when the value
there cannot be read. -/
def Confirmation.shownIn (kind : SolverType) (number : Nat) (s : ChainStorage) :
    Confirmation → Option Bool
  | .proofWin account =>
    if 2 ^ 32 ≤ number then none else entryHolds decodeMiner account (s (.qblocks number))
  | .descriptor account => some (s (.nodeDescriptors account)).isSome
  | .minerRegistered account => some (s (.miners account)).isSome
  | .participation qblockId account => some (s (.participantsByQblock qblockId account)).isSome
  | .defaultTopology => some (s .defaultTopology).isSome
  | .difficulty topologyHash => some (s (.difficulties topologyHash)).isSome
  | .solverRegistered account => entryHolds decodeSolverInfo kind (s (.solvers account))
  | .solverDeregistered account => some (s (.solvers account)).isNone
  | .solutionAccepted orderId account =>
    entryHolds decodeSubmittedAt number (s (.orderSolutions orderId account))

/-- Every answer the node gives about the including block is right. It may fail to answer. -/
structure Node.Reports (node : Node) (b : ChainBlock) : Prop where
  body : ∀ hex body, node.getBlock hex = .ok body →
    body = some (b.extrinsics.map fun e => .ok e.bytes)
  number : ∀ hex n, node.getHeaderNumber hex = .ok n → n = b.number
  storage : ∀ hex key value, node.getStorage hex key = .ok value → value = (b.after key).map .ok

/-- A node that answers every read of the including block, and reports the inclusion at once. -/
def ChainBlock.answering (b : ChainBlock) : Node where
  primaryUrl := .ok ""
  submitAndWatch _ := .ok [.ok (.inBlock "0x")]
  getBlock _ := .ok (some (b.extrinsics.map fun e => .ok e.bytes))
  getHeaderNumber _ := .ok b.number
  getStorage _ key := .ok ((b.after key).map .ok)
  decodeError _ := ""

theorem ChainBlock.answering_reports (b : ChainBlock) : b.answering.Reports b where
  body _ _ h := (Except.ok.inj h).symm
  number _ _ h := (Except.ok.inj h).symm
  storage _ _ _ h := (Except.ok.inj h).symm

namespace Node.Reports
variable {node : Node} {b : ChainBlock} {hex : String} {key : StorageKey}

theorem present (h : node.Reports b) {v : Bool} (hv : node.storageValuePresent key hex = .ok v) :
    v = (b.after key).isSome := by
  obtain ⟨raw, hraw, hpure⟩ := Except.bind_eq_ok.mp hv
  rw [← Except.ok.inj hpure, h.storage _ _ _ hraw, Option.isSome_map]

theorem entryHolds_of_read (h : node.Reports b) {α : Type} [DecidableEq α]
    {decode : Bytes → Option α} {v : Option α} (hv : node.readStorage decode key hex = .ok v)
    (expected : α) : entryHolds decode expected (b.after key) = some (decide (v = some expected)) := by
  obtain ⟨raw, hraw, hmatch⟩ := Except.bind_eq_ok.mp hv
  rw [h.storage _ _ _ hraw] at hmatch
  cases hafter : b.after key with
  | none =>
    rw [hafter] at hmatch
    cases hmatch
    rfl
  | some value =>
    rw [hafter] at hmatch
    obtain ⟨bytes, hbytes, hmatch⟩ := Except.bind_eq_ok.mp hmatch
    cases Except.mapError_eq_ok.mp hbytes
    cases hdec : decode value with
    | none =>
      rw [hdec] at hmatch
      exact nomatch hmatch
    | some found =>
      rw [hdec] at hmatch
      cases hmatch
      simp [entryHolds, hdec]

theorem entryHolds_of_winner (h : node.Reports b) {v : Option Bytes32}
    (hv : node.qblockWinnerAt hex = .ok v) (account : Bytes32) : b.number < 2 ^ 32 ∧
      entryHolds decodeMiner account (b.after (.qblocks b.number)) =
        some (decide (v = some account)) := by
  obtain ⟨n, hn, hv⟩ := Except.bind_eq_ok.mp hv
  rw [h.number _ _ hn] at hv
  split at hv
  · exact nomatch hv
  rename_i hlt
  refine ⟨Nat.lt_of_not_le hlt, ?_⟩
  obtain ⟨raw, hraw, hmatch⟩ := Except.bind_eq_ok.mp hv
  rw [h.storage _ _ _ hraw] at hmatch
  cases hafter : b.after (.qblocks b.number) with
  | none =>
    rw [hafter] at hmatch
    cases hmatch
    rfl
  | some value =>
    rw [hafter] at hmatch
    obtain ⟨bytes, hbytes, hmatch⟩ := Except.bind_eq_ok.mp hmatch
    cases Except.mapError_eq_ok.mp hbytes
    cases hdec : (Codec.array 32).decode value with
    | none =>
      rw [hdec] at hmatch
      exact nomatch hmatch
    | some found =>
      rw [hdec] at hmatch
      cases hmatch
      simp [entryHolds, decodeMiner, hdec]

theorem shownIn_of_present (h : node.Reports b) {kind : SolverType} {c : Confirmation} {v : Bool}
    (hv : node.confirmationPresent kind hex c = .ok v) :
    c.shownIn kind b.number b.after = some v := by
  cases c with
  | proofWin account =>
    obtain ⟨winner, hwinner, hpure⟩ := Except.bind_eq_ok.mp hv
    obtain ⟨hlt, hholds⟩ := h.entryHolds_of_winner hwinner account
    cases hpure
    rw [Confirmation.shownIn, if_neg (Nat.not_le_of_lt hlt), hholds]
  | solverRegistered account =>
    obtain ⟨stored, hstored, hpure⟩ := Except.bind_eq_ok.mp hv
    cases hpure
    exact h.entryHolds_of_read hstored kind
  | solverDeregistered account =>
    obtain ⟨present, hpresent, hpure⟩ := Except.bind_eq_ok.mp hv
    cases hpure
    rw [h.present hpresent, Confirmation.shownIn, Option.not_isSome]
  | solutionAccepted orderId account =>
    obtain ⟨n, hn, hv⟩ := Except.bind_eq_ok.mp hv
    obtain ⟨stored, hstored, hpure⟩ := Except.bind_eq_ok.mp hv
    cases hpure
    rw [h.number _ _ hn]
    exact h.entryHolds_of_read hstored b.number
  | _ => exact congrArg some (h.present hv).symm

end Node.Reports

namespace ChainBlock
variable {b : ChainBlock} {kind : SolverType} {c : Confirmation}

theorem answering_read {α : Type} [DecidableEq α] {decode : Bytes → Option α} {expected : α}
    {v : Bool} {key : StorageKey} (h : entryHolds decode expected (b.after key) = some v)
    (hex : String) : ∃ found, b.answering.readStorage decode key hex = .ok found ∧
      v = decide (found = some expected) := by
  cases hafter : b.after key with
  | none =>
    rw [hafter] at h
    refine ⟨none, ?_, (Option.some.inj h).symm⟩
    simp only [Node.readStorage, answering, hafter]
    rfl
  | some value =>
    rw [hafter] at h
    obtain ⟨found, hdec, hv⟩ := Option.map_eq_some_iff.mp h
    refine ⟨some found, ?_, by simp [← hv]⟩
    have hmatch : (match decode value with
      | none => Except.error (ChainError.decode "")
      | some value => pure (some value)) = Except.ok (some found) := by
      rw [hdec]
      rfl
    simp only [Node.readStorage, answering, hafter]
    exact hmatch

theorem answering_winner {account : Bytes32} {v : Bool}
    (hlt : b.number < 2 ^ 32)
    (h : entryHolds decodeMiner account (b.after (.qblocks b.number)) = some v) (hex : String) :
    b.answering.proofWinAt hex account = .ok v := by
  have hnot : ¬4294967296 ≤ b.number := by omega
  cases hafter : b.after (.qblocks b.number) with
  | none =>
    rw [hafter] at h
    cases h
    simp [Node.proofWinAt, Node.qblockWinnerAt, answering, hnot, hafter, bind, Except.bind, pure,
      Except.pure]
  | some value =>
    rw [hafter] at h
    obtain ⟨found, hdec, hv⟩ := Option.map_eq_some_iff.mp h
    obtain ⟨⟨miner, rest⟩, hread, hfst⟩ := Option.map_eq_some_iff.mp hdec
    cases hfst
    cases hv
    simp [Node.proofWinAt, Node.qblockWinnerAt, answering, hnot, hafter, hread, bind, Except.bind,
      pure, Except.pure, Except.mapError]

theorem answering_present {v : Bool} (h : c.shownIn kind b.number b.after = some v) (hex : String) :
    b.answering.confirmationPresent kind hex c = .ok v := by
  have hpresent : ∀ key,
      b.answering.storageValuePresent key hex = .ok (b.after key).isSome :=
    fun key => congrArg Except.ok Option.isSome_map
  cases c with
  | proofWin account =>
    rw [Confirmation.shownIn] at h
    split at h
    · exact nomatch h
    · rename_i hlt
      exact answering_winner (Nat.lt_of_not_le hlt) h hex
  | solverRegistered account =>
    obtain ⟨found, hread, hv⟩ := answering_read h hex
    rw [Node.confirmationPresent, hread, hv]
    rfl
  | solverDeregistered account =>
    cases h
    rw [Node.confirmationPresent, hpresent, ← Option.not_isSome]
    rfl
  | solutionAccepted orderId account =>
    obtain ⟨found, hread, hv⟩ := answering_read h hex
    rw [Node.confirmationPresent, hread, hv]
    rfl
  | _ =>
    cases h
    exact hpresent _

end ChainBlock

/-! ## The verdict -/

def SignedCallOutcome.dispatched : SignedCallOutcome → Option Bool
  | .success _ _ => some true
  | .dispatchFailed _ _ => some false
  | .invalid _ | .dropped _ => none

/-- The result tells the extrinsic's own dispatch: the extrinsic is in the block, and where it is its
dispatch went as told. -/
def ToldOwnDispatch (b : ChainBlock) (ext : Bytes)
    (result : Except ChainError (SignedCallOutcome × Bytes32)) : Prop :=
  ∀ outcome want told, result = .ok (outcome, want) → outcome.dispatched = some told →
    (∃ own ∈ b.extrinsics, own.bytes = ext) ∧ ∀ (i : Nat) (own : Extrinsic),
      b.extrinsics[i]? = some own → own.bytes = ext → (own.dispatch (b.stateAt i)).isSome = told

/-- The entry that the success of a call writes, in the block of the given number. -/
def Confirmation.entry (number : Nat) : Confirmation → StorageKey
  | .proofWin _ => .qblocks number
  | .descriptor account => .nodeDescriptors account
  | .minerRegistered account => .miners account
  | .participation qblockId account => .participantsByQblock qblockId account
  | .defaultTopology => .defaultTopology
  | .difficulty topologyHash => .difficulties topologyHash
  | .solverRegistered account | .solverDeregistered account => .solvers account
  | .solutionAccepted orderId account => .orderSolutions orderId account

/-- Whether a value of that entry is as a success leaves it, none when it cannot be read. -/
def Confirmation.reads (kind : SolverType) (number : Nat) :
    Confirmation → Option Bytes → Option Bool
  | .proofWin account, value =>
    if 2 ^ 32 ≤ number then none else entryHolds decodeMiner account value
  | .descriptor _, value | .minerRegistered _, value | .participation _ _, value
  | .defaultTopology, value | .difficulty _, value => some value.isSome
  | .solverRegistered _, value => entryHolds decodeSolverInfo kind value
  | .solverDeregistered _, value => some value.isNone
  | .solutionAccepted _ _, value => entryHolds decodeSubmittedAt number value

theorem Confirmation.shownIn_eq_reads (kind : SolverType) (number : Nat) (s : ChainStorage)
    (c : Confirmation) : c.shownIn kind number s = c.reads kind number (s (c.entry number)) := by
  cases c <;> rfl

namespace ChainBlock

/-- The extrinsic at place `j` writes `value` into the entry, which held something else. -/
def Overwrites (b : ChainBlock) (key : StorageKey) (j : Nat) (value : Option Bytes) : Prop :=
  ∃ e s', b.extrinsics[j]? = some e ∧ e.dispatch (b.stateAt j) = some s' ∧ s' key = value ∧
    value ≠ b.stateAt j key

def LastOverwrite (b : ChainBlock) (key : StorageKey) (j : Nat) (value : Option Bytes) : Prop :=
  b.Overwrites key j value ∧ ∀ k later, j < k → ¬ b.Overwrites key k later

theorem stateAt_succ {b : ChainBlock} {i : Nat} {own : Extrinsic}
    (h : b.extrinsics[i]? = some own) :
    b.stateAt (i + 1) = (own.dispatch (b.stateAt i)).getD (b.stateAt i) := by
  obtain ⟨hi, rfl⟩ := List.getElem?_eq_some_iff.mp h
  rw [stateAt, List.take_add_one, List.getElem?_eq_getElem hi, runExtrinsics, List.foldl_append]
  rfl

theorem overwrites_iff {b : ChainBlock} {key : StorageKey} {j : Nat} {value : Option Bytes} :
    b.Overwrites key j value ↔
      j < b.extrinsics.length ∧ b.stateAt (j + 1) key = value ∧ value ≠ b.stateAt j key := by
  constructor
  · rintro ⟨e, s', he, hd, hvalue, hne⟩
    refine ⟨(List.getElem?_eq_some_iff.mp he).1, ?_, hne⟩
    rw [stateAt_succ he, hd]
    exact hvalue
  · rintro ⟨hj, hvalue, hne⟩
    have he : b.extrinsics[j]? = some b.extrinsics[j] := List.getElem?_eq_getElem hj
    rw [stateAt_succ he] at hvalue
    cases hd : b.extrinsics[j].dispatch (b.stateAt j) with
    | none =>
      rw [hd] at hvalue
      exact absurd hvalue.symm hne
    | some s' =>
      rw [hd] at hvalue
      exact ⟨_, s', he, hd, hvalue, hne⟩

theorem after_of_not_overwrites {b : ChainBlock} {key : StorageKey} {m : Nat}
    (hm : m ≤ b.extrinsics.length) (h : ∀ k value, m ≤ k → ¬ b.Overwrites key k value) :
    b.after key = b.stateAt m key := by
  induction hm using Nat.decreasingInduction with
  | self => rw [stateAt, List.take_length, after]
  | of_succ m hlt ih =>
    have hsame : b.stateAt (m + 1) key = b.stateAt m key := by
      by_contra hne
      exact h m _ le_rfl (overwrites_iff.mpr ⟨hlt, rfl, hne⟩)
    rw [ih fun k value hk => h k value (Nat.le_of_succ_le hk), hsame]

theorem LastOverwrite.after {b : ChainBlock} {key : StorageKey} {j : Nat} {value : Option Bytes}
    (h : b.LastOverwrite key j value) : b.after key = value := by
  obtain ⟨hj, hvalue, -⟩ := overwrites_iff.mp h.1
  rw [after_of_not_overwrites hj fun k later hk => h.2 k later hk]
  exact hvalue

theorem exists_lastOverwrite (b : ChainBlock) (key : StorageKey) {m : Nat}
    (hm : m ≤ b.extrinsics.length) :
    (∀ k value, m ≤ k → ¬ b.Overwrites key k value) ∨
      ∃ j value, m ≤ j ∧ b.LastOverwrite key j value := by
  induction hm using Nat.decreasingInduction with
  | self =>
    exact Or.inl fun k value hk hw => absurd (overwrites_iff.mp hw).1 (Nat.not_lt_of_le hk)
  | of_succ m hlt ih =>
    rcases ih with hnone | ⟨j, value, hj, hlast⟩
    · by_cases hw : ∃ value, b.Overwrites key m value
      · obtain ⟨value, hw⟩ := hw
        exact Or.inr ⟨m, value, le_rfl, hw, fun k later hk => hnone k later hk⟩
      · left
        intro k value hk
        rcases Nat.eq_or_lt_of_le hk with rfl | hk
        · exact fun h => hw ⟨value, h⟩
        · exact hnone k value hk
    · exact Or.inr ⟨j, value, Nat.le_of_succ_le hj, hlast⟩

end ChainBlock

/-- A dispatch that succeeds writes the entry of its call. -/
def Extrinsic.Writes (own : Extrinsic) (kind : SolverType) (number : Nat) (c : Confirmation) :
    Prop :=
  ∀ s s', own.dispatch s = some s' → c.reads kind number (s' (c.entry number)) ≠ some false

/-- Where no extrinsic after the call writes its entry, the entry was not there as a success leaves
it when the call failed. Where some do, the last one writes what the call's own dispatch would
have. -/
structure Undisturbed (kind : SolverType) (b : ChainBlock) (c : Confirmation) (i : Nat)
    (own : Extrinsic) : Prop where
  fresh : (∀ j value, i < j → ¬ b.Overwrites (c.entry b.number) j value) →
    own.dispatch (b.stateAt i) = none →
      c.reads kind b.number (b.stateAt i (c.entry b.number)) ≠ some true
  restored : ∀ j value, i < j → b.LastOverwrite (c.entry b.number) j value →
    own.dispatch (b.stateAt i) = none → c.reads kind b.number value ≠ some true
  remains : ∀ j value, i < j → b.LastOverwrite (c.entry b.number) j value →
    (own.dispatch (b.stateAt i)).isSome = true → c.reads kind b.number value ≠ some false

/-- The entry shows how the own dispatch went, where it can be read, exactly when nothing disturbs
it. -/
theorem undisturbed_iff {kind : SolverType} {b : ChainBlock} {c : Confirmation} {i : Nat}
    {own : Extrinsic} (hi : b.extrinsics[i]? = some own) (hwrites : own.Writes kind b.number c) :
    Undisturbed kind b c i own ↔ ∀ v, c.shownIn kind b.number b.after = some v →
      (own.dispatch (b.stateAt i)).isSome = v := by
  obtain ⟨hlt, -⟩ := List.getElem?_eq_some_iff.mp hi
  have hkept : (∀ j value, i < j → ¬ b.Overwrites (c.entry b.number) j value) →
      b.after (c.entry b.number) = b.stateAt (i + 1) (c.entry b.number) :=
    fun h => ChainBlock.after_of_not_overwrites hlt h
  rw [Confirmation.shownIn_eq_reads]
  constructor
  · intro h v hv
    rcases b.exists_lastOverwrite (c.entry b.number) hlt with hnone | ⟨j, value, hj, hlast⟩
    · rw [hkept hnone, ChainBlock.stateAt_succ hi] at hv
      cases hd : own.dispatch (b.stateAt i) with
      | none =>
        rw [hd] at hv
        cases v with
        | true => exact absurd hv (h.fresh hnone hd)
        | false => rfl
      | some s' =>
        rw [hd] at hv
        cases v with
        | true => rfl
        | false => exact absurd hv (hwrites _ s' hd)
    · rw [hlast.after] at hv
      cases hd : own.dispatch (b.stateAt i) with
      | none =>
        cases v with
        | true => exact absurd hv (h.restored j value hj hlast hd)
        | false => rfl
      | some s' =>
        cases v with
        | true => rfl
        | false => exact absurd hv (h.remains j value hj hlast (by rw [hd]; rfl))
  · intro h
    refine ⟨?_, ?_, ?_⟩
    · intro hnone hd hv
      have hafter := hkept hnone
      rw [ChainBlock.stateAt_succ hi, hd, Option.getD_none] at hafter
      have hsome := h true (hafter ▸ hv)
      rw [hd] at hsome
      cases hsome
    · intro j value _ hlast hd hv
      have hsome := h true (hlast.after.symm ▸ hv)
      rw [hd] at hsome
      cases hsome
    · intro j value _ hlast hd hv
      have hsome := h false (hlast.after.symm ▸ hv)
      rw [hd] at hsome
      cases hsome

section
variable [Crates]

theorem containsHash_map {want : Bytes32} {extrinsics : List Extrinsic} :
    containsHash want (extrinsics.map fun e => .ok e.bytes) =
      .ok (extrinsics.any fun e => extrinsicHash e.bytes = want) := by
  induction extrinsics with
  | nil => rfl
  | cons e extrinsics ih =>
    rw [List.map_cons, containsHash, List.any_cons]
    split <;> rename_i heq
    · simp [heq]
    · simp [heq, ih]

theorem Node.watchStatus_dispatched {node : Node} {kind : SolverType} {want : Bytes32}
    {c : Confirmation} {stream : List (Except ChainError TxStatus)} {outcome : SignedCallOutcome}
    {told : Bool} (h : node.watchStatus kind want c stream = .ok outcome)
    (htold : outcome.dispatched = some told) :
    ∃ hex, node.confirmInBlock kind hex want c = .ok outcome := by
  induction stream with
  | nil => exact nomatch h
  | cons status stream ih =>
    match status with
    | .error e => exact nomatch h
    | .ok (.inBlock hex) | .ok (.finalized hex) => exact ⟨hex, h⟩
    | .ok (.invalid message) | .ok (.dropped message) =>
      cases h
      exact nomatch htold
    | .ok (.other _) | .ok .ready | .ok .broadcast | .ok .future => exact ih h

theorem Node.Reports.confirmInBlock_dispatched {node : Node} {b : ChainBlock} (hnode : node.Reports b)
    {kind : SolverType} {hex : String} {want : Bytes32} {c : Confirmation}
    {outcome : SignedCallOutcome} {told : Bool}
    (h : node.confirmInBlock kind hex want c = .ok outcome)
    (htold : outcome.dispatched = some told) :
    (∃ e ∈ b.extrinsics, extrinsicHash e.bytes = want) ∧
      c.shownIn kind b.number b.after = some told := by
  obtain ⟨included, hincluded, h⟩ := Except.bind_eq_ok.mp h
  obtain ⟨confirmed, hconfirmed, h⟩ := Except.bind_eq_ok.mp h
  obtain ⟨body, hbody, hcontains⟩ := Except.bind_eq_ok.mp hincluded
  rw [hnode.body _ _ hbody] at hcontains
  have hany := Except.ok.inj (containsHash_map.symm.trans hcontains)
  have hshown := hnode.shownIn_of_present hconfirmed
  cases included with
  | false =>
    cases h
    exact nomatch htold
  | true =>
    obtain ⟨e, he, heq⟩ := List.any_eq_true.mp hany
    refine ⟨⟨e, he, of_decide_eq_true heq⟩, ?_⟩
    cases confirmed with
    | true =>
      obtain ⟨n, _, h⟩ := Except.bind_eq_ok.mp h
      cases h
      cases htold
      exact hshown
    | false =>
      cases h
      cases htold
      exact hshown

theorem ChainBlock.answering_confirmInBlock {b : ChainBlock} {kind : SolverType} {want : Bytes32}
    {c : Confirmation} {v : Bool} (hshown : c.shownIn kind b.number b.after = some v)
    {e : Extrinsic} (he : e ∈ b.extrinsics) (hwant : extrinsicHash e.bytes = want) (hex : String) :
    ∃ outcome, b.answering.confirmInBlock kind hex want c = .ok outcome ∧
      outcome.dispatched = some v := by
  have hany : (b.extrinsics.any fun e => extrinsicHash e.bytes = want) = true :=
    List.any_eq_true.mpr ⟨e, he, decide_eq_true hwant⟩
  have hincluded : b.answering.blockContains hex want = .ok true :=
    containsHash_map.trans (congrArg _ hany)
  rw [Node.confirmInBlock, hincluded, answering_present hshown]
  cases v with
  | true => exact ⟨_, rfl, rfl⟩
  | false => exact ⟨_, rfl, rfl⟩

theorem Node.Reports.submitExtrinsic_dispatched {node : Node} {b : ChainBlock}
    (hnode : node.Reports b) {kind : SolverType} {ext : Bytes} {c : Confirmation}
    {outcome : SignedCallOutcome} {want : Bytes32} {told : Bool}
    (h : node.submitExtrinsic kind ext c = .ok (outcome, want))
    (htold : outcome.dispatched = some told) :
    (∃ e ∈ b.extrinsics, extrinsicHash e.bytes = extrinsicHash ext) ∧
      c.shownIn kind b.number b.after = some told := by
  obtain ⟨url, _, h⟩ := Except.bind_eq_ok.mp h
  split at h
  · cases h
    exact nomatch htold
  · exact nomatch h
  · obtain ⟨outcome', hwatch, hpure⟩ := Except.bind_eq_ok.mp h
    cases hpure
    obtain ⟨hex, hconfirm⟩ := Node.watchStatus_dispatched hwatch htold
    exact hnode.confirmInBlock_dispatched hconfirm htold

theorem ChainBlock.answering_submitExtrinsic {b : ChainBlock} {kind : SolverType} {c : Confirmation}
    {v : Bool} (hshown : c.shownIn kind b.number b.after = some v) {e : Extrinsic}
    (he : e ∈ b.extrinsics) :
    ∃ outcome, b.answering.submitExtrinsic kind e.bytes c = .ok (outcome, extrinsicHash e.bytes) ∧
      outcome.dispatched = some v := by
  obtain ⟨outcome, hconfirm, hv⟩ := answering_confirmInBlock hshown he rfl "0x"
  refine ⟨outcome, ?_, hv⟩
  have hwatch : b.answering.watchStatus kind (extrinsicHash e.bytes) c [.ok (.inBlock "0x")] =
      .ok outcome := hconfirm
  exact congrArg (fun r : Except ChainError SignedCallOutcome => do
    let outcome ← r
    pure (outcome, extrinsicHash e.bytes)) hwatch

variable [HybridCrypto]

theorem Node.submitSignedCall_ok (node : Node) (kind : SolverType) (pair : Pair)
    (ctx : SignedExtensionContext) (call : Bytes) (c : Confirmation) :
    node.submitSignedCall kind (.ok pair) (.ok ctx) call c =
      node.submitExtrinsic kind (buildHybridSignedExtrinsic pair call ctx) c :=
  rfl

/-- Every node that answers truly makes the verdict tell the extrinsic's own dispatch, exactly when
the entry that the call names is undisturbed around it. -/
theorem confirmation_tells_own_dispatch (kind : SolverType) (b : ChainBlock) (pair : Pair)
    (ctx : SignedExtensionContext) (call : Bytes) (c : Confirmation)
    (hhash : ∀ e ∈ b.extrinsics,
      extrinsicHash e.bytes = extrinsicHash (buildHybridSignedExtrinsic pair call ctx) →
        e.bytes = buildHybridSignedExtrinsic pair call ctx)
    (hwrites : ∀ own ∈ b.extrinsics, own.bytes = buildHybridSignedExtrinsic pair call ctx →
      own.Writes kind b.number c) :
    (∀ node : Node, node.Reports b →
      ToldOwnDispatch b (buildHybridSignedExtrinsic pair call ctx)
        (node.submitSignedCall kind (.ok pair) (.ok ctx) call c)) ↔
      ∀ (i : Nat) (own : Extrinsic), b.extrinsics[i]? = some own →
        own.bytes = buildHybridSignedExtrinsic pair call ctx → Undisturbed kind b c i own := by
  constructor
  · intro htold i own hi hbytes
    have hmem : own ∈ b.extrinsics := List.mem_of_getElem? hi
    refine (undisturbed_iff hi (hwrites own hmem hbytes)).mpr ?_
    intro v hshown
    obtain ⟨outcome, hsubmit, hv⟩ := ChainBlock.answering_submitExtrinsic hshown hmem
    rw [hbytes] at hsubmit
    exact (htold b.answering b.answering_reports outcome _ v hsubmit hv).2 i own hi hbytes
  · intro hundisturbed node hnode outcome want told hsubmit htold
    obtain ⟨⟨e, he, heq⟩, hshown⟩ := hnode.submitExtrinsic_dispatched hsubmit htold
    refine ⟨⟨e, he, hhash e he heq⟩, fun i own hi hbytes => ?_⟩
    have hwritten := hwrites own (List.mem_of_getElem? hi) hbytes
    exact (undisturbed_iff hi hwritten).mp (hundisturbed i own hi hbytes) told hshown

end

def encodeRegisterMinerCall : Bytes := [10, 0]

namespace Sample

def registerMiner (account : Bytes32) (bytes : Bytes) : Extrinsic where
  bytes := bytes
  dispatch s :=
    if (s (.miners account)).isSome then none
    else some fun key => if key = .miners account then some [1] else s key

theorem registerMiner_writes {account : Bytes32} {bytes : Bytes} {s s' : ChainStorage}
    (h : (registerMiner account bytes).dispatch s = some s') (kind : SolverType) (number : Nat) :
    (Confirmation.minerRegistered account).shownIn kind number s' = some true := by
  simp only [registerMiner, Option.ite_none_left_eq_some] at h
  cases h.2
  simp [Confirmation.shownIn]

def registration (before : ChainStorage) : ChainBlock where
  number := 9
  before := before
  extrinsics := [registerMiner alice (buildHybridSignedExtrinsic alice encodeRegisterMinerCall signing)]

end Sample

open Sample in
theorem confirmation_tells_own_dispatch_registration :
    let ext := buildHybridSignedExtrinsic alice encodeRegisterMinerCall signing
    Undisturbed .cpu (registration fun _ => none) (.minerRegistered alice) 0
        (registerMiner alice ext) ∧
      ∀ node : Node, node.Reports (registration fun _ => none) →
        ToldOwnDispatch (registration fun _ => none) ext
          (node.submitSignedCall .cpu (.ok alice) (.ok signing) encodeRegisterMinerCall
            (.minerRegistered alice)) := by
  intro ext
  have hundisturbed : Undisturbed .cpu (registration fun _ => none) (.minerRegistered alice) 0
      (registerMiner alice ext) := by
    -- the extrinsic is the last of its block
    have hlate : ∀ j value, 0 < j →
        ¬ (registration fun _ => none).LastOverwrite (.miners alice) j value :=
      fun j value hj hlast =>
        absurd (ChainBlock.overwrites_iff.mp hlast.1).1 (Nat.not_lt_of_le hj)
    refine ⟨?_, fun j value hj hlast => absurd hlast (hlate j value hj),
      fun j value hj hlast => absurd hlast (hlate j value hj)⟩
    intro _ hnone
    cases hnone
  refine ⟨hundisturbed, ?_⟩
  refine (confirmation_tells_own_dispatch .cpu _ alice signing encodeRegisterMinerCall _ ?_
    ?_).mpr ?_
  · intro e he _
    rw [List.mem_singleton.mp he]
    rfl
  · intro own hown _ s s' hsome
    rw [List.mem_singleton.mp hown] at hsome
    rw [← Confirmation.shownIn_eq_reads, registerMiner_writes hsome]
    exact fun h => Bool.noConfusion (Option.some.inj h)
  · intro i own hi _
    obtain ⟨hlt, hown⟩ := List.getElem?_eq_some_iff.mp hi
    obtain rfl : i = 0 := Nat.lt_one_iff.mp hlt
    cases hown
    exact hundisturbed

open Sample in
/-- The account is registered already, its registration fails, and success is reported. -/
theorem failed_registration_reported_as_success :
    let b := registration fun key => if key = .miners alice then some [1] else none
    let ext := buildHybridSignedExtrinsic alice encodeRegisterMinerCall signing
    let own := registerMiner alice ext
    b.extrinsics = [own] ∧
      (∀ s s', own.dispatch s = some s' →
        (Confirmation.minerRegistered alice).shownIn .cpu b.number s' = some true) ∧
      own.dispatch b.before = none ∧ b.answering.Reports b ∧
      ∃ hex number, b.answering.submitSignedCall .cpu (.ok alice) (.ok signing)
        encodeRegisterMinerCall (.minerRegistered alice) =
          .ok (.success hex number, extrinsicHash ext) := by
  intro b ext own
  have hshown : (Confirmation.minerRegistered alice).shownIn .cpu b.number b.after = some true := by
    decide +kernel
  obtain ⟨outcome, hsubmit, hv⟩ :=
    ChainBlock.answering_submitExtrinsic hshown (List.mem_singleton_self own)
  refine ⟨rfl, fun s s' h => registerMiner_writes h .cpu b.number, by decide +kernel,
    b.answering_reports, ?_⟩
  cases outcome with
  | success hex number =>
    refine ⟨hex, number, ?_⟩
    rw [Node.submitSignedCall_ok]
    exact hsubmit
  | _ => exact nomatch hv

end QuipCoordinator
