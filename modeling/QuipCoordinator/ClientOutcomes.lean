import QuipCoordinator.ChainCalls
import QuipCoordinator.Participation
import QuipCoordinator.ProofEncoding
import QuipCoordinator.StorageKeys

/-!
# What the client makes of a signed call

The client turns the outcome of a signed call into a receipt or into a pallet outcome.
An error name in the pool's message decides some of them. A call that was included and
failed has no pallet error: its text is the client's own, so it never passes for a
pallet outcome, and a proof that failed is never sent again unless the text of a failed
read says so. A receipt that tells a win carries the block in which the chain records it.
-/

namespace QuipCoordinator
open Descriptor

inductive DescriptorOutcome
  | filed
  | rejected
deriving DecidableEq

inductive RegistrationOutcome
  | registered
  | alreadyRegistered
deriving DecidableEq

structure SubmitReceipt where
  action : SubmitAction
  extrinsicHash : Option Bytes32
  blockHash : Option Bytes32
  blockNumber : Option Nat
deriving DecidableEq

-- `str::contains`
def containsText (text needle : String) : Bool := decide (needle.toList <:+: text.toList)

def namesAny (names : List String) (text : String) : Bool := names.any (containsText text)

def descriptorReject : List String :=
  ["EmptyNodeId", "EmptyNodeName", "EmptyPublicHost", "EmptyRpcEndpoint", "EmptyMinerLabel",
    "EmptyMinerBackend", "EmptyMinerDeviceId", "EmptyOsSystem", "EmptyCpuBrand", "EmptyCpuArch",
    "EmptyGpuVendor", "EmptyGpuName", "InvalidGpuUtilization", "EmptyPythonVersion",
    "EmptyQuipVersion", "EmptyDockerImage", "NoMiners", "InvalidPort", "InsufficientBalance",
    "LiquidityRestrictions"]

def classifyDescriptor : Option String → Option DescriptorOutcome
  | none => some .filed
  | some e => if namesAny descriptorReject e then some .rejected else none

def classifyParticipation : Option String → Option ParticipationOutcome
  | none => some .declared
  | some e =>
    if containsText e "DuplicateParticipation" then some .alreadyDeclared
    else if containsText e "InvalidQBlockId" then some .staleQBlock
    else if containsText e "DescriptorRequired" then some .descriptorMissing
    else none

def classifyRegistration : Option String → Option RegistrationOutcome
  | none => some .registered
  | some e =>
    if namesAny ["MinerAlreadyRegistered", "SolverAlreadyRegistered"] e then
      some .alreadyRegistered
    else none

def classifyReceipt : Option String → SubmitAction
  | none => .success
  | some e =>
    if namesAny ["InsufficientEnergy", "ProofLimitReached"] e then .retry
    else if namesAny ["InvalidNonce", "TopologyNotRegistered", "InvalidTopology"] e then
      .stopRoundStale
    else if namesAny ["InsufficientSolutions", "InsufficientDiversity", "MinerNotRegistered"] e then
      .stopFatal
    else .stopFatal

def blockHash? (block : String) : Option Bytes32 :=
  match hexDecode block with
  | .ok bytes =>
    if h : bytes.length = 32 then some ⟨bytes.toArray, size_toArray_of_length h⟩ else none
  | .error _ => none

def lostReceipt (hash : Bytes32) (action : SubmitAction) : SubmitReceipt :=
  ⟨action, some hash, none, none⟩

def wonReceipt (hash : Bytes32) (block : String) (number : Nat) : SubmitReceipt :=
  ⟨.success, some hash, blockHash? block, some number⟩

def proofReceipt (hash : Bytes32) : SignedCallOutcome → SubmitReceipt
  | .success block number => wonReceipt hash block number
  | .dispatchFailed _ true => lostReceipt hash .stopRoundStale
  | .dispatchFailed error false => lostReceipt hash (classifyReceipt (some error))
  | .invalid message => lostReceipt hash (classifyReceipt (some message))
  | .dropped _ => lostReceipt hash .retry

def solutionReceipt (hash : Bytes32) : SignedCallOutcome → SubmitReceipt
  | .success block number => wonReceipt hash block number
  | .dispatchFailed _ _ | .invalid _ => lostReceipt hash .stopFatal
  | .dropped _ => lostReceipt hash .retry

/-- The outcome of a call that is no submission: done, or what the pallet's error says of it. -/
def settleCall {α : Type} (done : α) (classify : Option String → Option α) :
    SignedCallOutcome → Except ChainError α
  | .success _ _ => .ok done
  | .dispatchFailed error _ | .invalid error =>
    (classify (some error)).elim (.error (.submit error)) .ok
  | .dropped message => .error (.submit message)

-- `u64::from_le_bytes` of the order id
def orderIdOfBytes (orderId : Bytes) : Except ChainError Nat :=
  if orderId.length = 8 then .ok (((Codec.littleEndian 8).decode orderId).elim 0 Prod.fst)
  else .error (.submit ("mempool order id is " ++ toString orderId.length ++ " bytes, expected 8"))

section
variable [Crates] [HybridCrypto] [SpinPacking]
open HybridCrypto

structure CallSigner where
  pair : Except ChainError Pair
  minerIdentity : Pair → Bytes32
  context : Bytes → Except ChainError SignedExtensionContext

namespace Node
variable (node : Node) (kind : SolverType) (signer : CallSigner)

def submit (call : Bytes) (confirmation : Confirmation) :
    Except ChainError (SignedCallOutcome × Bytes32) :=
  node.submitSignedCall kind signer.pair (signer.context call) call confirmation

def submitProof (lastSnapshot : Option MiningSnapshot) (lastSpinSpec : Option AllowedValueSpec)
    (proof : Proof) : Except ChainError SubmitReceipt := do
  let pair ← signer.pair
  let quantum ← encodeSubmission (signer.minerIdentity pair) lastSnapshot lastSpinSpec proof
  let (outcome, hash) ← node.submit kind signer (encodeSubmitProofCall quantum)
    (.proofWin (signerAccountBytes pair))
  pure (proofReceipt hash outcome)

def submitSolution (proof : Proof) : Except ChainError SubmitReceipt := do
  let orderId ← orderIdOfBytes proof.orderId
  let pair ← signer.pair
  let (outcome, hash) ← node.submit kind signer
    (encodeSubmitSolutionCall orderId (proof.solutions.map (·.spins)))
    (.solutionAccepted orderId (signerAccountBytes pair))
  pure (solutionReceipt hash outcome)

def callPallet {α : Type} (call : Bytes) (confirmation : Bytes32 → Confirmation) (done : α)
    (classify : Option String → Option α) : Except ChainError α := do
  let pair ← signer.pair
  let (outcome, _) ← node.submit kind signer call (confirmation (signerAccountBytes pair))
  settleCall done classify outcome

def fileDescriptor (descriptor : NodeDescriptorV2Input) : Except ChainError DescriptorOutcome :=
  node.callPallet kind signer (encodeSetDescriptorCall descriptor) .descriptor .filed
    classifyDescriptor

def declareParticipation (participateKind : MinerKind) (qblockId : Nat) :
    Except ChainError ParticipationOutcome :=
  node.callPallet kind signer (encodeParticipateCall qblockId participateKind none)
    (.participation qblockId) .declared classifyParticipation

/-- `head` is the answer of `chain_getBlockHash`. -/
def ensureMinerRegistered (head : Except ChainError String) :
    Except ChainError RegistrationOutcome := do
  let pair ← signer.pair
  let block ← head
  if ← node.storageValuePresent (.miners (signerAccountBytes pair)) block then
    pure .alreadyRegistered
  else
    node.callPallet kind signer encodeRegisterMinerCall .minerRegistered .registered
      classifyRegistration

def registerSolver : Except ChainError RegistrationOutcome :=
  node.callPallet kind signer (encodeRegisterSolverCall kind) .solverRegistered .registered
    classifyRegistration

/-- A solver of another type is taken off before the configured type is registered. -/
def replaceSolver (account : Bytes32) : Except ChainError RegistrationOutcome := do
  let (outcome, _) ← node.submit kind signer encodeDeregisterSolverCall
    (.solverDeregistered account)
  match outcome with
  | .success _ _ => node.registerSolver kind signer
  | .dispatchFailed error _ | .invalid error | .dropped error =>
    throw (.submit ("deregister_solver: " ++ error))

def ensureSolverRegistered (head : Except ChainError String) :
    Except ChainError RegistrationOutcome := do
  let pair ← signer.pair
  let block ← head
  match ← node.readStorage decodeSolverInfo (.solvers (signerAccountBytes pair)) block with
  | some registered =>
    if registered = kind then pure .alreadyRegistered
    else node.replaceSolver kind signer (signerAccountBytes pair)
  | none => node.registerSolver kind signer

end Node
end

/-! ## The texts of a failed dispatch -/

theorem not_containsText {text needle : String} {c : Char} (hneedle : c ∈ needle.toList)
    (htext : c ∉ text.toList) : containsText text needle = false := by
  apply decide_eq_false
  intro h
  exact htext (h.subset hneedle)

theorem mem_ofList {c : Char} {l : List Char} (h : l.contains c = true) :
    c ∈ (String.ofList l).toList := by
  rw [String.toList_ofList]
  exact List.contains_iff_mem.mp h

theorem notMem_ofList {c : Char} {l : List Char} (h : l.contains c = false) :
    c ∉ (String.ofList l).toList := by
  rw [String.toList_ofList]
  intro hmem
  rw [List.contains_iff_mem.mpr hmem] at h
  cases h

theorem notMem_append {c : Char} {s t : String} (hs : c ∉ s.toList) (ht : c ∉ t.toList) :
    c ∉ (s ++ t).toList := by
  rw [String.toList_append, List.mem_append, not_or]
  exact ⟨hs, ht⟩

theorem notMem_toString {c : Char} (hc : c.isDigit = false) (n : Nat) :
    c ∉ (toString n).toList := by
  intro h
  rw [Nat.toString_eq_repr, Nat.toList_repr] at h
  rw [Nat.isDigit_of_mem_toDigits (by omega) (by omega) h] at hc
  cases hc

theorem namesAny_eq_false {names : List String} {text : String}
    (h : ∀ name ∈ names, containsText text name = false) : namesAny names text = false := by
  rw [namesAny, List.any_eq_false]
  intro name hname
  rw [h name hname]
  exact Bool.false_ne_true

theorem classifyRegistration_of_notMem {text : String} (h : 'A' ∉ text.toList) :
    classifyRegistration (some text) = none := by
  have hminer : containsText text "MinerAlreadyRegistered" = false :=
    not_containsText (mem_ofList rfl) h
  have hsolver : containsText text "SolverAlreadyRegistered" = false :=
    not_containsText (mem_ofList rfl) h
  simp [classifyRegistration, namesAny, hminer, hsolver]

theorem classifyParticipation_of_notMem {text : String} (hD : 'D' ∉ text.toList)
    (hI : 'I' ∉ text.toList) : classifyParticipation (some text) = none := by
  have hduplicate : containsText text "DuplicateParticipation" = false :=
    not_containsText (mem_ofList rfl) hD
  have hinvalid : containsText text "InvalidQBlockId" = false :=
    not_containsText (mem_ofList rfl) hI
  have hrequired : containsText text "DescriptorRequired" = false :=
    not_containsText (mem_ofList rfl) hD
  simp [classifyParticipation, hduplicate, hinvalid, hrequired]

theorem classifyReceipt_of_notMem {text : String} (hI : 'I' ∉ text.toList)
    (hP : 'P' ∉ text.toList) (hT : 'T' ∉ text.toList) :
    classifyReceipt (some text) = .stopFatal := by
  have henergy : containsText text "InsufficientEnergy" = false :=
    not_containsText (mem_ofList rfl) hI
  have hlimit : containsText text "ProofLimitReached" = false :=
    not_containsText (mem_ofList rfl) hP
  have hnonce : containsText text "InvalidNonce" = false :=
    not_containsText (mem_ofList rfl) hI
  have htopology : containsText text "TopologyNotRegistered" = false :=
    not_containsText (mem_ofList rfl) hT
  have hinvalid : containsText text "InvalidTopology" = false :=
    not_containsText (mem_ofList rfl) hI
  simp [classifyReceipt, namesAny, henergy, hlimit, hnonce, htopology, hinvalid]

/-- Each name but one holds a capital that the text has not. -/
theorem classifyDescriptor_of_notMem {text : String} (hE : 'E' ∉ text.toList)
    (hI : 'I' ∉ text.toList) (hL : 'L' ∉ text.toList)
    (hminers : containsText text "NoMiners" = false) :
    classifyDescriptor (some text) = none := by
  have hnames : namesAny descriptorReject text = false := by
    apply namesAny_eq_false
    intro name hname
    have hsplit : ∀ needle ∈ descriptorReject, needle = "NoMiners" ∨
        'E' ∈ needle.toList ∨ 'I' ∈ needle.toList ∨ 'L' ∈ needle.toList := by
      decide +kernel
    rcases hsplit name hname with rfl | h | h | h
    · exact hminers
    · exact not_containsText h hE
    · exact not_containsText h hI
    · exact not_containsText h hL
  simp [classifyDescriptor, hnames]

namespace Node
variable (node : Node) (block : String) (account : Bytes32)

theorem classifyDescriptor_explained :
    classifyDescriptor (some (node.explainFailure block (.descriptor account)).1) = none := by
  unfold explainFailure
  dsimp only
  apply classifyDescriptor_of_notMem
  · apply notMem_append <;> exact notMem_ofList rfl
  · apply notMem_append <;> exact notMem_ofList rfl
  · apply notMem_append <;> exact notMem_ofList rfl
  · decide +kernel

theorem classifyRegistration_miner :
    classifyRegistration (some (node.explainFailure block (.minerRegistered account)).1) =
      none := by
  unfold explainFailure
  dsimp only
  apply classifyRegistration_of_notMem
  apply notMem_append <;> exact notMem_ofList rfl

theorem classifyRegistration_solver :
    classifyRegistration (some (node.explainFailure block (.solverRegistered account)).1) =
      none := by
  unfold explainFailure
  dsimp only
  apply classifyRegistration_of_notMem
  apply notMem_append <;> exact notMem_ofList rfl

theorem classifyParticipation_explained (qblockId : Nat) :
    classifyParticipation (some (node.explainFailure block (.participation qblockId account)).1) =
      none := by
  unfold explainFailure
  dsimp only
  apply classifyParticipation_of_notMem
  all_goals
    apply notMem_append
    · exact notMem_ofList rfl
    · exact notMem_toString (by decide) qblockId

end Node

theorem classifyReceipt_explained (account : Bytes32) (winner : Option Bytes32)
    (h : (explainProofFailure account winner).2 = false) :
    classifyReceipt (some (explainProofFailure account winner).1) = .stopFatal := by
  unfold explainProofFailure at h ⊢
  cases winner with
  | none =>
    apply classifyReceipt_of_notMem
    all_goals apply notMem_append <;> exact notMem_ofList rfl
  | some w =>
    dsimp only at h ⊢
    split_ifs at h ⊢
    apply classifyReceipt_of_notMem
    all_goals apply notMem_append <;> exact notMem_ofList rfl

/-! ## What the status stream settles -/

def TxStatus.idle : TxStatus → Bool
  | .ready | .broadcast | .future | .other _ => true
  | .inBlock _ | .finalized _ | .dropped _ | .invalid _ => false

namespace Node
variable (node : Node)

/-- The pool takes the extrinsic, and `status` is the first status that decides. -/
def Settles (ext : Bytes) (status : TxStatus) : Prop :=
  ∃ waiting later, node.submitAndWatch ext = .ok (List.map .ok waiting ++ .ok status :: later) ∧
    (∀ s ∈ waiting, s.idle = true) ∧ status.idle = false

def Refuses (ext : Bytes) (message : String) : Prop :=
  node.submitAndWatch ext = .error (.submit message) ∨ node.Settles ext (.invalid message)

def Places (ext : Bytes) (block : String) : Prop :=
  node.Settles ext (.inBlock block) ∨ node.Settles ext (.finalized block)

section
variable [Crates]

def Tells (kind : SolverType) (ext : Bytes) (c : Confirmation) : SignedCallOutcome → Prop
  | .success block number => node.Places ext block ∧
      node.blockContains block (extrinsicHash ext) = .ok true ∧
      node.confirmationPresent kind block c = .ok true ∧ node.getHeaderNumber block = .ok number
  | .dispatchFailed error lostRace => ∃ block, node.Places ext block ∧
      node.blockContains block (extrinsicHash ext) = .ok true ∧
      node.confirmationPresent kind block c = .ok false ∧
      node.explainFailure block c = (error, lostRace)
  | .invalid message => node.Refuses ext message
  | .dropped message => node.Settles ext (.dropped message) ∨ ∃ block present,
      node.Places ext block ∧ node.blockContains block (extrinsicHash ext) = .ok false ∧
      node.confirmationPresent kind block c = .ok present ∧
      message = "extrinsic absent from block " ++ block

def settleStatus (kind : SolverType) (want : Bytes32) (c : Confirmation) :
    TxStatus → Except ChainError SignedCallOutcome
  | .inBlock block | .finalized block => node.confirmInBlock kind block want c
  | .invalid message => .ok (.invalid message)
  | .dropped message => .ok (.dropped message)
  | .ready | .broadcast | .future | .other _ => .error (.unavailable "")

variable {node} {kind : SolverType} {want : Bytes32} {c : Confirmation} {status : TxStatus}
  {later : List (Except ChainError TxStatus)} {outcome : SignedCallOutcome} {ext : Bytes}

theorem watchStatus_idle (h : status.idle = true) :
    node.watchStatus kind want c (.ok status :: later) = node.watchStatus kind want c later := by
  cases status <;> first | rfl | cases h

theorem watchStatus_decided (h : status.idle = false) :
    node.watchStatus kind want c (.ok status :: later) = node.settleStatus kind want c status := by
  cases status <;> first | rfl | cases h

theorem watchStatus_waiting {waiting : List TxStatus} (h : ∀ s ∈ waiting, s.idle = true) :
    node.watchStatus kind want c (List.map .ok waiting ++ later) =
      node.watchStatus kind want c later := by
  induction waiting with
  | nil => rfl
  | cons s waiting ih =>
    rw [List.map_cons, List.cons_append, watchStatus_idle (h s List.mem_cons_self)]
    exact ih fun t ht => h t (List.mem_cons_of_mem s ht)

theorem watchStatus_eq_ok {stream : List (Except ChainError TxStatus)} :
    node.watchStatus kind want c stream = .ok outcome ↔
      ∃ waiting status later, stream = List.map .ok waiting ++ .ok status :: later ∧
        (∀ s ∈ waiting, s.idle = true) ∧ status.idle = false ∧
        node.settleStatus kind want c status = .ok outcome := by
  constructor
  · intro h
    induction stream with
    | nil => cases h
    | cons answer stream ih =>
      cases answer with
      | error e => cases h
      | ok status =>
        cases hidle : status.idle with
        | false =>
          rw [watchStatus_decided hidle] at h
          exact ⟨[], status, stream, rfl, by simp, hidle, h⟩
        | true =>
          rw [watchStatus_idle hidle] at h
          obtain ⟨waiting, decided, later, hstream, hwaiting, hdecided⟩ := ih h
          refine ⟨status :: waiting, decided, later, by simp [hstream], ?_, hdecided⟩
          intro s hs
          rcases List.mem_cons.mp hs with hs | hs
          · rw [hs, hidle]
          · exact hwaiting s hs
  · rintro ⟨waiting, status, later, hstream, hwaiting, hidle, hsettle⟩
    rw [hstream, watchStatus_waiting hwaiting, watchStatus_decided hidle]
    exact hsettle

theorem confirmInBlock_present {block : String} {present : Bool}
    (hincluded : node.blockContains block want = .ok true)
    (hpresent : node.confirmationPresent kind block c = .ok present) :
    node.confirmInBlock kind block want c =
      if present then (node.getHeaderNumber block).map (.success block ·)
      else .ok (.dispatchFailed (node.explainFailure block c).1
        (node.explainFailure block c).2) := by
  rw [confirmInBlock, hincluded, hpresent]
  cases present with
  | false => rfl
  | true =>
    cases node.getHeaderNumber block <;>
      simp [bind, Except.bind, classifyStateOutcome, pure, Except.pure, Except.map]

theorem confirmInBlock_absent {block : String} {present : Bool}
    (hincluded : node.blockContains block want = .ok false)
    (hpresent : node.confirmationPresent kind block c = .ok present) :
    node.confirmInBlock kind block want c =
      .ok (.dropped ("extrinsic absent from block " ++ block)) := by
  rw [confirmInBlock, hincluded, hpresent]
  rfl

theorem tells_of_confirm {block : String} (hplaces : node.Places ext block)
    (h : node.confirmInBlock kind block (extrinsicHash ext) c = .ok outcome) :
    node.Tells kind ext c outcome := by
  obtain ⟨included, hincluded, hrest⟩ := Except.bind_eq_ok.mp h
  obtain ⟨present, hpresent, -⟩ := Except.bind_eq_ok.mp hrest
  cases included with
  | false =>
    rw [confirmInBlock_absent hincluded hpresent] at h
    cases h
    exact Or.inr ⟨block, present, hplaces, hincluded, hpresent, rfl⟩
  | true =>
    rw [confirmInBlock_present hincluded hpresent] at h
    cases present with
    | false =>
      cases h
      exact ⟨block, hplaces, hincluded, hpresent, rfl⟩
    | true =>
      rw [if_pos rfl] at h
      obtain ⟨number, hnumber, hsuccess⟩ := Except.map_eq_ok.mp h
      cases hsuccess
      exact ⟨hplaces, hincluded, hpresent, hnumber⟩

theorem submitExtrinsic_of_settles (hurl : (node.primaryUrl).isOk = true)
    (h : node.Settles ext status) :
    node.submitExtrinsic kind ext c =
      (node.settleStatus kind (extrinsicHash ext) c status).map (·, extrinsicHash ext) := by
  obtain ⟨waiting, later, hstream, hwaiting, hidle⟩ := h
  obtain ⟨url, hurl⟩ := Except.isOk_iff_exists.mp hurl
  rw [submitExtrinsic, hurl]
  simp only [bind, Except.bind, hstream, watchStatus_waiting hwaiting, watchStatus_decided hidle]
  cases node.settleStatus kind (extrinsicHash ext) c status <;> rfl

/-- The outcome of a submit is the one that the node's answers tell. -/
theorem submitExtrinsic_eq_ok :
    node.submitExtrinsic kind ext c = .ok (outcome, want) ↔
      want = extrinsicHash ext ∧ (node.primaryUrl).isOk = true ∧ node.Tells kind ext c outcome := by
  constructor
  · intro h
    obtain ⟨url, hurl, h⟩ := Except.bind_eq_ok.mp h
    have hok : (node.primaryUrl).isOk = true := by rw [hurl]; rfl
    cases hsubmit : node.submitAndWatch ext with
    | error e =>
      rw [hsubmit] at h
      cases e with
      | submit message =>
        cases h
        exact ⟨rfl, hok, Or.inl hsubmit⟩
      | _ => cases h
    | ok stream =>
      rw [hsubmit] at h
      obtain ⟨told, hwatch, hpure⟩ := Except.bind_eq_ok.mp h
      cases hpure
      refine ⟨rfl, hok, ?_⟩
      rw [watchStatus_eq_ok] at hwatch
      obtain ⟨waiting, status, later, hstream, hwaiting, hidle, hsettle⟩ := hwatch
      have hsettles : node.Settles ext status :=
        ⟨waiting, later, by rw [hsubmit, hstream], hwaiting, hidle⟩
      cases status with
      | inBlock block => exact tells_of_confirm (Or.inl hsettles) hsettle
      | finalized block => exact tells_of_confirm (Or.inr hsettles) hsettle
      | invalid message =>
        cases hsettle
        exact Or.inr hsettles
      | dropped message =>
        cases hsettle
        exact Or.inl hsettles
      | _ => cases hidle
  · rintro ⟨hwant, hurl, htells⟩
    have hplaced : ∀ block, node.Places ext block → node.submitExtrinsic kind ext c =
        (node.confirmInBlock kind block (extrinsicHash ext) c).map (·, extrinsicHash ext) := by
      intro block hplaces
      rcases hplaces with h | h <;> exact submitExtrinsic_of_settles hurl h
    rw [hwant]
    cases outcome with
    | success block number =>
      obtain ⟨hplaces, hincluded, hpresent, hnumber⟩ := htells
      rw [hplaced block hplaces, confirmInBlock_present hincluded hpresent, if_pos rfl, hnumber]
      rfl
    | dispatchFailed error lostRace =>
      obtain ⟨block, hplaces, hincluded, hpresent, hexplain⟩ := htells
      rw [hplaced block hplaces, confirmInBlock_present hincluded hpresent, hexplain]
      rfl
    | invalid message =>
      rcases htells with hrefused | hsettles
      · obtain ⟨url, hurl⟩ := Except.isOk_iff_exists.mp hurl
        rw [submitExtrinsic, hurl]
        simp only [bind, Except.bind, hrefused]
        rfl
      · exact submitExtrinsic_of_settles hurl hsettles
    | dropped message =>
      rcases htells with hsettles | ⟨block, present, hplaces, hincluded, hpresent, hmessage⟩
      · exact submitExtrinsic_of_settles hurl hsettles
      · rw [hplaced block hplaces, confirmInBlock_absent hincluded hpresent, hmessage]
        rfl

end
end Node

/-! ## Pallet outcomes -/

theorem settleCall_eq_ok {α : Type} {done result : α} {classify : Option String → Option α}
    {outcome : SignedCallOutcome} :
    settleCall done classify outcome = .ok result ↔
      (∃ block number, outcome = .success block number ∧ result = done) ∨
      (∃ error lostRace, outcome = .dispatchFailed error lostRace ∧
        classify (some error) = some result) ∨
      ∃ message, outcome = .invalid message ∧ classify (some message) = some result := by
  cases outcome with
  | success block number => simp [settleCall, eq_comm]
  | dispatchFailed error lostRace => cases h : classify (some error) <;> simp [settleCall, h]
  | invalid message => cases h : classify (some message) <;> simp [settleCall, h]
  | dropped message => simp [settleCall]

section
variable [Crates] [HybridCrypto]
open HybridCrypto

def CallSigner.Signs (signer : CallSigner) (call : Bytes) (account : Bytes32) (ext : Bytes) :
    Prop :=
  ∃ pair ctx, signer.pair = .ok pair ∧ signer.context call = .ok ctx ∧
    account = signerAccountBytes pair ∧ ext = buildHybridSignedExtrinsic pair call ctx

namespace Node
variable {node : Node} {kind : SolverType} {signer : CallSigner} {call : Bytes} {α : Type}
  {confirmation : Bytes32 → Confirmation} {done result : α} {classify : Option String → Option α}

/-- The node answers, and the block that takes the extrinsic in shows the entry of the call. -/
def Confirms (node : Node) (kind : SolverType) (ext : Bytes) (c : Confirmation) : Prop :=
  ∃ block number, node.Tells kind ext c (.success block number)

theorem submit_eq_ok {pair : Pair} (hpair : signer.pair = .ok pair) {c : Confirmation}
    {outcome : SignedCallOutcome} {want : Bytes32} :
    node.submit kind signer call c = .ok (outcome, want) ↔
      (node.primaryUrl).isOk = true ∧ ∃ ext, signer.Signs call (signerAccountBytes pair) ext ∧
        want = extrinsicHash ext ∧ node.Tells kind ext c outcome := by
  rw [submit, submitSignedCall, hpair]
  cases hctx : signer.context call with
  | error e =>
    constructor
    · intro h
      cases h
    · rintro ⟨-, ext, ⟨_, ctx, -, hsigned, -⟩, -⟩
      rw [hctx] at hsigned
      cases hsigned
  | ok ctx =>
    have hbody : node.submitExtrinsic kind (buildHybridSignedExtrinsic pair call ctx) c =
        .ok (outcome, want) ↔ _ := submitExtrinsic_eq_ok
    apply hbody.trans
    constructor
    · rintro ⟨hwant, hurl, htells⟩
      exact ⟨hurl, _, ⟨pair, ctx, hpair, hctx, rfl, rfl⟩, hwant, htells⟩
    · rintro ⟨hurl, ext, ⟨pair', ctx', hpair', hctx', -, hext⟩, hwant, htells⟩
      rw [hpair] at hpair'
      rw [hctx] at hctx'
      cases hpair'
      cases hctx'
      rw [hext] at hwant htells
      exact ⟨hwant, hurl, htells⟩

/-- A block shows the entry of the call, or the pool refuses it with a message that the classifier
knows. -/
def CallTold (node : Node) (kind : SolverType) (signer : CallSigner) (call : Bytes)
    (confirmation : Bytes32 → Confirmation) (done : α) (classify : Option String → Option α)
    (result : α) : Prop :=
  (node.primaryUrl).isOk = true ∧ ∃ account ext, signer.Signs call account ext ∧
    ((result = done ∧ node.Confirms kind ext (confirmation account)) ∨
      ∃ message, node.Refuses ext message ∧ classify (some message) = some result)

theorem callPallet_eq_ok (hfailed : ∀ block account,
      classify (some (node.explainFailure block (confirmation account)).1) = none) :
    node.callPallet kind signer call confirmation done classify = .ok result ↔
      node.CallTold kind signer call confirmation done classify result := by
  constructor
  · intro h
    obtain ⟨pair, hpair, h⟩ := Except.bind_eq_ok.mp h
    obtain ⟨⟨outcome, want⟩, hsubmit, h⟩ := Except.bind_eq_ok.mp h
    rw [submit_eq_ok hpair] at hsubmit
    obtain ⟨hurl, ext, hsigns, -, htells⟩ := hsubmit
    refine ⟨hurl, _, ext, hsigns, ?_⟩
    rw [settleCall_eq_ok] at h
    rcases h with ⟨block, number, rfl, hdone⟩ | ⟨error, lostRace, rfl, hclass⟩ |
      ⟨message, rfl, hclass⟩
    · exact Or.inl ⟨hdone, block, number, htells⟩
    · obtain ⟨block, -, -, -, hexplain⟩ := htells
      have hnone := hfailed block (signerAccountBytes pair)
      rw [hexplain, hclass] at hnone
      cases hnone
    · exact Or.inr ⟨message, htells, hclass⟩
  · rintro ⟨hurl, account, ext, hsigns, htold⟩
    have hsigned := hsigns
    obtain ⟨pair, ctx, hpair, -, haccount, -⟩ := hsigned
    rw [haccount] at hsigns htold
    have hsubmit : ∀ outcome, node.Tells kind ext (confirmation (signerAccountBytes pair)) outcome →
        node.callPallet kind signer call confirmation done classify =
          settleCall done classify outcome := by
      intro outcome htells
      have h : node.submit kind signer call (confirmation (signerAccountBytes pair)) =
          .ok (outcome, extrinsicHash ext) := by
        rw [submit_eq_ok hpair]
        exact ⟨hurl, ext, hsigns, rfl, htells⟩
      rw [callPallet, hpair]
      simp only [bind, Except.bind, h]
    rcases htold with ⟨rfl, block, number, htells⟩ | ⟨message, hrefuses, hclass⟩
    · rw [hsubmit _ htells, settleCall]
    · rw [hsubmit (.invalid message) hrefuses, settleCall, hclass]
      rfl

omit [Crates] in
theorem bind_read_eq_ok {β : Type} {read : Pair → String → Except ChainError β}
    {head : Except ChainError String} {next : Pair → β → Except ChainError α} :
    (do
      let pair ← signer.pair
      let block ← head
      next pair (← read pair block)) = .ok result ↔
      ∃ pair block found, signer.pair = .ok pair ∧ head = .ok block ∧
        read pair block = .ok found ∧ next pair found = .ok result := by
  simp only [Except.bind_eq_ok]
  constructor
  · rintro ⟨pair, hpair, block, hhead, found, hread, hnext⟩
    exact ⟨pair, block, found, hpair, hhead, hread, hnext⟩
  · rintro ⟨pair, block, found, hpair, hhead, hread, hnext⟩
    exact ⟨pair, hpair, block, hhead, found, hread, hnext⟩

theorem registerSolver_eq_ok {outcome : RegistrationOutcome} :
    node.registerSolver kind signer = .ok outcome ↔
      node.CallTold kind signer (encodeRegisterSolverCall kind) .solverRegistered .registered
        classifyRegistration outcome :=
  callPallet_eq_ok (classifyRegistration_solver node)

theorem replaceSolver_eq_ok {pair : Pair} (hpair : signer.pair = .ok pair)
    {outcome : RegistrationOutcome} :
    node.replaceSolver kind signer (signerAccountBytes pair) = .ok outcome ↔
      ((node.primaryUrl).isOk = true ∧ ∃ ext,
        signer.Signs encodeDeregisterSolverCall (signerAccountBytes pair) ext ∧
        node.Confirms kind ext (.solverDeregistered (signerAccountBytes pair))) ∧
      node.registerSolver kind signer = .ok outcome := by
  constructor
  · intro h
    obtain ⟨⟨told, want⟩, hsubmit, h⟩ := Except.bind_eq_ok.mp h
    rw [submit_eq_ok hpair] at hsubmit
    obtain ⟨hurl, ext, hsigns, -, htells⟩ := hsubmit
    cases told with
    | success block number => exact ⟨⟨hurl, ext, hsigns, block, number, htells⟩, h⟩
    | _ => cases h
  · rintro ⟨⟨hurl, ext, hsigns, block, number, htells⟩, hregister⟩
    have h : node.submit kind signer encodeDeregisterSolverCall
        (.solverDeregistered (signerAccountBytes pair)) =
        .ok (.success block number, extrinsicHash ext) := by
      rw [submit_eq_ok hpair]
      exact ⟨hurl, ext, hsigns, rfl, htells⟩
    rw [replaceSolver]
    simp only [bind, Except.bind, h]
    exact hregister

end Node

/-- A call's good outcome is one that a block shows or the pool's own message names: a call that was
included and failed never passes for one. -/
theorem pallet_outcomes_exact (node : Node) (kind : SolverType) (signer : CallSigner) :
    (∀ descriptor outcome, node.fileDescriptor kind signer descriptor = .ok outcome ↔
      node.CallTold kind signer (encodeSetDescriptorCall descriptor) .descriptor .filed
        classifyDescriptor outcome) ∧
    (∀ participateKind qblockId outcome,
      node.declareParticipation kind signer participateKind qblockId = .ok outcome ↔
        node.CallTold kind signer (encodeParticipateCall qblockId participateKind none)
          (.participation qblockId) .declared classifyParticipation outcome) ∧
    (∀ head outcome, node.ensureMinerRegistered kind signer head = .ok outcome ↔
      ∃ pair block registered, signer.pair = .ok pair ∧ head = .ok block ∧
        node.storageValuePresent (.miners (signerAccountBytes pair)) block = .ok registered ∧
        if registered then outcome = .alreadyRegistered
        else node.CallTold kind signer encodeRegisterMinerCall .minerRegistered .registered
          classifyRegistration outcome) ∧
    ∀ head outcome, node.ensureSolverRegistered kind signer head = .ok outcome ↔
      ∃ pair block stored, signer.pair = .ok pair ∧ head = .ok block ∧
        node.readStorage decodeSolverInfo (.solvers (signerAccountBytes pair)) block = .ok stored ∧
        if stored = some kind then outcome = .alreadyRegistered
        else
          (stored.isSome = true → (node.primaryUrl).isOk = true ∧ ∃ ext,
            signer.Signs encodeDeregisterSolverCall (signerAccountBytes pair) ext ∧
            node.Confirms kind ext (.solverDeregistered (signerAccountBytes pair))) ∧
          node.CallTold kind signer (encodeRegisterSolverCall kind) .solverRegistered .registered
            classifyRegistration outcome := by
  refine ⟨?_, ?_, ?_, ?_⟩
  · intro descriptor outcome
    exact Node.callPallet_eq_ok (Node.classifyDescriptor_explained node)
  · intro participateKind qblockId outcome
    apply Node.callPallet_eq_ok
    intro block account
    exact node.classifyParticipation_explained block account qblockId
  · intro head outcome
    apply Node.bind_read_eq_ok.trans
    apply exists_congr
    intro pair
    apply exists_congr
    intro block
    apply exists_congr
    intro registered
    refine and_congr_right fun _ => and_congr_right fun _ => and_congr_right fun _ => ?_
    cases registered with
    | true => simp [pure, Except.pure, eq_comm]
    | false => exact Node.callPallet_eq_ok (Node.classifyRegistration_miner node)
  · intro head outcome
    apply Node.bind_read_eq_ok.trans
    apply exists_congr
    intro pair
    apply exists_congr
    intro block
    apply exists_congr
    intro stored
    refine and_congr_right fun hpair => and_congr_right fun _ => and_congr_right fun _ => ?_
    cases stored with
    | none =>
      rw [if_neg (by simp)]
      simp only [Option.isSome_none, Bool.false_eq_true, false_implies, true_and]
      exact Node.registerSolver_eq_ok
    | some registered =>
      by_cases heq : registered = kind
      · simp [heq, pure, Except.pure, eq_comm]
      · rw [if_neg (by simpa using heq)]
        simp only [Option.isSome_some, true_implies]
        rw [if_neg heq, Node.replaceSolver_eq_ok hpair, Node.registerSolver_eq_ok]

end

/-! ## Receipts -/

namespace Node
variable {node : Node} {kind : SolverType} {account : Bytes32} {ext : Bytes}
  {receipt : SubmitReceipt}

theorem proofWinAt_eq_ok {block : String} {present : Bool} :
    node.confirmationPresent kind block (.proofWin account) = .ok present ↔
      ∃ winner, node.qblockWinnerAt block = .ok winner ∧
        decide (winner = some account) = present := by
  rw [confirmationPresent, proofWinAt, Except.bind_eq_ok]
  simp [pure, Except.pure]

theorem explainFailure_proofWin {block : String} {winner : Option Bytes32}
    (h : node.qblockWinnerAt block = .ok winner) :
    node.explainFailure block (.proofWin account) = explainProofFailure account winner := by
  unfold explainFailure
  dsimp only
  rw [h]

theorem explainProofFailure_lost {winner : Option Bytes32} (h : winner ≠ some account) :
    (explainProofFailure account winner).2 = winner.isSome := by
  unfold explainProofFailure
  cases winner with
  | none => rfl
  | some other =>
    have hother : other ≠ account := by
      intro heq
      exact h (congrArg some heq)
    dsimp only
    rw [if_pos hother]
    rfl

/-- No text of the client's own makes a failed proof a retry. -/
theorem proofReceipt_lost {winner : Option Bytes32} (h : winner ≠ some account) (hash : Bytes32) :
    proofReceipt hash (.dispatchFailed (explainProofFailure account winner).1
      (explainProofFailure account winner).2) =
      lostReceipt hash (if winner.isSome then .stopRoundStale else .stopFatal) := by
  have htext := classifyReceipt_explained account winner
  have hlost := explainProofFailure_lost h
  generalize explainProofFailure account winner = failure at htext hlost
  rw [← hlost]
  cases hfailure : failure.2 with
  | true => rfl
  | false => rw [proofReceipt, htext hfailure, if_neg Bool.false_ne_true]

section
variable [Crates]

/-- The extrinsic is in the block, and the chain records `winner` as the block's winner. -/
def IncludedUnder (node : Node) (ext : Bytes) (block : String) (winner : Option Bytes32) : Prop :=
  node.Places ext block ∧ node.blockContains block (extrinsicHash ext) = .ok true ∧
    node.qblockWinnerAt block = .ok winner

inductive ProofTold (node : Node) (kind : SolverType) (account : Bytes32) (ext : Bytes) :
    SubmitReceipt → Prop
  | won (block : String) (number : Nat) (hincluded : node.IncludedUnder ext block (some account))
      (hnumber : node.getHeaderNumber block = .ok number) :
      ProofTold node kind account ext (wonReceipt (extrinsicHash ext) block number)
  | lost (block : String) (winner : Bytes32) (hother : winner ≠ account)
      (hincluded : node.IncludedUnder ext block (some winner)) :
      ProofTold node kind account ext (lostReceipt (extrinsicHash ext) .stopRoundStale)
  | unrecorded (block : String) (hincluded : node.IncludedUnder ext block none) :
      ProofTold node kind account ext (lostReceipt (extrinsicHash ext) .stopFatal)
  | refused (message : String) (hrefuses : node.Refuses ext message) :
      ProofTold node kind account ext
        (lostReceipt (extrinsicHash ext) (classifyReceipt (some message)))
  | dropped (message : String)
      (hdropped : node.Tells kind ext (.proofWin account) (.dropped message)) :
      ProofTold node kind account ext (lostReceipt (extrinsicHash ext) .retry)

theorem proofTold_iff :
    node.ProofTold kind account ext receipt ↔
      ∃ outcome, node.Tells kind ext (.proofWin account) outcome ∧
        receipt = proofReceipt (extrinsicHash ext) outcome := by
  constructor
  · intro h
    cases h with
    | won block number hincluded hnumber =>
      obtain ⟨hplaces, hcontains, hwinner⟩ := hincluded
      refine ⟨.success block number, ⟨hplaces, hcontains, ?_, hnumber⟩, rfl⟩
      rw [proofWinAt_eq_ok]
      exact ⟨some account, hwinner, by simp⟩
    | lost block winner hother hincluded =>
      obtain ⟨hplaces, hcontains, hwinner⟩ := hincluded
      have hne : some winner ≠ some account := by simpa using hother
      refine ⟨.dispatchFailed _ _,
        ⟨block, hplaces, hcontains, ?_, explainFailure_proofWin hwinner⟩,
        (proofReceipt_lost hne _).symm⟩
      rw [proofWinAt_eq_ok]
      exact ⟨some winner, hwinner, by simpa using hother⟩
    | unrecorded block hincluded =>
      obtain ⟨hplaces, hcontains, hwinner⟩ := hincluded
      have hne : none ≠ some account := by simp
      refine ⟨.dispatchFailed _ _,
        ⟨block, hplaces, hcontains, ?_, explainFailure_proofWin hwinner⟩,
        (proofReceipt_lost hne _).symm⟩
      rw [proofWinAt_eq_ok]
      exact ⟨none, hwinner, by simp⟩
    | refused message hrefuses => exact ⟨.invalid message, hrefuses, rfl⟩
    | dropped message hdropped => exact ⟨.dropped message, hdropped, rfl⟩
  · rintro ⟨outcome, htells, hreceipt⟩
    rw [hreceipt]
    cases outcome with
    | success block number =>
      obtain ⟨hplaces, hcontains, hpresent, hnumber⟩ := htells
      rw [proofWinAt_eq_ok] at hpresent
      obtain ⟨winner, hwinner, hours⟩ := hpresent
      rw [of_decide_eq_true hours] at hwinner
      exact .won block number ⟨hplaces, hcontains, hwinner⟩ hnumber
    | dispatchFailed error lostRace =>
      obtain ⟨block, hplaces, hcontains, hpresent, hexplain⟩ := htells
      rw [proofWinAt_eq_ok] at hpresent
      obtain ⟨winner, hwinner, hours⟩ := hpresent
      have hne := of_decide_eq_false hours
      rw [explainFailure_proofWin hwinner] at hexplain
      have hlost := proofReceipt_lost hne (extrinsicHash ext)
      rw [hexplain] at hlost
      rw [hlost]
      cases winner with
      | none => exact .unrecorded block ⟨hplaces, hcontains, hwinner⟩
      | some other =>
        exact .lost block other (fun heq => hne (congrArg some heq)) ⟨hplaces, hcontains, hwinner⟩
    | invalid message => exact .refused message htells
    | dropped message => exact .dropped message htells

/-- The extrinsic is in the block, and its storage holds the order's answer of the account, given in
block `submittedAt`. -/
def AnsweredIn (node : Node) (orderId : Nat) (account : Bytes32) (ext : Bytes) (block : String)
    (number : Nat) (submittedAt : Option Nat) : Prop :=
  node.Places ext block ∧ node.blockContains block (extrinsicHash ext) = .ok true ∧
    node.getHeaderNumber block = .ok number ∧
    node.readStorage decodeSubmittedAt (.orderSolutions orderId account) block = .ok submittedAt

inductive SolutionTold (node : Node) (kind : SolverType) (orderId : Nat) (account : Bytes32)
    (ext : Bytes) : SubmitReceipt → Prop
  | taken (block : String) (number : Nat)
      (hanswered : node.AnsweredIn orderId account ext block number (some number)) :
      SolutionTold node kind orderId account ext (wonReceipt (extrinsicHash ext) block number)
  | rejected (block : String) (number : Nat) (submittedAt : Option Nat)
      (hother : submittedAt ≠ some number)
      (hanswered : node.AnsweredIn orderId account ext block number submittedAt) :
      SolutionTold node kind orderId account ext (lostReceipt (extrinsicHash ext) .stopFatal)
  | refused (message : String) (hrefuses : node.Refuses ext message) :
      SolutionTold node kind orderId account ext (lostReceipt (extrinsicHash ext) .stopFatal)
  | dropped (message : String)
      (hdropped : node.Tells kind ext (.solutionAccepted orderId account) (.dropped message)) :
      SolutionTold node kind orderId account ext (lostReceipt (extrinsicHash ext) .retry)

omit [Crates] in
theorem solutionAcceptedAt_eq_ok {orderId : Nat} {block : String} {present : Bool} :
    node.confirmationPresent kind block (.solutionAccepted orderId account) = .ok present ↔
      ∃ number submittedAt, node.getHeaderNumber block = .ok number ∧
        node.readStorage decodeSubmittedAt (.orderSolutions orderId account) block =
          .ok submittedAt ∧
        decide (submittedAt = some number) = present := by
  rw [confirmationPresent, Except.bind_eq_ok]
  simp [Except.bind_eq_ok, pure, Except.pure]

theorem solutionTold_iff {orderId : Nat} :
    node.SolutionTold kind orderId account ext receipt ↔
      ∃ outcome, node.Tells kind ext (.solutionAccepted orderId account) outcome ∧
        receipt = solutionReceipt (extrinsicHash ext) outcome := by
  constructor
  · intro h
    cases h with
    | taken block number hanswered =>
      obtain ⟨hplaces, hcontains, hnumber, hstored⟩ := hanswered
      refine ⟨.success block number, ⟨hplaces, hcontains, ?_, hnumber⟩, rfl⟩
      rw [solutionAcceptedAt_eq_ok]
      exact ⟨number, some number, hnumber, hstored, by simp⟩
    | rejected block number submittedAt hother hanswered =>
      obtain ⟨hplaces, hcontains, hnumber, hstored⟩ := hanswered
      refine ⟨.dispatchFailed _ _, ⟨block, hplaces, hcontains, ?_, rfl⟩, rfl⟩
      rw [solutionAcceptedAt_eq_ok]
      exact ⟨number, submittedAt, hnumber, hstored, decide_eq_false hother⟩
    | refused message hrefuses => exact ⟨.invalid message, hrefuses, rfl⟩
    | dropped message hdropped => exact ⟨.dropped message, hdropped, rfl⟩
  · rintro ⟨outcome, htells, hreceipt⟩
    rw [hreceipt]
    cases outcome with
    | success block number =>
      obtain ⟨hplaces, hcontains, hpresent, hnumber⟩ := htells
      rw [solutionAcceptedAt_eq_ok] at hpresent
      obtain ⟨found, submittedAt, hfound, hstored, hours⟩ := hpresent
      rw [hnumber] at hfound
      cases hfound
      rw [of_decide_eq_true hours] at hstored
      exact .taken block number ⟨hplaces, hcontains, hnumber, hstored⟩
    | dispatchFailed error lostRace =>
      obtain ⟨block, hplaces, hcontains, hpresent, -⟩ := htells
      rw [solutionAcceptedAt_eq_ok] at hpresent
      obtain ⟨number, submittedAt, hnumber, hstored, hother⟩ := hpresent
      exact .rejected block number submittedAt (of_decide_eq_false hother)
        ⟨hplaces, hcontains, hnumber, hstored⟩
    | invalid message => exact .refused message htells
    | dropped message => exact .dropped message htells

end

section
variable [Crates] [HybridCrypto]
open HybridCrypto

/-- A receipt made from the outcome of a signed call follows from what the node tells. -/
theorem receipt_eq_ok {signer : CallSigner} {call : Bytes} {pair : Pair}
    (hpair : signer.pair = .ok pair) {c : Confirmation}
    {receiptOf : Bytes32 → SignedCallOutcome → SubmitReceipt} :
    (node.submit kind signer call c).map (fun told => receiptOf told.2 told.1) = .ok receipt ↔
      (node.primaryUrl).isOk = true ∧ ∃ ext, signer.Signs call (signerAccountBytes pair) ext ∧
        ∃ outcome, node.Tells kind ext c outcome ∧
          receipt = receiptOf (extrinsicHash ext) outcome := by
  constructor
  · intro h
    obtain ⟨⟨outcome, hash⟩, hsubmit, hreceipt⟩ := Except.map_eq_ok.mp h
    rw [submit_eq_ok hpair] at hsubmit
    obtain ⟨hurl, ext, hsigns, hhash, htells⟩ := hsubmit
    refine ⟨hurl, ext, hsigns, outcome, htells, ?_⟩
    rw [← hhash]
    exact hreceipt.symm
  · rintro ⟨hurl, ext, hsigns, outcome, htells, hreceipt⟩
    have h : node.submit kind signer call c = .ok (outcome, extrinsicHash ext) := by
      rw [submit_eq_ok hpair]
      exact ⟨hurl, ext, hsigns, rfl, htells⟩
    rw [h, hreceipt]
    rfl

end
end Node

section
variable [Crates] [HybridCrypto]
open HybridCrypto

/-- The receipt of a proof follows from the chain where the extrinsic went into a block: a win with
its block when the chain records the signer, a stale round when it records another miner, an end
when it records none. A proof is told to be sent again only when it went into no block. The receipt
of a solution is a success with its block when the order's answer of the signer there is from that
block, an end when it is not. The answers of the node about a block do not change. -/
theorem proof_receipts_exact [SpinPacking] (node : Node) (kind : SolverType) (signer : CallSigner)
    (lastSnapshot : Option MiningSnapshot) (lastSpinSpec : Option AllowedValueSpec) (proof : Proof)
    (receipt : SubmitReceipt) :
    (node.submitProof kind signer lastSnapshot lastSpinSpec proof = .ok receipt ↔
      (node.primaryUrl).isOk = true ∧ ∃ pair quantum ext, signer.pair = .ok pair ∧
        encodeSubmission (signer.minerIdentity pair) lastSnapshot lastSpinSpec proof = .ok quantum ∧
        signer.Signs (encodeSubmitProofCall quantum) (signerAccountBytes pair) ext ∧
        node.ProofTold kind (signerAccountBytes pair) ext receipt) ∧
    (node.submitSolution kind signer proof = .ok receipt ↔
      (node.primaryUrl).isOk = true ∧ ∃ orderId pair ext,
        orderIdOfBytes proof.orderId = .ok orderId ∧ signer.pair = .ok pair ∧
        signer.Signs (encodeSubmitSolutionCall orderId (proof.solutions.map (·.spins)))
          (signerAccountBytes pair) ext ∧
        node.SolutionTold kind orderId (signerAccountBytes pair) ext receipt) := by
  simp only [Node.proofTold_iff, Node.solutionTold_iff]
  constructor
  · constructor
    · intro h
      obtain ⟨pair, hpair, h⟩ := Except.bind_eq_ok.mp h
      obtain ⟨quantum, hquantum, h⟩ := Except.bind_eq_ok.mp h
      obtain ⟨hurl, ext, hsigns, htold⟩ := (Node.receipt_eq_ok hpair).mp h
      exact ⟨hurl, pair, quantum, ext, hpair, hquantum, hsigns, htold⟩
    · rintro ⟨hurl, pair, quantum, ext, hpair, hquantum, hsigns, htold⟩
      refine Except.bind_eq_ok.mpr ⟨pair, hpair, Except.bind_eq_ok.mpr ⟨quantum, hquantum, ?_⟩⟩
      exact (Node.receipt_eq_ok hpair).mpr ⟨hurl, ext, hsigns, htold⟩
  · constructor
    · intro h
      obtain ⟨orderId, horder, h⟩ := Except.bind_eq_ok.mp h
      obtain ⟨pair, hpair, h⟩ := Except.bind_eq_ok.mp h
      obtain ⟨hurl, ext, hsigns, htold⟩ := (Node.receipt_eq_ok hpair).mp h
      exact ⟨hurl, orderId, pair, ext, horder, hpair, hsigns, htold⟩
    · rintro ⟨hurl, orderId, pair, ext, horder, hpair, hsigns, htold⟩
      refine Except.bind_eq_ok.mpr ⟨orderId, horder, Except.bind_eq_ok.mpr ⟨pair, hpair, ?_⟩⟩
      exact (Node.receipt_eq_ok hpair).mpr ⟨hurl, ext, hsigns, htold⟩

end

end QuipCoordinator
