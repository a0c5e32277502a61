import QuipCoordinator.ClientOutcomes
import QuipCoordinator.DescriptorPayload
import QuipCoordinator.FoundationRetry
import QuipCoordinator.Funding
import QuipCoordinator.RoundWalks

/-!
# Readiness over a whole process

The layer of the account's registrations over the loop of the feeder: the startup walk
and each later walk register the miner and file the node descriptor behind latches of
the process, and the feeder registers the solver once a round. A round mines only
after the walk, so only once the chain has told that the account is registered. A call
counts once it is answered.
-/

namespace QuipCoordinator
open Descriptor

def submitAttempts : Nat := 3

abbrev RegistrationAnswer := Except ChainError RegistrationOutcome
abbrev DescriptorAnswer := Except ChainError DescriptorOutcome

inductive ReadinessError
  | funding (e : FundingError)
  | snapshot (message : String)

inductive Startup
  | pending
  | running
  | refused
deriving DecidableEq

/-- The latches of the process with the answers behind them, a descriptor's with its payload and a
solver's with the generation of the attempt. -/
structure Readiness where
  startup : Startup
  registration : Latch RegistrationAnswer
  descriptor : Latch (NodeDescriptorV2Input × DescriptorAnswer)
  solver : Latch (Nat × RegistrationAnswer)
  solverAttempted : Option Nat

namespace Readiness

def init : Readiness := ⟨.pending, .fresh, .fresh, .fresh, none⟩

def registerRoundMiner (r : Readiness) (answers : Nat → RegistrationAnswer) : Readiness :=
  { r with registration := r.registration.visit Except.isOk false submitAttempts answers }

def registerRoundSolver (r : Readiness) (generation : Nat) (answer : RegistrationAnswer) :
    Readiness :=
  { r with
    solver := r.solver.visit (·.2.isOk) false 1 fun _ => (generation, answer)
    solverAttempted := some generation }

section
variable [Ss58] (params : DescriptorParams) (account : Bytes32)

def fileRoundDescriptor (r : Readiness) (answers : Nat → DescriptorAnswer) : Readiness :=
  if r.descriptor.set then r
  else
    match buildDescriptorPayload params account with
    | none => { r with descriptor := { r.descriptor with set := true } }
    | some payload =>
      { r with
        descriptor := r.descriptor.visit (·.2.isOk) true submitAttempts fun i =>
          (payload, answers i) }

/-- The startup walk. Either outcome of the sync gate goes on, and so does a registration that
failed. -/
def prepareRound (r : Readiness) (funding : Except FundingError Nat)
    (registrations : Nat → RegistrationAnswer)
    (snapshot : Except ChainError (Option MiningSnapshot))
    (descriptors : Nat → DescriptorAnswer) : Readiness × Except ReadinessError MiningSnapshot :=
  match funding with
  | .error e => (r, .error (.funding e))
  | .ok _ =>
    let r := r.registerRoundMiner registrations
    match snapshot with
    | .error e => (r, .error (.snapshot e.display))
    | .ok none => (r, .error (.snapshot "chain has no mining snapshot"))
    | .ok (some snap) => (r.fileRoundDescriptor params account descriptors, .ok snap)

/-- `main` ends without funds and goes on without a snapshot. -/
def runStartupPrepare (r : Readiness) (funding : Except FundingError Nat)
    (registrations : Nat → RegistrationAnswer)
    (snapshot : Except ChainError (Option MiningSnapshot))
    (descriptors : Nat → DescriptorAnswer) : Readiness :=
  match r.prepareRound params account funding registrations snapshot descriptors with
  | (r, .error (.funding _)) => { r with startup := .refused }
  | (r, .error (.snapshot _)) | (r, .ok _) => { r with startup := .running }

end
end Readiness

/-- `abandon` is a shutdown during the registration, with the errors until then. -/
inductive ReadinessEvent
  | prepare (funding : Except FundingError Nat) (registrations : Nat → RegistrationAnswer)
      (snapshot : Except ChainError (Option MiningSnapshot))
      (descriptors : Nat → DescriptorAnswer)
  | registerMiner (answers : Nat → RegistrationAnswer)
  | abandon (errors : List ChainError)
  | fileDescriptor (answers : Nat → DescriptorAnswer)
  | registerSolver (answer : RegistrationAnswer)
  | feeder (e : FeederEvent)

def FeederEvent.isStep : FeederEvent → Bool
  | .step _ => true
  | _ => false

def FeederEvent.isOrders : FeederEvent → Bool
  | .stageMempoolOrders _ => true
  | _ => false

namespace Readiness

def Walks (f : FeederLoop) (s : RoundState) : Prop :=
  ∃ walk ∈ f.place.walk, walk.drive.machine = s

theorem Walks.machine_eq {f : FeederLoop} {s : RoundState} (h : Walks f s) {walk : Walk}
    (hw : walk ∈ f.place.walk) : walk.drive.machine = s := by
  obtain ⟨walk', hw', hs⟩ := h
  cases Option.mem_unique hw hw'
  exact hs

def emit (r : Readiness) : ReadinessEvent → Option FeederEvent
  | .prepare _ _ _ _ | .registerSolver _ => none
  | .registerMiner answers =>
    some (.step (if (r.registerRoundMiner answers).registration.set then .done else .failed))
  | .abandon _ => some .shutdown
  | .fileDescriptor _ => some (.step .done)
  | .feeder e => some e

/-- The feeder's own step out of the two states is the one that the calls decide. -/
def Guard (f : FeederLoop) (r : Readiness) : ReadinessEvent → Prop
  | .prepare _ _ _ _ => r.startup = .pending
  | .registerMiner _ => r.startup = .running ∧ Walks f .minerRegistered
  | .abandon errors => r.startup = .running ∧ Walks f .minerRegistered ∧
      r.registration.set = false ∧ errors.length < submitAttempts
  | .fileDescriptor _ => r.startup = .running ∧ Walks f .descriptorFiled
  | .registerSolver _ => r.startup = .running ∧ f.place = .staged ∧
      r.solverAttempted ≠ some f.generation
  | .feeder e => r.startup = .running ∧
      (e.isStep = true → ¬Walks f .minerRegistered ∧ ¬Walks f .descriptorFiled) ∧
      (e.isOrders = true → r.solver.set = true)

instance (f : FeederLoop) (s : RoundState) : Decidable (Walks f s) :=
  inferInstanceAs (Decidable (∃ walk ∈ f.place.walk, walk.drive.machine = s))

instance (f : FeederLoop) (r : Readiness) : (e : ReadinessEvent) → Decidable (r.Guard f e)
  | .prepare _ _ _ _ => inferInstanceAs (Decidable (r.startup = .pending))
  | .registerMiner _ | .fileDescriptor _ => inferInstanceAs (Decidable (_ ∧ Walks f _))
  | .abandon _ | .registerSolver _ | .feeder _ => inferInstanceAs (Decidable (_ ∧ _ ∧ _))

variable [Ss58] (params : DescriptorParams) (account : Bytes32)

def next (f : FeederLoop) (r : Readiness) : ReadinessEvent → Readiness
  | .prepare funding registrations snapshot descriptors =>
    r.runStartupPrepare params account funding registrations snapshot descriptors
  | .registerMiner answers => r.registerRoundMiner answers
  | .abandon errors =>
    { r with registration := ⟨false, r.registration.log ++ errors.map .error⟩ }
  | .fileDescriptor answers => r.fileRoundDescriptor params account answers
  | .registerSolver answer => r.registerRoundSolver f.generation answer
  | .feeder _ => r

end Readiness

section
variable [PoolScoring] [Crates] [Ss58]

def readinessLayer (params : FeederParams) (descriptor : DescriptorParams) (account : Bytes32) :
    Machine.Layer (feederMachine params) Readiness ReadinessEvent where
  init := .init
  guard x r := r.Guard x.2
  emit _ r := r.emit
  next x r := r.next descriptor account x.2

abbrev readinessMachine (params : FeederParams) (descriptor : DescriptorParams)
    (account : Bytes32) :
    Machine ((((World × Channels) × FeederLoop)) × Readiness) ReadinessEvent :=
  (readinessLayer params descriptor account).machine

instance (params : FeederParams) (descriptor : DescriptorParams) (account : Bytes32)
    (x : ((World × Channels) × FeederLoop) × Readiness) (e : ReadinessEvent) :
    Decidable ((readinessMachine params descriptor account).allowed x e) :=
  inferInstanceAs (Decidable (x.2.Guard x.1.2 e ∧
    ∀ d ∈ x.2.emit e, (feederMachine params).allowed x.1 d))

end

/-! ## What a walk has behind it -/

namespace FeederLoop

/-- `R` holds once a walk is past the registration and `D` once it is past the descriptor, and both
hold once a walk has reached mining. -/
structure Gated (R D : Prop) (f : FeederLoop) : Prop where
  mined : f.poll.round ≠ none → R ∧ D
  registered : ∀ walk ∈ f.place.walk, .minerRegistered ∈ walk.drive.machine.below → R
  filed : ∀ walk ∈ f.place.walk, .descriptorFiled ∈ walk.drive.machine.below → D

theorem gated_init : Gated False False .init where
  mined h := absurd rfl h
  registered _ h := by cases h
  filed _ h := by cases h

variable {R D R' D' : Prop} {f f' : FeederLoop}

theorem Gated.mono (h : f.Gated R D) (hR : R → R') (hD : D → D') : f.Gated R' D' where
  mined hround := ⟨hR (h.mined hround).1, hD (h.mined hround).2⟩
  registered walk hw hm := hR (h.registered walk hw hm)
  filed walk hw hm := hD (h.filed walk hw hm)

theorem Gated.congr (h : f.Gated R D) (hround : f'.poll.round = f.poll.round)
    (hwalk : ∀ walk ∈ f'.place.walk, ∃ walk' ∈ f.place.walk, walk.drive = walk'.drive) :
    f'.Gated R D where
  mined hne := h.mined (by rwa [hround] at hne)
  registered walk hw hm := by
    obtain ⟨walk', hw', heq⟩ := hwalk walk hw
    rw [heq] at hm
    exact h.registered walk' hw' hm
  filed walk hw hm := by
    obtain ⟨walk', hw', heq⟩ := hwalk walk hw
    rw [heq] at hm
    exact h.filed walk' hw' hm

theorem Gated.idle (h : f.Gated R D) (hround : f'.poll.round ≠ none → f.poll.round ≠ none)
    (hwalk : ∀ walk ∈ f'.place.walk, walk.drive.machine = .stopMining) : f'.Gated R D where
  mined hne := h.mined (hround hne)
  registered walk hw hm := by
    rw [hwalk walk hw] at hm
    cases hm
  filed walk hw hm := by
    rw [hwalk walk hw] at hm
    cases hm

theorem below_step {d d' : Drive} {r : StepResult} (hs : d.step r = some d')
    (hclimb : d.machine ≠ .awaitingQBlock) {s : RoundState} (hm : s ∈ d'.machine.below) :
    s ∈ d.machine.below ∨ r ≠ .failed ∧ d.machine = s := by
  obtain ⟨-, -, hfail | ⟨hr, hmove⟩⟩ := Drive.step_cases hs
  · rw [hfail.2] at hm
    exact Or.inl hm
  · rcases hmove with hawait | ⟨hbelow, -⟩
    · exact absurd hawait hclimb
    · rw [hbelow] at hm
      rcases List.mem_append.mp hm with hm | hm
      · exact Or.inl hm
      · exact Or.inr ⟨hr, (List.mem_singleton.mp hm).symm⟩

section
variable [PoolScoring] [Crates]

theorem Gated.polled (h : f.Gated R D) (hist : f.History) (snap : MiningSnapshot)
    (pool : Option (List PendingProof)) : (f.polled snap pool).Gated R D := by
  obtain ⟨watch, hwalk | hpause | hrest | ⟨-, hmine⟩⟩ := polled_cases hist.round snap pool
  · rw [hwalk]
    refine h.idle id ?_
    intro walk hw
    cases hw
    rfl
  · by_cases hround : f.poll.round = none
    · -- the first poll of a process calls for a walk
      have hhead : f.poll.currentHead = none := by
        rcases hist.round with hr | hr | hr
        · exact hr.2
        · rw [hround] at hr
          cases hr
        · rw [hround] at hr
          cases hr
      refine h.idle ?_ ?_
      · intro hne
        revert hne
        unfold FeederLoop.polled PollState.poll
        rcases f.poll.observe ⟨snap, pool, snap⟩ with ⟨watch', clearings, clearing, observed⟩
        simp [hhead, turnover, hround]
      · intro walk hw
        rw [hpause] at hw
        cases hw
    · rw [hpause]
      refine h.idle (fun _ => hround) ?_
      intro walk hw
      cases hw
  · rw [hrest]
    refine h.idle id ?_
    intro walk hw
    cases hw
  · rw [hmine]
    refine h.idle id ?_
    intro walk hw
    cases hw

/-- A step of the feeder keeps the gates when it passes a gate only with what stands there. -/
theorem Gated.next (h : f.Gated R D) (hist : f.History) (w : World) {c : Channels}
    {e : FeederEvent} (hg : f.Guard c e)
    (hpass : ∀ walk ∈ f.place.walk, ∀ r, e = .step r → r ≠ .failed →
      (walk.drive.machine = .minerRegistered → R) ∧ (walk.drive.machine = .descriptorFiled → D)) :
    (f.next w c e).Gated R D := by
  have hstay : ∀ walk ∈ f.place.walk, ∃ walk' ∈ f.place.walk, walk.drive = walk'.drive :=
    fun walk hw => ⟨walk, hw, rfl⟩
  cases e with
  | poll snap pool =>
    cases snap with
    | none =>
      refine h.idle id ?_
      intro walk hw
      cases hw
    | some snap => exact h.polled hist snap pool
  | stopMining =>
    rw [FeederLoop.next]
    cases hplace : f.place.walk with
    | none =>
      refine h.congr rfl ?_
      intro walk hw
      cases hw
    | some old =>
      refine h.congr rfl ?_
      intro walk hw
      cases hw
      exact ⟨old, hplace, rfl⟩
  | step r =>
    obtain ⟨walk, hw, hsome, -⟩ := hg
    obtain ⟨d, hd⟩ := Option.isSome_iff_exists.mp hsome
    have hnext : f.next w c (.step r) = { f with place := .walking { walk with drive := d } } := by
      rw [FeederLoop.next, Option.mem_def.mp hw]
      simp [Walk.step, hd]
    have hsound : walk.Sound := (hist.sound walk (List.mem_append_right _ (by simpa using hw))).1
    rw [hnext]
    refine ⟨h.mined, ?_, ?_⟩
    · intro walk' hw' hm
      cases hw'
      rcases below_step hd hsound.climb.walks hm with hm | ⟨hr, hm⟩
      · exact h.registered walk hw hm
      · exact (hpass walk hw r rfl hr).1 hm
    · intro walk' hw' hm
      cases hw'
      rcases below_step hd hsound.climb.walks hm with hm | ⟨hr, hm⟩
      · exact h.filed walk hw hm
      · exact (hpass walk hw r rfl hr).2 hm
  | finish =>
    obtain ⟨walk, hw, hstart⟩ := hg
    have hR : R := h.registered walk hw (by simp [hstart, RoundState.below])
    have hD : D := h.filed walk hw (by simp [hstart, RoundState.below])
    rw [FeederLoop.next, Option.mem_def.mp hw]
    refine ⟨fun _ => ⟨hR, hD⟩, fun _ _ _ => hR, fun _ _ _ => hD⟩
  | install qblockId decay =>
    cases hreached : f.place.reached with
    | none =>
      rw [FeederLoop.next, hreached]
      exact h
    | some snap =>
      rw [FeederLoop.next, hreached]
      refine h.idle id ?_
      intro walk hw
      cases hw
  | retarget => exact h
  | stageMempoolOrders orders => exact h
  | session e =>
    obtain ⟨cloned, told, cancels, hnote⟩ := FeederLoop.note_eq w c f e
    rw [FeederLoop.next, hnote]
    exact h.congr rfl hstay
  | _ =>
    refine h.idle id ?_
    intro walk hw
    cases hw

theorem generation_next (hist : f.History) (hbound : f.generation < 2 ^ 64) (w : World)
    (c : Channels) (e : FeederEvent) : f.generation ≤ (f.next w c e).generation := by
  have hstep : f.generation ≤ satAdd 64 f.generation 1 := satAdd_one_ge hbound
  cases e with
  | poll snap pool =>
    cases snap with
    | none => exact Nat.le_refl _
    | some snap =>
      rw [FeederLoop.next]
      obtain ⟨watch, he | he | he | ⟨-, he⟩⟩ := polled_cases hist.round snap pool
      · rw [he]
        exact hstep
      · rw [he]
        exact hstep
      · rw [he]
      · rw [he]
  | step r =>
    rw [FeederLoop.next]
    cases f.place.walk <;> exact Nat.le_refl _
  | finish =>
    rw [FeederLoop.next]
    cases hplace : f.place.walk with
    | none => exact Nat.le_refl _
    | some walk =>
      rw [Option.elim_some, FeederLoop.finish]
      split <;> exact Nat.le_refl _
  | install qblockId decay =>
    rw [FeederLoop.next]
    cases f.place.reached <;> exact Nat.le_refl _
  | session e =>
    obtain ⟨cloned, told, cancels, hnote⟩ := FeederLoop.note_eq w c f e
    rw [FeederLoop.next, hnote]
  | _ => exact Nat.le_refl _

end
end FeederLoop

/-! ## What the latches keep -/

namespace Readiness
variable [Ss58] (params : DescriptorParams) (account : Bytes32)

structure Inv (r : Readiness) : Prop where
  registration : r.registration.Keeps Except.isOk
  descriptor : r.descriptor.Spends (·.2.isOk) submitAttempts
  payload : ∀ entry ∈ r.descriptor.log, buildDescriptorPayload params account = some entry.1
  solver : r.solver.Keeps (·.2.isOk)
  attempts : (r.solver.log.map (·.1)).Pairwise (· < ·)
  attempted : ∀ entry ∈ r.solver.log, ∃ a ∈ r.solverAttempted, entry.1 ≤ a

variable {params account} {r : Readiness}

theorem inv_init : init.Inv params account where
  registration := Latch.keeps_fresh
  descriptor := Latch.spends_fresh
  payload _ h := by cases h
  solver := Latch.keeps_fresh
  attempts := .nil
  attempted _ h := by cases h

theorem Inv.registerRoundMiner (h : r.Inv params account) (answers : Nat → RegistrationAnswer) :
    (r.registerRoundMiner answers).Inv params account :=
  { h with registration := h.registration.visit }

theorem Inv.abandon (h : r.Inv params account) (hset : r.registration.set = false)
    (errors : List ChainError) :
    Inv params account
      { r with registration := ⟨false, r.registration.log ++ errors.map .error⟩ } :=
  { h with
    registration := by
      apply h.registration.brokenOff hset
      simp [Except.isOk, Except.toBool] }

theorem Inv.fileRoundDescriptor (h : r.Inv params account) (answers : Nat → DescriptorAnswer) :
    (r.fileRoundDescriptor params account answers).Inv params account := by
  rw [Readiness.fileRoundDescriptor]
  split_ifs
  · exact h
  · cases hpayload : buildDescriptorPayload params account with
    | none => exact { h with descriptor := h.descriptor.give }
    | some payload =>
      refine { h with descriptor := h.descriptor.visit, payload := ?_ }
      intro entry hentry
      rcases Latch.mem_visit hentry with hold | ⟨i, hnew⟩
      · exact h.payload entry hold
      · rw [hnew]
        exact hpayload

theorem filed_fileRoundDescriptor (answers : Nat → DescriptorAnswer) :
    (r.fileRoundDescriptor params account answers).descriptor.set = true := by
  rw [Readiness.fileRoundDescriptor]
  split_ifs with hset
  · exact hset
  · cases buildDescriptorPayload params account with
    | none => rfl
    | some payload => exact Latch.set_visit_givesUp

theorem solverAttempted_fileRoundDescriptor (answers : Nat → DescriptorAnswer) :
    (r.fileRoundDescriptor params account answers).solverAttempted = r.solverAttempted := by
  rw [Readiness.fileRoundDescriptor]
  split_ifs
  · rfl
  · cases buildDescriptorPayload params account <;> rfl

theorem Inv.registerRoundSolver (h : r.Inv params account) {generation : Nat}
    (hlater : ∀ a ∈ r.solverAttempted, a < generation) (answer : RegistrationAnswer) :
    (r.registerRoundSolver generation answer).Inv params account := by
  have hold : ∀ entry ∈ r.solver.log, entry.1 < generation := by
    intro entry hentry
    obtain ⟨a, ha, hle⟩ := h.attempted entry hentry
    exact Nat.lt_of_le_of_lt hle (hlater a ha)
  have hlog : (r.registerRoundSolver generation answer).solver.log = r.solver.log ∨
      (r.registerRoundSolver generation answer).solver.log =
        r.solver.log ++ [(generation, answer)] := by
    rw [Readiness.registerRoundSolver, Latch.visit]
    split_ifs
    · exact Or.inl rfl
    · exact Or.inr (by simp [retry])
  refine ⟨h.registration, h.descriptor, h.payload, h.solver.visit, ?_, ?_⟩
  · rcases hlog with hlog | hlog
    · rw [hlog]
      exact h.attempts
    · rw [hlog, List.map_append]
      apply List.pairwise_append.mpr
      refine ⟨h.attempts, List.pairwise_singleton _ _, ?_⟩
      intro a ha b hb
      obtain ⟨entry, hentry, hfst⟩ := List.mem_map.mp ha
      rw [List.mem_singleton.mp hb, ← hfst]
      exact hold entry hentry
  · intro entry hentry
    refine ⟨generation, rfl, ?_⟩
    rcases hlog with hlog | hlog
    · rw [hlog] at hentry
      exact Nat.le_of_lt (hold entry hentry)
    · rw [hlog] at hentry
      rcases List.mem_append.mp hentry with hentry | hentry
      · exact Nat.le_of_lt (hold entry hentry)
      · rw [List.mem_singleton.mp hentry]

theorem Inv.runStartupPrepare (h : r.Inv params account) (funding : Except FundingError Nat)
    (registrations : Nat → RegistrationAnswer)
    (snapshot : Except ChainError (Option MiningSnapshot))
    (descriptors : Nat → DescriptorAnswer) :
    (r.runStartupPrepare params account funding registrations snapshot descriptors).Inv
      params account := by
  have hstart : ∀ {r : Readiness} (startup : Startup), r.Inv params account →
      Inv params account { r with startup := startup } := by
    intro r startup h
    exact { h with }
  cases funding with
  | error e => exact hstart .refused h
  | ok balance =>
    have hregistered := h.registerRoundMiner registrations
    rcases snapshot with e | snap | snap
    · exact hstart .running hregistered
    · exact hstart .running hregistered
    · exact hstart .running (hregistered.fileRoundDescriptor descriptors)

structure Grows (r r' : Readiness) : Prop where
  registration : r.registration.set = true → r'.registration.set = true
  descriptor : r.descriptor.set = true → r'.descriptor.set = true

omit [Ss58] in
theorem grows_registerRoundMiner (answers : Nat → RegistrationAnswer) :
    r.Grows (r.registerRoundMiner answers) where
  registration h := Latch.set_visit_of_set h false
  descriptor := id

theorem grows_fileRoundDescriptor (answers : Nat → DescriptorAnswer) :
    r.Grows (r.fileRoundDescriptor params account answers) where
  registration h := by
    rw [Readiness.fileRoundDescriptor]
    split_ifs
    · exact h
    · cases buildDescriptorPayload params account <;> exact h
  descriptor _ := filed_fileRoundDescriptor answers

theorem grows_runStartupPrepare (funding : Except FundingError Nat)
    (registrations : Nat → RegistrationAnswer)
    (snapshot : Except ChainError (Option MiningSnapshot))
    (descriptors : Nat → DescriptorAnswer) :
    r.Grows (r.runStartupPrepare params account funding registrations snapshot descriptors) := by
  have hregistered := grows_registerRoundMiner (r := r) registrations
  cases funding with
  | error e => exact ⟨id, id⟩
  | ok balance =>
    rcases snapshot with e | snap | snap
    · exact ⟨hregistered.registration, hregistered.descriptor⟩
    · exact ⟨hregistered.registration, hregistered.descriptor⟩
    · have hfiled : (r.registerRoundMiner registrations).Grows
          ((r.registerRoundMiner registrations).fileRoundDescriptor params account descriptors) :=
        grows_fileRoundDescriptor descriptors
      exact ⟨fun h => hfiled.registration (hregistered.registration h), fun h =>
        hfiled.descriptor (hregistered.descriptor h)⟩

theorem solverAttempted_runStartupPrepare (funding : Except FundingError Nat)
    (registrations : Nat → RegistrationAnswer)
    (snapshot : Except ChainError (Option MiningSnapshot))
    (descriptors : Nat → DescriptorAnswer) :
    (r.runStartupPrepare params account funding registrations snapshot
      descriptors).solverAttempted = r.solverAttempted := by
  cases funding with
  | error e => rfl
  | ok balance =>
    rcases snapshot with e | snap | snap
    · rfl
    · rfl
    · exact solverAttempted_fileRoundDescriptor descriptors

end Readiness

/-! ## The gate of mining -/

section
variable [PoolScoring] [Crates] [Ss58]

structure ReadyInv (descriptor : DescriptorParams) (account : Bytes32)
    (x : ((World × Channels) × FeederLoop) × Readiness) : Prop where
  gates : x.1.2.Gated (x.2.registration.set = true) (x.2.descriptor.set = true)
  latches : x.2.Inv descriptor account
  current : ∀ a ∈ x.2.solverAttempted, a ≤ x.1.2.generation

variable {params : FeederParams} {descriptor : DescriptorParams} {account : Bytes32}
  {x : ((World × Channels) × FeederLoop) × Readiness}

theorem readyInv_init :
    ReadyInv descriptor account (readinessMachine params descriptor account).init where
  gates := FeederLoop.gated_init.mono (fun h => h.elim) fun h => h.elim
  latches := Readiness.inv_init
  current a h := by cases h

theorem ReadyInv.feeder (h : ReadyInv descriptor account x)
    (hx : (feederMachine params).Reachable x.1) {d : FeederEvent}
    (ha : (feederMachine params).allowed x.1 d) {r : Readiness} (hr : x.2.Grows r)
    (hlatches : r.Inv descriptor account) (hsolver : r.solverAttempted = x.2.solverAttempted)
    (hpass : ∀ walk ∈ x.1.2.place.walk, ∀ result, d = .step result → result ≠ .failed →
      (walk.drive.machine = .minerRegistered → r.registration.set = true) ∧
        (walk.drive.machine = .descriptorFiled → r.descriptor.set = true)) :
    ReadyInv descriptor account ((feederMachine params).next x.1 d, r) where
  gates := by
    have hist := (feederInv_reachable hx).history
    exact (h.gates.mono hr.registration hr.descriptor).next hist x.1.1.1 ha.1 hpass
  latches := hlatches
  current := by
    have hfeeder := feederInv_reachable hx
    have hworld : (coordinatorMachine params).Reachable x.1.1.1 :=
      Machine.Layer.base_reachable (Machine.Layer.base_reachable hx)
    have hbound := hfeeder.bound (World.roundInv_reachable hworld)
    have hgen := FeederLoop.generation_next hfeeder.history hbound x.1.1.1 x.1.1.2 d
    intro a hm
    rw [hsolver] at hm
    exact Nat.le_trans (h.current a hm) hgen

theorem readyInv_next (hx : (feederMachine params).Reachable x.1)
    (h : ReadyInv descriptor account x) {e : ReadinessEvent}
    (ha : (readinessMachine params descriptor account).allowed x e) :
    ReadyInv descriptor account ((readinessMachine params descriptor account).next x e) := by
  obtain ⟨hg, hbase⟩ := ha
  cases e with
  | prepare funding registrations snapshot descriptors =>
    have hgrows : x.2.Grows (x.2.runStartupPrepare descriptor account funding registrations
        snapshot descriptors) :=
      Readiness.grows_runStartupPrepare funding registrations snapshot descriptors
    refine ⟨h.gates.mono hgrows.registration hgrows.descriptor,
      h.latches.runStartupPrepare funding registrations snapshot descriptors, ?_⟩
    intro a hm
    change a ∈ (x.2.runStartupPrepare descriptor account funding registrations snapshot
      descriptors).solverAttempted at hm
    rw [Readiness.solverAttempted_runStartupPrepare] at hm
    exact h.current a hm
  | registerMiner answers =>
    apply h.feeder hx (hbase _ rfl) (Readiness.grows_registerRoundMiner answers)
      (h.latches.registerRoundMiner answers) rfl
    intro walk hw result hresult hne
    have hmachine := hg.2.machine_eq hw
    constructor
    · intro _
      by_contra hset
      rw [if_neg hset] at hresult
      cases hresult
      exact hne rfl
    · intro hfiled
      rw [hmachine] at hfiled
      cases hfiled
  | abandon errors =>
    obtain ⟨-, -, hset, -⟩ := hg
    refine h.feeder hx (hbase _ rfl) ⟨?_, id⟩ (h.latches.abandon hset errors) rfl ?_
    · intro htrue
      rw [hset] at htrue
      cases htrue
    · intro walk hw result hresult
      cases hresult
  | fileDescriptor answers =>
    apply h.feeder hx (hbase _ rfl) (Readiness.grows_fileRoundDescriptor answers)
      (h.latches.fileRoundDescriptor answers)
      (Readiness.solverAttempted_fileRoundDescriptor answers)
    intro walk hw result hresult hne
    have hmachine := hg.2.machine_eq hw
    constructor
    · intro hregistered
      rw [hmachine] at hregistered
      cases hregistered
    · intro _
      exact Readiness.filed_fileRoundDescriptor answers
  | registerSolver answer =>
    obtain ⟨-, -, hfresh⟩ := hg
    refine ⟨h.gates, h.latches.registerRoundSolver ?_ answer, ?_⟩
    · intro a hm
      apply Nat.lt_of_le_of_ne (h.current a hm)
      intro heq
      rw [heq] at hm
      exact hfresh hm
    · intro a hm
      cases hm
      exact Nat.le_refl _
  | feeder e =>
    obtain ⟨-, hstep, -⟩ := hg
    refine h.feeder hx (hbase _ rfl) ⟨id, id⟩ h.latches rfl ?_
    intro walk hw result hresult _
    obtain ⟨hregistered, hfiled⟩ := hstep (by rw [hresult]; rfl)
    exact ⟨fun heq => absurd ⟨walk, hw, heq⟩ hregistered, fun heq =>
      absurd ⟨walk, hw, heq⟩ hfiled⟩

theorem readyInv_reachable (h : (readinessMachine params descriptor account).Reachable x) :
    ReadyInv descriptor account x := by
  apply h.invariant (I := ReadyInv descriptor account) readyInv_init
  intro x e hx hi ha
  exact readyInv_next (Machine.Layer.base_reachable hx) hi ha

/-- Over the runs of a process: no registration is asked for after one that was answered, the
descriptor is filed at most three times with one payload and never after an answer, and each round
asks at most once to register the solver. A proof-of-work job is only ever staged once the chain has
told that the miner is registered and the descriptor was dealt with, an order only once the chain
has told that the solver is. -/
theorem readiness_gates_mining (params : FeederParams) (descriptor : DescriptorParams)
    (account : Bytes32) {x : ((World × Channels) × FeederLoop) × Readiness}
    (h : (readinessMachine params descriptor account).Reachable x) :
    EndsAccepted Except.isOk x.2.registration.log ∧
    x.2.descriptor.log.length ≤ submitAttempts ∧
    EndsAccepted (·.2.isOk) x.2.descriptor.log ∧
    (∀ entry ∈ x.2.descriptor.log, buildDescriptorPayload descriptor account = some entry.1) ∧
    EndsAccepted (·.2.isOk) x.2.solver.log ∧
    (x.2.solver.log.map (·.1)).Pairwise (· < ·) ∧
    ∀ e, (readinessMachine params descriptor account).allowed x e →
      (∀ job, World.Stages x.1.1.1
          ((readinessMachine params descriptor account).next x e).1.1.1 job →
        x.2.registration.log.any Except.isOk = true ∧ x.2.descriptor.set = true) ∧
      ∀ orders, e = .feeder (.stageMempoolOrders orders) →
        x.2.solver.log.any (·.2.isOk) = true := by
  have hinv := readyInv_reachable h
  obtain ⟨hregistration, hdescriptor, hpayload, hsolver, hattempts, -⟩ := hinv.latches
  refine ⟨hregistration.last, hdescriptor.bounded, hdescriptor.last, hpayload, hsolver.last,
    hattempts, ?_⟩
  intro e ha
  constructor
  · intro job hstage
    cases he : x.2.emit e with
    | none =>
      rw [Machine.Layer.machine_next_fst_none he] at hstage
      exact (World.not_stages hstage rfl fun _ _ hl => hl).elim
    | some d =>
      rw [Machine.Layer.machine_next_fst_some he] at hstage
      have hd := ha.2 d he
      obtain ⟨⟨plans, rfl⟩, -⟩ := stages_feeder params hd hstage
      obtain ⟨snap, hplace⟩ := FeederAt.exists_of_mined hd.1
      have hist := (feederInv_reachable (Machine.Layer.base_reachable h)).history
      have hworks : x.1.2.works = true := by rw [FeederLoop.works, hplace]
      have hround := (hist.settled hworks).2
      obtain ⟨hset, hfiled⟩ := hinv.gates.mined (by rw [hround]; exact Option.some_ne_none _)
      rw [hregistration.set_eq] at hset
      exact ⟨hset, hfiled⟩
  · intro orders heq
    rw [heq] at ha
    rw [← hsolver.set_eq]
    exact ha.1.2.2 rfl

end

namespace Sample

scoped instance ss58 : Ss58 := sampleSs58

def descriptorParams : DescriptorParams where
  nodeId := none
  nodeName := some "Tesla"
  publicHost := none
  publicPort := none
  autoMine := true
  logLevel := .info
  rpcEndpoints := []
  miners := [⟨.cpu, none, none, none⟩]
  systemInfo := none
  runtime := none

def firstMined : List ReadinessEvent :=
  [.prepare (.ok 5) (fun _ => .error (.unavailable "down")) (.ok none) fun _ => .ok .filed] ++
    (joined.map fun e => .feeder (.session e)) ++
    [.feeder (.poll (some snap) none), .feeder .stopMining, .feeder (.step .done),
      .feeder (.step .unconfirmed), .feeder (.step .done),
      .registerMiner (fun _ => .error (.unavailable "down")),
      .registerMiner (fun i => if i = 0 then .error (.unavailable "down") else .ok .registered),
      .feeder (.step (.downloaded snap)), .fileDescriptor (fun _ => .ok .filed), .feeder .finish,
      .feeder (.install none none)] ++ informed.map .feeder

end Sample

open Sample in
/-- Eight registrations were asked for before the first top-up, and the last was answered. -/
theorem readiness_gates_mining_first :
    let M := readinessMachine params descriptorParams Descriptor.sampleAccount
    let x := M.run M.init firstMined
    x.2.registration.log.length = 8 ∧ x.2.descriptor.log.length = 1 ∧
      x.2.registration.log.any Except.isOk = true := by
  intro M x
  have h : M.Reachable x := Machine.reachable_run firstMined (by decide +kernel)
  have hgate := readiness_gates_mining params descriptorParams Descriptor.sampleAccount h
  have ha : M.allowed x (.feeder (.topUp [⟨"a", 0, 1⟩])) := by decide +kernel
  have hd : ∃ d ∈ ((M.next x (.feeder (.topUp [⟨"a", 0, 1⟩]))).1.1.1.drawn)[0]?,
      (M.next x (.feeder (.topUp [⟨"a", 0, 1⟩]))).1.1.1.drawn = x.1.1.1.drawn ++ [d] ∧
        d.job.isPow = true := by decide +kernel
  obtain ⟨d, -, hdrawn, hpow⟩ := hd
  obtain ⟨hstaged, -⟩ := hgate.2.2.2.2.2.2 _ ha
  refine ⟨by decide +kernel, by decide +kernel, ?_⟩
  exact (hstaged d.job ⟨hpow, Or.inr ⟨[d], hdrawn, d, List.mem_cons_self, rfl⟩⟩).1

end QuipCoordinator
