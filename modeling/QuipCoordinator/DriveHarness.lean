import QuipCoordinator.FoundationMachine
import QuipCoordinator.Session

/-!
# The drive harness

`DriveRun` is what the tasks of a drive share: the list that is not staged yet, the
coordinator state, the rows of the report, and the results whose task has not taken
its job or has not recorded its row. A frame is handled by the read loop of the
session, a grant by its dispatcher, and each result of a plain job by a task of its
own. A miner that disconnected may connect again. `Fatal` ends the session and is
left out, and so is the span of the run.
-/

namespace QuipCoordinator

structure JobRow where
  jobId : JobId
  isPow : Bool
  nSolutions : Nat
  bestEnergyMilli : Int
  rawBestEnergyMilli : Int
  diversityMilli : Nat
  passed : Bool
  deviceAccessTimeUs : Nat
  wallMs : Nat
  reads : Nat
  sweeps : Nat
  rejected : Bool
  saltsDone : Nat
  winners : Nat
deriving DecidableEq

def failingRow (jobId : JobId) (isPow : Bool) (wallMs : Nat) : JobRow where
  jobId := jobId
  isPow := isPow
  nSolutions := 0
  bestEnergyMilli := i64Max
  rawBestEnergyMilli := i64Max
  diversityMilli := 0
  passed := false
  deviceAccessTimeUs := 0
  wallMs := wallMs
  reads := 0
  sweeps := 0
  rejected := true
  saltsDone := 0
  winners := 0

/-- A `Result` with the settings in its metadata, 0 without. -/
structure DriveResult extends ResultFrame where
  reads : Nat
  sweeps : Nat
deriving DecidableEq

structure DriveLeaseDone extends LeaseDone where
  bestEnergyMilli : Int
deriving DecidableEq

inductive DriveFrame
  | ready
  | jobRequest (credits : Nat)
  | capabilities (caps : Capabilities)
  | result (r : DriveResult)
  | leaseDone (done : DriveLeaseDone)
  | reject (jobId : JobId)
  | other
deriving DecidableEq

structure Validation where
  isPow : Bool
  ising : IsingProblem
  result : DriveResult
  gates : QualityGates
  topo : ResolvedTopo
deriving DecidableEq

structure DriveParams where
  minerId : MinerId
  queueDepth : Nat
  topology : Option Topology
  target : Option SetTarget
deriving DecidableEq

structure DriveRun where
  jobs : List Job
  coord : CoordinatorState
  rows : List JobRow
  dispatchAt : Table JobId Nat
  leaseWinners : Table JobId Nat
  total : Nat
  grants : List Nat
  spawned : List DriveResult
  validating : List Validation
  reading : Bool
  shutdown : Bool
deriving DecidableEq

namespace DriveRun

def withRouter (s : DriveRun) (router : Router) : DriveRun :=
  { s with coord := { s.coord with router := router } }

def noteDispatch (s : DriveRun) (jobId : JobId) (now : Nat) : DriveRun :=
  { s with dispatchAt := s.dispatchAt.insert jobId now }

def wallMsSinceDispatch (s : DriveRun) (jobId : JobId) (now : Nat) : DriveRun × Nat :=
  ({ s with dispatchAt := s.dispatchAt.erase jobId },
    (s.dispatchAt.lookup jobId).elim 0 fun at_ => now - at_)

def record (s : DriveRun) (row : JobRow) : DriveRun := { s with rows := s.rows ++ [row] }

def recordUnroutable (s : DriveRun) : DriveRun :=
  { s.withRouter { s.coord.router with unroutable := [] } with
    rows := s.rows ++ s.coord.router.unroutable.map fun job => failingRow job.jobId job.isPow 0 }

def isComplete (s : DriveRun) : Bool := decide (s.total ≤ s.rows.length)

def checkComplete (s : DriveRun) : DriveRun :=
  if s.isComplete then { s with shutdown := true } else s

/-- The check of the read loop, which ends with a complete run. -/
def checkLoop (s : DriveRun) : DriveRun :=
  if s.isComplete then { s with shutdown := true, reading := false } else s

def handshake (p : DriveParams) (s : DriveRun) (caps : Capabilities) : DriveRun :=
  let registered := s.coord.router.registerMiner p.minerId (.fromCapabilities caps)
  let staged := s.withRouter (s.jobs.foldl (fun r job => (r.route job).1) registered)
  { staged with jobs := [], grants := [], reading := true }.recordUnroutable.checkLoop

def dispatch (s : DriveRun) (job : Job) (now : Nat) : DriveRun :=
  { s.noteDispatch job.jobId now with
    coord := { s.coord with inflight := s.coord.inflight.insert job.jobId job } }

def drain (p : DriveParams) (now : Nat) : Nat → DriveRun → DriveRun × List Job
  | 0, s => (s, [])
  | fuel + 1, s =>
    match s.coord.router.nextJob p.minerId with
    | (router, none) => (s.withRouter router, [])
    | (router, some job) =>
      let (s, jobs) := drain p now fuel ((s.withRouter router).dispatch job now)
      (s, job :: jobs)

/-- Every turn of the drain spends a credit, so the credits bound it. -/
def dispatchJobs (p : DriveParams) (s : DriveRun) (credits now : Nat) : DriveRun × List Job :=
  let granted := s.withRouter (s.coord.router.grantCredits p.minerId credits)
  drain p now (granted.coord.router.creditsOf p.minerId) granted

def takeInflight (s : DriveRun) (jobId : JobId) : DriveRun × Option Job :=
  ({ s with coord := { s.coord with inflight := s.coord.inflight.erase jobId } },
    s.coord.inflight.lookup jobId)

/-- What `handle_result` does under the lock. Without a job to score its task ends here. -/
def takeResult (s : DriveRun) (result : DriveResult) : DriveRun :=
  let (s, job) := s.takeInflight result.jobId
  match job.bind fun job => job.ising.map fun ising => (job.isPow, ising) with
  | none => s.checkComplete
  | some (isPow, ising) =>
    { s with
      validating := s.validating ++
        [⟨isPow, ising, result, gatesFromTarget s.coord.target, s.coord.resolvedTopo⟩] }

def handleLeaseDone (s : DriveRun) (done : DriveLeaseDone) (now : Nat) : DriveRun :=
  match s.takeInflight done.jobId with
  | (s, none) => s
  | (s, some _) =>
    let winners := (s.leaseWinners.lookup done.jobId).getD 0
    let (s, wallMs) :=
      { s with leaseWinners := s.leaseWinners.erase done.jobId }.wallMsSinceDispatch done.jobId now
    s.record
      { jobId := done.jobId
        isPow := true
        nSolutions := 0
        bestEnergyMilli := done.bestEnergyMilli
        rawBestEnergyMilli := done.bestEnergyMilli
        diversityMilli := 0
        passed := decide (0 < winners)
        deviceAccessTimeUs := 0
        wallMs := wallMs
        reads := 0
        sweeps := 0
        rejected := false
        saltsDone := done.saltsDone
        winners := winners }

def handleReject (s : DriveRun) (jobId : JobId) (now : Nat) : DriveRun :=
  let (s, job) := s.takeInflight jobId
  let (s, wallMs) := s.wallMsSinceDispatch jobId now
  s.record (failingRow jobId (job.any (·.isPow)) wallMs)

def grantChannelDepth : Nat := 1024

def grant (s : DriveRun) (credits : Nat) : DriveRun := { s with grants := s.grants ++ [credits] }

def wakeDispatcher (s : DriveRun) : DriveRun :=
  if s.grants.length < grantChannelDepth then s.grant 0 else s

section
variable [Crates]
open Crates

def init (p : DriveParams) (jobs : List Job) : DriveRun where
  jobs := jobs
  coord := { CoordinatorState.new.setTopology p.topology with target := p.target }
  rows := []
  dispatchAt := ∅
  leaseWinners := ∅
  total := jobs.length
  grants := []
  spawned := []
  validating := []
  reading := false
  shutdown := false

def recordResult (s : DriveRun) (v : Validation) (now : Nat) : DriveRun :=
  let validated := validateResult v.ising v.result.solutions v.gates v.topo
  let (s, wallMs) := s.wallMsSinceDispatch v.result.jobId now
  s.record
    { jobId := v.result.jobId
      isPow := v.isPow
      nSolutions := v.result.solutions.length
      bestEnergyMilli := validated.bestEnergyMilli
      rawBestEnergyMilli := validated.rawBestEnergyMilli
      diversityMilli := validated.diversityMilli
      passed := validated.accepted
      deviceAccessTimeUs := v.result.deviceAccessTimeUs
      wallMs := wallMs
      reads := v.result.reads
      sweeps := v.result.sweeps
      rejected := false
      saltsDone := 1
      winners := if validated.accepted then 1 else 0 }

def isWinner (s : DriveRun) (result : DriveResult) : Bool :=
  Option.isSome do
    let job ← s.coord.inflight.lookup result.jobId
    let generator ← job.generator
    let view ← s.coord.leaseTopology
    let target ← s.coord.target
    let (_, validated) ← verifyAndSelect generator view target result.toResultFrame
    if validated.accepted then some () else none

def handleLeaseResult (s : DriveRun) (result : DriveResult) : DriveRun :=
  if s.isWinner result then
    { s with
      leaseWinners := s.leaseWinners.insert result.jobId
        ((s.leaseWinners.lookup result.jobId).getD 0 + 1) }
  else s

def handleMessage (p : DriveParams) (s : DriveRun) (now : Nat) : DriveFrame → DriveRun
  | .ready => s.grant (max p.queueDepth 1)
  | .jobRequest credits => s.grant credits
  | .capabilities caps =>
    let (coord, applied) := s.coord.applyCapabilities p.minerId caps
    if applied then ({ s with coord := coord }).wakeDispatcher.recordUnroutable else s
  | .result r =>
    if (s.coord.inflight.lookup r.jobId).any (·.isLease) then s.handleLeaseResult r
    else { s with spawned := s.spawned ++ [r] }
  | .leaseDone done => (s.handleLeaseDone done now).checkComplete
  | .reject jobId => s.handleReject jobId now
  | .other => s

end
end DriveRun

inductive DriveEvent
  | hello (caps : Capabilities)
  | frame (f : DriveFrame) (now : Nat)
  | dispatch (now : Nat)
  | take (r : DriveResult)
  | finish (v : Validation) (now : Nat)
  | hangUp
deriving DecidableEq

def DriveFrame.grants : DriveFrame → Bool
  | .ready | .jobRequest _ => true
  | _ => false

variable [Crates]
open Crates

namespace DriveRun

def Guard (s : DriveRun) : DriveEvent → Prop
  | .hello caps => s.reading = false ∧ caps.protocolVersion = protocolVersion
  | .frame f _ => s.reading = true ∧ (f.grants = true → s.grants.length < grantChannelDepth)
  | .dispatch _ => s.grants ≠ []
  | .take r => r ∈ s.spawned
  | .finish v _ => v ∈ s.validating
  | .hangUp => s.reading = true

instance (s : DriveRun) : (e : DriveEvent) → Decidable (s.Guard e)
  | .hello _ | .frame _ _ => inferInstanceAs (Decidable (_ ∧ _))
  | .dispatch _ => inferInstanceAs (Decidable (s.grants ≠ []))
  | .take _ | .finish _ _ => inferInstanceAs (Decidable (_ ∈ _))
  | .hangUp => inferInstanceAs (Decidable (s.reading = true))

def next (p : DriveParams) (s : DriveRun) : DriveEvent → DriveRun
  | .hello caps => s.handshake p caps
  | .frame f now => (s.handleMessage p now f).checkLoop
  | .dispatch now =>
    ({ s with grants := s.grants.tail }.dispatchJobs p (s.grants.headD 0) now).1
  | .take r => { s with spawned := s.spawned.erase r }.takeResult r
  | .finish v now =>
    ({ s with validating := s.validating.erase v }.recordResult v now).checkComplete
  | .hangUp => { s with reading := false }

end DriveRun

def driveMachine (p : DriveParams) (jobs : List Job) : Machine DriveRun DriveEvent where
  init := .init p jobs
  allowed := DriveRun.Guard
  next := DriveRun.next p

instance (p : DriveParams) (jobs : List Job) (s : DriveRun) (e : DriveEvent) :
    Decidable ((driveMachine p jobs).allowed s e) := inferInstanceAs (Decidable (s.Guard e))

end QuipCoordinator
