import QuipCoordinator.State

/-!
# What a miner session does under the lock

Each definition on `CoordinatorState` is one critical section of a session or
of a supervisor: the dispatcher's drain, the `Result`, `Reject`, `LeaseDone`
and `Capabilities` arms, and the requeue after a child exit. Between two of
them the session works on values it took out, such as a `PowOutcome`. A chain
error is a submit without an action.
-/

namespace QuipCoordinator
variable [Crates]
open Crates

inductive SubmitAction
  | success
  | retry
  | stopRoundStale
  | stopFatal
deriving DecidableEq

structure Proof where
  jobId : JobId
  bestEnergyMilli : Int
  diversityMilli : Nat
  nValid : Nat
  solutions : List SpinRow
  isPow : Bool
  orderId : Bytes
  generation : Nat
  salt : Bytes
  deviceAccessTimeUs : Nat
deriving DecidableEq

structure Taken where
  job : Option Job
  salt : Option Bytes32
  topo : ResolvedTopo
  best : Option Int
  gates : QualityGates
  generation : Nat
deriving DecidableEq

structure PowOutcome where
  minerId : MinerId
  job : Job
  jobId : JobId
  salt : Option Bytes32
  validated : Validated
  gates : QualityGates
  currentBestMilli : Option Int
  deviceAccessTimeUs : Nat
deriving DecidableEq

def maxOrderSolutions : Nat := 20

def Job.orderId (job : Job) : Bytes := job.provenance.elim [] (·.orderId)

namespace PowOutcome
omit [Crates]

def submits (o : PowOutcome) : Bool :=
  o.validated.accepted && beatsCurrent o.validated.bestEnergyMilli o.currentBestMilli

def proof (o : PowOutcome) : Proof where
  jobId := o.jobId
  bestEnergyMilli := o.validated.bestEnergyMilli
  diversityMilli := o.validated.diversityMilli
  nValid := o.validated.nValid
  solutions := o.validated.selectedSolutions
  isPow := o.job.isPow
  orderId := o.job.orderId
  generation := o.job.generation
  salt := o.salt.elim [] (·.toList)
  deviceAccessTimeUs := o.deviceAccessTimeUs

def candidate (o : PowOutcome) : Candidate where
  jobId := o.jobId
  salt := o.salt
  generation := o.job.generation
  bestEnergyMilli := o.validated.rawBestEnergyMilli
  diversityMilli := o.validated.diversityMilli
  nValid := o.validated.nValid
  solutions := o.validated.stashSolutions
  isPow := o.job.isPow
  orderId := o.job.orderId
  deviceAccessTimeUs := o.deviceAccessTimeUs
  submitted := false

end PowOutcome

def retainsForRetry (receipt : Option SubmitAction) : Bool :=
  receipt == none || receipt == some .retry

namespace CoordinatorState

omit [Crates] in
def drain (minerId : MinerId) (now : Nat) : Nat → CoordinatorState → CoordinatorState × List Job
  | 0, st => (st, [])
  | fuel + 1, st =>
    match st.router.nextJob minerId with
    | (router, none) => ({ st with router := router }, [])
    | (router, some job) =>
      let (st, jobs) :=
        drain minerId now fuel ({ st with router := router }.dispatchInflight minerId now job)
      (st, job :: jobs)

omit [Crates] in
/-- Every turn of the drain spends a credit, so the credits bound it. -/
def dispatchGranted (st : CoordinatorState) (minerId : MinerId) (credits now : Nat) :
    CoordinatorState × List Job :=
  let granted := { st with router := st.router.grantCredits minerId credits }
  drain minerId now (granted.router.creditsOf minerId) granted

omit [Crates] in
def takeResult (st : CoordinatorState) (minerId : MinerId) (jobId : JobId) :
    CoordinatorState × Taken :=
  let (st, job) := st.completeInflight jobId
  let st :=
    match job with
    | some job =>
      { st with router := st.router.recordCompletion minerId }.noteResult job.generation
    | none => st
  let (st, salt) := st.takeSalt jobId
  (st,
    { job := job
      salt := salt
      topo := st.resolvedTopo
      best := st.currentBestMilli
      gates := gatesFromTarget st.target
      generation := st.generation })

omit [Crates] in
/-- What a `Result` leaves: the entry and the salt are gone, and a job that was in flight counts
as completed. -/
theorem takeResult_eq (st : CoordinatorState) (minerId : MinerId) (jobId : JobId) :
    ∃ router mined, st.router.SameQueues router ∧ (st.takeResult minerId jobId).1 =
      { st with
        router := router
        inflightOwner := st.inflightOwner.erase jobId
        leaseIssuedAt := st.leaseIssuedAt.erase jobId
        inflight := st.inflight.erase jobId
        salts := st.salts.erase jobId
        minedGeneration := mined } := by
  cases hl : st.inflight.lookup jobId with
  | none =>
    refine ⟨st.router, st.minedGeneration, .refl _, ?_⟩
    simp only [takeResult, completeInflight, hl, takeSalt]
  | some job =>
    have hq := st.router.sameQueues_recordCompletion minerId
    simp only [takeResult, completeInflight, hl, takeSalt, noteResult]
    split_ifs
    · exact ⟨_, _, hq, rfl⟩
    · exact ⟨_, _, hq, rfl⟩

omit [Crates] in
theorem taken_eq (st : CoordinatorState) (minerId : MinerId) (jobId : JobId) :
    (st.takeResult minerId jobId).2 =
      { job := st.inflight.lookup jobId
        salt := st.salts.lookup jobId
        topo := st.resolvedTopo
        best := st.currentBestMilli
        gates := gatesFromTarget st.target
        generation := st.generation } := by
  cases hl : st.inflight.lookup jobId with
  | none => simp only [takeResult, completeInflight, hl, takeSalt]
  | some job =>
    simp only [takeResult, completeInflight, hl, takeSalt, noteResult]
    split_ifs <;> rfl

def leaseOutcome (st : CoordinatorState) (minerId : MinerId) (result : ResultFrame) :
    Option PowOutcome := do
  let job ← st.inflight.lookup result.jobId
  let generator ← job.generator
  let view ← st.leaseTopology
  let target ← st.target
  if result.solutions.isEmpty then none
  else
    let (verified, validated) ← verifyAndSelect generator view target result
    pure
      { minerId := minerId
        job := job
        jobId := verified.nonce.toList
        salt := some verified.salt
        validated := validated
        gates := gatesFromTarget (some target)
        currentBestMilli := st.currentBestMilli
        deviceAccessTimeUs := result.deviceAccessTimeUs }

omit [Crates] in
def recordBest (st : CoordinatorState) (energyMilli : Int) : CoordinatorState :=
  { st with currentBestMilli := some energyMilli }

def settle (st : CoordinatorState) (o : PowOutcome) (retain : Bool) : CoordinatorState :=
  let counted := { st with resultsValidated := st.resultsValidated + 1 }
  if !o.validated.accepted || retain then
    { counted with stash := (counted.stash.insert o.candidate).1 }
  else counted

omit [Crates] in
def rejectJob (st : CoordinatorState) (minerId : MinerId) (jobId : JobId) (reason : RejectReason) :
    CoordinatorState :=
  match st.completeInflight jobId with
  | (st, some job) =>
    { st with router := (st.router.recordCompletion minerId).onReject minerId job reason }
  | (st, none) => st

omit [Crates] in
def handleLeaseDone (st : CoordinatorState) (minerId : MinerId) (done : LeaseDone) :
    CoordinatorState :=
  let st := { st with router := st.router.recordLeaseSalts minerId done.saltsDone }
  match st.completeInflight done.jobId with
  | (st, some job) =>
    let st := { st with router := st.router.recordCompletion minerId }
    let st :=
      if job.generation = st.generation then
        { st with router := st.router.recordRoundSalts minerId done.saltsDone }
      else st
    if 0 < done.saltsDone then st.noteResult job.generation else st
  | (st, none) => st

omit [Crates] in
theorem handleLeaseDone_eq (st : CoordinatorState) (minerId : MinerId) (done : LeaseDone) :
    ∃ router mined, st.router.SameQueues router ∧ st.handleLeaseDone minerId done =
      { st with
        router := router
        inflightOwner := st.inflightOwner.erase done.jobId
        leaseIssuedAt := st.leaseIssuedAt.erase done.jobId
        inflight := st.inflight.erase done.jobId
        minedGeneration := mined } := by
  have hs := st.router.sameQueues_recordLeaseSalts minerId done.saltsDone
  cases hl : st.inflight.lookup done.jobId with
  | none =>
    refine ⟨_, st.minedGeneration, hs, ?_⟩
    simp only [handleLeaseDone, completeInflight, hl]
  | some job =>
    have hc := hs.trans (Router.sameQueues_recordCompletion _ minerId)
    have hr := hc.trans (Router.sameQueues_recordRoundSalts _ minerId done.saltsDone)
    by_cases hg : job.generation = st.generation
    · refine ⟨_, if 0 < done.saltsDone then some job.generation else st.minedGeneration, hr, ?_⟩
      simp only [handleLeaseDone, completeInflight, hl, noteResult, if_pos hg]
      split_ifs <;> rfl
    · refine ⟨_, st.minedGeneration, hc, ?_⟩
      simp only [handleLeaseDone, completeInflight, hl, noteResult, if_neg hg, ite_self]

def applyCapabilities (st : CoordinatorState) (minerId : MinerId) (caps : Capabilities) :
    CoordinatorState × Bool :=
  if caps.protocolVersion ≠ protocolVersion then (st, false)
  else
    let (router, known) := st.router.updateCapabilities minerId (.fromCapabilities caps)
    ({ st with router := router }, known)

omit [Crates] in
def childExit (st : CoordinatorState) (minerId : MinerId) (owned : List JobId) :
    CoordinatorState :=
  let (st, jobs) := st.reclaimMiner minerId owned
  { st with router := jobs.foldl (fun r job => (r.route job).1) st.router }

omit [Crates] in
def forgetOrder (st : CoordinatorState) (jobId : JobId) : CoordinatorState :=
  { st with mempoolOrders := st.mempoolOrders.erase jobId }

end CoordinatorState

/-- The outcome of the plain path: none for an unknown job, a mempool order or a job without a
problem. -/
def plainOutcome (taken : Taken) (minerId : MinerId) (result : ResultFrame) : Option PowOutcome := do
  let job ← taken.job
  if job.isOrder then none
  else
    let ising ← job.ising
    pure
      { minerId := minerId
        job := job
        jobId := result.jobId
        salt := taken.salt
        validated := validateResult ising result.solutions taken.gates taken.topo
        gates := taken.gates
        currentBestMilli := taken.best
        deviceAccessTimeUs := result.deviceAccessTimeUs }

/-- The answer to a mempool order whose result clears the gates staged with it. -/
def orderProof (gates : Option QualityGates) (job : Job) (result : ResultFrame) : Option Proof := do
  let ising ← job.ising
  let gates ← gates
  let validated := validateResult ising result.solutions gates ⟨[]⟩
  if validated.accepted then
    pure
      { jobId := job.jobId
        bestEnergyMilli := validated.bestEnergyMilli
        diversityMilli := validated.diversityMilli
        nValid := validated.nValid
        solutions := validated.selectedSolutions.take maxOrderSolutions
        isPow := false
        orderId := job.orderId
        generation := 0
        salt := []
        deviceAccessTimeUs := result.deviceAccessTimeUs }
  else none

end QuipCoordinator
