import QuipCoordinator.RouterCredits
import QuipCoordinator.Stash

/-!
# The coordinator state

The fields the miner sessions, the feeder and the supervisors share under one
lock, with the methods that keep the in-flight ledger. A channel is named by
the number of its session. The order in which a hash map yields its entries is
explicit where the result depends on it: `reclaimMiner` takes the ids in the
order it met them. Instants are natural numbers. Metrics, liveness, tokens and
the attempt log do not influence any field below and are left out.
-/

namespace QuipCoordinator
variable [Crates]
open Crates

abbrev SessionId := Nat

structure CoordinatorState where
  topology : Option Topology
  leaseTopology : Option WireTopology
  resolvedTopo : ResolvedTopo
  target : Option SetTarget
  router : Router
  inflight : Table JobId Job
  inflightOwner : Table JobId MinerId
  leaseIssuedAt : Table JobId Nat
  outbound : Table MinerId SessionId
  wakeups : Table MinerId SessionId
  salts : Table JobId Bytes32
  currentBestMilli : Option Int
  resultsValidated : Nat
  qblockId : Option Nat
  stash : WinStash
  generation : Nat
  minedGeneration : Option Nat
  mempoolOrders : Table JobId QualityGates
deriving DecidableEq

namespace CoordinatorState

omit [Crates] in
def new : CoordinatorState where
  topology := none
  leaseTopology := none
  resolvedTopo := ⟨[]⟩
  target := none
  router := .new
  inflight := ∅
  inflightOwner := ∅
  leaseIssuedAt := ∅
  outbound := ∅
  wakeups := ∅
  salts := ∅
  currentBestMilli := none
  resultsValidated := 0
  qblockId := none
  stash := .new winStashK
  generation := 0
  minedGeneration := none
  mempoolOrders := ∅

/-- The dense view a topology message decodes to, when it decodes. -/
def topologyView (t : Topology) : Option WireTopology :=
  if topologyViewOk t.toProto then some t.toProto else none

def setTopology (st : CoordinatorState) (topology : Option Topology) : CoordinatorState :=
  { st with
    router := st.router.setTopology topology
    leaseTopology := topology.bind topologyView
    resolvedTopo := topology.elim ⟨[]⟩ fun t => .new t.nodes t.edgePairs
    topology := topology }

omit [Crates]

def recordSalt (st : CoordinatorState) (jobId : JobId) (salt : Bytes32) : CoordinatorState :=
  { st with salts := st.salts.insert jobId salt }

def takeSalt (st : CoordinatorState) (jobId : JobId) : CoordinatorState × Option Bytes32 :=
  ({ st with salts := st.salts.erase jobId }, st.salts.lookup jobId)

def clearSalts (st : CoordinatorState) : CoordinatorState := { st with salts := ∅ }

def dispatchInflight (st : CoordinatorState) (minerId : MinerId) (now : Nat) (job : Job) :
    CoordinatorState :=
  { st with
    inflightOwner := st.inflightOwner.insert job.jobId minerId
    leaseIssuedAt :=
      if job.isLease then st.leaseIssuedAt.insert job.jobId now else st.leaseIssuedAt
    inflight := st.inflight.insert job.jobId job }

def completeInflight (st : CoordinatorState) (jobId : JobId) : CoordinatorState × Option Job :=
  ({ st with
      inflightOwner := st.inflightOwner.erase jobId
      leaseIssuedAt := st.leaseIssuedAt.erase jobId
      inflight := st.inflight.erase jobId },
    st.inflight.lookup jobId)

def cancelled (st : CoordinatorState) (maxGeneration : Nat) : Finset JobId :=
  (st.inflight.filter fun _ job => !Router.keepsUnder maxGeneration job).keys

def cancelInflight (st : CoordinatorState) (maxGeneration : Nat) : CoordinatorState × Nat :=
  let ids := st.cancelled maxGeneration
  -- each id is completed in turn
  ({ st with
      inflightOwner := st.inflightOwner.filter fun id _ => decide (id ∉ ids)
      leaseIssuedAt := st.leaseIssuedAt.filter fun id _ => decide (id ∉ ids)
      inflight := st.inflight.filter fun id _ => decide (id ∉ ids) },
    ids.card)

def noteResult (st : CoordinatorState) (jobGeneration : Nat) : CoordinatorState :=
  if jobGeneration = st.generation then { st with minedGeneration := some jobGeneration } else st

def roundMined (st : CoordinatorState) : Bool := st.minedGeneration == some st.generation

/-- `owned` lists the ids that `minerId` owns, in the order the map yields them. -/
def Owned (st : CoordinatorState) (minerId : MinerId) (owned : List JobId) : Prop :=
  owned.Nodup ∧ owned.toFinset = (st.inflightOwner.filter fun _ m => m == minerId).keys

instance (st : CoordinatorState) (minerId : MinerId) (owned : List JobId) :
    Decidable (st.Owned minerId owned) := inferInstanceAs (Decidable (_ ∧ _))

theorem Owned.mem_iff {st : CoordinatorState} {minerId : MinerId} {owned : List JobId}
    (h : st.Owned minerId owned) (id : JobId) :
    id ∈ owned ↔ st.inflightOwner.lookup id = some minerId := by
  rw [← List.mem_toFinset, h.2, Finmap.mem_keys, Finmap.mem_iff]
  simp only [Finmap.lookup_filter_eq_some, beq_iff_eq]
  constructor
  · intro hex
    obtain ⟨m, hl, rfl⟩ := hex
    exact hl
  · intro hl
    exact ⟨minerId, hl, rfl⟩

def reclaimInflight (acc : CoordinatorState × List Job) (jobId : JobId) :
    CoordinatorState × List Job :=
  let (st, job) := acc.1.completeInflight jobId
  (st, acc.2 ++ job.toList)

def reclaimMiner (st : CoordinatorState) (minerId : MinerId) (owned : List JobId) :
    CoordinatorState × List Job :=
  let (st, jobs) := owned.foldl reclaimInflight (st, [])
  let (router, staged) := st.router.reclaim minerId
  ({ st with router := router, outbound := st.outbound.erase minerId }, jobs ++ staged)

def registerOutbound (st : CoordinatorState) (minerId : MinerId) (tx : SessionId) :
    CoordinatorState :=
  { st with outbound := st.outbound.insert minerId tx }

def registerWakeup (st : CoordinatorState) (minerId : MinerId) (grants : SessionId) :
    CoordinatorState :=
  { st with wakeups := st.wakeups.insert minerId grants }

def deregisterOutbound (st : CoordinatorState) (minerId : MinerId) : CoordinatorState :=
  { st with outbound := st.outbound.erase minerId, wakeups := st.wakeups.erase minerId }

def registerMiner (st : CoordinatorState) (minerId : MinerId) (caps : MinerCaps) :
    CoordinatorState :=
  { st with router := st.router.registerMiner minerId caps }

end CoordinatorState
end QuipCoordinator
