import QuipCoordinator.Session

/-!
# What the feeder does under the lock

`stopMining` enters a generation, `reseed` installs the requirements of a round,
`topUp` fills the queues from the polled snapshot, and `stageMempoolOrders`
routes the open orders. The measured rates are floating point: a top-up is given
the window and the lease size it computed for each miner. `drawn` records each
staged proof-of-work job with the snapshot it was drawn from.
-/

namespace QuipCoordinator
variable [Crates]
open Crates

inductive RoundState
  | stopMining
  | validatorSynced
  | accountFunded
  | minerRegistered
  | requirementsDownloaded
  | descriptorFiled
  | startMining
  | awaitingQBlock
deriving DecidableEq

inductive RoundEvent
  | succeeded
  | failed
  | newHead
  | shutdown
  | winPending
  | resume
deriving DecidableEq

namespace RoundState

def start : RoundState := .stopMining

def transition (s : RoundState) : RoundEvent → Option RoundState
  | .shutdown => none
  | .newHead => some .stopMining
  | .failed => some s
  | .winPending => some (if s = .startMining then .awaitingQBlock else s)
  | .resume => some (if s = .awaitingQBlock then .stopMining else s)
  | .succeeded =>
    match s with
    | .stopMining => some .validatorSynced
    | .validatorSynced => some .accountFunded
    | .accountFunded => some .minerRegistered
    | .minerRegistered => some .requirementsDownloaded
    | .requirementsDownloaded => some .descriptorFiled
    | .descriptorFiled => some .startMining
    | .startMining => some .startMining
    | .awaitingQBlock => some .awaitingQBlock

end RoundState

def leaseStageDepth : Nat := 2
def maxStageBytesPerMiner : Nat := 64 * 1024 * 1024

def estJobBytes (numNodes numEdges : Nat) : Nat :=
  max (min (4 * min (numNodes + numEdges) (2 ^ 64 - 1)) (2 ^ 64 - 1)) 1

def stageCeiling (numNodes numEdges floor : Nat) : Nat :=
  max floor (maxStageBytesPerMiner / estJobBytes numNodes numEdges)

def targetFromSnapshot (snap : MiningSnapshot) : SetTarget where
  maxProofSolutions := maxProofSolutions
  maxEnergyMilli := snap.maxEnergyMilli
  minSolutions := snap.minSolutions
  minDiversityMilli := snap.minDiversityMilli
  numReads := 0
  numSweeps := 0
  annealTimeUs := 0

def topologyFromSnapshot (snap : MiningSnapshot) : Topology :=
  .fromNodesEdges snap.nodes snap.edges snap.allowedHMilli snap.allowedJMilli snap.allowedSpinMilli

structure DecayParams where
  baseMaxEnergyMilli : Int
  cEasyMilli : Nat
  cKneeMilli : Nat
  cHardMilli : Nat
  epochLength : Nat
  lastProofBlock : Nat
deriving DecidableEq

def decayModel (snap : MiningSnapshot) (dp : DecayParams) : DecayModel :=
  let bounds := curveBounds snap.nodes.length snap.edges.length dp.cEasyMilli dp.cKneeMilli
    dp.cHardMilli snap.allowedHMilli snap.allowedJMilli
  { baseMaxEnergyMilli := dp.baseMaxEnergyMilli
    curve := some ⟨bounds.1, bounds.2.1, bounds.2.2⟩
    epochLength := dp.epochLength
    algorithm := .forSpecVersion snap.specVersion }

structure Draw where
  job : Job
  snap : MiningSnapshot
deriving DecidableEq

/-- The state under the lock with the feeder's counters and the record of its draws. -/
structure Staging where
  coord : CoordinatorState
  generation : Nat
  saltCtr : Nat
  drawn : List Draw
deriving DecidableEq

/-- The constants of the feeder: the nonce input and the floor of the staging window. -/
structure FeederParams where
  minerIdentity : Bytes32
  bufferDepth : Nat
deriving DecidableEq

/-- What a top-up computed for one miner: the drain-rate window and the lease size. -/
structure Plan where
  minerId : MinerId
  window : Nat
  leaseSalts : Nat
deriving DecidableEq

namespace CoordinatorState

omit [Crates] in
def stopMining (st : CoordinatorState) (generation : Nat) : CoordinatorState × Nat :=
  let st :=
    { st with
      generation := generation
      currentBestMilli := none
      stash := st.stash.reset generation none 0 }
  let (router, dropped) := st.router.cancel (generation - 1)
  let st := ({ st with router := router }.cancelInflight (generation - 1)).1.clearSalts
  ({ st with router := st.router.resetRoundSalts }, dropped)

def reseed (st : CoordinatorState) (generation : Nat) (snap : MiningSnapshot)
    (qblockId : Option Nat) (decay : Option DecayParams) : CoordinatorState :=
  let st := st.setTopology (some (topologyFromSnapshot snap))
  -- the decay read needs a 32-byte hash
  let decay := if snap.topologyHash.length = 32 then decay else none
  { st with
    target := some (targetFromSnapshot snap)
    qblockId := qblockId
    stash := st.stash.reset generation (decay.map (decayModel snap))
      (decay.elim 0 (·.lastProofBlock)) }

def stageOrder (st : CoordinatorState) (order : JobOrder) : CoordinatorState :=
  if order.orderId ∈ st.mempoolOrders then st
  else
    let st := { st with mempoolOrders := st.mempoolOrders.insert order.orderId (orderGates order) }
    match jobOrderToJob order with
    | none => st
    | some job => { st with router := (st.router.route job).1 }

def stageMempoolOrders (st : CoordinatorState) (orders : List JobOrder) : CoordinatorState :=
  orders.foldl stageOrder st

def orderMiner (st : CoordinatorState) (order : JobOrder) : Option MinerId :=
  if order.orderId ∈ st.mempoolOrders then none
  else (jobOrderToJob order).bind fun job => (st.router.route job).2

def orderMiners : List JobOrder → CoordinatorState → List MinerId
  | [], _ => []
  | order :: orders, st => (st.orderMiner order).toList ++ orderMiners orders (st.stageOrder order)

omit [Crates] in
def winSuccess (st : CoordinatorState) (cand : Candidate) : CoordinatorState :=
  { st with stash := st.stash.markSubmitted cand.jobId }.recordBest cand.bestEnergyMilli

omit [Crates] in
def markSubmitted (st : CoordinatorState) (jobId : JobId) : CoordinatorState :=
  { st with stash := st.stash.markSubmitted jobId }

end CoordinatorState

namespace Staging

omit [Crates] in
def stageLeases (params : FeederParams) (snap : MiningSnapshot) (plan : Plan) :
    Nat → Staging → Staging
  | 0, s => s
  | fuel + 1, s =>
    if s.coord.router.stagedLen plan.minerId < leaseStageDepth then
      let saltStart := satAdd 64 s.saltCtr 1
      let job :=
        buildLeaseJob snap params.minerIdentity saltStart plan.leaseSalts s.generation
      match s.coord.router.stageOn plan.minerId job with
      | (_, false) => s
      | (router, true) =>
        stageLeases params snap plan fuel
          { s with
            coord := { s.coord with router := router }
            saltCtr := satAdd 64 saltStart (plan.leaseSalts - 1)
            drawn := s.drawn ++ [⟨job, snap⟩] }
    else s

def stagePlain (params : FeederParams) (snap : MiningSnapshot) (plan : Plan) (depth : Nat) :
    Nat → Staging → Staging
  | 0, s => s
  | fuel + 1, s =>
    if s.coord.router.stagedLen plan.minerId < depth then
      let saltCtr := satAdd 64 s.saltCtr 1
      let salt := saltFromCounter saltCtr
      match derivePowJob snap params.minerIdentity salt s.generation 0 with
      | none => { s with saltCtr := saltCtr }
      | some job =>
        match s.coord.router.stageOn plan.minerId job with
        | (_, false) => { s with saltCtr := saltCtr }
        | (router, true) =>
          stagePlain params snap plan depth fuel
            { s with
              coord := { s.coord with router := router }.recordSalt job.jobId salt
              saltCtr := saltCtr
              drawn := s.drawn ++ [⟨job, snap⟩] }
    else s

omit [Crates] in
def acceptsLeases (s : Staging) (minerId : MinerId) : Bool :=
  (s.coord.router.miners.lookup minerId).any fun q => q.caps.acceptsLeases

def topUpMiner (params : FeederParams) (snap : MiningSnapshot) (s : Staging) (plan : Plan) :
    Staging :=
  let router := (s.coord.router.takeConsumed plan.minerId).1
  let s := { s with coord := { s.coord with router := router } }
  if s.acceptsLeases plan.minerId then
    let router := (s.coord.router.takeLeaseSalts plan.minerId).1
    stageLeases params snap plan leaseStageDepth
      { s with coord := { s.coord with router := router } }
  else
    let depth := min (max params.bufferDepth plan.window)
      (stageCeiling snap.nodes.length snap.edges.length params.bufferDepth)
    stagePlain params snap plan depth depth s

def topUp (params : FeederParams) (snap : MiningSnapshot) (plans : List Plan) (s : Staging) :
    Staging :=
  let coord :=
    { s.coord with
      target := some (targetFromSnapshot snap)
      stash := s.coord.stash.setAlgorithm (.forSpecVersion snap.specVersion) }
  plans.foldl (topUpMiner params snap) { s with coord := coord }

end Staging
end QuipCoordinator
