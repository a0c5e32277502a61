import QuipCoordinator.FoundationMachine
import QuipCoordinator.LiveJobs

/-!
# The critical sections of the coordinator

The machine of every order in which the tasks can take the lock. A `Section` is
what one task does while it holds the lock: frames of any miner may name any job
at any time. `seed` is the snapshot the current round was seeded from, none
while the miners are stopped: the feeder stages only from a snapshot with the
seed's last proof block hash. An order id has the 8 bytes of its storage key.
-/

namespace QuipCoordinator
variable [Crates]

structure World extends Staging where
  seed : Option MiningSnapshot
deriving DecidableEq

inductive Section
  | registerMiner (minerId : MinerId) (caps : MinerCaps)
  | registerOutbound (minerId : MinerId) (tx : SessionId)
  | registerWakeup (minerId : MinerId) (grants : SessionId)
  | deregisterOutbound (minerId : MinerId)
  | applyCapabilities (minerId : MinerId) (caps : Capabilities)
  | dispatchGranted (minerId : MinerId) (credits now : Nat)
  | takeResult (minerId : MinerId) (jobId : JobId)
  | noteResult (jobGeneration : Nat)
  | recordBest (energyMilli : Int)
  | settle (o : PowOutcome) (retain : Bool)
  | rejectJob (minerId : MinerId) (jobId : JobId) (reason : RejectReason)
  | handleLeaseDone (minerId : MinerId) (done : LeaseDone)
  | childExit (minerId : MinerId) (owned : List JobId)
  | forgetOrder (jobId : JobId)
  | stopMining
  | reseed (snap : MiningSnapshot) (qblockId : Option Nat) (decay : Option DecayParams)
  | topUp (snap : MiningSnapshot) (plans : List Plan)
  | stageMempoolOrders (orders : List JobOrder)
  | winSuccess (cand : Candidate)
  | markSubmitted (jobId : JobId)
deriving DecidableEq

namespace World

omit [Crates] in
def init : World := ⟨⟨.new, 0, 0, []⟩, none⟩

omit [Crates] in
def update (w : World) (coord : CoordinatorState) : World := { w with coord := coord }

def next (params : FeederParams) (w : World) : Section → World
  | .registerMiner minerId caps => w.update (w.coord.registerMiner minerId caps)
  | .registerOutbound minerId tx => w.update (w.coord.registerOutbound minerId tx)
  | .registerWakeup minerId grants => w.update (w.coord.registerWakeup minerId grants)
  | .deregisterOutbound minerId => w.update (w.coord.deregisterOutbound minerId)
  | .applyCapabilities minerId caps => w.update (w.coord.applyCapabilities minerId caps).1
  | .dispatchGranted minerId credits now =>
    w.update (w.coord.dispatchGranted minerId credits now).1
  | .takeResult minerId jobId => w.update (w.coord.takeResult minerId jobId).1
  | .noteResult g => w.update (w.coord.noteResult g)
  | .recordBest e => w.update (w.coord.recordBest e)
  | .settle o retain => w.update (w.coord.settle o retain)
  | .rejectJob minerId jobId reason => w.update (w.coord.rejectJob minerId jobId reason)
  | .handleLeaseDone minerId done => w.update (w.coord.handleLeaseDone minerId done)
  | .childExit minerId owned => w.update (w.coord.childExit minerId owned)
  | .forgetOrder jobId => w.update (w.coord.forgetOrder jobId)
  | .stopMining =>
    let generation := satAdd 64 w.generation 1
    { w with
      coord := (w.coord.stopMining generation).1
      generation := generation
      seed := none }
  | .reseed snap qblockId decay =>
    { w with coord := w.coord.reseed w.generation snap qblockId decay, seed := some snap }
  | .topUp snap plans => { w with toStaging := w.toStaging.topUp params snap plans }
  | .stageMempoolOrders orders => w.update (w.coord.stageMempoolOrders orders)
  | .winSuccess cand => w.update (w.coord.winSuccess cand)
  | .markSubmitted jobId => w.update (w.coord.markSubmitted jobId)

omit [Crates] in
def Allowed (w : World) : Section → Prop
  | .childExit minerId owned => w.coord.Owned minerId owned
  | .reseed .. => w.seed = none ∧ 0 < w.generation
  | .topUp snap plans =>
    w.seed.map (·.lastProofBlockHash) = some snap.lastProofBlockHash ∧
      (plans.map (·.minerId)).Pairwise (· < ·) ∧
      (plans.map (·.minerId)).toFinset = w.coord.router.miners.keys
  | .stageMempoolOrders orders => ∀ order ∈ orders, order.orderId.length = 8
  | _ => True

omit [Crates] in
instance (w : World) : (e : Section) → Decidable (w.Allowed e)
  | .childExit _ _ => inferInstanceAs (Decidable (_ ∧ _))
  | .reseed _ _ _ => inferInstanceAs (Decidable (_ ∧ _))
  | .topUp _ _ => inferInstanceAs (Decidable (_ ∧ _))
  | .stageMempoolOrders orders =>
    inferInstanceAs (Decidable (∀ order ∈ orders, order.orderId.length = 8))
  | .registerMiner _ _ | .registerOutbound _ _ | .registerWakeup _ _ | .deregisterOutbound _
  | .applyCapabilities _ _ | .dispatchGranted _ _ _ | .takeResult _ _ | .noteResult _
  | .recordBest _ | .settle _ _ | .rejectJob _ _ _ | .handleLeaseDone _ _ | .forgetOrder _
  | .stopMining | .winSuccess _ | .markSubmitted _ => .isTrue trivial

end World

omit [Crates] in
def Section.feeds : Section → Bool
  | .stopMining | .reseed _ _ _ | .topUp _ _ | .stageMempoolOrders _ => true
  | _ => false

omit [Crates] in
/-- The sections that touch neither the round, its best and stash, nor the wakeup channels. -/
def Section.moves : Section → Bool
  | .registerMiner _ _ | .registerOutbound _ _ | .applyCapabilities _ _ | .dispatchGranted _ _ _
  | .takeResult _ _ | .noteResult _ | .rejectJob _ _ _ | .handleLeaseDone _ _ | .childExit _ _
  | .forgetOrder _ => true
  | _ => false

namespace World
open CoordinatorState

theorem next_eq_update (params : FeederParams) (w : World) {e : Section} (h : e.feeds = false) :
    w.next params e = w.update (w.next params e).coord := by
  cases e <;> first | rfl | exact absurd h Bool.noConfusion

theorem next_moves (params : FeederParams) (w : World) {e : Section} (h : e.moves = true) :
    Moves w.coord (w.next params e).coord := by
  cases e with
  | registerMiner minerId caps => exact moves_registerMiner w.coord minerId caps
  | registerOutbound minerId tx => exact ⟨⟨fun _ h => h, rfl, rfl, rfl, rfl, rfl⟩, rfl, rfl, rfl⟩
  | applyCapabilities minerId caps => exact moves_applyCapabilities w.coord minerId caps
  | dispatchGranted minerId credits now =>
    exact (dispatchGranted_moves w.coord minerId credits now).1
  | takeResult minerId jobId => exact moves_takeResult w.coord minerId jobId
  | noteResult g => exact moves_noteResult w.coord g
  | rejectJob minerId jobId reason => exact moves_rejectJob w.coord minerId jobId reason
  | handleLeaseDone minerId done => exact moves_handleLeaseDone w.coord minerId done
  | childExit minerId owned => exact moves_childExit w.coord minerId owned
  | forgetOrder jobId => exact ⟨⟨fun _ h => h, rfl, rfl, rfl, rfl, rfl⟩, rfl, rfl, rfl⟩
  | _ => exact absurd h Bool.noConfusion

theorem keeps_settle (st : CoordinatorState) (o : PowOutcome) (retain : Bool) :
    Keeps st (st.settle o retain) := by
  rw [settle]
  split_ifs
  · exact ⟨fun _ h => h, rfl, rfl, rfl, rfl, rfl⟩
  · exact ⟨fun _ h => h, rfl, rfl, rfl, rfl, rfl⟩

theorem next_keeps (params : FeederParams) (w : World) {e : Section} (h : e.feeds = false) :
    Keeps w.coord (w.next params e).coord := by
  cases hm : e.moves with
  | true => exact (next_moves params w hm).toKeeps
  | false =>
    cases e with
    | registerWakeup minerId grants => exact ⟨fun _ h => h, rfl, rfl, rfl, rfl, rfl⟩
    | deregisterOutbound minerId => exact ⟨fun _ h => h, rfl, rfl, rfl, rfl, rfl⟩
    | recordBest e => exact ⟨fun _ h => h, rfl, rfl, rfl, rfl, rfl⟩
    | settle o retain => exact keeps_settle w.coord o retain
    | winSuccess cand => exact ⟨fun _ h => h, rfl, rfl, rfl, rfl, rfl⟩
    | markSubmitted jobId => exact ⟨fun _ h => h, rfl, rfl, rfl, rfl, rfl⟩
    | stopMining => exact absurd h Bool.noConfusion
    | reseed snap qblockId decay => exact absurd h Bool.noConfusion
    | topUp snap plans => exact absurd h Bool.noConfusion
    | stageMempoolOrders orders => exact absurd h Bool.noConfusion
    | _ => exact absurd hm Bool.noConfusion

end World

def coordinatorMachine (params : FeederParams) : Machine World Section where
  init := .init
  allowed := World.Allowed
  next := World.next params

instance (params : FeederParams) (w : World) (e : Section) :
    Decidable ((coordinatorMachine params).allowed w e) := inferInstanceAs (Decidable (w.Allowed e))

namespace Sample
omit [Crates]

def params : FeederParams := ⟨Vector.replicate 32 7, 1⟩

def snap : MiningSnapshot where
  lastProofBlockHash := Vector.replicate 32 1
  topologyHash := [0, 1, 0, 1] ++ List.replicate 28 0
  nodes := [0, 1]
  edges := [(0, 1)]
  allowedHMilli := [0]
  allowedJMilli := [1000]
  allowedSpinMilli := [-1000, 1000]
  minSolutions := 1
  maxEnergyMilli := 0
  minDiversityMilli := 0
  blockNumber := 10
  specVersion := 117

def caps : MinerCaps := ⟨"cpu", "sa", [], 0, 0, none, none, [], [], 1⟩

def leaseCaps : MinerCaps :=
  { caps with supportedKinds := [.isingGenerate], generators := [.blake3Chacha8V1] }

def start : List Section :=
  [.registerMiner "a" caps, .stopMining, .reseed snap none none, .topUp snap [⟨"a", 0, 1⟩]]

def jobId : JobId := (saltFromCounter 1).toList

end Sample
end QuipCoordinator
