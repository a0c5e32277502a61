import QuipCoordinator.PoolStops
import QuipCoordinator.RoundClimb
import QuipCoordinator.SessionChannels

/-!
# The loop of the feeder

The layer of `feeder_loop` over the sessions: a poll starts a walk to mining, stops
the miners for a pending win, goes on with the round, or waits. A walk that
returns a snapshot is followed by the reseed of its round, and only a poll that
goes on reaches the top-up. Between two of its own steps the feeder waits, for its
broadcasts among others, while the sessions run. `rounds` records in order the
walks that ended and the stops for a pending win, and `cancels` the cancels that
the feeder has sent.
-/

namespace QuipCoordinator

/-- A call of `drive_to_mining` from the state `first`: `stopped` once it is past `stop_mining`,
which entered the generations of `stops`. -/
structure Walk where
  generation : Nat
  first : RoundState
  drive : Drive
  stopped : Bool
  stops : List Nat
  returned : Option MiningSnapshot
deriving DecidableEq

inductive FeederAt
  | fetching
  | walking (walk : Walk)
  | installing (snap : MiningSnapshot)
  | pausing (stopped : Bool)
  | mining (snap : MiningSnapshot)
  | staged
  | resting
  | ended
deriving DecidableEq

inductive RoundEntry
  | walked (walk : Walk)
  | paused (generation : Nat)
deriving DecidableEq

/-- A cancel with the channels that the feeder cloned for it and those it was sent to. -/
structure CancelCast where
  maxGeneration : Nat
  senders : Finset SessionId
  told : Finset SessionId
deriving DecidableEq

structure FeederLoop where
  poll : PollState
  generation : Nat
  place : FeederAt
  rounds : List RoundEntry
  cloned : Finset SessionId
  told : Finset SessionId
  cancels : List CancelCast
deriving DecidableEq

inductive FeederEvent
  | poll (snap : Option MiningSnapshot) (pool : Option (List PendingProof))
  | stopMining
  | step (result : StepResult)
  | finish
  | install (qblockId : Option Nat) (decay : Option DecayParams)
  | retarget
  | topUp (plans : List Plan)
  | stageMempoolOrders (orders : List JobOrder)
  | rest
  | wake
  | shutdown
  | session (e : ChannelEvent)
deriving DecidableEq

def ChannelEvent.ofFeeder : ChannelEvent → Bool
  | .stopMining | .reseed .. | .retarget _ | .topUp .. | .stageMempoolOrders _ => true
  | _ => false

def RoundState.waits : RoundState → Bool
  | .validatorSynced | .accountFunded | .minerRegistered | .requirementsDownloaded => true
  | _ => false

namespace Walk

def start (generation : Nat) (machine : RoundState) : Walk :=
  ⟨generation, machine, .start machine, false, [], none⟩

def stop (walk : Walk) (entered : Nat) : Walk :=
  { walk with stopped := true, stops := walk.stops ++ [entered] }

def step (walk : Walk) (r : StepResult) : Walk :=
  { walk with drive := (walk.drive.step r).getD walk.drive }

def finish (walk : Walk) : Walk := { walk with returned := walk.drive.snap }

end Walk

def FeederAt.walk : FeederAt → Option Walk
  | .walking walk => some walk
  | _ => none

def FeederAt.reached : FeederAt → Option MiningSnapshot
  | .installing snap => some snap
  | _ => none

def FeederAt.mined : FeederAt → Option MiningSnapshot
  | .mining snap => some snap
  | _ => none

def RoundEntry.walk? : RoundEntry → Option Walk
  | .walked walk => some walk
  | .paused _ => none

namespace FeederLoop

def init : FeederLoop := ⟨.init, 0, .fetching, [], ∅, ∅, []⟩

def past (f : FeederLoop) : List Walk := f.rounds.filterMap (·.walk?)

def walks (f : FeederLoop) : List Walk := f.past ++ f.place.walk.toList

def turnover (f : FeederLoop) (event : RoundEvent) : FeederLoop :=
  match f.poll.round.elim (some .start) (·.transition event) with
  | none => { f with place := .ended }
  | some machine =>
    let generation := satAdd 64 f.generation 1
    { f with generation := generation, place := .walking (.start generation machine) }

def pause (f : FeederLoop) : FeederLoop :=
  let generation := satAdd 64 f.generation 1
  { f with
    generation := generation
    place := .pausing false
    rounds := f.rounds ++ [.paused generation] }

def polled [PoolScoring] [Crates] (f : FeederLoop) (snap : MiningSnapshot)
    (pool : Option (List PendingProof)) : FeederLoop :=
  let (after, record) := f.poll.poll ⟨snap, pool, snap⟩
  let event :=
    if f.poll.currentHead ≠ some snap.lastProofBlockHash then some RoundEvent.newHead
    else record.resumed.map fun _ => .resume
  match event with
  | some event => { f with poll := { f.poll with watch := after.watch } }.turnover event
  | none =>
    let f := { f with poll := after }
    if record.stopped then f.pause
    else if after.round = some .awaitingQBlock then { f with place := .resting }
    else { f with place := .mining snap }

def finish (f : FeederLoop) (walk : Walk) : FeederLoop :=
  let f := { f with rounds := f.rounds ++ [RoundEntry.walked walk.finish] }
  match walk.drive.snap with
  | none => { f with place := .ended }
  | some snap =>
    { f with poll := { f.poll with round := some .startMining }, place := .installing snap }

def note (w : World) (c : Channels) (f : FeederLoop) : ChannelEvent → FeederLoop
  | .clone => { f with cloned := w.coord.outbound.values, told := ∅ }
  | .deliver tx => { f with told := insert tx f.told }
  | .delivered =>
    match c.casts.head? with
    | some (.cancel g) => { f with cancels := f.cancels ++ [⟨g, f.cloned, f.told⟩] }
    | _ => f
  | _ => f

def emit (f : FeederLoop) : FeederEvent → Option ChannelEvent
  | .stopMining => some .stopMining
  | .install qblockId decay => f.place.reached.map fun snap => .reseed snap qblockId decay
  | .retarget => f.place.mined.map fun snap => .retarget snap
  | .topUp plans => f.place.mined.map fun snap => .topUp snap plans
  | .stageMempoolOrders orders => some (.stageMempoolOrders orders)
  | .session e => some e
  | _ => none

def Guard (c : Channels) (f : FeederLoop) : FeederEvent → Prop
  | .poll _ _ => f.place = .fetching
  | .stopMining => f.place = .pausing false ∨
    ∃ walk ∈ f.place.walk, walk.drive.machine = .stopMining ∧ walk.stopped = false
  | .step r => ∃ walk ∈ f.place.walk, (walk.drive.step r).isSome = true ∧
    (walk.drive.machine = .stopMining → walk.stopped = true ∧ c.casts = [])
  | .finish => ∃ walk ∈ f.place.walk, walk.drive.machine = .startMining
  | .install _ _ => f.place.reached.isSome = true
  | .retarget | .topUp _ => f.place.mined.isSome = true
  | .stageMempoolOrders _ => f.place = .staged
  | .rest => f.place = .staged ∨ f.place = .pausing true ∧ c.casts = []
  | .wake => f.place = .resting
  | .shutdown => f.place = .resting ∨ ∃ walk ∈ f.place.walk, walk.drive.machine.waits = true
  | .session e => e.ofFeeder = false

instance (c : Channels) (f : FeederLoop) : (e : FeederEvent) → Decidable (f.Guard c e)
  | .poll _ _ | .stageMempoolOrders _ | .wake => inferInstanceAs (Decidable (f.place = _))
  | .stopMining | .shutdown => inferInstanceAs (Decidable (_ ∨ ∃ walk ∈ f.place.walk, _))
  | .step _ | .finish => inferInstanceAs (Decidable (∃ walk ∈ f.place.walk, _))
  | .install _ _ | .retarget | .topUp _ => inferInstanceAs (Decidable (Option.isSome _ = true))
  | .rest => inferInstanceAs (Decidable (_ ∨ _ ∧ _))
  | .session _ => inferInstanceAs (Decidable (ChannelEvent.ofFeeder _ = false))

def next [PoolScoring] [Crates] (w : World) (c : Channels) (f : FeederLoop) :
    FeederEvent → FeederLoop
  | .poll none _ => { f with place := .resting }
  | .poll (some snap) pool => f.polled snap pool
  | .stopMining =>
    { f with
      place := f.place.walk.elim (.pausing true) fun walk =>
        .walking (walk.stop (satAdd 64 w.generation 1)) }
  | .step r => f.place.walk.elim f fun walk => { f with place := .walking (walk.step r) }
  | .finish => f.place.walk.elim f f.finish
  | .install _ _ => f.place.reached.elim f fun snap =>
    { f with
      poll := { f.poll with currentHead := some snap.lastProofBlockHash }
      place := .mining snap }
  | .retarget => f
  | .topUp _ => { f with place := .staged }
  | .stageMempoolOrders _ => f
  | .rest => { f with place := .resting }
  | .wake => { f with place := .fetching }
  | .shutdown =>
    { f with
      place := .ended
      rounds := f.rounds ++ f.place.walk.toList.map .walked }
  | .session e => f.note w c e

end FeederLoop

section
variable [PoolScoring] [Crates]

def feederLayer (params : FeederParams) :
    Machine.Layer (channelMachine params) FeederLoop FeederEvent where
  init := .init
  guard x f := f.Guard x.2
  emit _ f := f.emit
  next x f := f.next x.1 x.2

abbrev feederMachine (params : FeederParams) :
    Machine ((World × Channels) × FeederLoop) FeederEvent :=
  (feederLayer params).machine

instance (params : FeederParams) (x : (World × Channels) × FeederLoop) (e : FeederEvent) :
    Decidable ((feederMachine params).allowed x e) :=
  inferInstanceAs (Decidable (x.2.Guard x.1.2 e ∧
    ∀ d ∈ x.2.emit e, (channelMachine params).allowed x.1 d))

end

namespace Sample

def climbed : List FeederEvent :=
  [.step .done, .step .unconfirmed, .step .done, .step .failed, .step .done,
    .step (.downloaded snap), .step .done, .finish]

def informed : List FeederEvent :=
  [.clone, .deliver 0, .delivered, .clone, .deliver 0, .delivered].map .session

end Sample
end QuipCoordinator
