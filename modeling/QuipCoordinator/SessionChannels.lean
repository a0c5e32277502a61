import QuipCoordinator.CriticalSections

/-!
# Sessions and their outbound channels

The layer of the messages over the critical sections. The handshake takes the
lock for each registration and once to send the requirements of the round. The
dispatcher collects jobs under the lock and sends them after releasing it. The
feeder clones the senders under the lock and sends after releasing it. So each
send is an event of its own; a full channel delays it and a channel the miner
hung up drops it. A message is stamped with the generation last reseeded. The
other sections of the sessions send nothing and may run at any time.
-/

namespace QuipCoordinator
variable [Crates]
open Crates

inductive Phase
  | register
  | welcome
  | configure
  | requirements
  | outbound
  | wakeup
  | running
  | closed
deriving DecidableEq

structure Sent where
  msg : CoordMsg
  round : Nat
  handshake : Bool
deriving DecidableEq

/-- A session with its channel. `dispatcher` holds the jobs collected and not yet sent; it is
none before the dispatcher starts and after a failed send. -/
structure Session where
  minerId : MinerId
  caps : MinerCaps
  queueDepth : Nat
  phase : Phase
  hungUp : Bool
  sent : List Sent
  grants : List Nat
  dispatcher : Option (List Job)
deriving DecidableEq

/-- What the feeder fans out. `target` follows a reseed, `retarget` a change within a round. -/
inductive Broadcast
  | cancel (maxGeneration : Nat)
  | topology (t : WireTopology)
  | target (t : SetTarget)
  | retarget (t : SetTarget)
deriving DecidableEq

def Broadcast.msg : Broadcast → CoordMsg
  | .cancel g => .cancel g
  | .topology t => .topology t
  | .target t | .retarget t => .setTarget t

/-- The sessions and the feeder's broadcasts: the first of `casts` is being sent to `senders`, the
channels it cloned and has not served. -/
structure Channels where
  sessions : Table SessionId Session
  casts : List Broadcast
  senders : Option (Finset SessionId)
  lastBroadcast : Option (Int × Nat × Nat)
  reseeded : Nat
deriving DecidableEq

inductive ChannelEvent
  | hello (tx : SessionId) (minerId : MinerId) (caps : MinerCaps) (queueDepth : Nat)
  | advance (tx : SessionId)
  | ready (tx : SessionId)
  | jobRequest (tx : SessionId) (credits : Nat)
  | dispatch (tx : SessionId) (now : Nat)
  | send (tx : SessionId)
  | capabilities (tx : SessionId) (caps : Capabilities) (ids : List MinerId)
  | close (tx : SessionId)
  | hangUp (tx : SessionId)
  | control (tx : SessionId) (msg : CoordMsg)
  | childExit (minerId : MinerId) (owned : List JobId)
  | stopMining
  | reseed (snap : MiningSnapshot) (qblockId : Option Nat) (decay : Option DecayParams)
  | clone
  | deliver (tx : SessionId)
  | delivered
  | retarget (snap : MiningSnapshot)
  | topUp (snap : MiningSnapshot) (plans : List Plan)
  | stageMempoolOrders (orders : List JobOrder)
  | other (e : Section)
deriving DecidableEq

omit [Crates] in
def Section.silent : Section → Bool
  | .takeResult _ _ | .noteResult _ | .recordBest _ | .settle _ _ | .rejectJob _ _ _
  | .handleLeaseDone _ _ | .forgetOrder _ | .winSuccess _ | .markSubmitted _ => true
  | _ => false

def CoordMsg.isControl : CoordMsg → Bool
  | .shutdown _ | .ping => true
  | _ => false

def grantChannelDepth : Nat := 1024

def targetKey (snap : MiningSnapshot) : Int × Nat × Nat :=
  (snap.maxEnergyMilli, snap.minSolutions, snap.minDiversityMilli)

def requirementsOf (snap : MiningSnapshot) : List Broadcast :=
  [.topology (topologyFromSnapshot snap).toProto, .target (targetFromSnapshot snap)]

namespace Session

omit [Crates] in
def new (minerId : MinerId) (caps : MinerCaps) (queueDepth : Nat) : Session :=
  ⟨minerId, caps, queueDepth, .register, false, [], [], none⟩

omit [Crates] in
def hand (s : Session) : List Job := s.dispatcher.getD []

omit [Crates] in
def push (s : Session) (ms : List Sent) : Session :=
  if s.hungUp then s else { s with sent := s.sent ++ ms }

omit [Crates] in
/-- A handshake send that ends the session when it fails. -/
def greet (s : Session) (m : Sent) (phase : Phase) : Session :=
  if s.hungUp then { s with phase := .closed } else { s.push [m] with phase := phase }

omit [Crates] in
def snapshot (st : CoordinatorState) (round : Nat) : List Sent :=
  (st.topology.map fun t => ⟨.topology t.toProto, round, true⟩).toList ++
    (st.target.map fun t => ⟨.setTarget t, round, true⟩).toList

def advance (s : Session) (st : CoordinatorState) (round : Nat) : Session :=
  match s.phase with
  | .register => { s with phase := .welcome }
  | .welcome => s.greet ⟨.welcome protocolVersion, round, true⟩ .configure
  | .configure => s.greet ⟨.configure s.queueDepth, round, true⟩ .requirements
  | .requirements => { s.push (snapshot st round) with phase := .outbound }
  | .outbound => { s with phase := .wakeup }
  | .wakeup => { s with phase := .running, dispatcher := some [] }
  | .running | .closed => s

omit [Crates] in
def grant (s : Session) (credits : Nat) : Session := { s with grants := s.grants ++ [credits] }

omit [Crates] in
def receives (s : Session) : Bool := s.dispatcher.isSome && s.grants.length < grantChannelDepth

omit [Crates] in
/-- `n` wakeups by `try_send`: a full or closed channel drops them. -/
def wake (s : Session) (n : Nat) : Session :=
  if s.dispatcher.isSome then
    { s with grants := s.grants ++ List.replicate (min n (grantChannelDepth - s.grants.length)) 0 }
  else s

omit [Crates] in
def collect (s : Session) (st : CoordinatorState) (now : Nat) : Session :=
  match s.grants with
  | [] => s
  | credits :: grants =>
    { s with
      grants := grants
      dispatcher := some (st.dispatchGranted s.minerId credits now).2 }

omit [Crates] in
def sendJob (s : Session) (round : Nat) : Session :=
  match s.dispatcher with
  | some (job :: jobs) =>
    if s.hungUp then { s with dispatcher := none }
    else { s.push [⟨.job job, round, false⟩] with dispatcher := some jobs }
  | _ => s

end Session

namespace Channels

omit [Crates] in
def init : Channels := ⟨∅, [], none, none, 0⟩

def wakeups (st : CoordinatorState) (ids : List MinerId) (tx : SessionId) : Nat :=
  ids.countP fun id => st.wakeups.lookup id = some tx

def react (w : World) (c : Channels) (e : ChannelEvent) (tx : SessionId) (s : Session) : Session :=
  match e with
  | .advance tx' => if tx' = tx then s.advance w.coord c.reseeded else s
  | .ready tx' => if tx' = tx then s.grant (max s.queueDepth 1) else s
  | .jobRequest tx' credits => if tx' = tx then s.grant credits else s
  | .dispatch tx' now => if tx' = tx then s.collect w.coord now else s
  | .send tx' => if tx' = tx then s.sendJob c.reseeded else s
  | .capabilities tx' caps ids =>
    let applied := (c.sessions.lookup tx').any fun s' => (w.coord.applyCapabilities s'.minerId caps).2
    if applied then s.wake (wakeups w.coord ids tx) else s
  | .close tx' => if tx' = tx then { s with phase := .closed } else s
  | .hangUp tx' => if tx' = tx then { s with hungUp := true } else s
  | .control tx' msg => if tx' = tx then s.push [⟨msg, c.reseeded, false⟩] else s
  | .deliver tx' =>
    if tx' = tx then s.push (c.casts.head?.map fun b => ⟨b.msg, c.reseeded, false⟩).toList else s
  | .topUp _ plans => s.wake (wakeups w.coord (plans.map (·.minerId)) tx)
  | .stageMempoolOrders orders => s.wake (wakeups w.coord (w.coord.orderMiners orders) tx)
  | .hello .. | .childExit .. | .stopMining | .reseed .. | .clone | .delivered | .retarget _
  | .other _ => s

def next (w : World) (c : Channels) (e : ChannelEvent) : Channels :=
  let reacted := { c with sessions := c.sessions.mapEntries (c.react w e) }
  match e with
  | .hello tx minerId caps queueDepth =>
    { c with sessions := c.sessions.insert tx (.new minerId caps queueDepth) }
  | .stopMining =>
    let generation := satAdd 64 w.generation 1
    { reacted with casts := if 1 < generation then [.cancel (generation - 1)] else [] }
  | .reseed snap _ _ =>
    { reacted with
      casts := requirementsOf snap
      lastBroadcast := some (targetKey snap)
      reseeded := w.generation }
  | .clone => { reacted with senders := some w.coord.outbound.values }
  | .deliver tx => { reacted with senders := c.senders.map (·.erase tx) }
  | .delivered => { reacted with casts := c.casts.tail, senders := none }
  | .retarget snap =>
    { reacted with
      casts := [.retarget (targetFromSnapshot snap)]
      lastBroadcast := some (targetKey snap) }
  | _ => reacted

def emit (c : Channels) : ChannelEvent → Option Section
  | .advance tx => (c.sessions.lookup tx).bind fun s =>
    match s.phase with
    | .register => some (.registerMiner s.minerId s.caps)
    | .outbound => some (.registerOutbound s.minerId tx)
    | .wakeup => some (.registerWakeup s.minerId tx)
    | _ => none
  | .dispatch tx now => (c.sessions.lookup tx).bind fun s =>
    s.grants.head?.map fun credits => .dispatchGranted s.minerId credits now
  | .capabilities tx caps _ =>
    (c.sessions.lookup tx).map fun s => .applyCapabilities s.minerId caps
  | .close tx => (c.sessions.lookup tx).map fun s => .deregisterOutbound s.minerId
  | .childExit minerId owned => some (.childExit minerId owned)
  | .stopMining => some .stopMining
  | .reseed snap qblockId decay => some (.reseed snap qblockId decay)
  | .topUp snap plans => some (.topUp snap plans)
  | .stageMempoolOrders orders => some (.stageMempoolOrders orders)
  | .other e => some e
  | _ => none

def Guard (w : World) (c : Channels) : ChannelEvent → Prop
  | .hello tx _ _ _ => tx ∉ c.sessions
  | .advance tx => ∃ s ∈ c.sessions.lookup tx, s.phase ≠ .running ∧ s.phase ≠ .closed
  | .ready tx | .jobRequest tx _ =>
    ∃ s ∈ c.sessions.lookup tx, s.phase = .running ∧ s.receives = true
  | .dispatch tx _ => ∃ s ∈ c.sessions.lookup tx, s.dispatcher = some [] ∧ s.grants ≠ []
  | .send tx => ∃ s ∈ c.sessions.lookup tx, s.hand ≠ []
  | .capabilities tx _ ids =>
    (∃ s ∈ c.sessions.lookup tx, s.phase = .running) ∧ ids.Nodup ∧
      ids.toFinset = w.coord.router.miners.keys
  | .close tx => ∃ s ∈ c.sessions.lookup tx, s.phase = .running
  | .hangUp tx => tx ∈ c.sessions
  | .control tx msg => tx ∈ c.sessions ∧ msg.isControl = true
  | .childExit _ _ => True
  | .stopMining | .reseed _ _ _ | .stageMempoolOrders _ => c.casts = []
  | .clone => c.casts ≠ [] ∧ c.senders = none
  | .deliver tx => ∃ senders ∈ c.senders, tx ∈ senders
  | .delivered => c.senders = some ∅
  | .retarget snap => c.casts = [] ∧ c.lastBroadcast ≠ some (targetKey snap) ∧
    w.seed.map (·.lastProofBlockHash) = some snap.lastProofBlockHash
  | .topUp snap _ => c.casts = [] ∧ c.lastBroadcast = some (targetKey snap)
  | .other e => e.silent = true

instance (w : World) (c : Channels) : (e : ChannelEvent) → Decidable (c.Guard w e)
  | .advance _ | .ready _ | .jobRequest _ _ | .dispatch _ _ | .send _ | .close _ =>
    inferInstanceAs (Decidable (∃ s ∈ c.sessions.lookup _, _))
  | .capabilities _ _ _ => inferInstanceAs (Decidable ((∃ s ∈ c.sessions.lookup _, _) ∧ _))
  | .hello _ _ _ _ => inferInstanceAs (Decidable (¬ _))
  | .hangUp _ => inferInstanceAs (Decidable (_ ∈ c.sessions))
  | .control _ _ | .clone | .topUp _ _ => inferInstanceAs (Decidable (_ ∧ _))
  | .childExit _ _ => .isTrue trivial
  | .stopMining | .reseed _ _ _ | .stageMempoolOrders _ => inferInstanceAs (Decidable (c.casts = []))
  | .deliver _ => inferInstanceAs (Decidable (∃ senders ∈ c.senders, _))
  | .delivered => inferInstanceAs (Decidable (c.senders = some ∅))
  | .retarget _ => inferInstanceAs (Decidable (_ ∧ _ ∧ _))
  | .other e => inferInstanceAs (Decidable (e.silent = true))

end Channels

def channelLayer (params : FeederParams) :
    Machine.Layer (coordinatorMachine params) Channels ChannelEvent where
  init := .init
  guard w c := c.Guard w
  emit _ c := c.emit
  next w c := c.next w

abbrev channelMachine (params : FeederParams) : Machine (World × Channels) ChannelEvent :=
  (channelLayer params).machine

theorem no_session_init (params : FeederParams) {tx : SessionId} {s : Session} :
    (channelMachine params).init.2.sessions.lookup tx ≠ some s := by
  change (∅ : Table SessionId Session).lookup tx ≠ some s
  simp

instance (params : FeederParams) (x : World × Channels) (e : ChannelEvent) :
    Decidable ((channelMachine params).allowed x e) :=
  inferInstanceAs (Decidable (x.2.Guard x.1 e ∧ ∀ d ∈ x.2.emit e, x.1.Allowed d))

/-- A message that is neither a requirement, a job nor a cancel. -/
def CoordMsg.isNeutral : CoordMsg → Bool
  | .welcome _ | .configure _ | .shutdown _ | .ping => true
  | _ => false

omit [Crates] in
theorem CoordMsg.isNeutral_of_isControl {msg : CoordMsg} (h : msg.isControl = true) :
    msg.isNeutral = true := by
  cases msg <;> first | rfl | exact absurd h Bool.noConfusion

omit [Crates] in
theorem CoordMsg.ne_of_isNeutral {msg : CoordMsg} (h : msg.isNeutral = true) :
    (∀ t, msg ≠ .topology t) ∧ (∀ job, msg ≠ .job job) ∧ ∀ g, msg ≠ .cancel g := by
  refine ⟨?_, ?_, ?_⟩ <;> rintro _ rfl <;> exact absurd h Bool.noConfusion

namespace Session
omit [Crates]

theorem push_of_hungUp {s : Session} (h : s.hungUp = true) (ms : List Sent) : s.push ms = s :=
  if_pos h

theorem push_of_open {s : Session} (h : s.hungUp = false) (ms : List Sent) :
    s.push ms = { s with sent := s.sent ++ ms } :=
  if_neg (by simp [h])

@[simp] theorem hand_push (s : Session) (ms : List Sent) : (s.push ms).hand = s.hand := by
  rw [push]
  split_ifs <;> rfl

@[simp] theorem hungUp_push (s : Session) (ms : List Sent) : (s.push ms).hungUp = s.hungUp := by
  rw [push]
  split_ifs <;> rfl

theorem hungUp_advance [Crates] (s : Session) (st : CoordinatorState) (round : Nat) :
    (s.advance st round).hungUp = s.hungUp := by
  rw [advance]
  cases s.phase <;> simp only [greet, hungUp_push]
  all_goals split_ifs <;> simp

theorem hungUp_collect (s : Session) (st : CoordinatorState) (now : Nat) :
    (s.collect st now).hungUp = s.hungUp := by
  rw [collect]
  cases s.grants <;> rfl

theorem hungUp_sendJob (s : Session) (round : Nat) : (s.sendJob round).hungUp = s.hungUp := by
  rw [sendJob]
  split
  · split_ifs <;> simp
  · rfl

theorem hungUp_wake (s : Session) (n : Nat) : (s.wake n).hungUp = s.hungUp := by
  rw [wake]
  split_ifs <;> rfl

@[simp] theorem sent_wake (s : Session) (n : Nat) : (s.wake n).sent = s.sent := by
  rw [wake]
  split_ifs <;> rfl

@[simp] theorem hand_wake (s : Session) (n : Nat) : (s.wake n).hand = s.hand := by
  rw [wake]
  split_ifs <;> rfl

@[simp] theorem minerId_push (s : Session) (ms : List Sent) : (s.push ms).minerId = s.minerId := by
  rw [push]
  split_ifs <;> rfl

@[simp] theorem phase_push (s : Session) (ms : List Sent) : (s.push ms).phase = s.phase := by
  rw [push]
  split_ifs <;> rfl

@[simp] theorem dispatcher_push (s : Session) (ms : List Sent) :
    (s.push ms).dispatcher = s.dispatcher := by
  rw [push]
  split_ifs <;> rfl

@[simp] theorem grants_push (s : Session) (ms : List Sent) : (s.push ms).grants = s.grants := by
  rw [push]
  split_ifs <;> rfl

theorem wake_eq (s : Session) (n : Nat) : ∃ grants, s.wake n = { s with grants := grants } := by
  rw [wake]
  split_ifs
  · exact ⟨_, rfl⟩
  · exact ⟨s.grants, rfl⟩

theorem collect_eq (s : Session) (st : CoordinatorState) (now : Nat) : ∃ grants dispatcher,
    s.collect st now = { s with grants := grants, dispatcher := dispatcher } := by
  unfold collect
  split
  · exact ⟨s.grants, s.dispatcher, rfl⟩
  · exact ⟨_, _, rfl⟩

theorem sendJob_eq (s : Session) (round : Nat) : ∃ sent dispatcher,
    s.sendJob round = { s with sent := sent, dispatcher := dispatcher } ∧
      (dispatcher ≠ none → s.dispatcher ≠ none) := by
  unfold sendJob
  split
  · next job jobs hd =>
    split_ifs with hu
    · exact ⟨s.sent, none, rfl, fun h => absurd rfl h⟩
    · rw [push_of_open (by simpa using hu)]
      exact ⟨_, _, rfl, fun _ => by simp [hd]⟩
  · exact ⟨s.sent, s.dispatcher, rfl, id⟩

theorem greet_eq (s : Session) (m : Sent) (phase : Phase) : ∃ sent phase',
    s.greet m phase = { s with sent := sent, phase := phase' } ∧
      (phase' = .closed ∨ phase' = phase) := by
  rw [greet]
  split_ifs with hu
  · exact ⟨s.sent, .closed, rfl, Or.inl rfl⟩
  · rw [push_of_open (by simpa using hu)]
    exact ⟨_, phase, rfl, Or.inr rfl⟩

end Session

omit [Crates] in
theorem Session.mem_snapshot {st : CoordinatorState} {n : Nat} {m : Sent}
    (h : m ∈ Session.snapshot st n) : (∃ t, m.msg = .topology t) ∨ ∃ t, m.msg = .setTarget t := by
  rcases List.mem_append.mp h with h | h
  · obtain ⟨t, -, rfl⟩ := Option.map_eq_some_iff.mp (Option.mem_toList.mp h)
    exact Or.inl ⟨_, rfl⟩
  · obtain ⟨t, -, rfl⟩ := Option.map_eq_some_iff.mp (Option.mem_toList.mp h)
    exact Or.inr ⟨_, rfl⟩

/-- What an event leaves of a session's log and of the jobs in its dispatcher's hand. -/
inductive Effect (w : World) (c : Channels) (e : ChannelEvent) (tx : SessionId) (s s' : Session) :
    Prop
  | keep (sent : s'.sent = s.sent) (hand : s'.hand = s.hand ∨ s'.hand = [])
  | note (m : Sent) (neutral : m.msg.isNeutral = true) (sent : s'.sent = s.sent ++ [m])
    (hand : s'.hand = s.hand)
  | snapshot (event : e = .advance tx) (phase : s.phase = .requirements)
    (opened : s.hungUp = false)
    (sent : s'.sent = s.sent ++ Session.snapshot w.coord c.reseeded) (hand : s'.hand = s.hand)
  | deliver (b : Broadcast) (event : e = .deliver tx) (cast : c.casts.head? = some b)
    (opened : s.hungUp = false)
    (sent : s'.sent = s.sent ++ [⟨b.msg, c.reseeded, false⟩]) (hand : s'.hand = s.hand)
  | collect (credits now : Nat) (event : e = .dispatch tx now) (sent : s'.sent = s.sent)
    (hand : s'.hand = (w.coord.dispatchGranted s.minerId credits now).2)
  | send (job : Job) (event : e = .send tx) (opened : s.hungUp = false)
    (sent : s'.sent = s.sent ++ [⟨.job job, c.reseeded, false⟩]) (hand : s.hand = job :: s'.hand)

namespace Channels

omit [Crates] in
theorem effect_greet {w : World} {c : Channels} {e : ChannelEvent} {tx : SessionId} {s : Session}
    {m : Sent} (hm : m.msg.isNeutral = true) (phase : Phase) :
    Effect w c e tx s (s.greet m phase) := by
  rw [Session.greet]
  split_ifs with hu
  · exact .keep rfl (Or.inl rfl)
  · rw [Session.push_of_open (by simpa using hu)]
    exact .note m hm rfl rfl

omit [Crates] in
theorem effect_push {w : World} {c : Channels} {e : ChannelEvent} {tx : SessionId} {s : Session}
    {ms : List Sent} (h : s.hungUp = false → Effect w c e tx s { s with sent := s.sent ++ ms }) :
    Effect w c e tx s (s.push ms) := by
  cases hu : s.hungUp with
  | true =>
    rw [Session.push_of_hungUp hu]
    exact .keep rfl (Or.inl rfl)
  | false =>
    rw [Session.push_of_open hu]
    exact h hu

theorem effect_advance {w : World} {c : Channels} {tx : SessionId} {s : Session}
    (h : s.phase ≠ .running ∧ s.phase ≠ .closed) :
    Effect w c (.advance tx) tx s (s.advance w.coord c.reseeded) := by
  rw [Session.advance]
  cases hp : s.phase with
  | register | outbound => exact .keep rfl (Or.inl rfl)
  | welcome | configure => exact effect_greet rfl _
  | requirements =>
    cases hu : s.hungUp with
    | true =>
      dsimp only
      rw [Session.push_of_hungUp hu]
      exact .keep rfl (Or.inl rfl)
    | false =>
      dsimp only
      rw [Session.push_of_open hu]
      exact .snapshot rfl hp hu rfl rfl
  | wakeup => exact .keep rfl (Or.inr rfl)
  | running => exact absurd hp h.1
  | closed => exact absurd hp h.2

omit [Crates] in
theorem effect_sendJob {w : World} {c : Channels} {tx : SessionId} {s : Session} :
    Effect w c (.send tx) tx s (s.sendJob c.reseeded) := by
  rw [Session.sendJob]
  split
  · next job jobs hd =>
    split_ifs with hu
    · exact .keep rfl (Or.inr rfl)
    · have ho : s.hungUp = false := by simpa using hu
      rw [Session.push_of_open ho]
      exact .send job rfl ho rfl (by simp [Session.hand, hd])
  · exact .keep rfl (Or.inl rfl)

omit [Crates] in
theorem of_guard {c : Channels} {tx : SessionId} {s : Session} {P : Session → Prop}
    (hs : c.sessions.lookup tx = some s) (h : ∃ s' ∈ c.sessions.lookup tx, P s') : P s := by
  obtain ⟨s', hs', hp⟩ := h
  rw [hs] at hs'
  cases hs'
  exact hp

theorem effect_react {w : World} {c : Channels} {e : ChannelEvent} {tx : SessionId} {s : Session}
    (hg : c.Guard w e) (hs : c.sessions.lookup tx = some s) :
    Effect w c e tx s (c.react w e tx s) := by
  have hkeep : Effect w c e tx s s := .keep rfl (Or.inl rfl)
  have hwake : ∀ n, Effect w c e tx s (s.wake n) := fun n => .keep (by simp) (Or.inl (by simp))
  cases e with
  | advance tx' =>
    simp only [react]
    split_ifs with ht
    · subst ht
      exact effect_advance (of_guard hs hg)
    · exact hkeep
  | dispatch tx' now =>
    simp only [react]
    split_ifs with ht
    · subst ht
      rw [Session.collect]
      cases hgr : s.grants with
      | nil => exact hkeep
      | cons credits grants => exact .collect credits now rfl rfl rfl
    · exact hkeep
  | send tx' =>
    simp only [react]
    split_ifs with ht
    · exact ht ▸ effect_sendJob
    · exact hkeep
  | control tx' msg =>
    simp only [react]
    split_ifs with ht
    · exact effect_push fun _ => .note _ (CoordMsg.isNeutral_of_isControl hg.2) rfl rfl
    · exact hkeep
  | deliver tx' =>
    simp only [react]
    split_ifs with ht
    · subst ht
      refine effect_push fun hu => ?_
      cases hb : c.casts.head? with
      | none => exact .keep (by simp) (Or.inl rfl)
      | some b => exact .deliver b rfl hb hu rfl rfl
    · exact hkeep
  | ready tx' | jobRequest tx' credits | close tx' | hangUp tx' =>
    simp only [react]
    split_ifs
    · exact .keep rfl (Or.inl rfl)
    · exact hkeep
  | capabilities tx' caps ids =>
    simp only [react]
    split_ifs
    · exact hwake _
    · exact hkeep
  | topUp snap plans => exact hwake _
  | stageMempoolOrders orders => exact hwake _
  | _ => exact hkeep

theorem open_of_react {w : World} {c : Channels} {e : ChannelEvent} {tx : SessionId} {s : Session}
    (h : (c.react w e tx s).hungUp = false) : s.hungUp = false := by
  cases e with
  | advance tx' =>
    simp only [react] at h
    split_ifs at h
    · rwa [Session.hungUp_advance] at h
    · exact h
  | dispatch tx' now =>
    simp only [react] at h
    split_ifs at h
    · rwa [Session.hungUp_collect] at h
    · exact h
  | send tx' =>
    simp only [react] at h
    split_ifs at h
    · rwa [Session.hungUp_sendJob] at h
    · exact h
  | control tx' msg | deliver tx' =>
    simp only [react] at h
    split_ifs at h
    · rwa [Session.hungUp_push] at h
    · exact h
  | ready tx' | jobRequest tx' credits | close tx' | hangUp tx' =>
    simp only [react] at h
    split_ifs at h <;> exact h
  | capabilities tx' caps ids =>
    simp only [react] at h
    split_ifs at h
    · rwa [Session.hungUp_wake] at h
    · exact h
  | topUp snap plans => rwa [react, Session.hungUp_wake] at h
  | stageMempoolOrders orders => rwa [react, Session.hungUp_wake] at h
  | _ => exact h

theorem lookup_next {w : World} {c : Channels} {e : ChannelEvent} {tx : SessionId} {s' : Session}
    (h : (c.next w e).sessions.lookup tx = some s') :
    (∃ minerId caps depth, s' = .new minerId caps depth) ∨
      ∃ s, c.sessions.lookup tx = some s ∧ s' = c.react w e tx s := by
  have hreact : (c.sessions.mapEntries (c.react w e)).lookup tx = some s' →
      ∃ s, c.sessions.lookup tx = some s ∧ s' = c.react w e tx s := by
    intro hl
    rw [Finmap.lookup_mapEntries, Option.map_eq_some_iff] at hl
    obtain ⟨s, hs, he⟩ := hl
    exact ⟨s, hs, he.symm⟩
  cases e with
  | hello tx' minerId caps depth =>
    have hl : (c.sessions.insert tx' (.new minerId caps depth)).lookup tx = some s' := h
    rw [Finmap.lookup_insert_eq] at hl
    split_ifs at hl
    · exact Or.inl ⟨minerId, caps, depth, (Option.some.inj hl).symm⟩
    · exact Or.inr ⟨s', hl, rfl⟩
  | _ => exact Or.inr (hreact h)

theorem lookup_next_of_some {w : World} {c : Channels} {e : ChannelEvent} {tx : SessionId}
    {s : Session} (hg : c.Guard w e) (h : c.sessions.lookup tx = some s) :
    (c.next w e).sessions.lookup tx = some (c.react w e tx s) := by
  have hreact : (c.sessions.mapEntries (c.react w e)).lookup tx = some (c.react w e tx s) := by
    rw [Finmap.lookup_mapEntries, h, Option.map_some]
  cases e with
  | hello tx' minerId caps depth =>
    have hne : tx ≠ tx' := by
      intro heq
      subst heq
      have hfresh : tx ∉ c.sessions := hg
      exact hfresh (Finmap.mem_of_lookup_eq_some h)
    change (c.sessions.insert tx' _).lookup tx = some s
    rw [Finmap.lookup_insert_of_ne _ hne, h]
  | _ => exact hreact

theorem react_keeps {w : World} {c : Channels} {e : ChannelEvent} {tx : SessionId} {s : Session}
    (hg : c.Guard w e) (hs : c.sessions.lookup tx = some s) (hadv : e ≠ .advance tx)
    (hclose : e ≠ .close tx) : (c.react w e tx s).minerId = s.minerId ∧
      (c.react w e tx s).phase = s.phase ∧
      ((c.react w e tx s).dispatcher ≠ none → s.dispatcher ≠ none) := by
  have hkeep : s.minerId = s.minerId ∧ s.phase = s.phase ∧
    (s.dispatcher ≠ none → s.dispatcher ≠ none) := ⟨rfl, rfl, id⟩
  have hwake : ∀ n, (s.wake n).minerId = s.minerId ∧ (s.wake n).phase = s.phase ∧
      ((s.wake n).dispatcher ≠ none → s.dispatcher ≠ none) := by
    intro n
    obtain ⟨grants, he⟩ := s.wake_eq n
    rw [he]
    exact hkeep
  cases e with
  | advance tx' =>
    simp only [react]
    split_ifs with ht
    · exact absurd (congrArg _ ht) hadv
    · exact hkeep
  | close tx' =>
    simp only [react]
    split_ifs with ht
    · exact absurd (congrArg _ ht) hclose
    · exact hkeep
  | dispatch tx' now =>
    simp only [react]
    split_ifs with ht
    · subst ht
      obtain ⟨hd, -⟩ := of_guard hs hg
      obtain ⟨grants, dispatcher, he⟩ := s.collect_eq w.coord now
      rw [he]
      exact ⟨rfl, rfl, fun _ => by simp [hd]⟩
    · exact hkeep
  | send tx' =>
    simp only [react]
    split_ifs with ht
    · obtain ⟨sent, dispatcher, he, hd⟩ := s.sendJob_eq c.reseeded
      rw [he]
      exact ⟨rfl, rfl, hd⟩
    · exact hkeep
  | control tx' msg | deliver tx' =>
    simp only [react]
    split_ifs
    · simp
    · exact hkeep
  | ready tx' | jobRequest tx' credits | hangUp tx' =>
    simp only [react]
    split_ifs <;> exact hkeep
  | capabilities tx' caps ids =>
    simp only [react]
    split_ifs
    · exact hwake _
    · exact hkeep
  | topUp snap plans => exact hwake _
  | stageMempoolOrders orders => exact hwake _
  | _ => exact hkeep

end Channels

namespace Sample
omit [Crates]

def joined : List ChannelEvent :=
  [.hello 0 "a" caps 1, .advance 0, .advance 0, .advance 0, .advance 0, .advance 0, .advance 0,
    .ready 0, .dispatch 0 0]

def opened : List ChannelEvent :=
  [.stopMining, .reseed snap none none, .clone, .deliver 0, .delivered, .clone, .deliver 0,
    .delivered]

def collected : List ChannelEvent := [.topUp snap [⟨"a", 0, 1⟩], .dispatch 0 0]

end Sample
end QuipCoordinator
