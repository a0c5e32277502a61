import QuipCoordinator.MinerCredits
import QuipCoordinator.MockMiner
import QuipCoordinator.Registrations

/-!
# The credits of a miner with one session

While `tx` is the only session of a miner and its stream is open, an event of the
sessions moves the jobs and credits of the miner between its router entry, the
grants, the hand of the dispatcher and the channel. Only a frame that the session
reads adds to them.
-/

namespace QuipCoordinator

/-- The event keeps `tx` the one session of the miner, its stream open and its process running. -/
def ChannelEvent.sole (tx : SessionId) (minerId : MinerId) : ChannelEvent → Bool
  | .hello tx' m _ depth => if tx' = tx then m == minerId && decide (depth < 2 ^ 32) else m != minerId
  | .hangUp tx' => tx' != tx
  | .childExit m _ => m != minerId
  | _ => true

def ChannelEvent.grants (tx : SessionId) : ChannelEvent → Bool
  | .ready tx' | .jobRequest tx' _ => tx' == tx
  | _ => false

/-- The jobs and credits a session holds, when its first `n` frames have arrived: the grants not
applied, the jobs collected, and the jobs on the channel. -/
def Session.pool (s : Session) (n : Nat) : Nat :=
  s.grants.sum + (s.hand.length + (s.sent.drop n).countP (·.msg.isJob))

variable [Crates]

def Phase.owes : Phase → Nat
  | .register | .welcome | .configure => 1
  | _ => 0

namespace Session
omit [Crates]

def configures (s : Session) : Nat := s.sent.countP (·.msg.isConfigure) + s.phase.owes

/-- An event moves the jobs of a session and no credit of its miner. -/
structure Moved (n : Nat) (s s' : Session) : Prop where
  minerId : s'.minerId = s.minerId
  depth : s'.queueDepth = s.queueDepth
  opened : s'.hungUp = false
  sent : s.sent <+: s'.sent
  pool : s'.pool n = s.pool n
  configures : s'.configures ≤ s.configures

theorem Moved.refl (n : Nat) {s : Session} (hu : s.hungUp = false) : Moved n s s :=
  ⟨rfl, rfl, hu, List.prefix_refl _, rfl, le_rfl⟩

theorem moved_sent {n : Nat} {s : Session} (hu : s.hungUp = false) (hn : n ≤ s.sent.length)
    (ms : List Sent) (phase : Phase) (dispatcher : Option (List Job))
    (hjobs : ms.countP (·.msg.isJob) + (dispatcher.getD []).length = s.hand.length)
    (hconf : ms.countP (·.msg.isConfigure) + phase.owes ≤ s.phase.owes) :
    Moved n s { s with sent := s.sent ++ ms, phase := phase, dispatcher := dispatcher } := by
  refine ⟨rfl, rfl, hu, List.prefix_append _ _, ?_, ?_⟩
  · simp only [pool, hand, List.drop_append_of_le_length hn, List.countP_append] at hjobs ⊢
    omega
  · simp only [configures, List.countP_append]
    omega

theorem moved_push {n : Nat} {s : Session} (hu : s.hungUp = false) (hn : n ≤ s.sent.length)
    {ms : List Sent} (hms : ∀ m ∈ ms, m.msg.isJob = false ∧ m.msg.isConfigure = false) :
    Moved n s (s.push ms) := by
  rw [push_of_open hu]
  refine moved_sent hu hn ms s.phase s.dispatcher ?_ ?_
  · rw [List.countP_eq_zero.mpr fun m hm => by simp [(hms m hm).1], Nat.zero_add]
    rfl
  · rw [List.countP_eq_zero.mpr fun m hm => by simp [(hms m hm).2], Nat.zero_add]

theorem moved_wake (n : Nat) {s : Session} (hu : s.hungUp = false) (k : Nat) :
    Moved n s (s.wake k) := by
  rw [wake]
  split_ifs
  · refine ⟨rfl, rfl, hu, List.prefix_refl _, ?_, le_rfl⟩
    simp [pool, hand]
  · exact .refl n hu

theorem moved_sendJob {n : Nat} {s : Session} (hu : s.hungUp = false) (hn : n ≤ s.sent.length)
    (round : Nat) : Moved n s (s.sendJob round) := by
  rw [sendJob]
  split
  · next job jobs hd =>
    rw [if_neg (by simp [hu]), push_of_open hu]
    refine moved_sent hu hn _ s.phase (some jobs) ?_ ?_
    · simp [hand, hd, CoordMsg.isJob, Nat.add_comm]
    · simp [CoordMsg.isConfigure]
  · exact .refl n hu

theorem moved_advance [Crates] {n : Nat} {s : Session} (hu : s.hungUp = false)
    (hn : n ≤ s.sent.length) (hd : s.phase ≠ .running ∧ s.phase ≠ .closed → s.dispatcher = none)
    (st : CoordinatorState) (round : Nat) : Moved n s (s.advance st round) := by
  have hgreet : ∀ (m : Sent) (phase : Phase), m.msg.isJob = false →
      (if m.msg.isConfigure then 1 else 0) + phase.owes ≤ s.phase.owes →
      Moved n s (s.greet m phase) := by
    intro m phase hj hc
    rw [greet, if_neg (by simp [hu]), push_of_open hu]
    refine moved_sent hu hn [m] phase s.dispatcher ?_ ?_
    · simp [hj, hand]
    · simpa [List.countP_singleton] using hc
  have hstep : ∀ (phase : Phase) (dispatcher : Option (List Job)), dispatcher.getD [] = s.hand →
      phase.owes ≤ s.phase.owes →
      Moved n s { s with phase := phase, dispatcher := dispatcher } := by
    intro phase dispatcher hh hc
    have hm := moved_sent hu hn [] phase dispatcher (by simp [hh]) (by simpa using hc)
    rwa [List.append_nil] at hm
  rw [advance]
  cases hp : s.phase with
  | register => exact hstep .welcome s.dispatcher rfl (by simp [hp, Phase.owes])
  | welcome => exact hgreet _ _ rfl (by simp [hp, Phase.owes, CoordMsg.isConfigure])
  | configure => exact hgreet _ _ rfl (by simp [hp, Phase.owes, CoordMsg.isConfigure])
  | requirements =>
    have hms : ∀ m ∈ snapshot st round, m.msg.isJob = false ∧ m.msg.isConfigure = false := by
      intro m hm
      rcases mem_snapshot hm with ⟨t, ht⟩ | ⟨t, ht⟩ <;> rw [ht] <;> exact ⟨rfl, rfl⟩
    dsimp only
    rw [push_of_open hu]
    refine moved_sent hu hn _ .outbound s.dispatcher ?_ ?_
    · rw [List.countP_eq_zero.mpr fun m hm => by simp [(hms m hm).1], Nat.zero_add]
      rfl
    · rw [List.countP_eq_zero.mpr fun m hm => by simp [(hms m hm).2], Nat.zero_add, hp]
      exact le_rfl
  | outbound => exact hstep .wakeup s.dispatcher rfl (by simp [hp, Phase.owes])
  | wakeup =>
    refine hstep .running (some []) ?_ (by simp [hp, Phase.owes])
    rw [hand, hd (by simp [hp])]
    rfl
  | running | closed => exact .refl n hu

end Session

theorem moved_react {x : World × Channels} {e : ChannelEvent} {tx : SessionId} {minerId : MinerId}
    {s : Session} {n : Nat} (hslot : SlotInv x) (hg : x.2.Guard x.1 e)
    (hs : x.2.sessions.lookup tx = some s) (hu : s.hungUp = false) (hn : n ≤ s.sent.length)
    (hsole : e.sole tx minerId = true) (hgrants : e.grants tx = false)
    (hdisp : ∀ now, e ≠ .dispatch tx now) : s.Moved n (x.2.react x.1 e tx s) := by
  have hrefl : s.Moved n s := .refl n hu
  cases e with
  | advance tx' =>
    simp only [Channels.react]
    split_ifs
    · exact Session.moved_advance hu hn (hslot.dispatcher_none hs) _ _
    · exact hrefl
  | ready tx' | jobRequest tx' credits =>
    have hne : tx' ≠ tx := by simpa [ChannelEvent.grants] using hgrants
    simpa only [Channels.react, if_neg hne] using hrefl
  | hangUp tx' =>
    have hne : tx' ≠ tx := by simpa [ChannelEvent.sole] using hsole
    simpa only [Channels.react, if_neg hne] using hrefl
  | dispatch tx' now =>
    have hne : tx' ≠ tx := fun ht => hdisp now (by rw [ht])
    simpa only [Channels.react, if_neg hne] using hrefl
  | send tx' =>
    simp only [Channels.react]
    split_ifs
    · exact Session.moved_sendJob hu hn _
    · exact hrefl
  | control tx' msg =>
    simp only [Channels.react]
    split_ifs
    · refine Session.moved_push hu hn ?_
      intro m hm
      rw [List.mem_singleton.mp hm]
      cases msg <;> first | exact ⟨rfl, rfl⟩ | exact absurd hg.2 Bool.noConfusion
    · exact hrefl
  | deliver tx' =>
    simp only [Channels.react]
    split_ifs
    · refine Session.moved_push hu hn ?_
      intro m hm
      obtain ⟨b, -, rfl⟩ := Option.map_eq_some_iff.mp (Option.mem_toList.mp hm)
      cases b <;> exact ⟨rfl, rfl⟩
    · exact hrefl
  | close tx' =>
    simp only [Channels.react]
    split_ifs
    · have hm := Session.moved_sent hu hn [] .closed s.dispatcher (by simp [Session.hand])
        (by simp [Phase.owes])
      rwa [List.append_nil] at hm
    · exact hrefl
  | capabilities tx' caps ids =>
    simp only [Channels.react]
    split_ifs
    · exact Session.moved_wake n hu _
    · exact hrefl
  | topUp snap plans => exact Session.moved_wake n hu _
  | stageMempoolOrders orders => exact Session.moved_wake n hu _
  | _ => exact hrefl

def SoleSession (tx : SessionId) (minerId : MinerId) (c : Channels) : Prop :=
  ∀ tx' s, c.sessions.lookup tx' = some s → s.minerId = minerId → tx' = tx

theorem minerId_react {w : World} {c : Channels} {e : ChannelEvent} {tx : SessionId} {s : Session}
    (hg : c.Guard w e) (hs : c.sessions.lookup tx = some s) :
    (c.react w e tx s).minerId = s.minerId := by
  by_cases hadv : e = .advance tx
  · subst hadv
    simp only [Channels.react, if_true, Session.advance]
    cases hp : s.phase with
    | welcome =>
      obtain ⟨sent, phase, he, -⟩ :=
        s.greet_eq ⟨.welcome Crates.protocolVersion, c.reseeded, true⟩ .configure
      dsimp only
      rw [he]
    | configure =>
      obtain ⟨sent, phase, he, -⟩ :=
        s.greet_eq ⟨.configure s.queueDepth, c.reseeded, true⟩ .requirements
      dsimp only
      rw [he]
    | requirements => exact Session.minerId_push s _
    | _ => rfl
  · by_cases hclose : e = .close tx
    · subst hclose
      simp [Channels.react]
    · exact (Channels.react_keeps hg hs hadv hclose).1

theorem soleSession_next {w : World} {c : Channels} {tx : SessionId} {minerId : MinerId}
    {e : ChannelEvent} (hg : c.Guard w e) (h : SoleSession tx minerId c)
    (hsole : e.sole tx minerId = true) : SoleSession tx minerId (c.next w e) := by
  intro tx' s' hl hm
  have hreact : (c.sessions.mapEntries (c.react w e)).lookup tx' = some s' → tx' = tx := by
    intro hl'
    rw [Finmap.lookup_mapEntries, Option.map_eq_some_iff] at hl'
    obtain ⟨s, hs, rfl⟩ := hl'
    rw [minerId_react hg hs] at hm
    exact h tx' s hs hm
  cases e with
  | hello t m caps depth =>
    have hl' : (c.sessions.insert t (.new m caps depth)).lookup tx' = some s' := hl
    rw [Finmap.lookup_insert_eq] at hl'
    split_ifs at hl' with ht
    · cases hl'
      by_contra hne
      have hmm : m ≠ minerId := by simpa [ChannelEvent.sole, ← ht, hne] using hsole
      exact hmm hm
    · exact h tx' s' hl' hm
  | _ => exact hreact hl

omit [Crates] in
/-- The credits of the miner move when its session registers it or drains its queue. -/
theorem payee_emit {w : World} {c : Channels} {tx : SessionId} {minerId : MinerId}
    {e : ChannelEvent} {d : Section} (hg : c.Guard w e) (h : SoleSession tx minerId c)
    (hsole : e.sole tx minerId = true) (hd : c.emit e = some d) (hp : d.payee = some minerId) :
    (∃ now, e = .dispatch tx now) ∨
      e = .advance tx ∧ ∀ s, c.sessions.lookup tx = some s → s.phase = .register := by
  cases e with
  | advance tx' =>
    obtain ⟨s, hl, hd⟩ := Option.bind_eq_some_iff.mp hd
    cases hph : s.phase <;> rw [hph] at hd <;> cases hd <;> cases hp
    obtain rfl := h tx' s hl rfl
    refine Or.inr ⟨rfl, ?_⟩
    intro s' hl'
    rw [hl] at hl'
    cases hl'
    exact hph
  | dispatch tx' now =>
    obtain ⟨s, hl, hd⟩ := Option.bind_eq_some_iff.mp hd
    obtain ⟨credits, -, rfl⟩ := Option.map_eq_some_iff.mp hd
    cases hp
    obtain rfl := h tx' s hl rfl
    exact Or.inl ⟨now, rfl⟩
  | childExit m owned =>
    cases hd
    cases hp
    simp [ChannelEvent.sole] at hsole
  | capabilities tx' caps ids =>
    obtain ⟨s, -, rfl⟩ := Option.map_eq_some_iff.mp hd
    cases hp
  | close tx' =>
    obtain ⟨s, -, rfl⟩ := Option.map_eq_some_iff.mp hd
    cases hp
  | other d' =>
    cases hd
    cases d <;> first | exact absurd hg Bool.noConfusion | cases hp
  | stopMining | reseed | topUp | stageMempoolOrders =>
    cases hd
    cases hp
  | _ => cases hd

/-- What the session of the miner and its router entry have of its credits. -/
structure Attended (minerId : MinerId) (w : World) (s : Session) : Prop where
  owner : s.minerId = minerId
  opened : s.hungUp = false
  depth : s.queueDepth < 2 ^ 32
  joined : s.phase ≠ .register → minerId ∈ w.coord.router.miners
  configures : s.configures ≤ 1

def Session.gain (tx : SessionId) (s : Session) : ChannelEvent → Nat
  | .ready tx' => if tx' = tx then max s.queueDepth 1 else 0
  | .jobRequest tx' credits => if tx' = tx then credits else 0
  | _ => 0

omit [Crates] in
theorem Session.gain_eq_zero {tx : SessionId} {e : ChannelEvent} (h : e.grants tx = false)
    (s : Session) : s.gain tx e = 0 := by
  cases e with
  | ready tx' | jobRequest tx' credits =>
    have hne : tx' ≠ tx := by simpa [ChannelEvent.grants] using h
    simp [gain, hne]
  | _ => rfl

/-- A drain turns the credits of a grant into jobs in the dispatcher's hand. -/
theorem balance_dispatch (params : FeederParams) {x : World × Channels} {tx : SessionId}
    {minerId : MinerId} {s : Session} {now n : Nat} (hslot : SlotInv x)
    (hs : x.2.sessions.lookup tx = some s) (hat : Attended minerId x.1 s)
    (hfit : x.1.coord.router.creditsOf minerId + s.pool n ≤ 2 ^ 32 - 1)
    (ha : (channelMachine params).allowed x (.dispatch tx now)) :
    let y := (channelMachine params).next x (.dispatch tx now)
    let s' := x.2.react x.1 (.dispatch tx now) tx s
    Attended minerId y.1 s' ∧ s.sent <+: s'.sent ∧ s'.queueDepth = s.queueDepth ∧
      y.1.coord.router.creditsOf minerId + s'.pool n =
        x.1.coord.router.creditsOf minerId + s.pool n := by
  obtain ⟨hdis, hgr⟩ := Channels.of_guard hs ha.1
  obtain ⟨credits, grants, hgs⟩ := List.exists_cons_of_ne_nil hgr
  obtain rfl := hat.owner
  have hemit : x.2.emit (.dispatch tx now) = some (.dispatchGranted s.minerId credits now) := by
    simp [Channels.emit, hs, hgs]
  have hworld : ((channelMachine params).next x (.dispatch tx now)).1 =
      x.1.next params (.dispatchGranted s.minerId credits now) :=
    Machine.Layer.machine_next_fst_some (L := channelLayer params) (x := x)
      (e := ChannelEvent.dispatch tx now) hemit
  have hjoin : s.minerId ∈ x.1.coord.router.miners := by
    apply hat.joined
    intro hreg
    have hrun := hslot.started tx s hs (by simp [hdis])
    rw [hreg] at hrun
    exact hrun.elim Phase.noConfusion Phase.noConfusion
  have hpool : s.pool n = credits + (grants.sum + (s.sent.drop n).countP (·.msg.isJob)) := by
    simp only [Session.pool, Session.hand, hgs, hdis, List.sum_cons, Option.getD_some,
      List.length_nil]
    omega
  have hadd : x.1.coord.router.creditsOf s.minerId + credits ≤ 2 ^ 32 - 1 := by omega
  have hpays := CoordinatorState.dispatchGranted_pays hjoin hadd now
  have hreact : x.2.react x.1 (.dispatch tx now) tx s =
      { s with
        grants := grants
        dispatcher := some (x.1.coord.dispatchGranted s.minerId credits now).2 } := by
    simp [Channels.react, Session.collect, hgs]
  intro y s'
  have hcoord : y.1.coord = (x.1.coord.dispatchGranted s.minerId credits now).1 :=
    congrArg (·.coord) hworld
  have hs' : s' = _ := hreact
  rw [hs', hcoord]
  refine ⟨⟨rfl, hat.opened, hat.depth, fun _ => ?_, hat.configures⟩, List.prefix_refl _, rfl, ?_⟩
  · rw [hcoord]
    exact (CoordinatorState.mem_dispatchGranted x.1.coord s.minerId credits now s.minerId).mpr hjoin
  · rw [hpool]
    simp only [Session.pool, Session.hand, Option.getD_some]
    omega

theorem credits_channel (params : FeederParams) {x : World × Channels} {tx : SessionId}
    {minerId : MinerId} {s : Session} {e : ChannelEvent} (hsole : SoleSession tx minerId x.2)
    (hs : x.2.sessions.lookup tx = some s) (hat : Attended minerId x.1 s)
    (hreg : s.phase = .register → x.1.coord.router.creditsOf minerId = 0)
    (he : e.sole tx minerId = true) (hdisp : ∀ now, e ≠ .dispatch tx now)
    (ha : (channelMachine params).allowed x e) :
    ((channelMachine params).next x e).1.coord.router.creditsOf minerId =
        x.1.coord.router.creditsOf minerId ∧
      ((x.2.react x.1 e tx s).phase ≠ .register →
        minerId ∈ ((channelMachine params).next x e).1.coord.router.miners) := by
  have hstart : s.phase = .register → (x.2.react x.1 e tx s).phase ≠ .register →
      e = .advance tx := by
    intro hp hp'
    by_contra hadv
    have hclose : e ≠ .close tx := by
      intro heq
      subst heq
      exact nomatch hp.symm.trans (Channels.of_guard hs ha.1)
    exact hp' ((Channels.react_keeps ha.1 hs hadv hclose).2.1.trans hp)
  refine Machine.Layer.base_next (L := channelLayer params) (P := fun w : World =>
    w.coord.router.creditsOf minerId = x.1.coord.router.creditsOf minerId ∧
      ((x.2.react x.1 e tx s).phase ≠ .register → minerId ∈ w.coord.router.miners)) ?_ ?_
  · intro hnone
    refine ⟨rfl, fun hp' => hat.joined fun hp => ?_⟩
    obtain rfl := hstart hp hp'
    have hemit : x.2.emit (.advance tx) = none := hnone
    simp [Channels.emit, hs, hp] at hemit
  · intro d (hd : x.2.emit e = some d)
    by_cases hp : d.payee = some minerId
    · rcases payee_emit ha.1 hsole he hd hp with ⟨now, rfl⟩ | ⟨rfl, hph⟩
      · exact absurd rfl (hdisp now)
      · have hphase := hph s hs
        rw [Channels.emit, hs, Option.bind_some, hphase, hat.owner] at hd
        cases hd
        change (x.1.coord.router.registerMiner minerId s.caps).creditsOf minerId = _ ∧
          (_ → minerId ∈ (x.1.coord.router.registerMiner minerId s.caps).miners)
        rw [Router.creditsOf_registerMiner, if_pos rfl, hreg hphase]
        exact ⟨rfl, fun _ => (Router.mem_registerMiner _ _ _ _).mpr (Or.inl rfl)⟩
    · obtain ⟨hc, hm⟩ := World.sameCredits_next params (ha.2 d hd) hp
      refine ⟨hc, fun hp' => ?_⟩
      by_cases hph : s.phase = .register
      · obtain rfl := hstart hph hp'
        rw [Channels.emit, hs, Option.bind_some, hph, hat.owner] at hd
        cases hd
        exact absurd rfl hp
      · exact hm.mpr (hat.joined hph)

theorem balance_channel (params : FeederParams) {x : World × Channels} {tx : SessionId}
    {minerId : MinerId} {s : Session} {e : ChannelEvent} {n : Nat} (hslot : SlotInv x)
    (hsole : SoleSession tx minerId x.2) (hs : x.2.sessions.lookup tx = some s)
    (hat : Attended minerId x.1 s) (hn : n ≤ s.sent.length)
    (hfit : x.1.coord.router.creditsOf minerId + s.pool n ≤ 2 ^ 32 - 1)
    (hreg : s.phase = .register → x.1.coord.router.creditsOf minerId = 0)
    (he : e.sole tx minerId = true)
    (ha : (channelMachine params).allowed x e) :
    let y := (channelMachine params).next x e
    let s' := x.2.react x.1 e tx s
    Attended minerId y.1 s' ∧ s.sent <+: s'.sent ∧ s'.queueDepth = s.queueDepth ∧
      y.1.coord.router.creditsOf minerId + s'.pool n =
        x.1.coord.router.creditsOf minerId + s.pool n + s.gain tx e := by
  have hgrant : ∀ credits, Attended minerId x.1 (s.grant credits) ∧
      s.sent <+: (s.grant credits).sent ∧ (s.grant credits).queueDepth = s.queueDepth ∧
      x.1.coord.router.creditsOf minerId + (s.grant credits).pool n =
        x.1.coord.router.creditsOf minerId + s.pool n + credits := by
    intro credits
    refine ⟨⟨hat.owner, hat.opened, hat.depth, hat.joined, hat.configures⟩, List.prefix_refl _,
      rfl, ?_⟩
    simp only [Session.pool, Session.grant, Session.hand, List.sum_append, List.sum_singleton]
    omega
  cases hgrants : e.grants tx with
  | false =>
    by_cases hdisp : ∃ now, e = .dispatch tx now
    · obtain ⟨now, rfl⟩ := hdisp
      exact balance_dispatch params hslot hs hat hfit ha
    · have hdisp' : ∀ now, e ≠ .dispatch tx now := fun now heq => hdisp ⟨now, heq⟩
      have hm := moved_react hslot ha.1 hs hat.opened hn he hgrants hdisp'
      obtain ⟨hc, hj⟩ := credits_channel params hsole hs hat hreg he hdisp' ha
      have hdepth := hm.depth
      refine ⟨⟨hm.minerId.trans hat.owner, hm.opened, ?_, hj, hm.configures.trans hat.configures⟩,
        hm.sent, hdepth, ?_⟩
      · rw [hdepth]
        exact hat.depth
      · rw [hc, hm.pool, Session.gain_eq_zero hgrants, Nat.add_zero]
  | true =>
    have hreact : x.2.react x.1 e tx s = s.grant (s.gain tx e) := by
      cases e with
      | ready tx' | jobRequest tx' credits =>
        have ht : tx' = tx := by simpa [ChannelEvent.grants] using hgrants
        simp [Channels.react, Session.gain, ht]
      | _ => exact absurd hgrants Bool.noConfusion
    have hworld : ((channelMachine params).next x e).1 = x.1 := by
      cases e with
      | ready tx' | jobRequest tx' credits => rfl
      | _ => exact absurd hgrants Bool.noConfusion
    intro y s'
    have hs' : s' = s.grant (s.gain tx e) := hreact
    have hy : y.1 = x.1 := hworld
    rw [hs', hy]
    exact hgrant _

theorem lookup_opens {w : World} {c : Channels} {tx : SessionId} {minerId : MinerId}
    {e : ChannelEvent} (hs : c.sessions.lookup tx = none) (he : e.sole tx minerId = true) :
    (c.next w e).sessions.lookup tx = none ∨ ∃ caps depth,
      depth < 2 ^ 32 ∧ (c.next w e).sessions.lookup tx = some (.new minerId caps depth) := by
  have hreact : (c.sessions.mapEntries (c.react w e)).lookup tx = none := by
    rw [Finmap.lookup_mapEntries, hs]
    rfl
  cases e with
  | hello t m caps depth =>
    change (c.sessions.insert t (.new m caps depth)).lookup tx = none ∨ _
    by_cases ht : t = tx
    · subst ht
      simp only [ChannelEvent.sole, if_true, Bool.and_eq_true, beq_iff_eq, decide_eq_true_eq] at he
      obtain ⟨rfl, hdepth⟩ := he
      exact Or.inr ⟨caps, depth, hdepth, Finmap.lookup_insert _⟩
    · left
      rw [Finmap.lookup_insert_of_ne _ fun heq => ht heq.symm]
      exact hs
  | _ => exact Or.inl hreact

end QuipCoordinator
