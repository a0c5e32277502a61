import QuipCoordinator.SessionChannels

/-!
# Registrations and activity

The end of a session removes the miner's registrations, also those of a later
session of the same miner. What stays true is that a wakeup channel is the one
of a running session, and that only a session whose handshake ended has a
dispatcher. So a session that closed gets no further credits, and one that can
collect jobs took its handshake snapshot.
-/

namespace QuipCoordinator
variable [Crates]
open CoordinatorState

/-- The registrations: a wakeup channel belongs to a running session of its miner, and only a
session that has run has a dispatcher. -/
structure SlotInv (x : World × Channels) : Prop where
  wakeups : ∀ minerId tx, x.1.coord.wakeups.lookup minerId = some tx →
    ∃ s, x.2.sessions.lookup tx = some s ∧ s.minerId = minerId ∧ s.phase = .running
  started : ∀ tx s, x.2.sessions.lookup tx = some s → s.dispatcher ≠ none →
    s.phase = .running ∨ s.phase = .closed

theorem slotInv_init (params : FeederParams) : SlotInv (channelMachine params).init where
  wakeups := by
    intro minerId tx h
    have hnone : (∅ : Table MinerId SessionId).lookup minerId = some tx := h
    simp at hnone
  started := fun _ _ h => absurd h (no_session_init params)

omit [Crates] in
theorem SlotInv.dispatcher_none {x : World × Channels} (h : SlotInv x) {tx : SessionId}
    {s : Session} (hs : x.2.sessions.lookup tx = some s)
    (hp : s.phase ≠ .running ∧ s.phase ≠ .closed) : s.dispatcher = none := by
  by_contra hne
  rcases h.started tx s hs hne with hrun | hclosed
  · exact hp.1 hrun
  · exact hp.2 hclosed

theorem wakeups_next (params : FeederParams) (w : World) {d : Section}
    (hreg : ∀ minerId tx, d ≠ .registerWakeup minerId tx)
    (hdereg : ∀ minerId, d ≠ .deregisterOutbound minerId) :
    (w.next params d).coord.wakeups = w.coord.wakeups := by
  cases hm : d.moves with
  | true => exact (World.next_moves params w hm).wakeups
  | false =>
    cases d with
    | registerWakeup minerId tx => exact absurd rfl (hreg minerId tx)
    | deregisterOutbound minerId => exact absurd rfl (hdereg minerId)
    | settle o retain =>
      change (w.coord.settle o retain).wakeups = _
      rw [CoordinatorState.settle]
      split_ifs <;> rfl
    | topUp snap plans =>
      obtain ⟨router, salts, saltCtr, draws, he⟩ := w.toStaging.topUp_eq params snap plans
      change (w.toStaging.topUp params snap plans).coord.wakeups = _
      rw [he]
    | stageMempoolOrders orders =>
      obtain ⟨-, r, m, he⟩ := stageMempoolOrders_spec orders w.coord
      change (w.coord.stageMempoolOrders orders).wakeups = _
      rw [he]
    | recordBest | winSuccess | markSubmitted | stopMining | reseed => rfl
    | _ => exact absurd hm Bool.noConfusion

theorem wakeups_channel (params : FeederParams) {x : World × Channels} {e : ChannelEvent}
    (hg : x.2.Guard x.1 e) (hadv : ∀ tx, e ≠ .advance tx) (hclose : ∀ tx, e ≠ .close tx) :
    ((channelMachine params).next x e).1.coord.wakeups = x.1.coord.wakeups := by
  refine Machine.Layer.base_next (P := fun w : World => w.coord.wakeups = x.1.coord.wakeups) ?_ ?_
  · exact fun _ => rfl
  · intro d (hd : x.2.emit e = some d)
    refine wakeups_next params x.1 ?_ ?_
    · intro minerId tx heq
      subst heq
      cases e with
      | advance tx' => exact hadv tx' rfl
      | close tx' => exact hclose tx' rfl
      | other e' =>
        cases hd
        exact absurd hg Bool.noConfusion
      | _ => simp [Channels.emit, Option.bind_eq_some_iff] at hd
    · intro minerId heq
      subst heq
      cases e with
      | advance tx' => exact hadv tx' rfl
      | close tx' => exact hclose tx' rfl
      | other e' =>
        cases hd
        exact absurd hg Bool.noConfusion
      | _ => simp [Channels.emit, Option.bind_eq_some_iff] at hd

theorem running_next {w : World} {c : Channels} {e : ChannelEvent} {tx : SessionId} {s : Session}
    (hg : c.Guard w e) (hs : c.sessions.lookup tx = some s) (hrun : s.phase = .running)
    (hclose : e ≠ .close tx) : ∃ s', (c.next w e).sessions.lookup tx = some s' ∧
      s'.minerId = s.minerId ∧ s'.phase = .running := by
  refine ⟨_, Channels.lookup_next_of_some hg hs, ?_⟩
  have hadv : e ≠ .advance tx := by
    intro heq
    subst heq
    exact (Channels.of_guard hs hg).1 hrun
  obtain ⟨hm, hp, -⟩ := Channels.react_keeps hg hs hadv hclose
  exact ⟨hm, hp.trans hrun⟩

theorem SlotInv.wakeups_next (params : FeederParams) {x : World × Channels} {e : ChannelEvent}
    (h : SlotInv x) (hg : x.2.Guard x.1 e) {minerId : MinerId} {tx : SessionId}
    (hl : ((channelMachine params).next x e).1.coord.wakeups.lookup minerId = some tx) :
    ∃ s, ((channelMachine params).next x e).2.sessions.lookup tx = some s ∧
      s.minerId = minerId ∧ s.phase = .running := by
  have hold : x.1.coord.wakeups.lookup minerId = some tx → e ≠ .close tx →
      ∃ s, ((channelMachine params).next x e).2.sessions.lookup tx = some s ∧
        s.minerId = minerId ∧ s.phase = .running := by
    intro hw hclose
    obtain ⟨s, hs, hm, hrun⟩ := h.wakeups minerId tx hw
    obtain ⟨s', hs', hm', hrun'⟩ := running_next hg hs hrun hclose
    exact ⟨s', hs', hm'.trans hm, hrun'⟩
  cases e with
  | advance tx' =>
    obtain ⟨s, hs, -⟩ := id hg
    have hs' : x.2.sessions.lookup tx' = some s := hs
    revert hl
    change ((x.2.emit (.advance tx')).elim x.1 (x.1.next params)).coord.wakeups.lookup minerId =
      some tx → _
    rw [Channels.emit, hs', Option.bind_some]
    cases hp : s.phase with
    | wakeup =>
      intro hl
      have hins : (x.1.coord.wakeups.insert s.minerId tx').lookup minerId = some tx := hl
      rw [Finmap.lookup_insert_eq] at hins
      split_ifs at hins with hm
      · cases hins
        refine ⟨_, Channels.lookup_next_of_some hg hs', ?_⟩
        simp only [Channels.react, if_true, Session.advance, hp]
        exact ⟨hm.symm, trivial⟩
      · exact hold hins (by simp)
    | register | outbound =>
      intro hl
      exact hold hl (by simp)
    | _ => exact fun hl => hold hl (by simp)
  | close tx' =>
    obtain ⟨s, hs, -⟩ := id hg
    have hs' : x.2.sessions.lookup tx' = some s := hs
    revert hl
    change ((x.2.emit (.close tx')).elim x.1 (x.1.next params)).coord.wakeups.lookup minerId =
      some tx → _
    rw [Channels.emit, hs', Option.map_some]
    intro hl
    have her : (x.1.coord.wakeups.erase s.minerId).lookup minerId = some tx := hl
    rw [Finmap.lookup_erase_eq] at her
    split_ifs at her with hm
    refine hold her ?_
    intro heq
    cases heq
    obtain ⟨s', hl', hm', -⟩ := h.wakeups minerId tx her
    rw [hs'] at hl'
    cases hl'
    exact hm hm'.symm
  | _ =>
    rw [wakeups_channel params hg (by simp) (by simp)] at hl
    exact hold hl (by simp)

theorem Session.advance_started (s : Session) (st : CoordinatorState) (round : Nat)
    (hd : s.dispatcher = none) : (s.advance st round).dispatcher ≠ none →
      (s.advance st round).phase = .running := by
  rw [Session.advance]
  cases s.phase with
  | wakeup => exact fun _ => rfl
  | welcome =>
    obtain ⟨sent, phase', he, -⟩ := s.greet_eq ⟨.welcome Crates.protocolVersion, round, true⟩ .configure
    dsimp only
    rw [he]
    exact fun h => absurd hd h
  | configure =>
    obtain ⟨sent, phase', he, -⟩ :=
      s.greet_eq ⟨.configure s.queueDepth, round, true⟩ .requirements
    dsimp only
    rw [he]
    exact fun h => absurd hd h
  | requirements => exact fun h => absurd ((dispatcher_push s _).trans hd) h
  | _ => exact fun h => absurd hd h

theorem slotInv_next (params : FeederParams) {x : World × Channels} {e : ChannelEvent}
    (h : SlotInv x) (hg : x.2.Guard x.1 e) : SlotInv ((channelMachine params).next x e) where
  wakeups := fun _ _ hl => h.wakeups_next params hg hl
  started := by
    intro tx s' hs' hd
    rcases Channels.lookup_next hs' with ⟨m, caps, depth, rfl⟩ | ⟨s, hs, rfl⟩
    · exact absurd rfl hd
    · by_cases hadv : e = .advance tx
      · subst hadv
        have hnone := h.dispatcher_none hs (Channels.of_guard hs hg)
        simp only [Channels.react, if_true] at hd ⊢
        exact Or.inl (s.advance_started x.1.coord x.2.reseeded hnone hd)
      by_cases hclose : e = .close tx
      · subst hclose
        exact Or.inr (by simp [Channels.react])
      · obtain ⟨-, hp, hdis⟩ := Channels.react_keeps hg hs hadv hclose
        rw [hp]
        exact h.started tx s hs (hdis hd)

theorem grants_react {x : World × Channels} {e : ChannelEvent} {tx : SessionId} {s : Session}
    (hslot : SlotInv x) (hg : x.2.Guard x.1 e) (hs : x.2.sessions.lookup tx = some s)
    (hp : s.phase = .closed) (h : (x.2.react x.1 e tx s).grants ≠ []) : s.grants ≠ [] := by
  have hwake : ∀ ids, (s.wake (Channels.wakeups x.1.coord ids tx)).grants ≠ [] → s.grants ≠ [] := by
    intro ids
    have hzero : Channels.wakeups x.1.coord ids tx = 0 := by
      rw [Channels.wakeups, List.countP_eq_zero]
      intro id _ hid
      obtain ⟨s', hs', -, hrun⟩ := hslot.wakeups id tx (by simpa using hid)
      rw [hs] at hs'
      cases hs'
      exact nomatch hp.symm.trans hrun
    rw [hzero, Session.wake]
    split_ifs <;> simp
  cases e with
  | advance tx' =>
    simp only [Channels.react] at h
    split_ifs at h
    · rwa [Session.advance, hp] at h
    · exact h
  | ready tx' | jobRequest tx' credits =>
    simp only [Channels.react] at h
    split_ifs at h with ht
    · subst ht
      exact nomatch hp.symm.trans (Channels.of_guard hs hg).1
    · exact h
  | dispatch tx' now =>
    simp only [Channels.react] at h
    split_ifs at h with ht
    · subst ht
      exact (Channels.of_guard hs hg).2
    · exact h
  | send tx' =>
    simp only [Channels.react] at h
    split_ifs at h
    · obtain ⟨sent, dispatcher, he, -⟩ := s.sendJob_eq x.2.reseeded
      rwa [he] at h
    · exact h
  | control tx' msg | deliver tx' =>
    simp only [Channels.react] at h
    split_ifs at h
    · rwa [Session.grants_push] at h
    · exact h
  | close tx' | hangUp tx' =>
    simp only [Channels.react] at h
    split_ifs at h <;> exact h
  | capabilities tx' caps ids =>
    simp only [Channels.react] at h
    split_ifs at h
    · exact hwake _ h
    · exact h
  | topUp snap plans => exact hwake _ h
  | stageMempoolOrders orders => exact hwake _ h
  | _ => exact h

omit [Crates] in
/-- The session is past its handshake snapshot and its dispatcher can still collect jobs. -/
def Session.active (s : Session) : Bool :=
  match s.phase with
  | .register | .welcome | .configure | .requirements => false
  | .closed => s.dispatcher.isSome && !s.grants.isEmpty
  | .outbound | .wakeup | .running => true

omit [Crates] in
theorem Session.active_greet (s : Session) (m : Sent) {phase : Phase}
    (hp : phase = .configure ∨ phase = .requirements) (hd : s.dispatcher = none) :
    (s.greet m phase).active = false := by
  obtain ⟨sent, phase', he, hph⟩ := s.greet_eq m phase
  rw [he]
  rcases hph with rfl | rfl
  · simp [active, hd]
  · rcases hp with rfl | rfl <;> rfl

theorem active_of_react {x : World × Channels} {e : ChannelEvent} {tx : SessionId} {s : Session}
    (hslot : SlotInv x) (hg : x.2.Guard x.1 e) (hs : x.2.sessions.lookup tx = some s)
    (h : (x.2.react x.1 e tx s).active = true) :
    s.active = true ∨ (e = .advance tx ∧ s.phase = .requirements) := by
  by_cases hadv : e = .advance tx
  · subst hadv
    have hp := Channels.of_guard hs hg
    have hnone := hslot.dispatcher_none hs hp
    simp only [Channels.react, if_true, Session.advance] at h
    cases hph : s.phase with
    | register => simp [hph, Session.active] at h
    | welcome =>
      rw [hph] at h
      exact absurd ((s.active_greet _ (Or.inl rfl) hnone).symm.trans h) Bool.noConfusion
    | configure =>
      rw [hph] at h
      exact absurd ((s.active_greet _ (Or.inr rfl) hnone).symm.trans h) Bool.noConfusion
    | requirements => exact Or.inr ⟨rfl, rfl⟩
    | outbound | wakeup => exact Or.inl (by simp [Session.active, hph])
    | running => exact absurd hph hp.1
    | closed => exact absurd hph hp.2
  by_cases hclose : e = .close tx
  · subst hclose
    have hrun := Channels.of_guard hs hg
    exact Or.inl (by simp [Session.active, hrun])
  · obtain ⟨-, hph, hdis⟩ := Channels.react_keeps hg hs hadv hclose
    refine Or.inl ?_
    rw [Session.active, hph] at h
    cases hp : s.phase with
    | closed =>
      simp only [hp, Bool.and_eq_true, Option.isSome_iff_ne_none, Bool.not_eq_true',
        List.isEmpty_eq_false_iff] at h
      simp only [Session.active, hp, Bool.and_eq_true, Option.isSome_iff_ne_none,
        Bool.not_eq_true', List.isEmpty_eq_false_iff]
      exact ⟨hdis h.1, grants_react hslot hg hs hp h.2⟩
    | register | welcome | configure | requirements =>
      rw [hp] at h
      exact absurd h Bool.noConfusion
    | outbound | wakeup | running => simp [Session.active, hp]

end QuipCoordinator
