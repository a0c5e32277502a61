import QuipCoordinator.Registrations
import QuipCoordinator.SectionFrames

/-!
# Whose registrations a teardown removes

The channels of a miner are kept under its id. A session that ends removes the
entries of its miner, and a supervisor the outbound one, also when a newer session
of the miner has put its own channels there. `newest` names, for each miner, the
newest live session that registered. Its channels stay in place while it is live
as long as no such step runs then, and no older session registers after it.
-/

namespace QuipCoordinator

section
variable [Crates]
open CoordinatorState

omit [Crates] in
def Section.registers : Section → Bool
  | .registerOutbound _ _ | .registerWakeup _ _ | .deregisterOutbound _ | .childExit _ _ => true
  | _ => false

theorem World.outbound_next (params : FeederParams) (w : World) {d : Section}
    (h : d.registers = false) : (w.next params d).coord.outbound = w.coord.outbound := by
  cases hsh : d.shuffles with
  | true => exact of_rest (·.outbound) (fun _ => rfl) (World.rest_next params w hsh)
  | false =>
    cases d with
    | takeResult minerId jobId =>
      change (w.coord.takeResult minerId jobId).1.rest.outbound = _
      rw [rest_takeResult]
      rfl
    | settle o retain =>
      change (w.coord.settle o retain).outbound = _
      rw [CoordinatorState.settle]
      split_ifs <;> rfl
    | topUp snap plans =>
      obtain ⟨router, salts, saltCtr, draws, he⟩ := w.toStaging.topUp_eq params snap plans
      change (w.toStaging.topUp params snap plans).coord.outbound = _
      rw [he]
    | stageMempoolOrders orders =>
      obtain ⟨-, r, m, he⟩ := stageMempoolOrders_spec orders w.coord
      change (w.coord.stageMempoolOrders orders).outbound = _
      rw [he]
    | registerOutbound | registerWakeup | deregisterOutbound | childExit =>
      exact absurd h Bool.noConfusion
    | registerMiner | applyCapabilities | dispatchGranted | noteResult | rejectJob
    | handleLeaseDone => exact absurd hsh Bool.noConfusion
    | _ => rfl

theorem World.registrations_next (params : FeederParams) (w : World) {d : Section}
    (h : d.registers = false) : (w.next params d).coord.outbound = w.coord.outbound ∧
      (w.next params d).coord.wakeups = w.coord.wakeups := by
  refine ⟨w.outbound_next params h, wakeups_next params w ?_ ?_⟩
  · intro minerId tx heq
    rw [heq] at h
    cases h
  · intro minerId heq
    rw [heq] at h
    cases h

theorem World.outbound_childExit (params : FeederParams) (w : World) (minerId : MinerId)
    (owned : List JobId) : (w.next params (.childExit minerId owned)).coord.outbound =
      w.coord.outbound.erase minerId := by
  change (w.coord.childExit minerId owned).rest.outbound = _
  rw [rest_childExit]

inductive Registering (x : World × Channels) (e : ChannelEvent) (st : CoordinatorState) : Prop
  | outbound (tx : SessionId) (s : Session) (event : e = .advance tx)
    (session : x.2.sessions.lookup tx = some s) (phase : s.phase = .outbound)
    (ho : st.outbound = x.1.coord.outbound.insert s.minerId tx)
    (hw : st.wakeups = x.1.coord.wakeups)
  | wakeup (tx : SessionId) (s : Session) (event : e = .advance tx)
    (session : x.2.sessions.lookup tx = some s) (phase : s.phase = .wakeup)
    (ho : st.outbound = x.1.coord.outbound)
    (hw : st.wakeups = x.1.coord.wakeups.insert s.minerId tx)
  | close (tx : SessionId) (s : Session) (event : e = .close tx)
    (session : x.2.sessions.lookup tx = some s)
    (ho : st.outbound = x.1.coord.outbound.erase s.minerId)
    (hw : st.wakeups = x.1.coord.wakeups.erase s.minerId)
  | exit (minerId : MinerId) (owned : List JobId) (event : e = .childExit minerId owned)
    (ho : st.outbound = x.1.coord.outbound.erase minerId)
    (hw : st.wakeups = x.1.coord.wakeups)
  | keep (calm : ∀ tx s, e = .advance tx → x.2.sessions.lookup tx = some s →
      s.phase ≠ .outbound ∧ s.phase ≠ .wakeup)
    (ho : st.outbound = x.1.coord.outbound) (hw : st.wakeups = x.1.coord.wakeups)

omit [Crates] in
theorem emit_registers {w : World} {c : Channels} {e : ChannelEvent} {d : Section}
    (hg : c.Guard w e) (hadv : ∀ tx, e ≠ .advance tx) (hclose : ∀ tx, e ≠ .close tx)
    (hexit : ∀ minerId owned, e ≠ .childExit minerId owned) (h : c.emit e = some d) :
    d.registers = false := by
  cases e with
  | advance tx => exact absurd rfl (hadv tx)
  | close tx => exact absurd rfl (hclose tx)
  | childExit minerId owned => exact absurd rfl (hexit minerId owned)
  | dispatch tx now =>
    obtain ⟨s, -, h⟩ := Option.bind_eq_some_iff.mp h
    obtain ⟨n, -, rfl⟩ := Option.map_eq_some_iff.mp h
    rfl
  | capabilities tx caps ids =>
    obtain ⟨s, -, rfl⟩ := Option.map_eq_some_iff.mp h
    rfl
  | other d' =>
    cases h
    cases d <;> first | rfl | exact absurd hg Bool.noConfusion
  | stopMining | reseed | topUp | stageMempoolOrders =>
    cases h
    rfl
  | _ => cases h

theorem registering_keep (params : FeederParams) {x : World × Channels} {e : ChannelEvent}
    (hg : x.2.Guard x.1 e) (hadv : ∀ tx, e ≠ .advance tx) (hclose : ∀ tx, e ≠ .close tx)
    (hexit : ∀ minerId owned, e ≠ .childExit minerId owned) :
    Registering x e ((channelMachine params).next x e).1.coord := by
  have hcalm : ∀ tx s, e = .advance tx → x.2.sessions.lookup tx = some s →
      s.phase ≠ .outbound ∧ s.phase ≠ .wakeup := fun tx _ heq => absurd heq (hadv tx)
  refine Machine.Layer.base_next (P := fun w : World => Registering x e w.coord) ?_ ?_
  · exact fun _ => .keep hcalm rfl rfl
  · intro d (hd : x.2.emit e = some d)
    obtain ⟨ho, hw⟩ := x.1.registrations_next params (emit_registers hg hadv hclose hexit hd)
    exact .keep hcalm ho hw

theorem registering_next (params : FeederParams) {x : World × Channels} {e : ChannelEvent}
    (hg : x.2.Guard x.1 e) : Registering x e ((channelMachine params).next x e).1.coord := by
  cases e with
  | advance tx =>
    obtain ⟨s, hs, -⟩ := id hg
    have hs' : x.2.sessions.lookup tx = some s := hs
    have hcalm : s.phase ≠ .outbound ∧ s.phase ≠ .wakeup → ∀ tx' s', ChannelEvent.advance tx =
        .advance tx' → x.2.sessions.lookup tx' = some s' →
          s'.phase ≠ .outbound ∧ s'.phase ≠ .wakeup := by
      intro hp tx' s' heq hl
      cases heq
      rw [hs'] at hl
      cases hl
      exact hp
    change Registering x (.advance tx) ((x.2.emit (.advance tx)).elim x.1 (x.1.next params)).coord
    rw [Channels.emit, hs', Option.bind_some]
    cases hp : s.phase with
    | outbound => exact .outbound tx s rfl hs' hp rfl rfl
    | wakeup => exact .wakeup tx s rfl hs' hp rfl rfl
    | register | welcome | configure | requirements | running | closed =>
      exact .keep (hcalm (by simp [hp])) rfl rfl
  | close tx =>
    obtain ⟨s, hs, -⟩ := id hg
    have hs' : x.2.sessions.lookup tx = some s := hs
    change Registering x (.close tx) ((x.2.emit (.close tx)).elim x.1 (x.1.next params)).coord
    rw [Channels.emit, hs', Option.map_some]
    exact .close tx s rfl hs' rfl rfl
  | childExit minerId owned =>
    have hw := wakeups_next params x.1 (d := .childExit minerId owned) (by simp) (by simp)
    exact .exit minerId owned rfl (x.1.outbound_childExit params minerId owned) hw
  | _ => exact registering_keep params hg (by simp) (by simp) (by simp)

/-! The order in which the sessions said hello, and for each miner the newest live
session that registered its outbound channel. -/

omit [Crates] in
/-- The session can be reached through the channels it registers. -/
def Session.live (s : Session) : Bool :=
  !s.hungUp && (s.phase == .wakeup || s.phase == .running)

structure Arrivals where
  order : List SessionId
  newest : Table MinerId SessionId
deriving DecidableEq

namespace Arrivals
omit [Crates]

def init : Arrivals := ⟨[], ∅⟩

/-- A live session of the miner that said hello after `tx` has registered. -/
def superseded (a : Arrivals) (c : Channels) (minerId : MinerId) (tx : SessionId) : Bool :=
  (a.newest.lookup minerId).any fun cur =>
    (c.sessions.lookup cur).any Session.live && a.order.idxOf tx < a.order.idxOf cur

def next (c : Channels) (a : Arrivals) : ChannelEvent → Arrivals
  | .hello tx _ _ _ => { a with order := a.order ++ [tx] }
  | .advance tx => (c.sessions.lookup tx).elim a fun s =>
    if s.phase = .outbound ∧ a.superseded c s.minerId tx = false then
      { a with newest := a.newest.insert s.minerId tx }
    else a
  | _ => a

end Arrivals

def arrivalLayer (params : FeederParams) :
    Machine.Layer (channelMachine params) Arrivals ChannelEvent where
  init := .init
  guard _ _ _ := True
  emit _ _ e := some e
  next x a := a.next x.2

abbrev arrivalMachine (params : FeederParams) :
    Machine ((World × Channels) × Arrivals) ChannelEvent :=
  (arrivalLayer params).machine

instance (params : FeederParams) (x : (World × Channels) × Arrivals) (e : ChannelEvent) :
    Decidable ((arrivalMachine params).allowed x e) :=
  inferInstanceAs (Decidable (True ∧ ∀ d ∈ some e, (channelMachine params).allowed x.1 d))

omit [Crates] in
/-- No live session other than `tx` is the newest of the miner. -/
def Unshared (x : (World × Channels) × Arrivals) (minerId : MinerId) (tx : Option SessionId) : Prop :=
  ∀ cur ∈ x.2.newest.lookup minerId, some cur ≠ tx →
    ∀ s ∈ x.1.2.sessions.lookup cur, s.live = false

omit [Crates] in
/-- A session ends, and a supervisor reclaims, while no newer session of the miner is live; an
older session does not register after a newer live one. -/
def TeardownSafe (x : (World × Channels) × Arrivals) : ChannelEvent → Prop
  | .close tx => ∀ s ∈ x.1.2.sessions.lookup tx, Unshared x s.minerId (some tx)
  | .childExit minerId _ => Unshared x minerId none
  | .advance tx => ∀ s ∈ x.1.2.sessions.lookup tx,
    (s.phase = .outbound → x.2.superseded x.1.2 s.minerId tx = false) ∧
      (s.phase = .wakeup → ∀ cur ∈ x.2.newest.lookup s.minerId, cur ≠ tx →
        ∀ s' ∈ x.1.2.sessions.lookup cur, s'.live = true → s'.phase ≠ .running)
  | _ => True

omit [Crates] in
instance (x : (World × Channels) × Arrivals) (minerId : MinerId) (tx : Option SessionId) :
    Decidable (Unshared x minerId tx) :=
  inferInstanceAs (Decidable (∀ cur ∈ x.2.newest.lookup minerId, some cur ≠ tx →
    ∀ s ∈ x.1.2.sessions.lookup cur, s.live = false))

omit [Crates] in
instance (x : (World × Channels) × Arrivals) : (e : ChannelEvent) → Decidable (TeardownSafe x e)
  | .close tx => inferInstanceAs
      (Decidable (∀ s ∈ x.1.2.sessions.lookup tx, Unshared x s.minerId (some tx)))
  | .childExit minerId _ => inferInstanceAs (Decidable (Unshared x minerId none))
  | .advance tx => inferInstanceAs (Decidable (∀ s ∈ x.1.2.sessions.lookup tx, _ ∧
      (s.phase = .wakeup → ∀ cur ∈ x.2.newest.lookup s.minerId, cur ≠ tx →
        ∀ s' ∈ x.1.2.sessions.lookup cur, s'.live = true → s'.phase ≠ .running)))
  | .hello _ _ _ _ | .ready _ | .jobRequest _ _ | .dispatch _ _ | .send _ | .capabilities _ _ _
  | .hangUp _ | .control _ _ | .stopMining | .reseed _ _ _ | .clone | .deliver _ | .delivered
  | .retarget _ | .topUp _ _ | .stageMempoolOrders _ | .other _ => .isTrue trivial

omit [Crates] in
def Session.settled (s : Session) : Prop :=
  s.phase = .wakeup ∨ s.phase = .running ∨ s.phase = .closed

theorem settled_react {w : World} {c : Channels} {e : ChannelEvent} {tx : SessionId} {s : Session}
    (hg : c.Guard w e) (hs : c.sessions.lookup tx = some s) (hset : s.settled) :
    (c.react w e tx s).minerId = s.minerId ∧ (c.react w e tx s).settled ∧
      ((c.react w e tx s).live = true → s.live = true ∧ e ≠ .close tx ∧
        ((c.react w e tx s).phase = s.phase ∨ e = .advance tx ∧ s.phase = .wakeup)) := by
  by_cases hadv : e = .advance tx
  · subst hadv
    obtain ⟨hrun, hclosed⟩ := Channels.of_guard hs hg
    have hp : s.phase = .wakeup := hset.resolve_right fun h => h.elim hrun hclosed
    have hreact : c.react w (.advance tx) tx s =
        { s with phase := .running, dispatcher := some [] } := by
      simp only [Channels.react, if_true, Session.advance, hp]
    rw [hreact]
    refine ⟨rfl, Or.inr (Or.inl rfl), ?_⟩
    intro hlive
    have hup : s.hungUp = false := by simpa [Session.live] using hlive
    exact ⟨by simp [Session.live, hup, hp], by simp, Or.inr ⟨rfl, hp⟩⟩
  by_cases hclose : e = .close tx
  · subst hclose
    have hreact : c.react w (.close tx) tx s = { s with phase := .closed } := by
      simp only [Channels.react, if_true]
    rw [hreact]
    refine ⟨rfl, Or.inr (Or.inr rfl), ?_⟩
    intro hlive
    simp [Session.live] at hlive
  · obtain ⟨hm, hp, -⟩ := Channels.react_keeps hg hs hadv hclose
    refine ⟨hm, by rwa [Session.settled, hp], ?_⟩
    intro hlive
    simp only [Session.live, hp, Bool.and_eq_true, Bool.not_eq_true'] at hlive
    refine ⟨?_, hclose, Or.inl hp⟩
    simp only [Session.live, Bool.and_eq_true, Bool.not_eq_true']
    exact ⟨Channels.open_of_react hlive.1, hlive.2⟩

omit [Crates] in
theorem Arrivals.newest_next {c : Channels} {a : Arrivals} {e : ChannelEvent} {minerId : MinerId}
    {tx : SessionId} (h : (a.next c e).newest.lookup minerId = some tx) :
    (∃ s, e = .advance tx ∧ c.sessions.lookup tx = some s ∧ s.phase = .outbound ∧
        s.minerId = minerId) ∨
      a.newest.lookup minerId = some tx ∧ ∀ t s, e = .advance t → c.sessions.lookup t = some s →
        s.phase = .outbound → a.superseded c s.minerId t = false → s.minerId ≠ minerId := by
  cases e with
  | advance t =>
    simp only [Arrivals.next] at h
    cases hs : c.sessions.lookup t with
    | none =>
      rw [hs] at h
      refine Or.inr ⟨h, ?_⟩
      intro t' s heq hl
      cases heq
      rw [hs] at hl
      cases hl
    | some s =>
      rw [hs, Option.elim_some] at h
      split_ifs at h with hreg
      · rw [Finmap.lookup_insert_eq] at h
        split_ifs at h with hm
        · cases h
          exact Or.inl ⟨s, rfl, hs, hreg.1, hm.symm⟩
        · refine Or.inr ⟨h, ?_⟩
          intro t' s' heq hl _ _
          cases heq
          rw [hs] at hl
          cases hl
          exact Ne.symm hm
      · refine Or.inr ⟨h, ?_⟩
        intro t' s' heq hl hp hsup
        cases heq
        rw [hs] at hl
        cases hl
        exact absurd ⟨hp, hsup⟩ hreg
  | _ => exact Or.inr ⟨h, by simp⟩

structure NewestInv (x : (World × Channels) × Arrivals) : Prop where
  own : ∀ minerId tx, x.2.newest.lookup minerId = some tx → ∃ s,
    x.1.2.sessions.lookup tx = some s ∧ s.minerId = minerId ∧ s.settled
  kept : ∀ minerId tx s, x.2.newest.lookup minerId = some tx →
    x.1.2.sessions.lookup tx = some s → s.live = true →
    x.1.1.coord.outbound.lookup minerId = some tx ∧
      (s.phase = .running → x.1.1.coord.wakeups.lookup minerId = some tx)

theorem NewestInv.own_next (params : FeederParams) {x : (World × Channels) × Arrivals}
    {e : ChannelEvent} (h : NewestInv x) (hg : x.1.2.Guard x.1.1 e) {minerId : MinerId}
    {tx : SessionId} (hnew : (x.2.next x.1.2 e).newest.lookup minerId = some tx) : ∃ s,
      ((channelMachine params).next x.1 e).2.sessions.lookup tx = some s ∧ s.minerId = minerId ∧
        s.settled := by
  rcases Arrivals.newest_next hnew with ⟨s, rfl, hs, hp, rfl⟩ | ⟨hold, -⟩
  · refine ⟨_, Channels.lookup_next_of_some hg hs, ?_⟩
    simp only [Channels.react, if_true, Session.advance, hp]
    exact ⟨trivial, Or.inl rfl⟩
  · obtain ⟨s, hs, rfl, hset⟩ := h.own minerId tx hold
    obtain ⟨hm, hset', -⟩ := settled_react hg hs hset
    exact ⟨_, Channels.lookup_next_of_some hg hs, hm, hset'⟩

theorem kept_registered (params : FeederParams) {x : World × Channels} {tx : SessionId}
    {s : Session} (hg : x.2.Guard x.1 (.advance tx)) (hs : x.2.sessions.lookup tx = some s)
    (hp : s.phase = .outbound) :
    ((channelMachine params).next x (.advance tx)).1.coord.outbound.lookup s.minerId = some tx := by
  cases registering_next params hg with
  | outbound t s' he hl _ ho _ =>
    cases he
    rw [hs] at hl
    cases hl
    rw [ho]
    exact Finmap.lookup_insert _
  | wakeup t s' he hl hp' _ _ =>
    cases he
    rw [hs] at hl
    cases hl
    rw [hp] at hp'
    cases hp'
  | close t s' he _ _ _ => cases he
  | exit m owned he _ _ => cases he
  | keep hcalm _ _ => exact absurd hp (hcalm tx s rfl hs).1

theorem NewestInv.kept_next (params : FeederParams) {x : (World × Channels) × Arrivals}
    {e : ChannelEvent} (h : NewestInv x) (hg : x.1.2.Guard x.1.1 e) (hok : TeardownSafe x e)
    {minerId : MinerId} {tx : SessionId} {s' : Session}
    (hnew : (x.2.next x.1.2 e).newest.lookup minerId = some tx)
    (hs' : ((channelMachine params).next x.1 e).2.sessions.lookup tx = some s')
    (hlive : s'.live = true) :
    ((channelMachine params).next x.1 e).1.coord.outbound.lookup minerId = some tx ∧
      (s'.phase = .running →
        ((channelMachine params).next x.1 e).1.coord.wakeups.lookup minerId = some tx) := by
  rcases Arrivals.newest_next hnew with ⟨s, rfl, hs, hp, rfl⟩ | ⟨hold, hother⟩
  · refine ⟨kept_registered params hg hs hp, ?_⟩
    intro hrun
    have hreact : s' = x.1.2.react x.1.1 (.advance tx) tx s :=
      Option.some.inj (hs'.symm.trans (Channels.lookup_next_of_some hg hs))
    simp only [hreact, Channels.react, if_true, Session.advance, hp] at hrun
    cases hrun
  obtain ⟨s, hs, rfl, hset⟩ := h.own minerId tx hold
  have hreact : s' = x.1.2.react x.1.1 e tx s :=
    Option.some.inj (hs'.symm.trans (Channels.lookup_next_of_some hg hs))
  subst hreact
  obtain ⟨-, -, hback⟩ := settled_react hg hs hset
  obtain ⟨hwas, hopen, hphase⟩ := hback hlive
  obtain ⟨hout, hwake⟩ := h.kept s.minerId tx s hold hs hwas
  cases registering_next params hg with
  | outbound t st he hl hp ho hw =>
    have hne : st.minerId ≠ s.minerId := by
      subst he
      exact hother t st rfl hl hp ((hok st hl).1 hp)
    rw [ho, hw, Finmap.lookup_insert_of_ne _ hne.symm]
    refine ⟨hout, fun hrun => hwake ?_⟩
    rcases hphase with hsame | ⟨heq, hpw⟩
    · rw [← hsame, hrun]
    · cases he.symm.trans heq
      rw [hs] at hl
      cases hl
      cases hp.symm.trans hpw
  | wakeup t st he hl hp ho hw =>
    subst he
    rw [ho, hw, Finmap.lookup_insert_eq]
    refine ⟨hout, fun hrun => ?_⟩
    rcases hphase with hsame | ⟨heq, -⟩
    · have hsrun : s.phase = .running := hsame.symm.trans hrun
      have hne : s.minerId ≠ st.minerId := by
        intro hm
        have ht : tx ≠ t := by
          intro ht
          subst ht
          rw [hs] at hl
          cases hl
          cases hp.symm.trans hsrun
        exact (hok st hl).2 hp tx (hm ▸ hold) ht s hs hwas hsrun
      rw [if_neg hne]
      exact hwake hsrun
    · cases heq
      rw [hs] at hl
      cases hl
      rw [if_pos rfl]
  | close t st he hl ho hw =>
    subst he
    have hne : s.minerId ≠ st.minerId := by
      intro hm
      have ht : some tx ≠ some t := by
        intro ht
        cases ht
        exact hopen rfl
      have hdead := hok st hl tx (hm ▸ hold) ht s hs
      rw [hwas] at hdead
      cases hdead
    rw [ho, hw, Finmap.lookup_erase_ne hne, Finmap.lookup_erase_ne hne]
    refine ⟨hout, fun hrun => hwake ?_⟩
    rcases hphase with hsame | ⟨heq, -⟩
    · rw [← hsame, hrun]
    · cases heq
  | exit m owned he ho hw =>
    subst he
    have hne : s.minerId ≠ m := by
      intro hm
      have hdead := hok tx (hm ▸ hold) (by simp) s hs
      rw [hwas] at hdead
      cases hdead
    rw [ho, hw, Finmap.lookup_erase_ne hne]
    refine ⟨hout, fun hrun => hwake ?_⟩
    rcases hphase with hsame | ⟨heq, -⟩
    · rw [← hsame, hrun]
    · cases heq
  | keep hcalm ho hw =>
    rw [ho, hw]
    refine ⟨hout, fun hrun => hwake ?_⟩
    rcases hphase with hsame | ⟨heq, hpw⟩
    · rw [← hsame, hrun]
    · exact absurd hpw (hcalm tx s heq hs).2

/-- In a run in which sessions end and supervisors reclaim while no newer session of the miner is
live, and no older session registers after a newer live one, the newest registered session of a
miner has its channels in place while it is live. -/
theorem newest_session_keeps_its_channels (params : FeederParams)
    {x : (World × Channels) × Arrivals}
    (h : ((arrivalMachine params).restrict TeardownSafe).Reachable x) (minerId : MinerId)
    (tx : SessionId) (s : Session) (hnew : x.2.newest.lookup minerId = some tx)
    (hs : x.1.2.sessions.lookup tx = some s) (hrun : s.phase = .running) (hup : s.hungUp = false) :
    x.1.1.coord.outbound.lookup minerId = some tx ∧
      x.1.1.coord.wakeups.lookup minerId = some tx := by
  have hinv : NewestInv x := by
    refine h.invariant (I := NewestInv) ?_ ?_
    · refine ⟨?_, ?_⟩
      · intro minerId tx hl
        simp [Arrivals.init, arrivalLayer, Machine.restrict, Machine.Layer.machine] at hl
      · intro minerId tx s hl
        simp [Arrivals.init, arrivalLayer, Machine.restrict, Machine.Layer.machine] at hl
    · intro x e _ hi ha
      have hg : x.1.2.Guard x.1.1 e := (ha.1.2 e rfl).1
      exact ⟨fun m t hl => hi.own_next params hg hl,
        fun m t s hl hs hlive => hi.kept_next params hg ha.2 hl hs hlive⟩
  have hlive : s.live = true := by simp [Session.live, hup, hrun]
  obtain ⟨hout, hwake⟩ := hinv.kept minerId tx s hnew hs hlive
  exact ⟨hout, hwake hrun⟩

end

namespace Sample

def rejoined : List ChannelEvent :=
  [.hello 1 "a" caps 1, .advance 1, .advance 1, .advance 1, .advance 1, .advance 1, .advance 1]

end Sample

open Sample in
theorem newest_session_keeps_its_channels_sample :
    let x := (arrivalMachine params).run (arrivalMachine params).init (joined ++ [.close 0] ++ rejoined)
    x.2.newest.lookup "a" = some 1 ∧ x.1.1.coord.outbound.lookup "a" = some 1 ∧
      x.1.1.coord.wakeups.lookup "a" = some 1 := by
  have hphase : ((((arrivalMachine params).run (arrivalMachine params).init
      (joined ++ [.close 0] ++ rejoined)).1.2.sessions.lookup 1).map fun s => (s.phase, s.hungUp)) =
      some (.running, false) := by decide +kernel
  obtain ⟨s, hs, heq⟩ := Option.map_eq_some_iff.mp hphase
  obtain ⟨hrun, hup⟩ := Prod.mk.inj heq
  have hnew : ((arrivalMachine params).run (arrivalMachine params).init
      (joined ++ [.close 0] ++ rejoined)).2.newest.lookup "a" = some 1 := by decide +kernel
  exact ⟨hnew, newest_session_keeps_its_channels params
    (Machine.reachable_restrict_run (M := arrivalMachine params) _ (by decide +kernel)) "a" 1 s hnew
    hs hrun hup⟩

open Sample in
/-- The old session ends after the new one registered, and takes the new one's channels out. -/
theorem old_teardown_removes_new_channels :
    let x := (arrivalMachine params).run (arrivalMachine params).init (joined ++ rejoined ++ [.close 0])
    (arrivalMachine params).Reachable x ∧ x.2.newest.lookup "a" = some 1 ∧
      ((x.1.2.sessions.lookup 1).map fun s => (s.phase, s.hungUp)) = some (.running, false) ∧
      x.1.1.coord.outbound.lookup "a" = none ∧ x.1.1.coord.wakeups.lookup "a" = none :=
  ⟨Machine.reachable_run (M := arrivalMachine params) _ (by decide +kernel), by decide +kernel,
    by decide +kernel, by decide +kernel, by decide +kernel⟩

end QuipCoordinator
