import QuipCoordinator.HungryQueues
import QuipCoordinator.Teardown

/-!
# No lost wakeup

A dispatcher drains its miner's queue once for each grant it reads, and parks when
none is left. So a job that is staged for a parked miner with credits waits until
something is put into the miner's grant channel. The feeder, the order staging and
the capability updates do so. A reject, the requeue after a crash and the drain of
another miner hand jobs over and wake nobody. A hungry miner has a grant queued in
every run in which no such hand-off meets a parked miner, and no dispatcher that is
still needed has ended.
-/

namespace QuipCoordinator

/-- A grant is queued for the session's dispatcher, which will read it. -/
def Session.granted (s : Session) : Bool := s.dispatcher.isSome && !s.grants.isEmpty

theorem Session.granted_iff {s : Session} :
    s.granted = true ↔ s.dispatcher ≠ none ∧ s.grants ≠ [] := by
  simp [granted, Option.isSome_iff_ne_none]

namespace Channels

def WokenBy (c : Channels) (txs : Finset SessionId) (minerId : MinerId) : Prop :=
  ∃ tx ∈ txs, (c.sessions.lookup tx).any fun s => s.minerId == minerId && s.granted

instance (c : Channels) (txs : Finset SessionId) (minerId : MinerId) :
    Decidable (c.WokenBy txs minerId) := inferInstanceAs (Decidable (∃ tx ∈ txs, _))

def Woken (c : Channels) (minerId : MinerId) : Prop := c.WokenBy c.sessions.keys minerId

instance (c : Channels) (minerId : MinerId) : Decidable (c.Woken minerId) :=
  inferInstanceAs (Decidable (c.WokenBy _ _))

theorem wokenBy_iff {c : Channels} {txs : Finset SessionId} {minerId : MinerId} :
    c.WokenBy txs minerId ↔ ∃ tx ∈ txs, ∃ s, c.sessions.lookup tx = some s ∧
      s.minerId = minerId ∧ s.granted = true := by
  simp only [WokenBy, Option.any_eq_true, Bool.and_eq_true, beq_iff_eq]

theorem woken_of_lookup {c : Channels} {minerId : MinerId} {tx : SessionId} {s : Session}
    (hs : c.sessions.lookup tx = some s) (hm : s.minerId = minerId) (hg : s.granted = true) :
    c.Woken minerId :=
  wokenBy_iff.mpr ⟨tx, Finmap.mem_keys.mpr (Finmap.mem_of_lookup_eq_some hs), s, hs, hm, hg⟩

theorem wokenBy_erase {c : Channels} {minerId : MinerId} {tx : SessionId} (h : c.Woken minerId)
    (hne : ∀ s, c.sessions.lookup tx = some s → s.minerId ≠ minerId) :
    c.WokenBy (c.sessions.keys.erase tx) minerId := by
  obtain ⟨t, ht, s, hl, hm, hg⟩ := wokenBy_iff.mp h
  refine wokenBy_iff.mpr ⟨t, Finset.mem_erase.mpr ⟨?_, ht⟩, s, hl, hm, hg⟩
  intro heq
  subst heq
  exact hne s hl hm

/-- The session whose dispatcher ends in the event: its send finds the channel closed. -/
def severed (c : Channels) : ChannelEvent → Option SessionId
  | .send tx => if (c.sessions.lookup tx).any (·.hungUp) then some tx else none
  | _ => none

def joins (c : Channels) : ChannelEvent → Option MinerId
  | .advance tx => ((c.sessions.lookup tx).filter fun s => s.phase == .wakeup).map (·.minerId)
  | _ => none

end Channels

/-- Every hungry miner with a wakeup channel has a grant queued. -/
def NoLostWakeup (x : World × Channels) : Prop :=
  ∀ m ∈ x.1.coord.wakeups.keys, x.1.coord.router.Hungry m → x.2.Woken m

instance (x : World × Channels) : Decidable (NoLostWakeup x) :=
  inferInstanceAs (Decidable (∀ m ∈ x.1.coord.wakeups.keys, _))

/-- The miner has credits, and its dispatcher waits on an empty channel. -/
def Parked (x : World × Channels) (m : MinerId) : Prop :=
  m ∈ x.1.coord.wakeups ∧ 0 < x.1.coord.router.creditsOf m ∧ ¬ x.2.Woken m

instance (x : World × Channels) (m : MinerId) : Decidable (Parked x m) :=
  inferInstanceAs (Decidable (_ ∧ _ ∧ _))

/-- The miner's dispatcher has ended and its channel is still registered. -/
def Deaf (x : World × Channels) (m : MinerId) : Prop :=
  ∃ tx ∈ x.1.coord.wakeups.lookup m, (x.2.sessions.lookup tx).any (·.dispatcher.isNone)

instance (x : World × Channels) (m : MinerId) : Decidable (Deaf x m) :=
  inferInstanceAs (Decidable (∃ tx ∈ x.1.coord.wakeups.lookup m, _))

section
variable [Crates]
open CoordinatorState

/-- The event hands no job to a parked miner and stages none for a deaf one, the dispatcher it ends
is not the only one with a grant for a hungry miner, and it registers no hungry miner without one. -/
def WakeSafe (x : World × Channels) (e : ChannelEvent) : Prop :=
  (∀ d ∈ x.2.emit e, (∀ m ∈ x.1.coord.handoffs d, ¬ Parked x m) ∧
    ∀ m ∈ x.1.coord.wakes d, ¬ (Parked x m ∧ Deaf x m)) ∧
  (∀ tx ∈ x.2.severed e, ∀ s ∈ x.2.sessions.lookup tx, s.minerId ∈ x.1.coord.wakeups →
    x.1.coord.router.Hungry s.minerId → x.2.WokenBy (x.2.sessions.keys.erase tx) s.minerId) ∧
  ∀ m ∈ x.2.joins e, x.1.coord.router.Hungry m → x.2.Woken m

instance (x : World × Channels) (e : ChannelEvent) : Decidable (WakeSafe x e) :=
  inferInstanceAs (Decidable (_ ∧ _ ∧ _))

omit [Crates] in
theorem Session.granted_wake {s : Session} {n : Nat} (hd : s.dispatcher ≠ none)
    (h : 0 < n ∨ s.grants ≠ []) : (s.wake n).granted = true := by
  rw [wake, if_pos (Option.isSome_iff_ne_none.mpr hd), granted_iff]
  refine ⟨hd, ?_⟩
  intro hnil
  obtain ⟨hg, hr⟩ := List.append_eq_nil_iff.mp hnil
  rcases h with hn | hne
  · rw [hg, List.replicate_eq_nil_iff, List.length_nil, grantChannelDepth] at hr
    omega
  · exact hne hg

omit [Crates] in
theorem Session.granted_grant {s : Session} (h : s.granted = true) (credits : Nat) :
    (s.grant credits).granted = true := by
  rw [granted_iff] at h ⊢
  exact ⟨h.1, by simp [grant]⟩

theorem granted_react {x : World × Channels} {e : ChannelEvent} {tx : SessionId} {s : Session}
    (hslot : SlotInv x) (hg : x.2.Guard x.1 e) (hs : x.2.sessions.lookup tx = some s)
    (h : s.granted = true) (hdisp : ∀ now, e ≠ .dispatch tx now) (hsend : tx ∉ x.2.severed e) :
    (x.2.react x.1 e tx s).minerId = s.minerId ∧ (x.2.react x.1 e tx s).granted = true := by
  obtain ⟨hdis, hgr⟩ := Session.granted_iff.mp h
  have hwake : ∀ n, (s.wake n).minerId = s.minerId ∧ (s.wake n).granted = true := by
    intro n
    refine ⟨?_, Session.granted_wake hdis (Or.inr hgr)⟩
    obtain ⟨grants, he⟩ := s.wake_eq n
    rw [he]
  cases e with
  | advance tx' =>
    simp only [Channels.react]
    split_ifs with ht
    · subst ht
      exact absurd (hslot.dispatcher_none hs (Channels.of_guard hs hg)) hdis
    · exact ⟨rfl, h⟩
  | ready tx' | jobRequest tx' credits =>
    simp only [Channels.react]
    split_ifs
    · exact ⟨rfl, Session.granted_grant h _⟩
    · exact ⟨rfl, h⟩
  | dispatch tx' now =>
    simp only [Channels.react]
    split_ifs with ht
    · exact absurd (congrArg (ChannelEvent.dispatch · now) ht) (hdisp now)
    · exact ⟨rfl, h⟩
  | send tx' =>
    simp only [Channels.react]
    split_ifs with ht
    · subst ht
      have hup : s.hungUp = false := by simpa [Channels.severed, hs] using hsend
      rw [Session.sendJob]
      split
      · rw [if_neg (by simp [hup]), Session.push_of_open hup]
        exact ⟨rfl, Session.granted_iff.mpr ⟨by simp, hgr⟩⟩
      · exact ⟨rfl, h⟩
    · exact ⟨rfl, h⟩
  | control tx' msg | deliver tx' =>
    simp only [Channels.react]
    split_ifs
    · simpa [Session.granted] using h
    · exact ⟨rfl, h⟩
  | close tx' | hangUp tx' =>
    simp only [Channels.react]
    split_ifs <;> exact ⟨rfl, h⟩
  | capabilities tx' caps ids =>
    simp only [Channels.react]
    split_ifs
    · exact hwake _
    · exact ⟨rfl, h⟩
  | topUp snap plans => exact hwake _
  | stageMempoolOrders orders => exact hwake _
  | _ => exact ⟨rfl, h⟩

/-- A queued grant stays queued unless its dispatcher reads it or ends. -/
theorem woken_next {x : World × Channels} {e : ChannelEvent} {txs : Finset SessionId} {m : MinerId}
    (hslot : SlotInv x) (hg : x.2.Guard x.1 e) (h : x.2.WokenBy txs m)
    (hdisp : ∀ tx now s, e = .dispatch tx now → x.2.sessions.lookup tx = some s → s.minerId ≠ m)
    (hsend : ∀ tx ∈ x.2.severed e, tx ∉ txs) : (x.2.next x.1 e).Woken m := by
  obtain ⟨tx, htx, s, hs, hm, hgr⟩ := Channels.wokenBy_iff.mp h
  have hnot : tx ∉ x.2.severed e := fun hsev => hsend tx hsev htx
  obtain ⟨hm', hgr'⟩ := granted_react hslot hg hs hgr
    (fun now heq => hdisp tx now s heq hs hm) hnot
  exact Channels.woken_of_lookup (Channels.lookup_next_of_some hg hs) (hm'.trans hm) hgr'

omit [Crates] in
theorem Channels.wakeups_pos {st : CoordinatorState} {ids : List MinerId} {m : MinerId}
    {tx : SessionId} (hl : st.wakeups.lookup m = some tx) (hm : m ∈ ids) :
    0 < Channels.wakeups st ids tx := by
  rw [Channels.wakeups, List.countP_pos_iff]
  exact ⟨m, hm, by simpa using hl⟩

theorem woken_of_wakes {x : World × Channels} {e : ChannelEvent} {d : Section} {m : MinerId}
    {tx : SessionId} (hslot : SlotInv x) (hg : x.2.Guard x.1 e) (hd : x.2.emit e = some d)
    (hm : m ∈ x.1.coord.wakes d) (hl : x.1.coord.wakeups.lookup m = some tx)
    (hdeaf : ¬ Deaf x m) : (x.2.next x.1 e).Woken m := by
  obtain ⟨s, hs, hsm, -⟩ := hslot.wakeups m tx hl
  have hdis : s.dispatcher ≠ none := by
    intro hnone
    exact hdeaf ⟨tx, hl, by simp [hs, hnone]⟩
  have hwoken : ∀ ids, m ∈ ids → x.2.react x.1 e tx s = s.wake (Channels.wakeups x.1.coord ids tx) →
      (x.2.next x.1 e).Woken m := by
    intro ids hids hreact
    refine Channels.woken_of_lookup (Channels.lookup_next_of_some hg hs) ?_ ?_
    · obtain ⟨grants, he⟩ := s.wake_eq (Channels.wakeups x.1.coord ids tx)
      rw [hreact, he]
      exact hsm
    · rw [hreact]
      exact Session.granted_wake hdis (Or.inl (Channels.wakeups_pos hl hids))
  cases e with
  | capabilities tx' caps ids =>
    obtain ⟨s', hs', rfl⟩ := Option.map_eq_some_iff.mp hd
    rw [wakes] at hm
    split_ifs at hm with happ
    · refine hwoken ids ?_ ?_
      · rw [← List.mem_toFinset, hg.2.2]
        exact hm
      · simp [Channels.react, hs', happ]
    · exact absurd hm (Finset.notMem_empty m)
  | topUp snap plans =>
    cases hd
    exact hwoken _ (List.mem_toFinset.mp hm) rfl
  | stageMempoolOrders orders =>
    cases hd
    exact hwoken _ (List.mem_toFinset.mp hm) rfl
  | advance tx' =>
    obtain ⟨s', -, hd⟩ := Option.bind_eq_some_iff.mp hd
    cases hp : s'.phase <;> rw [hp] at hd <;> cases hd <;> exact absurd hm (Finset.notMem_empty m)
  | dispatch tx' now =>
    obtain ⟨s', -, hd⟩ := Option.bind_eq_some_iff.mp hd
    obtain ⟨credits, -, rfl⟩ := Option.map_eq_some_iff.mp hd
    exact absurd hm (Finset.notMem_empty m)
  | close tx' =>
    obtain ⟨s', -, rfl⟩ := Option.map_eq_some_iff.mp hd
    exact absurd hm (Finset.notMem_empty m)
  | other d' =>
    cases hd
    cases d <;> first | exact absurd hm (Finset.notMem_empty m) | exact absurd hg Bool.noConfusion
  | childExit | stopMining | reseed =>
    cases hd
    exact absurd hm (Finset.notMem_empty m)
  | _ => cases hd

omit [Crates] in
theorem joins_emit {c : Channels} {e : ChannelEvent} {m : MinerId} (h : m ∈ c.joins e) :
    ∃ tx, e = .advance tx ∧ c.emit e = some (.registerWakeup m tx) := by
  cases e with
  | advance tx =>
    obtain ⟨s, hs, rfl⟩ := Option.map_eq_some_iff.mp h
    obtain ⟨hl, hp⟩ := Option.filter_eq_some_iff.mp hs
    refine ⟨tx, rfl, ?_⟩
    rw [Channels.emit, hl, Option.bind_some, beq_iff_eq.mp hp]
  | _ => cases h

theorem registered_next (params : FeederParams) {x : World × Channels} {e : ChannelEvent}
    (hg : x.2.Guard x.1 e) {m : MinerId}
    (h : m ∈ ((channelMachine params).next x e).1.coord.wakeups) :
    m ∈ x.1.coord.wakeups ∨ m ∈ x.2.joins e := by
  cases registering_next params hg with
  | wakeup tx s he hl hp _ hw =>
    rw [hw, Finmap.mem_insert] at h
    rcases h with rfl | h
    · right
      subst he
      simp [Channels.joins, hl, hp]
    · exact Or.inl h
  | close tx s he hl _ hw =>
    rw [hw, Finmap.mem_erase] at h
    exact Or.inl h.2
  | outbound _ _ _ _ _ _ hw | exit _ _ _ _ hw | keep _ _ hw =>
    rw [hw] at h
    exact Or.inl h

/-- What makes a miner hungry after an event of the sessions. -/
theorem hungry_event (params : FeederParams) {x : World × Channels} {e : ChannelEvent}
    (ha : (channelMachine params).allowed x e) {m : MinerId}
    (h : ((channelMachine params).next x e).1.coord.router.Hungry m) :
    0 < x.1.coord.router.creditsOf m ∧
      (x.1.coord.router.stagedOf m ≠ [] ∨ ∃ d, x.2.emit e = some d ∧
        (m ∈ x.1.coord.handoffs d ∨ m ∈ x.1.coord.wakes d)) ∧
      ∀ tx now s, e = .dispatch tx now → x.2.sessions.lookup tx = some s → s.minerId ≠ m := by
  revert h
  refine Machine.Layer.base_next (P := fun w : World => w.coord.router.Hungry m → _) ?_ ?_
  · intro hnone hh
    refine ⟨hh.1, Or.inl hh.2, ?_⟩
    intro tx now s heq hs
    subst heq
    obtain ⟨-, hgr⟩ := Channels.of_guard hs ha.1
    obtain ⟨n, ns, hns⟩ := List.exists_cons_of_ne_nil hgr
    have hemit : x.2.emit (.dispatch tx now) = none := hnone
    simp [Channels.emit, hs, hns] at hemit
  · intro d (hd : x.2.emit e = some d) hh
    obtain ⟨hc, hfrom, hdisp⟩ := World.hungry_next params (ha.2 d hd) hh
    refine ⟨hc, hfrom.imp_right fun hor => ⟨d, hd, hor⟩, ?_⟩
    intro tx now s heq hs hm
    subst heq
    rw [Channels.emit, hs, Option.bind_some] at hd
    obtain ⟨n, -, rfl⟩ := Option.map_eq_some_iff.mp hd
    exact hdisp n now (by rw [hm])

theorem noLostWakeup_next (params : FeederParams) {x : World × Channels} {e : ChannelEvent}
    (hslot : SlotInv x) (h : NoLostWakeup x) (ha : (channelMachine params).allowed x e)
    (hok : WakeSafe x e) : NoLostWakeup ((channelMachine params).next x e) := by
  intro m hm hh
  obtain ⟨hemit, hsev, hjoin⟩ := hok
  obtain ⟨hc, hfrom, hdisp⟩ := hungry_event params ha hh
  have hkeep : x.2.Woken m → x.2.severed e = none → (x.2.next x.1 e).Woken m := by
    intro hw hnone
    refine woken_next hslot ha.1 hw hdisp ?_
    rw [hnone]
    exact fun tx htx => nomatch htx
  rcases registered_next params ha.1 (Finmap.mem_keys.mp hm) with hreg | hnew
  · rcases hfrom with hs | ⟨d, hd, hhand | hwake⟩
    · -- the miner was hungry, so a grant was queued; at worst a dispatcher ends now
      have hwas : x.2.Woken m := h m (Finmap.mem_keys.mpr hreg) ⟨hc, hs⟩
      cases hsv : x.2.severed e with
      | none => exact hkeep hwas hsv
      | some tx =>
        have hrest : x.2.WokenBy (x.2.sessions.keys.erase tx) m := by
          by_cases hown : ∃ s, x.2.sessions.lookup tx = some s ∧ s.minerId = m
          · obtain ⟨s, hl, rfl⟩ := hown
            exact hsev tx hsv s hl hreg ⟨hc, hs⟩
          · exact Channels.wokenBy_erase hwas fun s hl hsm => hown ⟨s, hl, hsm⟩
        refine woken_next hslot ha.1 hrest hdisp ?_
        rw [hsv]
        intro t ht
        cases ht
        exact Finset.notMem_erase tx _
    · have hwas : x.2.Woken m := by
        by_contra hnot
        exact (hemit d hd).1 m hhand ⟨hreg, hc, hnot⟩
      refine hkeep hwas ?_
      cases e <;> first | rfl | cases hd
    · by_cases hwas : x.2.Woken m
      · refine hkeep hwas ?_
        cases e <;> first | rfl | cases hd
      · obtain ⟨tx, hl⟩ := Finmap.mem_iff.mp hreg
        refine woken_of_wakes hslot ha.1 hd hwake hl fun hdeaf => ?_
        exact (hemit d hd).2 m hwake ⟨⟨hreg, hc, hwas⟩, hdeaf⟩
  · obtain ⟨tx, rfl, hemit'⟩ := joins_emit hnew
    have hs : x.1.coord.router.stagedOf m ≠ [] := by
      rcases hfrom with hs | ⟨d, hd, hor⟩
      · exact hs
      · rw [hemit'] at hd
        cases hd
        exact absurd hor (by simp [handoffs, wakes])
    exact hkeep (hjoin m hnew ⟨hc, hs⟩) rfl

/-- In a run in which no job is handed to a parked miner or staged for a deaf one, no dispatcher
ends with the only grant of a hungry miner, and no miner is hungry without a grant when its
wakeup channel is registered, no wakeup is lost. -/
theorem hungry_miner_has_queued_grant (params : FeederParams) {x : World × Channels}
    (h : ((channelMachine params).restrict WakeSafe).Reachable x) : NoLostWakeup x := by
  have hinv : SlotInv x ∧ NoLostWakeup x := by
    refine h.invariant (I := fun x => SlotInv x ∧ NoLostWakeup x) ?_ ?_
    · refine ⟨slotInv_init params, ?_⟩
      intro m hm
      exact absurd (Finmap.mem_keys.mp hm) Finmap.notMem_empty
    · intro x e _ hi ha
      exact ⟨slotInv_next params hi.1 ha.1.1, noLostWakeup_next params hi.1 hi.2 ha.1 ha.2⟩
  exact hinv.2

end

namespace Sample

def second : List ChannelEvent :=
  [.hello 1 "b" caps 2, .advance 1, .advance 1, .advance 1, .advance 1, .advance 1, .advance 1,
    .ready 1, .dispatch 1 0]

def shared : List ChannelEvent :=
  [.stopMining, .reseed snap none none, .clone, .deliver 0, .deliver 1, .delivered, .clone,
    .deliver 0, .deliver 1, .delivered, .topUp snap [⟨"a", 0, 1⟩, ⟨"b", 0, 1⟩], .dispatch 0 0,
    .dispatch 1 0]

end Sample

open Sample in
theorem hungry_miner_has_queued_grant_sample :
    let x := (channelMachine params).run (channelMachine params).init
      (joined ++ opened ++ [.topUp snap [⟨"a", 0, 1⟩]])
    "a" ∈ x.1.coord.wakeups.keys ∧ x.1.coord.router.Hungry "a" ∧ x.2.Woken "a" := by
  have hreg : "a" ∈ ((channelMachine params).run (channelMachine params).init
      (joined ++ opened ++ [.topUp snap [⟨"a", 0, 1⟩]])).1.coord.wakeups.keys := by decide +kernel
  have hh : ((channelMachine params).run (channelMachine params).init
      (joined ++ opened ++ [.topUp snap [⟨"a", 0, 1⟩]])).1.coord.router.Hungry "a" := by decide +kernel
  exact ⟨hreg, hh, hungry_miner_has_queued_grant params
    (Machine.reachable_restrict_run (M := channelMachine params) _ (by decide +kernel)) "a" hreg hh⟩

open Sample in
/-- Miner `a` rejects its job, which is routed to `b`. No grant is queued for `b`, although it has
a credit. -/
theorem rejected_job_waits_at_parked_miner :
    let x := (channelMachine params).run (channelMachine params).init
      (joined ++ second ++ shared ++ [.other (.rejectJob "a" jobId (.other 4))])
    (channelMachine params).Reachable x ∧ "b" ∈ x.1.coord.wakeups.keys ∧
      x.1.coord.router.Hungry "b" ∧ ¬ x.2.Woken "b" :=
  ⟨Machine.reachable_run (M := channelMachine params) _ (by decide +kernel), by decide +kernel,
    by decide +kernel, by decide +kernel⟩

end QuipCoordinator
