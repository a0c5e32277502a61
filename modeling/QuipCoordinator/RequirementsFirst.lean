import QuipCoordinator.Broadcasts
import QuipCoordinator.Registrations

/-!
# Requirements before work

A session learns the graph and the target of a round from its handshake, which
sends what the state holds, or from the broadcasts after a reseed, which go to
the senders registered then. A session whose handshake sent the requirements of
an earlier round and that is not registered when a broadcast clones the senders
misses them. A job that waits in a dispatcher's hand can be overtaken by the
graph of the next round. In runs without these two, each job follows the graph
it was drawn over and a target of its round.
-/

namespace QuipCoordinator
open CoordinatorState

def lastTopology (sent : List Sent) : Option WireTopology :=
  sent.foldl (fun last m => match m.msg with | .topology t => some t | _ => last) none

/-- `job` was drawn, over the graph of `t` only. -/
def World.Derived (w : World) (t : WireTopology) (job : Job) : Prop :=
  job.graphHash = some t.hash ∧ (∃ d ∈ w.drawn, d.job = job) ∧
    ∀ d ∈ w.drawn, d.job = job →
      d.snap.nodes = t.nodes ∧ t.edges.map (fun e => e.u.zip e.v) = some d.snap.edges

instance (w : World) (t : WireTopology) (job : Job) : Decidable (w.Derived t job) :=
  inferInstanceAs (Decidable (_ ∧ _ ∧ _))

/-- The log announces the job: its last topology is the one the job was drawn over, and it has a
target sent after the job's generation was seeded, or in the handshake with the target of that
generation. -/
def Announced (w : World) (sent : List Sent) (job : Job) : Prop :=
  (∃ t, lastTopology sent = some t ∧ w.Derived t job) ∧
    ∃ m ∈ sent, ∃ target, m.msg = .setTarget target ∧
      (job.generation ≤ m.round ∨
        m.handshake = true ∧ ∃ d ∈ w.drawn, d.job = job ∧ target = targetFromSnapshot d.snap)

/-- On every channel, what precedes a job of a round announces it. -/
def RequirementsFirst (x : World × Channels) : Prop :=
  ∀ tx s, x.2.sessions.lookup tx = some s → ∀ pre m post job, s.sent = pre ++ m :: post →
    m.msg = .job job → 0 < job.generation → Announced x.1 pre job

namespace Session

def told (s : Session) (round : Nat) : Broadcast → Prop
  | .topology t => lastTopology s.sent = some t
  | .target _ => ∃ m ∈ s.sent, (m.msg matches .setTarget _) = true ∧ m.round = round
  | _ => True

instance (s : Session) (round : Nat) : (b : Broadcast) → Decidable (s.told round b)
  | .topology t => inferInstanceAs (Decidable (lastTopology s.sent = some t))
  | .target _ => inferInstanceAs (Decidable (∃ m ∈ s.sent, _))
  | .cancel _ | .retarget _ => .isTrue trivial

end Session

def Broadcast.Suits (w : World) (job : Job) : Broadcast → Prop
  | .topology t => 0 < job.generation → w.Derived t job
  | _ => True

instance (w : World) (job : Job) : (b : Broadcast) → Decidable (b.Suits w job)
  | .topology t => inferInstanceAs (Decidable (0 < job.generation → w.Derived t job))
  | .cancel _ | .target _ | .retarget _ => .isTrue trivial

/-- A reseed broadcast reaches every session that can still collect jobs, unless its handshake
sent the same requirement already, and a topology finds no job drawn over another graph in the
dispatcher's hand. -/
def Informs (x : World × Channels) : ChannelEvent → Prop
  | .clone => ∀ b ∈ x.2.casts.head?, b.required = true → ∀ tx ∈ x.2.sessions.keys,
    ∀ s ∈ x.2.sessions.lookup tx, s.hungUp = false → s.active = true →
      tx ∈ x.1.coord.outbound.values ∨ s.told x.2.reseeded b
  | .deliver tx => ∀ b ∈ x.2.casts.head?, ∀ s ∈ x.2.sessions.lookup tx, s.hungUp = false →
    ∀ job ∈ s.hand, b.Suits x.1 job
  | _ => True

instance (x : World × Channels) : (e : ChannelEvent) → Decidable (Informs x e)
  | .clone => inferInstanceAs (Decidable (∀ b ∈ x.2.casts.head?, b.required = true →
      ∀ tx ∈ x.2.sessions.keys, ∀ s ∈ x.2.sessions.lookup tx, s.hungUp = false →
        s.active = true → _))
  | .deliver tx => inferInstanceAs (Decidable (∀ b ∈ x.2.casts.head?,
      ∀ s ∈ x.2.sessions.lookup tx, s.hungUp = false → ∀ job ∈ s.hand, b.Suits x.1 job))
  | .hello _ _ _ _ | .advance _ | .ready _ | .jobRequest _ _ | .dispatch _ _ | .send _
  | .capabilities _ _ _ | .close _ | .hangUp _ | .control _ _ | .childExit _ _ | .stopMining
  | .reseed _ _ _ | .delivered | .retarget _ | .topUp _ _ | .stageMempoolOrders _ | .other _ =>
    .isTrue trivial

section
variable [Crates]

def Prompt (x : World × Channels) (e : ChannelEvent) : Prop :=
  Informs x e ∧ ∀ d ∈ x.2.emit e, x.1.GraphStable d

instance (x : World × Channels) (e : ChannelEvent) : Decidable (Prompt x e) :=
  inferInstanceAs (Decidable (_ ∧ ∀ d ∈ x.2.emit e, x.1.GraphStable d))

omit [Crates] in
theorem lastTopology_append (sent : List Sent) (m : Sent) :
    lastTopology (sent ++ [m]) =
      match m.msg with | .topology t => some t | _ => lastTopology sent := by
  rw [lastTopology, List.foldl_append]
  rfl

omit [Crates] in
theorem lastTopology_append_of_ne {sent : List Sent} {m : Sent} (h : ∀ t, m.msg ≠ .topology t) :
    lastTopology (sent ++ [m]) = lastTopology sent := by
  rw [lastTopology_append]
  split
  · next t ht => exact absurd ht (h t)
  · rfl

omit [Crates] in
theorem Session.told_append {s s' : Session} {m : Sent} {n : Nat} {b : Broadcast}
    (hsent : s'.sent = s.sent ++ [m]) (hm : ∀ t, m.msg ≠ .topology t) (h : s.told n b) :
    s'.told n b := by
  cases b with
  | topology t =>
    change lastTopology s'.sent = some t
    rw [hsent, lastTopology_append_of_ne hm]
    exact h
  | target t =>
    obtain ⟨m', hm', hrest⟩ := h
    exact ⟨m', by rw [hsent]; exact List.mem_append_left _ hm', hrest⟩
  | cancel g => trivial
  | retarget t => trivial

omit [Crates] in
theorem Session.told_congr {s s' : Session} {n : Nat} {b : Broadcast} (hsent : s'.sent = s.sent)
    (h : s.told n b) : s'.told n b := by
  cases b <;> simp only [told, hsent] at h ⊢ <;> exact h

omit [Crates] in
theorem Session.told_deliver {s s' : Session} {n : Nat} {b : Broadcast}
    (hsent : s'.sent = s.sent ++ [⟨b.msg, n, false⟩]) : s'.told n b := by
  cases b with
  | topology t =>
    change lastTopology s'.sent = some t
    rw [hsent, lastTopology_append]
    rfl
  | target t => exact ⟨_, by rw [hsent]; exact List.mem_append_right _ List.mem_cons_self, rfl, rfl⟩
  | cancel g => trivial
  | retarget t => trivial

theorem Session.told_snapshot {s s' : Session} {st : CoordinatorState} {n : Nat}
    {seed : MiningSnapshot} (htopo : st.topology = some (topologyFromSnapshot seed))
    (htarget : st.target ≠ none) (hsent : s'.sent = s.sent ++ Session.snapshot st n) :
    ∀ b ∈ requirementsOf seed, s'.told n b := by
  obtain ⟨target, htarget⟩ := Option.ne_none_iff_exists'.mp htarget
  have hlog : s'.sent = (s.sent ++ [⟨.topology (topologyFromSnapshot seed).toProto, n, true⟩]) ++
      [⟨.setTarget target, n, true⟩] := by
    rw [hsent, Session.snapshot, htopo, htarget]
    simp
  intro b hb
  rcases List.mem_cons.mp hb with rfl | hb
  · change lastTopology s'.sent = _
    rw [hlog, lastTopology_append_of_ne (by simp), lastTopology_append]
  · rw [List.mem_singleton.mp hb]
    exact ⟨_, by rw [hlog]; exact List.mem_append_right _ List.mem_cons_self, rfl, rfl⟩

theorem told_effect {x : World × Channels} {e : ChannelEvent} {tx : SessionId} {s s' : Session}
    (hc : CastInv x) {seed : MiningSnapshot} (hseed : x.1.seed = some seed) (hact : s.active = true)
    (he : Effect x.1 x.2 e tx s s') {b : Broadcast} (hb : b ∈ requirementsOf seed) {n : Nat}
    (h : s.told n b) : s'.told n b := by
  cases he with
  | keep sent hand => exact Session.told_congr sent h
  | note m neutral sent hand =>
    exact Session.told_append sent (CoordMsg.ne_of_isNeutral neutral).1 h
  | snapshot event phase opened sent hand =>
    simp [Session.active, phase] at hact
  | deliver b' event cast opened sent hand =>
    by_cases ht : ∃ t, b' = .topology t
    · obtain ⟨t, rfl⟩ := ht
      obtain ⟨seed', hseed', hmem⟩ := hc.casts _ (List.mem_of_head? cast) rfl
      rw [hseed] at hseed'
      cases hseed'
      rcases List.mem_cons.mp hb with rfl | hb
      · rcases List.mem_cons.mp hmem with hm | hm
        · rw [← hm]
          change lastTopology s'.sent = some t
          rw [sent, lastTopology_append]
          rfl
        · cases List.mem_singleton.mp hm
      · rw [List.mem_singleton.mp hb] at h ⊢
        obtain ⟨m, hm, hrest⟩ := h
        exact ⟨m, by rw [sent]; exact List.mem_append_left _ hm, hrest⟩
    · refine Session.told_append sent (fun t ht' => ht ?_) h
      cases b' with
      | topology t' => exact ⟨t', rfl⟩
      | _ => cases ht'
  | collect credits now event sent hand => exact Session.told_congr sent h
  | send job event opened sent hand => exact Session.told_append sent (by simp) h

/-- Every session that can still collect jobs has the requirements of the round or will get them
from the broadcasts. -/
def InformedInv (x : World × Channels) : Prop :=
  ∀ tx s, x.2.sessions.lookup tx = some s → s.hungUp = false → s.active = true →
    ∀ seed, x.1.seed = some seed → ∀ b ∈ requirementsOf seed,
      b ∈ x.2.owed tx ∨ s.told x.2.reseeded b

theorem owed_deliver {x : World × Channels} {tx tx' : SessionId} {s : Session}
    (hg : x.2.Guard x.1 (.deliver tx')) (ho : s.hungUp = false) {b : Broadcast}
    (hb : b ∈ x.2.owed tx) : b ∈ (x.2.next x.1 (.deliver tx')).owed tx ∨
      (x.2.react x.1 (.deliver tx') tx s).told x.2.reseeded b := by
  obtain ⟨senders, hsend, hmem⟩ := hg
  have hnext : (x.2.next x.1 (.deliver tx')).owed tx =
      if tx ∈ senders.erase tx' then x.2.casts else x.2.casts.tail := by
    simp only [Channels.owed, Channels.next, Option.mem_def.mp hsend, Option.map_some]
  have hold : x.2.owed tx = if tx ∈ senders then x.2.casts else x.2.casts.tail := by
    rw [Channels.owed, Option.mem_def.mp hsend]
  rw [hnext]
  rw [hold] at hb
  by_cases ht : tx' = tx
  · subst ht
    rw [if_pos hmem] at hb
    rw [if_neg (Finset.notMem_erase tx' senders)]
    cases hcast : x.2.casts with
    | nil =>
      rw [hcast] at hb
      exact absurd hb List.not_mem_nil
    | cons b' rest =>
      rw [hcast] at hb
      rcases List.mem_cons.mp hb with rfl | hb
      · refine Or.inr (Session.told_deliver (s := s) ?_)
        simp [Channels.react, hcast, Session.push_of_open ho]
      · exact Or.inl hb
  · have hiff : tx ∈ senders.erase tx' ↔ tx ∈ senders := by
      rw [Finset.mem_erase]
      exact and_iff_right (Ne.symm ht)
    simp only [hiff]
    exact Or.inl hb

theorem owed_next {x : World × Channels} {e : ChannelEvent} {tx : SessionId} {s : Session}
    (hc : CastInv x) (hg : x.2.Guard x.1 e) (hok : Informs x e)
    (hstop : e ≠ .stopMining) (hreseed : ∀ snap q dp, e ≠ .reseed snap q dp)
    (hs : x.2.sessions.lookup tx = some s) (ho : s.hungUp = false) (hact : s.active = true)
    {b : Broadcast} (hreq : b.required = true) (hb : b ∈ x.2.owed tx) :
    b ∈ (x.2.next x.1 e).owed tx ∨ (x.2.react x.1 e tx s).told x.2.reseeded b := by
  cases e with
  | stopMining => exact absurd rfl hstop
  | reseed snap q dp => exact absurd rfl (hreseed snap q dp)
  | retarget snap =>
    rw [Channels.owed, hc.rest hg.1, hg.1] at hb
    exact absurd hb List.not_mem_nil
  | clone =>
    rw [Channels.owed, hg.2] at hb
    change b ∈ (if tx ∈ x.1.coord.outbound.values then x.2.casts else x.2.casts.tail) ∨ _
    split_ifs with hmem
    · exact Or.inl hb
    · cases hcast : x.2.casts with
      | nil => exact absurd hcast hg.1
      | cons b' rest =>
        rw [hcast] at hb
        rcases List.mem_cons.mp hb with rfl | hb
        · have hkey : tx ∈ x.2.sessions.keys := Finmap.mem_keys.mpr (Finmap.mem_of_lookup_eq_some hs)
          have htold := hok b (by rw [hcast]; rfl) hreq tx hkey s hs ho hact
          exact Or.inr (htold.resolve_left hmem)
        · exact Or.inl hb
  | deliver tx' => exact owed_deliver hg ho hb
  | delivered =>
    have hsend : x.2.senders = some ∅ := hg
    rw [Channels.owed, hsend] at hb
    refine Or.inl ?_
    change b ∈ x.2.casts.tail
    simpa using hb
  | _ => exact Or.inl hb

theorem informedInv_next (params : FeederParams) {x : World × Channels} {e : ChannelEvent}
    (hgr : x.1.GraphInv) (hc : CastInv x) (hslot : SlotInv x) (h : InformedInv x)
    (hg : x.2.Guard x.1 e) (hok : Informs x e) : InformedInv ((channelMachine params).next x e) := by
  intro tx s' hs' ho' hact' seed hseed' b hb
  rcases Channels.lookup_next hs' with ⟨m, caps, depth, rfl⟩ | ⟨s, hs, rfl⟩
  · exact absurd hact' Bool.noConfusion
  have ho := Channels.open_of_react ho'
  by_cases hstop : e = .stopMining
  · subst hstop
    exact nomatch hseed'
  by_cases hreseed : ∃ snap q dp, e = .reseed snap q dp
  · obtain ⟨snap, q, dp, rfl⟩ := hreseed
    have heq : snap = seed := Option.some.inj hseed'
    subst heq
    refine Or.inl ?_
    have hnext : (x.2.next x.1 (.reseed snap q dp)).owed tx = requirementsOf snap := by
      simp only [Channels.owed, Channels.next, hc.rest hg]
    exact hnext.symm ▸ hb
  · have hnot : ∀ snap q dp, e ≠ .reseed snap q dp := fun snap q dp he => hreseed ⟨snap, q, dp, he⟩
    have hseed : x.1.seed = some seed := by
      rw [← (seed_channel params hg hstop hnot).1]
      exact hseed'
    have hre : ((channelMachine params).next x e).2.reseeded = x.2.reseeded := by
      cases e <;> first | rfl | exact absurd rfl (hnot _ _ _)
    rw [hre]
    have heff := Channels.effect_react hg hs
    rcases active_of_react hslot hg hs hact' with hact | ⟨rfl, hp⟩
    · rcases h tx s hs ho hact seed hseed b hb with howed | htold
      · exact owed_next hc hg hok hstop hnot hs ho hact (required_of_mem hb) howed
      · exact Or.inr (told_effect hc hseed hact heff hb htold)
    · refine Or.inr (Session.told_snapshot (s := s) ((hgr.seeded seed hseed).1.topology)
        (hc.target (by simp [hseed])) ?_ b hb)
      simp [Channels.react, Session.advance, hp, Session.push_of_open ho]

/-- Further draws of a round are from its own graph, so a job stays derived from its topology. -/
theorem World.Derived.next (params : FeederParams) {w : World} {d : Section} (hgr : w.GraphInv)
    (hok : w.GraphStable d) {t : WireTopology} {job : Job} (h : w.Derived t job) :
    (w.next params d).Derived t job := by
  obtain ⟨hhash, ⟨d₀, hd₀, hj₀⟩, hall⟩ := h
  cases d with
  | topUp snap plans =>
    have htop := toppedUp_topUp params hgr snap plans
    have hmem : d₀ ∈ (w.toStaging.topUp params snap plans).drawn := by
      obtain ⟨router, salts, saltCtr, draws, he⟩ := w.toStaging.topUp_eq params snap plans
      rw [he]
      exact List.mem_append_left _ hd₀
    refine ⟨hhash, ⟨d₀, hmem, hj₀⟩, fun d' hd' hj' => ?_⟩
    rcases htop.drawn d' hd' with hd' | ⟨hsnap, hgen⟩
    · exact hall d' hd' hj'
    · have hstable : w.seed.map (·.graph) = some snap.graph := hok
      obtain ⟨seed, hseed, hgraph⟩ := Option.map_eq_some_iff.mp hstable
      have hg₀ : d₀.snap.graph = seed.graph :=
        (hgr.seeded seed hseed).2.2 d₀ hd₀ (by rw [hj₀, ← hj', hgen])
      have heq : d'.snap.graph = d₀.snap.graph := by rw [hsnap, hg₀, hgraph]
      have hnodes : d'.snap.nodes = d₀.snap.nodes := congrArg (·.2.1) heq
      have hedges : d'.snap.edges = d₀.snap.edges := congrArg (·.2.2) heq
      rw [hnodes, hedges]
      exact hall d₀ hd₀ hj₀
  | _ => exact ⟨hhash, ⟨d₀, hd₀, hj₀⟩, hall⟩

theorem derived_channel (params : FeederParams) {x : World × Channels} {e : ChannelEvent}
    (hgr : x.1.GraphInv) (hok : ∀ d ∈ x.2.emit e, x.1.GraphStable d) {t : WireTopology} {job : Job}
    (h : x.1.Derived t job) : ((channelMachine params).next x e).1.Derived t job := by
  refine Machine.Layer.base_next (P := fun w : World => w.Derived t job) ?_ ?_
  · exact fun _ => h
  · exact fun d hd => h.next params hgr (hok d hd)

def ReadyFor (w : World) (sent : List Sent) (job : Job) : Prop :=
  (∃ t, lastTopology sent = some t ∧ w.Derived t job) ∧
    ∃ m ∈ sent, (∃ target, m.msg = .setTarget target) ∧ job.generation ≤ m.round

theorem derived_of_live {w : World} (hr : w.RoundInv) (hgr : w.GraphInv) {job : Job}
    (hj : w.coord.Live job) (hpos : 0 < job.generation) : ∃ seed, w.seed = some seed ∧
      job.generation = w.generation ∧ w.Derived (topologyFromSnapshot seed).toProto job := by
  rcases hr.live job hj with ⟨-, -, h0, -⟩ | ⟨hpow, hgen, -⟩
  · omega
  · obtain ⟨snap, hd, hhash⟩ := hgr.live job hj hpow
    cases hseed : w.seed with
    | none =>
      have h0 := World.not_live_stopped hr hgr hseed hj
      omega
    | some seed =>
      obtain ⟨-, hcanon, hall⟩ := hgr.seeded seed hseed
      refine ⟨seed, rfl, hgen, ?_, ⟨⟨job, snap⟩, hd, rfl⟩, ?_⟩
      · have hgraph := hall ⟨job, snap⟩ hd hgen
        have htopo : snap.topologyHash = seed.topologyHash := congrArg (·.1) hgraph
        rw [hhash, htopo, hcanon]
        rfl
      · intro d hd' heq
        subst heq
        have hgraph := hall d hd' hgen
        have hnodes : d.snap.nodes = seed.nodes := congrArg (·.2.1) hgraph
        have hedges : d.snap.edges = seed.edges := congrArg (·.2.2) hgraph
        rw [hnodes, hedges]
        exact ⟨rfl, congrArg some (List.zip_unzip seed.edges)⟩

omit [Crates] in
theorem ReadyFor.append {w : World} {sent : List Sent} {job : Job} (h : ReadyFor w sent job)
    {m : Sent} (hm : ∀ t, m.msg = .topology t → w.Derived t job) : ReadyFor w (sent ++ [m]) job := by
  obtain ⟨⟨t, ht, hder⟩, m', hm', hrest⟩ := h
  refine ⟨?_, m', List.mem_append_left _ hm', hrest⟩
  by_cases htopo : ∃ t', m.msg = .topology t'
  · obtain ⟨t', ht'⟩ := htopo
    exact ⟨t', by rw [lastTopology_append, ht'], hm t' ht'⟩
  · exact ⟨t, by rw [lastTopology_append_of_ne fun t' ht' => htopo ⟨t', ht'⟩, ht], hder⟩

def SentOk (w : World) (sent : List Sent) : Prop :=
  ∀ pre m post job, sent = pre ++ m :: post → m.msg = .job job → 0 < job.generation →
    ReadyFor w pre job

omit [Crates] in
theorem SentOk.append {w : World} {sent : List Sent} (h : SentOk w sent) {m : Sent}
    (hm : ∀ job, m.msg = .job job → 0 < job.generation → ReadyFor w sent job) :
    SentOk w (sent ++ [m]) := by
  intro pre m' post job hsplit hjob hpos
  rcases List.eq_nil_or_concat post with rfl | ⟨post', z, rfl⟩
  · obtain ⟨rfl, heq⟩ := List.append_inj' hsplit rfl
    cases heq
    exact hm job hjob hpos
  · rw [List.concat_eq_append, ← List.cons_append, ← List.append_assoc] at hsplit
    obtain ⟨hsent, -⟩ := List.append_inj' hsplit rfl
    exact h pre m' post' job hsent hjob hpos

omit [Crates] in
theorem SentOk.append_all {w : World} {ms sent : List Sent} (h : SentOk w sent)
    (hms : ∀ m ∈ ms, ∀ job, m.msg ≠ .job job) : SentOk w (sent ++ ms) := by
  induction ms generalizing sent with
  | nil => rwa [List.append_nil]
  | cons m ms ih =>
    rw [List.append_cons]
    refine ih (h.append fun job hj => ?_) fun m' hm' => hms m' (List.mem_cons_of_mem _ hm')
    exact absurd hj (hms m List.mem_cons_self job)

structure LogInv (x : World × Channels) : Prop where
  hand : ∀ tx s, x.2.sessions.lookup tx = some s → s.hungUp = false → ∀ job ∈ s.hand,
    0 < job.generation → ReadyFor x.1 s.sent job
  sent : ∀ tx s, x.2.sessions.lookup tx = some s → SentOk x.1 s.sent

theorem logInv_init (params : FeederParams) : LogInv (channelMachine params).init where
  hand := fun _ _ h => absurd h (no_session_init params)
  sent := fun _ _ h => absurd h (no_session_init params)

/-- A job that the dispatcher collects is announced: no requirement is still owed. -/
theorem readyFor_collect {x : World × Channels} {tx : SessionId} {s : Session} {now : Nat}
    {credits : Nat} (hr : x.1.RoundInv) (hgr : x.1.GraphInv) (hc : CastInv x) (hslot : SlotInv x)
    (hi : InformedInv x) (hg : x.2.Guard x.1 (.dispatch tx now))
    (hs : x.2.sessions.lookup tx = some s) (ho : s.hungUp = false) {job : Job}
    (hj : job ∈ (x.1.coord.dispatchGranted s.minerId credits now).2) (hpos : 0 < job.generation) :
    ReadyFor x.1 s.sent job := by
  have hlive := (dispatchGranted_moves x.1.coord s.minerId credits now).2 job hj
  obtain ⟨seed, hseed, hgen, hder⟩ := derived_of_live hr hgr hlive hpos
  have hact : s.active = true := by
    obtain ⟨hd, hgrants⟩ := Channels.of_guard hs hg
    rcases hslot.started tx s hs (by simp [hd]) with hp | hp
    · simp [Session.active, hp]
    · simp [Session.active, hp, hd, hgrants]
  have htold : ∀ b ∈ requirementsOf seed, s.told x.2.reseeded b := by
    intro b hb
    refine (hi tx s hs ho hact seed hseed b hb).resolve_left fun howed => ?_
    have hmem : b ∈ x.2.casts := by
      unfold Channels.owed at howed
      split at howed
      · exact howed
      · split_ifs at howed
        · exact howed
        · exact List.mem_of_mem_tail howed
    have h0 := hc.quiet ⟨b, hmem, required_of_mem hb⟩ job hlive
    omega
  obtain ⟨m, hm, htarget, hround⟩ := htold _ (List.mem_cons_of_mem _ List.mem_cons_self)
  refine ⟨⟨_, htold _ List.mem_cons_self, hder⟩, m, hm, ?_, ?_⟩
  · split at htarget
    · next target heq => exact ⟨target, heq⟩
    · exact absurd htarget Bool.noConfusion
  · rw [hround, hc.reseeded (by simp [hseed]), hgen]

theorem logOk_effect {x : World × Channels} {e : ChannelEvent} {tx : SessionId} {s s' : Session}
    (hr : x.1.RoundInv) (hgr : x.1.GraphInv) (hc : CastInv x) (hslot : SlotInv x)
    (hi : InformedInv x) (h : LogInv x) (hg : x.2.Guard x.1 e) (hok : Informs x e)
    (hs : x.2.sessions.lookup tx = some s) (hopen : s'.hungUp = false → s.hungUp = false)
    (he : Effect x.1 x.2 e tx s s') :
    SentOk x.1 s'.sent ∧ (s'.hungUp = false → ∀ job ∈ s'.hand, 0 < job.generation →
      ReadyFor x.1 s'.sent job) := by
  have hsent := h.sent tx s hs
  have hhand := h.hand tx s hs
  cases he with
  | keep sent hand =>
    rw [sent]
    refine ⟨hsent, fun ho job hj hpos => ?_⟩
    rcases hand with hand | hand <;> rw [hand] at hj
    · exact hhand (hopen ho) job hj hpos
    · exact absurd hj List.not_mem_nil
  | note m neutral sent hand =>
    obtain ⟨htopo, hjob, -⟩ := CoordMsg.ne_of_isNeutral neutral
    rw [sent, hand]
    refine ⟨hsent.append fun job hj => absurd hj (hjob job), fun ho job hj hpos => ?_⟩
    exact (hhand (hopen ho) job hj hpos).append fun t ht => absurd ht (htopo t)
  | snapshot event phase opened sent hand =>
    have hnone : s.hand = [] := by
      rw [Session.hand, hslot.dispatcher_none hs (by simp [phase]), Option.getD_none]
    rw [sent, hand, hnone]
    refine ⟨hsent.append_all fun m hm job hj => ?_, by simp⟩
    rcases Session.mem_snapshot hm with ⟨t, ht⟩ | ⟨t, ht⟩ <;> cases hj.symm.trans ht
  | deliver b event cast opened sent hand =>
    subst event
    rw [sent, hand]
    refine ⟨hsent.append fun job hj => ?_, fun _ job hj hpos => ?_⟩
    · cases b <;> cases hj
    · refine (hhand opened job hj hpos).append fun t ht => ?_
      have hsuits := hok b cast s hs opened job hj
      cases b with
      | topology t' =>
        cases ht
        exact hsuits hpos
      | _ => cases ht
  | collect credits now event sent hand =>
    subst event
    rw [sent, hand]
    refine ⟨hsent, fun ho job hj hpos => ?_⟩
    exact readyFor_collect hr hgr hc hslot hi hg hs (hopen ho) hj hpos
  | send job event opened sent hand =>
    have hjob : ∀ j, (CoordMsg.job job) = .job j → 0 < j.generation → ReadyFor x.1 s.sent j := by
      intro j heq hpos
      cases heq
      exact hhand opened job (by rw [hand]; exact List.mem_cons_self) hpos
    rw [sent]
    refine ⟨hsent.append hjob, fun _ j hj hpos => ?_⟩
    refine (hhand opened j ?_ hpos).append (by simp)
    rw [hand]
    exact List.mem_cons_of_mem _ hj

theorem ReadyFor.next (params : FeederParams) {x : World × Channels} {e : ChannelEvent}
    (hgr : x.1.GraphInv) (hok : ∀ d ∈ x.2.emit e, x.1.GraphStable d) {sent : List Sent} {job : Job}
    (h : ReadyFor x.1 sent job) : ReadyFor ((channelMachine params).next x e).1 sent job := by
  obtain ⟨⟨t, ht, hder⟩, htarget⟩ := h
  exact ⟨⟨t, ht, derived_channel params hgr hok hder⟩, htarget⟩

theorem logInv_next (params : FeederParams) {x : World × Channels} {e : ChannelEvent}
    (hr : x.1.RoundInv) (hgr : x.1.GraphInv) (hc : CastInv x) (hslot : SlotInv x)
    (hi : InformedInv x) (h : LogInv x) (hg : x.2.Guard x.1 e) (hok : Prompt x e) :
    LogInv ((channelMachine params).next x e) := by
  have hstep : ∀ tx s', ((channelMachine params).next x e).2.sessions.lookup tx = some s' →
      SentOk x.1 s'.sent ∧ (s'.hungUp = false → ∀ job ∈ s'.hand, 0 < job.generation →
        ReadyFor x.1 s'.sent job) := by
    intro tx s' hs'
    rcases Channels.lookup_next hs' with ⟨m, caps, depth, rfl⟩ | ⟨s, hs, rfl⟩
    · refine ⟨fun pre m post job hsplit => ?_, fun _ job hj => absurd hj List.not_mem_nil⟩
      simp [Session.new] at hsplit
    · exact logOk_effect hr hgr hc hslot hi h hg hok.1 hs Channels.open_of_react
        (Channels.effect_react hg hs)
  constructor
  · intro tx s' hs' ho job hj hpos
    exact ((hstep tx s' hs').2 ho job hj hpos).next params hgr hok.2
  · intro tx s' hs' pre m post job hsplit hj hpos
    exact ((hstep tx s' hs').1 pre m post job hsplit hj hpos).next params hgr hok.2

structure NoticeInv (x : World × Channels) : Prop where
  cast : CastInv x
  slot : SlotInv x
  informed : InformedInv x
  log : LogInv x

/-- In every run in which the requirements of a reseed reach each session that can still collect
jobs, no topology overtakes a job in hand and the snapshots of a round share its graph, every job
of a round follows the topology it was drawn over and a target of its round. -/
theorem requirements_before_work (params : FeederParams) {x : World × Channels}
    (h : ((channelMachine params).restrict Prompt).Reachable x) : RequirementsFirst x := by
  have hbase : ∀ y, ((channelMachine params).restrict Prompt).Reachable y →
      y.1.RoundInv ∧ y.1.GraphInv := by
    intro y hy
    have hstable : ((coordinatorMachine params).restrict World.GraphStable).Reachable y.1 :=
      Machine.Layer.base_reachable_restrict (fun _ _ d hok hd => hok.2 d hd) hy
    exact ⟨World.roundInv_reachable hstable.of_restrict, World.graphInv_reachable hstable⟩
  have hinv : NoticeInv x := by
    refine h.invariant (I := NoticeInv) ?_ ?_
    · exact ⟨castInv_init params, slotInv_init params,
        fun _ _ hs => absurd hs (no_session_init params), logInv_init params⟩
    intro y e hy hi ha
    obtain ⟨hr, hgr⟩ := hbase y hy
    exact ⟨castInv_next params hr hgr hi.cast ha.1, slotInv_next params hi.slot ha.1.1,
      informedInv_next params hgr hi.cast hi.slot hi.informed ha.1.1 ha.2.1,
      logInv_next params hr hgr hi.cast hi.slot hi.informed hi.log ha.1.1 ha.2⟩
  intro tx s hs pre m post job hsplit hj hpos
  obtain ⟨htopo, m', hm', ⟨target, ht⟩, hround⟩ := hinv.log.sent tx s hs pre m post job hsplit hj hpos
  exact ⟨htopo, m', hm', target, ht, Or.inl hround⟩

end
namespace Sample

def unregistered : List ChannelEvent :=
  [.hello 0 "a" caps 1, .advance 0, .advance 0, .advance 0, .advance 0, .stopMining,
    .reseed snap none none, .clone, .delivered, .clone, .delivered, .advance 0, .advance 0,
    .ready 0] ++ collected ++ [.send 0]

def roundJob : CoordMsg → Bool
  | .job j => 0 < j.generation
  | _ => false

theorem roundJob_iff {msg : CoordMsg} (h : roundJob msg = true) :
    ∃ job, msg = .job job ∧ 0 < job.generation := by
  cases msg with
  | job j => exact ⟨j, rfl, by simpa [roundJob] using h⟩
  | _ => exact absurd h Bool.noConfusion

end Sample

open Sample in
theorem requirements_before_work_sample :
    let x := (channelMachine params).run (channelMachine params).init
      (joined ++ opened ++ collected ++ [.send 0])
    ∃ s job, x.2.sessions.lookup 0 = some s ∧ 0 < job.generation ∧
      (∃ m ∈ s.sent, m.msg = .job job) ∧ Announced x.1 s.sent.dropLast job := by
  have hx := requirements_before_work params (Machine.reachable_restrict_run
    (joined ++ opened ++ collected ++ [.send 0]) (by decide +kernel))
  have hlog : ∃ s ∈ ((channelMachine params).run (channelMachine params).init
      (joined ++ opened ++ collected ++ [.send 0])).2.sessions.lookup 0,
      ∃ m ∈ s.sent.getLast?, roundJob m.msg = true := by decide +kernel
  obtain ⟨s, hs, m, hm, hjob⟩ := hlog
  obtain ⟨job, hj, hpos⟩ := roundJob_iff hjob
  refine ⟨s, job, hs, hpos, ⟨m, List.mem_of_getLast? hm, hj⟩, ?_⟩
  exact hx 0 s hs s.sent.dropLast m [] job (List.dropLast_append_getLast? m hm).symm hj hpos

open Sample in
/-- The session registers after both broadcasts, and the job is all that its channel gets. -/
theorem late_registration_misses_requirements :
    ¬ ∀ x, (channelMachine params).Reachable x → RequirementsFirst x := by
  intro hall
  have hreach := Machine.reachable_run (M := channelMachine params) unregistered
    (by decide +kernel)
  have hlog : ∃ s ∈ ((channelMachine params).run (channelMachine params).init
      unregistered).2.sessions.lookup 0, lastTopology s.sent.dropLast = none ∧
      ∃ m ∈ s.sent.getLast?, roundJob m.msg = true := by decide +kernel
  obtain ⟨s, hs, hnone, m, hm, hjob⟩ := hlog
  obtain ⟨job, hj, hpos⟩ := roundJob_iff hjob
  obtain ⟨⟨t, ht, -⟩, -⟩ := hall _ hreach 0 s hs s.sent.dropLast m [] job
    (List.dropLast_append_getLast? m hm).symm hj hpos
  exact nomatch hnone.symm.trans ht

end QuipCoordinator
