import QuipCoordinator.Feeder

/-!
# Live jobs

A job is live while it is staged on some queue or in flight. The critical
sections of the sessions and supervisors only move or drop live jobs and leave
the fields of the round alone: `Moves` says so and composes. The feeder's
sections are the only ones that add a job or change the round.
-/

namespace QuipCoordinator
variable [Crates]

namespace CoordinatorState
omit [Crates]

def InFlight (st : CoordinatorState) (job : Job) : Prop := ∃ id, st.inflight.lookup id = some job

def Live (st : CoordinatorState) (job : Job) : Prop := st.router.Staged job ∨ st.InFlight job

/-- A step that adds no live job and keeps the generation, its graph and its target. -/
structure Keeps (st st' : CoordinatorState) : Prop where
  live : ∀ job, st'.Live job → st.Live job
  generation : st'.generation = st.generation
  target : st'.target = st.target
  topology : st'.topology = st.topology
  leaseTopology : st'.leaseTopology = st.leaseTopology
  resolvedTopo : st'.resolvedTopo = st.resolvedTopo

structure Moves (st st' : CoordinatorState) : Prop extends Keeps st st' where
  currentBest : st'.currentBestMilli = st.currentBestMilli
  stash : st'.stash = st.stash
  wakeups : st'.wakeups = st.wakeups

namespace Moves

theorem refl (st : CoordinatorState) : Moves st st :=
  ⟨⟨fun _ h => h, rfl, rfl, rfl, rfl, rfl⟩, rfl, rfl, rfl⟩

theorem trans {a b c : CoordinatorState} (hab : Moves a b) (hbc : Moves b c) : Moves a c where
  live := fun job h => hab.live job (hbc.live job h)
  generation := hbc.generation.trans hab.generation
  target := hbc.target.trans hab.target
  topology := hbc.topology.trans hab.topology
  leaseTopology := hbc.leaseTopology.trans hab.leaseTopology
  resolvedTopo := hbc.resolvedTopo.trans hab.resolvedTopo
  currentBest := hbc.currentBest.trans hab.currentBest
  stash := hbc.stash.trans hab.stash
  wakeups := hbc.wakeups.trans hab.wakeups

theorem of_router (st : CoordinatorState) {r : Router} (h : ∀ job, r.Staged job → st.Live job) :
    Moves st { st with router := r } where
  live := by
    intro job hor
    rcases hor with hs | hf
    · exact h job hs
    · exact Or.inr hf
  generation := rfl
  target := rfl
  topology := rfl
  leaseTopology := rfl
  resolvedTopo := rfl
  currentBest := rfl
  stash := rfl
  wakeups := rfl

theorem with_outbound {st st' : CoordinatorState} (h : Moves st st')
    (outbound : Table MinerId SessionId) : Moves st { st' with outbound := outbound } :=
  ⟨⟨h.live, h.generation, h.target, h.topology, h.leaseTopology, h.resolvedTopo⟩, h.currentBest,
    h.stash, h.wakeups⟩

theorem of_queues (st : CoordinatorState) {r : Router}
    (h : ∀ id, r.stagedOf id = st.router.stagedOf id) : Moves st { st with router := r } :=
  of_router st fun job hs => Or.inl ((Router.staged_congr h job).mp hs)

end Moves

theorem moves_completeInflight (st : CoordinatorState) (id : JobId) :
    Moves st (st.completeInflight id).1 where
  live := by
    intro job hor
    rcases hor with hs | ⟨i, hi⟩
    · exact Or.inl hs
    · have hl : (st.inflight.erase id).lookup i = some job := hi
      rw [Finmap.lookup_erase_eq] at hl
      split_ifs at hl
      exact Or.inr ⟨i, hl⟩
  generation := rfl
  target := rfl
  topology := rfl
  leaseTopology := rfl
  resolvedTopo := rfl
  currentBest := rfl
  stash := rfl
  wakeups := rfl

theorem live_completeInflight_snd {st : CoordinatorState} {id : JobId} {job : Job}
    (h : (st.completeInflight id).2 = some job) : st.Live job := Or.inr ⟨id, h⟩

theorem moves_noteResult (st : CoordinatorState) (g : Nat) : Moves st (st.noteResult g) := by
  rw [noteResult]
  split_ifs
  · exact ⟨⟨fun _ h => h, rfl, rfl, rfl, rfl, rfl⟩, rfl, rfl, rfl⟩
  · exact .refl st

theorem moves_dispatch_next {st : CoordinatorState} {minerId : MinerId} {r : Router} {job : Job}
    (h : st.router.nextJob minerId = (r, some job)) (now : Nat) :
    Moves st ({ st with router := r }.dispatchInflight minerId now job) ∧ st.Live job := by
  have hn := Router.nextJob_moves st.router minerId
  rw [h] at hn
  have hjob : st.Live job := Or.inl (hn.2 job rfl)
  refine ⟨?_, hjob⟩
  refine ⟨⟨?_, rfl, rfl, rfl, rfl, rfl⟩, rfl, rfl, rfl⟩
  intro k hor
  rcases hor with hs | ⟨i, hi⟩
  · exact Or.inl (hn.1 k hs)
  · have hl : (st.inflight.insert job.jobId job).lookup i = some k := hi
    rw [Finmap.lookup_insert_eq] at hl
    split_ifs at hl
    · cases hl
      exact hjob
    · exact Or.inr ⟨i, hl⟩

theorem drain_induct {minerId : MinerId} {now : Nat}
    {P : CoordinatorState → CoordinatorState × List Job → Prop}
    (spent : ∀ st, P st (st, []))
    (stop : ∀ st r, st.router.nextJob minerId = (r, none) → P st ({ st with router := r }, []))
    (send : ∀ st r job out, st.router.nextJob minerId = (r, some job) →
      P ({ st with router := r }.dispatchInflight minerId now job) out →
      P st (out.1, job :: out.2))
    (fuel : Nat) (st : CoordinatorState) : P st (drain minerId now fuel st) := by
  induction fuel generalizing st with
  | zero => exact spent st
  | succ fuel ih =>
    rw [drain]
    rcases h : st.router.nextJob minerId with ⟨r, _ | job⟩
    · exact stop st r h
    · exact send st r job _ h (ih _)

theorem drain_moves (minerId : MinerId) (now fuel : Nat) (st : CoordinatorState) :
    Moves st (drain minerId now fuel st).1 ∧ ∀ job ∈ (drain minerId now fuel st).2, st.Live job := by
  refine drain_induct (P := fun st out => Moves st out.1 ∧ ∀ job ∈ out.2, st.Live job)
    ?_ ?_ ?_ fuel st
  · intro st
    exact ⟨.refl st, by simp⟩
  · intro st r h
    have hn := (Router.nextJob_moves st.router minerId).1
    rw [h] at hn
    exact ⟨.of_router st fun job hs => Or.inl (hn job hs), by simp⟩
  · intro st r job out h ih
    obtain ⟨hm, hjob⟩ := moves_dispatch_next h now
    refine ⟨hm.trans ih.1, ?_⟩
    intro k hk
    rcases List.mem_cons.mp hk with rfl | hk
    · exact hjob
    · exact hm.live k (ih.2 k hk)

theorem stagedOf_grantCredits (r : Router) (id : MinerId) (n : Nat) (id' : MinerId) :
    (r.grantCredits id n).stagedOf id' = r.stagedOf id' :=
  Router.stagedOf_update (by intro q; rfl) r id id'

theorem dispatchGranted_moves (st : CoordinatorState) (minerId : MinerId) (credits now : Nat) :
    Moves st (st.dispatchGranted minerId credits now).1 ∧
      ∀ job ∈ (st.dispatchGranted minerId credits now).2, st.Live job := by
  have hg : Moves st { st with router := st.router.grantCredits minerId credits } :=
    .of_queues st (stagedOf_grantCredits st.router minerId credits)
  obtain ⟨hm, hl⟩ := drain_moves minerId now
    ((st.router.grantCredits minerId credits).creditsOf minerId)
    { st with router := st.router.grantCredits minerId credits }
  exact ⟨hg.trans hm, fun job hj => hg.live job (hl job hj)⟩

theorem stagedOf_recordCompletion (r : Router) (id id' : MinerId) :
    (r.recordCompletion id).stagedOf id' = r.stagedOf id' :=
  Router.stagedOf_update (by intro q; rfl) r id id'

theorem moves_takeResult (st : CoordinatorState) (minerId : MinerId) (jobId : JobId) :
    Moves st (st.takeResult minerId jobId).1 := by
  obtain ⟨router, mined, hr, he⟩ := st.takeResult_eq minerId jobId
  have hq := (moves_completeInflight st jobId).trans (.of_queues _ fun id => (hr id).1)
  rw [he]
  exact ⟨⟨hq.live, rfl, rfl, rfl, rfl, rfl⟩, rfl, rfl, rfl⟩

theorem moves_rejectJob (st : CoordinatorState) (minerId : MinerId) (jobId : JobId)
    (reason : RejectReason) : Moves st (st.rejectJob minerId jobId reason) := by
  have hc := moves_completeInflight st jobId
  rw [rejectJob]
  cases hl : st.inflight.lookup jobId with
  | none => simpa only [completeInflight, hl] using hc
  | some job =>
    have hjob : st.Live job := Or.inr ⟨jobId, hl⟩
    simp only [completeInflight, hl] at hc ⊢
    refine ⟨⟨?_, rfl, rfl, rfl, rfl, rfl⟩, rfl, rfl, rfl⟩
    intro k hor
    rcases hor with hs | hf
    · rcases Router.staged_onReject hs with hs | rfl
      · exact Or.inl ((Router.staged_congr (stagedOf_recordCompletion st.router minerId) k).mp hs)
      · exact hjob
    · exact hc.live k (Or.inr hf)

theorem moves_handleLeaseDone (st : CoordinatorState) (minerId : MinerId) (done : LeaseDone) :
    Moves st (st.handleLeaseDone minerId done) := by
  obtain ⟨router, mined, hr, he⟩ := st.handleLeaseDone_eq minerId done
  have hq := (moves_completeInflight st done.jobId).trans (.of_queues _ fun id => (hr id).1)
  rw [he]
  exact ⟨⟨hq.live, rfl, rfl, rfl, rfl, rfl⟩, rfl, rfl, rfl⟩

theorem staged_foldl_route {k : Job} (jobs : List Job) {r : Router}
    (h : (jobs.foldl (fun r job => (r.route job).1) r).Staged k) : r.Staged k ∨ k ∈ jobs := by
  induction jobs generalizing r with
  | nil => exact Or.inl h
  | cons job jobs ih =>
    rcases ih h with h | h
    · rcases Router.staged_routeExcluding h with h | rfl
      · exact Or.inl h
      · exact Or.inr List.mem_cons_self
    · exact Or.inr (List.mem_cons_of_mem _ h)

theorem foldl_reclaimInflight_moves (owned : List JobId) (st : CoordinatorState) (jobs : List Job) :
    Moves st (owned.foldl reclaimInflight (st, jobs)).1 ∧
      ∀ job ∈ (owned.foldl reclaimInflight (st, jobs)).2, job ∈ jobs ∨ st.Live job := by
  induction owned generalizing st jobs with
  | nil => exact ⟨.refl st, fun job h => Or.inl h⟩
  | cons id owned ih =>
    have hc := moves_completeInflight st id
    obtain ⟨hm, hj⟩ := ih (st.completeInflight id).1 (jobs ++ (st.completeInflight id).2.toList)
    refine ⟨hc.trans hm, ?_⟩
    intro job hjob
    rcases hj job hjob with h | h
    · rcases List.mem_append.mp h with h | h
      · exact Or.inl h
      · exact Or.inr (live_completeInflight_snd (Option.mem_toList.mp h))
    · exact Or.inr (hc.live job h)

theorem reclaimMiner_moves (st : CoordinatorState) (minerId : MinerId) (owned : List JobId) :
    Moves st (st.reclaimMiner minerId owned).1 ∧
      ∀ job ∈ (st.reclaimMiner minerId owned).2, st.Live job := by
  obtain ⟨hm, hj⟩ := foldl_reclaimInflight_moves owned st []
  rw [reclaimMiner]
  rcases h : owned.foldl reclaimInflight (st, []) with ⟨st₁, jobs⟩
  rw [h] at hm hj
  dsimp only at hm hj ⊢
  have hr : Moves st₁ { st₁ with router := (st₁.router.reclaim minerId).1 } := by
    refine .of_router st₁ ?_
    intro k hex
    obtain ⟨id, hk⟩ := hex
    rw [Router.stagedOf_reclaim] at hk
    split_ifs at hk
    · exact absurd hk List.not_mem_nil
    · exact Or.inl ⟨id, hk⟩
  refine ⟨(hm.trans hr).with_outbound _, ?_⟩
  intro job hjob
  rcases List.mem_append.mp hjob with h' | h'
  · rcases hj job h' with h' | h'
    · exact absurd h' List.not_mem_nil
    · exact h'
  · rw [Router.reclaim_snd] at h'
    exact hm.live job (Or.inl ⟨minerId, h'⟩)

theorem moves_childExit (st : CoordinatorState) (minerId : MinerId) (owned : List JobId) :
    Moves st (st.childExit minerId owned) := by
  obtain ⟨hm, hj⟩ := reclaimMiner_moves st minerId owned
  rw [childExit]
  rcases h : st.reclaimMiner minerId owned with ⟨st₁, jobs⟩
  rw [h] at hm hj
  refine ⟨⟨?_, hm.generation, hm.target, hm.topology, hm.leaseTopology, hm.resolvedTopo⟩,
    hm.currentBest, hm.stash, hm.wakeups⟩
  intro k hor
  rcases hor with hs | hf
  · rcases staged_foldl_route jobs hs with hs | hs
    · exact hm.live k (Or.inl hs)
    · exact hj k hs
  · exact hm.live k (Or.inr hf)

theorem moves_registerMiner (st : CoordinatorState) (minerId : MinerId) (caps : MinerCaps) :
    Moves st (st.registerMiner minerId caps) :=
  .of_queues st (Router.stagedOf_registerMiner st.router minerId caps)

theorem live_stageOn (st : CoordinatorState) {id : MinerId} {job k : Job} {r : Router}
    (hst : st.router.stageOn id job = (r, true)) (h : { st with router := r }.Live k) :
    st.Live k ∨ k = job := by
  rcases h with hs | hf
  · have hr : (st.router.stageOn id job).1.Staged k := by rw [hst]; exact hs
    rcases Router.staged_stageOn hr with hs | ⟨he, -⟩
    · exact Or.inl (Or.inl hs)
    · exact Or.inr he
  · exact Or.inl (Or.inr hf)

theorem lookup_cancelInflight (st : CoordinatorState) (g : Nat) (id : JobId) (job : Job) :
    (st.cancelInflight g).1.inflight.lookup id = some job ↔
      st.inflight.lookup id = some job ∧ Router.keepsUnder g job = true := by
  have hmem : id ∈ st.cancelled g ↔
      ∃ k, st.inflight.lookup id = some k ∧ Router.keepsUnder g k = false := by
    rw [cancelled, Finmap.mem_keys, Finmap.mem_iff]
    simp only [Finmap.lookup_filter_eq_some, Bool.not_eq_true']
  change (st.inflight.filter fun id _ => decide (id ∉ st.cancelled g)).lookup id = some job ↔ _
  rw [Finmap.lookup_filter_eq_some, decide_eq_true_eq, hmem]
  constructor
  · intro hex
    obtain ⟨h, hn⟩ := hex
    refine ⟨h, ?_⟩
    by_contra hk
    exact hn ⟨job, h, by simpa using hk⟩
  · intro hex
    obtain ⟨h, hk⟩ := hex
    refine ⟨h, ?_⟩
    intro hex
    obtain ⟨k, hl, hn⟩ := hex
    rw [h] at hl
    cases hl
    rw [hk] at hn
    exact Bool.false_ne_true hn.symm

/-- Entering a generation keeps a live job exactly when the cancel lets it through. -/
theorem live_stopMining {st : CoordinatorState} {g : Nat} {job : Job}
    (h : (st.stopMining g).1.Live job) :
    st.Live job ∧ Router.keepsUnder (g - 1) job = true := by
  rcases h with hs | ⟨id, hid⟩
  · have hq : ∀ id, (st.stopMining g).1.router.stagedOf id =
        (st.router.cancel (g - 1)).1.stagedOf id := by
      intro id
      simp only [stopMining, clearSalts, cancelInflight, Router.resetRoundSalts, Router.stagedOf,
        Finmap.lookup_mapValues]
      cases (st.router.cancel (g - 1)).1.miners.lookup id <;> rfl
    obtain ⟨hs, hk⟩ := Router.staged_cancel.mp ((Router.staged_congr hq job).mp hs)
    exact ⟨Or.inl hs, hk⟩
  · obtain ⟨hl, hk⟩ := (lookup_cancelInflight
      { st with
        generation := g
        currentBestMilli := none
        stash := st.stash.reset g none 0
        router := (st.router.cancel (g - 1)).1 } (g - 1) id job).mp hid
    exact ⟨Or.inr ⟨id, hl⟩, hk⟩

theorem moves_applyCapabilities [Crates] (st : CoordinatorState) (minerId : MinerId)
    (caps : Capabilities) : Moves st (st.applyCapabilities minerId caps).1 := by
  rw [applyCapabilities]
  split_ifs
  · exact .refl st
  · exact .of_router st fun job hs => Or.inl (Router.staged_updateCapabilities hs)

theorem stageMempoolOrders_spec [Crates] (orders : List JobOrder) (st : CoordinatorState) :
    (∀ job, (st.stageMempoolOrders orders).Live job →
      st.Live job ∨ ∃ order ∈ orders, jobOrderToJob order = some job) ∧
    ∃ r m, st.stageMempoolOrders orders = { st with router := r, mempoolOrders := m } := by
  rw [stageMempoolOrders]
  induction orders generalizing st with
  | nil => exact ⟨fun job h => Or.inl h, st.router, st.mempoolOrders, rfl⟩
  | cons order orders ih =>
    obtain ⟨hl, r, m, he⟩ := ih (st.stageOrder order)
    have hstep : (∀ job, (st.stageOrder order).Live job →
        st.Live job ∨ jobOrderToJob order = some job) ∧
        ∃ r m, st.stageOrder order = { st with router := r, mempoolOrders := m } := by
      rw [stageOrder]
      split_ifs
      · exact ⟨fun job h => Or.inl h, st.router, st.mempoolOrders, rfl⟩
      · cases hj : jobOrderToJob order with
        | none => exact ⟨fun job h => Or.inl h, st.router, _, rfl⟩
        | some k =>
          refine ⟨?_, _, _, rfl⟩
          intro job hor
          rcases hor with hs | hf
          · rcases Router.staged_routeExcluding hs with hs | rfl
            · exact Or.inl (Or.inl hs)
            · exact Or.inr rfl
          · exact Or.inl (Or.inr hf)
    obtain ⟨hs, r', m', he'⟩ := hstep
    refine ⟨?_, r, m, ?_⟩
    · intro job hjob
      rcases hl job hjob with h | ⟨o, ho, hj⟩
      · rcases hs job h with h | h
        · exact Or.inl h
        · exact Or.inr ⟨order, List.mem_cons_self, h⟩
      · exact Or.inr ⟨o, List.mem_cons_of_mem _ ho, hj⟩
    · rw [List.foldl_cons, he, he']

end CoordinatorState

namespace Staging

omit [Crates] in
theorem stageLeases_induct {params : FeederParams} {snap : MiningSnapshot} {plan : Plan}
    {P : Staging → Prop}
    (lease : ∀ s job r n start, P s →
      job = buildLeaseJob snap params.minerIdentity start plan.leaseSalts s.generation →
      s.coord.router.stageOn plan.minerId job = (r, true) →
      P { s with
          coord := { s.coord with router := r }, saltCtr := n, drawn := s.drawn ++ [⟨job, snap⟩] })
    (fuel : Nat) {s : Staging} (h : P s) : P (stageLeases params snap plan fuel s) := by
  induction fuel generalizing s with
  | zero => exact h
  | succ fuel ih =>
    rw [stageLeases]
    split_ifs
    · dsimp only
      rcases hst : s.coord.router.stageOn plan.minerId (buildLeaseJob snap params.minerIdentity
        (satAdd 64 s.saltCtr 1) plan.leaseSalts s.generation) with ⟨r, _ | _⟩
      · exact h
      · exact ih (lease s _ r _ _ h rfl hst)
    · exact h

theorem stagePlain_induct {params : FeederParams} {snap : MiningSnapshot} {plan : Plan}
    {depth : Nat} {P : Staging → Prop}
    (counter : ∀ s n, P s → P { s with saltCtr := n })
    (plain : ∀ s job r n salt, P s →
      derivePowJob snap params.minerIdentity salt s.generation 0 = some job →
      s.coord.router.stageOn plan.minerId job = (r, true) →
      P { s with
          coord := { s.coord with router := r }.recordSalt job.jobId salt
          saltCtr := n, drawn := s.drawn ++ [⟨job, snap⟩] })
    (fuel : Nat) {s : Staging} (h : P s) : P (stagePlain params snap plan depth fuel s) := by
  induction fuel generalizing s with
  | zero => exact h
  | succ fuel ih =>
    rw [stagePlain]
    split_ifs
    · dsimp only
      cases hd : derivePowJob snap params.minerIdentity (saltFromCounter (satAdd 64 s.saltCtr 1))
        s.generation 0 with
      | none => exact counter s _ h
      | some job =>
        dsimp only
        rcases hst : s.coord.router.stageOn plan.minerId job with ⟨r, _ | _⟩
        · exact counter s _ h
        · exact ih (plain s job r _ _ h hd hst)
    · exact h

/-- The induction on a top-up: it moves the salt counter, resets the counters of a queue, or
stages one fresh job. -/
theorem topUp_induct {params : FeederParams} {snap : MiningSnapshot} {P : Staging → Prop}
    (counter : ∀ s n, P s → P { s with saltCtr := n })
    (queues : ∀ s r, P s → (∀ id, r.stagedOf id = s.coord.router.stagedOf id) →
      (∀ id, (id ∈ r.miners ↔ id ∈ s.coord.router.miners) ∧
        r.creditsOf id = s.coord.router.creditsOf id) →
      P { s with coord := { s.coord with router := r } })
    (lease : ∀ s id job r n start count, P s →
      job = buildLeaseJob snap params.minerIdentity start count s.generation →
      s.coord.router.stageOn id job = (r, true) →
      P { s with
          coord := { s.coord with router := r }, saltCtr := n, drawn := s.drawn ++ [⟨job, snap⟩] })
    (plain : ∀ s id job r n salt, P s →
      derivePowJob snap params.minerIdentity salt s.generation 0 = some job →
      s.coord.router.stageOn id job = (r, true) →
      P { s with
          coord := { s.coord with router := r }.recordSalt job.jobId salt
          saltCtr := n, drawn := s.drawn ++ [⟨job, snap⟩] })
    (plans : List Plan) {s : Staging}
    (h : P { s with
          coord := { s.coord with
            target := some (targetFromSnapshot snap)
            stash := s.coord.stash.setAlgorithm (.forSpecVersion snap.specVersion) } }) :
    P (topUp params snap plans s) := by
  have hminer : ∀ s plan, P s → P (topUpMiner params snap s plan) := by
    intro s plan hs
    have hc := queues s (s.coord.router.takeConsumed plan.minerId).1 hs
      (Router.stagedOf_update (by intro q; rfl) s.coord.router plan.minerId)
      fun id => ⟨Router.mem_update s.coord.router plan.minerId id _,
        Router.creditsOf_update (by intro q; rfl) s.coord.router plan.minerId id⟩
    rw [topUpMiner]
    have hq := queues _ ((s.coord.router.takeConsumed plan.minerId).1.takeLeaseSalts plan.minerId).1
      hc (Router.stagedOf_update (by intro q; rfl) _ plan.minerId)
      fun id => ⟨Router.mem_update _ plan.minerId id _,
        Router.creditsOf_update (by intro q; rfl) _ plan.minerId id⟩
    split_ifs
    · exact stageLeases_induct (fun s job r n start hs hj hst =>
        lease s plan.minerId job r n start plan.leaseSalts hs hj hst) _ hq
    · exact stagePlain_induct counter (fun s job r n salt hs hd hst =>
        plain s plan.minerId job r n salt hs hd hst) _ hc
  rw [topUp]
  dsimp only
  generalize { s with
    coord := { s.coord with
      target := some (targetFromSnapshot snap)
      stash := s.coord.stash.setAlgorithm (.forSpecVersion snap.specVersion) } } = s₀ at h ⊢
  induction plans generalizing s₀ with
  | nil => exact h
  | cons plan plans ih => exact ih _ (hminer s₀ plan h)

theorem topUp_eq (params : FeederParams) (snap : MiningSnapshot) (plans : List Plan)
    (s : Staging) : ∃ router salts saltCtr draws, topUp params snap plans s =
      { s with
        coord := { s.coord with
          router := router
          salts := salts
          target := some (targetFromSnapshot snap)
          stash := s.coord.stash.setAlgorithm (.forSpecVersion snap.specVersion) }
        saltCtr := saltCtr
        drawn := s.drawn ++ draws } := by
  refine topUp_induct (P := fun s' => ∃ router salts saltCtr draws, s' = { s with
    coord := { s.coord with
      router := router
      salts := salts
      target := some (targetFromSnapshot snap)
      stash := s.coord.stash.setAlgorithm (.forSpecVersion snap.specVersion) }
    saltCtr := saltCtr
    drawn := s.drawn ++ draws }) ?_ ?_ ?_ ?_ plans
    ⟨s.coord.router, s.coord.salts, s.saltCtr, [], by rw [List.append_nil]⟩
  · intro _ n hex
    obtain ⟨r, salts, _, draws, rfl⟩ := hex
    exact ⟨r, salts, n, draws, rfl⟩
  · intro _ r hex _ _
    obtain ⟨_, salts, n, draws, rfl⟩ := hex
    exact ⟨r, salts, n, draws, rfl⟩
  · intro _ id job r n start count hex _ _
    obtain ⟨_, salts, _, draws, rfl⟩ := hex
    exact ⟨r, salts, n, draws ++ [⟨job, snap⟩], by rw [← List.append_assoc]⟩
  · intro _ id job r n salt hex _ _
    obtain ⟨_, salts, _, draws, rfl⟩ := hex
    exact ⟨r, salts.insert job.jobId salt, n, draws ++ [⟨job, snap⟩], by rw [← List.append_assoc]; rfl⟩

end Staging
end QuipCoordinator
