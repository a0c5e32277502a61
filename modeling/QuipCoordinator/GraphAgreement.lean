import QuipCoordinator.Generations

/-!
# Jobs are scored on the graph they were drawn on

The feeder draws jobs from the snapshot it polled last, while the session graph
is replaced only when the last proof block hash changes. The two are one graph as
long as every polled snapshot of a round has the graph of the snapshot that
seeded the round, and that snapshot carries the canonical hash of its graph.
-/

namespace QuipCoordinator

def Job.graphHash (job : Job) : Option Bytes :=
  if job.isLease then job.generator.map (·.topologyHash)
  else
    match job.ising.bind (·.graph) with
    | some (.topologyHash hash) => some hash
    | _ => none

/-- The part of a snapshot that a job depends on besides the nonce and the allowed values. -/
def MiningSnapshot.graph (snap : MiningSnapshot) : Bytes × List Nat × List (Nat × Nat) :=
  (snap.topologyHash, snap.nodes, snap.edges)

theorem graphHash_buildLeaseJob (snap : MiningSnapshot) (identity : Bytes32) (start count g : Nat) :
    (buildLeaseJob snap identity start count g).graphHash = some snap.topologyHash := rfl

section
variable [Crates]
open CoordinatorState

theorem graphHash_derivePowJob {snap : MiningSnapshot} {identity salt : Bytes32} {g d : Nat}
    {job : Job} (h : derivePowJob snap identity salt g d = some job) :
    job.graphHash = some snap.topologyHash := by
  obtain ⟨hl, -, -, -, hs, js, hi⟩ := derivePowJob_shape h
  simp [Job.graphHash, hl, hi, milliProblem]

namespace World

structure Holds (st : CoordinatorState) (t : Topology) : Prop where
  topology : st.topology = some t
  resolved : st.resolvedTopo = .new t.nodes t.edgePairs
  view : st.leaseTopology = topologyView t

/-- Every live proof-of-work job carries the hash of the session graph and was drawn over its
nodes and edges. -/
def OnGraph (w : World) : Prop :=
  ∀ job, w.coord.Live job → job.isPow = true → ∃ t, Holds w.coord t ∧
    job.graphHash = some t.hash ∧ (∃ snap, ⟨job, snap⟩ ∈ w.drawn) ∧
    ∀ snap, ⟨job, snap⟩ ∈ w.drawn → snap.nodes = t.nodes ∧ snap.edges = t.edgePairs

/-- The snapshots of a round share the graph of its seed, whose hash is canonical, and the
generation counter is not at its maximum. -/
def GraphStable (w : World) : Section → Prop
  | .stopMining => w.generation + 1 < 2 ^ 64
  | .reseed snap _ _ => snap.topologyHash = (topologyFromSnapshot snap).hash
  | .topUp snap _ => w.seed.map (·.graph) = some snap.graph
  | _ => True

instance (w : World) : (e : Section) → Decidable (w.GraphStable e)
  | .stopMining => inferInstanceAs (Decidable (w.generation + 1 < 2 ^ 64))
  | .reseed snap _ _ =>
    inferInstanceAs (Decidable (snap.topologyHash = (topologyFromSnapshot snap).hash))
  | .topUp snap _ => inferInstanceAs (Decidable (w.seed.map (·.graph) = some snap.graph))
  | .registerMiner _ _ | .registerOutbound _ _ | .registerWakeup _ _ | .deregisterOutbound _
  | .applyCapabilities _ _ | .dispatchGranted _ _ _ | .takeResult _ _ | .noteResult _
  | .recordBest _ | .settle _ _ | .rejectJob _ _ _ | .handleLeaseDone _ _ | .childExit _ _
  | .forgetOrder _ | .stageMempoolOrders _ | .winSuccess _ | .markSubmitted _ => .isTrue trivial

structure GraphInv (w : World) : Prop where
  past : ∀ d ∈ w.drawn, d.job.generation ≤ w.generation
  stopped : w.seed = none → ∀ d ∈ w.drawn, d.job.generation < w.generation
  seeded : ∀ seed, w.seed = some seed → Holds w.coord (topologyFromSnapshot seed) ∧
    seed.topologyHash = (topologyFromSnapshot seed).hash ∧
    ∀ d ∈ w.drawn, d.job.generation = w.generation → d.snap.graph = seed.graph
  live : ∀ job, w.coord.Live job → job.isPow = true →
    ∃ snap, ⟨job, snap⟩ ∈ w.drawn ∧ job.graphHash = some snap.topologyHash

theorem graphInv_init : GraphInv World.init where
  past := fun d hd => absurd hd List.not_mem_nil
  stopped := fun _ d hd => absurd hd List.not_mem_nil
  seeded := fun seed hs => by cases hs
  live := fun job h => absurd h (not_live_new job)

/-- A live job has the generation of the round, so every snapshot it was drawn from has the
seed's graph. -/
theorem GraphInv.onGraph {w : World} (hr : w.RoundInv) (h : w.GraphInv) : w.OnGraph := by
  intro job hj hp
  obtain ⟨snap, hd, hhash⟩ := h.live job hj hp
  have hgen : job.generation = w.generation := by
    rcases hr.live job hj with ⟨-, hpow, -⟩ | ⟨-, hgen, -⟩
    · exact absurd (hpow.symm.trans hp) Bool.noConfusion
    · exact hgen
  cases hseed : w.seed with
  | none =>
    have hlt : job.generation < w.generation := h.stopped hseed ⟨job, snap⟩ hd
    omega
  | some seed =>
    obtain ⟨hholds, hcanon, hall⟩ := h.seeded seed hseed
    have hgraph : ∀ snap, ⟨job, snap⟩ ∈ w.drawn → snap.graph = seed.graph :=
      fun snap hd => hall ⟨job, snap⟩ hd hgen
    refine ⟨topologyFromSnapshot seed, hholds, ?_, ⟨snap, hd⟩, fun snap' hd' => ?_⟩
    · have hh : snap.topologyHash = seed.topologyHash := congrArg (·.1) (hgraph snap hd)
      rw [hhash, hh, hcanon]
    · have hg := hgraph snap' hd'
      refine ⟨congrArg (·.2.1) hg, ?_⟩
      rw [topologyFromSnapshot, Topology.edgePairs_fromNodesEdges]
      exact congrArg (·.2.2) hg

theorem Holds.of_keeps {st st' : CoordinatorState} {t : Topology} (h : Holds st t)
    (hk : Keeps st st') : Holds st' t :=
  ⟨hk.topology.trans h.topology, hk.resolvedTopo.trans h.resolved, hk.leaseTopology.trans h.view⟩

theorem graphInv_of_keeps {w : World} {coord : CoordinatorState} (h : w.GraphInv)
    (hk : Keeps w.coord coord) : (w.update coord).GraphInv where
  past := h.past
  stopped := h.stopped
  seeded := by
    intro seed hs
    obtain ⟨hholds, hrest⟩ := h.seeded seed hs
    exact ⟨hholds.of_keeps hk, hrest⟩
  live := fun job hj hp => h.live job (hk.live job hj) hp

theorem holds_reseed (st : CoordinatorState) (g : Nat) (snap : MiningSnapshot) (q : Option Nat)
    (d : Option DecayParams) : Holds (st.reseed g snap q d) (topologyFromSnapshot snap) :=
  ⟨rfl, rfl, rfl⟩

structure ToppedUp (w : World) (snap : MiningSnapshot) (s : Staging) : Prop where
  generation : s.generation = w.generation
  topology : s.coord.topology = w.coord.topology
  resolved : s.coord.resolvedTopo = w.coord.resolvedTopo
  view : s.coord.leaseTopology = w.coord.leaseTopology
  drawn : ∀ d ∈ s.drawn, d ∈ w.drawn ∨ d.snap = snap ∧ d.job.generation = w.generation
  live : ∀ job, s.coord.Live job → job.isPow = true →
    ∃ snap, ⟨job, snap⟩ ∈ s.drawn ∧ job.graphHash = some snap.topologyHash

omit [Crates] in
theorem ToppedUp.stage {w : World} {snap : MiningSnapshot} {s : Staging} (h : ToppedUp w snap s)
    {id : MinerId} {job : Job} {r : Router} (hst : s.coord.router.stageOn id job = (r, true))
    (hgen : job.generation = w.generation) (hhash : job.graphHash = some snap.topologyHash)
    (n : Nat) (salts : Table JobId Bytes32) :
    ToppedUp w snap { s with
      coord := { s.coord with router := r, salts := salts }
      saltCtr := n, drawn := s.drawn ++ [⟨job, snap⟩] } where
  generation := h.generation
  topology := h.topology
  resolved := h.resolved
  view := h.view
  drawn := by
    intro d hd
    rcases List.mem_append.mp hd with hd | hd
    · exact h.drawn d hd
    · rw [List.mem_singleton.mp hd]
      exact Or.inr ⟨rfl, hgen⟩
  live := by
    intro k hk hp
    rcases live_stageOn s.coord hst hk with hk | rfl
    · obtain ⟨snap', hd, hh⟩ := h.live k hk hp
      exact ⟨snap', List.mem_append_left _ hd, hh⟩
    · exact ⟨snap, List.mem_append_right _ List.mem_cons_self, hhash⟩

theorem toppedUp_topUp (params : FeederParams) {w : World} (h : w.GraphInv)
    (snap : MiningSnapshot) (plans : List Plan) :
    ToppedUp w snap (w.toStaging.topUp params snap plans) := by
  refine Staging.topUp_induct (P := ToppedUp w snap) ?_ ?_ ?_ ?_ plans
    ⟨rfl, rfl, rfl, rfl, fun d hd => Or.inl hd, h.live⟩
  · exact fun s n hs => ⟨hs.generation, hs.topology, hs.resolved, hs.view, hs.drawn, hs.live⟩
  · intro s r hs hr _
    exact ⟨hs.generation, hs.topology, hs.resolved, hs.view, hs.drawn,
      fun job hj => hs.live job ((Moves.of_queues s.coord hr).live job hj)⟩
  · intro s id job r n start count hs hjob hst
    subst hjob
    exact hs.stage hst hs.generation (graphHash_buildLeaseJob _ _ _ _ _) n s.coord.salts
  · intro s id job r n salt hs hjob hst
    obtain ⟨-, -, hgen, -⟩ := derivePowJob_shape hjob
    exact hs.stage hst (hgen.trans hs.generation) (graphHash_derivePowJob hjob) n
      (s.coord.salts.insert job.jobId salt)

theorem graphInv_next (params : FeederParams) {w : World} {e : Section} (h : w.GraphInv)
    (ha : w.Allowed e) (hok : w.GraphStable e) : (w.next params e).GraphInv := by
  cases e with
  | stopMining =>
    have hpast : ∀ d ∈ w.drawn, d.job.generation < satAdd 64 w.generation 1 := by
      intro d hd
      have hlt : w.generation + 1 < 2 ^ 64 := hok
      have hle := h.past d hd
      rw [satAdd]
      omega
    exact ⟨fun d hd => (hpast d hd).le, fun _ => hpast, (fun seed hs => by cases hs),
      fun job hj hp => h.live job (live_stopMining hj).1 hp⟩
  | reseed snap q dp =>
    refine ⟨h.past, (fun hn => by cases hn), ?_, h.live⟩
    intro seed heq
    cases heq
    refine ⟨holds_reseed _ _ _ _ _, hok, fun d hd hgen => ?_⟩
    have hlt := h.stopped ha.1 d hd
    have heq : d.job.generation = w.generation := hgen
    omega
  | topUp snap plans =>
    have ht := toppedUp_topUp params h snap plans
    have hsome : w.seed ≠ none := by
      intro hn
      have hg : w.seed.map (·.graph) = some snap.graph := hok
      rw [hn] at hg
      cases hg
    refine ⟨fun d hd => ?_, fun hn => absurd hn hsome, fun seed hs => ?_, ht.live⟩
    · change d.job.generation ≤ (w.toStaging.topUp params snap plans).generation
      rw [ht.generation]
      rcases ht.drawn d hd with hd | ⟨-, hgen⟩
      · exact h.past d hd
      · exact hgen.le
    · obtain ⟨hholds, hcanon, hall⟩ := h.seeded seed hs
      refine ⟨⟨ht.topology.trans hholds.topology, ht.resolved.trans hholds.resolved,
        ht.view.trans hholds.view⟩, hcanon, fun d hd hgen => ?_⟩
      have hg : d.job.generation = w.generation := hgen.trans ht.generation
      rcases ht.drawn d hd with hd | ⟨hsnap, -⟩
      · exact hall d hd hg
      · have hgraph : w.seed.map (·.graph) = some snap.graph := hok
        have hseed : w.seed = some seed := hs
        rw [hseed] at hgraph
        rw [hsnap]
        exact (Option.some.inj hgraph).symm
  | stageMempoolOrders orders =>
    obtain ⟨hl, r, m, he⟩ := stageMempoolOrders_spec orders w.coord
    refine ⟨h.past, h.stopped, fun seed hs => ?_, fun job hj hp => ?_⟩
    · obtain ⟨hholds, hrest⟩ := h.seeded seed hs
      refine ⟨?_, hrest⟩
      change Holds (w.coord.stageMempoolOrders orders) _
      rw [he]
      exact ⟨hholds.topology, hholds.resolved, hholds.view⟩
    · rcases hl job hj with hj | ⟨order, -, ho⟩
      · exact h.live job hj hp
      · obtain ⟨-, hpow, -⟩ := jobOrderToJob_shape ho
        exact absurd (hpow.symm.trans hp) Bool.noConfusion
  | _ =>
    rw [next_eq_update params w rfl]
    exact graphInv_of_keeps h (next_keeps params w rfl)

theorem graphInv_reachable {params : FeederParams} {w : World}
    (h : ((coordinatorMachine params).restrict GraphStable).Reachable w) : w.GraphInv := by
  refine h.invariant (I := GraphInv) graphInv_init ?_
  intro s e _ hi ha
  exact graphInv_next params hi ha.1 ha.2

theorem not_live_stopped {w : World} (hr : w.RoundInv) (hgr : w.GraphInv) (hs : w.seed = none)
    {job : Job} (hj : w.coord.Live job) : job.generation = 0 := by
  rcases hr.live job hj with ⟨-, -, h0, -⟩ | ⟨hpow, hgen, -⟩
  · exact h0
  · obtain ⟨snap, hd, -⟩ := hgr.live job hj hpow
    have hlt : job.generation < w.generation := hgr.stopped hs ⟨job, snap⟩ hd
    omega

omit [Crates] in
theorem topo_takeResult (st : CoordinatorState) (minerId : MinerId) (jobId : JobId) :
    (st.takeResult minerId jobId).2.topo = st.resolvedTopo := by
  rw [taken_eq]

end World

/-- In every run whose snapshots keep the graph of their round, every live proof-of-work job is
on the session graph, and a plain one is scored against the edges it was drawn over. -/
theorem jobs_scored_on_drawn_graph (params : FeederParams) {w : World}
    (h : ((coordinatorMachine params).restrict World.GraphStable).Reachable w) :
    w.OnGraph ∧
      ∀ minerId jobId job ising snap, w.coord.inflight.lookup jobId = some job → job.PlainPow →
        job.ising = some ising → ⟨job, snap⟩ ∈ w.drawn →
        edgesFor ising (w.coord.takeResult minerId jobId).2.topo =
          (ResolvedTopo.new snap.nodes snap.edges).edgesPos := by
  have hon := (World.graphInv_reachable h).onGraph (World.roundInv_reachable h.of_restrict)
  refine ⟨hon, ?_⟩
  intro minerId jobId job ising snap hjob hp hi hd
  obtain ⟨t, hholds, hhash, -, hall⟩ := hon job (Or.inr ⟨jobId, hjob⟩) hp.2
  obtain ⟨hnodes, hedges⟩ := hall snap hd
  have hgraph : ising.graph = some (.topologyHash t.hash) := by
    rw [Job.graphHash, hp.1, hi] at hhash
    cases hg : ising.graph with
    | none => simp [hg] at hhash
    | some g =>
      cases g with
      | topologyHash hash => simpa [hg] using hhash
      | edges e => simp [hg] at hhash
  rw [World.topo_takeResult, hholds.resolved, edgesFor, hgraph, hnodes, hedges]

end

namespace Sample

def drifted : MiningSnapshot :=
  { snap with
    topologyHash := [0, 1, 2, 0, 1, 1, 2] ++ List.replicate 25 0
    nodes := [0, 1, 2]
    edges := [(0, 1), (1, 2)] }

def drift : List Section :=
  start ++ [.dispatchGranted "a" 1 0, .topUp drifted [⟨"a", 0, 1⟩]]

end Sample

open Sample in
theorem jobs_scored_on_drawn_graph_sample :
    let w := (coordinatorMachine params).run .init (start ++ [.dispatchGranted "a" 1 0])
    ∃ job ising, w.coord.inflight.lookup jobId = some job ∧ job.PlainPow ∧
      job.ising = some ising ∧ (⟨job, snap⟩ : Draw) ∈ w.drawn ∧
      edgesFor ising (w.coord.takeResult "a" jobId).2.topo =
        (ResolvedTopo.new snap.nodes snap.edges).edgesPos := by
  have hw := jobs_scored_on_drawn_graph params
    (Machine.reachable_restrict_run (start ++ [.dispatchGranted "a" 1 0]) (by decide +kernel))
  have hjob : ∃ job ∈ ((coordinatorMachine params).run .init
      (start ++ [.dispatchGranted "a" 1 0])).coord.inflight.lookup jobId, job.PlainPow ∧
      job.ising.isSome = true ∧ (⟨job, snap⟩ : Draw) ∈ ((coordinatorMachine params).run .init
        (start ++ [.dispatchGranted "a" 1 0])).drawn := by decide +kernel
  obtain ⟨job, hl, hp, hi, hd⟩ := hjob
  obtain ⟨ising, hi⟩ := Option.isSome_iff_exists.mp hi
  exact ⟨job, ising, hl, hp, hi, hd, hw.2 "a" jobId job ising snap hl hp hi hd⟩

open Sample in
theorem drifted_snapshot_leaves_graph :
    ¬ ∀ w, (coordinatorMachine params).Reachable w → w.OnGraph := by
  intro hall
  have hreach := Machine.reachable_run (M := coordinatorMachine params) drift (by decide +kernel)
  have hstaged : ∃ job ∈ ((coordinatorMachine params).run .init drift).coord.router.stagedOf "a",
      job.isPow = true ∧ job.graphHash = some drifted.topologyHash := by decide +kernel
  have htopo : ((coordinatorMachine params).run .init drift).coord.topology.map (·.hash) =
      some snap.topologyHash := by decide +kernel
  obtain ⟨job, hs, hp, hhash⟩ := hstaged
  obtain ⟨t, hholds, ht, -⟩ := hall _ hreach job (Or.inl ⟨"a", hs⟩) hp
  have hheld : ((coordinatorMachine params).run .init drift).coord.topology = some t :=
    hholds.topology
  have heq : some t.hash = some snap.topologyHash := by
    rw [hheld] at htopo
    exact htopo
  exact absurd (hhash.symm.trans (ht.trans heq)) (by decide)

end QuipCoordinator
