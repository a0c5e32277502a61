import Mathlib.Order.Bounds.Basic
import QuipCoordinator.Router

/-!
# What a capability check promises

`capable` is a chain of checks, each of which can only refuse. With a native graph
declared, an inline job it accepts lies on that graph. The degree it compares with
the limit is the largest degree of the graph, and it accepts no less under wider
limits, more kinds and more generators.
-/

namespace QuipCoordinator

/-! ## Degrees -/

def degree (edges : List (Nat × Nat)) (n : Nat) : Nat :=
  edges.countP (fun e => e.1 == n) + edges.countP (fun e => e.2 == n)

theorem count_ends (edges : List (Nat × Nat)) (n : Nat) :
    (edges.flatMap fun e => [e.1, e.2]).count n = degree edges n := by
  induction edges with
  | nil => rfl
  | cons e edges ih =>
    rw [List.flatMap_cons, List.count_append, ih, degree, degree, List.countP_cons,
      List.countP_cons, List.count_cons, List.count_cons, List.count_nil]
    omega

theorem degree_le_of_no_loops {edges : List (Nat × Nat)} (h : ∀ e ∈ edges, e.1 ≠ e.2) (n : Nat) :
    degree edges n ≤ edges.length := by
  induction edges with
  | nil => exact Nat.le_refl 0
  | cons e edges ih =>
    have hrest := ih fun e' he' => h e' (List.mem_cons_of_mem e he')
    have hne := h e List.mem_cons_self
    have hone : (if (e.1 == n) = true then 1 else 0) + (if (e.2 == n) = true then 1 else 0) ≤ 1 := by
      simp only [beq_iff_eq]
      split_ifs with h1 h2
      · exact absurd (h1.trans h2.symm) hne
      all_goals omega
    rw [degree, List.countP_cons, List.countP_cons, List.length_cons]
    rw [degree] at hrest
    omega

theorem degree_le (edges : List (Nat × Nat)) (n : Nat) : degree edges n ≤ 2 * edges.length := by
  have h1 := List.countP_le_length (p := fun e : Nat × Nat => e.1 == n) (l := edges)
  have h2 := List.countP_le_length (p := fun e : Nat × Nat => e.2 == n) (l := edges)
  rw [degree]
  omega

theorem le_foldr_max {l : List Nat} {x : Nat} (h : x ∈ l) : x ≤ l.foldr max 0 := by
  induction l with
  | nil => exact absurd h List.not_mem_nil
  | cons y l ih =>
    rw [List.foldr_cons]
    rcases List.mem_cons.mp h with rfl | h
    · exact Nat.le_max_left _ _
    · exact (ih h).trans (Nat.le_max_right _ _)

theorem foldr_max_mem (l : List Nat) : l.foldr max 0 = 0 ∨ l.foldr max 0 ∈ l := by
  induction l with
  | nil => exact Or.inl rfl
  | cons y l ih =>
    rw [List.foldr_cons]
    rcases Nat.le_total (l.foldr max 0) y with hle | hle
    · rw [Nat.max_eq_left hle]
      exact Or.inr List.mem_cons_self
    · rw [Nat.max_eq_right hle]
      exact ih.imp id (List.mem_cons_of_mem y)

theorem isGreatest_maximumDegree {edges : List (Nat × Nat)} (h : ∀ n, degree edges n < 2 ^ 32) :
    IsGreatest (Set.range (degree edges)) (maximumDegree edges) := by
  have hends : maximumDegree edges =
      ((edges.flatMap fun e => [e.1, e.2]).map (degree edges)).foldr max 0 := by
    rw [maximumDegree]
    congr 1
    refine List.map_congr_left fun n _ => ?_
    have hn := h n
    rw [count_ends]
    omega
  have hbound : ∀ n, degree edges n ≤ maximumDegree edges := by
    intro n
    rw [hends]
    by_cases hn : n ∈ edges.flatMap fun e => [e.1, e.2]
    · exact le_foldr_max (List.mem_map_of_mem hn)
    · rw [← count_ends, List.count_eq_zero_of_not_mem hn]
      exact Nat.zero_le _
  constructor
  · rcases foldr_max_mem ((edges.flatMap fun e => [e.1, e.2]).map (degree edges)) with h0 | hmem
    · refine ⟨0, ?_⟩
      have hz := hbound 0
      rw [hends, h0] at hz ⊢
      exact Nat.le_zero.mp hz
    · obtain ⟨n, -, hn⟩ := List.mem_map.mp hmem
      exact ⟨n, hn.trans hends.symm⟩
  · rintro _ ⟨n, rfl⟩
    exact hbound n

/-! ## The view the router checks against -/

section
variable [Crates]
open Crates

theorem RoutingTopology.new_eq_some {T : Topology} {t : RoutingTopology} (h : new T = some t) :
    T.edges.1.length = T.edges.2.length ∧ T.nodes.Nodup ∧
      (∀ e ∈ T.edgePairs, e.1 ≠ e.2 ∧ e.1 ∈ T.nodes ∧ e.2 ∈ T.nodes) ∧
      T.nodes.length < 2 ^ 32 ∧ T.edgePairs.length < 2 ^ 32 ∧
      t = ⟨T.hash, T.nodes.length, T.edgePairs.length, maximumDegree T.edgePairs,
        blake2256 (nativePreimage T.nodes T.edgePairs), T.nodes.toFinset,
        (T.edgePairs.map normalizeEdge).toFinset⟩ := by
  unfold new at h
  dsimp only at h
  split_ifs at h with hlen hgraph hsize
  rw [not_or, not_exists] at hgraph
  obtain ⟨hcard, hedges⟩ := hgraph
  rw [not_or, Nat.not_le, Nat.not_le] at hsize
  rw [nativeTopologyHash, if_pos hsize] at h
  refine ⟨not_not.mp hlen, ?_, ?_, hsize.1, hsize.2, (Option.some.inj h).symm⟩
  · exact Multiset.toFinset_card_eq_card_iff_nodup.mp (not_not.mp hcard)
  · intro e he
    have hno : ¬(e.1 = e.2 ∨ e.1 ∉ T.nodes.toFinset ∨ e.2 ∉ T.nodes.toFinset) :=
      fun hbad => hedges e ⟨he, hbad⟩
    simpa [not_or] using hno

theorem RoutingTopology.isGreatest_maxDegree {T : Topology} {t : RoutingTopology}
    (h : new T = some t) : IsGreatest (Set.range (degree T.edgePairs)) t.maxDegree := by
  obtain ⟨-, -, hedges, -, hsize, rfl⟩ := new_eq_some h
  refine isGreatest_maximumDegree fun n => ?_
  exact (degree_le_of_no_loops (fun e he => (hedges e he).1) n).trans_lt hsize

theorem RoutingTopology.mem_edges {T : Topology} {t : RoutingTopology} (h : new T = some t)
    {e : Nat × Nat} (he : normalizeEdge e ∈ t.edges) : e ∈ T.edgePairs ∨ e.swap ∈ T.edgePairs := by
  obtain ⟨-, -, -, -, -, rfl⟩ := new_eq_some h
  obtain ⟨⟨u, v⟩, hmem, hnorm⟩ := List.mem_map.mp (List.mem_toFinset.mp he)
  obtain ⟨a, b⟩ := e
  obtain ⟨hmin, hmax⟩ := Prod.mk.inj hnorm
  change min u v = min a b at hmin
  change max u v = max a b at hmax
  have hcases : u = a ∧ v = b ∨ u = b ∧ v = a := by omega
  rcases hcases with ⟨rfl, rfl⟩ | ⟨rfl, rfl⟩
  · exact Or.inl hmem
  · exact Or.inr hmem

end

/-! ## The checks -/

theorem capable_eq_true {q : MinerQueue} {job : Job} {topology : Option RoutingTopology} :
    capable q job topology = true ↔
      job.kind ∉ q.unsupportedKinds ∧
      (q.caps.supportedKinds = [] ∨ job.kind ∈ q.caps.supportedKinds) ∧
      (job.isLease = true → q.caps.acceptsLeases = true) ∧
      (q.caps.maxNodes = 0 ∨ jobNodeCount job topology ≤ q.caps.maxNodes) ∧
      (q.caps.maxEdges = 0 ∨ jobEdgeCount job topology ≤ q.caps.maxEdges) ∧
      (∀ limit ∈ q.caps.maxDegree, limit = 0 ∨
        ∀ degree ∈ jobMaxDegree job topology, degree ≤ limit) ∧
      nativeCompatible q.caps job topology = true := by
  have hdegree : ((q.caps.maxDegree.filter (0 < ·)).any fun limit =>
        (jobMaxDegree job topology).any fun degree => limit < degree) = false ↔
      ∀ limit ∈ q.caps.maxDegree, limit = 0 ∨
        ∀ degree ∈ jobMaxDegree job topology, degree ≤ limit := by
    cases q.caps.maxDegree with
    | none => simp
    | some limit =>
      rcases Nat.eq_zero_or_pos limit with rfl | hpos
      · simp
      · cases jobMaxDegree job topology <;> simp [Option.filter, hpos, hpos.ne']
  rw [capable]
  split_ifs with h1 h2 h3 h4 h5 h6
  · simp [h1]
  · simp [h2]
  · simp [h3]
  · simp [h4.1.ne', Nat.not_le.mpr h4.2]
  · simp [h5.1.ne', Nat.not_le.mpr h5.2]
  · rw [← hdegree, h6]
    simp
  · rw [Bool.not_eq_true] at h6
    rw [← hdegree, h6]
    have hkinds : q.caps.supportedKinds = [] ∨ job.kind ∈ q.caps.supportedKinds := by
      by_contra hno
      exact h2 (not_or.mp hno)
    have hlease : job.isLease = true → q.caps.acceptsLeases = true := by
      intro hl
      by_contra hno
      exact h3 ⟨hl, hno⟩
    have hnodes : q.caps.maxNodes = 0 ∨ jobNodeCount job topology ≤ q.caps.maxNodes := by omega
    have hedges : q.caps.maxEdges = 0 ∨ jobEdgeCount job topology ≤ q.caps.maxEdges := by omega
    exact ⟨fun h => ⟨h1, hkinds, hlease, hnodes, hedges, rfl, h⟩, fun h => h.2.2.2.2.2.2⟩

/-- An inline job on the graph that `native` names: sites, edges and couplings are those of `T`. -/
structure OnNativeGraph [Crates] (T : Topology) (native : Bytes) (job : Job) (ising : IsingProblem)
    (e : EdgeList) : Prop where
  native : (nativeTopologyHash T.nodes T.edgePairs).map (·.toList) = some native
  fields : ising.h.length % 4 = 0
  -- the count saturates at the end of its 32 bits
  count : jobNodeCount job (RoutingTopology.new T) = min (ising.h.length / 4) (2 ^ 32 - 1)
  sites : ∀ n < jobNodeCount job (RoutingTopology.new T), n ∈ T.nodes
  ends : e.u.length = e.v.length
  edges : ∀ p ∈ e.u.zip e.v, (p ∈ T.edgePairs ∨ p.swap ∈ T.edgePairs) ∧ p.1 ≠ p.2 ∧
    p.1 < jobNodeCount job (RoutingTopology.new T) ∧
    p.2 < jobNodeCount job (RoutingTopology.new T)
  couplings : ising.j.length = 4 * e.u.length

theorem onNativeGraph_of_nativeCompatible [Crates] {caps : MinerCaps} {job : Job}
    {topology : Option Topology} {native : Bytes} {ising : IsingProblem} {e : EdgeList}
    (hn : caps.nativeTopologyHash = some native) (hl : job.isLease = false)
    (hi : job.ising = some ising) (hg : ising.graph = some (.edges e))
    (h : nativeCompatible caps job (topology.bind RoutingTopology.new) = true) :
    ∃ T, topology = some T ∧ (RoutingTopology.new T).isSome = true ∧
      OnNativeGraph T native job ising e := by
  simp only [nativeCompatible, hn, hl, hi, hg, Bool.false_eq_true, if_false] at h
  split_ifs at h with h32
  cases hview : topology.bind RoutingTopology.new with
  | none => simp [hview] at h
  | some t =>
    obtain ⟨T, rfl, ht⟩ := Option.bind_eq_some_iff.mp hview
    obtain ⟨-, -, -, hnodes, hpairs, heq⟩ := RoutingTopology.new_eq_some ht
    simp only [hview] at h
    split_ifs at h with hbad
    simp only [not_or, not_not] at hbad
    obtain ⟨hhash, hends, -, -, hfields, hcouplings⟩ := hbad
    obtain ⟨hsites, hedges⟩ := Bool.and_eq_true_iff.mp h
    have hedge : ∀ p ∈ e.u.zip e.v, p.1 < jobNodeCount job (some t) ∧
        p.2 < jobNodeCount job (some t) ∧ p.1 ≠ p.2 ∧ normalizeEdge p ∈ t.edges := by
      simpa [and_assoc] using hedges
    refine ⟨T, rfl, by rw [ht]; rfl, ?_⟩
    refine ⟨?_, hfields, ?_, ?_, hends, ?_, by omega⟩
    · rw [nativeTopologyHash, if_pos ⟨hnodes, hpairs⟩, hhash, heq]
      rfl
    · simp [jobNodeCount, hl, hi]
    · intro n hlt
      rw [ht] at hlt
      have hmem : n ∈ t.nodes :=
        of_decide_eq_true (List.all_eq_true.mp hsites n (List.mem_range.mpr hlt))
      rw [heq] at hmem
      exact List.mem_toFinset.mp hmem
    · intro p hp
      obtain ⟨h1, h2, hne, hmem⟩ := hedge p hp
      rw [ht]
      exact ⟨RoutingTopology.mem_edges ht hmem, hne, h1, h2⟩

def Job.Over (job : Job) (T : Topology) : Prop :=
  if job.isLease then ∃ g ∈ job.generator, g.topologyHash = T.hash
  else ∃ ising ∈ job.ising, ising.graph = some (.topologyHash T.hash)

theorem jobTopology_of_over {job : Job} {T : Topology} {t : RoutingTopology} (h : job.Over T)
    (ht : t.hash = T.hash) : jobTopology job (some t) = some t := by
  unfold Job.Over at h
  split_ifs at h with hl
  · obtain ⟨g, hg, hh⟩ := h
    simp [jobTopology, hl, Option.mem_def.mp hg, hh, ht, Option.filter]
  · obtain ⟨ising, hi, hgraph⟩ := h
    simp [jobTopology, hl, Option.mem_def.mp hi, hgraph, ht, Option.filter]

theorem jobTopology_inline {job : Job} {ising : IsingProblem} {e : EdgeList}
    (hl : job.isLease = false) (hi : job.ising = some ising) (hg : ising.graph = some (.edges e))
    (topology : Option RoutingTopology) : jobTopology job topology = none := by
  simp [jobTopology, hl, hi, hg]

/-! ## Wider envelopes -/

/-- A limit of 0 is none. -/
def LimitWidens (limit limit' : Nat) : Prop :=
  limit' = limit ∨ limit ≠ 0 ∧ (limit' = 0 ∨ limit ≤ limit')

structure MinerCaps.Widens (caps caps' : MinerCaps) : Prop where
  nodes : LimitWidens caps.maxNodes caps'.maxNodes
  edges : LimitWidens caps.maxEdges caps'.maxEdges
  degree : caps'.maxDegree = caps.maxDegree ∨
    ∃ limit, caps.maxDegree = some limit ∧ limit ≠ 0 ∧ ∀ limit' ∈ caps'.maxDegree,
      limit' = 0 ∨ limit ≤ limit'
  kinds : caps'.supportedKinds = caps.supportedKinds ∨
    caps.supportedKinds ≠ [] ∧ caps.supportedKinds ⊆ caps'.supportedKinds
  generators : caps.generators ⊆ caps'.generators
  native : caps'.nativeTopologyHash = caps.nativeTopologyHash

theorem LimitWidens.le {limit limit' n : Nat} (h : LimitWidens limit limit')
    (hn : limit = 0 ∨ n ≤ limit) : limit' = 0 ∨ n ≤ limit' := by
  rcases h with rfl | ⟨hne, h0 | hle⟩
  · exact hn
  · exact Or.inl h0
  · exact Or.inr ((hn.resolve_left hne).trans hle)

theorem MinerCaps.Widens.acceptsLeases {caps caps' : MinerCaps} (h : caps.Widens caps')
    (ha : caps.acceptsLeases = true) : caps'.acceptsLeases = true := by
  rw [MinerCaps.acceptsLeases, Bool.and_eq_true, List.contains_iff_mem, List.contains_iff_mem] at ha ⊢
  refine ⟨?_, h.generators ha.2⟩
  rcases h.kinds with heq | ⟨-, hsub⟩
  · rw [heq]
    exact ha.1
  · exact hsub ha.1

theorem capable_of_widens {q : MinerQueue} {caps' : MinerCaps} {job : Job}
    {topology : Option RoutingTopology} (h : q.caps.Widens caps')
    (hc : capable q job topology = true) :
    capable { q with caps := caps' } job topology = true := by
  obtain ⟨hkind, hkinds, hlease, hnodes, hedges, hdegree, hnative⟩ := capable_eq_true.mp hc
  refine capable_eq_true.mpr ⟨hkind, ?_, fun hl => h.acceptsLeases (hlease hl), h.nodes.le hnodes,
    h.edges.le hedges, ?_, ?_⟩
  · rcases h.kinds with heq | ⟨hne, hsub⟩
    · rw [heq]
      exact hkinds
    · exact Or.inr (hsub (hkinds.resolve_left hne))
  · rcases h.degree with heq | ⟨limit, hlimit, hne, hle⟩
    · rw [heq]
      exact hdegree
    · intro limit' hlimit'
      refine (hle limit' hlimit').imp id fun hll degree hd => ?_
      exact ((hdegree limit hlimit).resolve_left hne degree hd).trans hll
  · have hcaps : nativeCompatible caps' job topology = nativeCompatible q.caps job topology := by
      rw [nativeCompatible, nativeCompatible, h.native]
    rw [hcaps]
    exact hnative

/-! ## The checks as a whole -/

structure CapabilityPromise [Crates] (q : MinerQueue) (job : Job) (topology : Option Topology) :
    Prop where
  native : ∀ native ising e, capable q job (topology.bind RoutingTopology.new) = true →
    q.caps.nativeTopologyHash = some native → job.isLease = false → job.ising = some ising →
    ising.graph = some (.edges e) → ∃ T, topology = some T ∧
      (RoutingTopology.new T).isSome = true ∧ OnNativeGraph T native job ising e
  inlineDegree : ∀ ising e, job.isLease = false → job.ising = some ising →
    ising.graph = some (.edges e) → e.u.length = e.v.length → e.u.length < 2 ^ 31 →
    ∃ d, jobMaxDegree job (topology.bind RoutingTopology.new) = some d ∧
      IsGreatest (Set.range (degree (e.u.zip e.v))) d
  graphDegree : ∀ T t, topology = some T → RoutingTopology.new T = some t → job.Over T →
    jobMaxDegree job (topology.bind RoutingTopology.new) = some t.maxDegree ∧
      IsGreatest (Set.range (degree T.edgePairs)) t.maxDegree
  widens : ∀ caps', q.caps.Widens caps' → capable q job (topology.bind RoutingTopology.new) = true →
    capable { q with caps := caps' } job (topology.bind RoutingTopology.new) = true

theorem capability_checks_sound [Crates] (q : MinerQueue) (job : Job)
    (topology : Option Topology) : CapabilityPromise q job topology where
  native := by
    intro native ising e hc hn hl hi hg
    exact onNativeGraph_of_nativeCompatible hn hl hi hg (capable_eq_true.mp hc).2.2.2.2.2.2
  inlineDegree := by
    intro ising e hl hi hg hends hlen
    have hd : jobMaxDegree job (topology.bind RoutingTopology.new) =
        some (maximumDegree (e.u.zip e.v)) := by
      simp [jobMaxDegree, jobTopology_inline hl hi hg, hi, hg, hends]
    refine ⟨_, hd, isGreatest_maximumDegree fun n => ?_⟩
    have hle := degree_le (e.u.zip e.v) n
    rw [List.length_zip, hends, Nat.min_self] at hle
    omega
  graphDegree := by
    intro T t hT ht hover
    obtain ⟨-, -, -, -, -, heq⟩ := RoutingTopology.new_eq_some ht
    have hhash : t.hash = T.hash := by rw [heq]
    refine ⟨?_, RoutingTopology.isGreatest_maxDegree ht⟩
    rw [hT, Option.bind_some, ht, jobMaxDegree, jobTopology_of_over hover hhash]
  widens := fun _ hw hc => capable_of_widens hw hc

namespace Sample

def twoNodes : Topology := ⟨[9], [0, 1], ([1], [0]), [], []⟩

def edgeJob : Job where
  jobId := [1]
  kind := .isingSample
  generation := 1
  deadlineMs := 0
  ising := some ⟨some (.edges ⟨[0], [1]⟩), .i32, milliScale, List.replicate 8 0, List.replicate 4 0⟩
  generator := none
  provenance := none

def nativeMiner : MinerQueue where
  caps := ⟨"dwave", "qa", [], 2, 1, some 1, (nativeTopologyHash [0, 1] [(1, 0)]).map (·.toList), [],
    [], 1⟩
  staged := []
  grantedCredits := 0
  consumedSincePoll := 0
  saltsSincePoll := 0
  roundSalts := 0
  completed := 0
  unsupportedKinds := ∅

end Sample

open Sample in
/-- A job with the edge of a graph of two nodes, at the limits of a miner on that graph. -/
theorem capability_checks_sound_edge :
    capable nativeMiner edgeJob (RoutingTopology.new twoNodes) = true ∧
      ∃ T, some twoNodes = some T ∧ (RoutingTopology.new T).isSome = true ∧
        ∃ native ising e, OnNativeGraph T native edgeJob ising e := by
  have hc : capable nativeMiner edgeJob ((some twoNodes).bind RoutingTopology.new) = true := by
    decide +kernel
  obtain ⟨T, hT, hsome, hgraph⟩ := (capability_checks_sound nativeMiner edgeJob
    (some twoNodes)).native _ _ _ hc rfl rfl rfl rfl
  exact ⟨hc, T, hT, hsome, _, _, _, hgraph⟩

end QuipCoordinator
