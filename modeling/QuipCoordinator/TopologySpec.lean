import QuipCoordinator.CapabilityChecks
import QuipCoordinator.Confirmations
import QuipCoordinator.FoundationFallible

/-!
# The topology of a drive

A drive takes its graph from a JSON document or from chain metadata. Both readers
end in `validateSpec`, which wants non-empty lists and known endpoints. It takes a
node listed twice and an edge from a node to itself, and `RoutingTopology.new` takes
neither. The reader of the JSON text is a parameter; the fields it may leave out get
their defaults here.
-/

namespace QuipCoordinator

structure GatesJson where
  minSolutions : Nat
  maxEnergyMilli : Int
  minDiversityMilli : Nat
deriving DecidableEq

def defaultMaxEnergyMilli : Int := 2 ^ 63 - 1
def defaultSpinSet : List Int := [-1000, 1000]

def GatesJson.default : GatesJson := ⟨0, defaultMaxEnergyMilli, 0⟩

structure TopologySpecJson where
  nodes : List Nat
  edges : List (Nat × Nat)
  allowedHMilli : List Int
  allowedJMilli : List Int
  allowedSpinMilli : List Int
  gates : Option GatesJson
deriving DecidableEq

structure GatesDocument where
  minSolutions : Option Nat
  maxEnergyMilli : Option Int
  minDiversityMilli : Option Nat

structure SpecDocument where
  nodes : List Nat
  edges : Option (List (Nat × Nat))
  allowedHMilli : List Int
  allowedJMilli : List Int
  allowedSpinMilli : Option (List Int)
  gates : Option GatesDocument

def GatesJson.ofDocument (doc : GatesDocument) : GatesJson where
  minSolutions := doc.minSolutions.getD 0
  maxEnergyMilli := doc.maxEnergyMilli.getD defaultMaxEnergyMilli
  minDiversityMilli := doc.minDiversityMilli.getD 0

def TopologySpecJson.ofDocument (doc : SpecDocument) : TopologySpecJson where
  nodes := doc.nodes
  edges := doc.edges.getD []
  allowedHMilli := doc.allowedHMilli
  allowedJMilli := doc.allowedJMilli
  allowedSpinMilli := doc.allowedSpinMilli.getD []
  gates := doc.gates.map GatesJson.ofDocument

class SpecReader where
  -- `serde_json::from_str`: the fields it finds, or the text of its error
  fromStr : String → Except String SpecDocument

inductive TopologySpecError
  | json (error : String)
  | emptyNodes
  | emptyAllowedH
  | emptyAllowedJ
  | edgeUnknownNode (edgeIndex endpoint : Nat)
deriving DecidableEq

def TopologySpecError.display : TopologySpecError → String
  | .json e => "invalid topology spec JSON: " ++ e
  | .emptyNodes => "topology spec: nodes must be non-empty"
  | .emptyAllowedH => "topology spec: allowed_h_milli must be non-empty"
  | .emptyAllowedJ => "topology spec: allowed_j_milli must be non-empty"
  | .edgeUnknownNode edgeIndex endpoint =>
    "topology spec: edge " ++ toString edgeIndex ++ " references node id " ++ toString endpoint ++
      ", which is not in the topology"

structure TopologySpec where
  topology : Topology
  allowedHMilli : List Int
  allowedJMilli : List Int
  allowedSpinMilli : List Int
  minSolutions : Nat
  maxEnergyMilli : Int
  minDiversityMilli : Nat
deriving DecidableEq

def validateEdges (nodes : List Nat) (edges : List (Nat × Nat)) : Except TopologySpecError Unit :=
  edges.zipIdx.forM fun p =>
    [p.1.1, p.1.2].forM fun endpoint =>
      if endpoint ∈ nodes then pure () else throw (.edgeUnknownNode p.2 endpoint)

structure TopologyMetaScale where
  nodes : List Nat
  edges : List (Nat × Nat)
  allowedHValues : AllowedValueSpec
  allowedJValues : AllowedValueSpec
  allowedSpinValues : AllowedValueSpec
  registeredAt : Nat
deriving DecidableEq

def requireSetValues : AllowedValueSpec → Except String (List Int)
  | .set [] => .error "allowed-value Set is empty; a PoW model cannot be drawn"
  | .set v => .ok v
  | .integerRange _ _ | .continuousRange _ _ =>
    .error ("coordinator requires AllowedValueSpec::Set; range specs (IntegerRange/" ++
      "ContinuousRange) sample differently on-chain and are not supported")

section Specs
variable [Crates]

def validateSpec (raw : TopologySpecJson) : Except TopologySpecError TopologySpec :=
  if raw.nodes.isEmpty then .error .emptyNodes
  else if raw.allowedHMilli.isEmpty then .error .emptyAllowedH
  else if raw.allowedJMilli.isEmpty then .error .emptyAllowedJ
  else do
    validateEdges raw.nodes raw.edges
    let allowedSpinMilli :=
      if raw.allowedSpinMilli.isEmpty then defaultSpinSet else raw.allowedSpinMilli
    let topology := Topology.fromNodesEdges raw.nodes raw.edges raw.allowedHMilli
      raw.allowedJMilli allowedSpinMilli
    let gates := raw.gates.getD .default
    pure
      { topology := topology
        allowedHMilli := raw.allowedHMilli
        allowedJMilli := raw.allowedJMilli
        allowedSpinMilli := allowedSpinMilli
        minSolutions := gates.minSolutions
        maxEnergyMilli := gates.maxEnergyMilli
        minDiversityMilli := gates.minDiversityMilli }

def parseTopologySpec [SpecReader] (text : String) : Except TopologySpecError TopologySpec := do
  let doc ← (SpecReader.fromStr text).mapError .json
  validateSpec (.ofDocument doc)

def TopologySpec.fromChainMeta (hash : Bytes32) (chainMeta : TopologyMetaScale) :
    Except String TopologySpec := do
  let h ← (requireSetValues chainMeta.allowedHValues).mapError
    ("chain topology allowed_h_milli: " ++ ·)
  let j ← (requireSetValues chainMeta.allowedJValues).mapError
    ("chain topology allowed_j_milli: " ++ ·)
  let spin ← (requireSetValues chainMeta.allowedSpinValues).mapError
    ("chain topology allowed_spin_milli: " ++ ·)
  let spec ← (validateSpec ⟨chainMeta.nodes, chainMeta.edges, h, j, spin, none⟩).mapError
    (·.display)
  if spec.topology.hash ≠ hash.toList then
    throw ("topology hash mismatch: chain reported " ++ hexEncode hash.toList ++ ", computed " ++
      hexEncode spec.topology.hash)
  pure spec

omit [Crates] in
def TopologySpec.toSnapshot (spec : TopologySpec) : MiningSnapshot where
  lastProofBlockHash := Vector.replicate 32 0
  topologyHash := spec.topology.hash
  nodes := spec.topology.nodes
  edges := spec.topology.edgePairs
  allowedHMilli := spec.allowedHMilli
  allowedJMilli := spec.allowedJMilli
  allowedSpinMilli := spec.allowedSpinMilli
  minSolutions := spec.minSolutions
  maxEnergyMilli := spec.maxEnergyMilli
  minDiversityMilli := spec.minDiversityMilli
  blockNumber := 0
  specVersion := 0

/-! ## What the two validators take -/

omit [Crates] in
theorem validateEdges_eq_ok {nodes : List Nat} {edges : List (Nat × Nat)} :
    validateEdges nodes edges = .ok () ↔ ∀ e ∈ edges, e.1 ∈ nodes ∧ e.2 ∈ nodes := by
  have hgen : ∀ n : Nat, ((edges.zipIdx n).forM fun p =>
      [p.1.1, p.1.2].forM fun endpoint =>
        if endpoint ∈ nodes then (pure () : Except TopologySpecError Unit)
        else throw (.edgeUnknownNode p.2 endpoint)) = .ok () ↔
        ∀ e ∈ edges, e.1 ∈ nodes ∧ e.2 ∈ nodes := by
    induction edges with
    | nil => simp [pure, Except.pure]
    | cons e edges ih =>
      intro n
      rw [List.zipIdx_cons, List.forM_eq_forM, List.forM_cons, Except.bind_eq_ok,
        List.forall_mem_cons, ← ih (n + 1)]
      by_cases hu : e.1 ∈ nodes <;> by_cases hv : e.2 ∈ nodes <;>
        simp [hu, hv, pure, Except.pure, throw, throwThe, MonadExceptOf.throw, bind, Except.bind]
  exact hgen 0

/-- No node is listed twice, no edge is a loop and the counts fit in 32 bits. -/
structure SimpleGraph (nodes : List Nat) (edges : List (Nat × Nat)) : Prop where
  nodup : nodes.Nodup
  noLoops : ∀ e ∈ edges, e.1 ≠ e.2
  nodes_lt : nodes.length < 2 ^ 32
  edges_lt : edges.length < 2 ^ 32

structure TopologySpec.Sound (spec : TopologySpec) (nodes : List Nat) (edges : List (Nat × Nat)) :
    Prop where
  sameNodes : spec.topology.nodes = nodes
  sameEdges : spec.topology.edges = edges.unzip
  hash : spec.topology.hash = (topologyHashSets nodes edges spec.allowedHMilli spec.allowedJMilli
    spec.allowedSpinMilli).toList
  ends : ∀ e ∈ edges, e.1 ∈ nodes ∧ e.2 ∈ nodes
  nonempty : nodes ≠ [] ∧ spec.allowedHMilli ≠ [] ∧ spec.allowedJMilli ≠ [] ∧
    spec.allowedSpinMilli ≠ []

theorem sound_of_validateSpec {raw : TopologySpecJson} {spec : TopologySpec}
    (h : validateSpec raw = .ok spec) : spec.Sound raw.nodes raw.edges := by
  unfold validateSpec at h
  split_ifs at h with h1 h2 h3 hspin
  all_goals
    obtain ⟨_, hends, h⟩ := Except.bind_eq_ok.mp h
    cases h
    refine ⟨rfl, rfl, rfl, validateEdges_eq_ok.mp hends, by simpa using h1, by simpa using h2,
      by simpa using h3, ?_⟩
  · exact List.cons_ne_nil _ _
  · simpa using hspin

theorem sound_of_parse [SpecReader] {text : String} {doc : SpecDocument} {spec : TopologySpec}
    (hdoc : SpecReader.fromStr text = .ok doc) (h : parseTopologySpec text = .ok spec) :
    spec.Sound doc.nodes (doc.edges.getD []) := by
  rw [parseTopologySpec, hdoc] at h
  exact sound_of_validateSpec h

theorem sound_of_fromChainMeta {hash : Bytes32} {chainMeta : TopologyMetaScale}
    {spec : TopologySpec} (h : TopologySpec.fromChainMeta hash chainMeta = .ok spec) :
    spec.Sound chainMeta.nodes chainMeta.edges ∧ spec.topology.hash = hash.toList := by
  unfold TopologySpec.fromChainMeta at h
  obtain ⟨_, -, h⟩ := Except.bind_eq_ok.mp h
  obtain ⟨_, -, h⟩ := Except.bind_eq_ok.mp h
  obtain ⟨_, -, h⟩ := Except.bind_eq_ok.mp h
  obtain ⟨spec', hspec, h⟩ := Except.bind_eq_ok.mp h
  have hsound := sound_of_validateSpec (Except.mapError_eq_ok.mp hspec)
  split_ifs at h with hhash
  · exact nomatch h
  · cases h
    exact ⟨hsound, not_not.mp hhash⟩

theorem RoutingTopology.isSome_new {T : Topology} (hlen : T.edges.1.length = T.edges.2.length)
    (hends : ∀ e ∈ T.edgePairs, e.1 ∈ T.nodes ∧ e.2 ∈ T.nodes) :
    (new T).isSome = true ↔ SimpleGraph T.nodes T.edgePairs := by
  constructor
  · intro h
    obtain ⟨t, ht⟩ := Option.isSome_iff_exists.mp h
    obtain ⟨-, hnodup, hedges, hnodes, hpairs, -⟩ := new_eq_some ht
    exact ⟨hnodup, fun e he => (hedges e he).1, hnodes, hpairs⟩
  · intro h
    have hcard : T.nodes.toFinset.card = T.nodes.length :=
      Multiset.toFinset_card_eq_card_iff_nodup.mpr h.nodup
    have hgraph : ¬(T.nodes.toFinset.card ≠ T.nodes.length ∨ ∃ e ∈ T.edgePairs,
        e.1 = e.2 ∨ e.1 ∉ T.nodes.toFinset ∨ e.2 ∉ T.nodes.toFinset) := by
      rintro (hne | ⟨e, he, hloop | hu | hv⟩)
      · exact hne hcard
      · exact h.noLoops e he hloop
      · exact hu (List.mem_toFinset.mpr (hends e he).1)
      · exact hv (List.mem_toFinset.mpr (hends e he).2)
    have hsize : ¬(2 ^ 32 ≤ T.nodes.length ∨ 2 ^ 32 ≤ T.edgePairs.length) := by
      have hn := h.nodes_lt
      have he := h.edges_lt
      omega
    unfold new
    dsimp only
    rw [if_neg (not_not.mpr hlen), if_neg hgraph, if_neg hsize, nativeTopologyHash,
      if_pos ⟨h.nodes_lt, h.edges_lt⟩]
    rfl

theorem TopologySpec.Sound.edgePairs {spec : TopologySpec} {nodes : List Nat}
    {edges : List (Nat × Nat)} (h : spec.Sound nodes edges) : spec.topology.edgePairs = edges := by
  rw [Topology.edgePairs, h.sameEdges]
  exact List.zip_unzip edges

/-- The two validators differ on loops, repeated nodes and sizes only. -/
theorem TopologySpec.Sound.isSome_new {spec : TopologySpec} {nodes : List Nat}
    {edges : List (Nat × Nat)} (h : spec.Sound nodes edges) :
    (RoutingTopology.new spec.topology).isSome = true ↔ SimpleGraph nodes edges := by
  have hpairs := h.edgePairs
  rw [RoutingTopology.isSome_new, h.sameNodes, hpairs]
  · rw [h.sameEdges, List.unzip_eq_map]
    simp
  · rw [h.sameNodes, hpairs]
    exact h.ends

/-! ## The limits of a miner -/

omit [Crates] in
/-- The sites a job has over the graph of `T`: a lease brings no arrays. -/
def Job.sites (job : Job) (T : Topology) : Nat :=
  if job.isLease then T.nodes.length
  else job.ising.elim 0 fun ising => min (ising.h.length / 4) (2 ^ 32 - 1)

omit [Crates] in
def Job.couplings (job : Job) (T : Topology) : Nat :=
  if job.isLease then T.edgePairs.length
  else job.ising.elim 0 fun ising => min (ising.j.length / 4) (2 ^ 32 - 1)

omit [Crates] in
/-- Jobs over `T` by its hash are held to the limits that a miner declares. -/
structure LimitsChecked (T : Topology) (topology : Option RoutingTopology) : Prop where
  nodes : ∀ job : Job, job.Over T → jobNodeCount job topology = job.sites T
  edges : ∀ job : Job, job.Over T → jobEdgeCount job topology = job.couplings T
  maxDegree : ∀ job : Job, job.Over T → ∃ d, jobMaxDegree job topology = some d ∧
    IsGreatest (Set.range (degree T.edgePairs)) d
  limits : ∀ (q : MinerQueue) (job : Job), job.Over T → capable q job topology = true →
    (q.caps.maxNodes = 0 ∨ job.sites T ≤ q.caps.maxNodes) ∧
    (q.caps.maxEdges = 0 ∨ job.couplings T ≤ q.caps.maxEdges) ∧
    ∀ limit ∈ q.caps.maxDegree, limit = 0 ∨ ∀ n, degree T.edgePairs n ≤ limit

theorem limitsChecked_of_new {T : Topology} {t : RoutingTopology}
    (ht : RoutingTopology.new T = some t) : LimitsChecked T (some t) := by
  obtain ⟨-, -, -, -, -, heq⟩ := RoutingTopology.new_eq_some ht
  have hhash : t.hash = T.hash := by rw [heq]
  have hgreatest := RoutingTopology.isGreatest_maxDegree ht
  have hnodes : ∀ job : Job, job.Over T → jobNodeCount job (some t) = job.sites T := by
    intro job hover
    rw [jobNodeCount, jobTopology_of_over hover hhash, Job.sites, heq]
    rfl
  have hedges : ∀ job : Job, job.Over T → jobEdgeCount job (some t) = job.couplings T := by
    intro job hover
    rw [jobEdgeCount, jobTopology_of_over hover hhash, Job.couplings, heq]
    unfold Job.Over at hover
    split_ifs at hover ⊢ with hl
    · rfl
    · obtain ⟨ising, hi, hgraph⟩ := hover
      simp [Option.mem_def.mp hi, hgraph]
  have hdegree : ∀ job : Job, job.Over T → jobMaxDegree job (some t) = some t.maxDegree := by
    intro job hover
    rw [jobMaxDegree, jobTopology_of_over hover hhash]
  refine ⟨hnodes, hedges, fun job hover => ⟨_, hdegree job hover, hgreatest⟩, ?_⟩
  intro q job hover hc
  obtain ⟨-, -, -, hn, he, hd, -⟩ := capable_eq_true.mp hc
  rw [hnodes job hover] at hn
  rw [hedges job hover] at he
  refine ⟨hn, he, fun limit hlimit => (hd limit hlimit).imp id fun hle n => ?_⟩
  exact (hgreatest.2 ⟨n, rfl⟩).trans (hle _ (Option.mem_def.mpr (hdegree job hover)))

theorem TopologySpec.buildIsingJob_over {spec : TopologySpec} {nonce : Bytes32}
    {generation deadlineMs : Nat} {job : Job}
    (h : buildIsingJobFromNonce spec.toSnapshot nonce generation deadlineMs = some job) :
    job.Over spec.topology := by
  obtain ⟨drawn, -, hjob⟩ := Option.bind_eq_some_iff.mp h
  cases hjob
  exact ⟨_, rfl, rfl⟩

def RoutedWithLimits (T : Topology) : Prop :=
  (RoutingTopology.new T).isSome = true ∧
    ∀ r : Router, LimitsChecked T (r.setTopology (some T)).topology

theorem routedWithLimits_iff {T : Topology} :
    RoutedWithLimits T ↔ (RoutingTopology.new T).isSome = true := by
  constructor
  · exact fun h => h.1
  · intro h
    obtain ⟨t, ht⟩ := Option.isSome_iff_exists.mp h
    refine ⟨h, fun r => ?_⟩
    have hview : (r.setTopology (some T)).topology = some t := ht
    rw [hview]
    exact limitsChecked_of_new ht

/-- Accepted specs reach the router exactly when their graph is simple. -/
theorem accepted_spec_routed_iff [SpecReader] :
    (∀ (text : String) (doc : SpecDocument) (spec : TopologySpec),
      SpecReader.fromStr text = .ok doc → parseTopologySpec text = .ok spec →
        (RoutedWithLimits spec.topology ↔ SimpleGraph doc.nodes (doc.edges.getD []))) ∧
    ∀ (hash : Bytes32) (chainMeta : TopologyMetaScale) (spec : TopologySpec),
      TopologySpec.fromChainMeta hash chainMeta = .ok spec →
        (RoutedWithLimits spec.topology ↔ SimpleGraph chainMeta.nodes chainMeta.edges) := by
  constructor
  · intro text doc spec hdoc h
    rw [routedWithLimits_iff]
    exact (sound_of_parse hdoc h).isSome_new
  · intro hash chainMeta spec h
    rw [routedWithLimits_iff]
    exact (sound_of_fromChainMeta h).1.isSome_new

end Specs

namespace Sample

def edgeText : String :=
  "\x7b\"nodes\":[0,1],\"edges\":[[0,1]],\"allowed_h_milli\":[0],\"allowed_j_milli\":[1000]\x7d"

def loopText : String :=
  "\x7b\"nodes\":[0,1],\"edges\":[[0,0]],\"allowed_h_milli\":[0],\"allowed_j_milli\":[1000]\x7d"

def document (e : Nat × Nat) : SpecDocument := ⟨[0, 1], some [e], [0], [1000], none, none⟩

/-- A reader of the two texts. -/
scoped instance specReader : SpecReader where
  fromStr text :=
    if text = edgeText then .ok (document (0, 1))
    else if text = loopText then .ok (document (0, 0))
    else .error "expected value at line 1 column 1"

theorem fromStr_loopText : SpecReader.fromStr loopText = .ok (document (0, 0)) := by
  have hne : loopText ≠ edgeText := by decide
  change (if loopText = edgeText then _ else if loopText = loopText then _ else _) = _
  rw [if_neg hne, if_pos rfl]

def leaseOver (hash : Bytes) : Job where
  jobId := [1]
  kind := .isingGenerate
  generation := 1
  deadlineMs := 0
  ising := none
  generator := some ⟨.blake3Chacha8V1, hash, [], [], [], 1, 1⟩
  provenance := none

def oneSite : MinerQueue :=
  { nativeMiner with
    caps := ⟨"cpu", "sa", [.isingGenerate], 1, 0, none, none, [], [.blake3Chacha8V1], 1⟩ }

end Sample

open Sample in
/-- A loop passes the reader; a lease over its two nodes then goes to a miner limited to one. -/
theorem accepted_spec_with_loop_unrouted :
    ∃ spec, parseTopologySpec loopText = .ok spec ∧ RoutingTopology.new spec.topology = none ∧
      (leaseOver spec.topology.hash).Over spec.topology ∧ spec.topology.nodes.length = 2 ∧
      capable oneSite (leaseOver spec.topology.hash)
        (Router.new.setTopology (some spec.topology)).topology = true := by
  rw [parseTopologySpec, fromStr_loopText]
  refine ⟨_, rfl, by decide, ⟨_, rfl, rfl⟩, rfl, by decide⟩

open Sample in
theorem accepted_spec_routed_iff_edge :
    ∃ spec, parseTopologySpec edgeText = .ok spec ∧ RoutedWithLimits spec.topology := by
  have hdoc : SpecReader.fromStr edgeText = .ok (document (0, 1)) := if_pos rfl
  have hspec : ∃ spec, parseTopologySpec edgeText = .ok spec := by
    rw [parseTopologySpec, hdoc]
    exact ⟨_, rfl⟩
  obtain ⟨spec, hspec⟩ := hspec
  refine ⟨spec, hspec, (accepted_spec_routed_iff.1 edgeText _ spec hdoc hspec).mpr ?_⟩
  exact ⟨by decide, by decide, by decide, by decide⟩

end QuipCoordinator
