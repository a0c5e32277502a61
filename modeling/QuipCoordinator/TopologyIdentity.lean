import Mathlib.Data.Sym.Sym2
import QuipCoordinator.FoundationSorted
import QuipCoordinator.Topology

/-!
# What a topology hash identifies

Two lists describe a graph: a multiset of nodes and a multiset of unordered
pairs. Both pre-images are functions of that graph, and both determine it: the
native layout because its counts and ids have a fixed width, the chain layout
because SCALE does not write two canonical forms alike.
-/

namespace QuipCoordinator
open Crates

/-! ## The graph and its canonical form -/

def graphOf (nodes : List Nat) (edges : List (Nat × Nat)) : Multiset Nat × Multiset (Sym2 Nat) :=
  (nodes, (edges.map fun e => s(e.1, e.2) : List (Sym2 Nat)))

def sortedNodes (nodes : List Nat) : List Nat := nodes.insertionSort (· ≤ ·)

def sortedEdges (edges : List (Nat × Nat)) : List (Nat × Nat) :=
  (edges.map normalizeEdge).insertionSort edgeLe

instance : Std.Total edgeLe := ⟨fun a b => by simp only [edgeLe]; omega⟩
instance : IsTrans (Nat × Nat) edgeLe := ⟨fun a b c => by simp only [edgeLe]; omega⟩
instance : Std.Antisymm edgeLe :=
  ⟨fun a b => by simp only [edgeLe, Prod.ext_iff]; omega⟩

/-- `topology_hash` orders the endpoints by comparing them. -/
theorem normalizeEdge_eq_ite (e : Nat × Nat) :
    normalizeEdge e = if e.1 ≤ e.2 then e else (e.2, e.1) := by
  rw [normalizeEdge]
  split_ifs with h
  · rw [min_eq_left h, max_eq_right h]
  · rw [min_eq_right (not_le.mp h).le, max_eq_left (not_le.mp h).le]

@[simp] theorem normalizeEdge_swap (e : Nat × Nat) : normalizeEdge e.swap = normalizeEdge e :=
  Prod.ext (min_comm e.2 e.1) (max_comm e.2 e.1)

def orient : Sym2 Nat → Nat × Nat :=
  Sym2.lift ⟨fun u v => normalizeEdge (u, v), fun u v => normalizeEdge_swap (v, u)⟩

theorem orient_mk (e : Nat × Nat) : orient s(e.1, e.2) = normalizeEdge e := rfl

theorem orient_injective : Function.Injective orient := by
  intro a b h
  induction a with
  | _ u v =>
    induction b with
    | _ u' v' =>
      have hfst : min u v = min u' v' := congrArg Prod.fst h
      have hsnd : max u v = max u' v' := congrArg Prod.snd h
      rw [Sym2.eq_iff]
      omega

theorem sortedNodes_eq_iff {nodes nodes' : List Nat} :
    sortedNodes nodes = sortedNodes nodes' ↔ nodes.Perm nodes' :=
  List.insertionSort_eq_iff_perm

theorem sortedEdges_eq_iff {edges edges' : List (Nat × Nat)} :
    sortedEdges edges = sortedEdges edges' ↔
      (edges.map fun e => s(e.1, e.2)).Perm (edges'.map fun e => s(e.1, e.2)) := by
  have horient : ∀ edges : List (Nat × Nat),
      edges.map normalizeEdge = (edges.map fun e => s(e.1, e.2)).map orient := by
    intro edges
    rw [List.map_map]
    exact List.map_congr_left fun e _ => (orient_mk e).symm
  rw [sortedEdges, sortedEdges, List.insertionSort_eq_iff_perm, horient, horient,
    List.map_perm_map_iff orient_injective]

/-- The canonical form is a name of the graph. -/
theorem canonical_eq_iff {nodes nodes' : List Nat} {edges edges' : List (Nat × Nat)} :
    (sortedNodes nodes = sortedNodes nodes' ∧ sortedEdges edges = sortedEdges edges') ↔
      graphOf nodes edges = graphOf nodes' edges' := by
  rw [sortedNodes_eq_iff, sortedEdges_eq_iff, graphOf, graphOf, Prod.mk.injEq,
    Multiset.coe_eq_coe, Multiset.coe_eq_coe]

def SwapsEndpoints (edges edges' : List (Nat × Nat)) : Prop :=
  List.Forall₂ (fun e e' => e' = e ∨ e' = e.swap) edges edges'

theorem map_mk_of_swaps {edges edges' : List (Nat × Nat)} (h : SwapsEndpoints edges edges') :
    edges'.map (fun e => s(e.1, e.2)) = edges.map fun e => s(e.1, e.2) := by
  induction h with
  | nil => rfl
  | cons he _ ih =>
    rw [List.map_cons, List.map_cons, ih]
    rcases he with rfl | rfl
    · rfl
    · rw [Prod.fst_swap, Prod.snd_swap, Sym2.eq_swap]

theorem graphOf_of_relisted {nodes nodes' : List Nat} {edges edges' shuffled : List (Nat × Nat)}
    (hnodes : nodes.Perm nodes') (hedges : edges.Perm shuffled)
    (hswap : SwapsEndpoints shuffled edges') :
    graphOf nodes' edges' = graphOf nodes edges := by
  rw [graphOf, graphOf, map_mk_of_swaps hswap, Multiset.coe_eq_coe.mpr hnodes.symm,
    Multiset.coe_eq_coe.mpr (hedges.symm.map _)]

/-! ## The two layouts -/

/-- Ids are `u32` and a list has at most `usize` entries. -/
structure TypedGraph (nodes : List Nat) (edges : List (Nat × Nat)) : Prop where
  nodes_lt : ∀ n ∈ nodes, n < 2 ^ 32
  edges_lt : ∀ e ∈ edges, e.1 < 2 ^ 32 ∧ e.2 < 2 ^ 32
  nodes_length : nodes.length < 2 ^ 64
  edges_length : edges.length < 2 ^ 64

theorem TypedGraph.canonical {nodes : List Nat} {edges : List (Nat × Nat)}
    (h : TypedGraph nodes edges) : TypedGraph (sortedNodes nodes) (sortedEdges edges) := by
  constructor
  · intro n hn
    exact h.nodes_lt n ((List.mem_insertionSort _).mp hn)
  · intro e he
    obtain ⟨e', he', rfl⟩ := List.mem_map.mp ((List.mem_insertionSort _).mp he)
    have hlt := h.edges_lt e' he'
    exact ⟨min_lt_of_left_lt hlt.1, max_lt hlt.1 hlt.2⟩
  · simpa [sortedNodes] using h.nodes_length
  · simpa [sortedEdges] using h.edges_length

/-- Each list after its count, everything in `count`-wide or four-byte numbers. -/
def graphCodec (count : Codec Nat) : Codec (List Nat × List (Nat × Nat)) :=
  (Codec.counted count (.littleEndian 4)).pair
    (Codec.counted count ((Codec.littleEndian 4).pair (.littleEndian 4)))

theorem TypedGraph.dom {nodes : List Nat} {edges : List (Nat × Nat)} (h : TypedGraph nodes edges)
    {count : Codec Nat} (hnodes : count.dom nodes.length) (hedges : count.dom edges.length) :
    (graphCodec count).dom (nodes, edges) := by
  have hid : ∀ n : Nat, n < 2 ^ 32 → n < 256 ^ 4 := fun n hn => hn
  refine ⟨⟨hnodes, fun n hn => hid n (h.nodes_lt n hn)⟩, hedges, fun e he => ?_⟩
  exact ⟨hid _ (h.edges_lt e he).1, hid _ (h.edges_lt e he).2⟩

theorem nativePreimage_eq (nodes : List Nat) (edges : List (Nat × Nat)) :
    nativePreimage nodes edges =
      (graphCodec (.littleEndian 4)).encode (sortedNodes nodes, sortedEdges edges) := by
  have hword : toLeBytes 4 = Codec.toLe 4 := funext (toLeBytes_eq_toLe 4)
  simp [nativePreimage, hword, graphCodec, Codec.pair, Codec.counted, Codec.littleEndian,
    sortedNodes, sortedEdges]

section Identified
variable [Crates]

theorem nativeTopologyHash_isSome {nodes : List Nat} {edges : List (Nat × Nat)} :
    (nativeTopologyHash nodes edges).isSome ↔ nodes.length < 2 ^ 32 ∧ edges.length < 2 ^ 32 := by
  rw [nativeTopologyHash]
  split_ifs with h
  · exact iff_of_true rfl h
  · exact iff_of_false Bool.false_ne_true h

theorem nativeTopologyHash_congr {nodes nodes' : List Nat} {edges edges' : List (Nat × Nat)}
    (hnodes : sortedNodes nodes' = sortedNodes nodes)
    (hedges : sortedEdges edges' = sortedEdges edges) :
    nativeTopologyHash nodes' edges' = nativeTopologyHash nodes edges := by
  have hn : nodes'.length = nodes.length := by
    simpa [sortedNodes] using congrArg List.length hnodes
  have he : edges'.length = edges.length := by
    simpa [sortedEdges] using congrArg List.length hedges
  rw [nativeTopologyHash, nativeTopologyHash, nativePreimage_eq, nativePreimage_eq, hnodes, hedges,
    hn, he]

theorem nativePreimage_inj {nodes nodes' : List Nat} {edges edges' : List (Nat × Nat)}
    (h : TypedGraph nodes edges) (h' : TypedGraph nodes' edges')
    (hsome : (nativeTopologyHash nodes edges).isSome)
    (hsome' : (nativeTopologyHash nodes' edges').isSome)
    (heq : nativePreimage nodes edges = nativePreimage nodes' edges') :
    sortedNodes nodes = sortedNodes nodes' ∧ sortedEdges edges = sortedEdges edges' := by
  have hdom : ∀ {nodes : List Nat} {edges : List (Nat × Nat)}, TypedGraph nodes edges →
      (nativeTopologyHash nodes edges).isSome →
      (graphCodec (.littleEndian 4)).dom (sortedNodes nodes, sortedEdges edges) := by
    intro nodes edges h hsome
    obtain ⟨hn, he⟩ := nativeTopologyHash_isSome.mp hsome
    apply h.canonical.dom
    · change (sortedNodes nodes).length < 256 ^ 4
      simpa [sortedNodes] using hn
    · change (sortedEdges edges).length < 256 ^ 4
      simpa [sortedEdges] using he
  rw [nativePreimage_eq, nativePreimage_eq] at heq
  exact Prod.mk.inj (Codec.encode_inj (hdom h hsome) (hdom h' hsome') heq)

theorem topologyPreimage_eq (nodes : List Nat) (edges : List (Nat × Nat))
    (allowedH allowedJ allowedSpin : AllowedValueSpec) :
    topologyPreimage nodes edges allowedH allowedJ allowedSpin =
      encodeTopology (sortedNodes nodes) (sortedEdges edges) (canonicalBytes allowedH)
        (canonicalBytes allowedJ) (canonicalBytes allowedSpin) := by
  have hnormal : (fun e : Nat × Nat => if e.1 ≤ e.2 then e else (e.2, e.1)) = normalizeEdge :=
    funext fun e => (normalizeEdge_eq_ite e).symm
  rw [topologyPreimage, hnormal, sortedNodes, sortedEdges]

/-- SCALE does not write two graphs alike in front of the same specs. -/
def EncodesInjectively : Prop :=
  ∀ h j spin : Bytes, Set.InjOn
    (fun g : List Nat × List (Nat × Nat) => encodeTopology g.1 g.2 h j spin)
    {g | TypedGraph g.1 g.2}

theorem topologyPreimage_inj (hscale : EncodesInjectively) {nodes nodes' : List Nat}
    {edges edges' : List (Nat × Nat)} (h : TypedGraph nodes edges)
    (h' : TypedGraph nodes' edges') {allowedH allowedJ allowedSpin : AllowedValueSpec}
    (heq : topologyPreimage nodes edges allowedH allowedJ allowedSpin =
      topologyPreimage nodes' edges' allowedH allowedJ allowedSpin) :
    sortedNodes nodes = sortedNodes nodes' ∧ sortedEdges edges = sortedEdges edges' := by
  rw [topologyPreimage_eq, topologyPreimage_eq] at heq
  exact Prod.mk.inj (hscale _ _ _ h.canonical h'.canonical heq)

/-! ## Identity -/

/-- Both hashes are functions of the graph, and both pre-images determine it. -/
theorem topology_identity_canonical (hscale : EncodesInjectively) :
    (∀ (nodes nodes' : List Nat) (edges shuffled edges' : List (Nat × Nat)),
      nodes.Perm nodes' → edges.Perm shuffled → SwapsEndpoints shuffled edges' →
        nativeTopologyHash nodes' edges' = nativeTopologyHash nodes edges ∧
        ∀ allowedH allowedJ allowedSpin,
          topologyHash nodes' edges' allowedH allowedJ allowedSpin =
            topologyHash nodes edges allowedH allowedJ allowedSpin) ∧
    ∀ (nodes nodes' : List Nat) (edges edges' : List (Nat × Nat)),
      TypedGraph nodes edges → TypedGraph nodes' edges' →
        ((nativeTopologyHash nodes edges).isSome → (nativeTopologyHash nodes' edges').isSome →
          nativePreimage nodes edges = nativePreimage nodes' edges' →
          sortedNodes nodes = sortedNodes nodes' ∧ sortedEdges edges = sortedEdges edges') ∧
        ∀ allowedH allowedJ allowedSpin,
          topologyPreimage nodes edges allowedH allowedJ allowedSpin =
            topologyPreimage nodes' edges' allowedH allowedJ allowedSpin →
          sortedNodes nodes = sortedNodes nodes' ∧ sortedEdges edges = sortedEdges edges' := by
  constructor
  · intro nodes nodes' edges shuffled edges' hnodes hedges hswap
    obtain ⟨hn, he⟩ := canonical_eq_iff.mpr (graphOf_of_relisted hnodes hedges hswap)
    refine ⟨nativeTopologyHash_congr hn he, ?_⟩
    intro allowedH allowedJ allowedSpin
    rw [topologyHash, topologyHash, topologyPreimage_eq, topologyPreimage_eq, hn, he]
  · intro nodes nodes' edges edges' h h'
    constructor
    · intro hsome hsome' heq
      exact nativePreimage_inj h h' hsome hsome' heq
    · intro allowedH allowedJ allowedSpin heq
      exact topologyPreimage_inj hscale h h' heq

end Identified

namespace Sample

def scaleCount : Codec Nat := .compact 8 (by decide)

def scaleBytes (bytes : Bytes) : Bytes := scaleCount.encode bytes.length ++ bytes

/-- The sample crates with the SCALE layout of the tuple. -/
@[reducible] def scale : Crates :=
  { crates with
    encodeTopology := fun nodes edges h j spin =>
      (graphCodec scaleCount).encode (nodes, edges) ++
        (scaleBytes h ++ (scaleBytes j ++ scaleBytes spin)) }

theorem scale_encodesInjectively : @EncodesInjectively scale := by
  intro h j spin g hg g' hg' heq
  have hpow : ∀ n : Nat, n < 2 ^ 64 → n < 256 ^ 8 := fun n hn => hn
  refine (Codec.encode_append_inj (hg.dom ?_ ?_) (hg'.dom ?_ ?_) heq).1
  · exact hpow _ hg.nodes_length
  · exact hpow _ hg.edges_length
  · exact hpow _ hg'.nodes_length
  · exact hpow _ hg'.edges_length

end Sample

theorem topology_identity_canonical_pair :
    @nativeTopologyHash Sample.scale [1, 2] [(1, 2)] =
      @nativeTopologyHash Sample.scale [2, 1] [(2, 1)] ∧
    @topologyHash Sample.scale [1, 2] [(1, 2)] (.set [1]) (.set [-1]) (.set [1]) =
      @topologyHash Sample.scale [2, 1] [(2, 1)] (.set [1]) (.set [-1]) (.set [1]) ∧
    nativePreimage [1, 2] [(1, 2)] ≠ nativePreimage [1, 3] [(1, 3)] ∧
    @topologyPreimage Sample.scale [1, 2] [(1, 2)] (.set [1]) (.set [-1]) (.set [1]) ≠
      @topologyPreimage Sample.scale [1, 3] [(1, 3)] (.set [1]) (.set [-1]) (.set [1]) := by
  obtain ⟨hsame, hinj⟩ :=
    @topology_identity_canonical Sample.scale Sample.scale_encodesInjectively
  have hlisted := hsame [2, 1] [1, 2] [(2, 1)] [(2, 1)] [(1, 2)] (List.Perm.swap 1 2 []) (.refl _)
    (.cons (Or.inr rfl) .nil)
  have hgraph := hinj [1, 2] [1, 3] [(1, 2)] [(1, 3)]
    ⟨by decide, by decide, by decide, by decide⟩ ⟨by decide, by decide, by decide, by decide⟩
  refine ⟨hlisted.1, hlisted.2 _ _ _, ?_, ?_⟩
  · intro heq
    exact absurd (hgraph.1 rfl rfl heq).1 (by decide)
  · intro heq
    exact absurd (hgraph.2 _ _ _ heq).1 (by decide)

end QuipCoordinator
