import Mathlib.Data.Finset.Max
import Mathlib.Data.List.Sort
import QuipCoordinator.Crates

/-!
# Topologies and their hashes

`Topology` is the session graph with its chain-canonical hash. `RoutingTopology`
is the view the router checks jobs against. It exists only for a graph whose
node ids are distinct and whose edges join distinct nodes of the graph. Edges
sort as pairs do. `nativePreimage` and `topologyPreimage` are the bytes the two
hashes digest.
-/

namespace QuipCoordinator
variable [Crates]
open Crates

structure Topology where
  hash : Bytes
  nodes : List Nat
  edges : List Nat × List Nat
  allowedH : List Int
  allowedJ : List Int
deriving DecidableEq

def edgeLe (a b : Nat × Nat) : Prop := a.1 < b.1 ∨ (a.1 = b.1 ∧ a.2 ≤ b.2)

instance : DecidableRel edgeLe := fun _ _ => inferInstanceAs (Decidable (_ ∨ _))

def normalizeEdge (e : Nat × Nat) : Nat × Nat := (min e.1 e.2, max e.1 e.2)

def nativePreimage (nodes : List Nat) (edges : List (Nat × Nat)) : Bytes :=
  let sortedNodes := nodes.insertionSort (· ≤ ·)
  let sortedEdges := (edges.map normalizeEdge).insertionSort edgeLe
  toLeBytes 4 nodes.length ++ sortedNodes.flatMap (toLeBytes 4) ++
    (toLeBytes 4 edges.length ++ sortedEdges.flatMap fun e => toLeBytes 4 e.1 ++ toLeBytes 4 e.2)

def nativeTopologyHash (nodes : List Nat) (edges : List (Nat × Nat)) : Option Bytes32 :=
  if nodes.length < 2 ^ 32 ∧ edges.length < 2 ^ 32 then
    some (blake2256 (nativePreimage nodes edges))
  else none

def topologyPreimage (nodes : List Nat) (edges : List (Nat × Nat))
    (allowedH allowedJ allowedSpin : AllowedValueSpec) : Bytes :=
  let canonicalNodes := nodes.insertionSort (· ≤ ·)
  let canonicalEdges :=
    (edges.map fun e => if e.1 ≤ e.2 then e else (e.2, e.1)).insertionSort edgeLe
  encodeTopology canonicalNodes canonicalEdges (canonicalBytes allowedH)
    (canonicalBytes allowedJ) (canonicalBytes allowedSpin)

def topologyHash (nodes : List Nat) (edges : List (Nat × Nat))
    (allowedH allowedJ allowedSpin : AllowedValueSpec) : Bytes32 :=
  blake2256 (topologyPreimage nodes edges allowedH allowedJ allowedSpin)

def topologyHashSets (nodes : List Nat) (edges : List (Nat × Nat))
    (allowedH allowedJ allowedSpin : List Int) : Bytes32 :=
  topologyHash nodes edges (.set allowedH) (.set allowedJ) (.set allowedSpin)

namespace Topology

def fromNodesEdges (nodes : List Nat) (edges : List (Nat × Nat))
    (allowedH allowedJ allowedSpin : List Int) : Topology where
  hash := (topologyHashSets nodes edges allowedH allowedJ allowedSpin).toList
  nodes := nodes
  edges := edges.unzip
  allowedH := allowedH
  allowedJ := allowedJ

omit [Crates] in
def edgePairs (t : Topology) : List (Nat × Nat) := t.edges.1.zip t.edges.2

omit [Crates] in
def toProto (t : Topology) : WireTopology where
  hash := t.hash
  nodes := t.nodes
  edges := some ⟨t.edges.1, t.edges.2⟩
  allowedHMilli := t.allowedH
  allowedJMilli := t.allowedJ

@[simp] theorem edgePairs_fromNodesEdges (nodes : List Nat) (edges : List (Nat × Nat))
    (allowedH allowedJ allowedSpin : List Int) :
    (fromNodesEdges nodes edges allowedH allowedJ allowedSpin).edgePairs = edges :=
  List.zip_unzip edges

end Topology

def maximumDegree (edges : List (Nat × Nat)) : Nat :=
  -- each endpoint's `u32` counter saturates; 0 without edges
  let ends := edges.flatMap fun e => [e.1, e.2]
  (ends.map fun n => min (ends.count n) (2 ^ 32 - 1)).foldr max 0

structure RoutingTopology where
  hash : Bytes
  nNodes : Nat
  nEdges : Nat
  maxDegree : Nat
  nativeHash : Bytes32
  nodes : Finset Nat
  edges : Finset (Nat × Nat)
deriving DecidableEq

def RoutingTopology.new (t : Topology) : Option RoutingTopology :=
  if t.edges.1.length ≠ t.edges.2.length then none
  else
    let nodes := t.nodes.toFinset
    let pairs := t.edgePairs
    if nodes.card ≠ t.nodes.length ∨
        ∃ e ∈ pairs, e.1 = e.2 ∨ e.1 ∉ nodes ∨ e.2 ∉ nodes then none
    else if 2 ^ 32 ≤ t.nodes.length ∨ 2 ^ 32 ≤ pairs.length then none
    else do
      let nativeHash ← nativeTopologyHash t.nodes pairs
      pure
        { hash := t.hash
          nNodes := t.nodes.length
          nEdges := pairs.length
          maxDegree := maximumDegree pairs
          nativeHash := nativeHash
          nodes := nodes
          edges := (pairs.map normalizeEdge).toFinset }

end QuipCoordinator
