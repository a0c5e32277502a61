import QuipCoordinator.Wire

/-!
# Functions of the crates the coordinator links

Hashing, the SCALE codec, problem drawing, the packed coefficient and spin
codecs, lease verification, the diversity selection and the floating-point
parts of the decay rules live outside the repository. They are parameters of
the model: a result holds for every choice of them unless it says otherwise.
`Sample` is one choice that computes, for closed runs: the coefficient codec is
the little-endian one, a salt is its own nonce, and a digest keeps the head of
its input.
-/

namespace QuipCoordinator

inductive AllowedValueSpec
  | set (values : List Int)
  | integerRange (min max : Int)
  | continuousRange (min max : Int)
deriving DecidableEq

structure Verified where
  nonce : Bytes32
  salt : Bytes32
deriving DecidableEq

inductive EaseRate
  | baseline
  | combined
deriving DecidableEq

class Crates where
  blake2256 : Bytes → Bytes32
  -- `AllowedValueSpec::canonical_bytes` and the SCALE tuple of `topology_hash`
  canonicalBytes : AllowedValueSpec → Bytes
  encodeTopology : List Nat → List (Nat × Nat) → Bytes → Bytes → Bytes → Bytes
  -- last proof block hash, miner identity, salt
  deriveNonce : Bytes32 → Bytes32 → Bytes32 → Bytes32
  -- nonce, node count, edge count, allowed fields, allowed couplings
  drawIsingMilli : Bytes32 → Nat → Nat → List Int → List Int → Option (List Int × List Int)
  encodeI32Le : List Int → Bytes
  decodeI32Le : Bytes → Option (List Int)
  decodeSpinsPacked : Bytes → Nat → Option (List Int)
  -- whether `TopologyView::from_proto` accepts the message
  topologyViewOk : WireTopology → Bool
  -- `verify_lease_result` against the target that every energy clears
  verifyLeaseResult : IsingProblemGenerator → WireTopology → ResultFrame → Option Verified
  selectDiverse : List (List Int) → Nat → Option (List Nat)
  calculateDiversity : List (List Int) → Option Nat
  -- `(room as f64 * rate).round() as i64`, the rate in milli
  roundedProduct : Int → Int → Int
  -- the rounded closed form of `ease_room` before its clamp to the room
  easedRounded : Int → Nat → Nat → EaseRate → Int
  -- `EnergyCurve::from_topology`, hardest bound first
  curveBounds : Nat → Nat → Nat → Nat → Nat → List Int → List Int → Int × Int × Int
  protocolVersion : Nat

namespace Sample

def decodeWords : Bytes → Option (List Int)
  | [] => some []
  | a :: b :: c :: d :: rest => do
    let words ← decodeWords rest
    let word : Int := a.toNat + 256 * b.toNat + 256 ^ 2 * c.toNat + 256 ^ 3 * d.toNat
    pure ((if word < 2 ^ 31 then word else word - 2 ^ 32) :: words)
  | _ => none

def unpackSpins (bytes : Bytes) (n : Nat) : Option (List Int) :=
  if bytes.length = (n + 7) / 8 then
    some ((List.range n).map fun i =>
      if (bytes.getD (i / 8) 0).toNat / 2 ^ (i % 8) % 2 = 1 then 1 else -1)
  else none

scoped instance crates : Crates where
  blake2256 b := Vector.ofFn fun i => b.getD i.val 0
  canonicalBytes _ := []
  encodeTopology nodes edges h j spin :=
    nodes.map UInt8.ofNat ++ edges.flatMap (fun e => [UInt8.ofNat e.1, UInt8.ofNat e.2]) ++
      h ++ j ++ spin
  deriveNonce _ _ salt := salt
  drawIsingMilli _ n m hs js := do
    let h ← hs.head?
    let j ← js.head?
    pure (List.replicate n h, List.replicate m j)
  encodeI32Le vs := vs.flatMap fun v => toLeBytes 4 (v % 2 ^ 32).toNat
  decodeI32Le := decodeWords
  decodeSpinsPacked := unpackSpins
  topologyViewOk _ := true
  verifyLeaseResult _ _ _ := none
  selectDiverse _ k := some (List.range k)
  calculateDiversity _ := some 0
  roundedProduct room rate := room * rate / 1000
  easedRounded room _ _ _ := room
  curveBounds _ _ _ _ _ _ _ := (-3000, -2000, -1000)
  protocolVersion := 1

end Sample
end QuipCoordinator
