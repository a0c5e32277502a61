import Mathlib.Algebra.GroupWithZero.Nat
import Mathlib.Algebra.Ring.Int.Defs
import Mathlib.Data.List.Basic
import Mathlib.Data.Vector.Basic
import QuipCoordinator.FoundationCodec

/-!
# Wire messages

The messages of the miner protocol, with the fields the coordinator reads or
writes. Open enumerations keep the code of a value this build does not name.
Fixed-width unsigned fields are natural numbers; `satAdd` is `saturating_add` at
a width in bits and `toLeBytes` is `to_le_bytes` at a width in bytes. The graph
of a problem is a reference to the session topology or inline edges between
positions. A `ResultFrame` carries the device time of its optional metadata,
0 without.
-/

namespace QuipCoordinator

abbrev Bytes := List UInt8
abbrev Bytes32 := Vector UInt8 32
abbrev MinerId := String
abbrev JobId := Bytes

def satAdd (w a b : Nat) : Nat := min (a + b) (2 ^ w - 1)

def toLeBytes (w n : Nat) : Bytes := (List.range w).map fun i => UInt8.ofNat (n / 256 ^ i)

@[simp] theorem length_toLeBytes (w n : Nat) : (toLeBytes w n).length = w := by
  simp [toLeBytes]

theorem toLeBytes_eq_toLe (w n : Nat) : toLeBytes w n = Codec.toLe w n := by
  induction w generalizing n with
  | zero => rfl
  | succ w ih =>
    rw [Codec.toLe, ← ih, toLeBytes, toLeBytes, List.range_succ_eq_map, List.map_cons, List.map_map]
    congr 1
    · simp
    · apply List.map_congr_left
      intro i _
      simp only [Function.comp_apply, Nat.succ_eq_add_one, Nat.pow_succ']
      rw [Nat.div_div_eq_div_mul]

theorem toLeBytes_inj {w a b : Nat} (ha : a < 256 ^ w) (hb : b < 256 ^ w)
    (h : toLeBytes w a = toLeBytes w b) : a = b := by
  rw [toLeBytes_eq_toLe, toLeBytes_eq_toLe] at h
  rw [← Codec.ofLe_toLe ha, h, Codec.ofLe_toLe hb]

inductive JobKind
  | isingSample
  | isingGenerate
  | other (code : Int)
deriving DecidableEq

inductive RejectReason
  | unsupportedKind
  | other (code : Int)
deriving DecidableEq

inductive GeneratorAlgorithm
  | blake3Chacha8V1
  | other (code : Int)
deriving DecidableEq

inductive CoefficientEncoding
  | i32
  | other (code : Int)
deriving DecidableEq

structure EdgeList where
  u : List Nat
  v : List Nat
deriving DecidableEq

inductive Graph
  | topologyHash (hash : Bytes)
  | edges (e : EdgeList)
deriving DecidableEq

structure IsingProblem where
  graph : Option Graph
  encoding : CoefficientEncoding
  scale : Nat
  h : Bytes
  j : Bytes
deriving DecidableEq

structure Provenance where
  isPow : Bool
  orderId : Bytes
deriving DecidableEq

structure IsingProblemGenerator where
  algorithm : GeneratorAlgorithm
  topologyHash : Bytes
  lastProofBlockHash : Bytes
  minerAccount : Bytes
  baseSalt : Bytes
  saltStart : Nat
  saltCount : Nat
deriving DecidableEq

structure Job where
  jobId : JobId
  kind : JobKind
  generation : Nat
  deadlineMs : Nat
  ising : Option IsingProblem
  provenance : Option Provenance
  generator : Option IsingProblemGenerator
deriving DecidableEq

structure WireTopology where
  hash : Bytes
  nodes : List Nat
  edges : Option EdgeList
  allowedHMilli : List Int
  allowedJMilli : List Int
deriving DecidableEq

structure SetTarget where
  maxProofSolutions : Nat
  maxEnergyMilli : Int
  minSolutions : Nat
  minDiversityMilli : Nat
  numReads : Nat
  numSweeps : Nat
  annealTimeUs : Nat
deriving DecidableEq

structure Solution where
  spins : Bytes
  energyMilli : Int
deriving DecidableEq

structure ResultFrame where
  jobId : JobId
  solutions : List Solution
  deviceAccessTimeUs : Nat
  salt : Bytes
  nonce : Bytes
deriving DecidableEq

structure LeaseDone where
  jobId : JobId
  saltsDone : Nat
deriving DecidableEq

structure Capabilities where
  protocolVersion : Nat
  backend : String
  algorithm : String
  supportedKinds : List JobKind
  maxNodes : Nat
  maxEdges : Nat
  maxDegree : Option Nat
  nativeTopologyHash : Option Bytes
  features : List String
  generators : List GeneratorAlgorithm
  streamWidth : Nat
deriving DecidableEq

inductive CoordMsg
  | welcome (protocolVersion : Nat)
  | configure (queueDepth : Nat)
  | topology (t : WireTopology)
  | setTarget (t : SetTarget)
  | job (j : Job)
  | cancel (maxGeneration : Nat)
  | shutdown (graceMs : Nat)
  | ping
deriving DecidableEq

namespace Job

def isLease (job : Job) : Bool := job.kind == .isingGenerate

def isPow (job : Job) : Bool := job.provenance.any (·.isPow)

-- the test of the mempool branch of the `Result` arm
def isOrder (job : Job) : Bool := job.provenance.any (!·.isPow)

/-- A proof-of-work job that carries its own problem. -/
def PlainPow (job : Job) : Prop := job.isLease = false ∧ job.isPow = true

instance (job : Job) : Decidable job.PlainPow := inferInstanceAs (Decidable (_ ∧ _))

end Job
end QuipCoordinator
