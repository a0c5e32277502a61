import QuipCoordinator.Confirmations
import QuipCoordinator.DescriptorPayload
import QuipCoordinator.FoundationVariants
import QuipCoordinator.TopologySpec

/-!
# The chain's types in SCALE

The types mirrored from the pallets, each with the codec that its fields derive in
their order. SCALE writes no names, so the order of the fields and the positions of
the variants are all that ties a value to its bytes. The allowed-value specs belong
to a linked crate, and their codec is a parameter.
-/

namespace QuipCoordinator

class SpecCodec where
  allowedValueSpec : Codec AllowedValueSpec

namespace Scale
open Descriptor Survey SpecCodec

def u8 : Codec Nat := .littleEndian 1
def u16 : Codec Nat := .littleEndian 2
def u32 : Codec Nat := .littleEndian 4
def u64 : Codec Nat := .littleEndian 8
def u128 : Codec Nat := .littleEndian 16
def i8 : Codec Int := .signed 1
def i32 : Codec Int := .signed 4
def i64 : Codec Int := .signed 8
def bytes : Codec Bytes := Codec.byte.sequence
def h256 : Codec Bytes32 := .array 32

structure DifficultyConfig where
  minSolutions : Nat
  maxEnergyMilli : Int
  minDiversityMilli : Nat
deriving DecidableEq

structure IsingParams where
  nodes : List Nat
  edges : List (Nat × Nat)
  hValues : List Int
  jValues : List Int
  minEnergyMilli : Option Int
  minDiversityMilli : Option Nat
  minSolutions : Option Nat
deriving DecidableEq

structure OrderTiming where
  deadlineBlocks : Nat
  blockWait : Nat
deriving DecidableEq

inductive OrderStatus
  | opened
  | expired
  | closed
deriving DecidableEq

inductive RewardResolution
  | singleBest
  | topNWeighted (n : Nat)
  | topNEqual (n : Nat)
deriving DecidableEq

inductive JobMode
  | open
  | bid (miners : Option (List Bytes32)) (minerTypes : Option Bytes)
deriving DecidableEq

inductive ResultDelivery
  | onChainOnly
  | callback (endpoint : Bytes)
  | callbackWithPoll (endpoint : Bytes)
deriving DecidableEq

structure JobOrderScale where
  specId : Bytes32
  proposer : Bytes32
  isingParams : IsingParams
  reward : Nat
  mode : JobMode
  resolution : RewardResolution
  timing : OrderTiming
  delivery : ResultDelivery
  status : OrderStatus
  createdAt : Nat
  firstSolutionAt : Option Nat
  solutionCount : Nat
deriving DecidableEq

structure SolverInfoScale where
  account : Bytes32
  solverType : SolverType
  registeredAt : Nat
  solutionsSubmitted : Nat
  rewardsEarned : Nat
deriving DecidableEq

/-! ## Plain records -/

def difficultyConfig : Codec DifficultyConfig :=
  (u32.pair (i64.pair u32)).map
    { toFun := fun (a, b, c) => ⟨a, b, c⟩
      invFun := fun d => (d.minSolutions, d.maxEnergyMilli, d.minDiversityMilli)
      left_inv := fun _ => rfl
      right_inv := fun _ => rfl }

def nodeList : Codec (List Nat) := u32.sequence
def edgeList : Codec (List (Nat × Nat)) := (u32.pair u32).sequence

def topologyMeta [SpecCodec] : Codec TopologyMetaScale :=
  (nodeList.pair (edgeList.pair (allowedValueSpec.pair (allowedValueSpec.pair
    (allowedValueSpec.pair u32))))).map
    { toFun := fun (a, b, c, d, e, f) => ⟨a, b, c, d, e, f⟩
      invFun := fun t => (t.nodes, t.edges, t.allowedHValues, t.allowedJValues,
        t.allowedSpinValues, t.registeredAt)
      left_inv := fun _ => rfl
      right_inv := fun _ => rfl }

def isingParams : Codec IsingParams :=
  (nodeList.pair (edgeList.pair (i32.sequence.pair (i32.sequence.pair
    (i64.optional.pair (u32.optional.pair u32.optional)))))).map
    { toFun := fun (a, b, c, d, e, f, g) => ⟨a, b, c, d, e, f, g⟩
      invFun := fun p => (p.nodes, p.edges, p.hValues, p.jValues, p.minEnergyMilli,
        p.minDiversityMilli, p.minSolutions)
      left_inv := fun _ => rfl
      right_inv := fun _ => rfl }

def orderTiming : Codec OrderTiming :=
  (u32.pair u32).map
    { toFun := fun (a, b) => ⟨a, b⟩
      invFun := fun t => (t.deadlineBlocks, t.blockWait)
      left_inv := fun _ => rfl
      right_inv := fun _ => rfl }

/-! ## Enumerations -/

def orderStatus : Codec OrderStatus :=
  .enumeration [.opened, .expired, .closed] (by decide) (by decide)

def minerKind : Codec MinerKind :=
  .enumeration [.cpu, .gpu, .qpuDwave, .qpuIbm, .qpuIonq, .qpuPasqal, .asic, .metal]
    (by decide) (by decide)

def solverType : Codec SolverType :=
  .enumeration [.cpu, .gpu, .qpuDwave, .qpuIbm, .qpuIonq, .qpuPasqal, .asic]
    (by decide) (by decide)

def nodeLogLevel : Codec NodeLogLevel :=
  .enumeration [.debug, .info, .warning, .error] (by decide) (by decide)

/-! ## Variants with fields -/

inductive Three
  | first
  | second
  | third
deriving DecidableEq

namespace Three

def tag : Three → Bytes
  | first => [0]
  | second => [1]
  | third => [2]

theorem prefixFree_tag : Codec.PrefixFree tag := by
  intro i j h
  cases i <;> cases j <;> first | rfl | exact absurd h (by decide)

def all : List Three := [first, second, third]

theorem mem_all (i : Three) : i ∈ all := by
  cases i <;> decide

def Payload (α : Type) : Three → Type
  | first => Unit
  | second | third => α

def payload {α : Type} (c : Codec α) : (i : Three) → Codec (Payload α i)
  | first => .nothing
  | second | third => c

def codec {α : Type} (c : Codec α) : Codec (Σ i, Payload α i) :=
  .tagged all mem_all tag prefixFree_tag (payload c)

end Three

def rewardResolution : Codec RewardResolution :=
  (Three.codec u32).map
    { toFun
        | ⟨.first, _⟩ => .singleBest
        | ⟨.second, n⟩ => .topNWeighted n
        | ⟨.third, n⟩ => .topNEqual n
      invFun
        | .singleBest => ⟨.first, ()⟩
        | .topNWeighted n => ⟨.second, n⟩
        | .topNEqual n => ⟨.third, n⟩
      left_inv := by rintro ⟨i, p⟩; cases i <;> rfl
      right_inv := by intro r; cases r <;> rfl }

def resultDelivery : Codec ResultDelivery :=
  (Three.codec bytes).map
    { toFun
        | ⟨.first, _⟩ => .onChainOnly
        | ⟨.second, e⟩ => .callback e
        | ⟨.third, e⟩ => .callbackWithPoll e
      invFun
        | .onChainOnly => ⟨.first, ()⟩
        | .callback e => ⟨.second, e⟩
        | .callbackWithPoll e => ⟨.third, e⟩
      left_inv := by rintro ⟨i, p⟩; cases i <;> rfl
      right_inv := by intro r; cases r <;> rfl }

def jobMode : Codec JobMode :=
  ((h256.sequence.optional.pair bytes.optional).optional).map
    { toFun
        | none => .open
        | some (miners, types) => .bid miners types
      invFun
        | .open => none
        | .bid miners types => some (miners, types)
      left_inv := by rintro (_ | ⟨_, _⟩) <;> rfl
      right_inv := by intro m; cases m <;> rfl }

/-! ## Records of the mempool pallet -/

def jobOrder : Codec JobOrderScale :=
  (h256.pair (h256.pair (isingParams.pair (u128.pair (jobMode.pair (rewardResolution.pair
    (orderTiming.pair (resultDelivery.pair (orderStatus.pair (u32.pair
      (u32.optional.pair u32))))))))))).map
    { toFun := fun (a, b, c, d, e, f, g, h, i, j, k, l) => ⟨a, b, c, d, e, f, g, h, i, j, k, l⟩
      invFun := fun o => (o.specId, o.proposer, o.isingParams, o.reward, o.mode, o.resolution,
        o.timing, o.delivery, o.status, o.createdAt, o.firstSolutionAt, o.solutionCount)
      left_inv := fun _ => rfl
      right_inv := fun _ => rfl }

def solverInfo : Codec SolverInfoScale :=
  (h256.pair (solverType.pair (u32.pair (u64.pair u128)))).map
    { toFun := fun (a, b, c, d, e) => ⟨a, b, c, d, e⟩
      invFun := fun s => (s.account, s.solverType, s.registeredAt, s.solutionsSubmitted,
        s.rewardsEarned)
      left_inv := fun _ => rfl
      right_inv := fun _ => rfl }

/-! ## The descriptor -/

def minerSpec : Codec MinerSpecScale :=
  (minerKind.pair (bytes.optional.pair (bytes.optional.pair bytes.optional))).map
    { toFun := fun (a, b, c, d) => ⟨a, b, c, d⟩
      invFun := fun m => (m.kind, m.label, m.backend, m.deviceId)
      left_inv := fun _ => rfl
      right_inv := fun _ => rfl }

def osInfo : Codec OsInfoScale :=
  (bytes.pair (bytes.pair bytes)).map
    { toFun := fun (a, b, c) => ⟨a, b, c⟩
      invFun := fun o => (o.system, o.release, o.machine)
      left_inv := fun _ => rfl
      right_inv := fun _ => rfl }

def cpuInfo : Codec CpuInfoScale :=
  (u32.optional.pair (u32.optional.pair (bytes.pair bytes))).map
    { toFun := fun (a, b, c, d) => ⟨a, b, c, d⟩
      invFun := fun c => (c.logicalCores, c.physicalCores, c.brand, c.arch)
      left_inv := fun _ => rfl
      right_inv := fun _ => rfl }

def gpuInfo : Codec GpuInfoScale :=
  (u8.pair (bytes.pair (bytes.pair (u32.optional.pair u8.optional)))).map
    { toFun := fun (a, b, c, d, e) => ⟨a, b, c, d, e⟩
      invFun := fun g => (g.index, g.vendor, g.name, g.memoryMb, g.utilizationPct)
      left_inv := fun _ => rfl
      right_inv := fun _ => rfl }

def systemInfo : Codec SystemInfoScale :=
  (osInfo.pair (cpuInfo.pair (u32.optional.pair gpuInfo.sequence))).map
    { toFun := fun (a, b, c, d) => ⟨a, b, c, d⟩
      invFun := fun s => (s.os, s.cpu, s.memoryMb, s.gpus)
      left_inv := fun _ => rfl
      right_inv := fun _ => rfl }

def runtimeInfo : Codec RuntimeInfoScale :=
  (bytes.pair (bytes.pair (u32.pair (Codec.flag.pair bytes.optional)))).map
    { toFun := fun (a, b, c, d, e) => ⟨a, b, c, d, e⟩
      invFun := fun r => (r.python, r.quipVersion, r.protocolVersion, r.inDocker, r.dockerImage)
      left_inv := fun _ => rfl
      right_inv := fun _ => rfl }

def nodeDescriptor : Codec NodeDescriptorV2Input :=
  (bytes.pair (bytes.pair (bytes.optional.pair (u16.optional.pair (bytes.sequence.pair
    (Codec.flag.pair (nodeLogLevel.pair (minerSpec.sequence.pair (systemInfo.optional.pair
      runtimeInfo.optional))))))))).map
    { toFun := fun (a, b, c, d, e, f, g, h, i, j) => ⟨a, b, c, d, e, f, g, h, i, j⟩
      invFun := fun n => (n.nodeId, n.nodeName, n.publicHost, n.publicPort, n.rpcEndpoints,
        n.autoMine, n.logLevel, n.miners, n.systemInfo, n.runtime)
      left_inv := fun _ => rfl
      right_inv := fun _ => rfl }

end Scale

namespace Sample
open Scale

def SpecArgs : Three → Type
  | .first => List Int
  | .second | .third => Int × Int

def specArgs : (i : Three) → Codec (SpecArgs i)
  | .first => i32.sequence
  | .second | .third => i32.pair i32

/-- The variants in the order of their declaration, every value in four bytes. -/
scoped instance specCodec : SpecCodec where
  allowedValueSpec :=
    (Codec.tagged Three.all Three.mem_all Three.tag Three.prefixFree_tag specArgs).map
      { toFun
          | ⟨.first, values⟩ => .set values
          | ⟨.second, range⟩ => .integerRange range.1 range.2
          | ⟨.third, range⟩ => .continuousRange range.1 range.2
        invFun
          | .set values => ⟨.first, values⟩
          | .integerRange min max => ⟨.second, (min, max)⟩
          | .continuousRange min max => ⟨.third, (min, max)⟩
        left_inv := by rintro ⟨i, p⟩; cases i <;> rfl
        right_inv := by intro spec; cases spec <;> rfl }

end Sample
end QuipCoordinator
