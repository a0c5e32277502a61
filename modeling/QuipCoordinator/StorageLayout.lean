import QuipCoordinator.Confirmations
import QuipCoordinator.FoundationVariants
import QuipCoordinator.StorageKeys

/-!
# The keys of the chain's storage

A key is the digests of the pallet's and of the item's name, then, for a map, each map
key after its own digest. The digests of the names that the coordinator reads differ,
so a key shows the entry it is the key of, no key starts another, and the entries that
a walk under the prefix of a map meets are those of that map. What the confirmations
read by name is read under keys of its own.
-/

namespace QuipCoordinator

inductive ChainEntry
  | jobOrders (orderId : Nat)
  | solvers (account : Bytes32)
  | orderSolutions (orderId : Nat) (account : Bytes32)
  | miners (account : Bytes32)
  | difficulties (topologyHash : Bytes32)
  | topologyCurveC (topologyHash : Bytes32)
  | lastProofBlock
  | lastProofBlockHash
  | defaultTopology
  | qblocks (blockNumber : Nat)
  | nodeDescriptors (account : Bytes32)
  | participantsByQblock (qblockId : Nat) (account : Bytes32)
  | systemAccount (account : Bytes32)
deriving DecidableEq

section
variable [StorageHashers]
open StorageHashers

def itemPrefix (pallet item : String) : Bytes :=
  (twox128 pallet.toUTF8.toList).toList ++ (twox128 item.toUTF8.toList).toList

def blakeConcat (mapKey : Bytes) : Bytes := (blake2128 mapKey).toList ++ mapKey

def solversStorageKey (account : Bytes32) : Bytes :=
  itemPrefix "QuantumComputeMempool" "Solvers" ++ blakeConcat account.toList

def orderSolutionsStorageKey (orderId : Nat) (account : Bytes32) : Bytes :=
  itemPrefix "QuantumComputeMempool" "OrderSolutions" ++
    (blakeConcat (toLeBytes 8 orderId) ++ blakeConcat account.toList)

def quantumPowMapKey (item : String) (mapKey : Bytes32) : Bytes :=
  itemPrefix "QuantumPow" item ++ blakeConcat mapKey.toList

def minersStorageKey (account : Bytes32) : Bytes := quantumPowMapKey "Miners" account

def difficultiesStorageKey (topologyHash : Bytes32) : Bytes :=
  quantumPowMapKey "Difficulties" topologyHash

def topologyCurveCStorageKey (topologyHash : Bytes32) : Bytes :=
  quantumPowMapKey "TopologyCurveC" topologyHash

def lastProofBlockStorageKey : Bytes := itemPrefix "QuantumPow" "LastProofBlock"

def lastProofBlockHashStorageKey : Bytes := itemPrefix "QuantumPow" "LastProofBlockHash"

def defaultTopologyStorageKey : Bytes := itemPrefix "QuantumPow" "DefaultTopology"

def qblocksStorageKey (blockNumber : Nat) : Bytes :=
  itemPrefix "QuantumPow" "QBlocks" ++ blakeConcat (toLeBytes 4 blockNumber)

def nodeDescriptorsStorageKey (account : Bytes32) : Bytes :=
  itemPrefix "MinerRegistry" "NodeDescriptors" ++ blakeConcat account.toList

def participantsByQblockStorageKey (qblockId : Nat) (account : Bytes32) : Bytes :=
  itemPrefix "MinerRegistry" "ParticipantsByQBlock" ++
    (blakeConcat (toLeBytes 8 qblockId) ++ blakeConcat account.toList)

def systemAccountStorageKey (account : Bytes32) : Bytes :=
  itemPrefix "System" "Account" ++ blakeConcat account.toList

def ChainEntry.key : ChainEntry → Bytes
  | jobOrders orderId => jobOrdersStorageKey orderId
  | solvers account => solversStorageKey account
  | orderSolutions orderId account => orderSolutionsStorageKey orderId account
  | miners account => minersStorageKey account
  | difficulties topologyHash => difficultiesStorageKey topologyHash
  | topologyCurveC topologyHash => topologyCurveCStorageKey topologyHash
  | lastProofBlock => lastProofBlockStorageKey
  | lastProofBlockHash => lastProofBlockHashStorageKey
  | defaultTopology => defaultTopologyStorageKey
  | qblocks blockNumber => qblocksStorageKey blockNumber
  | nodeDescriptors account => nodeDescriptorsStorageKey account
  | participantsByQblock qblockId account => participantsByQblockStorageKey qblockId account
  | systemAccount account => systemAccountStorageKey account

end

/-! ## Entries by item -/

inductive StorageItem
  | jobOrders
  | solvers
  | orderSolutions
  | miners
  | difficulties
  | topologyCurveC
  | lastProofBlock
  | lastProofBlockHash
  | defaultTopology
  | qblocks
  | nodeDescriptors
  | participantsByQblock
  | systemAccount
deriving DecidableEq

namespace StorageItem

def all : List StorageItem :=
  [jobOrders, solvers, orderSolutions, miners, difficulties, topologyCurveC, lastProofBlock,
    lastProofBlockHash, defaultTopology, qblocks, nodeDescriptors, participantsByQblock,
    systemAccount]

theorem mem_all (i : StorageItem) : i ∈ all := by
  cases i <;> decide

def pallet : StorageItem → String
  | jobOrders | solvers | orderSolutions => "QuantumComputeMempool"
  | miners | difficulties | topologyCurveC | lastProofBlock | lastProofBlockHash
  | defaultTopology | qblocks => "QuantumPow"
  | nodeDescriptors | participantsByQblock => "MinerRegistry"
  | systemAccount => "System"

def name : StorageItem → String
  | jobOrders => "JobOrders"
  | solvers => "Solvers"
  | orderSolutions => "OrderSolutions"
  | miners => "Miners"
  | difficulties => "Difficulties"
  | topologyCurveC => "TopologyCurveC"
  | lastProofBlock => "LastProofBlock"
  | lastProofBlockHash => "LastProofBlockHash"
  | defaultTopology => "DefaultTopology"
  | qblocks => "QBlocks"
  | nodeDescriptors => "NodeDescriptors"
  | participantsByQblock => "ParticipantsByQBlock"
  | systemAccount => "Account"

def Args : StorageItem → Type
  | lastProofBlock | lastProofBlockHash | defaultTopology => Unit
  | jobOrders | qblocks => Nat
  | solvers | miners | difficulties | topologyCurveC | nodeDescriptors | systemAccount => Bytes32
  | orderSolutions | participantsByQblock => Nat × Bytes32

end StorageItem

namespace ChainEntry

def split : ChainEntry ≃ Σ i, StorageItem.Args i where
  toFun
    | .jobOrders id => ⟨.jobOrders, id⟩
    | .solvers a => ⟨.solvers, a⟩
    | .orderSolutions id a => ⟨.orderSolutions, (id, a)⟩
    | .miners a => ⟨.miners, a⟩
    | .difficulties h => ⟨.difficulties, h⟩
    | .topologyCurveC h => ⟨.topologyCurveC, h⟩
    | .lastProofBlock => ⟨.lastProofBlock, ()⟩
    | .lastProofBlockHash => ⟨.lastProofBlockHash, ()⟩
    | .defaultTopology => ⟨.defaultTopology, ()⟩
    | .qblocks n => ⟨.qblocks, n⟩
    | .nodeDescriptors a => ⟨.nodeDescriptors, a⟩
    | .participantsByQblock id a => ⟨.participantsByQblock, (id, a)⟩
    | .systemAccount a => ⟨.systemAccount, a⟩
  invFun
    | ⟨.jobOrders, id⟩ => .jobOrders id
    | ⟨.solvers, a⟩ => .solvers a
    | ⟨.orderSolutions, p⟩ => .orderSolutions p.1 p.2
    | ⟨.miners, a⟩ => .miners a
    | ⟨.difficulties, h⟩ => .difficulties h
    | ⟨.topologyCurveC, h⟩ => .topologyCurveC h
    | ⟨.lastProofBlock, _⟩ => .lastProofBlock
    | ⟨.lastProofBlockHash, _⟩ => .lastProofBlockHash
    | ⟨.defaultTopology, _⟩ => .defaultTopology
    | ⟨.qblocks, n⟩ => .qblocks n
    | ⟨.nodeDescriptors, a⟩ => .nodeDescriptors a
    | ⟨.participantsByQblock, p⟩ => .participantsByQblock p.1 p.2
    | ⟨.systemAccount, a⟩ => .systemAccount a
  left_inv := by intro e; cases e <;> rfl
  right_inv := by rintro ⟨i, p⟩; cases i <;> rfl

def Fits : ChainEntry → Prop
  | jobOrders id | orderSolutions id _ | participantsByQblock id _ => id < 2 ^ 64
  | qblocks n => n < 2 ^ 32
  | _ => True

end ChainEntry

section
variable [StorageHashers]
open StorageHashers

/-- The digests of the names that the coordinator reads differ. -/
def NamesApart : Prop :=
  ∀ i j : StorageItem, itemPrefix i.pallet i.name = itemPrefix j.pallet j.name → i = j

theorem length_itemPrefix (pallet item : String) : (itemPrefix pallet item).length = 32 := by
  simp [itemPrefix]

theorem NamesApart.prefixFree (h : NamesApart) :
    Codec.PrefixFree fun i : StorageItem => itemPrefix i.pallet i.name := by
  intro i j hfront
  apply h
  exact hfront.eq_of_length (by rw [length_itemPrefix, length_itemPrefix])

def hashedId (w : Nat) : Codec Nat := (Codec.littleEndian w).digested blake2128

def hashedKey : Codec Bytes32 := (Codec.array 32).digested blake2128

def StorageItem.args : (i : StorageItem) → Codec i.Args
  | lastProofBlock | lastProofBlockHash | defaultTopology => .nothing
  | jobOrders => hashedId 8
  | qblocks => hashedId 4
  | solvers | miners | difficulties | topologyCurveC | nodeDescriptors | systemAccount => hashedKey
  | orderSolutions | participantsByQblock => (hashedId 8).pair hashedKey

namespace ChainEntry

def codec (h : NamesApart) : Codec ChainEntry :=
  (Codec.tagged StorageItem.all StorageItem.mem_all _ h.prefixFree StorageItem.args).map split.symm

theorem dom_codec (h : NamesApart) (e : ChainEntry) : (codec h).dom e ↔ e.Fits := by
  have hpow : (256 : Nat) ^ 8 = 2 ^ 64 := by norm_num
  have hpow4 : (256 : Nat) ^ 4 = 2 ^ 32 := by norm_num
  cases e with
  | jobOrders id => exact (congrArg (id < ·) hpow).to_iff
  | qblocks n => exact (congrArg (n < ·) hpow4).to_iff
  | orderSolutions id a | participantsByQblock id a =>
    exact (iff_of_eq (and_true (id < 256 ^ 8))).trans (congrArg (id < ·) hpow).to_iff
  | _ => exact Iff.rfl

theorem key_eq (h : NamesApart) (e : ChainEntry) : e.key = (codec h).encode e := by
  cases e with
  | jobOrders id =>
    rw [key, jobOrdersStorageKey, toLeBytes_eq_toLe, List.append_assoc]
    rfl
  | qblocks n =>
    rw [key, qblocksStorageKey, toLeBytes_eq_toLe]
    rfl
  | orderSolutions id a =>
    rw [key, orderSolutionsStorageKey, toLeBytes_eq_toLe]
    rfl
  | participantsByQblock id a =>
    rw [key, participantsByQblockStorageKey, toLeBytes_eq_toLe]
    rfl
  | lastProofBlock | lastProofBlockHash | defaultTopology => exact (List.append_nil _).symm
  | _ => rfl

theorem key_append_inj (h : NamesApart) {e e' : ChainEntry} (he : e.Fits) (he' : e'.Fits)
    {rest rest' : Bytes} (hkey : e.key ++ rest = e'.key ++ rest') : e = e' ∧ rest = rest' := by
  rw [key_eq h, key_eq h] at hkey
  exact Codec.encode_append_inj ((dom_codec h e).mpr he) ((dom_codec h e').mpr he') hkey

theorem itemPrefix_prefix_key (h : NamesApart) (i : StorageItem) (e : ChainEntry) :
    itemPrefix i.pallet i.name <+: e.key ↔ e.split.1 = i := by
  have hown : itemPrefix e.split.1.pallet e.split.1.name <+: e.key := by
    rw [key_eq h]
    exact List.prefix_append _ _
  constructor
  · intro hfront
    exact h.prefixFree.eq_of_append hown hfront
  · rintro rfl
    exact hown

end ChainEntry

def StorageKey.entry : StorageKey → ChainEntry
  | qblocks number => .qblocks number
  | nodeDescriptors account => .nodeDescriptors account
  | miners account => .miners account
  | participantsByQblock qblockId account => .participantsByQblock qblockId account
  | defaultTopology => .defaultTopology
  | difficulties topologyHash => .difficulties topologyHash
  | solvers account => .solvers account
  | orderSolutions orderId account => .orderSolutions orderId account

omit [StorageHashers] in
theorem StorageKey.entry_injective : Function.Injective StorageKey.entry := by
  intro k k' h
  cases k <;> cases k' <;> simp_all [StorageKey.entry]

/-- No key of an entry starts the key of another, so no two entries share a key and neither do two
reads of the confirmations. The keys under the prefix of the orders are the keys of the orders, and
each gives the id of its order. -/
theorem storage_keys_exact (h : NamesApart) :
    (∀ e e' : ChainEntry, e.Fits → e'.Fits → e.key <+: e'.key → e = e') ∧
    (∀ k k' : StorageKey, k.entry.Fits → k'.entry.Fits → k.entry.key = k'.entry.key → k = k') ∧
    ∀ e : ChainEntry, e.Fits → (jobOrdersPrefix <+: e.key ↔
      ∃ id, e = .jobOrders id ∧ orderIdFromKey e.key = some id) := by
  refine ⟨?_, ?_, ?_⟩
  · rintro e e' he he' ⟨rest, hrest⟩
    exact (ChainEntry.key_append_inj h he he' (hrest.trans (List.append_nil _).symm)).1
  · intro k k' hk hk' hkey
    apply StorageKey.entry_injective
    exact (ChainEntry.key_append_inj h hk hk' (congrArg (· ++ []) hkey)).1
  · intro e he
    rw [show jobOrdersPrefix = itemPrefix StorageItem.jobOrders.pallet StorageItem.jobOrders.name
      from rfl, ChainEntry.itemPrefix_prefix_key h]
    constructor
    · intro hitem
      cases e with
      | jobOrders id => exact ⟨id, rfl, orderIdFromKey_storageKey he⟩
      | _ => cases hitem
    · rintro ⟨id, rfl, -⟩
      rfl

end

namespace Sample

/-- A digest is the first sixteen bytes of its input, padded with zeros. -/
def firstBytes (bytes : Bytes) : Vector UInt8 16 := Vector.ofFn fun i => bytes.getD i.val 0

scoped instance storageHashers : StorageHashers where
  twox128 := firstBytes
  blake2128 := firstBytes

theorem namesApart : NamesApart := by
  have h : ∀ i ∈ StorageItem.all, ∀ j ∈ StorageItem.all,
      itemPrefix i.pallet i.name = itemPrefix j.pallet j.name → i = j := by
    decide +kernel
  exact fun i j => h i (StorageItem.mem_all i) j (StorageItem.mem_all j)

end Sample

open Sample in
theorem storage_keys_exact_orders :
    NamesApart ∧ jobOrdersPrefix <+: (ChainEntry.jobOrders 7).key ∧
      ¬jobOrdersPrefix <+: ChainEntry.lastProofBlock.key := by
  refine ⟨namesApart, ?_, ?_⟩
  · exact ((storage_keys_exact namesApart).2.2 (.jobOrders 7) (by decide : 7 < 2 ^ 64)).mpr
      ⟨7, rfl, orderIdFromKey_storageKey (by decide)⟩
  · intro hfront
    obtain ⟨id, hid, -⟩ :=
      ((storage_keys_exact namesApart).2.2 .lastProofBlock trivial).mp hfront
    cases hid

end QuipCoordinator
