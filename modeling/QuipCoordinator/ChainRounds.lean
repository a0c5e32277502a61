import QuipCoordinator.SnapshotReads

/-!
# The root of a round

The pallet records the block of the last win at once and its hash one block later,
because a block cannot hold its own hash. A snapshot therefore takes the head's hash at
the block of a win and the stored hash elsewhere. On any branch of the chain this is the
root that the pallet checks proofs against in the next block, and in every later block
up to the next win.
-/

namespace QuipCoordinator
open Scale

/-- A branch of the chain by its newest block, which knows whether a proof won in it. -/
inductive Branch
  | genesis (hash : Bytes32)
  | block (parent : Branch) (hash : Bytes32) (won : Bool)

namespace Branch

def noRoot : Bytes32 := Vector.replicate 32 0

def hash : Branch → Bytes32
  | genesis h => h
  | block _ h _ => h

def number : Branch → Nat
  | genesis _ => 0
  | block parent _ _ => parent.number + 1

def lastProofBlock : Branch → Nat
  | genesis _ => 0
  | block parent _ won => if won then parent.number + 1 else parent.lastProofBlock

/-- `LastProofBlockHash` in a block on top: `on_initialize` writes it after a win. Proofs in that
block are checked against it. -/
def checkedOnTop : Branch → Bytes32
  | genesis _ => noRoot
  | block parent h won => if won then h else parent.checkedOnTop

def storedRoot : Branch → Bytes32
  | genesis _ => noRoot
  | block parent _ _ => parent.checkedOnTop

def grow (b : Branch) (blocks : List (Bytes32 × Bool)) : Branch :=
  blocks.foldl (fun b x => b.block x.1 x.2) b

theorem lastProofBlock_le (b : Branch) : b.lastProofBlock ≤ b.number := by
  induction b with
  | genesis h => exact Nat.le_refl 0
  | block parent h won ih =>
    rw [lastProofBlock, number]
    split_ifs
    · exact Nat.le_refl _
    · exact Nat.le_succ_of_le ih

theorem roundRoot_eq {b : Branch} (h : 0 < b.number) :
    roundRoot b.hash b.number b.lastProofBlock b.storedRoot = b.checkedOnTop := by
  cases b with
  | genesis g => exact absurd h (Nat.lt_irrefl 0)
  | block parent g won =>
    have hle := lastProofBlock_le parent
    unfold roundRoot
    cases won with
    | true => simp [lastProofBlock, number, hash, checkedOnTop]
    | false =>
      have hne : (parent.block g false).lastProofBlock ≠ (parent.block g false).number := by
        simp only [lastProofBlock, number, Bool.false_eq_true, if_false]
        omega
      rw [if_neg hne]
      simp [storedRoot, checkedOnTop]

theorem grow_concat (b : Branch) (blocks : List (Bytes32 × Bool)) (x : Bytes32 × Bool) :
    b.grow (blocks ++ [x]) = (b.grow blocks).block x.1 x.2 := by
  simp [grow]

/-- Blocks whose hashes are not the root in force keep it exactly when none of them has a win. -/
theorem checkedOnTop_grow {b : Branch} {blocks : List (Bytes32 × Bool)}
    (hnew : ∀ x ∈ blocks, x.1 ≠ b.checkedOnTop) :
    (b.grow blocks).checkedOnTop = b.checkedOnTop ↔ ∀ x ∈ blocks, x.2 = false := by
  induction blocks using List.reverseRecOn with
  | nil => simp [grow]
  | append_singleton blocks x ih =>
    have hrest := ih fun y hy => hnew y (List.mem_append_left _ hy)
    have hx : x.1 ≠ b.checkedOnTop := hnew x (by simp)
    rw [grow_concat, checkedOnTop]
    cases hwon : x.2 with
    | true =>
      refine iff_of_false (by simpa using hx) ?_
      intro hall
      rw [hall x (by simp)] at hwon
      cases hwon
    | false => simp [hrest, hwon, or_imp, forall_and]

def hashes : Branch → List Bytes32
  | genesis h => [h]
  | block parent h _ => h :: parent.hashes

/-- No two blocks share a hash, and none has the hash of no block. -/
def Distinct (b : Branch) : Prop := b.hashes.Nodup ∧ noRoot ∉ b.hashes

theorem checkedOnTop_mem (b : Branch) : b.checkedOnTop = noRoot ∨ b.checkedOnTop ∈ b.hashes := by
  induction b with
  | genesis h => exact .inl rfl
  | block parent h won ih =>
    rw [checkedOnTop, hashes]
    split_ifs
    · exact .inr List.mem_cons_self
    · exact ih.imp id (List.mem_cons_of_mem _)

theorem hashes_grow (b : Branch) (blocks : List (Bytes32 × Bool)) :
    (b.grow blocks).hashes = (blocks.map Prod.fst).reverse ++ b.hashes := by
  induction blocks using List.reverseRecOn with
  | nil => rfl
  | append_singleton blocks x ih => simp [grow_concat, hashes, ih]

theorem ne_checkedOnTop_of_distinct {b : Branch} {blocks : List (Bytes32 × Bool)}
    (h : (b.grow blocks).Distinct) {x : Bytes32 × Bool} (hx : x ∈ blocks) :
    x.1 ≠ b.checkedOnTop := by
  obtain ⟨hnodup, hzero⟩ := h
  rw [hashes_grow] at hnodup hzero
  have hnew : x.1 ∈ (blocks.map Prod.fst).reverse :=
    List.mem_reverse.mpr (List.mem_map_of_mem hx)
  rcases checkedOnTop_mem b with hroot | hroot
  · intro heq
    apply hzero
    rw [← hroot, ← heq]
    exact List.mem_append_left _ hnew
  · intro heq
    rw [← heq] at hroot
    exact (List.nodup_append.mp hnodup).2.2 x.1 hnew x.1 hroot rfl

end Branch

/-- The block at the end of a branch holds what the pallet writes there. -/
structure Chain.Holds (chain : Chain) (b : Branch) : Prop where
  number : (chain b.hash).number = b.number
  lastProofBlock : ((chain b.hash).read u32 .lastProofBlock).getD 0 = b.lastProofBlock
  storedRoot :
    ((chain b.hash).read h256 .lastProofBlockHash).getD (Vector.replicate 32 0) = b.storedRoot

theorem root_of_miningSnapshot {chain : Chain} {b : Branch} (hholds : chain.Holds b)
    (hb : 0 < b.number) {chosen : Option Bytes32} {snap : MiningSnapshot}
    (h : (chain b.hash).miningSnapshot b.hash chosen = .ok (some snap)) :
    snap.lastProofBlockHash = b.checkedOnTop := by
  unfold StoredBlock.miningSnapshot at h
  cases hround : (chain b.hash).roundFor b.hash chosen with
  | none => simp [hround] at h
  | some round =>
    obtain ⟨d, -, hround'⟩ := roundFor_eq_some hround
    have hroot : round.root = b.checkedOnTop := by
      rw [hround', ← Branch.roundRoot_eq hb, ← hholds.number, ← hholds.lastProofBlock,
        ← hholds.storedRoot]
      rfl
    cases hmeta : (chain b.hash).topologyMeta round.topologyHash with
    | none => simp [hround, hmeta] at h
    | some chainMeta =>
      simp only [hround, hmeta] at h
      obtain ⟨snap', hsnap, heq⟩ := Except.map_eq_ok.mp h
      cases heq
      rw [← hroot]
      exact (SnapshotRound.snapshot_fields hsnap).1

section
variable [StorageHashers] [SpecCodec] [ScaleErrors]

/-- The root of a polled snapshot is the one that the pallet checks proofs against in the next
block on its branch, and a proof built on it stays good on every branch above up to the next win:
in a block on top of others it is checked against that root exactly when no proof won in them. -/
theorem round_roots_exact {chain : Chain} (hregistry : chain.Registry) {urls : List String}
    {requests : List SnapshotRequest} (hrequests : ∀ r ∈ requests, r.Honest urls chain)
    {r : SnapshotRequest} (hhonest : r.Honest urls chain) {b : Branch} (hb : 0 < b.number)
    (hholds : chain.Holds b) {snap : MiningSnapshot}
    (hpoll : (fetchMiningSnapshot urls r (polls urls requests)).1 = .ok (b.hash, some snap))
    {blocks : List (Bytes32 × Bool)} (hdistinct : (b.grow blocks).Distinct) :
    (b.grow blocks).checkedOnTop = snap.lastProofBlockHash ↔ ∀ x ∈ blocks, x.2 = false := by
  have hs : (polls urls requests).Sound chain := sound_polls hregistry hrequests
  obtain ⟨-, hplain⟩ := fetchMiningSnapshot_ok hregistry hhonest hs hpoll
  rw [root_of_miningSnapshot hholds hb hplain]
  apply Branch.checkedOnTop_grow
  intro x hx
  exact Branch.ne_checkedOnTop_of_distinct hdistinct hx

end
namespace Sample

def wonBranch : Branch := (Branch.genesis (Vector.replicate 32 1)).block head true

theorem wonBranch_holds : Chain.Holds (fun _ => wonBlock) wonBranch where
  number := rfl
  lastProofBlock := by decide
  storedRoot := by decide

end Sample

open Sample in
theorem round_roots_exact_won :
    (wonBranch.grow [(Vector.replicate 32 2, false)]).checkedOnTop = head ∧
      (wonBranch.grow [(Vector.replicate 32 2, true)]).checkedOnTop ≠ head := by
  have hrequests : ∀ r ∈ [poll], r.Honest ["away", "near"] fun _ => wonBlock := by
    simpa using poll_honest
  have hs : (polls ["away", "near"] [poll]).Sound fun _ => wonBlock :=
    sound_polls wonBlock_registry hrequests
  have hblock : snapshotBlock (Validators.rpcCall ⟨["away", "near"], poll.transport⟩)
      poll.atBlock = .ok head := by
    decide +kernel
  have hfetch : (fetchMiningSnapshot ["away", "near"] poll (polls ["away", "near"] [poll])).1 =
      (wonBlock.miningSnapshot head none).map (head, ·) := by
    rw [fetchMiningSnapshot, hblock]
    dsimp only
    have hnear : "near" ∈ ["away", "near"] := by simp
    have hanswers : (poll.transport "near").Answers head := endpoint_answers wonBlock head head
    rw [fetchSnapshotAt_eq wonBlock_registry poll_honest hs hnear hanswers wonBlock_readable]
    rfl
  obtain ⟨snap, hsnap, hroot⟩ : ∃ snap, (fetchMiningSnapshot ["away", "near"] poll
      (polls ["away", "near"] [poll])).1 = .ok (wonBranch.hash, some snap) ∧
      snap.lastProofBlockHash = head :=
    ⟨_, hfetch, rfl⟩
  rw [← hroot]
  constructor
  · apply (round_roots_exact wonBlock_registry hrequests poll_honest (by decide) wonBranch_holds
      hsnap (by unfold Branch.Distinct; decide)).mpr
    simp
  · intro heq
    have hall := (round_roots_exact wonBlock_registry hrequests poll_honest (by decide)
      wonBranch_holds hsnap (by unfold Branch.Distinct; decide)).mp heq
    simp at hall

end QuipCoordinator
