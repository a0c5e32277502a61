import QuipCoordinator.ChainReaders
import QuipCoordinator.FoundationSlot

/-!
# The mining snapshot of a block

A snapshot is read at one block: the caller's, or the head that a validator names. Five
reads that only need the block run together, then the runtime prices the topology, and
the topology itself is downloaded once for each hash. A poll keeps the snapshot and its
spin values for the submissions. On the chain side a registered topology never changes
under its hash, and the runtime prices no hash that is not registered.
-/

namespace QuipCoordinator
open Json Scale

def roundRoot (headHash : Bytes32) (blockNumber lastProofBlock : Nat) (storedHash : Bytes32) :
    Bytes32 :=
  if lastProofBlock = blockNumber then headHash else storedHash

/-- A poll: how each validator answers during it, the block and the topology of the caller, and
which of several failures ends the reads that run together. -/
structure SnapshotRequest where
  transport : String → Rpc
  atBlock : Option Bytes32
  topologyHash : Option Bytes32
  firstFailed : List ChainError → ChainError

structure SnapshotState where
  lastSnapshot : Option MiningSnapshot
  lastSpinSpec : Option AllowedValueSpec
  topology : Slot Bytes32 TopologyMetaScale

def SnapshotState.initial : SnapshotState := ⟨none, none, none⟩

structure PinnedReads where
  header : Value
  topologyHash : Option Bytes32
  lastProofBlock : Option Nat
  storedRoot : Option Bytes32
  runtimeVersion : Value

structure SnapshotRound where
  topologyHash : Bytes32
  blockNumber : Nat
  specVersion : Nat
  root : Bytes32
  difficulty : DifficultyConfig

def failure? {α : Type} : Except ChainError α → Option ChainError
  | .error e => some e
  | .ok _ => none

def SnapshotRound.snapshot (r : SnapshotRound) (chainMeta : TopologyMetaScale) :
    Except ChainError MiningSnapshot := do
  let allowedHMilli ← (requireSetValues chainMeta.allowedHValues).mapError ChainError.decode
  let allowedJMilli ← (requireSetValues chainMeta.allowedJValues).mapError ChainError.decode
  let allowedSpinMilli ←
    (requireSetValues chainMeta.allowedSpinValues).mapError ChainError.decode
  pure
    { lastProofBlockHash := r.root
      topologyHash := r.topologyHash.toList
      nodes := chainMeta.nodes
      edges := chainMeta.edges
      allowedHMilli := allowedHMilli
      allowedJMilli := allowedJMilli
      allowedSpinMilli := allowedSpinMilli
      minSolutions := r.difficulty.minSolutions
      maxEnergyMilli := r.difficulty.maxEnergyMilli
      minDiversityMilli := r.difficulty.minDiversityMilli
      blockNumber := r.blockNumber
      specVersion := r.specVersion }

def SnapshotState.build (s : SnapshotState) (round : SnapshotRound) :
    Except ChainError (Option TopologyMetaScale) × Slot Bytes32 TopologyMetaScale →
      Except ChainError (Option MiningSnapshot) × SnapshotState
  | (.error e, slot) => (.error e, { s with topology := slot })
  | (.ok none, slot) => (.ok none, { s with topology := slot })
  | (.ok (some chainMeta), slot) =>
    match round.snapshot chainMeta with
    | .error e => (.error e, { s with topology := slot })
    | .ok snap => (.ok (some snap), ⟨some snap, some chainMeta.allowedSpinValues, slot⟩)

section
variable [StorageHashers] [SpecCodec] [ScaleErrors] (rpc : Rpc)

def snapshotTopologyHash (chosen : Option Bytes32) (at' : String) :
    Except ChainError (Option Bytes32) :=
  match chosen with
  | some hash => .ok (some hash)
  | none => readStorage rpc h256 defaultTopologyStorageKey at'

def pinnedReads (firstFailed : List ChainError → ChainError) (chosen : Option Bytes32)
    (at' : String) : Except ChainError PinnedReads :=
  let header := rpc "chain_getHeader" [.string at']
  let topologyHash := snapshotTopologyHash rpc chosen at'
  let lastProofBlock := readStorage rpc u32 lastProofBlockStorageKey at'
  let storedRoot := readStorage rpc h256 lastProofBlockHashStorageKey at'
  let runtimeVersion := rpc "state_getRuntimeVersion" [.string at']
  match header, topologyHash, lastProofBlock, storedRoot, runtimeVersion with
  | .ok header, .ok topologyHash, .ok lastProofBlock, .ok storedRoot, .ok runtimeVersion =>
    .ok ⟨header, topologyHash, lastProofBlock, storedRoot, runtimeVersion⟩
  | _, _, _, _, _ =>
    .error (firstFailed ([failure? header, failure? topologyHash, failure? lastProofBlock,
      failure? storedRoot, failure? runtimeVersion].filterMap id))

def readRound (firstFailed : List ChainError → ChainError) (chosen : Option Bytes32)
    (h : Bytes32) : Except ChainError (Option SnapshotRound) := do
  let reads ← pinnedReads rpc firstFailed chosen (Chain.hashText h)
  match reads.topologyHash with
  | none => pure none
  | some hash =>
    let blockNumber ← parseBlockNumber reads.header
    let specVersion ← parseSpecVersion reads.runtimeVersion
    let difficulty ←
      quantumPowCallByHash rpc difficultyConfig difficultyMethod hash (Chain.hashText h)
    pure (difficulty.map fun d =>
      { topologyHash := hash
        blockNumber := blockNumber
        specVersion := specVersion
        root := roundRoot h blockNumber (reads.lastProofBlock.getD 0)
          (reads.storedRoot.getD (Vector.replicate 32 0))
        difficulty := d })

/-- `topology_meta`: the topology of the slot, or the one that is downloaded. -/
def topologyMetaOf (slot : Slot Bytes32 TopologyMetaScale) (hash : Bytes32) (at' : String) :
    Except ChainError (Option TopologyMetaScale) × Slot Bytes32 TopologyMetaScale :=
  slot.through hash (quantumPowCallByHash rpc topologyMeta topologyMethod hash at') slot

def snapshotBlock : Option Bytes32 → Except ChainError Bytes32
  | some h => .ok h
  | none => do
    let text ← headText rpc
    let bytes ← (hexDecode text).mapError ChainError.decode
    if h : bytes.length = 32 then pure ⟨bytes.toArray, size_toArray_of_length h⟩
    else throw (.decode ("block hash len " ++ toString bytes.length))

end

section
variable [StorageHashers] [SpecCodec] [ScaleErrors]

/-- A poll at the block `h`: the snapshot, none when there is nothing to mine, and what is kept. -/
def fetchSnapshotAt (urls : List String) (r : SnapshotRequest) (s : SnapshotState) (h : Bytes32) :
    Except ChainError (Option MiningSnapshot) × SnapshotState :=
  let rpc := Validators.rpcCall ⟨urls, r.transport⟩
  match readRound rpc r.firstFailed r.topologyHash h with
  | .error e => (.error e, s)
  | .ok none => (.ok none, s)
  | .ok (some round) =>
    s.build round (topologyMetaOf rpc s.topology round.topologyHash (Chain.hashText h))

def fetchMiningSnapshot (urls : List String) (r : SnapshotRequest) (s : SnapshotState) :
    Except ChainError (Bytes32 × Option MiningSnapshot) × SnapshotState :=
  match snapshotBlock (Validators.rpcCall ⟨urls, r.transport⟩) r.atBlock with
  | .error e => (.error e, s)
  | .ok h => ((fetchSnapshotAt urls r s h).1.map (h, ·), (fetchSnapshotAt urls r s h).2)

def polls (urls : List String) (requests : List SnapshotRequest) : SnapshotState :=
  requests.foldl (fun s r => (fetchMiningSnapshot urls r s).2) .initial

end

/-! ## The snapshot that a block holds -/

namespace StoredBlock

def snapshotRound (b : StoredBlock) (h hash : Bytes32) (d : DifficultyConfig) : SnapshotRound where
  topologyHash := hash
  blockNumber := b.number
  specVersion := b.specVersion
  root := roundRoot h b.number ((b.read u32 .lastProofBlock).getD 0)
    ((b.read h256 .lastProofBlockHash).getD (Vector.replicate 32 0))
  difficulty := d

/-- The round of a block on the chosen topology, else on the default one, when it has a price. -/
def roundFor (b : StoredBlock) (h : Bytes32) (chosen : Option Bytes32) : Option SnapshotRound :=
  (chosen.or b.defaultTopology).bind fun hash =>
    (b.difficultyFor hash).map (b.snapshotRound h hash)

def miningSnapshot (b : StoredBlock) (h : Bytes32) (chosen : Option Bytes32) :
    Except ChainError (Option MiningSnapshot) :=
  match b.roundFor h chosen with
  | none => .ok none
  | some round =>
    match b.topologyMeta round.topologyHash with
    | none => .ok none
    | some chainMeta => some <$> round.snapshot chainMeta

end StoredBlock

/-- What the pallet says of its topologies, and the widths of the numbers of a block. -/
structure Chain.Registry (chain : Chain) : Prop where
  number : ∀ h, (chain h).number < 2 ^ 64
  specVersion : ∀ h, (chain h).specVersion < 2 ^ 32
  immutable : ∀ h h' hash m m', (chain h).topologyMeta hash = some m →
    (chain h').topologyMeta hash = some m' → m = m'
  priced : ∀ h hash, ((chain h).difficultyFor hash).isSome = true →
    ((chain h).topologyMeta hash).isSome = true

def Chain.Registered (chain : Chain) (hash : Bytes32) (m : TopologyMetaScale) : Prop :=
  ∃ h, (chain h).topologyMeta hash = some m

/-- What a client keeps is true of the chain: the topology of the slot is registered, and the spin
values are those of the topology that the last snapshot is on. -/
structure SnapshotState.Sound (chain : Chain) (s : SnapshotState) : Prop where
  topology : s.topology.Valid chain.Registered
  kept : ∀ snap, s.lastSnapshot = some snap →
    (∃ h chosen, (chain h).miningSnapshot h chosen = .ok (some snap)) ∧
    ∃ hash m, chain.Registered hash m ∧ snap.topologyHash = hash.toList ∧ snap.nodes = m.nodes ∧
      s.lastSpinSpec = some m.allowedSpinValues

theorem SnapshotState.sound_initial (chain : Chain) : SnapshotState.initial.Sound chain where
  topology := Slot.valid_none _
  kept snap h := by cases h

theorem SnapshotRound.snapshot_fields {r : SnapshotRound} {m : TopologyMetaScale}
    {snap : MiningSnapshot} (h : r.snapshot m = .ok snap) :
    snap.lastProofBlockHash = r.root ∧ snap.topologyHash = r.topologyHash.toList ∧
      snap.nodes = m.nodes := by
  obtain ⟨hv, -, h⟩ := Except.bind_eq_ok.mp h
  obtain ⟨jv, -, h⟩ := Except.bind_eq_ok.mp h
  obtain ⟨sv, -, h⟩ := Except.bind_eq_ok.mp h
  cases h
  exact ⟨rfl, rfl, rfl⟩

section
variable [StorageHashers] [SpecCodec] [ScaleErrors] {rpc : Rpc} {chain : Chain} {h : Bytes32}
  {chosen : Option Bytes32} {firstFailed : List ChainError → ChainError}

omit [SpecCodec] in
theorem pinnedReads_ok {at' : String} {reads : PinnedReads}
    (hok : pinnedReads rpc firstFailed chosen at' = .ok reads) :
    rpc "chain_getHeader" [.string at'] = .ok reads.header ∧
    snapshotTopologyHash rpc chosen at' = .ok reads.topologyHash ∧
    readStorage rpc u32 lastProofBlockStorageKey at' = .ok reads.lastProofBlock ∧
    readStorage rpc h256 lastProofBlockHashStorageKey at' = .ok reads.storedRoot ∧
    rpc "state_getRuntimeVersion" [.string at'] = .ok reads.runtimeVersion := by
  unfold pinnedReads at hok
  dsimp only at hok
  split at hok
  · rename_i h₁ h₂ h₃ h₄ h₅
    cases hok
    exact ⟨h₁, h₂, h₃, h₄, h₅⟩
  · cases hok

omit [SpecCodec] in
theorem pinnedReads_eq {at' : String} {header runtimeVersion : Value}
    {topologyHash : Option Bytes32} {lastProofBlock : Option Nat} {storedRoot : Option Bytes32}
    (h₁ : rpc "chain_getHeader" [.string at'] = .ok header)
    (h₂ : snapshotTopologyHash rpc chosen at' = .ok topologyHash)
    (h₃ : readStorage rpc u32 lastProofBlockStorageKey at' = .ok lastProofBlock)
    (h₄ : readStorage rpc h256 lastProofBlockHashStorageKey at' = .ok storedRoot)
    (h₅ : rpc "state_getRuntimeVersion" [.string at'] = .ok runtimeVersion) :
    pinnedReads rpc firstFailed chosen at' =
      .ok ⟨header, topologyHash, lastProofBlock, storedRoot, runtimeVersion⟩ := by
  simp only [pinnedReads, h₁, h₂, h₃, h₄, h₅]

theorem topologyHash_honest (hhonest : rpc.Honest chain) {x : Option Bytes32}
    (hok : snapshotTopologyHash rpc chosen (Chain.hashText h) = .ok x) :
    x = chosen.or (chain h).defaultTopology := by
  cases chosen with
  | some hash => exact (Except.ok.inj hok).symm
  | none =>
    have hread := readStorage_honest (e := .defaultTopology) hhonest trivial hok
    rw [hread]
    rfl

theorem readRound_honest (hregistry : chain.Registry) (hhonest : rpc.Honest chain)
    {x : Option SnapshotRound} (hok : readRound rpc firstFailed chosen h = .ok x) :
    x = (chain h).roundFor h chosen := by
  obtain ⟨reads, hreads, hok⟩ := Except.bind_eq_ok.mp hok
  obtain ⟨hheader, htopology, hblock, hroot, hversion⟩ := pinnedReads_ok hreads
  have hhash := topologyHash_honest hhonest htopology
  have hlast := readStorage_honest (e := .lastProofBlock) hhonest trivial hblock
  have hstored := readStorage_honest (e := .lastProofBlockHash) hhonest trivial hroot
  unfold StoredBlock.roundFor
  rw [← hhash]
  cases hchosen : reads.topologyHash with
  | none =>
    rw [hchosen] at hok
    exact (Except.ok.inj hok).symm
  | some hash =>
    rw [hchosen] at hok
    obtain ⟨number, hnumber, hok⟩ := Except.bind_eq_ok.mp hok
    obtain ⟨version, hspec, hok⟩ := Except.bind_eq_ok.mp hok
    obtain ⟨difficulty, hdifficulty, hok⟩ := Except.bind_eq_ok.mp hok
    rw [parseBlockNumber_hexNumber (hregistry.number h) (hhonest.header h _ hheader)] at hnumber
    rw [parseSpecVersion_number (hregistry.specVersion h)
      (hhonest.runtimeVersion h _ hversion)] at hspec
    have hprice := difficulty_honest hhonest hdifficulty
    cases hnumber
    cases hspec
    rw [← Except.ok.inj hok, hprice, hlast, hstored]
    rfl

structure StoredBlock.SnapshotReadable (b : StoredBlock) : Prop where
  defaultTopology : b.Readable h256 .defaultTopology
  lastProofBlock : b.Readable u32 .lastProofBlock
  lastProofBlockHash : b.Readable h256 .lastProofBlockHash

theorem readRound_eq (hregistry : chain.Registry) (hhonest : rpc.Honest chain)
    (hanswers : rpc.Answers h) (hreadable : (chain h).SnapshotReadable) :
    readRound rpc firstFailed chosen h = .ok ((chain h).roundFor h chosen) := by
  obtain ⟨header, hheader⟩ := Except.isOk_iff_exists.mp (hanswers _ _ .header)
  obtain ⟨version, hversion⟩ := Except.isOk_iff_exists.mp (hanswers _ _ .runtimeVersion)
  have htopology : snapshotTopologyHash rpc chosen (Chain.hashText h) =
      .ok (chosen.or (chain h).defaultTopology) := by
    cases chosen with
    | some hash => rfl
    | none =>
      exact readStorage_eq (e := .defaultTopology) hhonest hanswers trivial
        hreadable.defaultTopology
  have hblock := readStorage_eq (e := .lastProofBlock) hhonest hanswers trivial
    hreadable.lastProofBlock
  have hroot := readStorage_eq (e := .lastProofBlockHash) hhonest hanswers trivial
    hreadable.lastProofBlockHash
  have hnumber := parseBlockNumber_hexNumber (hregistry.number h) (hhonest.header h _ hheader)
  have hspec := parseSpecVersion_number (hregistry.specVersion h)
    (hhonest.runtimeVersion h _ hversion)
  have hreads : pinnedReads rpc firstFailed chosen (Chain.hashText h) = .ok _ :=
    pinnedReads_eq hheader htopology hblock hroot hversion
  cases hchosen : chosen.or (chain h).defaultTopology with
  | none => simp [readRound, hreads, hchosen, StoredBlock.roundFor, bind, Except.bind, pure,
      Except.pure]
  | some hash =>
    simp only [readRound, hreads, hchosen, StoredBlock.roundFor, bind, Except.bind, pure,
      Except.pure, hnumber, hspec, difficulty_eq hhonest hanswers hash, Option.bind_some]
    rfl

omit [ScaleErrors] in
theorem snapshotBlock_honest (hhonest : rpc.Honest chain) {atBlock : Option Bytes32}
    (hok : snapshotBlock rpc atBlock = .ok h) :
    atBlock = some h ∨
      atBlock = none ∧ rpc "chain_getBlockHash" [] = .ok (.string (Chain.hashText h)) := by
  cases atBlock with
  | some h' => exact .inl (congrArg some (Except.ok.inj hok))
  | none =>
    obtain ⟨text, htext, hok⟩ := Except.bind_eq_ok.mp hok
    obtain ⟨v, hv, hpure⟩ := Except.bind_eq_ok.mp htext
    obtain ⟨h', rfl⟩ := hhonest.head v hv
    obtain rfl : Chain.hashText h' = text := Except.ok.inj hpure
    obtain ⟨bytes, hbytes, hok⟩ := Except.bind_eq_ok.mp hok
    rw [Except.mapError_eq_ok, Chain.hashText, hexDecode_eq_ok_iff, stripHexPrefix_hexEncode,
      Hex.decode_encode] at hbytes
    obtain rfl : h'.toList = bytes := Option.some.inj hbytes
    rw [dif_pos (by simp)] at hok
    obtain rfl : h' = h := by
      rw [← Except.ok.inj hok]
      exact Vector.toArray_inj.mp rfl
    exact .inr ⟨rfl, hv⟩

end

section
variable [StorageHashers] [SpecCodec] [ScaleErrors] {chain : Chain} {urls : List String}
  {r : SnapshotRequest} {s : SnapshotState} {h : Bytes32}

def SnapshotRequest.Honest (r : SnapshotRequest) (urls : List String) (chain : Chain) : Prop :=
  ∀ url ∈ urls, (r.transport url).Honest chain

theorem topologyMetaOf_honest (hregistry : chain.Registry) {rpc : Rpc} (hhonest : rpc.Honest chain)
    (hs : s.topology.Valid chain.Registered) {hash : Bytes32}
    (hprice : ((chain h).difficultyFor hash).isSome = true) {x : Option TopologyMetaScale}
    (hok : (topologyMetaOf rpc s.topology hash (Chain.hashText h)).1 = .ok x) :
    x = (chain h).topologyMeta hash := by
  rcases Slot.through_ok hs hok with hread | ⟨m, rfl, h', hm⟩
  · exact topology_honest hhonest hread
  · obtain ⟨m', hm'⟩ := Option.isSome_iff_exists.mp (hregistry.priced h hash hprice)
    rw [hm', hregistry.immutable h' h hash m m' hm hm']

theorem valid_topologyMetaOf {rpc : Rpc} (hhonest : rpc.Honest chain)
    (hs : s.topology.Valid chain.Registered) (hash h : Bytes32) :
    (topologyMetaOf rpc s.topology hash (Chain.hashText h)).2.Valid chain.Registered := by
  apply Slot.valid_through hs hs
  intro m hread
  exact ⟨h, (topology_honest hhonest hread).symm⟩

omit [StorageHashers] [SpecCodec] [ScaleErrors] in
theorem roundFor_eq_some {b : StoredBlock} {chosen : Option Bytes32} {round : SnapshotRound}
    (hround : b.roundFor h chosen = some round) :
    ∃ d, b.difficultyFor round.topologyHash = some d ∧
      round = b.snapshotRound h round.topologyHash d := by
  obtain ⟨hash, -, hmap⟩ := Option.bind_eq_some_iff.mp hround
  obtain ⟨d, hd, rfl⟩ := Option.map_eq_some_iff.mp hmap
  exact ⟨d, hd, rfl⟩

omit [StorageHashers] [SpecCodec] [ScaleErrors] in
theorem build_spec {chosen : Option Bytes32} {round : SnapshotRound}
    (hround : (chain h).roundFor h chosen = some round) (hs : s.Sound chain)
    {slot : Slot Bytes32 TopologyMetaScale} (hslot : slot.Valid chain.Registered)
    {answer : Except ChainError (Option TopologyMetaScale)}
    (hanswer : ∀ x, answer = .ok x → x = (chain h).topologyMeta round.topologyHash) :
    (s.build round (answer, slot)).2.Sound chain ∧
    ∀ x, (s.build round (answer, slot)).1 = .ok x → (chain h).miningSnapshot h chosen = .ok x := by
  have hkept : ({ s with topology := slot } : SnapshotState).Sound chain := ⟨hslot, hs.kept⟩
  cases answer with
  | error e =>
    refine ⟨hkept, ?_⟩
    intro x hx
    cases hx
  | ok meta? =>
    have hm := hanswer meta? rfl
    cases meta? with
    | none =>
      refine ⟨hkept, ?_⟩
      intro x hx
      cases hx
      simp [StoredBlock.miningSnapshot, hround, ← hm]
    | some chainMeta =>
      have hplain : (chain h).miningSnapshot h chosen = some <$> round.snapshot chainMeta := by
        simp [StoredBlock.miningSnapshot, hround, ← hm]
      rw [SnapshotState.build]
      cases hsnap : round.snapshot chainMeta with
      | error e =>
        refine ⟨hkept, ?_⟩
        intro x hx
        cases hx
      | ok snap =>
        rw [hsnap] at hplain
        obtain ⟨-, hhash, hnodes⟩ := SnapshotRound.snapshot_fields hsnap
        refine ⟨⟨hslot, ?_⟩, ?_⟩
        · intro snap' hsnap'
          cases hsnap'
          exact ⟨⟨h, chosen, hplain⟩, round.topologyHash, chainMeta, ⟨h, hm.symm⟩, hhash, hnodes,
            rfl⟩
        · intro x hx
          cases hx
          exact hplain

omit [StorageHashers] [SpecCodec] [ScaleErrors] in
theorem build_of_answer {chosen : Option Bytes32} {round : SnapshotRound}
    (hround : (chain h).roundFor h chosen = some round) (slot : Slot Bytes32 TopologyMetaScale) :
    (s.build round (.ok ((chain h).topologyMeta round.topologyHash), slot)).1 =
      (chain h).miningSnapshot h chosen := by
  simp only [StoredBlock.miningSnapshot, hround]
  cases (chain h).topologyMeta round.topologyHash with
  | none => rfl
  | some chainMeta =>
    simp only [SnapshotState.build]
    cases round.snapshot chainMeta <;> rfl

/-- A poll at a block keeps what is true, and gives the snapshot of the block or an error. -/
theorem fetchSnapshotAt_honest (hregistry : chain.Registry) (hhonest : r.Honest urls chain)
    (hs : s.Sound chain) (h : Bytes32) :
    (fetchSnapshotAt urls r s h).2.Sound chain ∧
    ∀ x, (fetchSnapshotAt urls r s h).1 = .ok x →
      (chain h).miningSnapshot h r.topologyHash = .ok x := by
  have hrpc : (Validators.rpcCall ⟨urls, r.transport⟩).Honest chain := honest_rpcCall hhonest
  unfold fetchSnapshotAt
  dsimp only
  split
  · refine ⟨hs, ?_⟩
    intro x hx
    cases hx
  · rename_i hround
    have hblock := readRound_honest hregistry hrpc hround
    refine ⟨hs, ?_⟩
    intro x hx
    cases hx
    simp [StoredBlock.miningSnapshot, ← hblock]
  · rename_i round hround
    have hblock := readRound_honest hregistry hrpc hround
    obtain ⟨d, hd, -⟩ := roundFor_eq_some hblock.symm
    apply build_spec hblock.symm hs (valid_topologyMetaOf hrpc hs.topology round.topologyHash h)
    intro x
    exact topologyMetaOf_honest hregistry hrpc hs.topology (by simp [hd])

theorem fetchSnapshotAt_eq (hregistry : chain.Registry) (hhonest : r.Honest urls chain)
    (hs : s.Sound chain) {url : String} (hurl : url ∈ urls)
    (hanswers : (r.transport url).Answers h) (hreadable : (chain h).SnapshotReadable) :
    (fetchSnapshotAt urls r s h).1 = (chain h).miningSnapshot h r.topologyHash := by
  have hrpc : (Validators.rpcCall ⟨urls, r.transport⟩).Honest chain := honest_rpcCall hhonest
  have hall : (Validators.rpcCall ⟨urls, r.transport⟩).Answers h := answers_rpcCall hurl hanswers
  rw [fetchSnapshotAt, readRound_eq hregistry hrpc hall hreadable]
  cases hround : (chain h).roundFor h r.topologyHash with
  | none => simp [StoredBlock.miningSnapshot, hround]
  | some round =>
    obtain ⟨d, hd, -⟩ := roundFor_eq_some hround
    have hok : (topologyMetaOf (Validators.rpcCall ⟨urls, r.transport⟩) s.topology
        round.topologyHash (Chain.hashText h)).1.isOk = true :=
      Slot.isOk_through
        (Except.isOk_iff_exists.mpr ⟨_, topology_eq hrpc hall round.topologyHash⟩)
    obtain ⟨x, hx⟩ := Except.isOk_iff_exists.mp hok
    have hmeta := topologyMetaOf_honest (h := h) hregistry hrpc hs.topology (by simp [hd]) hx
    rw [hmeta] at hx
    rw [← build_of_answer (s := s) hround]
    dsimp only
    rw [← hx]

theorem sound_fetchMiningSnapshot (hregistry : chain.Registry) (hhonest : r.Honest urls chain)
    (hs : s.Sound chain) : (fetchMiningSnapshot urls r s).2.Sound chain := by
  unfold fetchMiningSnapshot
  split
  · exact hs
  · exact (fetchSnapshotAt_honest hregistry hhonest hs _).1

theorem fetchMiningSnapshot_ok (hregistry : chain.Registry) (hhonest : r.Honest urls chain)
    (hs : s.Sound chain) {x : Option MiningSnapshot}
    (hok : (fetchMiningSnapshot urls r s).1 = .ok (h, x)) :
    snapshotBlock (Validators.rpcCall ⟨urls, r.transport⟩) r.atBlock = .ok h ∧
      (chain h).miningSnapshot h r.topologyHash = .ok x := by
  unfold fetchMiningSnapshot at hok
  split at hok
  · cases hok
  · rename_i h' hblock
    obtain ⟨x', hx', heq⟩ := Except.map_eq_ok.mp hok
    cases heq
    exact ⟨hblock, (fetchSnapshotAt_honest hregistry hhonest hs h).2 x hx'⟩

/-- What a client keeps is true of the chain after any polls. -/
theorem sound_polls (hregistry : chain.Registry) {requests : List SnapshotRequest}
    (hhonest : ∀ r ∈ requests, r.Honest urls chain) : (polls urls requests).Sound chain := by
  unfold polls
  generalize hinitial : SnapshotState.initial = s
  have hs : s.Sound chain := hinitial ▸ SnapshotState.sound_initial chain
  clear hinitial
  induction requests generalizing s with
  | nil => exact hs
  | cons r requests ih =>
    obtain ⟨hr, hrest⟩ := List.forall_mem_cons.mp hhonest
    exact ih hrest _ (sound_fetchMiningSnapshot hregistry hr hs)

/-- After any polls, a poll that does not fail gives the snapshot of one block: the caller's, or a
head that a validator named. It is the one that a client without a cache would read there, whatever
validators answer and whichever of them fail, and a single validator that answers at the block is
enough for it. The spin values that are kept for the submissions are those of the topology of the
last snapshot. -/
theorem mining_snapshots_exact (hregistry : chain.Registry) {requests : List SnapshotRequest}
    (hrequests : ∀ r ∈ requests, r.Honest urls chain) (hhonest : r.Honest urls chain) :
    (∀ h x, (fetchMiningSnapshot urls r (polls urls requests)).1 = .ok (h, x) →
      (r.atBlock = some h ∨ r.atBlock = none ∧ ∃ url ∈ urls,
        r.transport url "chain_getBlockHash" [] = .ok (.string (Chain.hashText h))) ∧
      (chain h).miningSnapshot h r.topologyHash = .ok x) ∧
    (∀ h, snapshotBlock (Validators.rpcCall ⟨urls, r.transport⟩) r.atBlock = .ok h →
      (∃ url ∈ urls, (r.transport url).Answers h) → (chain h).SnapshotReadable →
      (fetchMiningSnapshot urls r (polls urls requests)).1 =
        ((chain h).miningSnapshot h r.topologyHash).map (h, ·)) ∧
    ∀ snap, (polls urls requests).lastSnapshot = some snap →
      ∃ hash m, chain.Registered hash m ∧ snap.topologyHash = hash.toList ∧
        snap.nodes = m.nodes ∧ (polls urls requests).lastSpinSpec = some m.allowedSpinValues := by
  have hs : (polls urls requests).Sound chain := sound_polls hregistry hrequests
  refine ⟨?_, ?_, ?_⟩
  · intro h x hok
    obtain ⟨hblock, hplain⟩ := fetchMiningSnapshot_ok hregistry hhonest hs hok
    have hrpc : (Validators.rpcCall ⟨urls, r.transport⟩).Honest chain := honest_rpcCall hhonest
    refine ⟨?_, hplain⟩
    rcases snapshotBlock_honest hrpc hblock with hat | ⟨hat, hhead⟩
    · exact .inl hat
    · exact .inr ⟨hat, Validators.rpcCall_ok _ hhead⟩
  · rintro h hblock ⟨url, hurl, hanswers⟩ hreadable
    rw [fetchMiningSnapshot, hblock]
    dsimp only
    rw [fetchSnapshotAt_eq hregistry hhonest hs hurl hanswers hreadable]
  · intro snap hsnap
    exact (hs.kept snap hsnap).2

end

namespace Sample

def head : Bytes32 := Vector.replicate 32 7

def topologyId : Bytes32 := Vector.replicate 32 5

def wonBlock : StoredBlock where
  number := 1
  specVersion := 118
  storage := [(.lastProofBlock, u32.encode 1), (.defaultTopology, topologyId.toList)]
  difficultyFor _ := some ⟨1, -500, 100⟩
  topologyMeta _ :=
    some ⟨[0, 1], [(0, 1)], .set [0], .set [-1000, 1000], .set [-1000, 1000], 4⟩

theorem wonBlock_registry : Chain.Registry fun _ => wonBlock where
  number _ := by decide
  specVersion _ := by decide
  immutable h h' hash m m' hm hm' := Option.some.inj (hm.symm.trans hm')
  priced h hash _ := rfl

theorem wonBlock_readable : wonBlock.SnapshotReadable where
  defaultTopology value h := by
    have hvalue : wonBlock.get .defaultTopology = some topologyId.toList := by decide
    rw [← Option.some.inj (hvalue.symm.trans h)]
    decide
  lastProofBlock value h := by
    have hvalue : wonBlock.get .lastProofBlock = some (u32.encode 1) := by decide
    rw [← Option.some.inj (hvalue.symm.trans h)]
    decide
  lastProofBlockHash value h := by
    have hvalue : wonBlock.get .lastProofBlockHash = none := by decide
    rw [hvalue] at h
    cases h

theorem wonBlock_honest : (endpoint wonBlock head).Honest fun _ => wonBlock := by
  apply endpoint_honest
  · simp [wonBlock, ChainEntry.Fits]
  · exact fun _ => rfl
  · exact fun _ => rfl
  · have hdecode : difficultyConfig.optional.decode
        (difficultyConfig.optional.encode (wonBlock.difficultyFor head)) =
          some (wonBlock.difficultyFor head, []) := by
      decide +kernel
    exact (difficultyConfig.optional.canonical _ _ _ hdecode).1
  · have hdecode : topologyMeta.optional.decode
        (topologyMeta.optional.encode (wonBlock.topologyMeta head)) =
          some (wonBlock.topologyMeta head, []) := by
      decide +kernel
    exact (topologyMeta.optional.canonical _ _ _ hdecode).1

def poll : SnapshotRequest where
  transport url := if url = "away" then fun _ _ => .error (.unavailable url)
    else endpoint wonBlock head
  atBlock := none
  topologyHash := none
  firstFailed errors := errors.headD Validators.noValidators

theorem poll_honest : poll.Honest ["away", "near"] fun _ => wonBlock := by
  intro url hurl
  by_cases haway : url = "away"
  · simp only [poll, haway, if_true]
    constructor <;> (intros; contradiction)
  · simp only [poll, haway, if_false]
    exact wonBlock_honest

end Sample

open Sample in
theorem mining_snapshots_exact_won :
    ∃ snap, (fetchMiningSnapshot ["away", "near"] poll (polls ["away", "near"] [poll])).1 =
      .ok (head, some snap) ∧ snap.lastProofBlockHash = head := by
  have hblock : snapshotBlock (Validators.rpcCall ⟨["away", "near"], poll.transport⟩)
      poll.atBlock = .ok head := by
    decide +kernel
  have hrequests : ∀ r ∈ [poll], r.Honest ["away", "near"] fun _ => wonBlock := by
    simpa using poll_honest
  have hsnap := (mining_snapshots_exact wonBlock_registry hrequests poll_honest).2.1 head hblock
    ⟨"near", by simp, endpoint_answers wonBlock head head⟩ wonBlock_readable
  exact ⟨_, hsnap, rfl⟩

end QuipCoordinator
