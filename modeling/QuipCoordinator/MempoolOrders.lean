import QuipCoordinator.ChainReaders
import QuipCoordinator.FoundationSlot

/-!
# The open orders of the mempool

The feeder walks the `JobOrders` map of the head block in pages of keys, reads every
order and keeps those that are open, not expired and open to its own account. The
registered solver type is read once and kept with its account. Any validator may answer
a page; all pages are pages of one block, so the walk meets each of its orders once.
-/

namespace QuipCoordinator
open Json Scale

structure OpenOrder where
  order : JobOrder
  mode : JobMode
deriving DecidableEq

def typeTag : SolverType → UInt8
  | .cpu => 0
  | .gpu => 1
  | .qpuDwave => 2
  | .qpuIbm => 3
  | .qpuIonq => 4
  | .qpuPasqal => 5
  | .asic => 6

def isEligibleFor (mode : JobMode) (account : Bytes32) (solverType : SolverType) : Bool :=
  match mode with
  | .open => true
  | .bid miners minerTypes =>
    miners.any (·.contains account) || minerTypes.any (·.contains (typeTag solverType))

def orderPageSize : Nat := 200

def blockTimeEstimateMs : Nat := 6000

def satMul (w a b : Nat) : Nat := min (a * b) (2 ^ w - 1)

def orderExpiry (createdAt : Nat) (firstSolutionAt : Option Nat) (timing : OrderTiming) : Nat :=
  let hard := satAdd 32 createdAt timing.deadlineBlocks
  firstSolutionAt.elim hard fun first => min hard (satAdd 32 first timing.blockWait)

def orderDeadlineMs (createdAt : Nat) (firstSolutionAt : Option Nat) (timing : OrderTiming)
    (head nowMs : Nat) : Option Nat :=
  let expiry := orderExpiry createdAt firstSolutionAt timing
  if head < expiry then
    some (satAdd 64 nowMs (satMul 64 (expiry - head) blockTimeEstimateMs))
  else none

def openOrder (id : Nat) (o : JobOrderScale) (deadlineMs : Nat) : OpenOrder where
  mode := o.mode
  order :=
    { orderId := toLeBytes 8 id
      nodes := o.isingParams.nodes
      edges := o.isingParams.edges
      hMilli := o.isingParams.hValues
      jMilli := o.isingParams.jValues
      minEnergyMilli := o.isingParams.minEnergyMilli
      minDiversityMilli := o.isingParams.minDiversityMilli
      minSolutions := o.isingParams.minSolutions
      deadlineMs := deadlineMs }

abbrev RegisteredSolver := Slot Bytes32 SolverType

section
variable [StorageHashers] [ScaleErrors] (rpc : Rpc)
open ScaleErrors

def registeredSolverType (account : Bytes32) (at' : String) (cache : RegisteredSolver) :
    Except ChainError (Option SolverType) × RegisteredSolver :=
  cache.through account
    ((readStorage rpc solverInfo (solversStorageKey account) at').map
      fun stored => stored.map (·.solverType)) none

def pageIds : List Value → Except ChainError (List Nat)
  | [] => pure []
  | key :: keys =>
    match key.asStr with
    | none => pageIds keys
    | some hex => do
      let bytes ← (hexDecode hex).mapError ChainError.decode
      let ids ← pageIds keys
      pure ((orderIdFromKey bytes).toList ++ ids)

/-- The ids of all pages after `start`, none when more pages are left than `fuel`. -/
def walkOrders (at' : String) : Nat → Option String → Except ChainError (Option (List Nat))
  | 0, _ => pure none
  | fuel + 1, start => do
    let page ← rpc "state_getKeysPaged"
      [.string (hexEncode jobOrdersPrefix), .number (.ofInt orderPageSize),
        start.elim .null .string, .string at']
    match page.asArray with
    | none => pure (some [])
    | some keys =>
      let ids ← pageIds keys
      if keys.length = orderPageSize then
        let more ← walkOrders at' fuel (keys.getLast?.bind Value.asStr)
        pure (more.map (ids ++ ·))
      else pure (some ids)

def takeOrder (account : Bytes32) (nowMs headNumber : Nat) (at' : String) (id : Nat)
    (cache : RegisteredSolver) : Except ChainError (Option OpenOrder) × RegisteredSolver :=
  match rpc "state_getStorage" [.string (hexEncode (jobOrdersStorageKey id)), .string at'] with
  | .error e => (.error e, cache)
  | .ok raw =>
    match raw.asStr with
    | none => (.ok none, cache)
    | some hex =>
      match hexDecode hex with
      | .error e => (.error (.decode e), cache)
      | .ok bytes =>
        match jobOrder.decode bytes with
        | none =>
          (.error (.decode ("JobOrder " ++ toString id ++ ": " ++ decodeError bytes)), cache)
        | some (o, _) =>
          if o.status ≠ .opened then (.ok none, cache)
          else
            match orderDeadlineMs o.createdAt o.firstSolutionAt o.timing headNumber nowMs with
            | none => (.ok none, cache)
            | some deadlineMs =>
              match o.mode with
              | .open => (.ok (some (openOrder id o deadlineMs)), cache)
              | .bid _ _ =>
                match registeredSolverType rpc account at' cache with
                | (.error e, cache) => (.error e, cache)
                | (.ok t, cache) =>
                  if t.any (isEligibleFor o.mode account) then
                    (.ok (some (openOrder id o deadlineMs)), cache)
                  else (.ok none, cache)

def takeOrders (account : Bytes32) (nowMs headNumber : Nat) (at' : String) :
    List Nat → RegisteredSolver → Except ChainError (List OpenOrder) × RegisteredSolver
  | [], cache => (.ok [], cache)
  | id :: ids, cache =>
    match takeOrder rpc account nowMs headNumber at' id cache with
    | (.error e, cache) => (.error e, cache)
    | (.ok order, cache) =>
      match takeOrders account nowMs headNumber at' ids cache with
      | (.error e, cache) => (.error e, cache)
      | (.ok orders, cache) => (.ok (order.toList ++ orders), cache)

def orderHead : Except ChainError String := do
  let text ← headText rpc
  let bytes ← (hexDecode text).mapError ChainError.decode
  if bytes.length ≠ 32 then
    throw (.decode ("head hash is " ++ toString bytes.length ++ " bytes, expected 32"))
  pure text

def walkHead (fuel : Nat) : Except ChainError (Option (String × List Nat × Nat)) := do
  let at' ← orderHead rpc
  match ← walkOrders rpc at' fuel none with
  | none => pure none
  | some ids =>
    let header ← rpc "chain_getHeader" [.string at']
    let headNumber ← parseBlockNumber header
    pure (some (at', ids, headNumber))

/-- The open orders, none when the walk has more pages than `fuel`. -/
def fetchMempoolOrders (fuel : Nat) (account : Bytes32) (nowMs : Nat) (cache : RegisteredSolver) :
    Option (Except ChainError (List OpenOrder) × RegisteredSolver) :=
  match walkHead rpc fuel with
  | .error e => some (.error e, cache)
  | .ok none => none
  | .ok (some (at', ids, headNumber)) =>
    some (takeOrders rpc account nowMs headNumber at' ids cache)

end

/-! ## The orders of a block -/

def ChainEntry.orderId? : ChainEntry → Option Nat
  | jobOrders id => some id
  | _ => none

namespace StoredBlock
variable (b : StoredBlock)

def order (id : Nat) : Option JobOrderScale := b.read jobOrder (.jobOrders id)

def solverType (account : Bytes32) : Option SolverType :=
  (b.read solverInfo (.solvers account)).map (·.solverType)

def orderIds : List Nat := b.storage.filterMap (·.1.orderId?)

def OpenTo (account : Bytes32) (mode : JobMode) : Prop :=
  mode = .open ∨ (b.solverType account).any (isEligibleFor mode account) = true

instance (account : Bytes32) (mode : JobMode) : Decidable (b.OpenTo account mode) :=
  inferInstanceAs (Decidable (_ ∨ _))

def offered (account : Bytes32) (nowMs id : Nat) : Option OpenOrder :=
  (b.order id).bind fun o =>
    if o.status = .opened ∧ b.OpenTo account o.mode then
      (orderDeadlineMs o.createdAt o.firstSolutionAt o.timing b.number nowMs).map (openOrder id o)
    else none

variable [StorageHashers]

def orderKeys : List Bytes := b.keys.filter (jobOrdersPrefix <+: ·)

/-- The keys are those of the entries, strictly sorted, and the values of the mempool pallet decode.
The number is that of a block. -/
structure MempoolReadable : Prop where
  number : b.number < 2 ^ 64
  sorted : b.keys.Pairwise (· < ·)
  fits : ∀ p ∈ b.storage, p.1.Fits
  orders : ∀ id, b.Readable jobOrder (.jobOrders id)
  solvers : ∀ account, b.Readable solverInfo (.solvers account)

end StoredBlock

/-! ## The walk -/

theorem hexDecode_hexEncode (bytes : Bytes) : hexDecode (hexEncode bytes) = .ok bytes := by
  rw [hexDecode_eq_ok_iff, stripHexPrefix_hexEncode, Hex.decode_encode]

section
variable [StorageHashers] [SpecCodec] {rpc : Rpc} {chain : Chain} {h : Bytes32}

omit [SpecCodec] in
theorem pageIds_keys (keys : List Bytes) :
    pageIds (keys.map fun key => .string (hexEncode key)) =
      .ok (keys.filterMap orderIdFromKey) := by
  induction keys with
  | nil => rfl
  | cons key keys ih =>
    have hkey : (Value.string (hexEncode key)).asStr = some (hexEncode key) := rfl
    rw [List.map_cons, pageIds, hkey]
    dsimp only
    rw [hexDecode_hexEncode, ih]
    change Except.ok ((orderIdFromKey key).toList ++ keys.filterMap orderIdFromKey) = _
    cases h : orderIdFromKey key <;> simp [h]

theorem keysPaged_eq (hhonest : rpc.Honest chain) (hanswers : rpc.Answers h)
    (start : Option Bytes) :
    rpc "state_getKeysPaged"
      [.string (hexEncode jobOrdersPrefix), .number (.ofInt orderPageSize),
        (start.map hexEncode).elim .null .string, .string (Chain.hashText h)] =
    .ok (.array ((Cursor.page (· < ·) (chain h).orderKeys orderPageSize start).map
      fun key => .string (hexEncode key))) := by
  have hstart : (start.map hexEncode).elim .null .string = storedValue start := by
    cases start <;> rfl
  rw [hstart]
  obtain ⟨page, hpage⟩ := Except.isOk_iff_exists.mp
    (hanswers _ _ (.keysPaged jobOrdersPrefix orderPageSize start (by decide)))
  have heq := hhonest.keysPaged h jobOrdersPrefix orderPageSize start page (by decide) hpage
  rw [heq] at hpage
  exact hpage

theorem walkOrders_beyond (hhonest : rpc.Honest chain) (hanswers : rpc.Answers h)
    (hsorted : (chain h).orderKeys.Pairwise (· < ·)) (fuel : Nat) (start : Option Bytes)
    (hleft : (Cursor.beyond (· < ·) (chain h).orderKeys start).length < orderPageSize * fuel) :
    walkOrders rpc (Chain.hashText h) fuel (start.map hexEncode) =
      .ok (some ((Cursor.beyond (· < ·) (chain h).orderKeys start).filterMap orderIdFromKey)) := by
  induction fuel generalizing start with
  | zero => exact absurd hleft (by simp)
  | succ fuel ih =>
    rw [walkOrders, keysPaged_eq hhonest hanswers start]
    simp only [bind, Except.bind, Value.asArray, pageIds_keys, List.length_map, List.getLast?_map]
    split_ifs with hfull
    · -- a full page goes on from its last key
      obtain ⟨last, hlast⟩ : ∃ last,
          (Cursor.page (· < ·) (chain h).orderKeys orderPageSize start).getLast? = some last := by
        apply Option.isSome_iff_exists.mp
        rw [List.getLast?_isSome]
        intro hnil
        rw [hnil] at hfull
        exact absurd hfull (by decide)
      have hrest := Cursor.beyond_page hsorted hlast
      have hlong : 200 ≤ (Cursor.beyond (· < ·) (chain h).orderKeys start).length := by
        rw [Cursor.page, List.length_take, orderPageSize] at hfull
        omega
      have hstep := ih (some last) (by
        rw [hrest, List.length_drop]
        simp only [orderPageSize] at hleft ⊢
        omega)
      rw [hrest, Option.map_some] at hstep
      have hresume : (some (Value.string (hexEncode last))).bind Value.asStr =
          some (hexEncode last) := rfl
      simp only [hlast, Option.map_some, hresume, hstep]
      change Except.ok (some (_ ++ _)) = _
      rw [← List.filterMap_append, Cursor.page, List.take_append_drop]
    · have hshort : (Cursor.page (· < ·) (chain h).orderKeys orderPageSize start).length <
          orderPageSize := by
        refine lt_of_le_of_ne ?_ hfull
        exact List.length_take_le _ _
      rw [Cursor.page_of_short hshort]
      rfl

omit [SpecCodec] in
theorem orderIds_eq (hnames : NamesApart) {b : StoredBlock} (hfits : ∀ p ∈ b.storage, p.1.Fits) :
    b.orderKeys.filterMap orderIdFromKey = b.orderIds := by
  unfold StoredBlock.orderKeys StoredBlock.keys StoredBlock.orderIds
  generalize b.storage = storage at hfits
  induction storage with
  | nil => rfl
  | cons p storage ih =>
    obtain ⟨hp, hrest⟩ := List.forall_mem_cons.mp hfits
    have hfront : jobOrdersPrefix <+: p.1.key ↔ p.1.split.1 = .jobOrders :=
      ChainEntry.itemPrefix_prefix_key hnames .jobOrders p.1
    rw [List.map_cons, List.filterMap_cons, ← ih hrest]
    cases hid : p.1.orderId? with
    | some id =>
      have he : p.1 = .jobOrders id := by
        cases h : p.1 <;> simp_all [ChainEntry.orderId?]
      have hkey : orderIdFromKey p.1.key = some id := by
        rw [he] at hp ⊢
        exact orderIdFromKey_storageKey hp
      have hin : jobOrdersPrefix <+: p.1.key := hfront.mpr (by rw [he]; rfl)
      rw [List.filter_cons_of_pos (by simpa using hin), List.filterMap_cons, hkey]
    | none =>
      have hout : ¬jobOrdersPrefix <+: p.1.key := by
        rw [hfront]
        cases h : p.1 <;> simp_all [ChainEntry.orderId?, ChainEntry.split]
      rw [List.filter_cons_of_neg (by simpa using hout)]

/-! ## One order -/

end

section
variable [StorageHashers] [SpecCodec] [ScaleErrors] {rpc : Rpc} {chain : Chain}
  {h account : Bytes32}

def RegisteredSolver.At (cache : RegisteredSolver) (b : StoredBlock) : Prop :=
  cache.Valid fun account t => b.solverType account = some t

theorem registeredSolverType_spec (hreadable : (chain h).MempoolReadable)
    (hhonest : rpc.Honest chain) (hanswers : rpc.Answers h) (account : Bytes32)
    {cache : RegisteredSolver} (hcache : cache.At (chain h)) :
    ∃ cache', RegisteredSolver.At cache' (chain h) ∧
      registeredSolverType rpc account (Chain.hashText h) cache =
        (.ok ((chain h).solverType account), cache') := by
  have hread : (readStorage rpc solverInfo (solversStorageKey account) (Chain.hashText h)).map
      (fun stored => stored.map (·.solverType)) = .ok ((chain h).solverType account) := by
    have hstored := readStorage_eq (e := .solvers account) hhonest hanswers trivial
      (hreadable.solvers account)
    exact congrArg (Except.map fun stored => stored.map (·.solverType)) hstored
  unfold registeredSolverType
  rw [hread]
  have hvalid : (cache.through account
      (.ok ((chain h).solverType account) : Except ChainError (Option SolverType)) none).2.Valid
      fun account t => (chain h).solverType account = some t := by
    apply Slot.valid_through hcache (Slot.valid_none _)
    intro t ht
    exact Except.ok.inj ht
  exact ⟨_, hvalid, Prod.ext (Slot.through_eq hcache account) rfl⟩

omit [SpecCodec] [ScaleErrors] in
theorem order_of_get {b : StoredBlock} (hreadable : b.MempoolReadable) {id : Nat} {value : Bytes}
    (hget : b.get (.jobOrders id) = some value) :
    ∃ o rest, jobOrder.decode value = some (o, rest) ∧ b.order id = some o := by
  obtain ⟨⟨o, rest⟩, hdecode⟩ := Option.isSome_iff_exists.mp (hreadable.orders id value hget)
  exact ⟨o, rest, hdecode, by simp [StoredBlock.order, StoredBlock.read, hget, hdecode]⟩

theorem takeOrder_spec (hreadable : (chain h).MempoolReadable) (hhonest : rpc.Honest chain)
    (hanswers : rpc.Answers h) {id : Nat} (hid : id < 2 ^ 64) (nowMs : Nat)
    {cache : RegisteredSolver} (hcache : cache.At (chain h)) :
    ∃ cache', RegisteredSolver.At cache' (chain h) ∧
      takeOrder rpc account nowMs (chain h).number (Chain.hashText h) id cache =
        (.ok ((chain h).offered account nowMs id), cache') := by
  obtain ⟨raw, hraw⟩ := Except.isOk_iff_exists.mp (hanswers _ _ (.storage (.jobOrders id) hid))
  have hstored := hhonest.storage h (.jobOrders id) raw hid hraw
  rw [hstored] at hraw
  have hread : rpc "state_getStorage" [.string (hexEncode (jobOrdersStorageKey id)),
      .string (Chain.hashText h)] = .ok (storedValue ((chain h).get (.jobOrders id))) := hraw
  unfold takeOrder
  rw [hread]
  cases hget : (chain h).get (.jobOrders id) with
  | none =>
    refine ⟨cache, hcache, ?_⟩
    simp [StoredBlock.offered, StoredBlock.order, StoredBlock.read, hget, storedValue, Value.asStr]
  | some value =>
    obtain ⟨o, rest, hdecode, horder⟩ := order_of_get hreadable hget
    have htext : (storedValue (some value)).asStr = some (hexEncode value) := rfl
    simp only [htext, hexDecode_hexEncode, hdecode, StoredBlock.offered, horder, Option.bind_some]
    by_cases hstatus : o.status = .opened
    swap
    · exact ⟨cache, hcache, by simp [hstatus]⟩
    simp only [hstatus, ne_eq, not_true_eq_false, if_false, true_and]
    cases hdeadline : orderDeadlineMs o.createdAt o.firstSolutionAt o.timing (chain h).number
        nowMs with
    | none => exact ⟨cache, hcache, by simp⟩
    | some deadlineMs =>
      cases hmode : o.mode with
      | «open» => exact ⟨cache, hcache, by simp [StoredBlock.OpenTo]⟩
      | bid miners minerTypes =>
        obtain ⟨cache', hcache', htype⟩ :=
          registeredSolverType_spec hreadable hhonest hanswers account hcache
        refine ⟨cache', hcache', ?_⟩
        simp only [htype, StoredBlock.OpenTo]
        split_ifs <;> simp_all

theorem takeOrders_spec (hreadable : (chain h).MempoolReadable) (hhonest : rpc.Honest chain)
    (hanswers : rpc.Answers h) (nowMs : Nat) {ids : List Nat} (hids : ∀ id ∈ ids, id < 2 ^ 64)
    {cache : RegisteredSolver} (hcache : cache.At (chain h)) :
    ∃ cache', RegisteredSolver.At cache' (chain h) ∧
      takeOrders rpc account nowMs (chain h).number (Chain.hashText h) ids cache =
        (.ok (ids.filterMap ((chain h).offered account nowMs)), cache') := by
  induction ids generalizing cache with
  | nil => exact ⟨cache, hcache, rfl⟩
  | cons id ids ih =>
    obtain ⟨hid, hrest⟩ := List.forall_mem_cons.mp hids
    obtain ⟨cache₁, hcache₁, htake⟩ := takeOrder_spec hreadable hhonest hanswers hid nowMs hcache
    obtain ⟨cache₂, hcache₂, hmore⟩ := ih hrest hcache₁
    refine ⟨cache₂, hcache₂, ?_⟩
    rw [takeOrders, htake]
    simp only [hmore]
    cases hoffered : (chain h).offered account nowMs id <;> simp [hoffered]

end

section
variable {b : StoredBlock}

theorem mem_storage_of_get {e : ChainEntry} {value : Bytes} (h : b.get e = some value) :
    (e, value) ∈ b.storage := by
  obtain ⟨before, after, hsplit, -⟩ := List.lookup_eq_some_iff.mp h
  rw [hsplit]
  simp

theorem mem_orderIds_of_order {id : Nat} {o : JobOrderScale} (h : b.order id = some o) :
    id ∈ b.orderIds := by
  obtain ⟨value, hget, -⟩ := Option.bind_eq_some_iff.mp h
  exact List.mem_filterMap.mpr ⟨_, mem_storage_of_get hget, rfl⟩

theorem offered_eq_some {account : Bytes32} {nowMs id : Nat} {x : OpenOrder} :
    b.offered account nowMs id = some x ↔ ∃ o deadlineMs, b.order id = some o ∧
      o.status = .opened ∧ b.OpenTo account o.mode ∧
      orderDeadlineMs o.createdAt o.firstSolutionAt o.timing b.number nowMs = some deadlineMs ∧
      x = openOrder id o deadlineMs := by
  simp only [StoredBlock.offered, Option.bind_eq_some_iff, Option.ite_none_right_eq_some,
    Option.map_eq_some_iff]
  constructor
  · rintro ⟨o, ho, ⟨hstatus, hopen⟩, deadlineMs, hdeadline, rfl⟩
    exact ⟨o, deadlineMs, ho, hstatus, hopen, hdeadline, rfl⟩
  · rintro ⟨o, deadlineMs, ho, hstatus, hopen, hdeadline, rfl⟩
    exact ⟨o, ho, ⟨hstatus, hopen⟩, deadlineMs, hdeadline, rfl⟩

theorem orderId_of_offered {account : Bytes32} {nowMs id : Nat} {x : OpenOrder}
    (h : b.offered account nowMs id = some x) : x.order.orderId = toLeBytes 8 id := by
  obtain ⟨o, deadlineMs, -, -, -, -, rfl⟩ := offered_eq_some.mp h
  rfl

variable [StorageHashers]

theorem nodup_orderIds (hreadable : b.MempoolReadable) : b.orderIds.Nodup := by
  have hkeys : b.keys.Nodup := by
    apply hreadable.sorted.imp
    rintro key key' hlt rfl
    exact List.lt_irrefl key hlt
  have hentries : (b.storage.map Prod.fst).Nodup := by
    apply List.Nodup.of_map ChainEntry.key
    rwa [List.map_map]
  have hids : b.orderIds = (b.storage.map Prod.fst).filterMap ChainEntry.orderId? := by
    rw [List.filterMap_map]
    rfl
  rw [hids]
  apply List.Nodup.filterMap _ hentries
  intro e e' id he he'
  cases e <;> cases e' <;> simp_all [ChainEntry.orderId?]

theorem fits_of_mem_orderIds (hreadable : b.MempoolReadable) {id : Nat} (h : id ∈ b.orderIds) :
    id < 2 ^ 64 := by
  obtain ⟨p, hp, hid⟩ := List.mem_filterMap.mp h
  have hfits := hreadable.fits p hp
  cases he : p.1 <;> simp_all [ChainEntry.orderId?, ChainEntry.Fits]

theorem nodup_offered (hreadable : b.MempoolReadable) (account : Bytes32) (nowMs : Nat) :
    ((b.orderIds.filterMap (b.offered account nowMs)).map (·.order.orderId)).Nodup := by
  have hids := nodup_orderIds hreadable
  have hfits : ∀ id ∈ b.orderIds, id < 256 ^ 8 := by
    intro id hid
    have := fits_of_mem_orderIds hreadable hid
    omega
  rw [List.Nodup, List.pairwise_map]
  apply List.Pairwise.filterMap _ _ (List.Pairwise.and_mem.mp hids)
  rintro id id' ⟨hid, hid', hne⟩ x hx x' hx' heq
  rw [orderId_of_offered hx, orderId_of_offered hx'] at heq
  exact hne (toLeBytes_inj (hfits id hid) (hfits id' hid') heq)

end

section
variable [StorageHashers] [SpecCodec] [ScaleErrors] {rpc : Rpc} {chain : Chain} {h : Bytes32}

omit [StorageHashers] [SpecCodec] [ScaleErrors] in
theorem orderHead_eq
    (hhead : rpc "chain_getBlockHash" [] = .ok (.string (Chain.hashText h))) :
    orderHead rpc = .ok (Chain.hashText h) := by
  have hbytes : hexDecode (Chain.hashText h) = .ok h.toList := hexDecode_hexEncode h.toList
  simp [orderHead, headText, hhead, Value.asStr, bind, Except.bind, hbytes, Except.mapError, pure,
    Except.pure]

omit [ScaleErrors] in
theorem walkHead_eq (hnames : NamesApart) (hreadable : (chain h).MempoolReadable)
    (hhonest : rpc.Honest chain) (hanswers : rpc.Answers h)
    (hhead : rpc "chain_getBlockHash" [] = .ok (.string (Chain.hashText h))) {fuel : Nat}
    (hfuel : (chain h).orderKeys.length < orderPageSize * fuel) :
    walkHead rpc fuel = .ok (some (Chain.hashText h, (chain h).orderIds, (chain h).number)) := by
  have hsorted : (chain h).orderKeys.Pairwise (· < ·) := hreadable.sorted.filter _
  have hwalk : walkOrders rpc (Chain.hashText h) fuel none = .ok (some (chain h).orderIds) := by
    rw [← orderIds_eq hnames hreadable.fits]
    exact walkOrders_beyond hhonest hanswers hsorted fuel none hfuel
  obtain ⟨header, hheader⟩ := Except.isOk_iff_exists.mp (hanswers _ _ .header)
  have hnumber := parseBlockNumber_hexNumber hreadable.number (hhonest.header h header hheader)
  simp [walkHead, orderHead_eq hhead, hwalk, hheader, hnumber, bind, Except.bind, pure,
    Except.pure]

end

namespace Sample

def bidOrder : JobOrderScale where
  specId := Vector.replicate 32 1
  proposer := Vector.replicate 32 2
  isingParams := ⟨[0, 1], [(0, 1)], [0, 1000], [1000], some (-500), none, some 1⟩
  reward := 5
  mode := .bid none (some [0])
  resolution := .singleBest
  timing := ⟨10, 4⟩
  delivery := .onChainOnly
  status := .opened
  createdAt := 100
  firstSolutionAt := none
  solutionCount := 0

def solver : SolverInfoScale where
  account := Vector.replicate 32 9
  solverType := .cpu
  registeredAt := 50
  solutionsSubmitted := 0
  rewardsEarned := 0

def mempoolBlock : StoredBlock where
  number := 105
  specVersion := 118
  storage :=
    [(.jobOrders 3, jobOrder.encode bidOrder),
      (.jobOrders 4, jobOrder.encode { bidOrder with createdAt := 90 }),
      (.solvers solver.account, solverInfo.encode solver)]
  difficultyFor _ := none
  topologyMeta _ := none

theorem mempoolBlock_readable : mempoolBlock.MempoolReadable where
  number := by decide
  sorted := by decide +kernel
  fits := by simp [mempoolBlock, ChainEntry.Fits]
  orders := by
    intro id value hget
    have hdecode : ∀ o ∈ [bidOrder, { bidOrder with createdAt := 90 }],
        (jobOrder.decode (jobOrder.encode o)).isSome = true := by
      decide +kernel
    have hmem := mem_storage_of_get hget
    simp only [mempoolBlock, List.mem_cons, List.not_mem_nil, or_false, Prod.mk.injEq,
      ChainEntry.jobOrders.injEq, reduceCtorEq, false_and] at hmem
    obtain ⟨-, rfl⟩ | ⟨-, rfl⟩ := hmem
    · exact hdecode _ (by simp)
    · exact hdecode _ (by simp)
  solvers := by
    intro account value hget
    have hdecode : (solverInfo.decode (solverInfo.encode solver)).isSome = true := by
      decide +kernel
    have hmem := mem_storage_of_get hget
    simp only [mempoolBlock, List.mem_cons, List.not_mem_nil, or_false, Prod.mk.injEq,
      reduceCtorEq, false_and, false_or] at hmem
    obtain ⟨-, rfl⟩ := hmem
    exact hdecode

theorem mempoolBlock_honest (h : Bytes32) :
    (endpoint mempoolBlock h).Honest fun _ => mempoolBlock := by
  apply endpoint_honest
  · simp [mempoolBlock, ChainEntry.Fits]
  · exact fun _ => rfl
  · exact fun _ => rfl
  · exact (difficultyConfig.optional.canonical [0] none [] (by decide)).1
  · exact (topologyMeta.optional.canonical [0] none [] (by decide)).1

end Sample

section
variable [StorageHashers] [SpecCodec] [ScaleErrors]

/-- A fetch at a head that some validator answers for hands out each order of the block that is
open, not expired and open to the account, and no other, each once: whichever validators answer its
pages, they leave no order out and give none twice. The registered type that is kept stays that of
the block. -/
theorem mempool_orders_exact (hnames : NamesApart) {v : Validators} {chain : Chain}
    (hhonest : ∀ url ∈ v.urls, (v.transport url).Honest chain) {h : Bytes32}
    (hhead : v.rpcCall "chain_getBlockHash" [] = .ok (.string (Chain.hashText h)))
    (hanswers : ∃ url ∈ v.urls, (v.transport url).Answers h)
    (hreadable : (chain h).MempoolReadable) {cache : RegisteredSolver}
    (hcache : cache.At (chain h)) {fuel : Nat}
    (hfuel : (chain h).orderKeys.length < orderPageSize * fuel) (account : Bytes32) (nowMs : Nat) :
    ∃ orders cache', fetchMempoolOrders v.rpcCall fuel account nowMs cache =
        some (.ok orders, cache') ∧
      RegisteredSolver.At cache' (chain h) ∧ (orders.map (·.order.orderId)).Nodup ∧
      ∀ x, x ∈ orders ↔ ∃ id o deadlineMs, (chain h).order id = some o ∧ o.status = .opened ∧
        (chain h).OpenTo account o.mode ∧
        orderDeadlineMs o.createdAt o.firstSolutionAt o.timing (chain h).number nowMs =
          some deadlineMs ∧
        x = openOrder id o deadlineMs := by
  obtain ⟨url, hurl, hurl_answers⟩ := hanswers
  have hrpc : v.rpcCall.Honest chain := honest_rpcCall hhonest
  have hall : v.rpcCall.Answers h := answers_rpcCall hurl hurl_answers
  have hids : ∀ id ∈ (chain h).orderIds, id < 2 ^ 64 :=
    fun id hid => fits_of_mem_orderIds hreadable hid
  obtain ⟨cache', hcache', htake⟩ := takeOrders_spec hreadable hrpc hall nowMs hids hcache
  refine ⟨(chain h).orderIds.filterMap ((chain h).offered account nowMs), cache', ?_, hcache',
    nodup_offered hreadable account nowMs, ?_⟩
  · rw [fetchMempoolOrders, walkHead_eq hnames hreadable hrpc hall hhead hfuel]
    dsimp only
    rw [htake]
  · intro x
    rw [List.mem_filterMap]
    constructor
    · rintro ⟨id, -, hx⟩
      obtain ⟨o, deadlineMs, hrest⟩ := offered_eq_some.mp hx
      exact ⟨id, o, deadlineMs, hrest⟩
    · rintro ⟨id, o, deadlineMs, ho, hrest⟩
      exact ⟨id, mem_orderIds_of_order ho, offered_eq_some.mpr ⟨o, deadlineMs, ho, hrest⟩⟩

end

namespace Sample

def orderValidators : Validators where
  urls := ["away", "near"]
  transport url := if url = "away" then fun _ _ => .error (.unavailable url)
    else endpoint mempoolBlock solver.account

theorem orderValidators_honest :
    ∀ url ∈ orderValidators.urls, (orderValidators.transport url).Honest fun _ => mempoolBlock := by
  intro url hurl
  by_cases haway : url = "away"
  · simp only [orderValidators, haway, if_true]
    constructor <;> (intros; contradiction)
  · simp only [orderValidators, haway, if_false]
    exact mempoolBlock_honest solver.account

end Sample

open Sample in
theorem mempool_orders_exact_bid :
    ∃ orders cache, fetchMempoolOrders orderValidators.rpcCall 1 solver.account 0 none =
      some (.ok orders, cache) ∧ openOrder 3 bidOrder 30000 ∈ orders := by
  have hhead : orderValidators.rpcCall "chain_getBlockHash" [] =
      .ok (.string (Chain.hashText solver.account)) := by
    rfl
  have hanswers : ∃ url ∈ orderValidators.urls,
      (orderValidators.transport url).Answers solver.account :=
    ⟨"near", by simp [orderValidators], endpoint_answers mempoolBlock solver.account solver.account⟩
  have hcache : RegisteredSolver.At none mempoolBlock := Slot.valid_none _
  have hfuel : mempoolBlock.orderKeys.length < orderPageSize * 1 := by decide +kernel
  obtain ⟨orders, cache, hfetch, -, -, hmem⟩ :=
    mempool_orders_exact namesApart orderValidators_honest hhead hanswers mempoolBlock_readable
      hcache hfuel solver.account 0
  refine ⟨orders, cache, hfetch, (hmem _).mpr ⟨3, bidOrder, 30000, ?_, rfl, ?_, ?_, rfl⟩⟩
  · decide +kernel
  · decide +kernel
  · decide +kernel

end QuipCoordinator
