import QuipCoordinator.FoundationCursor
import QuipCoordinator.FoundationJson
import QuipCoordinator.ScaleTypes
import QuipCoordinator.StorageLayout

/-!
# Reading the chain through the validators

A call goes to the validators in their order and the first answer counts. Each
validator answers for the blocks that it knows and may fail at any call, and two of
them may see different heads. A read that names its block gets what that block holds,
whichever validator answers, so the calls of the client are those of one honest
endpoint, and one validator that answers is enough.
-/

namespace QuipCoordinator
open Json Scale

/-- An endpoint: what it answers to a method with its parameters. -/
abbrev Rpc := String → List Value → Except ChainError Value

class ScaleErrors where
  decodeError : Bytes → String

structure Validators where
  urls : List String
  transport : String → Rpc

namespace Validators
variable (v : Validators)

def noValidators : ChainError := .unavailable "no validators configured"

/-- The first answer with the url that gave it, else the last failure. -/
def tryFrom (method : String) (params : List Value) :
    List String → Option ChainError → Except ChainError (String × Value)
  | [], last => .error (last.getD noValidators)
  | url :: urls, _ =>
    match v.transport url method params with
    | .ok value => .ok (url, value)
    | .error e => tryFrom method params urls (some e)

def rpcCall : Rpc := fun method params => (v.tryFrom method params v.urls none).map Prod.snd

theorem tryFrom_ok {method : String} {params : List Value} {urls : List String}
    {last : Option ChainError} {url : String} {value : Value}
    (h : v.tryFrom method params urls last = .ok (url, value)) :
    url ∈ urls ∧ v.transport url method params = .ok value := by
  induction urls generalizing last with
  | nil => cases h
  | cons u urls ih =>
    rw [tryFrom] at h
    split at h
    · rename_i heq
      cases h
      exact ⟨List.mem_cons_self, heq⟩
    · obtain ⟨hmem, heq⟩ := ih h
      exact ⟨List.mem_cons_of_mem _ hmem, heq⟩

theorem isOk_tryFrom {method : String} {params : List Value} {urls : List String}
    {url : String} (hurl : url ∈ urls) (h : (v.transport url method params).isOk = true)
    (last : Option ChainError) : (v.tryFrom method params urls last).isOk = true := by
  induction urls generalizing last with
  | nil => cases hurl
  | cons u urls ih =>
    rw [tryFrom]
    split
    · rfl
    · rename_i e heq
      apply ih
      rcases List.mem_cons.mp hurl with rfl | hmem
      · rw [heq] at h
        cases h
      · exact hmem

theorem rpcCall_ok {method : String} {params : List Value} {value : Value}
    (h : v.rpcCall method params = .ok value) :
    ∃ url ∈ v.urls, v.transport url method params = .ok value := by
  unfold rpcCall at h
  cases htry : v.tryFrom method params v.urls none with
  | error e =>
    rw [htry] at h
    cases h
  | ok p =>
    rw [htry] at h
    cases h
    obtain ⟨hmem, heq⟩ := v.tryFrom_ok htry
    exact ⟨p.1, hmem, heq⟩

theorem isOk_rpcCall {method : String} {params : List Value} {url : String} (hurl : url ∈ v.urls)
    (h : (v.transport url method params).isOk = true) : (v.rpcCall method params).isOk = true := by
  have htry := v.isOk_tryFrom hurl h none
  unfold rpcCall
  cases heq : v.tryFrom method params v.urls none with
  | error e =>
    rw [heq] at htry
    cases htry
  | ok p => rfl

end Validators

/-! ## Numbers in answers -/

def hexStep (n : Nat) (c : Char) : Except String Nat :=
  match Hex.value c with
  | none => .error "invalid digit found in string"
  | some d =>
    if n * 16 + d < 2 ^ 64 then .ok (n * 16 + d)
    else .error "number too large to fit in target type"

def parseHexU64 : List Char → Except String Nat
  | [] => .error "cannot parse integer from empty string"
  | ['+'] => .error "invalid digit found in string"
  | '+' :: digits => digits.foldlM hexStep 0
  | digits => digits.foldlM hexStep 0

def parseBlockNumber (header : Value) : Except ChainError Nat :=
  match header.get "number" with
  | none => .error (.decode "header missing number")
  | some number =>
    match number.asU64 with
    | some n => .ok n
    | none =>
      match number.asStr with
      | some s => (parseHexU64 (stripHexPrefix s)).mapError .decode
      | none => .error (.decode "header.number unparseable")

def parseSpecVersion (rv : Value) : Except ChainError Nat :=
  match (rv.get "specVersion").bind Value.asU64 with
  | none => .error (.decode "runtime specVersion missing/not a u64")
  | some n => if n < 2 ^ 32 then .ok n else .error (.decode "specVersion exceeds u32")

def hexNumber (n : Nat) : String := "0x" ++ String.ofList (Nat.toDigits 16 n)

theorem value_digitChar {d : Nat} (h : d < 16) : Hex.value d.digitChar = some d := by
  have hall : ∀ d < 16, Hex.value (Nat.digitChar d) = some d := by decide
  exact hall d h

theorem foldlM_hexStep_toDigits (n : Nat) (h : n < 2 ^ 64) :
    (Nat.toDigits 16 n).foldlM hexStep 0 = .ok n := by
  induction n using Nat.strongRecOn with
  | _ n ih =>
    by_cases hn : n < 16
    · rw [Nat.toDigits_of_lt_base hn]
      simp only [List.foldlM_cons, List.foldlM_nil, hexStep, value_digitChar hn]
      rw [if_pos (by omega)]
      simp [bind, Except.bind, pure, Except.pure]
    · have hsplit := Nat.toDigits_of_base_le (by omega : 1 < 16) (Nat.not_lt.mp hn)
      rw [hsplit, List.foldlM_append, ih (n / 16) (by omega) (by omega)]
      simp only [bind, Except.bind, List.foldlM_cons, List.foldlM_nil, hexStep,
        value_digitChar (Nat.mod_lt n (by omega : 16 > 0))]
      rw [if_pos (by omega)]
      have hdiv : n / 16 * 16 + n % 16 = n := by omega
      simp [pure, Except.pure, hdiv]

theorem stripHexPrefix_hexNumber (n : Nat) :
    stripHexPrefix (hexNumber n) = Nat.toDigits 16 n := by
  unfold stripHexPrefix hexNumber
  simp

/-- A plus sign is no digit. -/
theorem foldlM_hexStep_plus (digits : List Char) :
    ('+' :: digits).foldlM hexStep 0 = .error "invalid digit found in string" := by
  have hplus : Hex.value '+' = none := by decide
  simp [hexStep, hplus, bind, Except.bind]

theorem parseHexU64_toDigits {n : Nat} (h : n < 2 ^ 64) :
    parseHexU64 (Nat.toDigits 16 n) = .ok n := by
  have hfold := foldlM_hexStep_toDigits n h
  unfold parseHexU64
  split
  · exact absurd ‹_› Nat.toDigits_ne_nil
  · rename_i heq
    rw [heq, foldlM_hexStep_plus] at hfold
    cases hfold
  · rename_i digits _ heq
    rw [heq, foldlM_hexStep_plus] at hfold
    cases hfold
  · exact hfold

theorem parseBlockNumber_hexNumber {header : Value} {n : Nat} (hn : n < 2 ^ 64)
    (h : header.get "number" = some (.string (hexNumber n))) : parseBlockNumber header = .ok n := by
  unfold parseBlockNumber
  rw [h]
  change (parseHexU64 (stripHexPrefix (hexNumber n))).mapError ChainError.decode = _
  rw [stripHexPrefix_hexNumber, parseHexU64_toDigits hn]
  rfl

theorem parseSpecVersion_number {rv : Value} {n : Nat} (hn : n < 2 ^ 32)
    (h : rv.get "specVersion" = some (.number (.ofInt n))) : parseSpecVersion rv = .ok n := by
  have hu64 : Value.asU64 (.number (.ofInt n)) = some n := by
    simp only [Value.asU64, Number.ofInt, Int.toNat_natCast]
    rw [if_pos (by omega)]
    simp only [Number.asU64, UInt64.toNat_ofNat']
    rw [Nat.mod_eq_of_lt (by omega)]
  simp only [parseSpecVersion, h, Option.bind_some, hu64]
  exact if_pos hn

/-! ## Blocks -/

/-- A block with its storage in the order of the keys, and what the runtime answers at it. -/
structure StoredBlock where
  number : Nat
  specVersion : Nat
  storage : List (ChainEntry × Bytes)
  difficultyFor : Bytes32 → Option DifficultyConfig
  topologyMeta : Bytes32 → Option TopologyMetaScale

namespace StoredBlock
variable (b : StoredBlock)

def get (e : ChainEntry) : Option Bytes := b.storage.lookup e

def read {α : Type} (c : Codec α) (e : ChainEntry) : Option α :=
  (b.get e).bind fun value => (c.decode value).map Prod.fst

def defaultTopology : Option Bytes32 := b.read h256 .defaultTopology

variable [StorageHashers]

def keys : List Bytes := b.storage.map (·.1.key)

end StoredBlock

abbrev Chain := Bytes32 → StoredBlock

def Chain.hashText (h : Bytes32) : String := hexEncode h.toList

def storedValue : Option Bytes → Value
  | none => .null
  | some value => .string (hexEncode value)

def difficultyMethod : String := "QuantumPowApi_difficulty_for"

def topologyMethod : String := "QuantumPowApi_topology_meta"

def pageParams (pre : Bytes) (count : Nat) (start : Option Bytes) (at' : String) : List Value :=
  [.string (hexEncode pre), .number (.ofInt count), storedValue start, .string at']

section
variable [StorageHashers] [SpecCodec]

/-- What an endpoint answers, where it answers, is what the block that the call names holds. A page
is the first keys with the prefix that come after the start key. -/
structure Rpc.Honest (rpc : Rpc) (chain : Chain) : Prop where
  head : ∀ v, rpc "chain_getBlockHash" [] = .ok v → ∃ h, v = .string (Chain.hashText h)
  header : ∀ h v, rpc "chain_getHeader" [.string (Chain.hashText h)] = .ok v →
    v.get "number" = some (.string (hexNumber (chain h).number))
  runtimeVersion : ∀ h v, rpc "state_getRuntimeVersion" [.string (Chain.hashText h)] = .ok v →
    v.get "specVersion" = some (.number (.ofInt (chain h).specVersion))
  storage : ∀ h (e : ChainEntry) v, e.Fits →
    rpc "state_getStorage" [.string (hexEncode e.key), .string (Chain.hashText h)] = .ok v →
    v = storedValue ((chain h).get e)
  keysPaged : ∀ h pre count start v, count ≤ 1000 →
    rpc "state_getKeysPaged" (pageParams pre count start (Chain.hashText h)) = .ok v →
    v = .array ((Cursor.page (· < ·) ((chain h).keys.filter (pre <+: ·)) count start).map
      fun key => .string (hexEncode key))
  difficulty : ∀ h hash v,
    rpc "state_call" [.string difficultyMethod, .string (hexEncode hash.toList),
      .string (Chain.hashText h)] = .ok v →
    ∃ bytes, v = .string (hexEncode bytes) ∧
      difficultyConfig.optional.decode bytes = some ((chain h).difficultyFor hash, [])
  topology : ∀ h hash v,
    rpc "state_call" [.string topologyMethod, .string (hexEncode hash.toList),
      .string (Chain.hashText h)] = .ok v →
    ∃ bytes, v = .string (hexEncode bytes) ∧
      topologyMeta.optional.decode bytes = some ((chain h).topologyMeta hash, [])

inductive PinnedCall (h : Bytes32) : String → List Value → Prop
  | header : PinnedCall h "chain_getHeader" [.string (Chain.hashText h)]
  | runtimeVersion : PinnedCall h "state_getRuntimeVersion" [.string (Chain.hashText h)]
  | storage (e : ChainEntry) : e.Fits →
    PinnedCall h "state_getStorage" [.string (hexEncode e.key), .string (Chain.hashText h)]
  | keysPaged (pre : Bytes) (count : Nat) (start : Option Bytes) : count ≤ 1000 →
    PinnedCall h "state_getKeysPaged" (pageParams pre count start (Chain.hashText h))
  | difficulty (hash : Bytes32) :
    PinnedCall h "state_call" [.string difficultyMethod, .string (hexEncode hash.toList),
      .string (Chain.hashText h)]
  | topology (hash : Bytes32) :
    PinnedCall h "state_call" [.string topologyMethod, .string (hexEncode hash.toList),
      .string (Chain.hashText h)]

def Rpc.Answers (rpc : Rpc) (h : Bytes32) : Prop :=
  ∀ method params, PinnedCall h method params → (rpc method params).isOk = true

/-- Honest validators make one honest endpoint. -/
theorem honest_rpcCall {v : Validators} {chain : Chain}
    (h : ∀ url ∈ v.urls, (v.transport url).Honest chain) : v.rpcCall.Honest chain where
  head value hcall := by
    obtain ⟨url, hurl, hanswer⟩ := v.rpcCall_ok hcall
    exact (h url hurl).head value hanswer
  header block value hcall := by
    obtain ⟨url, hurl, hanswer⟩ := v.rpcCall_ok hcall
    exact (h url hurl).header block value hanswer
  runtimeVersion block value hcall := by
    obtain ⟨url, hurl, hanswer⟩ := v.rpcCall_ok hcall
    exact (h url hurl).runtimeVersion block value hanswer
  storage block e value he hcall := by
    obtain ⟨url, hurl, hanswer⟩ := v.rpcCall_ok hcall
    exact (h url hurl).storage block e value he hanswer
  keysPaged block pre count start value hcount hcall := by
    obtain ⟨url, hurl, hanswer⟩ := v.rpcCall_ok hcall
    exact (h url hurl).keysPaged block pre count start value hcount hanswer
  difficulty block hash value hcall := by
    obtain ⟨url, hurl, hanswer⟩ := v.rpcCall_ok hcall
    exact (h url hurl).difficulty block hash value hanswer
  topology block hash value hcall := by
    obtain ⟨url, hurl, hanswer⟩ := v.rpcCall_ok hcall
    exact (h url hurl).topology block hash value hanswer

omit [SpecCodec] in
theorem answers_rpcCall {v : Validators} {h : Bytes32} {url : String} (hurl : url ∈ v.urls)
    (hanswers : (v.transport url).Answers h) : v.rpcCall.Answers h := by
  intro method params hcall
  exact v.isOk_rpcCall hurl (hanswers method params hcall)

end

/-! ## Readers -/

section
variable [ScaleErrors] (rpc : Rpc)
open ScaleErrors

def headText : Except ChainError String := do
  let head ← rpc "chain_getBlockHash" []
  match head.asStr with
  | some text => pure text
  | none => throw (.decode "chain_getBlockHash not a string")

def decodeAnswer {α : Type} (c : Codec α) (text : String) : Except ChainError α := do
  let bytes ← (hexDecode text).mapError ChainError.decode
  match c.decode bytes with
  | some (a, _) => pure a
  | none => throw (.decode (decodeError bytes))

def readStorage {α : Type} (c : Codec α) (key : Bytes) (at' : String) :
    Except ChainError (Option α) := do
  let raw ← rpc "state_getStorage" [.string (hexEncode key), .string at']
  match raw.asStr with
  | none => pure none
  | some text => some <$> decodeAnswer c text

def quantumPowCallByHash {α : Type} (c : Codec α) (method : String) (hash : Bytes32)
    (at' : String) : Except ChainError (Option α) := do
  let result ← rpc "state_call"
    [.string method, .string (hexEncode hash.toList), .string at']
  match result.asStr with
  | none => pure none
  | some text => decodeAnswer c.optional text

end

section
variable [StorageHashers] [SpecCodec] [ScaleErrors] {rpc : Rpc} {chain : Chain} {h : Bytes32}

omit [StorageHashers] [SpecCodec] in
theorem decodeAnswer_hexEncode {α : Type} (c : Codec α) (bytes : Bytes) :
    decodeAnswer c (hexEncode bytes) =
      match c.decode bytes with
      | some (a, _) => .ok a
      | none => .error (.decode (ScaleErrors.decodeError bytes)) := by
  have hhex : hexDecode (hexEncode bytes) = .ok bytes := by
    rw [hexDecode_eq_ok_iff, stripHexPrefix_hexEncode, Hex.decode_encode]
  rw [decodeAnswer, hhex]
  rfl

theorem readStorage_honest (hhonest : rpc.Honest chain) {α : Type} {c : Codec α} {e : ChainEntry}
    (he : e.Fits) {x : Option α} (hok : readStorage rpc c e.key (Chain.hashText h) = .ok x) :
    x = (chain h).read c e := by
  obtain ⟨raw, hraw, hmatch⟩ := Except.bind_eq_ok.mp hok
  rw [hhonest.storage h e raw he hraw] at hmatch
  unfold StoredBlock.read
  cases hget : (chain h).get e with
  | none =>
    rw [hget] at hmatch
    exact (Except.ok.inj hmatch).symm
  | some value =>
    rw [hget] at hmatch
    change some <$> decodeAnswer c (hexEncode value) = _ at hmatch
    rw [decodeAnswer_hexEncode] at hmatch
    cases hdecode : c.decode value with
    | none =>
      rw [hdecode] at hmatch
      cases hmatch
    | some p =>
      rw [hdecode] at hmatch
      cases hmatch
      simp [hdecode]

def StoredBlock.Readable {α : Type} (b : StoredBlock) (c : Codec α) (e : ChainEntry) : Prop :=
  ∀ value, b.get e = some value → (c.decode value).isSome = true

theorem readStorage_eq (hhonest : rpc.Honest chain) (hanswers : rpc.Answers h) {α : Type}
    {c : Codec α} {e : ChainEntry} (he : e.Fits) (hread : (chain h).Readable c e) :
    readStorage rpc c e.key (Chain.hashText h) = .ok ((chain h).read c e) := by
  obtain ⟨raw, hraw⟩ := Except.isOk_iff_exists.mp (hanswers _ _ (.storage e he))
  have hstored := hhonest.storage h e raw he hraw
  rw [readStorage, hraw, hstored]
  unfold StoredBlock.read
  cases hget : (chain h).get e with
  | none => rfl
  | some value =>
    obtain ⟨p, hp⟩ := Option.isSome_iff_exists.mp (hread value hget)
    change some <$> decodeAnswer c (hexEncode value) = _
    rw [decodeAnswer_hexEncode, hp, Option.bind_some, hp]
    rfl

omit [StorageHashers] [SpecCodec] in
theorem callByHash_of_answer {α : Type} {c : Codec α} {method : String} {hash : Bytes32}
    {at' : String} {bytes : Bytes} {x : Option α}
    (hanswer : rpc "state_call" [.string method, .string (hexEncode hash.toList), .string at'] =
      .ok (.string (hexEncode bytes)))
    (hbytes : c.optional.decode bytes = some (x, [])) :
    quantumPowCallByHash rpc c method hash at' = .ok x := by
  rw [quantumPowCallByHash, hanswer]
  change decodeAnswer c.optional (hexEncode bytes) = _
  rw [decodeAnswer_hexEncode, hbytes]

theorem difficulty_honest (hhonest : rpc.Honest chain) {hash : Bytes32}
    {x : Option DifficultyConfig}
    (hok : quantumPowCallByHash rpc difficultyConfig difficultyMethod hash (Chain.hashText h) =
      .ok x) : x = (chain h).difficultyFor hash := by
  obtain ⟨v, hv, -⟩ := Except.bind_eq_ok.mp hok
  obtain ⟨bytes, rfl, hbytes⟩ := hhonest.difficulty h hash v hv
  rw [callByHash_of_answer hv hbytes] at hok
  exact (Except.ok.inj hok).symm

theorem topology_honest (hhonest : rpc.Honest chain) {hash : Bytes32}
    {x : Option TopologyMetaScale}
    (hok : quantumPowCallByHash rpc topologyMeta topologyMethod hash (Chain.hashText h) =
      .ok x) : x = (chain h).topologyMeta hash := by
  obtain ⟨v, hv, -⟩ := Except.bind_eq_ok.mp hok
  obtain ⟨bytes, rfl, hbytes⟩ := hhonest.topology h hash v hv
  rw [callByHash_of_answer hv hbytes] at hok
  exact (Except.ok.inj hok).symm

theorem difficulty_eq (hhonest : rpc.Honest chain) (hanswers : rpc.Answers h) (hash : Bytes32) :
    quantumPowCallByHash rpc difficultyConfig difficultyMethod hash (Chain.hashText h) =
      .ok ((chain h).difficultyFor hash) := by
  obtain ⟨v, hv⟩ := Except.isOk_iff_exists.mp (hanswers _ _ (.difficulty hash))
  obtain ⟨bytes, rfl, hbytes⟩ := hhonest.difficulty h hash v hv
  exact callByHash_of_answer hv hbytes

theorem topology_eq (hhonest : rpc.Honest chain) (hanswers : rpc.Answers h) (hash : Bytes32) :
    quantumPowCallByHash rpc topologyMeta topologyMethod hash (Chain.hashText h) =
      .ok ((chain h).topologyMeta hash) := by
  obtain ⟨v, hv⟩ := Except.isOk_iff_exists.mp (hanswers _ _ (.topology hash))
  obtain ⟨bytes, rfl, hbytes⟩ := hhonest.topology h hash v hv
  exact callByHash_of_answer hv hbytes

end
namespace Sample

scoped instance scaleErrors : ScaleErrors where
  decodeError _ := "malformed"

def bytesOf (text : String) : Bytes := (hexDecode text).toOption.getD []

theorem bytesOf_hexEncode (bytes : Bytes) : bytesOf (hexEncode bytes) = bytes := by
  have hhex : hexDecode (hexEncode bytes) = .ok bytes := by
    rw [hexDecode_eq_ok_iff, stripHexPrefix_hexEncode, Hex.decode_encode]
  rw [bytesOf, hhex]
  rfl

def endpoint (b : StoredBlock) (h : Bytes32) : Rpc := fun method params =>
  match params with
  | [] => .ok (.string (Chain.hashText h))
  | [_] =>
    .ok (.object [("number", .string (hexNumber b.number)),
      ("specVersion", .number (.ofInt b.specVersion))])
  | [.string key, _] =>
    .ok (storedValue ((b.storage.find? (·.1.key = bytesOf key)).map Prod.snd))
  | [.string method, _, _] =>
    .ok (.string (hexEncode (if method = difficultyMethod
      then difficultyConfig.optional.encode (b.difficultyFor h)
      else topologyMeta.optional.encode (b.topologyMeta h))))
  | [.string pre, .number count, start, _] =>
    .ok (.array ((Cursor.page (· < ·) (b.keys.filter (bytesOf pre <+: ·))
      ((count.asU64).getD 0) (start.asStr.map bytesOf)).map fun key => .string (hexEncode key)))
  | _ => .error (.unavailable method)

theorem find_key {storage : List (ChainEntry × Bytes)} (hfits : ∀ p ∈ storage, p.1.Fits)
    {e : ChainEntry} (he : e.Fits) :
    (storage.find? (·.1.key = e.key)).map Prod.snd = storage.lookup e := by
  induction storage with
  | nil => rfl
  | cons p storage ih =>
    obtain ⟨hp, hrest⟩ := List.forall_mem_cons.mp hfits
    rw [List.find?_cons, List.lookup_cons]
    by_cases h : p.1 = e
    · simp [h]
    · have hkey : p.1.key ≠ e.key := by
        intro heq
        exact h (ChainEntry.key_append_inj namesApart hp he (congrArg (· ++ []) heq)).1
      have hback : (e == p.1) = false := by simpa using Ne.symm h
      simp only [hkey, decide_false, hback]
      exact ih hrest

theorem endpoint_honest {b : StoredBlock} {h : Bytes32} (hfits : ∀ p ∈ b.storage, p.1.Fits)
    (hprice : ∀ hash, b.difficultyFor hash = b.difficultyFor h)
    (hmeta : ∀ hash, b.topologyMeta hash = b.topologyMeta h)
    (hprice_dom : difficultyConfig.optional.dom (b.difficultyFor h))
    (hmeta_dom : topologyMeta.optional.dom (b.topologyMeta h)) :
    (endpoint b h).Honest fun _ => b where
  head v hv := ⟨h, (Except.ok.inj hv).symm⟩
  header h' v hv := by
    rw [← Except.ok.inj hv]
    rfl
  runtimeVersion h' v hv := by
    rw [← Except.ok.inj hv]
    rfl
  storage h' e v he hv := by
    rw [← Except.ok.inj hv, bytesOf_hexEncode, find_key hfits he]
    rfl
  keysPaged h' pre count start v hcount hv := by
    have hasU64 : (Number.ofInt count).asU64 = some count := by
      simp only [Number.ofInt, Int.toNat_natCast]
      rw [if_pos (by omega)]
      simp only [Number.asU64, UInt64.toNat_ofNat']
      rw [Nat.mod_eq_of_lt (by omega)]
    have hstart : (storedValue start).asStr.map bytesOf = start := by
      cases start with
      | none => rfl
      | some key => simp [storedValue, Value.asStr, bytesOf_hexEncode]
    rw [← Except.ok.inj hv, hasU64, hstart, bytesOf_hexEncode]
    rfl
  difficulty h' hash v hv := by
    refine ⟨difficultyConfig.optional.encode (b.difficultyFor h), ?_, ?_⟩
    · rw [← Except.ok.inj hv, if_pos rfl]
    · rw [hprice hash]
      simpa using difficultyConfig.optional.decode_append _ [] hprice_dom
  topology h' hash v hv := by
    refine ⟨topologyMeta.optional.encode (b.topologyMeta h), ?_, ?_⟩
    · rw [← Except.ok.inj hv, if_neg (by decide)]
    · rw [hmeta hash]
      simpa using topologyMeta.optional.decode_append _ [] hmeta_dom

theorem endpoint_answers (b : StoredBlock) (h h' : Bytes32) : (endpoint b h).Answers h' := by
  rintro method params (_ | _ | _ | _ | _ | _) <;> rfl

end Sample

end QuipCoordinator
