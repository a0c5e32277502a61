import QuipCoordinator.Confirmations
import QuipCoordinator.FoundationFallible
import QuipCoordinator.FoundationHex

/-!
# Hex text and storage keys

The node and the coordinator exchange bytes as hex text. `hexDecode` drops one `0x`
and reads the bytes of the rest in pairs, so a character outside ASCII is one more
byte that is no digit. A key of the order map is its prefix, the hash of the order
id and the id itself. The hashers of the node are parameters.
-/

namespace QuipCoordinator

-- `strip_prefix("0x").unwrap_or(s)`
def stripHexPrefix (s : String) : List Char :=
  match s.toList with
  | '0' :: 'x' :: rest => rest
  | chars => chars

def decodeNibble (byte : UInt8) : Except String UInt8 :=
  if 48 ≤ byte ∧ byte ≤ 57 then .ok (byte - 48)
  else if 97 ≤ byte ∧ byte ≤ 102 then .ok (byte - 97 + 10)
  else if 65 ≤ byte ∧ byte ≤ 70 then .ok (byte - 65 + 10)
  else .error "invalid hex digit"

-- `as_chunks::<2>`, without the rest
def decodePairs : Bytes → Except String Bytes
  | high :: low :: rest => do
    let h ← decodeNibble high
    let l ← decodeNibble low
    let bytes ← decodePairs rest
    pure ((h <<< 4 ||| l) :: bytes)
  | _ => .ok []

def hexDecode (s : String) : Except String Bytes :=
  let bytes := Hex.utf8 (stripHexPrefix s)
  if bytes.length % 2 ≠ 0 then .error s!"odd-length hex ({bytes.length} digits)"
  else decodePairs bytes

theorem hexEncode_eq (bytes : Bytes) : hexEncode bytes = "0x" ++ String.ofList (Hex.encode bytes) :=
  rfl

theorem decodeNibble_ascii {c : Char} (h : c.toNat < 128) :
    (decodeNibble (UInt8.ofNat c.toNat)).toOption = (Hex.value c).map UInt8.ofNat := by
  have hall : ∀ m < 128, (decodeNibble (UInt8.ofNat m)).toOption =
      (Hex.value (Char.ofNat m)).map UInt8.ofNat := by decide
  have hc := hall c.toNat h
  rwa [Char.ofNat_toNat] at hc

theorem decodeNibble_high {b : UInt8} (h : 128 ≤ b.toNat) :
    decodeNibble b = .error "invalid hex digit" := by
  unfold decodeNibble
  simp only [UInt8.le_iff_toNat_le]
  have h₁ : ¬(b.toNat ≤ 57) := by omega
  have h₂ : ¬(b.toNat ≤ 102) := by omega
  have h₃ : ¬(b.toNat ≤ 70) := by omega
  simp [h₁, h₂, h₃]

theorem nibbles_eq {high low : Nat} (hh : high < 16) (hl : low < 16) :
    UInt8.ofNat high <<< 4 ||| UInt8.ofNat low = UInt8.ofNat (16 * high + low) := by
  have hall : ∀ high < 16, ∀ low < 16,
      UInt8.ofNat high <<< 4 ||| UInt8.ofNat low = UInt8.ofNat (16 * high + low) := by decide
  exact hall high hh low hl

theorem decodePairs_of_high {b : UInt8} (h : 128 ≤ b.toNat) (a : UInt8) (rest bytes : Bytes) :
    decodePairs (b :: a :: rest) ≠ .ok bytes ∧ decodePairs (a :: b :: rest) ≠ .ok bytes := by
  constructor
  · rw [decodePairs, decodeNibble_high h]
    exact nofun
  · rw [decodePairs, decodeNibble_high h]
    intro hok
    obtain ⟨_, -, hok⟩ := Except.bind_eq_ok.mp hok
    exact nomatch hok

theorem decodePairs_ascii {a b : Char} (ha : a.toNat < 128) (hb : b.toNat < 128)
    {rest bytes : Bytes} :
    decodePairs (UInt8.ofNat a.toNat :: UInt8.ofNat b.toNat :: rest) = .ok bytes ↔
      ∃ high low tail, Hex.value a = some high ∧ Hex.value b = some low ∧
        decodePairs rest = .ok tail ∧ bytes = UInt8.ofNat (16 * high + low) :: tail := by
  have hna := decodeNibble_ascii ha
  have hnb := decodeNibble_ascii hb
  rw [decodePairs]
  constructor
  · intro h
    obtain ⟨x, hx, h⟩ := Except.bind_eq_ok.mp h
    obtain ⟨y, hy, h⟩ := Except.bind_eq_ok.mp h
    obtain ⟨tail, htail, h⟩ := Except.bind_eq_ok.mp h
    cases h
    rw [hx] at hna
    rw [hy] at hnb
    obtain ⟨high, hhigh, rfl⟩ := Option.map_eq_some_iff.mp hna.symm
    obtain ⟨low, hlow, rfl⟩ := Option.map_eq_some_iff.mp hnb.symm
    refine ⟨high, low, tail, hhigh, hlow, htail, ?_⟩
    rw [nibbles_eq (Hex.digitChar_value hhigh).1 (Hex.digitChar_value hlow).1]
  · rintro ⟨high, low, tail, hhigh, hlow, htail, rfl⟩
    rw [hhigh] at hna
    rw [hlow] at hnb
    rw [Except.toOption_eq_some.mp hna, Except.toOption_eq_some.mp hnb, htail]
    change Except.ok _ = _
    rw [nibbles_eq (Hex.digitChar_value hhigh).1 (Hex.digitChar_value hlow).1]

theorem decodePairs_utf8 {s : List Char} {bytes : Bytes} (heven : (Hex.utf8 s).length % 2 = 0) :
    decodePairs (Hex.utf8 s) = .ok bytes ↔ Hex.decode s = some bytes := by
  induction s using List.twoStepInduction generalizing bytes with
  | nil =>
    change Except.ok [] = Except.ok bytes ↔ some [] = some bytes
    simp
  | singleton c =>
    by_cases hc : c.toNat < 128
    · rw [Hex.utf8, List.flatMap_singleton, Hex.utf8EncodeChar_ascii hc] at heven
      cases heven
    · obtain ⟨b, d, rest, henc, hb⟩ := Hex.utf8EncodeChar_wide (Nat.not_lt.mp hc)
      rw [Hex.utf8, List.flatMap_singleton, henc, Hex.decode]
      refine iff_of_false (decodePairs_of_high hb d rest bytes).1 ?_
      intro h
      cases h
  | cons_cons a b rest ih _ =>
    by_cases ha : a.toNat < 128
    · by_cases hb : b.toNat < 128
      · have hutf8 : Hex.utf8 (a :: b :: rest) =
            UInt8.ofNat a.toNat :: UInt8.ofNat b.toNat :: Hex.utf8 rest := by
          rw [Hex.utf8, List.flatMap_cons, List.flatMap_cons, Hex.utf8EncodeChar_ascii ha,
            Hex.utf8EncodeChar_ascii hb]
          rfl
        have hrest : (Hex.utf8 rest).length % 2 = 0 := by
          rw [hutf8, List.length_cons, List.length_cons] at heven
          omega
        rw [hutf8, decodePairs_ascii ha hb, Hex.decode]
        simp only [ih hrest, Option.bind_eq_bind, Option.bind_eq_some_iff]
        constructor
        · rintro ⟨high, low, tail, hhigh, hlow, htail, rfl⟩
          exact ⟨high, hhigh, low, hlow, tail, htail, rfl⟩
        · rintro ⟨high, hhigh, low, hlow, tail, htail, h⟩
          exact ⟨high, low, tail, hhigh, hlow, htail, (Option.some.inj h).symm⟩
      · obtain ⟨x, y, more, henc, hx⟩ := Hex.utf8EncodeChar_wide (Nat.not_lt.mp hb)
        rw [Hex.utf8, List.flatMap_cons, List.flatMap_cons, Hex.utf8EncodeChar_ascii ha, henc,
          Hex.decode, Hex.value_wide (Nat.not_lt.mp hb)]
        refine iff_of_false (decodePairs_of_high hx _ _ bytes).2 ?_
        intro h
        cases ha : Hex.value a with
        | none =>
          rw [ha] at h
          cases h
        | some high =>
          rw [ha] at h
          cases h
    · obtain ⟨x, y, more, henc, hx⟩ := Hex.utf8EncodeChar_wide (Nat.not_lt.mp ha)
      rw [Hex.utf8, List.flatMap_cons, henc, Hex.decode, Hex.value_wide (Nat.not_lt.mp ha)]
      refine iff_of_false (decodePairs_of_high hx _ _ bytes).1 ?_
      intro h
      cases h

theorem hexDecode_eq_ok_iff {s : String} {bytes : Bytes} :
    hexDecode s = .ok bytes ↔ Hex.decode (stripHexPrefix s) = some bytes := by
  rw [hexDecode]
  by_cases heven : (Hex.utf8 (stripHexPrefix s)).length % 2 = 0
  · simp only [heven, ne_eq, not_true_eq_false, if_false]
    exact decodePairs_utf8 heven
  · simp only [heven, ne_eq, not_false_eq_true, if_true]
    refine iff_of_false nofun ?_
    intro h
    have hdigits := Hex.decode_isSome_iff.mp (by rw [h]; rfl)
    exact heven (by rw [Hex.length_utf8_of_isDigit hdigits.2]; exact hdigits.1)

theorem stripHexPrefix_hexEncode (bytes : Bytes) :
    stripHexPrefix (hexEncode bytes) = Hex.encode bytes := by
  have hchars : (hexEncode bytes).toList = '0' :: 'x' :: Hex.encode bytes := by
    simp [hexEncode_eq]
  simp only [stripHexPrefix, hchars]

theorem size_toArray_of_length {bytes : Bytes} (h : bytes.length = 32) :
    bytes.toArray.size = 32 := by
  rw [List.size_toArray, h]

class StorageHashers where
  twox128 : Bytes → Vector UInt8 16
  blake2128 : Bytes → Vector UInt8 16

section Keys
variable [StorageHashers]
open StorageHashers

def mapPrefixLen : Nat := 32
def blakeHashLen : Nat := 16

def jobOrdersPrefix : Bytes :=
  (twox128 "QuantumComputeMempool".toUTF8.toList).toList ++
    (twox128 "JobOrders".toUTF8.toList).toList

def jobOrdersStorageKey (orderId : Nat) : Bytes :=
  let encodedId := toLeBytes 8 orderId
  (twox128 "QuantumComputeMempool".toUTF8.toList).toList ++
    (twox128 "JobOrders".toUTF8.toList).toList ++ (blake2128 encodedId).toList ++ encodedId

def orderIdFromKey (key : Bytes) : Option Nat :=
  let want := mapPrefixLen + blakeHashLen + 8
  if key.length ≠ want ∨ ¬jobOrdersPrefix.isPrefixOf key then none
  else some (Codec.ofLe (key.drop (want - 8)))

theorem length_jobOrdersPrefix : jobOrdersPrefix.length = 32 := by
  simp [jobOrdersPrefix]

theorem orderIdFromKey_storageKey {id : Nat} (h : id < 2 ^ 64) :
    orderIdFromKey (jobOrdersStorageKey id) = some id := by
  have hkey : jobOrdersStorageKey id =
      (jobOrdersPrefix ++ (blake2128 (toLeBytes 8 id)).toList) ++ toLeBytes 8 id := rfl
  have hfront : (jobOrdersPrefix ++ (blake2128 (toLeBytes 8 id)).toList).length = 48 := by
    simp [length_jobOrdersPrefix]
  have hlength : (jobOrdersStorageKey id).length = 56 := by
    rw [hkey, List.length_append, hfront, length_toLeBytes]
  have hprefix : jobOrdersPrefix.isPrefixOf (jobOrdersStorageKey id) = true := by
    rw [hkey, List.append_assoc]
    exact List.isPrefixOf_iff_prefix.mpr (List.prefix_append _ _)
  have htail : (jobOrdersStorageKey id).drop 48 = toLeBytes 8 id := by
    rw [hkey]
    exact List.drop_left' hfront
  rw [orderIdFromKey]
  simp only [mapPrefixLen, blakeHashLen, hlength, hprefix, ne_eq, not_true_eq_false, or_self,
    if_false, Nat.reduceAdd, Nat.reduceSub, htail]
  rw [toLeBytes_eq_toLe, Codec.ofLe_toLe (by norm_num; exact h)]

theorem key_of_orderIdFromKey {key : Bytes} {id : Nat} (h : orderIdFromKey key = some id) :
    key.length = 56 ∧ jobOrdersPrefix <+: key := by
  rw [orderIdFromKey] at h
  split_ifs at h with hbad
  push Not at hbad
  exact ⟨hbad.1, List.isPrefixOf_iff_prefix.mp (by simpa using hbad.2)⟩

/-- Reading back what was written gives the bytes. A text is read exactly when it is an even number
of digits after at most one `0x`, and then its bytes are written as its digits in lower case. The
key of an order gives its id back, and only a key of the map under its prefix gives one. -/
theorem hex_and_keys_round_trip :
    (∀ bytes : Bytes, hexDecode (hexEncode bytes) = .ok bytes) ∧
    (∀ s : String, (∃ bytes, hexDecode s = .ok bytes) ↔
      (stripHexPrefix s).length % 2 = 0 ∧ ∀ c ∈ stripHexPrefix s, Hex.IsDigit c) ∧
    (∀ (s : String) (bytes : Bytes), hexDecode s = .ok bytes →
      hexEncode bytes = "0x" ++ String.ofList ((stripHexPrefix s).map Char.toLower)) ∧
    (∀ id < 2 ^ 64, orderIdFromKey (jobOrdersStorageKey id) = some id) ∧
    ∀ (key : Bytes) (id : Nat), orderIdFromKey key = some id →
      key.length = 56 ∧ jobOrdersPrefix <+: key := by
  refine ⟨?_, ?_, ?_, fun _ h => orderIdFromKey_storageKey h, fun _ _ h => key_of_orderIdFromKey h⟩
  · intro bytes
    rw [hexDecode_eq_ok_iff, stripHexPrefix_hexEncode, Hex.decode_encode]
  · intro s
    simp only [hexDecode_eq_ok_iff, ← Option.isSome_iff_exists, Hex.decode_isSome_iff]
  · intro s bytes h
    rw [hexEncode_eq, Hex.encode_of_decode (hexDecode_eq_ok_iff.mp h)]

end Keys
end QuipCoordinator
