import QuipCoordinator.FoundationHex
import QuipCoordinator.ListSource

/-!
# The nonce text of a list

The reader of a nonce slices the text by its bytes and hands each slice of two to the
integer parser. A slice that cuts a character is a panic, and the parser takes a plus
sign for a high digit. So a nonce text is read as its 64 digits exactly when no slice
the reader comes to cuts a character and a text of 32 readable slices has no sign.
-/

namespace QuipCoordinator
namespace NonceText

def invalidDigit : String := "invalid digit found in string"

/-- The slices of two bytes, from a boundary on. A slice that cuts a character panics. -/
def hexSlices : List Char → Option (Except String Bytes)
  | [] => some (.ok [])
  | [a] => if a.utf8Size = 2 then some (.error invalidDigit) else none
  | a :: b :: rest =>
    -- the slice is one character of two bytes
    if a.utf8Size = 2 then some (.error invalidDigit)
    else if a.utf8Size = 1 ∧ b.utf8Size = 1 then
      match ListSource.hexByte a b with
      | none => some (.error invalidDigit)
      | some byte => (hexSlices rest).map (Except.map (byte :: ·))
    else none

def byteLength (s : List Char) : Nat := (s.map Char.utf8Size).sum

def hexToBytes (hex : String) : Option (Except String Bytes) :=
  let hex := ListSource.trim hex.toList
  if byteLength hex % 2 ≠ 0 then some (.error "odd-length hex string") else hexSlices hex

theorem size_of_length {bytes : Bytes} (h : bytes.length = 32) : bytes.toArray.size = 32 := by
  rw [List.size_toArray, h]

def toNonce (bytes : Bytes) : Except String Bytes32 :=
  if h : bytes.length = 32 then .ok ⟨bytes.toArray, size_of_length h⟩
  else .error s!"nonce must decode to 32 bytes, got {bytes.length}"

/-- `none` is the panic. -/
def decodeNonceHex (hex : String) : Option (Except String Bytes32) :=
  (hexToBytes hex).map (·.bind toNonce)

/-! ## What the reader takes -/

/-- The integer parser takes a digit, or a plus sign, and a digit. -/
def Readable (a b : Char) : Prop := (a = '+' ∨ Hex.IsDigit a) ∧ Hex.IsDigit b
deriving Decidable

def PairsRead : List Char → Prop
  | [] => True
  | [_] => False
  | a :: b :: rest => Readable a b ∧ PairsRead rest

instance decidablePairsRead : DecidablePred PairsRead
  | [] => isTrue trivial
  | [_] => isFalse id
  | a :: b :: rest =>
    have := decidablePairsRead rest
    inferInstanceAs (Decidable (Readable a b ∧ PairsRead rest))

def CutsNext : List Char → Prop
  | [] => False
  | [a] => a.utf8Size ≠ 2
  | a :: b :: _ => a.utf8Size ≠ 2 ∧ ¬(a.utf8Size = 1 ∧ b.utf8Size = 1)

instance : DecidablePred CutsNext
  | [] => isFalse id
  | [a] => inferInstanceAs (Decidable (a.utf8Size ≠ 2))
  | a :: b :: _ =>
    inferInstanceAs (Decidable (a.utf8Size ≠ 2 ∧ ¬(a.utf8Size = 1 ∧ b.utf8Size = 1)))

/-- After readable slices comes one that cuts a character. -/
def Cuts (s : List Char) : Prop :=
  ∃ front rest, s = front ++ rest ∧ PairsRead front ∧ CutsNext rest

def unsign (c : Char) : Char := if c = '+' then '0' else c

theorem hexByte_eq (a b : Char) : ListSource.hexByte a b =
    (Hex.value (unsign a)).bind fun high =>
      (Hex.value b).map fun low => UInt8.ofNat (16 * high + low) := by
  unfold ListSource.hexByte unsign
  by_cases h : a = '+'
  · rw [if_pos h, if_pos h]
    change (Hex.value b).bind _ = (Hex.value b).map _
    cases Hex.value b <;> rfl
  · rw [if_neg h, if_neg h]
    change (Hex.value a).bind _ = _
    cases Hex.value a with
    | none => rfl
    | some high =>
      change (Hex.value b).bind _ = (Hex.value b).map _
      cases Hex.value b <;> rfl

theorem utf8Size_of_ascii {c : Char} (h : c.toNat < 128) : c.utf8Size = 1 := by
  have := String.length_utf8EncodeChar c
  rw [Hex.utf8EncodeChar_ascii h] at this
  exact this.symm

theorem utf8Size_of_isDigit {c : Char} (h : Hex.IsDigit c) : c.utf8Size = 1 :=
  utf8Size_of_ascii (Hex.toNat_lt_of_isDigit h)

theorem unsign_of_isDigit {c : Char} (h : Hex.IsDigit c) : unsign c = c := by
  unfold unsign
  split_ifs with hc
  · rw [hc] at h
    exact absurd h (by decide)
  · rfl

theorem isDigit_unsign {c : Char} (h : c = '+' ∨ Hex.IsDigit c) : Hex.IsDigit (unsign c) := by
  rcases h with rfl | hdigit
  · decide
  · rw [unsign_of_isDigit hdigit]
    exact hdigit

theorem hexByte_of_readable {a b : Char} (h : Readable a b) :
    ∃ high low, Hex.value (unsign a) = some high ∧ Hex.value b = some low ∧
      ListSource.hexByte a b = some (UInt8.ofNat (16 * high + low)) := by
  obtain ⟨high, ha⟩ := Option.isSome_iff_exists.mp (isDigit_unsign h.1)
  obtain ⟨low, hb⟩ := Option.isSome_iff_exists.mp h.2
  refine ⟨high, low, ha, hb, ?_⟩
  rw [hexByte_eq, ha, hb]
  rfl

theorem hexByte_eq_none {a b : Char} (h : ¬Readable a b) : ListSource.hexByte a b = none := by
  rw [hexByte_eq]
  by_cases hb : Hex.IsDigit b
  · have hsign : a ≠ '+' := fun ha => h ⟨Or.inl ha, hb⟩
    have hvalue : Hex.value a = none :=
      Option.not_isSome_iff_eq_none.mp fun ha => h ⟨Or.inr ha, hb⟩
    rw [unsign, if_neg hsign, hvalue, Option.bind_none]
  · rw [Option.not_isSome_iff_eq_none.mp hb]
    cases Hex.value (unsign a) <;> rfl

theorem sizes_of_readable {a b : Char} (h : Readable a b) : a.utf8Size = 1 ∧ b.utf8Size = 1 := by
  refine ⟨?_, utf8Size_of_isDigit h.2⟩
  rcases h.1 with rfl | hdigit
  · rfl
  · exact utf8Size_of_isDigit hdigit

theorem map_unsign {s : List Char} (h : '+' ∉ s) : s.map unsign = s := by
  have hid : ∀ c ∈ s, unsign c = id c := by
    intro c hc
    have hne : c ≠ '+' := fun heq => h (heq ▸ hc)
    exact if_neg hne
  rw [List.map_congr_left hid, List.map_id]

theorem hexSlices_singleton (a : Char) :
    hexSlices [a] = if CutsNext [a] then none else some (.error invalidDigit) := by
  by_cases h : a.utf8Size = 2
  · rw [hexSlices, if_pos h, if_neg fun hcut : CutsNext [a] => hcut h]
  · have hcut : CutsNext [a] := h
    rw [hexSlices, if_neg h, if_pos hcut]

theorem hexSlices_of_readable {a b : Char} {byte : UInt8} (h : Readable a b)
    (hbyte : ListSource.hexByte a b = some byte) (rest : List Char) :
    hexSlices (a :: b :: rest) = (hexSlices rest).map (Except.map (byte :: ·)) := by
  have hsizes := sizes_of_readable h
  rw [hexSlices, if_neg (by omega), if_pos hsizes, hbyte]

/-- The first slice that is not readable stops the reader. -/
theorem hexSlices_of_not_readable {a b : Char} (h : ¬Readable a b) (rest : List Char) :
    hexSlices (a :: b :: rest) =
      if CutsNext (a :: b :: rest) then none else some (.error invalidDigit) := by
  rw [hexSlices]
  by_cases hsize : a.utf8Size = 2
  · rw [if_pos hsize, if_neg fun hcut => hcut.1 hsize]
  · rw [if_neg hsize]
    by_cases hsizes : a.utf8Size = 1 ∧ b.utf8Size = 1
    · rw [if_pos hsizes, if_neg fun hcut => hcut.2 hsizes, hexByte_eq_none h]
    · rw [if_neg hsizes, if_pos ⟨hsize, hsizes⟩]

theorem hexSlices_eq_ok {s : List Char} {bytes : Bytes} :
    hexSlices s = some (.ok bytes) ↔ PairsRead s ∧ Hex.decode (s.map unsign) = some bytes := by
  induction s using List.twoStepInduction generalizing bytes with
  | nil => simp [hexSlices, PairsRead, Hex.decode]
  | singleton a =>
    rw [hexSlices_singleton]
    split_ifs <;> simp [PairsRead]
  | cons_cons a b rest ih _ =>
    by_cases hreadable : Readable a b
    · obtain ⟨high, low, ha, hb, hbyte⟩ := hexByte_of_readable hreadable
      rw [hexSlices_of_readable hreadable hbyte, List.map_cons, List.map_cons, Hex.decode, ha,
        unsign_of_isDigit hreadable.2, hb]
      simp only [PairsRead, hreadable, true_and, Option.bind_eq_bind, Option.bind_some]
      constructor
      · intro hslices
        obtain ⟨r, hr, hmap⟩ := Option.map_eq_some_iff.mp hslices
        cases r with
        | error e => cases hmap
        | ok tail =>
          cases hmap
          obtain ⟨hpairs, hdecode⟩ := ih.mp hr
          rw [hdecode]
          exact ⟨hpairs, rfl⟩
      · rintro ⟨hpairs, hdecode⟩
        obtain ⟨tail, htail, heq⟩ := Option.bind_eq_some_iff.mp hdecode
        rw [ih.mpr ⟨hpairs, htail⟩]
        exact congrArg (fun l => some (Except.ok l)) (Option.some.inj heq)
    · rw [hexSlices_of_not_readable hreadable]
      split_ifs <;> simp [PairsRead, hreadable]

/-- Where it does not panic the reader takes characters two at a time. -/
theorem hexPairs_of_hexSlices {s : List Char} {r : Except String Bytes} (h : hexSlices s = some r) :
    ListSource.hexPairs s = r := by
  induction s using List.twoStepInduction generalizing r with
  | nil =>
    cases h
    rfl
  | singleton a =>
    rw [hexSlices_singleton] at h
    split_ifs at h
    cases h
    rfl
  | cons_cons a b rest ih _ =>
    by_cases hreadable : Readable a b
    · obtain ⟨high, low, -, -, hbyte⟩ := hexByte_of_readable hreadable
      rw [hexSlices_of_readable hreadable hbyte] at h
      obtain ⟨tail, htail, hmap⟩ := Option.map_eq_some_iff.mp h
      rw [ListSource.hexPairs, hbyte, ih htail, ← hmap]
      cases tail <;> rfl
    · rw [hexSlices_of_not_readable hreadable] at h
      split_ifs at h
      cases h
      rw [ListSource.hexPairs, hexByte_eq_none hreadable]
      rfl

theorem cuts_nil : ¬Cuts [] := by
  rintro ⟨front, rest, heq, -, hcut⟩
  rw [(List.append_eq_nil_iff.mp heq.symm).2] at hcut
  exact hcut

theorem cuts_singleton (a : Char) : Cuts [a] ↔ CutsNext [a] := by
  constructor
  · rintro ⟨front, rest, heq, hpairs, hcut⟩
    cases front with
    | nil =>
      cases heq
      exact hcut
    | cons c front =>
      obtain ⟨rfl, hnil⟩ := List.cons.inj heq
      rw [(List.append_eq_nil_iff.mp hnil.symm).1] at hpairs
      exact hpairs.elim
  · exact fun h => ⟨[], [a], rfl, trivial, h⟩

theorem cuts_cons (a b : Char) (rest : List Char) :
    Cuts (a :: b :: rest) ↔ CutsNext (a :: b :: rest) ∨ Readable a b ∧ Cuts rest := by
  constructor
  · rintro ⟨front, tail, heq, hpairs, hcut⟩
    cases front with
    | nil =>
      cases heq
      exact Or.inl hcut
    | cons c front =>
      cases front with
      | nil => exact hpairs.elim
      | cons d front =>
        obtain ⟨ha, hrest⟩ := List.cons.inj heq
        obtain ⟨hb, hrest⟩ := List.cons.inj hrest
        rw [ha, hb]
        exact Or.inr ⟨hpairs.1, front, tail, hrest, hpairs.2, hcut⟩
  · rintro (hcut | ⟨hbyte, front, tail, rfl, hpairs, hcut⟩)
    · exact ⟨[], _, rfl, trivial, hcut⟩
    · exact ⟨a :: b :: front, tail, rfl, ⟨hbyte, hpairs⟩, hcut⟩

theorem hexSlices_eq_none {s : List Char} : hexSlices s = none ↔ Cuts s := by
  induction s using List.twoStepInduction with
  | nil =>
    refine iff_of_false ?_ cuts_nil
    intro h
    cases h
  | singleton a =>
    rw [hexSlices_singleton, cuts_singleton]
    simp
  | cons_cons a b rest ih _ =>
    rw [cuts_cons]
    by_cases hreadable : Readable a b
    · obtain ⟨high, low, -, -, hbyte⟩ := hexByte_of_readable hreadable
      have hnext : ¬CutsNext (a :: b :: rest) := fun hcut => hcut.2 (sizes_of_readable hreadable)
      rw [hexSlices_of_readable hreadable hbyte, Option.map_eq_none_iff, ih]
      simp only [hnext, hreadable, true_and, false_or]
    · rw [hexSlices_of_not_readable hreadable]
      simp [hreadable]

theorem byteLength_of_pairsRead {s : List Char} (h : PairsRead s) :
    byteLength s = s.length ∧ s.length % 2 = 0 := by
  induction s using List.twoStepInduction with
  | nil => exact ⟨rfl, rfl⟩
  | singleton a => exact h.elim
  | cons_cons a b rest ih _ =>
    obtain ⟨ha, hb⟩ := sizes_of_readable h.1
    obtain ⟨hsize, heven⟩ := ih h.2
    simp only [byteLength, List.map_cons, List.sum_cons, ha, hb, List.length_cons] at hsize ⊢
    omega

theorem pairsRead_of_isDigit {s : List Char} (heven : s.length % 2 = 0)
    (h : ∀ c ∈ s, Hex.IsDigit c) : PairsRead s := by
  induction s using List.twoStepInduction with
  | nil => trivial
  | singleton a => cases heven
  | cons_cons a b rest ih _ =>
    obtain ⟨ha, hrest⟩ := List.forall_mem_cons.mp h
    obtain ⟨hb, hrest⟩ := List.forall_mem_cons.mp hrest
    refine ⟨⟨Or.inr ha, hb⟩, ih ?_ hrest⟩
    rw [List.length_cons, List.length_cons] at heven
    omega

theorem decode_unsign_of_pairsRead {s : List Char} (h : PairsRead s) :
    ∃ bytes, Hex.decode (s.map unsign) = some bytes := by
  induction s using List.twoStepInduction with
  | nil => exact ⟨[], rfl⟩
  | singleton a => exact h.elim
  | cons_cons a b rest ih _ =>
    obtain ⟨high, low, ha, hb, -⟩ := hexByte_of_readable h.1
    obtain ⟨tail, htail⟩ := ih h.2
    rw [List.map_cons, List.map_cons, Hex.decode, ha, unsign_of_isDigit h.1.2, hb, htail]
    exact ⟨_, rfl⟩

/-! ## The nonce -/

theorem toNonce_eq_ok {bytes : Bytes} {nonce : Bytes32} :
    toNonce bytes = .ok nonce ↔ bytes = nonce.toList := by
  unfold toNonce
  constructor
  · intro h
    split_ifs at h
    cases h
    rfl
  · intro h
    have hlength : bytes.length = 32 := by
      rw [h]
      exact Vector.length_toList
    rw [dif_pos hlength]
    congr 1
    apply Vector.toList_inj.mp
    exact h

theorem decodeNonceHex_eq_none {hex : String} :
    decodeNonceHex hex = none ↔ byteLength (ListSource.trim hex.toList) % 2 = 0 ∧
      Cuts (ListSource.trim hex.toList) := by
  rw [decodeNonceHex, Option.map_eq_none_iff, hexToBytes]
  by_cases heven : byteLength (ListSource.trim hex.toList) % 2 = 0
  · simp only [heven, ne_eq, not_true_eq_false, if_false, true_and]
    exact hexSlices_eq_none
  · simp [heven]

/-- A text is taken for a nonce when it is 32 readable slices. -/
theorem decodeNonceHex_eq_ok {hex : String} {nonce : Bytes32} :
    decodeNonceHex hex = some (.ok nonce) ↔ PairsRead (ListSource.trim hex.toList) ∧
      Hex.decode ((ListSource.trim hex.toList).map unsign) = some nonce.toList := by
  rw [← hexSlices_eq_ok, decodeNonceHex, Option.map_eq_some_iff, hexToBytes]
  by_cases heven : byteLength (ListSource.trim hex.toList) % 2 = 0
  · simp only [heven, ne_eq, not_true_eq_false, if_false]
    constructor
    · rintro ⟨r, hr, hbind⟩
      cases r with
      | error e => cases hbind
      | ok bytes =>
        change toNonce bytes = _ at hbind
        rw [toNonce_eq_ok] at hbind
        rw [hr, hbind]
    · intro h
      refine ⟨_, h, ?_⟩
      change toNonce nonce.toList = _
      rw [toNonce_eq_ok]
  · simp only [heven, ne_eq, not_false_eq_true, if_true]
    refine iff_of_false ?_ ?_
    · rintro ⟨r, hr, hbind⟩
      cases hr
      cases hbind
    · intro h
      rw [hexSlices_eq_ok] at h
      obtain ⟨hsize, hlength⟩ := byteLength_of_pairsRead h.1
      exact heven (by omega)

theorem decodeNonceHex_eq_some {hex : String} {r : Except String Bytes32}
    (h : decodeNonceHex hex = some r) : ListSource.decodeNonceHex hex = r := by
  obtain ⟨bytes, hbytes, rfl⟩ := Option.map_eq_some_iff.mp h
  have hread : ListSource.hexToBytes hex = bytes := by
    unfold hexToBytes byteLength at hbytes
    unfold ListSource.hexToBytes
    by_cases hodd : ((ListSource.trim hex.toList).map Char.utf8Size).sum % 2 ≠ 0
    · rw [if_pos hodd] at hbytes
      rw [if_pos hodd]
      exact Option.some.inj hbytes
    · rw [if_neg hodd] at hbytes
      rw [if_neg hodd]
      exact hexPairs_of_hexSlices hbytes
  rw [ListSource.decodeNonceHex, hread]
  rfl

def IsNonce (s : List Char) : Prop := s.length = 64 ∧ ∀ c ∈ s, Hex.IsDigit c

def NonceExact (hex : String) : Prop :=
  ∃ r, decodeNonceHex hex = some r ∧ ∀ nonce, r = .ok nonce ↔
    IsNonce (ListSource.trim hex.toList) ∧
      Hex.decode (ListSource.trim hex.toList) = some nonce.toList

/-- No slice the reader comes to cuts a character, and 32 readable slices have no sign. -/
def NonceClean (hex : String) : Prop :=
  let s := ListSource.trim hex.toList
  ¬(byteLength s % 2 = 0 ∧ Cuts s) ∧ ¬(PairsRead s ∧ s.length = 64 ∧ '+' ∈ s)

theorem plus_notMem_of_isNonce {s : List Char} (h : IsNonce s) : '+' ∉ s := by
  intro hplus
  exact absurd (h.2 '+' hplus) (by decide)

theorem decodeNonceHex_of_isNonce {hex : String} {nonce : Bytes32}
    (h : IsNonce (ListSource.trim hex.toList))
    (hvalue : Hex.decode (ListSource.trim hex.toList) = some nonce.toList) :
    decodeNonceHex hex = some (.ok nonce) := by
  rw [decodeNonceHex_eq_ok, map_unsign (plus_notMem_of_isNonce h)]
  exact ⟨pairsRead_of_isDigit (by rw [h.1]) h.2, hvalue⟩

theorem isNonce_of_decodeNonceHex {hex : String} {nonce : Bytes32}
    (h : decodeNonceHex hex = some (.ok nonce)) (hplus : '+' ∉ ListSource.trim hex.toList) :
    IsNonce (ListSource.trim hex.toList) ∧
      Hex.decode (ListSource.trim hex.toList) = some nonce.toList := by
  rw [decodeNonceHex_eq_ok, map_unsign hplus] at h
  obtain ⟨-, hvalue⟩ := h
  have hlength := Hex.length_of_decode hvalue
  rw [Vector.length_toList] at hlength
  exact ⟨⟨hlength, (Hex.decode_isSome_iff.mp (by rw [hvalue]; rfl)).2⟩, hvalue⟩

/-- A text of 32 readable slices is taken, signs and all. -/
theorem exists_nonce_of_pairsRead {hex : String} (h : PairsRead (ListSource.trim hex.toList))
    (hlength : (ListSource.trim hex.toList).length = 64) :
    ∃ nonce, decodeNonceHex hex = some (.ok nonce) := by
  obtain ⟨bytes, hbytes⟩ := decode_unsign_of_pairsRead h
  have hbyteCount := Hex.length_of_decode hbytes
  rw [List.length_map, hlength] at hbyteCount
  have hsize : bytes.toArray.size = 32 := by
    rw [List.size_toArray]
    omega
  refine ⟨⟨bytes.toArray, hsize⟩, ?_⟩
  rw [decodeNonceHex_eq_ok]
  exact ⟨h, hbytes⟩

theorem nonceExact_iff (hex : String) : NonceExact hex ↔ NonceClean hex := by
  constructor
  · rintro ⟨r, hr, hexact⟩
    refine ⟨?_, ?_⟩
    · intro hcut
      rw [← decodeNonceHex_eq_none, hr] at hcut
      cases hcut
    · rintro ⟨hpairs, hlength, hplus⟩
      obtain ⟨nonce, hnonce⟩ := exists_nonce_of_pairsRead hpairs hlength
      rw [hr, Option.some.injEq] at hnonce
      exact plus_notMem_of_isNonce ((hexact nonce).mp hnonce).1 hplus
  · rintro ⟨hcut, hsign⟩
    rw [← decodeNonceHex_eq_none, ← ne_eq, Option.ne_none_iff_exists'] at hcut
    obtain ⟨r, hr⟩ := hcut
    refine ⟨r, hr, fun nonce => ⟨?_, ?_⟩⟩
    · rintro rfl
      apply isNonce_of_decodeNonceHex hr
      intro hplus
      rw [decodeNonceHex_eq_ok] at hr
      obtain ⟨hpairs, hvalue⟩ := hr
      have hlength := Hex.length_of_decode hvalue
      rw [List.length_map, Vector.length_toList] at hlength
      exact hsign ⟨hpairs, hlength, hplus⟩
    · rintro ⟨hnonce, hvalue⟩
      have hok := decodeNonceHex_of_isNonce hnonce hvalue
      rw [hr, Option.some.injEq] at hok
      exact hok

end NonceText
end QuipCoordinator
