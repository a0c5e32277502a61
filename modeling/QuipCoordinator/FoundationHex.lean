import Mathlib.Data.List.Basic
import Mathlib.Data.List.Induction
import Mathlib.Tactic.IntervalCases

/-!
# Hexadecimal text

A byte is two digits, the high one first. The writer uses lower-case letters and the
reader takes both cases, so reading back what was written gives the bytes, and
writing what was read gives the text in lower case. In UTF-8 only an ASCII character
is one byte; every other character starts with a byte that is no digit.
-/

namespace Hex

def value (c : Char) : Option Nat :=
  if '0' ≤ c ∧ c ≤ '9' then some (c.toNat - 48)
  else if 'a' ≤ c ∧ c ≤ 'f' then some (c.toNat - 87)
  else if 'A' ≤ c ∧ c ≤ 'F' then some (c.toNat - 55)
  else none

def digitChar (n : Nat) : Char :=
  if n < 10 then Char.ofNat (48 + n) else Char.ofNat (87 + n)

def encode (bytes : List UInt8) : List Char :=
  bytes.flatMap fun b => [digitChar (b.toNat / 16), digitChar (b.toNat % 16)]

def decode : List Char → Option (List UInt8)
  | [] => some []
  | [_] => none
  | a :: b :: rest => do
    let high ← value a
    let low ← value b
    let bytes ← decode rest
    pure (UInt8.ofNat (16 * high + low) :: bytes)

def IsDigit (c : Char) : Prop := (value c).isSome = true

instance (c : Char) : Decidable (IsDigit c) := inferInstanceAs (Decidable (_ = true))

theorem toNat_lt_of_isDigit {c : Char} (h : IsDigit c) : c.toNat < 128 := by
  unfold IsDigit value at h
  split_ifs at h with hd hl hu
  · exact Nat.lt_of_le_of_lt hd.2 (by decide)
  · exact Nat.lt_of_le_of_lt hl.2 (by decide)
  · exact Nat.lt_of_le_of_lt hu.2 (by decide)
  · cases h

theorem value_wide {c : Char} (h : 128 ≤ c.toNat) : value c = none := by
  by_contra hne
  have := toNat_lt_of_isDigit (Option.isSome_iff_ne_none.mpr hne)
  omega

theorem value_digitChar {n : Nat} (h : n < 16) : value (digitChar n) = some n := by
  interval_cases n <;> decide

theorem digitChar_value {c : Char} {n : Nat} (h : value c = some n) :
    n < 16 ∧ digitChar n = c.toLower := by
  have hascii : c.toNat < 128 := toNat_lt_of_isDigit (by simp [IsDigit, h])
  have hall : ∀ m < 128, ((value (Char.ofNat m)).all fun n =>
      decide (n < 16 ∧ digitChar n = (Char.ofNat m).toLower)) = true := by decide
  have hc := hall c.toNat hascii
  rw [Char.ofNat_toNat, h] at hc
  exact of_decide_eq_true hc

theorem decode_encode (bytes : List UInt8) : decode (encode bytes) = some bytes := by
  induction bytes with
  | nil => rfl
  | cons b bytes ih =>
    have hb := b.toNat_lt
    have hsum : 16 * (b.toNat / 16) + b.toNat % 16 = b.toNat := by omega
    change decode (digitChar (b.toNat / 16) :: digitChar (b.toNat % 16) :: encode bytes) = _
    simp only [decode, value_digitChar (show b.toNat / 16 < 16 by omega),
      value_digitChar (show b.toNat % 16 < 16 by omega), ih, hsum, Option.bind_eq_bind,
      Option.bind_some, UInt8.ofNat_toNat, Option.pure_def]

theorem encode_of_decode {s : List Char} {bytes : List UInt8} (h : decode s = some bytes) :
    encode bytes = s.map Char.toLower := by
  induction s using List.twoStepInduction generalizing bytes with
  | nil =>
    cases h
    rfl
  | singleton c => cases h
  | cons_cons a b rest ih _ =>
    simp only [decode, Option.bind_eq_bind, Option.bind_eq_some_iff] at h
    obtain ⟨high, ha, low, hb, rest', hrest, heq⟩ := h
    cases heq
    obtain ⟨hhigh, hca⟩ := digitChar_value ha
    obtain ⟨hlow, hcb⟩ := digitChar_value hb
    have hbyte : (UInt8.ofNat (16 * high + low)).toNat = 16 * high + low := by
      rw [UInt8.toNat_ofNat']
      omega
    have hdiv : (16 * high + low) / 16 = high := by omega
    have hmod : (16 * high + low) % 16 = low := by omega
    rw [encode, List.flatMap_cons, hbyte, hdiv, hmod, hca, hcb]
    exact congrArg (a.toLower :: b.toLower :: ·) (ih hrest)

theorem length_of_decode {s : List Char} {bytes : List UInt8} (h : decode s = some bytes) :
    s.length = 2 * bytes.length := by
  have hlength := congrArg List.length (encode_of_decode h)
  have hencode : (encode bytes).length = 2 * bytes.length := by
    simp [encode, List.length_flatMap]
    omega
  rw [hencode, List.length_map] at hlength
  exact hlength.symm

theorem decode_isSome_iff {s : List Char} :
    (decode s).isSome = true ↔ s.length % 2 = 0 ∧ ∀ c ∈ s, IsDigit c := by
  induction s using List.twoStepInduction with
  | nil => simp [decode]
  | singleton c => simp [decode]
  | cons_cons a b rest ih _ =>
    have hlength : (a :: b :: rest).length % 2 = rest.length % 2 := by
      simp only [List.length_cons]
      omega
    rw [hlength, List.forall_mem_cons, List.forall_mem_cons, decode]
    constructor
    · intro h
      obtain ⟨bytes, hbytes⟩ := Option.isSome_iff_exists.mp h
      simp only [Option.bind_eq_bind, Option.bind_eq_some_iff] at hbytes
      obtain ⟨high, ha, low, hb, rest', hrest, -⟩ := hbytes
      obtain ⟨heven, hdigits⟩ := ih.mp (by simp [hrest])
      exact ⟨heven, by simp [IsDigit, ha], by simp [IsDigit, hb], hdigits⟩
    · rintro ⟨heven, ha, hb, hdigits⟩
      obtain ⟨high, ha⟩ := Option.isSome_iff_exists.mp ha
      obtain ⟨low, hb⟩ := Option.isSome_iff_exists.mp hb
      obtain ⟨bytes, hrest⟩ := Option.isSome_iff_exists.mp (ih.mpr ⟨heven, hdigits⟩)
      simp [ha, hb, hrest]

/-! ## The bytes of a text -/

def utf8 (s : List Char) : List UInt8 := s.flatMap String.utf8EncodeChar

theorem utf8EncodeChar_ascii {c : Char} (h : c.toNat < 128) :
    String.utf8EncodeChar c = [UInt8.ofNat c.toNat] := by
  rw [String.utf8EncodeChar]
  exact if_pos (Nat.lt_succ_iff.mp h)

theorem utf8EncodeChar_wide {c : Char} (h : 128 ≤ c.toNat) :
    ∃ b c₂ rest, String.utf8EncodeChar c = b :: c₂ :: rest ∧ 128 ≤ b.toNat := by
  have hv : ¬c.val.toNat ≤ 0x7f := Nat.not_le.mpr h
  rw [String.utf8EncodeChar]
  simp only [if_neg hv]
  split_ifs
  · exact ⟨_, _, _, rfl, by rw [UInt8.toNat_ofNat']; omega⟩
  · exact ⟨_, _, _, rfl, by rw [UInt8.toNat_ofNat']; omega⟩
  · exact ⟨_, _, _, rfl, by rw [UInt8.toNat_ofNat']; omega⟩

theorem length_utf8_of_isDigit {s : List Char} (h : ∀ c ∈ s, IsDigit c) :
    (utf8 s).length = s.length := by
  induction s with
  | nil => rfl
  | cons c s ih =>
    obtain ⟨hc, hs⟩ := List.forall_mem_cons.mp h
    rw [utf8, List.flatMap_cons, utf8EncodeChar_ascii (toNat_lt_of_isDigit hc), List.length_append,
      ← utf8, ih hs, List.length_singleton, List.length_cons, Nat.add_comm]

end Hex
