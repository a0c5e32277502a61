import QuipCoordinator.FoundationCodec
import Mathlib.Algebra.Order.Ring.Int

/-!
# Codecs of variants

Signed numbers in two's complement, flags, optional values, enumerations and values
after a fixed head. An enumeration is given by the list of its values, and the byte of
a value is its position there. A value after a head is read only where the head stands.
-/

namespace Codec
variable {α β : Type}

/-! ## Signed numbers -/

def toTwos (m : Nat) (z : Int) : Nat := (if 0 ≤ z then z else z + m).toNat

/-- The number of least size with the residue `n` modulo `m`. -/
def ofTwos (m n : Nat) : Int := if 2 * n < m then n else n - m

theorem toTwos_lt {m : Nat} {z : Int} (hlo : -(m : Int) ≤ 2 * z) (hhi : 2 * z < m) :
    toTwos m z < m := by
  unfold toTwos
  split_ifs <;> omega

theorem ofTwos_toTwos {m : Nat} {z : Int} (hlo : -(m : Int) ≤ 2 * z) (hhi : 2 * z < m) :
    ofTwos m (toTwos m z) = z := by
  unfold toTwos ofTwos
  split_ifs <;> omega

theorem ofTwos_range {m n : Nat} (h : n < m) :
    -(m : Int) ≤ 2 * ofTwos m n ∧ 2 * ofTwos m n < m := by
  unfold ofTwos
  split_ifs <;> omega

theorem toTwos_ofTwos {m n : Nat} (h : n < m) : toTwos m (ofTwos m n) = n := by
  unfold ofTwos
  split_ifs with hlow
  · rw [toTwos, if_pos (by omega)]
    omega
  · rw [toTwos, if_neg (by omega)]
    omega

def signed (w : Nat) : Codec Int where
  dom z := -((256 ^ w : Nat) : Int) ≤ 2 * z ∧ 2 * z < (256 ^ w : Nat)
  encode z := toLe w (toTwos (256 ^ w) z)
  decode bytes := (readLe w bytes).map fun r => (ofTwos (256 ^ w) r.1, r.2)
  decode_append := by
    intro z rest h
    rw [readLe_toLe (toTwos_lt h.1 h.2), Option.map_some, ofTwos_toTwos h.1 h.2]
  canonical := by
    intro bytes z rest h
    obtain ⟨⟨n, rest'⟩, hread, heq⟩ := Option.map_eq_some_iff.mp h
    obtain ⟨rfl, rfl⟩ := Prod.mk.inj heq
    obtain ⟨hn, hbytes⟩ := readLe_exact hread
    exact ⟨ofTwos_range hn, by rw [toTwos_ofTwos hn, hbytes]⟩

/-! ## Enumerations -/

def position [DecidableEq α] (values : List α) (a : α) : List UInt8 :=
  [UInt8.ofNat (values.idxOf a)]

def atPosition (values : List α) (bytes : List UInt8) : Option (α × List UInt8) :=
  bytes.head?.bind fun b => values[b.toNat]?.map fun a => (a, bytes.tail)

theorem atPosition_append [DecidableEq α] {values : List α} (hlen : values.length ≤ 256) (a : α)
    (rest : List UInt8) (h : a ∈ values) :
    atPosition values (position values a ++ rest) = some (a, rest) := by
  have hlt : values.idxOf a < values.length := List.idxOf_lt_length_of_mem h
  have hb : (UInt8.ofNat (values.idxOf a)).toNat = values.idxOf a := by
    rw [UInt8.toNat_ofNat']
    omega
  simp only [atPosition, position, List.singleton_append, List.head?_cons, Option.bind_some, hb,
    List.getElem?_eq_getElem hlt, List.getElem_idxOf hlt, Option.map_some, List.tail_cons]

theorem atPosition_canonical [DecidableEq α] {values : List α} (hnodup : values.Nodup)
    (bytes : List UInt8) (a : α) (rest : List UInt8)
    (h : atPosition values bytes = some (a, rest)) :
    a ∈ values ∧ bytes = position values a ++ rest := by
  cases bytes with
  | nil => cases h
  | cons b tail =>
    rw [atPosition, List.head?_cons, Option.bind_some] at h
    obtain ⟨a', hget, heq⟩ := Option.map_eq_some_iff.mp h
    obtain ⟨rfl, rfl⟩ := Prod.mk.inj heq
    obtain ⟨hlt, hat⟩ := List.getElem?_eq_some_iff.mp hget
    have hidx : values.idxOf a' = b.toNat := by
      rw [← hat]
      exact hnodup.idxOf_getElem _ hlt
    refine ⟨List.mem_of_getElem? hget, ?_⟩
    rw [position, hidx, UInt8.ofNat_toNat]
    rfl

def enumeration [DecidableEq α] (values : List α) (hlen : values.length ≤ 256)
    (hnodup : values.Nodup) : Codec α where
  dom a := a ∈ values
  encode := position values
  decode := atPosition values
  decode_append := atPosition_append hlen
  canonical := atPosition_canonical hnodup

def flag : Codec Bool := enumeration [false, true] (by decide) (by decide)

/-! ## Optional values -/

def optional (c : Codec α) : Codec (Option α) where
  dom a := ∀ x, a = some x → c.dom x
  encode
    | none => [0]
    | some a => 1 :: c.encode a
  decode
    | 0 :: rest => some (none, rest)
    | 1 :: rest => (c.decode rest).map fun r => (some r.1, r.2)
    | _ => none
  decode_append := by
    intro a rest h
    cases a with
    | none => rfl
    | some x => simp [c.decode_append x rest (h x rfl)]
  canonical := by
    intro bytes a rest h
    split at h
    · obtain ⟨rfl, rfl⟩ := Prod.mk.inj (Option.some.inj h)
      exact ⟨by simp, rfl⟩
    · obtain ⟨⟨x, rest'⟩, hread, heq⟩ := Option.map_eq_some_iff.mp h
      obtain ⟨rfl, rfl⟩ := Prod.mk.inj heq
      obtain ⟨hdom, hbytes⟩ := c.canonical _ _ _ hread
      exact ⟨by rintro _ ⟨⟩; exact hdom, by rw [hbytes]; rfl⟩
    · cases h

/-! ## Values after their digest -/

/-- A value after a digest of its own bytes. -/
def digested {n : Nat} (digest : List UInt8 → Vector UInt8 n) (c : Codec α) : Codec α where
  dom := c.dom
  encode a := (digest (c.encode a)).toList ++ c.encode a
  decode bytes := do
    let (d, rest) ← (array n).decode bytes
    let (a, rest) ← c.decode rest
    if d = digest (c.encode a) then some (a, rest) else none
  decode_append := by
    intro a rest h
    have hdigest := (array n).decode_append (digest (c.encode a)) (c.encode a ++ rest) trivial
    rw [List.append_assoc]
    refine Option.bind_eq_some_iff.mpr ⟨_, hdigest, ?_⟩
    simp [c.decode_append a rest h]
  canonical := by
    intro bytes a rest h
    obtain ⟨d, rest', -, rfl, hbody⟩ := decode_bind_eq_some.mp h
    obtain ⟨a', rest'', hdom, rfl, htest⟩ := decode_bind_eq_some.mp hbody
    dsimp only at htest
    split_ifs at htest with hd
    obtain ⟨rfl, rfl⟩ := Prod.mk.inj (Option.some.inj htest)
    exact ⟨hdom, by rw [← hd, List.append_assoc]; rfl⟩

/-! ## Tagged values -/

def nothing : Codec Unit where
  dom _ := True
  encode _ := []
  decode bytes := some ((), bytes)
  decode_append := fun _ _ _ => rfl
  canonical := by
    intro bytes a rest h
    obtain ⟨rfl, rfl⟩ := Prod.mk.inj (Option.some.inj h)
    exact ⟨trivial, rfl⟩

section Tagged
variable {ι : Type} {P : ι → Type}

def PrefixFree (head : ι → List UInt8) : Prop := ∀ i j, head i <+: head j → i = j

theorem PrefixFree.eq_of_append {head : ι → List UInt8} (h : PrefixFree head) {i j : ι}
    {bytes : List UInt8} (hi : head i <+: bytes) (hj : head j <+: bytes) : i = j := by
  obtain hle | hle := Nat.le_total (head i).length (head j).length
  · exact h i j (List.prefix_of_prefix_length_le hi hj hle)
  · exact (h j i (List.prefix_of_prefix_length_le hj hi hle)).symm

/-- A value of one of several shapes after the head of its shape. -/
def tagged (kinds : List ι) (hall : ∀ i, i ∈ kinds) (head : ι → List UInt8)
    (hfree : PrefixFree head) (c : ∀ i, Codec (P i)) : Codec (Σ i, P i) where
  dom v := (c v.1).dom v.2
  encode v := head v.1 ++ (c v.1).encode v.2
  decode bytes :=
    (kinds.find? fun i => (head i).isPrefixOf bytes).bind fun i =>
      ((c i).decode (bytes.drop (head i).length)).map fun r => (⟨i, r.1⟩, r.2)
  decode_append := by
    rintro ⟨i, a⟩ rest h
    have hfind : (kinds.find? fun j => (head j).isPrefixOf (head i ++ (c i).encode a ++ rest)) =
        some i := by
      have hi : head i <+: head i ++ (c i).encode a ++ rest := by
        rw [List.append_assoc]
        exact List.prefix_append _ _
      cases hf : kinds.find? fun j => (head j).isPrefixOf (head i ++ (c i).encode a ++ rest) with
      | none =>
        have hnot := List.find?_eq_none.mp hf i (hall i)
        exact absurd (List.isPrefixOf_iff_prefix.mpr hi) hnot
      | some j =>
        have hj : (head j).isPrefixOf (head i ++ (c i).encode a ++ rest) = true := by
          simpa using List.find?_some hf
        rw [hfree.eq_of_append (List.isPrefixOf_iff_prefix.mp hj) hi]
    rw [hfind, Option.bind_some, List.append_assoc, List.drop_left, (c i).decode_append a rest h]
    rfl
  canonical := by
    rintro bytes ⟨i, a⟩ rest h
    obtain ⟨j, hfind, h⟩ := Option.bind_eq_some_iff.mp h
    obtain ⟨⟨b, rest'⟩, hread, heq⟩ := Option.map_eq_some_iff.mp h
    obtain ⟨hv, rfl⟩ := Prod.mk.inj heq
    obtain ⟨rfl, hab⟩ := Sigma.mk.inj hv
    obtain rfl := eq_of_heq hab
    have hhead : (head j).isPrefixOf bytes = true := by simpa using List.find?_some hfind
    obtain ⟨tail, rfl⟩ := List.isPrefixOf_iff_prefix.mp hhead
    rw [List.drop_left] at hread
    obtain ⟨hdom, htail⟩ := (c j).canonical _ _ _ hread
    exact ⟨hdom, by rw [htail, List.append_assoc]⟩

end Tagged
end Codec
