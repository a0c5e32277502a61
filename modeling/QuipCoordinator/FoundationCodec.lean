import Mathlib.Algebra.Group.Nat.Defs
import Mathlib.Data.Nat.Log
import Mathlib.Logic.Equiv.Basic

/-!
# Codecs for byte strings

A codec writes the values of its domain and reads one value off the front of a
byte string. It is exact in both directions: reading what was written gives the
value and the rest, and whatever is read was written so, hence a value has one
encoding. Fixed-width little-endian numbers, compact numbers with a two-bit mode
in the first byte, pairs and sequences with a compact count are built here.
-/

structure Codec (α : Type) where
  dom : α → Prop
  encode : α → List UInt8
  decode : List UInt8 → Option (α × List UInt8)
  decode_append : ∀ a rest, dom a → decode (encode a ++ rest) = some (a, rest)
  canonical : ∀ bytes a rest, decode bytes = some (a, rest) → dom a ∧ bytes = encode a ++ rest

namespace Codec
variable {α β : Type}

theorem decode_eq_some {c : Codec α} {bytes rest : List UInt8} {a : α} :
    c.decode bytes = some (a, rest) ↔ c.dom a ∧ bytes = c.encode a ++ rest := by
  constructor
  · exact c.canonical bytes a rest
  · intro ⟨hdom, hbytes⟩
    rw [hbytes, c.decode_append a rest hdom]

theorem encode_append_inj {c : Codec α} {a b : α} (ha : c.dom a) (hb : c.dom b)
    {rest rest' : List UInt8} (h : c.encode a ++ rest = c.encode b ++ rest') :
    a = b ∧ rest = rest' := by
  have hread := c.decode_append a rest ha
  rw [h, c.decode_append b rest' hb] at hread
  obtain ⟨rfl, rfl⟩ := Prod.mk.inj (Option.some.inj hread)
  exact ⟨rfl, rfl⟩

theorem encode_inj {c : Codec α} {a b : α} (ha : c.dom a) (hb : c.dom b)
    (h : c.encode a = c.encode b) : a = b :=
  (encode_append_inj ha hb (congrArg (· ++ []) h)).1

theorem decode_bind_eq_some {c : Codec α} {bytes : List UInt8} {f : α × List UInt8 → Option β}
    {b : β} : (c.decode bytes >>= f) = some b ↔
      ∃ a rest, c.dom a ∧ bytes = c.encode a ++ rest ∧ f (a, rest) = some b := by
  constructor
  · intro h
    obtain ⟨⟨a, rest⟩, hread, hf⟩ := Option.bind_eq_some_iff.mp h
    obtain ⟨hdom, hbytes⟩ := decode_eq_some.mp hread
    exact ⟨a, rest, hdom, hbytes, hf⟩
  · intro ⟨a, rest, hdom, hbytes, hf⟩
    exact Option.bind_eq_some_iff.mpr ⟨(a, rest), decode_eq_some.mpr ⟨hdom, hbytes⟩, hf⟩

/-! ## Little-endian numbers -/

def toLe : Nat → Nat → List UInt8
  | 0, _ => []
  | w + 1, n => UInt8.ofNat n :: toLe w (n / 256)

def ofLe : List UInt8 → Nat
  | [] => 0
  | b :: bytes => b.toNat + 256 * ofLe bytes

theorem length_toLe (w n : Nat) : (toLe w n).length = w := by
  induction w generalizing n with
  | zero => rfl
  | succ w ih => exact congrArg (· + 1) (ih _)

theorem ofLe_toLe {w n : Nat} (h : n < 256 ^ w) : ofLe (toLe w n) = n := by
  induction w generalizing n with
  | zero =>
    rw [Nat.pow_zero] at h
    exact (Nat.lt_one_iff.mp h).symm
  | succ w ih =>
    have hdiv : n / 256 < 256 ^ w := by
      rw [Nat.div_lt_iff_lt_mul (by decide)]
      exact h
    rw [toLe, ofLe, ih hdiv, UInt8.toNat_ofNat']
    omega

theorem ofLe_lt (bytes : List UInt8) : ofLe bytes < 256 ^ bytes.length := by
  induction bytes with
  | nil => exact Nat.one_pos
  | cons b bytes ih =>
    have hb := b.toNat_lt
    rw [ofLe, List.length_cons, Nat.pow_succ]
    omega

theorem toLe_ofLe (bytes : List UInt8) : toLe bytes.length (ofLe bytes) = bytes := by
  induction bytes with
  | nil => rfl
  | cons b bytes ih =>
    have hb := b.toNat_lt
    have hdiv : (b.toNat + 256 * ofLe bytes) / 256 = ofLe bytes := by omega
    have hmod : UInt8.ofNat (b.toNat + 256 * ofLe bytes) = b := by
      rw [← UInt8.toNat_inj, UInt8.toNat_ofNat']
      omega
    rw [ofLe, List.length_cons, toLe, hdiv, ih, hmod]

def readLe (w : Nat) (bytes : List UInt8) : Option (Nat × List UInt8) :=
  if w ≤ bytes.length then some (ofLe (bytes.take w), bytes.drop w) else none

def littleEndian (w : Nat) : Codec Nat where
  dom n := n < 256 ^ w
  encode := toLe w
  decode := readLe w
  decode_append := by
    intro n rest h
    have hlen := length_toLe w n
    rw [readLe, if_pos (by rw [List.length_append]; omega), List.take_left' hlen,
      List.drop_left' hlen, ofLe_toLe h]
  canonical := by
    intro bytes n rest h
    unfold readLe at h
    split_ifs at h with hlen
    obtain ⟨rfl, rfl⟩ := Prod.mk.inj (Option.some.inj h)
    have htake : (bytes.take w).length = w := List.length_take_of_le hlen
    have hlt := ofLe_lt (bytes.take w)
    have hback := toLe_ofLe (bytes.take w)
    rw [htake] at hlt hback
    exact ⟨hlt, by rw [hback, List.take_append_drop]⟩

/-! ## Compact numbers -/

/-- The mode is in the two low bits of the first byte: one, two or four bytes, or a count of bytes
that follow. -/
def toCompact (n : Nat) : List UInt8 :=
  if n < 2 ^ 6 then toLe 1 (4 * n)
  else if n < 2 ^ 14 then toLe 2 (4 * n + 1)
  else if n < 2 ^ 30 then toLe 4 (4 * n + 2)
  else
    let k := Nat.log 256 n + 1
    UInt8.ofNat (4 * (k - 4) + 3) :: toLe k n

/-- A number is read only in the shortest mode that holds it, and in at most `w` bytes. -/
def readCompact (w : Nat) (bytes : List UInt8) : Option (Nat × List UInt8) :=
  match bytes with
  | [] => none
  | b :: rest =>
    if b.toNat % 4 = 0 then some (b.toNat / 4, rest)
    else if b.toNat % 4 = 1 then
      (readLe 2 bytes).bind fun r => if 2 ^ 6 ≤ r.1 / 4 then some (r.1 / 4, r.2) else none
    else if b.toNat % 4 = 2 then
      (readLe 4 bytes).bind fun r => if 2 ^ 14 ≤ r.1 / 4 then some (r.1 / 4, r.2) else none
    else
      let k := b.toNat / 4 + 4
      if k ≤ w then
        (readLe k rest).bind fun r =>
          if 2 ^ 30 ≤ r.1 ∧ 256 ^ (k - 1) ≤ r.1 then some r else none
      else none

theorem four_le_log {n : Nat} (h : 2 ^ 30 ≤ n) : 4 ≤ Nat.log 256 n + 1 := by
  have h3 : 3 ≤ Nat.log 256 n := by
    refine Nat.le_log_of_pow_le (by decide) ?_
    omega
  omega

theorem readLe_toLe {w n : Nat} (h : n < 256 ^ w) (rest : List UInt8) :
    readLe w (toLe w n ++ rest) = some (n, rest) :=
  (littleEndian w).decode_append n rest h

theorem toNat_ofNat_mod_four (n : Nat) : (UInt8.ofNat n).toNat % 4 = n % 4 := by
  rw [UInt8.toNat_ofNat']
  omega

theorem readCompact_append {w n : Nat} (hw : w ≤ 67) (h : n < 256 ^ w) (rest : List UInt8) :
    readCompact w (toCompact n ++ rest) = some (n, rest) := by
  unfold toCompact
  split_ifs with h6 h14 h30
  · have hb : (UInt8.ofNat (4 * n)).toNat = 4 * n := by
      rw [UInt8.toNat_ofNat']
      omega
    change readCompact w (UInt8.ofNat (4 * n) :: rest) = _
    rw [readCompact, hb, if_pos (by omega), Nat.mul_div_cancel_left n (by decide)]
  · have hcons : toLe 2 (4 * n + 1) ++ rest =
      UInt8.ofNat (4 * n + 1) :: (toLe 1 ((4 * n + 1) / 256) ++ rest) := rfl
    have hdiv : (4 * n + 1) / 4 = n := by omega
    rw [hcons, readCompact, toNat_ofNat_mod_four, if_neg (by omega), if_pos (by omega), ← hcons,
      readLe_toLe (by omega)]
    simp only [Option.bind_some, hdiv]
    rw [if_pos (by omega)]
  · have hcons : toLe 4 (4 * n + 2) ++ rest =
      UInt8.ofNat (4 * n + 2) :: (toLe 3 ((4 * n + 2) / 256) ++ rest) := rfl
    have hdiv : (4 * n + 2) / 4 = n := by omega
    rw [hcons, readCompact, toNat_ofNat_mod_four, if_neg (by omega), if_neg (by omega),
      if_pos (by omega), ← hcons, readLe_toLe (by omega)]
    simp only [Option.bind_some, hdiv]
    rw [if_pos (by omega)]
  · have h4 := four_le_log (not_lt.mp h30)
    have hk : Nat.log 256 n + 1 ≤ w := Nat.log_lt_of_lt_pow (by omega) h
    generalize hlog : Nat.log 256 n + 1 = k at h4 hk ⊢
    have hb : (UInt8.ofNat (4 * (k - 4) + 3)).toNat = 4 * (k - 4) + 3 := by
      rw [UInt8.toNat_ofNat']
      omega
    have hcount : (4 * (k - 4) + 3) / 4 + 4 = k := by omega
    have hlt : n < 256 ^ k := hlog ▸ Nat.lt_pow_succ_log_self (by decide) n
    have hge : 256 ^ (k - 1) ≤ n := by
      rw [← hlog, Nat.add_sub_cancel]
      exact Nat.pow_log_le_self 256 (by omega)
    dsimp only
    rw [List.cons_append, readCompact, hb, if_neg (by omega), if_neg (by omega), if_neg (by omega),
      hcount]
    dsimp only
    rw [if_pos hk, readLe_toLe hlt, Option.bind_some, if_pos ⟨not_lt.mp h30, hge⟩]

theorem readLe_exact {w n : Nat} {bytes rest : List UInt8} (h : readLe w bytes = some (n, rest)) :
    n < 256 ^ w ∧ bytes = toLe w n ++ rest :=
  (littleEndian w).canonical bytes n rest h

/-- A number of `k + 1` bytes is read from bytes whose first one shows its value modulo four. -/
theorem readLe_cons_mod_four {k v : Nat} {b : UInt8} {tail rest : List UInt8}
    (h : readLe (k + 1) (b :: tail) = some (v, rest)) : b.toNat % 4 = v % 4 := by
  have hb : b = UInt8.ofNat v := List.head_eq_of_cons_eq (readLe_exact h).2
  rw [hb, toNat_ofNat_mod_four]

theorem readCompact_exact {w n : Nat} (hw : 4 ≤ w) {bytes rest : List UInt8}
    (h : readCompact w bytes = some (n, rest)) : n < 256 ^ w ∧ bytes = toCompact n ++ rest := by
  have hpow : 256 ^ 4 ≤ 256 ^ w := Nat.pow_le_pow_right (by decide) hw
  cases bytes with
  | nil => exact nomatch h
  | cons b tail =>
    have hlt := b.toNat_lt
    rw [readCompact] at h
    split_ifs at h with h0 h1 h2
    · obtain ⟨rfl, rfl⟩ := Prod.mk.inj (Option.some.inj h)
      refine ⟨by omega, ?_⟩
      rw [toCompact, if_pos (by omega)]
      have hb : UInt8.ofNat (4 * (b.toNat / 4)) = b := by
        rw [← UInt8.toNat_inj, UInt8.toNat_ofNat']
        omega
      rw [toLe, hb]
      rfl
    · obtain ⟨⟨v, r⟩, hread, hmin⟩ := Option.bind_eq_some_iff.mp h
      have hmod := readLe_cons_mod_four hread
      obtain ⟨hv, hbytes⟩ := readLe_exact hread
      dsimp only at hmin
      split_ifs at hmin with hge
      obtain ⟨rfl, rfl⟩ := Prod.mk.inj (Option.some.inj hmin)
      refine ⟨by omega, ?_⟩
      rw [hbytes, toCompact, if_neg (by omega), if_pos (by omega),
        show 4 * (v / 4) + 1 = v by omega]
    · obtain ⟨⟨v, r⟩, hread, hmin⟩ := Option.bind_eq_some_iff.mp h
      have hmod := readLe_cons_mod_four hread
      obtain ⟨hv, hbytes⟩ := readLe_exact hread
      dsimp only at hmin
      split_ifs at hmin with hge
      obtain ⟨rfl, rfl⟩ := Prod.mk.inj (Option.some.inj hmin)
      refine ⟨by omega, ?_⟩
      rw [hbytes, toCompact, if_neg (by omega), if_neg (by omega), if_pos (by omega),
        show 4 * (v / 4) + 2 = v by omega]
    · dsimp only at h
      generalize hk : b.toNat / 4 + 4 = k at h
      split_ifs at h with hkw
      obtain ⟨⟨v, r⟩, hread, hmin⟩ := Option.bind_eq_some_iff.mp h
      obtain ⟨hv, hbytes⟩ := readLe_exact hread
      split_ifs at hmin with hge
      obtain ⟨rfl, rfl⟩ := Prod.mk.inj (Option.some.inj hmin)
      refine ⟨hv.trans_le (Nat.pow_le_pow_right (by decide) hkw), ?_⟩
      have hlog : Nat.log 256 v + 1 = k := by
        have hle : k - 1 ≤ Nat.log 256 v := Nat.le_log_of_pow_le (by decide) hge.2
        have hlt : Nat.log 256 v < k := Nat.log_lt_of_lt_pow (by omega) hv
        omega
      have hb : UInt8.ofNat (4 * (k - 4) + 3) = b := by
        rw [← UInt8.toNat_inj, UInt8.toNat_ofNat']
        omega
      rw [toCompact, if_neg (by omega), if_neg (by omega), if_neg (by omega)]
      dsimp only
      rw [hlog, hb, hbytes]
      rfl

def compact (w : Nat) (hw : 4 ≤ w ∧ w ≤ 67) : Codec Nat where
  dom n := n < 256 ^ w
  encode := toCompact
  decode := readCompact w
  decode_append := fun _ rest h => readCompact_append hw.2 h rest
  canonical := fun _ _ _ h => readCompact_exact hw.1 h

/-! ## Arrays, pairs and sequences -/

def byte : Codec UInt8 where
  dom _ := True
  encode b := [b]
  decode
    | [] => none
    | b :: rest => some (b, rest)
  decode_append := fun _ _ _ => rfl
  canonical := by
    intro bytes b rest h
    cases bytes with
    | nil => exact nomatch h
    | cons b' tail =>
      obtain ⟨rfl, rfl⟩ := Prod.mk.inj (Option.some.inj h)
      exact ⟨trivial, rfl⟩

def array (n : Nat) : Codec (Vector UInt8 n) where
  dom _ := True
  encode v := v.toList
  decode bytes :=
    if h : n ≤ bytes.length then
      some (⟨(bytes.take n).toArray, by simp [h]⟩, bytes.drop n)
    else none
  decode_append := by
    intro v rest _
    have hlen : v.toList.length = n := by simp
    rw [dif_pos (by rw [List.length_append]; omega)]
    simp [Vector.toList]
  canonical := by
    intro bytes v rest h
    split_ifs at h with hlen
    obtain ⟨rfl, rfl⟩ := Prod.mk.inj (Option.some.inj h)
    exact ⟨trivial, (List.take_append_drop n bytes).symm⟩

def pair (c : Codec α) (d : Codec β) : Codec (α × β) where
  dom p := c.dom p.1 ∧ d.dom p.2
  encode p := c.encode p.1 ++ d.encode p.2
  decode bytes := do
    let (a, rest) ← c.decode bytes
    let (b, rest) ← d.decode rest
    pure ((a, b), rest)
  decode_append := by
    intro p rest h
    rw [List.append_assoc, c.decode_append _ _ h.1]
    simp [d.decode_append _ _ h.2]
  canonical := by
    intro bytes p rest h
    obtain ⟨⟨a, rest'⟩, ha, h⟩ := Option.bind_eq_some_iff.mp h
    obtain ⟨⟨b, rest''⟩, hb, h⟩ := Option.bind_eq_some_iff.mp h
    obtain ⟨rfl, rfl⟩ := Prod.mk.inj (Option.some.inj h)
    obtain ⟨hda, rfl⟩ := c.canonical _ _ _ ha
    obtain ⟨hdb, rfl⟩ := d.canonical _ _ _ hb
    exact ⟨⟨hda, hdb⟩, (List.append_assoc _ _ _).symm⟩

def map (c : Codec α) (e : α ≃ β) : Codec β where
  dom b := c.dom (e.symm b)
  encode b := c.encode (e.symm b)
  decode bytes := (c.decode bytes).map fun r => (e r.1, r.2)
  decode_append := by
    intro b rest h
    rw [c.decode_append _ _ h]
    simp
  canonical := by
    intro bytes b rest h
    obtain ⟨⟨a, rest'⟩, ha, heq⟩ := Option.map_eq_some_iff.mp h
    obtain ⟨rfl, rfl⟩ := Prod.mk.inj heq
    rw [e.symm_apply_apply]
    exact c.canonical _ _ _ ha

def readMany (c : Codec α) : Nat → List UInt8 → Option (List α × List UInt8)
  | 0, bytes => some ([], bytes)
  | n + 1, bytes => do
    let (a, rest) ← c.decode bytes
    let (as, rest) ← readMany c n rest
    pure (a :: as, rest)

theorem readMany_append (c : Codec α) (l : List α) (h : ∀ a ∈ l, c.dom a) (rest : List UInt8) :
    readMany c l.length (l.flatMap c.encode ++ rest) = some (l, rest) := by
  induction l with
  | nil => rfl
  | cons a l ih =>
    rw [List.length_cons, List.flatMap_cons, List.append_assoc, readMany,
      c.decode_append _ _ (h a List.mem_cons_self)]
    simp [ih fun b hb => h b (List.mem_cons_of_mem _ hb)]

theorem readMany_exact (c : Codec α) {n : Nat} {bytes rest : List UInt8} {l : List α}
    (h : readMany c n bytes = some (l, rest)) :
    l.length = n ∧ (∀ a ∈ l, c.dom a) ∧ bytes = l.flatMap c.encode ++ rest := by
  induction n generalizing bytes l with
  | zero =>
    obtain ⟨rfl, rfl⟩ := Prod.mk.inj (Option.some.inj h)
    exact ⟨rfl, fun a ha => absurd ha List.not_mem_nil, rfl⟩
  | succ n ih =>
    obtain ⟨⟨a, rest'⟩, ha, h⟩ := Option.bind_eq_some_iff.mp h
    obtain ⟨⟨as, rest''⟩, has, h⟩ := Option.bind_eq_some_iff.mp h
    obtain ⟨rfl, rfl⟩ := Prod.mk.inj (Option.some.inj h)
    obtain ⟨hda, rfl⟩ := c.canonical _ _ _ ha
    obtain ⟨hlen, hdas, rfl⟩ := ih has
    refine ⟨congrArg (· + 1) hlen, List.forall_mem_cons.mpr ⟨hda, hdas⟩, ?_⟩
    rw [List.flatMap_cons, List.append_assoc]

def counted (count : Codec Nat) (c : Codec α) : Codec (List α) where
  dom l := count.dom l.length ∧ ∀ a ∈ l, c.dom a
  encode l := count.encode l.length ++ l.flatMap c.encode
  decode bytes := do
    let (n, rest) ← count.decode bytes
    readMany c n rest
  decode_append := by
    intro l rest h
    rw [List.append_assoc, count.decode_append _ _ h.1]
    exact readMany_append c l h.2 rest
  canonical := by
    intro bytes l rest h
    obtain ⟨⟨n, rest'⟩, hn, hmany⟩ := Option.bind_eq_some_iff.mp h
    obtain ⟨hcount, rfl⟩ := count.canonical _ _ _ hn
    obtain ⟨rfl, hdom, rfl⟩ := readMany_exact c hmany
    exact ⟨⟨hcount, hdom⟩, (List.append_assoc _ _ _).symm⟩

def sequence (c : Codec α) : Codec (List α) where
  dom l := l.length < 2 ^ 32 ∧ ∀ a ∈ l, c.dom a
  encode l := toCompact l.length ++ l.flatMap c.encode
  decode bytes := do
    let (n, rest) ← readCompact 4 bytes
    readMany c n rest
  decode_append := by
    intro l rest h
    rw [List.append_assoc, readCompact_append (by decide) (by simpa using h.1)]
    exact readMany_append c l h.2 rest
  canonical := by
    intro bytes l rest h
    obtain ⟨⟨n, rest'⟩, hn, hmany⟩ := Option.bind_eq_some_iff.mp h
    obtain ⟨hlt, rfl⟩ := readCompact_exact (le_refl 4) hn
    obtain ⟨rfl, hdom, rfl⟩ := readMany_exact c hmany
    exact ⟨⟨by simpa using hlt, hdom⟩, (List.append_assoc _ _ _).symm⟩

end Codec
