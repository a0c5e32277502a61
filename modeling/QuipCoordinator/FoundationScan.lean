import Mathlib.Algebra.GroupWithZero.Nat
import Mathlib.Data.List.Infix

/-!
# Scans that a longer text cannot undo

`PrefixRel R a b` says that `a` is a prefix of `b` up to `R` on the characters. The
scans of this module keep it: what they find in `a` they find in `b`, if `R` does
not touch the characters they look for. `afterMatches` scans for a pattern from left
to right and does not look inside a match.
-/

universe u v

namespace List
variable {α : Type u} {R : α → α → Prop}

inductive PrefixRel (R : α → α → Prop) : List α → List α → Prop
  | nil (b : List α) : PrefixRel R [] b
  | cons {x y : α} {a b : List α} : R x y → PrefixRel R a b → PrefixRel R (x :: a) (y :: b)

theorem PrefixRel.of_prefix (hR : ∀ x, R x x) {a b : List α} (h : a <+: b) : PrefixRel R a b := by
  induction a generalizing b with
  | nil => exact .nil b
  | cons x a ih =>
    obtain ⟨rest, rfl⟩ := h
    exact .cons (hR x) (ih (prefix_append a rest))

theorem PrefixRel.append_left (hR : ∀ x, R x x) (l : List α) {a b : List α}
    (h : PrefixRel R a b) : PrefixRel R (l ++ a) (l ++ b) := by
  induction l with
  | nil => exact h
  | cons x l ih => exact .cons (hR x) ih

theorem PrefixRel.length_le {a b : List α} (h : PrefixRel R a b) : a.length ≤ b.length := by
  induction h with
  | nil b => exact Nat.zero_le _
  | cons _ _ ih => exact Nat.succ_le_succ ih

theorem PrefixRel.drop {a b : List α} (h : PrefixRel R a b) (n : Nat) :
    PrefixRel R (a.drop n) (b.drop n) := by
  induction h generalizing n with
  | nil b =>
    rw [drop_nil]
    exact .nil _
  | cons hxy h ih =>
    cases n with
    | zero => exact .cons hxy h
    | succ n => exact ih n

section
variable {p : α → Bool} (hp : ∀ x y, R x y → p x = p y)
include hp

theorem PrefixRel.dropWhile {a b : List α} (h : PrefixRel R a b) :
    PrefixRel R (a.dropWhile p) (b.dropWhile p) := by
  induction h with
  | nil b => exact .nil _
  | @cons x y a b hxy h ih =>
    rw [dropWhile_cons, dropWhile_cons, hp x y hxy]
    split_ifs
    · exact ih
    · exact .cons hxy h

theorem PrefixRel.takeWhile {a b : List α} (h : PrefixRel R a b) :
    PrefixRel R (a.takeWhile p) (b.takeWhile p) := by
  induction h with
  | nil b => exact .nil _
  | @cons x y a b hxy h ih =>
    rw [takeWhile_cons, takeWhile_cons, hp x y hxy]
    split_ifs
    · exact .cons hxy ih
    · exact .nil _

theorem PrefixRel.filter {a b : List α} (h : PrefixRel R a b) :
    PrefixRel R (a.filter p) (b.filter p) := by
  induction h with
  | nil b => exact .nil _
  | @cons x y a b hxy h ih =>
    rw [filter_cons, filter_cons, hp x y hxy]
    split_ifs
    · exact .cons hxy ih
    · exact ih

end

theorem PrefixRel.sum_le {f : α → Nat} (hf : ∀ x y, R x y → f x = f y) {a b : List α}
    (h : PrefixRel R a b) : (a.map f).sum ≤ (b.map f).sum := by
  induction h with
  | nil b => exact Nat.zero_le _
  | @cons x y a b hxy h ih =>
    rw [map_cons, map_cons, sum_cons, sum_cons, hf x y hxy]
    exact Nat.add_le_add_left ih _

def Fixed (R : α → α → Prop) (pat : List α) : Prop :=
  ∀ x y, R x y → x ∈ pat ∨ y ∈ pat → x = y

theorem Fixed.tail {x : α} {pat : List α} (h : Fixed R (x :: pat)) : Fixed R pat :=
  fun y z hyz hmem => h y z hyz (hmem.imp (mem_cons_of_mem x) (mem_cons_of_mem x))

theorem PrefixRel.isPrefix {pat a b : List α} (h : PrefixRel R a b) (hpat : Fixed R pat)
    (ha : pat <+: a) : pat <+: b := by
  induction h generalizing pat with
  | nil b =>
    rw [prefix_nil.mp ha]
    exact nil_prefix
  | @cons x y a b hxy _ ih =>
    cases pat with
    | nil => exact nil_prefix
    | cons c pat =>
      obtain ⟨rfl, hrest⟩ := cons_prefix_cons.mp ha
      rw [← hpat c y hxy (Or.inl mem_cons_self)]
      exact (prefix_cons_inj c).mpr (ih hpat.tail hrest)

theorem PrefixRel.isPrefix_of {pat a b : List α} (h : PrefixRel R a b) (hpat : Fixed R pat)
    (hb : pat <+: b) (hlen : pat.length ≤ a.length) : pat <+: a := by
  induction h generalizing pat with
  | nil b =>
    rw [length_eq_zero_iff.mp (Nat.le_zero.mp hlen)]
  | @cons x y a b hxy _ ih =>
    cases pat with
    | nil => exact nil_prefix
    | cons c pat =>
      obtain ⟨rfl, hrest⟩ := cons_prefix_cons.mp hb
      rw [hpat x c hxy (Or.inr mem_cons_self)]
      exact (prefix_cons_inj c).mpr (ih hpat.tail hrest (Nat.le_of_succ_le_succ hlen))

theorem PrefixRel.isInfix {pat a b : List α} (h : PrefixRel R a b) (hpat : Fixed R pat)
    (ha : pat <:+: a) : pat <:+: b := by
  induction h with
  | nil b =>
    rw [infix_nil.mp ha]
    exact nil_infix
  | cons hxy h ih =>
    rcases infix_cons_iff.mp ha with hfront | hlater
    · exact ((PrefixRel.cons hxy h).isPrefix hpat hfront).isInfix
    · exact (ih hlater).trans (suffix_cons _ _).isInfix

/-! ## Matches of a pattern -/

variable [DecidableEq α]

/-- What follows each match of a nonempty pattern; the first `skip` characters lie in one. -/
def afterMatches (pat : List α) : Nat → List α → List (List α)
  | _, [] => []
  | skip + 1, _ :: s => afterMatches pat skip s
  | 0, c :: s =>
    if pat <+: c :: s then
      (c :: s).drop pat.length :: afterMatches pat (pat.length - 1) s
    else afterMatches pat 0 s

theorem afterMatches_short {pat s : List α} (h : s.length < pat.length) (skip : Nat) :
    afterMatches pat skip s = [] := by
  induction s generalizing skip with
  | nil => cases skip <;> rfl
  | cons c s ih =>
    have hs : s.length < pat.length := Nat.lt_of_succ_lt h
    cases skip with
    | zero =>
      have hno : ¬pat <+: c :: s := fun hpre => absurd hpre.length_le (Nat.not_le.mpr h)
      rw [afterMatches, if_neg hno]
      exact ih hs 0
    | succ skip => exact ih hs skip

theorem PrefixRel.afterMatches {pat a b : List α} (h : PrefixRel R a b) (hpat : Fixed R pat)
    {skip : Nat} {r : List α} (hr : r ∈ List.afterMatches pat skip a) :
    ∃ r' ∈ List.afterMatches pat skip b, PrefixRel R r r' := by
  induction h generalizing skip with
  | nil b => cases skip <;> exact absurd hr not_mem_nil
  | @cons x y a b hxy h ih =>
    cases skip with
    | succ skip => exact ih hr
    | zero =>
      have hcons := PrefixRel.cons hxy h
      rw [List.afterMatches] at hr ⊢
      by_cases ha : pat <+: x :: a
      · rw [if_pos ha] at hr
        rw [if_pos (hcons.isPrefix hpat ha)]
        rcases mem_cons.mp hr with rfl | hr
        · exact ⟨_, mem_cons_self, hcons.drop _⟩
        · obtain ⟨r', hr', hrel⟩ := ih hr
          exact ⟨r', mem_cons_of_mem _ hr', hrel⟩
      · rw [if_neg ha] at hr
        by_cases hb : pat <+: y :: b
        · -- the match needs more text than `a` has, so none starts later in `a`
          have hlt : (x :: a).length < pat.length := by
            by_contra hle
            exact ha (hcons.isPrefix_of hpat hb (Nat.le_of_not_lt hle))
          rw [afterMatches_short (Nat.lt_of_succ_lt hlt)] at hr
          exact absurd hr not_mem_nil
        · rw [if_neg hb]
          exact ih hr

end List
