import Mathlib.Data.List.Basic

/-!
# Decimal text

The digits of a number, also padded with zeros to a width, and the reader of a
number with a bound: one sign, then digits and nothing else. A text of padded
numbers between marks that are no digits gives its numbers back.
-/

namespace Decimal

def digits? (bound : Nat) (s : List Char) : Option Nat :=
  let n := Nat.ofDigitChars 10 s 0
  if !s.isEmpty && s.all Char.isDigit && n < bound then some n else none

/-- A number under the bound, after one plus sign if there is one. -/
def unsigned? (bound : Nat) : List Char → Option Nat
  | '+' :: s => digits? bound s
  | s => digits? bound s

/-- A number of `-bound` to `bound`, the last of them left out. -/
def signed? (bound : Nat) : List Char → Option Int
  | '-' :: s => (digits? (bound + 1) s).map fun n : Nat => -(n : Int)
  | s => (unsigned? bound s).map fun n : Nat => (n : Int)

theorem digits?_toDigits {bound n : Nat} (h : n < bound) :
    digits? bound (Nat.toDigits 10 n) = some n := by
  have hall : (Nat.toDigits 10 n).all Char.isDigit = true :=
    List.all_eq_true.mpr fun c hc => Nat.isDigit_of_mem_toDigits (by omega) (by omega) hc
  simp [digits?, Nat.ofDigitChars_ten_toDigits, hall, Nat.toDigits_ne_nil, h]

theorem unsigned?_toDigits {bound n : Nat} (h : n < bound) :
    unsigned? bound (Nat.toDigits 10 n) = some n := by
  have hdigits := digits?_toDigits h
  unfold unsigned?
  split
  · rename_i s hs
    -- a plus sign is no digit
    have hplus : '+' ∈ Nat.toDigits 10 n := by simp [hs]
    exact absurd (Nat.isDigit_of_mem_toDigits (by omega) (by omega) hplus) (by decide)
  · exact hdigits

def padded (w n : Nat) : List Char :=
  List.replicate (w - (Nat.toDigits 10 n).length) '0' ++ Nat.toDigits 10 n

theorem isDigit_of_mem_padded {w n : Nat} {c : Char} (h : c ∈ padded w n) : c.isDigit = true := by
  rcases List.mem_append.mp h with hzero | hdigit
  · rw [List.eq_of_mem_replicate hzero]
    rfl
  · exact Nat.isDigit_of_mem_toDigits (by omega) (by omega) hdigit

theorem ofDigitChars_padded (w n : Nat) : Nat.ofDigitChars 10 (padded w n) 0 = n := by
  rw [padded, Nat.ofDigitChars_append, Nat.ofDigitChars_replicate_zero, Nat.mul_zero,
    Nat.ofDigitChars_ten_toDigits]

/-- The numbers of a text, each up to a mark that ends it. -/
def numbers (s : List Char) : List Nat :=
  ((s.splitOnP fun c => !c.isDigit).map fun l => Nat.ofDigitChars 10 l 0).dropLast

theorem numbers_nil : numbers [] = [] := rfl

theorem numbers_padded_cons (w n : Nat) {mark : Char} (hmark : mark.isDigit = false)
    (rest : List Char) : numbers (padded w n ++ mark :: rest) = n :: numbers rest := by
  have hdigits : ∀ c ∈ padded w n, (!c.isDigit) = false := by
    intro c hc
    rw [isDigit_of_mem_padded hc]
    rfl
  have hne : ((rest.splitOnP fun c => !c.isDigit).map fun l => Nat.ofDigitChars 10 l 0) ≠ [] := by
    simp [List.splitOnP_ne_nil]
  rw [numbers, List.splitOnP_append_cons_of_forall_mem hdigits mark (by simp [hmark]),
    List.map_cons, ofDigitChars_padded, List.dropLast_cons_of_ne_nil hne, numbers]

end Decimal
