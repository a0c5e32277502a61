import Mathlib.Data.List.Sort
import Mathlib.Order.Defs.LinearOrder

/-!
# Lists sorted by a key

What a list whose keys do not decrease says about its entries: those under a
bound come first, an entry with few entries at or below it is near the front, and
the first entry with a property has the least key among those that have it.
-/

universe u v

namespace List
variable {α : Type u} {β : Type v} [LinearOrder β] {f : α → β}

theorem pairwise_insertionSort_key (f : α → β) (l : List α) :
    (l.insertionSort fun a b => f a ≤ f b).Pairwise fun a b => f a ≤ f b := by
  have : Std.Total fun a b : α => f a ≤ f b := ⟨fun a b => le_total (f a) (f b)⟩
  have : IsTrans α fun a b => f a ≤ f b := ⟨fun a b c => le_trans⟩
  exact List.pairwise_insertionSort _ l

/-- Sorting by a linear order forgets the order of the list and nothing else. -/
theorem insertionSort_eq_iff_perm {r : α → α → Prop} [DecidableRel r] [Std.Total r] [IsTrans α r]
    [Std.Antisymm r] {l l' : List α} : l.insertionSort r = l'.insertionSort r ↔ l.Perm l' := by
  have hl := l.perm_insertionSort r
  have hl' := l'.perm_insertionSort r
  constructor
  · intro h
    rw [h] at hl
    exact hl.symm.trans hl'
  · intro h
    exact ((hl.trans h).trans hl'.symm).eq_of_pairwise' (List.pairwise_insertionSort r l)
      (List.pairwise_insertionSort r l')

theorem filter_lt_prefix {l : List α} (h : l.Pairwise fun a b => f a ≤ f b) (c : β) :
    (l.filter fun a => decide (f a < c)) <+: l := by
  induction l with
  | nil => exact List.prefix_rfl
  | cons a l ih =>
    obtain ⟨hle, hrest⟩ := List.pairwise_cons.mp h
    by_cases ha : f a < c
    · rw [List.filter_cons_of_pos (by simpa using ha)]
      exact (List.prefix_cons_inj a).mpr (ih hrest)
    · have hnil : (l.filter fun a => decide (f a < c)) = [] := by
        refine List.filter_eq_nil_iff.mpr ?_
        intro b hb hlt
        exact ha ((hle b hb).trans_lt (of_decide_eq_true hlt))
      rw [List.filter_cons_of_neg (by simpa using ha), hnil]
      exact List.nil_prefix

theorem dropWhile_lt_eq_filter {l : List α} (h : l.Pairwise fun a b => f a ≤ f b) (c : β) :
    (l.dropWhile fun a => decide (f a < c)) = l.filter fun a => decide (c ≤ f a) := by
  induction l with
  | nil => rfl
  | cons a l ih =>
    obtain ⟨hle, hrest⟩ := List.pairwise_cons.mp h
    rw [List.dropWhile_cons]
    split_ifs with ha
    · rw [ih hrest, List.filter_cons_of_neg (by simpa using ha)]
    · have hc : c ≤ f a := by simpa using ha
      refine (List.filter_eq_self.mpr ?_).symm
      intro b hb
      rcases List.mem_cons.mp hb with rfl | hb
      · exact decide_eq_true hc
      · exact decide_eq_true (hc.trans (hle b hb))

theorem mem_take_of_countP_le {l : List α} (h : l.Pairwise fun a b => f a ≤ f b) {a : α}
    (ha : a ∈ l) {k : Nat} (hk : l.countP (fun b => decide (f b ≤ f a)) ≤ k) : a ∈ l.take k := by
  rw [← List.take_append_drop k l] at ha
  rcases List.mem_append.mp ha with hin | hout
  · exact hin
  · -- then the first `k` entries and `a` itself are at or below the key of `a`
    exfalso
    have hpair := h
    rw [← List.take_append_drop k l] at hpair
    have hbelow : (l.take k).countP (fun b => decide (f b ≤ f a)) = (l.take k).length := by
      refine List.countP_eq_length.mpr fun b hb => ?_
      exact decide_eq_true ((List.pairwise_append.mp hpair).2.2 b hb a hout)
    have hself : 0 < (l.drop k).countP fun b => decide (f b ≤ f a) :=
      List.countP_pos_iff.mpr ⟨a, hout, decide_eq_true le_rfl⟩
    have hfull : (l.take k).length = k := by
      have hdrop := List.length_pos_of_mem hout
      rw [List.length_drop] at hdrop
      rw [List.length_take]
      omega
    have hcount : l.countP (fun b => decide (f b ≤ f a)) =
        (l.take k).countP (fun b => decide (f b ≤ f a)) +
          (l.drop k).countP fun b => decide (f b ≤ f a) := by
      rw [← List.countP_append, List.take_append_drop]
    omega

theorem find?_key_le {l : List α} (h : l.Pairwise fun a b => f a ≤ f b) {p : α → Bool} {a b : α}
    (ha : l.find? p = some a) (hb : b ∈ l) (hp : p b = true) : f a ≤ f b := by
  obtain ⟨-, front, rest, rfl, hfront⟩ := List.find?_eq_some_iff_append.mp ha
  rcases List.mem_append.mp hb with hb | hb
  · have hnot := hfront b hb
    rw [hp] at hnot
    cases hnot
  · rcases List.mem_cons.mp hb with rfl | hb
    · exact le_rfl
    · exact (List.pairwise_cons.mp (List.pairwise_append.mp h).2.1).1 b hb

end List
