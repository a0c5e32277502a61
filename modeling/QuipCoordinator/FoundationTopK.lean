import QuipCoordinator.FoundationSorted
import Mathlib.Data.Prod.Lex

/-!
# The best entries of a stream

`Best f k l held` says that `held` is the `k` entries of `l` with the least keys,
in the order of their keys and, on equal keys, of their positions in `l`. A stream
that keeps them by inserting at the end, sorting and cutting holds at every moment
the best of all it has seen.
-/

universe u v

namespace List
variable {α : Type u} {β : Type v} [LinearOrder β] {f : α → β}

def Ahead (f : α → β) (a b : α × Nat) : Prop :=
  f a.1 < f b.1 ∨ (f a.1 = f b.1 ∧ a.2 < b.2)

structure BestAt (f : α → β) (k : Nat) (l : List α) (placed : List (α × Nat)) : Prop where
  sublist : placed ⊆ l.zipIdx
  ordered : placed.Pairwise (Ahead f)
  full : placed.length = min k l.length
  least : ∀ a ∈ placed, ∀ b ∈ l.zipIdx, b ∉ placed → Ahead f a b

def Best (f : α → β) (k : Nat) (l held : List α) : Prop :=
  ∃ placed, BestAt f k l placed ∧ placed.map Prod.fst = held

def place (f : α → β) (a : α × Nat) : β ×ₗ Nat := toLex (f a.1, a.2)

theorem place_lt_iff {a b : α × Nat} : place f a < place f b ↔ Ahead f a b :=
  Prod.Lex.toLex_lt_toLex

theorem place_le_iff_of_le {a b : α × Nat} (h : a.2 ≤ b.2) :
    place f a ≤ place f b ↔ f a.1 ≤ f b.1 := by
  rw [place, place, Prod.Lex.toLex_le_toLex]
  constructor
  · intro hle
    rcases hle with hlt | ⟨heq, -⟩
    · exact hlt.le
    · exact heq.le
  · intro hle
    rcases hle.lt_or_eq with hlt | heq
    · exact Or.inl hlt
    · exact Or.inr ⟨heq, h⟩

omit [LinearOrder β] in
theorem place_injOn (l : List α) (n : Nat) : ∀ a ∈ l.zipIdx n, ∀ b ∈ l.zipIdx n,
    place f a = place f b → a = b := by
  intro a ha b hb h
  have hpos : a.2 = b.2 := (Prod.mk.inj (toLex_inj.mp h)).2
  obtain ⟨-, -, hva⟩ := List.mem_zipIdx (x := a.1) (i := a.2) ha
  obtain ⟨-, -, hvb⟩ := List.mem_zipIdx (x := b.1) (i := b.2) hb
  refine Prod.ext ?_ hpos
  rw [hva, hvb]
  simp only [hpos]

theorem orderedInsert_congr {r s : α → α → Prop} [DecidableRel r] [DecidableRel s] {a : α}
    {l : List α} (h : ∀ b ∈ l, r a b ↔ s a b) : l.orderedInsert r a = l.orderedInsert s a := by
  induction l with
  | nil => rfl
  | cons b l ih =>
    rw [List.orderedInsert_cons, List.orderedInsert_cons,
      ih fun c hc => h c (List.mem_cons_of_mem _ hc)]
    simp only [h b List.mem_cons_self]

theorem insertionSort_zipIdx_eq (f : α → β) (l : List α) (n : Nat) :
    ((l.zipIdx n).insertionSort fun a b => f a.1 ≤ f b.1) =
      (l.zipIdx n).insertionSort fun a b => place f a ≤ place f b := by
  induction l generalizing n with
  | nil => rfl
  | cons a l ih =>
    rw [List.zipIdx_cons, List.insertionSort_cons, List.insertionSort_cons, ih (n + 1)]
    apply orderedInsert_congr
    intro b hb
    obtain ⟨hn, -, -⟩ := List.mem_zipIdx (x := b.1) (i := b.2) ((List.mem_insertionSort _).mp hb)
    have hle : (a, n).2 ≤ b.2 := by omega
    exact (place_le_iff_of_le hle).symm

/-- The sort is stable: it is the sort by key and position. -/
theorem map_fst_insertionSort_zipIdx (f : α → β) (l : List α) (n : Nat) :
    ((l.zipIdx n).insertionSort fun a b => place f a ≤ place f b).map Prod.fst =
      l.insertionSort fun a b => f a ≤ f b := by
  rw [← insertionSort_zipIdx_eq, List.map_insertionSort _ (fun a b => f a ≤ f b) Prod.fst,
    List.zipIdx_map_fst]
  exact fun _ _ _ _ => Iff.rfl

theorem pairwise_ahead_insertionSort (f : α → β) (l : List α) :
    (l.zipIdx.insertionSort fun a b => place f a ≤ place f b).Pairwise (Ahead f) := by
  have hperm := l.zipIdx.perm_insertionSort fun a b => place f a ≤ place f b
  have hplaces : l.zipIdx.Nodup := List.Nodup.of_map Prod.snd (by simp [List.nodup_range'])
  have hnodup := hperm.nodup_iff.mpr hplaces
  refine ((pairwise_insertionSort_key (place f) l.zipIdx).and hnodup).imp_of_mem ?_
  intro a b ha hb hab
  refine place_lt_iff.mp (lt_of_le_of_ne hab.1 ?_)
  exact fun heq => hab.2 (place_injOn l 0 a (hperm.subset ha) b (hperm.subset hb) heq)

theorem best_take_insertionSort (f : α → β) (k : Nat) (l : List α) :
    Best f k l ((l.insertionSort fun a b => f a ≤ f b).take k) := by
  have hperm := l.zipIdx.perm_insertionSort fun a b => place f a ≤ place f b
  have hsorted := pairwise_ahead_insertionSort f l
  refine ⟨(l.zipIdx.insertionSort fun a b => place f a ≤ place f b).take k, ⟨?_, ?_, ?_, ?_⟩, ?_⟩
  · exact fun a ha => hperm.subset (List.mem_of_mem_take ha)
  · exact hsorted.sublist (List.take_sublist _ _)
  · rw [List.length_take, hperm.length_eq, List.length_zipIdx]
  · intro a ha b hb hout
    rw [← List.take_append_drop k (l.zipIdx.insertionSort _)] at hsorted
    rw [← hperm.mem_iff, ← List.take_append_drop k (l.zipIdx.insertionSort _)] at hb
    rcases List.mem_append.mp hb with hin | hdrop
    · exact absurd hin hout
    · exact (List.pairwise_append.mp hsorted).2.2 a ha b hdrop
  · rw [List.map_take, map_fst_insertionSort_zipIdx]

/-- The `k` entries of `l` that come last by key and position. -/
structure LastAt (f : α → β) (k : Nat) (l : List α) (placed : List (α × Nat)) : Prop where
  sublist : placed ⊆ l.zipIdx
  ordered : placed.Pairwise (Ahead f)
  full : placed.length = min k l.length
  greatest : ∀ a ∈ placed, ∀ b ∈ l.zipIdx, b ∉ placed → Ahead f b a

theorem lastAt_drop_insertionSort (f : α → β) (k : Nat) (l : List α) :
    LastAt f k l
      ((l.zipIdx.insertionSort fun a b => f a.1 ≤ f b.1).drop (l.length - k)) := by
  have hperm := l.zipIdx.perm_insertionSort fun a b => place f a ≤ place f b
  have hsorted := pairwise_ahead_insertionSort f l
  rw [insertionSort_zipIdx_eq]
  refine ⟨?_, ?_, ?_, ?_⟩
  · exact fun a ha => hperm.subset (List.mem_of_mem_drop ha)
  · exact hsorted.sublist (List.drop_sublist _ _)
  · rw [List.length_drop, hperm.length_eq, List.length_zipIdx]
    omega
  · intro a ha b hb hout
    rw [← List.take_append_drop (l.length - k) (l.zipIdx.insertionSort _)] at hsorted
    rw [← hperm.mem_iff, ← List.take_append_drop (l.length - k) (l.zipIdx.insertionSort _)] at hb
    rcases List.mem_append.mp hb with htake | hin
    · exact (List.pairwise_append.mp hsorted).2.2 b htake a ha
    · exact absurd hin hout

theorem orderedInsert_comm (f : α → β) (c a : α) (l : List α) :
    (l.orderedInsert (fun a b => f a < f b) a).orderedInsert (fun a b => f a ≤ f b) c =
      (l.orderedInsert (fun a b => f a ≤ f b) c).orderedInsert (fun a b => f a < f b) a := by
  induction l with
  | nil =>
    by_cases hca : f c ≤ f a
    · simp [hca]
    · simp [hca, not_le.mp hca]
  | cons b l ih =>
    by_cases hca : f c ≤ f a
    · have hac : ¬f a < f c := not_lt.mpr hca
      by_cases hcb : f c ≤ f b
      · by_cases hab : f a < f b <;>
          simp only [List.orderedInsert_cons, hca, hac, hcb, hab, if_true, if_false]
      · have hab : ¬f a < f b := fun hab => hcb (hca.trans hab.le)
        simp only [List.orderedInsert_cons, hcb, hab, if_false, ih]
    · have hac : f a < f c := not_le.mp hca
      by_cases hab : f a < f b
      · by_cases hcb : f c ≤ f b <;>
          simp only [List.orderedInsert_cons, hca, hac, hcb, hab, if_true, if_false]
      · have hcb : ¬f c ≤ f b := fun hcb => hab (hac.trans_le hcb)
        simp only [List.orderedInsert_cons, hcb, hab, if_false, ih]

theorem insertionSort_concat (f : α → β) (l : List α) (a : α) :
    (l ++ [a]).insertionSort (fun a b => f a ≤ f b) =
      (l.insertionSort fun a b => f a ≤ f b).orderedInsert (fun a b => f a < f b) a := by
  induction l with
  | nil => rfl
  | cons c l ih =>
    rw [List.cons_append, List.insertionSort_cons, ih, List.insertionSort_cons]
    exact orderedInsert_comm f c a _

theorem orderedInsert_split {f : α → β} (a : α) {l : List α}
    (h : l.Pairwise fun a b => f a ≤ f b) :
    ∃ front rest, l = front ++ rest ∧
      l.orderedInsert (fun a b => f a < f b) a = front ++ a :: rest ∧
      ∀ b ∈ l, f b ≤ f a → b ∈ front := by
  induction l with
  | nil => exact ⟨[], [], rfl, rfl, fun b hb => absurd hb List.not_mem_nil⟩
  | cons c l ih =>
    obtain ⟨hle, hrest⟩ := List.pairwise_cons.mp h
    by_cases hac : f a < f c
    · refine ⟨[], c :: l, rfl, List.orderedInsert_cons_of_le _ _ hac, ?_⟩
      intro b hb hba
      rcases List.mem_cons.mp hb with rfl | hb
      · exact absurd hba (not_le.mpr hac)
      · exact absurd ((hle b hb).trans hba) (not_le.mpr hac)
    · obtain ⟨front, rest, hl, hins, hmem⟩ := ih hrest
      refine ⟨c :: front, rest, by rw [hl]; rfl, ?_, ?_⟩
      · rw [List.orderedInsert_cons, if_neg hac, hins]
        rfl
      · intro b hb hba
        rcases List.mem_cons.mp hb with rfl | hb
        · exact List.mem_cons_self
        · exact List.mem_cons_of_mem _ (hmem b hb hba)

theorem take_orderedInsert_take {r : α → α → Prop} [DecidableRel r] (a : α) (l : List α) (k : Nat) :
    ((l.take k).orderedInsert r a).take k = (l.orderedInsert r a).take k := by
  induction l generalizing k with
  | nil => rw [List.take_nil]
  | cons b l ih =>
    cases k with
    | zero => rw [List.take_zero, List.take_zero]
    | succ k =>
      rw [List.take_succ_cons]
      by_cases hab : r a b
      · rw [List.orderedInsert_cons_of_le _ _ hab, List.orderedInsert_cons_of_le _ _ hab,
          List.take_succ_cons, List.take_succ_cons]
        cases k with
        | zero => rw [List.take_zero, List.take_zero]
        | succ k =>
          rw [List.take_succ_cons, List.take_succ_cons, List.take_take, min_eq_left k.le_succ]
      · rw [List.orderedInsert_of_not_le _ _ hab, List.orderedInsert_of_not_le _ _ hab,
          List.take_succ_cons, List.take_succ_cons, ih k]

/-- The best `k` of the best `k` so far and one more are the best `k` of all. -/
theorem take_insertionSort_concat (f : α → β) (k : Nat) (l : List α) (a : α) :
    ((((l.insertionSort fun a b => f a ≤ f b).take k) ++ [a]).insertionSort
        fun a b => f a ≤ f b).take k =
      ((l ++ [a]).insertionSort fun a b => f a ≤ f b).take k := by
  have hsorted := (pairwise_insertionSort_key f l).sublist (List.take_sublist k _)
  rw [insertionSort_concat, insertionSort_concat, hsorted.insertionSort_eq, take_orderedInsert_take]

end List
