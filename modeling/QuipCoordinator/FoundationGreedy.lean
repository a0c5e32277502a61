import Mathlib.Data.List.Nodup
import Mathlib.Data.List.Infix

/-!
# Greedy choices

A walk of a list keeps an element when it fits beside those kept before it. What
the walk begins with is told without it: the elements fit one after another, and
an element left out before the last of them does not fit beside those that come
before it.
-/

universe u

namespace List
variable {α : Type u}

def greedy : (List α → α → Bool) → List α → List α
  | _, [] => []
  | fits, a :: l =>
    if fits [] a then a :: greedy (fun held => fits (a :: held)) l else greedy fits l

variable [DecidableEq α]

/-- Elements of a list that fit one after another, with none passed over that would have. -/
structure Spaced (fits : List α → α → Bool) (l picked : List α) : Prop where
  sublist : picked.Sublist l
  fit : ∀ before a after, picked = before ++ a :: after → fits before a = true
  passed : ∀ before a after, l = before ++ a :: after → a ∉ picked → (∃ b ∈ after, b ∈ picked) →
    fits (picked.filter (· ∈ before)) a = false

theorem Spaced.nil (fits : List α → α → Bool) (l : List α) : Spaced fits l [] := by
  refine ⟨List.nil_sublist l, ?_, ?_⟩
  · intro before a after h
    simp at h
  · intro before a after _ _ h
    simp at h

theorem filter_mem_cons_of_notMem {a : α} {p before : List α} (ha : a ∉ p) :
    p.filter (· ∈ a :: before) = p.filter (· ∈ before) := by
  refine List.filter_congr ?_
  intro b hb
  have hne : b ≠ a := fun heq => ha (heq ▸ hb)
  simp [hne]

theorem Spaced.cons {fits : List α → α → Bool} {a : α} {l p : List α} (ha : a ∉ l)
    (hfit : fits [] a = true) (h : Spaced (fun held => fits (a :: held)) l p) :
    Spaced fits (a :: l) (a :: p) := by
  have hap : a ∉ p := fun hmem => ha (h.sublist.subset hmem)
  refine ⟨h.sublist.cons_cons a, ?_, ?_⟩
  · intro before b after heq
    cases before with
    | nil =>
      obtain ⟨rfl, -⟩ := List.cons.inj heq
      exact hfit
    | cons c before =>
      obtain ⟨rfl, htail⟩ := List.cons.inj heq
      exact h.fit before b after htail
  · intro before b after heq hb hex
    cases before with
    | nil =>
      obtain ⟨rfl, -⟩ := List.cons.inj heq
      exact absurd List.mem_cons_self hb
    | cons c before =>
      obtain ⟨rfl, htail⟩ := List.cons.inj heq
      obtain ⟨k, hk, hkp⟩ := hex
      have hkl : k ∈ l := by simp [htail, hk]
      have hka : k ≠ a := fun hka => ha (hka ▸ hkl)
      have hlate := h.passed before b after htail (fun hbp => hb (List.mem_cons_of_mem _ hbp))
        ⟨k, hk, (List.mem_cons.mp hkp).resolve_left hka⟩
      rw [List.filter_cons_of_pos (by simp), filter_mem_cons_of_notMem hap]
      exact hlate

theorem Spaced.tail {fits : List α → α → Bool} {a : α} {l p : List α} (ha : a ∉ l)
    (h : Spaced fits (a :: l) (a :: p)) : Spaced (fun held => fits (a :: held)) l p := by
  have hs : p.Sublist l := List.cons_sublist_cons.mp h.sublist
  have hap : a ∉ p := fun hmem => ha (hs.subset hmem)
  refine ⟨hs, ?_, ?_⟩
  · intro before b after heq
    exact h.fit (a :: before) b after (by rw [heq, List.cons_append])
  · intro before b after heq hb hex
    obtain ⟨k, hk, hkp⟩ := hex
    have hbl : b ∈ l := by simp [heq]
    have hba : b ≠ a := fun hba => ha (hba ▸ hbl)
    have hlate := h.passed (a :: before) b after (by rw [heq, List.cons_append])
      (by simp [hba, hb]) ⟨k, hk, List.mem_cons_of_mem _ hkp⟩
    rwa [List.filter_cons_of_pos (by simp), filter_mem_cons_of_notMem hap] at hlate

theorem Spaced.head_eq {fits : List α → α → Bool} {a b : α} {l p : List α} (ha : a ∉ l)
    (hfit : fits [] a = true) (h : Spaced fits (a :: l) (b :: p)) : b = a := by
  by_contra hne
  have hs : (b :: p).Sublist l := by
    cases h.sublist with
    | cons _ hs => exact hs
    | cons_cons _ _ => exact absurd rfl hne
  have hlate := h.passed [] a l rfl (fun hmem => ha (hs.subset hmem))
    ⟨b, hs.subset List.mem_cons_self, List.mem_cons_self⟩
  simp [hfit] at hlate

theorem spaced_cons_iff_of_not_fits {fits : List α → α → Bool} {a b : α} {l p : List α}
    (ha : a ∉ l) (hfit : fits [] a = false) :
    Spaced fits (a :: l) (b :: p) ↔ Spaced fits l (b :: p) := by
  constructor
  · intro h
    have hne : b ≠ a := by
      rintro rfl
      have hb := h.fit [] b p rfl
      rw [hfit] at hb
      cases hb
    have hs : (b :: p).Sublist l := by
      cases h.sublist with
      | cons _ hs => exact hs
      | cons_cons _ _ => exact absurd rfl hne
    refine ⟨hs, h.fit, ?_⟩
    intro before c after heq hc hex
    have hlate := h.passed (a :: before) c after (by rw [heq, List.cons_append]) hc hex
    rwa [filter_mem_cons_of_notMem fun hmem => ha (hs.subset hmem)] at hlate
  · intro h
    refine ⟨h.sublist.cons a, h.fit, ?_⟩
    intro before c after heq hc hex
    cases before with
    | nil =>
      obtain ⟨rfl, -⟩ := List.cons.inj heq
      simpa using hfit
    | cons d before =>
      obtain ⟨rfl, htail⟩ := List.cons.inj heq
      rw [filter_mem_cons_of_notMem fun hmem => ha (h.sublist.subset hmem)]
      exact h.passed before c after htail hc hex

/-- What a greedy walk begins with. -/
theorem prefix_greedy_iff {fits : List α → α → Bool} {l picked : List α} (hl : l.Nodup) :
    picked <+: greedy fits l ↔ Spaced fits l picked := by
  induction l generalizing fits picked with
  | nil =>
    rw [greedy, List.prefix_nil]
    constructor
    · rintro rfl
      exact Spaced.nil fits []
    · exact fun h => List.sublist_nil.mp h.sublist
  | cons a l ih =>
    obtain ⟨ha, hl⟩ := List.nodup_cons.mp hl
    cases picked with
    | nil => exact iff_of_true List.nil_prefix (Spaced.nil fits _)
    | cons b p =>
      rw [greedy]
      split_ifs with hfit
      · rw [List.cons_prefix_cons, ih hl]
        constructor
        · intro h
          obtain ⟨rfl, h⟩ := h
          exact h.cons ha hfit
        · intro h
          obtain rfl := h.head_eq ha hfit
          exact ⟨rfl, h.tail ha⟩
      · rw [ih hl, spaced_cons_iff_of_not_fits ha (by simpa using hfit)]

end List
