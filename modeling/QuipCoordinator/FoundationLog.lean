import Mathlib.Data.List.Basic
import Mathlib.Data.List.Induction

/-!
# Logs in which one entry permits another

A log is a list of entries, oldest first. Some entries arm it and some disarm it;
`armed` says which came last. A log is guarded when every firing entry found it
armed. If firing disarms, then at most one entry fires between two that arm. A
log splits in one way at the last of its entries without a property.
-/

universe u

namespace List
variable {α : Type u} (arms disarms fires : α → Bool)

def armed (log : List α) : Bool :=
  log.foldl (fun b m => arms m || (b && !disarms m)) false

def Guarded (log : List α) : Prop :=
  ∀ before m after, log = before ++ m :: after → fires m = true → armed arms disarms before = true

variable {arms disarms fires} {log : List α}

theorem armed_concat (log : List α) (m : α) :
    armed arms disarms (log ++ [m]) = (arms m || (armed arms disarms log && !disarms m)) := by
  rw [armed, foldl_append]
  rfl

theorem armed_append {ms : List α} (h : armed arms disarms log = true)
    (hms : ∀ m ∈ ms, disarms m = false) : armed arms disarms (log ++ ms) = true := by
  induction ms generalizing log with
  | nil => rwa [append_nil]
  | cons m ms ih =>
    rw [← singleton_append, ← append_assoc]
    refine ih ?_ fun k hk => hms k (mem_cons_of_mem _ hk)
    rw [armed_concat, h, hms m mem_cons_self, Bool.not_false, Bool.and_true, Bool.or_true]

theorem armed_of_mem {ms : List α} {m : α} (hm : m ∈ ms) (ha : arms m = true)
    (hms : ∀ k ∈ ms, disarms k = false) : armed arms disarms (log ++ ms) = true := by
  obtain ⟨before, after, rfl⟩ := append_of_mem hm
  rw [← append_assoc, ← singleton_append, ← append_assoc]
  refine armed_append ?_ fun k hk => hms k (mem_append_right _ (mem_cons_of_mem _ hk))
  rw [armed_concat, ha, Bool.true_or]

theorem armed_of_append {ms : List α} (h : armed arms disarms (log ++ ms) = true)
    (hms : ∀ m ∈ ms, arms m = false) : armed arms disarms log = true := by
  induction ms generalizing log with
  | nil => rwa [append_nil] at h
  | cons m ms ih =>
    rw [← singleton_append, ← append_assoc] at h
    have hm := ih h fun k hk => hms k (mem_cons_of_mem _ hk)
    rw [armed_concat, hms m mem_cons_self, Bool.false_or, Bool.and_eq_true] at hm
    exact hm.1

theorem guarded_nil : Guarded arms disarms fires [] := by
  intro before m after h
  exact absurd h.symm (by simp)

theorem Guarded.of_append {ms : List α} (h : Guarded arms disarms fires (log ++ ms)) :
    Guarded arms disarms fires log := by
  intro before m after hlog hf
  refine h before m (after ++ ms) ?_ hf
  rw [hlog, append_assoc, cons_append]

theorem Guarded.concat {m : α} (h : Guarded arms disarms fires log)
    (hm : fires m = true → armed arms disarms log = true) :
    Guarded arms disarms fires (log ++ [m]) := by
  intro before k after hlog hf
  rcases eq_nil_or_concat after with rfl | ⟨rest, last, rfl⟩
  · obtain ⟨rfl, hk⟩ := append_inj' hlog rfl
    cases hk
    exact hm hf
  · rw [concat_eq_append, ← cons_append, ← append_assoc] at hlog
    exact h before k rest (append_inj' hlog rfl).1 hf

theorem Guarded.append {ms : List α} (h : Guarded arms disarms fires log)
    (hms : ∀ m ∈ ms, fires m = false) : Guarded arms disarms fires (log ++ ms) := by
  induction ms generalizing log with
  | nil => rwa [append_nil]
  | cons m ms ih =>
    rw [← singleton_append, ← append_assoc]
    refine ih (h.concat ?_) fun k hk => hms k (mem_cons_of_mem _ hk)
    intro hf
    rw [hms m mem_cons_self] at hf
    cases hf

/-- A log that fires after it was disarmed was armed in between. -/
theorem Guarded.exists_arms (h : Guarded arms disarms fires log) {a b c : List α} {d m : α}
    (hlog : log = a ++ d :: b ++ m :: c) (hd : disarms d = true ∧ arms d = false)
    (hm : fires m = true) : ∃ k ∈ b, arms k = true := by
  by_contra hnone
  have hb : ∀ k ∈ b, arms k = false := by
    intro k hk
    exact Bool.eq_false_iff.mpr fun hk' => hnone ⟨k, hk, hk'⟩
  have harmed := h _ m c hlog hm
  rw [← singleton_append, ← append_assoc] at harmed
  have hcut := armed_of_append harmed hb
  simp [armed_concat, hd.1, hd.2] at hcut

theorem Guarded.countP_le {b : List α} (hdis : ∀ m, fires m = true → disarms m = true)
    (h : Guarded arms disarms fires (log ++ b)) (hb : ∀ m ∈ b, arms m = false) :
    b.countP fires ≤ (armed arms disarms log).toNat := by
  induction b generalizing log with
  | nil => exact Nat.zero_le _
  | cons m b ih =>
    have hm : arms m = false := hb m mem_cons_self
    have htail : Guarded arms disarms fires ((log ++ [m]) ++ b) := by
      rwa [append_assoc, singleton_append]
    have hle := ih htail fun k hk => hb k (mem_cons_of_mem _ hk)
    rw [armed_concat, hm, Bool.false_or] at hle
    cases hf : fires m with
    | true =>
      have harmed : armed arms disarms log = true := h log m b rfl hf
      rw [hdis m hf, Bool.not_true, Bool.and_false] at hle
      rw [countP_cons_of_pos hf, harmed]
      exact Nat.succ_le_succ hle
    | false =>
      rw [countP_cons_of_neg (by simp [hf])]
      refine Nat.le_trans hle ?_
      cases armed arms disarms log <;> cases disarms m <;> decide

theorem Guarded.countP_le_one (hdis : ∀ m, fires m = true → disarms m = true)
    (h : Guarded arms disarms fires log) {a b c : List α} (hlog : log = a ++ b ++ c)
    (hb : ∀ m ∈ b, arms m = false) : b.countP fires ≤ 1 := by
  rw [hlog] at h
  exact Nat.le_trans (h.of_append.countP_le hdis hb) (Bool.toNat_le _)

theorem split_last_unique {p : α → Bool} {a a' b b' : List α} {x x' : α}
    (h : a ++ x :: b = a' ++ x' :: b') (hx : p x = false) (hx' : p x' = false)
    (hb : ∀ y ∈ b, p y = true) (hb' : ∀ y ∈ b', p y = true) : a = a' ∧ x = x' ∧ b = b' := by
  have hclash : ∀ {l l' : List α} {y z : α}, l ++ [y] = l' ++ [z] → p y = false →
      p z = true → False := by
    intro l l' y z heq hy hz
    obtain ⟨-, hlast⟩ := List.append_inj' heq rfl
    rw [List.singleton_inj.mp hlast, hz] at hy
    exact nomatch hy
  induction b using List.reverseRecOn generalizing b' with
  | nil =>
    induction b' using List.reverseRecOn with
    | nil =>
      obtain ⟨ha, hlast⟩ := List.append_inj' h rfl
      exact ⟨ha, List.singleton_inj.mp hlast, rfl⟩
    | append_singleton c z _ =>
      rw [← List.cons_append, ← List.append_assoc] at h
      exact (hclash h hx (hb' z (by simp))).elim
  | append_singleton c y ih =>
    rw [← List.cons_append, ← List.append_assoc] at h
    induction b' using List.reverseRecOn with
    | nil => exact (hclash h.symm hx' (hb y (by simp))).elim
    | append_singleton c' z _ =>
      rw [← List.cons_append, ← List.append_assoc] at h
      obtain ⟨hfront, hlast⟩ := List.append_inj' h rfl
      obtain ⟨ha, hxx, hc⟩ := ih hfront (fun w hw => hb w (List.mem_append_left _ hw))
        (fun w hw => hb' w (List.mem_append_left _ hw))
      exact ⟨ha, hxx, by rw [hc, List.singleton_inj.mp hlast]⟩

end List
