import Mathlib.Data.List.Basic

/-!
# Draining a source

A source hands out one item at a time with what is left of it. It is drained with fuel. Where a
measure falls with every item, as much fuel as the measure is enough.
-/

universe u v

variable {σ : Type u} {α : Type v}

def drainSource (next : σ → Option (α × σ)) : Nat → σ → Option (List α)
  | 0, s =>
    match next s with
    | none => some []
    | some _ => none
  | fuel + 1, s =>
    match next s with
    | none => some []
    | some (a, s') => (drainSource next fuel s').map (a :: ·)

inductive Drains (next : σ → Option (α × σ)) : σ → List α → Prop
  | ended {s : σ} : next s = none → Drains next s []
  | item {s s' : σ} {a : α} {items : List α} :
      next s = some (a, s') → Drains next s' items → Drains next s (a :: items)

namespace Drains
variable {next : σ → Option (α × σ)} {s : σ} {items : List α}

theorem drain_eq (h : Drains next s items) {fuel : Nat} (hfuel : items.length ≤ fuel) :
    drainSource next fuel s = some items := by
  induction h generalizing fuel with
  | ended hnext =>
    cases fuel <;> rw [drainSource, hnext]
  | item hnext hrest ih =>
    cases fuel with
    | zero => simp at hfuel
    | succ fuel =>
      rw [drainSource, hnext]
      dsimp only
      rw [ih (by simpa using hfuel)]
      rfl

theorem exists_of_measure (μ : σ → Nat)
    (hμ : ∀ s a s', next s = some (a, s') → μ s' < μ s) (s : σ) :
    ∃ items, Drains next s items ∧ items.length ≤ μ s := by
  generalize hn : μ s = n
  induction n using Nat.strongRecOn generalizing s with
  | ind n ih =>
    cases hnext : next s with
    | none => exact ⟨[], .ended hnext, Nat.zero_le n⟩
    | some p =>
      have hlt : μ p.2 < n := hn ▸ hμ s p.1 p.2 hnext
      obtain ⟨items, hitems, hlen⟩ := ih _ hlt p.2 rfl
      refine ⟨p.1 :: items, .item hnext hitems, ?_⟩
      rw [List.length_cons]
      omega

end Drains
