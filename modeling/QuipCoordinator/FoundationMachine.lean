import Mathlib.Data.List.Basic
import Mathlib.Logic.Function.Basic

/-!
# Guarded state machines

A machine has one initial state, a guard and an update for each event. All
nondeterminism is in the choice of the event, so a run is a list of events.
`restrict` adds a condition that every step of a run has to meet. `maps` is
the rule by which the reachable states of one machine are those of another. A
`Layer` adds local state to a machine: each of its events takes at most one
step of the machine below, so what holds below holds under the layer.
-/

universe u v w x

structure Machine (σ : Type u) (ε : Type v) where
  init : σ
  allowed : σ → ε → Prop
  next : σ → ε → σ

namespace Machine
variable {σ : Type u} {ε : Type v} {τ : Type w} {δ : Type x}

inductive Reachable (M : Machine σ ε) : σ → Prop where
  | init : Reachable M M.init
  | step {s : σ} {e : ε} : Reachable M s → M.allowed s e → Reachable M (M.next s e)

def restrict (M : Machine σ ε) (ok : σ → ε → Prop) : Machine σ ε :=
  { M with allowed := fun s e => M.allowed s e ∧ ok s e }

theorem Reachable.of_restrict {M : Machine σ ε} {ok : σ → ε → Prop} {s : σ}
    (h : (M.restrict ok).Reachable s) : M.Reachable s := by
  induction h with
  | init => exact .init
  | step _ ha ih => exact .step ih ha.1

theorem Reachable.restrict_mono {M : Machine σ ε} {ok ok' : σ → ε → Prop}
    (hok : ∀ s e, (M.restrict ok).Reachable s → ok s e → ok' s e) {s : σ}
    (h : (M.restrict ok).Reachable s) : (M.restrict ok').Reachable s := by
  induction h with
  | init => exact .init
  | step hs ha ih => exact .step ih ⟨ha.1, hok _ _ hs ha.2⟩

/-- The invariant rule. The step may use that its start is reachable. -/
theorem Reachable.invariant {M : Machine σ ε} {I : σ → Prop} (h0 : I M.init)
    (hstep : ∀ s e, M.Reachable s → I s → M.allowed s e → I (M.next s e))
    {s : σ} (h : M.Reachable s) : I s := by
  induction h with
  | init => exact h0
  | step hs ha ih => exact hstep _ _ hs ih ha

def run (M : Machine σ ε) : σ → List ε → σ
  | s, [] => s
  | s, e :: es => run M (M.next s e) es

def Accepts (M : Machine σ ε) : σ → List ε → Prop
  | _, [] => True
  | s, e :: es => M.allowed s e ∧ Accepts M (M.next s e) es

instance decidableAccepts (M : Machine σ ε) [hd : ∀ s e, Decidable (M.allowed s e)] :
    ∀ (s : σ) (es : List ε), Decidable (M.Accepts s es)
  | _, [] => .isTrue trivial
  | s, e :: es =>
    have := decidableAccepts M (M.next s e) es
    inferInstanceAs (Decidable (M.allowed s e ∧ M.Accepts (M.next s e) es))

instance (M : Machine σ ε) (ok : σ → ε → Prop) [∀ s e, Decidable (M.allowed s e)]
    [∀ s e, Decidable (ok s e)] (s : σ) (e : ε) : Decidable ((M.restrict ok).allowed s e) :=
  inferInstanceAs (Decidable (M.allowed s e ∧ ok s e))

theorem Reachable.run {M : Machine σ ε} {s : σ} (h : M.Reachable s) (es : List ε)
    (ha : M.Accepts s es) : M.Reachable (M.run s es) := by
  induction es generalizing s with
  | nil => exact h
  | cons e es ih => exact ih (.step h ha.1) ha.2

theorem reachable_run {M : Machine σ ε} (es : List ε) (ha : M.Accepts M.init es) :
    M.Reachable (M.run M.init es) :=
  Reachable.run .init es ha

theorem restrict_run (M : Machine σ ε) (ok : σ → ε → Prop) (s : σ) (es : List ε) :
    (M.restrict ok).run s es = M.run s es := by
  induction es generalizing s with
  | nil => rfl
  | cons e es ih => exact ih _

theorem reachable_restrict_run {M : Machine σ ε} {ok : σ → ε → Prop} (es : List ε)
    (ha : (M.restrict ok).Accepts M.init es) : (M.restrict ok).Reachable (M.run M.init es) := by
  rw [← restrict_run M ok]
  exact Reachable.run .init es ha

/-- Simulation: each step of `M` from a reachable state is an accepted run of `N`
on the images. -/
theorem Reachable.maps {M : Machine σ ε} {N : Machine τ δ} {f : σ → τ}
    (h0 : f M.init = N.init)
    (hstep : ∀ s e, M.Reachable s → M.allowed s e →
      ∃ es, N.Accepts (f s) es ∧ f (M.next s e) = N.run (f s) es)
    {s : σ} (h : M.Reachable s) : N.Reachable (f s) := by
  induction h with
  | init => rw [h0]; exact .init
  | step hs ha ih =>
    obtain ⟨es, hes, hf⟩ := hstep _ _ hs ha
    rw [hf]
    exact ih.run es hes

/-- Local state over the machine `N`, with events that take at most one step of `N`. -/
structure Layer (N : Machine τ δ) (σ : Type u) (ε : Type v) where
  init : σ
  guard : τ → σ → ε → Prop
  emit : τ → σ → ε → Option δ
  next : τ → σ → ε → σ

namespace Layer
variable {N : Machine τ δ}

def machine (L : Layer N σ ε) : Machine (τ × σ) ε where
  init := (N.init, L.init)
  allowed x e := L.guard x.1 x.2 e ∧ ∀ d ∈ L.emit x.1 x.2 e, N.allowed x.1 d
  next x e := ((L.emit x.1 x.2 e).elim x.1 (N.next x.1), L.next x.1 x.2 e)

instance (L : Layer N σ ε) [∀ t s e, Decidable (L.guard t s e)]
    [∀ t d, Decidable (N.allowed t d)] (x : τ × σ) (e : ε) :
    Decidable (L.machine.allowed x e) :=
  inferInstanceAs (Decidable (_ ∧ ∀ d ∈ L.emit x.1 x.2 e, N.allowed x.1 d))

theorem machine_next_fst_none {L : Layer N σ ε} {x : τ × σ} {e : ε}
    (h : L.emit x.1 x.2 e = none) : (L.machine.next x e).1 = x.1 := by
  simp only [machine, h, Option.elim_none]

theorem machine_next_fst_some {L : Layer N σ ε} {x : τ × σ} {e : ε} {d : δ}
    (h : L.emit x.1 x.2 e = some d) : (L.machine.next x e).1 = N.next x.1 d := by
  simp only [machine, h, Option.elim_some]

/-- What holds of the state below after an event: it took no step there, or one. -/
theorem base_next {L : Layer N σ ε} {P : τ → Prop} {x : τ × σ} {e : ε}
    (stay : L.emit x.1 x.2 e = none → P x.1)
    (step : ∀ d, L.emit x.1 x.2 e = some d → P (N.next x.1 d)) : P (L.machine.next x e).1 := by
  cases hd : L.emit x.1 x.2 e with
  | none =>
    rw [machine_next_fst_none hd]
    exact stay hd
  | some d =>
    rw [machine_next_fst_some hd]
    exact step d hd

theorem base_reachable_restrict {L : Layer N σ ε} {ok : τ × σ → ε → Prop} {ok' : τ → δ → Prop}
    (hok : ∀ x e d, ok x e → L.emit x.1 x.2 e = some d → ok' x.1 d) {x : τ × σ}
    (h : (L.machine.restrict ok).Reachable x) : (N.restrict ok').Reachable x.1 := by
  refine h.maps (f := Prod.fst) rfl ?_
  intro x e _ ha
  cases hd : L.emit x.1 x.2 e with
  | none => exact ⟨[], trivial, machine_next_fst_none hd⟩
  | some d =>
    refine ⟨[d], ⟨⟨ha.1.2 d hd, hok x e d ha.2 hd⟩, trivial⟩, ?_⟩
    exact machine_next_fst_some hd

theorem base_reachable {L : Layer N σ ε} {x : τ × σ} (h : L.machine.Reachable x) :
    N.Reachable x.1 := by
  refine h.maps (f := Prod.fst) rfl ?_
  intro x e _ ha
  cases hd : L.emit x.1 x.2 e with
  | none => exact ⟨[], trivial, machine_next_fst_none hd⟩
  | some d => exact ⟨[d], ⟨ha.2 d hd, trivial⟩, machine_next_fst_some hd⟩

end Layer
end Machine
