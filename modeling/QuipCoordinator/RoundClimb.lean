import QuipCoordinator.Feeder

/-!
# The climb of a walk to mining

`Drive` is what `drive_to_mining` holds: the state of the machine, the snapshot it
has read, and the record of its steps. A slow step only warns and is no step here.
A climb from `stopMining` has passed the states below its own, in their order, and
between two of its steps it leaves a state only when that state is done.
-/

namespace QuipCoordinator

/-- What a step came to: `unconfirmed` is a sync state that the node does not tell. -/
inductive StepResult
  | done
  | unconfirmed
  | failed
  | downloaded (snap : MiningSnapshot)
deriving DecidableEq

namespace RoundState

def event : RoundState → StepResult → Option RoundEvent
  | .stopMining, .done | .validatorSynced, .done | .validatorSynced, .unconfirmed
  | .accountFunded, .done | .minerRegistered, .done | .requirementsDownloaded, .downloaded _
  | .descriptorFiled, .done => some .succeeded
  | .accountFunded, .failed | .minerRegistered, .failed | .requirementsDownloaded, .failed =>
    some .failed
  | .awaitingQBlock, .done => some .resume
  | _, _ => none

def below : RoundState → List RoundState
  | .stopMining | .awaitingQBlock => []
  | .validatorSynced => [.stopMining]
  | .accountFunded => [.stopMining, .validatorSynced]
  | .minerRegistered => [.stopMining, .validatorSynced, .accountFunded]
  | .requirementsDownloaded => [.stopMining, .validatorSynced, .accountFunded, .minerRegistered]
  | .descriptorFiled => [.stopMining, .validatorSynced, .accountFunded, .minerRegistered,
      .requirementsDownloaded]
  | .startMining => [.stopMining, .validatorSynced, .accountFunded, .minerRegistered,
      .requirementsDownloaded, .descriptorFiled]

def informed : RoundState → Bool
  | .descriptorFiled | .startMining => true
  | _ => false

end RoundState

abbrev WalkStep := RoundState × StepResult

structure Drive where
  machine : RoundState
  snap : Option MiningSnapshot
  steps : List WalkStep
deriving DecidableEq

def passed (steps : List WalkStep) : List RoundState :=
  (steps.filter fun step => step.2 ≠ .failed).map (·.1)

theorem passed_append (steps steps' : List WalkStep) :
    passed (steps ++ steps') = passed steps ++ passed steps' := by
  simp [passed]

namespace Drive

def start (machine : RoundState) : Drive := ⟨machine, none, []⟩

def keep (d : Drive) : StepResult → Option MiningSnapshot
  | .downloaded snap => some snap
  | _ => d.snap

def step (d : Drive) (r : StepResult) : Option Drive := do
  let event ← d.machine.event r
  let machine ← d.machine.transition event
  pure ⟨machine, d.keep r, d.steps ++ [(d.machine, r)]⟩

/-- What a turn can do to a climb: it repeats a state that failed, or it leaves a state that is
done for the next one. -/
theorem step_cases {d d' : Drive} {r : StepResult} (h : d.step r = some d') :
    d'.steps = d.steps ++ [(d.machine, r)] ∧ d'.snap = d.keep r ∧
      ((r = .failed ∧ d'.machine = d.machine) ∨
        (r ≠ .failed ∧ (d.machine = .awaitingQBlock ∨
          (d'.machine.below = d.machine.below ++ [d.machine] ∧ d'.machine ≠ .awaitingQBlock)))) := by
  obtain ⟨event, he, h⟩ := Option.bind_eq_some_iff.mp h
  obtain ⟨machine, hm, h⟩ := Option.bind_eq_some_iff.mp h
  obtain rfl := Option.some.inj h
  refine ⟨rfl, rfl, ?_⟩
  cases hs : d.machine <;> rw [hs] at he hm <;> cases r <;> cases he <;> cases hm <;>
    simp [RoundState.below]

theorem step_informed {d d' : Drive} {r : StepResult} (h : d.step r = some d') :
    (∃ snap, r = .downloaded snap ∧ d.machine = .requirementsDownloaded ∧
        d'.machine.informed = true ∧ d'.snap = some snap) ∨
      d'.snap = d.snap ∧ (d'.machine.informed = true → d.machine.informed = true) := by
  obtain ⟨event, he, h⟩ := Option.bind_eq_some_iff.mp h
  obtain ⟨machine, hm, h⟩ := Option.bind_eq_some_iff.mp h
  obtain rfl := Option.some.inj h
  cases hs : d.machine <;> rw [hs] at he hm <;> cases r <;> cases he <;> cases hm <;>
    simp [RoundState.informed, keep]

structure Climb (d : Drive) : Prop where
  below : passed d.steps = d.machine.below
  walks : d.machine ≠ .awaitingQBlock
  -- after a failed step comes a step of the same state, or none
  repeats : ∀ before s after, d.steps = before ++ (s, .failed) :: after →
    ((after.head?.map (·.1)).getD d.machine) = s
  read : ∀ snap, d.snap = some snap → ∃ before after,
    d.steps = before ++ (.requirementsDownloaded, .downloaded snap) :: after ∧
      passed before = [.stopMining, .validatorSynced, .accountFunded, .minerRegistered]
  informed : d.machine.informed = true → d.snap ≠ none

theorem climb_start : Climb (start .stopMining) where
  below := rfl
  walks := RoundState.noConfusion
  repeats before s after h := absurd h.symm (by simp [start])
  read snap h := nomatch h
  informed h := nomatch h

theorem Climb.repeats_step {d d' : Drive} {r : StepResult} (h : d.Climb)
    (hs : d'.steps = d.steps ++ [(d.machine, r)])
    (hfail : r = .failed → d'.machine = d.machine) {before after : List WalkStep} {s : RoundState}
    (he : d'.steps = before ++ (s, .failed) :: after) :
    ((after.head?.map (·.1)).getD d'.machine) = s := by
  rw [hs] at he
  rcases List.eq_nil_or_concat' after with rfl | ⟨after, last, rfl⟩
  · obtain ⟨-, hlast⟩ := List.append_inj' he rfl
    obtain ⟨rfl, rfl⟩ := Prod.mk.inj (List.cons.inj hlast).1
    exact hfail rfl
  · rw [← List.cons_append, ← List.append_assoc] at he
    obtain ⟨hold, hlast⟩ := List.append_inj' he rfl
    have hprev := h.repeats before s after hold
    cases after with
    | nil =>
      obtain rfl := (List.cons.inj hlast).1
      exact hprev
    | cons step after => exact hprev

theorem Climb.step {d d' : Drive} {r : StepResult} (h : d.Climb) (hs : d.step r = some d') :
    d'.Climb := by
  obtain ⟨hsteps, -, hmove⟩ := step_cases hs
  have hinf := step_informed hs
  refine ⟨?_, ?_, ?_, ?_, ?_⟩
  · rw [hsteps, passed_append, h.below]
    rcases hmove with ⟨rfl, hm⟩ | ⟨hr, hm | ⟨hm, -⟩⟩
    · rw [hm]
      simp [passed]
    · exact absurd hm h.walks
    · rw [hm]
      simp [passed, hr]
  · rcases hmove with ⟨-, hm⟩ | ⟨-, hm | ⟨-, hm⟩⟩
    · rw [hm]
      exact h.walks
    · exact absurd hm h.walks
    · exact hm
  · intro before s after he
    apply h.repeats_step hsteps _ he
    intro hr
    rcases hmove with ⟨-, hm⟩ | ⟨hne, -⟩
    · exact hm
    · exact absurd hr hne
  · intro snap hsnap
    rcases hinf with ⟨snap', rfl, hm, -, hs'⟩ | ⟨hs', -⟩
    · obtain rfl : snap' = snap := Option.some.inj (hs'.symm.trans hsnap)
      refine ⟨d.steps, [], by rw [hsteps, hm], ?_⟩
      rw [h.below, hm]
      rfl
    · obtain ⟨before, after, he, hp⟩ := h.read snap (hs'.symm.trans hsnap)
      refine ⟨before, after ++ [(d.machine, r)], ?_, hp⟩
      rw [hsteps, he, List.append_assoc]
      rfl
  · intro hd
    rcases hinf with ⟨snap, -, -, -, hs'⟩ | ⟨hs', hback⟩
    · rw [hs']
      exact Option.some_ne_none snap
    · rw [hs']
      exact h.informed (hback hd)

end Drive
end QuipCoordinator
