import QuipCoordinator.Submissions

/-!
# The stash belongs to its generation

Both resets give the stash the feeder's generation and empty it, so only an
insert can put a candidate of another generation in it. A session inserts the
outcome of a job it took earlier, and the round can end in between while its
submit is in flight. That is the only way for an old candidate to get in.
-/

namespace QuipCoordinator
open CoordinatorState

/-- Every candidate has the stash's generation, which is the state's, and the candidate that the
feeder is submitting has it too. -/
def StashCurrent (x : World × Submissions) : Prop :=
  x.1.coord.stash.generation = x.1.coord.generation ∧
    (∀ cand ∈ x.1.coord.stash.candidates, cand.generation = x.1.coord.stash.generation) ∧
    ∀ cand read, x.2.win = some (cand, read) → cand.proof.generation = x.1.coord.generation

section
variable [Crates]

/-- The settle of a task inserts nothing, or no round ended since it took its job. -/
def Task.Timely (st : CoordinatorState) (stops : Nat) : Task → Prop
  | .settling o retain read => (o.validated.accepted = true ∧ retain = false) ∨
    st.stash.viabilityBlock o.candidate.bestEnergyMilli = none ∨ read.stops = stops
  | _ => True

instance (st : CoordinatorState) (stops : Nat) : (t : Task) → Decidable (t.Timely st stops)
  | .settling _ _ _ => inferInstanceAs (Decidable (_ ∨ _ ∨ _))
  | .idle | .lease _ | .plain _ | .verified _ _ | .submitting _ _ | .order _ _ | .answering _ =>
    .isTrue trivial

/-- A session settles an outcome in the round in which it took the job, unless the outcome is
not stashed. -/
def SettlesInRound (x : World × Submissions) : SubmissionEvent → Prop
  | .settle tx => ∀ r ∈ x.2.readers.lookup tx, r.task.Timely x.1.coord x.2.stops
  | _ => True

instance (x : World × Submissions) : (e : SubmissionEvent) → Decidable (SettlesInRound x e)
  | .settle tx => inferInstanceAs
      (Decidable (∀ r ∈ x.2.readers.lookup tx, r.task.Timely x.1.coord x.2.stops))
  | .hello _ _ | .result _ _ | .take _ | .note _ | .receipt _ _ | .orderGates _
  | .orderReceipt _ _ | .stopMining | .reseed _ _ _ | .topUp _ _ _ | .winReceipt _ _ | .other _ =>
    .isTrue trivial

omit [Crates] in
def CoordinatorState.OwnStash (st : CoordinatorState) : Prop :=
  st.stash.generation = st.generation ∧
    ∀ cand ∈ st.stash.candidates, cand.generation = st.generation

structure StashInv (x : World × Submissions) : Prop where
  stash : x.1.coord.OwnStash
  tasks : ∀ tx r, x.2.readers.lookup tx = some r → ∀ o read, r.task.pending = some (o, read) →
    read.stops ≤ x.2.stops ∧ (read.stops = x.2.stops → o.job.generation = x.1.coord.generation)
  win : ∀ cand read, x.2.win = some (cand, read) → cand.generation = x.1.coord.generation

theorem stashInv_init (params : FeederParams) : StashInv (submissionMachine params).init where
  stash := ⟨rfl, fun _ h => absurd h List.not_mem_nil⟩
  tasks := fun _ _ h => absurd h (no_reader_init params)
  win := fun _ _ h => nomatch h

theorem StashInv.tasks_next (params : FeederParams) {x : World × Submissions}
    {e : SubmissionEvent} (hr : x.1.RoundInv) (h : StashInv x) (hg : x.2.Guard e)
    {tx : SessionId} {r' : Reader} {o : PowOutcome} {read : ReadAt}
    (hr' : ((submissionMachine params).next x e).2.readers.lookup tx = some r')
    (ho : r'.task.pending = some (o, read)) :
    read.stops ≤ ((submissionMachine params).next x e).2.stops ∧
      (read.stops = ((submissionMachine params).next x e).2.stops →
        o.job.generation = ((submissionMachine params).next x e).1.coord.generation) := by
  have hold : read.stops ≤ x.2.stops ∧
      (read.stops = x.2.stops → o.job.generation = x.1.coord.generation) := by
    rcases Submissions.reader_next hr' with hidle | ⟨hsame, -⟩ | ⟨r, hl, -, rfl⟩
    · rw [hidle] at ho
      exact nomatch ho
    · exact h.tasks tx r' hsame o read ho
    · rcases Submissions.pending_react ho with hp | ⟨rfl, result, hout⟩
      · exact h.tasks tx r hl o read hp
      · exact ⟨le_rfl, fun _ => (hr.outcome hout).2⟩
  by_cases hstop : e = .stopMining
  · subst hstop
    have hstops : ((submissionMachine params).next x .stopMining).2.stops = x.2.stops + 1 := rfl
    rw [hstops]
    exact ⟨by omega, fun heq => by omega⟩
  · have hstops : ((submissionMachine params).next x e).2.stops = x.2.stops := by
      cases e <;> first | rfl | exact absurd rfl hstop
    rw [hstops, generation_submission params hg hstop]
    exact hold

/-- What an event of the submitters makes of the stash of `x`. Only a settle adds to it. -/
inductive StashStep (x : World × Submissions) (e : SubmissionEvent) (st : CoordinatorState) : Prop
  | keep : st.generation = x.1.coord.generation → st.stash = x.1.coord.stash → StashStep x e st
  | empty : st.stash.generation = st.generation → st.stash.candidates = [] → StashStep x e st
  | ease (algorithm : DecayAlgorithm) : st.generation = x.1.coord.generation →
    st.stash = x.1.coord.stash.setAlgorithm algorithm → StashStep x e st
  | mark (jobId : JobId) : st.generation = x.1.coord.generation →
    st.stash = x.1.coord.stash.markSubmitted jobId → StashStep x e st
  | settle (tx : SessionId) (r : Reader) (o : PowOutcome) (retain : Bool) (read : ReadAt) :
    e = .settle tx → x.2.readers.lookup tx = some r → r.task = .settling o retain read →
    st = x.1.coord.settle o retain → StashStep x e st

theorem stashStep_next (params : FeederParams) {x : World × Submissions} {e : SubmissionEvent}
    (hr : x.1.RoundInv) (hg : x.2.Guard e) :
    StashStep x e ((submissionMachine params).next x e).1.coord := by
  cases hs : e.steady with
  | true =>
    have hsame := sameRound_steady params hs hg
    exact .keep hsame.generation hsame.stash
  | false =>
    refine Machine.Layer.base_next (P := fun w : World => StashStep x e w.coord) ?_ ?_
    · exact fun _ => .keep rfl rfl
    intro d (hd : x.2.emit e = some d)
    cases e with
    | receipt tx receipt =>
      obtain ⟨energy, -, rfl⟩ := Option.map_eq_some_iff.mp hd
      exact .keep rfl rfl
    | settle tx =>
      obtain ⟨r, o, retain, read, hl, ht, rfl⟩ := Submissions.emit_settle hd
      exact .settle tx r o retain read rfl hl ht rfl
    | stopMining =>
      cases hd
      exact .empty rfl rfl
    | reseed snap q dp =>
      cases hd
      exact .empty hr.feeder.symm rfl
    | topUp snap plans block =>
      cases hd
      obtain ⟨hgen, -, hstash⟩ := round_topUp params x.1.toStaging snap plans
      exact .ease _ hgen hstash
    | winReceipt receipt exhausted =>
      obtain ⟨cand, read, -, ⟨-, rfl⟩ | rfl⟩ := Submissions.emit_winReceipt hd
      · exact .mark cand.jobId rfl rfl
      · exact .mark cand.jobId rfl rfl
    | _ => exact absurd hs Bool.noConfusion

theorem CoordinatorState.OwnStash.settle {st : CoordinatorState} (h : st.OwnStash)
    {o : PowOutcome} {retain : Bool}
    (ho : (o.validated.accepted = true ∧ retain = false) ∨
      st.stash.viabilityBlock o.candidate.bestEnergyMilli = none ∨
      o.job.generation = st.generation) : (st.settle o retain).OwnStash := by
  rw [CoordinatorState.settle]
  split_ifs with hkeep
  · refine ⟨(WinStash.generation_insert st.stash o.candidate).trans h.1, fun cand hc => ?_⟩
    rcases WinStash.mem_insert hc with hc | ⟨rfl, hv⟩
    · exact h.2 cand hc
    · rcases ho with ⟨hacc, hret⟩ | hnone | hgen
      · simp [hacc, hret] at hkeep
      · rw [hnone] at hv
        exact absurd hv Bool.noConfusion
      · exact hgen
  · exact h

theorem StashInv.stash_next (params : FeederParams) {x : World × Submissions} {e : SubmissionEvent}
    (hr : x.1.RoundInv) (h : StashInv x) (hg : x.2.Guard e) (hok : SettlesInRound x e) :
    ((submissionMachine params).next x e).1.coord.OwnStash := by
  cases stashStep_next params hr hg with
  | keep hgen hstash =>
    rw [OwnStash, hstash, hgen]
    exact h.stash
  | empty hgen hnil =>
    refine ⟨hgen, fun cand hc => ?_⟩
    rw [hnil] at hc
    exact absurd hc List.not_mem_nil
  | ease algorithm hgen hstash =>
    rw [OwnStash, hstash, hgen]
    exact h.stash
  | mark jobId hgen hstash =>
    rw [OwnStash, hstash, hgen]
    refine ⟨h.stash.1, fun cand hc => ?_⟩
    obtain ⟨cand', hc', rfl | rfl⟩ := WinStash.mem_markFirst hc
    · exact h.stash.2 cand hc'
    · exact h.stash.2 cand' hc'
  | settle tx r o retain read he hl ht hst =>
    rw [hst]
    subst he
    have htimely := hok r hl
    rw [ht] at htimely
    refine h.stash.settle (htimely.imp_right (Or.imp_right fun hstops => ?_))
    exact (h.tasks tx r hl o read (by rw [ht]; rfl)).2 hstops

/-- The feeder picks its candidate from the stash and waits for the receipt before it ends a
round. -/
theorem StashInv.win_next (params : FeederParams) {x : World × Submissions} {e : SubmissionEvent}
    (h : StashInv x) (hg : x.2.Guard e) {cand : Candidate} {read : ReadAt}
    (hw : ((submissionMachine params).next x e).2.win = some (cand, read)) :
    cand.generation = ((submissionMachine params).next x e).1.coord.generation := by
  have hkeep : x.2.win = some (cand, read) → e ≠ .stopMining →
      cand.generation = ((submissionMachine params).next x e).1.coord.generation := by
    intro hw he
    rw [generation_submission params hg he]
    exact h.win cand read hw
  cases e with
  | topUp snap plans block =>
    rw [generation_submission params hg (by simp)]
    obtain ⟨c, hc, heq⟩ := Option.map_eq_some_iff.mp hw
    obtain ⟨rfl, -⟩ := Prod.mk.inj heq
    have hmem := WinStash.dueImproving_mem (Option.filter_eq_some_iff.mp hc).1
    have hstash : (x.1.next params (.topUp snap plans)).coord.stash =
        x.1.coord.stash.setAlgorithm (.forSpecVersion snap.specVersion) :=
      (round_topUp params x.1.toStaging snap plans).2.2
    rw [hstash] at hmem
    exact h.stash.2 c hmem
  | winReceipt receipt exhausted => exact nomatch hw
  | stopMining =>
    have hnone : x.2.win = none := hg
    exact nomatch hnone.symm.trans hw
  | _ => exact hkeep hw (by simp)

theorem stashInv_next (params : FeederParams) {x : World × Submissions} {e : SubmissionEvent}
    (hr : x.1.RoundInv) (h : StashInv x) (hg : x.2.Guard e) (hok : SettlesInRound x e) :
    StashInv ((submissionMachine params).next x e) where
  stash := h.stash_next params hr hg hok
  tasks := fun _ _ hr' _ _ ho => h.tasks_next params hr hg hr' ho
  win := fun _ _ hw => h.win_next params hg hw

theorem stashInv_reachable {params : FeederParams} {x : World × Submissions}
    (h : ((submissionMachine params).restrict SettlesInRound).Reachable x) : StashInv x := by
  refine h.invariant (I := StashInv) ?_ ?_
  · exact stashInv_init params
  intro y e hy hi ha
  have hround := World.roundInv_reachable (Machine.Layer.base_reachable hy.of_restrict)
  exact stashInv_next params hround hi ha.1.1 ha.2

/-- In every run in which each stashed outcome is settled in the round of its job, the stash and
the win-time submit hold candidates of the current generation only. -/
theorem stash_holds_current_generation (params : FeederParams) {x : World × Submissions}
    (h : ((submissionMachine params).restrict SettlesInRound).Reachable x) : StashCurrent x := by
  have hinv := stashInv_reachable h
  refine ⟨hinv.stash.1, fun cand hc => ?_, fun cand read hw => hinv.win cand read hw⟩
  rw [hinv.stash.1]
  exact hinv.stash.2 cand hc

end

namespace Sample

def retained : List SubmissionEvent := mined snap [1] ++ [.receipt 0 (some .retry), .settle 0]

def turnedOver : List SubmissionEvent :=
  mined snap [1] ++ [.stopMining, .reseed nextSnap none (some decay), .receipt 0 (some .retry),
    .settle 0]

end Sample

open Sample in
theorem stash_holds_current_generation_sample :
    let x := (submissionMachine params).run (submissionMachine params).init retained
    ∃ cand ∈ x.1.coord.stash.candidates, cand.generation = x.1.coord.stash.generation ∧
      x.1.coord.stash.generation = x.1.coord.generation := by
  have hx := stash_holds_current_generation params
    (Machine.reachable_restrict_run retained (by decide +kernel))
  have hne : ∃ cand ∈ ((submissionMachine params).run (submissionMachine params).init
      retained).1.coord.stash.candidates, cand.jobId = jobId := by decide +kernel
  obtain ⟨cand, hc, -⟩ := hne
  exact ⟨cand, hc, hx.2.1 cand hc, hx.1⟩

open Sample in
/-- The stash of the second generation takes the candidate of the first. -/
theorem settle_after_turnover_stashes_old_candidate :
    ¬ ∀ x, (submissionMachine params).Reachable x → StashCurrent x := by
  intro hall
  have hreach := Machine.reachable_run (M := submissionMachine params) turnedOver
    (by decide +kernel)
  have hold : ∃ cand ∈ ((submissionMachine params).run (submissionMachine params).init
      turnedOver).1.coord.stash.candidates, cand.generation ≠ ((submissionMachine params).run
        (submissionMachine params).init turnedOver).1.coord.stash.generation := by
    decide +kernel
  obtain ⟨cand, hc, hne⟩ := hold
  exact hne ((hall _ hreach).2.1 cand hc)

end QuipCoordinator
