import QuipCoordinator.Submissions

/-!
# Declaring participation

The layer of the feeder's participation over the submitters. The feeder declares
once a miner has worked for the round: it reads the mark of the round under the
lock, at a poll or just before a pending win stops the miners, and then reads the
latest qblock and calls the chain without the lock. `worked` are the generations
for which a session got work while they were current: a `Result` for a plain job in
flight, a verified `Result` with a solution for a lease in flight, or a `LeaseDone`
with salts for a job in flight. `reads` are the latest qblock ids the chain
returned, `calls` the declarations sent, with the generation of the decision.
-/

namespace QuipCoordinator

inductive ParticipationOutcome
  | declared
  | alreadyDeclared
  | staleQBlock
  | descriptorMissing
deriving DecidableEq

/-- Where the feeder is with a declaration for the round of a generation. `stopped` tells a round
that a pending win stopped: its miners stop before the read. -/
inductive Declaring
  | idle
  | stopping (generation : Nat)
  | reading (generation : Nat) (stopped : Bool)
  | calling (generation : Nat) (stopped : Bool) (qblockId : Nat)
deriving DecidableEq

namespace Declaring

def isStopping : Declaring → Bool
  | .stopping _ => true
  | _ => false

def isReading : Declaring → Bool
  | .reading _ _ => true
  | _ => false

def isCalling : Declaring → Bool
  | .calling _ _ _ => true
  | _ => false

def generation : Declaring → Option Nat
  | .idle => none
  | .stopping g | .reading g _ | .calling g _ _ => some g

def after (d : Declaring) (e : SubmissionEvent) : Declaring :=
  match d, e with
  | .stopping g, .stopMining => .reading g true
  | d, _ => d

theorem generation_after (d : Declaring) (e : SubmissionEvent) :
    (d.after e).generation = d.generation := by
  unfold after
  split <;> rfl

theorem after_eq_calling {d : Declaring} {e : SubmissionEvent} {g id : Nat} {stopped : Bool}
    (h : d.after e = .calling g stopped id) : d = .calling g stopped id := by
  unfold after at h
  split at h
  · cases h
  · exact h

end Declaring

structure Participation where
  lastDeclared : Option Nat
  declaredGeneration : Option Nat
  declaring : Declaring
  worked : List Nat
  reads : List (Option Nat)
  calls : List (Nat × Nat)
  settled : List Nat
deriving DecidableEq

/-- `latest` is the answer to the read of the latest qblock id and `answer` that to the call, none
for a chain error. -/
inductive ParticipationEvent
  | submission (e : SubmissionEvent)
  | poll
  | winPending
  | latest (read : Option (Option Nat))
  | answer (outcome : Option ParticipationOutcome)
deriving DecidableEq

def candidateQblockId (latest : Option Nat) : Nat := satAdd 64 (latest.getD 0) 1

def SubmissionEvent.feeder : SubmissionEvent → Bool
  | .stopMining | .reseed _ _ _ | .topUp _ _ _ | .winReceipt _ _ => true
  | _ => false

section
variable [Crates]

/-- The generation that an event gets work for, when it is the current one. -/
def Submissions.work (c : Submissions) (st : CoordinatorState) : SubmissionEvent → Option Nat
  | .take tx => (c.readers.lookup tx).bind fun r =>
    match r.task with
    | .plain result => ((st.inflight.lookup result.jobId).filter fun job =>
        !job.isLease && job.generation == st.generation).map (·.generation)
    | .lease result => ((st.leaseOutcome r.minerId result).filter fun o =>
        o.job.generation == st.generation).map (·.job.generation)
    | _ => none
  | .other (.handleLeaseDone _ done) => ((st.inflight.lookup done.jobId).filter fun job =>
      decide (0 < done.saltsDone) && job.generation == st.generation).map (·.generation)
  | _ => none

namespace Participation

omit [Crates] in
def init : Participation := ⟨none, none, .idle, [], [], [], []⟩

omit [Crates] in
def owed (p : Participation) (w : World) : Bool :=
  decide (p.declaredGeneration ≠ some w.generation) && w.coord.roundMined

omit [Crates] in
/-- The candidate of the round of `generation` is settled. Only a poll remembers the round. -/
def settle (p : Participation) (generation : Nat) (stopped : Bool) : Participation :=
  { p with
    declaring := .idle
    declaredGeneration := if stopped then p.declaredGeneration else some generation }

omit [Crates] in
def declareRoundParticipation (p : Participation) : ParticipationEvent → Participation
  | .latest read =>
    match p.declaring, read with
    | .reading generation stopped, some latest =>
      let qblockId := candidateQblockId latest
      let p := { p with reads := p.reads ++ [latest] }
      if p.lastDeclared = some qblockId then p.settle generation stopped
      else
        { p with
          declaring := .calling generation stopped qblockId
          calls := p.calls ++ [(generation, qblockId)] }
    | _, _ => { p with declaring := .idle }
  | .answer outcome =>
    match p.declaring, outcome with
    | .calling generation stopped qblockId, some _ =>
      { p with lastDeclared := some qblockId, settled := p.settled ++ [qblockId] }.settle
        generation stopped
    | _, _ => { p with declaring := .idle }
  | _ => p

def next (x : World × Submissions) (p : Participation) : ParticipationEvent → Participation
  | .submission e =>
    { p with
      declaring := p.declaring.after e
      worked := p.worked ++ (x.2.work x.1.coord e).toList }
  | .poll => if p.owed x.1 then { p with declaring := .reading x.1.generation false } else p
  | .winPending => if p.owed x.1 then { p with declaring := .stopping x.1.generation } else p
  | e => p.declareRoundParticipation e

omit [Crates] in
def Guard (p : Participation) : ParticipationEvent → Prop
  | .submission e => e.feeder = true →
    p.declaring = .idle ∨ e = .stopMining ∧ p.declaring.isStopping = true
  | .poll | .winPending => p.declaring = .idle
  | .latest _ => p.declaring.isReading = true
  | .answer _ => p.declaring.isCalling = true

omit [Crates] in
instance (p : Participation) : (e : ParticipationEvent) → Decidable (p.Guard e)
  | .submission e => inferInstanceAs (Decidable (e.feeder = true →
    p.declaring = .idle ∨ e = .stopMining ∧ p.declaring.isStopping = true))
  | .poll | .winPending => inferInstanceAs (Decidable (p.declaring = .idle))
  | .latest _ | .answer _ => inferInstanceAs (Decidable (_ = true))

omit [Crates] in
def emit : ParticipationEvent → Option SubmissionEvent
  | .submission e => some e
  | _ => none

omit [Crates] in
theorem latest_cases {p : Participation} (h : p.declaring.isReading = true)
    (read : Option (Option Nat)) : ∃ g stopped, p.declaring = .reading g stopped ∧
      (p.declareRoundParticipation (.latest read) = { p with declaring := .idle } ∨
      ∃ latest,
        p.declareRoundParticipation (.latest read) =
          { p with reads := p.reads ++ [latest] }.settle g stopped ∨
        p.lastDeclared ≠ some (candidateQblockId latest) ∧
          p.declareRoundParticipation (.latest read) =
            { p with
              reads := p.reads ++ [latest]
              declaring := .calling g stopped (candidateQblockId latest)
              calls := p.calls ++ [(g, candidateQblockId latest)] }) := by
  cases hd : p.declaring with
  | reading g stopped =>
    refine ⟨g, stopped, rfl, ?_⟩
    cases read with
    | none =>
      left
      simp only [declareRoundParticipation, hd]
    | some latest =>
      refine Or.inr ⟨latest, ?_⟩
      by_cases hl : p.lastDeclared = some (candidateQblockId latest)
      · left
        simp only [declareRoundParticipation, hd, if_pos hl]
      · refine Or.inr ⟨hl, ?_⟩
        simp only [declareRoundParticipation, hd, if_neg hl]
  | _ =>
    rw [hd] at h
    exact absurd h Bool.noConfusion

omit [Crates] in
theorem answer_cases {p : Participation} (h : p.declaring.isCalling = true)
    (outcome : Option ParticipationOutcome) : ∃ g stopped id, p.declaring = .calling g stopped id ∧
      (p.declareRoundParticipation (.answer outcome) = { p with declaring := .idle } ∨
      p.declareRoundParticipation (.answer outcome) =
        { p with lastDeclared := some id, settled := p.settled ++ [id] }.settle g stopped) := by
  cases hd : p.declaring with
  | calling g stopped id =>
    refine ⟨g, stopped, id, rfl, ?_⟩
    cases outcome with
    | none =>
      left
      simp only [declareRoundParticipation, hd]
    | some outcome =>
      right
      simp only [declareRoundParticipation, hd]
  | _ =>
    rw [hd] at h
    exact absurd h Bool.noConfusion

end Participation

def participationLayer (params : FeederParams) :
    Machine.Layer (submissionMachine params) Participation ParticipationEvent where
  init := .init
  guard _ p := p.Guard
  emit _ _ := Participation.emit
  next x p := p.next x

abbrev participationMachine (params : FeederParams) :
    Machine ((World × Submissions) × Participation) ParticipationEvent :=
  (participationLayer params).machine

instance (params : FeederParams) (x : (World × Submissions) × Participation)
    (e : ParticipationEvent) : Decidable ((participationMachine params).allowed x e) :=
  inferInstanceAs (Decidable (x.2.Guard e ∧ ∀ d ∈ Participation.emit e,
    (submissionMachine params).allowed x.1 d))

/-! ## The mark of the round -/

namespace CoordinatorState

omit [Crates] in
/-- The generation a section marks as mined, when it is the current one. -/
def marks (st : CoordinatorState) : Section → Option Nat
  | .takeResult _ jobId => (st.inflight.lookup jobId).map (·.generation)
  | .noteResult g => some g
  | .handleLeaseDone _ done =>
    if 0 < done.saltsDone then (st.inflight.lookup done.jobId).map (·.generation) else none
  | _ => none

omit [Crates] in
theorem mined_noteResult (st : CoordinatorState) (g : Nat) :
    (st.noteResult g).minedGeneration =
      if g = st.generation then some g else st.minedGeneration := by
  rw [noteResult]
  split_ifs <;> rfl

omit [Crates] in
theorem mined_drain (minerId : MinerId) (now fuel : Nat) (st : CoordinatorState) :
    (drain minerId now fuel st).1.minedGeneration = st.minedGeneration := by
  refine drain_induct (P := fun st out => out.1.minedGeneration = st.minedGeneration)
    ?_ ?_ ?_ fuel st
  · exact fun st => rfl
  · exact fun st r _ => rfl
  · exact fun st r job out _ ih => ih

omit [Crates] in
theorem mined_takeResult {st : CoordinatorState} {minerId : MinerId} {jobId : JobId} {g : Nat}
    (h : (st.takeResult minerId jobId).1.minedGeneration = some g) :
    st.minedGeneration = some g ∨ st.marks (.takeResult minerId jobId) = some g ∧ g = st.generation := by
  cases hl : st.inflight.lookup jobId with
  | none =>
    simp only [takeResult, completeInflight, hl, takeSalt] at h
    exact Or.inl h
  | some job =>
    simp only [takeResult, completeInflight, hl, takeSalt, mined_noteResult] at h
    split_ifs at h with hg
    · cases h
      refine Or.inr ⟨?_, hg⟩
      rw [marks, hl]
      rfl
    · exact Or.inl h

omit [Crates] in
theorem mined_handleLeaseDone {st : CoordinatorState} {minerId : MinerId} {done : LeaseDone} {g : Nat}
    (h : (st.handleLeaseDone minerId done).minedGeneration = some g) :
    st.minedGeneration = some g ∨
      st.marks (.handleLeaseDone minerId done) = some g ∧ g = st.generation := by
  cases hl : st.inflight.lookup done.jobId with
  | none =>
    simp only [handleLeaseDone, completeInflight, hl] at h
    exact Or.inl h
  | some job =>
    by_cases hg : job.generation = st.generation
    · simp only [handleLeaseDone, completeInflight, hl, noteResult, if_pos hg] at h
      split_ifs at h with hs
      · cases h
        refine Or.inr ⟨?_, hg⟩
        rw [marks, if_pos hs, hl]
        rfl
      · exact Or.inl h
    · simp only [handleLeaseDone, completeInflight, hl, noteResult, if_neg hg, ite_self] at h
      exact Or.inl h

end CoordinatorState

open CoordinatorState

theorem World.mined_next {params : FeederParams} {w : World} {d : Section} {g : Nat}
    (h : (w.next params d).coord.minedGeneration = some g) :
    w.coord.minedGeneration = some g ∨ w.coord.marks d = some g ∧ g = w.coord.generation := by
  cases d with
  | takeResult minerId jobId => exact mined_takeResult h
  | handleLeaseDone minerId done => exact mined_handleLeaseDone h
  | noteResult g' =>
    have hn : (w.coord.noteResult g').minedGeneration = some g := h
    rw [mined_noteResult] at hn
    split_ifs at hn with hg
    · cases hn
      exact Or.inr ⟨rfl, hg⟩
    · exact Or.inl hn
  | dispatchGranted minerId credits now =>
    have hd : (w.coord.dispatchGranted minerId credits now).1.minedGeneration = some g := h
    rw [dispatchGranted, mined_drain] at hd
    exact Or.inl hd
  | applyCapabilities minerId caps =>
    have hc : (w.coord.applyCapabilities minerId caps).1.minedGeneration = some g := h
    rw [applyCapabilities] at hc
    split_ifs at hc
    · exact Or.inl hc
    · exact Or.inl hc
  | settle o retain =>
    have hs : (w.coord.settle o retain).minedGeneration = some g := h
    rw [CoordinatorState.settle] at hs
    split_ifs at hs
    · exact Or.inl hs
    · exact Or.inl hs
  | rejectJob minerId jobId reason =>
    have hr : (w.coord.rejectJob minerId jobId reason).minedGeneration = some g := h
    rw [rejectJob] at hr
    cases hl : w.coord.inflight.lookup jobId <;> simp only [completeInflight, hl] at hr <;>
      exact Or.inl hr
  | childExit minerId owned =>
    have hfold : ∀ (owned : List JobId) (acc : CoordinatorState × List Job),
        (owned.foldl reclaimInflight acc).1.minedGeneration = acc.1.minedGeneration := by
      intro owned
      induction owned with
      | nil => exact fun acc => rfl
      | cons id owned ih => exact fun acc => ih _
    exact Or.inl ((hfold owned (w.coord, [])).symm.trans h)
  | topUp snap plans =>
    obtain ⟨router, salts, saltCtr, draws, he⟩ := w.toStaging.topUp_eq params snap plans
    have ht : (w.toStaging.topUp params snap plans).coord.minedGeneration = some g := h
    rw [he] at ht
    exact Or.inl ht
  | stageMempoolOrders orders =>
    obtain ⟨-, r, m, he⟩ := stageMempoolOrders_spec orders w.coord
    have hm : (w.coord.stageMempoolOrders orders).minedGeneration = some g := h
    rw [he] at hm
    exact Or.inl hm
  | _ => exact Or.inl h

/-! ## The evidence of a declaration -/

omit [Crates] in
def Task.keepsKind (st : CoordinatorState) : Task → Bool
  | .plain result => (st.inflight.lookup result.jobId).all fun job => !job.isLease
  | _ => true

omit [Crates] in
/-- No lease came in flight under the id of a `Result` between the session's look at its kind and
the taking of its job. -/
def KindKept (x : World × Submissions) : SubmissionEvent → Prop
  | .take tx => (x.2.readers.lookup tx).all (·.task.keepsKind x.1.coord) = true
  | _ => True

omit [Crates] in
instance (x : World × Submissions) : (e : SubmissionEvent) → Decidable (KindKept x e)
  | .take _ => inferInstanceAs (Decidable (_ = true))
  | .hello _ _ | .result _ _ | .note _ | .receipt _ _ | .settle _ | .orderGates _
  | .orderReceipt _ _ | .stopMining | .reseed _ _ _ | .topUp _ _ _ | .winReceipt _ _
  | .other _ => .isTrue trivial

structure WorkInv (x : (World × Submissions) × Participation) : Prop where
  mined : ∀ g, x.1.1.coord.minedGeneration = some g → g ∈ x.2.worked
  verified : ∀ tx r o read, x.1.2.readers.lookup tx = some r → r.task = .verified o read →
    o.job.generation ∈ x.2.worked
  declaring : ∀ g, x.2.declaring.generation = some g → g ∈ x.2.worked
  calls : ∀ c ∈ x.2.calls, c.1 ∈ x.2.worked

theorem workInv_init (params : FeederParams) : WorkInv (participationMachine params).init where
  mined _ h := nomatch h
  verified _ _ _ _ h := nomatch h
  declaring _ h := nomatch h
  calls _ h := nomatch h

omit [Crates] in
theorem Participation.mem_worked_of_owed {x : (World × Submissions) × Participation}
    (hr : x.1.1.coord.generation = x.1.1.generation) (h : WorkInv x)
    (ho : x.2.owed x.1.1 = true) : x.1.1.generation ∈ x.2.worked := by
  rw [owed, Bool.and_eq_true] at ho
  apply h.mined
  rw [← hr]
  exact beq_iff_eq.mp ho.2

/-- What an event marks, a session gets work for, or it had verified a lease for it. -/
theorem mem_work_of_marks {x : World × Submissions} {e : SubmissionEvent} {d : Section} {g : Nat}
    (hk : KindKept x e) (hg : x.2.Guard e) (he : x.2.emit e = some d)
    (hm : x.1.coord.marks d = some g) (hgen : g = x.1.coord.generation) :
    x.2.work x.1.coord e = some g ∨
      ∃ tx r o read, x.2.readers.lookup tx = some r ∧ r.task = .verified o read ∧
        o.job.generation = g := by
  have hcause := x.2.cause_of_emit hg he
  cases d with
  | takeResult m id =>
    obtain ⟨tx, r, result, rfl, hl, ht, -, rfl⟩ := hcause
    obtain ⟨job, hj, hjg⟩ := Option.map_eq_some_iff.mp hm
    have hkind : job.isLease = false := by
      simpa [KindKept, hl, ht, Task.keepsKind, hj] using hk
    left
    simp [Submissions.work, hl, ht, hj, hkind, hjg, hgen]
  | noteResult g' =>
    obtain ⟨tx, r, o, read, -, hl, ht, hog⟩ := hcause
    exact Or.inr ⟨tx, r, o, read, hl, ht, hog.trans (Option.some.inj hm)⟩
  | handleLeaseDone m done =>
    obtain rfl : e = .other (.handleLeaseDone m done) := hcause
    rw [marks] at hm
    split_ifs at hm with hs
    obtain ⟨job, hj, hjg⟩ := Option.map_eq_some_iff.mp hm
    left
    simp [Submissions.work, hj, hs, hjg, hgen]
  | _ => cases hm

theorem verified_react {r : Reader} {st : CoordinatorState} {now : ReadAt} {e : SubmissionEvent}
    {o : PowOutcome} {read : ReadAt} (h : r.react st now e = .verified o read) :
    ∃ tx result, e = .take tx ∧ r.task = .lease result ∧
      st.leaseOutcome r.minerId result = some o := by
  have hstart : ∀ (o' : PowOutcome) (read' : ReadAt), Task.start o' read' ≠ .verified o read := by
    intro o' read'
    rw [Task.start]
    split_ifs <;> exact Task.noConfusion
  unfold Reader.react at h
  split at h
  · split_ifs at h
  · next result tx ht =>
    cases ho : st.leaseOutcome r.minerId result with
    | none =>
      rw [ho] at h
      cases h
    | some o' =>
      rw [ho] at h
      cases h
      exact ⟨tx, result, rfl, ht, ho⟩
  · next result tx ht =>
    rw [Reader.taken] at h
    cases ho : plainOutcome (st.takeResult r.minerId result.jobId).2 r.minerId result with
    | none =>
      rw [ho] at h
      cases hj : (st.takeResult r.minerId result.jobId).2.job.filter (·.isOrder) <;> rw [hj] at h <;>
        cases h
    | some o' =>
      rw [ho] at h
      exact absurd h (hstart o' now)
  · next o' read' tx ht => exact absurd h (hstart o' read')
  · cases h
  · next job result tx ht =>
    cases hp : orderProof (st.mempoolOrders.lookup job.jobId) job result <;> rw [hp] at h <;> cases h
  · cases h

theorem verified_next {params : FeederParams} {x : World × Submissions} {e : SubmissionEvent}
    {tx : SessionId} {r : Reader} {o : PowOutcome} {read : ReadAt} (hr : x.1.RoundInv)
    (hl : (x.2.next params x.1 e).readers.lookup tx = some r) (ht : r.task = .verified o read) :
    x.2.readers.lookup tx = some r ∨ x.2.work x.1.coord e = some o.job.generation := by
  rcases Submissions.reader_next hl with hidle | ⟨hold, -⟩ | ⟨r', hl', hs, rfl⟩
  · rw [hidle] at ht
    cases ht
  · exact Or.inl hold
  · obtain ⟨tx', result, rfl, ht', ho⟩ := verified_react ht
    cases hs
    obtain ⟨-, hgen⟩ := hr.outcome (Or.inr ho)
    right
    simp [Submissions.work, hl', ht', ho, hgen]

theorem workInv_submission {params : FeederParams} {x : (World × Submissions) × Participation}
    {e : SubmissionEvent} (hr : x.1.1.RoundInv) (h : WorkInv x) (hk : KindKept x.1 e)
    (hg : x.1.2.Guard e) : WorkInv ((participationMachine params).next x (.submission e)) := by
  have hold : ∀ g ∈ x.2.worked, g ∈ x.2.worked ++ (x.1.2.work x.1.1.coord e).toList :=
    fun g hg => List.mem_append_left _ hg
  have hnew : ∀ g, x.1.2.work x.1.1.coord e = some g →
      g ∈ x.2.worked ++ (x.1.2.work x.1.1.coord e).toList := by
    intro g hw
    rw [hw]
    exact List.mem_append_right _ (List.mem_singleton.mpr rfl)
  refine ⟨?_, ?_, ?_, fun c hc => hold _ (h.calls c hc)⟩
  · refine Machine.Layer.base_next (L := submissionLayer params)
      (P := fun w : World => ∀ g, w.coord.minedGeneration = some g →
        g ∈ x.2.worked ++ (x.1.2.work x.1.1.coord e).toList)
      (fun _ g hm => hold g (h.mined g hm)) ?_
    intro d hd g hm
    rcases World.mined_next hm with hm | ⟨hm, hgen⟩
    · exact hold g (h.mined g hm)
    · rcases mem_work_of_marks hk hg hd hm hgen with hw | ⟨tx, r, o, read, hl, ht, rfl⟩
      · exact hnew g hw
      · exact hold _ (h.verified tx r o read hl ht)
  · intro tx r o read hl ht
    rcases verified_next hr hl ht with hl | hw
    · exact hold _ (h.verified tx r o read hl ht)
    · exact hnew _ hw
  · intro g hd
    apply hold
    apply h.declaring
    rw [← hd]
    exact (x.2.declaring.generation_after e).symm

omit [Crates] in
theorem WorkInv.declare {x : World × Submissions} {p q : Participation} (h : WorkInv (x, p))
    (hw : q.worked = p.worked)
    (hd : ∀ g, q.declaring.generation = some g → g ∈ p.worked)
    (hc : ∀ c ∈ q.calls, c ∈ p.calls ∨ p.declaring.generation = some c.1) : WorkInv (x, q) := by
  refine ⟨?_, ?_, ?_, ?_⟩
  · intro g hm
    exact hw.symm ▸ h.mined g hm
  · intro tx r o read hl ht
    exact hw.symm ▸ h.verified tx r o read hl ht
  · intro g hg
    exact hw.symm ▸ hd g hg
  · intro c hc'
    rw [hw]
    rcases hc c hc' with hold | hnew
    · exact h.calls c hold
    · exact h.declaring c.1 hnew

theorem workInv_next {params : FeederParams} {x : (World × Submissions) × Participation}
    {e : ParticipationEvent} (hr : x.1.1.RoundInv) (h : WorkInv x)
    (hk : ∀ d, e = .submission d → KindKept x.1 d)
    (ha : (participationMachine params).allowed x e) :
    WorkInv ((participationMachine params).next x e) := by
  have howed : ∀ (declaring : Declaring),
      (∀ g, declaring.generation = some g → g = x.1.1.generation) →
      WorkInv (x.1, if x.2.owed x.1.1 then { x.2 with declaring := declaring } else x.2) := by
    intro declaring hdecl
    split_ifs with ho
    · refine h.declare rfl ?_ fun c hc => Or.inl hc
      intro g hg
      rw [hdecl g hg]
      exact Participation.mem_worked_of_owed hr.feeder h ho
    · exact h
  cases e with
  | submission d => exact workInv_submission hr h (hk d rfl) (ha.2 d rfl).1
  | poll => exact howed _ fun g hg => (Option.some.inj hg).symm
  | winPending => exact howed _ fun g hg => (Option.some.inj hg).symm
  | latest read =>
    change WorkInv (x.1, x.2.declareRoundParticipation (.latest read))
    obtain ⟨g, stopped, hd, he | ⟨latest, he | ⟨-, he⟩⟩⟩ :=
      Participation.latest_cases (p := x.2) ha.1 read
    · rw [he]
      exact h.declare rfl (fun g hg => nomatch hg) fun c hc => Or.inl hc
    · rw [he]
      exact h.declare rfl (fun g hg => nomatch hg) fun c hc => Or.inl hc
    · have hgen : x.2.declaring.generation = some g := by
        rw [hd]
        rfl
      rw [he]
      refine h.declare rfl ?_ ?_
      · intro g' hg'
        exact h.declaring g' (hgen.trans hg')
      · intro c hc
        rcases List.mem_append.mp hc with hc | hc
        · exact Or.inl hc
        · rw [List.mem_singleton.mp hc]
          exact Or.inr hgen
  | answer outcome =>
    change WorkInv (x.1, x.2.declareRoundParticipation (.answer outcome))
    obtain ⟨g, stopped, id, hd, he | he⟩ := Participation.answer_cases (p := x.2) ha.1 outcome
    · rw [he]
      exact h.declare rfl (fun g hg => nomatch hg) fun c hc => Or.inl hc
    · rw [he]
      exact h.declare rfl (fun g hg => nomatch hg) fun c hc => Or.inl hc

/-! ## One settled answer for each candidate -/

omit [Crates] in
theorem candidateQblockId_mono {a b : Option Nat} (h : a ≤ b) :
    candidateQblockId a ≤ candidateQblockId b := by
  have hget : a.getD 0 ≤ b.getD 0 := by
    cases a with
    | none => exact Nat.zero_le _
    | some m =>
      cases b with
      | none => exact absurd h Option.not_some_le_none
      | some n => exact Option.some_le_some.mp h
  simp only [candidateQblockId, satAdd]
  omega

/-- The settled candidates follow the reads: the last is remembered, and a call is made only for
another one. -/
structure CandidateInv (p : Participation) : Prop where
  last : p.lastDeclared = p.settled.getLast?
  read : ∀ id ∈ p.settled, ∃ latest ∈ p.reads, id = candidateQblockId latest
  calling : ∀ g stopped id, p.declaring = .calling g stopped id → p.lastDeclared ≠ some id ∧
    ∃ latest ∈ p.reads.getLast?, id = candidateQblockId latest
  sorted : p.reads.Pairwise (· ≤ ·) → p.settled.Pairwise (· < ·)

omit [Crates] in
theorem candidateInv_init : CandidateInv .init :=
  ⟨rfl, fun _ h => (nomatch h), fun _ _ _ h => (nomatch h), fun _ => .nil⟩

omit [Crates] in
theorem CandidateInv.lt_of_calling {p : Participation} (h : CandidateInv p)
    (hreads : p.reads.Pairwise (· ≤ ·)) {g id : Nat} {stopped : Bool}
    (hd : p.declaring = .calling g stopped id) : ∀ m ∈ p.settled, m < id := by
  obtain ⟨hne, latest, hlast, rfl⟩ := h.calling g stopped id hd
  obtain ⟨earlier, hr⟩ := List.getLast?_eq_some_iff.mp hlast
  have hle : ∀ m ∈ p.settled, m ≤ candidateQblockId latest := by
    intro m hm
    obtain ⟨r, hr', rfl⟩ := h.read m hm
    rw [hr] at hr' hreads
    rcases List.mem_append.mp hr' with hr' | hr'
    · exact candidateQblockId_mono ((List.pairwise_append.mp hreads).2.2 r hr' latest (by simp))
    · rw [List.mem_singleton.mp hr']
  intro m hm
  have hsorted := h.sorted hreads
  cases hs : p.settled.getLast? with
  | none => simp [List.getLast?_eq_none_iff.mp hs] at hm
  | some top =>
    obtain ⟨before, he⟩ := List.getLast?_eq_some_iff.mp hs
    have htop : top ≤ candidateQblockId latest := hle top (by simp [he])
    have hneq : top ≠ candidateQblockId latest := by
      intro heq
      exact hne (by rw [h.last, hs, heq])
    rw [he] at hm hsorted
    rcases List.mem_append.mp hm with hm | hm
    · have hlt := (List.pairwise_append.mp hsorted).2.2 m hm top (by simp)
      omega
    · rw [List.mem_singleton.mp hm]
      omega

omit [Crates] in
theorem candidateInv_latest {p : Participation} (h : CandidateInv p)
    (hg : p.declaring.isReading = true) (read : Option (Option Nat)) :
    CandidateInv (p.declareRoundParticipation (.latest read)) := by
  have hread : ∀ latest, ∀ id ∈ p.settled, ∃ l ∈ p.reads ++ [latest], id = candidateQblockId l := by
    intro latest id hid
    obtain ⟨l, hl, he⟩ := h.read id hid
    exact ⟨l, List.mem_append_left _ hl, he⟩
  have hsorted : ∀ latest, (p.reads ++ [latest]).Pairwise (· ≤ ·) → p.settled.Pairwise (· < ·) :=
    fun latest hp => h.sorted (List.pairwise_append.mp hp).1
  obtain ⟨g, stopped, -, he | ⟨latest, he | ⟨hne, he⟩⟩⟩ := Participation.latest_cases hg read
  · rw [he]
    exact ⟨h.last, h.read, fun _ _ _ hc => (nomatch hc), h.sorted⟩
  · rw [he]
    exact ⟨h.last, hread latest, fun _ _ _ hc => (nomatch hc), hsorted latest⟩
  · rw [he]
    refine ⟨h.last, hread latest, ?_, hsorted latest⟩
    intro g' stopped' id hc
    obtain ⟨rfl, rfl, rfl⟩ := Declaring.calling.inj hc
    exact ⟨hne, latest, List.getLast?_concat, rfl⟩

omit [Crates] in
theorem candidateInv_answer {p : Participation} (h : CandidateInv p)
    (hg : p.declaring.isCalling = true) (outcome : Option ParticipationOutcome) :
    CandidateInv (p.declareRoundParticipation (.answer outcome)) := by
  obtain ⟨g, stopped, id, hd, he | he⟩ := Participation.answer_cases hg outcome
  · rw [he]
    exact ⟨h.last, h.read, fun _ _ _ hc => (nomatch hc), h.sorted⟩
  · rw [he]
    refine ⟨List.getLast?_concat.symm, ?_, fun _ _ _ hc => (nomatch hc), ?_⟩
    · intro m hm
      rcases List.mem_append.mp hm with hm | hm
      · exact h.read m hm
      · obtain ⟨-, latest, hlast, hid⟩ := h.calling g stopped id hd
        rw [List.mem_singleton.mp hm]
        exact ⟨latest, List.mem_of_getLast? hlast, hid⟩
    · intro hreads
      refine List.pairwise_append.mpr ⟨h.sorted hreads, List.pairwise_singleton _ _, ?_⟩
      intro m hm n hn
      rw [List.mem_singleton.mp hn]
      exact h.lt_of_calling hreads hd m hm

theorem candidateInv_next {params : FeederParams} {x : (World × Submissions) × Participation}
    {e : ParticipationEvent} (h : CandidateInv x.2)
    (ha : (participationMachine params).allowed x e) :
    CandidateInv ((participationMachine params).next x e).2 := by
  have howed : ∀ (declaring : Declaring), declaring.isCalling = false →
      CandidateInv (if x.2.owed x.1.1 then { x.2 with declaring := declaring } else x.2) := by
    intro declaring hcall
    split_ifs
    · refine ⟨h.last, h.read, fun g stopped id hc => ?_, h.sorted⟩
      have hd : declaring = .calling g stopped id := hc
      rw [hd] at hcall
      exact absurd hcall Bool.noConfusion
    · exact h
  cases e with
  | submission d =>
    refine ⟨h.last, h.read, fun g stopped id hc => ?_, h.sorted⟩
    exact h.calling g stopped id (Declaring.after_eq_calling hc)
  | poll => exact howed _ rfl
  | winPending => exact howed _ rfl
  | latest read => exact candidateInv_latest h ha.1 read
  | answer outcome => exact candidateInv_answer h ha.1 outcome

/-- The feeder decides to declare, and declares, only for a generation for which a session got work
while it was current, when no lease comes in flight under the id of a `Result` between the look at
its kind and the taking of its job. And when the latest qblock ids never decrease, no candidate is
settled twice. -/
theorem participation_declared_for_mined_rounds (params : FeederParams)
    {x : (World × Submissions) × Participation}
    (h : ((participationMachine params).restrict fun x e =>
      ∀ d ∈ Participation.emit e, KindKept x.1 d).Reachable x) :
    (∀ g, x.2.declaring.generation = some g → g ∈ x.2.worked) ∧
      (∀ call ∈ x.2.calls, call.1 ∈ x.2.worked) ∧
      (x.2.reads.Pairwise (· ≤ ·) → x.2.settled.Nodup) := by
  have hwork : WorkInv x := by
    refine Machine.Reachable.invariant (I := WorkInv) ?_ ?_ h
    · exact workInv_init params
    intro x e hx hi ha
    have hr := World.roundInv_reachable
      (Machine.Layer.base_reachable (Machine.Layer.base_reachable hx.of_restrict))
    refine workInv_next hr hi ?_ ha.1
    intro d he
    exact ha.2 d (by rw [he]; rfl)
  have hsettle : CandidateInv x.2 := by
    refine Machine.Reachable.invariant (I := fun x => CandidateInv x.2) ?_ ?_ h
    · exact candidateInv_init
    · exact fun x e _ hi ha => candidateInv_next hi ha.1
  refine ⟨hwork.declaring, hwork.calls, ?_⟩
  intro hreads
  exact (hsettle.sorted hreads).imp Nat.ne_of_lt

end

namespace Sample

def declaredStopped : List ParticipationEvent :=
  (mined snap [1]).map .submission ++
    [.poll, .latest (some (some 4)), .answer none, .winPending, .submission .stopMining,
      .latest (some (some 4)), .answer (some .declared)]

def early : List ParticipationEvent :=
  [.other (.registerMiner "a" leaseCaps), .stopMining, .reseed snap none none,
    .topUp snap [⟨"a", 0, 1⟩] 0, .hello 0 "a", .result 0 ⟨leaseJobId 1, [], 0, [], []⟩,
    .other (.dispatchGranted "a" 1 0), .take 0].map .submission ++ [.poll]

end Sample

open Sample in
theorem participation_declared_for_mined_rounds_stopped :
    let x := (participationMachine params).run (participationMachine params).init declaredStopped
    x.2.calls = [(1, 5), (1, 5)] ∧ (∀ call ∈ x.2.calls, call.1 ∈ x.2.worked) ∧
      x.2.settled = [5] ∧ x.2.settled.Nodup := by
  have hx := participation_declared_for_mined_rounds params
    (Machine.reachable_restrict_run declaredStopped (by decide +kernel))
  have hreads : ((participationMachine params).run (participationMachine params).init
      declaredStopped).2.reads = [some 4, some 4] := by decide +kernel
  refine ⟨by decide +kernel, hx.2.1, by decide +kernel, hx.2.2 ?_⟩
  rw [hreads]
  simp

open Sample in
/-- The kind of the frame is read before the lease is in flight, so an answer without a solution
counts as work for the round. -/
theorem early_lease_answer_declares :
    ¬ ∀ x, (participationMachine params).Reachable x →
      ∀ g, x.2.declaring.generation = some g → g ∈ x.2.worked := by
  intro hall
  have hreach := Machine.reachable_run (M := participationMachine params) early
    (by decide +kernel)
  have hmem := hall _ hreach 1 (by decide +kernel)
  exact absurd hmem (by decide +kernel)

end QuipCoordinator
