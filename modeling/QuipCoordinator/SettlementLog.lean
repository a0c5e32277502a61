import QuipCoordinator.FoundationLog
import QuipCoordinator.JobCopies
import QuipCoordinator.Submissions

/-!
# The log of the settlements

Which jobs were dispatched, which frames reached the settlement, what was
cancelled, and which orders were staged and answered, in the order it happened. A
frame settles a job only if it finds it in flight, and takes a plain one out of the
ledger. So a job in flight was dispatched, and nothing has ended it since.
-/

namespace QuipCoordinator

inductive Mark
  | dispatched (jobId : JobId)
  | reached (jobId : JobId)
  | cancelled (ids : Finset JobId)
  | staged (orderId : JobId)
  | answered (orderId : JobId)
deriving DecidableEq

namespace Mark

def dispatches (id : JobId) (m : Mark) : Bool := m == .dispatched id

def reaches (id : JobId) (m : Mark) : Bool := m == .reached id

/-- The job is no longer in flight. A frame leaves a lease there; its id is the one of 14 bytes. -/
def ends (id : JobId) : Mark → Bool
  | .reached i => i = id ∧ id.length ≠ 14
  | .cancelled ids => id ∈ ids
  | _ => false

def stages (id : JobId) (m : Mark) : Bool := m == .staged id

def answers (id : JobId) (m : Mark) : Bool := m == .answered id

end Mark

def Task.frame : Task → Option ResultFrame
  | .lease result | .plain result => some result
  | _ => none

/-- The order that a session took out of the ledger and has not finished with. -/
def Task.orderId : Task → Option JobId
  | .order job _ => some job.jobId
  | .answering proof => some proof.jobId
  | _ => none

section
variable [Crates]
open CoordinatorState

def orderMarks : List JobOrder → CoordinatorState → List Mark
  | [], _ => []
  | order :: orders, st =>
    ((st.orderMiner order).map fun _ => .staged order.orderId).toList ++
      orderMarks orders (st.stageOrder order)

/-- What an event adds to the log. A frame reaches the settlement when its lock step leaves the
session something to do. -/
def marks (w : World) (c : Submissions) : SubmissionEvent → List Mark
  | .take tx => (c.readers.lookup tx).elim [] fun r => r.task.frame.elim [] fun result =>
    if r.react w.coord c.now (.take tx) = .idle then [] else [.reached result.jobId]
  | .orderGates tx => (c.readers.lookup tx).elim [] fun r =>
    match r.react w.coord c.now (.orderGates tx) with
    | .answering proof => [.answered proof.jobId]
    | _ => []
  | .stopMining => [.cancelled (w.coord.cancelled (satAdd 64 w.generation 1 - 1))]
  | .other (.dispatchGranted minerId credits now) =>
    (w.coord.dispatchGranted minerId credits now).2.map fun job => .dispatched job.jobId
  | .other (.stageMempoolOrders orders) => orderMarks orders w.coord
  | _ => []

def settlementLayer (params : FeederParams) :
    Machine.Layer (submissionMachine params) (List Mark) SubmissionEvent where
  init := []
  guard _ _ _ := True
  emit _ _ e := some e
  next x log e := log ++ marks x.1 x.2 e

abbrev settlementMachine (params : FeederParams) :
    Machine ((World × Submissions) × List Mark) SubmissionEvent :=
  (settlementLayer params).machine

instance (params : FeederParams) (y : (World × Submissions) × List Mark) (e : SubmissionEvent) :
    Decidable ((settlementMachine params).allowed y e) :=
  inferInstanceAs (Decidable (True ∧ ∀ d ∈ some e, (submissionMachine params).allowed y.1 d))

omit [Crates] in
/-- The job was dispatched and not ended since if it is in flight, whenever a frame reached it. -/
structure JobLog (st : CoordinatorState) (log : List Mark) (id : JobId) : Prop where
  armed : id ∈ st.inflight → log.armed (Mark.dispatches id) (Mark.ends id) = true
  guarded : log.Guarded (Mark.dispatches id) (Mark.ends id) (Mark.reaches id)

omit [Crates] in
theorem JobLog.keep {st st' : CoordinatorState} {log ms : List Mark} {id : JobId}
    (h : JobLog st log id) (hin : id ∈ st'.inflight → id ∈ st.inflight)
    (hms : ∀ m ∈ ms, m.ends id = false ∧ m.reaches id = false) : JobLog st' (log ++ ms) id where
  armed := fun hid => List.armed_append (h.armed (hin hid)) fun m hm => (hms m hm).1
  guarded := h.guarded.append fun m hm => (hms m hm).2

omit [Crates] in
/-- A frame reaches the settlement of a job in flight, and takes it out unless it is a lease. -/
theorem JobLog.reach {st st' : CoordinatorState} {log : List Mark} {id jobId : JobId}
    (h : JobLog st log id) (hfound : jobId ∈ st.inflight)
    (hin : id ∈ st'.inflight → id ∈ st.inflight ∧ (id = jobId → id.length = 14)) :
    JobLog st' (log ++ [.reached jobId]) id where
  armed := by
    intro hid
    obtain ⟨hold, hlease⟩ := hin hid
    refine List.armed_append (h.armed hold) ?_
    intro m hm
    rw [List.mem_singleton.mp hm]
    refine decide_eq_false fun hend => ?_
    exact hend.2 (hlease hend.1.symm)
  guarded := by
    refine h.guarded.concat fun hr => h.armed ?_
    obtain rfl : jobId = id := Mark.reached.inj (eq_of_beq hr)
    exact hfound

omit [Crates] in
theorem inflight_drain {minerId : MinerId} {now : Nat} (fuel : Nat) {st : CoordinatorState}
    {id : JobId} (h : id ∈ (drain minerId now fuel st).1.inflight) :
    id ∈ st.inflight ∨ ∃ job ∈ (drain minerId now fuel st).2, job.jobId = id := by
  refine drain_induct (P := fun st out => id ∈ out.1.inflight →
    id ∈ st.inflight ∨ ∃ job ∈ out.2, job.jobId = id) ?_ ?_ ?_ fuel st h
  · exact fun st h => Or.inl h
  · exact fun st r _ h => Or.inl h
  · intro st r job out _ ih h
    rcases ih h with hold | ⟨k, hk, hid⟩
    · rcases Finmap.mem_insert.mp hold with hid | hold
      · exact Or.inr ⟨job, List.mem_cons_self, hid.symm⟩
      · exact Or.inl hold
    · exact Or.inr ⟨k, List.mem_cons_of_mem _ hk, hid⟩

theorem Reader.inflight_of_reaches {r : Reader} {st : CoordinatorState} {now : ReadAt}
    {tx : SessionId} {result : ResultFrame} (hf : r.task.frame = some result)
    (h : r.react st now (.take tx) ≠ .idle) : result.jobId ∈ st.inflight := by
  by_contra hnot
  have hnone : st.inflight.lookup result.jobId = none := Finmap.lookup_eq_none.mpr hnot
  refine h ?_
  cases ht : r.task with
  | lease result' =>
    rw [ht] at hf
    cases hf
    simp [Reader.react, ht, leaseOutcome, hnone]
  | plain result' =>
    rw [ht] at hf
    cases hf
    simp [Reader.react, ht, Reader.taken, taken_eq, hnone, plainOutcome]
  | _ =>
    rw [ht] at hf
    cases hf

omit [Crates] in
def LeaseFrames (c : Submissions) : Prop :=
  ∀ tx r result, c.readers.lookup tx = some r → r.task = .lease result → result.jobId.length = 14

theorem Reader.taken_cases (r : Reader) (st : CoordinatorState) (result : ResultFrame)
    (read : ReadAt) : r.taken st result read = .idle ∨ (∃ o, r.taken st result read = .start o read) ∨
      ∃ job, st.inflight.lookup result.jobId = some job ∧
        r.taken st result read = .order job result := by
  rw [Reader.taken]
  cases plainOutcome (st.takeResult r.minerId result.jobId).2 r.minerId result with
  | some o => exact Or.inr (Or.inl ⟨o, rfl⟩)
  | none =>
    rw [World.taken_job]
    cases hl : st.inflight.lookup result.jobId with
    | none => exact Or.inl rfl
    | some job =>
      rw [Option.filter_some]
      split_ifs
      · exact Or.inr (Or.inr ⟨job, rfl, rfl⟩)
      · exact Or.inl rfl

theorem orderProof_jobId {gates : Option QualityGates} {job : Job} {result : ResultFrame}
    {proof : Proof} (h : orderProof gates job result = some proof) : proof.jobId = job.jobId := by
  rw [orderProof] at h
  obtain ⟨ising, -, h⟩ := Option.bind_eq_some_iff.mp h
  obtain ⟨g, -, h⟩ := Option.bind_eq_some_iff.mp h
  dsimp only at h
  split_ifs at h
  cases h
  rfl

omit [Crates] in
theorem Task.start_plain (o : PowOutcome) (read : ReadAt) :
    (Task.start o read).orderId = none ∧ (Task.start o read).frame = none := by
  rw [Task.start]
  split_ifs <;> exact ⟨rfl, rfl⟩

/-- The task that a session has after an event of its own: no order and no lease frame, a fresh
frame, the order it took, or the answer to the order it had. -/
theorem Reader.react_cases (r : Reader) (st : CoordinatorState) (now : ReadAt)
    (e : SubmissionEvent) :
    ((r.react st now e).orderId = none ∧ (r.react st now e).frame = none) ∨
      (∃ tx result, e = .result tx result ∧
        r.react st now e =
          if (st.inflight.lookup result.jobId).any (·.isLease) then .lease result else .plain result) ∨
      (∃ tx result job, e = .take tx ∧ r.task = .plain result ∧
        st.inflight.lookup result.jobId = some job ∧ r.react st now e = .order job result) ∨
      ∃ tx job result proof, e = .orderGates tx ∧ r.task = .order job result ∧
        proof.jobId = job.jobId ∧ r.react st now e = .answering proof := by
  unfold Reader.react
  split
  · next tx result _ => exact Or.inr (Or.inl ⟨tx, result, rfl, rfl⟩)
  · next result tx _ =>
    cases st.leaseOutcome r.minerId result <;> exact Or.inl ⟨rfl, rfl⟩
  · next result tx ht =>
    rcases r.taken_cases st result now with he | ⟨o, he⟩ | ⟨job, hl, he⟩ <;> rw [he]
    · exact Or.inl ⟨rfl, rfl⟩
    · exact Or.inl (Task.start_plain o now)
    · exact Or.inr (Or.inr (Or.inl ⟨tx, result, job, rfl, ht, hl, rfl⟩))
  · exact Or.inl (Task.start_plain _ _)
  · exact Or.inl ⟨rfl, rfl⟩
  · next job result tx ht =>
    cases hp : orderProof (st.mempoolOrders.lookup job.jobId) job result with
    | none => exact Or.inl ⟨rfl, rfl⟩
    | some proof =>
      exact Or.inr (Or.inr (Or.inr ⟨tx, job, result, proof, rfl, ht, orderProof_jobId hp, rfl⟩))
  · exact Or.inl ⟨rfl, rfl⟩

theorem leaseFrames_next (params : FeederParams) {w : World} {c : Submissions}
    {e : SubmissionEvent} (hl : w.LedgerInv) (h : LeaseFrames c) :
    LeaseFrames (c.next params w e) := by
  intro tx r' result hr' ht
  rcases Submissions.reader_next hr' with hidle | ⟨hold, -⟩ | ⟨r, hr, -, rfl⟩
  · rw [ht] at hidle
    cases hidle
  · exact h tx r' result hold ht
  · change r.react w.coord c.now e = .lease result at ht
    rcases r.react_cases w.coord c.now e with ⟨-, hf⟩ | ⟨t, res, -, he⟩ | ⟨t, res, job, -, -, -, he⟩ |
      ⟨t, job, res, proof, -, -, -, he⟩
    · rw [ht] at hf
      cases hf
    · rw [ht] at he
      split_ifs at he with hlease
      cases he
      obtain ⟨job, hjob, hkind⟩ := (Option.any_eq_true _ _).mp hlease
      rw [← hl.agrees.keyed _ job hjob]
      exact (hl.idForm job (Or.inr ⟨_, hjob⟩)).mp hkind
    · rw [ht] at he
      cases he
    · rw [ht] at he
      cases he

omit [Crates] in
theorem Submissions.take_cases {c : Submissions} {tx : SessionId} (hg : c.Guard (.take tx)) :
    ∃ r result, c.readers.lookup tx = some r ∧ r.task.frame = some result ∧
      (r.task = .lease result ∨ r.task = .plain result) := by
  obtain ⟨tx', htx, r, hr, hacc⟩ := hg
  cases htx
  cases ht : r.task with
  | lease result => exact ⟨r, result, hr, by rw [ht]; rfl, Or.inl ht⟩
  | plain result => exact ⟨r, result, hr, by rw [ht]; rfl, Or.inr ht⟩
  | _ =>
    rw [ht] at hacc
    cases hacc

theorem jobLog_take (params : FeederParams) {x : World × Submissions} {log : List Mark} {tx : SessionId}
    {id : JobId} (hf : LeaseFrames x.2) (hg : x.2.Guard (.take tx)) (h : JobLog x.1.coord log id) :
    JobLog ((submissionMachine params).next x (.take tx)).1.coord
      (log ++ marks x.1 x.2 (.take tx)) id := by
  obtain ⟨r, result, hr, hframe, htask⟩ := x.2.take_cases hg
  have hin : id ∈ ((submissionMachine params).next x (.take tx)).1.coord.inflight →
      id ∈ x.1.coord.inflight ∧ (id = result.jobId → id.length = 14) := by
    rcases htask with ht | ht
    · have hemit : x.2.emit (.take tx) = none := by simp [Submissions.emit, hr, ht]
      rw [Machine.Layer.machine_next_fst_none hemit]
      intro hid
      exact ⟨hid, fun heq => heq ▸ hf tx r result hr ht⟩
    · have hemit : x.2.emit (.take tx) = some (.takeResult r.minerId result.jobId) := by
        simp [Submissions.emit, hr, ht]
      rw [Machine.Layer.machine_next_fst_some hemit]
      intro hid
      change id ∈ (x.1.coord.takeResult r.minerId result.jobId).1.inflight at hid
      rw [(answers_takeResult _ _ _).inflight, Finmap.mem_erase] at hid
      exact ⟨hid.2, fun heq => absurd heq hid.1⟩
  rw [marks, hr, Option.elim_some, hframe, Option.elim_some]
  split_ifs with hidle
  · exact h.keep (fun hid => (hin hid).1) (by simp)
  · exact h.reach (Reader.inflight_of_reaches hframe hidle) hin

omit [Crates] in
theorem Submissions.emit_idle {c : Submissions} {e : SubmissionEvent} {d : Section}
    (hd : d.idle = true) (hg : c.Guard e) (h : c.emit e = some d) : e = .other d := by
  have hcause := cause_of_emit hg h
  cases d with
  | takeResult | noteResult | recordBest | settle | forgetOrder | stopMining | reseed | topUp
  | winSuccess | markSubmitted => cases hd
  | _ => exact hcause

theorem mem_orderMarks {orders : List JobOrder} {st : CoordinatorState} {m : Mark}
    (h : m ∈ orderMarks orders st) : ∃ o, m = .staged o := by
  induction orders generalizing st with
  | nil => exact absurd h List.not_mem_nil
  | cons order orders ih =>
    rcases List.mem_append.mp h with h | h
    · obtain ⟨miner, -, rfl⟩ := Option.map_eq_some_iff.mp (Option.mem_toList.mp h)
      exact ⟨_, rfl⟩
    · exact ih h

theorem mem_marks_orderGates {w : World} {c : Submissions} {tx : SessionId} {m : Mark}
    (h : m ∈ marks w c (.orderGates tx)) : ∃ o, m = .answered o := by
  rw [marks] at h
  cases hr : c.readers.lookup tx with
  | none =>
    rw [hr] at h
    exact absurd h List.not_mem_nil
  | some r =>
    rw [hr, Option.elim_some] at h
    split at h
    · exact ⟨_, List.mem_singleton.mp h⟩
    · exact absurd h List.not_mem_nil

def SubmissionEvent.settles : SubmissionEvent → Bool
  | .take _ | .stopMining | .other (.dispatchGranted _ _ _) => true
  | _ => false

theorem marks_of_not_settles {w : World} {c : Submissions} {e : SubmissionEvent}
    (h : e.settles = false) {m : Mark} (hm : m ∈ marks w c e) :
    (∃ o, m = .staged o) ∨ ∃ o, m = .answered o := by
  cases e with
  | orderGates tx => exact Or.inr (mem_marks_orderGates hm)
  | other d =>
    cases d with
    | stageMempoolOrders orders => exact Or.inl (mem_orderMarks hm)
    | dispatchGranted minerId credits now => exact absurd h Bool.noConfusion
    | _ => exact absurd hm List.not_mem_nil
  | take tx | stopMining => exact absurd h Bool.noConfusion
  | _ => exact absurd hm List.not_mem_nil

omit [Crates] in
theorem inflight_stopMining {st : CoordinatorState} {g : Nat} {id : JobId}
    (h : id ∈ (st.stopMining g).1.inflight) : id ∈ st.inflight ∧ id ∉ st.cancelled (g - 1) :=
  (mem_filter_notMem st.inflight (st.cancelled (g - 1)) id).mp h

theorem jobLog_next (params : FeederParams) {x : World × Submissions} {e : SubmissionEvent}
    {log : List Mark} {id : JobId} (hl : x.1.LedgerInv) (hf : LeaseFrames x.2)
    (ha : (submissionMachine params).allowed x e) (h : JobLog x.1.coord log id) :
    JobLog ((submissionMachine params).next x e).1.coord (log ++ marks x.1 x.2 e) id := by
  cases hs : e.settles with
  | false =>
    refine h.keep ?_ ?_
    · refine Machine.Layer.base_next (P := fun w : World => id ∈ w.coord.inflight → _) ?_ ?_
      · exact fun _ hid => hid
      · intro d (hemit : x.2.emit e = some d) hid
        refine World.inflight_next params hl (ha.2 d hemit) ?_ hid
        intro minerId credits now heq
        subst heq
        rw [Submissions.emit_idle rfl ha.1 hemit] at hs
        cases hs
    · intro m hm
      rcases marks_of_not_settles hs hm with ⟨o, rfl⟩ | ⟨o, rfl⟩ <;> exact ⟨rfl, by simp [Mark.reaches]⟩
  | true =>
    cases e with
    | take tx => exact jobLog_take params hf ha.1 h
    | stopMining =>
      have hin : id ∈ ((submissionMachine params).next x .stopMining).1.coord.inflight →
          id ∈ x.1.coord.inflight ∧ id ∉ x.1.coord.cancelled (satAdd 64 x.1.generation 1 - 1) :=
        inflight_stopMining
      refine ⟨?_, h.guarded.append (by simp [marks, Mark.reaches])⟩
      intro hid
      refine List.armed_append (h.armed (hin hid).1) ?_
      intro m hm
      rw [List.mem_singleton.mp hm]
      exact decide_eq_false (hin hid).2
    | other d =>
      cases d with
      | dispatchGranted minerId credits now =>
        have hends : ∀ m ∈ marks x.1 x.2 (.other (.dispatchGranted minerId credits now)),
            m.ends id = false ∧ m.reaches id = false := by
          intro m hm
          obtain ⟨job, -, rfl⟩ := List.mem_map.mp hm
          exact ⟨rfl, by simp [Mark.reaches]⟩
        refine ⟨?_, h.guarded.append fun m hm => (hends m hm).2⟩
        intro hid
        rcases inflight_drain _ hid with hold | ⟨job, hjob, rfl⟩
        · exact List.armed_append (h.armed hold) fun m hm => (hends m hm).1
        · exact List.armed_of_mem (List.mem_map.mpr ⟨job, hjob, rfl⟩) (by simp [Mark.dispatches])
            fun m hm => (hends m hm).1
      | _ => exact absurd hs Bool.noConfusion
    | _ => exact absurd hs Bool.noConfusion

end
end QuipCoordinator
