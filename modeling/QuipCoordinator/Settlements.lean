import QuipCoordinator.SectionFrames
import QuipCoordinator.SettlementLog

/-!
# A job is settled once

An order has one copy at most: on a queue, in flight, or with the session that
took it and answers it. While there is one the order is remembered, so it is not
staged again. A delivery failure forgets it when its copy is gone. So an order is
answered at most once for each time it was staged, and a plain job is settled at
most once for each time it was dispatched.
-/

namespace QuipCoordinator

namespace Submissions

def Holds (c : Submissions) (tx : SessionId) (o : JobId) : Prop :=
  ∃ r, c.readers.lookup tx = some r ∧ r.task.orderId = some o

def Waits (c : Submissions) (tx : SessionId) (o : JobId) : Prop :=
  ∃ r job result, c.readers.lookup tx = some r ∧ r.task = .order job result ∧ job.jobId = o

theorem Waits.holds {c : Submissions} {tx : SessionId} {o : JobId} (h : c.Waits tx o) :
    c.Holds tx o := by
  obtain ⟨r, job, result, hr, ht, hid⟩ := h
  exact ⟨r, hr, by rw [ht, ← hid]; rfl⟩

end Submissions

structure OrderLog (st : CoordinatorState) (c : Submissions) (log : List Mark) (o : JobId) :
    Prop where
  one : st.copies o ≤ 1
  known : o ∉ st.mempoolOrders → st.copies o = 0 ∧ ∀ tx, ¬ c.Holds tx o
  apart : ∀ tx, c.Holds tx o → st.copies o = 0
  single : ∀ tx tx', c.Holds tx o → c.Holds tx' o → tx = tx'
  staged : 0 < st.copies o → log.armed (Mark.stages o) (Mark.answers o) = true
  waiting : ∀ tx, c.Waits tx o → log.armed (Mark.stages o) (Mark.answers o) = true
  guarded : log.Guarded (Mark.stages o) (Mark.answers o) (Mark.answers o)

theorem OrderLog.keep {st st' : CoordinatorState} {c c' : Submissions} {log ms : List Mark}
    {o : JobId} (h : OrderLog st c log o) (hc : st'.copies o ≤ st.copies o)
    (hm : o ∈ st.mempoolOrders → o ∈ st'.mempoolOrders)
    (hholds : ∀ tx, c'.Holds tx o → c.Holds tx o) (hwaits : ∀ tx, c'.Waits tx o → c.Waits tx o)
    (hms : ∀ m ∈ ms, m.answers o = false) : OrderLog st' c' (log ++ ms) o where
  one := hc.trans h.one
  known := by
    intro hnot
    obtain ⟨hzero, hnone⟩ := h.known fun hin => hnot (hm hin)
    exact ⟨by omega, fun tx hh => hnone tx (hholds tx hh)⟩
  apart := by
    intro tx hh
    have hzero := h.apart tx (hholds tx hh)
    omega
  single := fun tx tx' hh hh' => h.single tx tx' (hholds tx hh) (hholds tx' hh')
  staged := fun hpos => List.armed_append (h.staged (by omega)) hms
  waiting := fun tx hw => List.armed_append (h.waiting tx (hwaits tx hw)) hms
  guarded := h.guarded.append hms

section
variable [Crates]
open CoordinatorState

theorem OrderLog.stage {st : CoordinatorState} {c : Submissions} {log : List Mark} {o : JobId}
    (h : OrderLog st c log o) (order : JobOrder) : OrderLog (st.stageOrder order) c
      (log ++ ((st.orderMiner order).map fun _ => Mark.staged order.orderId).toList) o := by
  have hcopies := copies_stageOrder st order o
  have hms : ∀ m ∈ ((st.orderMiner order).map fun _ => Mark.staged order.orderId).toList,
      m.answers o = false := by
    intro m hm
    obtain ⟨miner, -, rfl⟩ := Option.map_eq_some_iff.mp (Option.mem_toList.mp hm)
    simp [Mark.answers]
  have hin : o ∈ st.mempoolOrders → o ∈ (st.stageOrder order).mempoolOrders := by
    intro hin
    rw [stageOrder]
    split_ifs
    · exact hin
    · cases jobOrderToJob order <;> exact Finmap.mem_insert.mpr (Or.inr hin)
  by_cases hnew : order.orderId = o ∧ o ∉ st.mempoolOrders
  · obtain ⟨rfl, hnot⟩ := hnew
    obtain ⟨hzero, hnone⟩ := h.known hnot
    have hknown : order.orderId ∈ (st.stageOrder order).mempoolOrders := by
      rw [stageOrder, if_neg hnot]
      cases jobOrderToJob order <;> exact Finmap.mem_insert.mpr (Or.inl rfl)
    rw [hzero, Nat.zero_add] at hcopies
    refine ⟨?_, fun hout => absurd hknown hout, fun tx hh => absurd hh (hnone tx),
      fun tx tx' hh => absurd hh (hnone tx), ?_, fun tx hw => absurd hw.holds (hnone tx),
      h.guarded.append hms⟩
    · refine hcopies.trans ?_
      split_ifs <;> decide
    · intro hpos
      split_ifs at hcopies with hstaged
      · obtain ⟨miner, hminer⟩ := Option.isSome_iff_exists.mp hstaged.2
        refine List.armed_of_mem (m := .staged order.orderId) ?_ (by simp [Mark.stages]) hms
        rw [hminer]
        exact List.mem_singleton_self _
      · omega
  · refine h.keep ?_ hin (fun _ hh => hh) (fun _ hw => hw) hms
    rw [if_neg] at hcopies
    · exact hcopies
    · intro hst
      have hknown : order.orderId ∈ st.mempoolOrders := by
        by_contra hout
        exact hnew ⟨hst.1, hst.1 ▸ hout⟩
      rw [orderMiner, if_pos hknown] at hst
      cases hst.2

theorem OrderLog.stageAll (orders : List JobOrder) {st : CoordinatorState} {c : Submissions}
    {log : List Mark} {o : JobId} (h : OrderLog st c log o) :
    OrderLog (st.stageMempoolOrders orders) c (log ++ orderMarks orders st) o := by
  induction orders generalizing st log with
  | nil =>
    rw [orderMarks, List.append_nil]
    exact h
  | cons order orders ih =>
    rw [orderMarks, ← List.append_assoc]
    exact ih (h.stage order)

def Submissions.Takes (c : Submissions) (st : CoordinatorState) (e : SubmissionEvent)
    (tx : SessionId) (o : JobId) : Prop :=
  e = .take tx ∧ ∃ r result job, c.readers.lookup tx = some r ∧ r.task = .plain result ∧
    st.inflight.lookup result.jobId = some job ∧ job.jobId = o

theorem Submissions.holds_next {params : FeederParams} {w : World} {c : Submissions}
    {e : SubmissionEvent} {tx : SessionId} {o : JobId} (h : (c.next params w e).Holds tx o) :
    (c.Holds tx o ∧ ∀ receipt, e ≠ .orderReceipt tx receipt) ∨ c.Takes w.coord e tx o := by
  obtain ⟨r', hr', ho⟩ := h
  rcases reader_next hr' with hidle | ⟨hold, hother⟩ | ⟨r, hr, hsess, rfl⟩
  · rw [hidle] at ho
    cases ho
  · refine Or.inl ⟨⟨r', hold, ho⟩, ?_⟩
    intro receipt heq
    exact hother (by rw [heq]; rfl)
  · change (r.react w.coord c.now e).orderId = some o at ho
    rcases r.react_cases w.coord c.now e with ⟨hnone, -⟩ | ⟨t, res, -, he⟩ |
      ⟨t, res, job, rfl, ht, hl, he⟩ | ⟨t, job, res, proof, rfl, ht, hid, he⟩
    · rw [hnone] at ho
      cases ho
    · rw [he] at ho
      split_ifs at ho <;> cases ho
    · rw [he] at ho
      cases hsess
      exact Or.inr ⟨rfl, r, res, job, hr, ht, hl, Option.some.inj ho⟩
    · rw [he] at ho
      refine Or.inl ⟨⟨r, hr, ?_⟩, by simp⟩
      rw [ht, ← ho]
      exact congrArg some hid.symm

theorem Submissions.waits_next {params : FeederParams} {w : World} {c : Submissions}
    {e : SubmissionEvent} {tx : SessionId} {o : JobId} (h : (c.next params w e).Waits tx o) :
    (c.Waits tx o ∧ e ≠ .orderGates tx) ∨ c.Takes w.coord e tx o := by
  obtain ⟨r', job, result, hr', ht', hid⟩ := h
  rcases reader_next hr' with hidle | ⟨hold, hother⟩ | ⟨r, hr, hsess, rfl⟩
  · rw [ht'] at hidle
    cases hidle
  · refine Or.inl ⟨⟨r', job, result, hold, ht', hid⟩, ?_⟩
    intro heq
    exact hother (by rw [heq]; rfl)
  · change r.react w.coord c.now e = .order job result at ht'
    rcases r.react_cases w.coord c.now e with ⟨hnone, -⟩ | ⟨t, res, -, he⟩ |
      ⟨t, res, job', rfl, ht, hl, he⟩ | ⟨t, job', res, proof, rfl, ht, -, he⟩
    · rw [ht'] at hnone
      cases hnone
    · rw [ht'] at he
      split_ifs at he
    · rw [ht'] at he
      cases he
      cases hsess
      exact Or.inr ⟨rfl, r, result, job, hr, ht, hl, hid⟩
    · rw [ht'] at he
      cases he

theorem not_answered_of_settles {w : World} {c : Submissions} {e : SubmissionEvent}
    (h : e.settles = true) (o : JobId) : .answered o ∉ marks w c e := by
  cases e with
  | take tx =>
    rw [marks]
    cases c.readers.lookup tx with
    | none => exact List.not_mem_nil
    | some r =>
      rw [Option.elim_some]
      cases r.task.frame with
      | none => exact List.not_mem_nil
      | some result =>
        rw [Option.elim_some]
        split_ifs <;> simp
  | stopMining => simp [marks]
  | other d =>
    cases d with
    | dispatchGranted minerId credits now => simp [marks]
    | _ => exact absurd h Bool.noConfusion
  | _ => exact absurd h Bool.noConfusion

theorem waits_of_answers {w : World} {c : Submissions} {e : SubmissionEvent} {m : Mark} {o : JobId}
    (hm : m ∈ marks w c e) (h : m.answers o = true) :
    ∃ tx, e = .orderGates tx ∧ c.Waits tx o ∧ marks w c e = [.answered o] := by
  obtain rfl : m = .answered o := eq_of_beq h
  cases e with
  | orderGates tx =>
    refine ⟨tx, rfl, ?_⟩
    rw [marks] at hm ⊢
    cases hr : c.readers.lookup tx with
    | none =>
      rw [hr] at hm
      exact absurd hm List.not_mem_nil
    | some r =>
      rw [hr, Option.elim_some] at hm
      rw [Option.elim_some]
      rcases r.react_cases w.coord c.now (.orderGates tx) with ⟨hnone, -⟩ | ⟨_, _, he, -⟩ |
        ⟨_, _, _, he, -, -, -⟩ | ⟨t, job, res, proof, -, ht, hid, he⟩
      · split at hm
        · next proof he =>
          rw [he] at hnone
          cases hnone
        · exact absurd hm List.not_mem_nil
      · cases he
      · cases he
      · rw [he] at hm ⊢
        cases List.mem_singleton.mp hm
        exact ⟨⟨r, job, res, hr, ht, hid.symm⟩, rfl⟩
  | take tx | stopMining => exact absurd hm (not_answered_of_settles rfl o)
  | other d =>
    cases d with
    | dispatchGranted minerId credits now => exact absurd hm (not_answered_of_settles rfl o)
    | stageMempoolOrders orders =>
      obtain ⟨o', heq⟩ := mem_orderMarks hm
      cases heq
    | _ => exact absurd hm List.not_mem_nil
  | _ => exact absurd hm List.not_mem_nil

theorem World.mempoolOrders_next (params : FeederParams) (w : World) {d : Section}
    (hf : ∀ jobId, d ≠ .forgetOrder jobId) (hs : ∀ orders, d ≠ .stageMempoolOrders orders) :
    (w.next params d).coord.mempoolOrders = w.coord.mempoolOrders := by
  cases hsh : d.shuffles with
  | true => exact of_rest (·.mempoolOrders) (fun _ => rfl) (World.rest_next params w hsh)
  | false =>
    cases d with
    | takeResult minerId jobId =>
      change (w.coord.takeResult minerId jobId).1.rest.mempoolOrders = _
      rw [rest_takeResult]
      rfl
    | childExit minerId owned =>
      change (w.coord.childExit minerId owned).rest.mempoolOrders = _
      rw [rest_childExit]
      rfl
    | settle o retain =>
      change (w.coord.settle o retain).mempoolOrders = _
      rw [CoordinatorState.settle]
      split_ifs <;> rfl
    | topUp snap plans =>
      obtain ⟨router, salts, saltCtr, draws, he⟩ := w.toStaging.topUp_eq params snap plans
      change (w.toStaging.topUp params snap plans).coord.mempoolOrders = _
      rw [he]
    | forgetOrder jobId => exact absurd rfl (hf jobId)
    | stageMempoolOrders orders => exact absurd rfl (hs orders)
    | registerMiner | applyCapabilities | dispatchGranted | noteResult | rejectJob
    | handleLeaseDone => exact absurd hsh Bool.noConfusion
    | _ => rfl

omit [Crates] in
theorem Submissions.emit_forgetOrder {c : Submissions} {e : SubmissionEvent} {jobId : JobId}
    (h : c.emit e = some (.forgetOrder jobId)) (hg : c.Guard e) :
    ∃ tx receipt, e = .orderReceipt tx receipt ∧ c.Holds tx jobId := by
  obtain ⟨tx, receipt, r, proof, rfl, hr, ht, hid⟩ := cause_of_emit hg h
  refine ⟨tx, receipt, rfl, r, hr, ?_⟩
  rw [ht, ← hid]
  rfl

/-- The steps that neither take, answer nor forget the order, and do not stage orders. -/
theorem OrderLog.quiet (params : FeederParams) {x : World × Submissions} {e : SubmissionEvent}
    {log : List Mark} {o : JobId} (hl : x.1.LedgerInv)
    (ha : (submissionMachine params).allowed x e) (ho : o.length = 8)
    (h : OrderLog x.1.coord x.2 log o) (hstage : ∀ orders, e ≠ .other (.stageMempoolOrders orders))
    (hforget : x.2.emit e ≠ some (.forgetOrder o)) (htake : ∀ tx, ¬ x.2.Takes x.1.coord e tx o)
    (hms : ∀ m ∈ marks x.1 x.2 e, m.answers o = false) :
    OrderLog ((submissionMachine params).next x e).1.coord ((submissionMachine params).next x e).2
      (log ++ marks x.1 x.2 e) o := by
  have hemit : ∀ d, x.2.emit e = some d → ∀ orders, d ≠ .stageMempoolOrders orders := by
    intro d hd orders heq
    subst heq
    exact hstage orders (Submissions.emit_idle rfl ha.1 hd)
  refine h.keep ?_ ?_ ?_ ?_ hms
  · refine Machine.Layer.base_next (P := fun w : World => w.coord.copies o ≤ _) ?_ ?_
    · exact fun _ => Nat.le_refl _
    · intro d hd
      exact World.copies_next params hl (ha.2 d hd) (hemit d hd) ho
  · intro hin
    refine Machine.Layer.base_next (P := fun w : World => o ∈ w.coord.mempoolOrders) ?_ ?_
    · exact fun _ => hin
    · intro d (hd : x.2.emit e = some d)
      cases d with
      | forgetOrder jobId =>
        refine Finmap.mem_erase.mpr ⟨?_, hin⟩
        intro heq
        subst heq
        exact hforget hd
      | _ =>
        refine Eq.mpr (congrArg (o ∈ ·) (World.mempoolOrders_next params x.1 ?_ (hemit _ hd))) hin
        simp
  · intro tx hh
    exact ((Submissions.holds_next hh).resolve_right (htake tx)).1
  · intro tx hw
    exact ((Submissions.waits_next hw).resolve_right (htake tx)).1

/-- The session that takes the order has the only copy. -/
theorem OrderLog.take (params : FeederParams) {x : World × Submissions} {tx : SessionId}
    {log : List Mark} {o : JobId} (hl : x.1.LedgerInv) (h : OrderLog x.1.coord x.2 log o)
    (ht : x.2.Takes x.1.coord (.take tx) tx o) :
    OrderLog ((submissionMachine params).next x (.take tx)).1.coord
      ((submissionMachine params).next x (.take tx)).2 (log ++ marks x.1 x.2 (.take tx)) o := by
  obtain ⟨-, r, result, job, hr, htask, hjob, hid⟩ := id ht
  have hres : result.jobId = o := (hl.agrees.keyed _ job hjob).symm.trans hid
  have hemit : x.2.emit (.take tx) = some (.takeResult r.minerId o) := by
    simp [Submissions.emit, hr, htask, hres]
  have hfly : x.1.coord.flying o = 1 :=
    if_pos (hres ▸ Finmap.mem_of_lookup_eq_some hjob)
  have htaken := copies_takeResult x.1.coord r.minerId o
  have hone := h.one
  have hzero : ((submissionMachine params).next x (.take tx)).1.coord.copies o = 0 := by
    rw [Machine.Layer.machine_next_fst_some hemit]
    change (x.1.coord.takeResult r.minerId o).1.copies o = 0
    omega
  have hfree : ∀ t, ¬ x.2.Holds t o := by
    intro t hh
    have := h.apart t hh
    omega
  have hheld : ∀ t, ((submissionMachine params).next x (.take tx)).2.Holds t o → t = tx := by
    intro t hh
    rcases Submissions.holds_next hh with ⟨hold, -⟩ | ⟨heq, -⟩
    · exact absurd hold (hfree t)
    · cases heq
      rfl
  have hms : ∀ m ∈ marks x.1 x.2 (.take tx), m.answers o = false := by
    intro m hm
    refine beq_eq_false_iff_ne.mpr fun heq => ?_
    rw [heq] at hm
    exact not_answered_of_settles rfl o hm
  refine ⟨by omega, ?_, fun t _ => hzero, ?_, fun hpos => by omega, ?_, h.guarded.append hms⟩
  · intro hnot
    rw [Machine.Layer.machine_next_fst_some hemit] at hnot
    have hsame := World.mempoolOrders_next params x.1 (d := .takeResult r.minerId o) (by simp) (by simp)
    have hcopies := (h.known fun hin => hnot (hsame ▸ hin)).1
    omega
  · intro t t' hh hh'
    rw [hheld t hh, hheld t' hh']
  · intro t _
    exact List.armed_append (h.staged (by omega)) hms

theorem OrderLog.forget (params : FeederParams) {x : World × Submissions} {tx : SessionId}
    {receipt : Option SubmitAction} {log : List Mark} {o : JobId}
    (h : OrderLog x.1.coord x.2 log o) (hheld : x.2.Holds tx o)
    (hemit : x.2.emit (.orderReceipt tx receipt) = some (.forgetOrder o)) :
    OrderLog ((submissionMachine params).next x (.orderReceipt tx receipt)).1.coord
      ((submissionMachine params).next x (.orderReceipt tx receipt)).2 (log ++ []) o := by
  have hzero : ((submissionMachine params).next x (.orderReceipt tx receipt)).1.coord.copies o = 0 := by
    rw [Machine.Layer.machine_next_fst_some hemit]
    exact h.apart tx hheld
  have hnone : ∀ t, ¬ ((submissionMachine params).next x (.orderReceipt tx receipt)).2.Holds t o := by
    intro t hh
    rcases Submissions.holds_next hh with ⟨hold, hne⟩ | ⟨heq, -⟩
    · cases h.single t tx hold hheld
      exact hne receipt rfl
    · cases heq
  rw [List.append_nil]
  exact ⟨by omega, fun _ => ⟨hzero, hnone⟩, fun t hh => absurd hh (hnone t),
    fun t t' hh => absurd hh (hnone t), fun hpos => by omega,
    fun t hw => absurd hw.holds (hnone t), h.guarded⟩

theorem OrderLog.answer (params : FeederParams) {x : World × Submissions} {tx : SessionId}
    {log : List Mark} {o : JobId} (h : OrderLog x.1.coord x.2 log o) (hw : x.2.Waits tx o) :
    OrderLog ((submissionMachine params).next x (.orderGates tx)).1.coord
      ((submissionMachine params).next x (.orderGates tx)).2 (log ++ [Mark.answered o]) o := by
  have hworld : ((submissionMachine params).next x (.orderGates tx)).1 = x.1 := rfl
  have hheld : ∀ t, ((submissionMachine params).next x (.orderGates tx)).2.Holds t o →
      x.2.Holds t o := by
    intro t hh
    rcases Submissions.holds_next hh with ⟨hold, -⟩ | ⟨heq, -⟩
    · exact hold
    · cases heq
  have hzero := h.apart tx hw.holds
  rw [hworld]
  refine ⟨h.one, ?_, fun t hh => h.apart t (hheld t hh), ?_, fun hpos => by omega, ?_, ?_⟩
  · intro hnot
    exact absurd hw.holds ((h.known hnot).2 tx)
  · exact fun t t' hh hh' => h.single t t' (hheld t hh) (hheld t' hh')
  · intro t hw'
    rcases Submissions.waits_next hw' with ⟨hold, hne⟩ | ⟨heq, -⟩
    · cases h.single t tx hold.holds hw.holds
      exact absurd rfl hne
    · cases heq
  · exact h.guarded.concat fun _ => h.waiting tx hw

theorem orderLog_next (params : FeederParams) {x : World × Submissions} {e : SubmissionEvent}
    {log : List Mark} {o : JobId} (hl : x.1.LedgerInv)
    (ha : (submissionMachine params).allowed x e) (ho : o.length = 8)
    (h : OrderLog x.1.coord x.2 log o) :
    OrderLog ((submissionMachine params).next x e).1.coord ((submissionMachine params).next x e).2
      (log ++ marks x.1 x.2 e) o := by
  by_cases hstage : ∃ orders, e = .other (.stageMempoolOrders orders)
  · obtain ⟨orders, rfl⟩ := hstage
    rw [← List.append_nil (log ++ _)]
    exact (h.stageAll orders).keep (Nat.le_refl _) (fun hin => hin) (fun _ hh => hh)
      (fun _ hw => hw) (by simp)
  by_cases htake : ∃ tx, x.2.Takes x.1.coord e tx o
  · obtain ⟨tx, htx⟩ := htake
    obtain ⟨rfl, -⟩ := id htx
    exact h.take params hl htx
  by_cases hforget : x.2.emit e = some (.forgetOrder o)
  · obtain ⟨tx, receipt, rfl, hheld⟩ := Submissions.emit_forgetOrder hforget ha.1
    exact h.forget params hheld hforget
  by_cases hans : ∃ m ∈ marks x.1 x.2 e, m.answers o = true
  · obtain ⟨m, hm, hmo⟩ := hans
    obtain ⟨tx, rfl, hw, hmarks⟩ := waits_of_answers hm hmo
    rw [hmarks]
    exact h.answer params hw
  · refine h.quiet params hl ha ho ?_ hforget ?_ ?_
    · exact fun orders heq => hstage ⟨orders, heq⟩
    · exact fun tx ht => htake ⟨tx, ht⟩
    · exact fun m hm => Bool.eq_false_iff.mpr fun hmo => hans ⟨m, hm, hmo⟩

structure SettleInv (y : (World × Submissions) × List Mark) : Prop where
  frames : LeaseFrames y.1.2
  jobs : ∀ id, JobLog y.1.1.coord y.2 id
  orders : ∀ o, o.length = 8 → OrderLog y.1.1.coord y.1.2 y.2 o

theorem settleInv_init (params : FeederParams) : SettleInv (settlementMachine params).init where
  frames := fun tx r result hr => absurd hr (no_reader_init params)
  jobs := by
    intro id
    refine ⟨?_, List.guarded_nil⟩
    intro hid
    exact absurd hid Finmap.notMem_empty
  orders := by
    intro o _
    have hzero : (settlementMachine params).init.1.1.coord.copies o = 0 := rfl
    have hnone : ∀ tx, ¬ (settlementMachine params).init.1.2.Holds tx o := by
      intro tx hh
      obtain ⟨r, hr, -⟩ := hh
      exact no_reader_init params hr
    exact ⟨by omega, fun _ => ⟨hzero, hnone⟩, fun t hh => absurd hh (hnone t),
      fun t t' hh => absurd hh (hnone t), fun hpos => by omega,
      fun t hw => absurd hw.holds (hnone t), List.guarded_nil⟩

theorem settleInv_reachable (params : FeederParams) {y : (World × Submissions) × List Mark}
    (h : (settlementMachine params).Reachable y) : SettleInv y := by
  refine h.invariant (I := SettleInv) (settleInv_init params) ?_
  intro y e hreach hi ha
  have hl : y.1.1.LedgerInv :=
    World.ledgerInv_reachable (Machine.Layer.base_reachable (Machine.Layer.base_reachable hreach))
  have ha' : (submissionMachine params).allowed y.1 e := ha.2 e rfl
  exact ⟨leaseFrames_next params hl hi.frames,
    fun id => jobLog_next params hl hi.frames ha' (hi.jobs id),
    fun o ho => orderLog_next params hl ha' ho (hi.orders o ho)⟩

/-- In every run, a plain job is settled by at most one frame for each time it is dispatched, a
cancelled job by none until it is dispatched again, and an order has one copy at most and is
answered at most once for each time it is staged. -/
theorem settled_at_most_once (params : FeederParams) {y : (World × Submissions) × List Mark}
    (h : (settlementMachine params).Reachable y) :
    (∀ id a b c, id.length ≠ 14 → y.2 = a ++ b ++ c → .dispatched id ∉ b →
      b.count (.reached id) ≤ 1) ∧
    (∀ id ids a b c, y.2 = a ++ .cancelled ids :: b ++ .reached id :: c → id ∈ ids →
      .dispatched id ∈ b) ∧
    (∀ o, o.length = 8 → y.1.1.coord.copies o ≤ 1) ∧
    ∀ o a b c, o.length = 8 → y.2 = a ++ b ++ c → .staged o ∉ b → b.count (.answered o) ≤ 1 := by
  have hinv := settleInv_reachable params h
  refine ⟨?_, ?_, fun o ho => (hinv.orders o ho).one, ?_⟩
  · intro id a b c hid hlog hb
    refine (hinv.jobs id).guarded.countP_le_one ?_ hlog ?_
    · intro m hm
      rw [eq_of_beq hm]
      exact decide_eq_true ⟨rfl, hid⟩
    · intro m hm
      refine beq_eq_false_iff_ne.mpr fun heq => ?_
      exact hb (heq ▸ hm)
  · intro id ids a b c hlog hid
    obtain ⟨m, hm, hdis⟩ := (hinv.jobs id).guarded.exists_arms hlog
      ⟨decide_eq_true hid, by simp [Mark.dispatches]⟩ (by simp [Mark.reaches])
    rwa [eq_of_beq hdis] at hm
  · intro o a b c ho hlog hb
    refine (hinv.orders o ho).guarded.countP_le_one (fun m hm => hm) hlog ?_
    intro m hm
    refine beq_eq_false_iff_ne.mpr fun heq => ?_
    exact hb (heq ▸ hm)

end

namespace Sample

def order : JobOrder := ⟨[1, 2, 3, 4, 5, 6, 7, 8], [0, 1], [(0, 1)], [0, 0], [1000], none, none, none, 0⟩

/-- Two sessions of miner `a` read the same answer to the order, its delivery fails, and the order
is staged once more. -/
def restaged : List SubmissionEvent :=
  [.other (.registerMiner "a" caps), .other (.stageMempoolOrders [order]),
    .other (.dispatchGranted "a" 1 0), .hello 0 "a", .hello 1 "a",
    .result 0 ⟨order.orderId, [⟨[1], 0⟩], 0, [], []⟩,
    .result 1 ⟨order.orderId, [⟨[1], 0⟩], 0, [], []⟩, .take 0, .take 1,
    .orderGates 0, .orderReceipt 0 none, .other (.stageMempoolOrders [order])]

end Sample

open Sample in
theorem settled_at_most_once_sample :
    let y := (settlementMachine params).run (settlementMachine params).init restaged
    y.2 = [Mark.staged order.orderId, .dispatched order.orderId] ++
        [Mark.reached order.orderId, .answered order.orderId] ++ [Mark.staged order.orderId] ∧
      [Mark.reached order.orderId, .answered order.orderId].count (.reached order.orderId) ≤ 1 ∧
      y.1.1.coord.copies order.orderId ≤ 1 ∧
      [Mark.reached order.orderId, .answered order.orderId].count (.answered order.orderId) ≤ 1 := by
  have hlog : ((settlementMachine params).run (settlementMachine params).init restaged).2 =
      [Mark.staged order.orderId, .dispatched order.orderId] ++
        [Mark.reached order.orderId, .answered order.orderId] ++ [Mark.staged order.orderId] := by
    decide +kernel
  obtain ⟨hjob, -, hcopies, horder⟩ := settled_at_most_once params
    (Machine.reachable_run (M := settlementMachine params) restaged (by decide +kernel))
  exact ⟨hlog, hjob order.orderId _ _ _ (by decide) hlog (by decide), hcopies order.orderId rfl,
    horder order.orderId _ _ _ rfl hlog (by decide)⟩

end QuipCoordinator
