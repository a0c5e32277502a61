import QuipCoordinator.Generations

/-!
# Submissions to the chain

The layer of the submitters over the critical sections. A session that reads a
`Result` takes what it needs under the lock, validates and submits without it,
and takes it again for the success and to settle. The feeder picks a stashed
candidate under the lock of its top-up and takes it again after the receipt. A
session has one result at a time and the feeder one candidate. `stops` counts
the rounds that ended and `wins` are the successes since the last one, so a
`ReadAt` is the moment a submitter read the best.
-/

namespace QuipCoordinator
variable [Crates]

structure ReadAt where
  stops : Nat
  wins : Nat
deriving DecidableEq

structure Success where
  energyMilli : Int
  generation : Nat
  read : ReadAt
deriving DecidableEq

/-- Where the read loop of a session is with a `Result`. -/
inductive Task
  | idle
  | lease (result : ResultFrame)
  | plain (result : ResultFrame)
  | verified (o : PowOutcome) (read : ReadAt)
  | submitting (o : PowOutcome) (read : ReadAt)
  | settling (o : PowOutcome) (retain : Bool) (read : ReadAt)
  | order (job : Job) (result : ResultFrame)
  | answering (proof : Proof)
deriving DecidableEq

structure Reader where
  minerId : MinerId
  task : Task
deriving DecidableEq

structure Submissions where
  readers : Table SessionId Reader
  win : Option (Candidate × ReadAt)
  stops : Nat
  wins : List Int
deriving DecidableEq

/-- A receipt is the action of a submit, none for a chain error. `block` is the estimated head and
`exhausted` the decision of the submit ledger. -/
inductive SubmissionEvent
  | hello (tx : SessionId) (minerId : MinerId)
  | result (tx : SessionId) (result : ResultFrame)
  | take (tx : SessionId)
  | note (tx : SessionId)
  | receipt (tx : SessionId) (receipt : Option SubmitAction)
  | settle (tx : SessionId)
  | orderGates (tx : SessionId)
  | orderReceipt (tx : SessionId) (receipt : Option SubmitAction)
  | stopMining
  | reseed (snap : MiningSnapshot) (qblockId : Option Nat) (decay : Option DecayParams)
  | topUp (snap : MiningSnapshot) (plans : List Plan) (block : Nat)
  | winReceipt (receipt : Option SubmitAction) (exhausted : Bool)
  | other (e : Section)
deriving DecidableEq

omit [Crates] in
/-- The sections in which no result is scored and no round begins or ends. -/
def Section.idle : Section → Bool
  | .registerMiner _ _ | .registerOutbound _ _ | .registerWakeup _ _ | .deregisterOutbound _
  | .applyCapabilities _ _ | .dispatchGranted _ _ _ | .rejectJob _ _ _ | .handleLeaseDone _ _
  | .childExit _ _ | .stageMempoolOrders _ => true
  | _ => false

def SubmissionEvent.session : SubmissionEvent → Option SessionId
  | .result tx _ | .take tx | .note tx | .receipt tx _ | .settle tx | .orderGates tx
  | .orderReceipt tx _ => some tx
  | _ => none

def Candidate.proof (cand : Candidate) : Proof where
  jobId := cand.jobId
  bestEnergyMilli := cand.bestEnergyMilli
  diversityMilli := cand.diversityMilli
  nValid := cand.nValid
  solutions := cand.solutions
  isPow := cand.isPow
  orderId := cand.orderId
  generation := cand.generation
  salt := cand.salt.elim [] (·.toList)
  deviceAccessTimeUs := cand.deviceAccessTimeUs

namespace Task
omit [Crates]

def accepts : Task → SubmissionEvent → Bool
  | .idle, .result _ _ | .lease _, .take _ | .plain _, .take _ | .verified _ _, .note _
  | .submitting _ _, .receipt _ _ | .settling _ _ _, .settle _ | .order _ _, .orderGates _
  | .answering _, .orderReceipt _ _ => true
  | _, _ => false

/-- The outcome a task carries, with the moment it read the best. -/
def pending : Task → Option (PowOutcome × ReadAt)
  | .verified o read | .submitting o read | .settling o _ read => some (o, read)
  | _ => none

/-- `settle_pow_result` submits at once or goes on to settle. -/
def start (o : PowOutcome) (read : ReadAt) : Task :=
  if o.submits then .submitting o read else .settling o false read

end Task

namespace Reader

def taken (r : Reader) (st : CoordinatorState) (result : ResultFrame) (read : ReadAt) : Task :=
  let taken := (st.takeResult r.minerId result.jobId).2
  match plainOutcome taken r.minerId result with
  | some o => .start o read
  | none => (taken.job.filter (·.isOrder)).elim .idle fun job => .order job result

def react (r : Reader) (st : CoordinatorState) (read : ReadAt) (e : SubmissionEvent) : Task :=
  match r.task, e with
  | .idle, .result _ result =>
    if (st.inflight.lookup result.jobId).any (·.isLease) then .lease result else .plain result
  | .lease result, .take _ =>
    (st.leaseOutcome r.minerId result).elim .idle fun o => .verified o read
  | .plain result, .take _ => r.taken st result read
  | .verified o read, .note _ => .start o read
  | .submitting o read, .receipt _ receipt => .settling o (retainsForRetry receipt) read
  | .order job result, .orderGates _ =>
    (orderProof (st.mempoolOrders.lookup job.jobId) job result).elim .idle .answering
  | _, _ => .idle

end Reader

namespace Submissions

omit [Crates] in
def init : Submissions := ⟨∅, none, 0, []⟩

omit [Crates] in
def now (c : Submissions) : ReadAt := ⟨c.stops, c.wins.length⟩

/-- The candidate that the poll submits: due, improving, and clear of the live gates. -/
def due (params : FeederParams) (w : World) (snap : MiningSnapshot) (plans : List Plan)
    (block : Nat) : Option Candidate :=
  let coord := (w.next params (.topUp snap plans)).coord
  (coord.stash.dueImproving block coord.currentBestMilli).filter fun cand =>
    (checkProofGates cand.solutions (gatesFromTarget (some (targetFromSnapshot snap)))).accepted

omit [Crates] in
def success (c : Submissions) : SubmissionEvent → Option Success
  | .receipt tx (some .success) => (c.readers.lookup tx).bind fun r =>
    match r.task with
    | .submitting o read => some ⟨o.validated.bestEnergyMilli, o.proof.generation, read⟩
    | _ => none
  | .winReceipt (some .success) _ => c.win.map fun win =>
    ⟨win.1.bestEnergyMilli, win.1.proof.generation, win.2⟩
  | _ => none

def next (params : FeederParams) (w : World) (c : Submissions) (e : SubmissionEvent) :
    Submissions :=
  let c' :=
    { c with
      readers := e.session.elim c.readers fun tx =>
        c.readers.modify tx fun r => { r with task := r.react w.coord c.now e }
      wins := c.wins ++ ((c.success e).map (·.energyMilli)).toList }
  match e with
  | .hello tx minerId => { c' with readers := c.readers.insert tx ⟨minerId, .idle⟩ }
  | .stopMining => { c' with stops := c.stops + 1, wins := [] }
  | .topUp snap plans block => { c' with win := (due params w snap plans block).map (·, c.now) }
  | .winReceipt _ _ => { c' with win := none }
  | _ => c'

omit [Crates] in
def emit (c : Submissions) : SubmissionEvent → Option Section
  | .take tx => (c.readers.lookup tx).bind fun r =>
    match r.task with
    | .plain result => some (.takeResult r.minerId result.jobId)
    | _ => none
  | .note tx => (c.readers.lookup tx).bind fun r =>
    match r.task with
    | .verified o _ => some (.noteResult o.job.generation)
    | _ => none
  | .receipt tx receipt => (c.success (.receipt tx receipt)).map fun s => .recordBest s.energyMilli
  | .settle tx => (c.readers.lookup tx).bind fun r =>
    match r.task with
    | .settling o retain _ => some (.settle o retain)
    | _ => none
  | .orderReceipt tx receipt => (c.readers.lookup tx).bind fun r =>
    match r.task with
    | .answering proof =>
      if retainsForRetry receipt then some (.forgetOrder proof.jobId) else none
    | _ => none
  | .stopMining => some .stopMining
  | .reseed snap qblockId decay => some (.reseed snap qblockId decay)
  | .topUp snap plans _ => some (.topUp snap plans)
  | .winReceipt receipt exhausted => c.win.bind fun win =>
    match receipt with
    | some .success => some (.winSuccess win.1)
    | some .retry => if exhausted then some (.markSubmitted win.1.jobId) else none
    | some .stopRoundStale | some .stopFatal => some (.markSubmitted win.1.jobId)
    | none => none
  | .other e => some e
  | _ => none

omit [Crates] in
def Guard (c : Submissions) (e : SubmissionEvent) : Prop :=
  match e with
  | .hello tx _ => tx ∉ c.readers
  | .stopMining | .reseed _ _ _ | .topUp _ _ _ => c.win = none
  | .winReceipt _ _ => c.win ≠ none
  | .other e => e.idle = true
  | _ => ∃ tx ∈ e.session, ∃ r ∈ c.readers.lookup tx, r.task.accepts e = true

omit [Crates] in
instance (c : Submissions) : (e : SubmissionEvent) → Decidable (c.Guard e)
  | .hello _ _ => inferInstanceAs (Decidable (¬ _))
  | .stopMining | .reseed _ _ _ | .topUp _ _ _ => inferInstanceAs (Decidable (c.win = none))
  | .winReceipt _ _ => inferInstanceAs (Decidable (c.win ≠ none))
  | .other e => inferInstanceAs (Decidable (e.idle = true))
  | .result tx _ | .take tx | .note tx | .receipt tx _ | .settle tx | .orderGates tx
  | .orderReceipt tx _ =>
    inferInstanceAs (Decidable (∃ tx' ∈ some tx, ∃ r ∈ c.readers.lookup tx', _))

end Submissions

def submissionLayer (params : FeederParams) :
    Machine.Layer (coordinatorMachine params) Submissions SubmissionEvent where
  init := .init
  guard _ c := c.Guard
  emit _ c := c.emit
  next w c := c.next params w

abbrev submissionMachine (params : FeederParams) : Machine (World × Submissions) SubmissionEvent :=
  (submissionLayer params).machine

instance (params : FeederParams) (x : World × Submissions) (e : SubmissionEvent) :
    Decidable ((submissionMachine params).allowed x e) :=
  inferInstanceAs (Decidable (x.2.Guard e ∧ ∀ d ∈ x.2.emit e, x.1.Allowed d))

namespace CoordinatorState
omit [Crates]

structure SameRound (st st' : CoordinatorState) : Prop where
  generation : st'.generation = st.generation
  best : st'.currentBestMilli = st.currentBestMilli
  stash : st'.stash = st.stash

theorem Moves.sameRound {st st' : CoordinatorState} (h : Moves st st') : SameRound st st' :=
  ⟨h.generation, h.currentBest, h.stash⟩

end CoordinatorState

open CoordinatorState

theorem World.sameRound_next (params : FeederParams) (w : World) {e : Section}
    (h : e.idle = true) : SameRound w.coord (w.next params e).coord := by
  cases hm : e.moves with
  | true => exact (World.next_moves params w hm).sameRound
  | false =>
    cases e with
    | registerWakeup minerId grants => exact ⟨rfl, rfl, rfl⟩
    | deregisterOutbound minerId => exact ⟨rfl, rfl, rfl⟩
    | stageMempoolOrders orders =>
      obtain ⟨-, r, m, he⟩ := stageMempoolOrders_spec orders w.coord
      change SameRound w.coord (w.coord.stageMempoolOrders orders)
      rw [he]
      exact ⟨rfl, rfl, rfl⟩
    | _ => first | exact absurd hm Bool.noConfusion | exact absurd h Bool.noConfusion

namespace Submissions

theorem reader_next {params : FeederParams} {w : World} {c : Submissions} {e : SubmissionEvent}
    {tx : SessionId} {r' : Reader} (h : (c.next params w e).readers.lookup tx = some r') :
    r'.task = .idle ∨ (c.readers.lookup tx = some r' ∧ e.session ≠ some tx) ∨
      ∃ r, c.readers.lookup tx = some r ∧ e.session = some tx ∧
        r' = { r with task := r.react w.coord c.now e } := by
  have hmod : (e.session.elim c.readers fun tx =>
      c.readers.modify tx fun r => { r with task := r.react w.coord c.now e }).lookup tx = some r' →
      (c.readers.lookup tx = some r' ∧ e.session ≠ some tx) ∨
        ∃ r, c.readers.lookup tx = some r ∧ e.session = some tx ∧
          r' = { r with task := r.react w.coord c.now e } := by
    intro hl
    cases hs : e.session with
    | none =>
      rw [hs] at hl
      exact Or.inl ⟨hl, by simp⟩
    | some tx' =>
      rw [hs, Option.elim_some, Finmap.lookup_modify] at hl
      split_ifs at hl with ht
      · subst ht
        obtain ⟨r, hr, he⟩ := Option.map_eq_some_iff.mp hl
        exact Or.inr ⟨r, hr, rfl, he.symm⟩
      · exact Or.inl ⟨hl, fun heq => ht (Option.some.inj heq).symm⟩
  cases e with
  | hello tx' minerId =>
    have hl : (c.readers.insert tx' ⟨minerId, .idle⟩).lookup tx = some r' := h
    rw [Finmap.lookup_insert_eq] at hl
    split_ifs at hl
    · exact Or.inl (by rw [← Option.some.inj hl])
    · exact Or.inr (Or.inl ⟨hl, by simp [SubmissionEvent.session]⟩)
  | _ => exact Or.inr (hmod h)

omit [Crates] in
theorem pending_start (o : PowOutcome) (read : ReadAt) :
    (Task.start o read).pending = some (o, read) := by
  rw [Task.start]
  split_ifs <;> rfl

/-- An outcome that a session carries was carried before, or the session takes it for the `Result`
it has read. -/
theorem pending_taken {r : Reader} {st : CoordinatorState} {now : ReadAt} {e : SubmissionEvent}
    {o : PowOutcome} {read : ReadAt} (h : (r.react st now e).pending = some (o, read)) :
    r.task.pending = some (o, read) ∨ read = now ∧ ∃ tx result, e = .take tx ∧
      (r.task = .plain result ∧
          plainOutcome (st.takeResult r.minerId result.jobId).2 r.minerId result = some o ∨
        r.task = .lease result ∧ st.leaseOutcome r.minerId result = some o) := by
  unfold Reader.react at h
  split at h
  · split_ifs at h <;> exact nomatch h
  · next result tx ht =>
    cases ho : st.leaseOutcome r.minerId result with
    | none =>
      rw [ho] at h
      exact nomatch h
    | some o' =>
      rw [ho] at h
      obtain ⟨rfl, rfl⟩ := Prod.mk.inj (Option.some.inj h)
      exact Or.inr ⟨rfl, tx, result, rfl, Or.inr ⟨ht, ho⟩⟩
  · next result tx ht =>
    rw [Reader.taken] at h
    cases ho : plainOutcome (st.takeResult r.minerId result.jobId).2 r.minerId result with
    | none =>
      rw [ho] at h
      cases hj : (st.takeResult r.minerId result.jobId).2.job.filter (·.isOrder) <;> rw [hj] at h <;>
        exact nomatch h
    | some o' =>
      rw [ho] at h
      dsimp only at h
      rw [pending_start] at h
      obtain ⟨rfl, rfl⟩ := Prod.mk.inj (Option.some.inj h)
      exact Or.inr ⟨rfl, tx, result, rfl, Or.inl ⟨ht, ho⟩⟩
  · next o' read' tx ht =>
    rw [pending_start] at h
    exact Or.inl (by rw [ht]; exact h)
  · next o' read' tx receipt ht => exact Or.inl (by rw [ht]; exact h)
  · next job result tx ht =>
    cases hp : orderProof (st.mempoolOrders.lookup job.jobId) job result <;> rw [hp] at h <;>
      exact nomatch h
  · exact nomatch h

theorem pending_react {r : Reader} {st : CoordinatorState} {now : ReadAt} {e : SubmissionEvent}
    {o : PowOutcome} {read : ReadAt} (h : (r.react st now e).pending = some (o, read)) :
    r.task.pending = some (o, read) ∨ read = now ∧ ∃ result,
      plainOutcome (st.takeResult r.minerId result.jobId).2 r.minerId result = some o ∨
        st.leaseOutcome r.minerId result = some o := by
  rcases pending_taken h with hp | ⟨hr, tx, result, -, ⟨-, ho⟩ | ⟨-, ho⟩⟩
  · exact Or.inl hp
  · exact Or.inr ⟨hr, result, Or.inl ho⟩
  · exact Or.inr ⟨hr, result, Or.inr ho⟩

end Submissions

def SubmissionEvent.steady : SubmissionEvent → Bool
  | .hello _ _ | .result _ _ | .take _ | .note _ | .orderGates _ | .orderReceipt _ _ | .other _ =>
    true
  | _ => false

omit [Crates] in
theorem Submissions.emit_settle {c : Submissions} {tx : SessionId} {d : Section}
    (h : c.emit (.settle tx) = some d) :
    ∃ r o retain read, c.readers.lookup tx = some r ∧ r.task = .settling o retain read ∧
      d = .settle o retain := by
  obtain ⟨r, hl, h⟩ := Option.bind_eq_some_iff.mp h
  cases ht : r.task <;> rw [ht] at h <;> cases h
  exact ⟨r, _, _, _, hl, ht, rfl⟩

omit [Crates] in
theorem Submissions.emit_winReceipt {c : Submissions} {receipt : Option SubmitAction}
    {exhausted : Bool} {d : Section} (h : c.emit (.winReceipt receipt exhausted) = some d) :
    ∃ cand read, c.win = some (cand, read) ∧
      ((receipt = some .success ∧ d = .winSuccess cand) ∨ d = .markSubmitted cand.jobId) := by
  obtain ⟨⟨cand, read⟩, hw, h⟩ := Option.bind_eq_some_iff.mp h
  refine ⟨cand, read, hw, ?_⟩
  split at h
  · exact Or.inl ⟨rfl, (Option.some.inj h).symm⟩
  · split_ifs at h
    exact Or.inr (Option.some.inj h).symm
  · exact Or.inr (Option.some.inj h).symm
  · exact Or.inr (Option.some.inj h).symm
  · cases h

/-- The event that a section comes from, and what the session read there. -/
def Submissions.Cause (c : Submissions) (e : SubmissionEvent) : Section → Prop
  | .takeResult m id => ∃ tx r result, e = .take tx ∧ c.readers.lookup tx = some r ∧
      r.task = .plain result ∧ r.minerId = m ∧ result.jobId = id
  | .noteResult g => ∃ tx r o read, e = .note tx ∧ c.readers.lookup tx = some r ∧
      r.task = .verified o read ∧ o.job.generation = g
  | .recordBest _ => ∃ tx receipt, e = .receipt tx receipt
  | .settle o retain => ∃ tx r read, e = .settle tx ∧ c.readers.lookup tx = some r ∧
      r.task = .settling o retain read
  | .forgetOrder id => ∃ tx receipt r proof, e = .orderReceipt tx receipt ∧
      c.readers.lookup tx = some r ∧ r.task = .answering proof ∧ proof.jobId = id
  | .stopMining => e = .stopMining
  | .reseed snap qblockId decay => e = .reseed snap qblockId decay
  | .topUp snap plans => ∃ block, e = .topUp snap plans block
  | .winSuccess _ | .markSubmitted _ => ∃ receipt exhausted, e = .winReceipt receipt exhausted
  | d => e = .other d

omit [Crates] in
theorem Submissions.cause_of_emit {c : Submissions} {e : SubmissionEvent} {d : Section}
    (hg : c.Guard e) (h : c.emit e = some d) : c.Cause e d := by
  cases e with
  | take tx =>
    obtain ⟨r, hl, h⟩ := Option.bind_eq_some_iff.mp h
    cases ht : r.task <;> rw [ht] at h <;> cases h
    exact ⟨tx, r, _, rfl, hl, ht, rfl, rfl⟩
  | note tx =>
    obtain ⟨r, hl, h⟩ := Option.bind_eq_some_iff.mp h
    cases ht : r.task <;> rw [ht] at h <;> cases h
    exact ⟨tx, r, _, _, rfl, hl, ht, rfl⟩
  | settle tx =>
    obtain ⟨r, o, retain, read, hl, ht, rfl⟩ := emit_settle h
    exact ⟨tx, r, read, rfl, hl, ht⟩
  | receipt tx receipt =>
    obtain ⟨s, -, rfl⟩ := Option.map_eq_some_iff.mp h
    exact ⟨tx, receipt, rfl⟩
  | orderReceipt tx receipt =>
    obtain ⟨r, hl, h⟩ := Option.bind_eq_some_iff.mp h
    cases ht : r.task with
    | answering proof =>
      rw [ht] at h
      dsimp only at h
      split_ifs at h
      cases h
      exact ⟨tx, receipt, r, proof, rfl, hl, ht, rfl⟩
    | _ =>
      rw [ht] at h
      cases h
  | winReceipt receipt exhausted =>
    obtain ⟨cand, read, -, ⟨-, rfl⟩ | rfl⟩ := emit_winReceipt h
    · exact ⟨receipt, exhausted, rfl⟩
    · exact ⟨receipt, exhausted, rfl⟩
  | stopMining | reseed snap qblockId decay =>
    cases h
    rfl
  | topUp snap plans block =>
    cases h
    exact ⟨block, rfl⟩
  | other d' =>
    cases h
    cases d with
    | takeResult | noteResult | recordBest | settle | forgetOrder | stopMining | reseed | topUp
    | winSuccess | markSubmitted => exact absurd hg Bool.noConfusion
    | _ => rfl
  | hello tx m => cases h
  | result tx result => cases h
  | orderGates tx => cases h

omit [Crates] in
theorem Submissions.emit_steady {c : Submissions} {e : SubmissionEvent} {d : Section}
    (hs : e.steady = true) (hg : c.Guard e) (h : c.emit e = some d) :
    d.moves = true ∨ d.idle = true := by
  have hcause := cause_of_emit hg h
  cases d with
  | takeResult | noteResult | forgetOrder => exact Or.inl rfl
  | recordBest b | winSuccess cand | markSubmitted id =>
    obtain ⟨_, _, rfl⟩ := hcause
    cases hs
  | settle o retain =>
    obtain ⟨_, _, _, rfl, -⟩ := hcause
    cases hs
  | topUp snap plans =>
    obtain ⟨_, rfl⟩ := hcause
    cases hs
  | stopMining | reseed snap qblockId decay =>
    obtain rfl : e = _ := hcause
    cases hs
  | _ => exact Or.inr rfl

theorem sameRound_steady (params : FeederParams) {x : World × Submissions} {e : SubmissionEvent}
    (hs : e.steady = true) (hg : x.2.Guard e) :
    SameRound x.1.coord ((submissionMachine params).next x e).1.coord := by
  refine Machine.Layer.base_next (P := fun w : World => SameRound x.1.coord w.coord) ?_ ?_
  · exact fun _ => ⟨rfl, rfl, rfl⟩
  · intro d hd
    rcases x.2.emit_steady hs hg hd with hm | hi
    · exact (World.next_moves params x.1 hm).sameRound
    · exact World.sameRound_next params x.1 hi

theorem round_topUp (params : FeederParams) (s : Staging) (snap : MiningSnapshot)
    (plans : List Plan) :
    let st := (s.topUp params snap plans).coord
    st.generation = s.coord.generation ∧ st.currentBestMilli = s.coord.currentBestMilli ∧
      st.stash = s.coord.stash.setAlgorithm (.forSpecVersion snap.specVersion) := by
  obtain ⟨router, salts, saltCtr, draws, he⟩ := s.topUp_eq params snap plans
  rw [he]
  exact ⟨rfl, rfl, rfl⟩

theorem coordGeneration_next (params : FeederParams) (w : World) {e : Section}
    (h : e ≠ .stopMining) : (w.next params e).coord.generation = w.coord.generation := by
  cases hf : e.feeds with
  | false => exact (World.next_keeps params w hf).generation
  | true =>
    cases e with
    | stopMining => exact absurd rfl h
    | reseed snap q d => rfl
    | topUp snap plans => exact (round_topUp params w.toStaging snap plans).1
    | stageMempoolOrders orders => exact (World.sameRound_next params w rfl).generation
    | _ => exact absurd hf Bool.noConfusion

omit [Crates] in
theorem Submissions.success_receipt {c : Submissions} {tx : SessionId}
    {receipt : Option SubmitAction} {s : Success} (h : c.success (.receipt tx receipt) = some s) :
    ∃ r o read, c.readers.lookup tx = some r ∧ r.task = .submitting o read ∧
      s = ⟨o.validated.bestEnergyMilli, o.proof.generation, read⟩ := by
  rcases receipt with _ | action
  · cases h
  · cases action with
    | success =>
      obtain ⟨r, hl, h⟩ := Option.bind_eq_some_iff.mp h
      cases ht : r.task <;> rw [ht] at h <;> cases h
      exact ⟨r, _, _, hl, ht, rfl⟩
    | _ => cases h

omit [Crates] in
theorem Submissions.success_winReceipt {c : Submissions} {receipt : Option SubmitAction}
    {exhausted : Bool} {s : Success} (h : c.success (.winReceipt receipt exhausted) = some s) :
    ∃ cand read, c.win = some (cand, read) ∧
      s = ⟨cand.bestEnergyMilli, cand.proof.generation, read⟩ := by
  rcases receipt with _ | action
  · cases h
  · cases action with
    | success =>
      obtain ⟨⟨cand, read⟩, hw, rfl⟩ := Option.map_eq_some_iff.mp h
      exact ⟨cand, read, hw, rfl⟩
    | _ => cases h

omit [Crates] in
theorem Submissions.emit_stopMining {c : Submissions} {e : SubmissionEvent} (hg : c.Guard e)
    (h : c.emit e = some .stopMining) : e = .stopMining :=
  cause_of_emit hg h

theorem generation_submission (params : FeederParams) {x : World × Submissions}
    {e : SubmissionEvent} (hg : x.2.Guard e) (h : e ≠ .stopMining) :
    ((submissionMachine params).next x e).1.coord.generation = x.1.coord.generation := by
  refine Machine.Layer.base_next (P := fun w : World => w.coord.generation = x.1.coord.generation) ?_ ?_
  · exact fun _ => rfl
  · intro d hd
    refine coordGeneration_next params x.1 ?_
    intro heq
    subst heq
    exact h (x.2.emit_stopMining hg hd)

theorem no_reader_init (params : FeederParams) {tx : SessionId} {r : Reader} :
    (submissionMachine params).init.2.readers.lookup tx ≠ some r := by
  change (∅ : Table SessionId Reader).lookup tx ≠ some r
  simp

namespace Sample
omit [Crates]

def decay : DecayParams := ⟨0, 0, 0, 0, 0, 10⟩

def mined (snap : MiningSnapshot) (spins : Bytes) : List SubmissionEvent :=
  [.other (.registerMiner "a" caps), .stopMining, .reseed snap none (some decay),
    .topUp snap [⟨"a", 0, 1⟩] 0, .other (.dispatchGranted "a" 1 0), .hello 0 "a",
    .result 0 ⟨jobId, [⟨spins, 0⟩], 0, [], []⟩, .take 0]

def nextSnap : MiningSnapshot :=
  { snap with lastProofBlockHash := Vector.replicate 32 2, blockNumber := 11 }

end Sample
end QuipCoordinator
