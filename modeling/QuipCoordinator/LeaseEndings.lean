import QuipCoordinator.JobCopies
import QuipCoordinator.Participation
import QuipCoordinator.StashEntries

/-!
# How a lease ends

A lease is in flight under one id through all of its results. The form of its id
keeps a dispatch from putting another kind of job there, so the entry goes only
with the sections that complete, cancel or reclaim it. An outcome for a lease is
one that its session verified, as long as no session takes a lease for a `Result`
that it read as one of a plain job. Only a dispatch that sends a lease under the id
of such a `Result` leads to that.
-/

namespace QuipCoordinator
open Crates CoordinatorState

/-- The sections that end the job in flight under an id: a `Reject` or a `LeaseDone` for it, the
reclaim of its miner, and the cancel of a round. -/
def Section.EndsJob (st : CoordinatorState) (id : JobId) : Section → Prop
  | .rejectJob _ jobId _ => jobId = id
  | .handleLeaseDone _ done => done.jobId = id
  | .childExit minerId _ => st.inflightOwner.lookup id = some minerId
  | .stopMining => True
  | _ => False

def CoordinatorState.HoldsLease (st : CoordinatorState) (id : JobId) : Prop :=
  ∃ job, st.inflight.lookup id = some job ∧ job.isLease = true

theorem mem_inflight_drain {minerId : MinerId} {now : Nat} (fuel : Nat) {st : CoordinatorState}
    {id : JobId} (h : id ∈ st.inflight) : id ∈ (drain minerId now fuel st).1.inflight := by
  refine drain_induct (P := fun st out => id ∈ st.inflight → id ∈ out.1.inflight) ?_ ?_ ?_ fuel st h
  · exact fun st h => h
  · exact fun st r _ h => h
  · intro st r job out _ ih h
    exact ih (Finmap.mem_insert.mpr (Or.inr h))

section
variable [Crates]

namespace World

theorem job_next {params : FeederParams} {w : World} {d : Section} {id : JobId} {job : Job}
    (ha : w.Allowed d) (hj : w.coord.inflight.lookup id = some job)
    (hend : ¬ d.EndsJob w.coord id) (htake : ∀ m, d ≠ .takeResult m id)
    (hsend : ∀ m c n, d ≠ .dispatchGranted m c n) :
    (w.next params d).coord.inflight.lookup id = some job := by
  have herase : ∀ jobId : JobId, jobId ≠ id →
      (w.coord.inflight.erase jobId).lookup id = some job := by
    intro jobId hne
    rwa [Finmap.lookup_erase_eq, if_neg fun heq => hne heq.symm]
  cases d with
  | dispatchGranted m c n => exact absurd rfl (hsend m c n)
  | stopMining => exact absurd trivial hend
  | takeResult m jobId =>
    obtain ⟨router, mined, -, he⟩ := w.coord.takeResult_eq m jobId
    change (w.coord.takeResult m jobId).1.inflight.lookup id = some job
    rw [he]
    exact herase jobId fun heq => htake m (heq ▸ rfl)
  | rejectJob m jobId reason =>
    have hne := herase jobId hend
    change (w.coord.rejectJob m jobId reason).inflight.lookup id = some job
    rw [CoordinatorState.rejectJob]
    cases hl : w.coord.inflight.lookup jobId <;> simp only [completeInflight, hl] <;> exact hne
  | handleLeaseDone m done =>
    obtain ⟨router, mined, -, he⟩ := w.coord.handleLeaseDone_eq m done
    change (w.coord.handleLeaseDone m done).inflight.lookup id = some job
    rw [he]
    exact herase done.jobId hend
  | childExit m owned =>
    change (w.coord.reclaimMiner m owned).1.inflight.lookup id = some job
    rw [reclaimMiner_eq w.coord m ha.1]
    exact (lookup_eraseAll_owned ha w.coord.inflight hend).trans hj
  | noteResult g =>
    change (w.coord.noteResult g).inflight.lookup id = some job
    rw [CoordinatorState.noteResult]
    split_ifs <;> exact hj
  | settle o retain =>
    change (w.coord.settle o retain).inflight.lookup id = some job
    rw [CoordinatorState.settle]
    split_ifs <;> exact hj
  | applyCapabilities m caps =>
    change (w.coord.applyCapabilities m caps).1.inflight.lookup id = some job
    rw [CoordinatorState.applyCapabilities]
    split_ifs <;> exact hj
  | topUp snap plans =>
    obtain ⟨router, salts, saltCtr, draws, he⟩ := w.toStaging.topUp_eq params snap plans
    change (w.toStaging.topUp params snap plans).coord.inflight.lookup id = some job
    rw [he]
    exact hj
  | stageMempoolOrders orders =>
    obtain ⟨-, r, m, he⟩ := stageMempoolOrders_spec orders w.coord
    change (w.coord.stageMempoolOrders orders).inflight.lookup id = some job
    rw [he]
    exact hj
  | _ => exact hj

/-- The id of a lease has the form of a lease, so a dispatch leaves a lease under it. -/
theorem holdsLease_dispatch {params : FeederParams} {w : World} (h : w.LedgerInv) {m : MinerId}
    {c n : Nat} {id : JobId} (hl : w.coord.HoldsLease id) :
    (w.next params (.dispatchGranted m c n)).coord.HoldsLease id := by
  obtain ⟨job, hj, hlease⟩ := hl
  have hnext := ledgerInv_next params (e := .dispatchGranted m c n) h trivial
  have hmem : id ∈ (w.next params (.dispatchGranted m c n)).coord.inflight :=
    mem_inflight_drain _ (Finmap.mem_of_lookup_eq_some hj)
  obtain ⟨k, hk⟩ := Finmap.mem_iff.mp hmem
  refine ⟨k, hk, (hnext.idForm k (Or.inr ⟨id, hk⟩)).mpr ?_⟩
  rw [hnext.agrees.keyed id k hk, ← h.agrees.keyed id job hj]
  exact (h.idForm job (Or.inr ⟨id, hj⟩)).mp hlease

end World

/-! ## The outcomes of leases -/

/-- The outcome was selected from an answer to its job that is not empty and that was verified
against the generator of the job. -/
def PowOutcome.VerifiedFrom (o : PowOutcome) (result : ResultFrame) : Prop :=
  result.jobId = o.job.jobId ∧ result.solutions ≠ [] ∧ ∃ generator view target verified,
    o.job.generator = some generator ∧
      verifyAndSelect generator view target result = some (verified, o.validated) ∧
      o.jobId = verified.nonce.toList ∧ o.salt = some verified.salt

theorem verifiedFrom_of_leaseOutcome {st : CoordinatorState} (h : st.Agrees) {minerId : MinerId}
    {result : ResultFrame} {o : PowOutcome} (ho : st.leaseOutcome minerId result = some o) :
    o.VerifiedFrom result := by
  unfold leaseOutcome at ho
  obtain ⟨job, hj, ho⟩ := Option.bind_eq_some_iff.mp ho
  obtain ⟨generator, hg, ho⟩ := Option.bind_eq_some_iff.mp ho
  obtain ⟨view, -, ho⟩ := Option.bind_eq_some_iff.mp ho
  obtain ⟨target, -, ho⟩ := Option.bind_eq_some_iff.mp ho
  split_ifs at ho with hempty
  obtain ⟨⟨verified, validated⟩, hv, ho⟩ := Option.bind_eq_some_iff.mp ho
  obtain rfl := Option.some.inj ho
  refine ⟨(h.keyed _ job hj).symm, ?_, generator, view, target, verified, hg, hv, rfl, rfl⟩
  simpa using hempty

/-- A session that has verified an outcome holds one that was verified, and no session carries an
outcome for a lease that was not. -/
structure LeaseInv (x : World × Submissions) : Prop where
  verified : ∀ tx r o read, x.2.readers.lookup tx = some r → r.task = .verified o read →
    ∃ result, o.VerifiedFrom result
  carried : ∀ tx r o read, x.2.readers.lookup tx = some r → r.task.pending = some (o, read) →
    o.job.isLease = true → ∃ result, o.VerifiedFrom result

theorem leaseInv_init (params : FeederParams) : LeaseInv (submissionMachine params).init where
  verified _ _ _ _ h := absurd h (no_reader_init params)
  carried _ _ _ _ h := absurd h (no_reader_init params)

theorem not_isLease_of_plain {st : CoordinatorState} {minerId : MinerId} {result : ResultFrame}
    {o : PowOutcome} (hk : Task.keepsKind st (.plain result) = true)
    (ho : plainOutcome (st.takeResult minerId result.jobId).2 minerId result = some o) :
    o.job.isLease = false := by
  rw [taken_eq] at ho
  obtain ⟨job, hj, ho⟩ := Option.bind_eq_some_iff.mp ho
  dsimp only at hj
  split_ifs at ho
  obtain ⟨ising, -, ho⟩ := Option.bind_eq_some_iff.mp ho
  obtain rfl := Option.some.inj ho
  simpa [Task.keepsKind, hj] using hk

theorem leaseInv_next {params : FeederParams} {x : World × Submissions} {e : SubmissionEvent}
    (hw : x.1.LedgerInv) (h : LeaseInv x) (hk : KindKept x e) :
    LeaseInv ((submissionMachine params).next x e) := by
  refine ⟨?_, ?_⟩
  · intro tx r o read hl ht
    rcases Submissions.reader_next hl with hidle | ⟨hold, -⟩ | ⟨r', hl', hs, rfl⟩
    · rw [hidle] at ht
      cases ht
    · exact h.verified tx r o read hold ht
    · obtain ⟨tx', result, -, -, ho⟩ := verified_react ht
      exact ⟨result, verifiedFrom_of_leaseOutcome hw.agrees ho⟩
  · intro tx r o read hl hp hlease
    rcases Submissions.reader_next hl with hidle | ⟨hold, -⟩ | ⟨r', hl', hs, rfl⟩
    · rw [hidle] at hp
      cases hp
    · exact h.carried tx r o read hold hp hlease
    · rcases Submissions.pending_taken hp with hp | ⟨-, tx', result, rfl, ⟨ht, ho⟩ | ⟨-, ho⟩⟩
      · exact h.carried tx r' o read hl' hp hlease
      · -- the plain path takes no lease
        obtain rfl := Option.some.inj hs
        have hkind : Task.keepsKind x.1.coord (.plain result) = true := by
          simpa [KindKept, hl', ht] using hk
        rw [not_isLease_of_plain hkind ho] at hlease
        exact absurd hlease Bool.noConfusion
      · exact ⟨result, verifiedFrom_of_leaseOutcome hw.agrees ho⟩

theorem leaseInv_reachable {params : FeederParams} {x : World × Submissions}
    (h : ((submissionMachine params).restrict KindKept).Reachable x) : LeaseInv x := by
  refine Machine.Reachable.invariant (I := LeaseInv) ?_ ?_ h
  · exact leaseInv_init params
  · intro x e hx hi ha
    exact leaseInv_next
      (World.ledgerInv_reachable (Machine.Layer.base_reachable hx.of_restrict)) hi ha.2

/-! ## The steps of a run -/

/-- What a step does with the leases: each stays in flight under its id or is ended, a round is
marked for no `Result` of a lease that was not verified, and no other outcome of a lease is carried
to the chain or comes into the stash. -/
structure LeaseStep (x : World × Submissions) (e : SubmissionEvent) (y : World × Submissions) :
    Prop where
  stays : ∀ id job, x.1.coord.inflight.lookup id = some job → job.isLease = true →
    (∃ d, x.2.emit e = some d ∧ d.EndsJob x.1.coord id) ∨
      y.1.coord.inflight.lookup id = some job ∨
      (∃ m c n, x.2.emit e = some (.dispatchGranted m c n)) ∧ y.1.coord.HoldsLease id
  marked : ∀ g, y.1.coord.minedGeneration = some g → x.1.coord.minedGeneration = some g ∨
    (∃ tx r result job, e = .take tx ∧ x.2.readers.lookup tx = some r ∧ r.task = .plain result ∧
      x.1.coord.inflight.lookup result.jobId = some job ∧ job.generation = g ∧
      job.isLease = false) ∨
    (∃ tx r o read result, e = .note tx ∧ x.2.readers.lookup tx = some r ∧
      r.task = .verified o read ∧ o.job.generation = g ∧ o.VerifiedFrom result) ∨
    ∃ m done, e = .other (.handleLeaseDone m done)
  carried : ∀ tx r o read, y.2.readers.lookup tx = some r → r.task.pending = some (o, read) →
    o.job.isLease = true → ∃ result, o.VerifiedFrom result
  stashed : ∀ cand ∈ y.1.coord.stash.candidates,
    (∃ c ∈ x.1.coord.stash.candidates, cand = c ∨ cand = { c with submitted := true }) ∨
    ∃ tx r o retain read, e = .settle tx ∧ x.2.readers.lookup tx = some r ∧
      r.task = .settling o retain read ∧ cand = o.candidate ∧
      (o.job.isLease = true → ∃ result, o.VerifiedFrom result)

theorem stays_next {params : FeederParams} {x : World × Submissions} {e : SubmissionEvent}
    (hw : x.1.LedgerInv) (hk : KindKept x e) (hg : x.2.Guard e)
    (ha : ∀ d ∈ x.2.emit e, x.1.Allowed d) {id : JobId} {job : Job}
    (hj : x.1.coord.inflight.lookup id = some job) (hlease : job.isLease = true) :
    (∃ d, x.2.emit e = some d ∧ d.EndsJob x.1.coord id) ∨
      ((submissionMachine params).next x e).1.coord.inflight.lookup id = some job ∨
      (∃ m c n, x.2.emit e = some (.dispatchGranted m c n)) ∧
        ((submissionMachine params).next x e).1.coord.HoldsLease id := by
  refine Machine.Layer.base_next (L := submissionLayer params) (P := fun w : World =>
    (∃ d, x.2.emit e = some d ∧ d.EndsJob x.1.coord id) ∨ w.coord.inflight.lookup id = some job ∨
      (∃ m c n, x.2.emit e = some (.dispatchGranted m c n)) ∧ w.coord.HoldsLease id) ?_ ?_
  · exact fun _ => Or.inr (Or.inl hj)
  intro d (hd : x.2.emit e = some d)
  by_cases hend : d.EndsJob x.1.coord id
  · exact Or.inl ⟨d, hd, hend⟩
  by_cases hsend : ∃ m c n, d = .dispatchGranted m c n
  · obtain ⟨m, c, n, rfl⟩ := hsend
    have hnext : (x.1.next params (.dispatchGranted m c n)).coord.HoldsLease id :=
      World.holdsLease_dispatch hw ⟨job, hj, hlease⟩
    exact Or.inr (Or.inr ⟨⟨m, c, n, hd⟩, hnext⟩)
  · right
    left
    refine World.job_next (ha d hd) hj hend ?_ fun m c n heq => hsend ⟨m, c, n, heq⟩
    -- the plain path is not taken with a lease in flight
    intro m heq
    obtain ⟨tx, r, result, rfl, hl, ht, -, rfl⟩ := heq ▸ x.2.cause_of_emit hg hd
    have hkind : job.isLease = false := by
      simpa [KindKept, hl, ht, Task.keepsKind, hj] using hk
    rw [hkind] at hlease
    cases hlease

theorem marked_next {params : FeederParams} {x : World × Submissions} {e : SubmissionEvent}
    (h : LeaseInv x) (hk : KindKept x e) (hg : x.2.Guard e) {g : Nat}
    (hm : ((submissionMachine params).next x e).1.coord.minedGeneration = some g) :
    x.1.coord.minedGeneration = some g ∨
    (∃ tx r result job, e = .take tx ∧ x.2.readers.lookup tx = some r ∧ r.task = .plain result ∧
      x.1.coord.inflight.lookup result.jobId = some job ∧ job.generation = g ∧
      job.isLease = false) ∨
    (∃ tx r o read result, e = .note tx ∧ x.2.readers.lookup tx = some r ∧
      r.task = .verified o read ∧ o.job.generation = g ∧ o.VerifiedFrom result) ∨
    ∃ m done, e = .other (.handleLeaseDone m done) := by
  revert hm
  refine Machine.Layer.base_next (L := submissionLayer params) (P := fun w : World =>
    w.coord.minedGeneration = some g → _) ?_ ?_
  · exact fun _ hm => Or.inl hm
  intro d (hd : x.2.emit e = some d) hm
  rcases World.mined_next hm with hm | ⟨hm, -⟩
  · exact Or.inl hm
  have hcause := x.2.cause_of_emit hg hd
  right
  cases d with
  | takeResult m id =>
    left
    obtain ⟨tx, r, result, rfl, hl, ht, -, rfl⟩ := hcause
    obtain ⟨job, hj, hjg⟩ := Option.map_eq_some_iff.mp hm
    refine ⟨tx, r, result, job, rfl, hl, ht, hj, hjg, ?_⟩
    simpa [KindKept, hl, ht, Task.keepsKind, hj] using hk
  | noteResult g' =>
    right
    left
    obtain ⟨tx, r, o, read, rfl, hl, ht, rfl⟩ := hcause
    obtain ⟨result, hv⟩ := h.verified tx r o read hl ht
    exact ⟨tx, r, o, read, result, rfl, hl, ht, Option.some.inj hm, hv⟩
  | handleLeaseDone m done =>
    right
    right
    exact ⟨m, done, hcause⟩
  | _ => cases hm

theorem stashed_next {params : FeederParams} {x : World × Submissions} {e : SubmissionEvent}
    (h : LeaseInv x) (hg : x.2.Guard e) {cand : Candidate}
    (hc : cand ∈ ((submissionMachine params).next x e).1.coord.stash.candidates) :
    (∃ c ∈ x.1.coord.stash.candidates, cand = c ∨ cand = { c with submitted := true }) ∨
    ∃ tx r o retain read, e = .settle tx ∧ x.2.readers.lookup tx = some r ∧
      r.task = .settling o retain read ∧ cand = o.candidate ∧
      (o.job.isLease = true → ∃ result, o.VerifiedFrom result) := by
  rw [stash_submission] at hc
  cases hcall : x.2.stashCall x.1 e with
  | none =>
    rw [hcall] at hc
    exact Or.inl ⟨cand, hc, Or.inl rfl⟩
  | some call =>
    rw [hcall] at hc
    obtain ⟨d, hd, hsec⟩ := Option.bind_eq_some_iff.mp hcall
    cases call with
    | reset g model block => exact absurd hc List.not_mem_nil
    | setAlgorithm algorithm => exact Or.inl ⟨cand, hc, Or.inl rfl⟩
    | markSubmitted jobId => exact Or.inl (WinStash.mem_markFirst hc)
    | insert new =>
      rcases WinStash.mem_insert hc with hold | ⟨rfl, -⟩
      · exact Or.inl ⟨cand, hold, Or.inl rfl⟩
      · right
        have hcause := x.2.cause_of_emit hg hd
        cases d with
        | settle o retain =>
          obtain ⟨tx, r, read, rfl, hl, ht⟩ := hcause
          rw [World.stashCall] at hsec
          split_ifs at hsec
          cases hsec
          refine ⟨tx, r, o, retain, read, rfl, hl, ht, rfl, ?_⟩
          exact h.carried tx r o read hl (by rw [ht]; rfl)
        | _ => cases hsec

theorem leaseStep_of_kindKept (params : FeederParams) {x : World × Submissions}
    (h : ((submissionMachine params).restrict KindKept).Reachable x) {e : SubmissionEvent}
    (ha : (submissionMachine params).allowed x e) (hk : KindKept x e) :
    LeaseStep x e ((submissionMachine params).next x e) := by
  have hw := World.ledgerInv_reachable (Machine.Layer.base_reachable h.of_restrict)
  have hinv := leaseInv_reachable h
  obtain ⟨hg, hd⟩ := ha
  exact ⟨fun id job hj hlease => stays_next hw hk hg hd hj hlease,
    fun g hm => marked_next hinv hk hg hm,
    (leaseInv_next hw hinv hk).carried,
    fun cand hc => stashed_next hinv hg hc⟩

/-! ## Leases that overtake a `Result` -/

/-- The id of a `Result` that a session has read as one of a plain job and has not taken yet. -/
def Task.looked : Task → Option JobId
  | .plain result => some result.jobId
  | _ => none

def SubmissionEvent.sent (st : CoordinatorState) : SubmissionEvent → List Job
  | .other (.dispatchGranted m c n) => (st.dispatchGranted m c n).2
  | _ => []

/-- No lease is sent under such an id. -/
def NoneOvertakes (x : World × Submissions) (e : SubmissionEvent) : Prop :=
  ∀ job ∈ e.sent x.1.coord, job.isLease = true → ∀ tx ∈ x.2.readers.keys,
    (x.2.readers.lookup tx).bind (·.task.looked) ≠ some job.jobId

instance (x : World × Submissions) (e : SubmissionEvent) : Decidable (NoneOvertakes x e) :=
  inferInstanceAs (Decidable (∀ job ∈ e.sent x.1.coord, job.isLease = true →
    ∀ tx ∈ x.2.readers.keys, (x.2.readers.lookup tx).bind (·.task.looked) ≠ some job.jobId))

omit [Crates] in
theorem lookup_drain {minerId : MinerId} {now : Nat} (fuel : Nat) {st : CoordinatorState}
    {id : JobId} {job : Job} (h : (drain minerId now fuel st).1.inflight.lookup id = some job) :
    st.inflight.lookup id = some job ∨ job ∈ (drain minerId now fuel st).2 ∧ job.jobId = id := by
  refine drain_induct (P := fun st out => out.1.inflight.lookup id = some job →
    st.inflight.lookup id = some job ∨ job ∈ out.2 ∧ job.jobId = id) ?_ ?_ ?_ fuel st h
  · exact fun st h => Or.inl h
  · exact fun st r _ h => Or.inl h
  · intro st r k out _ ih h
    rcases ih h with hold | ⟨hk, hid⟩
    · have hins : (st.inflight.insert k.jobId k).lookup id = some job := hold
      rw [Finmap.lookup_insert_eq] at hins
      split_ifs at hins with hid
      · obtain rfl := Option.some.inj hins
        exact Or.inr ⟨List.mem_cons_self, hid.symm⟩
      · exact Or.inl hins
    · exact Or.inr ⟨List.mem_cons_of_mem _ hk, hid⟩

theorem World.holdsLease_back {params : FeederParams} {w : World} (h : w.LedgerInv) {d : Section}
    (ha : w.Allowed d) {id : JobId} (hl : (w.next params d).coord.HoldsLease id) :
    w.coord.HoldsLease id ∨ ∃ m c n job, d = .dispatchGranted m c n ∧
      job ∈ (w.coord.dispatchGranted m c n).2 ∧ job.isLease = true ∧ job.jobId = id := by
  obtain ⟨job, hj, hlease⟩ := hl
  by_cases hsend : ∃ m c n, d = .dispatchGranted m c n
  · obtain ⟨m, c, n, rfl⟩ := hsend
    rcases lookup_drain _ hj with hold | ⟨hmem, hid⟩
    · exact Or.inl ⟨job, hold, hlease⟩
    · exact Or.inr ⟨m, c, n, job, rfl, hmem, hlease, hid⟩
  · left
    have hnext := ledgerInv_next params h ha
    have hmem := World.inflight_next params h ha (fun m c n heq => hsend ⟨m, c, n, heq⟩)
      (Finmap.mem_of_lookup_eq_some hj)
    obtain ⟨k, hk⟩ := Finmap.mem_iff.mp hmem
    refine ⟨k, hk, (h.idForm k (Or.inr ⟨id, hk⟩)).mpr ?_⟩
    rw [h.agrees.keyed id k hk, ← hnext.agrees.keyed id job hj]
    exact (hnext.idForm job (Or.inr ⟨id, hj⟩)).mp hlease

def LookedPlain (x : World × Submissions) : Prop :=
  ∀ tx r id, x.2.readers.lookup tx = some r → r.task.looked = some id → ¬ x.1.coord.HoldsLease id

omit [Crates] in
theorem looked_start {o : PowOutcome} {read : ReadAt} : (Task.start o read).looked = none := by
  rw [Task.start]
  split_ifs <;> rfl

/-- A session looks at a `Result` as one of a plain job only with no lease in flight under its id. -/
theorem looked_react {r : Reader} {st : CoordinatorState} {now : ReadAt} {e : SubmissionEvent}
    {id : JobId} (h : (r.react st now e).looked = some id) :
    (∃ tx result, e = .result tx result) ∧ ¬ st.HoldsLease id := by
  unfold Reader.react at h
  split at h
  · next tx result ht =>
    split_ifs at h with hlease
    · cases h
    · obtain rfl := Option.some.inj h
      refine ⟨⟨tx, result, rfl⟩, ?_⟩
      intro hex
      obtain ⟨job, hj, hl⟩ := hex
      exact hlease (by simp [hj, hl])
  · next result tx ht =>
    cases ho : st.leaseOutcome r.minerId result <;> rw [ho] at h <;> cases h
  · next result tx ht =>
    rw [Reader.taken] at h
    cases ho : plainOutcome (st.takeResult r.minerId result.jobId).2 r.minerId result with
    | none =>
      rw [ho] at h
      cases hj : (st.takeResult r.minerId result.jobId).2.job.filter (·.isOrder) <;> rw [hj] at h <;>
        cases h
    | some o =>
      rw [ho] at h
      dsimp only at h
      rw [looked_start] at h
      cases h
  · next o read tx ht =>
    rw [looked_start] at h
    cases h
  · cases h
  · next job result tx ht =>
    cases hp : orderProof (st.mempoolOrders.lookup job.jobId) job result <;> rw [hp] at h <;> cases h
  · cases h

theorem lookedPlain_next {params : FeederParams} {x : World × Submissions} {e : SubmissionEvent}
    (hw : x.1.LedgerInv) (h : LookedPlain x) (hn : NoneOvertakes x e) (hg : x.2.Guard e)
    (ha : ∀ d ∈ x.2.emit e, x.1.Allowed d) :
    LookedPlain ((submissionMachine params).next x e) := by
  intro tx r id hl ht
  -- what holds before the step holds after it
  have hkeep : (∃ tx r, x.2.readers.lookup tx = some r ∧ r.task.looked = some id) →
      ¬ ((submissionMachine params).next x e).1.coord.HoldsLease id := by
    intro hex
    obtain ⟨tx', r', hl', ht'⟩ := hex
    refine Machine.Layer.base_next (P := fun w : World => ¬ w.coord.HoldsLease id) ?_ ?_
    · exact fun _ => h tx' r' id hl' ht'
    intro d (hd : x.2.emit e = some d) hnew
    rcases World.holdsLease_back hw (ha d hd) hnew with hold | ⟨m, c, n, job, rfl, hmem, hlease, hid⟩
    · exact h tx' r' id hl' ht' hold
    · have hother := x.2.cause_of_emit hg hd
      obtain rfl : e = .other (.dispatchGranted m c n) := hother
      refine hn job hmem hlease tx' (Finmap.mem_keys.mpr (Finmap.mem_of_lookup_eq_some hl')) ?_
      rw [hl', hid]
      exact ht'
  rcases Submissions.reader_next hl with hidle | ⟨hold, -⟩ | ⟨r', hl', hs, rfl⟩
  · rw [hidle] at ht
    cases ht
  · exact hkeep ⟨tx, r, hold, ht⟩
  · obtain ⟨⟨tx', result, rfl⟩, hno⟩ := looked_react ht
    exact hno

theorem kindKept_of_noneOvertakes (params : FeederParams) {x : World × Submissions}
    (h : ((submissionMachine params).restrict NoneOvertakes).Reachable x) (e : SubmissionEvent) :
    KindKept x e := by
  have hinv : LookedPlain x := by
    refine Machine.Reachable.invariant (I := LookedPlain) ?_ ?_ h
    · exact fun tx r id hl => absurd hl (no_reader_init params)
    · intro x e hx hi ha
      exact lookedPlain_next
        (World.ledgerInv_reachable (Machine.Layer.base_reachable hx.of_restrict)) hi ha.2
        ha.1.1 ha.1.2
  cases e with
  | take tx =>
    cases hl : x.2.readers.lookup tx with
    | none => simp [KindKept, hl]
    | some r =>
      cases ht : r.task with
      | plain result =>
        have hno := hinv tx r result.jobId hl (by rw [ht]; rfl)
        cases hj : x.1.coord.inflight.lookup result.jobId with
        | none => simp [KindKept, hl, ht, Task.keepsKind, hj]
        | some job =>
          have hkind : job.isLease = false := by
            by_contra hlease
            exact hno ⟨job, hj, by simpa using hlease⟩
          simp [KindKept, hl, ht, Task.keepsKind, hj, hkind]
      | _ => simp [KindKept, hl, ht, Task.keepsKind]
  | _ => trivial

/-- As long as no dispatch sends a lease under the id of a `Result` that a session has looked up and
not yet taken, every step of a run keeps the leases to their own ends and to the outcomes that were
verified. -/
theorem leases_end_by_terminal_events (params : FeederParams) {x : World × Submissions}
    (h : ((submissionMachine params).restrict NoneOvertakes).Reachable x) {e : SubmissionEvent}
    (ha : ((submissionMachine params).restrict NoneOvertakes).allowed x e) :
    LeaseStep x e ((submissionMachine params).next x e) := by
  have hkept : ((submissionMachine params).restrict KindKept).Reachable x :=
    h.restrict_mono fun _ e hx _ => kindKept_of_noneOvertakes params hx e
  exact leaseStep_of_kindKept params hkept ha.1 (kindKept_of_noneOvertakes params h e)

end

open Sample (params) in
open Reported in
/-- A verified report is settled into the stash, and its lease stays in flight. -/
theorem leases_end_by_terminal_events_settled :
    let x := (submissionMachine params).run (submissionMachine params).init
      (leased ++ report.dropLast)
    let y := (submissionMachine params).next x (.settle 0)
    LeaseStep x (.settle 0) y ∧
      y.1.coord.stash.candidates.map (·.jobId) = [(saltFromCounter 1).toList] ∧
      (y.1.coord.inflight.lookup (leaseJobId 1)).map (·.isLease) = some true :=
  ⟨leases_end_by_terminal_events params
      (Machine.reachable_restrict_run (leased ++ report.dropLast) (by decide +kernel))
      (by decide +kernel),
    by decide +kernel, by decide +kernel⟩

namespace Sample

def answeredEarly : List SubmissionEvent :=
  [.other (.registerMiner "a" leaseCaps), .stopMining, .reseed snap none none,
    .topUp snap [⟨"a", 0, 1⟩] 0, .hello 0 "a", .result 0 ⟨leaseJobId 1, [], 0, [], []⟩,
    .other (.dispatchGranted "a" 1 0)]

end Sample

open Sample in
/-- The session takes the lease for an answer that it read before the lease was in flight. -/
theorem overtaken_answer_takes_lease :
    ¬ ∀ x e, (submissionMachine params).Reachable x → (submissionMachine params).allowed x e →
      LeaseStep x e ((submissionMachine params).next x e) := by
  intro hall
  have hreach := Machine.reachable_run (M := submissionMachine params) answeredEarly
    (by decide +kernel)
  have hstep := hall _ (.take 0) hreach (by decide +kernel)
  have hheld : (((submissionMachine params).run (submissionMachine params).init
      answeredEarly).1.coord.inflight.lookup (leaseJobId 1)).any (·.isLease) = true := by
    decide +kernel
  obtain ⟨job, hj, hlease⟩ := (Option.any_eq_true _ _).mp hheld
  have hemit : ((submissionMachine params).run (submissionMachine params).init
      answeredEarly).2.emit (.take 0) = some (.takeResult "a" (leaseJobId 1)) := by decide +kernel
  have hgone : ((submissionMachine params).next ((submissionMachine params).run
      (submissionMachine params).init answeredEarly) (.take 0)).1.coord.inflight.lookup
        (leaseJobId 1) = none := by decide +kernel
  rcases hstep.stays (leaseJobId 1) job hj hlease with ⟨d, hd, hend⟩ | hkept | ⟨-, k, hk, -⟩
  · rw [hemit] at hd
    cases hd
    exact hend
  · rw [hgone] at hkept
    cases hkept
  · rw [hgone] at hk
    cases hk

end QuipCoordinator
