import QuipCoordinator.CriticalSections

/-!
# The in-flight ledger

`inflight`, `inflightOwner` and `leaseIssuedAt` are three tables kept in step by
hand. `Agrees` says what in step means. A job that is dispatched again under an
id already in flight must be a lease exactly when the old one is: the two share
the id, and the form of an id tells a lease.
-/

namespace QuipCoordinator
namespace CoordinatorState

structure Agrees (st : CoordinatorState) : Prop where
  owners : ∀ id, id ∈ st.inflightOwner ↔ id ∈ st.inflight
  leases : ∀ id, id ∈ st.leaseIssuedAt ↔ ∃ job, st.inflight.lookup id = some job ∧ job.isLease = true
  keyed : ∀ id job, st.inflight.lookup id = some job → job.jobId = id

theorem Agrees.congr {st st' : CoordinatorState} (h : st.Agrees)
    (hi : st'.inflight = st.inflight) (ho : st'.inflightOwner = st.inflightOwner)
    (hl : st'.leaseIssuedAt = st.leaseIssuedAt) : st'.Agrees where
  owners := by rw [hi, ho]; exact h.owners
  leases := by rw [hi, hl]; exact h.leases
  keyed := by rw [hi]; exact h.keyed

theorem Agrees.completeInflight {st : CoordinatorState} (h : st.Agrees) (id : JobId) :
    (st.completeInflight id).1.Agrees where
  owners := by
    intro i
    change i ∈ st.inflightOwner.erase id ↔ i ∈ st.inflight.erase id
    rw [Finmap.mem_erase, Finmap.mem_erase, h.owners]
  leases := by
    intro i
    change i ∈ st.leaseIssuedAt.erase id ↔
      ∃ job, (st.inflight.erase id).lookup i = some job ∧ job.isLease = true
    rw [Finmap.mem_erase, h.leases, Finmap.lookup_erase_eq]
    by_cases hi : i = id
    · simp [hi]
    · simp [hi]
  keyed := by
    intro i job hl
    change (st.inflight.erase id).lookup i = some job at hl
    rw [Finmap.lookup_erase_eq] at hl
    split_ifs at hl
    exact h.keyed i job hl

/-- Dispatching a job under an id in flight keeps the ledger when both jobs are leases or
neither is. -/
theorem Agrees.dispatchInflight {st : CoordinatorState} (h : st.Agrees) {job : Job}
    (hform : ∀ k, st.inflight.lookup job.jobId = some k → (k.isLease = true ↔ job.isLease = true))
    (minerId : MinerId) (now : Nat) : (st.dispatchInflight minerId now job).Agrees where
  owners := by
    intro i
    change i ∈ st.inflightOwner.insert job.jobId minerId ↔ i ∈ st.inflight.insert job.jobId job
    rw [Finmap.mem_insert, Finmap.mem_insert, h.owners]
  leases := by
    intro i
    change i ∈ (if job.isLease then st.leaseIssuedAt.insert job.jobId now else st.leaseIssuedAt) ↔
      ∃ k, (st.inflight.insert job.jobId job).lookup i = some k ∧ k.isLease = true
    rw [Finmap.lookup_insert_eq]
    have hold := h.leases i
    by_cases hi : i = job.jobId
    · subst hi
      by_cases hl : job.isLease = true
      · simp [hl, Finmap.mem_insert]
      · have hnone : job.jobId ∉ st.leaseIssuedAt := by
          rw [hold]
          intro hex
          obtain ⟨k, hk, hkl⟩ := hex
          exact hl ((hform k hk).mp hkl)
        simp [hl, hnone]
    · by_cases hl : job.isLease = true <;> simp [hl, hi, Finmap.mem_insert, hold]
  keyed := by
    intro i k hl
    change (st.inflight.insert job.jobId job).lookup i = some k at hl
    rw [Finmap.lookup_insert_eq] at hl
    split_ifs at hl with hi
    · cases hl
      exact hi.symm
    · exact h.keyed i k hl

theorem mem_filter_notMem {ν : Type} (t : Table JobId ν) (ids : Finset JobId) (id : JobId) :
    id ∈ t.filter (fun i _ => decide (i ∉ ids)) ↔ id ∈ t ∧ id ∉ ids := by
  rw [Finmap.mem_iff, Finmap.mem_iff]
  simp only [Finmap.lookup_filter_eq_some, decide_eq_true_eq]
  constructor
  · intro hex
    obtain ⟨b, hb, hn⟩ := hex
    exact ⟨⟨b, hb⟩, hn⟩
  · intro hex
    obtain ⟨⟨b, hb⟩, hn⟩ := hex
    exact ⟨b, hb, hn⟩

theorem Agrees.cancelInflight {st : CoordinatorState} (h : st.Agrees) (g : Nat) :
    (st.cancelInflight g).1.Agrees where
  owners := by
    intro i
    have hi := mem_filter_notMem st.inflight (st.cancelled g) i
    have ho := mem_filter_notMem st.inflightOwner (st.cancelled g) i
    exact ho.trans ((and_congr_left fun _ => h.owners i).trans hi.symm)
  leases := by
    intro i
    have hl := mem_filter_notMem st.leaseIssuedAt (st.cancelled g) i
    refine hl.trans ?_
    change _ ↔ ∃ job, (st.inflight.filter fun i _ => decide (i ∉ st.cancelled g)).lookup i = some job ∧
      job.isLease = true
    simp only [Finmap.lookup_filter_eq_some, decide_eq_true_eq, h.leases]
    constructor
    · intro hex
      obtain ⟨⟨job, hj, hlease⟩, hn⟩ := hex
      exact ⟨job, ⟨hj, hn⟩, hlease⟩
    · intro hex
      obtain ⟨job, ⟨hj, hn⟩, hlease⟩ := hex
      exact ⟨⟨job, hj, hlease⟩, hn⟩
  keyed := by
    intro i job hl
    exact h.keyed i job ((lookup_cancelInflight st g i job).mp hl).1

theorem foldl_reclaimInflight_eq {owned : List JobId} (hn : owned.Nodup) (st : CoordinatorState)
    (jobs : List Job) :
    owned.foldl reclaimInflight (st, jobs) =
      ({ st with
          inflightOwner := st.inflightOwner.eraseAll owned
          leaseIssuedAt := st.leaseIssuedAt.eraseAll owned
          inflight := st.inflight.eraseAll owned },
        jobs ++ owned.filterMap fun id => st.inflight.lookup id) := by
  induction owned generalizing st jobs with
  | nil => simp [Finmap.eraseAll]
  | cons id owned ih =>
    obtain ⟨hid, hn⟩ := List.nodup_cons.mp hn
    have hrest : owned.filterMap (fun i => (st.inflight.erase id).lookup i) =
        owned.filterMap fun i => st.inflight.lookup i := by
      refine List.filterMap_congr fun i hi => ?_
      rw [Finmap.lookup_erase_eq, if_neg]
      intro heq
      subst heq
      exact hid hi
    rw [List.foldl_cons, reclaimInflight, ih hn]
    refine Prod.ext rfl ?_
    change (jobs ++ (st.inflight.lookup id).toList) ++
      owned.filterMap (fun i => (st.inflight.erase id).lookup i) = _
    rw [hrest, List.append_assoc]
    cases hl : st.inflight.lookup id <;> simp [hl]

theorem reclaimMiner_eq (st : CoordinatorState) (minerId : MinerId) {owned : List JobId}
    (hn : owned.Nodup) :
    st.reclaimMiner minerId owned =
      ({ st with
          inflightOwner := st.inflightOwner.eraseAll owned
          leaseIssuedAt := st.leaseIssuedAt.eraseAll owned
          inflight := st.inflight.eraseAll owned
          router := (st.router.reclaim minerId).1
          outbound := st.outbound.erase minerId },
        owned.filterMap (fun id => st.inflight.lookup id) ++ st.router.stagedOf minerId) := by
  rw [reclaimMiner, foldl_reclaimInflight_eq hn]
  simp only [List.nil_append, Router.reclaim_snd]

theorem Agrees.reclaimMiner {st : CoordinatorState} (h : st.Agrees) (minerId : MinerId)
    (owned : List JobId) : (st.reclaimMiner minerId owned).1.Agrees := by
  have hfold : ∀ (owned : List JobId) (acc : CoordinatorState × List Job), acc.1.Agrees →
      (owned.foldl reclaimInflight acc).1.Agrees := by
    intro owned
    induction owned with
    | nil => exact fun acc ha => ha
    | cons id owned ih => exact fun acc ha => ih _ (ha.completeInflight id)
  exact (hfold owned (st, []) h).congr rfl rfl rfl

theorem Agrees.childExit {st : CoordinatorState} (h : st.Agrees) (minerId : MinerId)
    (owned : List JobId) : (st.childExit minerId owned).Agrees :=
  (h.reclaimMiner minerId owned).congr rfl rfl rfl

theorem Agrees.takeResult {st : CoordinatorState} (h : st.Agrees) (minerId : MinerId)
    (jobId : JobId) : (st.takeResult minerId jobId).1.Agrees := by
  obtain ⟨router, mined, -, he⟩ := st.takeResult_eq minerId jobId
  rw [he]
  exact (h.completeInflight jobId).congr rfl rfl rfl

theorem Agrees.rejectJob {st : CoordinatorState} (h : st.Agrees) (minerId : MinerId)
    (jobId : JobId) (reason : RejectReason) : (st.rejectJob minerId jobId reason).Agrees := by
  have hc := h.completeInflight jobId
  rw [CoordinatorState.rejectJob]
  rcases he : st.completeInflight jobId with ⟨st₁, _ | job⟩
  · rwa [he] at hc
  · rw [he] at hc
    exact hc.congr rfl rfl rfl

theorem Agrees.noteResult {st : CoordinatorState} (h : st.Agrees) (g : Nat) :
    (st.noteResult g).Agrees := by
  rw [CoordinatorState.noteResult]
  split_ifs
  · exact h.congr rfl rfl rfl
  · exact h

theorem Agrees.handleLeaseDone {st : CoordinatorState} (h : st.Agrees) (minerId : MinerId)
    (done : LeaseDone) : (st.handleLeaseDone minerId done).Agrees := by
  obtain ⟨router, mined, -, he⟩ := st.handleLeaseDone_eq minerId done
  rw [he]
  exact (h.completeInflight done.jobId).congr rfl rfl rfl

theorem Agrees.drain {minerId : MinerId} {now : Nat} (fuel : Nat) {st : CoordinatorState}
    (h : st.Agrees) (hform : ∀ job, st.Live job → job.IdForm) :
    (drain minerId now fuel st).1.Agrees := by
  refine drain_induct (P := fun st out =>
    st.Agrees → (∀ job, st.Live job → job.IdForm) → out.1.Agrees) ?_ ?_ ?_ fuel st h hform
  · intro st h _
    exact h
  · intro st r _ h _
    exact h.congr rfl rfl rfl
  · intro st r job out hnext ih h hform
    obtain ⟨hm, hjob⟩ := moves_dispatch_next hnext now
    have hr : { st with router := r }.Agrees := h.congr rfl rfl rfl
    refine ih (hr.dispatchInflight ?_ minerId now) fun k hk => hform k (hm.live k hk)
    intro k hk
    have hid : k.jobId = job.jobId := h.keyed _ k hk
    have hkf : k.IdForm := hform k (Or.inr ⟨_, hk⟩)
    have hjf : job.IdForm := hform job hjob
    have hlen : k.jobId.length = 14 ↔ job.jobId.length = 14 := by rw [hid]
    exact hkf.trans (hlen.trans hjf.symm)

theorem Agrees.dispatchGranted {st : CoordinatorState} (h : st.Agrees)
    (hform : ∀ job, st.Live job → job.IdForm) (minerId : MinerId) (credits now : Nat) :
    (st.dispatchGranted minerId credits now).1.Agrees := by
  refine Agrees.drain _ (h.congr rfl rfl rfl) fun job hj => hform job ?_
  exact (Moves.of_queues st (stagedOf_grantCredits st.router minerId credits)).live job hj

theorem Agrees.stopMining {st : CoordinatorState} (h : st.Agrees) (g : Nat) :
    (st.stopMining g).1.Agrees := by
  have hs : { st with
      generation := g
      currentBestMilli := none
      stash := st.stash.reset g none 0
      router := (st.router.cancel (g - 1)).1 }.Agrees := h.congr rfl rfl rfl
  exact (hs.cancelInflight (g - 1)).congr rfl rfl rfl

theorem Agrees.settle [Crates] {st : CoordinatorState} (h : st.Agrees) (o : PowOutcome)
    (retain : Bool) : (st.settle o retain).Agrees := by
  rw [CoordinatorState.settle]
  split_ifs
  · exact h.congr rfl rfl rfl
  · exact h.congr rfl rfl rfl

theorem Agrees.applyCapabilities [Crates] {st : CoordinatorState} (h : st.Agrees)
    (minerId : MinerId) (caps : Capabilities) : (st.applyCapabilities minerId caps).1.Agrees := by
  rw [CoordinatorState.applyCapabilities]
  split_ifs
  · exact h
  · exact h.congr rfl rfl rfl

theorem Agrees.stageMempoolOrders [Crates] {st : CoordinatorState} (h : st.Agrees)
    (orders : List JobOrder) : (st.stageMempoolOrders orders).Agrees := by
  obtain ⟨-, r, m, he⟩ := stageMempoolOrders_spec orders st
  rw [he]
  exact h.congr rfl rfl rfl

end CoordinatorState

namespace World
variable [Crates]
open CoordinatorState

structure LedgerInv (w : World) : Prop where
  agrees : w.coord.Agrees
  idForm : ∀ job, w.coord.Live job → job.IdForm

omit [Crates] in
theorem not_live_new (job : Job) : ¬ CoordinatorState.new.Live job := by
  intro hor
  rcases hor with ⟨id, hs⟩ | ⟨id, hf⟩
  · exact absurd hs List.not_mem_nil
  · exact absurd hf (by simp [CoordinatorState.new])

omit [Crates] in
theorem ledgerInv_init : LedgerInv World.init where
  agrees := by
    refine ⟨fun id => ⟨?_, ?_⟩, fun id => ⟨?_, ?_⟩, ?_⟩
    · exact fun h => absurd h Finmap.notMem_empty
    · exact fun h => absurd h Finmap.notMem_empty
    · exact fun h => absurd h Finmap.notMem_empty
    · intro hex
      obtain ⟨job, hl, -⟩ := hex
      exact absurd hl (by simp [World.init, CoordinatorState.new])
    · intro id job hl
      exact absurd hl (by simp [World.init, CoordinatorState.new])
  idForm := fun job h => absurd h (not_live_new job)

theorem idForm_next (params : FeederParams) {w : World} {e : Section} (ha : w.Allowed e)
    (h : ∀ job, w.coord.Live job → job.IdForm) :
    ∀ job, (w.next params e).coord.Live job → job.IdForm := by
  cases hf : e.feeds with
  | false => exact fun job hj => h job ((next_keeps params w hf).live job hj)
  | true =>
    cases e with
    | stopMining => exact fun job hj => h job (live_stopMining hj).1
    | reseed snap q d => exact fun job hj => h job hj
    | stageMempoolOrders orders =>
      intro job hj
      rcases (stageMempoolOrders_spec orders w.coord).1 job hj with hl | ⟨order, ho, he⟩
      · exact h job hl
      · exact jobOrderToJob_idForm (ha order ho) he
    | topUp snap plans =>
      refine Staging.topUp_induct (P := fun s => ∀ job, s.coord.Live job → job.IdForm)
        ?_ ?_ ?_ ?_ plans h
      · exact fun s n hs => hs
      · exact fun s r hs hr _ job hj => hs job ((Moves.of_queues s.coord hr).live job hj)
      · intro s id job r n start count hs hj hst k hk
        rcases live_stageOn s.coord hst hk with hk | rfl
        · exact hs k hk
        · exact hj ▸ buildLeaseJob_idForm _ _ _ _ _
      · intro s id job r n salt hs hj hst k hk
        rcases live_stageOn s.coord hst hk with hk | rfl
        · exact hs k hk
        · exact derivePowJob_idForm hj
    | _ => exact absurd hf Bool.noConfusion

theorem agrees_topUp (params : FeederParams) (snap : MiningSnapshot) (plans : List Plan)
    {s : Staging} (h : s.coord.Agrees) : (s.topUp params snap plans).coord.Agrees := by
  refine Staging.topUp_induct (P := fun s => s.coord.Agrees) ?_ ?_ ?_ ?_ plans
    (h.congr rfl rfl rfl)
  · exact fun s n hs => hs
  · exact fun s r hs _ _ => hs.congr rfl rfl rfl
  · exact fun s id job r n start count hs _ _ => hs.congr rfl rfl rfl
  · exact fun s id job r n salt hs _ _ => hs.congr rfl rfl rfl

theorem ledgerInv_next (params : FeederParams) {w : World} {e : Section} (h : w.LedgerInv)
    (ha : w.Allowed e) : (w.next params e).LedgerInv where
  agrees := by
    cases e with
    | dispatchGranted minerId credits now =>
      exact h.agrees.dispatchGranted h.idForm minerId credits now
    | takeResult minerId jobId => exact h.agrees.takeResult minerId jobId
    | rejectJob minerId jobId reason => exact h.agrees.rejectJob minerId jobId reason
    | handleLeaseDone minerId done => exact h.agrees.handleLeaseDone minerId done
    | childExit minerId owned => exact h.agrees.childExit minerId owned
    | noteResult g => exact h.agrees.noteResult g
    | settle o retain => exact h.agrees.settle o retain
    | applyCapabilities minerId caps => exact h.agrees.applyCapabilities minerId caps
    | stopMining => exact h.agrees.stopMining _
    | topUp snap plans => exact agrees_topUp params snap plans h.agrees
    | stageMempoolOrders orders => exact h.agrees.stageMempoolOrders orders
    | _ => exact h.agrees.congr rfl rfl rfl
  idForm := idForm_next params ha h.idForm

theorem ledgerInv_reachable {params : FeederParams} {w : World}
    (h : (coordinatorMachine params).Reachable w) : w.LedgerInv :=
  h.invariant (I := LedgerInv) ledgerInv_init fun _ _ _ hi ha => ledgerInv_next params hi ha

end World

namespace CoordinatorState

theorem mem_reclaimed {st : CoordinatorState} {minerId : MinerId} {owned : List JobId}
    (ho : st.Owned minerId owned) (job : Job) :
    job ∈ owned.filterMap (fun id => st.inflight.lookup id) ↔
      ∃ id, st.inflight.lookup id = some job ∧ st.inflightOwner.lookup id = some minerId := by
  rw [List.mem_filterMap]
  constructor
  · intro hex
    obtain ⟨id, hid, hl⟩ := hex
    exact ⟨id, hl, (ho.mem_iff id).mp hid⟩
  · intro hex
    obtain ⟨id, hl, hid⟩ := hex
    exact ⟨id, (ho.mem_iff id).mpr hid, hl⟩

theorem nodup_reclaimed {st : CoordinatorState} (h : st.Agrees) {owned : List JobId}
    (hn : owned.Nodup) : (owned.filterMap fun id => st.inflight.lookup id).Nodup := by
  refine hn.filterMap ?_
  intro a b job ha hb
  rw [← h.keyed a job ha, ← h.keyed b job hb]

theorem lookup_eraseAll_owned {ν : Type} {st : CoordinatorState} {minerId : MinerId}
    {owned : List JobId} (ho : st.Owned minerId owned) (t : Table JobId ν) {id : JobId}
    (hid : st.inflightOwner.lookup id ≠ some minerId) :
    (t.eraseAll owned).lookup id = t.lookup id := by
  rw [Finmap.lookup_eraseAll, if_neg]
  exact fun hm => hid ((ho.mem_iff id).mp hm)

theorem lookup_eraseAll_of_owner {ν : Type} {st : CoordinatorState} {minerId : MinerId}
    {owned : List JobId} (ho : st.Owned minerId owned) (t : Table JobId ν) {id : JobId}
    (hid : st.inflightOwner.lookup id = some minerId) : (t.eraseAll owned).lookup id = none := by
  rw [Finmap.lookup_eraseAll, if_pos ((ho.mem_iff id).mpr hid)]

end CoordinatorState

section
variable [Crates]

/-- In every reachable state the three tables agree, and reclaiming a miner hands back exactly
its jobs and touches no other miner's. -/
theorem inflight_ledger_crash_isolation (params : FeederParams) {w : World}
    (h : (coordinatorMachine params).Reachable w) :
    w.coord.inflight.keys = w.coord.inflightOwner.keys ∧
      w.coord.leaseIssuedAt.keys = (w.coord.inflight.filter fun _ job => job.isLease).keys ∧
      (∀ id job, w.coord.inflight.lookup id = some job → job.jobId = id) ∧
      ∀ minerId owned, w.coord.Owned minerId owned →
        let st' := (w.coord.reclaimMiner minerId owned).1
        (∃ jobs, (w.coord.reclaimMiner minerId owned).2 = jobs ++ w.coord.router.stagedOf minerId ∧
          jobs.Nodup ∧ ∀ job, job ∈ jobs ↔
            ∃ id, w.coord.inflight.lookup id = some job ∧
              w.coord.inflightOwner.lookup id = some minerId) ∧
        (∀ id, w.coord.inflightOwner.lookup id ≠ some minerId →
          st'.inflight.lookup id = w.coord.inflight.lookup id ∧
          st'.inflightOwner.lookup id = w.coord.inflightOwner.lookup id ∧
          st'.leaseIssuedAt.lookup id = w.coord.leaseIssuedAt.lookup id) ∧
        (∀ m, m ≠ minerId → st'.router.stagedOf m = w.coord.router.stagedOf m ∧
          st'.router.creditsOf m = w.coord.router.creditsOf m) ∧
        (∀ id, w.coord.inflightOwner.lookup id = some minerId →
          st'.inflight.lookup id = none ∧ st'.leaseIssuedAt.lookup id = none) ∧
        (∀ id, st'.inflightOwner.lookup id ≠ some minerId) ∧
        st'.router.stagedOf minerId = [] ∧ st'.router.creditsOf minerId = 0 := by
  obtain ⟨hagr, -⟩ := World.ledgerInv_reachable h
  refine ⟨?_, ?_, hagr.keyed, ?_⟩
  · ext id
    rw [Finmap.mem_keys, Finmap.mem_keys, hagr.owners]
  · ext id
    rw [Finmap.mem_keys, Finmap.mem_keys, hagr.leases, Finmap.mem_iff]
    simp only [Finmap.lookup_filter_eq_some]
  · intro minerId owned ho
    rw [CoordinatorState.reclaimMiner_eq w.coord minerId ho.1]
    refine ⟨⟨_, rfl, CoordinatorState.nodup_reclaimed hagr ho.1,
      CoordinatorState.mem_reclaimed ho⟩, ?_, ?_, ?_, ?_, ?_, ?_⟩
    · intro id hid
      exact ⟨CoordinatorState.lookup_eraseAll_owned ho _ hid,
        CoordinatorState.lookup_eraseAll_owned ho _ hid,
        CoordinatorState.lookup_eraseAll_owned ho _ hid⟩
    · intro m hm
      exact ⟨(Router.stagedOf_reclaim _ _ _).trans (if_neg hm),
        (Router.creditsOf_reclaim _ _ _).trans (if_neg hm)⟩
    · intro id hid
      exact ⟨CoordinatorState.lookup_eraseAll_of_owner ho _ hid,
        CoordinatorState.lookup_eraseAll_of_owner ho _ hid⟩
    · intro id hid
      by_cases hm : w.coord.inflightOwner.lookup id = some minerId
      · rw [CoordinatorState.lookup_eraseAll_of_owner ho _ hm] at hid
        cases hid
      · rw [CoordinatorState.lookup_eraseAll_owned ho _ hm] at hid
        exact hm hid
    · exact (Router.stagedOf_reclaim _ _ _).trans (if_pos rfl)
    · exact (Router.creditsOf_reclaim _ _ _).trans (if_pos rfl)

end

open Sample in
theorem inflight_ledger_crash_isolation_sample :
    let w := (coordinatorMachine params).run .init (start ++ [.dispatchGranted "a" 1 0])
    w.coord.Owned "a" [jobId] ∧
      (∃ jobs, (w.coord.reclaimMiner "a" [jobId]).2 = jobs ++ w.coord.router.stagedOf "a" ∧
        jobs.Nodup ∧ ∀ job, job ∈ jobs ↔ ∃ id, w.coord.inflight.lookup id = some job ∧
          w.coord.inflightOwner.lookup id = some "a") ∧
      (w.coord.reclaimMiner "a" [jobId]).1.router.stagedOf "a" = [] := by
  have hw := (inflight_ledger_crash_isolation params (Machine.reachable_run
    (M := coordinatorMachine params) (start ++ [.dispatchGranted "a" 1 0]) (by decide +kernel)))
  have ho : ((coordinatorMachine params).run .init
      (start ++ [.dispatchGranted "a" 1 0])).coord.Owned "a" [jobId] := by decide +kernel
  obtain ⟨hjobs, -, -, -, -, hstaged, -⟩ := hw.2.2.2 "a" [jobId] ho
  exact ⟨ho, hjobs, hstaged⟩

end QuipCoordinator
