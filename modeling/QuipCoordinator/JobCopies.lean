import QuipCoordinator.HungryQueues
import QuipCoordinator.Orphans
import QuipCoordinator.RouterConservation

/-!
# How many copies of a job there are

`copies` counts the jobs of an id on all queues and in flight. A job that is
routed again, dispatched or requeued is moved, never doubled, so only a staging
adds a copy. A top-up stages nonces and leases, whose ids are not order ids.
-/

namespace QuipCoordinator

namespace Router

theorem allStaged_routeExcluding_le (r : Router) (job : Job) (exclude : Option MinerId) :
    (r.routeExcluding job exclude).1.allStaged ≤ r.allStaged + {job} := by
  rcases routeExcluding_cases r job exclude with ⟨id, hid, -, -, h⟩ | ⟨-, h⟩ <;> rw [h]
  · exact (allStaged_pushStaged hid job).le
  · exact Multiset.le_add_right _ _

theorem allStaged_restage_le {r : Router} {id : MinerId} (hid : id ∈ r.miners) (job : Job) :
    (restage id r job).allStaged ≤ r.allStaged + {job} := by
  rw [restage]
  split_ifs
  · exact (allStaged_pushStaged hid job).le
  · exact allStaged_routeExcluding_le r job (some id)

theorem allStaged_foldl_restage_le {id : MinerId} (jobs : List Job) {r : Router}
    (hid : id ∈ r.miners) :
    (jobs.foldl (restage id) r).allStaged ≤ r.allStaged + (jobs : Multiset Job) := by
  induction jobs generalizing r with
  | nil => exact (add_zero _).ge
  | cons job jobs ih =>
    calc (jobs.foldl (restage id) (restage id r job)).allStaged
        ≤ (restage id r job).allStaged + (jobs : Multiset Job) :=
          ih ((mem_restage r id job id).mpr hid)
      _ ≤ r.allStaged + {job} + (jobs : Multiset Job) :=
          Multiset.add_le_add_right (allStaged_restage_le hid job)
      _ = r.allStaged + ((job :: jobs : List Job) : Multiset Job) := by
          rw [add_assoc, Multiset.singleton_add, Multiset.cons_coe]

theorem allStaged_foldl_route_le (jobs : List Job) (r : Router) :
    (jobs.foldl (fun r job => (r.route job).1) r).allStaged ≤ r.allStaged + (jobs : Multiset Job) := by
  induction jobs generalizing r with
  | nil => exact (add_zero _).ge
  | cons job jobs ih =>
    calc (jobs.foldl (fun r job => (r.route job).1) (r.route job).1).allStaged
        ≤ (r.route job).1.allStaged + (jobs : Multiset Job) := ih _
      _ ≤ r.allStaged + {job} + (jobs : Multiset Job) :=
          Multiset.add_le_add_right (allStaged_routeExcluding_le r job none)
      _ = r.allStaged + ((job :: jobs : List Job) : Multiset Job) := by
          rw [add_assoc, Multiset.singleton_add, Multiset.cons_coe]

theorem allStaged_emptied {r : Router} {id : MinerId} (hid : id ∈ r.miners) (caps : MinerCaps) :
    (r.emptied id caps).allStaged + (r.stagedOf id : Multiset Job) = r.allStaged := by
  have h := allStaged_update hid
    fun q => { q with caps := caps, unsupportedKinds := ∅, staged := [] }
  change (r.emptied id caps).allStaged + _ =
    _ + ((r.emptied id caps).stagedOf id : Multiset Job) at h
  rwa [stagedOf_emptied r hid, if_pos rfl, Multiset.coe_nil, add_zero] at h

theorem allStaged_updateCapabilities_le (r : Router) (id : MinerId) (caps : MinerCaps) :
    (r.updateCapabilities id caps).1.allStaged ≤ r.allStaged := by
  rw [updateCapabilities_eq]
  split_ifs with hid
  · rw [← allStaged_emptied hid caps]
    exact allStaged_foldl_restage_le _ ((mem_update r id id _).mpr hid)
  · exact le_refl _

theorem allStaged_nextJob_le (r : Router) (id : MinerId) :
    (r.nextJob id).1.allStaged + ((r.nextJob id).2.toList : Multiset Job) ≤ r.allStaged := by
  have hpop : ∀ (r : Router) (q : MinerQueue) (job : Job) (rest : List Job),
      r.miners.lookup id = some q → q.staged = job :: rest →
      (r.setStaged id rest).allStaged + {job} = r.allStaged := by
    intro r q job rest hq hs
    have h := allStaged_setStaged (Finmap.mem_of_lookup_eq_some hq) rest
    rw [stagedOf_of_lookup hq, hs, ← Multiset.cons_coe, ← Multiset.singleton_add, ← add_assoc] at h
    exact add_right_cancel h
  refine nextJobLoop_induct (P := fun r out =>
    out.1.allStaged + (out.2.toList : Multiset Job) ≤ r.allStaged) ?_ ?_ ?_ _ r
  · intro r
    exact (add_zero _).le
  · intro r q job rest hq _ hs _
    rw [← hpop r q job rest hq hs, allStaged_congr (stagedOf_spendCredit _ id)]
    exact le_refl _
  · intro r q job rest out hq _ hs _ ih
    rw [← hpop r q job rest hq hs]
    exact ih.trans (allStaged_routeExcluding_le _ job (some id))

theorem allStaged_onReject_le (r : Router) (id : MinerId) (job : Job) (reason : RejectReason) :
    (r.onReject id job reason).allStaged ≤ r.allStaged + {job} := by
  rw [onReject_eq, ← allStaged_congr (stagedOf_marked r id job reason)]
  exact allStaged_routeExcluding_le _ job (some id)

theorem Shrinks.allStaged_le {r r' : Router} (h : r.Shrinks r') : r'.allStaged ≤ r.allStaged := by
  rw [r'.allStaged_eq_sum Finset.subset_union_left, r.allStaged_eq_sum Finset.subset_union_right]
  refine Finset.sum_le_sum fun id _ => ?_
  exact Multiset.coe_le.mpr (h id).2.subperm

end Router

namespace CoordinatorState

def stagedCopies (r : Router) (id : JobId) : Nat := r.allStaged.countP fun job => job.jobId = id

def flying (st : CoordinatorState) (id : JobId) : Nat := if id ∈ st.inflight then 1 else 0

def copies (st : CoordinatorState) (id : JobId) : Nat := stagedCopies st.router id + st.flying id

theorem stagedCopies_le {r : Router} {jobs : Multiset Job} (h : r.allStaged ≤ jobs) (id : JobId) :
    stagedCopies r id ≤ jobs.countP fun job => job.jobId = id :=
  Multiset.countP_le_of_le _ h

theorem stagedCopies_add_le {r r' : Router} {job : Job} (h : r'.allStaged ≤ r.allStaged + {job})
    (id : JobId) : stagedCopies r' id ≤ stagedCopies r id + if job.jobId = id then 1 else 0 := by
  have hle := stagedCopies_le h id
  rwa [Multiset.countP_add, ← Multiset.cons_zero, Multiset.countP_cons, Multiset.countP_zero,
    Nat.zero_add] at hle

theorem flying_mono {st st' : CoordinatorState} {id : JobId}
    (h : id ∈ st'.inflight → id ∈ st.inflight) : st'.flying id ≤ st.flying id := by
  rw [flying, flying]
  split_ifs with h' h₀
  · exact Nat.le_refl 1
  · exact absurd (h h') h₀
  · exact Nat.zero_le 1
  · exact Nat.le_refl 0

theorem copies_mono {st st' : CoordinatorState} (hr : st'.router.allStaged ≤ st.router.allStaged)
    {id : JobId} (hf : id ∈ st'.inflight → id ∈ st.inflight) : st'.copies id ≤ st.copies id :=
  Nat.add_le_add (stagedCopies_le hr id) (flying_mono hf)

theorem copies_dispatchInflight (st : CoordinatorState) (minerId : MinerId) (now : Nat) (job : Job)
    (id : JobId) : (st.dispatchInflight minerId now job).copies id ≤
      st.copies id + if job.jobId = id then 1 else 0 := by
  have hfly : (st.dispatchInflight minerId now job).flying id ≤
      st.flying id + if job.jobId = id then 1 else 0 := by
    have hmem : id ∈ (st.dispatchInflight minerId now job).inflight ↔
        id = job.jobId ∨ id ∈ st.inflight :=
      Finmap.mem_insert
    by_cases hid : job.jobId = id
    · simp [flying, hmem, hid]
    · simp [flying, hmem, hid, Ne.symm hid]
  change stagedCopies st.router id + _ ≤ stagedCopies st.router id + st.flying id + _
  omega

theorem copies_drain {minerId : MinerId} {now : Nat} (fuel : Nat) (st : CoordinatorState)
    (id : JobId) : (drain minerId now fuel st).1.copies id ≤ st.copies id := by
  refine drain_induct (P := fun st out => out.1.copies id ≤ st.copies id) ?_ ?_ ?_ fuel st
  · exact fun st => Nat.le_refl _
  · intro st r hnext
    have hle : r.allStaged ≤ st.router.allStaged := by
      have h := st.router.allStaged_nextJob_le minerId
      rw [hnext, Option.toList_none, Multiset.coe_nil, add_zero] at h
      exact h
    change CoordinatorState.copies { st with router := r } id ≤ st.copies id
    refine copies_mono ?_ fun h => h
    exact hle
  · intro st r job out hnext ih
    have hle : stagedCopies r id + (if job.jobId = id then 1 else 0) ≤ stagedCopies st.router id := by
      have h := st.router.allStaged_nextJob_le minerId
      rw [hnext, Option.toList_some, Multiset.coe_singleton] at h
      have hcount := Multiset.countP_le_of_le (fun job : Job => job.jobId = id) h
      rwa [Multiset.countP_add, ← Multiset.cons_zero, Multiset.countP_cons, Multiset.countP_zero,
        Nat.zero_add] at hcount
    have hdis := copies_dispatchInflight { st with router := r } minerId now job id
    change _ ≤ stagedCopies r id + st.flying id + _ at hdis
    have hst : st.copies id = stagedCopies st.router id + st.flying id := rfl
    change out.1.copies id ≤ st.copies id
    omega

theorem countP_owned_le {st : CoordinatorState} (hkey : st.Agrees) {owned : List JobId}
    (hn : owned.Nodup) (id : JobId) :
    (owned.filterMap fun i => st.inflight.lookup i).countP (fun job => job.jobId = id) ≤
      if id ∈ owned ∧ id ∈ st.inflight then 1 else 0 := by
  rw [List.countP_filterMap]
  have hsame : ∀ i, ((st.inflight.lookup i).map fun job => decide (job.jobId = id)).getD false =
      true → i = id ∧ id ∈ st.inflight := by
    intro i hi
    cases hl : st.inflight.lookup i with
    | none => simp [hl] at hi
    | some job =>
      have hj : job.jobId = id := by simpa [hl] using hi
      have hid : i = id := (hkey.keyed i job hl).symm.trans hj
      exact ⟨hid, hid ▸ Finmap.mem_of_lookup_eq_some hl⟩
  split_ifs with hown
  · refine le_trans (List.countP_mono_left fun i _ hi => ?_) (List.nodup_iff_count_le_one.mp hn id)
    simpa using (hsame i hi).1
  · rw [Nat.le_zero, List.countP_eq_zero]
    intro i hi hany
    obtain ⟨rfl, hfly⟩ := hsame i hany
    exact hown ⟨hi, hfly⟩

theorem copies_childExit {st : CoordinatorState} (hkey : st.Agrees) {minerId : MinerId}
    {owned : List JobId} (hn : owned.Nodup) (id : JobId) :
    (st.childExit minerId owned).copies id ≤ st.copies id := by
  rw [childExit, reclaimMiner_eq st minerId hn]
  have hroute : stagedCopies ((owned.filterMap (fun i => st.inflight.lookup i) ++
      st.router.stagedOf minerId).foldl (fun r job => (r.route job).1)
        (st.router.reclaim minerId).1) id ≤ stagedCopies st.router id +
      (owned.filterMap fun i => st.inflight.lookup i).countP (fun job => job.jobId = id) := by
    refine (stagedCopies_le (Router.allStaged_foldl_route_le _ _) id).trans ?_
    rw [← Multiset.coe_add, add_left_comm, Router.allStaged_reclaim, Multiset.countP_add,
      Multiset.coe_countP, add_comm]
    rfl
  have howned := countP_owned_le hkey hn id
  have hmem : id ∈ st.inflight.eraseAll owned ↔ id ∉ owned ∧ id ∈ st.inflight := by
    rw [← Finmap.lookup_isSome, ← Finmap.lookup_isSome, Finmap.lookup_eraseAll]
    by_cases h : id ∈ owned <;> simp [h]
  have hfly : (if id ∈ st.inflight.eraseAll owned then 1 else 0) +
      (if id ∈ owned ∧ id ∈ st.inflight then 1 else 0) ≤ st.flying id := by
    simp only [flying, hmem]
    by_cases h : id ∈ owned <;> by_cases h' : id ∈ st.inflight <;> simp [h, h']
  refine (Nat.add_le_add_right hroute (if id ∈ st.inflight.eraseAll owned then 1 else 0)).trans ?_
  rw [copies]
  omega

theorem copies_rejectJob {st : CoordinatorState} (hkey : st.Agrees) (minerId : MinerId)
    (jobId : JobId) (reason : RejectReason) (id : JobId) :
    (st.rejectJob minerId jobId reason).copies id ≤ st.copies id := by
  have hin := (answers_rejectJob st minerId jobId reason).inflight
  cases hl : st.inflight.lookup jobId with
  | none =>
    refine copies_mono ?_ ?_
    · simp only [rejectJob, completeInflight, hl]
      exact le_refl _
    · rw [hin, Finmap.mem_erase]
      exact And.right
  | some job =>
    have hjob : job.jobId = jobId := hkey.keyed jobId job hl
    have hstage : stagedCopies (st.rejectJob minerId jobId reason).router id ≤
        stagedCopies st.router id + if jobId = id then 1 else 0 := by
      simp only [rejectJob, completeInflight, hl]
      refine hjob ▸ stagedCopies_add_le ?_ id
      rw [← Router.allStaged_congr (stagedOf_recordCompletion st.router minerId)]
      exact Router.allStaged_onReject_le _ minerId job reason
    have hfly : (st.rejectJob minerId jobId reason).flying id + (if jobId = id then 1 else 0) ≤
        st.flying id := by
      have hmem : jobId ∈ st.inflight := Finmap.mem_of_lookup_eq_some hl
      simp only [flying, hin, Finmap.mem_erase]
      by_cases h : jobId = id
      · subst h
        simp [hmem]
      · simp [h, Ne.symm h]
    rw [copies, copies]
    omega

theorem allStaged_takeResult (st : CoordinatorState) (minerId : MinerId) (jobId : JobId) :
    (st.takeResult minerId jobId).1.router.allStaged = st.router.allStaged := by
  refine Router.allStaged_congr fun m => ?_
  obtain ⟨router, mined, hr, he⟩ := st.takeResult_eq minerId jobId
  rw [he]
  exact (hr m).1

theorem copies_takeResult (st : CoordinatorState) (minerId : MinerId) (jobId : JobId) :
    (st.takeResult minerId jobId).1.copies jobId + st.flying jobId = st.copies jobId := by
  have hin := (answers_takeResult st minerId jobId).inflight
  rw [copies, copies, stagedCopies, allStaged_takeResult, flying, hin]
  simp [Finmap.mem_erase, stagedCopies]

end CoordinatorState

variable [Crates]
open CoordinatorState

theorem copies_topUp (params : FeederParams) (snap : MiningSnapshot) (plans : List Plan)
    (s : Staging) {id : JobId} (hid : id.length = 8) :
    (s.topUp params snap plans).coord.copies id = s.coord.copies id := by
  have hstage : ∀ {st : CoordinatorState} {m : MinerId} {job : Job} {r : Router},
      job.jobId.length ≠ 8 → st.router.stageOn m job = (r, true) →
      stagedCopies r id = stagedCopies st.router id := by
    intro st m job r hlen hst
    have hne : job.jobId ≠ id := by
      intro heq
      rw [heq] at hlen
      exact hlen hid
    rcases Router.stageOn_eq st.router m job with ⟨hc, he⟩ | ⟨-, he⟩
    · rw [he] at hst
      cases hst
      rw [stagedCopies, Router.allStaged_pushStaged (Router.isCapable_mem hc), Multiset.countP_add,
        ← Multiset.cons_zero, Multiset.countP_cons, if_neg hne]
      rfl
    · rw [he] at hst
      cases hst
  refine Staging.topUp_induct (P := fun s' => s'.coord.copies id = s.coord.copies id) ?_ ?_ ?_ ?_
    plans rfl
  · exact fun s n hs => hs
  · intro s' r hs hr _
    rw [← hs, copies, copies, stagedCopies, Router.allStaged_congr hr]
    rfl
  · intro s' m job r n start count hs hjob hst
    have hlen : job.jobId.length ≠ 8 := by simp [hjob, buildLeaseJob, leaseJobId, leaseJobIdPrefix]
    rw [← hs, copies, copies, hstage hlen hst]
    rfl
  · intro s' m job r n salt hs hjob hst
    obtain ⟨-, -, -, hjid, -⟩ := derivePowJob_shape hjob
    have hlen : job.jobId.length ≠ 8 := by simp [hjid]
    rw [← hs, copies, copies]
    change stagedCopies r id + _ = _
    rw [hstage hlen hst]
    rfl

theorem World.inflight_next (params : FeederParams) {w : World} {d : Section} (h : w.LedgerInv)
    (ha : w.Allowed d) (hd : ∀ minerId credits now, d ≠ .dispatchGranted minerId credits now)
    {id : JobId} (hid : id ∈ (w.next params d).coord.inflight) : id ∈ w.coord.inflight := by
  rw [← (ledgerInv_next params h ha).agrees.owners] at hid
  obtain ⟨m, hm⟩ := Finmap.mem_iff.mp hid
  rw [← h.agrees.owners]
  exact Finmap.mem_of_lookup_eq_some (World.owner_next params ha hd hm)

/-- No section other than the staging of orders adds a copy of an order. -/
theorem World.copies_next (params : FeederParams) {w : World} {d : Section} (h : w.LedgerInv)
    (ha : w.Allowed d) (hd : ∀ orders, d ≠ .stageMempoolOrders orders) {id : JobId}
    (hid : id.length = 8) : (w.next params d).coord.copies id ≤ w.coord.copies id := by
  cases hr : d.routes with
  | false =>
    refine copies_mono (shrinks_next params w hr).allStaged_le (World.inflight_next params h ha ?_)
    intro minerId credits now heq
    rw [heq] at hr
    cases hr
  | true =>
    cases d with
    | dispatchGranted minerId credits now =>
      refine (copies_drain _ _ id).trans (copies_mono ?_ fun h => h)
      exact (Router.allStaged_congr (stagedOf_grantCredits w.coord.router minerId credits)).le
    | rejectJob minerId jobId reason => exact copies_rejectJob h.agrees minerId jobId reason id
    | childExit minerId owned => exact copies_childExit h.agrees ha.1 id
    | applyCapabilities minerId caps =>
      refine copies_mono ?_ (World.inflight_next params h ha (by simp))
      change (w.coord.applyCapabilities minerId caps).1.router.allStaged ≤ _
      rw [applyCapabilities]
      split_ifs
      · exact le_refl _
      · exact Router.allStaged_updateCapabilities_le w.coord.router minerId _
    | topUp snap plans => exact (copies_topUp params snap plans w.toStaging hid).le
    | stageMempoolOrders orders => exact absurd rfl (hd orders)
    | _ => exact absurd hr Bool.noConfusion

theorem copies_stageOrder (st : CoordinatorState) (order : JobOrder) (id : JobId) :
    (st.stageOrder order).copies id ≤ st.copies id +
      if order.orderId = id ∧ (st.orderMiner order).isSome = true then 1 else 0 := by
  by_cases hknown : order.orderId ∈ st.mempoolOrders
  · rw [stageOrder, if_pos hknown]
    exact Nat.le_add_right _ _
  cases hj : jobOrderToJob order with
  | none =>
    rw [stageOrder, if_neg hknown, hj]
    exact Nat.le_add_right _ _
  | some job =>
    obtain ⟨-, -, -, -, -, hid, -⟩ := jobOrderToJob_shape hj
    have hstage : (st.stageOrder order).copies id =
        stagedCopies (st.router.routeExcluding job none).1 id + st.flying id := by
      rw [stageOrder, if_neg hknown, hj]
      rfl
    have hminer : st.orderMiner order = (st.router.routeExcluding job none).2 := by
      rw [orderMiner, if_neg hknown, hj]
      rfl
    rw [hstage, hminer, ← hid, copies]
    rcases Router.routeExcluding_cases st.router job none with ⟨m, hm, -, -, he⟩ | ⟨-, he⟩ <;> rw [he]
    · have hle := stagedCopies_add_le (Router.allStaged_pushStaged hm job).le id
      simp only [Option.isSome_some, and_true]
      omega
    · exact Nat.le_add_right _ _

end QuipCoordinator
