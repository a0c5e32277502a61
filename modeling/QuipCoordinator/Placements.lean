import QuipCoordinator.HungryQueues

/-!
# Where the router places jobs

A job reaches a queue in two ways: a top-up stages a fresh draw on a miner of its
choice, and everything else is routed: the jobs of a child that exited, a rejected
job, a mempool order, and the jobs a miner turns out not to be capable of. `placed`
are the jobs a section routes, each with the miner the router picks for it. A job
that is in a queue after a section was there before, was drawn, or was placed there.
-/

namespace QuipCoordinator

namespace Router

theorem isCapable_restage (r : Router) (id : MinerId) (job : Job) (id' : MinerId) (k : Job) :
    (r.restage id job).isCapable id' k = r.isCapable id' k := by
  rw [restage]
  split_ifs
  · exact isCapable_update (by intro q; exact ⟨rfl, rfl⟩) r id id' k
  · exact isCapable_routeExcluding r job (some id) id' k

theorem mem_of_restage {r : Router} {id m : MinerId} (hid : id ∈ r.miners) {job k : Job}
    (h : k ∈ (r.restage id job).stagedOf m) :
    k ∈ r.stagedOf m ∨ k = job ∧ (m = id ∨ r.isCapable id k = false ∧
      r.pick k (some id) = some m) := by
  rw [restage] at h
  split_ifs at h with hcap
  · rw [stagedOf_pushStaged r hid] at h
    split_ifs at h with hm
    · rcases List.mem_append.mp h with hold | hnew
      · exact Or.inl hold
      · exact Or.inr ⟨List.mem_singleton.mp hnew, Or.inl hm⟩
    · exact Or.inl h
  · rcases mem_routed h with hold | ⟨rfl, hp⟩
    · exact Or.inl hold
    · exact Or.inr ⟨rfl, Or.inr ⟨Bool.eq_false_of_not_eq_true hcap, hp⟩⟩

theorem mem_of_foldl_restage {id m : MinerId} {k : Job} (jobs : List Job) {r : Router}
    (hid : id ∈ r.miners) (h : k ∈ (jobs.foldl (restage id) r).stagedOf m) :
    k ∈ r.stagedOf m ∨ k ∈ jobs ∧ (m = id ∨ r.isCapable id k = false ∧
      r.pick k (some id) = some m) := by
  induction jobs generalizing r with
  | nil => exact Or.inl h
  | cons job jobs ih =>
    rcases ih ((mem_restage r id job id).mpr hid) h with hold | ⟨hk, hwhere⟩
    · rcases mem_of_restage hid hold with hold | ⟨rfl, hwhere⟩
      · exact Or.inl hold
      · exact Or.inr ⟨List.mem_cons_self, hwhere⟩
    · rw [isCapable_restage, pick_congr fun i _ => isCapable_restage r id job i k] at hwhere
      exact Or.inr ⟨List.mem_cons_of_mem _ hk, hwhere⟩

/-- After new capabilities a job of another queue is new there only when the miner cannot take it
any more. -/
theorem mem_updateCapabilities_stagedOf {r : Router} {id m : MinerId} {caps : MinerCaps} {k : Job}
    (h : k ∈ (r.updateCapabilities id caps).1.stagedOf m) :
    k ∈ r.stagedOf m ∨ k ∈ r.stagedOf id ∧ (r.emptied id caps).isCapable id k = false ∧
      r.pick k (some id) = some m := by
  rw [updateCapabilities_eq] at h
  split_ifs at h with hid
  · have hid' : id ∈ (r.emptied id caps).miners := (mem_update r id id _).mpr hid
    rcases mem_of_foldl_restage _ hid' h with hold | ⟨hk, hm | ⟨hcap, hp⟩⟩
    · rw [stagedOf_emptied r hid] at hold
      split_ifs at hold
      · exact absurd hold List.not_mem_nil
      · exact Or.inl hold
    · rw [hm]
      exact Or.inl hk
    · have hsame : ∀ i, some id ≠ some i → (r.emptied id caps).isCapable i k = r.isCapable i k := by
        intro i hi
        have hne : i ≠ id := fun he => hi (congrArg some he.symm)
        rw [isCapable, emptied, lookup_update, if_neg hne]
        rfl
      rw [pick_congr hsame] at hp
      exact Or.inr ⟨hk, hcap, hp⟩
  · exact Or.inl h

end Router

theorem isOrder_of_isPow {job : Job} (h : job.isPow = true) : job.isOrder = false := by
  rw [Job.isPow] at h
  rw [Job.isOrder]
  cases hp : job.provenance with
  | none => rfl
  | some p =>
    rw [hp, Option.any_some] at h
    rw [Option.any_some, h, Bool.not_true]

section
variable [Crates]

namespace CoordinatorState

/-- The jobs a section routes, each with the miner that is left out. -/
def routings (st : CoordinatorState) : Section → List (Job × Option MinerId)
  | .dispatchGranted minerId credits _ =>
    ((st.router.grantCredits minerId credits).reroutes minerId).map fun job => (job, some minerId)
  | .rejectJob minerId jobId _ =>
    (st.inflight.lookup jobId).toList.map fun job => (job, some minerId)
  | .childExit minerId owned =>
    (owned.filterMap (fun id => st.inflight.lookup id) ++ st.router.stagedOf minerId).map
      fun job => (job, none)
  | .applyCapabilities minerId caps =>
    let emptied := st.router.emptied minerId (.fromCapabilities caps)
    ((st.router.stagedOf minerId).filter fun job => !emptied.isCapable minerId job).map
      fun job => (job, some minerId)
  | .stageMempoolOrders orders =>
    ((orders.filter fun order => order.orderId ∉ st.mempoolOrders).filterMap jobOrderToJob).map
      fun job => (job, none)
  | _ => []

def placed (st : CoordinatorState) (d : Section) : List (MinerId × Job) :=
  (st.routings d).filterMap fun p => (st.router.pick p.1 p.2).map fun m => (m, p.1)

theorem mem_placed {st : CoordinatorState} {d : Section} {m : MinerId} {job : Job}
    {exclude : Option MinerId} (h : (job, exclude) ∈ st.routings d)
    (hp : st.router.pick job exclude = some m) : (m, job) ∈ st.placed d := by
  refine List.mem_filterMap.mpr ⟨(job, exclude), h, ?_⟩
  rw [hp]
  rfl

theorem mem_staged_dispatchGranted {st : CoordinatorState} {minerId m : MinerId}
    {credits now : Nat} {k : Job}
    (h : k ∈ (st.dispatchGranted minerId credits now).1.router.stagedOf m) :
    k ∈ st.router.stagedOf m ∨ (m, k) ∈ st.placed (.dispatchGranted minerId credits now) := by
  rcases drain_fills _ _ h with hold | ⟨hk, hp⟩
  · rw [stagedOf_grantCredits] at hold
    exact Or.inl hold
  · rw [Router.grantCredits, Router.pick_congr fun i _ =>
      Router.isCapable_update (by intro q; exact ⟨rfl, rfl⟩) st.router minerId i k] at hp
    exact Or.inr (mem_placed (List.mem_map.mpr ⟨k, hk, rfl⟩) hp)

theorem mem_staged_rejectJob {st : CoordinatorState} {minerId m : MinerId} {jobId : JobId}
    {reason : RejectReason} {k : Job} (h : k ∈ (st.rejectJob minerId jobId reason).router.stagedOf m) :
    k ∈ st.router.stagedOf m ∨ (m, k) ∈ st.placed (.rejectJob minerId jobId reason) := by
  rw [rejectJob] at h
  cases hl : st.inflight.lookup jobId with
  | none =>
    simp only [completeInflight, hl] at h
    exact Or.inl h
  | some job =>
    simp only [completeInflight, hl] at h
    rcases Router.mem_rerouted h with hold | ⟨rfl, hp⟩
    · rw [stagedOf_recordCompletion] at hold
      exact Or.inl hold
    · rw [Router.recordCompletion, Router.pick_congr fun i _ =>
        Router.isCapable_update (by intro q; exact ⟨rfl, rfl⟩) st.router minerId i k] at hp
      refine Or.inr (mem_placed (List.mem_map.mpr ⟨k, ?_, rfl⟩) hp)
      rw [hl]
      exact List.mem_singleton_self k

theorem mem_staged_childExit {st : CoordinatorState} {minerId m : MinerId} {owned : List JobId}
    (hn : owned.Nodup) {k : Job} (h : k ∈ (st.childExit minerId owned).router.stagedOf m) :
    k ∈ st.router.stagedOf m ∧ m ≠ minerId ∨ (m, k) ∈ st.placed (.childExit minerId owned) := by
  rw [childExit, reclaimMiner_eq st minerId hn] at h
  rcases Router.mem_foldl_route _ h with hold | ⟨hk, hp⟩
  · rw [Router.stagedOf_reclaim] at hold
    split_ifs at hold with hm
    · exact absurd hold List.not_mem_nil
    · exact Or.inl ⟨hold, hm⟩
  · rw [Router.pick_congr fun i _ => Router.isCapable_reclaim st.router minerId i k] at hp
    exact Or.inr (mem_placed (List.mem_map.mpr ⟨k, hk, rfl⟩) hp)

theorem mem_staged_applyCapabilities {st : CoordinatorState} {minerId m : MinerId}
    {caps : Capabilities} {k : Job}
    (h : k ∈ (st.applyCapabilities minerId caps).1.router.stagedOf m) :
    k ∈ st.router.stagedOf m ∨ (m, k) ∈ st.placed (.applyCapabilities minerId caps) := by
  rw [applyCapabilities] at h
  split_ifs at h
  · exact Or.inl h
  · rcases Router.mem_updateCapabilities_stagedOf h with hold | ⟨hk, hcap, hp⟩
    · exact Or.inl hold
    · refine Or.inr (mem_placed (List.mem_map.mpr ⟨k, ?_, rfl⟩) hp)
      exact List.mem_filter.mpr ⟨hk, by rw [hcap, Bool.not_false]⟩

theorem stageOrder_routes (st : CoordinatorState) (order : JobOrder) :
    (∀ id, id ∈ st.mempoolOrders → id ∈ (st.stageOrder order).mempoolOrders) ∧
      (∀ id k, (st.stageOrder order).router.isCapable id k = st.router.isCapable id k) ∧
      ∀ m k, k ∈ (st.stageOrder order).router.stagedOf m → k ∈ st.router.stagedOf m ∨
        order.orderId ∉ st.mempoolOrders ∧ jobOrderToJob order = some k ∧
          st.router.pick k none = some m := by
  rw [stageOrder]
  split_ifs with hknown
  · exact ⟨fun _ h => h, fun _ _ => rfl, fun m k h => Or.inl h⟩
  · have hinsert : ∀ id, id ∈ st.mempoolOrders →
        id ∈ st.mempoolOrders.insert order.orderId (orderGates order) :=
      fun id h => Finmap.mem_insert.mpr (Or.inr h)
    cases hjob : jobOrderToJob order with
    | none => exact ⟨hinsert, fun _ _ => rfl, fun m k h => Or.inl h⟩
    | some job =>
      refine ⟨hinsert, fun id k => Router.isCapable_routeExcluding st.router job none id k, ?_⟩
      intro m k h
      rcases Router.mem_routed h with hold | ⟨rfl, hp⟩
      · exact Or.inl hold
      · exact Or.inr ⟨hknown, rfl, hp⟩

theorem mem_staged_stageMempoolOrders (orders : List JobOrder) {st : CoordinatorState} {m : MinerId}
    {k : Job} (h : k ∈ (st.stageMempoolOrders orders).router.stagedOf m) :
    k ∈ st.router.stagedOf m ∨ (m, k) ∈ st.placed (.stageMempoolOrders orders) := by
  have hroute : k ∈ st.router.stagedOf m ∨ ∃ order ∈ orders, order.orderId ∉ st.mempoolOrders ∧
      jobOrderToJob order = some k ∧ st.router.pick k none = some m := by
    induction orders generalizing st with
    | nil => exact Or.inl h
    | cons order orders ih =>
      obtain ⟨hgrow, hcap, hone⟩ := stageOrder_routes st order
      rcases ih h with hold | ⟨later, hmem, hnew, hjob, hp⟩
      · rcases hone m k hold with hold | hplaced
        · exact Or.inl hold
        · exact Or.inr ⟨order, List.mem_cons_self, hplaced⟩
      · rw [Router.pick_congr fun i _ => hcap i k] at hp
        exact Or.inr ⟨later, List.mem_cons_of_mem _ hmem, fun hin => hnew (hgrow _ hin), hjob, hp⟩
  refine hroute.imp_right ?_
  intro ⟨order, hmem, hnew, hjob, hp⟩
  refine mem_placed (List.mem_map.mpr ⟨k, List.mem_filterMap.mpr ⟨order, ?_, hjob⟩, rfl⟩) hp
  exact List.mem_filter.mpr ⟨hmem, decide_eq_true hnew⟩

end CoordinatorState

namespace World
open CoordinatorState

theorem mem_staged_topUp (params : FeederParams) {s : Staging} (snap : MiningSnapshot)
    (plans : List Plan) {m : MinerId} {k : Job}
    (h : k ∈ (s.topUp params snap plans).coord.router.stagedOf m) :
    k ∈ s.coord.router.stagedOf m ∨ k.isOrder = false := by
  revert h
  have hstage : ∀ {s' : Staging} {r : Router} {id : MinerId} {job : Job},
      s'.coord.router.stageOn id job = (r, true) → job.isOrder = false →
      (k ∈ s'.coord.router.stagedOf m → k ∈ s.coord.router.stagedOf m ∨ k.isOrder = false) →
      k ∈ r.stagedOf m → k ∈ s.coord.router.stagedOf m ∨ k.isOrder = false := by
    intro s' r id job hst hjob hs h
    rcases Router.stageOn_eq s'.coord.router id job with ⟨hcap, he⟩ | ⟨_, he⟩
    · cases he.symm.trans hst
      rw [Router.stagedOf_pushStaged _ (Router.isCapable_mem hcap)] at h
      split_ifs at h
      · rcases List.mem_append.mp h with hold | hnew
        · exact hs hold
        · rw [List.mem_singleton.mp hnew]
          exact Or.inr hjob
      · exact hs h
    · cases he.symm.trans hst
  refine Staging.topUp_induct (P := fun s' : Staging => k ∈ s'.coord.router.stagedOf m →
    k ∈ s.coord.router.stagedOf m ∨ k.isOrder = false) ?_ ?_ ?_ ?_ plans Or.inl
  · exact fun s' n hs => hs
  · intro s' r hs hstaged _ h
    exact hs (hstaged m ▸ h)
  · intro s' id job r n start count hs hjob hst
    exact hstage hst (by rw [hjob]; rfl) hs
  · intro s' id job r n salt hs hjob hst
    obtain ⟨-, hpow, -⟩ := derivePowJob_shape hjob
    exact hstage hst (isOrder_of_isPow hpow) hs

theorem mem_staged_next (params : FeederParams) {w : World} {d : Section} (ha : w.Allowed d)
    {m : MinerId} {k : Job} (h : k ∈ (w.next params d).coord.router.stagedOf m) :
    k ∈ w.coord.router.stagedOf m ∨ k.isOrder = false ∧ (∃ snap plans, d = .topUp snap plans) ∨
      (m, k) ∈ w.coord.placed d := by
  cases hr : d.routes with
  | false => exact Or.inl ((shrinks_next params w hr m).2.subset h)
  | true =>
    cases d with
    | dispatchGranted minerId credits now =>
      exact (mem_staged_dispatchGranted h).imp_right Or.inr
    | rejectJob minerId jobId reason => exact (mem_staged_rejectJob h).imp_right Or.inr
    | childExit minerId owned =>
      exact (mem_staged_childExit ha.1 h).imp And.left Or.inr
    | applyCapabilities minerId caps => exact (mem_staged_applyCapabilities h).imp_right Or.inr
    | stageMempoolOrders orders =>
      exact (mem_staged_stageMempoolOrders orders h).imp_right Or.inr
    | topUp snap plans =>
      refine (mem_staged_topUp params snap plans h).imp_right fun hpow => ?_
      exact Or.inl ⟨hpow, snap, plans, rfl⟩
    | _ => exact absurd hr Bool.noConfusion

end World

end
end QuipCoordinator
