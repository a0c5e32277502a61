import QuipCoordinator.InflightLedger
import QuipCoordinator.RouterPicks

/-!
# Which miners a section leaves with work to dispatch

A miner is hungry when it has both credits and staged jobs: its dispatcher has
something to do. A section makes a miner hungry by routing a job to it, either in
a hand-off that wakes nobody (`handoffs`), or in a staging that wakes the miner
(`wakes`). A drain leaves its own miner not hungry.
-/

namespace QuipCoordinator

namespace Router

def Hungry (r : Router) (id : MinerId) : Prop := 0 < r.creditsOf id ∧ r.stagedOf id ≠ []

instance (r : Router) (id : MinerId) : Decidable (r.Hungry id) := inferInstanceAs (Decidable (_ ∧ _))

def Shrinks (r r' : Router) : Prop :=
  ∀ id, r'.creditsOf id ≤ r.creditsOf id ∧ (r'.stagedOf id).Sublist (r.stagedOf id)

theorem Shrinks.refl (r : Router) : r.Shrinks r := fun _ => ⟨Nat.le_refl _, .refl _⟩

theorem Shrinks.trans {a b c : Router} (hab : a.Shrinks b) (hbc : b.Shrinks c) : a.Shrinks c := by
  intro id
  exact ⟨(hbc id).1.trans (hab id).1, (hbc id).2.trans (hab id).2⟩

theorem shrinks_of_eq {r r' : Router} (hc : ∀ id, r'.creditsOf id = r.creditsOf id)
    (hs : ∀ id, r'.stagedOf id = r.stagedOf id) : r.Shrinks r' := by
  intro id
  rw [hc id, hs id]
  exact ⟨Nat.le_refl _, .refl _⟩

theorem shrinks_registerMiner (r : Router) (id : MinerId) (caps : MinerCaps) :
    r.Shrinks (r.registerMiner id caps) := by
  intro id'
  rw [creditsOf_registerMiner, stagedOf_registerMiner]
  refine ⟨?_, .refl _⟩
  split_ifs
  · exact Nat.zero_le _
  · exact Nat.le_refl _

theorem shrinks_cancel (r : Router) (g : Nat) : r.Shrinks (r.cancel g).1 := by
  intro id
  rw [creditsOf_cancel, stagedOf_cancel]
  exact ⟨Nat.le_refl _, List.filter_sublist⟩

theorem shrinks_resetRoundSalts (r : Router) : r.Shrinks r.resetRoundSalts := by
  refine shrinks_of_eq ?_ ?_
  · intro id
    simp only [resetRoundSalts, creditsOf, Finmap.lookup_mapValues]
    cases r.miners.lookup id <;> rfl
  · intro id
    simp only [resetRoundSalts, stagedOf, Finmap.lookup_mapValues]
    cases r.miners.lookup id <;> rfl

theorem mem_of_stagedOf_ne_nil {r : Router} {id : MinerId} (h : r.stagedOf id ≠ []) :
    id ∈ r.miners := by
  by_contra hid
  exact h (stagedOf_eq_nil hid)

theorem isCapable_reclaim (r : Router) (id id' : MinerId) (job : Job) :
    (r.reclaim id).1.isCapable id' job = r.isCapable id' job := by
  rw [reclaim]
  cases r.miners.lookup id with
  | none => rfl
  | some q => exact isCapable_update (by intro q; exact ⟨rfl, rfl⟩) r id id' job

theorem creditsOf_foldl_route (jobs : List Job) (r : Router) (id : MinerId) :
    (jobs.foldl (fun r job => (r.route job).1) r).creditsOf id = r.creditsOf id := by
  induction jobs generalizing r with
  | nil => rfl
  | cons job jobs ih => exact (ih _).trans (creditsOf_routeExcluding r job none id)

end Router

variable [Crates]

namespace CoordinatorState

/-- The miners a section routes jobs to without waking them. -/
def handoffs (st : CoordinatorState) : Section → List MinerId
  | .dispatchGranted minerId credits _ =>
    let r := st.router.grantCredits minerId credits
    (r.reroutes minerId).filterMap fun job => r.pick job (some minerId)
  | .rejectJob minerId jobId _ =>
    (st.inflight.lookup jobId).toList.filterMap fun job => st.router.pick job (some minerId)
  | .childExit minerId owned =>
    (owned.filterMap (fun id => st.inflight.lookup id) ++ st.router.stagedOf minerId).filterMap
      fun job => st.router.pick job none
  | _ => []

def wakes (st : CoordinatorState) : Section → Finset MinerId
  | .applyCapabilities minerId caps =>
    if (st.applyCapabilities minerId caps).2 then st.router.miners.keys else ∅
  | .topUp _ plans => (plans.map (·.minerId)).toFinset
  | .stageMempoolOrders orders => (orderMiners orders st).toFinset
  | _ => ∅

omit [Crates] in
theorem hungry_dispatchGranted {st : CoordinatorState} {minerId m : MinerId} {credits now : Nat}
    (h : (st.dispatchGranted minerId credits now).1.router.Hungry m) :
    m ≠ minerId ∧ 0 < st.router.creditsOf m ∧
      (st.router.stagedOf m ≠ [] ∨ m ∈ st.handoffs (.dispatchGranted minerId credits now)) := by
  obtain ⟨hc, hs⟩ := h
  have hm : m ≠ minerId := by
    intro heq
    subst heq
    rcases drain_spent (Nat.le_refl _) with h0 | hnil
    · exact absurd h0 (Nat.pos_iff_ne_zero.mp hc)
    · exact hs hnil
  refine ⟨hm, ?_, ?_⟩
  · have hkeep := drain_credits_of_ne now
      ((st.router.grantCredits minerId credits).creditsOf minerId)
      { st with router := st.router.grantCredits minerId credits } hm
    rw [dispatchGranted, hkeep] at hc
    rwa [Router.creditsOf_grantCredits, if_neg fun h => hm h.1] at hc
  · obtain ⟨job, hmem⟩ := List.exists_mem_of_ne_nil _ hs
    rcases drain_fills _ _ hmem with hold | ⟨hjob, hp⟩
    · left
      rw [stagedOf_grantCredits] at hold
      exact List.ne_nil_of_mem hold
    · right
      exact List.mem_filterMap.mpr ⟨job, hjob, hp⟩

omit [Crates] in
theorem hungry_rejectJob {st : CoordinatorState} {minerId m : MinerId} {jobId : JobId}
    {reason : RejectReason} (h : (st.rejectJob minerId jobId reason).router.Hungry m) :
    0 < st.router.creditsOf m ∧
      (st.router.stagedOf m ≠ [] ∨ m ∈ st.handoffs (.rejectJob minerId jobId reason)) := by
  rw [rejectJob] at h
  cases hl : st.inflight.lookup jobId with
  | none =>
    simp only [completeInflight, hl] at h
    exact ⟨h.1, Or.inl h.2⟩
  | some job =>
    simp only [completeInflight, hl] at h
    obtain ⟨hc, hs⟩ := h
    rw [Router.creditsOf_onReject, Router.recordCompletion,
      Router.creditsOf_update (by intro q; rfl)] at hc
    refine ⟨hc, ?_⟩
    obtain ⟨k, hmem⟩ := List.exists_mem_of_ne_nil _ hs
    rcases Router.mem_rerouted hmem with hold | ⟨-, hp⟩
    · left
      rw [stagedOf_recordCompletion] at hold
      exact List.ne_nil_of_mem hold
    · right
      rw [Router.recordCompletion, Router.pick_congr fun i _ =>
        Router.isCapable_update (by intro q; exact ⟨rfl, rfl⟩) st.router minerId i job] at hp
      refine List.mem_filterMap.mpr ⟨job, ?_, hp⟩
      rw [hl]
      exact List.mem_singleton_self job

omit [Crates] in
theorem hungry_childExit {st : CoordinatorState} {minerId m : MinerId} {owned : List JobId}
    (hn : owned.Nodup) (h : (st.childExit minerId owned).router.Hungry m) :
    0 < st.router.creditsOf m ∧
      (st.router.stagedOf m ≠ [] ∨ m ∈ st.handoffs (.childExit minerId owned)) := by
  rw [childExit, reclaimMiner_eq st minerId hn] at h
  obtain ⟨hc, hs⟩ := h
  rw [Router.creditsOf_foldl_route, Router.creditsOf_reclaim] at hc
  have hm : m ≠ minerId := by
    intro heq
    rw [if_pos heq] at hc
    exact absurd hc (Nat.lt_irrefl 0)
  rw [if_neg hm] at hc
  refine ⟨hc, ?_⟩
  obtain ⟨job, hmem⟩ := List.exists_mem_of_ne_nil _ hs
  rcases Router.mem_foldl_route _ hmem with hold | ⟨hjob, hp⟩
  · left
    rw [Router.stagedOf_reclaim, if_neg hm] at hold
    exact List.ne_nil_of_mem hold
  · right
    rw [Router.pick_congr fun i _ => Router.isCapable_reclaim st.router minerId i job] at hp
    exact List.mem_filterMap.mpr ⟨job, hjob, hp⟩

theorem applyCapabilities_of_false {st : CoordinatorState} {minerId : MinerId}
    {caps : Capabilities} (h : (st.applyCapabilities minerId caps).2 = false) :
    (st.applyCapabilities minerId caps).1 = st := by
  rw [applyCapabilities] at h ⊢
  split_ifs at h ⊢
  · rfl
  · rw [Router.updateCapabilities_eq] at h ⊢
    split_ifs at h ⊢
    rfl

theorem router_applyCapabilities (st : CoordinatorState) (minerId : MinerId) (caps : Capabilities)
    (m : MinerId) :
    (st.applyCapabilities minerId caps).1.router.creditsOf m = st.router.creditsOf m ∧
      (m ∈ (st.applyCapabilities minerId caps).1.router.miners ↔ m ∈ st.router.miners) := by
  rw [applyCapabilities]
  split_ifs
  · exact ⟨rfl, Iff.rfl⟩
  · exact ⟨Router.creditsOf_updateCapabilities st.router minerId _ m,
      Router.mem_updateCapabilities st.router minerId _ m⟩

theorem hungry_applyCapabilities {st : CoordinatorState} {minerId m : MinerId} {caps : Capabilities}
    (h : (st.applyCapabilities minerId caps).1.router.Hungry m) :
    0 < st.router.creditsOf m ∧
      (st.router.stagedOf m ≠ [] ∨ m ∈ st.wakes (.applyCapabilities minerId caps)) := by
  obtain ⟨hcred, hmem⟩ := router_applyCapabilities st minerId caps m
  refine ⟨hcred ▸ h.1, ?_⟩
  cases happ : (st.applyCapabilities minerId caps).2 with
  | false =>
    rw [applyCapabilities_of_false happ] at h
    exact Or.inl h.2
  | true =>
    right
    rw [wakes, happ, if_pos rfl, Finmap.mem_keys, ← hmem]
    exact Router.mem_of_stagedOf_ne_nil h.2

theorem router_stageOrder (st : CoordinatorState) (order : JobOrder) (m : MinerId) :
    (st.stageOrder order).router.creditsOf m = st.router.creditsOf m ∧
      ((st.stageOrder order).router.stagedOf m ≠ [] →
        st.router.stagedOf m ≠ [] ∨ st.orderMiner order = some m) := by
  rw [stageOrder, orderMiner]
  split_ifs
  · exact ⟨rfl, Or.inl⟩
  · cases jobOrderToJob order with
    | none => exact ⟨rfl, Or.inl⟩
    | some job =>
      refine ⟨Router.creditsOf_routeExcluding st.router job none m, ?_⟩
      intro hs
      obtain ⟨k, hmem⟩ := List.exists_mem_of_ne_nil _ hs
      rcases Router.mem_routed hmem with hold | ⟨-, hp⟩
      · exact Or.inl (List.ne_nil_of_mem hold)
      · exact Or.inr hp

theorem hungry_stageMempoolOrders (orders : List JobOrder) {st : CoordinatorState} {m : MinerId}
    (h : (st.stageMempoolOrders orders).router.Hungry m) :
    0 < st.router.creditsOf m ∧ (st.router.stagedOf m ≠ [] ∨ m ∈ orderMiners orders st) := by
  induction orders generalizing st with
  | nil => exact ⟨h.1, Or.inl h.2⟩
  | cons order orders ih =>
    obtain ⟨hcred, hfill⟩ := router_stageOrder st order m
    have hlater : ((st.stageOrder order).stageMempoolOrders orders).router.Hungry m := h
    obtain ⟨hc, hs⟩ := ih hlater
    refine ⟨hcred ▸ hc, ?_⟩
    rw [orderMiners, List.mem_append, Option.mem_toList]
    rcases hs with hs | hlater
    · rcases hfill hs with hold | hp
      · exact Or.inl hold
      · exact Or.inr (Or.inl hp)
    · exact Or.inr (Or.inr hlater)

end CoordinatorState

omit [Crates] in
def Section.routes : Section → Bool
  | .dispatchGranted _ _ _ | .rejectJob _ _ _ | .childExit _ _ | .applyCapabilities _ _
  | .topUp _ _ | .stageMempoolOrders _ => true
  | _ => false

namespace World
open CoordinatorState

theorem router_topUp (params : FeederParams) (snap : MiningSnapshot) (plans : List Plan)
    (s : Staging) (m : MinerId) :
    (s.topUp params snap plans).coord.router.creditsOf m = s.coord.router.creditsOf m ∧
      (m ∈ (s.topUp params snap plans).coord.router.miners ↔ m ∈ s.coord.router.miners) := by
  have hstage : ∀ {r r' : Router} {id : MinerId} {job : Job}, r.stageOn id job = (r', true) →
      r'.creditsOf m = r.creditsOf m ∧ (m ∈ r'.miners ↔ m ∈ r.miners) := by
    intro r r' id job hst
    have hc := Router.creditsOf_stageOn r id job m
    have hm := Router.mem_stageOn r id job m
    rw [hst] at hc hm
    exact ⟨hc, hm⟩
  refine Staging.topUp_induct (P := fun s' => s'.coord.router.creditsOf m = s.coord.router.creditsOf m ∧
    (m ∈ s'.coord.router.miners ↔ m ∈ s.coord.router.miners)) ?_ ?_ ?_ ?_ plans ⟨rfl, Iff.rfl⟩
  · exact fun s n hs => hs
  · intro s r hs _ hr
    exact ⟨(hr m).2.trans hs.1, (hr m).1.trans hs.2⟩
  · intro s id job r n start count hs _ hst
    exact ⟨(hstage hst).1.trans hs.1, (hstage hst).2.trans hs.2⟩
  · intro s id job r n salt hs _ hst
    exact ⟨(hstage hst).1.trans hs.1, (hstage hst).2.trans hs.2⟩

theorem shrinks_next (params : FeederParams) (w : World) {d : Section} (h : d.routes = false) :
    w.coord.router.Shrinks (w.next params d).coord.router := by
  have hnote : ∀ (st : CoordinatorState) g, (st.noteResult g).router = st.router := by
    intro st g
    rw [noteResult]
    split_ifs <;> rfl
  cases d with
  | registerMiner minerId caps => exact Router.shrinks_registerMiner w.coord.router minerId caps
  | takeResult minerId jobId =>
    change w.coord.router.Shrinks (w.coord.takeResult minerId jobId).1.router
    obtain ⟨router, mined, hr, he⟩ := w.coord.takeResult_eq minerId jobId
    rw [he]
    exact Router.shrinks_of_eq (fun id => (hr id).2) fun id => (hr id).1
  | noteResult g =>
    change w.coord.router.Shrinks (w.coord.noteResult g).router
    rw [hnote]
    exact .refl _
  | settle o retain =>
    change w.coord.router.Shrinks (w.coord.settle o retain).router
    rw [settle]
    split_ifs <;> exact .refl _
  | handleLeaseDone minerId done =>
    change w.coord.router.Shrinks (w.coord.handleLeaseDone minerId done).router
    obtain ⟨router, mined, hr, he⟩ := w.coord.handleLeaseDone_eq minerId done
    rw [he]
    exact Router.shrinks_of_eq (fun id => (hr id).2) fun id => (hr id).1
  | stopMining =>
    exact (Router.shrinks_cancel w.coord.router _).trans (Router.shrinks_resetRoundSalts _)
  | reseed snap qblockId decay => exact Router.shrinks_of_eq (fun _ => rfl) fun _ => rfl
  | registerOutbound | registerWakeup | deregisterOutbound | recordBest | forgetOrder | winSuccess
  | markSubmitted => exact .refl _
  | _ => exact absurd h Bool.noConfusion

/-- A miner that is hungry after a section had its credits before, was not the miner of a drain,
and had its jobs before, or was handed one, or is woken. -/
theorem hungry_next (params : FeederParams) {w : World} {d : Section} (ha : w.Allowed d)
    {m : MinerId} (h : (w.next params d).coord.router.Hungry m) :
    0 < w.coord.router.creditsOf m ∧
      (w.coord.router.stagedOf m ≠ [] ∨ m ∈ w.coord.handoffs d ∨ m ∈ w.coord.wakes d) ∧
      ∀ credits now, d ≠ .dispatchGranted m credits now := by
  cases hr : d.routes with
  | false =>
    obtain ⟨hc, hs⟩ := shrinks_next params w hr m
    refine ⟨Nat.lt_of_lt_of_le h.1 hc, Or.inl ?_, ?_⟩
    · intro hnil
      rw [hnil] at hs
      exact h.2 (List.sublist_nil.mp hs)
    intro credits now heq
    rw [heq] at hr
    cases hr
  | true =>
    cases d with
    | dispatchGranted minerId credits now =>
      obtain ⟨hm, hc, hs⟩ := hungry_dispatchGranted h
      refine ⟨hc, hs.imp_right Or.inl, ?_⟩
      intro credits' now' heq
      cases heq
      exact hm rfl
    | rejectJob minerId jobId reason =>
      obtain ⟨hc, hs⟩ := hungry_rejectJob h
      exact ⟨hc, hs.imp_right Or.inl, by simp⟩
    | childExit minerId owned =>
      obtain ⟨hc, hs⟩ := hungry_childExit ha.1 h
      exact ⟨hc, hs.imp_right Or.inl, by simp⟩
    | applyCapabilities minerId caps =>
      obtain ⟨hc, hs⟩ := hungry_applyCapabilities h
      exact ⟨hc, hs.imp_right Or.inr, by simp⟩
    | topUp snap plans =>
      obtain ⟨hcred, hmem⟩ := router_topUp params snap plans w.toStaging m
      have hw : m ∈ w.coord.wakes (.topUp snap plans) := by
        rw [wakes, ha.2.2, Finmap.mem_keys, ← hmem]
        exact Router.mem_of_stagedOf_ne_nil h.2
      exact ⟨hcred ▸ h.1, Or.inr (Or.inr hw), by simp⟩
    | stageMempoolOrders orders =>
      obtain ⟨hc, hs⟩ := hungry_stageMempoolOrders orders h
      exact ⟨hc, hs.imp_right fun hw => Or.inr (List.mem_toFinset.mpr hw), by simp⟩
    | _ => exact absurd hr Bool.noConfusion

end World
end QuipCoordinator
