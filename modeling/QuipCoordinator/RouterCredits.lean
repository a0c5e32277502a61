import QuipCoordinator.RouterConservation

/-!
# Credits bound what is dispatched

`handedOut` counts the jobs `nextJob` returned for a miner and `granted` the
credits it was granted, both since its last registration or reclaim. The
counters and the credit pool agree after every operation unless a grant
saturated the pool, and only the operations that name a miner move its pool.
-/

namespace QuipCoordinator
namespace Router

theorem creditsOf_spendCredit (r : Router) {id : MinerId} (hid : id ∈ r.miners) (id' : MinerId) :
    (r.spendCredit id).creditsOf id' =
      if id' = id then r.creditsOf id' - 1 else r.creditsOf id' := by
  split_ifs with h
  · obtain ⟨q, hq⟩ := Finmap.mem_iff.mp hid
    subst h
    rw [spendCredit, creditsOf_update_self _ hq, creditsOf_of_lookup hq]
  · exact creditsOf_update_of_ne h r _

theorem nextJob_credits (r : Router) (id : MinerId) :
    (r.nextJob id).1.creditsOf id + (r.nextJob id).2.toList.length = r.creditsOf id ∧
      (∀ id', id' ≠ id → (r.nextJob id).1.creditsOf id' = r.creditsOf id') ∧
      ∀ id', id' ∈ (r.nextJob id).1.miners ↔ id' ∈ r.miners := by
  refine nextJobLoop_induct (P := fun r out =>
    out.1.creditsOf id + out.2.toList.length = r.creditsOf id ∧
      (∀ id', id' ≠ id → out.1.creditsOf id' = r.creditsOf id') ∧
      ∀ id', id' ∈ out.1.miners ↔ id' ∈ r.miners) ?_ ?_ ?_ _ r
  · intro r
    exact ⟨rfl, fun _ _ => rfl, fun _ => Iff.rfl⟩
  · intro r q job rest hq hpos _ _
    have hid : id ∈ (r.setStaged id rest).miners :=
      (mem_update r id id _).mpr (Finmap.mem_of_lookup_eq_some hq)
    have hc : 0 < r.creditsOf id := by rwa [creditsOf_of_lookup hq]
    refine ⟨?_, fun id' hne => ?_, fun id' => ?_⟩
    · rw [creditsOf_spendCredit _ hid, if_pos rfl, creditsOf_setStaged]
      change r.creditsOf id - 1 + 1 = r.creditsOf id
      omega
    · rw [creditsOf_spendCredit _ hid, if_neg hne, creditsOf_setStaged]
    · exact (mem_update _ id id' _).trans (mem_update r id id' _)
  · intro r q job rest out _ _ _ _ ih
    refine ⟨?_, fun id' hne => ?_, fun id' => ?_⟩
    · rw [ih.1, creditsOf_routeExcluding, creditsOf_setStaged]
    · rw [ih.2.1 id' hne, creditsOf_routeExcluding, creditsOf_setStaged]
    · rw [ih.2.2 id', mem_routeExcluding, setStaged, mem_update]

theorem creditsOf_grantCredits (r : Router) (id : MinerId) (n : Nat) (id' : MinerId) :
    (r.grantCredits id n).creditsOf id' =
      if id' = id ∧ id ∈ r.miners then satAdd 32 (r.creditsOf id') n else r.creditsOf id' := by
  by_cases h : id' = id
  · subst h
    by_cases hid : id' ∈ r.miners
    · obtain ⟨q, hq⟩ := Finmap.mem_iff.mp hid
      rw [if_pos ⟨rfl, hid⟩, grantCredits, creditsOf_update_self _ hq, creditsOf_of_lookup hq]
    · rw [if_neg fun hc => hid hc.2]
      simp only [grantCredits, creditsOf, lookup_update, Finmap.lookup_eq_none.mpr hid]
      rfl
  · rw [if_neg fun hc => h hc.1]
    exact creditsOf_update_of_ne h r _

theorem mem_foldl_restage (id : MinerId) (jobs : List Job) (r : Router) (id' : MinerId) :
    id' ∈ (jobs.foldl (restage id) r).miners ↔ id' ∈ r.miners := by
  induction jobs generalizing r with
  | nil => rfl
  | cons job jobs ih => exact (ih _).trans (mem_restage r id job id')

theorem mem_updateCapabilities (r : Router) (id : MinerId) (caps : MinerCaps) (id' : MinerId) :
    id' ∈ (r.updateCapabilities id caps).1.miners ↔ id' ∈ r.miners := by
  rw [updateCapabilities_eq]
  split_ifs
  · exact (mem_foldl_restage id _ _ id').trans (mem_update r id id' _)
  · rfl

theorem mem_onReject (r : Router) (id : MinerId) (job : Job) (reason : RejectReason)
    (id' : MinerId) : id' ∈ (r.onReject id job reason).miners ↔ id' ∈ r.miners := by
  rw [onReject_eq, mem_routeExcluding, marked]
  split_ifs
  · exact mem_update r id id' _
  · rfl

theorem mem_stageOn (r : Router) (id : MinerId) (job : Job) (id' : MinerId) :
    id' ∈ (r.stageOn id job).1.miners ↔ id' ∈ r.miners := by
  rcases stageOn_eq r id job with ⟨-, h⟩ | ⟨-, h⟩ <;> rw [h]
  exact mem_update r id id' _

end Router

def RouterOp.movesCredits (id : MinerId) : RouterOp → Bool
  | .registerMiner i _ => i == id
  | .grantCredits i _ => i == id
  | .nextJob i => i == id
  | .reclaim i => i == id
  | _ => false

namespace RouterRun
variable [Crates]

theorem creditsOf_apply_of_not_moves (s : RouterRun) {op : RouterOp} {id : MinerId}
    (h : op.movesCredits id = false) : (s.apply op).router.creditsOf id = s.router.creditsOf id := by
  cases op with
  | registerMiner i caps =>
    have hne : id ≠ i := fun he => by simp [RouterOp.movesCredits, he] at h
    exact (Router.creditsOf_registerMiner s.router i caps id).trans (if_neg hne)
  | route job => exact Router.creditsOf_routeExcluding s.router job none id
  | stageOn i job => exact Router.creditsOf_stageOn s.router i job id
  | updateCapabilities i caps => exact Router.creditsOf_updateCapabilities s.router i caps id
  | setTopology t => rfl
  | grantCredits i n =>
    have hne : id ≠ i := fun he => by simp [RouterOp.movesCredits, he] at h
    exact (Router.creditsOf_grantCredits s.router i n id).trans (if_neg fun hc => hne hc.1)
  | nextJob i =>
    have hne : id ≠ i := fun he => by simp [RouterOp.movesCredits, he] at h
    exact (Router.nextJob_credits s.router i).2.1 id hne
  | onReject i job reason => exact Router.creditsOf_onReject s.router i job reason id
  | cancel g => exact Router.creditsOf_cancel s.router g id
  | reclaim i =>
    have hne : id ≠ i := fun he => by simp [RouterOp.movesCredits, he] at h
    exact (Router.creditsOf_reclaim s.router i id).trans (if_neg hne)

omit [Crates] in
/-- The account of one miner: its pool is a `u32`, and what was granted is in the pool, was
handed out, or was lost to saturation. -/
structure Balanced (s : RouterRun) (id : MinerId) : Prop where
  pool_le : s.router.creditsOf id ≤ 2 ^ 32 - 1
  handed_le : s.handedOut id + s.router.creditsOf id ≤ s.granted id
  exact_of : id ∈ s.router.miners → s.saturated id = false →
    s.handedOut id + s.router.creditsOf id = s.granted id

omit [Crates] in
theorem Balanced.congr {s s' : RouterRun} {id : MinerId} (h : s.Balanced id)
    (hc : s'.router.creditsOf id = s.router.creditsOf id) (hg : s'.granted id = s.granted id)
    (hh : s'.handedOut id = s.handedOut id) (hs : s'.saturated id = s.saturated id)
    (hm : id ∈ s'.router.miners → id ∈ s.router.miners) : s'.Balanced id := by
  refine ⟨by rw [hc]; exact h.pool_le, by rw [hc, hg, hh]; exact h.handed_le, ?_⟩
  intro hid hsat
  rw [hc, hg, hh]
  exact h.exact_of (hm hid) (hs ▸ hsat)

omit [Crates] in
theorem balanced_restart (s : RouterRun) {id : MinerId} {r : Router} (h0 : r.creditsOf id = 0) :
    (s.restart id r).Balanced id := by
  have hg : (s.restart id r).granted id = 0 := Function.update_self ..
  have hh : (s.restart id r).handedOut id = 0 := Function.update_self ..
  have hc : (s.restart id r).router.creditsOf id = 0 := h0
  exact ⟨by omega, by omega, fun _ _ => by omega⟩

omit [Crates] in
theorem balanced_restart_of_ne {s : RouterRun} {id i : MinerId} {r : Router} (h : s.Balanced id)
    (hne : id ≠ i) (hc : r.creditsOf id = s.router.creditsOf id)
    (hm : id ∈ r.miners → id ∈ s.router.miners) : (s.restart i r).Balanced id :=
  h.congr hc (Function.update_of_ne hne ..) (Function.update_of_ne hne ..)
    (Function.update_of_ne hne ..) hm

theorem balanced_grant {s : RouterRun} {id : MinerId} (h : s.Balanced id) (i : MinerId) (n : Nat) :
    (s.apply (.grantCredits i n)).Balanced id := by
  have hm : id ∈ (s.apply (.grantCredits i n)).router.miners → id ∈ s.router.miners :=
    (Router.mem_update s.router i id _).mp
  by_cases hne : id = i
  · subst hne
    have hpool := h.pool_le
    have hle := h.handed_le
    have hcr : (s.apply (.grantCredits id n)).router.creditsOf id = _ :=
      Router.creditsOf_grantCredits s.router id n id
    have hg : (s.apply (.grantCredits id n)).granted id = s.granted id + n :=
      Function.update_self ..
    have hh : (s.apply (.grantCredits id n)).handedOut id = s.handedOut id := rfl
    have hs : (s.apply (.grantCredits id n)).saturated id =
        (s.saturated id || decide (2 ^ 32 - 1 < s.router.creditsOf id + n)) :=
      Function.update_self ..
    unfold satAdd at hcr
    refine ⟨?_, ?_, ?_⟩
    · rw [hcr]; split_ifs <;> omega
    · rw [hcr, hg, hh]; split_ifs <;> omega
    · intro hid hsat
      rw [hs, Bool.or_eq_false_iff, decide_eq_false_iff_not] at hsat
      have he := h.exact_of (hm hid) hsat.1
      have hnot := hsat.2
      rw [hcr, hg, hh, if_pos ⟨rfl, hm hid⟩]
      omega
  · refine h.congr ?_ (Function.update_of_ne hne ..) rfl (Function.update_of_ne hne ..) hm
    exact (Router.creditsOf_grantCredits s.router i n id).trans (if_neg fun hc => hne hc.1)

theorem balanced_nextJob {s : RouterRun} {id : MinerId} (h : s.Balanced id) (i : MinerId) :
    (s.apply (.nextJob i)).Balanced id := by
  obtain ⟨hself, hother, hmem⟩ := Router.nextJob_credits s.router i
  by_cases hne : id = i
  · subst hne
    have hpool := h.pool_le
    have hle := h.handed_le
    have hh : (s.apply (.nextJob id)).handedOut id =
        s.handedOut id + (s.router.nextJob id).2.toList.length := Function.update_self ..
    have hg : (s.apply (.nextJob id)).granted id = s.granted id := rfl
    have hc : (s.apply (.nextJob id)).router.creditsOf id =
        (s.router.nextJob id).1.creditsOf id := rfl
    refine ⟨by omega, by omega, ?_⟩
    intro hid hsat
    have he := h.exact_of ((hmem id).mp hid) hsat
    omega
  · exact h.congr (hother id hne) rfl (Function.update_of_ne hne ..) rfl (hmem id).mp

theorem balanced_apply {s : RouterRun} {id : MinerId} (h : s.Balanced id) (op : RouterOp) :
    (s.apply op).Balanced id := by
  cases op with
  | registerMiner i caps =>
    by_cases hne : id = i
    · subst hne
      exact balanced_restart s ((Router.creditsOf_registerMiner s.router id caps id).trans
        (if_pos rfl))
    · refine balanced_restart_of_ne h hne
        ((Router.creditsOf_registerMiner s.router i caps id).trans (if_neg hne)) ?_
      intro hid
      exact ((Router.mem_registerMiner s.router i caps id).mp hid).resolve_left hne
  | route job =>
    exact h.congr (creditsOf_apply_of_not_moves s rfl) rfl rfl rfl
      (Router.mem_routeExcluding s.router job none id).mp
  | stageOn i job =>
    exact h.congr (creditsOf_apply_of_not_moves s rfl) rfl rfl rfl
      (Router.mem_stageOn s.router i job id).mp
  | updateCapabilities i caps =>
    exact h.congr (creditsOf_apply_of_not_moves s rfl) rfl rfl rfl
      (Router.mem_updateCapabilities s.router i caps id).mp
  | setTopology t => exact h.congr rfl rfl rfl rfl fun hid => hid
  | grantCredits i n => exact balanced_grant h i n
  | nextJob i => exact balanced_nextJob h i
  | onReject i job reason =>
    exact h.congr (creditsOf_apply_of_not_moves s rfl) rfl rfl rfl
      (Router.mem_onReject s.router i job reason id).mp
  | cancel g =>
    exact h.congr (creditsOf_apply_of_not_moves s rfl) rfl rfl rfl
      (Finmap.mem_mapValues _ s.router.miners id).mp
  | reclaim i =>
    have hrouter : ((s.apply (.reclaim i)).Balanced id) ↔
        (s.restart i (s.router.reclaim i).1).Balanced id := ⟨fun h => ⟨h.1, h.2, h.3⟩,
          fun h => ⟨h.1, h.2, h.3⟩⟩
    rw [hrouter]
    by_cases hne : id = i
    · subst hne
      exact balanced_restart s ((Router.creditsOf_reclaim s.router id id).trans (if_pos rfl))
    · exact balanced_restart_of_ne h hne
        ((Router.creditsOf_reclaim s.router i id).trans (if_neg hne))
        (Router.mem_reclaim s.router i id).mp

theorem balanced_run (ops : List RouterOp) (id : MinerId) : (run ops).Balanced id := by
  have hrun : ∀ (ops : List RouterOp) (s : RouterRun), s.Balanced id →
      (ops.foldl apply s).Balanced id := by
    intro ops
    induction ops with
    | nil => exact fun s h => h
    | cons op ops ih => exact fun s h => ih _ (balanced_apply h op)
  refine hrun ops new ⟨?_, ?_, fun _ _ => ?_⟩
  · exact Nat.zero_le _
  · exact Nat.le_refl 0
  · rfl

theorem lowers_credits {s : RouterRun} {id : MinerId} (h : s.Balanced id) {op : RouterOp}
    (hlt : (s.apply op).router.creditsOf id < s.router.creditsOf id) :
    op = .nextJob id ∨ (∃ caps, op = .registerMiner id caps) ∨ op = .reclaim id := by
  cases hmv : op.movesCredits id with
  | false =>
    have he := creditsOf_apply_of_not_moves s hmv
    omega
  | true =>
    cases op with
    | registerMiner i caps =>
      have hi : i = id := by simpa [RouterOp.movesCredits] using hmv
      exact Or.inr (Or.inl ⟨caps, by rw [hi]⟩)
    | nextJob i =>
      have hi : i = id := by simpa [RouterOp.movesCredits] using hmv
      exact Or.inl (by rw [hi])
    | reclaim i =>
      have hi : i = id := by simpa [RouterOp.movesCredits] using hmv
      exact Or.inr (Or.inr (by rw [hi]))
    | grantCredits i n =>
      have hpool := h.pool_le
      have hc : (s.apply (.grantCredits i n)).router.creditsOf id = _ :=
        Router.creditsOf_grantCredits s.router i n id
      unfold satAdd at hc
      split_ifs at hc <;> omega
    | route job => cases hmv
    | stageOn i job => cases hmv
    | updateCapabilities i caps => cases hmv
    | setTopology t => cases hmv
    | onReject i job reason => cases hmv
    | cancel g => cases hmv

/-- Credit safety of one miner along every sequence of operations. -/
theorem router_credit_safety (ops : List RouterOp) (id : MinerId) :
    (run ops).handedOut id ≤ (run ops).granted id ∧
      (id ∈ (run ops).router.miners → (run ops).saturated id = false →
        (run ops).handedOut id = (run ops).granted id - (run ops).router.creditsOf id ∧
          (run ops).router.creditsOf id ≤ (run ops).granted id) ∧
      (∀ op, ((run ops).apply op).router.creditsOf id < (run ops).router.creditsOf id →
        op = .nextJob id ∨ (∃ caps, op = .registerMiner id caps) ∨ op = .reclaim id) ∧
      (∀ caps, ((run ops).apply (.registerMiner id caps)).router.creditsOf id = 0) ∧
      ((run ops).apply (.reclaim id)).router.creditsOf id = 0 ∧
      (∀ op, op.movesCredits id = false →
        ((run ops).apply op).router.creditsOf id = (run ops).router.creditsOf id) := by
  have hb := balanced_run ops id
  have hle := hb.handed_le
  refine ⟨by omega, ?_, fun op => lowers_credits hb, fun caps => ?_, ?_,
    fun op => creditsOf_apply_of_not_moves _⟩
  · intro hid hsat
    have he := hb.exact_of hid hsat
    omega
  · exact (Router.creditsOf_registerMiner (run ops).router id caps id).trans (if_pos rfl)
  · exact (Router.creditsOf_reclaim (run ops).router id id).trans (if_pos rfl)

end RouterRun
end QuipCoordinator
