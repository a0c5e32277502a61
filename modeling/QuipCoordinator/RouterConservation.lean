import Mathlib.Algebra.BigOperators.Group.Multiset.Basic
import Mathlib.Algebra.Order.BigOperators.Group.Finset
import QuipCoordinator.RouterMoves

/-!
# Jobs are conserved by the router

`RouterRun` is a router with an account of every job that went in or out of it
and of the credits of each miner. `allStaged` is the multiset of the jobs on all
queues. Each operation is proved to move exactly the jobs it reports.
-/

namespace QuipCoordinator
namespace Router

def allStaged (r : Router) : Multiset Job :=
  r.miners.total fun id => (r.stagedOf id : Multiset Job)

def held (r : Router) : Multiset Job := r.allStaged + (r.unroutable : Multiset Job)

theorem stagedOf_eq_nil {r : Router} {id : MinerId} (h : id ∉ r.miners) : r.stagedOf id = [] := by
  rw [stagedOf, Finmap.lookup_eq_none.mpr h]
  rfl

theorem allStaged_eq_sum (r : Router) {ids : Finset MinerId} (h : r.miners.keys ⊆ ids) :
    r.allStaged = ∑ id ∈ ids, (r.stagedOf id : Multiset Job) := by
  refine Finset.sum_subset h fun id _ hid => ?_
  rw [stagedOf_eq_nil fun hm => hid (Finmap.mem_keys.mpr hm)]
  rfl

theorem held_eq_zero {r : Router} (h : ∀ id, r.stagedOf id = [])
    (hu : r.unroutable = []) : r.held = 0 := by
  rw [held, hu, allStaged]
  refine (add_zero _).trans (Finset.sum_eq_zero fun id _ => ?_)
  rw [h id]
  rfl

theorem allStaged_congr {r r' : Router} (h : ∀ id, r'.stagedOf id = r.stagedOf id) :
    r'.allStaged = r.allStaged := by
  rw [r'.allStaged_eq_sum Finset.subset_union_left, r.allStaged_eq_sum Finset.subset_union_right]
  exact Finset.sum_congr rfl fun id _ => by rw [h id]

theorem allStaged_update {r : Router} {id : MinerId} (hid : id ∈ r.miners)
    (f : MinerQueue → MinerQueue) :
    (r.update id f).allStaged + (r.stagedOf id : Multiset Job) =
      r.allStaged + ((r.update id f).stagedOf id : Multiset Job) := by
  refine Finmap.total_add_eq (q := fun i => (r.stagedOf i : Multiset Job))
    (p := fun i => ((r.update id f).stagedOf i : Multiset Job)) (keys_update r id f) hid ?_
  intro i hi
  rw [stagedOf_update_of_ne hi]

theorem allStaged_pushStaged {r : Router} {id : MinerId} (hid : id ∈ r.miners) (job : Job) :
    (r.pushStaged id job).allStaged = r.allStaged + {job} := by
  have h := allStaged_update hid fun q => { q with staged := q.staged ++ [job] }
  change (r.pushStaged id job).allStaged + _ = _ + ((r.pushStaged id job).stagedOf id : Multiset Job)
    at h
  rw [stagedOf_pushStaged r hid, if_pos rfl, ← Multiset.coe_add, Multiset.coe_singleton,
    add_comm (r.stagedOf id : Multiset Job), ← add_assoc] at h
  exact add_right_cancel h

theorem allStaged_setStaged {r : Router} {id : MinerId} (hid : id ∈ r.miners) (jobs : List Job) :
    (r.setStaged id jobs).allStaged + (r.stagedOf id : Multiset Job) =
      r.allStaged + (jobs : Multiset Job) := by
  have h := allStaged_update hid fun q => { q with staged := jobs }
  change (r.setStaged id jobs).allStaged + _ = _ + ((r.setStaged id jobs).stagedOf id : Multiset Job)
    at h
  rwa [stagedOf_setStaged r hid, if_pos rfl] at h

theorem held_routeExcluding (r : Router) (job : Job) (exclude : Option MinerId) :
    (r.routeExcluding job exclude).1.held = r.held + {job} := by
  rcases routeExcluding_cases r job exclude with ⟨id, hid, -, -, h⟩ | ⟨-, h⟩ <;> rw [h]
  · change (r.pushStaged id job).allStaged + (r.unroutable : Multiset Job) = _
    rw [allStaged_pushStaged hid, held, add_right_comm]
  · change r.allStaged + ((r.unroutable ++ [job] : List Job) : Multiset Job) = _
    rw [held, ← Multiset.coe_add, Multiset.coe_singleton, add_assoc]

theorem held_foldl_route (jobs : List Job) (r : Router) :
    (jobs.foldl (fun r job => (r.route job).1) r).held = r.held + (jobs : Multiset Job) := by
  induction jobs generalizing r with
  | nil => exact (add_zero _).symm
  | cons job jobs ih =>
    rw [List.foldl_cons, ih, route, held_routeExcluding, ← Multiset.cons_coe, add_assoc,
      Multiset.singleton_add]

theorem held_restage {r : Router} {id : MinerId} (hid : id ∈ r.miners) (job : Job) :
    (restage id r job).held = r.held + {job} := by
  unfold restage
  split_ifs
  · change (r.pushStaged id job).allStaged + (r.unroutable : Multiset Job) = _
    rw [allStaged_pushStaged hid, held, add_right_comm]
  · exact held_routeExcluding r job (some id)

theorem held_foldl_restage {id : MinerId} (jobs : List Job) {r : Router} (hid : id ∈ r.miners) :
    (jobs.foldl (restage id) r).held = r.held + (jobs : Multiset Job) := by
  induction jobs generalizing r with
  | nil => exact (add_zero _).symm
  | cons job jobs ih =>
    have hid' := (mem_restage r id job id).mpr hid
    rw [List.foldl_cons, ih hid', held_restage hid, ← Multiset.cons_coe, add_assoc,
      Multiset.singleton_add]

theorem held_updateCapabilities (r : Router) (id : MinerId) (caps : MinerCaps) :
    (r.updateCapabilities id caps).1.held = r.held := by
  rw [updateCapabilities_eq]
  split_ifs with hid
  · have hid' : id ∈ (r.emptied id caps).miners := (mem_update r id id _).mpr hid
    have hempty : (r.emptied id caps).allStaged + (r.stagedOf id : Multiset Job) = r.allStaged := by
      have h := allStaged_update hid
        fun q => { q with caps := caps, unsupportedKinds := ∅, staged := [] }
      change (r.emptied id caps).allStaged + _ =
        _ + ((r.emptied id caps).stagedOf id : Multiset Job) at h
      rwa [stagedOf_emptied r hid, if_pos rfl, Multiset.coe_nil, add_zero] at h
    change ((r.stagedOf id).foldl (restage id) (r.emptied id caps)).held = _
    rw [held_foldl_restage _ hid', held, held, add_right_comm, hempty]
    rfl
  · rfl

theorem held_grantCredits (r : Router) (id : MinerId) (n : Nat) :
    (r.grantCredits id n).held = r.held := by
  have hq : ∀ i, (r.grantCredits id n).stagedOf i = r.stagedOf i :=
    stagedOf_update (by intro q; rfl) r id
  rw [held, held, allStaged_congr hq]
  rfl

theorem held_nextJob (r : Router) (id : MinerId) :
    (r.nextJob id).1.held + ((r.nextJob id).2.toList : Multiset Job) = r.held := by
  have hpop : ∀ (r : Router) (q : MinerQueue) (job : Job) (rest : List Job),
      r.miners.lookup id = some q → q.staged = job :: rest →
      (r.setStaged id rest).held + {job} = r.held := by
    intro r q job rest hq hs
    have h := allStaged_setStaged (Finmap.mem_of_lookup_eq_some hq) rest
    rw [stagedOf_of_lookup hq, hs, ← Multiset.cons_coe, ← Multiset.singleton_add, ← add_assoc] at h
    have h' := add_right_cancel h
    change (r.setStaged id rest).allStaged + (r.unroutable : Multiset Job) + {job} = _
    rw [add_right_comm, h']
    rfl
  refine nextJobLoop_induct (P := fun r out =>
    out.1.held + (out.2.toList : Multiset Job) = r.held) ?_ ?_ ?_ _ r
  · intro r
    exact add_zero _
  · intro r q job rest hq _ hs _
    have hsame : ((r.setStaged id rest).spendCredit id).held = (r.setStaged id rest).held := by
      rw [held, held, allStaged_congr (stagedOf_spendCredit _ id)]
      rfl
    change ((r.setStaged id rest).spendCredit id).held + {job} = r.held
    rw [hsame, hpop r q job rest hq hs]
  · intro r q job rest out hq _ hs _ ih
    rw [ih, held_routeExcluding, hpop r q job rest hq hs]

theorem held_onReject (r : Router) (id : MinerId) (job : Job) (reason : RejectReason) :
    (r.onReject id job reason).held = r.held + {job} := by
  have hmark : (r.marked id job reason).held = r.held := by
    rw [held, held, allStaged_congr (stagedOf_marked r id job reason)]
    unfold marked
    split_ifs <;> rfl
  rw [onReject_eq, held_routeExcluding, hmark]

theorem allStaged_cancel (r : Router) (g : Nat) :
    (r.cancel g).1.allStaged = r.allStaged.filter fun j => keepsUnder g j = true := by
  have hkeys : (r.cancel g).1.miners.keys = r.miners.keys := Finmap.keys_mapValues _ r.miners
  rw [allStaged, allStaged, Finmap.total, Finmap.total, hkeys]
  induction r.miners.keys using Finset.induction_on with
  | empty => rfl
  | insert id ids hid ih =>
    have hf : (r.stagedOf id).filter (fun j => decide (keepsUnder g j = true)) =
        (r.stagedOf id).filter (keepsUnder g) := by simp only [Bool.decide_eq_true]
    rw [Finset.sum_insert hid, Finset.sum_insert hid, Multiset.filter_add, ← ih, stagedOf_cancel,
      Multiset.filter_coe, hf]

theorem cancel_snd (r : Router) (g : Nat) :
    (r.cancel g).2 = (r.allStaged.filter fun j => ¬ keepsUnder g j = true).card := by
  change (∑ id ∈ r.miners.keys, (r.stagedLen id - (r.cancel g).1.stagedLen id)) = _
  rw [allStaged, Finmap.total]
  induction r.miners.keys using Finset.induction_on with
  | empty => rfl
  | insert id ids hid ih =>
    have hlen := List.length_eq_length_filter_add (l := r.stagedOf id) (keepsUnder g)
    have hnot : (r.stagedOf id).filter (fun j => !keepsUnder g j) =
        (r.stagedOf id).filter (fun j => decide (¬ keepsUnder g j = true)) :=
      List.filter_congr fun j _ => by cases keepsUnder g j <;> rfl
    rw [hnot] at hlen
    rw [Finset.sum_insert hid, Finset.sum_insert hid, ih, Multiset.filter_add, Multiset.card_add,
      Multiset.filter_coe, Multiset.coe_card, stagedLen, stagedLen, stagedOf_cancel]
    omega

theorem allStaged_reclaim (r : Router) (id : MinerId) :
    (r.reclaim id).1.allStaged + (r.stagedOf id : Multiset Job) = r.allStaged := by
  by_cases hid : id ∈ r.miners
  · obtain ⟨q, hq⟩ := Finmap.mem_iff.mp hid
    have h := allStaged_update hid fun q => { q with grantedCredits := 0, staged := [] }
    rw [stagedOf_update_self _ hq] at h
    simpa only [reclaim, hq, Multiset.coe_nil, add_zero] using h
  · rw [stagedOf_eq_nil hid, reclaim, Finmap.lookup_eq_none.mpr hid]
    exact add_zero _

theorem held_stageOn (r : Router) (id : MinerId) (job : Job) :
    (r.stageOn id job).1.held = r.held + (if (r.stageOn id job).2 then {job} else 0) := by
  rcases stageOn_eq r id job with ⟨hc, h⟩ | ⟨-, h⟩ <;> rw [h]
  · change (r.pushStaged id job).allStaged + (r.unroutable : Multiset Job) = _
    rw [allStaged_pushStaged (isCapable_mem hc), held, add_right_comm]
    rfl
  · exact (add_zero _).symm

theorem held_registerMiner (r : Router) (id : MinerId) (caps : MinerCaps) :
    (r.registerMiner id caps).held = r.held := by
  have hu : (r.registerMiner id caps).unroutable = r.unroutable := by
    unfold registerMiner
    cases r.miners.lookup id <;> rfl
  rw [held, held, allStaged_congr (stagedOf_registerMiner r id caps), hu]

end Router

inductive RouterOp
  | registerMiner (id : MinerId) (caps : MinerCaps)
  | route (job : Job)
  | stageOn (id : MinerId) (job : Job)
  | updateCapabilities (id : MinerId) (caps : MinerCaps)
  | setTopology (topology : Option Topology)
  | grantCredits (id : MinerId) (credits : Nat)
  | nextJob (id : MinerId)
  | onReject (id : MinerId) (job : Job) (reason : RejectReason)
  | cancel (maxGeneration : Nat)
  | reclaim (id : MinerId)

/-- A router with the account of a run. `granted`, `handedOut` and `saturated` are counted for
each miner from its last registration or reclaim. -/
structure RouterRun where
  router : Router
  accepted : Multiset Job
  dispatched : Multiset Job
  reclaimed : Multiset Job
  cancelled : Multiset Job
  cancelCount : Nat
  granted : MinerId → Nat
  handedOut : MinerId → Nat
  saturated : MinerId → Bool

namespace RouterRun
variable [Crates]

omit [Crates] in
def new : RouterRun :=
  ⟨.new, 0, 0, 0, 0, 0, fun _ => 0, fun _ => 0, fun _ => false⟩

omit [Crates] in
def restart (s : RouterRun) (id : MinerId) (r : Router) : RouterRun :=
  { s with
    router := r
    granted := Function.update s.granted id 0
    handedOut := Function.update s.handedOut id 0
    saturated := Function.update s.saturated id false }

def apply (s : RouterRun) : RouterOp → RouterRun
  | .registerMiner id caps => s.restart id (s.router.registerMiner id caps)
  | .route job =>
    { s with router := (s.router.route job).1, accepted := s.accepted + {job} }
  | .stageOn id job =>
    let out := s.router.stageOn id job
    { s with router := out.1, accepted := s.accepted + if out.2 then {job} else 0 }
  | .updateCapabilities id caps => { s with router := (s.router.updateCapabilities id caps).1 }
  | .setTopology t => { s with router := s.router.setTopology t }
  | .grantCredits id n =>
    { s with
      router := s.router.grantCredits id n
      granted := Function.update s.granted id (s.granted id + n)
      saturated := Function.update s.saturated id
        (s.saturated id || decide (2 ^ 32 - 1 < s.router.creditsOf id + n)) }
  | .nextJob id =>
    let out := s.router.nextJob id
    { s with
      router := out.1
      dispatched := s.dispatched + (out.2.toList : Multiset Job)
      handedOut := Function.update s.handedOut id (s.handedOut id + out.2.toList.length) }
  | .onReject id job reason =>
    { s with router := s.router.onReject id job reason, accepted := s.accepted + {job} }
  | .cancel g =>
    let out := s.router.cancel g
    { s with
      router := out.1
      cancelled := s.cancelled + s.router.allStaged.filter fun j => ¬ Router.keepsUnder g j = true
      cancelCount := s.cancelCount + out.2 }
  | .reclaim id =>
    let out := s.router.reclaim id
    { s.restart id out.1 with reclaimed := s.reclaimed + (out.2 : Multiset Job) }

def run (ops : List RouterOp) : RouterRun := ops.foldl apply new

omit [Crates] in
def Conserved (s : RouterRun) : Prop :=
  s.accepted = s.router.allStaged + (s.router.unroutable : Multiset Job) + s.dispatched +
      s.reclaimed + s.cancelled ∧
    s.cancelled.card = s.cancelCount

theorem conserved_apply {s : RouterRun} (h : s.Conserved) (op : RouterOp) :
    (s.apply op).Conserved := by
  obtain ⟨hjobs, hcount⟩ := h
  have hjobs' : s.accepted = s.router.held + s.dispatched + s.reclaimed + s.cancelled := hjobs
  cases op with
  | registerMiner id caps =>
    refine ⟨?_, hcount⟩
    change s.accepted =
      (s.router.registerMiner id caps).held + s.dispatched + s.reclaimed + s.cancelled
    rw [Router.held_registerMiner, hjobs']
  | route job =>
    refine ⟨?_, hcount⟩
    change s.accepted + {job} =
      (s.router.routeExcluding job none).1.held + s.dispatched + s.reclaimed + s.cancelled
    rw [Router.held_routeExcluding, hjobs']
    ac_rfl
  | stageOn id job =>
    refine ⟨?_, hcount⟩
    change s.accepted + (if (s.router.stageOn id job).2 then {job} else 0) =
      (s.router.stageOn id job).1.held + s.dispatched + s.reclaimed + s.cancelled
    rw [Router.held_stageOn, hjobs']
    ac_rfl
  | updateCapabilities id caps =>
    refine ⟨?_, hcount⟩
    change s.accepted =
      (s.router.updateCapabilities id caps).1.held + s.dispatched + s.reclaimed + s.cancelled
    rw [Router.held_updateCapabilities, hjobs']
  | setTopology t => exact ⟨hjobs, hcount⟩
  | grantCredits id n =>
    refine ⟨?_, hcount⟩
    change s.accepted =
      (s.router.grantCredits id n).held + s.dispatched + s.reclaimed + s.cancelled
    rw [Router.held_grantCredits, hjobs']
  | nextJob id =>
    have hnext := Router.held_nextJob s.router id
    refine ⟨?_, hcount⟩
    change s.accepted = (s.router.nextJob id).1.held +
      (s.dispatched + ((s.router.nextJob id).2.toList : Multiset Job)) + s.reclaimed + s.cancelled
    rw [hjobs', ← hnext]
    ac_rfl
  | onReject id job reason =>
    refine ⟨?_, hcount⟩
    change s.accepted + {job} =
      (s.router.onReject id job reason).held + s.dispatched + s.reclaimed + s.cancelled
    rw [Router.held_onReject, hjobs']
    ac_rfl
  | cancel g =>
    have hsplit := Multiset.filter_add_not (fun j => Router.keepsUnder g j = true)
      s.router.allStaged
    constructor
    · change s.accepted = (s.router.cancel g).1.allStaged + (s.router.unroutable : Multiset Job) +
        s.dispatched + s.reclaimed +
          (s.cancelled + s.router.allStaged.filter fun j => ¬ Router.keepsUnder g j = true)
      rw [Router.allStaged_cancel, hjobs]
      nth_rewrite 1 [← hsplit]
      ac_rfl
    · change (s.cancelled + s.router.allStaged.filter fun j =>
        ¬ Router.keepsUnder g j = true).card = s.cancelCount + (s.router.cancel g).2
      rw [Multiset.card_add, hcount, Router.cancel_snd]
  | reclaim id =>
    have hu : (s.router.reclaim id).1.unroutable = s.router.unroutable := by
      unfold Router.reclaim
      cases s.router.miners.lookup id <;> rfl
    have hs := Router.allStaged_reclaim s.router id
    refine ⟨?_, hcount⟩
    change s.accepted = (s.router.reclaim id).1.allStaged +
      ((s.router.reclaim id).1.unroutable : Multiset Job) + s.dispatched +
        (s.reclaimed + ((s.router.reclaim id).2 : Multiset Job)) + s.cancelled
    rw [Router.reclaim_snd, hu, hjobs, ← hs]
    ac_rfl

/-- Every accepted job is in exactly one place after every sequence of operations, and a
registration keeps every queue. -/
theorem router_conserves_jobs (ops : List RouterOp) :
    (run ops).Conserved ∧ ∀ (r : Router) (id : MinerId) (caps : MinerCaps) (id' : MinerId),
      (r.registerMiner id caps).stagedOf id' = r.stagedOf id' := by
  refine ⟨?_, Router.stagedOf_registerMiner⟩
  have hrun : ∀ (ops : List RouterOp) (s : RouterRun), s.Conserved → (ops.foldl apply s).Conserved := by
    intro ops
    induction ops with
    | nil => exact fun s h => h
    | cons op ops ih => exact fun s h => ih _ (conserved_apply h op)
  exact hrun ops new ⟨rfl, rfl⟩

end RouterRun
end QuipCoordinator
