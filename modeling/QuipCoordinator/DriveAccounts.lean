import QuipCoordinator.DriveHarness
import QuipCoordinator.ListSource
import QuipCoordinator.RouterConservation
import QuipCoordinator.RouterPicks

/-!
# The accounts of a drive

Each job of the list is in one place: not staged yet, with the router, in flight, being
validated, or in the report. `ids` are the ids of all places. A row for a rejected job
is written whether the job is in flight or not, a second job of an id in flight takes the
place of the first, and a job that the dispatcher routes away gets no row. `Orderly`
leaves these steps out, and without them no step changes `ids`.
-/

namespace QuipCoordinator

namespace Router

theorem nextJob_of_front {r : Router} {id : MinerId}
    (h : ∀ job ∈ (r.stagedOf id).head?, r.isCapable id job = true) :
    (r.nextJob id).1.unroutable = r.unroutable ∧
      ∀ job ∈ (r.nextJob id).2, job ∈ (r.stagedOf id).head? := by
  rw [nextJob_eq]
  cases hq : r.miners.lookup id with
  | none => exact ⟨rfl, fun _ hn => nomatch hn⟩
  | some q =>
    dsimp only
    split_ifs with h0
    · exact ⟨rfl, fun _ hn => nomatch hn⟩
    · cases hs : q.staged with
      | nil => exact ⟨rfl, fun _ hn => nomatch hn⟩
      | cons job rest =>
        have hhead : (r.stagedOf id).head? = some job := by rw [stagedOf_of_lookup hq, hs]; rfl
        have hcap : (r.setStaged id rest).isCapable id job = true := by
          rw [isCapable_setStaged]
          exact h job hhead
        dsimp only
        rw [if_pos hcap]
        refine ⟨rfl, fun k hk => ?_⟩
        obtain rfl := Option.some.inj hk
        exact hhead

end Router

theorem CoordinatorState.held_applyCapabilities [Crates] (st : CoordinatorState) (id : MinerId)
    (caps : Capabilities) : (st.applyCapabilities id caps).1.router.held = st.router.held ∧
      (st.applyCapabilities id caps).1.inflight = st.inflight := by
  rw [applyCapabilities]
  split_ifs
  · exact ⟨rfl, rfl⟩
  · exact ⟨Router.held_updateCapabilities st.router id _, rfl⟩

namespace DriveRun

def waiting (s : DriveRun) : Multiset Job := (s.jobs : Multiset Job) + s.coord.router.held

def ids (s : DriveRun) : Multiset JobId :=
  s.waiting.map (·.jobId) + s.coord.inflight.keys.val +
    (s.validating.map (·.result.jobId) : Multiset JobId) + (s.rows.map (·.jobId) : Multiset JobId)

/-- The job at the front of the queue is one that the miner can take, under an id not in flight. -/
def FrontFits (p : DriveParams) (s : DriveRun) : Prop :=
  ∀ job ∈ (s.coord.router.stagedOf p.minerId).head?,
    s.coord.router.isCapable p.minerId job = true ∧ job.jobId ∉ s.coord.inflight

instance (p : DriveParams) (s : DriveRun) : Decidable (s.FrontFits p) :=
  inferInstanceAs (Decidable (∀ job ∈ (s.coord.router.stagedOf p.minerId).head?, _ ∧ _))

def FrontsFit (p : DriveParams) (now : Nat) : Nat → DriveRun → Prop
  | 0, _ => True
  | fuel + 1, s => s.FrontFits p ∧ ∀ job ∈ (s.coord.router.nextJob p.minerId).2,
    FrontsFit p now fuel
      ((s.withRouter (s.coord.router.nextJob p.minerId).1).dispatch job now)

instance decidableFrontsFit (p : DriveParams) (now : Nat) :
    (fuel : Nat) → (s : DriveRun) → Decidable (FrontsFit p now fuel s)
  | 0, _ => .isTrue trivial
  | fuel + 1, s =>
    have := decidableFrontsFit p now fuel
    inferInstanceAs (Decidable (_ ∧ ∀ job ∈ (s.coord.router.nextJob p.minerId).2, _))

/-- A step that rejects a job in flight, or whose drain has a fitting job at every turn, or any
other step. -/
def Orderly (p : DriveParams) (s : DriveRun) : DriveEvent → Prop
  | .frame (.reject jobId) _ => jobId ∈ s.coord.inflight
  | .dispatch now =>
    let granted := { s with grants := s.grants.tail }.withRouter
      (s.coord.router.grantCredits p.minerId (s.grants.headD 0))
    FrontsFit p now (granted.coord.router.creditsOf p.minerId) granted
  | _ => True

instance (p : DriveParams) (s : DriveRun) : (e : DriveEvent) → Decidable (Orderly p s e)
  | .frame (.reject jobId) _ => inferInstanceAs (Decidable (jobId ∈ s.coord.inflight))
  | .dispatch now => decidableFrontsFit p now _ _
  | .frame (.ready) _ | .frame (.jobRequest _) _ | .frame (.capabilities _) _
  | .frame (.result _) _ | .frame (.leaseDone _) _ | .frame .other _
  | .hello _ | .take _ | .finish _ _ | .hangUp => .isTrue trivial

/-- The ids of the places and of `hand`, which an operation took and has not put back, are the
ids of the list. -/
structure Accounted (jobs : List Job) (hand : Multiset JobId) (s : DriveRun) : Prop where
  ids : s.ids + hand = (jobs.map (·.jobId) : Multiset JobId)
  problems : ∀ job ∈ s.waiting, job.ising.isSome = true
  solving : ∀ id, ∀ job ∈ s.coord.inflight.lookup id, job.ising.isSome = true
  total : s.total = jobs.length
  told : s.shutdown = true → s.isComplete = true

namespace Accounted
variable {jobs : List Job} {hand : Multiset JobId} {s s' : DriveRun}

theorem congr (h : Accounted jobs hand s) (hw : s'.waiting = s.waiting)
    (hi : s'.coord.inflight = s.coord.inflight) (hv : s'.validating = s.validating)
    (hr : s'.rows = s.rows) (ht : s'.total = s.total) (hs : s'.shutdown = s.shutdown) :
    Accounted jobs hand s' where
  ids := by rw [DriveRun.ids, hw, hi, hv, hr]; exact h.ids
  problems := by rw [hw]; exact h.problems
  solving := by rw [hi]; exact h.solving
  total := ht.trans h.total
  told := by rw [hs, isComplete, ht, hr]; exact h.told

theorem record (row : JobRow) (h : Accounted jobs (hand + {row.jobId}) s) :
    Accounted jobs hand (s.record row) where
  ids := by
    rw [← h.ids]
    change s.waiting.map (·.jobId) + s.coord.inflight.keys.val +
      (s.validating.map (·.result.jobId) : Multiset JobId) +
        (((s.rows ++ [row]).map (·.jobId) : List JobId) : Multiset JobId) + hand = _
    rw [List.map_append, ← Multiset.coe_add, DriveRun.ids, List.map_singleton,
      Multiset.coe_singleton]
    ac_rfl
  problems := h.problems
  solving := h.solving
  total := h.total
  told := by
    intro hs
    have hlen := of_decide_eq_true (h.told hs)
    refine decide_eq_true ?_
    change s.total ≤ (s.rows ++ [row]).length
    rw [List.length_append]
    omega

theorem takeInflight {id : JobId} (h : Accounted jobs 0 s) (hid : id ∈ s.coord.inflight) :
    Accounted jobs {id} (s.takeInflight id).1 where
  ids := by
    have hkeys : (s.coord.inflight.erase id).keys.val + {id} = s.coord.inflight.keys.val := by
      rw [Finmap.keys_erase, Finset.erase_val, add_comm, Multiset.singleton_add]
      exact Multiset.cons_erase (Finmap.mem_keys.mpr hid)
    rw [← h.ids, add_zero]
    change s.waiting.map (·.jobId) + (s.coord.inflight.erase id).keys.val +
      (s.validating.map (·.result.jobId) : Multiset JobId) +
        (s.rows.map (·.jobId) : Multiset JobId) + {id} = s.ids
    rw [DriveRun.ids, ← hkeys]
    ac_rfl
  problems := h.problems
  solving := by
    intro i job hjob
    refine h.solving i job ?_
    have he : (s.coord.inflight.erase id).lookup i = some job := hjob
    rw [Finmap.lookup_erase_eq] at he
    split_ifs at he
    exact he
  total := h.total
  told := h.told

theorem takeInflight_none {id : JobId} (h : Accounted jobs hand s)
    (hid : s.coord.inflight.lookup id = none) : Accounted jobs hand (s.takeInflight id).1 := by
  have herase : s.coord.inflight.erase id = s.coord.inflight := by
    refine Finmap.ext_lookup fun i => ?_
    rw [Finmap.lookup_erase_eq]
    split_ifs with hi
    · rw [hi, hid]
    · rfl
  exact h.congr rfl herase rfl rfl rfl rfl

theorem checkComplete (h : Accounted jobs hand s) : Accounted jobs hand s.checkComplete := by
  unfold DriveRun.checkComplete
  split_ifs with hc
  · exact ⟨h.ids, h.problems, h.solving, h.total, fun _ => hc⟩
  · exact h

theorem checkLoop (h : Accounted jobs hand s) : Accounted jobs hand s.checkLoop := by
  unfold DriveRun.checkLoop
  split_ifs with hc
  · exact ⟨h.ids, h.problems, h.solving, h.total, fun _ => hc⟩
  · exact h

theorem wakeDispatcher (h : Accounted jobs hand s) : Accounted jobs hand s.wakeDispatcher := by
  unfold DriveRun.wakeDispatcher
  split_ifs
  · exact h.congr rfl rfl rfl rfl rfl rfl
  · exact h

theorem withRouter (h : Accounted jobs hand s) {r : Router} (hr : r.held = s.coord.router.held) :
    Accounted jobs hand (s.withRouter r) := by
  refine h.congr ?_ rfl rfl rfl rfl rfl
  change (s.jobs : Multiset Job) + r.held = _
  rw [hr]
  rfl

theorem recordUnroutable (h : Accounted jobs hand s) : Accounted jobs hand s.recordUnroutable where
  ids := by
    have hw : s.waiting =
        s.recordUnroutable.waiting + (s.coord.router.unroutable : Multiset Job) := by
      change (s.jobs : Multiset Job) + (s.coord.router.allStaged + _) =
        (s.jobs : Multiset Job) + (s.coord.router.allStaged + 0) + _
      rw [add_zero, add_assoc]
    rw [← h.ids, DriveRun.ids, DriveRun.ids, hw, Multiset.map_add]
    change s.recordUnroutable.waiting.map (·.jobId) + s.coord.inflight.keys.val +
      (s.validating.map (·.result.jobId) : Multiset JobId) +
        (((s.rows ++ s.coord.router.unroutable.map fun job =>
          failingRow job.jobId job.isPow 0).map (·.jobId) : List JobId) : Multiset JobId) + hand = _
    rw [List.map_append, List.map_map, ← Multiset.coe_add]
    change _ + (_ + (s.coord.router.unroutable.map (·.jobId) : Multiset JobId)) + _ = _
    rw [Multiset.map_coe]
    ac_rfl
  problems := by
    intro job hjob
    refine h.problems job (Multiset.mem_of_le ?_ hjob)
    change (s.jobs : Multiset Job) + (s.coord.router.allStaged + 0) ≤ _
    exact add_le_add_right (add_le_add_right (Multiset.zero_le _) _) _
  solving := h.solving
  total := h.total
  told := by
    intro hs
    have hlen := of_decide_eq_true (h.told hs)
    refine decide_eq_true ?_
    change s.total ≤ (s.rows ++ _).length
    rw [List.length_append]
    omega

theorem validate {isPow : Bool} {ising : IsingProblem} {result : DriveResult}
    {gates : QualityGates} {topo : ResolvedTopo} (h : Accounted jobs {result.jobId} s) :
    Accounted jobs 0
      { s with validating := s.validating ++ [⟨isPow, ising, result, gates, topo⟩] } where
  ids := by
    rw [← h.ids]
    change s.waiting.map (·.jobId) + s.coord.inflight.keys.val +
      ((s.validating ++ [(⟨isPow, ising, result, gates, topo⟩ : Validation)]).map
        (·.result.jobId) : Multiset JobId) +
        (s.rows.map (·.jobId) : Multiset JobId) + 0 = _
    rw [List.map_append, ← Multiset.coe_add, DriveRun.ids, List.map_singleton,
      Multiset.coe_singleton]
    ac_rfl
  problems := h.problems
  solving := h.solving
  total := h.total
  told := h.told

theorem validated {v : Validation} (h : Accounted jobs 0 s) (hv : v ∈ s.validating) :
    Accounted jobs {v.result.jobId} { s with validating := s.validating.erase v } where
  ids := by
    have hmap : ((s.validating.erase v).map (·.result.jobId) : Multiset JobId) + {v.result.jobId} =
        (s.validating.map (·.result.jobId) : Multiset JobId) := by
      have hperm := (List.perm_cons_erase hv).map (·.result.jobId)
      rw [add_comm, Multiset.singleton_add, Multiset.cons_coe]
      exact Multiset.coe_eq_coe.mpr hperm.symm
    rw [← h.ids, add_zero]
    change s.waiting.map (·.jobId) + s.coord.inflight.keys.val +
      ((s.validating.erase v).map (·.result.jobId) : Multiset JobId) +
        (s.rows.map (·.jobId) : Multiset JobId) + {v.result.jobId} = s.ids
    rw [DriveRun.ids, ← hmap]
    ac_rfl
  problems := h.problems
  solving := h.solving
  total := h.total
  told := h.told

theorem dispatch {r : Router} {job : Job} (h : Accounted jobs hand s)
    (hr : r.held + {job} = s.coord.router.held) (hid : job.jobId ∉ s.coord.inflight) (now : Nat) :
    Accounted jobs hand ((s.withRouter r).dispatch job now) := by
  have hw : s.waiting = ((s.jobs : Multiset Job) + r.held) + {job} := by
    rw [waiting, ← hr, add_assoc]
  have hids : s.waiting.map (·.jobId) =
      ((s.jobs : Multiset Job) + r.held).map (·.jobId) + {job.jobId} := by
    rw [hw, Multiset.map_add, Multiset.map_singleton]
  have hkeys : (s.coord.inflight.insert job.jobId job).keys.val =
      s.coord.inflight.keys.val + {job.jobId} := by
    have hk : job.jobId ∉ s.coord.inflight.keys := fun hm => hid (Finmap.mem_keys.mp hm)
    rw [Finmap.keys_insert, Finset.insert_val_of_notMem hk, add_comm, Multiset.singleton_add]
  refine ⟨?_, ?_, ?_, h.total, h.told⟩
  · rw [← h.ids]
    change ((s.jobs : Multiset Job) + r.held).map (·.jobId) +
      (s.coord.inflight.insert job.jobId job).keys.val +
        (s.validating.map (·.result.jobId) : Multiset JobId) +
          (s.rows.map (·.jobId) : Multiset JobId) + hand = s.ids + hand
    rw [DriveRun.ids, hids, hkeys]
    ac_rfl
  · intro k hk
    refine h.problems k ?_
    rw [hw]
    exact Multiset.mem_add.mpr (Or.inl hk)
  · intro id k hk
    have hl : (s.coord.inflight.insert job.jobId job).lookup id = some k := hk
    rw [Finmap.lookup_insert_eq] at hl
    split_ifs at hl
    · obtain rfl := Option.some.inj hl
      refine h.problems _ ?_
      rw [hw]
      exact Multiset.mem_add.mpr (Or.inr (Multiset.mem_singleton_self _))
    · exact h.solving id k hl

end Accounted

/-! ## What a step can do -/

theorem takeResult_cases (s : DriveRun) (r : DriveResult) :
    (∀ job ∈ s.coord.inflight.lookup r.jobId, job.ising = none) ∧
        s.takeResult r = (s.takeInflight r.jobId).1.checkComplete ∨
      r.jobId ∈ s.coord.inflight ∧ ∃ isPow ising gates topo, s.takeResult r =
        { (s.takeInflight r.jobId).1 with
          validating := s.validating ++ [⟨isPow, ising, r, gates, topo⟩] } := by
  rw [takeResult]
  cases hl : s.coord.inflight.lookup r.jobId with
  | none =>
    have heq : s.takeInflight r.jobId = ((s.takeInflight r.jobId).1, none) := Prod.ext rfl hl
    rw [heq]
    exact Or.inl ⟨fun job hj => absurd hj (Option.not_mem_none job), rfl⟩
  | some job =>
    have heq : s.takeInflight r.jobId = ((s.takeInflight r.jobId).1, some job) := Prod.ext rfl hl
    rw [heq]
    cases hising : job.ising with
    | none =>
      left
      constructor
      · intro k hk
        obtain rfl := Option.some.inj hk
        exact hising
      · simp only [Option.bind_some, hising, Option.map_none]
    | some ising =>
      right
      refine ⟨Finmap.mem_of_lookup_eq_some hl, job.isPow, ising, gatesFromTarget s.coord.target,
        s.coord.resolvedTopo, ?_⟩
      simp only [Option.bind_some, hising, Option.map_some]
      rfl

theorem handleLeaseDone_cases (s : DriveRun) (done : DriveLeaseDone) (now : Nat) :
    s.coord.inflight.lookup done.jobId = none ∧
        s.handleLeaseDone done now = (s.takeInflight done.jobId).1 ∨
      done.jobId ∈ s.coord.inflight ∧ ∃ row : JobRow, ∃ dispatchAt leaseWinners,
        row.jobId = done.jobId ∧
        s.handleLeaseDone done now =
          { (s.takeInflight done.jobId).1 with
            dispatchAt := dispatchAt
            leaseWinners := leaseWinners }.record row := by
  rw [handleLeaseDone]
  cases hl : s.coord.inflight.lookup done.jobId with
  | none =>
    have heq : s.takeInflight done.jobId = ((s.takeInflight done.jobId).1, none) :=
      Prod.ext rfl hl
    rw [heq]
    exact Or.inl ⟨rfl, rfl⟩
  | some job =>
    have heq : s.takeInflight done.jobId = ((s.takeInflight done.jobId).1, some job) :=
      Prod.ext rfl hl
    rw [heq]
    refine Or.inr ⟨Finmap.mem_of_lookup_eq_some hl, ?_⟩
    exact ⟨_, _, _, rfl, rfl⟩

theorem handleLeaseResult_cases [Crates] (s : DriveRun) (r : DriveResult) :
    ∃ leaseWinners, s.handleLeaseResult r = { s with leaseWinners := leaseWinners } := by
  unfold handleLeaseResult
  split_ifs
  · exact ⟨_, rfl⟩
  · exact ⟨s.leaseWinners, rfl⟩

end DriveRun
end QuipCoordinator
