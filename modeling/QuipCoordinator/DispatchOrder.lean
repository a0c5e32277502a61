import QuipCoordinator.RouterPicks
import Mathlib.Data.List.TakeWhile

/-!
# The order of a dispatch

A dispatch reads the queue of its miner from the front. The jobs it passes are
those in front of the first one that the miner can take, and each of them goes to
its pick among the other miners or to the unroutable jobs. The picks do not depend
on the queues, so they are the ones before the call.
-/

namespace QuipCoordinator.Router

/-- The loop of the source, or none when it is still running after that many turns. -/
def nextJobTurns (id : MinerId) : Nat → Router → Option (Router × Option Job)
  | 0, _ => none
  | turns + 1, r =>
    match r.miners.lookup id with
    | none => some (r, none)
    | some q =>
      if q.grantedCredits = 0 then some (r, none)
      else
        match q.staged with
        | [] => some (r, none)
        | job :: rest =>
          let popped := r.setStaged id rest
          if popped.isCapable id job then some (popped.spendCredit id, some job)
          else nextJobTurns id turns (popped.routeExcluding job (some id)).1

/-- A turn that does not return takes a job off the queue, so one turn more than it has jobs
is enough. -/
theorem nextJobTurns_eq {id : MinerId} {turns : Nat} {r : Router} (h : r.stagedLen id < turns) :
    nextJobTurns id turns r = some (r.nextJob id) := by
  induction turns generalizing r with
  | zero => omega
  | succ turns ih =>
    rw [nextJobTurns, nextJob_eq]
    cases hq : r.miners.lookup id with
    | none => rfl
    | some q =>
      dsimp only
      split_ifs with h0
      · rfl
      · cases hs : q.staged with
        | nil => rfl
        | cons job rest =>
          have hlen := stagedLen_skip hq hs
          dsimp only
          split_ifs with hc
          · rfl
          · exact ih (by omega)

def skipped (r : Router) (id : MinerId) : List Job :=
  if r.creditsOf id = 0 then [] else (r.stagedOf id).takeWhile fun job => !r.isCapable id job

theorem skipped_skip {r : Router} {id : MinerId} {q : MinerQueue} {job : Job} {rest : List Job}
    (hq : r.miners.lookup id = some q) (hpos : 0 < q.grantedCredits) (hs : q.staged = job :: rest)
    (hc : r.isCapable id job = false) :
    r.skipped id =
      job :: ((r.setStaged id rest).routeExcluding job (some id)).1.skipped id := by
  have hid := Finmap.mem_of_lookup_eq_some hq
  have hcap : ∀ k, ((r.setStaged id rest).routeExcluding job (some id)).1.isCapable id k =
      r.isCapable id k := by
    intro k
    rw [isCapable_routeExcluding, isCapable_setStaged]
  have hcred : r.creditsOf id ≠ 0 := by rw [creditsOf_of_lookup hq]; omega
  have hcred' : ((r.setStaged id rest).routeExcluding job (some id)).1.creditsOf id ≠ 0 := by
    rwa [creditsOf_routeExcluding, creditsOf_setStaged]
  rw [skipped, skipped, if_neg hcred, if_neg hcred', stagedOf_routeExcluding_self,
    stagedOf_setStaged r hid, if_pos rfl, stagedOf_of_lookup hq, hs, List.takeWhile_cons]
  simp only [hcap, hc, Bool.not_false, if_true]

theorem skipped_take {r : Router} {id : MinerId} {q : MinerQueue} {job : Job} {rest : List Job}
    (hq : r.miners.lookup id = some q) (hs : q.staged = job :: rest)
    (hc : r.isCapable id job = true) : r.skipped id = [] := by
  rw [skipped, stagedOf_of_lookup hq, hs, List.takeWhile_cons]
  simp [hc]

theorem skipped_of_staged_nil {r : Router} {id : MinerId} (h : r.stagedOf id = []) :
    r.skipped id = [] := by
  simp [skipped, h]

theorem isCapable_of_mem_skipped {r : Router} {id : MinerId} {job : Job}
    (h : job ∈ r.skipped id) : r.isCapable id job = false := by
  unfold skipped at h
  split_ifs at h
  · exact absurd h List.not_mem_nil
  · simpa using List.mem_takeWhile_imp h

theorem pick_eq_some {r : Router} {job : Job} {id m : MinerId}
    (h : r.pick job (some id) = some m) :
    m ≠ id ∧ m ∈ r.miners ∧ r.isCapable m job = true := by
  rw [pick] at h
  rcases routeExcluding_cases r job (some id) with ⟨i, hi, hne, hc, hr⟩ | ⟨-, hr⟩ <;> rw [hr] at h
  · obtain rfl := Option.some.inj h
    exact ⟨fun he => hne (congrArg some he.symm), hi, hc⟩
  · cases h

theorem pick_eq_none {r : Router} {job : Job} {id : MinerId} (h : r.pick job (some id) = none)
    {m : MinerId} (hm : m ≠ id) : r.isCapable m job = false := by
  rw [pick] at h
  rcases routeExcluding_cases r job (some id) with ⟨i, -, -, -, hr⟩ | ⟨hno, hr⟩ <;> rw [hr] at h
  · cases h
  · exact hno m fun he => hm (Option.some.inj he).symm

theorem unroutable_routeExcluding (r : Router) (job : Job) (exclude : Option MinerId) :
    (r.routeExcluding job exclude).1.unroutable =
      if r.pick job exclude = none then r.unroutable ++ [job] else r.unroutable := by
  rw [pick]
  rcases routeExcluding_cases r job exclude with ⟨i, -, -, -, h⟩ | ⟨-, h⟩
  · rw [h]
    rfl
  · rw [h]
    rfl

theorem topology_routeExcluding (r : Router) (job : Job) (exclude : Option MinerId) :
    (r.routeExcluding job exclude).1.topology = r.topology := by
  rcases routeExcluding_cases r job exclude with ⟨i, -, -, -, h⟩ | ⟨-, h⟩ <;> rw [h]
  rfl

structure TurnsTo (r r' : Router) (id : MinerId) (job : Job) (rest : List Job) : Prop where
  own : r'.stagedOf id = rest
  credits : ∀ m, r'.creditsOf m = r.creditsOf m
  others : ∀ m, m ≠ id → r'.stagedOf m =
    if r.pick job (some id) = some m then r.stagedOf m ++ [job] else r.stagedOf m
  unroutable : r'.unroutable =
    if r.pick job (some id) = none then r.unroutable ++ [job] else r.unroutable
  capable : ∀ m k, r'.isCapable m k = r.isCapable m k
  registered : ∀ m, m ∈ r'.miners ↔ m ∈ r.miners
  topology : r'.topology = r.topology

theorem turnsTo_skip {r : Router} {id : MinerId} {q : MinerQueue} (job : Job) (rest : List Job)
    (hq : r.miners.lookup id = some q) :
    r.TurnsTo ((r.setStaged id rest).routeExcluding job (some id)).1 id job rest := by
  have hid := Finmap.mem_of_lookup_eq_some hq
  have hpick : (r.setStaged id rest).pick job (some id) = r.pick job (some id) :=
    pick_congr fun i _ => isCapable_setStaged r id rest i job
  refine ⟨?_, ?_, ?_, ?_, ?_, ?_, ?_⟩
  · rw [stagedOf_routeExcluding_self, stagedOf_setStaged r hid, if_pos rfl]
  · intro m
    rw [creditsOf_routeExcluding, creditsOf_setStaged]
  · intro m hm
    rw [stagedOf_routeExcluding, hpick, stagedOf_setStaged r hid, if_neg hm]
  · rw [unroutable_routeExcluding, hpick]
    rfl
  · intro m k
    rw [isCapable_routeExcluding, isCapable_setStaged]
  · intro m
    rw [mem_routeExcluding]
    exact mem_update r id m _
  · rw [topology_routeExcluding]
    rfl

/-- What a dispatch does to the router: the queue is read in order up to the first job that the
miner can take, and the jobs passed go to their picks. -/
structure Dispatches (r : Router) (id : MinerId) (out : Router × Option Job) : Prop where
  queue : r.stagedOf id = r.skipped id ++ out.2.toList ++ out.1.stagedOf id
  capable : ∀ job, out.2 = some job → r.isCapable id job = true
  drained : out.2 = none → 0 < r.creditsOf id → out.1.stagedOf id = []
  others : ∀ m, m ≠ id → out.1.stagedOf m =
    r.stagedOf m ++ (r.skipped id).filter fun k => r.pick k (some id) = some m
  unroutable : out.1.unroutable =
    r.unroutable ++ (r.skipped id).filter fun k => r.pick k (some id) = none
  credits : out.1.creditsOf id + out.2.toList.length = r.creditsOf id
  otherCredits : ∀ m, m ≠ id → out.1.creditsOf m = r.creditsOf m
  capabilities : ∀ m k, out.1.isCapable m k = r.isCapable m k
  registered : ∀ m, m ∈ out.1.miners ↔ m ∈ r.miners
  topology : out.1.topology = r.topology

theorem dispatches_idle {r : Router} {id : MinerId} (hskip : r.skipped id = [])
    (h : r.creditsOf id = 0 ∨ r.stagedOf id = []) : r.Dispatches id (r, none) := by
  refine ⟨?_, ?_, ?_, ?_, ?_, rfl, fun _ _ => rfl, fun _ _ => rfl, fun _ => Iff.rfl, rfl⟩
  · simp [hskip]
  · intro job hj
    cases hj
  · intro _ hpos
    rcases h with h | h
    · omega
    · exact h
  · intro m _
    simp [hskip]
  · simp [hskip]

theorem dispatches_take {r : Router} {id : MinerId} {q : MinerQueue} {job : Job} {rest : List Job}
    (hq : r.miners.lookup id = some q) (hpos : 0 < q.grantedCredits) (hs : q.staged = job :: rest)
    (hc : r.isCapable id job = true) :
    r.Dispatches id ((r.setStaged id rest).spendCredit id, some job) := by
  have hid := Finmap.mem_of_lookup_eq_some hq
  have hskip := skipped_take hq hs hc
  refine ⟨?_, ?_, ?_, ?_, ?_, ?_, ?_, ?_, ?_, rfl⟩
  · rw [hskip, stagedOf_spendCredit, stagedOf_setStaged r hid, if_pos rfl, stagedOf_of_lookup hq, hs]
    rfl
  · intro k hk
    obtain rfl := Option.some.inj hk
    exact hc
  · intro hnone
    cases hnone
  · intro m hm
    rw [hskip, stagedOf_spendCredit, stagedOf_setStaged r hid, if_neg hm, List.filter_nil,
      List.append_nil]
  · rw [hskip, List.filter_nil, List.append_nil]
    rfl
  · have hset : (r.setStaged id rest).miners.lookup id = some { q with staged := rest } := by
      rw [setStaged, lookup_update, if_pos rfl, hq, Option.map_some]
    rw [spendCredit, creditsOf_update_self _ hset, creditsOf_of_lookup hq]
    exact Nat.sub_add_cancel hpos
  · intro m hm
    rw [spendCredit, creditsOf_update_of_ne hm, creditsOf_setStaged]
  · intro m k
    rw [spendCredit, isCapable_update (by intro q; exact ⟨rfl, rfl⟩), isCapable_setStaged]
  · intro m
    rw [spendCredit, mem_update, setStaged, mem_update]

theorem dispatches_skip {r r' : Router} {id : MinerId} {job : Job} {rest : List Job}
    {out : Router × Option Job} (ht : r.TurnsTo r' id job rest)
    (hqueue : r.stagedOf id = job :: rest) (hskip : r.skipped id = job :: r'.skipped id)
    (ih : r'.Dispatches id out) : r.Dispatches id out := by
  have hpick : ∀ k, r'.pick k (some id) = r.pick k (some id) :=
    fun k => pick_congr fun i _ => ht.capable i k
  refine ⟨?_, ?_, ?_, ?_, ?_, ?_, ?_, ?_, ?_, ih.topology.trans ht.topology⟩
  · rw [hqueue, hskip, ← ht.own, ih.queue]
    rfl
  · intro k hk
    rw [← ht.capable]
    exact ih.capable k hk
  · intro hnone hpos
    exact ih.drained hnone (by rwa [ht.credits])
  · intro m hm
    rw [ih.others m hm, ht.others m hm, hskip, List.filter_cons]
    simp only [hpick]
    split_ifs <;> simp_all
  · rw [ih.unroutable, ht.unroutable, hskip, List.filter_cons]
    simp only [hpick]
    split_ifs <;> simp_all
  · rw [ih.credits, ht.credits]
  · intro m hm
    rw [ih.otherCredits m hm, ht.credits]
  · intro m k
    rw [ih.capabilities, ht.capable]
  · intro m
    rw [ih.registered, ht.registered]

theorem dispatches_nextJob (r : Router) (id : MinerId) : r.Dispatches id (r.nextJob id) := by
  apply nextJob_induct (P := fun r out => r.Dispatches id out)
  · intro r h0
    exact dispatches_idle (by rw [skipped, if_pos h0]) (Or.inl h0)
  · intro r h0
    exact dispatches_idle (skipped_of_staged_nil h0) (Or.inr h0)
  · intro r q job rest hq hpos hs hc
    exact dispatches_take hq hpos hs hc
  · intro r q job rest hq hpos hs hc ih
    apply dispatches_skip (turnsTo_skip job rest hq) _ (skipped_skip hq hpos hs hc) ih
    rw [stagedOf_of_lookup hq, hs]

theorem Dispatches.moved {r : Router} {id : MinerId} {out : Router × Option Job}
    (h : r.Dispatches id out) {k : Job} (hk : k ∈ r.skipped id) :
    (∃ m, m ≠ id ∧ m ∈ out.1.miners ∧ out.1.isCapable m k = true ∧ k ∈ out.1.stagedOf m) ∨
      (k ∈ out.1.unroutable ∧ ∀ m, out.1.isCapable m k = false) := by
  cases hp : r.pick k (some id) with
  | some m =>
    left
    obtain ⟨hm, hreg, hc⟩ := pick_eq_some hp
    refine ⟨m, hm, (h.registered m).mpr hreg, by rw [h.capabilities, hc], ?_⟩
    rw [h.others m hm]
    exact List.mem_append_right _ (List.mem_filter.mpr ⟨hk, by simpa using hp⟩)
  | none =>
    right
    refine ⟨?_, fun m => ?_⟩
    · rw [h.unroutable]
      exact List.mem_append_right _ (List.mem_filter.mpr ⟨hk, by simpa using hp⟩)
    · rw [h.capabilities]
      by_cases hm : m = id
      · rw [hm]
        exact isCapable_of_mem_skipped hk
      · exact pick_eq_none hp hm

theorem dispatch_respects_order (r : Router) (id : MinerId) :
    (∀ turns, r.stagedLen id < turns → nextJobTurns id turns r = some (r.nextJob id)) ∧
    (∀ job, (r.nextJob id).2 = some job → ∃ q, (r.nextJob id).1.miners.lookup id = some q ∧
      QuipCoordinator.capable q job (r.nextJob id).1.topology = true) ∧
    ((r.nextJob id).2 = none → 0 < (r.nextJob id).1.creditsOf id →
      (r.nextJob id).1.stagedOf id = []) ∧
    -- the queue is the jobs passed, the job returned and the jobs that remain
    r.stagedOf id = r.skipped id ++ (r.nextJob id).2.toList ++ (r.nextJob id).1.stagedOf id ∧
    (∀ k ∈ r.skipped id, r.isCapable id k = false ∧
      ((∃ m, m ≠ id ∧ m ∈ (r.nextJob id).1.miners ∧ (r.nextJob id).1.isCapable m k = true ∧
          k ∈ (r.nextJob id).1.stagedOf m) ∨
        (k ∈ (r.nextJob id).1.unroutable ∧ ∀ m, (r.nextJob id).1.isCapable m k = false))) ∧
    r.Dispatches id (r.nextJob id) := by
  have h := dispatches_nextJob r id
  refine ⟨fun turns => nextJobTurns_eq, ?_, ?_, h.queue,
    fun k hk => ⟨isCapable_of_mem_skipped hk, h.moved hk⟩, h⟩
  · intro job hj
    have hc := h.capable job hj
    rw [← h.capabilities, isCapable] at hc
    obtain ⟨q, hq, hcap⟩ := (Option.any_eq_true _ _).mp hc
    exact ⟨q, hq, hcap⟩
  · intro hnone hpos
    apply h.drained hnone
    have hcredits := h.credits
    rw [hnone] at hcredits
    simpa using hcredits ▸ hpos

end QuipCoordinator.Router
