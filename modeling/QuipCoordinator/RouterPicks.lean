import QuipCoordinator.LiveJobs

/-!
# Which queues a routing fills

The router picks a miner by capabilities alone, so moving jobs between the queues
changes no later pick. `reroutes` are the jobs that a drain routes away: those the
miner cannot take, in front of the last job its credits pay for. A job that a
drain, a reject or a requeue leaves in a queue was there, or the queue is its pick.
-/

namespace QuipCoordinator
namespace Router

theorem isCapable_update {f : MinerQueue → MinerQueue}
    (hf : ∀ q, (f q).caps = q.caps ∧ (f q).unsupportedKinds = q.unsupportedKinds) (r : Router)
    (id id' : MinerId) (job : Job) : (r.update id f).isCapable id' job = r.isCapable id' job := by
  rw [isCapable, lookup_update, isCapable]
  split_ifs with h
  · cases r.miners.lookup id' with
    | none => rfl
    | some q =>
      obtain ⟨hc, hu⟩ := hf q
      simp only [Option.map_some, Option.any_some, capable, hc, hu, update]
  · rfl

theorem isCapable_setStaged (r : Router) (id : MinerId) (jobs : List Job) (id' : MinerId)
    (job : Job) : (r.setStaged id jobs).isCapable id' job = r.isCapable id' job :=
  isCapable_update (by intro q; exact ⟨rfl, rfl⟩) r id id' job

theorem isCapable_routeExcluding (r : Router) (job : Job) (exclude : Option MinerId)
    (id : MinerId) (k : Job) :
    (r.routeExcluding job exclude).1.isCapable id k = r.isCapable id k := by
  rcases routeExcluding_cases r job exclude with ⟨i, -, -, -, h⟩ | ⟨-, h⟩ <;> rw [h]
  · exact isCapable_update (by intro q; exact ⟨rfl, rfl⟩) r i id k
  · rfl

def pick (r : Router) (job : Job) (exclude : Option MinerId) : Option MinerId :=
  (r.routeExcluding job exclude).2

theorem mem_candidates {r : Router} {job : Job} {exclude : Option MinerId} {id : MinerId} :
    id ∈ r.candidates job exclude ↔ exclude ≠ some id ∧ r.isCapable id job = true := by
  rw [candidates, Finset.mem_filter, Finmap.mem_keys]
  exact ⟨And.right, fun h => ⟨isCapable_mem h.2, h⟩⟩

theorem pick_congr {r r' : Router} {job : Job} {exclude : Option MinerId}
    (h : ∀ id, exclude ≠ some id → r'.isCapable id job = r.isCapable id job) :
    r'.pick job exclude = r.pick job exclude := by
  have hcand : r'.candidates job exclude = r.candidates job exclude := by
    ext id
    rw [mem_candidates, mem_candidates]
    refine and_congr_right fun hne => ?_
    rw [h id hne]
  have hpick : ∀ r : Router, r.pick job exclude =
      if h : (r.candidates job exclude).Nonempty then some ((r.candidates job exclude).min' h)
      else none := by
    intro r
    rw [pick, routeExcluding]
    split_ifs <;> rfl
  rw [hpick, hpick]
  simp only [hcand]

theorem stagedOf_routeExcluding (r : Router) (job : Job) (exclude : Option MinerId)
    (id : MinerId) : (r.routeExcluding job exclude).1.stagedOf id =
      if r.pick job exclude = some id then r.stagedOf id ++ [job] else r.stagedOf id := by
  rw [pick]
  rcases routeExcluding_cases r job exclude with ⟨i, hi, -, -, h⟩ | ⟨-, h⟩ <;> rw [h]
  · rw [stagedOf_pushStaged r hi job id]
    by_cases hid : id = i
    · rw [if_pos hid, if_pos (congrArg some hid.symm)]
    · rw [if_neg hid, if_neg fun he => hid (Option.some.inj he).symm]
  · rfl

theorem mem_routed {r : Router} {job k : Job} {exclude : Option MinerId} {id : MinerId}
    (h : k ∈ (r.routeExcluding job exclude).1.stagedOf id) :
    k ∈ r.stagedOf id ∨ k = job ∧ r.pick job exclude = some id := by
  rw [stagedOf_routeExcluding] at h
  split_ifs at h with hp
  · rcases List.mem_append.mp h with hold | hnew
    · exact Or.inl hold
    · exact Or.inr ⟨List.mem_singleton.mp hnew, hp⟩
  · exact Or.inl h

theorem mem_foldl_route {id : MinerId} {k : Job} (jobs : List Job) {r : Router}
    (h : k ∈ (jobs.foldl (fun r job => (r.route job).1) r).stagedOf id) :
    k ∈ r.stagedOf id ∨ k ∈ jobs ∧ r.pick k none = some id := by
  induction jobs generalizing r with
  | nil => exact Or.inl h
  | cons job jobs ih =>
    rcases ih h with hold | ⟨hk, hp⟩
    · rcases mem_routed hold with hold | ⟨rfl, hp⟩
      · exact Or.inl hold
      · exact Or.inr ⟨List.mem_cons_self, hp⟩
    · have hpick : (r.routeExcluding job none).1.pick k none = some id := hp
      rw [pick_congr fun i _ => isCapable_routeExcluding r job none i k] at hpick
      exact Or.inr ⟨List.mem_cons_of_mem _ hk, hpick⟩

theorem mem_rerouted {r : Router} {id id' : MinerId} {job k : Job} {reason : RejectReason}
    (h : k ∈ (r.onReject id job reason).stagedOf id') :
    k ∈ r.stagedOf id' ∨ k = job ∧ r.pick job (some id) = some id' := by
  rw [onReject_eq] at h
  rcases mem_routed h with hold | ⟨hk, hp⟩
  · rw [stagedOf_marked] at hold
    exact Or.inl hold
  · -- the mark is on the miner that is excluded
    have hcap : ∀ i, some id ≠ some i → (r.marked id job reason).isCapable i job =
        r.isCapable i job := by
      intro i hi
      have hne : i ≠ id := fun he => hi (congrArg some he.symm)
      rw [marked]
      split_ifs
      · rw [isCapable, lookup_update, if_neg hne]
        rfl
      · rfl
    rw [pick_congr hcap] at hp
    exact Or.inr ⟨hk, hp⟩

/-- The jobs a queue gives up unsolved while `credits` pay for the ones that can be taken. -/
def givenUp (takes : Job → Bool) : Nat → List Job → List Job
  | 0, _ => []
  | _, [] => []
  | credits + 1, job :: jobs =>
    if takes job then givenUp takes credits jobs else job :: givenUp takes (credits + 1) jobs

def reroutes (r : Router) (id : MinerId) : List Job :=
  givenUp (fun job => r.isCapable id job) (r.creditsOf id) (r.stagedOf id)

theorem mem_stagedOf_popped {r : Router} {id m : MinerId} {q : MinerQueue} {job k : Job}
    {rest : List Job} (hq : r.miners.lookup id = some q) (hs : q.staged = job :: rest)
    (h : k ∈ (r.setStaged id rest).stagedOf m) : k ∈ r.stagedOf m := by
  rw [stagedOf_setStaged r (Finmap.mem_of_lookup_eq_some hq)] at h
  split_ifs at h with hm
  · rw [hm, stagedOf_of_lookup hq, hs]
    exact List.mem_cons_of_mem _ h
  · exact h

theorem reroutes_take {r : Router} {id : MinerId} {q : MinerQueue} {job : Job} {rest : List Job}
    (hq : r.miners.lookup id = some q) (hpos : 0 < q.grantedCredits) (hs : q.staged = job :: rest)
    (hc : r.isCapable id job = true) :
    ((r.setStaged id rest).spendCredit id).reroutes id = r.reroutes id := by
  have hid := Finmap.mem_of_lookup_eq_some hq
  have hcap : ∀ k, ((r.setStaged id rest).spendCredit id).isCapable id k = r.isCapable id k := by
    intro k
    rw [spendCredit, isCapable_update (by intro q; exact ⟨rfl, rfl⟩), isCapable_setStaged]
  have hcred : ((r.setStaged id rest).spendCredit id).creditsOf id = q.grantedCredits - 1 := by
    have hset : (r.setStaged id rest).miners.lookup id = some { q with staged := rest } := by
      rw [setStaged, lookup_update, if_pos rfl, hq, Option.map_some]
    rw [spendCredit, creditsOf_update_self _ hset]
  obtain ⟨n, hn⟩ : ∃ n, q.grantedCredits = n + 1 := ⟨q.grantedCredits - 1, by omega⟩
  rw [reroutes, reroutes, hcred, stagedOf_spendCredit, stagedOf_setStaged r hid, if_pos rfl,
    creditsOf_of_lookup hq, stagedOf_of_lookup hq, hs, hn, givenUp]
  simp only [hcap, hc, if_true, Nat.add_sub_cancel]

theorem reroutes_skip {r : Router} {id : MinerId} {q : MinerQueue} {job : Job} {rest : List Job}
    (hq : r.miners.lookup id = some q) (hpos : 0 < q.grantedCredits) (hs : q.staged = job :: rest)
    (hc : r.isCapable id job = false) :
    r.reroutes id =
      job :: ((r.setStaged id rest).routeExcluding job (some id)).1.reroutes id := by
  have hid := Finmap.mem_of_lookup_eq_some hq
  have hcap : ∀ k, ((r.setStaged id rest).routeExcluding job (some id)).1.isCapable id k =
      r.isCapable id k := by
    intro k
    rw [isCapable_routeExcluding, isCapable_setStaged]
  obtain ⟨n, hn⟩ : ∃ n, q.grantedCredits = n + 1 := ⟨q.grantedCredits - 1, by omega⟩
  rw [reroutes, reroutes, stagedOf_routeExcluding_self, stagedOf_setStaged r hid, if_pos rfl,
    creditsOf_routeExcluding, creditsOf_setStaged, creditsOf_of_lookup hq, stagedOf_of_lookup hq, hs,
    hn, givenUp]
  simp only [hcap, hc, Bool.false_eq_true, if_false]

/-- What a dispatch leaves: a job that is new in a queue is one it routed away, the jobs it will
still route away are among those, and no capability changes. -/
theorem nextJob_fills (r : Router) (id : MinerId) :
    (∀ m k, k ∈ (r.nextJob id).1.stagedOf m →
      k ∈ r.stagedOf m ∨ k ∈ r.reroutes id ∧ r.pick k (some id) = some m) ∧
      (∀ job ∈ (r.nextJob id).1.reroutes id, job ∈ r.reroutes id) ∧
      ∀ m job, (r.nextJob id).1.isCapable m job = r.isCapable m job := by
  refine nextJobLoop_induct (P := fun r out =>
    (∀ m k, k ∈ out.1.stagedOf m →
      k ∈ r.stagedOf m ∨ k ∈ r.reroutes id ∧ r.pick k (some id) = some m) ∧
      (∀ job ∈ out.1.reroutes id, job ∈ r.reroutes id) ∧
      ∀ m job, out.1.isCapable m job = r.isCapable m job) ?_ ?_ ?_ _ r
  · intro r
    exact ⟨fun m k h => Or.inl h, fun job h => h, fun m job => rfl⟩
  · intro r q job rest hq hpos hs hc
    rw [isCapable_setStaged] at hc
    refine ⟨?_, ?_, ?_⟩
    · intro m k h
      rw [stagedOf_spendCredit] at h
      exact Or.inl (mem_stagedOf_popped hq hs h)
    · rw [reroutes_take hq hpos hs hc]
      exact fun job h => h
    · intro m k
      rw [spendCredit, isCapable_update (by intro q; exact ⟨rfl, rfl⟩), isCapable_setStaged]
  · intro r q job rest out hq hpos hs hc ih
    rw [isCapable_setStaged] at hc
    have hcap : ∀ m k, ((r.setStaged id rest).routeExcluding job (some id)).1.isCapable m k =
        r.isCapable m k := by
      intro m k
      rw [isCapable_routeExcluding, isCapable_setStaged]
    rw [reroutes_skip hq hpos hs hc]
    refine ⟨?_, ?_, ?_⟩
    · intro m k h
      rcases ih.1 m k h with hold | ⟨hk, hp⟩
      · rcases mem_routed hold with hold | ⟨rfl, hp⟩
        · exact Or.inl (mem_stagedOf_popped hq hs hold)
        · rw [pick_congr fun i _ => isCapable_setStaged r id rest i k] at hp
          exact Or.inr ⟨List.mem_cons_self, hp⟩
      · rw [pick_congr fun i _ => hcap i k] at hp
        exact Or.inr ⟨List.mem_cons_of_mem _ hk, hp⟩
    · exact fun k hk => List.mem_cons_of_mem _ (ih.2.1 k hk)
    · exact fun m k => (ih.2.2 m k).trans (hcap m k)

theorem nextJob_induct {id : MinerId} {P : Router → Router × Option Job → Prop}
    (broke : ∀ r, r.creditsOf id = 0 → P r (r, none))
    (empty : ∀ r, r.stagedOf id = [] → P r (r, none))
    (take : ∀ r q job rest, r.miners.lookup id = some q → 0 < q.grantedCredits →
      q.staged = job :: rest → r.isCapable id job = true →
      P r ((r.setStaged id rest).spendCredit id, some job))
    (skip : ∀ r q job rest, r.miners.lookup id = some q → 0 < q.grantedCredits →
      q.staged = job :: rest → r.isCapable id job = false →
      P ((r.setStaged id rest).routeExcluding job (some id)).1
        (nextJob ((r.setStaged id rest).routeExcluding job (some id)).1 id) →
      P r (nextJob ((r.setStaged id rest).routeExcluding job (some id)).1 id))
    (r : Router) : P r (r.nextJob id) := by
  obtain ⟨n, hn⟩ : ∃ n, r.stagedLen id = n := ⟨_, rfl⟩
  induction n generalizing r with
  | zero =>
    have hnil : r.stagedOf id = [] := List.length_eq_zero_iff.mp hn
    rw [nextJob_eq]
    cases hq : r.miners.lookup id with
    | none => exact empty r hnil
    | some q =>
      have hs : q.staged = [] := by rw [← stagedOf_of_lookup hq, hnil]
      simp only [hs, ite_self]
      exact empty r hnil
  | succ n ih =>
    rw [nextJob_eq]
    cases hq : r.miners.lookup id with
    | none => exact broke r (by rw [creditsOf, hq]; rfl)
    | some q =>
      dsimp only
      split_ifs with h0
      · exact broke r (by rw [creditsOf_of_lookup hq, h0])
      · have hpos : 0 < q.grantedCredits := Nat.pos_of_ne_zero h0
        cases hs : q.staged with
        | nil => exact empty r (by rw [stagedOf_of_lookup hq, hs])
        | cons job rest =>
          have hlen := stagedLen_skip hq hs
          dsimp only
          split_ifs with hc
          · exact take r q job rest hq hpos hs (by rwa [isCapable_setStaged] at hc)
          · rw [isCapable_setStaged] at hc
            exact skip r q job rest hq hpos hs (by simpa using hc) (ih _ (by omega))

theorem nextJob_none {r : Router} {id : MinerId} (h : (r.nextJob id).2 = none) :
    (r.nextJob id).1.creditsOf id = 0 ∨ (r.nextJob id).1.stagedOf id = [] := by
  refine nextJob_induct (P := fun _ out => out.2 = none →
    out.1.creditsOf id = 0 ∨ out.1.stagedOf id = []) ?_ ?_ ?_ ?_ r h
  · exact fun r h0 _ => Or.inl h0
  · exact fun r h0 _ => Or.inr h0
  · intro r q job rest _ _ _ _ h
    cases h
  · exact fun r q job rest _ _ _ _ ih => ih

end Router

namespace CoordinatorState

theorem drain_fills {minerId : MinerId} (now fuel : Nat) {st : CoordinatorState} {m : MinerId}
    {k : Job} (h : k ∈ (drain minerId now fuel st).1.router.stagedOf m) :
    k ∈ st.router.stagedOf m ∨
      k ∈ st.router.reroutes minerId ∧ st.router.pick k (some minerId) = some m := by
  refine drain_induct (P := fun st out => k ∈ out.1.router.stagedOf m → k ∈ st.router.stagedOf m ∨
    k ∈ st.router.reroutes minerId ∧ st.router.pick k (some minerId) = some m) ?_ ?_ ?_ fuel st h
  · exact fun st h => Or.inl h
  · intro st r hnext h
    have hfills := (st.router.nextJob_fills minerId).1 m k
    rw [hnext] at hfills
    exact hfills h
  · intro st r job out hnext ih h
    obtain ⟨hfills, hsub, hcap⟩ := st.router.nextJob_fills minerId
    rw [hnext] at hfills hsub hcap
    rcases ih h with hold | ⟨hk, hp⟩
    · exact hfills m k hold
    · have hpick : r.pick k (some minerId) = some m := hp
      rw [Router.pick_congr fun i _ => hcap i k] at hpick
      exact Or.inr ⟨hsub k hk, hpick⟩

theorem drain_credits_of_ne {minerId : MinerId} (now fuel : Nat) (st : CoordinatorState)
    {m : MinerId} (hm : m ≠ minerId) :
    (drain minerId now fuel st).1.router.creditsOf m = st.router.creditsOf m := by
  refine drain_induct (P := fun st out => out.1.router.creditsOf m = st.router.creditsOf m)
    ?_ ?_ ?_ fuel st
  · exact fun st => rfl
  · intro st r hnext
    have hc := (st.router.nextJob_credits minerId).2.1 m hm
    rwa [hnext] at hc
  · intro st r job out hnext ih
    have hc := (st.router.nextJob_credits minerId).2.1 m hm
    rw [hnext] at hc
    exact ih.trans hc

/-- A drain with a turn for every credit leaves its miner no credit or no job. -/
theorem drain_spent {minerId : MinerId} {now fuel : Nat} {st : CoordinatorState}
    (h : st.router.creditsOf minerId ≤ fuel) :
    (drain minerId now fuel st).1.router.creditsOf minerId = 0 ∨
      (drain minerId now fuel st).1.router.stagedOf minerId = [] := by
  induction fuel generalizing st with
  | zero => exact Or.inl (Nat.le_zero.mp h)
  | succ fuel ih =>
    rw [drain]
    rcases hnext : st.router.nextJob minerId with ⟨r, _ | job⟩
    · have hnone := Router.nextJob_none (congrArg Prod.snd hnext)
      rw [hnext] at hnone
      exact hnone
    · have hc := (st.router.nextJob_credits minerId).1
      rw [hnext] at hc
      refine ih ?_
      change r.creditsOf minerId ≤ fuel
      change r.creditsOf minerId + 1 = _ at hc
      omega

end CoordinatorState
end QuipCoordinator
