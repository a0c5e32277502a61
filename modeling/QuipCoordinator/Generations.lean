import QuipCoordinator.InflightLedger

/-!
# Live jobs belong to the current generation

Every live job is a mempool order of generation 0 or a proof-of-work job of the
generation the feeder is in. A cancel drops the proof-of-work jobs of the
generation that ends, from the queues and from the in-flight ledger alike, so no
path that re-routes a job can bring one back.
-/

namespace QuipCoordinator

/-- A mempool order, or a proof-of-work job of generation `g`. -/
def Job.Current (g : Nat) (job : Job) : Prop :=
  (job.isOrder = true ∧ job.isPow = false ∧ job.generation = 0 ∧ job.generator = none) ∨
    (job.isPow = true ∧ job.generation = g ∧ 0 < g)

theorem Job.Current.generation {g : Nat} {job : Job} (h : job.Current g) :
    job.generation = 0 ∨ job.generation = g := by
  rcases h with ⟨-, -, h, -⟩ | ⟨-, h, -⟩
  · exact Or.inl h
  · exact Or.inr h

theorem satAdd_one_ge {w g : Nat} (h : g < 2 ^ w) : g ≤ satAdd w g 1 := by
  rw [satAdd]
  omega

theorem satAdd_lt (w a b : Nat) : satAdd w a b < 2 ^ w := by
  have hpos : 0 < 2 ^ w := Nat.two_pow_pos w
  rw [satAdd]
  omega

namespace World
variable [Crates]
open CoordinatorState

structure RoundInv (w : World) : Prop where
  feeder : w.coord.generation = w.generation
  bound : w.generation < 2 ^ 64
  seeded : w.seed ≠ none → 0 < w.generation
  live : ∀ job, w.coord.Live job → job.Current w.generation

omit [Crates] in
theorem roundInv_init : RoundInv World.init where
  feeder := rfl
  bound := Nat.two_pow_pos 64
  seeded := fun h => absurd rfl h
  live := fun job h => absurd h (not_live_new job)

omit [Crates] in
/-- What survives the cancel of a round is an order, or the counter is stuck at its maximum. -/
theorem current_of_keepsUnder {g : Nat} (hg : g < 2 ^ 64) {job : Job} (h : job.Current g)
    (hk : Router.keepsUnder (satAdd 64 g 1 - 1) job = true) : job.Current (satAdd 64 g 1) := by
  rcases h with h | ⟨hpow, hgen, hpos⟩
  · exact Or.inl h
  · have hle := satAdd_one_ge hg
    have hcases : job.generation = 0 ∨ satAdd 64 g 1 - 1 < job.generation := by
      simpa [Router.keepsUnder] using hk
    have heq : g = satAdd 64 g 1 := by omega
    exact Or.inr ⟨hpow, hgen.trans heq, heq ▸ hpos⟩

theorem roundInv_topUp (params : FeederParams) {w : World} (h : w.RoundInv)
    (hseed : w.seed ≠ none) (snap : MiningSnapshot) (plans : List Plan) :
    let s := w.toStaging.topUp params snap plans
    s.coord.generation = s.generation ∧ s.generation = w.generation ∧
      ∀ job, s.coord.Live job → job.Current w.generation := by
  have hpos := h.seeded hseed
  refine Staging.topUp_induct (P := fun s => s.coord.generation = s.generation ∧
    s.generation = w.generation ∧ ∀ job, s.coord.Live job → job.Current w.generation)
    ?_ ?_ ?_ ?_ plans ⟨h.feeder, rfl, h.live⟩
  · exact fun s n hs => hs
  · intro s r hex hr _
    obtain ⟨hc, hg, hl⟩ := hex
    exact ⟨hc, hg, fun job hj => hl job ((Moves.of_queues s.coord hr).live job hj)⟩
  · intro s id job r n start count hex hjob hst
    obtain ⟨hc, hg, hl⟩ := hex
    refine ⟨hc, hg, fun k hk => ?_⟩
    rcases live_stageOn s.coord hst hk with hk | rfl
    · exact hl k hk
    · obtain ⟨-, hpow, hgen⟩ :=
        buildLeaseJob_shape snap params.minerIdentity start count s.generation
      rw [← hjob] at hpow hgen
      exact Or.inr ⟨hpow, hgen.trans hg, hpos⟩
  · intro s id job r n salt hex hjob hst
    obtain ⟨hc, hg, hl⟩ := hex
    refine ⟨hc, hg, fun k hk => ?_⟩
    rcases live_stageOn s.coord hst hk with hk | rfl
    · exact hl k hk
    · obtain ⟨-, hpow, hgen, -⟩ := derivePowJob_shape hjob
      exact Or.inr ⟨hpow, hgen.trans hg, hpos⟩

theorem roundInv_next (params : FeederParams) {w : World} {e : Section} (h : w.RoundInv)
    (ha : w.Allowed e) : (w.next params e).RoundInv := by
  cases hf : e.feeds with
  | false =>
    have hk := next_keeps params w hf
    rw [next_eq_update params w hf]
    exact ⟨hk.generation.trans h.feeder, h.bound, h.seeded, fun job hj => h.live job (hk.live job hj)⟩
  | true =>
    cases e with
    | stopMining =>
      refine ⟨rfl, satAdd_lt 64 _ _, fun hs => absurd rfl hs, fun job hj => ?_⟩
      obtain ⟨hl, hk⟩ := live_stopMining hj
      exact current_of_keepsUnder h.bound (h.live job hl) hk
    | reseed snap q d => exact ⟨h.feeder, h.bound, fun _ => ha.2, h.live⟩
    | topUp snap plans =>
      have hseed : w.seed ≠ none := by
        intro hn
        have hhead := ha.1
        rw [hn] at hhead
        exact absurd hhead (by simp)
      obtain ⟨hc, hg, hl⟩ := roundInv_topUp params h hseed snap plans
      refine ⟨hc, hg.symm ▸ h.bound, fun _ => hg.symm ▸ h.seeded hseed, fun job hj => ?_⟩
      exact hg.symm ▸ hl job hj
    | stageMempoolOrders orders =>
      obtain ⟨hl, r, m, he⟩ := stageMempoolOrders_spec orders w.coord
      refine ⟨?_, h.bound, h.seeded, fun job hj => ?_⟩
      · change (w.coord.stageMempoolOrders orders).generation = _
        rw [he]
        exact h.feeder
      · rcases hl job hj with hlive | ⟨order, -, ho⟩
        · exact h.live job hlive
        · obtain ⟨-, hpow, hord, hgen, hnone, -⟩ := jobOrderToJob_shape ho
          exact Or.inl ⟨hord, hpow, hgen, hnone⟩
    | _ => exact absurd hf Bool.noConfusion

theorem roundInv_reachable {params : FeederParams} {w : World}
    (h : (coordinatorMachine params).Reachable w) : w.RoundInv :=
  h.invariant (I := RoundInv) roundInv_init fun _ _ _ hi ha => roundInv_next params hi ha

theorem generation_topUp (params : FeederParams) (s : Staging) (snap : MiningSnapshot)
    (plans : List Plan) : (s.topUp params snap plans).generation = s.generation := by
  obtain ⟨router, salts, saltCtr, draws, he⟩ := s.topUp_eq params snap plans
  rw [he]

theorem generation_le_next (params : FeederParams) {w : World} (h : w.RoundInv) (e : Section) :
    w.generation ≤ (w.next params e).generation := by
  cases e with
  | stopMining => exact satAdd_one_ge h.bound
  | topUp snap plans => exact (generation_topUp params w.toStaging snap plans).ge
  | _ => exact le_rfl

omit [Crates] in
theorem taken_job (st : CoordinatorState) (minerId : MinerId) (jobId : JobId) :
    (st.takeResult minerId jobId).2.job = st.inflight.lookup jobId := by
  rw [taken_eq]

theorem plainOutcome_job {taken : Taken} {minerId : MinerId} {result : ResultFrame}
    {o : PowOutcome} (h : plainOutcome taken minerId result = some o) :
    taken.job = some o.job ∧ o.job.isOrder = false ∧ o.jobId = result.jobId ∧
      o.salt = taken.salt ∧ o.currentBestMilli = taken.best ∧
      ∃ ising, o.job.ising = some ising ∧
        o.validated = validateResult ising result.solutions taken.gates taken.topo := by
  obtain ⟨job, hjob, h⟩ := Option.bind_eq_some_iff.mp h
  split_ifs at h with ho
  obtain ⟨ising, hi, h⟩ := Option.bind_eq_some_iff.mp h
  simp only [Option.pure_def, Option.some.injEq] at h
  subst h
  exact ⟨hjob, by simpa using ho, rfl, rfl, rfl, ising, hi, rfl⟩

theorem leaseOutcome_job {st : CoordinatorState} {minerId : MinerId} {result : ResultFrame}
    {o : PowOutcome} (h : st.leaseOutcome minerId result = some o) :
    st.inflight.lookup result.jobId = some o.job ∧ o.job.generator ≠ none ∧
      o.currentBestMilli = st.currentBestMilli := by
  obtain ⟨job, hjob, h⟩ := Option.bind_eq_some_iff.mp h
  obtain ⟨gen, hgen, h⟩ := Option.bind_eq_some_iff.mp h
  obtain ⟨view, -, h⟩ := Option.bind_eq_some_iff.mp h
  obtain ⟨target, -, h⟩ := Option.bind_eq_some_iff.mp h
  split_ifs at h
  obtain ⟨⟨verified, validated⟩, -, h⟩ := Option.bind_eq_some_iff.mp h
  simp only [Option.pure_def, Option.some.injEq] at h
  subst h
  exact ⟨hjob, by simp [hgen], rfl⟩

theorem RoundInv.outcome {w : World} (h : w.RoundInv) {minerId : MinerId} {result : ResultFrame}
    {o : PowOutcome}
    (ho : plainOutcome (w.coord.takeResult minerId result.jobId).2 minerId result = some o ∨
      w.coord.leaseOutcome minerId result = some o) :
    o.job.isPow = true ∧ o.job.generation = w.coord.generation := by
  rw [h.feeder]
  rcases ho with ho | ho
  · obtain ⟨hjob, hord, -⟩ := plainOutcome_job ho
    rw [taken_job] at hjob
    rcases h.live o.job (Or.inr ⟨_, hjob⟩) with ⟨hord', -⟩ | ⟨hpow, hgen, -⟩
    · exact absurd (hord.symm.trans hord') Bool.noConfusion
    · exact ⟨hpow, hgen⟩
  · obtain ⟨hjob, hgen, -⟩ := leaseOutcome_job ho
    rcases h.live o.job (Or.inr ⟨_, hjob⟩) with ⟨-, -, -, hnone⟩ | ⟨hpow, hgen, -⟩
    · exact absurd hnone hgen
    · exact ⟨hpow, hgen⟩

end World

section
variable [Crates]

/-- Every live job has generation 0 or the current one. So a job of an earlier round is in no
entry a `Result` can find, and what a session scores, submits or stashes belongs to the round
in which it took the job. -/
theorem live_jobs_have_current_generation (params : FeederParams) {w : World}
    (h : (coordinatorMachine params).Reachable w) :
    (∀ minerId, ∀ job ∈ w.coord.router.stagedOf minerId,
      job.generation = 0 ∨ job.generation = w.coord.generation) ∧
    (∀ id job, w.coord.inflight.lookup id = some job →
      job.generation = 0 ∨ job.generation = w.coord.generation) ∧
    (∀ job : Job, 0 < job.generation → job.generation < w.coord.generation →
      ∀ id, w.coord.inflight.lookup id ≠ some job) ∧
    ∀ minerId result o,
      (plainOutcome (w.coord.takeResult minerId result.jobId).2 minerId result = some o ∨
        w.coord.leaseOutcome minerId result = some o) →
      o.proof.generation = w.coord.generation ∧ o.candidate.generation = w.coord.generation := by
  have hr := World.roundInv_reachable h
  have hlive : ∀ job, w.coord.Live job →
      job.generation = 0 ∨ job.generation = w.coord.generation := by
    intro job hj
    rw [hr.feeder]
    exact (hr.live job hj).generation
  refine ⟨fun m job hj => hlive job (Or.inl ⟨m, hj⟩), fun id job hj => hlive job (Or.inr ⟨id, hj⟩),
    ?_, ?_⟩
  · intro job hpos hlt id hid
    rcases hlive job (Or.inr ⟨id, hid⟩) with h0 | h0 <;> omega
  · intro minerId result o ho
    obtain ⟨-, hgen⟩ := hr.outcome ho
    exact ⟨hgen, hgen⟩

end

open Sample in
theorem live_jobs_have_current_generation_sample :
    let before := (coordinatorMachine params).run .init (start ++ [.dispatchGranted "a" 1 0])
    let w := (coordinatorMachine params).run .init
      (start ++ [.dispatchGranted "a" 1 0, .stopMining])
    ∃ job, before.coord.inflight.lookup jobId = some job ∧ 0 < job.generation ∧
      job.generation < w.coord.generation ∧ ∀ id, w.coord.inflight.lookup id ≠ some job := by
  have hw := live_jobs_have_current_generation params (Machine.reachable_run
    (M := coordinatorMachine params) (start ++ [.dispatchGranted "a" 1 0, .stopMining])
    (by decide +kernel))
  have hjob : (((coordinatorMachine params).run .init
      (start ++ [.dispatchGranted "a" 1 0])).coord.inflight.lookup jobId).map (·.generation) =
      some 1 := by decide +kernel
  obtain ⟨job, hl, hgen⟩ := Option.map_eq_some_iff.mp hjob
  have hlt : job.generation < ((coordinatorMachine params).run .init
      (start ++ [.dispatchGranted "a" 1 0, .stopMining])).coord.generation := by
    rw [hgen]
    decide +kernel
  exact ⟨job, hl, by omega, hlt, hw.2.2.1 job (by omega) hlt⟩

end QuipCoordinator
