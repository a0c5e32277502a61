import QuipCoordinator.Generations
import QuipCoordinator.SectionFrames

/-!
# The salt ledger

Every live proof-of-work job with its own problem should have its salt on
record, since a proof needs it. The `Result` arm takes the salt of whatever id a
frame names, in flight or not. A frame that comes after its job was reclaimed
and staged again takes the salt of a job that will be mined again. Without such
a frame the ledger is complete.
-/

namespace QuipCoordinator
namespace CoordinatorState

theorem salts_takeResult (st : CoordinatorState) (minerId : MinerId) (jobId : JobId) :
    (st.takeResult minerId jobId).1.salts = st.salts.erase jobId ∧
      (st.takeResult minerId jobId).2.salt = st.salts.lookup jobId := by
  obtain ⟨router, mined, -, he⟩ := st.takeResult_eq minerId jobId
  rw [he, taken_eq]
  exact ⟨rfl, rfl⟩

theorem live_takeResult {st : CoordinatorState} (h : st.Agrees) {minerId : MinerId} {jobId : JobId}
    {job : Job} (hl : (st.takeResult minerId jobId).1.Live job) :
    st.router.Staged job ∨ job.jobId ≠ jobId := by
  have hq : (st.takeResult minerId jobId).1.inflight = st.inflight.erase jobId ∧
      ∀ id, (st.takeResult minerId jobId).1.router.stagedOf id = st.router.stagedOf id := by
    obtain ⟨router, mined, hr, he⟩ := st.takeResult_eq minerId jobId
    rw [he]
    exact ⟨rfl, fun id => (hr id).1⟩
  rcases hl with hs | ⟨id, hf⟩
  · exact Or.inl ((Router.staged_congr hq.2 job).mp hs)
  · rw [hq.1, Finmap.lookup_erase_eq] at hf
    split_ifs at hf with hid
    exact Or.inr (h.keyed id job hf ▸ hid)

end CoordinatorState

section
variable [Crates]
open Crates CoordinatorState

/-- A job is a function of its nonce, so two salts of one nonce derive one job. -/
theorem derivePowJob_congr {snap : MiningSnapshot} {identity salt salt' : Bytes32} (g d : Nat)
    (h : deriveNonce snap.lastProofBlockHash identity salt =
      deriveNonce snap.lastProofBlockHash identity salt') :
    derivePowJob snap identity salt g d = derivePowJob snap identity salt' g d := by
  rw [derivePowJob, derivePowJob, h]

namespace World

def DrawnFrom (params : FeederParams) (w : World) (job : Job) (salt : Bytes32) : Prop :=
  ∃ snap, ⟨job, snap⟩ ∈ w.drawn ∧
    derivePowJob snap params.minerIdentity salt job.generation 0 = some job

/-- Every live plain proof-of-work job has the salt of its nonce on record. -/
def SaltLedger (params : FeederParams) (w : World) : Prop :=
  ∀ job, w.coord.Live job → job.PlainPow →
    ∃ salt, w.coord.salts.lookup job.jobId = some salt ∧ w.DrawnFrom params job salt

/-- No `Result` names a plain proof-of-work job that is staged, and the generation counter is
not at its maximum. -/
def SaltsSafe (w : World) : Section → Prop
  | .takeResult _ jobId => ∀ minerId ∈ w.coord.router.miners.keys,
      ∀ job ∈ w.coord.router.stagedOf minerId, job.PlainPow → job.jobId ≠ jobId
  | .stopMining => w.generation + 1 < 2 ^ 64
  | _ => True

instance (w : World) : (e : Section) → Decidable (w.SaltsSafe e)
  | .takeResult _ jobId => inferInstanceAs (Decidable (∀ minerId ∈ w.coord.router.miners.keys,
      ∀ job ∈ w.coord.router.stagedOf minerId, job.PlainPow → job.jobId ≠ jobId))
  | .stopMining => inferInstanceAs (Decidable (w.generation + 1 < 2 ^ 64))
  | .registerMiner _ _ | .registerOutbound _ _ | .registerWakeup _ _ | .deregisterOutbound _
  | .applyCapabilities _ _ | .dispatchGranted _ _ _ | .noteResult _ | .recordBest _ | .settle _ _
  | .rejectJob _ _ _ | .handleLeaseDone _ _ | .childExit _ _ | .forgetOrder _ | .reseed _ _ _
  | .topUp _ _ | .stageMempoolOrders _ | .winSuccess _ | .markSubmitted _ => .isTrue trivial

/-- The ledger with the hash the salts go with: that of the seed. -/
structure SaltInv (params : FeederParams) (w : World) : Prop where
  stopped : w.seed = none → ∀ job, w.coord.Live job → ¬ job.PlainPow
  salted : ∀ job, w.coord.Live job → job.PlainPow → ∃ salt snap,
    w.coord.salts.lookup job.jobId = some salt ∧ ⟨job, snap⟩ ∈ w.drawn ∧
      w.seed.map (·.lastProofBlockHash) = some snap.lastProofBlockHash ∧
      derivePowJob snap params.minerIdentity salt job.generation 0 = some job

theorem SaltInv.ledger {params : FeederParams} {w : World} (h : w.SaltInv params) :
    w.SaltLedger params := by
  intro job hj hp
  obtain ⟨salt, snap, hs, hd, -, hder⟩ := h.salted job hj hp
  exact ⟨salt, hs, snap, hd, hder⟩

theorem saltInv_init (params : FeederParams) : World.init.SaltInv params where
  stopped := fun _ job h => absurd h (not_live_new job)
  salted := fun job h => absurd h (not_live_new job)

theorem salts_next (params : FeederParams) (w : World) {e : Section} (h : e.feeds = false)
    (ht : ∀ minerId jobId, e ≠ .takeResult minerId jobId) :
    (w.next params e).coord.salts = w.coord.salts := by
  cases hsh : e.shuffles with
  | true => exact of_rest (·.salts) (fun _ => rfl) (rest_next params w hsh)
  | false =>
    cases e with
    | takeResult minerId jobId => exact absurd rfl (ht minerId jobId)
    | childExit minerId owned =>
      change (w.coord.childExit minerId owned).rest.salts = _
      rw [rest_childExit]
      rfl
    | settle o retain =>
      change (w.coord.settle o retain).salts = _
      rw [settle]
      split_ifs <;> rfl
    | stopMining | reseed | topUp | stageMempoolOrders => exact absurd h Bool.noConfusion
    | registerMiner | applyCapabilities | dispatchGranted | noteResult | rejectJob
    | handleLeaseDone => exact absurd hsh Bool.noConfusion
    | _ => rfl

theorem saltInv_of_keeps {params : FeederParams} {w : World} {coord : CoordinatorState}
    (h : w.SaltInv params) (hk : Keeps w.coord coord)
    (hs : ∀ job, coord.Live job → job.PlainPow →
      coord.salts.lookup job.jobId = w.coord.salts.lookup job.jobId) :
    (w.update coord).SaltInv params where
  stopped := fun hn job hj => h.stopped hn job (hk.live job hj)
  salted := by
    intro job hj hp
    obtain ⟨salt, snap, hl, hd, hhead, hder⟩ := h.salted job (hk.live job hj) hp
    exact ⟨salt, snap, (hs job hj hp).trans hl, hd, hhead, hder⟩

theorem saltInv_topUp (params : FeederParams) {w : World} (h : w.SaltInv params)
    {snap : MiningSnapshot} {plans : List Plan} (ha : w.Allowed (.topUp snap plans)) :
    (w.next params (.topUp snap plans)).SaltInv params := by
  have hhead := ha.1
  have hsome : w.seed ≠ none := by
    intro hn
    rw [hn] at hhead
    exact absurd hhead (by simp)
  refine ⟨fun hn => absurd hn hsome, ?_⟩
  change ∀ job, (w.toStaging.topUp params snap plans).coord.Live job → _
  refine Staging.topUp_induct (P := fun s => ∀ job, s.coord.Live job → job.PlainPow →
    ∃ salt snap', s.coord.salts.lookup job.jobId = some salt ∧ ⟨job, snap'⟩ ∈ s.drawn ∧
      w.seed.map (·.lastProofBlockHash) = some snap'.lastProofBlockHash ∧
      derivePowJob snap' params.minerIdentity salt job.generation 0 = some job) ?_ ?_ ?_ ?_ plans
    h.salted
  · exact fun s n hs => hs
  · exact fun s r hs hr _ job hj => hs job ((Moves.of_queues s.coord hr).live job hj)
  · intro s id lease r n start count hs hl hst job hj hp
    rcases live_stageOn s.coord hst hj with hj | rfl
    · obtain ⟨salt, snap', h1, h2, h3, h4⟩ := hs job hj hp
      exact ⟨salt, snap', h1, List.mem_append_left _ h2, h3, h4⟩
    · have hlease := (buildLeaseJob_shape snap params.minerIdentity start count s.generation).1
      rw [← hl] at hlease
      exact absurd (hlease.symm.trans hp.1) Bool.noConfusion
  · intro s id fresh r n salt hs hd hst job hj hp
    obtain ⟨-, -, hgen, hid, -⟩ := derivePowJob_shape hd
    have hfresh : derivePowJob snap params.minerIdentity salt fresh.generation 0 = some fresh := by
      rw [hgen]
      exact hd
    change ∃ salt' snap', (s.coord.salts.insert fresh.jobId salt).lookup job.jobId = some salt' ∧ _
    rcases live_stageOn s.coord hst hj with hj | rfl
    · obtain ⟨salt', snap', h1, h2, h3, h4⟩ := hs job hj hp
      by_cases he : job.jobId = fresh.jobId
      · -- two salts of one nonce: the later one derives the earlier job too
        have hheads : snap'.lastProofBlockHash = snap.lastProofBlockHash :=
          Option.some.inj (h3.symm.trans hhead)
        obtain ⟨-, -, -, hid', -⟩ := derivePowJob_shape h4
        have hnonce : deriveNonce snap'.lastProofBlockHash params.minerIdentity salt =
            deriveNonce snap'.lastProofBlockHash params.minerIdentity salt' := by
          refine Vector.toList_inj.mp ?_
          rw [← hid', he, hid, hheads]
        refine ⟨salt, snap', ?_, List.mem_append_left _ h2, h3, ?_⟩
        · rw [he, Finmap.lookup_insert]
        · rw [derivePowJob_congr _ _ hnonce]
          exact h4
      · refine ⟨salt', snap', ?_, List.mem_append_left _ h2, h3, h4⟩
        rw [Finmap.lookup_insert_of_ne _ he]
        exact h1
    · refine ⟨salt, snap, Finmap.lookup_insert _, ?_, hhead, hfresh⟩
      exact List.mem_append_right _ List.mem_cons_self

theorem saltInv_next (params : FeederParams) {w : World} {e : Section}
    (hl : w.LedgerInv) (hr : w.RoundInv) (h : w.SaltInv params) (ha : w.Allowed e)
    (hok : w.SaltsSafe e) : (w.next params e).SaltInv params := by
  cases e with
  | stopMining =>
    have hnone : ∀ job, (w.coord.stopMining (satAdd 64 w.generation 1)).1.Live job →
        ¬ job.PlainPow := by
      intro job hj hp
      obtain ⟨hlive, hk⟩ := live_stopMining hj
      rcases hr.live job hlive with ⟨-, hpow, -⟩ | ⟨-, hgen, hpos⟩
      · exact absurd (hpow.symm.trans hp.2) Bool.noConfusion
      · have hg : satAdd 64 w.generation 1 = w.generation + 1 := by
          have hlt : w.generation + 1 < 2 ^ 64 := hok
          rw [satAdd]
          omega
        rw [hg] at hk
        have hcases : job.generation = 0 ∨ w.generation < job.generation := by
          simpa [Router.keepsUnder] using hk
        omega
    exact ⟨fun _ job hj => hnone job hj, fun job hj hp => absurd hp (hnone job hj)⟩
  | reseed snap q d =>
    have hnone := h.stopped ha.1
    exact ⟨fun hn => absurd hn (by simp [next]), fun job hj hp => absurd hp (hnone job hj)⟩
  | topUp snap plans => exact saltInv_topUp params h ha
  | stageMempoolOrders orders =>
    obtain ⟨hlive, r, m, he⟩ := stageMempoolOrders_spec orders w.coord
    have hold : ∀ job, (w.coord.stageMempoolOrders orders).Live job → job.PlainPow →
        w.coord.Live job := by
      intro job hj hp
      rcases hlive job hj with hj | ⟨order, -, ho⟩
      · exact hj
      · obtain ⟨-, hpow, -⟩ := jobOrderToJob_shape ho
        exact absurd (hpow.symm.trans hp.2) Bool.noConfusion
    refine ⟨fun hn job hj hp => h.stopped hn job (hold job hj hp) hp, fun job hj hp => ?_⟩
    obtain ⟨salt, snap, h1, h2⟩ := h.salted job (hold job hj hp) hp
    refine ⟨salt, snap, ?_, h2⟩
    change (w.coord.stageMempoolOrders orders).salts.lookup job.jobId = some salt
    rw [he]
    exact h1
  | takeResult minerId jobId =>
    have hk := next_keeps params w (e := .takeResult minerId jobId) rfl
    refine saltInv_of_keeps h hk fun job hj hp => ?_
    have hne : job.jobId ≠ jobId := by
      rcases live_takeResult hl.agrees hj with ⟨m, hs⟩ | hne
      · exact hok m (Finmap.mem_keys.mpr (Router.mem_miners_of_mem_stagedOf hs)) job hs hp
      · exact hne
    rw [(salts_takeResult w.coord minerId jobId).1]
    exact Finmap.lookup_erase_ne hne
  | _ =>
    rw [next_eq_update params w rfl]
    refine saltInv_of_keeps h (next_keeps params w rfl) fun job _ _ => ?_
    rw [salts_next params w rfl (fun _ _ he => Section.noConfusion he)]

end World

/-- In every run in which no `Result` names a staged plain proof-of-work job, every live plain
proof-of-work job has its salt on record, and the proof built from its `Result` carries it. -/
theorem salt_ledger_complete (params : FeederParams) {w : World}
    (h : ((coordinatorMachine params).restrict World.SaltsSafe).Reachable w) :
    w.SaltLedger params ∧
      ∀ minerId result job o, w.coord.inflight.lookup result.jobId = some job → job.PlainPow →
        plainOutcome (w.coord.takeResult minerId result.jobId).2 minerId result = some o →
        ∃ salt, w.DrawnFrom params job salt ∧ o.proof.salt = salt.toList ∧
          o.proof.salt.length = 32 := by
  have hinv : w.SaltInv params := by
    refine h.invariant (I := fun w => w.SaltInv params) (World.saltInv_init params) ?_
    intro s e hs hi ha
    have hreach := hs.of_restrict
    exact World.saltInv_next params (World.ledgerInv_reachable hreach)
      (World.roundInv_reachable hreach) hi ha.1 ha.2
  have hkeyed := (World.ledgerInv_reachable h.of_restrict).agrees.keyed
  refine ⟨hinv.ledger, ?_⟩
  intro minerId result job o hjob hp ho
  obtain ⟨salt, hsalt, hdrawn⟩ := hinv.ledger job (Or.inr ⟨_, hjob⟩) hp
  obtain ⟨-, -, -, hos, -⟩ := World.plainOutcome_job ho
  have hproof : o.proof.salt = salt.toList := by
    rw [hkeyed _ job hjob] at hsalt
    rw [PowOutcome.proof, hos, (salts_takeResult w.coord minerId result.jobId).2, hsalt]
    rfl
  exact ⟨salt, hdrawn, hproof, by rw [hproof]; simp⟩

end

namespace Sample

def answered : List Section :=
  start ++ [.dispatchGranted "a" 1 0, .topUp snap [⟨"a", 0, 1⟩], .takeResult "a" jobId,
    .dispatchGranted "a" 1 0]

def secondId : JobId := (saltFromCounter 2).toList

/-- Miner `a` exits with its job in flight. The job is staged again, and then the session reads
the `Result` that `a` sent before it exited. -/
def lateResult : List Section :=
  start ++ [.dispatchGranted "a" 1 0, .childExit "a" [jobId], .takeResult "a" jobId]

end Sample

open Sample in
theorem salt_ledger_complete_sample :
    let w := (coordinatorMachine params).run .init answered
    ∃ job o, w.coord.inflight.lookup secondId = some job ∧ job.PlainPow ∧
      plainOutcome (w.coord.takeResult "a" secondId).2 "a" ⟨secondId, [], 0, [], []⟩ = some o ∧
      ∃ salt, w.DrawnFrom params job salt ∧ o.proof.salt = salt.toList ∧
        o.proof.salt.length = 32 := by
  have hw := salt_ledger_complete params
    (Machine.reachable_restrict_run answered (by decide +kernel))
  have hjob : ∃ job ∈ ((coordinatorMachine params).run .init answered).coord.inflight.lookup
      secondId, job.PlainPow := by decide +kernel
  have hout : (plainOutcome (((coordinatorMachine params).run .init answered).coord.takeResult
      "a" secondId).2 "a" ⟨secondId, [], 0, [], []⟩).isSome = true := by decide +kernel
  obtain ⟨job, hl, hp⟩ := hjob
  obtain ⟨o, ho⟩ := Option.isSome_iff_exists.mp hout
  exact ⟨job, o, hl, hp, ho, hw.2 "a" ⟨secondId, [], 0, [], []⟩ job o hl hp ho⟩

open Sample in
theorem late_result_takes_staged_salt :
    ¬ ∀ w, (coordinatorMachine params).Reachable w → w.SaltLedger params := by
  intro hall
  have hreach := Machine.reachable_run (M := coordinatorMachine params) lateResult
    (by decide +kernel)
  have hstaged : ∃ job ∈ ((coordinatorMachine params).run .init lateResult).coord.router.stagedOf
      "a", job.PlainPow ∧ job.jobId = jobId := by decide +kernel
  have hgone : ((coordinatorMachine params).run .init lateResult).coord.salts.lookup jobId =
      none := by decide +kernel
  obtain ⟨job, hs, hp, hid⟩ := hstaged
  obtain ⟨salt, hsalt, -⟩ := hall _ hreach job (Or.inl ⟨"a", hs⟩) hp
  have hnone := hid ▸ hsalt
  exact absurd (hgone.symm.trans hnone) (by simp)

end QuipCoordinator
