import QuipCoordinator.GraphAgreement
import QuipCoordinator.SaltLedger

/-!
# The root a job was drawn under

Every proof-of-work job that can be answered was drawn from a snapshot of its
round, and the snapshots of one round have one root. A salt on record belongs to
that root too, so an outcome that carries a salt has the nonce of its salt under
the root of its draw. For a lease it is the verification that says so.
-/

namespace QuipCoordinator
variable [Crates]
open Crates CoordinatorState

/-- `derive_nonce` gives distinct roots distinct nonces, the identity and the salt being equal. -/
def NoncesSeparateRoots : Prop :=
  ∀ root root' identity salt : Bytes32,
    deriveNonce root identity salt = deriveNonce root' identity salt → root = root'

/-- `verify_lease_result` answers with a salt and the nonce that the root and the account of the
lease give it. -/
def LeaseNonces : Prop :=
  ∀ (generator : IsingProblemGenerator) (view : WireTopology) (result : ResultFrame)
    (v : Verified) (root account : Bytes32),
    verifyLeaseResult generator view result = some v →
    generator.lastProofBlockHash = root.toList → generator.minerAccount = account.toList →
    v.nonce = deriveNonce root account v.salt

/-- A draw is a plain job of some salt or a lease, over its own snapshot. -/
inductive Draw.Shaped (params : FeederParams) (d : Draw) : Prop
  | plain (salt : Bytes32) :
    derivePowJob d.snap params.minerIdentity salt d.job.generation 0 = some d.job → d.Shaped params
  | lease (start count : Nat) :
    d.job = buildLeaseJob d.snap params.minerIdentity start count d.job.generation →
    d.Shaped params

namespace Draw.Shaped

theorem graphHash {params : FeederParams} {d : Draw} (h : d.Shaped params) :
    d.job.graphHash = some d.snap.topologyHash := by
  cases h with
  | plain salt hd => exact graphHash_derivePowJob hd
  | lease start count hd =>
    rw [hd]
    exact graphHash_buildLeaseJob _ _ _ _ _

theorem generator {params : FeederParams} {d : Draw} (h : d.Shaped params)
    {generator : IsingProblemGenerator} (hg : d.job.generator = some generator) :
    generator.lastProofBlockHash = d.snap.lastProofBlockHash.toList ∧
      generator.minerAccount = params.minerIdentity.toList := by
  cases h with
  | plain salt hd =>
    unfold derivePowJob buildIsingJobFromNonce at hd
    obtain ⟨⟨hs, js⟩, -, hjob⟩ := Option.bind_eq_some_iff.mp hd
    simp only [Option.pure_def, Option.some.injEq] at hjob
    rw [← hjob] at hg
    exact nomatch hg
  | lease start count hd =>
    rw [hd] at hg
    cases hg
    exact ⟨rfl, rfl⟩

end Draw.Shaped

namespace World

def Counts (w : World) : Section → Prop
  | .stopMining => w.generation + 1 < 2 ^ 64
  | _ => True

structure RootInv (params : FeederParams) (w : World) : Prop where
  shaped : ∀ d ∈ w.drawn, d.Shaped params
  past : ∀ d ∈ w.drawn, d.job.generation ≤ w.generation
  stopped : w.seed = none → ∀ d ∈ w.drawn, d.job.generation < w.generation
  seeded : ∀ seed, w.seed = some seed → ∀ d ∈ w.drawn, d.job.generation = w.generation →
    d.snap.lastProofBlockHash = seed.lastProofBlockHash
  rounds : ∀ d ∈ w.drawn, ∀ d' ∈ w.drawn, d.job.generation = d'.job.generation →
    d.snap.lastProofBlockHash = d'.snap.lastProofBlockHash
  live : ∀ job, w.coord.Live job → job.isPow = true → ∃ snap, ⟨job, snap⟩ ∈ w.drawn
  salted : ∀ jobId salt, w.coord.salts.lookup jobId = some salt → ∃ seed, w.seed = some seed ∧
    jobId = (deriveNonce seed.lastProofBlockHash params.minerIdentity salt).toList

theorem rootInv_init (params : FeederParams) : World.init.RootInv params where
  shaped := fun _ hd => absurd hd List.not_mem_nil
  past := fun _ hd => absurd hd List.not_mem_nil
  stopped := fun _ _ hd => absurd hd List.not_mem_nil
  seeded := fun _ h => nomatch h
  rounds := fun _ hd => absurd hd List.not_mem_nil
  live := fun job h => absurd h (not_live_new job)
  salted := fun _ _ h => nomatch h

theorem rootInv_of_keeps {params : FeederParams} {w : World} {coord : CoordinatorState}
    (h : w.RootInv params) (hk : Keeps w.coord coord)
    (hs : ∀ jobId salt, coord.salts.lookup jobId = some salt →
      w.coord.salts.lookup jobId = some salt) : (w.update coord).RootInv params where
  shaped := h.shaped
  past := h.past
  stopped := h.stopped
  seeded := h.seeded
  rounds := h.rounds
  live := fun job hj hp => h.live job (hk.live job hj) hp
  salted := fun jobId salt hl => h.salted jobId salt (hs jobId salt hl)

theorem salts_lookup_next (params : FeederParams) (w : World) {e : Section}
    (h : e.feeds = false) {jobId : JobId} {salt : Bytes32}
    (hl : (w.next params e).coord.salts.lookup jobId = some salt) :
    w.coord.salts.lookup jobId = some salt := by
  by_cases ht : ∃ minerId jobId, e = .takeResult minerId jobId
  · obtain ⟨minerId, taken, rfl⟩ := ht
    have herase : (w.coord.takeResult minerId taken).1.salts.lookup jobId = some salt := hl
    rw [(salts_takeResult w.coord minerId taken).1, Finmap.lookup_erase_eq] at herase
    split_ifs at herase
    exact herase
  · rw [salts_next params w h fun minerId taken he => ht ⟨minerId, taken, he⟩] at hl
    exact hl

/-- What the draws of a top-up over `snap` keep, the round being that of `snap`. -/
structure Drawing (params : FeederParams) (w : World) (snap : MiningSnapshot) (s : Staging) :
    Prop where
  generation : s.generation = w.generation
  drawn : ∀ d ∈ s.drawn, d ∈ w.drawn ∨
    d.Shaped params ∧ d.job.generation = w.generation ∧ d.snap = snap
  live : ∀ job, s.coord.Live job → job.isPow = true → ∃ snap, ⟨job, snap⟩ ∈ s.drawn
  salted : ∀ jobId salt, s.coord.salts.lookup jobId = some salt →
    jobId = (deriveNonce snap.lastProofBlockHash params.minerIdentity salt).toList

theorem Drawing.stage {params : FeederParams} {w : World} {snap : MiningSnapshot} {s : Staging}
    (h : Drawing params w snap s) {id : MinerId} {job : Job} {r : Router}
    (hst : s.coord.router.stageOn id job = (r, true)) (hd : Draw.Shaped params ⟨job, snap⟩)
    (hgen : job.generation = w.generation) (n : Nat) {salts : Table JobId Bytes32}
    (hs : ∀ jobId salt, salts.lookup jobId = some salt →
      jobId = (deriveNonce snap.lastProofBlockHash params.minerIdentity salt).toList) :
    Drawing params w snap { s with
      coord := { s.coord with router := r, salts := salts }
      saltCtr := n, drawn := s.drawn ++ [⟨job, snap⟩] } where
  generation := h.generation
  drawn := by
    intro d hm
    rcases List.mem_append.mp hm with hm | hm
    · exact h.drawn d hm
    · rw [List.mem_singleton.mp hm]
      exact Or.inr ⟨hd, hgen, rfl⟩
  live := by
    intro k hk hp
    rcases live_stageOn s.coord hst hk with hk | rfl
    · obtain ⟨snap', hm⟩ := h.live k hk hp
      exact ⟨snap', List.mem_append_left _ hm⟩
    · exact ⟨snap, List.mem_append_right _ List.mem_cons_self⟩
  salted := hs

theorem drawing_topUp (params : FeederParams) {w : World} (h : w.RootInv params)
    {snap : MiningSnapshot} {plans : List Plan} (ha : w.Allowed (.topUp snap plans)) :
    Drawing params w snap (w.toStaging.topUp params snap plans) := by
  have hsalts : ∀ jobId salt, w.coord.salts.lookup jobId = some salt →
      jobId = (deriveNonce snap.lastProofBlockHash params.minerIdentity salt).toList := by
    intro jobId salt hl
    obtain ⟨seed, hseed, hid⟩ := h.salted jobId salt hl
    have hhead := ha.1
    rw [hseed] at hhead
    have hroot : seed.lastProofBlockHash = snap.lastProofBlockHash := Option.some.inj hhead
    rw [← hroot]
    exact hid
  refine Staging.topUp_induct (P := Drawing params w snap) ?_ ?_ ?_ ?_ plans
    ⟨rfl, fun d hd => Or.inl hd, h.live, hsalts⟩
  · exact fun s n hs => ⟨hs.generation, hs.drawn, hs.live, hs.salted⟩
  · intro s r hs hr _
    exact ⟨hs.generation, hs.drawn,
      fun job hj => hs.live job ((Moves.of_queues s.coord hr).live job hj), hs.salted⟩
  · intro s id job r n start count hs hjob hst
    have hgen : job.generation = s.generation := by
      rw [hjob]
      rfl
    refine hs.stage hst (.lease start count ?_) (hgen.trans hs.generation) n hs.salted
    change job = buildLeaseJob snap params.minerIdentity start count job.generation
    rw [hgen]
    exact hjob
  · intro s id job r n salt hs hjob hst
    obtain ⟨-, -, hgen, hid, -⟩ := derivePowJob_shape hjob
    refine hs.stage hst (.plain salt ?_) (hgen.trans hs.generation) n ?_
    · change derivePowJob snap params.minerIdentity salt job.generation 0 = some job
      rw [hgen]
      exact hjob
    · intro jobId salt' hl
      rw [Finmap.lookup_insert_eq] at hl
      split_ifs at hl with he
      · rw [← Option.some.inj hl, he]
        exact hid
      · exact hs.salted jobId salt' hl

theorem rootInv_topUp (params : FeederParams) {w : World} (h : w.RootInv params)
    {snap : MiningSnapshot} {plans : List Plan} (ha : w.Allowed (.topUp snap plans)) :
    (w.next params (.topUp snap plans)).RootInv params := by
  have hd := drawing_topUp params h ha
  obtain ⟨seed, hseed, hroot⟩ := Option.map_eq_some_iff.mp ha.1
  have hcur : ∀ d ∈ (w.toStaging.topUp params snap plans).drawn,
      d.job.generation = w.generation → d.snap.lastProofBlockHash = seed.lastProofBlockHash := by
    intro d hm hgen
    rcases hd.drawn d hm with hm | ⟨-, -, rfl⟩
    · exact h.seeded seed hseed d hm hgen
    · exact hroot.symm
  have hnext : (w.next params (.topUp snap plans)).generation = w.generation := hd.generation
  refine ⟨?_, ?_, fun hn => ?_, ?_, ?_, hd.live, ?_⟩
  · intro d hm
    rcases hd.drawn d hm with hm | ⟨hs, -, -⟩
    · exact h.shaped d hm
    · exact hs
  · intro d hm
    rw [hnext]
    rcases hd.drawn d hm with hm | ⟨-, hgen, -⟩
    · exact h.past d hm
    · exact hgen.le
  · exact nomatch hseed.symm.trans hn
  · intro seed' hs d hm hgen
    cases hseed.symm.trans hs
    exact hcur d hm (hgen.trans hnext)
  · intro d hm d' hm' hgen
    -- two draws of one generation, at least one of them new, are of the seed's round
    rcases hd.drawn d hm with hold | ⟨-, hg, -⟩
    · rcases hd.drawn d' hm' with hold' | ⟨-, hg', -⟩
      · exact h.rounds d hold d' hold' hgen
      · rw [hcur d hm (hgen.trans hg'), hcur d' hm' hg']
    · rw [hcur d hm hg, hcur d' hm' (hgen.symm.trans hg)]
  · intro jobId salt hl
    refine ⟨seed, hseed, ?_⟩
    rw [hroot]
    exact hd.salted jobId salt hl

theorem rootInv_next (params : FeederParams) {w : World} {e : Section} (h : w.RootInv params)
    (ha : w.Allowed e) (hok : w.Counts e) : (w.next params e).RootInv params := by
  cases e with
  | stopMining =>
    have hpast : ∀ d ∈ w.drawn, d.job.generation < satAdd 64 w.generation 1 := by
      intro d hd
      have hlt : w.generation + 1 < 2 ^ 64 := hok
      have hle := h.past d hd
      rw [satAdd]
      omega
    exact ⟨h.shaped, fun d hd => (hpast d hd).le, fun _ => hpast, (fun _ hs => by cases hs),
      h.rounds, fun job hj hp => h.live job (live_stopMining hj).1 hp, fun _ _ hl => by cases hl⟩
  | reseed snap q dp =>
    refine ⟨h.shaped, h.past, (fun hn => by cases hn), ?_, h.rounds, h.live, ?_⟩
    · intro seed _ d hd hgen
      have hlt := h.stopped ha.1 d hd
      have heq : d.job.generation = w.generation := hgen
      omega
    · intro jobId salt hl
      obtain ⟨seed, hseed, -⟩ := h.salted jobId salt hl
      cases ha.1.symm.trans hseed
  | topUp snap plans => exact rootInv_topUp params h ha
  | stageMempoolOrders orders =>
    obtain ⟨hl, r, m, he⟩ := stageMempoolOrders_spec orders w.coord
    refine ⟨h.shaped, h.past, h.stopped, h.seeded, h.rounds, fun job hj hp => ?_, ?_⟩
    · rcases hl job hj with hj | ⟨order, -, ho⟩
      · exact h.live job hj hp
      · obtain ⟨-, hpow, -⟩ := jobOrderToJob_shape ho
        exact absurd (hpow.symm.trans hp) Bool.noConfusion
    · intro jobId salt hs
      change (w.coord.stageMempoolOrders orders).salts.lookup jobId = some salt at hs
      rw [he] at hs
      exact h.salted jobId salt hs
  | _ =>
    rw [next_eq_update params w rfl]
    exact rootInv_of_keeps h (next_keeps params w rfl)
      fun jobId salt hl => salts_lookup_next params w rfl hl

/-- The job of an outcome is drawn, and a salt of the outcome has its nonce under the root of
that draw. -/
def Origin (params : FeederParams) (w : World) (o : PowOutcome) : Prop :=
  ∃ snap, ⟨o.job, snap⟩ ∈ w.drawn ∧ ∀ salt, o.salt = some salt →
    o.jobId = (deriveNonce snap.lastProofBlockHash params.minerIdentity salt).toList

theorem leaseOutcome_verified {st : CoordinatorState} {minerId : MinerId}
    {result : ResultFrame} {o : PowOutcome} (h : st.leaseOutcome minerId result = some o) :
    ∃ generator view v, o.job.generator = some generator ∧
      verifyLeaseResult generator view result = some v ∧ o.jobId = v.nonce.toList ∧
      o.salt = some v.salt := by
  obtain ⟨job, -, h⟩ := Option.bind_eq_some_iff.mp h
  obtain ⟨generator, hgen, h⟩ := Option.bind_eq_some_iff.mp h
  obtain ⟨view, -, h⟩ := Option.bind_eq_some_iff.mp h
  obtain ⟨target, -, h⟩ := Option.bind_eq_some_iff.mp h
  split_ifs at h
  obtain ⟨⟨v, validated⟩, hv, h⟩ := Option.bind_eq_some_iff.mp h
  obtain ⟨v', hver, hv⟩ := Option.bind_eq_some_iff.mp hv
  simp only [Option.pure_def, Option.some.injEq] at h hv
  obtain ⟨rfl, -⟩ := Prod.mk.inj hv
  subst h
  exact ⟨generator, view, v', hgen, hver, rfl, rfl⟩

theorem RootInv.origin {params : FeederParams} {w : World} (hverify : LeaseNonces)
    (hr : w.RoundInv) (h : w.RootInv params) {minerId : MinerId}
    {result : ResultFrame} {o : PowOutcome}
    (ho : plainOutcome (w.coord.takeResult minerId result.jobId).2 minerId result = some o ∨
      w.coord.leaseOutcome minerId result = some o) : w.Origin params o := by
  obtain ⟨hpow, hgen⟩ := hr.outcome ho
  rcases ho with ho | ho
  · obtain ⟨hjob, -, hid, hsalt, -⟩ := plainOutcome_job ho
    rw [taken_job] at hjob
    obtain ⟨snap, hd⟩ := h.live o.job (Or.inr ⟨_, hjob⟩) hpow
    refine ⟨snap, hd, fun salt hs => ?_⟩
    rw [hsalt, (salts_takeResult w.coord minerId result.jobId).2] at hs
    obtain ⟨seed, hseed, hnonce⟩ := h.salted _ salt hs
    have hroot : snap.lastProofBlockHash = seed.lastProofBlockHash :=
      h.seeded seed hseed _ hd (hgen.trans hr.feeder)
    rw [hid, hroot]
    exact hnonce
  · obtain ⟨hjob, -⟩ := leaseOutcome_job ho
    obtain ⟨snap, hd⟩ := h.live o.job (Or.inr ⟨_, hjob⟩) hpow
    obtain ⟨generator, view, v, hg, hver, hid, hsalt⟩ := leaseOutcome_verified ho
    obtain ⟨hroot, haccount⟩ := (h.shaped _ hd).generator hg
    refine ⟨snap, hd, fun salt hs => ?_⟩
    cases hsalt.symm.trans hs
    rw [hid, hverify generator view result v _ _ hver hroot haccount]

end World
end QuipCoordinator
