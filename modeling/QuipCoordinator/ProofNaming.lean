import QuipCoordinator.DrawRoots
import QuipCoordinator.ProofEncoding
import QuipCoordinator.StashRounds
import QuipCoordinator.WinTime

/-!
# What a submitted proof names

The layer of the chain client over the submitters. A poll overwrites the last
snapshot with any root and topology at any moment, and `submit_proof` encodes
with the snapshot it then finds. The spin specification is under a lock of its
own, so a submit is given what it found there, and a submitter may submit at any
moment before its receipt. `calls` are the proofs handed on to be signed, each
with the outcome its rows were scored in, and `scored` are the outcomes that were
settled. A candidate of the stash comes from one of them.
-/

namespace QuipCoordinator

section
variable [Crates]
open Crates CoordinatorState

structure SubmitCall where
  outcome : PowOutcome
  quantum : QuantumProof
deriving DecidableEq

structure ChainClient where
  lastSnapshot : Option MiningSnapshot
  scored : List PowOutcome
  calls : List SubmitCall
deriving DecidableEq

/-- `submit` is `submit_proof` by a session and `submitWin` by the feeder, for the candidate that
the outcome was stashed as. -/
inductive ClientEvent
  | poll (snap : MiningSnapshot)
  | submit (tx : SessionId) (lastSpinSpec : Option AllowedValueSpec)
  | submitWin (o : PowOutcome) (lastSpinSpec : Option AllowedValueSpec)
  | other (e : SubmissionEvent)
deriving DecidableEq

structure Submission where
  outcome : PowOutcome
  proof : Proof
  lastSpinSpec : Option AllowedValueSpec
deriving DecidableEq

namespace SubmitCall

/-- The nonce is the one the rows were scored under and the hash the one of their job. -/
def Names (c : SubmitCall) : Prop :=
  c.quantum.nonce.toList = c.outcome.jobId ∧
    c.outcome.job.graphHash = some c.quantum.topologyHash.toList

end SubmitCall

namespace ChainClient

def init : ChainClient := ⟨none, [], []⟩

def submission (c : Submissions) : ClientEvent → Option Submission
  | .submit tx spin => (c.readers.lookup tx).bind fun r =>
    match r.task with
    | .submitting o _ => some ⟨o, o.proof, spin⟩
    | _ => none
  | .submitWin o spin => some ⟨o, o.candidate.proof, spin⟩
  | _ => none

def settled (c : Submissions) : ClientEvent → Option PowOutcome
  | .other (.settle tx) => (c.readers.lookup tx).bind fun r =>
    match r.task with
    | .settling o _ _ => some o
    | _ => none
  | _ => none

def call [SpinPacking] (params : FeederParams) (c : ChainClient) (s : Submission) :
    Option SubmitCall :=
  (encodeSubmission params.minerIdentity c.lastSnapshot s.lastSpinSpec s.proof).toOption.map
    fun q => ⟨s.outcome, q⟩

def next [SpinPacking] (params : FeederParams) (x : World × Submissions) (c : ChainClient)
    (e : ClientEvent) : ChainClient where
  lastSnapshot :=
    match e with
    | .poll snap => some snap
    | _ => c.lastSnapshot
  scored := c.scored ++ (settled x.2 e).toList
  calls := c.calls ++ ((submission x.2 e).bind (c.call params)).toList

def Guard (x : World × Submissions) (c : ChainClient) : ClientEvent → Prop
  | .submit tx spin => (submission x.2 (.submit tx spin)).isSome = true
  | .submitWin o _ => o ∈ c.scored ∧ x.2.win.map (·.1) = some o.candidate
  | _ => True

instance (x : World × Submissions) (c : ChainClient) : (e : ClientEvent) → Decidable (c.Guard x e)
  | .submit tx spin =>
    inferInstanceAs (Decidable ((submission x.2 (.submit tx spin)).isSome = true))
  | .submitWin o _ =>
    inferInstanceAs (Decidable (o ∈ c.scored ∧ x.2.win.map (·.1) = some o.candidate))
  | .poll _ | .other _ => .isTrue trivial

end ChainClient

def clientLayer [SpinPacking] (params : FeederParams) :
    Machine.Layer (submissionMachine params) ChainClient ClientEvent where
  init := .init
  guard x c := c.Guard x
  emit _ _
    | .other e => some e
    | _ => none
  next x c := c.next params x

abbrev clientMachine [SpinPacking] (params : FeederParams) :
    Machine ((World × Submissions) × ChainClient) ClientEvent :=
  (clientLayer params).machine

instance [SpinPacking] (params : FeederParams) (z : (World × Submissions) × ChainClient)
    (e : ClientEvent) : Decidable ((clientMachine params).allowed z e) :=
  inferInstanceAs (Decidable (z.2.Guard z.1 e ∧
    ∀ d ∈ (clientLayer params).emit z.1 z.2 e, (submissionMachine params).allowed z.1 d))

def ProofsNamed (z : (World × Submissions) × ChainClient) : Prop :=
  ∀ c ∈ z.2.calls, c.Names

def World.DrawnUnder (w : World) (snap : MiningSnapshot) (job : Job) : Prop :=
  ∀ d ∈ w.drawn, d.job = job → d.snap.lastProofBlockHash = snap.lastProofBlockHash ∧
    d.snap.topologyHash = snap.topologyHash32.toList

/-- A submit finds a snapshot that its job was drawn under, or one that cannot encode the proof. -/
def SubmitMatches [SpinPacking] (z : (World × Submissions) × ChainClient) (e : ClientEvent) :
    Prop :=
  ∀ s ∈ ChainClient.submission z.1.2 e, ∀ snap ∈ z.2.lastSnapshot,
    Encodable snap s.lastSpinSpec s.proof → z.1.1.DrawnUnder snap s.outcome.job

def SnapshotMatches [SpinPacking] (z : (World × Submissions) × ChainClient) (e : ClientEvent) :
    Prop :=
  (e = .other .stopMining → z.1.1.generation + 1 < 2 ^ 64) ∧ SubmitMatches z e

instance [SpinPacking] (z : (World × Submissions) × ChainClient) (e : ClientEvent) :
    Decidable (SnapshotMatches z e) :=
  inferInstanceAs (Decidable ((e = .other .stopMining → z.1.1.generation + 1 < 2 ^ 64) ∧
    ∀ s ∈ ChainClient.submission z.1.2 e, ∀ snap ∈ z.2.lastSnapshot,
      Encodable snap s.lastSpinSpec s.proof → ∀ d ∈ z.1.1.drawn, d.job = s.outcome.job →
        d.snap.lastProofBlockHash = snap.lastProofBlockHash ∧
          d.snap.topologyHash = snap.topologyHash32.toList))

namespace World

theorem mem_drawn_next (params : FeederParams) {w : World} {d : Draw} (h : d ∈ w.drawn)
    (e : Section) : d ∈ (w.next params e).drawn := by
  cases e with
  | topUp snap plans =>
    obtain ⟨router, salts, saltCtr, draws, he⟩ := w.toStaging.topUp_eq params snap plans
    change d ∈ (w.toStaging.topUp params snap plans).drawn
    rw [he]
    exact List.mem_append_left _ h
  | _ => exact h

theorem Origin.next {params : FeederParams} {w : World} {o : PowOutcome} (h : w.Origin params o)
    (e : Section) : (w.next params e).Origin params o := by
  obtain ⟨snap, hd, hnonce⟩ := h
  exact ⟨snap, mem_drawn_next params hd e, hnonce⟩

end World

theorem origin_submission {params : FeederParams} {x : World × Submissions} {o : PowOutcome}
    (h : x.1.Origin params o) (e : SubmissionEvent) :
    ((submissionMachine params).next x e).1.Origin params o := by
  refine Machine.Layer.base_next (P := fun w : World => w.Origin params o) ?_ ?_
  · exact fun _ => h
  · exact fun d _ => h.next d

/-- Where the outcomes come from. The tasks hold the ones that are not settled yet. -/
structure NamingInv (params : FeederParams) (z : (World × Submissions) × ChainClient) : Prop where
  roots : z.1.1.RootInv params
  tasks : ∀ tx r, z.1.2.readers.lookup tx = some r → ∀ o read, r.task.pending = some (o, read) →
    z.1.1.Origin params o
  scored : ∀ o ∈ z.2.scored, z.1.1.Origin params o

namespace ChainClient

theorem call_eq_some [SpinPacking] {params : FeederParams} {c : ChainClient} {s : Submission}
    {k : SubmitCall} (h : c.call params s = some k) :
    ∃ q, encodeSubmission params.minerIdentity c.lastSnapshot s.lastSpinSpec s.proof = .ok q ∧
      k = ⟨s.outcome, q⟩ := by
  obtain ⟨q, hq, rfl⟩ := Option.map_eq_some_iff.mp h
  refine ⟨q, ?_, rfl⟩
  cases he : encodeSubmission params.minerIdentity c.lastSnapshot s.lastSpinSpec s.proof with
  | error e =>
    rw [he] at hq
    exact nomatch hq
  | ok q' =>
    rw [he] at hq
    cases hq
    rfl

omit [Crates] in
theorem settled_pending {c : Submissions} {e : ClientEvent} {o : PowOutcome}
    (h : settled c e = some o) :
    ∃ tx r retain read, e = .other (.settle tx) ∧ c.readers.lookup tx = some r ∧
      r.task = .settling o retain read := by
  unfold settled at h
  split at h
  · next tx =>
    obtain ⟨r, hl, h⟩ := Option.bind_eq_some_iff.mp h
    split at h
    · next o' retain read ht =>
      cases h
      exact ⟨tx, r, retain, read, rfl, hl, ht⟩
    · exact nomatch h
  · exact nomatch h

end ChainClient

variable [SpinPacking]

theorem namingInv_init (params : FeederParams) : NamingInv params (clientMachine params).init where
  roots := World.rootInv_init params
  tasks := fun _ _ h => absurd h (no_reader_init params)
  scored := fun _ h => absurd h List.not_mem_nil

theorem NamingInv.roots_next {params : FeederParams} {z : (World × Submissions) × ChainClient}
    {e : ClientEvent} (h : NamingInv params z) (ha : (clientMachine params).allowed z e)
    (hok : e = .other .stopMining → z.1.1.generation + 1 < 2 ^ 64) :
    ((clientMachine params).next z e).1.1.RootInv params := by
  cases e with
  | other e =>
    have he := ha.2 e rfl
    change ((submissionMachine params).next z.1 e).1.RootInv params
    refine Machine.Layer.base_next (P := fun w : World => w.RootInv params) ?_ ?_
    · exact fun _ => h.roots
    · intro d (hd : z.1.2.emit e = some d)
      refine World.rootInv_next params h.roots (he.2 d hd) ?_
      cases d with
      | stopMining =>
        have hstop := z.1.2.emit_stopMining he.1 hd
        exact hok (congrArg ClientEvent.other hstop)
      | _ => trivial
  | _ => exact h.roots

omit [SpinPacking] in
theorem NamingInv.tasks_next {params : FeederParams} {z : (World × Submissions) × ChainClient}
    (hverify : LeaseNonces) (hr : z.1.1.RoundInv) (h : NamingInv params z) (e : SubmissionEvent)
    {tx : SessionId} {r' : Reader} {o : PowOutcome} {read : ReadAt}
    (hr' : ((submissionMachine params).next z.1 e).2.readers.lookup tx = some r')
    (ho : r'.task.pending = some (o, read)) : z.1.1.Origin params o := by
  rcases Submissions.reader_next hr' with hidle | ⟨hsame, -⟩ | ⟨r, hl, -, rfl⟩
  · rw [hidle] at ho
    exact nomatch ho
  · exact h.tasks tx r' hsame o read ho
  · rcases Submissions.pending_react ho with hp | ⟨-, result, hout⟩
    · exact h.tasks tx r hl o read hp
    · exact h.roots.origin hverify hr hout

theorem namingInv_next {params : FeederParams} {z : (World × Submissions) × ChainClient}
    {e : ClientEvent} (hverify : LeaseNonces) (hr : z.1.1.RoundInv) (h : NamingInv params z)
    (ha : (clientMachine params).allowed z e)
    (hok : e = .other .stopMining → z.1.1.generation + 1 < 2 ^ 64) :
    NamingInv params ((clientMachine params).next z e) := by
  have hmono : ∀ o, z.1.1.Origin params o →
      ((clientMachine params).next z e).1.1.Origin params o := by
    intro o ho
    cases e with
    | other e => exact origin_submission ho e
    | _ => exact ho
  refine ⟨h.roots_next ha hok, fun tx r hl o read hp => hmono o ?_, fun o hm => hmono o ?_⟩
  · cases e with
    | other e => exact h.tasks_next hverify hr e hl hp
    | _ => exact h.tasks tx r hl o read hp
  · rcases List.mem_append.mp hm with hm | hm
    · exact h.scored o hm
    · obtain ⟨tx, r, retain, read, -, hl, ht⟩ :=
        ChainClient.settled_pending (Option.mem_toList.mp hm)
      exact h.tasks tx r hl o read (by rw [ht]; rfl)

omit [SpinPacking] in
theorem NamingInv.submission {params : FeederParams} {z : (World × Submissions) × ChainClient}
    {e : ClientEvent} (h : NamingInv params z) (hg : z.2.Guard z.1 e) {s : Submission}
    (hs : ChainClient.submission z.1.2 e = some s) :
    z.1.1.Origin params s.outcome ∧ s.proof.salt = s.outcome.salt.elim [] (·.toList) := by
  cases e with
  | submit tx spin =>
    obtain ⟨r, hl, hs⟩ := Option.bind_eq_some_iff.mp hs
    split at hs
    · next o read ht =>
      cases hs
      exact ⟨h.tasks tx r hl o read (by rw [ht]; rfl), rfl⟩
    · exact nomatch hs
  | submitWin o spin =>
    cases hs
    exact ⟨h.scored o hg.1, rfl⟩
  | poll snap => exact nomatch hs
  | other e => exact nomatch hs

/-- What is handed on names its problem exactly when the snapshot it was encoded with is one that
the job was drawn under. -/
theorem NamingInv.names_iff {params : FeederParams} {z : (World × Submissions) × ChainClient}
    (hinj : NoncesSeparateRoots) (h : NamingInv params z) {s : Submission}
    (ho : z.1.1.Origin params s.outcome)
    (hsalt : s.proof.salt = s.outcome.salt.elim [] (·.toList)) {snap : MiningSnapshot}
    (hsnap : z.2.lastSnapshot = some snap) {c : SubmitCall} (hc : z.2.call params s = some c) :
    c.Names ↔ z.1.1.DrawnUnder snap s.outcome.job := by
  obtain ⟨q, hq, rfl⟩ := ChainClient.call_eq_some hc
  obtain ⟨snap', hsnap', -, hqsalt, hhash, hnonce⟩ := encodeSubmission_ok hq
  cases hsnap.symm.trans hsnap'
  obtain ⟨drawn, hd, hid⟩ := ho
  have hosalt : s.outcome.salt = some q.salt := by
    cases hs : s.outcome.salt with
    | none =>
      rw [hs, hqsalt] at hsalt
      have hlen := congrArg List.length hsalt
      simp at hlen
    | some salt =>
      rw [hs, hqsalt] at hsalt
      rw [Vector.toList_inj.mp hsalt]
  have hjobId := hid q.salt hosalt
  have hgraph := (h.roots.shaped _ hd).graphHash
  change q.nonce.toList = s.outcome.jobId ∧
    s.outcome.job.graphHash = some q.topologyHash.toList ↔ _
  rw [hnonce, hjobId, hhash]
  constructor
  · intro hnames d hm hjob
    have hroot : snap.lastProofBlockHash = drawn.lastProofBlockHash :=
      hinj _ _ _ _ (Vector.toList_inj.mp hnames.1)
    have hshared : d.snap.lastProofBlockHash = drawn.lastProofBlockHash :=
      h.roots.rounds d hm _ hd (congrArg Job.generation hjob)
    have hown := (h.roots.shaped d hm).graphHash
    rw [hjob, hnames.2] at hown
    exact ⟨hshared.trans hroot.symm, (Option.some.inj hown).symm⟩
  · intro hdrawn
    obtain ⟨hroot, hbytes⟩ := hdrawn _ hd rfl
    have hroot : drawn.lastProofBlockHash = snap.lastProofBlockHash := hroot
    have hbytes : drawn.topologyHash = snap.topologyHash32.toList := hbytes
    rw [hroot, ← hbytes]
    exact ⟨rfl, hgraph⟩

theorem NamingInv.named_next {params : FeederParams} {z : (World × Submissions) × ChainClient}
    {e : ClientEvent} (hinj : NoncesSeparateRoots) (h : NamingInv params z)
    (hg : z.2.Guard z.1 e) (hok : SubmitMatches z e)
    (hn : ProofsNamed z) : ProofsNamed ((clientMachine params).next z e) := by
  intro c hc
  rcases List.mem_append.mp hc with hc | hc
  · exact hn c hc
  · obtain ⟨s, hs, hcall⟩ := Option.bind_eq_some_iff.mp (Option.mem_toList.mp hc)
    obtain ⟨ho, hsalt⟩ := h.submission hg hs
    obtain ⟨q, hq, -⟩ := ChainClient.call_eq_some hcall
    obtain ⟨snap, hsnap, henc, -⟩ := encodeSubmission_ok hq
    exact (h.names_iff hinj ho hsalt hsnap hcall).mpr (hok s hs snap hsnap henc)

theorem NamingInv.not_named_next {params : FeederParams}
    {z : (World × Submissions) × ChainClient} {e : ClientEvent}
    (hinj : NoncesSeparateRoots) (h : NamingInv params z) (hg : z.2.Guard z.1 e)
    (hok : ¬ SubmitMatches z e) :
    ¬ ProofsNamed ((clientMachine params).next z e) := by
  intro hnamed
  refine hok fun s hs snap hsnap henc => ?_
  obtain ⟨ho, hsalt⟩ := h.submission hg hs
  obtain ⟨q, hq⟩ := encodeSubmission_of_encodable params.minerIdentity henc
  have hcall : z.2.call params s = some ⟨s.outcome, q⟩ := by
    rw [ChainClient.call, show z.2.lastSnapshot = some snap from hsnap, hq]
    rfl
  refine (h.names_iff hinj ho hsalt hsnap hcall).mp (hnamed _ ?_)
  refine List.mem_append_right _ (Option.mem_toList.mpr ?_)
  exact Option.bind_eq_some_iff.mpr ⟨s, hs, hcall⟩

theorem namingInv_reachable {params : FeederParams} (hverify : LeaseNonces)
    {z : (World × Submissions) × ChainClient}
    (h : ((clientMachine params).restrict SnapshotMatches).Reachable z) : NamingInv params z := by
  refine h.invariant (I := NamingInv params) ?_ ?_
  · exact namingInv_init params
  intro z e hz hi ha
  have hworld := Machine.Layer.base_reachable (Machine.Layer.base_reachable hz.of_restrict)
  exact namingInv_next hverify (World.roundInv_reachable hworld) hi ha.1 ha.2.1

/-- Every unsubmitted candidate of the stash, and the one the feeder submits, is that of an
outcome that was settled. -/
structure StashScored (z : (World × Submissions) × ChainClient) : Prop where
  stash : ∀ cand ∈ z.1.1.coord.stash.candidates, cand.submitted = false →
    ∃ o ∈ z.2.scored, o.candidate = cand
  win : ∀ cand read, z.1.2.win = some (cand, read) → ∃ o ∈ z.2.scored, o.candidate = cand

omit [SpinPacking] in
theorem mem_settle_candidates {st : CoordinatorState} {o : PowOutcome} {retain : Bool}
    {cand : Candidate} (h : cand ∈ (st.settle o retain).stash.candidates) :
    cand ∈ st.stash.candidates ∨ o.candidate = cand := by
  rw [CoordinatorState.settle] at h
  split_ifs at h
  · rcases WinStash.mem_insert h with h | ⟨rfl, -⟩
    · exact Or.inl h
    · exact Or.inr rfl
  · exact Or.inl h

omit [SpinPacking] in
/-- A submitter's event adds a candidate to the stash only when it settles its outcome. -/
theorem mem_candidates_submission (params : FeederParams) {x : World × Submissions}
    {e : SubmissionEvent} (hr : x.1.RoundInv) (hg : x.2.Guard e) {cand : Candidate}
    (h : cand ∈ ((submissionMachine params).next x e).1.coord.stash.candidates)
    (hsub : cand.submitted = false) :
    cand ∈ x.1.coord.stash.candidates ∨
      ∃ o, ChainClient.settled x.2 (.other e) = some o ∧ o.candidate = cand := by
  cases stashStep_next params hr hg with
  | keep _ hstash =>
    rw [hstash] at h
    exact Or.inl h
  | empty _ hnil =>
    rw [hnil] at h
    exact absurd h List.not_mem_nil
  | ease algorithm _ hstash =>
    rw [hstash] at h
    exact Or.inl h
  | mark jobId _ hstash =>
    rw [hstash] at h
    obtain ⟨c, hc, rfl | rfl⟩ := WinStash.mem_markFirst h
    · exact Or.inl hc
    · exact absurd hsub Bool.noConfusion
  | settle tx r o retain read he hl ht hst =>
    rw [hst] at h
    subst he
    refine (mem_settle_candidates h).imp_right fun hc => ⟨o, ?_, hc⟩
    rw [ChainClient.settled, hl, Option.bind_some, ht]

theorem stashScored_next {params : FeederParams} {z : (World × Submissions) × ChainClient}
    {e : ClientEvent} (hr : z.1.1.RoundInv) (h : StashScored z) (ha : (clientMachine params).allowed z e) :
    StashScored ((clientMachine params).next z e) := by
  have hold : ∀ cand, (∃ o ∈ z.2.scored, o.candidate = cand) →
      ∃ o ∈ ((clientMachine params).next z e).2.scored, o.candidate = cand := by
    intro cand hex
    obtain ⟨o, ho, hc⟩ := hex
    exact ⟨o, List.mem_append_left _ ho, hc⟩
  cases e with
  | other e =>
    refine ⟨fun cand hc hsub => ?_, fun cand read hw => hold cand ?_⟩
    · rcases mem_candidates_submission params hr (ha.2 e rfl).1 hc hsub with hc | ⟨o, ho, hc⟩
      · exact hold cand (h.stash cand hc hsub)
      · exact ⟨o, List.mem_append_right _ (Option.mem_toList.mpr ho), hc⟩
    · cases e with
      | topUp snap plans block =>
        obtain ⟨c, hc, heq⟩ := Option.map_eq_some_iff.mp hw
        obtain ⟨rfl, -⟩ := Prod.mk.inj heq
        have hdue := (Option.filter_eq_some_iff.mp (Option.filter_eq_some_iff.mp hc).1).1
        obtain ⟨hmem, hsub, -⟩ := WinStash.dueAt_eq_some hdue
        have hstash : (z.1.1.next params (.topUp snap plans)).coord.stash =
            z.1.1.coord.stash.setAlgorithm (.forSpecVersion snap.specVersion) :=
          (round_topUp params z.1.1.toStaging snap plans).2.2
        rw [hstash] at hmem
        exact h.stash c hmem hsub
      | winReceipt receipt exhausted => exact nomatch hw
      | _ => exact h.win cand read hw
  | _ =>
    exact ⟨fun cand hc hsub => hold cand (h.stash cand hc hsub),
      fun cand read hw => hold cand (h.win cand read hw)⟩

/-- The feeder can submit whatever candidate it picked. -/
theorem win_submit_allowed (params : FeederParams) {z : (World × Submissions) × ChainClient}
    (h : (clientMachine params).Reachable z) {cand : Candidate} {read : ReadAt}
    (hw : z.1.2.win = some (cand, read)) (spin : Option AllowedValueSpec) :
    ∃ o, (clientMachine params).allowed z (.submitWin o spin) ∧ o.candidate.proof = cand.proof := by
  have hinv : StashScored z := by
    refine h.invariant (I := StashScored) ?_ ?_
    · exact ⟨fun _ hc => absurd hc List.not_mem_nil, fun _ _ hw => nomatch hw⟩
    intro z e hz hi ha
    have hworld := Machine.Layer.base_reachable (Machine.Layer.base_reachable hz)
    exact stashScored_next (World.roundInv_reachable hworld) hi ha
  obtain ⟨o, ho, rfl⟩ := hinv.win cand read hw
  refine ⟨o, ⟨⟨ho, ?_⟩, fun _ hd => nomatch hd⟩, rfl⟩
  rw [hw]
  rfl

/-- In every run whose submits find the root and the hash that their jobs were drawn under, or a
snapshot that cannot encode the proof, every proof that is signed names its problem. The first
submit that finds another one breaks this. The feeder may submit every candidate it picks. -/
theorem submitted_proofs_name_their_problem (params : FeederParams) (hinj : NoncesSeparateRoots)
    (hverify : LeaseNonces) {z : (World × Submissions) × ChainClient}
    (h : ((clientMachine params).restrict SnapshotMatches).Reachable z) :
    ProofsNamed z ∧
      (∀ e, (clientMachine params).allowed z e → ¬ SubmitMatches z e →
        ¬ ProofsNamed ((clientMachine params).next z e)) ∧
      ∀ cand read spin, z.1.2.win = some (cand, read) →
        ∃ o, (clientMachine params).allowed z (.submitWin o spin) ∧
          o.candidate.proof = cand.proof := by
  refine ⟨?_, fun e ha hok => ?_, fun cand read spin hw => ?_⟩
  · refine h.invariant (I := ProofsNamed) (fun _ hc => absurd hc List.not_mem_nil) ?_
    intro z e hz hn ha
    exact (namingInv_reachable hverify hz).named_next hinj ha.1.1 ha.2.2 hn
  · exact (namingInv_reachable hverify h).not_named_next hinj ha.1 hok
  · exact win_submit_allowed params h.of_restrict hw spin

end

namespace Rooted
open Sample (params snap mined nextSnap)

def addBytes (a b : Bytes32) : Bytes32 := Vector.ofFn fun i => a[i] + b[i]

/-- The sample crates with a nonce that depends on the root. -/
scoped instance crates : Crates :=
  { Sample.crates with deriveNonce := fun root _ salt => addBytes root salt }

scoped instance spinPacking : SpinPacking := Sample.spinPacking

def jobId : JobId := 2 :: List.replicate 31 1

def polled : List ClientEvent :=
  let scored : List SubmissionEvent := (mined snap [1]).take 6 ++
    [.result 0 ⟨jobId, [⟨[1], 0⟩], 0, [], []⟩, .take 0]
  .poll snap :: scored.map .other

def submitted : List ClientEvent := polled ++ [.submit 0 none]

def outrun : List ClientEvent := polled ++ [.poll nextSnap, .submit 0 none]

theorem noncesSeparateRoots : NoncesSeparateRoots := by
  intro root root' identity salt h
  have hsum : addBytes root salt = addBytes root' salt := h
  ext i hi
  have hget : (addBytes root salt)[i] = (addBytes root' salt)[i] := by rw [hsum]
  simp only [addBytes, Vector.getElem_ofFn] at hget
  exact congrArg UInt8.toNat ((UInt8.add_left_inj _).mp hget)

theorem leaseNonces : LeaseNonces := fun _ _ _ _ _ _ h => nomatch h

end Rooted

open Sample (params) in
open Rooted in
theorem submitted_proofs_name_their_problem_sample :
    ∃ c ∈ ((clientMachine params).run (clientMachine params).init submitted).2.calls,
      c.Names := by
  have hz := submitted_proofs_name_their_problem params noncesSeparateRoots leaseNonces
    (Machine.reachable_restrict_run submitted (by decide +kernel))
  have hne : ∃ c ∈ ((clientMachine params).run (clientMachine params).init submitted).2.calls,
      c.outcome.jobId = jobId := by decide +kernel
  obtain ⟨c, hc, -⟩ := hne
  exact ⟨c, hc, hz.1 c hc⟩

open Sample (params) in
open Rooted in
theorem poll_before_submit_renames_proof :
    NoncesSeparateRoots ∧ LeaseNonces ∧
      ¬ ∀ z, (clientMachine params).Reachable z → ProofsNamed z := by
  refine ⟨noncesSeparateRoots, leaseNonces, fun hall => ?_⟩
  have hreach := Machine.reachable_run (M := clientMachine params) outrun (by decide +kernel)
  have hbad : ∃ c ∈ ((clientMachine params).run (clientMachine params).init outrun).2.calls,
      c.quantum.nonce.toList ≠ c.outcome.jobId := by decide +kernel
  obtain ⟨c, hc, hne⟩ := hbad
  exact hne (hall _ hreach c hc).1

end QuipCoordinator
