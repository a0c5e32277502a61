import QuipCoordinator.StashBest

/-!
# One entry for each attempt

The layer of the stash's history over the submitters: what the stash took since its
last reset and which ids were marked submitted since. Every section makes at most
one call to the stash, so the history is a run of the stash as long as no retained
outcome comes under an id that the stash has taken. A lease stays in flight across
its results, so the session itself does not see to that.
-/

namespace QuipCoordinator

structure StashHistory where
  run : StashRun
  marked : List JobId
deriving DecidableEq

namespace StashCall

def marks (marked : List JobId) : StashCall → List JobId
  | .markSubmitted jobId => marked ++ [jobId]
  | .reset _ _ _ => []
  | .insert _ | .setAlgorithm _ => marked

end StashCall

section
variable [Crates]

namespace World

def stashCall (w : World) : Section → Option StashCall
  | .settle o retain => if !o.validated.accepted || retain then some (.insert o.candidate) else none
  | .stopMining => some (.reset (satAdd 64 w.generation 1) none 0)
  | .reseed snap _ decay =>
    let decay := if snap.topologyHash.length = 32 then decay else none
    some (.reset w.generation (decay.map (decayModel snap)) (decay.elim 0 (·.lastProofBlock)))
  | .topUp snap _ => some (.setAlgorithm (.forSpecVersion snap.specVersion))
  | .winSuccess cand => some (.markSubmitted cand.jobId)
  | .markSubmitted jobId => some (.markSubmitted jobId)
  | _ => none

theorem stash_next (params : FeederParams) (w : World) (e : Section) :
    (w.next params e).coord.stash = (w.stashCall e).elim w.coord.stash w.coord.stash.call := by
  cases hm : e.moves with
  | true =>
    rw [(next_moves params w hm).stash]
    cases e <;> first | rfl | exact absurd hm Bool.noConfusion
  | false =>
    cases e with
    | settle o retain =>
      change (w.coord.settle o retain).stash = _
      rw [CoordinatorState.settle, stashCall]
      split_ifs <;> rfl
    | topUp snap plans => exact (round_topUp params w.toStaging snap plans).2.2
    | stageMempoolOrders orders => exact (sameRound_next params w rfl).stash
    | stopMining | reseed _ _ _ | winSuccess _ | markSubmitted _ | registerWakeup _ _
    | deregisterOutbound _ | recordBest _ => rfl
    | _ => exact absurd hm Bool.noConfusion

end World

namespace StashHistory

def init : StashHistory := ⟨(stashMachine winStashK).init, []⟩

def call (t : StashHistory) (e : StashCall) : StashHistory := ⟨t.run.next e, e.marks t.marked⟩

end StashHistory

def Submissions.stashCall (c : Submissions) (w : World) (e : SubmissionEvent) : Option StashCall :=
  (c.emit e).bind w.stashCall

def stashLayer (params : FeederParams) :
    Machine.Layer (submissionMachine params) StashHistory SubmissionEvent where
  init := .init
  guard _ _ _ := True
  emit _ _ e := some e
  next x t e := (x.2.stashCall x.1 e).elim t t.call

abbrev stashHistoryMachine (params : FeederParams) :
    Machine ((World × Submissions) × StashHistory) SubmissionEvent :=
  (stashLayer params).machine

/-- No retained outcome is settled under the id of a candidate that the stash took since its last
reset. -/
def Unrepeated (x : (World × Submissions) × StashHistory) (e : SubmissionEvent) : Prop :=
  ∀ call ∈ x.1.2.stashCall x.1.1 e, x.2.run.Fresh call

instance (params : FeederParams) (x : (World × Submissions) × StashHistory) (e : SubmissionEvent) :
    Decidable ((stashHistoryMachine params).allowed x e) :=
  inferInstanceAs (Decidable (True ∧ ∀ d ∈ some e, (submissionMachine params).allowed x.1 d))

instance (x : (World × Submissions) × StashHistory) (e : SubmissionEvent) :
    Decidable (Unrepeated x e) :=
  inferInstanceAs (Decidable (∀ call ∈ x.1.2.stashCall x.1.1 e, _))

structure HistoryInv (x : (World × Submissions) × StashHistory) : Prop where
  stash : x.1.1.coord.stash = x.2.run.stash
  run : (stashMachine winStashK).Reachable x.2.run
  marked : ∀ id ∈ x.2.marked, ∃ c ∈ x.2.run.viable, c.jobId = id ∧ c.submitted = true
  win : ∀ cand read, x.1.2.win = some (cand, read) → ∃ c ∈ x.2.run.viable, c.jobId = cand.jobId

theorem stash_submission (params : FeederParams) (x : World × Submissions) (e : SubmissionEvent) :
    ((submissionMachine params).next x e).1.coord.stash =
      (x.2.stashCall x.1 e).elim x.1.coord.stash x.1.coord.stash.call := by
  rw [Submissions.stashCall]
  refine Machine.Layer.base_next (P := fun w : World => w.coord.stash = _) ?_ ?_
  · intro (hd : x.2.emit e = none)
    rw [hd]
    rfl
  · intro d (hd : x.2.emit e = some d)
    rw [hd]
    exact World.stash_next params x.1 d

theorem World.stashCall_steady {w : World} {d : Section} (h : d.moves = true ∨ d.idle = true) :
    w.stashCall d = none := by
  cases d <;> first | rfl | simp [Section.moves, Section.idle] at h

theorem Submissions.stashCall_cases {c : Submissions} {w : World} {e : SubmissionEvent}
    (hg : c.Guard e) {call : StashCall} (h : c.stashCall w e = some call) :
    (∃ o retain, c.emit e = some (.settle o retain) ∧ call = .insert o.candidate) ∨
    (∃ cand read, c.win = some (cand, read) ∧ call = .markSubmitted cand.jobId) ∨
    (∃ g model block, c.win = none ∧ call = .reset g model block) ∨
    ∃ algorithm, call = .setAlgorithm algorithm := by
  obtain ⟨d, hd, hcall⟩ := Option.bind_eq_some_iff.mp h
  cases hs : e.steady with
  | true =>
    rw [w.stashCall_steady (c.emit_steady hs hg hd)] at hcall
    cases hcall
  | false =>
    cases e with
    | receipt tx receipt =>
      obtain ⟨energy, -, rfl⟩ := Option.map_eq_some_iff.mp hd
      cases hcall
    | settle tx =>
      obtain ⟨r, o, retain, read, -, -, rfl⟩ := Submissions.emit_settle hd
      rw [World.stashCall] at hcall
      split_ifs at hcall
      cases hcall
      exact Or.inl ⟨o, retain, hd, rfl⟩
    | stopMining =>
      cases hd
      cases hcall
      exact Or.inr (Or.inr (Or.inl ⟨_, _, _, hg, rfl⟩))
    | reseed snap q dp =>
      cases hd
      cases hcall
      exact Or.inr (Or.inr (Or.inl ⟨_, _, _, hg, rfl⟩))
    | topUp snap plans block =>
      cases hd
      cases hcall
      exact Or.inr (Or.inr (Or.inr ⟨_, rfl⟩))
    | winReceipt receipt exhausted =>
      obtain ⟨cand, read, hw, ⟨-, rfl⟩ | rfl⟩ := Submissions.emit_winReceipt hd <;> cases hcall <;>
        exact Or.inr (Or.inl ⟨cand, read, hw, rfl⟩)
    | _ => exact absurd hs Bool.noConfusion

namespace StashRun

theorem taken_next {r : StashRun} {e : StashCall} (he : ∀ g m b, e ≠ .reset g m b) {c : Candidate}
    (hc : c ∈ r.viable) :
    ∃ c' ∈ (r.next e).viable, c'.jobId = c.jobId ∧ (c.submitted = true → c'.submitted = true) := by
  cases e with
  | insert cand =>
    refine ⟨c, ?_, rfl, id⟩
    simp only [next]
    split_ifs
    · exact List.mem_append_left _ hc
    · exact hc
  | markSubmitted jobId =>
    refine ⟨c.mark jobId, List.mem_map_of_mem hc, c.jobId_mark jobId, fun hs => ?_⟩
    rw [Candidate.mark]
    split_ifs
    · rfl
    · exact hs
  | setAlgorithm algorithm => exact ⟨c, hc, rfl, id⟩
  | reset g m b => exact absurd rfl (he g m b)

end StashRun

theorem Submissions.win_next (params : FeederParams) {x : World × Submissions}
    {e : SubmissionEvent} {cand : Candidate} {read : ReadAt}
    (hw : ((submissionMachine params).next x e).2.win = some (cand, read)) :
    x.2.win = some (cand, read) ∨
      cand ∈ ((submissionMachine params).next x e).1.coord.stash.candidates := by
  cases e with
  | topUp snap plans block =>
    obtain ⟨c, hc, heq⟩ := Option.map_eq_some_iff.mp hw
    obtain ⟨rfl, -⟩ := Prod.mk.inj heq
    exact Or.inr (WinStash.dueImproving_mem (Option.filter_eq_some_iff.mp hc).1)
  | winReceipt receipt exhausted => exact nomatch hw
  | _ => exact Or.inl hw

namespace HistoryInv

theorem mem_viable {x : (World × Submissions) × StashHistory} (h : HistoryInv x) {c : Candidate}
    (hc : c ∈ x.1.1.coord.stash.candidates) : c ∈ x.2.run.viable := by
  rw [h.stash, (StashRun.kept_reachable h.run).held] at hc
  exact WinStash.mem_of_mem_take_ranked hc

theorem call {x : (World × Submissions) × StashHistory} (h : HistoryInv x) {e : SubmissionEvent}
    (hg : x.1.2.Guard e) {call : StashCall} (hc : x.1.2.stashCall x.1.1 e = some call) :
    ∀ id ∈ call.marks x.2.marked,
      ∃ c ∈ (x.2.run.next call).viable, c.jobId = id ∧ c.submitted = true := by
  intro id hid
  have hkeep : (∀ g m b, call ≠ .reset g m b) → id ∈ x.2.marked →
      ∃ c ∈ (x.2.run.next call).viable, c.jobId = id ∧ c.submitted = true := by
    intro hne hold
    obtain ⟨c, hc, rfl, hsub⟩ := h.marked id hold
    obtain ⟨c', hc', hj, hs⟩ := StashRun.taken_next hne hc
    exact ⟨c', hc', hj, hs hsub⟩
  obtain ⟨o, retain, -, rfl⟩ | ⟨cand, read, hw, rfl⟩ | ⟨g, m, b, -, rfl⟩ | ⟨algorithm, rfl⟩ :=
    Submissions.stashCall_cases hg hc
  · exact hkeep (by simp) hid
  · rcases List.mem_append.mp hid with hold | hnew
    · exact hkeep (by simp) hold
    · obtain ⟨c, hc, hj⟩ := h.win cand read hw
      rw [List.mem_singleton.mp hnew]
      refine ⟨c.mark cand.jobId, List.mem_map_of_mem hc, (c.jobId_mark _).trans hj, ?_⟩
      rw [Candidate.mark, if_pos hj]
  · exact absurd hid List.not_mem_nil
  · exact hkeep (by simp) hid

end HistoryInv

theorem historyInv_next (params : FeederParams) {x : (World × Submissions) × StashHistory}
    {e : SubmissionEvent} (h : HistoryInv x) (ha : (stashHistoryMachine params).allowed x e)
    (hok : Unrepeated x e) : HistoryInv ((stashHistoryMachine params).next x e) := by
  have hg : x.1.2.Guard e := (ha.2 e rfl).1
  have hstash := stash_submission params x.1 e
  cases hc : x.1.2.stashCall x.1.1 e with
  | none =>
    have hnext : ((stashHistoryMachine params).next x e).2 = x.2 := by
      change (x.1.2.stashCall x.1.1 e).elim x.2 x.2.call = x.2
      rw [hc]
      rfl
    rw [hc] at hstash
    have hsame : ((stashHistoryMachine params).next x e).1.1.coord.stash =
      ((stashHistoryMachine params).next x e).2.run.stash := by
      rw [hnext]
      exact hstash.trans h.stash
    refine ⟨hsame, hnext ▸ h.run, hnext ▸ h.marked, ?_⟩
    intro cand read hw
    rw [hnext]
    rcases Submissions.win_next params hw with hold | hmem
    · exact h.win cand read hold
    · rw [show ((submissionMachine params).next x.1 e).1.coord.stash = _ from hstash] at hmem
      exact ⟨cand, h.mem_viable hmem, rfl⟩
  | some call =>
    have hnext : ((stashHistoryMachine params).next x e).2 = x.2.call call := by
      change (x.1.2.stashCall x.1.1 e).elim x.2 x.2.call = x.2.call call
      rw [hc]
      rfl
    rw [hc] at hstash
    have hrun : (stashMachine winStashK).Reachable (x.2.run.next call) := h.run.step (hok call hc)
    have hsame : ((stashHistoryMachine params).next x e).1.1.coord.stash =
        (x.2.run.next call).stash := by
      refine hstash.trans ?_
      rw [h.stash]
      rfl
    refine ⟨by rw [hnext]; exact hsame, by rw [hnext]; exact hrun, ?_, ?_⟩
    · rw [hnext]
      exact h.call hg hc
    · intro cand read hw
      rw [hnext]
      rcases Submissions.win_next params hw with hold | hmem
      · obtain ⟨c, hcv, hj⟩ := h.win cand read hold
        have hne : ∀ g m b, call ≠ .reset g m b := by
          intro g m b heq
          rcases Submissions.stashCall_cases hg hc with ⟨_, _, -, rfl⟩ | ⟨_, _, -, rfl⟩ |
            ⟨_, _, _, hnone, -⟩ | ⟨_, rfl⟩
          · cases heq
          · cases heq
          · exact nomatch hnone.symm.trans hold
          · cases heq
        obtain ⟨c', hc', hj', -⟩ := StashRun.taken_next hne hcv
        exact ⟨c', hc', hj'.trans hj⟩
      · rw [show ((submissionMachine params).next x.1 e).1.coord.stash = _ from hsame,
          (StashRun.kept_reachable hrun).held] at hmem
        exact ⟨cand, WinStash.mem_of_mem_take_ranked hmem, rfl⟩

theorem historyInv_reachable {params : FeederParams} {x : (World × Submissions) × StashHistory}
    (h : ((stashHistoryMachine params).restrict Unrepeated).Reachable x) : HistoryInv x := by
  refine h.invariant (I := HistoryInv) ⟨rfl, .init, ?_, ?_⟩ ?_
  · exact fun _ hid => absurd hid List.not_mem_nil
  · exact fun _ _ hw => nomatch hw
  · exact fun x e _ hi ha => historyInv_next params hi ha.1 ha.2

/-- While no retained outcome comes under the id of a candidate that the stash has taken, no two
candidates share a job id, an insert says whether the candidate itself is held, a repeated report
changes nothing, and what was marked submitted is not due again. -/
theorem stash_entries_unique (params : FeederParams) {x : (World × Submissions) × StashHistory}
    (h : ((stashHistoryMachine params).restrict Unrepeated).Reachable x) :
    (x.1.1.coord.stash.candidates.map (·.jobId)).Nodup ∧
    (∀ e o retain, ((stashHistoryMachine params).restrict Unrepeated).allowed x e →
      x.1.2.emit e = some (.settle o retain) →
      ((!o.validated.accepted || retain) = true → ((x.1.1.coord.stash.insert o.candidate).2 = true ↔
        o.candidate ∈ ((stashHistoryMachine params).next x e).1.1.coord.stash.candidates)) ∧
      (o.jobId ∈ x.2.run.viable.map (·.jobId) →
        ((stashHistoryMachine params).next x e).1.1.coord.stash = x.1.1.coord.stash)) ∧
    ∀ id ∈ x.2.marked, ∀ block cand,
      x.1.1.coord.stash.dueAt block = some cand → cand.jobId ≠ id := by
  have hinv := historyInv_reachable h
  have hkept := StashRun.kept_reachable hinv.run
  refine ⟨?_, ?_, ?_⟩
  · rw [hinv.stash, hkept.held]
    exact WinStash.nodup_take_ranked hkept.ids
  · intro e o retain ha hd
    have hcall : x.1.2.stashCall x.1.1 e =
        if !o.validated.accepted || retain then some (.insert o.candidate) else none := by
      rw [Submissions.stashCall, hd]
      rfl
    have hstash := stash_submission params x.1 e
    constructor
    · intro hretain
      rw [if_pos hretain] at hcall
      rw [hcall] at hstash
      have hnext : ((stashHistoryMachine params).next x e).1.1.coord.stash =
        (x.1.1.coord.stash.insert o.candidate).1 := hstash
      rw [hnext, hinv.stash]
      exact StashRun.insert_held_iff hkept (ha.2 _ hcall)
    · intro htaken
      split_ifs at hcall with hretain
      · exact absurd htaken (ha.2 _ hcall)
      · rw [hcall] at hstash
        exact hstash
  · intro id hid block cand hdue hj
    obtain ⟨hmem, hsub, -⟩ := WinStash.dueAt_eq_some hdue
    obtain ⟨c, hc, hcid, hcsub⟩ := hinv.marked id hid
    have hsame : cand = c :=
      List.inj_on_of_nodup_map hkept.ids (hinv.mem_viable hmem) hc (hj.trans hcid.symm)
    rw [hsame, hcsub] at hsub
    cases hsub

end
namespace Reported
open Sample (params leaseCaps)

def authentic (generator : IsingProblemGenerator) (result : ResultFrame) : Option Verified :=
  (List.range generator.saltCount).findSome? fun i =>
    let salt := saltFromCounter (generator.saltStart + i)
    let nonce := Sample.crates.deriveNonce (Vector.replicate 32 1) params.minerIdentity salt
    if result.salt = salt.toList ∧ result.nonce = nonce.toList then some ⟨nonce, salt⟩ else none

scoped instance crates : Crates :=
  { Sample.crates with verifyLeaseResult := fun generator _ result => authentic generator result }

def hardSnap : MiningSnapshot := { Sample.snap with allowedJMilli := [2000], maxEnergyMilli := -2000 }

def easedSnap : MiningSnapshot := { hardSnap with maxEnergyMilli := -1000 }

def leased : List SubmissionEvent :=
  [.other (.registerMiner "a" leaseCaps), .stopMining,
    .reseed hardSnap none (some ⟨-2000, 0, 0, 0, 25600, 0⟩), .topUp hardSnap [⟨"a", 0, 1⟩] 0,
    .other (.dispatchGranted "a" 1 0), .hello 0 "a"]

def report : List SubmissionEvent :=
  [.result 0 ⟨leaseJobId 1, [⟨[1], -2000⟩], 0, (saltFromCounter 1).toList,
    (saltFromCounter 1).toList⟩, .take 0, .note 0, .settle 0]

/-- The ceiling has eased, and the feeder submits the due candidate into a round that is over. -/
def submit : List SubmissionEvent :=
  [.topUp easedSnap [⟨"a", 0, 1⟩] 25600, .winReceipt (some .stopRoundStale) false]

end Reported

open Sample (params) in
open Reported in
theorem stash_entries_unique_sample :
    let x := (stashHistoryMachine params).run (stashHistoryMachine params).init
      (leased ++ report ++ submit)
    x.1.1.coord.stash.candidates.map (·.jobId) = [(saltFromCounter 1).toList] ∧
      ∀ block cand, x.1.1.coord.stash.dueAt block = some cand →
        cand.jobId ≠ (saltFromCounter 1).toList := by
  have hx := stash_entries_unique params
    (Machine.reachable_restrict_run (leased ++ report ++ submit) (by decide +kernel))
  refine ⟨by decide +kernel, ?_⟩
  intro block cand hdue
  exact hx.2.2 _ (by decide +kernel) block cand hdue

open Sample (params) in
open Reported in
/-- The same salt reported twice is held twice, and its second entry is due again after the first
is marked submitted. -/
theorem repeated_report_held_twice :
    ∃ x, (stashHistoryMachine params).Reachable x ∧
      ¬(x.1.1.coord.stash.candidates.map (·.jobId)).Nodup ∧
      ∃ id ∈ x.2.marked, ∃ cand, x.1.1.coord.stash.dueAt 25600 = some cand ∧ cand.jobId = id := by
  refine ⟨_, Machine.reachable_run (leased ++ report ++ report ++ submit) (by decide +kernel),
    by decide +kernel, (saltFromCounter 1).toList, by decide +kernel, ?_⟩
  have hdue : (((stashHistoryMachine params).run (stashHistoryMachine params).init
      (leased ++ report ++ report ++ submit)).1.1.coord.stash.dueAt 25600).map (·.jobId) =
        some (saltFromCounter 1).toList := by decide +kernel
  exact Option.map_eq_some_iff.mp hdue

end QuipCoordinator
