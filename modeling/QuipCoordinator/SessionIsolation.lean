import QuipCoordinator.InflightLedger

/-!
# Frames are matched by job id alone

A `Result`, `Reject` or `LeaseDone` completes the job it names whoever it was
dispatched to. Ownership moves when a crashed miner's jobs are routed again, so a
late frame of the old owner completes the new owner's job: the jobs of the other
miners are safe exactly when none of them holds the id the frame names.
-/

namespace QuipCoordinator

def Section.frame : Section → Option (MinerId × JobId)
  | .takeResult minerId jobId => some (minerId, jobId)
  | .rejectJob minerId jobId _ => some (minerId, jobId)
  | .handleLeaseDone minerId done => some (minerId, done.jobId)
  | _ => none

/-- The sections by which a session settles a `Result`, its job taken or its lease read. -/
def Section.settles : Section → Bool
  | .noteResult _ | .recordBest _ | .settle _ _ => true
  | _ => false

namespace CoordinatorState

/-- The jobs in flight on the miners other than `a` stay in flight there, and none of them is
staged once more. -/
def Isolated (a : MinerId) (st st' : CoordinatorState) : Prop :=
  ∀ id job b, st.inflight.lookup id = some job → st.inflightOwner.lookup id = some b → b ≠ a →
    st'.inflight.lookup id = some job ∧ st'.inflightOwner.lookup id = some b ∧
      ∀ m, (st'.router.stagedOf m).count job ≤ (st.router.stagedOf m).count job

/-- What a frame for `jobId` does: it takes the job out of the ledger, and stages no other. -/
structure Answers (jobId : JobId) (st st' : CoordinatorState) : Prop where
  inflight : st'.inflight = st.inflight.erase jobId
  owner : st'.inflightOwner = st.inflightOwner.erase jobId
  staged : ∀ k, st.inflight.lookup jobId ≠ some k →
    ∀ m, (st'.router.stagedOf m).count k ≤ (st.router.stagedOf m).count k

theorem Answers.of_queues {jobId : JobId} {st st' : CoordinatorState}
    (hi : st'.inflight = st.inflight.erase jobId)
    (ho : st'.inflightOwner = st.inflightOwner.erase jobId)
    (hr : ∀ m, st'.router.stagedOf m = st.router.stagedOf m) : Answers jobId st st' where
  inflight := hi
  owner := ho
  staged := fun _ _ m => by rw [hr m]

theorem answers_takeResult (st : CoordinatorState) (minerId : MinerId) (jobId : JobId) :
    Answers jobId st (st.takeResult minerId jobId).1 := by
  obtain ⟨router, mined, hr, he⟩ := st.takeResult_eq minerId jobId
  rw [he]
  exact .of_queues rfl rfl fun m => (hr m).1

theorem count_routeExcluding_le {r : Router} {job k : Job} (hne : k ≠ job)
    (exclude : Option MinerId) (m : MinerId) :
    ((r.routeExcluding job exclude).1.stagedOf m).count k ≤ (r.stagedOf m).count k := by
  rcases r.routeExcluding_cases job exclude with ⟨i, hi, -, -, hr⟩ | ⟨-, hr⟩
  · rw [hr, Router.stagedOf_pushStaged r hi job m]
    split_ifs with hm
    · rw [List.count_append, List.count_singleton, if_neg (by simpa using Ne.symm hne)]
      exact le_rfl
    · exact le_rfl
  · rw [hr]
    exact le_rfl

theorem answers_rejectJob (st : CoordinatorState) (minerId : MinerId) (jobId : JobId)
    (reason : RejectReason) : Answers jobId st (st.rejectJob minerId jobId reason) := by
  cases hl : st.inflight.lookup jobId with
  | none =>
    refine .of_queues ?_ ?_ ?_ <;> simp [rejectJob, completeInflight, hl]
  | some job =>
    simp only [rejectJob, completeInflight, hl]
    refine ⟨rfl, rfl, ?_⟩
    intro k hk m
    have hne : k ≠ job := fun he => hk (he ▸ hl)
    change (((st.router.recordCompletion minerId).onReject minerId job reason).stagedOf m).count k ≤ _
    rw [Router.onReject_eq]
    refine (count_routeExcluding_le hne _ m).trans ?_
    rw [Router.stagedOf_marked, stagedOf_recordCompletion]

theorem answers_handleLeaseDone (st : CoordinatorState) (minerId : MinerId) (done : LeaseDone) :
    Answers done.jobId st (st.handleLeaseDone minerId done) := by
  obtain ⟨router, mined, hr, he⟩ := st.handleLeaseDone_eq minerId done
  rw [he]
  exact .of_queues rfl rfl fun m => (hr m).1

theorem Answers.isolated_iff {st st' : CoordinatorState} {jobId : JobId} (h : Answers jobId st st')
    (hst : st.Agrees) (a : MinerId) :
    Isolated a st st' ↔ ∀ b, st.inflightOwner.lookup jobId = some b → b = a := by
  constructor
  · intro hiso b hb
    by_contra hne
    have hin : jobId ∈ st.inflight :=
      (hst.owners jobId).mp (Finmap.mem_iff.mpr ⟨b, hb⟩)
    obtain ⟨job, hjob⟩ := Finmap.mem_iff.mp hin
    have hkept := (hiso jobId job b hjob hb hne).1
    rw [h.inflight, Finmap.lookup_erase_eq, if_pos rfl] at hkept
    cases hkept
  · intro hown id job b hjob hb hne
    have hid : id ≠ jobId := by
      intro he
      exact hne (hown b (he ▸ hb))
    refine ⟨?_, ?_, ?_⟩
    · rw [h.inflight, Finmap.lookup_erase_eq, if_neg hid, hjob]
    · rw [h.owner, Finmap.lookup_erase_eq, if_neg hid, hb]
    · intro m
      refine h.staged job ?_ m
      -- the two entries hold one job only under one id
      intro hsame
      exact hid ((hst.keyed id job hjob).symm.trans (hst.keyed jobId job hsame))

theorem isolated_of_eq {st st' : CoordinatorState} (a : MinerId)
    (hi : st'.inflight = st.inflight) (ho : st'.inflightOwner = st.inflightOwner)
    (hr : st'.router = st.router) : Isolated a st st' := by
  intro id job b hjob hb _
  exact ⟨hi ▸ hjob, ho ▸ hb, fun m => by rw [hr]⟩

end CoordinatorState

section
variable [Crates]
open CoordinatorState

theorem World.answers_next (params : FeederParams) (w : World) {e : Section} {a : MinerId}
    {jobId : JobId} (he : e.frame = some (a, jobId)) :
    Answers jobId w.coord (w.next params e).coord := by
  cases e with
  | takeResult minerId id =>
    cases he
    exact answers_takeResult w.coord a jobId
  | rejectJob minerId id reason =>
    cases he
    exact answers_rejectJob w.coord a jobId reason
  | handleLeaseDone minerId done =>
    cases he
    exact answers_handleLeaseDone w.coord a done
  | _ => cases he

theorem World.isolated_settles (params : FeederParams) (w : World) {e : Section}
    (he : e.settles = true) (a : MinerId) : Isolated a w.coord (w.next params e).coord := by
  cases e with
  | noteResult g =>
    change Isolated a w.coord (w.coord.noteResult g)
    rw [noteResult]
    split_ifs
    · exact isolated_of_eq a rfl rfl rfl
    · exact isolated_of_eq a rfl rfl rfl
  | recordBest energy => exact isolated_of_eq a rfl rfl rfl
  | settle o retain =>
    change Isolated a w.coord (w.coord.settle o retain)
    rw [settle]
    split_ifs
    · exact isolated_of_eq a rfl rfl rfl
    · exact isolated_of_eq a rfl rfl rfl
  | _ => cases he

/-- In every reachable state a frame that the session of `a` reads leaves the jobs of the other
miners in flight, owned and not staged again exactly when the id it names is not in flight on
another miner. What the session does afterwards, or for a lease that it only reads, always does. -/
theorem frame_isolates_iff_not_owned_by_another (params : FeederParams) {w : World}
    (h : (coordinatorMachine params).Reachable w) (a : MinerId) :
    (∀ e jobId, e.frame = some (a, jobId) →
      (Isolated a w.coord (w.next params e).coord ↔
        ∀ b, w.coord.inflightOwner.lookup jobId = some b → b = a)) ∧
    ∀ e, e.settles = true → Isolated a w.coord (w.next params e).coord := by
  have hst := (World.ledgerInv_reachable h).agrees
  refine ⟨?_, fun e he => World.isolated_settles params w he a⟩
  intro e jobId he
  exact (World.answers_next params w he).isolated_iff hst a

end

namespace Sample

def reassigned : List Section :=
  [.registerMiner "b" caps, .stopMining, .reseed snap none none, .topUp snap [⟨"b", 0, 1⟩],
    .dispatchGranted "b" 1 0, .registerMiner "a" caps, .childExit "b" [jobId],
    .dispatchGranted "a" 1 0]

end Sample

open Sample in
theorem frame_isolates_iff_not_owned_by_another_sample :
    let w := (coordinatorMachine params).run .init reassigned
    w.coord.inflightOwner.lookup jobId = some "a" ∧
      CoordinatorState.Isolated "a" w.coord (w.next params (.takeResult "a" jobId)).coord := by
  have hw : (coordinatorMachine params).Reachable ((coordinatorMachine params).run .init reassigned) :=
    Machine.reachable_run (M := coordinatorMachine params) reassigned (by decide +kernel)
  have hown : ((coordinatorMachine params).run .init reassigned).coord.inflightOwner.lookup jobId =
      some "a" := by decide +kernel
  refine ⟨hown, ((frame_isolates_iff_not_owned_by_another params hw "a").1
    (.takeResult "a" jobId) jobId rfl).mpr ?_⟩
  intro b hb
  rw [hown] at hb
  exact (Option.some.inj hb).symm

open Sample in
/-- The late `Result` of `b` takes the job from `a`. -/
theorem late_frame_takes_job_of_new_owner :
    ¬ ∀ w, (coordinatorMachine params).Reachable w → ∀ e a id, e.frame = some (a, id) →
      CoordinatorState.Isolated a w.coord (w.next params e).coord := by
  intro hall
  have hw : (coordinatorMachine params).Reachable ((coordinatorMachine params).run .init reassigned) :=
    Machine.reachable_run (M := coordinatorMachine params) reassigned (by decide +kernel)
  have hjob : (((coordinatorMachine params).run .init reassigned).coord.inflight.lookup
      jobId).isSome = true := by decide +kernel
  obtain ⟨job, hjob⟩ := Option.isSome_iff_exists.mp hjob
  have hkept := (hall _ hw (.takeResult "b" jobId) "b" jobId rfl jobId job "a" hjob
    (by decide +kernel) (by decide)).1
  have hgone : (((coordinatorMachine params).run .init reassigned).next params
      (.takeResult "b" jobId)).coord.inflight.lookup jobId = none := by decide +kernel
  rw [hgone] at hkept
  cases hkept

end QuipCoordinator
