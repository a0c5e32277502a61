import QuipCoordinator.CriticalSections

/-!
# What a section leaves alone

Dispatching, rejecting and completing jobs touches the router, the in-flight
ledger and the mark of the round, and nothing else. `rest` is everything else, so
one equation says of each such section what it leaves of every other field.
-/

namespace QuipCoordinator

namespace CoordinatorState

def rest (st : CoordinatorState) : CoordinatorState :=
  { st with
    router := .new
    inflight := ∅
    inflightOwner := ∅
    leaseIssuedAt := ∅
    minedGeneration := none }

theorem of_rest {α : Type} (f : CoordinatorState → α) (hf : ∀ st, f st.rest = f st)
    {st st' : CoordinatorState} (h : st'.rest = st.rest) : f st' = f st := by
  rw [← hf st', h, hf]

theorem rest_drain (minerId : MinerId) (now fuel : Nat) (st : CoordinatorState) :
    (drain minerId now fuel st).1.rest = st.rest := by
  refine drain_induct (P := fun st out => out.1.rest = st.rest) ?_ ?_ ?_ fuel st
  · exact fun st => rfl
  · exact fun st r _ => rfl
  · exact fun st r job out _ ih => ih

theorem rest_noteResult (st : CoordinatorState) (g : Nat) : (st.noteResult g).rest = st.rest := by
  rw [noteResult]
  split_ifs <;> rfl

theorem rest_rejectJob (st : CoordinatorState) (minerId : MinerId) (jobId : JobId)
    (reason : RejectReason) : (st.rejectJob minerId jobId reason).rest = st.rest := by
  rw [rejectJob]
  cases hl : st.inflight.lookup jobId <;> simp only [completeInflight, hl] <;> rfl

theorem rest_handleLeaseDone (st : CoordinatorState) (minerId : MinerId) (done : LeaseDone) :
    (st.handleLeaseDone minerId done).rest = st.rest := by
  obtain ⟨router, mined, -, he⟩ := st.handleLeaseDone_eq minerId done
  rw [he]
  rfl

theorem rest_takeResult (st : CoordinatorState) (minerId : MinerId) (jobId : JobId) :
    (st.takeResult minerId jobId).1.rest = { st.rest with salts := st.salts.erase jobId } := by
  obtain ⟨router, mined, -, he⟩ := st.takeResult_eq minerId jobId
  rw [he]
  rfl

theorem rest_reclaimMiner (st : CoordinatorState) (minerId : MinerId) (owned : List JobId) :
    (st.reclaimMiner minerId owned).1.rest =
      { st.rest with outbound := st.outbound.erase minerId } := by
  have hfold : ∀ (owned : List JobId) (acc : CoordinatorState × List Job),
      (owned.foldl reclaimInflight acc).1.rest = acc.1.rest := by
    intro owned
    induction owned with
    | nil => exact fun acc => rfl
    | cons id owned ih => exact fun acc => ih _
  have h := hfold owned (st, [])
  change { (owned.foldl reclaimInflight (st, [])).1.rest with
    outbound := (owned.foldl reclaimInflight (st, [])).1.rest.outbound.erase minerId } = _
  rw [h]
  rfl

theorem rest_childExit (st : CoordinatorState) (minerId : MinerId) (owned : List JobId) :
    (st.childExit minerId owned).rest = { st.rest with outbound := st.outbound.erase minerId } :=
  rest_reclaimMiner st minerId owned

end CoordinatorState

def Section.shuffles : Section → Bool
  | .registerMiner _ _ | .applyCapabilities _ _ | .dispatchGranted _ _ _ | .noteResult _
  | .rejectJob _ _ _ | .handleLeaseDone _ _ => true
  | _ => false

theorem World.rest_next [Crates] (params : FeederParams) (w : World) {e : Section}
    (h : e.shuffles = true) : (w.next params e).coord.rest = w.coord.rest := by
  cases e with
  | registerMiner minerId caps => rfl
  | applyCapabilities minerId caps =>
    change (w.coord.applyCapabilities minerId caps).1.rest = _
    rw [CoordinatorState.applyCapabilities]
    split_ifs <;> rfl
  | dispatchGranted minerId credits now => exact CoordinatorState.rest_drain minerId now _ _
  | noteResult g => exact CoordinatorState.rest_noteResult w.coord g
  | rejectJob minerId jobId reason =>
    exact CoordinatorState.rest_rejectJob w.coord minerId jobId reason
  | handleLeaseDone minerId done => exact CoordinatorState.rest_handleLeaseDone w.coord minerId done
  | _ => exact absurd h Bool.noConfusion

end QuipCoordinator
