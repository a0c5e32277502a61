import QuipCoordinator.HungryQueues

/-!
# What moves the credits of a miner

A registration, a drain and the end of the process are the sections that touch
the credits of a miner, each only those of the miner it names. A drain turns the
credits it grants and those it finds into jobs, one for one.
-/

namespace QuipCoordinator

namespace Router

def SameCredits (m : MinerId) (r r' : Router) : Prop :=
  r'.creditsOf m = r.creditsOf m ∧ (m ∈ r'.miners ↔ m ∈ r.miners)

theorem SameCredits.refl (m : MinerId) (r : Router) : SameCredits m r r := ⟨rfl, Iff.rfl⟩

theorem SameCredits.trans {m : MinerId} {r r' r'' : Router} (h : SameCredits m r r')
    (h' : SameCredits m r' r'') : SameCredits m r r'' :=
  ⟨h'.1.trans h.1, h'.2.trans h.2⟩

theorem sameCredits_update {f : MinerQueue → MinerQueue}
    (hf : ∀ q, (f q).grantedCredits = q.grantedCredits) (m : MinerId) (r : Router) (id : MinerId) :
    SameCredits m r (r.update id f) :=
  ⟨creditsOf_update hf r id m, mem_update r id m f⟩

theorem sameCredits_mapValues {f : MinerQueue → MinerQueue}
    (hf : ∀ q, (f q).grantedCredits = q.grantedCredits) (m : MinerId) (r : Router) :
    SameCredits m r { r with miners := r.miners.mapValues f } := by
  refine ⟨?_, Finmap.mem_mapValues ..⟩
  simp only [creditsOf, Finmap.lookup_mapValues]
  cases r.miners.lookup m with
  | none => rfl
  | some q => exact hf q

theorem sameCredits_route (m : MinerId) (r : Router) (job : Job) (exclude : Option MinerId) :
    SameCredits m r (r.routeExcluding job exclude).1 :=
  ⟨creditsOf_routeExcluding r job exclude m, mem_routeExcluding r job exclude m⟩

theorem sameCredits_foldl_route (m : MinerId) (jobs : List Job) (r : Router) :
    SameCredits m r (jobs.foldl (fun r job => (r.route job).1) r) := by
  induction jobs generalizing r with
  | nil => exact .refl m r
  | cons job jobs ih => exact (sameCredits_route m r job none).trans (ih _)

end Router

open Router

namespace CoordinatorState

theorem drain_pays {minerId : MinerId} (now fuel : Nat) (st : CoordinatorState) :
    (drain minerId now fuel st).1.router.creditsOf minerId + (drain minerId now fuel st).2.length =
      st.router.creditsOf minerId ∧
    ∀ m, m ∈ (drain minerId now fuel st).1.router.miners ↔ m ∈ st.router.miners := by
  refine drain_induct (P := fun st out => out.1.router.creditsOf minerId + out.2.length =
    st.router.creditsOf minerId ∧ ∀ m, m ∈ out.1.router.miners ↔ m ∈ st.router.miners)
    ?_ ?_ ?_ fuel st
  · exact fun st => ⟨rfl, fun m => Iff.rfl⟩
  · intro st r hnext
    obtain ⟨hc, -, hm⟩ := st.router.nextJob_credits minerId
    rw [hnext] at hc hm
    exact ⟨hc, hm⟩
  · intro st r job out hnext ih
    obtain ⟨hc, -, hm⟩ := st.router.nextJob_credits minerId
    rw [hnext] at hc hm
    obtain ⟨hout, hmem⟩ := ih
    refine ⟨?_, fun m => (hmem m).trans (hm m)⟩
    change out.1.router.creditsOf minerId + out.2.length = r.creditsOf minerId at hout
    change r.creditsOf minerId + 1 = _ at hc
    simp only [List.length_cons]
    omega

theorem mem_dispatchGranted (st : CoordinatorState) (minerId : MinerId) (credits now : Nat)
    (m : MinerId) :
    m ∈ (st.dispatchGranted minerId credits now).1.router.miners ↔ m ∈ st.router.miners :=
  ((drain_pays now _ _).2 m).trans (mem_update st.router minerId m _)

theorem dispatchGranted_pays {st : CoordinatorState} {minerId : MinerId}
    (hm : minerId ∈ st.router.miners) {credits : Nat}
    (hfit : st.router.creditsOf minerId + credits ≤ 2 ^ 32 - 1) (now : Nat) :
    (st.dispatchGranted minerId credits now).1.router.creditsOf minerId +
        (st.dispatchGranted minerId credits now).2.length =
      st.router.creditsOf minerId + credits := by
  have hgrant := creditsOf_grantCredits st.router minerId credits minerId
  rw [if_pos ⟨rfl, hm⟩, satAdd, min_eq_left hfit] at hgrant
  exact (drain_pays now _ _).1.trans hgrant

theorem sameCredits_rejectJob (m : MinerId) (st : CoordinatorState) (minerId : MinerId)
    (jobId : JobId) (reason : RejectReason) :
    SameCredits m st.router (st.rejectJob minerId jobId reason).router := by
  rw [rejectJob]
  cases hl : st.inflight.lookup jobId with
  | none =>
    simp only [completeInflight, hl]
    exact .refl m _
  | some job =>
    simp only [completeInflight, hl]
    have hcount : SameCredits m st.router (st.router.recordCompletion minerId) :=
      sameCredits_update (by intro q; rfl) m st.router minerId
    exact hcount.trans ⟨creditsOf_onReject _ minerId job reason m, mem_onReject _ minerId job reason m⟩

theorem sameCredits_takeResult (m : MinerId) (st : CoordinatorState) (minerId : MinerId)
    (jobId : JobId) : SameCredits m st.router (st.takeResult minerId jobId).1.router := by
  cases hl : st.inflight.lookup jobId with
  | none =>
    simp only [takeResult, completeInflight, hl, takeSalt]
    exact .refl m _
  | some job =>
    simp only [takeResult, completeInflight, hl, takeSalt, noteResult]
    split_ifs <;> exact sameCredits_update (by intro q; rfl) m st.router minerId

theorem sameCredits_handleLeaseDone (m : MinerId) (st : CoordinatorState) (minerId : MinerId)
    (done : LeaseDone) : SameCredits m st.router (st.handleLeaseDone minerId done).router := by
  have hsalts : SameCredits m st.router (st.router.recordLeaseSalts minerId done.saltsDone) :=
    sameCredits_update (by intro q; rfl) m st.router minerId
  have hcount : SameCredits m st.router
      ((st.router.recordLeaseSalts minerId done.saltsDone).recordCompletion minerId) :=
    hsalts.trans (sameCredits_update (by intro q; rfl) m _ minerId)
  have hround : SameCredits m st.router (((st.router.recordLeaseSalts minerId
      done.saltsDone).recordCompletion minerId).recordRoundSalts minerId done.saltsDone) :=
    hcount.trans (sameCredits_update (by intro q; rfl) m _ minerId)
  cases hl : st.inflight.lookup done.jobId with
  | none =>
    simp only [handleLeaseDone, completeInflight, hl]
    exact hsalts
  | some job =>
    by_cases hg : job.generation = st.generation
    · simp only [handleLeaseDone, completeInflight, hl, noteResult, if_pos hg]
      split_ifs <;> exact hround
    · simp only [handleLeaseDone, completeInflight, hl, noteResult, if_neg hg, ite_self]
      exact hcount

theorem sameCredits_childExit {m : MinerId} {st : CoordinatorState} {minerId : MinerId}
    {owned : List JobId} (hn : owned.Nodup) (hne : m ≠ minerId) :
    SameCredits m st.router (st.childExit minerId owned).router := by
  rw [childExit, reclaimMiner_eq st minerId hn]
  refine SameCredits.trans ⟨?_, mem_reclaim st.router minerId m⟩ (sameCredits_foldl_route m _ _)
  rw [creditsOf_reclaim, if_neg hne]

end CoordinatorState

def Section.payee : Section → Option MinerId
  | .registerMiner m _ | .dispatchGranted m _ _ | .childExit m _ => some m
  | _ => none

variable [Crates]
open CoordinatorState

theorem World.sameCredits_next (params : FeederParams) {w : World} {d : Section} {m : MinerId}
    (ha : w.Allowed d) (h : d.payee ≠ some m) :
    SameCredits m w.coord.router (w.next params d).coord.router := by
  have hne : ∀ minerId, d.payee = some minerId → m ≠ minerId := by
    intro minerId hp heq
    exact h (heq ▸ hp)
  cases d with
  | registerMiner minerId caps =>
    have hm := hne minerId rfl
    refine ⟨?_, (mem_registerMiner w.coord.router minerId caps m).trans (or_iff_right hm)⟩
    exact (creditsOf_registerMiner w.coord.router minerId caps m).trans (if_neg hm)
  | dispatchGranted minerId credits now =>
    have hm := hne minerId rfl
    refine ⟨?_, mem_dispatchGranted w.coord minerId credits now m⟩
    refine (drain_credits_of_ne now _ _ hm).trans ?_
    exact (creditsOf_grantCredits w.coord.router minerId credits m).trans (if_neg fun h => hm h.1)
  | takeResult minerId jobId => exact sameCredits_takeResult m w.coord minerId jobId
  | noteResult g =>
    change SameCredits m w.coord.router (w.coord.noteResult g).router
    rw [noteResult]
    split_ifs <;> exact .refl m _
  | settle o retain =>
    change SameCredits m w.coord.router (w.coord.settle o retain).router
    rw [settle]
    split_ifs <;> exact .refl m _
  | rejectJob minerId jobId reason => exact sameCredits_rejectJob m w.coord minerId jobId reason
  | handleLeaseDone minerId done => exact sameCredits_handleLeaseDone m w.coord minerId done
  | childExit minerId owned => exact sameCredits_childExit ha.1 (hne minerId rfl)
  | applyCapabilities minerId caps => exact router_applyCapabilities w.coord minerId caps m
  | stopMining =>
    exact (sameCredits_mapValues (by intro q; rfl) m w.coord.router).trans
      (sameCredits_mapValues (by intro q; rfl) m _)
  | topUp snap plans => exact router_topUp params snap plans w.toStaging m
  | stageMempoolOrders orders =>
    have hfold : ∀ (orders : List JobOrder) (st : CoordinatorState),
        SameCredits m st.router (st.stageMempoolOrders orders).router := by
      intro orders
      induction orders with
      | nil => exact fun st => .refl m _
      | cons order orders ih =>
        intro st
        refine SameCredits.trans ?_ (ih (st.stageOrder order))
        rw [stageOrder]
        split_ifs
        · exact .refl m _
        · cases jobOrderToJob order with
          | none => exact .refl m _
          | some job => exact sameCredits_route m st.router job none
    exact hfold orders w.coord
  | _ => exact .refl m _

end QuipCoordinator
