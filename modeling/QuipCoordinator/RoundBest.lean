import QuipCoordinator.StashRounds

/-!
# The best of a round

A submitter compares its energy with a best it read before the chain call and
records its success without another look. The recorded best only improves as
long as nothing at least as good was recorded, and no round ended, between the
read and the success.
-/

namespace QuipCoordinator
open CoordinatorState

section
variable [Crates]

/-- An event that ends no round leaves the best alone or lowers it, and a success that it records
has the generation of the state. -/
def BestImproves (params : FeederParams) (x : World × Submissions) (e : SubmissionEvent) : Prop :=
  let best := x.1.coord.currentBestMilli
  let best' := ((submissionMachine params).next x e).1.coord.currentBestMilli
  (e ≠ .stopMining → best' = best ∨ ∃ b', best' = some b' ∧ ∀ b, best = some b → b' < b) ∧
    ∀ s ∈ x.2.success e, s.generation = x.1.coord.generation

/-- A success is recorded in the round of its read, and nothing recorded since is as good. -/
def SucceedsInTime (x : World × Submissions) (e : SubmissionEvent) : Prop :=
  SettlesInRound x e ∧ ∀ s ∈ x.2.success e, s.read.stops = x.2.stops ∧
    ∀ b ∈ x.2.wins.drop s.read.wins, s.energyMilli < b

instance (x : World × Submissions) (e : SubmissionEvent) : Decidable (SucceedsInTime x e) :=
  inferInstanceAs (Decidable (_ ∧ ∀ s ∈ x.2.success e, _))

structure BestInv (x : World × Submissions) : Prop where
  best : x.1.coord.currentBestMilli = x.2.wins.getLast?
  reads : ∀ tx r, x.2.readers.lookup tx = some r → ∀ o read, r.task.pending = some (o, read) →
    read.stops = x.2.stops → read.wins ≤ x.2.wins.length ∧
      o.currentBestMilli = (x.2.wins.take read.wins).getLast?
  submits : ∀ tx r, x.2.readers.lookup tx = some r → ∀ o read, r.task = .submitting o read →
    o.submits = true
  win : ∀ cand read, x.2.win = some (cand, read) → read.wins ≤ x.2.wins.length ∧
    beatsCurrent cand.bestEnergyMilli (x.2.wins.take read.wins).getLast? = true

theorem bestInv_init (params : FeederParams) : BestInv (submissionMachine params).init where
  best := rfl
  reads := fun _ _ h => absurd h (no_reader_init params)
  submits := fun _ _ h => absurd h (no_reader_init params)
  win := fun _ _ h => nomatch h

theorem best_next (params : FeederParams) {x : World × Submissions} {e : SubmissionEvent}
    (hg : x.2.Guard e) (he : e ≠ .stopMining) :
    ((submissionMachine params).next x e).1.coord.currentBestMilli =
      ((x.2.success e).map (·.energyMilli)).or x.1.coord.currentBestMilli := by
  cases hs : e.steady with
  | true =>
    have hnone : x.2.success e = none := by
      cases e <;> first | rfl | exact absurd hs Bool.noConfusion
    rw [hnone]
    exact (sameRound_steady params hs hg).best
  | false =>
    change ((x.2.emit e).elim x.1 (x.1.next params)).coord.currentBestMilli = _
    cases e with
    | receipt tx receipt =>
      rw [Submissions.emit]
      cases x.2.success (.receipt tx receipt) <;> rfl
    | settle tx =>
      cases hd : x.2.emit (.settle tx) with
      | none => rfl
      | some d =>
        obtain ⟨r, o, retain, read, -, -, rfl⟩ := Submissions.emit_settle hd
        change (x.1.coord.settle o retain).currentBestMilli = x.1.coord.currentBestMilli
        rw [CoordinatorState.settle]
        split_ifs <;> rfl
    | stopMining => exact absurd rfl he
    | reseed snap q d => rfl
    | topUp snap plans block => exact (round_topUp params x.1.toStaging snap plans).2.1
    | winReceipt receipt exhausted =>
      rw [Submissions.emit]
      cases hw : x.2.win with
      | none => exact absurd hw hg
      | some win =>
        rcases receipt with _ | action
        · rfl
        · cases action with
          | success => simp [Submissions.success, hw, World.next, World.update, winSuccess, recordBest]
          | retry => cases exhausted <;> rfl
          | stopRoundStale => rfl
          | stopFatal => rfl
    | _ => exact absurd hs Bool.noConfusion

theorem wins_next (params : FeederParams) {x : World × Submissions} {e : SubmissionEvent}
    (he : e ≠ .stopMining) : ((submissionMachine params).next x e).2.wins =
      x.2.wins ++ ((x.2.success e).map (·.energyMilli)).toList := by
  cases e <;> first | rfl | exact absurd rfl he

omit [Crates] in
theorem taken_best (st : CoordinatorState) (minerId : MinerId) (jobId : JobId) :
    (st.takeResult minerId jobId).2.best = st.currentBestMilli := by
  rw [taken_eq]

theorem submits_react {r : Reader} {st : CoordinatorState} {now : ReadAt} {e : SubmissionEvent}
    {o : PowOutcome} {read : ReadAt} (h : r.react st now e = .submitting o read) :
    o.submits = true := by
  have hstart : ∀ o' read', Task.start o' read' = .submitting o read → o.submits = true := by
    intro o' read' hs
    rw [Task.start] at hs
    split_ifs at hs with ho
    cases hs
    exact ho
  unfold Reader.react at h
  split at h
  · split_ifs at h
  · next result tx ht => cases ho : st.leaseOutcome r.minerId result <;> rw [ho] at h <;> cases h
  · next result tx ht =>
    rw [Reader.taken] at h
    cases ho : plainOutcome (st.takeResult r.minerId result.jobId).2 r.minerId result with
    | none =>
      rw [ho] at h
      cases hj : (st.takeResult r.minerId result.jobId).2.job.filter (·.isOrder) <;> rw [hj] at h <;>
        cases h
    | some o' =>
      rw [ho] at h
      exact hstart _ _ h
  · exact hstart _ _ h
  · cases h
  · next job result tx ht =>
    cases hp : orderProof (st.mempoolOrders.lookup job.jobId) job result <;> rw [hp] at h <;>
      cases h
  · cases h

theorem BestInv.reads_next (params : FeederParams) {x : World × Submissions} {e : SubmissionEvent}
    (hst : StashInv x) (h : BestInv x) {tx : SessionId} {r' : Reader} {o : PowOutcome}
    {read : ReadAt}
    (hr' : ((submissionMachine params).next x e).2.readers.lookup tx = some r')
    (ho : r'.task.pending = some (o, read))
    (hstops : read.stops = ((submissionMachine params).next x e).2.stops) :
    read.wins ≤ ((submissionMachine params).next x e).2.wins.length ∧
      o.currentBestMilli =
        (((submissionMachine params).next x e).2.wins.take read.wins).getLast? := by
  have hold : read.stops ≤ x.2.stops ∧ (read.stops = x.2.stops → read.wins ≤ x.2.wins.length ∧
      o.currentBestMilli = (x.2.wins.take read.wins).getLast?) := by
    rcases Submissions.reader_next hr' with hidle | ⟨hsame, -⟩ | ⟨r, hl, -, rfl⟩
    · rw [hidle] at ho
      exact nomatch ho
    · exact ⟨(hst.tasks tx r' hsame o read ho).1, h.reads tx r' hsame o read ho⟩
    · rcases Submissions.pending_react ho with hp | ⟨rfl, result, hout⟩
      · exact ⟨(hst.tasks tx r hl o read hp).1, h.reads tx r hl o read hp⟩
      · refine ⟨le_rfl, fun _ => ⟨le_rfl, ?_⟩⟩
        have hbest : o.currentBestMilli = x.1.coord.currentBestMilli := by
          rcases hout with hout | hout
          · obtain ⟨-, -, -, -, hb, -⟩ := World.plainOutcome_job hout
            rw [hb, taken_best]
          · exact (World.leaseOutcome_job hout).2.2
        rw [hbest, h.best, Submissions.now, List.take_length]
  by_cases he : e = .stopMining
  · subst he
    have hs : ((submissionMachine params).next x .stopMining).2.stops = x.2.stops + 1 := rfl
    omega
  · have hs : ((submissionMachine params).next x e).2.stops = x.2.stops := by
      cases e <;> first | rfl | exact absurd rfl he
    obtain ⟨hle, hread⟩ := hold.2 (hstops.trans hs)
    rw [wins_next params he, List.take_append_of_le_length hle, List.length_append]
    exact ⟨by omega, hread⟩

theorem BestInv.win_next (params : FeederParams) {x : World × Submissions} {e : SubmissionEvent}
    (h : BestInv x) (hg : x.2.Guard e) {cand : Candidate} {read : ReadAt}
    (hw : ((submissionMachine params).next x e).2.win = some (cand, read)) :
    read.wins ≤ ((submissionMachine params).next x e).2.wins.length ∧
      beatsCurrent cand.bestEnergyMilli
        (((submissionMachine params).next x e).2.wins.take read.wins).getLast? = true := by
  have hkeep : read.wins ≤ x.2.wins.length →
      beatsCurrent cand.bestEnergyMilli (x.2.wins.take read.wins).getLast? = true →
      e ≠ .stopMining → read.wins ≤ ((submissionMachine params).next x e).2.wins.length ∧
        beatsCurrent cand.bestEnergyMilli
          (((submissionMachine params).next x e).2.wins.take read.wins).getLast? = true := by
    intro hle hbeats he
    rw [wins_next params he, List.take_append_of_le_length hle, List.length_append]
    exact ⟨by omega, hbeats⟩
  cases e with
  | topUp snap plans block =>
    obtain ⟨c, hc, heq⟩ := Option.map_eq_some_iff.mp hw
    obtain ⟨rfl, rfl⟩ := Prod.mk.inj heq
    refine hkeep le_rfl ?_ (by simp)
    have hbeats := WinStash.dueImproving_beats (Option.filter_eq_some_iff.mp hc).1
    have hbest : (x.1.next params (.topUp snap plans)).coord.currentBestMilli =
        x.1.coord.currentBestMilli := (round_topUp params x.1.toStaging snap plans).2.1
    rw [hbest, h.best] at hbeats
    rwa [Submissions.now, List.take_length]
  | winReceipt receipt exhausted => exact nomatch hw
  | stopMining =>
    have hnone : x.2.win = none := hg
    exact nomatch hnone.symm.trans hw
  | _ => exact hkeep (h.win cand read hw).1 (h.win cand read hw).2 (by simp)

theorem bestInv_next (params : FeederParams) {x : World × Submissions} {e : SubmissionEvent}
    (hst : StashInv x) (h : BestInv x) (hg : x.2.Guard e) :
    BestInv ((submissionMachine params).next x e) where
  best := by
    by_cases he : e = .stopMining
    · subst he
      rfl
    · rw [best_next params hg he, wins_next params he, h.best]
      cases x.2.success e <;> simp
  reads := fun _ _ hr' _ _ ho hs => h.reads_next params hst hr' ho hs
  submits := by
    intro tx r' hr' o read ht
    rcases Submissions.reader_next hr' with hidle | ⟨hsame, -⟩ | ⟨r, hl, -, rfl⟩
    · exact nomatch hidle.symm.trans ht
    · exact h.submits tx r' hsame o read ht
    · exact submits_react ht
  win := fun _ _ hw => h.win_next params hg hw

omit [Crates] in
/-- An energy that beats the best at a read and everything recorded since beats the best. -/
theorem beats_last {wins : List Int} {n : Nat} {energy b : Int} (hn : n ≤ wins.length)
    (hread : beatsCurrent energy (wins.take n).getLast? = true)
    (hsince : ∀ b ∈ wins.drop n, energy < b) (hb : wins.getLast? = some b) : energy < b := by
  rcases hn.lt_or_eq with hlt | heq
  · refine hsince b (List.mem_of_getLast? ?_)
    rw [List.getLast?_drop, if_neg (by omega)]
    exact hb
  · rw [heq, List.take_length, hb] at hread
    simpa [beatsCurrent] using hread

theorem BestInv.improves (params : FeederParams) {x : World × Submissions} {e : SubmissionEvent}
    (hst : StashInv x) (h : BestInv x) (hg : x.2.Guard e) (hok : SucceedsInTime x e) :
    BestImproves params x e := by
  have hwin : ∀ s ∈ x.2.success e, s.generation = x.1.coord.generation ∧
      ∀ b, x.1.coord.currentBestMilli = some b → s.energyMilli < b := by
    intro s hs
    obtain ⟨hstops, hsince⟩ := hok.2 s hs
    rw [h.best]
    cases e with
    | receipt tx receipt =>
      obtain ⟨r, o, read, hl, ht, rfl⟩ := Submissions.success_receipt hs
      have hp : r.task.pending = some (o, read) := by rw [ht]; rfl
      obtain ⟨hle, hread⟩ := h.reads tx r hl o read hp hstops
      have hsub := h.submits tx r hl o read ht
      simp only [PowOutcome.submits, Bool.and_eq_true, hread] at hsub
      exact ⟨(hst.tasks tx r hl o read hp).2 hstops, fun b => beats_last hle hsub.2 hsince⟩
    | winReceipt receipt exhausted =>
      obtain ⟨cand, read, hw, rfl⟩ := Submissions.success_winReceipt hs
      obtain ⟨hle, hread⟩ := h.win cand read hw
      exact ⟨hst.win cand read hw, fun b => beats_last hle hread hsince⟩
    | _ => exact nomatch hs
  refine ⟨fun he => ?_, fun s hs => (hwin s hs).1⟩
  rw [best_next params hg he]
  cases hs : x.2.success e with
  | none => exact Or.inl rfl
  | some s => exact Or.inr ⟨s.energyMilli, rfl, (hwin s hs).2⟩

theorem bestInv_reachable {params : FeederParams} {x : World × Submissions}
    (h : ((submissionMachine params).restrict SucceedsInTime).Reachable x) :
    StashInv x ∧ BestInv x := by
  refine ⟨stashInv_reachable (h.restrict_mono fun _ _ _ hok => hok.1), ?_⟩
  refine h.invariant (I := BestInv) ?_ ?_
  · exact bestInv_init params
  intro y e hy hi ha
  exact bestInv_next params (stashInv_reachable (hy.restrict_mono fun _ _ _ hok => hok.1)) hi ha.1.1

/-- In every run whose successes are recorded in time, each event improves the best or leaves it
alone, and a best is never lost or worsened before the round ends. -/
theorem round_best_improves (params : FeederParams) {x : World × Submissions}
    (h : ((submissionMachine params).restrict SucceedsInTime).Reachable x) :
    (∀ e, ((submissionMachine params).restrict SucceedsInTime).allowed x e →
      BestImproves params x e) ∧
    ∀ es, ((submissionMachine params).restrict SucceedsInTime).Accepts x es → .stopMining ∉ es →
      ∀ b, x.1.coord.currentBestMilli = some b →
        ∃ b' ≤ b, ((submissionMachine params).run x es).1.coord.currentBestMilli = some b' := by
  have hstep : ∀ y e, ((submissionMachine params).restrict SucceedsInTime).Reachable y →
      ((submissionMachine params).restrict SucceedsInTime).allowed y e →
      BestImproves params y e := by
    intro y e hy ha
    obtain ⟨hst, hbest⟩ := bestInv_reachable hy
    exact hbest.improves params hst ha.1.1 ha.2
  refine ⟨fun e ha => hstep x e h ha, fun es => ?_⟩
  induction es generalizing x with
  | nil => exact fun _ _ b hb => ⟨b, le_rfl, hb⟩
  | cons e es ih =>
    intro ha hno b hb
    have hne : e ≠ .stopMining := fun he => hno (he ▸ List.mem_cons_self)
    have htail := ih (.step h ha.1) ha.2 (fun hm => hno (List.mem_cons_of_mem _ hm))
    rcases (hstep x e h ha.1).1 hne with hsame | ⟨b', hb', hlt⟩
    · exact htail b (hsame.trans hb)
    · obtain ⟨b'', hle, hb''⟩ := htail b' hb'
      exact ⟨b'', hle.trans (hlt b hb).le, hb''⟩

theorem not_bestImproves {params : FeederParams} {x : World × Submissions} {e : SubmissionEvent}
    {b b' : Int} (he : e ≠ .stopMining) (hb : x.1.coord.currentBestMilli = some b)
    (hb' : ((submissionMachine params).next x e).1.coord.currentBestMilli = some b')
    (hlt : b < b') : ¬ BestImproves params x e := by
  intro hex
  obtain ⟨hbest, -⟩ := hex
  rcases hbest he with h | ⟨b'', h, himp⟩
  · rw [hb, hb'] at h
    exact hlt.ne' (Option.some.inj h)
  · rw [hb'] at h
    cases h
    exact hlt.not_gt (himp b hb)

end

namespace Sample

def easySnap : MiningSnapshot := { snap with maxEnergyMilli := 2000 }

/-- Miners `a` and `b` mine one job each, and both sessions read the best before either submit
returns: -1000 for channel 0, 1000 for channel 1. -/
def rivals : List SubmissionEvent :=
  [.other (.registerMiner "a" caps), .other (.registerMiner "b" caps), .stopMining,
    .reseed easySnap none none, .topUp easySnap [⟨"a", 0, 1⟩, ⟨"b", 0, 1⟩] 0,
    .other (.dispatchGranted "a" 1 0), .other (.dispatchGranted "b" 1 0), .hello 0 "a",
    .hello 1 "b", .result 0 ⟨jobId, [⟨[1], 0⟩], 0, [], []⟩,
    .result 1 ⟨(saltFromCounter 2).toList, [⟨[0], 0⟩], 0, [], []⟩, .take 0, .take 1]

end Sample

open Sample in
theorem round_best_improves_sample :
    let x := (submissionMachine params).run (submissionMachine params).init
      (rivals ++ [.receipt 1 (some .success)])
    x.1.coord.currentBestMilli = some 1000 ∧
      ((submissionMachine params).next x (.receipt 0 (some .success))).1.coord.currentBestMilli =
        some (-1000) ∧ BestImproves params x (.receipt 0 (some .success)) := by
  refine ⟨by decide +kernel, by decide +kernel, ?_⟩
  have hx := round_best_improves params (Machine.reachable_restrict_run
    (rivals ++ [SubmissionEvent.receipt 1 (some .success)]) (by decide +kernel))
  exact hx.1 (.receipt 0 (some .success)) (by decide +kernel)

open Sample in
theorem late_success_worsens_best :
    ¬ ∀ x, (submissionMachine params).Reachable x →
      ∀ e, (submissionMachine params).allowed x e → BestImproves params x e := by
  intro hall
  have hreach := Machine.reachable_run (M := submissionMachine params)
    (rivals ++ [SubmissionEvent.receipt 0 (some .success)]) (by decide +kernel)
  have hbest : ((submissionMachine params).run (submissionMachine params).init
      (rivals ++ [SubmissionEvent.receipt 0 (some .success)])).1.coord.currentBestMilli =
        some (-1000) := by
    decide +kernel
  have hworse : ((submissionMachine params).next ((submissionMachine params).run
      (submissionMachine params).init (rivals ++ [SubmissionEvent.receipt 0 (some .success)]))
      (.receipt 1 (some .success))).1.coord.currentBestMilli = some 1000 := by decide +kernel
  exact not_bestImproves (by decide) hbest hworse (by decide)
    (hall _ hreach (.receipt 1 (some .success)) (by decide +kernel))

end QuipCoordinator
