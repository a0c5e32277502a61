import QuipCoordinator.FeederRounds
import QuipCoordinator.Generations

/-!
# The history of the feeder

The walks of the feeder are sound: a call of `drive_to_mining` is a climb from
`StopMining` that stops the miners once. Their generations increase until the
counter is at its maximum. Whenever the feeder can reach a top-up without another
walk, the last entry of its history is a walk that returned, at its generation.
-/

namespace QuipCoordinator

structure Walk.Sound (walk : Walk) : Prop where
  first : walk.first = .stopMining
  climb : walk.drive.Climb
  began : walk.stopped = false → walk.drive.steps = [] ∧ walk.drive.machine = .stopMining
  stops : walk.stops = if walk.stopped then [walk.generation] else []
  returned : ∀ snap, walk.returned = some snap → walk.drive.snap = some snap

namespace Walk

theorem sound_start (g : Nat) : (start g .stopMining).Sound where
  first := rfl
  climb := Drive.climb_start
  began _ := ⟨rfl, rfl⟩
  stops := rfl
  returned _ h := nomatch h

theorem Sound.stop {walk : Walk} (h : walk.Sound) (hs : walk.stopped = false) :
    (walk.stop walk.generation).Sound where
  first := h.first
  climb := h.climb
  began hn := nomatch hn
  stops := by simp [Walk.stop, h.stops, hs]
  returned := h.returned

theorem Sound.stopped {walk : Walk} (h : walk.Sound)
    (hs : walk.drive.machine = .stopMining → walk.stopped = true) : walk.stopped = true := by
  cases ht : walk.stopped with
  | true => rfl
  | false => exact ht.symm.trans (hs (h.began ht).2)

theorem Sound.step {walk : Walk} {r : StepResult} (h : walk.Sound) (hs : walk.stopped = true)
    (hnone : walk.returned = none) (hr : (walk.drive.step r).isSome = true) :
    (walk.step r).Sound := by
  obtain ⟨d, hd⟩ := Option.isSome_iff_exists.mp hr
  refine ⟨h.first, ?_, ?_, h.stops, ?_⟩
  · rw [Walk.step, hd]
    exact h.climb.step hd
  · exact fun hn => nomatch hn.symm.trans hs
  · exact fun snap hsnap => nomatch hnone.symm.trans hsnap

theorem Sound.finish {walk : Walk} (h : walk.Sound) : walk.finish.Sound :=
  ⟨h.first, h.climb, h.began, h.stops, fun _ hs => hs⟩

def Follows (walk later : Walk) : Prop :=
  walk.generation < 2 ^ 64 - 1 → walk.generation < later.generation

end Walk

namespace FeederLoop

/-- A cancel of all generations below `g` was sent to each channel that was cloned for it. -/
def Cancelled (f : FeederLoop) (g : Nat) : Prop :=
  1 < g → ∃ c ∈ f.cancels, c.maxGeneration = g - 1 ∧ c.senders ⊆ c.told

def works (f : FeederLoop) : Bool :=
  match f.place with
  | .walking _ | .ended => false
  | .installing _ | .mining _ | .staged => true
  | .fetching | .pausing _ | .resting => f.poll.round = some .startMining

/-- The last entry of the history is a walk of this generation that returned. -/
def Completed (f : FeederLoop) : Prop :=
  ∃ walk, f.rounds.getLast? = some (.walked walk) ∧ walk.returned.isSome = true ∧
    walk.generation = f.generation

structure History (f : FeederLoop) : Prop where
  sound : ∀ walk ∈ f.walks, walk.Sound ∧ walk.generation ≤ f.generation
  order : f.walks.Pairwise Walk.Follows
  past : ∀ walk ∈ f.past, walk.stopped = true ∧ f.Cancelled walk.generation
  current : ∀ walk ∈ f.place.walk, walk.generation = f.generation ∧ walk.returned = none ∧
    (walk.drive.machine ≠ .stopMining → f.Cancelled walk.generation)
  round : f.poll.round = none ∧ f.poll.currentHead = none ∨
    f.poll.round = some .startMining ∨ f.poll.round = some .awaitingQBlock
  settled : f.works = true → f.Completed ∧ f.poll.round = some .startMining

theorem history_init : History .init where
  sound _ h := absurd h List.not_mem_nil
  order := .nil
  past _ h := absurd h List.not_mem_nil
  current _ h := nomatch h
  round := Or.inl ⟨rfl, rfl⟩
  settled h := nomatch h

theorem Cancelled.mono {f f' : FeederLoop} {g : Nat} (h : f.Cancelled g)
    (hc : ∀ c ∈ f.cancels, c ∈ f'.cancels) : f'.Cancelled g := by
  intro hg
  obtain ⟨c, hm, hmax, hsub⟩ := h hg
  exact ⟨c, hc c hm, hmax, hsub⟩

theorem History.congr {f f' : FeederLoop} (h : f.History) (hr : f'.rounds = f.rounds)
    (hg : f'.generation = f.generation) (hw : f'.place.walk = f.place.walk)
    (hc : ∀ c ∈ f.cancels, c ∈ f'.cancels) (hround : f'.poll.round = f.poll.round)
    (hhead : f'.poll.currentHead = f.poll.currentHead ∨ f.poll.round = some .startMining)
    (hs : f'.works = true → f.works = true) : f'.History := by
  have hpast : f'.past = f.past := by rw [FeederLoop.past, FeederLoop.past, hr]
  have hwalks : f'.walks = f.walks := by rw [walks, walks, hpast, hw]
  refine ⟨?_, ?_, ?_, ?_, ?_, ?_⟩
  · rw [hwalks, hg]
    exact h.sound
  · rw [hwalks]
    exact h.order
  · rw [hpast]
    intro walk hm
    obtain ⟨hstop, hcan⟩ := h.past walk hm
    exact ⟨hstop, hcan.mono hc⟩
  · rw [hw, hg]
    intro walk hm
    obtain ⟨heq, hnone, hcan⟩ := h.current walk hm
    exact ⟨heq, hnone, fun hne => (hcan hne).mono hc⟩
  · rw [hround]
    rcases hhead with hhead | hstart
    · rw [hhead]
      exact h.round
    · exact Or.inr (Or.inl hstart)
  · intro hwork
    rw [Completed, hr, hg, hround]
    exact h.settled (hs hwork)

theorem walks_of_idle {f : FeederLoop} (h : f.place.walk = none) : f.walks = f.past := by
  rw [walks, h]
  exact List.append_nil _

theorem History.follows {f : FeederLoop} (h : f.History) (hb : f.generation < 2 ^ 64) {walk : Walk}
    (hm : walk ∈ f.walks) : walk.generation ≤ satAdd 64 f.generation 1 ∧
      (walk.generation < 2 ^ 64 - 1 → walk.generation < satAdd 64 f.generation 1) := by
  have hle := (h.sound walk hm).2
  refine ⟨hle.trans (satAdd_one_ge hb), fun hlt => ?_⟩
  rw [satAdd]
  omega

theorem History.turnover {f : FeederLoop} (h : f.History) (hb : f.generation < 2 ^ 64)
    (hidle : f.place.walk = none) {poll : PollState} (hround : poll.round = f.poll.round)
    (hhead : poll.currentHead = f.poll.currentHead) :
    History { f with
      poll := poll
      generation := satAdd 64 f.generation 1
      place := .walking (.start (satAdd 64 f.generation 1) .stopMining) } := by
  have hwalks := walks_of_idle hidle
  refine ⟨?_, ?_, h.past, ?_, ?_, fun hn => nomatch hn⟩
  · intro walk hm
    rcases List.mem_append.mp hm with hm | hm
    · have hold : walk ∈ f.walks := hwalks.symm ▸ hm
      exact ⟨(h.sound walk hold).1, (h.follows hb hold).1⟩
    · obtain rfl := List.mem_singleton.mp hm
      exact ⟨Walk.sound_start _, le_rfl⟩
  · refine List.pairwise_append.mpr ⟨?_, List.pairwise_singleton _ _, ?_⟩
    · exact hwalks ▸ h.order
    · intro walk hm later hl
      obtain rfl := List.mem_singleton.mp hl
      exact (h.follows hb (hwalks.symm ▸ hm)).2
  · intro walk hm
    obtain rfl := Option.some.inj hm
    exact ⟨rfl, rfl, fun hne => absurd rfl hne⟩
  · rw [hround, hhead]
    exact h.round

theorem History.pause {f : FeederLoop} (h : f.History) (hb : f.generation < 2 ^ 64)
    (hidle : f.place.walk = none) {poll : PollState} (hround : poll.round = some .awaitingQBlock) :
    (FeederLoop.pause { f with poll := poll }).History := by
  have hpast : (FeederLoop.pause { f with poll := poll }).past = f.past := by
    simp [FeederLoop.past, FeederLoop.pause, RoundEntry.walk?]
  have hwalks : (FeederLoop.pause { f with poll := poll }).walks = f.walks := by
    rw [walks_of_idle hidle, ← hpast]
    exact List.append_nil _
  refine ⟨?_, hwalks ▸ h.order, hpast ▸ h.past, fun walk hm => (nomatch hm), Or.inr (Or.inr hround),
    ?_⟩
  · intro walk hm
    rw [hwalks] at hm
    exact ⟨(h.sound walk hm).1, (h.follows hb hm).1⟩
  · intro hwork
    have hstart : poll.round = some .startMining := of_decide_eq_true hwork
    exact nomatch hround.symm.trans hstart

theorem History.relay {f : FeederLoop} (h : f.History) {walk walk' : Walk}
    (hw : f.place = .walking walk) (hs : walk'.Sound) (hg : walk'.generation = walk.generation) :
    (∀ other ∈ f.past ++ [walk'], other.Sound ∧ other.generation ≤ f.generation) ∧
      (f.past ++ [walk']).Pairwise Walk.Follows ∧ walk'.generation = f.generation := by
  obtain ⟨hgen, -, -⟩ := h.current walk (by rw [hw]; rfl)
  have hold : f.walks = f.past ++ [walk] := by rw [walks, hw]; rfl
  have hord := h.order
  rw [hold] at hord
  obtain ⟨hpast, -, hlast⟩ := List.pairwise_append.mp hord
  refine ⟨?_, ?_, hg.trans hgen⟩
  · intro other hm
    rcases List.mem_append.mp hm with hm | hm
    · exact h.sound other (List.mem_append_left _ hm)
    · obtain rfl := List.mem_singleton.mp hm
      exact ⟨hs, (hg.trans hgen).le⟩
  · refine List.pairwise_append.mpr ⟨hpast, List.pairwise_singleton _ _, ?_⟩
    intro earlier hm later hl
    obtain rfl := List.mem_singleton.mp hl
    rw [Walk.Follows, hg]
    exact hlast earlier hm walk List.mem_cons_self

theorem History.within {f : FeederLoop} (h : f.History) {walk walk' : Walk}
    (hw : f.place = .walking walk) (hs : walk'.Sound) (hg : walk'.generation = walk.generation)
    (hnone : walk'.returned = none)
    (hcan : walk'.drive.machine ≠ .stopMining → f.Cancelled walk.generation) :
    History { f with place := .walking walk' } := by
  obtain ⟨hsound, hord, hgen⟩ := h.relay hw hs hg
  refine ⟨hsound, hord, h.past, ?_, h.round, fun hn => nomatch hn⟩
  intro other hm
  obtain rfl := Option.some.inj hm
  exact ⟨hgen, hnone, fun hne => hg ▸ hcan hne⟩

theorem History.leave {f : FeederLoop} (h : f.History) {walk walk' : Walk}
    (hw : f.place = .walking walk) (hs : walk'.Sound) (hg : walk'.generation = walk.generation)
    (hstop : walk'.stopped = true) (hcan : f.Cancelled walk.generation) {poll : PollState}
    (hround : poll.round = none ∧ poll.currentHead = none ∨
      poll.round = some .startMining ∨ poll.round = some .awaitingQBlock)
    {place : FeederAt} (hidle : place.walk = none)
    (hret : place = .ended ∨ walk'.returned.isSome = true ∧ poll.round = some .startMining) :
    History { f with poll := poll, place := place, rounds := f.rounds ++ [.walked walk'] } := by
  obtain ⟨hsound, hord, hgen⟩ := h.relay hw hs hg
  have hpast : FeederLoop.past { f with
      poll := poll, place := place, rounds := f.rounds ++ [.walked walk'] } = f.past ++ [walk'] := by
    rw [FeederLoop.past, List.filterMap_append]
    rfl
  refine ⟨?_, ?_, ?_, ?_, hround, ?_⟩
  · rw [walks_of_idle hidle, hpast]
    exact hsound
  · rw [walks_of_idle hidle, hpast]
    exact hord
  · rw [hpast]
    intro other hm
    rcases List.mem_append.mp hm with hm | hm
    · exact h.past other hm
    · obtain rfl := List.mem_singleton.mp hm
      exact ⟨hstop, hg ▸ hcan⟩
  · intro other hm
    exact nomatch hidle.symm.trans hm
  · intro hwork
    rcases hret with rfl | ⟨hret, hstart⟩
    · exact nomatch hwork
    · exact ⟨⟨walk', List.getLast?_concat, hret, hgen⟩, hstart⟩

section
variable [PoolScoring] [Crates]

/-- What a poll can do: it calls `drive_to_mining`, stops the miners, waits, or goes on. -/
theorem polled_cases {f : FeederLoop}
    (hround : f.poll.round = none ∧ f.poll.currentHead = none ∨
      f.poll.round = some .startMining ∨ f.poll.round = some .awaitingQBlock)
    (snap : MiningSnapshot) (pool : Option (List PendingProof)) : ∃ watch,
    f.polled snap pool = { f with
      poll := { f.poll with watch := watch }
      generation := satAdd 64 f.generation 1
      place := .walking (.start (satAdd 64 f.generation 1) .stopMining) } ∨
    f.polled snap pool = FeederLoop.pause { f with
      poll := { f.poll with round := some .awaitingQBlock, watch := watch } } ∨
    f.polled snap pool = { f with poll := { f.poll with watch := watch }, place := .resting } ∨
    f.poll.round = some .startMining ∧
      f.polled snap pool =
        { f with poll := { f.poll with watch := watch }, place := .mining snap } := by
  unfold polled PollState.poll
  rcases f.poll.observe ⟨snap, pool, snap⟩ with ⟨watch, clearings, clearing, observed⟩
  by_cases hhead : f.poll.currentHead ≠ some snap.lastProofBlockHash
  · refine ⟨watch, Or.inl ?_⟩
    simp only [if_pos hhead]
    rcases hround with ⟨hr, -⟩ | hr | hr <;>
      simp [turnover, hr, RoundState.transition, RoundState.start]
  · by_cases hwait : f.poll.round = some .awaitingQBlock
    · rcases hreason : watch.resumeReason observed snap.blockNumber with ⟨watch', _ | reason⟩
      · refine ⟨watch', Or.inr (Or.inr (Or.inl ?_))⟩
        simp [hhead, hwait, hreason]
      · refine ⟨watch'.expireClearing, Or.inl ?_⟩
        simp [hhead, hwait, hreason, turnover, RoundState.transition]
    · have hstart : f.poll.round = some .startMining := by
        rcases hround with ⟨-, hn⟩ | hr | hr
        · rw [hn] at hhead
          exact absurd (by simp) hhead
        · exact hr
        · exact absurd hr hwait
      cases clearing with
      | some win =>
        refine ⟨watch.stopped snap.blockNumber, Or.inr (Or.inl ?_)⟩
        simp [hhead, hstart, RoundState.transition]
      | none =>
        refine ⟨watch, Or.inr (Or.inr (Or.inr ⟨hstart, ?_⟩))⟩
        simp [hhead, hstart]

end
end FeederLoop

end QuipCoordinator
