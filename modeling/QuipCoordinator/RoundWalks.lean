import QuipCoordinator.Broadcasts
import QuipCoordinator.RoundHistory

/-!
# The safety of round walks

The feeder over its sessions: the state under the lock enters the generation of the
feeder with its `stop_mining`, and a walk leaves `StopMining` when its cancel is
sent to every channel that was cloned for it. Only a top-up stages a proof-of-work
job, so the history of the feeder at a top-up says which walk the job follows.
-/

namespace QuipCoordinator

theorem FeederAt.exists_of_reached {place : FeederAt} (h : place.reached.isSome = true) :
    ∃ snap, place = .installing snap := by
  cases place <;> cases h
  exact ⟨_, rfl⟩

theorem FeederAt.exists_of_mined {place : FeederAt} (h : place.mined.isSome = true) :
    ∃ snap, place = .mining snap := by
  cases place <;> cases h
  exact ⟨_, rfl⟩

def FeederAt.pending : FeederAt → Bool
  | .walking walk => !walk.stopped
  | .pausing stopped => !stopped
  | _ => false

def FeederAt.Idle (place : FeederAt) : Prop := place.walk = none ∧ place.pending = false

section
variable [PoolScoring] [Crates]
open FeederLoop

/-- The feeder over its sessions: the state under the lock is in its generation once it is past
`stop_mining`, and the cancel of a walk goes out to the channels that were cloned. -/
structure FeederInv (x : (World × Channels) × FeederLoop) : Prop where
  history : x.2.History
  generation : x.2.generation =
    if x.2.place.pending then satAdd 64 x.1.1.generation 1 else x.1.1.generation
  casts : ∀ walk ∈ x.2.place.walk, walk.stopped = true →
    x.2.Cancelled walk.generation ∨ x.1.2.casts = [.cancel (walk.generation - 1)]
  told : ∀ senders ∈ x.1.2.senders, x.2.cloned ⊆ x.2.told ∪ senders

theorem feederInv_init (params : FeederParams) : FeederInv (feederMachine params).init where
  history := history_init
  generation := rfl
  casts _ h := nomatch h
  told _ h := nomatch h

omit [PoolScoring] in
theorem generation_channel (params : FeederParams) {x : World × Channels} {e : ChannelEvent}
    (hg : x.2.Guard x.1 e) : ((channelMachine params).next x e).1.generation =
      if e = .stopMining then satAdd 64 x.1.generation 1 else x.1.generation := by
  split_ifs with hstop
  · rw [hstop]
    rfl
  · by_cases hreseed : ∃ snap q dp, e = .reseed snap q dp
    · obtain ⟨snap, q, dp, rfl⟩ := hreseed
      rfl
    · exact (seed_channel params hg hstop fun snap q dp he => hreseed ⟨snap, q, dp, he⟩).2.1

omit [PoolScoring] [Crates] in
theorem FeederInv.move {x : (World × Channels) × FeederLoop} (h : FeederInv x)
    {y : World × Channels} (hy : y.1.generation = x.1.1.generation)
    (hs : y.2.senders = x.1.2.senders) {poll : PollState} (hround : poll.round = x.2.poll.round)
    (hhead : poll.currentHead = x.2.poll.currentHead ∨ x.2.poll.round = some .startMining)
    {here place : FeederAt} (hp : x.2.place = here) (hidle : here.Idle) (hidle' : place.Idle)
    (hwork : works { x.2 with poll := poll, place := place } = true →
      works { x.2 with place := here } = true) :
    FeederInv (y, { x.2 with poll := poll, place := place }) := by
  subst hp
  refine ⟨h.history.congr rfl rfl (hidle'.1.trans hidle.1.symm) (fun _ hc => hc) hround hhead hwork,
    ?_, fun walk hw => (nomatch hidle'.1.symm.trans hw), ?_⟩
  · have hgen := h.generation
    rw [hidle.2] at hgen
    simp only [hidle'.2, hy]
    exact hgen
  · rw [hs]
    exact h.told

omit [PoolScoring] [Crates] in
theorem FeederInv.bound {x : (World × Channels) × FeederLoop} (h : FeederInv x)
    (hr : x.1.1.RoundInv) : x.2.generation < 2 ^ 64 := by
  rw [h.generation]
  split_ifs
  · exact satAdd_lt 64 _ _
  · exact hr.bound

theorem FeederInv.poll {x : (World × Channels) × FeederLoop} (h : FeederInv x)
    (hr : x.1.1.RoundInv) (hp : x.2.place = .fetching) (snap : MiningSnapshot)
    (pool : Option (List PendingProof)) : FeederInv (x.1, x.2.polled snap pool) := by
  have hidle : x.2.place.walk = none := by rw [hp]; rfl
  have hgen : x.2.generation = x.1.1.generation := by
    rw [h.generation, hp]
    rfl
  have hbound := h.bound hr
  obtain ⟨watch, he | he | he | ⟨hstart, he⟩⟩ := polled_cases h.history.round snap pool <;> rw [he]
  · refine ⟨h.history.turnover hbound hidle rfl rfl, congrArg (satAdd 64 · 1) hgen, ?_, h.told⟩
    intro walk hw hn
    obtain rfl := Option.some.inj hw
    exact nomatch hn
  · exact ⟨h.history.pause hbound hidle rfl, congrArg (satAdd 64 · 1) hgen,
      fun _ hw => (nomatch hw), h.told⟩
  · refine h.move rfl rfl ?_ (Or.inl ?_) hp ⟨rfl, rfl⟩ ⟨?_, ?_⟩ ?_
    · rfl
    · rfl
    · rfl
    · rfl
    · exact id
  · refine h.move rfl rfl ?_ (Or.inl ?_) hp ⟨rfl, rfl⟩ ⟨?_, ?_⟩ ?_
    · rfl
    · rfl
    · rfl
    · rfl
    · exact fun _ => decide_eq_true hstart

omit [PoolScoring] [Crates] in
theorem FeederInv.of_walk {x : (World × Channels) × FeederLoop} (h : FeederInv x) {walk : Walk}
    (hw : walk ∈ x.2.place.walk) : x.2.place = .walking walk ∧ walk.Sound ∧
      walk.returned = none ∧ (walk.drive.machine ≠ .stopMining → x.2.Cancelled walk.generation) := by
  obtain ⟨-, hnone, hcan⟩ := h.history.current walk hw
  refine ⟨?_, ?_, hnone, hcan⟩
  · cases hp : x.2.place <;> rw [hp] at hw <;> cases hw
    rfl
  · exact (h.history.sound walk (List.mem_append_right _ (Option.mem_toList.mpr hw))).1

theorem FeederInv.stopMining (params : FeederParams) {x : (World × Channels) × FeederLoop}
    (h : FeederInv x) (hg : x.2.Guard x.1.2 .stopMining) :
    FeederInv ((feederMachine params).next x .stopMining) := by
  have hnext : (feederMachine params).next x .stopMining =
    ((channelMachine params).next x.1 .stopMining, x.2.next x.1.1 x.1.2 .stopMining) := rfl
  rw [hnext]
  rcases hg with hp | ⟨walk, hw, hm, hs⟩
  · have hidle : x.2.place.walk = none := by rw [hp]; rfl
    have hstep : x.2.next x.1.1 x.1.2 .stopMining = { x.2 with place := .pausing true } := by
      simp only [FeederLoop.next, hidle, Option.elim_none]
    have hgen := h.generation
    rw [hp] at hgen
    rw [hstep]
    refine ⟨h.history.congr rfl rfl hidle.symm (fun _ hc => hc) rfl (Or.inl rfl) ?_,
      hgen, fun _ hw => (nomatch hw), h.told⟩
    intro hwork
    rw [works, hp]
    exact hwork
  · obtain ⟨hp, hsound, hnone, -⟩ := h.of_walk hw
    have hstep : x.2.next x.1.1 x.1.2 .stopMining =
        { x.2 with place := .walking (walk.stop (satAdd 64 x.1.1.generation 1)) } := by
      rw [FeederLoop.next, hp]
      rfl
    have hgen := h.generation
    rw [hp, FeederAt.pending, hs] at hgen
    have henter : satAdd 64 x.1.1.generation 1 = walk.generation :=
      ((h.history.current walk hw).1.trans hgen).symm
    rw [hstep, henter]
    refine ⟨h.history.within hp (hsound.stop hs) rfl hnone fun hne => absurd hm hne, ?_, ?_, h.told⟩
    · exact hgen
    · intro later hl _
      obtain rfl := Option.some.inj hl
      change x.2.Cancelled walk.generation ∨
        (if 1 < satAdd 64 x.1.1.generation 1 then [Broadcast.cancel (satAdd 64 x.1.1.generation 1 - 1)]
          else []) = [.cancel (walk.generation - 1)]
      rw [henter]
      split_ifs with hlt
      · exact Or.inr rfl
      · exact Or.inl fun hgt => absurd hgt hlt

omit [PoolScoring] [Crates] in
theorem FeederInv.step {x : (World × Channels) × FeederLoop} (h : FeederInv x) {walk : Walk}
    (hw : walk ∈ x.2.place.walk) {r : StepResult} (hr : (walk.drive.step r).isSome = true)
    (hm : walk.drive.machine = .stopMining → walk.stopped = true ∧ x.1.2.casts = []) :
    FeederInv (x.1, { x.2 with place := .walking (walk.step r) }) := by
  obtain ⟨hp, hsound, hnone, hcan⟩ := h.of_walk hw
  have hs : walk.stopped = true := hsound.stopped fun heq => (hm heq).1
  have hcan' : x.2.Cancelled walk.generation := by
    by_cases heq : walk.drive.machine = .stopMining
    · rcases h.casts walk hw hs with hc | hc
      · exact hc
      · exact nomatch (hm heq).2.symm.trans hc
    · exact hcan heq
  have hgen := h.generation
  rw [hp, FeederAt.pending, hs] at hgen
  refine ⟨h.history.within hp (hsound.step hs hnone hr) rfl hnone fun _ => hcan', ?_, ?_, h.told⟩
  · simp only [FeederAt.pending, Walk.step, hs]
    exact hgen
  · intro later hl _
    obtain rfl := Option.some.inj hl
    exact Or.inl hcan'

omit [PoolScoring] [Crates] in
theorem FeederInv.leave {x : (World × Channels) × FeederLoop} (h : FeederInv x) {walk walk' : Walk}
    (hw : walk ∈ x.2.place.walk) (hm : walk.drive.machine ≠ .stopMining) (hs : walk'.Sound)
    (hg : walk'.generation = walk.generation) (hstop : walk'.stopped = walk.stopped)
    {poll : PollState}
    (hround : poll.round = none ∧ poll.currentHead = none ∨
      poll.round = some .startMining ∨ poll.round = some .awaitingQBlock)
    {place : FeederAt} (hidle : place.walk = none) (hpend : place.pending = false)
    (hret : place = .ended ∨ walk'.returned.isSome = true ∧ poll.round = some .startMining) :
    FeederInv (x.1, { x.2 with
      poll := poll, place := place, rounds := x.2.rounds ++ [.walked walk'] }) := by
  obtain ⟨hp, hsound, -, hcan⟩ := h.of_walk hw
  have hstopped : walk.stopped = true := hsound.stopped fun heq => absurd heq hm
  have hgen := h.generation
  rw [hp, FeederAt.pending, hstopped] at hgen
  refine ⟨h.history.leave hp hs hg (hstop.trans hstopped) (hcan hm) hround hidle hret, ?_, ?_, h.told⟩
  · simp only [hpend]
    exact hgen
  · exact fun _ hw' => nomatch hidle.symm.trans hw'

omit [PoolScoring] [Crates] in
theorem FeederInv.finish {x : (World × Channels) × FeederLoop} (h : FeederInv x) {walk : Walk}
    (hw : walk ∈ x.2.place.walk) (hm : walk.drive.machine = .startMining) :
    FeederInv (x.1, x.2.finish walk) := by
  obtain ⟨-, hsound, -, -⟩ := h.of_walk hw
  have hne : walk.drive.machine ≠ .stopMining := by
    rw [hm]
    exact RoundState.noConfusion
  unfold FeederLoop.finish
  cases hsnap : walk.drive.snap with
  | none =>
    refine h.leave hw hne hsound.finish rfl rfl ?_ rfl rfl (Or.inl rfl)
    exact h.history.round
  | some snap =>
    refine h.leave hw hne hsound.finish rfl rfl ?_ rfl rfl (Or.inr ?_)
    · exact Or.inr (Or.inl rfl)
    · exact ⟨Option.isSome_iff_exists.mpr ⟨snap, hsnap⟩, rfl⟩

omit [PoolScoring] [Crates] in
theorem FeederInv.shutdown {x : (World × Channels) × FeederLoop} (h : FeederInv x)
    (hg : x.2.Guard x.1.2 .shutdown) : FeederInv (x.1, { x.2 with
      place := .ended, rounds := x.2.rounds ++ x.2.place.walk.toList.map .walked }) := by
  rcases hg with hp | ⟨walk, hw, hm⟩
  · have hmove : FeederInv (x.1, { x.2 with place := .ended }) :=
      h.move rfl rfl rfl (Or.inl rfl) hp ⟨rfl, rfl⟩ ⟨rfl, rfl⟩ fun hn => nomatch hn
    rw [hp]
    simpa [FeederAt.walk] using hmove
  · obtain ⟨hp, hsound, -, -⟩ := h.of_walk hw
    rw [hp]
    refine h.leave hw ?_ hsound rfl rfl ?_ rfl rfl (Or.inl rfl)
    · intro heq
      rw [heq] at hm
      exact nomatch hm
    · exact h.history.round

omit [PoolScoring] in
theorem casts_session {w : World} {c : Channels} {e : ChannelEvent} (h : e.ofFeeder = false)
    (hne : e ≠ .delivered) : (c.next w e).casts = c.casts := by
  cases e <;> first | rfl | exact absurd h Bool.noConfusion | exact absurd rfl hne

omit [PoolScoring] in
theorem senders_feeder {w : World} {c : Channels} {e : ChannelEvent} (h : e.ofFeeder = true) :
    (c.next w e).senders = c.senders := by
  cases e <;> first | rfl | exact absurd h Bool.noConfusion

omit [PoolScoring] [Crates] in
theorem FeederLoop.note_eq (w : World) (c : Channels) (f : FeederLoop) (e : ChannelEvent) :
    ∃ cloned told cancels, f.note w c e =
      { f with cloned := cloned, told := told, cancels := f.cancels ++ cancels } := by
  have hsame : ∃ cloned told cancels, f =
      { f with cloned := cloned, told := told, cancels := f.cancels ++ cancels } :=
    ⟨f.cloned, f.told, [], by rw [List.append_nil]⟩
  cases e with
  | clone => exact ⟨_, _, [], by rw [List.append_nil]; rfl⟩
  | deliver tx => exact ⟨_, _, [], by rw [List.append_nil]; rfl⟩
  | delivered =>
    rw [note]
    split
    · exact ⟨_, _, _, rfl⟩
    · exact hsame
  | _ => exact hsame

omit [PoolScoring] [Crates] in
theorem FeederInv.cancelled {x : (World × Channels) × FeederLoop} (h : FeederInv x)
    (hg : x.1.2.Guard x.1.1 .delivered) {g : Nat} (hc : x.1.2.casts = [.cancel (g - 1)]) :
    (x.2.note x.1.1 x.1.2 .delivered).Cancelled g := by
  have htold := h.told ∅ hg
  rw [Finset.union_empty] at htold
  intro _
  refine ⟨⟨g - 1, x.2.cloned, x.2.told⟩, ?_, rfl, htold⟩
  rw [note, hc]
  exact List.mem_append_right _ List.mem_cons_self

theorem FeederInv.session (params : FeederParams) {x : (World × Channels) × FeederLoop}
    (h : FeederInv x) {e : ChannelEvent} (he : e.ofFeeder = false) (hg : x.1.2.Guard x.1.1 e) :
    FeederInv ((feederMachine params).next x (.session e)) := by
  have hnext : (feederMachine params).next x (.session e) =
    ((channelMachine params).next x.1 e, x.2.note x.1.1 x.1.2 e) := rfl
  have hstop : e ≠ .stopMining := by
    rintro rfl
    exact nomatch he
  have hgen := generation_channel params hg
  rw [if_neg hstop] at hgen
  obtain ⟨cloned, told, cancels, hnote⟩ := FeederLoop.note_eq x.1.1 x.1.2 x.2 e
  have hcancels : ∀ c ∈ x.2.cancels, c ∈ (x.2.note x.1.1 x.1.2 e).cancels := by
    rw [hnote]
    exact fun c hc => List.mem_append_left _ hc
  rw [hnext]
  refine ⟨?_, ?_, ?_, ?_⟩
  · refine h.history.congr ?_ ?_ ?_ hcancels ?_ (Or.inl ?_) ?_ <;> rw [hnote]
    exact id
  · rw [hgen, hnote]
    exact h.generation
  · intro walk hw hs
    rw [hnote] at hw
    rcases h.casts walk hw hs with hc | hc
    · exact Or.inl (hc.mono hcancels)
    · by_cases hdone : e = .delivered
      · subst hdone
        exact Or.inl (h.cancelled hg hc)
      · exact Or.inr ((casts_session he hdone).trans hc)
  · cases e with
    | clone =>
      intro senders hs
      obtain rfl := Option.some.inj hs
      exact Finset.subset_union_right
    | deliver tx =>
      intro senders hs
      obtain ⟨before, hb, rfl⟩ := Option.map_eq_some_iff.mp hs
      intro id hid
      have hin := h.told before hb hid
      simp only [Finset.mem_union, note, Finset.mem_insert, Finset.mem_erase] at hin ⊢
      tauto
    | delivered => exact fun _ hs => nomatch hs
    | _ => exact h.told

omit [PoolScoring] in
theorem FeederInv.act (params : FeederParams) {x : (World × Channels) × FeederLoop}
    (h : FeederInv x) {e : ChannelEvent} (hg : x.1.2.Guard x.1.1 e) (he : e.ofFeeder = true)
    (hstop : e ≠ .stopMining) {poll : PollState} (hround : poll.round = x.2.poll.round)
    {here place : FeederAt} (hp : x.2.place = here) (hidle : here.Idle) (hidle' : place.Idle)
    (hwork : works { x.2 with place := here } = true) :
    FeederInv ((channelMachine params).next x.1 e, { x.2 with poll := poll, place := place }) := by
  have hgen := generation_channel params hg
  rw [if_neg hstop] at hgen
  have hsettled := h.history.settled (by subst hp; exact hwork)
  exact h.move hgen (senders_feeder he) hround (Or.inr hsettled.2) hp hidle hidle' fun _ => hwork

theorem feederInv_next (params : FeederParams) {x : (World × Channels) × FeederLoop}
    {e : FeederEvent} (h : FeederInv x) (hr : x.1.1.RoundInv)
    (ha : (feederMachine params).allowed x e) : FeederInv ((feederMachine params).next x e) := by
  obtain ⟨⟨w, c⟩, f⟩ := x
  obtain ⟨hg, hc⟩ := ha
  have hgo : ∀ {here place : FeederAt}, f.place = here → here.Idle → place.Idle →
      (works { f with place := place } = true → works { f with place := here } = true) →
      FeederInv ((w, c), { f with place := place }) :=
    fun hp hidle hidle' hwork => h.move rfl rfl rfl (Or.inl rfl) hp hidle hidle' hwork
  have hact : ∀ {e : ChannelEvent} {here : FeederAt} (place : FeederAt), c.Guard w e →
      e.ofFeeder = true → e ≠ .stopMining → f.place = here → here.Idle → place.Idle →
      works { f with place := here } = true →
      FeederInv ((channelMachine params).next (w, c) e, { f with place := place }) :=
    fun _ hd he hstop hp hidle hidle' hwork => h.act params hd he hstop rfl hp hidle hidle' hwork
  cases e with
  | poll snap pool =>
    have hp : f.place = .fetching := hg
    cases snap with
    | none => exact hgo hp ⟨rfl, rfl⟩ ⟨rfl, rfl⟩ id
    | some snap => exact h.poll hr hp snap pool
  | stopMining => exact h.stopMining params hg
  | step r =>
    obtain ⟨walk, hw, hstep, hm⟩ := hg
    obtain ⟨hp, -⟩ := h.of_walk hw
    have hin := h.step hw hstep hm
    cases f
    cases hp
    exact hin
  | finish =>
    obtain ⟨walk, hw, hm⟩ := hg
    obtain ⟨hp, -⟩ := h.of_walk hw
    have hin := h.finish hw hm
    cases f
    cases hp
    exact hin
  | install qblockId decay =>
    obtain ⟨snap, hp⟩ := FeederAt.exists_of_reached hg
    have hd : c.Guard w (.reseed snap qblockId decay) :=
      (hc (.reseed snap qblockId decay) (by change f.place.reached.map _ = _; rw [hp]; rfl)).1
    have hin : FeederInv ((channelMachine params).next (w, c) (.reseed snap qblockId decay), { f with
        poll := { f.poll with currentHead := some snap.lastProofBlockHash }
        place := .mining snap }) := by
      refine h.act params hd rfl ChannelEvent.noConfusion ?_ hp ⟨rfl, rfl⟩ ⟨?_, ?_⟩ rfl <;> rfl
    cases f
    cases hp
    exact hin
  | retarget =>
    obtain ⟨snap, hp⟩ := FeederAt.exists_of_mined hg
    have hd : c.Guard w (.retarget snap) :=
      (hc (.retarget snap) (by change f.place.mined.map _ = _; rw [hp]; rfl)).1
    have hin := hact (.mining snap) hd rfl ChannelEvent.noConfusion hp ⟨rfl, rfl⟩ ⟨rfl, rfl⟩ rfl
    cases f
    cases hp
    exact hin
  | topUp plans =>
    obtain ⟨snap, hp⟩ := FeederAt.exists_of_mined hg
    have hd : c.Guard w (.topUp snap plans) :=
      (hc (.topUp snap plans) (by change f.place.mined.map _ = _; rw [hp]; rfl)).1
    have hin := hact .staged hd rfl ChannelEvent.noConfusion hp ⟨rfl, rfl⟩ ⟨rfl, rfl⟩ rfl
    cases f
    cases hp
    exact hin
  | stageMempoolOrders orders =>
    have hp : f.place = .staged := hg
    have hd : c.Guard w (.stageMempoolOrders orders) := (hc (.stageMempoolOrders orders) rfl).1
    have hin := hact .staged hd rfl ChannelEvent.noConfusion hp ⟨rfl, rfl⟩ ⟨rfl, rfl⟩ rfl
    cases f
    cases hp
    exact hin
  | rest =>
    rcases hg with hp | ⟨hp, -⟩
    · exact hgo hp ⟨rfl, rfl⟩ ⟨rfl, rfl⟩ fun _ => rfl
    · exact hgo hp ⟨rfl, rfl⟩ ⟨rfl, rfl⟩ id
  | wake => exact hgo hg ⟨rfl, rfl⟩ ⟨rfl, rfl⟩ id
  | shutdown => exact h.shutdown hg
  | session e => exact h.session params hg (hc e rfl).1

theorem feederInv_reachable {params : FeederParams} {x : (World × Channels) × FeederLoop}
    (h : (feederMachine params).Reachable x) : FeederInv x := by
  refine h.invariant (I := FeederInv) (feederInv_init params) ?_
  intro x e hx hi ha
  have hworld : (coordinatorMachine params).Reachable x.1.1 :=
    Machine.Layer.base_reachable (Machine.Layer.base_reachable hx)
  exact feederInv_next params hi (World.roundInv_reachable hworld) ha

end

/-! ## What a step stages -/

/-- A step to `w'` stages a proof-of-work job: it draws the job or makes it live. -/
def World.Stages (w w' : World) (job : Job) : Prop :=
  job.isPow = true ∧ (w'.coord.Live job ∧ ¬ w.coord.Live job ∨
    ∃ draws, w'.drawn = w.drawn ++ draws ∧ ∃ d ∈ draws, d.job = job)

theorem World.not_stages {w w' : World} {job : Job} (h : w.Stages w' job)
    (hdrawn : w'.drawn = w.drawn)
    (hlive : ∀ k, k.isPow = true → w'.coord.Live k → w.coord.Live k) : False := by
  obtain ⟨hpow, ⟨hnew, hold⟩ | ⟨draws, hd, draw, hm, -⟩⟩ := h
  · exact hold (hlive job hpow hnew)
  · have hnil : draws = [] := by simpa [hdrawn] using hd
    exact absurd (hnil ▸ hm) List.not_mem_nil

section
variable [Crates]
open CoordinatorState

theorem Staging.topUp_draws (params : FeederParams) (s : Staging) (snap : MiningSnapshot)
    (plans : List Plan) : ∃ draws, (s.topUp params snap plans).drawn = s.drawn ++ draws ∧
      (∀ d ∈ draws, d.job.generation = s.generation) ∧
      ∀ job, (s.topUp params snap plans).coord.Live job →
        s.coord.Live job ∨ ∃ d ∈ draws, d.job = job := by
  have hstage : ∀ (s' : Staging) (id : MinerId) (job : Job) (r : Router) (draws : List Draw),
      s'.generation = s.generation →
      (∀ d ∈ draws, d.job.generation = s.generation) →
      (∀ k, s'.coord.Live k → s.coord.Live k ∨ ∃ d ∈ draws, d.job = k) →
      job.generation = s'.generation → s'.coord.router.stageOn id job = (r, true) →
      (∀ d ∈ draws ++ [⟨job, snap⟩], d.job.generation = s.generation) ∧
        ∀ k, CoordinatorState.Live { s'.coord with router := r } k →
          s.coord.Live k ∨ ∃ d ∈ draws ++ [⟨job, snap⟩], d.job = k := by
    intro s' id job r draws hgen hdraws hlive hjob hst
    refine ⟨?_, ?_⟩
    · intro d hd
      rcases List.mem_append.mp hd with hd | hd
      · exact hdraws d hd
      · rw [List.mem_singleton.mp hd]
        exact hjob.trans hgen
    · intro k hk
      rcases live_stageOn s'.coord hst hk with hk | rfl
      · rcases hlive k hk with hold | ⟨d, hd, he⟩
        · exact Or.inl hold
        · exact Or.inr ⟨d, List.mem_append_left _ hd, he⟩
      · exact Or.inr ⟨_, List.mem_append_right _ List.mem_cons_self, rfl⟩
  refine (Staging.topUp_induct (P := fun s' => s'.generation = s.generation ∧ ∃ draws,
    s'.drawn = s.drawn ++ draws ∧ (∀ d ∈ draws, d.job.generation = s.generation) ∧
    ∀ job, s'.coord.Live job → s.coord.Live job ∨ ∃ d ∈ draws, d.job = job) ?_ ?_ ?_ ?_ plans
    ⟨rfl, [], (List.append_nil _).symm, by simp, fun _ hl => Or.inl hl⟩).2
  · exact fun s' n hs => hs
  · intro s' r hs hr _
    obtain ⟨hgen, draws, hd, hdraws, hlive⟩ := hs
    exact ⟨hgen, draws, hd, hdraws,
      fun job hj => hlive job ((Moves.of_queues s'.coord hr).live job hj)⟩
  · intro s' id job r n start count hs hjob hst
    obtain ⟨hgen, draws, hd, hdraws, hlive⟩ := hs
    obtain ⟨hdraws', hlive'⟩ := hstage s' id job r draws hgen hdraws hlive (by rw [hjob]; rfl) hst
    exact ⟨hgen, _, by rw [hd, List.append_assoc], hdraws', hlive'⟩
  · intro s' id job r n salt hs hjob hst
    obtain ⟨hgen, draws, hd, hdraws, hlive⟩ := hs
    obtain ⟨-, -, hg, -⟩ := derivePowJob_shape hjob
    obtain ⟨hdraws', hlive'⟩ := hstage s' id job r draws hgen hdraws hlive hg hst
    exact ⟨hgen, _, by rw [hd, List.append_assoc], hdraws', hlive'⟩

/-- Only a top-up stages a proof-of-work job, at the generation the feeder is in. -/
theorem World.stages_next (params : FeederParams) {w : World} {d : Section} {job : Job}
    (h : w.Stages (w.next params d) job) :
    (∃ snap plans, d = .topUp snap plans) ∧ job.generation = w.generation := by
  cases hf : d.feeds with
  | false =>
    refine (not_stages h ?_ fun k _ hk => (World.next_keeps params w hf).live k hk).elim
    rw [World.next_eq_update params w hf]
    rfl
  | true =>
    cases d with
    | stopMining => exact (not_stages h rfl fun k _ hk => (live_stopMining hk).1).elim
    | reseed snap q dp => exact (not_stages h rfl fun k _ hk => hk).elim
    | stageMempoolOrders orders =>
      obtain ⟨hl, -⟩ := stageMempoolOrders_spec orders w.coord
      refine (not_stages h rfl fun k hp hk => ?_).elim
      rcases hl k hk with hlive | ⟨order, -, ho⟩
      · exact hlive
      · obtain ⟨-, hpow', -⟩ := jobOrderToJob_shape ho
        exact absurd (hp.symm.trans hpow') Bool.noConfusion
    | topUp snap plans =>
      refine ⟨⟨snap, plans, rfl⟩, ?_⟩
      obtain ⟨draws, hdrawn, hdraws, hlive⟩ := Staging.topUp_draws params w.toStaging snap plans
      rcases h.2 with ⟨hnew, hold⟩ | ⟨draws', hd, draw, hm, rfl⟩
      · rcases hlive job hnew with hl | ⟨draw, hm, rfl⟩
        · exact absurd hl hold
        · exact hdraws draw hm
      · have heq : draws' = draws := List.append_cancel_left (hd.symm.trans hdrawn)
        exact hdraws draw (heq ▸ hm)
    | _ => exact absurd hf Bool.noConfusion

end

section
variable [PoolScoring] [Crates]
open FeederLoop

theorem stages_feeder (params : FeederParams) {x : (World × Channels) × FeederLoop}
    {e : FeederEvent} (ha : (feederMachine params).allowed x e) {job : Job}
    (h : World.Stages x.1.1 ((feederMachine params).next x e).1.1 job) :
    (∃ plans, e = .topUp plans) ∧ job.generation = x.1.1.generation := by
  obtain ⟨hg, hc⟩ := ha
  have hself : ¬ World.Stages x.1.1 x.1.1 job := fun hs => World.not_stages hs rfl fun _ _ hl => hl
  cases he : (feederLayer params).emit x.1 x.2 e with
  | none =>
    rw [Machine.Layer.machine_next_fst_none he] at h
    exact absurd h hself
  | some d =>
    have hguard : x.1.2.Guard x.1.1 d := (hc d he).1
    rw [Machine.Layer.machine_next_fst_some he] at h
    cases hs : (channelLayer params).emit x.1.1 x.1.2 d with
    | none =>
      rw [Machine.Layer.machine_next_fst_none hs] at h
      exact absurd h hself
    | some b =>
      rw [Machine.Layer.machine_next_fst_some hs] at h
      obtain ⟨⟨snap, plans, rfl⟩, hgen⟩ := World.stages_next params h
      refine ⟨?_, hgen⟩
      have hd : ∃ snap plans, d = .topUp snap plans := by
        rcases (emit_feeds hguard hs rfl).2 with rfl | ⟨_, _, _, rfl⟩ | hd | ⟨_, rfl⟩
        · cases hs
        · cases hs
        · exact hd
        · cases hs
      obtain ⟨snap', plans', rfl⟩ := hd
      cases e with
      | topUp plans => exact ⟨plans, rfl⟩
      | session e =>
        cases he
        exact absurd hg Bool.noConfusion
      | install q dp => obtain ⟨_, -, hn⟩ := Option.map_eq_some_iff.mp he; cases hn
      | retarget => obtain ⟨_, -, hn⟩ := Option.map_eq_some_iff.mp he; cases hn
      | _ => cases he

/-- A call of `drive_to_mining` starts in `StopMining`, in a generation above those of the calls
before it as long as the counter was below its maximum. It stops the miners once, at its own
generation and before any further step, repeats a step that failed, and returns only a snapshot
that it read after `StopMining`, `ValidatorSynced`, `AccountFunded` and `MinerRegistered`, each done.
A step that stages a proof-of-work job is a top-up with such a walk, of the generation of the job,
as the last entry of the history, and the cancel of the generations below was sent. -/
theorem round_walk_safety (params : FeederParams) {x : (World × Channels) × FeederLoop}
    (h : (feederMachine params).Reachable x) :
    x.2.walks.Pairwise (fun walk later =>
      walk.generation < 2 ^ 64 - 1 → walk.generation < later.generation) ∧
    (∀ walk ∈ x.2.walks, walk.first = .stopMining ∧
      (walk.stops = [walk.generation] ∨
        walk.stops = [] ∧ walk.drive.steps = [] ∧ x.2.place = .walking walk) ∧
      (∀ before s after, walk.drive.steps = before ++ (s, .failed) :: after →
        (after.head?.map (·.1)).getD walk.drive.machine = s) ∧
      ∀ snap, walk.returned = some snap → walk.stops = [walk.generation] ∧ ∃ before after,
        walk.drive.steps = before ++ (.requirementsDownloaded, .downloaded snap) :: after ∧
        passed before = [.stopMining, .validatorSynced, .accountFunded, .minerRegistered]) ∧
    ∀ e job, (feederMachine params).allowed x e →
      World.Stages x.1.1 ((feederMachine params).next x e).1.1 job →
      (∃ plans, e = .topUp plans) ∧ ∃ walk, x.2.rounds.getLast? = some (.walked walk) ∧
        walk.returned.isSome = true ∧ walk.generation = job.generation ∧
        walk.stops = [walk.generation] ∧
        (1 < job.generation → ∃ c ∈ x.2.cancels, c.maxGeneration = job.generation - 1 ∧
          c.senders ⊆ c.told) := by
  have hi := feederInv_reachable h
  have hstops : ∀ walk ∈ x.2.walks, walk.stopped = true → walk.stops = [walk.generation] := by
    intro walk hm hs
    rw [(hi.history.sound walk hm).1.stops, if_pos hs]
  refine ⟨hi.history.order, ?_, ?_⟩
  · intro walk hm
    obtain ⟨hsound, -⟩ := hi.history.sound walk hm
    refine ⟨hsound.first, ?_, hsound.climb.repeats, ?_⟩
    · cases hs : walk.stopped with
      | true => exact Or.inl (hstops walk hm hs)
      | false =>
        refine Or.inr ⟨by rw [hsound.stops, hs]; rfl, (hsound.began hs).1, ?_⟩
        rcases List.mem_append.mp hm with hp | hp
        · exact nomatch hs.symm.trans (hi.history.past walk hp).1
        · exact (hi.of_walk (Option.mem_toList.mp hp)).1
    · intro snap hret
      have hsnap := hsound.returned snap hret
      obtain ⟨before, after, hsteps, hpassed⟩ := hsound.climb.read snap hsnap
      refine ⟨hstops walk hm ?_, before, after, hsteps, hpassed⟩
      cases hs : walk.stopped with
      | true => rfl
      | false =>
        rw [(hsound.began hs).1] at hsteps
        exact absurd hsteps.symm (by simp)
  · intro e job ha hstage
    obtain ⟨⟨plans, rfl⟩, hgen⟩ := stages_feeder params ha hstage
    refine ⟨⟨plans, rfl⟩, ?_⟩
    obtain ⟨snap, hp⟩ := FeederAt.exists_of_mined ha.1
    have hworld := hi.generation
    rw [hp] at hworld
    obtain ⟨⟨walk, hlast, hret, hcur⟩, -⟩ := hi.history.settled (by rw [works, hp])
    have hpast : walk ∈ x.2.past :=
      List.mem_filterMap.mpr ⟨_, List.mem_of_getLast? hlast, rfl⟩
    obtain ⟨hs, hcan⟩ := hi.history.past walk hpast
    have hjob : walk.generation = job.generation := (hcur.trans hworld).trans hgen.symm
    exact ⟨walk, hlast, hret, hjob, hstops walk (List.mem_append_left _ hpast) hs,
      hjob ▸ hcan⟩

end

namespace Sample

def secondRound : List FeederEvent :=
  joined.map .session ++ [.poll (some snap) none, .stopMining] ++ climbed ++
    [.install none none] ++ informed ++ [.topUp [⟨"a", 0, 1⟩], .rest, .wake,
      .poll (some { snap with lastProofBlockHash := Vector.replicate 32 2 }) none, .stopMining,
      .session .clone, .session (.deliver 0), .session .delivered] ++ climbed ++
    [.install none none] ++ informed

end Sample

open Sample in
/-- The top-up of the second round draws one job, after the walk of generation 2. -/
theorem round_walk_safety_second :
    let x := (feederMachine params).run (feederMachine params).init secondRound
    ∃ d, ((feederMachine params).next x (.topUp [⟨"a", 0, 1⟩])).1.1.drawn = x.1.1.drawn ++ [d] ∧
      d.job.generation = 2 ∧ ∃ walk, x.2.rounds.getLast? = some (.walked walk) ∧
        walk.returned.isSome = true ∧ walk.generation = d.job.generation := by
  intro x
  have hsafe := round_walk_safety params (Machine.reachable_run (M := feederMachine params)
    secondRound (by decide +kernel))
  have ha : (feederMachine params).allowed x (.topUp [⟨"a", 0, 1⟩]) := by decide +kernel
  have hd : ∃ d ∈ (((feederMachine params).next x (.topUp [⟨"a", 0, 1⟩])).1.1.drawn)[1]?,
      ((feederMachine params).next x (.topUp [⟨"a", 0, 1⟩])).1.1.drawn = x.1.1.drawn ++ [d] ∧
        d.job.isPow = true ∧ d.job.generation = 2 := by decide +kernel
  obtain ⟨d, -, hdrawn, hpow, hgen⟩ := hd
  obtain ⟨-, walk, hlast, hret, hw, -⟩ := hsafe.2.2 _ d.job ha
    ⟨hpow, Or.inr ⟨[d], hdrawn, d, List.mem_cons_self, rfl⟩⟩
  exact ⟨d, hdrawn, hgen, walk, hlast, hret, hw⟩

end QuipCoordinator
