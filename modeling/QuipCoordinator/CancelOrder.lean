import QuipCoordinator.Generations
import QuipCoordinator.SessionChannels

/-!
# No cancelled job after its cancel

A job that is collected after a cancel was enqueued has a later generation. A
job that was collected before it can still wait in the dispatcher's hand when
the cancel overtakes it on the channel, and is then sent after it. That is the
only way for a cancelled job to follow its cancel.
-/

namespace QuipCoordinator
open CoordinatorState

def CoordMsg.covers : CoordMsg → CoordMsg → Bool
  | .cancel g, .job j => 0 < j.generation && j.generation ≤ g
  | _, _ => false

/-- On no channel does a job follow a cancel that covers its generation. -/
def Channels.CancelsHold (c : Channels) : Prop :=
  ∀ tx s, c.sessions.lookup tx = some s → s.sent.Pairwise fun a b => a.msg.covers b.msg = false

def Broadcast.spares : Broadcast → Job → Bool
  | .cancel g, job => Router.keepsUnder g job
  | _, _ => true

/-- A cancel is enqueued only on a channel whose dispatcher holds no job that it covers. -/
def HandsClear (x : World × Channels) : ChannelEvent → Prop
  | .deliver tx => ∀ b ∈ x.2.casts.head?, ∀ s ∈ x.2.sessions.lookup tx, s.hungUp = false →
    ∀ job ∈ s.hand, b.spares job = true
  | _ => True

instance (x : World × Channels) : (e : ChannelEvent) → Decidable (HandsClear x e)
  | .deliver tx => inferInstanceAs (Decidable (∀ b ∈ x.2.casts.head?,
      ∀ s ∈ x.2.sessions.lookup tx, s.hungUp = false → ∀ job ∈ s.hand, b.spares job = true))
  | .hello _ _ _ _ | .advance _ | .ready _ | .jobRequest _ _ | .dispatch _ _ | .send _
  | .capabilities _ _ _ | .close _ | .hangUp _ | .control _ _ | .childExit _ _ | .stopMining
  | .reseed _ _ _ | .clone | .delivered | .retarget _ | .topUp _ _ | .stageMempoolOrders _
  | .other _ => .isTrue trivial

section
variable [Crates]

/-- The cancels of a log are below generation `g`, and neither the log nor the hand of an open
channel has a covered job after them. -/
structure Session.CancelOk (g : Nat) (s : Session) : Prop where
  past : ∀ m ∈ s.sent, ∀ k, m.msg = .cancel k → k < g
  hand : s.hungUp = false → ∀ m ∈ s.sent, ∀ k, m.msg = .cancel k → ∀ job ∈ s.hand,
    Router.keepsUnder k job = true
  ordered : s.sent.Pairwise fun a b => a.msg.covers b.msg = false

structure CancelInv (x : World × Channels) : Prop where
  casts : ∀ k, .cancel k ∈ x.2.casts → k < x.1.generation
  sessions : ∀ tx s, x.2.sessions.lookup tx = some s → s.CancelOk x.1.generation

theorem cancelInv_init (params : FeederParams) : CancelInv (channelMachine params).init where
  casts := fun _ h => absurd h List.not_mem_nil
  sessions := fun _ _ h => absurd h (no_session_init params)

theorem generation_le_channel (params : FeederParams) {x : World × Channels} (h : x.1.RoundInv)
    (e : ChannelEvent) : x.1.generation ≤ ((channelMachine params).next x e).1.generation := by
  refine Machine.Layer.base_next (P := fun w : World => x.1.generation ≤ w.generation) ?_ ?_
  · exact fun _ => le_rfl
  · exact fun d _ => World.generation_le_next params h d

theorem cancel_mem_next {w : World} {c : Channels} {e : ChannelEvent} {g : Nat}
    (h : .cancel g ∈ (c.next w e).casts) :
    .cancel g ∈ c.casts ∨ (e = .stopMining ∧ g < satAdd 64 w.generation 1) := by
  cases e with
  | stopMining =>
    simp only [Channels.next] at h
    split_ifs at h with hg
    · have he : g = satAdd 64 w.generation 1 - 1 := by simpa using h
      exact Or.inr ⟨rfl, by omega⟩
    · exact absurd h List.not_mem_nil
  | reseed snap q d => simp [Channels.next, requirementsOf] at h
  | retarget snap => simp [Channels.next] at h
  | delivered => exact Or.inl (List.mem_of_mem_tail h)
  | _ => exact Or.inl h

omit [Crates] in
theorem covers_eq_false_of_not_job {a b : CoordMsg} (h : ∀ job, b ≠ .job job) :
    a.covers b = false := by
  cases a <;> cases b <;> first | rfl | exact (h _ rfl).elim

omit [Crates] in
theorem covers_job_eq_false {a : CoordMsg} {job : Job}
    (h : ∀ k, a = .cancel k → Router.keepsUnder k job = true) : a.covers (.job job) = false := by
  cases a with
  | cancel k =>
    have hk : job.generation = 0 ∨ k < job.generation := by simpa [Router.keepsUnder] using h k rfl
    simp only [CoordMsg.covers, Bool.and_eq_false_iff, decide_eq_false_iff_not]
    omega
  | _ => rfl

omit [Crates] in
theorem Session.CancelOk.announce {g : Nat} {s s' : Session} (h : s.CancelOk g) {ms : List Sent}
    (hjob : ∀ m ∈ ms, ∀ job, m.msg ≠ .job job)
    (hcancel : ∀ m ∈ ms, ∀ k, m.msg = .cancel k → k < g ∧
      (s.hungUp = false → ∀ job ∈ s.hand, Router.keepsUnder k job = true))
    (hopen : s'.hungUp = false → s.hungUp = false) (hsent : s'.sent = s.sent ++ ms)
    (hhand : s'.hand = s.hand) : s'.CancelOk g where
  past := by
    intro m hm k hk
    rcases List.mem_append.mp (hsent ▸ hm) with hm | hm
    · exact h.past m hm k hk
    · exact (hcancel m hm k hk).1
  hand := by
    intro ho m hm k hk job hj
    rw [hhand] at hj
    rcases List.mem_append.mp (hsent ▸ hm) with hm | hm
    · exact h.hand (hopen ho) m hm k hk job hj
    · exact (hcancel m hm k hk).2 (hopen ho) job hj
  ordered := by
    rw [hsent]
    refine List.pairwise_append.mpr ⟨h.ordered, ?_, ?_⟩
    · refine List.Pairwise.imp_of_mem (R := fun _ _ => True) ?_ (List.pairwise_of_forall (by simp))
      exact fun _ hb _ => covers_eq_false_of_not_job (hjob _ hb)
    · exact fun a _ b hb => covers_eq_false_of_not_job (hjob b hb)

omit [Crates] in
theorem Session.CancelOk.send {g : Nat} {s s' : Session} (h : s.CancelOk g) {job : Job} {n : Nat}
    (ho : s.hungUp = false) (hsent : s'.sent = s.sent ++ [⟨.job job, n, false⟩])
    (hhand : s.hand = job :: s'.hand) : s'.CancelOk g where
  past := by
    intro m hm k hk
    rcases List.mem_append.mp (hsent ▸ hm) with hm | hm
    · exact h.past m hm k hk
    · rw [List.mem_singleton.mp hm] at hk
      exact nomatch hk
  hand := by
    intro _ m hm k hk j hj
    rcases List.mem_append.mp (hsent ▸ hm) with hm | hm
    · exact h.hand ho m hm k hk j (by rw [hhand]; exact List.mem_cons_of_mem _ hj)
    · rw [List.mem_singleton.mp hm] at hk
      exact nomatch hk
  ordered := by
    rw [hsent]
    refine List.pairwise_append.mpr ⟨h.ordered, List.pairwise_singleton _ _, ?_⟩
    intro a ha b hb
    rw [List.mem_singleton.mp hb]
    refine covers_job_eq_false fun k hk => ?_
    exact h.hand ho a ha k hk job (by rw [hhand]; exact List.mem_cons_self)

omit [Crates] in
theorem cancelOk_effect {x : World × Channels} {e : ChannelEvent} {tx : SessionId} {s s' : Session}
    (hr : x.1.RoundInv) (hcast : ∀ k, .cancel k ∈ x.2.casts → k < x.1.generation)
    (hclear : HandsClear x e) (hs : x.2.sessions.lookup tx = some s)
    (hopen : s'.hungUp = false → s.hungUp = false) (h : s.CancelOk x.1.generation)
    (he : Effect x.1 x.2 e tx s s') : s'.CancelOk x.1.generation := by
  cases he with
  | keep sent hand =>
    refine ⟨sent ▸ h.past, ?_, sent ▸ h.ordered⟩
    intro ho m hm k hk job hj
    rcases hand with hand | hand
    · exact h.hand (hopen ho) m (sent ▸ hm) k hk job (hand ▸ hj)
    · rw [hand] at hj
      exact absurd hj List.not_mem_nil
  | note m neutral sent hand =>
    obtain ⟨-, hjob, hcancel⟩ := CoordMsg.ne_of_isNeutral neutral
    refine h.announce ?_ ?_ hopen sent hand
    · intro m' hm job hj
      rw [List.mem_singleton.mp hm] at hj
      exact hjob job hj
    · intro m' hm k hk
      rw [List.mem_singleton.mp hm] at hk
      exact absurd hk (hcancel k)
  | snapshot event phase opened sent hand =>
    refine h.announce ?_ ?_ hopen sent hand
    · intro m hm job hj
      rcases Session.mem_snapshot hm with ⟨t, ht⟩ | ⟨t, ht⟩ <;> exact nomatch hj.symm.trans ht
    · intro m hm k hk
      rcases Session.mem_snapshot hm with ⟨t, ht⟩ | ⟨t, ht⟩ <;> exact nomatch hk.symm.trans ht
  | deliver b event cast opened sent hand =>
    subst event
    refine h.announce ?_ ?_ hopen sent hand
    · intro m hm job hj
      rw [List.mem_singleton.mp hm] at hj
      cases b <;> exact nomatch hj
    · intro m hm k hk
      rw [List.mem_singleton.mp hm] at hk
      have hb : b = .cancel k := by
        cases b <;> first | exact congrArg _ (CoordMsg.cancel.inj hk) | exact nomatch hk
      subst hb
      exact ⟨hcast k (List.mem_of_head? cast), fun ho => hclear _ cast s hs ho⟩
  | collect credits now event sent hand =>
    refine ⟨sent ▸ h.past, ?_, sent ▸ h.ordered⟩
    intro ho m hm k hk job hj
    rw [hand] at hj
    have hlive := (dispatchGranted_moves x.1.coord s.minerId credits now).2 job hj
    have hlt := h.past m (sent ▸ hm) k hk
    rcases (hr.live job hlive).generation with hg | hg
    · simp [Router.keepsUnder, hg]
    · simp [Router.keepsUnder, hg, hlt]
  | send job event opened sent hand => exact h.send opened sent hand

omit [Crates] in
theorem Session.CancelOk.mono {g g' : Nat} {s : Session} (h : s.CancelOk g) (hg : g ≤ g') :
    s.CancelOk g' :=
  ⟨fun m hm k hk => (h.past m hm k hk).trans_le hg, h.hand, h.ordered⟩

theorem cancelInv_next (params : FeederParams) {x : World × Channels} {e : ChannelEvent}
    (hr : x.1.RoundInv) (h : CancelInv x) (ha : (channelMachine params).allowed x e)
    (hok : HandsClear x e) : CancelInv ((channelMachine params).next x e) where
  casts := by
    intro k hk
    rcases cancel_mem_next hk with hc | ⟨rfl, hlt⟩
    · exact (h.casts k hc).trans_le (generation_le_channel params hr e)
    · exact hlt
  sessions := by
    intro tx s' hs'
    rcases Channels.lookup_next hs' with ⟨m, caps, depth, rfl⟩ | ⟨s, hs, rfl⟩
    · exact ⟨by simp [Session.new], by simp [Session.new], by simp [Session.new]⟩
    · have heff := Channels.effect_react ha.1 hs
      exact (cancelOk_effect hr h.casts hok hs Channels.open_of_react (h.sessions tx s hs)
        heff).mono (generation_le_channel params hr e)

/-- In every run in which no cancel overtakes a job in a dispatcher's hand, no job follows a
cancel that covers it, on any channel. -/
theorem no_cancelled_job_after_cancel (params : FeederParams) {x : World × Channels}
    (h : ((channelMachine params).restrict HandsClear).Reachable x) : x.2.CancelsHold := by
  have hinv : CancelInv x := by
    refine h.invariant (I := CancelInv) ?_ ?_
    · exact cancelInv_init params
    intro y e hy hi ha
    have hround := World.roundInv_reachable (Machine.Layer.base_reachable hy.of_restrict)
    exact cancelInv_next params hround hi ha.1 ha.2
  exact fun tx s hs => (hinv.sessions tx s hs).ordered

end

namespace Sample

def turnover : List ChannelEvent :=
  joined ++ opened ++ collected ++ [.send 0, .stopMining, .clone, .deliver 0]

def overtaken : List ChannelEvent :=
  joined ++ opened ++ collected ++ [.stopMining, .clone, .deliver 0, .send 0]

end Sample

open Sample in
theorem no_cancelled_job_after_cancel_sample :
    ∃ s, ((channelMachine params).run (channelMachine params).init turnover).2.sessions.lookup 0 =
        some s ∧ (∃ m ∈ s.sent, m.msg = .cancel 1) ∧
      s.sent.Pairwise fun a b => a.msg.covers b.msg = false := by
  have hx := no_cancelled_job_after_cancel params
    (Machine.reachable_restrict_run turnover (by decide +kernel))
  have hlog : ∃ s ∈ ((channelMachine params).run (channelMachine params).init
      turnover).2.sessions.lookup 0, ∃ m ∈ s.sent, m.msg = .cancel 1 := by decide +kernel
  obtain ⟨s, hs, hm⟩ := hlog
  exact ⟨s, hs, hm, hx 0 s hs⟩

open Sample in
/-- The job leaves the hand after the cancel of its generation was enqueued. -/
theorem cancel_overtakes_job_in_hand :
    ¬ ∀ x, (channelMachine params).Reachable x → x.2.CancelsHold := by
  intro hall
  have hreach := Machine.reachable_run (M := channelMachine params) overtaken (by decide +kernel)
  have hlog : ∃ s ∈ ((channelMachine params).run (channelMachine params).init
      overtaken).2.sessions.lookup 0,
      ¬ s.sent.Pairwise fun a b => a.msg.covers b.msg = false := by decide +kernel
  obtain ⟨s, hs, hbad⟩ := hlog
  exact hbad (hall _ hreach 0 s hs)

end QuipCoordinator
