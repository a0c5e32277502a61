import QuipCoordinator.MinerLink

/-!
# Flow control with the reference miner

The credits of the miner, those on their way to it and the jobs it is to answer
keep their sum: a `Ready` that the session reads adds the queue depth to it, and
everything else moves a credit or a job from one place to the next.
-/

namespace QuipCoordinator

section
variable [Crates] [MinerCrates]

structure LinkInv (tx : SessionId) (minerId : MinerId) (y : (World × Channels) × Link) : Prop where
  sole : SoleSession tx minerId y.1.2
  sound : y.2.Sound
  before : y.1.2.sessions.lookup tx = none →
    y.1.1.coord.router.creditsOf minerId = 0 ∧ y.2.log = []
  attended : ∀ s, y.1.2.sessions.lookup tx = some s → Attended minerId y.1.1 s
  heard : ∀ s, y.1.2.sessions.lookup tx = some s →
    y.2.log.map (·.msg) = (s.sent.take y.2.log.length).map (·.msg)
  balance : ∀ s, y.1.2.sessions.lookup tx = some s →
    y.1.1.coord.router.creditsOf minerId + s.pool y.2.log.length +
      (y.2.requested + y.2.miner.held.length) = max s.queueDepth 1 * y.2.readies

theorem linkInv_init (params : FeederParams) (tx : SessionId) (minerId : MinerId) :
    LinkInv tx minerId (linkMachine params tx minerId).init where
  sole _ _ h := absurd h (no_session_init params)
  sound := Link.sound_init
  before _ := ⟨rfl, rfl⟩
  attended _ h := absurd h (no_session_init params)
  heard _ h := absurd h (no_session_init params)
  balance _ h := absurd h (no_session_init params)

namespace LinkInv
variable {tx : SessionId} {minerId : MinerId} {y : (World × Channels) × Link} {s : Session}

theorem of_some (hsole : SoleSession tx minerId y.1.2) (hsound : y.2.Sound)
    (hs : y.1.2.sessions.lookup tx = some s) (hat : Attended minerId y.1.1 s)
    (hheard : y.2.log.map (·.msg) = (s.sent.take y.2.log.length).map (·.msg))
    (hbal : y.1.1.coord.router.creditsOf minerId + s.pool y.2.log.length +
      (y.2.requested + y.2.miner.held.length) = max s.queueDepth 1 * y.2.readies) :
    LinkInv tx minerId y := by
  have hunique : ∀ s', y.1.2.sessions.lookup tx = some s' → s' = s := by
    intro s' hs'
    rw [hs] at hs'
    exact (Option.some.inj hs').symm
  refine ⟨hsole, hsound, ?_, ?_, ?_, ?_⟩
  · intro hnone
    exact nomatch hs.symm.trans hnone
  all_goals
    intro s' hs'
    rw [hunique s' hs']
    assumption

theorem log_le (h : LinkInv tx minerId y) (hs : y.1.2.sessions.lookup tx = some s) :
    y.2.log.length ≤ s.sent.length := by
  have hlen := congrArg List.length (h.heard s hs)
  simp only [List.length_map, List.length_take] at hlen
  omega

theorem readies_le (h : LinkInv tx minerId y) (hs : y.1.2.sessions.lookup tx = some s) :
    y.2.readies ≤ s.sent.countP (·.msg.isConfigure) := by
  have hframes := (Link.count_frames h.sound.answered).2.1
  rw [h.sound.frames, List.count_append] at hframes
  have hlog : y.2.log.countP (·.msg.isConfigure) ≤ s.sent.countP (·.msg.isConfigure) := by
    have hmap := congrArg (List.countP CoordMsg.isConfigure) (h.heard s hs)
    rw [List.countP_map, List.countP_map] at hmap
    exact hmap.le.trans ((List.take_sublist _ _).countP_le)
  have hread : y.2.readies ≤ y.2.sent.count .ready := (List.take_sublist _ _).count_le _
  omega

theorem fits (h : LinkInv tx minerId y) (hs : y.1.2.sessions.lookup tx = some s) :
    y.1.1.coord.router.creditsOf minerId + s.pool y.2.log.length ≤ 2 ^ 32 - 1 := by
  have hat := h.attended s hs
  have hbal := h.balance s hs
  have hdepth := hat.depth
  have hone : y.2.readies ≤ 1 := by
    have hconf := hat.configures
    have hle := h.readies_le hs
    rw [Session.configures] at hconf
    omega
  have hmul : max s.queueDepth 1 * y.2.readies ≤ max s.queueDepth 1 * 1 :=
    Nat.mul_le_mul_left _ hone
  omega

theorem credits_register (h : LinkInv tx minerId y) (hs : y.1.2.sessions.lookup tx = some s)
    (hp : s.phase = .register) : y.1.1.coord.router.creditsOf minerId = 0 := by
  have hbal := h.balance s hs
  have hzero : y.2.readies = 0 := by
    have hconf := (h.attended s hs).configures
    have hle := h.readies_le hs
    rw [Session.configures, hp, Phase.owes] at hconf
    omega
  rw [hzero, Nat.mul_zero] at hbal
  omega

end LinkInv

omit [Crates] [MinerCrates] in
theorem Link.read_grants {l : Link} {f : MinerFrame} (hf : l.sent[l.read]? = some f)
    (tx : SessionId) (minerId : MinerId) (s : Session) :
    let l' : Link := { l with read := l.read + 1 }
    l'.requested + f.credits = l.requested ∧
      max s.queueDepth 1 * l'.readies + f.credits =
        max s.queueDepth 1 * l.readies + (f.event tx minerId).elim 0 (s.gain tx) := by
  intro l'
  obtain ⟨hlt, hget⟩ := List.getElem?_eq_some_iff.mp hf
  have hdrop : l.sent.drop l.read = f :: l.sent.drop (l.read + 1) := by
    rw [List.drop_eq_getElem_cons hlt, hget]
  have htake : l.sent.take (l.read + 1) = l.sent.take l.read ++ [f] := by
    rw [List.take_succ_eq_append_getElem hlt, hget]
  constructor
  · change ((l.sent.drop (l.read + 1)).map (·.credits)).sum + f.credits =
      ((l.sent.drop l.read).map (·.credits)).sum
    rw [hdrop, List.map_cons, List.sum_cons]
    omega
  · change max s.queueDepth 1 * (l.sent.take (l.read + 1)).count .ready + _ =
      max s.queueDepth 1 * (l.sent.take l.read).count .ready + _
    rw [htake, List.count_append]
    cases f <;> simp [MinerFrame.event, MinerFrame.credits, Session.gain, Nat.mul_add]

theorem LinkInv.opens (params : FeederParams) {tx : SessionId} {minerId : MinerId}
    {x : World × Channels} {l : Link} {e : ChannelEvent} (h : LinkInv tx minerId (x, l))
    (he : e.sole tx minerId = true) (ha : (channelMachine params).allowed x e)
    (hs : x.2.sessions.lookup tx = none) :
    LinkInv tx minerId ((channelMachine params).next x e, l) := by
  have hsole := soleSession_next ha.1 h.sole he
  obtain ⟨hcredits, hnil⟩ := h.before hs
  have hkeep : ((channelMachine params).next x e).1.coord.router.creditsOf minerId = 0 := by
    refine Machine.Layer.base_next (L := channelLayer params)
      (P := fun w : World => w.coord.router.creditsOf minerId = 0) (fun _ => hcredits) ?_
    intro d (hd : x.2.emit e = some d)
    refine (World.sameCredits_next params (ha.2 d hd) ?_).1.trans hcredits
    intro hp
    rcases payee_emit ha.1 h.sole he hd hp with ⟨now, rfl⟩ | ⟨rfl, -⟩
    · obtain ⟨s, hs', -⟩ := ha.1
      exact nomatch hs.symm.trans hs'
    · obtain ⟨s, hs', -⟩ := ha.1
      exact nomatch hs.symm.trans hs'
  rcases lookup_opens (w := x.1) hs he with hnone | ⟨caps, depth, hdepth, hnew⟩
  · refine ⟨hsole, h.sound, fun _ => ⟨hkeep, hnil⟩, ?_, ?_, ?_⟩ <;> intro s' hs' <;>
      exact nomatch hnone.symm.trans hs'
  · refine .of_some hsole h.sound hnew ?_ ?_ ?_
    · exact ⟨rfl, rfl, hdepth, fun hp => absurd rfl hp, le_rfl⟩
    · rw [hnil]
      rfl
    · obtain ⟨hreq, hheld, hready⟩ := h.sound.fresh hnil
      dsimp only at hreq hheld hready ⊢
      rw [hkeep, hreq, hheld, hready]
      simp [Session.pool, Session.hand, Session.new]

theorem LinkInv.session (params : FeederParams) {tx : SessionId} {minerId : MinerId}
    {x : World × Channels} {l l' : Link} {e : ChannelEvent} (hslot : SlotInv x)
    (h : LinkInv tx minerId (x, l)) (he : e.sole tx minerId = true)
    (ha : (channelMachine params).allowed x e) (hlog : l'.log = l.log)
    (hminer : l'.miner = l.miner) (hsound : l'.Sound) (hfresh : l.log = [] → l' = l)
    (hreads : ∀ s, x.2.sessions.lookup tx = some s →
      max s.queueDepth 1 * l'.readies + l.requested =
        max s.queueDepth 1 * l.readies + s.gain tx e + l'.requested) :
    LinkInv tx minerId ((channelMachine params).next x e, l') := by
  cases hs : x.2.sessions.lookup tx with
  | none =>
    rw [hfresh (h.before hs).2]
    exact h.opens params he ha hs
  | some s =>
    have hnext : (x.2.next x.1 e).sessions.lookup tx = some (x.2.react x.1 e tx s) :=
      Channels.lookup_next_of_some ha.1 hs
    obtain ⟨hat, hsent, hdepth, hbal⟩ := balance_channel params hslot h.sole hs (h.attended s hs)
      (h.log_le hs) (h.fits hs) (h.credits_register hs) he ha
    refine .of_some (soleSession_next ha.1 h.sole he) hsound hnext hat ?_ ?_
    · rw [hlog, h.heard s hs]
      obtain ⟨ms, hms⟩ := hsent
      rw [← hms, List.take_append_of_le_length (h.log_le hs)]
    · have hold := h.balance s hs
      have hread := hreads s hs
      rw [hlog, hminer, hdepth]
      dsimp only at hold hbal ⊢
      omega

theorem LinkInv.link {tx : SessionId} {minerId : MinerId} {x : World × Channels} {l l' : Link}
    (h : LinkInv tx minerId (x, l)) (hsound : l'.Sound) (hlog : l'.log = l.log)
    (hbal : ∀ s, x.2.sessions.lookup tx = some s →
      l'.requested + l'.miner.held.length + max s.queueDepth 1 * l.readies =
        l.requested + l.miner.held.length + max s.queueDepth 1 * l'.readies) :
    LinkInv tx minerId (x, l') := by
  refine ⟨h.sole, hsound, ?_, h.attended, ?_, ?_⟩
  · rw [hlog]
    exact h.before
  · rw [hlog]
    exact h.heard
  · intro s hs
    have hold := h.balance s hs
    have hmove := hbal s hs
    rw [hlog]
    dsimp only at hold ⊢
    omega

theorem LinkInv.receive {tx : SessionId} {minerId : MinerId} {x : World × Channels} {l : Link}
    (h : LinkInv tx minerId (x, l)) (hr : l.miner.replies = []) {msg : CoordMsg}
    (hm : l.incoming tx x.2 = some msg) (now : Nat) :
    LinkInv tx minerId (x, { l with
      miner := l.miner.receive now msg
      log := l.log ++ [⟨msg, if l.miner.inLoop then some (l.miner.answer now msg) else none⟩] }) := by
  obtain ⟨s, hs, hget⟩ := Option.bind_eq_some_iff.mp hm
  obtain ⟨sent, hsent, rfl⟩ := Option.map_eq_some_iff.mp hget
  obtain ⟨hlt, hat⟩ := List.getElem?_eq_some_iff.mp hsent
  refine .of_some h.sole (h.sound.receive hr now sent.msg) hs (h.attended s hs) ?_ ?_
  · rw [List.map_append, h.heard s hs, List.length_append, List.length_singleton,
      List.take_succ_eq_append_getElem hlt, hat, List.map_append]
    rfl
  · have hold := h.balance s hs
    have hdrop : s.sent.drop l.log.length = sent :: s.sent.drop (l.log.length + 1) := by
      rw [List.drop_eq_getElem_cons hlt, hat]
    have hheld := l.miner.held_receive now sent.msg
    rw [List.length_append, List.length_singleton]
    simp only [Session.pool, hdrop, List.countP_cons, Link.requested, Link.readies] at hold ⊢
    omega

theorem LinkInv.reply {tx : SessionId} {minerId : MinerId} {x : World × Channels} {l : Link}
    (h : LinkInv tx minerId (x, l)) {f : MinerFrame} {frames : List MinerFrame}
    (hr : l.miner.replies = f :: frames) :
    LinkInv tx minerId
      (x, { l with miner := l.miner.reply, sent := l.sent ++ l.miner.replies.head?.toList }) := by
  have hsound : l.Sound := h.sound
  obtain ⟨hcredits, hheld⟩ := hsound.reply_head hr
  have hread := hsound.read
  refine h.link hsound.reply rfl ?_
  intro s _
  simp only [Link.requested, Link.readies, hr, List.head?_cons, Option.toList_some,
    List.drop_append_of_le_length hread, List.take_append_of_le_length hread, List.map_append,
    List.sum_append, List.map_singleton, List.sum_singleton]
  omega

theorem LinkInv.read (params : FeederParams) {tx : SessionId} {minerId : MinerId}
    {x : World × Channels} {l : Link} (hslot : SlotInv x) (h : LinkInv tx minerId (x, l))
    (hlt : l.read < l.sent.length)
    (ha : ∀ d ∈ l.emit tx minerId .read, (channelMachine params).allowed x d)
    (hsound : Link.Sound { l with read := l.read + 1 }) :
    LinkInv tx minerId ((l.emit tx minerId .read).elim x ((channelMachine params).next x),
      { l with read := l.read + 1 }) := by
  obtain ⟨f, hf⟩ : ∃ f, l.sent[l.read]? = some f := ⟨_, List.getElem?_eq_getElem hlt⟩
  have hreads := Link.read_grants hf tx minerId
  have hemit : l.emit tx minerId .read = f.event tx minerId := by simp [Link.emit, hf]
  rw [hemit] at ha ⊢
  cases he : f.event tx minerId with
  | none =>
    refine h.link hsound rfl ?_
    intro s _
    obtain ⟨hreq, hready⟩ := hreads s
    rw [he, Option.elim_none] at hready
    dsimp only
    omega
  | some e =>
    refine h.session params hslot (MinerFrame.sole_event he) (ha e he) rfl rfl hsound ?_ ?_
    · intro hnil
      have hsent := (List.append_eq_nil_iff.mp (h.sound.frames.symm.trans (by rw [hnil]; rfl))).1
      dsimp only at hsent
      rw [hsent] at hf
      exact nomatch hf
    · intro s _
      obtain ⟨hreq, hready⟩ := hreads s
      rw [he, Option.elim_some] at hready
      omega

/-- A step of the process or of the sessions: frames and jobs move, and no credit is made or
lost. -/
theorem linkInv_next (params : FeederParams) {tx : SessionId} {minerId : MinerId}
    {x : World × Channels} {l : Link} {e : LinkEvent} (hslot : SlotInv x)
    (h : LinkInv tx minerId (x, l)) (ha : (linkMachine params tx minerId).allowed (x, l) e) :
    LinkInv tx minerId ((linkMachine params tx minerId).next (x, l) e) := by
  obtain ⟨hg, ha⟩ : l.Guard tx minerId x.2 e ∧
    ∀ d ∈ l.emit tx minerId e, (channelMachine params).allowed x d := ha
  have hsound : (l.next tx x.2 e).Sound := h.sound.next hg
  change LinkInv tx minerId
    ((l.emit tx minerId e).elim x ((channelMachine params).next x), l.next tx x.2 e)
  cases e with
  | channel e =>
    have hgain : ∀ s : Session, s.gain tx e = 0 := Session.gain_eq_zero hg.2.1
    refine h.session params hslot hg.1 (ha e rfl) rfl rfl hsound (fun _ => rfl) ?_
    intro s _
    rw [hgain]
    rfl
  | receive now =>
    obtain ⟨msg, hm⟩ := Option.isSome_iff_exists.mp hg.2
    simp only [Link.next, hm]
    exact h.receive hg.1 hm now
  | idle => exact ⟨h.sole, hsound, h.before, h.attended, h.heard, h.balance⟩
  | reply =>
    obtain ⟨f, frames, hr⟩ := List.exists_cons_of_ne_nil hg
    exact h.reply hr
  | read => exact h.read params hslot hg.1 ha hsound

theorem linkInv_reachable (params : FeederParams) {tx : SessionId} {minerId : MinerId}
    {y : (World × Channels) × Link} (h : (linkMachine params tx minerId).Reachable y) :
    LinkInv tx minerId y := by
  refine Machine.Reachable.invariant (I := LinkInv tx minerId) ?_ ?_ h
  · exact linkInv_init params tx minerId
  intro y e hy hi ha
  have hslot : SlotInv y.1 := by
    refine Machine.Reachable.invariant (I := SlotInv) ?_ ?_ (Machine.Layer.base_reachable hy)
    · exact slotInv_init params
    · exact fun x e _ hi ha => slotInv_next params hi ha.1
  exact linkInv_next params hslot hi ha

/-- While the process runs no credit is made or lost: those of the miner, those on their way to it
and the jobs it is to answer are as many as its `Ready`s grant. The process receives the frames of
its channel in order and sends what its loop answers: to a job its terminal frame and one credit.
What arrives after the loop is drained. -/
theorem credits_are_conserved (params : FeederParams) {tx : SessionId} {minerId : MinerId}
    {y : (World × Channels) × Link} (h : (linkMachine params tx minerId).Reachable y) :
    (∀ s, y.1.2.sessions.lookup tx = some s →
      let jobs := s.hand.length + (s.sent.drop y.2.log.length).countP (·.msg.isJob) +
        y.2.miner.held.length
      y.1.1.coord.router.creditsOf minerId + (s.grants.sum + y.2.requested) + jobs =
          max s.queueDepth 1 * y.2.readies ∧
        jobs ≤ max s.queueDepth 1 * y.2.readies ∧
        y.2.log.map (·.msg) = (s.sent.take y.2.log.length).map (·.msg)) ∧
      y.2.log.flatMap (·.frames) = y.2.sent ++ y.2.miner.replies ∧
      (y.2.miner.inLoop = true → ∀ r ∈ y.2.log, r.answer ≠ none) ∧
      ∀ r ∈ y.2.log, ∀ a ∈ r.answer, (∀ job, r.msg = .job job → AnswersJob job a) ∧
        (r.msg.isJob = false → ∀ f ∈ a, f = .ready ∨ f = .status ∨ f = .fatal) := by
  have hi := linkInv_reachable params h
  refine ⟨?_, hi.sound.frames, hi.sound.looped, ?_⟩
  · intro s hs jobs
    have hbal := hi.balance s hs
    rw [Session.pool] at hbal
    refine ⟨by omega, by omega, hi.heard s hs⟩
  · intro r hr a ha
    obtain ⟨m, now, rfl⟩ := hi.sound.answered r hr a ha
    refine ⟨?_, fun hjob f hf => m.answer_control hjob hf⟩
    intro job hmsg
    rw [hmsg]
    exact m.answers_answer now job

/-- A process that has left its loop and sent its answers sends nothing more. -/
theorem sent_of_stopped (params : FeederParams) {tx : SessionId} {minerId : MinerId}
    (es : List LinkEvent) {y : (World × Channels) × Link} (hin : y.2.miner.inLoop = false)
    (hr : y.2.miner.replies = []) (ha : (linkMachine params tx minerId).Accepts y es) :
    ((linkMachine params tx minerId).run y es).2.sent = y.2.sent := by
  induction es generalizing y with
  | nil => rfl
  | cons e es ih =>
    obtain ⟨hallow, hrest⟩ := ha
    obtain ⟨x, l⟩ := y
    have hkeep : (l.next tx x.2 e).miner.inLoop = false ∧
        (l.next tx x.2 e).miner.replies = [] ∧ (l.next tx x.2 e).sent = l.sent := by
      cases e with
      | channel e => exact ⟨hin, hr, rfl⟩
      | receive now =>
        obtain ⟨msg, hm⟩ := Option.isSome_iff_exists.mp hallow.1.2
        obtain ⟨hin', hr'⟩ := MockMiner.receive_drained hin now msg
        simp only [Link.next, hm]
        exact ⟨hin', hr'.trans hr, trivial⟩
      | idle => exact absurd (hin.symm.trans hallow.1.1) Bool.noConfusion
      | reply => exact absurd hr hallow.1
      | read => exact ⟨hin, hr, rfl⟩
    exact (ih hkeep.1 hkeep.2.1 hrest).trans hkeep.2.2

end

namespace Sample

scoped instance minerCrates : MinerCrates where
  welcomeOk version := decide (version = 1)
  rejectReason
    | .malformed => .other 1
    | .expired => .other 2
    | .topologyMissing => .other 3
    | .topologyMismatch => .other 4
    | .targetMissing => .other 5
  encodeSpinsPacked spins := spins.map fun s => if 0 < s then 1 else 0
  energyMilli _ h j _ := h.sum + j.sum
  energyFromMilli _ h j _ := h.sum + j.sum
  leaseSpec _ := none
  leaseSalt _ _ := none
  leaseNonce _ _ := none
  viewNodes t := t.nodes.length
  viewEdges _ := []
  viewDraw _ _ := none
  meetsTarget _ _ _ := false

def greetings : List ChannelEvent := .hello 0 "a" caps 1 :: List.replicate 6 (.advance 0)

def greeted : List LinkEvent :=
  List.flatten [greetings.map .channel, [.receive 0, .receive 0, .reply, .read,
    .channel (.dispatch 0 0)], (opened ++ collected).map .channel, [.receive 0, .receive 0]]

def shutDown : List LinkEvent :=
  greeted ++ ([.channel (.control 0 (.shutdown 5000)), .channel (.send 0), .receive 0,
    .receive 0] : List LinkEvent)

end Sample

open Sample in
/-- The miner has answered its job and its session has read the answer up to the `JobRequest`. -/
theorem credits_are_conserved_sample :
    let y := (linkMachine params 0 "a").run (linkMachine params 0 "a").init
      (greeted ++ [.channel (.send 0), .receive 0, .reply, .reply, .read])
    ∃ s, y.1.2.sessions.lookup 0 = some s ∧ y.2.requested = 1 ∧ y.2.readies = 1 ∧
      y.1.1.coord.router.creditsOf "a" + (s.grants.sum + y.2.requested) +
          (s.hand.length + (s.sent.drop y.2.log.length).countP (·.msg.isJob) +
            y.2.miner.held.length) = max s.queueDepth 1 * y.2.readies := by
  intro y
  have hreach : (linkMachine params 0 "a").Reachable y :=
    Machine.reachable_run _ (by decide +kernel)
  have hy := credits_are_conserved params hreach
  obtain ⟨s, hs⟩ : ∃ s, y.1.2.sessions.lookup 0 = some s := by
    exact Option.isSome_iff_exists.mp (by decide +kernel)
  exact ⟨s, hs, by decide +kernel, by decide +kernel, (hy.1 s hs).1⟩

open Sample in
/-- The `Shutdown` goes out before the job that the session has collected. The process leaves its
loop, drains the job, and never sends a `JobRequest` for it. -/
theorem drained_job_is_never_answered :
    ¬ ∀ y, (linkMachine params 0 "a").Reachable y → ∀ r ∈ y.2.log, r.msg.isJob = true →
      ∃ es, (linkMachine params 0 "a").Accepts y es ∧
        ∃ f ∈ ((linkMachine params 0 "a").run y es).2.sent, f.isJobRequest = true := by
  intro hall
  have hreach := Machine.reachable_run (M := linkMachine params 0 "a") shutDown (by decide +kernel)
  have hjob : ∃ r ∈ ((linkMachine params 0 "a").run (linkMachine params 0 "a").init
      shutDown).2.log, r.msg.isJob = true := by decide +kernel
  obtain ⟨r, hr, hmsg⟩ := hjob
  obtain ⟨es, ha, f, hf, hreq⟩ := hall _ hreach r hr hmsg
  rw [sent_of_stopped params es (by decide +kernel) (by decide +kernel) ha] at hf
  have hnone : ∀ f ∈ ((linkMachine params 0 "a").run (linkMachine params 0 "a").init
      shutDown).2.sent, f.isJobRequest = false := by decide +kernel
  exact absurd hreq (by rw [hnone f hf]; exact Bool.noConfusion)

end QuipCoordinator
