import QuipCoordinator.SessionCredits

/-!
# One mock miner process

The layer of one mock miner process over the sessions: its session is `tx`, and no
other session has its id. The process receives the frames of the session's channel
in order and sends its answers frame by frame, and the session reads them in order.
A frame that the session has read and cannot grant for want of room counts as not
read. The stream stays open: the session ends only when the process has left its
loop and all its frames are read. What happens after the process has ended is not
in these runs.
-/

namespace QuipCoordinator

/-- A frame the process received, with what its loop answered, none for a drained frame. -/
structure Receipt where
  msg : CoordMsg
  answer : Option (List MinerFrame)
deriving DecidableEq

def Receipt.frames (r : Receipt) : List MinerFrame := r.answer.getD []

/-- The process and the frames of its stream: `log` are those it received, `sent` those it sent,
of which the session has read the first `read`. -/
structure Link where
  miner : MockMiner
  log : List Receipt
  sent : List MinerFrame
  read : Nat
deriving DecidableEq

/-- `idle` is the idle timeout of the loop. -/
inductive LinkEvent
  | channel (e : ChannelEvent)
  | receive (now : Nat)
  | idle
  | reply
  | read
deriving DecidableEq

/-- What the message loop of the session does with a frame. A `Result` has sections of its own. -/
def MinerFrame.event (tx : SessionId) (minerId : MinerId) : MinerFrame → Option ChannelEvent
  | .ready => some (.ready tx)
  | .jobRequest credits => some (.jobRequest tx credits)
  | .reject jobId reason => some (.other (.rejectJob minerId jobId reason))
  | .leaseDone done => some (.other (.handleLeaseDone minerId done))
  | .result _ | .status | .fatal => none

namespace Link

def init : Link := ⟨.init, [], [], 0⟩

def Finished (l : Link) : Prop :=
  l.miner.inLoop = false ∧ l.miner.replies = [] ∧ l.read = l.sent.length

instance (l : Link) : Decidable l.Finished := inferInstanceAs (Decidable (_ ∧ _ ∧ _))

def readies (l : Link) : Nat := (l.sent.take l.read).count .ready

def requested (l : Link) : Nat := ((l.sent.drop l.read).map (·.credits)).sum

def incoming (tx : SessionId) (c : Channels) (l : Link) : Option CoordMsg :=
  (c.sessions.lookup tx).bind fun s => (s.sent[l.log.length]?).map (·.msg)

def Guard (tx : SessionId) (minerId : MinerId) (c : Channels) (l : Link) : LinkEvent → Prop
  | .channel e =>
    e.sole tx minerId = true ∧ e.grants tx = false ∧ (e = .close tx → l.Finished)
  | .receive _ => l.miner.replies = [] ∧ (incoming tx c l).isSome = true
  | .idle => l.miner.inLoop = true ∧ l.miner.replies = []
  | .reply => l.miner.replies ≠ []
  | .read => l.read < l.sent.length ∧ ∃ s ∈ c.sessions.lookup tx, s.phase = .running

instance (tx : SessionId) (minerId : MinerId) (c : Channels) (l : Link) :
    (e : LinkEvent) → Decidable (l.Guard tx minerId c e)
  | .channel e => inferInstanceAs (Decidable (_ ∧ _ ∧ (e = .close tx → l.Finished)))
  | .receive _ | .idle => inferInstanceAs (Decidable (_ ∧ _))
  | .reply => inferInstanceAs (Decidable (¬ _))
  | .read => inferInstanceAs (Decidable (_ ∧ ∃ s ∈ c.sessions.lookup tx, _))

def emit (tx : SessionId) (minerId : MinerId) (l : Link) : LinkEvent → Option ChannelEvent
  | .channel e => some e
  | .read => (l.sent[l.read]?).bind (·.event tx minerId)
  | _ => none

def next [Crates] [MinerCrates] (tx : SessionId) (c : Channels) (l : Link) : LinkEvent → Link
  | .channel _ => l
  | .receive now =>
    match incoming tx c l with
    | some msg =>
      { l with
        miner := l.miner.receive now msg
        log := l.log ++ [⟨msg, if l.miner.inLoop then some (l.miner.answer now msg) else none⟩] }
    | none => l
  | .idle => { l with miner := { l.miner with inLoop := false } }
  | .reply => { l with miner := l.miner.reply, sent := l.sent ++ l.miner.replies.head?.toList }
  | .read => { l with read := l.read + 1 }

end Link

section
variable [Crates] [MinerCrates]

def linkLayer (params : FeederParams) (tx : SessionId) (minerId : MinerId) :
    Machine.Layer (channelMachine params) Link LinkEvent where
  init := .init
  guard x l := l.Guard tx minerId x.2
  emit _ l := l.emit tx minerId
  next x l := l.next tx x.2

abbrev linkMachine (params : FeederParams) (tx : SessionId) (minerId : MinerId) :
    Machine ((World × Channels) × Link) LinkEvent :=
  (linkLayer params tx minerId).machine

instance (params : FeederParams) (tx : SessionId) (minerId : MinerId)
    (y : (World × Channels) × Link) (e : LinkEvent) :
    Decidable ((linkMachine params tx minerId).allowed y e) :=
  inferInstanceAs (Decidable (y.2.Guard tx minerId y.1.2 e ∧
    ∀ d ∈ y.2.emit tx minerId e, (channelMachine params).allowed y.1 d))

namespace MockMiner

omit [Crates] [MinerCrates] in
theorem countP_of_answersJob {job : Job} {frames : List MinerFrame} (h : AnswersJob job frames) :
    frames.countP (·.isJobRequest) = 1 ∧ frames.count .ready = 0 ∧
      ∀ f ∈ frames, f.credits = if f.isJobRequest then 1 else 0 := by
  cases h with
  | reject reason => simp [MinerFrame.isJobRequest, MinerFrame.credits]
  | result result => simp [MinerFrame.isJobRequest, MinerFrame.credits]
  | leaseDone winners done =>
    have hzero : (winners.map MinerFrame.result).countP (·.isJobRequest) = 0 := by
      simp [List.countP_eq_zero, MinerFrame.isJobRequest]
    have hready : (winners.map MinerFrame.result).count .ready = 0 := by
      simp [List.count_eq_zero]
    refine ⟨?_, ?_, ?_⟩
    · rw [List.countP_append, hzero]
      rfl
    · rw [List.count_append, hready]
      rfl
    · intro f hf
      rcases List.mem_append.mp hf with hf | hf
      · obtain ⟨r, -, rfl⟩ := List.mem_map.mp hf
        rfl
      · rcases List.mem_cons.mp hf with rfl | hf
        · rfl
        · rw [List.mem_singleton.mp hf]
          rfl

/-- The frames of an answer: one credit for a job, and a `Ready` for the configuration only. -/
theorem answer_counts (m : MockMiner) (now : Nat) (msg : CoordMsg) :
    (m.answer now msg).countP (·.isJobRequest) = (if msg.isJob then 1 else 0) ∧
      (m.answer now msg).count .ready = (if msg.isConfigure then 1 else 0) ∧
      ∀ f ∈ m.answer now msg, f.credits = if f.isJobRequest then 1 else 0 := by
  cases msg with
  | job job => exact countP_of_answersJob (m.answers_answer now job)
  | welcome version =>
    cases hw : MinerCrates.welcomeOk version <;>
      simp [answer, hw, CoordMsg.isJob, CoordMsg.isConfigure, MinerFrame.isJobRequest,
        MinerFrame.credits]
  | _ => simp [answer, CoordMsg.isJob, CoordMsg.isConfigure, MinerFrame.isJobRequest,
      MinerFrame.credits]

theorem answer_control (m : MockMiner) {now : Nat} {msg : CoordMsg} (h : msg.isJob = false)
    {f : MinerFrame} (hf : f ∈ m.answer now msg) : f = .ready ∨ f = .status ∨ f = .fatal := by
  cases msg with
  | job job => exact absurd h Bool.noConfusion
  | welcome version =>
    rw [answer] at hf
    split_ifs at hf
    · cases hf
    · exact Or.inr (Or.inr (List.mem_singleton.mp hf))
  | configure depth => exact Or.inl (List.mem_singleton.mp hf)
  | cancel _ | ping => exact Or.inr (Or.inl (List.mem_singleton.mp hf))
  | topology _ | setTarget _ | shutdown _ => cases hf

theorem receive_drained {m : MockMiner} (h : m.inLoop = false) (now : Nat)
    (msg : CoordMsg) : (m.receive now msg).inLoop = false ∧
      (m.receive now msg).replies = m.replies := by
  cases msg <;> simp [receive, h]

theorem receive_looped {m : MockMiner} (h : m.inLoop = true) (now : Nat) (msg : CoordMsg) :
    (m.receive now msg).replies = m.answer now msg := by
  cases msg <;> simp [receive, h, answer]

theorem held_receive (m : MockMiner) (now : Nat) (msg : CoordMsg) :
    (m.receive now msg).held.length = m.held.length + if msg.isJob then 1 else 0 := by
  cases hl : m.inLoop <;> cases msg <;> simp [receive, hl, CoordMsg.isJob]

end MockMiner

/-- The frames of the process add up: it sends what its loop answered, one `JobRequest` for each
job, and holds the other jobs. -/
structure Link.Sound (l : Link) : Prop where
  frames : l.log.flatMap (·.frames) = l.sent ++ l.miner.replies
  answered : ∀ r ∈ l.log, ∀ a ∈ r.answer, ∃ m now, a = MockMiner.answer m now r.msg
  held : l.miner.held.length + l.sent.countP (·.isJobRequest) = l.log.countP (·.msg.isJob)
  read : l.read ≤ l.sent.length
  looped : l.miner.inLoop = true → ∀ r ∈ l.log, r.answer ≠ none

namespace Link

theorem sound_init : Sound .init where
  frames := rfl
  answered _ h := nomatch h
  held := rfl
  read := le_rfl
  looped _ _ h := nomatch h

theorem count_frames {log : List Receipt}
    (h : ∀ r ∈ log, ∀ a ∈ r.answer, ∃ m now, a = MockMiner.answer m now r.msg) :
    (log.flatMap (·.frames)).countP (·.isJobRequest) ≤ log.countP (·.msg.isJob) ∧
      (log.flatMap (·.frames)).count .ready ≤ log.countP (·.msg.isConfigure) ∧
      ∀ f ∈ log.flatMap (·.frames), f.credits = if f.isJobRequest then 1 else 0 := by
  induction log with
  | nil => exact ⟨le_rfl, le_rfl, fun f hf => nomatch hf⟩
  | cons r log ih =>
    obtain ⟨hj, hr, hc⟩ := ih fun r hr => h r (List.mem_cons_of_mem _ hr)
    have hhead : r.frames.countP (·.isJobRequest) ≤ (if r.msg.isJob then 1 else 0) ∧
        r.frames.count .ready ≤ (if r.msg.isConfigure then 1 else 0) ∧
        ∀ f ∈ r.frames, f.credits = if f.isJobRequest then 1 else 0 := by
      cases ha : r.answer with
      | none => simp [Receipt.frames, ha]
      | some a =>
        obtain ⟨m, now, rfl⟩ := h r List.mem_cons_self a ha
        obtain ⟨hj, hr, hc⟩ := m.answer_counts now r.msg
        have hframes : r.frames = m.answer now r.msg := by
          rw [Receipt.frames, ha]
          rfl
        rw [hframes]
        exact ⟨hj.le, hr.le, hc⟩
    obtain ⟨hj', hr', hc'⟩ := hhead
    rw [List.flatMap_cons, List.countP_append, List.count_append, List.countP_cons,
      List.countP_cons]
    refine ⟨by omega, by omega, ?_⟩
    intro f hf
    rcases List.mem_append.mp hf with hf | hf
    · exact hc' f hf
    · exact hc f hf

theorem Sound.receive {l : Link} (h : l.Sound) (hr : l.miner.replies = []) (now : Nat)
    (msg : CoordMsg) :
    Sound { l with
      miner := l.miner.receive now msg
      log := l.log ++ [⟨msg, if l.miner.inLoop then some (l.miner.answer now msg) else none⟩] } := by
  refine ⟨?_, ?_, ?_, h.read, ?_⟩
  · change (l.log ++ _).flatMap (·.frames) = l.sent ++ (l.miner.receive now msg).replies
    rw [List.flatMap_append, h.frames, hr, List.append_nil]
    cases hl : l.miner.inLoop with
    | true =>
      rw [MockMiner.receive_looped hl]
      simp [Receipt.frames]
    | false =>
      rw [(MockMiner.receive_drained hl now msg).2, hr]
      simp [Receipt.frames]
  · intro r hmem a ha
    rcases List.mem_append.mp hmem with hmem | hmem
    · exact h.answered r hmem a ha
    · rw [List.mem_singleton.mp hmem] at ha ⊢
      dsimp only at ha
      split_ifs at ha
      · exact ⟨l.miner, now, (Option.some.inj ha).symm⟩
      · cases ha
  · have hheld := h.held
    change (l.miner.receive now msg).held.length + l.sent.countP _ = (l.log ++ _).countP _
    rw [MockMiner.held_receive, List.countP_append, List.countP_singleton]
    dsimp only
    omega
  · intro hin r hmem
    have hl : l.miner.inLoop = true := by
      by_contra hn
      rw [Bool.not_eq_true] at hn
      have hstill := (MockMiner.receive_drained hn now msg).1
      exact absurd (hstill.symm.trans hin) Bool.noConfusion
    rcases List.mem_append.mp hmem with hmem | hmem
    · exact h.looped hl r hmem
    · rw [List.mem_singleton.mp hmem]
      simp [hl]

theorem Sound.reply_head {l : Link} (h : l.Sound) {f : MinerFrame} {frames : List MinerFrame}
    (hr : l.miner.replies = f :: frames) : f.credits = (if f.isJobRequest then 1 else 0) ∧
      l.miner.reply.held.length + (if f.isJobRequest then 1 else 0) = l.miner.held.length := by
  obtain ⟨hj, -, hc⟩ := count_frames h.answered
  rw [h.frames, hr] at hj hc
  refine ⟨hc f (by simp), ?_⟩
  have hheld := h.held
  rw [MockMiner.reply, hr]
  cases hf : f.isJobRequest with
  | false => simp [hf]
  | true =>
    rw [List.countP_append, List.countP_cons, hf] at hj
    simp only [if_true] at hj
    simp only [List.head?_cons, Option.any_some, hf, if_true, List.length_tail]
    omega

theorem Sound.reply {l : Link} (h : l.Sound) :
    Sound { l with miner := l.miner.reply, sent := l.sent ++ l.miner.replies.head?.toList } := by
  cases hr : l.miner.replies with
  | nil =>
    have hminer : l.miner.reply = l.miner := by
      rw [MockMiner.reply, hr]
      rcases hm : l.miner with ⟨inLoop, topology, target, replies, held⟩
      rw [hm] at hr
      subst hr
      rfl
    rw [hminer]
    simpa using h
  | cons f frames =>
    obtain ⟨-, hheld'⟩ := h.reply_head hr
    refine ⟨?_, h.answered, ?_, ?_, h.looped⟩
    · change l.log.flatMap (·.frames) = (l.sent ++ [f]) ++ l.miner.replies.tail
      rw [h.frames, hr, List.append_assoc]
      rfl
    · have hheld := h.held
      change l.miner.reply.held.length + (l.sent ++ [f]).countP _ = l.log.countP _
      rw [List.countP_append, List.countP_singleton]
      omega
    · have hread := h.read
      change l.read ≤ (l.sent ++ [f]).length
      rw [List.length_append]
      omega

theorem Sound.next {l : Link} (h : l.Sound) {tx : SessionId} {minerId : MinerId} {c : Channels}
    {e : LinkEvent} (hg : l.Guard tx minerId c e) : (l.next tx c e).Sound := by
  cases e with
  | channel e => exact h
  | receive now =>
    obtain ⟨msg, hm⟩ := Option.isSome_iff_exists.mp hg.2
    simp only [Link.next, hm]
    exact h.receive hg.1 now msg
  | idle => exact ⟨h.frames, h.answered, h.held, h.read, fun hin => absurd hin Bool.noConfusion⟩
  | reply => exact h.reply
  | read => exact ⟨h.frames, h.answered, h.held, hg.1, h.looped⟩

end Link

omit [Crates] in
theorem Link.Sound.fresh [Crates] {l : Link} (h : l.Sound) (hnil : l.log = []) :
    l.requested = 0 ∧ l.miner.held.length = 0 ∧ l.readies = 0 := by
  have hframes := h.frames
  have hheld := h.held
  rw [hnil] at hframes hheld
  obtain ⟨hsent, -⟩ := List.append_eq_nil_iff.mp hframes.symm
  rw [hsent] at hheld
  refine ⟨?_, ?_, ?_⟩
  · rw [Link.requested, hsent, List.drop_nil]
    rfl
  · simpa using hheld
  · rw [Link.readies, hsent, List.take_nil]
    rfl

omit [Crates] [MinerCrates] in
theorem MinerFrame.sole_event {tx : SessionId} {minerId : MinerId} {f : MinerFrame}
    {e : ChannelEvent} (h : f.event tx minerId = some e) : e.sole tx minerId = true := by
  cases f <;> cases h <;> rfl

end
end QuipCoordinator
