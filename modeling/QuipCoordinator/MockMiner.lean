import QuipCoordinator.Producer

/-!
# The reference miner

What the message loop of the mock miner does with each frame. It samples with
all spins up: a plain job gets a `Result` or a `Reject`, a lease a `Result` for
each winning salt and a `LeaseDone`, or a `Reject`, and each answer ends with a
`JobRequest` of one credit. The loop ends at a `Shutdown`, a refused `Welcome` or
an idle timeout, and what comes later is drained. The crates the miner links are
parameters.
-/

namespace QuipCoordinator

inductive Refusal
  | malformed
  | expired
  | topologyMissing
  | topologyMismatch
  | targetMissing
deriving DecidableEq

class MinerCrates where
  -- `check_welcome` on the protocol version
  welcomeOk : Nat → Bool
  rejectReason : Refusal → RejectReason
  encodeSpinsPacked : List Int → Bytes
  -- spins, fields and couplings in milli, edges
  energyMilli : List Int → List Int → List Int → List (Nat × Nat) → Int
  energyFromMilli : List Int → List Int → List Int → List (Nat × Nat) → Int
  -- the salt count of `LeaseSpec::from_proto`, and the salt and the nonce at an index
  leaseSpec : IsingProblemGenerator → Option Nat
  leaseSalt : IsingProblemGenerator → Nat → Option Bytes32
  leaseNonce : IsingProblemGenerator → Nat → Option Bytes32
  -- the nodes, the edges and the draw of a `TopologyView`
  viewNodes : WireTopology → Nat
  viewEdges : WireTopology → List (Nat × Nat)
  viewDraw : WireTopology → Bytes32 → Option (List Int × List Int)
  meetsTarget : List Int → Int → SetTarget → Bool

inductive MinerFrame
  | ready
  | jobRequest (credits : Nat)
  | result (result : ResultFrame)
  | reject (jobId : JobId) (reason : RejectReason)
  | leaseDone (done : LeaseDone)
  | status
  | fatal
deriving DecidableEq

namespace MinerFrame

def credits : MinerFrame → Nat
  | .jobRequest credits => credits
  | _ => 0

def isJobRequest : MinerFrame → Bool
  | .jobRequest _ => true
  | _ => false

end MinerFrame

def CoordMsg.isJob : CoordMsg → Bool
  | .job _ => true
  | _ => false

def CoordMsg.isConfigure : CoordMsg → Bool
  | .configure _ => true
  | _ => false

namespace MockMiner
open Crates MinerCrates

def rejectAndReplace (jobId : JobId) (reason : RejectReason) : List MinerFrame :=
  [.reject jobId reason, .jobRequest 1]

/-- The position of a node: of two equal nodes the later one is kept. -/
def position (nodes : List Nat) (node : Nat) : Option Nat :=
  ((List.range nodes.length).filter fun i => nodes[i]? = some node).getLast?

def resolveEdges (ising : IsingProblem) (topo : Option WireTopology) :
    Except Refusal (List (Nat × Nat)) :=
  match ising.graph with
  | some (.edges e) => .ok (e.u.zip e.v)
  | some (.topologyHash hash) =>
    match topo with
    | none => .error .topologyMissing
    | some topo =>
      if hash ≠ topo.hash then .error .topologyMismatch
      else
        (topo.edges.elim [] fun e => e.u.zip e.v).mapM fun e =>
          match position topo.nodes e.1, position topo.nodes e.2 with
          | some u, some v => .ok (u, v)
          | _, _ => .error .malformed
  | none => .ok []

variable [Crates] [MinerCrates]

def sample (job : Job) (ising : IsingProblem) (h j : List Int) (topo : Option WireTopology)
    (now : Nat) : List MinerFrame :=
  if job.deadlineMs ≠ 0 ∧ job.deadlineMs < now then
    rejectAndReplace job.jobId (rejectReason .expired)
  else
    match resolveEdges ising topo with
    | .error refusal => rejectAndReplace job.jobId (rejectReason refusal)
    | .ok edges =>
      if edges.any fun e => h.length ≤ e.1 || h.length ≤ e.2 then
        rejectAndReplace job.jobId (rejectReason .malformed)
      else
        let spins := List.replicate h.length 1
        [.result ⟨job.jobId, [⟨encodeSpinsPacked spins, energyMilli spins h j edges⟩], 0, [], []⟩,
          .jobRequest 1]

def handleJob (job : Job) (topo : Option WireTopology) (now : Nat) : List MinerFrame :=
  if job.kind ≠ .isingSample then rejectAndReplace job.jobId .unsupportedKind
  else
    match job.ising with
    -- the default problem has scale 0
    | none => rejectAndReplace job.jobId (rejectReason .malformed)
    | some ising =>
      if ising.encoding ≠ .i32 ∨ ising.scale ≠ milliScale then
        rejectAndReplace job.jobId (rejectReason .malformed)
      else
        match decodeI32Le ising.h, decodeI32Le ising.j with
        | some h, some j => sample job ising h j topo now
        | _, _ => rejectAndReplace job.jobId (rejectReason .malformed)

/-- The loop over the salts of a lease: the winners and the salts done, none when a draw fails. -/
def drawSalts (job : Job) (generator : IsingProblemGenerator) (topo : WireTopology)
    (target : SetTarget) : List Nat → List ResultFrame → Nat → Option (List ResultFrame × Nat)
  | [], winners, done => some (winners, done)
  | i :: salts, winners, done =>
    match leaseSalt generator i, leaseNonce generator i with
    | some salt, some nonce =>
      match viewDraw topo nonce with
      | none => none
      | some (h, j) =>
        let spins := List.replicate (viewNodes topo) 1
        let energy := energyFromMilli spins h j (viewEdges topo)
        let winners :=
          if meetsTarget spins energy target then
            winners ++ [⟨job.jobId, [⟨encodeSpinsPacked spins, energy⟩], 0, salt.toList, nonce.toList⟩]
          else winners
        drawSalts job generator topo target salts winners (done + 1)
    | _, _ => some (winners, done)

def handleLease (job : Job) (topo : Option WireTopology) (target : Option SetTarget) :
    List MinerFrame :=
  let refuse := fun refusal => rejectAndReplace job.jobId (rejectReason refusal)
  match target.filter fun t => 0 < t.maxProofSolutions with
  | none => refuse .targetMissing
  | some target =>
    match topo with
    | none => refuse .topologyMissing
    | some topo =>
      match job.generator.bind fun g => (leaseSpec g).map (g, ·) with
      | none => refuse .malformed
      | some (generator, saltCount) =>
        if generator.topologyHash ≠ topo.hash then refuse .topologyMismatch
        else if !topologyViewOk topo then refuse .malformed
        else
          match drawSalts job generator topo target (List.range saltCount) [] 0 with
          | none => refuse .malformed
          | some (winners, done) =>
            winners.map .result ++ [.leaseDone ⟨job.jobId, done⟩, .jobRequest 1]

end MockMiner

/-- The miner process. `replies` are the frames of its last answer that it has not sent, and
`held` the jobs it has received whose `JobRequest` it has not sent. -/
structure MockMiner where
  inLoop : Bool
  topology : Option WireTopology
  target : Option SetTarget
  replies : List MinerFrame
  held : List Job
deriving DecidableEq

namespace MockMiner

def init : MockMiner := ⟨true, none, none, [], []⟩

section
variable [Crates] [MinerCrates]

def answer (m : MockMiner) (now : Nat) : CoordMsg → List MinerFrame
  | .welcome version => if MinerCrates.welcomeOk version then [] else [.fatal]
  | .configure _ => [.ready]
  | .job job =>
    if job.isLease then handleLease job m.topology m.target else handleJob job m.topology now
  | .cancel _ | .ping => [.status]
  | .topology _ | .setTarget _ | .shutdown _ => []

def receive (m : MockMiner) (now : Nat) (msg : CoordMsg) : MockMiner :=
  let m :=
    match msg with
    | .job job => { m with held := m.held ++ [job] }
    | _ => m
  if m.inLoop then
    let m := { m with replies := m.answer now msg }
    match msg with
    | .welcome version => { m with inLoop := MinerCrates.welcomeOk version }
    | .topology t => { m with topology := some t }
    | .setTarget t => { m with target := some t }
    | .shutdown _ => { m with inLoop := false }
    | _ => m
  else m

end

/-- The next frame of the answer is sent: a `JobRequest` ends the answer to the job held. -/
def reply (m : MockMiner) : MockMiner :=
  { m with
    replies := m.replies.tail
    held := if m.replies.head?.any (·.isJobRequest) then m.held.tail else m.held }

end MockMiner

/-! ## The shape of the answers -/

/-- The frames that answer a job: its terminal frame and one credit. The results of a lease do
not end it. -/
inductive AnswersJob (job : Job) : List MinerFrame → Prop
  | reject (reason : RejectReason) : AnswersJob job [.reject job.jobId reason, .jobRequest 1]
  | result (result : ResultFrame) : job.isLease = false → result.jobId = job.jobId →
    AnswersJob job [.result result, .jobRequest 1]
  | leaseDone (winners : List ResultFrame) (done : LeaseDone) : job.isLease = true →
    (∀ r ∈ winners, r.jobId = job.jobId) → done.jobId = job.jobId →
    AnswersJob job (winners.map .result ++ [.leaseDone done, .jobRequest 1])

namespace MockMiner
variable [Crates] [MinerCrates]
open Crates MinerCrates

omit [Crates] in
theorem answers_sample {job : Job} (hl : job.isLease = false) (ising : IsingProblem)
    (h j : List Int) (topo : Option WireTopology) (now : Nat) :
    AnswersJob job (sample job ising h j topo now) := by
  rw [sample]
  split_ifs
  · exact .reject _
  · cases resolveEdges ising topo with
    | error refusal => exact .reject _
    | ok edges =>
      dsimp only
      split_ifs
      · exact .reject _
      · exact .result _ hl rfl

theorem answers_handleJob {job : Job} (hl : job.isLease = false) (topo : Option WireTopology)
    (now : Nat) : AnswersJob job (handleJob job topo now) := by
  rw [handleJob]
  split_ifs
  · exact .reject _
  · cases job.ising with
    | none => exact .reject _
    | some ising =>
      dsimp only
      split_ifs
      · exact .reject _
      · split
        · exact answers_sample hl ising _ _ topo now
        · exact .reject _

omit [Crates] in
theorem jobId_of_drawSalts {job : Job} {generator : IsingProblemGenerator} {topo : WireTopology}
    {target : SetTarget} {salts : List Nat} {winners : List ResultFrame} {done : Nat}
    {out : List ResultFrame × Nat}
    (h : drawSalts job generator topo target salts winners done = some out)
    (hw : ∀ r ∈ winners, r.jobId = job.jobId) : ∀ r ∈ out.1, r.jobId = job.jobId := by
  induction salts generalizing winners done with
  | nil =>
    cases h
    exact hw
  | cons i salts ih =>
    rw [drawSalts] at h
    split at h
    · split at h
      · cases h
      · refine ih h ?_
        split_ifs
        · intro r hr
          rcases List.mem_append.mp hr with hr | hr
          · exact hw r hr
          · rw [List.mem_singleton.mp hr]
        · exact hw
    · cases h
      exact hw

theorem answers_handleLease {job : Job} (hl : job.isLease = true) (topo : Option WireTopology)
    (target : Option SetTarget) : AnswersJob job (handleLease job topo target) := by
  unfold handleLease
  dsimp only
  split
  · exact .reject _
  · split
    · exact .reject _
    · split
      · exact .reject _
      · split_ifs
        · exact .reject _
        · exact .reject _
        · split
          · exact .reject _
          · next winners done hd =>
            exact .leaseDone winners _ hl (jobId_of_drawSalts hd (by simp)) rfl

/-- Each job that the loop reads is answered by one terminal frame, then one credit. -/
theorem answers_answer (m : MockMiner) (now : Nat) (job : Job) :
    AnswersJob job (m.answer now (.job job)) := by
  rw [answer]
  cases hl : job.isLease with
  | true => exact answers_handleLease hl m.topology m.target
  | false => exact answers_handleJob hl m.topology now

end MockMiner
end QuipCoordinator
