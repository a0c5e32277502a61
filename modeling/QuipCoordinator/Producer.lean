import QuipCoordinator.Topology

/-!
# Job production

The three producers of jobs: `derivePowJob` draws one proof-of-work problem from
a snapshot and a salt, `buildLeaseJob` names a range of salts for the miner to
draw, and `jobOrderToJob` converts a mempool order. Their ids have different
lengths, so the id of a job tells whether it is a lease.
-/

namespace QuipCoordinator
variable [Crates]
open Crates

structure MiningSnapshot where
  lastProofBlockHash : Bytes32
  topologyHash : Bytes
  nodes : List Nat
  edges : List (Nat × Nat)
  allowedHMilli : List Int
  allowedJMilli : List Int
  allowedSpinMilli : List Int
  minSolutions : Nat
  maxEnergyMilli : Int
  minDiversityMilli : Nat
  blockNumber : Nat
  specVersion : Nat
deriving DecidableEq

structure JobOrder where
  orderId : Bytes
  nodes : List Nat
  edges : List (Nat × Nat)
  hMilli : List Int
  jMilli : List Int
  minEnergyMilli : Option Int
  minDiversityMilli : Option Nat
  minSolutions : Option Nat
  deadlineMs : Nat
deriving DecidableEq

def milliScale : Nat := 1000

def milliProblem (graph : Option Graph) (hMilli jMilli : List Int) : IsingProblem where
  graph := graph
  encoding := .i32
  scale := milliScale
  h := encodeI32Le hMilli
  j := encodeI32Le jMilli

def problemMilli (problem : IsingProblem) : Option (List Int × List Int) :=
  if problem.encoding ≠ .i32 ∨ problem.scale ≠ milliScale then none
  else do
    let h ← decodeI32Le problem.h
    let j ← decodeI32Le problem.j
    pure (h, j)

def buildIsingJobFromNonce (snap : MiningSnapshot) (nonce : Bytes32) (generation deadlineMs : Nat) :
    Option Job := do
  let (h, j) ← drawIsingMilli nonce snap.nodes.length snap.edges.length
    snap.allowedHMilli snap.allowedJMilli
  pure
    { jobId := nonce.toList
      kind := .isingSample
      generation := generation
      deadlineMs := deadlineMs
      ising := some (milliProblem (some (.topologyHash snap.topologyHash)) h j)
      generator := none
      provenance := some ⟨true, []⟩ }

def derivePowJob (snap : MiningSnapshot) (minerAccount salt : Bytes32)
    (generation deadlineMs : Nat) : Option Job :=
  buildIsingJobFromNonce snap (deriveNonce snap.lastProofBlockHash minerAccount salt)
    generation deadlineMs

omit [Crates] in
def saltFromCounter (ctr : Nat) : Bytes32 :=
  Vector.ofFn fun i => if i.val < 8 then UInt8.ofNat (ctr / 256 ^ i.val) else 0

omit [Crates] in
def leaseJobIdPrefix : Bytes := [108, 101, 97, 115, 101, 58]

omit [Crates] in
def leaseJobId (saltStart : Nat) : Bytes := leaseJobIdPrefix ++ toLeBytes 8 saltStart

omit [Crates] in
def buildLeaseJob (snap : MiningSnapshot) (minerIdentity : Bytes32)
    (saltStart saltCount generation : Nat) : Job where
  jobId := leaseJobId saltStart
  kind := .isingGenerate
  generation := generation
  deadlineMs := 0
  ising := none
  provenance := some ⟨true, []⟩
  generator := some
    { algorithm := .blake3Chacha8V1
      topologyHash := snap.topologyHash
      lastProofBlockHash := snap.lastProofBlockHash.toList
      minerAccount := minerIdentity.toList
      baseSalt := List.replicate 32 0
      saltStart := saltStart
      saltCount := saltCount }

def jobOrderToJob (order : JobOrder) : Option Job :=
  -- a repeated node collapses two positions, so the table of positions is refused
  if ¬ order.nodes.Nodup ∨ 2 ^ 32 < order.nodes.length then none
  else do
    let u ← order.edges.mapM fun e => order.nodes.idxOf? e.1
    let v ← order.edges.mapM fun e => order.nodes.idxOf? e.2
    pure
      { jobId := order.orderId
        kind := .isingSample
        generation := 0
        deadlineMs := order.deadlineMs
        ising := some (milliProblem (some (.edges ⟨u, v⟩)) order.hMilli order.jMilli)
        generator := none
        provenance := some ⟨false, order.orderId⟩ }

theorem derivePowJob_shape {snap : MiningSnapshot} {account salt : Bytes32} {g d : Nat} {job : Job}
    (h : derivePowJob snap account salt g d = some job) :
    job.isLease = false ∧ job.isPow = true ∧ job.generation = g ∧
      job.jobId = (deriveNonce snap.lastProofBlockHash account salt).toList ∧
      ∃ hs js, job.ising =
        some (milliProblem (some (.topologyHash snap.topologyHash)) hs js) := by
  unfold derivePowJob buildIsingJobFromNonce at h
  obtain ⟨⟨hs, js⟩, -, hjob⟩ := Option.bind_eq_some_iff.mp h
  simp only [Option.pure_def, Option.some.injEq] at hjob
  subst hjob
  exact ⟨rfl, rfl, rfl, rfl, hs, js, rfl⟩

omit [Crates] in
theorem buildLeaseJob_shape (snap : MiningSnapshot) (identity : Bytes32) (start count g : Nat) :
    (buildLeaseJob snap identity start count g).isLease = true ∧
      (buildLeaseJob snap identity start count g).isPow = true ∧
      (buildLeaseJob snap identity start count g).generation = g := ⟨rfl, rfl, rfl⟩

theorem jobOrderToJob_shape {order : JobOrder} {job : Job} (h : jobOrderToJob order = some job) :
    job.isLease = false ∧ job.isPow = false ∧ job.isOrder = true ∧ job.generation = 0 ∧
      job.generator = none ∧ job.jobId = order.orderId ∧ ∃ u v hs js,
        job.ising = some (milliProblem (some (.edges ⟨u, v⟩)) hs js) := by
  unfold jobOrderToJob at h
  split_ifs at h
  obtain ⟨u, -, h⟩ := Option.bind_eq_some_iff.mp h
  obtain ⟨v, -, h⟩ := Option.bind_eq_some_iff.mp h
  simp only [Option.pure_def, Option.some.injEq] at h
  subst h
  exact ⟨rfl, rfl, rfl, rfl, rfl, rfl, u, v, _, _, rfl⟩

/-- The id of a lease has the length no other id has: a nonce has 32 bytes and an order id 8. -/
def Job.IdForm (job : Job) : Prop := job.isLease = true ↔ job.jobId.length = 14

theorem derivePowJob_idForm {snap : MiningSnapshot} {account salt : Bytes32} {g d : Nat} {job : Job}
    (h : derivePowJob snap account salt g d = some job) : job.IdForm := by
  obtain ⟨hl, -, -, hid, -⟩ := derivePowJob_shape h
  simp [Job.IdForm, hl, hid]

omit [Crates] in
theorem buildLeaseJob_idForm (snap : MiningSnapshot) (identity : Bytes32) (start count g : Nat) :
    (buildLeaseJob snap identity start count g).IdForm := by
  simp [Job.IdForm, buildLeaseJob, Job.isLease, leaseJobId, leaseJobIdPrefix]

theorem jobOrderToJob_idForm {order : JobOrder} {job : Job} (hid : order.orderId.length = 8)
    (h : jobOrderToJob order = some job) : job.IdForm := by
  obtain ⟨hl, -, -, -, -, hjob, -⟩ := jobOrderToJob_shape h
  simp [Job.IdForm, hl, hjob, hid]

end QuipCoordinator
