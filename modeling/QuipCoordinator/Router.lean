import Mathlib.Data.String.Basic
import QuipCoordinator.FoundationTable
import QuipCoordinator.Producer

/-!
# The router

Capability envelopes, staged queues and credits of the registered miners. A
queue is a list with its front first. The router picks the least capable miner
id, so no choice depends on the order of the table. Drop counters only pace a
log line and are left out.
-/

namespace QuipCoordinator

structure MinerCaps where
  backend : String
  algorithm : String
  supportedKinds : List JobKind
  maxNodes : Nat
  maxEdges : Nat
  maxDegree : Option Nat
  nativeTopologyHash : Option Bytes
  features : List String
  generators : List GeneratorAlgorithm
  streamWidth : Nat
deriving DecidableEq

namespace MinerCaps

def acceptsLeases (c : MinerCaps) : Bool :=
  c.supportedKinds.contains .isingGenerate && c.generators.contains .blake3Chacha8V1

def fromCapabilities (c : Capabilities) : MinerCaps where
  backend := c.backend
  algorithm := c.algorithm
  supportedKinds := c.supportedKinds
  maxNodes := c.maxNodes
  maxEdges := c.maxEdges
  maxDegree := c.maxDegree
  nativeTopologyHash := c.nativeTopologyHash
  features := c.features
  generators := c.generators
  streamWidth := c.streamWidth

end MinerCaps

structure MinerQueue where
  caps : MinerCaps
  staged : List Job
  grantedCredits : Nat
  consumedSincePoll : Nat
  saltsSincePoll : Nat
  roundSalts : Nat
  completed : Nat
  unsupportedKinds : Finset JobKind
deriving DecidableEq

def jobTopology (job : Job) (topology : Option RoutingTopology) : Option RoutingTopology := do
  let hash ←
    if job.isLease then job.generator.map (·.topologyHash)
    else do
      let ising ← job.ising
      match ← ising.graph with
      | .topologyHash hash => some hash
      | .edges _ => none
  topology.filter fun t => t.hash == hash

def jobNodeCount (job : Job) (topology : Option RoutingTopology) : Nat :=
  if job.isLease then (jobTopology job topology).elim 0 (·.nNodes)
  else job.ising.elim 0 fun ising => min (ising.h.length / 4) (2 ^ 32 - 1)

def jobEdgeCount (job : Job) (topology : Option RoutingTopology) : Nat :=
  if job.isLease then (jobTopology job topology).elim 0 (·.nEdges)
  else
    match job.ising with
    | none => 0
    | some ising =>
      match ising.graph with
      | some (.edges e) => min e.u.length (2 ^ 32 - 1)
      | _ => min (ising.j.length / 4) (2 ^ 32 - 1)

def jobMaxDegree (job : Job) (topology : Option RoutingTopology) : Option Nat :=
  match jobTopology job topology with
  | some t => some t.maxDegree
  | none => do
    let ising ← job.ising
    match ising.graph with
    | some (.edges e) =>
      if e.u.length ≠ e.v.length then none else some (maximumDegree (e.u.zip e.v))
    | some (.topologyHash _) => none
    | none => if ising.j.isEmpty then some 0 else none

def nativeCompatible (caps : MinerCaps) (job : Job) (topology : Option RoutingTopology) : Bool :=
  match caps.nativeTopologyHash with
  | none => true
  | some nativeHash =>
    if nativeHash.length ≠ 32 then false
    else if job.isLease then (jobTopology job topology).isSome
    else
      match job.ising with
      | none => false
      | some ising =>
        match ising.graph with
        | some (.topologyHash hash) => topology.any fun t => t.hash == hash
        | some (.edges e) =>
          match topology with
          | none => false
          | some t =>
            if nativeHash ≠ t.nativeHash.toList ∨ e.u.length ≠ e.v.length ∨ ising.encoding ≠ .i32 ∨
                ising.scale ≠ milliScale ∨ ising.h.length % 4 ≠ 0 ∨
                ising.j.length ≠ e.u.length * 4 then false
            else
              let nNodes := jobNodeCount job (some t)
              (List.range nNodes).all (fun node => node ∈ t.nodes) &&
                (e.u.zip e.v).all fun p =>
                  p.1 < nNodes && p.2 < nNodes && p.1 != p.2 && normalizeEdge p ∈ t.edges
        | none => false

def capable (q : MinerQueue) (job : Job) (topology : Option RoutingTopology) : Bool :=
  if job.kind ∈ q.unsupportedKinds then false
  else if q.caps.supportedKinds ≠ [] ∧ job.kind ∉ q.caps.supportedKinds then false
  else if job.isLease ∧ ¬ q.caps.acceptsLeases then false
  else if 0 < q.caps.maxNodes ∧ q.caps.maxNodes < jobNodeCount job topology then false
  else if 0 < q.caps.maxEdges ∧ q.caps.maxEdges < jobEdgeCount job topology then false
  else if (q.caps.maxDegree.filter (0 < ·)).any fun limit =>
      (jobMaxDegree job topology).any fun degree => limit < degree then false
  else nativeCompatible q.caps job topology

structure Router where
  miners : Table MinerId MinerQueue
  topology : Option RoutingTopology
  unroutable : List Job
deriving DecidableEq

namespace Router

def new : Router := ⟨∅, none, []⟩

def setTopology [Crates] (r : Router) (topology : Option Topology) : Router :=
  { r with topology := topology.bind RoutingTopology.new }

-- `self.miners.get_mut(id)` followed by an update of the queue it finds
def update (r : Router) (id : MinerId) (f : MinerQueue → MinerQueue) : Router :=
  { r with miners := r.miners.modify id f }

def registerMiner (r : Router) (id : MinerId) (caps : MinerCaps) : Router :=
  match r.miners.lookup id with
  | some q =>
    let refreshed : MinerQueue :=
      { q with
        caps := caps
        grantedCredits := 0
        consumedSincePoll := 0
        saltsSincePoll := 0
        unsupportedKinds := ∅ }
    { r with miners := r.miners.insert id refreshed }
  | none =>
    let fresh : MinerQueue :=
      { caps := caps
        staged := []
        grantedCredits := 0
        consumedSincePoll := 0
        saltsSincePoll := 0
        roundSalts := 0
        completed := 0
        unsupportedKinds := ∅ }
    { r with miners := r.miners.insert id fresh }

def isCapable (r : Router) (id : MinerId) (job : Job) : Bool :=
  (r.miners.lookup id).any fun q => capable q job r.topology

def pushStaged (r : Router) (id : MinerId) (job : Job) : Router :=
  r.update id fun q => { q with staged := q.staged ++ [job] }

def candidates (r : Router) (job : Job) (exclude : Option MinerId) : Finset MinerId :=
  r.miners.keys.filter fun id => exclude ≠ some id ∧ r.isCapable id job

def routeExcluding (r : Router) (job : Job) (exclude : Option MinerId) : Router × Option MinerId :=
  if h : (r.candidates job exclude).Nonempty then
    let id := (r.candidates job exclude).min' h
    (r.pushStaged id job, some id)
  else ({ r with unroutable := r.unroutable ++ [job] }, none)

def route (r : Router) (job : Job) : Router × Option MinerId := r.routeExcluding job none

def restage (id : MinerId) (r : Router) (job : Job) : Router :=
  if r.isCapable id job then r.pushStaged id job else (r.routeExcluding job (some id)).1

def updateCapabilities (r : Router) (id : MinerId) (caps : MinerCaps) : Router × Bool :=
  match r.miners.lookup id with
  | none => (r, false)
  | some q =>
    let emptied := r.update id fun q => { q with caps := caps, unsupportedKinds := ∅, staged := [] }
    (q.staged.foldl (restage id) emptied, true)

def grantCredits (r : Router) (id : MinerId) (credits : Nat) : Router :=
  r.update id fun q => { q with grantedCredits := satAdd 32 q.grantedCredits credits }

def recordLeaseSalts (r : Router) (id : MinerId) (salts : Nat) : Router :=
  r.update id fun q => { q with saltsSincePoll := satAdd 64 q.saltsSincePoll salts }

def recordRoundSalts (r : Router) (id : MinerId) (salts : Nat) : Router :=
  r.update id fun q => { q with roundSalts := satAdd 64 q.roundSalts salts }

def resetRoundSalts (r : Router) : Router :=
  { r with miners := r.miners.mapValues fun q => { q with roundSalts := 0 } }

def takeLeaseSalts (r : Router) (id : MinerId) : Router × Nat :=
  (r.update id fun q => { q with saltsSincePoll := 0 },
    (r.miners.lookup id).elim 0 (·.saltsSincePoll))

def takeConsumed (r : Router) (id : MinerId) : Router × Nat :=
  (r.update id fun q => { q with consumedSincePoll := 0 },
    (r.miners.lookup id).elim 0 (·.consumedSincePoll))

def recordCompletion (r : Router) (id : MinerId) : Router :=
  r.update id fun q => { q with completed := satAdd 64 q.completed 1 }

def stagedOf (r : Router) (id : MinerId) : List Job := (r.miners.lookup id).elim [] (·.staged)

def creditsOf (r : Router) (id : MinerId) : Nat := (r.miners.lookup id).elim 0 (·.grantedCredits)

def stagedLen (r : Router) (id : MinerId) : Nat := (r.stagedOf id).length

def spendCredit (r : Router) (id : MinerId) : Router :=
  r.update id fun q =>
    { q with
      grantedCredits := q.grantedCredits - 1
      consumedSincePoll := satAdd 32 q.consumedSincePoll 1 }

def setStaged (r : Router) (id : MinerId) (jobs : List Job) : Router :=
  r.update id fun q => { q with staged := jobs }

def nextJobLoop (id : MinerId) : Nat → Router → Router × Option Job
  | 0, r => (r, none)
  | fuel + 1, r =>
    match r.miners.lookup id with
    | none => (r, none)
    | some q =>
      if q.grantedCredits = 0 then (r, none)
      else
        match q.staged with
        | [] => (r, none)
        | job :: rest =>
          let popped := r.setStaged id rest
          if popped.isCapable id job then (popped.spendCredit id, some job)
          else nextJobLoop id fuel (popped.routeExcluding job (some id)).1

/-- Every turn of the loop that does not return takes one job off the queue, so the length of
the queue bounds it. -/
def nextJob (r : Router) (id : MinerId) : Router × Option Job :=
  nextJobLoop id (r.stagedLen id + 1) r

def onReject (r : Router) (id : MinerId) (job : Job) (reason : RejectReason) : Router :=
  let marked :=
    if reason = .unsupportedKind then
      r.update id fun q => { q with unsupportedKinds := insert job.kind q.unsupportedKinds }
    else r
  (marked.routeExcluding job (some id)).1

def keepsUnder (maxGeneration : Nat) (job : Job) : Bool :=
  job.generation == 0 || decide (maxGeneration < job.generation)

def cancel (r : Router) (maxGeneration : Nat) : Router × Nat :=
  let kept :=
    { r with miners := r.miners.mapValues fun q =>
        { q with staged := q.staged.filter (keepsUnder maxGeneration) } }
  (kept, r.miners.total fun id => r.stagedLen id - kept.stagedLen id)

def reclaim (r : Router) (id : MinerId) : Router × List Job :=
  match r.miners.lookup id with
  | some q => (r.update id fun q => { q with grantedCredits := 0, staged := [] }, q.staged)
  | none => (r, [])

def stageOn (r : Router) (id : MinerId) (job : Job) : Router × Bool :=
  if r.isCapable id job then (r.pushStaged id job, true) else (r, false)

end Router
end QuipCoordinator
