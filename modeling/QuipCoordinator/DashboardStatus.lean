import QuipCoordinator.Dashboard
import QuipCoordinator.DashboardClock

/-!
# The status and the counters of the dashboard

A request reads one snapshot of the metrics: the counters of the process and of each
backend, the identity, the view of the chain and the time of the last accepted proof.
-/

namespace QuipCoordinator
namespace Dashboard
open Json

structure CounterSnapshot where
  headsObserved : UInt64
  contextsDispatched : UInt64
  resultsReceived : UInt64
  proofsSubmitted : UInt64
  staleDrops : UInt64
  submissionErrors : UInt64
  duplicateResultDrops : UInt64

structure MinerEntry where
  id : String
  minerType : String

structure ModeView where
  counters : CounterSnapshot
  miners : List MinerEntry

structure Identity where
  ss58Address : String
  accountIdHex : String
  nodeId : String

structure MinerInfo where
  registeredAt : UInt64
  deposit : BitVec 128
  proofsSubmitted : UInt64
  proofsWon : UInt64
  rewardsEarned : BitVec 128

structure ChainView where
  headHash : String
  headNumber : UInt64
  isMining : Bool
  minerRegistered : Bool
  minerInfo : Option MinerInfo

/-- The metrics at one request. `modes` and `rosters` are maps by backend. -/
structure CoordinatorMetrics where
  uptimeSeconds : UInt64
  global : CounterSnapshot
  modes : List (String × CounterSnapshot)
  rosters : List (String × List MinerEntry)
  identity : Identity
  chain : ChainView
  lastSuccessfulSubmission : Option SystemTime

namespace CoordinatorMetrics
variable (m : CoordinatorMetrics)

def modeView (backend : String) (counters : CounterSnapshot) : ModeView where
  counters := counters
  miners := (m.rosters.lookup backend).getD []

def modeViews : List (String × ModeView) :=
  m.modes.map fun (backend, counters) => (backend, m.modeView backend counters)

def miners : List MinerEntry := m.rosters.flatMap Prod.snd

end CoordinatorMetrics

def countersJson (c : CounterSnapshot) : Value :=
  .object [
    ("heads_observed", safeU64 c.headsObserved.toNat),
    ("contexts_dispatched", safeU64 c.contextsDispatched.toNat),
    ("results_received", safeU64 c.resultsReceived.toNat),
    ("proofs_submitted", safeU64 c.proofsSubmitted.toNat),
    ("stale_drops", safeU64 c.staleDrops.toNat),
    ("submission_errors", safeU64 c.submissionErrors.toNat),
    ("duplicate_result_drops", safeU64 c.duplicateResultDrops.toNat)]

def minersJson (miners : List MinerEntry) : Value :=
  .array (miners.map fun m => .object [("id", .string m.id), ("type", .string m.minerType)])

def minerInfoJson (info : MinerInfo) : Value :=
  .object [
    ("registered_at", safeU64 info.registeredAt.toNat),
    ("deposit", wireU128 info.deposit.toNat),
    ("proofs_submitted", safeU64 info.proofsSubmitted.toNat),
    ("proofs_won", safeU64 info.proofsWon.toNat),
    ("rewards_earned", wireU128 info.rewardsEarned.toNat)]

def modeJson (view : ModeView) : Value :=
  .object [("controller", countersJson view.counters), ("miners", minersJson view.miners)]

def statusData (m : CoordinatorMetrics) : Value :=
  .object [
    ("ss58_address", .string m.identity.ss58Address),
    ("account_id_hex", .string m.identity.accountIdHex),
    ("node_id", .string m.identity.nodeId),
    ("is_mining", .bool m.chain.isMining),
    -- the text of a time is always there (`iso8601Utc_spec`)
    ("last_successful_submission",
      orNull (fun t => .string ((iso8601Utc t).getD "")) m.lastSuccessfulSubmission),
    ("uptime_seconds", safeU64 m.uptimeSeconds.toNat),
    ("chain", .object [
      ("head_hash", .string m.chain.headHash),
      ("head_number", safeU64 m.chain.headNumber.toNat)]),
    ("miner_registered", .bool m.chain.minerRegistered),
    ("miner_info", orNull minerInfoJson m.chain.minerInfo),
    ("miners", minersJson m.miners),
    ("modes", .object (m.modeViews.map fun (backend, view) => (backend, modeJson view)))]

def apiStatus (m : CoordinatorMetrics) (now : UInt64) : Response :=
  successEnvelope (statusData m) now

def statsData (m : CoordinatorMetrics) : Value :=
  .object [("controller", countersJson m.global)]

def apiStats (m : CoordinatorMetrics) (now : UInt64) : Response :=
  successEnvelope (statsData m) now

end Dashboard
end QuipCoordinator
