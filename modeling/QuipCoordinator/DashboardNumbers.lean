import QuipCoordinator.AttemptLog
import QuipCoordinator.DashboardStatus

/-!
# The numbers the indexer reads

Every number in the data of an answer is one a double holds. It stands at a path whose
source is an integer of the trail, of the counters, of the chain view or of the miner,
and is that integer if a double holds it. Integers of 128 bits are decimal text.
-/

namespace QuipCoordinator
namespace Dashboard
open Json

/-! ## Attempts -/

theorem mem_zipIdx_of_mem_kept {records : List Map} {limit : Option Nat} {row : Map × Nat}
    (h : row ∈ kept records limit) : row ∈ records.zipIdx := by
  cases limit with
  | none => exact h
  | some n => exact (kept_some records n).sublist h

theorem record_of_mem_kept {recs : List AttemptRecord} {limit : Option Nat} {row : Map × Nat}
    (h : row ∈ kept (recs.map AttemptRecord.toObject) limit) :
    ∃ r, recs[row.2]? = some r ∧ row.1 = r.toObject := by
  have hrow := List.mem_zipIdx_iff_getElem?.mp (mem_zipIdx_of_mem_kept h)
  rw [List.getElem?_map] at hrow
  obtain ⟨r, hr, hobject⟩ := Option.map_eq_some_iff.mp hrow
  exact ⟨r, hr, hobject.symm⟩

section Sources
variable (recs : List AttemptRecord) (solutionNumber : Nat) (limit : Option Nat)

def pageSource {α : Type} (source : AttemptRecord → Nat → Source α) : Source α :=
  .array ((kept (recs.map AttemptRecord.toObject) limit).map fun row =>
    (recs[row.2]?).elim .empty fun r => source r (row.2 + 1))

def attemptsSource : Source Int :=
  .object ([
    ("submission", (AttemptRecord.chosen recs).elim .empty fun r =>
      r.submissionSource solutionNumber),
    ("attempts", pageSource recs limit fun r iter => r.attemptSource iter solutionNumber)] ++
    if limit.isSome then [("totals", AttemptRecord.totalsSource recs)] else [])

def attemptsWide : Source Nat :=
  .object [
    ("submission", (AttemptRecord.chosen recs).elim .empty AttemptRecord.wideSource),
    ("attempts", pageSource recs limit fun r _ => r.wideSource)]

variable {recs}

theorem chosen_of_ne_nil (h : recs ≠ []) : ∃ r, AttemptRecord.chosen recs = some r := by
  have hlast : recs.getLast?.isSome = true := by
    rw [List.getLast?_isSome]
    exact h
  apply Option.isSome_iff_exists.mp
  rw [AttemptRecord.chosen, Option.isSome_or, hlast, Bool.or_true]

variable (recs) in
theorem accounted_page :
    Value.Accounted Exact (pageSource recs limit fun r iter => r.attemptSource iter solutionNumber)
      (.array (attempts (recs.map AttemptRecord.toObject) solutionNumber limit)) := by
  apply Value.accounted_array
  intro row hrow
  obtain ⟨r, hr, hobject⟩ := record_of_mem_kept hrow
  rw [hr, attemptAt, hobject]
  exact accounted_attempt (reads_toObject r) _ _

variable (recs) in
theorem spelled_page :
    Value.Spelled ReadsBack (pageSource recs limit fun r _ => r.wideSource)
      (.array (attempts (recs.map AttemptRecord.toObject) solutionNumber limit)) := by
  apply Value.spelled_array
  intro row hrow
  obtain ⟨r, hr, hobject⟩ := record_of_mem_kept hrow
  rw [hr, attemptAt, hobject]
  exact spelled_attempt (reads_toObject r) _ _

theorem accounted_envelope (h : recs ≠ []) :
    Value.Accounted Exact (attemptsSource recs solutionNumber limit)
      (envelope (recs.map AttemptRecord.toObject) solutionNumber limit) := by
  obtain ⟨r, hr⟩ := chosen_of_ne_nil h
  have hchosen : chosenRecord (recs.map AttemptRecord.toObject) = r.toObject := by
    rw [chosenRecord_map, hr]
    rfl
  have hsubmission := accounted_submission (reads_toObject r) hchosen solutionNumber
  have hpage := accounted_page recs solutionNumber limit
  rw [attemptsSource, hr]
  apply Value.accounted_fields
  refine List.forall_mem_append.mpr ⟨?_, ?_⟩
  · simp only [List.forall_mem_cons]
    exact ⟨Value.accounted_at rfl hsubmission, Value.accounted_at rfl hpage,
      fun _ he => absurd he List.not_mem_nil⟩
  · cases limit with
    | none => exact fun _ he => absurd he List.not_mem_nil
    | some n =>
      intro e he
      rw [List.mem_singleton.mp he]
      exact Value.accounted_at rfl (accounted_totals recs)

theorem spelled_envelope (h : recs ≠ []) :
    Value.Spelled ReadsBack (attemptsWide recs limit)
      (envelope (recs.map AttemptRecord.toObject) solutionNumber limit) := by
  obtain ⟨r, hr⟩ := chosen_of_ne_nil h
  have hchosen : chosenRecord (recs.map AttemptRecord.toObject) = r.toObject := by
    rw [chosenRecord_map, hr]
    rfl
  rw [attemptsWide, hr]
  apply Value.spelled_fields
  simp only [List.forall_mem_cons]
  refine ⟨⟨_, rfl, ?_⟩, ⟨_, rfl, ?_⟩, fun _ he => absurd he List.not_mem_nil⟩
  · exact spelled_submission (reads_toObject r) hchosen solutionNumber
  · exact spelled_page recs solutionNumber limit

end Sources

/-! ## Status and counters -/

def CounterSnapshot.source (c : CounterSnapshot) : Source Int :=
  .object [
    ("heads_observed", .leaf (some c.headsObserved.toNat)),
    ("contexts_dispatched", .leaf (some c.contextsDispatched.toNat)),
    ("results_received", .leaf (some c.resultsReceived.toNat)),
    ("proofs_submitted", .leaf (some c.proofsSubmitted.toNat)),
    ("stale_drops", .leaf (some c.staleDrops.toNat)),
    ("submission_errors", .leaf (some c.submissionErrors.toNat)),
    ("duplicate_result_drops", .leaf (some c.duplicateResultDrops.toNat))]

def MinerInfo.source (info : MinerInfo) : Source Int :=
  .object [
    ("registered_at", .leaf (some info.registeredAt.toNat)),
    ("proofs_submitted", .leaf (some info.proofsSubmitted.toNat)),
    ("proofs_won", .leaf (some info.proofsWon.toNat))]

def MinerInfo.wide (info : MinerInfo) : Source Nat :=
  .object [
    ("deposit", .leaf (some info.deposit.toNat)),
    ("rewards_earned", .leaf (some info.rewardsEarned.toNat))]

def statusSource (m : CoordinatorMetrics) : Source Int :=
  .object [
    ("uptime_seconds", .leaf (some m.uptimeSeconds.toNat)),
    ("chain", .object [("head_number", .leaf (some m.chain.headNumber.toNat))]),
    ("miner_info", m.chain.minerInfo.elim .empty MinerInfo.source),
    ("modes", .object (m.modes.map fun mode =>
      (mode.1, .object [("controller", mode.2.source)])))]

def statusWide (m : CoordinatorMetrics) : Source Nat :=
  .object [("miner_info", m.chain.minerInfo.elim .empty MinerInfo.wide)]

def statsSource (m : CoordinatorMetrics) : Source Int :=
  .object [("controller", m.global.source)]

theorem accounted_counters (c : CounterSnapshot) :
    Value.Accounted Exact c.source (countersJson c) := by
  have hguard : ∀ n : Nat, Value.Accounted Exact (.leaf (some n)) (safeU64 n) :=
    fun n => accounted_safeU64 fun _ => rfl
  apply Value.accounted_fields
  simp only [List.forall_mem_cons]
  exact ⟨Value.accounted_at rfl (hguard _), Value.accounted_at rfl (hguard _),
    Value.accounted_at rfl (hguard _), Value.accounted_at rfl (hguard _),
    Value.accounted_at rfl (hguard _), Value.accounted_at rfl (hguard _),
    Value.accounted_at rfl (hguard _), fun _ he => absurd he List.not_mem_nil⟩

theorem accounted_minerInfo (info : MinerInfo) :
    Value.Accounted Exact info.source (minerInfoJson info) := by
  apply Value.accounted_fields
  simp only [List.forall_mem_cons]
  refine ⟨?_, Value.accounted_string _ _, ?_, ?_, Value.accounted_string _ _,
    fun _ he => absurd he List.not_mem_nil⟩
  · exact Value.accounted_at rfl (accounted_safeU64 fun _ => rfl)
  · exact Value.accounted_at rfl (accounted_safeU64 fun _ => rfl)
  · exact Value.accounted_at rfl (accounted_safeU64 fun _ => rfl)

theorem spelled_minerInfo (info : MinerInfo) :
    Value.Spelled ReadsBack info.wide (minerInfoJson info) := by
  apply Value.spelled_fields
  simp only [List.forall_mem_cons]
  exact ⟨⟨_, rfl, spelled_wireU128 info.deposit.isLt⟩,
    ⟨_, rfl, spelled_wireU128 info.rewardsEarned.isLt⟩, fun _ he => absurd he List.not_mem_nil⟩

theorem accounted_miners (source : Source Int) (miners : List MinerEntry) :
    Value.Accounted Exact source (minersJson miners) := by
  refine Value.accounted_of_silent (Value.accounted_array ?_) (Source.array_empty miners) source
  intro entry _
  refine Value.accounted_of_silent (Value.accounted_fields ?_) Source.object_nil .empty
  simp only [List.forall_mem_cons]
  exact ⟨Value.accounted_string _ _, Value.accounted_string _ _,
    fun _ he => absurd he List.not_mem_nil⟩

theorem accounted_status (m : CoordinatorMetrics) :
    Value.Accounted Exact (statusSource m) (statusData m) := by
  apply Value.accounted_fields
  simp only [List.forall_mem_cons]
  refine ⟨Value.accounted_string _ _, Value.accounted_string _ _, Value.accounted_string _ _,
    Value.accounted_bool _ _, ?_, ?_, ?_, Value.accounted_bool _ _, ?_, accounted_miners _ _, ?_,
    fun _ he => absurd he List.not_mem_nil⟩
  · cases m.lastSuccessfulSubmission with
    | none => exact Value.accounted_null _
    | some t => exact Value.accounted_string _ _
  · exact Value.accounted_at rfl (accounted_safeU64 fun _ => rfl)
  · refine Value.accounted_at rfl (Value.accounted_fields ?_)
    simp only [List.forall_mem_cons]
    exact ⟨Value.accounted_string _ _, Value.accounted_at rfl (accounted_safeU64 fun _ => rfl),
      fun _ he => absurd he List.not_mem_nil⟩
  · refine Value.accounted_at rfl ?_
    cases m.chain.minerInfo with
    | none => exact Value.accounted_null _
    | some info => exact accounted_minerInfo info
  · refine Value.accounted_at rfl ?_
    rw [CoordinatorMetrics.modeViews, List.map_map]
    apply Value.accounted_map
    intro mode _
    apply Value.accounted_fields
    simp only [List.forall_mem_cons]
    exact ⟨Value.accounted_at rfl (accounted_counters mode.2), accounted_miners _ _,
      fun _ he => absurd he List.not_mem_nil⟩

theorem spelled_status (m : CoordinatorMetrics) :
    Value.Spelled ReadsBack (statusWide m) (statusData m) := by
  apply Value.spelled_fields
  simp only [List.forall_mem_cons]
  refine ⟨⟨_, rfl, ?_⟩, fun _ he => absurd he List.not_mem_nil⟩
  cases m.chain.minerInfo with
  | none => exact Value.spelled_empty _
  | some info => exact spelled_minerInfo info

theorem accounted_stats (m : CoordinatorMetrics) :
    Value.Accounted Exact (statsSource m) (statsData m) := by
  apply Value.accounted_fields
  simp only [List.forall_mem_cons]
  exact ⟨Value.accounted_at rfl (accounted_counters m.global),
    fun _ he => absurd he List.not_mem_nil⟩

/-! ## The answers -/

theorem successEnvelope_data (data : Value) (now : UInt64) :
    (successEnvelope data now).body.get "data" = some data := rfl

theorem apiMiningAttempts_data {fromStr : String → Option Value} {files : Nat → AttemptsFile}
    {query : AttemptsQuery} {now : UInt64} {data : Value}
    (h : (apiMiningAttempts fromStr files query now).body.get "data" = some data) :
    ∃ raw solutionNumber limit text, query.solutionNumber = some raw ∧
      Decimal.unsigned? (2 ^ 64) raw.toList = some solutionNumber ∧
      parseLimit query.limit = some limit ∧ files solutionNumber = .body text ∧
      recordsOf fromStr text ≠ [] ∧
      data = envelope (recordsOf fromStr text) solutionNumber limit := by
  unfold apiMiningAttempts at h
  split at h
  · cases h
  · rename_i raw hraw
    split at h
    · cases h
    · rename_i solutionNumber hnumber
      split at h
      · cases h
      · rename_i limit hlimit
        split at h
        · rename_i data' hload
          cases h
          unfold loadAttemptsEnvelope at hload
          split at hload
          · cases hload
          · cases hload
          · cases hload
          · rename_i text hfile
            simp only at hload
            split_ifs at hload with hempty
            cases hload
            refine ⟨raw, solutionNumber, limit, text, hraw, hnumber, hlimit, hfile, ?_, rfl⟩
            simpa using hempty
        · cases h
        · cases h

/-- In the data of every answer each number is exact and each integer of 128 bits is decimal text
that reads back, for a trail of written records and for every state of the metrics. -/
theorem dashboard_numbers_exact {fromStr : String → Option Value} {files : Nat → AttemptsFile}
    {trail : Nat → List AttemptRecord}
    (htrail : ∀ solutionNumber text, files solutionNumber = .body text →
      recordsOf fromStr text = (trail solutionNumber).map AttemptRecord.toObject)
    (m : CoordinatorMetrics) (query : AttemptsQuery) (now : UInt64) :
    (∀ data, (apiMiningAttempts fromStr files query now).body.get "data" = some data →
      ∃ raw solutionNumber limit, query.solutionNumber = some raw ∧
        Decimal.unsigned? (2 ^ 64) raw.toList = some solutionNumber ∧
        parseLimit query.limit = some limit ∧
        data.Accounted Exact (attemptsSource (trail solutionNumber) solutionNumber limit) ∧
        data.Spelled ReadsBack (attemptsWide (trail solutionNumber) limit)) ∧
    (∃ data, (apiStatus m now).body.get "data" = some data ∧
      data.Accounted Exact (statusSource m) ∧ data.Spelled ReadsBack (statusWide m)) ∧
    ∃ data, (apiStats m now).body.get "data" = some data ∧
      data.Accounted Exact (statsSource m) := by
  refine ⟨?_, ⟨_, rfl, accounted_status m, spelled_status m⟩, ⟨_, rfl, accounted_stats m⟩⟩
  intro data hdata
  obtain ⟨raw, number, limit, text, hraw, hnumber, hlimit, hfile, hrecords, rfl⟩ :=
    apiMiningAttempts_data hdata
  rw [htrail number text hfile] at hrecords ⊢
  have hne : trail number ≠ [] := by
    intro hnil
    rw [hnil] at hrecords
    exact hrecords rfl
  exact ⟨raw, number, limit, hraw, hnumber, hlimit, accounted_envelope number limit hne,
    spelled_envelope number limit hne⟩

namespace SampleTrail
section Files
variable (r : AttemptRecord)

def fromStr (s : String) : Option Value :=
  if s = String.ofList r.line then some (.object r.toObject) else none

def trail (solutionNumber : Nat) : List AttemptRecord :=
  if solutionNumber = 42 then [r] else []

def files (solutionNumber : Nat) : AttemptsFile :=
  if solutionNumber = 42 then .body (written [r]) else .noDirectory

def query : AttemptsQuery := ⟨some "42", some "10"⟩

theorem recordsOf_files {solutionNumber : Nat} {text : String}
    (h : files r solutionNumber = .body text) :
    recordsOf (fromStr r) text = (trail r solutionNumber).map AttemptRecord.toObject := by
  unfold files at h
  split_ifs at h with h42
  rw [← AttemptsFile.body.inj h, trail, if_pos h42]
  apply recordsOf_written
  intro r' hr
  rw [List.mem_singleton.mp hr, fromStr, if_pos rfl]

theorem unsigned?_query : Decimal.unsigned? (2 ^ 64) "42".toList = some 42 := by decide

theorem parseLimit_query : parseLimit (some "10") = some (some 10) := by decide

theorem data_of_query : (apiMiningAttempts (fromStr r) (files r) query 0).body.get "data" =
    some (envelope [r.toObject] 42 (some 10)) := by
  have hfile : files r 42 = .body (written [r]) := by
    rw [files, if_pos rfl]
  have hrecords : recordsOf (fromStr r) (written [r]) = [r.toObject] := by
    rw [recordsOf_files r hfile, trail, if_pos rfl, List.map_singleton]
  have hload : loadAttemptsEnvelope (fromStr r) (files r 42) 42 (some 10) =
      .ok (envelope [r.toObject] 42 (some 10)) := by
    rw [hfile, loadAttemptsEnvelope, hrecords, List.isEmpty_cons, if_neg Bool.false_ne_true]
  simp only [apiMiningAttempts, query, unsigned?_query, parseLimit_query, hload,
    successEnvelope_data]

end Files

def record : AttemptRecord where
  tsMs := 1700000000000
  qblockId := some 42
  generation := 1
  minerId := "cpu-0"
  jobId := "ab"
  isPow := true
  orderId := ""
  bestEnergyMilli := -14200
  rawBestEnergyMilli := -14200
  diversityMilli := 250
  nValid := 6
  accepted := true
  submitted := true
  deviceAccessTimeUs := 12000
  minerType := "CPU"
  thresholdMilli := -2500000
  lastProofBlockHash := "0x11"
  extrinsicHash := some "0x22"
  chainBlockHash := none
  chainBlockNumber := none
  powSequence := some 412

def metrics : CoordinatorMetrics where
  uptimeSeconds := 60
  global := ⟨9, 5, 4, 1, 0, 0, 18446744073709551615⟩
  modes := [("cpu", ⟨9, 5, 4, 1, 0, 0, 0⟩)]
  rosters := [("cpu", [⟨"cpu-0", "CPU"⟩])]
  identity := ⟨"5F", "0x01", "node"⟩
  chain := ⟨"0x02", 7, true, true, some ⟨3, 1000000000000000000000, 1, 0, 0⟩⟩
  lastSuccessfulSubmission := some ⟨0, by omega⟩

end SampleTrail

open SampleTrail in
theorem dashboard_numbers_exact_sample :
    ∃ data, (apiMiningAttempts (fromStr record) (files record) query 0).body.get "data" =
        some data ∧
      data.Accounted Exact (attemptsSource (trail record 42) 42 (some 10)) ∧
      (statusData metrics).Accounted Exact (statusSource metrics) := by
  have hdata := data_of_query record
  have hfiles : ∀ number text, files record number = .body text →
      recordsOf (fromStr record) text = (trail record number).map AttemptRecord.toObject :=
    fun _ _ => recordsOf_files record
  have hexact := dashboard_numbers_exact hfiles metrics query 0
  obtain ⟨raw, number, limit, hraw, hnumber, hlimit, haccounted, -⟩ := hexact.1 _ hdata
  obtain ⟨status, hstatus, hserved, -⟩ := hexact.2.1
  cases hraw
  rw [unsigned?_query, Option.some.injEq] at hnumber
  rw [query, parseLimit_query, Option.some.injEq] at hlimit
  subst hnumber hlimit
  rw [apiStatus, successEnvelope_data, Option.some.injEq] at hstatus
  subst hstatus
  exact ⟨_, hdata, haccounted, hserved⟩

end Dashboard
end QuipCoordinator
