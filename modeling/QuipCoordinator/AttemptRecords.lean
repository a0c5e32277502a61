import QuipCoordinator.AttemptTrail

/-!
# The rows the coordinator writes

The writer of the trail puts one record a line, so a row it wrote has every field with
its own type. Then each number of an attempt, of the totals and of the submission has
its source among the fields of the records, and the guard serves the source itself as
long as a double holds it.
-/

namespace QuipCoordinator
open Json Dashboard

structure AttemptRecord where
  tsMs : UInt64
  qblockId : Option UInt64
  generation : UInt64
  minerId : String
  jobId : String
  isPow : Bool
  orderId : String
  bestEnergyMilli : Int64
  rawBestEnergyMilli : Int64
  diversityMilli : UInt32
  nValid : UInt32
  accepted : Bool
  submitted : Bool
  deviceAccessTimeUs : UInt64
  minerType : String
  thresholdMilli : Int64
  lastProofBlockHash : String
  extrinsicHash : Option String
  chainBlockHash : Option String
  chainBlockNumber : Option UInt64
  powSequence : Option UInt64
deriving DecidableEq

namespace AttemptRecord

def u64Json (n : UInt64) : Value := .number (.posInt n)
def i64Json (i : Int64) : Value := .number (.ofInt i.toInt)

def toObject (r : AttemptRecord) : Map := [
  ("ts_ms", u64Json r.tsMs),
  ("qblock_id", orNull u64Json r.qblockId),
  ("generation", u64Json r.generation),
  ("miner_id", .string r.minerId),
  ("job_id", .string r.jobId),
  ("is_pow", .bool r.isPow),
  ("order_id", .string r.orderId),
  ("best_energy_milli", i64Json r.bestEnergyMilli),
  ("raw_best_energy_milli", i64Json r.rawBestEnergyMilli),
  ("diversity_milli", u64Json r.diversityMilli.toUInt64),
  ("n_valid", u64Json r.nValid.toUInt64),
  ("accepted", .bool r.accepted),
  ("submitted", .bool r.submitted),
  ("device_access_time_us", u64Json r.deviceAccessTimeUs),
  ("miner_type", .string r.minerType),
  ("threshold_milli", i64Json r.thresholdMilli),
  ("last_proof_block_hash", .string r.lastProofBlockHash),
  ("extrinsic_hash", orNull .string r.extrinsicHash),
  ("chain_block_hash", orNull .string r.chainBlockHash),
  ("chain_block_number", orNull u64Json r.chainBlockNumber),
  ("pow_sequence", orNull u64Json r.powSequence)]

end AttemptRecord

theorem i64Field_eq {rec : Map} {key : String} {i : Int64}
    (h : rec.lookup key = some (AttemptRecord.i64Json i)) : i64Field rec key = some i.toInt := by
  rw [i64Field, h]
  exact Number.asI64_ofInt i.le_toInt i.toInt_lt

theorem u64Field_eq {rec : Map} {key : String} {n : UInt64}
    (h : rec.lookup key = some (AttemptRecord.u64Json n)) : u64Field rec key = some n.toNat := by
  rw [u64Field, h]
  rfl

theorem u64Field_orNull {rec : Map} {key : String} {x : Option UInt64}
    (h : rec.lookup key = some (orNull AttemptRecord.u64Json x)) :
    u64Field rec key = x.map UInt64.toNat := by
  rw [u64Field, h]
  cases x <;> rfl

/-- What the dashboard reads from a row is what the record holds. -/
structure Reads (rec : Map) (r : AttemptRecord) : Prop where
  tsMs : u64Field rec "ts_ms" = some r.tsMs.toNat
  best : i64Field rec "best_energy_milli" = some r.bestEnergyMilli.toInt
  rawBest : i64Field rec "raw_best_energy_milli" = some r.rawBestEnergyMilli.toInt
  threshold : i64Field rec "threshold_milli" = some r.thresholdMilli.toInt
  diversity : rec.lookup "diversity_milli" = some (AttemptRecord.u64Json r.diversityMilli.toUInt64)
  nValid : rec.lookup "n_valid" = some (AttemptRecord.u64Json r.nValid.toUInt64)
  deviceTime : u64Field rec "device_access_time_us" = some r.deviceAccessTimeUs.toNat
  accepted : boolField rec "accepted" = some r.accepted
  submitted : boolField rec "submitted" = some r.submitted
  extrinsicHash : rec.lookup "extrinsic_hash" = some (orNull .string r.extrinsicHash)
  chainBlockHash : rec.lookup "chain_block_hash" = some (orNull .string r.chainBlockHash)
  chainBlockNumber : u64Field rec "chain_block_number" = r.chainBlockNumber.map UInt64.toNat
  powSequence : u64Field rec "pow_sequence" = r.powSequence.map UInt64.toNat

theorem reads_toObject (r : AttemptRecord) : Reads r.toObject r where
  tsMs := u64Field_eq rfl
  best := i64Field_eq rfl
  rawBest := i64Field_eq rfl
  threshold := i64Field_eq rfl
  diversity := rfl
  nValid := rfl
  deviceTime := u64Field_eq rfl
  accepted := rfl
  submitted := rfl
  extrinsicHash := rfl
  chainBlockHash := rfl
  chainBlockNumber := u64Field_orNull rfl
  powSequence := u64Field_orNull rfl

/-! ## Sources -/

namespace AttemptRecord

/-- The best that passed the gate, then the raw best, without the sentinel. -/
def realEnergy (r : AttemptRecord) : Option Int :=
  if r.bestEnergyMilli.toInt ≠ i64Max then some r.bestEnergyMilli.toInt
  else if r.rawBestEnergyMilli.toInt ≠ i64Max then some r.rawBestEnergyMilli.toInt
  else none

def tsNs (r : AttemptRecord) : Nat := r.tsMs.toNat * 1000000

def attemptSource (r : AttemptRecord) (iter solutionNumber : Nat) : Source Int :=
  .object [
    ("solution_number", .leaf (some solutionNumber)),
    ("iter", .leaf (some iter)),
    ("best_energy_milli", .leaf (some (r.realEnergy.getD 0))),
    ("num_valid", .leaf (some r.nValid.toNat)),
    ("diversity_milli", .leaf (some r.diversityMilli.toNat)),
    ("qpu_access_time_us", .leaf (some r.deviceAccessTimeUs.toNat))]

def submissionSource (r : AttemptRecord) (solutionNumber : Nat) : Source Int :=
  .object [
    ("solution_number", .leaf (some solutionNumber)),
    ("energy_milli", .leaf (some (r.realEnergy.getD 0))),
    ("diversity_milli", .leaf (some r.diversityMilli.toNat)),
    ("threshold_milli", .leaf (some r.thresholdMilli.toInt)),
    ("num_valid", .leaf (some r.nValid.toNat)),
    ("chain_block_number", .leaf (r.chainBlockNumber.map fun n => (n.toNat : Int))),
    ("pow_sequence", .leaf (r.powSequence.map fun n => (n.toNat : Int)))]

/-- The times of a row have 128 bits. -/
def wideSource (r : AttemptRecord) : Source Nat := .object [("ts_ns", .leaf (some r.tsNs))]

end AttemptRecord

/-- The number is one a double holds, and it is the integer it reports if a double holds that. -/
def Exact (i : Int) (n : Number) : Prop :=
  ∃ x, n.toInt = some x ∧ Safe x ∧ (Safe i → x = i)

def ReadsBack (n : Nat) (s : String) : Prop := Decimal.unsigned? (2 ^ 128) s.toList = some n

theorem accounted_safeI64 {i v : Int} (h : Safe i → v = i) :
    Value.Accounted Exact (.leaf (some i)) (safeI64 v) := by
  unfold safeI64
  split_ifs with hv
  · exact Value.accounted_number ⟨v, toInt_of_safe hv, hv, h⟩
  · refine Value.accounted_number ⟨0, rfl, safe_zero, ?_⟩
    intro hi
    rw [h hi] at hv
    exact absurd hi hv

theorem accounted_safeU64 {i : Int} {v : Nat} (h : Safe i → (v : Int) = i) :
    Value.Accounted Exact (.leaf (some i)) (safeU64 v) := by
  unfold safeU64
  split_ifs with hv
  · exact accounted_safeI64 h
  · refine Value.accounted_number ⟨0, rfl, safe_zero, ?_⟩
    intro hi
    have := h hi
    unfold Safe jsMaxSafeInteger at hi
    omega

theorem accounted_orNull {x : Option Nat} {y : Option Int}
    (h : ∀ v, x = some v → y = some (v : Int)) :
    Value.Accounted Exact (.leaf y) (orNull safeU64 x) := by
  cases x with
  | none => exact Value.accounted_null _
  | some v =>
    rw [h v rfl]
    exact accounted_safeU64 fun _ => rfl

theorem spelled_wireU128 {n : Nat} (h : n < 2 ^ 128) :
    Value.Spelled ReadsBack (.leaf (some n)) (wireU128 n) := by
  apply Value.spelled_string
  rw [ReadsBack, Nat.toString_eq_repr, Nat.toList_repr]
  exact Decimal.unsigned?_toDigits h

theorem AttemptRecord.tsNs_lt (r : AttemptRecord) : r.tsNs < 2 ^ 128 := by
  have := r.tsMs.toNat_lt
  unfold tsNs
  omega

theorem safe_lenU64 {n : Nat} (h : Safe n) : ((lenU64 n : Nat) : Int) = n := by
  unfold Safe jsMaxSafeInteger at h
  unfold lenU64
  omega

theorem accounted_optionalText (source : Source Int) (x : Option String) :
    Value.Accounted Exact source (orNull Value.string x) := by
  cases x with
  | none => exact Value.accounted_null _
  | some s => exact Value.accounted_string _ s

section Row
variable {rec : Map} {r : AttemptRecord} (h : Reads rec r)
include h

theorem resolvedEnergyMilli_eq : resolvedEnergyMilli rec = r.realEnergy := by
  rw [resolvedEnergyMilli, h.best, h.rawBest, AttemptRecord.realEnergy]
  by_cases hbest : r.bestEnergyMilli.toInt = i64Max <;>
    by_cases hraw : r.rawBestEnergyMilli.toInt = i64Max <;>
      simp [hbest, hraw, Option.filter]

theorem tsNsOf_eq : tsNsOf rec = r.tsNs := by
  have := r.tsMs.toNat_lt
  rw [tsNsOf, h.tsMs, AttemptRecord.tsNs]
  exact min_eq_left (by omega)

theorem accounted_attempt (iter solutionNumber : Nat) :
    Value.Accounted Exact (r.attemptSource iter solutionNumber)
      (attemptFromRecord rec iter solutionNumber) := by
  have hvalid : (rec.lookup "n_valid").bind Value.asU64 = some r.nValid.toNat := by
    rw [h.nValid]
    exact congrArg some r.nValid.toNat_toUInt64
  have hdiversity : (rec.lookup "diversity_milli").bind Value.asU64 =
      some r.diversityMilli.toNat := by
    rw [h.diversity]
    exact congrArg some r.diversityMilli.toNat_toUInt64
  have hdevice : ∀ v, (u64Field rec "device_access_time_us").filter (0 < ·) = some v →
      some (r.deviceAccessTimeUs.toNat : Int) = some (v : Int) := by
    intro v hv
    rw [h.deviceTime] at hv
    rw [Option.some.inj (Option.eq_some_of_filter_eq_some hv)]
  apply Value.accounted_fields
  simp only [List.forall_mem_cons]
  refine ⟨Value.accounted_string _ _, Value.accounted_string _ _, Value.accounted_string _ _,
    Value.accounted_string _ _, ?_, ?_, ?_, Value.accounted_string _ _, ?_, ?_, ?_, ?_, ?_, ?_, ?_⟩
  · exact Value.accounted_at rfl (accounted_safeU64 fun _ => rfl)
  · exact Value.accounted_at rfl (accounted_safeU64 safe_lenU64)
  · rw [wireEnergyMilli, resolvedEnergyMilli_eq h]
    exact Value.accounted_at rfl (accounted_safeI64 fun _ => rfl)
  · rw [hvalid]
    exact Value.accounted_at rfl (accounted_safeU64 fun _ => rfl)
  · rw [hdiversity]
    exact Value.accounted_at rfl (accounted_safeU64 fun _ => rfl)
  · exact Value.accounted_at rfl (accounted_orNull hdevice)
  · exact accounted_optionalText _ _
  · rw [h.accepted]
    exact Value.accounted_bool _ _
  · rw [h.submitted]
    exact Value.accounted_bool _ _
  · exact fun _ he => absurd he List.not_mem_nil

theorem spelled_attempt (iter solutionNumber : Nat) :
    Value.Spelled ReadsBack r.wideSource (attemptFromRecord rec iter solutionNumber) := by
  apply Value.spelled_fields
  simp only [List.forall_mem_cons]
  refine ⟨⟨_, rfl, ?_⟩, fun _ he => absurd he List.not_mem_nil⟩
  rw [tsNsOf_eq h]
  exact spelled_wireU128 r.tsNs_lt

theorem isSubmitted_eq : isSubmitted rec = r.submitted := by
  rw [isSubmitted, h.submitted]
  cases r.submitted <;> rfl

theorem isAccepted_eq : isAccepted rec = r.accepted := by
  rw [isAccepted, h.accepted]
  cases r.accepted <;> rfl

theorem u64Field_nValid : u64Field rec "n_valid" = some r.nValid.toNat := by
  rw [u64Field_eq h.nValid, UInt32.toNat_toUInt64]

theorem u64Field_diversity : u64Field rec "diversity_milli" = some r.diversityMilli.toNat := by
  rw [u64Field_eq h.diversity, UInt32.toNat_toUInt64]

theorem accounted_submission {records : List Map} (hchosen : chosenRecord records = rec)
    (solutionNumber : Nat) :
    Value.Accounted Exact (r.submissionSource solutionNumber)
      (submissionFromRecords records solutionNumber) := by
  have hoptional : ∀ {x : Option UInt64} {v : Nat}, x.map UInt64.toNat = some v →
      x.map (fun n => (n.toNat : Int)) = some (v : Int) := by
    intro x v hv
    cases x with
    | none => cases hv
    | some n =>
      cases hv
      rfl
  rw [submissionFromRecords, hchosen]
  apply Value.accounted_fields
  simp only [List.forall_mem_cons]
  refine ⟨Value.accounted_string _ _, Value.accounted_string _ _, ?_, Value.accounted_string _ _,
    Value.accounted_string _ _, ?_, ?_, ?_, ?_, Value.accounted_string _ _, ?_, ?_, ?_, ?_,
    Value.accounted_string _ _, ?_⟩
  · exact Value.accounted_at rfl (accounted_safeU64 fun _ => rfl)
  · rw [wireEnergyMilli, resolvedEnergyMilli_eq h]
    exact Value.accounted_at rfl (accounted_safeI64 fun _ => rfl)
  · rw [u64Field_diversity h]
    exact Value.accounted_at rfl (accounted_safeU64 fun _ => rfl)
  · rw [h.threshold]
    exact Value.accounted_at rfl (accounted_safeI64 fun _ => rfl)
  · rw [u64Field_nValid h]
    exact Value.accounted_at rfl (accounted_safeU64 fun _ => rfl)
  · rw [h.extrinsicHash]
    exact accounted_optionalText _ _
  · rw [h.chainBlockHash]
    exact accounted_optionalText _ _
  · rw [h.chainBlockNumber]
    exact Value.accounted_at rfl (accounted_orNull fun _ hv => hoptional hv)
  · rw [h.powSequence]
    exact Value.accounted_at rfl (accounted_orNull fun _ hv => hoptional hv)
  · exact fun _ he => absurd he List.not_mem_nil

theorem spelled_submission {records : List Map} (hchosen : chosenRecord records = rec)
    (solutionNumber : Nat) :
    Value.Spelled ReadsBack r.wideSource (submissionFromRecords records solutionNumber) := by
  rw [submissionFromRecords, hchosen]
  apply Value.spelled_fields
  simp only [List.forall_mem_cons]
  refine ⟨⟨_, rfl, ?_⟩, fun _ he => absurd he List.not_mem_nil⟩
  rw [tsNsOf_eq h]
  exact spelled_wireU128 r.tsNs_lt

end Row

/-! ## The whole trail -/

namespace AttemptRecord

def chosen (recs : List AttemptRecord) : Option AttemptRecord :=
  ((recs.reverse.find? submitted).or (recs.reverse.find? accepted)).or recs.getLast?

def deviceTime (recs : List AttemptRecord) : Nat :=
  (recs.map fun r => r.deviceAccessTimeUs.toNat).sum

def totalsSource (recs : List AttemptRecord) : Source Int :=
  .object [
    ("attempt_count", .leaf (some recs.length)),
    ("best_energy_milli", .leaf (some ((recs.filterMap realEnergy).min?.getD 0))),
    ("qpu_access_time_us", .leaf (some (deviceTime recs))),
    ("num_valid", .leaf ((recs.reverse.find? submitted).map fun r => (r.nValid.toNat : Int)))]

end AttemptRecord

section Trail
variable (recs : List AttemptRecord)

theorem find?_submitted : (recs.map AttemptRecord.toObject).reverse.find? isSubmitted =
    (recs.reverse.find? AttemptRecord.submitted).map AttemptRecord.toObject := by
  rw [← List.map_reverse, List.find?_map]
  congr 2
  funext r
  exact isSubmitted_eq (reads_toObject r)

theorem find?_accepted : (recs.map AttemptRecord.toObject).reverse.find? isAccepted =
    (recs.reverse.find? AttemptRecord.accepted).map AttemptRecord.toObject := by
  rw [← List.map_reverse, List.find?_map]
  congr 2
  funext r
  exact isAccepted_eq (reads_toObject r)

theorem chosenRecord_map : chosenRecord (recs.map AttemptRecord.toObject) =
    ((AttemptRecord.chosen recs).map AttemptRecord.toObject).getD [] := by
  rw [chosenRecord, find?_submitted, find?_accepted, List.getLast?_map, AttemptRecord.chosen,
    Option.map_or, Option.map_or]

theorem bestEnergyMilli_map : bestEnergyMilli (recs.map AttemptRecord.toObject) =
    ((recs.filterMap AttemptRecord.realEnergy).min?).getD 0 := by
  rw [bestEnergyMilli, List.filterMap_map]
  congr 3
  funext r
  exact resolvedEnergyMilli_eq (reads_toObject r)

theorem foldl_satAdd {α : Type} (f : α → Nat) (l : List α) {acc : Nat} (h : acc ≤ 2 ^ 64 - 1) :
    l.foldl (fun acc a => satAdd 64 acc (f a)) acc = min (acc + (l.map f).sum) (2 ^ 64 - 1) := by
  induction l generalizing acc with
  | nil =>
    simp only [List.foldl_nil, List.map_nil, List.sum_nil]
    omega
  | cons a l ih =>
    have hle : satAdd 64 acc (f a) ≤ 2 ^ 64 - 1 := min_le_right _ _
    rw [List.foldl_cons, ih hle, List.map_cons, List.sum_cons, satAdd]
    omega

theorem qpuAccessTimeUs_map : qpuAccessTimeUs (recs.map AttemptRecord.toObject) =
    lenU64 (AttemptRecord.deviceTime recs) := by
  have hdevice : (fun rec => (u64Field rec "device_access_time_us").getD 0) ∘
      AttemptRecord.toObject = fun r => r.deviceAccessTimeUs.toNat := by
    funext r
    rw [Function.comp_apply, (reads_toObject r).deviceTime]
    rfl
  rw [qpuAccessTimeUs, foldl_satAdd _ _ (Nat.zero_le _), Nat.zero_add, List.map_map, hdevice]
  rfl

theorem accounted_totals : Value.Accounted Exact (AttemptRecord.totalsSource recs)
    (totalsFromRecords (recs.map AttemptRecord.toObject)) := by
  apply Value.accounted_fields
  simp only [List.forall_mem_cons]
  refine ⟨?_, ?_, ?_, ?_, fun _ he => absurd he List.not_mem_nil⟩
  · rw [List.length_map]
    exact Value.accounted_at rfl (accounted_safeU64 safe_lenU64)
  · rw [bestEnergyMilli_map]
    exact Value.accounted_at rfl (accounted_safeI64 fun _ => rfl)
  · rw [qpuAccessTimeUs_map]
    exact Value.accounted_at rfl (accounted_safeU64 safe_lenU64)
  · refine Value.accounted_at rfl (accounted_orNull ?_)
    intro v hv
    rw [find?_submitted] at hv
    cases hfind : recs.reverse.find? AttemptRecord.submitted with
    | none =>
      rw [hfind] at hv
      cases hv
    | some r =>
      rw [hfind] at hv
      have hvalid := u64Field_nValid (reads_toObject r)
      rw [Option.map_some, Option.bind_some, hvalid] at hv
      cases hv
      rfl

end Trail
end QuipCoordinator
