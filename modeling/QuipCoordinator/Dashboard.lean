import QuipCoordinator.FoundationDecimal
import QuipCoordinator.FoundationJson
import QuipCoordinator.FoundationText
import QuipCoordinator.FoundationTopK
import QuipCoordinator.ListSource

/-!
# The attempts of the dashboard

The trail of a solution number is a file with one JSON object a line. A request for
it answers with a submission made from one row of the trail and the attempts, one for
each row. A limit keeps the newest rows and adds the totals of the whole trail. A row
comes from any writer, so each field is read by its kind and may be missing. Integers
go out through a guard for the range a double holds. The reader of the JSON of a line
is a parameter; the warnings of the guard are left out.
-/

namespace QuipCoordinator

namespace Dashboard
open Json

/-! ## The guard -/

def jsMaxSafeInteger : Int := 9007199254740991
def jsMinSafeInteger : Int := -9007199254740991

def safeI64 (v : Int) : Value :=
  if jsMinSafeInteger ≤ v ∧ v ≤ jsMaxSafeInteger then .number (.ofInt v) else .number (.ofInt 0)

def safeU64 (v : Nat) : Value := if v < 2 ^ 63 then safeI64 v else .number (.ofInt 0)

def wireU128 (v : Nat) : Value := .string (toString v)

def orNull {α : Type} (f : α → Value) : Option α → Value
  | none => .null
  | some a => f a

/-! ## The fields of a row -/

def stringField (rec : Map) (key : String) : Option String :=
  match rec.lookup key with
  | some (.string s) => if s.isEmpty then none else some s
  | _ => none

def boolField (rec : Map) (key : String) : Option Bool := (rec.lookup key).bind Value.asBool

def i64Field (rec : Map) (key : String) : Option Int :=
  match rec.lookup key with
  | some (.number n) => n.asI64
  | some (.string s) => Decimal.signed? (2 ^ 63) s.toList
  | _ => none

def u64Field (rec : Map) (key : String) : Option Nat :=
  match rec.lookup key with
  | some (.number n) => n.asU64
  | some (.string s) => Decimal.unsigned? (2 ^ 64) s.toList
  | _ => none

def tsNsOf (rec : Map) : Nat :=
  match u64Field rec "ts_ms" with
  | some ms => min (ms * 1000000) (2 ^ 128 - 1)
  | none => 0

def i64Max : Int := 2 ^ 63 - 1

/-- The real energy of a row: the best that passed the gate, then the raw best. -/
def resolvedEnergyMilli (rec : Map) : Option Int :=
  match (i64Field rec "best_energy_milli").filter (· ≠ i64Max) with
  | some best => some best
  | none => (i64Field rec "raw_best_energy_milli").filter (· ≠ i64Max)

def wireEnergyMilli (rec : Map) : Value := safeI64 ((resolvedEnergyMilli rec).getD 0)

def isSubmitted (rec : Map) : Bool := boolField rec "submitted" == some true
def isAccepted (rec : Map) : Bool := boolField rec "accepted" == some true

def resultKindOf (rec : Map) : String :=
  if isSubmitted rec then "submitted" else if isAccepted rec then "stored" else "rejected"

/-! ## The objects of the answer -/

-- `u64::try_from(n).unwrap_or(u64::MAX)`
def lenU64 (n : Nat) : Nat := min n (2 ^ 64 - 1)

def bestEnergyMilli (records : List Map) : Int :=
  ((records.filterMap resolvedEnergyMilli).min?).getD 0

def qpuAccessTimeUs (records : List Map) : Nat :=
  records.foldl (fun acc rec => satAdd 64 acc ((u64Field rec "device_access_time_us").getD 0)) 0

def totalsFromRecords (records : List Map) : Value :=
  .object [
    ("attempt_count", safeU64 (lenU64 records.length)),
    ("best_energy_milli", safeI64 (bestEnergyMilli records)),
    ("qpu_access_time_us", safeU64 (qpuAccessTimeUs records)),
    ("num_valid",
      orNull safeU64 ((records.reverse.find? isSubmitted).bind (u64Field · "n_valid")))]

def attemptFromRecord (rec : Map) (iter solutionNumber : Nat) : Value :=
  .object [
    ("type", .string "attempt"),
    ("ts_ns", wireU128 (tsNsOf rec)),
    ("miner_id", .string ((stringField rec "miner_id").getD "")),
    ("miner_type", .string ((stringField rec "miner_type").getD "")),
    ("solution_number", safeU64 solutionNumber),
    ("iter", safeU64 (lenU64 iter)),
    ("best_energy_milli", wireEnergyMilli rec),
    ("result_kind", .string (resultKindOf rec)),
    -- these two take no text
    ("num_valid", orNull safeU64 ((rec.lookup "n_valid").bind Value.asU64)),
    ("diversity_milli", orNull safeU64 ((rec.lookup "diversity_milli").bind Value.asU64)),
    ("qpu_access_time_us",
      orNull safeU64 ((u64Field rec "device_access_time_us").filter (0 < ·))),
    ("job_id", orNull .string (stringField rec "job_id")),
    ("accepted", orNull .bool (boolField rec "accepted")),
    ("submitted", orNull .bool (boolField rec "submitted"))]

/-- The row the submission is built from: the last submitted, else the last accepted, else the
last. -/
def chosenRecord (records : List Map) : Map :=
  (((records.reverse.find? isSubmitted).or (records.reverse.find? isAccepted)).or
    records.getLast?).getD []

def outcomeOf (records : List Map) : String :=
  if records.any isSubmitted then "submitted"
  else if records.any isAccepted then "stored"
  else "rejected"

def submissionFromRecords (records : List Map) (solutionNumber : Nat) : Value :=
  let chosen := chosenRecord records
  .object [
    ("type", .string "submission"),
    ("ts_ns", wireU128 (tsNsOf chosen)),
    ("solution_number", safeU64 solutionNumber),
    ("miner_id", .string ((stringField chosen "miner_id").getD "unknown")),
    ("miner_type", .string ((stringField chosen "miner_type").getD "")),
    ("energy_milli", wireEnergyMilli chosen),
    ("diversity_milli", safeU64 ((u64Field chosen "diversity_milli").getD 0)),
    ("threshold_milli", safeI64 ((i64Field chosen "threshold_milli").getD 0)),
    ("num_valid", orNull safeU64 (u64Field chosen "n_valid")),
    ("last_proof_block_hash",
      .string ((stringField chosen "last_proof_block_hash").getD "0x0")),
    ("extrinsic_hash", (chosen.lookup "extrinsic_hash").getD .null),
    ("chain_block_hash", (chosen.lookup "chain_block_hash").getD .null),
    ("chain_block_number", orNull safeU64 (u64Field chosen "chain_block_number")),
    ("pow_sequence", orNull safeU64 (u64Field chosen "pow_sequence")),
    ("outcome", .string (outcomeOf records))]

/-! ## The envelope -/

/-- The rows a request gets, each with its position in the trail. The sort is stable. -/
def kept (records : List Map) (limit : Option Nat) : List (Map × Nat) :=
  match limit with
  | none => records.zipIdx
  | some n =>
    let sorted := records.zipIdx.insertionSort fun a b => tsNsOf a.1 ≤ tsNsOf b.1
    sorted.drop (sorted.length - n)

def attemptAt (solutionNumber : Nat) (row : Map × Nat) : Value :=
  attemptFromRecord row.1 (row.2 + 1) solutionNumber

def attempts (records : List Map) (solutionNumber : Nat) (limit : Option Nat) : List Value :=
  (kept records limit).map (attemptAt solutionNumber)

def envelope (records : List Map) (solutionNumber : Nat) (limit : Option Nat) : Value :=
  .object ([
    ("submission", submissionFromRecords records solutionNumber),
    ("attempts", .array (attempts records solutionNumber limit))] ++
    if limit.isSome then [("totals", totalsFromRecords records)] else [])

def recordsOf (fromStr : String → Option Value) (body : String) : List Map :=
  (Text.lines body).filterMap fun line =>
    let line := ListSource.trim line.toList
    if line.isEmpty then none
    else
      match fromStr (String.ofList line) with
      | some (.object obj) => some obj
      | _ => none

inductive AttemptsFile
  | noDirectory
  | noFile
  | unreadable (error : String)
  | body (text : String)

inductive AttemptsLoadError
  | notFound
  | io (error : String)

def loadAttemptsEnvelope (fromStr : String → Option Value) (file : AttemptsFile)
    (solutionNumber : Nat) (limit : Option Nat) : Except AttemptsLoadError Value :=
  match file with
  | .noDirectory | .noFile => .error .notFound
  | .unreadable e => .error (.io e)
  | .body text =>
    let records := recordsOf fromStr text
    if records.isEmpty then .error .notFound else .ok (envelope records solutionNumber limit)

/-! ## The request -/

structure Response where
  status : Nat
  body : Value

def successEnvelope (data : Value) (now : UInt64) : Response where
  status := 200
  body := .object [
    ("success", .bool true),
    ("data", data),
    ("timestamp", .number (.posInt now))]

def errorEnvelope (status : Nat) (message code : String) (now : UInt64) : Response where
  status := status
  body := .object [
    ("success", .bool false),
    ("error", .string message),
    ("code", .string code),
    ("timestamp", .number (.posInt now))]

structure AttemptsQuery where
  solutionNumber : Option String
  limit : Option String

-- the outer option is the failed parse
def parseLimit : Option String → Option (Option Nat)
  | none => some none
  | some raw => (Decimal.unsigned? (2 ^ 64) raw.toList).map some

def apiMiningAttempts (fromStr : String → Option Value) (files : Nat → AttemptsFile)
    (query : AttemptsQuery) (now : UInt64) : Response :=
  match query.solutionNumber with
  | none => errorEnvelope 400 "supply ?solution_number=N" "BAD_PARAM" now
  | some raw =>
    match Decimal.unsigned? (2 ^ 64) raw.toList with
    | none => errorEnvelope 400 "solution_number must be an integer" "BAD_PARAM" now
    | some solutionNumber =>
      match parseLimit query.limit with
      | none => errorEnvelope 400 "limit must be a non-negative integer" "BAD_PARAM" now
      | some limit =>
        match loadAttemptsEnvelope fromStr (files solutionNumber) solutionNumber limit with
        | .ok data => successEnvelope data now
        | .error .notFound =>
          errorEnvelope 404 s!"solution_number {solutionNumber} not found" "NOT_FOUND" now
        | .error (.io _) => errorEnvelope 500 "failed to read attempts" "INTERNAL_ERROR" now

end Dashboard
end QuipCoordinator
