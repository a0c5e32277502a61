import Mathlib.Data.Finset.Sort
import Mathlib.Data.String.Basic
import QuipCoordinator.DashboardNumbers
import QuipCoordinator.FoundationMachine
import QuipCoordinator.FoundationTable

/-!
# The trail on disk

The sessions and the feeder hand their records to one writer thread, which appends each
to the file of its qblock in the order it receives them. What an earlier run left there
stays in front. A write that fails is only logged, whatever it leaves in the directory of
its qblock. The dashboard reads the directories while the writer runs, so it serves a
prefix of what was handed over.
-/

namespace QuipCoordinator
open Dashboard

inductive WriterMsg
  | attempt (rec : AttemptRecord)
  | summary (qblockId : Option UInt64) (body : String)
deriving DecidableEq

def WriterMsg.qblockId : WriterMsg → Option UInt64
  | .attempt rec => rec.qblockId
  | .summary qblockId _ => qblockId

def WriterMsg.record? : WriterMsg → Option AttemptRecord
  | .attempt rec => some rec
  | .summary _ _ => none

def WriterMsg.body? : WriterMsg → Option String
  | .attempt _ => none
  | .summary _ body => some body

def qblockDirName : Option UInt64 → String
  | none => "pending"
  | some id => toString id.toNat

/-- The files `attempts.jsonl` and `attempts.json` of a qblock. -/
structure QblockDir where
  attempts : Option (List Char)
  summary : Option String
deriving DecidableEq

abbrev DataDir := Table String QblockDir

def WriterMsg.store (dir : Option QblockDir) : WriterMsg → QblockDir
  | .attempt rec =>
    ⟨some (appendRecord ((dir.bind (·.attempts)).getD []) rec), dir.bind (·.summary)⟩
  | .summary _ body => ⟨dir.bind (·.attempts), some body⟩

def DataDir.write (data : DataDir) (msg : WriterMsg) : DataDir :=
  data.insert (qblockDirName msg.qblockId) (msg.store (data.lookup (qblockDirName msg.qblockId)))

/-- `done` are the messages that the writer took, with whether the write went through. -/
structure Trail where
  sent : List (Nat × WriterMsg)
  queue : List WriterMsg
  done : List (WriterMsg × Bool)
  data : DataDir

/-- A send is of the session or task with the given number. -/
inductive TrailEvent
  | send (sender : Nat) (msg : WriterMsg)
  | write
  | fail (left : Option QblockDir)

namespace Trail

def init (data : DataDir) : Trail := ⟨[], [], [], data⟩

/-- The writer takes the oldest message. -/
def take (x : Trail) (ok : Bool) (store : WriterMsg → DataDir) : Trail :=
  match x.queue with
  | [] => x
  | msg :: queue => { x with queue := queue, done := x.done ++ [(msg, ok)], data := store msg }

def next (x : Trail) : TrailEvent → Trail
  | .send sender msg => { x with sent := x.sent ++ [(sender, msg)], queue := x.queue ++ [msg] }
  | .write => x.take true x.data.write
  | .fail left => x.take false fun msg =>
    left.elim x.data (x.data.insert (qblockDirName msg.qblockId))

end Trail

/-- The coordinator starts on the directories that are there. -/
def trailMachine (start : DataDir) : Machine Trail TrailEvent where
  init := .init start
  allowed _ _ := True
  next := Trail.next

namespace Trail

def taken (x : Trail) (qblockId : Option UInt64) : List WriterMsg :=
  (x.done.map (·.1)).filter fun msg => msg.qblockId = qblockId

def recorded (x : Trail) (qblockId : Option UInt64) : List AttemptRecord :=
  (x.taken qblockId).filterMap (·.record?)

def Sound (x : Trail) (qblockId : Option UInt64) : Prop :=
  ∀ entry ∈ x.done, entry.1.qblockId = qblockId → entry.2 = true

instance (x : Trail) (qblockId : Option UInt64) : Decidable (x.Sound qblockId) :=
  inferInstanceAs (Decidable (∀ entry ∈ x.done, _ → _))

end Trail

/-! ## What the dashboard reads -/

def listQblocks (data : DataDir) : List String := data.keys.sort (· ≤ ·)

def DataDir.attemptsFile (data : DataDir) (solutionNumber : Nat) : AttemptsFile :=
  match data.lookup (toString solutionNumber) with
  | none => .noDirectory
  | some dir =>
    match dir.attempts with
    | none => .noFile
    | some text => .body (String.ofList text)

/-! ## One directory a qblock -/

theorem qblockDirName_injective : Function.Injective qblockDirName := by
  have hdigit : ∀ n : Nat, toString n ≠ "pending" := by
    intro n heq
    have hmem : 'p' ∈ (toString n).toList := by
      rw [heq]
      decide
    rw [Nat.toString_eq_repr, Nat.toList_repr] at hmem
    exact absurd (Nat.isDigit_of_mem_toDigits (by omega) (by omega) hmem) (by decide)
  intro a b h
  cases a with
  | none =>
    cases b with
    | none => rfl
    | some b => exact absurd h.symm (hdigit b.toNat)
  | some a =>
    cases b with
    | none => exact absurd h (hdigit a.toNat)
    | some b =>
      have hread : ∀ id : UInt64, (toString id.toNat).toList = Nat.toDigits 10 id.toNat := by
        intro id
        rw [Nat.toString_eq_repr, Nat.toList_repr]
      have hdigits : Nat.toDigits 10 a.toNat = Nat.toDigits 10 b.toNat := by
        rw [← hread, ← hread]
        exact congrArg String.toList h
      have ha := Decimal.unsigned?_toDigits a.toNat_lt
      rw [hdigits, Decimal.unsigned?_toDigits b.toNat_lt] at ha
      exact congrArg some (UInt64.toNat.inj (Option.some.inj ha)).symm

def storeAll (start : Option QblockDir) (msgs : List WriterMsg) : Option QblockDir :=
  msgs.foldl (fun dir msg => some (msg.store dir)) start

theorem storeAll_concat (start : Option QblockDir) (msgs : List WriterMsg) (msg : WriterMsg) :
    storeAll start (msgs ++ [msg]) = some (msg.store (storeAll start msgs)) := by
  rw [storeAll, List.foldl_concat]
  rfl

theorem isSome_storeAll (start : Option QblockDir) (msgs : List WriterMsg) :
    (storeAll start msgs).isSome = true ↔ start.isSome = true ∨ msgs ≠ [] := by
  induction msgs using List.reverseRecOn with
  | nil => simp [storeAll]
  | append_singleton msgs msg ih => simp [storeAll_concat]

theorem attempts_storeAll (start : Option QblockDir) (msgs : List WriterMsg) :
    (storeAll start msgs).bind (·.attempts) =
      if msgs.filterMap (·.record?) = [] then start.bind (·.attempts)
      else some ((msgs.filterMap (·.record?)).foldl appendRecord
        ((start.bind (·.attempts)).getD [])) := by
  induction msgs using List.reverseRecOn with
  | nil => rfl
  | append_singleton msgs msg ih =>
    rw [storeAll_concat, List.filterMap_append, Option.bind_some]
    cases msg with
    | attempt rec =>
      have hlast : List.filterMap (·.record?) [WriterMsg.attempt rec] = [rec] := rfl
      rw [WriterMsg.store, ih, hlast]
      generalize msgs.filterMap (·.record?) = recs
      have hne : recs ++ [rec] ≠ [] := by simp
      rw [if_neg hne, List.foldl_concat]
      cases recs <;> rfl
    | summary qblockId body =>
      rw [WriterMsg.store, ih]
      simp [WriterMsg.record?]

theorem summary_storeAll (start : Option QblockDir) (msgs : List WriterMsg) :
    (storeAll start msgs).bind (·.summary) =
      ((msgs.filterMap (·.body?)).getLast?).or (start.bind (·.summary)) := by
  induction msgs using List.reverseRecOn with
  | nil => rfl
  | append_singleton msgs msg ih =>
    rw [storeAll_concat, List.filterMap_append, Option.bind_some]
    cases msg with
    | attempt rec =>
      rw [WriterMsg.store, ih]
      simp [WriterMsg.body?]
    | summary qblockId body => simp [WriterMsg.store, WriterMsg.body?]

theorem recordsOf_append (fromStr : String → Option Json.Value) {front : List Char}
    (h : Text.EndsLine front) (back : List Char) :
    recordsOf fromStr (String.ofList (front ++ back)) =
      recordsOf fromStr (String.ofList front) ++ recordsOf fromStr (String.ofList back) := by
  rw [recordsOf, Text.lines_append h, List.filterMap_append]
  rfl

/-! ## Runs of the writer -/

namespace Trail

/-- Nothing is lost, doubled or overtaken, and a qblock whose writes went through has what its
messages leave of what was there. -/
structure Inv (start : DataDir) (x : Trail) : Prop where
  order : x.sent.map (·.2) = x.done.map (·.1) ++ x.queue
  stored : ∀ qblockId, x.Sound qblockId → x.data.lookup (qblockDirName qblockId) =
    storeAll (start.lookup (qblockDirName qblockId)) (x.taken qblockId)

variable {start : DataDir} {x : Trail}

theorem inv_init : (init start).Inv start where
  order := rfl
  stored _ _ := rfl

theorem Inv.take (h : x.Inv start) (ok : Bool) (store : WriterMsg → DataDir)
    (hself : ok = true → store = x.data.write)
    (hother : ∀ msg qblockId, msg.qblockId ≠ qblockId →
      (store msg).lookup (qblockDirName qblockId) = x.data.lookup (qblockDirName qblockId)) :
    (x.take ok store).Inv start := by
  rw [Trail.take]
  cases hqueue : x.queue with
  | nil => exact h
  | cons msg queue =>
    constructor
    · dsimp only
      rw [h.order, hqueue, List.map_append, List.append_assoc]
      rfl
    · intro qblockId hsound
      have hold : x.Sound qblockId := by
        intro entry hentry
        exact hsound entry (List.mem_append_left _ hentry)
      have hstored := h.stored qblockId hold
      dsimp only [taken]
      rw [List.map_append, List.filter_append]
      by_cases heq : msg.qblockId = qblockId
      · have hok : ok = true := hsound (msg, ok) (by simp) heq
        have hlast : List.filter (fun msg => decide (msg.qblockId = qblockId))
            (List.map (·.1) [(msg, ok)]) = [msg] := by simp [heq]
        rw [hlast, storeAll_concat, hself hok, DataDir.write, heq, Finmap.lookup_insert, hstored]
        rfl
      · have hlast : List.filter (fun msg => decide (msg.qblockId = qblockId))
            (List.map (·.1) [(msg, ok)]) = [] := by simp [heq]
        rw [hlast, List.append_nil, hother msg qblockId heq]
        exact hstored

theorem inv_next (h : x.Inv start) (e : TrailEvent) : (x.next e).Inv start := by
  cases e with
  | send sender msg =>
    refine ⟨?_, h.stored⟩
    simp [Trail.next, h.order]
  | write =>
    apply h.take true x.data.write fun _ => rfl
    intro msg qblockId hne
    rw [DataDir.write, Finmap.lookup_insert_of_ne]
    intro heq
    exact hne (qblockDirName_injective heq).symm
  | fail left =>
    refine h.take false _ (fun hfalse => by cases hfalse) ?_
    intro msg qblockId hne
    cases left with
    | none => rfl
    | some dir =>
      rw [Option.elim_some, Finmap.lookup_insert_of_ne]
      intro heq
      exact hne (qblockDirName_injective heq).symm

theorem accepts (start : DataDir) (x : Trail) (es : List TrailEvent) :
    (trailMachine start).Accepts x es := by
  induction es generalizing x with
  | nil => exact trivial
  | cons e es ih => exact ⟨trivial, ih _⟩

theorem inv_reachable (h : (trailMachine start).Reachable x) : x.Inv start :=
  h.invariant (I := Inv start) inv_init fun _ e _ hi _ => inv_next hi e

end Trail

def DataDir.rows (data : DataDir) (fromStr : String → Option Json.Value) (q : UInt64) :
    List Json.Map :=
  recordsOf fromStr (String.ofList
    (((data.lookup (qblockDirName (some q))).bind (·.attempts)).getD []))

theorem loadAttempts_eq (data : DataDir) (fromStr : String → Option Json.Value) (q : UInt64)
    (limit : Option Nat) :
    loadAttemptsEnvelope fromStr (data.attemptsFile q.toNat) q.toNat limit =
      if data.rows fromStr q = [] then .error .notFound
      else .ok (envelope (data.rows fromStr q) q.toNat limit) := by
  have hname : qblockDirName (some q) = toString q.toNat := rfl
  rw [DataDir.attemptsFile, DataDir.rows, hname]
  cases data.lookup (toString q.toNat) with
  | none => rfl
  | some dir =>
    rw [Option.bind_some]
    cases htext : dir.attempts with
    | none =>
      simp only [htext]
      rfl
    | some text => simp [htext, loadAttemptsEnvelope]

/-- In every interleaving of the senders and the writer, from whatever directories, the messages go
to disk in the order they were sent. The attempts file of a qblock without a failed write is what
was there and the lines of the records that the writer took for it. Where its last line had ended,
they are served behind its old rows. The summary is the last one. Another qblock's messages, the
pending ones and failed writes of other qblocks change nothing. -/
theorem attempts_served_exact (fromStr : String → Option Json.Value) (start : DataDir) {x : Trail}
    (h : (trailMachine start).Reachable x) (q : UInt64) (hsound : x.Sound (some q))
    (hparse : ∀ r ∈ x.recorded (some q),
      fromStr (String.ofList r.line) = some (.object r.toObject)) (limit : Option Nat) :
    let old := start.lookup (qblockDirName (some q))
    let rows := start.rows fromStr q ++ (x.recorded (some q)).map AttemptRecord.toObject
    x.sent.map (·.2) = x.done.map (·.1) ++ x.queue ∧
    (x.data.lookup (qblockDirName (some q))).bind (·.attempts) =
      (if x.recorded (some q) = [] then old.bind (·.attempts)
      else some ((x.recorded (some q)).foldl appendRecord ((old.bind (·.attempts)).getD []))) ∧
    (Text.EndsLine ((old.bind (·.attempts)).getD []) →
      loadAttemptsEnvelope fromStr (x.data.attemptsFile q.toNat) q.toNat limit =
        if rows = [] then .error .notFound else .ok (envelope rows q.toNat limit)) ∧
    (x.data.lookup (qblockDirName (some q))).bind (·.summary) =
      (((x.taken (some q)).filterMap (·.body?)).getLast?).or (old.bind (·.summary)) ∧
    (qblockDirName (some q) ∈ listQblocks x.data ↔
      qblockDirName (some q) ∈ listQblocks start ∨ x.taken (some q) ≠ []) := by
  intro old rows
  obtain ⟨horder, hstored⟩ := Trail.inv_reachable h
  have hdir := hstored (some q) hsound
  have hfile : (x.data.lookup (qblockDirName (some q))).bind (·.attempts) =
      if x.recorded (some q) = [] then old.bind (·.attempts)
      else some ((x.recorded (some q)).foldl appendRecord ((old.bind (·.attempts)).getD [])) := by
    rw [hdir]
    exact attempts_storeAll old (x.taken (some q))
  refine ⟨horder, hfile, ?_, ?_, ?_⟩
  · intro hend
    have hrows : x.data.rows fromStr q = rows := by
      have htext : ((x.data.lookup (qblockDirName (some q))).bind (·.attempts)).getD [] =
          (x.recorded (some q)).foldl appendRecord ((old.bind (·.attempts)).getD []) := by
        rw [hfile]
        split_ifs with hnil
        · rw [hnil]
          rfl
        · rfl
      have hlines : (x.recorded (some q)).foldl appendRecord ((old.bind (·.attempts)).getD []) =
          (old.bind (·.attempts)).getD [] ++ (x.recorded (some q)).foldl appendRecord [] := by
        rw [foldl_appendRecord, foldl_appendRecord, List.nil_append]
      rw [DataDir.rows, htext, hlines, recordsOf_append fromStr hend]
      exact congrArg (start.rows fromStr q ++ ·) (recordsOf_written hparse)
    rw [loadAttempts_eq, hrows]
  · rw [hdir, summary_storeAll]
  · simp only [listQblocks, Finset.mem_sort, Finmap.mem_keys, ← Finmap.lookup_isSome]
    rw [hdir, isSome_storeAll]

open SampleTrail in
/-- Two sessions behind a record of an earlier run, and a failed write of the pending records. -/
theorem attempts_served_exact_two :
    let pending : AttemptRecord := { record with qblockId := none }
    let start : DataDir := Finmap.singleton "42" ⟨some (record.line ++ ['\n']), none⟩
    let x := (trailMachine start).run (trailMachine start).init
      [.send 0 (.attempt record), .send 1 (.attempt pending), .send 0 (.summary (some 42) "{}"),
        .write, .fail none, .write]
    loadAttemptsEnvelope (fromStr record) (x.data.attemptsFile 42) 42 none =
      .ok (envelope [record.toObject, record.toObject] 42 none) := by
  intro pending start x
  have hreach : (trailMachine start).Reachable x :=
    Machine.reachable_run _ (Trail.accepts start _ _)
  have hrecorded : x.recorded (some 42) = [record] := by decide +kernel
  have hparse : fromStr record (String.ofList record.line) = some (.object record.toObject) :=
    if_pos rfl
  have hname : qblockDirName (some 42) = "42" := by decide
  have hfile : (start.lookup (qblockDirName (some 42))).bind (·.attempts) =
      some (record.line ++ ['\n']) := by
    rw [hname, Finmap.lookup_singleton_eq]
    rfl
  have hold : start.rows (fromStr record) 42 = [record.toObject] := by
    have hread : recordsOf (fromStr record) (written [record]) =
        [record].map AttemptRecord.toObject := by
      apply recordsOf_written
      intro r hr
      rw [List.mem_singleton.mp hr, hparse]
    rw [DataDir.rows, hfile]
    exact hread
  have h := attempts_served_exact (fromStr record) start hreach 42 (by decide +kernel) (by
    intro r hr
    rw [hrecorded] at hr
    rw [List.mem_singleton.mp hr, hparse]) none
  have hend : Text.EndsLine (((start.lookup (qblockDirName (some 42))).bind
      (·.attempts)).getD []) := by
    rw [hfile, Option.getD_some]
    exact Or.inr List.getLast?_concat
  have hserved := h.2.2.1 hend
  rw [hrecorded, hold] at hserved
  exact hserved

end QuipCoordinator
