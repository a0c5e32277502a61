import QuipCoordinator.CriticalSections
import QuipCoordinator.DriveAccounts

/-!
# The report of a drive

Every orderly step keeps the accounts, leaves no job routed away without its row and
tells the miner when the report is full. So the report of an orderly run has at most one
row for each job of the list and no other row, and is full when nothing is left to do.
-/

namespace QuipCoordinator
namespace DriveRun

section
variable {p : DriveParams} {jobs : List Job} {s : DriveRun}

theorem unroutable_drain (now : Nat) {fuel : Nat} (h : s.coord.router.unroutable = [])
    (hfit : FrontsFit p now fuel s) : (drain p now fuel s).1.coord.router.unroutable = [] := by
  induction fuel generalizing s with
  | zero => exact h
  | succ fuel ih =>
    obtain ⟨hfront, hrest⟩ := hfit
    obtain ⟨hun, -⟩ := Router.nextJob_of_front fun job hj => (hfront job hj).1
    rw [drain]
    rcases hnext : s.coord.router.nextJob p.minerId with ⟨r, _ | job⟩
    · rw [hnext] at hun
      exact hun.trans h
    · rw [hnext] at hun hrest
      exact ih (hun.trans h) (hrest job rfl)

theorem accounted_drain (now : Nat) {fuel : Nat} (h : Accounted jobs 0 s)
    (hfit : FrontsFit p now fuel s) : Accounted jobs 0 (drain p now fuel s).1 := by
  induction fuel generalizing s with
  | zero => exact h
  | succ fuel ih =>
    obtain ⟨hfront, hrest⟩ := hfit
    have hheld := s.coord.router.held_nextJob p.minerId
    obtain ⟨-, hhead⟩ := Router.nextJob_of_front fun job hj => (hfront job hj).1
    rw [drain]
    rcases hnext : s.coord.router.nextJob p.minerId with ⟨r, _ | job⟩
    · rw [hnext] at hheld
      refine h.withRouter ?_
      rw [← hheld]
      exact (add_zero _).symm
    · rw [hnext] at hheld hhead hrest
      have hid := (hfront job (hhead job rfl)).2
      exact ih (h.dispatch hheld hid now) (hrest job rfl)

theorem accounted_handshake (h : Accounted jobs 0 s) (caps : Capabilities) :
    Accounted jobs 0 (s.handshake p caps) := by
  unfold handshake
  refine Accounted.checkLoop (Accounted.recordUnroutable ?_)
  refine h.congr ?_ rfl rfl rfl rfl rfl
  change (([] : List Job) : Multiset Job) +
    (s.jobs.foldl (fun (r : Router) job => (r.route job).1) _).held = _
  rw [Router.held_foldl_route, Router.held_registerMiner, waiting, Multiset.coe_nil, zero_add,
    add_comm]

theorem accounted_takeResult (h : Accounted jobs 0 s) (r : DriveResult) :
    Accounted jobs 0 (s.takeResult r) := by
  rcases s.takeResult_cases r with ⟨hnone, heq⟩ | ⟨hid, isPow, ising, gates, topo, heq⟩
  · rw [heq]
    have hl : s.coord.inflight.lookup r.jobId = none := by
      refine Option.eq_none_iff_forall_not_mem.mpr fun job hjob => ?_
      have hising := h.solving r.jobId job hjob
      rw [hnone job hjob] at hising
      cases hising
    exact (h.takeInflight_none hl).checkComplete
  · rw [heq]
    exact (h.takeInflight hid).validate

theorem accounted_handleLeaseDone (h : Accounted jobs 0 s) (done : DriveLeaseDone) (now : Nat) :
    Accounted jobs 0 (s.handleLeaseDone done now) := by
  rcases s.handleLeaseDone_cases done now with ⟨hl, heq⟩ | ⟨hid, row, _, _, hrow, heq⟩
  · rw [heq]
    exact h.takeInflight_none hl
  · rw [heq]
    refine Accounted.record row ?_
    rw [zero_add, hrow]
    exact (h.takeInflight hid).congr rfl rfl rfl rfl rfl rfl

theorem accounted_handleReject {jobId : JobId} (h : Accounted jobs 0 s)
    (hid : jobId ∈ s.coord.inflight) (now : Nat) : Accounted jobs 0 (s.handleReject jobId now) := by
  refine Accounted.record _ ?_
  change Accounted jobs (0 + {jobId}) _
  rw [zero_add]
  exact (h.takeInflight hid).congr rfl rfl rfl rfl rfl rfl

theorem accounted_capabilities [Crates] (h : Accounted jobs 0 s) (caps : Capabilities) (now : Nat) :
    Accounted jobs 0 (s.handleMessage p now (.capabilities caps)) := by
  obtain ⟨hheld, hin⟩ := s.coord.held_applyCapabilities p.minerId caps
  change Accounted jobs 0 (if _ then _ else s)
  split_ifs
  · refine Accounted.recordUnroutable (Accounted.wakeDispatcher (h.congr ?_ hin rfl rfl rfl rfl))
    change (s.jobs : Multiset Job) + (s.coord.applyCapabilities p.minerId caps).1.router.held = _
    rw [hheld]
    rfl
  · exact h

variable [Crates]

theorem accounted_next {e : DriveEvent} (h : Accounted jobs 0 s) (hg : s.Guard e)
    (hok : Orderly p s e) : Accounted jobs 0 (s.next p e) := by
  cases e with
  | hello caps => exact accounted_handshake h caps
  | frame f now =>
    refine Accounted.checkLoop ?_
    cases f with
    | ready | jobRequest => exact h.congr rfl rfl rfl rfl rfl rfl
    | capabilities caps => exact accounted_capabilities h caps now
    | result r =>
      change Accounted jobs 0 (if _ then s.handleLeaseResult r else _)
      obtain ⟨leaseWinners, heq⟩ := s.handleLeaseResult_cases r
      rw [heq]
      split_ifs <;> exact h.congr rfl rfl rfl rfl rfl rfl
    | leaseDone done => exact (accounted_handleLeaseDone h done now).checkComplete
    | reject jobId => exact accounted_handleReject h hok now
    | other => exact h
  | dispatch now =>
    have htail : Accounted jobs 0 { s with grants := s.grants.tail } :=
      h.congr rfl rfl rfl rfl rfl rfl
    have hgrant := htail.withRouter (s.coord.router.held_grantCredits p.minerId (s.grants.headD 0))
    exact accounted_drain now hgrant hok
  | take r =>
    have hspawned : Accounted jobs 0 { s with spawned := s.spawned.erase r } :=
      h.congr rfl rfl rfl rfl rfl rfl
    exact accounted_takeResult hspawned r
  | finish v now =>
    refine Accounted.checkComplete (Accounted.record _ ?_)
    change Accounted jobs (0 + {v.result.jobId}) _
    rw [zero_add]
    exact (h.validated hg).congr rfl rfl rfl rfl rfl rfl
  | hangUp => exact h.congr rfl rfl rfl rfl rfl rfl

omit [Crates] in
@[simp] theorem coord_checkLoop (s : DriveRun) : s.checkLoop.coord = s.coord := by
  unfold checkLoop
  split_ifs <;> rfl

omit [Crates] in
@[simp] theorem coord_checkComplete (s : DriveRun) : s.checkComplete.coord = s.coord := by
  unfold checkComplete
  split_ifs <;> rfl

theorem unroutable_next {e : DriveEvent} (h : s.coord.router.unroutable = [])
    (hok : Orderly p s e) : (s.next p e).coord.router.unroutable = [] := by
  cases e with
  | hello caps =>
    rw [next, handshake, coord_checkLoop]
    rfl
  | frame f now =>
    rw [next, coord_checkLoop]
    cases f with
    | capabilities caps =>
      change (if _ then _ else s).coord.router.unroutable = []
      split_ifs
      · rfl
      · exact h
    | result r =>
      change (if _ then s.handleLeaseResult r else _).coord.router.unroutable = []
      obtain ⟨leaseWinners, heq⟩ := s.handleLeaseResult_cases r
      rw [heq]
      split_ifs <;> exact h
    | leaseDone done =>
      rw [handleMessage, coord_checkComplete]
      rcases s.handleLeaseDone_cases done now with ⟨-, heq⟩ | ⟨-, _, _, _, -, heq⟩
      · rw [heq]
        exact h
      · rw [heq]
        exact h
    | ready | jobRequest | reject | other => exact h
  | dispatch now => exact unroutable_drain now h hok
  | take r =>
    rcases takeResult_cases { s with spawned := s.spawned.erase r } r with
      ⟨-, heq⟩ | ⟨-, _, _, _, _, heq⟩
    · rw [next, heq, coord_checkComplete]
      exact h
    · rw [next, heq]
      exact h
  | finish v now =>
    rw [next, coord_checkComplete]
    exact h
  | hangUp => exact h

/-- A run whose report is full has sent `Shutdown`. -/
def Ended (s : DriveRun) : Prop := s.isComplete = true → s.shutdown = true

omit [Crates] in
theorem ended_checkLoop (s : DriveRun) : s.checkLoop.Ended := by
  unfold checkLoop
  split_ifs with hc
  · exact fun _ => rfl
  · exact fun h => absurd h hc

omit [Crates] in
theorem ended_checkComplete (s : DriveRun) : s.checkComplete.Ended := by
  unfold checkComplete
  split_ifs with hc
  · exact fun _ => rfl
  · exact fun h => absurd h hc

omit [Crates] in
theorem ended_drain (now : Nat) {fuel : Nat} (h : s.Ended) : (drain p now fuel s).1.Ended := by
  induction fuel generalizing s with
  | zero => exact h
  | succ fuel ih =>
    rw [drain]
    rcases s.coord.router.nextJob p.minerId with ⟨r, _ | job⟩
    · exact h
    · have hs : ((s.withRouter r).dispatch job now).Ended := h
      exact ih hs

theorem ended_next {e : DriveEvent} (h : s.Ended) : (s.next p e).Ended := by
  cases e with
  | hello | frame => exact ended_checkLoop _
  | dispatch now => exact ended_drain now h
  | take r =>
    rcases takeResult_cases { s with spawned := s.spawned.erase r } r with
      ⟨-, heq⟩ | ⟨-, _, _, _, _, heq⟩
    · rw [next, heq]
      exact ended_checkComplete _
    · rw [next, heq]
      exact h
  | finish v now => exact ended_checkComplete _
  | hangUp => exact h

end

/-! ## The report of a run -/

/-- The rows stand for jobs of the list, one for each at most. A full report has a row for every
job, a drive that has nothing left to do has a full report, and `Shutdown` goes out with it. -/
structure Reconciled (jobs : List Job) (s : DriveRun) : Prop where
  once : ∀ id, (s.rows.map (·.jobId)).count id ≤ (jobs.map (·.jobId)).count id
  listed : ∀ row ∈ s.rows, row.jobId ∈ jobs.map (·.jobId)
  answered : s.isComplete = true →
    ∀ id, (s.rows.map (·.jobId)).count id = (jobs.map (·.jobId)).count id
  complete : s.jobs = [] → (∀ id, s.coord.router.stagedOf id = []) → s.coord.inflight = ∅ →
    s.validating = [] → s.isComplete = true
  notEarly : s.shutdown = true → s.isComplete = true
  notLate : jobs ≠ [] → s.isComplete = true → s.shutdown = true

theorem accounted_init [Crates] (p : DriveParams) {jobs : List Job}
    (h : ∀ job ∈ jobs, job.ising.isSome = true) : Accounted jobs 0 (.init p jobs) where
  ids := by
    change ((jobs : Multiset Job) + 0).map (·.jobId) + 0 + 0 + 0 + 0 = _
    simp only [add_zero, Multiset.map_coe]
  problems := by
    intro job hjob
    change job ∈ (jobs : Multiset Job) + 0 at hjob
    rw [add_zero] at hjob
    exact h job hjob
  solving := fun _ _ hjob => nomatch hjob
  total := rfl
  told := fun hs => nomatch hs

theorem Accounted.rows_le {jobs : List Job} {s : DriveRun} (h : Accounted jobs 0 s) :
    (s.rows.map (·.jobId) : Multiset JobId) ≤ (jobs.map (·.jobId) : Multiset JobId) := by
  rw [← h.ids, add_zero]
  exact Multiset.le_add_left _ _

theorem Accounted.rows_eq {jobs : List Job} {s : DriveRun} (h : Accounted jobs 0 s)
    (hc : s.isComplete = true) :
    (s.rows.map (·.jobId) : Multiset JobId) = (jobs.map (·.jobId) : Multiset JobId) := by
  refine Multiset.eq_of_le_of_card_le h.rows_le ?_
  rw [Multiset.coe_card, Multiset.coe_card, List.length_map, List.length_map, ← h.total]
  exact of_decide_eq_true hc

theorem Accounted.isComplete_of_idle {jobs : List Job} {s : DriveRun} (h : Accounted jobs 0 s)
    (hw : s.waiting = 0) (hi : s.coord.inflight = ∅) (hv : s.validating = []) :
    s.isComplete = true := by
  have hcard := congrArg Multiset.card h.ids
  have hkeys : s.coord.inflight.keys.val = 0 := by rw [hi]; rfl
  rw [DriveRun.ids, hw, hkeys, hv] at hcard
  simp only [Multiset.map_zero, List.map_nil, Multiset.coe_nil, zero_add, add_zero,
    Multiset.coe_card, List.length_map] at hcard
  exact decide_eq_true (by rw [h.total, hcard])

variable [Crates]

/-- A drive reconciles its list in every run in which each rejected job is in flight and each job
that a drain comes to is one the miner can take, under an id not in flight. -/
theorem drive_reconciles (p : DriveParams) {readEntry : String → Except String ListEntryJson}
    {topologySnapshot : Option MiningSnapshot} {deadlineMs : Nat} {lines : List String}
    {jobs : List Job}
    (hlist : ListSource.parse readEntry topologySnapshot deadlineMs 1 lines = .ok jobs)
    {s : DriveRun} (h : ((driveMachine p jobs).restrict (Orderly p)).Reachable s) :
    s.Reconciled jobs := by
  have hshape := ListSource.parse_shape hlist
  have hacc : Accounted jobs 0 s := by
    refine h.invariant (accounted_init p fun job hjob => (hshape job hjob).2) ?_
    exact fun _ _ _ hs ha => accounted_next hs ha.1 ha.2
  have hun : s.coord.router.unroutable = [] := by
    refine h.invariant (I := fun s => s.coord.router.unroutable = []) rfl ?_
    exact fun s e _ hs ha => unroutable_next hs (And.right ha)
  refine ⟨?_, ?_, ?_, ?_, hacc.told, ?_⟩
  · intro id
    exact (Multiset.coe_le.mp hacc.rows_le).count_le id
  · intro row hrow
    exact Multiset.mem_of_le hacc.rows_le (List.mem_map_of_mem hrow)
  · intro hc id
    exact (Multiset.coe_eq_coe.mp (hacc.rows_eq hc)).count_eq id
  · intro hjobs hstaged hin hval
    refine hacc.isComplete_of_idle ?_ hin hval
    rw [waiting, hjobs, Router.held_eq_zero hstaged hun]
    rfl
  · intro hne
    refine h.invariant (I := Ended) ?_ fun _ _ _ hs _ => ended_next hs
    intro hc
    have hlen : jobs.length ≤ 0 := of_decide_eq_true hc
    exact absurd (List.length_eq_zero_iff.mp (Nat.le_zero.mp hlen)) hne

end DriveRun

namespace Sample

def driveParams : DriveParams := ⟨"m", 2, none, none⟩

def readNonce (line : String) : Except String ListEntryJson := .ok ⟨some line, none, none, none⟩

def nonceLine (digit : Char × UInt8) : String := String.ofList (List.replicate 64 digit.1)

def listed (digits : List (Char × UInt8)) : List Job :=
  (digits.zipIdx 1).filterMap fun (digit, lineNo) =>
    buildIsingJobFromNonce snap (Vector.replicate 32 digit.2) lineNo 0

def ones : Char × UInt8 := ('1', 0x11)

def twos : Char × UInt8 := ('2', 0x22)

def lineId (digit : Char × UInt8) : JobId := List.replicate 32 digit.2

def driveCaps : Capabilities := ⟨1, "cpu", "sa", [], 0, 0, none, none, [], [], 1⟩

def driveRun (digits : List (Char × UInt8)) (events : List DriveEvent) : DriveRun :=
  (driveMachine driveParams (listed digits)).run (.init driveParams (listed digits)) events

def rejecting (id : JobId) : List DriveEvent :=
  [.hello driveCaps, .frame .ready 0, .dispatch 0, .frame (.reject id) 0]

def answering : List DriveEvent :=
  let result : DriveResult := ⟨⟨lineId twos, [], 0, [], []⟩, 0, 0⟩
  let taken := rejecting (lineId ones) ++ [.frame (.result result) 0, .take result]
  taken ++ (driveRun [ones, twos] taken).validating.map fun v => .finish v 0

/-- A character that stands for the hex digit of both halves of its byte. -/
structure HexDigit (digit : Char × UInt8) : Prop where
  kept : ListSource.isWhitespace digit.1 = false
  size : digit.1.utf8Size = 1
  byte : ListSource.hexByte digit.1 digit.1 = some digit.2

theorem hexPairs_replicate {c : Char} {b : UInt8} (h : ListSource.hexByte c c = some b) (n : Nat) :
    ListSource.hexPairs (List.replicate (2 * n) c) = .ok (List.replicate n b) := by
  induction n with
  | zero => rfl
  | succ n ih =>
    change ListSource.hexPairs (c :: c :: List.replicate (2 * n) c) = _
    rw [ListSource.hexPairs, h, ih]
    rfl

theorem trim_replicate {c : Char} (h : ListSource.isWhitespace c = false) (n : Nat) :
    ListSource.trim (List.replicate n c) = List.replicate n c := by
  simp [ListSource.trim, h]

theorem hexToBytes_replicate {digit : Char × UInt8} (h : HexDigit digit) (n : Nat) :
    ListSource.hexToBytes (String.ofList (List.replicate (2 * n) digit.1)) =
      .ok (List.replicate n digit.2) := by
  rw [ListSource.hexToBytes, String.toList_ofList, trim_replicate h.kept]
  rw [List.map_replicate, h.size, List.sum_replicate_nat, if_neg (by omega),
    hexPairs_replicate h.byte]

theorem parse_nonceLines {digits : List (Char × UInt8)} (h : ∀ digit ∈ digits, HexDigit digit)
    (lineNo : Nat) :
    ListSource.parse readNonce (some snap) 0 lineNo (digits.map nonceLine) =
      .ok ((digits.zipIdx lineNo).filterMap fun (digit, lineNo) =>
        buildIsingJobFromNonce snap (Vector.replicate 32 digit.2) lineNo 0) := by
  induction digits generalizing lineNo with
  | nil => rfl
  | cons digit digits ih =>
    obtain ⟨hdigit, hrest⟩ := List.forall_mem_cons.mp h
    have hdecode : ListSource.decodeNonceHex (nonceLine digit) =
        .ok (Vector.replicate 32 digit.2) := by
      rw [ListSource.decodeNonceHex, nonceLine, hexToBytes_replicate hdigit 32]
      rfl
    have htrim : ListSource.trim (nonceLine digit).toList = List.replicate 64 digit.1 := by
      rw [nonceLine, String.toList_ofList, trim_replicate hdigit.kept]
    have hentry : buildEntryJob ⟨some (nonceLine digit), none, none, none⟩ lineNo (some snap) 0 =
        (buildIsingJobFromNonce snap (Vector.replicate 32 digit.2) lineNo 0).elim
          (.error (.parse lineNo "cannot draw model from nonce-ref: ")) .ok := by
      simp only [buildEntryJob, hdecode]
      rfl
    have hread : readNonce (String.ofList (List.replicate 64 digit.1)) =
        .ok ⟨some (nonceLine digit), none, none, none⟩ := rfl
    have hline : (List.replicate 64 digit.1).isEmpty = false := rfl
    rw [List.map_cons, ListSource.parse]
    simp only [htrim, hline, hread, Bool.false_eq_true, if_false, Except.mapError, bind,
      Except.bind, hentry, ih hrest]
    rfl

theorem hexDigit_ones : HexDigit ones := ⟨by decide, by decide, by decide⟩
theorem hexDigit_twos : HexDigit twos := ⟨by decide, by decide, by decide⟩

end Sample

open Sample in
/-- The report of a drive over two models whose jobs are rejected and answered. -/
theorem drive_reconciles_answered :
    (driveRun [ones, twos] answering).Reconciled (listed [ones, twos]) ∧
      (driveRun [ones, twos] answering).isComplete = true := by
  have hdigits : ∀ digit ∈ [ones, twos], HexDigit digit := by
    intro digit hdigit
    rcases List.mem_pair.mp hdigit with rfl | rfl
    · exact hexDigit_ones
    · exact hexDigit_twos
  have hlist : ListSource.parse readNonce (some snap) 0 1 ([ones, twos].map nonceLine) =
      .ok (listed [ones, twos]) := parse_nonceLines hdigits 1
  constructor
  · refine DriveRun.drive_reconciles driveParams hlist ?_
    exact Machine.reachable_restrict_run answering (by decide +kernel)
  · decide +kernel

open Sample in
/-- A row for a job that is not in the list ends a drive early, and one nonce on two lines leaves
it without a job and without its last row. -/
theorem drive_miscounts :
    (∀ digits ∈ [[ones], [ones, ones]], ListSource.parse readNonce (some snap) 0 1
        (digits.map nonceLine) = .ok (listed digits)) ∧
      ((driveMachine driveParams (listed [ones])).Reachable (driveRun [ones] (rejecting [0])) ∧
        ¬ (driveRun [ones] (rejecting [0])).Reconciled (listed [ones])) ∧
      (driveMachine driveParams (listed [ones, ones])).Reachable
          (driveRun [ones, ones] (rejecting (lineId ones))) ∧
        ¬ (driveRun [ones, ones] (rejecting (lineId ones))).Reconciled (listed [ones, ones]) := by
  refine ⟨?_, ⟨?_, ?_⟩, ?_, ?_⟩
  · intro digits hdigits
    refine parse_nonceLines (fun digit hdigit => ?_) 1
    have hone : digit = ones := by
      rcases List.mem_pair.mp hdigits with rfl | rfl <;> simpa using hdigit
    rw [hone]
    exact hexDigit_ones
  · exact Machine.reachable_run _ (by decide +kernel)
  · intro h
    have hlisted : ∀ row ∈ (driveRun [ones] (rejecting [0])).rows,
      row.jobId ∈ (listed [ones]).map (·.jobId) := h.listed
    revert hlisted
    decide +kernel
  · exact Machine.reachable_run _ (by decide +kernel)
  · intro h
    have hstaged :
        ∀ id ∈ (driveRun [ones, ones] (rejecting (lineId ones))).coord.router.miners.keys,
          (driveRun [ones, ones] (rejecting (lineId ones))).coord.router.stagedOf id = [] := by
      decide +kernel
    have hc := h.complete (by decide +kernel) (fun id => ?_) (by decide +kernel) (by decide +kernel)
    · revert hc
      decide +kernel
    · by_cases hid : id ∈ (driveRun [ones, ones] (rejecting (lineId ones))).coord.router.miners
      · exact hstaged id (Finmap.mem_keys.mpr hid)
      · exact Router.stagedOf_eq_nil hid

end QuipCoordinator
