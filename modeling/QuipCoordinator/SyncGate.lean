import QuipCoordinator.Confirmations
import QuipCoordinator.FoundationLog
import QuipCoordinator.Funding

/-!
# Waiting for the validator to sync

The gate polls the node until it is clear. Before any syncing answer one clear poll
is enough, after one it takes two. An error counts towards the time without an
answer and leaves the clear polls counted, so an error between two clear polls does
not part them. `Waiting` says what the state of the gate knows of its polls.
-/

namespace QuipCoordinator

def pollInterval : Nat := seconds 5
def syncedConfirmations : Nat := 2
def unreachableGrace : Nat := seconds 60

structure SyncStatus where
  isSyncing : Bool
deriving DecidableEq

abbrev SyncPoll := Except ChainError SyncStatus

inductive SyncOutcome
  | synced
  | unknown (error : String)
deriving DecidableEq

structure SyncWait where
  unreachableFor : Nat
  sawSyncing : Bool
  clearPolls : Nat
deriving DecidableEq

inductive SyncStep
  | wait (s : SyncWait)
  | done (o : SyncOutcome)

namespace SyncWait

def new : SyncWait := ⟨0, false, 0⟩

def poll (s : SyncWait) : SyncPoll → SyncStep
  | .ok status =>
    let s := { s with unreachableFor := 0 }
    if status.isSyncing then .wait { s with sawSyncing := true, clearPolls := 0 }
    else
      let clearPolls := satAdd 32 s.clearPolls 1
      if ¬s.sawSyncing ∨ syncedConfirmations ≤ clearPolls then .done .synced
      else .wait { s with clearPolls := clearPolls }
  | .error e =>
    let unreachableFor := s.unreachableFor + pollInterval
    if unreachableGrace < unreachableFor then .done (.unknown e.display)
    else .wait { s with unreachableFor := unreachableFor }

/-- The polls of `wait_until_synced`, up to the first that ends it. -/
def waitUntilSynced (s : SyncWait) : List SyncPoll → SyncStep
  | [] => .wait s
  | p :: polls =>
    match s.poll p with
    | .wait s => waitUntilSynced s polls
    | .done o => .done o

end SyncWait

namespace SyncPoll

def failed : SyncPoll → Bool
  | .error _ => true
  | .ok _ => false

def syncing : SyncPoll → Bool
  | .ok status => status.isSyncing
  | .error _ => false

def clear : SyncPoll → Bool
  | .ok status => !status.isSyncing
  | .error _ => false

theorem not_failed_of_clear {p : SyncPoll} (h : p.clear = true) : p.failed = false := by
  cases p with
  | error e => exact nomatch h
  | ok status => rfl

theorem not_failed_of_syncing {p : SyncPoll} (h : p.syncing = true) : p.failed = false := by
  cases p with
  | error e => exact nomatch h
  | ok status => rfl

theorem not_clear_of_syncing {p : SyncPoll} (h : p.syncing = true) : p.clear = false := by
  cases p with
  | error e => rfl
  | ok status =>
    change status.isSyncing = true at h
    simp [clear, h]

end SyncPoll

/-- Errors stand between two clear polls, and a syncing poll before them. -/
def Interrupted (polls : List SyncPoll) : Prop :=
  ∃ before c errs c' after, polls = before ++ c :: errs ++ c' :: after ∧
    (∃ p ∈ before, p.syncing = true) ∧ c.clear = true ∧ c'.clear = true ∧ errs ≠ [] ∧
    ∀ p ∈ errs, p.failed = true

structure Waiting (polls : List SyncPoll) (s : SyncWait) : Prop where
  outage : ∃ before errs, polls = before ++ errs ∧ (∀ p ∈ errs, p.failed = true) ∧
    s.unreachableFor = errs.length * pollInterval
  unseen : s.sawSyncing = false → ∀ p ∈ polls, p.failed = true
  seen : s.sawSyncing = true → ∃ before p errs, polls = before ++ p :: errs ∧
    (∀ e ∈ errs, e.failed = true) ∧
    (s.clearPolls = 0 ∧ p.syncing = true ∨
      s.clearPolls = 1 ∧ p.clear = true ∧ ∃ q ∈ before, q.syncing = true)
  unbroken : ¬Interrupted polls

theorem waiting_new : Waiting [] .new where
  outage := ⟨[], [], rfl, fun _ h => absurd h List.not_mem_nil, rfl⟩
  unseen := fun _ _ h => absurd h List.not_mem_nil
  seen := fun h => nomatch h
  unbroken := by
    rintro ⟨before, c, errs, c', after, heq, -⟩
    simp at heq

/-- A poll completes an interruption only as its second clear poll. -/
theorem interrupted_concat {polls : List SyncPoll} {p : SyncPoll} (h : Interrupted (polls ++ [p])) :
    Interrupted polls ∨ p.clear = true ∧ ∃ before c errs, polls = before ++ c :: errs ∧
      (∃ q ∈ before, q.syncing = true) ∧ c.clear = true ∧ errs ≠ [] ∧
      ∀ e ∈ errs, e.failed = true := by
  obtain ⟨before, c, errs, c', after, heq, hsaw, hc, hc', hne, herrs⟩ := h
  induction after using List.reverseRecOn with
  | nil =>
    obtain ⟨hfront, hlast⟩ := List.append_inj' heq rfl
    obtain rfl := List.singleton_inj.mp hlast
    exact Or.inr ⟨hc', before, c, errs, hfront, hsaw, hc, hne, herrs⟩
  | append_singleton after p' _ =>
    rw [← List.cons_append, ← List.append_assoc] at heq
    obtain ⟨hfront, -⟩ := List.append_inj' heq rfl
    exact Or.inl ⟨before, c, errs, c', after, hfront, hsaw, hc, hc', hne, herrs⟩

theorem unbroken_of_not_clear {polls : List SyncPoll} {p : SyncPoll} (h : ¬Interrupted polls)
    (hp : p.clear = false) : ¬Interrupted (polls ++ [p]) := by
  intro hbroken
  rcases interrupted_concat hbroken with hold | ⟨hclear, -⟩
  · exact h hold
  · rw [hp] at hclear
    exact nomatch hclear

section
variable {polls : List SyncPoll} {s s' : SyncWait} {p : SyncPoll}

theorem Waiting.error (h : Waiting polls s) (hp : p.failed = true) :
    Waiting (polls ++ [p]) { s with unreachableFor := s.unreachableFor + pollInterval } where
  outage := by
    obtain ⟨before, errs, heq, herrs, hfor⟩ := h.outage
    refine ⟨before, errs ++ [p], by rw [heq, List.append_assoc], ?_, ?_⟩
    · exact List.forall_mem_append.mpr ⟨herrs, List.forall_mem_singleton.mpr hp⟩
    · rw [hfor, List.length_append, List.length_singleton, Nat.succ_mul]
  unseen := by
    intro hsaw
    exact List.forall_mem_append.mpr ⟨h.unseen hsaw, List.forall_mem_singleton.mpr hp⟩
  seen := by
    intro hsaw
    obtain ⟨before, q, errs, heq, herrs, hq⟩ := h.seen hsaw
    refine ⟨before, q, errs ++ [p], by rw [heq, List.append_assoc, List.cons_append], ?_, hq⟩
    exact List.forall_mem_append.mpr ⟨herrs, List.forall_mem_singleton.mpr hp⟩
  unbroken := by
    refine unbroken_of_not_clear h.unbroken ?_
    cases p with
    | error e => rfl
    | ok status => exact nomatch hp

theorem Waiting.syncing (h : Waiting polls s) (hp : p.syncing = true) :
    Waiting (polls ++ [p]) ⟨0, true, 0⟩ where
  outage := ⟨polls ++ [p], [], (List.append_nil _).symm, fun _ he => absurd he List.not_mem_nil,
    (Nat.zero_mul _).symm⟩
  unseen := fun hsaw => nomatch hsaw
  seen := fun _ => ⟨polls, p, [], rfl, fun _ he => absurd he List.not_mem_nil, Or.inl ⟨rfl, hp⟩⟩
  unbroken := unbroken_of_not_clear h.unbroken (SyncPoll.not_clear_of_syncing hp)

/-- The first clear poll after a syncing one is counted and not believed. -/
theorem Waiting.firstClear (h : Waiting polls s) (hsaw : s.sawSyncing = true)
    (hcount : s.clearPolls = 0) (hp : p.clear = true) : Waiting (polls ++ [p]) ⟨0, true, 1⟩ := by
  obtain ⟨before, q, errs, heq, herrs, hq⟩ := h.seen hsaw
  have hsync : q.syncing = true := by
    rcases hq with ⟨-, hq⟩ | ⟨hone, -⟩
    · exact hq
    · rw [hcount] at hone
      exact nomatch hone
  refine ⟨⟨polls ++ [p], [], (List.append_nil _).symm, fun _ he => absurd he List.not_mem_nil,
    (Nat.zero_mul _).symm⟩, fun hsaw => Bool.noConfusion hsaw, fun _ => ?_, ?_⟩
  · refine ⟨polls, p, [], rfl, fun _ he => absurd he List.not_mem_nil, Or.inr ⟨rfl, hp, q, ?_, hsync⟩⟩
    rw [heq]
    exact List.mem_append_right _ List.mem_cons_self
  · intro hbroken
    rcases interrupted_concat hbroken with hold | ⟨-, before', c, errs', heq', -, hc, -, herrs'⟩
    · exact h.unbroken hold
    · -- the last answer is the syncing poll, so it is not a clear one
      obtain ⟨-, hqc, -⟩ := List.split_last_unique (heq.symm.trans heq')
        (SyncPoll.not_failed_of_syncing hsync) (SyncPoll.not_failed_of_clear hc) herrs herrs'
      have hclear := SyncPoll.not_clear_of_syncing hsync
      rw [hqc, hc] at hclear
      exact nomatch hclear

theorem Waiting.poll (h : Waiting polls s) (hpoll : s.poll p = .wait s') :
    Waiting (polls ++ [p]) s' := by
  cases p with
  | error e =>
    simp only [SyncWait.poll] at hpoll
    split_ifs at hpoll
    cases hpoll
    exact h.error rfl
  | ok status =>
    simp only [SyncWait.poll] at hpoll
    split_ifs at hpoll with hsync hdone
    · cases hpoll
      exact h.syncing hsync
    · cases hpoll
      rw [not_or, not_not, syncedConfirmations, satAdd] at hdone
      obtain ⟨hsaw, hlt⟩ := hdone
      have hzero : s.clearPolls = 0 := by omega
      have hfirst := h.firstClear (p := .ok status) hsaw hzero (by simp [SyncPoll.clear, hsync])
      rw [hsaw, hzero]
      exact hfirst

theorem waiting_of_run (h : SyncWait.waitUntilSynced .new polls = .wait s) : Waiting polls s := by
  have hgen : ∀ (rest before : List SyncPoll) (s₀ : SyncWait), Waiting before s₀ →
      s₀.waitUntilSynced rest = .wait s → Waiting (before ++ rest) s := by
    intro rest
    induction rest with
    | nil =>
      intro before s₀ hw heq
      cases heq
      rwa [List.append_nil]
    | cons p rest ih =>
      intro before s₀ hw heq
      rw [SyncWait.waitUntilSynced] at heq
      rcases hpoll : s₀.poll p with s₁ | o
      · rw [hpoll] at heq
        have hnext := ih (before ++ [p]) s₁ (hw.poll hpoll) heq
        rwa [List.append_assoc, List.singleton_append] at hnext
      · rw [hpoll] at heq
        exact nomatch heq
  exact hgen polls [] .new waiting_new h

theorem poll_synced (h : s.poll p = .done .synced) :
    p.clear = true ∧ (s.sawSyncing = false ∨ syncedConfirmations ≤ satAdd 32 s.clearPolls 1) := by
  cases p with
  | error e =>
    simp only [SyncWait.poll] at h
    split_ifs at h
    cases h
  | ok status =>
    simp only [SyncWait.poll] at h
    split_ifs at h with hsync hdone
    exact ⟨by simp [SyncPoll.clear, hsync], hdone.imp_left Bool.eq_false_of_not_eq_true⟩

theorem poll_unknown {msg : String} (h : s.poll p = .done (.unknown msg)) :
    p.failed = true ∧ unreachableGrace < s.unreachableFor + pollInterval := by
  cases p with
  | error e =>
    simp only [SyncWait.poll] at h
    split_ifs at h with hgrace
    exact ⟨rfl, hgrace⟩
  | ok status =>
    simp only [SyncWait.poll] at h
    split_ifs at h
    cases h

end

/-! ## The gate -/

/-- The gate reads the polls `front` and then returns on `last`. -/
def Returned (front : List SyncPoll) (last : SyncPoll) (o : SyncOutcome) : Prop :=
  ∃ s, SyncWait.waitUntilSynced .new front = .wait s ∧ s.poll last = .done o

structure GateLaw (front : List SyncPoll) (last : SyncPoll) (o : SyncOutcome) : Prop where
  confirmed : o = .synced → (∃ p ∈ front ++ [last], p.syncing = true) →
    ∃ before lasts, front ++ [last] = before ++ lasts ∧ lasts.length = syncedConfirmations ∧
      ∀ p ∈ lasts, p.clear = true
  firstClear : (∀ p ∈ front, p.syncing = false) →
    (∀ p ∈ front, p.clear = false) ∧ (last.clear = true → o = .synced)
  unreachable : ∀ msg, o = .unknown msg → ∃ before errs, front ++ [last] = before ++ errs ∧
    (∀ p ∈ errs, p.failed = true) ∧ unreachableGrace < errs.length * pollInterval

section
variable {front : List SyncPoll} {last p : SyncPoll} {o : SyncOutcome} {s : SyncWait}

theorem Waiting.unsynced (h : Waiting front s) (hno : ∀ p ∈ front, p.syncing = false) :
    s.sawSyncing = false ∧ ∀ p ∈ front, p.clear = false := by
  have hsaw : s.sawSyncing = false := by
    by_contra hsaw
    obtain ⟨before, q, errs, rfl, -, ⟨-, hq⟩ | ⟨-, -, q', hq', hsync⟩⟩ :=
      h.seen (Bool.eq_true_of_not_eq_false hsaw)
    · exact Bool.false_ne_true ((hno q (by simp)).symm.trans hq)
    · exact Bool.false_ne_true ((hno q' (List.mem_append_left _ hq')).symm.trans hsync)
  refine ⟨hsaw, fun p hp => ?_⟩
  have hfailed := h.unseen hsaw p hp
  cases p with
  | error e => rfl
  | ok status => exact nomatch hfailed

theorem poll_clear_unsynced (hsaw : s.sawSyncing = false) (hp : p.clear = true) :
    s.poll p = .done .synced := by
  cases p with
  | error e => exact nomatch hp
  | ok status =>
    have hsync : status.isSyncing = false := by simpa [SyncPoll.clear] using hp
    simp [SyncWait.poll, hsync, hsaw]

theorem Waiting.synced (h : Waiting front s) (hsaw : s.sawSyncing = true)
    (hpoll : s.poll last = .done .synced) :
    ∃ before c errs, front = before ++ c :: errs ∧ c.clear = true ∧ last.clear = true ∧
      (∃ q ∈ before, q.syncing = true) ∧ ∀ e ∈ errs, e.failed = true := by
  obtain ⟨hclear, hcount⟩ := poll_synced hpoll
  obtain ⟨before, c, errs, heq, herrs, ⟨hzero, -⟩ | ⟨-, hc, hbefore⟩⟩ := h.seen hsaw
  · rw [hsaw, hzero] at hcount
    exact absurd hcount (by decide)
  · exact ⟨before, c, errs, heq, hc, hclear, hbefore, herrs⟩

theorem confirmed_iff (h : Waiting front s) (hpoll : s.poll last = .done .synced)
    (hseen : ∃ p ∈ front ++ [last], p.syncing = true) :
    (∃ before lasts, front ++ [last] = before ++ lasts ∧ lasts.length = syncedConfirmations ∧
      ∀ p ∈ lasts, p.clear = true) ↔ ¬Interrupted (front ++ [last]) := by
  have hlast := (poll_synced hpoll).1
  have hsaw : s.sawSyncing = true := by
    by_contra hsaw
    have hfailed := h.unseen (Bool.eq_false_of_not_eq_true hsaw)
    obtain ⟨p, hp, hsync⟩ := hseen
    rcases List.mem_append.mp hp with hp | hp
    · exact Bool.false_ne_true ((SyncPoll.not_failed_of_syncing hsync).symm.trans (hfailed p hp))
    · rw [List.mem_singleton.mp hp] at hsync
      exact Bool.false_ne_true ((SyncPoll.not_clear_of_syncing hsync).symm.trans hlast)
  obtain ⟨before, c, errs, heq, hc, -, hbefore, herrs⟩ := h.synced hsaw hpoll
  constructor
  · rintro ⟨before', lasts, hsplit, hlen, hclears⟩ hbroken
    rcases interrupted_concat hbroken with hold | ⟨-, b, c', errs', heq', -, -, hne, herrs'⟩
    · exact h.unbroken hold
    · -- two clear polls at the end leave no room for the errors before the last one
      obtain ⟨a, b', rfl⟩ := List.length_eq_two.mp hlen
      have hfront : front = before' ++ [a] := by
        have happ : front ++ [last] = (before' ++ [a]) ++ [b'] := by rw [hsplit]; simp
        exact (List.append_inj' happ rfl).1
      have hafail := herrs' _ (List.getLast_mem hne)
      have haeq : errs'.getLast hne = a := by
        have hl := congrArg List.getLast? (heq'.symm.trans hfront)
        simpa [List.getLast?_append, List.getLast?_cons, List.getLast?_eq_some_getLast hne] using hl
      rw [haeq, SyncPoll.not_failed_of_clear (hclears a (by simp))] at hafail
      exact nomatch hafail
  · intro hclean
    rcases List.eq_nil_or_concat errs with rfl | ⟨errs', e, rfl⟩
    · refine ⟨before, [c, last], by rw [heq]; simp, rfl, ?_⟩
      simp [hc, hlast]
    · refine absurd ⟨before, c, errs'.concat e, last, [], by rw [heq], hbefore, hc, hlast, ?_,
        herrs⟩ hclean
      simp

end

/-- The gate keeps its promises exactly when no error parts the two clear polls. -/
theorem sync_gate_iff {front : List SyncPoll} {s : SyncWait}
    (hrun : SyncWait.waitUntilSynced .new front = .wait s) :
    ((∀ p ∈ front, p.syncing = false) →
        (∀ p ∈ front, p.clear = false) ∧ ∀ p, p.clear = true → s.poll p = .done .synced) ∧
      ∀ last o, s.poll last = .done o →
        (GateLaw front last o ↔ ¬Interrupted (front ++ [last])) := by
  have hwait := waiting_of_run hrun
  constructor
  · intro hno
    obtain ⟨hsaw, hclear⟩ := hwait.unsynced hno
    exact ⟨hclear, fun p hp => poll_clear_unsynced hsaw hp⟩
  · intro last o hpoll
    have hrest : (∀ p ∈ front, p.syncing = false) →
        (∀ p ∈ front, p.clear = false) ∧ (last.clear = true → o = .synced) := by
      intro hno
      obtain ⟨hsaw, hclear⟩ := hwait.unsynced hno
      refine ⟨hclear, fun hlast => ?_⟩
      have hdone := poll_clear_unsynced hsaw hlast
      rw [hpoll] at hdone
      injection hdone
    have hunreachable : ∀ msg, o = .unknown msg → ∃ before errs, front ++ [last] = before ++ errs ∧
        (∀ p ∈ errs, p.failed = true) ∧ unreachableGrace < errs.length * pollInterval := by
      rintro msg rfl
      obtain ⟨hfail, hgrace⟩ := poll_unknown hpoll
      obtain ⟨before, errs, heq, herrs, hfor⟩ := (hwait.error hfail).outage
      exact ⟨before, errs, heq, herrs, hfor ▸ hgrace⟩
    constructor
    · intro hlaw hbroken
      cases o with
      | synced =>
        have hseen : ∃ p ∈ front ++ [last], p.syncing = true := by
          obtain ⟨before, c, errs, c', after, heq, ⟨q, hq, hsync⟩, -⟩ := hbroken
          refine ⟨q, ?_, hsync⟩
          rw [heq, List.append_assoc]
          exact List.mem_append_left _ hq
        exact (confirmed_iff hwait hpoll hseen).mp (hlaw.confirmed rfl hseen) hbroken
      | unknown msg =>
        -- the last poll failed, so no interruption ends there
        rcases interrupted_concat hbroken with hold | ⟨hclear, -⟩
        · exact hwait.unbroken hold
        · have hfail := (poll_unknown hpoll).1
          rw [SyncPoll.not_failed_of_clear hclear] at hfail
          exact nomatch hfail
    · intro hclean
      refine ⟨?_, hrest, hunreachable⟩
      rintro rfl hseen
      exact (confirmed_iff hwait hpoll hseen).mpr hclean

namespace Sample

def syncingPoll : SyncPoll := .ok ⟨true⟩
def clearPoll : SyncPoll := .ok ⟨false⟩
def failedPoll : SyncPoll := .error (.unavailable "timeout")

end Sample

open Sample in
/-- Two clear polls with an error between them open the gate. -/
theorem sync_gate_opens_over_error :
    Returned [syncingPoll, clearPoll, failedPoll] clearPoll .synced ∧
      ¬GateLaw [syncingPoll, clearPoll, failedPoll] clearPoll .synced := by
  refine ⟨⟨_, rfl, rfl⟩, fun hlaw => ?_⟩
  obtain ⟨before, lasts, heq, hlen, hclear⟩ :=
    hlaw.confirmed rfl ⟨syncingPoll, by simp, rfl⟩
  obtain ⟨a, b, rfl⟩ := List.length_eq_two.mp hlen
  have hsplit : [syncingPoll, clearPoll] ++ [failedPoll, clearPoll] = before ++ [a, b] := heq
  obtain ⟨-, hlasts⟩ := List.append_inj' hsplit rfl
  have ha : a = failedPoll := (List.cons.inj hlasts).1.symm
  exact Bool.false_ne_true ((congrArg SyncPoll.clear ha).symm.trans (hclear a (by simp)))

open Sample in
theorem sync_gate_iff_two_clear :
    GateLaw [syncingPoll, clearPoll] clearPoll .synced := by
  have hrun : SyncWait.waitUntilSynced .new [syncingPoll, clearPoll] =
      .wait ⟨0, true, 1⟩ := rfl
  refine ((sync_gate_iff hrun).2 clearPoll .synced rfl).mpr ?_
  rintro ⟨before, c, errs, c', after, heq, ⟨q, hq, -⟩, -, -, hne, -⟩
  have hlen := congrArg List.length heq
  have hbefore := List.length_pos_of_mem hq
  have herrs := List.length_pos_iff.mpr hne
  simp only [List.length_append, List.length_cons, List.length_nil] at hlen
  omega

end QuipCoordinator
