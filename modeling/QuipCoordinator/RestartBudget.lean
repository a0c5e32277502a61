import Mathlib.Data.List.TakeWhile
import QuipCoordinator.FoundationSorted
import QuipCoordinator.Supervisors

/-!
# The failure budget over whole histories

A tracker remembers the crashes of its last window and how often it has backed off
since the last clean exit. While time does not run back, the crashes it has dropped
stay outside every later window, so its two counters decide as the whole history
would.
-/

namespace QuipCoordinator

structure ExitEntry where
  exitCode : Int
  nowMs : Nat
  action : RestartAction
deriving DecidableEq

def ExitEntry.crashed (e : ExitEntry) : Bool := restartPolicy e.exitCode == .backoff
def ExitEntry.clean (e : ExitEntry) : Bool := restartPolicy e.exitCode == .onDemand

def ExitEntry.backedOff (e : ExitEntry) : Bool :=
  match e.action with
  | .backoff _ => true
  | _ => false

structure RestartHistory where
  tracker : RestartTracker
  entries : List ExitEntry
deriving DecidableEq

namespace RestartHistory

def new (policy : BackoffPolicy) : RestartHistory := ⟨.new policy, []⟩

def exit (s : RestartHistory) (e : Int × Nat) : RestartHistory :=
  let (tracker, action) := s.tracker.onExit e.1 e.2
  ⟨tracker, ⟨e.1, e.2, action⟩ :: s.entries⟩

def run (policy : BackoffPolicy) (exits : List (Int × Nat)) : RestartHistory :=
  exits.foldl exit (new policy)

def crashTimes (s : RestartHistory) : List Nat := (s.entries.filter (·.crashed)).map (·.nowMs)

/-- The `Backoff` answers since the last clean exit. -/
def streak (s : RestartHistory) : Nat :=
  (s.entries.takeWhile fun e => !e.clean).countP (·.backedOff)

/-- The crashes up to `now` that its window reaches, one at `now` included. -/
def recentCrashes (s : RestartHistory) (windowMs now : Nat) : Nat :=
  s.crashTimes.countP (fun t => now - windowMs ≤ t ∧ t ≤ now) + 1

@[simp] theorem run_concat (policy : BackoffPolicy) (exits : List (Int × Nat)) (e : Int × Nat) :
    run policy (exits ++ [e]) = (run policy exits).exit e := by
  simp [run]

/-- The crashes that the tracker dropped lie before every window from `now` on. -/
structure Tracks (policy : BackoffPolicy) (s : RestartHistory) (now : Nat) : Prop where
  samePolicy : s.tracker.policy = policy
  counter : s.tracker.consecutive = min s.streak (2 ^ 32 - 1)
  sorted : s.tracker.crashes.Pairwise (· ≤ ·)
  past : ∀ t ∈ s.crashTimes, t ≤ now
  dropped : ∃ front, s.crashTimes.reverse = front ++ s.tracker.crashes ∧
    ∀ t ∈ front, t < now - policy.windowMs

theorem tracks_new (policy : BackoffPolicy) : Tracks policy (new policy) 0 where
  samePolicy := rfl
  counter := rfl
  sorted := List.Pairwise.nil
  past := fun _ ht => absurd ht List.not_mem_nil
  dropped := ⟨[], rfl, fun _ ht => absurd ht List.not_mem_nil⟩

variable {policy : BackoffPolicy} {s : RestartHistory} {now : Nat} {code : Int}

theorem Tracks.later (h : Tracks policy s now) {later : Nat} (hle : now ≤ later) :
    Tracks policy s later where
  samePolicy := h.samePolicy
  counter := h.counter
  sorted := h.sorted
  past := fun t ht => (h.past t ht).trans hle
  dropped := by
    obtain ⟨front, heq, hfront⟩ := h.dropped
    refine ⟨front, heq, fun t ht => ?_⟩
    have := hfront t ht
    omega

theorem Tracks.kept (h : Tracks policy s now) :
    s.tracker.crashes.dropWhile (· < now - policy.windowMs) =
      s.crashTimes.reverse.filter (now - policy.windowMs ≤ ·) := by
  obtain ⟨front, heq, hfront⟩ := h.dropped
  have hnone : front.filter (now - policy.windowMs ≤ ·) = [] := by
    refine List.filter_eq_nil_iff.mpr fun t ht => ?_
    have := hfront t ht
    rw [decide_eq_true_eq]
    omega
  rw [heq, List.filter_append, hnone, List.nil_append]
  exact List.dropWhile_lt_eq_filter (f := id) h.sorted _

theorem Tracks.length_kept (h : Tracks policy s now) :
    (s.tracker.crashes.dropWhile (· < now - policy.windowMs) ++ [now]).length =
      s.recentCrashes policy.windowMs now := by
  rw [h.kept, List.length_append, List.length_singleton, recentCrashes,
    ← List.countP_eq_length_filter, List.countP_reverse]
  congr 1
  refine List.countP_congr fun t ht => ?_
  simpa using fun _ => h.past t ht

/-! ## One exit -/

/-- `2^consecutive * base`, saturating and capped. -/
def delay (policy : BackoffPolicy) (consecutive : Nat) : Nat :=
  min policy.maxMs (min (policy.baseMs * 2 ^ min consecutive 16) (2 ^ 64 - 1))

theorem Tracks.exit_crash (h : Tracks policy s now) (hcode : restartPolicy code = .backoff) :
    s.exit (code, now) =
      let crashes := s.tracker.crashes.dropWhile (· < now - policy.windowMs) ++ [now]
      if policy.budget < s.recentCrashes policy.windowMs now then
        ⟨⟨policy, s.tracker.consecutive, crashes⟩, ⟨code, now, .unhealthy⟩ :: s.entries⟩
      else
        ⟨⟨policy, satAdd 32 s.tracker.consecutive 1, crashes⟩,
          ⟨code, now, .backoff (delay policy s.streak)⟩ :: s.entries⟩ := by
  have hlen := h.length_kept
  have hdelay : min s.tracker.consecutive 16 = min s.streak 16 := by
    rw [h.counter]
    omega
  rw [exit, RestartTracker.onExit, hcode]
  simp only [h.samePolicy, hlen, hdelay]
  rw [delay, min_comm policy.maxMs]
  split_ifs <;> rfl

theorem Tracks.exit_other (h : Tracks policy s now) (hcode : restartPolicy code ≠ .backoff) :
    Tracks policy (s.exit (code, now)) now := by
  have htimes : ∀ action, crashTimes ⟨s.tracker, ⟨code, now, action⟩ :: s.entries⟩ =
      s.crashTimes := by
    intro action
    simp [crashTimes, ExitEntry.crashed, hcode]
  rw [exit, RestartTracker.onExit]
  cases hpolicy : restartPolicy code with
  | onDemand =>
    have hstreak : streak ⟨s.tracker, ⟨code, now, .onDemand⟩ :: s.entries⟩ = 0 := by
      simp [streak, ExitEntry.clean, hpolicy]
    refine ⟨h.samePolicy, ?_, h.sorted, ?_, ?_⟩
    · exact (congrArg (min · (2 ^ 32 - 1)) hstreak).symm
    · exact fun t ht => h.past t (htimes .onDemand ▸ ht)
    · obtain ⟨front, heq, hfront⟩ := h.dropped
      exact ⟨front, (congrArg List.reverse (htimes _)).trans heq, hfront⟩
  | never =>
    have hstreak : streak ⟨s.tracker, ⟨code, now, .never⟩ :: s.entries⟩ = s.streak := by
      simp [streak, ExitEntry.clean, ExitEntry.backedOff, hpolicy]
    refine ⟨h.samePolicy, ?_, h.sorted, ?_, ?_⟩
    · exact h.counter.trans (congrArg (min · (2 ^ 32 - 1)) hstreak).symm
    · exact fun t ht => h.past t (htimes .never ▸ ht)
    · obtain ⟨front, heq, hfront⟩ := h.dropped
      exact ⟨front, (congrArg List.reverse (htimes _)).trans heq, hfront⟩
  | backoff => exact absurd hpolicy hcode

theorem Tracks.of_crash (h : Tracks policy s now) (hcode : restartPolicy code = .backoff)
    {consecutive : Nat} {action : RestartAction}
    (hcounter : consecutive =
      min (streak ⟨s.tracker, ⟨code, now, action⟩ :: s.entries⟩) (2 ^ 32 - 1)) :
    Tracks policy
      ⟨⟨policy, consecutive, s.tracker.crashes.dropWhile (· < now - policy.windowMs) ++ [now]⟩,
        ⟨code, now, action⟩ :: s.entries⟩ now := by
  have htimes : crashTimes ⟨s.tracker, ⟨code, now, action⟩ :: s.entries⟩ = now :: s.crashTimes := by
    simp [crashTimes, ExitEntry.crashed, hcode]
  obtain ⟨front, heq, hfront⟩ := h.dropped
  have hsplit := List.takeWhile_append_dropWhile (p := (· < now - policy.windowMs))
    (l := s.tracker.crashes)
  have hmem : ∀ t ∈ s.tracker.crashes, t ≤ now := by
    intro t ht
    refine h.past t (List.mem_reverse.mp ?_)
    rw [heq]
    exact List.mem_append_right front ht
  refine ⟨rfl, hcounter, ?_, ?_, ?_⟩
  · refine List.pairwise_append.mpr ⟨h.sorted.sublist (List.dropWhile_sublist _),
      List.pairwise_singleton _ _, ?_⟩
    intro t ht t' ht'
    rw [List.mem_singleton.mp ht']
    exact hmem t ((List.dropWhile_sublist _).subset ht)
  · intro t ht
    rcases List.mem_cons.mp (htimes ▸ ht) with rfl | ht
    · exact le_rfl
    · exact h.past t ht
  · refine ⟨front ++ s.tracker.crashes.takeWhile (· < now - policy.windowMs), ?_, ?_⟩
    · refine (congrArg List.reverse htimes).trans ?_
      rw [List.reverse_cons, heq, List.append_assoc front (List.takeWhile _ _),
        ← List.append_assoc (List.takeWhile _ _), hsplit, List.append_assoc]
    · intro t ht
      rcases List.mem_append.mp ht with ht | ht
      · exact hfront t ht
      · have hlt := List.mem_takeWhile_imp ht
        exact of_decide_eq_true hlt

theorem Tracks.exit (h : Tracks policy s now) (code : Int) :
    Tracks policy (s.exit (code, now)) now := by
  by_cases hcode : restartPolicy code = .backoff
  · rw [h.exit_crash hcode]
    dsimp only
    split_ifs
    · apply h.of_crash hcode
      rw [h.counter]
      simp [streak, ExitEntry.clean, ExitEntry.backedOff, hcode]
    · apply h.of_crash hcode
      have hstreak : streak ⟨s.tracker, ⟨code, now, .backoff (delay policy s.streak)⟩ ::
          s.entries⟩ = s.streak + 1 := by
        simp [streak, ExitEntry.clean, ExitEntry.backedOff, hcode]
      rw [hstreak, h.counter, satAdd]
      omega
  · exact h.exit_other hcode

theorem tracks_run (policy : BackoffPolicy) {exits : List (Int × Nat)} {now : Nat}
    (hsorted : exits.Pairwise fun a b => a.2 ≤ b.2) (hnow : ∀ e ∈ exits, e.2 ≤ now) :
    Tracks policy (run policy exits) now := by
  induction exits using List.reverseRecOn generalizing now with
  | nil => exact (tracks_new policy).later (Nat.zero_le now)
  | append_singleton exits e ih =>
    obtain ⟨hrest, -, hlast⟩ := List.pairwise_append.mp hsorted
    rw [run_concat]
    have hbefore : ∀ e' ∈ exits, e'.2 ≤ e.2 :=
      fun e' he' => hlast e' he' e (List.mem_singleton_self e)
    have hexit := (ih hrest hbefore).exit e.1
    exact hexit.later (hnow e (List.mem_append_right _ (List.mem_singleton_self e)))

structure Answers (policy : BackoffPolicy) (s : RestartHistory) (code : Int) (now : Nat) : Prop where
  unhealthy : restartPolicy code = .backoff →
    ((s.tracker.onExit code now).2 = .unhealthy ↔
      policy.budget < s.recentCrashes policy.windowMs now)
  backoff : restartPolicy code = .backoff → (s.tracker.onExit code now).2 ≠ .unhealthy →
    (s.tracker.onExit code now).2 = .backoff (delay policy s.streak)
  others : restartPolicy code ≠ .backoff →
    (s.tracker.onExit code now).1.crashes = s.tracker.crashes

theorem Tracks.answers (h : Tracks policy s now) (code : Int) : Answers policy s code now := by
  have hanswer : restartPolicy code = .backoff → (s.tracker.onExit code now).2 =
      if policy.budget < s.recentCrashes policy.windowMs now then .unhealthy
      else .backoff (delay policy s.streak) := by
    intro hcode
    have hhead := congrArg (fun s => s.entries.head?.map (·.action)) (h.exit_crash hcode)
    refine Option.some.inj (Eq.trans hhead ?_)
    dsimp only
    split_ifs <;> rfl
  constructor
  · intro hcode
    rw [hanswer hcode]
    split_ifs with hover
    · exact iff_of_true rfl hover
    · exact iff_of_false not_false hover
  · intro hcode hne
    rw [hanswer hcode] at hne ⊢
    split_ifs at hne ⊢
    · exact absurd rfl hne
    · rfl
  · intro hcode
    rw [RestartTracker.onExit]
    cases hpolicy : restartPolicy code with
    | onDemand => rfl
    | never => rfl
    | backoff => exact absurd hpolicy hcode

end RestartHistory

/-- Every exit of every history whose time does not run back. -/
theorem restart_answers_of_history (policy : BackoffPolicy) (exits : List (Int × Nat)) (code : Int)
    (now : Nat) (hsorted : (exits ++ [(code, now)]).Pairwise fun a b => a.2 ≤ b.2) :
    RestartHistory.Answers policy (.run policy exits) code now := by
  obtain ⟨hrest, -, hlast⟩ := List.pairwise_append.mp hsorted
  refine (RestartHistory.tracks_run policy hrest fun e he => ?_).answers code
  exact hlast e he _ (List.mem_singleton_self _)

/-- Three crashes inside a window with a budget of two. -/
theorem restart_answers_of_third_crash :
    ((RestartHistory.run ⟨500, 30000, 2, 60000⟩ [(1, 10), (0, 20), (1, 30)]).tracker.onExit 1
      60000).2 = .unhealthy := by
  refine (restart_answers_of_history ⟨500, 30000, 2, 60000⟩ [(1, 10), (0, 20), (1, 30)] 1 60000
    (by decide)).unhealthy rfl |>.mpr ?_
  decide

end QuipCoordinator
