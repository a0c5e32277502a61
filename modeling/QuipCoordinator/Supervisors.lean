import QuipCoordinator.Placements
import QuipCoordinator.Wakeups

/-!
# The supervisors

One supervisor a miner spawns the child, waits for its exit, returns its jobs to
the router and decides from the exit code whether to spawn again: a clean exit
after a pause, a crash after a backoff and within a failure budget, the exits of
an operator error never. A spawn that fails ends the supervisor too. The router
keeps every miner it has registered, and picks the least id that is capable, so it
also picks miners whose supervisor has given up. `routed` records the jobs the
router placed and that are still where it placed them.
-/

namespace QuipCoordinator

inductive Restart
  | onDemand
  | never
  | backoff
deriving DecidableEq

def restartPolicy (exitCode : Int) : Restart :=
  if exitCode = 0 then .onDemand
  else if exitCode ∈ [2, 64, 69, 77] then .never
  else .backoff

inductive RestartAction
  | onDemand
  | never
  | backoff (delayMs : Nat)
  | unhealthy
deriving DecidableEq

structure BackoffPolicy where
  baseMs : Nat
  maxMs : Nat
  budget : Nat
  windowMs : Nat
deriving DecidableEq

structure RestartTracker where
  policy : BackoffPolicy
  consecutive : Nat
  crashes : List Nat
deriving DecidableEq

namespace RestartTracker

def new (policy : BackoffPolicy) : RestartTracker := ⟨policy, 0, []⟩

def onExit (t : RestartTracker) (exitCode : Int) (nowMs : Nat) : RestartTracker × RestartAction :=
  match restartPolicy exitCode with
  | .onDemand => ({ t with consecutive := 0 }, .onDemand)
  | .never => (t, .never)
  | .backoff =>
    let cutoff := nowMs - t.policy.windowMs
    let crashes := t.crashes.dropWhile (· < cutoff) ++ [nowMs]
    if t.policy.budget < crashes.length then ({ t with crashes := crashes }, .unhealthy)
    else
      let delay := min (min (t.policy.baseMs * 2 ^ min t.consecutive 16) (2 ^ 64 - 1)) t.policy.maxMs
      ({ t with crashes := crashes, consecutive := satAdd 32 t.consecutive 1 }, .backoff delay)

end RestartTracker

inductive Watch
  | spawning
  | running
  | waiting
  | gaveUp
  | stopped
deriving DecidableEq

structure Supervisor where
  tracker : RestartTracker
  watch : Watch
deriving DecidableEq

def RestartAction.watch : RestartAction → Watch
  | .onDemand | .backoff _ => .waiting
  | .never | .unhealthy => .gaveUp

namespace Supervisor

def superviseMiner (policy : BackoffPolicy) : Supervisor := ⟨.new policy, .spawning⟩

def onExit (s : Supervisor) (exitCode : Int) (nowMs : Nat) : Supervisor :=
  let (tracker, action) := s.tracker.onExit exitCode nowMs
  ⟨tracker, action.watch⟩

end Supervisor

structure Supervision where
  supervisors : Table MinerId Supervisor
  routed : List (MinerId × Job)
deriving DecidableEq

inductive SupervisionEvent
  | start (minerId : MinerId) (policy : BackoffPolicy)
  | spawned (minerId : MinerId)
  | spawnFailed (minerId : MinerId)
  | exited (minerId : MinerId) (exitCode : Int) (nowMs : Nat) (owned : List JobId)
  | slept (minerId : MinerId)
  | stopped (minerId : MinerId)
  | channel (e : ChannelEvent)
deriving DecidableEq

def SupervisionEvent.failedSpawn : SupervisionEvent → Option MinerId
  | .spawnFailed minerId => some minerId
  | _ => none

def ChannelEvent.isChildExit : ChannelEvent → Bool
  | .childExit _ _ => true
  | _ => false

section
variable [Crates]

namespace Supervision

omit [Crates] in
def In (s : Supervision) (minerId : MinerId) (watch : Watch) : Prop :=
  (s.supervisors.lookup minerId).map (·.watch) = some watch

omit [Crates] in
instance (s : Supervision) (minerId : MinerId) (watch : Watch) : Decidable (s.In minerId watch) :=
  inferInstanceAs (Decidable (_ = _))

omit [Crates] in
def Guard (s : Supervision) : SupervisionEvent → Prop
  | .start minerId _ => minerId ∉ s.supervisors
  | .spawned minerId | .spawnFailed minerId => s.In minerId .spawning
  | .exited minerId _ _ _ => s.In minerId .running
  | .slept minerId => s.In minerId .waiting
  | .stopped minerId => s.In minerId .running ∨ s.In minerId .waiting
  | .channel e => e.isChildExit = false

omit [Crates] in
instance (s : Supervision) : (e : SupervisionEvent) → Decidable (s.Guard e)
  | .start _ _ => inferInstanceAs (Decidable (¬ _))
  | .spawned _ | .spawnFailed _ | .exited _ _ _ _ | .slept _ => inferInstanceAs (Decidable (_ = _))
  | .stopped _ => inferInstanceAs (Decidable (_ ∨ _))
  | .channel _ => inferInstanceAs (Decidable (_ = _))

omit [Crates] in
def emit : SupervisionEvent → Option ChannelEvent
  | .exited minerId _ _ owned => some (.childExit minerId owned)
  | .channel e => some e
  | _ => none

omit [Crates] in
def put (s : Supervision) (minerId : MinerId) (watch : Watch) : Supervision :=
  { s with supervisors := s.supervisors.modify minerId fun v => { v with watch := watch } }

omit [Crates] in
def watches (s : Supervision) : SupervisionEvent → Supervision
  | .start minerId policy =>
    { s with supervisors := s.supervisors.insert minerId (.superviseMiner policy) }
  | .spawned minerId => s.put minerId .running
  | .spawnFailed minerId => s.put minerId .gaveUp
  | .exited minerId exitCode nowMs _ =>
    { s with supervisors := s.supervisors.modify minerId fun v => v.onExit exitCode nowMs }
  | .slept minerId => s.put minerId .spawning
  | .stopped minerId => s.put minerId .stopped
  | .channel _ => s

def next (params : FeederParams) (x : World × Channels) (s : Supervision) (e : SupervisionEvent) :
    Supervision :=
  let placed := ((emit e).bind x.2.emit).elim [] x.1.coord.placed
  let after := ((emit e).elim x ((channelMachine params).next x)).1.coord.router
  { s.watches e with
    routed := (s.routed ++ placed).filter fun p => p.2 ∈ after.stagedOf p.1 }

end Supervision

def supervisionLayer (params : FeederParams) :
    Machine.Layer (channelMachine params) Supervision SupervisionEvent where
  init := ⟨∅, []⟩
  guard _ s e := s.Guard e
  emit _ _ e := Supervision.emit e
  next x s e := s.next params x e

abbrev supervisionMachine (params : FeederParams) :
    Machine ((World × Channels) × Supervision) SupervisionEvent :=
  (supervisionLayer params).machine

instance (params : FeederParams) (x : (World × Channels) × Supervision) (e : SupervisionEvent) :
    Decidable ((supervisionMachine params).allowed x e) :=
  inferInstanceAs (Decidable (x.2.Guard e ∧ ∀ d ∈ Supervision.emit e,
    (channelMachine params).allowed x.1 d))

omit [Crates] in
def Channels.LiveSession (c : Channels) (minerId : MinerId) : Prop :=
  ∃ tx ∈ c.sessions.keys, ∃ s ∈ c.sessions.lookup tx, s.minerId = minerId ∧ s.phase ≠ .closed

omit [Crates] in
instance (c : Channels) (minerId : MinerId) : Decidable (c.LiveSession minerId) :=
  inferInstanceAs (Decidable (∃ tx ∈ c.sessions.keys, ∃ s ∈ c.sessions.lookup tx, _))

omit [Crates] in
/-- No order, and no other job the router placed, waits on a miner that is gone for good while
another miner that is connected can take it. -/
def NotStranded (x : (World × Channels) × Supervision) : Prop :=
  ∀ minerId, x.2.In minerId .gaveUp → ¬ x.1.2.LiveSession minerId →
    ∀ job ∈ x.1.1.coord.router.stagedOf minerId,
      job.isOrder = true ∨ (minerId, job) ∈ x.2.routed →
      ∀ other, other ≠ minerId → x.1.2.LiveSession other →
        x.1.1.coord.router.isCapable other job = false

def Supervision.critical (x : World × Channels) (e : SupervisionEvent) : Option Section :=
  (Supervision.emit e).bind x.2.emit

/-- The least capable miner of a job that is routed is not one whose supervisor has given up, nor
gives up in this step. A spawn fails only for a miner on which nothing that was routed waits. -/
def PicksSupervised (x : (World × Channels) × Supervision) (e : SupervisionEvent) : Prop :=
  (∀ d ∈ Supervision.critical x.1 e, ∀ p ∈ x.1.1.coord.placed d, ¬ (x.2.watches e).In p.1 .gaveUp) ∧
    ∀ minerId ∈ e.failedSpawn, ∀ p ∈ x.2.routed, p.1 ≠ minerId

instance (x : (World × Channels) × Supervision) (e : SupervisionEvent) :
    Decidable (PicksSupervised x e) :=
  inferInstanceAs (Decidable ((∀ d ∈ Supervision.critical x.1 e, ∀ p ∈ x.1.1.coord.placed d,
    ¬ (x.2.watches e).In p.1 .gaveUp) ∧ ∀ minerId ∈ e.failedSpawn, ∀ p ∈ x.2.routed, p.1 ≠ minerId))

omit [Crates] in
theorem Supervision.in_modify {s : Supervision} {minerId m : MinerId} {f : Supervisor → Supervisor}
    {watch : Watch} (hm : m ≠ minerId) :
    Supervision.In { s with supervisors := s.supervisors.modify minerId f } m watch ↔
      s.In m watch := by
  rw [In, In, Finmap.lookup_modify_of_ne hm]

omit [Crates] in
theorem Supervision.in_put {s : Supervision} {minerId m : MinerId} {watch : Watch}
    (hne : watch ≠ .gaveUp) (h : (s.put minerId watch).In m .gaveUp) : s.In m .gaveUp := by
  by_cases hm : m = minerId
  · rw [In, put, hm, Finmap.lookup_modify_self, Option.map_map] at h
    obtain ⟨v, _, hv⟩ := Option.map_eq_some_iff.mp h
    exact absurd hv hne
  · exact (in_modify hm).mp h

omit [Crates] in
theorem Supervision.gaveUp_watches {s : Supervision} {e : SupervisionEvent} {m : MinerId}
    (h : (s.watches e).In m .gaveUp) : s.In m .gaveUp ∨ e = .spawnFailed m ∨
      ∃ exitCode nowMs owned, e = .exited m exitCode nowMs owned := by
  cases e with
  | start minerId policy =>
    rw [In, watches, Finmap.lookup_insert_eq] at h
    split_ifs at h
    · cases h
    · exact Or.inl h
  | spawned minerId | slept minerId | stopped minerId => exact Or.inl (in_put (by decide) h)
  | spawnFailed minerId =>
    by_cases hm : m = minerId
    · exact Or.inr (Or.inl (by rw [hm]))
    · exact Or.inl ((in_modify hm).mp h)
  | exited minerId exitCode nowMs owned =>
    by_cases hm : m = minerId
    · exact Or.inr (Or.inr ⟨exitCode, nowMs, owned, by rw [hm]⟩)
    · exact Or.inl ((in_modify hm).mp h)
  | channel e => exact Or.inl h

omit [Crates] in
structure RoutedInv (x : (World × Channels) × Supervision) : Prop where
  orders : ∀ m, ∀ job ∈ x.1.1.coord.router.stagedOf m, job.isOrder = true → (m, job) ∈ x.2.routed
  supervised : ∀ p ∈ x.2.routed, ¬ x.2.In p.1 .gaveUp

theorem coord_supervision (params : FeederParams) (x : (World × Channels) × Supervision)
    (e : SupervisionEvent) : ((supervisionMachine params).next x e).1.1 =
      (Supervision.critical x.1 e).elim x.1.1 (x.1.1.next params) := by
  cases e <;> rfl

theorem mem_routed_next {params : FeederParams} {x : (World × Channels) × Supervision}
    {e : SupervisionEvent} {p : MinerId × Job} :
    p ∈ ((supervisionMachine params).next x e).2.routed ↔
      (p ∈ x.2.routed ∨ ∃ d ∈ Supervision.critical x.1 e, p ∈ x.1.1.coord.placed d) ∧
        p.2 ∈ ((supervisionMachine params).next x e).1.1.coord.router.stagedOf p.1 := by
  have hplaced : p ∈ (Supervision.critical x.1 e).elim [] x.1.1.coord.placed ↔
      ∃ d ∈ Supervision.critical x.1 e, p ∈ x.1.1.coord.placed d := by
    cases Supervision.critical x.1 e <;> simp
  rw [← hplaced, ← List.mem_append]
  exact List.mem_filter.trans (and_congr_right fun _ => decide_eq_true_iff)

theorem allowed_critical {params : FeederParams} {x : (World × Channels) × Supervision}
    {e : SupervisionEvent} (ha : (supervisionMachine params).allowed x e) {d : Section}
    (hd : d ∈ Supervision.critical x.1 e) : x.1.1.Allowed d := by
  obtain ⟨c, hc, hemit⟩ := Option.bind_eq_some_iff.mp hd
  exact (ha.2 c hc).2 d hemit

/-- Every order that is staged was routed to where it is. -/
theorem orders_routed_next {params : FeederParams} {x : (World × Channels) × Supervision}
    {e : SupervisionEvent} (h : RoutedInv x) (ha : (supervisionMachine params).allowed x e)
    {m : MinerId} {job : Job} (horder : job.isOrder = true)
    (hmem : job ∈ ((supervisionMachine params).next x e).1.1.coord.router.stagedOf m) :
    (m, job) ∈ ((supervisionMachine params).next x e).2.routed := by
  refine mem_routed_next.mpr ⟨?_, hmem⟩
  rw [coord_supervision] at hmem
  cases hd : Supervision.critical x.1 e with
  | none =>
    rw [hd] at hmem
    exact Or.inl (h.orders m job hmem horder)
  | some d =>
    rw [hd] at hmem
    rcases World.mem_staged_next params (allowed_critical ha hd) hmem with hold | hdrawn | hplaced
    · exact Or.inl (h.orders m job hold horder)
    · rw [horder] at hdrawn
      exact absurd hdrawn.1 Bool.noConfusion
    · exact Or.inr ⟨d, rfl, hplaced⟩

theorem supervised_next {params : FeederParams} {x : (World × Channels) × Supervision}
    {e : SupervisionEvent} (h : RoutedInv x) (ha : (supervisionMachine params).allowed x e)
    (hok : PicksSupervised x e) {p : MinerId × Job}
    (hp : p ∈ ((supervisionMachine params).next x e).2.routed) :
    ¬ ((supervisionMachine params).next x e).2.In p.1 .gaveUp := by
  obtain ⟨horigin, hstaged⟩ := mem_routed_next.mp hp
  change ¬ (x.2.watches e).In p.1 .gaveUp
  rcases horigin with hold | ⟨d, hd, hplaced⟩
  · intro hgave
    rcases Supervision.gaveUp_watches hgave with hbefore | hfailed | ⟨exitCode, nowMs, owned, rfl⟩
    · exact h.supervised p hold hbefore
    · rw [hfailed] at hok
      exact hok.2 p.1 rfl p hold rfl
    · -- the reclaim emptied the queue, so the job was placed on the miner again
      have hallowed : x.1.1.Allowed (.childExit p.1 owned) := allowed_critical ha rfl
      rw [coord_supervision] at hstaged
      rcases CoordinatorState.mem_staged_childExit hallowed.1 hstaged with ⟨_, hne⟩ | hplaced
      · exact hne rfl
      · exact hok.1 _ rfl p hplaced hgave
  · exact hok.1 d hd p hplaced

/-- In a run in which the router never picks a miner whose supervisor has given up, no routed job
waits on a miner that is gone for good. -/
theorem no_work_stranded_on_dead_miner (params : FeederParams)
    {x : (World × Channels) × Supervision}
    (h : ((supervisionMachine params).restrict PicksSupervised).Reachable x) : NotStranded x := by
  have hinv : RoutedInv x := by
    refine h.invariant (I := RoutedInv) ?_ ?_
    · constructor
      · intro m job hjob
        exact absurd hjob List.not_mem_nil
      · intro p hp
        exact absurd hp List.not_mem_nil
    · intro x e _ hi ha
      exact ⟨fun m job hmem horder => orders_routed_next hi ha.1 horder hmem,
        fun p hp => supervised_next hi ha.1 ha.2 hp⟩
  intro minerId hgave _ job hjob hclass
  have hrouted : (minerId, job) ∈ x.2.routed := hclass.elim (hinv.orders minerId job hjob) id
  exact absurd hgave (hinv.supervised _ hrouted)

end

namespace Sample

def edgeOrder : JobOrder :=
  ⟨[5, 0, 0, 0, 0, 0, 0, 0], [0, 1], [(0, 1)], [0, 0], [1000], none, none, none, 0⟩

def policy : BackoffPolicy := ⟨500, 30000, 5, 60000⟩

def supervised : List SupervisionEvent :=
  [.start "a" policy, .spawned "a", .start "b" policy, .spawned "b"] ++
    (joined ++ second).map .channel

end Sample

open Sample in
theorem no_work_stranded_on_dead_miner_sample :
    let x := (supervisionMachine params).run (supervisionMachine params).init (supervised ++
      [.exited "b" 64 0 [], .channel (.close 1), .channel (.stageMempoolOrders [edgeOrder])])
    x.2.In "b" .gaveUp ∧ ¬ x.1.2.LiveSession "b" ∧ x.1.1.coord.router.stagedOf "a" ≠ [] ∧
      NotStranded x := by
  refine ⟨by decide +kernel, by decide +kernel, by decide +kernel, ?_⟩
  exact no_work_stranded_on_dead_miner params
    (Machine.reachable_restrict_run (M := supervisionMachine params) _ (by decide +kernel))

open Sample in
/-- The child of `a` exits for good, and the order it had goes back to `a`, though `b` is
connected. -/
theorem order_returns_to_dead_miner :
    let x := (supervisionMachine params).run (supervisionMachine params).init (supervised ++
      [.channel (.stageMempoolOrders [edgeOrder]), .exited "a" 64 0 [], .channel (.close 0)])
    (supervisionMachine params).Reachable x ∧ ¬ NotStranded x := by
  intro x
  refine ⟨Machine.reachable_run (M := supervisionMachine params) _ (by decide +kernel), ?_⟩
  intro h
  have hjob : ∃ job ∈ x.1.1.coord.router.stagedOf "a", job.isOrder = true ∧
      x.1.1.coord.router.isCapable "b" job = true := by decide +kernel
  obtain ⟨job, hmem, horder, hcap⟩ := hjob
  have hnot := h "a" (by decide +kernel) (by decide +kernel) job hmem (Or.inl horder) "b"
    (by decide) (by decide +kernel)
  rw [hcap] at hnot
  exact absurd hnot Bool.noConfusion

end QuipCoordinator
