import QuipCoordinator.FoundationCodec
import QuipCoordinator.LiveJobs
import QuipCoordinator.CriticalSections

/-!
# The counters of the staged salts

A poll of the feeder sizes the leases of each miner from its measured rate and
draws salts from one counter: a plain job takes its counter before it is staged,
a lease its range after. The log has one `Attempt` for each turn of the staging
loops. As long as the counter does not reach its maximum, the counters taken are
exactly those from 1 to it, each once. The rate is floating point: a poll is
given the salts the rate asks for.
-/

namespace QuipCoordinator
section
variable [Crates]
open Crates

def leaseMaxSalts : Nat := 2 ^ 20

/-- `want` is the size that the measured rate, or without one the initial rate, asks for. -/
def leaseSaltCount (want streamWidth : Nat) : Nat :=
  let fill := max streamWidth 1
  let want := if leaseMaxSalts ≤ want then leaseMaxSalts else want
  let least := min fill leaseMaxSalts
  if want < least then least else if leaseMaxSalts < want then leaseMaxSalts else want

omit [Crates] in
theorem one_le_leaseSaltCount (want streamWidth : Nat) : 1 ≤ leaseSaltCount want streamWidth := by
  have hleast : 1 ≤ min (max streamWidth 1) leaseMaxSalts := by
    simp [leaseMaxSalts]
  rw [leaseSaltCount]
  generalize (if leaseMaxSalts ≤ want then leaseMaxSalts else want) = size
  split_ifs <;> omega

structure Rate where
  minerId : MinerId
  window : Nat
  want : Nat
deriving DecidableEq

omit [Crates] in
def World.plan (w : World) (rate : Rate) : Plan where
  minerId := rate.minerId
  window := rate.window
  leaseSalts := leaseSaltCount rate.want
    ((w.coord.router.miners.lookup rate.minerId).elim 0 (·.caps.streamWidth))

/-- A turn of a staging loop, with the counters it drew. -/
inductive Attempt
  | lease (snap : MiningSnapshot) (start count generation : Nat) (staged : Bool)
  | plain (snap : MiningSnapshot) (ctr generation : Nat) (staged : Bool)
deriving DecidableEq

namespace Attempt
omit [Crates]

def staged : Attempt → Bool
  | .lease _ _ _ _ staged | .plain _ _ _ staged => staged

def isLease : Attempt → Bool
  | .lease .. => true
  | .plain .. => false

def snap : Attempt → MiningSnapshot
  | .lease snap _ _ _ _ | .plain snap _ _ _ => snap

def start : Attempt → Nat
  | .lease _ start _ _ _ | .plain _ start _ _ => start

def count : Attempt → Nat
  | .lease _ _ count _ _ => count
  | .plain .. => 1

def counters (a : Attempt) : List Nat := List.range' a.start a.count

/-- The counter values that an attempt consumes: none for a lease that is not staged. -/
def consumed (a : Attempt) : List Nat := if a.isLease && !a.staged then [] else a.counters

end Attempt

def Attempt.job (params : FeederParams) : Attempt → Option Job
  | .lease snap start count generation _ =>
    some (buildLeaseJob snap params.minerIdentity start count generation)
  | .plain snap ctr generation _ =>
    derivePowJob snap params.minerIdentity (saltFromCounter ctr) generation 0

def Attempt.draw (params : FeederParams) (a : Attempt) : Option Draw :=
  (a.job params).map fun job => ⟨job, a.snap⟩

/-- The nonces an attempt searches. Salt `i` of a lease is the salt of its counter `start + i`. -/
def Attempt.nonces (params : FeederParams) (a : Attempt) : List Bytes32 :=
  a.counters.map fun ctr =>
    deriveNonce a.snap.lastProofBlockHash params.minerIdentity (saltFromCounter ctr)

namespace Staging

omit [Crates] in
def leaseAttempts (params : FeederParams) (snap : MiningSnapshot) (plan : Plan) :
    Nat → Staging → List Attempt
  | 0, _ => []
  | fuel + 1, s =>
    if s.coord.router.stagedLen plan.minerId < leaseStageDepth then
      let saltStart := satAdd 64 s.saltCtr 1
      let job :=
        buildLeaseJob snap params.minerIdentity saltStart plan.leaseSalts s.generation
      match s.coord.router.stageOn plan.minerId job with
      | (_, false) => [.lease snap saltStart plan.leaseSalts s.generation false]
      | (router, true) =>
        .lease snap saltStart plan.leaseSalts s.generation true ::
          leaseAttempts params snap plan fuel
            { s with
              coord := { s.coord with router := router }
              saltCtr := satAdd 64 saltStart (plan.leaseSalts - 1)
              drawn := s.drawn ++ [⟨job, snap⟩] }
    else []

def plainAttempts (params : FeederParams) (snap : MiningSnapshot) (plan : Plan) (depth : Nat) :
    Nat → Staging → List Attempt
  | 0, _ => []
  | fuel + 1, s =>
    if s.coord.router.stagedLen plan.minerId < depth then
      let saltCtr := satAdd 64 s.saltCtr 1
      let salt := saltFromCounter saltCtr
      match derivePowJob snap params.minerIdentity salt s.generation 0 with
      | none => [.plain snap saltCtr s.generation false]
      | some job =>
        match s.coord.router.stageOn plan.minerId job with
        | (_, false) => [.plain snap saltCtr s.generation false]
        | (router, true) =>
          .plain snap saltCtr s.generation true ::
            plainAttempts params snap plan depth fuel
              { s with
                coord := { s.coord with router := router }.recordSalt job.jobId salt
                saltCtr := saltCtr
                drawn := s.drawn ++ [⟨job, snap⟩] }
    else []

def minerAttempts (params : FeederParams) (snap : MiningSnapshot) (s : Staging) (plan : Plan) :
    List Attempt :=
  let router := (s.coord.router.takeConsumed plan.minerId).1
  let s := { s with coord := { s.coord with router := router } }
  if s.acceptsLeases plan.minerId then
    let router := (s.coord.router.takeLeaseSalts plan.minerId).1
    leaseAttempts params snap plan leaseStageDepth
      { s with coord := { s.coord with router := router } }
  else
    let depth := min (max params.bufferDepth plan.window)
      (stageCeiling snap.nodes.length snap.edges.length params.bufferDepth)
    plainAttempts params snap plan depth depth s

def attemptsFrom (params : FeederParams) (snap : MiningSnapshot) :
    List Plan → Staging → List Attempt
  | [], _ => []
  | plan :: plans, s =>
    minerAttempts params snap s plan ++
      attemptsFrom params snap plans (topUpMiner params snap s plan)

def attempts (params : FeederParams) (snap : MiningSnapshot) (plans : List Plan) (s : Staging) :
    List Attempt :=
  let coord :=
    { s.coord with
      target := some (targetFromSnapshot snap)
      stash := s.coord.stash.setAlgorithm (.forSpecVersion snap.specVersion) }
  attemptsFrom params snap plans { s with coord := coord }

end Staging

inductive SaltEvent
  | poll (snap : MiningSnapshot) (rates : List Rate)
  | other (e : Section)
deriving DecidableEq

omit [Crates] in
def Section.polls : Section → Bool
  | .topUp _ _ => true
  | _ => false

def saltLayer (params : FeederParams) :
    Machine.Layer (coordinatorMachine params) (List Attempt) SaltEvent where
  init := []
  guard _ _
    | .poll _ _ => True
    | .other e => e.polls = false
  emit w _
    | .poll snap rates => some (.topUp snap (rates.map w.plan))
    | .other e => some e
  next w log
    | .poll snap rates => log ++ w.toStaging.attempts params snap (rates.map w.plan)
    | .other _ => log

abbrev saltMachine (params : FeederParams) : Machine (World × List Attempt) SaltEvent :=
  (saltLayer params).machine

/-! ## What a poll consumes -/

omit [Crates] in
/-- Unless the counter ends at its maximum, the attempts consume the counters it passed. -/
def Burns (ctr : Nat) (log : List Attempt) (ctr' : Nat) : Prop :=
  ctr' < 2 ^ 64 - 1 → ctr ≤ ctr' ∧ log.flatMap (·.consumed) = List.range' (ctr + 1) (ctr' - ctr)

/-- What the attempts `log` say of the staging from `s` to `s'`. -/
structure Staging.Logged (params : FeederParams) (s : Staging) (log : List Attempt) (s' : Staging) :
    Prop where
  burns : Burns s.saltCtr log s'.saltCtr
  drawn : s'.drawn = s.drawn ++ (log.filter (·.staged)).filterMap (·.draw params)
  sized : ∀ a ∈ log, 1 ≤ a.count

omit [Crates] in
theorem Burns.trans {a b c : Nat} {log log' : List Attempt} (h : Burns a log b)
    (h' : Burns b log' c) : Burns a (log ++ log') c := by
  intro hc
  obtain ⟨hbc, he'⟩ := h' hc
  obtain ⟨hab, he⟩ := h (by omega)
  refine ⟨hab.trans hbc, ?_⟩
  have hb : b + 1 = a + 1 + (b - a) := by omega
  have hlen : c - a = b - a + (c - b) := by omega
  rw [List.flatMap_append, he, he', hb, List.range'_append_1, hlen]

omit [Crates] in
theorem burns_plain (snap : MiningSnapshot) (ctr generation : Nat) (staged : Bool) :
    Burns ctr [.plain snap (satAdd 64 ctr 1) generation staged] (satAdd 64 ctr 1) := by
  intro hc
  have hs : satAdd 64 ctr 1 = ctr + 1 := by
    rw [satAdd] at hc ⊢
    omega
  rw [hs]
  refine ⟨Nat.le_succ ctr, ?_⟩
  have hone : ctr + 1 - ctr = 1 := by omega
  rw [hone]
  rfl

omit [Crates] in
theorem burns_lease (snap : MiningSnapshot) (ctr count generation : Nat) (hcount : 1 ≤ count) :
    Burns ctr [.lease snap (satAdd 64 ctr 1) count generation true]
      (satAdd 64 (satAdd 64 ctr 1) (count - 1)) := by
  intro hc
  have hs : satAdd 64 ctr 1 = ctr + 1 ∧ satAdd 64 (satAdd 64 ctr 1) (count - 1) = ctr + count := by
    simp only [satAdd] at hc ⊢
    omega
  rw [hs.2, hs.1]
  refine ⟨Nat.le_add_right ctr count, ?_⟩
  rw [Nat.add_sub_cancel_left]
  exact List.append_nil _

namespace Staging

theorem Logged.refl (params : FeederParams) (s : Staging) : Logged params s [] s where
  burns _ := ⟨le_rfl, by rw [Nat.sub_self]; rfl⟩
  drawn := (List.append_nil _).symm
  sized _ h := nomatch h

theorem Logged.of_coord {params : FeederParams} {s s' : Staging} {log : List Attempt}
    (coord : CoordinatorState) (h : Logged params { s with coord := coord } log s') :
    Logged params s log s' :=
  ⟨h.burns, h.drawn, h.sized⟩

theorem Logged.trans {params : FeederParams} {s s' s'' : Staging} {log log' : List Attempt}
    (h : Logged params s log s') (h' : Logged params s' log' s'') :
    Logged params s (log ++ log') s'' where
  burns := h.burns.trans h'.burns
  drawn := by
    rw [h'.drawn, h.drawn, List.filter_append, List.filterMap_append, List.append_assoc]
  sized a ha := (List.mem_append.mp ha).elim (h.sized a) (h'.sized a)

theorem logged_lease (params : FeederParams) (snap : MiningSnapshot) (plan : Plan)
    (hsize : 1 ≤ plan.leaseSalts) (s : Staging) (r : Router) :
    Logged params s [.lease snap (satAdd 64 s.saltCtr 1) plan.leaseSalts s.generation true]
      { s with
        coord := { s.coord with router := r }
        saltCtr := satAdd 64 (satAdd 64 s.saltCtr 1) (plan.leaseSalts - 1)
        drawn := s.drawn ++ [⟨buildLeaseJob snap params.minerIdentity (satAdd 64 s.saltCtr 1)
          plan.leaseSalts s.generation, snap⟩] } where
  burns := burns_lease snap s.saltCtr plan.leaseSalts s.generation hsize
  drawn := rfl
  sized a ha := by
    rw [List.mem_singleton.mp ha]
    exact hsize

theorem logged_lease_failed (params : FeederParams) (snap : MiningSnapshot) (plan : Plan)
    (hsize : 1 ≤ plan.leaseSalts) (s : Staging) (start : Nat) :
    Logged params s [.lease snap start plan.leaseSalts s.generation false] s where
  burns _ := ⟨le_rfl, by rw [Nat.sub_self]; rfl⟩
  drawn := (List.append_nil _).symm
  sized a ha := by
    rw [List.mem_singleton.mp ha]
    exact hsize

theorem logged_plain {params : FeederParams} {snap : MiningSnapshot} {s : Staging} {job : Job}
    (hjob : derivePowJob snap params.minerIdentity (saltFromCounter (satAdd 64 s.saltCtr 1))
      s.generation 0 = some job) (coord : CoordinatorState) :
    Logged params s [.plain snap (satAdd 64 s.saltCtr 1) s.generation true]
      { s with
        coord := coord
        saltCtr := satAdd 64 s.saltCtr 1
        drawn := s.drawn ++ [⟨job, snap⟩] } where
  burns := burns_plain snap s.saltCtr s.generation true
  drawn := by
    simp [Attempt.staged, Attempt.draw, Attempt.job, Attempt.snap, hjob]
  sized a ha := by
    rw [List.mem_singleton.mp ha]
    exact le_rfl

theorem logged_plain_failed (params : FeederParams) (snap : MiningSnapshot) (s : Staging) :
    Logged params s [.plain snap (satAdd 64 s.saltCtr 1) s.generation false]
      { s with saltCtr := satAdd 64 s.saltCtr 1 } where
  burns := burns_plain snap s.saltCtr s.generation false
  drawn := (List.append_nil _).symm
  sized a ha := by
    rw [List.mem_singleton.mp ha]
    exact le_rfl

theorem logged_stageLeases (params : FeederParams) (snap : MiningSnapshot) (plan : Plan)
    (hsize : 1 ≤ plan.leaseSalts) (fuel : Nat) (s : Staging) :
    Logged params s (leaseAttempts params snap plan fuel s)
      (stageLeases params snap plan fuel s) := by
  induction fuel generalizing s with
  | zero => exact .refl params s
  | succ fuel ih =>
    rw [leaseAttempts, stageLeases]
    split_ifs
    · dsimp only
      rcases hst : s.coord.router.stageOn plan.minerId (buildLeaseJob snap params.minerIdentity
        (satAdd 64 s.saltCtr 1) plan.leaseSalts s.generation) with ⟨r, _ | _⟩
      · exact logged_lease_failed params snap plan hsize s _
      · exact (logged_lease params snap plan hsize s r).trans (ih _)
    · exact .refl params s

theorem logged_stagePlain (params : FeederParams) (snap : MiningSnapshot) (plan : Plan)
    (depth fuel : Nat) (s : Staging) :
    Logged params s (plainAttempts params snap plan depth fuel s)
      (stagePlain params snap plan depth fuel s) := by
  induction fuel generalizing s with
  | zero => exact .refl params s
  | succ fuel ih =>
    rw [plainAttempts, stagePlain]
    split_ifs
    · dsimp only
      cases hd : derivePowJob snap params.minerIdentity (saltFromCounter (satAdd 64 s.saltCtr 1))
        s.generation 0 with
      | none => exact logged_plain_failed params snap s
      | some job =>
        dsimp only
        rcases hst : s.coord.router.stageOn plan.minerId job with ⟨r, _ | _⟩
        · exact logged_plain_failed params snap s
        · exact (logged_plain hd _).trans (ih _)
    · exact .refl params s

theorem logged_topUpMiner (params : FeederParams) (snap : MiningSnapshot) (s : Staging)
    {plan : Plan} (hsize : 1 ≤ plan.leaseSalts) :
    Logged params s (minerAttempts params snap s plan) (topUpMiner params snap s plan) := by
  rw [minerAttempts, topUpMiner]
  split_ifs
  · exact .of_coord _ (logged_stageLeases params snap plan hsize _ _)
  · exact .of_coord _ (logged_stagePlain params snap plan _ _ _)

theorem logged_topUp (params : FeederParams) (snap : MiningSnapshot) (plans : List Plan)
    (hsize : ∀ plan ∈ plans, 1 ≤ plan.leaseSalts) (s : Staging) :
    Logged params s (attempts params snap plans s) (topUp params snap plans s) := by
  have hfold : ∀ s, Logged params s (attemptsFrom params snap plans s)
      (plans.foldl (topUpMiner params snap) s) := by
    induction plans with
    | nil => exact fun s => .refl params s
    | cons plan plans ih =>
      intro s
      exact (logged_topUpMiner params snap s (hsize plan List.mem_cons_self)).trans
        (ih (fun p hp => hsize p (List.mem_cons_of_mem _ hp)) _)
  exact .of_coord _ (hfold _)

end Staging

theorem World.counter_next (params : FeederParams) (w : World) {e : Section}
    (h : e.polls = false) :
    (w.next params e).saltCtr = w.saltCtr ∧ (w.next params e).drawn = w.drawn := by
  cases e with
  | topUp snap plans => exact absurd h Bool.noConfusion
  | _ => exact ⟨rfl, rfl⟩

theorem logged_reachable {params : FeederParams} {x : World × List Attempt}
    (h : (saltMachine params).Reachable x) :
    Staging.Logged params World.init.toStaging x.2 x.1.toStaging := by
  refine h.invariant
    (I := fun x => Staging.Logged params World.init.toStaging x.2 x.1.toStaging) ?_ ?_
  · exact .refl params _
  · intro x e _ hi ha
    cases e with
    | poll snap rates =>
      refine hi.trans (Staging.logged_topUp params snap _ ?_ x.1.toStaging)
      intro plan hp
      obtain ⟨rate, -, rfl⟩ := List.mem_map.mp hp
      exact one_le_leaseSaltCount _ _
    | other e =>
      obtain ⟨hctr, hdrawn⟩ := x.1.counter_next params ha.1
      refine ⟨?_, hdrawn.trans hi.drawn, hi.sized⟩
      change Burns 0 x.2 (x.1.next params e).saltCtr
      rw [hctr]
      exact hi.burns

/-! ## Distinct ids and nonces -/

omit [Crates] in
theorem leaseJobId_inj {a b : Nat} (ha : a < 2 ^ 64) (hb : b < 2 ^ 64)
    (h : leaseJobId a = leaseJobId b) : a = b :=
  toLeBytes_inj (w := 8) (by omega) (by omega) (List.append_cancel_left h)

omit [Crates] in
theorem saltFromCounter_inj {a b : Nat} (ha : a < 2 ^ 64) (hb : b < 2 ^ 64)
    (h : saltFromCounter a = saltFromCounter b) : a = b := by
  refine toLeBytes_inj (w := 8) (by omega) (by omega) ?_
  apply List.map_congr_left
  intro i hi
  have hlt : i < 8 := List.mem_range.mp hi
  have hbound : i < 32 := by omega
  have hbyte := congrArg (fun v : Bytes32 => v[i]) h
  simpa [saltFromCounter, hlt] using hbyte

/-- `derive_nonce` gives distinct salts of counters distinct nonces under one root and identity. -/
def NoncesSeparateSalts : Prop :=
  ∀ (root identity : Bytes32) (a b : Nat), a < 2 ^ 64 → b < 2 ^ 64 →
    deriveNonce root identity (saltFromCounter a) = deriveNonce root identity (saltFromCounter b) →
    saltFromCounter a = saltFromCounter b

section
variable {params : FeederParams} {ctr : Nat} {log : List Attempt}

omit [Crates] in
/-- The counters of what is staged are among those consumed. -/
theorem staged_counters_sublist (log : List Attempt) :
    ((log.filter (·.staged)).flatMap (·.counters)).Sublist (log.flatMap (·.consumed)) := by
  induction log with
  | nil => exact List.Sublist.refl _
  | cons a log ih =>
    rw [List.flatMap_cons]
    cases hs : a.staged with
    | false =>
      rw [List.filter_cons_of_neg (by simp [hs])]
      exact ih.trans (List.sublist_append_right _ _)
    | true =>
      have hc : a.consumed = a.counters := by simp [Attempt.consumed, hs]
      rw [List.filter_cons_of_pos hs, List.flatMap_cons, hc]
      exact (List.Sublist.refl _).append ih

omit [Crates] in
theorem mem_counters_le (hlog : log.flatMap (·.consumed) = List.range' 1 ctr) {a : Attempt}
    (ha : a ∈ log.filter (·.staged)) {c : Nat} (hc : c ∈ a.counters) : c ≤ ctr := by
  have hmem := (staged_counters_sublist log).subset (List.mem_flatMap.mpr ⟨a, ha, hc⟩)
  rw [hlog, List.mem_range'_1] at hmem
  omega

omit [Crates] in
theorem start_mem_counters {a : Attempt} (h : 1 ≤ a.count) : a.start ∈ a.counters := by
  rw [Attempt.counters, List.mem_range'_1]
  omega

theorem jobId_of_lease {a : Attempt} (h : a.isLease = true) {job : Job}
    (hj : job ∈ a.job params) : job.jobId = leaseJobId a.start := by
  cases a with
  | lease snap start count generation staged =>
    cases hj
    rfl
  | plain snap ctr generation staged => exact absurd h Bool.noConfusion

/-- The nonces of what is staged under one root are those of its counters. -/
theorem nonces_of_root (root : Bytes32) (staged : List Attempt) :
    (staged.filter (·.snap.lastProofBlockHash = root)).flatMap (·.nonces params) =
      ((staged.filter (·.snap.lastProofBlockHash = root)).flatMap (·.counters)).map fun ctr =>
        deriveNonce root params.minerIdentity (saltFromCounter ctr) := by
  rw [List.map_flatMap]
  apply List.flatMap_congr
  intro a ha
  have hroot : a.snap.lastProofBlockHash = root := by simpa using (List.mem_filter.mp ha).2
  rw [Attempt.nonces, hroot]

end

/-- Over every run of polls that keeps the counter below its maximum, the counters consumed are
those from 1 to it, in order. So what is staged has disjoint counters, distinct lease ids and,
under one root, distinct nonces, and a lease that is not staged consumes none. -/
theorem salt_ranges_never_overlap (params : FeederParams) {x : World × List Attempt}
    (h : (saltMachine params).Reachable x) (hctr : x.1.saltCtr < 2 ^ 64 - 1) :
    x.1.drawn = (x.2.filter (·.staged)).filterMap (·.draw params) ∧
      (x.2.filter (·.staged)).Pairwise (fun a b => a.counters.Disjoint b.counters) ∧
      ((x.2.filter (·.staged)).filter (·.isLease)).Pairwise (fun a b =>
        ∀ j ∈ a.job params, ∀ k ∈ b.job params, j.jobId ≠ k.jobId) ∧
      x.2.flatMap (·.consumed) = List.range' 1 x.1.saltCtr ∧
      (∀ a ∈ x.2, 1 ≤ a.count) ∧
      (NoncesSeparateSalts → ∀ root, (((x.2.filter (·.staged)).filter
        (·.snap.lastProofBlockHash = root)).flatMap (·.nonces params)).Nodup) := by
  obtain ⟨hburns, hdrawn, hsized⟩ := logged_reachable h
  obtain ⟨-, hlog⟩ := hburns hctr
  change x.2.flatMap (·.consumed) = List.range' 1 (x.1.saltCtr - 0) at hlog
  rw [Nat.sub_zero] at hlog
  have hnodup : ((x.2.filter (·.staged)).flatMap (·.counters)).Nodup := by
    apply (staged_counters_sublist x.2).nodup
    rw [hlog]
    exact List.nodup_range'
  have hdisjoint := (List.nodup_flatMap.mp hnodup).2
  have hstart : ∀ a ∈ x.2.filter (·.staged), a.start ∈ a.counters :=
    fun a ha => start_mem_counters (hsized a (List.mem_of_mem_filter ha))
  refine ⟨by simpa [World.init] using hdrawn, hdisjoint, ?_, hlog, hsized, ?_⟩
  · refine List.Pairwise.imp_of_mem ?_ (hdisjoint.sublist List.filter_sublist)
    intro a b ha hb hab j hj k hk heq
    have ha' := List.mem_filter.mp ha
    have hb' := List.mem_filter.mp hb
    rw [jobId_of_lease ha'.2 hj, jobId_of_lease hb'.2 hk] at heq
    have hla := mem_counters_le hlog ha'.1 (hstart a ha'.1)
    have hlb := mem_counters_le hlog hb'.1 (hstart b hb'.1)
    have hsame : a.start = b.start := leaseJobId_inj (by omega) (by omega) heq
    exact hab (hstart a ha'.1) (hsame ▸ hstart b hb'.1)
  · intro hsep root
    rw [nonces_of_root]
    have hsub : (((x.2.filter (·.staged)).filter (·.snap.lastProofBlockHash = root)).flatMap
        (·.counters)).Sublist ((x.2.filter (·.staged)).flatMap (·.counters)) :=
      List.filter_sublist.flatMap _
    refine List.Nodup.map_on ?_ (hsub.nodup hnodup)
    intro c hc d hd heq
    have hle : ∀ c ∈ (x.2.filter (·.staged)).flatMap (·.counters), c ≤ x.1.saltCtr := by
      intro c hc
      obtain ⟨a, ha, hca⟩ := List.mem_flatMap.mp hc
      exact mem_counters_le hlog ha hca
    have hc' := hle c (hsub.subset hc)
    have hd' := hle d (hsub.subset hd)
    have hsalt := hsep root params.minerIdentity c d (by omega) (by omega) heq
    exact saltFromCounter_inj (by omega) (by omega) hsalt

end

instance (params : FeederParams) [Crates] (x : World × List Attempt) :
    (e : SaltEvent) → Decidable ((saltMachine params).allowed x e)
  | .poll snap rates => inferInstanceAs (Decidable (True ∧
    ∀ d ∈ some (Section.topUp snap (rates.map x.1.plan)), x.1.Allowed d))
  | .other e => inferInstanceAs (Decidable (e.polls = false ∧ ∀ d ∈ some e, x.1.Allowed d))

namespace Sample

def polls : List SaltEvent :=
  [.other (.registerMiner "a" caps), .other (.registerMiner "b" leaseCaps), .other .stopMining,
    .other (.reseed snap none none), .poll snap [⟨"a", 0, 0⟩, ⟨"b", 0, 3⟩], .other .stopMining,
    .other (.reseed snap none none), .poll snap [⟨"a", 0, 0⟩, ⟨"b", 0, 2⟩]]

end Sample

open Sample in
theorem salt_ranges_never_overlap_sample :
    let x := (saltMachine params).run (saltMachine params).init polls
    x.2.map (·.counters) = [[1], [2, 3, 4], [5, 6, 7], [8], [9, 10], [11, 12]] ∧
      (x.2.filter (·.staged)).length = 6 ∧ x.2.flatMap (·.consumed) = List.range' 1 12 ∧
      (((x.2.filter (·.staged)).filter (·.snap.lastProofBlockHash = snap.lastProofBlockHash)).flatMap
        (·.nonces params)).Nodup := by
  have hctr : ((saltMachine params).run (saltMachine params).init polls).1.saltCtr = 12 := by
    decide +kernel
  obtain ⟨-, -, -, hlog, -, hnonce⟩ := salt_ranges_never_overlap params
    (Machine.reachable_run (M := saltMachine params) polls (by decide +kernel))
    (by rw [hctr]; decide)
  rw [hctr] at hlog
  exact ⟨by decide +kernel, by decide +kernel, hlog,
    hnonce (fun _ _ _ _ _ _ heq => heq) snap.lastProofBlockHash⟩

end QuipCoordinator
