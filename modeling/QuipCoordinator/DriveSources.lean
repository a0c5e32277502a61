import QuipCoordinator.FoundationDrain
import QuipCoordinator.SaltRanges
import QuipCoordinator.TopologySpec

/-!
# The sources of a drive

A drive without a list makes its own jobs over the graph of its spec: leases that share out the
counters below a bound, or problems drawn one for each index. All are made before the first is
routed. The hash `blake3` is a parameter: it picks the round of the leases and the salts of the
draws.
-/

namespace QuipCoordinator

/-! ## Leases -/

structure LeaseSource where
  snapshot : MiningSnapshot
  minerAccount : Bytes32
  salts : Nat
  leaseSize : Nat
  nextStart : Nat
  leaseSize_pos : 0 < leaseSize
  nextStart_le : nextStart ≤ salts

namespace LeaseSource

/-- `quip-drive-lease` -/
def roundTag : Bytes :=
  [113, 117, 105, 112, 45, 100, 114, 105, 118, 101, 45, 108, 101, 97, 115, 101]

theorem one_le_size (leaseSize : Nat) : 0 < max leaseSize 1 := by
  omega

def new (blake3 : Bytes → Bytes32) (spec : TopologySpec) (minerAccount : Bytes32)
    (seed salts leaseSize : Nat) : LeaseSource where
  snapshot :=
    { spec.toSnapshot with lastProofBlockHash := blake3 (roundTag ++ toLeBytes 8 seed) }
  minerAccount := minerAccount
  salts := salts
  leaseSize := max leaseSize 1
  nextStart := 0
  leaseSize_pos := one_le_size leaseSize
  nextStart_le := Nat.zero_le _

def count (s : LeaseSource) : Nat := min s.leaseSize (s.salts - s.nextStart)

def job (s : LeaseSource) : Job :=
  buildLeaseJob s.snapshot s.minerAccount s.nextStart s.count 1

theorem start_add_count_le (s : LeaseSource) : s.nextStart + s.count ≤ s.salts := by
  have hle := s.nextStart_le
  rw [count]
  omega

def advance (s : LeaseSource) : LeaseSource where
  snapshot := s.snapshot
  minerAccount := s.minerAccount
  salts := s.salts
  leaseSize := s.leaseSize
  nextStart := s.nextStart + s.count
  leaseSize_pos := s.leaseSize_pos
  nextStart_le := s.start_add_count_le

def nextJob (s : LeaseSource) : Option (Job × LeaseSource) :=
  if s.salts ≤ s.nextStart then none else some (s.job, s.advance)

variable {s s' : LeaseSource} {job : Job} {jobs : List Job}

theorem nextJob_eq_none : s.nextJob = none ↔ s.nextStart = s.salts := by
  have hle := s.nextStart_le
  rw [nextJob]
  split_ifs with h
  · simp only [true_iff]
    omega
  · simp only [false_iff]
    omega

theorem nextJob_eq_some :
    s.nextJob = some (job, s') ↔ s.nextStart < s.salts ∧ s.job = job ∧ s.advance = s' := by
  rw [nextJob]
  split_ifs with h
  · simp only [false_iff, not_and]
    omega
  · rw [Option.some.injEq, Prod.mk.injEq]
    simp only [Nat.lt_of_not_le h, true_and]

theorem count_pos (h : s.nextStart < s.salts) : 0 < s.count := by
  have hpos := s.leaseSize_pos
  rw [count]
  omega

theorem advance_lt (h : s.nextJob = some (job, s')) :
    s'.salts - s'.nextStart < s.salts - s.nextStart := by
  obtain ⟨hlt, -, rfl⟩ := nextJob_eq_some.mp h
  have hpos := count_pos hlt
  have hle := s.start_add_count_le
  change s.salts - (s.nextStart + s.count) < s.salts - s.nextStart
  omega

theorem exists_drains (s : LeaseSource) :
    ∃ jobs, Drains nextJob s jobs ∧ jobs.length ≤ s.salts - s.nextStart :=
  Drains.exists_of_measure (fun s : LeaseSource => s.salts - s.nextStart)
    (fun _ _ _ => advance_lt) s

end LeaseSource

def Job.leaseCounters (job : Job) : List Nat :=
  job.generator.elim [] fun g => List.range' g.saltStart g.saltCount

/-- A lease of the round of `snapshot`, with its first counter. -/
structure LeaseSource.Hands (s : LeaseSource) (start : Nat) (job : Job) : Prop where
  from_start : s.nextStart ≤ start
  start_lt : start < s.salts
  job_eq : job = buildLeaseJob s.snapshot s.minerAccount start (min s.leaseSize (s.salts - start)) 1

namespace LeaseSource
variable {s s' : LeaseSource} {job : Job} {jobs : List Job}

theorem counters_of_drains (h : Drains nextJob s jobs) :
    jobs.flatMap Job.leaseCounters = List.range' s.nextStart (s.salts - s.nextStart) := by
  induction h with
  | ended hnext =>
    rw [nextJob_eq_none] at hnext
    rw [hnext, Nat.sub_self]
    rfl
  | @item s s' job jobs hnext hrest ih =>
    rw [nextJob_eq_some] at hnext
    obtain ⟨hlt, rfl, rfl⟩ := hnext
    have hle := s.start_add_count_le
    have hsplit : s.salts - s.nextStart = s.count + (s.salts - (s.nextStart + s.count)) := by
      omega
    rw [List.flatMap_cons, ih, hsplit, ← List.range'_append_1]
    rfl

theorem hands_of_drains (h : Drains nextJob s jobs) :
    ∃ starts : List Nat, starts.Pairwise (· < ·) ∧ List.Forall₂ s.Hands starts jobs := by
  induction h with
  | ended hnext => exact ⟨[], List.Pairwise.nil, List.Forall₂.nil⟩
  | @item s s' job jobs hnext hrest ih =>
    rw [nextJob_eq_some] at hnext
    obtain ⟨hlt, rfl, rfl⟩ := hnext
    have hpos := count_pos hlt
    obtain ⟨starts, hsorted, hhands⟩ := ih
    have hfrom : ∀ start ∈ starts, s.nextStart + s.count ≤ start := by
      intro start hstart
      obtain ⟨i, hi, rfl⟩ := List.mem_iff_getElem.mp hstart
      have hjobs : i < jobs.length := hhands.length_eq ▸ hi
      exact ((List.forall₂_iff_get.mp hhands).2 i hi hjobs).from_start
    refine ⟨s.nextStart :: starts, List.pairwise_cons.mpr ⟨?_, hsorted⟩, ?_⟩
    · intro start hstart
      have hle := hfrom start hstart
      omega
    · refine List.Forall₂.cons ⟨Nat.le_refl _, hlt, rfl⟩ (hhands.imp ?_)
      intro start job hjob
      have hle : s.nextStart + s.count ≤ start := hjob.from_start
      exact ⟨by omega, hjob.start_lt, hjob.job_eq⟩

namespace Hands
variable {start : Nat}

theorem leaseCounters (h : s.Hands start job) :
    job.leaseCounters = List.range' start (min s.leaseSize (s.salts - start)) := by
  rw [h.job_eq]
  rfl

theorem jobId (h : s.Hands start job) : job.jobId = leaseJobId start := by
  rw [h.job_eq]
  rfl

end Hands

theorem nodup_jobIds (h : Drains nextJob s jobs) (hsalts : s.salts < 2 ^ 64) :
    (jobs.map (·.jobId)).Nodup := by
  obtain ⟨starts, hsorted, hhands⟩ := hands_of_drains h
  have hids : jobs.map (·.jobId) = starts.map leaseJobId := by
    clear hsorted h
    induction hhands with
    | nil => rfl
    | cons hjob _ ih => rw [List.map_cons, List.map_cons, ih, hjob.jobId]
  have hlt : ∀ start ∈ starts, start < 2 ^ 64 := by
    intro start hstart
    obtain ⟨i, hi, rfl⟩ := List.mem_iff_getElem.mp hstart
    have hjobs : i < jobs.length := hhands.length_eq ▸ hi
    exact ((List.forall₂_iff_get.mp hhands).2 i hi hjobs).start_lt.trans hsalts
  rw [hids]
  refine List.Nodup.map_on ?_ (hsorted.imp Nat.ne_of_lt)
  intro a ha b hb heq
  exact leaseJobId_inj (hlt a ha) (hlt b hb) heq

theorem exists_hands (h : Drains nextJob s jobs) {job : Job} (hjob : job ∈ jobs) :
    ∃ start, s.Hands start job := by
  obtain ⟨starts, -, hhands⟩ := hands_of_drains h
  obtain ⟨i, hi, rfl⟩ := List.mem_iff_getElem.mp hjob
  have hstarts : i < starts.length := hhands.length_eq ▸ hi
  exact ⟨_, (List.forall₂_iff_get.mp hhands).2 i hstarts hi⟩

end LeaseSource

/-! ## Drawn problems -/

section
variable [Crates]

structure RandomSource where
  snapshot : MiningSnapshot
  minerAccount : Bytes32
  seed : Nat
  deadlineMs : Nat
  count : Nat
  nextIndex : Nat

namespace RandomSource

omit [Crates] in
def new (spec : TopologySpec) (minerAccount : Bytes32) (seed count deadlineMs : Nat) :
    RandomSource where
  snapshot := spec.toSnapshot
  minerAccount := minerAccount
  seed := seed
  deadlineMs := deadlineMs
  count := count
  nextIndex := 0

omit [Crates] in
def saltFor (blake3 : Bytes → Bytes32) (s : RandomSource) (index : Nat) : Bytes32 :=
  blake3 (toLeBytes 8 s.seed ++ toLeBytes 4 index)

def draw (blake3 : Bytes → Bytes32) (s : RandomSource) (index : Nat) : Option Job :=
  derivePowJob s.snapshot s.minerAccount (s.saltFor blake3 index) (index + 1) s.deadlineMs

def nextJob (blake3 : Bytes → Bytes32) (s : RandomSource) : Option (Job × RandomSource) :=
  if s.count ≤ s.nextIndex then none
  else (s.draw blake3 s.nextIndex).map fun job => (job, { s with nextIndex := s.nextIndex + 1 })

variable {blake3 : Bytes → Bytes32} {s s' : RandomSource} {job : Job} {jobs : List Job}

theorem nextJob_eq_some :
    s.nextJob blake3 = some (job, s') ↔ s.nextIndex < s.count ∧
      s.draw blake3 s.nextIndex = some job ∧ s' = { s with nextIndex := s.nextIndex + 1 } := by
  rw [nextJob]
  split_ifs with h
  · simp only [false_iff, not_and]
    omega
  · simp only [Option.map_eq_some_iff, Prod.mk.injEq, Nat.lt_of_not_le h, true_and]
    constructor
    · rintro ⟨drawn, hdraw, rfl, rfl⟩
      exact ⟨hdraw, rfl⟩
    · rintro ⟨hdraw, rfl⟩
      exact ⟨job, hdraw, rfl, rfl⟩

theorem nextJob_eq_none :
    s.nextJob blake3 = none ↔ s.nextIndex < s.count → s.draw blake3 s.nextIndex = none := by
  rw [nextJob]
  split_ifs with h
  · simp only [true_iff]
    omega
  · rw [Option.map_eq_none_iff]
    exact ⟨fun hdraw _ => hdraw, fun hdraw => hdraw (Nat.lt_of_not_le h)⟩

theorem advance_lt (h : s.nextJob blake3 = some (job, s')) :
    s'.count - s'.nextIndex < s.count - s.nextIndex := by
  obtain ⟨hlt, -, rfl⟩ := nextJob_eq_some.mp h
  change s.count - (s.nextIndex + 1) < s.count - s.nextIndex
  omega

theorem exists_drains (blake3 : Bytes → Bytes32) (s : RandomSource) :
    ∃ jobs, Drains (nextJob blake3) s jobs ∧ jobs.length ≤ s.count - s.nextIndex :=
  Drains.exists_of_measure (fun s : RandomSource => s.count - s.nextIndex)
    (fun _ _ _ => advance_lt) s

/-- The source ends at the count or at the first index that cannot be drawn. -/
theorem draws_of_drains (h : Drains (nextJob blake3) s jobs) (hle : s.nextIndex ≤ s.count) :
    s.nextIndex + jobs.length ≤ s.count ∧
      (∀ i job, jobs[i]? = some job → s.draw blake3 (s.nextIndex + i) = some job) ∧
      (s.nextIndex + jobs.length < s.count →
        s.draw blake3 (s.nextIndex + jobs.length) = none) := by
  induction h with
  | ended hnext =>
    rw [nextJob_eq_none] at hnext
    refine ⟨hle, ?_, hnext⟩
    intro i job hjob
    simp at hjob
  | @item s s' job jobs hnext hrest ih =>
    rw [nextJob_eq_some] at hnext
    obtain ⟨hlt, hdraw, rfl⟩ := hnext
    obtain ⟨hlen, hjobs, hend⟩ := ih hlt
    have hsum : s.nextIndex + (job :: jobs).length = s.nextIndex + 1 + jobs.length := by
      rw [List.length_cons]
      omega
    rw [hsum]
    refine ⟨hlen, ?_, hend⟩
    intro i drawn hi
    cases i with
    | zero =>
      rw [List.getElem?_cons_zero, Option.some.injEq] at hi
      rw [← hi]
      exact hdraw
    | succ i =>
      rw [List.getElem?_cons_succ] at hi
      rw [show s.nextIndex + (i + 1) = s.nextIndex + 1 + i by omega]
      exact hjobs i drawn hi

end RandomSource

/-- Draining ends. The leases share out the counters below the bound in order, each counter once,
with distinct ids and none longer than the size asked for. The drawn jobs are those of the indices
from 0 on, up to the count or the first that cannot be drawn. All are over the graph of the spec. -/
theorem drive_sources_exact (blake3 : Bytes → Bytes32) (spec : TopologySpec) (account : Bytes32)
    (seed : Nat) :
    (∀ salts leaseSize, salts < 2 ^ 64 → ∃ jobs,
      (∀ fuel, salts ≤ fuel → drainSource LeaseSource.nextJob fuel
        (.new blake3 spec account seed salts leaseSize) = some jobs) ∧
      jobs.flatMap Job.leaseCounters = List.range salts ∧
      (∀ job ∈ jobs, job.isLease = true ∧ job.Over spec.topology ∧
        1 ≤ job.leaseCounters.length ∧ job.leaseCounters.length ≤ max leaseSize 1) ∧
      (jobs.map (·.jobId)).Nodup) ∧
    ∀ count deadlineMs, ∃ jobs,
      (∀ fuel, count ≤ fuel → drainSource (RandomSource.nextJob blake3) fuel
        (.new spec account seed count deadlineMs) = some jobs) ∧
      jobs.length ≤ count ∧
      (∀ i job, jobs[i]? = some job →
        (RandomSource.new spec account seed count deadlineMs).draw blake3 i = some job ∧
          job.Over spec.topology) ∧
      (jobs.length < count →
        (RandomSource.new spec account seed count deadlineMs).draw blake3 jobs.length = none) := by
  constructor
  · intro salts leaseSize hsalts
    obtain ⟨jobs, hjobs, hlen⟩ :=
      LeaseSource.exists_drains (.new blake3 spec account seed salts leaseSize)
    refine ⟨jobs, fun fuel hfuel => hjobs.drain_eq (hlen.trans hfuel), ?_, ?_, ?_⟩
    · rw [LeaseSource.counters_of_drains hjobs, List.range_eq_range']
      rfl
    · intro job hjob
      obtain ⟨start, hhands⟩ := LeaseSource.exists_hands hjobs hjob
      have hlt : start < salts := hhands.start_lt
      rw [hhands.leaseCounters, List.length_range', hhands.job_eq]
      refine ⟨rfl, ⟨_, rfl, rfl⟩, ?_, Nat.min_le_left _ _⟩
      change 1 ≤ min (max leaseSize 1) (salts - start)
      omega
    · exact LeaseSource.nodup_jobIds hjobs hsalts
  · intro count deadlineMs
    obtain ⟨jobs, hjobs, hlen⟩ :=
      RandomSource.exists_drains blake3 (.new spec account seed count deadlineMs)
    obtain ⟨hcount, hdrawn, hend⟩ := RandomSource.draws_of_drains hjobs (Nat.zero_le _)
    have hzero : ∀ i, (RandomSource.new spec account seed count deadlineMs).nextIndex + i = i :=
      fun i => Nat.zero_add i
    simp only [hzero] at hcount hdrawn hend
    refine ⟨jobs, fun fuel hfuel => hjobs.drain_eq (hlen.trans hfuel), hcount, ?_, hend⟩
    intro i job hjob
    have hdraw := hdrawn i job hjob
    exact ⟨hdraw, TopologySpec.buildIsingJob_over hdraw⟩

end

namespace Sample

def pathSpec : TopologySpec where
  topology := .fromNodesEdges [0, 1] [(0, 1)] [0] [1] [-1, 1]
  allowedHMilli := [0]
  allowedJMilli := [1]
  allowedSpinMilli := [-1, 1]
  minSolutions := 1
  maxEnergyMilli := 0
  minDiversityMilli := 0

end Sample

open Sample in
theorem drive_sources_exact_ten : ∃ jobs,
    drainSource LeaseSource.nextJob 10
      (.new (fun _ => Vector.replicate 32 0) pathSpec (Vector.replicate 32 0) 1 10 4) =
        some jobs ∧
      jobs.flatMap Job.leaseCounters = List.range 10 := by
  obtain ⟨jobs, hdrain, hcounters, -⟩ := (drive_sources_exact (fun _ => Vector.replicate 32 0)
    pathSpec (Vector.replicate 32 0) 1).1 10 4 (by decide)
  exact ⟨jobs, hdrain 10 (Nat.le_refl 10), hcounters⟩

end QuipCoordinator
