import QuipCoordinator.FoundationSorted
import QuipCoordinator.Submissions

/-!
# The win-time pick

The stash is sorted by energy, so the first due candidate is the strongest, and
when a weaker one improves on the best so does it. The poll looks at no other:
it submits a candidate that can win exactly when the strongest due one clears the
live gates.
-/

namespace QuipCoordinator

section
variable [Crates]

namespace WinStash

inductive Built : WinStash → Prop
  | new (k : Nat) : Built (.new k)
  | reset {s : WinStash} (generation : Nat) (model : Option DecayModel) (lastProofBlock : Nat) :
    Built s → Built (s.reset generation model lastProofBlock)
  | setAlgorithm {s : WinStash} (algorithm : DecayAlgorithm) :
    Built s → Built (s.setAlgorithm algorithm)
  | insert {s : WinStash} (cand : Candidate) : Built s → Built (s.insert cand).1
  | markSubmitted {s : WinStash} (jobId : JobId) : Built s → Built (s.markSubmitted jobId)

omit [Crates] in
def Sorted (s : WinStash) : Prop :=
  s.candidates.Pairwise fun a b => a.bestEnergyMilli ≤ b.bestEnergyMilli

omit [Crates] in
theorem energies_markFirst (jobId : JobId) (cs : List Candidate) :
    (markFirst jobId cs).map (·.bestEnergyMilli) = cs.map (·.bestEnergyMilli) := by
  induction cs with
  | nil => rfl
  | cons c cs ih =>
    rw [markFirst]
    split_ifs
    · rfl
    · rw [List.map_cons, ih, List.map_cons]

theorem sorted_insert {s : WinStash} (h : s.Sorted) (cand : Candidate) :
    (s.insert cand).1.Sorted := by
  rw [insert]
  cases s.viabilityBlock cand.bestEnergyMilli with
  | none => exact h
  | some b => exact (List.pairwise_insertionSort_key _ _).sublist (List.take_sublist _ _)

theorem Built.sorted {s : WinStash} (h : s.Built) : s.Sorted := by
  induction h with
  | new k => exact List.Pairwise.nil
  | reset generation model block _ _ => exact List.Pairwise.nil
  | setAlgorithm algorithm _ ih => exact ih
  | insert cand _ ih => exact sorted_insert ih cand
  | @markSubmitted s jobId _ ih =>
    refine List.pairwise_map.mp ?_
    change ((markFirst jobId s.candidates).map (·.bestEnergyMilli)).Pairwise (· ≤ ·)
    rw [energies_markFirst]
    exact List.pairwise_map.mpr ih

/-- A candidate that a submit at `block` can win with. -/
structure Winning (s : WinStash) (block : Nat) (best : Option Int) (gates : QualityGates)
    (cand : Candidate) : Prop where
  mem : cand ∈ s.candidates
  unsubmitted : cand.submitted = false
  arrived : ∃ b, s.viabilityBlock cand.bestEnergyMilli = some b ∧ b ≤ block
  improves : beatsCurrent cand.bestEnergyMilli best = true
  clears : (checkProofGates cand.solutions gates).accepted = true

theorem dueAt_eq_some {s : WinStash} {block : Nat} {cand : Candidate}
    (h : s.dueAt block = some cand) :
    cand ∈ s.candidates ∧ cand.submitted = false ∧
      ∃ b, s.viabilityBlock cand.bestEnergyMilli = some b ∧ b ≤ block := by
  have hp := List.find?_some h
  simp only [Bool.and_eq_true, Bool.not_eq_true', Option.any_eq_true, decide_eq_true_eq] at hp
  exact ⟨List.mem_of_find?_eq_some h, hp.1, hp.2⟩

theorem dueAt_le {s : WinStash} (hs : s.Sorted) {block : Nat} {cand : Candidate}
    (hmem : cand ∈ s.candidates) (hsub : cand.submitted = false)
    (harr : ∃ b, s.viabilityBlock cand.bestEnergyMilli = some b ∧ b ≤ block) :
    ∃ first, s.dueAt block = some first ∧ first.bestEnergyMilli ≤ cand.bestEnergyMilli := by
  have hdue : (!cand.submitted &&
      (s.viabilityBlock cand.bestEnergyMilli).any fun b => b ≤ block) = true := by
    simp only [hsub, Bool.not_false, Bool.true_and, Option.any_eq_true, decide_eq_true_eq]
    exact harr
  cases hf : s.dueAt block with
  | none => exact absurd hdue (List.find?_eq_none.mp hf cand hmem)
  | some first => exact ⟨first, rfl, List.find?_key_le hs hf hmem hdue⟩

omit [Crates] in
theorem beatsCurrent_mono {a b : Int} {best : Option Int} (hle : a ≤ b)
    (h : beatsCurrent b best = true) : beatsCurrent a best = true := by
  cases best with
  | none => rfl
  | some e =>
    simp only [beatsCurrent, decide_eq_true_eq] at h ⊢
    omega

theorem dueImproving_eq_some_iff {s : WinStash} {block : Nat} {best : Option Int}
    {cand : Candidate} : s.dueImproving block best = some cand ↔
      s.dueAt block = some cand ∧ beatsCurrent cand.bestEnergyMilli best = true := by
  rw [dueImproving, Option.filter_eq_some_iff]
  cases best <;> simp [beatsCurrent]

/-- While some candidate can win, the due one that clears the gates is one that can win exactly
when the strongest due one clears them. -/
theorem winning_pick_iff {s : WinStash} (hs : s.Sorted) {block : Nat} {best : Option Int}
    {gates : QualityGates} (hex : ∃ cand, s.Winning block best gates cand) :
    (∃ cand, (s.dueImproving block best).filter
        (fun c => (checkProofGates c.solutions gates).accepted) = some cand ∧
        s.Winning block best gates cand) ↔
      ∀ first, s.dueAt block = some first → (checkProofGates first.solutions gates).accepted = true := by
  obtain ⟨cand, hcand⟩ := hex
  obtain ⟨first, hfirst, hle⟩ := dueAt_le hs hcand.mem hcand.unsubmitted hcand.arrived
  constructor
  · intro hpick c hc
    obtain ⟨picked, hp, -⟩ := hpick
    obtain ⟨himp, hclears⟩ := Option.filter_eq_some_iff.mp hp
    have heq : picked = c := Option.some.inj ((dueImproving_eq_some_iff.mp himp).1.symm.trans hc)
    exact heq ▸ hclears
  · intro hclears
    have hbeats := beatsCurrent_mono hle hcand.improves
    obtain ⟨hmem, hsub, harr⟩ := dueAt_eq_some hfirst
    refine ⟨first, ?_, hmem, hsub, harr, hbeats, hclears first hfirst⟩
    exact Option.filter_eq_some_iff.mpr
      ⟨dueImproving_eq_some_iff.mpr ⟨hfirst, hbeats⟩, hclears first hfirst⟩

end WinStash

namespace World
open CoordinatorState

theorem built_settle {st : CoordinatorState} (h : st.stash.Built) (o : PowOutcome)
    (retain : Bool) : (st.settle o retain).stash.Built := by
  rw [settle]
  split_ifs
  · exact .insert o.candidate h
  · exact h

theorem built_next (params : FeederParams) {w : World} (e : Section) (h : w.coord.stash.Built) :
    (w.next params e).coord.stash.Built := by
  cases hm : e.moves with
  | true =>
    rw [(next_moves params w hm).stash]
    exact h
  | false =>
    cases e with
    | settle o retain => exact built_settle h o retain
    | stopMining => exact .reset _ none 0 h
    | reseed snap qblockId decay => exact .reset _ _ _ h
    | topUp snap plans =>
      change (w.toStaging.topUp params snap plans).coord.stash.Built
      rw [(round_topUp params w.toStaging snap plans).2.2]
      exact .setAlgorithm _ h
    | stageMempoolOrders orders =>
      rw [(sameRound_next params w rfl).stash]
      exact h
    | winSuccess cand => exact .markSubmitted cand.jobId h
    | markSubmitted jobId => exact .markSubmitted jobId h
    | registerWakeup minerId grants => exact h
    | deregisterOutbound minerId => exact h
    | recordBest energy => exact h
    | _ => exact absurd hm Bool.noConfusion

/-- Every stash the coordinator can hold is built by the operations of the stash. -/
theorem built_reachable {params : FeederParams} {w : World}
    (h : (coordinatorMachine params).Reachable w) : w.coord.stash.Built :=
  h.invariant (I := fun w : World => w.coord.stash.Built) (.new winStashK)
    fun _ e _ hi _ => built_next params e hi

end World

def World.Winning (w : World) (snap : MiningSnapshot) (block : Nat) (cand : Candidate) : Prop :=
  (w.coord.stash.setAlgorithm (.forSpecVersion snap.specVersion)).Winning block
    w.coord.currentBestMilli (gatesFromTarget (some (targetFromSnapshot snap))) cand

/-- Whenever a candidate can win the poll submits one that can, exactly when the strongest due
candidate clears the live gates whenever a candidate can win. -/
theorem poll_submits_winning_iff_strongest_clears (params : FeederParams) (w : World)
    (c : Submissions) (snap : MiningSnapshot) (plans : List Plan) (block : Nat)
    (hbuilt : w.coord.stash.Built) :
    ((∃ cand, w.Winning snap block cand) → ∃ cand read,
        (c.next params w (.topUp snap plans block)).win = some (cand, read) ∧
          w.Winning snap block cand) ↔
      ((∃ cand, w.Winning snap block cand) → ∀ first,
        (w.coord.stash.setAlgorithm (.forSpecVersion snap.specVersion)).dueAt block = some first →
        (checkProofGates first.solutions
          (gatesFromTarget (some (targetFromSnapshot snap)))).accepted = true) := by
  obtain ⟨-, hbest, hstash⟩ := round_topUp params w.toStaging snap plans
  have hwin : (c.next params w (.topUp snap plans block)).win =
      (((w.coord.stash.setAlgorithm (.forSpecVersion snap.specVersion)).dueImproving block
        w.coord.currentBestMilli).filter fun cand => (checkProofGates cand.solutions
          (gatesFromTarget (some (targetFromSnapshot snap)))).accepted).map (·, c.now) := by
    change (Submissions.due params w snap plans block).map (·, c.now) = _
    rw [Submissions.due]
    change (((w.toStaging.topUp params snap plans).coord.stash.dueImproving block
      (w.toStaging.topUp params snap plans).coord.currentBestMilli).filter _).map _ = _
    rw [hbest, hstash]
  rw [hwin]
  refine forall_congr' fun hex => ?_
  rw [← WinStash.winning_pick_iff (hbuilt.setAlgorithm _).sorted hex]
  constructor
  · intro hpick
    obtain ⟨cand, read, hmap, hcand⟩ := hpick
    obtain ⟨picked, hp, heq⟩ := Option.map_eq_some_iff.mp hmap
    obtain ⟨rfl, -⟩ := Prod.mk.inj heq
    exact ⟨picked, hp, hcand⟩
  · intro hpick
    obtain ⟨cand, hp, hcand⟩ := hpick
    exact ⟨cand, c.now, Option.map_eq_some_iff.mpr ⟨cand, hp, rfl⟩, hcand⟩

end

namespace Sample

/-- Two solutions to a proof, and a stash whose ceiling does not ease. -/
def pairSnap : MiningSnapshot := { snap with minSolutions := 2 }

def stashed (jobId : JobId) (energy : Int) (solutions : List SpinRow) : Candidate :=
  ⟨jobId, none, 1, energy, 0, 0, solutions, true, [], 0, false⟩

def strong : Candidate := stashed [1] (-30) [⟨[1, 1], -30⟩]

def weak : Candidate := stashed [2] (-20) [⟨[1, 1], -20⟩, ⟨[1, -1], -10⟩]

def armed (cands : List Candidate) : World :=
  { World.init with
    coord := { CoordinatorState.new with
      stash := cands.foldl (fun s cand => (s.insert cand).1)
        ((WinStash.new winStashK).reset 1 (some ⟨0, none, 100, .stepwise⟩) 0) } }

end Sample

open Sample in
theorem poll_submits_winning_iff_strongest_clears_sample :
    (armed [weak]).Winning pairSnap 10 weak ∧ ∃ cand read,
      (Submissions.init.next params (armed [weak]) (.topUp pairSnap [] 10)).win = some (cand, read) ∧
        (armed [weak]).Winning pairSnap 10 cand := by
  have hweak : (armed [weak]).Winning pairSnap 10 weak :=
    ⟨by decide +kernel, rfl, ⟨0, by decide +kernel⟩, rfl, by decide +kernel⟩
  refine ⟨hweak, (poll_submits_winning_iff_strongest_clears params (armed [weak]) .init pairSnap []
    10 (.insert weak (.reset _ _ _ (.new _)))).mpr ?_ ⟨weak, hweak⟩⟩
  intro _ first hfirst
  have hdue : ((armed [weak]).coord.stash.setAlgorithm
      (.forSpecVersion pairSnap.specVersion)).dueAt 10 = some weak := by decide +kernel
  rw [Option.some.inj (hfirst.symm.trans hdue)]
  decide +kernel

open Sample in
/-- The strong candidate has one row where the live gates ask for two, so the poll submits nothing
although the weak candidate can win. -/
theorem strong_candidate_starves_weak :
    (armed [strong, weak]).Winning pairSnap 10 weak ∧
      (Submissions.init.next params (armed [strong, weak]) (.topUp pairSnap [] 10)).win = none :=
  ⟨⟨by decide +kernel, rfl, ⟨0, by decide +kernel⟩, rfl, by decide +kernel⟩, by decide +kernel⟩

end QuipCoordinator
