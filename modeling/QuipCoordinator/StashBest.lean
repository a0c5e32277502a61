import QuipCoordinator.FoundationMachine
import QuipCoordinator.FoundationTopK
import QuipCoordinator.WinTime

/-!
# What the stash holds

A run of the stash is any order of its calls. Beside the stash the run keeps the
candidates that were viable when they came since the last reset, with the marks
they got. While their job ids are distinct the stash holds the best of them.
-/

namespace QuipCoordinator

inductive StashCall
  | insert (cand : Candidate)
  | markSubmitted (jobId : JobId)
  | setAlgorithm (algorithm : DecayAlgorithm)
  | reset (generation : Nat) (model : Option DecayModel) (lastProofBlock : Nat)

def Candidate.mark (jobId : JobId) (c : Candidate) : Candidate :=
  if c.jobId = jobId then { c with submitted := true } else c

@[simp] theorem Candidate.jobId_mark (jobId : JobId) (c : Candidate) :
    (c.mark jobId).jobId = c.jobId := by
  rw [mark]
  split_ifs <;> rfl

@[simp] theorem Candidate.bestEnergyMilli_mark (jobId : JobId) (c : Candidate) :
    (c.mark jobId).bestEnergyMilli = c.bestEnergyMilli := by
  rw [mark]
  split_ifs <;> rfl

structure StashRun where
  stash : WinStash
  viable : List Candidate
deriving DecidableEq

namespace WinStash

def ranked (cands : List Candidate) : List Candidate :=
  cands.insertionSort fun a b => a.bestEnergyMilli ≤ b.bestEnergyMilli

theorem markFirst_eq_map {jobId : JobId} {cs : List Candidate} (h : (cs.map (·.jobId)).Nodup) :
    markFirst jobId cs = cs.map (.mark jobId) := by
  induction cs with
  | nil => rfl
  | cons c cs ih =>
    rw [List.map_cons, List.nodup_cons] at h
    rw [markFirst, List.map_cons, Candidate.mark]
    by_cases hc : c.jobId = jobId
    · have hrest : cs.map (Candidate.mark jobId) = cs := by
        refine (List.map_congr_left ?_).trans cs.map_id
        intro d hd
        refine if_neg ?_
        intro hj
        exact h.1 (List.mem_map.mpr ⟨d, hd, hj.trans hc.symm⟩)
      rw [if_pos hc, if_pos hc, hrest]
    · rw [if_neg hc, if_neg hc, ih h.2]

theorem ranked_map_mark (jobId : JobId) (cs : List Candidate) :
    ranked (cs.map (.mark jobId)) = (ranked cs).map (.mark jobId) := by
  symm
  apply List.map_insertionSort
  intro a _ b _
  rw [Candidate.bestEnergyMilli_mark, Candidate.bestEnergyMilli_mark]

theorem mem_of_mem_take_ranked {k : Nat} {cs : List Candidate} {c : Candidate}
    (h : c ∈ (ranked cs).take k) : c ∈ cs :=
  (List.mem_insertionSort _).mp (List.mem_of_mem_take h)

theorem nodup_take_ranked {k : Nat} {cs : List Candidate} (h : (cs.map (·.jobId)).Nodup) :
    (((ranked cs).take k).map (·.jobId)).Nodup := by
  have hall : ((ranked cs).map (·.jobId)).Nodup :=
    ((cs.perm_insertionSort _).map _).nodup_iff.mpr h
  exact hall.sublist ((List.take_sublist k _).map _)

end WinStash

section
variable [Crates]

def WinStash.call (s : WinStash) : StashCall → WinStash
  | .insert cand => (s.insert cand).1
  | .markSubmitted jobId => s.markSubmitted jobId
  | .setAlgorithm algorithm => s.setAlgorithm algorithm
  | .reset generation model lastProofBlock => s.reset generation model lastProofBlock

theorem WinStash.Built.call {s : WinStash} (h : s.Built) (e : StashCall) : (s.call e).Built := by
  cases e with
  | insert cand => exact h.insert cand
  | markSubmitted jobId => exact h.markSubmitted jobId
  | setAlgorithm algorithm => exact h.setAlgorithm algorithm
  | reset generation model lastProofBlock => exact h.reset generation model lastProofBlock

namespace StashRun

def next (r : StashRun) (e : StashCall) : StashRun where
  stash := r.stash.call e
  viable :=
    match e with
    | .insert cand =>
      if (r.stash.viabilityBlock cand.bestEnergyMilli).isSome then r.viable ++ [cand] else r.viable
    | .markSubmitted jobId => r.viable.map (.mark jobId)
    | .setAlgorithm _ => r.viable
    | .reset _ _ _ => []

omit [Crates] in
/-- No job id is inserted twice in a generation. -/
def Fresh (r : StashRun) : StashCall → Prop
  | .insert cand => cand.jobId ∉ r.viable.map (·.jobId)
  | _ => True

omit [Crates] in
instance (r : StashRun) : (e : StashCall) → Decidable (r.Fresh e)
  | .insert cand => inferInstanceAs (Decidable (cand.jobId ∉ r.viable.map (·.jobId)))
  | .markSubmitted _ | .setAlgorithm _ | .reset _ _ _ => .isTrue trivial

structure Kept (k : Nat) (r : StashRun) : Prop where
  cap : r.stash.k = max k 1
  held : r.stash.candidates = (WinStash.ranked r.viable).take r.stash.k
  ids : (r.viable.map (·.jobId)).Nodup

end StashRun

def stashMachine (k : Nat) : Machine StashRun StashCall where
  init := ⟨.new k, []⟩
  allowed := StashRun.Fresh
  next := StashRun.next

instance (k : Nat) (r : StashRun) (e : StashCall) :
    Decidable ((stashMachine k).allowed r e) := inferInstanceAs (Decidable (r.Fresh e))

namespace StashRun
variable {k : Nat} {r : StashRun}

theorem insert_eq_of_viable {s : WinStash} {cand : Candidate}
    (h : (s.viabilityBlock cand.bestEnergyMilli).isSome = true) :
    s.insert cand = ({ s with candidates := (WinStash.ranked (s.candidates ++ [cand])).take s.k },
      ((WinStash.ranked (s.candidates ++ [cand])).take s.k).any fun c => c.jobId == cand.jobId) := by
  obtain ⟨b, hb⟩ := Option.isSome_iff_exists.mp h
  rw [WinStash.insert, hb]
  rfl

theorem insert_eq_of_not_viable {s : WinStash} {cand : Candidate}
    (h : ¬(s.viabilityBlock cand.bestEnergyMilli).isSome = true) : s.insert cand = (s, false) := by
  rw [WinStash.insert, Option.not_isSome_iff_eq_none.mp h]

theorem Kept.insert (h : r.Kept k) {cand : Candidate} (hfresh : r.Fresh (.insert cand)) :
    (r.next (.insert cand)).Kept k := by
  by_cases hv : (r.stash.viabilityBlock cand.bestEnergyMilli).isSome = true
  · have hnext : r.next (.insert cand) =
        ⟨{ r.stash with candidates := (WinStash.ranked (r.viable ++ [cand])).take r.stash.k },
          r.viable ++ [cand]⟩ := by
      have htop := List.take_insertionSort_concat Candidate.bestEnergyMilli r.stash.k r.viable cand
      simp only [next, WinStash.call, if_pos hv, insert_eq_of_viable hv, h.held, WinStash.ranked, htop]
    rw [hnext]
    refine ⟨h.cap, rfl, ?_⟩
    rw [List.map_append]
    exact List.nodup_append_comm.mp (List.nodup_cons.mpr ⟨hfresh, h.ids⟩)
  · have hnext : r.next (.insert cand) = r := by
      simp only [next, WinStash.call, if_neg hv, insert_eq_of_not_viable hv]
    rw [hnext]
    exact h

theorem Kept.markSubmitted (h : r.Kept k) (jobId : JobId) :
    (r.next (.markSubmitted jobId)).Kept k := by
  refine ⟨h.cap, ?_, ?_⟩
  · change WinStash.markFirst jobId r.stash.candidates = (WinStash.ranked (r.viable.map _)).take _
    have hids := WinStash.nodup_take_ranked (k := r.stash.k) h.ids
    rw [WinStash.ranked_map_mark, h.held, WinStash.markFirst_eq_map hids, List.map_take]
    rfl
  · change ((r.viable.map (Candidate.mark jobId)).map (·.jobId)).Nodup
    rw [List.map_map]
    simpa only [Function.comp_def, Candidate.jobId_mark] using h.ids

theorem Kept.next (h : r.Kept k) {e : StashCall} (hfresh : r.Fresh e) : (r.next e).Kept k := by
  cases e with
  | insert cand => exact h.insert hfresh
  | markSubmitted jobId => exact h.markSubmitted jobId
  | setAlgorithm algorithm => exact ⟨h.cap, h.held, h.ids⟩
  | reset generation model lastProofBlock => exact ⟨h.cap, List.take_nil.symm, List.nodup_nil⟩

theorem kept_reachable (h : (stashMachine k).Reachable r) : r.Kept k := by
  induction h with
  | init => exact ⟨rfl, List.take_nil.symm, List.nodup_nil⟩
  | step _ hfresh ih => exact ih.next hfresh

theorem built_reachable (h : (stashMachine k).Reachable r) : r.stash.Built := by
  induction h with
  | init => exact .new k
  | step _ _ ih => exact ih.call _

theorem insert_held_iff (h : r.Kept k) {cand : Candidate} (hfresh : r.Fresh (.insert cand)) :
    (r.stash.insert cand).2 = true ↔ cand ∈ (r.stash.insert cand).1.candidates := by
  have hids : ∀ c ∈ r.stash.candidates, c.jobId ≠ cand.jobId := by
    intro c hc hid
    rw [h.held] at hc
    exact hfresh (hid ▸ List.mem_map_of_mem (WinStash.mem_of_mem_take_ranked hc))
  by_cases hv : (r.stash.viabilityBlock cand.bestEnergyMilli).isSome = true
  · rw [insert_eq_of_viable hv]
    simp only [List.any_eq_true, beq_iff_eq]
    constructor
    · intro hany
      obtain ⟨c, hc, hid⟩ := hany
      rcases List.mem_append.mp (WinStash.mem_of_mem_take_ranked hc) with hold | hnew
      · exact absurd hid (hids c hold)
      · rwa [List.mem_singleton.mp hnew] at hc
    · exact fun hc => ⟨cand, hc, rfl⟩
  · rw [insert_eq_of_not_viable hv]
    simp only [Bool.false_eq_true, false_iff]
    exact fun hc => hids cand hc rfl

end StashRun

namespace WinStash

structure DueImproving (s : WinStash) (block : Nat) (best : Option Int) (cand : Candidate) :
    Prop where
  mem : cand ∈ s.candidates
  unsubmitted : cand.submitted = false
  arrived : ∃ b, s.viabilityBlock cand.bestEnergyMilli = some b ∧ b ≤ block
  improves : ∀ b ∈ best, cand.bestEnergyMilli < b

theorem DueImproving.of_some {s : WinStash} {block : Nat} {best : Option Int} {cand : Candidate}
    (h : s.dueImproving block best = some cand) : s.DueImproving block best cand := by
  obtain ⟨hdue, hbest⟩ := dueImproving_eq_some_iff.mp h
  obtain ⟨hmem, hsub, harr⟩ := dueAt_eq_some hdue
  refine ⟨hmem, hsub, harr, ?_⟩
  intro b hb
  cases hb
  exact of_decide_eq_true hbest

theorem DueImproving.picked {s : WinStash} (hs : s.Sorted) {block : Nat} {best : Option Int}
    {cand : Candidate} (h : s.DueImproving block best cand) :
    ∃ first, s.dueImproving block best = some first ∧
      first.bestEnergyMilli ≤ cand.bestEnergyMilli := by
  obtain ⟨first, hfirst, hle⟩ := dueAt_le hs h.mem h.unsubmitted h.arrived
  refine ⟨first, dueImproving_eq_some_iff.mpr ⟨hfirst, beatsCurrent_mono hle ?_⟩, hle⟩
  cases best with
  | none => rfl
  | some b => exact decide_eq_true (h.improves b rfl)

end WinStash

/-- The stash holds the best of what was viable when it came, says of an insert whether it is
held, and offers the best due candidate that improves. -/
theorem stash_keeps_best {k : Nat} {r : StashRun} (h : (stashMachine k).Reachable r) :
    r.stash.Sorted ∧ r.stash.candidates.length ≤ max k 1 ∧
    List.Best Candidate.bestEnergyMilli (max k 1) r.viable r.stash.candidates ∧
    (∀ cand, r.Fresh (.insert cand) →
      ((r.stash.insert cand).2 = true ↔ cand ∈ (r.stash.insert cand).1.candidates)) ∧
    ∀ block best,
      ((r.stash.dueImproving block best).isSome = true ↔
        ∃ cand, r.stash.DueImproving block best cand) ∧
      ∀ picked, r.stash.dueImproving block best = some picked →
        r.stash.DueImproving block best picked ∧
        ∀ cand, r.stash.DueImproving block best cand →
          picked.bestEnergyMilli ≤ cand.bestEnergyMilli := by
  have hkept := StashRun.kept_reachable h
  have hsorted := (StashRun.built_reachable h).sorted
  refine ⟨hsorted, ?_, ?_, fun cand hfresh => StashRun.insert_held_iff hkept hfresh, ?_⟩
  · rw [hkept.held, ← hkept.cap]
    exact List.length_take_le _ _
  · rw [hkept.held, hkept.cap]
    exact List.best_take_insertionSort Candidate.bestEnergyMilli _ _
  · intro block best
    refine ⟨⟨?_, ?_⟩, ?_⟩
    · intro hsome
      obtain ⟨cand, hcand⟩ := Option.isSome_iff_exists.mp hsome
      exact ⟨cand, .of_some hcand⟩
    · intro hex
      obtain ⟨cand, hcand⟩ := hex
      obtain ⟨first, hfirst, -⟩ := hcand.picked hsorted
      exact Option.isSome_iff_exists.mpr ⟨first, hfirst⟩
    · intro picked hpicked
      refine ⟨.of_some hpicked, ?_⟩
      intro cand hcand
      obtain ⟨first, hfirst, hle⟩ := hcand.picked hsorted
      rw [Option.some.inj (hpicked.symm.trans hfirst)]
      exact hle

end

namespace Sample

def stashCalls : List StashCall :=
  [.reset 1 (some ⟨0, none, 100, .stepwise⟩) 0, .insert weak, .insert strong]

end Sample

open Sample in
theorem stash_keeps_best_sample :
    List.Best Candidate.bestEnergyMilli 1 [weak, strong] [strong] := by
  have hbest := (stash_keeps_best
    (Machine.reachable_run (M := stashMachine 0) stashCalls (by decide +kernel))).2.2.1
  have hrun : (stashMachine 0).run (stashMachine 0).init stashCalls =
      ⟨⟨1, some ⟨0, none, 100, .stepwise⟩, 0, 1, [strong]⟩, [weak, strong]⟩ := by decide +kernel
  rw [hrun] at hbest
  exact hbest

end QuipCoordinator
