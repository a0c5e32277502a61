import Mathlib.Data.List.MinMax
import Mathlib.Data.List.Sublists
import QuipCoordinator.FoundationPick
import QuipCoordinator.Validate

/-!
# The selected rows clear the gates they were selected under

`validateScored` judges the deduplicated rows and submits only a selection of
them, which the chain filters and selects from once more. The second selection
has as many rows to choose from as it chooses, so it picks all of them, in some
order, and scores what the first one scored.
-/

namespace QuipCoordinator
open Crates

def IsSpins (row : List Int) : Prop := ∀ s ∈ row, s = 1 ∨ s = -1

/-- What the linked crate promises on spin rows: `selectDiverse` picks as many distinct rows as it
is asked for, and the diversity of a set does not depend on its order. -/
structure SelectionLaws [Crates] : Prop where
  select : ∀ rows t, (∀ row ∈ rows, IsSpins row) → t ≤ rows.length →
    ∃ idx, selectDiverse rows t = some idx ∧ idx.length = t ∧ idx.Nodup ∧
      ∀ i ∈ idx, i < rows.length
  perm : ∀ rows rows' : List (List Int), rows.Perm rows' → (∀ row ∈ rows, IsSpins row) →
    calculateDiversity rows = calculateDiversity rows'

def flipSpins (spins : List Int) : List Int := spins.map fun s => -s

theorem canonicalizeSpins_flip {spins : List Int} (h : IsSpins spins) :
    canonicalizeSpins (flipSpins spins) = canonicalizeSpins spins := by
  cases spins with
  | nil => rfl
  | cons s rest =>
    have hback : (flipSpins rest).map (fun s => -s) = rest := by simp [flipSpins]
    rcases h s List.mem_cons_self with rfl | rfl
    · simp [canonicalizeSpins, flipSpins] at hback ⊢
    · simp [canonicalizeSpins, flipSpins]

section FirstOccurrences
variable {α κ : Type} [DecidableEq κ] (key : α → κ)

theorem mem_of_mem_firstOccurrences {seen : List κ} {l : List α} {a : α}
    (h : a ∈ firstOccurrences key seen l) : a ∈ l := by
  induction l generalizing seen with
  | nil => exact h
  | cons b l ih =>
    rw [firstOccurrences] at h
    split_ifs at h
    · exact List.mem_cons_of_mem _ (ih h)
    · rcases List.mem_cons.mp h with rfl | h
      · exact List.mem_cons_self
      · exact List.mem_cons_of_mem _ (ih h)

theorem key_notMem_of_mem_firstOccurrences {seen : List κ} {l : List α} {a : α}
    (h : a ∈ firstOccurrences key seen l) : key a ∉ seen := by
  induction l generalizing seen with
  | nil => exact absurd h List.not_mem_nil
  | cons b l ih =>
    rw [firstOccurrences] at h
    split_ifs at h with hb
    · exact ih h
    · rcases List.mem_cons.mp h with rfl | h
      · exact hb
      · exact fun hs => ih h (List.mem_cons_of_mem _ hs)

theorem nodup_keys_firstOccurrences (seen : List κ) (l : List α) :
    ((firstOccurrences key seen l).map key).Nodup := by
  induction l generalizing seen with
  | nil => exact List.nodup_nil
  | cons b l ih =>
    rw [firstOccurrences]
    split_ifs with hb
    · exact ih seen
    · rw [List.map_cons]
      refine List.nodup_cons.mpr ⟨?_, ih _⟩
      intro hmem
      obtain ⟨a, ha, hab⟩ := List.mem_map.mp hmem
      exact key_notMem_of_mem_firstOccurrences key ha (hab ▸ List.mem_cons_self)

end FirstOccurrences

/-- The positions `validateScored` judges: under the ceiling, one for each row up to a flip. -/
def uniqueValid (rows : List (List Int)) (energies : List Int) (gates : QualityGates) : List Nat :=
  firstOccurrences (fun i => canonicalizeSpins (rows.getD i [])) []
    ((List.range energies.length).filter fun i => energies.getD i 0 < gates.minEnergyMilli)

theorem mem_uniqueValid {rows : List (List Int)} {energies : List Int} {gates : QualityGates}
    {i : Nat} (h : i ∈ uniqueValid rows energies gates) :
    i < energies.length ∧ energies.getD i 0 < gates.minEnergyMilli := by
  have hi := List.mem_filter.mp (mem_of_mem_firstOccurrences _ h)
  exact ⟨List.mem_range.mp hi.1, of_decide_eq_true hi.2⟩

def rowAt (rows : List (List Int)) (energies : List Int) (i : Nat) : SpinRow :=
  ⟨rows.getD i [], energies.getD i 0⟩

theorem isSpins_getD {rows : List (List Int)} (h : ∀ row ∈ rows, IsSpins row) (i : Nat) :
    IsSpins (rows.getD i []) := by
  rw [List.getD_eq_getElem?_getD]
  cases hi : rows[i]? with
  | none => exact fun s hs => absurd hs List.not_mem_nil
  | some row => exact h row (List.mem_of_getElem? hi)

theorem isSpins_map_getD {rows : List (List Int)} (h : ∀ row ∈ rows, IsSpins row) (l : List Nat) :
    ∀ row ∈ l.map fun i => rows.getD i [], IsSpins row := by
  intro row hrow
  obtain ⟨i, -, rfl⟩ := List.mem_map.mp hrow
  exact isSpins_getD h i

section
variable [Crates]

theorem selectAndScore_spec (laws : SelectionLaws) {rows : List (List Int)}
    (h : ∀ row ∈ rows, IsSpins row) (minSolutions : Nat) :
    ∃ idx, selectAndScore rows minSolutions =
        (idx, (calculateDiversity (rows.pick idx)).getD 0) ∧
      idx.length = min rows.length (max minSolutions 1) ∧ idx.Nodup ∧
      ∀ i ∈ idx, i < rows.length := by
  obtain ⟨idx, hsel, hlen, hn, hlt⟩ :=
    laws.select rows (min rows.length (max minSolutions 1)) h (min_le_left _ _)
  refine ⟨idx, ?_, hlen, hn, hlt⟩
  rw [selectAndScore]
  simp only [hsel, Option.getD_some]
  rfl

theorem selectAndScore_all (laws : SelectionLaws) {rows : List (List Int)}
    (h : ∀ row ∈ rows, IsSpins row) {minSolutions : Nat} (hle : rows.length ≤ max minSolutions 1) :
    (selectAndScore rows minSolutions).2 = (calculateDiversity rows).getD 0 := by
  obtain ⟨idx, hscore, hlen, hn, hlt⟩ := selectAndScore_spec laws h minSolutions
  have hperm : (rows.pick idx).Perm rows :=
    List.pick_perm hn hlt (hlen.trans (min_eq_left hle))
  rw [hscore, laws.perm rows (rows.pick idx) hperm.symm h]

theorem validateScored_accepted {rows : List (List Int)} {energies : List Int}
    {gates : QualityGates} (h : (validateScored rows energies gates).accepted = true) :
    gates.minSolutions ≤ (uniqueValid rows energies gates).length % 2 ^ 32 ∧
      gates.minDiversityMilli ≤ (validateScored rows energies gates).diversityMilli :=
  of_decide_eq_true h

theorem validateScored_of_select {rows : List (List Int)} {energies : List Int}
    {gates : QualityGates} (hne : uniqueValid rows energies gates ≠ []) {idx : List Nat} {d : Nat}
    (h : selectAndScore ((uniqueValid rows energies gates).map fun i => rows.getD i [])
      gates.minSolutions = (idx, d)) :
    let picked := (uniqueValid rows energies gates).pick idx
    let v := validateScored rows energies gates
    v.bestEnergyMilli = (picked.map fun i => energies.getD i 0).min?.getD i64Max ∧
      v.diversityMilli = d ∧
      v.selectedSolutions = (picked.take maxProofSolutions).map (rowAt rows energies) := by
  have hempty : (uniqueValid rows energies gates).isEmpty = false := by
    simpa using hne
  unfold uniqueValid at h hempty
  simp only [validateScored, hempty, h]
  exact ⟨rfl, rfl, rfl⟩

omit [Crates] in
def admittedRows (sols : List SpinRow) (gates : QualityGates) : List SpinRow :=
  sols.filter fun s => s.energyMilli < gates.minEnergyMilli

theorem checkProofGates_of_min {sols : List SpinRow} {gates : QualityGates} {best : Int}
    (hbest : ((admittedRows sols gates).map (·.energyMilli)).min? = some best) :
    checkProofGates sols gates =
      let admitted := admittedRows sols gates
      let diversity := (selectAndScore (admitted.map (·.spins)) gates.minSolutions).2
      { bestEnergyMilli := best
        diversityMilli := diversity
        nValid := admitted.length % 2 ^ 32
        accepted := decide (gates.minSolutions ≤ admitted.length % 2 ^ 32 ∧
          gates.minDiversityMilli ≤ diversity) } := by
  unfold admittedRows at hbest ⊢
  simp only [checkProofGates, hbest, List.length_map]

omit [Crates] in
theorem exists_min_energy {sols : List SpinRow} (h : sols ≠ []) :
    ∃ best, (sols.map (·.energyMilli)).min? = some best := by
  cases hb : (sols.map (·.energyMilli)).min? with
  | some best => exact ⟨best, rfl⟩
  | none => exact absurd (List.map_eq_nil_iff.mp (List.min?_eq_none_iff.mp hb)) h

theorem checkProofGates_accepted_iff (sols : List SpinRow) (gates : QualityGates) :
    (checkProofGates sols gates).accepted = true ↔
      admittedRows sols gates ≠ [] ∧
        gates.minSolutions ≤ (admittedRows sols gates).length % 2 ^ 32 ∧
        gates.minDiversityMilli ≤
          (selectAndScore ((admittedRows sols gates).map (·.spins)) gates.minSolutions).2 := by
  by_cases hne : admittedRows sols gates = []
  · have hfilter := hne
    unfold admittedRows at hfilter
    simp [checkProofGates, hfilter, hne]
  · obtain ⟨best, hbest⟩ := exists_min_energy hne
    rw [checkProofGates_of_min hbest]
    simp [hne]

omit [Crates] in
theorem pairwise_rowAt {rows : List (List Int)} (h : ∀ row ∈ rows, IsSpins row)
    (energies : List Int) {l : List Nat}
    (hn : (l.map fun i => canonicalizeSpins (rows.getD i [])).Nodup) :
    (l.map (rowAt rows energies)).Pairwise fun a b =>
      a.spins ≠ b.spins ∧ a.spins ≠ flipSpins b.spins := by
  refine List.pairwise_map.mpr ((List.pairwise_map.mp hn).imp ?_)
  intro i j hij
  refine ⟨?_, ?_⟩
  · intro heq
    exact hij (congrArg canonicalizeSpins heq)
  · intro heq
    exact hij ((congrArg canonicalizeSpins heq).trans
      (canonicalizeSpins_flip (isSpins_getD h j)))

omit [Crates] in
theorem rowAt_mem {rows : List (List Int)} {energies : List Int}
    (hlen : energies.length = rows.length) {i : Nat} (hi : i < energies.length) :
    rows[i]? = some (rowAt rows energies i).spins ∧
      energies[i]? = some (rowAt rows energies i).energyMilli := by
  have hir : i < rows.length := hlen ▸ hi
  simp [rowAt, hi, hir]

/-- A proof that `validateScored` accepts is a set of input rows with their energies, distinct up
to a flip, that `checkProofGates` accepts with the same diversity and best energy. -/
theorem accepted_selection_passes_gates (laws : SelectionLaws) (rows : List (List Int))
    (energies : List Int) (gates : QualityGates) (hspin : ∀ row ∈ rows, IsSpins row)
    (hlen : energies.length = rows.length) (hmin : 1 ≤ gates.minSolutions)
    (hmax : gates.minSolutions ≤ maxProofSolutions)
    (hacc : (validateScored rows energies gates).accepted = true) :
    let v := validateScored rows energies gates
    let chain := checkProofGates v.selectedSolutions gates
    v.selectedSolutions ≠ [] ∧ v.selectedSolutions.length ≤ maxProofSolutions ∧
      (∀ s ∈ v.selectedSolutions, ∃ i : Nat,
        rows[i]? = some s.spins ∧ energies[i]? = some s.energyMilli) ∧
      v.selectedSolutions.Pairwise (fun a b =>
        a.spins ≠ b.spins ∧ a.spins ≠ flipSpins b.spins) ∧
      chain.accepted = true ∧ chain.diversityMilli = v.diversityMilli ∧
      chain.bestEnergyMilli = v.bestEnergyMilli := by
  obtain ⟨hcount, hdiv⟩ := validateScored_accepted hacc
  have hcount : gates.minSolutions ≤ (uniqueValid rows energies gates).length :=
    hcount.trans (Nat.mod_le _ _)
  have hne : uniqueValid rows energies gates ≠ [] := by
    intro hnil
    rw [hnil, List.length_nil] at hcount
    omega
  obtain ⟨idx, hscore, hidx, hn, hlt⟩ := selectAndScore_spec laws
    (isSpins_map_getD hspin (uniqueValid rows energies gates)) gates.minSolutions
  obtain ⟨hbest, hd, hsel⟩ := validateScored_of_select hne hscore
  rw [List.length_map, max_eq_left hmin, min_eq_right hcount] at hidx
  rw [List.length_map] at hlt
  generalize hp : (uniqueValid rows energies gates).pick idx = picked at hbest hsel
  have hplen : picked.length = gates.minSolutions := by
    rw [← hp, List.length_pick hlt, hidx]
  have hmem : ∀ i ∈ picked, i < energies.length ∧ energies.getD i 0 < gates.minEnergyMilli := by
    intro i hi
    exact mem_uniqueValid (List.mem_of_mem_pick (hp ▸ hi))
  -- the bound on a proof cuts nothing off
  rw [List.take_of_length_le (hplen.trans_le hmax)] at hsel
  have hsols : picked.map (rowAt rows energies) ≠ [] := by
    intro hnil
    rw [List.map_eq_nil_iff.mp hnil, List.length_nil] at hplen
    omega
  obtain ⟨best, hmin?⟩ := exists_min_energy hsols
  have hspins : ((picked.map (rowAt rows energies)).map (·.spins)) =
      ((uniqueValid rows energies gates).map fun i => rows.getD i []).pick idx := by
    rw [← List.map_pick, hp, List.map_map]
    rfl
  have hadm : admittedRows (picked.map (rowAt rows energies)) gates =
      picked.map (rowAt rows energies) := by
    refine List.filter_eq_self.mpr ?_
    intro s hs
    obtain ⟨i, hi, rfl⟩ := List.mem_map.mp hs
    exact decide_eq_true (hmem i hi).2
  have hmin' : ((admittedRows (picked.map (rowAt rows energies)) gates).map
      (·.energyMilli)).min? = some best := by
    rw [hadm]
    exact hmin?
  have hchain := checkProofGates_of_min hmin'
  have hrows : ∀ row ∈ (picked.map (rowAt rows energies)).map (·.spins), IsSpins row := by
    rw [List.map_map]
    exact isSpins_map_getD hspin picked
  have hagain : (selectAndScore ((picked.map (rowAt rows energies)).map (·.spins))
      gates.minSolutions).2 = (validateScored rows energies gates).diversityMilli := by
    rw [selectAndScore_all laws hrows (by simp [hplen]), hd, hspins]
  have hsmall : gates.minSolutions % 2 ^ 32 = gates.minSolutions :=
    Nat.mod_eq_of_lt (hmax.trans_lt (by decide))
  dsimp only
  rw [hsel, hchain, hadm]
  refine ⟨hsols, ?_, ?_, ?_, ?_, hagain, ?_⟩
  · rw [List.length_map, hplen]
    exact hmax
  · intro s hs
    obtain ⟨i, hi, rfl⟩ := List.mem_map.mp hs
    exact ⟨i, rowAt_mem hlen (hmem i hi).1⟩
  · refine pairwise_rowAt hspin energies ?_
    rw [← hp, List.map_pick]
    exact List.nodup_pick (nodup_keys_firstOccurrences _ _ _) hn
  · refine decide_eq_true ⟨?_, ?_⟩
    · rw [List.length_map, hplen, hsmall]
    · rw [hagain]
      exact hdiv
  · rw [List.map_map] at hmin?
    rw [hbest]
    exact (congrArg (·.getD i64Max) hmin?).symm

end

/-! A selection that computes, for closed rows: the distance of two rows is the
number of spins in which they differ, up to a flip, the diversity of a set is the
mean over its pairs in thousandths of a row, and the selection tries every subset. -/

namespace Separation

/-- The distance of two rows and the number of spins it is out of. -/
def distance (a b : List Int) : Nat × Nat :=
  let differing := (a.zipWith (fun s t => if s = t then 0 else 1) b).sum
  let spins := min a.length b.length
  (min differing (spins - differing), spins)

def distances : List (List Int) → List (Nat × Nat)
  | [] => []
  | a :: rows => rows.map (distance a) ++ distances rows

def meanMilli (rows : List (List Int)) : Nat :=
  1000 * ((distances rows).map Prod.fst).sum / ((distances rows).map Prod.snd).sum

def mostSeparated (rows : List (List Int)) (t : Nat) : Option (List Nat) :=
  (List.sublistsLen t (List.range rows.length)).argmax fun idx => meanMilli (rows.pick idx)

scoped instance crates : Crates :=
  { Sample.crates with
    selectDiverse := mostSeparated
    calculateDiversity := fun rows => some (meanMilli rows) }

theorem distance_comm (a b : List Int) : distance a b = distance b a := by
  have hzip : a.zipWith (fun s t => if s = t then 0 else 1) b =
      b.zipWith (fun s t => if s = t then 0 else 1) a :=
    List.zipWith_comm_of_comm fun s t => by simp only [eq_comm]
  simp only [distance, hzip, min_comm b.length]

theorem distances_perm {rows rows' : List (List Int)} (h : rows.Perm rows') :
    (distances rows).Perm (distances rows') := by
  induction h with
  | nil => exact .nil
  | cons a h ih => exact (h.map (distance a)).append ih
  | swap a b l =>
    simp only [distances, List.map_cons, List.cons_append, distance_comm b a]
    refine .cons _ ?_
    rw [← List.append_assoc, ← List.append_assoc]
    exact List.perm_append_comm.append_right _
  | trans _ _ ih ih' => exact ih.trans ih'

theorem meanMilli_perm {rows rows' : List (List Int)} (h : rows.Perm rows') :
    meanMilli rows = meanMilli rows' := by
  have hd := distances_perm h
  rw [meanMilli, meanMilli, (hd.map Prod.fst).sum_eq, (hd.map Prod.snd).sum_eq]

theorem selectionLaws : SelectionLaws where
  select := by
    intro rows t _ ht
    have hne : List.sublistsLen t (List.range rows.length) ≠ [] := by
      intro hnil
      have hlen := List.length_sublistsLen t (List.range rows.length)
      rw [hnil, List.length_nil, List.length_range] at hlen
      exact (Nat.choose_pos ht).ne hlen
    cases harg : mostSeparated rows t with
    | none => exact absurd (List.argmax_eq_none.mp harg) hne
    | some idx =>
      obtain ⟨hsub, hlen⟩ := List.mem_sublistsLen.mp (List.argmax_mem harg)
      refine ⟨idx, harg, hlen, hsub.nodup List.nodup_range, ?_⟩
      exact fun i hi => List.mem_range.mp (hsub.subset hi)
  perm := fun rows rows' h _ => congrArg some (meanMilli_perm h)

end Separation

open Separation in
theorem accepted_selection_passes_gates_separation :
    let v := validateScored [[1, 1, 1, 1], [1, 1, 1, -1], [1, 1, -1, -1]] [-30, -20, -10] ⟨0, 500, 2⟩
    v.selectedSolutions = [⟨[1, 1, 1, 1], -30⟩, ⟨[1, 1, -1, -1], -10⟩] ∧
      (checkProofGates v.selectedSolutions ⟨0, 500, 2⟩).accepted = true := by
  have h := accepted_selection_passes_gates selectionLaws
    [[1, 1, 1, 1], [1, 1, 1, -1], [1, 1, -1, -1]] [-30, -20, -10] ⟨0, 500, 2⟩
    (by simp [IsSpins]) rfl (by decide) (by decide) (by decide +kernel)
  exact ⟨by decide +kernel, h.2.2.2.2.1⟩

end QuipCoordinator
