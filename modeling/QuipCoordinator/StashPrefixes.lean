import QuipCoordinator.RetainedWinners

/-!
# The stash rows at every ceiling

The scan for the stash goes through the rows in order of energy and keeps a row
when the rows held with it clear the diversity gate. So the best row comes first,
no row is kept twice, and the rows that a later ceiling admits were checked when
the last of them was kept.
-/

namespace QuipCoordinator

section
variable [Crates]

theorem prefix_stashScan (rows : List (List Int)) (gates : QualityGates) (order : List Nat)
    (seen : List (List Int)) (examined : Nat) (chosen : List Nat) :
    chosen <+: stashScan rows gates order seen examined chosen := by
  induction order generalizing seen examined chosen with
  | nil => exact List.prefix_rfl
  | cons i order ih =>
    rcases stashScan_cons rows gates i order seen examined chosen with
      ⟨he, -⟩ | ⟨-, -, ⟨-, he⟩ | ⟨-, ⟨-, he⟩ | he⟩⟩
    · rw [he]
    · rw [he]
      exact ih _ _ _
    · rw [he]
      exact (List.prefix_append _ _).trans (ih _ _ _)
    · rw [he]
      exact ih _ _ _

theorem head?_stashScan (rows : List (List Int)) (gates : QualityGates) (i : Nat)
    (order : List Nat) : (stashScan rows gates (i :: order) [] 0 []).head? = some i := by
  have hkeep : stashScan rows gates (i :: order) [] 0 [] =
      stashScan rows gates order [canonicalizeSpins (rows.getD i [])] 1 [i] := by
    rw [stashScan, if_neg (by simp [maxProofSolutions, stashScanLimit])]
    dsimp only
    rw [if_neg List.not_mem_nil, if_pos (Or.inl (by simp))]
    rfl
  obtain ⟨rest, hrest⟩ := prefix_stashScan rows gates order
    [canonicalizeSpins (rows.getD i [])] 1 [i]
  rw [hkeep, ← hrest]
  rfl

theorem nodup_keys_stashScan (rows : List (List Int)) (gates : QualityGates) (order : List Nat)
    {seen : List (List Int)} (examined : Nat) {chosen : List Nat}
    (hseen : ∀ k ∈ chosen, canonicalizeSpins (rows.getD k []) ∈ seen)
    (hn : (chosen.map fun k => canonicalizeSpins (rows.getD k [])).Nodup) :
    ((stashScan rows gates order seen examined chosen).map
      fun k => canonicalizeSpins (rows.getD k [])).Nodup := by
  induction order generalizing seen examined chosen with
  | nil => exact hn
  | cons i order ih =>
    rcases stashScan_cons rows gates i order seen examined chosen with
      ⟨he, -⟩ | ⟨-, -, ⟨-, he⟩ | ⟨hnew, ⟨-, he⟩ | he⟩⟩
    · rw [he]
      exact hn
    · rw [he]
      exact ih _ hseen hn
    · rw [he]
      refine ih _ ?_ ?_
      · intro k hk
        rcases List.mem_append.mp hk with hk | hk
        · exact List.mem_cons_of_mem _ (hseen k hk)
        · rw [List.mem_singleton.mp hk]
          exact List.mem_cons_self
      · rw [List.map_append]
        refine List.nodup_append_comm.mp (List.nodup_cons.mpr ⟨?_, hn⟩)
        intro hmem
        obtain ⟨k, hk, heq⟩ := List.mem_map.mp hmem
        have hkey : canonicalizeSpins (rows.getD k []) = canonicalizeSpins (rows.getD i []) := heq
        exact hnew (hkey ▸ hseen k hk)
    · rw [he]
      exact ih _ (fun k hk => List.mem_cons_of_mem _ (hseen k hk)) hn

def energyOrder (rows : List (List Int)) (energies : List Int) : List Nat :=
  (List.range rows.length).insertionSort fun a b => energies.getD a 0 ≤ energies.getD b 0

theorem stashPositions_sublist (rows : List (List Int)) (energies : List Int)
    (gates : QualityGates) :
    (stashPositions rows energies gates).Sublist (energyOrder rows energies) := by
  have hnil : PrefixesDiverse rows gates [] :=
    fun p hp hlen => by simp [List.prefix_nil.mp hp] at hlen
  exact (stashScan_spec rows gates (energyOrder rows energies) [] 0 hnil (Nat.zero_le _)).1

theorem stashPositions_lt {rows : List (List Int)} {energies : List Int} {gates : QualityGates}
    {i : Nat} (h : i ∈ stashPositions rows energies gates) : i < rows.length := by
  have hi := (stashPositions_sublist rows energies gates).subset h
  exact List.mem_range.mp ((List.mem_insertionSort _).mp hi)

/-- The stash rows begin with a row of the least energy. -/
theorem head?_stashPositions {rows : List (List Int)} {energies : List Int} (gates : QualityGates)
    (hlen : energies.length = rows.length) (hne : rows ≠ []) :
    ∃ i < rows.length, (stashPositions rows energies gates).head? = some i ∧
      energies.min? = some (energies.getD i 0) := by
  have hpos := List.length_pos_of_ne_nil hne
  have hget : ∀ j (hj : j < energies.length), energies.getD j 0 = energies[j] := by
    intro j hj
    simp [List.getD_eq_getElem?_getD, hj]
  have hmem : ∀ j, j ∈ energyOrder rows energies ↔ j < rows.length := fun j =>
    (List.mem_insertionSort _).trans List.mem_range
  cases ho : energyOrder rows energies with
  | nil =>
    have h0 := (hmem 0).mpr hpos
    rw [ho] at h0
    exact absurd h0 List.not_mem_nil
  | cons i order =>
    have hi : i < rows.length := (hmem i).mp (ho ▸ List.mem_cons_self)
    have hsorted := List.pairwise_insertionSort_key (fun k => energies.getD k 0)
      (List.range rows.length)
    refine ⟨i, hi, ?_, ?_⟩
    · rw [stashPositions]
      change (stashScan rows gates (energyOrder rows energies) [] 0 []).head? = some i
      rw [ho]
      exact head?_stashScan rows gates i order
    · refine List.min?_eq_some_iff.mpr ⟨?_, ?_⟩
      · rw [hget i (hlen ▸ hi)]
        exact List.getElem_mem _
      · intro e he
        obtain ⟨j, hj, rfl⟩ := List.getElem_of_mem he
        rw [← hget j hj]
        have hjo : j ∈ i :: order := ho ▸ (hmem j).mpr (hlen ▸ hj)
        rcases List.mem_cons.mp hjo with rfl | hrest
        · exact le_rfl
        · change (energyOrder rows energies).Pairwise _ at hsorted
          rw [ho] at hsorted
          exact (List.pairwise_cons.mp hsorted).1 j hrest

/-- The stash keeps input rows with their energies, in order of energy and distinct up to a flip,
a best row first and no more than a proof may hold; and whatever later ceiling admits two of them or
more, what it admits clears the diversity gate. -/
theorem stash_rows_submittable (rows : List (List Int)) (energies : List Int)
    (gates : QualityGates) (hlen : energies.length = rows.length)
    (hspin : ∀ row ∈ rows, IsSpins row) :
    (∃ kept : List Nat, kept.Nodup ∧ (∀ i ∈ kept, i < rows.length) ∧
      stashRows rows energies gates = kept.map (rowAt rows energies)) ∧
    (stashRows rows energies gates).Pairwise (fun a b => a.energyMilli ≤ b.energyMilli) ∧
    (stashRows rows energies gates).length ≤ maxProofSolutions ∧
    (stashRows rows energies gates).Pairwise
      (fun a b => a.spins ≠ b.spins ∧ a.spins ≠ flipSpins b.spins) ∧
    (rows ≠ [] → ∃ best, (stashRows rows energies gates).head? = some best ∧
      energies.min? = some best.energyMilli ∧
      (validateScored rows energies gates).rawBestEnergyMilli = best.energyMilli) ∧
    ∀ c, 2 ≤ (admittedRows (stashRows rows energies gates)
        { gates with minEnergyMilli := c }).length →
      gates.minDiversityMilli ≤ (checkProofGates (stashRows rows energies gates)
        { gates with minEnergyMilli := c }).diversityMilli := by
  obtain ⟨hsorted, hdiv, hfew⟩ := stashPositions_spec rows energies gates
  have hkeys : ((stashPositions rows energies gates).map
      fun k => canonicalizeSpins (rows.getD k [])).Nodup :=
    nodup_keys_stashScan rows gates _ 0 (fun _ hk => absurd hk List.not_mem_nil) List.nodup_nil
  refine ⟨⟨_, hkeys.of_map _, fun _ hi => stashPositions_lt hi, rfl⟩, ?_, ?_, ?_, ?_, ?_⟩
  · exact List.pairwise_map.mpr hsorted
  · rw [stashRows_eq, List.length_map]
    exact hfew
  · exact pairwise_rowAt hspin energies hkeys
  · intro hne
    obtain ⟨i, -, hhead, hmin⟩ := head?_stashPositions gates hlen hne
    refine ⟨rowAt rows energies i, ?_, hmin, ?_⟩
    · rw [stashRows_eq, List.head?_map, hhead]
      rfl
    · change energies.min?.getD i64Max = _
      rw [hmin]
      rfl
  · intro c hc
    obtain ⟨p, hp, hadm⟩ := admitted_stashRows rows energies gates
      { gates with minEnergyMilli := c }
    have hne : admittedRows (stashRows rows energies gates) { gates with minEnergyMilli := c } ≠
        [] := by
      intro hnil
      rw [hnil] at hc
      exact absurd hc (by decide)
    obtain ⟨best, hbest⟩ := exists_min_energy hne
    rw [checkProofGates_of_min hbest, hadm]
    rw [hadm, List.length_map] at hc
    dsimp only
    rw [List.map_map]
    exact hdiv p hp hc

end

open Separation in
theorem stash_rows_submittable_spread :
    let kept := stashRows [[1, 1, 1, 1], [1, 1, -1, -1], [1, 1, 1, -1]] [-30, -20, -25] gates
    2 ≤ (admittedRows kept { gates with minEnergyMilli := -10 }).length ∧
      gates.minDiversityMilli ≤
        (checkProofGates kept { gates with minEnergyMilli := -10 }).diversityMilli := by
  have hkept := stash_rows_submittable [[1, 1, 1, 1], [1, 1, -1, -1], [1, 1, 1, -1]]
    [-30, -20, -25] gates rfl (by simp [IsSpins])
  have htwo : 2 ≤ (admittedRows (stashRows [[1, 1, 1, 1], [1, 1, -1, -1], [1, 1, 1, -1]]
      [-30, -20, -25] gates) { gates with minEnergyMilli := -10 }).length := by decide +kernel
  exact ⟨htwo, hkept.2.2.2.2.2 (-10) htwo⟩

end QuipCoordinator
