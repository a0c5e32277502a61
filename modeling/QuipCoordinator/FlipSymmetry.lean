import QuipCoordinator.FoundationTopK
import QuipCoordinator.StashPrefixes
import Mathlib.Data.List.GetD

/-!
# Repeated solutions count once

A row and its global flip are one physical state: an orbit of two rows. The gates
count the orbits below the ceiling. A row whose orbit the input has at the same
energy comes after that row in the gate path and in the stash path, so neither
sees it.
-/

namespace QuipCoordinator

def orbit (spins : List Int) : Finset (List Int) := {spins, flipSpins spins}

def orbitsBelow (rows : List (List Int)) (energies : List Int) (ceiling : Int) :
    Finset (Finset (List Int)) :=
  (((rows.zip energies).filter fun p => p.2 < ceiling).map fun p => orbit p.1).toFinset

theorem flipSpins_flipSpins (spins : List Int) : flipSpins (flipSpins spins) = spins := by
  simp [flipSpins]

theorem canonicalizeSpins_cases (spins : List Int) :
    canonicalizeSpins spins = spins ∨ canonicalizeSpins spins = flipSpins spins := by
  rw [canonicalizeSpins]
  split_ifs
  · exact Or.inr rfl
  · exact Or.inl rfl

theorem canonicalizeSpins_idem (spins : List Int) :
    canonicalizeSpins (canonicalizeSpins spins) = canonicalizeSpins spins := by
  cases spins with
  | nil => rfl
  | cons s rest =>
    by_cases hs : s = -1
    · subst hs
      simp [canonicalizeSpins]
    · simp [canonicalizeSpins, hs]

theorem canonicalizeSpins_eq_iff {a b : List Int} (ha : IsSpins a) (hb : IsSpins b) :
    canonicalizeSpins a = canonicalizeSpins b ↔ a = b ∨ a = flipSpins b := by
  constructor
  · intro h
    rcases canonicalizeSpins_cases a with hca | hca <;>
      rcases canonicalizeSpins_cases b with hcb | hcb <;> rw [hca, hcb] at h
    · exact Or.inl h
    · exact Or.inr h
    · exact Or.inr (by rw [← h, flipSpins_flipSpins])
    · exact Or.inl (by rw [← flipSpins_flipSpins a, h, flipSpins_flipSpins])
  · intro h
    rcases h with rfl | rfl
    · rfl
    · exact canonicalizeSpins_flip hb

theorem orbit_flipSpins (spins : List Int) : orbit (flipSpins spins) = orbit spins := by
  rw [orbit, flipSpins_flipSpins, Finset.pair_comm, orbit]

theorem orbit_canonicalizeSpins (spins : List Int) :
    orbit (canonicalizeSpins spins) = orbit spins := by
  rcases canonicalizeSpins_cases spins with h | h
  · rw [h]
  · rw [h, orbit_flipSpins]

theorem canonicalizeSpins_of_orbit {a b : List Int} (ha : IsSpins a) (hb : IsSpins b)
    (h : orbit a = orbit b) : canonicalizeSpins a = canonicalizeSpins b := by
  have hmem : a ∈ orbit b := h ▸ Finset.mem_insert_self a _
  rw [orbit, Finset.mem_insert, Finset.mem_singleton] at hmem
  exact (canonicalizeSpins_eq_iff ha hb).mpr hmem

/-! ## The count -/

section FirstOccurrences
variable {α κ : Type} [DecidableEq κ] (key : α → κ)

theorem mem_keys_firstOccurrences {seen : List κ} {l : List α} {k : κ} :
    k ∈ (firstOccurrences key seen l).map key ↔ k ∈ l.map key ∧ k ∉ seen := by
  induction l generalizing seen with
  | nil => simp [firstOccurrences]
  | cons a l ih =>
    rw [firstOccurrences]
    by_cases ha : key a ∈ seen
    · rw [if_pos ha, ih, List.map_cons, List.mem_cons]
      constructor
      · exact fun h => ⟨Or.inr h.1, h.2⟩
      · intro h
        refine ⟨h.1.resolve_left ?_, h.2⟩
        intro hk
        exact h.2 (hk ▸ ha)
    · rw [if_neg ha, List.map_cons, List.mem_cons, ih, List.map_cons, List.mem_cons, List.mem_cons]
      constructor
      · intro h
        rcases h with rfl | h
        · exact ⟨Or.inl rfl, ha⟩
        · exact ⟨Or.inr h.1, fun hk => h.2 (Or.inr hk)⟩
      · intro h
        by_cases hk : k = key a
        · exact Or.inl hk
        · exact Or.inr ⟨h.1.resolve_left hk, not_or.mpr ⟨hk, h.2⟩⟩

theorem firstOccurrences_concat_of_mem {seen : List κ} {l : List α} {a : α}
    (h : key a ∈ seen ∨ key a ∈ l.map key) :
    firstOccurrences key seen (l ++ [a]) = firstOccurrences key seen l := by
  induction l generalizing seen with
  | nil =>
    have ha : key a ∈ seen := h.resolve_right List.not_mem_nil
    simp [firstOccurrences, ha]
  | cons b l ih =>
    rw [List.map_cons, List.mem_cons] at h
    rw [List.cons_append, firstOccurrences, firstOccurrences]
    by_cases hb : key b ∈ seen
    · rw [if_pos hb, if_pos hb, ih ?_]
      rcases h with h | h | h
      · exact Or.inl h
      · exact Or.inl (h ▸ hb)
      · exact Or.inr h
    · rw [if_neg hb, if_neg hb, ih ?_]
      rcases h with h | h | h
      · exact Or.inl (List.mem_cons_of_mem _ h)
      · exact Or.inl (h ▸ List.mem_cons_self)
      · exact Or.inr h

theorem firstOccurrences_congr {key key' : α → κ} {seen : List κ} {l : List α}
    (h : ∀ a ∈ l, key a = key' a) :
    firstOccurrences key seen l = firstOccurrences key' seen l := by
  induction l generalizing seen with
  | nil => rfl
  | cons a l ih =>
    rw [firstOccurrences, firstOccurrences, ← h a List.mem_cons_self]
    have hrest : ∀ b ∈ l, key b = key' b := fun b hb => h b (List.mem_cons_of_mem _ hb)
    rw [ih hrest, ih hrest]

end FirstOccurrences

theorem zip_eq_map_range {rows : List (List Int)} {energies : List Int}
    (hlen : energies.length = rows.length) :
    rows.zip energies =
      (List.range energies.length).map fun i => (rows.getD i [], energies.getD i 0) := by
  apply List.ext_getElem
  · simp [hlen]
  · intro i hi hi'
    have hrow : i < rows.length := by simp at hi; omega
    have henergy : i < energies.length := by omega
    simp [List.getD_eq_getElem?_getD, hrow, henergy]

theorem orbitsBelow_eq {rows : List (List Int)} {energies : List Int}
    (hlen : energies.length = rows.length) (gates : QualityGates) :
    orbitsBelow rows energies gates.minEnergyMilli = (((uniqueValid rows energies gates).map
      fun i => canonicalizeSpins (rows.getD i [])).toFinset).image orbit := by
  ext o
  rw [orbitsBelow, zip_eq_map_range hlen]
  simp only [List.filter_map, List.map_map, List.mem_toFinset, List.mem_map, Finset.mem_image]
  constructor
  · intro h
    obtain ⟨i, hi, rfl⟩ := h
    refine ⟨canonicalizeSpins (rows.getD i []), ?_, orbit_canonicalizeSpins _⟩
    exact List.mem_map.mp
      ((mem_keys_firstOccurrences _).mpr ⟨List.mem_map_of_mem hi, List.not_mem_nil⟩)
  · intro h
    obtain ⟨k, ⟨i, hi, rfl⟩, rfl⟩ := h
    exact ⟨i, mem_of_mem_firstOccurrences _ hi, (orbit_canonicalizeSpins _).symm⟩

/-- The rows the gates count are as many as the orbits below the ceiling. -/
theorem length_uniqueValid {rows : List (List Int)} {energies : List Int}
    (hlen : energies.length = rows.length) (hspin : ∀ row ∈ rows, IsSpins row)
    (gates : QualityGates) :
    (uniqueValid rows energies gates).length =
      (orbitsBelow rows energies gates.minEnergyMilli).card := by
  have hn : ((uniqueValid rows energies gates).map
      fun i => canonicalizeSpins (rows.getD i [])).Nodup := nodup_keys_firstOccurrences _ [] _
  rw [orbitsBelow_eq hlen gates, Finset.card_image_of_injOn, List.toFinset_card_of_nodup hn,
    List.length_map]
  intro k hk k' hk' heq
  obtain ⟨i, -, rfl⟩ := List.mem_map.mp (List.mem_toFinset.mp hk)
  obtain ⟨j, -, rfl⟩ := List.mem_map.mp (List.mem_toFinset.mp hk')
  rw [orbit_canonicalizeSpins, orbit_canonicalizeSpins] at heq
  exact canonicalizeSpins_of_orbit (isSpins_getD hspin i) (isSpins_getD hspin j) heq

/-! ## A repeated row -/

section
variable [Crates]

def gateView (unique : List Nat) (row : Nat → SpinRow) (minSolutions : Nat) :
    Int × Nat × List SpinRow :=
  if unique.isEmpty then (i64Max, 0, [])
  else
    let (selected, diversity) := selectAndScore (unique.map fun i => (row i).spins) minSolutions
    let picked := unique.pick selected
    ((picked.map fun i => (row i).energyMilli).min?.getD i64Max, diversity,
      (picked.take maxProofSolutions).map row)

theorem validateScored_eq (rows : List (List Int)) (energies : List Int) (gates : QualityGates) :
    validateScored rows energies gates =
      let unique := uniqueValid rows energies gates
      let view := gateView unique (rowAt rows energies) gates.minSolutions
      { bestEnergyMilli := view.1
        diversityMilli := view.2.1
        nValid := unique.length % 2 ^ 32
        accepted := decide (gates.minSolutions ≤ unique.length % 2 ^ 32 ∧
          gates.minDiversityMilli ≤ view.2.1)
        selectedSolutions := view.2.2
        rawBestEnergyMilli := energies.min?.getD i64Max
        stashSolutions := stashRows rows energies gates } := rfl

theorem gateView_congr {unique : List Nat} {row row' : Nat → SpinRow}
    (h : ∀ i ∈ unique, row' i = row i) (minSolutions : Nat) :
    gateView unique row' minSolutions = gateView unique row minSolutions := by
  have hpicked : ∀ selected, ∀ i ∈ unique.pick selected, row' i = row i := fun _ i hi =>
    h i (List.mem_of_mem_pick hi)
  have hspins : (unique.map fun i => (row' i).spins) = unique.map fun i => (row i).spins :=
    List.map_congr_left fun i hi => congrArg SpinRow.spins (h i hi)
  have henergies : ∀ selected, ((unique.pick selected).map fun i => (row' i).energyMilli) =
      (unique.pick selected).map fun i => (row i).energyMilli := fun selected =>
    List.map_congr_left fun i hi => congrArg SpinRow.energyMilli (hpicked selected i hi)
  have htaken : ∀ selected n, ((unique.pick selected).take n).map row' =
      ((unique.pick selected).take n).map row := fun selected n =>
    List.map_congr_left fun i hi => hpicked selected i (List.mem_of_mem_take hi)
  simp only [gateView, hspins, henergies, htaken]

theorem stashScan_skip (rows : List (List Int)) (gates : QualityGates) {front rest : List Nat}
    {n : Nat} {seen : List (List Int)} (examined : Nat) (chosen : List Nat)
    (h : canonicalizeSpins (rows.getD n []) ∈ seen ∨
      ∃ j ∈ front, canonicalizeSpins (rows.getD j []) = canonicalizeSpins (rows.getD n [])) :
    stashScan rows gates (front ++ n :: rest) seen examined chosen =
      stashScan rows gates (front ++ rest) seen examined chosen := by
  induction front generalizing seen examined chosen with
  | nil =>
    have hn := h.resolve_right fun hj => by simp at hj
    rw [List.nil_append, List.nil_append]
    rcases stashScan_cons rows gates n rest seen examined chosen with
      ⟨he, hstop⟩ | ⟨-, -, ⟨-, he⟩ | ⟨hnew, -⟩⟩
    · rw [he]
      cases rest with
      | nil => rfl
      | cons i rest =>
        rw [stashScan, if_pos hstop]
    · exact he
    · exact absurd hn hnew
  | cons i front ih =>
    rw [List.cons_append, List.cons_append, stashScan, stashScan]
    dsimp only
    have hseen : canonicalizeSpins (rows.getD n []) ∈
          canonicalizeSpins (rows.getD i []) :: seen ∨
        ∃ j ∈ front, canonicalizeSpins (rows.getD j []) = canonicalizeSpins (rows.getD n []) := by
      rcases h with h | ⟨j, hj, heq⟩
      · exact Or.inl (List.mem_cons_of_mem _ h)
      · rcases List.mem_cons.mp hj with rfl | hj
        · exact Or.inl (heq ▸ List.mem_cons_self)
        · exact Or.inr ⟨j, hj, heq⟩
    by_cases hi : canonicalizeSpins (rows.getD i []) ∈ seen
    · have hold : canonicalizeSpins (rows.getD n []) ∈ seen ∨
          ∃ j ∈ front, canonicalizeSpins (rows.getD j []) = canonicalizeSpins (rows.getD n []) := by
        rcases hseen with h | h
        · rcases List.mem_cons.mp h with h | h
          · exact Or.inl (h ▸ hi)
          · exact Or.inl h
        · exact Or.inr h
      rw [if_pos hi, if_pos hi, ih examined chosen hold]
    · rw [if_neg hi, if_neg hi, ih _ _ hseen, ih _ _ hseen]

theorem stashScan_congr {rows rows' : List (List Int)} (gates : QualityGates) {order : List Nat}
    (seen : List (List Int)) (examined : Nat) {chosen : List Nat}
    (horder : ∀ i ∈ order, rows'.getD i [] = rows.getD i [])
    (hchosen : ∀ i ∈ chosen, rows'.getD i [] = rows.getD i []) :
    stashScan rows' gates order seen examined chosen =
      stashScan rows gates order seen examined chosen := by
  induction order generalizing seen examined chosen with
  | nil => rfl
  | cons i order ih =>
    have hi := horder i List.mem_cons_self
    have hrest : ∀ j ∈ order, rows'.getD j [] = rows.getD j [] := fun j hj =>
      horder j (List.mem_cons_of_mem _ hj)
    have hgrown : ∀ j ∈ chosen ++ [i], rows'.getD j [] = rows.getD j [] := by
      intro j hj
      rcases List.mem_append.mp hj with hj | hj
      · exact hchosen j hj
      · rw [List.mem_singleton.mp hj, hi]
    have hheld : ((chosen ++ [i]).map fun k => rows'.getD k []) =
      (chosen ++ [i]).map fun k => rows.getD k [] := List.map_congr_left hgrown
    rw [stashScan, stashScan]
    dsimp only
    rw [hi, hheld, ih _ _ hrest hchosen, ih _ _ hrest hchosen, ih _ _ hrest hgrown]

/-- `row` is a row of the input or the flip of one, with its energy. -/
def Repeats (rows : List (List Int)) (energies : List Int) (row : List Int) (energy : Int) : Prop :=
  ∃ p ∈ rows.zip energies, p.2 = energy ∧ (row = p.1 ∨ row = flipSpins p.1)

omit [Crates] in
theorem Repeats.position {rows : List (List Int)} {energies : List Int} {row : List Int}
    {energy : Int} (h : Repeats rows energies row energy)
    (hlen : energies.length = rows.length) (hspin : ∀ row ∈ rows, IsSpins row) :
    ∃ j < rows.length, energies.getD j 0 = energy ∧
      canonicalizeSpins (rows.getD j []) = canonicalizeSpins row := by
  obtain ⟨p, hp, he, hrow⟩ := h
  rw [zip_eq_map_range hlen] at hp
  obtain ⟨j, hj, rfl⟩ := List.mem_map.mp hp
  refine ⟨j, hlen ▸ List.mem_range.mp hj, he, ?_⟩
  rcases hrow with rfl | rfl
  · rfl
  · exact (canonicalizeSpins_flip (isSpins_getD hspin j)).symm

section
variable {rows : List (List Int)} {energies : List Int} {row : List Int} {energy : Int}

omit [Crates] in
theorem rowAt_append (hlen : energies.length = rows.length) {i : Nat} (hi : i < rows.length) :
    rowAt (rows ++ [row]) (energies ++ [energy]) i = rowAt rows energies i := by
  rw [rowAt, rowAt, List.getD_append _ _ _ _ hi, List.getD_append _ _ _ _ (hlen ▸ hi)]

omit [Crates] in
theorem rowAt_append_last (hlen : energies.length = rows.length) :
    rowAt (rows ++ [row]) (energies ++ [energy]) rows.length = ⟨row, energy⟩ := by
  rw [rowAt, List.getD_append_right _ _ _ _ le_rfl, List.getD_append_right _ _ _ _ hlen.le]
  simp [hlen]

omit [Crates] in
theorem uniqueValid_append (gates : QualityGates) (hlen : energies.length = rows.length)
    (hspin : ∀ row ∈ rows, IsSpins row) (h : Repeats rows energies row energy) :
    uniqueValid (rows ++ [row]) (energies ++ [energy]) gates = uniqueValid rows energies gates := by
  obtain ⟨j, hj, hej, hkey⟩ := h.position hlen hspin
  have hold : ∀ i < rows.length,
      rowAt (rows ++ [row]) (energies ++ [energy]) i = rowAt rows energies i := fun i hi =>
    rowAt_append hlen hi
  have hlast : rowAt (rows ++ [row]) (energies ++ [energy]) rows.length = ⟨row, energy⟩ :=
    rowAt_append_last hlen
  have hidx : (List.range rows.length).filter
      (fun i => decide ((energies ++ [energy]).getD i 0 < gates.minEnergyMilli)) =
        (List.range rows.length).filter fun i =>
          decide (energies.getD i 0 < gates.minEnergyMilli) := by
    refine List.filter_congr ?_
    intro i hi
    have he : (energies ++ [energy]).getD i 0 = energies.getD i 0 :=
      congrArg SpinRow.energyMilli (hold i (List.mem_range.mp hi))
    rw [he]
  have hkeys : ∀ i ∈ (List.range rows.length).filter
      (fun i => decide (energies.getD i 0 < gates.minEnergyMilli)),
      canonicalizeSpins ((rows ++ [row]).getD i []) = canonicalizeSpins (rows.getD i []) := by
    intro i hi
    have hlt := List.mem_range.mp (List.mem_filter.mp hi).1
    exact congrArg canonicalizeSpins (congrArg SpinRow.spins (hold i hlt))
  have hnew : (energies ++ [energy]).getD rows.length 0 = energy :=
    congrArg SpinRow.energyMilli hlast
  rw [uniqueValid, uniqueValid, List.length_append, List.length_singleton, hlen, List.range_succ,
    List.filter_append, hidx]
  by_cases hbelow : energy < gates.minEnergyMilli
  · have hpick : [rows.length].filter
        (fun i => decide ((energies ++ [energy]).getD i 0 < gates.minEnergyMilli)) = [rows.length] := by
      refine List.filter_cons_of_pos (decide_eq_true ?_)
      rwa [hnew]
    rw [hpick, firstOccurrences_concat_of_mem, firstOccurrences_congr hkeys]
    refine Or.inr (List.mem_map.mpr ⟨j, List.mem_filter.mpr ⟨List.mem_range.mpr hj, ?_⟩, ?_⟩)
    · exact decide_eq_true (hej ▸ hbelow)
    · have hrow : (rows ++ [row]).getD rows.length [] = row := congrArg SpinRow.spins hlast
      have hrj : (rows ++ [row]).getD j [] = rows.getD j [] := congrArg SpinRow.spins (hold j hj)
      rw [hrow, hrj, hkey]
  · have hpick : [rows.length].filter
        (fun i => decide ((energies ++ [energy]).getD i 0 < gates.minEnergyMilli)) = [] := by
      refine List.filter_cons_of_neg ?_
      rwa [decide_eq_true_iff, hnew]
    rw [hpick, List.append_nil, firstOccurrences_congr hkeys]

theorem stashPositions_append (gates : QualityGates) (hlen : energies.length = rows.length)
    (hspin : ∀ row ∈ rows, IsSpins row) (h : Repeats rows energies row energy) :
    stashPositions (rows ++ [row]) (energies ++ [energy]) gates =
      stashPositions rows energies gates := by
  obtain ⟨j, hj, hej, hkey⟩ := h.position hlen hspin
  have hold : ∀ i < rows.length,
      rowAt (rows ++ [row]) (energies ++ [energy]) i = rowAt rows energies i := fun i hi =>
    rowAt_append hlen hi
  have hlast : rowAt (rows ++ [row]) (energies ++ [energy]) rows.length = ⟨row, energy⟩ :=
    rowAt_append_last hlen
  have henergy : ∀ i < rows.length, (energies ++ [energy]).getD i 0 = energies.getD i 0 :=
    fun i hi => congrArg SpinRow.energyMilli (hold i hi)
  have hrow : ∀ i < rows.length, (rows ++ [row]).getD i [] = rows.getD i [] :=
    fun i hi => congrArg SpinRow.spins (hold i hi)
  have horder : (List.range rows.length).insertionSort
      (fun a b => (energies ++ [energy]).getD a 0 ≤ (energies ++ [energy]).getD b 0) =
        energyOrder rows energies := by
    have hmap := List.map_insertionSort
      (r := fun a b => (energies ++ [energy]).getD a 0 ≤ (energies ++ [energy]).getD b 0)
      (s := fun a b => energies.getD a 0 ≤ energies.getD b 0) id (List.range rows.length) ?_
    · simpa only [List.map_id, energyOrder] using hmap
    · intro a ha b hb
      rw [henergy a (List.mem_range.mp ha), henergy b (List.mem_range.mp hb)]
      rfl
  have hmem : ∀ i, i ∈ energyOrder rows energies ↔ i < rows.length := fun i =>
    (List.mem_insertionSort _).trans List.mem_range
  have hsorted : (energyOrder rows energies).Pairwise fun a b =>
      (energies ++ [energy]).getD a 0 ≤ (energies ++ [energy]).getD b 0 := by
    rw [← horder]
    exact List.pairwise_insertionSort_key _ _
  obtain ⟨front, rest, hsplit, hins, hfront⟩ := List.orderedInsert_split rows.length hsorted
  have hjf : j ∈ front := by
    refine hfront j ((hmem j).mpr hj) ?_
    rw [henergy j hj, hej]
    exact (congrArg SpinRow.energyMilli hlast).ge
  have hsame : canonicalizeSpins ((rows ++ [row]).getD j []) =
      canonicalizeSpins ((rows ++ [row]).getD rows.length []) := by
    have hrl : (rows ++ [row]).getD rows.length [] = row := congrArg SpinRow.spins hlast
    rw [hrl, hrow j hj, hkey]
  rw [stashPositions, List.length_append, List.length_singleton, List.range_succ,
    List.insertionSort_concat (fun i => (energies ++ [energy]).getD i 0), horder, hins,
    stashScan_skip _ _ 0 [] (Or.inr ⟨j, hjf, hsame⟩), ← hsplit]
  exact stashScan_congr gates [] 0 (fun i hi => hrow i ((hmem i).mp hi))
    fun i hi => absurd hi List.not_mem_nil

theorem validateScored_append (gates : QualityGates) (hlen : energies.length = rows.length)
    (hspin : ∀ row ∈ rows, IsSpins row) (h : Repeats rows energies row energy) :
    validateScored (rows ++ [row]) (energies ++ [energy]) gates =
      validateScored rows energies gates := by
  have hview : ∀ i ∈ uniqueValid rows energies gates,
      rowAt (rows ++ [row]) (energies ++ [energy]) i = rowAt rows energies i := fun i hi =>
    rowAt_append hlen (hlen ▸ (mem_uniqueValid hi).1)
  have hstash : stashRows (rows ++ [row]) (energies ++ [energy]) gates =
      stashRows rows energies gates := by
    rw [stashRows_eq, stashRows_eq, stashPositions_append gates hlen hspin h]
    exact List.map_congr_left fun i hi => rowAt_append hlen (stashPositions_lt hi)
  have hraw : (energies ++ [energy]).min? = energies.min? := by
    obtain ⟨j, hj, hej, -⟩ := h.position hlen hspin
    have hmem : energy ∈ energies := by
      rw [← hej, List.getD_eq_getElem _ _ (hlen ▸ hj)]
      exact List.getElem_mem _
    obtain ⟨least, hleast⟩ := Option.isSome_iff_exists.mp (List.isSome_min?_of_mem hmem)
    obtain ⟨hin, hle⟩ := List.min?_eq_some_iff.mp hleast
    rw [hleast]
    refine List.min?_eq_some_iff.mpr ⟨List.mem_append_left _ hin, ?_⟩
    intro e he
    rcases List.mem_append.mp he with he | he
    · exact hle e he
    · rw [List.mem_singleton.mp he]
      exact hle energy hmem
  rw [validateScored_eq, validateScored_eq, uniqueValid_append gates hlen hspin h]
  dsimp only
  rw [gateView_congr hview, hraw, hstash]

end

theorem nValid_eq {rows : List (List Int)} {energies : List Int} {gates : QualityGates}
    (hlen : energies.length = rows.length) (hspin : ∀ row ∈ rows, IsSpins row) :
    (validateScored rows energies gates).nValid =
      (orbitsBelow rows energies gates.minEnergyMilli).card % 2 ^ 32 := by
  rw [← length_uniqueValid hlen hspin]
  rfl

/-- The gates count the orbits below the ceiling, as a 32-bit number. The canonical form tells the
orbits apart. And a row whose orbit the input has at the same energy changes no field. -/
theorem counting_is_flip_symmetric (rows : List (List Int)) (energies : List Int)
    (gates : QualityGates) (hlen : energies.length = rows.length)
    (hspin : ∀ row ∈ rows, IsSpins row) :
    (validateScored rows energies gates).nValid =
      (orbitsBelow rows energies gates.minEnergyMilli).card % 2 ^ 32 ∧
    (∀ a, IsSpins a → canonicalizeSpins (canonicalizeSpins a) = canonicalizeSpins a) ∧
    (∀ a b, IsSpins a → IsSpins b →
      (canonicalizeSpins a = canonicalizeSpins b ↔ a = b ∨ a = flipSpins b)) ∧
    ∀ row energy, Repeats rows energies row energy →
      validateScored (rows ++ [row]) (energies ++ [energy]) gates =
        validateScored rows energies gates := by
  refine ⟨nValid_eq hlen hspin, fun a _ => canonicalizeSpins_idem a,
    fun a b => canonicalizeSpins_eq_iff, ?_⟩
  exact fun row energy h => validateScored_append gates hlen hspin h

end

open Sample in
theorem counting_is_flip_symmetric_sample :
    (validateScored [[1, -1], [1, 1]] [-5, -3] ⟨0, 0, 1⟩).nValid = 2 ∧
      validateScored [[1, -1], [1, 1], [-1, 1]] [-5, -3, -5] ⟨0, 0, 1⟩ =
        validateScored [[1, -1], [1, 1]] [-5, -3] ⟨0, 0, 1⟩ := by
  have h := counting_is_flip_symmetric [[1, -1], [1, 1]] [-5, -3] ⟨0, 0, 1⟩ rfl (by simp [IsSpins])
  refine ⟨h.1.trans (by decide +kernel), h.2.2.2 [-1, 1] (-5) ?_⟩
  exact ⟨([1, -1], -5), List.mem_cons_self, rfl, Or.inr rfl⟩

namespace Sample

def bitRow (width k : Nat) : List Int :=
  1 :: (List.range width).map fun b => if k.testBit b then 1 else -1

def bitRows (width : Nat) : List (List Int) := (List.range (2 ^ width)).map (bitRow width)

theorem isSpins_bitRow (width k : Nat) : IsSpins (bitRow width k) := by
  intro s hs
  rcases List.mem_cons.mp hs with rfl | hs
  · exact Or.inl rfl
  · obtain ⟨b, -, rfl⟩ := List.mem_map.mp hs
    split_ifs
    · exact Or.inl rfl
    · exact Or.inr rfl

theorem orbit_bitRow_inj {width a b : Nat} (ha : a < 2 ^ width) (hb : b < 2 ^ width)
    (h : orbit (bitRow width a) = orbit (bitRow width b)) : a = b := by
  have hmem : bitRow width a ∈ orbit (bitRow width b) := h ▸ Finset.mem_insert_self _ _
  rw [orbit, Finset.mem_insert, Finset.mem_singleton] at hmem
  rcases hmem with heq | heq
  · refine Nat.eq_of_testBit_eq fun i => ?_
    by_cases hi : i < width
    · have hbit := List.map_inj_left.mp (List.cons.inj heq).2 i (List.mem_range.mpr hi)
      cases hai : a.testBit i <;> cases hbi : b.testBit i <;> simp [hai, hbi] at hbit ⊢
    · have hpow : 2 ^ width ≤ 2 ^ i := Nat.pow_le_pow_right (by decide) (not_lt.mp hi)
      rw [Nat.testBit_lt_two_pow (ha.trans_le hpow), Nat.testBit_lt_two_pow (hb.trans_le hpow)]
  · exact absurd (List.cons.inj heq).1 (by decide)

theorem orbitsBelow_replicate (rows : List (List Int)) :
    orbitsBelow rows (List.replicate rows.length 0) 1 = (rows.map orbit).toFinset := by
  have hall : ∀ rows : List (List Int), (((rows.zip (List.replicate rows.length (0 : Int))).filter
      fun p => p.2 < 1).map fun p => orbit p.1) = rows.map orbit := by
    intro rows
    induction rows with
    | nil => rfl
    | cons row rows ih => simpa [List.replicate_succ] using ih
  rw [orbitsBelow, hall]

theorem card_orbitsBelow_bitRows (width : Nat) :
    (orbitsBelow (bitRows width) (List.replicate (bitRows width).length 0) 1).card = 2 ^ width := by
  have hn : ((bitRows width).map orbit).Nodup := by
    rw [bitRows, List.map_map]
    refine List.Nodup.map_on ?_ List.nodup_range
    intro a ha b hb heq
    exact orbit_bitRow_inj (List.mem_range.mp ha) (List.mem_range.mp hb) heq
  rw [orbitsBelow_replicate, List.toFinset_card_of_nodup hn, List.length_map, bitRows,
    List.length_map, List.length_range]

end Sample

open Sample in
/-- `2 ^ 32` orbits below the ceiling are counted as none. -/
theorem count_wraps_at_two_pow_32 :
    ∃ (rows : List (List Int)) (energies : List Int) (gates : QualityGates),
      energies.length = rows.length ∧ (∀ row ∈ rows, IsSpins row ∧ row.length = 33) ∧
      (validateScored rows energies gates).nValid ≠
        (orbitsBelow rows energies gates.minEnergyMilli).card := by
  have hspin : ∀ row ∈ bitRows 32, IsSpins row := by
    intro row hrow
    obtain ⟨k, -, rfl⟩ := List.mem_map.mp hrow
    exact isSpins_bitRow 32 k
  refine ⟨bitRows 32, List.replicate (bitRows 32).length 0, ⟨1, 0, 0⟩, List.length_replicate,
    fun row hrow => ⟨hspin row hrow, ?_⟩, ?_⟩
  · obtain ⟨k, -, rfl⟩ := List.mem_map.mp hrow
    rw [bitRow, List.length_cons, List.length_map, List.length_range]
  · rw [nValid_eq List.length_replicate hspin, card_orbitsBelow_bitRows]
    decide

end QuipCoordinator
