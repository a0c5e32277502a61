import QuipCoordinator.FoundationFallible
import QuipCoordinator.ProofEncoding
import QuipCoordinator.SelectedProofs
import Mathlib.Data.List.Zip

/-!
# The energy of an order

An order names the nodes of its edges by label. Its job has the positions of the
labels in the list of nodes, and a row has the spins in the order of that list, so
a coupling is read at the spins of the two labels. The positions are those that
the session keeps of a topology with the same nodes and edges.
-/

namespace QuipCoordinator
open Crates

namespace JobOrder

def energyTerms (order : JobOrder) (s : Nat → Int) : List Int :=
  ((order.nodes.zip order.hMilli).map fun p => p.2 * s p.1) ++
    (order.edges.zip order.jMilli).map fun p => p.2 * s p.1.1 * s p.1.2

def labelEnergy (order : JobOrder) (s : Nat → Int) : Int := (order.energyTerms s).sum

def SpinsOn (order : JobOrder) (s : Nat → Int) : Prop := ∀ n ∈ order.nodes, s n = 1 ∨ s n = -1

/-- One field for each node and one coupling for each edge, all of them 32-bit. -/
structure Aligned (order : JobOrder) : Prop where
  fields : order.hMilli.length = order.nodes.length
  couplings : order.jMilli.length = order.edges.length
  fieldBound : ∀ h ∈ order.hMilli, -2 ^ 31 ≤ h ∧ h < 2 ^ 31
  couplingBound : ∀ j ∈ order.jMilli, -2 ^ 31 ≤ j ∧ j < 2 ^ 31

structure Graphical (order : JobOrder) : Prop where
  distinct : order.nodes.Nodup
  few : order.nodes.length ≤ 2 ^ 32
  ends : ∀ e ∈ order.edges, e.1 ∈ order.nodes ∧ e.2 ∈ order.nodes

def edgePositions (order : JobOrder) : List (Nat × Nat) :=
  order.edges.map fun e => (order.nodes.idxOf e.1, order.nodes.idxOf e.2)

end JobOrder

structure RoundTrips [Crates] (packSpins : List Int → Bytes) : Prop where
  coefficients : ∀ vs : List Int, (∀ v ∈ vs, -2 ^ 31 ≤ v ∧ v < 2 ^ 31) →
    decodeI32Le (encodeI32Le vs) = some vs
  spins : ∀ row, IsSpins row → decodeSpinsPacked (packSpins row) row.length = some row

theorem idxOf?_eq_some_of_mem {nodes : List Nat} {n : Nat} (h : n ∈ nodes) :
    nodes.idxOf? n = some (nodes.idxOf n) := by
  obtain ⟨i, hi⟩ := Option.isSome_iff_exists.mp (List.isSome_idxOf?.mpr h)
  rw [List.idxOf_eq_getD_idxOf?, hi, Option.getD_some]

theorem ResolvedTopo.position_of_nodup {nodes : List Nat} (hn : nodes.Nodup)
    (hfew : nodes.length ≤ 2 ^ 32) {n : Nat} (h : n ∈ nodes) :
    position nodes n = nodes.idxOf n := by
  have hlt := List.idxOf_lt_length_of_mem h
  have hidx : nodes.reverse.idxOf? n = some (nodes.length - 1 - nodes.idxOf n) := by
    rw [List.idxOf?_eq_some_iff]
    refine ⟨by rw [List.length_reverse]; omega, ?_, ?_⟩
    · rw [List.getElem_reverse]
      have hpos : nodes.length - 1 - (nodes.length - 1 - nodes.idxOf n) = nodes.idxOf n := by omega
      simp only [hpos, List.getElem_idxOf]
    · intro j hj heq
      rw [List.getElem_reverse] at heq
      have hsame := (List.getElem_inj hn).mp (heq.trans (List.getElem_idxOf hlt).symm)
      omega
  rw [position, hidx]
  dsimp only
  rw [Nat.mod_eq_of_lt (by omega)]
  omega

theorem ResolvedTopo.new_edgesPos {order : JobOrder} (h : order.Graphical) :
    (ResolvedTopo.new order.nodes order.edges).edgesPos = order.edgePositions := by
  refine List.map_congr_left ?_
  intro e he
  rw [position_of_nodup h.distinct h.few (h.ends e he).1,
    position_of_nodup h.distinct h.few (h.ends e he).2]

theorem energyOfRow_labels {order : JobOrder} (ha : order.Aligned) (hg : order.Graphical)
    (s : Nat → Int) :
    energyOfRow (order.nodes.map s) order.hMilli order.edgePositions order.jMilli =
      some (order.labelEnergy s) := by
  have hfields : ((order.hMilli.zip (order.nodes.map s)).map fun p => p.1 * p.2) =
      (order.nodes.zip order.hMilli).map fun p => p.2 * s p.1 := by
    rw [List.zip_map_right, List.map_map, ← List.zip_swap, List.map_map]
    rfl
  have hspin : ∀ n ∈ order.nodes, (order.nodes.map s)[order.nodes.idxOf n]? = some (s n) := by
    intro n hn
    have hlt := List.idxOf_lt_length_of_mem hn
    rw [List.getElem?_map, List.getElem?_eq_getElem hlt, List.getElem_idxOf hlt]
    rfl
  have hcouplings : (order.edgePositions.zip order.jMilli).mapM (fun p => do
      let su ← (order.nodes.map s)[p.1.1]?
      let sv ← (order.nodes.map s)[p.1.2]?
      pure (p.2 * su * sv)) =
        some ((order.edges.zip order.jMilli).map fun p => p.2 * s p.1.1 * s p.1.2) := by
    rw [JobOrder.edgePositions, List.zip_map_left, List.mapM_map]
    refine List.mapM_eq_some_of ?_
    intro p hp
    obtain ⟨h1, h2⟩ := hg.ends p.1 (List.of_mem_zip hp).1
    change (do
      let su ← (order.nodes.map s)[order.nodes.idxOf p.1.1]?
      let sv ← (order.nodes.map s)[order.nodes.idxOf p.1.2]?
      pure (p.2 * su * sv)) = some (p.2 * s p.1.1 * s p.1.2)
    rw [hspin p.1.1 h1, hspin p.1.2 h2]
    rfl
  have hlen : ¬(order.nodes.map s).length ≠ order.hMilli.length := by
    rw [List.length_map, ha.fields]
    exact not_not.mpr rfl
  rw [energyOfRow, if_neg hlen, hfields, hcouplings, JobOrder.labelEnergy, JobOrder.energyTerms,
    List.sum_append]
  rfl

theorem bounds_of_sum {terms : List Int} (h : ∀ t ∈ terms, -2 ^ 31 ≤ t ∧ t ≤ 2 ^ 31) :
    -(terms.length * 2 ^ 31 : Int) ≤ terms.sum ∧ terms.sum ≤ terms.length * 2 ^ 31 := by
  induction terms with
  | nil => simp
  | cons t terms ih =>
    have ht := h t List.mem_cons_self
    have hrest := ih fun u hu => h u (List.mem_cons_of_mem _ hu)
    rw [List.sum_cons, List.length_cons]
    omega

theorem bound_of_sign {v s : Int} (hv : -2 ^ 31 ≤ v ∧ v < 2 ^ 31) (hs : s = 1 ∨ s = -1) :
    -2 ^ 31 ≤ v * s ∧ v * s ≤ 2 ^ 31 := by
  rcases hs with rfl | rfl <;> omega

theorem energyTerms_bound {order : JobOrder} (ha : order.Aligned) (hg : order.Graphical)
    {s : Nat → Int} (hs : order.SpinsOn s) :
    ∀ t ∈ order.energyTerms s, -2 ^ 31 ≤ t ∧ t ≤ 2 ^ 31 := by
  intro t ht
  rcases List.mem_append.mp ht with ht | ht
  · obtain ⟨p, hp, rfl⟩ := List.mem_map.mp ht
    obtain ⟨hnode, hfield⟩ := List.of_mem_zip hp
    exact bound_of_sign (ha.fieldBound _ hfield) (hs _ hnode)
  · obtain ⟨p, hp, rfl⟩ := List.mem_map.mp ht
    obtain ⟨hedge, hcoupling⟩ := List.of_mem_zip hp
    obtain ⟨h1, h2⟩ := hg.ends p.1 hedge
    rw [mul_assoc]
    refine bound_of_sign (ha.couplingBound _ hcoupling) ?_
    rcases hs _ h1 with h1 | h1 <;> rcases hs _ h2 with h2 | h2 <;> simp [h1, h2]

/-- No running sum of the score leaves 64 bits. -/
theorem partial_sums_fit {order : JobOrder} (ha : order.Aligned) (hg : order.Graphical)
    {s : Nat → Int} (hs : order.SpinsOn s)
    (hsize : order.nodes.length + order.edges.length < 2 ^ 32) (k : Nat) :
    -2 ^ 63 ≤ ((order.energyTerms s).take k).sum ∧ ((order.energyTerms s).take k).sum < 2 ^ 63 := by
  have hterms : ((order.energyTerms s).take k).length < 2 ^ 32 := by
    refine (List.length_take_le' k _).trans_lt ?_
    rw [JobOrder.energyTerms, List.length_append, List.length_map, List.length_map,
      List.length_zip, List.length_zip]
    omega
  have hbound : ∀ t ∈ (order.energyTerms s).take k, -2 ^ 31 ≤ t ∧ t ≤ 2 ^ 31 := fun t ht =>
    energyTerms_bound ha hg hs t (List.mem_of_mem_take ht)
  have hsum := bounds_of_sum hbound
  omega

section
variable [Crates]

theorem isSome_jobOrderToJob_iff (order : JobOrder) :
    (jobOrderToJob order).isSome = true ↔ order.Graphical := by
  rw [jobOrderToJob]
  split_ifs with hbad
  · refine iff_of_false (by simp) ?_
    intro hg
    rcases hbad with hdup | hmany
    · exact hdup hg.distinct
    · exact absurd hg.few (not_le.mpr hmany)
  · rw [not_or, not_not, not_lt] at hbad
    have hends : (∀ e ∈ order.edges, e.1 ∈ order.nodes ∧ e.2 ∈ order.nodes) ↔
        ((order.edges.mapM fun e => order.nodes.idxOf? e.1).isSome = true ∧
          (order.edges.mapM fun e => order.nodes.idxOf? e.2).isSome = true) := by
      simp only [List.isSome_mapM_iff, List.isSome_idxOf?, forall_and]
    have hgraph : order.Graphical ↔
        ∀ e ∈ order.edges, e.1 ∈ order.nodes ∧ e.2 ∈ order.nodes :=
      ⟨fun h => h.ends, fun h => ⟨hbad.1, hbad.2, h⟩⟩
    rw [hgraph, hends]
    cases order.edges.mapM fun e => order.nodes.idxOf? e.1 with
    | none => simp
    | some u => cases order.edges.mapM fun e => order.nodes.idxOf? e.2 <;> simp

theorem jobOrderToJob_ising {order : JobOrder} {job : Job} (h : jobOrderToJob order = some job) :
    ∃ u v, u.zip v = order.edgePositions ∧
      job.ising = some (milliProblem (some (.edges ⟨u, v⟩)) order.hMilli order.jMilli) := by
  have hg : order.Graphical := (isSome_jobOrderToJob_iff order).mp (by rw [h]; rfl)
  have hu : (order.edges.mapM fun e => order.nodes.idxOf? e.1) =
      some (order.edges.map fun e => order.nodes.idxOf e.1) :=
    List.mapM_eq_some_of fun e he => idxOf?_eq_some_of_mem (hg.ends e he).1
  have hv : (order.edges.mapM fun e => order.nodes.idxOf? e.2) =
      some (order.edges.map fun e => order.nodes.idxOf e.2) :=
    List.mapM_eq_some_of fun e he => idxOf?_eq_some_of_mem (hg.ends e he).2
  have hok : ¬(¬order.nodes.Nodup ∨ 2 ^ 32 < order.nodes.length) := by
    rw [not_or, not_not, not_lt]
    exact ⟨hg.distinct, hg.few⟩
  rw [jobOrderToJob, if_neg hok, hu, hv] at h
  cases h
  refine ⟨_, _, ?_, rfl⟩
  rw [List.zip_map', JobOrder.edgePositions]

def returnedRows (packSpins : List Int → Bytes) (order : JobOrder)
    (answers : List ((Nat → Int) × Int)) : List Solution :=
  answers.map fun a => ⟨packSpins (order.nodes.map a.1), a.2⟩

theorem validateResult_labels {packSpins : List Int → Bytes} (codecs : RoundTrips packSpins)
    {order : JobOrder} (ha : order.Aligned) (hg : order.Graphical) {graph : Option Graph}
    {topo : ResolvedTopo}
    (hedges : edgesFor (milliProblem graph order.hMilli order.jMilli) topo = order.edgePositions)
    {answers : List ((Nat → Int) × Int)} (hspins : ∀ a ∈ answers, order.SpinsOn a.1)
    (gates : QualityGates) :
    validateResult (milliProblem graph order.hMilli order.jMilli)
        (returnedRows packSpins order answers) gates topo =
      validateScored (answers.map fun a => order.nodes.map a.1)
        (answers.map fun a => order.labelEnergy a.1) gates := by
  have hmilli : problemMilli (milliProblem graph order.hMilli order.jMilli) =
      some (order.hMilli, order.jMilli) := by
    simp only [problemMilli, milliProblem, codecs.coefficients _ ha.fieldBound,
      codecs.coefficients _ ha.couplingBound]
    rfl
  have hscored : (returnedRows packSpins order answers).filterMap (fun sol => do
      let spins ← decodeSpinsPacked sol.spins order.hMilli.length
      let energy ← energyOfRow spins order.hMilli
        (edgesFor (milliProblem graph order.hMilli order.jMilli) topo) order.jMilli
      pure (spins, energy)) =
        answers.map fun a => (order.nodes.map a.1, order.labelEnergy a.1) := by
    rw [returnedRows, List.filterMap_map]
    refine List.filterMap_eq_map_iff_forall_eq_some.mpr ?_
    intro a hmem
    have hrow : IsSpins (order.nodes.map a.1) := by
      intro v hv
      obtain ⟨n, hn, rfl⟩ := List.mem_map.mp hv
      exact hspins a hmem n hn
    have hread : decodeSpinsPacked (packSpins (order.nodes.map a.1)) order.hMilli.length =
        some (order.nodes.map a.1) := by
      rw [ha.fields, ← List.length_map a.1]
      exact codecs.spins _ hrow
    rw [Function.comp_apply, hread, Option.bind_eq_bind, Option.bind_some, hedges,
      energyOfRow_labels ha hg a.1]
    rfl
  simp only [validateResult, hmilli, hscored, List.map_map]
  rfl

/-- An order has a job exactly when it describes a graph that 32-bit positions can index. The job
scores every row by the labels of the order, as the problem of the same coefficients does on the
topology of its nodes and edges, and the score stays in 64 bits. -/
theorem order_scored_by_label {packSpins : List Int → Bytes} (codecs : RoundTrips packSpins)
    {order : JobOrder} (ha : order.Aligned) :
    ((jobOrderToJob order).isSome = true ↔ order.nodes.Nodup ∧ order.nodes.length ≤ 2 ^ 32 ∧
      ∀ e ∈ order.edges, e.1 ∈ order.nodes ∧ e.2 ∈ order.nodes) ∧
    ∀ job, jobOrderToJob order = some job →
      (∃ problem, job.ising = some problem ∧ ∀ gates topo,
        (∀ s stated, order.SpinsOn s →
          (validateResult problem [⟨packSpins (order.nodes.map s), stated⟩] gates
            topo).rawBestEnergyMilli = order.labelEnergy s) ∧
        ∀ answers : List ((Nat → Int) × Int), (∀ a ∈ answers, order.SpinsOn a.1) →
          validateResult problem (returnedRows packSpins order answers) gates topo =
              validateScored (answers.map fun a => order.nodes.map a.1)
                (answers.map fun a => order.labelEnergy a.1) gates ∧
          ∀ hash, validateResult
              (milliProblem (some (.topologyHash hash)) order.hMilli order.jMilli)
                (returnedRows packSpins order answers) gates
                (ResolvedTopo.new order.nodes order.edges) =
              validateResult problem (returnedRows packSpins order answers) gates topo) ∧
      (order.nodes.length + order.edges.length < 2 ^ 32 → ∀ s, order.SpinsOn s → ∀ k,
        -2 ^ 63 ≤ ((order.energyTerms s).take k).sum ∧
          ((order.energyTerms s).take k).sum < 2 ^ 63) := by
  refine ⟨?_, ?_⟩
  · rw [isSome_jobOrderToJob_iff]
    exact ⟨fun h => ⟨h.distinct, h.few, h.ends⟩, fun h => ⟨h.1, h.2.1, h.2.2⟩⟩
  intro job hjob
  have hg : order.Graphical := (isSome_jobOrderToJob_iff order).mp (by rw [hjob]; rfl)
  obtain ⟨u, v, hzip, hising⟩ := jobOrderToJob_ising hjob
  have hedges : ∀ topo, edgesFor (milliProblem (some (.edges ⟨u, v⟩)) order.hMilli order.jMilli)
      topo = order.edgePositions := fun _ => hzip
  refine ⟨⟨_, hising, fun gates topo => ⟨?_, ?_⟩⟩, fun hsize s hs => partial_sums_fit ha hg hs hsize⟩
  · intro s stated hs
    have hspins : ∀ a ∈ [(s, stated)], order.SpinsOn a.1 := by
      intro a hmem
      rw [List.mem_singleton.mp hmem]
      exact hs
    exact congrArg Validated.rawBestEnergyMilli
      (validateResult_labels codecs ha hg (hedges topo) hspins gates)
  · intro answers hspins
    have hinline := validateResult_labels codecs ha hg (hedges topo) hspins gates
    refine ⟨hinline, fun hash => ?_⟩
    have hresolved : edgesFor (milliProblem (some (.topologyHash hash)) order.hMilli order.jMilli)
        (ResolvedTopo.new order.nodes order.edges) = order.edgePositions :=
      ResolvedTopo.new_edgesPos hg
    rw [hinline]
    exact validateResult_labels codecs ha hg hresolved hspins gates

end
namespace Sample

theorem decodeWords_encode (vs : List Int) (h : ∀ v ∈ vs, -2 ^ 31 ≤ v ∧ v < 2 ^ 31) :
    decodeWords (vs.flatMap fun v => toLeBytes 4 (v % 2 ^ 32).toNat) = some vs := by
  induction vs with
  | nil => rfl
  | cons v vs ih =>
    have hv := h v List.mem_cons_self
    have hbytes : ∀ n : Nat, toLeBytes 4 n =
        [UInt8.ofNat (n / 256 ^ 0), UInt8.ofNat (n / 256 ^ 1), UInt8.ofNat (n / 256 ^ 2),
          UInt8.ofNat (n / 256 ^ 3)] := fun _ => rfl
    rw [List.flatMap_cons, hbytes]
    simp only [List.cons_append, List.nil_append, decodeWords,
      ih fun u hu => h u (List.mem_cons_of_mem _ hu), UInt8.toNat_ofNat']
    have hword : ∀ n : Nat, n < 2 ^ 32 → ((n / 256 ^ 0 % 2 ^ 8 : Nat) : Int) +
        256 * (n / 256 ^ 1 % 2 ^ 8 : Nat) + 256 ^ 2 * (n / 256 ^ 2 % 2 ^ 8 : Nat) +
          256 ^ 3 * (n / 256 ^ 3 % 2 ^ 8 : Nat) = n := by
      intro n hn
      omega
    rw [hword _ (by omega)]
    simp only [Option.bind_eq_bind, Option.bind_some, Option.pure_def, Option.some.injEq,
      List.cons.injEq, and_true]
    split_ifs <;> omega

def packByte (spins : List Int) : Nat :=
  spins.foldr (fun s n => 2 * n + if 0 < s then 1 else 0) 0

theorem packByte_lt (spins : List Int) : packByte spins < 2 ^ spins.length := by
  induction spins with
  | nil => exact Nat.one_pos
  | cons s spins ih =>
    rw [packByte, List.foldr_cons, List.length_cons, Nat.pow_succ]
    change 2 * packByte spins + _ < _
    split_ifs <;> omega

theorem packByte_bit (spins : List Int) (k : Nat) :
    packByte spins / 2 ^ k % 2 = if 0 < spins.getD k 0 then 1 else 0 := by
  induction spins generalizing k with
  | nil => simp [packByte]
  | cons s spins ih =>
    change (2 * packByte spins + _) / 2 ^ k % 2 = _
    cases k with
    | zero => split_ifs <;> simp_all <;> omega
    | succ k =>
      have hhalf : (2 * packByte spins + if 0 < s then 1 else 0) / 2 = packByte spins := by
        split_ifs <;> omega
      rw [List.getD_cons_succ, ← ih k, Nat.pow_succ', ← Nat.div_div_eq_div_mul, hhalf]

theorem unpackSpins_packBits (row : List Int) (h : IsSpins row) :
    unpackSpins (packBits row) row.length = some row := by
  have hlen : (packBits row).length = (row.length + 7) / 8 := by
    rw [packBits, List.length_map, List.length_range]
  rw [unpackSpins, if_pos hlen, Option.some.injEq]
  apply List.ext_getElem
  · rw [List.length_map, List.length_range]
  intro i hi hrow
  rw [List.getElem_map, List.getElem_range]
  have hbyte : ((packBits row).getD (i / 8) 0).toNat = packByte ((row.drop (8 * (i / 8))).take 8) := by
    have hlt : i / 8 < (row.length + 7) / 8 := by omega
    have hsmall := (packByte_lt ((row.drop (8 * (i / 8))).take 8)).trans_le
      (Nat.pow_le_pow_right (by decide) (List.length_take_le 8 _))
    have hget : (packBits row).getD (i / 8) 0 =
        UInt8.ofNat (packByte ((row.drop (8 * (i / 8))).take 8)) := by
      simp [packBits, packByte, List.getD_eq_getElem?_getD, hlt]
    rw [hget, UInt8.toNat_ofNat', Nat.mod_eq_of_lt hsmall]
  have hspin : ((row.drop (8 * (i / 8))).take 8).getD (i % 8) 0 = row[i] := by
    have hpos : 8 * (i / 8) + i % 8 = i := by omega
    simp [List.getD_eq_getElem?_getD, List.getElem?_drop, hpos, hrow,
      Nat.mod_lt]
  rw [hbyte, packByte_bit, hspin]
  rcases h row[i] (List.getElem_mem hrow) with he | he <;> simp [he]

theorem roundTrips : RoundTrips packBits := ⟨decodeWords_encode, unpackSpins_packBits⟩

def labelled : JobOrder :=
  ⟨[5, 0, 0, 0, 0, 0, 0, 0], [7, 3, 9], [(9, 7), (3, 9)], [10, -20, 30], [100, -200], none, none,
    none, 0⟩

end Sample

open Sample in
theorem order_scored_by_label_sample :
    ∃ job problem, jobOrderToJob labelled = some job ∧ job.ising = some problem ∧
      ∀ gates topo, (validateResult problem
        [⟨packBits [1, -1, -1], 0⟩] gates topo).rawBestEnergyMilli = -300 := by
  have haligned : labelled.Aligned := ⟨rfl, rfl, by decide, by decide⟩
  have hlabels := order_scored_by_label roundTrips haligned
  obtain ⟨job, hjob⟩ := Option.isSome_iff_exists.mp (hlabels.1.mpr (by decide))
  obtain ⟨⟨problem, hising, hscore⟩, -⟩ := hlabels.2 job hjob
  refine ⟨job, problem, hjob, hising, fun gates topo => ?_⟩
  exact (hscore gates topo).1 (fun n => if n = 7 then 1 else -1) 0
    (by simp [JobOrder.SpinsOn, labelled])

end QuipCoordinator
