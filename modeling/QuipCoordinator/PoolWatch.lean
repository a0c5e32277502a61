import QuipCoordinator.FoundationTable
import QuipCoordinator.PoolJudge

/-!
# The scan of the pool and its cache

`PoolWatch` keeps the verdicts of a root by extrinsic hash, except the ones below
the gates, and the signers and nonces of the proofs that already held the miners
on this root. While a round lasts its ceiling only rises. A row that is admitted
stays admitted and no later one has a lower energy than the best, so a verdict
that is kept is the verdict a fresh judgement gives at any later snapshot.
-/

namespace QuipCoordinator

structure Clearing where
  account : Bytes32
  nonce : Bytes32
  bestEnergyMilli : Int
deriving DecidableEq

inductive PoolObservation
  | clearing
  | clear
  | unknown
deriving DecidableEq

inductive ResumeReason
  | poolClear
  | blocksElapsed
deriving DecidableEq

def awaitClearPolls : Nat := 2

def awaitQblockMaxBlocks : Nat := 2

structure PoolWatch where
  root : Option Bytes32
  verdicts : Table Bytes32 (Option Clearing)
  ignored : Finset (Bytes32 × Bytes32)
  stoppedAt : Option Nat
  clearPolls : Nat
deriving DecidableEq

def Clearing.key (c : Clearing) : Bytes32 × Bytes32 := (c.account, c.nonce)

def PendingProof.key (p : PendingProof) : Bytes32 × Bytes32 := (p.account, p.proof.nonce)

namespace PoolWatch

def new : PoolWatch := ⟨none, ∅, ∅, none, 0⟩

def enterRoot (w : PoolWatch) (root : Bytes32) : PoolWatch :=
  if w.root = some root then w
  else { w with root := some root, verdicts := ∅, ignored := ∅ }

def expireClearing (w : PoolWatch) : PoolWatch :=
  { w with
    verdicts := w.verdicts.filter fun _ verdict => verdict.isNone
    ignored := w.ignored ∪ w.verdicts.values.biUnion fun verdict =>
      verdict.elim ∅ fun c => {c.key} }

def stopped (w : PoolWatch) (block : Nat) : PoolWatch :=
  { w with stoppedAt := some block, clearPolls := 0 }

def countClear (observed : PoolObservation) (clearPolls : Nat) : Nat :=
  match observed with
  | .clearing => 0
  | .clear => satAdd 32 clearPolls 1
  | .unknown => clearPolls

def resumeReason (w : PoolWatch) (observed : PoolObservation) (block : Nat) :
    PoolWatch × Option ResumeReason :=
  let w := { w with clearPolls := countClear observed w.clearPolls }
  if awaitClearPolls ≤ w.clearPolls then (w, some .poolClear)
  else
    match w.stoppedAt with
    | none => (w, none)
    | some since =>
      if awaitQblockMaxBlocks ≤ block - since then (w, some .blocksElapsed) else (w, none)

section
variable [PoolScoring] [Crates]

/-- One turn of the loop of `scan`: the verdict on `p`, from the cache or fresh. -/
def visit (w : PoolWatch) (p : PendingProof) (snap : MiningSnapshot) :
    PoolWatch × Option Clearing :=
  if p.key ∈ w.ignored then (w, none)
  else
    match w.verdicts.lookup p.extrinsicHash with
    | some verdict => (w, verdict)
    | none =>
      let keep := fun verdict =>
        ({ w with verdicts := w.verdicts.insert p.extrinsicHash verdict }, verdict)
      match judgePendingProof p snap with
      | .clears best => keep (some ⟨p.account, p.proof.nonce, best⟩)
      | .otherRound => keep none
      | .belowGates => (w, none)
      | .malformed _ => keep none

omit [PoolScoring] [Crates] in
def keepBest (best verdict : Option Clearing) : Option Clearing :=
  match verdict, best with
  | none, best => best
  | some c, none => some c
  | some c, some b => if c.bestEnergyMilli < b.bestEnergyMilli then some c else some b

def scanFrom (snap : MiningSnapshot) :
    List PendingProof → PoolWatch → Option Clearing → PoolWatch × Option Clearing
  | [], w, best => (w, best)
  | p :: pending, w, best =>
    scanFrom snap pending (w.visit p snap).1 (keepBest best (w.visit p snap).2)

def scan (w : PoolWatch) (pending : List PendingProof) (snap : MiningSnapshot) :
    PoolWatch × Option Clearing :=
  scanFrom snap pending (w.enterRoot snap.lastProofBlockHash) none

def clearingsFrom (snap : MiningSnapshot) : List PendingProof → PoolWatch → List Clearing
  | [], _ => []
  | p :: pending, w => (w.visit p snap).2.toList ++ clearingsFrom snap pending (w.visit p snap).1

def clearings (w : PoolWatch) (pending : List PendingProof) (snap : MiningSnapshot) :
    List Clearing :=
  clearingsFrom snap pending (w.enterRoot snap.lastProofBlockHash)

omit [PoolScoring] [Crates] in
theorem minOn?_keepBest (best verdict : Option Clearing) (cs : List Clearing) :
    ((keepBest best verdict).toList ++ cs).minOn? (·.bestEnergyMilli) =
      (best.toList ++ (verdict.toList ++ cs)).minOn? (·.bestEnergyMilli) := by
  cases verdict with
  | none => rfl
  | some c =>
    cases best with
    | none => rfl
    | some b =>
      have hkeep : keepBest (some b) (some c) = some (minOn (·.bestEnergyMilli) b c) := by
        rw [keepBest, minOn]
        split_ifs <;> first | rfl | omega
      rw [hkeep]
      rfl

theorem scanFrom_snd (snap : MiningSnapshot) (pending : List PendingProof) (w : PoolWatch)
    (best : Option Clearing) :
    (scanFrom snap pending w best).2 =
      (best.toList ++ clearingsFrom snap pending w).minOn? (·.bestEnergyMilli) := by
  induction pending generalizing w best with
  | nil => cases best <;> rfl
  | cons p pending ih => rw [scanFrom, ih, clearingsFrom, minOn?_keepBest]

/-- A scan returns the first of its clearing verdicts with the lowest energy. -/
theorem scan_snd (w : PoolWatch) (pending : List PendingProof) (snap : MiningSnapshot) :
    (w.scan pending snap).2 = (w.clearings pending snap).minOn? (·.bestEnergyMilli) :=
  scanFrom_snd snap pending _ none

end
end PoolWatch

/-! ## Verdicts that last -/

/-- Two snapshots of one round: they differ at most in the head and in the ceiling. -/
structure MiningSnapshot.SameRound (a b : MiningSnapshot) : Prop where
  root : b.lastProofBlockHash = a.lastProofBlockHash
  topologyHash : b.topologyHash = a.topologyHash
  nodes : b.nodes = a.nodes
  edges : b.edges = a.edges
  allowedH : b.allowedHMilli = a.allowedHMilli
  allowedJ : b.allowedJMilli = a.allowedJMilli
  allowedSpin : b.allowedSpinMilli = a.allowedSpinMilli
  minSolutions : b.minSolutions = a.minSolutions
  minDiversity : b.minDiversityMilli = a.minDiversityMilli

def SpinRows (n : Nat) (rows : List (List Int)) : Prop :=
  ∀ row ∈ rows, IsSpins row ∧ row.length = n

section
variable [PoolScoring] [Crates]
open PoolScoring Crates

/-- What the linked crate promises about rows over `n` nodes: a packed row unpacks to `n` values,
and the selection and its diversity are total. -/
structure ScoringLaws : Prop where
  unpack : ∀ packed n spec milli, unpackSolution packed n spec = .ok milli → milli.length = n
  select : ∀ n rows t, SpinRows n rows → 1 ≤ t → t ≤ rows.length →
    ∃ idx, selectDiverse rows t = some idx ∧ idx.length = t ∧ ∀ i ∈ idx, i < rows.length
  diversity : ∀ n rows, SpinRows n rows → rows ≠ [] → ∃ d, calculateDiversity rows = some d

omit [PoolScoring] in
/-- Admitting further rows never lowers the diversity of the selection below the gate. -/
def DiversityKept (gates : QualityGates) (n : Nat) : Prop :=
  ∀ rows rows' : List (List Int), rows.Sublist rows' → SpinRows n rows' → rows ≠ [] →
    gates.minSolutions ≤ rows.length →
    gates.minDiversityMilli ≤ (selectAndScore rows gates.minSolutions).2 →
    gates.minDiversityMilli ≤ (selectAndScore rows' gates.minSolutions).2

omit [Crates] in
theorem MiningSnapshot.SameRound.scoreRows_eq {a b : MiningSnapshot} (h : a.SameRound b)
    (q : QuantumProof) :
    scoreRows q b = scoreRows q a := by
  unfold scoreRows scoreRow
  rw [h.nodes, h.edges, h.allowedH, h.allowedJ, h.allowedSpin]

omit [PoolScoring] [Crates] in
theorem signumSpin_eq_ok {value spin : Int} (h : signumSpin value = .ok spin) :
    spin = 1 ∨ spin = -1 := by
  unfold signumSpin at h
  split_ifs at h
  · exact Or.inl (Except.ok.inj h).symm
  · exact Or.inr (Except.ok.inj h).symm

theorem spinRows_of_scoreRows (laws : ScoringLaws) {q : QuantumProof} {snap : MiningSnapshot}
    {rows : List SpinRow} (h : scoreRows q snap = .ok rows) :
    SpinRows snap.nodes.length (rows.map (·.spins)) := by
  intro spins hspins
  obtain ⟨row, hrow, rfl⟩ := List.mem_map.mp hspins
  obtain ⟨index, fields, couplings, packed, hscore⟩ := (scoreRows_eq_ok h).2 row hrow
  obtain ⟨milli, hmilli, hscore⟩ := Except.bind_eq_ok.mp hscore
  obtain ⟨spins, hsign, hscore⟩ := Except.bind_eq_ok.mp hscore
  obtain ⟨energy, _, hrow⟩ := Except.bind_eq_ok.mp hscore
  obtain ⟨hlen, hmem⟩ := List.mapM_eq_ok hsign
  cases hrow
  refine ⟨fun spin hspin => ?_, ?_⟩
  · obtain ⟨value, _, hvalue⟩ := hmem spin hspin
    exact signumSpin_eq_ok hvalue
  · rw [hlen]
    exact laws.unpack _ _ _ _ (Except.mapError_eq_ok.mp hmilli)

omit [PoolScoring] [Crates] in
theorem SpinRows.sublist {n : Nat} {rows rows' : List (List Int)} (h : SpinRows n rows')
    (hsub : rows.Sublist rows') : SpinRows n rows :=
  fun row hrow => h row (hsub.subset hrow)

theorem judgeRows_total (laws : ScoringLaws) {n : Nat} {rows : List SpinRow}
    (h : SpinRows n (rows.map (·.spins))) (gates : QualityGates) :
    ∃ v, judgeRows rows gates = .ok v := by
  unfold judgeRows
  cases hbest : ((admittedRows rows gates).map (·.energyMilli)).min? with
  | none =>
    refine ⟨.belowGates, ?_⟩
    simp only [hbest]
  | some best =>
    simp only [hbest]
    have hspin : SpinRows n ((admittedRows rows gates).map (·.spins)) :=
      h.sublist (List.filter_sublist.map _)
    have hpos : 1 ≤ ((admittedRows rows gates).map (·.spins)).length := by
      rw [List.length_map, ← List.length_map (·.energyMilli)]
      exact List.length_pos_of_mem (List.min?_mem hbest)
    generalize (admittedRows rows gates).map (·.spins) = spins at hspin hpos ⊢
    obtain ⟨idx, hidx, hlen, hlt⟩ := laws.select n spins
      (min spins.length (max gates.minSolutions 1)) hspin (by omega) (min_le_left _ _)
    have hpick : spins.pick idx ≠ [] := by
      intro hnil
      have hl := List.length_pick hlt
      rw [hnil, List.length_nil] at hl
      omega
    obtain ⟨d, hd⟩ := laws.diversity n (spins.pick idx)
      (fun row hrow => hspin row (List.mem_of_mem_pick hrow)) hpick
    unfold List.pick at hd
    simp only [hidx, hd]
    split_ifs <;> exact ⟨_, rfl⟩

omit [PoolScoring] [Crates] in
/-- A ceiling that admits the best row keeps it the best when it rises. -/
theorem min_admittedRows_mono {rows : List SpinRow} {gates gates' : QualityGates}
    (hle : gates.minEnergyMilli ≤ gates'.minEnergyMilli) {best : Int}
    (h : ((admittedRows rows gates).map (·.energyMilli)).min? = some best) :
    ((admittedRows rows gates').map (·.energyMilli)).min? = some best := by
  obtain ⟨hmem, hmin⟩ := List.min?_eq_some_iff.mp h
  obtain ⟨row, hrow, hbest⟩ := List.mem_map.mp hmem
  obtain ⟨hin, hlt⟩ := List.mem_filter.mp hrow
  have hlt := of_decide_eq_true hlt
  refine List.min?_eq_some_iff.mpr ⟨List.mem_map.mpr ⟨row, ?_, hbest⟩, fun energy henergy => ?_⟩
  · exact List.mem_filter.mpr ⟨hin, decide_eq_true (hlt.trans_le hle)⟩
  · obtain ⟨other, hother, rfl⟩ := List.mem_map.mp henergy
    by_cases hunder : other.energyMilli < gates.minEnergyMilli
    · refine hmin _ (List.mem_map.mpr ⟨other, ?_, rfl⟩)
      exact List.mem_filter.mpr ⟨(List.mem_filter.mp hother).1, decide_eq_true hunder⟩
    · omega

omit [PoolScoring] [Crates] in
theorem admittedRows_sublist_of_le (rows : List SpinRow) {gates gates' : QualityGates}
    (hle : gates.minEnergyMilli ≤ gates'.minEnergyMilli) :
    (admittedRows rows gates).Sublist (admittedRows rows gates') := by
  refine List.monotone_filter_right rows fun row hrow => ?_
  exact decide_eq_true ((of_decide_eq_true hrow).trans_le hle)

/-- A proof that clears goes on clearing with the same best energy while the ceiling rises. -/
theorem judgeRows_clears_mono (laws : ScoringLaws) {n : Nat} {rows : List SpinRow}
    (hrows : SpinRows n (rows.map (·.spins))) {gates gates' : QualityGates}
    (hle : gates.minEnergyMilli ≤ gates'.minEnergyMilli)
    (hsol : gates'.minSolutions = gates.minSolutions)
    (hdiv : gates'.minDiversityMilli = gates.minDiversityMilli) (hkept : DiversityKept gates n)
    {best : Int} (h : judgeRows rows gates = .ok (.clears best)) :
    judgeRows rows gates' = .ok (.clears best) := by
  obtain ⟨_, hv⟩ | ⟨b, hmin, hv⟩ := judgeRows_eq_ok h
  · exact nomatch hv
  have hgate : (gates.minSolutions ≤ min (admittedRows rows gates).length (2 ^ 32 - 1) ∧
      gates.minDiversityMilli ≤
        (selectAndScore ((admittedRows rows gates).map (·.spins)) gates.minSolutions).2) ∧
      best = b := by
    split_ifs at hv with hgate
    exact ⟨hgate, Verdict.clears.inj hv⟩
  obtain ⟨⟨hcount, hdiverse⟩, rfl⟩ := hgate
  have hmin' := min_admittedRows_mono hle hmin
  have hsub := admittedRows_sublist_of_le rows hle
  obtain ⟨v, hjudge⟩ := judgeRows_total laws hrows gates'
  obtain ⟨hnil, _⟩ | ⟨b', hb', hv'⟩ := judgeRows_eq_ok hjudge
  · rw [hnil] at hmin'
    exact nomatch hmin'
  obtain rfl : best = b' := Option.some.inj (hmin'.symm.trans hb')
  rw [hjudge, hv', if_pos]
  rw [hsol, hdiv]
  constructor
  · exact hcount.trans (min_le_min_right _ hsub.length_le)
  · refine hkept _ _ (hsub.map _) (hrows.sublist (List.filter_sublist.map _)) ?_ ?_ hdiverse
    · intro hnil
      rw [List.map_eq_nil_iff.mp hnil] at hmin
      exact nomatch hmin
    · rw [List.length_map]
      exact hcount.trans (min_le_left _ _)

def PendingProof.clearing? (p : PendingProof) (snap : MiningSnapshot) : Option Clearing :=
  match judgePendingProof p snap with
  | .clears best => some ⟨p.account, p.proof.nonce, best⟩
  | _ => none

/-- From the ceiling `c` on, the verdict on `p` in the round of `base` is `v`. -/
def PendingProof.Settled (base : MiningSnapshot) (c : Int) (p : PendingProof)
    (v : Option Clearing) : Prop :=
  ∀ snap, base.SameRound snap → c ≤ snap.maxEnergyMilli → p.clearing? snap = v

theorem MiningSnapshot.SameRound.judge_cases (base : MiningSnapshot) (p : PendingProof) :
    (∀ snap, base.SameRound snap → judgePendingProof p snap = .otherRound) ∨
      (∃ reason, ∀ snap, base.SameRound snap → judgePendingProof p snap = .malformed reason) ∨
      ∃ rows, scoreRows p.proof base = .ok rows ∧ ∀ snap, base.SameRound snap → ∀ v,
        judgeRows rows snap.gates = .ok v → judgePendingProof p snap = v := by
  by_cases htopo : p.proof.topologyHash.toList ≠ base.topologyHash
  · refine Or.inl fun snap h => ?_
    rw [judgePendingProof, h.topologyHash, if_pos htopo]
  by_cases hnonce : p.proof.nonce ≠
      deriveNonce base.lastProofBlockHash (accountIdentityBytes p.account) p.proof.salt
  · refine Or.inl fun snap h => ?_
    rw [judgePendingProof, h.topologyHash, if_neg htopo, h.root, if_pos hnonce]
  -- the first two checks pass, so the verdict is that of `score`
  have hjudge : ∀ snap, base.SameRound snap → ∀ result,
      (scoreRows p.proof base >>= (judgeRows · snap.gates)) = result →
      (∀ verdict, result = .ok verdict → judgePendingProof p snap = verdict) ∧
        ∀ reason, result = .error reason → judgePendingProof p snap = .malformed reason := by
    rintro snap h result hresult
    constructor
    · rintro verdict rfl
      simp only [judgePendingProof, h.topologyHash, if_neg htopo, h.root, if_neg hnonce, score,
        h.scoreRows_eq, hresult]
    · rintro reason rfl
      simp only [judgePendingProof, h.topologyHash, if_neg htopo, h.root, if_neg hnonce, score,
        h.scoreRows_eq, hresult]
  cases hrows : scoreRows p.proof base with
  | error reason =>
    refine Or.inr (Or.inl ⟨reason, fun snap h => ?_⟩)
    exact (hjudge snap h (.error reason) (by rw [hrows]; rfl)).2 reason rfl
  | ok rows =>
    refine Or.inr (Or.inr ⟨rows, rfl, fun snap h v hv => ?_⟩)
    exact (hjudge snap h (.ok v) (by rw [hrows]; exact hv)).1 v rfl

/-- Every verdict that the scan caches is settled from the ceiling it was made at. -/
theorem settled_of_judge (laws : ScoringLaws) {base snap : MiningSnapshot}
    (hkept : DiversityKept base.gates base.nodes.length) (hround : base.SameRound snap)
    {p : PendingProof} (hv : judgePendingProof p snap ≠ .belowGates) :
    p.Settled base snap.maxEnergyMilli (p.clearing? snap) := by
  intro later hlater hle
  unfold PendingProof.clearing?
  obtain hother | ⟨reason, hbad⟩ | ⟨rows, hrows, hjudge⟩ := MiningSnapshot.SameRound.judge_cases base p
  · rw [hother snap hround, hother later hlater]
  · rw [hbad snap hround, hbad later hlater]
  · have hspin := spinRows_of_scoreRows laws hrows
    obtain ⟨v, hrow⟩ := judgeRows_total laws hspin snap.gates
    have hsnap := hjudge snap hround v hrow
    rw [hsnap] at hv ⊢
    obtain ⟨_, hbelow⟩ | ⟨best, _, hgate⟩ := judgeRows_eq_ok hrow
    · exact absurd hbelow hv
    split_ifs at hgate
    · rw [hgate] at hrow ⊢
      have hkept' : DiversityKept snap.gates base.nodes.length := by
        unfold DiversityKept MiningSnapshot.gates at hkept ⊢
        rwa [hround.minSolutions, hround.minDiversity]
      have hstay : judgeRows rows later.gates = .ok (.clears best) :=
        judgeRows_clears_mono laws hspin hle
          (hlater.minSolutions.trans hround.minSolutions.symm)
          (hlater.minDiversity.trans hround.minDiversity.symm) hkept' hrow
      rw [hjudge later hlater _ hstay]
    · exact absurd hgate hv

/-! ## The cache along a sequence of calls -/

inductive PoolCall
  | scan (pending : List PendingProof) (snap : MiningSnapshot)
  | expireClearing
deriving DecidableEq

namespace PoolCall
omit [PoolScoring] [Crates]

def pending : PoolCall → List PendingProof
  | scan pending _ => pending
  | expireClearing => []

def snap : PoolCall → Option MiningSnapshot
  | scan _ snap => some snap
  | expireClearing => none

end PoolCall

/-- The calls belong to the round of `base`: its snapshots, ceilings that never fall, and one
pending proof for each extrinsic hash. -/
structure RoundCalls (base : MiningSnapshot) (calls : List PoolCall) : Prop where
  round : ∀ snap ∈ calls.filterMap PoolCall.snap, base.SameRound snap
  ceiling : (calls.filterMap PoolCall.snap).Pairwise fun a b => a.maxEnergyMilli ≤ b.maxEnergyMilli
  hashes : ∀ p ∈ calls.flatMap PoolCall.pending, ∀ p' ∈ calls.flatMap PoolCall.pending,
    p.extrinsicHash = p'.extrinsicHash → p = p'

namespace PoolWatch

def apply (w : PoolWatch) : PoolCall → PoolWatch
  | .scan pending snap => (w.scan pending snap).1
  | .expireClearing => w.expireClearing

def run (w : PoolWatch) (calls : List PoolCall) : PoolWatch := calls.foldl apply w

/-- The scan without a cache: every proof that is not ignored is judged afresh, and the first of
the lowest energy is returned. -/
def freshScan (ignored : Finset (Bytes32 × Bytes32)) (pending : List PendingProof)
    (snap : MiningSnapshot) : Option Clearing :=
  ((pending.filter fun p => p.key ∉ ignored).filterMap (·.clearing? snap)).minOn?
    (·.bestEnergyMilli)

/-- Every cached verdict is about a seen proof and settled from the ceiling `c` on. -/
def CacheInv (base : MiningSnapshot) (seen : List PendingProof) (c : Int) (w : PoolWatch) : Prop :=
  ∀ hash v, w.verdicts.lookup hash = some v →
    ∃ p ∈ seen, p.extrinsicHash = hash ∧ p.Settled base c v

omit [PoolScoring] [Crates] in
theorem enterRoot_root (w : PoolWatch) (root : Bytes32) : (w.enterRoot root).root = some root := by
  unfold enterRoot
  split_ifs with h
  · exact h
  · rfl

theorem visit_frame (w : PoolWatch) (p : PendingProof) (snap : MiningSnapshot) :
    (w.visit p snap).1 = { w with verdicts := (w.visit p snap).1.verdicts } := by
  unfold visit
  split_ifs
  · rfl
  cases w.verdicts.lookup p.extrinsicHash with
  | some v => rfl
  | none => cases judgePendingProof p snap <;> rfl

theorem visit_ignored (w : PoolWatch) (p : PendingProof) (snap : MiningSnapshot) :
    (w.visit p snap).1.ignored = w.ignored := by
  rw [visit_frame]

theorem scanFrom_frame (snap : MiningSnapshot) (pending : List PendingProof) (w : PoolWatch)
    (best : Option Clearing) : (scanFrom snap pending w best).1 =
      { w with verdicts := (scanFrom snap pending w best).1.verdicts } := by
  induction pending generalizing w best with
  | nil => rfl
  | cons p pending ih =>
    rw [scanFrom, ih, visit_frame]

theorem CacheInv.visit (laws : ScoringLaws) {base snap : MiningSnapshot}
    (hkept : DiversityKept base.gates base.nodes.length) (hround : base.SameRound snap)
    {seen : List PendingProof} {w : PoolWatch} (h : CacheInv base seen snap.maxEnergyMilli w)
    {p : PendingProof} (hp : p ∈ seen)
    (hhash : ∀ p' ∈ seen, p'.extrinsicHash = p.extrinsicHash → p' = p) :
    CacheInv base seen snap.maxEnergyMilli (w.visit p snap).1 ∧
      (w.visit p snap).2 = if p.key ∈ w.ignored then none else p.clearing? snap := by
  unfold PoolWatch.visit
  by_cases hign : p.key ∈ w.ignored
  · rw [if_pos hign, if_pos hign]
    exact ⟨h, rfl⟩
  rw [if_neg hign, if_neg hign]
  cases hlook : w.verdicts.lookup p.extrinsicHash with
  | some v =>
    obtain ⟨p', hp', heq, hsettled⟩ := h _ _ hlook
    rw [hhash p' hp' heq] at hsettled
    exact ⟨h, (hsettled snap hround le_rfl).symm⟩
  | none =>
    -- a fresh verdict is stored exactly when it is settled
    have hstore : judgePendingProof p snap ≠ .belowGates →
        CacheInv base seen snap.maxEnergyMilli
          { w with verdicts := w.verdicts.insert p.extrinsicHash (p.clearing? snap) } := by
      intro hv hash v hin
      rw [Finmap.lookup_insert_eq] at hin
      split_ifs at hin with heq
      · refine ⟨p, hp, heq.symm, ?_⟩
        rw [← Option.some.inj hin]
        exact settled_of_judge laws hkept hround hv
      · exact h hash v hin
    cases hv : judgePendingProof p snap with
    | belowGates => exact ⟨h, by rw [PendingProof.clearing?, hv]⟩
    | clears best =>
      have hc : p.clearing? snap = some ⟨p.account, p.proof.nonce, best⟩ := by
        rw [PendingProof.clearing?, hv]
      rw [hv, hc] at hstore
      exact ⟨hstore Verdict.noConfusion, hc.symm⟩
    | otherRound =>
      have hc : p.clearing? snap = none := by rw [PendingProof.clearing?, hv]
      rw [hv, hc] at hstore
      exact ⟨hstore Verdict.noConfusion, hc.symm⟩
    | malformed reason =>
      have hc : p.clearing? snap = none := by rw [PendingProof.clearing?, hv]
      rw [hv, hc] at hstore
      exact ⟨hstore Verdict.noConfusion, hc.symm⟩

theorem CacheInv.scanFrom (laws : ScoringLaws) {base snap : MiningSnapshot}
    (hkept : DiversityKept base.gates base.nodes.length) (hround : base.SameRound snap)
    {seen : List PendingProof}
    (hhash : ∀ p ∈ seen, ∀ p' ∈ seen, p.extrinsicHash = p'.extrinsicHash → p = p')
    {pending : List PendingProof} (hsub : pending ⊆ seen) {w : PoolWatch}
    (h : CacheInv base seen snap.maxEnergyMilli w) (best : Option Clearing) :
    CacheInv base seen snap.maxEnergyMilli (scanFrom snap pending w best).1 ∧
      clearingsFrom snap pending w =
        (pending.filter fun p => p.key ∉ w.ignored).filterMap (·.clearing? snap) := by
  induction pending generalizing w best with
  | nil => exact ⟨h, rfl⟩
  | cons p pending ih =>
    have hp : p ∈ seen := hsub List.mem_cons_self
    obtain ⟨hw, hv⟩ := h.visit laws hkept hround hp fun p' hp' => hhash p' hp' p hp
    obtain ⟨hinv, hrest⟩ :=
      ih (fun q hq => hsub (List.mem_cons_of_mem _ hq)) hw (keepBest best (w.visit p snap).2)
    refine ⟨hinv, ?_⟩
    rw [clearingsFrom, hrest, hv, visit_ignored w p snap]
    by_cases hign : p.key ∈ w.ignored
    · simp [hign]
    · cases hc : p.clearing? snap <;> simp [hign, hc]

omit [PoolScoring] [Crates] in
theorem CacheInv.mono [PoolScoring] [Crates] {base : MiningSnapshot} {seen : List PendingProof}
    {c c' : Int} {w : PoolWatch} (h : CacheInv base seen c w) (hle : c ≤ c') :
    CacheInv base seen c' w := by
  intro hash v hl
  obtain ⟨p, hp, heq, hsettled⟩ := h hash v hl
  exact ⟨p, hp, heq, fun snap hround hc => hsettled snap hround (hle.trans hc)⟩

def RootInv (base : MiningSnapshot) (seen : List PendingProof) (c : Int) (w : PoolWatch) : Prop :=
  w.root = some base.lastProofBlockHash → CacheInv base seen c w

theorem RootInv.enterRoot {base : MiningSnapshot} {seen : List PendingProof} {c : Int}
    {w : PoolWatch} (h : RootInv base seen c w) :
    CacheInv base seen c (w.enterRoot base.lastProofBlockHash) := by
  unfold PoolWatch.enterRoot
  split_ifs with hroot
  · exact h hroot
  · intro hash v hl
    exact nomatch hl

theorem RootInv.expireClearing {base : MiningSnapshot} {seen : List PendingProof} {c : Int}
    {w : PoolWatch} (h : RootInv base seen c w) : RootInv base seen c w.expireClearing := by
  intro hroot hash v hl
  exact h hroot hash v ((Finmap.lookup_filter_eq_some _ _ _ _).mp hl).1

/-- Each scan of a sequence of calls in one round returns what judging every proof that is not
ignored afresh returns. -/
theorem scan_after_calls (laws : ScoringLaws) {base : MiningSnapshot}
    (hkept : DiversityKept base.gates base.nodes.length) {seen : List PendingProof}
    (hhash : ∀ p ∈ seen, ∀ p' ∈ seen, p.extrinsicHash = p'.extrinsicHash → p = p')
    (pre : List PoolCall) (pending : List PendingProof) (snap : MiningSnapshot)
    (post : List PoolCall)
    (hround : ∀ s ∈ (pre ++ .scan pending snap :: post).filterMap PoolCall.snap, base.SameRound s)
    (hceil : ((pre ++ .scan pending snap :: post).filterMap PoolCall.snap).Pairwise
      fun a b => a.maxEnergyMilli ≤ b.maxEnergyMilli)
    (hseen : (pre ++ .scan pending snap :: post).flatMap PoolCall.pending ⊆ seen) (w : PoolWatch)
    (hinv : ∀ s ∈ (pre ++ .scan pending snap :: post).filterMap PoolCall.snap,
      RootInv base seen s.maxEnergyMilli w) :
    ((w.run pre).scan pending snap).2 =
      freshScan ((w.run pre).enterRoot base.lastProofBlockHash).ignored pending snap := by
  induction pre generalizing w with
  | nil =>
    have hs : base.SameRound snap := hround snap (by simp [PoolCall.snap])
    have hcache := (hinv snap (by simp [PoolCall.snap])).enterRoot
    have hp : pending ⊆ seen := fun p hp => hseen (by simp [PoolCall.pending, hp])
    obtain ⟨_, hclear⟩ := hcache.scanFrom laws hkept hs hhash hp none
    rw [run, List.foldl_nil, scan_snd, clearings, hs.root, hclear]
    rfl
  | cons call pre ih =>
    have hrest : ∀ s ∈ (pre ++ .scan pending snap :: post).filterMap PoolCall.snap,
        s ∈ (call :: pre ++ .scan pending snap :: post).filterMap PoolCall.snap := by
      intro s hs
      exact (List.sublist_cons_self call _).filterMap _ |>.subset hs
    have hinv' : ∀ s ∈ (pre ++ .scan pending snap :: post).filterMap PoolCall.snap,
        RootInv base seen s.maxEnergyMilli (w.apply call) := by
      intro s hs
      cases call with
      | expireClearing => exact (hinv s (hrest s hs)).expireClearing
      | scan pending' snap' =>
        have hs' : base.SameRound snap' := hround snap' (by simp [PoolCall.snap])
        have hp : pending' ⊆ seen := fun p hp => hseen (by simp [PoolCall.pending, hp])
        have hcache := (hinv snap' (by simp [PoolCall.snap])).enterRoot
        rw [← hs'.root] at hcache
        obtain ⟨hnext, _⟩ := hcache.scanFrom laws hkept hs' hhash hp none
        exact fun _ => hnext.mono (List.rel_of_pairwise_cons hceil hs)
    refine ih (fun s hs => hround s (hrest s hs)) ?_ ?_ (w.apply call) hinv'
    · exact hceil.sublist ((List.sublist_cons_self call _).filterMap _)
    · exact fun p hp => hseen (List.mem_append_right _ hp)

/-- The cache of the scan is transparent: in any sequence of `scan` and `expire_clearing` calls of
one round, on a watch that comes from another root, each scan returns what judging every proof
that is not ignored afresh returns. -/
theorem pool_scan_cache_transparent (laws : ScoringLaws) (base : MiningSnapshot)
    (hkept : DiversityKept base.gates base.nodes.length) (w : PoolWatch)
    (hw : w.root ≠ some base.lastProofBlockHash) (calls : List PoolCall)
    (hcalls : RoundCalls base calls) (pre post : List PoolCall) (pending : List PendingProof)
    (snap : MiningSnapshot) (heq : calls = pre ++ .scan pending snap :: post) :
    ((w.run pre).scan pending snap).2 =
      freshScan ((w.run pre).enterRoot snap.lastProofBlockHash).ignored pending snap := by
  subst heq
  have hs : base.SameRound snap := hcalls.round snap (by simp [PoolCall.snap])
  rw [hs.root]
  exact scan_after_calls laws hkept hcalls.hashes pre pending snap post hcalls.round hcalls.ceiling
    (fun p hp => hp) w fun _ _ hroot => absurd hroot hw

end PoolWatch
end

section
open Sample Separation Crates

theorem Separation.scoringLaws : ScoringLaws where
  unpack := by
    intro packed n spec milli h
    change (unpackSpins packed n).elim (Except.error "BadLength") _ = _ at h
    unfold unpackSpins at h
    split_ifs at h
    · rw [← Except.ok.inj h, List.length_map, List.length_map, List.length_range]
    · exact nomatch h
  select := by
    intro n rows t hrows _ ht
    obtain ⟨idx, hidx, hlen, _, hlt⟩ := selectionLaws.select rows t (fun row h => (hrows row h).1) ht
    exact ⟨idx, hidx, hlen, hlt⟩
  diversity := fun _ rows _ _ => ⟨meanMilli rows, rfl⟩

/-- The best subset of a larger set of rows is at least as separated. -/
theorem Separation.diversityKept (gates : QualityGates) (n : Nat) : DiversityKept gates n := by
  intro rows rows' hsub hspin hne hcount hdiv
  have hpos : 1 ≤ rows.length := List.length_pos_iff.mpr hne
  have hle : max gates.minSolutions 1 ≤ rows.length := max_le hcount hpos
  have hle' : max gates.minSolutions 1 ≤ rows'.length := hle.trans hsub.length_le
  have hscore : ∀ l : List (List Int), max gates.minSolutions 1 ≤ l.length →
      ∃ idx ∈ mostSeparated l (max gates.minSolutions 1),
        (selectAndScore l gates.minSolutions).2 = meanMilli (l.pick idx) := by
    intro l hl
    cases hidx : mostSeparated l (max gates.minSolutions 1) with
    | none =>
      have hempty := List.argmax_eq_none.mp hidx
      have hlen := List.length_sublistsLen (max gates.minSolutions 1) (List.range l.length)
      rw [hempty, List.length_nil, List.length_range] at hlen
      exact absurd hlen (Nat.choose_pos hl).ne
    | some idx =>
      refine ⟨idx, rfl, ?_⟩
      have hsel : selectDiverse l (min l.length (max gates.minSolutions 1)) = some idx := by
        rw [min_eq_right hl]
        exact hidx
      rw [selectAndScore, hsel]
      rfl
  obtain ⟨idx, hidx, hrows⟩ := hscore rows hle
  obtain ⟨idx', hidx', hrows'⟩ := hscore rows' hle'
  rw [hrows] at hdiv
  rw [hrows']
  refine hdiv.trans ?_
  obtain ⟨hrange, hlen⟩ := List.mem_sublistsLen.mp (List.argmax_mem hidx)
  obtain ⟨other, hother, hpick⟩ :=
    List.exists_pick_of_sublist ((List.pick_sublist hrange).trans hsub)
  have hlen' : other.length = max gates.minSolutions 1 := by
    rw [← hlen, ← List.length_pick fun i hi => List.mem_range.mp (hother.subset hi), hpick,
      List.length_pick fun i hi => List.mem_range.mp (hrange.subset hi)]
  rw [← hpick]
  have hmem : other ∈ List.sublistsLen (max gates.minSolutions 1) (List.range rows'.length) :=
    List.mem_sublistsLen.mpr ⟨hother, hlen'⟩
  exact List.le_of_mem_argmax (f := fun idx => meanMilli (rows'.pick idx)) hmem hidx'

/-- The ring proof waits in the pool of a ring whose ceiling rises past its second row. -/
theorem pool_scan_cache_transparent_ring :
    let p : PendingProof := ⟨Vector.replicate 32 1, Vector.replicate 32 5, ringProof⟩
    let low := { ring with maxEnergyMilli := -2000 }
    let later := { ring with maxEnergyMilli := 2000, blockNumber := 43 }
    ((PoolWatch.new.run [.scan [p] low, .scan [p] ring]).scan [p] later).2 =
        PoolWatch.freshScan ∅ [p] later ∧
      PoolWatch.freshScan ∅ [p] low = none ∧
      PoolWatch.freshScan ∅ [p] later =
        some ⟨Vector.replicate 32 5, Vector.replicate 32 3, -4000⟩ := by
  intro p low later
  refine ⟨?_, by decide +kernel, by decide +kernel⟩
  have hcalls : RoundCalls ring [.scan [p] low, .scan [p] ring, .scan [p] later] := by
    refine ⟨?_, ?_, ?_⟩
    · intro snap hsnap
      simp only [List.filterMap_cons, PoolCall.snap, List.filterMap_nil, List.mem_cons,
        List.not_mem_nil, or_false] at hsnap
      obtain rfl | rfl | rfl := hsnap <;> exact ⟨rfl, rfl, rfl, rfl, rfl, rfl, rfl, rfl, rfl⟩
    · decide
    · intro q hq q' hq' _
      simp only [List.flatMap_cons, PoolCall.pending, List.flatMap_nil, List.mem_append,
        List.mem_singleton, List.not_mem_nil, or_false, or_self] at hq hq'
      exact hq.trans hq'.symm
  have h := PoolWatch.pool_scan_cache_transparent scoringLaws ring (diversityKept _ _)
    PoolWatch.new (by decide) _ hcalls [.scan [p] low, .scan [p] ring] [] [p] later rfl
  have hign : ((PoolWatch.new.run [.scan [p] low, .scan [p] ring]).enterRoot
      later.lastProofBlockHash).ignored = ∅ := by decide +kernel
  rwa [hign] at h

end
end QuipCoordinator
