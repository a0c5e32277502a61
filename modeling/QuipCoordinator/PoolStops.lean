import QuipCoordinator.PoolWatch

/-!
# Stops and resumes of the miners on one root

A poll of the feeder that finds its root unchanged scans the pool. While the
miners work, a clearing proof stops them. While they wait for the block, the
poll may resume the round on the same root, which moves every proof the cache
holds as clearing to the ignored ones. `PollRecord` is what one poll saw and did.
A poll without a snapshot touches none of this and is left out. The climb back to
`StartMining` ends with a fresh snapshot, whose root becomes the current head.
-/

namespace QuipCoordinator

section
variable [PoolScoring] [Crates]

structure PollState where
  round : Option RoundState
  currentHead : Option Bytes32
  watch : PoolWatch
deriving DecidableEq

/-- The snapshot of a poll, what the pool read returned, and the snapshot a climb to mining would
end with. -/
structure PollInput where
  snap : MiningSnapshot
  pool : Option (List PendingProof)
  fresh : MiningSnapshot
deriving DecidableEq

/-- `clearings` are the clearing verdicts the scan went through and `scanned` the one it
returned. -/
structure PollRecord where
  awaiting : Bool
  clearings : List Clearing
  scanned : Option Clearing
  observed : PoolObservation
  block : Nat
  resumed : Option ResumeReason
  stopped : Bool
deriving DecidableEq

namespace PollState
omit [PoolScoring] [Crates]

def init : PollState := ⟨none, none, .new⟩

def scans (s : PollState) (snap : MiningSnapshot) : Bool :=
  s.currentHead = some snap.lastProofBlockHash ∧
    (s.round = some .startMining ∨ s.round = some .awaitingQBlock)

end PollState

def PollState.observe (s : PollState) (i : PollInput) :
    PoolWatch × List Clearing × Option Clearing × PoolObservation :=
  if s.scans i.snap then
    match i.pool with
    | some pending =>
      let (watch, clearing) := s.watch.scan pending i.snap
      (watch, s.watch.clearings pending i.snap, clearing,
        if clearing.isSome then .clearing else .clear)
    | none => (s.watch, [], none, .unknown)
  else (s.watch, [], none, .unknown)

def PollState.poll (s : PollState) (i : PollInput) : PollState × PollRecord :=
  let (watch, clearings, clearing, observed) := s.observe i
  let block := i.snap.blockNumber
  let mining := fun watch => ⟨some .startMining, some i.fresh.lastProofBlockHash, watch⟩
  if s.currentHead ≠ some i.snap.lastProofBlockHash then
    (mining watch, ⟨false, clearings, clearing, observed, block, none, false⟩)
  else if s.round = some .awaitingQBlock then
    let (watch, reason) := watch.resumeReason observed block
    let record := ⟨true, clearings, clearing, observed, block, reason, false⟩
    match reason with
    | some _ => (mining watch.expireClearing, record)
    | none => ({ s with watch := watch }, record)
  else if s.round = some .startMining ∧ clearing.isSome then
    ({ s with round := s.round.bind (·.transition .winPending), watch := watch.stopped block },
      ⟨false, clearings, clearing, observed, block, none, true⟩)
  else ({ s with watch := watch }, ⟨false, clearings, clearing, observed, block, none, false⟩)

def PollState.run (s : PollState) (inputs : List PollInput) : PollState :=
  inputs.foldl (fun s i => (s.poll i).1) s

def PollState.records : PollState → List PollInput → List PollRecord
  | _, [] => []
  | s, i :: inputs => (s.poll i).2 :: records (s.poll i).1 inputs

/-! ## What the watch holds -/

namespace PoolWatch

/-- The proof of `c` is ignored, or the cache holds it as clearing. -/
def Held (w : PoolWatch) (c : Clearing) : Prop :=
  c.key ∈ w.ignored ∨ ∃ hash c', w.verdicts.lookup hash = some (some c') ∧ c'.key = c.key

def Clean (w : PoolWatch) : Prop :=
  ∀ hash c, w.verdicts.lookup hash = some (some c) → c.key ∉ w.ignored

/-- What a visit can do: the proof is ignored, or its verdict comes from the cache, or it is judged,
and then the cache keeps what it returns or the proof is below the gates. -/
theorem visit_cases (w : PoolWatch) (p : PendingProof) (snap : MiningSnapshot) :
    w.visit p snap = (w, none) ∨
      (∃ v, w.verdicts.lookup p.extrinsicHash = some v ∧ w.visit p snap = (w, v)) ∨
      ∃ v : Option Clearing, p.key ∉ w.ignored ∧ (∀ c ∈ v, c.key = p.key) ∧
        w.verdicts.lookup p.extrinsicHash = none ∧
        w.visit p snap = ({ w with verdicts := w.verdicts.insert p.extrinsicHash v }, v) := by
  unfold visit
  split_ifs with hign
  · exact Or.inl rfl
  cases hl : w.verdicts.lookup p.extrinsicHash with
  | some v => exact Or.inr (Or.inl ⟨v, rfl, rfl⟩)
  | none =>
    cases judgePendingProof p snap with
    | belowGates => exact Or.inl rfl
    | clears best =>
      refine Or.inr (Or.inr ⟨some ⟨p.account, p.proof.nonce, best⟩, hign, ?_, rfl, rfl⟩)
      intro c hc
      rw [← Option.some.inj hc]
      rfl
    | otherRound | malformed reason =>
      exact Or.inr (Or.inr ⟨none, hign, by simp, rfl, rfl⟩)

omit [PoolScoring] [Crates] in
theorem Held.of_insert {w : PoolWatch} {c : Clearing} (h : w.Held c) {hash : Bytes32}
    (hnew : w.verdicts.lookup hash = none) (v : Option Clearing) :
    Held { w with verdicts := w.verdicts.insert hash v } c := by
  obtain hign | ⟨hash', c', hl, hkey⟩ := h
  · exact Or.inl hign
  · refine Or.inr ⟨hash', c', ?_, hkey⟩
    have hne : hash' ≠ hash := by
      intro heq
      rw [heq, hnew] at hl
      exact nomatch hl
    exact (Finmap.lookup_insert_of_ne _ hne).trans hl

theorem Held.visit {w : PoolWatch} {c : Clearing} (h : w.Held c) (p : PendingProof)
    (snap : MiningSnapshot) : (w.visit p snap).1.Held c := by
  obtain hv | ⟨v, _, hv⟩ | ⟨v, _, _, hnew, hv⟩ := visit_cases w p snap <;> rw [hv]
  · exact h
  · exact h
  · exact h.of_insert hnew v

theorem held_of_visit {w : PoolWatch} (hw : w.Clean) {p : PendingProof} {snap : MiningSnapshot}
    {c : Clearing} (h : (w.visit p snap).2 = some c) :
    (w.visit p snap).1.Held c ∧ c.key ∉ w.ignored := by
  obtain hv | ⟨v, hl, hv⟩ | ⟨v, hign, hkey, _, hv⟩ := visit_cases w p snap <;> rw [hv] at h ⊢
  · exact nomatch h
  · obtain rfl : v = some c := h
    exact ⟨Or.inr ⟨_, c, hl, rfl⟩, hw _ _ hl⟩
  · obtain rfl : v = some c := h
    refine ⟨Or.inr ⟨p.extrinsicHash, c, Finmap.lookup_insert _, rfl⟩, ?_⟩
    rw [hkey c rfl]
    exact hign

theorem Clean.visit {w : PoolWatch} (h : w.Clean) (p : PendingProof) (snap : MiningSnapshot) :
    (w.visit p snap).1.Clean := by
  obtain hv | ⟨v, _, hv⟩ | ⟨v, hign, hkey, _, hv⟩ := visit_cases w p snap <;> rw [hv]
  · exact h
  · exact h
  · intro hash c hl
    rw [Finmap.lookup_insert_eq] at hl
    split_ifs at hl
    · rw [hkey c (Option.some.inj hl)]
      exact hign
    · exact h hash c hl

/-- What a scan leaves: its clearing verdicts are held and were not ignored. -/
theorem scanFrom_holds (snap : MiningSnapshot) (pending : List PendingProof) {w : PoolWatch}
    (hw : w.Clean) (best : Option Clearing) :
    (scanFrom snap pending w best).1.Clean ∧
      (∀ c, w.Held c → (scanFrom snap pending w best).1.Held c) ∧
      ∀ c ∈ clearingsFrom snap pending w,
        (scanFrom snap pending w best).1.Held c ∧ c.key ∉ w.ignored := by
  induction pending generalizing w best with
  | nil => exact ⟨hw, fun _ h => h, fun c hc => absurd hc List.not_mem_nil⟩
  | cons p pending ih =>
    obtain ⟨hclean, hheld, hnew⟩ := ih (hw.visit p snap) (keepBest best (w.visit p snap).2)
    refine ⟨hclean, fun c hc => hheld c (hc.visit p snap), ?_⟩
    intro c hc
    obtain hfirst | hrest := List.mem_append.mp hc
    · obtain ⟨hin, hout⟩ := held_of_visit hw (Option.mem_toList.mp hfirst)
      exact ⟨hheld c hin, hout⟩
    · rw [← visit_ignored w p snap]
      exact hnew c hrest

omit [PoolScoring] [Crates] in
theorem Clean.enterRoot {w : PoolWatch} (h : w.Clean) (root : Bytes32) :
    (w.enterRoot root).Clean := by
  unfold PoolWatch.enterRoot
  split_ifs
  · exact h
  · intro hash c hl
    exact nomatch hl

theorem scan_frame (w : PoolWatch) (pending : List PendingProof) (snap : MiningSnapshot) :
    (w.scan pending snap).1 = { w.enterRoot snap.lastProofBlockHash with
      verdicts := (w.scan pending snap).1.verdicts } :=
  scanFrom_frame _ _ _ _

theorem scan_holds {w : PoolWatch} (hw : w.Clean) (pending : List PendingProof)
    (snap : MiningSnapshot) :
    (w.scan pending snap).1.Clean ∧
      (w.root = some snap.lastProofBlockHash → ∀ c, w.Held c → (w.scan pending snap).1.Held c) ∧
      ∀ c ∈ w.clearings pending snap,
        (w.scan pending snap).1.Held c ∧ c.key ∉ (w.scan pending snap).1.ignored := by
  obtain ⟨hclean, hheld, hnew⟩ :=
    scanFrom_holds snap pending (hw.enterRoot snap.lastProofBlockHash) none
  refine ⟨hclean, fun hsame c hc => hheld c ?_, fun c hc => ⟨(hnew c hc).1, ?_⟩⟩
  · rw [enterRoot, if_pos hsame]
    exact hc
  · rw [scan_frame]
    exact (hnew c hc).2

omit [PoolScoring] [Crates] in
theorem Clean.expireClearing (w : PoolWatch) : w.expireClearing.Clean := by
  intro hash c hl
  exact nomatch ((Finmap.lookup_filter_eq_some _ _ _ _).mp hl).2

omit [PoolScoring] [Crates] in
theorem Held.expireClearing {w : PoolWatch} {c : Clearing} (h : w.Held c) :
    c.key ∈ w.expireClearing.ignored := by
  refine Finset.mem_union.mpr ?_
  obtain hign | ⟨hash, c', hl, hkey⟩ := h
  · exact Or.inl hign
  · refine Or.inr (Finset.mem_biUnion.mpr ⟨some c', ?_, Finset.mem_singleton.mpr hkey.symm⟩)
    exact Finmap.mem_values_of_lookup hl

end PoolWatch

/-! ## The history of a root -/

section
omit [PoolScoring] [Crates]

/-- A scan up to some resume went through `c`. -/
def Expired (recs : List PollRecord) (c : Clearing) : Prop :=
  ∃ pre rec post, recs = pre ++ rec :: post ∧ rec.resumed.isSome = true ∧
    c ∈ (pre ++ [rec]).flatMap (·.clearings)

def clearsSince (recs : List PollRecord) : Nat :=
  (recs.reverse.takeWhile fun rec => !rec.stopped && rec.observed ≠ .clearing).countP
    fun rec => rec.observed = .clear

def lastStop (recs : List PollRecord) : Option Nat :=
  (recs.reverse.find? (·.stopped)).map (·.block)

theorem Expired.concat {recs : List PollRecord} {rec : PollRecord} {c : Clearing}
    (h : Expired (recs ++ [rec]) c) :
    Expired recs c ∨
      rec.resumed.isSome = true ∧ c ∈ (recs ++ [rec]).flatMap (·.clearings) := by
  obtain ⟨pre, last, post, heq, hres, hc⟩ := h
  obtain rfl | ⟨post, final, rfl⟩ := List.eq_nil_or_concat' post
  · obtain ⟨rfl, hlast⟩ := List.append_inj' heq rfl
    obtain rfl : rec = last := List.head_eq_of_cons_eq hlast
    exact Or.inr ⟨hres, hc⟩
  · rw [← List.cons_append, ← List.append_assoc] at heq
    exact Or.inl ⟨pre, last, post, (List.append_inj' heq rfl).1, hres, hc⟩

theorem clearsSince_concat (recs : List PollRecord) (rec : PollRecord) :
    clearsSince (recs ++ [rec]) =
      if rec.stopped = true ∨ rec.observed = .clearing then 0
      else clearsSince recs + if rec.observed = .clear then 1 else 0 := by
  unfold clearsSince
  rw [List.reverse_append, List.reverse_singleton, List.singleton_append, List.takeWhile_cons]
  cases hs : rec.stopped <;> cases ho : rec.observed <;> simp [ho]

theorem lastStop_concat (recs : List PollRecord) (rec : PollRecord) :
    lastStop (recs ++ [rec]) = if rec.stopped = true then some rec.block else lastStop recs := by
  unfold lastStop
  rw [List.reverse_append, List.reverse_singleton, List.singleton_append, List.find?_cons]
  cases rec.stopped <;> simp

end

namespace PoolWatch
omit [PoolScoring] [Crates]

theorem resumeReason_eq (w : PoolWatch) (observed : PoolObservation) (block : Nat) :
    w.resumeReason observed block =
      ({ w with clearPolls := countClear observed w.clearPolls },
        if awaitClearPolls ≤ countClear observed w.clearPolls then some .poolClear
        else w.stoppedAt.bind fun since =>
          if awaitQblockMaxBlocks ≤ block - since then some .blocksElapsed else none) := by
  unfold resumeReason
  by_cases hpolls : awaitClearPolls ≤ countClear observed w.clearPolls
  · simp only [if_pos hpolls]
  · simp only [if_neg hpolls]
    cases w.stoppedAt with
    | none => rfl
    | some since =>
      dsimp only [Option.bind_some]
      split_ifs <;> rfl

theorem resumeReason_isSome (w : PoolWatch) (observed : PoolObservation) (block : Nat) :
    (w.resumeReason observed block).2.isSome = true ↔
      awaitClearPolls ≤ countClear observed w.clearPolls ∨
        ∃ since, w.stoppedAt = some since ∧ awaitQblockMaxBlocks ≤ block - since := by
  rw [resumeReason_eq]
  by_cases hpolls : awaitClearPolls ≤ countClear observed w.clearPolls
  · simp [hpolls]
  · cases w.stoppedAt with
    | none => simp [hpolls]
    | some since => by_cases hb : awaitQblockMaxBlocks ≤ block - since <;> simp [hpolls, hb]

end PoolWatch

/-! ## One poll on an unchanged root -/

/-- The state of the feeder on the root `r` after the polls of `recs`. -/
structure OnRoot (r : Bytes32) (recs : List PollRecord) (s : PollState) : Prop where
  head : s.currentHead = some r
  clean : s.watch.Clean
  root : (∃ rec ∈ recs, rec.clearings ≠ []) → s.watch.root = some r
  held : ∀ c ∈ recs.flatMap (·.clearings), s.watch.Held c
  expired : ∀ c, Expired recs c → c.key ∈ s.watch.ignored
  round : s.round = some .startMining ∨ s.round = some .awaitingQBlock ∧
    s.watch.clearPolls = clearsSince recs ∧ clearsSince recs < awaitClearPolls ∧
    ∃ b, s.watch.stoppedAt = some b ∧ lastStop recs = some b

structure Observed (r : Bytes32) (recs : List PollRecord) (s : PollState) (w : PoolWatch)
    (clearings : List Clearing) (clearing : Option Clearing) (observed : PoolObservation) :
    Prop where
  clean : w.Clean
  root : (∃ rec ∈ recs, rec.clearings ≠ []) ∨ clearings ≠ [] → w.root = some r
  held : ∀ c ∈ recs.flatMap (·.clearings) ++ clearings, w.Held c
  expired : ∀ c, Expired recs c → c.key ∈ w.ignored
  clearPolls : w.clearPolls = s.watch.clearPolls
  stoppedAt : w.stoppedAt = s.watch.stoppedAt
  observed : observed = .clearing ↔ clearing.isSome = true
  fresh : ∀ c', clearing = some c' → ∀ c, Expired recs c → c'.key ≠ c.key

omit [PoolScoring] [Crates] in
theorem Expired.mem {recs : List PollRecord} {c : Clearing} (h : Expired recs c) :
    c ∈ recs.flatMap (·.clearings) := by
  obtain ⟨pre, rec, post, rfl, _, hc⟩ := h
  rw [← List.singleton_append, ← List.append_assoc, List.flatMap_append]
  exact List.mem_append_left _ hc

omit [PoolScoring] [Crates] in
theorem exists_clearings_of_mem {recs : List PollRecord} {c : Clearing}
    (h : c ∈ recs.flatMap (·.clearings)) : ∃ rec ∈ recs, rec.clearings ≠ [] := by
  obtain ⟨rec, hrec, hc⟩ := List.mem_flatMap.mp h
  exact ⟨rec, hrec, List.ne_nil_of_mem hc⟩

theorem OnRoot.observe {r : Bytes32} {recs : List PollRecord} {s : PollState}
    (h : OnRoot r recs s) {i : PollInput} (hi : i.snap.lastProofBlockHash = r) :
    Observed r recs s (s.observe i).1 (s.observe i).2.1 (s.observe i).2.2.1
      (s.observe i).2.2.2 := by
  have hnone : Observed r recs s s.watch [] none .unknown :=
    { clean := h.clean
      root := fun hor => h.root (hor.resolve_right fun hne => hne rfl)
      held := by simpa using h.held
      expired := h.expired
      clearPolls := rfl
      stoppedAt := rfl
      observed := by simp
      fresh := by simp }
  unfold PollState.observe
  split_ifs with hscan
  · cases i.pool with
    | none => exact hnone
    | some pending =>
      obtain ⟨hclean, hkeep, hnew⟩ := PoolWatch.scan_holds h.clean pending i.snap
      rw [hi] at hkeep
      have hframe := PoolWatch.scan_frame s.watch pending i.snap
      rw [hi] at hframe
      -- the watch is at the root already when an earlier scan found something
      have hsame : ∀ c ∈ recs.flatMap (·.clearings), s.watch.enterRoot r = s.watch :=
        fun c hc => if_pos (h.root (exists_clearings_of_mem hc))
      have hexp : ∀ c, Expired recs c → c.key ∈ (s.watch.scan pending i.snap).1.ignored := by
        intro c hc
        rw [hframe, hsame c hc.mem]
        exact h.expired c hc
      refine ⟨hclean, fun _ => ?_, ?_, hexp, ?_, ?_, ?_, ?_⟩
      · rw [hframe]
        exact PoolWatch.enterRoot_root _ _
      · intro c hc
        obtain hold | hc := List.mem_append.mp hc
        · exact hkeep (h.root (exists_clearings_of_mem hold)) c (h.held c hold)
        · exact (hnew c hc).1
      · rw [hframe, PoolWatch.enterRoot]
        split_ifs <;> rfl
      · rw [hframe, PoolWatch.enterRoot]
        split_ifs <;> rfl
      · dsimp only
        split_ifs with hc <;> simp [hc]
      · intro c' hc' c hc heq
        have hmem : c' ∈ s.watch.clearings pending i.snap := by
          change (s.watch.scan pending i.snap).2 = some c' at hc'
          rw [PoolWatch.scan_snd] at hc'
          exact List.minOn?_mem hc'
        exact (hnew c' hmem).2 (heq ▸ hexp c hc)
  · exact hnone

structure PollOk (recs : List PollRecord) (rec : PollRecord) : Prop where
  fresh : ∀ c', rec.scanned = some c' → ∀ c, Expired recs c → c'.key ≠ c.key
  resumed : rec.resumed.isSome = true ↔ rec.awaiting = true ∧
    (rec.observed = .clear ∧ clearsSince (recs ++ [rec]) = awaitClearPolls ∨
      ∃ b, lastStop recs = some b ∧ b + awaitQblockMaxBlocks ≤ rec.block)

omit [PoolScoring] [Crates] in
theorem countClear_eq_clearsSince {recs : List PollRecord} (hlt : clearsSince recs < awaitClearPolls)
    {rec : PollRecord} (hrec : rec.stopped = false) :
    PoolWatch.countClear rec.observed (clearsSince recs) = clearsSince (recs ++ [rec]) := by
  rw [clearsSince_concat, hrec]
  unfold awaitClearPolls at hlt
  cases rec.observed with
  | clearing => rfl
  | unknown => simp [PoolWatch.countClear]
  | clear =>
    simp only [PoolWatch.countClear, satAdd]
    simp
    omega

omit [PoolScoring] [Crates] in
/-- While the count is short of its bound, only a clear poll reaches it. -/
theorem two_clears_iff {recs : List PollRecord} (hlt : clearsSince recs < awaitClearPolls)
    {rec : PollRecord} (hrec : rec.stopped = false) :
    awaitClearPolls ≤ clearsSince (recs ++ [rec]) ↔
      rec.observed = .clear ∧ clearsSince (recs ++ [rec]) = awaitClearPolls := by
  rw [clearsSince_concat, hrec]
  unfold awaitClearPolls at hlt ⊢
  cases rec.observed <;> simp
  · omega
  · omega

section
omit [PoolScoring] [Crates]
variable {r : Bytes32} {recs : List PollRecord} {s : PollState} {w : PoolWatch}
  {clearings : List Clearing} {clearing : Option Clearing} {observed : PoolObservation}

theorem Observed.root_concat (h : Observed r recs s w clearings clearing observed)
    {rec : PollRecord} (hrec : rec.clearings = clearings)
    (hex : ∃ rec' ∈ recs ++ [rec], rec'.clearings ≠ []) : w.root = some r := by
  obtain ⟨rec', hmem, hne⟩ := hex
  obtain hold | hnew := List.mem_append.mp hmem
  · exact h.root (Or.inl ⟨rec', hold, hne⟩)
  · rw [List.mem_singleton.mp hnew, hrec] at hne
    exact h.root (Or.inr hne)

theorem Observed.held_concat (h : Observed r recs s w clearings clearing observed)
    {rec : PollRecord} (hrec : rec.clearings = clearings) :
    ∀ c ∈ (recs ++ [rec]).flatMap (·.clearings), w.Held c := by
  intro c hc
  refine h.held c ?_
  rwa [List.flatMap_append, List.flatMap_singleton, hrec] at hc

theorem Observed.onRoot (h : Observed r recs s w clearings clearing observed) {rec : PollRecord}
    (hrec : rec.clearings = clearings) (hres : rec.resumed = none) {round : Option RoundState}
    {stoppedAt : Option Nat} {clearPolls : Nat}
    (hround : round = some .startMining ∨ round = some .awaitingQBlock ∧
      clearPolls = clearsSince (recs ++ [rec]) ∧ clearsSince (recs ++ [rec]) < awaitClearPolls ∧
      ∃ b, stoppedAt = some b ∧ lastStop (recs ++ [rec]) = some b) :
    OnRoot r (recs ++ [rec])
      ⟨round, some r, { w with stoppedAt := stoppedAt, clearPolls := clearPolls }⟩ where
  head := rfl
  clean := h.clean
  root := h.root_concat hrec
  held := h.held_concat hrec
  expired := by
    intro c hc
    obtain hold | ⟨hsome, _⟩ := hc.concat
    · exact h.expired c hold
    · rw [hres] at hsome
      exact nomatch hsome
  round := hround

/-- A resume moves everything the cache holds as clearing to the ignored proofs. -/
theorem Observed.onRoot_resume (h : Observed r recs s w clearings clearing observed)
    {rec : PollRecord} (hrec : rec.clearings = clearings) (clearPolls : Nat) :
    OnRoot r (recs ++ [rec]) ⟨some .startMining, some r,
      PoolWatch.expireClearing { w with clearPolls := clearPolls }⟩ where
  head := rfl
  clean := PoolWatch.Clean.expireClearing _
  root := h.root_concat hrec
  held := by
    intro c hc
    have hheld : PoolWatch.Held { w with clearPolls := clearPolls } c := h.held_concat hrec c hc
    exact Or.inl hheld.expireClearing
  expired := by
    intro c hc
    have hheld : PoolWatch.Held { w with clearPolls := clearPolls } c :=
      h.held_concat hrec c hc.mem
    exact hheld.expireClearing
  round := Or.inl rfl

end

/-- One poll on the root keeps the history in step with the watch and does what it should. -/
theorem OnRoot.poll {r : Bytes32} {recs : List PollRecord} {s : PollState} (h : OnRoot r recs s)
    {i : PollInput} (hi : i.snap.lastProofBlockHash = r) (hfresh : i.fresh.lastProofBlockHash = r) :
    OnRoot r (recs ++ [(s.poll i).2]) (s.poll i).1 ∧ PollOk recs (s.poll i).2 := by
  have hobs := h.observe hi
  unfold PollState.poll
  generalize s.observe i = seen at hobs ⊢
  obtain ⟨watch, clearings, clearing, observed⟩ := seen
  dsimp only at hobs ⊢
  rw [if_neg (by rw [h.head, hi]; exact fun hne => hne rfl)]
  obtain ⟨round, head, w0⟩ := s
  obtain rfl : head = some r := h.head
  obtain hround | ⟨hround, hcount, hlt, b, hstop, hlast⟩ := h.round
  · -- the miners work: a clearing proof stops them
    obtain rfl : round = some .startMining := hround
    rw [if_neg (by simp)]
    by_cases hwin : clearing.isSome = true
    · rw [if_pos ⟨rfl, hwin⟩]
      have hclear : observed = .clearing := hobs.observed.mpr hwin
      refine ⟨hobs.onRoot rfl rfl (Or.inr ⟨rfl, ?_, ?_, _, rfl, ?_⟩), hobs.fresh, ?_⟩
      · rw [clearsSince_concat, if_pos (Or.inl rfl)]
      · rw [clearsSince_concat, if_pos (Or.inl rfl)]
        decide
      · rw [lastStop_concat]
        rfl
      · simp
    · rw [if_neg fun hand => hwin hand.2]
      exact ⟨hobs.onRoot rfl rfl (Or.inl rfl), hobs.fresh, by simp⟩
  · -- the miners wait: the poll resumes when the watch says so
    obtain rfl : round = some .awaitingQBlock := hround
    rw [if_pos rfl]
    generalize hrec : (⟨true, clearings, clearing, observed, i.snap.blockNumber,
      (watch.resumeReason observed i.snap.blockNumber).2, false⟩ : PollRecord) = rec
    have hstopped : rec.stopped = false := by rw [← hrec]
    have hcl : rec.clearings = clearings := by rw [← hrec]
    have hpolls : PoolWatch.countClear observed watch.clearPolls = clearsSince (recs ++ [rec]) := by
      rw [hobs.clearPolls, hcount, ← countClear_eq_clearsSince hlt hstopped, ← hrec]
    have hok : PollOk recs rec := by
      refine ⟨by rw [← hrec]; exact hobs.fresh, ?_⟩
      rw [← two_clears_iff hlt hstopped, ← hpolls, hlast, ← hrec]
      refine (PoolWatch.resumeReason_isSome _ _ _).trans ?_
      rw [hobs.stoppedAt, hstop]
      refine ⟨fun hor => ⟨rfl, hor.imp_right ?_⟩, fun hand => hand.2.imp_right ?_⟩
      · intro ⟨since, hsince, hblock⟩
        refine ⟨since, hsince, ?_⟩
        unfold awaitQblockMaxBlocks at hblock ⊢
        change since + 2 ≤ i.snap.blockNumber
        omega
      · intro ⟨since, hsince, hblock⟩
        refine ⟨since, hsince, ?_⟩
        change since + awaitQblockMaxBlocks ≤ i.snap.blockNumber at hblock
        omega
    have hw : (watch.resumeReason observed i.snap.blockNumber).1 =
        { watch with clearPolls := clearsSince (recs ++ [rec]) } := by
      rw [PoolWatch.resumeReason_eq, hpolls]
    cases hreason : (watch.resumeReason observed i.snap.blockNumber).2 with
    | some reason =>
      dsimp only
      rw [hw, hfresh]
      exact ⟨hobs.onRoot_resume hcl _, hok⟩
    | none =>
      dsimp only
      have hshort : clearsSince (recs ++ [rec]) < awaitClearPolls := by
        refine lt_of_not_ge fun hge => ?_
        rw [← hpolls] at hge
        have hsome := (PoolWatch.resumeReason_isSome watch _ i.snap.blockNumber).mpr (Or.inl hge)
        rw [hreason] at hsome
        exact nomatch hsome
      have hlast' : lastStop (recs ++ [rec]) = some b := by
        rw [lastStop_concat, hstopped]
        exact hlast
      rw [hw]
      refine ⟨hobs.onRoot hcl ?_ (Or.inr ⟨rfl, rfl, hshort, b, ?_, hlast'⟩), hok⟩
      · rw [← hrec]
        exact hreason
      · exact hobs.stoppedAt.trans hstop

theorem OnRoot.records {r : Bytes32} {recs : List PollRecord} {s : PollState} (h : OnRoot r recs s)
    (inputs : List PollInput)
    (hroot : ∀ i ∈ inputs, i.snap.lastProofBlockHash = r ∧ i.fresh.lastProofBlockHash = r)
    {pre post : List PollRecord} {rec : PollRecord}
    (heq : s.records inputs = pre ++ rec :: post) : PollOk (recs ++ pre) rec := by
  induction inputs generalizing recs s pre with
  | nil => exact absurd heq.symm (by simp [PollState.records])
  | cons i inputs ih =>
    obtain ⟨hi, hfresh⟩ := hroot i List.mem_cons_self
    obtain ⟨hnext, hok⟩ := h.poll hi hfresh
    cases pre with
    | nil =>
      rw [List.append_nil, ← List.head_eq_of_cons_eq heq]
      exact hok
    | cons first pre =>
      have hfirst := List.head_eq_of_cons_eq heq
      have hrest := ih hnext (fun j hj => hroot j (List.mem_cons_of_mem _ hj))
        (List.tail_eq_of_cons_eq heq)
      rwa [hfirst, List.append_assoc, List.singleton_append] at hrest

/-! ## Every run of polls -/

theorem PollState.clean_poll {s : PollState} (h : s.watch.Clean) (i : PollInput) :
    (s.poll i).1.watch.Clean := by
  have hobs : (s.observe i).1.Clean := by
    unfold PollState.observe
    split_ifs
    · cases i.pool with
      | none => exact h
      | some pending => exact (PoolWatch.scan_holds h pending i.snap).1
    · exact h
  unfold PollState.poll
  generalize s.observe i = seen at hobs ⊢
  obtain ⟨watch, clearings, clearing, observed⟩ := seen
  dsimp only at hobs ⊢
  split_ifs
  · exact hobs
  · rw [PoolWatch.resumeReason_eq]
    dsimp only
    split
    · exact PoolWatch.Clean.expireClearing _
    · exact hobs
  · exact hobs
  · exact hobs

theorem PollState.clean_run (inputs : List PollInput) : (PollState.init.run inputs).watch.Clean := by
  induction inputs using List.reverseRecOn with
  | nil =>
    intro hash c hl
    exact nomatch hl
  | append_singleton inputs i ih =>
    rw [PollState.run, List.foldl_append]
    exact PollState.clean_poll ih i

/-- Polls on one root, from a state of the feeder in which the miners work on it. After a resume no
scan returns the signer and nonce of a proof that a scan up to the resume found clearing, and a
poll resumes exactly when it waits and is the clear poll that completes `awaitClearPolls`, or comes
`awaitQblockMaxBlocks` blocks after the stop. -/
theorem pending_proof_stops_miners_once (earlier inputs : List PollInput) (r : Bytes32)
    (hhead : (PollState.init.run earlier).currentHead = some r)
    (hround : (PollState.init.run earlier).round = some .startMining)
    (hroot : ∀ i ∈ inputs, i.snap.lastProofBlockHash = r ∧ i.fresh.lastProofBlockHash = r) :
    let recs := (PollState.init.run earlier).records inputs
    (∀ pre rec mid later post, recs = pre ++ rec :: mid ++ later :: post →
      rec.resumed.isSome = true → ∀ c ∈ (pre ++ [rec]).flatMap (·.clearings),
        ∀ c', later.scanned = some c' → (c'.account, c'.nonce) ≠ (c.account, c.nonce)) ∧
      ∀ pre rec post, recs = pre ++ rec :: post →
        (rec.resumed.isSome = true ↔ rec.awaiting = true ∧
          (rec.observed = .clear ∧ clearsSince (pre ++ [rec]) = awaitClearPolls ∨
            ∃ b, lastStop pre = some b ∧ b + awaitQblockMaxBlocks ≤ rec.block)) := by
  intro recs
  have hstart : OnRoot r [] (PollState.init.run earlier) :=
    { head := hhead
      clean := PollState.clean_run earlier
      root := by simp
      held := by simp
      expired := fun c hc => absurd hc.mem (by simp)
      round := Or.inl hround }
  constructor
  · intro pre rec mid later post heq hres c hc c' hc'
    have hok := hstart.records inputs hroot heq
    rw [List.nil_append] at hok
    exact hok.fresh c' hc' c ⟨pre, rec, mid, rfl, hres, hc⟩
  · intro pre rec post heq
    have hok := hstart.records inputs hroot heq
    rw [List.nil_append] at hok
    exact hok.resumed

end

open Sample Separation in
/-- The ring proof stops the miners and leaves the pool. After the resume it comes back under
another hash with a proof of another account, and the scan returns the latter. -/
theorem pending_proof_stops_miners_once_ring :
    let p : PendingProof := ⟨Vector.replicate 32 1, Vector.replicate 32 5, ringProof⟩
    let c : Clearing := ⟨p.account, p.proof.nonce, -4000⟩
    let other : Clearing := { c with account := Vector.replicate 32 6 }
    let pool := [{ p with extrinsicHash := Vector.replicate 32 2 },
      { p with extrinsicHash := Vector.replicate 32 3, account := other.account }]
    let poll := fun pool => (⟨ring, some pool, ring⟩ : PollInput)
    let resumed : PollRecord := ⟨true, [], none, .clear, 42, some .poolClear, false⟩
    let later : PollRecord := ⟨false, [other], some other, .clearing, 42, none, true⟩
    (PollState.init.run [poll []]).records [poll [p], poll [], poll [], poll pool] =
        [⟨false, [c], some c, .clearing, 42, none, true⟩,
          ⟨true, [], none, .clear, 42, none, false⟩, resumed, later] ∧
      (other.account, other.nonce) ≠ (c.account, c.nonce) := by
  intro p c other pool poll resumed later
  have hrecs : (PollState.init.run [poll []]).records [poll [p], poll [], poll [], poll pool] =
      [⟨false, [c], some c, .clearing, 42, none, true⟩,
        ⟨true, [], none, .clear, 42, none, false⟩, resumed, later] := by decide +kernel
  obtain ⟨hfresh, _⟩ := pending_proof_stops_miners_once [poll []]
    [poll [p], poll [], poll [], poll pool] ring.lastProofBlockHash (by decide +kernel)
    (by decide +kernel) (by decide +kernel)
  refine ⟨hrecs, ?_⟩
  exact hfresh [_, _] resumed [] later [] hrecs rfl c (List.mem_cons_self) other rfl

end QuipCoordinator
