import QuipCoordinator.FoundationText
import QuipCoordinator.NonceText

/-!
# Reading a model list

`parse` reads the lines of a text in order and stops at the first that is bad or makes
the nonce reader panic. What it should do is said by the lines alone: a line is good
when its entry is an explicit problem or a nonce of 64 digits whose model can be drawn.
It does so exactly when, among the lines up to the first bad one, no nonce cuts a
character and none with a sign can be drawn. Where it returns it is the reader of the
drive.
-/

namespace QuipCoordinator

def ListSourceError.line : ListSourceError → Nat
  | .parse line _ => line
  | .ambiguousEntry line => line
  | .missingTopologyForNonceRef line => line

namespace ListText
open NonceText

section Crates
variable [Crates]

inductive LineOutcome
  | blank
  | panics
  | bad (e : ListSourceError)
  | job (job : Job)

/-- The job of an entry. The text of the draw error follows its reason. -/
def entryOutcome (entry : ListEntryJson) (lineNo : Nat) (topologySnapshot : Option MiningSnapshot)
    (deadlineMs : Nat) : LineOutcome :=
  if entry.nonce.isSome = entry.hMilli.isSome then .bad (.ambiguousEntry lineNo)
  else
    match entry.nonce with
    | none => .job (buildExplicitJob entry lineNo deadlineMs)
    | some hex =>
      match topologySnapshot with
      | none => .bad (.missingTopologyForNonceRef lineNo)
      | some snap =>
        match decodeNonceHex hex with
        | none => .panics
        | some (.error reason) => .bad (.parse lineNo reason)
        | some (.ok nonce) =>
          match buildIsingJobFromNonce snap nonce lineNo deadlineMs with
          | none => .bad (.parse lineNo "cannot draw model from nonce-ref: ")
          | some job => .job job

section Reader
variable (readEntry : String → Except String ListEntryJson)
  (topologySnapshot : Option MiningSnapshot) (deadlineMs : Nat)

def lineOutcome (lineNo : Nat) (line : String) : LineOutcome :=
  let trimmed := ListSource.trim line.toList
  if trimmed.isEmpty then .blank
  else
    match readEntry (String.ofList trimmed) with
    | .error reason => .bad (.parse lineNo reason)
    | .ok entry => entryOutcome entry lineNo topologySnapshot deadlineMs

/-- The lines from line `lineNo` on. `none` is the panic. -/
def parseLines : Nat → List String → Option (Except ListSourceError (List Job))
  | _, [] => some (.ok [])
  | lineNo, line :: lines =>
    match lineOutcome readEntry topologySnapshot deadlineMs lineNo line with
    | .blank => parseLines (lineNo + 1) lines
    | .panics => none
    | .bad e => some (.error e)
    | .job job => (parseLines (lineNo + 1) lines).map (Except.map (job :: ·))

def parse (text : String) : Option (Except ListSourceError (List Job)) :=
  parseLines readEntry topologySnapshot deadlineMs 1 (Text.lines text)

/-! ## What the list says -/

def isBlank (line : String) : Bool := (ListSource.trim line.toList).isEmpty

/-- The line stands for the job: it holds an explicit problem, or a nonce whose model is drawn
against the topology. -/
def Stands (lineNo : Nat) (line : String) (job : Job) : Prop :=
  ∃ entry, readEntry (String.ofList (ListSource.trim line.toList)) = .ok entry ∧
    ((entry.nonce = none ∧ entry.hMilli.isSome = true ∧
        job = buildExplicitJob entry lineNo deadlineMs) ∨
      ∃ hex snap nonce, entry.nonce = some hex ∧ entry.hMilli = none ∧
        topologySnapshot = some snap ∧ IsNonce (ListSource.trim hex.toList) ∧
        Hex.decode (ListSource.trim hex.toList) = some nonce.toList ∧
        buildIsingJobFromNonce snap nonce lineNo deadlineMs = some job)

def Bad (lineNo : Nat) (line : String) : Prop :=
  isBlank line = false ∧ ∀ job, ¬Stands readEntry topologySnapshot deadlineMs lineNo line job

def JobsOf : Nat → List String → List Job → Prop
  | _, [], jobs => jobs = []
  | lineNo, line :: lines, jobs =>
    if isBlank line then JobsOf (lineNo + 1) lines jobs
    else ∃ job rest, jobs = job :: rest ∧
      Stands readEntry topologySnapshot deadlineMs lineNo line job ∧ JobsOf (lineNo + 1) lines rest

def EntryError (entry : ListEntryJson) : ListSourceError → Prop
  | .ambiguousEntry _ => entry.nonce.isSome = entry.hMilli.isSome
  | .missingTopologyForNonceRef _ =>
    entry.nonce.isSome = true ∧ entry.hMilli = none ∧ topologySnapshot = none
  | .parse _ _ =>
    entry.nonce.isSome = true ∧ entry.hMilli = none ∧ topologySnapshot.isSome = true

def ErrorOf (lineNo : Nat) (line : String) (e : ListSourceError) : Prop :=
  e.line = lineNo ∧
    ((∃ reason, readEntry (String.ofList (ListSource.trim line.toList)) = .error reason ∧
      e = .parse lineNo reason) ∨
    ∃ entry, readEntry (String.ofList (ListSource.trim line.toList)) = .ok entry ∧
      EntryError topologySnapshot entry e)

def FirstBad : Nat → List String → ListSourceError → Prop
  | _, [], _ => False
  | lineNo, line :: lines, e =>
    Bad readEntry topologySnapshot deadlineMs lineNo line ∧
        ErrorOf readEntry topologySnapshot lineNo line e ∨
      ¬Bad readEntry topologySnapshot deadlineMs lineNo line ∧ FirstBad (lineNo + 1) lines e

def LinesExact (lineNo : Nat) (lines : List String)
    (result : Option (Except ListSourceError (List Job))) : Prop :=
  (∃ jobs, result = some (.ok jobs) ∧
    JobsOf readEntry topologySnapshot deadlineMs lineNo lines jobs) ∨
  ∃ e, result = some (.error e) ∧
    FirstBad readEntry topologySnapshot deadlineMs lineNo lines e

def ParseExact (text : String) : Prop :=
  LinesExact readEntry topologySnapshot deadlineMs 1 (Text.lines text)
    (parse readEntry topologySnapshot deadlineMs text)

/-- A nonce of the line is read without cutting a character, and one that is read with a sign has
no model. -/
def LineClean (lineNo : Nat) (line : String) : Prop :=
  ∀ entry hex snap, isBlank line = false →
    readEntry (String.ofList (ListSource.trim line.toList)) = .ok entry →
    entry.nonce = some hex → entry.hMilli = none → topologySnapshot = some snap →
    let s := ListSource.trim hex.toList
    ¬(byteLength s % 2 = 0 ∧ Cuts s) ∧
      (PairsRead s → '+' ∈ s → ∀ nonce : Bytes32, Hex.decode (s.map unsign) = some nonce.toList →
        buildIsingJobFromNonce snap nonce lineNo deadlineMs = none)

def LinesClean : Nat → List String → Prop
  | _, [] => True
  | lineNo, line :: lines =>
    LineClean readEntry topologySnapshot deadlineMs lineNo line ∧
      (¬Bad readEntry topologySnapshot deadlineMs lineNo line → LinesClean (lineNo + 1) lines)

def TextClean (text : String) : Prop :=
  LinesClean readEntry topologySnapshot deadlineMs 1 (Text.lines text)

end Reader

section Line
variable {readEntry : String → Except String ListEntryJson}
  {topologySnapshot : Option MiningSnapshot} {deadlineMs lineNo : Nat} {line : String}

theorem lineOutcome_blank (h : isBlank line = true) :
    lineOutcome readEntry topologySnapshot deadlineMs lineNo line = .blank := if_pos h

theorem lineOutcome_of_entry {entry : ListEntryJson} (h : isBlank line = false)
    (hread : readEntry (String.ofList (ListSource.trim line.toList)) = .ok entry) :
    lineOutcome readEntry topologySnapshot deadlineMs lineNo line =
      entryOutcome entry lineNo topologySnapshot deadlineMs := by
  unfold isBlank at h
  simp only [lineOutcome, h, Bool.false_eq_true, if_false, hread]

theorem entryOutcome_nonce {entry : ListEntryJson} {hex : String} {snap : MiningSnapshot}
    (hnonce : entry.nonce = some hex) (hmilli : entry.hMilli = none) :
    entryOutcome entry lineNo (some snap) deadlineMs =
      match decodeNonceHex hex with
      | none => .panics
      | some (.error reason) => .bad (.parse lineNo reason)
      | some (.ok nonce) =>
        match buildIsingJobFromNonce snap nonce lineNo deadlineMs with
        | none => .bad (.parse lineNo "cannot draw model from nonce-ref: ")
        | some job => .job job := by
  simp [entryOutcome, hnonce, hmilli]

theorem lineOutcome_of_stands {job : Job} (h : isBlank line = false)
    (hstands : Stands readEntry topologySnapshot deadlineMs lineNo line job) :
    lineOutcome readEntry topologySnapshot deadlineMs lineNo line = .job job := by
  obtain ⟨entry, hread, ⟨hnonce, hmilli, rfl⟩ | ⟨hex, snap, nonce, hnonce, hmilli, rfl, hdigits,
    hvalue, hdraw⟩⟩ := hstands
  · rw [lineOutcome_of_entry h hread]
    simp [entryOutcome, hnonce, hmilli]
  · rw [lineOutcome_of_entry h hread, entryOutcome_nonce hnonce hmilli,
      decodeNonceHex_of_isNonce hdigits hvalue]
    simp only [hdraw]

theorem entryOutcome_cases (entry : ListEntryJson) :
    (∃ e, entryOutcome entry lineNo topologySnapshot deadlineMs = .bad e ∧ e.line = lineNo ∧
      EntryError topologySnapshot entry e) ∨
    (entry.nonce = none ∧ entry.hMilli.isSome = true ∧
      entryOutcome entry lineNo topologySnapshot deadlineMs =
        .job (buildExplicitJob entry lineNo deadlineMs)) ∨
    ∃ hex snap, entry.nonce = some hex ∧ entry.hMilli = none ∧ topologySnapshot = some snap ∧
      (decodeNonceHex hex = none ∧
        entryOutcome entry lineNo topologySnapshot deadlineMs = .panics ∨
      ∃ nonce job, decodeNonceHex hex = some (.ok nonce) ∧
        buildIsingJobFromNonce snap nonce lineNo deadlineMs = some job ∧
        entryOutcome entry lineNo topologySnapshot deadlineMs = .job job) := by
  cases hnonce : entry.nonce with
  | none =>
    cases hmilli : entry.hMilli with
    | none =>
      exact Or.inl ⟨.ambiguousEntry lineNo, by simp [entryOutcome, hnonce, hmilli], rfl,
        by simp [EntryError, hnonce, hmilli]⟩
    | some h => exact Or.inr (Or.inl ⟨rfl, rfl, by simp [entryOutcome, hnonce, hmilli]⟩)
  | some hex =>
    cases hmilli : entry.hMilli with
    | some h =>
      exact Or.inl ⟨.ambiguousEntry lineNo, by simp [entryOutcome, hnonce, hmilli], rfl,
        by simp [EntryError, hnonce, hmilli]⟩
    | none =>
      cases topologySnapshot with
      | none =>
        exact Or.inl ⟨.missingTopologyForNonceRef lineNo,
          by simp [entryOutcome, hnonce, hmilli], rfl, by simp [EntryError, hnonce, hmilli]⟩
      | some snap =>
        have herror : ∀ reason, EntryError (some snap) entry (.parse lineNo reason) :=
          fun _ => ⟨by rw [hnonce]; rfl, hmilli, rfl⟩
        rw [entryOutcome_nonce hnonce hmilli]
        cases hdecode : decodeNonceHex hex with
        | none => exact Or.inr (Or.inr ⟨hex, snap, rfl, rfl, rfl, Or.inl ⟨hdecode, rfl⟩⟩)
        | some r =>
          cases r with
          | error reason => exact Or.inl ⟨.parse lineNo reason, rfl, rfl, herror reason⟩
          | ok nonce =>
            cases hdraw : buildIsingJobFromNonce snap nonce lineNo deadlineMs with
            | none =>
              exact Or.inl ⟨.parse lineNo "cannot draw model from nonce-ref: ",
                by simp only [hdraw], rfl, herror _⟩
            | some job =>
              exact Or.inr (Or.inr ⟨hex, snap, rfl, rfl, rfl,
                Or.inr ⟨nonce, job, hdecode, hdraw, by simp only [hdraw]⟩⟩)

theorem entryOutcome_ne_blank (entry : ListEntryJson) :
    entryOutcome entry lineNo topologySnapshot deadlineMs ≠ .blank := by
  intro h
  rcases entryOutcome_cases entry with ⟨e, hout, -⟩ | ⟨-, -, hout⟩ |
    ⟨hex, snap, -, -, -, ⟨-, hout⟩ | ⟨nonce, job, -, -, hout⟩⟩
  all_goals
    rw [h] at hout
    cases hout

theorem lineOutcome_cases (lineNo : Nat) (line : String) :
    (isBlank line = true ∧
      lineOutcome readEntry topologySnapshot deadlineMs lineNo line = .blank) ∨
    isBlank line = false ∧
      ((∃ reason, readEntry (String.ofList (ListSource.trim line.toList)) = .error reason ∧
        lineOutcome readEntry topologySnapshot deadlineMs lineNo line =
          .bad (.parse lineNo reason)) ∨
      ∃ entry, readEntry (String.ofList (ListSource.trim line.toList)) = .ok entry ∧
        lineOutcome readEntry topologySnapshot deadlineMs lineNo line =
          entryOutcome entry lineNo topologySnapshot deadlineMs) := by
  cases hblank : isBlank line with
  | true => exact Or.inl ⟨rfl, lineOutcome_blank hblank⟩
  | false =>
    refine Or.inr ⟨rfl, ?_⟩
    cases hread : readEntry (String.ofList (ListSource.trim line.toList)) with
    | error reason =>
      unfold isBlank at hblank
      exact Or.inl ⟨reason, rfl,
        by simp only [lineOutcome, hblank, Bool.false_eq_true, if_false, hread]⟩
    | ok entry => exact Or.inr ⟨entry, rfl, lineOutcome_of_entry hblank hread⟩

theorem errorOf_of_bad {e : ListSourceError}
    (h : lineOutcome readEntry topologySnapshot deadlineMs lineNo line = .bad e) :
    ErrorOf readEntry topologySnapshot lineNo line e := by
  rcases lineOutcome_cases lineNo line with ⟨-, hout⟩ |
    ⟨-, ⟨reason, hread, hout⟩ | ⟨entry, hread, hout⟩⟩
  · rw [hout] at h
    cases h
  · rw [hout] at h
    cases h
    exact ⟨rfl, Or.inl ⟨reason, hread, rfl⟩⟩
  · rw [hout] at h
    rcases entryOutcome_cases entry with ⟨e', hout', hline, herror⟩ | ⟨-, -, hout'⟩ |
      ⟨hex, snap, -, -, -, ⟨-, hout'⟩ | ⟨nonce, job, -, -, hout'⟩⟩
    · rw [hout'] at h
      cases h
      exact ⟨hline, Or.inr ⟨entry, hread, herror⟩⟩
    · rw [hout'] at h
      cases h
    · rw [hout'] at h
      cases h
    · rw [hout'] at h
      cases h

theorem isBlank_of_outcome
    (h : lineOutcome readEntry topologySnapshot deadlineMs lineNo line = .blank) :
    isBlank line = true := by
  rcases lineOutcome_cases lineNo line with ⟨hblank, -⟩ | ⟨-, ⟨reason, -, hout⟩ | ⟨entry, -, hout⟩⟩
  · exact hblank
  · rw [h] at hout
    cases hout
  · rw [h] at hout
    exact absurd hout.symm (entryOutcome_ne_blank entry)

theorem outcome_of_clean (hclean : LineClean readEntry topologySnapshot deadlineMs lineNo line) :
    lineOutcome readEntry topologySnapshot deadlineMs lineNo line ≠ .panics ∧
      ∀ job, lineOutcome readEntry topologySnapshot deadlineMs lineNo line = .job job →
        Stands readEntry topologySnapshot deadlineMs lineNo line job := by
  rcases lineOutcome_cases lineNo line with ⟨-, hout⟩ |
    ⟨hblank, ⟨reason, -, hout⟩ | ⟨entry, hread, hout⟩⟩
  · rw [hout]
    simp
  · rw [hout]
    simp
  · rw [hout]
    rcases entryOutcome_cases entry with ⟨e, hout', -⟩ | ⟨hnonce, hmilli, hout'⟩ |
      ⟨hex, snap, hnonce, hmilli, hsnap, ⟨hdecode, -⟩ | ⟨nonce, job, hdecode, hdraw, hout'⟩⟩
    · rw [hout']
      simp
    · rw [hout']
      refine ⟨nofun, fun job heq => ?_⟩
      cases heq
      exact ⟨entry, hread, Or.inl ⟨hnonce, hmilli, rfl⟩⟩
    · exact absurd (decodeNonceHex_eq_none.mp hdecode)
        (hclean entry hex snap hblank hread hnonce hmilli hsnap).1
    · rw [hout']
      refine ⟨nofun, fun job' heq => ?_⟩
      cases heq
      -- with a sign the model could not have been drawn
      have hplus : '+' ∉ ListSource.trim hex.toList := by
        intro hplus
        obtain ⟨hpairs, hvalue⟩ := decodeNonceHex_eq_ok.mp hdecode
        have hnone := (hclean entry hex snap hblank hread hnonce hmilli hsnap).2 hpairs hplus
          nonce hvalue
        rw [hdraw] at hnone
        cases hnone
      obtain ⟨hdigits, hvalue⟩ := isNonce_of_decodeNonceHex hdecode hplus
      exact ⟨entry, hread, Or.inr ⟨hex, snap, nonce, hnonce, hmilli, hsnap, hdigits, hvalue, hdraw⟩⟩

/-- A line that is not clean panics, or its sign is read and its job is none of the list's. -/
theorem lineClean_iff : LineClean readEntry topologySnapshot deadlineMs lineNo line ↔
    lineOutcome readEntry topologySnapshot deadlineMs lineNo line ≠ .panics ∧
      ∀ job, lineOutcome readEntry topologySnapshot deadlineMs lineNo line = .job job →
        Stands readEntry topologySnapshot deadlineMs lineNo line job := by
  refine ⟨outcome_of_clean, ?_⟩
  rintro ⟨hpanics, hjob⟩ entry hex snap hblank hread hnonce hmilli rfl
  have houtcome : lineOutcome readEntry (some snap) deadlineMs lineNo line =
      entryOutcome entry lineNo (some snap) deadlineMs := lineOutcome_of_entry hblank hread
  rw [entryOutcome_nonce hnonce hmilli] at houtcome
  refine ⟨?_, ?_⟩
  · intro hcut
    rw [decodeNonceHex_eq_none.mpr hcut] at houtcome
    exact hpanics houtcome
  · intro hpairs hplus nonce hvalue
    rw [decodeNonceHex_eq_ok.mpr ⟨hpairs, hvalue⟩] at houtcome
    by_contra hdraw
    obtain ⟨job, hdraw⟩ := Option.ne_none_iff_exists'.mp hdraw
    simp only [hdraw] at houtcome
    obtain ⟨entry', hread', hcases⟩ := hjob job houtcome
    rw [hread, Except.ok.injEq] at hread'
    subst hread'
    rcases hcases with ⟨hnone, -, -⟩ | ⟨hex', snap', nonce', hnonce', -, -, hdigits, -, -⟩
    · rw [hnonce] at hnone
      cases hnone
    · rw [hnonce, Option.some.injEq] at hnonce'
      subst hnonce'
      exact plus_notMem_of_isNonce hdigits hplus

theorem lineClean_of_stands {job : Job} (hblank : isBlank line = false)
    (hstands : Stands readEntry topologySnapshot deadlineMs lineNo line job) :
    LineClean readEntry topologySnapshot deadlineMs lineNo line := by
  rw [lineClean_iff, lineOutcome_of_stands hblank hstands]
  refine ⟨nofun, fun job' heq => ?_⟩
  cases heq
  exact hstands

theorem lineClean_of_blank (hblank : isBlank line = true) :
    LineClean readEntry topologySnapshot deadlineMs lineNo line := by
  rw [lineClean_iff, lineOutcome_blank hblank]
  simp

theorem not_bad_of_blank (hblank : isBlank line = true) :
    ¬Bad readEntry topologySnapshot deadlineMs lineNo line := by
  rintro ⟨hne, -⟩
  rw [hblank] at hne
  cases hne

theorem exists_stands_of_not_bad (hblank : isBlank line = false)
    (hbad : ¬Bad readEntry topologySnapshot deadlineMs lineNo line) :
    ∃ job, Stands readEntry topologySnapshot deadlineMs lineNo line job := by
  by_contra hnone
  exact hbad ⟨hblank, not_exists.mp hnone⟩

end Line

section Run
variable {readEntry : String → Except String ListEntryJson}
  {topologySnapshot : Option MiningSnapshot} {deadlineMs lineNo : Nat} {line : String}
  {lines : List String}

theorem le_line_of_error {e : ListSourceError}
    (h : parseLines readEntry topologySnapshot deadlineMs lineNo lines = some (.error e)) :
    lineNo ≤ e.line := by
  induction lines generalizing lineNo with
  | nil => cases h
  | cons line lines ih =>
    rw [parseLines] at h
    cases hout : lineOutcome readEntry topologySnapshot deadlineMs lineNo line with
    | blank =>
      rw [hout] at h
      have := ih h
      omega
    | panics =>
      rw [hout] at h
      cases h
    | bad e' =>
      rw [hout] at h
      cases h
      exact (errorOf_of_bad hout).1.ge
    | job job =>
      rw [hout] at h
      obtain ⟨r, hr, hmap⟩ := Option.map_eq_some_iff.mp h
      cases r with
      | ok jobs => cases hmap
      | error e' =>
        cases hmap
        have := ih hr
        omega

theorem linesExact_of_blank {result : Option (Except ListSourceError (List Job))}
    (hblank : isBlank line = true) :
    LinesExact readEntry topologySnapshot deadlineMs lineNo (line :: lines) result ↔
      LinesExact readEntry topologySnapshot deadlineMs (lineNo + 1) lines result := by
  have hbad : ¬Bad readEntry topologySnapshot deadlineMs lineNo line := not_bad_of_blank hblank
  simp only [LinesExact, JobsOf, FirstBad, hblank, if_true, hbad, false_and, not_false_eq_true,
    true_and, false_or]

theorem linesExact_of_bad {result : Option (Except ListSourceError (List Job))}
    (hbad : Bad readEntry topologySnapshot deadlineMs lineNo line) :
    LinesExact readEntry topologySnapshot deadlineMs lineNo (line :: lines) result ↔
      ∃ e, result = some (.error e) ∧ ErrorOf readEntry topologySnapshot lineNo line e := by
  simp only [LinesExact, JobsOf, FirstBad, hbad.1, Bool.false_eq_true, if_false, hbad, true_and,
    not_true_eq_false, false_and, or_false]
  constructor
  · rintro (⟨jobs, -, job, rest, -, hstands, -⟩ | h)
    · exact absurd hstands (hbad.2 job)
    · exact h
  · exact Or.inr

theorem linesExact_of_stands {result : Option (Except ListSourceError (List Job))} {job : Job}
    (hblank : isBlank line = false)
    (hstands : Stands readEntry topologySnapshot deadlineMs lineNo line job) :
    LinesExact readEntry topologySnapshot deadlineMs lineNo (line :: lines)
        (result.map (Except.map (job :: ·))) ↔
      LinesExact readEntry topologySnapshot deadlineMs (lineNo + 1) lines result := by
  have hbad : ¬Bad readEntry topologySnapshot deadlineMs lineNo line :=
    fun hbad => hbad.2 job hstands
  have hunique : ∀ job', Stands readEntry topologySnapshot deadlineMs lineNo line job' →
      job' = job := by
    intro job' hstands'
    have heq := lineOutcome_of_stands hblank hstands'
    rw [lineOutcome_of_stands hblank hstands] at heq
    exact (LineOutcome.job.inj heq).symm
  simp only [LinesExact, JobsOf, FirstBad, hblank, Bool.false_eq_true, if_false, hbad,
    false_and, not_false_eq_true, true_and, false_or]
  constructor
  · rintro (⟨jobs, hmap, job', rest, rfl, hstands', hrest⟩ | ⟨e, hmap, hfirst⟩)
    · obtain ⟨r, hr, hcons⟩ := Option.map_eq_some_iff.mp hmap
      cases r with
      | error e => cases hcons
      | ok tail =>
        cases hcons
        exact Or.inl ⟨rest, hr, hrest⟩
    · obtain ⟨r, hr, herror⟩ := Option.map_eq_some_iff.mp hmap
      cases r with
      | ok tail => cases herror
      | error e' =>
        cases herror
        exact Or.inr ⟨e, hr, hfirst⟩
  · rintro (⟨jobs, rfl, hjobs⟩ | ⟨e, rfl, hfirst⟩)
    · exact Or.inl ⟨job :: jobs, rfl, job, jobs, rfl, hstands, hjobs⟩
    · exact Or.inr ⟨e, rfl, hfirst⟩

theorem stops_at_bad_iff (hbad : Bad readEntry topologySnapshot deadlineMs lineNo line) :
    (∃ e, parseLines readEntry topologySnapshot deadlineMs lineNo (line :: lines) =
      some (.error e) ∧ ErrorOf readEntry topologySnapshot lineNo line e) ↔
      LineClean readEntry topologySnapshot deadlineMs lineNo line := by
  rw [lineClean_iff, parseLines]
  cases hout : lineOutcome readEntry topologySnapshot deadlineMs lineNo line with
  | blank => exact absurd hbad (not_bad_of_blank (isBlank_of_outcome hout))
  | panics => exact iff_of_false nofun fun h => h.1 rfl
  | bad e => exact iff_of_true ⟨e, rfl, errorOf_of_bad hout⟩ (by simp)
  | job job =>
    refine iff_of_false ?_ fun h => hbad.2 job (h.2 job rfl)
    rintro ⟨e, hmap, hline, -⟩
    obtain ⟨r, hr, herror⟩ := Option.map_eq_some_iff.mp hmap
    cases r with
    | ok tail => cases herror
    | error e' =>
      cases herror
      have := le_line_of_error hr
      omega

/-- The reader is exact on clean lines and on no others. -/
theorem linesExact_parseLines_iff (lineNo : Nat) (lines : List String) :
    LinesExact readEntry topologySnapshot deadlineMs lineNo lines
        (parseLines readEntry topologySnapshot deadlineMs lineNo lines) ↔
      LinesClean readEntry topologySnapshot deadlineMs lineNo lines := by
  induction lines generalizing lineNo with
  | nil => exact iff_of_true (Or.inl ⟨[], rfl, rfl⟩) trivial
  | cons line lines ih =>
    rw [LinesClean]
    cases hblank : isBlank line with
    | true =>
      rw [linesExact_of_blank hblank, parseLines, lineOutcome_blank hblank, ih]
      exact ⟨fun h => ⟨lineClean_of_blank hblank, fun _ => h⟩,
        fun h => h.2 (not_bad_of_blank hblank)⟩
    | false =>
      by_cases hbad : Bad readEntry topologySnapshot deadlineMs lineNo line
      · rw [linesExact_of_bad hbad, stops_at_bad_iff hbad]
        exact ⟨fun h => ⟨h, fun hne => absurd hbad hne⟩, And.left⟩
      · obtain ⟨job, hstands⟩ := exists_stands_of_not_bad hblank hbad
        rw [parseLines, lineOutcome_of_stands hblank hstands, linesExact_of_stands hblank hstands,
          ih]
        exact ⟨fun h => ⟨lineClean_of_stands hblank hstands, fun _ => h⟩, fun h => h.2 hbad⟩

/-- The drive builds what the entry comes to. -/
def Built (r : Except ListSourceError Job) : LineOutcome → Prop
  | .bad e => r = .error e
  | .job job => r = .ok job
  | _ => True

theorem built_entryOutcome (entry : ListEntryJson) :
    Built (buildEntryJob entry lineNo topologySnapshot deadlineMs)
      (entryOutcome entry lineNo topologySnapshot deadlineMs) := by
  unfold entryOutcome buildEntryJob
  split_ifs
  · rfl
  · cases entry.nonce with
    | none => rfl
    | some hex =>
      cases topologySnapshot with
      | none => rfl
      | some snap =>
        simp only
        cases hdecode : decodeNonceHex hex with
        | none => trivial
        | some r =>
          rw [decodeNonceHex_eq_some hdecode]
          cases r with
          | error reason => rfl
          | ok nonce =>
            simp only [Except.mapError, bind, Except.bind]
            cases buildIsingJobFromNonce snap nonce lineNo deadlineMs with
            | none => rfl
            | some job => rfl

theorem parse_of_blank (hblank : isBlank line = true) :
    ListSource.parse readEntry topologySnapshot deadlineMs lineNo (line :: lines) =
      ListSource.parse readEntry topologySnapshot deadlineMs (lineNo + 1) lines := by
  unfold isBlank at hblank
  rw [ListSource.parse]
  simp only [hblank, if_true]

theorem parse_of_unread {reason : String} (hblank : isBlank line = false)
    (hread : readEntry (String.ofList (ListSource.trim line.toList)) = .error reason) :
    ListSource.parse readEntry topologySnapshot deadlineMs lineNo (line :: lines) =
      .error (.parse lineNo reason) := by
  unfold isBlank at hblank
  rw [ListSource.parse, hread]
  simp only [hblank, Bool.false_eq_true, if_false]
  rfl

theorem parse_of_entry {entry : ListEntryJson} (hblank : isBlank line = false)
    (hread : readEntry (String.ofList (ListSource.trim line.toList)) = .ok entry) :
    ListSource.parse readEntry topologySnapshot deadlineMs lineNo (line :: lines) =
      (buildEntryJob entry lineNo topologySnapshot deadlineMs).bind fun job =>
        (ListSource.parse readEntry topologySnapshot deadlineMs (lineNo + 1) lines).bind
          fun jobs => .ok (job :: jobs) := by
  unfold isBlank at hblank
  rw [ListSource.parse, hread]
  simp only [hblank, Bool.false_eq_true, if_false]
  rfl

/-- Where it does not panic it is the reader of the drive. -/
theorem parse_of_parseLines {r : Except ListSourceError (List Job)}
    (h : parseLines readEntry topologySnapshot deadlineMs lineNo lines = some r) :
    ListSource.parse readEntry topologySnapshot deadlineMs lineNo lines = r := by
  induction lines generalizing lineNo r with
  | nil =>
    cases h
    rfl
  | cons line lines ih =>
    rw [parseLines] at h
    rcases lineOutcome_cases lineNo line with ⟨hblank, hout⟩ |
      ⟨hblank, ⟨reason, hread, hout⟩ | ⟨entry, hread, hout⟩⟩
    · rw [hout] at h
      rw [parse_of_blank hblank]
      exact ih h
    · rw [hout] at h
      cases h
      exact parse_of_unread hblank hread
    · rw [hout] at h
      rw [parse_of_entry hblank hread]
      have hbuilt : Built (buildEntryJob entry lineNo topologySnapshot deadlineMs)
        (entryOutcome entry lineNo topologySnapshot deadlineMs) := built_entryOutcome entry
      cases hentry : entryOutcome entry lineNo topologySnapshot deadlineMs with
      | blank => exact absurd hentry (entryOutcome_ne_blank entry)
      | panics =>
        rw [hentry] at h
        cases h
      | bad e =>
        rw [hentry] at h hbuilt
        cases h
        have herror : buildEntryJob entry lineNo topologySnapshot deadlineMs = .error e := hbuilt
        rw [herror]
        rfl
      | job job =>
        rw [hentry] at h hbuilt
        have hok : buildEntryJob entry lineNo topologySnapshot deadlineMs = .ok job := hbuilt
        obtain ⟨tail, htail, hmap⟩ := Option.map_eq_some_iff.mp h
        rw [hok, ih htail, ← hmap]
        cases tail <;> rfl

end Run

namespace SampleList
omit [Crates]

def topology : MiningSnapshot where
  lastProofBlockHash := Vector.replicate 32 0
  topologyHash := List.replicate 32 0
  nodes := [0, 1]
  edges := [(0, 1)]
  allowedHMilli := [0]
  allowedJMilli := [1000]
  allowedSpinMilli := [-1000, 1000]
  minSolutions := 1
  maxEnergyMilli := 0
  minDiversityMilli := 0
  blockNumber := 1
  specVersion := 1

def cutNonce : String := String.ofList ['a', 'é', 'a']

def cutLine : List Char := "\x7b\"nonce\":\"aéa\"\x7d".toList

def readCut (text : String) : Except String ListEntryJson :=
  if text = String.ofList cutLine then .ok ⟨some cutNonce, none, none, none⟩
  else .error "expected value at line 1 column 1"

def signedNonce : String := String.ofList (List.replicate 32 ['+', 'f']).flatten

end SampleList

/-- A nonce is read as its 64 digits, and a list line by line, exactly where nonces are clean.
Where the reader of a list returns, a drive reads the same. -/
theorem list_parse_exact_iff (readEntry : String → Except String ListEntryJson)
    (topologySnapshot : Option MiningSnapshot) (deadlineMs : Nat) (text hex : String) :
    (NonceExact hex ↔ NonceClean hex) ∧
      (ParseExact readEntry topologySnapshot deadlineMs text ↔
        TextClean readEntry topologySnapshot deadlineMs text) ∧
      ∀ r, parse readEntry topologySnapshot deadlineMs text = some r →
        ListSource.parse readEntry topologySnapshot deadlineMs 1 (Text.lines text) = r :=
  ⟨nonceExact_iff hex, linesExact_parseLines_iff 1 (Text.lines text),
    fun _ h => parse_of_parseLines h⟩

end Crates

open Sample SampleList in
/-- A nonce with a character of two bytes between two letters stops the reader, and signs are
taken for digits. -/
theorem list_parse_inexact :
    parse readCut (some topology) 0 (String.ofList cutLine) = none ∧
      ¬ParseExact readCut (some topology) 0 (String.ofList cutLine) ∧ ¬NonceExact signedNonce := by
  have hread : readCut (String.ofList cutLine) = .ok ⟨some cutNonce, none, none, none⟩ :=
    if_pos rfl
  have htrim : ListSource.trim (String.ofList cutLine).toList = cutLine := by decide +kernel
  have hcut : decodeNonceHex cutNonce = none :=
    decodeNonceHex_eq_none.mpr ⟨by decide, [], ['a', 'é', 'a'], rfl, trivial, by decide⟩
  have hlines : Text.lines (String.ofList cutLine) = [String.ofList cutLine] :=
    Text.lines_singleton (by decide +kernel) (by decide +kernel)
  have hline : lineOutcome readCut (some topology) 0 1 (String.ofList cutLine) = .panics := by
    rw [lineOutcome_of_entry (by decide +kernel) (by rw [htrim]; exact hread),
      entryOutcome_nonce rfl rfl, hcut]
  have hpanic : parse readCut (some topology) 0 (String.ofList cutLine) = none := by
    rw [parse, hlines, parseLines, hline]
  refine ⟨hpanic, ?_, ?_⟩
  · unfold ParseExact
    rw [hpanic]
    rintro (⟨jobs, h, -⟩ | ⟨e, h, -⟩)
    · cases h
    · cases h
  · rw [nonceExact_iff]
    rintro ⟨-, hsign⟩
    have htrimSigned : ListSource.trim signedNonce.toList =
        (List.replicate 32 ['+', 'f']).flatten := by decide +kernel
    rw [htrimSigned] at hsign
    exact hsign (by decide +kernel)

end ListText
end QuipCoordinator
