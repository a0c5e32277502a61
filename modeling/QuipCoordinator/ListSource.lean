import QuipCoordinator.FoundationFallible
import QuipCoordinator.Producer

/-!
# The model list of a drive

A list has one model a line. A line with a nonce is drawn against the topology of
the run and the nonce is the id of its job. A line with the problem itself is named
by its number. So no job of a list is a lease, and two lines with one nonce make two
jobs with one id. The reader of the JSON of a line is a parameter.
-/

namespace QuipCoordinator

structure ListEntryJson where
  nonce : Option String
  hMilli : Option (List Int)
  jMilli : Option (List Int)
  edges : Option (List (Nat × Nat))
deriving DecidableEq

inductive ListSourceError
  | parse (line : Nat) (reason : String)
  | ambiguousEntry (line : Nat)
  | missingTopologyForNonceRef (line : Nat)
deriving DecidableEq

namespace ListSource

def isWhitespace (c : Char) : Bool :=
  let n := c.toNat
  (9 ≤ n && n ≤ 13) || (0x2000 ≤ n && n ≤ 0x200a) ||
    [0x20, 0x85, 0xa0, 0x1680, 0x2028, 0x2029, 0x202f, 0x205f, 0x3000].contains n

def trim (s : List Char) : List Char :=
  ((s.dropWhile isWhitespace).reverse.dropWhile isWhitespace).reverse

def hexDigit (c : Char) : Option Nat :=
  if '0' ≤ c ∧ c ≤ '9' then some (c.toNat - 48)
  else if 'a' ≤ c ∧ c ≤ 'f' then some (c.toNat - 87)
  else if 'A' ≤ c ∧ c ≤ 'F' then some (c.toNat - 55)
  else none

-- `u8::from_str_radix` takes a plus sign
def hexByte (a b : Char) : Option UInt8 := do
  let high ← if a = '+' then some 0 else hexDigit a
  let low ← hexDigit b
  pure (UInt8.ofNat (16 * high + low))

/-- The slices of two bytes. Where one would cut a character the source panics. -/
def hexPairs : List Char → Except String Bytes
  | [] => .ok []
  | [_] => .error "invalid digit found in string"
  | a :: b :: rest =>
    match hexByte a b with
    | none => .error "invalid digit found in string"
    | some byte => do
      let bytes ← hexPairs rest
      pure (byte :: bytes)

def hexToBytes (hex : String) : Except String Bytes :=
  let hex := trim hex.toList
  if (hex.map Char.utf8Size).sum % 2 ≠ 0 then .error "odd-length hex string" else hexPairs hex

def decodeNonceHex (hex : String) : Except String Bytes32 := do
  let bytes ← hexToBytes hex
  if h : bytes.length = 32 then pure ⟨bytes.toArray, by simpa using h⟩
  else .error s!"nonce must decode to 32 bytes, got {bytes.length}"

end ListSource

variable [Crates]
open Crates

def buildExplicitJob (entry : ListEntryJson) (generation deadlineMs : Nat) : Job :=
  let edges := entry.edges.getD []
  { jobId := s!"explicit-{generation}".toUTF8.toList
    kind := .isingSample
    generation := generation
    deadlineMs := deadlineMs
    ising := some (milliProblem (some (.edges ⟨edges.map (·.1), edges.map (·.2)⟩))
      (entry.hMilli.getD []) (entry.jMilli.getD []))
    generator := none
    provenance := some ⟨false, []⟩ }

def buildEntryJob (entry : ListEntryJson) (lineNo : Nat) (topologySnapshot : Option MiningSnapshot)
    (deadlineMs : Nat) : Except ListSourceError Job :=
  if entry.nonce.isSome = entry.hMilli.isSome then .error (.ambiguousEntry lineNo)
  else
    match entry.nonce with
    | none => .ok (buildExplicitJob entry lineNo deadlineMs)
    | some hex =>
      match topologySnapshot with
      | none => .error (.missingTopologyForNonceRef lineNo)
      | some snap => do
        let nonce ← (ListSource.decodeNonceHex hex).mapError (.parse lineNo)
        -- the text of the draw error follows
        (buildIsingJobFromNonce snap nonce lineNo deadlineMs).elim
          (.error (.parse lineNo "cannot draw model from nonce-ref: ")) .ok

namespace ListSource

def parse (readEntry : String → Except String ListEntryJson) (topologySnapshot : Option MiningSnapshot)
    (deadlineMs : Nat) : Nat → List String → Except ListSourceError (List Job)
  | _, [] => .ok []
  | lineNo, line :: lines =>
    let trimmed := trim line.toList
    if trimmed.isEmpty then parse readEntry topologySnapshot deadlineMs (lineNo + 1) lines
    else do
      let entry ← (readEntry (String.ofList trimmed)).mapError (.parse lineNo)
      let job ← buildEntryJob entry lineNo topologySnapshot deadlineMs
      let jobs ← parse readEntry topologySnapshot deadlineMs (lineNo + 1) lines
      pure (job :: jobs)

theorem buildEntryJob_shape {entry : ListEntryJson} {n d : Nat} {snap : Option MiningSnapshot}
    {job : Job} (h : buildEntryJob entry n snap d = .ok job) :
    job.isLease = false ∧ job.ising.isSome = true := by
  unfold buildEntryJob at h
  split_ifs at h
  cases hn : entry.nonce with
  | none =>
    rw [hn] at h
    cases h
    exact ⟨rfl, rfl⟩
  | some hex =>
    rw [hn] at h
    cases snap with
    | none => cases h
    | some snap =>
      obtain ⟨nonce, -, h⟩ := Except.bind_eq_ok.mp h
      cases hjob : buildIsingJobFromNonce snap nonce n d with
      | none =>
        rw [hjob] at h
        cases h
      | some job' =>
        rw [hjob] at h
        cases h
        obtain ⟨⟨hs, js⟩, -, hj⟩ := Option.bind_eq_some_iff.mp hjob
        cases hj
        exact ⟨rfl, rfl⟩

theorem parse_shape {readEntry : String → Except String ListEntryJson} {snap : Option MiningSnapshot}
    {d n : Nat} {lines : List String} {jobs : List Job}
    (h : parse readEntry snap d n lines = .ok jobs) :
    ∀ job ∈ jobs, job.isLease = false ∧ job.ising.isSome = true := by
  induction lines generalizing n jobs with
  | nil =>
    cases h
    exact fun _ hm => absurd hm List.not_mem_nil
  | cons line lines ih =>
    rw [parse] at h
    split_ifs at h
    · exact ih h
    · obtain ⟨entry, -, h⟩ := Except.bind_eq_ok.mp h
      obtain ⟨job, hjob, h⟩ := Except.bind_eq_ok.mp h
      obtain ⟨rest, hrest, h⟩ := Except.bind_eq_ok.mp h
      cases h
      intro k hk
      rcases List.mem_cons.mp hk with rfl | hk
      · exact buildEntryJob_shape hjob
      · exact ih hrest k hk

end ListSource
end QuipCoordinator
