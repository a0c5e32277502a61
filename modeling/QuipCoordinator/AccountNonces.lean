import QuipCoordinator.FoundationMachine
import QuipCoordinator.ProofEncoding

/-!
# Account nonces

Every session and the feeder sign for one account with `submit_signed_call`. It
asks the node for the next index, reads the runtime versions, signs with that
index and hands the extrinsic to the node, and no lock covers these steps. The
node answers with the number of extrinsics of the account that it has accepted.
A caller has one call at a time and any number of callers run at once. `signed`
and `accepted` are the extrinsics that were signed and that the node took.
-/

namespace QuipCoordinator

inductive Caller
  | session (tx : SessionId)
  | feeder
deriving DecidableEq

structure RuntimeTxContext where
  genesisHash : Bytes32
  specVersion : Nat
  transactionVersion : Nat
deriving DecidableEq

structure SignedExtensionContext where
  accountNonce : Nat
  genesisHash : Bytes32
  specVersion : Nat
  transactionVersion : Nat
  tip : Nat
deriving DecidableEq

structure SignedExtrinsic where
  call : Bytes
  ctx : SignedExtensionContext
deriving DecidableEq

/-- Where a call is: it has its index, its extrinsic is on the way, or the node took it. -/
inductive CallPhase
  | indexed (call : Bytes) (accountNonce : Nat)
  | sent (ext : SignedExtrinsic)
  | watching (ext : SignedExtrinsic)
deriving DecidableEq

structure Signer where
  calls : Table Caller CallPhase
  signed : List SignedExtrinsic
  accepted : List SignedExtrinsic
deriving DecidableEq

/-- `fail` is an error of the runtime read. `refuse` is a submit that the node rejects or never
gets, and `finish` the end of the status stream, whatever it said. -/
inductive SignerEvent
  | read (caller : Caller) (call : Bytes)
  | fail (caller : Caller)
  | sign (caller : Caller) (runtime : RuntimeTxContext)
  | accept (caller : Caller)
  | refuse (caller : Caller)
  | finish (caller : Caller)
deriving DecidableEq

/-- The answer of `system_accountNextIndex` as a nonce, none for one that is not a `u64`. -/
def accountNonce : Option Nat → Except ChainError Nat
  | none => .error (.decode "system_accountNextIndex not a u64")
  | some value =>
    if value < 2 ^ 32 then .ok value else .error (.decode "account nonce exceeds u32")

def signedExtensionContext (accountNonce : Nat) (runtime : RuntimeTxContext) :
    SignedExtensionContext where
  accountNonce := accountNonce
  genesisHash := runtime.genesisHash
  specVersion := runtime.specVersion
  transactionVersion := runtime.transactionVersion
  tip := 0

namespace CallPhase

def isIndexed : CallPhase → Bool
  | .indexed _ _ => true
  | _ => false

def isSent : CallPhase → Bool
  | .sent _ => true
  | _ => false

def isWatching : CallPhase → Bool
  | .watching _ => true
  | _ => false

end CallPhase

namespace Signer

def init : Signer := ⟨∅, [], []⟩

/-- `base` are the extrinsics of the account from before the coordinator ran. -/
def nextIndex (base : Nat) (s : Signer) : Option Nat :=
  let index := base + s.accepted.length
  if index < 2 ^ 64 then some index else none

def next (base : Nat) (s : Signer) : SignerEvent → Signer
  | .read caller call =>
    match accountNonce (s.nextIndex base) with
    | .ok n => { s with calls := s.calls.insert caller (.indexed call n) }
    | .error _ => s
  | .sign caller runtime =>
    match s.calls.lookup caller with
    | some (.indexed call n) =>
      let ext := ⟨call, signedExtensionContext n runtime⟩
      { s with calls := s.calls.insert caller (.sent ext), signed := s.signed ++ [ext] }
    | _ => s
  | .accept caller =>
    match s.calls.lookup caller with
    | some (.sent ext) =>
      { s with calls := s.calls.insert caller (.watching ext), accepted := s.accepted ++ [ext] }
    | _ => s
  | .fail caller | .refuse caller | .finish caller => { s with calls := s.calls.erase caller }

def Guard (s : Signer) : SignerEvent → Prop
  | .read caller _ => caller ∉ s.calls
  | .fail caller | .sign caller _ => (s.calls.lookup caller).any (·.isIndexed) = true
  | .accept caller | .refuse caller => (s.calls.lookup caller).any (·.isSent) = true
  | .finish caller => (s.calls.lookup caller).any (·.isWatching) = true

instance (s : Signer) : (e : SignerEvent) → Decidable (s.Guard e)
  | .read _ _ => inferInstanceAs (Decidable (¬ _))
  | .fail _ | .sign _ _ | .accept _ | .refuse _ | .finish _ =>
    inferInstanceAs (Decidable (Option.any _ _ = true))

def nonces (s : Signer) : List Nat := s.signed.map (·.ctx.accountNonce)

/-- Every extrinsic signed so far was accepted, and no other call has an index that it has not
signed with. -/
def Settled (s : Signer) : Prop :=
  s.accepted.length = s.signed.length ∧
    ∀ caller ∈ s.calls.keys, (s.calls.lookup caller).any (·.isIndexed) = false

instance (s : Signer) : Decidable s.Settled := inferInstanceAs (Decidable (_ ∧ _))

/-- A call asks for its index in a settled state. -/
def ReadsSettled (s : Signer) : SignerEvent → Prop
  | .read _ _ => s.Settled
  | _ => True

instance (s : Signer) : (e : SignerEvent) → Decidable (s.ReadsSettled e)
  | .read _ _ => inferInstanceAs (Decidable s.Settled)
  | .fail _ | .sign _ _ | .accept _ | .refuse _ | .finish _ => .isTrue trivial

end Signer

def signerMachine (base : Nat) : Machine Signer SignerEvent where
  init := .init
  allowed s e := s.Guard e
  next s e := s.next base e

instance (base : Nat) (s : Signer) (e : SignerEvent) :
    Decidable ((signerMachine base).allowed s e) :=
  inferInstanceAs (Decidable (s.Guard e))

/-- No call is between its index and the answer of the node, but possibly one of `caller`. -/
def OnlyBy (caller : Option Caller) (calls : Table Caller CallPhase) : Prop :=
  ∀ c p, some c ≠ caller → calls.lookup c = some p → p.isWatching = true

namespace OnlyBy
variable {caller : Caller} {calls : Table Caller CallPhase} {p : CallPhase}

theorem of_none (h : OnlyBy none calls) (caller : Option Caller) : OnlyBy caller calls :=
  fun c q _ hl => h c q (by simp) hl

theorem insert (h : OnlyBy (some caller) calls) (p : CallPhase) :
    OnlyBy (some caller) (calls.insert caller p) := by
  intro c q hne hl
  rw [Finmap.lookup_insert_of_ne _ fun heq => hne (congrArg some heq)] at hl
  exact h c q hne hl

theorem insert_watching (h : OnlyBy (some caller) calls) (hp : p.isWatching = true) :
    OnlyBy none (calls.insert caller p) := by
  intro c q _ hl
  rw [Finmap.lookup_insert_eq] at hl
  split_ifs at hl with heq
  · rw [← Option.some.inj hl]
    exact hp
  · exact h c q (fun hc => heq (Option.some.inj hc)) hl

theorem erase_self (h : OnlyBy (some caller) calls) : OnlyBy none (calls.erase caller) := by
  intro c q _ hl
  rw [Finmap.lookup_erase_eq] at hl
  split_ifs at hl with heq
  exact h c q (fun hc => heq (Option.some.inj hc)) hl

theorem erase {holder : Option Caller} (h : OnlyBy holder calls) (c : Caller) :
    OnlyBy holder (calls.erase c) := by
  intro c' q hne hl
  rw [Finmap.lookup_erase_eq] at hl
  split_ifs at hl
  exact h c' q hne hl

theorem eq_of_open {holder : Option Caller} (h : OnlyBy holder calls)
    (hl : calls.lookup caller = some p) (hp : p.isWatching = false) : holder = some caller := by
  by_contra hne
  exact absurd (hp.symm.trans (h caller p (fun heq => hne heq.symm) hl)) Bool.noConfusion

end OnlyBy

namespace Signer

theorem nonce_of_read {base : Nat} {s : Signer} {n : Nat}
    (h : accountNonce (s.nextIndex base) = .ok n) : n = base + s.accepted.length ∧ n < 2 ^ 32 := by
  unfold nextIndex at h
  dsimp only at h
  split_ifs at h
  · unfold accountNonce at h
    dsimp only at h
    split_ifs at h with hlt
    cases h
    exact ⟨rfl, hlt⟩
  · exact nomatch h

theorem read_of_lt {base : Nat} {s : Signer} (h : base + s.accepted.length < 2 ^ 32) :
    accountNonce (s.nextIndex base) = .ok (base + s.accepted.length) := by
  have h64 : base + s.accepted.length < 2 ^ 64 := by omega
  rw [nextIndex, if_pos h64, accountNonce, if_pos h]

/-- Whose turn it is. At most one call is between its index and the answer of the node, and after
a refusal there is none any more. -/
inductive Turn (base : Nat) (s : Signer) : Prop
  | quiet : s.accepted.length = s.signed.length → OnlyBy none s.calls → Turn base s
  | indexed (caller : Caller) (call : Bytes) : s.accepted.length = s.signed.length →
    s.calls.lookup caller = some (.indexed call (base + s.signed.length)) →
    base + s.signed.length < 2 ^ 32 → OnlyBy (some caller) s.calls → Turn base s
  | sent (caller : Caller) (ext : SignedExtrinsic) : s.accepted.length + 1 = s.signed.length →
    s.calls.lookup caller = some (.sent ext) → OnlyBy (some caller) s.calls → Turn base s
  | refused : s.accepted.length + 1 = s.signed.length → OnlyBy none s.calls → Turn base s

theorem Turn.of_indexed {base : Nat} {s : Signer} (h : s.Turn base) {caller : Caller}
    {call : Bytes} {n : Nat} (hl : s.calls.lookup caller = some (.indexed call n)) :
    n = base + s.signed.length ∧ n < 2 ^ 32 ∧ s.accepted.length = s.signed.length ∧
      OnlyBy (some caller) s.calls := by
  cases h with
  | quiet _ ho => exact nomatch ho.eq_of_open hl rfl
  | refused _ ho => exact nomatch ho.eq_of_open hl rfl
  | indexed holder call' hlen hl' hlt ho =>
    cases ho.eq_of_open hl rfl
    cases hl'.symm.trans hl
    exact ⟨rfl, hlt, hlen, ho⟩
  | sent holder ext hlen hl' ho =>
    cases ho.eq_of_open hl rfl
    exact nomatch hl'.symm.trans hl

theorem Turn.of_sent {base : Nat} {s : Signer} (h : s.Turn base) {caller : Caller}
    {ext : SignedExtrinsic} (hl : s.calls.lookup caller = some (.sent ext)) :
    s.accepted.length + 1 = s.signed.length ∧ OnlyBy (some caller) s.calls := by
  cases h with
  | quiet _ ho => exact nomatch ho.eq_of_open hl rfl
  | refused _ ho => exact nomatch ho.eq_of_open hl rfl
  | indexed holder call' hlen hl' hlt ho =>
    cases ho.eq_of_open hl rfl
    exact nomatch hl'.symm.trans hl
  | sent holder ext' hlen hl' ho =>
    cases ho.eq_of_open hl rfl
    exact ⟨hlen, ho⟩

theorem Turn.of_settled {base : Nat} {s : Signer} (h : s.Turn base) (hs : s.Settled) :
    OnlyBy none s.calls := by
  cases h with
  | quiet _ ho => exact ho
  | indexed caller call _ hl _ _ =>
    have hnone := hs.2 caller (Finmap.mem_keys.mpr (Finmap.mem_of_lookup_eq_some hl))
    rw [hl] at hnone
    exact absurd hnone Bool.noConfusion
  | sent caller ext hlen _ _ =>
    have heq := hs.1
    omega
  | refused hlen _ =>
    have heq := hs.1
    omega

theorem Turn.finish {base : Nat} {s : Signer} (h : s.Turn base) {caller : Caller}
    {ext : SignedExtrinsic} (hl : s.calls.lookup caller = some (.watching ext)) :
    Turn base { s with calls := s.calls.erase caller } := by
  have hother : ∀ holder p, s.calls.lookup holder = some p → p.isWatching = false →
      (s.calls.erase caller).lookup holder = some p := by
    intro holder p hp hw
    have hne : holder ≠ caller := by
      intro heq
      rw [heq, hl] at hp
      rw [← Option.some.inj hp] at hw
      exact absurd hw Bool.noConfusion
    rw [Finmap.lookup_erase_ne hne]
    exact hp
  cases h with
  | quiet hlen ho => exact .quiet hlen (ho.erase caller)
  | indexed holder call hlen hl' hlt ho =>
    exact .indexed holder call hlen (hother _ _ hl' rfl) hlt (ho.erase caller)
  | sent holder ext' hlen hl' ho =>
    exact .sent holder ext' hlen (hother _ _ hl' rfl) (ho.erase caller)
  | refused hlen ho => exact .refused hlen (ho.erase caller)

/-- The nonces that were signed are consecutive from `base` on. -/
structure Inv (base : Nat) (s : Signer) : Prop where
  turn : s.Turn base
  nonces : s.nonces = List.range' base s.signed.length
  bound : ∀ n ∈ s.nonces, n < 2 ^ 32

theorem inv_init (base : Nat) : Inv base .init where
  turn := .quiet rfl fun _ _ _ h => nomatch h
  nonces := rfl
  bound := fun _ h => absurd h List.not_mem_nil

theorem exists_phase {s : Signer} {caller : Caller} {p : CallPhase → Bool}
    (h : (s.calls.lookup caller).any p = true) :
    ∃ phase, s.calls.lookup caller = some phase ∧ p phase = true :=
  (Option.any_eq_true _ _).mp h

theorem next_sign {base : Nat} {s : Signer} {caller : Caller} {call : Bytes} {n : Nat}
    (hl : s.calls.lookup caller = some (.indexed call n)) (runtime : RuntimeTxContext) :
    s.next base (.sign caller runtime) =
      { s with
        calls := s.calls.insert caller (.sent ⟨call, signedExtensionContext n runtime⟩)
        signed := s.signed ++ [⟨call, signedExtensionContext n runtime⟩] } := by
  simp only [next, hl]

theorem nonces_sign (base : Nat) {s : Signer} {caller : Caller} {call : Bytes} {n : Nat}
    (hl : s.calls.lookup caller = some (.indexed call n)) (runtime : RuntimeTxContext) :
    (s.next base (.sign caller runtime)).nonces = s.nonces ++ [n] := by
  rw [next_sign hl, nonces, List.map_append]
  rfl

theorem inv_sign {base : Nat} {s : Signer} (h : s.Inv base) {caller : Caller} {call : Bytes}
    {n : Nat} (hl : s.calls.lookup caller = some (.indexed call n)) (runtime : RuntimeTxContext) :
    (s.next base (.sign caller runtime)).Inv base := by
  obtain ⟨hn, hlt, hlen, ho⟩ := h.turn.of_indexed hl
  have hlength : (s.next base (.sign caller runtime)).signed.length = s.signed.length + 1 := by
    rw [next_sign hl, List.length_append, List.length_singleton]
  refine ⟨?_, ?_, ?_⟩
  · refine .sent caller ⟨call, signedExtensionContext n runtime⟩ ?_ ?_ ?_
    · rw [hlength, next_sign hl]
      exact congrArg (· + 1) hlen
    · rw [next_sign hl]
      exact Finmap.lookup_insert _
    · rw [next_sign hl]
      exact ho.insert _
  · rw [nonces_sign base hl, hlength, List.range'_concat, h.nonces, hn, Nat.one_mul]
  · intro m hm
    rw [nonces_sign base hl] at hm
    rcases List.mem_append.mp hm with hm | hm
    · exact h.bound m hm
    · rw [List.mem_singleton.mp hm]
      exact hlt

theorem next_read {base : Nat} {s : Signer} {n : Nat}
    (hn : accountNonce (s.nextIndex base) = .ok n) (caller : Caller) (call : Bytes) :
    s.next base (.read caller call) =
      { s with calls := s.calls.insert caller (.indexed call n) } := by
  simp only [next, hn]

theorem inv_next {base : Nat} {s : Signer} {e : SignerEvent} (h : s.Inv base) (hg : s.Guard e)
    (hok : s.ReadsSettled e) : (s.next base e).Inv base := by
  cases e with
  | read caller call =>
    have hs : s.Settled := hok
    have ho := h.turn.of_settled hs
    cases hn : accountNonce (s.nextIndex base) with
    | error e =>
      have hnext : s.next base (.read caller call) = s := by simp only [next, hn]
      rw [hnext]
      exact h
    | ok n =>
      obtain ⟨rfl, hlt⟩ := nonce_of_read hn
      rw [hs.1] at hn hlt
      rw [next_read hn]
      exact ⟨.indexed caller call hs.1 (Finmap.lookup_insert _) hlt ((ho.of_none _).insert _),
        h.nonces, h.bound⟩
  | fail caller =>
    obtain ⟨phase, hl, hp⟩ := exists_phase hg
    cases phase with
    | indexed call n =>
      obtain ⟨-, -, hlen, ho⟩ := h.turn.of_indexed hl
      exact ⟨.quiet hlen ho.erase_self, h.nonces, h.bound⟩
    | _ => exact absurd hp Bool.noConfusion
  | sign caller runtime =>
    obtain ⟨phase, hl, hp⟩ := exists_phase hg
    cases phase with
    | indexed call n => exact inv_sign h hl runtime
    | _ => exact absurd hp Bool.noConfusion
  | accept caller =>
    obtain ⟨phase, hl, hp⟩ := exists_phase hg
    cases phase with
    | sent ext =>
      obtain ⟨hlen, ho⟩ := h.turn.of_sent hl
      have hnext : s.next base (.accept caller) = { s with
          calls := s.calls.insert caller (.watching ext), accepted := s.accepted ++ [ext] } := by
        simp only [next, hl]
      rw [hnext]
      refine ⟨.quiet ?_ (ho.insert_watching rfl), h.nonces, h.bound⟩
      rw [List.length_append, List.length_singleton]
      exact hlen
    | _ => exact absurd hp Bool.noConfusion
  | refuse caller =>
    obtain ⟨phase, hl, hp⟩ := exists_phase hg
    cases phase with
    | sent ext =>
      obtain ⟨hlen, ho⟩ := h.turn.of_sent hl
      exact ⟨.refused hlen ho.erase_self, h.nonces, h.bound⟩
    | _ => exact absurd hp Bool.noConfusion
  | finish caller =>
    obtain ⟨phase, hl, hp⟩ := exists_phase hg
    cases phase with
    | watching ext => exact ⟨h.turn.finish hl, h.nonces, h.bound⟩
    | _ => exact absurd hp Bool.noConfusion

theorem inv_reachable {base : Nat} {s : Signer}
    (h : ((signerMachine base).restrict ReadsSettled).Reachable s) : s.Inv base := by
  refine h.invariant (I := Inv base) ?_ ?_
  · exact inv_init base
  · exact fun _ _ _ hi ha => inv_next hi ha.1 ha.2

theorem allowed_sign (base : Nat) {s : Signer} {caller : Caller} {call : Bytes} {n : Nat}
    (hl : s.calls.lookup caller = some (.indexed call n)) (runtime : RuntimeTxContext) :
    (signerMachine base).allowed s (.sign caller runtime) := by
  have hany : (s.calls.lookup caller).any (·.isIndexed) = true := by
    rw [hl]
    rfl
  exact hany

/-- Two extrinsics of one nonce can be signed from here on. -/
def Collides (base : Nat) (s : Signer) : Prop :=
  ∃ es, (signerMachine base).Accepts s es ∧ ¬ ((signerMachine base).run s es).nonces.Nodup

theorem collides_of_signed {base : Nat} {s : Signer} {caller : Caller} {call : Bytes} {n : Nat}
    (hl : s.calls.lookup caller = some (.indexed call n)) (hm : n ∈ s.nonces)
    (runtime : RuntimeTxContext) : s.Collides base := by
  refine ⟨[.sign caller runtime], ⟨allowed_sign base hl runtime, trivial⟩, fun hd => ?_⟩
  have hnodup : (s.nonces ++ [n]).Nodup := by
    rw [← nonces_sign base hl runtime]
    exact hd
  exact (List.nodup_append.mp hnodup).2.2 n hm n List.mem_cons_self rfl

theorem collides_of_shared {base : Nat} {s : Signer} {caller holder : Caller}
    {call call' : Bytes} {n : Nat} (hne : caller ≠ holder)
    (hl : s.calls.lookup caller = some (.indexed call n))
    (hl' : s.calls.lookup holder = some (.indexed call' n)) (runtime : RuntimeTxContext) :
    s.Collides base := by
  have hstill : (s.next base (.sign holder runtime)).calls.lookup caller =
      some (.indexed call n) := by
    rw [next_sign hl']
    exact (Finmap.lookup_insert_of_ne _ hne).trans hl
  have hmem : n ∈ (s.next base (.sign holder runtime)).nonces := by
    rw [nonces_sign base hl']
    exact List.mem_append_right _ List.mem_cons_self
  have hcollides : (s.next base (.sign holder runtime)).Collides base :=
    collides_of_signed hstill hmem runtime
  obtain ⟨es, hes, hd⟩ := hcollides
  exact ⟨.sign holder runtime :: es, ⟨allowed_sign base hl' runtime, hes⟩, hd⟩

/-- A read out of turn gets an index that is signed already, or the one of the call whose turn
it is. -/
theorem Inv.collides_next {base : Nat} {s : Signer} (h : s.Inv base) {caller : Caller}
    {call : Bytes} (hg : s.Guard (.read caller call)) (hs : ¬ s.Settled)
    (runtime : RuntimeTxContext) : (s.next base (.read caller call)).Collides base := by
  have hbehind : s.accepted.length + 1 = s.signed.length →
      (s.next base (.read caller call)).Collides base := by
    intro hlen
    have hmem : base + s.accepted.length ∈ s.nonces := by
      rw [h.nonces, List.mem_range'_1]
      omega
    rw [next_read (read_of_lt (h.bound _ hmem))]
    exact collides_of_signed (Finmap.lookup_insert s.calls) hmem runtime
  cases h.turn with
  | sent holder ext hlen _ _ => exact hbehind hlen
  | refused hlen _ => exact hbehind hlen
  | quiet hlen ho =>
    refine absurd ⟨hlen, fun c _ => ?_⟩ hs
    cases hl : s.calls.lookup c with
    | none => rfl
    | some p =>
      have hw := ho c p (by simp) hl
      cases p with
      | watching ext => rfl
      | _ => exact absurd hw Bool.noConfusion
  | indexed holder call' hlen hl hlt ho =>
    have hne : holder ≠ caller := by
      intro heq
      exact hg (heq ▸ Finmap.mem_of_lookup_eq_some hl)
    have hread : accountNonce (s.nextIndex base) = .ok (base + s.signed.length) := by
      rw [← hlen] at hlt ⊢
      exact read_of_lt hlt
    rw [next_read hread]
    exact collides_of_shared hne.symm (Finmap.lookup_insert s.calls)
      ((Finmap.lookup_insert_of_ne _ hne).trans hl) runtime

end Signer

/-- In every run whose calls ask for their index only when every extrinsic signed so far was
accepted and no other call has an index to sign with, the nonces that are signed are distinct. A
read in any other state can end in two extrinsics of one nonce. -/
theorem account_nonces_distinct (base : Nat) {s : Signer}
    (h : ((signerMachine base).restrict Signer.ReadsSettled).Reachable s) :
    s.nonces.Nodup ∧ ∀ caller call, (signerMachine base).allowed s (.read caller call) →
      ¬ s.Settled → ((signerMachine base).next s (.read caller call)).Collides base := by
  have hinv := Signer.inv_reachable h
  refine ⟨?_, fun caller call ha hs => hinv.collides_next ha hs ⟨Vector.replicate 32 0, 0, 0⟩⟩
  rw [hinv.nonces]
  exact List.nodup_range'

namespace Sample

def runtimeTx : RuntimeTxContext := ⟨Vector.replicate 32 1, 117, 1⟩

def signOne (caller : Caller) (call : Bytes) : List SignerEvent :=
  [.read caller call, .sign caller runtimeTx, .accept caller]

/-- Two sessions submit at once: both read the index before either extrinsic is at the node. -/
def racing : List SignerEvent :=
  [.read (.session 0) [1], .read (.session 1) [2], .sign (.session 0) runtimeTx,
    .sign (.session 1) runtimeTx]

end Sample

open Sample in
theorem account_nonces_distinct_sample :
    let s := (signerMachine 5).run .init (signOne (.session 0) [1] ++ signOne .feeder [2])
    s.nonces = [5, 6] ∧ s.nonces.Nodup :=
  ⟨by decide +kernel, (account_nonces_distinct 5 (Machine.reachable_restrict_run
    (signOne (.session 0) [1] ++ signOne .feeder [2]) (by decide +kernel))).1⟩

open Sample in
theorem racing_sessions_sign_one_nonce :
    ¬ ∀ s, (signerMachine 5).Reachable s → s.nonces.Nodup := by
  intro hall
  have hreach := Machine.reachable_run (M := signerMachine 5) racing (by decide +kernel)
  exact absurd (hall _ hreach) (by decide +kernel)

end QuipCoordinator
