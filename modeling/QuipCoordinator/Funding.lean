import Mathlib.Data.List.Induction
import QuipCoordinator.Wire

/-!
# Funding the miner account

`ensureFunded` reads the balance, asks the faucet while the balance is short and
sleeps between the passes with doubling gaps until its budget is spent. The chain
and the faucet are parameters that give an answer to each question. A run leaves
the log of its reads, requests and sleeps; durations are in nanoseconds. `Story`
says what the logs of complete runs look like, and every property of them is proved
on it.
-/

namespace QuipCoordinator

def seconds (n : Nat) : Nat := n * 10 ^ 9

def backoffStart : Nat := seconds 2
def backoffMax : Nat := seconds 30

inductive FaucetError
  | permanent (msg : String)
  | alreadyFunded (msg : String)
  | transient (msg : String)
deriving DecidableEq

def FaucetError.display : FaucetError → String
  | .permanent s | .alreadyFunded s | .transient s => s

inductive FundingError
  | underfunded (balance threshold : Nat)
  | faucetExhausted (balance threshold : Nat) (lastNote : String)
  | faucetRejected (msg : String)
  | chain (msg : String)
deriving DecidableEq

structure FundingParams where
  minBalance : Nat
  topUp : Nat
  timeout : Nat
deriving DecidableEq

def FundingParams.default : FundingParams :=
  ⟨2000000000000, 10000000000000, seconds 600⟩

/-- The answer of the chain to each read and of the faucet, if there is one, to each request. -/
structure FundingPeers where
  freeBalance : Nat → Except String Nat
  request : Option (Nat → Except FaucetError Unit)

inductive FundingEvent
  | read (account : Bytes32) (balance : Except String Nat)
  | ask (dest : Bytes32) (amount : Nat) (answer : Except FaucetError Unit)
  | sleep (gap : Nat)

structure Funding where
  remaining : Nat
  backoff : Nat
  lastBalance : Option Nat
  reads : Nat
  asks : Nat
deriving DecidableEq

inductive FundingStep
  | done (result : Except FundingError Nat)
  | retry (s : Funding) (lastNote : String)

def giveUp (p : FundingParams) (lastBalance : Option Nat) (lastNote : String) :
    Except FundingError Nat :=
  match lastBalance with
  | some balance => .error (.faucetExhausted balance p.minBalance lastNote)
  | none => .error (.chain lastNote)

namespace Funding

def attempt (p : FundingParams) (peers : FundingPeers) (account : Bytes32) (s : Funding) :
    List FundingEvent × FundingStep :=
  let outcome := peers.freeBalance s.reads
  let s := { s with reads := s.reads + 1 }
  match outcome with
  | .ok balance =>
    let s := { s with lastBalance := some balance }
    if p.minBalance ≤ balance then ([.read account outcome], .done (.ok balance))
    else
      match peers.request with
      | none => ([.read account outcome], .done (.error (.underfunded balance p.minBalance)))
      | some request =>
        let answer := request s.asks
        let s := { s with asks := s.asks + 1 }
        ([.read account outcome, .ask account p.topUp answer],
          match answer with
          | .ok () => .retry s "requested"
          | .error (.permanent e) => .done (.error (.faucetRejected e))
          | .error e => .retry s e.display)
  | .error e => ([.read account outcome], .retry s ("chain read failed: " ++ e))

end Funding

def gap (i : Nat) : Nat := min (backoffStart * 2 ^ i) backoffMax

section Story
variable (p : FundingParams) (peers : FundingPeers) (account : Bytes32)

/-- The events of a pass after which the loop may go on, with the last balance before and after. -/
inductive Tries : Option Nat → List FundingEvent → Option Nat → Prop
  | unread (last : Option Nat) (e : String) : Tries last [.read account (.error e)] last
  | asked (last : Option Nat) (b : Nat) (answer : Except FaucetError Unit) : b < p.minBalance →
      peers.request.isSome = true → (∀ e, answer ≠ .error (.permanent e)) →
      Tries last [.read account (.ok b), .ask account p.topUp answer] (some b)

/-- The events of a pass that ends the loop before the budget check. -/
inductive Ends : List FundingEvent → Except FundingError Nat → Prop
  | funded (b : Nat) : p.minBalance ≤ b → Ends [.read account (.ok b)] (.ok b)
  | underfunded (b : Nat) : b < p.minBalance → peers.request = none →
      Ends [.read account (.ok b)] (.error (.underfunded b p.minBalance))
  | rejected (b : Nat) (e : String) : b < p.minBalance → peers.request.isSome = true →
      Ends [.read account (.ok b), .ask account p.topUp (.error (.permanent e))]
        (.error (.faucetRejected e))

/-- The log and the result of a run from pass `i` on, with the budget and the last balance then. -/
inductive Story : Nat → Nat → Option Nat → List FundingEvent → Except FundingError Nat → Prop
  | ends (remaining i : Nat) (last : Option Nat) {events : List FundingEvent}
      {result : Except FundingError Nat} : Ends p peers account events result →
      Story remaining i last events result
  | gaveUp (remaining i : Nat) {last last' : Option Nat} {events : List FundingEvent}
      (note : String) : Tries p peers account last events last' → remaining ≤ gap i →
      Story remaining i last events (giveUp p last' note)
  | again (remaining i : Nat) {last last' : Option Nat} {events log : List FundingEvent}
      {result : Except FundingError Nat} : Tries p peers account last events last' →
      gap i < remaining → Story (remaining - gap i) (i + 1) last' log result →
      Story remaining i last (events ++ .sleep (gap i) :: log) result

end Story

variable {p : FundingParams} {peers : FundingPeers} {account : Bytes32}

def sleeps (log : List FundingEvent) : List Nat :=
  log.filterMap fun e =>
    match e with
    | .sleep d => some d
    | _ => none

def balances (log : List FundingEvent) : List Nat :=
  log.filterMap fun e =>
    match e with
    | .read _ (.ok b) => some b
    | _ => none

def FundingEvent.settles (p : FundingParams) (peers : FundingPeers) :
    FundingEvent → Option (Except FundingError Nat)
  | .read _ (.ok b) =>
    if p.minBalance ≤ b then some (.ok b)
    else if peers.request.isSome then none
    else some (.error (.underfunded b p.minBalance))
  | .ask _ _ (.error (.permanent e)) => some (.error (.faucetRejected e))
  | _ => none

section
variable {remaining i : Nat} {last last' : Option Nat} {events log : List FundingEvent}
  {result : Except FundingError Nat}

theorem Tries.quiet (h : Tries p peers account last events last') :
    sleeps events = [] ∧ (balances events).getLast?.or last = last' ∧
      ∀ e ∈ events, e.settles p peers = none := by
  cases h with
  | unread e => simp [sleeps, balances, FundingEvent.settles]
  | asked b answer hb hsome hanswer =>
    have hnot : ¬p.minBalance ≤ b := Nat.not_le.mpr hb
    refine ⟨rfl, rfl, ?_⟩
    intro e he
    rcases List.mem_pair.mp he with rfl | rfl
    · rw [FundingEvent.settles, if_neg hnot, if_pos hsome]
    · rcases answer with (e | e | e) | u
      · exact absurd rfl (hanswer e)
      all_goals rfl

theorem Ends.settled (h : Ends p peers account events result) :
    sleeps events = [] ∧ ∃ front e, events = front ++ [e] ∧ e.settles p peers = some result ∧
      ∀ e' ∈ front, e'.settles p peers = none := by
  cases h with
  | funded b hb => exact ⟨rfl, [], _, rfl, if_pos hb, fun _ he => absurd he List.not_mem_nil⟩
  | underfunded b hb hnone =>
    refine ⟨rfl, [], _, rfl, ?_, fun _ he => absurd he List.not_mem_nil⟩
    simp [FundingEvent.settles, Nat.not_le.mpr hb, hnone]
  | rejected b e hb hsome =>
    refine ⟨rfl, [.read account (.ok b)], _, rfl, rfl, ?_⟩
    intro e' he'
    rw [List.mem_singleton.mp he', FundingEvent.settles, if_neg (Nat.not_le.mpr hb), if_pos hsome]

@[simp] theorem sleeps_append (l l' : List FundingEvent) :
    sleeps (l ++ l') = sleeps l ++ sleeps l' := List.filterMap_append

@[simp] theorem balances_append (l l' : List FundingEvent) :
    balances (l ++ l') = balances l ++ balances l' := List.filterMap_append

/-- A run ends at the first event that settles it, or with its budget. -/
theorem Story.settled (h : Story p peers account remaining i last log result) :
    (∃ front e, log = front ++ [e] ∧ e.settles p peers = some result ∧
      ∀ e' ∈ front, e'.settles p peers = none) ∨
    (∀ e ∈ log, e.settles p peers = none) ∧
      remaining - (sleeps log).sum ≤ gap (i + (sleeps log).length) ∧
      ∃ note, result = giveUp p ((balances log).getLast?.or last) note := by
  induction h with
  | ends remaining i last hends => exact Or.inl hends.settled.2
  | gaveUp remaining i note htries hspent =>
    obtain ⟨hnone, hlast, hquiet⟩ := htries.quiet
    refine Or.inr ⟨hquiet, ?_, note, by rw [hlast]⟩
    simpa [hnone] using hspent
  | @again remaining i last last' events log result htries hgap _ ih =>
    obtain ⟨hnone, hlast, hquiet⟩ := htries.quiet
    have hfront : ∀ {front : List FundingEvent},
        (∀ e ∈ front, e.settles p peers = none) →
        ∀ e ∈ events ++ .sleep (gap i) :: front, e.settles p peers = none := by
      intro front hrest e he
      rcases List.mem_append.mp he with he | he
      · exact hquiet e he
      · rcases List.mem_cons.mp he with rfl | he
        · rfl
        · exact hrest e he
    rcases ih with ⟨front, e, rfl, hsettles, hrest⟩ | ⟨hrest, hspent, note, hresult⟩
    · exact Or.inl ⟨events ++ .sleep (gap i) :: front, e, by simp, hsettles, hfront hrest⟩
    · have hsleeps : sleeps (events ++ .sleep (gap i) :: log) = gap i :: sleeps log := by
        rw [sleeps_append, hnone]
        rfl
      have hbalances : (balances (events ++ .sleep (gap i) :: log)).getLast?.or last =
          (balances log).getLast?.or last' := by
        rw [balances_append, List.getLast?_append, Option.or_assoc, hlast]
        rfl
      refine Or.inr ⟨hfront hrest, ?_, note, by rw [hbalances, hresult]⟩
      rw [hsleeps, List.sum_cons, List.length_cons, ← Nat.sub_sub, ← Nat.add_assoc,
        Nat.add_right_comm]
      exact hspent

end

section
variable {remaining i : Nat} {last last' : Option Nat} {events log : List FundingEvent}
  {result : Except FundingError Nat}

end

namespace Sample

end Sample

end QuipCoordinator
