import QuipCoordinator.ChainCalls
import QuipCoordinator.FoundationHex
import QuipCoordinator.FoundationMachine

/-!
# Seeding a chain

A fresh chain has no default topology and the pallet writes it only while it is empty. A seeder
reads it, registers its own topology, reads back what the chain stored and sets a difficulty only
for that. Any number of seeders may do so at once on one branch, and a call that was sent may go
into a block at any time after, or never, also when its seeder has given up.
-/

namespace QuipCoordinator

open Scale (DifficultyConfig)

structure SeedParams where
  topology : SeedTopology
  difficulty : DifficultyConfig

structure SeedReport where
  topologyHash : Bytes32
  nodes : Nat
  edges : Nat
  registerBlock : String
  difficultyBlock : String
deriving DecidableEq

def hexLower (bytes : Bytes) : String := String.ofList (Hex.encode bytes)

/-! ## One seeder -/

inductive SeedPhase
  | reading
  | registering
  | readingBack (registerBlock : String)
  | settingDifficulty (registerBlock : String)
  | ended (result : Except ChainError SeedReport)

structure Seeder where
  phase : SeedPhase
  sent : List ChainCall

inductive SeedAnswer
  | topology (stored : Except ChainError (Option Bytes32))
  | call (outcome : Except ChainError SignedCallOutcome)

namespace Seeder

/-- What a call comes to for its seeder: the block, or why there is none. -/
def dispatch (what : String) : Except ChainError SignedCallOutcome → Except ChainError String
  | .error e => .error e
  | .ok (.success block _) => .ok block
  | .ok (.dispatchFailed error _) =>
    .error (.submit (what ++ " was included but the dispatch failed: " ++ error))
  | .ok (.invalid message) =>
    .error (.submit (what ++ " was rejected by the transaction pool: " ++ message))
  | .ok (.dropped message) =>
    .error (.submit (what ++ " was dropped before inclusion: " ++ message))

theorem dispatch_eq_ok {what block : String}
    {outcome : Except ChainError SignedCallOutcome} :
    dispatch what outcome = .ok block ↔ ∃ number, outcome = .ok (.success block number) := by
  rcases outcome with e | (⟨b, n⟩ | ⟨e, l⟩ | m | m) <;> simp [dispatch]

end Seeder

section
variable [Crates]

def SeedTopology.topologyHash (t : SeedTopology) : Bytes32 :=
  topologyHashSets t.nodes t.edges t.allowedHMilli t.allowedJMilli t.allowedSpinMilli

namespace SeedParams
variable (p : SeedParams)

def registerCall : ChainCall := .registerTopology p.topology.args
def difficultyCall : ChainCall := .setDifficulty p.topology.topologyHash p.difficulty

def report (registerBlock difficultyBlock : String) : SeedReport where
  topologyHash := p.topology.topologyHash
  nodes := p.topology.nodes.length
  edges := p.topology.edges.length
  registerBlock := registerBlock
  difficultyBlock := difficultyBlock

end SeedParams

namespace Seeder

def fresh : Seeder := ⟨.reading, []⟩

def fail (s : Seeder) (e : ChainError) : Seeder := { s with phase := .ended (.error e) }

def existing (p : SeedParams) (s : Seeder) : Except ChainError (Option Bytes32) → Seeder
  | .error e => s.fail e
  | .ok (some hash) =>
    s.fail (.submit ("DefaultTopology is already set to 0x" ++ hexLower hash.toList ++
      "; a chain can only be seeded once, so wipe the chain data and restart the validator first"))
  | .ok none => ⟨.registering, s.sent ++ [p.registerCall]⟩

def registered (s : Seeder) (outcome : Except ChainError SignedCallOutcome) : Seeder :=
  match dispatch "register_topology" outcome with
  | .error e => s.fail e
  | .ok block => { s with phase := .readingBack block }

def stored (p : SeedParams) (s : Seeder) (registerBlock : String) :
    Except ChainError (Option Bytes32) → Seeder
  | .error e => s.fail e
  | .ok none =>
    s.fail (.submit ("register_topology was included but DefaultTopology is still unset; " ++
      "the call failed inner validation"))
  | .ok (some hash) =>
    if hash = p.topology.topologyHash then
      ⟨.settingDifficulty registerBlock, s.sent ++ [p.difficultyCall]⟩
    else
      s.fail (.submit ("chain registered topology 0x" ++ hexLower hash.toList ++
        " but this build computed 0x" ++ hexLower p.topology.topologyHash.toList ++
        "; the call encoding and the hash function disagree"))

def difficultySet (p : SeedParams) (s : Seeder) (registerBlock : String)
    (outcome : Except ChainError SignedCallOutcome) : Seeder :=
  match dispatch "set_difficulty" outcome with
  | .error e => s.fail e
  | .ok block => { s with phase := .ended (.ok (p.report registerBlock block)) }

def resume (p : SeedParams) (s : Seeder) (answer : SeedAnswer) : Seeder :=
  match s.phase, answer with
  | .reading, .topology stored => s.existing p stored
  | .registering, .call outcome => s.registered outcome
  | .readingBack block, .topology stored => s.stored p block stored
  | .settingDifficulty block, .call outcome => s.difficultySet p block outcome
  | _, _ => s

end Seeder
end

/-! ## The chain -/

/-- What a chain stores under `DefaultTopology` and `Difficulties`. -/
structure SeededChain where
  defaultTopology : Option Bytes32
  difficulty : Bytes32 → Option DifficultyConfig

/-- The pallet, with what it keeps. A call that does not go through gives none. -/
structure SeedPallet (σ : Type) where
  stored : σ → SeededChain
  hash : TopologyArgs → Bytes32
  run : σ → ChainCall → Option σ

/-- A registration that goes through writes the default only while there is none, and nothing else
that is read here. A difficulty that is set is that of its topology alone. -/
structure SeedPallet.Laws {σ : Type} (P : SeedPallet σ) : Prop where
  register : ∀ c args c', P.run c (.registerTopology args) = some c' →
    (P.stored c').defaultTopology = (P.stored c).defaultTopology.or (some (P.hash args)) ∧
      (P.stored c').difficulty = (P.stored c).difficulty
  setDifficulty : ∀ c h difficulty c', P.run c (.setDifficulty h difficulty) = some c' →
    (P.stored c').defaultTopology = (P.stored c).defaultTopology ∧
      (P.stored c').difficulty = Function.update (P.stored c).difficulty h (some difficulty)

namespace SeededChain

structure Keeps (c c' : SeededChain) : Prop where
  default : ∀ h, c.defaultTopology = some h → c'.defaultTopology = some h
  difficulty : ∀ h, (c.difficulty h).isSome = true → (c'.difficulty h).isSome = true

theorem Keeps.refl (c : SeededChain) : c.Keeps c where
  default _ h := h
  difficulty _ h := h

theorem Keeps.trans {c c' c'' : SeededChain} (h : c.Keeps c') (h' : c'.Keeps c'') :
    c.Keeps c'' where
  default x hx := h'.default x (h.default x hx)
  difficulty x hx := h'.difficulty x (h.difficulty x hx)

/-- A read that does not fail gives the entry, and a difficulty is confirmed only by its own. -/
def Answers [Crates] (c : SeededChain) (p : SeedParams) (phase : SeedPhase) : SeedAnswer → Prop
  | .topology (.ok stored) => stored = c.defaultTopology
  | .call (.ok (.success _ _)) => ∀ block, phase = .settingDifficulty block →
      (c.difficulty p.topology.topologyHash).isSome = true
  | _ => True

end SeededChain

namespace SeedPallet
variable {σ : Type} {P : SeedPallet σ} (laws : P.Laws) {c c' : σ}
include laws

theorem Laws.keeps_register {args : TopologyArgs}
    (h : P.run c (.registerTopology args) = some c') : (P.stored c).Keeps (P.stored c') := by
  obtain ⟨hdefault, hdifficulty⟩ := laws.register c args c' h
  refine ⟨?_, ?_⟩
  · intro x hx
    rw [hdefault, hx]
    rfl
  · intro x hx
    rw [hdifficulty]
    exact hx

theorem Laws.keeps_setDifficulty {x : Bytes32} {difficulty : DifficultyConfig}
    (h : P.run c (.setDifficulty x difficulty) = some c') : (P.stored c).Keeps (P.stored c') := by
  obtain ⟨hdefault, hdifficulty⟩ := laws.setDifficulty c x difficulty c' h
  refine ⟨?_, ?_⟩
  · intro y hy
    rw [hdefault]
    exact hy
  · intro y hy
    rw [hdifficulty]
    by_cases hxy : y = x
    · rw [hxy, Function.update_self]
      rfl
    · rw [Function.update_of_ne hxy]
      exact hy

end SeedPallet

/-! ## What a seeder knows -/

section
variable [Crates]

namespace SeedParams
variable (p : SeedParams)

def Sent (c : SeededChain) (calls : List ChainCall) : Prop :=
  calls = [] ∨ calls = [p.registerCall] ∨
    calls = [p.registerCall, p.difficultyCall] ∧
      c.defaultTopology = some p.topology.topologyHash

/-- What a seeder holds true, by where it waits. -/
def Shows (c : SeededChain) (calls : List ChainCall) : SeedPhase → Prop
  | .reading => calls = []
  | .registering | .readingBack _ => calls = [p.registerCall]
  | .settingDifficulty _ => calls = [p.registerCall, p.difficultyCall] ∧
      c.defaultTopology = some p.topology.topologyHash
  | .ended (.ok r) => (calls = [p.registerCall, p.difficultyCall] ∧
      c.defaultTopology = some p.topology.topologyHash) ∧
      r = p.report r.registerBlock r.difficultyBlock ∧
      (c.difficulty p.topology.topologyHash).isSome = true
  | .ended (.error _) => p.Sent c calls

variable {p} {c c' : SeededChain} {calls : List ChainCall} {phase : SeedPhase} {s : Seeder}
  {block : String}

theorem Shows.sent (h : p.Shows c calls phase) : p.Sent c calls := by
  cases phase with
  | reading => exact .inl h
  | registering => exact .inr (.inl h)
  | readingBack block => exact .inr (.inl h)
  | settingDifficulty block => exact .inr (.inr h)
  | ended result =>
    cases result with
    | error e => exact h
    | ok r => exact .inr (.inr h.1)

theorem Sent.call (h : p.Sent c calls) {call : ChainCall} (hcall : call ∈ calls) :
    call = p.registerCall ∨
      call = p.difficultyCall ∧ c.defaultTopology = some p.topology.topologyHash := by
  rcases h with rfl | rfl | ⟨rfl, hdefault⟩
  · simp at hcall
  · exact .inl (List.mem_singleton.mp hcall)
  · rcases List.mem_cons.mp hcall with hcall | hcall
    · exact .inl hcall
    · exact .inr ⟨List.mem_singleton.mp hcall, hdefault⟩

theorem Sent.keeps (h : p.Sent c calls) (hc : c.Keeps c') : p.Sent c' calls := by
  rcases h with h | h | ⟨h, hdefault⟩
  · exact .inl h
  · exact .inr (.inl h)
  · exact .inr (.inr ⟨h, hc.default _ hdefault⟩)

theorem Shows.keeps (h : p.Shows c calls phase) (hc : c.Keeps c') : p.Shows c' calls phase := by
  cases phase with
  | reading => exact h
  | registering => exact h
  | readingBack block => exact h
  | settingDifficulty block => exact ⟨h.1, hc.default _ h.2⟩
  | ended result =>
    cases result with
    | error e => exact Sent.keeps h hc
    | ok r =>
      obtain ⟨⟨hcalls, hdefault⟩, hreport, hset⟩ := h
      exact ⟨⟨hcalls, hc.default _ hdefault⟩, hreport, hc.difficulty _ hset⟩

theorem Sent.fail (h : p.Sent c s.sent) (e : ChainError) :
    p.Shows c (s.fail e).sent (s.fail e).phase := h

theorem shows_existing (hsent : s.sent = []) (stored : Except ChainError (Option Bytes32)) :
    p.Shows c (s.existing p stored).sent (s.existing p stored).phase := by
  have hfail := fun e => Sent.fail (p := p) (c := c) (.inl hsent) e
  rcases stored with e | (hash | hash)
  · exact hfail e
  · change s.sent ++ [p.registerCall] = [p.registerCall]
    rw [hsent, List.nil_append]
  · exact hfail _

theorem shows_registered (hsent : s.sent = [p.registerCall])
    (outcome : Except ChainError SignedCallOutcome) :
    p.Shows c (s.registered outcome).sent (s.registered outcome).phase := by
  rw [Seeder.registered]
  cases Seeder.dispatch "register_topology" outcome with
  | error e => exact Sent.fail (.inr (.inl hsent)) e
  | ok block => exact hsent

/-- Only a read back of the seeder's own topology leads to its second call. -/
theorem shows_stored (hsent : s.sent = [p.registerCall]) {block : String}
    {stored : Except ChainError (Option Bytes32)}
    (hread : ∀ hash, stored = .ok hash → hash = c.defaultTopology) :
    p.Shows c (s.stored p block stored).sent (s.stored p block stored).phase := by
  have hfail := fun e => Sent.fail (p := p) (c := c) (.inr (.inl hsent)) e
  rcases stored with e | (hash | hash)
  · exact hfail e
  · exact hfail _
  · rw [Seeder.stored]
    split_ifs with hhash
    · constructor
      · change s.sent ++ [p.difficultyCall] = [p.registerCall, p.difficultyCall]
        rw [hsent]
        rfl
      · rw [← hhash]
        exact (hread _ rfl).symm
    · exact hfail _

theorem shows_difficultySet (h : p.Shows c s.sent (.settingDifficulty block))
    {outcome : Except ChainError SignedCallOutcome}
    (hset : ∀ included number, outcome = .ok (.success included number) →
      (c.difficulty p.topology.topologyHash).isSome = true) :
    p.Shows c (s.difficultySet p block outcome).sent (s.difficultySet p block outcome).phase := by
  rw [Seeder.difficultySet]
  cases hdispatch : Seeder.dispatch "set_difficulty" outcome with
  | error e => exact Sent.fail h.sent e
  | ok included =>
    rw [Seeder.dispatch_eq_ok] at hdispatch
    obtain ⟨number, houtcome⟩ := hdispatch
    exact ⟨h, rfl, hset included number houtcome⟩

theorem Shows.resume (h : p.Shows c s.sent s.phase) {answer : SeedAnswer}
    (ha : c.Answers p s.phase answer) :
    p.Shows c (s.resume p answer).sent (s.resume p answer).phase := by
  rcases s with ⟨phase, sent⟩
  rcases answer with stored | outcome
  · have hread : ∀ hash, stored = .ok hash → hash = c.defaultTopology := by
      rintro hash rfl
      exact ha
    cases phase with
    | reading => exact shows_existing h stored
    | readingBack block => exact shows_stored h hread
    | _ => exact h
  · cases phase with
    | registering => exact shows_registered h outcome
    | settingDifficulty block =>
      apply shows_difficultySet h
      rintro included number rfl
      exact ha block rfl
    | _ => exact h

end SeedParams

theorem Seeder.sent_subset_resume (p : SeedParams) (s : Seeder) (answer : SeedAnswer) :
    s.sent ⊆ (s.resume p answer).sent := by
  rcases s with ⟨phase, sent⟩
  have hsame : sent ⊆ sent := fun _ h => h
  rcases answer with stored | outcome
  · cases phase with
    | reading =>
      rcases stored with e | (hash | hash)
      · exact hsame
      · exact List.subset_append_left sent _
      · exact hsame
    | readingBack block =>
      rcases stored with e | (hash | hash)
      · exact hsame
      · exact hsame
      · change sent ⊆ (Seeder.stored p ⟨.readingBack block, sent⟩ block (.ok (some hash))).sent
        rw [Seeder.stored]
        split_ifs
        · exact List.subset_append_left sent _
        · exact hsame
    | _ => exact hsame
  · cases phase with
    | registering =>
      change sent ⊆ (registered ⟨.registering, sent⟩ outcome).sent
      rw [registered]
      cases dispatch "register_topology" outcome <;> exact hsame
    | settingDifficulty block =>
      change sent ⊆ (difficultySet p ⟨.settingDifficulty block, sent⟩ block outcome).sent
      rw [difficultySet]
      cases dispatch "set_difficulty" outcome <;> exact hsame
    | _ => exact hsame

theorem Seeder.sent_resume_of_default {p : SeedParams} {c : SeededChain} {s : Seeder}
    {hash : Bytes32} (hdefault : c.defaultTopology = some hash) (hsent : s.sent = [])
    (hshows : p.Shows c s.sent s.phase) {answer : SeedAnswer} (ha : c.Answers p s.phase answer) :
    (s.resume p answer).sent = [] := by
  rcases s with ⟨phase, sent⟩
  change sent = [] at hsent
  subst hsent
  cases phase with
  | reading =>
    rcases answer with (e | (stored | stored)) | outcome
    · rfl
    · have hnone : none = c.defaultTopology := ha
      rw [hdefault] at hnone
      cases hnone
    · rfl
    · rfl
  | registering => cases hshows
  | readingBack block => cases hshows
  | settingDifficulty block => cases hshows.1
  | ended result => rfl

/-! ## All seeders of a chain -/

variable {σ ι : Type} [DecidableEq ι]

/-- The chain, its seeders and their calls that went through, in order. -/
structure Seeding (σ ι : Type) where
  chain : σ
  seeders : ι → Seeder
  ran : List (ι × ChainCall)

/-- A validator answers a seeder, a call of one goes into a block, or the chain changes in what is
not read here. -/
inductive SeedEvent (σ ι : Type)
  | answer (i : ι) (answer : SeedAnswer)
  | included (i : ι) (call : ChainCall)
  | elsewhere (chain : σ)

omit [DecidableEq ι] in
def Seeding.apply (P : SeedPallet σ) (x : Seeding σ ι) (i : ι) (call : ChainCall) :
    Seeding σ ι :=
  match P.run x.chain call with
  | none => x
  | some chain => { x with chain := chain, ran := x.ran ++ [(i, call)] }

/-- A call of a seeder may go into a block at any time after it was sent. -/
def seedMachine (P : SeedPallet σ) (chain : σ) (params : ι → SeedParams) :
    Machine (Seeding σ ι) (SeedEvent σ ι) where
  init := ⟨chain, fun _ => .fresh, []⟩
  allowed x
    | .answer i answer => (P.stored x.chain).Answers (params i) (x.seeders i).phase answer
    | .included i call => call ∈ (x.seeders i).sent
    | .elsewhere c => P.stored c = P.stored x.chain
  next x
    | .answer i answer =>
      { x with seeders := Function.update x.seeders i ((x.seeders i).resume (params i) answer) }
    | .included i call => x.apply P i call
    | .elsewhere c => { x with chain := c }

def ChainCall.registration : ChainCall → Option TopologyArgs
  | .registerTopology args => some args
  | _ => none

namespace Seeding

def registered (x : Seeding σ ι) : Option TopologyArgs :=
  x.ran.findSome? fun r => r.2.registration

variable {P : SeedPallet σ} {chain : σ} {params : ι → SeedParams} {x : Seeding σ ι}

structure Inv (P : SeedPallet σ) (chain : σ) (params : ι → SeedParams) (x : Seeding σ ι) :
    Prop where
  kept : (P.stored chain).Keeps (P.stored x.chain)
  shows : ∀ i, (params i).Shows (P.stored x.chain) (x.seeders i).sent (x.seeders i).phase
  quiet : (P.stored chain).defaultTopology ≠ none → ∀ i, (x.seeders i).sent = []
  ran : ∀ r ∈ x.ran, r.2 ∈ (x.seeders r.1).sent
  first : (P.stored x.chain).defaultTopology =
    (P.stored chain).defaultTopology.or (x.registered.map P.hash)
  difficulties : ∀ h, (P.stored x.chain).difficulty h = (P.stored chain).difficulty h ∨
    (P.stored x.chain).defaultTopology = some h

omit [DecidableEq ι] in
theorem inv_init : Inv P chain params ⟨chain, fun _ => .fresh, []⟩ where
  kept := .refl _
  shows _ := rfl
  quiet _ _ := rfl
  ran _ h := absurd h List.not_mem_nil
  first := Option.or_none.symm
  difficulties _ := .inl rfl

theorem Inv.answer (h : x.Inv P chain params) {i : ι} {answer : SeedAnswer}
    (ha : (P.stored x.chain).Answers (params i) (x.seeders i).phase answer) :
    ((seedMachine P chain params).next x (.answer i answer)).Inv P chain params where
  kept := h.kept
  shows j := by
    change (params j).Shows (P.stored x.chain) (Function.update x.seeders i _ j).sent
      (Function.update x.seeders i _ j).phase
    by_cases hj : j = i
    · subst hj
      rw [Function.update_self]
      exact (h.shows j).resume ha
    · rw [Function.update_of_ne hj]
      exact h.shows j
  quiet hdefault j := by
    change (Function.update x.seeders i _ j).sent = []
    by_cases hj : j = i
    · subst hj
      rw [Function.update_self]
      obtain ⟨stored, hstored⟩ := Option.ne_none_iff_exists'.mp hdefault
      exact Seeder.sent_resume_of_default (h.kept.default _ hstored) (h.quiet hdefault j)
        (h.shows j) ha
    · rw [Function.update_of_ne hj]
      exact h.quiet hdefault j
  ran r hr := by
    change r.2 ∈ (Function.update x.seeders i _ r.1).sent
    by_cases hj : r.1 = i
    · rw [← hj, Function.update_self]
      exact Seeder.sent_subset_resume _ _ _ (h.ran r hr)
    · rw [Function.update_of_ne hj]
      exact h.ran r hr
  first := h.first
  difficulties := h.difficulties

omit [Crates] [DecidableEq ι] in
theorem registered_concat (i : ι) (call : ChainCall) (c : σ) :
    ({ x with chain := c, ran := x.ran ++ [(i, call)] } : Seeding σ ι).registered =
      x.registered.or call.registration := by
  rw [registered, registered, List.findSome?_append]
  cases hcall : call.registration <;> simp [hcall]

omit [DecidableEq ι] in
theorem Inv.included (h : x.Inv P chain params) (laws : P.Laws) {i : ι} {call : ChainCall}
    (hcall : call ∈ (x.seeders i).sent) : (x.apply P i call).Inv P chain params := by
  rw [Seeding.apply]
  cases hrun : P.run x.chain call with
  | none => exact h
  | some c =>
    have hran : ∀ r ∈ x.ran ++ [(i, call)], r.2 ∈ (x.seeders r.1).sent := by
      intro r hr
      rcases List.mem_append.mp hr with hr | hr
      · exact h.ran r hr
      · rw [List.mem_singleton.mp hr]
        exact hcall
    rcases (h.shows i).sent.call hcall with rfl | ⟨rfl, hown⟩
    · have hkeeps := laws.keeps_register hrun
      obtain ⟨hdefault, hdifficulty⟩ := laws.register _ _ _ hrun
      refine ⟨h.kept.trans hkeeps, fun j => (h.shows j).keeps hkeeps, h.quiet, hran, ?_, ?_⟩
      · rw [registered_concat]
        dsimp only
        rw [hdefault, h.first, Option.or_assoc]
        cases x.registered <;> rfl
      · intro hash
        dsimp only
        rw [hdifficulty]
        exact (h.difficulties hash).imp_right (hkeeps.default hash)
    · have hkeeps := laws.keeps_setDifficulty hrun
      obtain ⟨hdefault, hdifficulty⟩ := laws.setDifficulty _ _ _ _ hrun
      refine ⟨h.kept.trans hkeeps, fun j => (h.shows j).keeps hkeeps, h.quiet, hran, ?_, ?_⟩
      · rw [registered_concat]
        dsimp only
        rw [hdefault, h.first]
        exact congrArg _ (congrArg _ Option.or_none.symm)
      · intro hash
        dsimp only
        rw [hdefault, hdifficulty]
        by_cases hhash : hash = (params i).topology.topologyHash
        · exact .inr (hhash ▸ hown)
        · rw [Function.update_of_ne hhash]
          exact h.difficulties hash

omit [DecidableEq ι] in
theorem Inv.elsewhere (h : x.Inv P chain params) {c : σ} (hc : P.stored c = P.stored x.chain) :
    ({ x with chain := c } : Seeding σ ι).Inv P chain params := by
  obtain ⟨hkept, hshows, hquiet, hran, hfirst, hdifficulties⟩ := h
  rw [← hc] at hkept hshows hfirst hdifficulties
  exact ⟨hkept, hshows, hquiet, hran, hfirst, hdifficulties⟩

theorem inv_reachable (laws : P.Laws) (h : (seedMachine P chain params).Reachable x) :
    x.Inv P chain params := by
  refine h.invariant inv_init ?_
  intro x e hx hi ha
  cases e with
  | answer i answer => exact hi.answer ha
  | included i call => exact hi.included laws ha
  | elsewhere c => exact hi.elsewhere ha

end Seeding

/-- Over any interleaving of seeders, of what validators answer and of the blocks: a seeder sends
its registration, and its difficulty after that only when the chain's topology is its own. On a
chain with a topology none sends anything. All seeders that end well report the one topology that
the chain has, and a difficulty for it is set. The topology of an unseeded chain is that of the
first registration that went through, which a seeder sent, and no other topology is given a
difficulty. -/
theorem seeders_agree {P : SeedPallet σ} (laws : P.Laws) (chain : σ) (params : ι → SeedParams)
    {x : Seeding σ ι} (h : (seedMachine P chain params).Reachable x) :
    (∀ i, (params i).Sent (P.stored x.chain) (x.seeders i).sent) ∧
    ((P.stored chain).defaultTopology ≠ none → ∀ i, (x.seeders i).sent = []) ∧
    (∀ i r, (x.seeders i).phase = .ended (.ok r) →
      r = (params i).report r.registerBlock r.difficultyBlock ∧
        (P.stored x.chain).defaultTopology = some r.topologyHash ∧
        ((P.stored x.chain).difficulty r.topologyHash).isSome = true) ∧
    (∀ i j r r', (x.seeders i).phase = .ended (.ok r) → (x.seeders j).phase = .ended (.ok r') →
      r.topologyHash = r'.topologyHash) ∧
    (P.stored x.chain).defaultTopology =
      (P.stored chain).defaultTopology.or (x.registered.map P.hash) ∧
    (∀ r ∈ x.ran, r.2 ∈ (x.seeders r.1).sent) ∧
    ∀ hash, (P.stored x.chain).difficulty hash = (P.stored chain).difficulty hash ∨
      (P.stored x.chain).defaultTopology = some hash := by
  have hinv := Seeding.inv_reachable laws h
  have hended : ∀ i r, (x.seeders i).phase = .ended (.ok r) →
      r = (params i).report r.registerBlock r.difficultyBlock ∧
        (P.stored x.chain).defaultTopology = some r.topologyHash ∧
        ((P.stored x.chain).difficulty r.topologyHash).isSome = true := by
    intro i r hphase
    have hshows := hinv.shows i
    rw [hphase] at hshows
    obtain ⟨⟨-, hdefault⟩, hreport, hset⟩ := hshows
    have hhash : r.topologyHash = (params i).topology.topologyHash := by
      rw [hreport]
      rfl
    rw [hhash]
    exact ⟨hreport, hdefault, hset⟩
  refine ⟨fun i => (hinv.shows i).sent, hinv.quiet, hended, ?_, hinv.first, hinv.ran,
    hinv.difficulties⟩
  intro i j r r' hi hj
  have hsame := (hended i r hi).2.1.symm.trans (hended j r' hj).2.1
  exact Option.some.inj hsame

end

namespace Sample

def argsHash : TopologyArgs → Bytes32
  | (nodes, edges, h, j, spin) => topologyHash nodes edges h j spin

/-- A pallet that lets every call of a seeder through. -/
def pallet : SeedPallet SeededChain where
  stored c := c
  hash := argsHash
  run c
    | .registerTopology args =>
      some { c with defaultTopology := c.defaultTopology.or (some (argsHash args)) }
    | .setDifficulty h difficulty =>
      some { c with difficulty := Function.update c.difficulty h (some difficulty) }
    | _ => none

theorem pallet_laws : pallet.Laws where
  register c args c' h := by
    obtain rfl := Option.some.inj h
    exact ⟨rfl, rfl⟩
  setDifficulty c x difficulty c' h := by
    obtain rfl := Option.some.inj h
    exact ⟨rfl, rfl⟩

def unseeded : SeededChain := ⟨none, fun _ => none⟩

def seedParams (edge : Bool) : SeedParams where
  topology := ⟨if edge then [0, 1] else [0], if edge then [(0, 1)] else [], [0], [1], [-1, 1]⟩
  difficulty := ⟨5, -2500000, 200⟩

/-- Both find no topology; the edge is in the first block. -/
def seedRace : List (SeedEvent SeededChain Bool) :=
  [.answer true (.topology (.ok none)), .answer false (.topology (.ok none)),
    .included true (seedParams true).registerCall, .included false (seedParams false).registerCall,
    .answer true (.call (.ok (.success "0x01" 1))), .answer false (.call (.ok (.success "0x02" 2))),
    .answer false (.topology (.ok (some (seedParams true).topology.topologyHash))),
    .answer true (.topology (.ok (some (seedParams true).topology.topologyHash))),
    .included true (seedParams true).difficultyCall,
    .answer true (.call (.ok (.success "0x03" 3)))]

end Sample

open Sample in
theorem seeders_agree_race :
    let x := (seedMachine pallet unseeded seedParams).run
      (seedMachine pallet unseeded seedParams).init seedRace
    x.chain.defaultTopology = some (seedParams true).topology.topologyHash ∧
      x.registered = some (seedParams true).topology.args ∧
      (x.seeders false).sent = [(seedParams false).registerCall] := by
  intro x
  have hset : ∀ (f : Bytes32 → Option DifficultyConfig) (h : Bytes32) (d : DifficultyConfig),
      (Function.update f h (some d) h).isSome = true := by
    intro f h d
    rw [Function.update_self]
    rfl
  have h : (seedMachine pallet unseeded seedParams).Reachable x := by
    apply Machine.reachable_run
    refine ⟨rfl, rfl, ?_, ?_, ?_, ?_, rfl, rfl, ?_, ?_, trivial⟩
    · exact List.mem_singleton.mpr rfl
    · exact List.mem_singleton.mpr rfl
    · intro block hphase
      cases hphase
    · intro block hphase
      cases hphase
    · exact List.mem_cons_of_mem _ (List.mem_singleton.mpr rfl)
    · intro block _
      exact hset (fun _ => none) (seedParams true).topology.topologyHash
        (seedParams true).difficulty
  have hended : (x.seeders true).phase =
      .ended (.ok ((seedParams true).report "0x01" "0x03")) := rfl
  exact ⟨((seeders_agree pallet_laws unseeded seedParams h).2.2.1 true _ hended).2.1, rfl, rfl⟩

end QuipCoordinator
