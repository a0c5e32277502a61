import QuipCoordinator.GraphAgreement
import QuipCoordinator.SessionChannels

/-!
# The broadcasts of a reseed

Between a reseed and the next round a required broadcast carries the
requirements of the round's seed, and the feeder stages nothing before it has
sent them all. So no job of a round is live while a requirement is owed.
-/

namespace QuipCoordinator
variable [Crates]
open CoordinatorState

omit [Crates] in
def Broadcast.required : Broadcast → Bool
  | .topology _ | .target _ => true
  | _ => false

theorem required_of_mem {seed : MiningSnapshot} {b : Broadcast} (h : b ∈ requirementsOf seed) :
    b.required = true := by
  rcases List.mem_cons.mp h with rfl | h
  · rfl
  · rw [List.mem_singleton.mp h]
    rfl

omit [Crates] in
def Channels.owed (c : Channels) (tx : SessionId) : List Broadcast :=
  match c.senders with
  | none => c.casts
  | some senders => if tx ∈ senders then c.casts else c.casts.tail

/-- The feeder's side: a seeded round has a target and is the one last reseeded, its requirements
are all that a required broadcast carries, and no job of a round is live while they go out. -/
structure CastInv (x : World × Channels) : Prop where
  target : x.1.seed ≠ none → x.1.coord.target ≠ none
  reseeded : x.1.seed ≠ none → x.2.reseeded = x.1.generation
  casts : ∀ b ∈ x.2.casts, b.required = true →
    ∃ seed, x.1.seed = some seed ∧ b ∈ requirementsOf seed
  quiet : (∃ b ∈ x.2.casts, b.required = true) → ∀ job, x.1.coord.Live job → job.generation = 0
  rest : x.2.casts = [] → x.2.senders = none

theorem castInv_init (params : FeederParams) : CastInv (channelMachine params).init where
  target := fun h => absurd rfl h
  reseeded := fun h => absurd rfl h
  casts := fun _ h => absurd h List.not_mem_nil
  quiet := fun ⟨_, h, _⟩ => absurd h List.not_mem_nil
  rest := fun _ => rfl

theorem seed_next (params : FeederParams) (w : World) {d : Section} (hstop : d ≠ .stopMining)
    (hreseed : ∀ snap q dp, d ≠ .reseed snap q dp) :
    (w.next params d).seed = w.seed ∧ (w.next params d).generation = w.generation ∧
      (w.coord.target ≠ none → (w.next params d).coord.target ≠ none) := by
  cases hf : d.feeds with
  | false =>
    rw [World.next_eq_update params w hf]
    refine ⟨rfl, rfl, fun ht => ?_⟩
    change (w.next params d).coord.target ≠ none
    rwa [(World.next_keeps params w hf).target]
  | true =>
    cases d with
    | stopMining => exact absurd rfl hstop
    | reseed snap q dp => exact absurd rfl (hreseed snap q dp)
    | topUp snap plans =>
      refine ⟨rfl, World.generation_topUp params w.toStaging snap plans, fun _ => ?_⟩
      change (w.toStaging.topUp params snap plans).coord.target ≠ none
      obtain ⟨router, salts, saltCtr, draws, he⟩ := w.toStaging.topUp_eq params snap plans
      rw [he]
      exact Option.some_ne_none _
    | stageMempoolOrders orders =>
      obtain ⟨-, r, m, he⟩ := stageMempoolOrders_spec orders w.coord
      refine ⟨rfl, rfl, fun ht => ?_⟩
      change (w.coord.stageMempoolOrders orders).target ≠ none
      rwa [he]
    | _ => exact absurd hf Bool.noConfusion

omit [Crates] in
theorem emit_feeds {w : World} {c : Channels} {e : ChannelEvent} {d : Section} (hg : c.Guard w e)
    (h : c.emit e = some d) (hd : d.feeds = true) : c.casts = [] ∧
      (e = .stopMining ∨ (∃ snap q dp, e = .reseed snap q dp) ∨ (∃ snap plans, e = .topUp snap plans) ∨
        ∃ orders, e = .stageMempoolOrders orders) := by
  cases e with
  | stopMining => exact ⟨hg, Or.inl rfl⟩
  | reseed snap q dp => exact ⟨hg, Or.inr (Or.inl ⟨snap, q, dp, rfl⟩)⟩
  | topUp snap plans => exact ⟨hg.1, Or.inr (Or.inr (Or.inl ⟨snap, plans, rfl⟩))⟩
  | stageMempoolOrders orders => exact ⟨hg, Or.inr (Or.inr (Or.inr ⟨orders, rfl⟩))⟩
  | advance tx =>
    obtain ⟨s, -, h⟩ := Option.bind_eq_some_iff.mp h
    cases hp : s.phase <;> rw [hp] at h <;> cases h <;> exact absurd hd Bool.noConfusion
  | dispatch tx now =>
    obtain ⟨s, -, h⟩ := Option.bind_eq_some_iff.mp h
    obtain ⟨_, -, rfl⟩ := Option.map_eq_some_iff.mp h
    exact absurd hd Bool.noConfusion
  | capabilities tx caps ids | close tx =>
    obtain ⟨_, -, rfl⟩ := Option.map_eq_some_iff.mp h
    exact absurd hd Bool.noConfusion
  | childExit minerId owned =>
    cases h
    exact absurd hd Bool.noConfusion
  | other e' =>
    cases h
    have hsilent : d.silent = true := hg
    cases d <;> first | exact absurd hd Bool.noConfusion | exact absurd hsilent Bool.noConfusion
  | _ => cases h

theorem seed_channel (params : FeederParams) {x : World × Channels} {e : ChannelEvent}
    (hg : x.2.Guard x.1 e) (hstop : e ≠ .stopMining) (hreseed : ∀ snap q dp, e ≠ .reseed snap q dp) :
    ((channelMachine params).next x e).1.seed = x.1.seed ∧
      ((channelMachine params).next x e).1.generation = x.1.generation ∧
      (x.1.coord.target ≠ none → ((channelMachine params).next x e).1.coord.target ≠ none) := by
  refine Machine.Layer.base_next (P := fun w : World => w.seed = x.1.seed ∧
    w.generation = x.1.generation ∧ (x.1.coord.target ≠ none → w.coord.target ≠ none)) ?_ ?_
  · exact fun _ => ⟨rfl, rfl, id⟩
  · intro d hd
    refine seed_next params x.1 ?_ ?_
    · intro heq
      subst heq
      rcases (emit_feeds hg hd rfl).2 with h | ⟨_, _, _, h⟩ | ⟨_, _, h⟩ | ⟨_, h⟩
      · exact hstop h
      all_goals subst h; cases hd
    · intro snap q dp heq
      subst heq
      rcases (emit_feeds hg hd rfl).2 with h | ⟨_, _, _, h⟩ | ⟨_, _, h⟩ | ⟨_, h⟩
      · subst h; cases hd
      · exact hreseed _ _ _ h
      all_goals subst h; cases hd

theorem required_casts_next {w : World} {c : Channels} {e : ChannelEvent}
    (hreseed : ∀ snap q dp, e ≠ .reseed snap q dp) {b : Broadcast} (hb : b ∈ (c.next w e).casts)
    (hreq : b.required = true) : b ∈ c.casts := by
  cases e with
  | stopMining =>
    simp only [Channels.next] at hb
    split_ifs at hb
    · rw [List.mem_singleton.mp hb] at hreq
      exact absurd hreq Bool.noConfusion
    · exact absurd hb List.not_mem_nil
  | reseed snap q dp => exact absurd rfl (hreseed snap q dp)
  | retarget snap =>
    rw [List.mem_singleton.mp hb] at hreq
    exact absurd hreq Bool.noConfusion
  | delivered => exact List.mem_of_mem_tail hb
  | _ => exact hb

theorem rest_next {w : World} {c : Channels} {e : ChannelEvent}
    (h : c.casts = [] → c.senders = none) (hg : c.Guard w e) :
    (c.next w e).casts = [] → (c.next w e).senders = none := by
  cases e with
  | stopMining | reseed snap q dp => exact fun _ => h hg
  | retarget snap => exact fun _ => h hg.1
  | clone => exact fun hn => absurd hn hg.1
  | deliver tx =>
    intro hn
    obtain ⟨senders, hs, -⟩ := hg
    exact nomatch (h hn).symm.trans hs
  | delivered => exact fun _ => rfl
  | _ => exact h

theorem castInv_next (params : FeederParams) {x : World × Channels} {e : ChannelEvent}
    (hr : x.1.RoundInv) (hgr : x.1.GraphInv) (h : CastInv x)
    (ha : (channelMachine params).allowed x e) : CastInv ((channelMachine params).next x e) := by
  by_cases hstop : e = .stopMining
  · subst hstop
    have hcast : ∀ b ∈ (x.2.next x.1 .stopMining).casts, b.required = false := by
      intro b hb
      by_contra hreq
      have hmem := required_casts_next (by simp) hb (by simpa using hreq)
      have hnil : x.2.casts = [] := ha.1
      rw [hnil] at hmem
      exact absurd hmem List.not_mem_nil
    refine ⟨fun hs => absurd rfl hs, fun hs => absurd rfl hs, fun b hb hreq => ?_, ?_,
      fun _ => h.rest ha.1⟩
    · exact absurd ((hcast b hb).symm.trans hreq) Bool.noConfusion
    · intro hex
      obtain ⟨b, hb, hreq⟩ := hex
      exact absurd ((hcast b hb).symm.trans hreq) Bool.noConfusion
  by_cases hreseed : ∃ snap q dp, e = .reseed snap q dp
  · obtain ⟨snap, q, dp, rfl⟩ := hreseed
    refine ⟨fun _ => Option.some_ne_none _, fun _ => rfl, fun b hb _ => ⟨snap, rfl, hb⟩, ?_,
      fun _ => h.rest ha.1⟩
    intro _ job hj
    exact World.not_live_stopped hr hgr (ha.2 _ rfl).1 hj
  · have hnot : ∀ snap q dp, e ≠ .reseed snap q dp := fun snap q dp he => hreseed ⟨snap, q, dp, he⟩
    obtain ⟨hseed, hgen, htarget⟩ := seed_channel params ha.1 hstop hnot
    refine ⟨fun hs => htarget (h.target (hseed ▸ hs)), fun hs => ?_, fun b hb hreq => ?_, ?_,
      rest_next h.rest ha.1⟩
    · have hre : ((channelMachine params).next x e).2.reseeded = x.2.reseeded := by
        cases e <;> first | rfl | exact absurd rfl (hnot _ _ _)
      rw [hre, hgen]
      exact h.reseeded (hseed ▸ hs)
    · rw [hseed]
      exact h.casts b (required_casts_next hnot hb hreq) hreq
    · intro hex job hj
      obtain ⟨b, hb, hreq⟩ := hex
      have hmem := required_casts_next hnot hb hreq
      refine h.quiet ⟨b, hmem, hreq⟩ job ?_
      revert hj
      change ((x.2.emit e).elim x.1 (x.1.next params)).coord.Live job → _
      cases hd : x.2.emit e with
      | none => exact id
      | some d =>
        cases hf : d.feeds with
        | false => exact (World.next_keeps params x.1 hf).live job
        | true =>
          rw [(emit_feeds ha.1 hd hf).1] at hmem
          exact absurd hmem List.not_mem_nil

end QuipCoordinator
