import QuipCoordinator.Registrations
import QuipCoordinator.RouterPicks
import QuipCoordinator.SessionIsolation

/-!
# Jobs of a miner that is gone

A supervisor reclaims the jobs of a miner when its child exits. The miner stays
registered with the router, and its session's dispatcher still drains the grants
queued on its channel: it marks a job in flight before it sends it, and a failed
send returns nothing. So the jobs of a reclaimed miner stay out of the ledger as
long as such a late drain finds no work.
-/

namespace QuipCoordinator

namespace Router

def HasWork (r : Router) (id : MinerId) : Prop :=
  0 < r.creditsOf id ∧ ∃ job ∈ r.stagedOf id, r.isCapable id job = true

instance (r : Router) (id : MinerId) : Decidable (r.HasWork id) :=
  inferInstanceAs (Decidable (_ ∧ _))

theorem hasWork_of_nextJob {r : Router} {id : MinerId} {job : Job}
    (h : (r.nextJob id).2 = some job) : r.HasWork id := by
  refine nextJobLoop_induct (P := fun r out => ∀ job, out.2 = some job → r.HasWork id)
    ?_ ?_ ?_ _ r job h
  · intro r job h
    cases h
  · intro r q job rest hq hpos hs hc k _
    rw [isCapable_setStaged] at hc
    refine ⟨by rwa [creditsOf_of_lookup hq], job, ?_, hc⟩
    rw [stagedOf_of_lookup hq, hs]
    exact List.mem_cons_self
  · intro r q job rest out hq hpos hs _ ih k hk
    obtain ⟨-, j, hj, hcap⟩ := ih k hk
    have hid := Finmap.mem_of_lookup_eq_some hq
    rw [stagedOf_routeExcluding_self, stagedOf_setStaged r hid, if_pos rfl] at hj
    rw [isCapable_routeExcluding, isCapable_setStaged] at hcap
    refine ⟨by rwa [creditsOf_of_lookup hq], j, ?_, hcap⟩
    rw [stagedOf_of_lookup hq, hs]
    exact List.mem_cons_of_mem _ hj

end Router

namespace CoordinatorState

theorem owner_drain {minerId : MinerId} {now : Nat} (fuel : Nat) {st : CoordinatorState}
    {id : JobId} {m : MinerId} (h : (drain minerId now fuel st).1.inflightOwner.lookup id = some m) :
    st.inflightOwner.lookup id = some m ∨ m = minerId ∧ st.router.HasWork minerId := by
  refine drain_induct (P := fun st out => out.1.inflightOwner.lookup id = some m →
    st.inflightOwner.lookup id = some m ∨ m = minerId ∧ st.router.HasWork minerId) ?_ ?_ ?_ fuel st h
  · exact fun st h => Or.inl h
  · exact fun st r _ h => Or.inl h
  · intro st r job out hnext ih h
    have hwork : st.router.HasWork minerId :=
      Router.hasWork_of_nextJob (congrArg Prod.snd hnext)
    rcases ih h with hold | ⟨rfl, -⟩
    · change (st.inflightOwner.insert job.jobId minerId).lookup id = some m at hold
      rw [Finmap.lookup_insert_eq] at hold
      split_ifs at hold
      · exact Or.inr ⟨(Option.some.inj hold).symm, hwork⟩
      · exact Or.inl hold
    · exact Or.inr ⟨rfl, hwork⟩

theorem owner_dispatchGranted {st : CoordinatorState} {minerId : MinerId} {credits now : Nat}
    {id : JobId} {m : MinerId}
    (h : (st.dispatchGranted minerId credits now).1.inflightOwner.lookup id = some m) :
    st.inflightOwner.lookup id = some m ∨
      m = minerId ∧ (st.router.grantCredits minerId credits).HasWork minerId :=
  owner_drain _ h

theorem owner_cancelInflight {st : CoordinatorState} {g : Nat} {id : JobId} {m : MinerId}
    (h : (st.cancelInflight g).1.inflightOwner.lookup id = some m) :
    st.inflightOwner.lookup id = some m :=
  ((Finmap.lookup_filter_eq_some _ _ _ _).mp h).1

/-- The reclaim leaves the miner no job, and the other miners theirs. -/
theorem owner_childExit {st : CoordinatorState} {minerId : MinerId} {owned : List JobId}
    (ho : st.Owned minerId owned) {id : JobId} {m : MinerId}
    (h : (st.childExit minerId owned).inflightOwner.lookup id = some m) :
    st.inflightOwner.lookup id = some m ∧ m ≠ minerId := by
  change (st.reclaimMiner minerId owned).1.inflightOwner.lookup id = some m at h
  rw [reclaimMiner_eq st minerId ho.1] at h
  change (st.inflightOwner.eraseAll owned).lookup id = some m at h
  by_cases hid : st.inflightOwner.lookup id = some minerId
  · rw [lookup_eraseAll_of_owner ho _ hid] at h
    cases h
  · rw [lookup_eraseAll_owned ho _ hid] at h
    exact ⟨h, fun he => hid (he ▸ h)⟩

theorem owner_noteResult (st : CoordinatorState) (g : Nat) :
    (st.noteResult g).inflightOwner = st.inflightOwner := by
  rw [noteResult]
  split_ifs <;> rfl

end CoordinatorState

section
variable [Crates]
open CoordinatorState

theorem World.owner_next (params : FeederParams) {w : World} {d : Section} (ha : w.Allowed d)
    (hd : ∀ minerId credits now, d ≠ .dispatchGranted minerId credits now) {id : JobId}
    {m : MinerId} (h : (w.next params d).coord.inflightOwner.lookup id = some m) :
    w.coord.inflightOwner.lookup id = some m := by
  cases hf : d.frame with
  | some frame =>
    rw [(World.answers_next params w hf).owner, Finmap.lookup_erase_eq] at h
    split_ifs at h
    exact h
  | none =>
    cases d with
    | dispatchGranted minerId credits now => exact absurd rfl (hd minerId credits now)
    | childExit minerId owned => exact (owner_childExit ha h).1
    | stopMining => exact owner_cancelInflight h
    | topUp snap plans =>
      obtain ⟨router, salts, saltCtr, draws, he⟩ := w.toStaging.topUp_eq params snap plans
      change (w.toStaging.topUp params snap plans).coord.inflightOwner.lookup id = some m at h
      rwa [he] at h
    | stageMempoolOrders orders =>
      obtain ⟨-, r, orders', he⟩ := stageMempoolOrders_spec orders w.coord
      change (w.coord.stageMempoolOrders orders).inflightOwner.lookup id = some m at h
      rwa [he] at h
    | applyCapabilities minerId caps =>
      change (w.coord.applyCapabilities minerId caps).1.inflightOwner.lookup id = some m at h
      rw [applyCapabilities] at h
      split_ifs at h <;> exact h
    | noteResult g =>
      change (w.coord.noteResult g).inflightOwner.lookup id = some m at h
      rwa [owner_noteResult] at h
    | settle o retain =>
      change (w.coord.settle o retain).inflightOwner.lookup id = some m at h
      rw [settle] at h
      split_ifs at h <;> exact h
    | takeResult | rejectJob | handleLeaseDone => cases hf
    | _ => exact h

/-! The record of the supervisors: the sessions there were when a miner was last
reclaimed, until a session that came after it registers the miner again. -/

abbrev Reclaims := Table MinerId (Finset SessionId)

omit [Crates] in
def Reclaims.next (c : Channels) (r : Reclaims) : ChannelEvent → Reclaims
  | .childExit minerId _ => r.insert minerId c.sessions.keys
  | .advance tx => (c.sessions.lookup tx).elim r fun s =>
    if s.phase = .register ∧ ∀ old ∈ r.lookup s.minerId, tx ∉ old then r.erase s.minerId else r
  | _ => r

def reclaimLayer (params : FeederParams) :
    Machine.Layer (channelMachine params) Reclaims ChannelEvent where
  init := ∅
  guard _ _ _ := True
  emit _ _ e := some e
  next x r := r.next x.2

abbrev reclaimMachine (params : FeederParams) :
    Machine ((World × Channels) × Reclaims) ChannelEvent :=
  (reclaimLayer params).machine

instance (params : FeederParams) (x : (World × Channels) × Reclaims) (e : ChannelEvent) :
    Decidable ((reclaimMachine params).allowed x e) :=
  inferInstanceAs (Decidable (True ∧ ∀ d ∈ some e, (channelMachine params).allowed x.1 d))

omit [Crates] in
/-- No job is in flight on a miner that was reclaimed and has no newer session. -/
def NoOrphans (x : (World × Channels) × Reclaims) : Prop :=
  ∀ minerId ∈ x.2, ∀ id, x.1.1.coord.inflightOwner.lookup id ≠ some minerId

omit [Crates] in
/-- The dispatcher of a miner that was reclaimed and has no newer session finds no work. -/
def LateDrainsIdle (x : (World × Channels) × Reclaims) : ChannelEvent → Prop
  | .dispatch tx _ => ∀ s ∈ x.1.2.sessions.lookup tx, s.minerId ∈ x.2 →
    ∀ credits ∈ s.grants.head?, ¬ (x.1.1.coord.router.grantCredits s.minerId credits).HasWork s.minerId
  | _ => True

omit [Crates] in
instance (x : (World × Channels) × Reclaims) : (e : ChannelEvent) → Decidable (LateDrainsIdle x e)
  | .dispatch tx _ => inferInstanceAs (Decidable (∀ s ∈ x.1.2.sessions.lookup tx, s.minerId ∈ x.2 →
      ∀ credits ∈ s.grants.head?,
        ¬ (x.1.1.coord.router.grantCredits s.minerId credits).HasWork s.minerId))
  | .hello _ _ _ _ | .advance _ | .ready _ | .jobRequest _ _ | .send _ | .capabilities _ _ _
  | .close _ | .hangUp _ | .control _ _ | .childExit _ _ | .stopMining | .reseed _ _ _ | .clone
  | .deliver _ | .delivered | .retarget _ | .topUp _ _ | .stageMempoolOrders _ | .other _ =>
    .isTrue trivial

omit [Crates] in
theorem Reclaims.mem_next {c : Channels} {r : Reclaims} {e : ChannelEvent} {m : MinerId}
    (h : m ∈ r.next c e) : m ∈ r ∨ ∃ owned, e = .childExit m owned := by
  cases e with
  | childExit minerId owned =>
    rcases Finmap.mem_insert.mp h with rfl | h
    · exact Or.inr ⟨owned, rfl⟩
    · exact Or.inl h
  | advance tx =>
    simp only [Reclaims.next] at h
    cases hs : c.sessions.lookup tx with
    | none =>
      rw [hs] at h
      exact Or.inl h
    | some s =>
      rw [hs, Option.elim_some] at h
      split_ifs at h
      · exact Or.inl (Finmap.mem_erase.mp h).2
      · exact Or.inl h
  | _ => exact Or.inl h

omit [Crates] in
theorem emit_dispatchGranted {w : World} {c : Channels} {e : ChannelEvent} {minerId : MinerId}
    {credits now : Nat} (hg : c.Guard w e)
    (h : c.emit e = some (.dispatchGranted minerId credits now)) :
    ∃ tx s, e = .dispatch tx now ∧ c.sessions.lookup tx = some s ∧ s.minerId = minerId ∧
      s.grants.head? = some credits := by
  cases e with
  | dispatch tx now' =>
    obtain ⟨s, hs, h⟩ := Option.bind_eq_some_iff.mp h
    obtain ⟨n, hn, h⟩ := Option.map_eq_some_iff.mp h
    cases h
    exact ⟨tx, s, rfl, hs, rfl, hn⟩
  | advance tx =>
    obtain ⟨s, -, h⟩ := Option.bind_eq_some_iff.mp h
    cases hp : s.phase <;> rw [hp] at h <;> cases h
  | other d =>
    cases h
    exact absurd hg Bool.noConfusion
  | capabilities | close =>
    obtain ⟨s, -, h⟩ := Option.map_eq_some_iff.mp h
    cases h
  | _ => cases h

theorem noOrphans_next (params : FeederParams) {x : (World × Channels) × Reclaims}
    {e : ChannelEvent} (h : NoOrphans x) (ha : (channelMachine params).allowed x.1 e)
    (hok : LateDrainsIdle x e) : NoOrphans ((reclaimMachine params).next x e) := by
  intro m hm id hown
  change ((channelMachine params).next x.1 e).1.coord.inflightOwner.lookup id = some m at hown
  -- the miner the supervisor reclaims in this step owns nothing after it
  by_cases hexit : ∃ owned, e = .childExit m owned
  · obtain ⟨owned, rfl⟩ := hexit
    have hdone : (x.1.1.coord.childExit m owned).inflightOwner.lookup id = some m := hown
    exact (owner_childExit (ha.2 (.childExit m owned) rfl) hdone).2 rfl
  have hmem : m ∈ x.2 := (Reclaims.mem_next hm).resolve_right hexit
  revert hown
  refine Machine.Layer.base_next
    (P := fun w : World => w.coord.inflightOwner.lookup id = some m → False) ?_ ?_
  · exact fun _ => h m hmem id
  · intro d (hd : x.1.2.emit e = some d) hown
    by_cases hdis : ∃ minerId credits now, d = .dispatchGranted minerId credits now
    · obtain ⟨minerId, credits, now, rfl⟩ := hdis
      obtain ⟨tx, s, rfl, hs, rfl, hgrant⟩ := emit_dispatchGranted ha.1 hd
      rcases owner_dispatchGranted hown with hold | ⟨rfl, hwork⟩
      · exact h m hmem id hold
      · exact hok s hs hmem credits hgrant hwork
    · refine h m hmem id (World.owner_next params (ha.2 d hd) ?_ hown)
      exact fun minerId credits now heq => hdis ⟨minerId, credits, now, heq⟩

/-- In a run in which the late drains of a reclaimed miner find no work, no job is ever in flight
on a reclaimed miner without a newer session. -/
theorem no_job_in_flight_on_reclaimed_miner (params : FeederParams)
    {x : (World × Channels) × Reclaims}
    (h : ((reclaimMachine params).restrict LateDrainsIdle).Reachable x) :
    ∀ minerId ∈ x.2, ∀ id job, x.1.1.coord.inflight.lookup id = some job →
      x.1.1.coord.inflightOwner.lookup id ≠ some minerId := by
  have hno : NoOrphans x := by
    refine h.invariant (I := NoOrphans) ?_ ?_
    · exact fun _ hm => absurd hm Finmap.notMem_empty
    · intro x e _ hi ha
      exact noOrphans_next params hi (ha.1.2 e rfl) ha.2
  exact fun minerId hm id _ _ => hno minerId hm id

end

namespace Sample

def exited : List ChannelEvent :=
  joined ++ opened ++
    [.jobRequest 0 1, .topUp snap [⟨"a", 0, 1⟩], .hangUp 0, .childExit "a" []]

end Sample

open Sample in
theorem no_job_in_flight_on_reclaimed_miner_sample :
    let x := (reclaimMachine params).run (reclaimMachine params).init
      (joined ++ opened ++ [.topUp snap [⟨"a", 0, 1⟩], .dispatch 0 0, .childExit "a" [jobId]])
    "a" ∈ x.2 ∧ ∀ id job, x.1.1.coord.inflight.lookup id = some job →
      x.1.1.coord.inflightOwner.lookup id ≠ some "a" := by
  refine ⟨by decide +kernel, ?_⟩
  exact no_job_in_flight_on_reclaimed_miner params
    (Machine.reachable_restrict_run (M := reclaimMachine params) _ (by decide +kernel)) "a"
    (by decide +kernel)

open Sample in
/-- The dispatcher of the dead session drains the grant, and its send fails. -/
theorem late_drain_orphans_job :
    let es := exited ++ [.dispatch 0 0, .send 0, .close 0]
    let x := (reclaimMachine params).run (reclaimMachine params).init es
    (reclaimMachine params).Reachable x ∧ "a" ∈ x.2 ∧
      (x.1.1.coord.inflight.lookup jobId).isSome = true ∧
      x.1.1.coord.inflightOwner.lookup jobId = some "a" :=
  ⟨Machine.reachable_run (M := reclaimMachine params) _ (by decide +kernel), by decide +kernel,
    by decide +kernel, by decide +kernel⟩

end QuipCoordinator
