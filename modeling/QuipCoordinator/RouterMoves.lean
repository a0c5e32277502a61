import QuipCoordinator.Router

/-!
# What each router operation does to the queues

One lemma for each operation says what it leaves on a queue and in a credit
pool. `Staged` is membership in some queue: every operation other than routing
and staging only moves or drops jobs.
-/

namespace QuipCoordinator.Router

def Staged (r : Router) (job : Job) : Prop := ∃ id, job ∈ r.stagedOf id

theorem mem_miners_of_mem_stagedOf {r : Router} {id : MinerId} {job : Job}
    (h : job ∈ r.stagedOf id) : id ∈ r.miners := by
  by_contra hn
  rw [stagedOf, Finmap.lookup_eq_none.mpr hn] at h
  exact List.not_mem_nil h

theorem lookup_update (r : Router) (id id' : MinerId) (f : MinerQueue → MinerQueue) :
    (r.update id f).miners.lookup id' =
      if id' = id then (r.miners.lookup id').map f else r.miners.lookup id' :=
  Finmap.lookup_modify id id' f r.miners

@[simp] theorem mem_update (r : Router) (id id' : MinerId) (f : MinerQueue → MinerQueue) :
    id' ∈ (r.update id f).miners ↔ id' ∈ r.miners := Finmap.mem_modify id id' f r.miners

@[simp] theorem keys_update (r : Router) (id : MinerId) (f : MinerQueue → MinerQueue) :
    (r.update id f).miners.keys = r.miners.keys := Finmap.keys_modify id f r.miners

theorem stagedOf_update_of_ne {id id' : MinerId} (h : id' ≠ id) (r : Router)
    (f : MinerQueue → MinerQueue) : (r.update id f).stagedOf id' = r.stagedOf id' := by
  rw [stagedOf, lookup_update, if_neg h, stagedOf]

theorem stagedOf_update_self {id : MinerId} {r : Router} (f : MinerQueue → MinerQueue)
    {q : MinerQueue} (hq : r.miners.lookup id = some q) :
    (r.update id f).stagedOf id = (f q).staged := by
  rw [stagedOf, lookup_update, if_pos rfl, hq]
  rfl

theorem stagedOf_update {f : MinerQueue → MinerQueue} (hf : ∀ q, (f q).staged = q.staged)
    (r : Router) (id id' : MinerId) : (r.update id f).stagedOf id' = r.stagedOf id' := by
  rw [stagedOf, lookup_update, stagedOf]
  split_ifs with h
  · cases r.miners.lookup id' with
    | none => rfl
    | some q => exact hf q
  · rfl

theorem creditsOf_update {f : MinerQueue → MinerQueue}
    (hf : ∀ q, (f q).grantedCredits = q.grantedCredits) (r : Router) (id id' : MinerId) :
    (r.update id f).creditsOf id' = r.creditsOf id' := by
  rw [creditsOf, lookup_update, creditsOf]
  split_ifs with h
  · cases r.miners.lookup id' with
    | none => rfl
    | some q => exact hf q
  · rfl

def SameQueues (r r' : Router) : Prop :=
  ∀ id, r'.stagedOf id = r.stagedOf id ∧ r'.creditsOf id = r.creditsOf id

theorem SameQueues.refl (r : Router) : r.SameQueues r := fun _ => ⟨rfl, rfl⟩

theorem SameQueues.trans {r r' r'' : Router} (h : r.SameQueues r') (h' : r'.SameQueues r'') :
    r.SameQueues r'' :=
  fun id => ⟨(h' id).1.trans (h id).1, (h' id).2.trans (h id).2⟩

theorem sameQueues_update {f : MinerQueue → MinerQueue}
    (hf : ∀ q, (f q).staged = q.staged ∧ (f q).grantedCredits = q.grantedCredits) (r : Router)
    (id : MinerId) : r.SameQueues (r.update id f) :=
  fun id' => ⟨stagedOf_update (fun q => (hf q).1) r id id',
    creditsOf_update (fun q => (hf q).2) r id id'⟩

theorem sameQueues_recordCompletion (r : Router) (id : MinerId) :
    r.SameQueues (r.recordCompletion id) :=
  sameQueues_update (by intro q; exact ⟨rfl, rfl⟩) r id

theorem sameQueues_recordLeaseSalts (r : Router) (id : MinerId) (salts : Nat) :
    r.SameQueues (r.recordLeaseSalts id salts) :=
  sameQueues_update (by intro q; exact ⟨rfl, rfl⟩) r id

theorem sameQueues_recordRoundSalts (r : Router) (id : MinerId) (salts : Nat) :
    r.SameQueues (r.recordRoundSalts id salts) :=
  sameQueues_update (by intro q; exact ⟨rfl, rfl⟩) r id

theorem creditsOf_update_of_ne {id id' : MinerId} (h : id' ≠ id) (r : Router)
    (f : MinerQueue → MinerQueue) : (r.update id f).creditsOf id' = r.creditsOf id' := by
  rw [creditsOf, lookup_update, if_neg h, creditsOf]

theorem creditsOf_update_self {id : MinerId} {r : Router} (f : MinerQueue → MinerQueue)
    {q : MinerQueue} (hq : r.miners.lookup id = some q) :
    (r.update id f).creditsOf id = (f q).grantedCredits := by
  rw [creditsOf, lookup_update, if_pos rfl, hq]
  rfl

theorem stagedOf_pushStaged (r : Router) {id : MinerId} (hid : id ∈ r.miners) (job : Job)
    (id' : MinerId) : (r.pushStaged id job).stagedOf id' =
      if id' = id then r.stagedOf id' ++ [job] else r.stagedOf id' := by
  split_ifs with h
  · obtain ⟨q, hq⟩ := Finmap.mem_iff.mp hid
    subst h
    rw [pushStaged, stagedOf_update_self _ hq, stagedOf, hq]
    rfl
  · exact stagedOf_update_of_ne h r _

@[simp] theorem creditsOf_pushStaged (r : Router) (id : MinerId) (job : Job) (id' : MinerId) :
    (r.pushStaged id job).creditsOf id' = r.creditsOf id' :=
  creditsOf_update (by intro q; rfl) r id id'

theorem staged_pushStaged {r : Router} {id : MinerId} {job k : Job}
    (h : (r.pushStaged id job).Staged k) : r.Staged k ∨ k = job := by
  obtain ⟨id', hk⟩ := h
  have hid' : id' ∈ r.miners := by
    simpa only [pushStaged, mem_update] using mem_miners_of_mem_stagedOf hk
  by_cases hid : id ∈ r.miners
  · rw [stagedOf_pushStaged r hid] at hk
    split_ifs at hk with he
    · rcases List.mem_append.mp hk with hk | hk
      · exact Or.inl ⟨id', hk⟩
      · exact Or.inr (List.mem_singleton.mp hk)
    · exact Or.inl ⟨id', hk⟩
  · have hne : id' ≠ id := fun he => hid (he ▸ hid')
    rw [pushStaged, stagedOf_update_of_ne hne] at hk
    exact Or.inl ⟨id', hk⟩

theorem isCapable_mem {r : Router} {id : MinerId} {job : Job} (h : r.isCapable id job = true) :
    id ∈ r.miners := by
  by_contra hn
  rw [isCapable, Finmap.lookup_eq_none.mpr hn] at h
  exact Bool.false_ne_true h

theorem routeExcluding_cases (r : Router) (job : Job) (exclude : Option MinerId) :
    (∃ id, id ∈ r.miners ∧ exclude ≠ some id ∧ r.isCapable id job = true ∧
      r.routeExcluding job exclude = (r.pushStaged id job, some id)) ∨
    ((∀ id, exclude ≠ some id → r.isCapable id job = false) ∧
      r.routeExcluding job exclude = ({ r with unroutable := r.unroutable ++ [job] }, none)) := by
  unfold routeExcluding
  by_cases h : (r.candidates job exclude).Nonempty
  · left
    have hm := Finset.min'_mem _ h
    obtain ⟨hk, hne, hc⟩ := Finset.mem_filter.mp hm
    exact ⟨_, Finmap.mem_keys.mp hk, hne, hc, dif_pos h⟩
  · right
    refine ⟨?_, dif_neg h⟩
    intro id hne
    by_contra hc
    have hc' : r.isCapable id job = true := by simpa using hc
    exact h ⟨id, Finset.mem_filter.mpr
      ⟨Finmap.mem_keys.mpr (isCapable_mem hc'), hne, hc'⟩⟩

theorem mem_routeExcluding (r : Router) (job : Job) (exclude : Option MinerId) (id : MinerId) :
    id ∈ (r.routeExcluding job exclude).1.miners ↔ id ∈ r.miners := by
  rcases routeExcluding_cases r job exclude with ⟨i, -, -, -, h⟩ | ⟨-, h⟩ <;> rw [h]
  exact mem_update r i id _

theorem stagedOf_routeExcluding_self (r : Router) (job : Job) (id : MinerId) :
    (r.routeExcluding job (some id)).1.stagedOf id = r.stagedOf id := by
  rcases routeExcluding_cases r job (some id) with ⟨i, -, hne, -, h⟩ | ⟨-, h⟩ <;> rw [h]
  · exact stagedOf_update_of_ne (fun he => hne (congrArg some he)) r _
  · rfl

@[simp] theorem creditsOf_routeExcluding (r : Router) (job : Job) (exclude : Option MinerId)
    (id : MinerId) : (r.routeExcluding job exclude).1.creditsOf id = r.creditsOf id := by
  rcases routeExcluding_cases r job exclude with ⟨i, -, -, -, h⟩ | ⟨-, h⟩ <;> rw [h]
  · exact creditsOf_pushStaged r i job id
  · rfl

theorem staged_routeExcluding {r : Router} {job k : Job} {exclude : Option MinerId}
    (h : (r.routeExcluding job exclude).1.Staged k) : r.Staged k ∨ k = job := by
  rcases routeExcluding_cases r job exclude with ⟨i, -, -, -, hr⟩ | ⟨-, hr⟩ <;> rw [hr] at h
  · exact staged_pushStaged h
  · exact Or.inl h

theorem stagedOf_setStaged (r : Router) {id : MinerId} (hid : id ∈ r.miners) (jobs : List Job)
    (id' : MinerId) :
    (r.setStaged id jobs).stagedOf id' = if id' = id then jobs else r.stagedOf id' := by
  split_ifs with h
  · obtain ⟨q, hq⟩ := Finmap.mem_iff.mp hid
    subst h
    exact stagedOf_update_self _ hq
  · exact stagedOf_update_of_ne h r _

@[simp] theorem creditsOf_setStaged (r : Router) (id : MinerId) (jobs : List Job) (id' : MinerId) :
    (r.setStaged id jobs).creditsOf id' = r.creditsOf id' :=
  creditsOf_update (by intro q; rfl) r id id'

theorem staged_setStaged {r : Router} {id : MinerId} {jobs : List Job} {k : Job}
    (hsub : ∀ j ∈ jobs, r.Staged j) (h : (r.setStaged id jobs).Staged k) : r.Staged k := by
  obtain ⟨id', hk⟩ := h
  by_cases hid : id ∈ r.miners
  · rw [stagedOf_setStaged r hid] at hk
    split_ifs at hk with he
    · exact hsub k hk
    · exact ⟨id', hk⟩
  · have hmem := mem_miners_of_mem_stagedOf hk
    have hne : id' ≠ id := by
      intro he
      subst he
      exact hid (by simpa only [setStaged, mem_update] using hmem)
    exact ⟨id', by rwa [setStaged, stagedOf_update_of_ne hne] at hk⟩

@[simp] theorem stagedOf_spendCredit (r : Router) (id id' : MinerId) :
    (r.spendCredit id).stagedOf id' = r.stagedOf id' :=
  stagedOf_update (by intro q; rfl) r id id'

theorem staged_congr {r r' : Router} (h : ∀ id, r'.stagedOf id = r.stagedOf id) (k : Job) :
    r'.Staged k ↔ r.Staged k := by
  simp only [Staged, h]

/-- The induction on the dispatch loop: it stops, it hands out the front job, or it routes the
front job away and goes on. -/
theorem nextJobLoop_induct {id : MinerId} {P : Router → Router × Option Job → Prop}
    (stop : ∀ r, P r (r, none))
    (take : ∀ r q job rest, r.miners.lookup id = some q → 0 < q.grantedCredits →
      q.staged = job :: rest → (r.setStaged id rest).isCapable id job = true →
      P r ((r.setStaged id rest).spendCredit id, some job))
    (skip : ∀ r q job rest out, r.miners.lookup id = some q → 0 < q.grantedCredits →
      q.staged = job :: rest → (r.setStaged id rest).isCapable id job = false →
      P ((r.setStaged id rest).routeExcluding job (some id)).1 out → P r out)
    (fuel : Nat) (r : Router) : P r (nextJobLoop id fuel r) := by
  induction fuel generalizing r with
  | zero => exact stop r
  | succ fuel ih =>
    rw [nextJobLoop]
    cases hq : r.miners.lookup id with
    | none => exact stop r
    | some q =>
      dsimp only
      split_ifs with h0
      · exact stop r
      · have hpos : 0 < q.grantedCredits := Nat.pos_of_ne_zero h0
        cases hs : q.staged with
        | nil => exact stop r
        | cons job rest =>
          dsimp only
          split_ifs with hc
          · exact take r q job rest hq hpos hs hc
          · exact skip r q job rest _ hq hpos hs (by simpa using hc) (ih _)

theorem stagedOf_of_lookup {r : Router} {id : MinerId} {q : MinerQueue}
    (h : r.miners.lookup id = some q) : r.stagedOf id = q.staged := by
  rw [stagedOf, h]
  rfl

theorem creditsOf_of_lookup {r : Router} {id : MinerId} {q : MinerQueue}
    (h : r.miners.lookup id = some q) : r.creditsOf id = q.grantedCredits := by
  rw [creditsOf, h]
  rfl

theorem stagedLen_skip {r : Router} {id : MinerId} {q : MinerQueue} {job : Job} {rest : List Job}
    (hq : r.miners.lookup id = some q) (hs : q.staged = job :: rest) :
    ((r.setStaged id rest).routeExcluding job (some id)).1.stagedLen id + 1 = r.stagedLen id := by
  have hid := Finmap.mem_of_lookup_eq_some hq
  rw [stagedLen, stagedOf_routeExcluding_self, stagedOf_setStaged r hid, if_pos rfl, stagedLen,
    stagedOf_of_lookup hq, hs, List.length_cons]

theorem nextJobLoop_fuel {id : MinerId} {n m : Nat} {r : Router} (hn : r.stagedLen id < n)
    (hm : r.stagedLen id < m) : nextJobLoop id n r = nextJobLoop id m r := by
  induction n generalizing m r with
  | zero => omega
  | succ n ih =>
    obtain ⟨m, rfl⟩ : ∃ k, m = k + 1 := ⟨m - 1, by omega⟩
    rw [nextJobLoop, nextJobLoop]
    cases hq : r.miners.lookup id with
    | none => rfl
    | some q =>
      dsimp only
      split_ifs with h0
      · rfl
      · cases hs : q.staged with
        | nil => rfl
        | cons job rest =>
          have hlen := stagedLen_skip hq hs
          dsimp only
          split_ifs with hc
          · rfl
          · exact ih (by omega) (by omega)

/-- The loop of the source, unfolded once: a job the miner cannot take is routed away and the
loop goes on. -/
theorem nextJob_eq (r : Router) (id : MinerId) :
    r.nextJob id =
      match r.miners.lookup id with
      | none => (r, none)
      | some q =>
        if q.grantedCredits = 0 then (r, none)
        else
          match q.staged with
          | [] => (r, none)
          | job :: rest =>
            if (r.setStaged id rest).isCapable id job then
              ((r.setStaged id rest).spendCredit id, some job)
            else nextJob ((r.setStaged id rest).routeExcluding job (some id)).1 id := by
  rw [nextJob, nextJobLoop]
  cases hq : r.miners.lookup id with
  | none => rfl
  | some q =>
    dsimp only
    split_ifs with h0
    · rfl
    · cases hs : q.staged with
      | nil => rfl
      | cons job rest =>
        have hlen := stagedLen_skip hq hs
        dsimp only
        split_ifs with hc
        · rfl
        · exact nextJobLoop_fuel (by omega) (Nat.lt_succ_self _)

theorem staged_popped {r : Router} {id : MinerId} {q : MinerQueue} {job k : Job} {rest : List Job}
    (hq : r.miners.lookup id = some q) (hs : q.staged = job :: rest)
    (h : (r.setStaged id rest).Staged k) : r.Staged k := by
  refine staged_setStaged (fun j hj => ⟨id, ?_⟩) h
  rw [stagedOf_of_lookup hq, hs]
  exact List.mem_cons_of_mem _ hj

theorem nextJob_moves (r : Router) (id : MinerId) :
    (∀ k, (r.nextJob id).1.Staged k → r.Staged k) ∧
      ∀ job, (r.nextJob id).2 = some job → r.Staged job := by
  refine nextJobLoop_induct (P := fun r out =>
    (∀ k, out.1.Staged k → r.Staged k) ∧ ∀ job, out.2 = some job → r.Staged job) ?_ ?_ ?_ _ r
  · intro r
    exact ⟨fun k h => h, fun job h => by cases h⟩
  · intro r q job rest hq _ hs _
    refine ⟨fun k h => ?_, fun j hj => ?_⟩
    · exact staged_popped hq hs ((staged_congr (stagedOf_spendCredit _ id) k).mp h)
    · cases hj
      exact ⟨id, by rw [stagedOf_of_lookup hq, hs]; exact List.mem_cons_self⟩
  · intro r q job rest out hq _ hs _ ih
    have hback : ∀ k, ((r.setStaged id rest).routeExcluding job (some id)).1.Staged k →
        r.Staged k := by
      intro k hk
      rcases staged_routeExcluding hk with hk | rfl
      · exact staged_popped hq hs hk
      · exact ⟨id, by rw [stagedOf_of_lookup hq, hs]; exact List.mem_cons_self⟩
    exact ⟨fun k h => hback k (ih.1 k h), fun j hj => hback j (ih.2 j hj)⟩

@[simp] theorem stagedOf_registerMiner (r : Router) (id : MinerId) (caps : MinerCaps)
    (id' : MinerId) : (r.registerMiner id caps).stagedOf id' = r.stagedOf id' := by
  unfold registerMiner
  by_cases h : id' = id
  · subst h
    cases hq : r.miners.lookup id' with
    | none => simp only [stagedOf, Finmap.lookup_insert, hq]; rfl
    | some q => simp only [stagedOf, Finmap.lookup_insert, hq]; rfl
  · cases hq : r.miners.lookup id <;>
      simp only [stagedOf, Finmap.lookup_insert_of_ne _ h]

theorem creditsOf_registerMiner (r : Router) (id : MinerId) (caps : MinerCaps) (id' : MinerId) :
    (r.registerMiner id caps).creditsOf id' = if id' = id then 0 else r.creditsOf id' := by
  unfold registerMiner
  split_ifs with h
  · subst h
    cases hq : r.miners.lookup id' <;> simp only [creditsOf, Finmap.lookup_insert] <;> rfl
  · cases hq : r.miners.lookup id <;>
      simp only [creditsOf, Finmap.lookup_insert_of_ne _ h]

theorem mem_registerMiner (r : Router) (id : MinerId) (caps : MinerCaps) (id' : MinerId) :
    id' ∈ (r.registerMiner id caps).miners ↔ id' = id ∨ id' ∈ r.miners := by
  unfold registerMiner
  cases hq : r.miners.lookup id <;> simp only [Finmap.mem_insert]

theorem mem_restage (r : Router) (id : MinerId) (job : Job) (id' : MinerId) :
    id' ∈ (restage id r job).miners ↔ id' ∈ r.miners := by
  unfold restage
  split_ifs
  · exact mem_update r id id' _
  · exact mem_routeExcluding r job (some id) id'

@[simp] theorem creditsOf_restage (r : Router) (id : MinerId) (job : Job) (id' : MinerId) :
    (restage id r job).creditsOf id' = r.creditsOf id' := by
  unfold restage
  split_ifs
  · exact creditsOf_pushStaged r id job id'
  · exact creditsOf_routeExcluding r job (some id) id'

theorem staged_restage {r : Router} {id : MinerId} {job k : Job}
    (h : (restage id r job).Staged k) : r.Staged k ∨ k = job := by
  unfold restage at h
  split_ifs at h
  · exact staged_pushStaged h
  · exact staged_routeExcluding h

theorem staged_foldl_restage {id : MinerId} {k : Job} (jobs : List Job) {r : Router}
    (h : (jobs.foldl (restage id) r).Staged k) : r.Staged k ∨ k ∈ jobs := by
  induction jobs generalizing r with
  | nil => exact Or.inl h
  | cons job jobs ih =>
    rcases ih h with h | h
    · rcases staged_restage h with h | rfl
      · exact Or.inl h
      · exact Or.inr List.mem_cons_self
    · exact Or.inr (List.mem_cons_of_mem _ h)

def emptied (r : Router) (id : MinerId) (caps : MinerCaps) : Router :=
  r.update id fun q => { q with caps := caps, unsupportedKinds := ∅, staged := [] }

theorem updateCapabilities_eq (r : Router) (id : MinerId) (caps : MinerCaps) :
    r.updateCapabilities id caps =
      if id ∈ r.miners then ((r.stagedOf id).foldl (restage id) (r.emptied id caps), true)
      else (r, false) := by
  unfold updateCapabilities
  cases hq : r.miners.lookup id with
  | none => rw [if_neg (Finmap.lookup_eq_none.mp hq)]
  | some q => rw [if_pos (Finmap.mem_of_lookup_eq_some hq), stagedOf_of_lookup hq]; rfl

theorem stagedOf_emptied (r : Router) {id : MinerId} (hid : id ∈ r.miners) (caps : MinerCaps)
    (id' : MinerId) : (r.emptied id caps).stagedOf id' = if id' = id then [] else r.stagedOf id' := by
  split_ifs with h
  · obtain ⟨q, hq⟩ := Finmap.mem_iff.mp hid
    subst h
    exact stagedOf_update_self _ hq
  · exact stagedOf_update_of_ne h r _

theorem staged_updateCapabilities {r : Router} {id : MinerId} {caps : MinerCaps} {k : Job}
    (h : (r.updateCapabilities id caps).1.Staged k) : r.Staged k := by
  rw [updateCapabilities_eq] at h
  split_ifs at h with hid
  · rcases staged_foldl_restage _ h with ⟨id', hk⟩ | hk
    · rw [stagedOf_emptied r hid] at hk
      split_ifs at hk
      · exact absurd hk List.not_mem_nil
      · exact ⟨id', hk⟩
    · exact ⟨id, hk⟩
  · exact h

theorem creditsOf_foldl_restage (id : MinerId) (jobs : List Job) (r : Router) (id' : MinerId) :
    (jobs.foldl (restage id) r).creditsOf id' = r.creditsOf id' := by
  induction jobs generalizing r with
  | nil => rfl
  | cons job jobs ih => exact (ih _).trans (creditsOf_restage r id job id')

@[simp] theorem creditsOf_updateCapabilities (r : Router) (id : MinerId) (caps : MinerCaps)
    (id' : MinerId) : (r.updateCapabilities id caps).1.creditsOf id' = r.creditsOf id' := by
  rw [updateCapabilities_eq]
  split_ifs
  · exact (creditsOf_foldl_restage id _ _ id').trans
      (creditsOf_update (by intro q; rfl) r id id')
  · rfl

def marked (r : Router) (id : MinerId) (job : Job) (reason : RejectReason) : Router :=
  if reason = .unsupportedKind then
    r.update id fun q => { q with unsupportedKinds := insert job.kind q.unsupportedKinds }
  else r

theorem onReject_eq (r : Router) (id : MinerId) (job : Job) (reason : RejectReason) :
    r.onReject id job reason = ((r.marked id job reason).routeExcluding job (some id)).1 := rfl

@[simp] theorem stagedOf_marked (r : Router) (id : MinerId) (job : Job) (reason : RejectReason)
    (id' : MinerId) : (r.marked id job reason).stagedOf id' = r.stagedOf id' := by
  unfold marked
  split_ifs
  · exact stagedOf_update (by intro q; rfl) r id id'
  · rfl

@[simp] theorem creditsOf_onReject (r : Router) (id : MinerId) (job : Job) (reason : RejectReason)
    (id' : MinerId) : (r.onReject id job reason).creditsOf id' = r.creditsOf id' := by
  rw [onReject_eq, creditsOf_routeExcluding, marked]
  split_ifs
  · exact creditsOf_update (by intro q; rfl) r id id'
  · rfl

theorem staged_onReject {r : Router} {id : MinerId} {job k : Job} {reason : RejectReason}
    (h : (r.onReject id job reason).Staged k) : r.Staged k ∨ k = job := by
  rw [onReject_eq] at h
  rcases staged_routeExcluding h with h | h
  · exact Or.inl ((staged_congr (stagedOf_marked r id job reason) k).mp h)
  · exact Or.inr h

theorem stagedOf_cancel (r : Router) (g : Nat) (id : MinerId) :
    (r.cancel g).1.stagedOf id = (r.stagedOf id).filter (keepsUnder g) := by
  simp only [cancel, stagedOf, Finmap.lookup_mapValues]
  cases r.miners.lookup id <;> rfl

@[simp] theorem creditsOf_cancel (r : Router) (g : Nat) (id : MinerId) :
    (r.cancel g).1.creditsOf id = r.creditsOf id := by
  simp only [cancel, creditsOf, Finmap.lookup_mapValues]
  cases r.miners.lookup id <;> rfl

theorem staged_cancel {r : Router} {g : Nat} {k : Job} :
    (r.cancel g).1.Staged k ↔ r.Staged k ∧ keepsUnder g k = true := by
  simp only [Staged, stagedOf_cancel, List.mem_filter]
  constructor
  · intro hex
    obtain ⟨id, hk, hg⟩ := hex
    exact ⟨⟨id, hk⟩, hg⟩
  · intro hex
    obtain ⟨⟨id, hk⟩, hg⟩ := hex
    exact ⟨id, hk, hg⟩

@[simp] theorem reclaim_snd (r : Router) (id : MinerId) : (r.reclaim id).2 = r.stagedOf id := by
  unfold reclaim
  cases hq : r.miners.lookup id with
  | none => rw [stagedOf, hq]; rfl
  | some q => exact (stagedOf_of_lookup hq).symm

theorem stagedOf_reclaim (r : Router) (id id' : MinerId) :
    (r.reclaim id).1.stagedOf id' = if id' = id then [] else r.stagedOf id' := by
  unfold reclaim
  split_ifs with h
  · subst h
    cases hq : r.miners.lookup id' with
    | none => simp only [stagedOf, hq]; rfl
    | some q => exact stagedOf_update_self _ hq
  · cases hq : r.miners.lookup id with
    | none => rfl
    | some q => exact stagedOf_update_of_ne h r _

theorem creditsOf_reclaim (r : Router) (id id' : MinerId) :
    (r.reclaim id).1.creditsOf id' = if id' = id then 0 else r.creditsOf id' := by
  unfold reclaim
  split_ifs with h
  · subst h
    cases hq : r.miners.lookup id' with
    | none => simp only [creditsOf, hq]; rfl
    | some q => exact creditsOf_update_self _ hq
  · cases hq : r.miners.lookup id with
    | none => rfl
    | some q => exact creditsOf_update_of_ne h r _

theorem mem_reclaim (r : Router) (id id' : MinerId) :
    id' ∈ (r.reclaim id).1.miners ↔ id' ∈ r.miners := by
  unfold reclaim
  cases r.miners.lookup id with
  | none => rfl
  | some q => exact mem_update r id id' _

theorem stageOn_eq (r : Router) (id : MinerId) (job : Job) :
    (r.isCapable id job = true ∧ r.stageOn id job = (r.pushStaged id job, true)) ∨
      (r.isCapable id job = false ∧ r.stageOn id job = (r, false)) := by
  unfold stageOn
  cases h : r.isCapable id job
  · exact Or.inr ⟨rfl, if_neg Bool.false_ne_true⟩
  · exact Or.inl ⟨rfl, if_pos rfl⟩

@[simp] theorem creditsOf_stageOn (r : Router) (id : MinerId) (job : Job) (id' : MinerId) :
    (r.stageOn id job).1.creditsOf id' = r.creditsOf id' := by
  rcases stageOn_eq r id job with ⟨-, h⟩ | ⟨-, h⟩ <;> rw [h]
  exact creditsOf_pushStaged r id job id'

theorem staged_stageOn {r : Router} {id : MinerId} {job k : Job}
    (h : (r.stageOn id job).1.Staged k) :
    r.Staged k ∨ (k = job ∧ (r.stageOn id job).2 = true) := by
  rcases stageOn_eq r id job with ⟨-, he⟩ | ⟨-, he⟩ <;> rw [he] at h ⊢
  · rcases staged_pushStaged h with h | h
    · exact Or.inl h
    · exact Or.inr ⟨h, rfl⟩
  · exact Or.inl h

end QuipCoordinator.Router
