import Hiredispool.Config.Lifetime

/-!
# Pools and the endpoints they were created from

`getRedisClient` copies the `Meta` of a database under `metaMutex` and creates
the pool under `instMutex`. In between, an event can change the endpoints, and
its `deleteInst` finds no pool yet; the pool that is created then has endpoints
that the database no longer has, and stays.

* `stale_pool_survives`: a run in which this happens.
* `no_stale_pool`: no pool is stale if and only if no `createInst` creates one
  from a `Meta` whose endpoints have changed.
-/

namespace Hiredispool.Config

open Hiredispool.Pool

/-! ## Stale pools -/

/-- The pool `p` was created from the endpoints that `dbname` has now. -/
def Store.Fresh (s : Store) (dbname : Bytes) (p : ℕ) : Prop :=
  ∃ m, s.findMeta dbname = some m ∧ (s.obj p).conf.endpoints = m.endpoints

/-- An event is about to call `deleteInst(dbname)`. -/
def Sys.Evicting (s : Sys) (dbname : Bytes) : Prop := ∃ t e rest, s.pc t = .evict e dbname rest

/-- Every pool in `instMap` is fresh, or will be deleted by the event that made it
    stale. -/
def Sys.Coherent (s : Sys) : Prop :=
  ∀ db p, s.store.instMap db = some p → s.store.Fresh db p ∨ s.Evicting db

/-- In `getRedisClient`, `onAddServer` or `onRemoveServer`. -/
def Pc.inConfig : Pc → Bool
  | .findInst _ | .findMeta _ | .createInst _ _ | .loop _ _ | .evict _ _ _ => true
  | _ => false

/-- No such call is in progress. -/
def Sys.Quiescent (s : Sys) : Prop := ∀ t, (s.pc t).inConfig = false

/-- The step creates a pool for `db` from `m` (lines 173–177). -/
inductive Creates (dbname : ℕ → Bytes) (s : Sys) : Action → Bytes → Meta → Prop
  | createInst {t o : ℕ} {m : Meta} : s.pc t = .createInst o m →
      s.store.instMap (dbname o) = none → (checkConfig m.toConf).isSome = true →
      Creates dbname s (.step t true) (dbname o) m

/-- If the step creates a pool, then from the endpoints that the database has now,
    or before the `deleteInst` of the event that has changed them. -/
def UpToDate (dbname : ℕ → Bytes) (s : Sys) (a : Action) : Prop :=
  ∀ db m, Creates dbname s a db m →
    (∃ m', s.store.findMeta db = some m' ∧ m'.endpoints = m.endpoints) ∨ s.Evicting db

/-! ## The steps -/

section Step

variable {dbname : ℕ → Bytes} {s s' : Sys} {a : Action} {t : ℕ} {st : Store} {x : Pc}

theorem Sys.Coherent.fresh (h : s.Coherent) (hq : s.Quiescent) {db : Bytes} {p : ℕ}
    (hp : s.store.instMap db = some p) : s.store.Fresh db p := by
  rcases h db p hp with hf | ⟨t, e, rest, hpc⟩
  · exact hf
  · have := hq t
    rw [hpc] at this
    cases this

theorem Store.Fresh.congr {s s' : Store} {db : Bytes} {p : ℕ} (h : s.Fresh db p)
    (hm : ∀ m, s.findMeta db = some m → s'.findMeta db = some m)
    (hc : (s'.obj p).conf = (s.obj p).conf) : s'.Fresh db p := by
  obtain ⟨m, hfind, he⟩ := h
  exact ⟨m, hm m hfind, by rw [hc, he]⟩

theorem Sys.Evicting.put {db : Bytes} (h : s.Evicting db)
    (ht : ∀ e rest, s.pc t ≠ .evict e db rest) : (s.put t (st, x)).Evicting db := by
  obtain ⟨u, e, rest, hu⟩ := h
  have hne : u ≠ t := by rintro rfl; exact ht e rest hu
  exact ⟨u, e, rest, by rw [Sys.put_pc_of_ne _ _ _ hne, hu]⟩

/-- A step that changes no endpoints, creates no pool and deletes none. -/
theorem Sys.Coherent.keep (h : s.Coherent) (hi : st.instMap = s.store.instMap)
    (hm : ∀ db m, s.store.findMeta db = some m → st.findMeta db = some m)
    (hc : ∀ p, (st.obj p).conf = (s.store.obj p).conf)
    (ht : ∀ e db rest, s.pc t ≠ .evict e db rest) : (s.put t (st, x)).Coherent := by
  intro db p hp
  rw [Sys.put_store, hi] at hp
  rcases h db p hp with hf | he
  · exact Or.inl (hf.congr (hm db) (hc p))
  · exact Or.inr (he.put fun e rest => ht e db rest)

/-- A step that puts the pool `p`, created from `m`, into `instMap`. -/
theorem Sys.Coherent.put_iff {d : Bytes} {p : ℕ} {m : Meta} (h : s.Coherent)
    (hi : st.instMap = Function.update s.store.instMap d (some p))
    (hm : ∀ db, st.findMeta db = s.store.findMeta db) (hp : (st.obj p).conf = m)
    (hc : ∀ db' q, s.store.instMap db' = some q → (st.obj q).conf = (s.store.obj q).conf)
    (ht : ∀ e db rest, s.pc t ≠ .evict e db rest) (hx : ∀ e db rest, x ≠ .evict e db rest) :
    (s.put t (st, x)).Coherent ↔
      (∃ m', s.store.findMeta d = some m' ∧ m'.endpoints = m.endpoints) ∨ s.Evicting d := by
  constructor
  · intro h'
    have hself : st.instMap d = some p := by rw [hi, Function.update_self]
    rcases h' d p hself with ⟨m', hm', he⟩ | ⟨u, e, rest, hu⟩
    · rw [Sys.put_store] at hm' he
      rw [hp] at he
      exact Or.inl ⟨m', (hm d).symm.trans hm', he.symm⟩
    · have hne : u ≠ t := by
        rintro rfl
        rw [Sys.put_pc_self] at hu
        exact hx e d rest hu
      rw [Sys.put_pc_of_ne _ _ _ hne] at hu
      exact Or.inr ⟨u, e, rest, hu⟩
  · intro hnew db' q hq
    rw [Sys.put_store, hi] at hq
    by_cases hd : db' = d
    · subst hd
      rw [Function.update_self] at hq
      cases hq
      rcases hnew with ⟨m', hm', he⟩ | he
      · exact Or.inl ⟨m', (hm db').trans hm', by rw [Sys.put_store, hp, he]⟩
      · exact Or.inr (he.put fun e rest => ht e db' rest)
    · rw [Function.update_of_ne hd] at hq
      rcases h db' q hq with hf | he
      · exact Or.inl (hf.congr (fun m' hm' => (hm db').trans hm') (hc db' q hq))
      · exact Or.inr (he.put fun e rest => ht e db' rest)

/-- The step of an event that changes the endpoints of `db`. -/
theorem Sys.Coherent.change {e : ServerEvent} {db : Bytes} {rest : List Bytes} {f : Meta → Meta}
    (h : s.Coherent) (ht : ∀ e db rest, s.pc t ≠ .evict e db rest) :
    (s.put t ({ s.store with metaMap := s.store.metaMap.modify db f },
      .evict e db rest)).Coherent := by
  intro db' p hp
  by_cases hdb : db' = db
  · exact Or.inr ⟨t, e, rest, by rw [Sys.put_pc_self, hdb]⟩
  · rcases h db' p hp with hf | he
    · refine Or.inl (hf.congr (fun m hm => ?_) rfl)
      show (s.store.metaMap.modify db f).lookup db' = some m
      rw [Store.lookup_modify, if_neg hdb]
      exact hm
    · exact Or.inr (he.put fun e rest => ht e db' rest)

/-- The `deleteInst` of an event. -/
theorem Sys.Coherent.evict {e : ServerEvent} {db : Bytes} {rest : List Bytes} (h : s.Coherent)
    (hpc : s.pc t = .evict e db rest) :
    (s.put t (s.store.deleteInst db, .loop e rest)).Coherent := by
  intro db' p hp
  rw [Sys.put_store] at hp
  by_cases hdb : db' = db
  · simp [Store.deleteInst, hdb] at hp
  · simp only [Store.deleteInst, Function.update_of_ne hdb] at hp
    rcases h db' p hp with hf | he
    · exact Or.inl (hf.congr (fun m hm => by simpa [Store.deleteInst, Store.findMeta] using hm)
        (by simp [Store.deleteInst]))
    · refine Or.inr (he.put fun e' rest' hpc' => hdb ?_)
      rw [hpc] at hpc'
      cases hpc'
      rfl

/-- A step elsewhere than in `createInst` meets the condition. -/
theorem upToDate_of_ne {constructed : Bool} (h : ∀ o m, s.pc t ≠ .createInst o m) :
    UpToDate dbname s (.step t constructed) := by
  intro db m hc
  cases hc with
  | createInst hpc _ _ => exact absurd hpc (h _ _)

/-- One step keeps the pools coherent if and only if it meets the condition. -/
theorem Sys.Coherent.step_iff (h : s.Coherent) (ht : Tracked s.slot s.store)
    (hs : SysStep dbname s a s') : UpToDate dbname s a ↔ s'.Coherent := by
  cases hs with
  | call hidle hc =>
    refine iff_of_true (fun _ _ hcr => by cases hcr) ?_
    cases hc with
    | command o => exact h.keep rfl (fun _ _ hm => hm) (fun _ => rfl) (by simp [hidle])
    | event e _ => exact h.keep rfl (fun _ _ hm => hm) (fun _ => rfl) (by simp [hidle])
    | addMeta db m _ =>
      exact h.keep (by simp) (fun _ _ hm => Store.findMeta_addMeta hm db m) (by simp)
        (by simp [hidle])
  | @step t constructed st x hl =>
    generalize hpc : s.pc t = pc at hl
    cases hl with
    | @create o m hi hok hcon =>
      have hlt : ∀ db' q, s.store.instMap db' = some q → q ≠ s.store.clients :=
        fun db' q hq => (ht.allocated (.inst db') q hq).ne
      rw [Sys.Coherent.put_iff (d := dbname o) (p := s.store.clients) (m := m) h rfl
        (fun _ => by simp [Store.findMeta, Store.newRedisClient]) (by simp [Store.newRedisClient])
        (fun db' q hq => by simp [Store.newRedisClient, hlt db' q hq]) (by simp [hpc]) (by simp)]
      constructor
      · intro hup
        exact hup _ _ (hcon ▸ .createInst hpc hi hok)
      · intro hnew db m' hc
        cases hc with
        | createInst hpc' _ _ =>
          rw [hpc] at hpc'
          cases hpc'
          exact hnew
    | @already o p m hi =>
      refine iff_of_true (fun db m' hc => ?_)
        (h.keep rfl (fun _ _ hm => hm) (by simp) (by simp [hpc]))
      cases hc with
      | createInst hpc' hnone _ =>
        rw [hpc] at hpc'
        cases hpc'
        rw [hi] at hnone
        cases hnone
    | @failed o m _ hno =>
      refine iff_of_true (fun db m' hc => ?_)
        (h.keep rfl (fun _ _ hm => hm) (by simp) (by simp [hpc]))
      cases hc with
      | createInst hpc' _ hok =>
        rw [hpc] at hpc'
        cases hpc'
        exact absurd ⟨hok, rfl⟩ hno
    | change _ _ => exact iff_of_true (upToDate_of_ne (by simp [hpc])) (h.change (by simp [hpc]))
    | evict => exact iff_of_true (upToDate_of_ne (by simp [hpc])) (h.evict hpc)
    | found _ | notFound _ | unknown _ | known _ | assign | null _ | start _ | finish | unlock
      | pass =>
      exact iff_of_true (upToDate_of_ne (by simp [hpc]))
        (h.keep (by simp [Store.assign])
          (fun _ _ hm => by simpa [Store.findMeta, Store.assign] using hm) (by simp [Store.assign])
          (by simp [hpc]))

theorem coherent_under (hs : (machine dbname).ReachableUnder (UpToDate dbname) s) : s.Coherent := by
  refine Lts.ReachableUnder.induction_with (tracked_invariant dbname) ?_ ?_ hs
  · intro s hs _ db p hp
    have := hs.slot_eq (.inst db)
    rw [show s.slot (.inst db) = some p from hp] at this
    cases this
  · intro s a s' ht _ ih hup h
    exact (ih.step_iff ht (.of_eq h)).mp hup

end Step

/-! ## Main theorem -/

/-- In a run whose pools are all created from the current endpoints, the pools are
    fresh when no call is in progress; a step that creates another one leaves a
    stale pool that no event is about to delete. -/
theorem no_stale_pool (dbname : ℕ → Bytes) (s : Sys)
    (hs : (machine dbname).ReachableUnder (UpToDate dbname) s) :
    (s.Quiescent → ∀ db p, s.store.instMap db = some p → s.store.Fresh db p) ∧
      ∀ a s', (machine dbname).step s a = some s' → (UpToDate dbname s a ↔ s'.Coherent) := by
  have h := coherent_under hs
  refine ⟨fun hq db p hp => h.fresh hq hp, fun a s' hstep => ?_⟩
  exact h.step_iff (tracked_invariant dbname s hs.reachable) (.of_eq hstep)

/-- A test for `UpToDate`: `createInst` is called with the current endpoints. -/
def upToDateCheck (dbname : ℕ → Bytes) (s : Sys) : Action → Bool
  | .call _ _ => true
  | .step t _ =>
    match s.pc t with
    | .createInst o m => (s.store.findMeta (dbname o)).map Meta.endpoints = some m.endpoints
    | _ => true

theorem upToDate_of_check (dbname : ℕ → Bytes) (s : Sys) (a : Action)
    (h : upToDateCheck dbname s a = true) : UpToDate dbname s a := by
  intro db m hc
  cases hc with
  | createInst hpc _ _ =>
    simp only [upToDateCheck, hpc, decide_eq_true_eq] at h
    exact Or.inl (Option.map_eq_some_iff.mp h)

/-- Two threads that have left the calls, and the others that never entered one. -/
theorem quiescent_of_two {s : Sys} {as : List Action} (h0 : (s.pc 0).inConfig = false)
    (h1 : (s.pc 1).inConfig = false) (has : ∀ a ∈ as, a.thread ≤ 1)
    (hidle : ∀ u, (∀ a ∈ as, a.thread ≠ u) → s.pc u = .idle) : s.Quiescent := by
  intro t
  match t with
  | 0 => exact h0
  | 1 => exact h1
  | t + 2 =>
    rw [hidle (t + 2) fun a ha => by have := has a ha; omega]
    rfl

/-- Thread 0 runs a command, a server is added on thread 1, and the next command of
    thread 0 creates the pool anew. -/
def recreate : List Action :=
  [.call 0 (.command 0)] ++ List.replicate 6 (.step 0 true) ++
    [.call 1 (.event (.onAddServer mockServer))] ++ List.replicate 3 (.step 1 true) ++
    [.call 0 (.command 0)] ++ List.replicate 3 (.step 0 true)

/-- The second pool has the endpoints that the server has been added to. -/
theorem no_stale_pool_recreated :
    ∃ s, (machine fun _ => mockDb).Reachable s ∧ s.store.instMap mockDb = some 1 ∧
      s.store.Fresh mockDb 1 := by
  obtain ⟨s, hs, hp, hidle⟩ := exists_of_replayIf (fun _ => mockDb) [(mockDb, mockMeta)] recreate
    (upToDate_of_check fun _ => mockDb)
    (fun s => (s.pc 0).inConfig = false ∧ (s.pc 1).inConfig = false ∧
      s.store.instMap mockDb = some 1) (by decide) (by decide +kernel)
  obtain ⟨h0, h1, hi⟩ := of_decide_eq_true hp
  have hq : s.Quiescent := quiescent_of_two h0 h1 (by decide) hidle
  exact ⟨s, hs.reachable, hi, (no_stale_pool _ s hs).1 hq mockDb 1 hi⟩

/-- A server is added on thread 1 when thread 0 has looked the `Meta` up and has not
    yet called `createInst`. -/
def lateCreate : List Action :=
  [.call 0 (.command 0), .step 0 true, .step 0 true,
    .call 1 (.event (.onAddServer mockServer)), .step 1 true, .step 1 true, .step 1 true,
    .step 0 true]

/-- The pool does not have the endpoint of the server, and nobody will delete it. -/
theorem stale_pool_survives :
    ∃ s, (machine fun _ => mockDb).Reachable s ∧ s.Quiescent ∧
      ∃ p, s.store.instMap mockDb = some p ∧ ¬ s.store.Fresh mockDb p := by
  obtain ⟨s, hs, hp, hidle⟩ := exists_of_replay (fun _ => mockDb) [(mockDb, mockMeta)] lateCreate
    (fun s => (s.pc 0).inConfig = false ∧ (s.pc 1).inConfig = false ∧
      s.store.instMap mockDb = some 0 ∧
      (s.store.findMeta mockDb).map Meta.endpoints ≠ some (s.store.obj 0).conf.endpoints)
    (by decide) (by decide +kernel)
  obtain ⟨h0, h1, hi, hne⟩ := of_decide_eq_true hp
  refine ⟨s, hs, quiescent_of_two h0 h1 (by decide) hidle, 0, hi, ?_⟩
  rintro ⟨m, hm, he⟩
  exact hne (by rw [hm, he]; rfl)

end Hiredispool.Config
