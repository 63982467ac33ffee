import Hiredispool.Config.Store
import Hiredispool.Lib.Lts

/-!
# Threads on one configuration store

Any number of threads run commands on `Client` objects of one `Config`
(`RedisClientYaf.cpp`, lines 307–318 and 379–407), while the events of servers
and new databases arrive on other threads (lines 187–255).

* A step is one critical section of `Config`, the exchange of the `client`
  member with the destruction of the pointer that was there, the start of the
  command through `client`, or its end.
* `metaMutex` is locked over a whole event; its `deleteInst` calls are steps of
  their own, so the sections under `instMutex` alone can come between them.
-/

namespace Hiredispool.Config

open Hiredispool.Pool

/-- Where a thread is. -/
inductive Pc
  | idle
  /-- `getRedisClient` for the `Client` object `o`, before line 309 -/
  | findInst (o : ℕ)
  /-- before line 314 -/
  | findMeta (o : ℕ)
  /-- before line 317 -/
  | createInst (o : ℕ) (m : Meta)
  /-- `getRedisClient` has returned `c`, before the assignment of line 381 -/
  | assign (o : ℕ) (c : Option ℕ)
  /-- before `client->redisvCommand` (lines 388–392) -/
  | start (o : ℕ)
  /-- in `redisvCommand` of the `RedisClient` `p` -/
  | running (o p : ℕ)
  /-- in the loop of an event, with the databases `rest` to come -/
  | loop (e : ServerEvent) (rest : List Bytes)
  /-- before the `deleteInst` of lines 232 and 252 -/
  | evict (e : ServerEvent) (dbname : Bytes) (rest : List Bytes)
deriving DecidableEq

/-- A call that a thread can make. -/
inductive Call
  | command (o : ℕ)
  | event (e : ServerEvent)
  | addMeta (dbname : Bytes) (m : Meta)

/-- What can happen next. -/
inductive Action
  | call (t : ℕ) (c : Call)
  | step (t : ℕ) (constructed : Bool)

/-- The thread that acts. -/
def Action.thread : Action → ℕ
  | .call t _ | .step t _ => t

/-- The store and its threads. -/
structure Sys where
  store : Store
  pc : ℕ → Pc

/-- One step of a thread; `dbname o` is the database of the `Client` object
    `o`. `none` while the thread is idle or waits for `metaMutex`. -/
def localStep (dbname : ℕ → Bytes) (constructed : Bool) (s : Store) : Pc → Option (Store × Pc)
  | .idle => none
  | .findInst o =>
    let (s, c) := s.findInst (dbname o)
    some (s, match c with
      | none => .findMeta o
      | some p => .assign o (some p))
  | .findMeta o =>
    if s.metaMutex = none then
      some (s, match s.findMeta (dbname o) with
        | none => .assign o none
        | some m => .createInst o m)
    else none
  | .createInst o m =>
    let (s, c) := s.createInst (dbname o) m constructed
    some (s, .assign o c)
  | .assign o c => some (s.assign o c, .start o)
  | .start o =>
    some (s, match s.client o with
      | none => .idle
      | some p => .running o p)
  | .running _ _ => some (s, .idle)
  | .loop _ [] => some ({ s with metaMutex := none }, .idle)
  | .loop e (db :: rest) =>
    match s.serverEvent e db with
    | (s, true) => some (s, .evict e db rest)
    | (s, false) => some (s, .loop e rest)
  | .evict e db rest => some (s.deleteInst db, .loop e rest)

/-- An idle thread starts a call. -/
def startCall (t : ℕ) (s : Store) : Call → Option (Store × Pc)
  | .command o => some (s, .findInst o)
  | .event e =>
    if s.metaMutex = none then
      some ({ s with metaMutex := some t }, .loop e (s.metaMap.map Prod.fst))
    else none
  | .addMeta dbname m => if s.metaMutex = none then some (s.addMeta dbname m, .idle) else none

/-- Put the result of a step of thread `t` back. -/
def Sys.put (s : Sys) (t : ℕ) (r : Store × Pc) : Sys := ⟨r.1, Function.update s.pc t r.2⟩

/-- One step of the system. -/
def sysStep (dbname : ℕ → Bytes) (s : Sys) : Action → Option Sys
  | .call t c => if s.pc t = .idle then (startCall t s.store c).map (s.put t) else none
  | .step t constructed => (localStep dbname constructed s.store (s.pc t)).map (s.put t)

/-- Databases without pools, and no thread in a call. -/
def Initial (s : Sys) : Prop :=
  (∃ metas : MetaMap, (metas.map Prod.fst).Nodup ∧ s.store = Store.init metas) ∧
    ∀ t, s.pc t = .idle

/-- The threads on one store. -/
def machine (dbname : ℕ → Bytes) : Lts Sys Action where
  init := Initial
  step := sysStep dbname

section Simp

variable (s : Sys) (t : ℕ) (r : Store × Pc)

@[simp] theorem Sys.put_store : (s.put t r).store = r.1 := rfl
@[simp] theorem Sys.put_pc_self : (s.put t r).pc t = r.2 := by simp [Sys.put]
@[simp] theorem Sys.put_pc_of_ne {u : ℕ} (h : u ≠ t) : (s.put t r).pc u = s.pc u := by
  simp [Sys.put, h]

end Simp

/-! ## What a step can do -/

/-- One step of a thread, by cases. -/
inductive LocalStep (dbname : ℕ → Bytes) (constructed : Bool) (s : Store) : Pc → Store → Pc → Prop
  | found {o p : ℕ} : s.instMap (dbname o) = some p →
      LocalStep dbname constructed s (.findInst o) (s.copied (some p)) (.assign o (some p))
  | notFound {o : ℕ} : s.instMap (dbname o) = none →
      LocalStep dbname constructed s (.findInst o) s (.findMeta o)
  | unknown {o : ℕ} : s.findMeta (dbname o) = none →
      LocalStep dbname constructed s (.findMeta o) s (.assign o none)
  | known {o : ℕ} {m : Meta} : s.findMeta (dbname o) = some m →
      LocalStep dbname constructed s (.findMeta o) s (.createInst o m)
  | already {o p : ℕ} {m : Meta} : s.instMap (dbname o) = some p →
      LocalStep dbname constructed s (.createInst o m) (s.copied (some p)) (.assign o (some p))
  | create {o : ℕ} {m : Meta} : s.instMap (dbname o) = none → (checkConfig m.toConf).isSome = true →
      constructed = true →
      LocalStep dbname constructed s (.createInst o m)
        { (s.newRedisClient m).copied (some s.clients) with
          instMap := Function.update s.instMap (dbname o) (some s.clients) }
        (.assign o (some s.clients))
  | failed {o : ℕ} {m : Meta} : s.instMap (dbname o) = none →
      ¬ ((checkConfig m.toConf).isSome = true ∧ constructed = true) →
      LocalStep dbname constructed s (.createInst o m) s (.assign o none)
  | assign {o : ℕ} {c : Option ℕ} :
      LocalStep dbname constructed s (.assign o c) (s.assign o c) (.start o)
  | null {o : ℕ} : s.client o = none → LocalStep dbname constructed s (.start o) s .idle
  | start {o p : ℕ} : s.client o = some p →
      LocalStep dbname constructed s (.start o) s (.running o p)
  | finish {o p : ℕ} : LocalStep dbname constructed s (.running o p) s .idle
  | unlock {e : ServerEvent} :
      LocalStep dbname constructed s (.loop e []) { s with metaMutex := none } .idle
  | change {e : ServerEvent} {db : Bytes} {rest : List Bytes} {m : Meta} : s.findMeta db = some m →
      m.isFor e.server = true →
      LocalStep dbname constructed s (.loop e (db :: rest))
        { s with metaMap := s.metaMap.modify db e.apply } (.evict e db rest)
  | pass {e : ServerEvent} {db : Bytes} {rest : List Bytes} :
      LocalStep dbname constructed s (.loop e (db :: rest)) s (.loop e rest)
  | evict {e : ServerEvent} {db : Bytes} {rest : List Bytes} :
      LocalStep dbname constructed s (.evict e db rest) (s.deleteInst db) (.loop e rest)

theorem LocalStep.of_eq {dbname : ℕ → Bytes} {constructed : Bool} {s s' : Store} {pc pc' : Pc}
    (h : localStep dbname constructed s pc = some (s', pc')) :
    LocalStep dbname constructed s pc s' pc' := by
  cases pc with
  | idle => cases h
  | findInst o =>
    simp only [localStep, Store.findInst] at h
    cases hi : s.instMap (dbname o) with
    | none => rw [hi] at h; cases h; exact .notFound hi
    | some p => rw [hi] at h; cases h; exact .found hi
  | findMeta o =>
    simp only [localStep] at h
    split at h
    · cases hm : s.findMeta (dbname o) with
      | none => rw [hm] at h; cases h; exact .unknown hm
      | some m => rw [hm] at h; cases h; exact .known hm
    · cases h
  | createInst o m =>
    simp only [localStep, Store.createInst] at h
    cases hi : s.instMap (dbname o) with
    | some p => rw [hi] at h; cases h; exact .already hi
    | none =>
      rw [hi] at h
      dsimp only at h
      split at h
      · rename_i hok
        obtain ⟨h1, h2⟩ := Bool.and_eq_true_iff.mp hok
        cases h
        exact .create hi h1 h2
      · rename_i hno
        cases h
        exact .failed hi fun hok => hno (Bool.and_eq_true_iff.mpr hok)
  | assign o c => cases h; exact .assign
  | start o =>
    simp only [localStep] at h
    cases hc : s.client o with
    | none => rw [hc] at h; cases h; exact .null hc
    | some p => rw [hc] at h; cases h; exact .start hc
  | running o p => cases h; exact .finish
  | loop e rest =>
    cases rest with
    | nil => cases h; exact .unlock
    | cons db rest =>
      simp only [localStep] at h
      rcases s.serverEvent_cases e db with ⟨m, hm, hf, e'⟩ | e' <;> rw [e'] at h <;> cases h
      · exact .change hm hf
      · exact .pass
  | evict e db rest => cases h; exact .evict

/-- The start of a call, by cases. -/
inductive CallStep (t : ℕ) (s : Store) : Store → Pc → Prop
  | command (o : ℕ) : CallStep t s s (.findInst o)
  | event (e : ServerEvent) : s.metaMutex = none →
      CallStep t s { s with metaMutex := some t } (.loop e (s.metaMap.map Prod.fst))
  | addMeta (db : Bytes) (m : Meta) : s.metaMutex = none → CallStep t s (s.addMeta db m) .idle

theorem CallStep.of_eq {t : ℕ} {s s' : Store} {c : Call} {pc : Pc}
    (h : startCall t s c = some (s', pc)) : CallStep t s s' pc := by
  cases c with
  | command o => cases h; exact .command o
  | event e =>
    simp only [startCall] at h
    split at h
    · cases h; exact .event e ‹_›
    · cases h
  | addMeta db m =>
    simp only [startCall] at h
    split at h
    · cases h; exact .addMeta db m ‹_›
    · cases h

/-- One step of the system, by cases. -/
inductive SysStep (dbname : ℕ → Bytes) (s : Sys) : Action → Sys → Prop
  | call {t : ℕ} {c : Call} {st : Store} {pc : Pc} : s.pc t = .idle → CallStep t s.store st pc →
      SysStep dbname s (.call t c) (s.put t (st, pc))
  | step {t : ℕ} {constructed : Bool} {st : Store} {pc : Pc} :
      LocalStep dbname constructed s.store (s.pc t) st pc →
      SysStep dbname s (.step t constructed) (s.put t (st, pc))

theorem SysStep.of_eq {dbname : ℕ → Bytes} {s s' : Sys} {a : Action}
    (h : (machine dbname).step s a = some s') : SysStep dbname s a s' := by
  cases a with
  | call t c =>
    simp only [machine, sysStep] at h
    split at h
    · obtain ⟨⟨st, pc⟩, hc, rfl⟩ := Option.map_eq_some_iff.mp h
      exact .call ‹_› (.of_eq hc)
    · cases h
  | step t constructed =>
    obtain ⟨⟨st, pc⟩, hc, rfl⟩ := Option.map_eq_some_iff.mp h
    exact .step (.of_eq hc)

/-- A step is one of its thread. -/
theorem SysStep.pc_of_ne {dbname : ℕ → Bytes} {s s' : Sys} {a : Action} (h : SysStep dbname s a s')
    {u : ℕ} (hu : a.thread ≠ u) : s'.pc u = s.pc u := by
  cases h with
  | call _ _ => exact Sys.put_pc_of_ne _ _ _ (Ne.symm hu)
  | step _ => exact Sys.put_pc_of_ne _ _ _ (Ne.symm hu)

theorem pc_of_run {dbname : ℕ → Bytes} {s s' : Sys} {as : List Action}
    (h : (machine dbname).run s as = some s') {u : ℕ} (hu : ∀ a ∈ as, a.thread ≠ u) :
    s'.pc u = s.pc u := by
  induction as generalizing s with
  | nil => cases h; rfl
  | cons a as ih =>
    obtain ⟨s₁, h₁, h₂⟩ := Option.bind_eq_some_iff.mp h
    have ha : s₁.pc u = s.pc u := (SysStep.of_eq h₁).pc_of_ne (hu a (by simp))
    rw [ih h₂ fun b hb => hu b (List.mem_cons_of_mem _ hb), ha]

/-! ## Replaying a run -/

/-- A store with the databases `metas`, before any call. -/
def Sys.start (metas : MetaMap) : Sys := ⟨Store.init metas, fun _ => .idle⟩

theorem Initial.start (metas : MetaMap) (hmetas : (metas.map Prod.fst).Nodup) :
    Initial (Sys.start metas) :=
  ⟨⟨metas, hmetas, rfl⟩, fun _ => rfl⟩

/-- "mock" -/
def mockDb : Bytes := [109, 111, 99, 107]

/-- The first server of `_injectAddServer` (lines 325–331). -/
def mockServer : PServer := ⟨mockDb, 100, 0x6a26c6d2, 9403⟩

/-- What `convert` makes of a host, a port and the name of that server (lines 257–304). -/
def mockMeta : Meta := ⟨500, 500, 100, 1, [⟨ipNtoa 0x7f000001, 6379⟩], mockDb, 100⟩

/-- A property of the replayed state is a property of a reachable state, in which
    the threads that do not act are idle. -/
theorem exists_of_replay (dbname : ℕ → Bytes) (metas : MetaMap) (as : List Action) (p : Sys → Bool)
    (hmetas : (metas.map Prod.fst).Nodup)
    (h : ((machine dbname).run (Sys.start metas) as).any p = true) :
    ∃ s, (machine dbname).Reachable s ∧ p s = true ∧
      ∀ u, (∀ a ∈ as, a.thread ≠ u) → s.pc u = .idle := by
  obtain ⟨s, hs, hp⟩ := (Option.any_eq_true p _).mp h
  have hinit : (machine dbname).Reachable (Sys.start metas) := .init (.start metas hmetas)
  exact ⟨s, hinit.run hs, hp, fun u hu => pc_of_run hs hu⟩

/-- The same for a run whose steps pass a check of the condition `C`. -/
theorem exists_of_replayIf (dbname : ℕ → Bytes) (metas : MetaMap) (as : List Action)
    {C : Sys → Action → Prop} {chk : Sys → Action → Bool} (hchk : ∀ s a, chk s a = true → C s a)
    (p : Sys → Bool) (hmetas : (metas.map Prod.fst).Nodup)
    (h : ((machine dbname).runIf chk (Sys.start metas) as).any p = true) :
    ∃ s, (machine dbname).ReachableUnder C s ∧ p s = true ∧
      ∀ u, (∀ a ∈ as, a.thread ≠ u) → s.pc u = .idle := by
  obtain ⟨s, hs, hp⟩ := (Option.any_eq_true p _).mp h
  have hinit : (machine dbname).ReachableUnder C (Sys.start metas) := .init (.start metas hmetas)
  exact ⟨s, hinit.runIf hchk hs, hp, fun u hu => pc_of_run (Lts.run_of_runIf hs) hu⟩

end Hiredispool.Config
