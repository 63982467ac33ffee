import Hiredispool.Config.Update
import Hiredispool.Lib.LockProg

/-!
# The mutexes of the configuration store

Model of `experimental/redisclient/RedisClientYaf.cpp`, lines 67–77, 149–255 and
307–318, with every lock, unlock and access to a map as a step of its own. The
events lock `instMutex` while they have `metaMutex` locked; nothing locks
`metaMutex` while it has `instMutex` locked.

* `getRedisClient_eval`, `onServer_eval`, `mapValuesConfigUpdate_eval`: a call
  without other threads does what the method of `Store` does.
* `no_deadlock`: no calls of any threads block each other.

The `metaMutex` of `Store` is not used: the owners of both mutexes are in the
state of the threads.
-/

namespace Hiredispool.Config.Locks

open Hiredispool.Pool LockProg

/-- Lines 200 and 202. -/
inductive Mutex
  | metaMutex
  | instMutex
deriving DecidableEq

/-- The order in which they are locked. -/
def Mutex.rank : Mutex → Fin 2
  | .metaMutex => 0
  | .instMutex => 1

/-- The code of a thread. What the environment decides is whether the constructor
    of `RedisClient` succeeds. -/
abbrev Code := Prog Store Mutex Bool

/-! ## The methods of `Config` -/

/-- `ScopedLock l(mutex)` (lines 67–77), for the rest of a body. -/
abbrev scopedLock (mutex : Mutex) {α : Type} (body : Code α) : Code α := .withLock mutex body

/-- `findInst` (lines 149–156). -/
def findInst (dbname : Bytes) : Code (Option ℕ) :=
  scopedLock .instMutex (.atomic fun s _ => s.findInst dbname)

/-- `findMeta` (lines 157–166). -/
def findMeta (dbname : Bytes) : Code (Option Meta) :=
  scopedLock .metaMutex (.atomic fun s _ => (s, s.findMeta dbname))

/-- Line 174; the exception of a constructor that throws is caught in line 178. -/
def newRedisClient (m : Meta) : Code (Option ℕ) :=
  .atomic fun s constructed =>
    if (checkConfig m.toConf).isSome && constructed then (s.newRedisClient m, some s.clients)
    else (s, none)

/-- Line 175: the entry of `instMap` is a copy of `c`. -/
def insertInst (dbname : Bytes) (p : ℕ) : Code Unit :=
  .atomic fun s _ =>
    let s := s.copied (some p)
    ({ s with instMap := Function.update s.instMap dbname (some p) }, ())

/-- `createInst` (lines 167–182). -/
def createInst (dbname : Bytes) (m : Meta) : Code (Option ℕ) :=
  scopedLock .instMutex do
    let it ← .atomic fun s _ => s.findInst dbname
    if it.isSome then
      return it
    match ← newRedisClient m with
    | some p =>
      insertInst dbname p
      return some p
    | none => return none

/-- `deleteInst` (lines 183–186). -/
def deleteInst (dbname : Bytes) : Code Unit :=
  scopedLock .instMutex (.atomic fun s _ => (s.deleteInst dbname, ()))

/-- `addMeta` (lines 187–195). -/
def addMeta (dbname : Bytes) (m : Meta) : Code Unit :=
  scopedLock .metaMutex do
    let it ← .atomic fun s _ => (s, s.findMeta dbname)
    if it.isSome then
      return
    .atomic fun s _ => ({ s with metaMap := s.metaMap ++ [(dbname, m)] }, ())

/-- `MapValuesConfigUpdate` (lines 205–215). -/
def mapValuesConfigUpdate (keyValues : KeyValues) : Code Unit :=
  keyValues.forM fun it => addMeta it.1 (convert it.2)

/-- `onAddServer` and `onRemoveServer` (lines 217–255). The keys stay the same over
    the loop, which has `metaMutex` locked. -/
def onServer (e : ServerEvent) : Code Unit :=
  scopedLock .metaMutex do
    let keys ← .atomic fun s _ => (s, s.metaMap.map Prod.fst)
    keys.forM fun dbname => do
      let isFor ← .atomic fun s _ => s.serverEvent e dbname
      if isFor then
        deleteInst dbname

/-- `getRedisClient` (lines 307–318). -/
def getRedisClient (dbname : Bytes) : Code (Option ℕ) := do
  let c ← findInst dbname
  if c.isSome then
    return c
  match ← findMeta dbname with
  | none => return c
  | some m => createInst dbname m

/-! ## A call alone -/

section Eval

variable (dbname : Bytes) (m : Meta) (ok : Bool) (s : Store)

theorem createInst_eval : (createInst dbname m).eval ok s = s.createInst dbname m ok := by
  unfold createInst Store.createInst
  cases hi : s.instMap dbname with
  | some p => simp [Store.findInst, hi]
  | none =>
    by_cases hok : (checkConfig m.toConf).isSome = true ∧ ok = true
    · simp [Store.findInst, hi, newRedisClient, insertInst, hok, Store.copied]
    · simp [Store.findInst, hi, newRedisClient, hok, Store.copied]

theorem addMeta_eval : ((addMeta dbname m).eval ok s).1 = s.addMeta dbname m := by
  unfold addMeta Store.addMeta
  cases hm : (s.findMeta dbname).isSome with
  | true => simp [hm]
  | false => simp [hm]

theorem getRedisClient_eval : (getRedisClient dbname).eval ok s = s.getRedisClient dbname ok := by
  unfold getRedisClient Store.getRedisClient
  cases hi : s.instMap dbname with
  | some p => simp [findInst, Store.findInst, hi]
  | none =>
    cases hm : s.findMeta dbname with
    | none => simp [findInst, findMeta, Store.findInst, hi, hm, Store.copied]
    | some m => simp [findInst, findMeta, Store.findInst, hi, hm, Store.copied, createInst_eval]

theorem mapValuesConfigUpdate_eval (keyValues : KeyValues) :
    ((mapValuesConfigUpdate keyValues).eval ok s).1 = s.mapValuesConfigUpdate keyValues := by
  unfold mapValuesConfigUpdate Store.mapValuesConfigUpdate
  rw [Prog.eval_forM]
  simp only [addMeta_eval]

theorem onServer_eval (e : ServerEvent) : ((onServer e).eval ok s).1 = s.onServer e := by
  unfold onServer Store.onServer
  simp only [Prog.eval_withLock, Prog.eval_bind, Prog.eval_atomic, Prog.eval_forM]
  congr 1
  funext s db
  unfold Store.onServerFor
  rcases s.serverEvent_cases e db with ⟨m, -, -, h⟩ | h <;> simp [h, deleteInst]

end Eval

/-! ## Deadlock freedom -/

section Discipline

variable (dbname : Bytes) (m : Meta)

theorem findInst_disciplined : (findInst dbname).Disciplined Mutex.rank [] [] :=
  .withLock (by simp) (.atomic _)

theorem findMeta_disciplined : (findMeta dbname).Disciplined Mutex.rank [] [] :=
  .withLock (by simp) (.atomic _)

theorem createInst_disciplined : (createInst dbname m).Disciplined Mutex.rank [] [] := by
  apply Prog.Disciplined.withLock (by simp)
  apply Prog.Disciplined.bind (.atomic _)
  intro it
  split
  · exact .pure _
  · apply Prog.Disciplined.bind (.atomic _)
    intro c
    cases c with
    | some p => exact .bind (.atomic _) fun _ => .pure _
    | none => exact .pure _

/-- `deleteInst` is called under `metaMutex`. -/
theorem deleteInst_disciplined :
    (deleteInst dbname).Disciplined Mutex.rank [.metaMutex] [.metaMutex] :=
  .withLock (by decide) (.atomic _)

theorem addMeta_disciplined : (addMeta dbname m).Disciplined Mutex.rank [] [] := by
  apply Prog.Disciplined.withLock (by simp)
  apply Prog.Disciplined.bind (.atomic _)
  intro it
  split
  · exact .pure _
  · exact .atomic _

theorem mapValuesConfigUpdate_disciplined (keyValues : KeyValues) :
    (mapValuesConfigUpdate keyValues).Disciplined Mutex.rank [] [] :=
  .forM fun it => addMeta_disciplined it.1 (convert it.2)

theorem onServer_disciplined (e : ServerEvent) :
    (onServer e).Disciplined Mutex.rank [] [] := by
  apply Prog.Disciplined.withLock (by simp)
  apply Prog.Disciplined.bind (.atomic _)
  intro keys
  apply Prog.Disciplined.forM
  intro db
  apply Prog.Disciplined.bind (.atomic _)
  intro isFor
  split
  · exact deleteInst_disciplined db
  · exact .pure _

theorem getRedisClient_disciplined : (getRedisClient dbname).Disciplined Mutex.rank [] [] := by
  apply Prog.Disciplined.bind (findInst_disciplined dbname)
  intro c
  split
  · exact .pure _
  · apply Prog.Disciplined.bind (findMeta_disciplined dbname)
    intro m
    cases m with
    | none => exact .pure _
    | some m => exact createInst_disciplined dbname m

end Discipline

/-- A call that a thread makes on one `Config`. -/
inductive Call
  | getRedisClient (dbname : Bytes)
  | mapValuesConfigUpdate (keyValues : KeyValues)
  | onServer (e : ServerEvent)

/-- The code of a call. What it returns is left to the caller. -/
def Call.code : Call → Code Unit
  | .getRedisClient dbname => do let _ ← Locks.getRedisClient dbname
  | .mapValuesConfigUpdate keyValues => Locks.mapValuesConfigUpdate keyValues
  | .onServer e => Locks.onServer e

theorem Call.disciplined (c : Call) : c.code.Disciplined Mutex.rank [] [] := by
  cases c with
  | getRedisClient dbname => exact .bind (getRedisClient_disciplined dbname) fun _ => .pure _
  | mapValuesConfigUpdate keyValues => exact mapValuesConfigUpdate_disciplined keyValues
  | onServer e => exact onServer_disciplined e

/-- The store, its mutexes and the threads. -/
abbrev State := LockProg.Sys ℕ Store Mutex Bool

/-- Threads that run any sequences of calls, on a store in any state. -/
def machine : Lts State (ℕ × Bool) := threads fun p => ∃ c : Call, p = c.code

/-- Some thread can take a step if one has not finished, whatever the constructors
    do; no thread locks a mutex that it has locked; and both mutexes are free when
    no thread is in a call. -/
theorem no_deadlock (s : State) (hs : machine.Reachable s) :
    ((∃ t, ¬ s.Finished t) → ∃ t, ∀ constructed, ∃ s', machine.step s (t, constructed) = some s') ∧
    (∀ t mutex, s.wants t = some mutex → s.owner mutex ≠ some t) ∧
    ((∀ t, s.Idle t) → ∀ mutex, s.owner mutex = none) := by
  have hcalls : ∀ p, (∃ c : Call, p = c.code) → p.Disciplined Mutex.rank [] [] := by
    rintro p ⟨c, rfl⟩
    exact c.disciplined
  refine ⟨fun hne => ?_, fun t mutex hw => ?_, fun hidle mutex => ?_⟩
  · obtain ⟨t, ht⟩ := hne
    exact exists_step hcalls hs ht
  · exact not_relock hcalls hs hw
  · by_contra ho
    obtain ⟨t, ht⟩ := Option.ne_none_iff_exists'.mp ho
    exact not_owner_of_idle hcalls hs (hidle t) mutex ht

/-- Thread 0 has an event and thread 1 a lookup to run. -/
def eventAndLookup : State where
  shared := Store.init [(mockDb, mockMeta)]
  owner := fun _ => none
  thread := fun t => ⟨.ret (), match t with
    | 0 => [(Call.onServer (.onAddServer mockServer)).code]
    | 1 => [(Call.getRedisClient mockDb).code]
    | _ => []⟩

/-- The event waits for `instMutex` while it has `metaMutex` locked. -/
theorem no_deadlock_nested :
    ∃ s, machine.Reachable s ∧ s.owner .metaMutex = some 0 ∧ s.owner .instMutex = some 1 ∧
      s.wants 0 = some .instMutex ∧
      ∃ t, ∀ constructed, ∃ s', machine.step s (t, constructed) = some s' := by
  have hrun : (machine.run eventAndLookup (List.replicate 2 (1, true) ++
      List.replicate 4 (0, true))).any (fun s => s.owner .metaMutex = some 0 ∧
        s.owner .instMutex = some 1 ∧ s.wants 0 = some .instMutex) = true := by decide +kernel
  obtain ⟨s, hs, hp⟩ := (Option.any_eq_true _ _).mp hrun
  obtain ⟨hmeta, hinst, hwants⟩ := of_decide_eq_true hp
  have hinit : machine.Reachable eventAndLookup := by
    refine .init ⟨fun _ => rfl, fun t => ⟨rfl, fun p hp => ?_⟩⟩
    rcases t with _ | _ | t
    · exact ⟨_, List.mem_singleton.mp hp⟩
    · exact ⟨_, List.mem_singleton.mp hp⟩
    · cases hp
  have hreach : machine.Reachable s := hinit.run hs
  have hbusy : ¬ s.Finished 0 := by
    intro hfin
    rw [LockProg.Sys.wants, hfin.1] at hwants
    cases hwants
  exact ⟨s, hreach, hmeta, hinst, hwants, (no_deadlock s hreach).1 ⟨0, hbusy⟩⟩

end Hiredispool.Config.Locks
