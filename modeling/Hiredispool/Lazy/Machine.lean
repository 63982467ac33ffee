import Hiredispool.Client.Replies
import Hiredispool.Lazy.Simulation
import Hiredispool.Threads.Exclusion

/-!
# Threads on one lazy pool

Model of `RedisClient::redisvCommand` and `redisCommandArgv` of the experimental
client (`RedisClient.cpp`, lines 10–84) with `redis_vcommand` and
`redis_command_argv` (`hiredispool.c`, lines 502–592), run by any number of
threads. The two commands have the same text but for the call of hiredis. A
thread steps as in `Threads.localStep`; what is new is that a socket keeps the
error of its last failure, and that a call reports it.

* `localStep_pool`: without the saved errors a step is one of the root machine.
* `exclusive_invariant`: so the sockets are exclusive here too.
* `localStep_lastError`: a thread writes only into the sockets it has locked.
-/

namespace Hiredispool.Lazy

open Hiredispool.Pool Threads Client

/-! ## Reports -/

/-- Something that a call has tried: to connect to an endpoint or to send a command to
    one, and the context, NULL if there was no memory for it. -/
structure Attempt where
  endpoint : RedisEndpoint
  ctx : Option ℕ
deriving DecidableEq

/-- The attempt that an event records. -/
def attemptOf (s : Pool.St) : Event → Option Attempt
  | .connect _ ep c => some ⟨s.config.endpoint ep, c⟩
  | .command (some c) _ => some ⟨s.config.endpoint (s.world.ctx c).endpoint, some c⟩
  | _ => none

/-- The attempts of a step. -/
def attemptsOf (s s' : Pool.St) : List Attempt :=
  (s'.world.trace.drop s.world.trace.length).filterMap (attemptOf s)

/-- What a call returned, with the socket it had and what it had tried. `info` is
    `none` if it was read from memory that nothing has written yet, and `begun` is the
    number of contexts that were there when the call began. -/
structure Report where
  socket : Option ℕ
  reply : Option CtxReply
  info : Option RedisCommandInfo
  attempts : List Attempt
  begun : ℕ

/-- A thread, with what it has tried in its call and what its calls have returned. -/
structure Thread where
  lib : Local
  attempts : List Attempt
  begun : ℕ
  reports : List Report

/-- `_setTarget` (lines 10–16). -/
def setTarget (p : ℕ) (s : St) : Option RedisCommandInfo :=
  (s.pool.sock p).conn.map fun c =>
    let target := (s.pool.world.ctx c).target
    ⟨0, [], target.host, target.port⟩

/-- The fields of a socket as those of a report. -/
def LastError.info (e : LastError) : RedisCommandInfo := ⟨e.err, e.errstr, e.errhost, e.errport⟩

/-- `_setError` with a socket (lines 18–24). -/
def setError (p : ℕ) (s : St) : Option RedisCommandInfo := (s.lastError p).map LastError.info

/-- `_setError` with a text (lines 26–32). -/
def setErrorText (errstr : Bytes) : RedisCommandInfo := ⟨-1, errstr, .ofString "N/A", -1⟩

/-- The `RedisReplyPack` of a call (lines 51–64 and 71–83), before the socket is
    released. -/
def report (s : St) (th : Thread) : Option Report :=
  match th.lib.ret with
  | .socket none =>
    some ⟨none, none, some (setErrorText (.ofString "No available connection")), th.attempts,
      th.begun⟩
  | .reply p (some reply) => some ⟨some p, some reply, setTarget p s, th.attempts, th.begun⟩
  | .reply p none => some ⟨some p, none, setError p s, th.attempts, th.begun⟩
  | _ => none

/-! ## Steps -/

/-- Lines 537–538 and 582–583: the second attempt has failed too. -/
def keepError (env : Env) (l : Local) (s : St) : St :=
  match l.pc with
  | .cmdReturn p none =>
    match (s.pool.sock p).conn with
    | some c => saveLastError env p c s
    | none => s
  | _ => s

/-- One step of thread `t`. -/
def localStep (env : Env) (t : ℕ) (io : Bool) (s : St) (l : Local) : Option (St × Local) :=
  match l.pc with
  | .getLocked start cur =>
    let (s', found) := checkSocket env cur s
    some (s', { l with pc := if found then .getFound cur else .getUnlock start cur })
  | .cmdConnect p r =>
    let (s', ok) := connectSingleSocket env p s
    some (s', { l with pc := if ok then .cmdSend p r.retry else .cmdReturn p none })
  | .cmdSend _ _ | .cmdWait _ _ _ =>
    (Threads.localStep env.toEnv t io s.pool l).map fun (pool, l') =>
      (keepError env l' { s with pool := pool }, l')
  | _ =>
    (Threads.localStep env.toEnv t io s.pool l).map fun (pool, l') =>
      ({ s with pool := pool }, l')

/-- The pool and its threads. -/
structure Sys where
  st : St
  thr : ℕ → Thread

/-- Put the result of a step of thread `t` back. -/
def Sys.put (s : Sys) (t : ℕ) (st : St) (th : Thread) : Sys :=
  ⟨st, Function.update s.thr t th⟩

/-- Something happens outside of the process. -/
def Sys.outside (s : Sys) (f : World → World) : Sys :=
  { s with st := s.st.onPool fun pool => { pool with world := f pool.world } }

/-- The thread after it has entered the library. With `redis_get_socket` a call of
    `RedisClient` begins, and it ends with the release of the socket. -/
def Thread.entered (th : Thread) (s : St) (l : Local) : Api → Thread
  | .get => { th with lib := l, attempts := [], begun := s.pool.world.nctx }
  | .vcommand _ _ => { th with lib := l }
  | .release _ => { th with lib := l, reports := th.reports ++ (report s th).toList }

/-- One step of the system. -/
def sysStep (env : Env) (s : Sys) : Action → Option Sys
  | .call t api =>
    let th := s.thr t
    if th.lib.pc = .idle ∧ redisClient s.st.pool th.lib api = true then
      (startCall t s.st.pool th.lib api).map fun (pool, l) =>
        s.put t { s.st with pool := pool } (th.entered s.st l api)
    else none
  | .step t io =>
    let th := s.thr t
    (localStep env t io s.st th.lib).map fun (st, l) =>
      s.put t st { th with lib := l, attempts := th.attempts ++ attemptsOf s.st.pool st.pool }
  | .serve c => some (s.outside (World.serve c))
  | .drop c => some (s.outside (World.drop c))
  | .lose c => some (s.outside (World.lose c))

/-- A thread that has not called the library yet. -/
def Thread.init : Thread := ⟨Local.init, [], 0, []⟩

/-- A pool that `redis_pool_create` has returned, and no thread in the library. -/
def Initial (env : Env) (s : Sys) : Prop :=
  (∃ config, redisPoolCreate env config World.init = .ok s.st) ∧ ∀ t, s.thr t = Thread.init

/-- The threads on one lazy pool. -/
def machine (env : Env) : Lts Sys Action where
  init := Initial env
  step := sysStep env

/-! ## Erasure of the saved errors -/

section Erasure

variable {env : Env} {t : ℕ} {io : Bool} {s s' : St} {l l' : Local}

@[simp] theorem keepError_pool (env : Env) (l : Local) (s : St) : (keepError env l s).pool = s.pool := by
  unfold keepError
  split
  · split <;> rfl
  · rfl

/-- A step is one of the root machine. -/
theorem localStep_pool (env : Env) (t : ℕ) (io : Bool) (s : St) (l : Local) :
    (localStep env t io s l).map erase = Threads.localStep env.toEnv t io s.pool l := by
  cases hpc : l.pc with
  | getLocked start cur =>
    simp only [localStep, Threads.localStep, hpc, ← checkSocket_pool]
    rfl
  | cmdConnect p r =>
    simp only [localStep, Threads.localStep, hpc, ← connectSingleSocket_pool]
    rfl
  | cmdSend p r | cmdWait p c r =>
    simp only [localStep, hpc, Option.map_map]
    refine Eq.trans (Option.map_congr fun x _ => ?_) Option.map_id'
    simp [erase]
  | _ =>
    simp only [localStep, hpc, Option.map_map]
    exact Option.map_id'

theorem localStep_erase (h : localStep env t io s l = some (s', l')) :
    LocalStep env.toEnv t s.pool l s'.pool l' := by
  have hpool := localStep_pool env t io s l
  rw [h] at hpool
  exact .of_eq hpool.symm

/-- The pool and the threads of the root machine. -/
def Sys.erase (s : Sys) : Threads.Sys := ⟨s.st.pool, fun t => (s.thr t).lib⟩

@[simp] theorem Sys.put_erase (s : Sys) (t : ℕ) (st : St) (th : Thread) :
    (s.put t st th).erase = s.erase.put t (st.pool, th.lib) := by
  have hthr : (fun u => (Function.update s.thr t th u).lib) =
      Function.update (fun u => (s.thr u).lib) t th.lib := by
    funext u
    by_cases hu : u = t
    · subst hu; simp
    · simp [hu]
  simp [Sys.erase, Sys.put, Threads.Sys.put, hthr]

@[simp] theorem Sys.put_thr_self (s : Sys) (t : ℕ) (st : St) (th : Thread) :
    (s.put t st th).thr t = th := by simp [Sys.put]

@[simp] theorem Sys.put_thr_of_ne (s : Sys) {t u : ℕ} (st : St) (th : Thread) (h : u ≠ t) :
    (s.put t st th).thr u = s.thr u := by simp [Sys.put, h]

end Erasure

/-! ## The steps by cases -/

section Steps

variable {env : Env} {t : ℕ} {io : Bool} {s s' : St} {l l' : Local}

/-- The connect of a retry. -/
theorem localStep_connect {p : ℕ} {r : Request} (h : localStep env t io s l = some (s', l'))
    (hpc : l.pc = .cmdConnect p r) : s' = (connectSingleSocket env p s).1 := by
  simp only [localStep, hpc, Option.some.injEq, Prod.mk.injEq] at h
  exact h.1.symm

/-- The two halves of a command. -/
theorem localStep_command {p : ℕ} {r : Request} (h : localStep env t io s l = some (s', l'))
    (hpc : l.pc = .cmdSend p r ∨ ∃ c, l.pc = .cmdWait p c r) :
    s' = keepError env l' { s with pool := s'.pool } := by
  have hstep : (Threads.localStep env.toEnv t io s.pool l).map
      (fun x => (keepError env x.2 { s with pool := x.1 }, x.2)) = some (s', l') := by
    rcases hpc with hpc | ⟨c, hpc⟩ <;> simpa only [localStep, hpc] using h
  obtain ⟨x, -, hx⟩ := Option.map_eq_some_iff.mp hstep
  obtain ⟨rfl, rfl⟩ := Prod.mk.inj hx
  rw [keepError_pool]

/-- The other steps write no record. -/
theorem localStep_other (h : localStep env t io s l = some (s', l'))
    (hlocked : ∀ start cur, l.pc ≠ .getLocked start cur) (htarget : l.pc.target = none ∨
      (∃ p reply, l.pc = .cmdReturn p reply) ∨ ∃ p c r, l.pc = .cmdFree p c r) :
    s'.lastError = s.lastError := by
  cases hpc : l.pc with
  | getLocked start cur => exact absurd hpc (hlocked start cur)
  | cmdSend p r | cmdWait p c r | cmdConnect p r => simp [hpc, Pc.target] at htarget
  | _ =>
    simp only [localStep, hpc] at h
    obtain ⟨x, -, hx⟩ := Option.map_eq_some_iff.mp h
    obtain ⟨rfl, rfl⟩ := Prod.mk.inj hx
    rfl

theorem keepError_lastError (env : Env) (l : Local) (s : St) {q : ℕ}
    (hq : l.pc.target ≠ some q) : (keepError env l s).lastError q = s.lastError q := by
  unfold keepError
  split
  · next p hpc =>
    have hne : q ≠ p := by
      rintro rfl
      exact hq (by rw [hpc]; rfl)
    split
    · exact Function.update_of_ne hne _ _
    · rfl
  · rfl

theorem checkSocket_lastError (env : Env) (cur : ℕ) (s : St) {q : ℕ} (hq : q ≠ cur) :
    (checkSocket env cur s).1.lastError q = s.lastError q := by
  have hrec : ∀ s : St, (reconnect env cur s).1.lastError q = s.lastError q := by
    intro s
    unfold reconnect
    split
    · dsimp only [World.time]
      split
      · exact connectLoop_lastError env cur _ _ hq
      · rfl
    · rfl
  unfold checkSocket
  split
  · rfl
  · dsimp only
    split
    · exact hrec _
    · exact hrec _

theorem command_locks {env : Pool.Env} {s s' : Pool.St} {p : ℕ} {r : Request}
    (h : LocalStep env t s l s' l')
    (hpc : l.pc = .cmdSend p r ∨ ∃ c, l.pc = .cmdWait p c r) : l'.locks = l.locks := by
  cases h with
  | send hp _ _ | receive hp _ => rw [Local.locks, Local.locks, hp]; rfl
  | sendFailed hp _ | sendNull hp _ | timeout hp =>
    rw [Local.locks, Local.locks, hp, onNoReply_locks]
    rfl
  | _ => simp_all

/-- A thread writes only into the sockets it has locked. -/
theorem localStep_lastError (h : localStep env t io s l = some (s', l')) (ht : l.TargetHeld)
    {q : ℕ} (hq : q ∉ l.locks) : s'.lastError q = s.lastError q := by
  have hheld : ∀ p, l.pc.target = some p → q ≠ p := by
    rintro p hp rfl
    exact hq (Local.held_subset (ht q hp))
  have ht' := ThreadStep.targetHeld (Or.inr (localStep_erase h)) ht
  cases hpc : l.pc with
  | getLocked start cur =>
    have hne : q ≠ cur := fun e => hq (by simp [Local.locks, hpc, Pc.locks, e])
    simp only [localStep, hpc, Option.some.injEq, Prod.mk.injEq] at h
    rw [← h.1]
    exact checkSocket_lastError env cur s hne
  | cmdConnect p r =>
    rw [localStep_connect h hpc]
    exact connectLoop_lastError env p _ s (hheld p (by rw [hpc]; rfl))
  | cmdSend p r | cmdWait p c r =>
    have hcmd : l.pc = .cmdSend p r ∨ ∃ c, l.pc = .cmdWait p c r := by simp [hpc]
    rw [localStep_command h hcmd]
    refine keepError_lastError env l' _ fun htarget => hq ?_
    -- the thread holds the same sockets after the step
    rw [← command_locks (localStep_erase h) hcmd]
    exact Local.held_subset (ht' q htarget)
  | cmdFree p c r | cmdReturn p reply =>
    rw [localStep_other h (by simp [hpc]) (by simp [hpc])]
  | _ => rw [localStep_other h (by simp [hpc]) (by simp [hpc, Pc.target])]

end Steps

/-- One step of the system, by cases. -/
inductive SysStep (env : Env) (s : Sys) : Sys → Prop
  | call {t : ℕ} {api : Api} {pool : Pool.St} {l : Local} : (s.thr t).lib.pc = .idle →
      redisClient s.st.pool (s.thr t).lib api = true →
      CallStep t s.st.pool (s.thr t).lib api pool l →
      SysStep env s (s.put t { s.st with pool := pool } ((s.thr t).entered s.st l api))
  | step {t : ℕ} {io : Bool} {st : St} {l : Local} :
      localStep env t io s.st (s.thr t).lib = some (st, l) →
      SysStep env s (s.put t st { s.thr t with
        lib := l, attempts := (s.thr t).attempts ++ attemptsOf s.st.pool st.pool })
  | serve (c : ℕ) : SysStep env s (s.outside (World.serve c))
  | drop (c : ℕ) : SysStep env s (s.outside (World.drop c))
  | lose (c : ℕ) : SysStep env s (s.outside (World.lose c))

theorem SysStep.of_eq {env : Env} {s s' : Sys} {a : Action}
    (h : (machine env).step s a = some s') : SysStep env s s' := by
  cases a with
  | call t api =>
    simp only [machine, sysStep] at h
    split at h
    · rename_i hpc
      obtain ⟨⟨pool, l⟩, hc, rfl⟩ := Option.map_eq_some_iff.mp h
      exact .call hpc.1 hpc.2 (.of_eq hc)
    · cases h
  | step t io =>
    obtain ⟨⟨st, l⟩, hc, rfl⟩ := Option.map_eq_some_iff.mp h
    exact .step hc
  | serve c => cases h; exact .serve c
  | drop c => cases h; exact .drop c
  | lose c => cases h; exact .lose c

/-- The same step without the saved errors. -/
theorem SysStep.erase {env : Env} {s s' : Sys} (h : SysStep env s s') :
    Threads.SysStep env.toEnv redisClient s.erase s'.erase := by
  cases h with
  | @call t api pool l hidle hallow hcall =>
    have hlib : ((s.thr t).entered s.st l api).lib = l := by cases api <;> rfl
    rw [Sys.put_erase, hlib]
    exact .call hidle hallow hcall
  | step hstep =>
    rw [Sys.put_erase]
    exact .step (localStep_erase hstep)
  | serve c => exact .serve c
  | drop c => exact .drop c
  | lose c => exact .lose c

/-- Mutexes, `inuse` and the threads' own view agree. -/
theorem exclusive_invariant (env : Env) : (machine env).Invariant fun s => Exclusive s.erase := by
  refine Lts.invariant_of_inductive (fun s hs => ?_) fun s a s' ih h => ?_
  · obtain ⟨⟨config, hc⟩, hthr⟩ := hs
    obtain ⟨c, -, hcr, -⟩ := redisPoolCreate_created hc
    exact .of_idle (fun p => ⟨(hcr.free p).1, (hcr.free p).2.1⟩) fun t =>
      congrArg Thread.lib (hthr t)
  · exact ih.sysStep (SysStep.of_eq h).erase

/-! ## Replaying a run -/

/-- The state after the actions `as` on a new pool. -/
def replay (env : Env) (config : RedisConfig) (as : List Action) : Option Sys :=
  match redisPoolCreate env config World.init with
  | .ok st => (machine env).run ⟨st, fun _ => Thread.init⟩ as
  | .error _ => none

/-- A property of the replayed state is a property of a reachable state. -/
theorem exists_of_replay (env : Env) (config : RedisConfig) (as : List Action) (p : Sys → Bool)
    (h : (replay env config as).any p = true) : ∃ s, (machine env).Reachable s ∧ p s = true := by
  unfold replay at h
  split at h
  · rename_i st hst
    obtain ⟨s, hs, hp⟩ := (Option.any_eq_true p _).mp h
    have hinit : (machine env).init ⟨st, fun _ => Thread.init⟩ := ⟨⟨config, hst⟩, fun _ => rfl⟩
    exact ⟨s, (Lts.Reachable.init hinit).run hs, hp⟩
  · cases h

end Hiredispool.Lazy
