import Hiredispool.Lib.Lts
import Hiredispool.Pool.Command
import Hiredispool.Pool.Create

/-!
# Threads on one pool

Any number of threads call `redis_get_socket`, `redis_vcommand` and
`redis_release_socket` on one `REDIS_INSTANCE`, in any interleaving, while the
servers answer at their own pace. One step of a thread is one access to data
that other threads can change: the read of `last_used`, a `trylock`, all that
is done under the mutex of a socket (checks and connect), an `unlock`, the
write of `last_used`; and for a command the sending, the reading of the answer,
the `redisFree` and the reconnect.

* `localStep` is one step of a thread, made of the pieces that `redisGetSocket`
  and `redisVcommand` are made of; `LocalStep` is its inversion: one case for
  each thing a step can do.
* `machine` is the interleaving. Its parameter `allow` says which call a thread
  may start: `anyCall`, or the control flow of `RedisClient::redisvCommand`
  (`redisClient`), or a restriction on the sockets that commands are run on.
* In every policy a thread runs commands on sockets it holds, and releases each
  socket it holds at most once.
-/

namespace Hiredispool.Threads

open Hiredispool.Pool

/-! ## Threads -/

/-- Where a thread is. -/
inductive Pc
  | idle
  /-- `redis_get_socket`, before line 313 -/
  | getStart
  /-- before the `trylock` of `cur` (line 326) -/
  | getTry (start cur : ℕ)
  /-- the mutex of `cur` is locked, lines 334–393 -/
  | getLocked (start cur : ℕ)
  /-- before the `unlock` of the skipped `cur` (lines 336 and 373) -/
  | getUnlock (start cur : ℕ)
  /-- before the write of `last_used` (line 407) -/
  | getFound (cur : ℕ)
  /-- about to return (lines 408 and 437) -/
  | getReturn (r : Option ℕ)
  /-- `redisvCommand` is about to send (lines 487 and 505) -/
  | cmdSend (p : ℕ) (r : Request)
  /-- `redisvCommand` waits for an answer on `c` -/
  | cmdWait (p c : ℕ) (r : Request)
  /-- before `redisFree(c)` (line 495) -/
  | cmdFree (p : ℕ) (c : Option ℕ) (r : Request)
  /-- before the reconnect (line 498) -/
  | cmdConnect (p : ℕ) (r : Request)
  /-- `redis_vcommand` is about to return (line 517) -/
  | cmdReturn (p : ℕ) (reply : Option CtxReply)
  /-- `redis_release_socket`, before `inuse = 0` (line 452) -/
  | relClear (p : ℕ)
  /-- before the `unlock` (line 454) -/
  | relUnlock (p : ℕ)
deriving DecidableEq

/-- What the last library call returned to the thread. -/
inductive Ret
  | done
  | socket (r : Option ℕ)
  | reply (p : ℕ) (r : Option CtxReply)
deriving DecidableEq

/-- A thread: `held` are the sockets it was handed and has not released, `failed`
    those among them on which a command returned NULL, `calls` counts its
    commands, `callStart` is where the trace was when its last
    `redis_get_socket` began. -/
structure Local where
  pc : Pc
  held : List ℕ
  failed : List ℕ
  ret : Ret
  calls : ℕ
  callStart : ℕ

/-- A thread that has not called the library yet. -/
def Local.init : Local := ⟨.idle, [], [], .done, 0, 0⟩

/-- A call of the library. -/
inductive Api
  | get
  | vcommand (p : ℕ) (cmd : Command)
  | release (p : Option ℕ)
deriving DecidableEq

/-- The move to the next socket, or the end of the scan. -/
def getNext (start cur : ℕ) (s : St) : Pc :=
  match nextSocket start cur s with
  | none => .getReturn none
  | some cur => .getTry start cur

/-- `redisvCommand` returned NULL: reconnect after the first attempt (line 489),
    give up after the retry (line 507). -/
def onNoReply (p : ℕ) (c : Option ℕ) (r : Request) : Pc :=
  if r.attempt = 0 then .cmdFree p c r else .cmdReturn p none

/-- The thread after `redis_vcommand` on `p` has returned `reply`. -/
def Local.returned (l : Local) (p : ℕ) (reply : Option CtxReply) : Local :=
  { l with
    pc := .idle
    failed := if reply = none then p :: l.failed else l.failed
    ret := .reply p reply
    calls := l.calls + 1 }

/-- One step of thread `t`. `io` is false if the connection breaks or times out
    in this step; it matters to the two halves of `redisvCommand` only. `none`
    while the thread is idle or waits for an answer. -/
def localStep (env : Env) (t : ℕ) (io : Bool) (s : St) (l : Local) : Option (St × Local) :=
  match l.pc with
  | .idle => none
  | .getStart =>
    match scanStart s with
    | none => some (s, { l with pc := .getReturn none })
    | some start => some (s, { l with pc := .getTry start start })
  | .getTry start cur =>
    let (s', locked) := tryLock t cur s
    some (s', { l with pc := if locked then .getLocked start cur else getNext start cur s' })
  | .getLocked start cur =>
    let (s', found) := checkSocket env cur s
    some (s', { l with pc := if found then .getFound cur else .getUnlock start cur })
  | .getUnlock start cur =>
    let s' := unlock t cur s
    some (s', { l with pc := getNext start cur s' })
  | .getFound cur => some (setLastUsed cur s, { l with pc := .getReturn (some cur) })
  | .getReturn r =>
    some (s.log (.getReturn t r),
      { l with pc := .idle, held := r.toList ++ l.held, ret := .socket r })
  | .cmdSend p r =>
    let c := (s.sock p).conn
    let (w, sent) := s.world.append c r io
    some ({ s with world := w }, { l with pc := match sent with
      | some c => .cmdWait p c r
      | none => onNoReply p c r })
  | .cmdWait p c r =>
    (s.world.await c r (!io)).map fun (w, a) =>
      ({ s with world := w }, { l with pc := match a with
        | some a => .cmdReturn p (some (c, a))
        | none => onNoReply p (some c) r })
  | .cmdFree p c r =>
    some ({ s with world := s.world.redisFree c }, { l with pc := .cmdConnect p r })
  | .cmdConnect p r =>
    let (s', ok) := connectSingleSocket env p s
    some (s', { l with pc := if ok then .cmdSend p r.retry else .cmdReturn p none })
  | .cmdReturn p reply =>
    some (s.log (.returned t l.calls reply), l.returned p reply)
  | .relClear p => some (setInuse p 0 s, { l with pc := .relUnlock p })
  | .relUnlock p => some (unlock t p s, { l with pc := .idle, ret := .done })

/-- An idle thread enters the library. -/
def startCall (t : ℕ) (s : St) (l : Local) : Api → Option (St × Local)
  | .get =>
    some (s.log (.getCall t), { l with pc := .getStart, callStart := s.world.trace.length })
  | .vcommand p cmd =>
    if p ∈ l.held then some (s, { l with pc := .cmdSend p ⟨t, l.calls, 0, cmd⟩ }) else none
  | .release none => some (s, { l with ret := .done })
  | .release (some p) =>
    if p ∈ l.held then
      some (s, { l with
        pc := .relClear p, held := l.held.erase p, failed := l.failed.filter (· ≠ p) })
    else none

/-! ## The interleaving -/

/-- The pool and its threads. -/
structure Sys where
  st : St
  thr : ℕ → Local

/-- What can happen next. -/
inductive Action
  | call (t : ℕ) (api : Api)
  | step (t : ℕ) (io : Bool)
  | serve (c : ℕ)
  | drop (c : ℕ)
  | lose (c : ℕ)

/-- Which call a thread may start. -/
abbrev Policy := St → Local → Api → Bool

/-- No restriction. -/
def anyCall : Policy := fun _ _ _ => true

/-- A command is started on a socket whose state is `sockconnected` only. -/
def onConnected : Policy := fun s _ api =>
  match api with
  | .vcommand p _ => (s.sock p).state = .sockconnected
  | _ => true

/-- No further command on a held socket after one on it has returned NULL. -/
def stopAfterNull : Policy := fun _ l api =>
  match api with
  | .vcommand p _ => p ∉ l.failed
  | _ => true

/-- The control flow of `RedisClient::redisvCommand` (RedisClient.cpp:22–34): the
    constructor of `PooledSocket`, one command if the socket is not NULL, and
    the destructor, which releases the socket even if it is NULL. -/
def redisClient : Policy := fun _ l api =>
  match l.ret, api with
  | .done, .get => true
  | .socket (some p), .vcommand q _ => p = q
  | .socket none, .release none => true
  | .reply p _, .release (some q) => p = q
  | _, _ => false

/-- Put the result of a step of thread `t` back. -/
def Sys.put (s : Sys) (t : ℕ) (r : St × Local) : Sys := ⟨r.1, Function.update s.thr t r.2⟩

/-- Something happens outside of the process. -/
def Sys.outside (s : Sys) (f : World → World) : Sys :=
  { s with st := { s.st with world := f s.st.world } }

/-- One step of the system. -/
def sysStep (env : Env) (allow : Policy) (s : Sys) : Action → Option Sys
  | .call t api =>
    if (s.thr t).pc = .idle ∧ allow s.st (s.thr t) api = true then
      (startCall t s.st (s.thr t) api).map (s.put t)
    else none
  | .step t io => (localStep env t io s.st (s.thr t)).map (s.put t)
  | .serve c => some (s.outside (World.serve c))
  | .drop c => some (s.outside (World.drop c))
  | .lose c => some (s.outside (World.lose c))

/-- A pool that `redis_pool_create` has returned, and no thread in the library. -/
def Initial (env : Env) (s : Sys) : Prop :=
  (∃ config, redisPoolCreate env config World.init = .ok s.st) ∧ ∀ t, s.thr t = Local.init

/-- The threads on one pool. -/
def machine (env : Env) (allow : Policy) : Lts Sys Action where
  init := Initial env
  step := sysStep env allow

/-! ## What a step can do -/

/-- One step of thread `t`, from `(s, l)` to `(s', l')`, by cases. -/
inductive LocalStep (env : Env) (t : ℕ) (s : St) (l : Local) : St → Local → Prop
  | startEmpty : l.pc = .getStart → scanStart s = none →
      LocalStep env t s l s { l with pc := .getReturn none }
  | start {start : ℕ} : l.pc = .getStart → scanStart s = some start →
      LocalStep env t s l s { l with pc := .getTry start start }
  | lock {start cur : ℕ} : l.pc = .getTry start cur → (s.sock cur).mutex = none →
      LocalStep env t s l
        ((s.setSock cur fun r => { r with mutex := some t }).log (.trylock t cur true))
        { l with pc := .getLocked start cur }
  | busy {start cur u : ℕ} : l.pc = .getTry start cur → (s.sock cur).mutex = some u →
      LocalStep env t s l (s.log (.trylock t cur false))
        { l with pc := getNext start cur (s.log (.trylock t cur false)) }
  | found {start cur : ℕ} : l.pc = .getLocked start cur → (checkSocket env cur s).2 = true →
      LocalStep env t s l (checkSocket env cur s).1 { l with pc := .getFound cur }
  | skip {start cur : ℕ} : l.pc = .getLocked start cur → (checkSocket env cur s).2 = false →
      LocalStep env t s l (checkSocket env cur s).1 { l with pc := .getUnlock start cur }
  | skipped {start cur : ℕ} : l.pc = .getUnlock start cur →
      LocalStep env t s l (unlock t cur s) { l with pc := getNext start cur (unlock t cur s) }
  | lastUsed {cur : ℕ} : l.pc = .getFound cur →
      LocalStep env t s l (setLastUsed cur s) { l with pc := .getReturn (some cur) }
  | getReturn {r : Option ℕ} : l.pc = .getReturn r →
      LocalStep env t s l (s.log (.getReturn t r))
        { l with pc := .idle, held := r.toList ++ l.held, ret := .socket r }
  | send {p c : ℕ} {r : Request} : l.pc = .cmdSend p r → (s.sock p).conn = some c →
      (s.world.ctx c).err = false →
      LocalStep env t s l
        { s with world := (s.world.sending (some c) r).setCtx c fun x =>
            { x with sent := x.sent ++ [r] } }
        { l with pc := .cmdWait p c r }
  | sendFailed {p c : ℕ} {r : Request} : l.pc = .cmdSend p r → (s.sock p).conn = some c →
      LocalStep env t s l
        { s with world := ((s.world.sending (some c) r).setErr c).log (.noReply r) }
        { l with pc := onNoReply p (some c) r }
  | sendNull {p : ℕ} {r : Request} : l.pc = .cmdSend p r → (s.sock p).conn = none →
      LocalStep env t s l
        { s with world := (s.world.sending none r).log (.noReply r) }
        { l with pc := onNoReply p none r }
  | receive {p c : ℕ} {r : Request} {a : Reply} {rest : List Reply} : l.pc = .cmdWait p c r →
      (s.world.ctx c).inbox = a :: rest →
      LocalStep env t s l
        { s with world := s.world.setCtx c fun x => { x with inbox := rest } }
        { l with pc := .cmdReturn p (some (c, a)) }
  | timeout {p c : ℕ} {r : Request} : l.pc = .cmdWait p c r →
      LocalStep env t s l { s with world := (s.world.setErr c).log (.noReply r) }
        { l with pc := onNoReply p (some c) r }
  | free {p : ℕ} {c : Option ℕ} {r : Request} : l.pc = .cmdFree p c r →
      LocalStep env t s l { s with world := s.world.redisFree c } { l with pc := .cmdConnect p r }
  | reconnected {p : ℕ} {r : Request} : l.pc = .cmdConnect p r →
      (connectSingleSocket env p s).2 = true →
      LocalStep env t s l (connectSingleSocket env p s).1 { l with pc := .cmdSend p r.retry }
  | serverDown {p : ℕ} {r : Request} : l.pc = .cmdConnect p r →
      (connectSingleSocket env p s).2 = false →
      LocalStep env t s l (connectSingleSocket env p s).1 { l with pc := .cmdReturn p none }
  | cmdReturn {p : ℕ} {reply : Option CtxReply} : l.pc = .cmdReturn p reply →
      LocalStep env t s l (s.log (.returned t l.calls reply)) (l.returned p reply)
  | clear {p : ℕ} : l.pc = .relClear p →
      LocalStep env t s l (setInuse p 0 s) { l with pc := .relUnlock p }
  | released {p : ℕ} : l.pc = .relUnlock p →
      LocalStep env t s l (unlock t p s) { l with pc := .idle, ret := .done }

theorem LocalStep.of_eq {env : Env} {t : ℕ} {io : Bool} {s s' : St} {l l' : Local}
    (h : localStep env t io s l = some (s', l')) : LocalStep env t s l s' l' := by
  unfold localStep at h
  cases hpc : l.pc with
  | idle => simp [hpc] at h
  | getStart =>
    simp only [hpc] at h
    cases hs : scanStart s with
    | none => simp only [hs] at h; cases h; exact .startEmpty hpc hs
    | some start => simp only [hs] at h; cases h; exact .start hpc hs
  | getTry start cur =>
    simp only [hpc, tryLock] at h
    cases hm : (s.sock cur).mutex with
    | none => simp only [hm] at h; cases h; exact .lock hpc hm
    | some u => simp only [hm] at h; cases h; exact .busy hpc hm
  | getLocked start cur =>
    simp only [hpc] at h
    cases hc : (checkSocket env cur s).2 with
    | true => simp only [hc] at h; cases h; exact .found hpc hc
    | false => simp only [hc] at h; cases h; exact .skip hpc hc
  | getUnlock start cur => simp only [hpc] at h; cases h; exact .skipped hpc
  | getFound cur => simp only [hpc] at h; cases h; exact .lastUsed hpc
  | getReturn r => simp only [hpc] at h; cases h; exact .getReturn hpc
  | cmdSend p r =>
    simp only [hpc] at h
    cases hc : (s.sock p).conn with
    | none => simp only [hc, World.append] at h; cases h; exact .sendNull hpc hc
    | some c =>
      simp only [hc, World.append, World.sending_ctx] at h
      by_cases hb : (s.world.ctx c).err || !io
      · simp only [hb, if_true] at h; cases h; exact .sendFailed hpc hc
      · simp only [hb, Bool.false_eq_true, if_false] at h; cases h
        exact .send hpc hc (by simp_all)
  | cmdWait p c r =>
    simp only [hpc, World.await] at h
    cases io with
    | false => simp at h; obtain ⟨rfl, rfl⟩ := h; exact .timeout hpc
    | true =>
      cases hi : (s.world.ctx c).inbox with
      | nil => simp [hi] at h
      | cons a rest => simp [hi] at h; obtain ⟨rfl, rfl⟩ := h; exact .receive hpc hi
  | cmdFree p c r => simp only [hpc] at h; cases h; exact .free hpc
  | cmdConnect p r =>
    simp only [hpc] at h
    cases hc : (connectSingleSocket env p s).2 with
    | true => simp only [hc] at h; cases h; exact .reconnected hpc hc
    | false => simp only [hc] at h; cases h; exact .serverDown hpc hc
  | cmdReturn p reply => simp only [hpc] at h; cases h; exact .cmdReturn hpc
  | relClear p => simp only [hpc] at h; cases h; exact .clear hpc
  | relUnlock p => simp only [hpc] at h; cases h; exact .released hpc

/-- A thread that is outside of the library does no step in it. -/
theorem LocalStep.pc_ne_idle {env : Env} {t : ℕ} {s s' : St} {l l' : Local}
    (h : LocalStep env t s l s' l') : l.pc ≠ .idle := by
  intro hidle
  cases h <;> simp_all

/-- The start of a call by an idle thread `t`, by cases. -/
inductive CallStep (t : ℕ) (s : St) (l : Local) : Api → St → Local → Prop
  | get : CallStep t s l .get (s.log (.getCall t))
      { l with pc := .getStart, callStart := s.world.trace.length }
  | vcommand {p : ℕ} {cmd : Command} : p ∈ l.held →
      CallStep t s l (.vcommand p cmd) s { l with pc := .cmdSend p ⟨t, l.calls, 0, cmd⟩ }
  | releaseNull : CallStep t s l (.release none) s { l with ret := .done }
  | release {p : ℕ} : p ∈ l.held →
      CallStep t s l (.release (some p)) s
        { l with pc := .relClear p, held := l.held.erase p, failed := l.failed.filter (· ≠ p) }

theorem CallStep.of_eq {t : ℕ} {s s' : St} {l l' : Local} {api : Api}
    (h : startCall t s l api = some (s', l')) : CallStep t s l api s' l' := by
  unfold startCall at h
  cases api with
  | get => cases h; exact .get
  | vcommand p cmd =>
    by_cases hp : p ∈ l.held
    · simp only [hp, if_true] at h; cases h; exact .vcommand hp
    · simp [hp] at h
  | release p =>
    cases p with
    | none => cases h; exact .releaseNull
    | some p =>
      by_cases hp : p ∈ l.held
      · simp only [hp, if_true] at h; cases h; exact .release hp
      · simp [hp] at h

/-- One step of the system, by cases. -/
inductive SysStep (env : Env) (allow : Policy) (s : Sys) : Sys → Prop
  | call {t : ℕ} {api : Api} {st : St} {l : Local} : (s.thr t).pc = .idle →
      allow s.st (s.thr t) api = true → CallStep t s.st (s.thr t) api st l →
      SysStep env allow s (s.put t (st, l))
  | step {t : ℕ} {st : St} {l : Local} : LocalStep env t s.st (s.thr t) st l →
      SysStep env allow s (s.put t (st, l))
  | serve (c : ℕ) : SysStep env allow s (s.outside (World.serve c))
  | drop (c : ℕ) : SysStep env allow s (s.outside (World.drop c))
  | lose (c : ℕ) : SysStep env allow s (s.outside (World.lose c))

theorem SysStep.of_eq {env : Env} {allow : Policy} {s s' : Sys} {a : Action}
    (h : (machine env allow).step s a = some s') : SysStep env allow s s' := by
  cases a with
  | call t api =>
    simp only [machine, sysStep] at h
    split at h
    · rename_i hpc
      obtain ⟨⟨st, l⟩, hc, rfl⟩ := Option.map_eq_some_iff.mp h
      exact .call hpc.1 hpc.2 (.of_eq hc)
    · cases h
  | step t io =>
    obtain ⟨⟨st, l⟩, hc, rfl⟩ := Option.map_eq_some_iff.mp h
    exact .step (.of_eq hc)
  | serve c => cases h; exact .serve c
  | drop c => cases h; exact .drop c
  | lose c => cases h; exact .lose c

/-! ## Replaying a run -/

/-- The state after the actions `as` on a new pool. -/
def replay (env : Env) (allow : Policy) (config : RedisConfig) (as : List Action) : Option Sys :=
  match redisPoolCreate env config World.init with
  | .ok st => (machine env allow).run ⟨st, fun _ => Local.init⟩ as
  | .error _ => none

/-- A replayed run is a run of the machine on a pool that was created. -/
theorem exists_run_of_replay (env : Env) (allow : Policy) (config : RedisConfig) (as : List Action)
    (p : Sys → Bool) (h : (replay env allow config as).any p = true) :
    ∃ st s, redisPoolCreate env config World.init = .ok st ∧
      (machine env allow).run ⟨st, fun _ => Local.init⟩ as = some s ∧ p s = true := by
  unfold replay at h
  split at h
  · rename_i st hst
    obtain ⟨s, hs, hp⟩ := (Option.any_eq_true p _).mp h
    exact ⟨st, s, hst, hs, hp⟩
  · cases h

/-- A property of the replayed state is a property of a reachable state. -/
theorem exists_of_replay (env : Env) (allow : Policy) (config : RedisConfig) (as : List Action)
    (p : Sys → Bool) (h : (replay env allow config as).any p = true) :
    ∃ s, (machine env allow).Reachable s ∧ p s = true := by
  obtain ⟨st, s, hst, hs, hp⟩ := exists_run_of_replay env allow config as p h
  have hinit : (machine env allow).init ⟨st, fun _ => Local.init⟩ := ⟨⟨config, hst⟩, fun _ => rfl⟩
  exact ⟨s, (Lts.Reachable.init hinit).run hs, hp⟩

section Simp

variable (s : Sys) (t : ℕ) (r : St × Local) (f : World → World)

@[simp] theorem Sys.put_st : (s.put t r).st = r.1 := rfl
@[simp] theorem Sys.put_thr_self : (s.put t r).thr t = r.2 := by simp [Sys.put]
@[simp] theorem Sys.put_thr_of_ne {u : ℕ} (h : u ≠ t) : (s.put t r).thr u = s.thr u := by
  simp [Sys.put, h]
@[simp] theorem Sys.outside_thr : (s.outside f).thr = s.thr := rfl
@[simp] theorem Sys.outside_sock : (s.outside f).st.sock = s.st.sock := rfl

end Simp

end Hiredispool.Threads
