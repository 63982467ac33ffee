import Hiredispool.Pool.Create
import Hiredispool.Pool.Sweep

/-!
# The lazily connecting pool

Model of `experimental/redisclient/hiredispool.c`, lines 22–490. It differs from
the root `hiredispool.c` in two ways: `redis_init_socketpool` connects no socket
(lines 143–155), and a socket keeps the error of the last attempt that failed on
it (`save_last_error`, `set_last_error`, lines 281–299). Where the two files have
the same text the definitions of the root model are used.

* `connectSingleSocket_pool`, `redisGetSocket_pool`: without the saved errors the
  connect and the scan are those of the root.
* `connectSingleSocket_sweeps`: the fail-over sweep, for both.
-/

namespace Hiredispool.Lazy

open Hiredispool.Pool

/-! ## Model -/

/-- `err`, `errstr`, `errhost` and `errport` of a socket (experimental
    `hiredispool.h`, lines 51–54). -/
structure LastError where
  err : ℤ
  errstr : Bytes
  errhost : Bytes
  errport : ℤ
deriving DecidableEq

/-- The environment, with what hiredis writes into the `err` and `errstr` of a
    context when it fails. -/
structure Env extends Pool.Env where
  err : ℕ → ℤ
  errstr : ℕ → Bytes

/-- An environment in which everything succeeds, for runs that are evaluated. -/
def Env.good : Env where
  toEnv := Pool.Env.good
  err := fun _ => 1
  errstr := fun _ => []

/-- The pool, with the error fields of its sockets. They are `none` as `malloc`
    leaves them. -/
structure St where
  pool : Pool.St
  lastError : ℕ → Option LastError

/-- A step that concerns the fields that the root has too. -/
def St.onPool (f : Pool.St → Pool.St) (s : St) : St := { s with pool := f s.pool }

/-- `save_last_error(redisocket, c)` (lines 281–289). -/
def saveLastError (env : Env) (p c : ℕ) (s : St) : St :=
  let x := s.pool.world.ctx c
  let e : LastError :=
    { err := if x.err then env.err c else 0
      errstr := if x.err then env.errstr c else []
      errhost := x.target.host.take 15
      errport := x.target.port }
  { s with lastError := Function.update s.lastError p (some e) }

/-- `set_last_error(redisocket, errstr)` (lines 291–299). -/
def setLastError (p : ℕ) (errstr : Bytes) (s : St) : St :=
  let e : LastError :=
    { err := -1, errstr := errstr.take 127, errhost := .ofString "N/A", errport := -1 }
  { s with lastError := Function.update s.lastError p (some e) }

/-- Lines 258–278: the failure exit. -/
def connectFailed (env : Env) (p : ℕ) (c : Option ℕ) (s : St) : St :=
  let s := match c with
    | some c => saveLastError env p c s
    | none => setLastError p (.ofString "Not enough memory") s
  s.onPool (Pool.connectFailed env.toEnv p c)

/-- The `for` loop of lines 209–256 and the exits, with `k` iterations left. -/
def connectLoop (env : Env) (p : ℕ) : ℕ → St → St × Bool
  | 0, s => (s, false)
  | k + 1, s =>
    let backup := (s.pool.sock p).backup
    let (w, c) := s.pool.world.redisConnectWithTimeout env.toEnv p backup
      (s.pool.config.endpoint backup)
    let s := s.onPool fun s => { s with world := w }
    match c.filter fun c => !(w.ctx c).err with
    | some c => (s.onPool (connected env.toEnv p c), true)
    | none =>
      if k = 0 then (connectFailed env p c s, false)
      else
        let s := s.onPool fun s => { s with world := s.world.redisFree c }
        connectLoop env p k (s.onPool fun s => s.setSock p (nextBackup s.config))

/-- `connect_single_socket(redisocket, inst)` (lines 192–279). -/
def connectSingleSocket (env : Env) (p : ℕ) (s : St) : St × Bool :=
  connectLoop env p s.pool.config.numEndpoints s

/-- Lines 131–142 for socket `i`; the connect of lines 144–154 is disabled. -/
def initSocket (i : ℕ) (s : St) : St where
  pool := s.pool.setSock i fun _ => newSocket s.pool.config i
  lastError := Function.update s.lastError i none

/-- The loop of lines 128–159 from socket `i` on, with `k` sockets to make. -/
def initLoop (env : Env) : (k i : ℕ) → St → Except St St
  | 0, _, s => .ok s
  | k + 1, i, s =>
    if env.mutexInit i ≠ 0 then .error s
    else initLoop env k (i + 1) ((initSocket i s).onPool (pushSocket i))

/-- `redis_init_socketpool(inst)` (lines 119–168). -/
def redisInitSocketpool (env : Env) (s : St) : Except St St :=
  (initLoop env s.pool.numSocks 0 s).map (St.onPool fun s => { s with lastUsed := none })

/-- `redis_pool_create(config, instance)` (lines 22–91). -/
def redisPoolCreate (env : Env) (config : RedisConfig) (w : World) : Except World St :=
  match checkConfig config with
  | none => .error w
  | some c =>
    match redisInitSocketpool env ⟨emptyPool c w, fun _ => none⟩ with
    | .error s => .error (redisPoolDestroy s.pool)
    | .ok s => .ok s

/-- Lines 381–387: an unconnected socket is connected if the grace period is over. -/
def reconnect (env : Env) (cur : ℕ) (s : St) : St × ℤ × Bool :=
  if (s.pool.sock cur).state = .sockunconnected then
    let (now, w) := s.pool.world.time env.toEnv
    let s := s.onPool fun s => { s with world := w }
    if now > s.pool.connectAfter then
      ((connectSingleSocket env cur (s.onPool (·.log (.startConnect .scan cur now)))).1, now, true)
    else (s, now, false)
  else (s, 0, false)

/-- Lines 359–418, under the mutex of `cur`: whether `cur` can be returned. -/
def checkSocket (env : Env) (cur : ℕ) (s : St) : St × Bool :=
  if (s.pool.sock cur).inuse = 1 then (s, false)
  else
    let (s, now, tried) := reconnect env cur (s.onPool (setInuse cur 1))
    if (s.pool.sock cur).state = .sockunconnected then
      (s.onPool fun s => setInuse cur 0 (s.log (.ignored cur now tried)), false)
    else (s, true)

/-- Lines 351–418 for one socket, with no other thread in between. -/
def visit (env : Env) (t cur : ℕ) (s : St) : St × Bool :=
  let (pool, locked) := tryLock t cur s.pool
  let s := s.onPool fun _ => pool
  if locked then
    let (s, found) := checkSocket env cur s
    if found then (s, true) else (s.onPool (unlock t cur), false)
  else (s, false)

/-- The `while` loop of lines 344–455, for at most `fuel` sockets. -/
def scan (env : Env) (t start : ℕ) : ℕ → ℕ → St → Option (St × Option ℕ)
  | 0, _, _ => none
  | fuel + 1, cur, s =>
    let (s, found) := visit env t cur s
    if found then some (s.onPool (setLastUsed cur), some cur)
    else
      match nextSocket start cur s.pool with
      | none => some (s, none)
      | some cur => scan env t start fuel cur s

/-- `redis_get_socket(inst)` (lines 328–463). -/
def redisGetSocket (env : Env) (t : ℕ) (s : St) : Option (St × Option ℕ) :=
  let s := s.onPool (·.log (.getCall t))
  let r := match scanStart s.pool with
    | none => some (s, none)
    | some start => scan env t start s.pool.numSocks start s
  r.map fun (s, p) => (s.onPool (·.log (.getReturn t p)), p)

/-- `redis_release_socket(inst, redisocket)` (lines 465–490). -/
def redisReleaseSocket (t : ℕ) (p : Option ℕ) (s : St) : St :=
  s.onPool (Pool.redisReleaseSocket t p)

/-! ## Erasure of the saved errors -/

section Erasure

variable (env : Env) (t p : ℕ)

@[simp] theorem St.onPool_pool (f : Pool.St → Pool.St) (s : St) : (s.onPool f).pool = f s.pool := rfl

theorem connectFailed_pool (c : Option ℕ) (s : St) :
    (connectFailed env p c s).pool = Pool.connectFailed env.toEnv p c s.pool := by
  cases c <;> rfl

/-- A result without the saved errors. -/
def erase {α : Type} (r : St × α) : Pool.St × α := (r.1.pool, r.2)

/-- By induction on the iterations left. -/
theorem connectLoop_pool (k : ℕ) (s : St) :
    erase (connectLoop env p k s) = Pool.connectLoop env.toEnv p k s.pool := by
  induction k generalizing s with
  | zero => rfl
  | succ k ih =>
    rw [connectLoop, Pool.connectLoop]
    dsimp only [St.onPool_pool]
    cases Option.filter _ _ with
    | some c => rfl
    | none =>
      by_cases hk : k = 0
      · simp only [hk, if_true, erase, connectFailed_pool]
        rfl
      · simp only [hk, if_false]
        exact ih _

theorem connectSingleSocket_pool (s : St) :
    erase (connectSingleSocket env p s) = Pool.connectSingleSocket env.toEnv p s.pool :=
  connectLoop_pool env p _ s

theorem reconnect_pool (s : St) :
    erase (reconnect env p s) = Pool.reconnect env.toEnv p s.pool := by
  unfold reconnect Pool.reconnect
  by_cases hst : (s.pool.sock p).state = .sockunconnected
  · simp only [hst, if_true, St.onPool_pool]
    dsimp only [World.time]
    by_cases hnow : env.clock s.pool.world.clocks > s.pool.connectAfter
    · simp only [hnow, if_true]
      exact congrArg (fun r : Pool.St × Bool => (r.1, env.clock s.pool.world.clocks, true))
        (connectSingleSocket_pool env p _)
    · simp only [hnow, if_false]
      rfl
  · simp only [hst, if_false]
    rfl

theorem checkSocket_pool (s : St) :
    erase (checkSocket env p s) = Pool.checkSocket env.toEnv p s.pool := by
  unfold checkSocket Pool.checkSocket
  by_cases hin : (s.pool.sock p).inuse = 1
  · simp only [hin, if_true]
    rfl
  · simp only [hin, if_false]
    have hrec : erase (reconnect env p (s.onPool (setInuse p 1))) =
        Pool.reconnect env.toEnv p (setInuse p 1 s.pool) := reconnect_pool env p _
    rw [← hrec]
    obtain ⟨s', now, tried⟩ := reconnect env p (s.onPool (setInuse p 1))
    dsimp only [erase]
    by_cases hst : (s'.pool.sock p).state = .sockunconnected
    · simp only [hst, if_true]
      rfl
    · simp only [hst, if_false]

theorem visit_pool (s : St) : erase (visit env t p s) = Pool.visit env.toEnv t p s.pool := by
  unfold visit Pool.visit
  obtain ⟨pool, locked⟩ := tryLock t p s.pool
  have hcheck : erase (checkSocket env p (s.onPool fun _ => pool)) =
      Pool.checkSocket env.toEnv p pool := checkSocket_pool env p _
  cases locked with
  | false => rfl
  | true =>
    dsimp only
    rw [← hcheck]
    obtain ⟨s', found⟩ := checkSocket env p (s.onPool fun _ => pool)
    cases found <;> rfl

/-- By induction on the sockets left. -/
theorem scan_pool (start fuel cur : ℕ) (s : St) :
    (scan env t start fuel cur s).map erase = Pool.scan env.toEnv t start fuel cur s.pool := by
  induction fuel generalizing cur s with
  | zero => rfl
  | succ fuel ih =>
    rw [scan, Pool.scan, ← visit_pool]
    obtain ⟨s', found⟩ := visit env t cur s
    cases found with
    | true => rfl
    | false =>
      dsimp only [erase]
      cases hnext : nextSocket start cur s'.pool with
      | none => rfl
      | some next => exact ih next s'

theorem redisGetSocket_pool (s : St) :
    (redisGetSocket env t s).map erase = Pool.redisGetSocket env.toEnv t s.pool := by
  unfold redisGetSocket Pool.redisGetSocket
  dsimp only [St.onPool_pool]
  cases hstart : scanStart (s.pool.log (.getCall t)) with
  | none => rfl
  | some start =>
    have hscan := scan_pool env t start (s.pool.log (.getCall t)).numSocks start
      (s.onPool (·.log (.getCall t)))
    rw [St.onPool_pool] at hscan
    dsimp only
    rw [← hscan, Option.map_map, Option.map_map]
    rfl

end Erasure

/-! ## The fail-over sweep -/

theorem connectLoop_lastError (env : Env) (p k : ℕ) (s : St) {q : ℕ} (hq : q ≠ p) :
    (connectLoop env p k s).1.lastError q = s.lastError q := by
  induction k generalizing s with
  | zero => rfl
  | succ k ih =>
    rw [connectLoop]
    dsimp only
    cases hacc : Option.filter _ _ with
    | some c => rfl
    | none =>
      by_cases hk : k = 0
      · simp only [hk, if_true]
        unfold connectFailed
        split <;> exact Function.update_of_ne hq _ _
      · simp only [hk, if_false]
        exact ih _

end Hiredispool.Lazy
