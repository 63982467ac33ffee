import Mathlib.Data.List.Basic
import Mathlib.Tactic

/-!
# The pool's data model

The types of `hiredispool.h` (lines 27–57), the part of hiredis that
`hiredispool.c` sees, and the environment.

* Threads `t`, sockets `p` and contexts `c` are natural numbers. A
  `REDIS_SOCKET*` is the number of its allocation, and the memory it points to
  is `St.sock`; a `redisContext*` is the number of the context, and the memory
  is `World.ctx`. `NULL` is `none`.
* What the code cannot decide (clock, `rand()`, the outcome of a connect, of
  the two option calls, of a command and of `pthread_mutex_init`) comes from
  `Env`, as streams indexed by the number of the call. A theorem for every
  `Env` is a theorem for every sequence of outcomes.
* `World.trace` records the calls that the theorems speak about, in order.

The log calls are left out, and so are the timeouts handed to hiredis: no
branch of the code depends on them.
-/

namespace Hiredispool.Pool

/-- The bytes of a C string before its NUL. -/
abbrev Bytes := List UInt8

/-- The bytes of a literal of the source. -/
def Bytes.ofString (s : String) : Bytes := s.toUTF8.data.toList

/-- The bytes of a `std::string` before its first NUL, as `c_str` is read. -/
def cStr (s : Bytes) : Bytes := s.takeWhile (· ≠ 0)

/-! ## `hiredispool.h` -/

/-- `REDIS_ENDPOINT` (lines 28–31). -/
structure RedisEndpoint where
  host : Bytes
  port : ℤ
deriving DecidableEq, Inhabited

/-- `REDIS_CONFIG` (lines 33–40), as the caller passes it. `endpoints` is
    `none` for NULL; otherwise it points to at least `num_endpoints` entries. -/
structure RedisConfig where
  endpoints : Option (List RedisEndpoint)
  numEndpoints : ℤ
  connectTimeout : ℤ
  netReadwriteTimeout : ℤ
  numRedisSocks : ℤ
  connectFailureRetryDelay : ℤ
  numEndpoints_le : ∀ l, endpoints = some l → numEndpoints ≤ l.length

/-- The check of lines 68–72 of `redis_pool_create`: a non-empty host and a
    port in `1 … 65535`. -/
def endpointOk (e : RedisEndpoint) : Bool :=
  !e.host.isEmpty && decide (0 < e.port) && decide (e.port ≤ 65535)

/-- `MAX_REDIS_SOCKS` (hiredispool.c:13). -/
def maxRedisSocks : ℤ := 1000

/-- `inst->config`: the pool's own copy of the configuration, after the checks
    and the normalisation of `redis_pool_create` (lines 33–74). -/
structure PoolConfig where
  endpoints : List RedisEndpoint
  connectTimeout : ℤ
  netReadwriteTimeout : ℤ
  numRedisSocks : ℤ
  connectFailureRetryDelay : ℤ
  endpoints_pos : 0 < endpoints.length
  endpoints_ok : ∀ e ∈ endpoints, endpointOk e = true
  numRedisSocks_le : numRedisSocks ≤ maxRedisSocks
  connectTimeout_nonneg : 0 ≤ connectTimeout
  netReadwriteTimeout_nonneg : 0 ≤ netReadwriteTimeout
  delay_cases : connectFailureRetryDelay = -1 ∨ 1 ≤ connectFailureRetryDelay

/-- `inst->config->num_endpoints`. -/
def PoolConfig.numEndpoints (c : PoolConfig) : ℕ := c.endpoints.length

/-- The number of sockets that the creation loop makes. -/
def PoolConfig.numSocks (c : PoolConfig) : ℕ := c.numRedisSocks.toNat

/-- The `state` of a `REDIS_SOCKET` (line 48). -/
inductive SockState
  | sockunconnected
  | sockconnected
deriving DecidableEq, Inhabited

/-- `REDIS_SOCKET` (lines 42–50). `mutex` is the thread that has it locked. -/
structure RedisSocket where
  id : ℕ
  backup : ℕ
  mutex : Option ℕ
  inuse : ℕ
  next : Option ℕ
  state : SockState
  conn : Option ℕ
deriving Inhabited

/-! ## hiredis and the servers -/

/-- A command, as far as the servers' data depends on it. -/
inductive Command
  | set (key : ℕ) (value : ℤ)
  | incr (key : ℕ)
  | other (text : Bytes)
deriving DecidableEq, Inhabited

/-- The key whose value a command can change. -/
def Command.key? : Command → Option ℕ
  | .set k _ => some k
  | .incr k => some k
  | .other _ => none

/-- One sending of a command: by which call of which thread, and whether it is
    the first attempt (`0`) or the retry (`1`). -/
structure Request where
  caller : ℕ
  call : ℕ
  attempt : ℕ
  cmd : Command
deriving DecidableEq, Inhabited

/-- The same command, sent again by the same call. -/
def Request.retry (r : Request) : Request := { r with attempt := r.attempt + 1 }

/-- A server's answer to `request`. -/
structure Reply where
  request : Request
  value : ℤ
deriving DecidableEq, Inhabited

/-- A reply with the context it was read from. -/
abbrev CtxReply := ℕ × Reply

/-- `redisContext`: `err` is `c->err != 0`, `frees` counts the calls of
    `redisFree`, `sent` are the requests the server has not taken yet and
    `inbox` the answers that have not been read, both oldest first. -/
structure RedisContext where
  endpoint : ℕ
  target : RedisEndpoint
  err : Bool
  frees : ℕ
  sent : List Request
  inbox : List Reply
deriving Inhabited

/-- Where `connect_single_socket` is called after a look at the clock: in the
    creation loop (line 149) or in the scan (line 361). -/
inductive ConnectSite
  | init
  | scan
deriving DecidableEq

/-- The calls that are recorded. -/
inductive Event
  /-- `redis_get_socket` is entered. -/
  | getCall (t : ℕ)
  /-- `pthread_mutex_trylock` by `t` on the mutex of `p`. -/
  | trylock (t : ℕ) (p : ℕ) (ok : Bool)
  /-- `pthread_mutex_unlock` by `t` on the mutex of `p`. -/
  | unlock (t : ℕ) (p : ℕ)
  /-- `redis_get_socket` returns. -/
  | getReturn (t : ℕ) (r : Option ℕ)
  /-- The caller's check against `connect_after` passed at clock reading `now`. -/
  | startConnect (site : ConnectSite) (p : ℕ) (now : ℤ)
  /-- `redisConnectWithTimeout` to endpoint number `endpoint`, and its result. -/
  | connect (p : ℕ) (endpoint : ℕ) (c : Option ℕ)
  /-- `connect_single_socket` failed and set `connect_after` at reading `now`. -/
  | connectFailed (p : ℕ) (now : ℤ)
  /-- The scan ignores the unconnected `p`; the clock read `now` at the check. -/
  | ignored (p : ℕ) (now : ℤ) (tried : Bool)
  /-- `redisFree` on a non-NULL context. -/
  | free (c : ℕ)
  /-- `redisvCommand` is called on `c`. -/
  | command (c : Option ℕ) (r : Request)
  /-- A server applies the request `a.request` sent on `c`, and answers `a`. -/
  | served (c : ℕ) (a : Reply)
  /-- `redisvCommand` returns NULL for `r`. -/
  | noReply (r : Request)
  /-- `redis_vcommand`, called as call `k` of `t`, returns the reply `a` it read
      from `c`, or NULL. -/
  | returned (t : ℕ) (k : ℕ) (r : Option CtxReply)
deriving DecidableEq

/-- hiredis, the network and the servers, with the positions in the streams of
    `Env`. Context numbers from `nctx` on are not in use yet. -/
structure World where
  clocks : ℕ
  rands : ℕ
  connects : ℕ
  commands : ℕ
  nctx : ℕ
  ctx : ℕ → RedisContext
  trace : List Event

/-- The world before the first call. -/
def World.init : World := ⟨0, 0, 0, 0, 0, fun _ => default, []⟩

/-! ## The environment -/

/-- The result of `redisConnectWithTimeout`: NULL, a context with `err` set, or
    an accepted connection. -/
inductive ConnectResult
  | null
  | error
  | ok
deriving DecidableEq

/-- What becomes of one `redisvCommand` on a context without error: the server
    answers, it applies the command but the answer is lost, or it never sees it. -/
inductive CommandResult
  | answered
  | lost
  | unsent
deriving DecidableEq

/-- The outcomes that the code cannot decide. -/
structure Env where
  /-- the readings of `time(NULL)` -/
  clock : ℕ → ℤ
  /-- the values of `rand()` -/
  rand : ℕ → ℕ
  /-- the results of `redisConnectWithTimeout` -/
  connect : ℕ → ConnectResult
  /-- whether `redisSetTimeout` succeeds on a context -/
  setTimeout : ℕ → Bool
  /-- whether `redisEnableKeepAlive` succeeds on a context -/
  keepAlive : ℕ → Bool
  /-- what becomes of a command on a context -/
  command : ℕ → ℕ → CommandResult
  /-- the result of `pthread_mutex_init` for a socket -/
  mutexInit : ℕ → ℤ

/-- An environment in which everything succeeds, for runs that are evaluated. -/
def Env.good : Env where
  clock := fun n => n + 1
  rand := fun _ => 0
  connect := fun _ => .ok
  setTimeout := fun _ => true
  keepAlive := fun _ => true
  command := fun _ _ => .answered
  mutexInit := fun _ => 0

/-- An environment in which only the first `n` connects are accepted. -/
def Env.connects (n : ℕ) : Env :=
  { Env.good with connect := fun i => if i < n then .ok else .null }

/-- A configuration with one endpoint, for runs that are evaluated. -/
def RedisConfig.single (numRedisSocks delay : ℤ) : RedisConfig where
  endpoints := some [⟨[108], 6379⟩]
  numEndpoints := 1
  connectTimeout := 500
  netReadwriteTimeout := 500
  numRedisSocks := numRedisSocks
  connectFailureRetryDelay := delay
  numEndpoints_le := by rintro l ⟨⟩; rfl

/-- The same with two endpoints. -/
def RedisConfig.pair (numRedisSocks delay : ℤ) : RedisConfig :=
  { RedisConfig.single numRedisSocks delay with
    endpoints := some [⟨[108], 6379⟩, ⟨[108], 6380⟩]
    numEndpoints := 2
    numEndpoints_le := by rintro l ⟨⟩; rfl }

/-! ## The pool -/

/-- `REDIS_INSTANCE` (lines 52–57) with the memory of its sockets, and the world. -/
structure St where
  config : PoolConfig
  connectAfter : ℤ
  redisPool : Option ℕ
  lastUsed : Option ℕ
  sock : ℕ → RedisSocket
  world : World

/-- Write to the memory of the socket `p`. -/
def St.setSock (s : St) (p : ℕ) (f : RedisSocket → RedisSocket) : St :=
  { s with sock := Function.update s.sock p (f (s.sock p)) }

@[simp] theorem St.setSock_self (s : St) (p : ℕ) (f : RedisSocket → RedisSocket) :
    (s.setSock p f).sock p = f (s.sock p) := by simp [St.setSock]

@[simp] theorem St.setSock_of_ne (s : St) {p q : ℕ} (h : q ≠ p)
    (f : RedisSocket → RedisSocket) : (s.setSock p f).sock q = s.sock q := by
  simp [St.setSock, h]

@[simp] theorem St.setSock_config (s : St) (p : ℕ) (f : RedisSocket → RedisSocket) :
    (s.setSock p f).config = s.config := rfl
@[simp] theorem St.setSock_connectAfter (s : St) (p : ℕ) (f : RedisSocket → RedisSocket) :
    (s.setSock p f).connectAfter = s.connectAfter := rfl
@[simp] theorem St.setSock_redisPool (s : St) (p : ℕ) (f : RedisSocket → RedisSocket) :
    (s.setSock p f).redisPool = s.redisPool := rfl
@[simp] theorem St.setSock_lastUsed (s : St) (p : ℕ) (f : RedisSocket → RedisSocket) :
    (s.setSock p f).lastUsed = s.lastUsed := rfl
@[simp] theorem St.setSock_world (s : St) (p : ℕ) (f : RedisSocket → RedisSocket) :
    (s.setSock p f).world = s.world := rfl

/-- The number of sockets in the list. -/
def St.numSocks (s : St) : ℕ := s.config.numSocks

end Hiredispool.Pool
