import Hiredispool.Pool.Scan

/-!
# `redis_pool_create` and `redis_pool_destroy`

Model of `hiredispool.c`, lines 20–180 and 276–301.

* `redisPoolCreate` returns `.ok` with the instance for `0`, and `.error` with
  the world after `redis_pool_destroy` for `-1`.
* `redisPoolCreate_induction`: what holds of the empty pool and is kept by each
  turn of the creation loop holds of the pool that is returned.
* `redisPoolCreate_linked`, `redisPoolCreate_free`: the list is well linked, no
  mutex is locked and no socket is in use.
-/

namespace Hiredispool.Pool

/-! ## Model -/

/-- The normalisation of lines 58–63: a non-positive time-out is 0, a
    non-positive retry delay is -1. -/
def normTimeout (x : ℤ) : ℤ := if x ≤ 0 then 0 else x

/-- See `normTimeout`. -/
def normDelay (x : ℤ) : ℤ := if x ≤ 0 then -1 else x

theorem normTimeout_nonneg (x : ℤ) : 0 ≤ normTimeout x := by
  unfold normTimeout; split <;> omega

theorem normDelay_cases (x : ℤ) : normDelay x = -1 ∨ 1 ≤ normDelay x := by
  unfold normDelay; split <;> omega

/-- The checks of `redis_pool_create` (lines 33–74) and the pool's own copy of
    the configuration. -/
def checkConfig (config : RedisConfig) : Option PoolConfig :=
  match h : config.endpoints with
  | none => none
  | some l =>
    if h1 : config.numEndpoints < 1 then none
    else if h2 : config.numRedisSocks > maxRedisSocks then none
    else
      let copy := l.take config.numEndpoints.toNat
      if h3 : ∀ e ∈ copy, endpointOk e = true then
        some
          { endpoints := copy
            connectTimeout := normTimeout config.connectTimeout
            netReadwriteTimeout := normTimeout config.netReadwriteTimeout
            numRedisSocks := config.numRedisSocks
            connectFailureRetryDelay := normDelay config.connectFailureRetryDelay
            endpoints_pos := by
              have := config.numEndpoints_le l h
              simp only [copy, List.length_take]; omega
            endpoints_ok := h3
            numRedisSocks_le := by omega
            connectTimeout_nonneg := normTimeout_nonneg _
            netReadwriteTimeout_nonneg := normTimeout_nonneg _
            delay_cases := normDelay_cases _ }
      else none

/-- What the caller has to provide: at least one endpoint, all of them well
    formed, and not too many sockets. -/
structure RedisConfig.Ok (config : RedisConfig) : Prop where
  endpoints : ∃ l, config.endpoints = some l ∧
    ∀ e ∈ l.take config.numEndpoints.toNat, endpointOk e = true
  numEndpoints : 1 ≤ config.numEndpoints
  numRedisSocks : config.numRedisSocks ≤ maxRedisSocks

/-- The pool's copy of an accepted configuration. -/
structure CheckedConfig (config : RedisConfig) (c : PoolConfig) : Prop where
  ok : config.Ok
  endpoints : ∀ l, config.endpoints = some l → c.endpoints = l.take config.numEndpoints.toNat
  numEndpoints : (c.numEndpoints : ℤ) = config.numEndpoints
  connectTimeout : c.connectTimeout = normTimeout config.connectTimeout
  netReadwriteTimeout : c.netReadwriteTimeout = normTimeout config.netReadwriteTimeout
  numRedisSocks : c.numRedisSocks = config.numRedisSocks
  delay : c.connectFailureRetryDelay = normDelay config.connectFailureRetryDelay

theorem checkConfig_some {config : RedisConfig} {c : PoolConfig} (h : checkConfig config = some c) :
    CheckedConfig config c := by
  unfold checkConfig at h
  split at h
  · cases h
  rename_i l hl
  split at h
  · cases h
  rename_i h1
  split at h
  · cases h
  rename_i h2
  dsimp only at h
  split at h
  · rename_i h3
    have hlen := config.numEndpoints_le l hl
    obtain rfl := Option.some.inj h
    refine ⟨⟨⟨l, hl, h3⟩, by omega, by omega⟩, fun l' hl' => ?_, ?_, rfl, rfl, rfl, rfl⟩
    · obtain rfl := Option.some.inj (hl.symm.trans hl')
      rfl
    · simp only [PoolConfig.numEndpoints, List.length_take]
      omega
  · cases h

/-- A configuration is accepted exactly when it is well formed. -/
theorem checkConfig_isSome_iff {config : RedisConfig} :
    (∃ c, checkConfig config = some c) ↔ config.Ok := by
  constructor
  · rintro ⟨c, hc⟩
    exact (checkConfig_some hc).ok
  · rintro ⟨⟨l, hl, hall⟩, hn, hmax⟩
    unfold checkConfig
    split
    · rename_i hnone
      rw [hl] at hnone; cases hnone
    · rename_i l' hl'
      obtain rfl := Option.some.inj (hl.symm.trans hl')
      rw [dif_neg (by omega), dif_neg (by omega), dif_pos hall]
      exact ⟨_, rfl⟩

theorem checkConfig_delay {config : RedisConfig} {c : PoolConfig} (h : checkConfig config = some c) :
    c.connectFailureRetryDelay = normDelay config.connectFailureRetryDelay :=
  (checkConfig_some h).delay

/-- Lines 129–134: a new socket. Its `next` is not set yet. -/
def newSocket (config : PoolConfig) (i : ℕ) : RedisSocket where
  id := i
  backup := i % config.numEndpoints
  mutex := none
  inuse := 0
  next := none
  state := .sockunconnected
  conn := none

/-- Lines 129–152 for socket `i`: make it, and connect it unless a failure was
    too recent. -/
def initSocket (env : Env) (i : ℕ) (s : St) : St :=
  let s := s.setSock i fun _ => newSocket s.config i
  let (now, w) := s.world.time env
  let s := { s with world := w }
  if now > s.connectAfter then
    (connectSingleSocket env i (s.log (.startConnect .init i now))).1
  else s

/-- Lines 155–156: put socket `i` in front of the list. -/
def pushSocket (i : ℕ) (s : St) : St :=
  { s.setSock i fun r => { r with next := s.redisPool } with redisPool := some i }

/-- The loop of lines 126–157 from socket `i` on, with `k` sockets to make;
    `.error` if `pthread_mutex_init` fails. -/
def initLoop (env : Env) : (k i : ℕ) → St → Except St St
  | 0, _, s => .ok s
  | k + 1, i, s =>
    if env.mutexInit i ≠ 0 then .error s
    else initLoop env k (i + 1) (pushSocket i (initSocket env i s))

/-- The instance before `redis_init_socketpool`, with lines 123–124. -/
def emptyPool (config : PoolConfig) (w : World) : St where
  config := config
  connectAfter := 0
  redisPool := none
  lastUsed := none
  sock := fun _ => default
  world := w

/-- `redis_init_socketpool(inst)` (lines 117–166). -/
def redisInitSocketpool (env : Env) (s : St) : Except St St :=
  (initLoop env s.numSocks 0 s).map fun s => { s with lastUsed := none }

/-- `redis_close_socket(inst, redisocket)` (lines 276–301): a connected socket's
    context is freed. -/
def redisCloseSocket (p : ℕ) (s : St) : St :=
  if (s.sock p).state = .sockconnected then
    { s with world := s.world.redisFree (s.sock p).conn }
  else s

/-- The loop of `redis_poolfree` (lines 173–176), for at most `fuel` sockets. -/
def poolfreeLoop : ℕ → Option ℕ → St → St
  | 0, _, s => s
  | _ + 1, none, s => s
  | fuel + 1, some cur, s => poolfreeLoop fuel (s.sock cur).next (redisCloseSocket cur s)

/-- `redis_poolfree(inst)` (lines 168–180). -/
def redisPoolfree (s : St) : St :=
  { poolfreeLoop s.numSocks s.redisPool s with redisPool := none, lastUsed := none }

/-- `redis_pool_destroy(instance)` (lines 91–115): the world without the pool. -/
def redisPoolDestroy (s : St) : World :=
  if s.redisPool.isSome then (redisPoolfree s).world else s.world

/-- `redis_pool_create(config, instance)` (lines 20–89). -/
def redisPoolCreate (env : Env) (config : RedisConfig) (w : World) : Except World St :=
  match checkConfig config with
  | none => .error w
  | some c =>
    match redisInitSocketpool env (emptyPool c w) with
    | .error s => .error (redisPoolDestroy s)
    | .ok s => .ok s

/-! ## One turn of the creation loop -/

section Init

variable (env : Env) (i : ℕ) (s : St)

/-- The clock has been read for the new socket `i`, which is not connected. -/
def unconnected : St :=
  { s.setSock i fun _ => newSocket s.config i with world := (s.world.time env).2 }

/-- The state in which the creation loop calls `connect_single_socket`. -/
def beforeInit : St :=
  (unconnected env i s).log (.startConnect .init i (env.clock s.world.clocks))

theorem initSocket_cases :
    env.clock s.world.clocks ≤ s.connectAfter ∧ initSocket env i s = unconnected env i s ∨
      s.connectAfter < env.clock s.world.clocks ∧
        initSocket env i s = (connectSingleSocket env i (beforeInit env i s)).1 := by
  by_cases h : s.connectAfter < env.clock s.world.clocks
  · exact Or.inr ⟨h, if_pos h⟩
  · exact Or.inl ⟨not_lt.mp h, if_neg h⟩

/-- What `initSocket` leaves alone, and the fields that only the loop sets. -/
structure InitFrame (i : ℕ) (s s' : St) : Prop where
  config : s'.config = s.config
  redisPool : s'.redisPool = s.redisPool
  lastUsed : s'.lastUsed = s.lastUsed
  other : ∀ q, q ≠ i → s'.sock q = s.sock q
  mutex : (s'.sock i).mutex = none
  inuse : (s'.sock i).inuse = 0

theorem initSocket_frame : InitFrame i s (initSocket env i s) := by
  have hnew : InitFrame i s (unconnected env i s) :=
    ⟨rfl, rfl, rfl, fun q hq => by simp [unconnected, hq], by simp [unconnected, newSocket],
      by simp [unconnected, newSocket]⟩
  rcases initSocket_cases env i s with ⟨-, h⟩ | ⟨-, h⟩
  · rw [h]; exact hnew
  · rw [h]
    have hf := (connectSingleSocket_spec env i (beforeInit env i s)).1
    exact ⟨hf.config, hf.redisPool, hf.lastUsed,
      fun q hq => (hf.other q hq).trans (hnew.other q hq), (hf.mutex i).trans hnew.mutex,
      (hf.inuse i).trans hnew.inuse⟩

end Init

/-! ## The loop -/

theorem initLoop_induction (env : Env) {P : ℕ → St → Prop}
    (hstep : ∀ i s, P i s → P (i + 1) (pushSocket i (initSocket env i s))) {k i : ℕ} {s s' : St}
    (hs : P i s) (h : initLoop env k i s = .ok s') : P (i + k) s' := by
  induction k generalizing i s with
  | zero => cases h; exact hs
  | succ k ih =>
    rw [initLoop] at h
    split at h
    · cases h
    · rw [show i + (k + 1) = i + 1 + k by omega]
      exact ih (hstep i s hs) h

/-- The loop is left early at the first socket whose mutex cannot be initialised. -/
theorem initLoop_error (env : Env) {P : ℕ → St → Prop}
    (hstep : ∀ i s, P i s → P (i + 1) (pushSocket i (initSocket env i s))) {k i : ℕ} {s s' : St}
    (hs : P i s) (h : initLoop env k i s = .error s') :
    ∃ j, i ≤ j ∧ j < i + k ∧ env.mutexInit j ≠ 0 ∧ P j s' := by
  induction k generalizing i s with
  | zero => cases h
  | succ k ih =>
    rw [initLoop] at h
    split at h
    · rename_i hm
      cases h
      exact ⟨i, le_rfl, by omega, hm, hs⟩
    · obtain ⟨j, hij, hjk, hj, hP⟩ := ih (hstep i s hs) h
      exact ⟨j, by omega, by omega, hj, hP⟩

theorem initLoop_ok (env : Env) {k i : ℕ} {s s' : St} (h : initLoop env k i s = .ok s') :
    ∀ j, i ≤ j → j < i + k → env.mutexInit j = 0 := by
  induction k generalizing i s with
  | zero => intro j hij hjk; omega
  | succ k ih =>
    rw [initLoop] at h
    split at h
    · cases h
    · rename_i hm
      intro j hij hjk
      by_cases hj : j = i
      · rw [hj]; exact not_not.mp hm
      · exact ih h j (by omega) (by omega)

/-- The proof rule for creation: `P i` holds after `i` sockets have been made,
    also if the pool is then given up. -/
theorem redisPoolCreate_cases {env : Env} {P : ℕ → St → Prop} (config : RedisConfig) (w : World)
    (hempty : ∀ c, checkConfig config = some c → P 0 (emptyPool c w))
    (hstep : ∀ i s, P i s → P (i + 1) (pushSocket i (initSocket env i s))) :
    checkConfig config = none ∧ redisPoolCreate env config w = .error w ∨
      ∃ c, checkConfig config = some c ∧ ∃ s, s.config = c ∧ s.lastUsed = none ∧
        ((∀ i, i < c.numSocks → env.mutexInit i = 0) ∧ P c.numSocks s ∧
            redisPoolCreate env config w = .ok s ∨
          ∃ i, i < c.numSocks ∧ env.mutexInit i ≠ 0 ∧ P i s ∧
            redisPoolCreate env config w = .error (redisPoolDestroy s)) := by
  unfold redisPoolCreate
  cases hc : checkConfig config with
  | none => exact Or.inl ⟨rfl, rfl⟩
  | some c =>
    right
    have hkeep : ∀ i s, (P i s ∧ s.lastUsed = none ∧ s.config = c) →
        P (i + 1) (pushSocket i (initSocket env i s)) ∧
          (pushSocket i (initSocket env i s)).lastUsed = none ∧
          (pushSocket i (initSocket env i s)).config = c := by
      rintro i s ⟨hP, hlast, hconf⟩
      have hf := initSocket_frame env i s
      exact ⟨hstep i s hP, hf.lastUsed.trans hlast, hf.config.trans hconf⟩
    have hstart : P 0 (emptyPool c w) ∧ (emptyPool c w).lastUsed = none ∧
        (emptyPool c w).config = c := ⟨hempty c hc, rfl, rfl⟩
    refine ⟨c, rfl, ?_⟩
    dsimp only [redisInitSocketpool]
    cases hl : initLoop env (emptyPool c w).numSocks 0 (emptyPool c w) with
    | error s =>
      obtain ⟨i, -, hi, hm, hP, hlast, hconf⟩ := initLoop_error env hkeep hstart hl
      rw [Nat.zero_add] at hi
      exact ⟨s, hconf, hlast, Or.inr ⟨i, hi, hm, hP, rfl⟩⟩
    | ok s =>
      obtain ⟨hP, hlast, hconf⟩ := initLoop_induction env hkeep hstart hl
      have hsame : ({ s with lastUsed := none } : St) = s := by rw [← hlast]
      refine ⟨s, hconf, hlast, Or.inl ⟨fun i hi => ?_, ?_, congrArg Except.ok hsame⟩⟩
      · exact initLoop_ok env hl i (Nat.zero_le i) (by rw [Nat.zero_add]; exact hi)
      · rw [Nat.zero_add] at hP
        exact hP

/-- The rule for a pool that is returned. -/
theorem redisPoolCreate_induction {env : Env} {P : ℕ → St → Prop} {config : RedisConfig}
    {w : World} {s : St} (h : redisPoolCreate env config w = .ok s)
    (hempty : ∀ c, checkConfig config = some c → P 0 (emptyPool c w))
    (hstep : ∀ i s, P i s → P (i + 1) (pushSocket i (initSocket env i s))) : P s.numSocks s := by
  rcases redisPoolCreate_cases config w hempty hstep with
    ⟨-, he⟩ | ⟨c, -, s', rfl, -, ⟨-, hP, he⟩ | ⟨i, -, -, -, he⟩⟩
  · rw [h] at he; cases he
  · rw [h] at he
    obtain rfl := Except.ok.inj he
    exact hP
  · rw [h] at he; cases he

theorem redisPoolCreate_free {env : Env} {config : RedisConfig} {w : World} {s : St}
    (h : redisPoolCreate env config w = .ok s) (p : ℕ) :
    (s.sock p).mutex = none ∧ (s.sock p).inuse = 0 := by
  refine redisPoolCreate_induction (P := fun _ s => ∀ p, (s.sock p).mutex = none ∧
    (s.sock p).inuse = 0) h (fun c _ p => ⟨rfl, rfl⟩) (fun i s ih p => ?_) p
  have hf := initSocket_frame env i s
  by_cases hp : p = i
  · subst hp; simp [pushSocket, hf.mutex, hf.inuse]
  · simpa [pushSocket, hp, hf.other p hp] using ih p

/-- The list consists of the sockets `i - 1, …, 0`. -/
structure Listed (i : ℕ) (s : St) : Prop where
  redisPool : s.redisPool = if i = 0 then none else some (i - 1)
  next : ∀ p, p < i → (s.sock p).next = if p = 0 then none else some (p - 1)

theorem Listed.empty (c : PoolConfig) (w : World) : Listed 0 (emptyPool c w) :=
  ⟨rfl, fun p hp => absurd hp (Nat.not_lt_zero p)⟩

/-- Each new socket is put in front of the one made before it. -/
theorem Listed.step (env : Env) {i : ℕ} {s : St} (h : Listed i s) :
    Listed (i + 1) (pushSocket i (initSocket env i s)) := by
  have hf := initSocket_frame env i s
  refine ⟨rfl, fun p hp => ?_⟩
  by_cases hpi : p = i
  · subst hpi; simp [pushSocket, hf.redisPool, h.redisPool]
  · simpa [pushSocket, hpi, hf.other p hpi] using h.next p (by omega)

theorem redisPoolCreate_linked {env : Env} {config : RedisConfig} {w : World} {s : St}
    (h : redisPoolCreate env config w = .ok s) : Linked s := by
  obtain ⟨hlisted, hlast⟩ := redisPoolCreate_induction
    (P := fun i s => Listed i s ∧ s.lastUsed = none) h (fun c _ => ⟨Listed.empty c w, rfl⟩)
    fun i s hs => ⟨hs.1.step env, (initSocket_frame env i s).lastUsed.trans hs.2⟩
  exact ⟨hlisted.redisPool, hlisted.next, fun p hp => by rw [hlast] at hp; cases hp⟩

end Hiredispool.Pool
