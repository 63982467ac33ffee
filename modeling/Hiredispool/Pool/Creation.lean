import Hiredispool.Pool.Ownership

/-!
# Creation is all or nothing

`redis_pool_create` either returns a pool with all its sockets or leaves
`*instance` alone and gives back every context that it has opened.

* `Creation`: what holds after `i` sockets have been made, whatever the
  outcomes of the connects.
* `redisPoolCreate_all_or_nothing`: when the call succeeds, and what it leaves
  behind in both cases.
-/

namespace Hiredispool.Pool

/-! ## What the caller sees -/

/-- The sockets that are met from `cur` on by following `next` to NULL, at most
    `fuel` of them. -/
def follow (s : St) : (fuel : ℕ) → (cur : Option ℕ) → List ℕ
  | 0, _ => []
  | _ + 1, none => []
  | fuel + 1, some p => p :: follow s fuel (s.sock p).next

/-- The list of the pool. It is followed for one more socket than there can be. -/
def St.pool (s : St) : List ℕ := follow s (s.numSocks + 1) s.redisPool

/-- `redis_pool_create(config, instance)` (lines 20–89): the result, `*instance`
    and the world after the call. -/
def redisPoolCreateInto (env : Env) (config : RedisConfig) (inst : Option St) (w : World) :
    ℤ × Option St × World :=
  match redisPoolCreate env config w with
  | .ok s => (0, some s, s.world)
  | .error w' => (-1, inst, w')

/-! ## The creation loop -/

section Creation

variable {env : Env} {w : World} {i : ℕ} {s : St}

/-- The first `i` sockets have been made. -/
structure Creation (w : World) (i : ℕ) (s : St) : Prop where
  listed : Listed i s
  owned : OwnedSince w i (fun _ => False) s
  sock : ∀ p, p < i → (s.sock p).id = p ∧ (s.sock p).mutex = none ∧ (s.sock p).inuse = 0

theorem Creation.empty (c : PoolConfig) (w : World) : Creation w 0 (emptyPool c w) :=
  ⟨Listed.empty c w, OwnedSince.empty c w, fun p hp => absurd hp (Nat.not_lt_zero p)⟩

theorem initSocket_id (env : Env) (i : ℕ) (s : St) : ((initSocket env i s).sock i).id = i := by
  have hnew : ((unconnected env i s).sock i).id = i := by simp [unconnected, newSocket]
  rcases initSocket_cases env i s with ⟨-, e⟩ | ⟨-, e⟩
  · rw [e]; exact hnew
  · rw [e, (connectSingleSocket_spec env i (beforeInit env i s)).1.id]
    exact hnew

theorem Creation.step (env : Env) (h : Creation w i s) :
    Creation w (i + 1) (pushSocket i (initSocket env i s)) := by
  have hf := initSocket_frame env i s
  refine ⟨h.listed.step env, initSocket_owned env h.owned, fun p hp => ?_⟩
  by_cases hpi : p = i
  · subst hpi
    simp [pushSocket, initSocket_id, hf.mutex, hf.inuse]
  · simpa [pushSocket, hpi, hf.other p hpi] using h.sock p (by omega)

theorem follow_listed (hl : Listed i s) {fuel k : ℕ} (hk : k ≤ i) (hfuel : k < fuel) :
    follow s fuel (if k = 0 then none else some (k - 1)) = (List.range k).reverse := by
  induction k generalizing fuel with
  | zero =>
    cases fuel with
    | zero => omega
    | succ fuel => rfl
  | succ k ih =>
    obtain ⟨fuel, rfl⟩ : ∃ m, fuel = m + 1 := ⟨fuel - 1, by omega⟩
    rw [if_neg (Nat.succ_ne_zero k), Nat.add_sub_cancel, follow, hl.next k (by omega),
      ih (by omega) (by omega), List.range_succ, List.reverse_append]
    rfl

/-- The list of a complete pool. -/
theorem Creation.pool (h : Creation w s.numSocks s) : s.pool = (List.range s.numSocks).reverse := by
  rw [St.pool, h.listed.redisPool]
  exact follow_listed h.listed le_rfl (Nat.lt_succ_self _)

/-- A pool that is given up has freed what it opened, once, and nothing else. -/
theorem Creation.destroy (h : Creation w i s) (hi : i ≤ s.numSocks) :
    (∀ c, w.nctx ≤ c → c < (redisPoolDestroy s).nctx → ((redisPoolDestroy s).ctx c).frees = 1) ∧
      ∀ c, c < w.nctx → ((redisPoolDestroy s).ctx c).frees = (w.ctx c).frees := by
  have hown := redisPoolDestroy_owned hi h.listed h.owned
  refine ⟨fun c hw hc => ?_, hown.old⟩
  have hfreed := hown.table.all_freed (fun _ => True.intro) hc
  rwa [if_neg (not_lt.mpr hw)] at hfreed

/-- A socket of a complete pool is free, and unconnected or the owner of a
    context that was opened since `w`. -/
theorem Creation.free (h : Creation w s.numSocks s) {p : ℕ} (hp : p ∈ s.pool) :
    (s.sock p).mutex = none ∧ (s.sock p).inuse = 0 ∧
      ((s.sock p).state = .sockunconnected ∧ (s.sock p).conn = none ∨
        (s.sock p).state = .sockconnected ∧ ∃ c, (s.sock p).conn = some c ∧ w.nctx ≤ c ∧
          s.world.Live c ∧ ∀ q ∈ s.pool, (s.sock q).conn = some c → q = p) := by
  have hlt : p < s.numSocks := by simpa [h.pool] using hp
  obtain ⟨-, hmutex, hinuse⟩ := h.sock p hlt
  refine ⟨hmutex, hinuse, ?_⟩
  cases hst : (s.sock p).state with
  | sockunconnected =>
    refine Or.inl ⟨rfl, Option.eq_none_iff_forall_ne_some.mpr fun c hc => ?_⟩
    have hconn := (h.owned.state_iff p).mpr ⟨c, hc⟩
    rw [hst] at hconn; cases hconn
  | sockconnected =>
    obtain ⟨c, hc⟩ := (h.owned.state_iff p).mp hst
    obtain ⟨hle, hlive⟩ := h.owned.conn_live hc (by simp)
    exact Or.inr ⟨rfl, c, hc, hle, hlive, fun q _ hq => h.owned.table.inj q p c hq hc⟩

end Creation

/-! ## Main theorem -/

theorem endpointOk_iff {e : RedisEndpoint} :
    endpointOk e = true ↔ e.host ≠ [] ∧ 1 ≤ e.port ∧ e.port ≤ 65535 := by
  simp only [endpointOk, Bool.and_eq_true, Bool.not_eq_true', List.isEmpty_eq_false_iff,
    decide_eq_true_eq, and_assoc]
  rfl

/-- What `redis_pool_create` demands of its environment. -/
def CanCreate (env : Env) (config : RedisConfig) : Prop :=
  config.Ok ∧ ∀ i, i < config.numRedisSocks.toNat → env.mutexInit i = 0

theorem canCreate_iff {env : Env} {config : RedisConfig} : CanCreate env config ↔
    (∃ l, config.endpoints = some l ∧ ∀ e ∈ l.take config.numEndpoints.toNat,
      e.host ≠ [] ∧ 1 ≤ e.port ∧ e.port ≤ 65535) ∧
    1 ≤ config.numEndpoints ∧ config.numRedisSocks ≤ 1000 ∧
    ∀ i, i < config.numRedisSocks.toNat → env.mutexInit i = 0 := by
  simp only [← endpointOk_iff]
  constructor
  · rintro ⟨⟨hl, hn, hmax⟩, hmutex⟩
    exact ⟨hl, hn, hmax, hmutex⟩
  · rintro ⟨hl, hn, hmax, hmutex⟩
    exact ⟨⟨hl, hn, hmax⟩, hmutex⟩

/-- The two ways in which the call can end. -/
theorem redisPoolCreate_ends (env : Env) (config : RedisConfig) (w : World) :
    (CanCreate env config ∧ ∃ s, redisPoolCreate env config w = .ok s ∧
        s.numSocks = config.numRedisSocks.toNat ∧ Creation w s.numSocks s) ∨
      ¬ CanCreate env config ∧ ∃ w', redisPoolCreate env config w = .error w' ∧
        (∀ c, w.nctx ≤ c → c < w'.nctx → (w'.ctx c).frees = 1) ∧
        ∀ c, c < w.nctx → (w'.ctx c).frees = (w.ctx c).frees := by
  rcases redisPoolCreate_cases (P := Creation w) config w
    (fun c _ => Creation.empty c w) (fun i s hs => hs.step env) with
    ⟨hc, he⟩ | ⟨c, hc, s, hconf, -, ⟨hmutex, hmade, he⟩ | ⟨i, hi, hmutex, hmade, he⟩⟩
  · right
    refine ⟨fun hcan => ?_, w, he, fun c hle hlt => by omega, fun _ _ => rfl⟩
    obtain ⟨c, hc'⟩ := checkConfig_isSome_iff.mpr hcan.1
    rw [hc] at hc'; cases hc'
  · left
    have hchecked := checkConfig_some hc
    have hN : c.numSocks = config.numRedisSocks.toNat := by
      rw [PoolConfig.numSocks, hchecked.numRedisSocks]
    have hs : s.numSocks = c.numSocks := by rw [St.numSocks, hconf]
    exact ⟨⟨hchecked.ok, hN ▸ hmutex⟩, s, he, hs.trans hN, hs ▸ hmade⟩
  · right
    have hN : c.numSocks = config.numRedisSocks.toNat := by
      rw [PoolConfig.numSocks, (checkConfig_some hc).numRedisSocks]
    refine ⟨fun hcan => hmutex (hcan.2 i (hN ▸ hi)), _, he, hmade.destroy ?_⟩
    rw [St.numSocks, hconf]
    exact hi.le

/-- **Creation is all or nothing**, for every configuration and all outcomes of
    the connects and of `pthread_mutex_init`. -/
theorem redisPoolCreate_all_or_nothing (env : Env) (config : RedisConfig) (inst : Option St)
    (w : World) :
    let r := redisPoolCreateInto env config inst w
    let N := config.numRedisSocks.toNat
    (r.1 = 0 ∨ r.1 = -1) ∧
    (r.1 = 0 ↔
      (∃ l, config.endpoints = some l ∧ ∀ e ∈ l.take config.numEndpoints.toNat,
        e.host ≠ [] ∧ 1 ≤ e.port ∧ e.port ≤ 65535) ∧
      1 ≤ config.numEndpoints ∧ config.numRedisSocks ≤ 1000 ∧ ∀ i, i < N → env.mutexInit i = 0) ∧
    (r.1 = -1 → r.2.1 = inst ∧
      (∀ c, w.nctx ≤ c → c < r.2.2.nctx → (r.2.2.ctx c).frees = 1) ∧
      ∀ c, c < w.nctx → (r.2.2.ctx c).frees = (w.ctx c).frees) ∧
    (r.1 = 0 → ∃ s, r.2 = (some s, s.world) ∧
      s.pool.map (fun p => (s.sock p).id) = (List.range N).reverse ∧
      ∀ p ∈ s.pool, (s.sock p).mutex = none ∧ (s.sock p).inuse = 0 ∧
        ((s.sock p).state = .sockunconnected ∧ (s.sock p).conn = none ∨
          (s.sock p).state = .sockconnected ∧ ∃ c, (s.sock p).conn = some c ∧ w.nctx ≤ c ∧
            s.world.Live c ∧ ∀ q ∈ s.pool, (s.sock q).conn = some c → q = p)) := by
  intro r N
  rw [← canCreate_iff]
  rcases redisPoolCreate_ends env config w with
    ⟨hcan, s, he, hN, hmade⟩ | ⟨hcan, w', he, hfreed, hold⟩
  · have hr : r = (0, some s, s.world) := by
      show redisPoolCreateInto env config inst w = _
      rw [redisPoolCreateInto, he]
    rw [hr]
    refine ⟨Or.inl rfl, iff_of_true rfl hcan, by simp, fun _ => ⟨s, rfl, ?_, fun p hp => ?_⟩⟩
    · have hid : ∀ p ∈ (List.range s.numSocks).reverse, (s.sock p).id = p := by
        intro p hp
        exact (hmade.sock p (by simpa using hp)).1
      rw [hmade.pool, show N = s.numSocks from hN.symm]
      exact (List.map_congr_left hid).trans (List.map_id _)
    · exact hmade.free hp
  · have hr : r = (-1, inst, w') := by
      show redisPoolCreateInto env config inst w = _
      rw [redisPoolCreateInto, he]
    rw [hr]
    exact ⟨Or.inr rfl, iff_of_false (by simp) hcan, fun _ => ⟨rfl, hfreed, hold⟩, by simp⟩

end Hiredispool.Pool
