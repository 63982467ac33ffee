import Hiredispool.Lazy.Pool
import Hiredispool.Pool.Rota

/-!
# The lazy pool behaves like the eager one

While every connect is accepted, a thread cannot tell from the results of its
calls whether the sockets were connected at creation or on first use. Both pools
refine the same `Rota`, and both hand out the socket `p` connected to the
endpoint `p % num_endpoints`.

* `redisPoolCreate_lazy`: the lazy pool starts as the rota of the eager one.
* `session_eq`: the results of any sequence of calls are those of the rota.
* `lazy_simulates_eager`: so the results of the two pools are the same.
-/

namespace Hiredispool.Lazy

open Hiredispool.Pool

/-! ## Sessions -/

/-- A call of a thread that holds some sockets: a new one, or the release of the
    one number `j`, of NULL if there is none. -/
inductive Call
  | get
  | release (j : ℕ)

/-- What the caller sees of a socket: its id, and the endpoint of its context. -/
def seen (s : Pool.St) (p : ℕ) : ℕ × Option ℕ :=
  ((s.sock p).id, (s.sock p).conn.map fun c => (s.world.ctx c).endpoint)

section Session

variable {σ : Type} (get : σ → Option (σ × Option ℕ)) (release : Option ℕ → σ → σ)
  (see : σ → ℕ → ℕ × Option ℕ)

/-- The results of the calls of `redis_get_socket` in a sequence of calls by one
    thread that holds the sockets `held`. -/
def session : List Call → List ℕ → σ → Option (List (Option (ℕ × Option ℕ)))
  | [], _, _ => some []
  | .get :: calls, held, s => do
    let (s, r) ← get s
    let rest ← session calls (held ++ r.toList) s
    some (r.map (see s) :: rest)
  | .release j :: calls, held, s => session calls (held.eraseIdx j) (release held[j]? s)

end Session

/-- The session of an eager pool. -/
def eagerSession (env : Pool.Env) (t : ℕ) : List Call → List ℕ → Pool.St →
    Option (List (Option (ℕ × Option ℕ))) :=
  session (Pool.redisGetSocket env t) (Pool.redisReleaseSocket t) seen

/-- The session of a lazy pool. -/
def lazySession (env : Env) (t : ℕ) : List Call → List ℕ → St →
    Option (List (Option (ℕ × Option ℕ))) :=
  session (redisGetSocket env t) (redisReleaseSocket t) fun s => seen s.pool

/-- The session of a rota with `n` endpoints. -/
def rotaSession (n t : ℕ) : List Call → List ℕ → Rota → List (Option (ℕ × Option ℕ))
  | [], _, _ => []
  | .get :: calls, held, a =>
    a.next.map (fun p => (p, some (p % n))) ::
      rotaSession n t calls (held ++ a.next.toList) (a.get t)
  | .release j :: calls, held, a =>
    rotaSession n t calls (held.eraseIdx j) (held[j]?.elim a fun p => a.release p)

/-- A session of the lazy pool, by induction on its calls. -/
theorem lazySession_eq (env : Env) (t : ℕ) (calls : List Call) (held : List ℕ) (s : St) :
    lazySession env t calls held s = eagerSession env.toEnv t calls held s.pool := by
  induction calls generalizing held s with
  | nil => rfl
  | cons call calls ih =>
    cases call with
    | get =>
      show Option.bind _ _ = Option.bind _ _
      rw [← redisGetSocket_pool]
      cases redisGetSocket env t s with
      | none => rfl
      | some r => exact congrArg (Option.bind · _) (ih _ r.1)
    | release j => exact ih _ _

/-- **The results of a session are those of the rota**, by induction on its calls. -/
theorem session_eq {env : Pool.Env} (hup : env.Up) (t : ℕ) (calls : List Call) (held : List ℕ)
    {s : Pool.St} (h : Serving s) :
    eagerSession env t calls held s =
      some (rotaSession s.config.numEndpoints t calls held s.rota) := by
  induction calls generalizing held s with
  | nil => rfl
  | cons call calls ih =>
    cases call with
    | get =>
      obtain ⟨s', hget, hconf, hserving, hrota, hseen⟩ := h.get hup t
      have hresult : s.rota.next.map (seen s') =
          s.rota.next.map fun p => (p, some (p % s.config.numEndpoints)) := by
        refine Option.map_congr fun p hp => ?_
        obtain ⟨hid, -, c, hc, hep⟩ := hseen p hp
        rw [seen, hid, hc, Option.map_some, hep, hconf]
      have hrest := ih (held ++ s.rota.next.toList) hserving
      rw [hrota, hconf] at hrest
      show Option.bind (Pool.redisGetSocket env t s) _ = _
      rw [hget, Option.bind_some]
      show Option.bind (eagerSession env t calls (held ++ s.rota.next.toList) s') _ = _
      rw [hrest, Option.bind_some, hresult]
      rfl
    | release j =>
      show eagerSession env t calls _ (Pool.redisReleaseSocket t held[j]? s) = _
      cases hj : held[j]? with
      | none =>
        have hrest := ih (held.eraseIdx j) h
        rw [rotaSession, hj]
        exact hrest
      | some p =>
        obtain ⟨hserving, hrota⟩ := h.release t p
        have hrest := ih (held.eraseIdx j) hserving
        rw [hrota] at hrest
        rw [rotaSession, hj]
        exact hrest

/-! ## The lazy creation -/

/-- The creation has made the sockets `0, …, i - 1` and linked them. -/
structure Creating (c : PoolConfig) (i : ℕ) (s : Pool.St) : Prop where
  config : s.config = c
  connectAfter : s.connectAfter = 0
  lastUsed : s.lastUsed = none
  redisPool : s.redisPool = if i = 0 then none else some (i - 1)
  free : ∀ p, (s.sock p).mutex = none ∧ (s.sock p).inuse = 0 ∧ (s.sock p).conn = none
  made : ∀ p, p < i → (s.sock p).id = p ∧ Planned s p ∧
    (s.sock p).next = if p = 0 then none else some (p - 1)

theorem Creating.step {c : PoolConfig} {i : ℕ} {s : St} (h : Creating c i s.pool) :
    Creating c (i + 1) ((initSocket i s).onPool (pushSocket i)).pool := by
  have hself : ((initSocket i s).onPool (pushSocket i)).pool.sock i =
      { newSocket s.pool.config i with next := s.pool.redisPool } := by
    simp [initSocket, pushSocket]
  have hold : ∀ q, q ≠ i → ((initSocket i s).onPool (pushSocket i)).pool.sock q = s.pool.sock q := by
    intro q hq
    simp [initSocket, pushSocket, hq]
  refine ⟨h.config, h.connectAfter, h.lastUsed, rfl, fun q => ?_, fun q hq => ?_⟩
  · by_cases hqi : q = i
    · rw [hqi, hself]
      exact ⟨rfl, rfl, rfl⟩
    · rw [hold q hqi]; exact h.free q
  · unfold Planned
    by_cases hqi : q = i
    · rw [hqi, hself]
      exact ⟨rfl, ⟨rfl, rfl⟩, h.redisPool⟩
    · rw [hold q hqi]; exact h.made q (by omega)

theorem initLoop_creating (env : Env) {c : PoolConfig} {k i : ℕ} {s s' : St}
    (hs : Creating c i s.pool) (h : initLoop env k i s = .ok s') : Creating c (i + k) s'.pool := by
  induction k generalizing i s with
  | zero => cases h; exact hs
  | succ k ih =>
    rw [initLoop] at h
    split at h
    · cases h
    · rw [show i + (k + 1) = i + 1 + k by omega]
      exact ih hs.step h

/-- Nothing is connected. -/
theorem initLoop_world (env : Env) {k i : ℕ} {s s' : St} (h : initLoop env k i s = .ok s') :
    s'.pool.world = s.pool.world := by
  induction k generalizing i s with
  | zero => cases h; rfl
  | succ k ih =>
    rw [initLoop] at h
    split at h
    · cases h
    · have hworld := ih h
      exact hworld

/-- The pool that a lazy creation returns. -/
theorem redisPoolCreate_created {env : Env} {config : RedisConfig} {w : World} {s : St}
    (h : redisPoolCreate env config w = .ok s) :
    ∃ c, checkConfig config = some c ∧ Creating c c.numSocks s.pool ∧ s.pool.world = w := by
  unfold redisPoolCreate at h
  split at h
  · cases h
  rename_i c hconf
  unfold redisInitSocketpool at h
  cases hl : initLoop env c.numSocks 0 ⟨emptyPool c w, fun _ => none⟩ with
  | error s' =>
    have hl' : initLoop env (emptyPool c w).numSocks 0 ⟨emptyPool c w, fun _ => none⟩ = .error s' := hl
    simp [hl', Except.map] at h
  | ok s' =>
    have hl' : initLoop env (emptyPool c w).numSocks 0 ⟨emptyPool c w, fun _ => none⟩ = .ok s' := hl
    simp only [hl', Except.map, Except.ok.injEq] at h
    have hcr : Creating c (0 + c.numSocks) s'.pool := by
      refine initLoop_creating env ⟨rfl, rfl, rfl, rfl, fun _ => ⟨rfl, rfl, rfl⟩, ?_⟩ hl
      exact fun p hp => absurd hp (Nat.not_lt_zero p)
    rw [Nat.zero_add] at hcr
    have hs : s.pool = s'.pool := by
      rw [← h]
      show { s'.pool with lastUsed := none } = s'.pool
      rw [← hcr.lastUsed]
    exact ⟨c, hconf, hs ▸ hcr, by rw [hs]; exact initLoop_world env hl⟩

/-- The lazy pool starts as the same rota, with no socket connected. -/
theorem redisPoolCreate_lazy {env : Env} {config : RedisConfig} {w : World} {s : St}
    (h : redisPoolCreate env config w = .ok s) :
    ∃ c, checkConfig config = some c ∧ s.pool.config = c ∧ Serving s.pool ∧
      s.pool.rota = Rota.new c := by
  obtain ⟨c, hconf, hcr, -⟩ := redisPoolCreate_created h
  have hN : s.pool.numSocks = c.numSocks := by rw [St.numSocks, hcr.config]
  have hlink : Linked s.pool :=
    ⟨by rw [hN]; exact hcr.redisPool, fun p hp => (hcr.made p (hN ▸ hp)).2.2,
      fun p hp => by rw [hcr.lastUsed] at hp; cases hp⟩
  refine ⟨c, hconf, hcr.config, ⟨⟨hlink, fun p _ _ => (hcr.free p).2.1⟩, hcr.connectAfter,
    fun p x hp => ?_, fun p hp => (hcr.made p (hN ▸ hp)).1,
    fun p hp => Or.inr (hcr.made p (hN ▸ hp)).2.1⟩, ?_⟩
  · rw [(hcr.free p).2.2] at hp; cases hp
  · unfold St.rota Rota.new
    rw [hN, hcr.lastUsed]
    congr 1
    funext p
    exact (hcr.free p).1

/-! ## Main theorem -/

theorem mem_rotaSession {n t p : ℕ} {ep : Option ℕ} (calls : List Call) {held : List ℕ} {a : Rota}
    (h : some (p, ep) ∈ rotaSession n t calls held a) : ep = some (p % n) := by
  induction calls generalizing held a with
  | nil => cases h
  | cons call calls ih =>
    cases call with
    | get =>
      rcases List.mem_cons.mp h with h | h
      · obtain ⟨q, -, hq⟩ := Option.map_eq_some_iff.mp h.symm
        obtain ⟨rfl, rfl⟩ := Prod.mk.inj hq
        rfl
      · exact ih h
    | release j => exact ih h

/-- **The lazy pool simulates the eager one.** Two pools are created from the
    same configuration, one eagerly and one lazily; in both environments every
    connect is accepted and the clock is positive, and nothing else need agree.
    In any sequence of calls by one thread both return NULL at the same calls,
    and otherwise the socket with the same id, connected to the same endpoint. -/
theorem lazy_simulates_eager {env₁ : Pool.Env} {env₂ : Env} (hup₁ : env₁.Up)
    (hup₂ : env₂.toEnv.Up) {config : RedisConfig} {s₁ : Pool.St} {s₂ : St}
    (h₁ : Pool.redisPoolCreate env₁ config World.init = .ok s₁)
    (h₂ : redisPoolCreate env₂ config World.init = .ok s₂) (t : ℕ) (calls : List Call) :
    ∃ results, eagerSession env₁ t calls [] s₁ = some results ∧
      lazySession env₂ t calls [] s₂ = some results ∧
      ∀ p ep, some (p, ep) ∈ results → ep = some (p % s₁.config.numEndpoints) := by
  obtain ⟨c, hc, hconf₁, hserving₁, hrota₁⟩ := redisPoolCreate_serving hup₁ h₁
  obtain ⟨c', hc', hconf₂, hserving₂, hrota₂⟩ := redisPoolCreate_lazy h₂
  obtain rfl : c = c' := Option.some.inj (hc.symm.trans hc')
  have heager := session_eq hup₁ t calls [] hserving₁
  have hlazy := session_eq hup₂ t calls [] hserving₂
  rw [hrota₁] at heager
  rw [hrota₂, hconf₂.trans hconf₁.symm] at hlazy
  exact ⟨_, heager, (lazySession_eq env₂ t calls [] s₂).trans hlazy,
    fun p ep hmem => mem_rotaSession calls hmem⟩

/-- Three sockets and two endpoints: the turn wraps around a socket that is held. -/
theorem lazy_simulates_eager_wrap : ∃ s₁ s₂,
    Pool.redisPoolCreate .good (.pair 3 5) World.init = .ok s₁ ∧
    redisPoolCreate .good (.pair 3 5) World.init = .ok s₂ ∧
    ∃ results, eagerSession .good 0 [.get, .get, .release 0, .get, .get] [] s₁ = some results ∧
      lazySession .good 0 [.get, .get, .release 0, .get, .get] [] s₂ = some results ∧
      ∀ p ep, some (p, ep) ∈ results → ep = some (p % s₁.config.numEndpoints) := by
  obtain ⟨s₁, h₁⟩ : ∃ s, Pool.redisPoolCreate .good (.pair 3 5) World.init = .ok s := ⟨_, rfl⟩
  obtain ⟨s₂, h₂⟩ : ∃ s, redisPoolCreate .good (.pair 3 5) World.init = .ok s := ⟨_, rfl⟩
  exact ⟨s₁, s₂, h₁, h₂, lazy_simulates_eager Env.good_up Env.good_up h₁ h₂ 0 _⟩

end Hiredispool.Lazy
