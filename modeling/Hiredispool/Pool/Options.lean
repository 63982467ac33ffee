import Hiredispool.Pool.Sweep
import Hiredispool.Pool.Create
import Hiredispool.Pool.Command

/-!
# What a successful connect leaves behind

`connect_single_socket` marks the socket connected, and then sets a time-out
and keep-alive on its context (lines 218–238). In hiredis both calls set `err`
when they fail, and a context with `err` set answers every command with NULL
without sending it; the code only logs a warning and returns 0.

* `connectSingleSocket_options`: a call adopts the context of the first
  accepted attempt, and its `err` is clear iff both option calls succeed.
* `connectSingleSocket_sends_iff`: when the first command on the socket is sent.
-/

namespace Hiredispool.Pool

/-! ## Attempts and contexts -/

section Attempts

variable (env : Env) (w : World)

/-- Attempt number `i` from `w` on is the first one that is accepted. -/
def FirstAccepted (i : ℕ) : Prop :=
  env.connect (w.connects + i) = .ok ∧ ∀ j, j < i → env.connect (w.connects + j) ≠ .ok

/-- The number of the context that attempt number `i` from `w` on returns. -/
def contextOf (i : ℕ) : ℕ :=
  w.nctx + (List.range i).countP fun j => env.connect (w.connects + j) ≠ .null

variable {env w}

theorem FirstAccepted.unique {i j : ℕ} (hi : FirstAccepted env w i) (hj : FirstAccepted env w j) :
    i = j := by
  by_contra hne
  rcases Nat.lt_or_gt_of_ne hne with h | h
  · exact hj.2 i h hi.1
  · exact hi.2 j h hj.1

/-- The first attempt that is accepted, counted from one attempt later. -/
theorem FirstAccepted.succ {w' : World} (hw : w'.connects = w.connects + 1)
    (h0 : env.connect w.connects ≠ .ok) {i : ℕ} (h : FirstAccepted env w' i) :
    FirstAccepted env w (i + 1) := by
  obtain ⟨hok, hno⟩ := h
  rw [hw] at hok
  refine ⟨by rw [← hok]; congr 1; omega, fun j hj => ?_⟩
  cases j with
  | zero => exact h0
  | succ j =>
    have := hno j (by omega)
    rw [hw] at this
    rwa [show w.connects + (j + 1) = w.connects + 1 + j by omega]

theorem contextOf_succ {w' : World} (hw : w'.connects = w.connects + 1)
    (hn : w'.nctx = w.nctx + if env.connect w.connects = .null then 0 else 1) (i : ℕ) :
    contextOf env w (i + 1) = contextOf env w' i := by
  unfold contextOf
  have hshift : ((fun j => decide (env.connect (w.connects + j) ≠ .null)) ∘ Nat.succ) =
      fun j => decide (env.connect (w'.connects + j) ≠ .null) := by
    funext j
    simp only [Function.comp, hw, Nat.succ_eq_add_one]
    rw [show w.connects + (j + 1) = w.connects + 1 + j by omega]
  rw [List.range_succ_eq_map, List.countP_cons, List.countP_map, hshift, hn]
  by_cases h0 : env.connect w.connects = .null
  · simp [h0]
  · simp [h0]; omega

end Attempts

/-! ## The context of a connected socket -/

section Context

variable {env : Env} {p : ℕ}

/-- `r` is connected to the context `c`, which is new; its `err` tells whether an
    option call failed. -/
structure Optioned (env : Env) (p c : ℕ) (r : St × Bool) : Prop where
  ok : r.2 = true
  conn : (r.1.sock p).conn = some c
  sent : (r.1.world.ctx c).sent = []
  err : (r.1.world.ctx c).err = !(env.setTimeout c && env.keepAlive c)

theorem refuse_nctx (s : St) :
    (refuse env p s).nctx = s.world.nctx + if env.connect s.world.connects = .null then 0 else 1 := by
  unfold refuse tryBackup World.redisConnectWithTimeout World.redisFree
  by_cases h : env.connect s.world.connects = .null <;> simp [h]

/-- The first attempt is accepted. -/
theorem optioned_first {s : St} (hok : env.connect s.world.connects = .ok) :
    FirstAccepted env s.world 0 ∧ Optioned env p (contextOf env s.world 0)
      (connected env p s.world.nctx { s with world := (tryBackup env p s).1 }, true) := by
  have ha := adopted_attempt env p (s.sock p).backup (s.config.endpoint (s.sock p).backup) s hok
  exact ⟨⟨hok, fun j hj => absurd hj (Nat.not_lt_zero j)⟩, rfl, ha.conn, ha.sent, ha.err⟩

/-- By induction on the iterations left: the attempt is accepted, or the result
    is that of the rest of the loop. -/
theorem connectLoop_options (env : Env) (p : ℕ) : ∀ (k : ℕ) (s : St),
    (∃ i ≤ k, FirstAccepted env s.world i ∧
        Optioned env p (contextOf env s.world i) (connectLoop env p (k + 1) s)) ∨
      (∀ i ≤ k, env.connect (s.world.connects + i) ≠ .ok) ∧
        (connectLoop env p (k + 1) s).2 = false := by
  intro k
  induction k with
  | zero =>
    intro s
    rw [connectLoop_succ]
    by_cases hok : env.connect s.world.connects = .ok
    · obtain ⟨hfirst, hopt⟩ := optioned_first (p := p) hok
      exact Or.inl ⟨0, le_rfl, hfirst, by rwa [if_pos hok]⟩
    · refine Or.inr ⟨fun i hi => ?_, by rw [if_neg hok, if_pos rfl]⟩
      rwa [Nat.le_zero.mp hi]
  | succ k ih =>
    intro s
    rw [connectLoop_succ]
    by_cases hok : env.connect s.world.connects = .ok
    · obtain ⟨hfirst, hopt⟩ := optioned_first (p := p) hok
      exact Or.inl ⟨0, Nat.zero_le _, hfirst, by rwa [if_pos hok]⟩
    · rw [if_neg hok, if_neg (Nat.succ_ne_zero k)]
      set s₁ := ({ s with world := refuse env p s } : St).setSock p (nextBackup s.config) with hs₁
      have hw : s₁.world.connects = s.world.connects + 1 := (refuse_spec env p s).1
      rcases ih s₁ with ⟨i, hi, hfirst, hopt⟩ | ⟨hno, hfalse⟩
      · refine Or.inl ⟨i + 1, by omega, hfirst.succ hw hok, ?_⟩
        rwa [contextOf_succ hw (refuse_nctx s)]
      · refine Or.inr ⟨fun i hi => ?_, hfalse⟩
        cases i with
        | zero => exact hok
        | succ i =>
          have hi' := hno i (by omega)
          rwa [hw, show s.world.connects + 1 + i = s.world.connects + (i + 1) by omega] at hi'

/-- **What a call leaves behind.** It adopts the context of the first accepted
    attempt, or there is none and it fails. -/
theorem connectSingleSocket_options (env : Env) (p : ℕ) (s : St) :
    (∃ i < s.config.numEndpoints, FirstAccepted env s.world i ∧
        Optioned env p (contextOf env s.world i) (connectSingleSocket env p s)) ∨
      (∀ i < s.config.numEndpoints, env.connect (s.world.connects + i) ≠ .ok) ∧
        (connectSingleSocket env p s).2 = false := by
  unfold connectSingleSocket
  have hn : s.config.numEndpoints = s.config.numEndpoints - 1 + 1 := by
    have := s.config.endpoints_pos
    unfold PoolConfig.numEndpoints; omega
  rw [hn]
  rcases connectLoop_options env p (s.config.numEndpoints - 1) s with
    ⟨i, hi, h⟩ | ⟨hno, h⟩
  · exact Or.inl ⟨i, by omega, h⟩
  · exact Or.inr ⟨fun i hi => hno i (by omega), h⟩

end Context

/-! ## The first command -/

/-- The first half of a command on `p` writes its request out. Both the retry of
    `redis_vcommand` and the first command on a socket begin with it. -/
def Sends (p : ℕ) (s : St) : Prop :=
  ∃ c, (s.sock p).conn = some c ∧ (s.world.ctx c).err = false ∧
    ∀ r, ((s.world.append (some c) r true).1.ctx c).sent = [r]

/-- Both option calls succeed on the context of the first accepted attempt. -/
def OptionsSucceed (env : Env) (s : St) : Prop :=
  ∀ i < s.config.numEndpoints, FirstAccepted env s.world i →
    env.setTimeout (contextOf env s.world i) = true ∧
      env.keepAlive (contextOf env s.world i) = true

/-- **A successful call leaves a context that sends commands iff both option
    calls succeed on it.** -/
theorem connectSingleSocket_sends_iff (env : Env) (p : ℕ) (s : St) :
    ((connectSingleSocket env p s).2 = true → Sends p (connectSingleSocket env p s).1) ↔
      OptionsSucceed env s := by
  rcases connectSingleSocket_options env p s with ⟨i, hi, hfirst, hopt⟩ | ⟨hno, hfalse⟩
  · constructor
    · intro h j hj hj'
      obtain rfl := hfirst.unique hj'
      obtain ⟨c, hc, herr, -⟩ := h hopt.ok
      rw [hopt.conn] at hc
      rw [← Option.some.inj hc, hopt.err] at herr
      simpa using herr
    · intro h _
      obtain ⟨h1, h2⟩ := h i hi hfirst
      have herr : ((connectSingleSocket env p s).1.world.ctx (contextOf env s.world i)).err = false := by
        rw [hopt.err, h1, h2]; rfl
      refine ⟨_, hopt.conn, herr, fun r => ?_⟩
      simp [World.append, herr, hopt.sent]
  · constructor
    · intro _ i hi hfirst
      exact absurd hfirst.1 (hno i hi)
    · intro _ hok
      rw [hfalse] at hok; cases hok

/-- An environment in which `redisSetTimeout` fails. -/
def Env.noTimeout : Env := { Env.good with setTimeout := fun _ => false }

/-- A call in a new pool succeeds although the time-out could not be set. The
    socket is connected, and neither the first command on it nor the retry after
    the reconnect is sent. -/
theorem dead_on_arrival : ∃ c, checkConfig (.single 1 1) = some c ∧
    let s := beforeInit .noTimeout 0 (emptyPool c World.init)
    (connectSingleSocket .noTimeout 0 s).2 = true ∧
      ¬Sends 0 (connectSingleSocket .noTimeout 0 s).1 ∧
      (redisVcommand .noTimeout 0 ⟨0, 0, 0, .incr 7⟩ (connectSingleSocket .noTimeout 0 s).1).2 = none ∧
      applied (redisVcommand .noTimeout 0 ⟨0, 0, 0, .incr 7⟩
        (connectSingleSocket .noTimeout 0 s).1).1.world.trace = [] := by
  refine ⟨_, rfl, rfl, ?_, by decide, by decide⟩
  rintro ⟨c, hc, herr, -⟩
  obtain rfl : 0 = c := Option.some.inj hc
  revert herr
  decide

end Hiredispool.Pool
