import Hiredispool.Pool.Hiredis

/-!
# `connect_single_socket`

Model of `hiredispool.c`, lines 182–274: the fail-over loop over the endpoints,
its success exit and its failure exit.

* `connectSingleSocket_spec`: what one call may change. Only `conn`, `state`
  and `backup` of the socket, `connect_after` and the world; on success the
  socket owns a context opened by this call, on failure it owns none and
  `connect_after` is the clock reading plus the delay; every other context
  opened by the call is freed exactly once.
-/

namespace Hiredispool.Pool

/-! ## Model -/

/-- `inst->config->endpoints[i]`. The index is in range (`backup < num_endpoints`
    is an invariant); C reads outside of the array otherwise. -/
def PoolConfig.endpoint (c : PoolConfig) (i : ℕ) : RedisEndpoint := c.endpoints.getD i default

/-- `backup = (backup + 1) % num_endpoints` (lines 253 and 269). -/
def nextBackup (c : PoolConfig) (r : RedisSocket) : RedisSocket :=
  { r with backup := (r.backup + 1) % c.numEndpoints }

/-- Lines 220–225: with more than one endpoint, choose the next backup at random. -/
def chooseBackup (env : Env) (p : ℕ) (s : St) : St :=
  let n := s.config.numEndpoints
  if n > 1 then
    let (x, w) := s.world.rand env
    { s.setSock p fun r => { r with backup := (r.backup + (1 + x % (n - 1))) % n } with world := w }
  else s

/-- Lines 218–237: store the context, choose the next backup, set the options.
    A failed option is only logged. -/
def connected (env : Env) (p : ℕ) (c : ℕ) (s : St) : St :=
  let s := s.setSock p fun r => { r with conn := some c, state := .sockconnected }
  let s := chooseBackup env p s
  { s with world := (s.world.redisSetTimeout env c).redisEnableKeepAlive env c }

/-- Lines 256–273: the failure exit. -/
def connectFailed (env : Env) (p : ℕ) (c : Option ℕ) (s : St) : St :=
  let s := { s with world := s.world.redisFree c }
  let s := s.setSock p fun r =>
    nextBackup s.config { r with conn := none, state := .sockunconnected }
  let (now, w) := s.world.time env
  { s with
    connectAfter := now + s.config.connectFailureRetryDelay
    world := w.log (.connectFailed p now) }

/-- The `for` loop of lines 207–254 and the exits, with `k` iterations left:
    `i = num_endpoints - k`, and the last one has `k = 1`. Returns whether the
    return value is 0. -/
def connectLoop (env : Env) (p : ℕ) : ℕ → St → St × Bool
  | 0, s => (s, false)
  | k + 1, s =>
    let backup := (s.sock p).backup
    let (w, c) := s.world.redisConnectWithTimeout env p backup (s.config.endpoint backup)
    let s := { s with world := w }
    match c.filter fun c => !(w.ctx c).err with
    | some c => (connected env p c s, true)
    | none =>
      -- we have tried the last one but still fail
      if k = 0 then (connectFailed env p c s, false)
      else
        let s := { s with world := s.world.redisFree c }
        connectLoop env p k (s.setSock p (nextBackup s.config))

/-- `connect_single_socket(redisocket, inst)` (lines 190–274). -/
def connectSingleSocket (env : Env) (p : ℕ) (s : St) : St × Bool :=
  connectLoop env p s.config.numEndpoints s

/-! ## What a call may change -/

/-- `s'` differs from `s` at most in `conn`, `state` and `backup` of the socket
    `p`, in `connect_after` and in the world. -/
structure SockFrame (p : ℕ) (s s' : St) : Prop where
  config : s'.config = s.config
  redisPool : s'.redisPool = s.redisPool
  lastUsed : s'.lastUsed = s.lastUsed
  other : ∀ q, q ≠ p → s'.sock q = s.sock q
  id : (s'.sock p).id = (s.sock p).id
  mutex : ∀ q, (s'.sock q).mutex = (s.sock q).mutex
  inuse : ∀ q, (s'.sock q).inuse = (s.sock q).inuse
  next : ∀ q, (s'.sock q).next = (s.sock q).next

theorem SockFrame.refl (p : ℕ) (s : St) : SockFrame p s s :=
  ⟨rfl, rfl, rfl, fun _ _ => rfl, rfl, fun _ => rfl, fun _ => rfl, fun _ => rfl⟩

theorem SockFrame.trans {p : ℕ} {s s' s'' : St} (h : SockFrame p s s')
    (h' : SockFrame p s' s'') : SockFrame p s s'' where
  config := h'.config.trans h.config
  redisPool := h'.redisPool.trans h.redisPool
  lastUsed := h'.lastUsed.trans h.lastUsed
  other q hq := (h'.other q hq).trans (h.other q hq)
  id := h'.id.trans h.id
  mutex q := (h'.mutex q).trans (h.mutex q)
  inuse q := (h'.inuse q).trans (h.inuse q)
  next q := (h'.next q).trans (h.next q)

/-- A write to the connection fields of `p`, to `connect_after` and to the world. -/
theorem SockFrame.of_setSock {p : ℕ} {s s' : St} (f : RedisSocket → RedisSocket)
    (hf : ∀ r, (f r).id = r.id ∧ (f r).mutex = r.mutex ∧ (f r).inuse = r.inuse ∧
      (f r).next = r.next)
    (hs : s' = { s.setSock p f with connectAfter := s'.connectAfter, world := s'.world }) :
    SockFrame p s s' := by
  rw [hs]
  exact ⟨rfl, rfl, rfl, fun q hq => by simp [hq], by simp [(hf _).1],
    fun q => by by_cases hq : q = p <;> simp [hq, (hf _).2.1],
    fun q => by by_cases hq : q = p <;> simp [hq, (hf _).2.2.1],
    fun q => by by_cases hq : q = p <;> simp [hq, (hf _).2.2.2]⟩

/-- A write to the world alone. -/
theorem SockFrame.of_world (p : ℕ) (s : St) (w : World) :
    SockFrame p s { s with world := w } :=
  ⟨rfl, rfl, rfl, fun _ _ => rfl, rfl, fun _ => rfl, fun _ => rfl, fun _ => rfl⟩

/-- The events of refused connect attempts for `p`. -/
def Event.ofAttempt (p : ℕ) : Event → Prop
  | .connect q _ _ => q = p
  | .free _ => True
  | _ => False

/-- From `w` to `w'` some connect attempts for `p` were refused, and each
    context they opened was freed once. -/
structure Refusals (p : ℕ) (w w' : World) : Prop where
  clocks : w'.clocks = w.clocks
  nctx_le : w.nctx ≤ w'.nctx
  old : ∀ c, c < w.nctx ∨ w'.nctx ≤ c → w'.ctx c = w.ctx c
  fresh : ∀ c, w.nctx ≤ c → c < w'.nctx →
    (w'.ctx c).frees = 1 ∧ (w'.ctx c).sent = [] ∧ (w'.ctx c).inbox = []
  trace : ∃ new, w'.trace = w.trace ++ new ∧ ∀ e ∈ new, e.ofAttempt p

theorem Refusals.refl (p : ℕ) (w : World) : Refusals p w w :=
  ⟨rfl, le_rfl, fun _ _ => rfl, fun _ h1 h2 => by omega, ⟨[], by simp⟩⟩

theorem Refusals.trans {p : ℕ} {w w' w'' : World} (h : Refusals p w w')
    (h' : Refusals p w' w'') : Refusals p w w'' where
  clocks := h'.clocks.trans h.clocks
  nctx_le := h.nctx_le.trans h'.nctx_le
  old c hc := by
    have h1 := h.nctx_le
    have h2 := h'.nctx_le
    exact (h'.old c (by omega)).trans (h.old c (by omega))
  fresh c h1 h2 := by
    by_cases hc : c < w'.nctx
    · rw [h'.old c (Or.inl hc)]; exact h.fresh c h1 hc
    · exact h'.fresh c (by omega) h2
  trace := by
    obtain ⟨l, hl, hl'⟩ := h.trace
    obtain ⟨m, hm, hm'⟩ := h'.trace
    refine ⟨l ++ m, by rw [hm, hl, List.append_assoc], fun e he => ?_⟩
    rcases List.mem_append.mp he with he | he
    · exact hl' e he
    · exact hm' e he

/-- The call adopted context number `w.nctx`, opened after the refusals up to `w`. -/
structure Adopted (env : Env) (p : ℕ) (w : World) (s s' : St) : Prop where
  connectAfter : s'.connectAfter = s.connectAfter
  state : (s'.sock p).state = .sockconnected
  conn : (s'.sock p).conn = some w.nctx
  clocks : s'.world.clocks = w.clocks
  nctx : s'.world.nctx = w.nctx + 1
  other : ∀ c, c ≠ w.nctx → s'.world.ctx c = w.ctx c
  frees : (s'.world.ctx w.nctx).frees = 0
  sent : (s'.world.ctx w.nctx).sent = []
  inbox : (s'.world.ctx w.nctx).inbox = []
  err : (s'.world.ctx w.nctx).err = !(env.setTimeout w.nctx && env.keepAlive w.nctx)
  trace : ∃ ep, s'.world.trace = w.trace ++ [.connect p ep (some w.nctx)]

/-- All attempts were refused, up to `w`; then the grace period was set. -/
structure Refused (env : Env) (p : ℕ) (w : World) (s s' : St) : Prop where
  connectAfter : s'.connectAfter = env.clock w.clocks + s.config.connectFailureRetryDelay
  state : (s'.sock p).state = .sockunconnected
  conn : (s'.sock p).conn = none
  clocks : s'.world.clocks = w.clocks + 1
  nctx : s'.world.nctx = w.nctx
  ctx : s'.world.ctx = w.ctx
  trace : s'.world.trace = w.trace ++ [.connectFailed p (env.clock w.clocks)]

/-! ## The specification of a call -/

section Spec

variable (env : Env) (p : ℕ)

/-- A refused attempt, with its `redisFree`. -/
theorem refusals_attempt (ep : ℕ) (tgt : RedisEndpoint) (w : World) :
    Refusals p w ((w.redisConnectWithTimeout env p ep tgt).1.redisFree
      (w.redisConnectWithTimeout env p ep tgt).2) := by
  unfold World.redisConnectWithTimeout World.redisFree
  by_cases hres : env.connect w.connects = .null
  · simp only [hres, if_true]
    exact ⟨rfl, le_rfl, fun _ _ => rfl, fun _ h1 h2 => by simp at h1 h2; omega,
      ⟨[.connect p ep none], by simp [Event.ofAttempt]⟩⟩
  · simp only [hres, if_false]
    refine ⟨rfl, Nat.le_succ _, ?_, ?_, ⟨[.connect p ep (some w.nctx), .free w.nctx], ?_⟩⟩
    · intro c hc
      have hne : c ≠ w.nctx := by simp at hc; omega
      simp [hne, World.setCtx]
    · intro c h1 h2
      have hc : c = w.nctx := by simp at h2; omega
      subst hc; simp [World.setCtx]
    · simp [Event.ofAttempt]

theorem sockFrame_chooseBackup (s : St) : SockFrame p s (chooseBackup env p s) := by
  unfold chooseBackup
  dsimp only
  split
  · exact SockFrame.of_setSock (fun r => { r with
      backup := (r.backup + (1 + env.rand s.world.rands % (s.config.numEndpoints - 1))) %
        s.config.numEndpoints }) (fun _ => ⟨rfl, rfl, rfl, rfl⟩) rfl
  · exact SockFrame.refl p s

theorem sockFrame_connected (c : ℕ) (s : St) : SockFrame p s (connected env p c s) := by
  have h1 : SockFrame p s
      (s.setSock p fun r => { r with conn := some c, state := .sockconnected }) :=
    SockFrame.of_setSock (fun r => { r with conn := some c, state := .sockconnected })
      (fun _ => ⟨rfl, rfl, rfl, rfl⟩) rfl
  exact (h1.trans (sockFrame_chooseBackup env p _)).trans (SockFrame.of_world p _ _)

theorem sockFrame_connectFailed (c : Option ℕ) (s : St) :
    SockFrame p s (connectFailed env p c s) :=
  SockFrame.of_setSock
    (fun r => nextBackup s.config { r with conn := none, state := .sockunconnected })
    (fun _ => ⟨rfl, rfl, rfl, rfl⟩) rfl

theorem chooseBackup_world (s : St) :
    (chooseBackup env p s).world.ctx = s.world.ctx ∧
      (chooseBackup env p s).world.nctx = s.world.nctx ∧
      (chooseBackup env p s).world.clocks = s.world.clocks ∧
      (chooseBackup env p s).world.connects = s.world.connects ∧
      (chooseBackup env p s).world.trace = s.world.trace := by
  unfold chooseBackup
  dsimp only
  split <;> exact ⟨rfl, rfl, rfl, rfl, rfl⟩

theorem chooseBackup_sock (s : St) :
    (chooseBackup env p s).connectAfter = s.connectAfter ∧
      ((chooseBackup env p s).sock p).state = (s.sock p).state ∧
      ((chooseBackup env p s).sock p).conn = (s.sock p).conn := by
  unfold chooseBackup
  dsimp only
  split
  · simp
  · exact ⟨rfl, rfl, rfl⟩

/-- The two option calls set `err` unless both succeed. -/
theorem options_spec (c : ℕ) (w : World) :
    let w' := (w.redisSetTimeout env c).redisEnableKeepAlive env c
    w'.clocks = w.clocks ∧ w'.connects = w.connects ∧ w'.nctx = w.nctx ∧ w'.trace = w.trace ∧
      (∀ c', c' ≠ c → w'.ctx c' = w.ctx c') ∧
      w'.ctx c = { w.ctx c with err := (w.ctx c).err || !(env.setTimeout c && env.keepAlive c) } := by
  unfold World.redisSetTimeout World.redisEnableKeepAlive
  cases env.setTimeout c <;> cases env.keepAlive c <;> simp +contextual [World.setErr]

/-- The success exit, for the context that `redisConnectWithTimeout` has just opened. -/
theorem adopted_attempt (ep : ℕ) (tgt : RedisEndpoint) (s : St)
    (hok : env.connect s.world.connects = .ok) :
    Adopted env p s.world s (connected env p s.world.nctx
      { s with world := (s.world.redisConnectWithTimeout env p ep tgt).1 }) := by
  unfold connected
  dsimp only
  set s₁ := ({ s with world := (s.world.redisConnectWithTimeout env p ep tgt).1 } : St).setSock p
    fun r => { r with conn := some s.world.nctx, state := .sockconnected } with hs₁
  obtain ⟨hctx, hn, hcl, -, htr⟩ := chooseBackup_world env p s₁
  obtain ⟨hca, hst, hco⟩ := chooseBackup_sock env p s₁
  obtain ⟨o1, -, o3, o4, o5, o6⟩ := options_spec env s.world.nctx (chooseBackup env p s₁).world
  have hnew : s₁.world.ctx s.world.nctx = ⟨ep, tgt, false, 0, [], []⟩ := by
    simp [hs₁, World.redisConnectWithTimeout, hok, World.setCtx]
  have hres : s₁.world = (s.world.redisConnectWithTimeout env p ep tgt).1 := rfl
  rw [hctx, hnew] at o6
  refine ⟨hca, hst.trans (by simp [hs₁]), hco.trans (by simp [hs₁]), ?_, ?_, ?_,
    by rw [o6], by rw [o6], by rw [o6], by simp [o6], ep, ?_⟩
  · exact (o1.trans hcl).trans (by simp [hres, World.redisConnectWithTimeout, hok])
  · exact (o3.trans hn).trans (by simp [hres, World.redisConnectWithTimeout, hok])
  · intro c hc
    rw [o5 c hc, hctx, hres]
    simp [World.redisConnectWithTimeout, hok, World.setCtx, hc]
  · exact (o4.trans htr).trans (by simp [hres, World.redisConnectWithTimeout, hok])

/-- The failure exit. -/
theorem refused_attempt (c : Option ℕ) (s : St) (w : World) :
    Refused env p (w.redisFree c) s (connectFailed env p c { s with world := w }) := by
  refine ⟨rfl, ?_, ?_, rfl, rfl, rfl, rfl⟩ <;> simp [connectFailed, nextBackup]

/-- A context without `err` comes from an accepted connect, and is the new one. -/
theorem accepted_iff (ep : ℕ) (tgt : RedisEndpoint) (w : World) (c : ℕ) :
    ((w.redisConnectWithTimeout env p ep tgt).2.filter fun c =>
        !((w.redisConnectWithTimeout env p ep tgt).1.ctx c).err) = some c ↔
      env.connect w.connects = .ok ∧ c = w.nctx := by
  unfold World.redisConnectWithTimeout
  cases h : env.connect w.connects <;> simp [Option.filter, World.setCtx, eq_comm]

/-- The attempt made from `s₁`: the world after it, and the context. -/
def tryBackup (s₁ : St) : World × Option ℕ :=
  s₁.world.redisConnectWithTimeout env p (s₁.sock p).backup
    (s₁.config.endpoint (s₁.sock p).backup)

/-- The world after a refused attempt from `s₁`, with its `redisFree`. -/
def refuse (s₁ : St) : World := (tryBackup env p s₁).1.redisFree (tryBackup env p s₁).2

/-- One iteration of the loop: accepted, the last one refused, or refused. -/
theorem connectLoop_succ (k : ℕ) (s₁ : St) :
    connectLoop env p (k + 1) s₁ =
      if env.connect s₁.world.connects = .ok then
        (connected env p s₁.world.nctx { s₁ with world := (tryBackup env p s₁).1 }, true)
      else if k = 0 then
        (connectFailed env p (tryBackup env p s₁).2 { s₁ with world := (tryBackup env p s₁).1 }, false)
      else
        connectLoop env p k
          (({ s₁ with world := refuse env p s₁ } : St).setSock p (nextBackup s₁.config)) := by
  rw [connectLoop]
  dsimp only
  split
  · rename_i c hc
    obtain ⟨hok, rfl⟩ := (accepted_iff env p _ _ _ _).mp hc
    rw [if_pos hok]; rfl
  · rename_i hc
    have hno : env.connect s₁.world.connects ≠ .ok := by
      intro hok
      have hacc := (accepted_iff env p (s₁.sock p).backup (s₁.config.endpoint (s₁.sock p).backup)
        s₁.world s₁.world.nctx).mpr ⟨hok, rfl⟩
      rw [hacc] at hc; cases hc
    rw [if_neg hno]; rfl

/-- What a call of `connect_single_socket` for `p` from `s` may return. -/
def ConnectSpec (s : St) (r : St × Bool) : Prop :=
  SockFrame p s r.1 ∧ ∃ w, Refusals p s.world w ∧
    (r.2 = true ∧ Adopted env p w s r.1 ∨ r.2 = false ∧ Refused env p w s r.1)

theorem accepted_spec {s : St} (hok : env.connect s.world.connects = .ok) :
    ConnectSpec env p s
      (connected env p s.world.nctx { s with world := (tryBackup env p s).1 }, true) :=
  ⟨(SockFrame.of_world p s _).trans (sockFrame_connected env p _ _), s.world, Refusals.refl p _,
    Or.inl ⟨rfl, adopted_attempt env p _ _ s hok⟩⟩

theorem refused_spec (s : St) :
    ConnectSpec env p s
      (connectFailed env p (tryBackup env p s).2 { s with world := (tryBackup env p s).1 }, false) :=
  ⟨(SockFrame.of_world p s _).trans (sockFrame_connectFailed env p _ _), _,
    refusals_attempt env p _ _ _, Or.inr ⟨rfl, refused_attempt env p _ s _⟩⟩

/-- By induction on the iterations left: a refused attempt leaves a state from
    which the rest of the loop satisfies the specification. -/
theorem connectLoop_spec (k : ℕ) (s : St) : ConnectSpec env p s (connectLoop env p (k + 1) s) := by
  induction k generalizing s with
  | zero =>
    rw [connectLoop_succ]
    split
    · exact accepted_spec env p ‹_›
    · rw [if_pos rfl]
      exact refused_spec env p s
  | succ k ih =>
    rw [connectLoop_succ]
    split
    · exact accepted_spec env p ‹_›
    · rw [if_neg (by omega)]
      -- the state after the refused attempt, with the index moved on
      set s₁ : St := St.setSock _ p (nextBackup s.config) with hs₁
      have hf : SockFrame p s s₁ :=
        SockFrame.of_setSock (nextBackup s.config) (fun _ => ⟨rfl, rfl, rfl, rfl⟩) rfl
      have hr : Refusals p s.world s₁.world := refusals_attempt env p _ _ _
      obtain ⟨hf', w, hr', h⟩ := ih s₁
      refine ⟨hf.trans hf', w, hr.trans hr', ?_⟩
      rcases h with ⟨ho, ha⟩ | ⟨ho, ha⟩
      · exact Or.inl ⟨ho, { ha with connectAfter := ha.connectAfter }⟩
      · exact Or.inr ⟨ho, { ha with connectAfter := ha.connectAfter }⟩

/-- **One call of `connect_single_socket`.** -/
theorem connectSingleSocket_spec (s : St) :
    ConnectSpec env p s (connectSingleSocket env p s) := by
  unfold connectSingleSocket
  have hn : s.config.numEndpoints = s.config.numEndpoints - 1 + 1 := by
    have := s.config.endpoints_pos
    unfold PoolConfig.numEndpoints; omega
  rw [hn]
  exact connectLoop_spec env p _ s

end Spec

/-! ## Consequences -/

section Consequences

variable {env : Env} {p : ℕ} {s : St} {r : St × Bool}

/-- The world after a call: time and contexts only move on, other threads'
    contexts are as they were, and the trace is extended. -/
theorem ConnectSpec.nctx_le (h : ConnectSpec env p s r) : s.world.nctx ≤ r.1.world.nctx := by
  obtain ⟨-, w, hw, ⟨-, ha⟩ | ⟨-, ha⟩⟩ := h
  · have := hw.nctx_le; rw [ha.nctx]; omega
  · rw [ha.nctx]; exact hw.nctx_le

theorem ConnectSpec.old (h : ConnectSpec env p s r) {c : ℕ}
    (hc : c < s.world.nctx ∨ r.1.world.nctx ≤ c) : r.1.world.ctx c = s.world.ctx c := by
  obtain ⟨-, w, hw, ⟨-, ha⟩ | ⟨-, ha⟩⟩ := h
  · have := hw.nctx_le
    rw [ha.nctx] at hc
    rw [ha.other c (by omega), hw.old c (by omega)]
  · rw [ha.nctx] at hc
    rw [ha.ctx, hw.old c hc]

/-- A context opened by the call is empty, and freed exactly once unless the
    socket owns it now. -/
theorem ConnectSpec.fresh (h : ConnectSpec env p s r) {c : ℕ} (h1 : s.world.nctx ≤ c)
    (h2 : c < r.1.world.nctx) :
    (r.1.world.ctx c).sent = [] ∧ (r.1.world.ctx c).inbox = [] ∧
      (r.1.world.ctx c).frees = if (r.1.sock p).conn = some c then 0 else 1 := by
  obtain ⟨-, w, hw, ⟨-, ha⟩ | ⟨-, ha⟩⟩ := h
  · rw [ha.nctx] at h2
    rw [ha.conn]
    by_cases hc : c = w.nctx
    · subst hc; simp [ha.sent, ha.inbox, ha.frees]
    · obtain ⟨e1, e2, e3⟩ := hw.fresh c h1 (by omega)
      rw [ha.other c hc]
      have hne : w.nctx ≠ c := fun e => hc e.symm
      simp [e1, e2, e3, hne]
  · rw [ha.nctx] at h2
    rw [ha.conn, ha.ctx]
    obtain ⟨e1, e2, e3⟩ := hw.fresh c h1 h2
    simp [e1, e2, e3]

/-- After the call the socket is connected to a context of this call, or not at all. -/
theorem ConnectSpec.conn (h : ConnectSpec env p s r) :
    (r.2 = true ∧ (r.1.sock p).state = .sockconnected ∧
        ∃ c, (r.1.sock p).conn = some c ∧ s.world.nctx ≤ c ∧ c < r.1.world.nctx) ∨
      (r.2 = false ∧ (r.1.sock p).state = .sockunconnected ∧ (r.1.sock p).conn = none) := by
  obtain ⟨-, w, hw, ⟨ho, ha⟩ | ⟨ho, ha⟩⟩ := h
  · exact Or.inl ⟨ho, ha.state, w.nctx, ha.conn, hw.nctx_le, by rw [ha.nctx]; omega⟩
  · exact Or.inr ⟨ho, ha.state, ha.conn⟩

/-- The trace after a call, with the reading of the clock after a failure. -/
theorem ConnectSpec.trace (h : ConnectSpec env p s r) :
    ∃ new, (∀ e ∈ new, Event.ofAttempt p e) ∧
      (r.2 = true ∧ r.1.connectAfter = s.connectAfter ∧ r.1.world.clocks = s.world.clocks ∧
          r.1.world.trace = s.world.trace ++ new ∨
        r.2 = false ∧
          r.1.connectAfter = env.clock s.world.clocks + s.config.connectFailureRetryDelay ∧
          r.1.world.clocks = s.world.clocks + 1 ∧
          r.1.world.trace =
            s.world.trace ++ new ++ [.connectFailed p (env.clock s.world.clocks)]) := by
  obtain ⟨-, w, hw, ⟨ho, ha⟩ | ⟨ho, ha⟩⟩ := h
  · obtain ⟨new, hnew, hof⟩ := hw.trace
    obtain ⟨ep, htr⟩ := ha.trace
    refine ⟨new ++ [.connect p ep (some w.nctx)], fun e he => ?_,
      Or.inl ⟨ho, ha.connectAfter, ha.clocks.trans hw.clocks, by rw [htr, hnew, List.append_assoc]⟩⟩
    rcases List.mem_append.mp he with he | he
    · exact hof e he
    · rw [List.mem_singleton.mp he]; rfl
  · obtain ⟨new, hnew, hof⟩ := hw.trace
    exact ⟨new, hof, Or.inr ⟨ho, by rw [ha.connectAfter, hw.clocks], by rw [ha.clocks, hw.clocks],
      by rw [ha.trace, hnew, hw.clocks]⟩⟩

/-- A successful call ends with the opening of the context that the socket gets. -/
theorem ConnectSpec.opened (h : ConnectSpec env p s r) (ho : r.2 = true) :
    ∃ c ep new, (r.1.sock p).conn = some c ∧
      r.1.world.trace = s.world.trace ++ new ∧ .connect p ep (some c) ∈ new := by
  obtain ⟨-, w, hw, ⟨-, ha⟩ | ⟨hf, -⟩⟩ := h
  · obtain ⟨new, hnew, -⟩ := hw.trace
    obtain ⟨ep, htr⟩ := ha.trace
    exact ⟨w.nctx, ep, new ++ [.connect p ep (some w.nctx)], ha.conn,
      by rw [htr, hnew, List.append_assoc], by simp⟩
  · rw [ho] at hf; cases hf

end Consequences

end Hiredispool.Pool
