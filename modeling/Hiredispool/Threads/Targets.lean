import Hiredispool.Pool.Sweep
import Hiredispool.Threads.Exclusion

/-!
# Where the contexts lead

hiredis keeps the host and the port of a context in the context. In the pool
they are those of a configured endpoint, and stay so.

* `Named`: each context leads to the endpoint it bears the number of, and a
  socket's context exists.
* `LocalStep.opens`, `Opens.named`: the steps of threads keep this, and the
  contexts that exist keep their endpoints.
-/

namespace Hiredispool.Threads

open Hiredispool.Pool

/-- The contexts lead to configured endpoints. -/
structure Named (s : St) : Prop where
  conn : ∀ p c, (s.sock p).conn = some c → c < s.world.nctx
  target : ∀ c, c < s.world.nctx →
    (s.world.ctx c).target = s.config.endpoint (s.world.ctx c).endpoint

/-- From `s` to `s'` some contexts have been opened. -/
structure Opens (s s' : St) : Prop where
  config : s'.config = s.config
  nctx_le : s.world.nctx ≤ s'.world.nctx
  old : ∀ c, c < s.world.nctx →
    (s'.world.ctx c).endpoint = (s.world.ctx c).endpoint ∧
      (s'.world.ctx c).target = (s.world.ctx c).target
  new : ∀ c, s.world.nctx ≤ c → c < s'.world.nctx →
    (s'.world.ctx c).target = s.config.endpoint (s'.world.ctx c).endpoint
  conn : ∀ p c, (s'.sock p).conn = some c →
    (s.sock p).conn = some c ∨ s.world.nctx ≤ c ∧ c < s'.world.nctx

theorem Opens.named {s s' : St} (h : Opens s s') (hn : Named s) : Named s' := by
  have hle := h.nctx_le
  refine ⟨fun p c hc => ?_, fun c hc => ?_⟩
  · rcases h.conn p c hc with hc | hc
    · have := hn.conn p c hc
      omega
    · exact hc.2
  · rw [h.config]
    by_cases hlt : c < s.world.nctx
    · rw [(h.old c hlt).1, (h.old c hlt).2, hn.target c hlt]
    · exact h.new c (by omega) hc

/-- Nothing is opened, and `f` changes neither the endpoints nor the sockets' contexts. -/
theorem Opens.of_keep {s s' : St} (hconf : s'.config = s.config)
    (hn : s'.world.nctx = s.world.nctx)
    (hctx : ∀ c, (s'.world.ctx c).endpoint = (s.world.ctx c).endpoint ∧
      (s'.world.ctx c).target = (s.world.ctx c).target)
    (hconn : ∀ p c, (s'.sock p).conn = some c → (s.sock p).conn = some c) : Opens s s' where
  config := hconf
  nctx_le := by rw [hn]
  old c _ := hctx c
  new c h1 h2 := by omega
  conn p c hc := Or.inl (hconn p c hc)

theorem Opens.refl (s : St) : Opens s s :=
  .of_keep rfl rfl (fun _ => ⟨rfl, rfl⟩) fun _ _ h => h

theorem Opens.trans {s s' s'' : St} (h : Opens s s') (h' : Opens s' s'') : Opens s s'' := by
  have hle := h.nctx_le
  have hle' := h'.nctx_le
  refine ⟨h'.config.trans h.config, hle.trans hle', fun c hc => ?_, fun c h1 h2 => ?_,
    fun p c hc => ?_⟩
  · have ho := h'.old c (by omega)
    rw [ho.1, ho.2]
    exact h.old c hc
  · by_cases hc : c < s'.world.nctx
    · have ho := h'.old c hc
      rw [ho.1, ho.2]
      exact h.new c h1 hc
    · rw [← h.config]
      exact h'.new c (by omega) h2
  · rcases h'.conn p c hc with hc | hc
    · rcases h.conn p c hc with hc | hc
      · exact Or.inl hc
      · exact Or.inr (by omega)
    · exact Or.inr (by omega)

/-- A write to sockets that sets no context. -/
theorem Opens.of_setSock (s : St) (p : ℕ) (f : RedisSocket → RedisSocket)
    (hf : ∀ r c, (f r).conn = some c → r.conn = some c) : Opens s (s.setSock p f) :=
  .of_keep rfl rfl (fun _ => ⟨rfl, rfl⟩) fun q c hc => by
    by_cases hq : q = p
    · subst hq
      exact hf _ c (by simpa using hc)
    · simpa [hq] using hc

/-- A step of the world that opens nothing. -/
theorem Opens.of_world (s : St) (w : World) (hn : w.nctx = s.world.nctx)
    (hctx : ∀ c, (w.ctx c).endpoint = (s.world.ctx c).endpoint ∧
      (w.ctx c).target = (s.world.ctx c).target) : Opens s { s with world := w } :=
  .of_keep rfl hn hctx fun _ _ h => h

theorem Opens.log (s : St) (e : Event) : Opens s (s.log e) := .of_world s _ rfl fun _ => ⟨rfl, rfl⟩

/-- A write to a context leaves the endpoints alone. -/
theorem setCtx_named (w : World) (c : ℕ) {f : RedisContext → RedisContext}
    (hf : ∀ x, (f x).endpoint = x.endpoint ∧ (f x).target = x.target) (c' : ℕ) :
    ((w.setCtx c f).ctx c').endpoint = (w.ctx c').endpoint ∧
      ((w.setCtx c f).ctx c').target = (w.ctx c').target := by
  by_cases h : c' = c
  · subst h; simp [hf]
  · simp [h]

theorem setErr_named (w : World) (c c' : ℕ) :
    ((w.setErr c).ctx c').endpoint = (w.ctx c').endpoint ∧
      ((w.setErr c).ctx c').target = (w.ctx c').target :=
  setCtx_named w c (by simp) c'

theorem redisFree_named (w : World) (c : Option ℕ) (c' : ℕ) :
    (w.redisFree c).nctx = w.nctx ∧ ((w.redisFree c).ctx c').endpoint = (w.ctx c').endpoint ∧
      ((w.redisFree c).ctx c').target = (w.ctx c').target := by
  cases c with
  | none => exact ⟨rfl, rfl, rfl⟩
  | some c =>
    have hset := setCtx_named w c (f := fun x => { x with frees := x.frees + 1 }) (by simp) c'
    exact ⟨rfl, hset⟩

theorem Opens.redisFree (s : St) (c : Option ℕ) :
    Opens s { s with world := s.world.redisFree c } :=
  .of_world s _ (redisFree_named s.world c 0).1 fun c' => (redisFree_named s.world c c').2

/-! ## Connecting -/

section Connect

variable (env : Env) (p : ℕ) (s : St)

/-- One attempt opens a context to the backup, or nothing. -/
theorem tryBackup_opens : Opens s { s with world := (tryBackup env p s).1 } := by
  unfold tryBackup World.redisConnectWithTimeout
  by_cases hres : env.connect s.world.connects = .null
  · simp only [hres, if_true]
    exact .of_world s _ rfl fun _ => ⟨rfl, rfl⟩
  · simp only [hres, if_false]
    refine ⟨rfl, Nat.le_succ _, fun c hc => ?_, fun c h1 h2 => ?_, fun _ _ h => Or.inl h⟩
    · have hne : c ≠ s.world.nctx := by omega
      simp [World.setCtx, hne]
    · obtain rfl : c = s.world.nctx := by simp at h2; omega
      simp [World.setCtx]

theorem connected_opens (hok : env.connect s.world.connects = .ok) :
    Opens s (connected env p s.world.nctx { s with world := (tryBackup env p s).1 }) := by
  have htry := tryBackup_opens env p s
  have hn : (tryBackup env p s).1.nctx = s.world.nctx + 1 := by
    simp [tryBackup, World.redisConnectWithTimeout, hok]
  set s₁ : St := { s with world := (tryBackup env p s).1 } with hs₁
  set s₂ := s₁.setSock p fun r => { r with conn := some s.world.nctx, state := .sockconnected }
    with hs₂
  obtain ⟨hctx, hnb, -⟩ := chooseBackup_world env p s₂
  obtain ⟨-, -, ho3, -, ho5, ho6⟩ := options_spec env s.world.nctx (chooseBackup env p s₂).world
  have hframe := sockFrame_connected env p s.world.nctx s₁
  have hworld : ∀ c,
      ((connected env p s.world.nctx s₁).world.ctx c).endpoint = (s₁.world.ctx c).endpoint ∧
        ((connected env p s.world.nctx s₁).world.ctx c).target = (s₁.world.ctx c).target := by
    intro c
    show ((((chooseBackup env p s₂).world.redisSetTimeout env s.world.nctx).redisEnableKeepAlive
        env s.world.nctx).ctx c).endpoint = _ ∧
      ((((chooseBackup env p s₂).world.redisSetTimeout env s.world.nctx).redisEnableKeepAlive
        env s.world.nctx).ctx c).target = _
    by_cases hc : c = s.world.nctx
    · subst hc
      rw [ho6, hctx]
      exact ⟨rfl, rfl⟩
    · rw [ho5 c hc, hctx]
      exact ⟨rfl, rfl⟩
  have hnew : (connected env p s.world.nctx s₁).world.nctx = s.world.nctx + 1 :=
    (ho3.trans hnb).trans hn
  refine ⟨hframe.config, by omega, fun c hc => ?_, fun c h1 h2 => ?_, fun q c hc => ?_⟩
  · rw [(hworld c).1, (hworld c).2]
    exact htry.old c hc
  · rw [(hworld c).1, (hworld c).2]
    refine htry.new c h1 ?_
    show c < (tryBackup env p s).1.nctx
    omega
  · by_cases hq : q = p
    · subst hq
      have hconn := (chooseBackup_sock env q s₂).2.2
      have hself : ((connected env q s.world.nctx s₁).sock q).conn = some s.world.nctx :=
        hconn.trans (by simp [hs₂])
      rw [hself] at hc
      cases hc
      exact Or.inr (by omega)
    · rw [hframe.other q hq] at hc
      exact Or.inl hc

theorem connectFailed_opens (c : Option ℕ) : Opens s (connectFailed env p c s) := by
  refine .of_keep rfl (redisFree_named s.world c 0).1 (fun c' => (redisFree_named s.world c c').2) ?_
  intro q c' hc
  by_cases hq : q = p
  · subst hq
    simp [connectFailed, nextBackup] at hc
  · simpa [connectFailed, hq] using hc

/-- By induction on the iterations left. -/
theorem connectLoop_opens (k : ℕ) : Opens s (connectLoop env p k s).1 := by
  induction k generalizing s with
  | zero => exact .refl s
  | succ k ih =>
    have htry := tryBackup_opens env p s
    rw [connectLoop_succ]
    by_cases hok : env.connect s.world.connects = .ok
    · rw [if_pos hok]
      exact connected_opens env p s hok
    · rw [if_neg hok]
      split
      · exact htry.trans (connectFailed_opens env p _ _)
      · exact ((htry.trans (.redisFree _ _)).trans
          (.of_setSock _ p (nextBackup s.config) fun _ _ h => h)).trans (ih _)

theorem connectSingleSocket_opens : Opens s (connectSingleSocket env p s).1 :=
  connectLoop_opens env p s _

theorem setInuse_opens (v : ℕ) : Opens s (setInuse p v s) :=
  .of_setSock s p (fun r => { r with inuse := v }) fun _ _ h => h

theorem checkSocket_opens : Opens s (checkSocket env p s).1 := by
  have hset := setInuse_opens p s 1
  have hbefore : Opens s (beforeConnect env p s) := hset.trans (.of_world _ _ rfl fun _ => ⟨rfl, rfl⟩)
  have hearly : Opens s (tooEarly env p s) := hset.trans (.of_world _ _ rfl fun _ => ⟨rfl, rfl⟩)
  have hconn := hbefore.trans (connectSingleSocket_opens env p (beforeConnect env p s))
  rcases checkSocket_cases env p s with ⟨-, h⟩ | ⟨-, -, h⟩ | ⟨-, -, ⟨-, h⟩ | ⟨-, ⟨-, h⟩ | ⟨-, h⟩⟩⟩
  · rw [h]; exact .refl s
  · rw [h]; exact hset
  · rw [h]; exact (hearly.trans (.log _ _)).trans (setInuse_opens p _ 0)
  · rw [h]; exact hconn
  · rw [h]; exact (hconn.trans (.log _ _)).trans (setInuse_opens p _ 0)

end Connect

/-! ## The steps -/

section Step

variable {env : Env} {t : ℕ} {s s' : St} {l l' : Local} {api : Api}

theorem LocalStep.opens (h : LocalStep env t s l s' l') : Opens s s' := by
  cases h with
  | startEmpty _ _ | start _ _ => exact .refl s
  | lastUsed _ => exact .of_keep rfl rfl (fun _ => ⟨rfl, rfl⟩) fun _ _ h => h
  | lock _ _ =>
    exact (Opens.of_setSock s _ (fun r => { r with mutex := some t }) fun _ _ h => h).trans (.log _ _)
  | skipped _ | released _ =>
    exact (Opens.of_setSock s _ (fun r => { r with mutex := none }) fun _ _ h => h).trans (.log _ _)
  | busy _ _ | getReturn _ | cmdReturn _ => exact .log s _
  | found _ _ | skip _ _ => exact checkSocket_opens env _ s
  | send _ _ _ | receive _ _ =>
    exact .of_world s _ rfl fun c => setCtx_named _ _ (by simp) c
  | sendFailed _ _ | timeout _ => exact .of_world s _ rfl fun c => setErr_named _ _ c
  | sendNull _ _ => exact .of_world s _ rfl fun _ => ⟨rfl, rfl⟩
  | free _ => exact .redisFree s _
  | reconnected _ _ | serverDown _ _ => exact connectSingleSocket_opens env _ s
  | clear _ => exact setInuse_opens _ s 0

theorem CallStep.opens (h : CallStep t s l api s' l') : Opens s s' := by
  cases h with
  | get => exact .log s _
  | vcommand _ | releaseNull | release _ => exact .refl s

/-- What happens outside of the process opens nothing. -/
theorem serve_opens (c : ℕ) (s : St) : Opens s { s with world := s.world.serve c } := by
  rcases s.world.serve_cases c with ⟨-, h⟩ | ⟨r, rest, -, h⟩ <;> rw [h]
  · exact .refl s
  · refine .of_world s _ rfl fun c' => ?_
    rw [World.log_ctx]
    exact setCtx_named _ _ (by simp) c'

theorem drop_opens (c : ℕ) (s : St) : Opens s { s with world := s.world.drop c } :=
  .of_world s _ rfl fun c' => setCtx_named _ _ (by simp) c'

theorem lose_opens (c : ℕ) (s : St) : Opens s { s with world := s.world.lose c } :=
  .of_world s _ rfl fun c' => setCtx_named _ _ (by simp) c'

end Step

end Hiredispool.Threads
