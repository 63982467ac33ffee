import Hiredispool.Pool.Command
import Hiredispool.Pool.Ownership

/-!
# Healing

What one call does once everything outside of the pool works again: whatever
the state of the sockets and contexts, a free socket is found and brought to a
context that answers.

* `scan_finds`: the scan returns a usable socket if one is free.
* `redisVcommand_some`: a command on a usable socket returns a reply; the one
  retry is enough.
* `redisClientCommand_some`: so a call returns a reply.
-/

namespace Hiredispool.Pool

/-- From `w` on the clock reads later than `connectAfter`, all connects are
    accepted, and commands on contexts opened from now on are answered. -/
structure Healthy (env : Env) (w : World) (connectAfter : ℤ) : Prop where
  clock : ∀ n, w.clocks ≤ n → connectAfter < env.clock n
  connect : ∀ n, w.connects ≤ n → env.connect n = .ok
  options : ∀ c, w.nctx ≤ c → env.setTimeout c = true ∧ env.keepAlive c = true
  command : ∀ c n, w.nctx ≤ c → env.command c n = .answered

theorem Healthy.congr {env : Env} {w w' : World} {x : ℤ} (h : Healthy env w x)
    (hcl : w'.clocks = w.clocks) (hco : w'.connects = w.connects) (hn : w'.nctx = w.nctx) :
    Healthy env w' x :=
  ⟨hcl ▸ h.clock, hco ▸ h.connect, hn ▸ h.options, hn ▸ h.command⟩

/-- A context without error and backlog on which commands are answered. -/
structure Answering (env : Env) (w : World) (c : ℕ) : Prop where
  err : (w.ctx c).err = false
  sent : (w.ctx c).sent = []
  inbox : (w.ctx c).inbox = []
  command : ∀ n, env.command c n = .answered

/-- A command on this socket will be answered, if need be by a retry. -/
def Usable (env : Env) (s : St) (p : ℕ) : Prop :=
  ∃ c, (s.sock p).conn = some c ∧ (Healthy env s.world s.connectAfter ∨ Answering env s.world c)

/-! ## Connecting -/

section Connect

variable {env : Env} {p : ℕ} {s : St}

/-- The first attempt is accepted. -/
theorem connectSingleSocket_adopts (h : env.connect s.world.connects = .ok) :
    (connectSingleSocket env p s).2 = true ∧
      Adopted env p s.world s (connectSingleSocket env p s).1 := by
  unfold connectSingleSocket
  have hn : s.config.numEndpoints = s.config.numEndpoints - 1 + 1 := by
    have := s.config.endpoints_pos
    unfold PoolConfig.numEndpoints; omega
  rw [hn, connectLoop]
  dsimp only
  rw [(accepted_iff env p _ _ s.world s.world.nctx).mpr ⟨h, rfl⟩]
  exact ⟨rfl, adopted_attempt env p _ _ s h⟩

theorem Adopted.answering {s' : St} (h : Adopted env p s.world s s')
    (hh : Healthy env s.world s.connectAfter) : Answering env s'.world s.world.nctx := by
  obtain ⟨h1, h2⟩ := hh.options s.world.nctx le_rfl
  exact ⟨by rw [h.err, h1, h2]; rfl, h.sent, h.inbox, fun n => hh.command _ n le_rfl⟩

end Connect

/-! ## The scan -/

section Scan

variable {env : Env} {s : St}

theorem Usable.congr {s' : St} {p : ℕ} (h : Usable env s p)
    (hc : (s'.sock p).conn = (s.sock p).conn) (ha : s'.connectAfter = s.connectAfter)
    (hcl : s'.world.clocks = s.world.clocks) (hco : s'.world.connects = s.world.connects)
    (hn : s'.world.nctx = s.world.nctx) (hx : s'.world.ctx = s.world.ctx) : Usable env s' p := by
  obtain ⟨c, hconn, h⟩ := h
  refine ⟨c, hc.trans hconn, h.imp (fun h => ?_) fun h => ?_⟩
  · rw [ha]; exact h.congr hcl hco hn
  · exact ⟨hx ▸ h.err, hx ▸ h.sent, hx ▸ h.inbox, h.command⟩

/-- The checks under the mutex find every free socket usable. -/
theorem checkSocket_usable (cur : ℕ) (hh : Healthy env s.world s.connectAfter)
    (h0 : (s.sock cur).inuse = 0)
    (hst : (s.sock cur).state = .sockconnected → ∃ c, (s.sock cur).conn = some c) :
    (checkSocket env cur s).2 = true ∧ Usable env (checkSocket env cur s).1 cur := by
  have hb : Healthy env (beforeConnect env cur s).world (beforeConnect env cur s).connectAfter :=
    ⟨fun n hn => hh.clock n (Nat.le_of_succ_le hn), hh.connect, hh.options, hh.command⟩
  obtain ⟨hok, hadopt⟩ := connectSingleSocket_adopts (p := cur) (hb.connect _ le_rfl)
  rcases checkSocket_cases env cur s with
    ⟨h1, -⟩ | ⟨-, hc, e⟩ | ⟨-, -, ⟨hle, -⟩ | ⟨-, ⟨-, e⟩ | ⟨hf, -⟩⟩⟩
  · omega
  · obtain ⟨c, hconn⟩ := hst hc
    rw [e]
    exact ⟨rfl, c, by simpa [setInuse] using hconn, Or.inl hh⟩
  · have := hh.clock _ le_rfl
    omega
  · rw [e]; exact ⟨hok, _, hadopt.conn, Or.inr (hadopt.answering hb)⟩
  · rw [hok] at hf; cases hf

/-- By induction on the sockets left in the round: busy sockets are skipped, and
    a free one is still ahead. -/
theorem scan_finds (t : ℕ) {start : ℕ} : ∀ (fuel cur : ℕ) (s : St), Linked s →
    Healthy env s.world s.connectAfter → start < s.numSocks → cur < s.numSocks →
    Ring.hops s.numSocks start cur + fuel = s.numSocks →
    (∀ q, (s.sock q).mutex = none → (s.sock q).inuse = 0) →
    (∀ q, (s.sock q).state = .sockconnected → ∃ c, (s.sock q).conn = some c) →
    (∃ p, p < s.numSocks ∧ (s.sock p).mutex = none ∧
      Ring.hops s.numSocks start cur ≤ Ring.hops s.numSocks start p) →
    ∃ s' q, scan env t start fuel cur s = some (s', some q) ∧ Usable env s' q := by
  intro fuel
  induction fuel with
  | zero =>
    intro cur s _ _ hstart hcur hf
    have := Ring.hops_lt hstart hcur
    omega
  | succ fuel ih =>
    intro cur s hl hh hstart hcur hf hin hst ⟨p, hp, hfree, hahead⟩
    rw [scan]
    dsimp only
    rcases visit_cases env t cur s with ⟨u, hu, e⟩ | ⟨hm, hc⟩
    · rw [e]
      simp only [Bool.false_eq_true, if_false]
      have hne : p ≠ cur := fun e => by rw [e, hu] at hfree; cases hfree
      have hlt : Ring.hops s.numSocks start cur < Ring.hops s.numSocks start p :=
        lt_of_le_of_ne hahead fun e => hne (Ring.hops_inj hp hcur e.symm)
      have hplt := Ring.hops_lt hstart hp
      have hback : Ring.after s.numSocks cur ≠ start := fun e => by
        have := Ring.hops_last hstart hcur e
        omega
      have hnext := Ring.hops_after hstart hcur hback
      rw [nextSocket_eq (hl.log _) hcur]
      rw [if_neg (show ¬ Ring.after (s.log _).numSocks cur = start from hback)]
      exact ih _ _ (hl.log _) (hh.congr rfl rfl rfl) hstart (Ring.after_lt hcur)
        (by simp only [St.numSocks, St.log_config] at *; omega) hin hst
        ⟨p, hp, hfree, by simp only [St.numSocks, St.log_config] at *; omega⟩
    · have hlocked : (locked t cur s).sock cur = { s.sock cur with mutex := some t } := by
        simp [locked]
      obtain ⟨hfound, huse⟩ := checkSocket_usable (s := locked t cur s) cur
        (hh.congr rfl rfl rfl) (by rw [hlocked]; exact hin cur hm) (by rw [hlocked]; exact hst cur)
      rcases hc with ⟨-, e⟩ | ⟨hf, -⟩
      · rw [e]
        exact ⟨_, cur, rfl, huse.congr rfl rfl rfl rfl rfl rfl⟩
      · rw [hfound] at hf; cases hf

/-- `redis_get_socket` returns a usable socket if one is free. -/
theorem redisGetSocket_finds (t : ℕ) (hl : Linked s) (hh : Healthy env s.world s.connectAfter)
    (hin : ∀ q, (s.sock q).mutex = none → (s.sock q).inuse = 0)
    (hst : ∀ q, (s.sock q).state = .sockconnected → ∃ c, (s.sock q).conn = some c)
    {p : ℕ} (hp : p < s.numSocks) (hfree : (s.sock p).mutex = none) :
    ∃ s' q, redisGetSocket env t s = some (s', some q) ∧ Usable env s' q := by
  obtain ⟨start, hstart⟩ := scanStart_isSome (hl.log (.getCall t)) (by simp [St.numSocks] at *; omega)
  have hlt : start < s.numSocks := scanStart_lt (hl.log (.getCall t)) hstart
  obtain ⟨s', q, hscan, huse⟩ := scan_finds t s.numSocks start (s.log (.getCall t)) (hl.log _)
    (hh.congr rfl rfl rfl) hlt hlt (by simp [St.numSocks]) hin hst
    ⟨p, hp, hfree, by rw [Ring.hops_self]; exact Nat.zero_le _⟩
  refine ⟨s'.log (.getReturn t (some q)), q, ?_, huse.congr rfl rfl rfl rfl rfl rfl⟩
  unfold redisGetSocket
  dsimp only
  rw [hstart]
  dsimp only
  rw [show (s.log (Event.getCall t)).numSocks = s.numSocks from rfl, hscan]
  rfl

end Scan

/-! ## The command -/

section Command

/-- `w'` has the counters of `w`: nothing was connected and the clock not read. -/
def SameCounters (w w' : World) : Prop :=
  w'.clocks = w.clocks ∧ w'.connects = w.connects ∧ w'.nctx = w.nctx

theorem SameCounters.trans {w w' w'' : World} (h : SameCounters w w') (h' : SameCounters w' w'') :
    SameCounters w w'' :=
  ⟨h'.1.trans h.1, h'.2.1.trans h.2.1, h'.2.2.trans h.2.2⟩

theorem append_counters {c : Option ℕ} {r : Request} {ok : Bool} {w : World}
    {x : World × Option ℕ} (h : w.append c r ok = x) : SameCounters w x.1 := by
  subst h
  unfold World.append
  cases c with
  | none => exact ⟨rfl, rfl, rfl⟩
  | some c => dsimp only; split <;> exact ⟨rfl, rfl, rfl⟩

theorem serve_counters (c : ℕ) (w : World) : SameCounters w (w.serve c) := by
  rcases w.serve_cases c with ⟨-, e⟩ | ⟨r, rest, -, e⟩ <;> rw [e] <;> exact ⟨rfl, rfl, rfl⟩

theorem serveAll_counters (c : ℕ) (w : World) : SameCounters w (w.serveAll c) := by
  unfold World.serveAll
  generalize (w.ctx c).sent.length = n
  induction n generalizing w with
  | zero => exact ⟨rfl, rfl, rfl⟩
  | succ n ih =>
    rw [Function.iterate_succ_apply]
    exact (serve_counters c w).trans (ih _)

theorem await_counters {c : ℕ} {r : Request} {broken : Bool} {w : World} {x : World × Option Reply}
    (h : w.await c r broken = some x) : SameCounters w x.1 := by
  unfold World.await at h
  split at h
  · cases h; exact ⟨rfl, rfl, rfl⟩
  · split at h
    · cases h
    · cases h; exact ⟨rfl, rfl, rfl⟩

/-- `redisvCommand` neither connects nor reads the clock. -/
theorem redisvCommand_counters (env : Env) (c : Option ℕ) (r : Request) (w : World) :
    SameCounters w (w.redisvCommand env c r).1 := by
  unfold World.redisvCommand
  dsimp only
  split
  · rename_i w' heq
    have hw' : SameCounters w w' := append_counters heq
    exact hw'
  · rename_i w' c' heq
    have hw' : SameCounters w w' := append_counters heq
    split
    · rename_i w'' a hawait
      exact (hw'.trans (serveAll_counters c' w')).trans (await_counters hawait)
    · exact hw'

/-- A command on an answering context returns the answer. -/
theorem redisvCommand_answered {env : Env} {w : World} {c : ℕ} (h : Answering env w c)
    (r : Request) : ∃ w' a, w.redisvCommand env (some c) r = (w', some a) := by
  simp [World.redisvCommand, World.append, World.await, World.serveAll, World.serve, h.err, h.sent,
    h.inbox, h.command]

variable {env : Env} {s : St}

theorem attempt_counters {p : ℕ} {r : Request} {x : St × Option CtxReply}
    (h : attempt env p r s = x) :
    x.1.connectAfter = s.connectAfter ∧ SameCounters s.world x.1.world := by
  subst h
  exact ⟨rfl, redisvCommand_counters env _ r s.world⟩

theorem attempt_answered {p c : ℕ} (hc : (s.sock p).conn = some c) (h : Answering env s.world c)
    (r : Request) : ∃ s' a, attempt env p r s = (s', some a) := by
  obtain ⟨w', a, e⟩ := redisvCommand_answered h r
  exact ⟨{ s with world := w' }, a, by rw [attempt, hc, e]⟩

/-- **The one retry is enough.** -/
theorem redisVcommand_some {p : ℕ} (h : Usable env s p) (r : Request) :
    ∃ s' a, redisVcommand env p r s = (s', some a) := by
  obtain ⟨c, hc, h⟩ := h
  unfold redisVcommand
  rw [hc]
  cases hfirst : attempt env p r s with
  | mk s₀ reply =>
    cases reply with
    | some a => exact ⟨_, a, rfl⟩
    | none =>
      rcases h with hh | ha
      · -- the context was dead: the retry has a fresh one
        obtain ⟨hafter, hcl, hco, hn⟩ := attempt_counters hfirst
        set s₁ : St := { s₀ with world := s₀.world.redisFree (some c) } with hs₁
        have hh₁ : Healthy env s₁.world s₁.connectAfter := by
          rw [show s₁.connectAfter = s.connectAfter from hafter]
          exact hh.congr hcl hco hn
        obtain ⟨hok, hadopt⟩ := connectSingleSocket_adopts (p := p) (hh₁.connect _ le_rfl)
        obtain ⟨s₂, a, hretry⟩ := attempt_answered hadopt.conn (hadopt.answering hh₁) r.retry
        refine ⟨s₂.log (.returned r.caller r.call (some a)), a, ?_⟩
        simp only [← hs₁, hok, if_true, hretry]
      · obtain ⟨s', a, hok⟩ := attempt_answered hc ha r
        rw [hfirst] at hok; cases hok

/-- A call of `RedisClient::redisvCommand` returns a reply if a socket is free. -/
theorem redisClientCommand_some (hl : Linked s) (hh : Healthy env s.world s.connectAfter)
    (hin : ∀ q, (s.sock q).mutex = none → (s.sock q).inuse = 0)
    (hst : ∀ q, (s.sock q).state = .sockconnected → ∃ c, (s.sock q).conn = some c)
    {p : ℕ} (hp : p < s.numSocks) (hfree : (s.sock p).mutex = none) (r : Request) :
    ∃ s' a, redisClientCommand env r s = some (s', some a) := by
  obtain ⟨s₁, q, hget, huse⟩ := redisGetSocket_finds r.caller hl hh hin hst hp hfree
  obtain ⟨s₂, a, hcmd⟩ := redisVcommand_some huse r
  exact ⟨redisReleaseSocket r.caller (some q) s₂, a, by simp [redisClientCommand, hget, hcmd]⟩

end Command

end Hiredispool.Pool
