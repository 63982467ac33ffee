import Hiredispool.Lazy.Machine
import Hiredispool.Threads.Policies
import Hiredispool.Threads.Targets

/-!
# What a call reports

The error record of a socket is written where a connect fails for good and where
the second attempt of a command fails, and is read when the command has returned.

* `reports_fresh`: a call without a reply reports its own last attempt, with an
  `err` that is not 0; a call with a reply names the context that sent it.
* `hosts_faithful_iff`: the report names the host of the endpoint that the call
  has contacted last, except for a host that does not fit into `errhost`.
-/

namespace Hiredispool.Lazy

open Hiredispool.Pool Threads Client

/-- The record of a failed attempt. -/
def describe (env : Env) (a : Attempt) : LastError :=
  match a.ctx with
  | some c => ⟨env.err c, env.errstr c, a.endpoint.host.take 15, a.endpoint.port⟩
  | none => ⟨-1, .ofString "Not enough memory", .ofString "N/A", -1⟩

/-! ## A failed connect -/

section Connect

variable (env : Env) (p : ℕ)

/-- One iteration of the loop: accepted, the last one refused, or refused. -/
theorem connectLoop_succ (k : ℕ) (s : St) :
    connectLoop env p (k + 1) s =
      if env.connect s.pool.world.connects = .ok then
        (s.onPool fun pool => connected env.toEnv p pool.world.nctx
          { pool with world := (tryBackup env.toEnv p pool).1 }, true)
      else if k = 0 then
        (connectFailed env p (tryBackup env.toEnv p s.pool).2
          (s.onPool fun pool => { pool with world := (tryBackup env.toEnv p pool).1 }), false)
      else
        connectLoop env p k (s.onPool fun pool =>
          ({ pool with world := refuse env.toEnv p pool } : Pool.St).setSock p
            (nextBackup pool.config)) := by
  rw [connectLoop]
  dsimp only [St.onPool_pool]
  split
  · rename_i c hc
    obtain ⟨hok, rfl⟩ := (accepted_iff env.toEnv p _ _ _ _).mp hc
    rw [if_pos hok]; rfl
  · rename_i hc
    have hno : env.connect s.pool.world.connects ≠ .ok := by
      intro hok
      have hacc := (accepted_iff env.toEnv p (s.pool.sock p).backup
        (s.pool.config.endpoint (s.pool.sock p).backup) s.pool.world
        s.pool.world.nctx).mpr ⟨hok, rfl⟩
      rw [hacc] at hc; cases hc
    rw [if_neg hno]; rfl

/-- An event that is no attempt. -/
def Idle (e : Event) : Prop := ∀ s, attemptOf s e = none

/-- From `s` to `s'` all connects have failed; the last one was to the endpoint `ep`,
    with the context `c`. -/
structure Failed (s s' : St) (ep : ℕ) (c : Option ℕ) : Prop where
  record : s'.lastError p = some (describe env ⟨s.pool.config.endpoint ep, c⟩)
  trace : ∃ before after, s'.pool.world.trace =
      s.pool.world.trace ++ (before ++ .connect p ep c :: after) ∧ ∀ e ∈ after, Idle e
  new : ∀ x, c = some x → s.pool.world.nctx ≤ x

/-- The failure exit. -/
theorem connectFailed_failed (s : St) (hno : env.connect s.pool.world.connects ≠ .ok) :
    Failed env p s (connectFailed env p (tryBackup env.toEnv p s.pool).2
      (s.onPool fun pool => { pool with world := (tryBackup env.toEnv p pool).1 }))
      (s.pool.sock p).backup (tryBackup env.toEnv p s.pool).2 := by
  show Failed env p s (connectFailed env p (tryBackup env.toEnv p s.pool).2
    { s with pool := { s.pool with world := (tryBackup env.toEnv p s.pool).1 } }) _ _
  cases hres : env.connect s.pool.world.connects with
  | ok => exact absurd hres hno
  | null =>
    have htry : tryBackup env.toEnv p s.pool =
        ({ s.pool.world with connects := s.pool.world.connects + 1 }.log
          (.connect p (s.pool.sock p).backup none), none) := by
      simp [tryBackup, World.redisConnectWithTimeout, hres]
    rw [htry]
    refine ⟨?_, ⟨[], [.connectFailed p (env.clock s.pool.world.clocks)], ?_, ?_⟩, by simp⟩
    · simp [connectFailed, setLastError, describe, St.onPool]
      decide
    · simp [connectFailed, setLastError, St.onPool, Pool.connectFailed, World.redisFree, World.time]
    · simp [Idle, attemptOf]
  | error =>
    have htry : tryBackup env.toEnv p s.pool =
        ({ ({ s.pool.world with connects := s.pool.world.connects + 1 }.setCtx s.pool.world.nctx
            fun _ => ⟨(s.pool.sock p).backup, s.pool.config.endpoint (s.pool.sock p).backup, true, 0,
              [], []⟩) with nctx := s.pool.world.nctx + 1 }.log
          (.connect p (s.pool.sock p).backup (some s.pool.world.nctx)),
          some s.pool.world.nctx) := by
      simp [tryBackup, World.redisConnectWithTimeout, hres]
    rw [htry]
    refine ⟨?_, ⟨[], [.free s.pool.world.nctx, .connectFailed p (env.clock s.pool.world.clocks)],
      ?_, ?_⟩, ?_⟩
    · simp [connectFailed, saveLastError, describe, St.onPool, World.setCtx]
    · simp [connectFailed, saveLastError, St.onPool, Pool.connectFailed, World.redisFree, World.time]
    · simp [Idle, attemptOf]
    · rintro x ⟨⟩
      exact Nat.le_refl _

/-- By induction on the iterations left. -/
theorem connectLoop_failed (k : ℕ) (s : St) (h : (connectLoop env p (k + 1) s).2 = false) :
    ∃ ep c, Failed env p s (connectLoop env p (k + 1) s).1 ep c := by
  induction k generalizing s with
  | zero =>
    rw [connectLoop_succ] at h ⊢
    by_cases hok : env.connect s.pool.world.connects = .ok
    · rw [if_pos hok] at h
      cases h
    · rw [if_neg hok, if_pos rfl]
      exact ⟨_, _, connectFailed_failed env p s hok⟩
  | succ k ih =>
    rw [connectLoop_succ] at h ⊢
    by_cases hok : env.connect s.pool.world.connects = .ok
    · rw [if_pos hok] at h
      cases h
    · rw [if_neg hok, if_neg (Nat.succ_ne_zero k)] at h ⊢
      obtain ⟨ep, c, hf⟩ := ih _ h
      obtain ⟨-, htr, hn⟩ := refuse_spec env.toEnv p s.pool
      obtain ⟨before, after, htrace, hafter⟩ := hf.trace
      refine ⟨ep, c, hf.record, ⟨refusal p (s.pool.sock p).backup (tryBackup env.toEnv p s.pool).2 ++
        before, after, ?_, hafter⟩, fun x hx => ?_⟩
      · rw [htrace]
        show (refuse env.toEnv p s.pool).trace ++ _ = _
        rw [htr, List.append_assoc, List.append_assoc]
      · have hle : (refuse env.toEnv p s.pool).nctx ≤ x := hf.new x hx
        omega

theorem connectSingleSocket_failed (s : St) (h : (connectSingleSocket env p s).2 = false) :
    ∃ ep c, Failed env p s (connectSingleSocket env p s).1 ep c := by
  unfold connectSingleSocket at h ⊢
  have hn : s.pool.config.numEndpoints = s.pool.config.numEndpoints - 1 + 1 := by
    have := s.pool.config.endpoints_pos
    unfold PoolConfig.numEndpoints; omega
  rw [hn] at h ⊢
  exact connectLoop_failed env p _ s h

/-- The last attempt of the step. -/
theorem Failed.last {env : Env} {p : ℕ} {s s' : St} {ep : ℕ} {c : Option ℕ}
    (h : Failed env p s s' ep c) :
    (attemptsOf s.pool s'.pool).getLast? = some ⟨s.pool.config.endpoint ep, c⟩ := by
  obtain ⟨before, after, htrace, hafter⟩ := h.trace
  have hnone : after.filterMap (attemptOf s.pool) = [] :=
    List.filterMap_eq_nil_iff.mpr fun e he => hafter e he s.pool
  rw [attemptsOf, htrace, List.drop_left, List.filterMap_append, List.filterMap_cons]
  simp [attemptOf, hnone]

end Connect

/-! ## What a thread can report -/

/-- What will be reported of a command on `p` that has returned: of a reply, the
    context it came from, to which the socket is connected still; of NULL, the record,
    which the call's last attempt has left. -/
def Backed (env : Env) (s : St) (th : Thread) (p : ℕ) : Option CtxReply → Prop
  | some (c, _) => (s.pool.sock p).conn = some c ∧
      th.attempts.getLast? = some ⟨(s.pool.world.ctx c).target, some c⟩
  | none => ∃ a, th.attempts.getLast? = some a ∧ s.lastError p = some (describe env a) ∧
      ∀ c, a.ctx = some c → th.begun ≤ c

/-- A thread in a command, or after one. -/
def Pending (env : Env) (s : St) (th : Thread) : Prop :=
  match th.lib.pc with
  | .cmdSend p r => r.attempt ≠ 0 → ∃ c, (s.pool.sock p).conn = some c ∧ th.begun ≤ c
  | .cmdWait p c r => (s.pool.sock p).conn = some c ∧
      th.attempts.getLast? = some ⟨(s.pool.world.ctx c).target, some c⟩ ∧
      (r.attempt ≠ 0 → th.begun ≤ c)
  | .cmdReturn p reply => Backed env s th p reply
  | .idle => ∀ p reply, th.lib.ret = .reply p reply → p ∈ th.lib.held ∧ Backed env s th p reply
  | _ => True

/-- A report of a call that is over. -/
structure Told (env : Env) (s : St) (k : Report) : Prop where
  replied : ∀ c a, k.reply = some (c, a) → c < s.pool.world.nctx ∧
    k.attempts.getLast? = some ⟨(s.pool.world.ctx c).target, some c⟩ ∧
    k.info = some ⟨0, [], (s.pool.world.ctx c).target.host, (s.pool.world.ctx c).target.port⟩
  failed : k.reply = none → k.socket ≠ none → ∃ a, k.attempts.getLast? = some a ∧
    k.info = some (describe env a).info ∧ ∀ c, a.ctx = some c → k.begun ≤ c
  unserved : k.socket = none →
    k.reply = none ∧ k.info = some (setErrorText (.ofString "No available connection"))

/-- What holds of a thread. -/
structure Telling (env : Env) (s : St) (th : Thread) : Prop where
  begun : th.begun ≤ s.pool.world.nctx
  pending : Pending env s th
  told : ∀ k ∈ th.reports, Told env s k

/-- Contexts keep their endpoints. -/
theorem Told.opens {env : Env} {s s' : St} {k : Report} (h : Told env s k)
    (ho : Opens s.pool s'.pool) : Told env s' k := by
  refine ⟨fun c a hr => ?_, h.failed, h.unserved⟩
  obtain ⟨hc, hlast, hinfo⟩ := h.replied c a hr
  have hle := ho.nctx_le
  rw [(ho.old c hc).2]
  exact ⟨by omega, hlast, hinfo⟩

section Others

variable {env : Env} {s s' : St} {th : Thread}

theorem Backed.congr {p : ℕ} {reply : Option CtxReply} (h : Backed env s th p reply)
    (hn : Named s.pool) (ho : Opens s.pool s'.pool)
    (hconn : (s'.pool.sock p).conn = (s.pool.sock p).conn)
    (herr : s'.lastError p = s.lastError p) : Backed env s' th p reply := by
  cases reply with
  | none =>
    obtain ⟨a, hlast, hrec, hnew⟩ := h
    exact ⟨a, hlast, herr.trans hrec, hnew⟩
  | some x =>
    obtain ⟨hc, hlast⟩ := h
    refine ⟨hconn.trans hc, ?_⟩
    rw [(ho.old x.1 (hn.conn p x.1 hc)).2]
    exact hlast

/-- A step that leaves the thread's sockets and their records alone. -/
theorem Telling.congr (h : Telling env s th) (hn : Named s.pool) (ho : Opens s.pool s'.pool)
    (ht : th.lib.TargetHeld)
    (hsame : ∀ p ∈ th.lib.held, (s'.pool.sock p).conn = (s.pool.sock p).conn ∧
      s'.lastError p = s.lastError p) : Telling env s' th := by
  have htarget : ∀ p, th.lib.pc.target = some p →
      (s'.pool.sock p).conn = (s.pool.sock p).conn ∧ s'.lastError p = s.lastError p :=
    fun p hp => hsame p (ht p hp)
  refine ⟨h.begun.trans ho.nctx_le, ?_, fun k hk => (h.told k hk).opens ho⟩
  have hpend := h.pending
  unfold Pending at hpend ⊢
  cases hpc : th.lib.pc with
  | cmdSend p r =>
    simp only [hpc] at hpend ⊢
    rw [(htarget p (by rw [hpc]; rfl)).1]
    exact hpend
  | cmdWait p c r =>
    simp only [hpc] at hpend ⊢
    rw [(htarget p (by rw [hpc]; rfl)).1, (ho.old c (hn.conn p c hpend.1)).2]
    exact hpend
  | cmdReturn p reply =>
    simp only [hpc] at hpend ⊢
    have hs := htarget p (by rw [hpc]; rfl)
    exact hpend.congr hn ho hs.1 hs.2
  | idle =>
    simp only [hpc] at hpend ⊢
    intro p reply hret
    obtain ⟨hheld, hb⟩ := hpend p reply hret
    exact ⟨hheld, hb.congr hn ho (hsame p hheld).1 (hsame p hheld).2⟩
  | _ => trivial

end Others

/-! ## The thread's own steps -/

section Own

variable {env : Env} {t : ℕ} {io : Bool} {s s' : St} {l' : Local} {th : Thread}

theorem attemptsOf_of_trace {s s' : Pool.St} {new : List Event}
    (h : s'.world.trace = s.world.trace ++ new) :
    attemptsOf s s' = new.filterMap (attemptOf s) := by
  rw [attemptsOf, h, List.drop_left]

/-- The thread after its step. -/
def stepped (th : Thread) (l' : Local) (s s' : St) : Thread :=
  { th with lib := l', attempts := th.attempts ++ attemptsOf s.pool s'.pool }

theorem attemptsOf_idle {s s' : Pool.St} {new : List Event}
    (htr : s'.world.trace = s.world.trace ++ new) (hnew : ∀ e ∈ new, Idle e) :
    attemptsOf s s' = [] := by
  rw [attemptsOf_of_trace htr]
  exact List.filterMap_eq_nil_iff.mpr fun e he => hnew e he s

/-- A command is an attempt on the endpoint of its context. -/
theorem attemptsOf_command {s s' : Pool.St} {c : ℕ} {r : Request} {rest : List Event}
    (hn : Named s) (ho : Opens s s') (hc : c < s.world.nctx)
    (htr : s'.world.trace = s.world.trace ++ .command (some c) r :: rest)
    (hrest : ∀ e ∈ rest, Idle e) : attemptsOf s s' = [⟨(s'.world.ctx c).target, some c⟩] := by
  rw [attemptsOf_of_trace htr, (ho.old c hc).2, hn.target c hc, List.filterMap_cons,
    List.filterMap_eq_nil_iff.mpr fun e he => hrest e he s]
  simp [attemptOf]

theorem Pending.of_target {s : St} (hidle : th.lib.pc ≠ .idle) (ht : th.lib.pc.target = none) :
    Pending env s th := by
  unfold Pending
  cases hpc : th.lib.pc with
  | idle => exact absurd hpc hidle
  | cmdSend p r | cmdWait p c r | cmdReturn p reply => simp [hpc, Pc.target] at ht
  | _ => trivial

/-- The command has failed on `c`, the context of its socket: after the first attempt
    the socket is to be reconnected, after the second the error of `c` is saved. -/
theorem Pending.noReply {p c : ℕ} {r : Request} (hpc : th.lib.pc = onNoReply p (some c) r)
    (hs : s' = keepError env th.lib { s with pool := s'.pool })
    (hc : (s'.pool.sock p).conn = some c) (herr : (s'.pool.world.ctx c).err = true)
    (hlast : th.attempts.getLast? = some ⟨(s'.pool.world.ctx c).target, some c⟩)
    (hbegun : r.attempt ≠ 0 → th.begun ≤ c) : Pending env s' th := by
  unfold Pending
  by_cases h0 : r.attempt = 0
  · rw [hpc, onNoReply, if_pos h0]
    trivial
  · have hret : th.lib.pc = .cmdReturn p none := by rw [hpc, onNoReply, if_neg h0]
    rw [hret]
    refine ⟨_, hlast, ?_, fun x hx => ?_⟩
    · rw [hs]
      simp [keepError, hret, hc, saveLastError, herr, describe]
    · cases hx
      exact hbegun h0

/-- A retry is sent on a context that this call has opened. -/
theorem Pending.begun_le {p c : ℕ} {r : Request} (h : Pending env s th)
    (hpc : th.lib.pc = .cmdSend p r) (hc : (s.pool.sock p).conn = some c) (h0 : r.attempt ≠ 0) :
    th.begun ≤ c := by
  unfold Pending at h
  simp only [hpc] at h
  obtain ⟨c', hc', hle⟩ := h h0
  rw [hc] at hc'
  cases hc'
  exact hle

theorem Pending.waiting {p c : ℕ} {r : Request} (h : Pending env s th)
    (hpc : th.lib.pc = .cmdWait p c r) : (s.pool.sock p).conn = some c ∧
      th.attempts.getLast? = some ⟨(s.pool.world.ctx c).target, some c⟩ ∧
      (r.attempt ≠ 0 → th.begun ≤ c) := by
  unfold Pending at h
  simpa only [hpc] using h

/-- A step without an attempt. -/
theorem stepped_attempts {new : List Event}
    (htr : s'.pool.world.trace = s.pool.world.trace ++ new) (hnew : ∀ e ∈ new, Idle e) :
    (stepped th l' s s').attempts = th.attempts := by
  rw [stepped, attemptsOf_idle htr hnew, List.append_nil]

/-- A step that sends a command. -/
theorem stepped_last {p c : ℕ} {r : Request} {rest : List Event} (hn : Named s.pool)
    (ho : Opens s.pool s'.pool) (hc : (s.pool.sock p).conn = some c)
    (htr : s'.pool.world.trace = s.pool.world.trace ++ .command (some c) r :: rest)
    (hrest : ∀ e ∈ rest, Idle e) :
    (stepped th l' s s').attempts.getLast? = some ⟨(s'.pool.world.ctx c).target, some c⟩ := by
  rw [stepped, attemptsOf_command hn ho (hn.conn p c hc) htr hrest]
  exact List.getLast?_concat

/-- The reconnect has failed. -/
theorem stepped_serverDown {p : ℕ} {r : Request} (hs : localStep env t io s th.lib = some (s', l'))
    (hpc : th.lib.pc = .cmdConnect p r) (hl : l'.pc = .cmdReturn p none)
    (hfail : (Pool.connectSingleSocket env.toEnv p s.pool).2 = false) (h : Telling env s th) :
    Pending env s' (stepped th l' s s') := by
  have hfail' : (connectSingleSocket env p s).2 = false := by
    rw [← hfail, ← connectSingleSocket_pool]
    rfl
  obtain ⟨ep, c, hf⟩ := connectSingleSocket_failed env p s hfail'
  rw [← localStep_connect hs hpc] at hf
  have hlast : (stepped th l' s s').attempts.getLast? = some ⟨s.pool.config.endpoint ep, c⟩ := by
    show (th.attempts ++ attemptsOf s.pool s'.pool).getLast? = _
    rw [List.getLast?_append, hf.last]
    rfl
  unfold Pending
  rw [show (stepped th l' s s').lib.pc = .cmdReturn p none from hl]
  exact ⟨_, hlast, hf.record, fun x hx => h.begun.trans (hf.new x hx)⟩

theorem stepped_pending (hs : localStep env t io s th.lib = some (s', l')) (hn : Named s.pool)
    (ht : th.lib.TargetHeld) (h : Telling env s th) : Pending env s' (stepped th l' s s') := by
  have hstep := localStep_erase hs
  have ho : Opens s.pool s'.pool := hstep.opens
  generalize hpool : s'.pool = pool at hstep
  cases hstep with
  | startEmpty _ _ | start _ _ | lock _ _ | found _ _ | skip _ _ | lastUsed _ | free _ | clear _ =>
    exact trivial
  | busy _ _ => exact .of_target (getNext_ne_idle _ _ _) (getNext_target _ _ _)
  | skipped _ => exact .of_target (getNext_ne_idle _ _ _) (getNext_target _ _ _)
  | getReturn _ | released _ => intro p reply hret; cases hret
  | @send p c r hpc hc herr =>
    have htr : s'.pool.world.trace = s.pool.world.trace ++ [.command (some c) r] := by
      rw [hpool]; simp
    exact ⟨by rw [hpool]; exact hc, stepped_last hn ho hc htr (by simp), h.pending.begun_le hpc hc⟩
  | @sendFailed p c r hpc hc =>
    have htr : s'.pool.world.trace = s.pool.world.trace ++ [.command (some c) r, .noReply r] := by
      rw [hpool]; simp [World.setErr]
    exact .noReply rfl (localStep_command hs (.inl hpc)) (by rw [hpool]; exact hc)
      (by rw [hpool]; simp [World.setErr]) (stepped_last hn ho hc htr (by simp [Idle, attemptOf]))
      (h.pending.begun_le hpc hc)
  | @sendNull p r hpc hc =>
    by_cases h0 : r.attempt = 0
    · show Pending env s' (stepped th { th.lib with pc := onNoReply p none r } s s')
      rw [onNoReply, if_pos h0]
      trivial
    · -- a retry has a context
      have hpend := h.pending
      unfold Pending at hpend
      simp only [hpc] at hpend
      obtain ⟨c, hc', -⟩ := hpend h0
      rw [hc] at hc'
      cases hc'
  | @receive p c r a rest hpc hin =>
    obtain ⟨hc, hlast, -⟩ := h.pending.waiting hpc
    have htr : s'.pool.world.trace = s.pool.world.trace ++ [] := by rw [hpool]; simp
    refine ⟨by rw [hpool]; exact hc, ?_⟩
    rw [stepped_attempts htr (by simp), (ho.old c (hn.conn p c hc)).2]
    exact hlast
  | @timeout p c r hpc =>
    obtain ⟨hc, hlast, hle⟩ := h.pending.waiting hpc
    have htr : s'.pool.world.trace = s.pool.world.trace ++ [.noReply r] := by
      rw [hpool]; simp [World.setErr]
    refine .noReply rfl (localStep_command hs (.inr ⟨c, hpc⟩)) (by rw [hpool]; exact hc)
      (by rw [hpool]; simp [World.setErr]) ?_ hle
    rw [stepped_attempts htr (by simp [Idle, attemptOf]), (ho.old c (hn.conn p c hc)).2]
    exact hlast
  | @reconnected p r hpc hok =>
    intro _
    rcases (connectSingleSocket_spec env.toEnv p s.pool).conn with ⟨-, -, c, hc, hle, -⟩ | ⟨hf, -, -⟩
    · exact ⟨c, by rw [hpool]; exact hc, h.begun.trans hle⟩
    · rw [hok] at hf; cases hf
  | @serverDown p r hpc hfail => exact stepped_serverDown hs hpc rfl hfail h
  | @cmdReturn p reply hpc =>
    have hpend := h.pending
    unfold Pending at hpend
    simp only [hpc] at hpend
    have htr : s'.pool.world.trace =
        s.pool.world.trace ++ [.returned t th.lib.calls reply] := by rw [hpool]; rfl
    have hatt : (stepped th (th.lib.returned p reply) s s').attempts = th.attempts :=
      stepped_attempts htr (by simp [Idle, attemptOf])
    have hrec := localStep_other hs (by simp [hpc]) (by simp [hpc])
    rintro q reply' ⟨⟩
    refine ⟨ht p (by rw [hpc]; rfl), ?_⟩
    have hb : Backed env s' th p reply :=
      hpend.congr hn ho (by rw [hpool]; rfl) (by rw [hrec])
    cases reply with
    | none => rw [Backed, hatt]; exact hb
    | some x => rw [Backed, hatt]; exact hb

theorem Telling.stepped (hs : localStep env t io s th.lib = some (s', l')) (hn : Named s.pool)
    (ht : th.lib.TargetHeld) (h : Telling env s th) : Telling env s' (stepped th l' s s') := by
  have ho : Opens s.pool s'.pool := (localStep_erase hs).opens
  exact ⟨h.begun.trans ho.nctx_le, stepped_pending hs hn ht h, fun k hk => (h.told k hk).opens ho⟩

/-- The report of a call that is about to release its socket. -/
theorem Telling.report (hn : Named s.pool) (h : Telling env s th) (hidle : th.lib.pc = .idle) :
    ∀ k ∈ (report s th).toList, Told env s k := by
  have hpend := h.pending
  unfold Pending at hpend
  simp only [hidle] at hpend
  unfold Lazy.report
  intro k hk
  split at hk
  · rw [Option.toList_some, List.mem_singleton] at hk
    subst hk
    exact ⟨by simp, by simp, fun _ => ⟨rfl, rfl⟩⟩
  · next p x hret =>
    rw [Option.toList_some, List.mem_singleton] at hk
    subst hk
    obtain ⟨-, hc, hlast⟩ := hpend p _ hret
    refine ⟨fun c a hr => ?_, by simp, by simp⟩
    cases hr
    exact ⟨hn.conn p c hc, hlast, by simp [setTarget, hc]⟩
  · next p hret =>
    rw [Option.toList_some, List.mem_singleton] at hk
    subst hk
    obtain ⟨-, a, hlast, hrec, hnew⟩ := hpend p none hret
    exact ⟨by simp, fun _ _ => ⟨a, hlast, by simp [setError, hrec], hnew⟩, by simp⟩
  · cases hk

theorem Telling.entered {pool : Pool.St} {api : Api} (hn : Named s.pool)
    (hidle : th.lib.pc = .idle) (hc : CallStep t s.pool th.lib api pool l')
    (h : Telling env s th) : Telling env { s with pool := pool } (th.entered s l' api) := by
  have ho : Opens s.pool pool := hc.opens
  have htold : ∀ k ∈ th.reports, Told env { s with pool := pool } k :=
    fun k hk => (h.told k hk).opens ho
  have hreport : ∀ k ∈ th.reports ++ (Lazy.report s th).toList, Told env { s with pool := pool } k := by
    intro k hk
    rcases List.mem_append.mp hk with hk | hk
    · exact htold k hk
    · exact (h.report hn hidle k hk).opens ho
  cases hc with
  | get => exact ⟨ho.nctx_le, trivial, htold⟩
  | vcommand _ => exact ⟨h.begun, fun h0 => absurd rfl h0, htold⟩
  | releaseNull =>
    refine ⟨h.begun, ?_, hreport⟩
    simp only [Pending, Thread.entered, hidle]
    rintro p reply ⟨⟩
  | release _ => exact ⟨h.begun, trivial, hreport⟩

end Own

/-! ## The invariant -/

/-- Every thread can report what it should, and has. -/
structure Honest (env : Env) (s : Sys) : Prop where
  named : Named s.st.pool
  telling : ∀ t, Telling env s.st (s.thr t)

theorem Honest.sysStep {env : Env} {s s' : Sys} (hx : Exclusive s.erase) (hh : Honest env s)
    (h : SysStep env s s') : Honest env s' := by
  have htarget : ∀ t, (s.thr t).lib.TargetHeld := hx.target
  -- a socket held by one thread is not locked by another one
  have hunlocked : ∀ {t u : ℕ}, u ≠ t → ∀ p ∈ (s.thr u).lib.held, p ∉ (s.thr t).lib.locks :=
    fun hut p hp hl => hut (hx.agree.unique (Local.held_subset hp) hl)
  cases h with
  | @call t api pool l hidle hallow hc =>
    have hstep : ThreadStep env.toEnv t s.st.pool (s.thr t).lib pool l := Or.inl ⟨hidle, api, hc⟩
    refine ⟨hc.opens.named hh.named, fun u => ?_⟩
    by_cases hu : u = t
    · subst hu
      rw [Sys.put_thr_self]
      exact (hh.telling u).entered hh.named hidle hc
    · rw [Sys.put_thr_of_ne s _ _ hu]
      refine (hh.telling u).congr hh.named hc.opens (htarget u) fun p hp => ?_
      exact ⟨(hstep.untouched (htarget t) (hunlocked hu p hp)).1, rfl⟩
  | @step t io st l hs =>
    have hstep := localStep_erase hs
    refine ⟨hstep.opens.named hh.named, fun u => ?_⟩
    by_cases hu : u = t
    · subst hu
      rw [Sys.put_thr_self]
      exact (hh.telling u).stepped hs hh.named (htarget u)
    · rw [Sys.put_thr_of_ne s _ _ hu]
      refine (hh.telling u).congr hh.named hstep.opens (htarget u) fun p hp => ?_
      have hl := hunlocked hu p hp
      exact ⟨(ThreadStep.untouched (Or.inr hstep) (htarget t) hl).1,
        localStep_lastError hs (htarget t) hl⟩
  | serve c =>
    have ho := serve_opens c s.st.pool
    exact ⟨ho.named hh.named, fun t => (hh.telling t).congr hh.named ho (htarget t)
      fun _ _ => ⟨rfl, rfl⟩⟩
  | drop c =>
    have ho := drop_opens c s.st.pool
    exact ⟨ho.named hh.named, fun t => (hh.telling t).congr hh.named ho (htarget t)
      fun _ _ => ⟨rfl, rfl⟩⟩
  | lose c =>
    have ho := lose_opens c s.st.pool
    exact ⟨ho.named hh.named, fun t => (hh.telling t).congr hh.named ho (htarget t)
      fun _ _ => ⟨rfl, rfl⟩⟩

theorem honest_invariant (env : Env) : (machine env).Invariant (Honest env) := by
  refine Lts.invariant_of_inductive_with (exclusive_invariant env) (fun s hs _ => ?_)
    fun s a s' hx _ ih h => ih.sysStep hx (.of_eq h)
  obtain ⟨⟨config, hc⟩, hthr⟩ := hs
  obtain ⟨c, -, hcr, hworld⟩ := redisPoolCreate_created hc
  refine ⟨⟨fun p x hx => ?_, fun x hx => ?_⟩, fun t => ?_⟩
  · rw [(hcr.free p).2.2] at hx
    cases hx
  · rw [hworld] at hx
    exact absurd hx (Nat.not_lt_zero x)
  · rw [hthr t]
    refine ⟨Nat.zero_le _, ?_, by simp [Thread.init]⟩
    rintro p reply ⟨⟩

/-! ## Freshness -/

/-- What a report must say. -/
structure Fresh (env : Env) (s : St) (k : Report) (info : RedisCommandInfo) : Prop where
  replied : ∀ c a, k.reply = some (c, a) →
    k.attempts.getLast? = some ⟨(s.pool.world.ctx c).target, some c⟩ ∧
      info.err = 0 ∧ info.errstr = [] ∧ info.host = (s.pool.world.ctx c).target.host ∧
      info.port = (s.pool.world.ctx c).target.port
  failed : k.reply = none → k.socket ≠ none → ∃ a, k.attempts.getLast? = some a ∧
    info = (describe env a).info ∧ info.err ≠ 0 ∧ ∀ c, a.ctx = some c → k.begun ≤ c
  unserved : k.socket = none →
    k.reply = none ∧ info = setErrorText (.ofString "No available connection")
  status : k.reply = none →
    reply2status (some ⟨none, info⟩) ≠ Status.of "NO_ERR but reply is null?!"

theorem describe_err_ne_zero {env : Env} (herr : ∀ c, env.err c ≠ 0) (a : Attempt) :
    (describe env a).err ≠ 0 := by
  unfold describe
  split
  · exact herr _
  · decide

theorem Told.fresh {env : Env} {s : St} {k : Report} (herr : ∀ c, env.err c ≠ 0)
    (h : Told env s k) : ∃ info, k.info = some info ∧ Fresh env s k info := by
  cases hreply : k.reply with
  | some x =>
    obtain ⟨-, hlast, hinfo⟩ := h.replied x.1 x.2 hreply
    refine ⟨_, hinfo, ⟨fun c a hr => ?_, by simp [hreply], fun hs => ?_, by simp [hreply]⟩⟩
    · rw [hreply] at hr
      cases hr
      exact ⟨hlast, rfl, rfl, rfl, rfl⟩
    · have hnone := (h.unserved hs).1
      rw [hreply] at hnone
      cases hnone
  | none =>
    cases hsocket : k.socket with
    | none =>
      obtain ⟨-, hinfo⟩ := h.unserved hsocket
      refine ⟨_, hinfo, ⟨by simp [hreply], fun _ hs => absurd hsocket hs,
        fun _ => ⟨hreply, rfl⟩, fun _ => errorStatus_ne_noErr (by decide)⟩⟩
    | some p =>
      obtain ⟨a, hlast, hinfo, hnew⟩ := h.failed hreply (by simp [hsocket])
      have hne := describe_err_ne_zero herr a
      exact ⟨_, hinfo, ⟨by simp [hreply], fun _ _ => ⟨a, hlast, rfl, hne, hnew⟩, by simp [hsocket],
        fun _ => errorStatus_ne_noErr hne⟩⟩

/-- **Error reports are fresh and non-zero.** No field of a report is read from memory
    that nothing has written. With a reply `err` is 0 and the target is that of the
    context that the reply came from. Without one the report describes the last
    attempt of this call, whose context, if there was memory for one, this call has
    opened, or that the pool had no socket; `err` is not 0, and so the status is not
    that of a reply that is NULL without an error. -/
theorem reports_fresh (env : Env) (herr : ∀ c, env.err c ≠ 0) (s : Sys)
    (hs : (machine env).Reachable s) (t : ℕ) (k : Report) (hk : k ∈ (s.thr t).reports) :
    ∃ info, k.info = some info ∧ Fresh env s.st k info :=
  ((honest_invariant env s hs).telling t |>.told k hk).fresh herr

/-- Only the connects `0` and `3` are accepted. -/
def Env.refusing : Env :=
  { Env.good with connect := fun i => if i = 0 ∨ i = 3 then .ok else .error }

/-- A call whose context `c` breaks and whose reconnect is refused. -/
def callRefused (c : ℕ) : List Action :=
  [.call 0 .get, .step 0 true, .step 0 true, .step 0 true, .step 0 true, .step 0 true,
    .call 0 (.vcommand 0 (.incr 7)), .step 0 true, .drop c, .step 0 false, .step 0 true,
    .step 0 true, .step 0 true, .call 0 (.release (some 0)), .step 0 true, .step 0 true]

/-- The report of the first call. -/
theorem reports_fresh_refused : ∃ s, (machine .refusing).Reachable s ∧
    ∃ k ∈ (s.thr 0).reports, k.reply = none ∧ ∃ info, k.info = some info ∧ info.err ≠ 0 := by
  obtain ⟨s, hs, hp⟩ := exists_of_replay .refusing (.pair 1 0) (callRefused 0)
    (fun s => ∃ k ∈ (s.thr 0).reports, k.reply = none ∧ k.socket = some 0) (by decide +kernel)
  obtain ⟨k, hk, hreply, hsocket⟩ := of_decide_eq_true hp
  obtain ⟨info, hinfo, hfresh⟩ := reports_fresh .refusing (fun c => by
    show (1 : ℤ) ≠ 0; decide) s hs 0 k hk
  obtain ⟨a, -, -, hne, -⟩ := hfresh.failed hreply (by simp [hsocket])
  exact ⟨s, hs, k, hk, hreply, info, hinfo, hne⟩

/-! ## Hosts -/

/-- The endpoint that the call has contacted last. Without memory for a context none
    is contacted. -/
def Report.contacted (k : Report) : Option RedisEndpoint :=
  (k.attempts.filter fun a => a.ctx.isSome).getLast?.map Attempt.endpoint

/-- There is no context to report of: the pool had no socket, or there was no memory
    for the last context. -/
def Report.Marked (k : Report) : Prop :=
  k.socket = none ∨ ∃ ep, k.attempts.getLast? = some ⟨ep, none⟩

/-- `info.target.host` is the host of the endpoint. -/
def Report.Names (k : Report) (ep : RedisEndpoint) : Prop :=
  k.info.map RedisCommandInfo.host = some ep.host

/-- The endpoint is one of the pool's. -/
def Attempt.Configured (c : PoolConfig) (a : Attempt) : Prop := ∃ i, a.endpoint = c.endpoint i

/-- All that a thread has tried, in this call and in those before. -/
structure Thread.Configured (c : PoolConfig) (th : Thread) : Prop where
  attempts : ∀ a ∈ th.attempts, a.Configured c
  reports : ∀ k ∈ th.reports, ∀ a ∈ k.attempts, a.Configured c

theorem attemptsOf_configured {s s' : Pool.St} : ∀ a ∈ attemptsOf s s', a.Configured s.config := by
  intro a ha
  obtain ⟨e, -, he⟩ := List.mem_filterMap.mp ha
  unfold attemptOf at he
  split at he
  · cases he; exact ⟨_, rfl⟩
  · cases he; exact ⟨_, rfl⟩
  · cases he

theorem report_attempts {s : St} {th : Thread} {k : Report} (h : report s th = some k) :
    k.attempts = th.attempts := by
  unfold report at h
  split at h <;> cases h <;> rfl

theorem Thread.Configured.stepped {c : PoolConfig} {th : Thread} {l : Local} {s s' : St}
    (h : th.Configured c) (hc : s.pool.config = c) : (stepped th l s s').Configured c := by
  refine ⟨fun a ha => ?_, h.reports⟩
  rcases List.mem_append.mp ha with ha | ha
  · exact h.attempts a ha
  · exact hc ▸ attemptsOf_configured a ha

theorem Thread.Configured.entered {c : PoolConfig} {th : Thread} {l : Local} {s : St}
    (h : th.Configured c) (api : Api) : (th.entered s l api).Configured c := by
  cases api with
  | get => exact ⟨by simp [Thread.entered], h.reports⟩
  | vcommand p cmd => exact ⟨h.attempts, h.reports⟩
  | release p =>
    refine ⟨h.attempts, fun k hk => ?_⟩
    rcases List.mem_append.mp hk with hk | hk
    · exact h.reports k hk
    · rw [report_attempts (Option.mem_toList.mp hk)]
      exact h.attempts

theorem configured_put {s : Sys} {t : ℕ} {st : St} {th : Thread}
    (hc : st.pool.config = s.st.pool.config)
    (h : ∀ u, (s.thr u).Configured s.st.pool.config) (hth : th.Configured s.st.pool.config) (u : ℕ) :
    ((s.put t st th).thr u).Configured (s.put t st th).st.pool.config := by
  show ((s.put t st th).thr u).Configured st.pool.config
  rw [hc]
  by_cases hu : u = t
  · subst hu
    rw [Sys.put_thr_self]
    exact hth
  · rw [Sys.put_thr_of_ne s st th hu]
    exact h u

theorem configured_invariant (env : Env) :
    (machine env).Invariant fun s => ∀ t, (s.thr t).Configured s.st.pool.config := by
  refine Lts.invariant_of_inductive (fun s hs t => ?_) fun s a s' ih h => ?_
  · rw [hs.2 t]
    exact ⟨by simp [Thread.init], by simp [Thread.init]⟩
  · cases SysStep.of_eq h with
    | @call t api pool l hidle hallow hc =>
      exact configured_put hc.opens.config ih ((ih t).entered api)
    | @step t io st l hs =>
      exact configured_put (localStep_erase hs).opens.config ih ((ih t).stepped rfl)
    | serve c | drop c | lose c => exact ih

theorem endpoint_host_le {c : PoolConfig} {n : ℕ} (h : ∀ e ∈ c.endpoints, e.host.length ≤ n)
    (i : ℕ) : (c.endpoint i).host.length ≤ n := by
  unfold PoolConfig.endpoint
  rw [List.getD_eq_getElem?_getD]
  cases hi : c.endpoints[i]? with
  | none => exact Nat.zero_le n
  | some e => exact h e (List.mem_of_getElem? hi)

theorem Report.contacted_of_last {k : Report} {ep : RedisEndpoint} {c : ℕ}
    (h : k.attempts.getLast? = some ⟨ep, some c⟩) : k.contacted = some ep := by
  obtain ⟨attempts, hsplit⟩ := List.getLast?_eq_some_iff.mp h
  simp [Report.contacted, hsplit]

theorem Report.contacted_configured {c : PoolConfig} {k : Report} {ep : RedisEndpoint}
    (h : ∀ a ∈ k.attempts, a.Configured c) (hep : k.contacted = some ep) : ∃ i, ep = c.endpoint i := by
  obtain ⟨a, ha, rfl⟩ := Option.map_eq_some_iff.mp hep
  exact h a (List.mem_filter.mp (List.mem_of_getLast? ha)).1

/-- What a report names, by where it comes from. -/
theorem Told.names_iff {env : Env} {s : St} {k : Report} {ep : RedisEndpoint} (htold : Told env s k)
    (hep : k.contacted = some ep) :
    k.Names ep ↔ k.reply ≠ none ∨ (¬ k.Marked ∧ ep.host.length ≤ 15) ∨
      (k.Marked ∧ ep.host = .ofString "N/A") := by
  unfold Report.Names
  cases hreply : k.reply with
  | some x =>
    obtain ⟨-, hlast, hinfo⟩ := htold.replied x.1 x.2 hreply
    rw [Report.contacted_of_last hlast] at hep
    cases hep
    simp [hinfo]
  | none =>
    by_cases hsocket : k.socket = none
    · have hmark : k.Marked := Or.inl hsocket
      simp [(htold.unserved hsocket).2, hmark, setErrorText, eq_comm]
    · obtain ⟨a, hlast, hinfo, -⟩ := htold.failed hreply hsocket
      obtain ⟨last, ctx⟩ := a
      cases ctx with
      | none =>
        have hmark : k.Marked := Or.inr ⟨last, hlast⟩
        simp [hinfo, hmark, describe, LastError.info, eq_comm]
      | some c =>
        have hmark : ¬ k.Marked := by
          rintro (h | ⟨ep', h⟩)
          · exact hsocket h
          · rw [hlast] at h
            cases h
        rw [Report.contacted_of_last hlast] at hep
        cases hep
        simp [hinfo, hmark, describe, LastError.info]

/-- **The host that is reported** is that of the endpoint contacted last exactly if
    there is a reply, or the host has at most 15 characters; a report that has no
    context names the host `N/A`. So in a pool whose hosts all have at most 15
    characters every other report names the right one, in every run. -/
theorem hosts_faithful_iff (env : Env) (s : Sys) (hs : (machine env).Reachable s) (t : ℕ)
    (k : Report) (hk : k ∈ (s.thr t).reports) (ep : RedisEndpoint) (hep : k.contacted = some ep) :
    (k.Names ep ↔ k.reply ≠ none ∨ (¬ k.Marked ∧ ep.host.length ≤ 15) ∨
      (k.Marked ∧ ep.host = .ofString "N/A")) ∧
    ((∀ e ∈ s.st.pool.config.endpoints, e.host.length ≤ 15) → ¬ k.Marked → k.Names ep) := by
  have hiff := ((honest_invariant env s hs).telling t |>.told k hk).names_iff hep
  refine ⟨hiff, fun hall hmark => hiff.mpr (Or.inr (Or.inl ⟨hmark, ?_⟩))⟩
  obtain ⟨i, rfl⟩ := Report.contacted_configured ((configured_invariant env s hs t).reports k hk) hep
  exact endpoint_host_le hall i

/-- The report of a reconnect that is refused by a host with a short name. -/
theorem hosts_faithful_short : ∃ s, (machine .refusing).Reachable s ∧
    ∃ k ∈ (s.thr 0).reports, k.reply = none ∧ k.Names ⟨[108], 6379⟩ := by
  obtain ⟨s, hs, hp⟩ := exists_of_replay .refusing (.single 1 5) (callRefused 0)
    (fun s => ∃ k ∈ (s.thr 0).reports, k.reply = none ∧ k.socket = some 0 ∧
      k.attempts.getLast? = some ⟨⟨[108], 6379⟩, some 1⟩) (by decide +kernel)
  obtain ⟨k, hk, hreply, hsocket, hlast⟩ := of_decide_eq_true hp
  refine ⟨s, hs, k, hk, hreply, (hosts_faithful_iff .refusing s hs 0 k hk _
    (Report.contacted_of_last hlast)).1.mpr (Or.inr (Or.inl ⟨?_, by decide⟩))⟩
  rintro (h | ⟨ep, h⟩)
  · rw [hsocket] at h
    cases h
  · rw [hlast] at h
    cases h

/-- Two endpoints whose hosts differ in the last character only. -/
def longHosts : RedisConfig :=
  { RedisConfig.single 1 0 with
    endpoints := some [⟨.ofString "cache-server-eu-1", 6379⟩, ⟨.ofString "cache-server-eu-2", 6379⟩]
    numEndpoints := 2
    numEndpoints_le := by rintro l ⟨⟩; rfl }

/-- Two calls that fail on the two endpoints report the same. -/
theorem hosts_confused : ∃ s, (machine .refusing).Reachable s ∧
    ∃ k ∈ (s.thr 0).reports, ∃ k' ∈ (s.thr 0).reports,
      k.contacted = some ⟨.ofString "cache-server-eu-1", 6379⟩ ∧
      k'.contacted = some ⟨.ofString "cache-server-eu-2", 6379⟩ ∧
      k.info = some ⟨1, [], .ofString "cache-server-eu", 6379⟩ ∧ k'.info = k.info ∧
      ¬ k.Names ⟨.ofString "cache-server-eu-1", 6379⟩ := by
  obtain ⟨s, hs, hp⟩ := exists_of_replay .refusing longHosts (callRefused 0 ++ callRefused 3)
    (fun s => ∃ k ∈ (s.thr 0).reports, ∃ k' ∈ (s.thr 0).reports,
      k.contacted = some ⟨.ofString "cache-server-eu-1", 6379⟩ ∧
      k'.contacted = some ⟨.ofString "cache-server-eu-2", 6379⟩ ∧
      k.info = some ⟨1, [], .ofString "cache-server-eu", 6379⟩ ∧ k'.info = k.info) (by decide +kernel)
  obtain ⟨k, hk, k', hk', hep, hep', hinfo, hsame⟩ := of_decide_eq_true hp
  refine ⟨s, hs, k, hk, k', hk', hep, hep', hinfo, hsame, ?_⟩
  rw [Report.Names, hinfo]
  decide

end Hiredispool.Lazy
