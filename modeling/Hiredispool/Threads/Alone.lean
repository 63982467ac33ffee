import Hiredispool.Pool.Command
import Hiredispool.Threads.Machine

/-!
# A call that runs alone

The functions of `Pool.Scan` and `Pool.Command` run a whole call at once. Each
of them is a run of the machine in which only the calling thread moves, with
the servers answering at once.

* `scan_steps`, `redisGetSocket_steps`: `redis_get_socket`.
* `attempt_steps`, `redisVcommand_steps`: `redis_vcommand`.
* `redisClientCommand_steps`: `RedisClient::redisvCommand`.
-/

namespace Hiredispool.Threads

open Hiredispool.Pool

variable {env : Env} {allow : Policy} {t : ℕ}

@[simp] theorem Sys.put_put (s : Sys) (t : ℕ) (r r' : St × Local) :
    (s.put t r).put t r' = s.put t r' := by
  simp [Sys.put]

@[simp] theorem Sys.outside_put (s : Sys) (t : ℕ) (r : St × Local) (f : World → World) :
    (s.outside f).put t r = s.put t r := rfl

theorem step_steps {s : Sys} {io : Bool} {r : St × Local}
    (h : localStep env t io s.st (s.thr t) = some r) : (machine env allow).Steps s (s.put t r) := by
  refine Lts.Steps.single (l := .step t io) ?_
  show (localStep env t io s.st (s.thr t)).map (s.put t) = _
  rw [h]; rfl

theorem call_steps {s : Sys} {api : Api} {r : St × Local} (hidle : (s.thr t).pc = .idle)
    (hallow : allow s.st (s.thr t) api = true) (h : startCall t s.st (s.thr t) api = some r) :
    (machine env allow).Steps s (s.put t r) := by
  refine Lts.Steps.single (l := .call t api) ?_
  show (if _ then _ else _) = _
  rw [if_pos ⟨hidle, hallow⟩, h]; rfl

/-- A first step, and the run after it. -/
theorem step_steps_trans {s s' : Sys} (t : ℕ) (io : Bool) (st : St) (l : Local)
    (h : localStep env t io s.st (s.thr t) = some (st, l))
    (h' : (machine env allow).Steps (s.put t (st, l)) s') : (machine env allow).Steps s s' :=
  (step_steps h).trans h'

/-- The start of a call, and the run after it. -/
theorem call_steps_trans {s s' : Sys} (t : ℕ) (api : Api) (st : St) (l : Local)
    (hidle : (s.thr t).pc = .idle) (hallow : allow s.st (s.thr t) api = true)
    (h : startCall t s.st (s.thr t) api = some (st, l))
    (h' : (machine env allow).Steps (s.put t (st, l)) s') : (machine env allow).Steps s s' :=
  (call_steps hidle hallow h).trans h'

/-! ## `redis_get_socket` -/

/-- By induction on the sockets left: a visit of a socket is one to three steps. -/
theorem scan_steps {start : ℕ} : ∀ (fuel cur : ℕ) (s : Sys) {st : St} {r : Option ℕ},
    (s.thr t).pc = .getTry start cur → scan env t start fuel cur s.st = some (st, r) →
    (machine env allow).Steps s (s.put t (st, { s.thr t with pc := .getReturn r })) := by
  intro fuel
  induction fuel with
  | zero => intro cur s st r _ h; cases h
  | succ fuel ih =>
    intro cur s st r hpc h
    -- the move along the list, from the state after the visit
    have move : ∀ (st₁ : St), (nextSocket start cur st₁ = none → (st₁, none) = (st, r)) →
        (∀ cur', nextSocket start cur st₁ = some cur' →
          scan env t start fuel cur' st₁ = some (st, r)) →
        (machine env allow).Steps (s.put t (st₁, { s.thr t with pc := getNext start cur st₁ }))
          (s.put t (st, { s.thr t with pc := .getReturn r })) := by
      intro st₁ hend hgo
      unfold getNext
      cases hn : nextSocket start cur st₁ with
      | none =>
        cases hend hn
        exact .refl _
      | some cur' =>
        have := ih cur' (s.put t (st₁, { s.thr t with pc := .getTry start cur' }))
          (by rw [Sys.put_thr_self]) (hgo cur' hn)
        simpa using this
    rw [scan] at h
    dsimp only at h
    rcases visit_cases env t cur s.st with ⟨u, hu, e⟩ | ⟨hm, hc⟩
    · rw [e] at h
      refine step_steps_trans t true (s.st.log (.trylock t cur false))
        { s.thr t with pc := getNext start cur (s.st.log (.trylock t cur false)) } ?_
        (move _ (fun hn => by simpa [hn] using h) fun cur' hn => by simpa [hn] using h)
      simp [localStep, hpc, tryLock, hu]
    · -- the first step locks the socket
      refine step_steps_trans t true (locked t cur s.st)
        { s.thr t with pc := .getLocked start cur } ?_ ?_
      · simp [localStep, hpc, tryLock, hm, locked]
      rcases hc with ⟨hc, e⟩ | ⟨hc, e⟩
      · rw [e] at h
        obtain ⟨rfl, rfl⟩ : setLastUsed cur (checkSocket env cur (locked t cur s.st)).1 = st ∧
            some cur = r := by simpa using h
        refine step_steps_trans t true (checkSocket env cur (locked t cur s.st)).1
          { s.thr t with pc := .getFound cur } (by simp [localStep, hc]) ?_
        refine step_steps_trans t true (setLastUsed cur (checkSocket env cur (locked t cur s.st)).1)
          { s.thr t with pc := .getReturn (some cur) } (by simp [localStep]) ?_
        simpa using Lts.Steps.refl _
      · rw [e] at h
        refine step_steps_trans t true (checkSocket env cur (locked t cur s.st)).1
          { s.thr t with pc := .getUnlock start cur } (by simp [localStep, hc]) ?_
        refine step_steps_trans t true (unlock t cur (checkSocket env cur (locked t cur s.st)).1)
          { s.thr t with
            pc := getNext start cur (unlock t cur (checkSocket env cur (locked t cur s.st)).1) }
          (by simp [localStep]) ?_
        have hmove := move (unlock t cur (checkSocket env cur (locked t cur s.st)).1)
          (fun hn => by simpa [hn] using h) fun cur' hn => by simpa [hn] using h
        simpa using hmove

/-- The thread after `redis_get_socket` has returned `r`. -/
def Local.got (l : Local) (r : Option ℕ) (callStart : ℕ) : Local :=
  { l with pc := .idle, held := r.toList ++ l.held, ret := .socket r, callStart := callStart }

theorem redisGetSocket_steps {s : Sys} {st : St} {r : Option ℕ} (hidle : (s.thr t).pc = .idle)
    (hallow : allow s.st (s.thr t) .get = true) (h : redisGetSocket env t s.st = some (st, r)) :
    (machine env allow).Steps s (s.put t (st, (s.thr t).got r s.st.world.trace.length)) := by
  refine (call_steps hidle hallow rfl).trans ?_
  unfold redisGetSocket at h
  dsimp only at h
  cases hstart : scanStart (s.st.log (.getCall t)) with
  | none =>
    rw [hstart] at h
    obtain ⟨rfl, rfl⟩ : (s.st.log (.getCall t)).log (.getReturn t none) = st ∧ none = r := by
      simpa using h
    refine step_steps_trans t true (s.st.log (.getCall t))
      { s.thr t with pc := .getReturn none, callStart := s.st.world.trace.length }
      (by simp [localStep, hstart]) ?_
    refine step_steps_trans t true ((s.st.log (.getCall t)).log (.getReturn t none))
      ((s.thr t).got none s.st.world.trace.length) (by simp [localStep, Local.got]) ?_
    simpa using Lts.Steps.refl _
  | some start =>
    rw [hstart] at h
    obtain ⟨⟨st', r'⟩, hscan, heq⟩ := Option.map_eq_some_iff.mp h
    obtain ⟨rfl, rfl⟩ : st'.log (.getReturn t r') = st ∧ r' = r := by simpa using heq
    refine step_steps_trans t true (s.st.log (.getCall t))
      { s.thr t with pc := .getTry start start, callStart := s.st.world.trace.length }
      (by simp [localStep, hstart]) ?_
    refine (scan_steps (s.st.log (.getCall t)).numSocks start _ (by rw [Sys.put_thr_self])
      (by exact hscan)).trans ?_
    refine step_steps_trans t true (st'.log (.getReturn t r'))
      ((s.thr t).got r' s.st.world.trace.length) (by simp [localStep, Local.got]) ?_
    simpa using Lts.Steps.refl _

/-! ## `redis_vcommand` -/

/-- Each `serve` answers one request, as long as there are any. -/
theorem serve_iterate (c : ℕ) : ∀ (n : ℕ) (w : World), n ≤ (w.ctx c).sent.length →
    (((World.serve c)^[n] w).ctx c).inbox.length = (w.ctx c).inbox.length + n := by
  intro n
  induction n with
  | zero => intro w _; rfl
  | succ n ih =>
    intro w hn
    rw [Function.iterate_succ_apply]
    rcases w.serve_cases c with ⟨h0, -⟩ | ⟨r, rest, hsent, e⟩
    · rw [h0] at hn; cases hn
    · have hlen : rest.length = (w.ctx c).sent.length - 1 := by rw [hsent]; rfl
      rw [ih _ (by rw [e]; simp; omega), e]
      simp; omega

theorem serve_steps (c : ℕ) : ∀ (n : ℕ) (s : Sys),
    (machine env allow).Steps s (s.outside ((World.serve c)^[n])) := by
  intro n
  induction n with
  | zero => intro s; exact .refl s
  | succ n ih =>
    intro s
    have h : (machine env allow).Steps s (s.outside (World.serve c)) :=
      .single (l := .serve c) rfl
    exact h.trans (ih _)

/-- What has been sent is sent on the context that was asked for. -/
theorem append_some {c' : Option ℕ} {r : Request} {ok : Bool} {w w' : World} {c : ℕ}
    (h : w.append c' r ok = (w', some c)) : c' = some c ∧ 0 < (w'.ctx c).sent.length := by
  unfold World.append at h
  cases c' with
  | none => cases h
  | some c' =>
    dsimp only at h
    split at h
    · cases h
    · obtain ⟨rfl, hc⟩ := Prod.mk.inj h
      obtain rfl := Option.some.inj hc
      exact ⟨rfl, by simp⟩

/-- There is something to read once a request has been served. -/
theorem await_serveAll {w : World} {c : ℕ} (h : 0 < (w.ctx c).sent.length) (r : Request)
    (broken : Bool) : ∃ x, (w.serveAll c).await c r broken = some x := by
  have hlen := serve_iterate c _ w le_rfl
  unfold World.await World.serveAll
  split
  · exact ⟨_, rfl⟩
  · split
    · rename_i hnil
      rw [hnil] at hlen
      simp only [List.length_nil] at hlen
      omega
    · exact ⟨_, rfl⟩

/-- Where a thread goes after `redisvCommand` on `p` has returned `reply`. -/
def afterAttempt (p : ℕ) (c : Option ℕ) (r : Request) (reply : Option CtxReply) : Pc :=
  match reply with
  | some a => .cmdReturn p (some a)
  | none => onNoReply p c r

/-- `redisvCommand`: the sending, the servers' answers, and the reading. -/
theorem attempt_steps {s : Sys} {p : ℕ} {r : Request} {st : St} {reply : Option CtxReply}
    (hpc : (s.thr t).pc = .cmdSend p r) (h : attempt env p r s.st = (st, reply)) :
    (machine env allow).Steps s
      (s.put t (st, { s.thr t with pc := afterAttempt p (s.st.sock p).conn r reply })) := by
  unfold attempt World.redisvCommand at h
  dsimp only at h
  split at h
  · -- nothing could be sent
    rename_i w happend
    obtain ⟨rfl, rfl⟩ := Prod.mk.inj h
    exact step_steps (by simp only [localStep, hpc]; rw [happend]; rfl)
  · rename_i w c happend
    obtain ⟨hconn, hpos⟩ := append_some happend
    rw [hconn] at h
    dsimp only at h
    generalize decide (env.command c s.st.world.commands = CommandResult.lost) = broken at h
    obtain ⟨⟨w', a⟩, hawait⟩ := await_serveAll hpos r broken
    rw [hawait] at h
    obtain ⟨rfl, rfl⟩ := Prod.mk.inj h
    refine step_steps_trans t _ { s.st with world := w } { s.thr t with pc := .cmdWait p c r }
      (by simp only [localStep, hpc]; rw [happend]) ?_
    refine (serve_steps c (w.ctx c).sent.length _).trans ?_
    refine step_steps_trans t (!broken) { s.st with world := w' }
      { s.thr t with pc := afterAttempt p (some c) r (a.map fun a => (c, a)) } ?_ ?_
    · have hw : (World.serve c)^[(w.ctx c).sent.length] w = w.serveAll c := rfl
      simp only [localStep, Sys.put_thr_self, Sys.outside, Sys.put_st, hw,
        Bool.not_not, hawait]
      cases a <;> rfl
    · rw [hconn]
      cases a <;> simpa using Lts.Steps.refl _

/-- `redis_vcommand` on `p`, `reply` being its result. -/
theorem redisVcommand_steps {s : Sys} {p : ℕ} {r : Request} {st : St} {reply : Option CtxReply}
    (hpc : (s.thr t).pc = .cmdSend p r) (hr : r.attempt = 0) (hcaller : r.caller = t)
    (hcall : r.call = (s.thr t).calls) (h : redisVcommand env p r s.st = (st, reply)) :
    (machine env allow).Steps s (s.put t (st, (s.thr t).returned p reply)) := by
  -- the last step: the call returns
  have ret : ∀ (st₁ : St) (reply : Option CtxReply),
      (machine env allow).Steps (s.put t (st₁, { s.thr t with pc := .cmdReturn p reply }))
        (s.put t (st₁.log (.returned r.caller r.call reply), (s.thr t).returned p reply)) := by
    intro st₁ reply
    refine step_steps_trans t true (st₁.log (.returned r.caller r.call reply))
      ((s.thr t).returned p reply) ?_ ?_
    · rw [hcaller, hcall]; simp [localStep, Local.returned]
    · simpa using Lts.Steps.refl _
  unfold redisVcommand at h
  dsimp only at h
  cases hfirst : attempt env p r s.st with
  | mk s₀ reply₀ =>
    have first : (machine env allow).Steps s _ := attempt_steps hpc hfirst
    rw [hfirst] at h
    cases reply₀ with
    | some a =>
      obtain ⟨rfl, rfl⟩ := Prod.mk.inj h
      exact first.trans (ret s₀ (some a))
    | none =>
      -- free the context, and reconnect
      have hwait : afterAttempt p (s.st.sock p).conn r none = .cmdFree p (s.st.sock p).conn r := by
        simp [afterAttempt, onNoReply, hr]
      rw [hwait] at first
      refine first.trans ?_
      dsimp only at h
      generalize hs₁ : { s₀ with world := s₀.world.redisFree (s.st.sock p).conn } = s₁ at h
      refine step_steps_trans t true s₁ { s.thr t with pc := .cmdConnect p r }
        (by simp [localStep, hs₁]) ?_
      cases hok : (connectSingleSocket env p s₁).2 with
      | false =>
        rw [hok] at h
        obtain ⟨rfl, rfl⟩ := Prod.mk.inj h
        refine step_steps_trans t true (connectSingleSocket env p s₁).1
          { s.thr t with pc := .cmdReturn p none } (by simp [localStep, hok]) ?_
        simpa using ret _ none
      | true =>
        rw [hok] at h
        refine step_steps_trans t true (connectSingleSocket env p s₁).1
          { s.thr t with pc := .cmdSend p r.retry } (by simp [localStep, hok]) ?_
        cases hretry : attempt env p r.retry (connectSingleSocket env p s₁).1 with
        | mk s₂ reply₂ =>
          rw [if_pos rfl, hretry] at h
          obtain ⟨rfl, rfl⟩ := Prod.mk.inj h
          refine (attempt_steps (r := r.retry) (by rw [Sys.put_thr_self]) hretry).trans ?_
          have hlast : ∀ c, afterAttempt p c r.retry reply₂ = .cmdReturn p reply₂ := by
            intro c
            cases reply₂ <;> simp [afterAttempt, onNoReply, Request.retry]
          rw [hlast]
          simpa using ret s₂ reply₂

/-! ## `RedisClient::redisvCommand` -/

/-- A whole call of `RedisClient::redisvCommand` by a thread that is not in the
    library. -/
theorem redisClientCommand_steps {s : Sys} {cmd : Command} {st : St} {reply : Option CtxReply}
    (hidle : (s.thr t).pc = .idle) (hret : (s.thr t).ret = .done)
    (h : redisClientCommand env ⟨t, (s.thr t).calls, 0, cmd⟩ s.st = some (st, reply)) :
    ∃ l, (machine env redisClient).Steps s (s.put t (st, l)) ∧ l.pc = .idle ∧ l.ret = .done := by
  obtain ⟨⟨st₁, socket⟩, hget, heq⟩ := Option.map_eq_some_iff.mp h
  have got : (machine env redisClient).Steps s _ :=
    redisGetSocket_steps hidle (by simp only [redisClient, hret]) hget
  set l₁ := (s.thr t).got socket s.st.world.trace.length with hl₁
  cases socket with
  | none =>
    obtain ⟨rfl, rfl⟩ := Prod.mk.inj heq
    refine ⟨{ l₁ with ret := .done }, got.trans ?_, rfl, rfl⟩
    refine call_steps_trans t (.release none) st₁ { l₁ with ret := .done } (by simp [l₁, Local.got])
      (by simp [l₁, Local.got, redisClient]) (by simp [startCall]) ?_
    simpa [redisReleaseSocket] using Lts.Steps.refl _
  | some p =>
    cases hcmd : redisVcommand env p ⟨t, (s.thr t).calls, 0, cmd⟩ st₁ with
    | mk st₂ reply₂ =>
      dsimp only at heq
      rw [hcmd] at heq
      obtain ⟨rfl, rfl⟩ := Prod.mk.inj heq
      set l₂ : Local := { l₁ with pc := .cmdSend p ⟨t, (s.thr t).calls, 0, cmd⟩ } with hl₂
      set l₃ := l₂.returned p reply₂ with hl₃
      set l₄ : Local := { l₃ with
        pc := .relClear p, held := l₃.held.erase p, failed := l₃.failed.filter (· ≠ p) } with hl₄
      have hheld : p ∈ l₁.held := by simp [l₁, Local.got]
      refine ⟨{ l₄ with pc := .idle, ret := .done }, got.trans ?_, rfl, rfl⟩
      -- the command
      refine call_steps_trans t (.vcommand p cmd) st₁ l₂ (by simp [l₁, Local.got])
        (by simp [l₁, Local.got, redisClient])
        (by simp [startCall, hl₂, l₁, Local.got]) ?_
      have run : (machine env redisClient).Steps (s.put t (st₁, l₂)) (s.put t (st₂, l₃)) := by
        have : (machine env redisClient).Steps _ _ :=
          redisVcommand_steps (s := s.put t (st₁, l₂)) (t := t) (p := p)
            (r := ⟨t, (s.thr t).calls, 0, cmd⟩) (by simp [hl₂]) rfl rfl
            (by simp [hl₂, l₁, Local.got]) hcmd
        simpa [hl₃] using this
      rw [Sys.put_put]
      refine run.trans ?_
      -- the destructor of `PooledSocket`
      have hheld₃ : p ∈ l₃.held := hheld
      refine call_steps_trans t (.release (some p)) st₂ l₄ (by simp [hl₃, Local.returned])
        (by simp [hl₃, Local.returned, redisClient])
        (by rw [Sys.put_thr_self]; exact if_pos hheld₃) ?_
      refine step_steps_trans t true (setInuse p 0 st₂) { l₄ with pc := .relUnlock p }
        (by simp [localStep, hl₄]) ?_
      refine step_steps_trans t true (unlock t p (setInuse p 0 st₂))
        { l₄ with pc := .idle, ret := .done } (by simp [localStep]) ?_
      simpa [redisReleaseSocket] using Lts.Steps.refl _

end Hiredispool.Threads
