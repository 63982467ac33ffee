import Hiredispool.Threads.Ownership

/-!
# Steps as the commands see them

For the commands, a step of a thread is the sending of a request, the reading
of an answer, a failure of one of the two, the replacement of the context, the
return, or something that neither sends nor reads (`Silent`). `CmdStep` says
so, and `ThreadStep.cmdStep` derives it once for the proofs about replies and
retries.

* `calls_invariant`: a call sends its request once, and once more on the
  context that replaced the freed one; requests carry their caller's name.
-/

namespace Hiredispool.Threads

open Hiredispool.Pool

/-! ## Steps without commands -/

/-- The events that have nothing to do with commands. -/
def Event.silent : Event → Bool
  | .command _ _ | .served _ _ | .noReply _ | .returned _ _ _ => false
  | _ => true

/-- From `s` to `s'` nothing was sent, answered or read; a socket kept its
    context, lost it or got a fresh one. -/
structure Silent (s s' : St) : Prop where
  trace : ∃ new, s'.world.trace = s.world.trace ++ new ∧ ∀ e ∈ new, Event.silent e = true
  nctx : s.world.nctx ≤ s'.world.nctx
  ctx : ∀ c, s'.world.ctx c = s.world.ctx c ∨
    s.world.nctx ≤ c ∧ (s'.world.ctx c).sent = [] ∧ (s'.world.ctx c).inbox = []
  conn : ∀ p, (s'.sock p).conn = (s.sock p).conn ∨ (s'.sock p).conn = none ∨
    ∃ c, (s'.sock p).conn = some c ∧ s.world.nctx ≤ c

theorem Silent.of_same {s s' : St} (hc : ∀ p, (s'.sock p).conn = (s.sock p).conn)
    (hn : s'.world.nctx = s.world.nctx) (hx : s'.world.ctx = s.world.ctx) {new : List Event}
    (htr : s'.world.trace = s.world.trace ++ new) (hnew : ∀ e ∈ new, Event.silent e = true) :
    Silent s s' :=
  ⟨⟨new, htr, hnew⟩, hn.ge, fun c => Or.inl (by rw [hx]), fun p => Or.inl (hc p)⟩

theorem Silent.refl (s : St) : Silent s s :=
  .of_same (fun _ => rfl) rfl rfl (List.append_nil _).symm nofun

theorem Silent.trans {s s' s'' : St} (h : Silent s s') (h' : Silent s' s'') : Silent s s'' where
  trace := by
    obtain ⟨new, htr, hnew⟩ := h.trace
    obtain ⟨new', htr', hnew'⟩ := h'.trace
    refine ⟨new ++ new', by rw [htr', htr, List.append_assoc], fun e he => ?_⟩
    exact (List.mem_append.mp he).elim (hnew e) (hnew' e)
  nctx := h.nctx.trans h'.nctx
  ctx c := by
    have hn := h.nctx
    rcases h'.ctx c with e' | ⟨hc, he⟩
    · rw [e']; exact h.ctx c
    · exact Or.inr ⟨by omega, he⟩
  conn p := by
    have hn := h.nctx
    rcases h'.conn p with e | e | ⟨c, e, hc⟩
    · rw [e]; exact h.conn p
    · exact Or.inr (Or.inl e)
    · exact Or.inr (Or.inr ⟨c, e, by omega⟩)

theorem Silent.of_log (s : St) {e : Event} (he : Event.silent e = true) : Silent s (s.log e) :=
  .of_same (fun _ => rfl) rfl rfl rfl fun e' he' => by rw [List.mem_singleton.mp he']; exact he

theorem Silent.of_setInuse (p v : ℕ) (s : St) : Silent s (setInuse p v s) :=
  .of_same (SameConns.of_setInuse p v s).conn rfl rfl (List.append_nil _).symm nofun

theorem Silent.of_connect {env : Env} {p : ℕ} {s : St} {r : St × Bool}
    (h : ConnectSpec env p s r) : Silent s r.1 where
  trace := by
    obtain ⟨new, hnew, htr⟩ := h.trace
    have hsilent : ∀ e ∈ new, Event.silent e = true := by
      intro e he
      have := hnew e he
      cases e <;> first | rfl | exact this.elim
    rcases htr with ⟨-, -, -, htr⟩ | ⟨-, -, -, htr⟩
    · exact ⟨new, htr, hsilent⟩
    · refine ⟨new ++ [.connectFailed p (env.clock s.world.clocks)],
        by rw [htr, List.append_assoc], fun e he => ?_⟩
      rcases List.mem_append.mp he with he | he
      · exact hsilent e he
      · rw [List.mem_singleton.mp he]; rfl
  nctx := h.nctx_le
  ctx c := by
    by_cases hc : c < s.world.nctx ∨ r.1.world.nctx ≤ c
    · exact Or.inl (h.old hc)
    · obtain ⟨h1, h2, -⟩ := h.fresh (c := c) (by omega) (by omega)
      exact Or.inr ⟨by omega, h1, h2⟩
  conn q := by
    by_cases hq : q = p
    · subst hq
      rcases h.conn with ⟨-, -, c, hc, hn, -⟩ | ⟨-, -, hn⟩
      · exact Or.inr (Or.inr ⟨c, hc, hn⟩)
      · exact Or.inr (Or.inl hn)
    · exact Or.inl (by rw [h.1.other q hq])

theorem Silent.of_beforeConnect (env : Env) (cur : ℕ) (s : St) :
    Silent s (beforeConnect env cur s) :=
  .of_same (sameConns_beforeConnect env cur s).conn rfl rfl rfl fun e he => by
    rw [List.mem_singleton.mp he]; rfl

theorem checkSocket_silent (env : Env) (cur : ℕ) (s : St) :
    Silent s (checkSocket env cur s).1 := by
  have hconnect := (Silent.of_beforeConnect env cur s).trans
    (.of_connect (connectSingleSocket_spec env cur (beforeConnect env cur s)))
  rcases checkSocket_cases env cur s with
    ⟨-, e⟩ | ⟨-, -, e⟩ | ⟨-, -, ⟨-, e⟩ | ⟨-, ⟨-, e⟩ | ⟨-, e⟩⟩⟩ <;> rw [e]
  · exact .refl s
  · exact .of_setInuse cur 1 s
  · have hearly : Silent s (tooEarly env cur s) :=
      .of_same (sameConns_tooEarly env cur s).conn rfl rfl (List.append_nil _).symm nofun
    exact (hearly.trans (.of_log _ rfl)).trans (.of_setInuse cur 0 _)
  · exact hconnect
  · exact (hconnect.trans (.of_log _ rfl)).trans (.of_setInuse cur 0 _)

theorem initSocket_silent (env : Env) (i : ℕ) (s : St) :
    Silent s (pushSocket i (initSocket env i s)) := by
  have hnew : Silent s (unconnected env i s) := by
    refine ⟨⟨[], (List.append_nil _).symm, nofun⟩, le_rfl, fun _ => Or.inl rfl, fun p => ?_⟩
    by_cases hp : p = i
    · exact Or.inr (Or.inl (by simp [unconnected, hp, newSocket]))
    · exact Or.inl (by simp [unconnected, hp])
  have hpush : ∀ s, Silent s (pushSocket i s) := fun s =>
    .of_same (pushSocket_sameConns i s).conn rfl rfl (List.append_nil _).symm nofun
  rcases initSocket_cases env i s with ⟨-, e⟩ | ⟨-, e⟩ <;> rw [e]
  · exact hnew.trans (hpush _)
  · have hb : Silent s (beforeInit env i s) := hnew.trans (.of_log _ rfl)
    exact (hb.trans (.of_connect (connectSingleSocket_spec env i _))).trans (hpush _)

theorem redisPoolCreate_silent {env : Env} {config : RedisConfig} {w : World} {s : St}
    (h : redisPoolCreate env config w = .ok s) : ∃ c, Silent (emptyPool c w) s :=
  redisPoolCreate_induction (P := fun _ s => ∃ c, Silent (emptyPool c w) s) h
    (fun c _ => ⟨c, .refl _⟩) fun i s ⟨c, ih⟩ => ⟨c, ih.trans (initSocket_silent env i s)⟩

/-! ## Steps by what they do to commands -/

/-- One step of thread `t`, as the commands see it. -/
inductive CmdStep (env : Env) (t : ℕ) (s : St) (l : Local) : St → Local → Prop
  | silent {s' : St} {l' : Local} : Silent s s' → l.pc.target = none → l'.pc.target = none →
      l'.calls = l.calls → CmdStep env t s l s' l'
  | enter {p : ℕ} {cmd : Command} : l.pc = .idle →
      CmdStep env t s l s { l with pc := .cmdSend p ⟨t, l.calls, 0, cmd⟩ }
  | send {p c : ℕ} {r : Request} : l.pc = .cmdSend p r → (s.sock p).conn = some c →
      (s.world.ctx c).err = false →
      CmdStep env t s l
        { s with world := (s.world.sending (some c) r).setCtx c fun x =>
            { x with sent := x.sent ++ [r] } }
        { l with pc := .cmdWait p c r }
  | sendFailed {p c : ℕ} {r : Request} : l.pc = .cmdSend p r → (s.sock p).conn = some c →
      CmdStep env t s l
        { s with world := ((s.world.sending (some c) r).setErr c).log (.noReply r) }
        { l with pc := onNoReply p (some c) r }
  | receive {p c : ℕ} {r : Request} {a : Reply} {rest : List Reply} : l.pc = .cmdWait p c r →
      (s.sock p).conn = some c → (s.world.ctx c).inbox = a :: rest →
      CmdStep env t s l
        { s with world := s.world.setCtx c fun x => { x with inbox := rest } }
        { l with pc := .cmdReturn p (some (c, a)) }
  | timeout {p c : ℕ} {r : Request} : l.pc = .cmdWait p c r → (s.sock p).conn = some c →
      CmdStep env t s l { s with world := (s.world.setErr c).log (.noReply r) }
        { l with pc := onNoReply p (some c) r }
  | free {p c : ℕ} {r : Request} : l.pc = .cmdFree p (some c) r → (s.sock p).conn = some c →
      CmdStep env t s l { s with world := s.world.redisFree (some c) }
        { l with pc := .cmdConnect p r }
  | reconnect {p : ℕ} {r : Request} : l.pc = .cmdConnect p r →
      CmdStep env t s l (connectSingleSocket env p s).1
        { l with pc := if (connectSingleSocket env p s).2 then .cmdSend p r.retry
                       else .cmdReturn p none }
  | ret {p : ℕ} {reply : Option CtxReply} : l.pc = .cmdReturn p reply →
      CmdStep env t s l (s.log (.returned t l.calls reply)) (l.returned p reply)

theorem LocalStep.cmdStep {env : Env} {t : ℕ} {s s' : St} {l l' : Local}
    (h : LocalStep env t s l s' l') (hu : l.Uses s) : CmdStep env t s l s' l' := by
  cases h with
  | startEmpty hpc _ | start hpc _ =>
    exact .silent (.refl s) (by rw [hpc]; rfl) rfl rfl
  | lastUsed hpc =>
    exact .silent (.of_same (fun _ => rfl) rfl rfl (List.append_nil _).symm nofun)
      (by rw [hpc]; rfl) rfl rfl
  | getReturn hpc => exact .silent (.of_log s rfl) (by rw [hpc]; rfl) rfl rfl
  | busy hpc _ => exact .silent (.of_log s rfl) (by rw [hpc]; rfl) (getNext_target _ _ _) rfl
  | @lock _ cur hpc _ =>
    refine .silent (.of_same (fun q => ?_) rfl rfl rfl (by simp [Event.silent])) (by rw [hpc]; rfl)
      rfl rfl
    by_cases hq : q = cur <;> simp [hq]
  | @skipped _ cur hpc =>
    refine .silent (.of_same (fun q => ?_) rfl rfl rfl (by simp [Event.silent])) (by rw [hpc]; rfl)
      (getNext_target _ _ _) rfl
    by_cases hq : q = cur <;> simp [unlock, hq]
  | @released p hpc =>
    refine .silent (.of_same (fun q => ?_) rfl rfl rfl (by simp [Event.silent])) (by rw [hpc]; rfl)
      rfl rfl
    by_cases hq : q = p <;> simp [unlock, hq]
  | clear hpc => exact .silent (.of_setInuse _ 0 s) (by rw [hpc]; rfl) rfl rfl
  | found hpc _ | skip hpc _ =>
    exact .silent (checkSocket_silent env _ s) (by rw [hpc]; rfl) rfl rfl
  | send hpc hc he => exact .send hpc hc he
  | sendFailed hpc hc => exact .sendFailed hpc hc
  | sendNull hpc hn =>
    simp only [Local.Uses, hpc, hn] at hu
    obtain ⟨c, hc⟩ := hu; cases hc
  | receive hpc hi =>
    simp only [Local.Uses, hpc] at hu
    exact .receive hpc hu hi
  | timeout hpc =>
    simp only [Local.Uses, hpc] at hu
    exact .timeout hpc hu
  | free hpc =>
    simp only [Local.Uses, hpc] at hu
    obtain ⟨c, rfl, hc⟩ := hu
    exact .free hpc hc
  | @reconnected p r hpc ho =>
    have h : CmdStep env t s l _ _ := .reconnect hpc
    rwa [ho] at h
  | @serverDown p r hpc ho =>
    have h : CmdStep env t s l _ _ := .reconnect hpc
    rwa [ho] at h
  | cmdReturn hpc => exact .ret hpc

theorem ThreadStep.cmdStep {env : Env} {t : ℕ} {s s' : St} {l l' : Local}
    (h : ThreadStep env t s l s' l') (hu : l.Uses s) : CmdStep env t s l s' l' := by
  rcases h with ⟨hidle, api, h⟩ | h
  · cases h with
    | get => exact .silent (.of_log s rfl) (by rw [hidle]; rfl) rfl rfl
    | vcommand _ => exact .enter hidle
    | releaseNull => exact .silent (.refl s) (by rw [hidle]; rfl) (by rw [hidle]; rfl) rfl
    | release _ => exact .silent (.refl s) (by rw [hidle]; rfl) rfl rfl
  · exact h.cmdStep hu

theorem CmdStep.trace {env : Env} {t : ℕ} {s s' : St} {l l' : Local}
    (h : CmdStep env t s l s' l') : ∃ new, s'.world.trace = s.world.trace ++ new := by
  cases h with
  | silent h _ _ _ =>
    obtain ⟨new, htr, -⟩ := h.trace
    exact ⟨new, htr⟩
  | enter _ | receive _ _ _ => exact ⟨[], (List.append_nil _).symm⟩
  | send _ _ _ | timeout _ _ | free _ _ | ret _ => exact ⟨_, rfl⟩
  | sendFailed _ _ => exact ⟨_, List.append_assoc _ _ _⟩
  | reconnect _ =>
    obtain ⟨new, htr, -⟩ := (Silent.of_connect (connectSingleSocket_spec env _ s)).trace
    exact ⟨new, htr⟩

/-! ## The requests of a call -/

/-- The request that a command is at. -/
def Pc.request : Pc → Option Request
  | .cmdSend _ r | .cmdWait _ _ r | .cmdFree _ _ r | .cmdConnect _ r => some r
  | _ => none

/-- A request carries the names of its thread and call; a context is replaced
    after the first attempt only. -/
structure Local.Names (t : ℕ) (l : Local) : Prop where
  request : ∀ r, l.pc.request = some r → r.caller = t ∧ r.call = l.calls ∧ r.attempt ≤ 1
  free : ∀ p c r, l.pc = .cmdFree p c r → r.attempt = 0
  connect : ∀ p r, l.pc = .cmdConnect p r → r.attempt = 0

theorem CmdStep.names {env : Env} {t : ℕ} {s s' : St} {l l' : Local}
    (h : CmdStep env t s l s' l') (hl : l.Names t) : l'.Names t := by
  have onNoReply_names : ∀ {p : ℕ} {c : Option ℕ} {r : Request}, l.pc.request = some r →
      Local.Names t { l with pc := onNoReply p c r } := by
    intro p c r hr
    unfold onNoReply
    split
    · exact ⟨fun r' hr' => by cases hr'; exact hl.request r hr, fun _ _ _ h => by cases h; assumption,
        by simp⟩
    · refine ⟨?_, ?_, ?_⟩ <;> simp [Pc.request]
  cases h with
  | silent _ _ h' _ =>
    refine ⟨fun r hr => ?_, fun p c r hpc => ?_, fun p r hpc => ?_⟩
    · cases hpc : l'.pc <;> simp_all [Pc.request, Pc.target]
    · rw [hpc] at h'; cases h'
    · rw [hpc] at h'; cases h'
  | enter _ => exact ⟨fun r hr => by cases hr; exact ⟨rfl, rfl, Nat.zero_le 1⟩, by simp, by simp⟩
  | send hpc _ _ =>
    exact ⟨fun r hr => by cases hr; exact hl.request _ (by rw [hpc]; rfl), by simp, by simp⟩
  | sendFailed hpc _ | timeout hpc _ => exact onNoReply_names (by rw [hpc]; rfl)
  | receive _ _ _ | ret _ => refine ⟨?_, ?_, ?_⟩ <;> simp [Pc.request, Local.returned]
  | @free p c r hpc _ =>
    refine ⟨fun r' hr => ?_, by simp, fun q r' hq => ?_⟩
    · cases hr; exact hl.request r (by rw [hpc]; rfl)
    · cases hq; exact hl.free p (some c) r hpc
  | @reconnect p r hpc =>
    split
    · refine ⟨fun r' hr => ?_, by simp, by simp⟩
      cases hr
      have h0 := hl.connect p r hpc
      obtain ⟨h1, h2, -⟩ := hl.request r (by rw [hpc]; rfl)
      exact ⟨h1, h2, by simp [Request.retry, h0]⟩
    · refine ⟨?_, ?_, ?_⟩ <;> simp [Pc.request]

/-- What is known of the request `r` that was sent on `c` earlier in the call
    that the thread is in. -/
def Local.Sent (s : St) (l : Local) (c : ℕ) (r : Request) : Prop :=
  match l.pc with
  | .cmdSend p r' => r.attempt = 0 ∧ r' = r.retry ∧ ∃ q ep c', (s.sock p).conn = some c' ∧
      [.command (some c) r, .free c, .connect q ep (some c')].Sublist s.world.trace
  | .cmdWait _ c' r' => r'.attempt = 0 → r = r' ∧ c = c'
  | .cmdFree _ c' r' => r = r' ∧ c' = some c
  | .cmdConnect _ r' => r = r' ∧ [.command (some c) r, .free c].Sublist s.world.trace
  | .cmdReturn _ _ => True
  | _ => False

/-- Two commands of one call: the second is the retry of the first, on a context
    opened after the first one's context was freed. -/
def Retried (tr : List Event) (e e' : Event) : Prop :=
  ∀ c r c' r', e = .command (some c) r → e' = .command (some c') r' → r.caller = r'.caller →
    r.call = r'.call → r.attempt = 0 ∧ r' = r.retry ∧ ∃ p ep,
      [.command (some c) r, .free c, .connect p ep (some c'), .command (some c') r'].Sublist tr

/-- The commands in the trace and what the threads are at. -/
structure Calls (s : Sys) : Prop where
  names : ∀ t, (s.thr t).Names t
  nonnull : ∀ r, .command none r ∉ s.st.world.trace
  sent : ∀ c r, .command (some c) r ∈ s.st.world.trace → r.call < (s.thr r.caller).calls ∨
    r.call = (s.thr r.caller).calls ∧ (s.thr r.caller).Sent s.st c r
  pairs : s.st.world.trace.Pairwise (Retried s.st.world.trace)

theorem Local.Sent.mono {s s' : St} {l : Local} {c : ℕ} {r : Request} (h : l.Sent s c r)
    (htr : s.world.trace.Sublist s'.world.trace)
    (hconn : ∀ p, l.pc.target = some p → (s'.sock p).conn = (s.sock p).conn) : l.Sent s' c r := by
  unfold Local.Sent at *
  split at h
  · rename_i p r' hpc
    obtain ⟨h0, h1, q, ep, c', hc', hsub⟩ := h
    exact ⟨h0, h1, q, ep, c', by rw [hconn p (by rw [hpc]; rfl), hc'], hsub.trans htr⟩
  · exact h
  · exact h
  · exact ⟨h.1, h.2.trans htr⟩
  · exact True.intro
  · exact h.elim

theorem Retried.mono {tr tr' : List Event} (h : tr.Sublist tr') {e e' : Event}
    (hr : Retried tr e e') : Retried tr' e e' := by
  intro c r c' r' he he' hcaller hcall
  obtain ⟨h0, h1, p, ep, hsub⟩ := hr c r c' r' he he' hcaller hcall
  exact ⟨h0, h1, p, ep, hsub.trans h⟩

/-- Events that are not commands do not concern the pairs. -/
theorem pairs_append {tr new : List Event} (h : tr.Pairwise (Retried tr))
    (hnew : ∀ e ∈ new, ∀ c r, e ≠ .command c r) :
    (tr ++ new).Pairwise (Retried (tr ++ new)) := by
  refine List.pairwise_append.mpr ⟨h.imp (Retried.mono (List.sublist_append_left _ _)),
    List.pairwise_of_forall_mem_list fun e he e' _ c r _ _ hc => absurd hc (hnew e he _ _),
    fun e _ e' he' c r c' r' _ hc => absurd hc (hnew e' he' _ _)⟩

/-- The command of a thread that is about to send concerns only the pairs with
    the earlier command of the same call. -/
theorem pairs_command {s : St} {l : Local} {t p c : ℕ} {r : Request}
    (h : s.world.trace.Pairwise (Retried s.world.trace)) (hpc : l.pc = .cmdSend p r)
    (hc : (s.sock p).conn = some c) (hl : l.Names t)
    (hsent : ∀ c' r', .command (some c') r' ∈ s.world.trace → r'.caller = t →
      r'.call < l.calls ∨ r'.call = l.calls ∧ l.Sent s c' r') :
    (s.world.trace ++ [Event.command (some c) r]).Pairwise
      (Retried (s.world.trace ++ [Event.command (some c) r])) := by
  obtain ⟨hcaller, hcall, -⟩ := hl.request r (by rw [hpc]; rfl)
  refine List.pairwise_append.mpr ⟨h.imp (Retried.mono (List.sublist_append_left _ _)),
    List.pairwise_singleton _ _, ?_⟩
  intro e he e' he' c₁ r₁ c₂ r₂ h₁ h₂ hcaller' hcall'
  subst h₁
  rw [List.mem_singleton.mp he'] at h₂
  cases h₂
  rcases hsent c₁ r₁ he (hcaller'.trans hcaller) with hlt | ⟨-, hs⟩
  · omega
  · simp only [Local.Sent, hpc] at hs
    obtain ⟨h0, h1, q, ep, c', hc', hsub⟩ := hs
    obtain rfl : c' = c := Option.some.inj (hc'.symm.trans hc)
    exact ⟨h0, h1, q, ep, hsub.append (List.Sublist.refl [_])⟩

section Step

variable {env : Env} {t : ℕ} {s s' : St} {l l' : Local}

/-- What was sent earlier in the call stays known along the call. -/
theorem CmdStep.sent (h : CmdStep env t s l s' l') (hl : l.Names t) {c : ℕ} {r : Request}
    (hold : .command (some c) r ∈ s.world.trace)
    (hs : r.call < l.calls ∨ r.call = l.calls ∧ l.Sent s c r) :
    r.call < l'.calls ∨ r.call = l'.calls ∧ l'.Sent s' c r := by
  have onNoReply_sent : ∀ (p : ℕ) (c' : Option ℕ) (r' : Request) (s' : St),
      (r'.attempt = 0 → r = r' ∧ c' = some c) →
      Local.Sent s' { l with pc := onNoReply p c' r' } c r := by
    intro p c' r' s' h0
    unfold onNoReply
    split
    · exact h0 ‹_›
    · exact True.intro
  rcases hs with hlt | ⟨hcall, hs⟩
  · left
    cases h with
    | silent _ _ _ hcalls => rw [hcalls]; exact hlt
    | ret _ => exact Nat.lt_succ_of_lt hlt
    | _ => exact hlt
  cases h with
  | silent _ htgt _ _ =>
    unfold Local.Sent at hs
    split at hs <;> simp_all [Pc.target]
  | enter hpc => simp only [Local.Sent, hpc] at hs
  | @send p c' r' hpc _ _ =>
    simp only [Local.Sent, hpc] at hs
    obtain ⟨-, rfl, -⟩ := hs
    exact Or.inr ⟨hcall, fun h0 => absurd h0 (Nat.succ_ne_zero _)⟩
  | @sendFailed p c' r' hpc _ =>
    simp only [Local.Sent, hpc] at hs
    obtain ⟨-, rfl, -⟩ := hs
    exact Or.inr ⟨hcall, onNoReply_sent _ _ _ _ fun h0 => absurd h0 (Nat.succ_ne_zero _)⟩
  | receive _ _ _ => exact Or.inr ⟨hcall, True.intro⟩
  | timeout hpc _ =>
    simp only [Local.Sent, hpc] at hs
    exact Or.inr ⟨hcall, onNoReply_sent _ _ _ _ fun h0 => ⟨(hs h0).1, by rw [(hs h0).2]⟩⟩
  | @free p c' r' hpc _ =>
    simp only [Local.Sent, hpc] at hs
    obtain ⟨rfl, hc⟩ := hs
    obtain rfl : c' = c := Option.some.inj hc
    refine Or.inr ⟨hcall, rfl, ?_⟩
    exact (List.singleton_sublist.mpr hold).append (List.Sublist.refl [_])
  | @reconnect p r' hpc =>
    have h0 := hl.connect p r' hpc
    simp only [Local.Sent, hpc] at hs
    obtain ⟨rfl, hsub⟩ := hs
    refine Or.inr ⟨hcall, ?_⟩
    cases ho : (connectSingleSocket env p s).2 with
    | false => exact True.intro
    | true =>
      obtain ⟨c', ep, new, hc', htr, hnew⟩ := (connectSingleSocket_spec env p s).opened ho
      refine ⟨h0, rfl, p, ep, c', hc', ?_⟩
      rw [htr]
      exact hsub.append (List.singleton_sublist.mpr hnew)
  | ret _ => exact Or.inl (Nat.lt_succ_of_le hcall.le)

/-- The only commands that a step adds are the one its thread was about to send. -/
theorem CmdStep.command_mem (h : CmdStep env t s l s' l') {oc : Option ℕ} {r : Request}
    (hm : .command oc r ∈ s'.world.trace) : .command oc r ∈ s.world.trace ∨
      ∃ c p, oc = some c ∧ l.pc = .cmdSend p r ∧ l'.calls = l.calls ∧ l'.Sent s' c r := by
  cases h with
  | silent h _ _ _ =>
    obtain ⟨new, htr, hnew⟩ := h.trace
    rw [htr, List.mem_append] at hm
    exact hm.imp_right fun hm => absurd (hnew _ hm) (by simp [Event.silent])
  | enter _ | receive _ _ _ => exact Or.inl hm
  | @send p c r' hpc _ _ =>
    rcases List.mem_append.mp hm with hm | hm
    · exact Or.inl hm
    · cases List.mem_singleton.mp hm
      exact Or.inr ⟨c, p, rfl, hpc, rfl, fun _ => ⟨rfl, rfl⟩⟩
  | @sendFailed p c r' hpc _ =>
    have hm' : .command oc r ∈ s.world.trace ∨ (oc = some c ∧ r = r') := by simpa [World.setErr] using hm
    refine hm'.imp_right fun h => ?_
    obtain ⟨rfl, rfl⟩ := h
    refine ⟨c, p, rfl, hpc, rfl, ?_⟩
    unfold onNoReply
    split <;> simp [Local.Sent]
  | timeout _ _ | free _ _ | ret _ =>
    rcases List.mem_append.mp hm with hm | hm
    · exact Or.inl hm
    · cases List.mem_singleton.mp hm
  | @reconnect p _ hpc =>
    obtain ⟨new, htr, hnew⟩ := (Silent.of_connect (connectSingleSocket_spec env p s)).trace
    rw [htr, List.mem_append] at hm
    exact hm.imp_right fun hm => absurd (hnew _ hm) (by simp [Event.silent])

theorem CmdStep.pairs (h : CmdStep env t s l s' l') (hl : l.Names t)
    (hp : s.world.trace.Pairwise (Retried s.world.trace))
    (hsent : ∀ c r, .command (some c) r ∈ s.world.trace → r.caller = t →
      r.call < l.calls ∨ r.call = l.calls ∧ l.Sent s c r) :
    s'.world.trace.Pairwise (Retried s'.world.trace) := by
  have silent : ∀ {s' : St}, Silent s s' → s'.world.trace.Pairwise (Retried s'.world.trace) := by
    intro s' h
    obtain ⟨new, htr, hnew⟩ := h.trace
    rw [htr]
    refine pairs_append hp fun e he c r heq => ?_
    have := hnew e he
    rw [heq] at this; cases this
  cases h with
  | silent h _ _ _ => exact silent h
  | enter _ | receive _ _ _ => exact hp
  | send hpc hc _ => exact pairs_command hp hpc hc hl hsent
  | sendFailed hpc hc => exact pairs_append (pairs_command hp hpc hc hl hsent) (by simp)
  | timeout _ _ | free _ _ | ret _ => exact pairs_append hp (by simp)
  | reconnect _ => exact silent (.of_connect (connectSingleSocket_spec env _ s))

end Step

theorem Calls.put {env : Env} {s : Sys} (h : Calls s) (hx : Exclusive s) {t : ℕ} {st : St}
    {l : Local} (hs : CmdStep env t s.st (s.thr t) st l)
    (huntouched : ∀ q, q ∉ (s.thr t).locks → (st.sock q).conn = (s.st.sock q).conn) :
    Calls (s.put t (st, l)) := by
  obtain ⟨new, htr⟩ := hs.trace
  have hsub : s.st.world.trace.Sublist st.world.trace := htr ▸ List.sublist_append_left _ _
  refine ⟨fun u => ?_, fun r hm => ?_, fun c r hm => ?_, ?_⟩
  · by_cases hu : u = t
    · subst hu; rw [Sys.put_thr_self]; exact hs.names (h.names u)
    · rw [Sys.put_thr_of_ne s t (st, l) hu]; exact h.names u
  · rcases hs.command_mem hm with hm | ⟨c, p, hc, -⟩
    · exact h.nonnull r hm
    · cases hc
  · rcases hs.command_mem hm with hm | ⟨c', p, hc, hpc, hcalls, hsent⟩
    · by_cases hu : r.caller = t
      · rw [hu, Sys.put_thr_self]
        exact hs.sent (h.names t) hm (hu ▸ h.sent c r hm)
      · rw [Sys.put_thr_of_ne s t (st, l) hu]
        refine (h.sent c r hm).imp_right fun ⟨h1, h2⟩ => ⟨h1, h2.mono hsub fun p hp => ?_⟩
        refine huntouched p fun hp' => hu ?_
        exact hx.agree.unique (Local.held_subset (hx.target r.caller p hp)) hp'
    · obtain rfl := Option.some.inj hc
      obtain ⟨h1, h2, -⟩ := (h.names t).request r (by rw [hpc]; rfl)
      rw [h1, Sys.put_thr_self]
      exact Or.inr ⟨h2.trans hcalls.symm, hsent⟩
  · refine hs.pairs (h.names t) h.pairs fun c r hm hr => ?_
    exact hr ▸ h.sent c r hm

theorem calls_invariant (env : Env) : (machine env onConnected).Invariant Calls := by
  have hinv : (machine env onConnected).Invariant fun s => Exclusive s ∧ Owning s :=
    fun s hs => ⟨exclusive_invariant env _ s hs, owning_invariant env s hs⟩
  refine Lts.invariant_of_inductive_with hinv (fun s h _ => ?_) fun s a s' ⟨hx, ho⟩ _ ih h => ?_
  · obtain ⟨⟨config, hc⟩, hthr⟩ := h
    obtain ⟨c, hsilent⟩ := redisPoolCreate_silent hc
    obtain ⟨new, htr, hnew⟩ := hsilent.trace
    have hnone : ∀ oc r, .command oc r ∉ s.st.world.trace := fun oc r hm => by
      rw [htr] at hm
      exact absurd (hnew _ hm) (by simp [Event.silent])
    refine ⟨fun t => by rw [hthr t]; exact ⟨nofun, nofun, nofun⟩, fun r => hnone none r,
      fun c r hm => absurd hm (hnone _ r), ?_⟩
    exact List.pairwise_of_forall_mem_list fun e he e' _ c r _ _ hc =>
      absurd (hc ▸ he) (hnone _ r)
  · have outside : ∀ f : World → World, (∃ new, (f s.st.world).trace = s.st.world.trace ++ new ∧
        ∀ e ∈ new, ∀ c r, e ≠ .command c r) → Calls (s.outside f) := by
      rintro f ⟨new, htr, hnew⟩
      have hmem : ∀ oc r, .command oc r ∈ (f s.st.world).trace → .command oc r ∈ s.st.world.trace := by
        intro oc r hm
        rw [htr, List.mem_append] at hm
        exact hm.resolve_right fun hm => hnew _ hm _ _ rfl
      have hsub : s.st.world.trace.Sublist (f s.st.world).trace :=
        htr ▸ List.sublist_append_left _ _
      refine ⟨ih.names, fun r hm => ih.nonnull r (hmem none r hm), fun c r hm => ?_, ?_⟩
      · exact (ih.sent c r (hmem _ r hm)).imp_right fun ⟨h1, h2⟩ => ⟨h1, h2.mono hsub fun _ _ => rfl⟩
      · show (f s.st.world).trace.Pairwise (Retried (f s.st.world).trace)
        rw [htr]
        exact pairs_append ih.pairs hnew
    cases SysStep.of_eq h with
    | @call t api st l hidle hallow hcall =>
      have hstep : ThreadStep env t s.st (s.thr t) st l := Or.inl ⟨hidle, api, hcall⟩
      exact ih.put hx (hstep.cmdStep (ho.uses t)) fun q hq => (hstep.untouched (hx.target t) hq).1
    | @step t st l hstep =>
      have hstep' : ThreadStep env t s.st (s.thr t) st l := Or.inr hstep
      exact ih.put hx (hstep'.cmdStep (ho.uses t)) fun q hq => (hstep'.untouched (hx.target t) hq).1
    | serve c =>
      refine outside _ ?_
      rcases s.st.world.serve_cases c with ⟨-, e⟩ | ⟨r, rest, -, e⟩
      · exact ⟨[], by rw [e, List.append_nil], nofun⟩
      · exact ⟨[.served c _], by rw [e]; rfl, by simp⟩
    | drop c | lose c => exact outside _ ⟨[], (List.append_nil _).symm, nofun⟩

end Hiredispool.Threads
