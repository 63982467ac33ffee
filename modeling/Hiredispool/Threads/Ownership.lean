import Hiredispool.Pool.Ownership
import Hiredispool.Threads.Policies

/-!
# Ownership of contexts while threads run

The ownership of `Pool.Owned` along every run in which commands are started on
connected sockets only. Between the `redisFree` of a retry and its reconnect a
socket's `conn` dangles; only the thread that runs the command sees it.

* `owning_invariant`: the invariant.
* `context_ownership`: for callers that stop after NULL, contexts are owned by
  exactly one socket, never freed twice, and all freed by `redis_pool_destroy`.
* `commands_on_live_contexts`: `redisvCommand` is called on a live context if
  every command is started on a connected socket, and on NULL otherwise
  (`command_on_null`).
-/

namespace Hiredispool.Threads

open Hiredispool.Pool

/-! ## Dangling sockets -/

/-- The socket whose context the thread has freed and not replaced yet. -/
def Pc.freed : Pc → Option ℕ
  | .cmdConnect p _ => some p
  | _ => none

/-- Some thread has freed the context of `p` and not replaced it yet. -/
def Freed (s : Sys) (p : ℕ) : Prop := ∃ t, (s.thr t).pc.freed = some p

theorem Pc.freed_target {pc : Pc} {p : ℕ} (h : pc.freed = some p) : pc.target = some p := by
  unfold Pc.freed at h; split at h
  · exact h
  · cases h

/-- Only the thread that has locked a socket can have freed its context. -/
theorem Freed.of_locks {s : Sys} {t p : ℕ} (hx : Exclusive s) (hp : p ∈ (s.thr t).locks)
    (h : Freed s p) : (s.thr t).pc.freed = some p := by
  obtain ⟨u, hu⟩ := h
  have hheld : p ∈ (s.thr u).held := hx.target u p (Pc.freed_target hu)
  exact hx.agree.unique hp (Local.held_subset hheld) ▸ hu

/-- A socket does not dangle while a thread that has freed nothing has it locked. -/
theorem not_freed_of_locks {s : Sys} {t p : ℕ} (hx : Exclusive s) (hp : p ∈ (s.thr t).locks)
    (hpc : (s.thr t).pc.freed = none) : ¬ Freed s p := by
  intro hF
  have hsome := hF.of_locks hx hp
  rw [hpc] at hsome
  cases hsome

/-- A step of `t` that leaves its own dangling socket alone. -/
theorem freed_put_of_eq {s : Sys} {t : ℕ} {st : St} {l : Local}
    (h : l.pc.freed = (s.thr t).pc.freed) (p : ℕ) : Freed (s.put t (st, l)) p ↔ Freed s p := by
  refine exists_congr fun u => ?_
  by_cases hu : u = t
  · subst hu; rw [Sys.put_thr_self, h]
  · rw [Sys.put_thr_of_ne s t (st, l) hu]

/-- A step of `t` that frees the context of `p`. -/
theorem freed_put_free {s : Sys} {t p : ℕ} {st : St} {l : Local} (h : l.pc.freed = some p)
    (h0 : (s.thr t).pc.freed = none) (q : ℕ) :
    Freed (s.put t (st, l)) q ↔ Freed s q ∨ q = p := by
  constructor
  · rintro ⟨u, hu⟩
    by_cases hut : u = t
    · subst hut
      rw [Sys.put_thr_self, h] at hu
      exact Or.inr (Option.some.inj hu).symm
    · rw [Sys.put_thr_of_ne s t (st, l) hut] at hu
      exact Or.inl ⟨u, hu⟩
  · rintro (⟨u, hu⟩ | rfl)
    · have hut : u ≠ t := fun e => by rw [e, h0] at hu; cases hu
      exact ⟨u, by rw [Sys.put_thr_of_ne s t (st, l) hut]; exact hu⟩
    · exact ⟨t, by rw [Sys.put_thr_self]; exact h⟩

/-- A step of `t` that connects its dangling socket `p`. -/
theorem freed_put_connect {s : Sys} {t p : ℕ} {st : St} {l : Local} (hx : Exclusive s)
    (h : (s.thr t).pc.freed = some p) (h0 : l.pc.freed = none) (q : ℕ) :
    Freed (s.put t (st, l)) q ↔ Freed s q ∧ q ≠ p := by
  constructor
  · rintro ⟨u, hu⟩
    have hut : u ≠ t := fun e => by
      subst e; rw [Sys.put_thr_self, h0] at hu; cases hu
    rw [Sys.put_thr_of_ne s t (st, l) hut] at hu
    refine ⟨⟨u, hu⟩, fun e => hut ?_⟩
    subst e
    exact hx.agree.unique (Local.held_subset (hx.target u q (Pc.freed_target hu)))
      (Local.held_subset (hx.target t q (Pc.freed_target h)))
  · rintro ⟨⟨u, hu⟩, hne⟩
    have hut : u ≠ t := fun e => hne (by rw [e, h] at hu; exact (Option.some.inj hu).symm)
    exact ⟨u, by rw [Sys.put_thr_of_ne s t (st, l) hut]; exact hu⟩

/-! ## The invariant -/

/-- The context that a command works on is the one of its socket. -/
def Local.Uses (s : St) (l : Local) : Prop :=
  match l.pc with
  | .cmdSend p _ => ∃ c, (s.sock p).conn = some c
  | .cmdWait p c _ => (s.sock p).conn = some c
  | .cmdFree p c _ => ∃ c', c = some c' ∧ (s.sock p).conn = some c'
  | _ => True

theorem Local.uses_of_target {s : St} {l : Local} (h : l.pc.target = none) : l.Uses s := by
  unfold Local.Uses
  split <;> simp_all [Pc.target]

theorem Local.Uses.congr {s s' : St} {l : Local} (h : l.Uses s)
    (hs : ∀ p, l.pc.target = some p → (s'.sock p).conn = (s.sock p).conn) : l.Uses s' := by
  unfold Local.Uses at *
  split at h <;> simp_all [Pc.target]

/-- The contexts are owned, and commands work on their socket's context. -/
structure Owning (s : Sys) : Prop where
  owned : Owned s.st.numSocks (Freed s) s.st
  uses : ∀ t, (s.thr t).Uses s.st

theorem getNext_freed (start cur : ℕ) (s : St) : (getNext start cur s).freed = none := by
  unfold getNext; split <;> rfl

theorem onNoReply_freed (p : ℕ) (c : Option ℕ) (r : Request) :
    (onNoReply p c r).freed = none := by unfold onNoReply; split <;> rfl

/-- A step inside a call keeps the contexts owned. -/
theorem Owning.owned_step {env : Env} {s : Sys} (h : Owning s) (hx : Exclusive s) (hi : InList s)
    {t : ℕ} {st : St} {l : Local} (hs : LocalStep env t s.st (s.thr t) st l) :
    Owned s.st.numSocks (Freed (s.put t (st, l))) st := by
  have huses := h.uses t
  -- steps that neither free nor connect
  have keep : ∀ {st : St} {l : Local}, SameConns s.st st → (s.thr t).pc.freed = none →
      l.pc.freed = none → Owned s.st.numSocks (Freed (s.put t (st, l))) st :=
    fun hc h0 h1 => h.owned.congr hc fun p _ _ => freed_put_of_eq (h1.trans h0.symm) p
  cases hs with
  | startEmpty hpc _ | start hpc _ | lastUsed hpc =>
    exact keep ⟨fun _ => rfl, fun _ => rfl, rfl, fun _ => rfl⟩ (by rw [hpc]; rfl) rfl
  | getReturn hpc | cmdReturn hpc => exact keep (.of_log _ _) (by rw [hpc]; rfl) rfl
  | busy hpc _ => exact keep (.of_log _ _) (by rw [hpc]; rfl) (getNext_freed _ _ _)
  | lock hpc _ =>
    exact keep (.of_setSock (fun r => { r with mutex := some t }) (fun _ => ⟨rfl, rfl⟩) _)
      (by rw [hpc]; rfl) rfl
  | skipped hpc =>
    exact keep (.of_setSock (fun r => { r with mutex := none }) (fun _ => ⟨rfl, rfl⟩) _)
      (by rw [hpc]; rfl) (getNext_freed _ _ _)
  | released hpc =>
    exact keep (.of_setSock (fun r => { r with mutex := none }) (fun _ => ⟨rfl, rfl⟩) _)
      (by rw [hpc]; rfl) rfl
  | clear hpc => exact keep (.of_setInuse _ 0 _) (by rw [hpc]; rfl) rfl
  | send hpc _ _ | receive hpc _ =>
    exact keep (.of_world rfl (by simp [World.setCtx_frees])) (by rw [hpc]; rfl) rfl
  | sendFailed hpc _ | timeout hpc =>
    exact keep (.of_world rfl (by simp [World.setErr, World.setCtx_frees])) (by rw [hpc]; rfl)
      (onNoReply_freed _ _ _)
  | sendNull hpc hn =>
    simp only [Local.Uses, hpc, hn] at huses
    obtain ⟨c, hc⟩ := huses; cases hc
  | @found start cur hpc _ | @skip start cur hpc _ =>
    have hcur : cur ∈ (s.thr t).locks := by simp [Local.locks, hpc, Pc.locks]
    have hF : ¬ Freed s cur := not_freed_of_locks hx hcur (by rw [hpc]; rfl)
    refine (checkSocket_owned h.owned ((hi.thread t).locks cur hcur) hF).congr
      (.of_world rfl fun _ => rfl) fun p _ _ => freed_put_of_eq ?_ p
    rw [hpc]; rfl
  | @free p c r hpc =>
    simp only [Local.Uses, hpc] at huses
    obtain ⟨c', rfl, hc⟩ := huses
    have hp : p ∈ (s.thr t).locks := Local.held_subset (hx.target t p (by rw [hpc]; rfl))
    have hF : ¬ Freed s p := not_freed_of_locks hx hp (by rw [hpc]; rfl)
    exact (h.owned.free hc hF).congr (.of_world rfl fun _ => rfl)
      fun q _ _ => freed_put_free rfl (by rw [hpc]; rfl) q
  | @reconnected p r hpc _ | @serverDown p r hpc _ =>
    have hp : p ∈ (s.thr t).held := hx.target t p (by rw [hpc]; rfl)
    have hF : (s.thr t).pc.freed = some p := by rw [hpc]; rfl
    refine (h.owned.connect ((hi.thread t).locks p (Local.held_subset hp)) (fun _ _ => ⟨t, hF⟩)
      (connectSingleSocket_spec env p s.st)).congr (.of_world rfl fun _ => rfl)
      fun q _ _ => freed_put_connect hx hF rfl q

/-- A step inside a call keeps the thread on its socket's context. -/
theorem LocalStep.uses {env : Env} {t : ℕ} {s s' : St} {l l' : Local}
    (h : LocalStep env t s l s' l') (hu : l.Uses s) : l'.Uses s' := by
  have onNoReply_uses : ∀ {p : ℕ} {c : Option ℕ} {r : Request} {s' : St} {l' : Local},
      (∃ c', c = some c' ∧ (s'.sock p).conn = some c') → l'.pc = onNoReply p c r →
      l'.Uses s' := by
    intro p c r s' l' hc hpc
    unfold onNoReply at hpc
    split at hpc <;> simp only [Local.Uses, hpc]
    exact hc
  cases h with
  | send hpc hc _ => exact hc
  | sendFailed hpc hc => exact onNoReply_uses ⟨_, rfl, hc⟩ rfl
  | sendNull hpc hn =>
    simp only [Local.Uses, hpc, hn] at hu
    obtain ⟨c, hc⟩ := hu; cases hc
  | timeout hpc =>
    simp only [Local.Uses, hpc] at hu
    exact onNoReply_uses ⟨_, rfl, hu⟩ rfl
  | @reconnected p r hpc ho =>
    rcases (connectSingleSocket_spec env p s).conn with ⟨-, -, c, hc, -⟩ | ⟨hf, -, -⟩
    · exact ⟨c, hc⟩
    · rw [ho] at hf; cases hf
  | busy _ _ | skipped _ => exact Local.uses_of_target (getNext_target _ _ _)
  | _ => exact True.intro

theorem CallStep.uses {t N : ℕ} {F : ℕ → Prop} {s s' : St} {l l' : Local} {api : Api}
    (hidle : l.pc = .idle) (h : CallStep t s l api s' l') (ho : Owned N F s)
    (hg : ∀ p cmd, api = .vcommand p cmd → (s.sock p).state = .sockconnected) : l'.Uses s' := by
  cases h with
  | @vcommand p cmd hp => exact (ho.state_iff p).mp (hg p cmd rfl)
  | releaseNull => exact Local.uses_of_target (by rw [hidle]; rfl)
  | _ => exact True.intro

/-- A step of `t` keeps the invariant if it keeps the part that concerns `t`. -/
theorem Owning.put {env : Env} {s : Sys} (h : Owning s) (hx : Exclusive s) {t : ℕ} {st : St}
    {l : Local} (hs : ThreadStep env t s.st (s.thr t) st l)
    (ho : Owned s.st.numSocks (Freed (s.put t (st, l))) st) (hu : l.Uses st) :
    Owning (s.put t (st, l)) := by
  refine ⟨by rw [Sys.put_st, hs.listFrame.numSocks]; exact ho, fun u => ?_⟩
  by_cases hut : u = t
  · subst hut; rw [Sys.put_thr_self]; exact hu
  · rw [Sys.put_thr_of_ne s t (st, l) hut]
    refine (h.uses u).congr fun p hp => (hs.untouched (hx.target t) fun hp' => hut ?_).1
    exact hx.agree.unique (Local.held_subset (hx.target u p hp)) hp'

theorem owning_invariant (env : Env) : (machine env onConnected).Invariant Owning := by
  have hinv : (machine env onConnected).Invariant fun s => Exclusive s ∧ InList s :=
    fun s hs => ⟨exclusive_invariant env _ s hs, inList_invariant env _ s hs⟩
  refine Lts.invariant_of_inductive_with hinv (fun s h _ => ?_) fun s a s' ⟨hx, hi⟩ _ ih h => ?_
  · obtain ⟨⟨config, hc⟩, hthr⟩ := h
    refine ⟨(redisPoolCreate_owned hc).congr (.of_world rfl fun _ => rfl) fun p _ _ => ?_,
      fun t => by rw [hthr t]; exact True.intro⟩
    refine iff_of_false (fun ⟨t, ht⟩ => ?_) id
    rw [hthr t] at ht; cases ht
  · cases SysStep.of_eq h with
    | @call t api st l hidle hallow hcall =>
      have hg : ∀ p cmd, api = .vcommand p cmd → (s.st.sock p).state = .sockconnected := by
        rintro p cmd rfl; exact of_decide_eq_true hallow
      have hstep : ThreadStep env t s.st (s.thr t) st l := Or.inl ⟨hidle, api, hcall⟩
      refine ih.put hx hstep ?_ (hcall.uses hidle ih.owned hg)
      have hfreed : l.pc.freed = (s.thr t).pc.freed := by cases hcall <;> simp [hidle, Pc.freed]
      refine ih.owned.congr ?_ fun p _ _ => freed_put_of_eq hfreed p
      cases hcall <;> first | exact .of_log _ _ | exact .of_world rfl fun _ => rfl
    | @step t st l hstep =>
      exact ih.put hx (Or.inr hstep) (ih.owned_step hx hi hstep) (hstep.uses (ih.uses t))
    | serve c => exact ⟨ih.owned.same (.of_serve c s.st), fun t => (ih.uses t).congr fun _ _ => rfl⟩
    | drop c | lose c =>
      exact ⟨ih.owned.same (.of_world rfl (by simp [World.drop, World.lose, World.setCtx_frees])),
        fun t => (ih.uses t).congr fun _ _ => rfl⟩

/-! ## Main theorems -/

/-- **Every live context has exactly one owner.** Callers get sockets, run
    commands until one returns NULL, and release the sockets. A socket whose
    context is not being replaced just now has state `sockconnected` exactly
    when `conn` is a live context, and else `conn` is NULL; no two sockets share
    a context; every live context is the `conn` of exactly one socket; no
    context is freed twice; and destroying the pool while no socket is held
    frees every context that is left, once. -/
theorem context_ownership (env : Env) (s : Sys) (hs : (machine env stopAfterNull).Reachable s) :
    (∀ p, (∀ t r, (s.thr t).pc ≠ .cmdConnect p r) →
        ((s.st.sock p).state = .sockconnected ↔
          ∃ c, (s.st.sock p).conn = some c ∧ s.st.world.Live c) ∧
        ((s.st.sock p).state = .sockunconnected → (s.st.sock p).conn = none)) ∧
      (∀ p q c, (s.st.sock p).conn = some c → (s.st.sock q).conn = some c → p = q) ∧
      (∀ c, s.st.world.Live c → ∃! p, p < s.st.numSocks ∧ (s.st.sock p).conn = some c) ∧
      (∀ c, c < s.st.world.nctx → (s.st.world.ctx c).frees ≤ 1) ∧
      ((∀ t, (s.thr t).pc = .idle ∧ (s.thr t).held = []) →
        ∀ c, ¬ (redisPoolDestroy s.st).Live c ∧
          (c < (redisPoolDestroy s.st).nctx → ((redisPoolDestroy s.st).ctx c).frees = 1)) := by
  have h := (owning_invariant env s (reachable_onConnected hs)).owned
  refine ⟨fun p hp => ?_, h.table.inj, fun c hc => ?_, h.table.once, fun hidle c => ?_⟩
  · have hF : ¬ Freed s p := fun ⟨t, ht⟩ => by
      cases hpc : (s.thr t).pc <;> simp only [hpc, Pc.freed] at ht <;> cases ht
      exact hp t _ hpc
    refine ⟨(h.state_iff p).trans (exists_congr fun c => ?_), h.conn_eq_none⟩
    exact ⟨fun hc => ⟨hc, h.conn_live hc hF⟩, fun hc => hc.1⟩
  · obtain ⟨p, hp, huniq⟩ := h.table.unique_owner hc.1 hc.2
    exact ⟨p, ⟨h.range p c hp, hp⟩, fun q hq => huniq q hq.2⟩
  · refine redisPoolDestroy_spec (inList_invariant env _ s hs).linked
      (h.congr (.of_world rfl fun _ => rfl) fun p _ _ => ?_) c
    refine iff_of_false id fun ⟨t, ht⟩ => ?_
    rw [(hidle t).1] at ht; cases ht

/-- One command is retried on a new context; the old one has been freed. -/
theorem context_ownership_retry : ∃ s, (machine .good stopAfterNull).Reachable s ∧
    s.st.world.Live 1 ∧ (∃! p, p < s.st.numSocks ∧ (s.st.sock p).conn = some 1) := by
  obtain ⟨s, hs, hp⟩ := exists_of_replay .good stopAfterNull (.single 1 5)
    [.call 0 .get, .step 0 true, .step 0 true, .step 0 true, .step 0 true, .step 0 true,
      .call 0 (.vcommand 0 (.incr 0)), .step 0 true, .step 0 false, .step 0 true, .step 0 true]
    (fun s => s.st.world.Live 1) (by decide +kernel)
  have hlive : s.st.world.Live 1 := of_decide_eq_true hp
  obtain ⟨-, -, howner, -, -⟩ := context_ownership _ s hs
  exact ⟨s, hs, hlive, howner 1 hlive⟩

/-- Every thread that is about to call `redisvCommand` calls it with a context
    that has been opened and not freed. -/
def SendsLive (s : Sys) : Prop :=
  ∀ t p r, (s.thr t).pc = .cmdSend p r → ∃ c, (s.st.sock p).conn = some c ∧ s.st.world.Live c

theorem Owning.sendsLive {s : Sys} (h : Owning s) (hx : Exclusive s) : SendsLive s := by
  intro t p r hpc
  have huses := h.uses t
  simp only [Local.Uses, hpc] at huses
  obtain ⟨c, hc⟩ := huses
  have hp : p ∈ (s.thr t).locks := Local.held_subset (hx.target t p (by rw [hpc]; rfl))
  exact ⟨c, hc, h.owned.conn_live hc (not_freed_of_locks hx hp (by rw [hpc]; rfl))⟩

/-- **Commands run on live contexts if they are started on connected sockets.**
    In every run in which the state of the socket is `sockconnected` whenever
    `redis_vcommand` is entered, both attempts of every command get a live
    context; and a command started now gets one exactly when the state of its
    socket is `sockconnected`. -/
theorem commands_on_live_contexts (env : Env) (s : Sys)
    (hs : (machine env onConnected).Reachable s) :
    SendsLive s ∧
      ∀ t p cmd s', (machine env anyCall).step s (.call t (.vcommand p cmd)) = some s' →
        (SendsLive s' ↔ (s.st.sock p).state = .sockconnected) := by
  have h := owning_invariant env s hs
  refine ⟨h.sendsLive (exclusive_invariant env _ s hs), fun t p cmd s' hstep => ?_⟩
  constructor
  · intro hlive
    simp only [machine, sysStep] at hstep
    split at hstep
    · obtain ⟨⟨st, l⟩, hcall, rfl⟩ := Option.map_eq_some_iff.mp hstep
      cases CallStep.of_eq hcall with
      | vcommand hp =>
        obtain ⟨c, hc, -⟩ := hlive t p _ (by rw [Sys.put_thr_self])
        exact (h.owned.state_iff p).mpr ⟨c, hc⟩
    · cases hstep
  · intro hst
    have hstep' : (machine env onConnected).step s (.call t (.vcommand p cmd)) = some s' := by
      simpa [machine, sysStep, anyCall, onConnected, hst] using hstep
    have hs' := hs.step hstep'
    exact (owning_invariant env s' hs').sendsLive (exclusive_invariant env _ s' hs')

/-- A command that fails, with its reconnect, and a second one on the same socket. -/
def commandTwice : List Action :=
  [.call 0 .get, .step 0 true, .step 0 true, .step 0 true, .step 0 true, .step 0 true,
    .call 0 (.vcommand 0 (.incr 0)), .step 0 true, .step 0 false, .step 0 true, .step 0 true,
    .step 0 true, .call 0 (.vcommand 0 (.incr 0))]

/-- After a failed reconnect the next command on the held socket gets NULL. -/
theorem command_on_null : ∃ s, (machine (.connects 1) anyCall).Reachable s ∧ ¬ SendsLive s := by
  obtain ⟨s, hs, hp⟩ := exists_of_replay (.connects 1) anyCall (.single 1 5) commandTwice
    (fun s => (s.thr 0).pc = .cmdSend 0 ⟨0, 1, 0, .incr 0⟩ ∧ (s.st.sock 0).conn = none)
    (by decide +kernel)
  obtain ⟨hpc, hn⟩ := of_decide_eq_true hp
  refine ⟨s, hs, fun hlive => ?_⟩
  obtain ⟨c, hc, -⟩ := hlive 0 0 _ hpc
  rw [hn] at hc; cases hc

/-- The same socket before its reconnect failed. -/
theorem commands_on_live_contexts_retry : ∃ s, (machine (.connects 1) onConnected).Reachable s ∧
    (s.thr 0).pc = .cmdSend 0 ⟨0, 0, 0, .incr 0⟩ ∧
    ∃ c, (s.st.sock 0).conn = some c ∧ s.st.world.Live c := by
  obtain ⟨s, hs, hp⟩ := exists_of_replay (.connects 1) onConnected (.single 1 5)
    (commandTwice.take 7) (fun s => (s.thr 0).pc = .cmdSend 0 ⟨0, 0, 0, .incr 0⟩) (by decide +kernel)
  have hpc := of_decide_eq_true hp
  exact ⟨s, hs, hpc, (commands_on_live_contexts _ s hs).1 0 0 _ hpc⟩

end Hiredispool.Threads
