import Hiredispool.Threads.Scan

/-!
# What the restrictions on callers give

A socket is handed out connected and stays so until a command on it returns
NULL. So a caller that stops after NULL runs commands on connected sockets
only, and `RedisClient::redisvCommand` is such a caller.

* `ready_invariant`: a held socket without a failed command is connected.
* `reachable_stopAfterNull`, `reachable_onConnected`: the states that
  `redisClient` reaches are among those of `stopAfterNull`, and these among
  those of `onConnected`.
-/

namespace Hiredispool.Threads

open Hiredispool.Pool

/-- The socket that a call is about to hand out. -/
def Pc.handout : Pc → Option ℕ
  | .getFound cur => some cur
  | .getReturn r => r
  | _ => none

/-- A socket about to be handed out is connected; a held socket too, unless a
    command on it has returned NULL or is about to. A thread fresh out of
    `redis_get_socket` holds what it was given. -/
structure Local.Ready (s : St) (l : Local) : Prop where
  handout : ∀ p, l.pc.handout = some p → (s.sock p).state = .sockconnected
  held : ∀ p ∈ l.held, p ∉ l.failed → (s.sock p).state = .sockconnected ∨ l.pc = .cmdReturn p none
  failed : ∀ p ∈ l.failed, p ∈ l.held
  fresh : ∀ p, l.pc = .idle → l.ret = .socket (some p) → p ∈ l.held ∧ p ∉ l.failed

/-- Steps of other threads do not disturb a thread. -/
theorem Local.Ready.congr {s s' : St} {l : Local} (h : l.Ready s)
    (hs : ∀ p ∈ l.locks, (s'.sock p).state = (s.sock p).state) : l.Ready s' where
  handout p hp := by
    rw [hs p]
    · exact h.handout p hp
    · cases hpc : l.pc <;> simp_all [Pc.handout, Local.locks, Pc.locks]
  held p hp hf := by rw [hs p (Local.held_subset hp)]; exact h.held p hp hf
  failed := h.failed
  fresh := h.fresh

theorem getNext_handout (start cur : ℕ) (s : St) : (getNext start cur s).handout = none := by
  unfold getNext; split <;> rfl

theorem onNoReply_handout (p : ℕ) (c : Option ℕ) (r : Request) :
    (onNoReply p c r).handout = none := by unfold onNoReply; split <;> rfl

theorem getNext_ne_idle (start cur : ℕ) (s : St) : getNext start cur s ≠ .idle := by
  unfold getNext; split <;> simp

theorem onNoReply_ne_idle (p : ℕ) (c : Option ℕ) (r : Request) : onNoReply p c r ≠ .idle := by
  unfold onNoReply; split <;> simp

theorem CallStep.ready {t : ℕ} {s s' : St} {l l' : Local} {api : Api} (hidle : l.pc = .idle)
    (h : CallStep t s l api s' l') (hnd : l.locks.Nodup) (hr : l.Ready s) : l'.Ready s' := by
  have hheld : ∀ p ∈ l.held, p ∉ l.failed → (s.sock p).state = .sockconnected := by
    intro p hp hf
    refine (hr.held p hp hf).resolve_right fun e => ?_
    rw [hidle] at e; cases e
  cases h with
  | get | vcommand _ =>
    refine ⟨?_, fun p hp hf => Or.inl (hheld p hp hf), hr.failed, ?_⟩ <;> simp [Pc.handout]
  | releaseNull =>
    exact ⟨hr.handout, fun p hp hf => Or.inl (hheld p hp hf), hr.failed, by simp⟩
  | @release p hp =>
    have hnd' : l.held.Nodup := (List.nodup_append.mp hnd).2.1
    refine ⟨by simp [Pc.handout], fun q hq hf => ?_, fun q hq => ?_, by simp⟩
    · rw [hnd'.mem_erase_iff] at hq
      exact Or.inl (hheld q hq.2 fun hm => hf (by simp [hm, hq.1]))
    · have hqf : q ∈ l.failed ∧ q ≠ p := by simpa using hq
      exact hnd'.mem_erase_iff.mpr ⟨hqf.2, hr.failed q hqf.1⟩

/-- A step of a thread that connects no socket and neither hands one out nor returns. -/
theorem Local.Ready.keep {s s' : St} {l l' : Local} (hr : l.Ready s)
    (hst : ∀ q ∈ l.locks, (s'.sock q).state = (s.sock q).state) (hh : l'.held = l.held)
    (hf : l'.failed = l.failed)
    (hho : ∀ p, l'.pc.handout = some p → (s'.sock p).state = .sockconnected)
    (hpc : ∀ p, l.pc ≠ .cmdReturn p none) (hidle : l'.pc ≠ .idle ∨ l'.ret = .done) :
    l'.Ready s' := by
  refine ⟨hho, fun p hp hpf => ?_, fun p hp => ?_, fun p hp hret => ?_⟩
  · rw [hh] at hp; rw [hf] at hpf
    rw [hst p (Local.held_subset hp)]
    exact (hr.held p hp hpf).imp_right fun e => absurd e (hpc p)
  · rw [hf] at hp; rw [hh]; exact hr.failed p hp
  · rcases hidle with hidle | hidle
    · exact absurd hp hidle
    · rw [hidle] at hret; cases hret

/-- The sockets that failed a thread when a command returns: one more at most. -/
theorem Local.mem_returned_failed {l : Local} {p q : ℕ} {reply : Option CtxReply} :
    q ∈ (l.returned p reply).failed ↔ q ∈ l.failed ∨ reply = none ∧ q = p := by
  unfold Local.returned
  dsimp only
  split
  · rename_i hreply
    rw [List.mem_cons]
    tauto
  · rename_i hreply
    tauto

theorem LocalStep.ready {env : Env} {t : ℕ} {s s' : St} {l l' : Local}
    (h : LocalStep env t s l s' l') (hnd : l.locks.Nodup) (ht : l.TargetHeld) (hr : l.Ready s) :
    l'.Ready s' := by
  cases h with
  | startEmpty hpc _ | start hpc _ | send hpc _ _ | receive hpc _ | free hpc =>
    exact hr.keep (fun _ _ => rfl) rfl rfl (by simp [Pc.handout]) (by simp [hpc]) (by simp)
  | sendFailed hpc _ | sendNull hpc _ | timeout hpc =>
    exact hr.keep (fun _ _ => rfl) rfl rfl (fun p hp => by rw [onNoReply_handout] at hp; cases hp)
      (by simp [hpc]) (Or.inl (onNoReply_ne_idle _ _ _))
  | busy hpc _ =>
    exact hr.keep (fun _ _ => rfl) rfl rfl (fun p hp => by rw [getNext_handout] at hp; cases hp)
      (by simp [hpc]) (Or.inl (getNext_ne_idle _ _ _))
  | @skipped _ cur hpc =>
    exact hr.keep (fun q _ => by by_cases e : q = cur <;> simp [unlock, e]) rfl rfl
      (fun p hp => by rw [getNext_handout] at hp; cases hp) (by simp [hpc])
      (Or.inl (getNext_ne_idle _ _ _))
  | @lock _ cur hpc _ =>
    exact hr.keep (fun q _ => by by_cases e : q = cur <;> simp [e]) rfl rfl
      (by simp [Pc.handout]) (by simp [hpc]) (by simp)
  | @clear p hpc =>
    exact hr.keep (fun q _ => by by_cases e : q = p <;> simp [setInuse, e]) rfl rfl
      (by simp [Pc.handout]) (by simp [hpc]) (by simp)
  | @released p hpc =>
    exact hr.keep (fun q _ => by by_cases e : q = p <;> simp [unlock, e]) rfl rfl
      (by simp [Pc.handout]) (by simp [hpc]) (Or.inr rfl)
  | @lastUsed cur hpc =>
    refine hr.keep (fun _ _ => rfl) rfl rfl (fun p hp => ?_) (by simp [hpc]) (by simp)
    exact hr.handout p (by rw [hpc]; exact hp)
  | @found start cur hpc hc | @skip start cur hpc hc =>
    have hcur : cur ∉ l.held := l.not_mem_held hnd (by rw [hpc]; rfl)
    refine ⟨fun p hp => ?_, fun p hp hf => ?_, hr.failed, by simp⟩
    · first
        | (cases hp; exact checkSocket_state hc)
        | cases hp
    · have hne : p ≠ cur := fun e => hcur (e ▸ hp)
      rw [(checkSocket_frame env cur s).other p hne]
      exact Or.inl ((hr.held p hp hf).resolve_right (by simp [hpc]))
  | @getReturn r hpc =>
    refine ⟨by simp [Pc.handout], fun p hp hf => ?_, fun p hp => ?_, fun p _ hret => ?_⟩
    · rcases List.mem_append.mp hp with hp | hp
      · exact Or.inl (hr.handout p (by rw [hpc]; exact Option.mem_toList.mp hp))
      · exact Or.inl ((hr.held p hp hf).resolve_right (by simp [hpc]))
    · exact List.mem_append_right _ (hr.failed p hp)
    · obtain rfl : r = some p := Ret.socket.inj hret
      have hp : p ∉ l.held := l.not_mem_held hnd (by rw [hpc]; rfl)
      exact ⟨by simp, fun hf => hp (hr.failed p hf)⟩
  | @reconnected p r hpc hc | @serverDown p r hpc hc =>
    have hspec := connectSingleSocket_spec env p s
    refine ⟨by simp [Pc.handout], fun q hq hf => ?_, hr.failed, by simp⟩
    by_cases hqp : q = p
    · subst hqp
      rcases hspec.conn with ⟨-, hst, -⟩ | ⟨ho, -, -⟩
      · exact Or.inl hst
      · first
          | exact Or.inr rfl
          | rw [hc] at ho; cases ho
    · rw [hspec.1.other q hqp]
      exact Or.inl ((hr.held q hq hf).resolve_right (by simp [hpc]))
  | @cmdReturn p reply hpc =>
    have hp : p ∈ l.held := ht p (by rw [hpc]; rfl)
    refine ⟨by simp [Local.returned, Pc.handout], fun q hq hf => ?_, fun q hq => ?_,
      by simp [Local.returned]⟩
    · rw [Local.mem_returned_failed, not_or] at hf
      refine Or.inl ((hr.held q hq hf.1).resolve_right fun e => hf.2 ?_)
      rw [hpc] at e
      cases e
      exact ⟨rfl, rfl⟩
    · rcases Local.mem_returned_failed.mp hq with hm | ⟨-, rfl⟩
      · exact hr.failed q hm
      · exact hp

theorem ThreadStep.ready {env : Env} {t : ℕ} {s s' : St} {l l' : Local}
    (h : ThreadStep env t s l s' l') (hnd : l.locks.Nodup) (ht : l.TargetHeld) (hr : l.Ready s) :
    l'.Ready s' := by
  rcases h with ⟨hidle, api, h⟩ | h
  · exact h.ready hidle hnd hr
  · exact h.ready hnd ht hr

/-- Every thread is ready in every reachable state. -/
theorem ready_invariant (env : Env) (allow : Policy) :
    (machine env allow).Invariant fun s => ∀ t, (s.thr t).Ready s.st := by
  refine Lts.invariant_of_inductive_with (exclusive_invariant env allow) (fun s h _ t => ?_)
    fun s a s' hx _ ih h => ?_
  · rw [h.2 t]; exact ⟨nofun, nofun, nofun, nofun⟩
  · rcases (SysStep.of_eq h).cases with ⟨t, st, l, hstep, rfl⟩ | ⟨f, rfl⟩
    · intro u
      by_cases hu : u = t
      · subst hu
        rw [Sys.put_thr_self]
        exact hstep.ready (hx.agree.nodup u) (hx.target u) (ih u)
      · rw [Sys.put_thr_of_ne s t (st, l) hu]
        refine (ih u).congr fun p hp => (hstep.untouched (hx.target t) fun hp' => hu ?_).2
        exact hx.agree.unique hp hp'
    · exact fun u => (ih u).congr fun _ _ => rfl

/-! ## The policies -/

section Policies

variable {env : Env} {allow allow' : Policy} {s : Sys}

/-- A policy that allows no more than another reaches no more. `h` is asked only
    for sockets that the caller holds. -/
theorem reachable_of_allow
    (h : ∀ s t, (machine env allow).Reachable s → (s.thr t).pc = .idle →
      ∀ api, (∀ p cmd, api = .vcommand p cmd → p ∈ (s.thr t).held) →
        allow s.st (s.thr t) api = true → allow' s.st (s.thr t) api = true)
    (hs : (machine env allow).Reachable s) : (machine env allow').Reachable s := by
  have hinit : ∀ s, (machine env allow).init s → (machine env allow').init s := fun _ h => h
  refine Lts.Reachable.mono hinit (fun s a s' hr _ hstep => ?_) hs
  cases a with
  | call t api =>
    simp only [machine, sysStep] at hstep ⊢
    split at hstep
    · rename_i hcall
      refine (if_pos ⟨hcall.1, h s t hr hcall.1 api (fun p cmd e => ?_) hcall.2⟩).trans hstep
      subst e
      by_contra hp
      simp [startCall, hp] at hstep
    · cases hstep
  | _ => exact hstep

theorem reachable_onConnected (hs : (machine env stopAfterNull).Reachable s) :
    (machine env onConnected).Reachable s := by
  refine reachable_of_allow (fun s t hr hidle api hheld hallow => ?_) hs
  cases api with
  | vcommand p cmd =>
    have hp : p ∉ (s.thr t).failed := by simpa [stopAfterNull] using hallow
    refine decide_eq_true ((ready_invariant env _ s hr t).held p (hheld p cmd rfl) hp
      |>.resolve_right fun e => ?_)
    rw [hidle] at e; cases e
  | _ => rfl

theorem reachable_stopAfterNull (hs : (machine env redisClient).Reachable s) :
    (machine env stopAfterNull).Reachable s := by
  refine reachable_of_allow (fun s t hr hidle api _ hallow => ?_) hs
  cases api with
  | vcommand p cmd =>
    have hret : (s.thr t).ret = .socket (some p) := by
      unfold redisClient at hallow
      split at hallow <;> simp_all
    exact decide_eq_true ((ready_invariant env _ s hr t).fresh p hidle hret).2
  | _ => rfl

end Policies

end Hiredispool.Threads
