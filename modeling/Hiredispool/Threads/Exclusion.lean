import Hiredispool.Lib.LockTable
import Hiredispool.Threads.Machine

/-!
# Mutual exclusion

The mutexes of the sockets and what the threads believe they have locked agree
(`LockTable.Agree`), and `inuse` is set exactly for the sockets that a thread
has marked: the held ones, and one on its way to or from its caller.

* `exclusive_invariant`: this holds in every reachable state, for every policy.
* `mutual_exclusion`: no socket is held twice; a mutex is locked exactly by the
  one thread that holds the socket or is in the locked part of a scan or a
  release; `inuse` is 1 for held sockets; with no call running and no socket
  held, every mutex is free and every `inuse` is 0.
-/

namespace Hiredispool.Threads

open Hiredispool.Pool

/-! ## What a thread has locked and marked -/

/-- The socket that the thread has locked in the scan or the release it is in. -/
def Pc.locks : Pc → List ℕ
  | .getLocked _ cur | .getUnlock _ cur | .getFound cur | .getReturn (some cur) => [cur]
  | .relClear p | .relUnlock p => [p]
  | _ => []

/-- The socket among `Pc.locks` whose `inuse` is 1. -/
def Pc.marks : Pc → List ℕ
  | .getFound cur | .getReturn (some cur) => [cur]
  | .relClear p => [p]
  | _ => []

/-- The held socket on which a command runs. -/
def Pc.target : Pc → Option ℕ
  | .cmdSend p _ | .cmdWait p _ _ | .cmdFree p _ _ | .cmdConnect p _ | .cmdReturn p _ => some p
  | _ => none

/-- All sockets that the thread has locked. -/
def Local.locks (l : Local) : List ℕ := l.pc.locks ++ l.held

/-- All sockets that the thread has locked and marked as in use. -/
def Local.marks (l : Local) : List ℕ := l.pc.marks ++ l.held

theorem Pc.marks_sublist (pc : Pc) : pc.marks.Sublist pc.locks := by
  unfold Pc.marks Pc.locks
  split <;> simp

theorem Local.marks_subset {l : Local} {p : ℕ} (h : p ∈ l.marks) : p ∈ l.locks :=
  ((Pc.marks_sublist l.pc).append_right l.held).subset h

theorem Local.held_subset {l : Local} {p : ℕ} (h : p ∈ l.held) : p ∈ l.locks :=
  List.mem_append_right _ h

/-- A socket that the thread has locked in its call is none that it holds. -/
theorem Local.not_mem_held {l : Local} {p : ℕ} (hnd : l.locks.Nodup) (hp : l.pc.locks = [p]) :
    p ∉ l.held := by
  rw [Local.locks, hp] at hnd
  exact (List.nodup_cons.mp hnd).1

@[simp] theorem getNext_locks (start cur : ℕ) (s : St) : (getNext start cur s).locks = [] := by
  unfold getNext; split <;> rfl
@[simp] theorem getNext_marks (start cur : ℕ) (s : St) : (getNext start cur s).marks = [] := by
  unfold getNext; split <;> rfl
@[simp] theorem getNext_target (start cur : ℕ) (s : St) : (getNext start cur s).target = none := by
  unfold getNext; split <;> rfl
@[simp] theorem onNoReply_locks (p : ℕ) (c : Option ℕ) (r : Request) :
    (onNoReply p c r).locks = [] := by unfold onNoReply; split <;> rfl
@[simp] theorem onNoReply_marks (p : ℕ) (c : Option ℕ) (r : Request) :
    (onNoReply p c r).marks = [] := by unfold onNoReply; split <;> rfl
@[simp] theorem onNoReply_target (p : ℕ) (c : Option ℕ) (r : Request) :
    (onNoReply p c r).target = some p := by unfold onNoReply; split <;> rfl

/-! ## What a step does to the mutexes -/

/-- The effect of a step of thread `t` on the mutexes and on its own list. -/
inductive LockEffect (t : ℕ) (s : St) (l : Local) (s' : St) (l' : Local) : Prop
  | keep : (∀ q, (s'.sock q).mutex = (s.sock q).mutex) → l'.locks.Perm l.locks →
      LockEffect t s l s' l'
  | acquire (start p : ℕ) : l.pc = .getTry start p → (s.sock p).mutex = none →
      (s'.sock p).mutex = some t → (∀ q, q ≠ p → s'.sock q = s.sock q) →
      l'.locks.Perm (p :: l.locks) → LockEffect t s l s' l'
  | release (p : ℕ) : (s'.sock p).mutex = none → (∀ q, q ≠ p → s'.sock q = s.sock q) →
      l.locks.Perm (p :: l'.locks) → LockEffect t s l s' l'

theorem LocalStep.lockEffect {env : Env} {t : ℕ} {s s' : St} {l l' : Local}
    (h : LocalStep env t s l s' l') : LockEffect t s l s' l' := by
  have keep : ∀ {s' l'}, (∀ q, (s'.sock q).mutex = (s.sock q).mutex) →
      l'.pc.locks = l.pc.locks → l'.held = l.held → LockEffect t s l s' l' :=
    fun h1 h2 h3 => .keep h1 (by rw [Local.locks, h2, h3]; rfl)
  cases h with
  | startEmpty hpc _ | start hpc _ | lastUsed hpc | send hpc _ _ | receive hpc _ | free hpc
  | cmdReturn hpc => exact keep (fun _ => rfl) (by rw [hpc]; rfl) rfl
  | sendFailed hpc _ | sendNull hpc _ | timeout hpc =>
    exact keep (fun _ => rfl) (by rw [hpc, onNoReply_locks]; rfl) rfl
  | busy hpc _ => exact keep (fun _ => rfl) (by rw [hpc, getNext_locks]; rfl) rfl
  | found hpc _ | skip hpc _ => exact keep (checkSocket_frame env _ s).mutex (by rw [hpc]; rfl) rfl
  | @getReturn r hpc =>
    refine .keep (fun _ => rfl) ?_
    rw [Local.locks, Local.locks, hpc]
    cases r <;> rfl
  | reconnected hpc _ | serverDown hpc _ =>
    exact keep (connectSingleSocket_spec env _ s).1.mutex (by rw [hpc]; rfl) rfl
  | @lock start cur hpc hm =>
    refine .acquire start cur hpc hm (by simp) (fun q hq => by simp [hq]) ?_
    rw [Local.locks, Local.locks, hpc]; rfl
  | @skipped start cur hpc =>
    refine .release cur (by simp [unlock]) (fun q hq => by simp [unlock, hq]) ?_
    rw [Local.locks, Local.locks, hpc, getNext_locks]; rfl
  | @clear p hpc =>
    refine keep (fun q => ?_) (by rw [hpc]; rfl) rfl
    by_cases hq : q = p <;> simp [setInuse, hq]
  | @released p hpc =>
    refine .release p (by simp [unlock]) (fun q hq => by simp [unlock, hq]) ?_
    rw [Local.locks, Local.locks, hpc]; rfl

theorem CallStep.lockEffect {t : ℕ} {s s' : St} {l l' : Local} {api : Api}
    (hidle : l.pc = .idle) (h : CallStep t s l api s' l') : LockEffect t s l s' l' := by
  have hl : l.locks = l.held := by rw [Local.locks, hidle]; rfl
  cases h with
  | get | vcommand _ => exact .keep (fun _ => rfl) (by rw [hl]; rfl)
  | releaseNull => exact .keep (fun _ => rfl) (by rw [hl, Local.locks, hidle]; rfl)
  | release hp => exact .keep (fun _ => rfl) (by rw [hl]; exact (List.perm_cons_erase hp).symm)

/-- A step of thread `t` at pool and thread level: a call, or a step inside one. -/
def ThreadStep (env : Env) (t : ℕ) (s : St) (l : Local) (s' : St) (l' : Local) : Prop :=
  (l.pc = .idle ∧ ∃ api, CallStep t s l api s' l') ∨ LocalStep env t s l s' l'

theorem ThreadStep.lockEffect {env : Env} {t : ℕ} {s s' : St} {l l' : Local}
    (h : ThreadStep env t s l s' l') : LockEffect t s l s' l' := by
  rcases h with ⟨hidle, api, h⟩ | h
  · exact h.lockEffect hidle
  · exact h.lockEffect

/-- A command runs on a held socket. -/
def Local.TargetHeld (l : Local) : Prop := ∀ p, l.pc.target = some p → p ∈ l.held

theorem ThreadStep.targetHeld {env : Env} {t : ℕ} {s s' : St} {l l' : Local}
    (h : ThreadStep env t s l s' l') (ht : l.TargetHeld) : l'.TargetHeld := by
  have keep : ∀ {l' : Local}, l'.pc.target = l.pc.target → l'.held = l.held → l'.TargetHeld :=
    fun h1 h2 p hp => by rw [h2]; exact ht p (h1 ▸ hp)
  have none : ∀ {l' : Local}, l'.pc.target = none → l'.TargetHeld :=
    fun h1 p hp => by rw [h1] at hp; cases hp
  rcases h with ⟨hidle, api, h⟩ | h
  · cases h with
    | get | release _ => exact none rfl
    | releaseNull => exact keep rfl rfl
    | vcommand hp => intro q hq; cases hq; exact hp
  · cases h with
    | startEmpty hpc _ | start hpc _ | lock hpc _ | found hpc _ | skip hpc _ | lastUsed hpc
    | getReturn hpc | cmdReturn hpc | clear hpc | released hpc => exact none rfl
    | busy _ _ | skipped _ => exact none (getNext_target _ _ _)
    | send hpc _ _ | receive hpc _ | free hpc | reconnected hpc _ | serverDown hpc _ =>
      exact keep (by rw [hpc]; rfl) rfl
    | sendFailed hpc _ | sendNull hpc _ | timeout hpc =>
      exact keep (by rw [hpc, onNoReply_target]; rfl) rfl

/-- A thread connects only the sockets that it has locked. -/
theorem ThreadStep.untouched {env : Env} {t : ℕ} {s s' : St} {l l' : Local}
    (h : ThreadStep env t s l s' l') (ht : l.TargetHeld) {q : ℕ} (hq : q ∉ l.locks) :
    (s'.sock q).conn = (s.sock q).conn ∧ (s'.sock q).state = (s.sock q).state := by
  have other : ∀ {s' : St}, s'.sock q = s.sock q →
      (s'.sock q).conn = (s.sock q).conn ∧ (s'.sock q).state = (s.sock q).state :=
    fun h => by rw [h]; exact ⟨rfl, rfl⟩
  rcases h with ⟨-, api, h⟩ | h
  · cases h <;> exact ⟨rfl, rfl⟩
  · cases h with
    | @lock _ cur _ _ => by_cases e : q = cur <;> simp [e]
    | @skipped _ cur _ => by_cases e : q = cur <;> simp [unlock, e]
    | @clear p _ => by_cases e : q = p <;> simp [setInuse, e]
    | @released p _ => by_cases e : q = p <;> simp [unlock, e]
    | @found _ cur hpc _ | @skip _ cur hpc _ =>
      have hne : q ≠ cur := fun e => hq (by simp [Local.locks, hpc, Pc.locks, e])
      exact other ((checkSocket_frame env cur s).other q hne)
    | @reconnected p _ hpc _ | @serverDown p _ hpc _ =>
      have hne : q ≠ p := fun e => hq (Local.held_subset (e ▸ ht p (by rw [hpc]; rfl)))
      exact other ((connectSingleSocket_spec env p s).1.other q hne)
    | _ => exact ⟨rfl, rfl⟩

/-! ## What a step does to `inuse` -/

/-- A step that sets `inuse` of the socket `cur`, which the thread has locked in its
    call, to what the mark after it says. -/
theorem Local.inuse_set {s s' : St} {l l' : Local} {cur : ℕ} {b : Bool} (hnd : l.locks.Nodup)
    (hin : ∀ q ∈ l.locks, (s.sock q).inuse = if q ∈ l.marks then 1 else 0)
    (hcur : l.pc.locks = [cur]) (hheld : l'.held = l.held)
    (hmark : l'.pc.marks = if b then [cur] else [])
    (hself : (s'.sock cur).inuse = if b then 1 else 0)
    (hother : ∀ q, q ≠ cur → s'.sock q = s.sock q) (q : ℕ) :
    (q ∈ l.locks → (s'.sock q).inuse = if q ∈ l'.marks then 1 else 0) ∧
      (q ∉ l.locks → (s'.sock q).inuse = (s.sock q).inuse ∧ q ∉ l'.marks) := by
  have hnot : cur ∉ l.held := l.not_mem_held hnd hcur
  have hlocks : q ∈ l.locks ↔ q = cur ∨ q ∈ l.held := by simp [Local.locks, hcur]
  have hnew : q ∈ l'.marks ↔ b = true ∧ q = cur ∨ q ∈ l.held := by
    rw [Local.marks, hmark, hheld]
    cases b <;> simp
  by_cases hq : q = cur
  · rw [hq] at hnew hlocks ⊢
    refine ⟨fun _ => ?_, fun hn => absurd (hlocks.mpr (Or.inl rfl)) hn⟩
    rw [hself]
    simp [hnew, hnot]
  · have hold : q ∈ l.marks ↔ q ∈ l.held := by
      refine ⟨fun hm => ?_, List.mem_append_right _⟩
      exact (hlocks.mp (Local.marks_subset hm)).resolve_left hq
    rw [hother q hq]
    refine ⟨fun hm => ?_, fun hm => ⟨rfl, fun hm' => hm (hlocks.mpr ?_)⟩⟩
    · rw [hin q hm]
      simp [hold, hnew, hq]
    · exact (hnew.mp hm').imp_left And.right

/-- A step that keeps the `inuse` and the mark of `q`. -/
theorem Local.inuse_keep {s s' : St} {l l' : Local} {q : ℕ}
    (hin : ∀ q ∈ l.locks, (s.sock q).inuse = if q ∈ l.marks then 1 else 0)
    (hs : (s'.sock q).inuse = (s.sock q).inuse) (hmark : q ∈ l'.marks ↔ q ∈ l.marks) :
    (q ∈ l.locks → (s'.sock q).inuse = if q ∈ l'.marks then 1 else 0) ∧
      (q ∉ l.locks → (s'.sock q).inuse = (s.sock q).inuse ∧ q ∉ l'.marks) := by
  constructor
  · intro hq
    rw [hs, hin q hq]
    simp only [hmark]
  · intro hq
    exact ⟨hs, fun hm => hq (Local.marks_subset (hmark.mp hm))⟩

/-- A step keeps `inuse` in line with the marks of thread `t`, given that it was
    for the sockets that `t` has locked; other sockets keep their `inuse`. -/
theorem ThreadStep.inuse {env : Env} {t : ℕ} {s s' : St} {l l' : Local}
    (h : ThreadStep env t s l s' l') (hnd : l.locks.Nodup)
    (hin : ∀ q ∈ l.locks, (s.sock q).inuse = if q ∈ l.marks then 1 else 0) (q : ℕ) :
    (q ∈ l.locks → (s'.sock q).inuse = if q ∈ l'.marks then 1 else 0) ∧
      (q ∉ l.locks → (s'.sock q).inuse = (s.sock q).inuse ∧ q ∉ l'.marks) := by
  have same : ∀ {s' : St} {l' : Local}, (s'.sock q).inuse = (s.sock q).inuse →
      l'.pc.marks = l.pc.marks → l'.held = l.held →
      (q ∈ l.locks → (s'.sock q).inuse = if q ∈ l'.marks then 1 else 0) ∧
        (q ∉ l.locks → (s'.sock q).inuse = (s.sock q).inuse ∧ q ∉ l'.marks) :=
    fun h1 h2 h3 => Local.inuse_keep hin h1 (by rw [Local.marks, Local.marks, h2, h3])
  rcases h with ⟨hidle, api, h⟩ | h
  · cases h with
    | get | vcommand _ => exact same rfl (by rw [hidle]; rfl) rfl
    | releaseNull => exact same rfl rfl rfl
    | release hp =>
      refine Local.inuse_keep hin rfl ?_
      rw [Local.marks, Local.marks, hidle]
      exact (List.perm_cons_erase hp).symm.mem_iff
  · cases h with
    | startEmpty hpc _ | start hpc _ | lastUsed hpc | send hpc _ _ | receive hpc _ | free hpc
    | cmdReturn hpc => exact same rfl (by rw [hpc]; rfl) rfl
    | sendFailed hpc _ | sendNull hpc _ | timeout hpc =>
      exact same rfl (by rw [hpc, onNoReply_marks]; rfl) rfl
    | busy hpc _ => exact same rfl (by rw [hpc, getNext_marks]; rfl) rfl
    | @getReturn r hpc =>
      refine Local.inuse_keep hin rfl ?_
      rw [Local.marks, Local.marks, hpc]
      cases r <;> exact Iff.rfl
    | @reconnected p r hpc _ | @serverDown p r hpc _ =>
      exact same ((connectSingleSocket_spec env p s).1.inuse q) (by rw [hpc]; rfl) rfl
    | @lock start cur hpc hm =>
      refine same ?_ (by rw [hpc]; rfl) rfl
      by_cases hq : q = cur <;> simp [hq]
    | @skipped start cur hpc =>
      refine same ?_ (by rw [hpc, getNext_marks]; rfl) rfl
      by_cases hq : q = cur <;> simp [unlock, hq]
    | @released p hpc =>
      refine same ?_ (by rw [hpc]; rfl) rfl
      by_cases hq : q = p <;> simp [unlock, hq]
    | @found start cur hpc hc | @skip start cur hpc hc =>
      -- here and in `clear` alone `inuse` is set
      have hlock : l.pc.locks = [cur] := by rw [hpc]; rfl
      have h0 : (s.sock cur).inuse = 0 := by
        have hmarks : l.marks = l.held := by rw [Local.marks, hpc]; rfl
        rw [hin cur (by simp [Local.locks, hlock]), hmarks, if_neg (l.not_mem_held hnd hlock)]
      refine Local.inuse_set hnd hin hlock (b := (checkSocket env cur s).2) ?_ ?_ ?_
        (checkSocket_frame env cur s).other q
      · rfl
      · rw [hc]; rfl
      · exact checkSocket_inuse env h0
    | @clear p hpc =>
      have hlock : l.pc.locks = [p] := by rw [hpc]; rfl
      refine Local.inuse_set hnd hin hlock (b := false) ?_ ?_ ?_ ?_ q
      · rfl
      · rfl
      · simp [setInuse]
      · intro r hr
        simp [setInuse, hr]

/-! ## The invariant -/

/-- Mutexes, `inuse` and the threads' own view agree. -/
structure Exclusive (s : Sys) : Prop where
  agree : LockTable.Agree (fun p => (s.st.sock p).mutex) fun t => (s.thr t).locks
  marked : ∀ t p, p ∈ (s.thr t).marks → (s.st.sock p).inuse = 1
  unmarked : ∀ p, (∀ t, p ∉ (s.thr t).marks) → (s.st.sock p).inuse = 0
  target : ∀ t, (s.thr t).TargetHeld

/-- The sockets that `t` has locked have `inuse` in line with its own marks. -/
theorem Exclusive.inuse_eq {s : Sys} (h : Exclusive s) {t q : ℕ} (hq : q ∈ (s.thr t).locks) :
    (s.st.sock q).inuse = if q ∈ (s.thr t).marks then 1 else 0 := by
  split
  · exact h.marked t q ‹_›
  · refine h.unmarked q fun u hu => ?_
    have := h.agree.unique (Local.marks_subset hu) hq
    subst this
    exact absurd hu ‹_›

/-- The agreement of mutexes and threads after a step of thread `t`. -/
theorem Exclusive.agree_put {s : Sys} (h : Exclusive s) {t : ℕ} {st : St} {l : Local}
    (he : LockEffect t s.st (s.thr t) st l) :
    LockTable.Agree (fun p => ((s.put t (st, l)).st.sock p).mutex)
      fun u => ((s.put t (st, l)).thr u).locks := by
  have hother : ∀ u, u ≠ t → ((s.put t (st, l)).thr u).locks = (s.thr u).locks :=
    fun u hu => by rw [Sys.put_thr_of_ne s t (st, l) hu]
  cases he with
  | keep hm hp => exact h.agree.keep hm (t := t) (by simpa using hp) hother
  | acquire start p _ hfree hp hm hl =>
    exact h.agree.acquire (r := p) (t := t) hfree hp (fun q hq => by simp [hm q hq])
      (by simpa using hl) hother
  | release p hp hm hl =>
    exact h.agree.release (r := p) (t := t) hp (fun q hq => by simp [hm q hq])
      (by simpa using hl) hother

theorem Exclusive.put {env : Env} {s : Sys} (h : Exclusive s) {t : ℕ} {st : St} {l : Local}
    (hs : ThreadStep env t s.st (s.thr t) st l) : Exclusive (s.put t (st, l)) := by
  have hin := hs.inuse (h.agree.nodup t) fun q hq => h.inuse_eq hq
  have hother : ∀ u, u ≠ t → (s.put t (st, l)).thr u = s.thr u :=
    fun u hu => Sys.put_thr_of_ne s t (st, l) hu
  refine ⟨h.agree_put hs.lockEffect, ?_, ?_, ?_⟩
  · intro u p hp
    by_cases hu : u = t
    · subst hu
      rw [Sys.put_thr_self] at hp
      by_cases hl : p ∈ (s.thr u).locks
      · simpa [hp] using (hin p).1 hl
      · exact absurd hp ((hin p).2 hl).2
    · rw [hother u hu] at hp
      have hl : p ∉ (s.thr t).locks :=
        fun hl => hu (h.agree.unique (Local.marks_subset hp) hl)
      rw [Sys.put_st, ((hin p).2 hl).1]
      exact h.marked u p hp
  · intro p hp
    have hpt : p ∉ l.marks := by simpa using hp t
    by_cases hl : p ∈ (s.thr t).locks
    · simpa [hpt] using (hin p).1 hl
    · rw [Sys.put_st, ((hin p).2 hl).1]
      refine h.unmarked p fun u => ?_
      by_cases hu : u = t
      · subst hu; exact fun hm => hl (Local.marks_subset hm)
      · have := hp u
        rwa [hother u hu] at this
  · intro u
    by_cases hu : u = t
    · subst hu; simpa using hs.targetHeld (h.target u)
    · rw [hother u hu]; exact h.target u

/-- Nothing is locked or in use before the first call. -/
theorem Exclusive.of_idle {s : Sys}
    (hfree : ∀ p, (s.st.sock p).mutex = none ∧ (s.st.sock p).inuse = 0)
    (hthr : ∀ t, s.thr t = Local.init) : Exclusive s := by
  refine ⟨⟨fun p t => ?_, fun t => ?_⟩, fun t p hp => ?_, fun p _ => (hfree p).2, fun t p hp => ?_⟩
  · simp [(hfree p).1, hthr t, Local.init, Local.locks, Pc.locks]
  · simp [hthr t, Local.init, Local.locks, Pc.locks]
  · simp [hthr t, Local.init, Local.marks, Pc.marks] at hp
  · simp [hthr t, Local.init, Pc.target] at hp

theorem Initial.exclusive {env : Env} {s : Sys} (h : Initial env s) : Exclusive s := by
  obtain ⟨⟨config, hc⟩, hthr⟩ := h
  exact .of_idle (redisPoolCreate_free hc) hthr

/-- A step of the system is a step of one thread or changes the world only. -/
theorem SysStep.cases {env : Env} {allow : Policy} {s s' : Sys} (h : SysStep env allow s s') :
    (∃ t st l, ThreadStep env t s.st (s.thr t) st l ∧ s' = s.put t (st, l)) ∨
      ∃ f, s' = s.outside f := by
  cases h with
  | call hidle _ h => exact Or.inl ⟨_, _, _, Or.inl ⟨hidle, _, h⟩, rfl⟩
  | step h => exact Or.inl ⟨_, _, _, Or.inr h, rfl⟩
  | serve c | drop c | lose c => exact Or.inr ⟨_, rfl⟩

theorem Exclusive.sysStep {env : Env} {allow : Policy} {s s' : Sys} (hx : Exclusive s)
    (h : SysStep env allow s s') : Exclusive s' := by
  rcases h.cases with ⟨t, st, l, hstep, rfl⟩ | ⟨f, rfl⟩
  · exact hx.put hstep
  · exact ⟨hx.agree, hx.marked, hx.unmarked, hx.target⟩

theorem exclusive_invariant (env : Env) (allow : Policy) : (machine env allow).Invariant Exclusive :=
  Lts.invariant_of_inductive (fun _ h => h.exclusive) fun _ _ _ ih h => ih.sysStep (.of_eq h)

/-! ## Main theorem -/

/-- **Mutual exclusion of the pool.** In every reachable state, whatever calls
    the threads make: no socket is held twice; the mutex of a socket is locked
    by `t` exactly when `t` holds the socket or is in the locked part of
    scanning or releasing it, so for one thread at most; `inuse` is 1 for held
    sockets; and with no call running and no socket held, nothing is locked and
    nothing is in use. -/
theorem mutual_exclusion (env : Env) (s : Sys) (hs : (machine env anyCall).Reachable s) :
    (∀ t, (s.thr t).held.Nodup) ∧
      (∀ t u p, p ∈ (s.thr t).held → p ∈ (s.thr u).held → t = u) ∧
      (∀ t p, (s.st.sock p).mutex = some t ↔ p ∈ (s.thr t).held ∨ p ∈ (s.thr t).pc.locks) ∧
      (∀ t p, p ∈ (s.thr t).held → p ∉ (s.thr t).pc.locks) ∧
      (∀ t p, p ∈ (s.thr t).held → (s.st.sock p).inuse = 1) ∧
      ((∀ t, (s.thr t).pc = .idle ∧ (s.thr t).held = []) →
        ∀ p, (s.st.sock p).mutex = none ∧ (s.st.sock p).inuse = 0) := by
  have h := exclusive_invariant env anyCall s hs
  have hnd := fun t => List.nodup_append.mp (h.agree.nodup t)
  refine ⟨fun t => (hnd t).2.1,
    fun t u p ht hu => h.agree.unique (Local.held_subset ht) (Local.held_subset hu),
    fun t p => ?_, fun t p hp hl => (hnd t).2.2 p hl p hp rfl,
    fun t p hp => h.marked t p (List.mem_append_right _ hp), fun hidle p => ⟨?_, ?_⟩⟩
  · rw [h.agree.owner_iff, Local.locks, List.mem_append, or_comm]
  · refine h.agree.free_iff.mpr fun t => ?_
    simp [Local.locks, hidle t, Pc.locks]
  · refine h.unmarked p fun t => ?_
    simp [Local.marks, hidle t, Pc.marks]

/-- Thread 0 holds socket 1, and thread 1 has locked socket 0 in its scan. -/
theorem mutual_exclusion_two : ∃ s, (machine .good anyCall).Reachable s ∧
    (s.thr 0).held = [1] ∧ (s.st.sock 1).inuse = 1 ∧ (s.st.sock 1).mutex = some 0 ∧
    (s.thr 1).pc.locks = [0] ∧ (s.st.sock 0).mutex = some 1 := by
  obtain ⟨s, hs, hp⟩ := exists_of_replay .good anyCall (.single 2 5)
    [.call 0 .get, .step 0 true, .step 0 true, .step 0 true, .step 0 true, .step 0 true,
      .call 1 .get, .step 1 true, .step 1 true]
    (fun s => (s.thr 0).held = [1] ∧ (s.thr 1).pc.locks = [0]) (by decide +kernel)
  obtain ⟨hheld, hscan⟩ := of_decide_eq_true hp
  obtain ⟨-, -, hlocked, -, hin, -⟩ := mutual_exclusion _ s hs
  exact ⟨s, hs, hheld, hin 0 1 (by simp [hheld]), (hlocked 0 1).mpr (Or.inl (by simp [hheld])),
    hscan, (hlocked 1 0).mpr (Or.inr (by simp [hscan]))⟩

end Hiredispool.Threads
