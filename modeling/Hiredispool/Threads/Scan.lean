import Hiredispool.Threads.Exclusion

/-!
# Scans stay in the list

The list of sockets is never relinked, `last_used` always points into it, and a
scan walks it in the order of `Ring.after` until it is back at its start.

* `inList_invariant`: this holds in every reachable state, for every policy.
* `getNext_eq`: where a scan goes after a socket.
-/

namespace Hiredispool.Threads

open Hiredispool.Pool

/-- Start and current socket of a scan. -/
def Pc.scan : Pc → Option (ℕ × ℕ)
  | .getTry start cur | .getLocked start cur | .getUnlock start cur => some (start, cur)
  | _ => none

/-- The sockets that a thread works with are among the first `N`. -/
structure Local.InList (N : ℕ) (l : Local) : Prop where
  scan : ∀ start cur, l.pc.scan = some (start, cur) → start < N ∧ cur < N
  locks : ∀ p ∈ l.locks, p < N

/-- The list is linked, and all threads stay inside of it. -/
structure InList (s : Sys) : Prop where
  linked : Linked s.st
  thread : ∀ t, (s.thr t).InList s.st.numSocks

theorem getNext_eq {s : St} (h : Linked s) {start cur : ℕ} (hc : cur < s.numSocks) :
    getNext start cur s =
      if Ring.after s.numSocks cur = start then .getReturn none
      else .getTry start (Ring.after s.numSocks cur) := by
  unfold getNext
  rw [nextSocket_eq h hc]
  split_ifs <;> rfl

/-- What a step does to the list: only the write of line 407 changes `last_used`. -/
structure ListFrame (s : St) (l : Local) (s' : St) : Prop where
  config : s'.config = s.config
  redisPool : s'.redisPool = s.redisPool
  next : ∀ q, (s'.sock q).next = (s.sock q).next
  lastUsed : s'.lastUsed = s.lastUsed ∨
    ∃ cur, l.pc = .getFound cur ∧ s'.lastUsed = (s.sock cur).next

theorem ListFrame.of_checkFrame {cur : ℕ} {s s' : St} {l : Local} (h : CheckFrame cur s s') :
    ListFrame s l s' :=
  ⟨h.config, h.redisPool, h.next, Or.inl h.lastUsed⟩

/-- A write to a socket, and to the world. -/
theorem ListFrame.of_setSock {p : ℕ} {s : St} {l : Local} {w : World}
    (f : RedisSocket → RedisSocket) (hf : ∀ r, (f r).next = r.next) :
    ListFrame s l { s.setSock p f with world := w } :=
  ⟨rfl, rfl, fun q => by by_cases hq : q = p <;> simp [hq, hf], Or.inl rfl⟩

theorem LocalStep.listFrame {env : Env} {t : ℕ} {s s' : St} {l l' : Local}
    (h : LocalStep env t s l s' l') : ListFrame s l s' := by
  cases h with
  | @lock _ cur _ _ => exact .of_setSock (p := cur) (fun r => { r with mutex := some t }) fun _ => rfl
  | @skipped _ cur _ => exact .of_setSock (p := cur) (fun r => { r with mutex := none }) fun _ => rfl
  | @clear p _ => exact .of_setSock (p := p) (fun r => { r with inuse := 0 }) fun _ => rfl
  | @released p _ => exact .of_setSock (p := p) (fun r => { r with mutex := none }) fun _ => rfl
  | found _ _ => exact .of_checkFrame (checkSocket_frame env _ s)
  | skip _ _ => exact .of_checkFrame (checkSocket_frame env _ s)
  | reconnected _ _ => exact .of_checkFrame (.of_sockFrame (connectSingleSocket_spec env _ s).1)
  | serverDown _ _ => exact .of_checkFrame (.of_sockFrame (connectSingleSocket_spec env _ s).1)
  | @lastUsed cur hpc => exact ⟨rfl, rfl, fun _ => rfl, Or.inr ⟨cur, hpc, rfl⟩⟩
  | _ => exact ⟨rfl, rfl, fun _ => rfl, Or.inl rfl⟩

theorem CallStep.listFrame {t : ℕ} {s s' : St} {l l' : Local} {api : Api}
    (h : CallStep t s l api s' l') : ListFrame s l s' := by
  cases h <;> exact ⟨rfl, rfl, fun _ => rfl, Or.inl rfl⟩

theorem ThreadStep.listFrame {env : Env} {t : ℕ} {s s' : St} {l l' : Local}
    (h : ThreadStep env t s l s' l') : ListFrame s l s' := by
  rcases h with ⟨-, api, h⟩ | h
  · exact h.listFrame
  · exact h.listFrame

theorem ListFrame.numSocks {s s' : St} {l : Local} (h : ListFrame s l s') :
    s'.numSocks = s.numSocks := by
  simp [St.numSocks, h.config]

theorem ListFrame.linked {s s' : St} {l : Local} (h : ListFrame s l s') (hl : Linked s)
    (hloc : l.InList s.numSocks) : Linked s' := by
  refine hl.congr h.config h.redisPool h.next fun p hp => ?_
  rcases h.lastUsed with e | ⟨cur, hpc, e⟩
  · exact hl.lastUsed p (e ▸ hp)
  · have hcur : cur < s.numSocks := hloc.locks cur (by simp [Local.locks, hpc, Pc.locks])
    rw [e, hl.next cur hcur] at hp
    split at hp
    · cases hp
    · cases hp; omega

theorem getNext_inList {s : St} (h : Linked s) {start cur : ℕ} (hs : start < s.numSocks)
    (hc : cur < s.numSocks) {a b : ℕ} (hn : (getNext start cur s).scan = some (a, b)) :
    a < s.numSocks ∧ b < s.numSocks := by
  rw [getNext_eq h hc] at hn
  split at hn
  · cases hn
  · cases hn; exact ⟨hs, Ring.after_lt hc⟩

/-- A step locks the socket that the scan is at, or none. -/
theorem ThreadStep.locks_lt {env : Env} {t N : ℕ} {s s' : St} {l l' : Local}
    (h : ThreadStep env t s l s' l') (hloc : l.InList N) : ∀ p ∈ l'.locks, p < N := by
  intro p hp
  cases h.lockEffect with
  | keep _ hperm => exact hloc.locks p (hperm.mem_iff.mp hp)
  | release q _ _ hperm => exact hloc.locks p (hperm.mem_iff.mpr (List.mem_cons_of_mem q hp))
  | acquire start q hpc _ _ _ hperm =>
    rcases List.mem_cons.mp (hperm.mem_iff.mp hp) with rfl | hp
    · exact (hloc.scan start p (by rw [hpc]; rfl)).2
    · exact hloc.locks p hp

/-- A step keeps the scan of its thread inside of the list. -/
theorem ThreadStep.scan_lt {env : Env} {t : ℕ} {s s' : St} {l l' : Local}
    (h : ThreadStep env t s l s' l') (hl : Linked s) (hl' : Linked s')
    (hloc : l.InList s.numSocks) {a b : ℕ} (hab : l'.pc.scan = some (a, b)) :
    a < s.numSocks ∧ b < s.numSocks := by
  have hN := h.listFrame.numSocks
  rcases h with ⟨hidle, api, h⟩ | h
  · cases h with
    | get | vcommand _ | release _ => cases hab
    | releaseNull => rw [hidle] at hab; cases hab
  · cases h with
    | start hpc hs => cases hab; exact ⟨scanStart_lt hl hs, scanStart_lt hl hs⟩
    | lock hpc _ | skip hpc _ => exact hloc.scan a b (by rw [hpc]; exact hab)
    | busy hpc _ | skipped hpc =>
      obtain ⟨h1, h2⟩ := hloc.scan _ _ (by rw [hpc]; rfl)
      rw [← hN] at h1 h2 ⊢
      exact getNext_inList hl' h1 h2 hab
    | sendFailed _ _ | sendNull _ _ | timeout _ =>
      simp only [onNoReply] at hab
      split at hab <;> cases hab
    | _ => cases hab

theorem InList.put {env : Env} {s : Sys} (h : InList s) {t : ℕ} {st : St} {l : Local}
    (hs : ThreadStep env t s.st (s.thr t) st l) : InList (s.put t (st, l)) := by
  have hl' : Linked st := hs.listFrame.linked h.linked (h.thread t)
  refine ⟨hl', fun u => ?_⟩
  rw [Sys.put_st, hs.listFrame.numSocks]
  by_cases hu : u = t
  · subst hu
    rw [Sys.put_thr_self]
    exact ⟨fun a b => hs.scan_lt h.linked hl' (h.thread u), hs.locks_lt (h.thread u)⟩
  · rw [Sys.put_thr_of_ne s t (st, l) hu]; exact h.thread u

theorem inList_invariant (env : Env) (allow : Policy) : (machine env allow).Invariant InList := by
  refine Lts.invariant_of_inductive (fun s h => ?_) fun s a s' ih h => ?_
  · obtain ⟨⟨config, hc⟩, hthr⟩ := h
    refine ⟨redisPoolCreate_linked hc, fun t => ⟨fun a b hab => ?_, fun p hp => ?_⟩⟩
    · rw [hthr t] at hab; cases hab
    · rw [hthr t] at hp; cases hp
  · rcases (SysStep.of_eq h).cases with ⟨t, st, l, hstep, rfl⟩ | ⟨f, rfl⟩
    · exact ih.put hstep
    · exact ⟨ih.linked.congr rfl rfl (fun _ => rfl) ih.linked.lastUsed, ih.thread⟩

end Hiredispool.Threads
