import Mathlib.Data.Finset.Card
import Mathlib.Data.Finset.Range
import Hiredispool.Threads.Exclusion
import Hiredispool.Threads.Scan

/-!
# A pool with a socket for every thread

A pool of connected sockets is used by no more threads than it has sockets, and
each thread holds one socket at most. Then some socket is free whenever a scan
is under way, but not always one that the scan has still to visit: it can be
released behind the scan while another one is locked in front of it.

* `scan_misses`: so `redis_get_socket` can return NULL.
* `Orderly`: whoever locks a socket leaves a free one ahead of every other scan.
* `sized_pool_serves`: in runs of orderly steps no call returns NULL; and after
  any other step a scan that runs on alone returns NULL.
-/

namespace Hiredispool.Threads

open Hiredispool.Pool

/-! ## The runs -/

/-- Sockets are got and released, one at a time by each thread. -/
def oneSocket : Policy := fun _ l api =>
  match api with
  | .get => l.held = []
  | .vcommand _ _ => false
  | .release _ => true

/-- The action is one of the first `T` threads, or happens outside. -/
def Action.within (T : ℕ) : Action → Bool
  | .call t _ | .step t _ => t < T
  | _ => true

/-- No call is running and no socket is held; all sockets are connected, and
    there are at least `T` of them. -/
structure Quiet (env : Env) (T : ℕ) (s : Sys) : Prop where
  reachable : (machine env anyCall).Reachable s
  idle : ∀ t, (s.thr t).pc = .idle ∧ (s.thr t).held = []
  connected : ∀ p, p < s.st.numSocks → (s.st.sock p).state = .sockconnected
  size : T ≤ s.st.numSocks

/-- `T` threads on a pool of at least `T` connected sockets. -/
def sized (env : Env) (T : ℕ) : Lts Sys Action where
  init := Quiet env T
  step s a := if a.within T then sysStep env oneSocket s a else none

theorem sized_step {env : Env} {T : ℕ} {s s' : Sys} {a : Action}
    (h : (sized env T).step s a = some s') :
    a.within T = true ∧ (machine env oneSocket).step s a = some s' := by
  simp only [sized] at h
  split at h
  · exact ⟨‹_›, h⟩
  · cases h

/-- These are runs of the threads on a pool. -/
theorem sized_reachable (env : Env) (T : ℕ) :
    (sized env T).Invariant fun s => (machine env anyCall).Reachable s := by
  refine Lts.invariant_of_inductive (fun s h => h.reachable) fun s a s' ih h => ih.step (l := a) ?_
  have hstep := (sized_step h).2
  cases a with
  | call t api =>
    simp only [machine, sysStep, anyCall] at hstep ⊢
    split at hstep
    · exact (if_pos ⟨‹_ ∧ _›.1, trivial⟩).trans hstep
    · cases hstep
  | _ => exact hstep

/-- A free socket that a scan from `start` will still try, from `cur` on. -/
def FreeAhead (s : St) (start cur p : ℕ) : Prop :=
  p < s.numSocks ∧ Ring.hops s.numSocks start cur ≤ Ring.hops s.numSocks start p ∧
    (s.sock p).mutex = none

/-- Whoever locks a socket leaves a free one ahead of every other scan. -/
def Orderly (s : Sys) : Action → Prop
  | .step v _ => ∀ first q, (s.thr v).pc = .getTry first q → (s.st.sock q).mutex = none →
      ∀ t start cur, t ≠ v → (s.thr t).pc = .getTry start cur →
        ∃ p, p ≠ q ∧ FreeAhead s.st start cur p
  | _ => True

/-! ## The invariant -/

/-- A thread of these runs: one socket at most, none while it gets one, and a
    scan that neither skips a socket it has locked nor ends with nothing. -/
def Local.Single (l : Local) : Prop :=
  match l.pc with
  | .idle => l.held.length ≤ 1
  | .getStart | .getTry _ _ | .getLocked _ _ | .getFound _ | .getReturn (some _)
  | .relClear _ | .relUnlock _ => l.held = []
  | _ => False

theorem Local.Single.locks_length {l : Local} (h : l.Single) : l.locks.length ≤ 1 := by
  unfold Local.Single at h
  unfold Local.locks
  split at h <;> simp_all [Pc.locks]

/-- In a call the thread has no socket. -/
theorem Local.Single.held_eq_nil {l : Local} (h : l.Single) (hpc : l.pc ≠ .idle) : l.held = [] := by
  unfold Local.Single at h
  split at h
  · exact absurd ‹_› hpc
  all_goals first | exact h | exact h.elim

/-- What the orderly runs keep. -/
structure Sized (T : ℕ) (s : Sys) : Prop where
  connected : ∀ p, p < s.st.numSocks → (s.st.sock p).state = .sockconnected
  size : T ≤ s.st.numSocks
  out : ∀ t, T ≤ t → (s.thr t).pc = .idle ∧ (s.thr t).held = []
  single : ∀ t, (s.thr t).Single
  ahead : ∀ t start cur, (s.thr t).pc = .getTry start cur → ∃ p, FreeAhead s.st start cur p

theorem Sized.lt {T : ℕ} {s : Sys} (h : Sized T s) {t : ℕ} (hpc : (s.thr t).pc ≠ .idle) : t < T :=
  not_le.mp fun hle => hpc (h.out t hle).1

/-- While a thread has nothing locked in a call, some socket is free. -/
theorem Sized.exists_free {T : ℕ} {s : Sys} (h : Sized T s) (hx : Exclusive s) {t : ℕ}
    (ht : t < T) (hlocks : (s.thr t).locks = []) :
    ∃ p, p < s.st.numSocks ∧ (s.st.sock p).mutex = none := by
  have hcard : ((Finset.range T).erase t).card < (Finset.range s.st.numSocks).card := by
    rw [Finset.card_erase_of_mem (Finset.mem_range.mpr ht), Finset.card_range, Finset.card_range]
    have := h.size
    omega
  have hout : ∀ u, u ∉ (Finset.range T).erase t → (s.thr u).locks = [] := by
    intro u hu
    by_cases hut : u = t
    · rw [hut]; exact hlocks
    · have hle : T ≤ u := by
        by_contra hlt
        exact hu (Finset.mem_erase.mpr ⟨hut, Finset.mem_range.mpr (not_le.mp hlt)⟩)
      obtain ⟨hidle, hheld⟩ := h.out u hle
      rw [Local.locks, hidle, hheld]; rfl
  obtain ⟨p, hp, hfree⟩ :=
    hx.agree.exists_free _ _ hcard (fun u => (h.single u).locks_length) hout
  exact ⟨p, Finset.mem_range.mp hp, hfree⟩

/-- The scan of `t` after it has found `cur` locked: a free socket that was ahead
    still is, so it is not the end of the scan. -/
theorem FreeAhead.next {s : St} (hl : Linked s) {start cur p : ℕ} (hs : start < s.numSocks)
    (hc : cur < s.numSocks) (h : FreeAhead s start cur p) (hlocked : (s.sock cur).mutex ≠ none) :
    getNext start cur s = .getTry start (Ring.after s.numSocks cur) ∧
      FreeAhead s start (Ring.after s.numSocks cur) p := by
  obtain ⟨hp, hle, hfree⟩ := h
  have hne : p ≠ cur := fun e => hlocked (e ▸ hfree)
  have hlt : Ring.hops s.numSocks start cur < Ring.hops s.numSocks start p :=
    lt_of_le_of_ne hle fun e => hne (Ring.hops_inj hp hc e.symm)
  have hback : Ring.after s.numSocks cur ≠ start := by
    intro e
    have h1 := Ring.hops_last hs hc e
    have h2 := Ring.hops_lt hs hp
    omega
  rw [getNext_eq hl hc, if_neg hback]
  refine ⟨rfl, hp, ?_, hfree⟩
  rw [Ring.hops_after hs hc hback]
  exact hlt

/-- A socket that a scan has locked is connected and not in use, so it is taken. -/
theorem Sized.checkSocket {env : Env} {T : ℕ} {s : Sys} (h : Sized T s) (hx : Exclusive s)
    (hi : InList s) {t start cur : ℕ} (hpc : (s.thr t).pc = .getLocked start cur) :
    checkSocket env cur s.st = (setInuse cur 1 s.st, true) := by
  have hheld : (s.thr t).held = [] := by simpa [Local.Single, hpc] using h.single t
  have hlocks : cur ∈ (s.thr t).locks := by simp [Local.locks, hpc, Pc.locks]
  have hin : (s.st.sock cur).inuse = 0 := by
    rw [hx.inuse_eq hlocks]; simp [Local.marks, hpc, hheld, Pc.marks]
  have hst := h.connected cur ((hi.thread t).locks cur hlocks)
  rcases checkSocket_cases env cur s.st with ⟨h1, -⟩ | ⟨-, -, e⟩ | ⟨-, h1, -⟩
  · omega
  · exact e
  · rw [hst] at h1; cases h1

/-- One step of a thread: the states of the sockets do not change, the thread
    stays `Single`, and there is a free socket ahead of its scan. -/
theorem Sized.localStep {env : Env} {T : ℕ} {s : Sys} (h : Sized T s) (hx : Exclusive s)
    (hi : InList s) {t : ℕ} {st : St} {l : Local} (hs : LocalStep env t s.st (s.thr t) st l) :
    (∀ p, (st.sock p).state = (s.st.sock p).state) ∧ l.Single ∧
      ∀ start cur, l.pc = .getTry start cur → ∃ p, FreeAhead st start cur p := by
  have hsingle := h.single t
  have hheld : (s.thr t).held = [] := hsingle.held_eq_nil hs.pc_ne_idle
  have ht : t < T := h.lt hs.pc_ne_idle
  cases hs with
  | startEmpty hpc hstart =>
    -- not in a pool that has sockets
    obtain ⟨p, hp⟩ := scanStart_isSome hi.linked (lt_of_lt_of_le (Nat.zero_lt_of_lt ht) h.size)
    rw [hstart] at hp; cases hp
  | @start first hpc hstart =>
    have hlocks : (s.thr t).locks = [] := by rw [Local.locks, hpc, hheld]; rfl
    refine ⟨fun _ => rfl, hheld, fun start cur hgoal => ?_⟩
    obtain ⟨rfl, rfl⟩ : first = start ∧ first = cur := by simpa using hgoal
    obtain ⟨p, hp, hfree⟩ := h.exists_free hx ht hlocks
    exact ⟨p, hp, by rw [Ring.hops_self]; exact Nat.zero_le _, hfree⟩
  | @lock start cur hpc hm =>
    refine ⟨fun p => ?_, hheld, fun _ _ hgoal => by cases hgoal⟩
    by_cases hp : p = cur <;> simp [hp]
  | @busy start cur u hpc hm =>
    obtain ⟨h1, h2⟩ := (hi.thread t).scan start cur (by rw [hpc]; rfl)
    obtain ⟨p, hp⟩ := h.ahead t start cur hpc
    have hlocked : (s.st.sock cur).mutex ≠ none := by rw [hm]; simp
    have hp' : FreeAhead (s.st.log (.trylock t cur false)) start cur p := hp
    obtain ⟨hnext, hahead⟩ := hp'.next (hi.linked.log _) h1 h2 hlocked
    rw [hnext]
    refine ⟨fun _ => rfl, hheld, fun start' cur' hgoal => ?_⟩
    cases hgoal
    exact ⟨p, hahead⟩
  | @found start cur hpc hc =>
    rw [h.checkSocket hx hi hpc]
    refine ⟨fun p => ?_, hheld, fun _ _ hgoal => by cases hgoal⟩
    by_cases hp : p = cur <;> simp [setInuse, hp]
  | @skip start cur hpc hc =>
    rw [h.checkSocket hx hi hpc] at hc
    cases hc
  | lastUsed hpc =>
    exact ⟨fun _ => rfl, hheld, fun _ _ hgoal => by cases hgoal⟩
  | @getReturn r hpc =>
    cases r with
    | none => simp [Local.Single, hpc] at hsingle
    | some p =>
      exact ⟨fun _ => rfl, by simp [Local.Single, hheld], fun _ _ hgoal => by cases hgoal⟩
  | @clear p hpc =>
    refine ⟨fun q => ?_, hheld, fun _ _ hgoal => by cases hgoal⟩
    by_cases hq : q = p <;> simp [setInuse, hq]
  | @released p hpc =>
    refine ⟨fun q => ?_, by simp [Local.Single, hheld], fun _ _ hgoal => by cases hgoal⟩
    by_cases hq : q = p <;> simp [unlock, hq]
  | _ => simp_all [Local.Single]

/-- The start of a call by a thread of these runs. -/
theorem Local.Single.call {t : ℕ} {s st : St} {l l' : Local} {api : Api} (h : l.Single)
    (hidle : l.pc = .idle) (hallow : oneSocket s l api = true) (hc : CallStep t s l api st l') :
    st.sock = s.sock ∧ st.numSocks = s.numSocks ∧ l'.Single ∧
      ∀ start cur, l'.pc ≠ .getTry start cur := by
  have hlen : l.held.length ≤ 1 := by simpa [Local.Single, hidle] using h
  cases hc with
  | get =>
    have hheld : l.held = [] := by simpa [oneSocket] using hallow
    exact ⟨rfl, rfl, hheld, fun _ _ => by simp⟩
  | vcommand _ => cases hallow
  | releaseNull => exact ⟨rfl, rfl, by simpa [Local.Single, hidle] using hlen, by simp [hidle]⟩
  | @release p hp =>
    refine ⟨rfl, rfl, List.length_eq_zero_iff.mp ?_, fun _ _ => by simp⟩
    show (l.held.erase p).length = 0
    rw [List.length_erase_of_mem hp]
    omega

/-- A free socket ahead of the scan of another thread, after an orderly step of `v`. -/
theorem FreeAhead.other {s st : St} {v start cur p : ℕ} {l l' : Local}
    (h : FreeAhead s start cur p) (hN : st.numSocks = s.numSocks) (he : LockEffect v s l st l')
    (hC : ∀ first q, l.pc = .getTry first q → (s.sock q).mutex = none →
      ∃ p, p ≠ q ∧ FreeAhead s start cur p) : ∃ p, FreeAhead st start cur p := by
  cases he with
  | keep hm _ => exact ⟨p, hN ▸ h.1, hN ▸ h.2.1, (hm p).trans h.2.2⟩
  | acquire first q hpc hfree _ hm _ =>
    obtain ⟨p', hne, h1, h2, h3⟩ := hC first q hpc hfree
    exact ⟨p', hN ▸ h1, hN ▸ h2, by rw [hm p' hne]; exact h3⟩
  | release q hq hm _ =>
    refine ⟨p, hN ▸ h.1, hN ▸ h.2.1, ?_⟩
    by_cases hp : p = q
    · rw [hp]; exact hq
    · rw [hm p hp]; exact h.2.2

theorem Sized.put {T : ℕ} {s : Sys} (h : Sized T s) {t : ℕ} (ht : t < T) {st : St} {l : Local}
    (hN : st.numSocks = s.st.numSocks) (hstate : ∀ p, (st.sock p).state = (s.st.sock p).state)
    (hsingle : l.Single)
    (hown : ∀ start cur, l.pc = .getTry start cur → ∃ p, FreeAhead st start cur p)
    (hother : ∀ u start cur, u ≠ t → (s.thr u).pc = .getTry start cur →
      ∃ p, FreeAhead st start cur p) : Sized T (s.put t (st, l)) := by
  refine ⟨fun p hp => ?_, ?_, fun u hu => ?_, fun u => ?_, fun u start cur hpc => ?_⟩
  · rw [Sys.put_st, hN] at hp
    rw [Sys.put_st, hstate p]
    exact h.connected p hp
  · rw [Sys.put_st, hN]; exact h.size
  · rw [Sys.put_thr_of_ne s t (st, l) (by omega)]; exact h.out u hu
  · by_cases hut : u = t
    · subst hut; rw [Sys.put_thr_self]; exact hsingle
    · rw [Sys.put_thr_of_ne s t (st, l) hut]; exact h.single u
  · by_cases hut : u = t
    · subst hut; rw [Sys.put_thr_self] at hpc; exact hown start cur hpc
    · rw [Sys.put_thr_of_ne s t (st, l) hut] at hpc; exact hother u start cur hut hpc

/-- An orderly step keeps a free socket ahead of every scan. -/
theorem Sized.step {env : Env} {T : ℕ} {s s' : Sys} (h : Sized T s) (hx : Exclusive s)
    (hi : InList s) {a : Action} (hC : Orderly s a) (hs : (sized env T).step s a = some s') :
    Sized T s' := by
  obtain ⟨hwithin, hstep⟩ := sized_step hs
  cases a with
  | call t api =>
    simp only [machine, sysStep] at hstep
    split at hstep
    · rename_i hcall
      obtain ⟨⟨st, l⟩, hcs, rfl⟩ := Option.map_eq_some_iff.mp hstep
      obtain ⟨hsock, hN, hsingle, hpc⟩ := (h.single t).call hcall.1 hcall.2 (.of_eq hcs)
      refine h.put (of_decide_eq_true hwithin) hN (fun p => by rw [hsock]) hsingle
        (fun start cur e => absurd e (hpc start cur)) fun u start cur _ hu => ?_
      obtain ⟨p, h1, h2, h3⟩ := h.ahead u start cur hu
      exact ⟨p, hN ▸ h1, hN ▸ h2, by rw [hsock]; exact h3⟩
    · cases hstep
  | step t io =>
    obtain ⟨⟨st, l⟩, hls, rfl⟩ := Option.map_eq_some_iff.mp hstep
    have hls : LocalStep env t s.st (s.thr t) st l := .of_eq hls
    have hN : st.numSocks = s.st.numSocks := hls.listFrame.numSocks
    obtain ⟨hstate, hsingle, hown⟩ := h.localStep hx hi hls
    refine h.put (of_decide_eq_true hwithin) hN hstate hsingle hown fun u start cur hut hu => ?_
    obtain ⟨p, hp⟩ := h.ahead u start cur hu
    exact hp.other hN hls.lockEffect fun first q hpc hfree => hC first q hpc hfree u start cur hut hu
  | _ => cases hstep; exact ⟨h.connected, h.size, h.out, h.single, h.ahead⟩

theorem Quiet.sized {env : Env} {T : ℕ} {s : Sys} (h : Quiet env T s) : Sized T s := by
  refine ⟨h.connected, h.size, fun t _ => h.idle t, fun t => ?_, fun t start cur hpc => ?_⟩
  · simp [Local.Single, (h.idle t).1, (h.idle t).2]
  · rw [(h.idle t).1] at hpc; cases hpc

theorem sized_of_orderly {env : Env} {T : ℕ} {s : Sys}
    (hs : (sized env T).ReachableUnder Orderly s) : Sized T s := by
  refine hs.induction_with (sized_reachable env T) (fun s h _ => h.sized)
    fun s a s' hr _ ih hC hstep => ?_
  exact ih.step (exclusive_invariant env _ s hr) (inList_invariant env _ s hr) hC hstep

/-! ## A scan with nothing free ahead -/

/-- By induction on the sockets left: a scan that runs on alone, with nothing
    free ahead, ends with NULL. -/
theorem scan_exhausted {env : Env} {T t start : ℕ} (ht : t < T) : ∀ (left cur : ℕ) (s : Sys),
    Linked s.st → start < s.st.numSocks → cur < s.st.numSocks →
    Ring.hops s.st.numSocks start cur + left = s.st.numSocks →
    (s.thr t).pc = .getTry start cur → (∀ p, ¬ FreeAhead s.st start cur p) →
    ∃ s', (sized env T).Steps s s' ∧ (s'.thr t).pc = .getReturn none := by
  intro left
  induction left with
  | zero =>
    intro cur s _ hs hc hleft _ _
    have := Ring.hops_lt hs hc
    omega
  | succ left ih =>
    intro cur s hl hs hc hleft hpc hnone
    -- `cur` is locked, so the scan moves on
    obtain ⟨u, hu⟩ : ∃ u, (s.st.sock cur).mutex = some u :=
      Option.ne_none_iff_exists'.mp fun hfree => hnone cur ⟨hc, le_rfl, hfree⟩
    let s₁ : Sys := s.put t (s.st.log (.trylock t cur false),
      { s.thr t with pc := getNext start cur (s.st.log (.trylock t cur false)) })
    have hstep : (sized env T).Steps s s₁ := by
      refine Lts.Steps.single (l := .step t true) ?_
      simp [sized, Action.within, ht, sysStep, localStep, hpc, tryLock, hu, s₁]
    have hpc₁ : (s₁.thr t).pc = getNext start cur (s.st.log (.trylock t cur false)) := by simp [s₁]
    rw [getNext_eq (hl.log _) hc] at hpc₁
    by_cases hback : Ring.after s.st.numSocks cur = start
    · exact ⟨s₁, hstep, hpc₁.trans (if_pos hback)⟩
    · have hhops := Ring.hops_after hs hc hback
      have hleft₁ : Ring.hops s.st.numSocks start (Ring.after s.st.numSocks cur) + left =
          s.st.numSocks := by omega
      have hnone₁ : ∀ p, ¬ FreeAhead s₁.st start (Ring.after s.st.numSocks cur) p := by
        rintro p ⟨h1, h2, h3⟩
        have hle : Ring.hops s.st.numSocks start (Ring.after s.st.numSocks cur) ≤
            Ring.hops s.st.numSocks start p := h2
        exact hnone p ⟨h1, by omega, h3⟩
      obtain ⟨s', hrun, hend⟩ := ih _ s₁ (hl.log _) hs (Ring.after_lt hc) hleft₁
        (hpc₁.trans (if_neg hback)) hnone₁
      exact ⟨s', hstep.trans hrun, hend⟩

/-- A step that locks the last free socket ahead of a scan. -/
theorem not_orderly_exhausts {env : Env} {T : ℕ} {s s' : Sys} {a : Action} (h : Sized T s)
    (hr : (machine env anyCall).Reachable s) (hstep : (sized env T).step s a = some s')
    (hC : ¬ Orderly s a) :
    ∃ t s'', (sized env T).Steps s' s'' ∧ (s''.thr t).pc = .getReturn none := by
  have hi := inList_invariant env _ s hr
  cases a with
  | step v io =>
    simp only [Orderly, not_forall, not_exists] at hC
    obtain ⟨first, q, hpc, hfree, t, start, cur, htv, hpct, hnone⟩ := hC
    have hstep' := (sized_step hstep).2
    obtain ⟨h1, h2⟩ := (hi.thread t).scan start cur (by rw [hpct]; rfl)
    have hv : s' = s.put v ((s.st.setSock q fun r => { r with mutex := some v }).log
        (.trylock v q true), { s.thr v with pc := .getLocked first q }) := by
      simpa [machine, sysStep, localStep, hpc, tryLock, hfree] using hstep'.symm
    have hpct' : (s'.thr t).pc = .getTry start cur := by
      rw [hv, Sys.put_thr_of_ne s v _ htv]; exact hpct
    have hnone' : ∀ p, ¬ FreeAhead s'.st start cur p := by
      rintro p ⟨h1, h2, h3⟩
      rw [hv] at h1 h2 h3
      by_cases hp : p = q
      · rw [hp] at h3; simp at h3
      · exact hnone p ⟨hp, h1, h2, by simpa [hp] using h3⟩
    have hN : s'.st.numSocks = s.st.numSocks := by rw [hv]; rfl
    have hl' : Linked s'.st := by
      rw [hv]; exact (hi.linked.setSock q (fun r => { r with mutex := some v }) fun _ => rfl).log _
    have hlt := Ring.hops_lt h1 h2
    have ht : t < T := h.lt (by rw [hpct]; simp)
    obtain ⟨s'', hrun, hend⟩ := scan_exhausted ht (s.st.numSocks - Ring.hops s.st.numSocks start cur)
      cur s' hl' (hN ▸ h1) (hN ▸ h2) (by rw [hN]; omega) hpct' hnone'
    exact ⟨t, s'', hrun, hend⟩
  | _ => exact absurd trivial hC

/-! ## Runs that are evaluated -/

instance (s : St) (start cur p : ℕ) : Decidable (FreeAhead s start cur p) :=
  inferInstanceAs (Decidable (_ ∧ _ ∧ _))

/-- `Orderly`, as it is evaluated for `T` threads. -/
def orderly (T : ℕ) (s : Sys) : Action → Bool
  | .step v _ =>
    match (s.thr v).pc with
    | .getTry _ q => (List.range T).all fun t => decide (t = v) ||
        match (s.thr t).pc with
        | .getTry start cur =>
          (List.range s.st.numSocks).any fun p => decide (p ≠ q ∧ FreeAhead s.st start cur p)
        | _ => true
    | _ => true
  | _ => true

/-- The other threads are in no call. -/
theorem orderly_reachable {env : Env} {T : ℕ} {s : Sys}
    (hs : (sized env T).ReachableUnder (fun s a => orderly T s a = true) s) :
    (sized env T).ReachableUnder Orderly s := by
  induction hs with
  | init h => exact .init h
  | @step s s' a _ ha hstep ih =>
    refine ih.step ?_ hstep
    cases a with
    | step v io =>
      intro first q hpc _ t start cur htv hpct
      have ht := (sized_of_orderly ih).lt (t := t) (by rw [hpct]; simp)
      simp only [orderly, hpc] at ha
      have hlist := List.all_eq_true.mp ha t (List.mem_range.mpr ht)
      simp only [htv, decide_false, Bool.false_or, hpct] at hlist
      obtain ⟨p, -, hp⟩ := List.any_eq_true.mp hlist
      exact ⟨p, of_decide_eq_true hp⟩
    | _ => trivial

/-- A run of the first `T` threads whose actions are checked. -/
theorem sized_runIf {env : Env} {T : ℕ} {chk : Sys → Action → Bool} :
    ∀ {as : List Action} {s : Sys}, as.all (Action.within T) = true →
      (sized env T).runIf chk s as = (machine env oneSocket).runIf chk s as := by
  intro as
  induction as with
  | nil => intro s _; rfl
  | cons a as ih =>
    intro s has
    obtain ⟨ha, has⟩ := (Bool.and_eq_true _ _).mp has
    have hstep : (sized env T).step s a = sysStep env oneSocket s a := if_pos ha
    rw [Lts.runIf, Lts.runIf, hstep]
    refine congrArg (fun r => if chk s a then r else none) ?_
    exact Option.bind_congr fun s' _ => ih has

/-- A replayed run of the first `T` threads on a new pool, all of it connected. -/
theorem exists_of_sized_replay (env : Env) (T : ℕ) (config : RedisConfig)
    (chk : Sys → Action → Bool) (as : List Action) (p : Sys → Bool)
    (has : as.all (Action.within T) = true)
    (hnew : (replay env oneSocket config []).any (fun s =>
      (∀ p, p < s.st.numSocks → (s.st.sock p).state = .sockconnected) ∧ T ≤ s.st.numSocks) = true)
    (h : ((replay env oneSocket config []).bind fun s =>
      (machine env oneSocket).runIf chk s as).any p = true) :
    ∃ s, (sized env T).ReachableUnder (fun s a => chk s a = true) s ∧ p s = true := by
  obtain ⟨st₀, s₀, hst₀, hs₀, hp₀⟩ := exists_run_of_replay env oneSocket config [] _ hnew
  cases hs₀
  have hreplay : replay env oneSocket config [] = some ⟨st₀, fun _ => Local.init⟩ := by
    rw [replay, hst₀]
    rfl
  rw [hreplay, Option.bind_some] at h
  obtain ⟨s, hs, hp⟩ := (Option.any_eq_true p _).mp h
  obtain ⟨hconn, hT⟩ := of_decide_eq_true hp₀
  have hquiet : Quiet env T ⟨st₀, fun _ => Local.init⟩ :=
    ⟨.init ⟨⟨config, hst₀⟩, fun _ => rfl⟩, fun _ => ⟨rfl, rfl⟩, hconn, hT⟩
  exact ⟨s, (Lts.ReachableUnder.init hquiet).runIf (fun _ _ h => h) ((sized_runIf has).trans hs), hp⟩

/-! ## Main theorem -/

/-- **A pool with a socket for every thread is not exhausted by orderly runs.**
    While whoever locks a socket leaves a free one ahead of every other scan,
    no call of `redis_get_socket` returns NULL. After the first step that is not
    orderly, a scan that runs on alone returns NULL. -/
theorem sized_pool_serves (env : Env) (T : ℕ) (s : Sys)
    (hs : (sized env T).ReachableUnder Orderly s) :
    (∀ t, (s.thr t).pc ≠ .getReturn none) ∧
      ∀ a s', (sized env T).step s a = some s' → ¬ Orderly s a →
        ∃ t s'', (sized env T).Steps s' s'' ∧ (s''.thr t).pc = .getReturn none := by
  have h := sized_of_orderly hs
  refine ⟨fun t hpc => ?_, fun a s' hstep hC => ?_⟩
  · have := h.single t
    simp [Local.Single, hpc] at this
  · exact not_orderly_exhausts h (sized_reachable env T s hs.reachable) hstep hC

/-- Both threads are about to try socket 1. Thread 0 locks it, which leaves socket 0 for thread 1. -/
def sharedPool : List Action :=
  [.call 0 .get, .step 0 true, .call 1 .get, .step 1 true, .step 0 true, .step 0 true, .step 0 true,
    .step 0 true, .step 1 true, .step 1 true, .step 1 true, .step 1 true]

/-- Two threads on two sockets, whose scans overlap. -/
theorem sized_pool_serves_two : ∃ s, (sized .good 2).Reachable s ∧ (s.thr 0).held = [1] ∧
    (s.thr 1).pc = .getReturn (some 0) ∧ ∀ t, (s.thr t).pc ≠ .getReturn none := by
  obtain ⟨s, hs, hp⟩ := exists_of_sized_replay .good 2 (.single 2 5) (orderly 2) sharedPool
    (fun s => (s.thr 0).held = [1] ∧ (s.thr 1).pc = .getReturn (some 0)) (by decide)
    (by decide +kernel) (by decide +kernel)
  obtain ⟨hheld, hpc⟩ := of_decide_eq_true hp
  exact ⟨s, hs.reachable, hheld, hpc, (sized_pool_serves .good 2 s (orderly_reachable hs)).1⟩

/-- Thread 0 tries socket 1, which thread 1 has; thread 1 releases it and gets
    socket 0; thread 0 tries socket 0. -/
def missedSocket : List Action :=
  [.call 0 .get, .step 0 true,
    .call 1 .get, .step 1 true, .step 1 true, .step 1 true, .step 1 true, .step 1 true,
    .step 0 true, .call 1 (.release (some 1)), .step 1 true, .step 1 true,
    .call 1 .get, .step 1 true, .step 1 true, .step 0 true]

/-- Two threads, two connected sockets: thread 0 is about to return NULL while
    socket 1 is free. -/
theorem scan_misses : ∃ s, (sized .good 2).Reachable s ∧ (s.thr 0).pc = .getReturn none ∧
    (s.st.sock 1).mutex = none ∧ (s.st.sock 1).state = .sockconnected := by
  obtain ⟨s, hs, hp⟩ := exists_of_sized_replay .good 2 (.single 2 5) (fun _ _ => true) missedSocket
    (fun s => (s.thr 0).pc = .getReturn none ∧ (s.st.sock 1).mutex = none ∧
      (s.st.sock 1).state = .sockconnected) (by decide) (by decide +kernel) (by decide +kernel)
  exact ⟨s, hs.reachable, of_decide_eq_true hp⟩

end Hiredispool.Threads
