import Hiredispool.Lib.Handles
import Hiredispool.Pool.Create

/-!
# Who owns the contexts

The sockets' `conn` fields as a table of owned resources (`Handles.Owned`):
contexts are the resources, `redisFree` releases them. `F p` says that the
context of socket `p` has been freed and `conn` has not been written yet.

* `Owned.connect`, `Owned.free`: `connect_single_socket` and `redisFree` keep
  the ownership.
* `checkSocket_owned`, `redisPoolCreate_owned`: so do the scan and the creation.
* `redisPoolDestroy_spec`: destroying a pool leaves no live context.

`OwnedSince w₀` is the ownership of the contexts opened since `w₀`; those that
were there before are none of the pool's business.
-/

namespace Hiredispool.Pool

/-- A socket is connected exactly when it has a context, only the first `N`
    sockets have one, and the contexts are owned. -/
structure Owned (N : ℕ) (F : ℕ → Prop) (s : St) : Prop where
  state_iff : ∀ p, (s.sock p).state = .sockconnected ↔ ∃ c, (s.sock p).conn = some c
  range : ∀ p c, (s.sock p).conn = some c → p < N
  table : Handles.Owned (fun p => (s.sock p).conn) s.world.nctx (fun c => (s.world.ctx c).frees) F

/-- The same for the contexts opened since `w₀`, where the older ones have no
    owner here and have not been freed since. -/
structure OwnedSince (w₀ : World) (N : ℕ) (F : ℕ → Prop) (s : St) : Prop where
  le : w₀.nctx ≤ s.world.nctx
  old : ∀ c, c < w₀.nctx → (s.world.ctx c).frees = (w₀.ctx c).frees
  state_iff : ∀ p, (s.sock p).state = .sockconnected ↔ ∃ c, (s.sock p).conn = some c
  range : ∀ p c, (s.sock p).conn = some c → p < N
  table : Handles.Owned (fun p => (s.sock p).conn) s.world.nctx
    (fun c => if c < w₀.nctx then 1 else (s.world.ctx c).frees) F

/-- `s'` has the sockets' contexts and states of `s`, and the same contexts are live. -/
structure SameConns (s s' : St) : Prop where
  conn : ∀ p, (s'.sock p).conn = (s.sock p).conn
  state : ∀ p, (s'.sock p).state = (s.sock p).state
  nctx : s'.world.nctx = s.world.nctx
  frees : ∀ c, (s'.world.ctx c).frees = (s.world.ctx c).frees

theorem SameConns.of_world {s : St} {w : World} (hn : w.nctx = s.world.nctx)
    (hf : ∀ c, (w.ctx c).frees = (s.world.ctx c).frees) : SameConns s { s with world := w } :=
  ⟨fun _ => rfl, fun _ => rfl, hn, hf⟩

theorem SameConns.of_log (s : St) (e : Event) : SameConns s (s.log e) :=
  .of_world rfl fun _ => rfl

theorem SameConns.of_setInuse (p v : ℕ) (s : St) : SameConns s (setInuse p v s) :=
  ⟨fun q => by by_cases hq : q = p <;> simp [setInuse, hq],
    fun q => by by_cases hq : q = p <;> simp [setInuse, hq], rfl, fun _ => rfl⟩

/-- A write to a socket that leaves its connection alone, and to the world's trace. -/
theorem SameConns.of_setSock {p : ℕ} {s : St} (f : RedisSocket → RedisSocket)
    (hf : ∀ r, (f r).conn = r.conn ∧ (f r).state = r.state) (e : Event) :
    SameConns s ((s.setSock p f).log e) :=
  ⟨fun q => by by_cases hq : q = p <;> simp [hq, hf],
    fun q => by by_cases hq : q = p <;> simp [hq, hf], rfl, fun _ => rfl⟩

/-- The servers and the network neither open nor free contexts. -/
theorem SameConns.of_serve (c : ℕ) (s : St) : SameConns s { s with world := s.world.serve c } := by
  rcases s.world.serve_cases c with ⟨-, e⟩ | ⟨r, rest, -, e⟩ <;> rw [e]
  · exact .of_world rfl fun _ => rfl
  · exact .of_world rfl (by simp [World.setCtx_frees])

theorem SameConns.trans {s s' s'' : St} (h : SameConns s s') (h' : SameConns s' s'') :
    SameConns s s'' :=
  ⟨fun p => (h'.conn p).trans (h.conn p), fun p => (h'.state p).trans (h.state p),
    h'.nctx.trans h.nctx, fun c => (h'.frees c).trans (h.frees c)⟩

section Owned

variable {w₀ : World} {N : ℕ} {F F' : ℕ → Prop} {s s' : St}

theorem owned_iff : Owned N F s ↔ OwnedSince World.init N F s := by
  have hfrees : (fun c => if c < World.init.nctx then 1 else (s.world.ctx c).frees) =
      fun c => (s.world.ctx c).frees := by
    funext c
    exact if_neg (Nat.not_lt_zero c)
  constructor
  · intro h
    exact ⟨Nat.zero_le _, fun c hc => absurd hc (Nat.not_lt_zero c), h.state_iff, h.range,
      hfrees ▸ h.table⟩
  · intro h
    exact ⟨h.state_iff, h.range, hfrees ▸ h.table⟩

theorem OwnedSince.congr (h : OwnedSince w₀ N F s) (hs : SameConns s s')
    (hF : ∀ p c, (s.sock p).conn = some c → (F' p ↔ F p)) : OwnedSince w₀ N F' s' where
  le := hs.nctx ▸ h.le
  old c hc := (hs.frees c).trans (h.old c hc)
  state_iff p := by rw [hs.state, hs.conn]; exact h.state_iff p
  range p c hc := h.range p c (hs.conn p ▸ hc)
  table := h.table.congr hs.conn hs.nctx (fun c => by rw [hs.frees]) hF

theorem OwnedSince.same (h : OwnedSince w₀ N F s) (hs : SameConns s s') : OwnedSince w₀ N F s' :=
  h.congr hs fun _ _ _ => Iff.rfl

theorem OwnedSince.mono {M : ℕ} (h : OwnedSince w₀ N F s) (hNM : N ≤ M) : OwnedSince w₀ M F s :=
  ⟨h.le, h.old, h.state_iff, fun p c hc => lt_of_lt_of_le (h.range p c hc) hNM, h.table⟩

/-- The context of a socket was opened since `w₀`, and is live unless it has
    just been freed. -/
theorem OwnedSince.conn_live (h : OwnedSince w₀ N F s) {p c : ℕ} (hc : (s.sock p).conn = some c)
    (hF : ¬ F p) : w₀.nctx ≤ c ∧ s.world.Live c := by
  have hfrees := h.table.live p c hc hF
  split at hfrees
  · cases hfrees
  · exact ⟨by omega, h.table.lt p c hc, hfrees⟩

theorem Owned.congr (h : Owned N F s) (hs : SameConns s s')
    (hF : ∀ p c, (s.sock p).conn = some c → (F' p ↔ F p)) : Owned N F' s' :=
  owned_iff.mpr ((owned_iff.mp h).congr hs hF)

theorem Owned.same (h : Owned N F s) (hs : SameConns s s') : Owned N F s' :=
  h.congr hs fun _ _ _ => Iff.rfl

/-- A socket without a context is unconnected, and conversely. -/
theorem Owned.conn_eq_none (h : Owned N F s) {p : ℕ}
    (hp : (s.sock p).state = .sockunconnected) : (s.sock p).conn = none := by
  cases hc : (s.sock p).conn with
  | none => rfl
  | some c =>
    have := (h.state_iff p).mpr ⟨c, hc⟩
    rw [hp] at this; cases this

/-- The context of a socket is live unless it has just been freed. -/
theorem Owned.conn_live (h : Owned N F s) {p c : ℕ} (hc : (s.sock p).conn = some c)
    (hF : ¬ F p) : s.world.Live c :=
  ⟨h.table.lt p c hc, h.table.live p c hc hF⟩

/-- `connect_single_socket` for a socket whose context has been freed, or that has none. -/
theorem OwnedSince.connect {env : Env} {p : ℕ} {r : St × Bool} (h : OwnedSince w₀ N F s)
    (hp : p < N) (hfree : ∀ c, (s.sock p).conn = some c → F p) (hspec : ConnectSpec env p s r) :
    OwnedSince w₀ N (fun q => F q ∧ q ≠ p) r.1 where
  le := h.le.trans hspec.nctx_le
  old c hc := by
    rw [hspec.old (Or.inl (lt_of_lt_of_le hc h.le))]
    exact h.old c hc
  state_iff q := by
    by_cases hq : q = p
    · subst hq
      rcases hspec.conn with ⟨-, hs, c, hc, -⟩ | ⟨-, hs, hc⟩ <;> simp [hs, hc]
    · rw [hspec.1.other q hq]; exact h.state_iff q
  range q c hc := by
    by_cases hq : q = p
    · exact hq ▸ hp
    · exact h.range q c (hspec.1.other q hq ▸ hc)
  table := by
    refine h.table.refill hfree hspec.nctx_le (fun q hq => by rw [hspec.1.other q hq])
      (fun c hc => ?_) (fun c hc => by rw [hspec.old (Or.inl hc)]) (fun c h1 h2 => ?_)
    · rcases hspec.conn with ⟨-, -, c', hc', h1, h2⟩ | ⟨-, -, hn⟩
      · obtain rfl : c' = c := Option.some.inj (hc'.symm.trans hc)
        exact ⟨h1, h2⟩
      · rw [hn] at hc; cases hc
    · rw [if_neg (not_lt.mpr (h.le.trans h1))]
      exact (hspec.fresh h1 h2).2.2

theorem Owned.connect {env : Env} {p : ℕ} {r : St × Bool} (h : Owned N F s) (hp : p < N)
    (hfree : ∀ c, (s.sock p).conn = some c → F p) (hspec : ConnectSpec env p s r) :
    Owned N (fun q => F q ∧ q ≠ p) r.1 :=
  owned_iff.mpr ((owned_iff.mp h).connect hp hfree hspec)

/-- `redisFree` of the context of socket `p`. -/
theorem OwnedSince.free {p c : ℕ} (h : OwnedSince w₀ N F s) (hc : (s.sock p).conn = some c)
    (hF : ¬ F p) :
    OwnedSince w₀ N (fun q => F q ∨ q = p) { s with world := s.world.redisFree (some c) } := by
  have hle : w₀.nctx ≤ c := (h.conn_live hc hF).1
  refine ⟨h.le, fun c' hc' => ?_, h.state_iff, h.range, h.table.free hc hF ?_ fun c' hne => ?_⟩
  · have hne : c' ≠ c := by omega
    simpa [World.redisFree, hne] using h.old c' hc'
  · rw [if_neg (not_lt.mpr hle), if_neg (not_lt.mpr hle)]
    simp [World.redisFree]
  · simp [World.redisFree, hne]

theorem Owned.free {p c : ℕ} (h : Owned N F s) (hc : (s.sock p).conn = some c) (hF : ¬ F p) :
    Owned N (fun q => F q ∨ q = p) { s with world := s.world.redisFree (some c) } :=
  owned_iff.mpr ((owned_iff.mp h).free hc hF)

/-! ## The scan -/

theorem sameConns_beforeConnect (env : Env) (cur : ℕ) (s : St) :
    SameConns s (beforeConnect env cur s) :=
  (SameConns.of_setInuse cur 1 s).trans (.of_world rfl fun _ => rfl)

theorem sameConns_tooEarly (env : Env) (cur : ℕ) (s : St) : SameConns s (tooEarly env cur s) :=
  (SameConns.of_setInuse cur 1 s).trans (.of_world rfl fun _ => rfl)

theorem checkSocket_owned {env : Env} {cur : ℕ} (h : Owned N F s) (hcur : cur < N)
    (hF : ¬ F cur) : Owned N F (checkSocket env cur s).1 := by
  have hconnect : (s.sock cur).state = .sockunconnected →
      Owned N F (connectSingleSocket env cur (beforeConnect env cur s)).1 := by
    intro hst
    have hb := h.same (sameConns_beforeConnect env cur s)
    refine (hb.connect hcur (fun c hc => ?_) (connectSingleSocket_spec env cur _)).congr
      (.of_world rfl fun _ => rfl) fun p c _ => ?_
    · rw [(sameConns_beforeConnect env cur s).conn, h.conn_eq_none hst] at hc; cases hc
    · exact ⟨fun hp => ⟨hp, fun e => hF (e ▸ hp)⟩, fun hp => hp.1⟩
  rcases checkSocket_cases env cur s with
    ⟨-, e⟩ | ⟨-, -, e⟩ | ⟨-, hst, ⟨-, e⟩ | ⟨-, ⟨-, e⟩ | ⟨-, e⟩⟩⟩ <;> rw [e]
  · exact h
  · exact h.same (.of_setInuse cur 1 s)
  · exact h.same (((sameConns_tooEarly env cur s).trans (.of_log _ _)).trans (.of_setInuse cur 0 _))
  · exact hconnect hst
  · exact (hconnect hst).same ((SameConns.of_log _ _).trans (.of_setInuse cur 0 _))

/-! ## Creation -/

theorem pushSocket_sameConns (i : ℕ) (s : St) : SameConns s (pushSocket i s) :=
  ⟨fun q => by by_cases hq : q = i <;> simp [pushSocket, hq],
    fun q => by by_cases hq : q = i <;> simp [pushSocket, hq], rfl, fun _ => rfl⟩

/-- A new socket has neither a context nor a connected state, as before it was made. -/
theorem sameConns_unconnected (env : Env) {i : ℕ} (h : OwnedSince w₀ i F s) :
    SameConns s (unconnected env i s) := by
  have hconn : (s.sock i).conn = none := by
    cases hc : (s.sock i).conn with
    | none => rfl
    | some c => exact absurd (h.range i c hc) (lt_irrefl i)
  have hstate : (s.sock i).state = .sockunconnected := by
    cases hs : (s.sock i).state with
    | sockunconnected => rfl
    | sockconnected =>
      obtain ⟨c, hc⟩ := (h.state_iff i).mp hs
      rw [hconn] at hc; cases hc
  exact ⟨fun q => by by_cases hq : q = i <;> simp [unconnected, hq, newSocket, hconn],
    fun q => by by_cases hq : q = i <;> simp [unconnected, hq, newSocket, hstate], rfl,
    fun _ => rfl⟩

theorem OwnedSince.empty (c : PoolConfig) (w : World) :
    OwnedSince w 0 (fun _ => False) (emptyPool c w) := by
  have hconn : ∀ p x, ((emptyPool c w).sock p).conn ≠ some x := by
    intro p x hx
    cases hx
  have hstate : ∀ p, ((emptyPool c w).sock p).state ≠ .sockconnected := by
    intro p hp
    cases hp
  have hold : ∀ x, x < w.nctx → (if x < w.nctx then 1 else (w.ctx x).frees) = 1 := by
    intro x hx
    exact if_pos hx
  refine ⟨le_rfl, fun _ _ => rfl, fun p => ?_, fun p x hx => absurd hx (hconn p x), ?_⟩
  · refine iff_of_false (hstate p) ?_
    rintro ⟨x, hx⟩
    exact hconn p x hx
  · refine ⟨fun p x hx => absurd hx (hconn p x), fun p _ x hx => absurd hx (hconn p x),
      fun p x hx => absurd hx (hconn p x), fun x hx h0 => ?_, fun x hx => (hold x hx).le⟩
    exact absurd ((hold x hx).symm.trans h0) Nat.one_ne_zero

theorem initSocket_owned (env : Env) {i : ℕ} (h : OwnedSince w₀ i (fun _ => False) s) :
    OwnedSince w₀ (i + 1) (fun _ => False) (pushSocket i (initSocket env i s)) := by
  have hnew := (h.same (sameConns_unconnected env h)).mono (Nat.le_succ i)
  rcases initSocket_cases env i s with ⟨-, e⟩ | ⟨-, e⟩ <;> rw [e]
  · exact hnew.same (pushSocket_sameConns i _)
  · refine ((hnew.same (SameConns.of_log _ _)).connect
      (Nat.lt_succ_self i) (fun c hc => ?_) (connectSingleSocket_spec env i _)).congr
      (pushSocket_sameConns i _) fun p c _ => ?_
    · simp [unconnected, newSocket] at hc
    · simp

theorem redisPoolCreate_owned {env : Env} {config : RedisConfig} {s : St}
    (h : redisPoolCreate env config World.init = .ok s) :
    Owned s.numSocks (fun _ => False) s := by
  have hsince := redisPoolCreate_induction (P := fun i s =>
    OwnedSince World.init i (fun _ => False) s) h (fun c _ => OwnedSince.empty c World.init)
    fun i s hs => initSocket_owned env hs
  exact owned_iff.mpr hsince

end Owned

/-! ## Destruction -/

section Destroy

variable {w₀ : World} {N : ℕ} {F : ℕ → Prop} {s : St}

theorem redisCloseSocket_owned {p : ℕ} (h : OwnedSince w₀ N F s) (hF : ¬ F p) :
    OwnedSince w₀ N (fun q => F q ∨ q = p) (redisCloseSocket p s) := by
  unfold redisCloseSocket
  split
  · rename_i hst
    obtain ⟨c, hc⟩ := (h.state_iff p).mp hst
    rw [hc]
    exact h.free hc hF
  · rename_i hst
    refine h.congr (.of_world rfl fun _ => rfl) fun q c hc => ?_
    have hne : q ≠ p := fun e => hst ((h.state_iff p).mpr ⟨c, e ▸ hc⟩)
    simp [hne]

@[simp] theorem redisCloseSocket_sock (p : ℕ) (s : St) : (redisCloseSocket p s).sock = s.sock := by
  unfold redisCloseSocket; split <;> rfl

theorem poolfreeLoop_sock (k : ℕ) (cur : Option ℕ) (s : St) :
    (poolfreeLoop k cur s).sock = s.sock := by
  induction k generalizing cur s with
  | zero => rfl
  | succ k ih =>
    cases cur with
    | none => rfl
    | some cur => rw [poolfreeLoop, ih, redisCloseSocket_sock]

/-- The loop closes the sockets `k - 1, …, 0` and ends at the end of the list. -/
theorem poolfreeLoop_owned (k : ℕ) {fuel : ℕ} {s : St} (hfuel : k ≤ fuel)
    (hnext : ∀ p, p < k → (s.sock p).next = if p = 0 then none else some (p - 1))
    (h : OwnedSince w₀ N (fun q => k ≤ q) s) :
    OwnedSince w₀ N (fun _ => True)
      (poolfreeLoop fuel (if k = 0 then none else some (k - 1)) s) := by
  induction k generalizing fuel s with
  | zero =>
    have hstop : poolfreeLoop fuel none s = s := by cases fuel <;> rfl
    rw [if_pos rfl, hstop]
    exact h.congr (.of_world rfl fun _ => rfl) fun q c _ => by simp
  | succ k ih =>
    obtain ⟨fuel, rfl⟩ : ∃ m, fuel = m + 1 := ⟨fuel - 1, by omega⟩
    have hclose := redisCloseSocket_owned (p := k) h (by omega)
    simp only [Nat.add_one_ne_zero, if_false, poolfreeLoop, Nat.add_sub_cancel,
      hnext k (Nat.lt_succ_self k)]
    refine ih (by omega) (fun p hp => ?_) ?_
    · rw [redisCloseSocket_sock]; exact hnext p (by omega)
    · exact hclose.congr (.of_world rfl fun _ => rfl) fun q c _ => by omega

/-- `redis_pool_destroy` on a list of `i` sockets, whether or not more were to
    be made, frees what they own. -/
theorem redisPoolDestroy_owned {i : ℕ} (hi : i ≤ s.numSocks) (hl : Listed i s)
    (h : OwnedSince w₀ i (fun _ => False) s) :
    OwnedSince w₀ i (fun _ => True) { s with world := redisPoolDestroy s } := by
  have hstart : OwnedSince w₀ i (fun q => i ≤ q) s :=
    h.congr (.of_world rfl fun _ => rfl) fun p c hc => by have := h.range p c hc; simp; omega
  have hloop := poolfreeLoop_owned i hi hl.next hstart
  rw [← hl.redisPool] at hloop
  by_cases h0 : i = 0
  · have hw : redisPoolDestroy s = s.world := by simp [redisPoolDestroy, hl.redisPool, h0]
    rw [hw]
    exact h.congr (.of_world rfl fun _ => rfl) fun p c hc => by have := h.range p c hc; omega
  · have hw : redisPoolDestroy s = (poolfreeLoop s.numSocks s.redisPool s).world := by
      simp [redisPoolDestroy, hl.redisPool, h0, redisPoolfree]
    rw [hw]
    refine hloop.same ⟨fun p => ?_, fun p => ?_, rfl, fun _ => rfl⟩ <;> rw [poolfreeLoop_sock]

theorem Linked.listed (h : Linked s) : Listed s.numSocks s := ⟨h.redisPool, h.next⟩

/-- **Destroying a pool frees every context exactly once.** -/
theorem redisPoolDestroy_spec (hl : Linked s) (h : Owned s.numSocks (fun _ => False) s)
    (c : ℕ) : ¬ (redisPoolDestroy s).Live c ∧
      (c < (redisPoolDestroy s).nctx → ((redisPoolDestroy s).ctx c).frees = 1) := by
  have hall := owned_iff.mpr (redisPoolDestroy_owned le_rfl hl.listed (owned_iff.mp h))
  have hfreed := fun hc => hall.table.all_freed (fun _ => True.intro) (c := c) hc
  exact ⟨fun hlive => Nat.one_ne_zero ((hfreed hlive.1).symm.trans hlive.2), hfreed⟩

end Destroy

end Hiredispool.Pool
