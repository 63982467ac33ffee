import Hiredispool.Pool.Index
import Hiredispool.Pool.ScanOrder

/-!
# The pool while the servers are up

If every connect is accepted and the clock is positive, the callers of the pool
see a rota: the sockets are handed out in the order of the list, and it does not
matter which of them have been connected yet.

* `Rota`: that view of the pool, with its `get` and `release`.
* `Serving`: a socket that is not connected yet is going to be connected to the
  endpoint number `id % num_endpoints`, as all others are.
* `Serving.get`, `Serving.release`: the pool's functions refine those of `Rota`.
-/

namespace Hiredispool.Pool

/-! ## The view of the callers -/

/-- `numSocks` sockets, the one that is next in turn, and who holds which. -/
structure Rota where
  numSocks : ℕ
  lastUsed : Option ℕ
  holder : ℕ → Option ℕ

namespace Rota

/-- The sockets in turn. The turn goes downwards. -/
def order (a : Rota) : List ℕ :=
  Ring.order a.numSocks (a.lastUsed.getD (a.numSocks - 1)) a.numSocks

/-- `p` is held by `t`. -/
def take (t p : ℕ) (a : Rota) : Rota := { a with holder := Function.update a.holder p (some t) }

/-- The turn after `p`. -/
def turn (p : ℕ) (a : Rota) : Rota := { a with lastUsed := if p = 0 then none else some (p - 1) }

/-- The next socket in turn that nobody holds. -/
def next (a : Rota) : Option ℕ := a.order.find? fun p => (a.holder p).isNone

/-- `t` gets the next socket. -/
def get (t : ℕ) (a : Rota) : Rota :=
  match a.next with
  | none => a
  | some p => (a.take t p).turn p

/-- `p` is given back. -/
def release (p : ℕ) (a : Rota) : Rota := { a with holder := Function.update a.holder p none }

end Rota

/-- What the callers see of a pool. -/
def St.rota (s : St) : Rota := ⟨s.numSocks, s.lastUsed, fun p => (s.sock p).mutex⟩

/-! ## The pool -/

/-- Every connect is accepted, and the clock is positive. -/
structure Env.Up (env : Env) : Prop where
  connect : ∀ i, env.connect i = .ok
  clock : ∀ i, 0 < env.clock i

theorem Env.good_up : Env.good.Up :=
  ⟨fun _ => rfl, fun i => by show (0 : ℤ) < (i : ℤ) + 1; omega⟩

/-- The socket `p` is connected to the endpoint that it was created for. -/
def Placed (s : St) (p : ℕ) : Prop :=
  (s.sock p).state = .sockconnected ∧ ∃ c, (s.sock p).conn = some c ∧
    (s.world.ctx c).endpoint = p % s.config.numEndpoints

/-- The socket `p` is going to be connected to that endpoint. -/
def Planned (s : St) (p : ℕ) : Prop :=
  (s.sock p).state = .sockunconnected ∧ (s.sock p).backup = p % s.config.numEndpoints

/-- No connect has failed yet. -/
structure Serving (s : St) : Prop where
  settled : Settled s
  connectAfter : s.connectAfter = 0
  live : ∀ p c, (s.sock p).conn = some c → c < s.world.nctx
  id : ∀ p, p < s.numSocks → (s.sock p).id = p
  place : ∀ p, p < s.numSocks → Placed s p ∨ Planned s p

section Serving

variable {env : Env} {s s' : St} {t p : ℕ}

theorem listOrder_eq_rota (h : Linked s) : listOrder s = s.rota.order := by
  unfold listOrder Rota.order
  cases hstart : scanStart s with
  | none =>
    have h0 : s.numSocks = 0 := by
      by_contra hne
      obtain ⟨q, hq⟩ := scanStart_isSome h (Nat.pos_of_ne_zero hne)
      rw [hstart] at hq; cases hq
    show [] = Ring.order s.numSocks _ s.numSocks
    rw [h0]; rfl
  | some start =>
    have hlt := scanStart_lt h hstart
    have hget : s.lastUsed.getD (s.numSocks - 1) = start := by
      unfold scanStart at hstart
      rw [h.redisPool, if_neg (by omega)] at hstart
      cases hl : s.lastUsed with
      | none =>
        rw [hl] at hstart
        exact Option.some.inj hstart
      | some q =>
        rw [hl] at hstart
        exact Option.some.inj hstart
    show List.iterate (listNext s) start s.numSocks = Ring.order s.numSocks _ s.numSocks
    rw [iterate_listNext h hlt]
    exact congrArg (fun x => Ring.order s.numSocks x s.numSocks) hget.symm

/-! ## One connect -/

/-- The first attempt is accepted. -/
theorem connectSingleSocket_up (hok : env.connect s.world.connects = .ok) (p : ℕ) :
    connectSingleSocket env p s =
      (connected env p s.world.nctx { s with world := (tryBackup env p s).1 }, true) := by
  unfold connectSingleSocket
  have hn : s.config.numEndpoints = s.config.numEndpoints - 1 + 1 := by
    have := s.config.endpoints_pos
    unfold PoolConfig.numEndpoints; omega
  rw [hn, connectLoop_succ, if_pos hok]

/-- What an accepted connect of `p` leaves behind. -/
structure Opened (p : ℕ) (s s' : St) : Prop where
  frame : SockFrame p s s'
  connectAfter : s'.connectAfter = s.connectAfter
  state : (s'.sock p).state = .sockconnected
  conn : (s'.sock p).conn = some s.world.nctx
  nctx : s'.world.nctx = s.world.nctx + 1
  endpoint : (s'.world.ctx s.world.nctx).endpoint = (s.sock p).backup
  old : ∀ c, c < s.world.nctx → s'.world.ctx c = s.world.ctx c

theorem connectSingleSocket_opened (hok : env.connect s.world.connects = .ok) (p : ℕ) :
    (connectSingleSocket env p s).2 = true ∧ Opened p s (connectSingleSocket env p s).1 := by
  have hspec := connectSingleSocket_spec env p s
  have ha := adopted_attempt env p (s.sock p).backup (s.config.endpoint (s.sock p).backup) s hok
  rw [connectSingleSocket_up hok] at hspec ⊢
  refine ⟨rfl, hspec.1, ha.connectAfter, ha.state, ha.conn, ha.nctx, ?_, fun c hc => ?_⟩
  · rw [connected_endpoint]
    simp [tryBackup, World.redisConnectWithTimeout, hok, World.setCtx]
  · exact hspec.old (Or.inl hc)

/-! ## One socket of the scan -/

/-- The socket `p` has been locked by `t` and is in use, and the rest of the
    pool is as it was. -/
structure Taken (t p : ℕ) (s s' : St) : Prop where
  obtained : Obtained t p s s'
  connectAfter : s'.connectAfter = s.connectAfter
  id : (s'.sock p).id = (s.sock p).id
  nctx_le : s.world.nctx ≤ s'.world.nctx
  old : ∀ c, c < s.world.nctx → (s'.world.ctx c).endpoint = (s.world.ctx c).endpoint
  live : ∀ c, (s'.sock p).conn = some c → c < s'.world.nctx
  placed : Placed s' p

theorem Placed.congr {p : ℕ} (h : Placed s p) (hs : s'.sock p = s.sock p)
    (hc : s'.config = s.config) (hlive : ∀ c, (s.sock p).conn = some c → c < s.world.nctx)
    (hctx : ∀ c, c < s.world.nctx → (s'.world.ctx c).endpoint = (s.world.ctx c).endpoint) :
    Placed s' p := by
  obtain ⟨hst, c, hconn, hep⟩ := h
  refine ⟨by rw [hs]; exact hst, c, by rw [hs]; exact hconn, ?_⟩
  rw [hctx c (hlive c hconn), hc]
  exact hep

/-- A free socket can be handed out. -/
theorem Serving.passes (h : Serving s) (hup : env.Up) (hm : (s.sock p).mutex = none) :
    Passes env s p := by
  refine ⟨hm, Or.inr ⟨?_, 0, s.config.endpoints_pos, hup.connect _⟩⟩
  rw [h.connectAfter]; exact hup.clock _

theorem Serving.check (h : Serving s) (hup : env.Up) (hp : p < s.numSocks)
    (hm : (s.sock p).mutex = none) : Taken t p s (visit env t p s).1 := by
  have hfree := h.settled.free p hp
  have hpass : (visit env t p s).2 = true := (visit_passes_iff hfree).mpr (h.passes hup hm)
  have hobt := visit_obtained hfree hpass
  have hplace := h.place p hp
  have hlive := h.live p
  have hvisit : (visit env t p s).1 = (checkSocket env p (locked t p s)).1 := by
    rcases visit_cases env t p s with ⟨u, hu, -⟩ | ⟨-, ⟨-, e⟩ | ⟨-, e⟩⟩
    · rw [hm] at hu; cases hu
    · rw [e]
    · rw [e] at hpass; cases hpass
  rw [hvisit] at hobt ⊢
  rcases checkSocket_cases env p (locked t p s) with
    ⟨h1, -⟩ | ⟨-, hst, e⟩ | ⟨-, hst, ⟨hle, -⟩ | ⟨-, ⟨-, e⟩ | ⟨ho, -⟩⟩⟩
  · rw [locked_inuse, hfree hm] at h1; cases h1
  · have hplaced : Placed s p := by
      refine hplace.resolve_right fun hplan => ?_
      have hst' : (s.sock p).state = .sockconnected := by simpa [locked] using hst
      rw [hplan.1] at hst'; cases hst'
    rw [e] at hobt ⊢
    refine ⟨hobt, rfl, by simp [setInuse, locked], le_rfl, fun _ _ => rfl, fun c hc => ?_, ?_⟩
    · exact hlive c (by simpa [setInuse, locked] using hc)
    · obtain ⟨-, c, hc, hep⟩ := hplaced
      exact ⟨hobt.state, c, by simpa [setInuse, locked] using hc, hep⟩
  · rw [show (locked t p s).connectAfter = 0 from h.connectAfter] at hle
    exact absurd (hup.clock _) (not_lt.mpr hle)
  · have hplan : Planned s p := by
      refine hplace.resolve_left fun hplaced => ?_
      have hst' : (s.sock p).state = .sockunconnected := by simpa [locked] using hst
      rw [hplaced.1] at hst'; cases hst'
    obtain ⟨-, hopen⟩ := connectSingleSocket_opened
      (hup.connect (beforeConnect env p (locked t p s)).world.connects) p
    rw [e] at hobt ⊢
    have hback : ((beforeConnect env p (locked t p s)).sock p).backup = (s.sock p).backup := by
      simp [beforeConnect, setInuse, locked]
    refine ⟨hobt, hopen.connectAfter, ?_, ?_, fun c hc => ?_, fun c hc => ?_, ?_⟩
    · rw [hopen.frame.id]; simp [beforeConnect, setInuse, locked]
    · rw [hopen.nctx]; exact Nat.le_succ _
    · rw [hopen.old c hc]; rfl
    · rw [← Option.some.inj (hopen.conn.symm.trans hc), hopen.nctx]
      exact Nat.lt_succ_self _
    · refine ⟨hopen.state, _, hopen.conn, ?_⟩
      rw [hopen.endpoint, hback, hplan.2, hobt.config]
  · rw [(connectSingleSocket_opened (hup.connect _) p).1] at ho; cases ho

/-- The pool after a socket has been taken. -/
theorem Serving.taken (h : Serving s) (ht : Taken t p s s') :
    Serving s' ∧ s'.rota = s.rota.take t p := by
  have ho := ht.obtained
  have hN : s'.numSocks = s.numSocks := by unfold St.numSocks; rw [ho.config]
  have hlink : Linked s' := h.settled.linked.congr ho.config ho.redisPool ho.next
    fun q hq => h.settled.linked.lastUsed q (ho.lastUsed ▸ hq)
  have hfree : ∀ q, q < s'.numSocks → (s'.sock q).mutex = none → (s'.sock q).inuse = 0 := by
    intro q hq hm
    by_cases hqp : q = p
    · rw [hqp, ho.mutex] at hm; cases hm
    · rw [ho.other q hqp] at hm ⊢
      exact h.settled.free q (hN ▸ hq) hm
  refine ⟨⟨⟨hlink, hfree⟩, ht.connectAfter.trans h.connectAfter, fun q c hq => ?_, fun q hq => ?_,
    fun q hq => ?_⟩, ?_⟩
  · by_cases hqp : q = p
    · rw [hqp] at hq; exact ht.live c hq
    · rw [ho.other q hqp] at hq
      exact lt_of_lt_of_le (h.live q c hq) ht.nctx_le
  · by_cases hqp : q = p
    · rw [hqp] at hq ⊢; rw [ht.id]; exact h.id p (hN ▸ hq)
    · rw [ho.other q hqp]; exact h.id q (hN ▸ hq)
  · by_cases hqp : q = p
    · rw [hqp]; exact Or.inl ht.placed
    · rcases h.place q (hN ▸ hq) with hplaced | hplan
      · exact Or.inl (hplaced.congr (ho.other q hqp) ho.config (h.live q) ht.old)
      · refine Or.inr ⟨?_, ?_⟩
        · rw [ho.other q hqp]; exact hplan.1
        · rw [ho.other q hqp, ho.config]; exact hplan.2
  · unfold St.rota Rota.take
    rw [hN, ho.lastUsed]
    congr 1
    funext q
    by_cases hqp : q = p
    · rw [hqp, Function.update_self, ho.mutex]
    · rw [Function.update_of_ne hqp, ho.other q hqp]

/-! ## The functions of the pool -/

theorem Serving.log (h : Serving s) (e : Event) : Serving (s.log e) :=
  ⟨⟨h.settled.linked.log e, h.settled.free⟩, h.connectAfter, h.live, h.id, h.place⟩

/-- A socket that somebody holds is passed over, and the trace alone changes. -/
theorem visit_held (env : Env) (t : ℕ) {u : ℕ} (hm : (s.sock p).mutex = some u) :
    visit env t p s = (s.log (.trylock t p false), false) := by
  rcases visit_cases env t p s with ⟨-, -, e⟩ | ⟨hnone, -⟩
  · exact e
  · rw [hm] at hnone; cases hnone

theorem St.find_held {u : ℕ} (hm : (s.sock p).mutex = some u) (l : List ℕ) :
    (p :: l).find? (fun q => (s.rota.holder q).isNone) =
      l.find? fun q => (s.rota.holder q).isNone :=
  List.find?_cons_of_neg (by simp [St.rota, hm])

theorem St.find_free (hm : (s.sock p).mutex = none) (l : List ℕ) :
    (p :: l).find? (fun q => (s.rota.holder q).isNone) = some p :=
  List.find?_cons_of_pos (by simp [St.rota, hm])

/-- What a search through the sockets `l` does for `t`: it takes the first one
    that nobody holds. -/
structure Found (t : ℕ) (l : List ℕ) (s : St) (r : St × Option ℕ) : Prop where
  result : r.2 = l.find? fun p => (s.rota.holder p).isNone
  serving : Serving r.1
  config : r.1.config = s.config
  none : r.2 = none → r.1.rota = s.rota
  some : ∀ p, r.2 = some p → r.1.rota = s.rota.take t p ∧ Placed r.1 p

/-- By induction on the sockets: one that is held is passed over, and the trace
    alone changes. -/
theorem Serving.first (hup : env.Up) (l : List ℕ) (h : Serving s) (hl : ∀ p ∈ l, p < s.numSocks) :
    Found t l s (Search.first (visit env t) l s) := by
  induction l generalizing s with
  | nil => exact ⟨rfl, h, rfl, fun _ => rfl, by simp [Search.first]⟩
  | cons p l ih =>
    rw [Search.first]
    cases hm : (s.sock p).mutex with
    | some u =>
      have hrest := ih (h.log (.trylock t p false)) fun q hq => hl q (List.mem_cons_of_mem p hq)
      have hresult := hrest.result.trans (St.find_held hm l).symm
      rw [visit_held env t hm, if_neg (by simp)]
      exact ⟨hresult, hrest.serving, hrest.config, hrest.none, hrest.some⟩
    | none =>
      have ht : Taken t p s (visit env t p s).1 := h.check hup (hl p List.mem_cons_self) hm
      have hpass : (visit env t p s).2 = true :=
        (visit_passes_iff (h.settled.free p (hl p List.mem_cons_self))).mpr (h.passes hup hm)
      obtain ⟨hserving, hrota⟩ := h.taken ht
      rw [if_pos hpass]
      refine ⟨(St.find_free hm l).symm, hserving, ht.obtained.config, by simp, fun q hq => ?_⟩
      obtain rfl := Option.some.inj hq
      exact ⟨hrota, ht.placed⟩

/-- The turn goes on with the socket behind `p`. -/
theorem Linked.setLastUsed (h : Linked s) (hp : p < s.numSocks) : Linked (setLastUsed p s) := by
  refine h.congr rfl rfl (fun _ => rfl) fun q hq => ?_
  have hnext : (s.sock p).next = some q := hq
  rw [h.next p hp] at hnext
  split at hnext
  · cases hnext
  · obtain rfl := Option.some.inj hnext
    omega

theorem Linked.setLastUsed_rota (h : Linked s) (hp : p < s.numSocks) :
    (Pool.setLastUsed p s).rota = s.rota.turn p := by
  have hlast : (Pool.setLastUsed p s).lastUsed = if p = 0 then none else some (p - 1) := h.next p hp
  unfold St.rota Rota.turn
  rw [hlast]
  rfl

/-- **`redis_get_socket` hands out the next socket of the rota**, connected to
    its endpoint. -/
theorem Serving.get (h : Serving s) (hup : env.Up) (t : ℕ) :
    ∃ s', redisGetSocket env t s = some (s', s.rota.next) ∧ s'.config = s.config ∧ Serving s' ∧
      s'.rota = s.rota.get t ∧
      ∀ p, s.rota.next = some p → (s'.sock p).id = p ∧ Placed s' p := by
  have hlink := h.settled.linked
  have hlt : ∀ p ∈ listOrder s, p < s.numSocks := fun p hp => h.settled.mem_order.mp hp
  have hf : Found t (listOrder s) (s.log (.getCall t))
      (Search.first (visit env t) (listOrder s) (s.log (.getCall t))) :=
    (h.log (.getCall t)).first hup _ hlt
  set r := Search.first (visit env t) (listOrder s) (s.log (.getCall t)) with hr
  have hnext : r.2 = s.rota.next := by
    rw [hf.result, Rota.next, ← listOrder_eq_rota hlink]; rfl
  refine ⟨(finish r).log (.getReturn t r.2), ?_, ?_⟩
  · rw [redisGetSocket_eq env t hlink, ← hnext]
  · rw [← hnext]
    cases hp : r.2 with
    | none =>
      have hfin : finish r = r.1 := by rw [finish, hp]
      have hget : s.rota.get t = s.rota := by rw [Rota.get, ← hnext, hp]
      rw [hfin, hget]
      exact ⟨hf.config, hf.serving.log _, hf.none hp, by simp⟩
    | some p =>
      have hfin : finish r = setLastUsed p r.1 := by rw [finish, hp]
      have hget : s.rota.get t = (s.rota.take t p).turn p := by rw [Rota.get, ← hnext, hp]
      obtain ⟨hrota, hplaced⟩ := hf.some p hp
      have hN : r.1.numSocks = s.numSocks := congrArg Rota.numSocks hrota
      have hpN : p < r.1.numSocks := by
        rw [hN]
        exact hlt p (List.mem_of_find?_eq_some (hf.result.symm.trans hp))
      have hs := hf.serving
      have hserving : Serving (setLastUsed p r.1) :=
        ⟨⟨hs.settled.linked.setLastUsed hpN, hs.settled.free⟩, hs.connectAfter, hs.live, hs.id,
          hs.place⟩
      rw [hfin, hget]
      refine ⟨hf.config, hserving.log _, ?_, fun q hq => ?_⟩
      · exact (hs.settled.linked.setLastUsed_rota hpN).trans (congrArg (Rota.turn p) hrota)
      · obtain rfl := Option.some.inj hq
        exact ⟨hs.id p hpN, hplaced⟩

/-- A release writes to the socket that is given back and to the trace. -/
theorem redisReleaseSocket_sock (t p : ℕ) (s : St) (q : ℕ) :
    (redisReleaseSocket t (some p) s).sock q =
      if q = p then { s.sock q with inuse := 0, mutex := none } else s.sock q := by
  by_cases hq : q = p
  · subst hq; simp [redisReleaseSocket, unlock, setInuse]
  · simp [redisReleaseSocket, unlock, setInuse, hq]

theorem Settled.release (h : Settled s) (t p : ℕ) :
    Settled (redisReleaseSocket t (some p) s) := by
  refine ⟨h.linked.congr rfl rfl (fun q => ?_) h.linked.lastUsed, fun q hq hm => ?_⟩
  · rw [redisReleaseSocket_sock]; split <;> rfl
  · rw [redisReleaseSocket_sock] at hm ⊢
    by_cases hqp : q = p
    · rw [if_pos hqp]
    · rw [if_neg hqp] at hm ⊢
      exact h.free q hq hm

theorem redisReleaseSocket_rota (t p : ℕ) (s : St) :
    (redisReleaseSocket t (some p) s).rota = s.rota.release p := by
  unfold St.rota Rota.release
  congr 1
  funext q
  rw [redisReleaseSocket_sock]
  by_cases hqp : q = p
  · rw [if_pos hqp, hqp, Function.update_self]
  · rw [if_neg hqp, Function.update_of_ne hqp]

/-- **`redis_release_socket` gives the socket back.** -/
theorem Serving.release (h : Serving s) (t p : ℕ) :
    Serving (redisReleaseSocket t (some p) s) ∧
      (redisReleaseSocket t (some p) s).rota = s.rota.release p := by
  have hfield : ∀ {β : Type} (f : RedisSocket → β),
      (∀ r : RedisSocket, f { r with inuse := 0, mutex := none } = f r) →
      ∀ q, f ((redisReleaseSocket t (some p) s).sock q) = f (s.sock q) := by
    intro β f hf q
    rw [redisReleaseSocket_sock]
    split
    · exact hf _
    · rfl
  refine ⟨⟨h.settled.release t p, h.connectAfter, fun q c hq => ?_, fun q hq => ?_,
    fun q hq => ?_⟩, redisReleaseSocket_rota t p s⟩
  · rw [hfield RedisSocket.conn fun _ => rfl] at hq
    exact h.live q c hq
  · rw [hfield RedisSocket.id fun _ => rfl]
    exact h.id q hq
  · unfold Placed Planned
    rw [hfield RedisSocket.state fun _ => rfl, hfield RedisSocket.conn fun _ => rfl,
      hfield RedisSocket.backup fun _ => rfl]
    exact h.place q hq

/-! ## The eager creation -/

/-- The rota of a new pool. -/
def Rota.new (c : PoolConfig) : Rota := ⟨c.numSocks, none, fun _ => none⟩

/-- The creation has made the sockets `0, …, i - 1` and connected them. -/
structure Creating (c : PoolConfig) (i : ℕ) (s : St) : Prop where
  config : s.config = c
  connectAfter : s.connectAfter = 0
  lastUsed : s.lastUsed = none
  live : ∀ p c, (s.sock p).conn = some c → c < s.world.nctx
  made : ∀ p, p < i → (s.sock p).id = p ∧ Placed s p

theorem Creating.step {c : PoolConfig} {i : ℕ} (hup : env.Up) (h : Creating c i s) :
    Creating c (i + 1) (pushSocket i (initSocket env i s)) := by
  have hinit : initSocket env i s = (connectSingleSocket env i (beforeInit env i s)).1 := by
    rcases initSocket_cases env i s with ⟨hle, -⟩ | ⟨-, e⟩
    · rw [h.connectAfter] at hle
      exact absurd (hup.clock _) (not_lt.mpr hle)
    · exact e
  obtain ⟨-, hopen⟩ := connectSingleSocket_opened (hup.connect (beforeInit env i s).world.connects) i
  rw [← hinit] at hopen
  have hnew : (beforeInit env i s).sock i = newSocket s.config i := by
    simp [beforeInit, unconnected]
  have hold : ∀ q, q ≠ i → (initSocket env i s).sock q = s.sock q := by
    intro q hq
    rw [hopen.frame.other q hq]
    simp [beforeInit, unconnected, hq]
  have hfield : ∀ {β : Type} (f : RedisSocket → β),
      (∀ (r : RedisSocket) (x : Option ℕ), f { r with next := x } = f r) →
      ∀ q, f ((pushSocket i (initSocket env i s)).sock q) = f ((initSocket env i s).sock q) := by
    intro β f hf q
    by_cases hq : q = i
    · rw [hq]
      simp only [pushSocket, St.setSock_self]
      exact hf _ _
    · simp [pushSocket, hq]
  have hnctx : (pushSocket i (initSocket env i s)).world.nctx = s.world.nctx + 1 := hopen.nctx
  have hconf : (pushSocket i (initSocket env i s)).config = s.config := hopen.frame.config
  refine ⟨hconf.trans h.config, hopen.connectAfter.trans h.connectAfter,
    hopen.frame.lastUsed.trans h.lastUsed, fun q x hq => ?_, fun q hq => ?_⟩
  · rw [hfield RedisSocket.conn fun _ _ => rfl] at hq
    rw [hnctx]
    by_cases hqi : q = i
    · rw [hqi, hopen.conn] at hq
      obtain rfl := Option.some.inj hq
      exact Nat.lt_succ_self _
    · rw [hold q hqi] at hq
      exact Nat.lt_succ_of_lt (h.live q x hq)
  · unfold Placed
    rw [hfield RedisSocket.id fun _ _ => rfl, hfield RedisSocket.state fun _ _ => rfl,
      hfield RedisSocket.conn fun _ _ => rfl, hconf]
    by_cases hqi : q = i
    · rw [hqi, hopen.frame.id, hnew]
      refine ⟨rfl, hopen.state, _, hopen.conn, ?_⟩
      show ((initSocket env i s).world.ctx _).endpoint = _
      rw [hopen.endpoint, hnew]; rfl
    · obtain ⟨hid, hst, x, hx, hep⟩ := h.made q (by omega)
      rw [hold q hqi]
      refine ⟨hid, hst, x, hx, ?_⟩
      show ((initSocket env i s).world.ctx _).endpoint = _
      rw [hopen.old x (h.live q x hx)]
      exact hep

theorem redisPoolCreate_creating {config : RedisConfig} {w : World} (hup : env.Up)
    (h : redisPoolCreate env config w = .ok s) :
    ∃ c, checkConfig config = some c ∧ Creating c s.numSocks s := by
  refine redisPoolCreate_induction
    (P := fun i s => ∃ c, checkConfig config = some c ∧ Creating c i s) h (fun c hc => ?_)
    fun i s hs => ?_
  · refine ⟨c, hc, rfl, rfl, rfl, fun p x hp => ?_, fun p hp => absurd hp (Nat.not_lt_zero p)⟩
    cases hp
  · obtain ⟨c, hc, hcr⟩ := hs
    exact ⟨c, hc, hcr.step hup⟩

theorem redisPoolCreate_serving {config : RedisConfig} {w : World} (hup : env.Up)
    (h : redisPoolCreate env config w = .ok s) :
    ∃ c, checkConfig config = some c ∧ s.config = c ∧ Serving s ∧ s.rota = Rota.new c := by
  obtain ⟨c, hc, hcr⟩ := redisPoolCreate_creating hup h
  have hfree := redisPoolCreate_free h
  refine ⟨c, hc, hcr.config, ⟨⟨redisPoolCreate_linked h, fun p _ _ => (hfree p).2⟩,
    hcr.connectAfter, hcr.live, fun p hp => (hcr.made p hp).1,
    fun p hp => Or.inl (hcr.made p hp).2⟩, ?_⟩
  unfold St.rota Rota.new St.numSocks
  rw [hcr.config, hcr.lastUsed]
  congr 1
  funext p
  exact (hfree p).1

end Serving

end Hiredispool.Pool
