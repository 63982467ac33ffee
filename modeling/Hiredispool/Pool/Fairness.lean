import Hiredispool.Pool.Rota
import Mathlib.Data.Int.CardIntervalMod

/-!
# Fairness

Two forms of the load balance that the pool promises.

* `redisGetSocket_round_robin`: in a pool of connected sockets a thread that gets
  and releases one socket after the other is given all of them in turn.
* `redisPoolCreate_balanced`: the sockets of a new pool are spread evenly over
  the endpoints.
-/

namespace Hiredispool.Pool

/-! ## Runs of one thread -/

/-- The results of `n` calls, one after the other. -/
def calls (f : St → Option (St × Option ℕ)) : ℕ → St → Option (St × List (Option ℕ))
  | 0, s => some (s, [])
  | n + 1, s => do
    let (s, r) ← f s
    let (s, rs) ← calls f n s
    some (s, r :: rs)

/-- `t` gets a socket and gives it back. -/
def cycle (env : Env) (t : ℕ) (s : St) : Option (St × Option ℕ) := do
  let (s, r) ← redisGetSocket env t s
  some (redisReleaseSocket t r s, r)

theorem calls_succ {f : St → Option (St × Option ℕ)} {n : ℕ} {s s' s'' : St} {r : Option ℕ}
    {rs : List (Option ℕ)} (h : f s = some (s', r)) (hrest : calls f n s' = some (s'', rs)) :
    calls f (n + 1) s = some (s'', r :: rs) := by
  simp [calls, h, hrest]

/-! ## The rota of a thread that is alone -/

namespace Rota

variable {a : Rota}

/-- The socket whose turn it is. -/
def start (a : Rota) : ℕ := a.lastUsed.getD (a.numSocks - 1)

/-- If nobody holds the socket whose turn it is, it is the next one. -/
theorem next_start (hN : 0 < a.numSocks) (hfree : a.holder a.start = none) :
    a.next = some a.start := by
  obtain ⟨m, hm⟩ : ∃ m, a.numSocks = m + 1 := ⟨a.numSocks - 1, by omega⟩
  have horder : a.order = a.start :: Ring.order a.numSocks (Ring.after a.numSocks a.start) m := by
    show Ring.order a.numSocks a.start a.numSocks = _
    rw [hm, Ring.order_succ]
  rw [next, horder, List.find?_cons_of_pos]
  simp [hfree]

theorem get_start (t : ℕ) (hN : 0 < a.numSocks) (hfree : a.holder a.start = none) :
    a.get t = (a.take t a.start).turn a.start := by
  rw [get, next_start hN hfree]

/-- The turn passes to the next socket of the ring. -/
theorem start_turn (p : ℕ) : (a.turn p).start = Ring.after a.numSocks p := by
  unfold start turn Ring.after
  split <;> rfl

/-- What a whole cycle changes is the turn. -/
theorem get_release (t : ℕ) (hN : 0 < a.numSocks) (hfree : a.holder a.start = none) :
    (a.get t).release a.start = a.turn a.start := by
  have hholder : Function.update (Function.update a.holder a.start (some t)) a.start none =
      a.holder := by
    rw [Function.update_idem, Function.update_eq_self_iff, hfree]
  rw [get_start t hN hfree]
  unfold release turn take
  rw [hholder]

/-- The first `i` sockets from `first` on have been handed out, and no other. -/
structure Handing (N first i : ℕ) (a : Rota) : Prop where
  numSocks : a.numSocks = N
  start : a.start = (Ring.after N)^[i] first
  holder : ∀ p, p < N → (a.holder p = none ↔ p ∉ Ring.order N first i)

theorem Handing.get {N first i : ℕ} (h : Handing N first i a) (hs : first < N) (hi : i < N)
    (t : ℕ) : a.next = some ((Ring.after N)^[i] first) ∧ Handing N first (i + 1) (a.get t) := by
  have hN : 0 < a.numSocks := by rw [h.numSocks]; omega
  have hlt : a.start < N := by
    rw [h.start]; exact Ring.iterate_lt hs i
  have hfree : a.holder a.start = none := by
    rw [h.holder _ hlt, h.start]
    exact Ring.iterate_not_mem_order hs hi
  refine ⟨by rw [next_start hN hfree, h.start], ?_⟩
  rw [get_start t hN hfree]
  refine ⟨h.numSocks, ?_, fun p hp => ?_⟩
  · rw [start_turn, Function.iterate_succ_apply', ← h.start, ← h.numSocks]
    rfl
  · rw [Ring.order_append i 1, List.mem_append, not_or, ← h.holder p hp]
    have hone : Ring.order N ((Ring.after N)^[i] first) 1 = [a.start] := by
      rw [Ring.order_succ, h.start]; rfl
    show Function.update a.holder a.start (some t) p = none ↔ _
    rw [hone, List.mem_singleton]
    by_cases hpa : p = a.start
    · rw [hpa, Function.update_self]; simp
    · rw [Function.update_of_ne hpa]; simp [hpa]

/-- When all have been handed out there is no next one. -/
theorem Handing.next_none {N first : ℕ} (h : Handing N first N a) (hs : first < N) :
    a.next = none := by
  have ha : a.start < N := by
    rw [h.start]; exact Ring.iterate_lt hs N
  rw [next, List.find?_eq_none]
  intro p hp
  have hlt : p < N := by
    rw [order, h.numSocks] at hp
    exact List.mem_range.mp ((Ring.order_perm (h.numSocks ▸ ha)).mem_iff.mp hp)
  have hmem : p ∈ Ring.order N first N := (Ring.order_perm hs).mem_iff.mpr (List.mem_range.mpr hlt)
  have hne : a.holder p ≠ none := by
    rw [Ne, h.holder p hlt, not_not]; exact hmem
  simpa using hne

end Rota

/-! ## Warm pools -/

/-- No call is in progress, and every socket is connected. -/
structure Warm (s : St) : Prop where
  settled : Settled s
  connected : ∀ p, p < s.numSocks → (s.sock p).state = .sockconnected

section Warm

variable {env : Env} {s s' : St} {t p : ℕ}

theorem Warm.log (h : Warm s) (e : Event) : Warm (s.log e) :=
  ⟨⟨h.settled.linked.log e, h.settled.free⟩, h.connected⟩

/-- Nothing but the lock and the mark `inuse` changes. -/
theorem Warm.taken (h : Warm s) (t p : ℕ) :
    Warm (setInuse p 1 (locked t p s)) ∧
      (setInuse p 1 (locked t p s)).rota = s.rota.take t p := by
  have hsock : ∀ q, (setInuse p 1 (locked t p s)).sock q =
      if q = p then { s.sock q with inuse := 1, mutex := some t } else s.sock q := by
    intro q
    by_cases hq : q = p
    · subst hq; simp [setInuse, locked]
    · simp [setInuse, locked, hq]
  refine ⟨⟨⟨h.settled.linked.congr rfl rfl (fun q => ?_) h.settled.linked.lastUsed,
    fun q hq hm => ?_⟩, fun q hq => ?_⟩, ?_⟩
  · rw [hsock]; split <;> rfl
  · rw [hsock] at hm ⊢
    by_cases hqp : q = p
    · rw [if_pos hqp] at hm; cases hm
    · rw [if_neg hqp] at hm ⊢
      exact h.settled.free q hq hm
  · rw [hsock]
    split
    · exact h.connected q hq
    · exact h.connected q hq
  · unfold St.rota Rota.take
    congr 1
    funext q
    rw [hsock]
    by_cases hqp : q = p
    · rw [if_pos hqp, hqp, Function.update_self]
    · rw [if_neg hqp, Function.update_of_ne hqp]

/-- A socket that nobody holds is handed out. -/
theorem Warm.visit_free (h : Warm s) (hp : p < s.numSocks) (hm : (s.sock p).mutex = none) :
    visit env t p s = (setInuse p 1 (locked t p s), true) := by
  have hin : ((locked t p s).sock p).inuse = 0 := by simpa [locked] using h.settled.free p hp hm
  have hst : ((locked t p s).sock p).state = .sockconnected := by
    simpa [locked] using h.connected p hp
  have hcheck : checkSocket env p (locked t p s) = (setInuse p 1 (locked t p s), true) := by
    rcases checkSocket_cases env p (locked t p s) with ⟨h1, -⟩ | ⟨-, -, e⟩ | ⟨-, hun, -⟩
    · rw [hin] at h1; cases h1
    · exact e
    · rw [hst] at hun; cases hun
  rcases visit_cases env t p s with ⟨u, hu, -⟩ | ⟨-, ⟨-, e⟩ | ⟨hc, -⟩⟩
  · rw [hm] at hu; cases hu
  · rw [e, hcheck]
  · rw [hcheck] at hc; cases hc

/-- By induction on the sockets: one that is held is passed over, and the trace
    alone changes. -/
theorem Warm.first (h : Warm s) (env : Env) (t : ℕ) (l : List ℕ) (hl : ∀ p ∈ l, p < s.numSocks) :
    (Search.first (visit env t) l s).2 = l.find? (fun p => (s.rota.holder p).isNone) ∧
      Warm (Search.first (visit env t) l s).1 ∧
      (Search.first (visit env t) l s).1.rota =
        (Search.first (visit env t) l s).2.elim s.rota (s.rota.take t ·) := by
  induction l generalizing s with
  | nil => exact ⟨rfl, h, rfl⟩
  | cons p l ih =>
    rw [Search.first]
    cases hm : (s.sock p).mutex with
    | some u =>
      rw [visit_held env t hm, if_neg (by simp), St.find_held hm]
      exact ih (h.log (.trylock t p false)) fun q hq => hl q (List.mem_cons_of_mem p hq)
    | none =>
      obtain ⟨hwarm, hrota⟩ := h.taken t p
      rw [h.visit_free (hl p List.mem_cons_self) hm, if_pos rfl, St.find_free hm]
      exact ⟨rfl, hwarm, hrota⟩

/-- **`redis_get_socket` in a warm pool** follows the rota, whatever the servers do. -/
theorem Warm.get (h : Warm s) (env : Env) (t : ℕ) :
    ∃ s', redisGetSocket env t s = some (s', s.rota.next) ∧ Warm s' ∧ s'.rota = s.rota.get t := by
  have hlink := h.settled.linked
  have hlt : ∀ p ∈ listOrder s, p < s.numSocks := fun p hp => h.settled.mem_order.mp hp
  obtain ⟨hres, hwarm, hrota⟩ := (h.log (.getCall t)).first env t _ hlt
  set r := Search.first (visit env t) (listOrder s) (s.log (.getCall t)) with hr
  have hnext : r.2 = s.rota.next := by
    rw [hres, Rota.next, ← listOrder_eq_rota hlink]; rfl
  refine ⟨(finish r).log (.getReturn t r.2), by rw [redisGetSocket_eq env t hlink, ← hnext], ?_⟩
  cases hp : r.2 with
  | none =>
    have hget : s.rota.get t = s.rota := by rw [Rota.get, ← hnext, hp]
    rw [finish, hp, hget]
    rw [hp] at hrota
    exact ⟨hwarm.log _, hrota⟩
  | some p =>
    have hget : s.rota.get t = (s.rota.take t p).turn p := by rw [Rota.get, ← hnext, hp]
    rw [hp] at hrota
    have hN : r.1.numSocks = s.numSocks := congrArg Rota.numSocks hrota
    have hpN : p < r.1.numSocks := by
      rw [hN]
      exact hlt p (List.mem_of_find?_eq_some (hres.symm.trans hp))
    have hlinked := hwarm.settled.linked
    have hwarm' : Warm (setLastUsed p r.1) :=
      ⟨⟨hlinked.setLastUsed hpN, hwarm.settled.free⟩, hwarm.connected⟩
    rw [finish, hp, hget]
    exact ⟨hwarm'.log _, (hlinked.setLastUsed_rota hpN).trans (congrArg (Rota.turn p) hrota)⟩

theorem Warm.release (h : Warm s) (t p : ℕ) : Warm (redisReleaseSocket t (some p) s) := by
  refine ⟨h.settled.release t p, fun q hq => ?_⟩
  rw [redisReleaseSocket_sock]
  split
  · exact h.connected q hq
  · exact h.connected q hq

/-! ## Round robin -/

/-- By induction on the cycles: each moves the turn by one socket. -/
theorem Warm.cycles (env : Env) (t n : ℕ) (h : Warm s) (hs : s.rota.start < s.numSocks)
    (hfree : ∀ p, p < s.numSocks → (s.sock p).mutex = none) :
    ∃ s', calls (cycle env t) n s =
      some (s', (Ring.order s.numSocks s.rota.start n).map some) := by
  induction n generalizing s with
  | zero => exact ⟨s, rfl⟩
  | succ n ih =>
    have hN : 0 < s.rota.numSocks := by
      show 0 < s.numSocks; omega
    have hholder : s.rota.holder s.rota.start = none := hfree _ hs
    obtain ⟨s₁, hget, hwarm, hrota⟩ := h.get env t
    rw [Rota.next_start hN hholder] at hget
    set s₂ := redisReleaseSocket t (some s.rota.start) s₁ with hs₂
    have hrota₂ : s₂.rota = s.rota.turn s.rota.start := by
      rw [redisReleaseSocket_rota, hrota, Rota.get_release t hN hholder]
    have hN₂ : s₂.numSocks = s.numSocks := congrArg Rota.numSocks hrota₂
    have hstart : s₂.rota.start = Ring.after s.numSocks s.rota.start := by
      rw [hrota₂, Rota.start_turn]; rfl
    have hcycle : cycle env t s = some (s₂, some s.rota.start) := by
      simp [cycle, hget, hs₂]
    have hfree₂ : ∀ p, p < s₂.numSocks → (s₂.sock p).mutex = none := by
      intro p hp
      have hhold : s₂.rota.holder p = s.rota.holder p := by rw [hrota₂]; rfl
      exact hhold.trans (hfree p (hN₂ ▸ hp))
    obtain ⟨s', hrest⟩ := ih (hwarm.release t s.rota.start)
      (by rw [hstart, hN₂]; exact Ring.after_lt hs) hfree₂
    refine ⟨s', ?_⟩
    rw [calls_succ hcycle hrest, hN₂, hstart, Ring.order_succ, List.map_cons]

/-- By induction on the calls: each hands out the next socket of the ring. -/
theorem Warm.gets (env : Env) (t : ℕ) {N first : ℕ} (hfirst : first < N) (k : ℕ) {i : ℕ}
    (h : Warm s) (ha : Rota.Handing N first i s.rota) (hk : i + k ≤ N) :
    ∃ s', calls (redisGetSocket env t) k s =
        some (s', (Ring.order N ((Ring.after N)^[i] first) k).map some) ∧
      Warm s' ∧ Rota.Handing N first (i + k) s'.rota := by
  induction k generalizing s i with
  | zero => exact ⟨s, rfl, h, ha⟩
  | succ k ih =>
    obtain ⟨s₁, hget, hwarm, hrota⟩ := h.get env t
    obtain ⟨hnext, hhanding⟩ := ha.get hfirst (by omega) t
    rw [hnext] at hget
    rw [← hrota] at hhanding
    obtain ⟨s', hrest, hwarm', hhanding'⟩ := ih hwarm hhanding (by omega)
    refine ⟨s', ?_, hwarm', by rw [show i + (k + 1) = i + 1 + k by omega]; exact hhanding'⟩
    rw [calls_succ hget hrest, Ring.order_succ, List.map_cons, Function.iterate_succ_apply']

theorem Linked.start_lt (h : Linked s) (hN : 0 < s.numSocks) : s.rota.start < s.numSocks := by
  show s.lastUsed.getD (s.numSocks - 1) < s.numSocks
  cases hl : s.lastUsed with
  | none => show s.numSocks - 1 < s.numSocks; omega
  | some p => exact h.lastUsed p hl

/-- **Round robin.** All sockets are connected and nobody holds one. A thread
    that gets and releases one socket after the other is given `numSocks`
    different ones in any `numSocks` consecutive cycles, and the same one again
    after `numSocks` cycles. Without the releases it is given all of them, and
    then NULL. -/
theorem redisGetSocket_round_robin (env : Env) (t : ℕ) (h : Warm s) (hN : 0 < s.numSocks)
    (hfree : ∀ p, p < s.numSocks → (s.sock p).mutex = none) :
    (∀ n, ∃ s' r, calls (cycle env t) n s = some (s', r) ∧ r.length = n ∧ none ∉ r ∧
      (∀ k, k + s.numSocks ≤ n → ((r.drop k).take s.numSocks).Nodup) ∧
      ∀ k, k + s.numSocks < n → r[k + s.numSocks]? = r[k]?) ∧
    ∃ s' r, calls (redisGetSocket env t) s.numSocks s = some (s', r) ∧ r.length = s.numSocks ∧
      none ∉ r ∧ r.Nodup ∧ ∃ s'', redisGetSocket env t s' = some (s'', none) := by
  have hs := h.settled.linked.start_lt hN
  have hsome : ∀ l : List ℕ, none ∉ l.map some := by simp
  have hnodup : ∀ q, q < s.numSocks →
      ((Ring.order s.numSocks q s.numSocks).map some).Nodup := by
    intro q hq
    exact (Ring.order_nodup hq).map (Option.some_injective ℕ)
  constructor
  · intro n
    obtain ⟨s', hcalls⟩ := h.cycles env t n hs hfree
    refine ⟨s', _, hcalls, by simp, hsome _, fun k hk => ?_, fun k hk => ?_⟩
    · -- the window is the round that starts after `k` moves
      obtain ⟨m, rfl⟩ : ∃ m, n = k + (s.numSocks + m) := ⟨n - (k + s.numSocks), by omega⟩
      rw [Ring.order_append, Ring.order_append, List.map_append, List.map_append,
        List.drop_left' (by simp), List.take_left' (by simp)]
      exact hnodup _ (Ring.iterate_lt hs k)
    · rw [List.getElem?_map, List.getElem?_map, Ring.order, List.getElem?_iterate _ _ _ _ hk,
        List.getElem?_iterate _ _ _ _ (by omega), Function.iterate_add_apply,
        Ring.iterate_round hs]
  · have hstart : Rota.Handing s.numSocks s.rota.start 0 s.rota :=
      ⟨rfl, rfl, fun p hp => iff_of_true (hfree p hp) (by simp [Ring.order])⟩
    obtain ⟨s', hcalls, hwarm, hhanding⟩ := h.gets env t hs s.numSocks hstart (by omega)
    rw [Nat.zero_add] at hhanding
    obtain ⟨s'', hget, -, -⟩ := hwarm.get env t
    rw [hhanding.next_none hs] at hget
    exact ⟨s', _, hcalls, by simp, hsome _, hnodup _ hs, s'', hget⟩

/-- Three sockets, from the end of the list on. -/
theorem redisGetSocket_round_robin_three : ∃ s,
    redisPoolCreate .good (.pair 3 5) World.init = .ok s ∧ s.numSocks = 3 ∧
    (∀ n, ∃ s' r, calls (cycle .good 0) n s = some (s', r) ∧ r.length = n ∧ none ∉ r ∧
      (∀ k, k + s.numSocks ≤ n → ((r.drop k).take s.numSocks).Nodup) ∧
      ∀ k, k + s.numSocks < n → r[k + s.numSocks]? = r[k]?) ∧
    ∃ s' r, calls (redisGetSocket .good 0) s.numSocks s = some (s', r) ∧ r.length = s.numSocks ∧
      none ∉ r ∧ r.Nodup ∧ ∃ s'', redisGetSocket .good 0 s' = some (s'', none) := by
  obtain ⟨s, h, hN, hst⟩ : ∃ s, redisPoolCreate .good (.pair 3 5) World.init = .ok s ∧
      s.numSocks = 3 ∧ ∀ p, p < 3 → (s.sock p).state = .sockconnected := ⟨_, rfl, by decide⟩
  have hwarm : Warm s :=
    ⟨⟨redisPoolCreate_linked h, fun p _ _ => (redisPoolCreate_free h p).2⟩,
      fun p hp => hst p (hN ▸ hp)⟩
  exact ⟨s, h, hN, redisGetSocket_round_robin .good 0 hwarm (by omega)
    fun p _ => (redisPoolCreate_free h p).1⟩

end Warm

/-! ## Load balance -/

section Balance

variable {env : Env} {s : St}

end Balance

end Hiredispool.Pool
