import Hiredispool.Lib.Search
import Hiredispool.Pool.Options

/-!
# The order of the scan

`redis_get_socket` walks a circular view of a NULL-terminated list. Without
other threads the walk is a linear search through `listOrder`, the sockets from
`last_used` (or the head) on, each of them once.

* `redisGetSocket_eq`: the loop with its wrap and its stop test is that search.
* `visit_passes_iff`: when a socket can be handed out.
* `redisGetSocket_scanned`: what a call returns and changes.
-/

namespace Hiredispool.Pool

/-! ## The circular list -/

/-- The socket after `p`: its `next`, or the head of the list at the end. -/
def listNext (s : St) (p : ℕ) : ℕ := ((s.sock p).next.or s.redisPool).getD p

/-- The sockets in the order in which a scan from `s` would meet them. -/
def listOrder (s : St) : List ℕ :=
  match scanStart s with
  | none => []
  | some start => List.iterate (listNext s) start s.numSocks

section Order

variable {s : St}

theorem listNext_eq (h : Linked s) {p : ℕ} (hp : p < s.numSocks) :
    listNext s p = Ring.after s.numSocks p := by
  unfold listNext Ring.after
  rw [h.next p hp, h.redisPool]
  by_cases hz : p = 0 <;> simp [hz, show s.numSocks ≠ 0 by omega]

theorem iterate_listNext (h : Linked s) {p : ℕ} (hp : p < s.numSocks) (m : ℕ) :
    List.iterate (listNext s) p m = Ring.order s.numSocks p m := by
  induction m generalizing p with
  | zero => rfl
  | succ m ih =>
    rw [Ring.order_succ, List.iterate, listNext_eq h hp, ih (Ring.after_lt hp)]

theorem listOrder_eq (h : Linked s) {start : ℕ} (hs : scanStart s = some start) :
    listOrder s = Ring.order s.numSocks start s.numSocks := by
  unfold listOrder
  rw [hs]
  exact iterate_listNext h (scanStart_lt h hs) _

/-- The scan starts at `last_used`, or else at the head of the list. -/
theorem listOrder_start (h : Linked s) {p : ℕ}
    (hp : s.lastUsed = some p ∨ s.lastUsed = none ∧ s.redisPool = some p) :
    (listOrder s).head? = some p := by
  have hstart : scanStart s = some p := by
    rcases hp with hp | ⟨hnone, hp⟩
    · rw [scanStart, hp, Option.some_or]
    · rw [scanStart, hnone, hp, Option.none_or]
  have hlt := scanStart_lt h hstart
  rw [listOrder, hstart]
  cases hn : s.numSocks with
  | zero => omega
  | succ n => rfl

/-- By induction on the list: each value of an iteration is that of the one before it. -/
theorem iterate_split {f : ℕ → ℕ} {a m p q : ℕ} {l l' : List ℕ}
    (h : List.iterate f a m = l ++ p :: q :: l') : q = f p := by
  induction l generalizing a m with
  | nil =>
    cases m with
    | zero => cases h
    | succ m =>
      cases m with
      | zero => cases (List.cons.inj h).2
      | succ m =>
        obtain ⟨hp, hq⟩ := List.cons.inj h
        rw [← hp]
        exact (List.cons.inj hq).1.symm
  | cons b l ih =>
    cases m with
    | zero => cases h
    | succ m => exact ih (List.cons.inj h).2

/-- From each socket the scan goes on to the next one of the circular list. -/
theorem listOrder_next {p q : ℕ} {l l' : List ℕ} (h : listOrder s = l ++ p :: q :: l') :
    q = listNext s p := by
  unfold listOrder at h
  split at h
  · cases l <;> cases h
  · exact iterate_split h

/-- Each socket of the list is met once. -/
theorem listOrder_perm (h : Linked s) : (listOrder s).Perm (List.range s.numSocks) := by
  by_cases h0 : s.numSocks = 0
  · unfold listOrder
    cases hs : scanStart s with
    | none => simp [h0]
    | some start => simp [h0]
  · obtain ⟨start, hs⟩ := scanStart_isSome h (Nat.pos_of_ne_zero h0)
    rw [listOrder_eq h hs]
    exact Ring.order_perm (scanStart_lt h hs)

end Order

/-! ## The loop as a search -/

/-- The end of the loop: the write of `last_used`. -/
def finish (r : St × Option ℕ) : St :=
  match r.2 with
  | some p => setLastUsed p r.1
  | none => r.1

/-- By induction on the sockets left in the round: the wrap at the end of the
    list and the stop test together run through the rest of the order. -/
theorem scan_eq (env : Env) (t : ℕ) {start : ℕ} : ∀ (fuel cur : ℕ) (s : St), Linked s →
    start < s.numSocks → cur < s.numSocks → 0 < fuel →
    Ring.hops s.numSocks start cur + fuel = s.numSocks →
    scan env t start fuel cur s =
      some (finish (Search.first (visit env t) (Ring.order s.numSocks cur fuel) s),
        (Search.first (visit env t) (Ring.order s.numSocks cur fuel) s).2) := by
  intro fuel
  induction fuel with
  | zero => intro cur s _ _ _ h0; omega
  | succ fuel ih =>
    intro cur s hl hstart hcur _ hf
    obtain ⟨hl', hN⟩ := hl.visit env t cur
    rw [scan, Ring.order_succ, Search.first]
    dsimp only
    cases hfound : (visit env t cur s).2 with
    | true => rfl
    | false =>
      rw [if_neg (by simp), if_neg (by simp), nextSocket_eq hl' (hN ▸ hcur), hN]
      by_cases hback : Ring.after s.numSocks cur = start
      · have hlast := Ring.hops_last hstart hcur hback
        obtain rfl : fuel = 0 := by omega
        rw [if_pos hback]; rfl
      · have hnext := Ring.hops_after hstart hcur hback
        have hlt := Ring.after_lt hcur
        have hlt' := Ring.hops_lt hstart hlt
        rw [if_neg hback, ← hN]
        exact ih _ _ hl' (hN ▸ hstart) (by rw [hN]; exact hlt) (by omega) (by rw [hN]; omega)

/-- **A call of `redis_get_socket` is a search through the list.** -/
theorem redisGetSocket_eq (env : Env) (t : ℕ) {s : St} (h : Linked s) :
    redisGetSocket env t s =
      let r := Search.first (visit env t) (listOrder s) (s.log (.getCall t))
      some ((finish r).log (.getReturn t r.2), r.2) := by
  have hlog : scanStart (s.log (.getCall t)) = scanStart s := rfl
  unfold redisGetSocket
  dsimp only
  rw [hlog]
  cases hstart : scanStart s with
  | none =>
    have hord : listOrder s = [] := by unfold listOrder; rw [hstart]
    rw [hord]; rfl
  | some start =>
    have hlt : start < s.numSocks := scanStart_lt h hstart
    rw [listOrder_eq h hstart]
    dsimp only
    have hscan := scan_eq env t (s.log (.getCall t)).numSocks start (s.log (.getCall t)) (h.log _)
      hlt hlt (Nat.zero_lt_of_lt hlt) (by simp)
    rw [hscan]; rfl

/-! ## One socket -/

/-- `p` can be handed out: it is not held, and it is connected or the grace
    period is over and one of the next `num_endpoints` attempts is accepted. -/
def Passes (env : Env) (s : St) (p : ℕ) : Prop :=
  (s.sock p).mutex = none ∧
    ((s.sock p).state = .sockconnected ∨ s.connectAfter < env.clock s.world.clocks ∧
      ∃ i < s.config.numEndpoints, env.connect (s.world.connects + i) = .ok)

/-- The sockets that a scan has examined, in order. -/
def examined (tr : List Event) : List ℕ :=
  tr.filterMap fun
    | .trylock _ p _ => some p
    | _ => none

@[simp] theorem examined_append (tr tr' : List Event) :
    examined (tr ++ tr') = examined tr ++ examined tr' := List.filterMap_append

section Visit

variable {env : Env} {t p : ℕ} {s : St}

@[simp] theorem locked_of_ne {q : ℕ} (h : q ≠ p) : (locked t p s).sock q = s.sock q := by
  simp [locked, h]

@[simp] theorem locked_mutex : ((locked t p s).sock p).mutex = some t := by simp [locked]

@[simp] theorem locked_next (q : ℕ) : ((locked t p s).sock q).next = (s.sock q).next := by
  by_cases hq : q = p <;> simp [locked, hq]

@[simp] theorem locked_inuse (q : ℕ) : ((locked t p s).sock q).inuse = (s.sock q).inuse := by
  by_cases hq : q = p <;> simp [locked, hq]

@[simp] theorem locked_trace :
    (locked t p s).world.trace = s.world.trace ++ [.trylock t p true] := rfl

/-- A call succeeds iff one of its attempts is accepted. -/
theorem connectSingleSocket_ok_iff (env : Env) (p : ℕ) (s : St) :
    (connectSingleSocket env p s).2 = true ↔
      ∃ i < s.config.numEndpoints, env.connect (s.world.connects + i) = .ok := by
  rcases connectSingleSocket_options env p s with ⟨i, hi, hfirst, hopt⟩ | ⟨hno, hfalse⟩
  · exact iff_of_true hopt.ok ⟨i, hi, hfirst.1⟩
  · refine iff_of_false (by simp [hfalse]) ?_
    rintro ⟨i, hi, hok⟩
    exact hno i hi hok

/-- The checks under the mutex, for a socket that is not in use. -/
theorem checkSocket_iff (env : Env) (h0 : (s.sock p).inuse ≠ 1) :
    (checkSocket env p s).2 = true ↔
      (s.sock p).state = .sockconnected ∨ s.connectAfter < env.clock s.world.clocks ∧
        ∃ i < s.config.numEndpoints, env.connect (s.world.connects + i) = .ok := by
  have hok := connectSingleSocket_ok_iff env p (beforeConnect env p s)
  rcases checkSocket_cases env p s with
    ⟨h1, -⟩ | ⟨-, hst, h⟩ | ⟨-, hst, ⟨hle, h⟩ | ⟨hlt, ⟨ho, h⟩ | ⟨ho, h⟩⟩⟩
  · exact absurd h1 h0
  · simp [h, hst]
  · simp [h, hst, not_lt.mpr hle]
  · rw [h]
    exact iff_of_true ho (Or.inr ⟨hlt, hok.mp ho⟩)
  · rw [h]
    refine iff_of_false (by simp) ?_
    rintro (hc | ⟨-, hacc⟩)
    · rw [hst] at hc; cases hc
    · rw [hok.mpr hacc] at ho; cases ho

/-- **When a socket is handed out.** -/
theorem visit_passes_iff (h0 : (s.sock p).mutex = none → (s.sock p).inuse = 0) :
    (visit env t p s).2 = true ↔ Passes env s p := by
  have hcheck : (s.sock p).mutex = none → ((checkSocket env p (locked t p s)).2 = true ↔
      (s.sock p).state = .sockconnected ∨ s.connectAfter < env.clock s.world.clocks ∧
        ∃ i < s.config.numEndpoints, env.connect (s.world.connects + i) = .ok) := by
    intro hm
    have h := checkSocket_iff env (p := p) (s := locked t p s) (by simp [h0 hm])
    simpa [locked] using h
  unfold Passes
  rcases visit_cases env t p s with ⟨u, hm, e⟩ | ⟨hm, ⟨hc, e⟩ | ⟨hc, e⟩⟩
  · simp [e, hm]
  · rw [e]
    exact iff_of_true rfl ⟨hm, (hcheck hm).mp hc⟩
  · rw [e]
    refine iff_of_false (by simp) ?_
    rintro ⟨-, h⟩
    rw [(hcheck hm).mpr h] at hc; cases hc

theorem connectSingleSocket_examined (env : Env) (p : ℕ) (s : St) :
    ∃ new, (connectSingleSocket env p s).1.world.trace = s.world.trace ++ new ∧
      examined new = [] := by
  have hattempt : ∀ new : List Event, (∀ e ∈ new, e.ofAttempt p) → examined new = [] := by
    intro new hnew
    refine List.filterMap_eq_nil_iff.mpr fun e he => ?_
    have h := hnew e he
    cases e <;> simp_all [Event.ofAttempt]
  obtain ⟨new, hnew, ⟨-, -, -, htr⟩ | ⟨-, -, -, htr⟩⟩ := (connectSingleSocket_spec env p s).trace
  · exact ⟨new, htr, hattempt new hnew⟩
  · refine ⟨new ++ [.connectFailed p (env.clock s.world.clocks)], by rw [htr, List.append_assoc], ?_⟩
    rw [examined_append, hattempt new hnew]; rfl

theorem checkSocket_examined (env : Env) (p : ℕ) (s : St) :
    ∃ new, (checkSocket env p s).1.world.trace = s.world.trace ++ new ∧ examined new = [] := by
  obtain ⟨new, htr, hnew⟩ := connectSingleSocket_examined env p (beforeConnect env p s)
  set start := Event.startConnect .scan p (env.clock s.world.clocks) with hstart
  have hconn : (connectSingleSocket env p (beforeConnect env p s)).1.world.trace =
      s.world.trace ++ ([start] ++ new) := by
    rw [htr, ← List.append_assoc]; rfl
  have hnew' : examined ([start] ++ new) = [] := by
    rw [examined_append, hnew]; rfl
  rcases checkSocket_cases env p s with ⟨-, h⟩ | ⟨-, -, h⟩ | ⟨-, -, ⟨-, h⟩ | ⟨-, ⟨-, h⟩ | ⟨-, h⟩⟩⟩
  · exact ⟨[], by rw [h, List.append_nil], rfl⟩
  · exact ⟨[], by rw [h, List.append_nil]; rfl, rfl⟩
  · exact ⟨[.ignored p (env.clock s.world.clocks) false], by rw [h]; rfl, rfl⟩
  · exact ⟨_, by rw [h, hconn], hnew'⟩
  · refine ⟨[start] ++ new ++ [.ignored p (env.clock s.world.clocks) true], ?_, ?_⟩
    · rw [h, ← List.append_assoc, ← hconn]; rfl
    · rw [examined_append, hnew']; rfl

/-- `s'` is the state after a scan from `s` has examined the sockets of `l` and
    handed out none of them. -/
structure Examined (s : St) (l : List ℕ) (s' : St) : Prop where
  config : s'.config = s.config
  redisPool : s'.redisPool = s.redisPool
  lastUsed : s'.lastUsed = s.lastUsed
  next : ∀ q, (s'.sock q).next = (s.sock q).next
  mutex : ∀ q, (s'.sock q).mutex = (s.sock q).mutex
  inuse : ∀ q, (s'.sock q).inuse = (s.sock q).inuse
  other : ∀ q, q ∉ l → s'.sock q = s.sock q
  held : ∀ q, (s.sock q).mutex ≠ none → s'.sock q = s.sock q
  trace : ∃ new, s'.world.trace = s.world.trace ++ new ∧ examined new = l

theorem Examined.nil (s : St) : Examined s [] s :=
  ⟨rfl, rfl, rfl, fun _ => rfl, fun _ => rfl, fun _ => rfl, fun _ _ => rfl, fun _ _ => rfl,
    [], by simp, rfl⟩

theorem Examined.trans {l l' : List ℕ} {s' s'' : St} (h : Examined s l s')
    (h' : Examined s' l' s'') : Examined s (l ++ l') s'' where
  config := h'.config.trans h.config
  redisPool := h'.redisPool.trans h.redisPool
  lastUsed := h'.lastUsed.trans h.lastUsed
  next q := (h'.next q).trans (h.next q)
  mutex q := (h'.mutex q).trans (h.mutex q)
  inuse q := (h'.inuse q).trans (h.inuse q)
  other q hq := by
    rw [List.mem_append, not_or] at hq
    exact (h'.other q hq.2).trans (h.other q hq.1)
  held q hq := (h'.held q (by rwa [h.mutex q])).trans (h.held q hq)
  trace := by
    obtain ⟨new, htr, hnew⟩ := h.trace
    obtain ⟨new', htr', hnew'⟩ := h'.trace
    exact ⟨new ++ new', by rw [htr', htr, List.append_assoc], by rw [examined_append, hnew, hnew']⟩

/-- A socket that is not handed out is locked and unlocked, or not even locked. -/
theorem visit_examined (h0 : (s.sock p).mutex = none → (s.sock p).inuse = 0)
    (hrej : (visit env t p s).2 = false) : Examined s [p] (visit env t p s).1 := by
  rcases visit_cases env t p s with ⟨u, hm, e⟩ | ⟨hm, ⟨hc, e⟩ | ⟨hc, e⟩⟩
  · rw [e]
    exact ⟨rfl, rfl, rfl, fun _ => rfl, fun _ => rfl, fun _ => rfl, fun _ _ => rfl, fun _ _ => rfl,
      [.trylock t p false], rfl, rfl⟩
  · rw [e] at hrej; cases hrej
  · rw [e]
    have hf := checkSocket_frame env p (locked t p s)
    obtain ⟨new, htr, hnew⟩ := checkSocket_examined env p (locked t p s)
    have h0' : ((locked t p s).sock p).inuse = 0 := by simp [h0 hm]
    have hin := checkSocket_inuse env h0'
    rw [hc, if_neg (by simp)] at hin
    have hother : ∀ q, q ≠ p →
        (unlock t p (checkSocket env p (locked t p s)).1).sock q = s.sock q := by
      intro q hq
      simp [unlock, hq, hf.other q hq]
    refine ⟨hf.config, hf.redisPool, hf.lastUsed, fun q => ?_, fun q => ?_, fun q => ?_,
      fun q hq => hother q (by simpa using hq), fun q hq => hother q ?_, ?_⟩
    · by_cases hq : q = p
      · subst hq; simp [unlock, hf.next]
      · rw [hother q hq]
    · by_cases hq : q = p
      · subst hq; simp [unlock, hm]
      · rw [hother q hq]
    · by_cases hq : q = p
      · subst hq; simp [unlock, hin, h0 hm]
      · rw [hother q hq]
    · rintro rfl; exact hq hm
    · refine ⟨.trylock t p true :: new ++ [.unlock t p], ?_, ?_⟩
      · simp [unlock, htr]
      · rw [examined_append]
        show p :: examined new ++ [] = [p]
        rw [hnew]; rfl

/-- `s'` is the state after the socket `p` has been handed out to `t`. -/
structure Obtained (t p : ℕ) (s s' : St) : Prop where
  config : s'.config = s.config
  redisPool : s'.redisPool = s.redisPool
  lastUsed : s'.lastUsed = s.lastUsed
  next : ∀ q, (s'.sock q).next = (s.sock q).next
  other : ∀ q, q ≠ p → s'.sock q = s.sock q
  mutex : (s'.sock p).mutex = some t
  inuse : (s'.sock p).inuse = 1
  state : (s'.sock p).state = .sockconnected
  trace : ∃ new, s'.world.trace = s.world.trace ++ new ∧ examined new = [p]

theorem visit_obtained (h0 : (s.sock p).mutex = none → (s.sock p).inuse = 0)
    (hok : (visit env t p s).2 = true) : Obtained t p s (visit env t p s).1 := by
  rcases visit_cases env t p s with ⟨u, hm, e⟩ | ⟨hm, ⟨hc, e⟩ | ⟨hc, e⟩⟩
  · rw [e] at hok; cases hok
  · rw [e]
    have hf := checkSocket_frame env p (locked t p s)
    obtain ⟨new, htr, hnew⟩ := checkSocket_examined env p (locked t p s)
    have h0' : ((locked t p s).sock p).inuse = 0 := by simp [h0 hm]
    have hin := checkSocket_inuse env h0'
    rw [hc, if_pos rfl] at hin
    refine ⟨hf.config, hf.redisPool, hf.lastUsed, fun q => ?_, fun q hq => ?_, ?_, hin, ?_, ?_⟩
    · by_cases hq : q = p
      · subst hq; simp [hf.next]
      · simp [hf.other q hq, hq]
    · simp [hf.other q hq, hq]
    · simp [hf.mutex]
    · exact checkSocket_state hc
    · refine ⟨.trylock t p true :: new, ?_, ?_⟩
      · simp [htr]
      · show p :: examined new = [p]
        rw [hnew]
  · rw [e] at hok; cases hok

end Visit

/-! ## The whole call -/

/-- No call is in progress: the list is linked, and a socket whose mutex is free
    is not in use. -/
structure Settled (s : St) : Prop where
  linked : Linked s
  free : ∀ p, p < s.numSocks → (s.sock p).mutex = none → (s.sock p).inuse = 0

/-- The state in which a scan from `s` by `t` meets the socket that comes after
    those of `l`. -/
def scanState (env : Env) (t : ℕ) (s : St) (l : List ℕ) : St :=
  Search.after (visit env t) l (s.log (.getCall t))

section Scanned

variable (env : Env) (t : ℕ)

/-- `p` comes after `l` in the order of the scan from `s`, and is the first
    socket that can be handed out. -/
def FirstPassing (s : St) (l : List ℕ) (p : ℕ) : Prop :=
  (∃ l', listOrder s = l ++ p :: l') ∧ Passes env (scanState env t s l) p ∧
    ∀ l₁ q l₂, l = l₁ ++ q :: l₂ → ¬Passes env (scanState env t s l₁) q

/-- No socket can be handed out when the scan from `s` meets it. -/
def NonePassing (s : St) : Prop :=
  ∀ l q l', listOrder s = l ++ q :: l' → ¬Passes env (scanState env t s l) q

/-- A call of `redis_get_socket` by `t` took the pool from `s` to `s'` and
    returned `r`. -/
structure Scanned (s s' : St) (r : Option ℕ) : Prop where
  /-- The sockets are examined in the order of the list, each at most once. -/
  order : (listOrder s).Perm (List.range s.numSocks)
  /-- The first of them is `last_used`, or else the head. -/
  start : ∀ p, s.lastUsed = some p ∨ s.lastUsed = none ∧ s.redisPool = some p →
    (listOrder s).head? = some p
  next : ∀ l p q l', listOrder s = l ++ p :: q :: l' → q = listNext s p
  trace : ∃ new, s'.world.trace = s.world.trace ++ new ∧
    ((∃ l p, FirstPassing env t s l p ∧ r = some p ∧ examined new = l ++ [p]) ∨
      NonePassing env t s ∧ r = none ∧ examined new = listOrder s)
  found_iff : ∀ p, r = some p ↔ ∃ l, FirstPassing env t s l p
  null_iff : r = none ↔ NonePassing env t s
  /-- NULL is not returned while a free socket is connected. -/
  null : r = none → ∀ p, p < s.numSocks → (s.sock p).mutex = none →
    (s.sock p).state ≠ .sockconnected
  found : ∀ p, r = some p → (s.sock p).mutex = none ∧ (s.sock p).inuse = 0 ∧
    (s'.sock p).state = .sockconnected
  mutex : ∀ q, (s'.sock q).mutex = if r = some q then some t else (s.sock q).mutex
  inuse : ∀ q, (s'.sock q).inuse = if r = some q then 1 else (s.sock q).inuse
  lastUsed : s'.lastUsed = match r with
    | some p => (s.sock p).next
    | none => s.lastUsed
  held : ∀ q, (s.sock q).mutex ≠ none → s'.sock q = s.sock q

variable {env t} {s : St}

/-- What a scan knows of the sockets that it has still to examine. -/
def FreeUnused (N : ℕ) (s : St) : Prop :=
  ∀ p, p < N → (s.sock p).mutex = none → (s.sock p).inuse = 0

theorem FreeUnused.examined {N : ℕ} {l : List ℕ} {s' : St} (h : FreeUnused N s)
    (he : Examined s l s') : FreeUnused N s' := by
  intro p hp hm
  rw [he.inuse p]
  exact h p hp (by rwa [he.mutex p] at hm)

/-- The state after rejected sockets, by induction on them. -/
theorem examined_after {l : List ℕ} (hl : ∀ p ∈ l, p < s.numSocks) (hs : FreeUnused s.numSocks s)
    (hrej : Search.Rejected (visit env t) l s) :
    Examined s l (Search.after (visit env t) l s) := by
  have h := hrej.induction (P := fun l s' => (∀ p ∈ l, p < s.numSocks) → Examined s l s')
    (fun _ => Examined.nil s) ?_
  · exact h hl
  · intro l s' p ih hfalse hlt
    have h := ih fun q hq => hlt q (List.mem_append_left _ hq)
    have hp : p < s.numSocks := hlt p (by simp)
    exact h.trans (visit_examined (hs.examined h p hp) hfalse)

theorem Settled.mem_order (h : Settled s) {p : ℕ} : p ∈ listOrder s ↔ p < s.numSocks := by
  rw [(listOrder_perm h.linked).mem_iff, List.mem_range]

/-- The rejected sockets, by what can be handed out. -/
theorem Settled.rejected_iff (h : Settled s) {l : List ℕ} (hl : ∀ p ∈ l, p < s.numSocks) :
    Search.Rejected (visit env t) l (s.log (.getCall t)) ↔
      ∀ l₁ q l₂, l = l₁ ++ q :: l₂ → ¬Passes env (scanState env t s l₁) q := by
  refine Search.rejected_iff (I := FreeUnused s.numSocks) (P := fun p s => Passes env s p) h.free
    (fun p hp s' hs' => visit_passes_iff (hs' p (hl p hp))) fun p hp s' hs' hfalse => ?_
  exact FreeUnused.examined hs' (visit_examined (hs' p (hl p hp)) hfalse)

/-- The state of the scan in front of a socket, if those before it are rejected. -/
theorem Settled.examined_before (h : Settled s) {l : List ℕ} (hl : ∀ p ∈ l, p < s.numSocks)
    (hrej : Search.Rejected (visit env t) l (s.log (.getCall t))) :
    Examined (s.log (.getCall t)) l (scanState env t s l) :=
  examined_after hl h.free hrej

/-- The sockets of the scan in front of `p`, and `p`, are sockets of the pool. -/
theorem Settled.split_lt (h : Settled s) {p : ℕ} {l l' : List ℕ}
    (hl : listOrder s = l ++ p :: l') : (∀ q ∈ l, q < s.numSocks) ∧ p < s.numSocks := by
  constructor
  · intro q hq
    rw [← h.mem_order, hl]
    exact List.mem_append_left _ hq
  · rw [← h.mem_order, hl]
    exact List.mem_append_right _ List.mem_cons_self

theorem Settled.firstPassing_iff (h : Settled s) {p : ℕ} {l l' : List ℕ}
    (hl : listOrder s = l ++ p :: l') :
    Search.Rejected (visit env t) l (s.log (.getCall t)) ∧
        (visit env t p (scanState env t s l)).2 = true ↔ FirstPassing env t s l p := by
  obtain ⟨hlt, hp⟩ := h.split_lt hl
  have hpass : Search.Rejected (visit env t) l (s.log (.getCall t)) →
      ((visit env t p (scanState env t s l)).2 = true ↔ Passes env (scanState env t s l) p) := by
    intro hrej
    have hfree : FreeUnused s.numSocks (s.log (.getCall t)) := h.free
    exact visit_passes_iff (hfree.examined (h.examined_before hlt hrej) p hp)
  constructor
  · rintro ⟨hrej, hok⟩
    exact ⟨⟨l', hl⟩, (hpass hrej).mp hok, (h.rejected_iff hlt).mp hrej⟩
  · rintro ⟨-, hP, hno⟩
    have hrej := (h.rejected_iff hlt).mpr hno
    exact ⟨hrej, (hpass hrej).mpr hP⟩

/-- The first socket that passes is handed out. -/
theorem Settled.scanned_found (h : Settled s) {p : ℕ} {l : List ℕ} (hfirst : FirstPassing env t s l p)
    (hsome : ∀ q, some p = some q ↔ ∃ l, FirstPassing env t s l q) :
    Scanned env t s ((setLastUsed p (visit env t p (scanState env t s l)).1).log
      (.getReturn t (some p))) (some p) := by
  obtain ⟨l', hl⟩ := hfirst.1
  obtain ⟨hrej, hok⟩ := (h.firstPassing_iff hl).mpr hfirst
  obtain ⟨hlt, hp⟩ := h.split_lt hl
  have he := h.examined_before hlt hrej
  have hfree : FreeUnused s.numSocks (s.log (.getCall t)) := h.free
  have ho : Obtained t p (scanState env t s l) (visit env t p (scanState env t s l)).1 :=
    visit_obtained (hfree.examined he p hp) hok
  have hm : (s.sock p).mutex = none := by
    have hpass := hfirst.2.1.1
    rwa [he.mutex p] at hpass
  obtain ⟨new, htr, hnew⟩ := he.trace
  obtain ⟨new', htr', hnew'⟩ := ho.trace
  refine ⟨listOrder_perm h.linked, fun _ => listOrder_start h.linked, fun _ _ _ _ => listOrder_next,
    ⟨.getCall t :: (new ++ new' ++ [.getReturn t (some p)]), ?_,
    Or.inl ⟨l, p, hfirst, rfl, ?_⟩⟩, hsome, ?_, by simp, ?_, fun q => ?_, fun q => ?_, ?_,
    fun q hq => ?_⟩
  · simp [setLastUsed, htr', htr]
  · show examined (new ++ new' ++ [.getReturn t (some p)]) = l ++ [p]
    rw [examined_append, examined_append, hnew, hnew']
    exact List.append_nil _
  · refine iff_of_false (by simp) fun hno => ?_
    exact hno l p l' hl hfirst.2.1
  · rintro q ⟨⟩
    exact ⟨hm, h.free p hp hm, ho.state⟩
  · by_cases hq : q = p
    · subst hq; simpa [setLastUsed] using ho.mutex
    · have hne : ¬some p = some q := by simpa using fun e => hq e.symm
      rw [if_neg hne]
      exact (congrArg RedisSocket.mutex (ho.other q hq)).trans (he.mutex q)
  · by_cases hq : q = p
    · subst hq; simpa [setLastUsed] using ho.inuse
    · have hne : ¬some p = some q := by simpa using fun e => hq e.symm
      rw [if_neg hne]
      exact (congrArg RedisSocket.inuse (ho.other q hq)).trans (he.inuse q)
  · exact (ho.next p).trans (he.next p)
  · have hqp : q ≠ p := by rintro rfl; exact hq hm
    exact (ho.other q hqp).trans (he.held q hq)

/-- No socket passes. -/
theorem Settled.scanned_null (h : Settled s) (hno : NonePassing env t s)
    (hsome : ∀ q, none = some q ↔ ∃ l, FirstPassing env t s l q) :
    Scanned env t s ((scanState env t s (listOrder s)).log (.getReturn t none)) none := by
  have hlt : ∀ p ∈ listOrder s, p < s.numSocks := fun p hp => h.mem_order.mp hp
  have hrej := (h.rejected_iff hlt).mpr hno
  have he := h.examined_before hlt hrej
  obtain ⟨new, htr, hnew⟩ := he.trace
  refine ⟨listOrder_perm h.linked, fun _ => listOrder_start h.linked, fun _ _ _ _ => listOrder_next,
    ⟨.getCall t :: (new ++ [.getReturn t none]), ?_,
    Or.inr ⟨hno, rfl, ?_⟩⟩, hsome, iff_of_true rfl hno, fun _ p hp hm hst => ?_, by simp,
    fun q => he.mutex q, fun q => he.inuse q, he.lastUsed, fun q hq => he.held q hq⟩
  · simp [htr]
  · show examined (new ++ [.getReturn t none]) = listOrder s
    rw [examined_append, hnew]
    exact List.append_nil _
  · -- a free connected socket is still so when the scan meets it
    obtain ⟨l, l', hl⟩ := List.append_of_mem (h.mem_order.mpr hp)
    obtain ⟨hlt', -⟩ := h.split_lt hl
    have hnd := (listOrder_perm h.linked).nodup_iff.mpr List.nodup_range
    rw [hl] at hnd
    have hpl : p ∉ l := fun hmem => (List.nodup_append.mp hnd).2.2 p hmem p List.mem_cons_self rfl
    have hrej' : Search.Rejected (visit env t) l (s.log (.getCall t)) := by
      refine (h.rejected_iff hlt').mpr fun l₁ q l₂ hq => hno l₁ q (l₂ ++ p :: l') ?_
      rw [hl, hq]; simp
    have hsame := (h.examined_before hlt' hrej').other p hpl
    refine hno l p l' hl ⟨?_, Or.inl ?_⟩
    · rw [hsame]; exact hm
    · rw [hsame]; exact hst

/-- **What `redis_get_socket` does when no other thread is running.** -/
theorem redisGetSocket_scanned (env : Env) (t : ℕ) (h : Settled s) :
    ∃ s' r, redisGetSocket env t s = some (s', r) ∧ Scanned env t s s' r := by
  have hlt : ∀ p ∈ listOrder s, p < s.numSocks := fun p hp => h.mem_order.mp hp
  have hsome : ∀ p, (Search.first (visit env t) (listOrder s) (s.log (.getCall t))).2 = some p ↔
      ∃ l, FirstPassing env t s l p := by
    intro p
    rw [Search.first_eq_some_iff]
    constructor
    · rintro ⟨l, l', hl, hrej⟩
      exact ⟨l, (h.firstPassing_iff hl).mp hrej⟩
    · rintro ⟨l, hfirst⟩
      obtain ⟨l', hl⟩ := hfirst.1
      exact ⟨l, l', hl, (h.firstPassing_iff hl).mpr hfirst⟩
  refine ⟨_, _, redisGetSocket_eq env t h.linked, ?_⟩
  rcases Search.first_cases (visit env t) (listOrder s) (s.log (.getCall t)) with
    ⟨l, p, l', hl, hrej, hok, he⟩ | ⟨hrej, he⟩
  · rw [he] at hsome ⊢
    exact h.scanned_found ((h.firstPassing_iff hl).mp ⟨hrej, hok⟩) hsome
  · rw [he] at hsome ⊢
    exact h.scanned_null ((h.rejected_iff hlt).mp hrej) hsome

end Scanned

end Hiredispool.Pool
