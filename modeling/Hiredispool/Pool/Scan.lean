import Hiredispool.Lib.Ring
import Hiredispool.Pool.Connect

/-!
# `redis_get_socket` and `redis_release_socket`

Model of `hiredispool.c`, lines 303–465. The scan is cut at the places where
other threads can act: `tryLock`, `checkSocket` (all that happens under the
mutex), `unlock`, `nextSocket` (the move along the list) and the write of
`last_used`. `redisGetSocket` is the whole call with nothing in between.

* `checkSocket_cases`: everything the checks under the mutex can do.
* `nextSocket_eq`: in a well-linked pool the scan walks the ring `Ring.after`
  and stops when it is back at its start.
* `redisGetSocket_isSome`: the loop ends within one round.
-/

namespace Hiredispool.Pool

/-! ## Model -/

/-- `pthread_mutex_trylock(&p->mutex)` by thread `t`; a default mutex is not
    recursive, so a thread that already has it locked fails too. -/
def tryLock (t p : ℕ) (s : St) : St × Bool :=
  match (s.sock p).mutex with
  | none => ((s.setSock p fun r => { r with mutex := some t }).log (.trylock t p true), true)
  | some _ => (s.log (.trylock t p false), false)

/-- `pthread_mutex_unlock(&p->mutex)` by the thread `t` that has it locked. -/
def unlock (t p : ℕ) (s : St) : St :=
  (s.setSock p fun r => { r with mutex := none }).log (.unlock t p)

/-- `p->inuse = v`. -/
def setInuse (p v : ℕ) (s : St) : St := s.setSock p fun r => { r with inuse := v }

/-- Lines 356–362: an unconnected socket is connected if the grace period is
    over. Returns the clock reading and whether it was tried. -/
def reconnect (env : Env) (cur : ℕ) (s : St) : St × ℤ × Bool :=
  if (s.sock cur).state = .sockunconnected then
    let (now, w) := s.world.time env
    let s := { s with world := w }
    if now > s.connectAfter then
      ((connectSingleSocket env cur (s.log (.startConnect .scan cur now))).1, now, true)
    else (s, now, false)
  else (s, 0, false)

/-- Lines 334–393, under the mutex of `cur`: whether `cur` can be returned.
    Otherwise it is unlocked next. -/
def checkSocket (env : Env) (cur : ℕ) (s : St) : St × Bool :=
  if (s.sock cur).inuse = 1 then (s, false)
  else
    let (s, now, tried) := reconnect env cur (setInuse cur 1 s)
    -- if we still aren't connected, ignore this handle
    if (s.sock cur).state = .sockunconnected then
      (setInuse cur 0 (s.log (.ignored cur now tried)), false)
    else (s, true)

/-- Lines 411–429: the next socket to look at, or `none` for `break`. -/
def nextSocket (start cur : ℕ) (s : St) : Option ℕ :=
  let cur := (s.sock cur).next.or s.redisPool
  if cur = some start then none else cur

/-- `inst->last_used = cur->next` (line 407). -/
def setLastUsed (cur : ℕ) (s : St) : St := { s with lastUsed := (s.sock cur).next }

/-- Lines 326–393 for one socket, with no other thread in between. -/
def visit (env : Env) (t cur : ℕ) (s : St) : St × Bool :=
  let (s, locked) := tryLock t cur s
  if locked then
    let (s, found) := checkSocket env cur s
    if found then (s, true) else (unlock t cur s, false)
  else (s, false)

/-- The `while` loop of lines 319–430, for at most `fuel` sockets. -/
def scan (env : Env) (t start : ℕ) : ℕ → ℕ → St → Option (St × Option ℕ)
  | 0, _, _ => none
  | fuel + 1, cur, s =>
    let (s, found) := visit env t cur s
    if found then some (setLastUsed cur s, some cur)
    else
      match nextSocket start cur s with
      | none => some (s, none)
      | some cur => scan env t start fuel cur s

/-- `start`: `last_used`, or the head of the list (lines 313–314). -/
def scanStart (s : St) : Option ℕ := s.lastUsed.or s.redisPool

/-- `redis_get_socket(inst)` (lines 303–438); `none` if the loop has not ended
    after one visit of as many sockets as the pool has. -/
def redisGetSocket (env : Env) (t : ℕ) (s : St) : Option (St × Option ℕ) :=
  let s := s.log (.getCall t)
  let r := match scanStart s with
    | none => some (s, none)
    | some start => scan env t start s.numSocks start s
  r.map fun (s, p) => (s.log (.getReturn t p), p)

/-- `redis_release_socket(inst, redisocket)` (lines 440–465). -/
def redisReleaseSocket (t : ℕ) (p : Option ℕ) (s : St) : St :=
  match p with
  | none => s
  | some p => unlock t p (setInuse p 0 s)

/-! ## The checks under the mutex -/

section Check

variable (env : Env) (cur : ℕ) (s : St)

/-- The state in which the scan calls `connect_single_socket`. -/
def beforeConnect : St :=
  { setInuse cur 1 s with
    world := (s.world.time env).2.log (.startConnect .scan cur (env.clock s.world.clocks)) }

/-- The clock has been read, and `cur` is not to be connected now. -/
def tooEarly : St := { setInuse cur 1 s with world := (s.world.time env).2 }

/-- Everything that the checks under the mutex can do: `inuse` is found set; the
    socket is connected; it is too early to connect it; or it is connected now,
    with or without success. -/
theorem checkSocket_cases :
    (s.sock cur).inuse = 1 ∧ checkSocket env cur s = (s, false) ∨
    (s.sock cur).inuse ≠ 1 ∧ (s.sock cur).state = .sockconnected ∧
      checkSocket env cur s = (setInuse cur 1 s, true) ∨
    (s.sock cur).inuse ≠ 1 ∧ (s.sock cur).state = .sockunconnected ∧
      (env.clock s.world.clocks ≤ s.connectAfter ∧
          checkSocket env cur s = (setInuse cur 0 ((tooEarly env cur s).log
            (.ignored cur (env.clock s.world.clocks) false)), false) ∨
        s.connectAfter < env.clock s.world.clocks ∧
          ((connectSingleSocket env cur (beforeConnect env cur s)).2 = true ∧
              checkSocket env cur s = connectSingleSocket env cur (beforeConnect env cur s) ∨
            (connectSingleSocket env cur (beforeConnect env cur s)).2 = false ∧
              checkSocket env cur s =
                (setInuse cur 0 ((connectSingleSocket env cur (beforeConnect env cur s)).1.log
                  (.ignored cur (env.clock s.world.clocks) true)), false))) := by
  by_cases hin : (s.sock cur).inuse = 1
  · exact Or.inl ⟨hin, by simp [checkSocket, hin]⟩
  right
  cases hst : (s.sock cur).state with
  | sockconnected =>
    exact Or.inl ⟨hin, rfl, by simp [checkSocket, hin, reconnect, setInuse, hst]⟩
  | sockunconnected =>
    refine Or.inr ⟨hin, rfl, ?_⟩
    by_cases hnow : s.connectAfter < env.clock s.world.clocks
    · refine Or.inr ⟨hnow, ?_⟩
      have hspec := (connectSingleSocket_spec env cur (beforeConnect env cur s)).conn
      have hrec : reconnect env cur (setInuse cur 1 s) =
          ((connectSingleSocket env cur (beforeConnect env cur s)).1,
            env.clock s.world.clocks, true) := by
        have hst' : ((setInuse cur 1 s).sock cur).state = .sockunconnected := by
          simp [setInuse, hst]
        rw [reconnect, if_pos hst']
        exact if_pos hnow
      unfold checkSocket
      rw [if_neg hin, hrec]
      rcases hspec with ⟨ho, hs, -⟩ | ⟨ho, hs, -⟩
      · exact Or.inl ⟨ho, by simp [hs, ← ho]⟩
      · exact Or.inr ⟨ho, by simp [hs]⟩
    · refine Or.inl ⟨not_lt.mp hnow, ?_⟩
      have hrec : reconnect env cur (setInuse cur 1 s) =
          (tooEarly env cur s, env.clock s.world.clocks, false) := by
        have hst' : ((setInuse cur 1 s).sock cur).state = .sockunconnected := by
          simp [setInuse, hst]
        rw [reconnect, if_pos hst']
        exact if_neg hnow
      unfold checkSocket
      rw [if_neg hin, hrec]
      simp [tooEarly, setInuse, hst]

end Check

/-- What the checks leave alone. -/
structure CheckFrame (cur : ℕ) (s s' : St) : Prop where
  config : s'.config = s.config
  redisPool : s'.redisPool = s.redisPool
  lastUsed : s'.lastUsed = s.lastUsed
  other : ∀ q, q ≠ cur → s'.sock q = s.sock q
  mutex : ∀ q, (s'.sock q).mutex = (s.sock q).mutex
  next : ∀ q, (s'.sock q).next = (s.sock q).next

theorem CheckFrame.of_setInuse (cur v : ℕ) (s : St) : CheckFrame cur s (setInuse cur v s) :=
  ⟨rfl, rfl, rfl, fun q hq => by simp [setInuse, hq],
    fun q => by by_cases hq : q = cur <;> simp [setInuse, hq],
    fun q => by by_cases hq : q = cur <;> simp [setInuse, hq]⟩

theorem CheckFrame.of_sockFrame {cur : ℕ} {s s' : St} (h : SockFrame cur s s') :
    CheckFrame cur s s' :=
  ⟨h.config, h.redisPool, h.lastUsed, h.other, h.mutex, h.next⟩

theorem CheckFrame.trans {cur : ℕ} {s s' s'' : St} (h : CheckFrame cur s s')
    (h' : CheckFrame cur s' s'') : CheckFrame cur s s'' :=
  ⟨h'.config.trans h.config, h'.redisPool.trans h.redisPool, h'.lastUsed.trans h.lastUsed,
    fun q hq => (h'.other q hq).trans (h.other q hq), fun q => (h'.mutex q).trans (h.mutex q),
    fun q => (h'.next q).trans (h.next q)⟩

theorem checkSocket_frame (env : Env) (cur : ℕ) (s : St) :
    CheckFrame cur s (checkSocket env cur s).1 := by
  have h1 := CheckFrame.of_setInuse cur 1 s
  have hconn : CheckFrame cur s (connectSingleSocket env cur (beforeConnect env cur s)).1 :=
    (h1.trans (.of_sockFrame (SockFrame.of_world cur _ _))).trans
      (.of_sockFrame (connectSingleSocket_spec env cur _).1)
  rcases checkSocket_cases env cur s with ⟨-, h⟩ | ⟨-, -, h⟩ | ⟨-, -, ⟨-, h⟩ | ⟨-, ⟨-, h⟩ | ⟨-, h⟩⟩⟩
  · rw [h]; exact .of_sockFrame (SockFrame.refl cur s)
  · rw [h]; exact h1
  · rw [h]
    exact (h1.trans (.of_sockFrame (SockFrame.of_world cur _ _))).trans (.of_setInuse cur 0 _)
  · rw [h]; exact hconn
  · rw [h]
    exact (hconn.trans (.of_sockFrame (SockFrame.of_world cur _ _))).trans (.of_setInuse cur 0 _)

/-- A socket is left in use exactly when it is found usable. -/
theorem checkSocket_inuse (env : Env) {cur : ℕ} {s : St} (h0 : (s.sock cur).inuse = 0) :
    ((checkSocket env cur s).1.sock cur).inuse =
      if (checkSocket env cur s).2 = true then 1 else 0 := by
  have hconn := (connectSingleSocket_spec env cur (beforeConnect env cur s)).1.inuse cur
  rcases checkSocket_cases env cur s with ⟨h1, -⟩ | ⟨-, -, h⟩ | ⟨-, -, ⟨-, h⟩ | ⟨-, ⟨ho, h⟩ | ⟨-, h⟩⟩⟩
  · omega
  · rw [h]; simp [setInuse]
  · rw [h]; simp [setInuse]
  · rw [h, hconn, ho]; simp [beforeConnect, setInuse]
  · rw [h]; simp [setInuse]

/-- A socket that passes the checks is connected. -/
theorem checkSocket_state {env : Env} {cur : ℕ} {s : St} (h : (checkSocket env cur s).2 = true) :
    ((checkSocket env cur s).1.sock cur).state = .sockconnected := by
  rcases checkSocket_cases env cur s with
    ⟨-, e⟩ | ⟨-, hst, e⟩ | ⟨-, -, ⟨-, e⟩ | ⟨-, ⟨ho, e⟩ | ⟨-, e⟩⟩⟩ <;> rw [e] at h ⊢
  · cases h
  · simp [setInuse, hst]
  · cases h
  · rcases (connectSingleSocket_spec env cur (beforeConnect env cur s)).conn with
      ⟨-, hst, -⟩ | ⟨hf, -, -⟩
    · exact hst
    · rw [ho] at hf; cases hf
  · cases h

/-! ## The list of sockets -/

/-- The sockets are linked as `redis_init_socketpool` leaves them: each one
    points to the one made before it, and `last_used` is one of them. -/
structure Linked (s : St) : Prop where
  redisPool : s.redisPool = if s.numSocks = 0 then none else some (s.numSocks - 1)
  next : ∀ p, p < s.numSocks → (s.sock p).next = if p = 0 then none else some (p - 1)
  lastUsed : ∀ p, s.lastUsed = some p → p < s.numSocks

/-- Linking depends on the pointers alone. -/
theorem Linked.congr {s s' : St} (h : Linked s) (hc : s'.config = s.config)
    (hp : s'.redisPool = s.redisPool) (hn : ∀ p, (s'.sock p).next = (s.sock p).next)
    (hl : ∀ p, s'.lastUsed = some p → p < s.numSocks) : Linked s' := by
  have hN : s'.numSocks = s.numSocks := by simp [St.numSocks, hc]
  exact ⟨by rw [hp, hN, h.redisPool], fun p hlt => by rw [hn, h.next p (hN ▸ hlt)],
    fun p hlt => hN ▸ hl p hlt⟩

theorem nextSocket_eq {s : St} (h : Linked s) {start cur : ℕ} (hc : cur < s.numSocks) :
    nextSocket start cur s =
      if Ring.after s.numSocks cur = start then none else some (Ring.after s.numSocks cur) := by
  have h0 : s.numSocks ≠ 0 := by omega
  unfold nextSocket Ring.after
  rw [h.next cur hc, h.redisPool]
  by_cases hz : cur = 0 <;> simp [hz, h0]

theorem scanStart_lt {s : St} (h : Linked s) {p : ℕ} (hp : scanStart s = some p) :
    p < s.numSocks := by
  unfold scanStart at hp
  rcases Option.or_eq_some_iff.mp hp with h1 | ⟨-, h1⟩
  · exact h.lastUsed p h1
  · rw [h.redisPool] at h1; split at h1
    · cases h1
    · cases h1; omega

theorem scanStart_isSome {s : St} (h : Linked s) (h0 : 0 < s.numSocks) :
    ∃ p, scanStart s = some p := by
  unfold scanStart
  rw [h.redisPool, if_neg (by omega)]
  cases s.lastUsed <;> simp

/-! ## The scan -/

/-- `cur` after a successful `trylock`. -/
def locked (t cur : ℕ) (s : St) : St :=
  (s.setSock cur fun r => { r with mutex := some t }).log (.trylock t cur true)

/-- A visit finds the socket locked, locks it and keeps it, or locks and unlocks it. -/
theorem visit_cases (env : Env) (t cur : ℕ) (s : St) :
    (∃ u, (s.sock cur).mutex = some u ∧
        visit env t cur s = (s.log (.trylock t cur false), false)) ∨
      (s.sock cur).mutex = none ∧
        ((checkSocket env cur (locked t cur s)).2 = true ∧
            visit env t cur s = ((checkSocket env cur (locked t cur s)).1, true) ∨
          (checkSocket env cur (locked t cur s)).2 = false ∧
            visit env t cur s = (unlock t cur (checkSocket env cur (locked t cur s)).1, false)) := by
  unfold visit tryLock
  cases hm : (s.sock cur).mutex with
  | some u => exact Or.inl ⟨u, rfl, rfl⟩
  | none =>
    refine Or.inr ⟨rfl, ?_⟩
    cases hc : (checkSocket env cur (locked t cur s)).2 with
    | true => exact Or.inl ⟨rfl, by unfold locked at hc ⊢; simp [hc]⟩
    | false => exact Or.inr ⟨rfl, by unfold locked at hc ⊢; simp [hc]⟩

theorem Linked.log {s : St} (h : Linked s) (e : Event) : Linked (s.log e) :=
  h.congr rfl rfl (fun _ => rfl) h.lastUsed

theorem Linked.setSock {s : St} (h : Linked s) (p : ℕ) (f : RedisSocket → RedisSocket)
    (hf : ∀ r, (f r).next = r.next) : Linked (s.setSock p f) :=
  h.congr rfl rfl (fun q => by by_cases hq : q = p <;> simp [hq, hf]) h.lastUsed

theorem Linked.checkSocket {s : St} (h : Linked s) (env : Env) (cur : ℕ) :
    Linked (checkSocket env cur s).1 := by
  have hf := checkSocket_frame env cur s
  exact h.congr hf.config hf.redisPool hf.next fun p hp => h.lastUsed p (hf.lastUsed ▸ hp)

theorem Linked.visit {s : St} (h : Linked s) (env : Env) (t cur : ℕ) :
    Linked (visit env t cur s).1 ∧ (visit env t cur s).1.numSocks = s.numSocks := by
  have hlock : Linked (locked t cur s) :=
    (h.setSock cur (fun r => { r with mutex := some t }) fun _ => rfl).log _
  have hconf := (checkSocket_frame env cur (locked t cur s)).config
  have hN : (Pool.checkSocket env cur (locked t cur s)).1.numSocks = s.numSocks := by
    rw [St.numSocks, hconf]; rfl
  rcases visit_cases env t cur s with ⟨u, -, e⟩ | ⟨-, ⟨-, e⟩ | ⟨-, e⟩⟩ <;> rw [e]
  · exact ⟨h.log _, rfl⟩
  · exact ⟨hlock.checkSocket env cur, hN⟩
  · exact ⟨((hlock.checkSocket env cur).setSock cur (fun r => { r with mutex := none })
      fun _ => rfl).log _, hN⟩

/-- By induction on the sockets left in the round: the loop stops when it is
    back at its start. -/
theorem scan_isSome (env : Env) (t : ℕ) {start : ℕ} : ∀ (fuel cur : ℕ) (s : St), Linked s →
    start < s.numSocks → cur < s.numSocks →
    Ring.hops s.numSocks start cur + fuel = s.numSocks → (scan env t start fuel cur s).isSome := by
  intro fuel
  induction fuel with
  | zero =>
    intro cur s _ hstart hcur hf
    have := Ring.hops_lt hstart hcur
    omega
  | succ fuel ih =>
    intro cur s hl hstart hcur hf
    obtain ⟨hl', hN⟩ := hl.visit env t cur
    rw [scan]
    dsimp only
    split
    · rfl
    · rw [nextSocket_eq hl' (hN ▸ hcur), hN]
      split_ifs with hback
      · rfl
      · have hnext := Ring.hops_after hstart hcur hback
        have hlt := Ring.after_lt hcur
        refine ih _ _ hl' (hN ▸ hstart) (by rw [hN]; exact hlt) ?_
        rw [hN]; omega

/-- **The scan ends within one round.** -/
theorem redisGetSocket_isSome (env : Env) (t : ℕ) {s : St} (h : Linked s) :
    (redisGetSocket env t s).isSome := by
  unfold redisGetSocket
  rw [Option.isSome_map]
  cases hstart : scanStart (s.log (.getCall t)) with
  | none => rfl
  | some start =>
    have hlt : start < s.numSocks := scanStart_lt (h.log _) hstart
    exact scan_isSome env t _ start _ (h.log _) hlt hlt (by simp [St.numSocks])

end Hiredispool.Pool
