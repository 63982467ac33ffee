import Hiredispool.Lib.CInt
import Hiredispool.Pool.Sweep
import Hiredispool.Pool.Create

/-!
# The endpoint index

`backup` selects the endpoint that the next attempt of a socket goes to. It is
written in four places: at creation (line 132), after a refused attempt (lines
253 and 269) and, with a random jump, after an accepted one (lines 222–224).

* `Indexed`: `backup` is in range, and a connected socket's `backup` is not the
  endpoint it is connected to. `Indexed.connect`, `checkSocket_indexed` and
  `redisPoolCreate_indexed`: connects, the scan and the creation keep it.
* `connectSingleSocketInt`, `initLoopInt`: the same functions with the index
  arithmetic of 32-bit `int`, undefined where C is; they agree with the model.
-/

namespace Hiredispool.Pool

/-! ## The invariant -/

/-- With `n` endpoints: every `backup` and every endpoint that was tried is in
    range, and a connected socket's `backup` is another endpoint than its own. -/
structure Indexed (n : ℕ) (s : St) : Prop where
  config : s.config.numEndpoints = n
  backup : ∀ p, (s.sock p).backup < n
  connected : ∀ p, (s.sock p).state = .sockconnected → ∃ c, (s.sock p).conn = some c
  live : ∀ p c, (s.sock p).conn = some c → c < s.world.nctx
  apart : 1 < n → ∀ p c, (s.sock p).conn = some c →
    (s.world.ctx c).endpoint ≠ (s.sock p).backup
  access : ∀ p ep c, .connect p ep c ∈ s.world.trace → ep < n

/-- The events that are no attempts. -/
def Event.attempt : Event → Bool
  | .connect _ _ _ => true
  | _ => false

section Steps

variable {env : Env} {n p : ℕ} {s s' : St}

/-- A step that leaves the sockets' connections and indices alone. -/
theorem Indexed.quiet (h : Indexed n s) {new : List Event} (hc : s'.config = s.config)
    (hs : ∀ q, (s'.sock q).backup = (s.sock q).backup ∧ (s'.sock q).state = (s.sock q).state ∧
      (s'.sock q).conn = (s.sock q).conn)
    (hn : s'.world.nctx = s.world.nctx)
    (hep : ∀ c, (s'.world.ctx c).endpoint = (s.world.ctx c).endpoint)
    (htr : s'.world.trace = s.world.trace ++ new) (hnew : ∀ e ∈ new, e.attempt = false) :
    Indexed n s' where
  config := hc ▸ h.config
  backup q := by rw [(hs q).1]; exact h.backup q
  connected q hq := by
    rw [(hs q).2.2]
    exact h.connected q ((hs q).2.1 ▸ hq)
  live q c hq := by
    rw [hn]
    exact h.live q c ((hs q).2.2 ▸ hq)
  apart h1 q c hq := by
    rw [hep, (hs q).1]
    exact h.apart h1 q c ((hs q).2.2 ▸ hq)
  access q ep c hm := by
    rw [htr, List.mem_append] at hm
    exact h.access q ep c (hm.resolve_right fun hm => by cases hnew _ hm)

/-- A write to a context that leaves its endpoint alone. -/
theorem setCtx_endpoint (w : World) (c : ℕ) {f : RedisContext → RedisContext}
    (hf : ∀ x, (f x).endpoint = x.endpoint) (c' : ℕ) :
    ((w.setCtx c f).ctx c').endpoint = (w.ctx c').endpoint := by
  by_cases h : c' = c
  · subst h; simp [hf]
  · simp [h]

/-- A step that changes nothing but contexts and the trace. -/
theorem Indexed.outside (h : Indexed n s) {w : World} {new : List Event}
    (hn : w.nctx = s.world.nctx) (hep : ∀ c, (w.ctx c).endpoint = (s.world.ctx c).endpoint)
    (htr : w.trace = s.world.trace ++ new) (hnew : ∀ e ∈ new, e.attempt = false) :
    Indexed n { s with world := w } :=
  h.quiet rfl (fun _ => ⟨rfl, rfl, rfl⟩) hn hep htr hnew

/-! ## A call of `connect_single_socket` -/

/-- What a call leaves behind for the index of `p`. -/
structure Reindexed (n p : ℕ) (s : St) (r : St × Bool) : Prop where
  backup : (r.1.sock p).backup < n
  apart : 1 < n → ∀ c, (r.1.sock p).conn = some c →
    (r.1.world.ctx c).endpoint ≠ (r.1.sock p).backup
  access : ∀ q ep c, .connect q ep c ∈ r.1.world.trace →
    .connect q ep c ∈ s.world.trace ∨ ep < n

theorem connected_backup (env : Env) (p c : ℕ) (s : St) :
    ((connected env p c s).sock p).backup = if 1 < s.config.numEndpoints then
      ((s.sock p).backup + (1 + env.rand s.world.rands % (s.config.numEndpoints - 1))) %
        s.config.numEndpoints else (s.sock p).backup := by
  unfold connected chooseBackup
  by_cases h : 1 < s.config.numEndpoints
  · simp [h, World.rand]
  · simp [h]

/-- The options leave the endpoint of a context alone. -/
theorem connected_endpoint (c c' : ℕ) (s : St) :
    ((connected env p c s).world.ctx c').endpoint = (s.world.ctx c').endpoint := by
  unfold connected
  dsimp only
  set s₁ := s.setSock p fun r => { r with conn := some c, state := .sockconnected } with hs₁
  obtain ⟨hctx, -⟩ := chooseBackup_world env p s₁
  obtain ⟨-, -, -, -, hother, hself⟩ := options_spec env c (chooseBackup env p s₁).world
  by_cases hc : c' = c
  · rw [hc, hself, hctx]; rfl
  · rw [hother c' hc, hctx]; rfl

/-- The success exit jumps to another endpoint. -/
theorem reindexed_connected (hb : (s.sock p).backup < n) (hn : s.config.numEndpoints = n)
    (hok : env.connect s.world.connects = .ok) :
    Reindexed n p s
      (connected env p s.world.nctx { s with world := (tryBackup env p s).1 }, true) := by
  have ha := adopted_attempt env p (s.sock p).backup (s.config.endpoint (s.sock p).backup) s hok
  set s₁ : St := { s with world := (tryBackup env p s).1 } with hs₁
  have hback := connected_backup env p s.world.nctx s₁
  have hconf : s₁.config.numEndpoints = n := hn
  have hep : ((connected env p s.world.nctx s₁).world.ctx s.world.nctx).endpoint =
      (s.sock p).backup := by
    rw [connected_endpoint]
    simp [hs₁, tryBackup, World.redisConnectWithTimeout, hok, World.setCtx]
  have htr : (connected env p s.world.nctx s₁).world.trace =
      s.world.trace ++ [.connect p (s.sock p).backup (some s.world.nctx)] := by
    rw [(connected_world env p s.world.nctx s₁).2]
    simp [hs₁, tryBackup, World.redisConnectWithTimeout, hok]
  rw [hconf] at hback
  refine ⟨?_, fun h1 c hc => ?_, fun q ep c hm => ?_⟩
  · rw [hback]
    split
    · exact Nat.mod_lt _ (by omega)
    · exact hb
  · obtain rfl : s.world.nctx = c := Option.some.inj (ha.conn.symm.trans hc)
    rw [hep, hback, if_pos h1]
    exact (Cycle.jump_ne hb h1 _).symm
  · rw [htr, List.mem_append, List.mem_singleton] at hm
    refine hm.imp_right fun hm => ?_
    cases hm
    exact hb

/-- The only attempt of a refusal is the one that is refused. -/
theorem mem_refusal {p ep q ep' : ℕ} {c c' : Option ℕ}
    (h : Event.connect q ep' c' ∈ refusal p ep c) : ep' = ep := by
  cases c <;> simp_all [refusal]

/-- The failure exit moves on to the next endpoint. -/
theorem reindexed_connectFailed (hb : (s.sock p).backup < n) (hn : s.config.numEndpoints = n) :
    Reindexed n p s (connectFailed env p (tryBackup env p s).2
      { s with world := (tryBackup env p s).1 }, false) := by
  have hr := refused_attempt env p (tryBackup env p s).2 s (tryBackup env p s).1
  obtain ⟨-, htr, -⟩ := refuse_spec env p s
  refine ⟨?_, fun _ c hc => ?_, fun q ep c hm => ?_⟩
  · simp only [connectFailed, St.setSock_self, nextBackup, hn]
    exact Nat.mod_lt _ (by omega)
  · rw [hr.conn] at hc; cases hc
  · have hm' : .connect q ep c ∈ (refuse env p s).trace ++ [.connectFailed p _] := hr.trace ▸ hm
    rw [htr, List.append_assoc, List.mem_append, List.mem_append, List.mem_singleton] at hm'
    rcases hm' with hm' | hm' | hm'
    · exact Or.inl hm'
    · exact Or.inr (mem_refusal hm' ▸ hb)
    · cases hm'

/-- By induction on the iterations left: the loop keeps the index in range. -/
theorem connectLoop_reindexed (k : ℕ) {s : St} (hb : (s.sock p).backup < n)
    (hn : s.config.numEndpoints = n) : Reindexed n p s (connectLoop env p (k + 1) s) := by
  induction k generalizing s with
  | zero =>
    rw [connectLoop_succ]
    by_cases hok : env.connect s.world.connects = .ok
    · rw [if_pos hok]; exact reindexed_connected hb hn hok
    · rw [if_neg hok, if_pos rfl]; exact reindexed_connectFailed hb hn
  | succ k ih =>
    rw [connectLoop_succ]
    by_cases hok : env.connect s.world.connects = .ok
    · rw [if_pos hok]; exact reindexed_connected hb hn hok
    · rw [if_neg hok, if_neg (Nat.succ_ne_zero k)]
      set s₁ := ({ s with world := refuse env p s } : St).setSock p (nextBackup s.config) with hs₁
      have hb₁ : (s₁.sock p).backup < n := by
        simp only [hs₁, St.setSock_self, nextBackup, hn]
        exact Nat.mod_lt _ (by omega)
      have h := ih hb₁ hn
      refine ⟨h.backup, h.apart, fun q ep c hm => ?_⟩
      rcases h.access q ep c hm with hm | hlt
      · have hm' : .connect q ep c ∈ (refuse env p s).trace := hm
        rw [(refuse_spec env p s).2.1, List.mem_append] at hm'
        refine hm'.imp_right fun hm' => ?_
        rwa [mem_refusal hm']
      · exact Or.inr hlt

theorem connectSingleSocket_reindexed (env : Env) (hb : (s.sock p).backup < n)
    (hn : s.config.numEndpoints = n) : Reindexed n p s (connectSingleSocket env p s) := by
  unfold connectSingleSocket
  have hn' : s.config.numEndpoints = s.config.numEndpoints - 1 + 1 := by omega
  rw [hn']
  exact connectLoop_reindexed _ hb hn

theorem Indexed.connect (h : Indexed n s) (env : Env) (p : ℕ) :
    Indexed n (connectSingleSocket env p s).1 := by
  have hspec := connectSingleSocket_spec env p s
  have hre := connectSingleSocket_reindexed env (h.backup p) h.config
  have hother := hspec.1.other
  refine ⟨by rw [hspec.1.config]; exact h.config, fun q => ?_, fun q hq => ?_, fun q c hq => ?_,
    fun h1 q c hq => ?_, fun q ep c hm => ?_⟩
  · by_cases hqp : q = p
    · rw [hqp]; exact hre.backup
    · rw [hother q hqp]; exact h.backup q
  · by_cases hqp : q = p
    · rw [hqp] at hq ⊢
      rcases hspec.conn with ⟨-, -, c, hc, -⟩ | ⟨-, hst, -⟩
      · exact ⟨c, hc⟩
      · rw [hst] at hq; cases hq
    · rw [hother q hqp] at hq ⊢; exact h.connected q hq
  · by_cases hqp : q = p
    · rw [hqp] at hq
      rcases hspec.conn with ⟨-, -, c', hc, -, hlt⟩ | ⟨-, -, hc⟩
      · rwa [← Option.some.inj (hc.symm.trans hq)]
      · rw [hc] at hq; cases hq
    · rw [hother q hqp] at hq
      exact lt_of_lt_of_le (h.live q c hq) hspec.nctx_le
  · by_cases hqp : q = p
    · rw [hqp] at hq ⊢; exact hre.apart h1 c hq
    · rw [hother q hqp] at hq ⊢
      rw [hspec.old (Or.inl (h.live q c hq))]
      exact h.apart h1 q c hq
  · exact (hre.access q ep c hm).elim (h.access q ep c) id

/-! ## The scan and the creation -/

theorem Indexed.log (h : Indexed n s) {e : Event} (he : e.attempt = false) :
    Indexed n (s.log e) :=
  h.quiet rfl (fun _ => ⟨rfl, rfl, rfl⟩) rfl (fun _ => rfl) rfl (by simpa using he)

/-- A write to a socket that leaves its connection and its index alone. -/
theorem Indexed.setSock (h : Indexed n s) (q : ℕ) {f : RedisSocket → RedisSocket}
    (hf : ∀ r, (f r).backup = r.backup ∧ (f r).state = r.state ∧ (f r).conn = r.conn) :
    Indexed n (s.setSock q f) := by
  refine h.quiet rfl (fun q' => ?_) rfl (fun _ => rfl) (List.append_nil _).symm (by simp)
  by_cases hq : q' = q
  · subst hq; simpa using hf _
  · simp [hq]

theorem checkSocket_indexed (h : Indexed n s) (env : Env) (cur : ℕ) :
    Indexed n (checkSocket env cur s).1 := by
  have hin : ∀ {s : St} (v : ℕ), Indexed n s → Indexed n (setInuse cur v s) :=
    fun v h => h.setSock cur (f := fun r => { r with inuse := v }) fun _ => ⟨rfl, rfl, rfl⟩
  have hearly : Indexed n (tooEarly env cur s) :=
    (hin 1 h).quiet rfl (fun _ => ⟨rfl, rfl, rfl⟩) rfl (fun _ => rfl) (List.append_nil _).symm
      (by simp)
  have hconnect : Indexed n (connectSingleSocket env cur (beforeConnect env cur s)).1 :=
    (hearly.log (e := .startConnect .scan cur _) rfl).connect env cur
  rcases checkSocket_cases env cur s with
    ⟨-, e⟩ | ⟨-, -, e⟩ | ⟨-, -, ⟨-, e⟩ | ⟨-, ⟨-, e⟩ | ⟨-, e⟩⟩⟩ <;> rw [e]
  · exact h
  · exact hin 1 h
  · exact hin 0 (hearly.log rfl)
  · exact hconnect
  · exact hin 0 (hconnect.log rfl)

theorem initSocket_indexed (h : Indexed n s) (env : Env) (i : ℕ) :
    Indexed n (pushSocket i (initSocket env i s)) := by
  have hnew : Indexed n (unconnected env i s) := by
    have hsame : ∀ q, q ≠ i → (unconnected env i s).sock q = s.sock q := by
      intro q hq; simp [unconnected, hq]
    have hself : (unconnected env i s).sock i = newSocket s.config i := by simp [unconnected]
    refine ⟨h.config, fun q => ?_, fun q hq => ?_, fun q c hq => ?_, fun h1 q c hq => ?_, h.access⟩
    · by_cases hqi : q = i
      · rw [hqi, hself, newSocket, h.config]
        exact Nat.mod_lt _ (lt_of_le_of_lt (Nat.zero_le _) (h.backup i))
      · rw [hsame q hqi]; exact h.backup q
    · by_cases hqi : q = i
      · rw [hqi, hself] at hq; cases hq
      · rw [hsame q hqi] at hq ⊢; exact h.connected q hq
    · by_cases hqi : q = i
      · rw [hqi, hself] at hq; cases hq
      · rw [hsame q hqi] at hq; exact h.live q c hq
    · by_cases hqi : q = i
      · rw [hqi, hself] at hq; cases hq
      · rw [hsame q hqi] at hq ⊢; exact h.apart h1 q c hq
  have hpush : ∀ {s : St}, Indexed n s → Indexed n (pushSocket i s) := by
    intro s h
    exact (h.setSock i (f := fun r => { r with next := s.redisPool })
      fun _ => ⟨rfl, rfl, rfl⟩).quiet rfl (fun _ => ⟨rfl, rfl, rfl⟩) rfl (fun _ => rfl)
      (List.append_nil _).symm (by simp)
  rcases initSocket_cases env i s with ⟨-, e⟩ | ⟨-, e⟩ <;> rw [e]
  · exact hpush hnew
  · exact hpush ((hnew.log (e := .startConnect .init i _) rfl).connect env i)

theorem redisPoolCreate_indexed {config : RedisConfig}
    (h : redisPoolCreate env config World.init = .ok s) : Indexed s.config.numEndpoints s := by
  have hind := redisPoolCreate_induction (P := fun _ s => Indexed s.config.numEndpoints s) h
    (fun c _ => ?_) fun i s ih => ?_
  · exact hind
  · have hpos : 0 < c.numEndpoints := c.endpoints_pos
    refine ⟨rfl, fun _ => hpos, fun p hp => ?_, fun p c hp => ?_, fun _ p c hp => ?_,
      fun p ep c hm => ?_⟩
    · cases hp
    · cases hp
    · cases hp
    · cases hm
  · have hconf : (pushSocket i (initSocket env i s)).config = s.config := (initSocket_frame env i s).config
    rw [hconf]
    exact initSocket_indexed ih env i

end Steps

/-! ## The index as a 32-bit `int` -/

/-- `(backup + 1) % num_endpoints` (lines 253 and 269). -/
def nextBackupInt (n backup : ℤ) : Option ℕ := do
  let x ← CInt.add backup 1
  let next ← CInt.rem x n
  next.toNat?

/-- `(backup + (1 + rand() % (num_endpoints - 1))) % num_endpoints` (lines 222–224). -/
def chooseBackupInt (n backup rand : ℤ) : Option ℕ := do
  let m ← CInt.sub n 1
  let x ← CInt.rem rand m
  let d ← CInt.add 1 x
  let y ← CInt.add backup d
  let next ← CInt.rem y n
  next.toNat?

/-- `connectLoop` with the index as C computes it: `none` for an index that is
    negative or outside of `endpoints`, an overflow or a remainder by 0. -/
def connectLoopInt (env : Env) (p : ℕ) : ℕ → St → Option (St × Bool)
  | 0, s => some (s, false)
  | k + 1, s => do
    let backup := (s.sock p).backup
    let target ← s.config.endpoints[backup]?
    let (w, c) := s.world.redisConnectWithTimeout env p backup target
    let s := { s with world := w }
    match c.filter fun c => !(w.ctx c).err with
    | some c =>
      let next ← if s.config.numEndpoints > 1 then
          chooseBackupInt s.config.numEndpoints backup (env.rand s.world.rands)
        else some backup
      let s := (connected env p c s).setSock p fun r => { r with backup := next }
      some (s, true)
    | none =>
      let next ← nextBackupInt s.config.numEndpoints backup
      if k = 0 then
        some ((connectFailed env p c s).setSock p fun r => { r with backup := next }, false)
      else
        let s := { s with world := s.world.redisFree c }
        connectLoopInt env p k (s.setSock p fun r => { r with backup := next })

/-- `connectSingleSocket` with the index as C computes it. -/
def connectSingleSocketInt (env : Env) (p : ℕ) (s : St) : Option (St × Bool) :=
  connectLoopInt env p s.config.numEndpoints s

/-- `initSocket` with the index as C computes it. -/
def initSocketInt (env : Env) (i : ℕ) (s : St) : Option St := do
  let backup ← (CInt.rem i s.config.numEndpoints).bind Int.toNat?
  let s := s.setSock i fun _ => { newSocket s.config i with backup }
  let (now, w) := s.world.time env
  let s := { s with world := w }
  if now > s.connectAfter then
    (connectSingleSocketInt env i (s.log (.startConnect .init i now))).map Prod.fst
  else some s

/-- `initLoop` with the index as C computes it. -/
def initLoopInt (env : Env) : (k i : ℕ) → St → Option (Except St St)
  | 0, _, s => some (.ok s)
  | k + 1, i, s =>
    if env.mutexInit i ≠ 0 then some (.error s)
    else do
      let s ← initSocketInt env i s
      initLoopInt env k (i + 1) (pushSocket i s)

section Int

variable {env : Env} {n p : ℕ} {s : St}

theorem nextBackupInt_eq {b : ℕ} (hb : b < n) (hn : n ≤ 2 ^ 30) :
    nextBackupInt n b = some ((b + 1) % n) := by
  have hadd : CInt.add (b : ℤ) 1 = some ((b + 1 : ℕ) : ℤ) := CInt.add_natCast (a := b) (b := 1) (by omega)
  have hrem : CInt.rem ((b + 1 : ℕ) : ℤ) n = some (((b + 1) % n : ℕ) : ℤ) :=
    CInt.rem_natCast _ (by omega) (by omega)
  simp only [nextBackupInt, hadd, hrem, Option.bind_eq_bind, Option.bind_some]
  rfl

theorem chooseBackupInt_eq {b : ℕ} (hb : b < n) (h1 : 1 < n) (hn : n ≤ 2 ^ 30) (x : ℕ) :
    chooseBackupInt n b x = some ((b + (1 + x % (n - 1))) % n) := by
  have hx : x % (n - 1) < n - 1 := Nat.mod_lt x (by omega)
  have hsub : CInt.sub (n : ℤ) 1 = some ((n - 1 : ℕ) : ℤ) :=
    CInt.sub_natCast (a := n) (b := 1) (by omega) (by omega)
  have hrem : CInt.rem (x : ℤ) (n - 1 : ℕ) = some ((x % (n - 1) : ℕ) : ℤ) :=
    CInt.rem_natCast x (by omega) (by omega)
  have hadd : CInt.add 1 ((x % (n - 1) : ℕ) : ℤ) = some ((1 + x % (n - 1) : ℕ) : ℤ) :=
    CInt.add_natCast (a := 1) (b := x % (n - 1)) (by omega)
  have hjump : CInt.add (b : ℤ) ((1 + x % (n - 1) : ℕ) : ℤ) =
      some ((b + (1 + x % (n - 1)) : ℕ) : ℤ) := CInt.add_natCast (by omega)
  have hnext : CInt.rem ((b + (1 + x % (n - 1)) : ℕ) : ℤ) n =
      some (((b + (1 + x % (n - 1))) % n : ℕ) : ℤ) := CInt.rem_natCast _ (by omega) (by omega)
  simp only [chooseBackupInt, hsub, hrem, hadd, hjump, hnext, Option.bind_eq_bind, Option.bind_some]
  rfl

/-- A write of the value that is there. -/
theorem setSock_backup_self {b : ℕ} (h : (s.sock p).backup = b) :
    (s.setSock p fun r => { r with backup := b }) = s := by
  unfold St.setSock
  rw [← h, Function.update_eq_self]

/-- By induction on the iterations left: nothing is undefined, and the result is
    that of the model. -/
theorem connectLoopInt_eq (k : ℕ) {s : St} (hb : (s.sock p).backup < s.config.numEndpoints)
    (hn : s.config.numEndpoints ≤ 2 ^ 30) :
    connectLoopInt env p k s = some (connectLoop env p k s) := by
  induction k generalizing s with
  | zero => rfl
  | succ k ih =>
    have hget : s.config.endpoints[(s.sock p).backup]? =
        some (s.config.endpoint (s.sock p).backup) := by
      unfold PoolConfig.endpoint
      rw [List.getD_eq_getElem?_getD, List.getElem?_eq_getElem hb]; rfl
    rw [connectLoopInt, connectLoop]
    simp only [hget, Option.bind_eq_bind, Option.bind_some, nextBackupInt_eq hb hn]
    set s₁ : St := { s with world := (World.redisConnectWithTimeout env p (s.sock p).backup
      (s.config.endpoint (s.sock p).backup) s.world).1 } with hs₁
    generalize hacc : Option.filter _ _ = acc
    cases acc with
    | some c =>
      have hback := connected_backup env p c s₁
      by_cases h1 : 1 < s.config.numEndpoints
      · have hself := setSock_backup_self (hback.trans (if_pos h1))
        simp only [h1, if_true, chooseBackupInt_eq hb h1 hn, Option.bind_some]
        exact congrArg (fun s => some (s, true)) hself
      · have hself := setSock_backup_self (hback.trans (if_neg h1))
        simp only [h1, if_false]
        exact congrArg (fun s => some (s, true)) hself
    | none =>
      set r := World.redisConnectWithTimeout env p (s.sock p).backup
        (s.config.endpoint (s.sock p).backup) s.world with hr
      by_cases hk : k = 0
      · have hback : ((connectFailed env p r.2 s₁).sock p).backup =
            ((s.sock p).backup + 1) % s.config.numEndpoints := by
          simp [connectFailed, nextBackup, hs₁]
        simp only [hk, if_true]
        exact congrArg (fun s => some (s, false)) (setSock_backup_self hback)
      · simp only [hk, if_false]
        set s₂ := St.setSock { s₁ with world := r.1.redisFree r.2 } p (nextBackup s.config) with hs₂
        have hb₂ : (s₂.sock p).backup < s₂.config.numEndpoints := by
          simp only [hs₂, St.setSock_self, nextBackup]
          exact Nat.mod_lt _ (lt_of_le_of_lt (Nat.zero_le _) hb)
        exact ih hb₂ hn

theorem connectSingleSocketInt_eq (env : Env) (hb : (s.sock p).backup < s.config.numEndpoints)
    (hn : s.config.numEndpoints ≤ 2 ^ 30) :
    connectSingleSocketInt env p s = some (connectSingleSocket env p s) :=
  connectLoopInt_eq _ hb hn

theorem initSocketInt_eq (env : Env) (i : ℕ) (hn : s.config.numEndpoints ≤ 2 ^ 30) :
    initSocketInt env i s = some (initSocket env i s) := by
  have hpos : 0 < s.config.numEndpoints := s.config.endpoints_pos
  have hrem := CInt.rem_natCast i hpos (by omega)
  have hb : ((beforeInit env i s).sock i).backup < (beforeInit env i s).config.numEndpoints := by
    simp only [beforeInit, unconnected, St.log_sock, St.setSock_self, newSocket]
    exact Nat.mod_lt _ hpos
  unfold initSocketInt initSocket
  simp only [hrem, Option.bind_eq_bind, Option.bind_some, Int.toNat?]
  by_cases hnow : s.connectAfter < env.clock s.world.clocks
  · have hint := connectSingleSocketInt_eq env hb hn
    have hleft : (if env.clock s.world.clocks > s.connectAfter then
        (connectSingleSocketInt env i (beforeInit env i s)).map Prod.fst
        else some (unconnected env i s)) = some (connectSingleSocket env i (beforeInit env i s)).1 := by
      rw [if_pos hnow, hint]; rfl
    have hright : (if env.clock s.world.clocks > s.connectAfter then
        (connectSingleSocket env i (beforeInit env i s)).1 else unconnected env i s) =
        (connectSingleSocket env i (beforeInit env i s)).1 := if_pos hnow
    exact hleft.trans (congrArg some hright.symm)
  · exact (if_neg hnow).trans (congrArg some (if_neg hnow).symm)

/-- By induction on the sockets left: the creation loop is that of the model. -/
theorem initLoopInt_eq (env : Env) (k i : ℕ) {s : St} (hn : s.config.numEndpoints ≤ 2 ^ 30) :
    initLoopInt env k i s = some (initLoop env k i s) := by
  induction k generalizing i s with
  | zero => rfl
  | succ k ih =>
    rw [initLoopInt, initLoop]
    split
    · rfl
    · rw [initSocketInt_eq env i hn, Option.bind_eq_bind, Option.bind_some]
      have hconf : (pushSocket i (initSocket env i s)).config = s.config :=
        (initSocket_frame env i s).config
      exact ih (i + 1) (by rw [hconf]; exact hn)

end Int

end Hiredispool.Pool
