import Hiredispool.Lib.Cycle
import Hiredispool.Pool.Connect

/-!
# The fail-over sweep

What `connect_single_socket` tries, and in which order. `Sweeping i` is the
state of the loop after `i` refused attempts; one more refusal leads to
`Sweeping (i + 1)`, and the two exits are taken from it.

* `connectSingleSocket_swept`: the endpoints from `backup` on are tried in
  cyclic order up to the first one that accepts; after a full round without
  success the socket is left unconnected with its `backup` as before.
-/

namespace Hiredispool.Pool

/-! ## What a trace shows -/

/-- The endpoints that were tried for `p`, in order. -/
def tried (p : ℕ) (tr : List Event) : List ℕ :=
  tr.filterMap fun
    | .connect q ep _ => if q = p then some ep else none
    | _ => none

/-- The contexts that connects have returned, in order. -/
def opened (tr : List Event) : List ℕ :=
  tr.filterMap fun
    | .connect _ _ c => c
    | _ => none

/-- The contexts that were freed, in order. -/
def freed (tr : List Event) : List ℕ :=
  tr.filterMap fun
    | .free c => some c
    | _ => none

@[simp] theorem tried_append (p : ℕ) (tr tr' : List Event) :
    tried p (tr ++ tr') = tried p tr ++ tried p tr' := List.filterMap_append

@[simp] theorem opened_append (tr tr' : List Event) :
    opened (tr ++ tr') = opened tr ++ opened tr' := List.filterMap_append

@[simp] theorem freed_append (tr tr' : List Event) :
    freed (tr ++ tr') = freed tr ++ freed tr' := List.filterMap_append

/-! ## One attempt -/

section Attempt

variable (env : Env) (p ep : ℕ) (tgt : RedisEndpoint) (w : World)

@[simp] theorem redisConnect_connects :
    (w.redisConnectWithTimeout env p ep tgt).1.connects = w.connects + 1 := by
  unfold World.redisConnectWithTimeout
  dsimp only
  split <;> rfl

/-- The events of a refused attempt. -/
def refusal (p ep : ℕ) (c : Option ℕ) : List Event := .connect p ep c :: c.toList.map .free

@[simp] theorem tried_refusal (c : Option ℕ) : tried p (refusal p ep c) = [ep] := by
  cases c <;> simp [tried, refusal]

@[simp] theorem opened_refusal (c : Option ℕ) : opened (refusal p ep c) = c.toList := by
  cases c <;> simp [opened, refusal]

@[simp] theorem freed_refusal (c : Option ℕ) : freed (refusal p ep c) = c.toList := by
  cases c <;> simp [freed, refusal]

end Attempt

/-! ## The loop after `i` refused attempts -/

section Sweep

variable (env : Env) (p : ℕ)

/-- The outcome of attempt number `i` of a call from `s`. -/
def outcome (s : St) (i : ℕ) : ConnectResult := env.connect (s.world.connects + i)

/-- `s₁` is the state of a call from `s` after `i` refused attempts. -/
structure Sweeping (s : St) (i : ℕ) (s₁ : St) : Prop where
  frame : SockFrame p s s₁
  connectAfter : s₁.connectAfter = s.connectAfter
  backup : (s₁.sock p).backup = ((s.sock p).backup + i) % s.config.numEndpoints
  refusals : Refusals p s.world s₁.world
  connects : s₁.world.connects = s.world.connects + i
  refused : ∀ j, j < i → outcome env s j ≠ .ok
  trace : ∃ new, s₁.world.trace = s.world.trace ++ new ∧
    tried p new = Cycle.order s.config.numEndpoints (s.sock p).backup i ∧
    opened new = List.range' s.world.nctx (s₁.world.nctx - s.world.nctx) ∧
    freed new = opened new

theorem Sweeping.start {s : St} (hb : (s.sock p).backup < s.config.numEndpoints) :
    Sweeping env p s 0 s :=
  ⟨SockFrame.refl p s, rfl, by rw [Nat.add_zero, Nat.mod_eq_of_lt hb], Refusals.refl p _, rfl,
    fun _ h => absurd h (Nat.not_lt_zero _), [], by simp [tried, opened, freed]⟩

/-- A refused attempt got NULL or the next context, and frees what it got. -/
theorem refuse_spec (s₁ : St) :
    (refuse env p s₁).connects = s₁.world.connects + 1 ∧
      (refuse env p s₁).trace =
        s₁.world.trace ++ refusal p (s₁.sock p).backup (tryBackup env p s₁).2 ∧
      ((tryBackup env p s₁).2 = none ∧ (refuse env p s₁).nctx = s₁.world.nctx ∨
        (tryBackup env p s₁).2 = some s₁.world.nctx ∧
          (refuse env p s₁).nctx = s₁.world.nctx + 1) := by
  unfold refuse tryBackup World.redisConnectWithTimeout World.redisFree
  by_cases hres : env.connect s₁.world.connects = .null
  · simp [hres, refusal]
  · simp [hres, refusal]

variable {env p} {s s₁ : St} {i : ℕ}

/-- What a refused attempt adds to the trace, and to the count of attempts. -/
theorem Sweeping.refuse (h : Sweeping env p s i s₁) :
    (refuse env p s₁).connects = s.world.connects + (i + 1) ∧
      Refusals p s.world (refuse env p s₁) ∧
      ∃ new, (Pool.refuse env p s₁).trace = s.world.trace ++ new ∧
        tried p new = Cycle.order s.config.numEndpoints (s.sock p).backup (i + 1) ∧
        opened new = List.range' s.world.nctx ((Pool.refuse env p s₁).nctx - s.world.nctx) ∧
        freed new = opened new := by
  obtain ⟨new, htr, htried, hopened, hfreed⟩ := h.trace
  have hle := h.refusals.nctx_le
  obtain ⟨hconn, hnew, hn⟩ := refuse_spec env p s₁
  refine ⟨by rw [hconn, h.connects]; omega, h.refusals.trans (refusals_attempt env p _ _ _),
    new ++ refusal p (s₁.sock p).backup _, by rw [hnew, htr, List.append_assoc], ?_, ?_, ?_⟩
  · rw [tried_append, tried_refusal, htried, h.backup, Cycle.order_succ]
  · rw [opened_append, opened_refusal, hopened]
    rcases hn with ⟨hc, hn⟩ | ⟨hc, hn⟩
    · rw [hc, hn]; simp
    · rw [hc, hn, show s₁.world.nctx + 1 - s.world.nctx = s₁.world.nctx - s.world.nctx + 1 by omega,
        List.range'_concat]
      simp only [Option.toList_some, List.append_cancel_left_eq, List.cons.injEq, and_true]
      omega
  · rw [freed_append, opened_append, freed_refusal, opened_refusal, hfreed]

/-- One more attempt is refused, and another endpoint is left. -/
theorem Sweeping.next (h : Sweeping env p s i s₁) (hout : outcome env s i ≠ .ok) :
    Sweeping env p s (i + 1)
      (({ s₁ with world := Pool.refuse env p s₁ } : St).setSock p (nextBackup s₁.config)) := by
  obtain ⟨hconn, href, htr⟩ := h.refuse
  have hf : SockFrame p s₁
      (({ s₁ with world := Pool.refuse env p s₁ } : St).setSock p (nextBackup s₁.config)) :=
    SockFrame.of_setSock (nextBackup s₁.config) (fun _ => ⟨rfl, rfl, rfl, rfl⟩) rfl
  refine ⟨h.frame.trans hf, h.connectAfter, ?_, href, hconn, fun j hj => ?_, htr⟩
  · simp only [St.setSock_self, nextBackup, h.backup, h.frame.config, Cycle.mod_succ]
    rw [Nat.add_assoc]
  · by_cases hji : j = i
    · rw [hji]; exact hout
    · exact h.refused j (by omega)

/-! ## The two exits -/

variable (env p) in
/-- A call from `s` returned `r` after `m` attempts and added `new` to the trace. -/
structure Swept (s : St) (r : St × Bool) (m : ℕ) (new : List Event) : Prop where
  trace : r.1.world.trace = s.world.trace ++ new
  connects : r.1.world.connects = s.world.connects + m
  /-- The endpoints from `backup` on are tried in cyclic order, each at most once. -/
  tried : tried p new = Cycle.order s.config.numEndpoints (s.sock p).backup m
  once : (Pool.tried p new).Nodup
  /-- The call goes on only after a refusal. -/
  stops : ∀ i, i + 1 < m → outcome env s i ≠ .ok
  ok_iff : r.2 = true ↔ ∃ i < m, outcome env s i = .ok
  ok : r.2 = true → (r.1.sock p).state = .sockconnected ∧ ∃ ep c,
    new.getLast? = some (.connect p ep (some c)) ∧ (r.1.sock p).conn = some c
  fail_iff : r.2 = false ↔
    (Pool.tried p new).Perm (List.range s.config.numEndpoints) ∧ ∀ i < m, outcome env s i ≠ .ok
  fail : r.2 = false → (r.1.sock p).conn = none ∧ (r.1.sock p).state = .sockunconnected ∧
    (r.1.sock p).backup = (s.sock p).backup ∧
    r.1.connectAfter = env.clock s.world.clocks + s.config.connectFailureRetryDelay
  /-- The contexts of refused attempts are freed, each of them once. -/
  opened : (opened new).Nodup
  freed : freed new = (Pool.opened new).filter fun c => (r.1.sock p).conn ≠ some c
  frees : ∀ c ∈ Pool.opened new,
    (r.1.world.ctx c).frees = if (r.1.sock p).conn = some c then 0 else 1
  other : ∀ q, q ≠ p → r.1.sock q = s.sock q

/-- Neither exit makes an attempt or records one. -/
theorem connected_world (env : Env) (p c : ℕ) (s : St) :
    (connected env p c s).world.connects = s.world.connects ∧
      (connected env p c s).world.trace = s.world.trace := by
  unfold connected
  dsimp only
  set s₁ := s.setSock p fun r => { r with conn := some c, state := .sockconnected } with hs₁
  obtain ⟨-, -, -, hconn, htr⟩ := chooseBackup_world env p s₁
  obtain ⟨-, o2, -, o4, -⟩ := options_spec env c (chooseBackup env p s₁).world
  exact ⟨o2.trans hconn, o4.trans htr⟩

/-- Attempt number `i` is accepted. -/
theorem Sweeping.connected (h : Sweeping env p s i s₁) (hi : i < s.config.numEndpoints)
    (hout : outcome env s i = .ok) :
    ∃ new, Swept env p s (connected env p s₁.world.nctx
      { s₁ with world := (tryBackup env p s₁).1 }, true) (i + 1) new := by
  obtain ⟨new, htr, htried, hopened, hfreed⟩ := h.trace
  have hok : env.connect s₁.world.connects = .ok := by rw [h.connects]; exact hout
  set s₂ : St := { s₁ with world := (tryBackup env p s₁).1 } with hs₂
  set c := s₁.world.nctx with hc
  have ha : Adopted env p s₁.world s₁ (Pool.connected env p c s₂) := adopted_attempt env p _ _ s₁ hok
  set last := Event.connect p (s₁.sock p).backup (some c) with hlast
  have hco : ((Pool.connected env p c s₂).sock p).conn = some c := ha.conn
  have hfr : ((Pool.connected env p c s₂).world.ctx c).frees = 0 := ha.frees
  obtain ⟨hconn, htr'⟩ := connected_world env p c s₂
  have hle := h.refusals.nctx_le
  have hev : s₂.world.trace = s₁.world.trace ++ [last] := by
    simp [hs₂, tryBackup, World.redisConnectWithTimeout, hok, hlast, hc]
  have hnot : c ∉ opened new := by
    rw [hopened, List.mem_range'_1]; omega
  have htried' : tried p (new ++ [last]) =
      Cycle.order s.config.numEndpoints (s.sock p).backup (i + 1) := by
    rw [tried_append, htried, Cycle.order_succ, ← h.backup]
    simp [tried, hlast]
  have hopened' : opened (new ++ [last]) = opened new ++ [c] := by
    rw [opened_append]; rfl
  refine ⟨new ++ [last], ?_, ?_, htried', ?_, ?_, ?_, ?_, ?_, ?_, ?_, ?_, ?_, ?_⟩
  · rw [htr', hev, htr, List.append_assoc]
  · rw [hconn, hs₂]
    simp only [tryBackup, redisConnect_connects, h.connects, Nat.add_assoc]
  · rw [htried']; exact Cycle.order_nodup (by omega)
  · exact fun j hj => h.refused j (by omega)
  · exact iff_of_true rfl ⟨i, by omega, hout⟩
  · exact fun _ => ⟨ha.state, (s₁.sock p).backup, c, by simp [hlast], hco⟩
  · refine iff_of_false (by simp) ?_
    rintro ⟨-, hno⟩
    exact hno i (by omega) hout
  · simp
  · rw [hopened', List.nodup_append]
    refine ⟨hopened ▸ List.nodup_range', by simp, ?_⟩
    intro d hd d' hd' hdd
    rw [List.mem_singleton.mp hd'] at hdd
    exact hnot (hdd ▸ hd)
  · have hkeep : (opened new).filter (fun d => some c ≠ some d) = opened new := by
      rw [List.filter_eq_self]
      intro d hd
      have hne : c ≠ d := by rintro rfl; exact hnot hd
      simpa using hne
    simp only [hco, freed_append, hopened', hfreed, List.filter_append, hkeep]
    simp [freed, hlast]
  · intro d hd
    rw [hopened', List.mem_append, List.mem_singleton] at hd
    by_cases hdc : d = c
    · simp [hdc, hco, hfr]
    · have hd' := hd.resolve_right hdc
      rw [hopened, List.mem_range'_1] at hd'
      obtain ⟨hf, -⟩ := h.refusals.fresh d hd'.1 (by omega)
      have hne : ¬some c = some d := by simpa using fun e => hdc e.symm
      rw [hco, if_neg hne]
      exact (congrArg RedisContext.frees (ha.other d hdc)).trans hf
  · exact fun q hq => ((sockFrame_connected env p _ s₂).other q hq).trans (h.frame.other q hq)

/-- The last attempt of a round is refused. -/
theorem Sweeping.connectFailed (h : Sweeping env p s i s₁) (hi : i + 1 = s.config.numEndpoints)
    (hb : (s.sock p).backup < s.config.numEndpoints) (hout : outcome env s i ≠ .ok) :
    ∃ new, Swept env p s (connectFailed env p (tryBackup env p s₁).2
      { s₁ with world := (tryBackup env p s₁).1 }, false) s.config.numEndpoints new := by
  obtain ⟨hconn, href, new, htr, htried, hopened, hfreed⟩ := h.refuse
  rw [hi] at hconn htried
  have ha := refused_attempt env p (tryBackup env p s₁).2 s₁ (tryBackup env p s₁).1
  set s₂ := Pool.connectFailed env p (tryBackup env p s₁).2 { s₁ with world := (tryBackup env p s₁).1 }
    with hs₂
  set last := Event.connectFailed p (env.clock (Pool.refuse env p s₁).clocks) with hlast
  have hall : ∀ j < s.config.numEndpoints, outcome env s j ≠ .ok := by
    intro j hj
    by_cases hji : j = i
    · rw [hji]; exact hout
    · exact h.refused j (by omega)
  have htried' : tried p (new ++ [last]) = tried p new := by
    rw [tried_append]; exact List.append_nil _
  have hopened' : opened (new ++ [last]) = opened new := by
    rw [opened_append]; exact List.append_nil _
  have hback : (s₂.sock p).backup = (s.sock p).backup := by
    have hn : s₁.config = s.config := h.frame.config
    simp only [hs₂, Pool.connectFailed, St.setSock_self, nextBackup, h.backup, hn, Cycle.mod_succ]
    rw [Nat.add_assoc, hi, Nat.add_mod_right, Nat.mod_eq_of_lt hb]
  refine ⟨new ++ [last], ?_, hconn, htried'.trans htried, ?_, fun j hj => hall j (by omega), ?_,
    by simp, ?_, fun _ => ⟨ha.conn, ha.state, hback, ?_⟩, ?_, ?_, ?_, ?_⟩
  · rw [ha.trace]
    exact (congrArg (· ++ [last]) htr).trans (List.append_assoc _ _ _)
  · rw [htried', htried]; exact Cycle.order_nodup le_rfl
  · refine iff_of_false (by simp) ?_
    rintro ⟨j, hj, hok⟩
    exact hall j hj hok
  · refine iff_of_true rfl ⟨?_, hall⟩
    rw [htried', htried]; exact Cycle.order_perm _ _
  · rw [ha.connectAfter, h.frame.config]
    exact congrArg (env.clock · + _) href.clocks
  · rw [hopened', hopened]; exact List.nodup_range'
  · simp only [ha.conn, freed_append, hopened', hfreed]
    simp [freed, hlast]
  · intro c hc
    rw [hopened', hopened, List.mem_range'_1] at hc
    rw [ha.conn, ha.ctx]
    exact (href.fresh c hc.1 (by have := href.nctx_le; unfold Pool.refuse at this; omega)).1
  · intro q hq
    exact ((sockFrame_connectFailed env p _ _).other q hq).trans (h.frame.other q hq)

/-- By induction on the iterations left: attempt number `i` is accepted, or is
    the last one of the round, or is refused and the loop goes on. -/
theorem Sweeping.loop (hb : (s.sock p).backup < s.config.numEndpoints) :
    ∀ {k i : ℕ} {s₁ : St}, Sweeping env p s i s₁ → i + (k + 1) = s.config.numEndpoints →
      ∃ m new, Swept env p s (connectLoop env p (k + 1) s₁) m new := by
  intro k
  induction k with
  | zero =>
    intro i s₁ h hi
    rw [connectLoop_succ, h.connects]
    by_cases hout : env.connect (s.world.connects + i) = .ok
    · obtain ⟨new, hnew⟩ := h.connected (by omega) hout
      exact ⟨i + 1, new, by rwa [if_pos hout]⟩
    · obtain ⟨new, hnew⟩ := h.connectFailed hi hb hout
      exact ⟨s.config.numEndpoints, new, by rwa [if_neg hout, if_pos rfl]⟩
  | succ k ih =>
    intro i s₁ h hi
    rw [connectLoop_succ, h.connects]
    by_cases hout : env.connect (s.world.connects + i) = .ok
    · obtain ⟨new, hnew⟩ := h.connected (by omega) hout
      exact ⟨i + 1, new, by rwa [if_pos hout]⟩
    · rw [if_neg hout, if_neg (Nat.succ_ne_zero k)]
      exact ih (h.next hout) (by omega)

/-- **The fail-over sweep of `connect_single_socket`.** -/
theorem connectSingleSocket_swept (env : Env) {p : ℕ} {s : St}
    (hb : (s.sock p).backup < s.config.numEndpoints) :
    ∃ m new, Swept env p s (connectSingleSocket env p s) m new := by
  unfold connectSingleSocket
  have hn : s.config.numEndpoints = s.config.numEndpoints - 1 + 1 := by omega
  rw [hn]
  exact (Sweeping.start env p hb).loop hb (by omega)

end Sweep

end Hiredispool.Pool
