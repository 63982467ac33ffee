import Hiredispool.Hiredis.AsyncRuns

/-!
# The life of an asynchronous context

All runs of an asynchronous context, with any commands, any server and any calls of the
application: how often it is told of the connection, and what still happens once the
context is torn down. In `onConnect` and `onDisconnect` the application does not free or
disconnect the context, which the handlers go on with (`async.c`, lines 502–503, 509 and
308–316).

* `Async.lifecycle`: `onConnect` is called at most once, and `onDisconnect` exactly once if
  there is such a callback and the context was connected.
* `Async.tornDown`: a context that is torn down takes no command, reads and writes nothing,
  and calls the callbacks with `NULL` only.

A context is torn down for one of four reasons: the application frees it, or disconnects it and
all replies have come (line 421), or the server sends an error that no command waits for (line
455), or there is an error of the socket or of the protocol (lines 488, 503, 529 and 551).
-/

namespace Hiredispool.Hiredis

open Hiredispool.Pool (Bytes cStr)
open Hiredispool.Client (Arg Num)

/-- `__redisAsyncFree` has called `onDisconnect`, if it does. -/
def AsyncControl.over : AsyncControl → Bool
  | .disconnected => true
  | .freed => true
  | _ => false

/-- While the application may free the context, `onDisconnect` has not been called. -/
theorem AsyncControl.over_of_mayFree {control : AsyncControl} (h : control.mayFree = true) :
    control.over = false := by
  cases control <;> first | rfl | cases h

/-! ## Errors -/

/-- `REDIS_ERR` comes with an error of the reader (lines 482–484 and 507–508). -/
theorem RedisReader.getReply_false {r r' : RedisReader} {reply : Option ReplyObject}
    (h : r.getReply = some (r', false, reply)) : r'.err ≠ 0 := by
  unfold getReply at h
  split at h
  · next herr =>
    obtain ⟨rfl, -⟩ := Prod.mk.inj (Option.some.inj h)
    exact herr
  split at h
  · cases (Prod.mk.inj (Prod.mk.inj (Option.some.inj h)).2).1
  obtain ⟨r₁, -, h⟩ := Option.bind_eq_some_iff.mp h
  split at h
  · next herr =>
    obtain ⟨rfl, -⟩ := Prod.mk.inj (Option.some.inj h)
    exact herr
  · obtain ⟨r₂, -, h⟩ := Option.map_eq_some_iff.mp h
    split at h <;> cases (Prod.mk.inj (Prod.mk.inj h).2).1

namespace RedisContext

/-- And with one of the context, for `redisGetReplyFromReader` copies it. -/
theorem getReplyEnter_false {c c' : RedisContext} {reply : Option ReplyObject}
    (h : c.getReplyEnter = some (c', .returned false reply)) : c'.err ≠ 0 := by
  obtain ⟨⟨c₁, ok, aux⟩, hreader, heq⟩ := Option.map_eq_some_iff.mp h
  obtain ⟨⟨reader, ok', reply'⟩, hget, hctx⟩ := Option.map_eq_some_iff.mp hreader
  dsimp only at hctx heq
  cases ok' with
  | true =>
    rw [if_pos rfl] at hctx
    obtain ⟨rfl, rfl, rfl⟩ := hctx
    simp only [Bool.not_true, Bool.false_eq_true, if_false] at heq
    split at heq <;> cases (Prod.mk.inj heq).2
  | false =>
    rw [if_neg Bool.false_ne_true] at hctx
    obtain ⟨rfl, rfl, rfl⟩ := hctx
    obtain ⟨rfl, -⟩ := Prod.mk.inj heq
    exact setError_err (RedisReader.getReply_false hget) _ _

/-- A read that fails sets the error. -/
theorem redisBufferRead_false {c c' : RedisContext} {res : ReadResult}
    (h : c.redisBufferRead res = (c', false)) : c'.err ≠ 0 := by
  unfold redisBufferRead at h
  split at h
  · next herr =>
    obtain ⟨rfl, -⟩ := Prod.mk.inj h
    exact herr
  · cases res with
    | failed errno text =>
      dsimp only at h
      split at h
      · cases (Prod.mk.inj h).2
      · obtain ⟨rfl, -⟩ := Prod.mk.inj h
        exact setError_err (by decide) _ _
    | eof =>
      obtain ⟨rfl, -⟩ := Prod.mk.inj h
      exact setError_err (by decide) _ _
    | data buf =>
      dsimp only at h
      split at h
      · cases (Prod.mk.inj h).2
      · next reader hfeed =>
        obtain ⟨rfl, -⟩ := Prod.mk.inj h
        refine setError_err ?_ _ _
        unfold RedisReader.feed at hfeed
        split at hfeed
        · next herr =>
          obtain ⟨rfl, -⟩ := Prod.mk.inj hfeed
          exact herr
        · cases (Prod.mk.inj hfeed).2

/-- So does a write. -/
theorem redisBufferWrite_false {c c' : RedisContext} {res : WriteResult} {done : Bool}
    (h : c.redisBufferWrite res = some (c', false, done)) : c'.err ≠ 0 := by
  unfold redisBufferWrite at h
  split at h
  · next herr =>
    obtain ⟨rfl, -⟩ := Prod.mk.inj (Option.some.inj h)
    exact herr
  · split at h
    · cases res with
      | failed errno text =>
        dsimp only at h
        split at h
        · cases (Prod.mk.inj (Prod.mk.inj (Option.some.inj h)).2).1
        · obtain ⟨rfl, -⟩ := Prod.mk.inj (Option.some.inj h)
          exact setError_err (by decide) _ _
      | wrote nwritten =>
        obtain ⟨c₁, -, heq⟩ := Option.map_eq_some_iff.mp h
        cases (Prod.mk.inj (Prod.mk.inj heq).2).1
    · cases (Prod.mk.inj (Prod.mk.inj (Option.some.inj h)).2).1

end RedisContext

/-! ## Commands -/

namespace RedisAsyncContext

/-- What a command leaves alone: the flags and the callbacks for the connection. -/
structure Kept (ac ac' : RedisAsyncContext) : Prop where
  connected : ac'.connected = ac.connected
  disconnecting : ac'.disconnecting = ac.disconnecting
  freeing : ac'.freeing = ac.freeing
  onDisconnect : ac'.onDisconnect = ac.onDisconnect
  err : ac'.err = ac.err
  cerr : ac'.c.err = ac.c.err

/-- Two such steps. -/
theorem Kept.trans {ac ac₁ ac₂ : RedisAsyncContext} (h₁ : ac.Kept ac₁) (h₂ : ac₁.Kept ac₂) :
    ac.Kept ac₂ :=
  ⟨h₂.connected.trans h₁.connected, h₂.disconnecting.trans h₁.disconnecting,
    h₂.freeing.trans h₁.freeing, h₂.onDisconnect.trans h₁.onDisconnect, h₂.err.trans h₁.err,
    h₂.cerr.trans h₁.cerr⟩

/-- A command is appended (lines 642–647). -/
theorem append_kept {ac ac' : RedisAsyncContext} {cmd : Bytes} {len : ℤ} {ok : Bool}
    (h : append cmd len ac = some (ac', ok)) : ac.Kept ac' := by
  obtain ⟨c, happend, heq⟩ := Option.map_eq_some_iff.mp h
  obtain ⟨rfl, -⟩ := Prod.mk.inj heq
  obtain ⟨-, hc⟩ := Option.ite_none_right_eq_some.mp happend
  obtain rfl := Option.some.inj hc
  exact ⟨rfl, rfl, rfl, rfl, rfl, rfl⟩

/-- By induction on the channels. -/
theorem subscribe_kept {pvariant : Bool} {cb : RedisCallback} {fuel : ℕ} {p : Bytes}
    {ac ac' : RedisAsyncContext} (h : subscribe pvariant cb fuel p ac = some ac') : ac.Kept ac' := by
  induction fuel generalizing p ac with
  | zero => cases h
  | succ fuel ih =>
    obtain ⟨arg, -, h⟩ := Option.bind_eq_some_iff.mp h
    cases arg with
    | none =>
      obtain rfl := Option.some.inj h
      exact ⟨rfl, rfl, rfl, rfl, rfl, rfl⟩
    | some arg =>
      obtain ⟨astr, alen, p'⟩ := arg
      dsimp only at h
      split at h
      · split at h
        · obtain ⟨⟨dict, new⟩, -, h⟩ := Option.bind_eq_some_iff.mp h
          exact { ih h with }
        · obtain ⟨⟨dict, new⟩, -, h⟩ := Option.bind_eq_some_iff.mp h
          exact { ih h with }
      · cases h

/-- A command is refused when the context is being torn down, and it touches neither the flags
    nor the errors. -/
theorem asyncCommand_kept {ac ac' : RedisAsyncContext} {cb : RedisCallback} {cmd : Bytes} {len : ℤ}
    {ok : Bool} (h : ac.asyncCommand cb cmd len = some (ac', ok)) :
    ac.Kept ac' ∧ (ac.disconnecting = true ∨ ac.freeing = true → ac' = ac ∧ ok = false) := by
  unfold asyncCommand at h
  split at h
  · obtain ⟨rfl, rfl⟩ := Prod.mk.inj (Option.some.inj h)
    exact ⟨⟨rfl, rfl, rfl, rfl, rfl, rfl⟩, fun _ => ⟨rfl, rfl⟩⟩
  next hlive =>
  refine ⟨?_, fun hrefused => absurd hrefused hlive⟩
  obtain ⟨arg, -, h⟩ := Option.bind_eq_some_iff.mp h
  obtain ⟨⟨cstr, clen, p⟩, -, h⟩ := Option.bind_eq_some_iff.mp h
  dsimp only at h
  split at h
  · obtain ⟨ac₁, hsub, h⟩ := Option.bind_eq_some_iff.mp h
    have hkept : ({ ac with subscribed := true } : RedisAsyncContext).Kept ac' :=
      (subscribe_kept hsub).trans (append_kept h)
    exact { hkept with }
  split at h
  · split at h
    · obtain ⟨rfl, -⟩ := Prod.mk.inj (Option.some.inj h)
      exact ⟨rfl, rfl, rfl, rfl, rfl, rfl⟩
    · exact append_kept h
  split at h
  · exact { append_kept h with }
  split at h
  · exact { append_kept h with }
  · exact { append_kept h with }

/-- The same for an argument vector, which is formatted before it is refused. -/
theorem asyncCommandArgv_kept {ac ac' : RedisAsyncContext} {cb : RedisCallback} {argv : List Bytes}
    {ok : Bool} (h : ac.asyncCommandArgv cb argv = some (ac', ok)) :
    ac.Kept ac' ∧ (ac.disconnecting = true ∨ ac.freeing = true → ac' = ac ∧ ok = false) := by
  obtain ⟨⟨cmd, len⟩, -, h⟩ := Option.bind_eq_some_iff.mp h
  exact asyncCommand_kept h

/-- A message changes the subscriptions and nothing else. -/
theorem getSubscribeCallback_connected {ac ac' : RedisAsyncContext} {reply : ReplyObject}
    {prev cb : RedisCallback} (h : ac.getSubscribeCallback reply prev = some (ac', cb)) :
    ac'.connected = ac.connected := by
  unfold getSubscribeCallback at h
  split at h
  · dsimp only at h
    split at h
    · obtain ⟨de, -, h⟩ := Option.bind_eq_some_iff.mp h
      split at h
      · obtain ⟨rfl, -⟩ := Prod.mk.inj (Option.some.inj h)
        rfl
      · split at h
        · obtain ⟨⟨callbacks, ok⟩, -, h⟩ := Option.bind_eq_some_iff.mp h
          dsimp only at h
          split at h
          · obtain ⟨rfl, -⟩ := Prod.mk.inj (Option.some.inj h)
            dsimp only
            split <;> rfl
          · cases h
        · obtain ⟨rfl, -⟩ := Prod.mk.inj (Option.some.inj h)
          rfl
    · cases h
  · cases h
  · cases h
  · split at h <;> obtain ⟨rfl, -⟩ := Prod.mk.inj (Option.some.inj h) <;> rfl

end RedisAsyncContext

namespace Async

/-! ## Invariant -/

/-- What `onDisconnect` is told, if it is called. -/
def farewell (s : Async) : List Bool :=
  if s.ac.onDisconnect ∧ s.ac.connected then
    [if s.ac.freeing then true else decide (s.ac.err = 0)]
  else []

/-- What holds between any two steps of any run: no command is taken when the context is torn
    down, an error is why `onConnect` is told of one, and `onConnect` and `onDisconnect` have
    been called as they should. -/
structure Life (s : Async) : Prop where
  refuses : s.control.closing = true → s.ac.disconnecting = true ∨ s.ac.freeing = true
  failed : s.control.failed = true → s.ac.c.err ≠ 0
  connects : s.connects = [] ∨ s.connects = [true] ∧ s.ac.connected = true ∨
    s.connects = [false] ∧ s.ac.connected = false ∧
      (s.control.failed = true ∨ s.control.closing = true)
  disconnects : s.disconnects = if s.control.over then s.farewell else []
  notified : s.control = .disconnected → s.ac.onDisconnect = true ∧ s.ac.connected = true

/-- Nobody has been called. -/
theorem Life.start : Life start where
  refuses := by rintro ⟨⟩
  failed := by rintro ⟨⟩
  connects := Or.inl rfl
  disconnects := rfl
  notified := by rintro ⟨⟩

/-- What was not touched stays true. -/
theorem Life.congr {s s' : Async} (h : Life s) (hkept : s.ac.Kept s'.ac)
    (hcontrol : s'.control = s.control) (hconnects : s'.connects = s.connects)
    (hdisconnects : s'.disconnects = s.disconnects) : Life s' := by
  have hfarewell : s'.farewell = s.farewell := by
    unfold farewell
    rw [hkept.onDisconnect, hkept.connected, hkept.freeing, hkept.err]
  refine ⟨?_, ?_, ?_, ?_, ?_⟩
  · rw [hcontrol, hkept.disconnecting, hkept.freeing]
    exact h.refuses
  · rw [hcontrol, hkept.cerr]
    exact h.failed
  · rw [hconnects, hkept.connected, hcontrol]
    exact h.connects
  · rw [hdisconnects, hcontrol, hfarewell]
    exact h.disconnects
  · rw [hcontrol, hkept.onDisconnect, hkept.connected]
    exact h.notified

/-- The events do not matter. -/
theorem Life.events {s : Async} (h : Life s) (evRead evWrite : Bool) :
    Life { s with ac := { s.ac with evRead := evRead, evWrite := evWrite } } :=
  h.congr ⟨rfl, rfl, rfl, rfl, rfl, rfl⟩ rfl rfl rfl

/-- Before `onDisconnect` is called. -/
theorem Life.disconnects_nil {s : Async} (h : Life s) (hover : s.control.over = false) :
    s.disconnects = [] := by
  have := h.disconnects
  rwa [hover, if_neg Bool.false_ne_true] at this

/-- A step to a state in which the context is in use. -/
theorem Life.of_live {s s' : Async} (h : Life s) (hover : s.control.over = false)
    (hfailed : s.control.failed = false) (hlive : s.control.closing = false)
    (hover' : s'.control.over = false) (hfailed' : s'.control.failed = false)
    (hlive' : s'.control.closing = false) (hconnected : s'.ac.connected = s.ac.connected)
    (hconnects : s'.connects = s.connects) (hdisconnects : s'.disconnects = s.disconnects) :
    Life s' := by
  refine ⟨?_, ?_, ?_, ?_, ?_⟩
  · rw [hlive']
    rintro ⟨⟩
  · rw [hfailed']
    rintro ⟨⟩
  · rw [hconnects, hconnected]
    rcases h.connects with hnil | htrue | ⟨-, -, hf | hc⟩
    · exact Or.inl hnil
    · exact Or.inr (Or.inl htrue)
    · rw [hfailed] at hf
      cases hf
    · rw [hlive] at hc
      cases hc
  · rw [hdisconnects, hover', if_neg Bool.false_ne_true]
    exact h.disconnects_nil hover
  · intro hc
    rw [hc] at hover'
    cases hover'

/-- A step to a state in which the context is torn down, before `onDisconnect`. -/
theorem Life.of_closing {s s' : Async} (h : Life s) (hover : s.control.over = false)
    (hover' : s'.control.over = false) (hclosed : s'.control.closing = true)
    (hrefuses : s'.ac.disconnecting = true ∨ s'.ac.freeing = true)
    (hconnected : s'.ac.connected = s.ac.connected) (hconnects : s'.connects = s.connects)
    (hdisconnects : s'.disconnects = s.disconnects) : Life s' := by
  refine ⟨fun _ => hrefuses, ?_, ?_, ?_, ?_⟩
  · intro hf
    cases hc : s'.control <;> simp_all [AsyncControl.closing, AsyncControl.failed]
  · rw [hconnects, hconnected]
    rcases h.connects with hnil | htrue | ⟨hfalse, hnot, -⟩
    · exact Or.inl hnil
    · exact Or.inr (Or.inl htrue)
    · exact Or.inr (Or.inr ⟨hfalse, hnot, Or.inr hclosed⟩)
  · rw [hdisconnects, hover', if_neg Bool.false_ne_true]
    exact h.disconnects_nil hover
  · intro hc
    rw [hc] at hover'
    cases hover'

/-- `__redisAsyncDisconnect` with a cause. -/
theorem Life.asyncDisconnect {s t s' : Async} (h : Life s) (hover : s.control.over = false)
    (hs : t.asyncDisconnect = some s') (hcause : t.ac.c.err ≠ 0 ∨ t.ac.disconnecting = true)
    (hconnected : t.ac.connected = s.ac.connected) (hconnects : t.connects = s.connects)
    (hdisconnects : t.disconnects = s.disconnects) : Life s' := by
  obtain ⟨disconnecting, rfl, ⟨-, rfl⟩ | ⟨herr, -, rfl⟩⟩ := asyncDisconnect_eq hs
  · exact h.of_closing hover rfl rfl (Or.inl rfl) hconnected hconnects hdisconnects
  · exact h.of_closing hover rfl rfl (Or.inl (hcause.resolve_left (not_not.mpr herr))) hconnected
      hconnects hdisconnects

/-! ## Steps -/

/-- A command of the application. -/
theorem Life.command {D : Type} {text : Bytes → Num D → Bytes} {s s' : Async} (h : Life s)
    {cb : RedisCallback} {argv : List Bytes} (hs : s.step text (.command cb argv) = some s') :
    Life s' := by
  obtain ⟨-, hs⟩ := Option.ite_none_right_eq_some.mp hs
  obtain ⟨⟨ac, ok⟩, hcommand, rfl⟩ := Option.map_eq_some_iff.mp hs
  exact h.congr (RedisAsyncContext.asyncCommandArgv_kept hcommand).1 rfl rfl rfl

/-- The first event: `onConnect` is called with `REDIS_OK` when the connection is made, with
    `REDIS_ERR` when it is not (lines 502 and 509). -/
theorem Life.handleConnect {s s' : Async} (h : Life s) (hcontrol : s.control = .idle)
    {error : SocketError} {handler : Handler} (hs : s.handleConnect error handler = some s') :
    Life s' := by
  have hover : s.control.over = false := by rw [hcontrol]; rfl
  have hfailed : s.control.failed = false := by rw [hcontrol]; rfl
  have hlive : s.control.closing = false := by rw [hcontrol]; rfl
  have hdisconnects := h.disconnects_nil hover
  -- while there is no connection and no error was told, `onConnect` has not been called
  have hnil : s.ac.connected = false → s.connects = [] := by
    intro hnot
    rcases h.connects with hnil | ⟨-, hconnected⟩ | ⟨-, -, hf | hc⟩
    · exact hnil
    · rw [hnot] at hconnected
      cases hconnected
    · rw [hfailed] at hf
      cases hf
    · rw [hlive] at hc
      cases hc
  rcases handleConnect_cases hs with ⟨-, rfl⟩ | ⟨hnot, ⟨text, -, rfl⟩ | ⟨text, -, -, rfl⟩ |
    ⟨text, -, -, hs⟩ | ⟨-, -, rfl⟩ | ⟨-, -, rfl⟩⟩
  · exact h.of_live hover hfailed hlive rfl rfl rfl rfl rfl rfl
  · exact h.of_live hover hfailed hlive rfl rfl rfl rfl rfl rfl
  · refine ⟨by rintro ⟨⟩, fun _ => (by decide : (1 : ℤ) ≠ 0), Or.inr (Or.inr ⟨?_, hnot, Or.inl rfl⟩),
      hdisconnects, by rintro ⟨⟩⟩
    show s.connects ++ [false] = [false]
    rw [hnil hnot, List.nil_append]
  · exact h.asyncDisconnect hover hs (Or.inl (by decide : (1 : ℤ) ≠ 0)) rfl rfl rfl
  · refine ⟨by rintro ⟨⟩, by rintro ⟨⟩, Or.inr (Or.inl ⟨?_, rfl⟩), hdisconnects, by rintro ⟨⟩⟩
    show s.connects ++ [true] = [true]
    rw [hnil hnot, List.nil_append]
  · exact ⟨by rintro ⟨⟩, by rintro ⟨⟩, Or.inl (hnil hnot), hdisconnects, by rintro ⟨⟩⟩

/-- A read event on a connection. -/
theorem Life.handleRead {s s' : Async} (h : Life s) (hcontrol : s.control = .handling .read)
    {res : ReadResult} (hs : s.handleRead res = some s') : Life s' := by
  have hover : s.control.over = false := by rw [hcontrol]; rfl
  unfold Async.handleRead at hs
  dsimp only at hs
  split at hs
  · next c hread =>
    exact h.asyncDisconnect hover hs (Or.inl (RedisContext.redisBufferRead_false hread)) rfl rfl rfl
  · obtain rfl := Option.some.inj hs
    exact h.of_live hover (by rw [hcontrol]; rfl) (by rw [hcontrol]; rfl) rfl rfl rfl rfl rfl rfl

/-- A write event on a connection. -/
theorem Life.handleWrite {s s' : Async} (h : Life s) (hcontrol : s.control = .handling .write)
    {res : WriteResult} (hs : s.handleWrite res = some s') : Life s' := by
  have hover : s.control.over = false := by rw [hcontrol]; rfl
  obtain ⟨⟨c, ok, done⟩, hwrite, hs⟩ := Option.bind_eq_some_iff.mp hs
  cases ok with
  | false =>
    exact h.asyncDisconnect hover hs (Or.inl (RedisContext.redisBufferWrite_false hwrite)) rfl rfl rfl
  | true =>
    obtain rfl := Option.some.inj hs
    exact h.of_live hover (by rw [hcontrol]; rfl) (by rw [hcontrol]; rfl) rfl rfl rfl rfl rfl rfl

/-- One iteration over the replies. -/
theorem Life.processCallbacks {s s' : Async} (h : Life s) {cb : RedisCallback}
    (hcontrol : s.control = .processing cb) (hs : s.processCallbacks cb = some s') : Life s' := by
  have hover : s.control.over = false := by rw [hcontrol]; rfl
  have hfailed : s.control.failed = false := by rw [hcontrol]; rfl
  have hlive : s.control.closing = false := by rw [hcontrol]; rfl
  have hrun : ∀ (t : Async) (cb : RedisCallback) (reply : ReplyObject),
      t.ac.connected = s.ac.connected → t.connects = s.connects → t.disconnects = s.disconnects →
      Life (t.runCallback cb (some reply) (.processing cb) (.replying cb)) := by
    intro t cb reply hconnected hconnects hdisconnects
    rw [runCallback_eq]
    refine h.of_live hover hfailed hlive ?_ ?_ ?_ hconnected hconnects hdisconnects <;>
      cases cb.fn.isSome <;> rfl
  obtain ⟨⟨c, result⟩, henter, hs⟩ := Option.bind_eq_some_iff.mp hs
  cases result with
  | returned ok reply =>
    cases ok with
    | false =>
      exact h.asyncDisconnect hover hs (Or.inl (RedisContext.getReplyEnter_false henter)) rfl rfl rfl
    | true =>
      cases reply with
      | none =>
        dsimp only at hs
        split at hs
        · next hdone => exact h.asyncDisconnect hover hs (Or.inr hdone.1) rfl rfl rfl
        · split at hs <;> obtain rfl := Option.some.inj hs <;>
            exact h.of_live hover hfailed hlive rfl rfl rfl rfl rfl rfl
      | some reply =>
        dsimp only at hs
        split at hs
        · obtain rfl := Option.some.inj hs
          exact hrun _ _ _ rfl rfl rfl
        · split at hs
          · exact h.asyncDisconnect hover hs (Or.inl (by decide : (2 : ℤ) ≠ 0)) rfl rfl rfl
          · split at hs
            · cases hs
            · split at hs
              · obtain ⟨⟨ac, cb'⟩, hget, rfl⟩ := Option.map_eq_some_iff.mp hs
                have hsame := RedisAsyncContext.getSubscribeCallback_connected hget
                exact hrun _ _ _ hsame rfl rfl
              · obtain rfl := Option.some.inj hs
                exact hrun _ _ _ rfl rfl rfl
  | _ => cases hs

/-- One iteration of `__redisAsyncFree`; behind the last one `onDisconnect` is called. -/
theorem Life.asyncFree {s s' : Async} (h : Life s) {stage : Release}
    (hcontrol : s.control = .releasing stage) (hs : s.asyncFree stage = some s') : Life s' := by
  have hover : s.control.over = false := by rw [hcontrol]; rfl
  have hrefuses := h.refuses (by rw [hcontrol]; rfl)
  obtain ⟨replies, invalid, cb, stage, rfl⟩ | ⟨stage, rfl⟩ | rfl := asyncFree_cases hs
  · rw [runCallback_eq]
    refine h.of_closing hover ?_ ?_ hrefuses rfl rfl rfl <;> cases cb.fn.isSome <;> rfl
  · exact h.of_closing hover rfl rfl hrefuses rfl rfl rfl
  · have hconnects : s.connects = [] ∨ s.connects = [true] ∧ s.ac.connected = true ∨
        s.connects = [false] ∧ s.ac.connected = false := by
      rcases h.connects with hnil | htrue | ⟨hfalse, hnot, -⟩
      · exact Or.inl hnil
      · exact Or.inr (Or.inl htrue)
      · exact Or.inr (Or.inr ⟨hfalse, hnot⟩)
    have hnil := h.disconnects_nil hover
    unfold asyncFreed
    dsimp only
    split
    · next htold =>
      refine ⟨fun _ => hrefuses, by rintro ⟨⟩, ?_, ?_, fun _ => htold⟩
      · exact hconnects.imp_right (Or.imp_right fun hf => ⟨hf.1, hf.2, Or.inr rfl⟩)
      · show s.disconnects ++ _ = farewell _
        rw [hnil, farewell, if_pos htold]
        rfl
    · next htold =>
      refine ⟨fun _ => hrefuses, by rintro ⟨⟩, ?_, ?_, by rintro ⟨⟩⟩
      · exact hconnects.imp_right (Or.imp_right fun hf => ⟨hf.1, hf.2, Or.inr rfl⟩)
      · show s.disconnects = farewell _
        rw [hnil, farewell, if_neg htold]

/-- A callback of the application returns. -/
theorem Life.returned {D : Type} {text : Bytes → Num D → Bytes} {s s' : Async} (h : Life s)
    (hs : s.step text .returned = some s') : Life s' := by
  obtain ⟨handler, hcontrol, rfl⟩ | ⟨handler, hcontrol, hs⟩ | ⟨cb, hcontrol, rfl⟩ |
      ⟨stage, hcontrol, rfl⟩ | ⟨hcontrol, rfl⟩ := step_returned hs
  · exact h.of_live (by rw [hcontrol]; rfl) (by rw [hcontrol]; rfl) (by rw [hcontrol]; rfl) rfl rfl rfl
      rfl rfl rfl
  · exact h.asyncDisconnect (by rw [hcontrol]; rfl) hs (Or.inl (h.failed (by rw [hcontrol]; rfl))) rfl
      rfl rfl
  · have hover : s.control.over = false := by rw [hcontrol]; rfl
    dsimp only
    cases hfreeing : s.ac.freeing with
    | true => exact h.of_closing hover rfl rfl (Or.inr rfl) rfl rfl rfl
    | false =>
      exact h.of_live hover (by rw [hcontrol]; rfl) (by rw [hcontrol]; rfl) rfl rfl rfl rfl rfl rfl
  · exact h.of_closing (by rw [hcontrol]; rfl) rfl rfl (h.refuses (by rw [hcontrol]; rfl)) rfl rfl rfl
  · have hdisconnects := h.disconnects
    have hconnects := h.connects
    rw [hcontrol] at hdisconnects hconnects
    exact ⟨fun _ => h.refuses (by rw [hcontrol]; rfl), by rintro ⟨⟩, hconnects, hdisconnects,
      by rintro ⟨⟩⟩

/-- Each step of any run keeps the invariant. -/
theorem Life.step {D : Type} {text : Bytes → Num D → Bytes} {s s' : Async} (h : Life s)
    {a : AsyncAction D} (hs : s.step text a = some s') : Life s' := by
  cases a with
  | setConnectCallback =>
    obtain ⟨-, hs⟩ := Option.ite_none_right_eq_some.mp hs
    obtain rfl := Option.some.inj hs
    unfold RedisAsyncContext.setConnectCallback
    split <;> exact h.congr ⟨rfl, rfl, rfl, rfl, rfl, rfl⟩ rfl rfl rfl
  | setDisconnectCallback =>
    obtain ⟨hopen, hs⟩ := Option.ite_none_right_eq_some.mp hs
    obtain rfl := Option.some.inj hs
    unfold RedisAsyncContext.setDisconnectCallback
    split
    · exact h.congr ⟨rfl, rfl, rfl, rfl, rfl, rfl⟩ rfl rfl rfl
    · next hset =>
      -- it is not too late: `onDisconnect` would be set already
      have hover : s.control.over = false := by
        cases hcontrol : s.control with
        | disconnected => exact absurd (h.notified hcontrol).1 hset
        | freed => rw [hcontrol] at hopen; cases hopen
        | _ => rfl
      refine ⟨h.refuses, h.failed, h.connects, ?_, fun hc => ⟨rfl, (h.notified hc).2⟩⟩
      show s.disconnects = if s.control.over then _ else []
      rw [hover, if_neg Bool.false_ne_true]
      exact h.disconnects_nil hover
  | command cb argv => exact h.command hs
  | commandFormat cb format args =>
    obtain ⟨argv, -, hs⟩ | ⟨-, rfl⟩ := step_commandFormat hs
    · exact h.command hs
    · exact h
  | disconnect =>
    obtain ⟨hfree, hs⟩ := Option.ite_none_right_eq_some.mp hs
    have hover := AsyncControl.over_of_mayFree hfree
    unfold redisAsyncDisconnect at hs
    dsimp only at hs
    split at hs
    · exact h.asyncDisconnect hover hs (Or.inr rfl) rfl rfl rfl
    · obtain rfl := Option.some.inj hs
      refine ⟨fun _ => Or.inl rfl, h.failed, h.connects, ?_, h.notified⟩
      show s.disconnects = if s.control.over then _ else []
      rw [hover, if_neg Bool.false_ne_true]
      exact h.disconnects_nil hover
  | free =>
    obtain ⟨hfree, hs⟩ := Option.ite_none_right_eq_some.mp hs
    obtain rfl := Option.some.inj hs
    have hover := AsyncControl.over_of_mayFree hfree
    unfold redisAsyncFree
    dsimp only
    split
    · exact h.of_closing hover rfl rfl (Or.inr rfl) rfl rfl rfl
    · refine ⟨fun _ => Or.inr rfl, h.failed, h.connects, ?_, h.notified⟩
      show s.disconnects = if s.control.over then _ else []
      rw [hover, if_neg Bool.false_ne_true]
      exact h.disconnects_nil hover
  | returned => exact h.returned hs
  | readable error =>
    obtain ⟨hcontrol, hs⟩ := step_readable hs
    exact (h.events false _).handleConnect hcontrol hs
  | writable error =>
    obtain ⟨hcontrol, hs⟩ := step_writable hs
    exact (h.events _ false).handleConnect hcontrol hs
  | read res =>
    obtain ⟨hcontrol, hs⟩ := step_read hs
    exact h.handleRead hcontrol hs
  | write res =>
    obtain ⟨hcontrol, hs⟩ := step_write hs
    exact h.handleWrite hcontrol hs
  | iterate =>
    obtain ⟨cb, hcontrol, hs⟩ | ⟨stage, hcontrol, hs⟩ := step_iterate hs
    · exact h.processCallbacks hcontrol hs
    · exact h.asyncFree hcontrol hs

/-- By induction on the run. -/
theorem life_of_reachable {D : Type} {text : Bytes → Num D → Bytes} {s : Async}
    (hs : (machine text).Reachable s) : Life s := by
  induction hs with
  | init h => exact h ▸ Life.start
  | step _ hstep ih => exact ih.step hstep

/-! ## After the end -/

/-- Nothing has happened but callbacks that were called with `NULL`. -/
structure Quiet (s s' : Async) : Prop where
  closing : s'.control.closing = true
  sent : s'.sent = s.sent
  delivered : s'.delivered = s.delivered
  registered : s'.registered = s.registered
  appended : s'.appended = s.appended
  handed : s'.handed = s.handed
  connects : s'.connects = s.connects
  calls : ∃ cbs : List RedisCallback, s'.calls = s.calls ++ cbs.map fun cb => (cb, none)

/-- A step that calls nobody. -/
theorem Quiet.same {s s' : Async} (hclosed : s'.control.closing = true) (hsent : s'.sent = s.sent)
    (hdelivered : s'.delivered = s.delivered) (hregistered : s'.registered = s.registered)
    (happended : s'.appended = s.appended) (hhanded : s'.handed = s.handed)
    (hconnects : s'.connects = s.connects) (hcalls : s'.calls = s.calls) : Quiet s s' :=
  ⟨hclosed, hsent, hdelivered, hregistered, happended, hhanded, hconnects, [],
    by rw [hcalls, List.map_nil, List.append_nil]⟩

/-- Two such stretches. -/
theorem Quiet.trans {s s₁ s₂ : Async} (h₁ : Quiet s s₁) (h₂ : Quiet s₁ s₂) : Quiet s s₂ := by
  obtain ⟨cbs₁, hcalls₁⟩ := h₁.calls
  obtain ⟨cbs₂, hcalls₂⟩ := h₂.calls
  refine ⟨h₂.closing, h₂.sent.trans h₁.sent, h₂.delivered.trans h₁.delivered,
    h₂.registered.trans h₁.registered, h₂.appended.trans h₁.appended, h₂.handed.trans h₁.handed,
    h₂.connects.trans h₁.connects, cbs₁ ++ cbs₂, ?_⟩
  rw [hcalls₂, hcalls₁, List.map_append, List.append_assoc]

/-- A command is refused. -/
theorem Quiet.command {D : Type} {text : Bytes → Num D → Bytes} {s s' : Async}
    (hclosed : s.control.closing = true)
    (hrefused : s.ac.disconnecting = true ∨ s.ac.freeing = true) {cb : RedisCallback}
    {argv : List Bytes} (hs : s.step text (.command cb argv) = some s') : Quiet s s' := by
  obtain ⟨-, hs⟩ := Option.ite_none_right_eq_some.mp hs
  obtain ⟨⟨ac, ok⟩, hcommand, rfl⟩ := Option.map_eq_some_iff.mp hs
  obtain ⟨rfl, rfl⟩ := (RedisAsyncContext.asyncCommandArgv_kept hcommand).2 hrefused
  dsimp only
  rw [if_neg Bool.false_ne_true, registerAt_self]
  exact .same hclosed rfl rfl rfl rfl rfl rfl rfl

/-- One iteration of `__redisAsyncFree` calls a callback with `NULL`. -/
theorem Quiet.asyncFree {s s' : Async} {stage : Release} (hs : s.asyncFree stage = some s') :
    Quiet s s' := by
  obtain ⟨replies, invalid, cb, stage, rfl⟩ | ⟨stage, rfl⟩ | rfl := asyncFree_cases hs
  · rw [runCallback_eq]
    cases cb.fn.isSome
    · exact .same rfl rfl rfl rfl rfl rfl rfl (List.append_nil _)
    · exact ⟨rfl, rfl, rfl, rfl, rfl, rfl, rfl, [cb], rfl⟩
  · exact .same rfl rfl rfl rfl rfl rfl rfl rfl
  · unfold asyncFreed
    dsimp only
    split <;> exact .same rfl rfl rfl rfl rfl rfl rfl rfl

/-- Each step of a context that is torn down. -/
theorem Life.quiet {D : Type} {text : Bytes → Num D → Bytes} {s s' : Async} (h : Life s)
    (hclosed : s.control.closing = true) {a : AsyncAction D} (hs : s.step text a = some s') :
    Quiet s s' := by
  have hrefused := h.refuses hclosed
  have hnot : ∀ {control}, s.control = control → control.closing = false → False := by
    intro control hcontrol hlive
    rw [hcontrol, hlive] at hclosed
    cases hclosed
  cases a with
  | setConnectCallback =>
    obtain ⟨-, hs⟩ := Option.ite_none_right_eq_some.mp hs
    obtain rfl := Option.some.inj hs
    exact .same hclosed rfl rfl rfl rfl rfl rfl rfl
  | setDisconnectCallback =>
    obtain ⟨-, hs⟩ := Option.ite_none_right_eq_some.mp hs
    obtain rfl := Option.some.inj hs
    exact .same hclosed rfl rfl rfl rfl rfl rfl rfl
  | command cb argv => exact .command hclosed hrefused hs
  | commandFormat cb format args =>
    obtain ⟨argv, -, hs⟩ | ⟨-, rfl⟩ := step_commandFormat hs
    · exact .command hclosed hrefused hs
    · exact .same hclosed rfl rfl rfl rfl rfl rfl rfl
  | disconnect =>
    obtain ⟨-, hs⟩ := Option.ite_none_right_eq_some.mp hs
    unfold redisAsyncDisconnect at hs
    dsimp only at hs
    split at hs
    · obtain ⟨disconnecting, rfl, -⟩ := asyncDisconnect_eq hs
      exact .same rfl rfl rfl rfl rfl rfl rfl rfl
    · obtain rfl := Option.some.inj hs
      exact .same hclosed rfl rfl rfl rfl rfl rfl rfl
  | free =>
    obtain ⟨-, hs⟩ := Option.ite_none_right_eq_some.mp hs
    obtain rfl := Option.some.inj hs
    unfold redisAsyncFree
    dsimp only
    split
    · exact .same rfl rfl rfl rfl rfl rfl rfl rfl
    · exact .same hclosed rfl rfl rfl rfl rfl rfl rfl
  | returned =>
    obtain ⟨handler, hcontrol, rfl⟩ | ⟨handler, hcontrol, hs⟩ | ⟨cb, hcontrol, rfl⟩ |
        ⟨stage, hcontrol, rfl⟩ | ⟨hcontrol, rfl⟩ := step_returned hs
    · exact (hnot hcontrol rfl).elim
    · exact (hnot hcontrol rfl).elim
    · exact (hnot hcontrol rfl).elim
    · exact .same rfl rfl rfl rfl rfl rfl rfl rfl
    · exact .same rfl rfl rfl rfl rfl rfl rfl rfl
  | readable error =>
    obtain ⟨hcontrol, hs⟩ := step_readable hs
    exact (hnot hcontrol rfl).elim
  | writable error =>
    obtain ⟨hcontrol, hs⟩ := step_writable hs
    exact (hnot hcontrol rfl).elim
  | read res =>
    obtain ⟨hcontrol, hs⟩ := step_read hs
    exact (hnot hcontrol rfl).elim
  | write res =>
    obtain ⟨hcontrol, hs⟩ := step_write hs
    exact (hnot hcontrol rfl).elim
  | iterate =>
    obtain ⟨cb, hcontrol, hs⟩ | ⟨stage, hcontrol, hs⟩ := step_iterate hs
    · exact (hnot hcontrol rfl).elim
    · exact .asyncFree hs

/-! ## Results -/

/-- In every run `onConnect` is called at most once, and tells whether there is a connection;
    `onDisconnect` is called once when the context goes, if there is such a callback and the
    context was connected, and not before. -/
theorem lifecycle {D : Type} {text : Bytes → Num D → Bytes} {s : Async}
    (hs : (machine text).Reachable s) :
    (s.connects = [] ∨ s.connects = [s.ac.connected]) ∧
      s.disconnects =
        if s.control.over = true ∧ s.ac.onDisconnect = true ∧ s.ac.connected = true then
          [if s.ac.freeing then true else decide (s.ac.err = 0)]
        else [] := by
  have h := life_of_reachable hs
  constructor
  · rcases h.connects with hnil | ⟨htrue, hconnected⟩ | ⟨hfalse, hnot, -⟩
    · exact Or.inl hnil
    · exact Or.inr (by rw [htrue, hconnected])
    · exact Or.inr (by rw [hfalse, hnot])
  · rw [h.disconnects]
    cases s.control.over with
    | false => simp
    | true => simp [farewell]

/-- Both callbacks are set, the connection is made, and the server closes it. -/
theorem lifecycle_eof : ∃ s : Async, s.control = .disconnected ∧ s.connects = [true] ∧
    s.disconnects = if s.control.over = true ∧ s.ac.onDisconnect = true ∧ s.ac.connected = true then
      [if s.ac.freeing then true else decide (s.ac.err = 0)] else [] := by
  have h₁ := (Lts.Reachable.init (m := machine Session.noText) rfl).step (l := .setConnectCallback) rfl
  have h₂ := h₁.step (l := .setDisconnectCallback) rfl
  have h₃ := h₂.step (l := .readable .none) rfl
  have h₄ := h₃.step (l := .returned) rfl
  have h₅ := h₄.step (l := .read .eof) rfl
  have h₆ := h₅.step (l := .iterate) rfl
  have h₇ := h₆.step (l := .iterate) rfl
  have h₈ := h₇.step (l := .iterate) rfl
  have h₉ := h₈.step (l := .iterate) rfl
  exact ⟨_, rfl, rfl, (lifecycle h₉).2⟩

/-- Once a context is torn down, it stays so in every continuation of the run: no command is
    taken, nothing is written or read, no reply is handed out, and what is called is called
    with `NULL`. -/
theorem tornDown {D : Type} {text : Bytes → Num D → Bytes} {s s' : Async}
    (hs : (machine text).Reachable s) (hclosed : s.control.closing = true)
    (hs' : Lts.Reachable ⟨(· = s), Async.step text⟩ s') :
    s'.control.closing = true ∧ s'.sent = s.sent ∧ s'.delivered = s.delivered ∧
      s'.registered = s.registered ∧ s'.appended = s.appended ∧ s'.handed = s.handed ∧
      s'.connects = s.connects ∧
      ∃ cbs : List RedisCallback, s'.calls = s.calls ++ cbs.map fun cb => (cb, none) := by
  have hlife := life_of_reachable hs
  suffices h : Life s' ∧ Quiet s s' from
    ⟨h.2.closing, h.2.sent, h.2.delivered, h.2.registered, h.2.appended, h.2.handed, h.2.connects,
      h.2.calls⟩
  induction hs' with
  | init h =>
    obtain rfl : _ = s := h
    exact ⟨hlife, .same hclosed rfl rfl rfl rfl rfl rfl rfl⟩
  | step _ hstep ih =>
    obtain ⟨hlife', hquiet⟩ := ih
    exact ⟨hlife'.step hstep, hquiet.trans (hlife'.quiet hquiet.closing hstep)⟩

/-- `Q`, sent in the callback of `P`, waits for a reply when the context is freed there. -/
theorem tornDown_p : ∃ s' : Async, s'.calls = replyingP.calls ++ [(cbQ, none)] ∧
    s'.sent = replyingP.sent ∧
    ∃ cbs : List RedisCallback, s'.calls = replyingP.calls ++ cbs.map fun cb => (cb, none) := by
  have h₁ := replyingP_reachable.reachable.step (l := .command cbQ [[81]])
    (step_command rfl rfl (by decide) regular_q)
  have h₂ := h₁.step (l := .free) rfl
  have h₃ := h₂.step (l := .returned) rfl
  obtain ⟨-, hsent, -, -, -, -, -, hcalls⟩ :=
    tornDown h₃ rfl ((Lts.Reachable.init rfl).step (l := .iterate) rfl)
  exact ⟨_, rfl, hsent, hcalls⟩

end Async

end Hiredispool.Hiredis
