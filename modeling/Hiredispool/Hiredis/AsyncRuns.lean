import Hiredispool.Hiredis.AsyncMachine

/-!
# Callbacks and replies

Runs of an asynchronous context whose commands have one reply each. The server is any, and
so are the calls of the application, inside callbacks or not.

* `Async.paired`: every callback is called once, in the order of the commands, with its own
  reply, or with `NULL` when the context is torn down.
* `Async.clean`: a context that goes away without an error and without `redisAsyncFree` has
  given every callback a reply.
* `Async.aborts_iff`: when `assert((c->flags & REDIS_SUBSCRIBED || c->flags & REDIS_MONITORING))`
  (line 463) fails, or C gives the bytes no meaning.

The invariant `Inv` is the bookkeeping `Core` of the queue `ac->replies` (lines 227–263): the
callbacks that were registered are those that were called, and then those in the queue.
-/

namespace Hiredispool.Hiredis

open Hiredispool.Pool (Bytes cStr)
open Hiredispool.Client (Arg Num)

/-! ## One step of the reader -/

/-- `redisGetReply` does not block: it has a reply, or there is none yet, or an error. -/
theorem RedisContext.getReplyEnter_cases {c c' : RedisContext} {fed : Bytes}
    {got : List ReplyObject} {result : Control} (hrun : c.reader.Run fed got)
    (hlen : c.reader.buf.length < 2147483648) (hblock : c.block = false)
    (h : c.getReplyEnter = some (c', result)) :
    c'.block = false ∧ c'.obuf = c.obuf ∧
      ((∃ reply, result = .returned true reply ∧ c'.reader.err = 0 ∧
          c.reader.getReply = some (c'.reader, true, reply) ∧
          c'.reader.Run fed (got ++ reply.toList)) ∨
        result = .returned false none ∧ c'.err ≠ 0 ∧ c'.reader.Run fed got) := by
  obtain ⟨⟨c₁, ok, aux⟩, hreader, heq⟩ := Option.map_eq_some_iff.mp h
  obtain ⟨hblock₁, hobuf, hrun', -, ⟨rfl, -, herr, hget⟩ | ⟨rfl, rfl, herr⟩⟩ :=
    redisGetReplyFromReader_cases hrun hlen hreader
  · have hnot : c₁.block = false := hblock₁.trans hblock
    simp only [hnot, Bool.not_true, Bool.false_eq_true, if_false, and_false] at heq
    obtain ⟨rfl, rfl⟩ := heq
    exact ⟨hnot, hobuf, Or.inl ⟨aux, rfl, herr, hget, hrun'⟩⟩
  · simp only [Bool.not_false, if_true] at heq
    obtain ⟨rfl, rfl⟩ := heq
    rw [Option.toList_none, List.append_nil] at hrun'
    exact ⟨hblock₁.trans hblock, hobuf, Or.inr ⟨rfl, herr, hrun'⟩⟩

/-- Asking for a reply needs no more room. -/
theorem RedisContext.getReplyEnter_buf_le {c c' : RedisContext} {result : Control}
    (h : c.getReplyEnter = some (c', result)) : c'.reader.buf.length ≤ c.reader.buf.length := by
  obtain ⟨⟨c₁, ok, aux⟩, hreader, heq⟩ := Option.map_eq_some_iff.mp h
  have hc : c₁ = c' := by
    dsimp only at heq
    split at heq
    · exact congrArg Prod.fst heq
    · split at heq <;> exact congrArg Prod.fst heq
  exact hc ▸ redisGetReplyFromReader_buf_le hreader

/-! ## Calls of callbacks -/

/-- The calls of the callbacks, each with its reply; one without a function is left out (lines
    267 and 468). -/
def notices (cbs : List RedisCallback) (replies : List (Option ReplyObject)) : List Notice :=
  (cbs.zip replies).filter (·.1.fn.isSome)

/-- One more callback, with its reply. -/
theorem notices_snoc {cbs : List RedisCallback} {replies : List (Option ReplyObject)}
    (h : cbs.length = replies.length) (cb : RedisCallback) (reply : Option ReplyObject) :
    notices (cbs ++ [cb]) (replies ++ [reply]) =
      notices cbs replies ++ if cb.fn.isSome then [(cb, reply)] else [] := by
  rw [notices, List.zip_append h, List.filter_append, List.zip_cons_cons, List.zip_nil_left,
    List.filter_singleton, Bool.cond_eq_ite]
  rfl

/-- The next callback of the queue. -/
theorem take_drop_cons {α : Type} {l rest : List α} {a : α} {n : ℕ} (h : l.drop n = a :: rest) :
    n + 1 ≤ l.length ∧ l.take (n + 1) = l.take n ++ [a] ∧ l.drop (n + 1) = rest := by
  have hlt : n < l.length := by
    have := congrArg List.length h
    rw [List.length_drop, List.length_cons] at this
    omega
  rw [List.drop_eq_getElem_cons hlt] at h
  obtain ⟨ha, hrest⟩ := List.cons.inj h
  exact ⟨hlt, by rw [List.take_succ_eq_append_getElem hlt, ha], hrest⟩

/-- A callback of a command is being executed. -/
def AsyncControl.calling : AsyncControl → Bool
  | .replying _ => true
  | .notifying _ => true
  | _ => false

/-- `__redisAsyncFree` has been called: the context is being torn down, or is gone. -/
def AsyncControl.closing : AsyncControl → Bool
  | .releasing _ => true
  | .notifying _ => true
  | .disconnected => true
  | .freed => true
  | _ => false

/-- While the application may free the context outside of a callback, it is there. -/
theorem AsyncControl.closing_of_mayFree {control : AsyncControl} (hfree : control.mayFree = true)
    (hcall : control.calling = false) : control.closing = false := by
  cases control <;> simp_all [mayFree, calling, closing]

/-- `onConnect` is being called because of an error. -/
def AsyncControl.failed : AsyncControl → Bool
  | .connecting false _ => true
  | _ => false

/-- The first loop of `__redisAsyncFree` is over. -/
def AsyncControl.emptied : AsyncControl → Bool
  | .releasing .replies => false
  | .releasing _ => true
  | .notifying .replies => false
  | .notifying _ => true
  | .disconnected => true
  | .freed => true
  | _ => false

/-- The queue is emptied when the context is torn down. -/
theorem AsyncControl.closing_of_emptied {control : AsyncControl} (h : control.emptied = true) :
    control.closing = true := by
  cases control <;> simp_all [emptied, closing]

/-- The iterator of the loop is at the beginning: there are no subscriptions. -/
def Release.fresh : Release → Bool
  | .channels it => it.entry.isNone
  | .patterns it => it.entry.isNone
  | _ => true

/-- So it is in a loop of `__redisAsyncFree`. -/
def AsyncControl.fresh : AsyncControl → Bool
  | .releasing stage => stage.fresh
  | .notifying stage => stage.fresh
  | _ => true

/-- The commands are regular, `write` takes only what is there, and no buffer reaches 2^31
    bytes. -/
def Ordinary {D : Type} (text : Bytes → Num D → Bytes) (s : Async) (a : AsyncAction D) : Prop :=
  s.ac.c.obuf.length < 2147483648 ∧ s.ac.c.reader.buf.length < 2147483648 ∧
    match a with
    | .command _ argv => RedisAsyncContext.Regular argv
    | .commandFormat _ format args => ∀ argv,
      Client.redisvFormatCommand text format args = .ok argv → RedisAsyncContext.Regular argv
    | .write res => s.ac.c.CanTake res
    | _ => True

namespace Async

/-! ## Invariant -/

/-- The bookkeeping: the callbacks that have been called are the first ones of those
    registered, `told` of them at the end with `NULL`; the others are in the queue. `extra`
    is a reply for which there was no callback. -/
structure Core (told : ℕ) (extra : List ReplyObject) (s : Async) : Prop where
  block : s.ac.c.block = false
  subscribed : s.ac.subscribed = false
  monitoring : s.ac.monitoring = false
  invalid : s.ac.invalid = []
  channels : s.ac.channels = .create
  patterns : s.ac.patterns = .create
  calls : s.calls = notices (s.registered.take (s.handed.length + told))
    (s.handed.map some ++ .replicate told none)
  queue : s.ac.replies = s.registered.drop (s.handed.length + told)
  le : s.handed.length + told ≤ s.registered.length
  short : ∀ argv ∈ s.appended, totalLength argv < 2147483648
  wire : s.sent ++ s.ac.c.obuf = encodeAll (s.appended.map argvReply)
  count : s.registered.length = s.appended.length
  run : s.ac.c.reader.Run s.delivered (s.handed ++ extra)

/-- What holds once `__redisAsyncFree` has been called: no command is taken any more, and if
    there is neither an error nor `redisAsyncFree`, the queue was empty (line 339). -/
structure Closing (told : ℕ) (s : Async) : Prop where
  refuses : s.ac.disconnecting = true ∨ s.ac.freeing = true
  clean : s.ac.err = 0 → s.ac.freeing = false → told = 0 ∧ s.ac.replies = []
  emptied : s.control.emptied = true → s.ac.replies = []
  fresh : s.control.fresh = true

/-- What holds between any two steps: the bookkeeping, and why the context is torn down if it
    is. -/
structure Inv (s : Async) : Prop where
  core : ∃ told extra, Core told extra s ∧
    (s.control.closing = false → told = 0 ∧ extra = [] ∧ s.ac.c.reader.err = 0) ∧
    (s.control.closing = true → Closing told s)
  calling : s.ac.inCallback = s.control.calling
  failed : s.control.failed = true → s.ac.c.err ≠ 0

/-- No callback, no reply. -/
theorem Core.start : Core 0 [] start where
  block := rfl
  subscribed := rfl
  monitoring := rfl
  invalid := rfl
  channels := rfl
  patterns := rfl
  calls := rfl
  queue := rfl
  le := le_rfl
  short := by simp [Async.start]
  wire := rfl
  count := rfl
  run := .create

/-- A connection that is being made has no error. -/
theorem Inv.start : Inv start where
  core := ⟨0, [], Core.start, fun _ => ⟨rfl, rfl, rfl⟩, by rintro ⟨⟩⟩
  calling := rfl
  failed := by rintro ⟨⟩

/-- The bookkeeping of a state in which the context is in use. -/
theorem Inv.live {s : Async} (h : Inv s) (hlive : s.control.closing = false) :
    Core 0 [] s ∧ s.ac.c.reader.err = 0 := by
  obtain ⟨told, extra, hcore, hopen, -⟩ := h.core
  obtain ⟨rfl, rfl, herr⟩ := hopen hlive
  exact ⟨hcore, herr⟩

/-- A state in which the context is in use. -/
theorem Inv.of_live {s : Async} (hcore : Core 0 [] s) (herr : s.ac.c.reader.err = 0)
    (hlive : s.control.closing = false) (hcalling : s.ac.inCallback = s.control.calling)
    (hfailed : s.control.failed = true → s.ac.c.err ≠ 0) : Inv s :=
  ⟨⟨0, [], hcore, fun _ => ⟨rfl, rfl, herr⟩, fun h => by rw [hlive] at h; cases h⟩, hcalling, hfailed⟩

/-- A state in which the context is torn down. -/
theorem Inv.of_closing {s : Async} {told : ℕ} {extra : List ReplyObject} (hcore : Core told extra s)
    (hclosing : Closing told s) (hclosed : s.control.closing = true)
    (hcalling : s.ac.inCallback = s.control.calling) : Inv s := by
  refine ⟨⟨told, extra, hcore, fun h => ?_, fun _ => hclosing⟩, hcalling, fun h => ?_⟩
  · rw [hclosed] at h
    cases h
  · cases hc : s.control <;> simp_all [AsyncControl.closing, AsyncControl.failed]

/-- `REDIS_IN_CALLBACK` is set while a callback is executed (lines 268–270). -/
theorem runCallback_eq (cb : RedisCallback) (reply : Option ReplyObject)
    (after during : AsyncControl) (s : Async) : s.runCallback cb reply after during =
      { s with
        ac := { s.ac with inCallback := s.ac.inCallback || cb.fn.isSome }
        control := if cb.fn.isSome then during else after
        calls := s.calls ++ if cb.fn.isSome then [(cb, reply)] else [] } := by
  unfold runCallback
  cases cb.fn.isSome <;> simp

/-- A reply is handed to the first callback of the queue. -/
theorem Core.hand {s : Async} {reply : ReplyObject} (h : Core 0 [reply] s) {cb : RedisCallback}
    {replies : List RedisCallback} (hqueue : s.ac.replies = cb :: replies)
    (after during : AsyncControl) :
    Core 0 [] ({ s with
      ac := { s.ac with replies := replies }
      handed := s.handed ++ [reply] }.runCallback cb (some reply) after during) := by
  have hdrop := h.queue.symm.trans hqueue
  rw [Nat.add_zero] at hdrop
  obtain ⟨hle, htake, hrest⟩ := take_drop_cons hdrop
  have hlen : (s.registered.take s.handed.length).length = (s.handed.map some).length := by
    rw [List.length_take, List.length_map]
    omega
  have hcalls := h.calls
  rw [Nat.add_zero, List.replicate_zero, List.append_nil] at hcalls
  rw [runCallback_eq]
  refine { h with calls := ?_, queue := ?_, le := ?_, run := ?_ }
  · show s.calls ++ _ = notices (s.registered.take ((s.handed ++ [reply]).length + 0)) _
    rw [List.length_append, List.length_singleton, Nat.add_zero, htake, List.replicate_zero,
      List.append_nil, List.map_append, List.map_singleton, notices_snoc hlen, ← hcalls]
  · show replies = s.registered.drop ((s.handed ++ [reply]).length + 0)
    rw [List.length_append, List.length_singleton, Nat.add_zero, hrest]
  · show (s.handed ++ [reply]).length + 0 ≤ _
    rw [List.length_append, List.length_singleton]
    exact hle
  · show s.ac.c.reader.Run s.delivered (s.handed ++ [reply] ++ [])
    rw [List.append_nil]
    exact h.run

/-- The first callback of the queue is called with `NULL`. -/
theorem Core.tell {s : Async} {told : ℕ} {extra : List ReplyObject} (h : Core told extra s)
    {cb : RedisCallback} {replies : List RedisCallback} (hqueue : s.ac.replies = cb :: replies)
    (after during : AsyncControl) :
    Core (told + 1) extra ({ s with
      ac := { s.ac with replies := replies } }.runCallback cb none after during) := by
  obtain ⟨hle, htake, hrest⟩ := take_drop_cons (h.queue.symm.trans hqueue)
  have hlen : (s.registered.take (s.handed.length + told)).length =
      (s.handed.map some ++ List.replicate told none).length := by
    rw [List.length_take, List.length_append, List.length_map, List.length_replicate]
    omega
  rw [runCallback_eq]
  refine { h with calls := ?_, queue := ?_, le := ?_ }
  · show s.calls ++ _ = notices (s.registered.take (s.handed.length + told + 1)) _
    rw [htake, List.replicate_succ', ← List.append_assoc, notices_snoc hlen, ← h.calls]
  · exact hrest.symm
  · exact hle

/-- `__redisAsyncDisconnect` tears the context down. -/
theorem Core.asyncDisconnect {s s' : Async} {extra : List ReplyObject} (h : Core 0 extra s)
    (hcause : s.ac.c.err ≠ 0 ∨ s.ac.disconnecting = true) (hcall : s.ac.inCallback = false)
    (hs : s.asyncDisconnect = some s') : Inv s' := by
  obtain ⟨disconnecting, rfl, ⟨herr, rfl⟩ | ⟨herr, hempty, rfl⟩⟩ := asyncDisconnect_eq hs
  · exact Inv.of_closing { h with } ⟨Or.inl rfl, fun h0 => absurd h0 herr, by rintro ⟨⟩, rfl⟩ rfl
      hcall
  · refine Inv.of_closing { h with } ⟨?_, fun _ _ => ⟨rfl, hempty⟩, by rintro ⟨⟩, rfl⟩ rfl hcall
    exact Or.inl (hcause.resolve_left (not_not.mpr herr))

/-! ## Steps -/

/-- The application frees the context, in a callback or outside. -/
theorem Inv.redisAsyncFree {s : Async} (h : Inv s) : Inv s.redisAsyncFree := by
  obtain ⟨⟨told, extra, hcore, hopen, hclosing⟩, hcalling, hfailed⟩ := h
  unfold Async.redisAsyncFree
  dsimp only
  cases hcall : s.ac.inCallback with
  | true =>
    refine ⟨⟨told, extra, { hcore with }, hopen, fun hc => ?_⟩, hcall.symm.trans hcalling, hfailed⟩
    exact ⟨Or.inr rfl, (by rintro - ⟨⟩), (hclosing hc).emptied, (hclosing hc).fresh⟩
  | false =>
    exact Inv.of_closing { hcore with } ⟨Or.inr rfl, (by rintro - ⟨⟩), by rintro ⟨⟩, rfl⟩ rfl rfl

/-- The application disconnects it. -/
theorem Inv.redisAsyncDisconnect {s s' : Async} (h : Inv s) (hfree : s.control.mayFree = true)
    (hs : s.redisAsyncDisconnect = some s') : Inv s' := by
  unfold Async.redisAsyncDisconnect at hs
  dsimp only at hs
  split at hs
  · next hnow =>
    have hcall : s.ac.inCallback = false := by simpa using hnow.1
    have hlive := AsyncControl.closing_of_mayFree hfree (h.calling.symm.trans hcall)
    exact Core.asyncDisconnect (s := { s with ac := { s.ac with disconnecting := true } })
      { (h.live hlive).1 with } (Or.inr rfl) hcall hs
  · obtain rfl := Option.some.inj hs
    obtain ⟨⟨told, extra, hcore, hopen, hclosing⟩, hcalling, hfailed⟩ := h
    refine ⟨⟨told, extra, { hcore with }, hopen, fun hc => ?_⟩, hcalling, hfailed⟩
    exact ⟨Or.inl rfl, (hclosing hc).clean, (hclosing hc).emptied, (hclosing hc).fresh⟩

/-- A command of the application. -/
theorem Inv.command {s s' : Async} (h : Inv s) {D : Type} {text : Bytes → Num D → Bytes}
    {cb : RedisCallback} {argv : List Bytes} (hreg : RedisAsyncContext.Regular argv)
    (hs : s.step text (.command cb argv) = some s') : Inv s' := by
  obtain ⟨⟨told, extra, hcore, hopen, hclosing⟩, hcalling, hfailed⟩ := h
  obtain ⟨-, hs⟩ := Option.ite_none_right_eq_some.mp hs
  rw [RedisAsyncContext.asyncCommandArgv_regular hreg s.ac hcore.subscribed] at hs
  split at hs
  · obtain rfl := Option.some.inj hs
    dsimp only
    rw [if_neg Bool.false_ne_true, registerAt_self]
    exact ⟨⟨told, extra, hcore, hopen, hclosing⟩, hcalling, hfailed⟩
  · next hrefused =>
    obtain rfl := Option.some.inj hs
    have hlive : s.control.closing = false := by
      cases hc : s.control.closing with
      | false => rfl
      | true => exact absurd (hclosing hc).refuses hrefused
    obtain ⟨rfl, rfl, herr⟩ := hopen hlive
    simp only [registerAt, List.drop_left, if_true]
    refine Inv.of_live ?_ herr hlive hcalling hfailed
    refine { hcore with calls := ?_, queue := ?_, le := ?_, short := ?_, wire := ?_, count := ?_ }
    · show s.calls = notices ((s.registered ++ [cb]).take (s.handed.length + 0)) _
      rw [List.take_append_of_le_length hcore.le]
      exact hcore.calls
    · show s.ac.replies ++ [cb] = (s.registered ++ [cb]).drop (s.handed.length + 0)
      rw [List.drop_append_of_le_length hcore.le, ← hcore.queue]
    · show s.handed.length + 0 ≤ (s.registered ++ [cb]).length
      rw [List.length_append]
      exact hcore.le.trans (Nat.le_add_right _ _)
    · intro argv' hmem
      rcases List.mem_append.mp hmem with hmem | hmem
      · exact hcore.short argv' hmem
      · rw [List.mem_singleton.mp hmem]
        exact hreg.1
    · show s.sent ++ (s.ac.c.obuf ++ encode (argvReply argv)) =
        encodeAll ((s.appended ++ [argv]).map argvReply)
      rw [← List.append_assoc, hcore.wire, List.map_append, encodeAll_append, List.map_singleton,
        encodeAll, encodeAll, List.append_nil]
    · show (s.registered ++ [cb]).length = (s.appended ++ [argv]).length
      rw [List.length_append, List.length_append, hcore.count]
      rfl

/-- Without subscriptions the tables are empty, and their loops over at once. -/
theorem dictNext_create {it it' : DictIterator Name} {de : Option (DictEntry Name RedisCallback)}
    (h : (Dict.create : Dict Name RedisCallback).dictNext callbackDict it = some (it', de)) :
    de = none := by
  obtain ⟨index, entry, nextEntry⟩ := it
  cases entry with
  | none =>
    simp only [Dict.dictNext, Dict.create, List.take_nil, List.drop_nil, Dict.nextChain] at h
    exact (Prod.mk.inj (Option.some.inj h)).2.symm
  | some key =>
    cases nextEntry with
    | none =>
      simp only [Dict.dictNext, Dict.create, List.take_nil, List.drop_nil, Dict.nextChain] at h
      exact (Prod.mk.inj (Option.some.inj h)).2.symm
    | some next => simp [Dict.dictNext, Dict.create] at h

/-- Nor does it meet undefined behaviour at its beginning. -/
theorem dictNext_create_fresh {it : DictIterator Name} (h : it.entry.isNone = true) :
    ∃ it', (Dict.create : Dict Name RedisCallback).dictNext callbackDict it = some (it', none) := by
  obtain ⟨index, entry, nextEntry⟩ := it
  cases entry with
  | none => exact ⟨_, by simp only [Dict.dictNext, Dict.create, List.take_nil, List.drop_nil, Dict.nextChain]; rfl⟩
  | some key => cases h

/-- The end of `__redisAsyncFree`. -/
theorem Inv.asyncFreed {s : Async} {told : ℕ} {extra : List ReplyObject} (hcore : Core told extra s)
    (hclosing : Closing told s) (hempty : s.ac.replies = []) (hcall : s.ac.inCallback = false) :
    Inv s.asyncFreed := by
  have hclosed := hclosing.refuses
  have hclean := hclosing.clean
  unfold Async.asyncFreed
  dsimp only
  split
  · exact Inv.of_closing { hcore with } ⟨hclosed, hclean, fun _ => hempty, rfl⟩ rfl hcall
  · exact Inv.of_closing { hcore with } ⟨hclosed, hclean, fun _ => hempty, rfl⟩ rfl hcall

/-- The callbacks that are left are called with `NULL`. -/
theorem Inv.asyncFree {s s' : Async} (h : Inv s) {stage : Release}
    (hcontrol : s.control = .releasing stage) (hs : s.asyncFree stage = some s') : Inv s' := by
  obtain ⟨⟨told, extra, hcore, -, hclosing⟩, hcalling, -⟩ := h
  have hclosed := hclosing (by rw [hcontrol]; rfl)
  have hrefuses := hclosed.refuses
  have hclean := hclosed.clean
  have hemptied := hclosed.emptied
  rw [hcontrol] at hcalling hemptied
  cases stage with
  | replies =>
    cases hqueue : s.ac.replies with
    | cons cb replies =>
      simp only [Async.asyncFree, hqueue] at hs
      obtain rfl := Option.some.inj hs
      have htell := hcore.tell hqueue (.releasing .replies) (.notifying .replies)
      rw [runCallback_eq] at htell ⊢
      have hfailed : s.ac.err = 0 → s.ac.freeing = false → False := by
        intro herr hfreeing
        rw [(hclean herr hfreeing).2] at hqueue
        cases hqueue
      refine Inv.of_closing htell ⟨hrefuses, fun h₁ h₂ => (hfailed h₁ h₂).elim, ?_, ?_⟩ ?_ ?_
      · cases cb.fn.isSome <;> rintro ⟨⟩
      · cases cb.fn.isSome <;> rfl
      · cases cb.fn.isSome <;> rfl
      · show (s.ac.inCallback || cb.fn.isSome) = _
        rw [hcalling]
        cases cb.fn.isSome <;> rfl
    | nil =>
      simp only [Async.asyncFree, hqueue] at hs
      obtain rfl := Option.some.inj hs
      exact Inv.of_closing { hcore with } ⟨hrefuses, hclean, fun _ => hqueue, rfl⟩ rfl hcalling
  | invalid =>
    simp only [Async.asyncFree, hcore.invalid] at hs
    obtain rfl := Option.some.inj hs
    exact Inv.of_closing { hcore with } ⟨hrefuses, hclean, hemptied, rfl⟩ rfl hcalling
  | channels it =>
    rw [Async.asyncFree, hcore.channels] at hs
    obtain ⟨⟨it', de⟩, hnext, heq⟩ := Option.map_eq_some_iff.mp hs
    obtain rfl := dictNext_create hnext
    obtain rfl := heq
    exact Inv.of_closing { hcore with } ⟨hrefuses, hclean, hemptied, rfl⟩ rfl hcalling
  | patterns it =>
    rw [Async.asyncFree, hcore.patterns] at hs
    obtain ⟨⟨it', de⟩, hnext, heq⟩ := Option.map_eq_some_iff.mp hs
    obtain rfl := dictNext_create hnext
    obtain rfl := heq
    exact Inv.asyncFreed hcore hclosed (hemptied rfl) hcalling

/-- One iteration of the loop over the replies. -/
theorem Inv.processCallbacks {s s' : Async} (h : Inv s) {cb : RedisCallback}
    (hcontrol : s.control = .processing cb) (hlen : s.ac.c.reader.buf.length < 2147483648)
    (hs : s.processCallbacks cb = some s') : Inv s' := by
  obtain ⟨hcore, herr⟩ := h.live (by rw [hcontrol]; rfl)
  have hcall : s.ac.inCallback = false := by rw [h.calling, hcontrol]; rfl
  have hrun := hcore.run
  rw [List.append_nil] at hrun
  obtain ⟨⟨c, result⟩, henter, hs⟩ := Option.bind_eq_some_iff.mp hs
  obtain ⟨hblock, hobuf, ⟨reply, rfl, hreader, -, hrun'⟩ | ⟨rfl, hcerr, hrun'⟩⟩ :=
    RedisContext.getReplyEnter_cases hrun hlen hcore.block henter
  · have hcore' : Core 0 reply.toList { s with ac := { s.ac with c := c } } := by
      refine { hcore with block := hblock, wire := ?_, run := hrun' }
      show s.sent ++ c.obuf = _
      rw [hobuf]
      exact hcore.wire
    cases reply with
    | none =>
      dsimp only at hs
      split at hs
      · next hdone =>
        exact Core.asyncDisconnect (s := { s with ac := { s.ac with c := c } }) hcore'
          (Or.inr hdone.1) hcall hs
      · rw [if_neg (by simp [hcore.monitoring])] at hs
        obtain rfl := Option.some.inj hs
        exact Inv.of_live { hcore' with } hreader rfl hcall (by rintro ⟨⟩)
    | some reply =>
      dsimp only at hs
      split at hs
      · next cb' replies hqueue =>
        obtain rfl := Option.some.inj hs
        have hhand := hcore'.hand hqueue (.processing cb') (.replying cb')
        rw [runCallback_eq] at hhand ⊢
        refine Inv.of_live hhand hreader ?_ ?_ ?_
        · cases cb'.fn.isSome <;> rfl
        · show (s.ac.inCallback || cb'.fn.isSome) = _
          rw [hcall]
          cases cb'.fn.isSome <;> rfl
        · cases cb'.fn.isSome <;> rintro ⟨⟩
      · split at hs
        · next str =>
          exact Core.asyncDisconnect
            (s := { s with ac := { s.ac with c := c.setError 2 (cStr str) } })
            { hcore' with } (Or.inl (by decide : (2 : ℤ) ≠ 0)) hcall hs
        · simp [hcore.subscribed, hcore.monitoring] at hs
  · dsimp only at hs
    refine @Core.asyncDisconnect { s with ac := { s.ac with c := c } } _ []
      { hcore with block := hblock, wire := ?_, run := ?_ } (Or.inl hcerr) hcall hs
    · show s.sent ++ c.obuf = _
      rw [hobuf]
      exact hcore.wire
    · rw [List.append_nil]
      exact hrun'

/-- The assertion of line 339 holds if there is an error, or no callback is left. -/
theorem asyncDisconnect_isSome {s : Async} (h : s.ac.c.err ≠ 0 ∨ s.ac.replies = []) :
    ∃ s', s.asyncDisconnect = some s' := by
  unfold asyncDisconnect
  dsimp only
  split
  · next herr =>
    rw [if_pos (h.resolve_left (not_not.mpr herr))]
    exact ⟨_, rfl⟩
  · exact ⟨_, rfl⟩

/-- The assertion of `redisProcessCallbacks` fails exactly if there is a reply, which is no
    error, and no callback for it; and the reader meets undefined behaviour exactly if all that
    comes before it has been handed out. -/
theorem Inv.processCallbacks_eq_none {s : Async} (h : Inv s) {cb : RedisCallback}
    (hcontrol : s.control = .processing cb) (hlen : s.ac.c.reader.buf.length < 2147483648) :
    s.processCallbacks cb = none ↔
      (s.handed.length = s.registered.length ∧
        ∃ reply rest, (parseReplies s.delivered).1 = s.handed ++ reply :: rest ∧
          ∀ str, reply ≠ .error str) ∨
      s.handed = (parseReplies s.delivered).1 ∧ (parseReplies s.delivered).2 = .undefined := by
  obtain ⟨hcore, -⟩ := h.live (by rw [hcontrol]; rfl)
  have hrun := hcore.run
  rw [List.append_nil] at hrun
  have hqueue : s.ac.replies = [] ↔ s.handed.length = s.registered.length := by
    have := hcore.le
    rw [hcore.queue, List.drop_eq_nil_iff]
    omega
  have hundefined := hrun.getReply_eq_none hlen
  cases hget : s.ac.c.reader.getReply with
  | none =>
    refine iff_of_true ?_ (Or.inr (hundefined.mp hget))
    rw [Async.processCallbacks, RedisContext.getReplyEnter, RedisContext.redisGetReplyFromReader,
      hget]
    rfl
  | some result =>
    obtain ⟨reader, ok, reply⟩ := result
    have hdefined : ¬(s.handed = (parseReplies s.delivered).1 ∧
        (parseReplies s.delivered).2 = .undefined) := by
      rw [← hundefined, hget]
      exact Option.some_ne_none _
    have henter : s.ac.c.getReplyEnter = some ((if ok then { s.ac.c with reader := reader }
        else ({ s.ac.c with reader := reader } : RedisContext).setError reader.err reader.errstr),
        .returned ok (if ok then reply else none)) := by
      rw [RedisContext.getReplyEnter, RedisContext.redisGetReplyFromReader, hget]
      cases ok <;> simp [hcore.block]
    rw [or_iff_left hdefined, Async.processCallbacks, henter, Option.bind_some]
    cases reply with
    | none =>
      obtain ⟨hall, hend⟩ := hrun.exhausted_parse hlen hget
      refine iff_of_false ?_ ?_
      · rcases hend with ⟨rfl, -⟩ | ⟨errstr, rfl, rfl, -⟩
        · simp only [if_true]
          split
          · next hnow =>
            exact Option.ne_none_iff_exists'.mpr (asyncDisconnect_isSome (Or.inr hnow.2.2))
          · split <;> exact Option.some_ne_none _
        · simp only [Bool.false_eq_true, if_false]
          exact Option.ne_none_iff_exists'.mpr
            (asyncDisconnect_isSome (Or.inl (by decide : (4 : ℤ) ≠ 0)))
      · rintro ⟨-, reply, rest, heq, -⟩
        rw [← hall] at heq
        exact absurd (congrArg List.length heq) (by simp)
    | some reply =>
      obtain ⟨rfl, -⟩ := hrun.getReply_some hlen hget
      obtain ⟨rest, hrest⟩ := (hrun.getReply hlen hget).prefix_parse
      rw [Option.toList_some, List.append_assoc, List.singleton_append] at hrest
      have hnext : ∀ reply' rest', (parseReplies s.delivered).1 = s.handed ++ reply' :: rest' →
          reply' = reply := by
        intro reply' rest' heq
        exact (List.cons.inj (List.append_cancel_left (heq.symm.trans hrest.symm))).1
      simp only [if_true]
      split
      · next cb' replies hcons =>
        refine iff_of_false (Option.some_ne_none _) (fun h => ?_)
        rw [hqueue.mpr h.1] at hcons
        cases hcons
      · next hnil =>
        split
        · next str =>
          refine iff_of_false ?_ ?_
          · exact Option.ne_none_iff_exists'.mpr
              (asyncDisconnect_isSome (Or.inl (by decide : (2 : ℤ) ≠ 0)))
          · rintro ⟨-, reply', rest', heq, hne⟩
            exact hne str (hnext reply' rest' heq)
        · next hne =>
          refine iff_of_true ?_ ⟨hqueue.mp hnil, reply, rest, hrest.symm, hne⟩
          rw [if_pos (by simp [hcore.subscribed, hcore.monitoring])]

/-- The first event on a connection. -/
theorem Inv.handleConnect {s s' : Async} (h : Inv s) (hcontrol : s.control = .idle)
    {error : SocketError} {handler : Handler} (hs : s.handleConnect error handler = some s') :
    Inv s' := by
  obtain ⟨hcore, herr⟩ := h.live (by rw [hcontrol]; rfl)
  have hcall : s.ac.inCallback = false := by rw [h.calling, hcontrol]; rfl
  rcases handleConnect_cases hs with ⟨-, rfl⟩ | ⟨-, ⟨text, -, rfl⟩ | ⟨text, -, -, rfl⟩ |
    ⟨text, -, -, hs⟩ | ⟨-, -, rfl⟩ | ⟨-, -, rfl⟩⟩
  · exact Inv.of_live { hcore with } herr rfl hcall (by rintro ⟨⟩)
  · exact Inv.of_live { hcore with } herr rfl hcall (by rintro ⟨⟩)
  · exact Inv.of_live { hcore with } herr rfl hcall fun _ => (by decide : (1 : ℤ) ≠ 0)
  · exact Core.asyncDisconnect (s := { s with ac := { s.ac with c := s.ac.c.setError 1 text } })
      { hcore with } (Or.inl (by decide : (1 : ℤ) ≠ 0)) hcall hs
  · exact Inv.of_live { hcore with } herr rfl hcall (by rintro ⟨⟩)
  · exact Inv.of_live { hcore with } herr rfl hcall (by rintro ⟨⟩)

/-- A read event on a connection. -/
theorem Inv.handleRead {s s' : Async} (h : Inv s) (hcontrol : s.control = .handling .read)
    {res : ReadResult} (hs : s.handleRead res = some s') : Inv s' := by
  obtain ⟨hcore, herr⟩ := h.live (by rw [hcontrol]; rfl)
  have hcall : s.ac.inCallback = false := by rw [h.calling, hcontrol]; rfl
  have hrun := hcore.run
  rw [List.append_nil] at hrun
  obtain ⟨c, ok, hread, hblock, hobuf, hok, hfail⟩ := RedisContext.redisBufferRead_spec res herr
  have hwire : s.sent ++ c.obuf = encodeAll (s.appended.map argvReply) := by
    rw [hobuf]
    exact hcore.wire
  rw [Async.handleRead, hread] at hs
  cases ok with
  | false =>
    obtain ⟨hcerr, hnone, hreader⟩ := hfail rfl
    refine @Core.asyncDisconnect { s with
      delivered := s.delivered ++ s.ac.c.brings res, ac := { s.ac with c := c } } _ []
      { hcore with block := hblock.trans hcore.block, wire := hwire, run := ?_ }
      (Or.inl hcerr) hcall hs
    show c.reader.Run (s.delivered ++ s.ac.c.brings res) (s.handed ++ [])
    rw [List.append_nil, hnone, List.append_nil, hreader]
    exact hrun
  | true =>
    obtain rfl := Option.some.inj hs
    obtain ⟨-, hreader⟩ := hok rfl
    have hrun' : c.reader.Run (s.delivered ++ s.ac.c.brings res) s.handed ∧ c.reader.err = 0 := by
      rcases hreader with ⟨hnone, hsame⟩ | hfeed
      · rw [hnone, List.append_nil, hsame]
        exact ⟨hrun, herr⟩
      · rw [hfeed]
        refine ⟨hrun.feed _, ?_⟩
        rw [RedisReader.feed, if_neg (by omega)]
        exact herr
    refine Inv.of_live { hcore with
      block := hblock.trans hcore.block, wire := hwire, run := ?_ } hrun'.2 rfl hcall (by rintro ⟨⟩)
    show c.reader.Run (s.delivered ++ s.ac.c.brings res) (s.handed ++ [])
    rw [List.append_nil]
    exact hrun'.1

/-- A write event on a connection. -/
theorem Inv.handleWrite {s s' : Async} (h : Inv s) (hcontrol : s.control = .handling .write)
    {res : WriteResult} (hlen : s.ac.c.obuf.length < 2147483648) (hres : s.ac.c.CanTake res)
    (hs : s.handleWrite res = some s') : Inv s' := by
  obtain ⟨hcore, herr⟩ := h.live (by rw [hcontrol]; rfl)
  have hcall : s.ac.inCallback = false := by rw [h.calling, hcontrol]; rfl
  obtain ⟨c, ok, done, hwrite, hreader, hblock, htakes, hfail, -, -, -⟩ :=
    RedisContext.redisBufferWrite_spec hres hlen
  have hwire : (s.sent ++ s.ac.c.takes res) ++ c.obuf = encodeAll (s.appended.map argvReply) := by
    rw [List.append_assoc, htakes]
    exact hcore.wire
  have hrun : c.reader.Run s.delivered (s.handed ++ []) := by
    rw [hreader]
    exact hcore.run
  rw [Async.handleWrite, hwrite, Option.bind_some] at hs
  cases ok with
  | false =>
    exact @Core.asyncDisconnect { s with
      sent := s.sent ++ s.ac.c.takes res, ac := { s.ac with c := c } } _ []
      { hcore with block := hblock.trans hcore.block, wire := hwire, run := hrun }
      (Or.inl (hfail rfl)) hcall hs
  | true =>
    obtain rfl := Option.some.inj hs
    exact Inv.of_live { hcore with block := hblock.trans hcore.block, wire := hwire, run := hrun }
      (by show c.reader.err = 0; rw [hreader]; exact herr) rfl hcall (by rintro ⟨⟩)

/-- A callback of the application returns. -/
theorem Inv.returned {s s' : Async} (h : Inv s) {D : Type} {text : Bytes → Num D → Bytes}
    (hs : s.step text .returned = some s') : Inv s' := by
  have hcalling := h.calling
  obtain ⟨handler, hcontrol, rfl⟩ | ⟨handler, hcontrol, hs⟩ | ⟨cb, hcontrol, rfl⟩ |
      ⟨stage, hcontrol, rfl⟩ | ⟨hcontrol, rfl⟩ := step_returned hs
  · obtain ⟨hcore, herr⟩ := h.live (by rw [hcontrol]; rfl)
    exact Inv.of_live { hcore with } herr rfl (by rw [hcalling, hcontrol]; rfl) (by rintro ⟨⟩)
  · obtain ⟨hcore, -⟩ := h.live (by rw [hcontrol]; rfl)
    exact hcore.asyncDisconnect (Or.inl (h.failed (by rw [hcontrol]; rfl)))
      (by rw [hcalling, hcontrol]; rfl) hs
  · obtain ⟨hcore, herr⟩ := h.live (by rw [hcontrol]; rfl)
    dsimp only
    cases hfreeing : s.ac.freeing with
    | true =>
      exact Inv.of_closing { hcore with } ⟨Or.inr rfl, (by rintro - ⟨⟩), by rintro ⟨⟩, rfl⟩ rfl rfl
    | false => exact Inv.of_live { hcore with } herr rfl rfl (by rintro ⟨⟩)
  · obtain ⟨⟨told, extra, hcore, -, hclosing⟩, -, -⟩ := h
    have hclosed := hclosing (by rw [hcontrol]; rfl)
    have hfresh := hclosed.fresh
    rw [hcontrol] at hfresh
    refine Inv.of_closing { hcore with } ⟨hclosed.refuses, hclosed.clean, fun hempty => ?_, hfresh⟩
      rfl rfl
    refine hclosed.emptied ?_
    rw [hcontrol]
    cases stage with
    | replies => cases hempty
    | _ => rfl
  · obtain ⟨⟨told, extra, hcore, -, hclosing⟩, -, -⟩ := h
    have hclosed := hclosing (by rw [hcontrol]; rfl)
    exact Inv.of_closing { hcore with } ⟨hclosed.refuses, hclosed.clean,
      fun _ => hclosed.emptied (by rw [hcontrol]; rfl), rfl⟩ rfl (by rw [hcalling, hcontrol]; rfl)

/-- The hooks do not matter. -/
theorem Inv.hooks {s : Async} (h : Inv s) (onConnect onDisconnect evRead evWrite : Bool) :
    Inv { s with ac := { s.ac with
      onConnect := onConnect, onDisconnect := onDisconnect, evRead := evRead, evWrite := evWrite } } := by
  obtain ⟨⟨told, extra, hcore, hopen, hclosing⟩, hcalling, hfailed⟩ := h
  exact ⟨⟨told, extra, { hcore with }, hopen, fun hc => { hclosing hc with }⟩, hcalling, hfailed⟩

/-- Each step keeps the invariant. -/
theorem Inv.step {s s' : Async} (h : Inv s) {D : Type} {text : Bytes → Num D → Bytes}
    {a : AsyncAction D} (ha : Ordinary text s a) (hs : s.step text a = some s') : Inv s' := by
  obtain ⟨hobuf, hbuf, ha⟩ := ha
  cases a with
  | setConnectCallback =>
    obtain ⟨-, hs⟩ := Option.ite_none_right_eq_some.mp hs
    obtain rfl := Option.some.inj hs
    unfold RedisAsyncContext.setConnectCallback
    split
    · exact h
    · exact h.hooks true _ _ true
  | setDisconnectCallback =>
    obtain ⟨-, hs⟩ := Option.ite_none_right_eq_some.mp hs
    obtain rfl := Option.some.inj hs
    unfold RedisAsyncContext.setDisconnectCallback
    split
    · exact h
    · exact h.hooks _ true _ _
  | command cb argv => exact h.command ha hs
  | commandFormat cb format args =>
    obtain ⟨argv, hformat, hs⟩ | ⟨-, rfl⟩ := step_commandFormat hs
    · exact h.command (ha argv hformat) hs
    · exact h
  | disconnect =>
    obtain ⟨hfree, hs⟩ := Option.ite_none_right_eq_some.mp hs
    exact h.redisAsyncDisconnect hfree hs
  | free =>
    obtain ⟨-, hs⟩ := Option.ite_none_right_eq_some.mp hs
    obtain rfl := Option.some.inj hs
    exact h.redisAsyncFree
  | returned => exact h.returned hs
  | readable error =>
    obtain ⟨hcontrol, hs⟩ := step_readable hs
    exact (h.hooks _ _ false _).handleConnect hcontrol hs
  | writable error =>
    obtain ⟨hcontrol, hs⟩ := step_writable hs
    exact (h.hooks _ _ _ false).handleConnect hcontrol hs
  | read res =>
    obtain ⟨hcontrol, hs⟩ := step_read hs
    exact h.handleRead hcontrol hs
  | write res =>
    obtain ⟨hcontrol, hs⟩ := step_write hs
    exact h.handleWrite hcontrol hobuf ha hs
  | iterate =>
    obtain ⟨cb, hcontrol, hs⟩ | ⟨stage, hcontrol, hs⟩ := step_iterate hs
    · exact h.processCallbacks hcontrol hbuf hs
    · exact h.asyncFree hcontrol hs

/-- By induction on the run. -/
theorem inv_of_reachable {D : Type} {text : Bytes → Num D → Bytes} {s : Async}
    (hs : (machine text).ReachableUnder (Ordinary text) s) : Inv s := by
  induction hs with
  | init h => exact h ▸ Inv.start
  | step _ ha hstep ih => exact ih.step ha hstep

/-! ## A run -/

/-- A command that is not refused. -/
theorem step_command {D : Type} {text : Bytes → Num D → Bytes} {s : Async}
    (hopen : s.control.isOpen = true) (hsub : s.ac.subscribed = false)
    (hlive : ¬(s.ac.disconnecting = true ∨ s.ac.freeing = true)) {cb : RedisCallback}
    {argv : List Bytes} (hreg : RedisAsyncContext.Regular argv) :
    (machine text).step s (.command cb argv) = some { s with
      ac := { s.ac with
        c := { s.ac.c with obuf := s.ac.c.obuf ++ encode (argvReply argv) }
        replies := s.ac.replies ++ [cb]
        evWrite := true }
      registered := s.registered ++ [cb]
      appended := s.appended ++ [argv] } := by
  show Async.step text s (.command cb argv) = _
  rw [Async.step, if_pos hopen, RedisAsyncContext.asyncCommandArgv_regular hreg s.ac hsub,
    if_neg hlive, Option.map_some]
  simp only [registerAt, List.drop_left, if_true]

/-- Two callbacks with a function. -/
def cbP : RedisCallback := ⟨some 1, 7⟩

/-- The callback of the second command. -/
def cbQ : RedisCallback := ⟨some 2, 8⟩

/-- `P`, and the callback that is being called with the reply to it. -/
def replyingP : Async where
  ac := { RedisAsyncContext.asyncInitialize (.init false) with
    c := { RedisContext.init false with reader := ⟨0, [], [58, 53, 13, 10], 4, [], none⟩ }
    connected := true
    inCallback := true
    evWrite := false }
  control := .replying cbP
  sent := encode (argvReply [[80]])
  delivered := [58, 53, 13, 10]
  registered := [cbP]
  appended := [[[80]]]
  handed := [.integer 5]
  calls := [(cbP, some (.integer 5))]
  connects := []
  disconnects := []

/-- `P` is no command with a branch of its own. -/
theorem regular_p : RedisAsyncContext.Regular [[80]] := by
  refine ⟨?_, [80], [], rfl, by decide⟩
  rw [← length_encode_argv]
  decide

/-- Nor is `Q`. -/
theorem regular_q : RedisAsyncContext.Regular [[81]] := by
  refine ⟨?_, [81], [], rfl, by decide⟩
  rw [← length_encode_argv]
  decide

/-- The connection is made, `P` is written, and 5 comes back. -/
theorem replyingP_reachable :
    (machine Session.noText).ReachableUnder (Ordinary Session.noText) replyingP := by
  have hwire : encode (argvReply [[80]]) = [42, 49, 13, 10, 36, 49, 13, 10, 80, 13, 10] := by decide
  have h₁ := (Lts.ReachableUnder.init (m := machine Session.noText) (C := Ordinary Session.noText)
    rfl).step (l := .command cbP [[80]]) ⟨by decide, by decide, regular_p⟩
    (step_command rfl rfl (by decide) regular_p)
  rw [hwire] at h₁
  have h₂ := h₁.step (l := .writable .none) ⟨by decide, by decide, trivial⟩ rfl
  have h₃ := h₂.step (l := .write (.wrote 11)) ⟨by decide, by decide, show 11 ≤ 11 by decide⟩ rfl
  have h₄ := h₃.step (l := .readable .none) ⟨by decide, by decide, trivial⟩ rfl
  have h₅ := h₄.step (l := .read (.data [58, 53, 13, 10])) ⟨by decide, by decide, trivial⟩ rfl
  exact h₅.step (l := .iterate) ⟨by decide, by decide, trivial⟩ rfl

/-! ## Results -/

/-- Every callback of a command is called once, in the order of the commands, whenever they
    were given: the first ones with the replies that came, the `k` after them with `NULL`,
    and these only when the context is torn down. When that is over, all of them have been
    called. -/
theorem paired {D : Type} {text : Bytes → Num D → Bytes} {s : Async}
    (hs : (machine text).ReachableUnder (Ordinary text) s) :
    ∃ k, s.calls = notices (s.registered.take (s.handed.length + k))
        (s.handed.map some ++ .replicate k none) ∧
      s.handed.length + k ≤ s.registered.length ∧ s.handed <+: (parseReplies s.delivered).1 ∧
      (s.control.closing = false → k = 0) ∧
      (s.control.emptied = true → s.handed.length + k = s.registered.length) := by
  obtain ⟨⟨told, extra, hcore, hopen, hclosing⟩, -, -⟩ := inv_of_reachable hs
  refine ⟨told, hcore.calls, hcore.le, ?_, fun hlive => (hopen hlive).1, fun hempty => ?_⟩
  · exact (List.prefix_append _ _).trans hcore.run.prefix_parse
  · have hnil := (hclosing (AsyncControl.closing_of_emptied hempty)).emptied hempty
    have := List.drop_eq_nil_iff.mp (hcore.queue.symm.trans hnil)
    have := hcore.le
    omega

/-- In the callback of `P` the application sends `Q` and frees the context. -/
theorem paired_p : ∃ s : Async, s.calls = [(cbP, some (.integer 5)), (cbQ, none)] ∧
    ∃ k, s.calls = notices (s.registered.take (s.handed.length + k))
        (s.handed.map some ++ .replicate k none) ∧
      s.handed.length + k ≤ s.registered.length ∧ s.handed <+: (parseReplies s.delivered).1 := by
  have h₁ := replyingP_reachable.step (l := .command cbQ [[81]]) ⟨by decide, by decide, regular_q⟩
    (step_command rfl rfl (by decide) regular_q)
  have h₂ := h₁.step (l := .free) ⟨by decide, by decide, trivial⟩ rfl
  have h₃ := h₂.step (l := .returned) ⟨by decide, by decide, trivial⟩ rfl
  have h₄ := h₃.step (l := .iterate) ⟨by decide, by decide, trivial⟩ rfl
  obtain ⟨k, hcalls, hle, hhanded, -⟩ := paired h₄
  exact ⟨_, rfl, k, hcalls, hle, hhanded⟩

/-- A context that went away without an error and without `redisAsyncFree` has given every
    callback a reply. -/
theorem clean {D : Type} {text : Bytes → Num D → Bytes} {s : Async}
    (hs : (machine text).ReachableUnder (Ordinary text) s) (hclosed : s.control.closing = true)
    (herr : s.ac.err = 0) (hfreeing : s.ac.freeing = false) :
    s.handed.length = s.registered.length ∧ s.calls = notices s.registered (s.handed.map some) := by
  obtain ⟨⟨told, extra, hcore, -, hclosing⟩, -, -⟩ := inv_of_reachable hs
  obtain ⟨rfl, hnil⟩ := (hclosing hclosed).clean herr hfreeing
  have hall := List.drop_eq_nil_iff.mp (hcore.queue.symm.trans hnil)
  have hcalls := hcore.calls
  have := hcore.le
  rw [List.take_of_length_le hall, List.replicate_zero, List.append_nil] at hcalls
  exact ⟨by omega, hcalls⟩

/-- `P`, and the context is disconnected in the callback. -/
theorem clean_p : ∃ s : Async, s.control = .releasing .replies ∧ s.handed = [.integer 5] ∧
    s.calls = notices s.registered (s.handed.map some) := by
  have h₁ := replyingP_reachable.step (l := .disconnect) ⟨by decide, by decide, trivial⟩ rfl
  have h₂ := h₁.step (l := .returned) ⟨by decide, by decide, trivial⟩ rfl
  have h₃ := h₂.step (l := .iterate) ⟨by decide, by decide, trivial⟩ rfl
  exact ⟨_, rfl, rfl, (clean h₃ rfl rfl rfl).2⟩

/-- In the loop over the replies the program aborts or meets undefined behaviour exactly if the
    server sends a reply, which is no error, for which there is no command, or bytes behind the
    replies that have no meaning. -/
theorem aborts_iff {D : Type} {text : Bytes → Num D → Bytes} {s : Async}
    (hs : (machine text).ReachableUnder (Ordinary text) s) {cb : RedisCallback}
    (hcontrol : s.control = .processing cb) (hlen : s.ac.c.reader.buf.length < 2147483648) :
    s.step text .iterate = none ↔
      (s.handed.length = s.registered.length ∧
        ∃ reply rest, (parseReplies s.delivered).1 = s.handed ++ reply :: rest ∧
          ∀ str, reply ≠ .error str) ∨
      s.handed = (parseReplies s.delivered).1 ∧ (parseReplies s.delivered).2 = .undefined := by
  rw [Async.step, hcontrol]
  exact (inv_of_reachable hs).processCallbacks_eq_none hcontrol hlen

/-- A server that sends 5 before anything was asked. -/
theorem aborts_iff_five : ∃ s : Async, s.control = .processing ⟨none, 0⟩ ∧ s.registered = [] ∧
    s.step Session.noText .iterate = none := by
  have h₁ := (Lts.ReachableUnder.init (m := machine Session.noText) (C := Ordinary Session.noText)
    rfl).step (l := .readable .none) ⟨by decide, by decide, trivial⟩ rfl
  have h₂ := h₁.step (l := .read (.data [58, 53, 13, 10])) ⟨by decide, by decide, trivial⟩ rfl
  have hparse : parseReplies [58, 53, 13, 10] = ([.integer 5], .more) := by
    rw [parseReplies_done (show parseItem 8 [58, 53, 13, 10] = .done (.integer 5) [] from rfl),
      parseReplies_ending (show (parseItem 8 []).ending = some .more from rfl)]
  refine ⟨_, rfl, rfl, (aborts_iff h₂ rfl (by decide)).mpr
    (Or.inl ⟨rfl, .integer 5, [], ?_, by simp⟩)⟩
  show (parseReplies [58, 53, 13, 10]).1 = _
  rw [hparse]
  rfl

end Async

end Hiredispool.Hiredis
