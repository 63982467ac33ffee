import Hiredispool.Hiredis.AsyncRuns

/-!
# Asynchronous contexts and an honest server

Runs of an asynchronous context whose server answers the commands that it has received, in
order and at any speed.

* `Async.answered`: the callbacks are given the answers to their own commands.
* `Async.pending`: while callbacks are to be called, the event library waits for what brings
  the context forward, and it will come.
* `Async.returns`: no assertion fails in the loops, and each of them comes to its end.

An event may find that `connect` is still in progress. "Try again later", says line 498, but
`redisCheckSocketError` has set `c->err` (`net.c`, lines 245–248), which no event takes back, and
the handlers return without adding the event again (lines 524–525 and 546–547). So the callbacks
are still given their own answers or `NULL`, and the loops come to their end, but nothing may
ever wake the context: `Async.pending` needs `NotInProgress`, the others do not.
-/

namespace Hiredispool.Hiredis

open Hiredispool.Pool (Bytes cStr)
open Hiredispool.Client (Arg Num RedisReply)

/-- The handler that is being executed, before it reads or writes. -/
def AsyncControl.handler : AsyncControl → Option Handler
  | .connecting _ handler => some handler
  | .handling handler => some handler
  | _ => none

/-- Nothing is in the reader that could be a reply. -/
def AsyncControl.waiting : AsyncControl → Bool
  | .idle => true
  | .connecting _ _ => true
  | .handling _ => true
  | _ => false

/-- A loop of the context is being executed. -/
def AsyncControl.looping : AsyncControl → Bool
  | .processing _ => true
  | .releasing _ => true
  | _ => false

/-- The loops of `__redisAsyncFree` that are left. -/
def Release.left : Release → ℕ
  | .replies => 4
  | .invalid => 3
  | .channels _ => 2
  | .patterns _ => 1

/-- There are four of them, and what comes behind. -/
theorem Release.left_le (stage : Release) : stage.left ≤ 5 := by
  cases stage <;> simp [left]

/-- A context that waits is not being torn down. -/
theorem AsyncControl.closing_of_waiting {control : AsyncControl} (h : control.waiting = true) :
    control.closing = false := by
  cases control <;> simp_all [waiting, closing]

/-- The run is ordinary, and what `read` brings has been sent by the server. -/
def Answering {σ D : Type} (serve : σ → List Bytes → σ × RedisReply) (server : σ)
    (text : Bytes → Num D → Bytes) (s : Async) (a : AsyncAction D) : Prop :=
  Ordinary text s a ∧
    match a with
    | .read (.data buf) => buf ≠ [] ∧
      s.delivered ++ buf <+: encodeAll (answers serve server (received s.sent))
    | _ => True

/-- No event finds that the connection is still being made (`EINPROGRESS`, lines 498–500). Such
    an event is not added again, although the handler says that it tries again later. -/
def NotInProgress {D : Type} : AsyncAction D → Prop
  | .readable (.inProgress _) => False
  | .writable (.inProgress _) => False
  | _ => True

namespace Async

/-! ## What the steps leave alone -/

/-- Nothing has been read, written or appended, and no reply has been handed out; the events are
    as they were. -/
structure Same (s s' : Async) : Prop where
  sent : s'.sent = s.sent
  delivered : s'.delivered = s.delivered
  handed : s'.handed = s.handed
  c : s'.ac.c = s.ac.c
  evRead : s'.ac.evRead = s.ac.evRead
  evWrite : s'.ac.evWrite = s.ac.evWrite
  replies : s'.ac.replies = s.ac.replies

/-- `__redisAsyncDisconnect` sets an error and a flag. -/
theorem asyncDisconnect_same {s s' : Async} (hs : s.asyncDisconnect = some s') :
    Same s s' ∧ s'.control = .releasing .replies := by
  obtain ⟨disconnecting, rfl, -⟩ := asyncDisconnect_eq hs
  exact ⟨⟨rfl, rfl, rfl, rfl, rfl, rfl, rfl⟩, rfl⟩

/-- So does `redisAsyncDisconnect`, or it waits for replies. -/
theorem redisAsyncDisconnect_same {s s' : Async} (hs : s.redisAsyncDisconnect = some s') :
    Same s s' ∧ (s'.control = s.control ∨ s'.control.closing = true) := by
  unfold redisAsyncDisconnect at hs
  dsimp only at hs
  split at hs
  · obtain ⟨hsame, hcontrol⟩ := asyncDisconnect_same hs
    exact ⟨{ hsame with }, Or.inr (by rw [hcontrol]; rfl)⟩
  · obtain rfl := Option.some.inj hs
    exact ⟨⟨rfl, rfl, rfl, rfl, rfl, rfl, rfl⟩, Or.inl rfl⟩

/-- `redisAsyncFree` sets a flag, in a callback or outside. -/
theorem redisAsyncFree_same (s : Async) :
    Same s s.redisAsyncFree ∧
      (s.redisAsyncFree.control = s.control ∨ s.redisAsyncFree.control.closing = true) := by
  unfold redisAsyncFree
  dsimp only
  split
  · exact ⟨⟨rfl, rfl, rfl, rfl, rfl, rfl, rfl⟩, Or.inr rfl⟩
  · exact ⟨⟨rfl, rfl, rfl, rfl, rfl, rfl, rfl⟩, Or.inl rfl⟩

/-- What `__redisAsyncFree` does to the sockets and to the replies: nothing. -/
theorem asyncFree_closing {s s' : Async} {stage : Release} (hs : s.asyncFree stage = some s') :
    s'.control.closing = true ∧ s'.sent = s.sent ∧ s'.delivered = s.delivered ∧
      s'.ac.c = s.ac.c := by
  obtain ⟨replies, invalid, cb, stage, rfl⟩ | ⟨stage, rfl⟩ | rfl := asyncFree_cases hs
  · rw [runCallback_eq]
    cases cb.fn.isSome <;> exact ⟨rfl, rfl, rfl, rfl⟩
  · exact ⟨rfl, rfl, rfl, rfl⟩
  · unfold asyncFreed
    dsimp only
    split <;> exact ⟨rfl, rfl, rfl, rfl⟩

/-- One iteration over the replies: the context is torn down, or the reader has no reply, or
    the first callback of the queue is given one. -/
theorem processCallbacks_cases {s s' : Async} (h : Inv s) {cb : RedisCallback}
    (hcontrol : s.control = .processing cb) (hlen : s.ac.c.reader.buf.length < 2147483648)
    (hs : s.processCallbacks cb = some s') :
    s'.sent = s.sent ∧ s'.delivered = s.delivered ∧ s'.ac.c.obuf = s.ac.c.obuf ∧
      s'.ac.c.reader.buf.length ≤ s.ac.c.reader.buf.length ∧
      (s'.control = .releasing .replies ∧ s'.ac.replies = s.ac.replies ∨
        s'.ac.evRead = s.ac.evRead ∧ s'.ac.evWrite = s.ac.evWrite ∧
          (s'.control = .idle ∧ s'.handed = s.handed ∧ s'.ac.replies = s.ac.replies ∧
              (∃ reader, s.ac.c.reader.getReply = some (reader, true, none)) ∨
            ∃ cb, s.ac.replies = cb :: s'.ac.replies ∧
              (s'.control = .processing cb ∨ s'.control = .replying cb))) := by
  obtain ⟨hcore, -⟩ := h.live (by rw [hcontrol]; rfl)
  have hrun := hcore.run
  rw [List.append_nil] at hrun
  obtain ⟨⟨c, result⟩, henter, hs⟩ := Option.bind_eq_some_iff.mp hs
  obtain ⟨-, hobuf, hresult⟩ := RedisContext.getReplyEnter_cases hrun hlen hcore.block henter
  have hbuf := RedisContext.getReplyEnter_buf_le henter
  have hclosed : ∀ {t : Async}, t.asyncDisconnect = some s' → t.sent = s.sent →
      t.delivered = s.delivered → t.ac.c.obuf = c.obuf → t.ac.c.reader = c.reader →
      t.ac.replies = s.ac.replies →
      s'.sent = s.sent ∧ s'.delivered = s.delivered ∧ s'.ac.c.obuf = s.ac.c.obuf ∧
        s'.ac.c.reader.buf.length ≤ s.ac.c.reader.buf.length ∧
        s'.control = .releasing .replies ∧ s'.ac.replies = s.ac.replies := by
    intro t ht hsent hdelivered hout hreader hreplies
    obtain ⟨hsame, hcontrol⟩ := asyncDisconnect_same ht
    refine ⟨hsame.sent.trans hsent, hsame.delivered.trans hdelivered, ?_, ?_, hcontrol,
      hsame.replies.trans hreplies⟩
    · rw [hsame.c, hout, hobuf]
    · rw [hsame.c, hreader]
      exact hbuf
  obtain ⟨reply, rfl, -, hget, -⟩ | ⟨rfl, -, -⟩ := hresult
  · cases reply with
    | none =>
      dsimp only at hs
      split at hs
      · obtain ⟨h₁, h₂, h₃, h₄, h₅⟩ := hclosed hs rfl rfl rfl rfl rfl
        exact ⟨h₁, h₂, h₃, h₄, Or.inl h₅⟩
      · rw [if_neg (by simp [hcore.monitoring])] at hs
        obtain rfl := Option.some.inj hs
        exact ⟨rfl, rfl, hobuf, hbuf, Or.inr ⟨rfl, rfl, Or.inl ⟨rfl, rfl, rfl, _, hget⟩⟩⟩
    | some reply =>
      dsimp only at hs
      split at hs
      · next cb' replies hqueue =>
        obtain rfl := Option.some.inj hs
        rw [runCallback_eq]
        refine ⟨rfl, rfl, hobuf, hbuf, Or.inr ⟨rfl, rfl, Or.inr ⟨cb', hqueue, ?_⟩⟩⟩
        cases cb'.fn.isSome
        · exact Or.inl rfl
        · exact Or.inr rfl
      · split at hs
        · obtain ⟨h₁, h₂, h₃, h₄, h₅⟩ := hclosed hs rfl rfl rfl rfl rfl
          exact ⟨h₁, h₂, h₃, h₄, Or.inl h₅⟩
        · simp [hcore.subscribed, hcore.monitoring] at hs
  · obtain ⟨h₁, h₂, h₃, h₄, h₅⟩ := hclosed hs rfl rfl rfl rfl rfl
    exact ⟨h₁, h₂, h₃, h₄, Or.inl h₅⟩

/-- The first event on a connection: the context is torn down, or its handler goes on, or the
    connection is still being made. -/
theorem handleConnect_same {s s' : Async} {error : SocketError} {handler : Handler}
    (hs : s.handleConnect error handler = some s') :
    s'.sent = s.sent ∧ s'.delivered = s.delivered ∧
      (s'.control.closing = true ∨
        s'.handed = s.handed ∧ s'.ac.c.obuf = s.ac.c.obuf ∧ s'.ac.evRead = s.ac.evRead ∧
          s'.ac.evWrite = s.ac.evWrite ∧
          (s'.control.handler = some handler ∨ ∃ text, error = .inProgress text)) := by
  rcases handleConnect_cases hs with ⟨-, rfl⟩ | ⟨-, ⟨text, rfl, rfl⟩ | ⟨text, -, -, rfl⟩ |
    ⟨text, -, -, hs⟩ | ⟨-, -, rfl⟩ | ⟨-, -, rfl⟩⟩
  · exact ⟨rfl, rfl, Or.inr ⟨rfl, rfl, rfl, rfl, Or.inl rfl⟩⟩
  · exact ⟨rfl, rfl, Or.inr ⟨rfl, rfl, rfl, rfl, Or.inr ⟨text, rfl⟩⟩⟩
  · exact ⟨rfl, rfl, Or.inr ⟨rfl, rfl, rfl, rfl, Or.inl rfl⟩⟩
  · obtain ⟨hsame, hcontrol⟩ := asyncDisconnect_same hs
    exact ⟨hsame.sent, hsame.delivered, Or.inl (by rw [hcontrol]; rfl)⟩
  · exact ⟨rfl, rfl, Or.inr ⟨rfl, rfl, rfl, rfl, Or.inl rfl⟩⟩
  · exact ⟨rfl, rfl, Or.inr ⟨rfl, rfl, rfl, rfl, Or.inl rfl⟩⟩

/-! ## Invariant -/

section Invariant

variable {σ D : Type} {serve : σ → List Bytes → σ × RedisReply} {server : σ}
  {text : Bytes → Num D → Bytes}

/-- The event library has been told to wait for input, and for output too if there is any,
    unless it has just called the handler, which will tell it again. -/
structure Armed (s : Async) : Prop where
  evRead : s.control.closing = false → s.control.handler ≠ some .read → s.ac.evRead = true
  evWrite : s.control.closing = false → s.control.handler ≠ some .write → s.ac.c.obuf ≠ [] →
    s.ac.evWrite = true

/-- What holds between any two steps with an honest server. -/
structure Served (serve : σ → List Bytes → σ × RedisReply) (server : σ) (s : Async) : Prop where
  honest : s.delivered <+: encodeAll (answers serve server (received s.sent))
  drained : s.control.waiting = true → s.handed = (parseReplies s.delivered).1

/-- `redisLibeventAttach` adds both events (lines 104–105). -/
theorem Armed.start : Armed start where
  evRead := fun _ _ => rfl
  evWrite := fun _ _ _ => rfl

/-- Nothing has come. -/
theorem Served.start : Served serve server start where
  honest := List.nil_prefix
  drained := by
    intro _
    show [] = (parseReplies []).1
    rw [parseReplies_ending (e := .more) (by rw [parseItem]; rfl)]

/-- A context that is torn down waits for no event. -/
theorem Armed.of_closing {s : Async} (hclosed : s.control.closing = true) : Armed s := by
  constructor
  · rw [hclosed]
    rintro ⟨⟩
  · rw [hclosed]
    rintro ⟨⟩

/-- It has only to be honest. -/
theorem Served.of_closing {s : Async}
    (h : s.delivered <+: encodeAll (answers serve server (received s.sent)))
    (hclosed : s.control.closing = true) : Served serve server s := by
  refine ⟨h, fun hw => ?_⟩
  have := AsyncControl.closing_of_waiting hw
  rw [hclosed] at this
  cases this

/-- A step that touches neither the buffers nor the events. -/
theorem Armed.same {s s' : Async} (h : Armed s) (hsame : Same s s')
    (hcontrol : s'.control = s.control ∨ s'.control.closing = true) : Armed s' := by
  rcases hcontrol with heq | hclosed
  · refine ⟨?_, ?_⟩
    · rw [heq, hsame.evRead]
      exact h.evRead
    · rw [heq, hsame.c, hsame.evWrite]
      exact h.evWrite
  · exact .of_closing hclosed

/-- Such a step brings nothing. -/
theorem Served.same {s s' : Async} (h : Served serve server s) (hsame : Same s s')
    (hcontrol : s'.control = s.control ∨ s'.control.closing = true) : Served serve server s' := by
  have hhonest : s'.delivered <+: encodeAll (answers serve server (received s'.sent)) := by
    rw [hsame.delivered, hsame.sent]
    exact h.honest
  rcases hcontrol with heq | hclosed
  · refine ⟨hhonest, ?_⟩
    rw [heq, hsame.handed, hsame.delivered]
    exact h.drained
  · exact .of_closing hhonest hclosed

/-- A command of the application schedules a write, or it is refused. -/
theorem command_same {s s' : Async} (hinv : Inv s) {cb : RedisCallback} {argv : List Bytes}
    (hreg : RedisAsyncContext.Regular argv) (hs : s.step text (.command cb argv) = some s') :
    s'.control = s.control ∧ s'.sent = s.sent ∧ s'.delivered = s.delivered ∧
      s'.handed = s.handed ∧ s'.ac.evRead = s.ac.evRead ∧ (s' = s ∨ s'.ac.evWrite = true) := by
  obtain ⟨told, extra, hcore, -⟩ := hinv.core
  obtain ⟨-, hs⟩ := Option.ite_none_right_eq_some.mp hs
  rw [RedisAsyncContext.asyncCommandArgv_regular hreg s.ac hcore.subscribed] at hs
  split at hs
  · obtain rfl := Option.some.inj hs
    exact ⟨rfl, rfl, rfl, rfl, rfl, Or.inl (registerAt_self s)⟩
  · obtain rfl := Option.some.inj hs
    exact ⟨rfl, rfl, rfl, rfl, rfl, Or.inr rfl⟩

/-- Line 645: a command schedules a write. -/
theorem Armed.command {s s' : Async} (h : Armed s) (hinv : Inv s) {cb : RedisCallback}
    {argv : List Bytes} (hreg : RedisAsyncContext.Regular argv)
    (hs : s.step text (.command cb argv) = some s') : Armed s' := by
  obtain ⟨hcontrol, -, -, -, hevRead, rfl | hevWrite⟩ := command_same hinv hreg hs
  · exact h
  · refine ⟨?_, fun _ _ _ => hevWrite⟩
    rw [hcontrol, hevRead]
    exact h.evRead

/-- The server has not got it yet. -/
theorem Served.command {s s' : Async} (h : Served serve server s) (hinv : Inv s)
    {cb : RedisCallback} {argv : List Bytes} (hreg : RedisAsyncContext.Regular argv)
    (hs : s.step text (.command cb argv) = some s') : Served serve server s' := by
  obtain ⟨hcontrol, hsent, hdelivered, hhanded, -⟩ := command_same hinv hreg hs
  refine ⟨?_, ?_⟩
  · rw [hdelivered, hsent]
    exact h.honest
  · rw [hcontrol, hhanded, hdelivered]
    exact h.drained

/-- The event library calls a handler. -/
theorem Armed.handleConnect {s s' : Async} (h : Armed s) (hcontrol : s.control = .idle)
    {error : SocketError} {handler : Handler} {evRead evWrite : Bool}
    (hread : handler ≠ .read → evRead = s.ac.evRead)
    (hwrite : handler ≠ .write → evWrite = s.ac.evWrite)
    (herror : ∀ text, error ≠ .inProgress text)
    (hs : Async.handleConnect error handler { s with ac := { s.ac with
      evRead := evRead, evWrite := evWrite } } = some s') : Armed s' := by
  obtain ⟨-, -, hclosed | ⟨-, hobuf, hevRead, hevWrite, hhandler | ⟨text, rfl⟩⟩⟩ :=
    handleConnect_same hs
  · exact .of_closing hclosed
  · refine ⟨fun _ hne => ?_, fun _ hne hfull => ?_⟩
    · rw [hevRead]
      refine (hread ?_).trans
        (h.evRead (by rw [hcontrol]; rfl) (by rw [hcontrol]; simp [AsyncControl.handler]))
      rintro rfl
      exact hne hhandler
    · rw [hobuf] at hfull
      rw [hevWrite]
      refine (hwrite ?_).trans
        (h.evWrite (by rw [hcontrol]; rfl) (by rw [hcontrol]; simp [AsyncControl.handler]) hfull)
      rintro rfl
      exact hne hhandler
  · exact absurd rfl (herror text)

/-- The first event reads and writes nothing. -/
theorem Served.handleConnect {s s' : Async} (h : Served serve server s)
    (hcontrol : s.control = .idle) {error : SocketError} {handler : Handler} {evRead evWrite : Bool}
    (hs : Async.handleConnect error handler { s with ac := { s.ac with
      evRead := evRead, evWrite := evWrite } } = some s') : Served serve server s' := by
  obtain ⟨hsent, hdelivered, hrest⟩ := handleConnect_same hs
  have hhonest : s'.delivered <+: encodeAll (answers serve server (received s'.sent)) := by
    rw [hdelivered, hsent]
    exact h.honest
  rcases hrest with hclosed | ⟨hhanded, -⟩
  · exact .of_closing hhonest hclosed
  · refine ⟨hhonest, fun _ => ?_⟩
    rw [hhanded, hdelivered]
    exact h.drained (by rw [hcontrol]; rfl)

/-- "Always re-schedule reads" (line 531). -/
theorem Armed.handleRead {s s' : Async} (h : Armed s) (hinv : Inv s)
    (hcontrol : s.control = .handling .read) {res : ReadResult}
    (hs : s.handleRead res = some s') : Armed s' := by
  obtain ⟨-, herr⟩ := hinv.live (by rw [hcontrol]; rfl)
  obtain ⟨c, ok, hread, -, hobuf, -, -⟩ := RedisContext.redisBufferRead_spec res herr
  rw [Async.handleRead, hread] at hs
  cases ok with
  | false =>
    obtain ⟨-, hreleasing⟩ := asyncDisconnect_same hs
    exact .of_closing (by rw [hreleasing]; rfl)
  | true =>
    obtain rfl := Option.some.inj hs
    refine ⟨fun _ _ => rfl, fun _ _ hfull => ?_⟩
    have hfull : c.obuf ≠ [] := hfull
    rw [hobuf] at hfull
    exact h.evWrite (by rw [hcontrol]; rfl) (by rw [hcontrol]; simp [AsyncControl.handler]) hfull

/-- What is read has been sent by the server. -/
theorem Served.handleRead {s s' : Async} (hinv : Inv s) (hcontrol : s.control = .handling .read)
    {res : ReadResult}
    (hbrings : s.delivered ++ s.ac.c.brings res <+: encodeAll (answers serve server (received s.sent)))
    (hs : s.handleRead res = some s') : Served serve server s' := by
  obtain ⟨-, herr⟩ := hinv.live (by rw [hcontrol]; rfl)
  obtain ⟨c, ok, hread, -⟩ := RedisContext.redisBufferRead_spec res herr
  rw [Async.handleRead, hread] at hs
  cases ok with
  | false =>
    obtain ⟨hsame, hreleasing⟩ := asyncDisconnect_same hs
    refine .of_closing ?_ (by rw [hreleasing]; rfl)
    rw [hsame.delivered, hsame.sent]
    exact hbrings
  | true =>
    obtain rfl := Option.some.inj hs
    exact ⟨hbrings, by rintro ⟨⟩⟩

/-- A write is scheduled while there is something to write (line 554), and a read always (line
    560). -/
theorem Armed.handleWrite {s s' : Async} {res : WriteResult}
    (hlen : s.ac.c.obuf.length < 2147483648) (hres : s.ac.c.CanTake res)
    (hs : s.handleWrite res = some s') : Armed s' := by
  obtain ⟨c, ok, done, hwrite, -, -, -, -, -, -, hdone⟩ := RedisContext.redisBufferWrite_spec hres hlen
  rw [Async.handleWrite, hwrite, Option.bind_some] at hs
  cases ok with
  | false =>
    obtain ⟨-, hreleasing⟩ := asyncDisconnect_same hs
    exact .of_closing (by rw [hreleasing]; rfl)
  | true =>
    obtain rfl := Option.some.inj hs
    refine ⟨fun _ _ => rfl, fun _ _ hfull => ?_⟩
    show (!done) = true
    cases done with
    | true => exact absurd (hdone rfl) hfull
    | false => rfl

/-- With more commands at the server the answers begin as before. -/
theorem Served.handleWrite {s s' : Async} (h : Served serve server s)
    (hcontrol : s.control = .handling .write) {res : WriteResult}
    (hlen : s.ac.c.obuf.length < 2147483648) (hres : s.ac.c.CanTake res)
    (hs : s.handleWrite res = some s') : Served serve server s' := by
  obtain ⟨c, ok, done, hwrite, -⟩ := RedisContext.redisBufferWrite_spec hres hlen
  have hhonest : s.delivered <+:
      encodeAll (answers serve server (received (s.sent ++ s.ac.c.takes res))) := by
    obtain ⟨later, hlater⟩ := Session.received_mono s.sent (s.ac.c.takes res)
    rw [← hlater]
    exact h.honest.trans (encodeAll_isPrefix (answers_isPrefix server _ later))
  rw [Async.handleWrite, hwrite, Option.bind_some] at hs
  cases ok with
  | false =>
    obtain ⟨hsame, hreleasing⟩ := asyncDisconnect_same hs
    refine .of_closing ?_ (by rw [hreleasing]; rfl)
    rw [hsame.delivered, hsame.sent]
    exact hhonest
  | true =>
    obtain rfl := Option.some.inj hs
    exact ⟨hhonest, fun _ => h.drained (by rw [hcontrol]; rfl)⟩

/-- The server gets no longer commands than were sent. -/
theorem Served.received_short {s : Async} (hinv : Inv s) :
    ∀ argv ∈ received s.sent, totalLength argv < 2147483648 := by
  obtain ⟨told, extra, hcore, -⟩ := hinv.core
  exact fun argv h => hcore.short argv ((received_isPrefix hcore.short hcore.wire).1.subset h)

/-- What has come are answers. -/
theorem Served.parse (hspeaks : Speaks serve server) {s : Async} (h : Served serve server s)
    (hinv : Inv s) : ∃ objs, parseReplies s.delivered = (objs, .more) ∧
      objs <+: (answers serve server (received s.sent)).map object :=
  parseReplies_answers hspeaks (Served.received_short hinv) h.honest

/-- The loop over the replies leaves the events alone. -/
theorem Armed.processCallbacks {s s' : Async} (h : Armed s) (hinv : Inv s) {cb : RedisCallback}
    (hcontrol : s.control = .processing cb) (hlen : s.ac.c.reader.buf.length < 2147483648)
    (hs : s.processCallbacks cb = some s') : Armed s' := by
  obtain ⟨-, -, hobuf, -, ⟨hreleasing, -⟩ | ⟨hevRead, hevWrite, -⟩⟩ :=
    processCallbacks_cases hinv hcontrol hlen hs
  · exact .of_closing (by rw [hreleasing]; rfl)
  · refine ⟨fun _ _ => ?_, fun _ _ hfull => ?_⟩
    · rw [hevRead]
      exact h.evRead (by rw [hcontrol]; rfl) (by rw [hcontrol]; simp [AsyncControl.handler])
    · rw [hobuf] at hfull
      rw [hevWrite]
      exact h.evWrite (by rw [hcontrol]; rfl) (by rw [hcontrol]; simp [AsyncControl.handler]) hfull

/-- Each iteration hands out the next reply; when there is none, all that came have been handed
    out. -/
theorem Served.processCallbacks {s s' : Async} (h : Served serve server s) (hinv : Inv s)
    {cb : RedisCallback} (hcontrol : s.control = .processing cb)
    (hlen : s.ac.c.reader.buf.length < 2147483648)
    (hs : s.processCallbacks cb = some s') : Served serve server s' := by
  obtain ⟨hsent, hdelivered, -, -, hrest⟩ := processCallbacks_cases hinv hcontrol hlen hs
  have hhonest : s'.delivered <+: encodeAll (answers serve server (received s'.sent)) := by
    rw [hdelivered, hsent]
    exact h.honest
  rcases hrest with ⟨hreleasing, -⟩ | ⟨-, -, hrest⟩
  · exact .of_closing hhonest (by rw [hreleasing]; rfl)
  · refine ⟨hhonest, fun hwaiting => ?_⟩
    rcases hrest with ⟨-, hhanded, -, reader, hget⟩ | ⟨cb', -, hcb | hcb⟩
    · obtain ⟨hcore, -⟩ := hinv.live (by rw [hcontrol]; rfl)
      have hrun := hcore.run
      rw [List.append_nil] at hrun
      rw [hhanded, hdelivered]
      exact (hrun.exhausted_parse hlen hget).1
    · rw [hcb] at hwaiting
      cases hwaiting
    · rw [hcb] at hwaiting
      cases hwaiting

/-- A callback of the application returns. -/
theorem Armed.returned {s s' : Async} (h : Armed s) (hs : s.step text .returned = some s') :
    Armed s' := by
  obtain ⟨handler, hcontrol, rfl⟩ | ⟨handler, hcontrol, hs⟩ | ⟨cb, hcontrol, rfl⟩ |
      ⟨stage, hcontrol, rfl⟩ | ⟨hcontrol, rfl⟩ := step_returned hs
  · have hevRead := h.evRead (by rw [hcontrol]; rfl)
    have hevWrite := h.evWrite (by rw [hcontrol]; rfl)
    rw [hcontrol] at hevRead hevWrite
    exact ⟨fun _ => hevRead, fun _ => hevWrite⟩
  · obtain ⟨-, hreleasing⟩ := asyncDisconnect_same hs
    exact .of_closing (by rw [hreleasing]; rfl)
  · have hevRead := h.evRead (by rw [hcontrol]; rfl) (by rw [hcontrol]; simp [AsyncControl.handler])
    have hevWrite := h.evWrite (by rw [hcontrol]; rfl) (by rw [hcontrol]; simp [AsyncControl.handler])
    exact ⟨fun _ _ => hevRead, fun _ _ => hevWrite⟩
  · exact .of_closing rfl
  · exact .of_closing rfl

/-- Behind a callback the loop goes on. -/
theorem Served.returned {s s' : Async} (h : Served serve server s)
    (hs : s.step text .returned = some s') : Served serve server s' := by
  obtain ⟨handler, hcontrol, rfl⟩ | ⟨handler, hcontrol, hs⟩ | ⟨cb, hcontrol, rfl⟩ |
      ⟨stage, hcontrol, rfl⟩ | ⟨hcontrol, rfl⟩ := step_returned hs
  · have hdrained := h.drained (by rw [hcontrol]; rfl)
    exact ⟨h.honest, fun _ => hdrained⟩
  · obtain ⟨hsame, hreleasing⟩ := asyncDisconnect_same hs
    exact h.same hsame (Or.inr (by rw [hreleasing]; rfl))
  · refine ⟨h.honest, ?_⟩
    dsimp only
    cases s.ac.freeing <;> rintro ⟨⟩
  · exact .of_closing h.honest rfl
  · exact .of_closing h.honest rfl

/-- Each step that does not find the connection still in progress keeps the events. -/
theorem Armed.step {s s' : Async} (h : Armed s) (hinv : Inv s) {a : AsyncAction D}
    (ha : Ordinary text s a) (hprogress : NotInProgress a) (hs : s.step text a = some s') :
    Armed s' := by
  obtain ⟨hobuf, hbuf, ha⟩ := ha
  cases a with
  | setConnectCallback =>
    obtain ⟨-, hs⟩ := Option.ite_none_right_eq_some.mp hs
    obtain rfl := Option.some.inj hs
    unfold RedisAsyncContext.setConnectCallback
    split
    · exact h
    · exact ⟨h.evRead, fun _ _ _ => rfl⟩
  | setDisconnectCallback =>
    obtain ⟨-, hs⟩ := Option.ite_none_right_eq_some.mp hs
    obtain rfl := Option.some.inj hs
    unfold RedisAsyncContext.setDisconnectCallback
    split
    · exact h
    · exact ⟨h.evRead, h.evWrite⟩
  | command cb argv => exact h.command hinv ha hs
  | commandFormat cb format args =>
    obtain ⟨argv, hformat, hs⟩ | ⟨-, rfl⟩ := step_commandFormat hs
    · exact h.command hinv (ha argv hformat) hs
    · exact h
  | disconnect =>
    obtain ⟨-, hs⟩ := Option.ite_none_right_eq_some.mp hs
    obtain ⟨hsame, hcontrol⟩ := redisAsyncDisconnect_same hs
    exact h.same hsame hcontrol
  | free =>
    obtain ⟨-, hs⟩ := Option.ite_none_right_eq_some.mp hs
    obtain rfl := Option.some.inj hs
    obtain ⟨hsame, hcontrol⟩ := redisAsyncFree_same s
    exact h.same hsame hcontrol
  | returned => exact h.returned hs
  | readable error =>
    obtain ⟨hcontrol, hs⟩ := step_readable hs
    refine h.handleConnect hcontrol (fun hne => absurd rfl hne) (fun _ => rfl) ?_ hs
    rintro text rfl
    exact hprogress
  | writable error =>
    obtain ⟨hcontrol, hs⟩ := step_writable hs
    refine h.handleConnect hcontrol (fun _ => rfl) (fun hne => absurd rfl hne) ?_ hs
    rintro text rfl
    exact hprogress
  | read res =>
    obtain ⟨hcontrol, hs⟩ := step_read hs
    exact h.handleRead hinv hcontrol hs
  | write res =>
    obtain ⟨-, hs⟩ := step_write hs
    exact .handleWrite hobuf ha hs
  | iterate =>
    obtain ⟨cb, hcontrol, hs⟩ | ⟨stage, hcontrol, hs⟩ := step_iterate hs
    · exact h.processCallbacks hinv hcontrol hbuf hs
    · exact .of_closing (asyncFree_closing hs).1

/-- Each step with an honest server keeps the invariant. -/
theorem Served.step {s s' : Async} (h : Served serve server s) (hinv : Inv s) {a : AsyncAction D}
    (ha : Answering serve server text s a) (hs : s.step text a = some s') :
    Served serve server s' := by
  obtain ⟨⟨hobuf, hbuf, ha⟩, hserver⟩ := ha
  cases a with
  | setConnectCallback =>
    obtain ⟨-, hs⟩ := Option.ite_none_right_eq_some.mp hs
    obtain rfl := Option.some.inj hs
    exact ⟨h.honest, h.drained⟩
  | setDisconnectCallback =>
    obtain ⟨-, hs⟩ := Option.ite_none_right_eq_some.mp hs
    obtain rfl := Option.some.inj hs
    exact ⟨h.honest, h.drained⟩
  | command cb argv => exact h.command hinv ha hs
  | commandFormat cb format args =>
    obtain ⟨argv, hformat, hs⟩ | ⟨-, rfl⟩ := step_commandFormat hs
    · exact h.command hinv (ha argv hformat) hs
    · exact h
  | disconnect =>
    obtain ⟨-, hs⟩ := Option.ite_none_right_eq_some.mp hs
    obtain ⟨hsame, hcontrol⟩ := redisAsyncDisconnect_same hs
    exact h.same hsame hcontrol
  | free =>
    obtain ⟨-, hs⟩ := Option.ite_none_right_eq_some.mp hs
    obtain rfl := Option.some.inj hs
    obtain ⟨hsame, hcontrol⟩ := redisAsyncFree_same s
    exact h.same hsame hcontrol
  | returned => exact h.returned hs
  | readable error =>
    obtain ⟨hcontrol, hs⟩ := step_readable hs
    exact h.handleConnect hcontrol hs
  | writable error =>
    obtain ⟨hcontrol, hs⟩ := step_writable hs
    exact h.handleConnect hcontrol hs
  | read res =>
    obtain ⟨hcontrol, hs⟩ := step_read hs
    refine Served.handleRead hinv hcontrol ?_ hs
    have hnone : s.delivered ++ [] <+: encodeAll (answers serve server (received s.sent)) := by
      rw [List.append_nil]
      exact h.honest
    cases res with
    | data buf =>
      rw [RedisContext.brings]
      split
      · exact hserver.2
      · exact hnone
    | eof => exact hnone
    | failed errno text => exact hnone
  | write res =>
    obtain ⟨hcontrol, hs⟩ := step_write hs
    exact h.handleWrite hcontrol hobuf ha hs
  | iterate =>
    obtain ⟨cb, hcontrol, hs⟩ | ⟨stage, hcontrol, hs⟩ := step_iterate hs
    · exact h.processCallbacks hinv hcontrol hbuf hs
    · obtain ⟨hclosed, hsent, hdelivered, -⟩ := asyncFree_closing hs
      refine .of_closing ?_ hclosed
      rw [hdelivered, hsent]
      exact h.honest

/-- By induction on the run: between two events the right ones are registered. -/
theorem armed_of_reachable {s : Async}
    (hs : (machine text).ReachableUnder (fun s a => Ordinary text s a ∧ NotInProgress a) s) :
    Armed s := by
  suffices h : Inv s ∧ Armed s from h.2
  induction hs with
  | init h => exact h ▸ ⟨Inv.start, Armed.start⟩
  | step _ ha hstep ih => exact ⟨ih.1.step ha.1 hstep, ih.2.step ih.1 ha.1 ha.2 hstep⟩

/-- By induction on the run: with an honest server, answers are what has come and been handed
    out. -/
theorem served_of_reachable {s : Async}
    (hs : (machine text).ReachableUnder (Answering serve server text) s) :
    Inv s ∧ Served serve server s := by
  induction hs with
  | init h => exact h ▸ ⟨Inv.start, Served.start⟩
  | step _ ha hstep ih => exact ⟨ih.1.step ha.1 hstep, ih.2.step ih.1 ha hstep⟩

/-! ## The loops -/

/-- What a loop still has to do at most. -/
def variant (s : Async) : ℕ :=
  s.ac.replies.length +
    match s.control with
    | .processing _ => 5
    | .releasing stage => stage.left
    | _ => 0

/-- An iteration over the replies of an honest server fails no assertion. -/
theorem Served.processCallbacks_isSome (hspeaks : Speaks serve server) {s : Async}
    (h : Served serve server s) (hinv : Inv s) {cb : RedisCallback}
    (hcontrol : s.control = .processing cb) (hlen : s.ac.c.reader.buf.length < 2147483648) :
    ∃ s', s.processCallbacks cb = some s' := by
  obtain ⟨hcore, -⟩ := hinv.live (by rw [hcontrol]; rfl)
  obtain ⟨objs, hparse, hpre⟩ := h.parse hspeaks hinv
  have hall := ((received_isPrefix hcore.short hcore.wire).1).length_le
  have hle := hpre.length_le
  rw [List.length_map, length_answers] at hle
  apply Option.ne_none_iff_exists'.mp
  intro hnone
  obtain ⟨hcount, reply, rest, hmore, -⟩ | ⟨-, hundefined⟩ :=
    (hinv.processCallbacks_eq_none hcontrol hlen).mp hnone
  swap
  · rw [hparse] at hundefined
    cases hundefined
  have hlong := congrArg List.length hmore
  rw [hparse, List.length_append, List.length_cons, hcount, hcore.count] at hlong
  dsimp only at hlong
  omega

/-- Nor does one of `__redisAsyncFree`, and it comes closer to the end. -/
theorem asyncFree_variant {s : Async} (hinv : Inv s) {stage : Release}
    (hcontrol : s.control = .releasing stage) :
    ∃ s', s.asyncFree stage = some s' ∧ s'.variant < s.variant := by
  obtain ⟨told, extra, hcore, -, hclosing⟩ := hinv.core
  have hfresh := (hclosing (by rw [hcontrol]; rfl)).fresh
  have hvariant : s.variant = s.ac.replies.length + stage.left := by rw [variant, hcontrol]
  rw [hcontrol] at hfresh
  rw [hvariant]
  cases stage with
  | replies =>
    cases hqueue : s.ac.replies with
    | nil =>
      refine ⟨_, by rw [asyncFree, hqueue], ?_⟩
      show s.ac.replies.length + 3 < 0 + 4
      rw [hqueue]
      decide
    | cons cb replies =>
      refine ⟨_, by rw [asyncFree, hqueue], ?_⟩
      rw [runCallback_eq, variant, List.length_cons]
      dsimp only [Release.left]
      cases cb.fn.isSome <;> simp only [Bool.false_eq_true, if_false, if_true] <;> omega
  | invalid =>
    refine ⟨_, by rw [asyncFree, hcore.invalid], ?_⟩
    show s.ac.replies.length + 2 < s.ac.replies.length + 3
    omega
  | channels it =>
    obtain ⟨it', hnext⟩ := dictNext_create_fresh hfresh
    refine ⟨_, by rw [asyncFree, hcore.channels, hnext, Option.map_some], ?_⟩
    show s.ac.replies.length + 1 < s.ac.replies.length + 2
    omega
  | patterns it =>
    obtain ⟨it', hnext⟩ := dictNext_create_fresh hfresh
    refine ⟨_, by rw [asyncFree, hcore.patterns, hnext, Option.map_some], ?_⟩
    unfold asyncFreed
    dsimp only
    split
    · show s.ac.replies.length + 0 < s.ac.replies.length + 1
      omega
    · show s.ac.replies.length + 0 < s.ac.replies.length + 1
      omega

/-- One more iteration of a loop. -/
theorem iterate_variant (hspeaks : Speaks serve server) {s : Async}
    (hs : (machine text).ReachableUnder (Answering serve server text) s)
    (hobuf : s.ac.c.obuf.length < 2147483648) (hbuf : s.ac.c.reader.buf.length < 2147483648)
    (hloop : s.control.looping = true) :
    ∃ s', (machine text).step s .iterate = some s' ∧
      (machine text).ReachableUnder (Answering serve server text) s' ∧
      s'.ac.c.obuf = s.ac.c.obuf ∧ s'.ac.c.reader.buf.length ≤ s.ac.c.reader.buf.length ∧
      s'.variant < s.variant := by
  obtain ⟨hinv, hserved⟩ := served_of_reachable hs
  cases hcontrol : s.control with
  | processing cb =>
    obtain ⟨s', hs'⟩ := hserved.processCallbacks_isSome hspeaks hinv hcontrol hbuf
    have hstep : (machine text).step s .iterate = some s' := by
      show s.step text .iterate = _
      rw [Async.step, hcontrol]
      exact hs'
    obtain ⟨-, -, hout, hshrinks, hrest⟩ := processCallbacks_cases hinv hcontrol hbuf hs'
    refine ⟨s', hstep, hs.step ⟨⟨hobuf, hbuf, trivial⟩, trivial⟩ hstep, hout, hshrinks, ?_⟩
    rw [variant, variant, hcontrol]
    rcases hrest with ⟨hc, hreplies⟩ | ⟨-, -, ⟨hc, -, hreplies, -⟩ | ⟨cb', hreplies, hc⟩⟩
    · rw [hc, hreplies]
      show s.ac.replies.length + 4 < s.ac.replies.length + 5
      omega
    · rw [hc, hreplies]
      show s.ac.replies.length + 0 < s.ac.replies.length + 5
      omega
    · rw [hreplies, List.length_cons]
      rcases hc with hc | hc <;> rw [hc] <;> dsimp only <;> omega
  | releasing stage =>
    obtain ⟨s', hs', hless⟩ := asyncFree_variant hinv hcontrol
    have hstep : (machine text).step s .iterate = some s' := by
      show s.step text .iterate = _
      rw [Async.step, hcontrol]
      exact hs'
    obtain ⟨-, -, -, hc⟩ := asyncFree_closing hs'
    exact ⟨s', hstep, hs.step ⟨⟨hobuf, hbuf, trivial⟩, trivial⟩ hstep, by rw [hc], by rw [hc],
      hless⟩
  | _ => rw [hcontrol] at hloop; cases hloop

/-! ## A run -/

/-- `P` is written, and there is no reply yet. -/
def waitingP : Async where
  ac := { RedisAsyncContext.asyncInitialize (.init false) with
    connected := true
    evWrite := false
    replies := [cbP] }
  control := .idle
  sent := encode (argvReply [[80]])
  delivered := []
  registered := [cbP]
  appended := [[[80]]]
  handed := []
  calls := []
  connects := []
  disconnects := []

/-- The connection is made and `P` written. -/
theorem waitingP_reachable : (machine Session.noText).ReachableUnder
    (fun s a => Answering Session.five () Session.noText s a ∧ NotInProgress a) waitingP := by
  have hwire : encode (argvReply [[80]]) = [42, 49, 13, 10, 36, 49, 13, 10, 80, 13, 10] := by decide
  have h₁ := (Lts.ReachableUnder.init (m := machine Session.noText)
    (C := fun s a => Answering Session.five () Session.noText s a ∧ NotInProgress a) rfl).step
    (l := .command cbP [[80]]) ⟨⟨⟨by decide, by decide, regular_p⟩, trivial⟩, by exact trivial⟩
    (step_command rfl rfl (by decide) regular_p)
  rw [hwire] at h₁
  have h₂ := h₁.step (l := .writable .none)
    ⟨⟨⟨by decide, by decide, trivial⟩, trivial⟩, by exact trivial⟩ rfl
  exact h₂.step (l := .write (.wrote 11))
    ⟨⟨⟨by decide, by decide, show 11 ≤ 11 by decide⟩, trivial⟩, by exact trivial⟩ rfl

/-- The answer has come, and is being looked at. -/
def processingP : Async :=
  { waitingP with
    ac := { waitingP.ac with
      c := { RedisContext.init false with reader := ⟨0, [], [58, 53, 13, 10], 0, [], none⟩ } }
    control := .processing ⟨none, 0⟩
    delivered := [58, 53, 13, 10] }

/-- Then 5 is read. -/
theorem processingP_reachable : (machine Session.noText).ReachableUnder
    (Answering Session.five () Session.noText) processingP := by
  have hreceived : received (encode (argvReply [[80]])) = [[[80]]] := by
    refine (@received_isPrefix _ [] [[[80]]] ?_ ?_).2 rfl
    · intro argv hmem
      rw [List.mem_singleton.mp hmem]
      exact regular_p.1
    · rfl
  have hserver : [58, 53, 13, 10] <+:
      encodeAll (answers Session.five () (received (encode (argvReply [[80]])))) := by
    rw [hreceived]
    decide
  have h₁ := (waitingP_reachable.mono fun _ _ ha => ha.1).step (l := .readable .none)
    ⟨⟨by decide, by decide, trivial⟩, trivial⟩ rfl
  exact h₁.step (l := .read (.data [58, 53, 13, 10]))
    ⟨⟨by decide, by decide, trivial⟩, by decide, hserver⟩ rfl

/-! ## Results -/

/-- The replies that have been handed out are the first answers to the commands. -/
theorem Served.handed_isPrefix (hspeaks : Speaks serve server) {s : Async}
    (h : Served serve server s) (hinv : Inv s) :
    s.handed <+: (answers serve server (received s.sent)).map object := by
  obtain ⟨told, extra, hcore, -⟩ := hinv.core
  obtain ⟨objs, hparse, hpre⟩ := h.parse hspeaks hinv
  have hrun := hcore.run.prefix_parse
  rw [hparse] at hrun
  exact ((List.prefix_append _ _).trans hrun).trans hpre

/-- Every callback is given the answer to its own command: the calls are those of the first
    `n` callbacks with the first `n` answers, and then of `k` callbacks with `NULL`, which are
    there only when the context is torn down. -/
theorem answered (hspeaks : Speaks serve server) {s : Async}
    (hs : (machine text).ReachableUnder (Answering serve server text) s) :
    s.registered.length = s.appended.length ∧ ∃ n k, n ≤ (received s.sent).length ∧
      s.calls = notices (s.registered.take (n + k))
        ((((answers serve server s.appended).map object).take n).map some ++ .replicate k none) ∧
      (s.control.closing = false → k = 0) ∧
      (s.control.emptied = true → n + k = s.registered.length) := by
  obtain ⟨hinv, hserved⟩ := served_of_reachable hs
  have hpre := hserved.handed_isPrefix hspeaks hinv
  obtain ⟨⟨told, extra, hcore, hopen, hclosing⟩, -, -⟩ := hinv
  obtain ⟨later, hlater⟩ := (received_isPrefix hcore.short hcore.wire).1
  have hall : s.handed <+: (answers serve server s.appended).map object := by
    rw [← hlater]
    exact hpre.trans ((answers_isPrefix server _ later).map object)
  have hlen := hpre.length_le
  rw [List.length_map, length_answers] at hlen
  refine ⟨hcore.count, s.handed.length, told, hlen, ?_, fun hlive => (hopen hlive).1, fun hempty => ?_⟩
  · rw [← List.prefix_iff_eq_take.mp hall]
    exact hcore.calls
  · have hnil := (hclosing (AsyncControl.closing_of_emptied hempty)).emptied hempty
    have := List.drop_eq_nil_iff.mp (hcore.queue.symm.trans hnil)
    have := hcore.le
    omega

/-- In the callback of `P` the application sends `Q` and frees the context. -/
theorem answered_p : ∃ s : Async, s.calls = [(cbP, some (.integer 5)), (cbQ, none)] ∧ ∃ n k,
    s.calls = notices (s.registered.take (n + k))
      ((((answers Session.five () s.appended).map object).take n).map some ++ .replicate k none) := by
  have h₁ := processingP_reachable.step (l := .iterate) ⟨⟨by decide, by decide, trivial⟩, trivial⟩ rfl
  have h₂ := h₁.step (l := .command cbQ [[81]]) ⟨⟨by decide, by decide, regular_q⟩, trivial⟩
    (step_command rfl rfl (by decide) regular_q)
  have h₃ := h₂.step (l := .free) ⟨⟨by decide, by decide, trivial⟩, trivial⟩ rfl
  have h₄ := h₃.step (l := .returned) ⟨⟨by decide, by decide, trivial⟩, trivial⟩ rfl
  have h₅ := h₄.step (l := .iterate) ⟨⟨by decide, by decide, trivial⟩, trivial⟩ rfl
  obtain ⟨-, n, k, -, hcalls, -⟩ := answered Session.five_speaks h₅
  exact ⟨_, rfl, n, k, hcalls⟩

/-- While the application waits for a reply, it is not in vain: the event library has been
    told to wait for input, and it has been told to wait for output too if there is any;
    else all commands are at the server, and it has more to send. An event that finds the
    connection still in progress is the one exception: it is not added again. -/
theorem pending (hspeaks : Speaks serve server) {s : Async}
    (hs : (machine text).ReachableUnder
      (fun s a => Answering serve server text s a ∧ NotInProgress a) s)
    (hcontrol : s.control = .idle) (hless : s.handed.length < s.registered.length) :
    s.ac.evRead = true ∧
      (s.ac.c.obuf ≠ [] ∧ s.ac.evWrite = true ∨
        received s.sent = s.appended ∧ ∃ buf, buf ≠ [] ∧
          s.delivered ++ buf = encodeAll (answers serve server (received s.sent))) := by
  obtain ⟨hinv, hserved⟩ := served_of_reachable (hs.mono fun _ _ ha => ha.1)
  have harmed := armed_of_reachable (hs.mono fun _ _ ha => ⟨ha.1.1, ha.2⟩)
  obtain ⟨hcore, -⟩ := hinv.live (by rw [hcontrol]; rfl)
  have hhandler : s.control.handler = none := by rw [hcontrol]; rfl
  refine ⟨harmed.evRead (by rw [hcontrol]; rfl) (by rw [hhandler]; simp), ?_⟩
  by_cases hempty : s.ac.c.obuf = []
  · have hall := (received_isPrefix hcore.short hcore.wire).2 hempty
    obtain ⟨buf, hbuf⟩ := hserved.honest
    refine Or.inr ⟨hall, buf, ?_, hbuf⟩
    rintro rfl
    rw [List.append_nil] at hbuf
    have hparse := parseReplies_encodeAll (hspeaks (received s.sent) (Served.received_short hinv))
      (show parseItem 8 [] = .more by rw [parseItem])
    rw [List.append_nil, ← hbuf] at hparse
    rw [hserved.drained (by rw [hcontrol]; rfl), hparse, List.length_map, length_answers, hall,
      hcore.count] at hless
    exact lt_irrefl _ hless
  · exact Or.inl ⟨hempty, harmed.evWrite (by rw [hcontrol]; rfl) (by rw [hhandler]; simp) hempty⟩

/-- The read event is registered, and the server has the answer. -/
theorem pending_p : waitingP.ac.evRead = true ∧
    (waitingP.ac.c.obuf ≠ [] ∧ waitingP.ac.evWrite = true ∨
      received waitingP.sent = waitingP.appended ∧ ∃ buf, buf ≠ [] ∧
        waitingP.delivered ++ buf = encodeAll (answers Session.five () (received waitingP.sent))) :=
  pending Session.five_speaks waitingP_reachable rfl (by decide)

/-- No handler aborts, and every one comes to its end: as long as the application is not
    called, its loop goes on for at most as many iterations as there are callbacks, and five. -/
theorem returns (hspeaks : Speaks serve server) {s : Async}
    (hs : (machine text).ReachableUnder (Answering serve server text) s)
    (hobuf : s.ac.c.obuf.length < 2147483648) (hbuf : s.ac.c.reader.buf.length < 2147483648) :
    ∃ n s', n ≤ s.ac.replies.length + 5 ∧ (machine text).run s (.replicate n .iterate) = some s' ∧
      (machine text).ReachableUnder (Answering serve server text) s' ∧
      s'.control.looping = false := by
  have hvariant : s.variant ≤ s.ac.replies.length + 5 := by
    rw [variant]
    split
    · exact le_rfl
    · exact Nat.add_le_add_left (Release.left_le _) _
    · exact Nat.le_add_right _ _
  suffices h : ∀ n (s : Async), (machine text).ReachableUnder (Answering serve server text) s →
      s.ac.c.obuf.length < 2147483648 → s.ac.c.reader.buf.length < 2147483648 → s.variant ≤ n →
      ∃ k s', k ≤ n ∧ (machine text).run s (.replicate k .iterate) = some s' ∧
        (machine text).ReachableUnder (Answering serve server text) s' ∧
        s'.control.looping = false by
    obtain ⟨k, s', hk, h⟩ := h s.variant s hs hobuf hbuf le_rfl
    exact ⟨k, s', hk.trans hvariant, h⟩
  intro n
  induction n with
  | zero =>
    intro s hs hobuf hbuf hle
    cases hloop : s.control.looping with
    | false => exact ⟨0, s, le_rfl, rfl, hs, hloop⟩
    | true =>
      obtain ⟨s', -, -, -, -, hless⟩ := iterate_variant hspeaks hs hobuf hbuf hloop
      omega
  | succ n ih =>
    intro s hs hobuf hbuf hle
    cases hloop : s.control.looping with
    | false => exact ⟨0, s, Nat.zero_le _, rfl, hs, hloop⟩
    | true =>
      obtain ⟨s₁, hstep, hs₁, hout, hshrinks, hless⟩ :=
        iterate_variant hspeaks hs hobuf hbuf hloop
      obtain ⟨k, s', hk, hrun, hs', hlast⟩ :=
        ih s₁ hs₁ (by rw [hout]; exact hobuf) (hshrinks.trans_lt hbuf) (by omega)
      refine ⟨k + 1, s', Nat.succ_le_succ hk, ?_, hs', hlast⟩
      rw [List.replicate_succ, Lts.run_cons hstep]
      exact hrun

/-- The reply, no further reply, and the loop is over. -/
theorem returns_p : ∃ n s', n ≤ 6 ∧
    (machine Session.noText).run processingP (.replicate n .iterate) = some s' ∧
    s'.control.looping = false := by
  obtain ⟨n, s', hle, hrun, -, hlast⟩ :=
    returns Session.five_speaks processingP_reachable (by decide) (by decide)
  exact ⟨n, s', hle, hrun, hlast⟩

end Invariant

end Async

end Hiredispool.Hiredis
