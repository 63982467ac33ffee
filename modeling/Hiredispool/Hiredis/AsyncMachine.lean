import Hiredispool.Hiredis.Async
import Hiredispool.Hiredis.Session

/-!
# Asynchronous contexts as a transition system

The functions of `async.c` that call the application (lines 265–362, 411–562), and the runs in
which the event library, the socket and the application do their steps in any order. The
application may use the context inside its callbacks, but in those for the connection it does
not free or disconnect it: the functions that call them go on with the context.

A state has its history: what `write` took and what `read` brought, the callbacks of the
commands that got one, the commands that were appended, the replies that were handed to
these callbacks, and the calls.

* `step`: one action of the event library, of the socket or of the application, or one
  iteration of a loop of the context.
* `asyncDisconnect_eq`, `asyncFree_cases`, `handleConnect_cases`: what the pieces may do, for
  the invariants.
-/

namespace Hiredispool.Hiredis

open Hiredispool.Pool (Bytes cStr)
open Hiredispool.Client (Arg Num)

/-! ## States -/

/-- The event handler that is being executed. -/
inductive Handler
  | read
  | write

/-- The loop of `__redisAsyncFree` that is being executed (lines 282, 286, 291 and 297), with
    its iterator. -/
inductive Release
  | replies
  | invalid
  | channels (it : DictIterator Name)
  | patterns (it : DictIterator Name)

/-- Where the execution is: in no function of the context, in `onConnect`, in a handler
    after that, at the top of the loop of `redisProcessCallbacks`, in a callback that this
    loop calls, at the top of a loop of `__redisAsyncFree`, in a callback that this one
    calls, in `onDisconnect`, or behind all of it. -/
inductive AsyncControl
  | idle
  | connecting (ok : Bool) (handler : Handler)
  | handling (handler : Handler)
  | processing (cb : RedisCallback)
  | replying (cb : RedisCallback)
  | releasing (stage : Release)
  | notifying (stage : Release)
  | disconnected
  | freed

/-- The application is being executed. -/
def AsyncControl.isOpen : AsyncControl → Bool
  | .idle => true
  | .connecting _ _ => true
  | .replying _ => true
  | .notifying _ => true
  | .disconnected => true
  | _ => false

/-- The application may free or disconnect the context. -/
def AsyncControl.mayFree : AsyncControl → Bool
  | .idle => true
  | .replying _ => true
  | .notifying _ => true
  | _ => false

/-- The event data of the adapter are there: line 303 frees them before `onDisconnect` is called. -/
def AsyncControl.hasEvents : AsyncControl → Bool
  | .disconnected => false
  | .freed => false
  | _ => true

/-- A call of a callback for a reply, with the reply or `NULL`. -/
abbrev Notice := RedisCallback × Option ReplyObject

/-- A context with its history, which is not in the program. -/
structure Async where
  ac : RedisAsyncContext
  control : AsyncControl
  sent : Bytes
  delivered : Bytes
  registered : List RedisCallback
  appended : List (List Bytes)
  handed : List ReplyObject
  calls : List Notice
  connects : List Bool
  disconnects : List Bool

/-- What `redisCheckSocketError` finds (`net.c`, lines 236–252); an error comes with the text
    that is reported. `EINPROGRESS` is one, too. -/
inductive SocketError
  | none
  | inProgress (text : Bytes)
  | failed (text : Bytes)

/-- What the application, the event library and the socket do. `iterate` is one more iteration
    of the loop that the context is in, and `returned` the end of a callback. -/
inductive AsyncAction (D : Type)
  | setConnectCallback
  | setDisconnectCallback
  | command (cb : RedisCallback) (argv : List Bytes)
  | commandFormat (cb : RedisCallback) (format : Bytes) (args : List (Arg D))
  | disconnect
  | free
  -- a callback of the application returns
  | returned
  -- the event library calls a handler
  | readable (error : SocketError)
  | writable (error : SocketError)
  | read (res : ReadResult)
  | write (res : WriteResult)
  -- the loops go on
  | iterate

namespace Async

/-! ## Disconnecting -/

/-- `__redisRunCallback` (lines 265–272) up to the return of the callback; `after` is where
    it is called, `during` where the execution is if there is a callback. -/
def runCallback (cb : RedisCallback) (reply : Option ReplyObject) (after during : AsyncControl)
    (s : Async) : Async :=
  if cb.fn.isSome then
    { s with
      ac := { s.ac with inCallback := true }
      control := during
      calls := s.calls ++ [(cb, reply)] }
  else { s with control := after }

/-- Lines 302–316: the events are cleaned up, and `onDisconnect` is called if there was a
    connection. -/
def asyncFreed (s : Async) : Async :=
  let s := { s with ac := { s.ac with evRead := false, evWrite := false } }
  if s.ac.onDisconnect ∧ s.ac.connected then
    { s with
      control := .disconnected
      disconnects := s.disconnects ++ [if s.ac.freeing then true else decide (s.ac.err = 0)] }
  else { s with control := .freed }

/-- One iteration of a loop of `__redisAsyncFree` (lines 281–300): the next callback is called
    with `NULL`, or the next loop begins. -/
def asyncFree (stage : Release) (s : Async) : Option Async :=
  match stage with
  | .replies =>
    match s.ac.replies with
    | cb :: replies =>
      some ({ s with ac := { s.ac with replies := replies } }.runCallback cb none
        (.releasing .replies) (.notifying .replies))
    | [] => some { s with control := .releasing .invalid }
  | .invalid =>
    match s.ac.invalid with
    | cb :: invalid =>
      some ({ s with ac := { s.ac with invalid := invalid } }.runCallback cb none
        (.releasing .invalid) (.notifying .invalid))
    | [] => some { s with control := .releasing (.channels Dict.getIterator) }
  | .channels it =>
    (s.ac.channels.dictNext callbackDict it).map fun (it, de) =>
      match de with
      | some de =>
        s.runCallback de.2 none (.releasing (.channels it)) (.notifying (.channels it))
      | none => { s with control := .releasing (.patterns Dict.getIterator) }
  | .patterns it =>
    (s.ac.patterns.dictNext callbackDict it).map fun (it, de) =>
      match de with
      | some de =>
        s.runCallback de.2 none (.releasing (.patterns it)) (.notifying (.patterns it))
      | none => s.asyncFreed

/-- `__redisAsyncDisconnect` (lines 331–349), up to `__redisAsyncFree`. Without an error no
    callback may be left: the assertion of line 339. -/
def asyncDisconnect (s : Async) : Option Async :=
  let s := { s with ac := { s.ac with err := s.ac.c.err } }
  if s.ac.err = 0 then
    -- the assertion that there is no callback to be shifted
    if s.ac.replies = [] then some { s with control := .releasing .replies } else none
  else some { s with ac := { s.ac with disconnecting := true }, control := .releasing .replies }

/-- `redisAsyncFree` (lines 323–328): inside a callback of a command it only sets a flag, which
    the loop looks at (line 473). -/
def redisAsyncFree (s : Async) : Async :=
  let s := { s with ac := { s.ac with freeing := true } }
  if !s.ac.inCallback then { s with control := .releasing .replies } else s

/-- `redisAsyncDisconnect` (lines 357–362): no more commands are taken, and the context goes at
    once if there is nothing to wait for. -/
def redisAsyncDisconnect (s : Async) : Option Async :=
  let s := { s with ac := { s.ac with disconnecting := true } }
  if !s.ac.inCallback ∧ s.ac.replies = [] then s.asyncDisconnect else some s

/-- What `__redisAsyncDisconnect` leaves. -/
theorem asyncDisconnect_eq {s s' : Async} (hs : s.asyncDisconnect = some s') :
    ∃ disconnecting, s' = { s with
        ac := { s.ac with err := s.ac.c.err, disconnecting := disconnecting }
        control := .releasing .replies } ∧
      (s.ac.c.err ≠ 0 ∧ disconnecting = true ∨
        s.ac.c.err = 0 ∧ s.ac.replies = [] ∧ disconnecting = s.ac.disconnecting) := by
  unfold asyncDisconnect at hs
  dsimp only at hs
  split at hs
  · next herr =>
    split at hs
    · next hempty =>
      obtain rfl := Option.some.inj hs
      exact ⟨_, rfl, Or.inr ⟨herr, hempty, rfl⟩⟩
    · cases hs
  · next herr =>
    obtain rfl := Option.some.inj hs
    exact ⟨_, rfl, Or.inl ⟨herr, rfl⟩⟩

/-- What an iteration of `__redisAsyncFree` may do: it calls a callback, or goes on with the
    next loop, or is at its end. -/
theorem asyncFree_cases {s s' : Async} {stage : Release} (hs : s.asyncFree stage = some s') :
    (∃ replies invalid cb stage, s' = { s with
        ac := { s.ac with replies := replies, invalid := invalid } }.runCallback cb none
          (.releasing stage) (.notifying stage)) ∨
      (∃ stage, s' = { s with control := .releasing stage }) ∨ s' = s.asyncFreed := by
  cases stage with
  | replies =>
    rw [asyncFree] at hs
    split at hs <;> obtain rfl := Option.some.inj hs
    · exact Or.inl ⟨_, _, _, _, rfl⟩
    · exact Or.inr (Or.inl ⟨_, rfl⟩)
  | invalid =>
    rw [asyncFree] at hs
    split at hs <;> obtain rfl := Option.some.inj hs
    · exact Or.inl ⟨_, _, _, _, rfl⟩
    · exact Or.inr (Or.inl ⟨_, rfl⟩)
  | channels it =>
    obtain ⟨⟨it', de⟩, -, heq⟩ := Option.map_eq_some_iff.mp hs
    cases de with
    | none => exact Or.inr (Or.inl ⟨_, heq.symm⟩)
    | some de => exact Or.inl ⟨_, _, _, _, heq.symm⟩
  | patterns it =>
    obtain ⟨⟨it', de⟩, -, heq⟩ := Option.map_eq_some_iff.mp hs
    cases de with
    | none => exact Or.inr (Or.inr heq.symm)
    | some de => exact Or.inl ⟨_, _, _, _, heq.symm⟩

/-! ## Replies -/

/-- One iteration of the loop of `redisProcessCallbacks` (lines 417–484), up to the return of
    the callback, and what comes behind the loop. `cb` is the variable of line 413: it keeps its
    value from one iteration to the next. -/
def processCallbacks (cb : RedisCallback) (s : Async) : Option Async :=
  s.ac.c.getReplyEnter.bind fun (c, result) =>
    let s := { s with ac := { s.ac with c := c } }
    match result with
    | .returned false _ => s.asyncDisconnect
    | .returned true none =>
      if s.ac.disconnecting ∧ c.obuf.length = 0 ∧ s.ac.replies = [] then s.asyncDisconnect
      else if s.ac.monitoring then
        some { s with ac := { s.ac with replies := s.ac.replies ++ [cb] }, control := .idle }
      else some { s with control := .idle }
    | .returned true (some reply) =>
      match s.ac.replies with
      | cb :: replies =>
        some ({ s with
          ac := { s.ac with replies := replies }
          handed := s.handed ++ [reply] }.runCallback cb (some reply) (.processing cb) (.replying cb))
      | [] =>
        match reply with
        | .error str => { s with ac := { s.ac with c := c.setError 2 (cStr str) } }.asyncDisconnect
        | reply =>
          if !s.ac.subscribed ∧ !s.ac.monitoring then none
          else if s.ac.subscribed then
            (s.ac.getSubscribeCallback reply cb).map fun (ac, cb) =>
              { s with ac := ac }.runCallback cb (some reply) (.processing cb) (.replying cb)
          else some (s.runCallback cb (some reply) (.processing cb) (.replying cb))
    | _ => none

/-! ## Events -/

/-- `__redisAsyncHandleConnect` (lines 494–511) up to the return of `onConnect`, in a
    handler that goes on when the context is connected. -/
def handleConnect (error : SocketError) (handler : Handler) (s : Async) : Option Async :=
  if s.ac.connected then some { s with control := .handling handler }
  else
    match error with
    | .inProgress text =>
      some { s with ac := { s.ac with c := s.ac.c.setError 1 text }, control := .idle }
    | .failed text =>
      let s := { s with ac := { s.ac with c := s.ac.c.setError 1 text } }
      if s.ac.onConnect then
        some { s with control := .connecting false handler, connects := s.connects ++ [false] }
      else s.asyncDisconnect
    | .none =>
      let s := { s with ac := { s.ac with connected := true } }
      if s.ac.onConnect then
        some { s with control := .connecting true handler, connects := s.connects ++ [true] }
      else some { s with control := .handling handler }

/-- What the first event on a connection may do: the context is connected before, or its error
    is kept for the next event, or told to `onConnect` or to `onDisconnect`, or it is connected
    now, which `onConnect` is told. -/
theorem handleConnect_cases {s s' : Async} {error : SocketError} {handler : Handler}
    (hs : s.handleConnect error handler = some s') :
    (s.ac.connected = true ∧ s' = { s with control := .handling handler }) ∨
      s.ac.connected = false ∧
        ((∃ text, error = .inProgress text ∧
            s' = { s with ac := { s.ac with c := s.ac.c.setError 1 text }, control := .idle }) ∨
          (∃ text, error = .failed text ∧ s.ac.onConnect = true ∧
            s' = { s with
              ac := { s.ac with c := s.ac.c.setError 1 text }
              control := .connecting false handler
              connects := s.connects ++ [false] }) ∨
          (∃ text, error = .failed text ∧ s.ac.onConnect = false ∧
            { s with ac := { s.ac with c := s.ac.c.setError 1 text } }.asyncDisconnect = some s') ∨
          (error = .none ∧ s.ac.onConnect = true ∧
            s' = { s with
              ac := { s.ac with connected := true }
              control := .connecting true handler
              connects := s.connects ++ [true] }) ∨
          (error = .none ∧ s.ac.onConnect = false ∧
            s' = { s with ac := { s.ac with connected := true }, control := .handling handler })) := by
  unfold handleConnect at hs
  split at hs
  · next hconnected => exact Or.inl ⟨hconnected, (Option.some.inj hs).symm⟩
  · next hnot =>
    refine Or.inr ⟨Bool.eq_false_iff.mpr hnot, ?_⟩
    cases error with
    | inProgress text => exact Or.inl ⟨text, rfl, (Option.some.inj hs).symm⟩
    | failed text =>
      refine Or.inr ?_
      dsimp only at hs
      split at hs
      · next hon => exact Or.inl ⟨text, rfl, hon, (Option.some.inj hs).symm⟩
      · next hon => exact Or.inr (Or.inl ⟨text, rfl, Bool.eq_false_iff.mpr hon, hs⟩)
    | none =>
      refine Or.inr (Or.inr (Or.inr ?_))
      dsimp only at hs
      split at hs
      · next hon => exact Or.inl ⟨rfl, hon, (Option.some.inj hs).symm⟩
      · next hon => exact Or.inr ⟨rfl, Bool.eq_false_iff.mpr hon, (Option.some.inj hs).symm⟩

/-- `redisAsyncHandleRead` (lines 528–534): what has come is fed, and reading goes on. -/
def handleRead (res : ReadResult) (s : Async) : Option Async :=
  let s := { s with delivered := s.delivered ++ s.ac.c.brings res }
  match s.ac.c.redisBufferRead res with
  | (c, false) => { s with ac := { s.ac with c := c } }.asyncDisconnect
  | (c, true) =>
    some { s with ac := { s.ac with c := c, evRead := true }, control := .processing ⟨none, 0⟩ }

/-- `redisAsyncHandleWrite` (lines 550–561): writing goes on while there is something to write,
    and "always schedule reads after writes". -/
def handleWrite (res : WriteResult) (s : Async) : Option Async :=
  let s := { s with sent := s.sent ++ s.ac.c.takes res }
  (s.ac.c.redisBufferWrite res).bind fun (c, ok, done) =>
    if !ok then { s with ac := { s.ac with c := c } }.asyncDisconnect
    else some { s with ac := { s.ac with c := c, evWrite := !done, evRead := true }, control := .idle }

/-! ## Steps -/

/-- After a command: the callbacks that it has put into the queue, and what it appended. This is
    history only. -/
def registerAt (s : Async) (ac : RedisAsyncContext) (argvs : List (List Bytes)) : Async :=
  { s with
    ac := ac
    registered := s.registered ++ ac.replies.drop s.ac.replies.length
    appended := s.appended ++ argvs }

/-- The steps; `none` if it is not the turn of the action, if an assertion fails, or if C gives
    no meaning. A handler takes its event with it, since no event is persistent. -/
def step {D : Type} (text : Bytes → Num D → Bytes) (s : Async) : AsyncAction D → Option Async
  | .setConnectCallback =>
    -- `_EL_ADD_WRITE`, unless the callback is refused
    if s.control.isOpen ∧ (s.ac.onConnect ∨ s.control.hasEvents) then
      some { s with ac := s.ac.setConnectCallback.1 }
    else none
  | .setDisconnectCallback =>
    if s.control.isOpen then some { s with ac := s.ac.setDisconnectCallback.1 } else none
  | .command cb argv =>
    if s.control.isOpen then
      (s.ac.asyncCommandArgv cb argv).map fun (ac, ok) => s.registerAt ac (if ok then [argv] else [])
    else none
  | .commandFormat cb format args =>
    if s.control.isOpen then
      (s.ac.vAsyncCommand text cb format args).map fun (ac, ok) =>
        s.registerAt ac <| match ok, Client.redisvFormatCommand text format args with
          | true, .ok argv => [argv]
          | _, _ => []
    else none
  | .disconnect => if s.control.mayFree then s.redisAsyncDisconnect else none
  | .free => if s.control.mayFree then some s.redisAsyncFree else none
  | .returned =>
    match s.control with
    | .connecting true handler => some { s with control := .handling handler }
    | .connecting false _ => s.asyncDisconnect
    | .replying cb =>
      -- lines 466–470
      let s := { s with ac := { s.ac with inCallback := false } }
      some { s with control := if s.ac.freeing then .releasing .replies else .processing cb }
    | .notifying stage =>
      some { s with ac := { s.ac with inCallback := false }, control := .releasing stage }
    | .disconnected => some { s with control := .freed }
    | _ => none
  | .readable error =>
    match s.control with
    | .idle =>
      if s.ac.evRead then
        { s with ac := { s.ac with evRead := false } }.handleConnect error .read
      else none
    | _ => none
  | .writable error =>
    match s.control with
    | .idle =>
      if s.ac.evWrite then
        { s with ac := { s.ac with evWrite := false } }.handleConnect error .write
      else none
    | _ => none
  | .read res =>
    match s.control with
    | .handling .read => s.handleRead res
    | _ => none
  | .write res =>
    match s.control with
    | .handling .write => s.handleWrite res
    | _ => none
  | .iterate =>
    match s.control with
    | .processing cb => s.processCallbacks cb
    | .releasing stage => s.asyncFree stage
    | _ => none

/-- A command that is refused leaves no trace. -/
theorem registerAt_self (s : Async) : s.registerAt s.ac [] = s := by
  rw [registerAt, List.drop_length, List.append_nil, List.append_nil]

/-- A step with a format is one with the arguments that it stands for, or changes nothing. -/
theorem step_commandFormat {D : Type} {text : Bytes → Num D → Bytes} {s s' : Async}
    {cb : RedisCallback} {format : Bytes} {args : List (Arg D)}
    (hs : s.step text (.commandFormat cb format args) = some s') :
    (∃ argv, Client.redisvFormatCommand text format args = .ok argv ∧
        s.step text (.command cb argv) = some s') ∨
      Client.redisvFormatCommand text format args = .error .invalid ∧ s' = s := by
  obtain ⟨hopen, hs⟩ := Option.ite_none_right_eq_some.mp hs
  obtain ⟨⟨ac, ok⟩, hcommand, rfl⟩ := Option.map_eq_some_iff.mp hs
  rcases RedisAsyncContext.vAsyncCommand_cases hcommand with
    ⟨argv, hformat, hargv⟩ | ⟨hformat, heq⟩
  · refine Or.inl ⟨argv, hformat, ?_⟩
    rw [step, if_pos hopen, hargv, hformat]
    cases ok <;> rfl
  · obtain ⟨rfl, rfl⟩ := Prod.mk.inj heq
    rw [hformat]
    exact Or.inr ⟨rfl, registerAt_self s⟩

/-- The readable handler is called on an idle context, and takes its event with it. -/
theorem step_readable {D : Type} {text : Bytes → Num D → Bytes} {s s' : Async}
    {error : SocketError} (hs : s.step text (.readable error) = some s') :
    s.control = .idle ∧
      { s with ac := { s.ac with evRead := false } }.handleConnect error .read = some s' := by
  rw [step] at hs
  split at hs
  · next hcontrol => exact ⟨hcontrol, (Option.ite_none_right_eq_some.mp hs).2⟩
  · cases hs

/-- So is the writable handler. -/
theorem step_writable {D : Type} {text : Bytes → Num D → Bytes} {s s' : Async}
    {error : SocketError} (hs : s.step text (.writable error) = some s') :
    s.control = .idle ∧
      { s with ac := { s.ac with evWrite := false } }.handleConnect error .write = some s' := by
  rw [step] at hs
  split at hs
  · next hcontrol => exact ⟨hcontrol, (Option.ite_none_right_eq_some.mp hs).2⟩
  · cases hs

/-- Only the readable handler reads. -/
theorem step_read {D : Type} {text : Bytes → Num D → Bytes} {s s' : Async} {res : ReadResult}
    (hs : s.step text (.read res) = some s') :
    s.control = .handling .read ∧ s.handleRead res = some s' := by
  rw [step] at hs
  split at hs
  · next hcontrol => exact ⟨hcontrol, hs⟩
  · cases hs

/-- Only the writable handler writes. -/
theorem step_write {D : Type} {text : Bytes → Num D → Bytes} {s s' : Async} {res : WriteResult}
    (hs : s.step text (.write res) = some s') :
    s.control = .handling .write ∧ s.handleWrite res = some s' := by
  rw [step] at hs
  split at hs
  · next hcontrol => exact ⟨hcontrol, hs⟩
  · cases hs

/-- Where the execution goes on when a callback of the application returns. -/
theorem step_returned {D : Type} {text : Bytes → Num D → Bytes} {s s' : Async}
    (hs : s.step text .returned = some s') :
    (∃ handler, s.control = .connecting true handler ∧
        s' = { s with control := .handling handler }) ∨
      (∃ handler, s.control = .connecting false handler ∧ s.asyncDisconnect = some s') ∨
      (∃ cb, s.control = .replying cb ∧
        s' = { s with
          ac := { s.ac with inCallback := false }
          control := if s.ac.freeing then .releasing .replies else .processing cb }) ∨
      (∃ stage, s.control = .notifying stage ∧
        s' = { s with ac := { s.ac with inCallback := false }, control := .releasing stage }) ∨
      s.control = .disconnected ∧ s' = { s with control := .freed } := by
  rw [step] at hs
  split at hs
  · next handler hcontrol => exact Or.inl ⟨handler, hcontrol, (Option.some.inj hs).symm⟩
  · next handler hcontrol => exact Or.inr (Or.inl ⟨handler, hcontrol, hs⟩)
  · next cb hcontrol =>
    exact Or.inr (Or.inr (Or.inl ⟨cb, hcontrol, (Option.some.inj hs).symm⟩))
  · next stage hcontrol =>
    exact Or.inr (Or.inr (Or.inr (Or.inl ⟨stage, hcontrol, (Option.some.inj hs).symm⟩)))
  · next hcontrol =>
    exact Or.inr (Or.inr (Or.inr (Or.inr ⟨hcontrol, (Option.some.inj hs).symm⟩)))
  · cases hs

/-- Two loops go on: the one over the replies and the ones that release the context. -/
theorem step_iterate {D : Type} {text : Bytes → Num D → Bytes} {s s' : Async}
    (hs : s.step text .iterate = some s') :
    (∃ cb, s.control = .processing cb ∧ s.processCallbacks cb = some s') ∨
      ∃ stage, s.control = .releasing stage ∧ s.asyncFree stage = some s' := by
  rw [step] at hs
  split at hs
  · next cb hcontrol => exact Or.inl ⟨cb, hcontrol, hs⟩
  · next stage hcontrol => exact Or.inr ⟨stage, hcontrol, hs⟩
  · cases hs

/-- A context whose connection is being made. -/
def start : Async where
  ac := .asyncInitialize (.init false)
  control := .idle
  sent := []
  delivered := []
  registered := []
  appended := []
  handed := []
  calls := []
  connects := []
  disconnects := []

/-- The runs of a context. -/
def machine {D : Type} (text : Bytes → Num D → Bytes) : Lts Async (AsyncAction D) where
  init s := s = start
  step := step text

end Async

end Hiredispool.Hiredis
