import Hiredispool.Hiredis.Context
import Hiredispool.Lib.Lts

/-!
# Sessions

A blocking context and a server, whose steps come in any order: the client appends
commands and calls `redisGetReply`, `write` takes a part of the output buffer or fails,
`read` brings a part of what the server has sent or fails. The server answers the
commands that have arrived, in order; it may be as slow as it likes.

A session has its history: what `write` took, what `read` brought, the commands that were
appended, and the replies that were returned. The invariant `Inv` says how it hangs
together with the context, whoever is at the other end; `Answered` adds what an answering
server does.

Of any server:

* `wire_eq`: what `write` took and what is still in the buffer are the commands.
* `dead_forever`: after NULL there is an error, and nothing happens any more.

Of one that answers:

* `fifo`: **the replies are the answers to the commands, in order**, none twice and none
  left out, and none before its command is at the server.
* `awaited`: a client that waits for a reply can get more bytes.

Commands and buffers are shorter than 2^31 bytes (`Sized`), for `sdsrange` and the formatters
count in `int`.
-/

namespace Hiredispool.Hiredis

open Hiredispool.Pool (Bytes)
open Hiredispool.Client (RedisReply Arg Num)

/-! ## The server -/

/-- The strings of an array: a server takes a command to be an array of strings and nothing
    else. -/
def strings : List ReplyObject → Option (List Bytes)
  | [] => some []
  | .string str :: objs => (strings objs).map (str :: ·)
  | _ :: _ => none

/-- The argument vector that a server finds in an object. -/
def argvOf : ReplyObject → Option (List Bytes)
  | .array element => strings element
  | _ => none

/-- The commands that have arrived whole: the server parses its input as the reader does. -/
def received (sent : Bytes) : List (List Bytes) := (parseReplies sent).1.filterMap argvOf

section Server

variable {σ : Type} (serve : σ → List Bytes → σ × RedisReply)

/-- The answers of a server, one for each command: they depend on the commands before it, and on
    nothing else. -/
def answers : σ → List (List Bytes) → List RedisReply
  | _, [] => []
  | s, argv :: cmds => (serve s argv).2 :: answers (serve s argv).1 cmds

/-- The server after some commands. -/
def serverAfter (s : σ) (cmds : List (List Bytes)) : σ := cmds.foldl (fun s argv => (serve s argv).1) s

variable {serve}

/-- One for each. -/
theorem length_answers (s : σ) (cmds : List (List Bytes)) :
    (answers serve s cmds).length = cmds.length := by
  induction cmds generalizing s with
  | nil => rfl
  | cons argv cmds ih => rw [answers, List.length_cons, List.length_cons, ih]

/-- The further commands find the server as the first ones have left it. -/
theorem answers_append (s : σ) (cmds more : List (List Bytes)) :
    answers serve s (cmds ++ more) =
      answers serve s cmds ++ answers serve (serverAfter serve s cmds) more := by
  induction cmds generalizing s with
  | nil => rfl
  | cons argv cmds ih =>
    rw [List.cons_append, answers, answers, ih, List.cons_append]
    rfl

/-- What was answered does not depend on what comes later. -/
theorem answers_isPrefix (s : σ) (cmds more : List (List Bytes)) :
    answers serve s cmds <+: answers serve s (cmds ++ more) := by
  rw [answers_append]
  exact List.prefix_append _ _

/-- On commands of less than 2^31 bytes the answers are replies of the protocol that the reader
    takes, eight levels of arrays at most. -/
def Speaks (serve : σ → List Bytes → σ × RedisReply) (server : σ) : Prop :=
  ∀ cmds, (∀ argv ∈ cmds, totalLength argv < 2147483648) →
    ∀ x ∈ answers serve server cmds, (object x).Accepted 8

end Server

/-! ## The machine -/

/-- A context with its history: what `write` took, what `read` brought, the commands that were
    appended, and the replies that were returned. The history is not in the program. -/
structure Session where
  ctx : RedisContext
  control : Control
  sent : Bytes
  delivered : Bytes
  appended : List (List Bytes)
  got : List ReplyObject

/-- `redisGetReply` is not being executed. -/
def Control.atRest : Control → Bool
  | .idle => true
  | .returned _ _ => true
  | _ => false

/-- What a call that has returned has for a reply. -/
def Control.reply : Control → List ReplyObject
  | .returned _ reply => reply.toList
  | _ => []

/-- What the client, `write` and `read` do. A system call is a step of its own, so the server
    may do anything between two of them. -/
inductive Action (D : Type)
  | append (argv : List Bytes)
  | appendFormat (format : Bytes) (args : List (Arg D))
  | getReply
  | write (res : WriteResult)
  | read (res : ReadResult)

namespace Session

/-- After a part of `redisGetReply`. -/
def resume (s : Session) (result : RedisContext × Control) : Session :=
  { s with ctx := result.1, control := result.2, got := s.got ++ result.2.reply }

/-- The steps of a session; `none` if it is not the turn of the action, or C gives it no
    meaning. -/
def step {D : Type} (text : Bytes → Num D → Bytes) (s : Session) : Action D → Option Session
  | .append argv =>
    if s.control.atRest then
      (s.ctx.redisAppendCommandArgv argv).map fun (c, ok) =>
        { s with ctx := c, appended := if ok then s.appended ++ [argv] else s.appended }
    else none
  | .appendFormat format args =>
    if s.control.atRest then
      (s.ctx.redisvAppendCommand text format args).map fun (c, _) =>
        match Client.redisvFormatCommand text format args with
        | .ok argv => { s with ctx := c, appended := s.appended ++ [argv] }
        | .error _ => { s with ctx := c }
    else none
  | .getReply => if s.control.atRest then s.ctx.getReplyEnter.map s.resume else none
  | .write res =>
    match s.control with
    | .writing =>
      (s.ctx.getReplyWrite res).map
        (Session.resume { s with sent := s.sent ++ s.ctx.takes res })
    | _ => none
  | .read res =>
    match s.control with
    | .reading =>
      (s.ctx.getReplyRead res).map
        (Session.resume { s with delivered := s.delivered ++ s.ctx.brings res })
    | _ => none

/-- A blocking context that is connected. -/
def start : Session := ⟨.init true, .idle, [], [], [], []⟩

/-- The session as a transition system. -/
def machine {D : Type} (text : Bytes → Num D → Bytes) : Lts Session (Action D) where
  init s := s = start
  step := step text

end Session

/-- What `write` takes is there, and no command or buffer reaches 2^31 bytes. Nothing is said of
    what `read` brings: it may be no reply at all. -/
def Sized {D : Type} (s : Session) (a : Action D) : Prop :=
  s.ctx.obuf.length < 2147483648 ∧ s.ctx.reader.buf.length < 2147483648 ∧
    match a with
    | .append argv => totalLength argv < 2147483648
    | .write res => s.ctx.CanTake res
    | .read (.data buf) => s.ctx.reader.buf.length + buf.length < 2147483648
    | _ => True

/-- What `read` brings has been sent by a server that answers the commands which it has
    received, in order. -/
def Honest {σ D : Type} (serve : σ → List Bytes → σ × RedisReply) (server : σ) (s : Session)
    (a : Action D) : Prop :=
  Sized s a ∧
    match a with
    | .read (.data buf) => buf ≠ [] ∧
      s.delivered ++ buf <+: encodeAll (answers serve server (received s.sent))
    | _ => True

/-! ## What arrives -/

/-- The arguments of a command are found again. -/
theorem strings_map (argv : List Bytes) : strings (argv.map .string) = some argv := by
  induction argv with
  | nil => rfl
  | cons arg argv ih => rw [List.map_cons, strings, ih]; rfl

/-- So are the commands in their bytes (`parse_encode`). -/
theorem parseReplies_argv {cmds : List (List Bytes)} (h : ∀ argv ∈ cmds, totalLength argv < 2147483648) :
    parseReplies (encodeAll (cmds.map argvReply)) =
      (cmds.map fun argv => .array (argv.map .string), .more) := by
  have haccepted : ∀ x ∈ cmds.map argvReply, (object x).Accepted 8 := by
    intro x hx
    obtain ⟨argv, hargv, rfl⟩ := List.mem_map.mp hx
    exact argvReply_accepted (h argv hargv)
  have hall := parseReplies_encodeAll haccepted (show parseItem 8 [] = .more by rw [parseItem])
  rw [List.append_nil, List.map_map] at hall
  rw [hall]
  exact congrArg (·, _) (List.map_congr_left fun argv _ => object_argvReply argv)

/-- And so the server finds the argument vectors. -/
theorem filterMap_argvOf (cmds : List (List Bytes)) :
    (cmds.map fun argv => ReplyObject.array (argv.map .string)).filterMap argvOf = cmds := by
  induction cmds with
  | nil => rfl
  | cons argv cmds ih =>
    have hargv : argvOf (.array (argv.map .string)) = some argv := strings_map argv
    rw [List.map_cons, List.filterMap_cons_some hargv, ih]

/-- The server gets the commands in order. -/
theorem received_isPrefix {sent obuf : Bytes} {cmds : List (List Bytes)}
    (h : ∀ argv ∈ cmds, totalLength argv < 2147483648)
    (hwire : sent ++ obuf = encodeAll (cmds.map argvReply)) :
    received sent <+: cmds ∧ (obuf = [] → received sent = cmds) := by
  have hall := parseReplies_argv h
  constructor
  · rw [← hwire] at hall
    obtain ⟨objs, hobjs, hpre⟩ := parseReplies_isPrefix hall
    have hcmds := hpre.filterMap argvOf
    rwa [filterMap_argvOf, ← show (parseReplies sent).1 = objs by rw [hobjs]] at hcmds
  · rintro rfl
    rw [List.append_nil] at hwire
    rw [received, hwire, hall, filterMap_argvOf]

section Invariant

variable {σ D : Type} {serve : σ → List Bytes → σ × RedisReply} {server : σ}
  {text : Bytes → Num D → Bytes}

/-- The answers are parsed as they were sent, as far as they have come. -/
theorem parseReplies_answers (hspeaks : Speaks serve server)
    {delivered : Bytes} {cmds : List (List Bytes)}
    (hshort : ∀ argv ∈ cmds, totalLength argv < 2147483648)
    (h : delivered <+: encodeAll (answers serve server cmds)) :
    ∃ objs, parseReplies delivered = (objs, .more) ∧
      objs <+: (answers serve server cmds).map object := by
  obtain ⟨v, hv⟩ := h
  have hall := parseReplies_encodeAll (hspeaks cmds hshort)
    (show parseItem 8 [] = .more by rw [parseItem])
  rw [List.append_nil, ← hv] at hall
  exact parseReplies_isPrefix hall

/-! ## Invariant -/

namespace Session

/-- The reader has given all that has come. -/
def Drained (s : Session) : Prop := s.got = (parseReplies s.delivered).1

/-- What holds between any two steps, whoever is at the other end: the output buffer is the end
    of the appended commands, the reader has been fed what was delivered, and an error of the
    context stays. -/
structure Inv (s : Session) : Prop where
  block : s.ctx.block = true
  short : ∀ argv ∈ s.appended, totalLength argv < 2147483648
  wire : s.sent ++ s.ctx.obuf = encodeAll (s.appended.map argvReply)
  run : s.ctx.reader.Run s.delivered s.got
  -- before `write` and `read` the reader has been asked
  writing : s.control = .writing → s.Drained ∧ s.ctx.reader.err = 0
  reading : s.control = .reading →
    s.Drained ∧ s.ctx.reader.err = 0 ∧ s.ctx.err = 0 ∧ s.ctx.obuf = []
  failed : ∀ ok, s.control = .returned ok none → ok = false ∧ s.Drained ∧ s.ctx.err ≠ 0

/-- The server gets no longer commands than were appended. -/
theorem Inv.received_short {s : Session} (hs : Inv s) :
    ∀ argv ∈ received s.sent, totalLength argv < 2147483648 := fun argv h =>
  hs.short argv ((received_isPrefix hs.short hs.wire).1.subset h)

/-- Nothing has been sent, and nothing has come. -/
theorem Inv.start : Inv start where
  block := rfl
  short := by simp [Session.start]
  wire := rfl
  run := .create
  writing := by rintro ⟨⟩
  reading := by rintro ⟨⟩
  failed := by rintro _ ⟨⟩

/-- A command that is short enough is always appended. -/
theorem step_append {s : Session} (hrest : s.control.atRest = true) {argv : List Bytes}
    (hshort : totalLength argv < 2147483648) : (machine text).step s (.append argv) =
      some { s with
        ctx := { s.ctx with obuf := s.ctx.obuf ++ encode (argvReply argv) },
        appended := s.appended ++ [argv] } := by
  show Session.step text s (.append argv) = _
  rw [Session.step, if_pos hrest, RedisContext.redisAppendCommandArgv_spec hshort]
  rfl

/-- A format is an appended command, or an error of the context. -/
theorem step_appendFormat {s s' : Session} {format : Bytes} {args : List (Arg D)}
    (h : Session.step text s (.appendFormat format args) = some s') :
    s.control.atRest = true ∧
      ((∃ argv, totalLength argv < 2147483648 ∧ s' = { s with
          ctx := { s.ctx with obuf := s.ctx.obuf ++ encode (argvReply argv) },
          appended := s.appended ++ [argv] }) ∨
        s' = { s with ctx := s.ctx.setError 2 (.ofString "Invalid format string") }) := by
  rw [Session.step] at h
  split at h
  · next hrest =>
    refine ⟨hrest, ?_⟩
    obtain ⟨⟨c, ok⟩, hctx, h⟩ := Option.map_eq_some_iff.mp h
    rcases RedisContext.redisvAppendCommand_cases hctx with
      ⟨argv, hformat, hshort, -, rfl⟩ | ⟨hformat, -, rfl⟩ <;>
      rw [hformat] at h <;> obtain rfl := h
    · exact Or.inl ⟨argv, hshort, rfl⟩
    · exact Or.inr rfl
  · cases h

/-- A step with a command of a valid length appends it. -/
theorem step_append_eq {s s' : Session} {argv : List Bytes}
    (hshort : totalLength argv < 2147483648) (h : Session.step text s (.append argv) = some s') :
    s.control.atRest = true ∧
      s' = { s with
        ctx := { s.ctx with obuf := s.ctx.obuf ++ encode (argvReply argv) },
        appended := s.appended ++ [argv] } := by
  have hrest := (Option.ite_none_right_eq_some.mp h).1
  have happend : (machine text).step s (.append argv) = _ := step_append hrest hshort
  exact ⟨hrest, (Option.some.inj (happend.symm.trans h)).symm⟩

/-- `redisGetReply` is called at rest. -/
theorem step_getReply {s s' : Session} (h : Session.step text s .getReply = some s') :
    s.control.atRest = true ∧ ∃ result, s.ctx.getReplyEnter = some result ∧
      s' = s.resume result := by
  obtain ⟨hrest, h⟩ := Option.ite_none_right_eq_some.mp h
  obtain ⟨result, henter, rfl⟩ := Option.map_eq_some_iff.mp h
  exact ⟨hrest, result, henter, rfl⟩

/-- `write` returns to its loop. -/
theorem step_write {s s' : Session} {res : WriteResult}
    (h : Session.step text s (.write res) = some s') :
    s.control = .writing ∧ ∃ result, s.ctx.getReplyWrite res = some result ∧
      s' = Session.resume { s with sent := s.sent ++ s.ctx.takes res } result := by
  rw [Session.step] at h
  split at h
  · next hcontrol =>
    obtain ⟨result, hwrite, rfl⟩ := Option.map_eq_some_iff.mp h
    exact ⟨hcontrol, result, hwrite, rfl⟩
  · cases h

/-- `read` returns to its loop. -/
theorem step_read {s s' : Session} {res : ReadResult}
    (h : Session.step text s (.read res) = some s') :
    s.control = .reading ∧ ∃ result, s.ctx.getReplyRead res = some result ∧
      s' = Session.resume { s with delivered := s.delivered ++ s.ctx.brings res } result := by
  rw [Session.step] at h
  split at h
  · next hcontrol =>
    obtain ⟨result, hread, rfl⟩ := Option.map_eq_some_iff.mp h
    exact ⟨hcontrol, result, hread, rfl⟩
  · cases h

/-- A command is appended. -/
theorem Inv.append {s : Session} (hs : Inv s) (hrest : s.control.atRest = true)
    {argv : List Bytes} (hshort : totalLength argv < 2147483648) :
    Inv { s with
      ctx := { s.ctx with obuf := s.ctx.obuf ++ encode (argvReply argv) },
      appended := s.appended ++ [argv] } where
  block := hs.block
  short := by
    intro argv' h
    rcases List.mem_append.mp h with h | h
    · exact hs.short argv' h
    · rw [List.mem_singleton.mp h]
      exact hshort
  wire := by
    show s.sent ++ (s.ctx.obuf ++ encode (argvReply argv)) = _
    rw [← List.append_assoc, hs.wire, List.map_append, encodeAll_append, List.map_singleton,
      encodeAll, encodeAll, List.append_nil]
  run := hs.run
  writing := hs.writing
  reading := by
    intro h
    have h : s.control = .reading := h
    rw [h] at hrest
    cases hrest
  failed := hs.failed

/-- An error that does not come from the socket: an invalid format leaves the buffers alone. -/
theorem Inv.setError {s : Session} (hs : Inv s) (hrest : s.control.atRest = true)
    {type : ℤ} (htype : type ≠ 0) (str : Bytes) :
    Inv { s with ctx := s.ctx.setError type str } where
  block := hs.block
  short := hs.short
  wire := hs.wire
  run := hs.run
  writing := hs.writing
  reading := by
    intro h
    have h : s.control = .reading := h
    rw [h] at hrest
    cases hrest
  failed := fun ok h => ⟨(hs.failed ok h).1, (hs.failed ok h).2.1, htype⟩

/-- `redisGetReply` asks the reader first (line 875). -/
theorem Inv.getReplyEnter {s : Session} (hs : Inv s) (hlen : s.ctx.reader.buf.length < 2147483648)
    {result : RedisContext × Control} (h : s.ctx.getReplyEnter = some result) :
    Inv (s.resume result) ∧ (s.ctx.err ≠ 0 → result.1.err ≠ 0) := by
  obtain ⟨⟨c, ok, aux⟩, hreader, h⟩ := Option.map_eq_some_iff.mp h
  obtain ⟨hblock, hobuf, hrun, hnone, ⟨rfl, herr, hrerr, -⟩ | ⟨rfl, rfl, herr⟩⟩ :=
    RedisContext.redisGetReplyFromReader_cases hs.run hlen hreader
  all_goals
    have hwire : s.sent ++ c.obuf = encodeAll (s.appended.map argvReply) := by rw [hobuf, hs.wire]
    rw [hs.block] at hblock
  · cases aux with
    | none =>
      obtain rfl : (c, .writing) = result := by simpa [hblock] using h
      have hdrained : s.got ++ [] = (parseReplies s.delivered).1 := by
        rw [List.append_nil, hnone rfl]
      exact ⟨⟨hblock, hs.short, hwire, hrun, fun _ => ⟨hdrained, hrerr⟩, by rintro ⟨⟩,
        by rintro _ ⟨⟩⟩, fun he => herr ▸ he⟩
    | some obj =>
      obtain rfl : (c, .returned true (some obj)) = result := by simpa using h
      exact ⟨⟨hblock, hs.short, hwire, hrun, by rintro ⟨⟩, by rintro ⟨⟩, by rintro _ ⟨⟩⟩,
        fun he => herr ▸ he⟩
  · -- an error of the protocol
    obtain rfl : (c, .returned false none) = result := by simpa using h
    have hdrained : s.got ++ [] = (parseReplies s.delivered).1 := by
      rw [List.append_nil, hnone rfl]
    exact ⟨⟨hblock, hs.short, hwire, hrun, by rintro ⟨⟩, by rintro ⟨⟩,
      by rintro _ ⟨⟩; exact ⟨rfl, hdrained, herr⟩⟩, fun _ => herr⟩

/-- The loop that writes (lines 881–884). -/
theorem Inv.getReplyWrite {s : Session} (hs : Inv s) (hcontrol : s.control = .writing)
    {res : WriteResult} (hres : s.ctx.CanTake res) (hlen : s.ctx.obuf.length < 2147483648)
    {result : RedisContext × Control} (h : s.ctx.getReplyWrite res = some result) :
    Inv (Session.resume { s with sent := s.sent ++ s.ctx.takes res } result) ∧
      result.2.reply = [] ∧ (s.ctx.err ≠ 0 → s.ctx.takes res = [] ∧ result.1.err ≠ 0) := by
  obtain ⟨c, ok, wdone, hwrite, hreader, hblock, htake, hfail, hok, hearly, hdone⟩ :=
    RedisContext.redisBufferWrite_spec hres hlen
  obtain ⟨hdrained, hrerr⟩ := hs.writing hcontrol
  have hwire : s.sent ++ s.ctx.takes res ++ c.obuf = encodeAll (s.appended.map argvReply) := by
    rw [List.append_assoc, htake, hs.wire]
  have hrun : c.reader.Run s.delivered (s.got ++ []) := by
    rw [hreader, List.append_nil]
    exact hs.run
  have hdrained' : s.got ++ [] = (parseReplies s.delivered).1 := by rw [List.append_nil]; exact hdrained
  have htaken : s.ctx.err ≠ 0 → s.ctx.takes res = [] := by
    intro herr
    cases res with
    | wrote n => rw [RedisContext.takes, if_neg herr]
    | failed errno txt => rfl
  rw [← hreader] at hrerr
  rw [RedisContext.getReplyWrite, hwrite] at h
  cases ok with
  | false =>
    cases h
    refine ⟨?_, rfl, fun h => ⟨htaken h, hfail rfl⟩⟩
    exact ⟨hblock.trans hs.block, hs.short, hwire, hrun, by rintro ⟨⟩, by rintro ⟨⟩,
      by rintro _ ⟨⟩; exact ⟨rfl, hdrained', hfail rfl⟩⟩
  | true =>
    have hnone : s.ctx.err ≠ 0 → s.ctx.takes res = [] ∧ c.err ≠ 0 :=
      fun h => absurd (hearly h) (by simp)
    cases wdone with
    | false =>
      cases h
      refine ⟨?_, rfl, hnone⟩
      exact ⟨hblock.trans hs.block, hs.short, hwire, hrun, fun _ => ⟨hdrained', hrerr⟩,
        by rintro ⟨⟩, by rintro _ ⟨⟩⟩
    | true =>
      cases h
      refine ⟨?_, rfl, hnone⟩
      exact ⟨hblock.trans hs.block, hs.short, hwire, hrun, by rintro ⟨⟩,
        fun _ => ⟨hdrained', hrerr, hok rfl, hdone rfl⟩, by rintro _ ⟨⟩⟩

/-- The loop that reads (lines 887–892): what has come is fed, and the reader is asked. -/
theorem Inv.getReplyRead {s : Session} (hs : Inv s) (hcontrol : s.control = .reading)
    {res : ReadResult} (hlen : s.ctx.reader.buf.length + (s.ctx.brings res).length < 2147483648)
    {result : RedisContext × Control} (h : s.ctx.getReplyRead res = some result) :
    Inv (Session.resume { s with delivered := s.delivered ++ s.ctx.brings res } result) := by
  obtain ⟨hdrained, hrerr, herr, hempty⟩ := hs.reading hcontrol
  obtain ⟨c, ok, hread, hblock, hobuf, hok, hfail⟩ := RedisContext.redisBufferRead_spec res hrerr
  have hwire : s.sent ++ c.obuf = encodeAll (s.appended.map argvReply) := by rw [hobuf, hs.wire]
  rw [hs.block] at hblock
  rw [RedisContext.getReplyRead, hread] at h
  cases ok with
  | false =>
    cases h
    obtain ⟨hcerr, hnone, hreader⟩ := hfail rfl
    have hgot : s.got ++ Control.reply (.returned false none) = s.got := List.append_nil _
    rw [hnone, List.append_nil, resume, hgot]
    exact ⟨hblock, hs.short, hwire, hreader ▸ hs.run, by rintro ⟨⟩, by rintro ⟨⟩,
      by rintro _ ⟨⟩; exact ⟨rfl, hdrained, hcerr⟩⟩
  | true =>
    obtain ⟨hcerr, hreader⟩ := hok rfl
    have hfeed : c.reader.Run (s.delivered ++ s.ctx.brings res) s.got ∧
        c.reader.buf.length < 2147483648 := by
      rcases hreader with ⟨hnone, hsame⟩ | hfeed
      · rw [hnone, List.append_nil, hsame]
        exact ⟨hs.run, by omega⟩
      · rw [hfeed]
        refine ⟨hs.run.feed _, ?_⟩
        rw [RedisReader.feed, if_neg (by rw [hrerr]; decide), List.length_append]
        exact hlen
    obtain ⟨⟨c', ok, aux⟩, hreply, h⟩ := Option.map_eq_some_iff.mp h
    obtain ⟨hblock', hobuf', hrun, hnone, ⟨rfl, herr', hrerr', -⟩ | ⟨rfl, rfl, herr'⟩⟩ :=
      RedisContext.redisGetReplyFromReader_cases hfeed.1 hfeed.2 hreply
    all_goals
      rw [← hobuf'] at hwire
      rw [hblock] at hblock'
    · cases aux with
      | none =>
        obtain rfl : (c', .reading) = result := by simpa using h
        have hall : s.got ++ [] = (parseReplies (s.delivered ++ s.ctx.brings res)).1 := by
          rw [List.append_nil, hnone rfl]
        exact ⟨hblock', hs.short, hwire, hrun, by rintro ⟨⟩,
          fun _ => ⟨hall, hrerr', herr'.trans hcerr, hobuf'.trans (hobuf.trans hempty)⟩,
          by rintro _ ⟨⟩⟩
      | some obj =>
        obtain rfl : (c', .returned true (some obj)) = result := by simpa using h
        exact ⟨hblock', hs.short, hwire, hrun, by rintro ⟨⟩, by rintro ⟨⟩, by rintro _ ⟨⟩⟩
    · obtain rfl : (c', .returned false none) = result := by simpa using h
      have hall : s.got ++ [] = (parseReplies (s.delivered ++ s.ctx.brings res)).1 := by
        rw [List.append_nil, hnone rfl]
      exact ⟨hblock', hs.short, hwire, hrun, by rintro ⟨⟩, by rintro ⟨⟩,
        by rintro _ ⟨⟩; exact ⟨rfl, hall, herr'⟩⟩

/-- **Every step keeps the invariant.** -/
theorem Inv.step {s s' : Session} {a : Action D} (hs : Inv s) (hsized : Sized s a)
    (h : Session.step text s a = some s') : Inv s' := by
  obtain ⟨hobuf, hreader, ha⟩ := hsized
  cases a with
  | append argv =>
    obtain ⟨hrest, rfl⟩ := step_append_eq ha h
    exact hs.append hrest ha
  | appendFormat format args =>
    obtain ⟨hrest, ⟨argv, hshort, rfl⟩ | rfl⟩ := step_appendFormat h
    · exact hs.append hrest hshort
    · exact hs.setError hrest (by decide) _
  | getReply =>
    obtain ⟨-, result, henter, rfl⟩ := step_getReply h
    exact (hs.getReplyEnter hreader henter).1
  | write res =>
    obtain ⟨hcontrol, result, hwrite, rfl⟩ := step_write h
    exact (hs.getReplyWrite hcontrol ha hobuf hwrite).1
  | read res =>
    obtain ⟨hcontrol, result, hread, rfl⟩ := step_read h
    refine hs.getReplyRead hcontrol ?_ hread
    cases res with
    | data buf =>
      rw [RedisContext.brings, if_pos (hs.reading hcontrol).2.2.1]
      exact ha
    | eof => exact hreader
    | failed errno txt => exact hreader

/-- By induction on the run. -/
theorem inv_of_reachable {s : Session} (hs : (machine text).ReachableUnder Sized s) : Inv s := by
  induction hs with
  | init h =>
    obtain rfl : _ = Session.start := h
    exact .start
  | step _ hC h ih => exact ih.step hC h

/-! ## A server that answers -/

/-- What has arrived does not change when more comes. -/
theorem received_mono (sent more : Bytes) : received sent <+: received (sent ++ more) :=
  (RedisReader.parseReplies_mono sent more).filterMap argvOf

/-- What has come are answers to what has arrived. -/
def Answered (serve : σ → List Bytes → σ × RedisReply) (server : σ) (s : Session) : Prop :=
  s.delivered <+: encodeAll (answers serve server (received s.sent))

/-- The answers to come begin with those that have been sent. -/
theorem Answered.mono {s : Session} (h : s.Answered serve server) (more : Bytes) :
    s.delivered <+: encodeAll (answers serve server (received (s.sent ++ more))) := by
  obtain ⟨later, hlater⟩ := received_mono s.sent more
  rw [← hlater]
  exact h.trans (encodeAll_isPrefix (answers_isPrefix server _ later))

/-- The server sends answers to what it has, the client sends more of the commands. -/
theorem Answered.step {s s' : Session} {a : Action D} (hs : Inv s) (hans : s.Answered serve server)
    (hhonest : Honest serve server s a) (h : Session.step text s a = some s') :
    s'.Answered serve server := by
  obtain ⟨⟨hobuf, hreader, ha⟩, hbrings⟩ := hhonest
  cases a with
  | append argv =>
    obtain ⟨-, rfl⟩ := step_append_eq ha h
    exact hans
  | appendFormat format args =>
    obtain ⟨-, ⟨argv, -, rfl⟩ | rfl⟩ := step_appendFormat h
    · exact hans
    · exact hans
  | getReply =>
    obtain ⟨-, result, -, rfl⟩ := step_getReply h
    exact hans
  | write res =>
    obtain ⟨-, result, -, rfl⟩ := step_write h
    exact hans.mono _
  | read res =>
    obtain ⟨hcontrol, result, -, rfl⟩ := step_read h
    show s.delivered ++ s.ctx.brings res <+: encodeAll (answers serve server (received s.sent))
    have hnone : s.delivered ++ [] <+: encodeAll (answers serve server (received s.sent)) := by
      rw [List.append_nil]
      exact hans
    cases res with
    | data buf =>
      rw [RedisContext.brings, if_pos (hs.reading hcontrol).2.2.1]
      exact hbrings.2
    | eof => exact hnone
    | failed errno txt => exact hnone

/-- By induction on the run: with a server that answers, all that came are answers. -/
theorem answered_of_reachable {s : Session}
    (hs : (machine text).ReachableUnder (Honest serve server) s) :
    Inv s ∧ s.Answered serve server := by
  induction hs with
  | init h =>
    obtain rfl : _ = Session.start := h
    exact ⟨.start, List.nil_prefix⟩
  | step _ hC h ih => exact ⟨ih.1.step hC.1 h, Answered.step ih.1 ih.2 hC h⟩

/-! ## Results -/

/-- A server that answers 5. -/
def five : Unit → List Bytes → Unit × RedisReply := fun _ _ => ((), .integer 5)

/-- 5 is a reply of the protocol. -/
theorem five_speaks : Speaks five () := by
  intro cmds hshort
  clear hshort
  induction cmds with
  | nil => intro x hx; cases hx
  | cons argv cmds ih => exact List.forall_mem_cons.mpr ⟨.integer (by decide) (by decide), ih⟩

/-- No numbers are formatted. -/
def noText : Bytes → Num Unit → Bytes := fun _ _ => []

/-- The command `P` is written, and `redisGetReply` reads. -/
def readingP : Session where
  ctx := ⟨0, [], true, [], ⟨0, [], [], 0, [], none⟩⟩
  control := .reading
  sent := [42, 49, 13, 10, 36, 49, 13, 10, 80, 13, 10]
  delivered := []
  appended := [[[80]]]
  got := []

/-- `*1\r\n$1\r\nP\r\n`. -/
theorem encode_p : encode (argvReply [[80]]) = readingP.sent := by
  simp [argvReply, encode, encodeAll, encodeLine, Decimal.ofInt, Decimal.ofNat, Decimal.digit,
    readingP]

theorem totalLength_p : totalLength [[80]] < 2147483648 := by
  simp [totalLength, bulklen, countDigits_of_lt]

/-- The client appends `P` and calls `redisGetReply`, and one `write` takes it all. -/
theorem readingP_reachable : (machine noText).ReachableUnder (Honest five ()) readingP := by
  have h₁ := Lts.ReachableUnder.init (m := machine noText) (C := Honest five ()) (s := start) rfl
  have h₂ := h₁.step ⟨⟨by decide, by decide, totalLength_p⟩, trivial⟩
    (step_append rfl totalLength_p)
  rw [encode_p] at h₂
  have h₃ := h₂.step (l := .getReply) ⟨⟨by decide, by decide, trivial⟩, trivial⟩ rfl
  have h₄ := h₃.step (l := .write (.wrote 5))
    ⟨⟨by decide, by decide, show 5 ≤ 11 by decide⟩, trivial⟩ rfl
  exact h₄.step (l := .write (.wrote 6))
    ⟨⟨by decide, by decide, show 6 ≤ 6 by decide⟩, trivial⟩ rfl

/-- The server has `P`. -/
theorem received_p : received readingP.sent = [[[80]]] := by
  have hinv := (answered_of_reachable readingP_reachable).1
  exact (received_isPrefix hinv.short hinv.wire).2 rfl

/-- **Nothing is lost on the way to the server, and nothing sent twice**, whatever `write` took
    and whatever `read` brought: the bytes that were sent and those in the buffer are the
    commands in order. -/
theorem wire_eq {s : Session} (hs : (machine text).ReachableUnder Sized s) :
    s.sent ++ s.ctx.obuf = encodeAll (s.appended.map argvReply) ∧ received s.sent <+: s.appended := by
  have hinv := inv_of_reachable hs
  exact ⟨hinv.wire, (received_isPrefix hinv.short hinv.wire).1⟩

/-- `P` is half on its way. -/
theorem wire_eq_p : ∃ s : Session, s.sent = readingP.sent.take 5 ∧ s.sent ++ s.ctx.obuf =
    encodeAll (s.appended.map argvReply) ∧ received s.sent <+: s.appended := by
  have h₁ := Lts.ReachableUnder.init (m := machine noText) (C := Sized) (s := start) rfl
  have h₂ := h₁.step ⟨by decide, by decide, totalLength_p⟩ (step_append rfl totalLength_p)
  rw [encode_p] at h₂
  have h₃ := h₂.step (l := .getReply) ⟨by decide, by decide, trivial⟩ rfl
  have h₄ := h₃.step (l := .write (.wrote 5)) ⟨by decide, by decide, show 5 ≤ 11 by decide⟩ rfl
  exact ⟨_, rfl, wire_eq h₄⟩

/-- The replies so far are the first answers to what the server has received. -/
theorem Inv.got_isPrefix (hspeaks : Speaks serve server) {s : Session} (hs : Inv s)
    (hans : s.Answered serve server) :
    s.got <+: (answers serve server (received s.sent)).map object := by
  obtain ⟨objs, hspec, hpre⟩ := parseReplies_answers hspeaks hs.received_short hans
  have hgot := hs.run.prefix_parse
  rw [hspec] at hgot
  exact hgot.trans hpre

/-- And so to what has been appended. -/
theorem Inv.got_isPrefix_appended (hspeaks : Speaks serve server) {s : Session} (hs : Inv s)
    (hans : s.Answered serve server) : s.got <+: (answers serve server s.appended).map object := by
  obtain ⟨later, hlater⟩ := (received_isPrefix hs.short hs.wire).1
  rw [← hlater]
  exact (hs.got_isPrefix hspeaks hans).trans ((answers_isPrefix server _ later).map object)

/-- **The replies are the answers to the commands, in order**: none twice, none left out, and
    none before its command has reached the server. -/
theorem fifo (hspeaks : Speaks serve server) {s : Session}
    (hs : (machine text).ReachableUnder (Honest serve server) s) :
    s.got <+: (answers serve server s.appended).map object ∧
      s.got.length ≤ (received s.sent).length := by
  obtain ⟨hinv, hans⟩ := answered_of_reachable hs
  refine ⟨hinv.got_isPrefix_appended hspeaks hans, ?_⟩
  have hle := (hinv.got_isPrefix hspeaks hans).length_le
  rwa [List.length_map, length_answers] at hle

/-- The answer to `P` has been returned. -/
theorem fifo_p : ∃ s : Session, s.got = [.integer 5] ∧
    s.got <+: (answers five () s.appended).map object ∧
      s.got.length ≤ (received s.sent).length := by
  have hanswer : [58, 53, 13, 10] = encodeAll (answers five () (received readingP.sent)) := by
    rw [received_p]
    simp [answers, five, encode, encodeAll, encodeLine, Decimal.ofInt, Decimal.ofNat, Decimal.digit]
  have hhonest : Honest five () readingP (.read (.data [58, 53, 13, 10]) : Action Unit) :=
    ⟨⟨by decide, by decide, show 0 + 4 < 2147483648 by decide⟩, List.cons_ne_nil _ _,
      hanswer ▸ List.prefix_rfl⟩
  exact ⟨_, rfl, fifo five_speaks (readingP_reachable.step hhonest rfl)⟩

/-- **A client that waits can get more**: when `redisGetReply` reads, every command is at the
    server, and while there are fewer replies than commands, more bytes are to come. -/
theorem awaited (hspeaks : Speaks serve server) {s : Session}
    (hs : (machine text).ReachableUnder (Honest serve server) s) (hcontrol : s.control = .reading) :
    received s.sent = s.appended ∧ (s.got.length < s.appended.length → ∃ buf, buf ≠ [] ∧
      s.delivered ++ buf = encodeAll (answers serve server (received s.sent))) := by
  obtain ⟨hinv, hans⟩ := answered_of_reachable hs
  obtain ⟨hdrained, -, -, hempty⟩ := hinv.reading hcontrol
  have hall := (received_isPrefix hinv.short hinv.wire).2 hempty
  refine ⟨hall, fun hless => ?_⟩
  obtain ⟨buf, hbuf⟩ := hans
  refine ⟨buf, ?_, hbuf⟩
  rintro rfl
  rw [List.append_nil] at hbuf
  have hparse := parseReplies_encodeAll (hspeaks (received s.sent) hinv.received_short)
    (show parseItem 8 [] = .more by rw [parseItem])
  rw [List.append_nil, ← hbuf] at hparse
  rw [hdrained, hparse, List.length_map, length_answers, hall] at hless
  exact lt_irrefl _ hless

/-- The answer to `P` is to come. -/
theorem awaited_p : received readingP.sent = readingP.appended ∧ ∃ buf, buf ≠ [] ∧
    readingP.delivered ++ buf = encodeAll (answers five () (received readingP.sent)) := by
  obtain ⟨hall, hmore⟩ := awaited five_speaks readingP_reachable rfl
  exact ⟨hall, hmore (by decide)⟩

/-- There is an error, and nothing more in the reader: from here the context has no way back. -/
def Dead (s : Session) : Prop := s.ctx.err ≠ 0 ∧ s.Drained

/-- Every step returns at once: `redisBufferWrite` and `redisBufferRead` ask for `err` first
    (lines 799 and 835). -/
theorem Dead.step {s s' : Session} {a : Action D} (hs : Inv s) (hdead : s.Dead)
    (hsized : Sized s a) (h : Session.step text s a = some s') :
    s'.Dead ∧ s'.sent = s.sent ∧ s'.delivered = s.delivered ∧ s'.got = s.got := by
  obtain ⟨hobuf, hreader, ha⟩ := hsized
  obtain ⟨herr, hdrained⟩ := hdead
  cases a with
  | append argv =>
    obtain ⟨-, rfl⟩ := step_append_eq ha h
    exact ⟨⟨herr, hdrained⟩, rfl, rfl, rfl⟩
  | appendFormat format args =>
    obtain ⟨-, ⟨argv, -, rfl⟩ | rfl⟩ := step_appendFormat h
    · exact ⟨⟨herr, hdrained⟩, rfl, rfl, rfl⟩
    · exact ⟨⟨RedisContext.setError_err (by decide) _ _, hdrained⟩, rfl, rfl, rfl⟩
  | getReply =>
    obtain ⟨-, result, henter, rfl⟩ := step_getReply h
    obtain ⟨hinv, hresult⟩ := hs.getReplyEnter hreader henter
    -- a further reply would be one that the parser does not find
    have hgot : s.got ++ result.2.reply <+: (parseReplies s.delivered).1 := hinv.run.prefix_parse
    have hnone : s.got ++ result.2.reply = s.got := by
      rw [← show s.got = (parseReplies s.delivered).1 from hdrained] at hgot
      exact hgot.eq_of_length (le_antisymm hgot.length_le (by simp))
    refine ⟨⟨hresult herr, ?_⟩, rfl, rfl, hnone⟩
    show s.got ++ result.2.reply = _
    rw [hnone]
    exact hdrained
  | write res =>
    obtain ⟨hcontrol, result, hwrite, rfl⟩ := step_write h
    obtain ⟨-, hreply, hfail⟩ := hs.getReplyWrite hcontrol ha hobuf hwrite
    obtain ⟨htakes, herr'⟩ := hfail herr
    have hgot : s.got ++ result.2.reply = s.got := by rw [hreply, List.append_nil]
    have hsent : s.sent ++ s.ctx.takes res = s.sent := by rw [htakes, List.append_nil]
    refine ⟨⟨herr', ?_⟩, hsent, rfl, hgot⟩
    show s.got ++ result.2.reply = _
    rw [hgot]
    exact hdrained
  | read res =>
    obtain ⟨hcontrol, -⟩ := step_read h
    exact absurd (hs.reading hcontrol).2.2.1 herr

/-- By induction on the run: **after NULL there is an error, and nothing happens any more**: nothing
    is written, nothing is read, and no call has a reply. -/
theorem dead_forever {s s' : Session} {ok : Bool}
    (hs : (machine text).ReachableUnder Sized s) (hnull : s.control = .returned ok none)
    (hs' : Lts.ReachableUnder { machine text with init := (· = s) } Sized s') :
    s'.ctx.err ≠ 0 ∧ s'.sent = s.sent ∧ s'.delivered = s.delivered ∧ s'.got = s.got := by
  have hinv := inv_of_reachable hs
  have hdead : s.Dead := ⟨(hinv.failed ok hnull).2.2, (hinv.failed ok hnull).2.1⟩
  suffices h : Inv s' ∧ s'.Dead ∧ s'.sent = s.sent ∧ s'.delivered = s.delivered ∧
      s'.got = s.got from ⟨h.2.1.1, h.2.2⟩
  induction hs' with
  | init h =>
    obtain rfl : _ = s := h
    exact ⟨hinv, hdead, rfl, rfl, rfl⟩
  | step _ hC h ih =>
    obtain ⟨hinv', hdead', hsent, hdelivered, hgot⟩ := ih
    obtain ⟨hdead'', hsent', hdelivered', hgot'⟩ := hdead'.step hinv' hC h
    exact ⟨hinv'.step hC h, hdead'', hsent'.trans hsent, hdelivered'.trans hdelivered,
      hgot'.trans hgot⟩

/-- The server has sent `!`, which is no type byte. -/
def deadP : Session where
  ctx := ⟨4, protocolByteText 33, true, [], .setError 4 (protocolByteText 33) .create⟩
  control := .returned false none
  sent := readingP.sent
  delivered := [33]
  appended := [[[80]]]
  got := []

/-- Behind that another command is appended, and the call is repeated. -/
theorem dead_forever_p : ∃ s : Session, s.appended = [[[80]], [[80]]] ∧
    s.control = .returned false none ∧ s.ctx.err ≠ 0 ∧ s.sent = deadP.sent ∧
      s.delivered = deadP.delivered ∧ s.got = deadP.got := by
  have hreading : (machine noText).ReachableUnder Sized readingP :=
    readingP_reachable.mono fun _ _ h => h.1
  have hdead : (machine noText).ReachableUnder Sized deadP :=
    hreading.step (l := .read (.data [33]))
      ⟨by decide, by decide, show 0 + 1 < 2147483648 by decide⟩ rfl
  have h₁ : Lts.ReachableUnder { machine noText with init := (· = deadP) } Sized deadP := .init rfl
  have h₂ := h₁.step (l := .append [[80]]) ⟨by decide, by decide, totalLength_p⟩
    (@step_append Unit noText deadP rfl [[80]] totalLength_p)
  rw [encode_p] at h₂
  have h₃ := h₂.step (l := .getReply) ⟨by decide, by decide, trivial⟩ rfl
  exact ⟨_, rfl, rfl, dead_forever hdead rfl h₃⟩

end Session

end Invariant

end Hiredispool.Hiredis
