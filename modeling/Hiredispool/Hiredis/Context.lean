import Hiredispool.Hiredis.Command

/-!
# Contexts

Model of `redisContext` and of the functions of `hiredis.c` that write commands to its
socket and read replies from it (lines 572–586, 789–978).

`redisGetReply` is cut at its system calls: it enters, and then does one iteration of
its first or of its second loop after the other, each with what `write` or `read`
returned. `none` is what C gives no meaning.

```
do { if (redisBufferWrite(c,&wdone) == REDIS_ERR) return REDIS_ERR; } while (!wdone);
do { if (redisBufferRead(c) == REDIS_ERR) return REDIS_ERR;
     if (redisGetReplyFromReader(c,&aux) == REDIS_ERR) return REDIS_ERR; } while (aux == NULL);
```

* `redisBufferWrite_spec`, `redisBufferRead_spec`: what a system call leaves.
* `redisGetReplyFromReader_cases`: what the reader has to say.
* `redisAppendCommandArgv_spec`: a command goes behind the output buffer.

Failures of `malloc` are left out.
-/

namespace Hiredispool.Hiredis

open Hiredispool.Pool (Bytes)
open Hiredispool.Client (toInt Arg Num)

/-! ## Types -/

/-- The values of `errno` that the code asks for: all others are one. -/
inductive Errno
  | eagain
  | eintr
  | other
deriving DecidableEq

/-- What `read` returns (line 802); an error comes with the text of `strerror_r` (lines
    580–585). -/
inductive ReadResult
  | data (buf : Bytes)
  | eof
  | failed (errno : Errno) (text : Bytes)

/-- What `write` returns (line 839). -/
inductive WriteResult
  | wrote (nwritten : ℕ)
  | failed (errno : Errno) (text : Bytes)

/-- `redisContext` (hiredis.h, lines 140–161); `block` is `flags & REDIS_BLOCK`. -/
structure RedisContext where
  err : ℤ
  errstr : Bytes
  block : Bool
  obuf : Bytes
  reader : RedisReader

namespace RedisContext

/-- `redisContextInit` (lines 592–614), for a blocking context or another one. -/
def init (block : Bool) : RedisContext := ⟨0, [], block, [], .create⟩

/-- `__redisSetError` (lines 572–586): the type and the text, which are never taken back. -/
def setError (type : ℤ) (str : Bytes) (c : RedisContext) : RedisContext :=
  { c with err := type, errstr := str.take 127 }

/-! ## The socket -/

/-- "Try again later" (lines 804 and 841): `EAGAIN` of a socket that does not block, or `EINTR`.
    -/
def again (errno : Errno) (c : RedisContext) : Bool :=
  (errno = .eagain ∧ c.block = false) ∨ errno = .eintr

/-- `redisBufferRead` (lines 794–820), and whether it returns `REDIS_OK`. With an error there is
    no system call. -/
def redisBufferRead (res : ReadResult) (c : RedisContext) : RedisContext × Bool :=
  if c.err ≠ 0 then (c, false)
  else
    match res with
    | .failed errno text => if c.again errno then (c, true) else (c.setError 1 text, false)
    | .eof => (c.setError 3 (.ofString "Server closed the connection"), false)
    | .data buf =>
      match c.reader.feed buf with
      | (reader, true) => ({ c with reader := reader }, true)
      | (reader, false) => (({ c with reader := reader }).setError reader.err reader.errstr, false)

/-- Lines 847–854: what is left in `obuf` after a `write`, none of it or what `sdsrange` keeps.
    -/
def written (nwritten : ℕ) (c : RedisContext) : Option RedisContext :=
  if nwritten > 0 then
    if (nwritten : ℤ) = toInt c.obuf.length then some { c with obuf := [] }
    else (sdsrange c.obuf nwritten (-1)).map fun obuf => { c with obuf := obuf }
  else some c

/-- `redisBufferWrite` (lines 831–858): whether it returns `REDIS_OK`, and `done`. There is
    a system call only if `obuf` is not empty. -/
def redisBufferWrite (res : WriteResult) (c : RedisContext) : Option (RedisContext × Bool × Bool) :=
  if c.err ≠ 0 then some (c, false, false)
  else if c.obuf.length > 0 then
    match res with
    | .failed errno text =>
      if c.again errno then some (c, true, c.obuf.length = 0)
      else some (c.setError 1 text, false, false)
    | .wrote nwritten => (c.written nwritten).map fun c => (c, true, c.obuf.length = 0)
  else some (c, true, c.obuf.length = 0)

/-! ## Replies -/

/-- `redisGetReplyFromReader` (lines 862–868): an error of the reader becomes one of the
    context. -/
def redisGetReplyFromReader (c : RedisContext) :
    Option (RedisContext × Bool × Option ReplyObject) :=
  c.reader.getReply.map fun (reader, ok, reply) =>
    let c := { c with reader := reader }
    if ok then (c, true, reply) else (c.setError reader.err reader.errstr, false, none)

end RedisContext

/-- Where `redisGetReply` is: not called yet, in one of its loops, or returned, with
    whether it is `REDIS_OK` and with the reply. -/
inductive Control
  | idle
  | writing
  | reading
  | returned (ok : Bool) (reply : Option ReplyObject)

namespace RedisContext

/-- `redisGetReply` up to the loops (lines 870–879): a reply that is in the reader is returned
    without a system call, and a context that does not block returns anyway. -/
def getReplyEnter (c : RedisContext) : Option (RedisContext × Control) :=
  c.redisGetReplyFromReader.map fun (c, ok, aux) =>
    if !ok then (c, .returned false none)
    else if aux.isNone ∧ c.block then (c, .writing)
    else (c, .returned true aux)

/-- One iteration of "Write until done" (lines 881–884): all commands go out before anything is
    read. -/
def getReplyWrite (res : WriteResult) (c : RedisContext) : Option (RedisContext × Control) :=
  (c.redisBufferWrite res).map fun (c, ok, wdone) =>
    if !ok then (c, .returned false none)
    else if wdone then (c, .reading)
    else (c, .writing)

/-- One iteration of "Read until there is a reply" (lines 887–892). -/
def getReplyRead (res : ReadResult) (c : RedisContext) : Option (RedisContext × Control) :=
  match c.redisBufferRead res with
  | (c, false) => some (c, .returned false none)
  | (c, true) =>
    c.redisGetReplyFromReader.map fun (c, ok, aux) =>
      if !ok then (c, .returned false none)
      else if aux.isNone then (c, .reading)
      else (c, .returned true aux)

/-! ## Commands -/

/-- `__redisAppendCommand` (lines 907–918), with a length that became a `size_t`. -/
def redisAppendCommand (cmd : Bytes) (len : ℤ) (c : RedisContext) : Option RedisContext :=
  if 0 ≤ len ∧ len ≤ cmd.length then some { c with obuf := c.obuf ++ cmd.take len.toNat } else none

/-- `redisAppendCommandArgv` (lines 961–978), and whether it returns `REDIS_OK`. `int len`
    becomes a `size_t`. -/
def redisAppendCommandArgv (argv : List Bytes) (c : RedisContext) : Option (RedisContext × Bool) :=
  (redisFormatSdsCommandArgv argv).bind fun (cmd, len) =>
    if len = -1 then some (c.setError 5 (.ofString "Out of memory"), false)
    else (c.redisAppendCommand cmd len).map fun c => (c, true)

/-- `redisvAppendCommand` (lines 929–949): an invalid format is an error of the context (line
    938). -/
def redisvAppendCommand {D : Type} (text : Bytes → Num D → Bytes) (format : Bytes)
    (args : List (Arg D)) (c : RedisContext) : Option (RedisContext × Bool) :=
  match Client.redisvFormatCommand text format args with
  | .error .undefined => none
  | .error .invalid => some (c.setError 2 (.ofString "Invalid format string"), false)
  | .ok argv =>
    (redisFormatCommandArgv argv).bind fun (cmd, len) =>
      (c.redisAppendCommand cmd len).map fun c => (c, true)

/-! ## What they do -/

/-- What `write` takes of the output buffer. -/
def takes (res : WriteResult) (c : RedisContext) : Bytes :=
  match res with
  | .wrote nwritten => if c.err = 0 then c.obuf.take nwritten else []
  | .failed _ _ => []

/-- What `read` brings. -/
def brings (res : ReadResult) (c : RedisContext) : Bytes :=
  match res with
  | .data buf => if c.err = 0 then buf else []
  | _ => []

/-- No more is written than there is. -/
def CanTake (res : WriteResult) (c : RedisContext) : Prop :=
  match res with
  | .wrote nwritten => nwritten ≤ c.obuf.length
  | .failed _ _ => True

/-- The error is set. -/
theorem setError_err {type : ℤ} (h : type ≠ 0) (str : Bytes) (c : RedisContext) :
    (c.setError type str).err ≠ 0 := h

/-- What `write` took is gone, and what it did not take stays in order. -/
theorem written_spec {c : RedisContext} {n : ℕ} (hn : n ≤ c.obuf.length)
    (hlen : c.obuf.length < 2147483648) :
    c.written n = some { c with obuf := c.obuf.drop n } := by
  unfold written
  split
  · rw [toInt_natCast hlen]
    split
    · next heq => rw [Nat.cast_inj.mp heq, List.drop_length]
    · rw [sdsrange_drop hn hlen]
      rfl
  · next h0 =>
    obtain rfl : n = 0 := by omega
    rw [List.drop_zero]

/-- What `redisBufferWrite` leaves: with an error everything as it was, otherwise the
    buffer without what `write` took. -/
theorem redisBufferWrite_spec {c : RedisContext} {res : WriteResult} (hres : c.CanTake res)
    (hlen : c.obuf.length < 2147483648) :
    ∃ c' ok wdone, c.redisBufferWrite res = some (c', ok, wdone) ∧ c'.reader = c.reader ∧
      c'.block = c.block ∧ takes res c ++ c'.obuf = c.obuf ∧
      (ok = false → c'.err ≠ 0) ∧ (ok = true → c'.err = 0) ∧ (c.err ≠ 0 → ok = false) ∧
      (wdone = true → c'.obuf = []) := by
  unfold redisBufferWrite
  by_cases herr : c.err ≠ 0
  · rw [if_pos herr]
    refine ⟨c, false, false, rfl, rfl, rfl, ?_, fun _ => herr, by simp, fun _ => rfl, by simp⟩
    cases res with
    | wrote n => rw [takes, if_neg herr, List.nil_append]
    | failed errno text => rfl
  · have h0 : c.err = 0 := not_not.mp herr
    rw [if_neg herr]
    split
    · next hpos =>
      cases res with
      | wrote n =>
        dsimp only
        rw [written_spec hres hlen]
        refine ⟨_, true, _, rfl, rfl, rfl, ?_, by simp, fun _ => h0, fun h => absurd h0 h, ?_⟩
        · rw [takes, if_pos h0]
          exact List.take_append_drop n c.obuf
        · intro hdone
          exact List.eq_nil_of_length_eq_zero (of_decide_eq_true hdone)
      | failed errno text =>
        dsimp only
        split
        · refine ⟨c, true, _, rfl, rfl, rfl, rfl, by simp, fun _ => h0, fun h => absurd h0 h, ?_⟩
          intro hdone
          exact List.eq_nil_of_length_eq_zero (of_decide_eq_true hdone)
        · exact ⟨c.setError 1 text, false, false, rfl, rfl, rfl, rfl, fun _ => setError_err (by decide) _ _,
            by simp, fun h => absurd h0 h, by simp⟩
    · next hpos =>
      have hnil : c.obuf = [] := List.eq_nil_of_length_eq_zero (by omega)
      refine ⟨c, true, _, rfl, rfl, rfl, ?_, by simp, fun _ => h0, fun h => absurd h0 h, fun _ => hnil⟩
      cases res with
      | wrote n => rw [takes, if_pos h0, hnil, List.take_nil, List.nil_append]
      | failed errno text => rfl

/-- What `redisBufferRead` leaves, if the reader has no error. -/
theorem redisBufferRead_spec {c : RedisContext} (res : ReadResult) (hreader : c.reader.err = 0) :
    ∃ c' ok, c.redisBufferRead res = (c', ok) ∧ c'.block = c.block ∧ c'.obuf = c.obuf ∧
      (ok = true → c'.err = 0 ∧
        (brings res c = [] ∧ c'.reader = c.reader ∨
          c'.reader = (c.reader.feed (brings res c)).1)) ∧
      (ok = false → c'.err ≠ 0 ∧ brings res c = [] ∧ c'.reader = c.reader) := by
  unfold redisBufferRead
  by_cases herr : c.err ≠ 0
  · rw [if_pos herr]
    refine ⟨c, false, rfl, rfl, rfl, by simp, fun _ => ⟨herr, ?_, rfl⟩⟩
    cases res with
    | data buf => rw [brings, if_neg herr]
    | eof => rfl
    | failed errno text => rfl
  · have h0 : c.err = 0 := not_not.mp herr
    rw [if_neg herr]
    cases res with
    | data buf =>
      have hfeed : c.reader.feed buf = ((c.reader.feed buf).1, true) := by
        rw [RedisReader.feed, if_neg (by omega)]
      dsimp only
      rw [hfeed]
      refine ⟨_, true, rfl, rfl, rfl, fun _ => ⟨h0, Or.inr ?_⟩, by simp⟩
      rw [brings, if_pos h0]
    | eof =>
      exact ⟨_, false, rfl, rfl, rfl, by simp,
        fun _ => ⟨setError_err (by decide) _ _, rfl, rfl⟩⟩
    | failed errno text =>
      dsimp only
      split
      · exact ⟨c, true, rfl, rfl, rfl, fun _ => ⟨h0, Or.inl ⟨rfl, rfl⟩⟩, by simp⟩
      · exact ⟨_, false, rfl, rfl, rfl, by simp,
        fun _ => ⟨setError_err (by decide) _ _, rfl, rfl⟩⟩

/-- What the reader has to say: one more reply, or it has no more. An error of the reader is one
    of the context from then on. -/
theorem redisGetReplyFromReader_cases {c c' : RedisContext} {fed : Bytes} {got : List ReplyObject}
    {ok : Bool} {reply : Option ReplyObject} (hrun : c.reader.Run fed got)
    (hlen : c.reader.buf.length < 2147483648)
    (h : c.redisGetReplyFromReader = some (c', ok, reply)) :
    c'.block = c.block ∧ c'.obuf = c.obuf ∧ c'.reader.Run fed (got ++ reply.toList) ∧
      (reply = none → got = (parseReplies fed).1) ∧
      (ok = true ∧ c'.err = c.err ∧ c'.reader.err = 0 ∧
          c.reader.getReply = some (c'.reader, true, reply) ∨
        ok = false ∧ reply = none ∧ c'.err ≠ 0) := by
  obtain ⟨⟨reader, ok', reply'⟩, hget, hctx⟩ := Option.map_eq_some_iff.mp h
  have hrun' := hrun.getReply hlen hget
  cases ok' with
  | true =>
    obtain ⟨rfl, rfl, rfl⟩ := hctx
    cases reply with
    | some obj =>
      exact ⟨rfl, rfl, hrun', by simp, Or.inl ⟨rfl, rfl, (hrun.getReply_some hlen hget).2, hget⟩⟩
    | none =>
      obtain ⟨hall, ⟨-, herr, -⟩ | ⟨errstr, hok, -⟩⟩ := hrun.exhausted_parse hlen hget
      · exact ⟨rfl, rfl, hrun', fun _ => hall, Or.inl ⟨rfl, rfl, herr, hget⟩⟩
      · cases hok
  | false =>
    cases reply' with
    | some obj => exact absurd (hrun.getReply_some hlen hget).1 Bool.false_ne_true
    | none =>
      obtain ⟨hall, ⟨hok, -⟩ | ⟨errstr, -, rfl, -⟩⟩ := hrun.exhausted_parse hlen hget
      · cases hok
      · obtain ⟨rfl, rfl, rfl⟩ := hctx
        exact ⟨rfl, rfl, hrun', fun _ => hall, Or.inr ⟨rfl, rfl, (by decide : (4 : ℤ) ≠ 0)⟩⟩

/-- Nor does it need more room: fetching moves on in the buffer. -/
theorem redisGetReplyFromReader_buf_le {c c' : RedisContext} {ok : Bool}
    {reply : Option ReplyObject} (h : c.redisGetReplyFromReader = some (c', ok, reply)) :
    c'.reader.buf.length ≤ c.reader.buf.length := by
  obtain ⟨⟨reader, ok', reply'⟩, hget, hctx⟩ := Option.map_eq_some_iff.mp h
  have hle := RedisReader.getReply_buf_le hget
  cases ok' <;> cases hctx <;> exact hle

/-- A command of less than 2^31 bytes goes behind the output buffer, as an array of its
    arguments. -/
theorem redisAppendCommandArgv_spec {argv : List Bytes} (h : totalLength argv < 2147483648)
    (c : RedisContext) : c.redisAppendCommandArgv argv =
      some ({ c with obuf := c.obuf ++ encode (argvReply argv) }, true) := by
  have hlen := length_encode_argv argv
  rw [redisAppendCommandArgv, redisFormatSdsCommandArgv_eq h, Option.bind_some]
  dsimp only
  rw [if_neg (by omega), redisAppendCommand, if_pos (by omega), Int.toNat_natCast, ← hlen,
    List.take_length]
  rfl

/-- A format gives a command that is short enough and is appended, or it is invalid. -/
theorem redisvAppendCommand_cases {D : Type} {text : Bytes → Num D → Bytes} {format : Bytes}
    {args : List (Arg D)} {c c' : RedisContext} {ok : Bool}
    (h : c.redisvAppendCommand text format args = some (c', ok)) :
    (∃ argv, Client.redisvFormatCommand text format args = .ok argv ∧
        totalLength argv < 2147483648 ∧ ok = true ∧
        c' = { c with obuf := c.obuf ++ encode (argvReply argv) }) ∨
      Client.redisvFormatCommand text format args = .error .invalid ∧ ok = false ∧
        c' = c.setError 2 (.ofString "Invalid format string") := by
  unfold redisvAppendCommand at h
  cases hformat : Client.redisvFormatCommand text format args with
  | ok argv =>
    rw [hformat] at h
    obtain ⟨result, hcmd, h⟩ := Option.bind_eq_some_iff.mp h
    have hshort := redisFormatCommandArgv_short hcmd
    have hlen := length_encode_argv argv
    rw [redisFormatCommandArgv_eq hshort] at hcmd
    obtain rfl := Option.some.inj hcmd
    dsimp only at h
    rw [redisAppendCommand, if_pos (by omega), Int.toNat_natCast, ← hlen, List.take_length] at h
    cases h
    exact Or.inl ⟨argv, rfl, by omega, rfl, rfl⟩
  | error e =>
    rw [hformat] at h
    cases e with
    | invalid =>
      cases h
      exact Or.inr ⟨rfl, rfl, rfl⟩
    | undefined => cases h

end RedisContext

end Hiredispool.Hiredis
