import Hiredispool.Config.Update
import Hiredispool.Hiredis.Context
import Hiredispool.Hiredis.Dict
import Hiredispool.Lib.CBuffer

/-!
# Asynchronous contexts

Model of `async.c` and of the event hooks of `adapters/libevent.h`: an event library calls
the two handlers when the socket is ready, and the context calls the callbacks of the
application, which may call the context in turn. Here are the context and the functions that
call no callback; the others are in `AsyncMachine`.

* The functions are cut where a callback of the application is called, and the loop of
  `redisProcessCallbacks` and those of `__redisAsyncFree` are cut at each iteration;
  `AsyncControl` says where the execution is.
* An event of `libevent.h` is not persistent: it is gone when its handler is called.
* `none` is what C gives no meaning, and an assertion that fails.

`__redisAsyncCommand` looks for the name and the arguments in the formatted command, which is a
text for it: `nextArgument` goes from one `$` to the next (lines 566–578). That it finds what
was formatted is `nextArgument_cons`, and that a further line end in the name does no harm
`special_append`.

Failures of `malloc` and the user data of the context are left out.
-/

namespace Hiredispool.Hiredis

open Hiredispool.Pool (Bytes cStr)
open Hiredispool.Client (toInt Arg Num)

/-! ## Types -/

/-- `redisCallback` (async.h, lines 45–49). The next one is the next in the list. A callback
    without a function is not called (line 267). -/
structure RedisCallback where
  fn : Option ℕ
  privdata : ℕ
deriving DecidableEq

/-- An `sds` whose length is an `int`: the name of a channel or of a pattern. -/
abbrev Name := { s : Bytes // s.length < 2147483648 }

/-- `dictGenHashFunction` (dict.c, lines 53–59): `hash = ((hash << 5) + hash) + (*buf++)`, from
    5381 on, in an `unsigned int`. -/
def dictGenHashFunction (buf : Bytes) : UInt32 :=
  buf.foldl (fun hash c => (hash <<< 5) + hash + c.toUInt32) 5381

/-- `callbackKeyCompare` (lines 76–84): the lengths as `int`, then `memcmp`. -/
def callbackKeyCompare (key₁ key₂ : Name) : Bool :=
  let l₁ := toInt key₁.1.length
  let l₂ := toInt key₂.1.length
  if l₁ ≠ l₂ then false else key₁.1.take l₁.toNat = key₂.1.take l₁.toNat

/-- Names of less than 2^31 bytes are compared whole. -/
theorem callbackKeyCompare_iff (key₁ key₂ : Name) :
    callbackKeyCompare key₁ key₂ = true ↔ key₁ = key₂ := by
  have h₁ : toInt key₁.1.length = key₁.1.length := toInt_natCast key₁.2
  have h₂ : toInt key₂.1.length = key₂.1.length := toInt_natCast key₂.2
  unfold callbackKeyCompare
  dsimp only
  rw [h₁, h₂, Int.toNat_natCast, List.take_length]
  by_cases hlen : key₁.1.length = key₂.1.length
  · rw [if_neg (by omega), hlen, List.take_length, decide_eq_true_iff, Subtype.ext_iff]
  · rw [if_pos (by omega)]
    refine iff_of_false Bool.false_ne_true ?_
    rintro rfl
    exact hlen rfl

/-- `callbackDict` (lines 96–103), the type of the tables of channels and patterns. -/
def callbackDict : DictType Name where
  hashFunction key := dictGenHashFunction key.1
  keyCompare := callbackKeyCompare
  keyCompare_iff := callbackKeyCompare_iff

/-- `redisAsyncContext` (async.h, lines 61–101). The flags of `c` but `REDIS_BLOCK` are
    here, `onConnect` and `onDisconnect` say whether there is such a callback, and `evRead`
    and `evWrite` whether the event has been added. -/
structure RedisAsyncContext where
  c : RedisContext
  connected : Bool
  disconnecting : Bool
  freeing : Bool
  inCallback : Bool
  subscribed : Bool
  monitoring : Bool
  err : ℤ
  onConnect : Bool
  onDisconnect : Bool
  replies : List RedisCallback
  invalid : List RedisCallback
  channels : Dict Name RedisCallback
  patterns : Dict Name RedisCallback
  evRead : Bool
  evWrite : Bool

namespace RedisAsyncContext

/-- `redisAsyncInitialize` (lines 105–140), and then `redisLibeventAttach`, which adds both
    events. -/
def asyncInitialize (c : RedisContext) : RedisAsyncContext where
  c := c
  connected := false
  disconnecting := false
  freeing := false
  inCallback := false
  subscribed := false
  monitoring := false
  err := c.err
  onConnect := false
  onDisconnect := false
  replies := []
  invalid := []
  channels := .create
  patterns := .create
  evRead := true
  evWrite := true

/-! ## Callbacks to be called -/

/-- `redisAsyncSetConnectCallback` (lines 205–216), and whether it returns `REDIS_OK`: a second
    one is refused, the first one schedules a write, which will tell of the connection. -/
def setConnectCallback (ac : RedisAsyncContext) : RedisAsyncContext × Bool :=
  if ac.onConnect then (ac, false) else ({ ac with onConnect := true, evWrite := true }, true)

/-- `redisAsyncSetDisconnectCallback` (lines 218–224), and whether it returns `REDIS_OK`. -/
def setDisconnectCallback (ac : RedisAsyncContext) : RedisAsyncContext × Bool :=
  if ac.onDisconnect then (ac, false) else ({ ac with onDisconnect := true }, true)

/-- `tolower` in the C locale. -/
def toLower (b : UInt8) : UInt8 := if 65 ≤ b ∧ b ≤ 90 then b + 32 else b

/-- `strncasecmp(s, lit, n) == 0`, where `n` is the length of the literal. -/
def caseEq (s lit : Bytes) : Bool := (s.take lit.length).map toLower = lit

/-- `(P)UNSUBSCRIBE` and so on: the name of a command without a `p` in front (lines 604–606). -/
def variant (s : Bytes) : Bool × Bytes :=
  if toLower (s.headD 0) = 112 then (true, s.drop 1) else (false, s)

/-- `__redisGetSubscribeCallback` (lines 364–409): `dstcb` stays as it was if there is no entry.
    The message `unsubscribe` takes the entry out, and the last one ends the subscribed mode. -/
def getSubscribeCallback (reply : ReplyObject) (dstcb : RedisCallback) (ac : RedisAsyncContext) :
    Option (RedisAsyncContext × RedisCallback) :=
  match reply with
  | .array (.string stype :: .string str :: rest) =>
    let (pvariant, kind) := variant stype
    if hlen : str.length < 2147483648 then
      let callbacks := if pvariant then ac.patterns else ac.channels
      (callbacks.dictFind callbackDict ⟨str, hlen⟩).bind fun de =>
        match de with
        | none => some (ac, dstcb)
        | some de =>
          if (cStr kind).map toLower = Bytes.ofString "unsubscribe" then
            (callbacks.dictDelete callbackDict ⟨str, hlen⟩).bind fun (callbacks, _) =>
              let ac :=
                if pvariant then { ac with patterns := callbacks }
                else { ac with channels := callbacks }
              match rest with
              | .integer n :: _ =>
                some ({ ac with subscribed := ac.subscribed && decide (n ≠ 0) }, de.2)
              | _ => none
          else some (ac, de.2)
    else none
  | .array _ => none
  | .counted _ => none
  | _ =>
    match ac.invalid with
    | [] => some (ac, dstcb)
    | cb :: invalid => some ({ ac with invalid := invalid }, cb)

/-! ## Commands -/

/-- `nextArgument` (lines 566–578): the argument with all that comes behind it, its length, and
    what comes after it. `some none` is `NULL`: there is no `$`. -/
def nextArgument (start : Bytes) : Option (Option (Bytes × ℕ × Bytes)) :=
  let p := if start.head? = some 36 then some start
    else (CBuffer.strchr 36 (cStr start)).map start.drop
  match p with
  | none => some none
  | some p => do
    let len := Config.atoi p.tail
    let i ← CBuffer.strchr 13 (cStr p)
    let p := p.drop i
    if len < 0 ∨ (p.length : ℤ) < len + 4 then none
    else return some (p.drop 2, len.toNat, p.drop (len.toNat + 4))

/-- The loop over the channels of a `(P)SUBSCRIBE` (lines 612–620): `dictReplace` for each of
    them, with the one callback. -/
def subscribe (pvariant : Bool) (cb : RedisCallback) : ℕ → Bytes → RedisAsyncContext →
    Option RedisAsyncContext
  | 0, _, _ => none
  | fuel + 1, p, ac =>
    (nextArgument p).bind fun arg =>
      match arg with
      | none => some ac
      | some (astr, alen, p) =>
        if hlen : (astr.take alen).length < 2147483648 then
          if pvariant then
            (ac.patterns.dictReplace callbackDict ⟨astr.take alen, hlen⟩ cb).bind fun (dict, _) =>
              subscribe pvariant cb fuel p { ac with patterns := dict }
          else
            (ac.channels.dictReplace callbackDict ⟨astr.take alen, hlen⟩ cb).bind fun (dict, _) =>
              subscribe pvariant cb fuel p { ac with channels := dict }
        else none

/-- Lines 642–647: the command is appended and a write is scheduled, whether or not one is
    already. -/
def append (cmd : Bytes) (len : ℤ) (ac : RedisAsyncContext) : Option (RedisAsyncContext × Bool) :=
  (ac.c.redisAppendCommand cmd len).map fun c => ({ ac with c := c, evWrite := true }, true)

/-- `__redisAsyncCommand` (lines 583–648), and whether it returns `REDIS_OK`. The callback goes
    into the tables, into the queue or among those of invalid commands, or nowhere
    (`UNSUBSCRIBE`). -/
def asyncCommand (cb : RedisCallback) (cmd : Bytes) (len : ℤ) (ac : RedisAsyncContext) :
    Option (RedisAsyncContext × Bool) := do
  if ac.disconnecting ∨ ac.freeing then return (ac, false)
  -- `assert(p != NULL)`
  let (cstr, _, p) ← (← nextArgument cmd)
  let hasnext := p.head? = some 36
  let (pvariant, cstr) := variant cstr
  if hasnext ∧ caseEq cstr (Bytes.ofString "subscribe\r\n") then
    append cmd len (← subscribe pvariant cb (cmd.length + 1) p { ac with subscribed := true })
  else if caseEq cstr (Bytes.ofString "unsubscribe\r\n") then
    if !ac.subscribed then return (ac, false)
    append cmd len ac
  else if caseEq cstr (Bytes.ofString "monitor\r\n") then
    append cmd len { ac with monitoring := true, replies := ac.replies ++ [cb] }
  else if ac.subscribed then append cmd len { ac with invalid := ac.invalid ++ [cb] }
  else append cmd len { ac with replies := ac.replies ++ [cb] }

/-- `redisAsyncCommandArgv` (lines 674–682). -/
def asyncCommandArgv (cb : RedisCallback) (argv : List Bytes) (ac : RedisAsyncContext) :
    Option (RedisAsyncContext × Bool) :=
  (redisFormatSdsCommandArgv argv).bind fun (cmd, len) => ac.asyncCommand cb cmd len

/-- `redisvAsyncCommand` (lines 650–663). "We don't want to pass -1 or -2 to future functions as
    a length": an invalid format is refused. -/
def vAsyncCommand {D : Type} (text : Bytes → Num D → Bytes) (cb : RedisCallback) (format : Bytes)
    (args : List (Arg D)) (ac : RedisAsyncContext) : Option (RedisAsyncContext × Bool) :=
  match Client.redisvFormatCommand text format args with
  | .error .undefined => none
  | .error .invalid => some (ac, false)
  | .ok argv => (redisFormatCommandArgv argv).bind fun (cmd, len) => ac.asyncCommand cb cmd len

/-! ## Commands with one reply -/

/-- The commands for which `__redisAsyncCommand` has branches of its own (lines 608, 621 and
    629). -/
def isSpecial (name : Bytes) : Bool :=
  let base := (variant (name ++ [13, 10])).2
  caseEq base (Bytes.ofString "subscribe\r\n") || caseEq base (Bytes.ofString "unsubscribe\r\n") ||
    caseEq base (Bytes.ofString "monitor\r\n")

/-- A command that fits an `int` and for which the server sends one reply. -/
def Regular (argv : List Bytes) : Prop :=
  totalLength argv < 2147483648 ∧ ∃ name args, argv = name :: args ∧ isSpecial name = false

/-- `strchr` finds the first `$` or `\r`, if no NUL comes before it. -/
theorem strchr_cStr (before after : Bytes) {c : UInt8} (hc : c ∉ before) (h0 : 0 ∉ before)
    (hc0 : c ≠ 0) : CBuffer.strchr c (cStr (before ++ c :: after)) = some before.length := by
  have htake : cStr (before ++ c :: after) = before ++ c :: cStr after := by
    unfold cStr
    rw [List.takeWhile_append_of_pos, List.takeWhile_cons_of_pos (by simpa using hc0)]
    intro b hb
    simpa using ne_of_mem_of_not_mem hb h0
  rw [htake, CBuffer.strchr, List.idxOf?_eq_some_iff]
  refine ⟨by simp, by simp, fun j hj => ?_⟩
  rw [List.getElem_append_left hj]
  simpa using ne_of_mem_of_not_mem (List.getElem_mem hj) hc

/-- In a number there is nothing below `0`, neither `$` nor `\r` nor NUL. -/
theorem not_mem_ofNat {c : UInt8} (h : c < 48) (n : ℕ) : c ∉ Decimal.ofNat n := by
  intro hmem
  obtain ⟨d, hd, rfl⟩ := Decimal.mem_ofNat hmem
  have := Decimal.toNat_digit hd
  have := UInt8.lt_iff_toNat_lt.mp h
  have h48 : (48 : UInt8).toNat = 48 := rfl
  omega

/-- A number is written with digits. -/
theorem digit_bounds {n : ℕ} {b : UInt8} (h : b ∈ Decimal.ofNat n) : 48 ≤ b ∧ b ≤ 57 := by
  obtain ⟨d, hd, rfl⟩ := Decimal.mem_ofNat h
  have := Decimal.toNat_digit hd
  have h48 : (48 : UInt8).toNat = 48 := rfl
  have h57 : (57 : UInt8).toNat = 57 := rfl
  rw [UInt8.le_iff_toNat_le, UInt8.le_iff_toNat_le]
  omega

/-- The digits of `strtol` in `ℤ` and in `ℕ`. -/
theorem foldl_digits (l : Bytes) (hl : ∀ b ∈ l, 48 ≤ b) (n : ℕ) :
    l.foldl (fun n b => 10 * n + ((b.toNat : ℤ) - 48)) (n : ℤ) =
      (l.foldl (fun n b => 10 * n + (b.toNat - 48)) n : ℕ) := by
  induction l generalizing n with
  | nil => rfl
  | cons b l ih =>
    have hb := UInt8.le_iff_toNat_le.mp (hl b List.mem_cons_self)
    have h48 : (48 : UInt8).toNat = 48 := rfl
    rw [List.foldl_cons, List.foldl_cons, ← ih fun b hb => hl b (List.mem_cons_of_mem _ hb)]
    congr 1
    omega

/-- `strtol` stops at the line end. -/
theorem digits_ofNat (n : ℕ) (rest : Bytes) :
    Config.digits (Decimal.ofNat n ++ 13 :: rest) = n := by
  have htake : (Decimal.ofNat n ++ 13 :: rest).takeWhile (fun b => 48 ≤ b ∧ b ≤ 57) =
      Decimal.ofNat n := by
    rw [List.takeWhile_append_of_pos fun b hb => by simpa using digit_bounds hb,
      List.takeWhile_cons_of_neg (by decide), List.append_nil]
  rw [Config.digits, htake]
  exact (foldl_digits _ (fun b hb => (digit_bounds hb).1) 0).trans
    (congrArg _ (Decimal.toNat_ofNat n))

/-- Neither blanks nor a sign come before a length. -/
theorem strtol_ofNat {n : ℕ} (hn : n < 2147483648) (rest : Bytes) :
    Config.strtol (Decimal.ofNat n ++ 13 :: rest) = n := by
  have hdigits := digits_ofNat n rest
  cases htext : Decimal.ofNat n with
  | nil => exact absurd htext (Decimal.ofNat_ne_nil n)
  | cons b l =>
    have hb : 48 ≤ b ∧ b ≤ 57 := digit_bounds (htext ▸ List.mem_cons_self)
    have hspace : Config.isSpace b = false := by
      rw [Config.isSpace, decide_eq_false_iff_not]
      rintro (rfl | ⟨-, h⟩)
      · exact absurd hb.1 (by decide)
      · exact absurd (UInt8.le_trans hb.1 h) (by decide)
    have h45 : b ≠ 45 := by rintro rfl; exact absurd hb.1 (by decide)
    have h43 : b ≠ 43 := by rintro rfl; exact absurd hb.1 (by decide)
    rw [htext] at hdigits
    unfold Config.strtol
    rw [List.cons_append, List.dropWhile_cons_of_neg (by simp [hspace])]
    split
    · next heq => exact absurd (List.cons.inj heq).1 h45
    · next heq => exact absurd (List.cons.inj heq).1 h43
    · rw [← List.cons_append, hdigits]
      omega

/-- `(int)strtol` of a length. -/
theorem atoi_ofNat {n : ℕ} (hn : n < 2147483648) (rest : Bytes) :
    Config.atoi (Decimal.ofNat n ++ 13 :: rest) = n := by
  have hcut : cStr (Decimal.ofNat n ++ 13 :: rest) = Decimal.ofNat n ++ 13 :: cStr rest := by
    unfold cStr
    rw [List.takeWhile_append_of_pos, List.takeWhile_cons_of_pos (by decide)]
    intro b hb
    have : (0 : UInt8) ∉ Decimal.ofNat n := not_mem_ofNat (by decide) n
    simpa using ne_of_mem_of_not_mem hb this
  rw [Config.atoi, hcut, strtol_ofNat hn]
  exact toInt_natCast hn

/-- An argument is its length and its bytes, and the others follow. -/
theorem encodeAll_strings_cons (arg : Bytes) (args : List Bytes) :
    encodeAll ((arg :: args).map .string) =
      36 :: (Decimal.ofNat arg.length ++ 13 :: (10 :: (arg ++ 13 :: 10 ::
        encodeAll (args.map .string)))) := by
  rw [List.map_cons, encodeAll, encode, ofInt_natCast]
  simp [encodeLine]

/-- `nextArgument` at an argument of a formatted command. -/
theorem nextArgument_cons {arg : Bytes} (h : arg.length < 2147483648) (args : List Bytes) :
    nextArgument (encodeAll ((arg :: args).map .string)) =
      some (some (arg ++ 13 :: 10 :: encodeAll (args.map .string), arg.length,
        encodeAll (args.map .string))) := by
  rw [encodeAll_strings_cons]
  have hstr := strchr_cStr (36 :: Decimal.ofNat arg.length)
    (10 :: (arg ++ 13 :: 10 :: encodeAll (args.map .string))) (c := 13)
    (by
      rw [List.mem_cons, not_or]
      exact ⟨by decide, not_mem_ofNat (by decide) _⟩)
    (by
      rw [List.mem_cons, not_or]
      exact ⟨by decide, not_mem_ofNat (by decide) _⟩) (by decide)
  rw [List.cons_append] at hstr
  have hdrop : (36 :: (Decimal.ofNat arg.length ++ 13 :: (10 :: (arg ++ 13 :: 10 ::
      encodeAll (args.map .string))))).drop (36 :: Decimal.ofNat arg.length).length =
      13 :: 10 :: (arg ++ 13 :: 10 :: encodeAll (args.map .string)) := by
    rw [List.length_cons, List.drop_succ_cons, List.drop_left]
  unfold nextArgument
  rw [List.head?_cons, if_pos rfl]
  dsimp only
  rw [List.tail_cons, atoi_ofNat h, hstr, Option.bind_eq_bind, Option.bind_some, hdrop, if_neg]
  · simp
  · simp
    omega

/-- The first `$` of a command is that of its name, for `*` and the number come before it. -/
theorem nextArgument_argv {arg : Bytes} (h : arg.length < 2147483648) (args : List Bytes) :
    nextArgument (encode (argvReply (arg :: args))) =
      some (some (arg ++ 13 :: 10 :: encodeAll (args.map .string), arg.length,
        encodeAll (args.map .string))) := by
  have hcmd : encode (argvReply (arg :: args)) =
      (42 :: Decimal.ofNat (args.length + 1) ++ [13, 10]) ++
        encodeAll ((arg :: args).map .string) := by
    rw [argvReply, encode, List.length_map, List.length_cons, ofInt_natCast]
    simp [encodeLine]
  have hrest := encodeAll_strings_cons arg args
  have hstr := strchr_cStr (42 :: Decimal.ofNat (args.length + 1) ++ [13, 10])
    (encodeAll ((arg :: args).map .string)).tail (c := 36)
    (by simpa using not_mem_ofNat (by decide) _) (by simpa using not_mem_ofNat (by decide) _)
    (by decide)
  have hcons : 36 :: (encodeAll ((arg :: args).map .string)).tail =
      encodeAll ((arg :: args).map .string) := by
    rw [hrest, List.tail_cons]
  rw [hcons] at hstr
  rw [← nextArgument_cons h args, hcmd, nextArgument, nextArgument, hstr, hrest]
  simp

/-! ## Names -/

/-- A name that is too short has its line end where the word has a letter. -/
theorem caseEq_short {x w : Bytes} (hw : 13 ∉ w) (hlt : x.length < w.length) (r l : Bytes) :
    caseEq (x ++ 13 :: r) (w ++ l) = false := by
  rw [caseEq, decide_eq_false_iff_not]
  intro heq
  have hget := congrArg (·[x.length]?) heq
  have hx : ((x ++ 13 :: r).take (w ++ l).length)[x.length]? = some 13 := by
    rw [List.getElem?_take_of_lt (by simp; omega), List.getElem?_append_right le_rfl, Nat.sub_self]
    rfl
  simp only [List.getElem?_map, hx, List.getElem?_append_left hlt, Option.map_some] at hget
  exact hw (List.mem_of_getElem? hget.symm)

/-- What comes behind the end of the line is not looked at. -/
theorem caseEq_append (x : Bytes) {w : Bytes} (hw : 13 ∉ w) (rest : Bytes) :
    caseEq (x ++ 13 :: 10 :: rest) (w ++ [13, 10]) = caseEq (x ++ [13, 10]) (w ++ [13, 10]) := by
  by_cases hlt : x.length < w.length
  · rw [caseEq_short hw hlt, caseEq_short hw hlt]
  · have htake : (x ++ 13 :: 10 :: rest).take (w ++ [13, 10]).length =
        (x ++ [13, 10]).take (w ++ [13, 10]).length := by
      rw [show x ++ 13 :: 10 :: rest = (x ++ [13, 10]) ++ rest by simp,
        List.take_append_of_le_length]
      simp
      omega
    rw [caseEq, caseEq, htake]

/-- Whether there is a `p` does not depend on what comes behind the name. -/
theorem variant_append (name rest : Bytes) :
    ∃ x, (variant (name ++ 13 :: 10 :: rest)).2 = x ++ 13 :: 10 :: rest ∧
      (variant (name ++ [13, 10])).2 = x ++ [13, 10] := by
  have h13 : ¬toLower 13 = 112 := by decide
  cases name with
  | nil => exact ⟨[], by simp [variant, h13], by simp [variant, h13]⟩
  | cons b name =>
    by_cases hp : toLower b = 112
    · exact ⟨name, by simp [variant, hp], by simp [variant, hp]⟩
    · exact ⟨b :: name, by simp [variant, hp], by simp [variant, hp]⟩

/-- `strncasecmp(cstr,"subscribe\r\n",11)` looks at the name and its line end, and not at the
    arguments. -/
theorem special_append (name rest : Bytes) {w : Bytes} (hw : 13 ∉ w) :
    caseEq (variant (name ++ 13 :: 10 :: rest)).2 (w ++ [13, 10]) =
      caseEq (variant (name ++ [13, 10])).2 (w ++ [13, 10]) := by
  obtain ⟨x, h₁, h₂⟩ := variant_append name rest
  rw [h₁, h₂, caseEq_append x hw]

/-- A command of less than 2^31 bytes goes behind the output buffer. -/
theorem append_argv {argv : List Bytes} (h : totalLength argv < 2147483648)
    (ac : RedisAsyncContext) : append (encode (argvReply argv)) (totalLength argv) ac =
      some ({ ac with
        c := { ac.c with obuf := ac.c.obuf ++ encode (argvReply argv) }, evWrite := true }, true) := by
  have hlen := length_encode_argv argv
  rw [append, RedisContext.redisAppendCommand, if_pos (by omega), Int.toNat_natCast, ← hlen,
    List.take_length]
  rfl

/-- A regular command is refused, or its callback goes to the end of the queue, the command
    is appended, and a write is scheduled. -/
theorem asyncCommand_regular {cb : RedisCallback} {argv : List Bytes} (h : Regular argv)
    (ac : RedisAsyncContext) (hsub : ac.subscribed = false) :
    ac.asyncCommand cb (encode (argvReply argv)) (totalLength argv) =
      if ac.disconnecting ∨ ac.freeing then some (ac, false)
      else some ({ ac with
        c := { ac.c with obuf := ac.c.obuf ++ encode (argvReply argv) }
        replies := ac.replies ++ [cb]
        evWrite := true }, true) := by
  obtain ⟨hlen, name, args, rfl, hname⟩ := h
  have harg : name.length < 2147483648 := by
    have := hlen
    simp only [totalLength, List.map_cons, List.sum_cons, bulklen] at this
    omega
  by_cases hrefused : ac.disconnecting = true ∨ ac.freeing = true
  · simp [asyncCommand, hrefused]
  · have happend := append_argv hlen
    have hspecial : ∀ w : Bytes, 13 ∉ w →
        caseEq (variant (name ++ 13 :: 10 :: encodeAll (args.map .string))).2 (w ++ [13, 10]) =
          caseEq (variant (name ++ [13, 10])).2 (w ++ [13, 10]) :=
      fun w hw => special_append name _ hw
    have h₁ := hspecial (Bytes.ofString "subscribe") (by decide)
    have h₂ := hspecial (Bytes.ofString "unsubscribe") (by decide)
    have h₃ := hspecial (Bytes.ofString "monitor") (by decide)
    rw [show Bytes.ofString "subscribe" ++ [13, 10] = Bytes.ofString "subscribe\r\n" by decide] at h₁
    rw [show Bytes.ofString "unsubscribe" ++ [13, 10] = Bytes.ofString "unsubscribe\r\n" by decide]
      at h₂
    rw [show Bytes.ofString "monitor" ++ [13, 10] = Bytes.ofString "monitor\r\n" by decide] at h₃
    simp only [isSpecial, Bool.or_eq_false_iff] at hname
    rw [hname.1.1] at h₁
    rw [hname.1.2] at h₂
    rw [hname.2] at h₃
    rw [asyncCommand, if_neg hrefused, if_neg hrefused, nextArgument_argv harg]
    simp only [Option.bind_eq_bind, Option.bind_some, h₁, h₂, h₃, hsub, happend, Bool.false_eq_true,
      and_false, if_false]

/-- The same for an argument vector, which is formatted before. -/
theorem asyncCommandArgv_regular {cb : RedisCallback} {argv : List Bytes} (h : Regular argv)
    (ac : RedisAsyncContext) (hsub : ac.subscribed = false) :
    ac.asyncCommandArgv cb argv =
      if ac.disconnecting ∨ ac.freeing then some (ac, false)
      else some ({ ac with
        c := { ac.c with obuf := ac.c.obuf ++ encode (argvReply argv) }
        replies := ac.replies ++ [cb]
        evWrite := true }, true) := by
  rw [asyncCommandArgv, redisFormatSdsCommandArgv_eq h.1, Option.bind_some]
  exact asyncCommand_regular h ac hsub

/-- A format is a command, or it is invalid and nothing happens. -/
theorem vAsyncCommand_cases {D : Type} {text : Bytes → Num D → Bytes} {format : Bytes}
    {args : List (Arg D)} {cb : RedisCallback} {ac : RedisAsyncContext}
    {result : RedisAsyncContext × Bool} (h : ac.vAsyncCommand text cb format args = some result) :
    (∃ argv, Client.redisvFormatCommand text format args = .ok argv ∧
        ac.asyncCommandArgv cb argv = some result) ∨
      Client.redisvFormatCommand text format args = .error .invalid ∧ result = (ac, false) := by
  unfold vAsyncCommand at h
  cases hformat : Client.redisvFormatCommand text format args with
  | ok argv =>
    rw [hformat] at h
    dsimp only at h
    obtain ⟨cmd, hcmd, -⟩ := Option.bind_eq_some_iff.mp h
    have hshort := redisFormatCommandArgv_short hcmd
    refine Or.inl ⟨argv, rfl, ?_⟩
    rw [asyncCommandArgv, redisFormatSdsCommandArgv_eq (Nat.lt_of_succ_lt hshort)]
    rw [redisFormatCommandArgv_eq hshort] at h
    exact h
  | error e =>
    rw [hformat] at h
    cases e with
    | invalid => exact Or.inr ⟨rfl, (Option.some.inj h).symm⟩
    | undefined => cases h

end RedisAsyncContext

end Hiredispool.Hiredis
