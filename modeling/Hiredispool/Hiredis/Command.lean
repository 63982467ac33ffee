import Hiredispool.Hiredis.Wire

/-!
# Commands on the wire

Model of what `hiredis.c` makes of an argument vector (lines 190–208, 382–418, 477–519
and 530–566), with `sdsll2str`, `sdsull2str` and `sdscatfmt` (`sds.c`, lines 429–485 and
579–665). Each formatter first computes how long the command is to be, then writes it, and
asserts that it was right:

```
assert(pos == totlen);
```

Main results:

* `formatters_agree`: the assertions on the length hold, and the formatters write the
  same bytes.
* `commands_injective`: the bytes of some commands say which commands they are.
* `Run.commands`: **a server with the same reader gets the argument vectors as they were
  sent**, whatever bytes are in them.

Failures of `malloc` are left out, and a NULL `target` or `argvlen`.
-/

namespace Hiredispool.Hiredis

open Hiredispool.Pool
open Hiredispool.Client (RedisReply toInt)

/-! ## Numbers -/

/-- The loop of `sdsull2str` (lines 467–471), `*p++ = '0'+(v%10); v /= 10;`: the digits from the
    last one on. -/
def reversedDigits (v : ℕ) : Bytes :=
  .ofNat (48 + v % 10) :: if h : v / 10 = 0 then [] else reversedDigits (v / 10)
termination_by v
decreasing_by omega

/-- `sdsull2str` (lines 461–485): the digits are put the other way round in place. -/
def sdsull2str (v : ℕ) : Bytes := (reversedDigits v).reverse

/-- `sdsll2str` (lines 429–458): the digits of the absolute value, and the sign behind them
    before all is put the other way round. -/
def sdsll2str (value : ℤ) : Bytes :=
  (reversedDigits value.natAbs ++ if value < 0 then [45] else []).reverse

/-- By strong induction: the digits of `v / 10` and the last one. -/
theorem reversedDigits_eq (v : ℕ) : (reversedDigits v).reverse = Decimal.ofNat v := by
  induction v using Nat.strongRecOn with
  | _ v ih =>
    rw [reversedDigits]
    by_cases h : v / 10 = 0
    · have hv : v < 10 := by omega
      rw [dif_pos h]
      show [_] = _
      unfold Decimal.ofNat
      split
      · next h0 => rw [h0]; rfl
      · next h0 =>
        rw [Nat.digits_of_lt 10 v h0 hv, Nat.mod_eq_of_lt hv]
        rfl
    · have hrest := ih (v / 10) (by omega)
      rw [dif_neg h, List.reverse_cons, hrest]
      unfold Decimal.ofNat
      rw [if_neg h, if_neg (by omega), Nat.digits_def' (by omega) (by omega : 0 < v),
        List.reverse_cons, List.map_append]
      rfl

/-- `sdsull2str` writes the number in decimal. -/
theorem sdsull2str_eq (v : ℕ) : sdsull2str v = Decimal.ofNat v := reversedDigits_eq v

/-- So does `sdsll2str`. -/
theorem sdsll2str_eq (value : ℤ) : sdsll2str value = Decimal.ofInt value := by
  unfold sdsll2str Decimal.ofInt
  rw [List.reverse_append, reversedDigits_eq]
  split <;> rfl

/-- `countDigits` (lines 193–203): four comparisons, then a division by 10000 and a call of
    itself. -/
def countDigits (v : ℕ) : ℕ :=
  if v < 10 then 1
  else if v < 100 then 2
  else if v < 1000 then 3
  else if _h : v < 10000 then 4
  else countDigits (v / 10000) + 4
termination_by v
decreasing_by omega

theorem countDigits_of_lt {v : ℕ} (h : v < 10) : countDigits v = 1 := by
  rw [countDigits, if_pos h]

/-- One digit more than without the last one. -/
theorem length_ofNat_div {v : ℕ} (h : 10 ≤ v) :
    (Decimal.ofNat v).length = (Decimal.ofNat (v / 10)).length + 1 := by
  unfold Decimal.ofNat
  rw [if_neg (by omega), if_neg (by omega), Nat.digits_def' (by omega) (by omega : 0 < v)]
  simp

theorem length_ofNat_of_lt {v : ℕ} (h : v < 10) : (Decimal.ofNat v).length = 1 := by
  unfold Decimal.ofNat
  split
  · rfl
  · next h0 => rw [Nat.digits_of_lt 10 v h0 h]; rfl

/-- **`countDigits` counts the digits that `printf` writes.** -/
theorem countDigits_eq (v : ℕ) : countDigits v = (Decimal.ofNat v).length := by
  induction v using Nat.strongRecOn with
  | _ v ih =>
    rw [countDigits]
    split
    · next h => rw [length_ofNat_of_lt h]
    · rw [length_ofNat_div (by omega)]
      split
      · rw [length_ofNat_of_lt (by omega)]
      · rw [length_ofNat_div (by omega), Nat.div_div_eq_div_mul]
        split
        · rw [length_ofNat_of_lt (by omega)]
        · rw [length_ofNat_div (by omega), Nat.div_div_eq_div_mul]
          split
          · rw [length_ofNat_of_lt (by omega)]
          · rw [length_ofNat_div (by omega), Nat.div_div_eq_div_mul, ih _ (by omega)]

/-! ## `sdscatfmt` -/

/-- An argument of `sdscatfmt`, with the type it is passed with. -/
inductive FmtArg
  | cstr (mem : Bytes)
  | sds (s : Bytes)
  | int (i : ℤ)
  | longLong (i : ℤ)
  | unsignedInt (n : ℕ)
  | size (n : ℕ)

/-- The conversion `next` of one argument (lines 601–649). A `size_t` that is fetched as an
    `unsigned int` loses its high bits. -/
def fmtArg (next : UInt8) (arg : FmtArg) : Option Bytes :=
  match next, arg with
  -- 's'
  | 115, .cstr mem => if 0 ∈ mem then some (cStr mem) else none
  -- 'S'
  | 83, .sds s => some s
  -- 'i' and 'I'
  | 105, .int i => some (sdsll2str i)
  | 73, .longLong i => some (sdsll2str i)
  -- 'u' and 'U'
  | 117, .unsignedInt n => some (sdsull2str n)
  | 117, .size n => some (sdsull2str (n % 4294967296))
  | 85, .size n => some (sdsull2str n)
  | _, _ => none

/-- The conversions that take an argument (lines 601–646). -/
def takesArg (next : UInt8) : Bool := next ∈ Bytes.ofString "sSiIuU"

/-- The loop of `sdscatfmt`: a character is copied, `%` and a conversion take an argument, and
    any other character behind a `%` is copied (lines 647–650). A `%` at the end runs past the
    NUL. -/
def fmtLoop : Bytes → List FmtArg → Bytes → Option Bytes
  | [], _, s => some s
  | [c], _, s => if c = 37 then none else some (s ++ [c])
  | c :: next :: fmt, args, s =>
    if c = 37 then
      if takesArg next then
        match args with
        | [] => none
        | arg :: args => (fmtArg next arg).bind fun str => fmtLoop fmt args (s ++ str)
      else fmtLoop fmt args (s ++ [next])
    else fmtLoop (next :: fmt) args (s ++ [c])

/-- `sdscatfmt` (lines 579–665); the position is an `int`. -/
def sdscatfmt (s fmt : Bytes) (args : List FmtArg) : Option Bytes :=
  (fmtLoop fmt args s).bind fun s => if s.length < 2147483648 then some s else none

/-! ## Formatters -/

/-- `bulklen` (lines 206–208): `1+countDigits(len)+2+len+2`, for `$`, the length, its line end,
    the bytes and their line end. -/
def bulklen (len : ℕ) : ℕ := 1 + countDigits len + 2 + len + 2

/-- `totlen` (lines 490–494 and 541–545): a line with the number of arguments, and each of them.
    -/
def totalLength (argv : List Bytes) : ℕ :=
  1 + countDigits argv.length + 2 + (argv.map fun arg => bulklen arg.length).sum

/-- Lines 403–411 and 552–560: what `sprintf` and `memcpy` write. -/
def printCommand (argv : List Bytes) : Bytes :=
  argv.foldl (fun cmd arg => cmd ++ (encodeLine 36 (Decimal.ofInt arg.length) ++ arg ++ [13, 10]))
    (encodeLine 42 (Decimal.ofInt argv.length))

/-- `redisFormatCommandArgv` (lines 530–566), and what `redisvFormatCommand` does with
    `curargv` (lines 382–417): the command, and its length. `none` if the assertion fails
    or `totlen+1`, which `malloc` is asked for, is no `int`. -/
def redisFormatCommandArgv (argv : List Bytes) : Option (Bytes × ℤ) :=
  let cmd := printCommand argv
  if totalLength argv + 1 < 2147483648 ∧ cmd.length = totalLength argv then
    some (cmd, totalLength argv)
  else none

/-- The loop of `redisFormatSdsCommandArgv` (lines 508–513): `sdscatfmt(cmd, "$%u\r\n", len)`,
    the bytes, and a line end. -/
def sdsCommandLoop : List Bytes → Bytes → Option Bytes
  | [], cmd => some cmd
  | arg :: argv, cmd =>
    (sdscatfmt cmd (.ofString "$%u\r\n") [.size arg.length]).bind fun cmd =>
      sdsCommandLoop argv (cmd ++ arg ++ [13, 10])

/-- `redisFormatSdsCommandArgv` (lines 477–519). `none` if the assertion fails, or
    `sdscatfmt` has no meaning. -/
def redisFormatSdsCommandArgv (argv : List Bytes) : Option (Bytes × ℤ) :=
  (sdscatfmt [] (.ofString "*%i\r\n") [.int argv.length]).bind fun cmd =>
    (sdsCommandLoop argv cmd).bind fun cmd =>
      if cmd.length = totalLength argv then some (cmd, toInt (totalLength argv)) else none

/-! ### The length -/

/-- The reply that has the arguments as its elements. -/
def argvReply (argv : List Bytes) : RedisReply := .array (argv.map .string)

/-- A type byte and a line end. -/
theorem length_encodeLine (c : UInt8) (s : Bytes) : (encodeLine c s).length = 1 + s.length + 2 := by
  simp only [encodeLine, List.length_cons, List.length_append, List.length_nil]
  omega

theorem ofInt_natCast (n : ℕ) : Decimal.ofInt n = Decimal.ofNat n := by
  rw [Decimal.ofInt, if_neg (by omega), Int.natAbs_natCast]

/-- `bulklen` is the length of an argument on the wire. -/
theorem length_encode_string (arg : Bytes) : (encode (.string arg)).length = bulklen arg.length := by
  rw [encode, List.length_append, length_encodeLine, ofInt_natCast, ← countDigits_eq]
  simp only [bulklen, List.length_append, List.length_cons, List.length_nil]
  omega

/-- So for all of them. -/
theorem length_encodeAll_strings (argv : List Bytes) :
    (encodeAll (argv.map .string)).length = (argv.map fun arg => bulklen arg.length).sum := by
  induction argv with
  | nil => rfl
  | cons arg argv ih =>
    rw [List.map_cons, encodeAll, List.length_append, length_encode_string, ih]
    rfl

/-- The length that is computed beforehand. -/
theorem length_encode_argv (argv : List Bytes) :
    (encode (argvReply argv)).length = totalLength argv := by
  rw [argvReply, encode, List.length_append, length_encodeLine, length_encodeAll_strings,
    List.length_map, ofInt_natCast, ← countDigits_eq]
  rfl

/-- There are no more arguments than bytes. -/
theorem length_le_totalLength (argv : List Bytes) : argv.length ≤ totalLength argv := by
  have hle : argv.length ≤ (argv.map fun arg => bulklen arg.length).sum := by
    induction argv with
    | nil => exact Nat.zero_le _
    | cons arg argv ih =>
      rw [List.map_cons, List.sum_cons, List.length_cons, bulklen]
      omega
  unfold totalLength
  omega

/-- No argument is longer than the command. -/
theorem length_arg_le {argv : List Bytes} {arg : Bytes} (h : arg ∈ argv) :
    arg.length ≤ totalLength argv := by
  have hle := List.single_le_sum (fun _ _ => Nat.zero_le _)
    _ (List.mem_map_of_mem (f := fun arg : Bytes => bulklen arg.length) h)
  simp only [bulklen] at hle
  unfold totalLength bulklen
  omega

/-! ### The bytes -/

/-- By induction on the arguments: each is put behind what is there. -/
theorem foldl_append_encodeAll (argv : List Bytes) (cmd : Bytes) :
    argv.foldl (fun cmd arg =>
      cmd ++ (encodeLine 36 (Decimal.ofInt arg.length) ++ arg ++ [13, 10])) cmd =
      cmd ++ encodeAll (argv.map .string) := by
  induction argv generalizing cmd with
  | nil => rw [List.map_nil, encodeAll, List.append_nil, List.foldl_nil]
  | cons arg argv ih =>
    rw [List.foldl_cons, ih, List.map_cons, encodeAll, encode]
    simp only [List.append_assoc]

/-- `sprintf` and `memcpy` write an array of strings. -/
theorem printCommand_eq (argv : List Bytes) : printCommand argv = encode (argvReply argv) := by
  rw [printCommand, foldl_append_encodeAll, argvReply, encode, List.length_map]

/-- A line of `sdscatfmt` with one number. -/
theorem sdscatfmt_line {cmd digits : Bytes} {c next : UInt8} {arg : FmtArg}
    (harg : fmtArg next arg = some digits) (hc : c ≠ 37) (htakes : takesArg next = true)
    (hlen : (cmd ++ encodeLine c digits).length < 2147483648) :
    sdscatfmt cmd [c, 37, next, 13, 10] [arg] = some (cmd ++ encodeLine c digits) := by
  have hloop : fmtLoop [c, 37, next, 13, 10] [arg] cmd = some (cmd ++ encodeLine c digits) := by
    rw [fmtLoop, if_neg hc, fmtLoop, if_pos rfl, if_pos htakes]
    simp [harg, fmtLoop, encodeLine]
  rw [sdscatfmt, hloop, Option.bind_some, if_pos hlen]

/-- By induction on the arguments: the loop does the same as `sprintf`, while the position is an
    `int`. -/
theorem sdsCommandLoop_eq {argv : List Bytes} {cmd : Bytes}
    (hlen : (cmd ++ encodeAll (argv.map .string)).length < 2147483648) :
    sdsCommandLoop argv cmd = some (cmd ++ encodeAll (argv.map .string)) := by
  induction argv generalizing cmd with
  | nil => rw [sdsCommandLoop, List.map_nil, encodeAll, List.append_nil]
  | cons arg argv ih =>
    have hsplit : cmd ++ encodeAll ((arg :: argv).map .string) =
        (cmd ++ encodeLine 36 (Decimal.ofInt arg.length) ++ arg ++ [13, 10]) ++
          encodeAll (argv.map .string) := by
      rw [List.map_cons, encodeAll, encode]
      simp only [List.append_assoc]
    rw [hsplit] at hlen ⊢
    have hshort : (cmd ++ encodeLine 36 (Decimal.ofInt arg.length)).length < 2147483648 ∧
        arg.length < 4294967296 := by
      simp only [List.length_append] at hlen ⊢
      omega
    have hline := sdscatfmt_line (c := 36)
      (show fmtArg 117 (.size arg.length) = some (Decimal.ofInt arg.length) by
        rw [fmtArg, sdsull2str_eq, Nat.mod_eq_of_lt hshort.2, ofInt_natCast])
      (by decide) (by decide) hshort.1
    rw [sdsCommandLoop]
    show (sdscatfmt cmd [36, 37, 117, 13, 10] [.size arg.length]).bind _ = _
    rw [hline, Option.bind_some, ih hlen]

/-- `assert(pos == totlen)` (lines 412 and 561) holds. -/
theorem redisFormatCommandArgv_eq {argv : List Bytes} (h : totalLength argv + 1 < 2147483648) :
    redisFormatCommandArgv argv = some (encode (argvReply argv), (totalLength argv : ℤ)) := by
  have hlen := length_encode_argv argv
  unfold redisFormatCommandArgv
  dsimp only
  rw [printCommand_eq, hlen, if_pos ⟨h, rfl⟩]

/-- A longer command has no meaning. -/
theorem redisFormatCommandArgv_short {argv : List Bytes} {result : Bytes × ℤ}
    (h : redisFormatCommandArgv argv = some result) : totalLength argv + 1 < 2147483648 := by
  unfold redisFormatCommandArgv at h
  dsimp only at h
  split at h
  · next hshort => exact hshort.1
  · cases h

/-- `assert(sdslen(cmd)==totlen)` (line 515) holds. -/
theorem redisFormatSdsCommandArgv_eq {argv : List Bytes} (h : totalLength argv < 2147483648) :
    redisFormatSdsCommandArgv argv = some (encode (argvReply argv), (totalLength argv : ℤ)) := by
  have hlen := length_encode_argv argv
  have hsplit : encode (argvReply argv) =
      encodeLine 42 (Decimal.ofInt argv.length) ++ encodeAll (argv.map .string) := by
    rw [argvReply, encode, List.length_map]
  have hshort : ([] ++ encodeLine 42 (Decimal.ofInt argv.length)).length < 2147483648 := by
    rw [hsplit, List.length_append] at hlen
    rw [List.nil_append]
    omega
  have hline := sdscatfmt_line (c := 42)
    (show fmtArg 105 (.int argv.length) = some (Decimal.ofInt argv.length) by
      rw [fmtArg, sdsll2str_eq])
    (by decide) (by decide) hshort
  unfold redisFormatSdsCommandArgv
  show (sdscatfmt [] [42, 37, 105, 13, 10] [.int argv.length]).bind _ = _
  rw [hline, Option.bind_some, List.nil_append, sdsCommandLoop_eq (by rw [← hsplit]; omega),
    Option.bind_some, ← hsplit, if_pos hlen, toInt_natCast h]

/-- **The assertions hold, and the formatters write the same bytes**: those of a server that
    sends an array of the arguments. -/
theorem formatters_agree {argv : List Bytes} (h : totalLength argv + 1 < 2147483648) :
    redisFormatCommandArgv argv = some (encode (argvReply argv), (totalLength argv : ℤ)) ∧
      redisFormatSdsCommandArgv argv = redisFormatCommandArgv argv := by
  rw [redisFormatSdsCommandArgv_eq (Nat.lt_of_succ_lt h), redisFormatCommandArgv_eq h]
  exact ⟨rfl, rfl⟩

/-- `GET` with a line end for a key. -/
theorem totalLength_get : totalLength [[71, 69, 84], [13, 10]] + 1 < 2147483648 := by
  simp [totalLength, bulklen, countDigits_of_lt]

/-- A line end in an argument is nothing special. -/
theorem formatters_agree_get : redisFormatSdsCommandArgv [[71, 69, 84], [13, 10]] =
    redisFormatCommandArgv [[71, 69, 84], [13, 10]] :=
  (formatters_agree totalLength_get).2

/-! ### The reader on the other side -/

/-- A command is a reply that the reader takes: one level, and strings. -/
theorem argvReply_accepted {argv : List Bytes} (h : totalLength argv < 2147483648) :
    (object (argvReply argv)).Accepted 8 := by
  have hcount := length_le_totalLength argv
  rw [argvReply, object, objects_eq_map]
  refine .array (by simp only [List.length_map]; omega) ?_
  intro obj hobj
  simp only [List.map_map, List.mem_map] at hobj
  obtain ⟨arg, harg, rfl⟩ := hobj
  have := length_arg_le harg
  exact .string (by omega)

/-- A command that was formatted without any cut. -/
def Formatted (argv : List Bytes) (cmd : Bytes) : Prop :=
  redisFormatSdsCommandArgv argv = some (cmd, (cmd.length : ℤ))

/-- What `redisFormatSdsCommandArgv` returns for less than 2^31 bytes, from what it returns. -/
theorem Formatted.spec {argv : List Bytes} {cmd : Bytes} (h : Formatted argv cmd) :
    totalLength argv < 2147483648 ∧ cmd = encode (argvReply argv) := by
  have hshort : totalLength argv < 2147483648 := by
    unfold Formatted redisFormatSdsCommandArgv at h
    obtain ⟨cmd₁, -, h⟩ := Option.bind_eq_some_iff.mp h
    obtain ⟨cmd₂, -, h⟩ := Option.bind_eq_some_iff.mp h
    split at h
    · next hlen =>
      obtain ⟨rfl, hcut⟩ := Prod.mk.inj (Option.some.inj h)
      rw [hlen] at hcut
      unfold toInt at hcut
      rw [Int.bmod_def] at hcut
      omega
    · cases h
  have hcmd := redisFormatSdsCommandArgv_eq hshort
  rw [h] at hcmd
  exact ⟨hshort, (Prod.mk.inj (Option.some.inj hcmd)).1⟩

/-- Such commands are formatted. -/
theorem Formatted.of_short {argv : List Bytes} (h : totalLength argv < 2147483648) :
    Formatted argv (encode (argvReply argv)) := by
  unfold Formatted
  rw [length_encode_argv]
  exact redisFormatSdsCommandArgv_eq h

/-- Some commands in a row. -/
theorem flatten_formatted {cmds : List (List Bytes)} {wire : List Bytes}
    (h : List.Forall₂ Formatted cmds wire) :
    wire.flatten = encodeAll (cmds.map argvReply) ∧
      ∀ x ∈ cmds.map argvReply, (object x).Accepted 8 := by
  induction h with
  | nil => exact ⟨rfl, by simp⟩
  | cons hcmd _ ih =>
    obtain ⟨hshort, rfl⟩ := hcmd.spec
    rw [List.flatten_cons, ih.1, List.map_cons, encodeAll]
    exact ⟨rfl, List.forall_mem_cons.mpr ⟨argvReply_accepted hshort, ih.2⟩⟩

/-- The reader on the other side builds an array of the arguments. -/
theorem object_argvReply (argv : List Bytes) :
    object (argvReply argv) = .array (argv.map .string) := by
  rw [argvReply, object, objects_eq_map, List.map_map]
  rfl

/-- **The recursion finds the argument vectors in the bytes of the commands.** -/
theorem parseReplies_formatted {cmds : List (List Bytes)} {wire : List Bytes}
    (h : List.Forall₂ Formatted cmds wire) :
    parseReplies wire.flatten = (cmds.map fun argv => .array (argv.map .string), .more) := by
  obtain ⟨hwire, haccepted⟩ := flatten_formatted h
  have hall := parseReplies_encodeAll haccepted (show parseItem 8 [] = .more by rw [parseItem])
  rw [List.append_nil, ← hwire, List.map_map] at hall
  rw [hall]
  exact congrArg (·, _) (List.map_congr_left fun argv _ => object_argvReply argv)

/-- **The bytes of some commands say which commands they are**: no argument can pass for the
    end of its command and the beginning of another one. -/
theorem commands_injective {cmds cmds' : List (List Bytes)} {wire wire' : List Bytes}
    (h : List.Forall₂ Formatted cmds wire) (h' : List.Forall₂ Formatted cmds' wire')
    (heq : wire.flatten = wire'.flatten) : cmds = cmds' := by
  have hobjects := (parseReplies_formatted h).symm.trans
    ((congrArg parseReplies heq).trans (parseReplies_formatted h'))
  refine List.map_injective_iff.mpr ?_ (Prod.mk.inj hobjects).1
  intro argv argv' he
  refine List.map_injective_iff.mpr ?_ (ReplyObject.array.inj he)
  intro arg arg' he
  exact ReplyObject.string.inj he

/-- `GET` with a line end for a key. -/
theorem commands_injective_get : ∃ wire, List.Forall₂ Formatted [[[71, 69, 84], [13, 10]]] wire ∧
    [[[71, 69, 84], [13, 10]]] = [[[71, 69, 84], [(13 : UInt8), 10]]] := by
  have h := List.Forall₂.cons (Formatted.of_short (Nat.lt_of_succ_lt totalLength_get)) List.Forall₂.nil
  exact ⟨_, h, commands_injective h h rfl⟩

namespace RedisReader

/-- **A server with the same reader gets the argument vectors as they were sent**, however the
    bytes come. -/
theorem Run.commands {cmds : List (List Bytes)} {wire : List Bytes}
    (hcmds : List.Forall₂ Formatted cmds wire) {r : RedisReader} {got : List ReplyObject}
    (h : Run r wire.flatten got) (hlen : r.buf.length < 2147483648) :
    got <+: cmds.map (fun argv => .array (argv.map .string)) ∧
      ∃ r' reply, r.getReply = some (r', true, reply) ∧ r'.err = 0 ∧
        (reply = none → got = cmds.map fun argv => .array (argv.map .string)) := by
  refine h.complete ?_ hlen
  exact parseReplies_formatted hcmds

/-- The command in one piece. -/
theorem Run.commands_get : ∃ r wire got r' reply, Run r wire got ∧
    r.getReply = some (r', true, reply) ∧
    got <+: [.array [.string [71, 69, 84], .string [13, 10]]] := by
  have hcmds := List.Forall₂.cons (Formatted.of_short (Nat.lt_of_succ_lt totalLength_get)) List.Forall₂.nil
  have hrun := Run.feed (List.flatten [encode (argvReply [[71, 69, 84], [13, 10]])]) Run.create
  obtain ⟨hgot, r', reply, hget, -⟩ := Run.commands hcmds hrun (by
    show ([] ++ _).length < 2147483648
    rw [List.nil_append, List.flatten_singleton, length_encode_argv]
    exact Nat.lt_of_succ_lt totalLength_get)
  exact ⟨_, _, _, r', reply, hrun, hget, hgot⟩

end RedisReader

end Hiredispool.Hiredis
