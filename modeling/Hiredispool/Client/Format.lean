import Hiredispool.Pool.Types

/-!
# The formatting of commands

Model of `redisvFormatCommand` and `redisFormatSdsCommandArgv`
(`experimental/redisclient/hiredis/hiredis.c`, lines 210–442 and 477–519): the
argument vector that is put into the protocol of the server, from a format
string with its `va_list` and from two arrays.

* `redisvFormatCommand_pieces`: a format of conversions and words with blanks
  between them gives one argument for each of them, also for an empty one.

What `printf` makes of a number is the parameter `text`.
-/

namespace Hiredispool.Client

open Hiredispool.Pool

/-! ## The arguments -/

/-- A type that `va_arg` is called with for a number. -/
inductive NumType
  | int
  | long
  | longLong
  | double
deriving DecidableEq

/-- A number in a `va_list`; `D` stands for `double`. -/
inductive Num (D : Type)
  | int (i : ℤ)
  | long (i : ℤ)
  | longLong (i : ℤ)
  | double (d : D)

/-- The type it was passed with. -/
def Num.type {D : Type} : Num D → NumType
  | .int _ => .int
  | .long _ => .long
  | .longLong _ => .longLong
  | .double _ => .double

/-- An argument in a `va_list`. A `char*` is the memory from there on. -/
inductive Arg (D : Type)
  | str (mem : Bytes)
  | size (n : ℕ)
  | num (x : Num D)

/-- What `std::string::c_str` points to. -/
def terminated (s : Bytes) : Bytes := s ++ [0]

/-- `error_type = -2`, or the code reads what is not there. -/
inductive FormatError
  | invalid
  | undefined
deriving DecidableEq

/-! ## `redisvFormatCommand` -/

/-- `flags` (line 279). -/
def isFlag (b : UInt8) : Bool := b ∈ Bytes.ofString "#0-+ "

/-- `isdigit`. -/
def isDigit (b : UInt8) : Bool := 48 ≤ b ∧ b ≤ 57

/-- `intfmts` (line 278). -/
def isIntConv (b : UInt8) : Bool := b ∈ Bytes.ofString "diouxX"

/-- The conversions of line 307. -/
def isDoubleConv (b : UInt8) : Bool := b ∈ Bytes.ofString "eEfFgGaA"

/-- Lines 312–350 after the size: an integer conversion, and what follows it. -/
def sizedConv (type : NumType) : Bytes → Except FormatError (NumType × Bytes)
  | b :: rest => if isIntConv b then .ok (type, rest) else .error .invalid
  | [] => .error .invalid

/-- Lines 300–354: the type of the number, and what follows the conversion. At the
    end of the format `strchr` finds the NUL, and the loop runs past it. -/
def numConv : Bytes → Except FormatError (NumType × Bytes)
  | [] => .error .undefined
  | b :: rest =>
    if isIntConv b then .ok (.int, rest)
    else if isDoubleConv b then .ok (.double, rest)
    else
      match b, rest with
      -- 'h' and 'l'
      | 104, 104 :: rest => sizedConv .int rest
      | 104, rest => sizedConv .int rest
      | 108, 108 :: rest => sizedConv .longLong rest
      | 108, rest => sizedConv .long rest
      | _, _ => .error .invalid

/-- Lines 285–295: flags, field width and precision are skipped. -/
def skipFlags (cs : Bytes) : Bytes :=
  match (cs.dropWhile isFlag).dropWhile isDigit with
  | 46 :: rest => rest.dropWhile isDigit
  | rest => rest

/-- `curarg`, `touched`, `curargv` and `ap`. -/
structure FormatState (D : Type) where
  curarg : Bytes
  touched : Bool
  argv : List Bytes
  args : List (Arg D)

namespace FormatState

variable {D : Type}

/-- Append to `curarg`. -/
def append (s : Bytes) (args : List (Arg D)) (st : FormatState D) : FormatState D :=
  { st with curarg := st.curarg ++ s, touched := true, args := args }

/-- Lines 234–245 and 382–391: `curarg` becomes an argument, if it was touched. -/
def push (st : FormatState D) : FormatState D :=
  if st.touched then { st with curarg := [], touched := false, argv := st.argv ++ [st.curarg] }
  else st

end FormatState

section Format

variable {D : Type} (text : Bytes → Num D → Bytes)

/-- Lines 253–376: the conversion after a `%`, and how many bytes of the format it
    takes. -/
def conversion (cs : Bytes) (st : FormatState D) : Except FormatError (FormatState D × ℕ) :=
  match cs with
  -- 's'
  | 115 :: _ =>
    match st.args with
    | .str mem :: args =>
      if 0 ∈ mem then .ok (st.append (cStr mem) args, 1) else .error .undefined
    | _ => .error .undefined
  -- 'b'
  | 98 :: _ =>
    match st.args with
    | .str mem :: .size size :: args =>
      if size ≤ mem.length then .ok (st.append (mem.take size) args, 1) else .error .undefined
    | _ => .error .undefined
  -- '%'
  | 37 :: _ => .ok (st.append [37] st.args, 1)
  | _ =>
    match numConv (skipFlags cs) with
    | .error e => .error e
    | .ok (type, rest) =>
      match st.args with
      | .num x :: args =>
        let n := cs.length - rest.length
        if x.type ≠ type then .error .undefined
        -- `_l < sizeof(_format)-2`
        else if n + 1 < 14 then .ok (st.append (cStr (text (37 :: cs.take n) x)) args, n)
        else .ok (st.append [] args, 1)
      | _ => .error .undefined

/-- Lines 231–380; `n` bytes of the format are still to be skipped. -/
def formatLoop : Bytes → ℕ → FormatState D → Except FormatError (FormatState D)
  | [], _, st => .ok st
  | _ :: cs, n + 1, st => formatLoop cs n st
  | c :: cs, 0, st =>
    if c ≠ 37 ∨ cs = [] then
      if c = 32 then formatLoop cs 0 st.push
      else formatLoop cs 0 (st.append [c] st.args)
    else
      match conversion text cs st with
      | .ok (st, n) => formatLoop cs n st
      | .error e => .error e

/-- `redisvFormatCommand` (lines 210–442), without the failures of `malloc`. -/
def redisvFormatCommand (format : Bytes) (args : List (Arg D)) : Except FormatError (List Bytes) :=
  (formatLoop text format 0 ⟨[], false, [], args⟩).map fun st => st.push.argv

/-! ## Formats of conversions -/

/-- A conversion of the formats in use, with its argument: `%s` of a `c_str()`, `%b`
    of a `data()` and a `size()`, and `%f`. -/
inductive Item (D : Type)
  | cstr (s : Bytes)
  | data (s : Bytes)
  | double (d : D)

namespace Item

/-- The conversion in the format. -/
def spec : Item D → Bytes
  | .cstr _ => Bytes.ofString "%s"
  | .data _ => Bytes.ofString "%b"
  | .double _ => Bytes.ofString "%f"

/-- Its arguments. -/
def args : Item D → List (Arg D)
  | .cstr s => [.str (terminated s)]
  | .data s => [.str s, .size s.length]
  | .double d => [.num (.double d)]

/-- What it gives. -/
def value : Item D → Bytes
  | .cstr s => cStr s
  | .data s => s
  | .double d => cStr (text (Bytes.ofString "%f") (.double d))

end Item

theorem cStr_terminated (s : Bytes) : cStr (terminated s) = cStr s := by
  induction s with
  | nil => rfl
  | cons b s ih =>
    unfold cStr terminated at ih ⊢
    by_cases hb : b = 0
    · simp [hb]
    · simpa [hb] using ih

theorem conversion_item (it : Item D) (rest : Bytes) (st : FormatState D) (args : List (Arg D))
    (hargs : st.args = it.args ++ args) :
    ∃ c, it.spec = [37, c] ∧
      conversion text (c :: rest) st = .ok (st.append (it.value text) args, 1) := by
  cases it with
  | cstr s =>
    refine ⟨115, rfl, ?_⟩
    have hmem : (0 : UInt8) ∈ terminated s := by simp [terminated]
    simp [conversion, hargs, Item.args, Item.value, hmem, cStr_terminated]
  | data s =>
    refine ⟨98, rfl, ?_⟩
    simp [conversion, hargs, Item.args, Item.value]
  | double d =>
    refine ⟨102, rfl, ?_⟩
    -- neither a flag, a digit nor the precision
    have hskip : skipFlags (102 :: rest) = 102 :: rest := rfl
    have hnum : numConv (102 :: rest) = .ok (.double, rest) := rfl
    have hlen : (102 :: rest).length - rest.length = 1 := by simp
    simp only [conversion, hskip, hnum, hargs, Item.args, List.singleton_append, hlen]
    rfl

/-- A part of a format that gives one argument, with its arguments in the `va_list`. -/
structure Piece where
  spec : Bytes
  args : List (Arg D)
  value : Bytes
  sound : ∀ (rest : Bytes) (st : FormatState D) (more : List (Arg D)), st.args = args ++ more →
    formatLoop text (spec ++ rest) 0 st = formatLoop text rest 0 (st.append value more)

/-- One conversion. -/
theorem formatLoop_item (it : Item D) (rest : Bytes) (st : FormatState D) (args : List (Arg D))
    (hargs : st.args = it.args ++ args) :
    formatLoop text (it.spec ++ rest) 0 st =
      formatLoop text rest 0 (st.append (it.value text) args) := by
  obtain ⟨c, hspec, hconv⟩ := conversion_item text it rest st args hargs
  rw [hspec]
  show formatLoop text (37 :: c :: rest) 0 st = _
  rw [formatLoop, if_neg (by simp), hconv]
  rfl

/-- A conversion of `Item` is a piece. -/
def Item.piece (it : Item D) : Piece text := ⟨it.spec, it.args, it.value text, formatLoop_item text it⟩

/-- An integer conversion of the formats in use. -/
inductive IntConv
  | d
  | u
  | lld

namespace IntConv

/-- What follows the `%`. -/
def tail : IntConv → Bytes
  | .d => Bytes.ofString "d"
  | .u => Bytes.ofString "u"
  | .lld => Bytes.ofString "lld"

/-- The type that is fetched. -/
def type : IntConv → NumType
  | .d => .int
  | .u => .int
  | .lld => .longLong

end IntConv

/-- A conversion of a number, which is neither of the three that come first. -/
theorem conversion_num {cs rest : Bytes} {type : NumType} {x : Num D} {st : FormatState D}
    {args : List (Arg D)} (hs : cs.head? ≠ some 115) (hb : cs.head? ≠ some 98)
    (hp : cs.head? ≠ some 37) (hnum : numConv (skipFlags cs) = .ok (type, rest))
    (hargs : st.args = .num x :: args) (hx : x.type = type)
    (hshort : cs.length - rest.length + 1 < 14) :
    conversion text cs st =
      .ok (st.append (cStr (text (37 :: cs.take (cs.length - rest.length)) x)) args,
        cs.length - rest.length) := by
  unfold conversion
  split
  · exact absurd rfl hs
  · exact absurd rfl hb
  · exact absurd rfl hp
  · rw [hnum]
    dsimp only
    rw [hargs]
    dsimp only
    rw [if_neg (by simp [hx]), if_pos hshort]

theorem conversion_int (k : IntConv) {x : Num D} (hx : x.type = k.type) (rest : Bytes)
    (st : FormatState D) (args : List (Arg D)) (hargs : st.args = .num x :: args) :
    conversion text (k.tail ++ rest) st =
      .ok (st.append (cStr (text (37 :: k.tail) x)) args, k.tail.length) := by
  have hlen : (k.tail ++ rest).length - rest.length = k.tail.length := by simp
  have hnum : numConv (skipFlags (k.tail ++ rest)) = .ok (k.type, rest) := by cases k <;> rfl
  have hshort : k.tail.length + 1 < 14 := by cases k <;> decide
  have hhead : (k.tail ++ rest).head? = k.tail.head? := by cases k <;> rfl
  have hother : k.tail.head? ≠ some 115 ∧ k.tail.head? ≠ some 98 ∧ k.tail.head? ≠ some 37 := by
    cases k <;> decide
  rw [← hhead] at hother
  obtain ⟨hs, hb, hp⟩ := hother
  have h := conversion_num text hs hb hp hnum hargs hx (by rw [hlen]; exact hshort)
  rwa [hlen, List.take_left] at h

/-- The bytes of a conversion are skipped. -/
theorem formatLoop_skip (l rest : Bytes) (st : FormatState D) :
    formatLoop text (l ++ rest) l.length st = formatLoop text rest 0 st := by
  induction l with
  | nil => rfl
  | cons c l ih => exact ih

/-- An integer conversion is a piece. -/
def IntConv.piece (k : IntConv) (x : Num D) (hx : x.type = k.type) : Piece text where
  spec := 37 :: k.tail
  args := [.num x]
  value := cStr (text (37 :: k.tail) x)
  sound := by
    intro rest st more hargs
    have hne : k.tail ++ rest ≠ [] := by cases k <;> exact List.cons_ne_nil _ _
    rw [List.cons_append, formatLoop, if_neg (by simp [hne]),
      conversion_int text k hx rest st more hargs]
    exact formatLoop_skip text k.tail rest _

/-- A word of the format is a piece. -/
def Piece.word (w : Bytes) (h0 : w ≠ []) (h : ∀ c ∈ w, c ≠ 37 ∧ c ≠ 32) : Piece text where
  spec := w
  args := []
  value := w
  sound := by
    intro rest st more hargs
    rw [List.nil_append] at hargs
    induction w generalizing st with
    | nil => exact absurd rfl h0
    | cons c w ih =>
      obtain ⟨h37, h32⟩ := h c List.mem_cons_self
      rw [List.cons_append, formatLoop, if_pos (Or.inl h37), if_neg h32]
      cases w with
      | nil => rw [List.nil_append, hargs]
      | cons c' w =>
        rw [ih (List.cons_ne_nil c' w) (fun b hb => h b (List.mem_cons_of_mem c hb))
          (st.append [c] st.args) hargs]
        simp [FormatState.append]

variable {text}

/-- The pieces after the first one, each with a blank before it. -/
theorem formatLoop_pieces (l : List (Piece text)) (st : FormatState D) (htouched : st.touched = true)
    (hargs : st.args = l.flatMap Piece.args) :
    (formatLoop text (l.flatMap fun x => 32 :: x.spec) 0 st).map (fun st => st.push.argv) =
      .ok (st.argv ++ st.curarg :: l.map Piece.value) := by
  induction l generalizing st with
  | nil => simp [formatLoop, Except.map, FormatState.push, htouched]
  | cons x l ih =>
    have hblank : formatLoop text ((x :: l).flatMap fun x => 32 :: x.spec) 0 st =
        formatLoop text (x.spec ++ l.flatMap fun x => 32 :: x.spec) 0 st.push := by
      show formatLoop text (32 :: (x.spec ++ l.flatMap fun x => 32 :: x.spec)) 0 st = _
      rw [formatLoop, if_pos (Or.inl (by decide)), if_pos rfl]
    have hpush : st.push = ⟨[], false, st.argv ++ [st.curarg], x.args ++ l.flatMap Piece.args⟩ := by
      simp [FormatState.push, htouched, hargs]
    rw [hblank, hpush, x.sound _ _ (l.flatMap Piece.args) rfl, ih _ rfl rfl]
    simp [FormatState.append]

/-- One argument for each piece. -/
theorem redisvFormatCommand_pieces (x : Piece text) (l : List (Piece text)) :
    redisvFormatCommand text (x.spec ++ l.flatMap fun x => 32 :: x.spec)
      (x.args ++ l.flatMap Piece.args) = .ok ((x :: l).map Piece.value) := by
  unfold redisvFormatCommand
  rw [x.sound _ _ (l.flatMap Piece.args) rfl, formatLoop_pieces l _ rfl rfl]
  rfl

variable (text)

/-- One argument for each conversion. -/
theorem redisvFormatCommand_items (it : Item D) (items : List (Item D)) :
    redisvFormatCommand text (it.spec ++ items.flatMap fun it => 32 :: it.spec)
      (it.args ++ items.flatMap Item.args) = .ok ((it :: items).map (Item.value text)) := by
  have h := redisvFormatCommand_pieces (it.piece text) (items.map (Item.piece text))
  rwa [List.flatMap_map, List.flatMap_map, ← List.map_cons, List.map_map] at h

end Format

/-- `redisFormatSdsCommandArgv` (lines 477–519): each argument with its length. -/
def redisFormatSdsCommandArgv (argv : List Bytes) (argvlen : List ℕ) : List Bytes :=
  List.zipWith (fun arg len => arg.take len) argv argvlen

end Hiredispool.Client
