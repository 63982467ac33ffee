import Hiredispool.Log.Filename

/-!
# Logging a message

Model of `vlog` (`log.c`, lines 33–58 and 136–338) with everything that it writes:
into its buffers, and to a file, to the console or to `syslog`. `none` is a write
outside a buffer.

* `putPrefix_spec`, `putMessage_spec`: what stands in `buffer`.
* `vlog_eq`: what is written is `lineOf`, in every mode.
* `lineOf_singleLine`: this is a single line.
* `vlog_singleLine`: no message gets a line of its own.
* `vlog_cut`: a message that is cut at a NUL.

`message` is the text of `fmt` and `ap`. Flushing and closing are left out.
-/

namespace Hiredispool.Log

open Hiredispool.Pool
open Numeral (decimal forall_uint8 hex)

/-! ## Types -/

/-- What is answered to the calls of one `vlog`: the time for the file name and for the
    time stamp, whether `fopen` succeeds, and the text of its error. -/
structure Env where
  now : Option Tm
  stamp : Tm
  usec : Fin 1000000
  opened : Bool
  strerror : Bytes

/-- The buffers of `vlog`, as they are at first. -/
structure Stack where
  namebuf : CBuffer 1024
  deflvl : CBuffer 8
  buffer : CBuffer 8192

/-- Where a text is written to. -/
inductive Sink
  | file (name : Bytes)
  | stdout
  | stderr
  | syslog (priority : ℕ)
deriving DecidableEq

/-- What a call has done: its result, the buffers that were filled, and what was
    written. -/
structure Logged where
  ret : ℤ
  namebuf : Option (CBuffer 1024)
  deflvl : Option (CBuffer 8)
  buffer : Option (CBuffer 8192)
  writes : List (Sink × Bytes)

/-! ## Levels -/

/-- `lvl & ~L_CONS`. -/
def level (lvl : Int32) : Int32 := lvl &&& ~~~lCons

/-- The table `L` (lines 33–41). -/
def levelTable : List (Bytes × Int32) :=
  [(Bytes.ofString " TRACE ", lTrace), (Bytes.ofString " DEBUG ", lDebug),
    (Bytes.ofString " INFO  ", lInfo), (Bytes.ofString " WARN  ", lWarn),
    (Bytes.ofString " ERROR ", lError), (Bytes.ofString " FATAL ", lFatal)]

/-- `_int2str` (lines 43–58). -/
def int2str (table : List (Bytes × Int32)) (number : Int32) (dflt : Bytes) : Bytes :=
  match table.find? (fun e => e.2 = number) with
  | some e => e.1
  | none => dflt

/-- The text of `" L%04X "` (lines 220 and 240). -/
def hexLabel (lvl : Int32) : Bytes :=
  Bytes.ofString " L" ++ hex 4 (level lvl).toUInt32.toNat ++ Bytes.ofString " "

/-- The priority for `syslog` (lines 309–332), with the numbers of `syslog.h`. -/
def priority (lvl : Int32) : ℕ :=
  let lvl := level lvl
  if 0 < lvl ∧ lvl ≤ lDebug then 7
  else if lDebug < lvl ∧ lvl ≤ lInfo then 5
  else if lInfo < lvl ∧ lvl ≤ lWarn then 4
  else if lWarn < lvl ∧ lvl ≤ lError then 3
  else if lError < lvl ∧ lvl ≤ lFatal then 2
  else if lFatal < lvl then 1
  else 0

/-! ## `vlog` -/

/-- The checks of lines 147–166. -/
def filtered (c : LogConfigInternal) (lvl : Int32) : Bool :=
  level lvl < c.levelHold ∨ (c.verbose = 0 ∧ level lvl ≤ lDebug) ∨ c.dest = .null

/-- The outcome of lines 168–197: `msgfd` and `namebuf`, or a file that could not be
    opened. `msgfd` is `none` for NULL. -/
inductive Opening
  | opened (msgfd : Option Sink) (namebuf : Option (CBuffer 1024))
  | failed (namebuf : CBuffer 1024) (name : Bytes)

/-- Lines 168–197. -/
def openLog (env : Env) (stack : Stack) (c : LogConfigInternal) : Option Opening :=
  match c.dest with
  | .stdout => some (.opened (some .stdout) none)
  | .stderr => some (.opened (some .stderr) none)
  | .syslog => some (.opened none none)
  | _ =>
    if c.file.bytes.head? = some 0 then some (.opened (some .stdout) none)
    else do
      let namebuf ← logfileName env.now c stack.namebuf
      let name ← namebuf.string 0
      if env.opened then some (.opened (some (.file name)) (some namebuf))
      else some (.failed namebuf name)

/-- The time stamp of lines 215–218, or without milliseconds of lines 236–238. -/
def stampText (env : Env) (millisec : Bool) : Bytes :=
  decimal 4 env.stamp.year ++ 47 :: decimal 2 env.stamp.mon ++
    47 :: decimal 2 env.stamp.tmMday.val ++ 32 :: decimal 2 env.stamp.tmHour.val ++
    58 :: decimal 2 env.stamp.tmMin.val ++ 58 :: decimal 2 env.stamp.tmSec.val ++
    if millisec then 44 :: decimal 3 (env.usec.val / 1000 : ℕ) else []

/-- The outcome of lines 199–246. -/
structure Prefixed where
  buffer : CBuffer 8192
  deflvl : Option (CBuffer 8)
  len0 : ℕ
  len : ℕ

/-- Lines 199–246. The branches with and without milliseconds differ in the time stamp
    alone. -/
def putPrefix (env : Env) (stack : Stack) (c : LogConfigInternal) (lvl : Int32) : Option Prefixed :=
  if c.dest = .syslog then do
    let buffer ← stack.buffer.set 0 0
    some ⟨buffer, none, 0, 0⟩
  else do
    let buffer ← stack.buffer.sprintf 0 (stampText env (c.printMillisec ≠ 0))
    let deflvl ← stack.deflvl.sprintf 0 (hexLabel lvl)
    let dflt ← deflvl.string 0
    let s := int2str levelTable (level lvl) dflt
    let stamp ← buffer.string 0
    let buffer ← buffer.strcat s
    let text ← buffer.string 0
    some ⟨buffer, some deflvl, stamp.length, text.length⟩

/-- What the loop of lines 254–259 makes of a character: `char` is signed. -/
def clean (p : UInt8) : UInt8 :=
  if p = 13 ∨ p = 10 then 32
  else if (0 ≤ p.toInt8 ∧ p.toInt8 < 32) ∨ p.toInt8 < 0 then 63
  else p

/-- Lines 248–260. -/
def putMessage (buffer : CBuffer 8192) (len : ℕ) (message : Bytes) : Option (CBuffer 8192) := do
  let buffer ← buffer.vsnprintf len (8192 - len - 1) message
  let buffer ← buffer.set (8192 - 2) 0
  let buffer ← buffer.mapString clean
  buffer.strcat (Bytes.ofString "\n")

/-- The console for a message of this level (lines 288–294 and 300–304). -/
def console (lvl : Int32) : Sink := if level lvl < lWarn then .stdout else .stderr

/-- Lines 277–335: the text `p` is written. -/
def emit (c : LogConfigInternal) (lvl : Int32) (msgfd : Option Sink) (p : Bytes) :
    List (Sink × Bytes) :=
  match msgfd with
  | none => [(.syslog (priority lvl), p)]
  | some (.file name) =>
    (.file name, p) ::
      if lvl &&& lCons ≠ 0 then [(console lvl, p)]
      else if c.verbose ≠ 0 then [(console lvl, p)]
      else []
  | some sink => [(sink, p)]

/-- The texts of lines 188–193. -/
def complain (env : Env) (progname name message : Bytes) : List (Sink × Bytes) :=
  [(.stderr, progname ++ Bytes.ofString ": Couldn't open " ++ name ++
      Bytes.ofString " for logging: " ++ env.strerror ++ Bytes.ofString "\n"),
    (.stderr, Bytes.ofString "  ("), (.stderr, message), (.stderr, Bytes.ofString ")\n")]

/-- `vlog` (lines 136–338). -/
def vlog (env : Env) (stack : Stack) (c : LogConfigInternal) (lvl : Int32) (message : Bytes) :
    Option Logged :=
  if filtered c lvl then some ⟨0, none, none, none, []⟩
  else do
    let opening ← openLog env stack c
    match opening with
    | .failed namebuf name =>
      let progname ← c.progname.string 0
      some ⟨-1, some namebuf, none, none, complain env progname name message⟩
    | .opened msgfd namebuf =>
      let pre ← putPrefix env stack c lvl
      let buffer ← putMessage pre.buffer pre.len message
      -- `p`, and for `syslog` the text without the time stamp
      let p ← buffer.string (if c.verbose = 1 ∨ c.dest = .syslog then pre.len0 else 0)
      some ⟨0, namebuf, pre.deflvl, some buffer, emit c lvl msgfd p⟩

/-! ## Characters -/

/-- A character that is written as it is. -/
def Printable (p : UInt8) : Prop := 32 ≤ p.toNat ∧ p.toNat ≤ 127

theorem clean_printable (p : UInt8) : Printable (clean p) := by
  unfold Printable
  exact forall_uint8 (P := fun p => 32 ≤ (clean p).toNat ∧ (clean p).toNat ≤ 127)
    (by decide +kernel) p

theorem clean_ne_zero (p : UInt8) : clean p ≠ 0 := by
  have h := (clean_printable p).1
  intro heq
  rw [heq] at h
  exact absurd h (by decide)

theorem clean_of_printable {p : UInt8} (h : Printable p) : clean p = p := by
  unfold Printable at h
  exact forall_uint8 (P := fun p => 32 ≤ p.toNat ∧ p.toNat ≤ 127 → clean p = p)
    (by decide +kernel) p h

/-- How a character of a message is shown: CR and LF as a blank, and what is not ASCII or
    is a control character as a question mark. -/
def shown (p : UInt8) : UInt8 :=
  if p = 13 ∨ p = 10 then 32 else if p < 32 ∨ 127 < p then 63 else p

theorem clean_eq_shown (p : UInt8) : clean p = shown p :=
  forall_uint8 (P := fun p => clean p = shown p) (by decide +kernel) p

theorem map_clean {s : Bytes} (h : ∀ p ∈ s, Printable p) : s.map clean = s := by
  rw [List.map_congr_left fun p hp => clean_of_printable (h p hp), List.map_id']

theorem noNul_of_printable {s : Bytes} (h : ∀ p ∈ s, Printable p) : 0 ∉ s := by
  intro h0
  exact absurd (h 0 h0).1 (by decide)

/-! ## The prefix -/

/-- The level as it is printed. -/
def label (lvl : Int32) : Bytes := int2str levelTable (level lvl) (hexLabel lvl)

/-- The level has at most four hexadecimal digits. -/
def Small (lvl : Int32) : Prop := (level lvl).toUInt32.toNat < 65536

/-- What stands in front of the message in `buffer`. -/
def fullPrefix (env : Env) (c : LogConfigInternal) (lvl : Int32) : Bytes :=
  if c.dest = .syslog then [] else stampText env (c.printMillisec ≠ 0) ++ label lvl

theorem int2str_cases (table : List (Bytes × Int32)) (number : Int32) (dflt : Bytes) :
    int2str table number dflt = dflt ∨ ∃ e ∈ table, int2str table number dflt = e.1 := by
  unfold int2str
  split
  · rename_i e h
    exact Or.inr ⟨e, List.mem_of_find?_eq_some h, rfl⟩
  · exact Or.inl rfl

theorem length_hexLabel (lvl : Int32) :
    (hexLabel lvl).length = (hex 4 (level lvl).toUInt32.toNat).length + 3 := by
  have h₁ : (Bytes.ofString " L").length = 2 := by decide
  have h₂ : (Bytes.ofString " ").length = 1 := by decide
  unfold hexLabel
  rw [List.length_append, List.length_append, h₁, h₂]
  omega

/-- **The hexadecimal label fits into its buffer** exactly for a small level. -/
theorem length_hexLabel_lt_iff (lvl : Int32) : (hexLabel lvl).length < 8 ↔ Small lvl := by
  have hdigits := Numeral.length_hex_le_iff (w := 4) (k := 4) (by omega) (level lvl).toUInt32.toNat
  rw [length_hexLabel]
  unfold Small
  omega

theorem hexLabel_printable (lvl : Int32) : ∀ p ∈ hexLabel lvl, Printable p := by
  intro p hp
  unfold hexLabel at hp
  rw [List.mem_append, List.mem_append] at hp
  rcases hp with (hp | hp) | hp
  · revert p
    unfold Printable
    decide +kernel
  · have hrange := Numeral.mem_hex hp
    unfold Printable
    omega
  · revert p
    unfold Printable
    decide +kernel

theorem label_spec (lvl : Int32) :
    (Small lvl → (label lvl).length < 8) ∧ ∀ p ∈ label lvl, Printable p := by
  rcases int2str_cases levelTable (level lvl) (hexLabel lvl) with h | ⟨e, he, h⟩
  · unfold label
    rw [h]
    exact ⟨(length_hexLabel_lt_iff lvl).mpr, hexLabel_printable lvl⟩
  · have htable : ∀ e ∈ levelTable, e.1.length < 8 ∧ ∀ p ∈ e.1, Printable p := by
      unfold Printable
      decide +kernel
    unfold label
    rw [h]
    exact ⟨fun _ => (htable e he).1, (htable e he).2⟩

theorem decimal_printable {w : ℕ} {i : ℤ} : ∀ p ∈ decimal w i, Printable p := by
  intro p hp
  unfold Printable
  rcases Numeral.mem_decimal hp with rfl | ⟨h₁, h₂⟩
  · decide
  · omega

theorem stampText_printable (env : Env) (millisec : Bool) :
    ∀ p ∈ stampText env millisec, Printable p := by
  have hslash : Printable 47 := by unfold Printable; decide
  have hblank : Printable 32 := by unfold Printable; decide
  have hcolon : Printable 58 := by unfold Printable; decide
  have hcomma : Printable 44 := by unfold Printable; decide
  unfold stampText
  simp only [List.forall_mem_append, List.forall_mem_cons]
  refine ⟨⟨⟨⟨⟨⟨decimal_printable, hslash, decimal_printable⟩, hslash, decimal_printable⟩, hblank,
    decimal_printable⟩, hcolon, decimal_printable⟩, hcolon, decimal_printable⟩, ?_⟩
  split
  · rw [List.forall_mem_cons]
    exact ⟨hcomma, decimal_printable⟩
  · simp

theorem length_stampText (env : Env) (millisec : Bool) : (stampText env millisec).length ≤ 30 := by
  have hyear : (decimal 4 env.stamp.year).length ≤ 11 := by
    have hge := env.stamp.year_ge
    have hle := env.stamp.year_le
    exact Numeral.length_decimal_le (by omega) (by unfold Tm.year; omega) (by unfold Tm.year; omega)
      (by omega)
  have hmon : (decimal 2 env.stamp.mon).length = 2 :=
    Numeral.length_decimal (by omega) (by unfold Tm.mon; omega)
  have hmday : (decimal 2 env.stamp.tmMday.val).length = 2 :=
    Numeral.length_decimal (by omega) (by omega)
  have hhour : (decimal 2 env.stamp.tmHour.val).length = 2 :=
    Numeral.length_decimal (by omega) (by omega)
  have hmin : (decimal 2 env.stamp.tmMin.val).length = 2 :=
    Numeral.length_decimal (by omega) (by omega)
  have hsec : (decimal 2 env.stamp.tmSec.val).length = 2 :=
    Numeral.length_decimal (by omega) (by omega)
  have husec : (decimal 3 (env.usec.val / 1000 : ℕ)).length = 3 :=
    Numeral.length_decimal (by omega) (by omega)
  unfold stampText
  simp only [List.length_append, List.length_cons]
  split
  · rw [List.length_cons]
    omega
  · rw [List.length_nil]
    omega

theorem fullPrefix_printable (env : Env) (c : LogConfigInternal) (lvl : Int32) :
    ∀ p ∈ fullPrefix env c lvl, Printable p := by
  unfold fullPrefix
  split
  · simp
  · rw [List.forall_mem_append]
    exact ⟨stampText_printable env _, (label_spec lvl).2⟩

section Text

variable {env : Env} {stack : Stack} {c : LogConfigInternal} {lvl : Int32}

theorem length_fullPrefix (h : c.dest ≠ .syslog → Small lvl) :
    (fullPrefix env c lvl).length ≤ 37 := by
  unfold fullPrefix
  split
  · exact Nat.zero_le _
  · rename_i hdest
    have hstamp := length_stampText env (c.printMillisec ≠ 0)
    have hlabel := (label_spec lvl).1 (h hdest)
    rw [List.length_append]
    omega

/-- The position of the level in `buffer`. -/
def labelPos (env : Env) (c : LogConfigInternal) : ℕ :=
  if c.dest = .syslog then 0 else (stampText env (c.printMillisec ≠ 0)).length

/-- The prefix and its two lengths. -/
theorem putPrefix_spec (h : c.dest ≠ .syslog → Small lvl) :
    ∃ buffer deflvl, putPrefix env stack c lvl =
        some ⟨buffer, deflvl, labelPos env c, (fullPrefix env c lvl).length⟩ ∧
      buffer.Holds (fullPrefix env c lvl) ∧ ∀ b ∈ deflvl, b.Terminated := by
  unfold putPrefix labelPos fullPrefix
  by_cases hdest : c.dest = .syslog
  · simp only [if_pos hdest]
    obtain ⟨buffer, hset, hholds⟩ := stack.buffer.sprintf_zero (s := []) (by simp) (by simp)
    have hset' : stack.buffer.set 0 0 = some buffer := hset
    refine ⟨buffer, none, ?_, hholds, by simp⟩
    rw [hset']
    rfl
  · simp only [if_neg hdest]
    have hstamp := length_stampText env (c.printMillisec ≠ 0)
    have hsmall := h hdest
    have hlabel := (label_spec lvl).1 hsmall
    have hstampNul := noNul_of_printable (stampText_printable env (c.printMillisec ≠ 0))
    obtain ⟨b₁, hprint, hb₁⟩ := stack.buffer.sprintf_zero hstampNul (by omega)
    obtain ⟨deflvl, hdeflvl, hhex⟩ := stack.deflvl.sprintf_zero
      (noNul_of_printable (hexLabel_printable lvl)) ((length_hexLabel_lt_iff lvl).mpr hsmall)
    obtain ⟨b₂, hcat, hb₂⟩ := CBuffer.strcat_holds hb₁ (noNul_of_printable (label_spec lvl).2)
      (by omega)
    have hcat' : b₁.strcat (int2str levelTable (level lvl) (hexLabel lvl)) = some b₂ := hcat
    refine ⟨b₂, some deflvl, ?_, hb₂, ?_⟩
    · simp only [Option.bind_eq_bind, hprint, hdeflvl, Option.bind_some, hhex.string_zero,
        hb₁.string_zero, hcat', hb₂.string_zero]
    · intro b hb
      obtain rfl := Option.some.inj hb
      exact hhex.terminated

/-- The hexadecimal label is written although the level has a name. -/
theorem putPrefix_eq_none (hdest : c.dest ≠ .syslog) (h : ¬Small lvl) :
    putPrefix env stack c lvl = none := by
  have hfull : stack.deflvl.sprintf 0 (hexLabel lvl) = none := by
    apply CBuffer.sprintf_eq_none
    have hlt := (length_hexLabel_lt_iff lvl).not.mpr h
    omega
  unfold putPrefix
  rw [if_neg hdest, hfull]
  cases stack.buffer.sprintf 0 (stampText env (c.printMillisec ≠ 0)) with
  | none => rfl
  | some buffer => rfl

end Text

/-! ## The message -/

/-- The message with its newline, behind a prefix. -/
theorem putMessage_spec {buffer : CBuffer 8192} {pre : Bytes} (h : buffer.Holds pre)
    (hpre : ∀ p ∈ pre, Printable p) (hlen : pre.length ≤ 8190) (message : Bytes) :
    ∃ b, putMessage buffer pre.length message = some b ∧
      b.Holds (pre ++ ((cStr message).take (8190 - pre.length)).map shown ++ [10]) := by
  obtain ⟨b₁, hprint, hb₁⟩ := CBuffer.vsnprintf_holds h message
    (show 0 < 8192 - pre.length - 1 by omega) (by omega)
  -- the message up to its first NUL, cut at the end of the buffer
  have hcut : (message.take (8192 - pre.length - 1 - 1)).takeWhile (· ≠ 0) =
      (cStr message).take (8190 - pre.length) := by
    rw [cStr, List.take_takeWhile]
    congr 2
    omega
  rw [hcut] at hb₁
  have hbody := List.length_take_le (8190 - pre.length) (cStr message)
  have hfits : (pre ++ (cStr message).take (8190 - pre.length)).length ≤ 8190 := by
    rw [List.length_append]
    omega
  obtain ⟨b₂, hset, hb₂⟩ := CBuffer.set_holds hb₁ hfits (by omega)
  obtain ⟨b₃, hmap, hb₃⟩ := CBuffer.mapString_holds hb₂ fun p _ => clean_ne_zero p
  obtain ⟨b₄, hcat, hb₄⟩ := CBuffer.strcat_holds (s := Bytes.ofString "\n") hb₃ (by decide)
    (by
      have hone : (Bytes.ofString "\n").length = 1 := by decide
      rw [List.length_map]
      omega)
  refine ⟨b₄, ?_, ?_⟩
  · unfold putMessage
    simp only [Option.bind_eq_bind, hprint, Option.bind_some, show 8192 - 2 = 8190 from rfl, hset,
      hmap, hcat]
  · rw [List.map_append, map_clean hpre, funext clean_eq_shown] at hb₄
    exact hb₄

/-! ## The line -/

/-- What is shown in front of the message: the level alone if `verbose` is 1, and
    nothing in `syslog`. -/
def shownPrefix (env : Env) (c : LogConfigInternal) (lvl : Int32) : Bytes :=
  if c.dest = .syslog then []
  else if c.verbose = 1 then label lvl
  else stampText env (c.printMillisec ≠ 0) ++ label lvl

/-- How much of the message has room in `buffer`, in front of the newline and the NUL. -/
def room (env : Env) (c : LogConfigInternal) (lvl : Int32) : ℕ :=
  8190 - (fullPrefix env c lvl).length

/-- The line for `body`. -/
def lineOf (env : Env) (c : LogConfigInternal) (lvl : Int32) (body : Bytes) : Bytes :=
  shownPrefix env c lvl ++ (body.take (room env c lvl)).map shown ++ [10]

section Line

variable {env : Env} {stack : Stack} {c : LogConfigInternal} {lvl : Int32} {msgfd : Option Sink}
  {namebuf : Option (CBuffer 1024)}

/-- The prefix that is shown stands at the end of the one in the buffer. -/
theorem fullPrefix_drop (env : Env) (c : LogConfigInternal) (lvl : Int32) :
    (if c.verbose = 1 ∨ c.dest = .syslog then labelPos env c else 0) ≤
        (fullPrefix env c lvl).length ∧
      (fullPrefix env c lvl).drop (if c.verbose = 1 ∨ c.dest = .syslog then labelPos env c else 0) =
        shownPrefix env c lvl := by
  unfold fullPrefix shownPrefix labelPos
  by_cases hdest : c.dest = .syslog
  · simp [hdest]
  · by_cases hverbose : c.verbose = 1
    · simp [hdest, hverbose]
    · simp [hdest, hverbose]

/-- **What is written** once there is something to write to: the line of the message up
    to its first NUL. -/
theorem vlog_eq (hfilter : filtered c lvl = false)
    (hopen : openLog env stack c = some (.opened msgfd namebuf))
    (hsmall : c.dest ≠ .syslog → Small lvl) (message : Bytes) :
    ∃ deflvl buffer, vlog env stack c lvl message =
        some ⟨0, namebuf, deflvl, some buffer, emit c lvl msgfd (lineOf env c lvl (cStr message))⟩ ∧
      buffer.Terminated ∧ ∀ b ∈ deflvl, b.Terminated := by
  obtain ⟨buffer, deflvl, hprefix, hholds, hdeflvl⟩ := @putPrefix_spec env stack c lvl hsmall
  have hlen := @length_fullPrefix env c lvl hsmall
  obtain ⟨b, hmessage, hb⟩ :=
    putMessage_spec hholds (fullPrefix_printable env c lvl) (by omega) message
  obtain ⟨hpos, hdrop⟩ := fullPrefix_drop env c lvl
  refine ⟨deflvl, b, ?_, hb.terminated, hdeflvl⟩
  have hinside : (if c.verbose = 1 ∨ c.dest = .syslog then labelPos env c else 0) ≤
      (fullPrefix env c lvl ++
        ((cStr message).take (8190 - (fullPrefix env c lvl).length)).map shown ++ [10]).length := by
    rw [List.length_append, List.length_append]
    omega
  have hstring := hb.string hinside
  rw [List.append_assoc, List.drop_append_of_le_length hpos, hdrop, ← List.append_assoc] at hstring
  unfold vlog
  rw [hfilter, hopen]
  simp only [Bool.false_eq_true, if_false, Option.bind_eq_bind, Option.bind_some, hprefix, hmessage]
  rw [hstring]
  rfl

/-- `text` is a single line: the prefix, what has room of `body`, and a newline. -/
structure SingleLine (env : Env) (c : LogConfigInternal) (lvl : Int32) (body text : Bytes) :
    Prop where
  eq : text = shownPrefix env c lvl ++ (body.take (room env c lvl)).map shown ++ [10]
  printable : ∀ p ∈ text.dropLast, Printable p
  newline : text.getLast? = some 10 ∧ text.count 10 = 1
  length : text.length ≤ 8191

theorem shownPrefix_printable : ∀ p ∈ shownPrefix env c lvl, Printable p := by
  rw [← (fullPrefix_drop env c lvl).2]
  intro p hp
  exact fullPrefix_printable env c lvl p (List.mem_of_mem_drop hp)

theorem length_shownPrefix : (shownPrefix env c lvl).length ≤ (fullPrefix env c lvl).length := by
  rw [← (fullPrefix_drop env c lvl).2, List.length_drop]
  omega

theorem lineOf_singleLine (hsmall : c.dest ≠ .syslog → Small lvl) (body : Bytes) :
    SingleLine env c lvl body (lineOf env c lvl body) := by
  have hprintable : ∀ p ∈ shownPrefix env c lvl ++ (body.take (room env c lvl)).map shown,
      Printable p := by
    rw [List.forall_mem_append]
    refine ⟨shownPrefix_printable, ?_⟩
    intro p hp
    obtain ⟨q, -, rfl⟩ := List.mem_map.mp hp
    rw [← clean_eq_shown]
    exact clean_printable q
  have hnewline : 10 ∉ shownPrefix env c lvl ++ (body.take (room env c lvl)).map shown := by
    intro hmem
    exact absurd (hprintable 10 hmem).1 (by decide)
  constructor
  · rfl
  · unfold lineOf
    rwa [List.dropLast_concat]
  · unfold lineOf
    refine ⟨List.getLast?_concat, ?_⟩
    rw [List.count_append, List.count_eq_zero.mpr hnewline]
    rfl
  · have hshown := @length_shownPrefix env c lvl
    have hfull := @length_fullPrefix env c lvl hsmall
    have hbody := List.length_take_le (room env c lvl) body
    have hroom : room env c lvl = 8190 - (fullPrefix env c lvl).length := rfl
    unfold lineOf
    rw [List.length_append, List.length_append, List.length_map, List.length_singleton]
    omega

theorem emit_text (c : LogConfigInternal) (lvl : Int32) (msgfd : Option Sink) (p : Bytes) :
    emit c lvl msgfd p ≠ [] ∧ ∀ w ∈ emit c lvl msgfd p, w.2 = p := by
  unfold emit
  split
  · simp
  · split_ifs
    · simp
    · simp
    · simp
  · simp

theorem small_of_range (hlow : 0 ≤ (level lvl).toInt) (hhigh : (level lvl).toInt ≤ 65535) :
    Small lvl := by
  have hcond := BitVec.toInt_eq_toNat_cond (level lvl).toBitVec
  have hnat : (level lvl).toUInt32.toNat = (level lvl).toBitVec.toNat := rfl
  have hint : (level lvl).toInt = (level lvl).toBitVec.toInt := rfl
  have hlt := (level lvl).toBitVec.isLt
  unfold Small
  rw [hnat]
  rw [hint, hcond] at hlow hhigh
  split at hlow
  · rename_i h
    rw [if_pos h] at hhigh
    omega
  · omega

/-- There is something to write to: a log file, if one is used, could be opened. -/
def Opens (env : Env) (stack : Stack) (c : LogConfigInternal) : Prop :=
  ∃ msgfd namebuf, openLog env stack c = some (.opened msgfd namebuf)

/-- Whatever is written for a message is a single line, the one for `body`. -/
def LogsLine (env : Env) (stack : Stack) (c : LogConfigInternal) (lvl : Int32)
    (message body : Bytes) : Prop :=
  ∃ r, vlog env stack c lvl message = some r ∧ r.ret = 0 ∧ r.writes ≠ [] ∧
    ∀ w ∈ r.writes, SingleLine env c lvl body w.2

/-- **No log injection**: a message that is not filtered out is written as a single line,
    up to its first NUL. -/
theorem vlog_singleLine (env : Env) (stack : Stack) (c : LogConfigInternal) (lvl : Int32)
    (message : Bytes) (hfilter : filtered c lvl = false) (hopen : Opens env stack c)
    (hlow : 0 ≤ (level lvl).toInt) (hhigh : (level lvl).toInt ≤ 0xFFFF) :
    LogsLine env stack c lvl message (cStr message) := by
  obtain ⟨msgfd, namebuf, hopen⟩ := hopen
  have hsmall := small_of_range hlow hhigh
  obtain ⟨deflvl, buffer, heq, -⟩ := vlog_eq hfilter hopen (fun _ => hsmall) message
  obtain ⟨hne, htext⟩ := emit_text c lvl msgfd (lineOf env c lvl (cStr message))
  refine ⟨_, heq, rfl, hne, ?_⟩
  intro w hw
  rw [htext w hw]
  exact lineOf_singleLine (fun _ => hsmall) (cStr message)

end Line

/-- Noon, and a file that can be opened. -/
def noonEnv : Env := ⟨some noon, noon, 0, true, []⟩

/-- Empty buffers. -/
def blankStack : Stack := ⟨blank 1024, blank 8, blank 8192⟩

/-- Messages for the console, all of them, without time stamps. -/
def consoleConfig : LogConfigInternal :=
  { LogConfigInternal.initial with verbose := 1, levelHold := 0 }

theorem opens_console : Opens noonEnv blankStack consoleConfig := ⟨some .stderr, none, rfl⟩

theorem vlog_singleLine_console :
    LogsLine noonEnv blankStack consoleConfig lInfo [72, 13, 10, 105] (cStr [72, 13, 10, 105]) :=
  vlog_singleLine noonEnv blankStack consoleConfig lInfo [72, 13, 10, 105] (by decide) opens_console
    (by decide) (by decide)

/-- A NUL in a message ends the line: `B` is missing in ` INFO  A`. -/
theorem vlog_cut :
    filtered consoleConfig lInfo = false ∧ Opens noonEnv blankStack consoleConfig ∧
      0 ≤ (level lInfo).toInt ∧ (level lInfo).toInt ≤ 0xFFFF ∧
      (∃ r, vlog noonEnv blankStack consoleConfig lInfo [65, 0, 66] = some r ∧
        r.writes = [(.stderr, Bytes.ofString " INFO  A\n")]) ∧
      ¬LogsLine noonEnv blankStack consoleConfig lInfo [65, 0, 66] [65, 0, 66] := by
  have hfilter : filtered consoleConfig lInfo = false := by decide
  have hopen : openLog noonEnv blankStack consoleConfig = some (.opened (some .stderr) none) := rfl
  have hsmall : Small lInfo := by unfold Small; decide
  obtain ⟨deflvl, buffer, heq, -⟩ := vlog_eq hfilter hopen (fun _ => hsmall) [65, 0, 66]
  have hline : emit consoleConfig lInfo (some .stderr)
      (lineOf noonEnv consoleConfig lInfo (cStr [65, 0, 66])) =
        [(.stderr, Bytes.ofString " INFO  A\n")] := by
    decide +kernel
  refine ⟨hfilter, opens_console, by decide, by decide, ⟨_, heq, hline⟩, ?_⟩
  rintro ⟨r, heq', -, -, hlines⟩
  obtain rfl := Option.some.inj (heq.symm.trans heq')
  have htext := (hlines _ (by rw [hline]; exact List.mem_singleton_self _)).eq
  exact absurd htext (by decide +kernel)

end Hiredispool.Log
