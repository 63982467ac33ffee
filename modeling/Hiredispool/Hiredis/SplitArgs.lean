import Hiredispool.Client.Commands
import Hiredispool.Config.Update
import Hiredispool.Lib.Numeral

/-!
# Quoted strings

Model of `sdscatrepr` and of `sdssplitargs` with its helpers (`sds.c`, lines 850–1039). The
comment of `sdssplitargs` notes

```
that sdscatrepr() is able to convert back a string into
a quoted string in the same format sdssplitargs() is able to parse
```

and that it returns `NULL` for unbalanced quotes, or closed quotes followed by what is no space.

`sdssplitargs` reads `line` up to its NUL, so its loops go over the bytes before it, and `*p`
is 0 at the end of the list. The `NULL` that it returns is `none`. Failures of `malloc` are
left out.

* `sdssplitargs_sdscatrepr`: what is put in quotes is split into the same strings.
* `sdssplitargs_append`: a line that is split can go on behind a blank.
* `sdssplitargs_unbalanced`: quotes that are not closed, or closed within a word.
-/

namespace Hiredispool.Hiredis

open Hiredispool.Pool (Bytes cStr)
open Hiredispool.Client (cStr_eq_self_iff)
open Hiredispool.Config (isSpace)
open Numeral (forall_uint8)

/-! ## `sdscatrepr` -/

/-- `isprint` in the C locale. -/
def isprint (p : UInt8) : Bool := 32 ≤ p && p ≤ 126

/-- A digit of `%x`. -/
def hexChar (d : UInt8) : UInt8 := if d < 10 then 48 + d else 87 + d

/-- The body of the loop of `sdscatrepr` (lines 859–875): an escape of one letter, the character
    itself if it can be printed, or `\xhh`. -/
def reprChar (p : UInt8) : Bytes :=
  if p = 92 ∨ p = 34 then [92, p]
  else if p = 10 then [92, 110]
  else if p = 13 then [92, 114]
  else if p = 9 then [92, 116]
  else if p = 7 then [92, 97]
  else if p = 8 then [92, 98]
  else if isprint p then [p]
  else [92, 120, hexChar (p / 16), hexChar (p % 16)]

/-- `sdscatrepr` (lines 856–879). -/
def sdscatrepr (s p : Bytes) : Bytes := p.foldl (fun s c => s ++ reprChar c) (s ++ [34]) ++ [34]

/-! ## `sdssplitargs` -/

/-- `is_hex_digit` (lines 883–886). -/
def isHexDigit (c : UInt8) : Bool :=
  (48 ≤ c && c ≤ 57) || (97 ≤ c && c ≤ 102) || (65 ≤ c && c ≤ 70)

/-- `hex_digit_to_int` (lines 890–910). -/
def hexDigitToInt (c : UInt8) : UInt8 :=
  if 48 ≤ c ∧ c ≤ 57 then c - 48
  else if 97 ≤ c ∧ c ≤ 102 then c - 87
  else if 65 ≤ c ∧ c ≤ 70 then c - 55
  else 0

/-- The character behind a backslash in double quotes (lines 963–970): the letters of
    `sdscatrepr`, and any other character for itself. -/
def unescape (p : UInt8) : UInt8 :=
  if p = 110 then 10
  else if p = 114 then 13
  else if p = 116 then 9
  else if p = 98 then 8
  else if p = 97 then 7
  else p

/-- What ends a token outside of quotes (lines 1000–1003). -/
def endsToken (p : UInt8) : Bool := p = 32 || p = 10 || p = 13 || p = 9

/-- `inq` and `insq`, which are never both set (lines 1007–1012). -/
inductive Quotes
  | none
  | inq
  | insq

/-- The closing quote must be followed by a space or nothing at all (lines 973–976 and 988–991).
    -/
def closed (current p : Bytes) : Option (Bytes × Bytes) :=
  match p with
  | [] => some (current, p)
  | c :: _ => if isSpace c then some (current, p) else none

/-- The loop of a token (lines 947–1019): the token, and what is left of the line. A blank that
    ends it is taken, too (line 1018), but none that follows a quote. -/
def token (quotes : Quotes) (current : Bytes) : Bytes → Option (Bytes × Bytes)
  | [] =>
    match quotes with
    | .none => some (current, [])
    -- unterminated quotes
    | _ => none
  | c :: p =>
    match quotes with
    | .inq =>
      if c = 92 then
        match p with
        | [] => token .inq (current ++ [c]) []
        | x :: a :: b :: p' =>
          if x = 120 ∧ isHexDigit a ∧ isHexDigit b then
            token .inq (current ++ [hexDigitToInt a * 16 + hexDigitToInt b]) p'
          else token .inq (current ++ [unescape x]) (a :: b :: p')
        | x :: p' => token .inq (current ++ [unescape x]) p'
      else if c = 34 then closed current p
      else token .inq (current ++ [c]) p
    | .insq =>
      if c = 92 then
        match p with
        | [] => token .insq (current ++ [c]) []
        | x :: p' =>
          if x = 39 then token .insq (current ++ [39]) p'
          else token .insq (current ++ [c]) (x :: p')
      else if c = 39 then closed current p
      else token .insq (current ++ [c]) p
    | .none =>
      if endsToken c then some (current, p)
      else if c = 34 then token .inq current p
      else if c = 39 then token .insq current p
      else token .none (current ++ [c]) p

/-- A closing quote leaves what is behind it. -/
theorem closed_rest {current r p p' : Bytes} (h : closed current p = some (r, p')) : p' = p := by
  unfold closed at h
  split at h
  · obtain ⟨-, rfl⟩ := Prod.mk.inj (Option.some.inj h)
    rfl
  · obtain ⟨-, h⟩ := Option.ite_none_right_eq_some.mp h
    obtain ⟨-, rfl⟩ := Prod.mk.inj (Option.some.inj h)
    rfl

/-- A token takes at least one character, where there is one. -/
theorem length_token {quotes : Quotes} {current r p p' : Bytes}
    (h : token quotes current p = some (r, p')) : p'.length ≤ p.length - 1 := by
  fun_induction token quotes current p with
  | case1 =>
    obtain ⟨-, rfl⟩ := Prod.mk.inj (Option.some.inj h)
    exact Nat.zero_le _
  | case2 => cases h
  | case7 | case12 =>
    rw [closed_rest h]
    exact Nat.le_refl _
  | case14 =>
    obtain ⟨-, rfl⟩ := Prod.mk.inj (Option.some.inj h)
    exact Nat.le_refl _
  | _ =>
    rename_i ih
    have hlen := ih h
    simp only [List.length_cons, List.length_nil] at hlen ⊢
    omega

/-- The loop of `sdssplitargs` (lines 937–1030): blanks are skipped, and a token is put behind
    the others. Each takes a character, so the loop ends. -/
def splitLoop (vector : List Bytes) (line : Bytes) : Option (List Bytes) :=
  match _hline : line.dropWhile isSpace with
  | [] => some vector
  | c :: p =>
    match _htoken : token .none [] (c :: p) with
    | none => none
    | some (current, p') => splitLoop (vector ++ [current]) p'
termination_by line.length
decreasing_by
  have hlen := length_token _htoken
  have hle := (List.dropWhile_suffix isSpace (l := line)).length_le
  rw [_hline] at hle
  rw [List.length_cons] at hlen hle
  omega

/-- `sdssplitargs` (lines 931–1039). -/
def sdssplitargs (line : Bytes) : Option (List Bytes) := splitLoop [] (cStr line)

/-! ## Tokens -/

/-- `\x` and two digits (lines 949–958). -/
theorem token_hex {current p : Bytes} {a b : UInt8} (ha : isHexDigit a = true)
    (hb : isHexDigit b = true) :
    token .inq current (92 :: 120 :: a :: b :: p) =
      token .inq (current ++ [hexDigitToInt a * 16 + hexDigitToInt b]) p :=
  (if_pos rfl).trans (if_pos ⟨rfl, ha, hb⟩)

/-- Another character behind a backslash (lines 959–971). -/
theorem token_escape {current p : Bytes} {x : UInt8}
    (h : ∀ a b p', p = a :: b :: p' → ¬(x = 120 ∧ isHexDigit a = true ∧ isHexDigit b = true)) :
    token .inq current (92 :: x :: p) = token .inq (current ++ [unescape x]) p := by
  cases p with
  | nil => exact if_pos rfl
  | cons a p =>
    cases p with
    | nil => exact if_pos rfl
    | cons b p => exact (if_pos rfl).trans (if_neg (h a b p rfl))

/-- A character in double quotes that is no backslash. -/
theorem token_inq_eq {current p : Bytes} {c : UInt8} (hback : c ≠ 92) :
    token .inq current (c :: p) =
      if c = 34 then closed current p else token .inq (current ++ [c]) p := by
  rw [token.eq_def]
  exact if_neg hback

/-- A character in double quotes (line 981). -/
theorem token_inq {current p : Bytes} {c : UInt8} (hback : c ≠ 92) (hquote : c ≠ 34) :
    token .inq current (c :: p) = token .inq (current ++ [c]) p := by
  rw [token_inq_eq hback, if_neg hquote]

/-- The double quote that closes (lines 972–976). -/
theorem token_close {current p : Bytes} : token .inq current (34 :: p) = closed current p := by
  rw [token_inq_eq (by decide), if_pos rfl]

/-- `\'` in single quotes (lines 984–986). -/
theorem token_insq_quote {current p : Bytes} :
    token .insq current (92 :: 39 :: p) = token .insq (current ++ [39]) p :=
  (if_pos rfl).trans (if_pos rfl)

/-- Another backslash in single quotes stands for itself. -/
theorem token_insq_back {current p : Bytes} {x : UInt8} (hquote : x ≠ 39) :
    token .insq current (92 :: x :: p) = token .insq (current ++ [92]) (x :: p) :=
  (if_pos rfl).trans (if_neg hquote)

/-- A character in single quotes that is no backslash. -/
theorem token_insq_eq {current p : Bytes} {c : UInt8} (hback : c ≠ 92) :
    token .insq current (c :: p) =
      if c = 39 then closed current p else token .insq (current ++ [c]) p := by
  cases p with
  | nil => exact if_neg hback
  | cons a p => exact if_neg hback

/-- A character in single quotes (line 996). -/
theorem token_insq {current p : Bytes} {c : UInt8} (hback : c ≠ 92) (hquote : c ≠ 39) :
    token .insq current (c :: p) = token .insq (current ++ [c]) p := by
  rw [token_insq_eq hback, if_neg hquote]

/-- The single quote that closes (lines 987–991). -/
theorem token_insq_close {current p : Bytes} :
    token .insq current (39 :: p) = closed current p := by
  rw [token_insq_eq (by decide), if_pos rfl]

/-- A blank outside of quotes (lines 1000–1006). -/
theorem token_ends {current p : Bytes} {c : UInt8} (hends : endsToken c = true) :
    token .none current (c :: p) = some (current, p) :=
  if_pos hends

/-- A double quote, also within a word (lines 1007–1009). -/
theorem token_open {current p : Bytes} : token .none current (34 :: p) = token .inq current p :=
  (if_neg (by decide)).trans (if_pos rfl)

/-- A single quote (lines 1010–1012). -/
theorem token_insq_open {current p : Bytes} :
    token .none current (39 :: p) = token .insq current p :=
  (if_neg (by decide)).trans ((if_neg (by decide)).trans (if_pos rfl))

/-- Any other character (line 1014). -/
theorem token_none {current p : Bytes} {c : UInt8} (hends : ¬endsToken c = true) (hdouble : c ≠ 34)
    (hsingle : c ≠ 39) : token .none current (c :: p) = token .none (current ++ [c]) p :=
  (if_neg hends).trans ((if_neg hdouble).trans (if_neg hsingle))

/-- A blank behind a closing quote. -/
theorem closed_append {current r p p' t : Bytes} {c : UInt8} (hc : isSpace c = true)
    (h : closed current p = some (r, p')) :
    closed current (p ++ c :: t) = some (r, p' ++ c :: t) := by
  cases p with
  | nil =>
    obtain ⟨rfl, rfl⟩ := Prod.mk.inj (Option.some.inj h)
    exact if_pos hc
  | cons d p =>
    obtain ⟨hd, h⟩ := Option.ite_none_right_eq_some.mp h
    obtain ⟨rfl, rfl⟩ := Prod.mk.inj (Option.some.inj h)
    exact if_pos hd

/-! ## Lines -/

/-- The four blanks that end a token; `isspace` knows two more. -/
theorem endsToken_cases {c : UInt8} (h : endsToken c = true) : c = 32 ∨ c = 10 ∨ c = 13 ∨ c = 9 := by
  simpa only [endsToken, Bool.or_eq_true, decide_eq_true_eq, or_assoc] using h

/-- They are skipped in front of a token. -/
theorem isSpace_of_endsToken {c : UInt8} (h : endsToken c = true) : isSpace c = true := by
  obtain rfl | rfl | rfl | rfl := endsToken_cases h <;> rfl

/-- None of them is a digit of `\xhh`. -/
theorem isHexDigit_of_endsToken {c : UInt8} (h : endsToken c = true) : isHexDigit c = false := by
  obtain rfl | rfl | rfl | rfl := endsToken_cases h <;> rfl

/-- Nothing but blanks is left. -/
theorem splitLoop_blank {vector : List Bytes} {line : Bytes}
    (h : line.dropWhile isSpace = []) : splitLoop vector line = some vector := by
  rw [splitLoop]
  split
  · rfl
  · next hline =>
    rw [h] at hline
    cases hline

/-- A token is left. -/
theorem splitLoop_token {vector : List Bytes} {line p : Bytes} {c : UInt8}
    (h : line.dropWhile isSpace = c :: p) :
    splitLoop vector line =
      (token .none [] (c :: p)).bind fun (current, p') => splitLoop (vector ++ [current]) p' := by
  rw [splitLoop]
  split
  · next hline =>
    rw [h] at hline
    cases hline
  · next hline =>
    rw [h] at hline
    obtain ⟨rfl, rfl⟩ := List.cons.inj hline
    split
    · next htoken => rw [htoken]; rfl
    · next htoken => rw [htoken]; rfl

/-- Blanks in front of a line do not matter. -/
theorem splitLoop_congr {vector : List Bytes} {line line' : Bytes}
    (h : line.dropWhile isSpace = line'.dropWhile isSpace) :
    splitLoop vector line = splitLoop vector line' := by
  cases hline : line.dropWhile isSpace with
  | nil => rw [splitLoop_blank hline, splitLoop_blank (h ▸ hline)]
  | cons c p => rw [splitLoop_token hline, splitLoop_token (h ▸ hline)]

/-- A token that ends in a line ends there too when the line goes on behind a blank. -/
theorem token_append {quotes : Quotes} {current r p p' t : Bytes} {c : UInt8}
    (hc : endsToken c = true) (h : token quotes current p = some (r, p')) :
    ∃ p'', token quotes current (p ++ c :: t) = some (r, p'') ∧
      p''.dropWhile isSpace = (p' ++ c :: t).dropWhile isSpace := by
  have hspace := isSpace_of_endsToken hc
  fun_induction token quotes current p with
  | case1 current =>
    obtain ⟨rfl, rfl⟩ := Prod.mk.inj (Option.some.inj h)
    exact ⟨t, token_ends hc, (List.dropWhile_cons_of_pos hspace).symm⟩
  | case2 | case3 | case9 => cases h
  | case4 current x a b p hhex ih =>
    obtain ⟨rfl, ha, hb⟩ := hhex
    obtain ⟨p'', htoken, hskip⟩ := ih h
    exact ⟨p'', (token_hex ha hb).trans htoken, hskip⟩
  | case5 current x a b p hhex ih =>
    obtain ⟨p'', htoken, hskip⟩ := ih h
    refine ⟨p'', (token_escape ?_).trans htoken, hskip⟩
    intro a' b' p₁ heq
    cases heq
    exact hhex
  | case6 current x p hshort ih =>
    obtain ⟨p'', htoken, hskip⟩ := ih h
    refine ⟨p'', (token_escape ?_).trans htoken, hskip⟩
    -- the blank is no digit
    intro a b p₁ heq
    cases p with
    | nil => cases h
    | cons d p =>
      cases p with
      | cons e p => exact absurd rfl (hshort d e p)
      | nil =>
        cases heq
        rintro ⟨-, -, hdigit⟩
        rw [isHexDigit_of_endsToken hc] at hdigit
        cases hdigit
  | case7 current p =>
    obtain rfl := closed_rest h
    exact ⟨_, token_close.trans (closed_append hspace h), rfl⟩
  | case12 current p =>
    obtain rfl := closed_rest h
    exact ⟨_, token_insq_close.trans (closed_append hspace h), rfl⟩
  | case14 current c' p hends =>
    obtain ⟨rfl, rfl⟩ := Prod.mk.inj (Option.some.inj h)
    exact ⟨_, token_ends hends, rfl⟩
  | case8 current d p hback hquote ih =>
    obtain ⟨p'', htoken, hskip⟩ := ih h
    exact ⟨p'', (token_inq hback hquote).trans htoken, hskip⟩
  | case10 current p ih =>
    obtain ⟨p'', htoken, hskip⟩ := ih h
    exact ⟨p'', token_insq_quote.trans htoken, hskip⟩
  | case11 current x p hquote ih =>
    obtain ⟨p'', htoken, hskip⟩ := ih h
    exact ⟨p'', (token_insq_back hquote).trans htoken, hskip⟩
  | case13 current d p hback hquote ih =>
    obtain ⟨p'', htoken, hskip⟩ := ih h
    exact ⟨p'', (token_insq hback hquote).trans htoken, hskip⟩
  | case15 current p _ ih =>
    obtain ⟨p'', htoken, hskip⟩ := ih h
    exact ⟨p'', token_open.trans htoken, hskip⟩
  | case16 current p _ _ ih =>
    obtain ⟨p'', htoken, hskip⟩ := ih h
    exact ⟨p'', token_insq_open.trans htoken, hskip⟩
  | case17 current d p hends hdouble hsingle ih =>
    obtain ⟨p'', htoken, hskip⟩ := ih h
    exact ⟨p'', (token_none hends hdouble hsingle).trans htoken, hskip⟩

/-- A line goes on behind a blank with the tokens that follow. -/
theorem splitLoop_append {vector args : List Bytes} {line line' : Bytes} {c : UInt8}
    (hc : endsToken c = true) (h : splitLoop vector line = some args) :
    splitLoop vector (line ++ c :: line') = splitLoop args line' := by
  fun_induction splitLoop vector line with
  | case1 vector line hline =>
    obtain rfl := Option.some.inj h
    refine splitLoop_congr ?_
    rw [List.dropWhile_append, hline, List.isEmpty_nil, if_pos rfl,
      List.dropWhile_cons_of_pos (isSpace_of_endsToken hc)]
  | case2 => cases h
  | case3 vector line d p hline current p' htoken ih =>
    obtain ⟨p'', htoken', hskip⟩ := token_append (t := line') hc htoken
    have hline' : (line ++ c :: line').dropWhile isSpace = d :: (p ++ c :: line') := by
      rw [List.dropWhile_append, hline]
      rfl
    rw [splitLoop_token hline', ← List.cons_append, htoken', ← ih h]
    exact splitLoop_congr hskip

/-! ## Quoting -/

/-- All characters between two quotes. -/
theorem sdscatrepr_eq (s p : Bytes) : sdscatrepr s p = s ++ 34 :: (p.flatMap reprChar ++ [34]) := by
  have hfold : ∀ t : Bytes, p.foldl (fun s c => s ++ reprChar c) t = t ++ p.flatMap reprChar := by
    induction p with
    | nil => intro t; simp
    | cons c p ih => intro t; simp [ih]
  unfold sdscatrepr
  rw [hfold]
  simp

/-- A NUL is `\x00`, so the line does not end there. -/
theorem reprChar_noNul (c : UInt8) : 0 ∉ reprChar c :=
  forall_uint8 (P := fun c => 0 ∉ reprChar c) (by decide +kernel) c

/-- `%02x` is read back by `hex_digit_to_int`. -/
theorem isHexDigit_hexChar (p : UInt8) :
    isHexDigit (hexChar (p / 16)) = true ∧ isHexDigit (hexChar (p % 16)) = true ∧
      hexDigitToInt (hexChar (p / 16)) * 16 + hexDigitToInt (hexChar (p % 16)) = p :=
  forall_uint8 (P := fun p => isHexDigit (hexChar (p / 16)) = true ∧
    isHexDigit (hexChar (p % 16)) = true ∧
      hexDigitToInt (hexChar (p / 16)) * 16 + hexDigitToInt (hexChar (p % 16)) = p)
    (by decide +kernel) p

/-- A backslash and a letter other than `x`. -/
theorem token_letter {current p : Bytes} {x : UInt8} (h : x ≠ 120) :
    token .inq current (92 :: x :: p) = token .inq (current ++ [unescape x]) p :=
  token_escape fun _ _ _ _ hhex => h hhex.1

/-- What stands for a character in quotes is read as it. -/
theorem token_reprChar (current p : Bytes) (c : UInt8) :
    token .inq current (reprChar c ++ p) = token .inq (current ++ [c]) p := by
  unfold reprChar
  split
  · next h => obtain rfl | rfl := h <;> exact token_letter (by decide)
  next hplain =>
  split
  · next h => subst h; exact token_letter (by decide)
  split
  · next h => subst h; exact token_letter (by decide)
  split
  · next h => subst h; exact token_letter (by decide)
  split
  · next h => subst h; exact token_letter (by decide)
  split
  · next h => subst h; exact token_letter (by decide)
  split
  · exact token_inq (fun h => hplain (Or.inl h)) (fun h => hplain (Or.inr h))
  · obtain ⟨ha, hb, hvalue⟩ := isHexDigit_hexChar c
    show token .inq current (92 :: 120 :: hexChar (c / 16) :: hexChar (c % 16) :: p) = _
    rw [token_hex ha hb, hvalue]

/-- The text in quotes, up to the closing one. -/
theorem token_flatMap (current arg p : Bytes) :
    token .inq current (arg.flatMap reprChar ++ 34 :: p) = closed (current ++ arg) p := by
  induction arg generalizing current with
  | nil => rw [List.append_nil]; exact token_close
  | cons c arg ih =>
    rw [List.flatMap_cons, List.append_assoc, token_reprChar, ih, List.append_assoc]
    rfl

/-- **One string in quotes is one token.** -/
theorem splitLoop_sdscatrepr (vector : List Bytes) (arg : Bytes) :
    splitLoop vector (sdscatrepr [] arg) = some (vector ++ [arg]) := by
  have hquote : (sdscatrepr [] arg).dropWhile isSpace = 34 :: (arg.flatMap reprChar ++ [34]) := by
    rw [sdscatrepr_eq]
    rfl
  rw [splitLoop_token hquote, token_open, token_flatMap]
  exact splitLoop_blank rfl

/-- The text in quotes without the closing one. -/
theorem token_unterminated (current arg : Bytes) :
    token .inq current (arg.flatMap reprChar) = none := by
  induction arg generalizing current with
  | nil => rfl
  | cons c arg ih => rw [List.flatMap_cons, token_reprChar, ih]

/-- There is no NUL in the quoted text. -/
theorem flatMap_noNul (arg : Bytes) : 0 ∉ arg.flatMap reprChar := by
  intro h
  obtain ⟨c, -, h⟩ := List.mem_flatMap.mp h
  exact reprChar_noNul c h

/-- Nor in the quotes. -/
theorem sdscatrepr_noNul (arg : Bytes) : 0 ∉ sdscatrepr [] arg := by
  rw [sdscatrepr_eq, List.nil_append, List.mem_cons, List.mem_append]
  rintro (h | h | h)
  · exact absurd h (by decide)
  · exact flatMap_noNul arg h
  · exact absurd h (by decide)

/-- A line without a NUL goes on behind it. -/
theorem cStr_append {s t : Bytes} (h : 0 ∉ s) : cStr (s ++ t) = s ++ cStr t := by
  have hall : ∀ b ∈ s, decide (b ≠ 0) = true := by
    intro b hb
    exact decide_eq_true (ne_of_mem_of_not_mem hb h)
  exact List.takeWhile_append_of_pos hall

/-- By one character. -/
theorem cStr_cons {s : Bytes} {c : UInt8} (hc : c ≠ 0) : cStr (c :: s) = c :: cStr s := by
  rw [cStr, List.takeWhile_cons, if_pos (decide_eq_true hc)]
  rfl

/-- The loop is at the blank behind a line that is split. -/
theorem sdssplitargs_eq_splitLoop {line line' : Bytes} {args : List Bytes} {c : UInt8}
    (hline : 0 ∉ line) (hc : endsToken c = true) (h : sdssplitargs line = some args) :
    sdssplitargs (line ++ c :: line') = splitLoop args (cStr line') := by
  have hc0 : c ≠ 0 := by
    rintro rfl
    cases hc
  unfold sdssplitargs at h ⊢
  rw [cStr_eq_self_iff.mpr hline] at h
  rw [cStr_append hline, cStr_cons hc0, splitLoop_append hc h]

/-! ## Results -/

/-- Behind any line that is split, a string in quotes makes the whole line fail if its closing
    quote is followed by another character than a blank, or is not there. -/
theorem sdssplitargs_unbalanced {line arg p : Bytes} {args : List Bytes} {c d : UInt8}
    (hline : 0 ∉ line) (hc : endsToken c = true) (h : sdssplitargs line = some args)
    (hd : isSpace d = false) (hd0 : d ≠ 0) :
    sdssplitargs (line ++ c :: (sdscatrepr [] arg ++ d :: p)) = none ∧
      sdssplitargs (line ++ c :: 34 :: arg.flatMap reprChar) = none := by
  constructor
  · rw [sdssplitargs_eq_splitLoop hline hc h, cStr_append (sdscatrepr_noNul arg), cStr_cons hd0]
    have hquote : (sdscatrepr [] arg ++ d :: cStr p).dropWhile isSpace =
        34 :: (arg.flatMap reprChar ++ 34 :: d :: cStr p) := by
      rw [sdscatrepr_eq, List.nil_append, List.cons_append, List.append_assoc]
      rfl
    rw [splitLoop_token hquote, token_open, token_flatMap, closed, hd]
    rfl
  · rw [sdssplitargs_eq_splitLoop hline hc h, cStr_cons (by decide),
      cStr_eq_self_iff.mpr (flatMap_noNul arg), splitLoop_token rfl, token_open, token_unterminated]
    rfl

/-- `"a"b`, and a quote that stays open. -/
theorem sdssplitargs_unbalanced_a :
    sdssplitargs ([34, 97, 34] ++ 32 :: (sdscatrepr [] [97] ++ 98 :: [])) = none ∧
      sdssplitargs ([34, 97, 34] ++ 32 :: 34 :: [97].flatMap reprChar) = none :=
  sdssplitargs_unbalanced (by decide) rfl (splitLoop_sdscatrepr [] [97]) rfl (by decide)

end Hiredispool.Hiredis
