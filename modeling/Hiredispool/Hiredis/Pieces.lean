import Hiredispool.Hiredis.Grammar

/-!
# Replies and their bytes

The replies of `redisReaderGetReply` (`read.c`, lines 477–525), each beside the bytes that it was
made of. `Reads levels u obj` is the grammar of the protocol as the reader takes it: one
constructor for each form of a reply, with no word on how the bytes came.

* `parseItem_done_iff`: the parser finds `obj` at the front of its input if and only if the input
  starts with bytes that are read as `obj`; there is only one way to read an input.
* `Run.accepted`: **whatever a server sends**, the input of a run is, one behind the other, the
  bytes of its replies, and what is left.

The reader takes more than a server sends:

* the two bytes behind a bulk string are not looked at (line 273), so any two do;
* a count or a length is what `readLongLong` makes of a line, and of a line that is no number this
  is `-1`, "ambiguously" (line 147), so `*x` is nil;
* a count is passed on as an `int` (`hiredis.c`, line 134), so `*4294967298` is an array of two.
-/

namespace Hiredispool.Hiredis

open Hiredispool.Pool
open Hiredispool.Client (toInt)

/-! ## Lines -/

/-- The first line end is that of the first line. -/
theorem crlf_lineEnd {l : Bytes} (h : crlf l = none) (s : Bytes) :
    crlf (l ++ 13 :: 10 :: s) = some l.length := by
  induction l using crlf.induct with
  | case1 => rfl
  | case2 c => rw [List.singleton_append, crlf, if_neg (by simp), crlf, if_pos (by simp)]; rfl
  | case3 c d l hcd => rw [crlf, if_pos hcd] at h; cases h
  | case4 c d l hcd ih =>
    rw [crlf, if_neg hcd, Option.map_eq_none_iff] at h
    rw [List.cons_append, List.cons_append, crlf, if_neg hcd, ← List.cons_append, ih h]
    rfl

/-- A line is taken with its end, and nothing else. -/
theorem parseLine_lineEnd {α : Type} {l : Bytes} (h : crlf l = none) (rest : Bytes)
    (f : ℕ → Bytes → Parse α) : parseLine (l ++ 13 :: 10 :: rest) f = f l.length rest := by
  have hdrop : (l ++ 13 :: 10 :: rest).drop (l.length + 2) = rest := by
    rw [← List.drop_drop, List.drop_left]
    rfl
  rw [parseLine, crlf_lineEnd h]
  dsimp only
  rw [hdrop]

/-- The first line of an input, its end, and what comes behind it. -/
theorem crlf_split {p : Bytes} {len : ℕ} (h : crlf p = some len) :
    p = p.take len ++ 13 :: 10 :: p.drop (len + 2) := by
  induction p using crlf.induct generalizing len with
  | case1 => cases h
  | case2 c => cases h
  | case3 c d p hcd =>
    rw [crlf, if_pos hcd] at h
    obtain rfl := Option.some.inj h
    obtain ⟨rfl, rfl⟩ := hcd
    rfl
  | case4 c d p hcd ih =>
    rw [crlf, if_neg hcd] at h
    obtain ⟨n, hn, rfl⟩ := Option.map_eq_some_iff.mp h
    exact congrArg (c :: ·) (ih hn)

/-- The line `l` holds the number `n` (`readLongLong`, lines 148–173). -/
structure Number (l : Bytes) (n : ℤ) : Prop where
  line : crlf l = none
  value : readLongLong (l ++ [13, 10]) = some n

/-- A number is read from its line alone. -/
theorem readLongLong_lineEnd (l rest : Bytes) :
    readLongLong (l ++ 13 :: 10 :: rest) = readLongLong (l ++ [13, 10]) := by
  have hmem : (13 : UInt8) ∈ l ++ [13, 10] := List.mem_append_right l List.mem_cons_self
  rw [← readLongLong_append hmem rest, List.append_assoc]
  rfl

/-- A number is read from its line, whatever comes behind it. -/
theorem Number.parse {α : Type} {l : Bytes} {n : ℤ} (h : Number l n) (rest : Bytes)
    (f : ℤ → Bytes → Parse α) : parseNumber (l ++ 13 :: 10 :: rest) f = f n rest := by
  rw [parseNumber, parseLine_lineEnd h.line, readLongLong_lineEnd, h.value]
  rfl

section Split

variable {α : Type} {p rest : Bytes} {x : α}

/-- The other way round: what was parsed starts with a line. -/
theorem parseLine_split {f : ℕ → Bytes → Parse α} (h : parseLine p f = .done x rest) :
    ∃ l behind, p = l ++ 13 :: 10 :: behind ∧ crlf l = none ∧ f l.length behind = .done x rest := by
  obtain ⟨len, hline, h⟩ := parseLine_done h
  have hlt := crlf_lt hline
  refine ⟨p.take len, p.drop (len + 2), crlf_split hline, crlf_take hline, ?_⟩
  rwa [List.length_take, min_eq_left (by omega)]

/-- Where a number was read, its line is the first of the input. -/
theorem parseNumber_split {f : ℤ → Bytes → Parse α} (h : parseNumber p f = .done x rest) :
    ∃ l n behind, p = l ++ 13 :: 10 :: behind ∧ Number l n ∧ f n behind = .done x rest := by
  obtain ⟨l, behind, rfl, hline, h⟩ := parseLine_split h
  cases hread : readLongLong (l ++ 13 :: 10 :: behind) with
  | none => rw [hread] at h; cases h
  | some n =>
    rw [hread] at h
    exact ⟨l, n, behind, rfl, ⟨hline, (readLongLong_lineEnd l behind).symm.trans hread⟩, h⟩

end Split

/-- The byte in front of an item (lines 374–389). -/
def typeByte : ItemType → UInt8
  | .error => 45
  | .status => 43
  | .integer => 58
  | .string => 36
  | .array => 42

/-- Each type has one byte. -/
theorem itemType_eq {c : UInt8} {type : ItemType} (h : itemType c = some type) :
    c = typeByte type := by
  unfold itemType at h
  repeat' split at h
  all_goals cases h
  all_goals assumption

/-! ## The grammar -/

/-- The bytes of a reply that is no array, and its object. A length is that of the bytes between
    its line and the two that are skipped; a negative one is nil (line 264). -/
inductive SimpleReads : Bytes → ReplyObject → Prop
  | string {l str twoBytes : Bytes} (h : Number l str.length)
      (hlong : str.length < 9223372036854775806) (htwo : twoBytes.length = 2) :
    SimpleReads (36 :: (l ++ 13 :: 10 :: (str ++ twoBytes))) (.string str)
  | nil {l : Bytes} {n : ℤ} (h : Number l n) (hneg : n < 0) :
    SimpleReads (36 :: (l ++ [13, 10])) .nil
  | integer {l : Bytes} {n : ℤ} (h : Number l n) : SimpleReads (58 :: (l ++ [13, 10])) (.integer n)
  | status {l : Bytes} (h : crlf l = none) : SimpleReads (43 :: (l ++ [13, 10])) (.status l)
  | error {l : Bytes} (h : crlf l = none) : SimpleReads (45 :: (l ++ [13, 10])) (.error l)

/-- The bytes of an array and its object; `Element` is the same for its elements. A count of
    `-1` is nil (line 320). -/
inductive ArrayReads (Element : Bytes → ReplyObject → Prop) : Bytes → ReplyObject → Prop
  /-- As many elements as the count says, which is cut to an `int`. -/
  | array {l : Bytes} {n : ℤ} {pieces : List Bytes} {element : List ReplyObject} (h : Number l n)
      (hpos : 0 < n) (hint : 0 < toInt n) (hcount : (element.length : ℤ) = toInt n)
      (hall : List.Forall₂ Element pieces element) :
    ArrayReads Element (42 :: (l ++ 13 :: 10 :: pieces.flatten)) (.array element)
  | nil {l : Bytes} (h : Number l (-1)) : ArrayReads Element (42 :: (l ++ [13, 10])) .nil
  /-- Only a count that is not positive gives an object without elements. -/
  | empty {l : Bytes} {n : ℤ} (h : Number l n) (hle : n ≤ 0) (hne : n ≠ -1) :
    ArrayReads Element (42 :: (l ++ [13, 10])) (emptyArray n)

/-- `u` are the bytes of a reply that nests at most `levels` arrays, and `obj` is its object. -/
def Reads : ℕ → Bytes → ReplyObject → Prop
  | 0, u, obj => SimpleReads u obj
  | levels + 1, u, obj => SimpleReads u obj ∨ ArrayReads (Reads levels) u obj

/-- A reply that is no array is one on every level. -/
theorem SimpleReads.reads {u : Bytes} {obj : ReplyObject} (h : SimpleReads u obj) (levels : ℕ) :
    Reads levels u obj := by
  cases levels with
  | zero => exact h
  | succ levels => exact Or.inl h

/-! ## From the parser to the grammar -/

/-- Elements in a row, if each item is known to be at the front of its input. -/
theorem parseElements_split {item : Bytes → Parse ReplyObject}
    {Element : Bytes → ReplyObject → Prop} {k : ℕ} {u rest : Bytes} {objs : List ReplyObject}
    (hitem : ∀ u obj rest, item u = .done obj rest → ∃ piece, u = piece ++ rest ∧ Element piece obj)
    (h : parseElements item k u = .done objs rest) :
    ∃ pieces, u = pieces.flatten ++ rest ∧ objs.length = k ∧ List.Forall₂ Element pieces objs := by
  induction k generalizing u objs with
  | zero =>
    cases h
    exact ⟨[], rfl, rfl, .nil⟩
  | succ k ih =>
    obtain ⟨obj, rest₁, hobj, h⟩ := Parse.bind_done h
    obtain ⟨objs', rest₂, hobjs, h⟩ := Parse.bind_done h
    cases h
    obtain ⟨piece, rfl, hpiece⟩ := hitem u obj rest₁ hobj
    obtain ⟨pieces, rfl, hlen, hall⟩ := ih hobjs
    exact ⟨piece :: pieces, by rw [List.flatten_cons, List.append_assoc],
      by rw [List.length_cons, hlen], .cons hpiece hall⟩

/-- A bulk string comes from a length, as many bytes and two more, or from a negative length. -/
theorem parseBulk_split {p rest : Bytes} {obj : ReplyObject} (h : parseBulk p = .done obj rest) :
    ∃ piece, 36 :: p = piece ++ rest ∧ SimpleReads piece obj := by
  obtain ⟨l, n, behind, rfl, hnum, h⟩ := parseNumber_split h
  split at h
  · next hneg =>
    cases h
    exact ⟨_, by simp, .nil hnum hneg⟩
  split at h
  · cases h
  · next hneg hlong =>
    unfold parseData at h
    split at h
    · next hfit =>
      cases h
      have hlen : (behind.take n.toNat).length = n.toNat := List.length_take_of_le (by omega)
      have htwo : ((behind.drop n.toNat).take 2).length = 2 := by
        rw [List.length_take, List.length_drop]
        omega
      have hnum' : Number l (behind.take n.toNat).length := by
        rwa [hlen, Int.toNat_of_nonneg (by omega)]
      refine ⟨_, ?_, .string hnum' (by omega) htwo⟩
      simp [← List.drop_drop]
    · cases h

/-- An array comes from its count and the bytes of its elements. -/
theorem parseArray_split {item slotless : Bytes → Parse ReplyObject}
    {Element : Bytes → ReplyObject → Prop} {p rest : Bytes} {obj : ReplyObject}
    (hitem : ∀ u obj rest, item u = .done obj rest → ∃ piece, u = piece ++ rest ∧ Element piece obj)
    (hslotless : ∀ u obj rest, slotless u ≠ .done obj rest)
    (h : parseArray item slotless p = .done obj rest) :
    ∃ piece, 42 :: p = piece ++ rest ∧ ArrayReads Element piece obj := by
  obtain ⟨l, n, behind, rfl, hnum, h⟩ := parseNumber_split h
  split at h
  · next hnil =>
    cases h
    subst hnil
    exact ⟨_, by simp, .nil hnum⟩
  split at h
  · next hne hle =>
    cases h
    exact ⟨_, by simp, .empty hnum hle hne⟩
  split at h
  · exact absurd h (hslotless _ _ _)
  · next hpos hint =>
    obtain ⟨objs, rest', hobjs, h⟩ := Parse.bind_done h
    cases h
    obtain ⟨pieces, rfl, hlen, hall⟩ := parseElements_split hitem hobjs
    have hcount : (objs.length : ℤ) = toInt n := by rw [hlen]; omega
    exact ⟨_, by simp, .array hnum (by omega) (by omega) hcount hall⟩

/-- A reply, if this is known of the elements of an array. -/
theorem parseItem_split_step {levels : ℕ} {u rest : Bytes} {obj : ReplyObject}
    (hitem : ∀ levels', levels = levels' + 1 → ∀ u obj rest, parseItem levels' u = .done obj rest →
      ∃ piece, u = piece ++ rest ∧ Reads levels' piece obj)
    (h : parseItem levels u = .done obj rest) : ∃ piece, u = piece ++ rest ∧ Reads levels piece obj := by
  rw [parseItem.eq_def] at h
  cases u with
  | nil => cases h
  | cons c p =>
    dsimp only at h
    cases hc : itemType c with
    | none => rw [hc] at h; cases h
    | some type =>
      obtain rfl := itemType_eq hc
      rw [hc] at h
      cases type with
      | string =>
        obtain ⟨piece, heq, hpiece⟩ := parseBulk_split h
        exact ⟨piece, heq, hpiece.reads levels⟩
      | integer =>
        obtain ⟨l, n, behind, rfl, hnum, h⟩ := parseNumber_split h
        cases h
        exact ⟨_, by simp [typeByte], (SimpleReads.integer hnum).reads levels⟩
      | status =>
        obtain ⟨l, behind, rfl, hline, h⟩ := parseLine_split h
        cases h
        rw [List.take_left]
        exact ⟨_, by simp [typeByte], (SimpleReads.status hline).reads levels⟩
      | error =>
        obtain ⟨l, behind, rfl, hline, h⟩ := parseLine_split h
        cases h
        rw [List.take_left]
        exact ⟨_, by simp [typeByte], (SimpleReads.error hline).reads levels⟩
      | array =>
        cases levels with
        | zero => cases h
        | succ levels =>
          obtain ⟨piece, heq, hpiece⟩ := parseArray_split (hitem levels rfl)
            (fun u _ _ => parseSlotless_ne_done levels u) h
          exact ⟨piece, heq, Or.inr hpiece⟩

/-- By induction on the levels: what the parser finds is in the grammar. -/
theorem parseItem_split {levels : ℕ} {u rest : Bytes} {obj : ReplyObject}
    (h : parseItem levels u = .done obj rest) : ∃ piece, u = piece ++ rest ∧ Reads levels piece obj := by
  induction levels generalizing u rest obj with
  | zero => exact parseItem_split_step (fun _ h => absurd h (Nat.succ_ne_zero _).symm) h
  | succ levels ih =>
    refine parseItem_split_step (fun levels' h u obj rest hdone => ?_) h
    obtain rfl := Nat.succ.inj h
    exact ih hdone

/-! ## From the grammar to the parser -/

/-- The elements of an array are found one behind the other. -/
theorem parseElements_flatten {item : Bytes → Parse ReplyObject}
    {Element : Bytes → ReplyObject → Prop} {pieces : List Bytes} {objs : List ReplyObject}
    (hitem : ∀ piece obj rest, Element piece obj → item (piece ++ rest) = .done obj rest)
    (hall : List.Forall₂ Element pieces objs) (rest : Bytes) :
    parseElements item objs.length (pieces.flatten ++ rest) = .done objs rest := by
  induction hall with
  | nil => rfl
  | @cons piece obj pieces objs hpiece _ ih =>
    rw [List.length_cons, parseElements, List.flatten_cons, List.append_assoc,
      hitem piece obj _ hpiece]
    show (parseElements item objs.length (pieces.flatten ++ rest)).bind _ = _
    rw [ih]
    rfl

/-- Such bytes are parsed, whatever comes behind them. -/
theorem SimpleReads.parse {u : Bytes} {obj : ReplyObject} (h : SimpleReads u obj) (levels : ℕ)
    (rest : Bytes) : parseItem levels (u ++ rest) = .done obj rest := by
  cases h with
  | @string l str twoBytes h hlong htwo =>
    have hdrop : (str ++ (twoBytes ++ rest)).drop (str.length + 2) = rest := by
      rw [← List.drop_drop, List.drop_left, ← htwo, List.drop_left]
    have hfit : str.length + 2 ≤ (str ++ (twoBytes ++ rest)).length := by
      rw [List.length_append, List.length_append]
      omega
    rw [List.cons_append, List.append_assoc, List.cons_append, List.cons_append, List.append_assoc,
      parseItem.eq_def]
    show parseBulk _ = _
    rw [parseBulk, h.parse, if_neg (by omega), if_neg (by omega), Int.toNat_natCast, parseData,
      if_pos hfit, List.take_left, hdrop]
  | @nil l n h hneg =>
    rw [List.cons_append, List.append_assoc, parseItem.eq_def]
    exact (h.parse rest _).trans (if_pos hneg)
  | @integer l n h =>
    rw [List.cons_append, List.append_assoc, parseItem.eq_def]
    exact h.parse rest _
  | @status l h =>
    rw [List.cons_append, List.append_assoc, parseItem.eq_def]
    show parseLine (l ++ 13 :: 10 :: rest) _ = _
    rw [parseLine_lineEnd h, List.take_left]
  | @error l h =>
    rw [List.cons_append, List.append_assoc, parseItem.eq_def]
    show parseLine (l ++ 13 :: 10 :: rest) _ = _
    rw [parseLine_lineEnd h, List.take_left]

/-- So are those of an array, if those of its elements are. -/
theorem ArrayReads.parse {levels : ℕ} {u : Bytes} {obj : ReplyObject}
    (hitem : ∀ piece obj rest, Reads levels piece obj →
      parseItem levels (piece ++ rest) = .done obj rest)
    (h : ArrayReads (Reads levels) u obj) (rest : Bytes) :
    parseItem (levels + 1) (u ++ rest) = .done obj rest := by
  cases h with
  | @array l n pieces element h hpos hint hcount hall =>
    rw [List.cons_append, List.append_assoc, List.cons_append, List.cons_append, parseItem.eq_def]
    show parseArray _ _ _ = _
    rw [parseArray, h.parse, if_neg (by omega), if_neg (by omega), if_neg (by omega), ← hcount,
      Int.toNat_natCast, parseElements_flatten hitem hall]
    rfl
  | @nil l h =>
    rw [List.cons_append, List.append_assoc, parseItem.eq_def]
    exact (h.parse rest _).trans (if_pos rfl)
  | @empty l n h hle hne =>
    rw [List.cons_append, List.append_assoc, parseItem.eq_def]
    refine (h.parse rest _).trans ?_
    rw [if_neg hne, if_pos hle]

/-- By induction on the levels: **what is in the grammar is read**, whatever comes behind it. -/
theorem Reads.parse {levels : ℕ} {u : Bytes} {obj : ReplyObject} (h : Reads levels u obj)
    (rest : Bytes) : parseItem levels (u ++ rest) = .done obj rest := by
  induction levels generalizing u obj rest with
  | zero => exact SimpleReads.parse h 0 rest
  | succ levels ih =>
    rcases h with h | h
    · exact h.parse (levels + 1) rest
    · exact h.parse (fun piece obj rest hpiece => ih hpiece rest) rest

/-- **The parser is the grammar**: it finds `obj` and leaves `rest` if and only if the input is
    `rest` behind bytes that are read as `obj`. -/
theorem parseItem_done_iff {levels : ℕ} {u rest : Bytes} {obj : ReplyObject} :
    parseItem levels u = .done obj rest ↔ ∃ piece, u = piece ++ rest ∧ Reads levels piece obj := by
  constructor
  · exact parseItem_split
  · rintro ⟨piece, rfl, h⟩
    exact h.parse rest

/-! ## Whole inputs -/

/-- By induction on the input: the replies of the parser, with their bytes, one piece for each.
    -/
theorem parseReplies_pieces (fed : Bytes) :
    ∃ pieces rest, fed = pieces.flatten ++ rest ∧
      List.Forall₂ (Reads 8) pieces (parseReplies fed).1 := by
  induction hlen : fed.length using Nat.strongRecOn generalizing fed with
  | _ n ih =>
    subst hlen
    cases hparse : parseItem 8 fed with
    | done obj rest =>
      obtain ⟨piece, hfed, hpiece⟩ := parseItem_done_iff.mp hparse
      obtain ⟨pieces, rest', hrest, hall⟩ := ih _ (parseItem_done hparse).2 rest rfl
      rw [parseReplies_done hparse]
      exact ⟨piece :: pieces, rest', by rw [hfed, hrest, List.flatten_cons, List.append_assoc],
        .cons hpiece hall⟩
    | more => exact ⟨[], fed, rfl, by rw [parseReplies_ending (by rw [hparse]; rfl)]; exact .nil⟩
    | error errstr =>
      exact ⟨[], fed, rfl, by rw [parseReplies_ending (by rw [hparse]; rfl)]; exact .nil⟩
    | undefined =>
      exact ⟨[], fed, rfl, by rw [parseReplies_ending (by rw [hparse]; rfl)]; exact .nil⟩

namespace RedisReader

/-- **Whatever a server sends**, the task stack stays within `rstack[9]`, the position within the
    buffer, and each reply is well formed: the input is, one behind the other, the bytes that the
    grammar has for the replies so far, and what is left. -/
theorem Run.accepted {r : RedisReader} {fed : Bytes} {got : List ReplyObject} (h : Run r fed got) :
    r.rstack.length ≤ 9 ∧ r.pos ≤ r.buf.length ∧ (∀ obj ∈ got, obj.Accepted 8) ∧
      ∃ pieces rest, fed = pieces.flatten ++ rest ∧ List.Forall₂ (Reads 8) pieces got := by
  have hr := h.sound.1
  obtain ⟨later, hgot⟩ := h.prefix_parse
  obtain ⟨pieces, rest, hfed, hall⟩ := parseReplies_pieces fed
  refine ⟨hr.stack_le, hr.pos_le, fun obj hobj => ?_, ?_⟩
  · refine parseReplies_accepted fed obj ?_
    rw [← hgot]
    exact List.mem_append_left later hobj
  · -- the bytes of the replies that are still to be fetched are left
    rw [← hgot] at hall
    refine ⟨pieces.take got.length, (pieces.drop got.length).flatten ++ rest, ?_,
      List.forall₂_take_append pieces got later hall⟩
    rw [← List.append_assoc, ← List.flatten_append, List.take_append_drop, hfed]

/-- `*2\r\n*1\r\n:5\r\n$2\r\nab\r\n`, an array in an array. -/
def nestedBytes : Bytes :=
  [42, 50, 13, 10, 42, 49, 13, 10, 58, 53, 13, 10, 36, 50, 13, 10, 97, 98, 13, 10]

/-- The reply that it holds. -/
def nestedObject : ReplyObject := .array [.array [.integer 5], .string [97, 98]]

/-- It comes in two pieces, and the reader is asked after each of them. -/
theorem Run.nested : ∃ r, Run r nestedBytes [nestedObject] := by
  have h₁ : Run _ ([] ++ nestedBytes.take 9) ([] ++ []) :=
    .getReply (.feed (nestedBytes.take 9) .create) (by decide) rfl
  have h₂ : Run _ (([] ++ nestedBytes.take 9) ++ nestedBytes.drop 9) (([] ++ []) ++ [nestedObject]) :=
    .getReply (.feed (nestedBytes.drop 9) h₁) (by decide) rfl
  exact ⟨_, h₂⟩

/-- The two pieces of the socket are one piece of the grammar. -/
theorem Run.accepted_nested : ∃ r, Run r nestedBytes [nestedObject] ∧ nestedObject.Accepted 8 ∧
    ∃ pieces rest, nestedBytes = pieces.flatten ++ rest ∧
      List.Forall₂ (Reads 8) pieces [nestedObject] := by
  obtain ⟨r, hrun⟩ := Run.nested
  obtain ⟨-, -, haccepted, hpieces⟩ := Run.accepted hrun
  exact ⟨r, hrun, haccepted _ List.mem_cons_self, hpieces⟩

end RedisReader

end Hiredispool.Hiredis
