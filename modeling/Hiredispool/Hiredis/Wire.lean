import Hiredispool.Hiredis.Pieces
import Hiredispool.Lib.Decimal

/-!
# Replies on the wire

What a server sends for a reply, and what the reader makes of it. `RedisReply` is a reply as the
clients see it, `encode` gives its bytes, `object` what the reader should build of them.

Main results:

* `parse_encode_iff`: a reply is read back from its encoding if and only if it is one
  that the reader accepts at all.
* `Extends.item`: a result of the parser does not depend on what comes behind it.
* `parse_incomplete`: without its last byte a reply is not there.
* `Run.roundTrip`: **the replies that come out are those that were sent**, each as soon
  as its last byte is there, and none before.
-/

namespace Hiredispool.Hiredis

open Hiredispool.Pool
open Hiredispool.Client (RedisReply toInt isDigit)

/-! ## Encoding -/

/-- A type byte with a line. -/
def encodeLine (c : UInt8) (s : Bytes) : Bytes := c :: (s ++ [13, 10])

mutual

/-- What a server sends for a reply: a nil is a string of length `-1`. -/
def encode : RedisReply → Bytes
  | .string str => encodeLine 36 (Decimal.ofInt str.length) ++ (str ++ [13, 10])
  | .array element => encodeLine 42 (Decimal.ofInt element.length) ++ encodeAll element
  | .integer n => encodeLine 58 (Decimal.ofInt n)
  | .nil => encodeLine 36 (Decimal.ofInt (-1))
  | .status str => encodeLine 43 str
  | .error str => encodeLine 45 str

/-- One reply behind the other. -/
def encodeAll : List RedisReply → Bytes
  | [] => []
  | x :: xs => encode x ++ encodeAll xs

end

mutual

/-- The object that the reader should build; the texts and the numbers are the same. -/
def object : RedisReply → ReplyObject
  | .string str => .string str
  | .array element => .array (objects element)
  | .integer n => .integer n
  | .nil => .nil
  | .status str => .status str
  | .error str => .error str

/-- The objects of an array. -/
def objects : List RedisReply → List ReplyObject
  | [] => []
  | x :: xs => object x :: objects xs

end

theorem encodeAll_append (xs ys : List RedisReply) :
    encodeAll (xs ++ ys) = encodeAll xs ++ encodeAll ys := by
  induction xs with
  | nil => rfl
  | cons x xs ih => rw [List.cons_append, encodeAll, encodeAll, ih, List.append_assoc]

/-- The first replies come first. -/
theorem encodeAll_isPrefix {xs ys : List RedisReply} (h : xs <+: ys) : encodeAll xs <+: encodeAll ys := by
  obtain ⟨zs, rfl⟩ := h
  rw [encodeAll_append]
  exact List.prefix_append _ _

theorem objects_eq_map (xs : List RedisReply) : objects xs = xs.map object := by
  induction xs with
  | nil => rfl
  | cons x xs ih => rw [objects, ih, List.map_cons]

/-! ## Lines -/

/-- Without a `\r` there is no line end. -/
theorem crlf_of_notMem {l : Bytes} (h : (13 : UInt8) ∉ l) : crlf l = none := by
  cases hl : crlf l with
  | none => rfl
  | some n => exact absurd (mem_of_crlf hl) h

/-! ## Numbers -/

/-- The digits so far, and one more. -/
theorem le_foldl_digits (l : Bytes) (v : ℕ) :
    v ≤ l.foldl (fun n b => 10 * n + (b.toNat - 48)) v := by
  induction l generalizing v with
  | nil => exact le_rfl
  | cons b l ih =>
    have hle := ih (10 * v + (b.toNat - 48))
    rw [List.foldl_cons]
    omega

/-- By induction on the digits: nothing overflows if the number does not. -/
theorem readDigits_foldl {l : Bytes} (hl : ∀ b ∈ l, isDigit b = true ∧ b ≠ 13) (rest : Bytes) (v : ℕ)
    (h : l.foldl (fun n b => 10 * n + (b.toNat - 48)) v < 9223372036854775808) :
    readDigits (l ++ 13 :: rest) v =
      some (some ((l.foldl (fun n b => 10 * n + (b.toNat - 48)) v : ℕ) : ℤ)) := by
  induction l generalizing v with
  | nil =>
    rw [List.nil_append, readDigits, if_pos rfl]
    rfl
  | cons b l ih =>
    obtain ⟨hdigit, hne⟩ := hl b List.mem_cons_self
    have hb : 48 ≤ b.toNat := (of_decide_eq_true hdigit).1
    rw [List.foldl_cons] at h ⊢
    have hle := le_foldl_digits l (10 * v + (b.toNat - 48))
    have hmul : CInt.checkLong ((v : ℤ) * 10) = some ((v : ℤ) * 10) := if_pos (by omega)
    have hadd : CInt.checkLong ((v : ℤ) * 10 + (b.toNat - 48)) =
        some ((10 * v + (b.toNat - 48) : ℕ) : ℤ) := by
      unfold CInt.checkLong
      rw [if_pos (by omega)]
      congr 1
      omega
    rw [List.cons_append, readDigits, if_neg hne, if_pos hdigit, hmul, Option.bind_some, hadd,
      Option.bind_some]
    exact ih (fun b' hb' => hl b' (List.mem_cons_of_mem b hb')) _ h

/-- `printf` writes digits, and no `\r`. -/
theorem isDigit_of_mem {n : ℕ} {b : UInt8} (h : b ∈ Decimal.ofNat n) : isDigit b = true ∧ b ≠ 13 := by
  obtain ⟨d, hd, rfl⟩ := Decimal.mem_ofNat h
  have hval := Decimal.toNat_digit hd
  constructor
  · refine decide_eq_true ⟨?_, ?_⟩
    · show 48 ≤ (Decimal.digit d).toNat
      omega
    · show (Decimal.digit d).toNat ≤ 57
      omega
  · intro he
    rw [he] at hval
    have : (13 : UInt8).toNat = 13 := rfl
    omega

/-- A number that is not negative, with its line end (lines 161–170). -/
theorem readDigits_ofNat {n : ℕ} (h : n < 9223372036854775808) (rest : Bytes) :
    readDigits (Decimal.ofNat n ++ 13 :: rest) 0 = some (some (n : ℤ)) := by
  have hvalue := Decimal.toNat_ofNat n
  unfold Decimal.toNat at hvalue
  have hread := readDigits_foldl (fun b hb => isDigit_of_mem hb) rest 0 (by rw [hvalue]; exact h)
  rwa [hvalue] at hread

/-- The reader reads what `printf` writes. -/
theorem readLongLong_ofInt {n : ℤ} (hlow : -9223372036854775808 < n)
    (hhigh : n < 9223372036854775808) (rest : Bytes) :
    readLongLong (Decimal.ofInt n ++ 13 :: rest) = some n := by
  have hdigits : readDigits (Decimal.ofNat n.natAbs ++ 13 :: rest) 0 = some (some (n.natAbs : ℤ)) :=
    readDigits_ofNat (by omega) rest
  unfold Decimal.ofInt
  split
  · show readSigned (-1) (Decimal.ofNat n.natAbs ++ 13 :: rest) = some n
    rw [readSigned, hdigits]
    show some (-1 * (n.natAbs : ℤ)) = some n
    congr 1
    omega
  · have hsigned : readSigned 1 (Decimal.ofNat n.natAbs ++ 13 :: rest) = some n := by
      rw [readSigned, hdigits]
      show some (1 * (n.natAbs : ℤ)) = some n
      congr 1
      omega
    cases hl : Decimal.ofNat n.natAbs with
    | nil => exact absurd hl (Decimal.ofNat_ne_nil _)
    | cons b l =>
      have hb : isDigit b = true := (isDigit_of_mem (by rw [hl]; exact List.mem_cons_self)).1
      rw [hl] at hsigned
      rw [← hsigned, List.cons_append]
      unfold readLongLong
      split
      · next he => rw [(List.cons.inj he).1] at hb; exact absurd hb (by decide)
      · next he => rw [(List.cons.inj he).1] at hb; exact absurd hb (by decide)
      · rfl

/-- There is no line end in a number. -/
theorem crlf_ofInt (n : ℤ) : crlf (Decimal.ofInt n) = none := by
  have hdigits : (13 : UInt8) ∉ Decimal.ofNat n.natAbs := fun h => (isDigit_of_mem h).2 rfl
  refine crlf_of_notMem ?_
  unfold Decimal.ofInt
  split
  · intro h
    rcases List.mem_cons.mp h with h | h
    · cases h
    · exact hdigits h
  · exact hdigits

/-- So a length or a count is read back. -/
theorem parseNumber_ofInt {α : Type} {n : ℤ} (hlow : -9223372036854775808 < n)
    (hhigh : n < 9223372036854775808) (rest : Bytes) (f : ℤ → Bytes → Parse α) :
    parseNumber (Decimal.ofInt n ++ 13 :: 10 :: rest) f = f n rest := by
  rw [parseNumber, parseLine_lineEnd (crlf_ofInt n), readLongLong_ofInt hlow hhigh]
  rfl

/-! ## Reading a reply back -/

/-- An item with the objects of its elements known. -/
theorem parseElements_encodeAll {levels : ℕ} {xs : List RedisReply}
    (hitem : ∀ x ∈ xs, ∀ rest, parseItem levels (encode x ++ rest) = .done (object x) rest)
    (rest : Bytes) :
    parseElements (parseItem levels) xs.length (encodeAll xs ++ rest) = .done (objects xs) rest := by
  induction xs with
  | nil => rfl
  | cons x xs ih =>
    have hrest := ih fun x' hx' => hitem x' (List.mem_cons_of_mem x hx')
    rw [List.length_cons, parseElements, encodeAll, List.append_assoc,
      hitem x List.mem_cons_self]
    show ((parseElements (parseItem levels) xs.length (encodeAll xs ++ rest)).bind _) = _
    rw [hrest]
    rfl

/-- A string of any bytes is read back, line ends in it included. -/
theorem parseBulk_encode {str : Bytes} (h : str.length < 9223372036854775806) (rest : Bytes) :
    parseBulk (Decimal.ofInt str.length ++ 13 :: 10 :: (str ++ 13 :: 10 :: rest)) =
      .done (.string str) rest := by
  have hdrop : (str ++ 13 :: 10 :: rest).drop (str.length + 2) = rest := by
    rw [← List.drop_drop, List.drop_left]
    rfl
  rw [parseBulk, parseNumber_ofInt (by omega) (by omega), if_neg (by omega),
    if_neg (by omega), Int.toNat_natCast, parseData, if_pos (by simp), List.take_left, hdrop]

theorem encodeLine_append (c : UInt8) (s rest : Bytes) :
    encodeLine c s ++ rest = c :: (s ++ 13 :: 10 :: rest) := by simp [encodeLine]

/-- A reply, if its elements are known to be read back. -/
theorem parse_encode_step {levels : ℕ} {x : RedisReply} (h : (object x).Accepted levels) (rest : Bytes)
    (hitem : ∀ levels', levels = levels' + 1 → ∀ x rest, (object x).Accepted levels' →
      parseItem levels' (encode x ++ rest) = .done (object x) rest) :
    parseItem levels (encode x ++ rest) = .done (object x) rest := by
  cases x with
  | string str =>
    cases h with
    | string hlen =>
      rw [encode, List.append_assoc, encodeLine_append, parseItem.eq_def, List.append_assoc]
      exact parseBulk_encode hlen rest
  | array element =>
    cases h with
    | @array levels _ hcount hall =>
      rw [objects_eq_map, List.length_map] at hcount
      have hread : ∀ x ∈ element, ∀ rest,
          parseItem levels (encode x ++ rest) = .done (object x) rest := by
        intro x hx rest
        refine hitem levels rfl x rest (hall (object x) ?_)
        rw [objects_eq_map]
        exact List.mem_map_of_mem hx
      have helements := parseElements_encodeAll hread rest
      rw [encode, List.append_assoc, encodeLine_append, parseItem.eq_def]
      show parseArray (parseItem levels) (parseSlotless levels)
        (Decimal.ofInt element.length ++ 13 :: 10 :: (encodeAll element ++ rest)) = _
      rw [parseArray, parseNumber_ofInt (by omega) (by omega), if_neg (by omega)]
      by_cases h0 : element.length = 0
      · obtain rfl := List.eq_nil_of_length_eq_zero h0
        rfl
      · rw [if_neg (by omega), toInt_natCast hcount, if_neg (by omega), Int.toNat_natCast,
          helements]
        rfl
  | integer n =>
    cases h with
    | integer hlow hhigh =>
      rw [encode, encodeLine_append, parseItem.eq_def]
      exact parseNumber_ofInt hlow hhigh rest _
  | nil =>
    rw [encode, encodeLine_append, parseItem.eq_def]
    exact parseNumber_ofInt (by decide) (by decide) rest _
  | status str =>
    cases h with
    | status hline =>
      rw [encode, encodeLine_append, parseItem.eq_def]
      show parseLine (str ++ 13 :: 10 :: rest) _ = _
      rw [parseLine_lineEnd hline, List.take_left]
      rfl
  | error str =>
    cases h with
    | error hline =>
      rw [encode, encodeLine_append, parseItem.eq_def]
      show parseLine (str ++ 13 :: 10 :: rest) _ = _
      rw [parseLine_lineEnd hline, List.take_left]
      rfl

/-- By induction on the levels: **the parser reads back what a server sends for a reply**, and
    leaves what comes behind it. -/
theorem parse_encode {levels : ℕ} {x : RedisReply} (h : (object x).Accepted levels) (rest : Bytes) :
    parseItem levels (encode x ++ rest) = .done (object x) rest := by
  induction levels generalizing x rest with
  | zero => exact parse_encode_step h rest fun _ h => absurd h (Nat.succ_ne_zero _).symm
  | succ levels ih =>
    refine parse_encode_step h rest fun levels' he x rest hx => ?_
    obtain rfl := Nat.succ.inj he
    exact ih hx rest

/-- **A reply is read back from its encoding if and only if the reader accepts such a reply
    at all.** -/
theorem parse_encode_iff {levels : ℕ} {x : RedisReply} :
    (∀ rest, parseItem levels (encode x ++ rest) = .done (object x) rest) ↔
      (object x).Accepted levels :=
  ⟨fun h => (parseItem_done (h [])).1, fun h rest => parse_encode h rest⟩

/-! ## More input -/

/-- The result of a parser with `v` behind its input. -/
def Parse.append {α : Type} (v : Bytes) : Parse α → Parse α
  | .done obj rest => .done obj (rest ++ v)
  | p => p

/-- `q` is the result with `v` behind the input, if `p` is the one without it. -/
def Extends {α : Type} (v : Bytes) (p q : Parse α) : Prop := p = .more ∨ q = p.append v

section Extends

variable {α β : Type} {u v : Bytes}

/-- If both parts extend, so does one behind the other. -/
theorem Extends.bind {p q : Parse α} {f : α → Bytes → Parse β} (h : Extends v p q)
    (hf : ∀ obj rest, Extends v (f obj rest) (f obj (rest ++ v))) :
    Extends v (p.bind f) (q.bind f) := by
  rcases h with rfl | rfl
  · exact Or.inl rfl
  · cases p with
    | done obj rest => exact hf obj rest
    | more => exact Or.inl rfl
    | error errstr => exact Or.inr rfl
    | undefined => exact Or.inr rfl

/-- A line that is there stays what it is; one that is not may come. -/
theorem Extends.line {f g : ℕ → Bytes → Parse α}
    (hfg : ∀ len rest, crlf u = some len → len ≤ u.length →
      Extends v (f len rest) (g len (rest ++ v))) :
    Extends v (parseLine u f) (parseLine (u ++ v) g) := by
  cases hline : crlf u with
  | none => exact Or.inl (by rw [parseLine, hline])
  | some len =>
    have hlt := crlf_lt hline
    have h := hfg len (u.drop (len + 2)) hline (by omega)
    rw [parseLine, parseLine, crlf_append hline, hline]
    dsimp only
    rw [List.drop_append_of_le_length hlt]
    exact h

/-- So with a number in it. -/
theorem Extends.number {f : ℤ → Bytes → Parse α}
    (hf : ∀ n rest, Extends v (f n rest) (f n (rest ++ v))) :
    Extends v (parseNumber u f) (parseNumber (u ++ v) f) := by
  refine .line fun len rest hline _ => ?_
  rw [readLongLong_append (mem_of_crlf hline)]
  cases readLongLong u with
  | none => exact Or.inr rfl
  | some n => exact hf n rest

/-- So with the bytes of a string. -/
theorem Extends.data (n : ℕ) : Extends v (parseData n u) (parseData n (u ++ v)) := by
  by_cases hfit : n + 2 ≤ u.length
  · right
    rw [parseData, parseData, if_pos hfit, if_pos (by rw [List.length_append]; omega),
      List.take_append_of_le_length (by omega), List.drop_append_of_le_length hfit]
    rfl
  · exact Or.inl (if_neg hfit)

/-- By induction on the elements. -/
theorem Extends.elements {item : Bytes → Parse ReplyObject}
    (hitem : ∀ u, Extends v (item u) (item (u ++ v))) (k : ℕ) (u : Bytes) :
    Extends v (parseElements item k u) (parseElements item k (u ++ v)) := by
  induction k generalizing u with
  | zero => exact Or.inr rfl
  | succ k ih => exact (hitem u).bind fun obj rest => (ih rest).bind fun _ _ => Or.inr rfl

/-- A string (lines 249–300). -/
theorem Extends.bulk (u : Bytes) : Extends v (parseBulk u) (parseBulk (u ++ v)) := by
  refine Extends.number fun n rest => ?_
  split
  · exact Or.inr rfl
  split
  · exact Or.inr rfl
  · exact .data n.toNat

/-- An item without a place has no meaning, with more bytes or without. -/
theorem Extends.slotless (levels : ℕ) (u : Bytes) :
    Extends v (parseSlotless levels u) (parseSlotless levels (u ++ v)) := by
  have hline : ∀ p : Bytes, Extends v (parseLine p fun _ _ => (.undefined : Parse ReplyObject))
      (parseLine (p ++ v) fun _ _ => .undefined) :=
    fun p => Extends.line fun _ _ _ _ => Or.inr rfl
  cases u with
  | nil => exact Or.inl rfl
  | cons c p =>
    rw [List.cons_append, parseSlotless, parseSlotless]
    cases itemType c with
    | none => exact Or.inr rfl
    | some type =>
      cases type with
      | string => exact (Extends.bulk p).bind fun _ _ => Or.inr rfl
      | array =>
        dsimp only
        split
        · exact Or.inr rfl
        · exact hline p
      | integer => exact hline p
      | status => exact hline p
      | error => exact hline p

/-- An item, if those within it extend. -/
theorem Extends.item_step {levels : ℕ}
    (hitem : ∀ levels', levels = levels' + 1 → ∀ u,
      Extends v (parseItem levels' u) (parseItem levels' (u ++ v))) :
    Extends v (parseItem levels u) (parseItem levels (u ++ v)) := by
  cases u with
  | nil => exact Or.inl (by rw [parseItem])
  | cons c p =>
    rw [List.cons_append, parseItem.eq_def, parseItem.eq_def]
    dsimp only
    cases itemType c with
    | none => exact Or.inr rfl
    | some type =>
      have htake : ∀ len, len ≤ p.length → (p ++ v).take len = p.take len :=
        fun len hlen => List.take_append_of_le_length hlen
      cases type with
      | string => exact Extends.bulk p
      | integer => exact Extends.number fun n rest => Or.inr rfl
      | status => exact Extends.line fun len rest _ hlen => Or.inr (by rw [htake len hlen]; rfl)
      | error => exact Extends.line fun len rest _ hlen => Or.inr (by rw [htake len hlen]; rfl)
      | array =>
        cases levels with
        | zero => exact Or.inr rfl
        | succ levels =>
          refine Extends.number fun n rest => ?_
          split
          · exact Or.inr rfl
          · split
            · exact Or.inr rfl
            · split
              · exact Extends.slotless levels _
              · exact (Extends.elements (hitem levels rfl) _ _).bind fun _ _ => Or.inr rfl

/-- By induction on the levels: **a result does not depend on what comes behind it.** -/
theorem Extends.item (levels : ℕ) (u v : Bytes) :
    Extends v (parseItem levels u) (parseItem levels (u ++ v)) := by
  induction levels generalizing u with
  | zero => exact .item_step fun _ h => absurd h (Nat.succ_ne_zero _).symm
  | succ levels ih =>
    refine .item_step fun levels' h u => ?_
    obtain rfl := Nat.succ.inj h
    exact ih u

end Extends

/-- **Without its last byte a reply is not there**: the whole of it would be done with no bytes
    left, so a part of it is not done. -/
theorem parse_incomplete {levels : ℕ} {x : RedisReply} (h : (object x).Accepted levels) {u : Bytes}
    (hpre : u <+: encode x) (hne : u ≠ encode x) : parseItem levels u = .more := by
  obtain ⟨v, hv⟩ := hpre
  have hwhole := parse_encode h []
  rw [List.append_nil, ← hv] at hwhole
  rcases Extends.item levels u v with hmore | hext
  · exact hmore
  · rw [hwhole] at hext
    cases hparse : parseItem levels u with
    | done obj rest =>
      rw [hparse] at hext
      obtain ⟨-, hrest⟩ := Parse.done.inj hext
      obtain rfl := (List.append_eq_nil_iff.mp hrest.symm).2
      exact absurd (by rw [← hv, List.append_nil]) hne
    | more => rfl
    | error errstr => rw [hparse] at hext; cases hext
    | undefined => rw [hparse] at hext; cases hext

/-- By induction on the input: a part of an input without errors has none, and its replies
    come first. -/
theorem parseReplies_isPrefix {u v : Bytes} {objs : List ReplyObject}
    (h : parseReplies (u ++ v) = (objs, .more)) :
    ∃ objs', parseReplies u = (objs', .more) ∧ objs' <+: objs := by
  induction hlen : u.length using Nat.strongRecOn generalizing u objs with
  | _ n ih =>
    subst hlen
    have hext := Extends.item 8 u v
    cases hparse : parseItem 8 u with
    | done obj rest =>
      rw [hparse] at hext
      have hwhole : parseItem 8 (u ++ v) = .done obj (rest ++ v) :=
        hext.resolve_left (by simp)
      rw [parseReplies_done hwhole] at h
      obtain ⟨rfl, hend⟩ := Prod.mk.inj h
      obtain ⟨objs', hrest, hpre⟩ := ih _ (parseItem_done hparse).2 (Prod.ext rfl hend) rfl
      exact ⟨obj :: objs', by rw [parseReplies_done hparse, hrest],
        (List.prefix_cons_inj obj).mpr hpre⟩
    | more => exact ⟨[], parseReplies_ending (by rw [hparse]; rfl), List.nil_prefix⟩
    | error errstr =>
      rw [hparse] at hext
      have hwhole : parseItem 8 (u ++ v) = .error errstr := hext.resolve_left (by simp)
      rw [parseReplies_ending (by rw [hwhole]; rfl)] at h
      cases h
    | undefined =>
      rw [hparse] at hext
      have hwhole : parseItem 8 (u ++ v) = .undefined := hext.resolve_left (by simp)
      rw [parseReplies_ending (by rw [hwhole]; rfl)] at h
      cases h

/-! ## Round trip -/

/-- The replies that are there, and a part of the next one. -/
theorem parseReplies_encodeAll {xs : List RedisReply} (hxs : ∀ x ∈ xs, (object x).Accepted 8)
    {u : Bytes} (hu : parseItem 8 u = .more) :
    parseReplies (encodeAll xs ++ u) = (xs.map object, .more) := by
  induction xs with
  | nil => exact parseReplies_ending (by rw [encodeAll, List.nil_append, hu]; rfl)
  | cons x xs ih =>
    rw [encodeAll, List.append_assoc, parseReplies_done (parse_encode (hxs x List.mem_cons_self) _),
      ih fun x' hx' => hxs x' (List.mem_cons_of_mem x hx')]
    rfl

namespace RedisReader

/-- **The replies that come out are those that were sent**, whatever the cuts: when the
    replies `xs` and a part of the next one have been fed, a run got the first of `xs`, and
    goes on to get all of them and no more. -/
theorem Run.roundTrip {xs : List RedisReply} {x : RedisReply} (hxs : ∀ y ∈ xs, (object y).Accepted 8)
    (hx : (object x).Accepted 8) {u : Bytes} (hpre : u <+: encode x) (hne : u ≠ encode x)
    {r : RedisReader} {got : List ReplyObject} (h : Run r (encodeAll xs ++ u) got)
    (hlen : r.buf.length < 2147483648) :
    got <+: xs.map object ∧
      ∃ r' reply, r.getReply = some (r', true, reply) ∧ r'.err = 0 ∧
        (reply = none → got = xs.map object) :=
  h.complete (parseReplies_encodeAll hxs (parse_incomplete hx hpre hne)) hlen

/-- The reply of `nestedBytes`. -/
def nestedReply : RedisReply := .array [.array [.integer 5], .string [97, 98]]

/-- A server sends `nestedBytes` for it. -/
theorem encode_nestedReply : encode nestedReply = nestedBytes := by
  simp [nestedReply, nestedBytes, encodeAll, encode, encodeLine, Decimal.ofInt, Decimal.ofNat,
    Decimal.digit]

/-- The reader builds `nestedObject` of them. -/
theorem object_nestedReply : object nestedReply = nestedObject := by
  simp [object, objects, nestedReply, nestedObject]

/-- Two levels are not too many. -/
theorem nestedObject_accepted : nestedObject.Accepted 8 := by
  refine .array (by decide) (List.forall_mem_cons.mpr ⟨.array (by decide) ?_, ?_⟩)
  · exact List.forall_mem_singleton.mpr (.integer (by decide) (by decide))
  · exact List.forall_mem_singleton.mpr (.string (by decide))

/-- An array in an array has come, and the first half of the next one. -/
theorem Run.roundTrip_nested : ∃ r r' reply,
    Run r (encodeAll [nestedReply] ++ nestedBytes.take 9) [nestedObject] ∧
      r.getReply = some (r', true, reply) ∧ r'.err = 0 := by
  have haccepted : (object nestedReply).Accepted 8 := object_nestedReply ▸ nestedObject_accepted
  have hwire : encodeAll [nestedReply] = nestedBytes := by
    rw [encodeAll, encodeAll, encode_nestedReply, List.append_nil]
  have hpart : nestedBytes.take 9 <+: encode nestedReply := by
    rw [encode_nestedReply]
    exact List.take_prefix 9 nestedBytes
  have hproper : nestedBytes.take 9 ≠ encode nestedReply := by
    rw [encode_nestedReply]
    decide
  obtain ⟨r, hrun⟩ := Run.nested
  have hrun' : Run _ (encodeAll [nestedReply] ++ nestedBytes.take 9) [nestedObject] :=
    hwire ▸ Run.feed (nestedBytes.take 9) hrun
  have hlen : (r.feed (nestedBytes.take 9)).1.buf.length < 2147483648 := by
    refine lt_of_le_of_lt hrun'.buf_le ?_
    rw [hwire]
    decide
  obtain ⟨-, r', reply, hget, herr, -⟩ :=
    Run.roundTrip (List.forall_mem_singleton.mpr haccepted) haccepted hpart hproper hrun' hlen
  exact ⟨_, r', reply, hrun', hget, herr⟩

end RedisReader

end Hiredispool.Hiredis
