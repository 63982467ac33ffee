import Hiredispool.Hiredis.Feeding

/-!
# The protocol

What the reader is for, as a recursive function on the whole of the input:
`parseItem levels` parses one reply that nests at most `levels` arrays, `parseReplies`
one after the other. The reader has no recursion but a task stack, and it is never given
the whole of the input; that it computes the same function is what this file is about.

```
reply ::= '+' line | '-' line | ':' number | '$' number data | '*' number reply …
```

Three inputs have no meaning (`undefined`), as in C: a number outside of
`long long` (`read.c`, lines 164–165), a length that is no `long` with two more (line 273), and the
first item behind a positive count that is no positive `int`: it is written where no element
is (`hiredis.c`, lines 129, 154, 171 and 186).

Main results:

* `drain_item`: the task stack of the reader does what the recursion does, from any stack
  with room for `levels` more arrays.
* `Run.parsed`: **whatever the cuts, the replies of a run are those of the recursion**,
  and so are the error and the calls that have no meaning.
* `Run.getReply_eq_none`: exactly when a call has no meaning.
* `parseReplies_accepted`: whatever a server sends, the replies are well formed.
-/

namespace Hiredispool.Hiredis

open Hiredispool.Pool
open Hiredispool.Client (toInt)

/-! ## Specification -/

/-- One item, or the elements of an array, at the front of the input: it is there, with what
    comes behind it, or more bytes are needed, or it is no reply, or C gives it no meaning. -/
inductive Parse (α : Type)
  | done (obj : α) (rest : Bytes)
  | more
  | error (errstr : Bytes)
  | undefined

namespace Parse

variable {α β : Type}

/-- What comes behind an item. -/
def bind (p : Parse α) (f : α → Bytes → Parse β) : Parse β :=
  match p with
  | .done obj rest => f obj rest
  | .more => .more
  | .error errstr => .error errstr
  | .undefined => .undefined

end Parse

/-- A line, and what `f` makes of it and of what comes behind it. -/
def parseLine {α : Type} (p : Bytes) (f : ℕ → Bytes → Parse α) : Parse α :=
  match crlf p with
  | none => .more
  | some len => f len (p.drop (len + 2))

/-- A line with a number. -/
def parseNumber {α : Type} (p : Bytes) (f : ℤ → Bytes → Parse α) : Parse α :=
  parseLine p fun _ rest => (readLongLong p).elim .undefined fun n => f n rest

/-- `n` bytes and the two behind them, whatever these are. -/
def parseData (n : ℕ) (p : Bytes) : Parse ReplyObject :=
  if n + 2 ≤ p.length then .done (.string (p.take n)) (p.drop (n + 2)) else .more

/-- A bulk string. The length and two more have to fit a `long`. -/
def parseBulk (p : Bytes) : Parse ReplyObject :=
  parseNumber p fun n rest =>
    if n < 0 then .done .nil rest
    else if 9223372036854775806 ≤ n then .undefined
    else parseData n.toNat rest

/-- `n` items in a row: the elements of an array. -/
def parseElements (item : Bytes → Parse ReplyObject) : ℕ → Bytes → Parse (List ReplyObject)
  | 0, p => .done [] p
  | n + 1, p =>
    (item p).bind fun obj rest => (parseElements item n rest).bind fun objs rest =>
      .done (obj :: objs) rest

/-- An array of items (lines 302–365): `-1` is nil, another count that is not positive gives an
    object without elements, and a positive one is cut to an `int`. `slotless` is for an item
    that has no place in its array. -/
def parseArray (item slotless : Bytes → Parse ReplyObject) (p : Bytes) : Parse ReplyObject :=
  parseNumber p fun n rest =>
    if n = -1 then .done .nil rest
    else if n ≤ 0 then .done (emptyArray n) rest
    -- the count is cut to an `int`
    else if toInt n ≤ 0 then slotless rest
    else (parseElements item (toInt n).toNat rest).bind fun objs rest => .done (.array objs) rest

/-- An item that has no place in its array has no meaning as soon as its object is created, which
    is before the elements if it is an array itself. -/
def parseSlotless (levels : ℕ) : Bytes → Parse ReplyObject
  | [] => .more
  | c :: p =>
    match itemType c with
    | none => .error (protocolByteText c)
    | some .string => (parseBulk p).bind fun _ _ => .undefined
    | some .array => if levels = 0 then .error depthText else parseLine p fun _ _ => .undefined
    | some _ => parseLine p fun _ _ => .undefined

/-- One reply that nests at most `levels` arrays. The type bytes are those of lines 374–389, and
    a further array is the error of line 311. -/
def parseItem : ℕ → Bytes → Parse ReplyObject
  | _, [] => .more
  | levels, c :: p =>
    match itemType c with
    | none => .error (protocolByteText c)
    | some .string => parseBulk p
    | some .integer => parseNumber p fun n rest => .done (.integer n) rest
    | some .status => parseLine p fun len rest => .done (.status (p.take len)) rest
    | some .error => parseLine p fun len rest => .done (.error (p.take len)) rest
    | some .array =>
      match levels with
      | 0 => .error depthText
      | levels + 1 => parseArray (parseItem levels) (parseSlotless levels) p

/-! ## The task stack -/

/-- The results that follow if `obj` is the object of the task `idx`: it may complete the arrays
    that it is in. -/
def after (obj : ReplyObject) (idx : ℤ) (below : List ReadTask) (rest : Bytes) :
    List ReplyObject × ((ReadTask × List ReadTask) × Bytes ⊕ Stop) :=
  let (rstack, reply) := moveToNextTask obj (newTask idx) below
  (reply.toList ++ (items.drain (start rstack) rest).1, (items.drain (start rstack) rest).2)

/-- The machine does from the task `idx` on what `parse` says: an object goes on to the tasks
    below, and without one it waits, or stops for the same reason. -/
def Agrees (idx : ℤ) (below : List ReadTask) (p : Parse ReplyObject)
    (results : List ReplyObject × ((ReadTask × List ReadTask) × Bytes ⊕ Stop)) : Prop :=
  match p with
  | .done obj rest => results = after obj idx below rest
  | .more => ∃ w, results = ([], .inl w)
  | .error errstr => results = ([], .inr (.error 4 errstr))
  | .undefined => results = ([], .inr .undefined)

/-- Only the index of the current task matters. -/
theorem moveToNextTask_idx (obj : ReplyObject) {cur cur' : ReadTask} (h : cur.idx = cur'.idx)
    (below : List ReadTask) : moveToNextTask obj cur below = moveToNextTask obj cur' below := by
  cases below with
  | nil => rfl
  | cons prv below => rw [moveToNextTask, moveToNextTask, h]

section Agrees

variable {idx : ℤ} {below : List ReadTask} {c : UInt8} {u p : Bytes} {cur : ReadTask}

/-- A task without a type reads it from the first byte. -/
theorem step_newTask {type : ItemType} (hc : itemType c = some type) :
    items.step (newTask idx, below) (c :: p) =
      (processTypedItem crlf type { newTask idx with type := some type } below p).toStep p := by
  show (processItem crlf (newTask idx) below (c :: p)).toStep (c :: p) = _
  have hitem : processItem crlf (newTask idx) below (c :: p) =
      (processTypedItem crlf type { newTask idx with type := some type } below p).behind 1 := by
    unfold processItem newTask
    dsimp only
    rw [hc]
  rw [hitem, ItemResult.toStep_behind]
  rfl

/-- A byte that is no type is the error of `__redisReaderSetErrorProtocolByte` (lines 96–103).
    -/
theorem step_noType (hc : itemType c = none) :
    items.step (newTask idx, below) (c :: p) = (ItemResult.error 4 (protocolByteText c)).toStep p := by
  show (processItem crlf (newTask idx) below (c :: p)).toStep (c :: p) = _
  unfold processItem newTask
  dsimp only
  rw [hc]
  rfl

/-- An object that has a place is what the parser is done with. -/
theorem Agrees.createObject {obj : ReplyObject} {n : ℕ} (hslot : hasSlot cur below = true)
    (hidx : cur.idx = idx)
    (h : items.step (newTask idx, below) u = (createObject obj cur below n).toStep p) :
    Agrees idx below (.done obj (p.drop n)) (items.drain (newTask idx, below) u) := by
  rw [Hiredis.createObject, if_pos hslot,
    moveToNextTask_idx obj (show cur.idx = (newTask idx).idx from hidx)] at h
  exact Incremental.Parser.drain_advance h

/-- Where the machine waits, the parser needs more bytes. -/
theorem Agrees.more {rstack : List ReadTask} {n : ℕ}
    (h : items.step (newTask idx, below) u = (ItemResult.more rstack n).toStep p) :
    Agrees idx below .more (items.drain (newTask idx, below) u) :=
  ⟨_, Incremental.Parser.drain_wait h⟩

/-- Both have the error, with one text. -/
theorem Agrees.error {errstr : Bytes}
    (h : items.step (newTask idx, below) u = (ItemResult.error 4 errstr).toStep p) :
    Agrees idx below (.error errstr) (items.drain (newTask idx, below) u) :=
  Incremental.Parser.drain_stop h

/-- Where C gives no meaning, the parser has none. -/
theorem Agrees.undefined
    (h : items.step (newTask idx, below) u = ItemResult.undefined.toStep p) :
    Agrees idx below .undefined (items.drain (newTask idx, below) u) :=
  Incremental.Parser.drain_stop h

/-- A line, and what is made of it. -/
theorem Agrees.line {t : ItemType} {f : ℕ → Bytes → Parse ReplyObject}
    (hstep : items.step (newTask idx, below) u = (processLineItem crlf t cur below p).toStep p)
    (hslot : hasSlot cur below = true) (hidx : cur.idx = idx)
    (hf : ∀ len, f len (p.drop (len + 2)) =
      (lineObject t p len).elim .undefined fun obj => .done obj (p.drop (len + 2))) :
    Agrees idx below (parseLine p f) (items.drain (newTask idx, below) u) := by
  unfold processLineItem at hstep
  unfold parseLine
  cases hline : crlf p with
  | none =>
    rw [hline] at hstep
    exact .more hstep
  | some len =>
    rw [hline] at hstep
    dsimp only at hstep ⊢
    rw [hf len]
    cases hobj : lineObject t p len with
    | none =>
      rw [hobj] at hstep
      exact .undefined hstep
    | some obj =>
      rw [hobj] at hstep
      exact .createObject hslot hidx hstep

/-- Which lengths are too long: `len+2` (line 273) is no `long`. -/
theorem checkLong_eq_none_iff {n : ℤ} (h : 0 ≤ n) :
    CInt.checkLong (n + 2) = none ↔ 9223372036854775806 ≤ n := by
  rw [CInt.checkLong, ite_eq_right_iff]
  constructor
  · intro hbounds
    by_contra hlt
    cases hbounds (by omega)
  · rintro hle ⟨-, hhigh⟩
    omega

/-- A bulk string, if it is known what becomes of its object. -/
theorem Agrees.bulk {f : ReplyObject → Bytes → Parse ReplyObject}
    (hstep : items.step (newTask idx, below) u = (processBulkItem crlf cur below p).toStep p)
    (hcreate : ∀ obj n,
      items.step (newTask idx, below) u = (Hiredis.createObject obj cur below n).toStep p →
      Agrees idx below (f obj (p.drop n)) (items.drain (newTask idx, below) u)) :
    Agrees idx below ((parseBulk p).bind f) (items.drain (newTask idx, below) u) := by
  unfold processBulkItem at hstep
  unfold parseBulk parseNumber parseLine
  cases hline : crlf p with
  | none =>
    rw [hline] at hstep
    exact .more hstep
  | some len =>
    have hlt := crlf_lt hline
    rw [hline] at hstep
    dsimp only at hstep ⊢
    cases hread : readLongLong p with
    | none =>
      rw [hread] at hstep
      exact .undefined hstep
    | some n =>
      rw [hread] at hstep
      dsimp only [Option.elim] at hstep ⊢
      by_cases hneg : n < 0
      · rw [if_pos hneg] at hstep ⊢
        exact hcreate _ _ hstep
      rw [if_neg hneg] at hstep ⊢
      by_cases hlong : CInt.checkLong (n + 2) = none
      · rw [if_pos hlong] at hstep
        rw [if_pos ((checkLong_eq_none_iff (not_lt.mp hneg)).mp hlong)]
        exact .undefined hstep
      · rw [if_neg hlong] at hstep
        rw [if_neg (mt (checkLong_eq_none_iff (not_lt.mp hneg)).mpr hlong)]
        unfold parseData
        have hlen : (p.drop (len + 2)).length = p.length - (len + 2) := List.length_drop
        by_cases hfit : len + 2 + (n.toNat + 2) ≤ p.length
        · rw [if_pos hfit] at hstep
          rw [if_pos (by omega), List.drop_drop]
          exact hcreate _ _ hstep
        · rw [if_neg hfit] at hstep
          rw [if_neg (by omega)]
          exact .more hstep

theorem Parse.bind_self {α : Type} (p : Parse α) : p.bind .done = p := by cases p <;> rfl

end Agrees

/-- While elements are missing, the array has memory for the next one. -/
theorem hasSlot_newTask {prv : ReadTask} {below : List ReadTask} {n k : ℕ}
    (h : prv.elements = (n + (k + 1) : ℕ)) : hasSlot (newTask n) (prv :: below) = true := by
  show decide ((n : ℤ) < prv.elements) = true
  rw [decide_eq_true_iff, h]
  push_cast
  omega

/-- By induction on the elements that are left: the last one completes the array (line 203), and
    each of the others is followed by a task for the next. -/
theorem drain_elements {levels : ℕ}
    (hitem : ∀ idx below u, below.length + levels = 8 → hasSlot (newTask idx) below = true →
      Agrees idx below (parseItem levels u) (items.drain (newTask idx, below) u))
    {prv : ReadTask} {below : List ReadTask} {k : ℕ} {u : Bytes}
    (hlevels : below.length + 1 + levels = 8)
    (hcount : prv.elements = (prv.element.length + (k + 1) : ℕ)) :
    Agrees prv.idx below
      ((parseElements (parseItem levels) (k + 1) u).bind fun objs rest =>
        .done (.array (prv.element ++ objs)) rest)
      (items.drain (newTask prv.element.length, prv :: below) u) := by
  induction k generalizing prv u with
  | zero =>
    have hfirst := hitem prv.element.length (prv :: below) u hlevels (hasSlot_newTask hcount)
    rw [parseElements]
    cases hparse : parseItem levels u with
    | done obj rest =>
      rw [hparse] at hfirst
      have hlast : moveToNextTask obj (newTask prv.element.length) (prv :: below) =
          moveToNextTask (.array (prv.element ++ [obj])) (newTask prv.idx) below := by
        have hidx : (newTask prv.element.length).idx = prv.elements - 1 := by
          show (prv.element.length : ℤ) = prv.elements - 1
          rw [hcount]
          push_cast
          omega
        rw [moveToNextTask, if_pos hidx]
        exact moveToNextTask_idx _
          (show ({ prv with element := prv.element ++ [obj] } : ReadTask).idx =
            (newTask prv.idx).idx from rfl) below
      show _ = after (.array (prv.element ++ [obj])) prv.idx below rest
      rw [show items.drain _ u = after obj _ (prv :: below) rest from hfirst, after, hlast]
      rfl
    | more => rw [hparse] at hfirst; exact hfirst
    | error errstr => rw [hparse] at hfirst; exact hfirst
    | undefined => rw [hparse] at hfirst; exact hfirst
  | succ k ih =>
    have hfirst := hitem prv.element.length (prv :: below) u hlevels (hasSlot_newTask hcount)
    rw [parseElements]
    cases hparse : parseItem levels u with
    | done obj rest =>
      rw [hparse] at hfirst
      let prv' : ReadTask := { prv with element := prv.element ++ [obj] }
      have hlength : prv'.element.length = prv.element.length + 1 := List.length_append
      have hnext : moveToNextTask obj (newTask prv.element.length) (prv :: below) =
          (newTask prv'.element.length :: prv' :: below, none) := by
        have hidx : (newTask prv.element.length).idx ≠ prv.elements - 1 := by
          show (prv.element.length : ℤ) ≠ prv.elements - 1
          rw [hcount]
          push_cast
          omega
        rw [moveToNextTask, if_neg hidx, hlength, Nat.cast_succ]
        rfl
      have hrest : Agrees prv.idx below _ (items.drain (newTask prv'.element.length, prv' :: below)
          rest) := ih (u := rest) (by show prv.elements = _; rw [hcount, hlength]; omega)
      have hdrain : items.drain (newTask prv.element.length, prv :: below) u =
          items.drain (newTask prv'.element.length, prv' :: below) rest := by
        rw [show items.drain _ u = after obj _ (prv :: below) rest from hfirst, after, hnext]
        rfl
      rw [hdrain]
      show Agrees _ _ (((parseElements (parseItem levels) (k + 1) rest).bind fun objs rest =>
        Parse.done (obj :: objs) rest).bind _) _
      cases helements : parseElements (parseItem levels) (k + 1) rest with
      | done objs rest' =>
        rw [helements] at hrest
        show Agrees _ _ (.done (.array (prv.element ++ obj :: objs)) rest') _
        rw [← List.singleton_append, ← List.append_assoc]
        exact hrest
      | more => rw [helements] at hrest; exact hrest
      | error errstr => rw [helements] at hrest; exact hrest
      | undefined => rw [helements] at hrest; exact hrest
    | more => rw [hparse] at hfirst; exact hfirst
    | error errstr => rw [hparse] at hfirst; exact hfirst
    | undefined => rw [hparse] at hfirst; exact hfirst

/-- An item without a place has no object. -/
theorem parseSlotless_ne_done (levels : ℕ) (u : Bytes) {obj : ReplyObject} {rest : Bytes} :
    parseSlotless levels u ≠ .done obj rest := by
  have hline : ∀ p : Bytes, parseLine p (fun _ _ => Parse.undefined) ≠ .done obj rest := by
    intro p
    unfold parseLine
    cases crlf p <;> rintro ⟨⟩
  cases u with
  | nil => rintro ⟨⟩
  | cons c p =>
    rw [parseSlotless]
    cases itemType c with
    | none => rintro ⟨⟩
    | some type =>
      cases type with
      | string =>
        show (parseBulk p).bind _ ≠ _
        cases parseBulk p <;> rintro ⟨⟩
      | array =>
        show (if levels = 0 then Parse.error depthText else _) ≠ _
        split
        · rintro ⟨⟩
        · exact hline p
      | integer => exact hline p
      | status => exact hline p
      | error => exact hline p

/-- Where there is no object, it does not matter where it would go. -/
theorem Agrees.of_not_done {idx idx' : ℤ} {below below' : List ReadTask} {p : Parse ReplyObject}
    {results : List ReplyObject × ((ReadTask × List ReadTask) × Bytes ⊕ Stop)}
    (h : Agrees idx' below' p results) (hp : ∀ {obj rest}, p ≠ .done obj rest) :
    Agrees idx below p results := by
  cases p with
  | done obj rest => exact absurd rfl hp
  | more => exact h
  | error errstr => exact h
  | undefined => exact h

/-- `parent->element[task->idx] = r` (`hiredis.c`, line 129) without such an element. -/
theorem createObject_slotless {obj : ReplyObject} {cur : ReadTask} {below : List ReadTask} {n : ℕ}
    (hslot : hasSlot cur below = false) : createObject obj cur below n = .undefined := by
  rw [createObject, hslot]
  rfl

section Slotless

variable {idx : ℤ} {below : List ReadTask} {u p : Bytes} {cur : ReadTask}

/-- A line item without a place has no meaning as soon as its line is there. -/
theorem Agrees.line_slotless {t : ItemType}
    (hstep : items.step (newTask idx, below) u = (processLineItem crlf t cur below p).toStep p)
    (hslot : hasSlot cur below = false) :
    Agrees idx below (parseLine p fun _ _ => .undefined) (items.drain (newTask idx, below) u) := by
  unfold processLineItem at hstep
  unfold parseLine
  cases hline : crlf p with
  | none =>
    rw [hline] at hstep
    exact .more hstep
  | some len =>
    rw [hline] at hstep
    dsimp only at hstep ⊢
    cases hobj : lineObject t p len with
    | none =>
      rw [hobj] at hstep
      exact .undefined hstep
    | some obj =>
      rw [hobj] at hstep
      exact .undefined (hstep.trans (congrArg (ItemResult.toStep p) (createObject_slotless hslot)))

/-- An array without a place neither: it is put into its parent before its elements come. -/
theorem Agrees.array_slotless
    (hstep : items.step (newTask idx, below) u = (processMultiBulkItem crlf cur below p).toStep p)
    (hslot : hasSlot cur below = false) (hdepth : below.length ≠ 8) :
    Agrees idx below (parseLine p fun _ _ => .undefined) (items.drain (newTask idx, below) u) := by
  unfold processMultiBulkItem at hstep
  simp only [createObject_slotless hslot, hslot, Bool.false_eq_true, if_false, ite_self, if_neg hdepth]
    at hstep
  unfold parseLine
  cases hline : crlf p with
  | none =>
    rw [hline] at hstep
    exact .more hstep
  | some len =>
    rw [hline] at hstep
    dsimp only at hstep ⊢
    cases hread : readLongLong p with
    | none =>
      rw [hread] at hstep
      exact .undefined hstep
    | some n =>
      rw [hread] at hstep
      exact .undefined hstep

end Slotless

/-- Without memory for its elements an array is never complete: a count of `2^31` is one of
    `-2^31` for `createArrayObject`, but the reader goes on to the first element. -/
theorem drain_slotless {levels : ℕ} {idx : ℤ} {below : List ReadTask} {u : Bytes}
    (hlevels : below.length + levels = 8) (hslot : hasSlot (newTask idx) below = false) :
    Agrees idx below (parseSlotless levels u) (items.drain (newTask idx, below) u) := by
  have hno : ∀ type : ItemType, hasSlot { newTask idx with type := some type } below = false := by
    intro type
    rw [← hslot]
    cases below <;> rfl
  cases u with
  | nil => exact ⟨_, Incremental.Parser.drain_wait rfl⟩
  | cons c p =>
    cases hc : itemType c with
    | none =>
      rw [parseSlotless, hc]
      exact .error (step_noType hc)
    | some type =>
      have hstep : items.step (newTask idx, below) (c :: p) = _ := step_newTask hc
      rw [parseSlotless, hc]
      cases type with
      | string =>
        exact .bulk hstep fun obj n h => .undefined (h.trans (by rw [createObject_slotless (hno _)]))
      | array =>
        show Agrees idx below (if levels = 0 then .error depthText else _) _
        split
        · refine .error (p := p) (hstep.trans ?_)
          show (processMultiBulkItem crlf _ below p).toStep p = _
          rw [processMultiBulkItem, if_pos (by omega)]
        · exact .array_slotless hstep (hno .array) (by omega)
      | integer => exact .line_slotless (t := .integer) hstep (hno .integer)
      | status => exact .line_slotless (t := .status) hstep (hno .status)
      | error => exact .line_slotless (t := .error) hstep (hno .error)

/-- The first element of an array, or an array that is complete as soon as it has its
    line. -/
theorem drain_array {levels : ℕ} {idx : ℤ} {below : List ReadTask} {u p : Bytes} {cur : ReadTask}
    (hitem : ∀ idx below u, below.length + levels = 8 → hasSlot (newTask idx) below = true →
      Agrees idx below (parseItem levels u) (items.drain (newTask idx, below) u))
    (hlevels : below.length + (levels + 1) = 8)
    (hstep : items.step (newTask idx, below) u = (processMultiBulkItem crlf cur below p).toStep p)
    (hslot : hasSlot cur below = true) (hidx : cur.idx = idx) :
    Agrees idx below (parseArray (parseItem levels) (parseSlotless levels) p)
      (items.drain (newTask idx, below) u) := by
  unfold processMultiBulkItem at hstep
  rw [if_neg (by omega)] at hstep
  unfold parseArray parseNumber parseLine
  cases hline : crlf p with
  | none =>
    rw [hline] at hstep
    exact .more hstep
  | some len =>
    rw [hline] at hstep
    dsimp only at hstep ⊢
    cases hread : readLongLong p with
    | none =>
      rw [hread] at hstep
      exact .undefined hstep
    | some n =>
      rw [hread] at hstep
      dsimp only [Option.elim] at hstep ⊢
      by_cases hnil : n = -1
      · rw [if_pos hnil] at hstep ⊢
        exact .createObject hslot hidx hstep
      · rw [if_neg hnil] at hstep ⊢
        by_cases hpos : 0 < n
        · rw [if_pos hpos, if_pos hslot] at hstep
          rw [if_neg (by omega)]
          by_cases hcut : toInt n ≤ 0
          · rw [if_pos hcut, Incremental.Parser.drain_advance hstep]
            have hnone : hasSlot (newTask 0)
                ({ cur with elements := toInt n, element := [] } :: below) = false :=
              decide_eq_false (not_lt.mpr hcut)
            have hrest := drain_slotless (u := p.drop (len + 2))
              (show (_ :: below).length + levels = 8 by rw [List.length_cons]; omega) hnone
            exact hrest.of_not_done (parseSlotless_ne_done levels _)
          · rw [if_neg hcut]
            obtain ⟨k, hk⟩ : ∃ k : ℕ, toInt n = (k + 1 : ℕ) := ⟨(toInt n).toNat - 1, by omega⟩
            rw [hk] at hstep ⊢
            let prv : ReadTask := { cur with elements := (k + 1 : ℕ), element := [] }
            have hcount : prv.elements = (prv.element.length + (k + 1) : ℕ) := by simp [prv]
            have hall : Agrees cur.idx below _ (items.drain (newTask 0, prv :: below)
                (p.drop (len + 2))) := drain_elements hitem (by omega) hcount
            rw [Incremental.Parser.drain_advance hstep, ← hidx]
            exact hall
        · rw [if_neg hpos] at hstep
          rw [if_pos (by omega)]
          exact .createObject hslot hidx hstep

/-- An item, if those within it are known to agree: one case for each type. -/
theorem drain_item_step {levels : ℕ} {idx : ℤ} {below : List ReadTask} {u : Bytes}
    (hlevels : below.length + levels = 8) (hslot : hasSlot (newTask idx) below = true)
    (hitem : ∀ levels', levels = levels' + 1 → ∀ idx below u, below.length + levels' = 8 →
      hasSlot (newTask idx) below = true →
      Agrees idx below (parseItem levels' u) (items.drain (newTask idx, below) u)) :
    Agrees idx below (parseItem levels u) (items.drain (newTask idx, below) u) := by
  cases u with
  | nil =>
    rw [parseItem]
    exact ⟨_, Incremental.Parser.drain_wait rfl⟩
  | cons c p =>
    cases hc : itemType c with
    | none =>
      rw [parseItem.eq_def]
      dsimp only
      rw [hc]
      exact .error (step_noType hc)
    | some type =>
      have hstep : items.step (newTask idx, below) (c :: p) = _ := step_newTask hc
      rw [parseItem.eq_def]
      dsimp only
      rw [hc]
      cases type with
      | string =>
        refine (parseBulk p).bind_self ▸ Agrees.bulk hstep fun obj n h => ?_
        exact @Agrees.createObject _ _ _ _ { newTask idx with type := some .string } _ _ hslot rfl h
      | integer =>
        refine Agrees.line (t := .integer) hstep hslot rfl fun len => ?_
        show _ = ((readLongLong p).map ReplyObject.integer).elim _ _
        cases readLongLong p <;> rfl
      | status => exact Agrees.line (t := .status) hstep hslot rfl fun len => rfl
      | error => exact Agrees.line (t := .error) hstep hslot rfl fun len => rfl
      | array =>
        cases levels with
        | zero =>
          refine .error (p := p) (hstep.trans ?_)
          show (processMultiBulkItem crlf _ below p).toStep p = _
          rw [processMultiBulkItem, if_pos (by omega)]
        | succ levels => exact drain_array (hitem levels rfl) hlevels hstep hslot rfl

/-- By induction on the levels: **the task stack does what the recursion does.** -/
theorem drain_item {levels : ℕ} {idx : ℤ} {below : List ReadTask} {u : Bytes}
    (hlevels : below.length + levels = 8) (hslot : hasSlot (newTask idx) below = true) :
    Agrees idx below (parseItem levels u) (items.drain (newTask idx, below) u) := by
  induction levels generalizing idx below u with
  | zero => exact drain_item_step hlevels hslot fun _ h => absurd h (Nat.succ_ne_zero _).symm
  | succ levels ih =>
    refine drain_item_step hlevels hslot fun levels' h idx below u hlevels' hslot' => ?_
    obtain rfl := Nat.succ.inj h
    exact ih hlevels' hslot'

/-! ## What is accepted -/

/-- What a reply may hold: arrays that nest at most `levels` deep, numbers of a
    `long long`, lines without a line end. -/
inductive ReplyObject.Accepted : ℕ → ReplyObject → Prop
  | string {levels : ℕ} {str : Bytes} (h : str.length < 9223372036854775806) :
    Accepted levels (.string str)
  | integer {levels : ℕ} {n : ℤ} (hlow : -9223372036854775808 < n) (hhigh : n < 9223372036854775808) :
    Accepted levels (.integer n)
  | nil {levels : ℕ} : Accepted levels .nil
  | status {levels : ℕ} {str : Bytes} (h : crlf str = none) : Accepted levels (.status str)
  | error {levels : ℕ} {str : Bytes} (h : crlf str = none) : Accepted levels (.error str)
  | array {levels : ℕ} {element : List ReplyObject} (hcount : element.length < 2147483648)
      (h : ∀ obj ∈ element, Accepted levels obj) : Accepted (levels + 1) (.array element)
  -- a count that is no `int`
  | counted {levels n : ℕ} (hpos : 0 < n) (hcount : n < 18446744073709551616) :
    Accepted (levels + 1) (.counted n)

namespace Parse

variable {α β : Type} {p : Parse α} {f : α → Bytes → Parse β} {x : β} {u rest : Bytes}

theorem bind_done (h : p.bind f = .done x rest) :
    ∃ obj rest', p = .done obj rest' ∧ f obj rest' = .done x rest := by
  cases p with
  | done obj rest' => exact ⟨obj, rest', rfl, h⟩
  | more => cases h
  | error errstr => cases h
  | undefined => cases h

end Parse

section Done

variable {α : Type} {p rest : Bytes} {x : α}

/-- What is done with a line has its line end. -/
theorem parseLine_done {f : ℕ → Bytes → Parse α} (h : parseLine p f = .done x rest) :
    ∃ len, crlf p = some len ∧ f len (p.drop (len + 2)) = .done x rest := by
  unfold parseLine at h
  cases hline : crlf p with
  | none => rw [hline] at h; cases h
  | some len => rw [hline] at h; exact ⟨len, rfl, h⟩

/-- What is done with a number has read it. -/
theorem parseNumber_done {f : ℤ → Bytes → Parse α} (h : parseNumber p f = .done x rest) :
    ∃ len n, crlf p = some len ∧ readLongLong p = some n ∧
      f n (p.drop (len + 2)) = .done x rest := by
  obtain ⟨len, hline, h⟩ := parseLine_done h
  cases hread : readLongLong p with
  | none => rw [hread] at h; cases h
  | some n => rw [hread] at h; exact ⟨len, n, hline, rfl, h⟩

/-- There is no line end before the first. -/
theorem crlf_take {len : ℕ} (h : crlf p = some len) : crlf (p.take len) = none := by
  by_contra hsome
  obtain ⟨k, hk⟩ := Option.ne_none_iff_exists'.mp hsome
  have hlt := crlf_lt hk
  have hsame := crlf_append hk (p.drop len)
  rw [List.take_append_drop, h] at hsame
  rw [List.length_take] at hlt
  cases hsame
  omega

end Done

/-! ### Numbers -/

/-- By induction on the digits: no step has left the `long long`. -/
theorem readDigits_bounds {s : Bytes} {v n : ℤ} (h : readDigits s v = some (some n))
    (h0 : 0 ≤ v) (hv : v < 9223372036854775808) : 0 ≤ n ∧ n < 9223372036854775808 := by
  induction s generalizing v with
  | nil => cases h
  | cons c s ih =>
    rw [readDigits] at h
    split at h
    · cases h
      exact ⟨h0, hv⟩
    · split at h
      · next hdigit =>
        have hc : 48 ≤ c.toNat := (of_decide_eq_true hdigit).1
        obtain ⟨w, hw, h⟩ := Option.bind_eq_some_iff.mp h
        obtain ⟨w', hw', h⟩ := Option.bind_eq_some_iff.mp h
        unfold CInt.checkLong at hw hw'
        split at hw
        · cases hw
          split at hw'
          · cases hw'
            exact ih h (by omega) (by omega)
          · cases hw'
        · cases hw
      · cases h

/-- A number that was read is one of a `long long`; the least one overflows before its sign is
    put on (line 172). -/
theorem readLongLong_bounds {p : Bytes} {n : ℤ} (h : readLongLong p = some n) :
    -9223372036854775808 < n ∧ n < 9223372036854775808 := by
  have hsigned : ∀ (mult : ℤ) (s : Bytes), mult = 1 ∨ mult = -1 → readSigned mult s = some n →
      -9223372036854775808 < n ∧ n < 9223372036854775808 := by
    intro mult s hmult h
    unfold readSigned at h
    obtain ⟨v, hv, rfl⟩ := Option.map_eq_some_iff.mp h
    cases v with
    | none =>
      show (-9223372036854775808 : ℤ) < -1 ∧ (-1 : ℤ) < 9223372036854775808
      decide
    | some v =>
      have hbounds := readDigits_bounds hv le_rfl (by omega)
      show -9223372036854775808 < mult * v ∧ mult * v < 9223372036854775808
      rcases hmult with rfl | rfl <;> omega
  unfold readLongLong at h
  split at h
  · exact hsigned (-1) _ (Or.inr rfl) h
  · exact hsigned 1 _ (Or.inl rfl) h
  · exact hsigned 1 _ (Or.inl rfl) h

/-! ### Items -/

/-- The object is as it should be, and what is left is behind it. -/
def Accepts (levels : ℕ) (u : Bytes) (obj : ReplyObject) (rest : Bytes) : Prop :=
  obj.Accepted levels ∧ rest.length < u.length

/-- By induction on the elements: all of them are well formed, and as many as asked for. -/
theorem parseElements_done {item : Bytes → Parse ReplyObject} {levels : ℕ}
    (hitem : ∀ u obj rest, item u = .done obj rest → Accepts levels u obj rest)
    {k : ℕ} {u rest : Bytes} {objs : List ReplyObject} (h : parseElements item k u = .done objs rest) :
    objs.length = k ∧ (∀ obj ∈ objs, obj.Accepted levels) ∧ rest.length ≤ u.length := by
  induction k generalizing u objs with
  | zero =>
    cases h
    exact ⟨rfl, by simp, le_rfl⟩
  | succ k ih =>
    obtain ⟨obj, rest₁, hobj, h⟩ := Parse.bind_done h
    obtain ⟨objs', rest₂, hobjs, h⟩ := Parse.bind_done h
    cases h
    obtain ⟨hlen, hall, hle⟩ := ih hobjs
    obtain ⟨hacc, hlt⟩ := hitem u obj rest₁ hobj
    exact ⟨by rw [List.length_cons, hlen], List.forall_mem_cons.mpr ⟨hacc, hall⟩, by omega⟩

/-- An array without elements may say that it has some. -/
theorem emptyArray_accepted (levels : ℕ) (n : ℤ) : (emptyArray n).Accepted (levels + 1) := by
  unfold emptyArray
  split
  · exact .array (by simp) (by simp)
  · next h =>
    have hbounds : -2147483648 ≤ toInt n ∧ toInt n < 2147483648 := by
      unfold toInt
      rw [Int.bmod_def]
      omega
    exact .counted (by omega) (by omega)

/-- A string is as long as the `long` says. -/
theorem parseBulk_done {levels : ℕ} {p rest : Bytes} {obj : ReplyObject}
    (h : parseBulk p = .done obj rest) : obj.Accepted levels ∧ rest.length ≤ p.length := by
  obtain ⟨len, n, -, hread, h⟩ := parseNumber_done h
  split at h
  · cases h
    exact ⟨.nil, by simp⟩
  split at h
  · cases h
  · unfold parseData at h
    split at h
    · cases h
      exact ⟨.string (by rw [List.length_take]; omega), by simp⟩
    · cases h

/-- An array nests one level more than its elements. -/
theorem parseArray_done {levels : ℕ} {p rest : Bytes} {obj : ReplyObject}
    (hitem : ∀ u obj rest, parseItem levels u = .done obj rest → Accepts levels u obj rest)
    (h : parseArray (parseItem levels) (parseSlotless levels) p = .done obj rest) :
    obj.Accepted (levels + 1) ∧ rest.length ≤ p.length := by
  obtain ⟨len, n, -, -, h⟩ := parseNumber_done h
  split at h
  · cases h
    exact ⟨.nil, by simp⟩
  · split at h
    · cases h
      exact ⟨emptyArray_accepted levels n, by simp⟩
    · split at h
      · exact absurd h (parseSlotless_ne_done levels _)
      · obtain ⟨objs, rest', hobjs, h⟩ := Parse.bind_done h
        cases h
        obtain ⟨hcount, hall, hle⟩ := parseElements_done hitem hobjs
        rw [List.length_drop] at hle
        have hint : toInt n < 2147483648 := by
          unfold toInt
          rw [Int.bmod_def]
          omega
        exact ⟨.array (by omega) hall, by omega⟩

/-- The items with their types known. -/
theorem parseItem_done_step {levels : ℕ} {u rest : Bytes} {obj : ReplyObject}
    (hitem : ∀ levels', levels = levels' + 1 → ∀ u obj rest,
      parseItem levels' u = .done obj rest → Accepts levels' u obj rest)
    (h : parseItem levels u = .done obj rest) : Accepts levels u obj rest := by
  rw [parseItem.eq_def] at h
  cases u with
  | nil => cases h
  | cons c p =>
    dsimp only at h
    suffices hacc : obj.Accepted levels ∧ rest.length ≤ p.length from
      ⟨hacc.1, Nat.lt_succ_of_le hacc.2⟩
    cases hc : itemType c with
    | none => rw [hc] at h; cases h
    | some type =>
      rw [hc] at h
      cases type with
      | string => exact parseBulk_done h
      | integer =>
        obtain ⟨len, n, -, hread, h⟩ := parseNumber_done h
        cases h
        obtain ⟨hlow, hhigh⟩ := readLongLong_bounds hread
        exact ⟨.integer hlow hhigh, by simp⟩
      | status =>
        obtain ⟨len, hline, h⟩ := parseLine_done h
        cases h
        exact ⟨.status (crlf_take hline), by simp⟩
      | error =>
        obtain ⟨len, hline, h⟩ := parseLine_done h
        cases h
        exact ⟨.error (crlf_take hline), by simp⟩
      | array =>
        cases levels with
        | zero => cases h
        | succ levels => exact parseArray_done (hitem levels rfl) h

/-- By induction on the levels: **what the parser accepts.** -/
theorem parseItem_done {levels : ℕ} {u rest : Bytes} {obj : ReplyObject}
    (h : parseItem levels u = .done obj rest) : Accepts levels u obj rest := by
  induction levels generalizing u rest obj with
  | zero => exact parseItem_done_step (fun _ h => absurd h (Nat.succ_ne_zero _).symm) h
  | succ levels ih =>
    refine parseItem_done_step (fun levels' h u obj rest hdone => ?_) h
    obtain rfl := Nat.succ.inj h
    exact ih hdone

/-! ## The whole of the input -/

/-- Why no more replies come. -/
inductive Ending
  | more
  | error (errstr : Bytes)
  | undefined
deriving DecidableEq

/-- One reply after the other, each of at most eight levels: `rstack` has nine places. -/
def parseReplies (fed : Bytes) : List ReplyObject × Ending :=
  match _h : parseItem 8 fed with
  | .done obj rest => (obj :: (parseReplies rest).1, (parseReplies rest).2)
  | .more => ([], .more)
  | .error errstr => ([], .error errstr)
  | .undefined => ([], .undefined)
termination_by fed.length
decreasing_by all_goals exact (parseItem_done ‹_›).2

/-- A reply, and those behind it. -/
theorem parseReplies_done {fed rest : Bytes} {obj : ReplyObject}
    (h : parseItem 8 fed = .done obj rest) :
    parseReplies fed = (obj :: (parseReplies rest).1, (parseReplies rest).2) := by
  rw [parseReplies]
  split
  · next h' => rw [h] at h'; cases h'; rfl
  · next h' => rw [h] at h'; cases h'
  · next h' => rw [h] at h'; cases h'
  · next h' => rw [h] at h'; cases h'

/-- The parser has nothing more in its input. -/
def Parse.ending {α : Type} : Parse α → Option Ending
  | .done _ _ => none
  | .more => some .more
  | .error errstr => some (.error errstr)
  | .undefined => some .undefined

/-- Behind the last reply. -/
theorem parseReplies_ending {fed : Bytes} {e : Ending} (h : (parseItem 8 fed).ending = some e) :
    parseReplies fed = ([], e) := by
  rw [parseReplies]
  split
  · next h' => rw [h'] at h; cases h
  · next h' => rw [h'] at h; cases h; rfl
  · next h' => rw [h'] at h; cases h; rfl
  · next h' => rw [h'] at h; cases h; rfl

namespace RedisReader

/-- The end of the reader's replies, as the specification has it. -/
def Ends : Ending → (ReadTask × List ReadTask) × Bytes ⊕ Stop → Prop
  | .more, e => ∃ w, e = .inl w
  | .error errstr, e => e = .inr (.error 4 errstr)
  | .undefined, e => e = .inr .undefined

/-- By induction on the input: **the replies of the reader are those of the recursion**, and the
    reader ends where and why the recursion does. -/
theorem replies_eq (fed : Bytes) :
    (replies fed).1 = (parseReplies fed).1 ∧ Ends (parseReplies fed).2 (replies fed).2 := by
  induction hlen : fed.length using Nat.strongRecOn generalizing fed with
  | _ n ih =>
    subst hlen
    have hitem : Agrees (-1) [] (parseItem 8 fed) (replies fed) := drain_item rfl rfl
    cases hparse : parseItem 8 fed with
    | done obj rest =>
      rw [hparse] at hitem
      obtain ⟨heq, hends⟩ := ih _ (parseItem_done hparse).2 rest rfl
      have hafter : replies fed = (obj :: (replies rest).1, (replies rest).2) := hitem
      rw [parseReplies_done hparse, hafter, heq]
      exact ⟨rfl, hends⟩
    | more =>
      rw [hparse] at hitem
      obtain ⟨w, hw⟩ := hitem
      rw [parseReplies_ending (by rw [hparse]; rfl), hw]
      exact ⟨rfl, w, rfl⟩
    | error errstr =>
      rw [hparse] at hitem
      rw [parseReplies_ending (by rw [hparse]; rfl), show replies fed = _ from hitem]
      exact ⟨rfl, rfl⟩
    | undefined =>
      rw [hparse] at hitem
      rw [parseReplies_ending (by rw [hparse]; rfl), show replies fed = _ from hitem]
      exact ⟨rfl, rfl⟩

/-- With more input the replies so far stay as they are. -/
theorem parseReplies_mono (u v : Bytes) : (parseReplies u).1 <+: (parseReplies (u ++ v)).1 := by
  rw [← (replies_eq u).1, ← (replies_eq (u ++ v)).1]
  exact Incremental.Parser.drain_isPrefix _ u v

/-- **When a call of `redisReaderGetReply` has no meaning**: the replies so far are all, and
    what is behind them has none. -/
theorem Run.getReply_eq_none {r : RedisReader} {fed : Bytes} {got : List ReplyObject}
    (h : Run r fed got) (hlen : r.buf.length < 2147483648) :
    r.getReply = none ↔ got = (parseReplies fed).1 ∧ (parseReplies fed).2 = .undefined := by
  obtain ⟨heq, hends⟩ := replies_eq fed
  constructor
  · intro hnone
    obtain ⟨hr, ⟨herr, hall⟩ | ⟨errstr, rfl, -⟩⟩ := h.sound
    · have hspec := getReply_spec hr herr hlen
      rw [hnone] at hspec
      cases hspec with
      | undefined hfuture =>
        rw [hall, hfuture] at heq hends
        refine ⟨by simpa using heq, ?_⟩
        cases he : (parseReplies fed).2 with
        | more =>
          rw [he] at hends
          obtain ⟨w, hw⟩ := hends
          cases hw
        | error errstr => rw [he] at hends; cases hends
        | undefined => rfl
    · cases hnone
  · rintro ⟨hgot, hundefined⟩
    rw [hundefined] at hends
    cases hget : r.getReply with
    | none => rfl
    | some result =>
      obtain ⟨r', ok, _ | obj⟩ := result
      · rcases h.exhausted hlen hget with ⟨-, -, hall⟩ | ⟨errstr, -, -, hall⟩
        · rw [hall] at hends; cases hends
        · rw [hall] at hends; cases hends
      · have hbegin := (Run.getReply h hlen hget).prefix_replies
        rw [heq, ← hgot] at hbegin
        exact absurd hbegin.length_le (by simp)

/-- A reply is no error. -/
theorem Run.getReply_some {r r' : RedisReader} {fed : Bytes} {got : List ReplyObject} {ok : Bool}
    {obj : ReplyObject} (h : Run r fed got) (hlen : r.buf.length < 2147483648)
    (hget : r.getReply = some (r', ok, some obj)) : ok = true ∧ r'.err = 0 := by
  obtain ⟨hr, ⟨herr, -⟩ | ⟨errstr, rfl, -⟩⟩ := h.sound
  · have hspec := getReply_spec hr herr hlen
    rw [hget] at hspec
    cases hspec with
    | reply _ _ herr' _ => exact ⟨rfl, herr'⟩
  · cases hget

/-- When the reader has no more, a run got all replies, and its error is that of the parser. -/
theorem Run.exhausted_parse {r r' : RedisReader} {fed : Bytes} {got : List ReplyObject} {ok : Bool}
    (h : Run r fed got) (hlen : r.buf.length < 2147483648)
    (hget : r.getReply = some (r', ok, none)) :
    got = (parseReplies fed).1 ∧
      (ok = true ∧ r'.err = 0 ∧ (parseReplies fed).2 = .more ∨
        ∃ errstr, ok = false ∧ r' = RedisReader.create.setError 4 errstr ∧
          (parseReplies fed).2 = .error errstr) := by
  obtain ⟨heq, hends⟩ := replies_eq fed
  rcases h.exhausted hlen hget with ⟨rfl, herr, hall⟩ | ⟨errstr, rfl, rfl, hall⟩
  · rw [hall] at heq hends
    refine ⟨heq, Or.inl ⟨rfl, herr, ?_⟩⟩
    cases he : (parseReplies fed).2 with
    | more => rfl
    | error errstr => rw [he] at hends; cases hends
    | undefined => rw [he] at hends; cases hends
  · rw [hall] at heq hends
    refine ⟨heq, Or.inr ⟨errstr, rfl, rfl, ?_⟩⟩
    cases he : (parseReplies fed).2 with
    | more =>
      rw [he] at hends
      obtain ⟨w, hw⟩ := hends
      cases hw
    | error errstr' =>
      rw [he] at hends
      cases hends
      rfl
    | undefined => rw [he] at hends; cases hends

/-- What a run got so far. -/
theorem Run.prefix_parse {r : RedisReader} {fed : Bytes} {got : List ReplyObject}
    (h : Run r fed got) : got <+: (parseReplies fed).1 := (replies_eq fed).1 ▸ h.prefix_replies

/-- **The reader is the recursive parser, whatever the cuts**: what a run got is the
    beginning of the replies that the parser finds in the whole of the input. A call has no
    meaning exactly when the run got them all and the parser finds none in what follows. A
    call that has one gives the next of the replies, and when there is no more, the error is
    that of the parser. -/
theorem Run.parsed {r : RedisReader} {fed : Bytes} {got : List ReplyObject} (h : Run r fed got) :
    got <+: (parseReplies fed).1 ∧
      (r.buf.length < 2147483648 →
        (r.getReply = none ↔ got = (parseReplies fed).1 ∧ (parseReplies fed).2 = .undefined) ∧
        ∀ r' ok reply, r.getReply = some (r', ok, reply) →
          (∀ obj, reply = some obj →
            ok = true ∧ r'.err = 0 ∧ got ++ [obj] <+: (parseReplies fed).1) ∧
          (reply = none → got = (parseReplies fed).1 ∧
            (ok = true ∧ r'.err = 0 ∧ (parseReplies fed).2 = .more ∨
              ∃ errstr, ok = false ∧ r' = RedisReader.create.setError 4 errstr ∧
                (parseReplies fed).2 = .error errstr))) := by
  refine ⟨h.prefix_parse, fun hlen => ⟨h.getReply_eq_none hlen, fun r' ok reply hget => ⟨?_, ?_⟩⟩⟩
  · rintro obj rfl
    obtain ⟨hok, herr⟩ := h.getReply_some hlen hget
    exact ⟨hok, herr, (Run.getReply h hlen hget).prefix_parse⟩
  · rintro rfl
    exact h.exhausted_parse hlen hget

/-- `:5`, and a number behind it that is no `long long`. -/
def overflowing : Bytes :=
  [58, 53, 13, 10] ++ 58 :: List.replicate 19 57 ++ [13, 10]

/-- The reply is fetched first, and the next call has no meaning. -/
theorem Run.parsed_overflowing : ∃ r, Run r overflowing [.integer 5] ∧
    [.integer 5] <+: (parseReplies overflowing).1 ∧ r.getReply = none := by
  have hrun : Run ⟨0, [], overflowing, 4, [], none⟩ overflowing [.integer 5] :=
    .getReply (.feed overflowing .create) (by decide) rfl
  have hspec : parseReplies overflowing = ([.integer 5], .undefined) := by
    rw [parseReplies_done (show parseItem 8 overflowing =
        .done (.integer 5) (58 :: List.replicate 19 57 ++ [13, 10]) from rfl),
      parseReplies_ending (show (parseItem 8 (58 :: List.replicate 19 57 ++ [13, 10])).ending =
        some .undefined from rfl)]
  obtain ⟨hbegin, hcall⟩ := Run.parsed hrun
  exact ⟨_, hrun, hbegin, (hcall (by decide)).1.mpr (by rw [hspec]; exact ⟨rfl, rfl⟩)⟩

/-- The same on an input without errors. -/
theorem Run.complete {r : RedisReader} {fed : Bytes} {got objs : List ReplyObject}
    (h : Run r fed got) (hspec : parseReplies fed = (objs, .more)) (hlen : r.buf.length < 2147483648) :
    got <+: objs ∧ ∃ r' reply, r.getReply = some (r', true, reply) ∧ r'.err = 0 ∧
      (reply = none → got = objs) := by
  have hgot := h.prefix_parse
  have hdefined : r.getReply ≠ none := by
    rw [Ne, h.getReply_eq_none hlen, hspec]
    simp
  rw [hspec] at hgot
  refine ⟨hgot, ?_⟩
  obtain ⟨⟨r', ok, reply⟩, hget⟩ := Option.ne_none_iff_exists'.mp hdefined
  cases reply with
  | some obj =>
    obtain ⟨rfl, herr⟩ := h.getReply_some hlen hget
    exact ⟨r', some obj, hget, herr, by simp⟩
  | none =>
    obtain ⟨hall, ⟨rfl, herr, -⟩ | ⟨errstr, -, -, hend⟩⟩ := h.exhausted_parse hlen hget
    · rw [hspec] at hall
      exact ⟨r', none, hget, herr, fun _ => hall⟩
    · rw [hspec] at hend
      cases hend

/-- **Whatever a server sends**, each reply is well formed. -/
theorem parseReplies_accepted (fed : Bytes) : ∀ obj ∈ (parseReplies fed).1, obj.Accepted 8 := by
  induction hlen : fed.length using Nat.strongRecOn generalizing fed with
  | _ n ih =>
    subst hlen
    cases hparse : parseItem 8 fed with
    | done obj rest =>
      obtain ⟨hobj, hlt⟩ := parseItem_done hparse
      rw [parseReplies_done hparse]
      exact List.forall_mem_cons.mpr ⟨hobj, ih _ hlt rest rfl⟩
    | more => rw [parseReplies_ending (by rw [hparse]; rfl)]; simp
    | error errstr => rw [parseReplies_ending (by rw [hparse]; rfl)]; simp
    | undefined => rw [parseReplies_ending (by rw [hparse]; rfl)]; simp

end RedisReader

end Hiredispool.Hiredis
