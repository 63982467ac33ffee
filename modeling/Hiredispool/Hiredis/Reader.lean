import Hiredispool.Client.Format
import Hiredispool.Client.Replies
import Hiredispool.Lib.CInt

/-!
# The reader of the protocol

Model of `read.c`, of the functions of `hiredis.c` that build a reply (lines
55–189), and of `sdsrange` (`sds.c`, lines 712–738), of the copy of hiredis under
`experimental/`: bytes are fed in pieces, and replies are fetched from them.

```
int redisReaderFeed(redisReader *r, const char *buf, size_t len);
int redisReaderGetReply(redisReader *r, void **reply);
```

* The task stack `rstack[0 … ridx]` is a list with the current task in front; the
  bytes from `pos` on are `unread`.
* A task keeps the elements that its array has so far. In C the array hangs in its
  parent from the start, here it is put there when it is complete. Nobody sees the
  difference: `*reply` is set when the stack is empty (line 519).
* `none` and `undefined` are what C gives no meaning: an overflow of a `long` or a
  `long long`, and a write to an array that has no memory.
* The type bytes and the texts of the errors are those of the source, for they are what
  the application is told.

Failures of `malloc` are left out, and so are `maxbuf` and `privdata`.
-/

namespace Hiredispool.Hiredis

open Hiredispool.Pool
open Hiredispool.Client (toInt isDigit)

/-! ## Types -/

/-- What `redisReply` objects the reader builds (hiredis.h, lines 112–119). In `counted n` the
    field `elements` is `n`, but no element is there: `createArrayObject` takes an `int`, the
    caller has a `long`. -/
inductive ReplyObject
  | string (str : Bytes)
  | array (element : List ReplyObject)
  | integer (integer : ℤ)
  | nil
  | status (str : Bytes)
  | error (str : Bytes)
  | counted (elements : ℕ)

/-- The types that a type byte stands for (lines 374–389): `-`, `+`, `:`, `$` and `*`. -/
inductive ItemType
  | error
  | status
  | integer
  | string
  | array
deriving DecidableEq

/-- `redisReadTask` (read.h, lines 63–70); `element` are the elements of `obj`. The type
    `-1` is `none`. -/
structure ReadTask where
  type : Option ItemType
  elements : ℤ
  idx : ℤ
  element : List ReplyObject

/-- `redisReader` (read.h, lines 80–95), with `len` and `ridx` as lengths. -/
structure RedisReader where
  err : ℤ
  errstr : Bytes
  buf : Bytes
  pos : ℕ
  rstack : List ReadTask
  reply : Option ReplyObject

/-- `buf + pos`: what `seekNewline` and `readLongLong` look at. -/
def RedisReader.unread (r : RedisReader) : Bytes := r.buf.drop r.pos

/-- What `processItem` does: `REDIS_OK`, `REDIS_ERR` for want of bytes, or an error. `n` bytes
    are consumed; a want of bytes consumes none, or the type byte alone. -/
inductive ItemResult
  | ok (rstack : List ReadTask) (reply : Option ReplyObject) (n : ℕ)
  | more (rstack : List ReadTask) (n : ℕ)
  | error (err : ℤ) (errstr : Bytes)
  | undefined

/-- The same with `k` more bytes consumed, those that `readBytes` took (lines 109–117). -/
def ItemResult.behind (k : ℕ) : ItemResult → ItemResult
  | .ok rstack reply n => .ok rstack reply (k + n)
  | .more rstack n => .more rstack (k + n)
  | .error err errstr => .error err errstr
  | .undefined => .undefined

/-! ## Lines and numbers -/

/-- The place of the first `\r` with a `\n` behind it. -/
def crlf : Bytes → Option ℕ
  | [] => none
  | [_] => none
  | c :: d :: s => if c = 13 ∧ d = 10 then some 0 else (crlf (d :: s)).map (· + 1)

/-- `seekNewline` (lines 120–144) in the bytes `s`; `int _len = len-1` is where the search ends,
    so it is short from 2^31 bytes on. -/
def seekNewline (s : Bytes) : Option ℕ := crlf (s.take (toInt (s.length - 1) + 1).toNat)

/-- The loop of `readLongLong` (lines 161–170): the digits up to the first `\r`, or `some none`
    for what is no digit. `v *= 10` and `v += dec` are in a `long long`, and `none` if they
    overflow. -/
def readDigits : Bytes → ℤ → Option (Option ℤ)
  | [], _ => none
  | c :: s, v =>
    if c = 13 then some (some v)
    else if isDigit c then
      (CInt.checkLong (v * 10)).bind fun v =>
        (CInt.checkLong (v + (c.toNat - 48))).bind fun v => readDigits s v
    else some none

/-- Lines 161–172, behind the sign: `-1` for what is no number, else `mult*v`. -/
def readSigned (mult : ℤ) (s : Bytes) : Option ℤ :=
  (readDigits s 0).map fun v => v.elim (-1) (mult * ·)

/-- `readLongLong` (lines 148–173): a sign, or none, and digits. It does not look for the end of
    the buffer, for there is a `\r`. -/
def readLongLong : Bytes → Option ℤ
  | 45 :: s => readSigned (-1) s
  | 43 :: s => readSigned 1 s
  | s => readSigned 1 s

/-! ## Tasks -/

/-- A task without a type, for the element `idx` of its parent (lines 205–209, 348–353 and
    492–497). What `obj` points to is not read before it is set again. -/
def newTask (idx : ℤ) : ReadTask := ⟨none, -1, idx, []⟩

/-- `parent->element[task->idx]` is memory of the parent: `calloc` made `elements` of them
    (hiredis.c, line 142). -/
def hasSlot (cur : ReadTask) : List ReadTask → Bool
  | [] => true
  | prv :: _ => cur.idx < prv.elements

/-- An object is complete: it goes into its parent, or is the reply; then `moveToNextTask`
    (lines 190–213). An array that has got its last element is complete in turn, `cur->idx ==
    prv->elements-1` (line 203). -/
def moveToNextTask (obj : ReplyObject) (cur : ReadTask) :
    List ReadTask → List ReadTask × Option ReplyObject
  | [] => ([], some obj)
  | prv :: below =>
    let element := prv.element ++ [obj]
    if cur.idx = prv.elements - 1 then
      moveToNextTask (.array element) { prv with element := element } below
    else
      (newTask (cur.idx + 1) :: { prv with element := element } :: below, none)

/-- `createStringObject` and its siblings (hiredis.c, lines 102–189), and what follows them
    in the reader. -/
def createObject (obj : ReplyObject) (cur : ReadTask) (below : List ReadTask) (n : ℕ) :
    ItemResult :=
  if hasSlot cur below then
    let (rstack, reply) := moveToNextTask obj cur below
    .ok rstack reply n
  else .undefined

/-- `createArrayObject` for a count that is not positive: it goes through an `int`, and from
    there to a `size_t`. `*0` is an empty array, `*-2` an array that says it has `2^64 - 2`
    elements. -/
def emptyArray (elements : ℤ) : ReplyObject :=
  if toInt elements = 0 then .array []
  else .counted (toInt elements % 18446744073709551616).toNat

/-! ## Items -/

/-- The object of a line item (lines 222–233). -/
def lineObject (type : ItemType) (p : Bytes) (len : ℕ) : Option ReplyObject :=
  match type with
  | .integer => (readLongLong p).map .integer
  | .status => some (.status (p.take len))
  | _ => some (.error (p.take len))

/-- The text of line 312, `REDIS_ERR_PROTOCOL`. -/
def depthText : Bytes := .ofString "No support for nested multi bulk replies with depth > 7"

/-- The type bytes (lines 374–393). -/
def itemType (c : UInt8) : Option ItemType :=
  if c = 45 then some .error
  else if c = 43 then some .status
  else if c = 58 then some .integer
  else if c = 36 then some .string
  else if c = 42 then some .array
  else none

/-- `%02x` of a byte. -/
def hexByte (c : UInt8) : Bytes :=
  let digit (d : ℕ) : UInt8 := if d < 10 then .ofNat (48 + d) else .ofNat (87 + d)
  [digit (c.toNat / 16), digit (c.toNat % 16)]

/-- `chrtos` (lines 72–94): a byte in quotes, as C would write it. -/
def chrtos (c : UInt8) : Bytes :=
  let inner : Bytes :=
    if c = 92 ∨ c = 34 then [92, c]
    else if c = 10 then .ofString "\\n"
    else if c = 13 then .ofString "\\r"
    else if c = 9 then .ofString "\\t"
    else if c = 7 then .ofString "\\a"
    else if c = 8 then .ofString "\\b"
    else if 32 ≤ c ∧ c ≤ 126 then [c]
    else .ofString "\\x" ++ hexByte c
  34 :: (inner ++ [34])

/-- The text of `__redisReaderSetErrorProtocolByte` (lines 96–103). -/
def protocolByteText (c : UInt8) : Bytes :=
  .ofString "Protocol error, got " ++ chrtos c ++ .ofString " as reply type byte"

section Items

-- `seekNewline` in the reader
variable (seek : Bytes → Option ℕ)

/-- `processLineItem` (lines 215–247). -/
def processLineItem (type : ItemType) (cur : ReadTask) (below : List ReadTask) (p : Bytes) :
    ItemResult :=
  match seek p with
  | none => .more (cur :: below) 0
  | some len =>
    match lineObject type p len with
    | none => .undefined
    | some obj => createObject obj cur below (len + 2)

/-- `processBulkItem` (lines 249–300): a negative length is nil, else the bytes are taken when
    all of them are there, with the two behind them, which are not looked at. -/
def processBulkItem (cur : ReadTask) (below : List ReadTask) (p : Bytes) : ItemResult :=
  match seek p with
  | none => .more (cur :: below) 0
  | some s =>
    match readLongLong p with
    | none => .undefined
    | some len =>
      if len < 0 then createObject .nil cur below (s + 2)
      -- `len+2` is a `long`
      else if CInt.checkLong (len + 2) = none then .undefined
      else
        let bytelen := s + 2 + (len.toNat + 2)
        if bytelen ≤ p.length then
          createObject (.string ((p.drop (s + 2)).take len.toNat)) cur below bytelen
        else .more (cur :: below) 0

/-- `processMultiBulkItem` (lines 302–365): the ninth level is an error before the count is
    read, `-1` is nil, and a positive count puts a task for the first element on the stack. -/
def processMultiBulkItem (cur : ReadTask) (below : List ReadTask) (p : Bytes) : ItemResult :=
  if below.length = 8 then .error 4 depthText
  else
    match seek p with
    | none => .more (cur :: below) 0
    | some len =>
      match readLongLong p with
      | none => .undefined
      | some elements =>
        if elements = -1 then createObject .nil cur below (len + 2)
        else if elements > 0 then
          if hasSlot cur below then
            .ok (newTask 0 :: { cur with elements := toInt elements, element := [] } :: below) none
              (len + 2)
          else .undefined
        else createObject (emptyArray elements) cur below (len + 2)

/-- The items with their types known (lines 400–413). -/
def processTypedItem (type : ItemType) (cur : ReadTask) (below : List ReadTask) (p : Bytes) :
    ItemResult :=
  match type with
  | .string => processBulkItem seek cur below p
  | .array => processMultiBulkItem seek cur below p
  | _ => processLineItem seek type cur below p

/-- `processItem` (lines 367–414): the type byte, if the task has none yet, then the item. The
    type is kept when the item has to wait. -/
def processItem (cur : ReadTask) (below : List ReadTask) (p : Bytes) : ItemResult :=
  match cur.type with
  | some type => processTypedItem seek type cur below p
  | none =>
    match p with
    | [] => .more (cur :: below) 0
    | c :: p =>
      match itemType c with
      | none => .error 4 (protocolByteText c)
      | some type => (processTypedItem seek type { cur with type := some type } below p).behind 1

end Items

/-! ## The reader -/

namespace RedisReader

/-- `redisReaderCreateWithFunctions` (lines 416–435). -/
def create : RedisReader := ⟨0, [], [], 0, [], none⟩

/-- `__redisReaderSetError` (lines 46–70): the input and the tasks are thrown away, and `errstr`
    holds 127 bytes. -/
def setError (type : ℤ) (str : Bytes) (_ : RedisReader) : RedisReader :=
  ⟨type, str.take 127, [], 0, [], none⟩

/-- `redisReaderFeed` (lines 445–475), and whether it returns `REDIS_OK`. -/
def feed (buf : Bytes) (r : RedisReader) : RedisReader × Bool :=
  if r.err ≠ 0 then (r, false) else ({ r with buf := r.buf ++ buf }, true)

/-- Lines 491–499: a task for the next reply. -/
def setRoot (r : RedisReader) : RedisReader :=
  if r.rstack.isEmpty then { r with rstack := [newTask (-1)] } else r

/-- The loop of lines 502–504, `while (r->ridx >= 0) if (processItem(r) != REDIS_OK) break;`,
    for at most `fuel` items. -/
def processItems : ℕ → RedisReader → Option RedisReader
  | 0, r => some r
  | fuel + 1, r =>
    match r.rstack with
    | [] => some r
    | cur :: below =>
      match processItem seekNewline cur below r.unread with
      | .ok rstack reply n =>
        processItems fuel { r with rstack := rstack, reply := reply <|> r.reply, pos := r.pos + n }
      | .more rstack n => some { r with rstack := rstack, pos := r.pos + n }
      | .error err errstr => some (r.setError err errstr)
      | .undefined => none

end RedisReader

/-- `sdsrange` (sds.c, lines 712–738) on the bytes of a string, with its `int` indices. A
    negative index counts from the end, and both are cut to the string. -/
def sdsrange (s : Bytes) (start stop : ℤ) : Option Bytes :=
  if s.length = 0 then some s
  else
    let start := if start < 0 then max (toInt (s.length + start)) 0 else start
    let stop := if stop < 0 then max (toInt (s.length + stop)) 0 else stop
    -- `(start > end) ? 0 : (end-start)+1`
    let range (stop : ℤ) : Option ℤ := if start > stop then some 0 else CInt.add (stop - start) 1
    (range stop).bind fun newlen =>
      if newlen = 0 then some []
      else if start ≥ toInt s.length then some []
      else if stop ≥ toInt s.length then
        (range (toInt (s.length - 1))).map fun newlen => (s.drop start.toNat).take newlen.toNat
      else some ((s.drop start.toNat).take newlen.toNat)

namespace RedisReader

/-- Lines 510–516: what has been read is discarded from 1024 bytes on,
    `sdsrange(r->buf,r->pos,-1)`. -/
def discard (r : RedisReader) : Option RedisReader :=
  if r.pos ≥ 1024 then (sdsrange r.buf (toInt r.pos) (-1)).map fun buf => { r with buf := buf, pos := 0 }
  else some r

/-- `redisReaderGetReply` (lines 477–525): whether it returns `REDIS_OK`, and the reply. An item
    consumes a byte or stops the loop, so the fuel is never used up (`processItems_spec`). -/
def getReply (r : RedisReader) : Option (RedisReader × Bool × Option ReplyObject) :=
  if r.err ≠ 0 then some (r, false, none)
  else if r.buf.length = 0 then some (r, true, none)
  else
    (processItems (r.buf.length + 1) r.setRoot).bind fun r =>
      if r.err ≠ 0 then some (r, false, none)
      else
        r.discard.map fun r =>
          if r.rstack.isEmpty then ({ r with reply := none }, true, r.reply) else (r, true, none)

end RedisReader

end Hiredispool.Hiredis
