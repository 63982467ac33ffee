import Hiredispool.Client.Reads
import Hiredispool.Lib.InsertMap

/-!
# Map values

Model of `Client::getMapValue` (`RedisClientYaf.cpp`, lines 621–651): the answer
to GET is decoded into the caller's map.

* `unmarshalContainer_eq`: decoding into a map is decoding, then inserting.
* `getMapValue_allOrNothing_iff`: when the flag and the map tell the same.
* `getMapValue_mistaken`: a key that is said to exist after a transport error, an
  old entry that hides a decoded one, and a pair that is left by half an answer.

`sox`, the library that unpacks, is not part of the repository. `Sox` is what the
code relies on; the log calls and the exceptions other than `UnpackError` are left
out.
-/

namespace Hiredispool.Client

open Hiredispool.Pool
open InsertMap (insert insertAll Compatible)

/-! ## Model -/

/-- A `std::map<uint32_t, std::string>`. -/
abbrev MapValue := UInt32 → Option Bytes

/-- What a `sox::Unpack` pops from the bytes that are left: a value, and the bytes
    behind it. `none` is an `UnpackError`. -/
structure Sox where
  popCount : Bytes → Option (ℕ × Bytes)
  popPair : Bytes → Option ((UInt32 × Bytes) × Bytes)

/-- What `getMapValue` returns, and its output parameters. -/
structure MapAnswer where
  status : Status
  value : MapValue
  keyExist : Bool

namespace Sox

variable (sox : Sox)

/-- The loop of `sox::unmarshal_container` over an insert iterator for `value`. The
    flag is false if it is left by an `UnpackError`. -/
def unmarshalLoop : ℕ → Bytes → MapValue → MapValue × Bool
  | 0, _, value => (value, true)
  | n + 1, data, value =>
    match sox.popPair data with
    | none => (value, false)
    | some (kv, rest) => unmarshalLoop n rest (insert value kv)

/-- `sox::unmarshal_container(up, inserter(value, value.begin()))`. -/
def unmarshalContainer (data : Bytes) (value : MapValue) : MapValue × Bool :=
  match sox.popCount data with
  | none => (value, false)
  | some (n, rest) => sox.unmarshalLoop n rest value

/-- The pairs that `n` pops decode, and whether there were `n` of them. -/
def pairs : ℕ → Bytes → List (UInt32 × Bytes) × Bool
  | 0, _ => ([], true)
  | n + 1, data =>
    match sox.popPair data with
    | none => ([], false)
    | some (kv, rest) => (kv :: (pairs n rest).1, (pairs n rest).2)

/-- The pairs that are decoded from `data`, and whether it was decoded completely. -/
def decoded (data : Bytes) : List (UInt32 × Bytes) × Bool :=
  match sox.popCount data with
  | none => ([], false)
  | some (n, rest) => sox.pairs n rest

end Sox

/-- `getMapValue` (lines 621–651) on what the command returned. -/
def getMapValue (sox : Sox) (p : Option RedisReplyPack) (value : MapValue) : MapAnswer :=
  let status := reply2status p
  let keyExist := !status.notFound
  match replyOf p with
  | some (.string str) =>
    -- the flag is set on both ways out of the inner `try`
    match sox.unmarshalContainer str value with
    | (value, true) => ⟨status, value, true⟩
    | (value, false) => ⟨status, value, false⟩
  | _ => ⟨status, value, keyExist⟩

/-! ## Decoding -/

section Decoding

variable (sox : Sox)

/-- By induction on the number of pairs that are left. -/
theorem unmarshalLoop_eq (n : ℕ) (data : Bytes) (value : MapValue) :
    sox.unmarshalLoop n data value =
      (insertAll value (sox.pairs n data).1, (sox.pairs n data).2) := by
  induction n generalizing data value with
  | zero => rfl
  | succ n ih =>
    rw [Sox.unmarshalLoop, Sox.pairs]
    cases sox.popPair data with
    | none => rfl
    | some x =>
      show sox.unmarshalLoop n x.2 (insert value x.1) = _
      rw [ih]
      rfl

/-- What was decoded is inserted, also if the bytes end within a pair. -/
theorem unmarshalContainer_eq (data : Bytes) (value : MapValue) :
    sox.unmarshalContainer data value =
      (insertAll value (sox.decoded data).1, (sox.decoded data).2) := by
  rw [Sox.unmarshalContainer, Sox.decoded]
  cases sox.popCount data with
  | none => rfl
  | some x => exact unmarshalLoop_eq sox x.1 x.2 value

end Decoding

/-! ## The answer -/

section Answer

variable {sox : Sox} {p : Option RedisReplyPack} {value : MapValue}

theorem getMapValue_string {str : Bytes} (h : replyOf p = some (.string str)) :
    getMapValue sox p value =
      ⟨reply2status p, insertAll value (sox.decoded str).1, (sox.decoded str).2⟩ := by
  unfold getMapValue
  dsimp only
  rw [h]
  dsimp only
  rw [unmarshalContainer_eq]
  cases (sox.decoded str).2 with
  | true => rfl
  | false => rfl

theorem getMapValue_other (h : ∀ str, replyOf p ≠ some (.string str)) :
    getMapValue sox p value = ⟨reply2status p, value, !(reply2status p).notFound⟩ := by
  unfold getMapValue
  dsimp only
  split
  · rename_i str hp
    exact absurd hp (h str)
  · rfl

/-- The flag and the map tell the same: a key that exists was received and decoded
    completely and is in the map, and the map of a key that does not is untouched. -/
structure AllOrNothing (sox : Sox) (p : Option RedisReplyPack) (value : MapValue)
    (r : MapAnswer) : Prop where
  exist : r.keyExist = true → ∃ str, replyOf p = some (.string str) ∧
    (sox.decoded str).2 = true ∧ ∀ kv ∈ (sox.decoded str).1, r.value kv.1 = some kv.2
  missing : r.keyExist = false → r.value = value

/-- The answers on which the flag and the map tell the same: nil, or an error with the
    text of nil; a string that is decoded completely, into pairs that contradict
    neither the map nor each other; a string that is not, if the map has the keys
    that were decoded. -/
def Tells (sox : Sox) (value : MapValue) : Option RedisReply → Prop
  | some .nil => True
  | some (.error str) => cStr str = Bytes.ofString "not_found"
  | some (.string str) =>
    if (sox.decoded str).2 then Compatible value (sox.decoded str).1
    else ∀ kv ∈ (sox.decoded str).1, value kv.1 ≠ none
  | _ => False

theorem string_allOrNothing_iff {str : Bytes} (h : replyOf p = some (.string str)) :
    AllOrNothing sox p value (getMapValue sox p value) ↔
      if (sox.decoded str).2 then Compatible value (sox.decoded str).1
      else ∀ kv ∈ (sox.decoded str).1, value kv.1 ≠ none := by
  rw [getMapValue_string h]
  split
  · rename_i hdone
    rw [← InsertMap.insertAll_entries_iff]
    constructor
    · intro hall
      obtain ⟨str', hp, -, hentries⟩ := hall.exist hdone
      obtain rfl : str = str' := by simpa using h.symm.trans hp
      exact hentries
    · intro hentries
      exact ⟨fun _ => ⟨str, h, hdone, hentries⟩, fun hf => absurd (hdone.symm.trans hf) (by simp)⟩
  · rename_i hdone
    rw [← InsertMap.insertAll_eq_self_iff]
    constructor
    · intro hall
      exact hall.missing (eq_false_of_ne_true hdone)
    · intro hsame
      exact ⟨fun ht => absurd ht hdone, fun _ => hsame⟩

/-- Without a string the map is untouched, so the flag must not be set. -/
theorem other_allOrNothing_iff (h : ∀ str, replyOf p ≠ some (.string str)) :
    AllOrNothing sox p value (getMapValue sox p value) ↔ (reply2status p).notFound = true := by
  rw [getMapValue_other h]
  constructor
  · intro hall
    by_contra hfound
    obtain ⟨str, hp, -⟩ := hall.exist (by simpa using hfound)
    exact h str hp
  · intro hfound
    constructor
    · intro hexist
      rw [hfound] at hexist
      cases hexist
    · intro _
      rfl

end Answer

/-! ## Main theorem -/

/-- **A map value is read completely or not at all** exactly on the answers on which
    flag and map tell the same. -/
theorem getMapValue_allOrNothing_iff (sox : Sox) (p : Option RedisReplyPack) (value : MapValue) :
    AllOrNothing sox p value (getMapValue sox p value) ↔ Tells sox value (replyOf p) := by
  by_cases hstring : ∃ str, replyOf p = some (.string str)
  · obtain ⟨str, hp⟩ := hstring
    rw [string_allOrNothing_iff hp, hp]
    exact Iff.rfl
  · rw [not_exists] at hstring
    rw [other_allOrNothing_iff hstring, reply2status_notFound_iff]
    cases hp : replyOf p with
    | none => simp [Tells]
    | some reply =>
      cases reply with
      | string str => exact absurd hp (hstring str)
      | nil => simp [Tells]
      | error str => simp [Tells]
      | array element => simp [Tells]
      | integer n => simp [Tells]
      | status str => simp [Tells]

/-! ## Answers that are told wrong -/

/-- The number whose bytes are given, the least significant one first. -/
def littleEndian (l : Bytes) : ℕ := l.foldr (fun b n => b.toNat + 256 * n) 0

/-- The format of `sox`: a number of pairs in four bytes; a pair is a key in four
    bytes, a length in two, and that many bytes. -/
def packed : Sox where
  popCount data := if data.length < 4 then none else some (littleEndian (data.take 4), data.drop 4)
  popPair data :=
    let len := littleEndian ((data.drop 4).take 2)
    if data.length < 6 + len then none
    else some ((.ofNat (littleEndian (data.take 4)), (data.drop 6).take len), data.drop (6 + len))

/-- An empty map. -/
def noEntries : MapValue := fun _ => none

/-- What a pool makes of a GET that could not be written: `REDIS_ERR_IO`. -/
def broken : Option RedisReplyPack := some ⟨none, ⟨1, [], [], 6379⟩⟩

/-- A string with the pair of key 1 and the text `a`, for which two pairs are announced. -/
def halfAnswer : Option RedisReplyPack :=
  some ⟨some (.string [2, 0, 0, 0, 1, 0, 0, 0, 1, 0, 97]), ⟨0, [], [], 6379⟩⟩

/-- A string with that pair alone. -/
def wholeAnswer : Option RedisReplyPack :=
  some ⟨some (.string [1, 0, 0, 0, 1, 0, 0, 0, 1, 0, 97]), ⟨0, [], [], 6379⟩⟩

/-- A key is said to exist when no reply was received; a pair is left in the map of a
    key that is said to be missing; and a decoded pair is dropped for an old one. -/
theorem getMapValue_mistaken :
    ((getMapValue packed broken noEntries).keyExist = true ∧
      ¬AllOrNothing packed broken noEntries (getMapValue packed broken noEntries)) ∧
    ((getMapValue packed halfAnswer noEntries).keyExist = false ∧
      (getMapValue packed halfAnswer noEntries).value 1 = some [97] ∧
      ¬AllOrNothing packed halfAnswer noEntries (getMapValue packed halfAnswer noEntries)) ∧
    ((getMapValue packed wholeAnswer fun _ => some []).keyExist = true ∧
      ((getMapValue packed wholeAnswer fun _ => some []).value 1 = some []) ∧
      ¬AllOrNothing packed wholeAnswer (fun _ => some [])
        (getMapValue packed wholeAnswer fun _ => some [])) := by
  refine ⟨⟨by decide, ?_⟩, ⟨by decide, by decide, ?_⟩, ⟨by decide, by decide, ?_⟩⟩
  · intro h
    obtain ⟨str, hp, -⟩ := h.exist (by decide)
    cases hp
  · intro h
    have hentry := congrFun (h.missing (by decide)) 1
    exact absurd hentry (by decide)
  · intro h
    obtain ⟨str, hp, -, hentries⟩ := h.exist (by decide)
    have hp' : some (RedisReply.string [1, 0, 0, 0, 1, 0, 0, 0, 1, 0, 97]) = some (.string str) :=
      hp
    obtain rfl := RedisReply.string.inj (Option.some.inj hp')
    exact absurd (hentries (1, [97]) (by decide)) (by decide)

end Hiredispool.Client
