import Hiredispool.Client.Commands
import Hiredispool.Client.Replies

/-!
# Batch reads

Model of `Client::mget` and `Client::hmget` (`RedisClientYaf.cpp`, lines 703–731
and 942–972): a set of keys is sent, and the elements of the answer are put into
a map.

* `readElements_eq`: what the loop over the keys does to the map.
* `batch_aligned_iff`: keys and values are aligned exactly if the answer is not an
  array with fewer elements than keys.
* `mget_truncated`: an answer that is shorter than the set.
-/

namespace Hiredispool.Client

open Hiredispool.Pool

/-! ## Model -/

/-- A `std::set<std::string>`: its elements in order. -/
structure KeySet where
  keys : List Bytes
  sorted : keys.Pairwise (· < ·)

theorem KeySet.nodup (s : KeySet) : s.keys.Nodup := by
  refine s.sorted.imp fun hlt => ?_
  rintro rfl
  exact List.lt_irrefl _ hlt

/-- A `std::map<std::string, std::string>`. -/
abbrev Vals := Bytes → Option Bytes

/-- A read of memory that is not there. -/
inductive Fault
  | nullReply
  | outside
deriving DecidableEq

/-- `if (element->type == REDIS_REPLY_STRING) vals[key].assign(…)` on the entry of
    `key`. -/
def RedisReply.assign (old : Option Bytes) : RedisReply → Option Bytes
  | .string str => some str
  | _ => old

/-- The loop of lines 719–727 and 960–968 with its `uint32_t i`. -/
def readElements (element : List RedisReply) : List Bytes → UInt32 → Vals → Except Fault Vals
  | [], _, vals => .ok vals
  | key :: keys, i, vals =>
    match element[i.toNat]? with
    | none => .error .outside
    | some x => readElements element keys (i + 1) (Function.update vals key (x.assign (vals key)))

/-- Lines 715–730 and 956–971: what is done with the answer `p`. -/
def batchRead (keys : KeySet) (p : Option RedisReplyPack) (vals : Vals) :
    Except Fault (Status × Vals) :=
  let status := reply2status p
  if status.ok then
    match replyOf p with
    | none => .error .nullReply
    | some (.array element) => (readElements element keys.keys 0 vals).map (status, ·)
    | some _ => .ok (status, vals)
  else .ok (status, vals)

/-- `mget` (lines 703–731), where `answer` is what the pool makes of a command. -/
def mgetRead (answer : Sent → Option RedisReplyPack) (keys : KeySet) (vals : Vals) :
    Except Fault (Status × Vals) :=
  batchRead keys (answer (mget keys.keys)) vals

/-- `hmget` (lines 942–972). -/
def hmgetRead (answer : Sent → Option RedisReplyPack) (key : Bytes) (fields : KeySet)
    (vals : Vals) : Except Fault (Status × Vals) :=
  batchRead fields (answer (hmget key fields.keys)) vals

/-! ## The loop -/

section Loop

variable {element : List RedisReply} {vals vals' : Vals} {keys : List Bytes} {i : UInt32}

/-- `vals'` has the elements from number `i` on for the keys, and is `vals` elsewhere. -/
structure Aligned (element : List RedisReply) (keys : List Bytes) (i : ℕ) (vals vals' : Vals) :
    Prop where
  key : ∀ j key x, keys[j]? = some key → element[i + j]? = some x →
    vals' key = x.assign (vals key)
  other : ∀ key, key ∉ keys → vals' key = vals key

theorem Aligned.cons {key : Bytes} {x : RedisReply} {k : ℕ} (hx : element[k]? = some x)
    (hkey : key ∉ keys)
    (h : Aligned element keys (k + 1) (Function.update vals key (x.assign (vals key))) vals') :
    Aligned element (key :: keys) k vals vals' := by
  refine ⟨fun j key' y hj hy => ?_, fun key' hkey' => ?_⟩
  · cases j with
    | zero =>
      obtain rfl : key = key' := by simpa using hj
      obtain rfl : x = y := Option.some.inj (hx.symm.trans hy)
      rw [h.other key hkey, Function.update_self]
    | succ j =>
      rw [List.getElem?_cons_succ] at hj
      have hne : key' ≠ key := by
        rintro rfl
        exact hkey (List.mem_of_getElem? hj)
      rw [h.key j key' y hj (by rw [← hy]; congr 1; omega), Function.update_of_ne hne]
  · rw [List.mem_cons, not_or] at hkey'
    rw [h.other key' hkey'.2, Function.update_of_ne hkey'.1]

/-- `i` does not wrap around within an array. -/
theorem toNat_succ (h : i.toNat < 2 ^ 31) : (i + 1).toNat = i.toNat + 1 := by
  rw [UInt32.toNat_add]
  show (i.toNat + 1) % 4294967296 = i.toNat + 1
  omega

/-- By induction on the keys: there is an element for each of them, or the loop
    reads behind the last one. -/
theorem readElements_eq (hlen : element.length < 2 ^ 31) (hnd : keys.Nodup)
    (hi : i.toNat ≤ element.length) :
    (i.toNat + keys.length ≤ element.length ∧
      ∃ vals', readElements element keys i vals = .ok vals' ∧
        Aligned element keys i.toNat vals vals') ∨
    element.length < i.toNat + keys.length ∧
      readElements element keys i vals = .error .outside := by
  induction keys generalizing i vals with
  | nil => exact Or.inl ⟨hi, vals, rfl, by simp, fun _ _ => rfl⟩
  | cons key keys ih =>
    obtain ⟨hkey, hnd⟩ := List.nodup_cons.mp hnd
    rw [readElements, List.length_cons]
    by_cases hlt : i.toNat < element.length
    · have hx := List.getElem?_eq_getElem hlt
      have hnext := toNat_succ (show i.toNat < 2 ^ 31 by omega)
      rw [hx]
      dsimp only
      rcases @ih (Function.update vals key (element[i.toNat].assign (vals key))) (i + 1) hnd
        (by omega) with ⟨hle, vals', he, ha⟩ | ⟨hgt, he⟩
      · rw [hnext] at hle ha
        exact Or.inl ⟨by omega, vals', he, ha.cons hx hkey⟩
      · rw [hnext] at hgt
        exact Or.inr ⟨by omega, he⟩
    · rw [List.getElem?_eq_none (by omega)]
      exact Or.inr ⟨by omega, rfl⟩

end Loop

/-! ## The answer -/

section Answer

variable {p : Option RedisReplyPack} {keys : KeySet} {vals : Vals}

/-- hiredis makes an array for a number of elements that is an `int`
    (`createArrayObject`, hiredis.c, line 134). -/
def Received (p : Option RedisReplyPack) : Prop :=
  ∀ element, replyOf p = some (.array element) → element.length < 2 ^ 31

/-- `r` is a result in which keys and values are aligned: no memory was read that
    is not there, and if the answer has one element for each key, these are the
    new values. -/
structure BatchAligned (keys : KeySet) (p : Option RedisReplyPack) (vals : Vals)
    (r : Except Fault (Status × Vals)) : Prop where
  safe : ∃ status vals', r = .ok (status, vals')
  aligned : ∀ element status vals', replyOf p = some (.array element) →
    element.length = keys.keys.length → r = .ok (status, vals') →
    Aligned element keys.keys 0 vals vals'

/-- An array is read element by element. -/
theorem batchRead_array {element : List RedisReply} (hp : replyOf p = some (.array element)) :
    batchRead keys p vals =
      (readElements element keys.keys 0 vals).map (Status.of "ok", ·) := by
  cases p with
  | none => cases hp
  | some p =>
    have hr : p.reply = some (.array element) := hp
    have hstatus : reply2status (some p) = Status.of "ok" := by
      simp [reply2status, hr, replyStatus]
    unfold batchRead
    dsimp only
    rw [hstatus, hp, if_pos (by decide)]

/-- Nothing is read of an answer of any other kind. -/
theorem batchRead_other (hp : ∀ element, replyOf p ≠ some (.array element)) :
    batchRead keys p vals = .ok (reply2status p, vals) := by
  unfold batchRead
  dsimp only
  split
  · rename_i hok
    obtain ⟨reply, hr, -⟩ := reply2status_ok hok
    rw [hr]
    cases reply with
    | array element => exact absurd hr (hp element)
    | _ => rfl
  · rfl

theorem batchRead_aligned_iff (hp : Received p) :
    BatchAligned keys p vals (batchRead keys p vals) ↔
      ∀ element, replyOf p = some (.array element) → keys.keys.length ≤ element.length := by
  by_cases harray : ∃ element, replyOf p = some (.array element)
  · obtain ⟨element, he⟩ := harray
    have hcond : (∀ element', replyOf p = some (.array element') →
        keys.keys.length ≤ element'.length) ↔ keys.keys.length ≤ element.length := by
      constructor
      · intro h
        exact h element he
      · intro h element' he'
        obtain rfl : element = element' := by simpa using he.symm.trans he'
        exact h
    rw [hcond, batchRead_array he]
    rcases readElements_eq (i := 0) (hp element he) keys.nodup (Nat.zero_le _) with
      ⟨hle, vals', hread, ha⟩ | ⟨hgt, hread⟩
    · rw [hread]
      refine iff_of_true ⟨⟨_, vals', rfl⟩, fun element' status vals'' he' _ hr => ?_⟩
        (by simpa using hle)
      obtain rfl : element = element' := by simpa using he.symm.trans he'
      obtain ⟨-, rfl⟩ := Prod.mk.inj (Except.ok.inj hr)
      exact ha
    · rw [hread]
      refine iff_of_false (fun h => ?_) (by simpa using hgt)
      obtain ⟨status, vals', hr⟩ := h.safe
      cases hr
  · rw [not_exists] at harray
    rw [batchRead_other harray]
    exact iff_of_true ⟨⟨_, _, rfl⟩, fun element _ _ he => absurd he (harray element)⟩
      fun element he => absurd he (harray element)

end Answer

/-! ## Main theorem -/

/-- **Batch reads align keys with values** exactly if the answer is not an array
    with fewer elements than there are keys. -/
theorem batch_aligned_iff (answer : Sent → Option RedisReplyPack) (key : Bytes) (keys : KeySet)
    (vals : Vals) (h₁ : Received (answer (mget keys.keys)))
    (h₂ : Received (answer (hmget key keys.keys))) :
    (BatchAligned keys (answer (mget keys.keys)) vals (mgetRead answer keys vals) ↔
      ∀ element, replyOf (answer (mget keys.keys)) = some (.array element) →
        keys.keys.length ≤ element.length) ∧
    (BatchAligned keys (answer (hmget key keys.keys)) vals (hmgetRead answer key keys vals) ↔
      ∀ element, replyOf (answer (hmget key keys.keys)) = some (.array element) →
        keys.keys.length ≤ element.length) :=
  ⟨batchRead_aligned_iff h₁, batchRead_aligned_iff h₂⟩

/-- The keys `a` and `b`. -/
def twoKeys : KeySet := ⟨[[97], [98]], by decide⟩

/-- An answer with one element. -/
def truncated (_ : Sent) : Option RedisReplyPack :=
  some ⟨some (.array [.string [49]]), ⟨0, [], [], 6379⟩⟩

theorem received_truncated (sent : Sent) : Received (truncated sent) := by
  intro element h
  obtain rfl : [.string [49]] = element := by simpa [replyOf, truncated] using h
  decide

theorem batch_aligned_iff_truncated :
    (BatchAligned twoKeys (truncated (mget twoKeys.keys)) (fun _ => none)
        (mgetRead truncated twoKeys fun _ => none) ↔
      ∀ element, replyOf (truncated (mget twoKeys.keys)) = some (.array element) →
        2 ≤ element.length) ∧
    (BatchAligned twoKeys (truncated (hmget [107] twoKeys.keys)) (fun _ => none)
        (hmgetRead truncated [107] twoKeys fun _ => none) ↔
      ∀ element, replyOf (truncated (hmget [107] twoKeys.keys)) = some (.array element) →
        2 ≤ element.length) :=
  batch_aligned_iff truncated [107] twoKeys (fun _ => none) (received_truncated _)
    (received_truncated _)

/-- `mget` reads an element that the answer does not have. -/
theorem mget_truncated :
    mgetRead truncated twoKeys (fun _ => none) = .error .outside ∧
      hmgetRead truncated [107] twoKeys (fun _ => none) = .error .outside ∧
      ¬BatchAligned twoKeys (truncated (mget twoKeys.keys)) (fun _ => none)
        (mgetRead truncated twoKeys fun _ => none) := by
  have hread : mgetRead truncated twoKeys (fun _ => none) = .error .outside := rfl
  refine ⟨hread, rfl, fun h => ?_⟩
  obtain ⟨status, vals', hr⟩ := h.safe
  rw [hread] at hr
  cases hr

end Hiredispool.Client
