import Hiredispool.Hiredis.Reader
import Hiredispool.Lib.Incremental

/-!
# The reader as an incremental parser

The reader looks at its unread bytes only, and never behind what it needs. So it is an
incremental parser in the sense of `Lib/Incremental`: a step that is finished, or that has
gone wrong, would have done the same with any more bytes behind its input.

```
while (r->ridx >= 0)
    if (processItem(r) != REDIS_OK)
        break;
```

* `seekNewline_eq`: below 2^31 bytes the `int` of `seekNewline` does no harm.
* `processItem_local`: an item is finished, or waits in a state from which it goes on
  as if nothing had happened.
* `items`: the parser of an item after the other. It searches for newlines without
  the `int` of `seekNewline`, so its laws hold for any number of bytes.
-/

namespace Hiredispool.Hiredis

open Hiredispool.Pool
open Hiredispool.Client (toInt isDigit)

/-! ## Newlines and numbers -/

/-- A line end is within the bytes. -/
theorem crlf_lt {s : Bytes} {n : ℕ} (h : crlf s = some n) : n + 2 ≤ s.length := by
  induction s using crlf.induct generalizing n with
  | case1 => cases h
  | case2 => cases h
  | case3 c d s hcd =>
    rw [crlf, if_pos hcd] at h
    cases h
    simp
  | case4 c d s hcd ih =>
    rw [crlf, if_neg hcd] at h
    obtain ⟨m, hm, rfl⟩ := Option.map_eq_some_iff.mp h
    have := ih hm
    simp only [List.length_cons] at this ⊢
    omega

/-- The first line end is the same, whatever comes behind it. -/
theorem crlf_append {s : Bytes} {n : ℕ} (h : crlf s = some n) (v : Bytes) :
    crlf (s ++ v) = some n := by
  induction s using crlf.induct generalizing n with
  | case1 => cases h
  | case2 => cases h
  | case3 c d s hcd =>
    rw [crlf, if_pos hcd] at h
    rw [List.cons_append, List.cons_append, crlf, if_pos hcd, h]
  | case4 c d s hcd ih =>
    rw [crlf, if_neg hcd] at h
    obtain ⟨m, hm, rfl⟩ := Option.map_eq_some_iff.mp h
    rw [List.cons_append, List.cons_append, crlf, if_neg hcd, ← List.cons_append, ih hm]
    rfl

/-- Where there is a line end, `readLongLong` comes to a `\r`. -/
theorem mem_of_crlf {s : Bytes} {n : ℕ} (h : crlf s = some n) : 13 ∈ s := by
  induction s using crlf.induct generalizing n with
  | case1 => cases h
  | case2 => cases h
  | case3 c d s hcd => rw [hcd.1]; exact List.mem_cons_self
  | case4 c d s hcd ih =>
    rw [crlf, if_neg hcd] at h
    obtain ⟨m, hm, rfl⟩ := Option.map_eq_some_iff.mp h
    exact List.mem_cons_of_mem c (ih hm)

/-- Below 2^31 bytes the `int` of `seekNewline` holds the length. -/
theorem seekNewline_eq {s : Bytes} (h : s.length ≤ 2147483648) : seekNewline s = crlf s := by
  have hint : toInt ((s.length : ℤ) - 1) = s.length - 1 := by
    unfold toInt
    rw [Int.bmod_def]
    omega
  unfold seekNewline
  rw [hint, List.take_of_length_le (by omega)]

/-- The digits up to a `\r` do not depend on what comes behind it. -/
theorem readDigits_append {s : Bytes} (h : 13 ∈ s) (v : Bytes) (x : ℤ) :
    readDigits (s ++ v) x = readDigits s x := by
  induction s generalizing x with
  | nil => cases h
  | cons c s ih =>
    rw [List.cons_append, readDigits, readDigits]
    by_cases hc : c = 13
    · rw [if_pos hc, if_pos hc]
    · have hs : 13 ∈ s := (List.mem_cons.mp h).resolve_left fun h' => hc h'.symm
      simp only [ih hs]

/-- A number is read from its line alone. -/
theorem readLongLong_append {s : Bytes} (h : 13 ∈ s) (v : Bytes) :
    readLongLong (s ++ v) = readLongLong s := by
  have hsigned : ∀ (t : Bytes) (mult : ℤ), 13 ∈ t →
      readSigned mult (t ++ v) = readSigned mult t := by
    intro t mult ht
    rw [readSigned, readSigned, readDigits_append ht]
  cases s with
  | nil => cases h
  | cons c t =>
    rw [List.cons_append]
    by_cases h45 : c = 45
    · subst h45
      exact hsigned t (-1) ((List.mem_cons.mp h).resolve_left (by decide))
    · by_cases h43 : c = 43
      · subst h43
        exact hsigned t 1 ((List.mem_cons.mp h).resolve_left (by decide))
      · have hsame : ∀ t : Bytes, readLongLong (c :: t) = readSigned 1 (c :: t) := by
          intro t
          unfold readLongLong
          split
          · next he => exact absurd (List.cons.inj he).1 h45
          · next he => exact absurd (List.cons.inj he).1 h43
          · rfl
        rw [hsame, hsame, ← List.cons_append]
        exact hsigned (c :: t) 1 h

/-! ## Items -/

/-- An item that is finished, within `len` bytes. -/
def ItemResult.Done (len : ℕ) : ItemResult → Prop
  | .ok _ _ n => 0 < n ∧ n ≤ len
  | .more _ _ => False
  | _ => True

/-- `f` is finished on `p`, whatever comes behind `p`. -/
structure Settled (f : Bytes → ItemResult) (p : Bytes) : Prop where
  done : (f p).Done p.length
  same : ∀ v, f (p ++ v) = f p

/-- A complete object consumes the bytes of its item, and no more. -/
theorem createObject_done (obj : ReplyObject) (cur : ReadTask) (below : List ReadTask) {n len : ℕ}
    (hn : 0 < n) (hle : n ≤ len) : (createObject obj cur below n).Done len := by
  unfold createObject
  split
  · exact ⟨hn, hle⟩
  · trivial

section Typed

variable (cur : ReadTask) (below : List ReadTask) (p : Bytes)

/-- The object of a line is made of this line alone. -/
theorem lineObject_append (type : ItemType) {len : ℕ} (h : crlf p = some len) (v : Bytes) :
    lineObject type (p ++ v) len = lineObject type p len := by
  have hlt := crlf_lt h
  have htake : (p ++ v).take len = p.take len := List.take_append_of_le_length (by omega)
  have hread := readLongLong_append (mem_of_crlf h) v
  unfold lineObject
  rw [htake, hread]

/-- A status, an error or an integer waits for its line end (line 221) and changes nothing until
    it has come. -/
theorem processLineItem_local (type : ItemType) :
    processLineItem crlf type cur below p = .more (cur :: below) 0 ∨
      Settled (processLineItem crlf type cur below) p := by
  cases h : crlf p with
  | none => exact Or.inl (by rw [processLineItem, h])
  | some len =>
    have hlt := crlf_lt h
    refine Or.inr ⟨?_, fun v => ?_⟩
    · rw [processLineItem, h]
      dsimp only
      split
      · trivial
      · exact createObject_done _ _ _ (by omega) (by omega)
    · rw [processLineItem, processLineItem, crlf_append h, h]
      simp only [lineObject_append p type h]

/-- A string waits for its line, and then for all its bytes (line 274); it starts from the
    length again each time, for `pos` has not moved. -/
theorem processBulkItem_local :
    processBulkItem crlf cur below p = .more (cur :: below) 0 ∨
      Settled (processBulkItem crlf cur below) p := by
  cases h : crlf p with
  | none => exact Or.inl (by rw [processBulkItem, h])
  | some s =>
    have hlt := crlf_lt h
    have hlong := readLongLong_append (mem_of_crlf h)
    cases hread : readLongLong p with
    | none =>
      refine Or.inr ⟨?_, fun v => ?_⟩
      · simp only [processBulkItem, h, hread]
        trivial
      · simp only [processBulkItem, crlf_append h, h, hlong, hread]
    | some len =>
      by_cases hneg : len < 0
      · refine Or.inr ⟨?_, fun v => ?_⟩
        · simp only [processBulkItem, h, hread, if_pos hneg]
          exact createObject_done _ _ _ (by omega) hlt
        · simp only [processBulkItem, crlf_append h, h, hlong, hread, if_pos hneg]
      by_cases hlen : CInt.checkLong (len + 2) = none
      · refine Or.inr ⟨?_, fun v => ?_⟩
        · simp only [processBulkItem, h, hread, if_neg hneg, if_pos hlen]
          trivial
        · simp only [processBulkItem, crlf_append h, h, hlong, hread, if_neg hneg, if_pos hlen]
      · by_cases hfit : s + 2 + (len.toNat + 2) ≤ p.length
        · refine Or.inr ⟨?_, fun v => ?_⟩
          · simp only [processBulkItem, h, hread, if_neg hneg, if_neg hlen, if_pos hfit]
            exact createObject_done _ _ _ (by omega) hfit
          · have hfit' : s + 2 + (len.toNat + 2) ≤ (p ++ v).length := by
              rw [List.length_append]
              omega
            have hdata : ((p ++ v).drop (s + 2)).take len.toNat =
                (p.drop (s + 2)).take len.toNat := by
              rw [List.drop_append_of_le_length hlt, List.take_append_of_le_length]
              rw [List.length_drop]
              omega
            simp only [processBulkItem, crlf_append h, h, hlong, hread, if_neg hneg, if_neg hlen,
              if_pos hfit, if_pos hfit', hdata]
        · -- the bytes of the string are not all there
          left
          simp only [processBulkItem, h, hread, if_neg hneg, if_neg hlen, if_neg hfit]

/-- A count waits for its line end. That the array is too deep is known before that. -/
theorem processMultiBulkItem_local :
    processMultiBulkItem crlf cur below p = .more (cur :: below) 0 ∨
      Settled (processMultiBulkItem crlf cur below) p := by
  by_cases hdeep : below.length = 8
  · refine Or.inr ⟨?_, fun v => ?_⟩
    · rw [processMultiBulkItem, if_pos hdeep]
      trivial
    · rw [processMultiBulkItem, processMultiBulkItem, if_pos hdeep, if_pos hdeep]
  · cases h : crlf p with
    | none => exact Or.inl (by rw [processMultiBulkItem, if_neg hdeep, h])
    | some len =>
      have hlt := crlf_lt h
      refine Or.inr ⟨?_, fun v => ?_⟩
      · rw [processMultiBulkItem, if_neg hdeep, h]
        dsimp only
        split
        · trivial
        · split
          · exact createObject_done _ _ _ (by omega) hlt
          · split
            · split
              · exact ⟨by omega, hlt⟩
              · trivial
            · exact createObject_done _ _ _ (by omega) hlt
      · rw [processMultiBulkItem, processMultiBulkItem, if_neg hdeep, if_neg hdeep, crlf_append h,
          h]
        simp only [readLongLong_append (mem_of_crlf h)]

/-- Any of the three. -/
theorem processTypedItem_local (type : ItemType) :
    processTypedItem crlf type cur below p = .more (cur :: below) 0 ∨
      Settled (processTypedItem crlf type cur below) p := by
  cases type with
  | string => exact processBulkItem_local cur below p
  | array => exact processMultiBulkItem_local cur below p
  | integer => exact processLineItem_local cur below p .integer
  | status => exact processLineItem_local cur below p .status
  | error => exact processLineItem_local cur below p .error

end Typed

/-- An item that is finished without its type byte is so with it. -/
theorem Settled.behind {f : Bytes → ItemResult} {p : Bytes} (h : Settled f p) (c : UInt8) :
    ((f p).behind 1).Done (c :: p).length := by
  have hdone := h.done
  cases hf : f p with
  | ok rstack reply n =>
    rw [hf] at hdone
    obtain ⟨h0, hle⟩ := hdone
    rw [List.length_cons]
    exact ⟨by omega, by omega⟩
  | more rstack n => rw [hf] at hdone; exact hdone.elim
  | error err errstr => trivial
  | undefined => trivial

/-- **An item is finished, or waits in a state from which it goes on as if nothing had
    happened.** -/
theorem processItem_local (cur : ReadTask) (below : List ReadTask) (p : Bytes) :
    (∃ cur' n, n ≤ p.length ∧ processItem crlf cur below p = .more (cur' :: below) n ∧
      ∀ v, processItem crlf cur below (p ++ v) =
        (processItem crlf cur' below (p.drop n ++ v)).behind n) ∨
      Settled (processItem crlf cur below) p := by
  have hzero : ∀ r : ItemResult, r.behind 0 = r := by
    intro r
    cases r <;> simp [ItemResult.behind]
  cases htype : cur.type with
  | some type =>
    have heq : processItem crlf cur below = processTypedItem crlf type cur below := by
      funext q
      simp only [processItem, htype]
    rcases processTypedItem_local cur below p type with hmore | hsettled
    · refine Or.inl ⟨cur, 0, Nat.zero_le _, by rw [heq, hmore], fun v => ?_⟩
      rw [List.drop_zero, hzero]
    · exact Or.inr (heq ▸ hsettled)
  | none =>
    cases p with
    | nil =>
      refine Or.inl ⟨cur, 0, le_rfl, by simp only [processItem, htype], fun v => ?_⟩
      rw [List.drop_zero, hzero]
    | cons c p =>
      cases hc : itemType c with
      | none =>
        refine Or.inr ⟨?_, fun v => ?_⟩
        · simp only [processItem, htype, hc]
          trivial
        · simp only [List.cons_append, processItem, htype, hc]
      | some type =>
        have heq : ∀ q, processItem crlf cur below (c :: q) =
            (processTypedItem crlf type { cur with type := some type } below q).behind 1 := by
          intro q
          simp only [processItem, htype, hc]
        rcases processTypedItem_local { cur with type := some type } below p type with
          hmore | hsettled
        · refine Or.inl ⟨{ cur with type := some type }, 1, by simp, ?_, fun v => ?_⟩
          · rw [heq, hmore]; rfl
          · rw [List.cons_append, heq]
            rfl
        · refine Or.inr ⟨?_, fun v => ?_⟩
          · rw [heq]
            exact hsettled.behind c
          · rw [List.cons_append, heq, heq, hsettled.same v]

/-! ## The parser -/

/-- Why nothing more comes: `__redisReaderSetError` has been called, or C gives no meaning. -/
inductive Stop
  | error (err : ℤ) (errstr : Bytes)
  | undefined

/-- The current task and those below it; a reply is followed by the next one. -/
def start : List ReadTask → ReadTask × List ReadTask
  | [] => (newTask (-1), [])
  | cur :: below => (cur, below)

/-- The result of an item as a step of a parser: the bytes that it has consumed are gone, and a
    reply leaves a fresh root task (lines 491–499). -/
def ItemResult.toStep (u : Bytes) :
    ItemResult → Incremental.Step (ReadTask × List ReadTask) UInt8 ReplyObject Stop
  | .ok rstack reply n => .advance (start rstack) (u.drop n) reply
  | .more rstack n => .wait (start rstack) (u.drop n)
  | .error err errstr => .stop (.error err errstr)
  | .undefined => .stop .undefined

/-- The type byte is read first: then the step is that on the bytes behind it. -/
theorem ItemResult.toStep_behind (u : Bytes) (k : ℕ) (r : ItemResult) :
    (r.behind k).toStep u = r.toStep (u.drop k) := by
  cases r <;> simp [ItemResult.behind, ItemResult.toStep, List.drop_drop]

/-- `processItem`, on any number of bytes. The laws of an incremental parser are those of
    `processItem_local`. -/
def items : Incremental.Parser (ReadTask × List ReadTask) UInt8 ReplyObject Stop :=
  .ofLocal (fun s u => (processItem crlf s.1 s.2 u).toStep u) <| by
    intro s u
    rcases processItem_local s.1 s.2 u with ⟨cur', n, hle, hmore, hwait⟩ | ⟨hdone, hsame⟩
    · left
      refine ⟨(cur', s.2), u.drop n, by rw [hmore]; rfl, fun v => ?_⟩
      rw [hwait v, ItemResult.toStep_behind, List.drop_append_of_le_length hle]
    · right
      cases hr : processItem crlf s.1 s.2 u with
      | ok rstack reply n =>
        rw [hr] at hdone
        obtain ⟨h0, hle⟩ := hdone
        refine ⟨?_, fun v => ?_⟩
        · show (u.drop n).length < u.length
          rw [List.length_drop]
          omega
        · rw [hsame v, hr, ItemResult.toStep, List.drop_append_of_le_length hle]
          rfl
      | more rstack n => rw [hr] at hdone; exact hdone.elim
      | error err errstr => exact ⟨trivial, fun v => by rw [hsame v, hr]; rfl⟩
      | undefined => exact ⟨trivial, fun v => by rw [hsame v, hr]; rfl⟩

end Hiredispool.Hiredis
