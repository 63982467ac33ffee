import Hiredispool.Hiredis.Stream

/-!
# Feeding and fetching

A run of a reader (`read.c`, lines 416–525): bytes are fed in any pieces, and replies are
fetched at any time. The library's laws of incremental parsers say that the cuts do not
matter; what is left to be shown is that `redisReaderGetReply` with its buffer, position and
task stack does no more than fetch the next result of `items`.

* `getReply_spec`: one call fetches the next of the results that are to come.
* `Run.sound`: between two calls the stack is within `rstack[9]`, the position within the
  buffer, and the replies so far with those to come are those of the whole input.
* `Run.fetched`: **the replies do not depend on how the bytes are cut and when the
  replies are fetched.**

From 2^31 bytes on the `int` of `seekNewline` is short, so what is said of a call holds for
buffers below that.
-/

namespace Hiredispool.Hiredis

open Hiredispool.Pool
open Hiredispool.Client (toInt)

/-! ## `int` -/

/-- A number below 2^31 is not changed when it is cut to an `int`. -/
theorem toInt_natCast {n : ℕ} (h : n < 2147483648) : toInt n = n := by
  unfold toInt
  rw [Int.bmod_def]
  omega

/-- `sdsrange(s, pos, -1)` (`sds.c`, lines 712–738) leaves the bytes from `pos` on: `-1` is the
    last of them. -/
theorem sdsrange_drop {s : Bytes} {pos : ℕ} (hpos : pos ≤ s.length) (hlen : s.length < 2147483648) :
    sdsrange s pos (-1) = some (s.drop pos) := by
  unfold sdsrange
  by_cases h0 : s.length = 0
  · have hs := List.eq_nil_of_length_eq_zero h0
    rw [if_pos h0, hs, List.drop_nil]
  · have hstop : toInt ((s.length : ℤ) + -1) = (s.length - 1 : ℕ) := by
      rw [← toInt_natCast (by omega : s.length - 1 < 2147483648)]
      congr 1
      omega
    rw [if_neg h0]
    simp only [Int.reduceNeg, Int.neg_neg_iff_pos, Int.reduceLT, if_true, hstop,
      if_neg (by omega : ¬(pos : ℤ) < 0), toInt_natCast hlen]
    rw [max_eq_left (by omega)]
    by_cases hend : pos = s.length
    · rw [if_pos (by omega), hend, List.drop_length]
      rfl
    · have hnew : CInt.add (((s.length - 1 : ℕ) : ℤ) - pos) 1 = some ((s.length - pos : ℕ) : ℤ) := by
        unfold CInt.add CInt.check CInt.minInt CInt.maxInt
        rw [if_pos (by omega)]
        congr 1
        omega
      rw [if_neg (by omega), hnew, Option.bind_some, if_neg (by omega), if_neg (by omega),
        if_neg (by omega), Int.toNat_natCast, Int.toNat_natCast, ← List.length_drop,
        List.take_length]

/-- On at most 2^31 bytes, `processItem` of the reader is that of `items`. -/
theorem processItem_seekNewline (cur : ReadTask) (below : List ReadTask) {p : Bytes}
    (h : p.length ≤ 2147483648) :
    processItem seekNewline cur below p = processItem crlf cur below p := by
  have htyped : ∀ (type : ItemType) (cur : ReadTask) {q : Bytes}, q.length ≤ 2147483648 →
      processTypedItem seekNewline type cur below q = processTypedItem crlf type cur below q := by
    intro type cur q hq
    cases type <;>
      simp only [processTypedItem, processLineItem, processBulkItem, processMultiBulkItem,
        seekNewline_eq hq]
  unfold processItem
  cases cur.type with
  | some type => exact htyped type cur h
  | none =>
    cases p with
    | nil => rfl
    | cons c p =>
      rw [List.length_cons] at h
      simp only [htyped _ _ (by omega : p.length ≤ 2147483648)]

/-! ## The task stack -/

/-- What an item leaves: a stack within `rstack[9]`, which is empty if there is a reply, and no
    array in the last place (line 309). The only error is `REDIS_ERR_PROTOCOL`, which is 4. -/
def ItemResult.Coherent : ItemResult → Prop
  | .ok rstack reply _ => rstack.length ≤ 9 ∧ (rstack = [] ↔ reply ≠ none) ∧
      ∀ cur below, rstack = cur :: below → cur.type = none
  | .more rstack _ => ∃ cur below, rstack = cur :: below ∧ below.length ≤ 8 ∧
      (below.length = 8 → cur.type ≠ some .array)
  | .error err _ => err = 4
  | .undefined => True

/-- By induction on the stack: what is complete is taken from it, and the next element has no
    type yet. -/
theorem moveToNextTask_coherent (obj : ReplyObject) (cur : ReadTask) (below : List ReadTask)
    (h : below.length ≤ 8) (n : ℕ) :
    ItemResult.Coherent (.ok (moveToNextTask obj cur below).1 (moveToNextTask obj cur below).2 n) := by
  induction below generalizing obj cur with
  | nil => exact ⟨by simp [moveToNextTask], by simp [moveToNextTask], by simp [moveToNextTask]⟩
  | cons prv below ih =>
    rw [List.length_cons] at h
    rw [moveToNextTask]
    split
    · exact ih _ _ (by omega)
    · refine ⟨by simp only [List.length_cons]; omega, by simp, ?_⟩
      rintro cur' below' ⟨⟩
      rfl

/-- So with an object that has been made. -/
theorem createObject_coherent (obj : ReplyObject) (cur : ReadTask) (below : List ReadTask)
    (h : below.length ≤ 8) (n : ℕ) : (createObject obj cur below n).Coherent := by
  unfold createObject
  split
  · exact moveToNextTask_coherent obj cur below h n
  · trivial

/-- The type byte does not matter for it. -/
theorem ItemResult.Coherent.behind {r : ItemResult} (h : r.Coherent) (k : ℕ) :
    (r.behind k).Coherent := by
  cases r <;> exact h

/-- The one place where the stack grows is an array with elements, and at `ridx == 8` there is
    an error instead (lines 309–315). -/
theorem processTypedItem_coherent (type : ItemType) (cur : ReadTask) (below : List ReadTask)
    (p : Bytes) (h : below.length ≤ 8) (hcur : cur.type = some type) :
    (processTypedItem crlf type cur below p).Coherent := by
  have hmore : type ≠ .array → ItemResult.Coherent (.more (cur :: below) 0) := by
    intro htype
    exact ⟨cur, below, rfl, h, fun _ he => htype (Option.some.inj (hcur.symm.trans he))⟩
  have hline : type ≠ .array → (processLineItem crlf type cur below p).Coherent := by
    intro htype
    unfold processLineItem
    split
    · exact hmore htype
    · split
      · trivial
      · exact createObject_coherent _ _ _ h _
  cases type with
  | integer => exact hline (by decide)
  | status => exact hline (by decide)
  | error => exact hline (by decide)
  | string =>
    show (processBulkItem crlf cur below p).Coherent
    unfold processBulkItem
    split
    · exact hmore (by decide)
    · split
      · trivial
      · split
        · exact createObject_coherent _ _ _ h _
        · split
          · trivial
          · dsimp only
            split
            · exact createObject_coherent _ _ _ h _
            · exact hmore (by decide)
  | array =>
    show (processMultiBulkItem crlf cur below p).Coherent
    unfold processMultiBulkItem
    split
    · rfl
    · next hdeep =>
      split
      · exact ⟨cur, below, rfl, h, fun he => absurd he hdeep⟩
      · split
        · trivial
        · split
          · exact createObject_coherent _ _ _ h _
          · split
            · split
              · -- the first element of the array
                refine ⟨by simp only [List.length_cons]; omega, by simp, ?_⟩
                rintro cur' below' ⟨⟩
                rfl
              · trivial
            · exact createObject_coherent _ _ _ h _

/-- **No item writes behind `rstack[8]`.** -/
theorem processItem_coherent (cur : ReadTask) (below : List ReadTask) (p : Bytes)
    (h : below.length ≤ 8) : (processItem crlf cur below p).Coherent := by
  unfold processItem
  cases hcur : cur.type with
  | some type => exact processTypedItem_coherent type cur below p h hcur
  | none =>
    cases p with
    | nil => exact ⟨cur, below, rfl, h, fun _ he => by rw [hcur] at he; cases he⟩
    | cons c p =>
      dsimp only
      split
      · rfl
      · exact (processTypedItem_coherent _ _ _ _ h rfl).behind 1

/-! ## `redisReaderGetReply` -/

namespace RedisReader

/-- What the loop of `redisReaderGetReply` makes of the first result of `items`. -/
inductive Processed (r : RedisReader) :
    Incremental.Step (ReadTask × List ReadTask) UInt8 ReplyObject Stop → Option RedisReader → Prop
  | reply (obj : ReplyObject) {n : ℕ} (h : r.pos + n ≤ r.buf.length) :
    Processed r (.advance (newTask (-1), []) (r.buf.drop (r.pos + n)) (some obj))
      (some { r with rstack := [], reply := some obj, pos := r.pos + n })
  | wait (cur : ReadTask) (below : List ReadTask) {n : ℕ} (h : r.pos + n ≤ r.buf.length)
      (hbelow : below.length ≤ 8) (hdeep : below.length = 8 → cur.type ≠ some .array) :
    Processed r (.wait (cur, below) (r.buf.drop (r.pos + n)))
      (some { r with rstack := cur :: below, pos := r.pos + n })
  | error (errstr : Bytes) :
    Processed r (.stop (.error 4 errstr)) (some (r.setError 4 errstr))
  | undefined : Processed r (.stop .undefined) none

/-- What holds of the loop after an item holds of it before. -/
theorem Processed.of_behind {r : RedisReader} (rstack : List ReadTask) {k : ℕ}
    {step : Incremental.Step (ReadTask × List ReadTask) UInt8 ReplyObject Stop}
    {result : Option RedisReader}
    (h : Processed { r with rstack := rstack, pos := r.pos + k } step result) :
    Processed r step result := by
  cases h with
  | @reply obj n h =>
    simp only [Nat.add_assoc] at h ⊢
    exact .reply obj h
  | @wait cur below n h hbelow hdeep =>
    simp only [Nat.add_assoc] at h ⊢
    exact .wait cur below h hbelow hdeep
  | error errstr => exact .error errstr
  | undefined => exact .undefined

/-- By induction on the iterations: **the loop stops where `items` has its next result.** -/
theorem processItems_spec {fuel : ℕ} {r : RedisReader} {cur : ReadTask} {below : List ReadTask}
    (hpos : r.pos ≤ r.buf.length) (hreply : r.reply = none) (hstack : r.rstack = cur :: below)
    (hbelow : below.length ≤ 8) (hlen : r.buf.length ≤ 2147483648)
    (hfuel : r.unread.length < fuel) :
    Processed r (items.next (cur, below) r.unread) (processItems fuel r) := by
  induction fuel generalizing r cur below with
  | zero => exact absurd hfuel (Nat.not_lt_zero _)
  | succ fuel ih =>
    have hunread : r.unread.length = r.buf.length - r.pos := List.length_drop
    have hsame := processItem_seekNewline cur below (by omega : r.unread.length ≤ 2147483648)
    have hstep : items.step (cur, below) r.unread =
        (processItem crlf cur below r.unread).toStep r.unread := rfl
    have hcoherent := processItem_coherent cur below r.unread hbelow
    have hlocal := processItem_local cur below r.unread
    rw [processItems, hstack]
    dsimp only
    rw [hsame]
    cases hitem : processItem crlf cur below r.unread with
    | ok rstack reply n =>
      rw [hitem] at hstep hcoherent hlocal
      obtain ⟨hstack_le, hempty, -⟩ := hcoherent
      have hn : 0 < n ∧ n ≤ r.unread.length := by
        rcases hlocal with ⟨cur', n', -, hmore, -⟩ | ⟨hdone, -⟩
        · cases hmore
        · rwa [hitem] at hdone
      have hdrop : r.unread.drop n = r.buf.drop (r.pos + n) := List.drop_drop
      cases rstack with
      | nil =>
        obtain ⟨obj, rfl⟩ := Option.ne_none_iff_exists'.mp (hempty.mp rfl)
        have hnext := Incremental.Parser.next_eq_step (p := items) (s := (cur, below))
          (u := r.unread) (by rw [hstep]; intro _ _ h; cases h)
        rw [hnext, hstep, ItemResult.toStep, hdrop]
        have hrun : ∀ fuel, processItems fuel { r with
            rstack := [], reply := some obj <|> r.reply, pos := r.pos + n } =
            some { r with rstack := [], reply := some obj, pos := r.pos + n } := by
          intro fuel
          cases fuel <;> rfl
        dsimp only
        rw [hrun]
        exact .reply obj (by omega)
      | cons cur' below' =>
        have hnone : reply = none := by
          by_contra hne
          exact List.cons_ne_nil _ _ (hempty.mpr hne)
        subst hnone
        have hnext := Incremental.Parser.next_silent (p := items) hstep
        rw [hnext, hdrop]
        have hor : (none <|> r.reply : Option ReplyObject) = r.reply := rfl
        dsimp only
        rw [hor]
        refine Processed.of_behind (cur' :: below') (ih ?_ hreply rfl ?_ hlen ?_)
        · show r.pos + n ≤ r.buf.length
          omega
        · rw [List.length_cons] at hstack_le
          omega
        · show (r.buf.drop (r.pos + n)).length < fuel
          rw [List.length_drop]
          omega
    | more rstack n =>
      rw [hitem] at hstep hcoherent hlocal
      have hn : n ≤ r.unread.length := by
        rcases hlocal with ⟨cur', n', hle, hmore, -⟩ | ⟨hdone, -⟩
        · cases hmore
          exact hle
        · rw [hitem] at hdone
          exact hdone.elim
      have hfit : r.pos + n ≤ r.buf.length := by omega
      obtain ⟨cur', below', rfl, hbelow', hdeep⟩ := hcoherent
      have hdrop : r.unread.drop n = r.buf.drop (r.pos + n) := List.drop_drop
      rw [Incremental.Parser.next_eq_step (by rw [hstep]; intro _ _ h; cases h), hstep,
        ItemResult.toStep, hdrop]
      exact .wait cur' below' hfit hbelow' hdeep
    | error err errstr =>
      rw [hitem] at hstep hcoherent
      obtain rfl : err = 4 := hcoherent
      rw [Incremental.Parser.next_eq_step (by rw [hstep]; intro _ _ h; cases h), hstep]
      exact .error errstr
    | undefined =>
      rw [hitem] at hstep
      rw [Incremental.Parser.next_eq_step (by rw [hstep]; intro _ _ h; cases h), hstep]
      exact .undefined

/-- A reader between two calls. No reply is left in it, for line 522 takes it out. -/
structure Sound (r : RedisReader) : Prop where
  pos_le : r.pos ≤ r.buf.length
  stack_le : r.rstack.length ≤ 9
  reply : r.reply = none
  -- an array in the last place is an error as soon as its type byte is read
  deep : ∀ cur below, r.rstack = cur :: below → below.length = 8 → cur.type ≠ some .array

/-- A new reader is one. -/
theorem Sound.create : Sound create := ⟨le_rfl, Nat.zero_le _, rfl, by rintro _ _ ⟨⟩⟩

/-- So is one that has an error. -/
theorem Sound.setError (r : RedisReader) (err : ℤ) (errstr : Bytes) : Sound (r.setError err errstr) :=
  ⟨le_rfl, Nat.zero_le _, rfl, by rintro _ _ ⟨⟩⟩

/-- All results that are still to be had from what was fed, and where it ends. -/
def future (r : RedisReader) :
    List ReplyObject × ((ReadTask × List ReadTask) × Bytes ⊕ Stop) :=
  items.drain (start r.rstack) r.unread

/-- What `redisReaderGetReply` may do with a reader. -/
inductive Fetched (r : RedisReader) : Option (RedisReader × Bool × Option ReplyObject) → Prop
  | reply {r' : RedisReader} (obj : ReplyObject) (hr : Sound r') (herr : r'.err = 0)
      (h : r.future = (obj :: r'.future.1, r'.future.2)) : Fetched r (some (r', true, some obj))
  | nothing {r' : RedisReader} (hr : Sound r') (herr : r'.err = 0)
      (h : r.future = ([], .inl (start r'.rstack, r'.unread))) : Fetched r (some (r', true, none))
  | error (errstr : Bytes) (h : r.future = ([], .inr (.error 4 errstr))) :
    Fetched r (some (r.setError 4 errstr, false, none))
  | undefined (h : r.future = ([], .inr .undefined)) : Fetched r none

/-- Without input there is nothing to be had. -/
theorem step_nil {cur : ReadTask} {below : List ReadTask}
    (h : below.length = 8 → cur.type ≠ some .array) :
    items.step (cur, below) [] = .wait (cur, below) [] := by
  have hitem : processItem crlf cur below [] = .more (cur :: below) 0 := by
    unfold processItem
    cases hcur : cur.type with
    | none => rfl
    | some type =>
      cases type with
      | array => exact if_neg fun h8 => h h8 hcur
      | string => rfl
      | integer => rfl
      | status => rfl
      | error => rfl
  show (processItem crlf cur below []).toStep [] = _
  rw [hitem]
  rfl

/-- Discarding leaves the unread bytes as they are. -/
theorem discard_spec {r : RedisReader} (hpos : r.pos ≤ r.buf.length)
    (hlen : r.buf.length < 2147483648) :
    ∃ buf pos, r.discard = some { r with buf := buf, pos := pos } ∧ pos ≤ buf.length ∧
      buf.drop pos = r.unread := by
  unfold discard
  split
  · rw [toInt_natCast (by omega), sdsrange_drop hpos hlen]
    exact ⟨_, 0, rfl, Nat.zero_le _, rfl⟩
  · exact ⟨r.buf, r.pos, rfl, hpos, rfl⟩

/-- Lines 491–499: there is a current task. -/
theorem Sound.setRoot {r : RedisReader} (hr : Sound r) :
    ∃ cur below, start r.rstack = (cur, below) ∧
      r.setRoot = { r with rstack := cur :: below } ∧ below.length ≤ 8 := by
  have hle := hr.stack_le
  unfold RedisReader.setRoot
  cases hstack : r.rstack with
  | nil => exact ⟨newTask (-1), [], rfl, rfl, Nat.zero_le _⟩
  | cons cur below =>
    rw [hstack, List.length_cons] at hle
    refine ⟨cur, below, rfl, ?_, by omega⟩
    rw [← hstack, if_neg (by simp [hstack])]

/-- **One call fetches the next of the results that are to come.** -/
theorem getReply_spec {r : RedisReader} (hr : Sound r) (herr : r.err = 0)
    (hlen : r.buf.length < 2147483648) : Fetched r r.getReply := by
  unfold getReply
  rw [if_neg (by omega)]
  split
  · next hempty =>
    have hbuf := List.eq_nil_of_length_eq_zero hempty
    have hunread : r.unread = [] := by rw [unread, hbuf, List.drop_nil]
    refine .nothing hr herr ?_
    rw [future, hunread]
    apply Incremental.Parser.drain_wait
    cases hstack : r.rstack with
    | nil => exact step_nil (by decide)
    | cons cur below => exact step_nil (hr.deep cur below hstack)
  · obtain ⟨cur, below, hstart, hroot, hbelow⟩ := hr.setRoot
    have hfuture : r.future = items.drainAfter (items.next (cur, below) r.unread) := by
      rw [future, hstart, Incremental.Parser.drain_next]
    have hspec : Processed { r with rstack := cur :: below } (items.next (cur, below) r.unread)
        (processItems (r.buf.length + 1) { r with rstack := cur :: below }) := by
      refine processItems_spec hr.pos_le hr.reply rfl hbelow (le_of_lt hlen) ?_
      show (r.buf.drop r.pos).length < r.buf.length + 1
      rw [List.length_drop]
      omega
    rw [hroot]
    revert hspec hfuture
    generalize items.next (cur, below) r.unread = step
    generalize processItems (r.buf.length + 1) { r with rstack := cur :: below } = result
    intro hfuture hspec
    cases hspec with
    | @reply obj n h =>
      rw [Option.bind_some, if_neg (by simpa using herr)]
      obtain ⟨buf, pos, hdiscard, hpos, hunread⟩ := @discard_spec
        { r with rstack := [], reply := some obj, pos := r.pos + n } h hlen
      rw [hdiscard]
      refine .reply obj ⟨hpos, Nat.zero_le _, rfl, by rintro _ _ ⟨⟩⟩ herr ?_
      rw [hfuture, future]
      show _ = (obj :: (items.drain (newTask (-1), []) (buf.drop pos)).1,
        (items.drain (newTask (-1), []) (buf.drop pos)).2)
      rw [hunread]
      rfl
    | @wait cur' below' n h hbelow' hdeep =>
      rw [Option.bind_some, if_neg (by simpa using herr)]
      obtain ⟨buf, pos, hdiscard, hpos, hunread⟩ := @discard_spec
        { r with rstack := cur' :: below', pos := r.pos + n } h hlen
      rw [hdiscard]
      refine .nothing ⟨hpos, ?_, hr.reply, ?_⟩ herr ?_
      · show (cur' :: below').length ≤ 9
        rw [List.length_cons]
        omega
      · rintro _ _ ⟨⟩
        exact hdeep
      · rw [hfuture]
        show _ = (([] : List ReplyObject), Sum.inl ((cur', below'), buf.drop pos))
        rw [hunread]
        rfl
    | error errstr => exact .error errstr hfuture
    | undefined => exact .undefined hfuture

/-! ## Whole runs -/

/-- A reader after any feeds and fetches: what was fed, and the replies that came. -/
inductive Run : RedisReader → Bytes → List ReplyObject → Prop
  | create : Run create [] []
  | feed {r : RedisReader} {fed : Bytes} {got : List ReplyObject} (buf : Bytes) :
    Run r fed got → Run (r.feed buf).1 (fed ++ buf) got
  | getReply {r r' : RedisReader} {fed : Bytes} {got : List ReplyObject} {ok : Bool}
      {reply : Option ReplyObject} : Run r fed got → r.buf.length < 2147483648 →
    r.getReply = some (r', ok, reply) → Run r' fed (got ++ reply.toList)

/-- `sdsrange` keeps a part of the string. -/
theorem sdsrange_length_le {s t : Bytes} {start stop : ℤ} (h : sdsrange s start stop = some t) :
    t.length ≤ s.length := by
  have hpart : ∀ i n : ℕ, ((s.drop i).take n).length ≤ s.length := by
    intro i n
    rw [List.length_take, List.length_drop]
    omega
  unfold sdsrange at h
  split at h
  · obtain rfl := Option.some.inj h
    exact le_rfl
  dsimp only at h
  generalize (if start < 0 then _ else start) = start at h
  generalize (if stop < 0 then _ else stop) = stop at h
  obtain ⟨newlen, -, h⟩ := Option.bind_eq_some_iff.mp h
  split at h
  · obtain rfl := Option.some.inj h
    exact Nat.zero_le _
  split at h
  · obtain rfl := Option.some.inj h
    exact Nat.zero_le _
  split at h
  · obtain ⟨newlen', -, rfl⟩ := Option.map_eq_some_iff.mp h
    exact hpart _ _
  · obtain rfl := Option.some.inj h
    exact hpart _ _

/-- The loop moves the position and leaves the buffer, or an error throws it away. -/
theorem processItems_buf_le {fuel : ℕ} {r r' : RedisReader} (h : processItems fuel r = some r') :
    r'.buf.length ≤ r.buf.length := by
  induction fuel generalizing r with
  | zero =>
    obtain rfl := Option.some.inj h
    exact le_rfl
  | succ fuel ih =>
    rw [processItems] at h
    split at h
    · obtain rfl := Option.some.inj h
      exact le_rfl
    · split at h
      · have hle := ih h
        exact hle
      · obtain rfl := Option.some.inj h
        exact le_rfl
      · obtain rfl := Option.some.inj h
        exact Nat.zero_le _
      · cases h

/-- The buffer does not grow when replies are fetched. -/
theorem getReply_buf_le {r r' : RedisReader} {ok : Bool} {reply : Option ReplyObject}
    (h : r.getReply = some (r', ok, reply)) : r'.buf.length ≤ r.buf.length := by
  unfold getReply at h
  split at h
  · obtain ⟨rfl, -⟩ := Prod.mk.inj (Option.some.inj h)
    exact le_rfl
  split at h
  · obtain ⟨rfl, -⟩ := Prod.mk.inj (Option.some.inj h)
    exact le_rfl
  obtain ⟨r₁, hitems, h⟩ := Option.bind_eq_some_iff.mp h
  have hle : r₁.buf.length ≤ r.buf.length := by
    have := processItems_buf_le hitems
    rwa [show r.setRoot.buf = r.buf by unfold setRoot; split <;> rfl] at this
  split at h
  · obtain ⟨rfl, -⟩ := Prod.mk.inj (Option.some.inj h)
    exact hle
  · obtain ⟨r₂, hdiscard, h⟩ := Option.map_eq_some_iff.mp h
    have hle₂ : r₂.buf.length ≤ r₁.buf.length := by
      unfold discard at hdiscard
      split at hdiscard
      · obtain ⟨buf, hrange, rfl⟩ := Option.map_eq_some_iff.mp hdiscard
        exact sdsrange_length_le hrange
      · obtain rfl := Option.some.inj hdiscard
        exact le_rfl
    split at h <;> obtain ⟨rfl, -⟩ := Prod.mk.inj h <;> exact hle₂.trans hle

/-- There is never more in the buffer than has been fed. -/
theorem Run.buf_le {r : RedisReader} {fed : Bytes} {got : List ReplyObject} (h : Run r fed got) :
    r.buf.length ≤ fed.length := by
  induction h with
  | create => exact le_rfl
  | @feed r fed got buf _ ih =>
    rw [List.length_append]
    unfold RedisReader.feed
    split
    · exact ih.trans (Nat.le_add_right _ _)
    · show (r.buf ++ buf).length ≤ _
      rw [List.length_append]
      omega
  | getReply _ _ hget ih => exact (getReply_buf_le hget).trans ih

/-- What the whole of the input `fed` gives. -/
def replies (fed : Bytes) : List ReplyObject × ((ReadTask × List ReadTask) × Bytes ⊕ Stop) :=
  items.drain (newTask (-1), []) fed

/-- The replies so far and those to come, or those before the error. -/
def Accounted (r : RedisReader) (fed : Bytes) (got : List ReplyObject) : Prop :=
  r.err = 0 ∧ replies fed = (got ++ r.future.1, r.future.2) ∨
    ∃ errstr, r = create.setError 4 errstr ∧ replies fed = (got, .inr (.error 4 errstr))

/-- What is fed goes behind what is unread. -/
theorem feed_spec {r : RedisReader} (hr : Sound r) (herr : r.err = 0) (buf : Bytes) :
    Sound (r.feed buf).1 ∧ (r.feed buf).1.err = 0 ∧
      (r.feed buf).1.future = items.drain (start r.rstack) (r.unread ++ buf) := by
  have hfeed : r.feed buf = ({ r with buf := r.buf ++ buf }, true) := if_neg (by omega)
  rw [hfeed]
  refine ⟨⟨?_, hr.stack_le, hr.reply, hr.deep⟩, herr, ?_⟩
  · show r.pos ≤ (r.buf ++ buf).length
    rw [List.length_append]
    exact Nat.le_add_right_of_le hr.pos_le
  · show items.drain (start r.rstack) ((r.buf ++ buf).drop r.pos) = _
    rw [List.drop_append_of_le_length hr.pos_le]
    rfl

/-- **The reader between two calls of any run.** -/
theorem Run.sound {r : RedisReader} {fed : Bytes} {got : List ReplyObject} (h : Run r fed got) :
    Sound r ∧ Accounted r fed got := by
  induction h with
  | create => exact ⟨.create, Or.inl ⟨rfl, rfl⟩⟩
  | @feed r fed got buf _ ih =>
    obtain ⟨hr, ⟨herr, hall⟩ | ⟨errstr, rfl, hall⟩⟩ := ih
    · obtain ⟨hr', herr', hfuture⟩ := feed_spec hr herr buf
      refine ⟨hr', Or.inl ⟨herr', ?_⟩⟩
      rw [hfuture]
      exact Incremental.Parser.drain_append_of_eq hall buf
    · refine ⟨hr, Or.inr ⟨errstr, rfl, ?_⟩⟩
      have hstop : (replies fed).2 = .inr (.error 4 errstr) := by rw [hall]
      rw [replies, Incremental.Parser.drain_append_of_stop hstop]
      exact hall
  | @getReply r r' fed got ok reply _ hlen hget ih =>
    obtain ⟨hr, ⟨herr, hall⟩ | ⟨errstr, rfl, hall⟩⟩ := ih
    · have hspec := getReply_spec hr herr hlen
      rw [hget] at hspec
      cases hspec with
      | reply obj hr' herr' h =>
        refine ⟨hr', Or.inl ⟨herr', ?_⟩⟩
        rw [hall, h]
        simp
      | nothing hr' herr' h =>
        refine ⟨hr', Or.inl ⟨herr', ?_⟩⟩
        have hwait : r'.future = r.future := by
          rw [h]
          exact Incremental.Parser.drain_waiting (congrArg Prod.snd h)
        rw [hall, hwait]
        simp
      | error errstr h =>
        refine ⟨.setError r 4 errstr, Or.inr ⟨errstr, rfl, ?_⟩⟩
        rw [hall, h]
        simp
    · cases hget
      exact ⟨hr, Or.inr ⟨errstr, rfl, by simpa using hall⟩⟩

/-- A run has not got what is not in its input. -/
theorem Run.prefix_replies {r : RedisReader} {fed : Bytes} {got : List ReplyObject}
    (h : Run r fed got) : got <+: (replies fed).1 := by
  obtain ⟨-, ⟨-, hall⟩ | ⟨errstr, -, hall⟩⟩ := h.sound
  · rw [hall]
    exact List.prefix_append _ _
  · rw [hall]

/-- How a run ends: what it got is all there is, and the reader says whether there is an
    error. -/
theorem Run.exhausted {r r' : RedisReader} {fed : Bytes} {got : List ReplyObject} {ok : Bool}
    (h : Run r fed got) (hlen : r.buf.length < 2147483648)
    (hget : r.getReply = some (r', ok, none)) :
    ok = true ∧ r'.err = 0 ∧ replies fed = (got, .inl (start r'.rstack, r'.unread)) ∨
      ∃ errstr, ok = false ∧ r' = RedisReader.create.setError 4 errstr ∧
        replies fed = (got, .inr (.error 4 errstr)) := by
  obtain ⟨hr, ⟨herr, hall⟩ | ⟨errstr, rfl, hall⟩⟩ := h.sound
  · have hspec := getReply_spec hr herr hlen
    rw [hget] at hspec
    cases hspec with
    | nothing hr' herr' hfuture =>
      rw [hfuture, List.append_nil] at hall
      exact Or.inl ⟨rfl, herr', hall⟩
    | error errstr hfuture =>
      rw [hfuture, List.append_nil] at hall
      exact Or.inr ⟨errstr, rfl, rfl, hall⟩
  · cases hget
    exact Or.inr ⟨errstr, rfl, rfl, hall⟩

/-- **The replies do not depend on how the bytes are cut and when the replies are
    fetched**: of two runs on the same bytes one got the first replies of the other, and
    when both are told that there is no reply, they have the same replies and the same
    error. -/
theorem Run.fetched {r₁ r₂ : RedisReader} {fed : Bytes} {got₁ got₂ : List ReplyObject}
    (h₁ : Run r₁ fed got₁) (h₂ : Run r₂ fed got₂) :
    (got₁ <+: got₂ ∨ got₂ <+: got₁) ∧
      ∀ r₁' ok₁ r₂' ok₂, r₁.buf.length < 2147483648 → r₂.buf.length < 2147483648 →
        r₁.getReply = some (r₁', ok₁, none) → r₂.getReply = some (r₂', ok₂, none) →
        got₁ = got₂ ∧ ok₁ = ok₂ ∧ r₁'.err = r₂'.err ∧ (ok₁ = false → r₁' = r₂') := by
  refine ⟨List.prefix_or_prefix_of_prefix h₁.prefix_replies h₂.prefix_replies, ?_⟩
  intro r₁' ok₁ r₂' ok₂ hlen₁ hlen₂ hget₁ hget₂
  rcases h₁.exhausted hlen₁ hget₁ with ⟨rfl, herr₁, hall₁⟩ | ⟨errstr₁, rfl, rfl, hall₁⟩ <;>
    rcases h₂.exhausted hlen₂ hget₂ with ⟨rfl, herr₂, hall₂⟩ | ⟨errstr₂, rfl, rfl, hall₂⟩ <;>
    obtain ⟨hgot, hend⟩ := Prod.mk.inj (hall₁.symm.trans hall₂)
  · exact ⟨hgot, rfl, herr₁.trans herr₂.symm, by simp⟩
  · cases hend
  · cases hend
  · cases hend
    exact ⟨hgot, rfl, rfl, fun _ => rfl⟩

/-- A run on `:5\r\n` in one piece. -/
theorem Run.whole_five :
    Run ⟨0, [], [58, 53, 13, 10], 4, [], none⟩ [58, 53, 13, 10] [.integer 5] :=
  .getReply (.feed [58, 53, 13, 10] .create) (by decide) rfl

/-- `:5\r\n` in one piece, and in two with a fetch between them. -/
theorem Run.fetched_five : ∃ r₁ r₂ r₁' r₂', Run r₁ [58, 53, 13, 10] [.integer 5] ∧
    Run r₂ [58, 53, 13, 10] [.integer 5] ∧ r₁.getReply = some (r₁', true, none) ∧
    r₂.getReply = some (r₂', true, none) ∧ r₁'.err = r₂'.err := by
  -- the same in two pieces, with a fetch between them
  have h₂ : Run ⟨0, [], [58, 53, 13, 10], 4, [], none⟩ [58, 53, 13, 10] [.integer 5] :=
    .getReply (.feed [13, 10] (.getReply (.feed [58, 53] .create) (by decide) rfl)) (by decide) rfl
  have hget : RedisReader.getReply ⟨0, [], [58, 53, 13, 10], 4, [], none⟩ =
      some (⟨0, [], [58, 53, 13, 10], 4, [newTask (-1)], none⟩, true, none) := rfl
  exact ⟨_, _, _, _, Run.whole_five, h₂, hget, hget,
    ((Run.fetched Run.whole_five h₂).2 _ _ _ _ (by decide) (by decide) hget hget).2.2.1⟩

end RedisReader

end Hiredispool.Hiredis
