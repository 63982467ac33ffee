import Hiredispool.Client.Batch
import Hiredispool.Client.Integers

/-!
# Reads behind `status.ok()`

Model of the methods of `Client` that read a reply only if `status.ok()`
(`RedisClientYaf.cpp`, lines 548–562, 703–755, 823–854, 942–992, 1018–1028 and
1165–1308), with the pointers that they dereference.

* `reply2status_ok_iff`, `reply2status_notFound_iff`: the answers behind a status.
* `underOk_present`: a method reads what it needs of a reply that is there.
* `status_faithful_iff`: when the statuses, and with them the reads, are right.
* `error_ok`: an error that is taken for success.
-/

namespace Hiredispool.Client

open Hiredispool.Pool

/-! ## Model -/

/-- What a method does behind `status.ok()`: the pointers to a reply that it
    dereferences, and its result. -/
structure Run (α : Type) where
  read : List (Option RedisReply)
  result : Except Fault (Status × α)

section Family

variable {α : Type}

/-- `if (status.ok())` in front of a use of `*reply`. -/
def underOk (use : RedisReply → α → Except Fault α) (p : Option RedisReplyPack) (out : α) :
    Run α :=
  let status := reply2status p
  if status.ok then
    match replyOf p with
    | none => ⟨[none], .error .nullReply⟩
    | some reply => ⟨[some reply], (use reply out).map (status, ·)⟩
  else ⟨[], .ok (status, out)⟩

/-- `if (status.ok() && reply->type == REDIS_REPLY_ARRAY)` in front of a loop over
    `reply->element`. -/
def arrayUnderOk (use : List RedisReply → α → Except Fault α) : Option RedisReplyPack → α → Run α :=
  underOk fun reply out =>
    match reply with
    | .array element => use element out
    | _ => .ok out

/-- `if (status.ok())` in front of a use of `reply2integer(reply)`, which checks its
    argument for NULL. -/
def integerUnderOk (use : Status → ℤ → Status × α) (p : Option RedisReplyPack) (out : α) : Run α :=
  let status := reply2status p
  if status.ok then ⟨(replyOf p).toList.map some, .ok (use status (reply2integer (replyOf p)))⟩
  else ⟨[], .ok (status, out)⟩

end Family

/-- `reply2string` (lines 444–452) of a reply that is there. -/
def reply2string : RedisReply → Bytes
  | .string str => str
  | .status str => str
  | _ => []

/-- `str[0 … len-1]` of a reply: nothing for one that has no text. -/
def RedisReply.text : RedisReply → Bytes
  | .string str => str
  | .status str => str
  | .error str => str
  | _ => []

/-- Lines 983–986, 1216–1219 and 1299–1302: the texts of the elements `2i` and `2i + 1`,
    for `i < elements / 2`. -/
def textPairs : List RedisReply → List (Bytes × Bytes)
  | x :: y :: element => (reply2string x, reply2string y) :: textPairs element
  | _ => []

section Methods

variable {D : Type} (text : Bytes → Num D → Bytes) (answer : Sent → Option RedisReplyPack)

/-- `ttl` (lines 548–562). -/
def ttlRun (key : Bytes) (ttl : ℤ) : Run ℤ :=
  integerUnderOk
    (fun status n => (if toInt n = -2 then Status.of "not_found" else status, toInt n))
    (answer (keyCommand text "TTL" key)) ttl

/-- `mget` (lines 703–731). -/
def mgetRun (keys : KeySet) (vals : Vals) : Run Vals :=
  arrayUnderOk (fun element vals => readElements element keys.keys 0 vals)
    (answer (mget keys.keys)) vals

/-- `scard` (lines 746–755). -/
def scardRun (key : Bytes) (count : ℤ) : Run ℤ :=
  integerUnderOk (fun status n => (status, toInt n)) (answer (keyCommand text "SCARD" key)) count

/-- `smembers` (lines 824–839): the type of the reply is not looked at, and a reply
    that is not an array has no elements. -/
def smembersRun (key : Bytes) (members : Finset Bytes) : Run (Finset Bytes) :=
  underOk
    (fun reply members =>
      match reply with
      | .array element => .ok (element.foldl (fun members x => insert x.text members) members)
      | _ => .ok members)
    (answer (keyCommand text "SMEMBERS" key)) members

/-- `sismember` (lines 842–854). -/
def sismemberRun (key member : Bytes) (ismember : Bool) : Run Bool :=
  integerUnderOk (fun status n => (status, n = 1))
    (answer (keyDataCommand text "SISMEMBER" key member)) ismember

/-- `hmget` (lines 942–972). -/
def hmgetRun (key : Bytes) (fields : KeySet) (field2val : Vals) : Run Vals :=
  arrayUnderOk (fun element vals => readElements element fields.keys 0 vals)
    (answer (hmget key fields.keys)) field2val

/-- `hgetall` (lines 975–992). -/
def hgetallRun (key : Bytes) (allfield : Vals) : Run Vals :=
  arrayUnderOk
    (fun element allfield => .ok ((textPairs element).foldl
      (fun allfield e => Function.update allfield e.1 (some e.2)) allfield))
    (answer (keyCommand text "HGETALL" key)) allfield

/-- `zcard` (lines 1019–1028). -/
def zcardRun (key : Bytes) (count : ℤ) : Run ℤ :=
  integerUnderOk (fun status n => (status, toInt n)) (answer (keyCommand text "ZCARD" key)) count

/-- `members.push_back(reply2string(reply->element[i]))` for all elements. -/
def pushMembers (element : List RedisReply) (members : List Bytes) : Except Fault (List Bytes) :=
  .ok (members ++ element.map reply2string)

/-- `members.push_back(std::make_pair(mem, score))` for all pairs of elements. -/
def pushScored (atof : Bytes → D) (element : List RedisReply) (members : List (Bytes × D)) :
    Except Fault (List (Bytes × D)) :=
  .ok (members ++ (textPairs element).map fun e => (e.1, atof (cStr e.2)))

/-- `zrange_impl` (lines 1189–1205). -/
def zrangeImplRun (strCmd : String) (key : Bytes) (startIndex stopIndex : Int32)
    (members : List Bytes) : Run (List Bytes) :=
  arrayUnderOk pushMembers (answer (zrangeImpl text strCmd key startIndex stopIndex)) members

/-- `zrangeWithScores_impl` (lines 1207–1225). -/
def zrangeWithScoresImplRun (atof : Bytes → D) (strCmd : String) (key : Bytes)
    (startIndex stopIndex : Int32) (members : List (Bytes × D)) : Run (List (Bytes × D)) :=
  arrayUnderOk (pushScored atof)
    (answer (zrangeWithScoresImpl text strCmd key startIndex stopIndex)) members

/-- `zrangbyscore_impl` (lines 1262–1283). -/
def zrangbyscoreImplRun (strCmd : String) (key score1 score2 : Bytes) (members : List Bytes) :
    Run (List Bytes) :=
  arrayUnderOk pushMembers
    (answer (myRedisCommand text "%s %s %s %s"
      [.cstr (Bytes.ofString strCmd), .cstr key, .cstr score1, .cstr score2])) members

/-- `zrangbyscoreWithScores_impl` (lines 1285–1308). -/
def zrangbyscoreWithScoresImplRun (atof : Bytes → D) (strCmd : String) (key score1 score2 : Bytes)
    (members : List (Bytes × D)) : Run (List (Bytes × D)) :=
  arrayUnderOk (pushScored atof)
    (answer (myRedisCommand text "%s %s %s %s WITHSCORES"
      [.cstr (Bytes.ofString strCmd), .cstr key, .cstr score1, .cstr score2])) members

/-- `zrange` (lines 1166–1169). -/
def zrangeRun (key : Bytes) (startIndex stopIndex : Int32) (members : List Bytes) :
    Run (List Bytes) :=
  zrangeImplRun text answer "ZRANGE" key startIndex stopIndex members

/-- `zrangeWithScores` (lines 1172–1175). -/
def zrangeWithScoresRun (atof : Bytes → D) (key : Bytes) (startIndex stopIndex : Int32)
    (members : List (Bytes × D)) : Run (List (Bytes × D)) :=
  zrangeWithScoresImplRun text answer atof "ZRANGE" key startIndex stopIndex members

/-- `zrevrange` (lines 1178–1181). -/
def zrevrangeRun (key : Bytes) (startIndex stopIndex : Int32) (members : List Bytes) :
    Run (List Bytes) :=
  zrangeImplRun text answer "ZREVRANGE" key startIndex stopIndex members

/-- `zrevrangeWithScores` (lines 1184–1187). -/
def zrevrangeWithScoresRun (atof : Bytes → D) (key : Bytes) (startIndex stopIndex : Int32)
    (members : List (Bytes × D)) : Run (List (Bytes × D)) :=
  zrangeWithScoresImplRun text answer atof "ZREVRANGE" key startIndex stopIndex members

/-- `zrangebyscore` (lines 1228–1231). -/
def zrangebyscoreRun (key score1 score2 : Bytes) (members : List Bytes) : Run (List Bytes) :=
  zrangbyscoreImplRun text answer "ZRANGEBYSCORE" key score1 score2 members

/-- `zrevrangebyscore` (lines 1245–1248). -/
def zrevrangebyscoreRun (key score1 score2 : Bytes) (members : List Bytes) : Run (List Bytes) :=
  zrangbyscoreImplRun text answer "ZREVRANGEBYSCORE" key score1 score2 members

/-- `zrangebyscoreWithScores` (lines 1251–1254). -/
def zrangebyscoreWithScoresRun (atof : Bytes → D) (key score1 score2 : Bytes)
    (members : List (Bytes × D)) : Run (List (Bytes × D)) :=
  zrangbyscoreWithScoresImplRun text answer atof "ZRANGEBYSCORE" key score1 score2 members

/-- `zrevrangebyscoreWithScores` (lines 1257–1260). -/
def zrevrangebyscoreWithScoresRun (atof : Bytes → D) (key score1 score2 : Bytes)
    (members : List (Bytes × D)) : Run (List (Bytes × D)) :=
  zrangbyscoreWithScoresImplRun text answer atof "ZREVRANGEBYSCORE" key score1 score2 members

end Methods

/-! ## Statuses -/

/-- An error reply. -/
def RedisReply.isError : RedisReply → Bool
  | .error _ => true
  | _ => false

/-- The text of an error is one of the codes that `Status` sets apart. -/
def Reserved (str : Bytes) : Prop :=
  cStr str = Bytes.ofString "ok" ∨ cStr str = Bytes.ofString "not_found"

theorem reply2status_eq {p : Option RedisReplyPack} {reply : RedisReply}
    (h : replyOf p = some reply) : reply2status p = replyStatus reply := by
  cases p with
  | none => cases h
  | some p =>
    have hr : p.reply = some reply := h
    show (match p.reply with | none => errorStatus p.info | some reply => replyStatus reply) = _
    rw [hr]

theorem replyStatus_ok {reply : RedisReply} (h : reply.isError = false) :
    (replyStatus reply).ok = true := by
  cases reply with
  | error str => cases h
  | nil => decide
  | _ => show (Status.of "ok").ok = true; decide

theorem error_ok_iff (str : Bytes) : (replyStatus (.error str)).ok = true ↔ Reserved str := by
  show decide (cStr str = Bytes.ofString "ok" ∨ cStr str = Bytes.ofString "not_found") = true ↔ _
  rw [decide_eq_true_iff]
  exact Iff.rfl

/-- The answers that are taken for success. -/
theorem reply2status_ok_iff (p : Option RedisReplyPack) :
    (reply2status p).ok = true ↔
      ∃ reply, replyOf p = some reply ∧ ∀ str, reply = .error str → Reserved str := by
  constructor
  · intro h
    obtain ⟨reply, hp, hstatus⟩ := reply2status_ok h
    refine ⟨reply, hp, ?_⟩
    rintro str rfl
    rwa [hstatus, error_ok_iff] at h
  · rintro ⟨reply, hp, hres⟩
    rw [reply2status_eq hp]
    cases he : reply.isError with
    | false => exact replyStatus_ok he
    | true =>
      cases reply with
      | error str => exact (error_ok_iff str).mpr (hres str rfl)
      | _ => cases he

/-- The answers that are taken for a missing key. -/
theorem reply2status_notFound_iff (p : Option RedisReplyPack) :
    (reply2status p).notFound = true ↔
      replyOf p = some .nil ∨
        ∃ str, replyOf p = some (.error str) ∧ cStr str = Bytes.ofString "not_found" := by
  constructor
  · intro h
    have hok : (reply2status p).ok = true := decide_eq_true (Or.inr (of_decide_eq_true h))
    obtain ⟨reply, hp, hstatus⟩ := reply2status_ok hok
    rw [hstatus] at h
    rw [hp]
    cases reply with
    | nil => exact Or.inl rfl
    | error str => exact Or.inr ⟨str, rfl, of_decide_eq_true h⟩
    | _ => exact absurd h (show ¬(Status.of "ok").notFound = true by decide)
  · rintro (hp | ⟨str, hp, hstr⟩)
    · rw [reply2status_eq hp]
      decide
    · rw [reply2status_eq hp]
      exact decide_eq_true hstr

/-! ## Reads -/

section Present

variable {α : Type} {p : Option RedisReplyPack}

/-- The replies that are read are there, and they are not errors. -/
def Run.Present (run : Run α) : Prop :=
  ∀ ptr ∈ run.read, ∃ reply, ptr = some reply ∧ reply.isError = false

/-- No error in `p` has the text of a status of success. -/
def Unambiguous (p : Option RedisReplyPack) : Prop :=
  ∀ str, replyOf p = some (.error str) → ¬Reserved str

theorem Unambiguous.ok_iff (h : Unambiguous p) :
    (reply2status p).ok = true ↔ ∃ reply, replyOf p = some reply ∧ reply.isError = false := by
  rw [reply2status_ok_iff]
  constructor
  · rintro ⟨reply, hp, hres⟩
    refine ⟨reply, hp, ?_⟩
    cases reply with
    | error str => exact absurd (hres str rfl) (h str hp)
    | _ => rfl
  · rintro ⟨reply, hp, he⟩
    refine ⟨reply, hp, ?_⟩
    rintro str rfl
    cases he

theorem Unambiguous.notFound_iff (h : Unambiguous p) :
    (reply2status p).notFound = true ↔ replyOf p = some .nil := by
  rw [reply2status_notFound_iff]
  constructor
  · rintro (hp | ⟨str, hp, hstr⟩)
    · exact hp
    · exact absurd (Or.inr hstr) (h str hp)
  · exact Or.inl

/-- A run that reads one reply. -/
theorem Run.present_one {run : Run α} {reply : RedisReply} (hread : run.read = [some reply])
    (he : reply.isError = false) : run.Present := by
  intro ptr hptr
  rw [hread, List.mem_singleton] at hptr
  exact ⟨reply, hptr, he⟩

theorem Run.present_nil {run : Run α} (hread : run.read = []) : run.Present := by
  intro ptr hptr
  rw [hread] at hptr
  cases hptr

/-- **A method that looks at its status first** reads a reply that is there. -/
theorem underOk_present (h : Unambiguous p) (use : RedisReply → α → Except Fault α) (out : α) :
    (underOk use p out).Present := by
  unfold underOk
  dsimp only
  split
  · rename_i hok
    obtain ⟨reply, hp, he⟩ := h.ok_iff.mp hok
    rw [hp]
    exact Run.present_one rfl he
  · exact Run.present_nil rfl

theorem arrayUnderOk_present (h : Unambiguous p) (use : List RedisReply → α → Except Fault α)
    (out : α) : (arrayUnderOk use p out).Present := underOk_present h _ out

theorem integerUnderOk_present (h : Unambiguous p) (use : Status → ℤ → Status × α) (out : α) :
    (integerUnderOk use p out).Present := by
  unfold integerUnderOk
  dsimp only
  split
  · rename_i hok
    obtain ⟨reply, hp, he⟩ := h.ok_iff.mp hok
    rw [hp]
    exact Run.present_one rfl he
  · exact Run.present_nil rfl

end Present

/-! ## The methods of the other models -/

theorem ttlRun_result {D : Type} (text : Bytes → Num D → Bytes)
    (answer : Sent → Option RedisReplyPack) (key : Bytes) (out : ℤ) :
    (ttlRun text answer key out).result = .ok (ttl (answer (keyCommand text "TTL" key)) out) := by
  unfold ttlRun integerUnderOk ttl
  dsimp only
  split
  · rfl
  · rfl

theorem arrayUnderOk_result (keys : KeySet) (p : Option RedisReplyPack) (vals : Vals) :
    (arrayUnderOk (fun element vals => readElements element keys.keys 0 vals) p vals).result =
      batchRead keys p vals := by
  unfold arrayUnderOk underOk batchRead
  dsimp only
  split
  · cases replyOf p with
    | none => rfl
    | some reply =>
      cases reply with
      | _ => rfl
  · rfl

theorem mgetRun_result (answer : Sent → Option RedisReplyPack) (keys : KeySet) (vals : Vals) :
    (mgetRun answer keys vals).result = mgetRead answer keys vals :=
  arrayUnderOk_result keys _ vals

theorem hmgetRun_result (answer : Sent → Option RedisReplyPack) (key : Bytes) (fields : KeySet)
    (vals : Vals) :
    (hmgetRun answer key fields vals).result = hmgetRead answer key fields vals :=
  arrayUnderOk_result fields _ vals

/-! ## Main theorem -/

/-- The status of the answer `p` tells whether a reply is there that is not an error,
    and whether it is nil; and every method that reads its answer `p` behind
    `status.ok()` reads such a reply. -/
structure StatusFaithful {D : Type} (text : Bytes → Num D → Bytes) (atof : Bytes → D)
    (p : Option RedisReplyPack) : Prop where
  ok : (reply2status p).ok = true ↔ ∃ reply, replyOf p = some reply ∧ reply.isError = false
  notFound : (reply2status p).notFound = true ↔ replyOf p = some .nil
  ttl : ∀ key out, (ttlRun text (fun _ => p) key out).Present
  mget : ∀ keys out, (mgetRun (fun _ => p) keys out).Present
  scard : ∀ key out, (scardRun text (fun _ => p) key out).Present
  smembers : ∀ key out, (smembersRun text (fun _ => p) key out).Present
  sismember : ∀ key member out, (sismemberRun text (fun _ => p) key member out).Present
  hmget : ∀ key fields out, (hmgetRun (fun _ => p) key fields out).Present
  hgetall : ∀ key out, (hgetallRun text (fun _ => p) key out).Present
  zcard : ∀ key out, (zcardRun text (fun _ => p) key out).Present
  zrange : ∀ key start stop out, (zrangeRun text (fun _ => p) key start stop out).Present
  zrangeWithScores : ∀ key start stop out,
    (zrangeWithScoresRun text (fun _ => p) atof key start stop out).Present
  zrevrange : ∀ key start stop out, (zrevrangeRun text (fun _ => p) key start stop out).Present
  zrevrangeWithScores : ∀ key start stop out,
    (zrevrangeWithScoresRun text (fun _ => p) atof key start stop out).Present
  zrangebyscore : ∀ key score1 score2 out,
    (zrangebyscoreRun text (fun _ => p) key score1 score2 out).Present
  zrevrangebyscore : ∀ key score1 score2 out,
    (zrevrangebyscoreRun text (fun _ => p) key score1 score2 out).Present
  zrangebyscoreWithScores : ∀ key score1 score2 out,
    (zrangebyscoreWithScoresRun text (fun _ => p) atof key score1 score2 out).Present
  zrevrangebyscoreWithScores : ∀ key score1 score2 out,
    (zrevrangebyscoreWithScoresRun text (fun _ => p) atof key score1 score2 out).Present

/-- **Statuses are faithful** exactly if the answer is not an error whose text is `ok`
    or `not_found`. -/
theorem status_faithful_iff {D : Type} (text : Bytes → Num D → Bytes) (atof : Bytes → D)
    (p : Option RedisReplyPack) : StatusFaithful text atof p ↔ Unambiguous p := by
  constructor
  · intro h str hp hres
    have hok : (reply2status p).ok = true := by
      rw [reply2status_eq hp, error_ok_iff]
      exact hres
    obtain ⟨reply, hp', he⟩ := h.ok.mp hok
    obtain rfl : RedisReply.error str = reply := by simpa using hp.symm.trans hp'
    cases he
  · intro h
    exact
      { ok := h.ok_iff
        notFound := h.notFound_iff
        ttl := fun _ => integerUnderOk_present h _
        mget := fun _ => arrayUnderOk_present h _
        scard := fun _ => integerUnderOk_present h _
        smembers := fun _ => underOk_present h _
        sismember := fun _ _ => integerUnderOk_present h _
        hmget := fun _ _ => arrayUnderOk_present h _
        hgetall := fun _ => arrayUnderOk_present h _
        zcard := fun _ => integerUnderOk_present h _
        zrange := fun _ _ _ => arrayUnderOk_present h _
        zrangeWithScores := fun _ _ _ => arrayUnderOk_present h _
        zrevrange := fun _ _ _ => arrayUnderOk_present h _
        zrevrangeWithScores := fun _ _ _ => arrayUnderOk_present h _
        zrangebyscore := fun _ _ _ => arrayUnderOk_present h _
        zrevrangebyscore := fun _ _ _ => arrayUnderOk_present h _
        zrangebyscoreWithScores := fun _ _ _ => arrayUnderOk_present h _
        zrevrangebyscoreWithScores := fun _ _ _ => arrayUnderOk_present h _ }

/-- The answer `-ok` of a server. -/
def errorOk : Option RedisReplyPack := some ⟨some (.error (Bytes.ofString "ok")), ⟨0, [], [], 6379⟩⟩

/-- An error with the text `ok` counts as success, and `smembers` reads it. -/
theorem error_ok :
    (reply2status errorOk).ok = true ∧
      (smembersRun (fun _ (_ : Num Unit) => []) (fun _ => errorOk) [107] ∅).read =
        [some (.error (Bytes.ofString "ok"))] ∧
      ¬StatusFaithful (fun _ (_ : Num Unit) => []) (fun _ => ()) errorOk := by
  refine ⟨by decide, rfl, ?_⟩
  intro h
  obtain ⟨reply, hp, he⟩ := h.ok.mp (by decide)
  have hp' : some (RedisReply.error (Bytes.ofString "ok")) = some reply := hp
  obtain rfl := Option.some.inj hp'
  cases he

end Hiredispool.Client
