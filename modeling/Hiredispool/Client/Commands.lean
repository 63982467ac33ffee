import Hiredispool.Client.Format
import Mathlib.Data.List.TakeWhile

/-!
# Commands for one item and for many

Model of `experimental/redisclient/RedisClientYaf.cpp`, lines 386–407, 473–525 and
576–1107: the argument vectors that the methods of `Client` send. A method for
one item has a format string, its counterpart for a collection fills two
vectors.

* `keysCommand_eq`, `membersCommand_eq`, `mset_eq`, `hmset_eq`, `zaddMembers_eq`: a
  collection is sent as it is.
* `forms_agree_iff`: when the two forms of a command send the same.
* `member_cut`: a member of a sorted set for which they do not.

A `std::set` or `std::map` is the list of its elements in order. What becomes of
the reply is left out.
-/

namespace Hiredispool.Client

open Hiredispool.Pool

/-- The argument vector that is sent. -/
abbrev Sent := Except FormatError (List Bytes)

section Single

variable {D : Type} (text : Bytes → Num D → Bytes)

/-- `s.c_str()`. -/
def Arg.cstr (s : Bytes) : Arg D := .str (terminated s)

/-- `myRedisCommand` (lines 386–395), with a pool. -/
def myRedisCommand (format : String) (args : List (Arg D)) : Sent :=
  redisvFormatCommand text (Bytes.ofString format) args

/-! ## One item -/

/-- A command with a key. -/
def keyCommand (command : String) (key : Bytes) : Sent :=
  myRedisCommand text "%s %s" [.cstr (Bytes.ofString command), .cstr key]

/-- A command with a key and a binary value. -/
def keyDataCommand (command : String) (key data : Bytes) : Sent :=
  myRedisCommand text "%s %s %b"
    [.cstr (Bytes.ofString command), .cstr key, .str data, .size data.length]

/-- A command with a key and a field. -/
def keyFieldCommand (command : String) (key field : Bytes) : Sent :=
  myRedisCommand text "%s %s %s" [.cstr (Bytes.ofString command), .cstr key, .cstr field]

/-- `delStringKey` (lines 495–505). -/
def delStringKey (key : Bytes) : Sent := keyCommand text "DEL" key

/-- `set` (lines 577–585). -/
def set (key val : Bytes) : Sent := keyDataCommand text "SET" key val

/-- `get` (lines 691–700). -/
def get (key : Bytes) : Sent := keyCommand text "GET" key

/-- `sadd` (lines 758–766). -/
def sadd (key member : Bytes) : Sent := keyDataCommand text "SADD" key member

/-- `srem` (lines 790–799). -/
def srem (key member : Bytes) : Sent := keyDataCommand text "SREM" key member

/-- `hdel` (lines 857–866). -/
def hdel (key field : Bytes) : Sent := keyFieldCommand text "HDEL" key field

/-- `hset` (lines 891–899). -/
def hset (key field val : Bytes) : Sent :=
  myRedisCommand text "%s %s %s %b"
    [.cstr (Bytes.ofString "HSET"), .cstr key, .cstr field, .str val, .size val.length]

/-- `hget` (lines 930–939). -/
def hget (key field : Bytes) : Sent := keyFieldCommand text "HGET" key field

/-- `zadd` (lines 1031–1039). -/
def zadd (key : Bytes) (score : D) (member : Bytes) : Sent :=
  myRedisCommand text "%s %s %f %s"
    [.cstr (Bytes.ofString "ZADD"), .cstr key, .num (.double score), .cstr member]

/-- `zrem` (lines 1076–1085). -/
def zrem (key member : Bytes) : Sent := keyDataCommand text "ZREM" key member

end Single

/-! ## Collections -/

/-- The vectors `args` and `lens`. -/
structure ArgVectors where
  args : List Bytes
  lens : List ℕ

namespace ArgVectors

/-- `push_back` of `s.c_str()` and `s.length()`. -/
def push (s : Bytes) (v : ArgVectors) : ArgVectors := ⟨v.args ++ [terminated s], v.lens ++ [s.length]⟩

/-- The vectors with the name of the command. -/
def command (name : String) : ArgVectors := push (Bytes.ofString name) ⟨[], []⟩

end ArgVectors

/-- `appendArgs` (lines 473–480). -/
def appendArgs (coll : List Bytes) (v : ArgVectors) : ArgVectors := coll.foldl (fun v s => v.push s) v

/-- The loops of lines 675–682 and 914–921. -/
def appendPairs (coll : List (Bytes × Bytes)) (v : ArgVectors) : ArgVectors :=
  coll.foldl (fun v e => (v.push e.1).push e.2) v

/-- `myRedisCommandArgv` (lines 403–407), with a pool. -/
def myRedisCommandArgv (v : ArgVectors) : Sent := .ok (redisFormatSdsCommandArgv v.args v.lens)

/-- A command with some keys. -/
def keysCommand (name : String) (keys : List Bytes) : Sent :=
  myRedisCommandArgv (appendArgs keys (.command name))

/-- A command with a key and some members or fields. -/
def membersCommand (name : String) (key : Bytes) (members : List Bytes) : Sent :=
  myRedisCommandArgv (appendArgs members ((ArgVectors.command name).push key))

/-- `delStringKey` (lines 508–525). -/
def delStringKeys (keys : List Bytes) : Sent := keysCommand "DEL" keys

/-- `mset` (lines 665–688). -/
def mset (kvs : List (Bytes × Bytes)) : Sent :=
  myRedisCommandArgv (appendPairs kvs (.command "MSET"))

/-- `mget` (lines 703–731). -/
def mget (keys : List Bytes) : Sent := keysCommand "MGET" keys

/-- `sadd` (lines 769–787). -/
def saddMembers (key : Bytes) (members : List Bytes) : Sent := membersCommand "SADD" key members

/-- `srem` (lines 802–821). -/
def sremMembers (key : Bytes) (members : List Bytes) : Sent := membersCommand "SREM" key members

/-- `hdel` (lines 869–888). -/
def hdelFields (key : Bytes) (field : List Bytes) : Sent := membersCommand "HDEL" key field

/-- `hmset` (lines 902–927). -/
def hmset (key : Bytes) (field2val : List (Bytes × Bytes)) : Sent :=
  myRedisCommandArgv (appendPairs field2val ((ArgVectors.command "HMSET").push key))

/-- `hmget` (lines 942–972). -/
def hmget (key : Bytes) (fields : List Bytes) : Sent := membersCommand "HMGET" key fields

/-- `zrem` (lines 1088–1107). -/
def zremMembers (key : Bytes) (members : List Bytes) : Sent := membersCommand "ZREM" key members

section Scores

variable {D : Type} (text : Bytes → Num D → Bytes)

/-- Lines 1059–1061: the text of a score, written into `char buf[100]`. -/
def scoreText (score : D) : Except FormatError Bytes :=
  let buf := text (Bytes.ofString "%f") (.double score)
  if buf.length < 100 then .ok (cStr buf) else .error .undefined

/-- The body of the loop of lines 1057–1067: the score, then the member. -/
def pushScore (v : ArgVectors) (e : Bytes × D) : Except FormatError ArgVectors := do
  let score ← scoreText text e.2
  return (v.push score).push e.1

/-- `zadd` (lines 1042–1073). -/
def zaddMembers (key : Bytes) (member2score : List (Bytes × D)) : Sent := do
  let v ← member2score.foldlM (pushScore text) ((ArgVectors.command "ZADD").push key)
  myRedisCommandArgv v

end Scores

/-! ## What is sent -/

section Lemmas

variable {D : Type} (text : Bytes → Num D → Bytes) (command : String) (key : Bytes)

theorem keyCommand_eq :
    keyCommand text command key = .ok [cStr (Bytes.ofString command), cStr key] :=
  redisvFormatCommand_items text (.cstr _) [.cstr key]

theorem keyDataCommand_eq (data : Bytes) :
    keyDataCommand text command key data = .ok [cStr (Bytes.ofString command), cStr key, data] :=
  redisvFormatCommand_items text (.cstr _) [.cstr key, .data data]

theorem keyFieldCommand_eq (field : Bytes) :
    keyFieldCommand text command key field =
      .ok [cStr (Bytes.ofString command), cStr key, cStr field] :=
  redisvFormatCommand_items text (.cstr _) [.cstr key, .cstr field]

theorem hset_eq (field val : Bytes) :
    hset text key field val = .ok [Bytes.ofString "HSET", cStr key, cStr field, val] :=
  redisvFormatCommand_items text (.cstr (Bytes.ofString "HSET")) [.cstr key, .cstr field, .data val]

theorem zadd_eq (score : D) (member : Bytes) :
    zadd text key score member =
      .ok [Bytes.ofString "ZADD", cStr key, cStr (text (Bytes.ofString "%f") (.double score)),
        cStr member] :=
  redisvFormatCommand_items text (.cstr (Bytes.ofString "ZADD"))
    [.cstr key, .double score, .cstr member]

end Lemmas

namespace ArgVectors

/-- The vectors of some arguments. -/
def of (l : List Bytes) : ArgVectors := ⟨l.map terminated, l.map List.length⟩

theorem push_of (s : Bytes) (l : List Bytes) : push s (of l) = of (l ++ [s]) := by
  simp [push, of]

theorem command_eq (name : String) : command name = of [Bytes.ofString name] := rfl

end ArgVectors

theorem appendArgs_of (coll l : List Bytes) :
    appendArgs coll (.of l) = .of (l ++ coll) := by
  induction coll generalizing l with
  | nil => simp [appendArgs]
  | cons s coll ih =>
    show appendArgs coll ((ArgVectors.of l).push s) = _
    rw [ArgVectors.push_of, ih]
    simp

theorem appendPairs_of (coll : List (Bytes × Bytes)) (l : List Bytes) :
    appendPairs coll (.of l) = .of (l ++ coll.flatMap fun e => [e.1, e.2]) := by
  induction coll generalizing l with
  | nil => simp [appendPairs]
  | cons e coll ih =>
    show appendPairs coll (((ArgVectors.of l).push e.1).push e.2) = _
    rw [ArgVectors.push_of, ArgVectors.push_of, ih]
    simp

/-- The vectors are sent as they are, whatever the bytes are. -/
theorem myRedisCommandArgv_of (l : List Bytes) : myRedisCommandArgv (.of l) = .ok l := by
  unfold myRedisCommandArgv redisFormatSdsCommandArgv ArgVectors.of
  simp [terminated, List.zipWith_map]

section Batch

variable (name : String) (key : Bytes) (l : List Bytes) (kvs : List (Bytes × Bytes))

theorem keysCommand_eq : keysCommand name l = .ok (Bytes.ofString name :: l) := by
  unfold keysCommand
  rw [ArgVectors.command_eq, appendArgs_of, myRedisCommandArgv_of]
  rfl

theorem membersCommand_eq : membersCommand name key l = .ok (Bytes.ofString name :: key :: l) := by
  unfold membersCommand
  rw [ArgVectors.command_eq, ArgVectors.push_of, appendArgs_of, myRedisCommandArgv_of]
  rfl

theorem mset_eq : mset kvs = .ok (Bytes.ofString "MSET" :: kvs.flatMap fun e => [e.1, e.2]) := by
  unfold mset
  rw [ArgVectors.command_eq, appendPairs_of, myRedisCommandArgv_of]
  rfl

theorem hmset_eq :
    hmset key kvs = .ok (Bytes.ofString "HMSET" :: key :: kvs.flatMap fun e => [e.1, e.2]) := by
  unfold hmset
  rw [ArgVectors.command_eq, ArgVectors.push_of, appendPairs_of, myRedisCommandArgv_of]
  rfl

variable {D : Type} (text : Bytes → Num D → Bytes)

theorem pushScore_of {e : Bytes × D} (h : (text (Bytes.ofString "%f") (.double e.2)).length < 100) :
    pushScore text (.of l) e =
      .ok (.of (l ++ [cStr (text (Bytes.ofString "%f") (.double e.2)), e.1])) := by
  have hscore : scoreText text e.2 = .ok (cStr (text (Bytes.ofString "%f") (.double e.2))) :=
    if_pos h
  unfold pushScore
  rw [hscore]
  show Except.ok (((ArgVectors.of l).push _).push e.1) = _
  rw [ArgVectors.push_of, ArgVectors.push_of, List.append_assoc]
  rfl

/-- The scores of the collection fit into `buf`. -/
theorem zaddMembers_eq (ms : List (Bytes × D))
    (h : ∀ e ∈ ms, (text (Bytes.ofString "%f") (.double e.2)).length < 100) :
    zaddMembers text key ms = .ok (Bytes.ofString "ZADD" :: key :: ms.flatMap fun e =>
      [cStr (text (Bytes.ofString "%f") (.double e.2)), e.1]) := by
  have hloop : ∀ l : List Bytes, ms.foldlM (pushScore text) (.of l) =
      .ok (.of (l ++ ms.flatMap fun e =>
        [cStr (text (Bytes.ofString "%f") (.double e.2)), e.1])) := by
    induction ms with
    | nil => intro l; simp [pure, Except.pure]
    | cons e ms ih =>
      intro l
      rw [List.foldlM_cons, pushScore_of l text (h e (by simp))]
      show ms.foldlM (pushScore text) (.of _) = _
      rw [ih fun e' he' => h e' (by simp [he'])]
      simp
  unfold zaddMembers
  rw [ArgVectors.command_eq, ArgVectors.push_of, hloop]
  show myRedisCommandArgv (.of _) = _
  rw [myRedisCommandArgv_of]
  rfl

/-- A score that does not fit into `buf`. -/
theorem zaddMembers_overflow {member : Bytes} {score : D}
    (h : ¬ (text (Bytes.ofString "%f") (.double score)).length < 100) :
    zaddMembers text key [(member, score)] = .error .undefined := by
  have hscore : scoreText text score = .error .undefined := if_neg h
  unfold zaddMembers
  rw [List.foldlM_cons, pushScore, hscore]
  rfl

end Batch

/-! ## The two forms of a command -/

/-- Both are sent, with the same arguments after the name of the command. -/
def SameArgs (a b : Sent) : Prop :=
  ∃ name name' args, a = .ok (name :: args) ∧ b = .ok (name' :: args)

theorem sameArgs_iff {name name' : Bytes} {args args' : List Bytes} :
    SameArgs (.ok (name :: args)) (.ok (name' :: args')) ↔ args = args' := by
  constructor
  · rintro ⟨_, _, _, ha, hb⟩
    cases ha
    cases hb
    rfl
  · rintro rfl
    exact ⟨_, _, _, rfl, rfl⟩

/-- A string is cut at its first NUL. -/
theorem cStr_eq_self_iff {s : Bytes} : cStr s = s ↔ 0 ∉ s := by
  unfold cStr
  rw [List.takeWhile_eq_self_iff]
  constructor
  · intro h hmem
    simpa using h 0 hmem
  · intro h b hb
    have hne : b ≠ 0 := by rintro rfl; exact h hb
    simpa using hne

section Forms

variable {D : Type} (text : Bytes → Num D → Bytes) (name name' : String)
  (key field member val : Bytes) (score : D)

theorem keyCommand_sameArgs :
    SameArgs (keyCommand text name key) (keysCommand name' [key]) ↔ 0 ∉ key := by
  rw [keyCommand_eq, keysCommand_eq, sameArgs_iff, List.cons_eq_cons, cStr_eq_self_iff]
  simp

theorem keyDataCommand_sameArgs :
    SameArgs (keyDataCommand text name key val) (membersCommand name' key [val]) ↔ 0 ∉ key := by
  rw [keyDataCommand_eq, membersCommand_eq, sameArgs_iff, List.cons_eq_cons, cStr_eq_self_iff]
  simp

theorem keyFieldCommand_sameArgs :
    SameArgs (keyFieldCommand text name key field) (membersCommand name' key [field]) ↔
      0 ∉ key ∧ 0 ∉ field := by
  rw [keyFieldCommand_eq, membersCommand_eq, sameArgs_iff, List.cons_eq_cons, List.cons_eq_cons,
    cStr_eq_self_iff, cStr_eq_self_iff]
  simp

theorem set_sameArgs : SameArgs (set text key val) (mset [(key, val)]) ↔ 0 ∉ key := by
  unfold set
  rw [keyDataCommand_eq, mset_eq, sameArgs_iff]
  show [cStr key, val] = [key, val] ↔ _
  rw [List.cons_eq_cons, cStr_eq_self_iff]
  simp

theorem hset_sameArgs :
    SameArgs (hset text key field val) (hmset key [(field, val)]) ↔ 0 ∉ key ∧ 0 ∉ field := by
  rw [hset_eq, hmset_eq, sameArgs_iff]
  show [cStr key, cStr field, val] = [key, field, val] ↔ _
  rw [List.cons_eq_cons, List.cons_eq_cons, cStr_eq_self_iff, cStr_eq_self_iff]
  simp

theorem zadd_sameArgs :
    SameArgs (zadd text key score member) (zaddMembers text key [(member, score)]) ↔
      0 ∉ key ∧ 0 ∉ member ∧ (text (Bytes.ofString "%f") (.double score)).length < 100 := by
  by_cases hfit : (text (Bytes.ofString "%f") (.double score)).length < 100
  · rw [zadd_eq, zaddMembers_eq key text _ (by simpa using hfit), sameArgs_iff]
    show [cStr key, _, cStr member] = [key, _, member] ↔ _
    simp [cStr_eq_self_iff, hfit]
  · rw [zaddMembers_overflow key text hfit]
    constructor
    · rintro ⟨_, _, _, _, hb⟩
      cases hb
    · rintro ⟨_, _, h⟩
      exact absurd h hfit

end Forms

/-- The method for one item sends what the method for the collection of that item
    sends, command name apart: always but for a NUL in a key, in a field or in a
    member of a sorted set, and for a score whose text is longer than the buffer. -/
theorem forms_agree_iff {D : Type} (text : Bytes → Num D → Bytes) (key field member val : Bytes)
    (score : D) :
    (SameArgs (delStringKey text key) (delStringKeys [key]) ↔ 0 ∉ key) ∧
    (SameArgs (set text key val) (mset [(key, val)]) ↔ 0 ∉ key) ∧
    (SameArgs (get text key) (mget [key]) ↔ 0 ∉ key) ∧
    (SameArgs (sadd text key member) (saddMembers key [member]) ↔ 0 ∉ key) ∧
    (SameArgs (srem text key member) (sremMembers key [member]) ↔ 0 ∉ key) ∧
    (SameArgs (zrem text key member) (zremMembers key [member]) ↔ 0 ∉ key) ∧
    (SameArgs (hset text key field val) (hmset key [(field, val)]) ↔ 0 ∉ key ∧ 0 ∉ field) ∧
    (SameArgs (hdel text key field) (hdelFields key [field]) ↔ 0 ∉ key ∧ 0 ∉ field) ∧
    (SameArgs (hget text key field) (hmget key [field]) ↔ 0 ∉ key ∧ 0 ∉ field) ∧
    (SameArgs (zadd text key score member) (zaddMembers text key [(member, score)]) ↔
      0 ∉ key ∧ 0 ∉ member ∧ (text (Bytes.ofString "%f") (.double score)).length < 100) := by
  exact ⟨keyCommand_sameArgs text _ _ key, set_sameArgs text key val,
    keyCommand_sameArgs text _ _ key, keyDataCommand_sameArgs text _ _ key member,
    keyDataCommand_sameArgs text _ _ key member, keyDataCommand_sameArgs text _ _ key member,
    hset_sameArgs text key field val, keyFieldCommand_sameArgs text _ _ key field,
    keyFieldCommand_sameArgs text _ _ key field, zadd_sameArgs text key member score⟩

/-- "a\0b" -/
def cutMember : Bytes := [97, 0, 98]

/-- One form of `zadd` adds `a` to the sorted set `k`, the other one `a\0b`; `printf` is
    that of the score 1. -/
theorem member_cut :
    zadd (fun _ _ => Bytes.ofString "1.000000") (Bytes.ofString "k") () cutMember =
        .ok [Bytes.ofString "ZADD", Bytes.ofString "k", Bytes.ofString "1.000000",
          Bytes.ofString "a"] ∧
      zaddMembers (fun _ _ => Bytes.ofString "1.000000") (Bytes.ofString "k") [(cutMember, ())] =
        .ok [Bytes.ofString "ZADD", Bytes.ofString "k", Bytes.ofString "1.000000", cutMember] ∧
      ¬ SameArgs (zadd (fun _ _ => Bytes.ofString "1.000000") (Bytes.ofString "k") () cutMember)
        (zaddMembers (fun _ _ => Bytes.ofString "1.000000") (Bytes.ofString "k")
          [(cutMember, ())]) := by
  refine ⟨by decide, by decide, fun h => ?_⟩
  exact absurd ((zadd_sameArgs _ _ _ _).mp h).2.1 (by decide)

end Hiredispool.Client
