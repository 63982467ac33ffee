import Hiredispool.Client.Commands
import Hiredispool.Lib.Decimal

/-!
# Commands with integer arguments

Model of the methods of `RedisClientYaf.cpp` that put an `int`, an `unsigned` or
an `int64_t` into a command (lines 534–543, 587–619, 654–662, 734–743, 1007–1016,
1109–1117 and 1166–1242): the argument vectors that they send.

* `Printf`: what is taken for granted of `%d`, `%u` and `%lld`.
* `zrembyscore_eq`: the bounds are sent as if they were `unsigned`.
* `integers_sent`: all other integers are sent as they are, but for a negative
  `ttl` of `setMapValue`, which is not sent at all.
-/

namespace Hiredispool.Client

open Hiredispool.Pool

/-! ## `printf` -/

section Model

variable {D : Type} (text : Bytes → Num D → Bytes)

/-- The conversions of `printf` on a 32-bit `int` and a 64-bit `long long`: what
    is passed are the bits, and the conversion decides about their sign. -/
structure Printf : Prop where
  d : ∀ i, text (Bytes.ofString "%d") (.int i) = Decimal.ofInt (i.bmod 4294967296)
  u : ∀ i, text (Bytes.ofString "%u") (.int i) = Decimal.ofInt (i % 4294967296)
  lld : ∀ i, text (Bytes.ofString "%lld") (.longLong i) =
    Decimal.ofInt (i.bmod 18446744073709551616)

/-- An `int` in a `va_list`. -/
def Arg.int (i : Int32) : Arg D := .num (.int i.toInt)

/-- An `unsigned` in a `va_list`: the same size as an `int`. -/
def Arg.unsigned (u : UInt32) : Arg D := .num (.int u.toNat)

/-- An `int64_t` in a `va_list`: the same size as a `long long`. -/
def Arg.int64 (i : Int64) : Arg D := .num (.longLong i.toInt)

/-! ## The methods -/

/-- `expire` (lines 534–543). -/
def expire (key : Bytes) (ttl : UInt32) : Sent :=
  myRedisCommand text "%s %s %u" [.cstr (Bytes.ofString "EXPIRE"), .cstr key, .unsigned ttl]

/-- `setex` (lines 654–662). -/
def setex (key val : Bytes) (ttl : Int32) : Sent :=
  myRedisCommand text "%s %s %d %b"
    [.cstr (Bytes.ofString "SETEX"), .cstr key, .int ttl, .str val, .size val.length]

/-- `setMapValue` (lines 587–619); `data` is the packed map. -/
def setMapValue (key data : Bytes) (ttl : Int32) : Sent :=
  if ttl < 0 then keyDataCommand text "SET" key data else setex text key data ttl

/-- `incrby` (lines 734–743). -/
def incrby (key : Bytes) (increment : Int64) : Sent :=
  myRedisCommand text "%s %s %lld" [.cstr (Bytes.ofString "INCRBY"), .cstr key, .int64 increment]

/-- `hincrby` (lines 1007–1016). -/
def hincrby (key field : Bytes) (increment : Int64) : Sent :=
  myRedisCommand text "%s %s %s %lld"
    [.cstr (Bytes.ofString "HINCRBY"), .cstr key, .cstr field, .int64 increment]

/-- `zincrby` (lines 1233–1242). -/
def zincrby (key field : Bytes) (increment : Int64) : Sent :=
  myRedisCommand text "%s %s %lld %s"
    [.cstr (Bytes.ofString "ZINCRBY"), .cstr key, .int64 increment, .cstr field]

/-- `zrembyscore` (lines 1109–1117): `min` and `max` are `int`. -/
def zrembyscore (key : Bytes) (min max : Int32) : Sent :=
  myRedisCommand text "%s %s %u %u"
    [.cstr (Bytes.ofString "ZREMRANGEBYSCORE"), .cstr key, .int min, .int max]

/-- `zrange_impl` (lines 1189–1205). -/
def zrangeImpl (strCmd : String) (key : Bytes) (startIndex stopIndex : Int32) : Sent :=
  myRedisCommand text "%s %s %d %d"
    [.cstr (Bytes.ofString strCmd), .cstr key, .int startIndex, .int stopIndex]

/-- `zrangeWithScores_impl` (lines 1207–1225). -/
def zrangeWithScoresImpl (strCmd : String) (key : Bytes) (startIndex stopIndex : Int32) : Sent :=
  myRedisCommand text "%s %s %d %d WITHSCORES"
    [.cstr (Bytes.ofString strCmd), .cstr key, .int startIndex, .int stopIndex]

/-- `zrange` (lines 1166–1169). -/
def zrange (key : Bytes) (startIndex stopIndex : Int32) : Sent :=
  zrangeImpl text "ZRANGE" key startIndex stopIndex

/-- `zrangeWithScores` (lines 1172–1175). -/
def zrangeWithScores (key : Bytes) (startIndex stopIndex : Int32) : Sent :=
  zrangeWithScoresImpl text "ZRANGE" key startIndex stopIndex

/-- `zrevrange` (lines 1178–1181). -/
def zrevrange (key : Bytes) (startIndex stopIndex : Int32) : Sent :=
  zrangeImpl text "ZREVRANGE" key startIndex stopIndex

/-- `zrevrangeWithScores` (lines 1184–1187). -/
def zrevrangeWithScores (key : Bytes) (startIndex stopIndex : Int32) : Sent :=
  zrangeWithScoresImpl text "ZREVRANGE" key startIndex stopIndex

end Model

/-! ## What is sent -/

section Sent

variable {D : Type} {text : Bytes → Num D → Bytes}

theorem cStr_ofInt (i : ℤ) : cStr (Decimal.ofInt i) = Decimal.ofInt i :=
  cStr_eq_self_iff.mpr (Decimal.zero_not_mem_ofInt i)

namespace Printf

variable (h : Printf text)

include h

theorem int (i : Int32) :
    cStr (text (Bytes.ofString "%d") (.int i.toInt)) = Decimal.ofInt i.toInt := by
  rw [h.d, Int32.toInt_bmod, cStr_ofInt]

theorem unsigned (i : ℤ) :
    cStr (text (Bytes.ofString "%u") (.int i)) = Decimal.ofInt (i % 4294967296) := by
  rw [h.u, cStr_ofInt]

theorem int64 (i : Int64) :
    cStr (text (Bytes.ofString "%lld") (.longLong i.toInt)) = Decimal.ofInt i.toInt := by
  rw [h.lld, Int64.toInt_bmod, cStr_ofInt]

end Printf

variable (h : Printf text) (key field val : Bytes)

include h

theorem expire_eq (ttl : UInt32) :
    expire text key ttl = .ok [Bytes.ofString "EXPIRE", cStr key, Decimal.ofInt ttl.toNat] := by
  have hsent : expire text key ttl = .ok [Bytes.ofString "EXPIRE", cStr key,
      cStr (text (Bytes.ofString "%u") (.int ttl.toNat))] :=
    redisvFormatCommand_pieces (Item.piece text (.cstr (Bytes.ofString "EXPIRE")))
      [Item.piece text (.cstr key), IntConv.piece text .u (.int ttl.toNat) rfl]
  have hlt := ttl.toNat_lt
  rw [hsent, h.unsigned, Int.emod_eq_of_lt (by omega) (by omega)]

theorem setex_eq (ttl : Int32) : setex text key val ttl =
    .ok [Bytes.ofString "SETEX", cStr key, Decimal.ofInt ttl.toInt, val] := by
  have hsent : setex text key val ttl = .ok [Bytes.ofString "SETEX", cStr key,
      cStr (text (Bytes.ofString "%d") (.int ttl.toInt)), val] :=
    redisvFormatCommand_pieces (Item.piece text (.cstr (Bytes.ofString "SETEX")))
      [Item.piece text (.cstr key), IntConv.piece text .d (.int ttl.toInt) rfl,
        Item.piece text (.data val)]
  rw [hsent, h.int]

/-- A negative `ttl` stands for none. -/
theorem setMapValue_eq (ttl : Int32) : setMapValue text key val ttl =
    .ok (if ttl < 0 then [Bytes.ofString "SET", cStr key, val]
      else [Bytes.ofString "SETEX", cStr key, Decimal.ofInt ttl.toInt, val]) := by
  unfold setMapValue
  split
  · exact keyDataCommand_eq text "SET" key val
  · exact setex_eq h key val ttl

theorem incrby_eq (increment : Int64) : incrby text key increment =
    .ok [Bytes.ofString "INCRBY", cStr key, Decimal.ofInt increment.toInt] := by
  have hsent : incrby text key increment = .ok [Bytes.ofString "INCRBY", cStr key,
      cStr (text (Bytes.ofString "%lld") (.longLong increment.toInt))] :=
    redisvFormatCommand_pieces (Item.piece text (.cstr (Bytes.ofString "INCRBY")))
      [Item.piece text (.cstr key), IntConv.piece text .lld (.longLong increment.toInt) rfl]
  rw [hsent, h.int64]

theorem hincrby_eq (increment : Int64) : hincrby text key field increment =
    .ok [Bytes.ofString "HINCRBY", cStr key, cStr field, Decimal.ofInt increment.toInt] := by
  have hsent : hincrby text key field increment = .ok [Bytes.ofString "HINCRBY", cStr key,
      cStr field, cStr (text (Bytes.ofString "%lld") (.longLong increment.toInt))] :=
    redisvFormatCommand_pieces (Item.piece text (.cstr (Bytes.ofString "HINCRBY")))
      [Item.piece text (.cstr key), Item.piece text (.cstr field),
        IntConv.piece text .lld (.longLong increment.toInt) rfl]
  rw [hsent, h.int64]

theorem zincrby_eq (increment : Int64) : zincrby text key field increment =
    .ok [Bytes.ofString "ZINCRBY", cStr key, Decimal.ofInt increment.toInt, cStr field] := by
  have hsent : zincrby text key field increment = .ok [Bytes.ofString "ZINCRBY", cStr key,
      cStr (text (Bytes.ofString "%lld") (.longLong increment.toInt)), cStr field] :=
    redisvFormatCommand_pieces (Item.piece text (.cstr (Bytes.ofString "ZINCRBY")))
      [Item.piece text (.cstr key), IntConv.piece text .lld (.longLong increment.toInt) rfl,
        Item.piece text (.cstr field)]
  rw [hsent, h.int64]

theorem zrangeImpl_eq (strCmd : String) (startIndex stopIndex : Int32) :
    zrangeImpl text strCmd key startIndex stopIndex = .ok [cStr (Bytes.ofString strCmd), cStr key,
      Decimal.ofInt startIndex.toInt, Decimal.ofInt stopIndex.toInt] := by
  have hsent : zrangeImpl text strCmd key startIndex stopIndex =
      .ok [cStr (Bytes.ofString strCmd), cStr key,
        cStr (text (Bytes.ofString "%d") (.int startIndex.toInt)),
        cStr (text (Bytes.ofString "%d") (.int stopIndex.toInt))] :=
    redisvFormatCommand_pieces (Item.piece text (.cstr (Bytes.ofString strCmd)))
      [Item.piece text (.cstr key), IntConv.piece text .d (.int startIndex.toInt) rfl,
        IntConv.piece text .d (.int stopIndex.toInt) rfl]
  rw [hsent, h.int, h.int]

theorem zrangeWithScoresImpl_eq (strCmd : String) (startIndex stopIndex : Int32) :
    zrangeWithScoresImpl text strCmd key startIndex stopIndex =
      .ok [cStr (Bytes.ofString strCmd), cStr key, Decimal.ofInt startIndex.toInt,
        Decimal.ofInt stopIndex.toInt, Bytes.ofString "WITHSCORES"] := by
  have hsent : zrangeWithScoresImpl text strCmd key startIndex stopIndex =
      .ok [cStr (Bytes.ofString strCmd), cStr key,
        cStr (text (Bytes.ofString "%d") (.int startIndex.toInt)),
        cStr (text (Bytes.ofString "%d") (.int stopIndex.toInt)), Bytes.ofString "WITHSCORES"] :=
    redisvFormatCommand_pieces (Item.piece text (.cstr (Bytes.ofString strCmd)))
      [Item.piece text (.cstr key), IntConv.piece text .d (.int startIndex.toInt) rfl,
        IntConv.piece text .d (.int stopIndex.toInt) rfl,
        Piece.word text (Bytes.ofString "WITHSCORES") (by decide) (by decide +kernel)]
  rw [hsent, h.int, h.int]

/-- A negative bound is sent as a large one. -/
theorem zrembyscore_eq (min max : Int32) : zrembyscore text key min max =
    .ok [Bytes.ofString "ZREMRANGEBYSCORE", cStr key, Decimal.ofInt (min.toInt % 4294967296),
      Decimal.ofInt (max.toInt % 4294967296)] := by
  have hsent : zrembyscore text key min max = .ok [Bytes.ofString "ZREMRANGEBYSCORE", cStr key,
      cStr (text (Bytes.ofString "%u") (.int min.toInt)),
      cStr (text (Bytes.ofString "%u") (.int max.toInt))] :=
    redisvFormatCommand_pieces (Item.piece text (.cstr (Bytes.ofString "ZREMRANGEBYSCORE")))
      [Item.piece text (.cstr key), IntConv.piece text .u (.int min.toInt) rfl,
        IntConv.piece text .u (.int max.toInt) rfl]
  rw [hsent, h.unsigned, h.unsigned]

omit h in
theorem emod_eq_self_iff (i : Int32) : i.toInt % 4294967296 = i.toInt ↔ 0 ≤ i.toInt := by
  have hlt := i.toInt_lt
  have hle := i.le_toInt
  omega

/-- Which bounds are sent as they are. -/
theorem zrembyscore_faithful_iff (min max : Int32) :
    zrembyscore text key min max = .ok [Bytes.ofString "ZREMRANGEBYSCORE", cStr key,
      Decimal.ofInt min.toInt, Decimal.ofInt max.toInt] ↔ 0 ≤ min.toInt ∧ 0 ≤ max.toInt := by
  rw [zrembyscore_eq h, ← emod_eq_self_iff min, ← emod_eq_self_iff max]
  constructor
  · intro heq
    simp only [Except.ok.injEq, List.cons.injEq, true_and, and_true] at heq
    exact ⟨Decimal.ofInt_injective heq.1, Decimal.ofInt_injective heq.2⟩
  · rintro ⟨hmin, hmax⟩
    rw [hmin, hmax]

end Sent

/-! ## Main theorem -/

/-- **Integers are sent as they are**, by all methods and for all values of their
    types; `setMapValue` sends none if `ttl` is negative, and `zrembyscore` sends each bound
    that is not negative (for both at once see `zrembyscore_faithful_iff`). -/
theorem integers_sent {D : Type} {text : Bytes → Num D → Bytes} (h : Printf text)
    (key field val : Bytes) (unsignedTtl : UInt32) (i j : Int32) (increment : Int64) :
    expire text key unsignedTtl =
      .ok [Bytes.ofString "EXPIRE", cStr key, Decimal.ofInt unsignedTtl.toNat] ∧
    setex text key val i = .ok [Bytes.ofString "SETEX", cStr key, Decimal.ofInt i.toInt, val] ∧
    (0 ≤ i → setMapValue text key val i =
      .ok [Bytes.ofString "SETEX", cStr key, Decimal.ofInt i.toInt, val]) ∧
    (i < 0 → setMapValue text key val i = .ok [Bytes.ofString "SET", cStr key, val]) ∧
    incrby text key increment =
      .ok [Bytes.ofString "INCRBY", cStr key, Decimal.ofInt increment.toInt] ∧
    hincrby text key field increment =
      .ok [Bytes.ofString "HINCRBY", cStr key, cStr field, Decimal.ofInt increment.toInt] ∧
    zincrby text key field increment =
      .ok [Bytes.ofString "ZINCRBY", cStr key, Decimal.ofInt increment.toInt, cStr field] ∧
    (∃ min max, zrembyscore text key i j =
        .ok [Bytes.ofString "ZREMRANGEBYSCORE", cStr key, min, max] ∧
      (0 ≤ i.toInt → min = Decimal.ofInt i.toInt) ∧
      (0 ≤ j.toInt → max = Decimal.ofInt j.toInt)) ∧
    zrange text key i j =
      .ok [Bytes.ofString "ZRANGE", cStr key, Decimal.ofInt i.toInt, Decimal.ofInt j.toInt] ∧
    zrevrange text key i j =
      .ok [Bytes.ofString "ZREVRANGE", cStr key, Decimal.ofInt i.toInt, Decimal.ofInt j.toInt] ∧
    zrangeWithScores text key i j =
      .ok [Bytes.ofString "ZRANGE", cStr key, Decimal.ofInt i.toInt, Decimal.ofInt j.toInt,
        Bytes.ofString "WITHSCORES"] ∧
    zrevrangeWithScores text key i j =
      .ok [Bytes.ofString "ZREVRANGE", cStr key, Decimal.ofInt i.toInt, Decimal.ofInt j.toInt,
        Bytes.ofString "WITHSCORES"] := by
  refine ⟨expire_eq h key unsignedTtl, setex_eq h key val i, fun hi => ?_, fun hi => ?_,
    incrby_eq h key increment, hincrby_eq h key field increment,
    zincrby_eq h key field increment,
    ⟨_, _, zrembyscore_eq h key i j, fun hi => by rw [(emod_eq_self_iff i).mpr hi],
      fun hj => by rw [(emod_eq_self_iff j).mpr hj]⟩,
    zrangeImpl_eq h key "ZRANGE" i j, zrangeImpl_eq h key "ZREVRANGE" i j,
    zrangeWithScoresImpl_eq h key "ZRANGE" i j, zrangeWithScoresImpl_eq h key "ZREVRANGE" i j⟩
  · rw [setMapValue_eq h, if_neg (Int32.not_lt.mpr hi)]
  · rw [setMapValue_eq h, if_pos hi]

/-- What `printf` makes of the integers; the other conversions are not looked at. -/
def printf (format : Bytes) : Num Unit → Bytes
  | .int i =>
    if format = Bytes.ofString "%u" then Decimal.ofInt (i % 4294967296)
    else Decimal.ofInt (i.bmod 4294967296)
  | .longLong i => Decimal.ofInt (i.bmod 18446744073709551616)
  | .long i => Decimal.ofInt (i.bmod 18446744073709551616)
  | .double _ => []

theorem printf_spec : Printf printf := by
  refine ⟨fun i => ?_, fun i => ?_, fun _ => rfl⟩
  · rw [printf, if_neg (by decide)]
  · rw [printf, if_pos rfl]

/-- An increment of -1, and the last two members of a sorted set. -/
theorem integers_sent_negative :
    incrby printf (Bytes.ofString "k") (-1) =
      .ok [Bytes.ofString "INCRBY", Bytes.ofString "k", Bytes.ofString "-1"] ∧
    zrange printf (Bytes.ofString "k") (-2) (-1) =
      .ok [Bytes.ofString "ZRANGE", Bytes.ofString "k", Bytes.ofString "-2",
        Bytes.ofString "-1"] := by
  obtain ⟨-, -, -, -, hincrby, -, -, -, hzrange, -⟩ :=
    integers_sent printf_spec (Bytes.ofString "k") [] [] 0 (-2) (-1) (-1)
  exact ⟨hincrby, hzrange⟩

/-- `setMapValue` with its default `ttl` of -1. -/
theorem setMapValue_without_ttl :
    setMapValue printf (Bytes.ofString "k") (Bytes.ofString "v") (-1) =
        .ok [Bytes.ofString "SET", Bytes.ofString "k", Bytes.ofString "v"] ∧
      ∀ args, setMapValue printf (Bytes.ofString "k") (Bytes.ofString "v") (-1) = .ok args →
        Decimal.ofInt (-1) ∉ args := by
  have hsent : setMapValue printf (Bytes.ofString "k") (Bytes.ofString "v") (-1) =
      .ok [Bytes.ofString "SET", Bytes.ofString "k", Bytes.ofString "v"] := by
    rw [setMapValue_eq printf_spec, if_pos (by decide)]
    rfl
  refine ⟨hsent, fun args hargs => ?_⟩
  rw [hsent] at hargs
  obtain rfl := Except.ok.inj hargs
  decide

end Hiredispool.Client
