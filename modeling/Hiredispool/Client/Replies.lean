import Hiredispool.Pool.Types

/-!
# Replies

Model of what the methods of `Client` do with a reply
(`RedisClientYaf.cpp`, lines 409–460 and 549–562): its status, its number, and
the time to live of a key.

* `reply2status_ok`: an `ok` status comes with a reply.
* `ttl_faithful_iff`: which numbers `ttl` passes on, and which it takes for the
  sign of a missing key.
* `ttl_mistaken`: a time to live that it reports as a missing key.

The log call of `reportStatus` is left out.
-/

namespace Hiredispool.Client

open Hiredispool.Pool

/-! ## Types -/

/-- `redisReply` (hiredis.h, lines 112–119). `element` is the memory that
    `reply->element` points to. -/
inductive RedisReply
  | string (str : Bytes)
  | array (element : List RedisReply)
  | integer (integer : ℤ)
  | nil
  | status (str : Bytes)
  | error (str : Bytes)

/-- `RedisCommandInfo` (RedisClient.h, lines 52–57). -/
structure RedisCommandInfo where
  err : ℤ
  errstr : Bytes
  host : Bytes
  port : ℤ
deriving DecidableEq

/-- `RedisReplyPack` (lines 60–69). -/
structure RedisReplyPack where
  reply : Option RedisReply
  info : RedisCommandInfo

/-- `Status` (RedisClientYaf.h, lines 95–110). -/
structure Status where
  code : Bytes
deriving DecidableEq

namespace Status

/-- `Status("…")`. -/
def of (code : String) : Status := ⟨Bytes.ofString code⟩

/-- `ok()`. -/
def ok (s : Status) : Bool := s.code = Bytes.ofString "ok" ∨ s.code = Bytes.ofString "not_found"

/-- `not_found()`. -/
def notFound (s : Status) : Bool := s.code = Bytes.ofString "not_found"

end Status

/-! ## `reply2status`, `reply2integer` and `ttl` -/

/-- The status of a command without a reply (lines 414–429). -/
def errorStatus (info : RedisCommandInfo) : Status :=
  if info.err = 1 then ⟨Bytes.ofString "REDIS_ERR_IO " ++ info.errstr⟩
  else if info.err = 3 then ⟨Bytes.ofString "REDIS_ERR_EOF " ++ info.errstr⟩
  else if info.err = 4 then ⟨Bytes.ofString "REDIS_ERR_PROTOCOL " ++ info.errstr⟩
  else if info.err = 5 then ⟨Bytes.ofString "REDIS_ERR_OOM " ++ info.errstr⟩
  else if info.err = 2 then ⟨Bytes.ofString "REDIS_ERR_OTHER " ++ info.errstr⟩
  else if info.err = 0 then Status.of "NO_ERR but reply is null?!"
  else ⟨Bytes.ofString "ERR " ++ info.errstr⟩

/-- The status of a reply (lines 431–440). -/
def replyStatus : RedisReply → Status
  | .error str => ⟨cStr str⟩
  | .nil => Status.of "not_found"
  | _ => Status.of "ok"

/-- `reply2status` (lines 409–442). -/
def reply2status : Option RedisReplyPack → Status
  | none => Status.of "CONFIG_ERR"
  | some p =>
    match p.reply with
    | none => errorStatus p.info
    | some reply => replyStatus reply

/-- The conversion of a `RedisReplyPtr` to `redisReply*` (RedisClient.h, line 122). -/
def replyOf (p : Option RedisReplyPack) : Option RedisReply := p.bind RedisReplyPack.reply

/-- `reply2integer` (lines 454–460). -/
def reply2integer : Option RedisReply → ℤ
  | some (.integer n) => n
  | _ => 0

/-- The conversion of an `int64_t` to an `int`. -/
def toInt (n : ℤ) : ℤ := n.bmod 4294967296

/-- `ttl` (lines 549–562) on what the command returned: the status, and the output
    parameter. -/
def ttl (p : Option RedisReplyPack) (ttl : ℤ) : Status × ℤ :=
  let status := reply2status p
  if status.ok then
    let ttl := toInt (reply2integer (replyOf p))
    (if ttl = -2 then Status.of "not_found" else status, ttl)
  else (status, ttl)

/-! ## Statuses -/

theorem ok_head {s : Status} (h : s.ok = true) :
    s.code.head? = some 111 ∨ s.code.head? = some 110 := by
  rcases of_decide_eq_true h with h | h
  · rw [h]; exact Or.inl rfl
  · rw [h]; exact Or.inr rfl

/-- The texts of the errors begin with a capital letter, with `N` if `err` is 0. -/
theorem errorStatus_head (info : RedisCommandInfo) :
    (errorStatus info).code.head? = some 82 ∨ (errorStatus info).code.head? = some 69 ∨
      info.err = 0 ∧ (errorStatus info).code.head? = some 78 := by
  unfold errorStatus
  split_ifs with h₁ h₂ h₃ h₄ h₅ h₀
  · exact Or.inl rfl
  · exact Or.inl rfl
  · exact Or.inl rfl
  · exact Or.inl rfl
  · exact Or.inl rfl
  · exact Or.inr (Or.inr ⟨h₀, rfl⟩)
  · exact Or.inr (Or.inl rfl)

theorem errorStatus_not_ok (info : RedisCommandInfo) : (errorStatus info).ok = false := by
  by_contra hok
  have hlower := ok_head (eq_true_of_ne_false hok)
  rcases errorStatus_head info with h | h | ⟨-, h⟩ <;> rw [h] at hlower <;> simp at hlower

theorem errorStatus_ne_noErr {info : RedisCommandInfo} (h : info.err ≠ 0) :
    errorStatus info ≠ Status.of "NO_ERR but reply is null?!" := by
  intro heq
  have hhead : (errorStatus info).code.head? = some 78 := by
    rw [heq]
    rfl
  rcases errorStatus_head info with h' | h' | ⟨h', -⟩
  · rw [h'] at hhead; simp at hhead
  · rw [h'] at hhead; simp at hhead
  · exact h h'

/-- A status that is `ok` comes with a reply. -/
theorem reply2status_ok {p : Option RedisReplyPack} (h : (reply2status p).ok = true) :
    ∃ reply, replyOf p = some reply ∧ reply2status p = replyStatus reply := by
  cases p with
  | none => cases h
  | some p =>
    cases hr : p.reply with
    | none =>
      have hstatus : reply2status (some p) = errorStatus p.info := by simp [reply2status, hr]
      rw [hstatus, errorStatus_not_ok] at h
      cases h
    | some reply => exact ⟨reply, hr, by simp [reply2status, hr]⟩

/-! ## The time to live -/

theorem toInt_eq_self_iff (n : ℤ) : toInt n = n ↔ -2147483648 ≤ n ∧ n < 2147483648 := by
  rw [toInt, Int.bmod_def]
  split <;> omega

/-- The numbers that an `int` cannot tell from `-2`. -/
theorem toInt_eq_missing_iff (n : ℤ) : toInt n = -2 ↔ n % 4294967296 = 4294967294 := by
  rw [toInt, Int.bmod_def]
  split <;> omega

/-- The pack of an integer reply. -/
def integerPack (info : RedisCommandInfo) (r : ℤ) : RedisReplyPack := ⟨some (.integer r), info⟩

theorem ttl_integer (info : RedisCommandInfo) (r ttl₀ : ℤ) :
    ttl (some (integerPack info r)) ttl₀ =
      (if toInt r = -2 then Status.of "not_found" else Status.of "ok", toInt r) := rfl

/-- The number that a server answers to TTL for a key that expires is stored, and
    the key is not reported as missing: for all times to live that `expire` can
    send. And a key is reported as missing only if the answer is -2. -/
def TtlFaithful (info : RedisCommandInfo) (ttl₀ r : ℤ) : Prop :=
  (∀ t : UInt32, 0 ≤ r → r ≤ t.toNat →
    (ttl (some (integerPack info r)) ttl₀).2 = r ∧
      (ttl (some (integerPack info r)) ttl₀).1.ok = true ∧
      (ttl (some (integerPack info r)) ttl₀).1.notFound = false) ∧
  ((ttl (some (integerPack info r)) ttl₀).1.notFound = true → r = -2)

/-- **The time to live is reported faithfully** exactly if the answer is not a
    `uint32_t` that is too large for an `int`, nor a number other than -2 that an
    `int` cannot tell from -2. -/
theorem ttl_faithful_iff (info : RedisCommandInfo) (ttl₀ r : ℤ) :
    TtlFaithful info ttl₀ r ↔
      ¬(2147483648 ≤ r ∧ r < 4294967296) ∧ (r % 4294967296 = 4294967294 → r = -2) := by
  unfold TtlFaithful
  simp only [ttl_integer]
  have hmissing : ((if toInt r = -2 then Status.of "not_found" else Status.of "ok").notFound = true) ↔
      r % 4294967296 = 4294967294 := by
    rw [← toInt_eq_missing_iff]
    split
    · rename_i h; exact iff_of_true (by decide) h
    · rename_i h; exact iff_of_false (by decide) h
  constructor
  · rintro ⟨hstored, hfound⟩
    refine ⟨?_, fun hr => hfound (hmissing.mpr hr)⟩
    rintro ⟨hle, hlt⟩
    obtain ⟨heq, -, -⟩ := hstored 4294967295 (by omega) (by
      show r ≤ 4294967295; omega)
    have hfits := (toInt_eq_self_iff r).mp heq
    omega
  · rintro ⟨hfits, hfound⟩
    refine ⟨fun t h0 ht => ?_, fun h => hfound (hmissing.mp h)⟩
    have hlt := t.toNat_lt
    have hsame : toInt r = r := (toInt_eq_self_iff r).mpr (by omega)
    rw [hsame, if_neg (by omega)]
    exact ⟨rfl, by decide, by decide⟩

/-- A key that expires in 4294967294 seconds is reported as missing. -/
theorem ttl_mistaken :
    ttl (some (integerPack ⟨0, [], [], 6379⟩ 4294967294)) 0 = (Status.of "not_found", -2) ∧
      ¬TtlFaithful ⟨0, [], [], 6379⟩ 0 4294967294 := by
  refine ⟨by decide, ?_⟩
  rw [ttl_faithful_iff]
  decide

end Hiredispool.Client
