import Mathlib.Algebra.Order.Group.Int
import Mathlib.Data.Int.Order.Basic
import Mathlib.Tactic.NormNum

/-!
# Arithmetic on 32-bit `int`

The operations of C on a 32-bit `int`, with `none` where C gives no meaning:
an overflow, a remainder by 0, and `INT_MIN % -1`. On natural numbers within
range they agree with `+`, `-` and `%` of `ℕ`. `checkLong` is the check of a
64-bit `long` or `long long`.
-/

namespace CInt

/-- `INT_MIN`. -/
def minInt : ℤ := -2147483648

/-- `INT_MAX`. -/
def maxInt : ℤ := 2147483647

/-- `x`, if it is an `int`. -/
def check (x : ℤ) : Option ℤ := if minInt ≤ x ∧ x ≤ maxInt then some x else none

/-- `x`, if it is a `long long`. -/
def checkLong (x : ℤ) : Option ℤ :=
  if -9223372036854775808 ≤ x ∧ x ≤ 9223372036854775807 then some x else none

/-- `x + y`. -/
def add (x y : ℤ) : Option ℤ := check (x + y)

/-- `x - y`. -/
def sub (x y : ℤ) : Option ℤ := check (x - y)

/-- `x % y`, which truncates towards 0. -/
def rem (x y : ℤ) : Option ℤ :=
  if y = 0 ∨ x = minInt ∧ y = -1 then none else check (x.tmod y)

theorem check_natCast {a : ℕ} (h : a < 2 ^ 31) : check a = some (a : ℤ) := by
  unfold check minInt maxInt
  rw [if_pos]
  constructor <;> omega

theorem add_natCast {a b : ℕ} (h : a + b < 2 ^ 31) : add a b = some ((a + b : ℕ) : ℤ) := by
  rw [add, ← Nat.cast_add, check_natCast h]

theorem sub_natCast {a b : ℕ} (hb : b ≤ a) (ha : a < 2 ^ 31) :
    sub a b = some ((a - b : ℕ) : ℤ) := by
  rw [sub, ← Nat.cast_sub hb, check_natCast (by omega)]

theorem rem_natCast (a : ℕ) {b : ℕ} (h0 : 0 < b) (hb : b < 2 ^ 31) :
    rem a b = some ((a % b : ℕ) : ℤ) := by
  unfold rem
  have hlt := Nat.mod_lt a h0
  rw [if_neg (by omega), ← Int.ofNat_tmod, check_natCast (by omega)]

end CInt
