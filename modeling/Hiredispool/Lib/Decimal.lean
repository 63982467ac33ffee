import Mathlib.Data.Nat.Digits.Defs
import Mathlib.Data.Nat.Digits.Lemmas

/-!
# The decimal text of an integer

`ofInt i` is what `printf` makes of `i`: a minus sign for a negative number, then
the digits without leading zeros. `toInt` reads it back, so different numbers
have different texts; a text has no NUL.
-/

namespace Decimal

/-- The digit `d`. -/
def digit (d : ℕ) : UInt8 := UInt8.ofNat (48 + d)

/-- The digits of `n`, the most significant one first. -/
def ofNat (n : ℕ) : List UInt8 :=
  if n = 0 then [digit 0] else (Nat.digits 10 n).reverse.map digit

/-- The text of `i`. -/
def ofInt (i : ℤ) : List UInt8 := if i < 0 then 45 :: ofNat i.natAbs else ofNat i.natAbs

/-- The number with the given digits. -/
def toNat (l : List UInt8) : ℕ := l.foldl (fun n b => 10 * n + (b.toNat - 48)) 0

/-- The number with the given text. -/
def toInt : List UInt8 → ℤ
  | [] => 0
  | b :: l => if b = 45 then -(toNat l : ℤ) else toNat (b :: l)

theorem toNat_digit {d : ℕ} (h : d < 10) : (digit d).toNat = 48 + d := by
  unfold digit
  rw [UInt8.toNat_ofNat', Nat.mod_eq_of_lt (by omega)]

theorem mem_ofNat {n : ℕ} {b : UInt8} (h : b ∈ ofNat n) : ∃ d, d < 10 ∧ b = digit d := by
  unfold ofNat at h
  split at h
  · exact ⟨0, by omega, List.mem_singleton.mp h⟩
  · obtain ⟨d, hd, rfl⟩ := List.mem_map.mp h
    exact ⟨d, Nat.digits_lt_base (by omega) (List.mem_reverse.mp hd), rfl⟩

theorem ofNat_ne_nil (n : ℕ) : ofNat n ≠ [] := by
  unfold ofNat
  split
  · simp
  · rename_i h
    simpa [Nat.digits_eq_nil_iff_eq_zero] using h

/-- Reading the digits from the most significant one on is Horner's rule. -/
theorem toNat_ofNat (n : ℕ) : toNat (ofNat n) = n := by
  unfold ofNat
  split
  · rename_i h
    rw [h]; rfl
  · have hhorner : ∀ l : List ℕ, (∀ d ∈ l, d < 10) →
        toNat (l.reverse.map digit) = Nat.ofDigits 10 l := by
      intro l hl
      induction l with
      | nil => rfl
      | cons d l ih =>
        have hd := toNat_digit (hl d List.mem_cons_self)
        have hrest := ih fun x hx => hl x (List.mem_cons_of_mem d hx)
        unfold toNat at hrest ⊢
        rw [List.reverse_cons, List.map_append, List.foldl_append, hrest, Nat.ofDigits_cons]
        show 10 * _ + ((digit d).toNat - 48) = _
        rw [hd]
        omega
    rw [hhorner _ fun d hd => Nat.digits_lt_base (by omega) hd, Nat.ofDigits_digits]

theorem toInt_ofInt (i : ℤ) : toInt (ofInt i) = i := by
  unfold ofInt
  split
  · rename_i h
    show -(toNat (ofNat i.natAbs) : ℤ) = i
    rw [toNat_ofNat]
    omega
  · cases hl : ofNat i.natAbs with
    | nil => exact absurd hl (ofNat_ne_nil _)
    | cons b l =>
      have hb : b ≠ 45 := by
        rintro rfl
        obtain ⟨d, hd, he⟩ := mem_ofNat (n := i.natAbs) (b := 45) (by rw [hl]; simp)
        have hval := congrArg UInt8.toNat he
        rw [toNat_digit hd] at hval
        have : (45 : UInt8).toNat = 45 := rfl
        omega
      rw [toInt, if_neg hb, ← hl, toNat_ofNat]
      omega

theorem ofInt_injective : Function.Injective ofInt :=
  Function.LeftInverse.injective toInt_ofInt

theorem zero_not_mem_ofInt (i : ℤ) : (0 : UInt8) ∉ ofInt i := by
  have hdigits : (0 : UInt8) ∉ ofNat i.natAbs := by
    intro h
    obtain ⟨d, hd, he⟩ := mem_ofNat h
    have hval := congrArg UInt8.toNat he
    rw [toNat_digit hd] at hval
    have : (0 : UInt8).toNat = 0 := rfl
    omega
  unfold ofInt
  split
  · intro h
    rcases List.mem_cons.mp h with h | h
    · cases h
    · exact hdigits h
  · exact hdigits

end Decimal
