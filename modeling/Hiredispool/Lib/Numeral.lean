import Hiredispool.Lib.Decimal

/-!
# Numbers of a given width

`decimal w i` is what `printf` makes of `i` with `%0*d`, and `hex w n` what it makes
of `n` with `%0*X`: zeros are put in front of the digits, behind the sign, up to `w`
characters. A number that needs more characters gets them.

* `length_decimal`, `length_hex`: how long a text is.
* `mem_decimal`, `mem_hex`: what stands in it.
-/

namespace Numeral

/-- What holds of each of the 256 characters. -/
theorem forall_uint8 {P : UInt8 → Prop} (h : ∀ n : Fin 256, P (UInt8.ofNat n)) (p : UInt8) :
    P p := by
  have hp := h ⟨p.toNat, p.toNat_lt⟩
  rwa [UInt8.ofNat_toNat] at hp

/-- The digits of `n` in base `b`, the most significant one first. -/
def numeral (b : ℕ) (digit : ℕ → UInt8) (n : ℕ) : List UInt8 :=
  if n = 0 then [digit 0] else (Nat.digits b n).reverse.map digit

theorem numeral_decimal (n : ℕ) : numeral 10 Decimal.digit n = Decimal.ofNat n := rfl

theorem length_numeral_le_iff {b k : ℕ} (hb : 1 < b) (hk : 0 < k) (digit : ℕ → UInt8) (n : ℕ) :
    (numeral b digit n).length ≤ k ↔ n < b ^ k := by
  unfold numeral
  split
  · rename_i h
    rw [h]
    exact iff_of_true hk (Nat.pow_pos (by omega))
  · rw [List.length_map, List.length_reverse, Nat.digits_length_le_iff hb]

theorem mem_numeral {b n : ℕ} {digit : ℕ → UInt8} {x : UInt8} (hb : 1 < b)
    (h : x ∈ numeral b digit n) : ∃ d, d < b ∧ x = digit d := by
  unfold numeral at h
  split at h
  · exact ⟨0, by omega, List.mem_singleton.mp h⟩
  · obtain ⟨d, hd, rfl⟩ := List.mem_map.mp h
    exact ⟨d, Nat.digits_lt_base hb (List.mem_reverse.mp hd), rfl⟩

/-- `l` behind as many zeros as make it `w` characters long. -/
def padTo (w : ℕ) (l : List UInt8) : List UInt8 := List.replicate (w - l.length) 48 ++ l

theorem length_padTo (w : ℕ) (l : List UInt8) : (padTo w l).length = max w l.length := by
  unfold padTo
  rw [List.length_append, List.length_replicate]
  omega

theorem mem_padTo {w : ℕ} {l : List UInt8} {x : UInt8} (h : x ∈ padTo w l) : x = 48 ∨ x ∈ l := by
  rcases List.mem_append.mp h with h | h
  · exact Or.inl (List.eq_of_mem_replicate h)
  · exact Or.inr h

/-- `%0*d`. -/
def decimal (w : ℕ) (i : ℤ) : List UInt8 :=
  if i < 0 then 45 :: padTo (w - 1) (Decimal.ofNat i.natAbs) else padTo w (Decimal.ofNat i.natAbs)

/-- The digit `d`, with capital letters. -/
def hexDigit (d : ℕ) : UInt8 := if d < 10 then .ofNat (48 + d) else .ofNat (55 + d)

/-- `%0*X`. -/
def hex (w n : ℕ) : List UInt8 := padTo w (numeral 16 hexDigit n)

theorem length_decimal_le {w k : ℕ} {i : ℤ} (hw : w ≤ k) (hlow : -10 ^ (k - 1) < i)
    (hhigh : i < 10 ^ k) (hk : 1 < k) : (decimal w i).length ≤ k := by
  unfold decimal
  split
  · have hlen : (Decimal.ofNat i.natAbs).length ≤ k - 1 := by
      rw [← numeral_decimal, length_numeral_le_iff (by omega) (by omega)]
      zify
      rw [abs_of_neg (by assumption)]
      omega
    rw [List.length_cons, length_padTo]
    omega
  · have hlen : (Decimal.ofNat i.natAbs).length ≤ k := by
      rw [← numeral_decimal, length_numeral_le_iff (by omega) (by omega)]
      zify
      rw [abs_of_nonneg (by omega)]
      exact hhigh
    rw [length_padTo]
    omega

theorem le_length_decimal (w : ℕ) (i : ℤ) : w ≤ (decimal w i).length := by
  unfold decimal
  split
  · rw [List.length_cons, length_padTo]
    omega
  · rw [length_padTo]
    omega

/-- A natural number that has at most `w` digits. -/
theorem length_decimal {w n : ℕ} (hw : 0 < w) (h : n < 10 ^ w) : (decimal w n).length = w := by
  have hlen : (Decimal.ofNat n).length ≤ w := by
    rwa [← numeral_decimal, length_numeral_le_iff (by omega) hw]
  rw [decimal, if_neg (by omega), length_padTo, Int.natAbs_natCast]
  omega

theorem mem_decimal {w : ℕ} {i : ℤ} {x : UInt8} (h : x ∈ decimal w i) :
    x = 45 ∨ 48 ≤ x.toNat ∧ x.toNat ≤ 57 := by
  have hdigit : ∀ k, x ∈ padTo k (Decimal.ofNat i.natAbs) → 48 ≤ x.toNat ∧ x.toNat ≤ 57 := by
    intro k hx
    rcases mem_padTo hx with rfl | hx
    · decide
    · obtain ⟨d, hd, rfl⟩ := Decimal.mem_ofNat hx
      rw [Decimal.toNat_digit hd]
      omega
  unfold decimal at h
  split at h
  · rcases List.mem_cons.mp h with h | h
    · exact Or.inl h
    · exact Or.inr (hdigit _ h)
  · exact Or.inr (hdigit _ h)

theorem length_hex_le_iff {w k : ℕ} (hk : 0 < k) (n : ℕ) :
    (hex w n).length ≤ k ↔ w ≤ k ∧ n < 16 ^ k := by
  unfold hex
  rw [length_padTo, max_le_iff, length_numeral_le_iff (by omega) hk]

theorem mem_hex {w n : ℕ} {x : UInt8} (h : x ∈ hex w n) :
    48 ≤ x.toNat ∧ x.toNat ≤ 57 ∨ 65 ≤ x.toNat ∧ x.toNat ≤ 70 := by
  rcases mem_padTo h with rfl | h
  · exact Or.inl (by decide)
  · obtain ⟨d, hd, rfl⟩ := mem_numeral (by omega) h
    unfold hexDigit
    split
    · rw [UInt8.toNat_ofNat', Nat.mod_eq_of_lt (by omega)]
      omega
    · rw [UInt8.toNat_ofNat', Nat.mod_eq_of_lt (by omega)]
      omega

end Numeral
