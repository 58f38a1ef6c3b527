/-
# Whole numbers are exact

A whole number of at most 53 binary digits is a number of double precision, so rounding leaves it as
it is (`toBinary_natCast`).  Its last place stands behind the point or right in front of it
(`lastPlace_natCast`), so that in units of its last place it is a whole number again.
-/

import Mathlib.Algebra.Order.Field.Rat
import Mathlib.Algebra.Order.Ring.Cast
import Mathlib.Data.Rat.Cast.Lemmas
import RobotSuite.Number.Binary

namespace RobotSuite
namespace Number

/-- A whole number is not rounded. -/
theorem roundHalfEven_one (n : Nat) : roundHalfEven n 1 = n := by
  simp [roundHalfEven, Nat.mod_one]

/-- Powers of two in front of the point. -/
theorem twoPow_natCast (k : Nat) : twoPow k = 2 ^ k := by
  simp [twoPow]

/-- Powers of two behind the point. -/
theorem twoPow_neg (k : Nat) : twoPow (-k) = 1 / 2 ^ k := by
  cases k with
  | zero => simp [twoPow]
  | succ k =>
    have hneg : ¬ (0 : Int) ≤ -((k + 1 : Nat) : Int) := by omega
    rw [twoPow, if_neg hneg]
    simp

/-- The last of 53 binary digits of an integer with no more of them stands behind the point or
right in front of it. -/
theorem lastPlace_natCast {n : Nat} (hn : n ≠ 0) (h : n < 2 ^ 53) :
    lastPlace (n : Rat) = -((52 - Nat.log2 n : Nat) : Int) := by
  have hlead : ¬ (n : Rat) < twoPow (Nat.log2 n) := by
    rw [twoPow_natCast, not_lt]
    exact_mod_cast Nat.log2_self_le hn
  have hlog : Nat.log2 n < 53 := (Nat.log2_lt hn).2 h
  have hone : Nat.log2 1 = 0 := by decide
  rw [lastPlace, Rat.num_natCast, Rat.den_natCast, Int.natAbs_natCast, hone, Nat.cast_zero,
    Int.sub_zero, if_neg hlead]
  omega

/-- **An integer of 53 binary digits is a number of double precision.** -/
theorem toBinary_natCast {n : Nat} (h : n < 2 ^ 53) : toBinary (n : Rat) = n := by
  by_cases hn : n = 0
  · subst hn
    rfl
  · have hne : (n : Rat) ≠ 0 := by exact_mod_cast hn
    have hsign : ¬ (n : Rat) < 0 := not_lt.2 (Nat.cast_nonneg n)
    have hpow (k : Nat) : (2 : Rat) ^ k ≠ 0 := pow_ne_zero k two_ne_zero
    have hmantissa (k : Nat) : mantissa n (-k) = n * 2 ^ k := by
      have hscaled : (n : Rat) / twoPow (-k) = ((n * 2 ^ k : Nat) : Rat) := by
        rw [twoPow_neg, div_div_eq_mul_div, div_one]
        push_cast
        rfl
      rw [mantissa, hscaled, Rat.num_natCast, Rat.den_natCast, Int.natAbs_natCast,
        roundHalfEven_one]
    have hexact (k : Nat) : ((n * 2 ^ k : Nat) : Rat) * twoPow (-k) = n := by
      rw [twoPow_neg, Nat.cast_mul, Nat.cast_pow, Nat.cast_ofNat, mul_assoc, mul_one_div,
        div_self (hpow k), mul_one]
    have hsmall : ¬ twoPow 1024 ≤ (n : Rat) := by
      have hlimit : (n : Rat) < 2 ^ 53 := by exact_mod_cast h
      have hle : (2 : Rat) ^ 53 ≤ 2 ^ 1024 := pow_le_pow_right₀ one_le_two (by decide)
      rw [show twoPow 1024 = 2 ^ 1024 from twoPow_natCast 1024, not_le]
      exact hlimit.trans_le hle
    rw [toBinary, toBinary?, if_neg hne]
    dsimp only
    rw [if_neg hsign, lastPlace_natCast hn h, hmantissa, hexact, if_neg hsmall, if_neg hsign]
    rfl

end Number
end RobotSuite
