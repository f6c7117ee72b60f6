import Mathlib.Data.Nat.Log
import Mathlib.Algebra.Group.Nat.Defs

/-!
# Rounding natural numbers

`roundBits p n` is `n` rounded to `p` significant bits, ties to even, as the conversion of an integer to a binary
floating-point format of precision `p` does. Rounding commutes with scaling by powers of two, so a comparison of
dyadic values can be made on integers. Numbers below `2 ^ p` are kept, and their multiples by powers of two
(`roundBits_mul_two_pow`); any other is at most doubled (`roundBits_le`). `roundDiv` rounds a quotient in the same way,
as printing with a fixed number of decimals does.
-/

namespace Rounding

/-- `n` to `p` significant bits, to nearest, ties to even. -/
def roundBits (p n : Nat) : Nat :=
  let e := Nat.log2 n + 1 - p
  let q := n / 2 ^ e
  let r := n % 2 ^ e
  if 2 * r < 2 ^ e ∨ (2 * r = 2 ^ e ∧ q % 2 = 0) then q * 2 ^ e else (q + 1) * 2 ^ e

/-- `n / d` to nearest, ties to even. -/
def roundDiv (n d : Nat) : Nat :=
  let q := n / d
  let r := n % d
  if 2 * r < d ∨ (2 * r = d ∧ q % 2 = 0) then q else q + 1

/-- A number of at most `p` significant bits is kept. -/
theorem roundBits_mul_two_pow {p m : Nat} (k : Nat) (h : m < 2 ^ p) : roundBits p (m * 2 ^ k) = m * 2 ^ k := by
  rcases Nat.eq_zero_or_pos m with rfl | hm
  · simp [roundBits]
  · have hlog : Nat.log2 (m * 2 ^ k) = Nat.log2 m + k := by
      have hpos : m * 2 ^ k ≠ 0 := (Nat.mul_pos hm (Nat.two_pow_pos k)).ne'
      rw [Nat.log2_eq_iff hpos]
      have hlow := Nat.log2_self_le hm.ne'
      have hhigh : m < 2 ^ (Nat.log2 m + 1) := Nat.lt_log2_self
      constructor
      · rw [Nat.pow_add]
        exact Nat.mul_le_mul_right _ hlow
      · rw [Nat.add_right_comm, Nat.pow_add]
        exact Nat.mul_lt_mul_of_pos_right hhigh (Nat.two_pow_pos k)
    have hl : Nat.log2 m < p := (Nat.log2_lt hm.ne').mpr h
    have hdvd : 2 ^ (Nat.log2 (m * 2 ^ k) + 1 - p) ∣ m * 2 ^ k := by
      refine Nat.dvd_mul_left_of_dvd (Nat.pow_dvd_pow 2 ?_) m
      omega
    simp [roundBits, Nat.mod_eq_zero_of_dvd hdvd, Nat.div_mul_cancel hdvd]

/-- Rounding to at least one bit is less than doubling. -/
theorem roundBits_le {p : Nat} (hp : 0 < p) (n : Nat) : roundBits p n ≤ 2 * n := by
  rcases Nat.eq_zero_or_pos n with rfl | hn
  · simp [roundBits]
  · have hpow : 2 ^ (Nat.log2 n + 1 - p) ≤ n := by
      refine le_trans (Nat.pow_le_pow_right (by omega) ?_) (Nat.log2_self_le hn.ne')
      omega
    have hq := Nat.div_mul_le_self n (2 ^ (Nat.log2 n + 1 - p))
    simp only [roundBits]
    split
    · omega
    · rw [Nat.add_mul, Nat.one_mul]
      omega

end Rounding
