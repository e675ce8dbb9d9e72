/-
# `Binary64` — rounding to 53 bits

The numbers of a double that is neither very large nor very small are the rationals that
rounding leaves alone: `round` goes to the nearest multiple of the unit in the last place,
and to the even one of two.  Overflow and subnormal numbers are not treated.

Integers of up to 53 bits are exact (`round_intCast`).
-/
import Mathlib.Data.Int.Log
import Mathlib.Data.Rat.Floor
import Mathlib.Tactic.FieldSimp
import Mathlib.Tactic.NormNum
import Mathlib.Tactic.Ring

namespace Binary64

/-- The nearest integer, and the even one if there are two. -/
def nearest (q : ℚ) : ℤ :=
  if q - ⌊q⌋ < 1 / 2 then ⌊q⌋
  else if 1 / 2 < q - ⌊q⌋ then ⌊q⌋ + 1
  else if ⌊q⌋ % 2 = 0 then ⌊q⌋
  else ⌊q⌋ + 1

/-- The unit in the last place. -/
def ulp (q : ℚ) : ℚ := 2 ^ (Int.log 2 |q| - 52)

/-- The nearest double. -/
def round (q : ℚ) : ℚ := if q = 0 then 0 else nearest (q / ulp q) * ulp q

/-- The integer part, as conversions to integers take it. -/
def truncate (q : ℚ) : ℤ := if 0 ≤ q then ⌊q⌋ else ⌈q⌉

theorem nearest_intCast (n : ℤ) : nearest n = n := by
  simp [nearest]

/-- A multiple of the unit is its own rounding. -/
theorem round_of_multiple {q : ℚ} {m : ℤ} (h : q = m * ulp q) : round q = q := by
  unfold round
  split_ifs with hzero
  · exact hzero.symm
  · have hulp : ulp q ≠ 0 := zpow_ne_zero _ two_ne_zero
    have hdiv : q / ulp q = m := by
      rw [div_eq_iff hulp]
      exact h
    rw [hdiv, nearest_intCast]
    exact h.symm

theorem round_intCast {n : ℤ} (h : n.natAbs < 2 ^ 53) : round n = n := by
  have hlog : Int.log 2 |(n : ℚ)| = Nat.log 2 n.natAbs := by
    rw [← Int.cast_abs, Int.abs_eq_natAbs, Int.cast_natCast, Int.log_natCast]
  have hle : Nat.log 2 n.natAbs ≤ 52 := by
    rcases Nat.eq_zero_or_pos n.natAbs with hzero | hpos
    · simp [hzero]
    · exact Nat.lt_succ_iff.mp (Nat.log_lt_of_lt_pow hpos.ne' h)
  obtain ⟨k, hk⟩ := Nat.exists_eq_add_of_le hle
  have hulp : ulp (n : ℚ) = (2 ^ k)⁻¹ := by
    have hexp : (Nat.log 2 n.natAbs : ℤ) - 52 = -(k : ℤ) := by omega
    rw [ulp, hlog, hexp, zpow_neg, zpow_natCast]
  refine round_of_multiple (m := n * 2 ^ k) ?_
  rw [hulp]
  push_cast
  field_simp

theorem truncate_intCast (n : ℤ) : truncate n = n := by
  simp [truncate]

end Binary64
