-- Common divisors and multiples of integers of either sign. Alignments are combined with these,
-- and the remainder is the one that takes the sign of the divisor. The functions are `gcd` and
-- `lcm`.

namespace DataLayout

/-! ## The remainder -/

/-- A floored remainder is smaller than its divisor, so Euclid's loop ends. -/
theorem natAbs_fmod_lt (x : Int) {y : Int} (h : y ≠ 0) : (x.fmod y).natAbs < y.natAbs := by
  rcases Int.lt_or_gt_of_ne h with neg | pos
  · have low : y < x.fmod y := by
      rw [Int.fmod_eq_emod]
      have := Int.emod_nonneg x h
      have := Int.emod_lt_of_neg x neg
      split <;> omega
    have high : x.fmod y ≤ 0 := by
      rw [Int.fmod_eq_emod]
      have := Int.emod_lt_of_neg x neg
      have := Int.emod_nonneg x h
      have := @Int.dvd_iff_emod_eq_zero y x
      split
      · rename_i cond
        rcases cond with cond | cond
        · omega
        · have := this.mp cond
          omega
      · omega
    omega
  · have := Int.fmod_nonneg_of_pos x pos
    have := Int.fmod_lt_of_pos x pos
    omega

/-! ## Divisors and multiples -/

/-- Euclid's loop. The result takes the sign of the last divisor. -/
def gcd (x y : Int) : Int :=
  if h : y = 0 then x
  else
    have := natAbs_fmod_lt x h
    gcd y (x.fmod y)
termination_by y.natAbs

theorem gcd_zero_right (x : Int) : gcd x 0 = x := by
  rw [gcd]; simp

theorem gcd_of_ne_zero (x : Int) {y : Int} (h : y ≠ 0) : gcd x y = gcd y (x.fmod y) := by
  rw [gcd]; simp [h]

/-- The common multiple of two integers, and none for two zeros. -/
def lcm (x y : Int) : Option Int :=
  if x = 0 ∧ y = 0 then none else some ((x * y).fdiv (gcd x y))

theorem lcm_eq_none_iff (x y : Int) : lcm x y = none ↔ x = 0 ∧ y = 0 := by
  simp [lcm]

end DataLayout
