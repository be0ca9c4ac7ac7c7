-- The laws of divisors and multiples for integers of either sign. Euclid's loop ends, and what it
-- ends with is the greatest common divisor with the sign of the second number, since a remainder
-- that is left has the sign of its divisor. So a common multiple is divided without a rest.
import DataLayout.Proofs.Arithmetic

namespace DataLayout

/-! ## The turns of the loop -/

/-- Euclid's loop ends on two numbers after some turns, with this result. In each turn the second
number becomes the first one, and the remainder becomes the second one. -/
inductive LoopEnds : Int → Int → Nat → Int → Prop
  | stop (x : Int) : LoopEnds x 0 0 x
  | turn {x y result : Int} {turns : Nat} (h : y ≠ 0)
      (hrest : LoopEnds y (x.fmod y) turns result) : LoopEnds x y (turns + 1) result

/-- Each turn makes the second number smaller, so there are no more turns than it counts. -/
theorem loopEnds_gcd (x y : Int) : ∃ turns ≤ y.natAbs, LoopEnds x y turns (gcd x y) := by
  induction x, y using gcd.induct with
  | case1 x =>
    rw [gcd_zero_right]
    exact ⟨0, Nat.zero_le _, .stop x⟩
  | case2 x y h hless ih =>
    obtain ⟨turns, hturns, hends⟩ := ih
    rw [gcd_of_ne_zero x h]
    exact ⟨turns + 1, by omega, .turn h hends⟩

/-! ## Signs -/

/-- A remainder that is left has the sign of its divisor. -/
theorem sign_fmod {x y : Int} (hy : y ≠ 0) (hrest : x.fmod y ≠ 0) :
    (x.fmod y).sign = y.sign := by
  rcases Int.lt_or_gt_of_ne hy with hneg | hpos
  · have hflipped := Int.fmod_nonneg_of_pos (-x) (by omega : 0 < -y)
    rw [Int.neg_fmod_neg] at hflipped
    rw [Int.sign_eq_neg_one_of_neg hneg, Int.sign_eq_neg_one_of_neg (by omega)]
  · have hnonneg := Int.fmod_nonneg_of_pos x hpos
    rw [Int.sign_eq_one_of_pos hpos, Int.sign_eq_one_of_pos (by omega)]

/-- All divisors in the loop have one sign, so the result has it too. -/
theorem sign_gcd (x : Int) {y : Int} (hy : y ≠ 0) : (gcd x y).sign = y.sign := by
  induction x, y using gcd.induct with
  | case1 x => exact absurd rfl hy
  | case2 x y h _ ih =>
    rw [gcd_of_ne_zero x h]
    by_cases hrest : x.fmod y = 0
    · rw [hrest, gcd_zero_right]
    · rw [ih hrest, sign_fmod h hrest]

theorem gcd_eq_sign_mul (x : Int) {y : Int} (hy : y ≠ 0) :
    gcd x y = y.sign * (Nat.gcd x.natAbs y.natAbs : Int) := by
  calc gcd x y = (gcd x y).sign * ((gcd x y).natAbs : Int) := (Int.sign_mul_natAbs _).symm
    _ = y.sign * (Nat.gcd x.natAbs y.natAbs : Int) := by
      rw [sign_gcd x hy, natAbs_gcd]
      rfl

/-! ## Multiples -/

theorem gcd_ne_zero {x y : Int} (h : ¬ (x = 0 ∧ y = 0)) : gcd x y ≠ 0 := by
  rw [← Int.natAbs_ne_zero, natAbs_gcd]
  exact fun hzero => h (Int.gcd_eq_zero_iff.mp hzero)

theorem gcd_dvd_mul (x y : Int) : gcd x y ∣ x * y := by
  rw [← Int.natAbs_dvd, natAbs_gcd]
  exact Dvd.dvd.mul_left (Int.gcd_dvd_right x y) x

/-- The division of the product leaves nothing. The signs of the divisor and of the second number
are the same, so they cancel. -/
theorem exists_lcm {x y : Int} (h : ¬ (x = 0 ∧ y = 0)) :
    ∃ multiple, lcm x y = some multiple ∧ multiple * gcd x y = x * y ∧
      multiple * (Nat.gcd x.natAbs y.natAbs : Int) = x * (y.natAbs : Int) := by
  have hexact : (x * y).fdiv (gcd x y) * gcd x y = x * y :=
    Int.fdiv_mul_cancel (gcd_dvd_mul x y)
  refine ⟨(x * y).fdiv (gcd x y), if_neg h, hexact, ?_⟩
  generalize (x * y).fdiv (gcd x y) = multiple at hexact
  by_cases hy : y = 0
  · subst hy
    have hzero : multiple = 0 :=
      (Int.mul_eq_zero.mp (hexact.trans (Int.mul_zero x))).resolve_right (gcd_ne_zero h)
    rw [hzero, Int.zero_mul, Int.natAbs_zero, Int.natCast_zero, Int.mul_zero]
  · have hsquare : y.sign * y.sign = 1 := by
      rcases Int.lt_or_gt_of_ne hy with hneg | hpos
      · rw [Int.sign_eq_neg_one_of_neg hneg]
        rfl
      · rw [Int.sign_eq_one_of_pos hpos]
        rfl
    calc multiple * (Nat.gcd x.natAbs y.natAbs : Int)
        = multiple * (y.sign * (Nat.gcd x.natAbs y.natAbs : Int)) * y.sign := by
          rw [Int.mul_left_comm, Int.mul_comm y.sign, Int.mul_assoc, hsquare, Int.mul_one]
      _ = x * (y * y.sign) := by rw [← gcd_eq_sign_mul x hy, hexact, Int.mul_assoc]
      _ = x * (y.natAbs : Int) := by rw [Int.mul_sign_self]

/-- The multiples of the common multiple of two positive numbers are their common multiples. -/
theorem leastMultiple_lcm {x y : Int} (hx : 1 ≤ x) (hy : 1 ≤ y) :
    LeastMultiple [x, y] (Int.lcm x y) where
  positive := one_le_lcm hx hy
  dvd_iff := fun multiple => by
    rw [Int.coe_lcm_dvd_iff, List.forall_mem_cons, List.forall_mem_singleton]

theorem lcm_assoc_of_pos {x y z : Int} (hx : 1 ≤ x) (hy : 1 ≤ y) (hz : 1 ≤ z) :
    (lcm x y).bind (lcm · z) = (lcm y z).bind (lcm x) := by
  rw [lcm_of_pos hx hy, lcm_of_pos hy hz, Option.bind_some, Option.bind_some,
    lcm_of_pos (one_le_lcm hx hy) hz, lcm_of_pos hx (one_le_lcm hy hz), Int.lcm_assoc]

/-! ## The law -/

/-- Euclid's loop ends on all integers. It ends with the greatest common divisor, which has the sign
of the second number, or with the first number if the second one is zero. Only two zeros have no
common multiple. Any other two numbers have a divisor to divide by, nothing is left of the
division, and the common multiple is the first number times the size of the second one, divided
by their greatest common divisor. For positive numbers it is the least common multiple, in whatever
order they come and are put together. -/
theorem euclids_loop_ends_with_the_signed_divisor (x y : Int) :
    (∃ turns ≤ y.natAbs, LoopEnds x y turns (gcd x y)) ∧
    gcd x 0 = x ∧
    (y ≠ 0 → gcd x y = y.sign * (Nat.gcd x.natAbs y.natAbs : Int)) ∧
    (lcm x y = none ↔ x = 0 ∧ y = 0) ∧
    (¬ (x = 0 ∧ y = 0) → gcd x y ≠ 0 ∧ ∃ multiple, lcm x y = some multiple ∧
      multiple * gcd x y = x * y ∧
      multiple * (Nat.gcd x.natAbs y.natAbs : Int) = x * (y.natAbs : Int)) ∧
    (1 ≤ x → 1 ≤ y → (∃ multiple, lcm x y = some multiple ∧ LeastMultiple [x, y] multiple) ∧
      lcm x y = lcm y x ∧
      ∀ z, 1 ≤ z → (lcm x y).bind (lcm · z) = (lcm y z).bind (lcm x)) := by
  refine ⟨loopEnds_gcd x y, gcd_zero_right x, gcd_eq_sign_mul x, lcm_eq_none_iff x y,
    fun h => ⟨gcd_ne_zero h, exists_lcm h⟩, fun hx hy => ⟨?_, ?_, ?_⟩⟩
  · exact ⟨_, lcm_of_pos hx hy, leastMultiple_lcm hx hy⟩
  · rw [lcm_of_pos hx hy, lcm_of_pos hy hx, Int.lcm_comm]
  · exact fun z hz => lcm_assoc_of_pos hx hy hz

/-- The second number gives its sign to the divisor, and the first one to the multiple. -/
theorem minus_four_and_minus_six_have_the_divisor_minus_two :
    gcd (-4) (-6) = -2 ∧ lcm (-4) (-6) = some (-12) ∧
      (lcm 4 6).bind (lcm · 10) = (lcm 6 10).bind (lcm 4) := by
  obtain ⟨_, _, hdivisor, _, hmultiple, _⟩ := euclids_loop_ends_with_the_signed_divisor (-4) (-6)
  obtain ⟨_, _, _, _, _, hpositive⟩ := euclids_loop_ends_with_the_signed_divisor 4 6
  obtain ⟨_, multiple, hlcm, hproduct, _⟩ := hmultiple (by decide)
  have hgcd : gcd (-4) (-6) = -2 := hdivisor (by decide)
  rw [hgcd] at hproduct
  have htwelve : multiple = -12 := by omega
  exact ⟨hgcd, htwelve ▸ hlcm, (hpositive (by decide) (by decide)).2.2 10 (by decide)⟩

end DataLayout
