import Mathlib.Algebra.Group.Nat.Defs
import Mathlib.Algebra.Order.Group.MinMax
import Mathlib.Data.Int.Basic
import Mathlib.Order.Interval.Set.Defs

/-!
# Fixed-width arithmetic that does not wrap

An operation on 32-bit integers agrees with the operation on unbounded ones as long as the
unbounded result is in range (`toInt_add_exact`, `toInt_sub_exact`, `toInt_mul_exact`), and the
arithmetic right shifts divide with rounding down. `clamp` limits a value to an interval.
-/

set_option autoImplicit false
set_option relaxedAutoImplicit false

namespace FixedWidth

/-- The values a 32-bit signed integer takes. -/
def InRange (value : ℤ) : Prop := -2147483648 ≤ value ∧ value ≤ 2147483647

theorem bmod_of_inRange {value : ℤ} (hvalue : InRange value) : value.bmod (2 ^ 32) = value := by
  obtain ⟨hlower, hupper⟩ := hvalue
  apply Int.bmod_eq_of_le
  · omega
  · omega

theorem toInt_add_exact (a b : Int32) (h : InRange (a.toInt + b.toInt)) :
    (a + b).toInt = a.toInt + b.toInt := by
  rw [Int32.toInt_add, bmod_of_inRange h]

theorem toInt_sub_exact (a b : Int32) (h : InRange (a.toInt - b.toInt)) :
    (a - b).toInt = a.toInt - b.toInt := by
  rw [Int32.toInt_sub, bmod_of_inRange h]

theorem toInt_mul_exact (a b : Int32) (h : InRange (a.toInt * b.toInt)) :
    (a * b).toInt = a.toInt * b.toInt := by
  rw [Int32.toInt_mul, bmod_of_inRange h]

theorem toInt_shiftRight_three (a : Int32) : (a >>> 3).toInt = a.toInt / 8 := by
  have hshift : (a >>> 3).toBitVec = a.toBitVec.sshiftRight 3 := rfl
  rw [← Int32.toInt_toBitVec, hshift, BitVec.toInt_sshiftRight, Int.shiftRight_eq_div_pow,
    Int32.toInt_toBitVec]
  rfl

theorem toInt_shiftRight_eight (a : Int32) : (a >>> 8).toInt = a.toInt / 256 := by
  have hshift : (a >>> 8).toBitVec = a.toBitVec.sshiftRight 8 := rfl
  rw [← Int32.toInt_toBitVec, hshift, BitVec.toInt_sshiftRight, Int.shiftRight_eq_div_pow,
    Int32.toInt_toBitVec]
  rfl

/-- A value limited to the interval from `lower` to `upper`. -/
def clamp {α : Type*} [Lattice α] (lower upper value : α) : α := min upper (max lower value)

section Clamp

variable {α : Type*} [LinearOrder α] {lower upper value : α}

/-- The two comparisons of a limiter compute the clamp. -/
theorem ite_eq_clamp (horder : lower ≤ upper) :
    (if upper < value then upper else if value < lower then lower else value) =
      clamp lower upper value := by
  unfold clamp
  split_ifs with habove hbelow
  · exact (min_eq_left (le_trans habove.le (le_max_right _ _))).symm
  · rw [max_eq_left hbelow.le, min_eq_right horder]
  · rw [max_eq_right (not_lt.mp hbelow), min_eq_right (not_lt.mp habove)]

theorem clamp_mem_Icc (horder : lower ≤ upper) (value : α) :
    clamp lower upper value ∈ Set.Icc lower upper :=
  ⟨le_min horder (le_max_left _ _), min_le_left _ _⟩

theorem clamp_mono {value' : α} (hvalue : value ≤ value') :
    clamp lower upper value ≤ clamp lower upper value' :=
  min_le_min le_rfl (max_le_max le_rfl hvalue)

/-- A value within the limits is left alone. -/
theorem clamp_of_mem (hmem : value ∈ Set.Icc lower upper) : clamp lower upper value = value := by
  rw [clamp, max_eq_right hmem.1, min_eq_right hmem.2]

/-- Two values are not moved apart by limiting them. -/
theorem abs_clamp_sub_clamp_le [AddCommGroup α] [IsOrderedAddMonoid α] (lower upper a b : α) :
    |clamp lower upper a - clamp lower upper b| ≤ |a - b| := by
  have hmin := abs_min_sub_min_le_max upper (max lower a) upper (max lower b)
  have hmax := abs_max_sub_max_le_max lower a lower b
  rw [sub_self, abs_zero, max_eq_right (abs_nonneg (max lower a - max lower b))] at hmin
  rw [sub_self, abs_zero, max_eq_right (abs_nonneg (a - b))] at hmax
  exact hmin.trans hmax

/-- Limiting to an interval around zero brings a value closer to zero. -/
theorem abs_clamp_le [AddCommGroup α] [IsOrderedAddMonoid α] (hzero : 0 ∈ Set.Icc lower upper)
    (value : α) : |clamp lower upper value| ≤ |value| := by
  have hle := abs_clamp_sub_clamp_le lower upper value 0
  rwa [clamp_of_mem hzero, sub_zero, sub_zero] at hle

end Clamp

end FixedWidth
