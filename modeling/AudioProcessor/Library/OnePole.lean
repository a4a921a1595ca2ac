import AudioProcessor.Library.Clocked
import Mathlib.Algebra.Order.Field.Basic
import Mathlib.Data.Int.ConditionallyCompleteOrder
import Mathlib.Order.Interval.Set.UnorderedInterval
import Mathlib.Tactic.Linarith
import Mathlib.Tactic.LinearCombination
import Mathlib.Tactic.Positivity

/-!
# The one-pole smoothing filter in integer arithmetic

`smooth d` moves an accumulator towards a target by a `d`-th of the distance, rounded down. Rounding
down never overshoots, so the accumulator stays between its old value and the target
(`smooth_mem_uIcc`), and once inside an interval that holds all targets it stays there for ever
(`run_smooth_mem_Icc`).

A target that stays is reached from above, and approached from below up to less than `d`
(`settles_above`, `settles_below`). The accumulator lags behind the filter in exact arithmetic by
less than `d`, however long the run is (`run_error_mem`).
-/

set_option autoImplicit false
set_option relaxedAutoImplicit false

namespace OnePole

/-- One step of the filter: move the accumulator by a `d`-th of its distance from the target,
rounded down. -/
def smooth (d accumulator target : ℤ) : ℤ := accumulator + (target - accumulator) / d

variable {d : ℤ} (hd : 0 < d)
include hd

/-- A step never overshoots. -/
theorem smooth_mem_uIcc (accumulator target : ℤ) :
    smooth d accumulator target ∈ Set.uIcc accumulator target := by
  unfold smooth
  rcases le_total accumulator target with hup | hdown
  · have hnonneg : 0 ≤ (target - accumulator) / d := Int.ediv_nonneg (by omega) hd.le
    have hle : (target - accumulator) / d ≤ target - accumulator :=
      Int.ediv_le_self _ (by omega)
    rw [Set.uIcc_of_le hup]
    exact ⟨by omega, by omega⟩
  · have hnonpos : (target - accumulator) / d ≤ 0 := by
      have hzero := Int.ediv_le_ediv hd (show target - accumulator ≤ 0 by omega)
      rwa [Int.zero_ediv] at hzero
    have hle : target - accumulator ≤ (target - accumulator) / d := by
      rw [Int.le_ediv_iff_mul_le hd]
      nlinarith
    rw [Set.uIcc_of_ge hdown]
    exact ⟨by omega, by omega⟩

/-- An interval that holds the accumulator and the target holds the accumulator after the step. -/
theorem smooth_mem_Icc {lower upper accumulator target : ℤ}
    (haccumulator : accumulator ∈ Set.Icc lower upper) (htarget : target ∈ Set.Icc lower upper) :
    smooth d accumulator target ∈ Set.Icc lower upper :=
  Set.uIcc_subset_Icc haccumulator htarget (smooth_mem_uIcc hd accumulator target)

/-- An interval that holds the start and all targets holds the accumulator for ever. -/
theorem run_smooth_mem_Icc {lower upper start : ℤ} (targets : ℕ → ℤ)
    (hstart : start ∈ Set.Icc lower upper) (htargets : ∀ n, targets n ∈ Set.Icc lower upper)
    (n : ℕ) :
    Clocked.run (fun target accumulator ↦ smooth d accumulator target) start targets n ∈
      Set.Icc lower upper := by
  induction n with
  | zero => exact hstart
  | succ n ih => exact smooth_mem_Icc hd ih (htargets n)

/-! ### A target that stays -/

section Towards

omit hd in
/-- The accumulator after a number of steps towards the same target. -/
def towards (d start target : ℤ) : ℕ → ℤ :=
  Clocked.run (fun target accumulator ↦ smooth d accumulator target) start fun _ ↦ target

omit hd in
theorem towards_succ (d start target : ℤ) (n : ℕ) :
    towards d start target (n + 1) = smooth d (towards d start target n) target := rfl

variable {start target : ℤ}

/-- From above the accumulator falls by one at least in a step, until the target is reached. -/
theorem towards_above (hstart : target ≤ start) (n : ℕ) :
    target ≤ towards d start target n ∧
      (towards d start target n = target ∨ towards d start target n + n ≤ start) := by
  induction n with
  | zero => exact ⟨hstart, .inr (add_zero start).le⟩
  | succ n ih =>
    obtain ⟨hle, hprogress⟩ := ih
    have hbetween := smooth_mem_uIcc hd (towards d start target n) target
    rw [Set.uIcc_of_ge hle, ← towards_succ] at hbetween
    refine ⟨hbetween.1, ?_⟩
    rcases hle.eq_or_lt with hreached | hlt
    · exact .inl (le_antisymm (hbetween.2.trans hreached.ge) hbetween.1)
    · have hmoves : (target - towards d start target n) / d < 0 :=
        Int.ediv_neg_of_neg_of_pos (by omega) hd
      rw [towards_succ, smooth]
      omega

/-- From above the target is reached. -/
theorem settles_above (hstart : target ≤ start) :
    ∃ M, ∀ n ≥ M, towards d start target n = target := by
  refine ⟨(start - target).toNat, fun n hn ↦ ?_⟩
  obtain ⟨hle, hprogress⟩ := towards_above hd hstart n
  omega

omit hd in
/-- From below it rises by one at least until it is short of the target by less than `d`, and it
never gets there. -/
theorem towards_below (hd : 1 < d) (hstart : start < target) (n : ℕ) :
    towards d start target n < target ∧
      (target - d < towards d start target n ∨ start + n ≤ towards d start target n) := by
  induction n with
  | zero => exact ⟨hstart, .inr (add_zero start).le⟩
  | succ n ih =>
    obtain ⟨hlt, hprogress⟩ := ih
    have hshort : (target - towards d start target n) / d < target - towards d start target n :=
      Int.ediv_lt_self_of_pos_of_ne_one (by omega) (by omega)
    rw [towards_succ, smooth]
    refine ⟨by omega, ?_⟩
    rcases lt_or_ge (target - towards d start target n) d with hnear | hfar
    · have hnonneg : 0 ≤ (target - towards d start target n) / d :=
        Int.ediv_nonneg (by omega) (by omega)
      exact .inl (by omega)
    · have hmoves : 1 ≤ (target - towards d start target n) / d :=
        Int.le_ediv_of_mul_le (by omega) (by omega)
      omega

omit hd in
/-- It rests where it is short of the target by less than `d`. -/
theorem smooth_rests {accumulator : ℤ} (hle : accumulator ≤ target)
    (hnear : target - d < accumulator) : smooth d accumulator target = accumulator := by
  rw [smooth, Int.ediv_eq_zero_of_lt (by omega) (by omega), add_zero]

omit hd in
/-- From below it ends up short of the target by less than `d`, and by one at least. -/
theorem settles_below (hd : 1 < d) (hstart : start < target) :
    ∃ M, ∃ rest ∈ Set.Ioo (target - d) target, ∀ n ≥ M, towards d start target n = rest := by
  obtain ⟨hlt, hprogress⟩ := towards_below hd hstart (target - start).toNat
  have hnear : target - d < towards d start target (target - start).toNat := by omega
  refine ⟨(target - start).toNat, _, ⟨hnear, hlt⟩, fun n hn ↦ ?_⟩
  induction n, hn using Nat.le_induction with
  | base => rfl
  | succ n _ ih => rw [towards_succ, ih, smooth_rests hlt.le hnear]

end Towards

/-! ### Rounding errors -/

section Exact

variable {K : Type*} [Field K] [LinearOrder K] [IsStrictOrderedRing K]

omit hd in
/-- One step of the filter in exact arithmetic. -/
def smoothExact (d : ℤ) (accumulator target : K) : K := accumulator + (target - accumulator) / d

/-- The error of the accumulator shrinks by a `d`-th, and the fraction that is cut off is added. -/
theorem smooth_error (exact : K) (accumulator target : ℤ) :
    d * (smoothExact d exact target - smooth d accumulator target) =
      (d - 1) * (exact - accumulator) + ((target - accumulator) % d : ℤ) := by
  have hpos : (0 : K) < d := Int.cast_pos.mpr hd
  have hsplit : (d : K) * ((target - accumulator) / d : ℤ) + ((target - accumulator) % d : ℤ) =
      target - accumulator := by
    exact_mod_cast congrArg (Int.cast : ℤ → K) (Int.mul_ediv_add_emod (target - accumulator) d)
  have hexact : d * smoothExact d exact target = d * exact + (target - exact) := by
    rw [smoothExact, mul_add, mul_div_cancel₀ _ hpos.ne']
  rw [mul_sub, hexact, smooth, Int.cast_add, mul_add]
  linear_combination -hsplit

/-- An error below `d` stays below `d`. -/
theorem smooth_error_mem {exact : K} {accumulator : ℤ} (target : ℤ)
    (herror : exact - accumulator ∈ Set.Icc 0 ((d : K) - 1)) :
    smoothExact d exact target - smooth d accumulator target ∈ Set.Icc 0 ((d : K) - 1) := by
  have hpos : (0 : K) < d := Int.cast_pos.mpr hd
  have hone : (1 : K) ≤ d := by exact_mod_cast hd
  have hnonneg : (0 : K) ≤ ((target - accumulator) % d : ℤ) :=
    Int.cast_nonneg (Int.emod_nonneg _ hd.ne')
  have hcut : (((target - accumulator) % d : ℤ) : K) ≤ d - 1 := by
    exact_mod_cast Int.le_sub_one_of_lt (Int.emod_lt_of_pos (target - accumulator) hd)
  have hstep := smooth_error hd exact accumulator target
  constructor
  · have hsum := add_nonneg (mul_nonneg (show (0 : K) ≤ d - 1 by linarith) herror.1) hnonneg
    rw [← hstep] at hsum
    exact nonneg_of_mul_nonneg_right hsum hpos
  · refine le_of_mul_le_mul_left ?_ hpos
    have hshrunk := mul_le_mul_of_nonneg_left herror.2 (show (0 : K) ≤ d - 1 by linarith)
    rw [hstep]
    linear_combination hshrunk + hcut

/-- The errors of all steps together stay below `d`. -/
theorem run_error_mem {exact : K} {start : ℤ} (targets : ℕ → ℤ)
    (hstart : exact - start ∈ Set.Icc 0 ((d : K) - 1)) (n : ℕ) :
    Clocked.run (fun target exact ↦ smoothExact d exact target) exact
          (fun n ↦ (targets n : K)) n -
        (Clocked.run (fun target accumulator ↦ smooth d accumulator target) start targets n : ℤ) ∈
      Set.Icc 0 ((d : K) - 1) := by
  induction n with
  | zero => exact hstart
  | succ n ih => exact smooth_error_mem hd (targets n) ih

end Exact

end OnePole
