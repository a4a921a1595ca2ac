import AudioProcessor.Equaliser.Exact
import Mathlib.Data.Rat.Cast.Order

/-!
# Rounding errors of the equaliser

`exactFilter` is the bass filter over the rational numbers. The accumulator of the program lags
behind it by at most seven, and each word differs from the limited mix made with the exact filter by
at most three times what the two shifts can cut off, for runs of any length (`play_rounding`).
-/

set_option autoImplicit false
set_option relaxedAutoImplicit false

namespace AudioProcessor.Equaliser

open FixedWidth

/-- The bass filter over the rational numbers: before frame `n`. -/
def exactFilter (frames : ℕ → Frame) : ℕ → ℚ
  | 0 => 0
  | n + 1 => exactFilter frames n + (256 * (frames n).inLeft.toInt - exactFilter frames n) / 8

/-- It is the one-pole filter of the scaled samples in exact arithmetic. -/
theorem exactFilter_eq (frames : ℕ → Frame) (n : ℕ) : exactFilter frames n =
    Clocked.run (fun target exact ↦ OnePole.smoothExact 8 exact target) (0 : ℚ)
      (fun n ↦ (((frames n).inLeft.toInt * 256 : ℤ) : ℚ)) n := by
  induction n with
  | zero => rfl
  | succ n ih =>
    rw [exactFilter, Clocked.run_succ, ← ih, OnePole.smoothExact]
    push_cast
    rw [mul_comm]

/-- The accumulator lags behind the exact filter by at most seven. -/
theorem exactFilter_sub_mem (frames : ℕ → Frame) (n : ℕ) :
    exactFilter frames n - (play frames n).bassPrev.toInt ∈ Set.Icc 0 7 := by
  have hstart : (0 : ℚ) - ((0 : ℤ) : ℚ) ∈ Set.Icc (0 : ℚ) (((8 : ℤ) : ℚ) - 1) := by norm_num
  have herror := OnePole.run_error_mem (by norm_num)
    (fun n ↦ (frames n).inLeft.toInt * 256) hstart n
  rw [← exactFilter_eq, ← exactAccumulator_eq, ← play_bassPrev_exact] at herror
  norm_num at herror ⊢
  exact herror

/-- What the two shifts cut off the bass band. -/
theorem bass_error_mem (frames : ℕ → Frame) (n : ℕ) :
    exactFilter frames n / 256 - ((play frames n).bassPrev.toInt / 256 : ℤ) ∈
      Set.Icc 0 (262 / 256) := by
  obtain ⟨hlower, hupper⟩ := exactFilter_sub_mem frames n
  set accumulator := (play frames n).bassPrev.toInt
  have hsplit : ((256 * (accumulator / 256) + accumulator % 256 : ℤ) : ℚ) = accumulator := by
    rw [Int.mul_ediv_add_emod]
  have hnonneg : (0 : ℚ) ≤ (accumulator % 256 : ℤ) := by
    exact_mod_cast Int.emod_nonneg accumulator (by norm_num)
  have hcut : ((accumulator % 256 : ℤ) : ℚ) ≤ 255 := by
    exact_mod_cast Int.le_of_lt_add_one (Int.emod_lt_of_pos accumulator (by norm_num))
  push_cast at hsplit
  constructor
  · linarith
  · linarith

/-- Two stages differ by at most three. -/
theorem abs_stage_sub_le (b t : BitVec 2) : |(b.toNat : ℚ) - t.toNat| ≤ 3 := by
  have hb : (b.toNat : ℚ) ≤ 3 := by exact_mod_cast Nat.le_of_lt_succ b.isLt
  have ht : (t.toNat : ℚ) ≤ 3 := by exact_mod_cast Nat.le_of_lt_succ t.isLt
  have hb' : (0 : ℚ) ≤ b.toNat := Nat.cast_nonneg _
  have ht' : (0 : ℚ) ≤ t.toNat := Nat.cast_nonneg _
  rw [abs_le]
  constructor <;> linarith

/-- Along every run of the program the accumulator lags behind the exact filter by at most seven,
and the word of each frame differs from the limited mix made with the exact filter by at most
`3 * 262 / 256`. -/
theorem play_rounding (frames : ℕ → Frame) (n : ℕ) :
    0 ≤ exactFilter frames n - (play frames n).bassPrev.toInt ∧
      exactFilter frames n - (play frames n).bassPrev.toInt ≤ 7 ∧
      ∃ word : BitVec 16,
        (play frames n).writes (frames n).accesses = [(.outLeft, word), (.outRight, word)] ∧
        |(word.toInt : ℚ) - min 32767 (max (-32768)
          (((frames n).trebleStageSwitch.toNat + 1) * (frames n).inLeft.toInt +
            ((frames n).bassStageSwitch.toNat - (frames n).trebleStageSwitch.toNat) *
              exactFilter frames (n + 1) / 256))| ≤ 3 * 262 / 256 := by
  obtain ⟨hlower, hupper⟩ := exactFilter_sub_mem frames n
  refine ⟨hlower, hupper, ?_⟩
  obtain ⟨word, hwrites, hword⟩ := writes_play frames n
  refine ⟨word, hwrites, ?_⟩
  set b := (frames n).bassStageSwitch
  set t := (frames n).trebleStageSwitch
  set x := (frames n).inLeft.toInt
  have herror := bass_error_mem frames (n + 1)
  set bass := (play frames (n + 1)).bassPrev.toInt / 256
  have hcast : (word.toInt : ℚ) =
      clamp (-32768) 32767 ((b.toNat + 1) * (bass : ℚ) + (t.toNat + 1) * (x - bass)) := by
    rw [hword, clamp, clamp]
    push_cast
    rfl
  have hmix : ((b.toNat + 1) * (bass : ℚ) + (t.toNat + 1) * (x - bass)) -
      ((t.toNat + 1) * x + (b.toNat - t.toNat) * exactFilter frames (n + 1) / 256) =
        -((b.toNat - t.toNat) * (exactFilter frames (n + 1) / 256 - bass)) := by
    ring
  rw [hcast]
  calc |clamp (-32768) 32767 ((b.toNat + 1) * (bass : ℚ) + (t.toNat + 1) * (x - bass)) -
        clamp (-32768) 32767
          ((t.toNat + 1) * x + (b.toNat - t.toNat) * exactFilter frames (n + 1) / 256)|
      ≤ |(b.toNat : ℚ) - t.toNat| * |exactFilter frames (n + 1) / 256 - bass| := by
        rw [← abs_mul, ← abs_neg ((b.toNat - t.toNat : ℚ) * _), ← hmix]
        exact abs_clamp_sub_clamp_le _ _ _ _
    _ ≤ 3 * (262 / 256) := by
        rw [abs_of_nonneg herror.1]
        exact mul_le_mul (abs_stage_sub_le b t) herror.2 herror.1 (by norm_num)
    _ = 3 * 262 / 256 := by norm_num

end AudioProcessor.Equaliser
