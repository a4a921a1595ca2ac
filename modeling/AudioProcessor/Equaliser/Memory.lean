import AudioProcessor.Equaliser.Settle
import AudioProcessor.Library.Forgetting

/-!
# What the equaliser remembers

The accumulator of the program is all it has of the frames before. On the same frames two runs of the
program come together, whatever they have played before: after 125 frames their accumulators differ
by at most seven and their words by at most the difference of the two stages (`play_forgets`).

Where the bass is boosted at least as much as the treble, a signal that is nowhere below another one
is not below it at the outputs either (`play_mono`). The limiter leaves a signal alone whose level
leaves enough room for the boosts (`play_headroom`).
-/

set_option autoImplicit false
set_option relaxedAutoImplicit false

namespace AudioProcessor.Equaliser

open FixedWidth
open OnePole (shrink track)

/-- The scaled samples of a run. -/
def targets (frames : ℕ → Frame) (n : ℕ) : ℤ := (frames n).inLeft.toInt * 256

/-- From any frame on the accumulator follows the scaled samples. -/
theorem play_bassPrev_track (frames : ℕ → Frame) (N k : ℕ) :
    (play frames (N + k)).bassPrev.toInt =
      track 8 (play frames N).bassPrev.toInt (fun k ↦ targets frames (N + k)) k := by
  rw [play_bassPrev_exact, play_bassPrev_exact, exactAccumulator_eq, exactAccumulator_eq,
    Clocked.run_add]
  rfl

/-- From power-up on it does so from zero. -/
theorem play_bassPrev_start (frames : ℕ → Frame) (n : ℕ) :
    (play frames n).bassPrev.toInt = track 8 0 (targets frames) n := by
  rw [play_bassPrev_exact, exactAccumulator_eq]
  rfl

/-- A mix of the bands, by the sample and the bass band. -/
theorem mix_eq (b t x bass : ℤ) :
    (b + 1) * bass + (t + 1) * (x - bass) = (t + 1) * x + (b - t) * bass := by
  ring

/-! ### Fading memory -/

/-- 125 steps take the largest distance of two accumulators below eight. -/
theorem iterate_shrink : (shrink 8)^[125] 16776960 < 8 := by
  decide +kernel

theorem abs_sub_bassPrev_lt {frames frames' : ℕ → Frame} {N M : ℕ}
    (hsame : ∀ k, frames (N + k) = frames' (M + k)) {k : ℕ} (hk : 125 ≤ k) :
    |(play frames (N + k)).bassPrev.toInt - (play frames' (M + k)).bassPrev.toInt| < 8 := by
  have htargets : (fun k ↦ targets frames' (M + k)) = fun k ↦ targets frames (N + k) := by
    funext k
    rw [targets, targets, hsame]
  have hdistance : |(play frames N).bassPrev.toInt - (play frames' M).bassPrev.toInt| ≤
      16776960 := by
    obtain ⟨hlower, hupper⟩ := play_mem_scaled frames N
    obtain ⟨hlower', hupper'⟩ := play_mem_scaled frames' M
    rw [abs_le]
    constructor <;> omega
  rw [play_bassPrev_track, play_bassPrev_track, htargets]
  exact OnePole.abs_sub_lt (by norm_num) hdistance iterate_shrink _ hk

/-- Two runs of the program that from some frames on are the same, whatever was played before: after
125 frames their accumulators differ by at most seven, and the words of every frame by at most the
difference of its stages. -/
theorem play_forgets {frames frames' : ℕ → Frame} {N M : ℕ}
    (hsame : ∀ k, frames (N + k) = frames' (M + k)) {k : ℕ} (hk : 125 ≤ k) :
    |(play frames (N + k)).bassPrev.toInt - (play frames' (M + k)).bassPrev.toInt| ≤ 7 ∧
      ∃ word word' : BitVec 16,
        (play frames (N + k)).writes (frames (N + k)).accesses =
            [(.outLeft, word), (.outRight, word)] ∧
          (play frames' (M + k)).writes (frames' (M + k)).accesses =
            [(.outLeft, word'), (.outRight, word')] ∧
          |word.toInt - word'.toInt| ≤ |((frames (N + k)).bassStageSwitch.toNat : ℤ) -
            (frames (N + k)).trebleStageSwitch.toNat| := by
  refine ⟨Int.le_of_lt_add_one (abs_sub_bassPrev_lt hsame hk), ?_⟩
  obtain ⟨word, hwrites, hword⟩ := writes_play frames (N + k)
  obtain ⟨word', hwrites', hword'⟩ := writes_play frames' (M + k)
  refine ⟨word, word', hwrites, hwrites', ?_⟩
  have hnext := abs_sub_bassPrev_lt hsame (show 125 ≤ k + 1 by omega)
  rw [← Nat.add_assoc, ← Nat.add_assoc] at hnext
  rw [hword, hword', ← hsame, mix_eq, mix_eq]
  set b : ℤ := ((frames (N + k)).bassStageSwitch.toNat : ℤ)
  set t : ℤ := ((frames (N + k)).trebleStageSwitch.toNat : ℤ)
  set bass := (play frames (N + k + 1)).bassPrev.toInt / 256
  set bass' := (play frames' (M + k + 1)).bassPrev.toInt / 256
  have hbass : |bass - bass'| ≤ 1 := by
    rw [abs_lt] at hnext
    rw [abs_le]
    constructor <;> omega
  calc _ ≤ |(t + 1) * (frames (N + k)).inLeft.toInt + (b - t) * bass -
          ((t + 1) * (frames (N + k)).inLeft.toInt + (b - t) * bass')| :=
        abs_clamp_sub_clamp_le _ _ _ _
    _ = |b - t| * |bass - bass'| := by
        rw [← abs_mul]
        congr 1
        ring
    _ ≤ |b - t| * 1 := mul_le_mul_of_nonneg_left hbass (abs_nonneg _)
    _ = |b - t| := mul_one _

/-- A loud frame and a silent one before the same silence. -/
theorem play_forgets_loud : |(play loudThenSilent (1 + 125)).bassPrev.toInt -
      (play (fun _ ↦ ⟨0, 3, 0⟩) (1 + 125)).bassPrev.toInt| ≤ 7 :=
  (play_forgets (N := 1) (M := 1)
    (show ∀ k, loudThenSilent (1 + k) = ⟨0, 3, 0⟩ from fun k ↦ if_neg (by omega)) le_rfl).1

/-! ### Order -/

/-- If the samples of one run are nowhere above those of another up to a frame, and that frame
boosts the bass at least as much as the treble in both runs, then neither is its word. -/
theorem play_mono {frames frames' : ℕ → Frame} {n : ℕ}
    (hsamples : ∀ k ≤ n, (frames k).inLeft.toInt ≤ (frames' k).inLeft.toInt)
    (hbassStage : (frames n).bassStageSwitch = (frames' n).bassStageSwitch)
    (htrebleStage : (frames n).trebleStageSwitch = (frames' n).trebleStageSwitch)
    (hboost : (frames n).trebleStageSwitch.toNat ≤ (frames n).bassStageSwitch.toNat) :
    ∃ word word' : BitVec 16,
      (play frames n).writes (frames n).accesses = [(.outLeft, word), (.outRight, word)] ∧
        (play frames' n).writes (frames' n).accesses = [(.outLeft, word'), (.outRight, word')] ∧
        word.toInt ≤ word'.toInt := by
  obtain ⟨word, hwrites, hword⟩ := writes_play frames n
  obtain ⟨word', hwrites', hword'⟩ := writes_play frames' n
  refine ⟨word, word', hwrites, hwrites', ?_⟩
  have hbass : (play frames (n + 1)).bassPrev.toInt ≤ (play frames' (n + 1)).bassPrev.toInt := by
    rw [play_bassPrev_start, play_bassPrev_start]
    refine OnePole.track_le_track (by norm_num) le_rfl fun k hk ↦ ?_
    exact mul_le_mul_of_nonneg_right (hsamples k (Nat.le_of_lt_succ hk)) (by norm_num)
  rw [hword, hword', ← hbassStage, ← htrebleStage, mix_eq, mix_eq]
  refine clamp_mono (add_le_add ?_ ?_)
  · exact mul_le_mul_of_nonneg_left (hsamples n le_rfl) (by positivity)
  · exact mul_le_mul_of_nonneg_left (Int.ediv_le_ediv (by norm_num) hbass) (by omega)

/-- Silence, and silence after a loud frame, with the bass boosted: the bass band of the loud frame
is still there nine frames later. -/
theorem play_mono_loud : ∃ word word' : BitVec 16,
    (play (fun _ ↦ ⟨0, 3, 0⟩) 9).writes (Frame.accesses ⟨0, 3, 0⟩) =
        [(.outLeft, word), (.outRight, word)] ∧
      (play loudThenSilent 9).writes (loudThenSilent 9).accesses =
        [(.outLeft, word'), (.outRight, word')] ∧ word.toInt ≤ word'.toInt :=
  play_mono (n := 9) (show ∀ k ≤ 9, ((fun _ ↦ ⟨0, 3, 0⟩ : ℕ → Frame) k).inLeft.toInt ≤
    (loudThenSilent k).inLeft.toInt by decide) rfl rfl (by decide)

/-! ### Headroom -/

/-- The greatest amplification of a level by the two boosts. -/
def Frame.gain (f : Frame) : ℤ :=
  f.trebleStageSwitch.toNat + 1 + |(f.bassStageSwitch.toNat : ℤ) - f.trebleStageSwitch.toNat|

/-- The mix of a frame is within the gain of a level that neither the sample nor the bass band
exceeds. -/
theorem abs_mix_le (f : Frame) {x bass level : ℤ} (hx : |x| ≤ level) (hbass : |bass| ≤ level) :
    |((f.trebleStageSwitch.toNat : ℤ) + 1) * x +
        ((f.bassStageSwitch.toNat : ℤ) - f.trebleStageSwitch.toNat) * bass| ≤ f.gain * level := by
  have hstage : (0 : ℤ) ≤ (f.trebleStageSwitch.toNat : ℤ) + 1 := by positivity
  calc _ ≤ ((f.trebleStageSwitch.toNat : ℤ) + 1) * |x| +
          |(f.bassStageSwitch.toNat : ℤ) - f.trebleStageSwitch.toNat| * |bass| := by
        refine (abs_add_le _ _).trans ?_
        rw [abs_mul, abs_mul, abs_of_nonneg hstage]
    _ ≤ ((f.trebleStageSwitch.toNat : ℤ) + 1) * level +
          |(f.bassStageSwitch.toNat : ℤ) - f.trebleStageSwitch.toNat| * level :=
        add_le_add (mul_le_mul_of_nonneg_left hx hstage)
          (mul_le_mul_of_nonneg_left hbass (abs_nonneg _))
    _ = f.gain * level := by
        rw [Frame.gain, ← add_mul]

/-- If no sample up to a frame exceeds a level, its word does not exceed the gain of the stages times
the level, and where that fits into 16 bits the limiter leaves the mix alone. -/
theorem play_headroom {frames : ℕ → Frame} {n : ℕ} {level : ℤ}
    (hlevel : ∀ k ≤ n, |(frames k).inLeft.toInt| ≤ level) :
    ∃ word : BitVec 16,
      (play frames n).writes (frames n).accesses = [(.outLeft, word), (.outRight, word)] ∧
        |word.toInt| ≤ (frames n).gain * level ∧
        ((frames n).gain * level ≤ 32767 → word.toInt =
          ((frames n).bassStageSwitch.toNat + 1) * ((play frames (n + 1)).bassPrev.toInt / 256) +
            ((frames n).trebleStageSwitch.toNat + 1) *
              ((frames n).inLeft.toInt - (play frames (n + 1)).bassPrev.toInt / 256)) := by
  obtain ⟨word, hwrites, hword⟩ := writes_play frames n
  have hnonneg : 0 ≤ level := (abs_nonneg _).trans (hlevel n le_rfl)
  have hbass : |(play frames (n + 1)).bassPrev.toInt / 256| ≤ level := by
    have hmem : (play frames (n + 1)).bassPrev.toInt ∈ Set.Icc (-(level * 256)) (level * 256) := by
      rw [play_bassPrev_start]
      refine OnePole.track_mem_Icc (by norm_num) ⟨by omega, by omega⟩ fun k hk ↦ ?_
      obtain ⟨hlower, hupper⟩ := abs_le.mp (hlevel k (Nat.le_of_lt_succ hk))
      exact ⟨by rw [targets]; omega, by rw [targets]; omega⟩
    obtain ⟨hlower, hupper⟩ := hmem
    rw [abs_le]
    constructor <;> omega
  have hmix := abs_mix_le (frames n) (hlevel n le_rfl) hbass
  rw [← mix_eq] at hmix
  refine ⟨word, hwrites, ?_, fun hroom ↦ ?_⟩
  · rw [hword]
    exact (abs_clamp_le (by norm_num) _).trans hmix
  · obtain ⟨hlower, hupper⟩ := abs_le.mp (hmix.trans hroom)
    rw [hword]
    exact clamp_of_mem ⟨by linarith, hupper⟩

/-- A quiet signal, with the bass boosted to its fourfold. -/
theorem play_headroom_quiet : ∃ word : BitVec 16,
    (play (fun _ ↦ ⟨100, 3, 0⟩) 10).writes (Frame.accesses ⟨100, 3, 0⟩) =
        [(.outLeft, word), (.outRight, word)] ∧ |word.toInt| ≤ 4 * 100 := by
  obtain ⟨word, hwrites, hword, -⟩ := play_headroom (n := 10)
    (show ∀ k ≤ 10, |((fun _ ↦ ⟨100, 3, 0⟩ : ℕ → Frame) k).inLeft.toInt| ≤ 100 from
      fun _ _ ↦ show |(100 : BitVec 16).toInt| ≤ 100 by decide)
  exact ⟨word, hwrites, hword⟩

end AudioProcessor.Equaliser
