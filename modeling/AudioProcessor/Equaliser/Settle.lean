import AudioProcessor.Equaliser.Exact

/-!
# A constant input

From the frame on at which the input stays the same the accumulator goes towards the scaled sample
and settles: at the sample if it was not below it, and otherwise up to seven short of it, where
the shift of the difference gives zero. In the first case the signal ends up in the bass band alone.
In the second one the bass band is left one below the sample and the treble band has the rest
(`play_settles`).
-/

set_option autoImplicit false
set_option relaxedAutoImplicit false

namespace AudioProcessor.Equaliser

open FixedWidth

section Held

variable {frames : ℕ → Frame} {N : ℕ} {f : Frame} (hheld : ∀ n ≥ N, frames n = f)

include hheld

/-- While the input stays the same the accumulator goes towards the scaled sample. -/
theorem play_bassPrev_held (k : ℕ) : (play frames (N + k)).bassPrev.toInt =
    OnePole.towards 8 (play frames N).bassPrev.toInt (f.inLeft.toInt * 256) k := by
  have htargets : (fun k ↦ (frames (N + k)).inLeft.toInt * 256) =
      fun _ ↦ f.inLeft.toInt * 256 := by
    funext k
    rw [hheld (N + k) (Nat.le_add_right N k)]
  rw [play_bassPrev_exact, play_bassPrev_exact, exactAccumulator_eq, exactAccumulator_eq,
    Clocked.run_add, htargets]
  rfl

/-- The accumulator comes to rest at the scaled sample, or up to seven below it if it comes from
below. -/
theorem bassPrev_settles : ∃ M rest, (∀ n ≥ M, (play frames n).bassPrev.toInt = rest) ∧
    if 256 * f.inLeft.toInt ≤ (play frames N).bassPrev.toInt then rest = 256 * f.inLeft.toInt
    else 256 * f.inLeft.toInt - 7 ≤ rest ∧ rest < 256 * f.inLeft.toInt := by
  have hlater {M : ℕ} {rest : ℤ} (hrest : ∀ k ≥ M,
      OnePole.towards 8 (play frames N).bassPrev.toInt (f.inLeft.toInt * 256) k = rest) :
      ∀ n ≥ N + M, (play frames n).bassPrev.toInt = rest := by
    intro n hn
    obtain ⟨k, rfl⟩ := Nat.exists_eq_add_of_le (Nat.le_of_add_right_le hn)
    rw [play_bassPrev_held hheld]
    exact hrest k (Nat.add_le_add_iff_left.mp hn)
  split_ifs with habove
  · obtain ⟨M, hM⟩ := OnePole.settles_above (d := 8) (by norm_num)
      (show f.inLeft.toInt * 256 ≤ (play frames N).bassPrev.toInt by omega)
    exact ⟨N + M, _, hlater hM, mul_comm _ _⟩
  · obtain ⟨M, rest, ⟨hlower, hupper⟩, hM⟩ := OnePole.settles_below (d := 8) (by norm_num)
      (show (play frames N).bassPrev.toInt < f.inLeft.toInt * 256 by omega)
    exact ⟨N + M, rest, hlater hM, by omega, by omega⟩

/-- If every frame from frame `N` on has the same sample and stages, then from some frame on the
accumulator rests and every word is the same. An accumulator that was not below the scaled sample
rests at it, and the word is the limited boosted sample. One that was below rests up to seven below
it, and the word is the limited mix of a bass band one below the sample and a treble band of one. -/
theorem play_settles : ∃ M rest, (∀ n ≥ M, (play frames n).bassPrev.toInt = rest ∧
    ∃ word : BitVec 16,
      (play frames n).writes (frames n).accesses = [(.outLeft, word), (.outRight, word)] ∧
        word.toInt = min 32767 (max (-32768)
          (if 256 * f.inLeft.toInt ≤ (play frames N).bassPrev.toInt then
            (f.bassStageSwitch.toNat + 1) * f.inLeft.toInt
          else (f.bassStageSwitch.toNat + 1) * (f.inLeft.toInt - 1) +
            (f.trebleStageSwitch.toNat + 1)))) ∧
    if 256 * f.inLeft.toInt ≤ (play frames N).bassPrev.toInt then rest = 256 * f.inLeft.toInt
    else 256 * f.inLeft.toInt - 7 ≤ rest ∧ rest < 256 * f.inLeft.toInt := by
  obtain ⟨M, rest, hrests, hrest⟩ := bassPrev_settles hheld
  refine ⟨max M N, rest, fun n hn ↦ ⟨hrests n (by omega), ?_⟩, hrest⟩
  obtain ⟨word, hwrites, hword⟩ := writes_play frames n
  refine ⟨word, hwrites, ?_⟩
  rw [hword, hheld n (by omega), hrests (n + 1) (by omega), clamp]
  split_ifs at hrest ⊢
  · rw [hrest, Int.mul_ediv_cancel_left _ (by norm_num), sub_self, mul_zero, add_zero]
  · rw [show rest / 256 = f.inLeft.toInt - 1 by omega, sub_sub_cancel, mul_one]

end Held

/-- A loud frame, and silence after it. -/
def loudThenSilent (n : ℕ) : Frame := if n < 1 then ⟨0x7fff, 3, 0⟩ else ⟨0, 3, 0⟩

/-- A small constant sample. -/
def steadyOne (_ : ℕ) : Frame := ⟨1, 1, 0⟩

/-- The silence settles to silence. The sample of one comes from below, and the accumulator rests
below it. -/
theorem play_settles_cases :
    (∃ M, ∀ n ≥ M, (play loudThenSilent n).bassPrev.toInt = 0 ∧ ∃ word : BitVec 16,
      (play loudThenSilent n).writes (loudThenSilent n).accesses =
          [(.outLeft, word), (.outRight, word)] ∧ word.toInt = 0) ∧
      ∃ M rest, (∀ n ≥ M, (play steadyOne n).bassPrev.toInt = rest ∧ ∃ word : BitVec 16,
        (play steadyOne n).writes (steadyOne n).accesses = [(.outLeft, word), (.outRight, word)] ∧
          word.toInt = 1) ∧ 249 ≤ rest ∧ rest < 256 := by
  refine ⟨?_, ?_⟩
  · have hheld : ∀ n ≥ 1, loudThenSilent n = ⟨0, 3, 0⟩ := by
      intro n hn
      rw [loudThenSilent, if_neg (by omega)]
    obtain ⟨M, rest, hsettled, hrest⟩ := play_settles hheld
    rw [if_pos (by decide)] at hrest
    refine ⟨M, fun n hn ↦ ?_⟩
    obtain ⟨hacc, word, hwrites, hword⟩ := hsettled n hn
    exact ⟨hacc.trans hrest, word, hwrites, hword.trans (by decide)⟩
  · have hheld : ∀ n ≥ 0, steadyOne n = ⟨1, 1, 0⟩ := fun _ _ ↦ rfl
    obtain ⟨M, rest, hsettled, hrest⟩ := play_settles hheld
    rw [if_neg (by decide)] at hrest
    refine ⟨M, rest, fun n hn ↦ ?_, hrest⟩
    obtain ⟨hacc, word, hwrites, hword⟩ := hsettled n hn
    exact ⟨hacc, word, hwrites, hword.trans (by decide)⟩

/-- This sample, with the bass boosted and the treble not, does not settle to its boosted value. -/
theorem not_settles_boosted :
    ¬ ∀ (frames : ℕ → Frame) (N : ℕ) (f : Frame), (∀ n ≥ N, frames n = f) →
      ∃ M, ∀ n ≥ M, ∃ word : BitVec 16,
        (play frames n).writes (frames n).accesses = [(.outLeft, word), (.outRight, word)] ∧
          word.toInt = min 32767 (max (-32768)
            ((f.bassStageSwitch.toNat + 1) * f.inLeft.toInt)) := by
  intro hboosted
  have hheld : ∀ n ≥ 0, steadyOne n = ⟨1, 1, 0⟩ := fun _ _ ↦ rfl
  obtain ⟨M, hM⟩ := hboosted steadyOne 0 ⟨1, 1, 0⟩ hheld
  obtain ⟨M', rest, hrests, hrest⟩ := bassPrev_settles hheld
  rw [if_neg (by decide)] at hrest
  obtain ⟨hlower, hupper⟩ : 249 ≤ rest ∧ rest < 256 := hrest
  obtain ⟨word, hwrites, hword⟩ := hM (max M M') (le_max_left M M')
  obtain ⟨word', hwrites', hword'⟩ := writes_play steadyOne (max M M')
  have hsame : word = word' := by
    have hlists := hwrites.symm.trans hwrites'
    simp only [List.cons.injEq, Prod.mk.injEq] at hlists
    exact hlists.1.2
  rw [hrests (max M M' + 1) (by omega), show rest / 256 = 0 by omega, ← hsame, hword,
    hheld _ (Nat.zero_le _)] at hword'
  exact absurd hword' (by decide)

end AudioProcessor.Equaliser
