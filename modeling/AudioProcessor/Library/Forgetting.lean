import AudioProcessor.Library.OnePole
import Mathlib.Order.Iterate

/-!
# Two runs of the one-pole filter

The one-pole filter is monotone in its accumulator and in its target (`smooth_le_smooth`), so a run
with greater targets from a greater start stays above (`run_le_run`). On the same targets two
accumulators come closer by a `d`-th of their distance in every step, rounded down
(`sub_le_shrink`), and after enough steps they differ by less than `d`, whatever the targets are
(`abs_sub_lt`).
-/

set_option autoImplicit false
set_option relaxedAutoImplicit false

namespace OnePole

variable {d : ℤ} (hd : 0 < d)
include hd

/-- The filter is monotone. -/
theorem smooth_le_smooth {a a' x x' : ℤ} (ha : a ≤ a') (hx : x ≤ x') :
    smooth d a x ≤ smooth d a' x' := by
  have hshift : (x' - a' + d * (a' - a)) / d = (x' - a') / d + (a' - a) :=
    Int.add_mul_ediv_left _ _ hd.ne'
  have hle : (x - a) / d ≤ (x' - a' + d * (a' - a)) / d :=
    Int.ediv_le_ediv hd (by nlinarith)
  unfold smooth
  linarith

/-- What is left of a distance after a step. -/
def shrink (d distance : ℤ) : ℤ := distance - distance / d

theorem shrink_mono : Monotone (shrink d) := by
  intro δ δ' hle
  have hshift : (δ + d * (δ' - δ)) / d = δ / d + (δ' - δ) := Int.add_mul_ediv_left _ _ hd.ne'
  have hdiv : δ' / d ≤ (δ + d * (δ' - δ)) / d := Int.ediv_le_ediv hd (by nlinarith)
  rw [shrink, shrink]
  linarith

/-- On the same target two accumulators come closer. -/
theorem smooth_sub_smooth_le {a a' : ℤ} (x : ℤ) :
    smooth d a' x - smooth d a x ≤ shrink d (a' - a) := by
  have hsum : (x - a') / d + (a' - a) / d ≤ (x - a) / d := by
    rw [Int.le_ediv_iff_mul_le hd]
    have hx := Int.ediv_mul_le (x - a') hd.ne'
    have ha := Int.ediv_mul_le (a' - a) hd.ne'
    linarith
  unfold smooth shrink
  linarith

/-! ### Runs -/

omit hd in
/-- The accumulator along a run. -/
def track (d start : ℤ) (targets : ℕ → ℤ) : ℕ → ℤ :=
  Clocked.run (fun target accumulator ↦ smooth d accumulator target) start targets

omit hd in
theorem track_succ (d start : ℤ) (targets : ℕ → ℤ) (n : ℕ) :
    track d start targets (n + 1) = smooth d (track d start targets n) (targets n) := rfl

/-- An interval that holds the start and the targets so far holds the accumulator. -/
theorem track_mem_Icc {lower upper start : ℤ} (hstart : start ∈ Set.Icc lower upper)
    {targets : ℕ → ℤ} {n : ℕ} (htargets : ∀ k < n, targets k ∈ Set.Icc lower upper) :
    track d start targets n ∈ Set.Icc lower upper := by
  induction n with
  | zero => exact hstart
  | succ n ih =>
    exact smooth_mem_Icc hd (ih fun k hk ↦ htargets k (Nat.lt_succ_of_lt hk))
      (htargets n (Nat.lt_succ_self n))

/-- Greater targets from a greater start give greater accumulators. -/
theorem track_le_track {start start' : ℤ} (hstart : start ≤ start') {targets targets' : ℕ → ℤ}
    {n : ℕ} (htargets : ∀ k < n, targets k ≤ targets' k) :
    track d start targets n ≤ track d start' targets' n := by
  induction n with
  | zero => exact hstart
  | succ n ih =>
    rw [track_succ, track_succ]
    exact smooth_le_smooth hd (ih fun k hk ↦ htargets k (Nat.lt_succ_of_lt hk))
      (htargets n (Nat.lt_succ_self n))

/-- On the same targets the distance shrinks with every step. -/
theorem sub_le_shrink {start start' : ℤ} (targets : ℕ → ℤ) (n : ℕ) :
    track d start' targets n - track d start targets n ≤ (shrink d)^[n] (start' - start) := by
  induction n with
  | zero => exact le_rfl
  | succ n ih =>
    rw [track_succ, track_succ, Function.iterate_succ_apply']
    exact (smooth_sub_smooth_le hd (targets n)).trans (shrink_mono hd ih)

theorem shrink_mem_Icc {distance bound : ℤ} (hmem : distance ∈ Set.Icc 0 bound) :
    shrink d distance ∈ Set.Icc 0 bound := by
  have hquotient : 0 ≤ distance / d := Int.ediv_nonneg hmem.1 hd.le
  have hle : distance / d ≤ distance := Int.ediv_le_self _ hmem.1
  rw [shrink]
  exact ⟨by linarith, by linarith [hmem.2]⟩

theorem iterate_shrink_mem_Icc {distance bound : ℤ} (hmem : distance ∈ Set.Icc 0 bound) (n : ℕ) :
    (shrink d)^[n] distance ∈ Set.Icc 0 bound := by
  induction n with
  | zero => exact hmem
  | succ n ih =>
    rw [Function.iterate_succ_apply']
    exact shrink_mem_Icc hd ih

/-- If `steps` steps take a distance of `bound` below `d`, two accumulators that differ by at most
`bound` differ by less than `d` from then on, on whatever targets. -/
theorem abs_sub_lt {start start' bound : ℤ} (hbound : |start' - start| ≤ bound) {steps : ℕ}
    (hsteps : (shrink d)^[steps] bound < d) (targets : ℕ → ℤ) {n : ℕ} (hn : steps ≤ n) :
    |track d start' targets n - track d start targets n| < d := by
  have hnonneg : 0 ≤ bound := (abs_nonneg _).trans hbound
  have hstays : (shrink d)^[n] bound < d := by
    obtain ⟨k, rfl⟩ := Nat.exists_eq_add_of_le' hn
    rw [Function.iterate_add_apply]
    have hmem : (shrink d)^[steps] bound ∈ Set.Icc 0 ((shrink d)^[steps] bound) :=
      ⟨(iterate_shrink_mem_Icc hd ⟨hnonneg, le_rfl⟩ steps).1, le_rfl⟩
    exact ((iterate_shrink_mem_Icc hd hmem k).2).trans_lt hsteps
  have hiterate : ∀ distance ≤ bound, (shrink d)^[n] distance < d := fun distance hle ↦
    ((shrink_mono hd).iterate n hle).trans_lt hstays
  obtain ⟨hlower, hupper⟩ := abs_le.mp hbound
  rw [abs_lt]
  constructor
  · have hsub := (sub_le_shrink hd targets n).trans_lt (hiterate (start - start') (by linarith))
    linarith
  · exact (sub_le_shrink hd targets n).trans_lt (hiterate (start' - start) hupper)

end OnePole
