import AudioProcessor.Codec.Transfers
import AudioProcessor.TopLevel.System

/-!
# The start delay

From the release of the reset on the codec controller sends one pass before it stops for the first
time, of eleven positions, or of eight if it sees a volume pulse at its first tick. The buttons can
move the volume meanwhile, but they cannot prolong the pass: it is over at tick 398 at the latest,
after less than half of the two million cycles for which the start delay keeps the audio controller
in reset.
-/

set_option autoImplicit false
set_option relaxedAutoImplicit false

namespace AudioProcessor.Codec.Slow

variable {start : Slow} (hstart : start.Valid) (hjump : start.phase = .jump)
  {inputs : ℕ → TickInputs} (hacked : start.Acknowledged inputs)

include hstart hjump

/-- The first tick begins the first pass, at position 0 or at the volume registers. -/
theorem exists_begin : ∃ first, (first = 0 ∨ first = 3) ∧
    (start.run inputs 1).phase = .frame first 0 := by
  have hbegin := phase_run_succ hstart inputs 0
  rw [show (start.run inputs 0).phase = .jump from hjump, Phase.next] at hbegin
  refine ⟨_, ?_, hbegin⟩
  split_ifs
  · exact .inr rfl
  · exact .inl rfl

include hacked

/-- The first pass ends with the first `stop`, whatever the signals do meanwhile. -/
theorem exists_firstPass : ∃ first, (first = 0 ∨ first = 3) ∧
    (start.run inputs (36 * (11 - first) + 2)).currentState = .stop ∧
      (∀ n < 36 * (11 - first) + 2, (start.run inputs n).currentState ≠ .stop) ∧
      (transfers (start.run inputs) (36 * (11 - first) + 2)).map Prod.fst =
        (List.range (11 - first)).map (first + ·) := by
  obtain ⟨first, hposition, hbegin⟩ : ∃ first, (first = 0 ∨ first = 3) ∧
      (start.run inputs 1).phase = .frame first 0 := exists_begin hstart hjump
  have hfirst : first ≤ 10 := by omega
  obtain ⟨hstop, hsent⟩ := transfers_of_begin hstart hacked hjump hfirst hbegin
  refine ⟨first, hposition, currentState_of_stop hstop, fun n hn hstate ↦ ?_, ?_⟩
  · have hphase := phase_of_stop hstate
    cases n with
    | zero => exact Phase.noConfusion (hjump.symm.trans hphase)
    | succ n =>
      exact phase_pass_ne_stop hstart hacked hbegin hfirst (by omega) (by omega) hphase
  · rw [hsent, List.map_map]
    rfl

end AudioProcessor.Codec.Slow

namespace AudioProcessor.TopLevel

open Codec (transfers)
open Volume (Buttons)

/-- The system from the release of the reset on, with a slave that acknowledges everything. What the
volume control holds at the release is left open. -/
def released (v : Volume.State) (c : Codec.State) (buttons : ℕ → Buttons) : ℕ → State :=
  run ⟨true, ⟨v, c.asyncReset⟩, .asyncReset⟩ fun t ↦ .clock (buttons t) true

section Released

variable (v : Volume.State) (c : Codec.State) (buttons : ℕ → Buttons)

/-- The control path runs on the buttons, and the start delay counts. -/
theorem released_eq (t : ℕ) : released v c buttons t =
    ⟨true, ControlPath.run ⟨v, c.asyncReset⟩ (fun t ↦ ⟨true, buttons t, true⟩) t, .after t⟩ := by
  induction t with
  | zero => rfl
  | succ t ih =>
    have hnext : released v c buttons (t + 1) =
        step (.clock (buttons t) true) (released v c buttons t) := rfl
    rw [hnext, ih, step, if_pos rfl, DelayCounter.step_after]
    rfl

/-- What tick `i` of the codec controller reads. -/
def releasedTicks : ℕ → Codec.TickInputs :=
  Codec.tickInputs c.asyncReset (fun t ↦ ControlPath.signals
    (ControlPath.run ⟨v, c.asyncReset⟩ (fun t ↦ ⟨true, buttons t, true⟩) t).volume) fun _ ↦ true

/-- Its 20 kHz domain makes a tick after 1250 cycles and then every 2500 cycles. -/
theorem released_slow (t : ℕ) : (released v c buttons t).control.codec.slow =
    c.slow.asyncReset.run (releasedTicks v c buttons) ((t + 1249) / 2500) := by
  rw [released_eq]
  dsimp only
  rw [ControlPath.codec_run _ fun _ ↦ rfl]
  exact (Codec.slow_released c _ _ t).trans (Codec.beforeTick_eq_run c _ _ _)

end Released

/-- For every state of the volume control at the release of the reset and every waveform of the
buttons, the codec controller comes to a first `stop`, having sent the positions of its pass, from 0
or from 3 up to the last one, and the audio controller is still in reset then. -/
theorem resetAdc_firstPass (v : Volume.State) (c : Codec.State) (buttons : ℕ → Buttons) :
    ∃ n, (released v c buttons (1250 + 2500 * n + 1)).control.codec.slow.currentState = .stop ∧
      (∀ t < 1250 + 2500 * n + 1,
        (released v c buttons t).control.codec.slow.currentState ≠ .stop) ∧
      (∀ t ≤ 1250 + 2500 * n + 1, (released v c buttons t).delay.resetAdc = false) ∧
      ∃ first, (first = 0 ∨ first = 3) ∧
        (transfers (fun i ↦ (released v c buttons (1250 + 2500 * i)).control.codec.slow)
            (n + 1)).map Prod.fst =
          (List.range (11 - first)).map (first + ·) := by
  have hacked : c.slow.asyncReset.Acknowledged (releasedTicks v c buttons) := fun _ _ ↦ rfl
  obtain ⟨first, hposition, hstop, hbefore, hsent⟩ := Codec.Slow.exists_firstPass
    (Codec.Slow.valid_asyncReset c.slow) (Codec.Slow.phase_asyncReset c.slow) hacked
  refine ⟨36 * (11 - first) + 1, ?_, fun t ht ↦ ?_, fun t ht ↦ ?_, first, hposition, ?_⟩
  · rwa [released_slow, show (1250 + 2500 * (36 * (11 - first) + 1) + 1 + 1249) / 2500 =
      36 * (11 - first) + 2 by omega]
  · rw [released_slow]
    exact hbefore _ (by omega)
  · rw [released_eq]
    exact decide_eq_false (by omega)
  · have htick (i : ℕ) : (released v c buttons (1250 + 2500 * i)).control.codec.slow =
        c.slow.asyncReset.run (releasedTicks v c buttons) i := by
      rw [released_slow, show (1250 + 2500 * i + 1249) / 2500 = i by omega]
    rw [funext htick]
    exact hsent

end AudioProcessor.TopLevel
