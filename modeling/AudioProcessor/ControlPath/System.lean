import AudioProcessor.Codec.Run
import AudioProcessor.Volume.Control

/-!
# The control path

The volume buttons and the codec controller on one 50 MHz clock with one reset, as the top level
connects them. Along a run with the reset released the codec controller is a run of its own on the
signals of the volume control (`codec_run`), and the reset, held low for some edges, takes the
system to `State.afterReset` (`run_reset`).
-/

set_option autoImplicit false
set_option relaxedAutoImplicit false

namespace AudioProcessor.ControlPath

open Codec (Signals)

/-- What comes from outside in a cycle of the clock: the level of the reset at its end, the buttons,
and what the slave on the bus answers if it is asked. -/
structure Inputs where
  reset : Bool
  buttons : Volume.Buttons
  answer : Bool

/-- The registers of both entities. -/
@[ext]
structure State where
  volume : Volume.State
  codec : Codec.State
deriving DecidableEq

/-- The signals from the volume control to the codec controller. -/
def signals (v : Volume.State) : Signals := ⟨v.volUp.out, v.volDown.out, v.muteState⟩

/-- One rising edge of the clock. -/
def step (i : Inputs) (s : State) : State where
  volume := Volume.step i.reset i.buttons s.volume
  codec := Codec.step i.reset (signals s.volume)
    (signals (Volume.step i.reset i.buttons s.volume)) i.answer s.codec

/-- The registers after a number of edges. -/
def run (s : State) (inputs : ℕ → Inputs) : ℕ → State := Clocked.run step s inputs

theorem run_succ (s : State) (inputs : ℕ → Inputs) (t : ℕ) :
    run s inputs (t + 1) = step (inputs t) (run s inputs t) := rfl

theorem run_add (s : State) (inputs : ℕ → Inputs) (m n : ℕ) :
    run s inputs (m + n) = run (run s inputs m) (fun k ↦ inputs (m + k)) n :=
  Clocked.run_add step s inputs m n

/-- What can be seen from outside: the ports, with `sdaDrive` telling whether the sequencer pulls
the data line low. -/
structure Outputs where
  volOut : BitVec 7
  isMuted : Bool
  greenLEDs : BitVec 8
  redLEDs : BitVec 18
  stateOut : ℕ
  scl : Bool
  sdaDrive : Bool
deriving DecidableEq

/-- The outputs in a state. -/
def outputs (s : State) : Outputs where
  volOut := s.codec.volLevel
  isMuted := s.volume.muteState
  greenLEDs := s.volume.greenLEDs
  redLEDs := s.volume.redLEDs
  stateOut := s.codec.slow.currentState.out
  scl := s.codec.slow.i2c.scl s.codec.i2cClock20KHz
  sdaDrive := !s.codec.slow.i2c.sdo

/-- The registers as the device is configured: what has a reset value has it, and the stretchers
are at rest. -/
def State.initial : State where
  volume := ⟨false, false, .released, .released, .released, 0b11111111, false, .idle, .idle⟩
  codec := ⟨0, false, 0b1101101, false, false, ⟨.resetState, false, false, false, 0,
    ⟨63, true, true, true, false, false, false, 0⟩⟩⟩

/-- A state that some inputs, resets among them, lead to. -/
def Reachable (s : State) : Prop := ∃ inputs n, run .initial inputs n = s

/-! ### Reset -/

/-- The registers after the reset was low: those of the down stretcher, which no reset branch
assigns, are as they were. -/
def State.afterReset (s : State) : State where
  volume :=
    { rstSync1 := false
      rstSync2 := false
      volUpBtn := .released
      volDownBtn := .released
      muteBtn := .released
      ledRegisters := 0b11111111
      muteState := false
      volUp := .idle
      volDown := s.volume.volDown }
  codec := s.codec.asyncReset

/-- The down stretcher is at rest. -/
def State.DownAtRest (s : State) : Prop := s.volume.volDown = .idle

/-- The registers that an edge with the reset low does not change any more. -/
theorem step_afterReset (i : Inputs) (s : State) (hreset : i.reset = false) :
    step i s.afterReset = s.afterReset := by
  simp [step, hreset, Volume.step, Volume.State.clockEdge, Volume.State.asyncReset, Codec.step,
    State.afterReset, Codec.State.asyncReset, Codec.Slow.asyncReset, Codec.Sequencer.asyncReset]

/-- Two edges with the reset low are enough for its synchronised copy to be low as well. -/
theorem step_step_reset (i j : Inputs) (s : State) (hi : i.reset = false) (hj : j.reset = false) :
    step j (step i s) = s.afterReset := by
  simp [step, hi, hj, Volume.step, Volume.State.clockEdge, Volume.State.asyncReset, Codec.step,
    State.afterReset, Codec.State.asyncReset, Codec.Slow.asyncReset, Codec.Sequencer.asyncReset]

/-- Held low, the reset takes the system to `afterReset`. -/
theorem run_reset (s : State) (inputs : ℕ → Inputs) {n : ℕ} (hn : 2 ≤ n)
    (hreset : ∀ k < n, (inputs k).reset = false) : run s inputs n = s.afterReset := by
  induction n, hn using Nat.le_induction with
  | base => exact step_step_reset _ _ s (hreset 0 (by omega)) (hreset 1 (by omega))
  | succ n hn ih =>
    rw [run_succ, ih fun k hk ↦ hreset k (by omega), step_afterReset _ s (hreset n (by omega))]

/-- After a reset of some edges the run is one from `afterReset`. -/
theorem run_of_reset (s : State) {inputs : ℕ → Inputs} {n : ℕ} (hn : 3 ≤ n)
    (hreset : ∀ t, (inputs t).reset = decide (n ≤ t)) (k : ℕ) :
    run s inputs (n + k) = run s.afterReset (fun t ↦ inputs (n + t)) k := by
  have hlow : ∀ k < n, (inputs k).reset = false := by
    intro k hk
    rw [hreset, decide_eq_false (Nat.not_le.mpr hk)]
  rw [run_add, run_reset s inputs (by omega) hlow]

/-! ### Runs with the reset released -/

section Released

variable (s : State) {inputs : ℕ → Inputs} (hreset : ∀ t, (inputs t).reset = true)

include hreset

theorem volume_run_succ (t : ℕ) : (run s inputs (t + 1)).volume =
    Volume.step true (inputs t).buttons (run s inputs t).volume := by
  rw [run_succ, step, hreset]

/-- The volume control runs on the buttons. -/
theorem volume_run (t : ℕ) :
    (run s inputs t).volume = Volume.run s.volume (fun t ↦ (inputs t).buttons) t := by
  induction t with
  | zero => rfl
  | succ t ih => rw [Volume.run_succ, ← ih, volume_run_succ s hreset]

omit hreset in
theorem settled_afterReset : s.afterReset.volume.Settled :=
  ⟨fun hsync ↦ hsync, fun _ ↦ rfl, fun _ ↦ rfl, fun _ ↦ rfl, fun _ ↦ rfl, fun _ ↦ rfl⟩

/-- After a reset the volume control is settled. -/
theorem settled_run (t : ℕ) : (run s.afterReset inputs t).volume.Settled := by
  cases t with
  | zero => exact settled_afterReset s
  | succ t =>
    rw [volume_run_succ s.afterReset hreset]
    exact Volume.State.Settled.settled_step _

/-- The codec controller runs on the signals of the volume control. -/
theorem codec_run (t : ℕ) : (run s inputs t).codec =
    Codec.run s.codec (fun t ↦ signals (run s inputs t).volume) (fun t ↦ (inputs t).answer) t := by
  induction t with
  | zero => rfl
  | succ t ih =>
    rw [Codec.run_succ, ← ih, run_succ, step, hreset]

end Released

/-! ### Ticks after a reset -/

/-- The 20 kHz domain before tick `n` after a reset. -/
def beforeTick (s : State) (inputs : ℕ → Inputs) (n : ℕ) : Codec.Slow :=
  (run s.afterReset inputs (1250 + 2500 * n)).codec.slow

/-- What tick `n` after a reset reads. -/
def atTick (s : State) (inputs : ℕ → Inputs) (n : ℕ) : Codec.TickInputs where
  before := signals (run s.afterReset inputs (1250 + 2500 * n)).volume
  after := signals (run s.afterReset inputs (1250 + 2500 * n + 1)).volume
  volLevel := (run s.afterReset inputs (1250 + 2500 * n)).codec.volLevel
  pull := (inputs (1250 + 2500 * n)).answer

/-- The ticks after a reset are a run of the 20 kHz domain. -/
theorem beforeTick_eq_run (s : State) {inputs : ℕ → Inputs}
    (hreset : ∀ t, (inputs t).reset = true) (n : ℕ) :
    beforeTick s inputs n = s.codec.slow.asyncReset.run (atTick s inputs) n := by
  have hcodec := codec_run s.afterReset hreset
  have hinputs : Codec.tickInputs s.codec.asyncReset
      (fun t ↦ signals (run s.afterReset inputs t).volume) (fun t ↦ (inputs t).answer) =
        atTick s inputs := by
    funext i
    rw [Codec.tickInputs, atTick, Codec.tickEdge_asyncReset, hcodec]
    rfl
  rw [beforeTick, hcodec, ← hinputs, ← Codec.beforeTick_eq_run]
  rfl

end AudioProcessor.ControlPath
