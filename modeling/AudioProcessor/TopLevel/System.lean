import AudioProcessor.ControlPath.System

/-!
# The top level

The switch `SW(0)` of the board with the control path and the start delay of the audio controller
behind it. The switch is the active-low reset of all of them, and low it also holds the PLL that
makes their clock in reset: there is no edge of the clock while it is low. So the registers with
`SW(0)` in their sensitivity list are reset when it goes low, and the others, those behind the
synchronised copy of the reset in the volume control among them, only see what the clock brings.
-/

set_option autoImplicit false
set_option relaxedAutoImplicit false

namespace AudioProcessor.TopLevel

open Volume (Buttons)

/-! ### The start delay -/

/-- The registers of `delayCounter.vhd`. -/
@[ext]
structure DelayCounter where
  delayCounterInternalCount : ℕ
  resetAdc : Bool
deriving DecidableEq

/-- Its reset branch. -/
def DelayCounter.asyncReset : DelayCounter := ⟨0, false⟩

/-- A rising edge of the clock with the reset released. -/
def DelayCounter.step (d : DelayCounter) : DelayCounter :=
  if d.delayCounterInternalCount ≥ 2000000 then ⟨2000000, true⟩
  else ⟨d.delayCounterInternalCount + 1, false⟩

/-- The start delay after `t` edges. -/
def DelayCounter.after (t : ℕ) : DelayCounter := ⟨min t 2000000, decide (2000000 < t)⟩

theorem DelayCounter.step_after (t : ℕ) : (after t).step = after (t + 1) := by
  rw [after, after, step]
  dsimp only
  split_ifs with hcount
  · rw [Nat.min_eq_right (by omega), decide_eq_true (by omega)]
  · rw [Nat.min_eq_left (by omega), Nat.min_eq_left (by omega), decide_eq_false (by omega)]

/-! ### The system -/

/-- What happens next: the switch is set, or the clock rises if the PLL runs, with the buttons as they
stand and what the slave on the bus answers if it is asked. -/
inductive Event
  | sw0 (level : Bool)
  | clock (buttons : Buttons) (answer : Bool)

/-- The switch and the registers. -/
@[ext]
structure State where
  sw0 : Bool
  control : ControlPath.State
  delay : DelayCounter
deriving DecidableEq

/-- The switch is low: the reset branches of the processes that take it, with no edge of the clock. -/
def State.asyncReset (s : State) : State where
  sw0 := false
  control := ⟨s.control.volume.asyncReset false, s.control.codec.asyncReset⟩
  delay := .asyncReset

/-- One event. -/
def step (e : Event) (s : State) : State :=
  match e with
  | .sw0 level => if level then { s with sw0 := true } else s.asyncReset
  | .clock buttons answer =>
    if s.sw0 then
      { s with control := ControlPath.step ⟨true, buttons, answer⟩ s.control, delay := s.delay.step }
    else s

/-- The system after a number of events. -/
def run (s : State) (events : ℕ → Event) : ℕ → State := Clocked.run step s events

theorem run_succ (s : State) (events : ℕ → Event) (t : ℕ) :
    run s events (t + 1) = step (events t) (run s events t) := rfl

end AudioProcessor.TopLevel
