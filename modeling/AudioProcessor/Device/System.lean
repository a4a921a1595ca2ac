import AudioProcessor.Board.Reset
import AudioProcessor.TopLevel.SwitchReset

/-!
# The whole device

Everything on the top level together: the control path and the start delay behind `SW(0)`, and the
board of the audio controller and the processor. `resetAdcDac`, the output of the start delay, is the
reset of the audio controller and of the PLL that makes its clock, so there is an edge of the audio
clock only while it is high. The processor has the oscillator for its clock, and its system comes into
a reset and out of it again some cycles after the switch has been low. Its coming out of the reset is
an event of its own.

In every state that a run from power-up leads to, resets among its events, the processor is on its
way to an access of the program, the program is in its memory, and what the switch and the start
delay hold in reset is reset (`Sound`).
-/

set_option autoImplicit false
set_option relaxedAutoImplicit false

namespace AudioProcessor.Device

open AudioPath (Switches)
open Nios (Holds Loaded Slave Tracks Word)
open Volume (Buttons)

/-- What happens next: `SW(0)` is set, the 50 MHz clock rises if its PLL runs, with the buttons and
what the codec answers if it is asked, the audio clock rises if its PLL runs, the NIOS system comes
out of a reset, or the processor executes an instruction. -/
inductive Event
  | sw0 (level : Bool)
  | clock (buttons : Buttons) (answer : Bool)
  | audioClock (adcData : Bool)
  | niosReset
  | instruction (switches : Switches) (irq : Bool) (others : Slave → BitVec 2 → Word)

/-- The switch with what is behind it, and the board. -/
structure State where
  top : TopLevel.State
  board : Board.State

/-- The reset of the NIOS system: the processor starts again with the registers and the memory as
they are, and the output PIOs are cleared. -/
def niosReset (b : Board.State) : Board.State :=
  { b with
    machine := b.machine.map fun m ↦ ⟨.reset m.processor.registers, m.sram⟩
    outLeft := 0
    outRight := 0 }

/-- While `resetAdcDac` is low the audio controller is in its reset. -/
def State.hold (s : State) : State :=
  if s.top.delay.resetAdc then s
  else { s with board := { s.board with controller := s.board.controller.asyncReset } }

/-- One event. -/
def step (e : Event) (s : State) : State :=
  match e with
  | .sw0 level => State.hold { s with top := TopLevel.step (.sw0 level) s.top }
  | .clock buttons answer => State.hold { s with top := TopLevel.step (.clock buttons answer) s.top }
  | .audioClock adcData =>
    if s.top.delay.resetAdc then { s with board := Board.step (.audioClock adcData) s.board } else s
  | .niosReset => { s with board := niosReset s.board }
  | .instruction switches irq others =>
    { s with board := Board.step (.instruction switches irq others) s.board }

/-- The device after a number of events. -/
def run (s : State) (events : ℕ → Event) : ℕ → State := Clocked.run step s events

theorem run_succ (s : State) (events : ℕ → Event) (t : ℕ) :
    run s events (t + 1) = step (events t) (run s events t) := rfl

/-- The device as it is configured, with the program downloaded into the memory of the processor. -/
structure PoweredUp (s : State) : Prop where
  top : ∃ level, s.top = .powerUp level
  machine : ∃ registers sram, Loaded sram ∧ s.board.machine = some ⟨.reset registers, sram⟩
  held : s.board.controller.asyncReset = s.board.controller

/-- A state that some events lead to. -/
def Reachable (s : State) : Prop := ∃ start events n, PoweredUp start ∧ run start events n = s

/-! ### What every event keeps -/

/-- The processor runs the program that is in its memory, and what is held in reset is reset. -/
structure Sound (s : State) : Prop where
  holds : Holds s.board.machine
  runs : ∃ main d, Tracks main d s.board.machine
  held : s.top.delay.resetAdc = false → s.board.controller.asyncReset = s.board.controller
  low : s.top.sw0 = false →
    s.top.control.codec.asyncReset = s.top.control.codec ∧ s.top.delay = .asyncReset

theorem PoweredUp.sound {s : State} (h : PoweredUp s) : Sound s := by
  obtain ⟨⟨level, htop⟩, ⟨registers, sram, hloaded, hmachine⟩, hheld⟩ := h
  refine ⟨⟨_, hmachine, hloaded⟩, ⟨_, _, hmachine ▸ Nios.tracks_reset hloaded registers⟩,
    fun _ ↦ hheld, fun hlow ↦ ?_⟩
  rw [htop] at hlow ⊢
  obtain rfl : level = false := hlow
  exact ⟨rfl, rfl⟩

@[simp] theorem hold_top (s : State) : s.hold.top = s.top := by
  rw [State.hold]
  split_ifs <;> rfl

@[simp] theorem hold_machine (s : State) : s.hold.board.machine = s.board.machine := by
  rw [State.hold]
  split_ifs <;> rfl

theorem hold_controller {s : State} (hlow : s.top.delay.resetAdc = false) :
    s.hold.board.controller.asyncReset = s.hold.board.controller := by
  rw [State.hold, if_neg (ne_true_of_eq_false hlow)]
  rfl

/-- The control path and the start delay go on, and the board with them. -/
theorem Sound.hold {s : State} (h : Sound s) {top : TopLevel.State}
    (hlow : top.sw0 = false →
      top.control.codec.asyncReset = top.control.codec ∧ top.delay = .asyncReset) :
    Sound (State.hold { s with top := top }) where
  holds := by rw [hold_machine]; exact h.holds
  runs := by rw [hold_machine]; exact h.runs
  held hreset := by rw [hold_top] at hreset; exact hold_controller hreset
  low := by rw [hold_top]; exact hlow

theorem Sound.step {s : State} (h : Sound s) (e : Event) : Sound (step e s) := by
  cases e with
  | sw0 level =>
    refine h.hold fun hlow ↦ ?_
    cases level with
    | false => exact ⟨rfl, rfl⟩
    | true => exact Bool.noConfusion hlow
  | clock buttons answer =>
    refine h.hold fun hlow ↦ ?_
    rw [TopLevel.step] at hlow ⊢
    split_ifs at hlow ⊢ with hhigh
    · exact absurd hlow (ne_false_of_eq_true hhigh)
    · exact h.low hlow
  | audioClock adcData =>
    rw [Device.step]
    split_ifs with hreset
    · exact ⟨h.holds, h.runs, fun hlow ↦ absurd hreset (ne_true_of_eq_false hlow), h.low⟩
    · exact h
  | niosReset =>
    obtain ⟨m, hm, hloaded⟩ := h.holds
    have hmachine : (niosReset s.board).machine = some ⟨.reset m.processor.registers, m.sram⟩ := by
      rw [niosReset, hm]
      rfl
    exact ⟨⟨_, hmachine, hloaded⟩, ⟨_, _, hmachine ▸ Nios.tracks_reset hloaded _⟩, h.held, h.low⟩
  | instruction switches irq others =>
    obtain ⟨main, d, htracks⟩ := h.runs
    refine ⟨htracks.holds _ h.holds, htracks.advance _, fun hlow ↦ ?_, h.low⟩
    have hcontroller : (Board.step (.instruction switches irq others) s.board).controller =
        s.board.controller := Board.controller_write _ _
    change (Board.step (.instruction switches irq others) s.board).controller.asyncReset =
      (Board.step (.instruction switches irq others) s.board).controller
    rw [hcontroller]
    exact h.held hlow

theorem Reachable.sound {s : State} (hreach : Reachable s) : Sound s := by
  obtain ⟨start, events, n, hstart, rfl⟩ := hreach
  exact Clocked.invariant_run hstart.sound (fun e _ h ↦ h.step e) n

/-- In every state that a run from power-up leads to, whatever resets of the switch and of the NIOS
system are among its events: the processor is not stuck, its memory holds the program, with none of
its words changed, and it is on its way to an access of the program; and while the audio controller
is held it is reset. -/
theorem reachable_intact {s : State} (hreach : Reachable s) :
    (∃ m, s.board.machine = some m ∧ Loaded m.sram) ∧ (∃ main d, Tracks main d s.board.machine) ∧
      (s.top.delay.resetAdc = false → s.board.controller.asyncReset = s.board.controller) :=
  ⟨hreach.sound.holds, hreach.sound.runs, hreach.sound.held⟩

/-- The device with the switch low from power-up on. -/
def switchedOff : State := ⟨.powerUp false, Board.resetBoard⟩

theorem poweredUp_switchedOff : PoweredUp switchedOff :=
  ⟨⟨false, rfl⟩, ⟨_, _, Nios.loaded_imageSram, rfl⟩, rfl⟩

/-- A reset of the NIOS system in each 100 events, which are instructions otherwise. -/
def resets (u : ℕ) : Event :=
  if u % 100 = 0 then .niosReset else .instruction AudioPath.flat true fun _ _ ↦ 0

theorem reachable_intact_resets :
    ∃ m, (run switchedOff resets 1000).board.machine = some m ∧ Loaded m.sram :=
  (reachable_intact ⟨switchedOff, resets, 1000, poweredUp_switchedOff, rfl⟩).1

end AudioProcessor.Device
