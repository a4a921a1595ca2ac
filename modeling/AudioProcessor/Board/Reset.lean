import AudioProcessor.Board.Deadline

/-!
# From the reset of the board

A reset of the board clears the output PIOs and starts the processor, and holds the controller in
its reset for some time longer. Meanwhile the ready flag is low, so a processor that has come
through its start-up code polls and waits (`waiting_held`): 99 instructions are enough. From there
on the words of the samples are sent, with the accumulator at zero before the first frame
(`sent_board`).
-/

set_option autoImplicit false
set_option relaxedAutoImplicit false

namespace AudioProcessor.Board

open AdcDac (sent received)
open AudioPath (InFrame Switches Unbounded Waiting adcBits filtered frame sample)
open Clocked (run run_succ)
open Equaliser (Main)
open Nios (Loaded Registers Tracks Word)
open Serial (msbFirst)

/-- The board at its reset, with what the registers and the memory of the processor hold. -/
def State.reset (registers : Registers) (sram : BitVec 14 → Word) (b : State) : State where
  controller := b.controller.asyncReset
  machine := some ⟨.reset registers, sram⟩
  outLeft := 0
  outRight := 0

/-- The board while the reset of the controller is held: the state before each event. -/
def held (b : State) (ev : ℕ → Event) : ℕ → State := run (resetStep false) b ev

/-- The program after some instructions with the ready flag low: in its start-up code, or waiting. -/
def Starts (count : ℕ) (m : Option Nios.Machine) : Prop :=
  (count ≤ 105 ∧ Tracks .start (105 - count) m) ∨
    ∃ main, ∃ d ≤ 3, Waiting 0 main ∧ Tracks main d m

/-- A poll with the ready flag low keeps a waiting program waiting, and takes four instructions. -/
theorem waiting_due {main : Main} {m : Option Nios.Machine} (hwaiting : Waiting 0 main)
    (htracks : Tracks main 0 m) {pins : Nios.Pins} (hlow : pins.ports.dataReady = 0) :
    ∃ main', ∃ d ≤ 3, Waiting 0 main' ∧ Tracks main' d (Nios.advance pins m) := by
  have hready : pins.ports.ready = 0 := by
    rw [Equaliser.Ports.ready, hlow]
    rfl
  have htriggers : main.triggers pins.ports = false := by
    rw [Main.triggers, hready]
    exact Bool.and_false _
  have hnext := (htracks.due pins).2
  rw [Main.step_of_poll hwaiting.access htriggers, hready] at hnext
  refine ⟨{ main with currentReady := 0, lastReady := 0 }, _, ?_,
    ⟨hwaiting.access, rfl, hwaiting.bassPrev⟩, hnext⟩
  rw [Nios.silence, hwaiting.access, hready]
  exact le_rfl

/-- An instruction with the ready flag low. -/
theorem Starts.succ {count : ℕ} {m : Option Nios.Machine} (h : Starts count m) {pins : Nios.Pins}
    (hlow : pins.ports.dataReady = 0) : Starts (count + 1) (Nios.advance pins m) := by
  rcases h with ⟨hcount, htracks⟩ | ⟨main, d, hd, hwaiting, htracks⟩
  · rcases Nat.lt_or_eq_of_le hcount with hlt | rfl
    · rw [show 105 - count = 105 - (count + 1) + 1 by omega] at htracks
      exact .inl ⟨hlt, (htracks.silent pins).2⟩
    · exact .inr (waiting_due ⟨rfl, rfl, rfl⟩ htracks hlow)
  · cases d with
    | zero => exact .inr (waiting_due hwaiting htracks hlow)
    | succ d => exact .inr ⟨main, d, Nat.le_of_succ_le hd, hwaiting, (htracks.silent pins).2⟩

/-- A transfer of the processor leaves the controller. -/
theorem controller_write (b : State) (t : Option Nios.Transfer) :
    (b.write t).controller = b.controller := by
  unfold State.write
  split <;> rfl

/-- Throughout the reset of the controller its flag is low, and the processor starts. -/
theorem starts_held {b : State} (hreset : b.controller.internalLRSelect = false)
    (hstart : Starts 0 b.machine) (ev : ℕ → Event) (t : ℕ) :
    (held b ev t).controller.internalLRSelect = false ∧
      Starts (instructions ev t) (held b ev t).machine := by
  induction t with
  | zero => exact ⟨hreset, hstart⟩
  | succ t ih =>
    obtain ⟨hlow, hstarts⟩ := ih
    rw [held, run_succ]
    cases hev : ev t with
    | audioClock adcData =>
      have hrest : instructions ev (t + 1) = instructions ev t :=
        Clocked.ticks_succ_rest (by rw [hev]; exact Bool.noConfusion)
      rw [hrest]
      exact ⟨rfl, hstarts⟩
    | instruction switches irq others =>
      rw [instructions_succ (by rw [hev]; rfl)]
      have hports : ((held b ev t).pins switches irq others).ports.dataReady = 0 := by
        rw [State.pins, AdcDac.State.dataReadyFlag]
        exact congrArg BitVec.ofBool hlow
      exact ⟨(congrArg _ (controller_write _ _)).trans hlow, hstarts.succ hports⟩

/-- After 99 instructions the processor waits, or will before its next transfer. -/
theorem Starts.waiting {count : ℕ} {m : Option Nios.Machine} (h : Starts count m)
    (hcount : 99 ≤ count) : ∃ main, ∃ d ≤ 6, Waiting 0 main ∧ Tracks main d m := by
  rcases h with ⟨hle, htracks⟩ | ⟨main, d, hd, hwaiting, htracks⟩
  · exact ⟨.start, _, by omega, ⟨rfl, rfl, rfl⟩, htracks⟩
  · exact ⟨main, d, by omega, hwaiting, htracks⟩

/-- A reset of the board, whatever the registers of the processor and the controller and the memory
beyond the program hold; a first stretch of 99 or more instructions with the controller in its
reset; and from its release on any interleaving in which six instructions take at most half a frame
and, together with 79, end before the words are latched. Then both slots of every frame from the
second on carry the word that the program makes of the sample of the frame before, from an
accumulator that was zero at first; and each sample is the word received in the left slot of the
frame before it. -/
theorem sent_board {sram : BitVec 14 → Word} (hloaded : Loaded sram) (registers : Registers)
    (b : State) (before : ℕ → Event) {last : ℕ} (hboot : 99 ≤ instructions before last)
    {ev : ℕ → Event} (hclock : Unbounded ev) {idle busy : ℕ} (hidle : Within ev 6 idle)
    (hbusy : Within ev 79 busy) (hhalf : idle ≤ 192) (hlatch : idle + busy ≤ 372)
    {setting : ℕ → Switches} (hsetting : ∀ n t switches irq others, InFrame ev n t →
      ev t = .instruction switches irq others → switches = setting n) (n : ℕ) :
    msbFirst (sample (view (held (b.reset registers sram) before last) ev) (n + 1)) =
        received (view (held (b.reset registers sram) before last) ev) (adcBits ev) true n ∧
      ∀ slot, sent (view (held (b.reset registers sram) before last) ev) slot (n + 1) =
        msbFirst (filtered 0
          (frame (view (held (b.reset registers sram) before last) ev) setting) n) := by
  have hstart : Starts 0 (b.reset registers sram).machine :=
    .inl ⟨Nat.zero_le _, Nios.tracks_reset hloaded registers⟩
  obtain ⟨main, d, hd, hwaiting, htracks⟩ := (starts_held rfl hstart before last).2.waiting hboot
  exact sent_of_tracks htracks hd hwaiting hclock hidle hbusy hhalf hlatch hsetting n

/-- The reset of the controller leaves the word in the left bridge register. -/
theorem audioToNiosLeft_held (b : State) (ev : ℕ → Event) (t : ℕ) :
    (held b ev t).controller.audioToNiosLeft = b.controller.audioToNiosLeft := by
  induction t with
  | zero => rfl
  | succ t ih =>
    rw [held, run_succ]
    cases ev t with
    | audioClock adcData => exact ih
    | instruction switches irq others => exact (congrArg _ (controller_write _ _)).trans ih

/-- The first frame is made of the word that the reset has left. -/
theorem sample_zero {b : State} {main : Main} {d : ℕ} (h : Tracks main d b.machine)
    {ev : ℕ → Event} (hclock : Unbounded ev) :
    sample (view b ev) 0 = b.controller.audioToNiosLeft := by
  rw [sample, ← view_accesses hclock h, AudioPath.view_eq _ _ (unbounded_accesses b hclock),
    AdcDac.audioToNiosLeft_between _ _ 0 (by omega) (by omega)]
  rfl

/-- The board after a reset of 210 events, edges of the audio clock and instructions in turn. -/
def heldBoard : State :=
  held (resetBoard.reset Nios.cleared Nios.imageSram) (alternating AudioPath.flat) 210

theorem instructions_heldBoard : 99 ≤ instructions (alternating AudioPath.flat) 210 := by
  rw [(counts_alternating _ 210).2]
  decide

theorem sample_heldBoard : sample (view heldBoard (alternating AudioPath.flat)) 0 = 0x1234 := by
  have hstart : Starts 0 (resetBoard.reset Nios.cleared Nios.imageSram).machine :=
    .inl ⟨Nat.zero_le _, Nios.tracks_reset Nios.loaded_imageSram Nios.cleared⟩
  obtain ⟨main, d, -, -, htracks⟩ :=
    (starts_held rfl hstart (alternating AudioPath.flat) 210).2.waiting instructions_heldBoard
  rw [sample_zero (b := heldBoard) htracks (unbounded_alternating _), heldBoard,
    audioToNiosLeft_held]
  rfl

/-- With both stages at zero the word in the bridge register is sent in both slots of frame 1. -/
theorem sent_board_flat :
    sent (view heldBoard (alternating AudioPath.flat)) true 1 = msbFirst (0x1234 : BitVec 16) ∧
      sent (view heldBoard (alternating AudioPath.flat)) false 1 =
        msbFirst (0x1234 : BitVec 16) := by
  have hsetting : ∀ n t switches irq others, InFrame (alternating AudioPath.flat) n t →
      alternating AudioPath.flat t = .instruction switches irq others →
        switches = (fun _ : ℕ ↦ AudioPath.flat) n :=
    fun _ _ _ _ _ _ hinstruction ↦ setting_alternating _ hinstruction
  have hsent := (sent_board Nios.loaded_imageSram Nios.cleared resetBoard
    (alternating AudioPath.flat) instructions_heldBoard (unbounded_alternating _)
    (within_alternating _ 6) (within_alternating _ 79) (by decide) (by decide) hsetting 0).2
  have hfiltered : filtered 0 (frame (view heldBoard (alternating AudioPath.flat))
      fun _ ↦ AudioPath.flat) 0 = 0x1234 := by
    rw [filtered, frame, sample_heldBoard]
    decide
  rw [← hfiltered]
  exact ⟨hsent true, hsent false⟩

end AudioProcessor.Board
