import AudioProcessor.AudioPath.System
import AudioProcessor.Equaliser.Exact
import AudioProcessor.Nios.Trace

/-!
# The controller and the processor on the board

The audio path with the processor in the place of the program: an interleaving is now a stream of
edges of the audio clock and single instructions. A transfer of the processor with an output PIO
writes `data_out` of the PIO, and the input PIOs show the ready flag and the left bridge register of
the controller.

Seen at the edges of the audio clock and at the transfers only, the board is the audio path
(`follows_released`): `accesses` are these events of the interleaving, and an instruction without a
transfer is not one.
-/

set_option autoImplicit false
set_option relaxedAutoImplicit false

namespace AudioProcessor.Board

open AudioPath (AudioClocked Switches edges edges_succ_audioClock edges_succ_rest edges_zero)
open Clocked (run)
open Equaliser (Main iowr)
open Nios (Machine Pins Slave Transfer Tracks Word advance dataOut emits mainTransfer)
open Stuttering (visibleAt seenAt)

/-- What happens next: an edge of the audio clock with the bit on the ADC line, or an instruction of
the processor, with the switches, the interrupt line and the other slaves as they stand. -/
inductive Event
  | audioClock (adcData : Bool)
  | instruction (switches : Switches) (irq : Bool) (others : Slave → BitVec 2 → Word)

/-- The event is an edge of the audio clock. -/
def Event.isAudioClock : Event → Bool
  | .audioClock _ => true
  | .instruction .. => false

/-- The bit on the ADC line at an edge. -/
def Event.adcData : Event → Bool
  | .audioClock adcData => adcData
  | .instruction .. => false

instance : AudioClocked Event := ⟨Event.isAudioClock, Event.adcData⟩

/-- The event as one of the audio path. -/
def Event.access : Event → AudioPath.Event
  | .audioClock adcData => .audioClock adcData
  | .instruction switches _ _ => .access switches

/-- The registers of the controller, the processor with its memory, and the words in the output
PIOs. -/
structure State where
  controller : AdcDac.State
  machine : Option Machine
  outLeft : BitVec 16
  outRight : BitVec 16

/-- What the slaves of the processor show. -/
def State.pins (switches : Switches) (irq : Bool) (others : Slave → BitVec 2 → Word) (b : State) :
    Pins where
  irq := irq
  ports := ⟨BitVec.ofBool b.controller.dataReadyFlag, b.controller.audioToNiosLeft, switches.bass,
    switches.treble⟩
  others := others

/-- The output PIOs after a transfer. -/
def State.write (b : State) : Option Transfer → State
  | some ⟨.niosOutLeft, offset, some writedata⟩ =>
    { b with outLeft := dataOut writedata offset b.outLeft }
  | some ⟨.niosOutRight, offset, some writedata⟩ =>
    { b with outRight := dataOut writedata offset b.outRight }
  | _ => b

/-- One event, under a level of the reset of the controller. -/
def resetStep (reset : Bool) (e : Event) (b : State) : State :=
  match e with
  | .audioClock adcData =>
    { b with controller := AdcDac.step reset ⟨false, adcData, b.outLeft, b.outRight⟩ b.controller }
  | .instruction switches irq others =>
    { b.write (emits (b.pins switches irq others) b.machine) with
      machine := advance (b.pins switches irq others) b.machine }

/-- One event with the reset released. -/
def step : Event → State → State := resetStep true

/-- The board from the release of the controller's reset on: the state before each event. -/
def released (b : State) (ev : ℕ → Event) : ℕ → State :=
  run step { b with controller := b.controller.asyncReset } ev

/-- The event is a transfer of the processor. -/
def Transfers : Event → State → Prop
  | .audioClock _, _ => False
  | .instruction switches irq others, b => emits (b.pins switches irq others) b.machine ≠ none

/-- The event is one of the audio path. -/
def Visible (e : Event) (b : State) : Prop := e.isAudioClock = true ∨ Transfers e b

/-- The event at a time is one of the audio path. -/
def VisibleAt (b : State) (ev : ℕ → Event) : ℕ → Prop :=
  visibleAt step Visible { b with controller := b.controller.asyncReset } ev

/-- The events of the audio path in an interleaving. -/
noncomputable def accesses (b : State) (ev : ℕ → Event) : ℕ → AudioPath.Event :=
  seenAt step Visible (fun e _ ↦ e.access) { b with controller := b.controller.asyncReset } ev

open Classical in
/-- How many of them there were before time `t`. -/
noncomputable def accessCount (b : State) (ev : ℕ → Event) (t : ℕ) : ℕ :=
  Nat.count (VisibleAt b ev) t

/-- The state of the audio path with the program in the place of the processor. -/
def State.audioPath (main : Main) (b : State) : AudioPath.State :=
  ⟨b.controller, main, b.outLeft, b.outRight⟩

section Step

variable {main : Main} {b : State} (switches : Switches) (irq : Bool)
  (others : Slave → BitVec 2 → Word)

theorem audioPath_audioClock (main : Main) (b : State) (adcData : Bool) :
    AudioPath.step (.audioClock adcData) (b.audioPath main) =
      (step (.audioClock adcData) b).audioPath main := rfl

/-- The word that an output PIO keeps is the one that the program writes. -/
theorem dataOut_res (res : Int32) (word : BitVec 16) : dataOut res.toBitVec 0 word = iowr res := by
  rw [Equaliser.iowr_eq]
  exact (BitVec.signExtend_eq_setWidth_of_le res.toBitVec (by decide)).symm

/-- The transfer of an access writes the output PIO that the program writes. -/
theorem write_mainTransfer (main : Main) (b : State) :
    (b.audioPath main).write main.write = (b.write (some (mainTransfer main))).audioPath main := by
  obtain ⟨access, currentReady, lastReady, bassPrev, audioIn, bStage, tStage, res⟩ := main
  cases access with
  | outLeft =>
    exact congrArg (AudioPath.State.mk _ _ · _) (dataOut_res res b.outLeft).symm
  | outRight =>
    exact congrArg (AudioPath.State.mk _ _ _ ·) (dataOut_res res b.outRight).symm
  | _ => rfl

/-- An instruction without a transfer is no access. -/
theorem audioPath_silent (hquiet : emits (b.pins switches irq others) b.machine = none) :
    (step (.instruction switches irq others) b).audioPath main = b.audioPath main := by
  rw [step, resetStep, hquiet]
  rfl

/-- A transfer is the access of the program. -/
theorem audioPath_due
    (htransfer : emits (b.pins switches irq others) b.machine = some (mainTransfer main)) :
    AudioPath.step (.access switches) (b.audioPath main) =
      (step (.instruction switches irq others) b).audioPath
        (main.step (b.pins switches irq others).ports) := by
  have hwrite : (b.audioPath main).write (b.audioPath main).main.write = _ :=
    write_mainTransfer main b
  rw [step, resetStep, htransfer, AudioPath.step, AudioPath.selectStep]
  rw [hwrite]
  rfl

end Step

/-- The processor is on its way to the next access of the program, and the rest of the board is as
in the audio path. -/
def Follows (b : State) (s : AudioPath.State) : Prop :=
  ∃ main d, s = b.audioPath main ∧ Tracks main d b.machine

/-- What is not an event of the audio path leaves it. -/
theorem Follows.silent {e : Event} {b : State} {s : AudioPath.State} (h : Follows b s)
    (hquiet : ¬ Visible e b) : Follows (step e b) s := by
  obtain ⟨main, d, rfl, htracks⟩ := h
  cases e with
  | audioClock adcData => exact absurd (.inl rfl) hquiet
  | instruction switches irq others =>
    have hnone : emits (b.pins switches irq others) b.machine = none := by
      by_contra htransfer
      exact hquiet (.inr htransfer)
    cases d with
    | zero =>
      rw [(htracks.due _).1] at hnone
      exact absurd hnone (Option.some_ne_none _)
    | succ d =>
      exact ⟨main, d, (audioPath_silent switches irq others hnone).symm, (htracks.silent _).2⟩

/-- An event of the audio path is one step of it. -/
theorem Follows.visible {e : Event} {b : State} {s : AudioPath.State} (h : Follows b s)
    (hvisible : Visible e b) : Follows (step e b) (AudioPath.step e.access s) := by
  obtain ⟨main, d, rfl, htracks⟩ := h
  cases e with
  | audioClock adcData => exact ⟨main, d, audioPath_audioClock main b adcData, htracks⟩
  | instruction switches irq others =>
    rcases hvisible with haudio | htransfer
    · exact Bool.noConfusion haudio
    · cases d with
      | succ d => exact absurd (htracks.silent _).1 htransfer
      | zero =>
        obtain ⟨hemits, hnext⟩ := htracks.due (b.pins switches irq others)
        exact ⟨_, _, audioPath_due switches irq others hemits, hnext⟩

section Run

variable {b : State} {main : Main} {d : ℕ} (h : Tracks main d b.machine) (ev : ℕ → Event)

include h

/-- Whatever the interleaving, the board is where the audio path is after those of its events that
are edges of the audio clock or transfers. -/
theorem follows_released (t : ℕ) : Follows (released b ev t)
    (AudioPath.released (b.audioPath main) (accesses b ev) (accessCount b ev t)) := by
  have hstart : Follows { b with controller := b.controller.asyncReset }
      { b.audioPath main with controller := b.controller.asyncReset } := ⟨main, d, rfl, h⟩
  exact Stuttering.follows_run (fun _ _ _ hb hquiet ↦ hb.silent hquiet)
    (fun _ _ _ hb hvisible ↦ hb.visible hvisible) hstart ev t

end Run

/-! ### The events of the audio path -/

theorem Event.isAudioClock_access (e : Event) : e.access.isAudioClock = e.isAudioClock := by
  cases e <;> rfl

section Accesses

variable (b : State) (ev : ℕ → Event) {t : ℕ}

theorem accessCount_visible (ht : VisibleAt b ev t) :
    accessCount b ev (t + 1) = accessCount b ev t + 1 ∧
      accesses b ev (accessCount b ev t) = (ev t).access := by
  refine ⟨?_, Stuttering.seenAt_count ht⟩
  rw [accessCount, Nat.count_succ, if_pos ht, accessCount]

theorem accessCount_silent (ht : ¬ VisibleAt b ev t) :
    accessCount b ev (t + 1) = accessCount b ev t := by
  rw [accessCount, Nat.count_succ, if_neg ht, Nat.add_zero, accessCount]

/-- No edge of the audio clock is lost. -/
theorem edges_accesses (t : ℕ) :
    edges (accesses b ev) (accessCount b ev t) = edges ev t := by
  induction t with
  | zero => rw [accessCount, Nat.count_zero, edges_zero, edges_zero]
  | succ t ih =>
    by_cases ht : VisibleAt b ev t
    · obtain ⟨hcount, haccess⟩ := accessCount_visible b ev ht
      have hkind := congrArg AudioPath.Event.isAudioClock haccess
      rw [Event.isAudioClock_access] at hkind
      rw [hcount]
      cases hclock : (ev t).isAudioClock with
      | true =>
        rw [edges_succ_audioClock _ (hkind.trans hclock), ih, edges_succ_audioClock ev hclock]
      | false =>
        rw [edges_succ_rest _ (hkind.trans hclock), ih, edges_succ_rest ev hclock]
    · have hclock : (ev t).isAudioClock = false :=
        Bool.eq_false_of_not_eq_true fun hclock ↦ ht (.inl hclock)
      rw [accessCount_silent b ev ht, ih, edges_succ_rest ev hclock]

end Accesses

/-- The board refines the audio path in every interleaving, from any state in which the processor is
on its way to an access of the program: it does not get stuck, its transfers are the accesses of the
program, and the controller and the output PIOs are at each time where the audio path has them after
the same edges of the audio clock and the same accesses. -/
theorem board_refines {b : State} {main : Main} {d : ℕ} (h : Tracks main d b.machine)
    (ev : ℕ → Event) (t : ℕ) :
    ∃ main', AudioPath.released (b.audioPath main) (accesses b ev) (accessCount b ev t) =
        (released b ev t).audioPath main' ∧
      edges (accesses b ev) (accessCount b ev t) = edges ev t ∧
      (released b ev t).machine ≠ none ∧
      ∀ switches irq others, ev t = .instruction switches irq others →
        emits ((released b ev t).pins switches irq others) (released b ev t).machine = none ∧
            accessCount b ev (t + 1) = accessCount b ev t ∨
          emits ((released b ev t).pins switches irq others) (released b ev t).machine =
              some (mainTransfer main') ∧
            accesses b ev (accessCount b ev t) = .access switches ∧
            accessCount b ev (t + 1) = accessCount b ev t + 1 := by
  obtain ⟨main', d', hstate, htracks⟩ := follows_released h ev t
  refine ⟨main', hstate, edges_accesses b ev t, htracks.ne_none, fun switches irq others hev ↦ ?_⟩
  have hvisible : VisibleAt b ev t ↔
      emits ((released b ev t).pins switches irq others) (released b ev t).machine ≠ none := by
    change Visible (ev t) (released b ev t) ↔ _
    rw [hev]
    exact or_iff_right Bool.false_ne_true
  cases d' with
  | zero =>
    have hemits := (htracks.due ((released b ev t).pins switches irq others)).1
    obtain ⟨hcount, haccess⟩ := accessCount_visible b ev
      (hvisible.mpr (by rw [hemits]; exact Option.some_ne_none _))
    exact .inr ⟨hemits, by rw [haccess, hev]; rfl, hcount⟩
  | succ d' =>
    have hquiet := (htracks.silent ((released b ev t).pins switches irq others)).1
    exact .inl ⟨hquiet, accessCount_silent b ev fun ht ↦ hvisible.mp ht hquiet⟩

/-- A board whose processor has just been reset, with a word in the bridge register. -/
def resetBoard : State where
  controller := ⟨false, 0, false, false, 0, 15, 15, 0, 0, 0, 0, 0x1234, 0, false, 0⟩
  machine := some ⟨.reset Nios.cleared, Nios.imageSram⟩
  outLeft := 0
  outRight := 0

/-- The edges of the audio clock and the instructions alternate. -/
def alternating (switches : Switches) (t : ℕ) : Event :=
  if t % 2 = 0 then .audioClock false else .instruction switches true fun _ _ ↦ 0xffffffff

/-- At its instruction number 500 the board is where the audio path is after 501 edges of the audio
clock, and the instruction is an access of the program or silent. -/
theorem board_refines_reset : ∃ main',
    AudioPath.released (resetBoard.audioPath .start) (accesses resetBoard (alternating ⟨2, 1⟩))
          (accessCount resetBoard (alternating ⟨2, 1⟩) 1001) =
        (released resetBoard (alternating ⟨2, 1⟩) 1001).audioPath main' ∧
      edges (accesses resetBoard (alternating ⟨2, 1⟩))
          (accessCount resetBoard (alternating ⟨2, 1⟩) 1001) = 501 ∧
      (released resetBoard (alternating ⟨2, 1⟩) 1001).machine ≠ none ∧
      let pins := (released resetBoard (alternating ⟨2, 1⟩) 1001).pins ⟨2, 1⟩ true
        fun _ _ ↦ 0xffffffff
      emits pins (released resetBoard (alternating ⟨2, 1⟩) 1001).machine = none ∨
        emits pins (released resetBoard (alternating ⟨2, 1⟩) 1001).machine =
          some (mainTransfer main') := by
  obtain ⟨main', hstate, hedges, hmachine, htransfer⟩ := board_refines (b := resetBoard)
    (Nios.tracks_reset Nios.loaded_imageSram Nios.cleared) (alternating ⟨2, 1⟩) 1001
  have hcount : edges (alternating ⟨2, 1⟩) 1001 = 501 := by decide +kernel
  exact ⟨main', hstate, hedges.trans hcount, hmachine,
    (htransfer _ _ _ rfl).imp And.left And.left⟩

end AudioProcessor.Board
