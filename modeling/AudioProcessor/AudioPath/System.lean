import AudioProcessor.AdcDac.Capture
import AudioProcessor.Equaliser.Main
import AudioProcessor.Library.Ticks

/-!
# The audio path

The ADC/DAC controller and the program on the NIOS, connected by PIOs: the input PIOs show the ready
flag and the left bridge register of the controller and the stage switches, and the two output PIOs
hold the last word written to them and feed the controller, which runs with `dataSelect` low unless
it is said otherwise (`selectStep`).

The two machines have clocks of their own. An interleaving is a stream of events, each an edge of
the audio clock or one PIO access of the program, so that nothing is said about how many accesses
there are between two edges. Whatever the interleaving, the controller is at each time as after so
many edges of a run of its own (`controller_released`). How the edges of the audio clock are counted
does not depend on what the other events are (`AudioClocked`).
-/

set_option autoImplicit false
set_option relaxedAutoImplicit false

namespace AudioProcessor.AudioPath

open Clocked (Endless exists_tick tickTime tickTime_ticks ticks ticks_mono ticks_succ_active
  ticks_succ_rest ticks_zero)
open Equaliser (Main Ports Output)

/-- Events some of which are edges of the audio clock, with the bit on the ADC line at an edge. -/
class AudioClocked (ε : Type) where
  isAudioClock : ε → Bool
  adcData : ε → Bool

section Edges

variable {ε : Type} [AudioClocked ε] (ev : ℕ → ε)

/-- How many edges of the audio clock there were before time `t`. -/
def edges (t : ℕ) : ℕ := ticks (AudioClocked.isAudioClock · = true) ev t

/-- The time of edge `k` of the audio clock. -/
noncomputable def edgeTime (k : ℕ) : ℕ := tickTime (AudioClocked.isAudioClock · = true) ev k

/-- The audio clock does not stop. -/
def Unbounded : Prop := ∀ k, ∃ t, k ≤ edges ev t

/-- The bits on the ADC line, edge by edge. -/
noncomputable def adcBits (k : ℕ) : Bool := AudioClocked.adcData (ev (edgeTime ev k))

theorem edges_zero : edges ev 0 = 0 := ticks_zero _ _

theorem edges_succ_audioClock {t : ℕ} (ht : AudioClocked.isAudioClock (ev t) = true) :
    edges ev (t + 1) = edges ev t + 1 := ticks_succ_active ht

theorem edges_succ_rest {t : ℕ} (ht : AudioClocked.isAudioClock (ev t) = false) :
    edges ev (t + 1) = edges ev t := ticks_succ_rest (ne_true_of_eq_false ht)

theorem edges_mono : Monotone (edges ev) := ticks_mono _ _

theorem edgeTime_edges {t : ℕ} (ht : AudioClocked.isAudioClock (ev t) = true) :
    edgeTime ev (edges ev t) = t := tickTime_ticks ht

/-- Each edge that has passed has its time. -/
theorem exists_edge {k t : ℕ} (hk : k < edges ev t) :
    ∃ u < t, AudioClocked.isAudioClock (ev u) = true ∧ edges ev u = k := exists_tick hk

variable {ev}

theorem isAudioClock_edgeTime (hclock : Unbounded ev) (k : ℕ) :
    AudioClocked.isAudioClock (ev (edgeTime ev k)) = true := Endless.active_tickTime hclock k

theorem edges_edgeTime (hclock : Unbounded ev) (k : ℕ) : edges ev (edgeTime ev k) = k :=
  Endless.ticks_tickTime hclock k

end Edges

/-- The positions of the two stage switches. -/
structure Switches where
  bass : BitVec 2
  treble : BitVec 2

/-- What happens next: an edge of the audio clock with the bit on the ADC line, or the next access of
the program, with the switches as they stand. -/
inductive Event
  | audioClock (adcData : Bool)
  | access (switches : Switches)

/-- The event is an edge of the audio clock. -/
def Event.isAudioClock : Event → Bool
  | .audioClock _ => true
  | .access _ => false

/-- The bit on the ADC line at an edge. -/
def Event.adcData : Event → Bool
  | .audioClock adcData => adcData
  | .access _ => false

instance : AudioClocked Event := ⟨Event.isAudioClock, Event.adcData⟩

/-- The registers of the controller, the program, and the words in the output PIOs. -/
structure State where
  controller : AdcDac.State
  main : Main
  outLeft : BitVec 16
  outRight : BitVec 16
deriving DecidableEq

/-- What the input PIOs show. -/
def State.ports (switches : Switches) (s : State) : Ports where
  dataReady := BitVec.ofBool s.controller.dataReadyFlag
  inLeft := s.controller.audioToNiosLeft
  bassStageSwitch := switches.bass
  trebleStageSwitch := switches.treble

/-- An output PIO takes the word that is written to it. -/
def State.write (s : State) : Option (Output × BitVec 16) → State
  | some (.outLeft, word) => { s with outLeft := word }
  | some (.outRight, word) => { s with outRight := word }
  | none => s

/-- One event, with `dataSelect` in a given position. -/
def selectStep (dataSelect : Bool) (e : Event) (s : State) : State :=
  match e with
  | .audioClock adcData =>
    { s with
      controller := AdcDac.step true ⟨dataSelect, adcData, s.outLeft, s.outRight⟩ s.controller }
  | .access switches => { s.write s.main.write with main := s.main.step (s.ports switches) }

/-- One event, with `dataSelect` low. -/
def step : Event → State → State := selectStep false

/-- The system from the release of the controller's reset on: the state before each event. -/
def released (s : State) (ev : ℕ → Event) : ℕ → State :=
  Clocked.run step { s with controller := s.controller.asyncReset } ev

/-- What an observer of the audio pins sees: the controller just before each edge. -/
noncomputable def view (s : State) (ev : ℕ → Event) (k : ℕ) : AdcDac.State :=
  (released s ev (edgeTime ev k)).controller

/-- What the controller reads at its edges. -/
noncomputable def controllerInputs (s : State) (ev : ℕ → Event) : ℕ → AdcDac.Inputs :=
  AdcDac.niosInput (adcBits ev) (fun k ↦ (released s ev (edgeTime ev k)).outLeft)
    fun k ↦ (released s ev (edgeTime ev k)).outRight

/-! ### The controller -/

section Controller

variable (s : State) (ev : ℕ → Event)

theorem released_succ (t : ℕ) : released s ev (t + 1) = step (ev t) (released s ev t) := rfl

/-- The controller moves at the edges of the audio clock. -/
theorem selectStep_controller (dataSelect : Bool) (e : Event) :
    (selectStep dataSelect e s).controller =
      if e.isAudioClock then
        AdcDac.step true ⟨dataSelect, e.adcData, s.outLeft, s.outRight⟩ s.controller
      else s.controller := by
  cases e with
  | audioClock adcData => rfl
  | access switches =>
    rw [selectStep]
    cases s.main.write with
    | none => rfl
    | some write => obtain ⟨output, word⟩ := write; cases output <;> rfl

/-- An access leaves the registers of the controller. -/
theorem step_access_controller (switches : Switches) :
    (step (.access switches) s).controller = s.controller :=
  selectStep_controller s false (.access switches)

/-- Seen at its own edges the controller runs on its own. -/
theorem controller_released (t : ℕ) : (released s ev t).controller =
    AdcDac.released s.controller (controllerInputs s ev) (edges ev t) := by
  refine Clocked.component_run State.controller (AdcDac.step true)
    (fun t ↦ ⟨false, (ev t).adcData, (released s ev t).outLeft, (released s ev t).outRight⟩)
    (fun t ↦ (ev t).isAudioClock = true) (fun t ht ↦ ?_) (fun t ht ↦ ?_) t
  · exact (selectStep_controller _ _ _).trans (if_pos ht)
  · exact (selectStep_controller _ _ _).trans (if_neg ht)

/-- The view of the pins is that of the controller running on its own. -/
theorem view_eq (hclock : Unbounded ev) :
    view s ev = AdcDac.released s.controller (controllerInputs s ev) := by
  funext k
  rw [view, controller_released, edges_edgeTime hclock]

end Controller

end AudioProcessor.AudioPath
