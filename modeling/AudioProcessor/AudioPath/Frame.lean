import AudioProcessor.AudioPath.System

/-!
# The program in one frame

In a frame the program waits for the ready flag, works on the frame with one access after the other,
and is finished when both output PIOs hold the word of the frame. `Waiting`, `Working` and
`Finished` say what is in its variables and in the output PIOs in each of the three, and the lemmas
below what one access makes of them. An edge of the audio clock changes none of this.
-/

set_option autoImplicit false
set_option relaxedAutoImplicit false

namespace AudioProcessor.AudioPath

open Equaliser (Main Frame iowr)

/-- The next access is a poll, and the last one saw the flag low. -/
structure Waiting (acc : Int32) (m : Main) : Prop where
  access : m.access = .dataReady
  lastReady : m.lastReady = 0
  bassPrev : m.bassPrev = acc

/-- What the program has read and computed of a frame before its next access. -/
def Progress (f : Frame) (acc : Int32) (s : State) : Prop :=
  match s.main.access with
  | .dataReady => False
  | .inLeft => s.main.bassPrev = acc
  | .bassStageSwitch => s.main.bassPrev = acc ∧ s.main.audioIn = (f.ports 1).sample
  | .trebleStageSwitch => s.main.bassPrev = acc ∧ s.main.audioIn = (f.ports 1).sample ∧
      s.main.bStage = Equaliser.stage f.bassStageSwitch
  | .outLeft => s.main.bassPrev = (f.body acc).bassPrev ∧
      s.main.audioIn = (f.ports 1).sample ∧ s.main.res = (f.body acc).limited
  | .outRight => s.main.bassPrev = (f.body acc).bassPrev ∧
      s.main.audioIn = (f.ports 1).sample ∧ s.main.res = (f.body acc).limited ∧
      s.outLeft = iowr (f.body acc).limited

/-- The program has seen the flag rise and works on the frame. -/
structure Working (f : Frame) (acc : Int32) (s : State) : Prop where
  currentReady : s.main.currentReady = 1
  progress : Progress f acc s

/-- The next access is a poll, and the word of the frame is in both output PIOs. -/
structure Finished (f : Frame) (acc : Int32) (s : State) : Prop where
  access : s.main.access = .dataReady
  bassPrev : s.main.bassPrev = (f.body acc).bassPrev
  audioIn : s.main.audioIn = (f.ports 1).sample
  outLeft : s.outLeft = iowr (f.body acc).limited
  outRight : s.outRight = iowr (f.body acc).limited

theorem Working.access_ne {f : Frame} {acc : Int32} {s : State} (h : Working f acc s) :
    s.main.access ≠ .dataReady := by
  intro haccess
  have hprogress := h.progress
  rw [Progress, haccess] at hprogress
  exact hprogress

/-! ### One edge of the audio clock -/

theorem Working.audioClock {f : Frame} {acc : Int32} {s : State} (h : Working f acc s)
    (adcData : Bool) : Working f acc (step (.audioClock adcData) s) :=
  ⟨h.currentReady, h.progress⟩

theorem Finished.audioClock {f : Frame} {acc : Int32} {s : State} (h : Finished f acc s)
    (adcData : Bool) : Finished f acc (step (.audioClock adcData) s) :=
  ⟨h.access, h.bassPrev, h.audioIn, h.outLeft, h.outRight⟩

/-! ### One access -/

section Access

variable {f : Frame} {acc : Int32} {s : State} (switches : Switches)

/-- The ready port as the program reads it. -/
theorem ready_ports : (s.ports switches).ready = if s.controller.dataReadyFlag then 1 else 0 := by
  rw [State.ports, Equaliser.Ports.ready]
  cases s.controller.dataReadyFlag <;> rfl

/-- A poll sees a rise where the flag is high and was low. -/
theorem triggers_of_poll (hpoll : s.main.access = .dataReady) :
    s.main.triggers (s.ports switches) =
      (s.controller.dataReadyFlag && s.main.lastReady == 0) := by
  rw [Main.triggers, hpoll, ready_ports]
  cases s.controller.dataReadyFlag <;> rfl

theorem step_access_of_poll (hpoll : s.main.access = .dataReady) :
    step (.access switches) s = { s with main := s.main.step (s.ports switches) } := by
  rw [step, selectStep, Main.write, hpoll]
  rfl

/-- A poll with the flag high starts the work of a waiting program. -/
theorem Waiting.access_high (h : Waiting acc s.main) (hflag : s.controller.dataReadyFlag = true) :
    s.main.triggers (s.ports switches) = true ∧ Working f acc (step (.access switches) s) := by
  have htriggers : s.main.triggers (s.ports switches) = true := by
    rw [triggers_of_poll switches h.access, hflag, h.lastReady]
    rfl
  rw [step_access_of_poll switches h.access, Main.step_of_triggers htriggers, ready_ports, hflag]
  exact ⟨htriggers, rfl, h.bassPrev⟩

/-- A poll with the flag low keeps a waiting program waiting. -/
theorem Waiting.access_low (h : Waiting acc s.main) (hflag : s.controller.dataReadyFlag = false) :
    Waiting acc (step (.access switches) s).main := by
  have htriggers : s.main.triggers (s.ports switches) = false := by
    rw [triggers_of_poll switches h.access, hflag, Bool.false_and]
  rw [step_access_of_poll switches h.access, Main.step_of_poll h.access htriggers, ready_ports,
    hflag]
  exact ⟨h.access, rfl, h.bassPrev⟩

/-- An access of a working program goes on with the frame, or ends it. -/
theorem Working.access (h : Working f acc s) (hleft : s.controller.audioToNiosLeft = f.inLeft)
    (hbass : switches.bass = f.bassStageSwitch) (htreble : switches.treble = f.trebleStageSwitch) :
    Working f acc (step (.access switches) s) ∨
      Finished f acc (step (.access switches) s) ∧
        (step (.access switches) s).main.lastReady = 1 := by
  obtain ⟨hready, hprogress⟩ := h
  obtain ⟨controller, ⟨access, currentReady, lastReady, bassPrev, audioIn, bStage, tStage, res⟩,
    outLeft, outRight⟩ := s
  obtain ⟨bass, treble⟩ := switches
  subst hbass htreble
  have hsample : ((State.mk controller
      ⟨access, currentReady, lastReady, bassPrev, audioIn, bStage, tStage, res⟩ outLeft
      outRight).ports ⟨f.bassStageSwitch, f.trebleStageSwitch⟩).sample = (f.ports 1).sample := by
    rw [Equaliser.Ports.sample, State.ports, hleft]
    rfl
  cases access with
  | dataReady => exact absurd hprogress id
  | inLeft => exact .inl ⟨hready, hprogress, hsample⟩
  | bassStageSwitch => exact .inl ⟨hready, hprogress.1, hprogress.2, rfl⟩
  | trebleStageSwitch =>
    obtain ⟨rfl, rfl, rfl⟩ := hprogress
    exact .inl ⟨hready, rfl, rfl, rfl⟩
  | outLeft =>
    obtain ⟨hacc, haudio, rfl⟩ := hprogress
    exact .inl ⟨hready, hacc, haudio, rfl, rfl⟩
  | outRight =>
    obtain ⟨hacc, haudio, rfl, hout⟩ := hprogress
    exact .inr ⟨⟨rfl, hacc, haudio, hout, rfl⟩, hready⟩

/-- A poll of a finished program that does not see a rise. -/
theorem Finished.access_poll (h : Finished f acc s)
    (hlow : s.main.lastReady = 1 ∨ s.controller.dataReadyFlag = false) :
    s.main.triggers (s.ports switches) = false ∧ Finished f acc (step (.access switches) s) ∧
      (step (.access switches) s).main.lastReady =
        if s.controller.dataReadyFlag then 1 else 0 := by
  have htriggers : s.main.triggers (s.ports switches) = false := by
    rw [triggers_of_poll switches h.access]
    rcases hlow with hlast | hflag
    · rw [hlast]
      exact Bool.and_false _
    · rw [hflag, Bool.false_and]
  rw [step_access_of_poll switches h.access, Main.step_of_poll h.access htriggers, ready_ports]
  exact ⟨htriggers, ⟨h.access, h.bassPrev, h.audioIn, h.outLeft, h.outRight⟩, rfl⟩

end Access

end AudioProcessor.AudioPath
