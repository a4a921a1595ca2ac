import AudioProcessor.AdcDac.Frame
import AudioProcessor.Library.Ranges

/-!
# The declared ranges of the counters

Five signals of `adc_dac_controller.vhd` are integers with a declared range. In the synthesised
circuit of `State` such a signal is a register that wraps; in a simulation a signal that would take
a value out of its range ends the run. `Signals` are the signals as they are declared and
`simulation` is the run of the same processes with every value checked.

As far as the simulation goes it shows the circuit (`simulation_circuit`), but it never gets
through a slot: `leftOutCounter` is decremented at each of the sixteen falling edges of the left
slot and starts from 15, so the last of them would make it -1 (`simulation_error`). The power-up
value of the same signal is the least one of its range, and there the first falling edge does it.

A signal takes the last value assigned to it in a process. The `LRCounter + 1` which the last edge
of a frame overrides with 0 is not checked; no simulation comes that far (`simulation_leftSlot`).
-/

set_option autoImplicit false
set_option relaxedAutoImplicit false

namespace AudioProcessor.AdcDac

open Ranges

/-- The signals with a declared range. -/
inductive Counter
  | bitClockCounter
  | lrCounter
  | leftOutCounter
  | rightOutCounter
  | waveCounter
deriving DecidableEq

/-- A computation that ends when a counter would leave its range. -/
abbrev Simulated (α : Type) : Type := Except (RangeError Counter) α

/-- The signals of the controller as they are declared. -/
structure Signals where
  internalBitClock : Bool
  bitClockCounter : Subrange 0 255
  internalLRSelect : Bool
  dataCount : Bool
  lrCounter : Subrange 0 31
  leftOutCounter : Subrange 0 15
  rightOutCounter : Subrange 0 15
  adcDataLeftChannelRegister : BitVec 16
  adcDataRightChannelRegister : BitVec 16
  dacDataLeftChannelRegister : BitVec 16
  dacDataRightChannelRegister : BitVec 16
  audioToNiosLeft : BitVec 16
  audioToNiosRight : BitVec 16
  dacData : Bool
  waveCounter : Subrange 0 47

/-- The signals at power-up: those with an initial value have it, an integer signal without one has
the least value of its range, and the words have none. -/
def Signals.powerUp (s : Signals) : Signals :=
  { s with
    internalBitClock := false
    bitClockCounter := ⟨0, by decide⟩
    internalLRSelect := false
    dataCount := false
    lrCounter := ⟨0, by decide⟩
    leftOutCounter := ⟨0, by decide⟩
    rightOutCounter := ⟨0, by decide⟩
    waveCounter := ⟨0, by decide⟩ }

/-- The reset branches of the processes. -/
def Signals.asyncReset (s : Signals) : Signals :=
  { s with
    internalBitClock := false
    bitClockCounter := ⟨0, by decide⟩
    internalLRSelect := false
    dataCount := false
    lrCounter := ⟨0, by decide⟩
    leftOutCounter := ⟨15, by decide⟩
    rightOutCounter := ⟨15, by decide⟩
    adcDataLeftChannelRegister := 0
    adcDataRightChannelRegister := 0
    dacDataLeftChannelRegister := 0
    dacDataRightChannelRegister := 0
    dacData := false
    waveCounter := ⟨0, by decide⟩ }

/-- The bit clock process: the new `internalBitClock` and `bitClockCounter`. -/
def Signals.bitClock (s : Signals) : Simulated (Bool × Subrange 0 255) :=
  if s.bitClockCounter.1 < 5 then do
    let count ← assign .bitClockCounter (s.bitClockCounter.1 + 1)
    return (false, count)
  else if s.bitClockCounter.1 < 11 then do
    let count ← assign .bitClockCounter (s.bitClockCounter.1 + 1)
    return (true, count)
  else do
    let count ← assign .bitClockCounter 0
    return (false, count)

/-- The bit of a channel register at an index, which is within the register whatever its value. -/
def bitAt (word : BitVec 16) (index : Subrange 0 15) : Bool :=
  word.getLsb ⟨index.1.toNat, by have := index.2.2; omega⟩

/-- The DAC output process at a falling edge of the bit clock. -/
def Signals.dacOutput (i : Inputs) (s : Signals) : Bool :=
  if s.internalLRSelect then
    if i.dataSelect then bitAt s.adcDataLeftChannelRegister s.leftOutCounter
    else bitAt s.dacDataLeftChannelRegister s.leftOutCounter
  else
    if i.dataSelect then bitAt s.adcDataLeftChannelRegister s.rightOutCounter
    else bitAt s.dacDataRightChannelRegister s.rightOutCounter

/-- The slot process at a falling edge of the bit clock. -/
def Signals.lrSelect (i : Inputs) (s : Signals) : Simulated Signals :=
  if s.lrCounter.1 < 16 then do
    let lrCounter ← assign .lrCounter (s.lrCounter.1 + 1)
    let leftOutCounter ← assign .leftOutCounter (s.leftOutCounter.1 - 1)
    let rightOutCounter ← assign .rightOutCounter 15
    return { s with
      internalLRSelect := true
      lrCounter := lrCounter
      leftOutCounter := leftOutCounter
      rightOutCounter := rightOutCounter
      dataCount := false }
  else if s.lrCounter.1 = 31 then do
    let lrCounter ← assign .lrCounter 0
    let leftOutCounter ← assign .leftOutCounter 15
    let rightOutCounter ← assign .rightOutCounter (s.rightOutCounter.1 - 1)
    return { s with
      internalLRSelect := false
      lrCounter := lrCounter
      dataCount := true
      leftOutCounter := leftOutCounter
      rightOutCounter := rightOutCounter
      audioToNiosLeft := s.adcDataLeftChannelRegister
      audioToNiosRight := s.adcDataRightChannelRegister
      dacDataLeftChannelRegister := i.audioFromNiosLeft
      dacDataRightChannelRegister := i.audioFromNiosRight }
  else do
    let lrCounter ← assign .lrCounter (s.lrCounter.1 + 1)
    let leftOutCounter ← assign .leftOutCounter 15
    let rightOutCounter ← assign .rightOutCounter (s.rightOutCounter.1 - 1)
    return { s with
      internalLRSelect := false
      lrCounter := lrCounter
      dataCount := false
      leftOutCounter := leftOutCounter
      rightOutCounter := rightOutCounter }

/-- The address generator, clocked by the rise of `dataCount`. -/
def Signals.nextWaveCounter (before after : Bool) (waveCounter : Subrange 0 47) :
    Simulated (Subrange 0 47) :=
  if !before && after then
    if waveCounter.1 ≥ 47 then assign .waveCounter 0
    else assign .waveCounter (waveCounter.1 + 1)
  else return waveCounter

/-- All processes clocked by the falling edge of the bit clock, and `waveCounter` after them. -/
def Signals.fallingEdge (i : Inputs) (s : Signals) : Simulated Signals := do
  let s' ← s.lrSelect i
  let waveCounter ← nextWaveCounter s.dataCount s'.dataCount s.waveCounter
  return { s' with
    dacData := s.dacOutput i
    waveCounter := waveCounter }

/-- The process that samples the ADC bit at the rising edge of the bit clock. -/
def Signals.risingEdge (i : Inputs) (s : Signals) : Signals :=
  if s.internalLRSelect then
    { s with adcDataLeftChannelRegister := Serial.shiftIn s.adcDataLeftChannelRegister i.adcData }
  else
    { s with adcDataRightChannelRegister := Serial.shiftIn s.adcDataRightChannelRegister i.adcData }

/-- One rising edge of the audio clock with the reset released. -/
def Signals.audioClockEdge (i : Inputs) (s : Signals) : Simulated Signals := do
  let clock ← s.bitClock
  let s' : Signals := { s with internalBitClock := clock.1, bitClockCounter := clock.2 }
  if s.internalBitClock && !clock.1 then s'.fallingEdge i
  else if !s.internalBitClock && clock.1 then return s'.risingEdge i
  else return s'

/-- What happens next in a simulation: the reset is low, at an edge of the audio clock or between
two of them, or the audio clock rises with the reset released. -/
def Signals.step (reset : Bool) (i : Inputs) (s : Signals) : Simulated Signals :=
  if reset then s.audioClockEdge i else return s.asyncReset

/-- A simulation from power-up, under any levels of the reset. -/
def simulation (s : Signals) (input : ℕ → Bool × Inputs) : ℕ → Simulated Signals :=
  checkedRun (fun e ↦ Signals.step e.1 e.2) s.powerUp input

/-! ### The circuit -/

/-- The registers of the circuit that hold the same values. -/
def Signals.circuit (s : Signals) : State where
  internalBitClock := s.internalBitClock
  bitClockCounter := s.bitClockCounter.1.toNat
  internalLRSelect := s.internalLRSelect
  dataCount := s.dataCount
  lrCounter := s.lrCounter.1.toNat
  leftOutCounter := BitVec.ofInt 4 s.leftOutCounter.1
  rightOutCounter := BitVec.ofInt 4 s.rightOutCounter.1
  adcDataLeftChannelRegister := s.adcDataLeftChannelRegister
  adcDataRightChannelRegister := s.adcDataRightChannelRegister
  dacDataLeftChannelRegister := s.dacDataLeftChannelRegister
  dacDataRightChannelRegister := s.dacDataRightChannelRegister
  audioToNiosLeft := s.audioToNiosLeft
  audioToNiosRight := s.audioToNiosRight
  dacData := s.dacData
  waveCounter := s.waveCounter.1.toNat

section Circuit

variable {i : Inputs} {s s' : Signals}

theorem ofInt_sub_one (value : ℤ) : BitVec.ofInt 4 (value - 1) = BitVec.ofInt 4 value - 1 := by
  rw [Int.sub_eq_add_neg, BitVec.ofInt_add, BitVec.sub_eq_add_neg]
  rfl

/-- The index of the circuit is within the register too. -/
theorem bitAt_eq (word : BitVec 16) (index : Subrange 0 15) :
    bitAt word index = word.getLsbD (BitVec.ofInt 4 index.1).toNat := by
  obtain ⟨value, hlow, hhigh⟩ := index
  have hsame : (BitVec.ofInt 4 value).toNat = value.toNat := by
    rw [BitVec.toNat_ofInt, Int.emod_eq_of_lt hlow (by omega)]
  rw [hsame]
  rfl

theorem Signals.coe_bitClockCounter (s : Signals) :
    (s.circuit.bitClockCounter : ℤ) = s.bitClockCounter.1 :=
  Int.toNat_of_nonneg s.bitClockCounter.2.1

theorem Signals.coe_lrCounter (s : Signals) : (s.circuit.lrCounter : ℤ) = s.lrCounter.1 :=
  Int.toNat_of_nonneg s.lrCounter.2.1

/-- A counter that goes up by one does so in the circuit. -/
theorem toNat_of_add_one {low high : ℤ} {before after : Subrange low high} (hlow : 0 ≤ low)
    (h : after.1 = before.1 + 1) : after.1.toNat = before.1.toNat + 1 := by
  have hnonneg : 0 ≤ before.1 := hlow.trans before.2.1
  omega

theorem Signals.bitClock_circuit {new : Bool × Subrange 0 255} (h : s.bitClock = .ok new) :
    s.circuit.bitClock = (new.1, new.2.1.toNat) := by
  have hcircuit := s.coe_bitClockCounter
  rw [bitClock] at h
  split_ifs at h with hfirst hsecond
  all_goals
    obtain ⟨count, hcount, hnew⟩ := bind_eq_ok_iff.mp h
    have hvalue := coe_of_assign hcount
    cases hnew
  · rw [State.bitClock, if_pos (by omega), toNat_of_add_one le_rfl hvalue]
    rfl
  · rw [State.bitClock, if_neg (by omega), if_pos (by omega), toNat_of_add_one le_rfl hvalue]
    rfl
  · rw [State.bitClock, if_neg (by omega), if_neg (by omega), hvalue]
    rfl

theorem Signals.dacOutput_circuit (i : Inputs) (s : Signals) :
    s.circuit.dacOutput i = s.dacOutput i := by
  rw [dacOutput, bitAt_eq, bitAt_eq, bitAt_eq, bitAt_eq]
  rfl

theorem Signals.lrSelect_circuit (h : s.lrSelect i = .ok s') :
    s'.circuit = s.circuit.lrSelect i := by
  have hcircuit := s.coe_lrCounter
  rw [lrSelect] at h
  split_ifs at h with hleft hlast
  all_goals
    obtain ⟨lrCounter, hcounter, h⟩ := bind_eq_ok_iff.mp h
    obtain ⟨leftOutCounter, hleftOut, h⟩ := bind_eq_ok_iff.mp h
    obtain ⟨rightOutCounter, hrightOut, h⟩ := bind_eq_ok_iff.mp h
    have hcounter := coe_of_assign hcounter
    have hleftOut := coe_of_assign hleftOut
    have hrightOut := coe_of_assign hrightOut
    cases h
  · rw [s.circuit.lrSelect_left i (by omega)]
    simp only [circuit, toNat_of_add_one le_rfl hcounter, hleftOut, hrightOut, ofInt_sub_one]
    rfl
  · rw [s.circuit.lrSelect_last i (by omega)]
    simp only [circuit, hcounter, hleftOut, hrightOut, ofInt_sub_one]
    rfl
  · rw [s.circuit.lrSelect_right i (by omega) (by omega)]
    simp only [circuit, toNat_of_add_one le_rfl hcounter, hleftOut, hrightOut, ofInt_sub_one]
    rfl

theorem Signals.nextWaveCounter_circuit {before after : Bool} {waveCounter new : Subrange 0 47}
    (h : nextWaveCounter before after waveCounter = .ok new) :
    new.1.toNat = AdcDac.nextWaveCounter before after waveCounter.1.toNat := by
  have hlow := waveCounter.2.1
  rw [nextWaveCounter] at h
  split_ifs at h with hrises hlast
  · rw [AdcDac.nextWaveCounter, if_pos hrises, if_pos (by omega), coe_of_assign h]
    rfl
  · rw [AdcDac.nextWaveCounter, if_pos hrises, if_neg (by omega),
      toNat_of_add_one le_rfl (coe_of_assign h)]
  · cases h
    rw [AdcDac.nextWaveCounter, if_neg hrises]

theorem Signals.fallingEdge_circuit (h : s.fallingEdge i = .ok s') :
    s'.circuit = s.circuit.fallingEdge i := by
  obtain ⟨t, ht, h⟩ := bind_eq_ok_iff.mp h
  obtain ⟨waveCounter, hwave, h⟩ := bind_eq_ok_iff.mp h
  cases h
  have hwave := nextWaveCounter_circuit hwave
  rw [State.fallingEdge, ← lrSelect_circuit ht, dacOutput_circuit]
  simp only [circuit, hwave]

theorem Signals.risingEdge_circuit (i : Inputs) (s : Signals) :
    (s.risingEdge i).circuit = s.circuit.risingEdge i := by
  rw [risingEdge, State.risingEdge]
  by_cases hselect : s.internalLRSelect = true
  · rw [if_pos hselect, if_pos (show s.circuit.internalLRSelect = true from hselect)]
    rfl
  · rw [if_neg hselect, if_neg (show ¬ s.circuit.internalLRSelect = true from hselect)]
    rfl

/-- An edge that raises no error is an edge of the circuit. -/
theorem Signals.audioClockEdge_circuit (h : s.audioClockEdge i = .ok s') :
    s'.circuit = s.circuit.audioClockEdge i := by
  obtain ⟨clock, hclock, h⟩ := bind_eq_ok_iff.mp h
  dsimp only at h
  rw [State.audioClockEdge, bitClock_circuit hclock]
  split_ifs at h with hfalls hrises
  · exact (fallingEdge_circuit h).trans (if_pos hfalls).symm
  · cases h
    exact (risingEdge_circuit i _).trans ((if_neg hfalls).trans (if_pos hrises)).symm
  · cases h
    exact ((if_neg hfalls).trans (if_neg hrises)).symm

theorem Signals.step_circuit {reset : Bool} (h : Signals.step reset i s = .ok s') :
    s'.circuit = AdcDac.step reset i s.circuit := by
  cases reset with
  | true => exact audioClockEdge_circuit h
  | false =>
    cases h
    rfl

end Circuit

/-- As far as a simulation goes it shows the circuit. -/
theorem simulation_circuit {s s' : Signals} {input : ℕ → Bool × Inputs} {n : ℕ}
    (h : simulation s input n = .ok s') :
    s'.circuit = Clocked.run (fun e ↦ step e.1 e.2) s.powerUp.circuit input n :=
  checkedRun_refines (fun _ _ _ hstep ↦ Signals.step_circuit hstep) h

/-! ### The end of a simulation -/

/-- Where a run stands: the value `leftOutCounter` counts down from since the reset was last low, or
since power-up, and the edges of the audio clock since then. -/
structure Countdown where
  top : ℕ
  edges : ℕ

/-- A low reset starts it again, an edge goes on with it. -/
def Countdown.next (reset : Bool) (c : Countdown) : Countdown :=
  if reset then { c with edges := c.edges + 1 } else ⟨15, 0⟩

/-- Where a run from power-up stands after a number of events. -/
def countdown (input : ℕ → Bool × Inputs) : ℕ → Countdown :=
  Clocked.run (fun e c ↦ c.next e.1) ⟨0, 0⟩ input

/-- It is not over: fewer bit clocks have ended than `leftOutCounter` can take. -/
def Countdown.Lasts (c : Countdown) : Prop := c.edges < 12 * (c.top + 1)

/-- The signals that matter, as the countdown has them. -/
structure Countdown.Shows (c : Countdown) (s : Signals) : Prop where
  top_le : c.top ≤ 15
  bitClockCounter : s.bitClockCounter.1 = (c.edges % 12 : ℕ)
  internalBitClock : s.internalBitClock = decide (6 ≤ c.edges % 12)
  lrCounter : s.lrCounter.1 = (c.edges / 12 : ℕ)
  leftOutCounter : s.leftOutCounter.1 = c.top - (c.edges / 12 : ℕ)

section Edges

variable {i : Inputs} {s : Signals}

/-- The address generator raises no error. -/
theorem Signals.nextWaveCounter_ok (before after : Bool) (waveCounter : Subrange 0 47) :
    ∃ new, nextWaveCounter before after waveCounter = .ok new := by
  obtain ⟨hlow, -⟩ := waveCounter.2
  rw [nextWaveCounter]
  split_ifs
  · exact ⟨_, assign_of_mem _ ⟨by omega, by omega⟩⟩
  · exact ⟨_, assign_of_mem _ ⟨by omega, by omega⟩⟩
  · exact ⟨_, rfl⟩

/-- The slot process in the left slot, with an index left to go to. -/
theorem Signals.lrSelect_ok (hslot : s.lrCounter.1 < 16) (hleft : 0 < s.leftOutCounter.1) :
    ∃ t, s.lrSelect i = .ok t ∧ t.internalBitClock = s.internalBitClock ∧
      t.bitClockCounter = s.bitClockCounter ∧ t.lrCounter.1 = s.lrCounter.1 + 1 ∧
      t.leftOutCounter.1 = s.leftOutCounter.1 - 1 := by
  obtain ⟨hlow, -⟩ := s.lrCounter.2
  obtain ⟨-, hhigh⟩ := s.leftOutCounter.2
  rw [lrSelect, if_pos hslot, assign_of_mem _ ⟨by omega, by omega⟩,
    assign_of_mem _ ⟨by omega, by omega⟩, assign_of_mem _ ⟨by omega, by omega⟩]
  exact ⟨_, rfl, rfl, rfl, rfl, rfl⟩

/-- The falling edge of the bit clock then goes well. -/
theorem Signals.fallingEdge_ok (hslot : s.lrCounter.1 < 16) (hleft : 0 < s.leftOutCounter.1) :
    ∃ s', s.fallingEdge i = .ok s' ∧ s'.internalBitClock = s.internalBitClock ∧
      s'.bitClockCounter = s.bitClockCounter ∧ s'.lrCounter.1 = s.lrCounter.1 + 1 ∧
      s'.leftOutCounter.1 = s.leftOutCounter.1 - 1 := by
  obtain ⟨t, ht, hfields⟩ := s.lrSelect_ok (i := i) hslot hleft
  obtain ⟨waveCounter, hwave⟩ := nextWaveCounter_ok s.dataCount t.dataCount s.waveCounter
  exact ⟨_, bind_eq_ok_iff.mpr ⟨t, ht, bind_eq_ok_iff.mpr ⟨waveCounter, hwave, rfl⟩⟩, hfields⟩

/-- Without one it makes `leftOutCounter` leave its range. -/
theorem Signals.fallingEdge_error (hslot : s.lrCounter.1 < 16) (hleft : s.leftOutCounter.1 = 0) :
    s.fallingEdge i = .error ⟨.leftOutCounter, -1⟩ := by
  obtain ⟨hlow, -⟩ := s.lrCounter.2
  rw [fallingEdge, lrSelect, if_pos hslot, assign_of_mem _ ⟨by omega, by omega⟩, hleft,
    assign_of_notMem _ fun h ↦ absurd h.1 (by omega)]
  rfl

/-- The signals with a new bit clock. -/
def Signals.withClock (clock : Bool × Subrange 0 255) (s : Signals) : Signals :=
  { s with internalBitClock := clock.1, bitClockCounter := clock.2 }

variable {clock : Bool × Subrange 0 255}

theorem Signals.audioClockEdge_falls (hclock : s.bitClock = .ok clock)
    (hfalls : (s.internalBitClock && !clock.1) = true) :
    s.audioClockEdge i = (s.withClock clock).fallingEdge i := by
  rw [audioClockEdge, hclock]
  exact if_pos hfalls

/-- An edge at which it falls, in the left slot with an index left to go to. -/
theorem Signals.audioClockEdge_falls_ok (hclock : s.bitClock = .ok clock)
    (hfalls : (s.internalBitClock && !clock.1) = true) (hslot : s.lrCounter.1 < 16)
    (hleft : 0 < s.leftOutCounter.1) :
    ∃ s', s.audioClockEdge i = .ok s' ∧ s'.internalBitClock = clock.1 ∧
      s'.bitClockCounter = clock.2 ∧ s'.lrCounter.1 = s.lrCounter.1 + 1 ∧
      s'.leftOutCounter.1 = s.leftOutCounter.1 - 1 := by
  rw [audioClockEdge_falls hclock hfalls]
  exact (s.withClock clock).fallingEdge_ok hslot hleft

/-- An edge at which it does not fall raises no error and leaves the slot counters. -/
theorem Signals.audioClockEdge_rests (hclock : s.bitClock = .ok clock)
    (hrests : ¬ (s.internalBitClock && !clock.1) = true) :
    ∃ s', s.audioClockEdge i = .ok s' ∧ s'.internalBitClock = clock.1 ∧
      s'.bitClockCounter = clock.2 ∧ s'.lrCounter = s.lrCounter ∧
      s'.leftOutCounter = s.leftOutCounter := by
  rw [audioClockEdge, hclock]
  by_cases hrises : (!s.internalBitClock && clock.1) = true
  · refine ⟨(s.withClock clock).risingEdge i, (if_neg hrests).trans (if_pos hrises), ?_⟩
    rw [risingEdge]
    split_ifs <;> exact ⟨rfl, rfl, rfl, rfl⟩
  · exact ⟨s.withClock clock, (if_neg hrests).trans (if_neg hrises), rfl, rfl, rfl, rfl⟩

end Edges

/-! ### One event -/

section Events

variable {c : Countdown} {s : Signals}

/-- The bit clock and its counter after the next edge. -/
theorem Countdown.Shows.bitClock (h : c.Shows s) : ∃ clock, s.bitClock = .ok clock ∧
    clock.1 = decide (6 ≤ (c.edges + 1) % 12) ∧ clock.2.1 = ((c.edges + 1) % 12 : ℕ) := by
  have hcounter := h.bitClockCounter
  by_cases hlow : c.edges % 12 < 5
  · have hvalue : s.bitClockCounter.1 + 1 = ((c.edges + 1) % 12 : ℕ) := by omega
    rw [Signals.bitClock, if_pos (by omega), assign_of_mem _ ⟨by omega, by omega⟩]
    exact ⟨_, rfl, (decide_eq_false (by omega)).symm, hvalue⟩
  · by_cases hhigh : c.edges % 12 < 11
    · have hvalue : s.bitClockCounter.1 + 1 = ((c.edges + 1) % 12 : ℕ) := by omega
      rw [Signals.bitClock, if_neg (by omega), if_pos (by omega),
        assign_of_mem _ ⟨by omega, by omega⟩]
      exact ⟨_, rfl, (decide_eq_true (by omega)).symm, hvalue⟩
    · have hvalue : 0 = ((c.edges + 1) % 12 : ℕ) := by omega
      rw [Signals.bitClock, if_neg (by omega), if_neg (by omega),
        assign_of_mem _ ⟨by omega, by omega⟩]
      exact ⟨_, rfl, (decide_eq_false (by omega)).symm, congrArg Nat.cast hvalue⟩

/-- The bit clock falls at the end of its period. -/
theorem Countdown.Shows.falls_iff (h : c.Shows s) {level : Bool}
    (hlevel : level = decide (6 ≤ (c.edges + 1) % 12)) :
    (s.internalBitClock && !level) = true ↔ c.edges % 12 = 11 := by
  rw [h.internalBitClock, hlevel, Bool.and_eq_true, Bool.not_eq_true', decide_eq_true_eq,
    decide_eq_false_iff_not]
  omega

/-- An edge that the countdown lasts raises no error. -/
theorem Countdown.Shows.audioClockEdge_ok (h : c.Shows s) (i : Inputs)
    (hlasts : (c.next true).Lasts) :
    ∃ s', s.audioClockEdge i = .ok s' ∧ (c.next true).Shows s' := by
  obtain ⟨clock, hclock, hlevel, hcount⟩ := h.bitClock
  have hedges : c.edges + 1 < 12 * (c.top + 1) := hlasts
  have hslot := h.lrCounter
  have hleft := h.leftOutCounter
  have htop := h.top_le
  by_cases hfalls : c.edges % 12 = 11
  · obtain ⟨s', hs', hlevel', hcount', hslot', hleft'⟩ := Signals.audioClockEdge_falls_ok (i := i)
      hclock ((h.falls_iff hlevel).mpr hfalls) (by omega) (by omega)
    refine ⟨s', hs', htop, hcount' ▸ hcount, hlevel'.trans hlevel, ?_, ?_⟩
    · change s'.lrCounter.1 = ((c.edges + 1) / 12 : ℕ)
      omega
    · change s'.leftOutCounter.1 = c.top - ((c.edges + 1) / 12 : ℕ)
      omega
  · obtain ⟨s', hs', hlevel', hcount', hslot', hleft'⟩ := Signals.audioClockEdge_rests (i := i)
      hclock (mt (h.falls_iff hlevel).mp hfalls)
    have hsame : (c.edges + 1) / 12 = c.edges / 12 := by omega
    refine ⟨s', hs', htop, hcount' ▸ hcount, hlevel'.trans hlevel, ?_, ?_⟩
    · rw [hslot', hslot, ← hsame]
      rfl
    · rw [hleft', hleft, ← hsame]
      rfl

/-- The edge that ends it makes `leftOutCounter` leave its range. -/
theorem Countdown.Shows.audioClockEdge_error (h : c.Shows s) (i : Inputs)
    (hends : ¬ (c.next true).Lasts) :
    s.audioClockEdge i = .error ⟨.leftOutCounter, -1⟩ := by
  obtain ⟨clock, hclock, hlevel, -⟩ := h.bitClock
  have hedges : ¬ c.edges + 1 < 12 * (c.top + 1) := hends
  have hslot := h.lrCounter
  have hleft := h.leftOutCounter
  have htop := h.top_le
  obtain ⟨hlow, -⟩ := s.leftOutCounter.2
  rw [Signals.audioClockEdge_falls hclock ((h.falls_iff hlevel).mpr (by omega))]
  exact Signals.fallingEdge_error (by change s.lrCounter.1 < 16; omega)
    (by change s.leftOutCounter.1 = 0; omega)

/-- A low reset raises no error either. -/
theorem Countdown.shows_asyncReset (s : Signals) : (c.next false).Shows s.asyncReset := by
  refine ⟨Nat.le_refl 15, rfl, rfl, ?_, ?_⟩
  · change (0 : ℤ) = (0 / 12 : ℕ)
    rfl
  · change (15 : ℤ) = (15 : ℕ) - (0 / 12 : ℕ)
    rfl

theorem Countdown.shows_powerUp (s : Signals) : (⟨0, 0⟩ : Countdown).Shows s.powerUp :=
  ⟨Nat.zero_le 15, rfl, rfl, rfl, rfl⟩

theorem Countdown.Shows.step_ok (h : c.Shows s) (e : Bool × Inputs)
    (hlasts : (c.next e.1).Lasts) :
    ∃ s', Signals.step e.1 e.2 s = .ok s' ∧ (c.next e.1).Shows s' := by
  obtain ⟨reset, i⟩ := e
  cases reset with
  | true => exact h.audioClockEdge_ok i hlasts
  | false => exact ⟨s.asyncReset, rfl, shows_asyncReset s⟩

theorem Countdown.Shows.step_error (h : c.Shows s) (e : Bool × Inputs)
    (hends : ¬ (c.next e.1).Lasts) :
    Signals.step e.1 e.2 s = .error ⟨.leftOutCounter, -1⟩ := by
  obtain ⟨reset, i⟩ := e
  cases reset with
  | true => exact h.audioClockEdge_error i hends
  | false => exact absurd (show 0 < 12 * (15 + 1) by decide) hends

end Events

section Runs

variable (s : Signals) (input : ℕ → Bool × Inputs)

/-- As long as the countdown lasts the simulation raises no error. -/
theorem simulation_ok {n : ℕ} (hlasts : ∀ m < n, (countdown input (m + 1)).Lasts) :
    ∃ s', simulation s input n = .ok s' ∧ (countdown input n).Shows s' :=
  checkedRun_ok (P := fun n ↦ (countdown input n).Shows) (Countdown.shows_powerUp s)
    (fun n _ h hlasts ↦ h.step_ok (input n) hlasts) hlasts

/-- When it is over the simulation has ended, where `leftOutCounter` would have become -1. -/
theorem simulation_error {n : ℕ} (hends : ¬ ∀ m < n, (countdown input (m + 1)).Lasts) :
    simulation s input n = .error ⟨.leftOutCounter, -1⟩ :=
  checkedRun_error (P := fun n ↦ (countdown input n).Shows) (Countdown.shows_powerUp s)
    (fun n _ h hlasts ↦ h.step_ok (input n) hlasts) (fun n _ h hends ↦ h.step_error (input n) hends)
    hends

/-- A state of a simulation is one the countdown shows. -/
theorem simulation_shows {n : ℕ} {s' : Signals} (h : simulation s input n = .ok s') :
    (∀ m < n, (countdown input (m + 1)).Lasts) ∧ (countdown input n).Shows s' := by
  by_cases hlasts : ∀ m < n, (countdown input (m + 1)).Lasts
  · obtain ⟨t, ht, hshows⟩ := simulation_ok s input hlasts
    cases ht.symm.trans h
    exact ⟨hlasts, hshows⟩
  · cases (simulation_error s input hlasts).symm.trans h

/-- No simulation gets to the right slot of a frame. -/
theorem simulation_leftSlot {n : ℕ} {s' : Signals} (h : simulation s input n = .ok s') :
    s'.lrCounter.1 < 16 := by
  obtain ⟨-, hshows⟩ := simulation_shows s input h
  obtain ⟨hlow, -⟩ := s'.leftOutCounter.2
  have hslot := hshows.lrCounter
  have hleft := hshows.leftOutCounter
  have htop := hshows.top_le
  omega

end Runs

/-! ### The resets that let it go on -/

/-- The next `length` events from `start` on are edges of the audio clock with the reset
released. -/
def Released (input : ℕ → Bool × Inputs) (start length : ℕ) : Prop :=
  ∀ j < length, (input (start + j)).1 = true

section Released

variable {input : ℕ → Bool × Inputs} {start length : ℕ}

theorem Released.mono (h : Released input start length) {less : ℕ} (hless : less ≤ length) :
    Released input start less := fun j hj ↦ h j (Nat.lt_of_lt_of_le hj hless)

theorem released_succ_iff : Released input start (length + 1) ↔
    Released input start length ∧ (input (start + length)).1 = true := by
  constructor
  · intro h
    exact ⟨h.mono (Nat.le_succ length), h length (Nat.lt_succ_self length)⟩
  · rintro ⟨h, hlast⟩ j hj
    rcases Nat.lt_succ_iff_lt_or_eq.mp hj with hj | rfl
    · exact h j hj
    · exact hlast

/-- The countdown goes on through edges. -/
theorem countdown_of_released (h : Released input start length) :
    countdown input (start + length) =
      ⟨(countdown input start).top, (countdown input start).edges + length⟩ := by
  induction length with
  | zero => rfl
  | succ length ih =>
    obtain ⟨hbefore, hlast⟩ := released_succ_iff.mp h
    rw [← Nat.add_assoc, countdown, Clocked.run_succ, ← countdown, hlast, ih hbefore]
    rfl

/-- It starts again where the reset is low. -/
theorem countdown_of_low {k : ℕ} (hlow : (input k).1 = false) :
    countdown input (k + 1) = ⟨15, 0⟩ := by
  rw [countdown, Clocked.run_succ, hlow]
  rfl

/-- The reset has not been low yet, or there was a last time. -/
theorem released_or_exists_low (input : ℕ → Bool × Inputs) (n : ℕ) :
    Released input 0 n ∨
      ∃ k d, n = k + 1 + d ∧ (input k).1 = false ∧ Released input (k + 1) d := by
  induction n with
  | zero => exact Or.inl fun j hj ↦ absurd hj (Nat.not_lt_zero j)
  | succ n ih =>
    cases hreset : (input n).1 with
    | false => exact Or.inr ⟨n, 0, rfl, hreset, fun j hj ↦ absurd hj (Nat.not_lt_zero j)⟩
    | true =>
      rcases ih with hnever | ⟨k, d, rfl, hlow, hsince⟩
      · rw [← Nat.zero_add n] at hreset
        exact Or.inl (released_succ_iff.mpr ⟨hnever, hreset⟩)
      · exact Or.inr ⟨k, d + 1, rfl, hlow, released_succ_iff.mpr ⟨hsince, hreset⟩⟩

/-- The countdown lasts exactly when the first bit clock after power-up does not end, and none of
the left slots after a reset does. -/
theorem lasts_iff (input : ℕ → Bool × Inputs) (n : ℕ) :
    (∀ m < n, (countdown input (m + 1)).Lasts) ↔
      (12 ≤ n → ¬ Released input 0 12) ∧
        ∀ k, k + 193 ≤ n → (input k).1 = false → ¬ Released input (k + 1) 192 := by
  constructor
  · intro hlasts
    refine ⟨fun hn hreleased ↦ ?_, fun k hn hlow hreleased ↦ ?_⟩
    · have hover := hlasts 11 (by omega)
      rw [show 11 + 1 = 0 + 12 from rfl, countdown_of_released hreleased] at hover
      exact absurd hover (Nat.lt_irrefl 12)
    · have hover := hlasts (k + 192) (by omega)
      rw [show k + 192 + 1 = k + 1 + 192 by omega, countdown_of_released hreleased,
        countdown_of_low hlow] at hover
      exact absurd hover (Nat.lt_irrefl 192)
  · rintro ⟨hfirst, hlater⟩ m hm
    rcases released_or_exists_low input (m + 1) with hnever | ⟨k, d, hd, hlow, hsince⟩
    · have hcountdown := countdown_of_released hnever
      rw [Nat.zero_add] at hcountdown
      rw [hcountdown]
      change 0 + (m + 1) < 12
      by_contra hover
      exact hfirst (by omega) (hnever.mono (by omega))
    · rw [hd, countdown_of_released hsince, countdown_of_low hlow]
      change 0 + d < 192
      by_contra hover
      exact hlater k (by omega) hlow (hsince.mono (by omega))

end Released

/-- A simulation from power-up gets through `n` events with every counter in its declared range,
and every index within the channel registers, exactly when the reset is low at one of the first
twelve of them, and after that never released for 192 edges of the audio clock in a row. -/
theorem simulation_ok_iff (s : Signals) (input : ℕ → Bool × Inputs) (n : ℕ) :
    (∃ s', simulation s input n = .ok s') ↔
      (12 ≤ n → ¬ Released input 0 12) ∧
        ∀ k, k + 193 ≤ n → (input k).1 = false → ¬ Released input (k + 1) 192 := by
  rw [← lasts_iff]
  constructor
  · rintro ⟨s', h⟩
    exact (simulation_shows s input h).1
  · intro hlasts
    obtain ⟨s', h, -⟩ := simulation_ok s input hlasts
    exact ⟨s', h⟩

/-- Signals that are all low. -/
def Signals.low : Signals where
  internalBitClock := false
  bitClockCounter := ⟨0, by decide⟩
  internalLRSelect := false
  dataCount := false
  lrCounter := ⟨0, by decide⟩
  leftOutCounter := ⟨0, by decide⟩
  rightOutCounter := ⟨0, by decide⟩
  adcDataLeftChannelRegister := 0
  adcDataRightChannelRegister := 0
  dacDataLeftChannelRegister := 0
  dacDataRightChannelRegister := 0
  audioToNiosLeft := 0
  audioToNiosRight := 0
  dacData := false
  waveCounter := ⟨0, by decide⟩

/-- One low reset and then 192 edges of the audio clock end every simulation. -/
theorem not_simulation_ok : ¬ ∀ (s : Signals) (input : ℕ → Bool × Inputs) (n : ℕ),
    ∃ s', simulation s input n = .ok s' := by
  intro hclaim
  obtain ⟨s', h⟩ := hclaim .low (fun k ↦ (decide (0 < k), ⟨false, false, 0, 0⟩)) 193
  obtain ⟨-, hlater⟩ := (lasts_iff _ _).mp (simulation_shows _ _ h).1
  exact hlater 0 le_rfl rfl fun j _ ↦ decide_eq_true (by omega)

end AudioProcessor.AdcDac
