import AudioProcessor.Library.Clocked
import AudioProcessor.Library.Serial

/-!
# The ADC/DAC controller

The registers of `adc_dac_controller.vhd` and what one rising edge of `audioClock` does to them.
The bit clock is a register of the first process, and the other processes are clocked by its edges:
`fallingEdge` is the slot process together with the DAC output process, `risingEdge` the process
that samples the ADC bit, and `waveCounter` is clocked in turn by the rise of `dataCount`. Every
register of a process is assigned from the values before the edge.

The slot counters `leftOutCounter` and `rightOutCounter` are declared `0 to 15` and are decremented
once more than they are reloaded, so they pass below zero at the end of each slot. Here they have
four bits and wrap, as in the synthesised circuit. The sine and square tables feed only lines that
are commented out and are left out, as are the unused registers `dataCount_prev` and `pulse_reg`
and the input `waveSelect`.
-/

set_option autoImplicit false
set_option relaxedAutoImplicit false

namespace AudioProcessor.AdcDac

/-- The input ports read at one edge of the audio clock with the reset released. -/
structure Inputs where
  dataSelect : Bool
  adcData : Bool
  audioFromNiosLeft : BitVec 16
  audioFromNiosRight : BitVec 16

/-- The registers of the controller, the output ports `dacData` and `audio_to_nios_*` included. -/
@[ext]
structure State where
  internalBitClock : Bool
  bitClockCounter : ℕ
  internalLRSelect : Bool
  dataCount : Bool
  lrCounter : ℕ
  leftOutCounter : BitVec 4
  rightOutCounter : BitVec 4
  adcDataLeftChannelRegister : BitVec 16
  adcDataRightChannelRegister : BitVec 16
  dacDataLeftChannelRegister : BitVec 16
  dacDataRightChannelRegister : BitVec 16
  audioToNiosLeft : BitVec 16
  audioToNiosRight : BitVec 16
  dacData : Bool
  waveCounter : ℕ
deriving DecidableEq

/-- The output `data_ready_flag` is the slot select. -/
def State.dataReadyFlag (s : State) : Bool := s.internalLRSelect

/-- The output `dacLRSelect`. -/
def State.dacLRSelect (s : State) : Bool := s.internalLRSelect

/-- The output `adcLRSelect`. -/
def State.adcLRSelect (s : State) : Bool := s.internalLRSelect

/-- What the reset branches of the processes assign. The two bridge registers have no reset. -/
def State.asyncReset (s : State) : State :=
  { s with
    internalBitClock := false
    bitClockCounter := 0
    internalLRSelect := false
    dataCount := false
    lrCounter := 0
    leftOutCounter := 15
    rightOutCounter := 15
    adcDataLeftChannelRegister := 0
    adcDataRightChannelRegister := 0
    dacDataLeftChannelRegister := 0
    dacDataRightChannelRegister := 0
    dacData := false
    waveCounter := 0 }

/-- The bit clock process: the new `internalBitClock` and `bitClockCounter`. -/
def State.bitClock (s : State) : Bool × ℕ :=
  if s.bitClockCounter < 5 then (false, s.bitClockCounter + 1)
  else if s.bitClockCounter < 11 then (true, s.bitClockCounter + 1)
  else (false, 0)

/-- The DAC output process at a falling edge of the bit clock. In loopback both slots index the
left ADC register. -/
def State.dacOutput (i : Inputs) (s : State) : Bool :=
  if s.internalLRSelect then
    if i.dataSelect then s.adcDataLeftChannelRegister.getLsbD s.leftOutCounter.toNat
    else s.dacDataLeftChannelRegister.getLsbD s.leftOutCounter.toNat
  else
    if i.dataSelect then s.adcDataLeftChannelRegister.getLsbD s.rightOutCounter.toNat
    else s.dacDataRightChannelRegister.getLsbD s.rightOutCounter.toNat

/-- The slot process at a falling edge of the bit clock: the first sixteen edges of a frame are the
left slot, the last one of the right slot exchanges the words with the NIOS bridge. -/
def State.lrSelect (i : Inputs) (s : State) : State :=
  if s.lrCounter < 16 then
    { s with
      internalLRSelect := true
      lrCounter := s.lrCounter + 1
      leftOutCounter := s.leftOutCounter - 1
      rightOutCounter := 15
      dataCount := false }
  else if s.lrCounter = 31 then
    { s with
      internalLRSelect := false
      lrCounter := 0
      dataCount := true
      leftOutCounter := 15
      rightOutCounter := s.rightOutCounter - 1
      audioToNiosLeft := s.adcDataLeftChannelRegister
      audioToNiosRight := s.adcDataRightChannelRegister
      dacDataLeftChannelRegister := i.audioFromNiosLeft
      dacDataRightChannelRegister := i.audioFromNiosRight }
  else
    { s with
      internalLRSelect := false
      lrCounter := s.lrCounter + 1
      dataCount := false
      leftOutCounter := 15
      rightOutCounter := s.rightOutCounter - 1 }

/-- The address generator, clocked by the rise of `dataCount`. -/
def nextWaveCounter (before after : Bool) (waveCounter : ℕ) : ℕ :=
  if !before && after then (if waveCounter ≥ 47 then 0 else waveCounter + 1) else waveCounter

/-- All processes clocked by the falling edge of the bit clock, and `waveCounter` after them. -/
def State.fallingEdge (i : Inputs) (s : State) : State :=
  { s.lrSelect i with
    dacData := s.dacOutput i
    waveCounter := nextWaveCounter s.dataCount (s.lrSelect i).dataCount s.waveCounter }

/-- The process that samples the ADC bit at the rising edge of the bit clock. -/
def State.risingEdge (i : Inputs) (s : State) : State :=
  if s.internalLRSelect then
    { s with adcDataLeftChannelRegister := Serial.shiftIn s.adcDataLeftChannelRegister i.adcData }
  else
    { s with adcDataRightChannelRegister := Serial.shiftIn s.adcDataRightChannelRegister i.adcData }

/-- One rising edge of the audio clock with the reset released: the bit clock process, and then the
processes its edge triggers, if it has one. -/
def State.audioClockEdge (i : Inputs) (s : State) : State :=
  let s' : State := { s with internalBitClock := s.bitClock.1, bitClockCounter := s.bitClock.2 }
  if s.internalBitClock && !s.bitClock.1 then s'.fallingEdge i
  else if !s.internalBitClock && s.bitClock.1 then s'.risingEdge i
  else s'

/-- One rising edge of the audio clock under the level of the active-low `reset` at it. -/
def step (reset : Bool) (i : Inputs) (s : State) : State :=
  if reset then s.audioClockEdge i else s.asyncReset

/-- The controller from the release of its reset on: the state just before each rising edge of the
audio clock, edge `k` reading `input k`. -/
def released (s : State) (input : ℕ → Inputs) : ℕ → State :=
  Clocked.run (step true) s.asyncReset input

end AudioProcessor.AdcDac
