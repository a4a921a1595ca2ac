import AudioProcessor.Library.Clocked
import Mathlib.Data.Nat.Basic

/-!
# The codec controller

The registers of `audio_codec_controller.vhd` with its I2C sequencer `I2C_Controller.v`. They live
in two clock domains. The divider, the volume level and its edge memory are clocked by the 50 MHz
clock (`clockEdge`); the state machine, its copies of the inputs, the register index `muxSelect` and
the sequencer are clocked by the rising edge of the divided clock `i2cClock20KHz`, a tick (`Slow`
and `Slow.tick`).

Registers are assigned from the values before their edge, in the Verilog as well: each of its two
`always` blocks reads `SD_COUNTER` as it was before the edge, as in the synthesised circuit. The
combinational signals `nextState`, `i2cRun`, `effective_vol` and `i2cControllerData` are functions
of the current values: the process that makes `nextState` is taken with its sensitivity list
completed by `is_muted` and `is_muted_reg`, as it is synthesised. The signal `incrementMuxSelect`
drives nothing and is left out.

The divided clock is a register of the 50 MHz domain, and rises together with the other registers of
an edge. So a tick finds `vol_up` and `vol_down`, which are registers of the volume control, as they
are after the edge that makes it. What is computed from registers is still as it was before the edge:
`is_muted`, which the volume control assigns from its register `mute_state`, and `nextState` and
`i2cControllerData` here. `TickInputs` has the signals on both sides of the edge.
-/

set_option autoImplicit false
set_option relaxedAutoImplicit false

namespace AudioProcessor.Codec

/-! ### The I2C sequencer -/

/-- The registers of `I2C_Controller`. -/
@[ext]
structure Sequencer where
  sdCounter : ℕ
  sclk : Bool
  sdo : Bool
  i2cEnd : Bool
  ack1 : Bool
  ack2 : Bool
  ack3 : Bool
  sd : BitVec 24
deriving DecidableEq

/-- The output `ACK_O`: some byte was not acknowledged. -/
def Sequencer.ackO (r : Sequencer) : Bool := r.ack1 || r.ack2 || r.ack3

/-- The output `I2C_SCLK`: the clock is passed through, inverted, while the bits are sent. -/
def Sequencer.scl (clock : Bool) (r : Sequencer) : Bool :=
  r.sclk || (decide (4 ≤ r.sdCounter ∧ r.sdCounter ≤ 30) && !clock)

/-- The line `I2C_SDAT`: released by the sequencer where `SDO` is high, and low where the slave pulls
it low. -/
def Sequencer.sdat (pull : Bool) (r : Sequencer) : Bool := r.sdo && !pull

/-- The reset branches of the two blocks; `SD` has none. -/
def Sequencer.asyncReset (r : Sequencer) : Sequencer :=
  { r with
    sdCounter := 63
    sclk := true
    sdo := true
    i2cEnd := true
    ack1 := false
    ack2 := false
    ack3 := false }

/-- The counter block. -/
def Sequencer.nextCounter (go : Bool) (r : Sequencer) : ℕ :=
  if !go then 0 else if r.sdCounter < 63 then r.sdCounter + 1 else r.sdCounter

/-- The transfer block: what is driven at each count. -/
def Sequencer.transfer (data : BitVec 24) (sdat : Bool) (r : Sequencer) : Sequencer :=
  match r.sdCounter with
  | 0 => { r with ack1 := false, ack2 := false, ack3 := false, i2cEnd := false, sdo := true,
                  sclk := true }
  -- start
  | 1 => { r with sd := data, sdo := false }
  | 2 => { r with sclk := false }
  -- slave address
  | 3 => { r with sdo := r.sd.getLsbD 23 }
  | 4 => { r with sdo := r.sd.getLsbD 22 }
  | 5 => { r with sdo := r.sd.getLsbD 21 }
  | 6 => { r with sdo := r.sd.getLsbD 20 }
  | 7 => { r with sdo := r.sd.getLsbD 19 }
  | 8 => { r with sdo := r.sd.getLsbD 18 }
  | 9 => { r with sdo := r.sd.getLsbD 17 }
  | 10 => { r with sdo := r.sd.getLsbD 16 }
  | 11 => { r with sdo := true }
  -- register address and top data bit
  | 12 => { r with sdo := r.sd.getLsbD 15, ack1 := sdat }
  | 13 => { r with sdo := r.sd.getLsbD 14 }
  | 14 => { r with sdo := r.sd.getLsbD 13 }
  | 15 => { r with sdo := r.sd.getLsbD 12 }
  | 16 => { r with sdo := r.sd.getLsbD 11 }
  | 17 => { r with sdo := r.sd.getLsbD 10 }
  | 18 => { r with sdo := r.sd.getLsbD 9 }
  | 19 => { r with sdo := r.sd.getLsbD 8 }
  | 20 => { r with sdo := true }
  -- data
  | 21 => { r with sdo := r.sd.getLsbD 7, ack2 := sdat }
  | 22 => { r with sdo := r.sd.getLsbD 6 }
  | 23 => { r with sdo := r.sd.getLsbD 5 }
  | 24 => { r with sdo := r.sd.getLsbD 4 }
  | 25 => { r with sdo := r.sd.getLsbD 3 }
  | 26 => { r with sdo := r.sd.getLsbD 2 }
  | 27 => { r with sdo := r.sd.getLsbD 1 }
  | 28 => { r with sdo := r.sd.getLsbD 0 }
  | 29 => { r with sdo := true }
  -- stop
  | 30 => { r with sdo := false, sclk := false, ack3 := sdat }
  | 31 => { r with sclk := true }
  | 32 => { r with sdo := true, i2cEnd := true }
  | _ => r

/-- The sequencer at a tick. -/
def Sequencer.tick (go : Bool) (data : BitVec 24) (sdat : Bool) (r : Sequencer) : Sequencer :=
  { r.transfer data sdat with sdCounter := r.nextCounter go }

/-! ### The 20 kHz domain -/

/-- The states of the machine that sends the codec registers one after the other. -/
inductive States
  | resetState
  | transmit
  | checkAcknowledge
  | turnOffi2cControl
  | incrementMuxSelectBits
  | stop
deriving DecidableEq

/-- The output `stateOut`. -/
def States.out : States → ℕ
  | .resetState => 0
  | .transmit => 1
  | .checkAcknowledge => 2
  | .turnOffi2cControl => 3
  | .incrementMuxSelectBits => 4
  | .stop => 5

/-- The input ports from the volume control. -/
structure Signals where
  volUp : Bool
  volDown : Bool
  isMuted : Bool

/-- What a tick finds outside the 20 kHz domain: the ports before and after the edge of the 50 MHz
clock that makes it, the volume level before it, and whether the slave pulls the data line low. -/
structure TickInputs where
  before : Signals
  after : Signals
  volLevel : BitVec 7
  pull : Bool

/-- A volume pulse is high after the edge. -/
def TickInputs.pulse (i : TickInputs) : Bool := i.after.volUp || i.after.volDown

/-- The registers of the 20 kHz domain. -/
@[ext]
structure Slow where
  currentState : States
  volUpRegSlow : Bool
  volDownRegSlow : Bool
  isMutedReg : Bool
  muxSelect : ℕ
  i2c : Sequencer
deriving DecidableEq

/-- The volume the codec is to have: the level, or `0x30` when muted or at the bottom. -/
def effectiveVol (isMuted : Bool) (volLevel : BitVec 7) : BitVec 7 :=
  if isMuted || volLevel ≤ 0b1100101 then 0b0110000 else volLevel

/-- The word for each position of the register index. -/
def i2cData (muxSelect : ℕ) (effectiveVol : BitVec 7) : BitVec 16 :=
  match muxSelect with
  | 0 => 0x0000
  | 1 => 0x001F
  | 2 => 0x021F
  | 3 => (0b000001010 : BitVec 9) ++ effectiveVol
  | 4 => (0b000001110 : BitVec 9) ++ effectiveVol
  | 5 => 0x0810
  | 6 => 0x0A06
  | 7 => 0x0C00
  | 8 => 0x0E01
  | 9 => 0x1002
  | 10 => 0x1201
  | _ => 0xABCD

/-- The volume that a tick finds. -/
def TickInputs.effectiveVol (i : TickInputs) : BitVec 7 :=
  Codec.effectiveVol i.before.isMuted i.volLevel

/-- The word with the address of the codec before it. -/
def i2cControllerData (i : TickInputs) (s : Slow) : BitVec 24 :=
  (0x34 : BitVec 8) ++ i2cData s.muxSelect i.effectiveVol

/-- The output `i2cRun` of the state machine. In `checkAcknowledge` the last assignment wins over
those that depend on `done`. -/
def Slow.i2cRun (s : Slow) : Bool :=
  match s.currentState with
  | .resetState => false
  | .transmit => !decide (s.muxSelect > 10)
  | .checkAcknowledge => true
  | .turnOffi2cControl => false
  | .incrementMuxSelectBits => false
  | .stop => false

/-- What makes the state machine leave `stop`: a volume pulse that was low at the last tick, or a
changed mute flag. -/
def Slow.leavesStop (i : Signals) (s : Slow) : Bool :=
  (i.volUp && !s.volUpRegSlow) || (i.volDown && !s.volDownRegSlow) || i.isMuted != s.isMutedReg

/-- The next state, with the reset released. -/
def Slow.nextState (i : Signals) (s : Slow) : States :=
  match s.currentState with
  | .resetState => .transmit
  | .transmit => if s.muxSelect > 10 then .stop else .checkAcknowledge
  | .checkAcknowledge =>
    if s.i2c.i2cEnd then (if !s.i2c.ackO then .turnOffi2cControl else .transmit)
    else .checkAcknowledge
  | .turnOffi2cControl => .incrementMuxSelectBits
  | .incrementMuxSelectBits => .transmit
  | .stop => if s.leavesStop i then .resetState else .stop

/-- The register index: a pass starts at the volume registers if a volume pulse is seen. -/
def Slow.nextMuxSelect (i : TickInputs) (s : Slow) : ℕ :=
  match s.currentState with
  | .resetState => if i.pulse then 3 else 0
  | .incrementMuxSelectBits => (s.muxSelect + 1) % 16
  | _ => s.muxSelect

/-- The 20 kHz domain at a tick. -/
def Slow.tick (i : TickInputs) (s : Slow) : Slow where
  currentState := s.nextState i.before
  volUpRegSlow := i.after.volUp
  volDownRegSlow := i.after.volDown
  isMutedReg := i.before.isMuted
  muxSelect := s.nextMuxSelect i
  i2c := s.i2c.tick s.i2cRun (i2cControllerData i s) (s.i2c.sdat i.pull)

/-- The reset branches of the 20 kHz domain. -/
def Slow.asyncReset (s : Slow) : Slow where
  currentState := .resetState
  volUpRegSlow := false
  volDownRegSlow := false
  isMutedReg := false
  muxSelect := 0
  i2c := s.i2c.asyncReset

/-! ### The 50 MHz domain -/

/-- All registers of the controller. -/
@[ext]
structure State where
  i2cClockCounter : ℕ
  i2cClock20KHz : Bool
  volLevel : BitVec 7
  volUpRegFast : Bool
  volDownRegFast : Bool
  slow : Slow
deriving DecidableEq

/-- The reset branches of all processes. -/
def State.asyncReset (s : State) : State where
  i2cClockCounter := 0
  i2cClock20KHz := false
  volLevel := 0b1101101
  volUpRegFast := false
  volDownRegFast := false
  slow := s.slow.asyncReset

/-- The divider process: the new counter and clock. -/
def State.divider (s : State) : ℕ × Bool :=
  if s.i2cClockCounter ≤ 1249 then (s.i2cClockCounter + 1, false)
  else if s.i2cClockCounter < 2499 then (s.i2cClockCounter + 1, true)
  else (0, false)

/-- The volume level process: a rising pulse moves the level within its bounds, up before down. -/
def State.nextVolLevel (i : Signals) (s : State) : BitVec 7 :=
  if i.volUp && !s.volUpRegFast then
    if s.volLevel < 0b1111111 then s.volLevel + 1 else s.volLevel
  else if i.volDown && !s.volDownRegFast then
    if s.volLevel > 0b1100101 then s.volLevel - 1 else s.volLevel
  else s.volLevel

/-- The processes of the 50 MHz domain at a rising edge of the clock. -/
def State.clockEdge (i : Signals) (s : State) : State :=
  { s with
    i2cClockCounter := s.divider.1
    i2cClock20KHz := s.divider.2
    volLevel := s.nextVolLevel i
    volUpRegFast := i.volUp
    volDownRegFast := i.volDown }

/-- One rising edge of the clock under the level of `reset` at it, with the ports before and after
it: the registers of the 50 MHz domain move, and if the divided clock has risen it makes a tick. -/
def step (reset : Bool) (before after : Signals) (pull : Bool) (s : State) : State :=
  if !reset then s.asyncReset
  else
    let s' := s.clockEdge before
    if !s.i2cClock20KHz && s'.i2cClock20KHz then
      { s' with slow := s.slow.tick ⟨before, after, s.volLevel, pull⟩ }
    else s'

end AudioProcessor.Codec
