import AudioProcessor.Codec.Settings
import AudioProcessor.ControlPath.Update
import Mathlib.Data.Fintype.Basic

/-!
# The seven-segment displays

`HEX0` shows the state of the codec controller, `HEX2` and `HEX1` the volume level, or 00 when muted
or at the bottom. The processes of `HEX1` and `HEX2` read the mute flag too, as they are
synthesised: their sensitivity lists leave it out. A segment is lit where its bit is low.

Which digit a pattern shows is read off the shape of its lit segments (`Reads`), apart from the tables
of the processes: they have every digit in its shape but F, whose pattern shows none. What the
displays show and what was sent on the bus come by different ways; `readout_current` says that in
`stop` they agree.
-/

set_option autoImplicit false
set_option relaxedAutoImplicit false

namespace AudioProcessor.TopLevel

open Codec (i2cData lastFor transfers)
open ControlPath (Inputs atTick beforeTick nextTick signals)

/-- The pattern that `HEX1` shows for a digit. -/
def hex1Digit (digit : BitVec 4) : BitVec 7 :=
  match digit.toNat with
  | 0 => 0b1000000
  | 1 => 0b1111001
  | 2 => 0b0100100
  | 3 => 0b0110000
  | 4 => 0b0011001
  | 5 => 0b0010010
  | 6 => 0b0000010
  | 7 => 0b1111000
  | 8 => 0b0000000
  | 9 => 0b0011000
  | 10 => 0b0001000
  | 11 => 0b0000011
  | 12 => 0b1000110
  | 13 => 0b0100001
  | 14 => 0b0000110
  | 15 => 0b0000111
  | _ => 0b1111111

/-- The pattern that `HEX2` shows for a digit. -/
def hex2Digit (digit : BitVec 4) : BitVec 7 :=
  match digit.toNat with
  | 0 => 0b1000000
  | 1 => 0b1111001
  | 2 => 0b0100100
  | 3 => 0b0110000
  | 4 => 0b0011001
  | 5 => 0b0010010
  | 6 => 0b0000010
  | 7 => 0b1111000
  | _ => 0b1111111

/-- The display `HEX0`, by `stateOut`. -/
def hex0 (s : ControlPath.State) : BitVec 7 :=
  match (ControlPath.outputs s).stateOut with
  | 0 => 0b1000000
  | 1 => 0b1111100
  | 2 => 0b0100100
  | 3 => 0b0110000
  | 4 => 0b0011001
  | 5 => 0b0010010
  | _ => 0b1111111

/-- The display `HEX1`: the lower four bits of the volume. -/
def hex1 (s : ControlPath.State) : BitVec 7 :=
  if (ControlPath.outputs s).isMuted || (ControlPath.outputs s).volOut ≤ 0b1100101 then 0b1000000
  else hex1Digit ((ControlPath.outputs s).volOut.extractLsb' 0 4)

/-- The display `HEX2`: the upper three bits of the volume. -/
def hex2 (s : ControlPath.State) : BitVec 7 :=
  if (ControlPath.outputs s).isMuted || (ControlPath.outputs s).volOut ≤ 0b1100101 then 0b1000000
  else hex2Digit ((0 : BitVec 1) ++ (ControlPath.outputs s).volOut.extractLsb' 4 3)

/-! ### Reading the displays -/

/-- The segments of a display: `a` at the top, clockwise to `f`, and `g` in the middle. -/
inductive Segment
  | a
  | b
  | c
  | d
  | e
  | f
  | g
deriving DecidableEq

instance : Fintype Segment where
  elems := {.a, .b, .c, .d, .e, .f, .g}
  complete segment := by cases segment <;> decide

/-- The bit of a segment in a pattern. -/
def Segment.bit : Segment → ℕ
  | .a => 0
  | .b => 1
  | .c => 2
  | .d => 3
  | .e => 4
  | .f => 5
  | .g => 6

/-- The segments that make a hexadecimal digit; the 9 has no foot. -/
def shape (digit : BitVec 4) : List Segment :=
  match digit.toNat with
  | 0 => [.a, .b, .c, .d, .e, .f]
  | 1 => [.b, .c]
  | 2 => [.a, .b, .d, .e, .g]
  | 3 => [.a, .b, .c, .d, .g]
  | 4 => [.b, .c, .f, .g]
  | 5 => [.a, .c, .d, .f, .g]
  | 6 => [.a, .c, .d, .e, .f, .g]
  | 7 => [.a, .b, .c]
  | 8 => [.a, .b, .c, .d, .e, .f, .g]
  | 9 => [.a, .b, .c, .f, .g]
  | 10 => [.a, .b, .c, .e, .f, .g]
  | 11 => [.c, .d, .e, .f, .g]
  | 12 => [.a, .d, .e, .f]
  | 13 => [.b, .c, .d, .e, .g]
  | 14 => [.a, .d, .e, .f, .g]
  | _ => [.a, .e, .f, .g]

/-- A pattern shows a digit: its lit segments are those of the digit. -/
def Reads (pattern : BitVec 7) (digit : BitVec 4) : Prop :=
  ∀ segment, segment ∈ shape digit ↔ pattern.getLsbD segment.bit = false

instance (pattern : BitVec 7) (digit : BitVec 4) : Decidable (Reads pattern digit) :=
  inferInstanceAs (Decidable (∀ _, _))

/-- `HEX1` shows every digit but F, for which it shows no digit at all. -/
theorem reads_hex1Digit (digit shown : BitVec 4) :
    Reads (hex1Digit digit) shown ↔ shown = digit ∧ digit ≠ 0xF := by
  revert digit shown
  decide

theorem reads_hex2Digit (digit : BitVec 3) (shown : BitVec 4) :
    Reads (hex2Digit ((0 : BitVec 1) ++ digit)) shown ↔ shown = (0 : BitVec 1) ++ digit := by
  revert digit shown
  decide

/-- `HEX2` and `HEX1` show a volume of the codec: 00 for the volume that is muted, and otherwise the
digits of the volume, where an F at the end is no digit. -/
structure Shows (s : ControlPath.State) (volume : BitVec 7) : Prop where
  muted : volume = 0b0110000 → Reads (hex2 s) 0 ∧ Reads (hex1 s) 0
  high : volume ≠ 0b0110000 → ∀ digit, Reads (hex2 s) digit ↔
    digit = (0 : BitVec 1) ++ volume.extractLsb' 4 3
  low : volume ≠ 0b0110000 → ∀ digit, Reads (hex1 s) digit ↔
    digit = volume.extractLsb' 0 4 ∧ volume.extractLsb' 0 4 ≠ 0xF

/-- `HEX0` tells `stop` from the other states. -/
theorem hex0_eq_iff (s : ControlPath.State) :
    hex0 s = 0b0010010 ↔ s.codec.slow.currentState = .stop := by
  rw [hex0, ControlPath.outputs]
  dsimp only
  cases s.codec.slow.currentState <;> decide

/-- `HEX2` and `HEX1` show the volume that the codec is to have. -/
theorem shows_effectiveVol (s : ControlPath.State) : Shows s s.effectiveVol := by
  have hmuted (h : s.effectiveVol ≠ 0b0110000) :
      (s.volume.muteState || s.codec.volLevel ≤ 0b1100101) = false ∧
        s.effectiveVol = s.codec.volLevel := by
    rw [ControlPath.State.effectiveVol, Codec.effectiveVol] at h ⊢
    split_ifs at h ⊢ with hmuted
    · exact absurd rfl h
    · exact ⟨Bool.eq_false_of_not_eq_true hmuted, rfl⟩
  refine ⟨fun h ↦ ?_, fun h digit ↦ ?_, fun h digit ↦ ?_⟩
  · have hlow : (s.volume.muteState || s.codec.volLevel ≤ 0b1100101) = true := by
      by_contra hhigh
      rw [ControlPath.State.effectiveVol, Codec.effectiveVol, if_neg hhigh] at h
      rw [h] at hhigh
      exact hhigh (by simp)
    rw [hex1, hex2, ControlPath.outputs]
    dsimp only
    rw [if_pos hlow, if_pos hlow]
    decide
  · obtain ⟨hshown, hvolume⟩ := hmuted h
    rw [hex2, ControlPath.outputs, hvolume]
    dsimp only
    rw [if_neg (ne_true_of_eq_false hshown), reads_hex2Digit]
  · obtain ⟨hshown, hvolume⟩ := hmuted h
    rw [hex1, ControlPath.outputs, hvolume]
    dsimp only
    rw [if_neg (ne_true_of_eq_false hshown), reads_hex1Digit]

/-! ### The displays and the bus -/

section Current

variable (s : ControlPath.State) {inputs : ℕ → Inputs} (hreset : ∀ t, (inputs t).reset = true)
  (hanswer : ∀ t, (inputs t).answer = true)

/-- The words acknowledged on the bus of the codec up to a cycle after a reset, by a slave that
acknowledges everything. -/
def busWords (inputs : ℕ → Inputs) (t : ℕ) : List (BitVec 16) :=
  Codec.acknowledged s.codec (fun t ↦ signals (ControlPath.run s.afterReset inputs t).volume)
    (fun _ ↦ true) (2 * nextTick t)

include hreset hanswer

/-- They are the words of the ticks before. -/
theorem busWords_eq (t : ℕ) : busWords s inputs t =
    s.codec.slow.asyncReset.words (atTick s inputs) (nextTick t) := by
  have hcodec := ControlPath.codec_run s.afterReset hreset
  have hpull : (fun t ↦ (inputs t).answer) = fun _ ↦ true := funext hanswer
  have hinputs : Codec.tickInputs s.codec.asyncReset
      (fun t ↦ signals (ControlPath.run s.afterReset inputs t).volume)
      (Codec.heldAnswers fun _ ↦ true) = atTick s inputs := by
    funext i
    rw [Codec.tickInputs, atTick, Codec.tickEdge_asyncReset, hcodec, hanswer, hpull]
    rfl
  rw [busWords, Codec.acknowledged_eq, hinputs, Nat.mul_div_cancel_left _ Nat.two_pos]

/-- In `stop` the last word on the bus for a position is the last one that was loaded for it. -/
theorem lastFor_busWords {pos : ℕ} (hpos : pos ≤ 10) {t : ℕ}
    (hstop : (ControlPath.run s.afterReset inputs t).codec.slow.currentState = .stop) :
    lastFor pos (busWords s inputs t) =
      Codec.lastWord pos (transfers (beforeTick s inputs) (nextTick t)) := by
  have hvalid := Codec.Slow.valid_asyncReset s.codec.slow
  have hjump := Codec.Slow.phase_asyncReset s.codec.slow
  have hacked : s.codec.slow.asyncReset.Acknowledged (atTick s inputs) := fun _ _ ↦ hanswer _
  rw [ControlPath.slow_eq_beforeTick s hreset, ControlPath.beforeTick_eq_run s hreset] at hstop
  have hrests :
      Codec.Slow.Rests (s.codec.slow.asyncReset.run (atTick s inputs) (nextTick t)).phase := by
    rw [Codec.Slow.phase_of_stop hstop]
    exact fun _ _ h ↦ Codec.Phase.noConfusion h
  obtain ⟨hwords, htable⟩ := Codec.Slow.map_transfers hvalid hjump hacked (nextTick t) hrests
  rw [busWords_eq s hreset hanswer, ← hwords, Codec.lastFor_map_transfers htable hpos,
    funext (ControlPath.beforeTick_eq_run s hreset)]

end Current

/-- In every run after a reset with a slave that acknowledges everything: at every cycle up to which
all changes of the effective volume came in time, while `HEX0` shows 5, for `stop`, and does so at the
next tick of the controller as well, `HEX2` and `HEX1` show the volume in the last words that were
acknowledged on the bus for the two outputs. -/
theorem readout_current (s : ControlPath.State) {inputs : ℕ → Inputs}
    (hreset : ∀ t, (inputs t).reset = true) (hanswer : ∀ t, (inputs t).answer = true) {t : ℕ}
    (hontime : ∀ k < t, (ControlPath.run s.afterReset inputs (k + 1)).effectiveVol ≠
        (ControlPath.run s.afterReset inputs k).effectiveVol →
      (beforeTick s inputs (nextTick (k + 1))).InTime (atTick s inputs (nextTick (k + 1))))
    (hstop : hex0 (ControlPath.run s.afterReset inputs t) = 0b0010010)
    (hstays : hex0 (ControlPath.run s.afterReset inputs (1250 + 2500 * (nextTick t + 1))) =
      0b0010010) :
    lastFor 3 (busWords s inputs t) =
        some (i2cData 3 (ControlPath.run s.afterReset inputs t).effectiveVol) ∧
      lastFor 4 (busWords s inputs t) =
        some (i2cData 4 (ControlPath.run s.afterReset inputs t).effectiveVol) ∧
      Shows (ControlPath.run s.afterReset inputs t)
        (ControlPath.run s.afterReset inputs t).effectiveVol := by
  rw [hex0_eq_iff] at hstop hstays
  have hlast {pos : ℕ} (hpos : pos = 3 ∨ pos = 4) :=
    ControlPath.lastWord_of_stays s hreset hanswer hpos hontime hstop hstays
  refine ⟨?_, ?_, shows_effectiveVol _⟩
  · rw [lastFor_busWords s hreset hanswer (by decide) hstop, hlast (.inl rfl)]
  · rw [lastFor_busWords s hreset hanswer (by decide) hstop, hlast (.inr rfl)]

/-- With the mute button pressed during the first pass the displays show 00 after it, and that is
what was sent. -/
theorem readout_current_muted :
    lastFor 3 (busWords .initial (ControlPath.holdMute 100000) (1250 + 2500 * 398)) =
        some 0x0530 ∧
      lastFor 4 (busWords .initial (ControlPath.holdMute 100000) (1250 + 2500 * 398)) =
        some 0x0730 ∧
      Reads (hex2 (ControlPath.run ControlPath.State.initial.afterReset
        (ControlPath.holdMute 100000) (1250 + 2500 * 398))) 0 ∧
      Reads (hex1 (ControlPath.run ControlPath.State.initial.afterReset
        (ControlPath.holdMute 100000) (1250 + 2500 * 398))) 0 := by
  obtain ⟨hstop, hstays, -⟩ := ControlPath.firstPass_holdMute (show 2 ≤ 100000 by omega) (by omega)
  have hnext : nextTick (1250 + 2500 * 398) = 398 := by rw [nextTick]
  have hshows (n : ℕ)
      (h : (beforeTick .initial (ControlPath.holdMute 100000) n).currentState = .stop) :
      hex0 (ControlPath.run ControlPath.State.initial.afterReset (ControlPath.holdMute 100000)
        (1250 + 2500 * n)) = 0b0010010 := (hex0_eq_iff _).mpr h
  have hmuted : decide (100000 + 3 ≤ 1250 + 2500 * 398) = true := decide_eq_true (by omega)
  obtain ⟨hleft, hright, hshown⟩ := readout_current .initial (fun _ ↦ rfl) (fun _ ↦ rfl)
    (fun k _ hchange ↦ ControlPath.inTime_holdMute hchange) (hshows 398 hstop)
    (by rw [hnext]; exact hshows (398 + 1) hstays)
  rw [ControlPath.effectiveVol_holdMute (by omega), hmuted] at hleft hright hshown
  exact ⟨hleft, hright, hshown.muted rfl⟩

end AudioProcessor.TopLevel
