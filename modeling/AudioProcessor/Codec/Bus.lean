import AudioProcessor.Codec.Run
import AudioProcessor.Library.TwoWire

/-!
# What the controller sends over the bus

The waveform of the two lines is sampled after every edge of the 20 kHz clock. Decoded by the rules
of the bus it is a sequence of frames, each a START, three bytes with their acknowledge slots and a
STOP. A frame begun at tick `b` is sent between ticks `b + 1` and `b + 33` (`bus_frame`), and between
two frames the lines rest.

`InOrder` says how the frames follow each other: passes of consecutive positions from 0 or 3 to 10,
each frame after the first sent only when all bytes of the one before were acknowledged.
-/

set_option autoImplicit false
set_option relaxedAutoImplicit false

namespace AudioProcessor.Codec

open TwoWire

/-! ### Frames -/

/-- A frame on the bus: its position in the pass, the volume its word was made with, and the level
of the data line in its acknowledge slots. -/
structure Frame where
  pos : ℕ
  effectiveVol : BitVec 7
  ack1 : Bool
  ack2 : Bool
  ack3 : Bool

namespace Frame

/-- What the frame was begun with: its position and the volume. -/
def begun (f : Frame) : ℕ × BitVec 7 := (f.pos, f.effectiveVol)

/-- The word of a frame. -/
def word (f : Frame) : BitVec 16 := i2cData f.pos f.effectiveVol

/-- What a frame decodes to. -/
def events (f : Frame) : List Event :=
  .start :: (byte 0x34 f.ack1 ++ byte (f.word.extractLsb' 8 8) f.ack2 ++
    byte (f.word.extractLsb' 0 8) f.ack3) ++ [.stop]

/-- All bytes of the frame were acknowledged. -/
def Acknowledged (f : Frame) : Prop := f.ack1 = false ∧ f.ack2 = false ∧ f.ack3 = false

/-- The level of the data line in slot `k` of a frame. -/
def line (f : Frame) (k : ℕ) : Bool :=
  if k = 8 then f.ack1 else if k = 17 then f.ack2 else if k = 26 then f.ack3
  else if k < 8 then (0x34 : BitVec 8).getLsbD (7 - k)
  else f.word.getLsbD (23 - (k - k / 9))

/-- A frame slot by slot. -/
theorem events_eq_line (f : Frame) :
    f.events = .start :: (List.range 27).map (fun k ↦ .bit (f.line k)) ++ [.stop] := by
  simp [events, byte, Serial.msbFirst, List.range_succ, line]

/-- What is decoded of a frame `c` ticks after it was begun. -/
def emitted (f : Frame) (c : ℕ) : List Event :=
  if c < 2 then []
  else if c < 33 then .start :: (List.range (min (c - 4) 27)).map fun k ↦ .bit (f.line k)
  else f.events

/-- In a slot without acknowledgement the line carries the word with the address before it. -/
theorem line_eq_getLsbD (f : Frame) {k : ℕ} (hk : k < 27) (hslot : k % 9 ≠ 8) :
    f.line k = ((0x34 : BitVec 8) ++ f.word).getLsbD (23 - (k - k / 9)) := by
  rw [line, if_neg (by omega), if_neg (by omega), if_neg (by omega), BitVec.getLsbD_append]
  by_cases haddress : k < 8
  · rw [if_pos haddress, if_neg (by omega)]
    congr 1
    omega
  · rw [if_neg haddress, if_pos (by omega)]

theorem emitted_prefix (f : Frame) {c : ℕ} (hc : c < 33) :
    f.emitted c <+: f.events ∧ f.emitted c ≠ f.events := by
  rw [emitted, events_eq_line]
  split_ifs with hfirst
  · exact ⟨List.nil_prefix, (List.cons_ne_nil _ _).symm⟩
  · have hbits : (List.range (min (c - 4) 27)).map (fun k ↦ Event.bit (f.line k)) =
        ((List.range 27).map fun k ↦ Event.bit (f.line k)).take (c - 4) := by
      rw [← List.map_take, List.take_range]
    rw [hbits]
    refine ⟨List.cons_prefix_cons.mpr ⟨rfl, (List.take_prefix _ _).trans
      (List.prefix_append _ _)⟩, fun heq ↦ ?_⟩
    have hlength := congrArg List.length heq
    simp at hlength
    omega

/-- The decoder `c` ticks after the frame was begun. -/
def decoder (f : Frame) (before : List Event) (c : ℕ) : Decoder where
  last :=
    if 4 ≤ c ∧ c ≤ 30 then ⟨true, f.line (c - 4)⟩
    else ⟨decide (c < 3 ∨ 31 < c), decide (c < 2 ∨ 32 < c)⟩
  pending :=
    if 4 ≤ c ∧ c ≤ 30 then some (f.line (c - 4)) else if c = 32 then some false else none
  decoded := before ++ f.emitted c

theorem decoder_zero (f : Frame) (before : List Event) :
    f.decoder before 0 = ⟨⟨true, true⟩, none, before⟩ := by
  simp [decoder, emitted]

/-- One more slot: the bit of the slot before it is certain, if there is one. -/
theorem decoder_slot (f : Frame) (before : List Event) {c : ℕ} (hlow : 3 ≤ c) (hhigh : c ≤ 29)
    (x : Sample) (hx : x.scl = false) :
    Decoder.step ⟨true, f.line (c + 1 - 4)⟩ (Decoder.step x (f.decoder before c)) =
      f.decoder before (c + 1) := by
  obtain ⟨scl, sda⟩ := x
  obtain rfl : scl = false := hx
  have hslot : 4 ≤ c + 1 ∧ c + 1 ≤ 30 := by omega
  by_cases hfirst : c = 3
  · subst hfirst
    simp [decoder, emitted]
  · have hbits : ((List.range (min (c + 1 - 4) 27)).map fun k ↦ Event.bit (f.line k)) =
        ((List.range (min (c - 4) 27)).map fun k ↦ .bit (f.line k)) ++ [.bit (f.line (c - 4))] := by
      rw [show min (c + 1 - 4) 27 = min (c - 4) 27 + 1 by omega, List.range_succ, List.map_append,
        show min (c - 4) 27 = c - 4 by omega]
      rfl
    simp only [decoder, emitted, if_pos hslot, if_pos (show 4 ≤ c ∧ c ≤ 30 by omega),
      if_neg (show ¬ c < 2 by omega), if_neg (show ¬ c + 1 < 2 by omega),
      if_pos (show c < 33 by omega), if_pos (show c + 1 < 33 by omega), hbits, Decoder.step_low,
      Decoder.step_rise]
    simp

/-- The ticks of a frame outside its slots: START and STOP among them. -/
theorem decoder_edge (f : Frame) (before : List Event) {c : ℕ} (hc : c ≤ 32)
    (hslots : ¬ (4 ≤ c + 1 ∧ c + 1 ≤ 30)) :
    Decoder.step ⟨decide (c + 1 < 3 ∨ 31 < c + 1), decide (c + 1 < 2 ∨ 32 < c + 1)⟩
        (Decoder.step ⟨decide (c + 1 < 3 ∨ 31 < c + 1), decide (c + 1 < 2 ∨ 32 < c + 1)⟩
          (f.decoder before c)) =
      f.decoder before (c + 1) := by
  have hcases : c = 0 ∨ c = 1 ∨ c = 2 ∨ c = 30 ∨ c = 31 ∨ c = 32 := by omega
  rcases hcases with rfl | rfl | rfl | rfl | rfl | rfl
  · simp [decoder, emitted]
  · simp [decoder, emitted]
  · simp [decoder, emitted]
  · simp [decoder, emitted, List.range_succ]
  · simp [decoder, emitted]
  · simp [decoder, emitted, events_eq_line]

end Frame

/-! ### The order of frames -/

/-- A frame for position `pos` may come after the last frame: the first one of a pass is for
position 0 or 3, a pass goes on by one position when all bytes were acknowledged, and ends with
position 10. -/
def Allows : Option Frame → ℕ → Prop
  | none, pos => pos = 0 ∨ pos = 3
  | some f, pos => f.Acknowledged ∧
      (f.pos < 10 ∧ pos = f.pos + 1 ∨ f.pos = 10 ∧ (pos = 0 ∨ pos = 3))

/-- The frames form passes. -/
inductive InOrder : List Frame → Prop
  | nil : InOrder []
  | snoc {frames : List Frame} {f : Frame} (hframes : InOrder frames)
      (hnext : Allows frames.getLast? f.pos) : InOrder (frames ++ [f])

/-- The events are frames in order, the last of which may be under way, begun with what `sent` says
one after the other. -/
def Passes (sent : List (ℕ × BitVec 7)) (events : List Event) : Prop :=
  ∃ frames, InOrder frames ∧ frames.map Frame.begun = sent ∧
    (events = frames.flatMap Frame.events ∨
      ∃ whole f done, frames = whole ++ [f] ∧ done <+: f.events ∧ done ≠ f.events ∧
        events = whole.flatMap Frame.events ++ done)

/-- The STARTs before tick `n`, each with the position and the volume that its tick found. -/
def starts (x : ℕ → Slow) (inputs : ℕ → TickInputs) : ℕ → List (ℕ × BitVec 7)
  | 0 => []
  | n + 1 => starts x inputs n ++
      if (x n).i2c.sdCounter = 1 then [((x n).muxSelect, (inputs n).effectiveVol)] else []

/-! ### The waveform -/

/-- The levels of the lines while the 20 kHz clock is at `clock`; the slave pulls the data line low
in acknowledge slots only. -/
def Sequencer.lines (clock slave : Bool) (r : Sequencer) : Sample :=
  ⟨r.scl clock, r.sdat (slave && r.inAckSlot)⟩

/-- The waveform along a run of the 20 kHz domain: sample `2 * n` is taken before tick `n` and
sample `2 * n + 1` after it, while the clock is high. -/
def waveform (x : ℕ → Slow) (slave : ℕ → Bool) (h : ℕ) : Sample :=
  (x ((h + 1) / 2)).i2c.lines (decide (h % 2 = 1)) (slave h)

/-- The decoder after the first samples of a waveform. -/
def decode (wave : ℕ → Sample) (n : ℕ) : Decoder := Clocked.run Decoder.step .idle wave n

/-- The decoder before tick `n`. -/
def bus (x : ℕ → Slow) (slave : ℕ → Bool) (n : ℕ) : Decoder :=
  decode (waveform x slave) (2 * n + 1)

theorem waveform_odd (x : ℕ → Slow) (slave : ℕ → Bool) (n : ℕ) :
    waveform x slave (2 * n + 1) = (x (n + 1)).i2c.lines true (slave (2 * n + 1)) := by
  rw [waveform, show (2 * n + 1 + 1) / 2 = n + 1 by omega, decide_eq_true (by omega)]

theorem bus_succ (x : ℕ → Slow) (slave : ℕ → Bool) (n : ℕ) :
    bus x slave (n + 1) =
      Decoder.step ((x (n + 1)).i2c.lines false (slave (2 * n + 2)))
        (Decoder.step ((x (n + 1)).i2c.lines true (slave (2 * n + 1))) (bus x slave n)) := by
  have hsecond : waveform x slave (2 * n + 2) =
      (x (n + 1)).i2c.lines false (slave (2 * n + 2)) := by
    rw [waveform, show (2 * n + 2 + 1) / 2 = n + 1 by omega, decide_eq_false (by omega)]
  rw [← waveform_odd, ← hsecond]
  rfl

namespace Slow

variable {start : Slow} (hstart : start.Valid) {inputs : ℕ → TickInputs} {slave : ℕ → Bool}

/-- The frame that is sent if one is begun at tick `b`. -/
def frameAt (inputs : ℕ → TickInputs) (b pos : ℕ) : Frame where
  pos := pos
  effectiveVol := (inputs (b + 1)).effectiveVol
  ack1 := !(inputs (b + 12)).pull
  ack2 := !(inputs (b + 21)).pull
  ack3 := !(inputs (b + 30)).pull

include hstart

section Frame

variable {b pos : ℕ} (hbegin : (start.run inputs b).phase = .frame pos 0)

include hbegin

/-- From its START on a frame sends the word made at it. -/
theorem sd_frame {c : ℕ} (hlow : 2 ≤ c) (hhigh : c ≤ 33) :
    (start.run inputs (b + c)).i2c.sd = (0x34 : BitVec 8) ++ (frameAt inputs b pos).word := by
  induction c with
  | zero => omega
  | succ c ih =>
    have hcount := sdCounter_frame hstart inputs hbegin (show c ≤ 33 by omega)
    have hsd := (start.run inputs (b + c)).i2c.registers_transfer
    rw [← Nat.add_assoc, run_succ, tick, Sequencer.tick, (hsd _ _).2.2.2, hcount]
    by_cases hload : c = 1
    · have hphase := phase_frame hstart inputs hbegin (show 1 ≤ 33 by omega)
      rw [if_pos hload, hload, i2cControllerData, muxSelect_of_frame hphase]
      rfl
    · rw [if_neg hload]
      exact ih (by omega) (by omega)

/-- SCL in a frame. -/
theorem scl_frame (clock : Bool) {c : ℕ} (hc : c ≤ 33) :
    (start.run inputs (b + c)).i2c.scl clock =
      (decide (c < 3 ∨ 31 < c) || (decide (4 ≤ c ∧ c ≤ 30) && !clock)) := by
  have hphase := phase_frame hstart inputs hbegin hc
  have hframe := (inFrame_of_frame (valid_run hstart inputs (b + c)) hphase).2
  rw [Sequencer.scl, hframe.sclk, sdCounter_frame hstart inputs hbegin hc]

/-- SDA in a frame outside the slots. -/
theorem sda_frame (level : Bool) {c : ℕ} (hc : c ≤ 33) (hslots : ¬ (4 ≤ c ∧ c ≤ 30)) :
    (start.run inputs (b + c)).i2c.sdat
        (level && (start.run inputs (b + c)).i2c.inAckSlot) = decide (c < 2 ∨ 32 < c) := by
  have hphase := phase_frame hstart inputs hbegin hc
  have hframe := (inFrame_of_frame (valid_run hstart inputs (b + c)) hphase).2
  have hack : (start.run inputs (b + c)).i2c.inAckSlot = false := by
    rw [Sequencer.inAckSlot, sdCounter_frame hstart inputs hbegin hc]
    exact decide_eq_false (by omega)
  rw [Sequencer.sdat, hframe.sdo, hack, Bool.and_false, Bool.not_false, Bool.and_true,
    Sequencer.driven]
  split_ifs <;> simp <;> omega

/-- SDA in a slot of a frame. -/
theorem sda_slot (hpull : ∀ n, (inputs n).pull = slave (2 * n)) {c : ℕ} (hlow : 4 ≤ c)
    (hhigh : c ≤ 30) :
    (start.run inputs (b + c)).i2c.sdat
        (slave (2 * (b + c)) && (start.run inputs (b + c)).i2c.inAckSlot) =
      (frameAt inputs b pos).line (c - 4) := by
  have hphase := phase_frame hstart inputs hbegin (show c ≤ 33 by omega)
  have hframe := (inFrame_of_frame (valid_run hstart inputs (b + c)) hphase).2
  have hdriven : (start.run inputs (b + c)).i2c.driven c =
      (start.run inputs (b + c)).i2c.slot (c - 4) := by
    rw [Sequencer.driven, if_neg (by omega), if_neg (by omega), if_pos (by omega)]
  rw [Sequencer.sdat, hframe.sdo, hdriven, Sequencer.slot, Sequencer.inAckSlot,
    sdCounter_frame hstart inputs hbegin (show c ≤ 33 by omega), ← hpull]
  by_cases hack : c = 12 ∨ c = 21 ∨ c = 30
  · rw [if_pos (by omega), decide_eq_true hack, Bool.true_and, Bool.and_true, Frame.line]
    rcases hack with rfl | rfl | rfl <;> rfl
  · rw [if_neg (by omega), decide_eq_false hack, Bool.and_false, Bool.not_false, Bool.and_true,
      sd_frame hstart hbegin (by omega) (by omega), Frame.line_eq_getLsbD _ (by omega) (by omega)]

/-- The lines in a frame outside the slots. -/
theorem lines_frame (clock level : Bool) {c : ℕ} (hc : c ≤ 33) (hslots : ¬ (4 ≤ c ∧ c ≤ 30)) :
    (start.run inputs (b + c)).i2c.lines clock level =
      ⟨decide (c < 3 ∨ 31 < c), decide (c < 2 ∨ 32 < c)⟩ := by
  rw [Sequencer.lines, scl_frame hstart hbegin clock hc, sda_frame hstart hbegin level hc hslots,
    decide_eq_false hslots, Bool.false_and, Bool.or_false]

/-- The two samples of a slot of a frame. -/
theorem lines_slot (hpull : ∀ n, (inputs n).pull = slave (2 * n)) {c : ℕ} (hlow : 4 ≤ c)
    (hhigh : c ≤ 30) :
    (∀ level, ((start.run inputs (b + c)).i2c.lines true level).scl = false) ∧
      (start.run inputs (b + c)).i2c.lines false (slave (2 * (b + c))) =
        ⟨true, (frameAt inputs b pos).line (c - 4)⟩ := by
  have hscl : ∀ clock, (start.run inputs (b + c)).i2c.scl clock = !clock := by
    intro clock
    rw [scl_frame hstart hbegin clock (by omega), decide_eq_false (by omega), Bool.false_or,
      decide_eq_true ⟨hlow, hhigh⟩, Bool.true_and]
  refine ⟨fun level ↦ hscl true, ?_⟩
  rw [Sequencer.lines, hscl, sda_slot hstart hbegin hpull hlow hhigh, Bool.not_false]

/-- Along a frame the decoder follows it slot by slot. -/
theorem bus_frame (hpull : ∀ n, (inputs n).pull = slave (2 * n)) {before : List Event}
    (hbus : bus (start.run inputs) slave b = ⟨⟨true, true⟩, none, before⟩) {c : ℕ} (hc : c ≤ 33) :
    bus (start.run inputs) slave (b + c) = (frameAt inputs b pos).decoder before c := by
  induction c with
  | zero => rw [Nat.add_zero, hbus, Frame.decoder_zero]
  | succ c ih =>
    rw [← Nat.add_assoc, bus_succ, ih (by omega), Nat.add_assoc]
    by_cases hslot : 4 ≤ c + 1 ∧ c + 1 ≤ 30
    · obtain ⟨hlow, hhigh⟩ := lines_slot hstart hbegin hpull hslot.1 hslot.2
      rw [show 2 * (b + c) + 2 = 2 * (b + (c + 1)) by omega, hhigh]
      exact Frame.decoder_slot _ before (by omega) (by omega) _ (hlow _)
    · rw [lines_frame hstart hbegin _ _ hc hslot, lines_frame hstart hbegin _ _ hc hslot]
      exact Frame.decoder_edge _ before (by omega) hslot

end Frame

/-- A frame has one START, at its first count. -/
theorem starts_frame {b pos : ℕ} (hbegin : (start.run inputs b).phase = .frame pos 0) {c : ℕ}
    (hc : c ≤ 33) : starts (start.run inputs) inputs (b + c) = starts (start.run inputs) inputs b ++
      if 2 ≤ c then [(frameAt inputs b pos).begun] else [] := by
  induction c with
  | zero => exact (List.append_nil _).symm
  | succ c ih =>
    rw [← Nat.add_assoc, starts, ih (by omega), sdCounter_frame hstart inputs hbegin (by omega)]
    by_cases hone : c = 1
    · have hmux := muxSelect_of_frame (phase_frame hstart inputs hbegin (show c ≤ 33 by omega))
      rw [hmux, if_pos hone, if_neg (by omega), if_pos (by omega), List.append_nil, hone]
      rfl
    · rw [if_neg hone, List.append_nil,
        if_congr (show 2 ≤ c ↔ 2 ≤ c + 1 by omega) rfl rfl]

/-- The controller is not in the ticks of a frame in which the lines move. -/
def Rests (p : Phase) : Prop := ∀ pos c, p = .frame pos c → c = 0 ∨ 33 < c

omit hstart in
theorem rests_of_begin {p : Phase} {pos : ℕ} (hbegin : p = .frame pos 0) : Rests p := by
  rintro pos' c hframe
  rw [hbegin] at hframe
  cases hframe
  exact .inl rfl

/-- Between two frames there is no START. -/
theorem starts_rests {n : ℕ} (hrests : Rests (start.run inputs n).phase) :
    starts (start.run inputs) inputs (n + 1) = starts (start.run inputs) inputs n := by
  rw [starts, if_neg fun hcounter ↦ ?_, List.append_nil]
  have hframe := frame_of_sdCounter (valid_run hstart inputs n) (by omega) (by omega)
  have hmid := hrests _ _ hframe
  omega

/-- Where the lines move, a frame was begun not long ago. -/
theorem begin_of_not_rests (hjump : start.phase = .jump) {n : ℕ}
    (hmoves : ¬ Rests (start.run inputs n).phase) :
    ∃ b c pos, n = b + c ∧ 1 ≤ c ∧ c ≤ 33 ∧ (start.run inputs b).phase = .frame pos 0 := by
  obtain ⟨pos, c, hphase, hmid⟩ : ∃ pos c, (start.run inputs n).phase = .frame pos c ∧
      ¬ (c = 0 ∨ 33 < c) := by
    simpa only [Rests, not_forall, exists_prop] using hmoves
  obtain ⟨hle, hbegin⟩ := phase_begin hstart inputs hjump hphase
  exact ⟨n - c, c, pos, (Nat.sub_add_cancel hle).symm, by omega, by omega, hbegin⟩

/-- Outside frames both lines are high. -/
theorem lines_of_rests (clock level : Bool) {n : ℕ} (hrests : Rests (start.run inputs n).phase) :
    (start.run inputs n).i2c.lines clock level = ⟨true, true⟩ := by
  have hvalid := valid_run hstart inputs n
  obtain ⟨hcounter, hsclk, hsdo⟩ : ¬ (4 ≤ (start.run inputs n).i2c.sdCounter ∧
        (start.run inputs n).i2c.sdCounter ≤ 30) ∧
      (start.run inputs n).i2c.sclk = true ∧ (start.run inputs n).i2c.sdo = true := by
    rw [Valid] at hvalid
    cases hphase : (start.run inputs n).phase with
    | jump =>
      rw [hphase] at hvalid
      exact ⟨by have := hvalid.1; omega, hvalid.2⟩
    | frame pos c =>
      rw [hphase] at hvalid hrests
      obtain ⟨-, hframe⟩ := hvalid
      have hcounter := hframe.sdCounter
      have hsclk := hframe.sclk
      have hsdo := hframe.sdo
      have hrest := hrests pos c rfl
      refine ⟨by split_ifs at hcounter <;> omega, ?_, ?_⟩
      · rw [hsclk]
        exact decide_eq_true (by omega)
      · rw [hsdo, Sequencer.driven]
        rcases hrest with rfl | hlast
        · rfl
        · rw [if_neg (by omega), if_neg (by omega), if_neg (by omega), decide_eq_true (by omega)]
    | finished =>
      rw [hphase] at hvalid
      exact ⟨by rw [hvalid.sdCounter]; omega, hvalid.sclk, hvalid.sdo⟩
    | hung pos =>
      rw [hphase] at hvalid
      exact ⟨by have := hvalid.2.lt; omega, hvalid.2.sclk, hvalid.2.sdo⟩
    | stop =>
      rw [hphase] at hvalid
      exact ⟨by rw [hvalid.sdCounter]; omega, hvalid.sclk, hvalid.sdo⟩
  have hack : (start.run inputs n).i2c.inAckSlot = false := decide_eq_false (by omega)
  rw [Sequencer.lines, Sequencer.scl, Sequencer.sdat, hsclk, hsdo, hack, Bool.true_or,
    Bool.and_false, Bool.not_false, Bool.and_true]

/-- While both lines are high nothing is decoded. -/
theorem bus_rests {n : ℕ} {pending : Option Bool} {before : List Event}
    (hbus : bus (start.run inputs) slave n = ⟨⟨true, true⟩, pending, before⟩)
    (hrests : Rests (start.run inputs (n + 1)).phase) :
    bus (start.run inputs) slave (n + 1) = ⟨⟨true, true⟩, pending, before⟩ := by
  rw [bus_succ, hbus, lines_of_rests hstart _ _ hrests, lines_of_rests hstart _ _ hrests,
    Decoder.step_same, Decoder.step_same]

omit hstart in
/-- What the last frame has to be in each phase between two frames. -/
def Ready (last : Option Frame) : Phase → Prop
  | .frame pos c =>
    if c = 0 then Allows last pos else ∃ f, last = some f ∧ f.pos = pos ∧ f.Acknowledged
  | .hung _ => True
  | _ => Allows last 0 ∧ Allows last 3

omit hstart in
theorem ready_next {last : Option Frame} {p : Phase} (hready : Ready last p) (hrests : Rests p)
    (hpos : ∀ pos c, p = .frame pos c → pos ≤ 10) {nack leaves volume : Bool}
    (hnext : Rests (p.next nack leaves volume)) : Ready last (p.next nack leaves volume) := by
  cases p with
  | jump =>
    cases volume
    · exact hready.1
    · exact hready.2
  | frame pos c =>
    have hle := hpos pos c rfl
    rcases hrests pos c rfl with rfl | hlast
    · have hmoves := hnext pos 1 rfl
      omega
    · rw [Ready, if_neg (by omega)] at hready
      obtain ⟨f, rfl, rfl, hacked⟩ := hready
      rw [Phase.next, if_neg (by omega), if_neg (by omega)]
      split_ifs with hturn hlt
      · exact ⟨f, rfl, rfl, hacked⟩
      · exact ⟨hacked, .inl ⟨hlt, rfl⟩⟩
      · have hten : f.pos = 10 := by omega
        exact ⟨⟨hacked, .inr ⟨hten, .inl rfl⟩⟩, hacked, .inr ⟨hten, .inr rfl⟩⟩
  | finished => exact hready
  | hung pos => exact hready
  | stop =>
    cases leaves
    · exact hready
    · exact hready

/-- Between two frames the bus carries whole frames in order. -/
theorem bus_between (hjump : start.phase = .jump)
    (hpull : ∀ n, (inputs n).pull = slave (2 * n)) (n : ℕ)
    (hrests : Rests (start.run inputs n).phase) :
    ∃ frames, InOrder frames ∧ frames.map Frame.begun = starts (start.run inputs) inputs n ∧
      bus (start.run inputs) slave n = ⟨⟨true, true⟩, none, frames.flatMap Frame.events⟩ ∧
      Ready frames.getLast? (start.run inputs n).phase := by
  induction n using Nat.strong_induction_on with
  | h n ih =>
  cases n with
  | zero =>
    refine ⟨[], .nil, rfl, ?_, ?_⟩
    · have hlines := lines_of_rests hstart false (slave 0) hrests
      change Decoder.step ((start.run inputs 0).i2c.lines false (slave 0)) .idle = _
      rw [hlines]
      rfl
    · change Ready none start.phase
      rw [hjump]
      exact ⟨.inl rfl, .inr rfl⟩
  | succ n =>
    by_cases hbefore : Rests (start.run inputs n).phase
    · obtain ⟨frames, horder, hsent, hbus, hready⟩ := ih n (Nat.lt_succ_self n) hbefore
      refine ⟨frames, horder, hsent.trans (starts_rests hstart hbefore).symm,
        bus_rests hstart hbus hrests, ?_⟩
      rw [phase_run_succ hstart] at hrests ⊢
      exact ready_next hready hbefore
        (fun pos c hphase ↦ (inFrame_of_frame (valid_run hstart inputs n) hphase).1) hrests
    · -- the tick before was the last one of a frame
      obtain ⟨b, c, pos, rfl, hlow, hhigh, hbegin⟩ := begin_of_not_rests hstart hjump hbefore
      have hphase := phase_frame hstart inputs hbegin hhigh
      have hlast : c = 33 := by
        by_contra hne
        have hnext := phase_frame hstart inputs hbegin (show c + 1 ≤ 33 by omega)
        have := hrests pos (c + 1) hnext
        omega
      subst hlast
      obtain ⟨frames, horder, hsent, hbus, hready⟩ := ih b (by omega) (rests_of_begin hbegin)
      rw [hbegin] at hready
      have hend := bus_frame hstart hbegin hpull hbus (le_refl 33)
      have hack := ackO_frame hstart inputs hbegin
      have hcounter := sdCounter_frame hstart inputs hbegin (le_refl 33)
      refine ⟨frames ++ [frameAt inputs b pos], .snoc horder hready, ?_, ?_, ?_⟩
      · rw [starts, if_neg (by omega), List.append_nil, starts_frame hstart hbegin (le_refl 33),
          if_pos (by omega), ← hsent, List.map_append]
        rfl
      · refine bus_rests hstart ?_ hrests
        rw [hend]
        simp [Frame.decoder, Frame.emitted]
      · rw [phase_run_succ hstart, hphase, hack]
        cases hpulls : (inputs (b + 12)).pull && (inputs (b + 21)).pull && (inputs (b + 30)).pull
        · trivial
        · refine ⟨_, List.getLast?_concat, rfl, ?_⟩
          simpa [Frame.Acknowledged, frameAt, and_assoc] using hpulls

/-- Before every tick the bus has carried passes. -/
theorem passes_bus (hjump : start.phase = .jump) (hpull : ∀ n, (inputs n).pull = slave (2 * n))
    (n : ℕ) : Passes (starts (start.run inputs) inputs n)
      (bus (start.run inputs) slave n).decoded := by
  by_cases hrests : Rests (start.run inputs n).phase
  · obtain ⟨frames, horder, hsent, hbus, -⟩ := bus_between hstart hjump hpull n hrests
    exact ⟨frames, horder, hsent, .inl (by rw [hbus])⟩
  · obtain ⟨b, c, pos, rfl, -, hhigh, hbegin⟩ := begin_of_not_rests hstart hjump hrests
    obtain ⟨frames, horder, hsent, hbus, hready⟩ :=
      bus_between hstart hjump hpull b (rests_of_begin hbegin)
    rw [hbegin] at hready
    rw [bus_frame hstart hbegin hpull hbus hhigh, Frame.decoder, starts_frame hstart hbegin hhigh]
    set f := frameAt inputs b pos
    have hsnoc : InOrder (frames ++ [f]) := .snoc horder hready
    by_cases hbegun : 2 ≤ c
    · refine ⟨frames ++ [f], hsnoc, by rw [if_pos hbegun, ← hsent, List.map_append]; rfl, ?_⟩
      by_cases hend : c < 33
      · obtain ⟨hleading, hne⟩ := f.emitted_prefix hend
        exact .inr ⟨frames, f, _, rfl, hleading, hne, rfl⟩
      · exact .inl (by simp [Frame.emitted, hend, show ¬ c < 2 by omega])
    · refine ⟨frames, horder, by rw [if_neg hbegun, List.append_nil, hsent], .inl ?_⟩
      simp [Frame.emitted, Nat.not_le.mp hbegun]

/-- The second sample of a tick decodes to nothing new. -/
theorem decoded_second (hjump : start.phase = .jump) (slave : ℕ → Bool) (n : ℕ) :
    (decode (waveform (start.run inputs) slave) (2 * (n + 1))).decoded =
      (bus (start.run inputs) slave (n + 1)).decoded := by
  have hfirst : decode (waveform (start.run inputs) slave) (2 * (n + 1)) =
      Decoder.step ((start.run inputs (n + 1)).i2c.lines true (slave (2 * n + 1)))
        (bus (start.run inputs) slave n) := by
    rw [← waveform_odd]
    rfl
  rw [hfirst, bus_succ]
  by_cases hrests : Rests (start.run inputs (n + 1)).phase
  · rw [lines_of_rests hstart _ _ hrests, lines_of_rests hstart _ _ hrests,
      Decoder.decoded_step_step]
  · obtain ⟨b, c, pos, hn, -, hhigh, hbegin⟩ := begin_of_not_rests hstart hjump hrests
    rw [hn]
    by_cases hslot : 4 ≤ c ∧ c ≤ 30
    · have hfirst := scl_frame hstart hbegin true hhigh
      have hsecond := scl_frame hstart hbegin false hhigh
      rw [decide_eq_false (by omega), decide_eq_true hslot] at hfirst hsecond
      simp [Sequencer.lines, hfirst, hsecond, Decoder.step]
    · rw [lines_frame hstart hbegin _ _ hhigh hslot, lines_frame hstart hbegin _ _ hhigh hslot,
        Decoder.decoded_step_step]

end Slow

/-! ### The waveform of the controller -/

/-- The half period of the 20 kHz clock in which cycle `t` after a reset lies. -/
def halfPeriod (t : ℕ) : ℕ := (t + 1249) / 2500 + t / 2500

/-- The edge of the 50 MHz clock after which half period `h` begins. -/
def halfPeriodStart (h : ℕ) : ℕ := 2500 * (h / 2) + if h % 2 = 1 then 1251 else 0

section Released

variable (s : State) (signals : ℕ → Signals) (slave : ℕ → Bool)

/-- A slave that holds its answer for half a period of the 20 kHz clock: `slave h` tells whether it
pulls the data line low in half period `h`, if that belongs to an acknowledge slot. -/
def heldAnswers (slave : ℕ → Bool) (t : ℕ) : Bool := slave (halfPeriod t)

/-- The half periods begin where the 20 kHz clock changes. -/
theorem clock_changes_iff (answers : ℕ → Bool) (t : ℕ) :
    (released s signals answers (t + 1)).i2cClock20KHz ≠
        (released s signals answers t).i2cClock20KHz ↔
      ∃ h, halfPeriodStart (h + 1) = t + 1 := by
  rw [i2cClock20KHz_released, i2cClock20KHz_released, ne_eq, decide_eq_decide]
  constructor
  · intro hchange
    refine ⟨halfPeriod t, ?_⟩
    rw [halfPeriodStart, halfPeriod]
    split_ifs <;> omega
  · rintro ⟨h, hstart⟩
    rw [halfPeriodStart] at hstart
    split_ifs at hstart <;> omega

/-- The lines after every edge of the 20 kHz clock, the first sample being that after the reset. -/
def sampledLines (s : State) (signals : ℕ → Signals) (slave : ℕ → Bool) (h : ℕ) : Sample :=
  let s' := released s signals (heldAnswers slave) (halfPeriodStart h)
  s'.slow.i2c.lines s'.i2cClock20KHz (slave h)

theorem sampledLines_eq :
    sampledLines s signals slave = waveform (beforeTick s signals (heldAnswers slave)) slave := by
  funext h
  have hticks : (halfPeriodStart h + 1249) / 2500 = (h + 1) / 2 := by
    rw [halfPeriodStart]
    split_ifs <;> omega
  have hclock : 1250 < halfPeriodStart h % 2500 ↔ h % 2 = 1 := by
    rw [halfPeriodStart]
    split_ifs <;> omega
  rw [sampledLines, waveform, slow_released, i2cClock20KHz_released, hticks,
    decide_eq_decide.mpr hclock]

/-- After a reset, whatever the buttons and the slave do, the decoded waveform is a sequence of
passes of whole frames, the last of which may be under way: one frame for each START, with the word
of the position and the volume that this START found. -/
theorem passes_sampledLines (n : ℕ) :
    Passes (starts (beforeTick s signals (heldAnswers slave))
        (tickInputs s.asyncReset signals (heldAnswers slave)) (n / 2))
      (decode (sampledLines s signals slave) n).decoded := by
  have hvalid := Slow.valid_asyncReset s.slow
  have hjump := Slow.phase_asyncReset s.slow
  have hpull : ∀ n, (tickInputs s.asyncReset signals (heldAnswers slave) n).pull =
      slave (2 * n) := by
    intro n
    have hhalf : halfPeriod (1250 + 2500 * n) = 2 * n := by rw [halfPeriod]; omega
    rw [tickInputs, tickEdge_asyncReset]
    exact congrArg slave hhalf
  have hpasses := Slow.passes_bus hvalid hjump hpull
  rw [sampledLines_eq, funext (beforeTick_eq_run s signals (heldAnswers slave))]
  rcases Nat.even_or_odd' n with ⟨m, rfl | rfl⟩
  · cases m with
    | zero => exact ⟨[], .nil, rfl, .inl rfl⟩
    | succ m =>
      rw [Slow.decoded_second hvalid hjump, Nat.mul_div_cancel_left _ Nat.two_pos]
      exact hpasses (m + 1)
  · rw [show (2 * m + 1) / 2 = m by omega]
    exact hpasses m

end Released

end AudioProcessor.Codec
