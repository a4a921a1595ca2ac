import AudioProcessor.Codec.Controller
import Mathlib.Tactic.IntervalCases

/-!
# The phases of a pass

An abstract model of the 20 kHz domain. A pass sends the words of the register index one after the
other, each in a frame of 36 ticks, and `Phase` says where in a pass the controller is. `Slow.phase`
reads the phase off the registers, `Slow.Valid` is the invariant that makes it meaningful, and
`Slow.phase_tick` shows that every tick takes the phase to `Phase.next`: the registers refine the
phase machine. What the sequencer drives in each phase is part of the invariant
(`Sequencer.InFrame`).

After a byte that was not acknowledged the state machine goes back and forth between `transmit` and
`checkAcknowledge` with `i2cRun` high in both, so the sequencer's counter is never cleared: the
phase `hung` is left by a reset only.
-/

set_option autoImplicit false
set_option relaxedAutoImplicit false

namespace AudioProcessor.Codec

/-! ### The sequencer in a frame -/

/-- The acknowledge slots: the counts from the fall of SCL before the slot to the fall that ends
it, the only ones at which the sequencer reads the data line. -/
def Sequencer.inAckSlot (r : Sequencer) : Bool :=
  decide (r.sdCounter = 12 ∨ r.sdCounter = 21 ∨ r.sdCounter = 30)

/-- What the sequencer drives in slot `k` of a frame: eight bits of the word from the top, then a
released line for the acknowledgement. -/
def Sequencer.slot (r : Sequencer) (k : ℕ) : Bool :=
  if k % 9 = 8 then true else r.sd.getLsbD (23 - (k - k / 9))

/-- The data line `c` ticks after a frame was begun. -/
def Sequencer.driven (r : Sequencer) (c : ℕ) : Bool :=
  if c < 2 then true
  else if c < 4 then false
  else if c < 31 then r.slot (c - 4)
  else decide (32 < c)

/-- The registers of the sequencer `c` ticks after a frame was begun. -/
structure Sequencer.InFrame (c : ℕ) (r : Sequencer) : Prop where
  le : c ≤ 35
  sdCounter : r.sdCounter = if c = 35 then 0 else c
  sclk : r.sclk = decide (c < 3 ∨ 31 < c)
  sdo : r.sdo = r.driven c
  i2cEnd : 1 ≤ c → r.i2cEnd = decide (32 < c)

/-- The sequencer at rest between two frames. -/
structure Sequencer.Resting (r : Sequencer) : Prop where
  sdCounter : r.sdCounter = 0
  sclk : r.sclk = true
  sdo : r.sdo = true

/-- The registers of the sequencer after a frame whose end was not followed by a low `GO`. -/
structure Sequencer.Hung (r : Sequencer) : Prop where
  lt : 33 < r.sdCounter
  le : r.sdCounter ≤ 63
  sclk : r.sclk = true
  sdo : r.sdo = true
  i2cEnd : r.i2cEnd = true
  ackO : r.ackO = true

/-- Outside the acknowledge slots the sequencer does not read the data line. -/
theorem Sequencer.transfer_sdat (data : BitVec 24) (sdat : Bool) {r : Sequencer}
    (h : r.inAckSlot = false) : r.transfer data sdat = r.transfer data true := by
  simp only [inAckSlot, decide_eq_false_iff_not, not_or] at h
  obtain ⟨h12, h21, h30⟩ := h
  unfold transfer
  split <;> first | rfl | omega

/-- From count 33 on nothing is driven any more. -/
theorem Sequencer.transfer_rests (data : BitVec 24) (sdat : Bool) {r : Sequencer}
    (h : 32 < r.sdCounter) : r.transfer data sdat = r := by
  unfold transfer
  split <;> first | rfl | omega

/-- With `GO` low the sequencer comes to rest from the counts at which it drives nothing. -/
theorem Sequencer.tick_stopped (data : BitVec 24) (sdat : Bool) {r : Sequencer}
    (hcounter : r.sdCounter = 0 ∨ 32 < r.sdCounter) (hsclk : r.sclk = true) (hsdo : r.sdo = true) :
    (r.tick false data sdat).Resting := by
  rcases hcounter with hzero | hlast
  · exact ⟨rfl, by simp [tick, transfer, hzero], by simp [tick, transfer, hzero]⟩
  · rw [tick, transfer_rests data sdat hlast]
    exact ⟨rfl, hsclk, hsdo⟩

/-- A frame goes on as long as `GO` is high. -/
theorem Sequencer.InFrame.tick (data : BitVec 24) (sdat : Bool) {c : ℕ} {r : Sequencer}
    (h : r.InFrame c) (hc : c ≤ 32) : (r.tick true data sdat).InFrame (c + 1) := by
  obtain ⟨counter, sclk, sdo, i2cEnd, ack1, ack2, ack3, sd⟩ := r
  obtain ⟨-, hcounter, hsclk, hsdo, hend⟩ := h
  simp only at hcounter hsclk hsdo hend
  rw [if_neg (by omega)] at hcounter
  subst hcounter
  interval_cases counter <;>
    refine ⟨Nat.le_of_ble_eq_true rfl, rfl, ?_, ?_, fun _ ↦ ?_⟩ <;>
    first | rfl | exact hsclk | exact hsdo | exact hend (Nat.le_of_ble_eq_true rfl)

/-! ### The phase machine -/

/-- The phases of the controller: on its way into a pass, `ticks` ticks after it began the frame of
position `pos`, past the last position, hanging at a position, or stopped. -/
inductive Phase
  | jump
  | frame (pos ticks : ℕ)
  | finished
  | hung (pos : ℕ)
  | stop
deriving DecidableEq

/-- The phase after a tick: `nack` tells whether some byte was not acknowledged, `leaves` whether
the inputs make the controller leave `stop`, and `volume` whether a pass skips to the volume
registers. -/
def Phase.next (nack leaves volume : Bool) : Phase → Phase
  | .jump => .frame (if volume then 3 else 0) 0
  | .frame pos ticks =>
    if ticks < 33 then .frame pos (ticks + 1)
    else if ticks = 33 then (if nack then .hung pos else .frame pos 34)
    else if ticks = 34 then .frame pos 35
    else if pos < 10 then .frame (pos + 1) 0 else .finished
  | .finished => .stop
  | .hung pos => .hung pos
  | .stop => if leaves then .jump else .stop

/-- The phase of the registers. -/
def Slow.phase (s : Slow) : Phase :=
  match s.currentState with
  | .resetState => .jump
  | .transmit =>
    if s.muxSelect > 10 then .finished
    else if s.i2c.sdCounter = 0 then .frame s.muxSelect 0 else .hung s.muxSelect
  | .checkAcknowledge =>
    if 1 ≤ s.i2c.sdCounter ∧ s.i2c.sdCounter ≤ 33 then .frame s.muxSelect s.i2c.sdCounter
    else .hung s.muxSelect
  | .turnOffi2cControl => .frame s.muxSelect 34
  | .incrementMuxSelectBits => .frame s.muxSelect 35
  | .stop => .stop

section Phase

variable {s : Slow}

theorem Slow.phase_of_resetState (hstate : s.currentState = .resetState) : s.phase = .jump := by
  rw [phase, hstate]

theorem Slow.phase_of_transmit (hstate : s.currentState = .transmit) : s.phase =
    if s.muxSelect > 10 then .finished
    else if s.i2c.sdCounter = 0 then .frame s.muxSelect 0 else .hung s.muxSelect := by
  rw [phase, hstate]

theorem Slow.phase_of_checkAcknowledge (hstate : s.currentState = .checkAcknowledge) : s.phase =
    if 1 ≤ s.i2c.sdCounter ∧ s.i2c.sdCounter ≤ 33 then .frame s.muxSelect s.i2c.sdCounter
    else .hung s.muxSelect := by
  rw [phase, hstate]

theorem Slow.phase_of_turnOff (hstate : s.currentState = .turnOffi2cControl) :
    s.phase = .frame s.muxSelect 34 := by
  rw [phase, hstate]

theorem Slow.phase_of_increment (hstate : s.currentState = .incrementMuxSelectBits) :
    s.phase = .frame s.muxSelect 35 := by
  rw [phase, hstate]

theorem Slow.phase_of_stop (hstate : s.currentState = .stop) : s.phase = .stop := by
  rw [phase, hstate]

end Phase

/-- What the sequencer does in each phase. -/
def Phase.Drives : Phase → Sequencer → Prop
  | .jump, r => (r.sdCounter = 0 ∨ 32 < r.sdCounter) ∧ r.sclk = true ∧ r.sdo = true
  | .frame pos ticks, r => pos ≤ 10 ∧ r.InFrame ticks
  | .finished, r => r.Resting
  | .hung pos, r => pos ≤ 10 ∧ r.Hung
  | .stop, r => r.Resting

/-- The invariant of the 20 kHz domain. -/
def Slow.Valid (s : Slow) : Prop := s.phase.Drives s.i2c

/-- The reset branches establish the invariant. -/
theorem Slow.valid_asyncReset (s : Slow) : s.asyncReset.Valid :=
  ⟨.inr (show 32 < 63 by decide), rfl, rfl⟩

@[simp] theorem Slow.phase_asyncReset (s : Slow) : s.asyncReset.phase = .jump := rfl

/-! ### What a tick does in each state -/

section Tick

variable (i : TickInputs) {s : Slow}

theorem Sequencer.Resting.inFrame {r : Sequencer} (h : r.Resting) : r.InFrame 0 :=
  ⟨Nat.zero_le 35, h.sdCounter, h.sclk, h.sdo, fun hpos ↦ absurd hpos (Nat.not_succ_le_zero 0)⟩

/-- A finished frame goes on to count 34 and hangs there if it was not acknowledged. -/
theorem Sequencer.InFrame.tick_last (data : BitVec 24) (sdat : Bool) {r : Sequencer}
    (h : r.InFrame 33) : (r.tick true data sdat).InFrame 34 := by
  have hcounter : r.sdCounter = 33 := h.sdCounter
  rw [Sequencer.tick, transfer_rests data sdat (by omega)]
  exact ⟨by omega, by simp [nextCounter, hcounter], h.sclk, h.sdo, fun _ ↦ h.i2cEnd (by omega)⟩

/-- The tick that takes `GO` away keeps the end flag of the frame. -/
theorem Sequencer.InFrame.tick_turnOff (data : BitVec 24) (sdat : Bool) {r : Sequencer}
    (h : r.InFrame 34) : (r.tick false data sdat).InFrame 35 := by
  have hcounter : r.sdCounter = 34 := h.sdCounter
  rw [Sequencer.tick, transfer_rests data sdat (by omega)]
  exact ⟨by omega, rfl, h.sclk, h.sdo, fun _ ↦ h.i2cEnd (by omega)⟩

/-- Hanging goes on as long as `GO` is high. -/
theorem Sequencer.tick_hung (data : BitVec 24) (sdat : Bool) {r : Sequencer}
    (hcounter : 32 < r.sdCounter) (hle : r.sdCounter ≤ 63) (hsclk : r.sclk = true)
    (hsdo : r.sdo = true) (hend : r.i2cEnd = true) (hack : r.ackO = true) :
    (r.tick true data sdat).Hung := by
  rw [Sequencer.tick, transfer_rests data sdat hcounter]
  refine ⟨?_, ?_, hsclk, hsdo, hend, hack⟩
  · show 33 < r.nextCounter true
    simp only [nextCounter, Bool.not_true, Bool.false_eq_true, if_false]
    split_ifs <;> omega
  · show r.nextCounter true ≤ 63
    simp only [nextCounter, Bool.not_true, Bool.false_eq_true, if_false]
    split_ifs <;> omega

/-- One tick takes the phase to `p`, with the sequencer driving what belongs to it. -/
def Slow.TicksTo (i : TickInputs) (s : Slow) (p : Phase) : Prop :=
  (s.tick i).phase = p ∧ p.Drives (s.tick i).i2c

namespace Slow

theorem ticksTo_resetState (h : s.Valid) (hstate : s.currentState = .resetState) :
    s.TicksTo i (.frame (if i.pulse then 3 else 0) 0) := by
  rw [Valid, phase_of_resetState hstate] at h
  have hrest := Sequencer.tick_stopped (i2cControllerData i s) (s.i2c.sdat i.pull) h.1 h.2.1 h.2.2
  have hmux : (if i.pulse then 3 else 0) ≤ 10 := by split_ifs <;> omega
  refine ⟨?_, hmux, ?_⟩
  · have hgt : ¬ (if i.pulse then 3 else 0) > 10 := by omega
    simp only [phase, tick, nextState, nextMuxSelect, hstate, i2cRun, hrest.sdCounter, if_neg hgt,
      if_true]
  · simpa [tick, i2cRun, hstate] using hrest.inFrame

theorem ticksTo_stop (h : s.Valid) (hstate : s.currentState = .stop) :
    s.TicksTo i (if s.leavesStop i.before then .jump else .stop) := by
  rw [Valid, phase_of_stop hstate] at h
  have hrest := Sequencer.tick_stopped (i2cControllerData i s) (s.i2c.sdat i.pull)
    (.inl h.sdCounter) h.sclk h.sdo
  cases hleave : s.leavesStop i.before
  · exact ⟨by simp [phase, tick, nextState, hstate, hleave], by simpa [tick, i2cRun, hstate]⟩
  · refine ⟨by simp [phase, tick, nextState, hstate, hleave], ?_⟩
    simp [tick, i2cRun, hstate, Phase.Drives, hrest.sdCounter, hrest.sclk, hrest.sdo]

theorem ticksTo_turnOff (h : s.Valid) (hstate : s.currentState = .turnOffi2cControl) :
    s.TicksTo i (.frame s.muxSelect 35) := by
  rw [Valid, phase_of_turnOff hstate] at h
  have hframe := h.2.tick_turnOff (i2cControllerData i s) (s.i2c.sdat i.pull)
  refine ⟨by simp [phase, tick, nextState, nextMuxSelect, hstate], h.1, ?_⟩
  simpa [tick, i2cRun, hstate] using hframe

theorem ticksTo_increment (h : s.Valid) (hstate : s.currentState = .incrementMuxSelectBits) :
    s.TicksTo i (if s.muxSelect < 10 then .frame (s.muxSelect + 1) 0 else .finished) := by
  rw [Valid, phase_of_increment hstate] at h
  obtain ⟨hmux, hframe⟩ := h
  have hrest := Sequencer.tick_stopped (i2cControllerData i s) (s.i2c.sdat i.pull)
    (.inl hframe.sdCounter) hframe.sclk hframe.sdo
  have hnext : (s.muxSelect + 1) % 16 = s.muxSelect + 1 := Nat.mod_eq_of_lt (by omega)
  by_cases hlast : s.muxSelect < 10
  · rw [if_pos hlast]
    refine ⟨?_, by omega, ?_⟩
    · have hgt : ¬ s.muxSelect + 1 > 10 := by omega
      simp [phase, tick, nextState, nextMuxSelect, hstate, i2cRun, hrest.sdCounter, hnext, hgt]
    · simpa [tick, i2cRun, hstate] using hrest.inFrame
  · rw [if_neg hlast]
    have hgt : s.muxSelect + 1 > 10 := by omega
    refine ⟨by simp [phase, tick, nextState, nextMuxSelect, hstate, hnext, hgt], ?_⟩
    simpa [Phase.Drives, tick, i2cRun, hstate] using hrest

theorem ticksTo_transmit (h : s.Valid) (hstate : s.currentState = .transmit) :
    s.TicksTo i (if s.muxSelect > 10 then .stop
      else if s.i2c.sdCounter = 0 then .frame s.muxSelect 1 else .hung s.muxSelect) := by
  rw [Valid, phase_of_transmit hstate] at h
  by_cases hlast : s.muxSelect > 10
  · rw [if_pos hlast] at h ⊢
    have hrest := Sequencer.tick_stopped (i2cControllerData i s) (s.i2c.sdat i.pull)
      (.inl h.sdCounter) h.sclk h.sdo
    refine ⟨by simp [phase, tick, nextState, hstate, hlast], ?_⟩
    simpa [Phase.Drives, tick, i2cRun, hstate, hlast] using hrest
  rw [if_neg hlast] at h ⊢
  by_cases hzero : s.i2c.sdCounter = 0
  · rw [if_pos hzero] at h ⊢
    have hframe := h.2.tick (i2cControllerData i s) (s.i2c.sdat i.pull) (Nat.zero_le 32)
    have hone := hframe.sdCounter
    refine ⟨?_, h.1, by simpa [tick, i2cRun, hstate, hlast] using hframe⟩
    simp [phase, tick, nextState, nextMuxSelect, hstate, i2cRun, hlast, hone]
  · rw [if_neg hzero] at h ⊢
    obtain ⟨hmux, h⟩ := h
    have hhung := Sequencer.tick_hung (i2cControllerData i s) (s.i2c.sdat i.pull)
      (Nat.lt_of_succ_lt h.lt) h.le h.sclk h.sdo h.i2cEnd h.ackO
    refine ⟨?_, hmux, by simpa [tick, i2cRun, hstate, hlast] using hhung⟩
    have hgt := Nat.not_le.mpr hhung.lt
    simp [phase, tick, nextState, nextMuxSelect, hstate, i2cRun, hlast, hgt]

theorem ticksTo_checkAcknowledge (h : s.Valid) (hstate : s.currentState = .checkAcknowledge) :
    s.TicksTo i (if s.i2c.sdCounter < 33 then .frame s.muxSelect (s.i2c.sdCounter + 1)
      else if s.i2c.ackO then .hung s.muxSelect else .frame s.muxSelect 34) := by
  rw [Valid, phase_of_checkAcknowledge hstate] at h
  by_cases hcount : 1 ≤ s.i2c.sdCounter ∧ s.i2c.sdCounter ≤ 33
  · rw [if_pos hcount] at h
    obtain ⟨hmux, hframe⟩ := h
    have hend := hframe.i2cEnd hcount.1
    by_cases hlt : s.i2c.sdCounter < 33
    · have hnext := hframe.tick (i2cControllerData i s) (s.i2c.sdat i.pull) (by omega)
      have hcounter := hnext.sdCounter.trans (if_neg (by omega))
      rw [decide_eq_false (by omega)] at hend
      refine ⟨?_, by rw [if_pos hlt]; exact ⟨hmux, by simpa [tick, i2cRun, hstate] using hnext⟩⟩
      simp [phase, tick, nextState, nextMuxSelect, hstate, i2cRun, hend, hcounter, hlt,
        Nat.succ_le_of_lt hlt]
    · have hlast : s.i2c.sdCounter = 33 := by omega
      rw [hlast] at hframe
      rw [decide_eq_true (by omega)] at hend
      rw [if_neg hlt]
      cases hack : s.i2c.ackO
      · have hnext := hframe.tick_last (i2cControllerData i s) (s.i2c.sdat i.pull)
        refine ⟨?_, hmux, by simpa [tick, i2cRun, hstate] using hnext⟩
        simp [phase, tick, nextState, nextMuxSelect, hstate, hend, hack]
      · have hhung := Sequencer.tick_hung (i2cControllerData i s) (s.i2c.sdat i.pull)
          (by omega) (by omega) hframe.sclk hframe.sdo hend hack
        have hzero : (Sequencer.tick true (i2cControllerData i s) (s.i2c.sdat i.pull)
          s.i2c).sdCounter ≠ 0 := by have := hhung.lt; omega
        refine ⟨?_, hmux, by simpa [tick, i2cRun, hstate] using hhung⟩
        simp [phase, tick, nextState, nextMuxSelect, hstate, i2cRun, hend, hack, hzero, hmux]
  · rw [if_neg hcount] at h
    obtain ⟨hmux, h⟩ := h
    have hhung := Sequencer.tick_hung (i2cControllerData i s) (s.i2c.sdat i.pull)
      (Nat.lt_of_succ_lt h.lt) h.le h.sclk h.sdo h.i2cEnd h.ackO
    have hzero : (Sequencer.tick true (i2cControllerData i s) (s.i2c.sdat i.pull)
      s.i2c).sdCounter ≠ 0 := by have := hhung.lt; omega
    rw [if_neg (by have := h.lt; omega), if_pos h.ackO]
    refine ⟨?_, hmux, by simpa [tick, i2cRun, hstate] using hhung⟩
    simp [phase, tick, nextState, nextMuxSelect, hstate, i2cRun, h.i2cEnd, h.ackO, hzero, hmux]

/-- Every tick takes the phase of the registers to the next phase and keeps the invariant: the
20 kHz domain refines the phase machine. -/
theorem ticksTo_next (h : s.Valid) :
    s.TicksTo i (s.phase.next s.i2c.ackO (s.leavesStop i.before) (i.pulse)) := by
  cases hstate : s.currentState with
  | resetState =>
    rw [phase_of_resetState hstate]
    exact ticksTo_resetState i h hstate
  | transmit =>
    have hnext := ticksTo_transmit i h hstate
    rw [phase_of_transmit hstate]
    split_ifs at hnext ⊢ <;> exact hnext
  | checkAcknowledge =>
    have hnext := ticksTo_checkAcknowledge i h hstate
    rw [Valid, phase_of_checkAcknowledge hstate] at h
    rw [phase_of_checkAcknowledge hstate]
    by_cases hcount : 1 ≤ s.i2c.sdCounter ∧ s.i2c.sdCounter ≤ 33
    · rw [if_pos hcount, Phase.next]
      by_cases hlt : s.i2c.sdCounter < 33
      · rwa [if_pos hlt] at hnext ⊢
      · rw [if_neg hlt] at hnext ⊢
        rwa [if_pos (by omega)]
    · rw [if_neg hcount] at h ⊢
      have hlt := h.2.lt
      rwa [if_neg (by omega), if_pos h.2.ackO] at hnext
  | turnOffi2cControl =>
    rw [phase_of_turnOff hstate]
    exact ticksTo_turnOff i h hstate
  | incrementMuxSelectBits =>
    rw [phase_of_increment hstate]
    exact ticksTo_increment i h hstate
  | stop =>
    rw [phase_of_stop hstate]
    exact ticksTo_stop i h hstate

theorem phase_tick (h : s.Valid) :
    (s.tick i).phase = s.phase.next s.i2c.ackO (s.leavesStop i.before) (i.pulse) :=
  (ticksTo_next i h).1

theorem valid_tick (h : s.Valid) : (s.tick i).Valid := by
  have hnext := ticksTo_next i h
  rw [Valid, hnext.1]
  exact hnext.2

end Slow

end Tick

end AudioProcessor.Codec
