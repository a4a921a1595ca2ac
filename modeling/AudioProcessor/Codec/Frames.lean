import AudioProcessor.Codec.Pass

/-!
# Frames along a run

A frame begun at tick `n` is at its tick `c` at tick `n + c` (`phase_frame`), whatever the inputs
are, and at its end the acknowledge flag tells what the slave did in the three acknowledge slots
(`ackO_frame`). So a frame whose slots are all acknowledged is followed by the frame of the next
position (`phase_pass`), and any other frame hangs (`phase_hung`).
-/

set_option autoImplicit false
set_option relaxedAutoImplicit false

namespace AudioProcessor.Codec

/-! ### The acknowledge registers -/

namespace Sequencer

variable (data : BitVec 24) (sdat : Bool) (r : Sequencer)

/-- When the acknowledge registers and the shift register are loaded. -/
theorem registers_transfer :
    (r.transfer data sdat).ack1 =
        (if r.sdCounter = 0 then false else if r.sdCounter = 12 then sdat else r.ack1) ∧
      (r.transfer data sdat).ack2 =
        (if r.sdCounter = 0 then false else if r.sdCounter = 21 then sdat else r.ack2) ∧
      (r.transfer data sdat).ack3 =
        (if r.sdCounter = 0 then false else if r.sdCounter = 30 then sdat else r.ack3) ∧
      (r.transfer data sdat).sd = if r.sdCounter = 1 then data else r.sd := by
  by_cases hlast : 32 < r.sdCounter
  · rw [transfer_rests data sdat hlast, if_neg (by omega), if_neg (by omega), if_neg (by omega),
      if_neg (by omega), if_neg (by omega), if_neg (by omega), if_neg (by omega)]
    exact ⟨rfl, rfl, rfl, rfl⟩
  · obtain ⟨counter, sclk, sdo, i2cEnd, ack1, ack2, ack3, sd⟩ := r
    interval_cases counter <;> exact ⟨rfl, rfl, rfl, rfl⟩

end Sequencer

/-! ### What the phase says about the registers -/

namespace Slow

variable {s : Slow} {pos ticks : ℕ}

/-- In a frame the register index is the position, and the state is one of the four of a frame. -/
theorem muxSelect_of_frame (hphase : s.phase = .frame pos ticks) : s.muxSelect = pos := by
  unfold phase at hphase
  split at hphase <;> (try split_ifs at hphase) <;> simp_all

/-- From its first to its last count a frame is in `checkAcknowledge`. -/
theorem checkAcknowledge_of_frame (hphase : s.phase = .frame pos ticks) (hone : 1 ≤ ticks)
    (hlast : ticks ≤ 33) : s.currentState = .checkAcknowledge := by
  unfold phase at hphase
  split at hphase <;> (try split_ifs at hphase) <;> simp_all <;> omega

theorem currentState_of_stop (hphase : s.phase = .stop) : s.currentState = .stop := by
  unfold phase at hphase
  split at hphase <;> (try split_ifs at hphase) <;> simp_all

theorem inFrame_of_frame (h : s.Valid) (hphase : s.phase = .frame pos ticks) :
    pos ≤ 10 ∧ s.i2c.InFrame ticks := by
  rw [Valid, hphase] at h
  exact h

/-- The counts of the acknowledge slots and of the start are met in frames only. -/
theorem frame_of_sdCounter (h : s.Valid) (hpos : s.i2c.sdCounter ≠ 0)
    (hlast : s.i2c.sdCounter ≤ 32) : s.phase = .frame s.muxSelect s.i2c.sdCounter := by
  cases hphase : s.phase with
  | frame pos ticks =>
    have hframe := (inFrame_of_frame h hphase).2
    have hcounter := hframe.sdCounter
    have hle := hframe.le
    split_ifs at hcounter with hturn
    · exact absurd hcounter hpos
    · rw [muxSelect_of_frame hphase, hcounter]
  | jump =>
    rw [Valid, hphase] at h
    exact absurd h.1 (by omega)
  | finished =>
    rw [Valid, hphase] at h
    exact absurd h.sdCounter hpos
  | hung pos =>
    rw [Valid, hphase] at h
    exact absurd h.2.lt (by omega)
  | stop =>
    rw [Valid, hphase] at h
    exact absurd h.sdCounter hpos

end Slow

/-- The tick ahead is a START with the word for a position. -/
def Slow.Starts (pos : ℕ) (s : Slow) : Prop := s.i2c.sdCounter = 1 ∧ s.muxSelect = pos

/-! ### Runs of the 20 kHz domain -/

/-- The 20 kHz domain after a number of ticks, tick `n` reading `inputs n`. -/
def Slow.run (start : Slow) (inputs : ℕ → TickInputs) : ℕ → Slow :=
  Clocked.run Slow.tick start inputs

namespace Slow

theorem run_succ (start : Slow) (inputs : ℕ → TickInputs) (n : ℕ) :
    start.run inputs (n + 1) = (start.run inputs n).tick (inputs n) := rfl

variable {start : Slow} (hstart : start.Valid) (inputs : ℕ → TickInputs)

include hstart

theorem valid_run (n : ℕ) : (start.run inputs n).Valid :=
  Clocked.invariant_run hstart (fun i _ ↦ valid_tick i) n

theorem phase_run_succ (n : ℕ) :
    (start.run inputs (n + 1)).phase =
      (start.run inputs n).phase.next (start.run inputs n).i2c.ackO
        ((start.run inputs n).leavesStop (inputs n).before) (inputs n).pulse := by
  rw [run_succ]
  exact phase_tick (inputs n) (valid_run hstart inputs n)

/-- A hanging frame hangs for ever. -/
theorem phase_hung {n pos : ℕ} (hhung : (start.run inputs n).phase = .hung pos) (k : ℕ) :
    (start.run inputs (n + k)).phase = .hung pos := by
  induction k with
  | zero => exact hhung
  | succ k ih => rw [← Nat.add_assoc, phase_run_succ hstart, ih, Phase.next]

section Frame

variable {n pos : ℕ} (hbegin : (start.run inputs n).phase = .frame pos 0)

include hbegin

/-- A frame once begun runs to its end. -/
theorem phase_frame {c : ℕ} (hc : c ≤ 33) : (start.run inputs (n + c)).phase = .frame pos c := by
  induction c with
  | zero => exact hbegin
  | succ c ih =>
    rw [← Nat.add_assoc, phase_run_succ hstart, ih (by omega), Phase.next, if_pos (by omega)]

/-- The count of the sequencer in a frame. -/
theorem sdCounter_frame {c : ℕ} (hc : c ≤ 33) : (start.run inputs (n + c)).i2c.sdCounter = c := by
  have hphase := phase_frame hstart inputs hbegin hc
  have hframe := (inFrame_of_frame (valid_run hstart inputs (n + c)) hphase).2
  rw [hframe.sdCounter, if_neg (by omega)]

/-- The data line in an acknowledge slot is what the slave makes of it. -/
theorem sdat_frame {c : ℕ} (hslot : c = 12 ∨ c = 21 ∨ c = 30) :
    (start.run inputs (n + c)).i2c.sdat (inputs (n + c)).pull = !(inputs (n + c)).pull := by
  have hphase := phase_frame hstart inputs hbegin (show c ≤ 33 by omega)
  have hframe := (inFrame_of_frame (valid_run hstart inputs (n + c)) hphase).2
  have hdriven : (start.run inputs (n + c)).i2c.driven c = true := by
    rcases hslot with rfl | rfl | rfl <;> rfl
  rw [Sequencer.sdat, hframe.sdo, hdriven, Bool.true_and]

/-- An acknowledge register loaded at count `slot` keeps what it was loaded with to the end. -/
theorem ack_frame {ack : Sequencer → Bool} (slot : ℕ)
    (hslot : slot = 12 ∨ slot = 21 ∨ slot = 30)
    (htransfer : ∀ data sdat (r : Sequencer), ack (r.transfer data sdat) =
      if r.sdCounter = 0 then false else if r.sdCounter = slot then sdat else ack r)
    (hcounter : ∀ (r : Sequencer) count, ack { r with sdCounter := count } = ack r)
    {c : ℕ} (hlow : slot < c) (hhigh : c ≤ 33) :
    ack (start.run inputs (n + c)).i2c = !(inputs (n + slot)).pull := by
  induction c with
  | zero => exact absurd hlow (Nat.not_lt_zero slot)
  | succ c ih =>
    have hcount := sdCounter_frame hstart inputs hbegin (show c ≤ 33 by omega)
    rw [← Nat.add_assoc, run_succ, tick, Sequencer.tick, hcounter, htransfer, hcount,
      if_neg (by omega)]
    by_cases hload : c = slot
    · rw [if_pos hload, hload, sdat_frame hstart inputs hbegin hslot]
    · rw [if_neg hload]
      exact ih (by omega) (by omega)

/-- At the end of a frame the acknowledge flag tells whether some slot was not pulled low. -/
theorem ackO_frame : (start.run inputs (n + 33)).i2c.ackO =
    !((inputs (n + 12)).pull && (inputs (n + 21)).pull && (inputs (n + 30)).pull) := by
  have h1 := ack_frame hstart inputs hbegin 12 (by omega)
    (fun data sdat r ↦ (r.registers_transfer data sdat).1) (fun _ _ ↦ rfl) (by omega) (le_refl 33)
  have h2 := ack_frame hstart inputs hbegin 21 (by omega)
    (fun data sdat r ↦ (r.registers_transfer data sdat).2.1) (fun _ _ ↦ rfl) (by omega) (le_refl 33)
  have h3 := ack_frame hstart inputs hbegin 30 (by omega)
    (fun data sdat r ↦ (r.registers_transfer data sdat).2.2.1) (fun _ _ ↦ rfl) (by omega) (le_refl 33)
  rw [Sequencer.ackO, h1, h2, h3, Bool.not_and, Bool.not_and]

/-- A frame with every slot acknowledged is followed by that of the next position. -/
theorem phase_acked (hacked : ((inputs (n + 12)).pull && (inputs (n + 21)).pull &&
      (inputs (n + 30)).pull) = true) :
    (start.run inputs (n + 34)).phase = .frame pos 34 ∧
      (start.run inputs (n + 35)).phase = .frame pos 35 ∧
      (start.run inputs (n + 36)).phase = if pos < 10 then .frame (pos + 1) 0 else .finished := by
  have hlast := phase_frame hstart inputs hbegin le_rfl
  have h34 : (start.run inputs (n + 33 + 1)).phase = .frame pos 34 := by
    rw [phase_run_succ hstart, hlast, ackO_frame hstart inputs hbegin, hacked]
    rfl
  have h35 : (start.run inputs (n + 34 + 1)).phase = .frame pos 35 := by
    rw [phase_run_succ hstart, h34]
    rfl
  refine ⟨h34, h35, ?_⟩
  rw [show n + 36 = n + 35 + 1 from rfl, phase_run_succ hstart, h35]
  rfl

/-- A frame with a slot that was not acknowledged hangs. -/
theorem phase_nacked (hnacked : ((inputs (n + 12)).pull && (inputs (n + 21)).pull &&
      (inputs (n + 30)).pull) = false) : (start.run inputs (n + 34)).phase = .hung pos := by
  rw [show n + 34 = n + 33 + 1 from rfl, phase_run_succ hstart,
    phase_frame hstart inputs hbegin le_rfl, ackO_frame hstart inputs hbegin, hnacked]
  rfl

end Frame

/-- A frame under way was begun. -/
theorem phase_begin (hjump : start.phase = .jump) {n pos c : ℕ}
    (hphase : (start.run inputs n).phase = .frame pos c) :
    c ≤ n ∧ (start.run inputs (n - c)).phase = .frame pos 0 := by
  induction c generalizing n with
  | zero => exact ⟨Nat.zero_le n, hphase⟩
  | succ c ih =>
    cases n with
    | zero =>
      rw [run, Clocked.run_zero, hjump] at hphase
      cases hphase
    | succ n =>
      have hbefore : (start.run inputs n).phase = .frame pos c := by
        rw [phase_run_succ hstart] at hphase
        cases hlast : (start.run inputs n).phase with
        | frame other ticks =>
          rw [hlast, Phase.next] at hphase
          split_ifs at hphase <;> simp_all
        | jump => rw [hlast] at hphase; cases hphase
        | finished => rw [hlast] at hphase; cases hphase
        | hung other => rw [hlast] at hphase; cases hphase
        | stop =>
          rw [hlast, Phase.next] at hphase
          split_ifs at hphase
      obtain ⟨hle, hfirst⟩ := ih hbefore
      exact ⟨Nat.succ_le_succ hle, by rwa [Nat.add_sub_add_right]⟩

/-- An acknowledge slot is count 12, 21 or 30 of a frame. -/
theorem begin_of_slot (hjump : start.phase = .jump) {n : ℕ}
    (hslot : (start.run inputs n).i2c.inAckSlot = true) :
    ∃ b c pos, n = b + c ∧ (c = 12 ∨ c = 21 ∨ c = 30) ∧
      (start.run inputs b).phase = .frame pos 0 := by
  have hcounter := of_decide_eq_true hslot
  have hphase := frame_of_sdCounter (valid_run hstart inputs n) (by omega) (by omega)
  obtain ⟨hle, hbegin⟩ := phase_begin hstart inputs hjump hphase
  exact ⟨_, _, _, (Nat.sub_add_cancel hle).symm, hcounter, hbegin⟩

/-! ### Acknowledged passes -/

omit hstart in
/-- Every acknowledge slot of the run is pulled low. -/
def Acknowledged (start : Slow) (inputs : ℕ → TickInputs) : Prop :=
  ∀ n, (start.run inputs n).i2c.inAckSlot = true → (inputs n).pull = true

section Acknowledged

variable {inputs} (hacked : start.Acknowledged inputs)

include hacked

theorem pulls_of_acknowledged {n pos : ℕ} (hbegin : (start.run inputs n).phase = .frame pos 0) :
    ((inputs (n + 12)).pull && (inputs (n + 21)).pull && (inputs (n + 30)).pull) = true := by
  have hslot : ∀ c ≤ 33, c = 12 ∨ c = 21 ∨ c = 30 → (inputs (n + c)).pull = true := by
    intro c hc hslot
    refine hacked (n + c) ?_
    rw [Sequencer.inAckSlot, sdCounter_frame hstart inputs hbegin hc, decide_eq_true hslot]
  rw [hslot 12 (by omega) (by omega), hslot 21 (by omega) (by omega),
    hslot 30 (by omega) (by omega)]
  rfl

/-- The frames of an acknowledged pass follow each other every 36 ticks. -/
theorem phase_pass {n pos : ℕ} (hbegin : (start.run inputs n).phase = .frame pos 0) {j : ℕ}
    (hj : pos + j ≤ 10) : (start.run inputs (n + 36 * j)).phase = .frame (pos + j) 0 := by
  induction j with
  | zero => exact hbegin
  | succ j ih =>
    have hframe := ih (by omega)
    have hnext := (phase_acked hstart inputs hframe
      (pulls_of_acknowledged hstart hacked hframe)).2.2
    rw [if_pos (by omega)] at hnext
    exact hnext

/-- Where an acknowledged pass is at each of its ticks. -/
theorem phase_within_pass {n pos : ℕ} (hbegin : (start.run inputs n).phase = .frame pos 0)
    {j c : ℕ} (hj : pos + j ≤ 10) (hc : c < 36) :
    (start.run inputs (n + 36 * j + c)).phase = .frame (pos + j) c := by
  have hframe := phase_pass hstart hacked hbegin hj
  obtain ⟨h34, h35, -⟩ := phase_acked hstart inputs hframe
    (pulls_of_acknowledged hstart hacked hframe)
  rcases Nat.lt_or_ge c 34 with hlow | hhigh
  · exact phase_frame hstart inputs hframe (by omega)
  · obtain rfl | rfl : c = 34 ∨ c = 35 := by omega
    · exact h34
    · exact h35

/-- An acknowledged pass ends in `stop`. -/
theorem phase_pass_end {n pos : ℕ} (hbegin : (start.run inputs n).phase = .frame pos 0)
    (hpos : pos ≤ 10) :
    (start.run inputs (n + 36 * (11 - pos))).phase = .finished ∧
      (start.run inputs (n + 36 * (11 - pos) + 1)).phase = .stop := by
  have hframe := phase_pass hstart hacked hbegin (show pos + (10 - pos) ≤ 10 by omega)
  have hnext := (phase_acked hstart inputs hframe
    (pulls_of_acknowledged hstart hacked hframe)).2.2
  rw [if_neg (by omega), Nat.add_assoc,
    show 36 * (10 - pos) + 36 = 36 * (11 - pos) by omega] at hnext
  refine ⟨hnext, ?_⟩
  rw [phase_run_succ hstart, hnext, Phase.next]

/-- Up to its end it is not in `stop`. -/
theorem phase_pass_ne_stop {n pos : ℕ} (hbegin : (start.run inputs n).phase = .frame pos 0)
    (hpos : pos ≤ 10) {m : ℕ} (hlow : n ≤ m) (hhigh : m ≤ n + 36 * (11 - pos)) :
    (start.run inputs m).phase ≠ .stop := by
  intro hstop
  rcases Nat.eq_or_lt_of_le hhigh with rfl | hwithin
  · rw [(phase_pass_end hstart hacked hbegin hpos).1] at hstop
    contradiction
  · have hframe := phase_within_pass hstart hacked hbegin
      (show pos + (m - n) / 36 ≤ 10 by omega) (Nat.mod_lt (m - n) (show 0 < 36 by omega))
    rw [Nat.add_assoc, Nat.div_add_mod, Nat.add_sub_cancel' hlow, hstop] at hframe
    contradiction

/-- An acknowledged run never hangs. -/
theorem phase_ne_hung (hjump : start.phase = .jump) (n pos : ℕ) :
    (start.run inputs n).phase ≠ .hung pos := by
  induction n with
  | zero =>
    rw [run, Clocked.run_zero, hjump]
    exact fun h ↦ Phase.noConfusion h
  | succ n ih =>
    intro hhung
    rw [phase_run_succ hstart] at hhung
    cases hphase : (start.run inputs n).phase with
    | hung other =>
      rw [hphase, Phase.next] at hhung
      exact ih (hphase.trans hhung)
    | frame other ticks =>
      rw [hphase, Phase.next] at hhung
      split_ifs at hhung with _ hlast hnack
      obtain ⟨hle, hbegin⟩ := phase_begin hstart inputs hjump hphase
      have hack := ackO_frame hstart inputs hbegin
      rw [pulls_of_acknowledged hstart hacked hbegin, show n - ticks + 33 = n by omega, hnack]
        at hack
      cases hack
    | jump => rw [hphase] at hhung; cases hhung
    | finished => rw [hphase] at hhung; cases hhung
    | stop =>
      rw [hphase, Phase.next] at hhung
      split_ifs at hhung

end Acknowledged

end Slow

end AudioProcessor.Codec
