import AudioProcessor.AdcDac.Controller

/-!
# Bit periods and frames

The twelve-edge divider makes one rising and one falling bit-clock edge out of twelve edges of the
audio clock, so after the release of the reset bit period `k` is `bitPeriod` with the inputs of
audio edges `12 * k + 5` and `12 * k + 11` (`released_twelve_mul`, `released_rise`). Over 32 bit
periods the slot counter, the slot select and the two output indices run through one frame;
`Slots` is their value after `k` bit periods.
-/

set_option autoImplicit false
set_option relaxedAutoImplicit false

namespace AudioProcessor.AdcDac

/-! ### The divider -/

/-- A state with given divider registers. -/
def State.atPhase (s : State) (clock : Bool) (count : ℕ) : State :=
  { s with internalBitClock := clock, bitClockCounter := count }

section AtPhase

variable (s : State) (clock : Bool) (count : ℕ)

@[simp] theorem State.atPhase_internalBitClock :
    (s.atPhase clock count).internalBitClock = clock := rfl

@[simp] theorem State.atPhase_dacData : (s.atPhase clock count).dacData = s.dacData := rfl

@[simp] theorem State.atPhase_audioToNiosLeft :
    (s.atPhase clock count).audioToNiosLeft = s.audioToNiosLeft := rfl

@[simp] theorem State.atPhase_audioToNiosRight :
    (s.atPhase clock count).audioToNiosRight = s.audioToNiosRight := rfl

end AtPhase

theorem State.risingEdge_atPhase (i : Inputs) (s : State) (clock : Bool) (count : ℕ) :
    (s.atPhase clock count).risingEdge i = (s.risingEdge i).atPhase clock count := by
  cases hselect : s.internalLRSelect <;> simp [State.risingEdge, State.atPhase, hselect]

theorem State.dacOutput_atPhase (i : Inputs) (s : State) (clock : Bool) (count : ℕ) :
    (s.atPhase clock count).dacOutput i = s.dacOutput i := rfl

theorem State.fallingEdge_atPhase (i : Inputs) (s : State) (clock : Bool) (count : ℕ) :
    (s.atPhase clock count).fallingEdge i = (s.fallingEdge i).atPhase clock count := by
  unfold State.fallingEdge
  rw [State.dacOutput_atPhase]
  by_cases hleft : s.lrCounter < 16
  · simp [State.atPhase, State.lrSelect, hleft]
  · by_cases hlast : s.lrCounter = 31 <;> simp [State.atPhase, State.lrSelect, hleft, hlast]

theorem State.audioClockEdge_low (i : Inputs) (s : State) {count : ℕ} (hcount : count < 5) :
    (s.atPhase false count).audioClockEdge i = s.atPhase false (count + 1) := by
  simp [State.audioClockEdge, State.bitClock, State.atPhase, hcount]

theorem State.audioClockEdge_rise (i : Inputs) (s : State) :
    (s.atPhase false 5).audioClockEdge i = (s.risingEdge i).atPhase true 6 := by
  rw [← State.risingEdge_atPhase]
  simp [State.audioClockEdge, State.bitClock, State.atPhase]

theorem State.audioClockEdge_high (i : Inputs) (s : State) {count : ℕ} (hlow : 5 ≤ count)
    (hcount : count < 11) :
    (s.atPhase true count).audioClockEdge i = s.atPhase true (count + 1) := by
  simp [State.audioClockEdge, State.bitClock, State.atPhase, hcount, Nat.not_lt.mpr hlow]

theorem State.audioClockEdge_fall (i : Inputs) (s : State) :
    (s.atPhase true 11).audioClockEdge i = (s.fallingEdge i).atPhase false 0 := by
  rw [← State.fallingEdge_atPhase]
  simp [State.audioClockEdge, State.bitClock, State.atPhase]

/-- One period of the bit clock: the inputs at its rising and at its falling edge. -/
def bitPeriod (i : Inputs × Inputs) (s : State) : State :=
  (s.risingEdge i.1).fallingEdge i.2

/-- The state after `k` periods of the bit clock. -/
def bitRun (s : State) (input : ℕ → Inputs) : ℕ → State :=
  Clocked.run bitPeriod s.asyncReset fun k ↦ (input (12 * k + 5), input (12 * k + 11))

theorem bitRun_succ (s : State) (input : ℕ → Inputs) (k : ℕ) :
    bitRun s input (k + 1) =
      ((bitRun s input k).risingEdge (input (12 * k + 5))).fallingEdge (input (12 * k + 11)) :=
  rfl

theorem released_succ (s : State) (input : ℕ → Inputs) (k : ℕ) :
    released s input (k + 1) = (released s input k).audioClockEdge (input k) := rfl

section Divider

variable {s t : State} {input : ℕ → Inputs} {k : ℕ}

/-- The low half of a bit period only counts. -/
theorem released_low (hstart : released s input k = t.atPhase false 0) {count : ℕ}
    (hcount : count ≤ 5) : released s input (k + count) = t.atPhase false count := by
  induction count with
  | zero => exact hstart
  | succ count ih =>
    rw [← Nat.add_assoc, released_succ, ih (by omega), State.audioClockEdge_low _ _ (by omega)]

/-- The high half of a bit period only counts. -/
theorem released_high (hrise : released s input (k + 6) = t.atPhase true 6) {count : ℕ}
    (hcount : count ≤ 5) : released s input (k + 6 + count) = t.atPhase true (6 + count) := by
  induction count with
  | zero => exact hrise
  | succ count ih =>
    rw [← Nat.add_assoc, released_succ, ih (by omega),
      State.audioClockEdge_high _ _ (by omega) (by omega)]
    rfl

end Divider

/-- Twelve edges of the audio clock are one bit period. -/
theorem released_twelve_mul (s : State) (input : ℕ → Inputs) (k : ℕ) :
    released s input (12 * k) = (bitRun s input k).atPhase false 0 := by
  induction k with
  | zero => rfl
  | succ k ih =>
    have hlow := released_low ih (Nat.le_refl 5)
    have hrise : released s input (12 * k + 6) =
        ((bitRun s input k).risingEdge (input (12 * k + 5))).atPhase true 6 := by
      rw [released_succ, hlow, State.audioClockEdge_rise]
    have hhigh := released_high hrise (Nat.le_refl 5)
    rw [show 12 * (k + 1) = 12 * k + 6 + 5 + 1 by omega, released_succ, hhigh,
      State.audioClockEdge_fall, bitRun_succ, show 12 * k + 6 + 5 = 12 * k + 11 by omega]

/-- During the low half of bit period `k`, its rising edge included, the registers other than the
divider are those after `k` bit periods. -/
theorem released_low_half (s : State) (input : ℕ → Inputs) (k : ℕ) {count : ℕ}
    (hcount : count ≤ 5) :
    released s input (12 * k + count) = (bitRun s input k).atPhase false count :=
  released_low (released_twelve_mul s input k) hcount

/-- During the high half of bit period `k` they have moved by its rising edge. -/
theorem released_high_half (s : State) (input : ℕ → Inputs) (k : ℕ) {count : ℕ}
    (hcount : count ≤ 5) :
    released s input (12 * k + 6 + count) =
      ((bitRun s input k).risingEdge (input (12 * k + 5))).atPhase true (6 + count) := by
  refine released_high ?_ hcount
  rw [released_succ, released_low_half s input k (Nat.le_refl 5), State.audioClockEdge_rise]

/-- A register that neither the divider nor a rising edge touches is as after the whole bit periods
so far. -/
theorem released_of_untouched {α : Type} (register : State → α)
    (hphase : ∀ t clock count, register (State.atPhase t clock count) = register t)
    (hrise : ∀ i t, register (State.risingEdge i t) = register t) (s : State) (input : ℕ → Inputs)
    (k : ℕ) : register (released s input k) = register (bitRun s input (k / 12)) := by
  by_cases hhalf : k % 12 < 6
  · have hlow := released_low_half s input (k / 12) (show k % 12 ≤ 5 by omega)
    rw [show 12 * (k / 12) + k % 12 = k by omega] at hlow
    rw [hlow, hphase]
  · have hhigh := released_high_half s input (k / 12) (show k % 12 - 6 ≤ 5 by omega)
    rw [show 12 * (k / 12) + 6 + (k % 12 - 6) = k by omega] at hhigh
    rw [hhigh, hphase, hrise]

/-! ### The slot counters -/

section Edges

variable (i : Inputs) (s : State)

@[simp] theorem State.risingEdge_lrCounter : (s.risingEdge i).lrCounter = s.lrCounter := by
  unfold State.risingEdge
  split <;> rfl

@[simp] theorem State.risingEdge_internalLRSelect :
    (s.risingEdge i).internalLRSelect = s.internalLRSelect := by
  unfold State.risingEdge
  split <;> rfl

@[simp] theorem State.risingEdge_leftOutCounter :
    (s.risingEdge i).leftOutCounter = s.leftOutCounter := by
  unfold State.risingEdge
  split <;> rfl

@[simp] theorem State.risingEdge_rightOutCounter :
    (s.risingEdge i).rightOutCounter = s.rightOutCounter := by
  unfold State.risingEdge
  split <;> rfl

@[simp] theorem State.risingEdge_dacDataLeftChannelRegister :
    (s.risingEdge i).dacDataLeftChannelRegister = s.dacDataLeftChannelRegister := by
  unfold State.risingEdge
  split <;> rfl

@[simp] theorem State.risingEdge_dacDataRightChannelRegister :
    (s.risingEdge i).dacDataRightChannelRegister = s.dacDataRightChannelRegister := by
  unfold State.risingEdge
  split <;> rfl

@[simp] theorem State.risingEdge_audioToNiosLeft :
    (s.risingEdge i).audioToNiosLeft = s.audioToNiosLeft := by
  unfold State.risingEdge
  split <;> rfl

@[simp] theorem State.risingEdge_audioToNiosRight :
    (s.risingEdge i).audioToNiosRight = s.audioToNiosRight := by
  unfold State.risingEdge
  split <;> rfl

/-- The slot process in the first sixteen periods of a frame. -/
theorem State.lrSelect_left (hslot : s.lrCounter < 16) :
    s.lrSelect i =
      { s with
        internalLRSelect := true
        lrCounter := s.lrCounter + 1
        leftOutCounter := s.leftOutCounter - 1
        rightOutCounter := 15
        dataCount := false } := by
  rw [State.lrSelect, if_pos hslot]

/-- The slot process in the last period of a frame. -/
theorem State.lrSelect_last (hslot : s.lrCounter = 31) :
    s.lrSelect i =
      { s with
        internalLRSelect := false
        lrCounter := 0
        dataCount := true
        leftOutCounter := 15
        rightOutCounter := s.rightOutCounter - 1
        audioToNiosLeft := s.adcDataLeftChannelRegister
        audioToNiosRight := s.adcDataRightChannelRegister
        dacDataLeftChannelRegister := i.audioFromNiosLeft
        dacDataRightChannelRegister := i.audioFromNiosRight } := by
  rw [State.lrSelect, if_neg (by omega), if_pos hslot]

/-- The slot process in the other periods of the right slot. -/
theorem State.lrSelect_right (hslot : 16 ≤ s.lrCounter) (hlast : s.lrCounter ≠ 31) :
    s.lrSelect i =
      { s with
        internalLRSelect := false
        lrCounter := s.lrCounter + 1
        dataCount := false
        leftOutCounter := 15
        rightOutCounter := s.rightOutCounter - 1 } := by
  rw [State.lrSelect, if_neg (by omega), if_neg hlast]

/-- The DAC output process sets the output bit. -/
@[simp] theorem State.fallingEdge_dacData : (s.fallingEdge i).dacData = s.dacOutput i := rfl

/-- Off the last period of a frame the words exchanged with the bridge stay. -/
theorem State.fallingEdge_held (hslot : s.lrCounter ≠ 31) :
    (s.fallingEdge i).dacDataLeftChannelRegister = s.dacDataLeftChannelRegister ∧
      (s.fallingEdge i).dacDataRightChannelRegister = s.dacDataRightChannelRegister ∧
      (s.fallingEdge i).audioToNiosLeft = s.audioToNiosLeft ∧
      (s.fallingEdge i).audioToNiosRight = s.audioToNiosRight := by
  unfold State.fallingEdge
  by_cases hleft : s.lrCounter < 16
  · simp [s.lrSelect_left i hleft]
  · simp [s.lrSelect_right i (by omega) hslot]

/-- In the last period they are exchanged. -/
theorem State.fallingEdge_exchanged (hslot : s.lrCounter = 31) :
    (s.fallingEdge i).dacDataLeftChannelRegister = i.audioFromNiosLeft ∧
      (s.fallingEdge i).dacDataRightChannelRegister = i.audioFromNiosRight ∧
      (s.fallingEdge i).audioToNiosLeft = s.adcDataLeftChannelRegister ∧
      (s.fallingEdge i).audioToNiosRight = s.adcDataRightChannelRegister := by
  simp [State.fallingEdge, s.lrSelect_last i hslot]

/-- The falling edge does not touch the ADC registers. -/
theorem State.fallingEdge_adc :
    (s.fallingEdge i).adcDataLeftChannelRegister = s.adcDataLeftChannelRegister ∧
      (s.fallingEdge i).adcDataRightChannelRegister = s.adcDataRightChannelRegister := by
  unfold State.fallingEdge State.lrSelect
  split_ifs <;> exact ⟨rfl, rfl⟩

end Edges

/-- The slot counters after `k` bit periods. A frame opens with bit period `32 * n + 1`; the left
index counts down through periods `1` to `16` of it and the right one through the others, and both
stand at 15 again, by wrapping, when their slot is over. -/
structure Slots (k : ℕ) (s : State) : Prop where
  lrCounter : s.lrCounter = k % 32
  internalLRSelect : s.internalLRSelect = decide (1 ≤ k % 32 ∧ k % 32 ≤ 16)
  leftOutCounter : s.leftOutCounter.toNat =
    if 1 ≤ k % 32 ∧ k % 32 ≤ 16 then (31 - k % 32) % 16 else 15
  rightOutCounter : s.rightOutCounter.toNat = if 17 ≤ k % 32 then 31 - k % 32 else 15

theorem slots_asyncReset (s : State) : Slots 0 s.asyncReset := by
  constructor <;> rfl

/-- The rising edge of the bit clock leaves the slot counters alone. -/
theorem Slots.risingEdge {k : ℕ} {s : State} (h : Slots k s) (i : Inputs) :
    Slots k (s.risingEdge i) := by
  constructor
  · simpa using h.lrCounter
  · simpa using h.internalLRSelect
  · simpa using h.leftOutCounter
  · simpa using h.rightOutCounter

theorem toNat_sub_one (c : BitVec 4) : (c - 1).toNat = (c.toNat + 15) % 16 := by
  rw [BitVec.toNat_sub, Nat.add_comm]
  rfl

/-- The falling edge moves them to the next period. -/
theorem Slots.fallingEdge {k : ℕ} {s : State} (h : Slots k s) (i : Inputs) :
    Slots (k + 1) (s.fallingEdge i) := by
  obtain ⟨hcounter, -, hleft, hright⟩ := h
  by_cases hslot : k % 32 < 16
  · have hmod : (k + 1) % 32 = k % 32 + 1 := by omega
    rw [State.fallingEdge, s.lrSelect_left i (by omega)]
    constructor <;> simp only [hcounter, hmod, toNat_sub_one, hleft]
    · exact (decide_eq_true (by omega)).symm
    · split_ifs <;> omega
    · rw [if_neg (by omega)]
      rfl
  · by_cases hlast : k % 32 = 31
    · have hmod : (k + 1) % 32 = 0 := by omega
      rw [State.fallingEdge, s.lrSelect_last i (by omega)]
      constructor <;> simp only [hmod, toNat_sub_one, hright, hlast] <;> rfl
    · have hmod : (k + 1) % 32 = k % 32 + 1 := by omega
      rw [State.fallingEdge, s.lrSelect_right i (by omega) (by omega)]
      constructor <;> simp only [hcounter, hmod, toNat_sub_one, hright]
      · exact (decide_eq_false (by omega)).symm
      · rw [if_neg (by omega)]
        rfl
      · split_ifs <;> omega

/-- After the release of the reset the slot counters follow the bit periods. -/
theorem slots_bitRun (s : State) (input : ℕ → Inputs) (k : ℕ) : Slots k (bitRun s input k) := by
  refine Clocked.invariant_run_indexed (slots_asyncReset s) (fun n t ht ↦ ?_) k
  exact (ht.risingEdge _).fallingEdge _

end AudioProcessor.AdcDac
