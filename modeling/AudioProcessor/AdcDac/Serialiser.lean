import AudioProcessor.AdcDac.Slot

/-!
# What the DAC serialiser sends

With `dataSelect` low the serialiser sends the words latched from the NIOS bridge. At every falling
edge it picks a bit by the slot select and the index registers as they were before the edge, so
the first bit of a slot is still picked for the slot before: the index of that slot has wrapped to
15 by then. The left slot therefore opens with the top bit of the right word and the right slot
with the top bit of the left word (`sent_left`, `sent_right`), and a frame carries its two words
exactly when these two bits agree.
-/

set_option autoImplicit false
set_option relaxedAutoImplicit false

namespace AudioProcessor.AdcDac

open Serial

/-- The inputs of a run with `dataSelect` low: the bits from the ADC and the words from the NIOS. -/
def niosInput (adcData : ℕ → Bool) (left right : ℕ → BitVec 16) (k : ℕ) : Inputs where
  dataSelect := false
  adcData := adcData k
  audioFromNiosLeft := left k
  audioFromNiosRight := right k

/-- The edge of the audio clock at which frame `n` latches the words of frame `n + 1`. -/
def latchEdge (n : ℕ) : ℕ := 384 * n + 383

/-- The latch edges are the falling bit-clock edges with `LRCounter = 31`. -/
theorem falls_last_iff (s : State) (input : ℕ → Inputs) (k : ℕ) :
    (released s input k).internalBitClock = true ∧
        (released s input (k + 1)).internalBitClock = false ∧
        (released s input k).lrCounter = 31 ↔
      ∃ n, k = latchEdge n := by
  have hcounter : (released s input k).lrCounter = k / 12 % 32 := by
    rw [← (slots_bitRun s input (k / 12)).lrCounter]
    exact released_of_untouched State.lrCounter (fun _ _ _ ↦ rfl)
      (fun i t ↦ t.risingEdge_lrCounter i) s input k
  simp only [released_internalBitClock, hcounter, decide_eq_true_eq, decide_eq_false_iff_not,
    latchEdge]
  constructor
  · rintro ⟨hhigh, hfall, hlast⟩
    exact ⟨k / 384, by omega⟩
  · rintro ⟨n, rfl⟩
    exact ⟨by omega, by omega, by omega⟩

/-- In the last period of a frame the words from the bridge are latched. -/
theorem bitRun_latch (s : State) (input : ℕ → Inputs) (n : ℕ) :
    (bitRun s input (32 * n + 31 + 1)).dacDataLeftChannelRegister =
        (input (latchEdge n)).audioFromNiosLeft ∧
      (bitRun s input (32 * n + 31 + 1)).dacDataRightChannelRegister =
        (input (latchEdge n)).audioFromNiosRight := by
  have hslots := (slots_bitRun s input (32 * n + 31)).risingEdge (input (12 * (32 * n + 31) + 5))
  have hlast := State.fallingEdge_exchanged (input (12 * (32 * n + 31) + 11)) _
    (hslots.lrCounter.trans (by omega))
  rw [show latchEdge n = 12 * (32 * n + 31) + 11 by rw [latchEdge]; omega, bitRun_succ]
  exact ⟨hlast.1, hlast.2.1⟩

/-- In every other period the latched words stay. -/
theorem bitRun_held (s : State) (input : ℕ → Inputs) {k : ℕ} (hk : k % 32 ≠ 31) :
    (bitRun s input (k + 1)).dacDataLeftChannelRegister =
        (bitRun s input k).dacDataLeftChannelRegister ∧
      (bitRun s input (k + 1)).dacDataRightChannelRegister =
        (bitRun s input k).dacDataRightChannelRegister := by
  have hslots := (slots_bitRun s input k).risingEdge (input (12 * k + 5))
  have hheld := State.fallingEdge_held (input (12 * k + 11)) _ (hslots.lrCounter.trans_ne hk)
  rw [State.risingEdge_dacDataLeftChannelRegister,
    State.risingEdge_dacDataRightChannelRegister] at hheld
  rw [bitRun_succ]
  exact ⟨hheld.1, hheld.2.1⟩

/-- A latched pair of words stays in the output registers for one frame. -/
theorem bitRun_latched (s : State) (input : ℕ → Inputs) (n : ℕ) {j : ℕ} (hj : j < 32) :
    (bitRun s input (32 * n + 31 + 1 + j)).dacDataLeftChannelRegister =
        (input (latchEdge n)).audioFromNiosLeft ∧
      (bitRun s input (32 * n + 31 + 1 + j)).dacDataRightChannelRegister =
        (input (latchEdge n)).audioFromNiosRight := by
  induction j with
  | zero => exact bitRun_latch s input n
  | succ j ih =>
    have hheld := bitRun_held s input (show (32 * n + 31 + 1 + j) % 32 ≠ 31 by omega)
    exact ⟨hheld.1.trans (ih (by omega)).1, hheld.2.trans (ih (by omega)).2⟩

/-- The output bit after a falling edge, by the slot counters before it. -/
theorem dacOutput_of_slots {k : ℕ} {s : State} (h : Slots k s) {i : Inputs}
    (hselect : i.dataSelect = false) :
    s.dacOutput i =
      if 1 ≤ k % 32 ∧ k % 32 ≤ 16 then s.dacDataLeftChannelRegister.getLsbD ((31 - k % 32) % 16)
      else s.dacDataRightChannelRegister.getLsbD (if 17 ≤ k % 32 then 31 - k % 32 else 15) := by
  rw [State.dacOutput, h.internalLRSelect, hselect, h.leftOutCounter, h.rightOutCounter]
  by_cases hleft : 1 ≤ k % 32 ∧ k % 32 ≤ 16
  · simp [hleft]
  · simp only [if_neg hleft, decide_eq_false hleft]
    rfl

/-- The bits of a word after the top one. -/
theorem tail_msbFirst (word : BitVec 16) :
    (msbFirst word).tail = (List.range 15).map fun j ↦ word.getLsbD (14 - j) := by
  rw [msbFirst, List.range_succ_eq_map, List.map_cons, List.tail_cons, List.map_map]
  refine List.map_congr_left fun j _ ↦ ?_
  change word.getLsbD (16 - 1 - (j + 1)) = word.getLsbD (14 - j)
  congr 1
  omega

/-- A word on the line starts with its top bit. -/
theorem msbFirst_eq_cons (word : BitVec 16) : msbFirst word = word.msb :: (msbFirst word).tail := by
  rw [msbFirst, List.range_succ_eq_map, List.map_cons, List.tail_cons, BitVec.msb_eq_getLsbD_last]

section Sent

variable (s : State) (adcData : ℕ → Bool) (left right : ℕ → BitVec 16) (n : ℕ)

/-- The bit on the wire at rising edge `j` of frame `n + 1`, by the words latched in frame `n`. -/
theorem released_dacData {j : ℕ} (hj : j < 32) :
    (released s (niosInput adcData left right) (12 * (32 * (n + 1) + 1 + j) + 5)).dacData =
      if 1 ≤ j ∧ j ≤ 16 then (left (latchEdge n)).getLsbD ((31 - j) % 16)
      else (right (latchEdge n)).getLsbD (if 17 ≤ j then 31 - j else 15) := by
  have hlatched := bitRun_latched s (niosInput adcData left right) n hj
  have hslots := (slots_bitRun s (niosInput adcData left right) (32 * n + 31 + 1 + j)).risingEdge
    (niosInput adcData left right (12 * (32 * n + 31 + 1 + j) + 5))
  have hmod : (32 * n + 31 + 1 + j) % 32 = j := by omega
  rw [show 32 * (n + 1) + 1 + j = 32 * n + 31 + 1 + j + 1 by omega,
    released_low_half _ _ _ (Nat.le_refl 5), bitRun_succ, State.atPhase_dacData,
    State.fallingEdge_dacData, dacOutput_of_slots hslots rfl, hmod,
    State.risingEdge_dacDataLeftChannelRegister, State.risingEdge_dacDataRightChannelRegister,
    hlatched.1, hlatched.2]
  rfl

/-- The left slot of frame `n + 1` opens with the top bit of the right word and goes on with the
left one. -/
theorem sent_left :
    sent (released s (niosInput adcData left right)) true (n + 1) =
      (right (latchEdge n)).msb :: (msbFirst (left (latchEdge n))).tail := by
  have hbit (j : ℕ) (hj : j < 32) := released_dacData s adcData left right n hj
  rw [sent, slotEdges_released, tail_msbFirst, List.map_map, List.range_succ_eq_map, List.map_cons,
    List.map_map]
  refine congrArg₂ List.cons ?_ ?_
  · rw [BitVec.msb_eq_getLsbD_last]
    exact hbit 0 (by omega)
  · refine List.map_congr_left fun j hj ↦ ?_
    have hlt : j < 15 := List.mem_range.mp hj
    have hsent := hbit (j + 1) (by omega)
    rw [if_pos (by omega), show (31 - (j + 1)) % 16 = 14 - j by omega] at hsent
    exact hsent

/-- The right slot of frame `n + 1` opens with the top bit of the left word and goes on with the
right one. -/
theorem sent_right :
    sent (released s (niosInput adcData left right)) false (n + 1) =
      (left (latchEdge n)).msb :: (msbFirst (right (latchEdge n))).tail := by
  have hbit (j : ℕ) (hj : j < 16) := released_dacData s adcData left right n
    (show 16 + j < 32 by omega)
  have hplace (j : ℕ) : 32 * (n + 1) + 17 + j = 32 * (n + 1) + 1 + (16 + j) := by omega
  simp only [← hplace] at hbit
  rw [sent, slotEdges_released, tail_msbFirst, List.map_map, List.range_succ_eq_map, List.map_cons,
    List.map_map]
  refine congrArg₂ List.cons ?_ ?_
  · rw [BitVec.msb_eq_getLsbD_last]
    exact hbit 0 (by omega)
  · refine List.map_congr_left fun j hj ↦ ?_
    have hlt : j < 15 := List.mem_range.mp hj
    have hsent := hbit (j + 1) (by omega)
    rw [if_neg (by omega), if_pos (by omega), show 31 - (16 + (j + 1)) = 14 - j by omega] at hsent
    exact hsent

end Sent

/-- A frame carries the two words latched for it, most significant bit first, exactly when their
top bits agree. -/
theorem sent_eq_latched_iff (s : State) (adcData : ℕ → Bool) (left right : ℕ → BitVec 16) (n : ℕ) :
    (sent (released s (niosInput adcData left right)) true (n + 1) =
          msbFirst (left (latchEdge n)) ∧
        sent (released s (niosInput adcData left right)) false (n + 1) =
          msbFirst (right (latchEdge n))) ↔
      (left (latchEdge n)).msb = (right (latchEdge n)).msb := by
  rw [sent_left, sent_right]
  constructor
  · rintro ⟨hleft, -⟩
    rw [msbFirst_eq_cons (left (latchEdge n)), List.cons.injEq] at hleft
    exact hleft.1.symm
  · intro htop
    exact ⟨by rw [msbFirst_eq_cons (left (latchEdge n)), htop, List.tail_cons],
      by rw [msbFirst_eq_cons (right (latchEdge n)), htop, List.tail_cons]⟩

/-- With the left word at full negative scale and the right word at zero, frame 1 does not carry
them: its left slot is all zeros. -/
theorem sent_not_latched :
    ¬ ∀ (s : State) (adcData : ℕ → Bool) (left right : ℕ → BitVec 16) (n : ℕ),
      sent (released s (niosInput adcData left right)) true (n + 1) =
          msbFirst (left (latchEdge n)) ∧
        sent (released s (niosInput adcData left right)) false (n + 1) =
          msbFirst (right (latchEdge n)) := by
  intro hcarried
  have hframe := hcarried ⟨false, 0, false, false, 0, 15, 15, 0, 0, 0, 0, 0, 0, false, 0⟩
    (fun _ ↦ false) (fun _ ↦ 0x8000) (fun _ ↦ 0) 0
  rw [sent_left] at hframe
  exact absurd hframe.1 (by decide)

end AudioProcessor.AdcDac
