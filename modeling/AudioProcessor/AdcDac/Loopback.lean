import AudioProcessor.AdcDac.Capture

/-!
# What the loopback sends

With `dataSelect` high the serialiser sends bits of the left ADC register in both slots. In the left
slot the register is shifted up by one place while the index goes down by one, so that every second
bit is passed over: the slot carries every second bit of the left word of the frame before and then
every second bit of its own (`sent_left_loopback`). In the right slot the register rests, and the
slot carries the left word of its own frame (`sent_right_loopback`).
-/

set_option autoImplicit false
set_option relaxedAutoImplicit false

namespace AudioProcessor.AdcDac

open Serial

/-- The inputs of a run with `dataSelect` high. -/
def loopbackInput (adcData : ℕ → Bool) (left right : ℕ → BitVec 16) (k : ℕ) : Inputs where
  dataSelect := true
  adcData := adcData k
  audioFromNiosLeft := left k
  audioFromNiosRight := right k

/-- Every second bit of a list, from the first on. -/
def everySecond : List Bool → List Bool
  | [] => []
  | [bit] => [bit]
  | bit :: _ :: bits => bit :: everySecond bits

/-- The bits of the left slot of frame `n`. -/
def leftBits (adcData : ℕ → Bool) (n i : ℕ) : Bool := adcData (12 * (32 * n + 1 + i) + 5)

theorem everySecond_map (f : ℕ → Bool) :
    everySecond ((List.range 16).map f) = (List.range 8).map fun j ↦ f (2 * j) := rfl

/-- In loopback the output bit after a falling edge is one of the left ADC register. -/
theorem dacOutput_loopback {k : ℕ} {s : State} (h : Slots k s) {i : Inputs}
    (hselect : i.dataSelect = true) :
    s.dacOutput i = s.adcDataLeftChannelRegister.getLsbD (15 - k % 16) := by
  rw [State.dacOutput, h.internalLRSelect, hselect, h.leftOutCounter, h.rightOutCounter]
  by_cases hleft : 1 ≤ k % 32 ∧ k % 32 ≤ 16
  · rw [decide_eq_true hleft, if_pos rfl, if_pos rfl, if_pos hleft]
    congr 1
    omega
  · rw [decide_eq_false hleft, if_neg Bool.false_ne_true, if_pos rfl]
    congr 1
    split_ifs <;> omega

section Loopback

variable (s : State) (input : ℕ → Inputs)

theorem received_left (n : ℕ) : received (released s input) (fun k ↦ (input k).adcData) true n =
    (List.range 16).map (leftBits (fun k ↦ (input k).adcData) n) := by
  rw [received, slotEdges_released, List.map_map]
  rfl

/-- The left register after the left slot of a frame, bit by bit. -/
theorem getLsbD_left_slot (n : ℕ) {j i : ℕ} (hj : j ≤ 16) (hi : i < 16) :
    (bitRun s input (32 * n + 1 + j)).adcDataLeftChannelRegister.getLsbD i =
      if i < j then leftBits (fun k ↦ (input k).adcData) n (j - 1 - i)
      else (bitRun s input (32 * n + 1)).adcDataLeftChannelRegister.getLsbD (i - j) := by
  rw [bitRun_left_slot s input n hj, getLsbD_run_shiftIn _ _ _ _ hi]
  rfl

/-- Until the left slot of the next frame the register rests. -/
theorem bitRun_left_next (n : ℕ) :
    (bitRun s input (32 * (n + 1) + 1)).adcDataLeftChannelRegister =
      (bitRun s input (32 * n + 1 + 16)).adcDataLeftChannelRegister := by
  have hslot : inSlot true (32 * n + 17 + 15) = false := by
    rw [inSlot_true_eq]
    exact decide_eq_false (by omega)
  have hrests := bitRun_left_rests s input n (Nat.le_refl 15)
  rw [show 32 * (n + 1) + 1 = 32 * n + 17 + 15 + 1 by omega, (bitRun_adc_right s input hslot).2,
    hrests]

variable (hselect : ∀ k, (input k).dataSelect = true)

include hselect

/-- The bit on the wire at the rising edge of a bit period. -/
theorem released_dacData_loopback (k : ℕ) :
    (released s input (12 * (k + 1) + 5)).dacData =
      (bitRun s input (k + 1)).adcDataLeftChannelRegister.getLsbD (15 - k % 16) := by
  have hslots := (slots_bitRun s input k).risingEdge (input (12 * k + 5))
  rw [released_low_half _ _ _ (Nat.le_refl 5), bitRun_succ, State.atPhase_dacData,
    State.fallingEdge_dacData, dacOutput_loopback hslots (hselect _), (State.fallingEdge_adc _ _).1]

/-- The left slot carries every second bit of the left word of the frame before, and then every
second bit of its own. -/
theorem sent_left_loopback (n : ℕ) : sent (released s input) true (n + 1) =
    everySecond (received (released s input) (fun k ↦ (input k).adcData) true n) ++
      everySecond (received (released s input) (fun k ↦ (input k).adcData) true (n + 1)) := by
  have hbit (j : ℕ) (hj : j < 16) :
      (released s input (12 * (32 * (n + 1) + 1 + j) + 5)).dacData =
        (bitRun s input (32 * (n + 1) + 1 + j)).adcDataLeftChannelRegister.getLsbD (15 - j) := by
    have hdac := released_dacData_loopback s input hselect (32 * (n + 1) + j)
    rwa [show (32 * (n + 1) + j) % 16 = j by omega,
      show 32 * (n + 1) + j + 1 = 32 * (n + 1) + 1 + j by omega] at hdac
  have hold (j : ℕ) (hj : j < 8) : (released s input (12 * (32 * (n + 1) + 1 + j) + 5)).dacData =
      leftBits (fun k ↦ (input k).adcData) n (2 * j) := by
    rw [hbit j (by omega), getLsbD_left_slot s input (n + 1) (by omega) (by omega),
      if_neg (by omega), bitRun_left_next, getLsbD_left_slot s input n (by omega) (by omega),
      if_pos (by omega), show 16 - 1 - (15 - j - j) = 2 * j by omega]
  have hnew (j : ℕ) (hj : j < 8) :
      (released s input (12 * (32 * (n + 1) + 1 + (8 + j)) + 5)).dacData =
        leftBits (fun k ↦ (input k).adcData) (n + 1) (2 * j) := by
    rw [hbit (8 + j) (by omega), getLsbD_left_slot s input (n + 1) (by omega) (by omega),
      if_pos (by omega), show 8 + j - 1 - (15 - (8 + j)) = 2 * j by omega]
  rw [sent, slotEdges_released, received_left, received_left, everySecond_map, everySecond_map,
    List.map_map, show 16 = 8 + 8 from rfl, List.range_add, List.map_append, List.map_map]
  refine congrArg₂ _ (List.map_congr_left fun j hj ↦ ?_) (List.map_congr_left fun j hj ↦ ?_)
  · exact hold j (List.mem_range.mp hj)
  · exact hnew j (List.mem_range.mp hj)

/-- The right slot carries the left word of its own frame. -/
theorem sent_right_loopback (n : ℕ) : sent (released s input) false n =
    received (released s input) (fun k ↦ (input k).adcData) true n := by
  rw [sent, slotEdges_released, received_left, List.map_map]
  refine List.map_congr_left fun j hj ↦ ?_
  have hj := List.mem_range.mp hj
  have hdac := released_dacData_loopback s input hselect (32 * n + 16 + j)
  have hrests := bitRun_left_rests s input n (show j ≤ 15 by omega)
  rw [show 32 * n + 16 + j + 1 = 32 * n + 17 + j by omega, hrests,
    show 32 * n + 17 = 32 * n + 1 + 16 by omega,
    getLsbD_left_slot s input n (Nat.le_refl 16) (by omega), if_pos (by omega),
    show 16 - 1 - (15 - (32 * n + 16 + j) % 16) = j by omega] at hdac
  exact hdac

end Loopback

/-- In loopback the two slots of frame `n + 1 + d` carry the bits received in those of frame `n + 1`
exactly when the left bits received are every second one of the left bits of frames `n + d` and
`n + 1 + d`, and the right bits received are the left bits of frame `n + 1 + d`. -/
theorem loops_back_iff (s : State) (adcData : ℕ → Bool) (left right : ℕ → BitVec 16) (n d : ℕ) :
    (sent (released s (loopbackInput adcData left right)) true (n + 1 + d) =
          received (released s (loopbackInput adcData left right)) adcData true (n + 1) ∧
        sent (released s (loopbackInput adcData left right)) false (n + 1 + d) =
          received (released s (loopbackInput adcData left right)) adcData false (n + 1)) ↔
      received (released s (loopbackInput adcData left right)) adcData true (n + 1) =
          everySecond
              (received (released s (loopbackInput adcData left right)) adcData true (n + d)) ++
            everySecond
              (received (released s (loopbackInput adcData left right)) adcData true (n + 1 + d)) ∧
        received (released s (loopbackInput adcData left right)) adcData false (n + 1) =
          received (released s (loopbackInput adcData left right)) adcData true (n + 1 + d) := by
  have hleft := sent_left_loopback s (loopbackInput adcData left right) (fun _ ↦ rfl) (n + d)
  have hright := sent_right_loopback s (loopbackInput adcData left right) (fun _ ↦ rfl) (n + 1 + d)
  rw [Nat.add_right_comm n 1 d] at hright ⊢
  rw [hleft, hright]
  exact and_congr eq_comm eq_comm

/-- With zeros in the left slots and ones in the right slots, no delay makes the right slots those
received. -/
theorem not_loops_back :
    ¬ ∃ d start, ∀ (s : State) (adcData : ℕ → Bool) (left right : ℕ → BitVec 16), ∀ n ≥ start,
      sent (released s (loopbackInput adcData left right)) true (n + d) =
          received (released s (loopbackInput adcData left right)) adcData true n ∧
        sent (released s (loopbackInput adcData left right)) false (n + d) =
          received (released s (loopbackInput adcData left right)) adcData false n := by
  rintro ⟨d, start, hloops⟩
  set adcData : ℕ → Bool := fun k ↦ !inSlot true (k / 12)
  have hright := (hloops ⟨false, 0, false, false, 0, 15, 15, 0, 0, 0, 0, 0, 0, false, 0⟩ adcData
    (fun _ ↦ 0) (fun _ ↦ 0) start (le_refl start)).2
  rw [sent_right_loopback _ _ fun _ ↦ rfl, received, received, slotEdges_released,
    slotEdges_released, List.map_map, List.map_map] at hright
  have hfirst : adcData (12 * (32 * (start + d) + 1 + 0) + 5) =
      adcData (12 * (32 * start + 17 + 0) + 5) :=
    List.map_inj_left.mp hright 0 (List.mem_range.mpr (Nat.succ_pos 15))
  have hzero : adcData (12 * (32 * (start + d) + 1 + 0) + 5) = false := by
    rw [Bool.not_eq_false', inSlot_true_eq]
    exact decide_eq_true (by omega)
  have hone : adcData (12 * (32 * start + 17 + 0) + 5) = true := by
    rw [Bool.not_eq_true', inSlot_true_eq]
    exact decide_eq_false (by omega)
  rw [hzero, hone] at hfirst
  exact Bool.noConfusion hfirst

end AudioProcessor.AdcDac
