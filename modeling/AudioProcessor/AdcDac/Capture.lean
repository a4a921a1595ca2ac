import AudioProcessor.AdcDac.Serialiser

/-!
# What the bridge registers show

The ADC bits are shifted in on the rising edges of the bit clock and handed to the bridge at the
last falling edge of a frame. That edge comes before the last rising edge of the right slot, so the
left register is complete when it is handed over and the right one is a bit behind: it still holds
the bit received just before the frame, and misses the last one of its slot
(`msbFirst_audioToNiosLeft`, `msbFirst_audioToNiosRight`).
-/

set_option autoImplicit false
set_option relaxedAutoImplicit false

namespace AudioProcessor.AdcDac

open Serial

/-! ### The ADC registers -/

section Registers

variable (s : State) (input : ℕ → Inputs)

/-- In a period of the left slot the left register takes a bit in and the right one rests. -/
theorem bitRun_adc_left {k : ℕ} (hk : inSlot true k = true) :
    (bitRun s input (k + 1)).adcDataLeftChannelRegister =
        shiftIn (bitRun s input k).adcDataLeftChannelRegister (input (12 * k + 5)).adcData ∧
      (bitRun s input (k + 1)).adcDataRightChannelRegister =
        (bitRun s input k).adcDataRightChannelRegister := by
  have hselect : (bitRun s input k).internalLRSelect = true := by
    rw [(slots_bitRun s input k).internalLRSelect]
    simpa [inSlot] using hk
  have hadc := State.fallingEdge_adc (input (12 * k + 11))
    ((bitRun s input k).risingEdge (input (12 * k + 5)))
  rw [bitRun_succ, hadc.1, hadc.2, State.risingEdge, if_pos hselect]
  exact ⟨rfl, rfl⟩

/-- In a period of the right slot it is the other way round. -/
theorem bitRun_adc_right {k : ℕ} (hk : inSlot true k = false) :
    (bitRun s input (k + 1)).adcDataRightChannelRegister =
        shiftIn (bitRun s input k).adcDataRightChannelRegister (input (12 * k + 5)).adcData ∧
      (bitRun s input (k + 1)).adcDataLeftChannelRegister =
        (bitRun s input k).adcDataLeftChannelRegister := by
  have hselect : ¬ (bitRun s input k).internalLRSelect = true := by
    rw [(slots_bitRun s input k).internalLRSelect]
    simpa [inSlot] using hk
  have hadc := State.fallingEdge_adc (input (12 * k + 11))
    ((bitRun s input k).risingEdge (input (12 * k + 5)))
  rw [bitRun_succ, hadc.1, hadc.2, State.risingEdge, if_neg hselect]
  exact ⟨rfl, rfl⟩

theorem inSlot_true_eq (k : ℕ) : inSlot true k = decide (1 ≤ k % 32 ∧ k % 32 ≤ 16) := by
  rw [inSlot, beq_true]

/-- The left register takes in the bits of the left slot one by one. -/
theorem bitRun_left_slot (n : ℕ) {j : ℕ} (hj : j ≤ 16) :
    (bitRun s input (32 * n + 1 + j)).adcDataLeftChannelRegister =
      Clocked.run (fun bit word ↦ shiftIn word bit)
        (bitRun s input (32 * n + 1)).adcDataLeftChannelRegister
        (fun i ↦ (input (12 * (32 * n + 1 + i) + 5)).adcData) j := by
  induction j with
  | zero => rfl
  | succ j ih =>
    have hslot : inSlot true (32 * n + 1 + j) = true := by
      rw [inSlot_true_eq]
      exact decide_eq_true (by omega)
    rw [← Nat.add_assoc, (bitRun_adc_left s input hslot).1, ih (by omega), Clocked.run_succ]

/-- The left register rests for the remainder of the frame. -/
theorem bitRun_left_rests (n : ℕ) {j : ℕ} (hj : j ≤ 15) :
    (bitRun s input (32 * n + 17 + j)).adcDataLeftChannelRegister =
      (bitRun s input (32 * n + 17)).adcDataLeftChannelRegister := by
  induction j with
  | zero => rfl
  | succ j ih =>
    have hslot : inSlot true (32 * n + 17 + j) = false := by
      rw [inSlot_true_eq]
      exact decide_eq_false (by omega)
    rw [← Nat.add_assoc, (bitRun_adc_right s input hslot).2, ih (by omega)]

/-- The right register rests during the left slot. -/
theorem bitRun_right_rests (n : ℕ) {j : ℕ} (hj : j ≤ 16) :
    (bitRun s input (32 * n + 1 + j)).adcDataRightChannelRegister =
      (bitRun s input (32 * n + 1)).adcDataRightChannelRegister := by
  induction j with
  | zero => rfl
  | succ j ih =>
    have hslot : inSlot true (32 * n + 1 + j) = true := by
      rw [inSlot_true_eq]
      exact decide_eq_true (by omega)
    rw [← Nat.add_assoc, (bitRun_adc_left s input hslot).2, ih (by omega)]

/-- The bits the right register has taken in by the end of frame `n`: the one before the frame
opened, and then those of its right slot. -/
def rightBits (adcData : ℕ → Bool) (n : ℕ) : ℕ → Bool
  | 0 => adcData (384 * n + 5)
  | j + 1 => adcData (12 * (32 * n + 17 + j) + 5)

/-- The right register takes in these bits one by one; the first one is in when the frame opens. -/
theorem bitRun_right_slot (n : ℕ) {j : ℕ} (hj : j ≤ 15) :
    (bitRun s input (32 * n + 17 + j)).adcDataRightChannelRegister =
      Clocked.run (fun bit word ↦ shiftIn word bit)
        (bitRun s input (32 * n)).adcDataRightChannelRegister
        (rightBits (fun k ↦ (input k).adcData) n) (j + 1) := by
  induction j with
  | zero =>
    have hslot : inSlot true (32 * n) = false := by
      rw [inSlot_true_eq]
      exact decide_eq_false (by omega)
    have hrests := bitRun_right_rests s input n (Nat.le_refl 16)
    rw [Nat.add_zero, hrests, (bitRun_adc_right s input hslot).1, Clocked.run_succ,
      Clocked.run_zero, rightBits, show 12 * (32 * n) + 5 = 384 * n + 5 by omega]
  | succ j ih =>
    have hslot : inSlot true (32 * n + 17 + j) = false := by
      rw [inSlot_true_eq]
      exact decide_eq_false (by omega)
    rw [← Nat.add_assoc, (bitRun_adc_right s input hslot).1, ih (by omega),
      Clocked.run_succ _ _ _ (j + 1)]
    rfl

end Registers

/-! ### The bridge registers -/

section Bridge

variable (s : State) (input : ℕ → Inputs) (n : ℕ)

/-- At the end of a frame the bridge registers take over the ADC registers. -/
theorem bitRun_audioToNios :
    (bitRun s input (32 * n + 31 + 1)).audioToNiosLeft =
        (bitRun s input (32 * n + 31 + 1)).adcDataLeftChannelRegister ∧
      (bitRun s input (32 * n + 31 + 1)).audioToNiosRight =
        (bitRun s input (32 * n + 31 + 1)).adcDataRightChannelRegister := by
  have hslots := (slots_bitRun s input (32 * n + 31)).risingEdge (input (12 * (32 * n + 31) + 5))
  have hlast := State.fallingEdge_exchanged (input (12 * (32 * n + 31) + 11)) _
    (hslots.lrCounter.trans (by omega))
  have hadc := State.fallingEdge_adc (input (12 * (32 * n + 31) + 11))
    ((bitRun s input (32 * n + 31)).risingEdge (input (12 * (32 * n + 31) + 5)))
  rw [bitRun_succ, hlast.2.2.1, hlast.2.2.2, hadc.1, hadc.2]
  exact ⟨rfl, rfl⟩

/-- In every other period they rest. -/
theorem bitRun_audioToNios_held {k : ℕ} (hk : k % 32 ≠ 31) :
    (bitRun s input (k + 1)).audioToNiosLeft = (bitRun s input k).audioToNiosLeft ∧
      (bitRun s input (k + 1)).audioToNiosRight = (bitRun s input k).audioToNiosRight := by
  have hslots := (slots_bitRun s input k).risingEdge (input (12 * k + 5))
  have hheld := State.fallingEdge_held (input (12 * k + 11)) _ (hslots.lrCounter.trans_ne hk)
  rw [State.risingEdge_audioToNiosLeft, State.risingEdge_audioToNiosRight] at hheld
  rw [bitRun_succ]
  exact hheld.2.2

/-- They show the same pair of words for 32 periods. -/
theorem bitRun_audioToNios_frame {j : ℕ} (hj : j < 32) :
    (bitRun s input (32 * n + j)).audioToNiosLeft = (bitRun s input (32 * n)).audioToNiosLeft ∧
      (bitRun s input (32 * n + j)).audioToNiosRight =
        (bitRun s input (32 * n)).audioToNiosRight := by
  induction j with
  | zero => exact ⟨rfl, rfl⟩
  | succ j ih =>
    have hheld := bitRun_audioToNios_held s input (show (32 * n + j) % 32 ≠ 31 by omega)
    exact ⟨hheld.1.trans (ih (by omega)).1, hheld.2.trans (ih (by omega)).2⟩

/-- The words received in frame `n`, as the bridge registers show them when frame `n + 1` opens. -/
theorem released_audioToNios :
    (released s input (384 * (n + 1) + 12)).audioToNiosLeft =
        (bitRun s input (32 * n + 31 + 1)).adcDataLeftChannelRegister ∧
      (released s input (384 * (n + 1) + 12)).audioToNiosRight =
        (bitRun s input (32 * n + 31 + 1)).adcDataRightChannelRegister := by
  have hframe := bitRun_audioToNios_frame s input (n + 1) (show 1 < 32 by omega)
  have hlast := bitRun_audioToNios s input n
  rw [show 384 * (n + 1) + 12 = 12 * (32 * (n + 1) + 1) by omega, released_twelve_mul,
    State.atPhase_audioToNiosLeft, State.atPhase_audioToNiosRight, hframe.1, hframe.2]
  exact hlast

/-- From one exchange of words to the next it shows the same word. -/
theorem audioToNiosLeft_between {k : ℕ} (hlow : 384 * n ≤ k) (hhigh : k < 384 * n + 384) :
    (released s input k).audioToNiosLeft = (released s input (384 * n)).audioToNiosLeft := by
  have hframe := bitRun_audioToNios_frame s input n (show k / 12 - 32 * n < 32 by omega)
  rw [Nat.add_sub_cancel' (by omega)] at hframe
  have huntouched := released_of_untouched State.audioToNiosLeft (fun _ _ _ ↦ rfl)
    (fun i t ↦ t.risingEdge_audioToNiosLeft i) s input
  rw [huntouched, huntouched, show 384 * n / 12 = 32 * n by omega]
  exact hframe.1

/-- The left word that NIOS reads in frame `n + 1` is the one received in the left slot of frame
`n`. -/
theorem msbFirst_audioToNiosLeft :
    msbFirst (released s input (384 * (n + 1) + 12)).audioToNiosLeft =
      received (released s input) (fun k ↦ (input k).adcData) true n := by
  have hrests := bitRun_left_rests s input n (Nat.le_refl 15)
  have hslot := bitRun_left_slot s input n (Nat.le_refl 16)
  rw [(released_audioToNios s input n).1, show 32 * n + 31 + 1 = 32 * n + 17 + 15 by omega, hrests,
    show 32 * n + 17 = 32 * n + 1 + 16 by omega, hslot, msbFirst_run_shiftIn, received,
    slotEdges_released, List.map_map]
  rfl

/-- The right word lags by one bit: it starts with the bit received before frame `n` opened and
lacks the last one of its right slot. -/
theorem msbFirst_audioToNiosRight :
    msbFirst (released s input (384 * (n + 1) + 12)).audioToNiosRight =
      (input (384 * n + 5)).adcData ::
        (received (released s input) (fun k ↦ (input k).adcData) false n).dropLast := by
  have hslot := bitRun_right_slot s input n (Nat.le_refl 15)
  have hreceived : received (released s input) (fun k ↦ (input k).adcData) false n =
      (List.range 15).map (fun j ↦ (input (12 * (32 * n + 17 + j) + 5)).adcData) ++
        [(input (12 * (32 * n + 17 + 15) + 5)).adcData] := by
    rw [received, slotEdges_released, List.map_map, List.range_succ, List.map_append]
    rfl
  rw [(released_audioToNios s input n).2, show 32 * n + 31 + 1 = 32 * n + 17 + 15 by omega, hslot,
    msbFirst_run_shiftIn, hreceived, List.dropLast_concat, List.range_succ_eq_map, List.map_cons,
    List.map_map]
  rfl

end Bridge

/-- A list that is unchanged when a value is pushed in at its front and its last one falls out
consists of that value. -/
theorem cons_dropLast_eq_iff (value : Bool) (bits : List Bool) (hbits : bits ≠ []) :
    value :: bits.dropLast = bits ↔ ∀ bit ∈ bits, bit = value := by
  induction bits generalizing value with
  | nil => exact absurd rfl hbits
  | cons first rest ih =>
    by_cases hrest : rest = []
    · subst hrest
      simp [eq_comm]
    · rw [List.dropLast_cons_of_ne_nil hrest, List.cons.injEq, ih first hrest]
      constructor
      · rintro ⟨rfl, hall⟩ bit hbit
        rcases List.mem_cons.mp hbit with rfl | hmem
        · rfl
        · exact hall bit hmem
      · intro hall
        have hfirst := hall first List.mem_cons_self
        refine ⟨hfirst.symm, fun bit hbit ↦ ?_⟩
        rw [hfirst]
        exact hall bit (List.mem_cons_of_mem _ hbit)

/-- When frame `n + 1` opens, the bridge registers show the two words received in frame `n` exactly
when the bits of its right slot all equal the bit received just before it opened. -/
theorem captured_iff (s : State) (input : ℕ → Inputs) (n : ℕ) :
    (msbFirst (released s input (384 * (n + 1) + 12)).audioToNiosLeft =
          received (released s input) (fun k ↦ (input k).adcData) true n ∧
        msbFirst (released s input (384 * (n + 1) + 12)).audioToNiosRight =
          received (released s input) (fun k ↦ (input k).adcData) false n) ↔
      ∀ bit ∈ received (released s input) (fun k ↦ (input k).adcData) false n,
        bit = (input (384 * n + 5)).adcData := by
  have hnonempty : received (released s input) (fun k ↦ (input k).adcData) false n ≠ [] := by
    rw [received, slotEdges_released]
    simp
  rw [msbFirst_audioToNiosRight, cons_dropLast_eq_iff _ _ hnonempty]
  exact and_iff_right (msbFirst_audioToNiosLeft s input n)

/-- With a single one among the ADC bits, the last one of the right slot of frame 0, the right
bridge register shows zero when frame 1 opens. -/
theorem captured_not_received :
    ¬ ∀ (s : State) (input : ℕ → Inputs) (n : ℕ),
      msbFirst (released s input (384 * (n + 1) + 12)).audioToNiosLeft =
          received (released s input) (fun k ↦ (input k).adcData) true n ∧
        msbFirst (released s input (384 * (n + 1) + 12)).audioToNiosRight =
          received (released s input) (fun k ↦ (input k).adcData) false n := by
  intro hreceived
  have hright := (hreceived ⟨false, 0, false, false, 0, 15, 15, 0, 0, 0, 0, 0, 0, false, 0⟩
    (niosInput (fun k ↦ k == 389) (fun _ ↦ 0) (fun _ ↦ 0)) 0).2
  rw [msbFirst_audioToNiosRight, received, slotEdges_released] at hright
  exact absurd hright (by decide)

end AudioProcessor.AdcDac
