import AudioProcessor.AdcDac.Frame

/-!
# The two slots of a frame on the wire

What an observer of the audio pins sees. A view gives the state just before every rising edge of
the audio clock. Frame `n` is the 384 of these edges from the rise of `data_ready_flag` that opens
it to the next rise (`dataReadyFlag_rises_iff`), and a slot of the frame is its rising bit-clock
edges under one value of the slot select. `sent` is the value of `dacData` and `received` that of
`adcData` at the edges of a slot. After the release of the reset both slots of every frame have
sixteen edges (`slotEdges_released`).
-/

set_option autoImplicit false
set_option relaxedAutoImplicit false

namespace AudioProcessor.AdcDac

/-! ### Slots of a view -/

/-- The edges of the audio clock that belong to frame `n`. -/
def frameEdges (n : ℕ) : List ℕ := List.range' (384 * n + 12) 384

/-- The bit clock rises at edge `k` of the audio clock. -/
def bitClockRises (view : ℕ → State) (k : ℕ) : Bool :=
  !(view k).internalBitClock && (view (k + 1)).internalBitClock

/-- The rising bit-clock edges of frame `n` at which the slot select has the given value: the left
slot for `true`, the right one for `false`. -/
def slotEdges (view : ℕ → State) (select : Bool) (n : ℕ) : List ℕ :=
  (frameEdges n).filter fun k ↦ bitClockRises view k && (view k).dacLRSelect == select

/-- The values of `dacData` at the edges of a slot. -/
def sent (view : ℕ → State) (select : Bool) (n : ℕ) : List Bool :=
  (slotEdges view select n).map fun k ↦ (view k).dacData

/-- The values of `adcData` at the edges of a slot. -/
def received (view : ℕ → State) (adcData : ℕ → Bool) (select : Bool) (n : ℕ) : List Bool :=
  (slotEdges view select n).map adcData

/-! ### The slots after a reset -/

section Released

variable (s : State) (input : ℕ → Inputs)

/-- The bit clock is high in the second half of every twelve edges. -/
theorem released_internalBitClock (k : ℕ) :
    (released s input k).internalBitClock = decide (6 ≤ k % 12) := by
  have hsplit : 12 * (k / 12) + k % 12 = k := by omega
  by_cases hhalf : k % 12 < 6
  · have hlow := released_low_half s input (k / 12) (show k % 12 ≤ 5 by omega)
    rw [hsplit] at hlow
    rw [hlow, decide_eq_false (by omega), State.atPhase_internalBitClock]
  · have hhigh := released_high_half s input (k / 12) (show k % 12 - 6 ≤ 5 by omega)
    rw [show 12 * (k / 12) + 6 + (k % 12 - 6) = k by omega] at hhigh
    rw [hhigh, decide_eq_true (by omega), State.atPhase_internalBitClock]

/-- The slot select during bit period `k / 12`. -/
theorem released_internalLRSelect (k : ℕ) :
    (released s input k).internalLRSelect =
      decide (1 ≤ k / 12 % 32 ∧ k / 12 % 32 ≤ 16) := by
  rw [← (slots_bitRun s input (k / 12)).internalLRSelect]
  exact released_of_untouched State.internalLRSelect (fun _ _ _ ↦ rfl)
    (fun i t ↦ t.risingEdge_internalLRSelect i) s input k

/-- The flag rises at the edges that open the frames, and at no others. -/
theorem dataReadyFlag_rises_iff (k : ℕ) :
    (released s input k).dataReadyFlag = false ∧ (released s input (k + 1)).dataReadyFlag = true ↔
      ∃ n, k + 1 = 384 * n + 12 := by
  simp only [State.dataReadyFlag, released_internalLRSelect, decide_eq_false_iff_not,
    decide_eq_true_eq]
  constructor
  · intro hrise
    exact ⟨k / 384, by omega⟩
  · rintro ⟨n, hn⟩
    omega

theorem bitClockRises_released (k : ℕ) :
    bitClockRises (released s input) k = (k % 12 == 5) := by
  simp only [bitClockRises, released_internalBitClock]
  rw [Bool.eq_iff_iff]
  simp
  omega

end Released

/-- Among the edges of whole bit periods, the rising bit-clock edges of the periods selected. -/
theorem filter_rises (q : ℕ → Bool) (first count : ℕ) :
    (List.range' (12 * first) (12 * count)).filter (fun k ↦ k % 12 == 5 && q (k / 12)) =
      ((List.range' first count).filter q).map fun r ↦ 12 * r + 5 := by
  induction count with
  | zero => rfl
  | succ count ih =>
    have hmod (i : ℕ) (hi : i < 12) : (12 * (first + count) + i) % 12 = i := by omega
    have hdiv : (12 * (first + count) + 5) / 12 = first + count := by omega
    have hblock : (List.range' (12 * (first + count)) 12).filter
        (fun k ↦ k % 12 == 5 && q (k / 12)) =
          ([first + count].filter q).map fun r ↦ 12 * r + 5 := by
      cases hq : q (first + count) <;>
        simp [List.range', List.filter, hmod, hdiv, hq, Nat.add_assoc]
    rw [show 12 * (count + 1) = 12 * count + 12 by omega, ← List.range'_append_1,
      ← List.range'_append_1, List.filter_append, List.filter_append, List.map_append, ih,
      ← Nat.mul_add, hblock]
    rfl

/-- Bit period `r` lies in the slot with the given value of the slot select. -/
def inSlot (select : Bool) (r : ℕ) : Bool := decide (1 ≤ r % 32 ∧ r % 32 ≤ 16) == select

/-- After the release of the reset each slot of a frame has sixteen rising bit-clock edges, those
of bit periods `1` to `16` of the frame in the left slot and those of the next sixteen in the
right one. -/
theorem slotEdges_released (s : State) (input : ℕ → Inputs) (select : Bool) (n : ℕ) :
    slotEdges (released s input) select n =
      (List.range 16).map fun j ↦ 12 * (32 * n + (if select then 1 else 17) + j) + 5 := by
  have hpredicate : (fun k ↦ bitClockRises (released s input) k &&
      (released s input k).dacLRSelect == select) =
        fun k ↦ k % 12 == 5 && inSlot select (k / 12) := by
    funext k
    rw [bitClockRises_released, State.dacLRSelect, released_internalLRSelect, inSlot]
  have hleft : (List.range' (32 * n + 1) 16).filter (inSlot select) =
      if select then List.range' (32 * n + 1) 16 else [] := by
    cases select
    · refine List.filter_eq_nil_iff.mpr fun r hr ↦ ?_
      rw [List.mem_range'_1] at hr
      simp [inSlot]
      omega
    · refine List.filter_eq_self.mpr fun r hr ↦ ?_
      rw [List.mem_range'_1] at hr
      simp [inSlot]
      omega
  have hright : (List.range' (32 * n + 17) 16).filter (inSlot select) =
      if select then [] else List.range' (32 * n + 17) 16 := by
    cases select
    · refine List.filter_eq_self.mpr fun r hr ↦ ?_
      rw [List.mem_range'_1] at hr
      simp [inSlot]
      omega
    · refine List.filter_eq_nil_iff.mpr fun r hr ↦ ?_
      rw [List.mem_range'_1] at hr
      simp [inSlot]
      omega
  have hsplit : List.range' (32 * n + 1) 32 =
      List.range' (32 * n + 1) 16 ++ List.range' (32 * n + 17) 16 :=
    (@List.range'_append_1 (32 * n + 1) 16 16).symm
  rw [slotEdges, frameEdges, hpredicate, show 384 * n + 12 = 12 * (32 * n + 1) by omega,
    show 384 = 12 * 32 by rfl, filter_rises, hsplit, List.filter_append, hleft, hright]
  cases select
  · simp [List.range'_eq_map_range]
  · simp [List.range'_eq_map_range]

end AudioProcessor.AdcDac
