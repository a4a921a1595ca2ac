import AudioProcessor.Codec.Run

/-!
# The words a run sends

`transfers x n` lists the words loaded at the STARTs before tick `n`, each with its position.
An acknowledged pass from position `pos` adds the words of the positions from `pos` to 10, each
with the effective volume at its START (`transfers_pass`), and outside a pass nothing is added.
-/

set_option autoImplicit false
set_option relaxedAutoImplicit false

namespace AudioProcessor.Codec

/-- The words loaded into the sequencer before tick `n`, with their positions. -/
def transfers (x : ℕ → Slow) : ℕ → List (ℕ × BitVec 16)
  | 0 => []
  | n + 1 => transfers x n ++
      if (x n).i2c.sdCounter = 1 then [((x n).muxSelect, (x (n + 1)).i2c.sd.setWidth 16)] else []

theorem transfers_succ_of_ne (x : ℕ → Slow) {n : ℕ} (hcounter : (x n).i2c.sdCounter ≠ 1) :
    transfers x (n + 1) = transfers x n := by
  rw [transfers, if_neg hcounter, List.append_nil]

/-- The last word loaded for a position. -/
def lastWord (pos : ℕ) (sent : List (ℕ × BitVec 16)) : Option (BitVec 16) :=
  sent.reverse.lookup pos

theorem lastWord_concat (pos pos' : ℕ) (word : BitVec 16) (sent : List (ℕ × BitVec 16)) :
    lastWord pos (sent ++ [(pos', word)]) = if pos = pos' then some word else lastWord pos sent := by
  rw [lastWord, List.reverse_append, List.reverse_singleton, List.singleton_append,
    List.lookup_cons]
  by_cases hpos : pos = pos'
  · rw [if_pos hpos, beq_iff_eq.mpr hpos]
  · rw [if_neg hpos, beq_eq_false_iff_ne.mpr hpos]
    rfl

namespace Slow

variable {start : Slow} (hstart : start.Valid) {inputs : ℕ → TickInputs}

include hstart

/-- Outside frames nothing is loaded. -/
theorem transfers_succ_of_phase {n : ℕ}
    (hphase : ∀ pos, (start.run inputs n).phase ≠ .frame pos 1) :
    transfers (start.run inputs) (n + 1) = transfers (start.run inputs) n := by
  refine transfers_succ_of_ne _ fun hcounter ↦ ?_
  have hframe := frame_of_sdCounter (valid_run hstart inputs n) (by omega) (by omega)
  rw [hcounter] at hframe
  exact hphase _ hframe

/-- The tick of a START loads the word of its position with the volume it reads. -/
theorem transfers_start {n pos : ℕ} (hphase : (start.run inputs n).phase = .frame pos 1) :
    transfers (start.run inputs) (n + 1) =
      transfers (start.run inputs) n ++ [(pos, i2cData pos (inputs n).effectiveVol)] := by
  have hcounter := (inFrame_of_frame (valid_run hstart inputs n) hphase).2.sdCounter
  have hone : (start.run inputs n).i2c.sdCounter = 1 := hcounter.trans (if_neg (by omega))
  have hword : (start.run inputs (n + 1)).i2c.sd.setWidth 16 =
      i2cData pos (inputs n).effectiveVol := by
    rw [run_succ, tick, Sequencer.tick, (Sequencer.registers_transfer _ _ _).2.2.2, if_pos hone,
      i2cControllerData, BitVec.setWidth_append, dif_pos (le_refl 16), muxSelect_of_frame hphase]
    exact BitVec.setWidth_eq _
  rw [transfers, if_pos hone, hword, muxSelect_of_frame hphase]

/-- While the controller is stopped nothing is loaded. -/
theorem transfers_stop {n k : ℕ}
    (hphase : ∀ j < k, (start.run inputs (n + j)).phase = .stop) :
    transfers (start.run inputs) (n + k) = transfers (start.run inputs) n := by
  induction k with
  | zero => rfl
  | succ k ih =>
    rw [← Nat.add_assoc, transfers_succ_of_phase hstart fun pos h ↦ ?_,
      ih fun j hj ↦ hphase j (by omega)]
    rw [hphase k (Nat.lt_succ_self k)] at h
    cases h

section Frame

variable {n pos : ℕ} (hbegin : (start.run inputs n).phase = .frame pos 0)

include hbegin

/-- A frame loads the word of its position at its first tick. -/
theorem transfers_frame {c : ℕ} (hlow : 2 ≤ c) (hhigh : c ≤ 33) :
    transfers (start.run inputs) (n + c) =
      transfers (start.run inputs) n ++
        [(pos, i2cData pos (inputs (n + 1)).effectiveVol)] := by
  induction c, hlow using Nat.le_induction with
  | base =>
    have hzero := sdCounter_frame hstart inputs hbegin (show 0 ≤ 33 by omega)
    rw [← Nat.add_assoc n 1 1,
      transfers_start hstart (phase_frame hstart inputs hbegin (show 1 ≤ 33 by omega)),
      transfers_succ_of_ne _ (by rw [Nat.add_zero] at hzero; omega)]
  | succ c hlow ih =>
    rw [← Nat.add_assoc, transfers_succ_of_ne, ih (by omega)]
    rw [sdCounter_frame hstart inputs hbegin (by omega)]
    omega

end Frame

variable (hacked : start.Acknowledged inputs)

include hacked

/-- An acknowledged frame loads one word. -/
theorem transfers_acked {n pos : ℕ} (hbegin : (start.run inputs n).phase = .frame pos 0) :
    transfers (start.run inputs) (n + 36) =
      transfers (start.run inputs) n ++
        [(pos, i2cData pos (inputs (n + 1)).effectiveVol)] := by
  have hpulls := pulls_of_acknowledged hstart hacked hbegin
  obtain ⟨h34, h35, -⟩ := phase_acked hstart inputs hbegin hpulls
  have h33 := phase_frame hstart inputs hbegin (le_refl 33)
  rw [show n + 36 = n + 35 + 1 from rfl, transfers_succ_of_phase hstart (by simp [h35]),
    show n + 35 = n + 34 + 1 from rfl, transfers_succ_of_phase hstart (by simp [h34]),
    show n + 34 = n + 33 + 1 from rfl, transfers_succ_of_phase hstart (by simp [h33]),
    transfers_frame hstart hbegin (by omega) (by omega)]

/-- An acknowledged pass loads the words of its positions one after the other. -/
theorem transfers_pass {n pos : ℕ} (hbegin : (start.run inputs n).phase = .frame pos 0) {k : ℕ}
    (hk : pos + k ≤ 11) :
    transfers (start.run inputs) (n + 36 * k) =
      transfers (start.run inputs) n ++
        (List.range k).map fun j ↦
          (pos + j, i2cData (pos + j) (inputs (n + 36 * j + 1)).effectiveVol) := by
  induction k with
  | zero => simp
  | succ k ih =>
    have hframe := phase_pass hstart hacked hbegin (show pos + k ≤ 10 by omega)
    rw [Nat.mul_succ, ← Nat.add_assoc, transfers_acked hstart hacked hframe, ih (by omega),
      List.range_succ, List.map_append, List.append_assoc]
    rfl

/-- What a run loads by the time an acknowledged pass is over. -/
theorem transfers_pass_end {n pos : ℕ} (hbegin : (start.run inputs n).phase = .frame pos 0)
    (hpos : pos ≤ 10) :
    transfers (start.run inputs) (n + 36 * (11 - pos) + 1) =
      transfers (start.run inputs) n ++
        (List.range (11 - pos)).map fun j ↦
          (pos + j, i2cData (pos + j) (inputs (n + 36 * j + 1)).effectiveVol) := by
  have hend := (phase_pass_end hstart hacked hbegin hpos).1
  rw [transfers_succ_of_phase hstart (by simp [hend]),
    transfers_pass hstart hacked hbegin (show pos + (11 - pos) ≤ 11 by omega)]

section Change

variable (hstop : start.phase = .stop) {N bound first : ℕ} (hfirst : first ≤ 10)
  (hbefore : ∀ k < N, k < bound → (start.run inputs k).leavesStop (inputs k).before = false)
  (hleaves : N < bound → (start.run inputs N).leavesStop (inputs N).before = true)
  (hvolume : N + 1 < bound → (if (inputs (N + 1)).pulse then 3 else 0) = first)
  (hafter : ∀ k ≥ N + 3 + 36 * (11 - first), k < bound →
    (start.run inputs k).leavesStop (inputs k).before = false)

include hstop hbefore

omit hacked in
/-- Until the change is read the controller stays in `stop`. -/
theorem phase_before_change {n : ℕ} (hn : n ≤ N) (hbound : n ≤ bound) :
    (start.run inputs n).phase = .stop := by
  induction n with
  | zero => exact hstop
  | succ n ih =>
    rw [phase_run_succ hstart, ih (by omega) (by omega), hbefore n (by omega) (by omega)]
    rfl

include hleaves

omit hacked in
/-- The tick that reads it is the way into a pass. -/
theorem phase_change (hbound : N < bound) : (start.run inputs (N + 1)).phase = .jump := by
  rw [phase_run_succ hstart, phase_before_change hstart hstop hbefore (le_refl N) hbound.le,
    hleaves hbound]
  rfl

include hvolume

omit hacked in
/-- The next tick begins the pass. -/
theorem begin_of_change (hbound : N + 1 < bound) :
    (start.run inputs (N + 2)).phase = .frame first 0 := by
  rw [show N + 2 = N + 1 + 1 from rfl, phase_run_succ hstart,
    phase_change hstart hstop hbefore hleaves (by omega), Phase.next, hvolume hbound]

include hfirst hafter

/-- After the pass the controller stays in `stop`. -/
theorem phase_after_change {k : ℕ} (hk : N + 3 + 36 * (11 - first) + k ≤ bound) :
    (start.run inputs (N + 3 + 36 * (11 - first) + k)).phase = .stop := by
  induction k with
  | zero =>
    have hbegin := begin_of_change hstart hstop hbefore hleaves hvolume (by omega)
    have hend := (phase_pass_end hstart hacked hbegin hfirst).2
    rwa [show N + 2 + 36 * (11 - first) + 1 = N + 3 + 36 * (11 - first) + 0 by omega] at hend
  | succ k ih =>
    rw [← Nat.add_assoc, phase_run_succ hstart, ih (by omega), hafter _ (by omega) (by omega)]
    rfl

/-- A change of the signals read at tick `N` makes a controller that was stopped leave `stop` for
one pass, where no other change is read before tick `N` or after the pass. The inputs are looked at
up to tick `bound` only. -/
theorem phase_eq_stop_iff {n : ℕ} (hn : n ≤ bound) :
    (start.run inputs n).phase = .stop ↔ n ≤ N ∨ N + 3 + 36 * (11 - first) ≤ n := by
  refine ⟨fun hphase ↦ ?_, fun hout ↦ ?_⟩
  · by_contra hwithin
    rcases Nat.eq_or_lt_of_le (show N + 1 ≤ n by omega) with rfl | hlow
    · rw [phase_change hstart hstop hbefore hleaves (by omega)] at hphase
      contradiction
    · have hbegin := begin_of_change hstart hstop hbefore hleaves hvolume (by omega)
      exact phase_pass_ne_stop hstart hacked hbegin hfirst hlow (by omega) hphase
  · rcases hout with hearly | hlate
    · exact phase_before_change hstart hstop hbefore hearly hn
    · obtain ⟨k, rfl⟩ := Nat.exists_eq_add_of_le hlate
      exact phase_after_change hstart hacked hstop hfirst hbefore hleaves hvolume hafter hn

/-- The pass sends the words from position `first` on. -/
theorem transfers_change {n : ℕ} (hover : N + 3 + 36 * (11 - first) ≤ n) (hn : n ≤ bound) :
    transfers (start.run inputs) n = (List.range (11 - first)).map fun j ↦
      (first + j, i2cData (first + j) (inputs (N + 2 + 36 * j + 1)).effectiveVol) := by
  obtain ⟨k, rfl⟩ := Nat.exists_eq_add_of_le hover
  have hbegin := begin_of_change hstart hstop hbefore hleaves hvolume (by omega)
  have hjumps := phase_change hstart hstop hbefore hleaves (by omega)
  have hidle : transfers (start.run inputs) (0 + (N + 1)) = transfers (start.run inputs) 0 :=
    transfers_stop hstart fun j hj ↦ by
      rw [Nat.zero_add]
      exact phase_before_change hstart hstop hbefore (by omega) (by omega)
  have hnothing : transfers (start.run inputs) (N + 2) = [] := by
    rw [Nat.zero_add] at hidle
    rw [show N + 2 = N + 1 + 1 from rfl,
      transfers_succ_of_phase hstart fun pos h ↦ Phase.noConfusion (hjumps.symm.trans h), hidle]
    rfl
  rw [transfers_stop hstart fun j hj ↦
      phase_after_change hstart hacked hstop hfirst hbefore hleaves hvolume hafter (by omega),
    show N + 3 + 36 * (11 - first) = N + 2 + 36 * (11 - first) + 1 by omega,
    transfers_pass_end hstart hacked hbegin hfirst, hnothing, List.nil_append]

end Change

/-- A pass that the first tick begins sends the words from its position on and then ends. -/
theorem transfers_of_begin (hjump : start.phase = .jump) {first : ℕ} (hfirst : first ≤ 10)
    (hbegin : (start.run inputs 1).phase = .frame first 0) :
    (start.run inputs (36 * (11 - first) + 2)).phase = .stop ∧
      transfers (start.run inputs) (36 * (11 - first) + 2) =
        (List.range (11 - first)).map fun j ↦
          (first + j, i2cData (first + j) (inputs (36 * j + 2)).effectiveVol) := by
  have hnothing : transfers (start.run inputs) (0 + 1) = [] :=
    transfers_succ_of_phase hstart fun pos h ↦ Phase.noConfusion (hjump.symm.trans h)
  have hlast : 36 * (11 - first) + 2 = 1 + 36 * (11 - first) + 1 := by omega
  rw [hlast]
  refine ⟨(phase_pass_end hstart hacked hbegin hfirst).2, ?_⟩
  rw [transfers_pass_end hstart hacked hbegin hfirst, hnothing, List.nil_append]
  refine List.map_congr_left fun j _ ↦ ?_
  rw [show 1 + 36 * j + 1 = 36 * j + 2 by omega]

/-- A pass from the reset that sees no volume pulse sends all positions and ends before tick 398. -/
theorem transfers_firstPass (hjump : start.phase = .jump)
    (hpulse : (inputs 0).pulse = false) :
    (start.run inputs 398).phase = .stop ∧
      transfers (start.run inputs) 398 =
        (List.range 11).map fun j ↦ (j, i2cData j (inputs (36 * j + 2)).effectiveVol) := by
  have hbegin : (start.run inputs (0 + 1)).phase = .frame 0 0 := by
    rw [phase_run_succ hstart, show (start.run inputs 0).phase = .jump from hjump, hpulse]
    rfl
  obtain ⟨hstop, hsent⟩ := transfers_of_begin hstart hacked hjump (Nat.zero_le 10) hbegin
  refine ⟨hstop, hsent.trans (List.map_congr_left fun j _ ↦ ?_)⟩
  rw [Nat.zero_add]

end Slow

/-- The volume level stays while no pulse is seen. -/
theorem volLevel_steady (s : State) {signals : ℕ → Signals}
    (hquiet : ∀ t, (signals t).volUp = false ∧ (signals t).volDown = false) (answers : ℕ → Bool)
    (t : ℕ) : (run s signals answers t).volLevel = s.volLevel := by
  induction t with
  | zero => rfl
  | succ t ih =>
    rw [run_succ, step_volLevel, State.nextVolLevel, (hquiet t).1, (hquiet t).2]
    exact ih

/-- With no pulse seen the first pass after a reset sends the positions 0 to 10. -/
theorem firstPass_idle (s : State) :
    (beforeTick s (fun _ ↦ ⟨false, false, false⟩) (fun _ ↦ true) 398).currentState = .stop ∧
      (transfers (beforeTick s (fun _ ↦ ⟨false, false, false⟩) (fun _ ↦ true)) 398).map
        Prod.fst = List.range 11 := by
  obtain ⟨hstop, hsent⟩ := Slow.transfers_firstPass (Slow.valid_asyncReset s.slow)
    (fun _ _ ↦ rfl) (Slow.phase_asyncReset s.slow)
    (show (tickInputs s.asyncReset (fun _ ↦ ⟨false, false, false⟩) (fun _ ↦ true) 0).pulse = false
      from rfl)
  rw [funext (beforeTick_eq_run s _ _), hsent, List.map_map]
  exact ⟨Slow.currentState_of_stop hstop, List.map_id _⟩

end AudioProcessor.Codec
