import AudioProcessor.Codec.Run

/-!
# Transfers that are not acknowledged

The state machine goes back to `transmit` when a transfer was not acknowledged, but it keeps
`i2cRun` high on the way: the assignments that would clear it in `checkAcknowledge` are overridden
by the last one of that branch. The sequencer starts from count 0 only, so it is never started
again, and the controller hangs. Hence transfers are retried, and passes are completed, exactly in
the runs in which the slave pulls every acknowledge slot low (`retries_and_completes_iff`).
-/

set_option autoImplicit false
set_option relaxedAutoImplicit false

namespace AudioProcessor.Codec

/-- The transfer for a position has finished: `done` is seen high in `checkAcknowledge`. -/
def Slow.Finishes (pos : ℕ) (s : Slow) : Prop :=
  s.currentState = .checkAcknowledge ∧ s.i2c.i2cEnd = true ∧ s.muxSelect = pos

/-- Whenever a transfer has finished that was not acknowledged, a new START for the same position
follows within a bounded number of ticks. -/
def Retries (x : ℕ → Slow) : Prop :=
  ∃ bound, ∀ n, ∀ pos ≤ 10, (x n).Finishes pos → (x n).i2c.ackO = true →
    ∃ k ≤ bound, (x (n + k)).Starts pos

/-- Every pass that is begun has all its positions acknowledged and reaches `stop`. -/
def Completes (x : ℕ → Slow) : Prop :=
  ∀ n, (x n).currentState = .resetState →
    (∀ pos ≤ 10, (x (n + 1)).muxSelect ≤ pos →
      ∃ k, (x (n + k)).Finishes pos ∧ (x (n + k)).i2c.ackO = false) ∧
    ∃ k, (x (n + k)).currentState = .stop

/-- The slave answers in the acknowledge slot that ends with tick `n`, if it is one. -/
def Answered (x : ℕ → Slow) (answers : ℕ → Bool) (n : ℕ) : Prop :=
  (x n).i2c.inAckSlot = true → answers (1250 + 2500 * n) = true

variable (s : State) (signals : ℕ → Signals) (answers : ℕ → Bool)

/-- The slave answers in all slots in the sense of the 20 kHz domain. -/
theorem acknowledged_iff :
    s.slow.asyncReset.Acknowledged (tickInputs s.asyncReset signals answers) ↔
      ∀ n, Answered (beforeTick s signals answers) answers n := by
  refine forall_congr' fun n ↦ ?_
  rw [Answered, beforeTick_eq_run, tickInputs, tickEdge_asyncReset]

namespace Slow

/-- Transfers finish at the last count of a frame, or in one that hangs. -/
theorem Finishes.phase_eq {s : Slow} {pos : ℕ} (h : s.Finishes pos) (hvalid : s.Valid) :
    s.phase = .frame pos 33 ∨ s.phase = .hung pos := by
  obtain ⟨hstate, hend, rfl⟩ := h
  have hphase := phase_of_checkAcknowledge hstate
  by_cases hcount : 1 ≤ s.i2c.sdCounter ∧ s.i2c.sdCounter ≤ 33
  · rw [if_pos hcount] at hphase
    have hlast := (inFrame_of_frame hvalid hphase).2.i2cEnd hcount.1
    rw [hend, eq_comm, decide_eq_true_eq] at hlast
    exact .inl (by rw [hphase, show s.i2c.sdCounter = 33 by omega])
  · exact .inr (by rw [hphase, if_neg hcount])

variable {start : Slow} (hstart : start.Valid) (hjump : start.phase = .jump)
  {inputs : ℕ → TickInputs}

include hstart hjump

/-- A slot that was not answered is the end of all STARTs: a transfer finishes and is not
retried. -/
theorem not_retries_of_nack {n : ℕ} (hslot : (start.run inputs n).i2c.inAckSlot = true)
    (hnack : (inputs n).pull = false) : ¬ Retries (start.run inputs) := by
  rintro ⟨bound, hretries⟩
  obtain ⟨b, c, pos, rfl, hc, hbegin⟩ := begin_of_slot hstart inputs hjump hslot
  have hpulls : ((inputs (b + 12)).pull && (inputs (b + 21)).pull && (inputs (b + 30)).pull) =
      false := by
    rcases hc with rfl | rfl | rfl <;> simp [hnack]
  have hlast := phase_frame hstart inputs hbegin (le_refl 33)
  obtain ⟨hpos, hframe⟩ := inFrame_of_frame (valid_run hstart inputs (b + 33)) hlast
  have hfinishes : (start.run inputs (b + 33)).Finishes pos :=
    ⟨checkAcknowledge_of_frame hlast (by omega) (by omega), hframe.i2cEnd (by omega),
      muxSelect_of_frame hlast⟩
  have hack := ackO_frame hstart inputs hbegin
  rw [hpulls, Bool.not_false] at hack
  obtain ⟨k, -, hcounter, -⟩ := hretries (b + 33) pos hpos hfinishes hack
  cases k with
  | zero =>
    have hcount := sdCounter_frame hstart inputs hbegin (le_refl 33)
    rw [Nat.add_zero, hcount] at hcounter
    omega
  | succ k =>
    have hhung := phase_hung hstart inputs (phase_nacked hstart inputs hbegin hpulls) k
    have hvalid := valid_run hstart inputs (b + 34 + k)
    rw [Valid, hhung] at hvalid
    have hlt := hvalid.2.lt
    rw [show b + 33 + (k + 1) = b + 34 + k by omega] at hcounter
    omega

variable (hacked : start.Acknowledged inputs)

include hacked

/-- With every slot answered no transfer finishes without an acknowledgement. -/
theorem ackO_of_finishes {n pos : ℕ} (hfinishes : (start.run inputs n).Finishes pos) :
    (start.run inputs n).i2c.ackO = false := by
  rcases hfinishes.phase_eq (valid_run hstart inputs n) with hphase | hhung
  · obtain ⟨hle, hbegin⟩ := phase_begin hstart inputs hjump hphase
    have hack := ackO_frame hstart inputs hbegin
    rwa [pulls_of_acknowledged hstart hacked hbegin, Nat.sub_add_cancel hle] at hack
  · exact absurd hhung (phase_ne_hung hstart hacked hjump n pos)

theorem retries_of_acknowledged : Retries (start.run inputs) :=
  ⟨0, fun _ _ _ hfinishes hack ↦
    absurd hack (by simp [ackO_of_finishes hstart hjump hacked hfinishes])⟩

omit hjump in
theorem completes_of_acknowledged : Completes (start.run inputs) := by
  intro n hreset
  have hphase := phase_of_resetState hreset
  obtain ⟨first, hfirst, hbegin⟩ : ∃ first ≤ 10,
      (start.run inputs (n + 1)).phase = .frame first 0 := by
    refine ⟨if (inputs n).pulse then 3 else 0, by split_ifs <;> omega, ?_⟩
    rw [phase_run_succ hstart, hphase, Phase.next]
  refine ⟨fun pos hpos hle ↦ ?_, ?_⟩
  · rw [muxSelect_of_frame hbegin] at hle
    have hframe := phase_pass hstart hacked hbegin (show first + (pos - first) ≤ 10 by omega)
    rw [Nat.add_sub_cancel' hle] at hframe
    have hlast := phase_frame hstart inputs hframe (le_refl 33)
    have hend := (inFrame_of_frame (valid_run hstart inputs _) hlast).2.i2cEnd (by omega)
    have hack := ackO_frame hstart inputs hframe
    rw [pulls_of_acknowledged hstart hacked hframe] at hack
    refine ⟨1 + 36 * (pos - first) + 33, ?_⟩
    rw [← Nat.add_assoc, ← Nat.add_assoc]
    exact ⟨⟨checkAcknowledge_of_frame hlast (by omega) (by omega), hend,
      muxSelect_of_frame hlast⟩, hack⟩
  · have hstop := (phase_pass_end hstart hacked hbegin hfirst).2
    refine ⟨1 + 36 * (11 - first) + 1, ?_⟩
    rw [← Nat.add_assoc, ← Nat.add_assoc]
    exact currentState_of_stop hstop

end Slow

/-- After a reset, every transfer that is not acknowledged is retried, and every pass is completed
under a slave that acknowledges all but finitely many slots, if and only if the slave answers in
every acknowledge slot. -/
theorem retries_and_completes_iff :
    (Retries (beforeTick s signals answers) ∧
        ((∃ last, ∀ n ≥ last, Answered (beforeTick s signals answers) answers n) →
          Completes (beforeTick s signals answers))) ↔
      ∀ n, Answered (beforeTick s signals answers) answers n := by
  have hvalid := Slow.valid_asyncReset s.slow
  have hjump := Slow.phase_asyncReset s.slow
  have hrun : beforeTick s signals answers =
      s.slow.asyncReset.run (tickInputs s.asyncReset signals answers) :=
    funext (beforeTick_eq_run s signals answers)
  rw [← acknowledged_iff, hrun]
  constructor
  · rintro ⟨hretries, -⟩ n hslot
    by_contra hnack
    exact Slow.not_retries_of_nack hvalid hjump hslot (Bool.eq_false_of_not_eq_true hnack) hretries
  · intro hacked
    exact ⟨Slow.retries_of_acknowledged hvalid hjump hacked,
      fun _ ↦ Slow.completes_of_acknowledged hvalid hacked⟩

/-- A slave that misses the slot of the first byte stops the controller for good. -/
theorem not_retries_of_first_slot (hmissed : answers (1250 + 2500 * 13) = false) :
    ¬ Retries (beforeTick s signals answers) := by
  have hvalid := Slow.valid_asyncReset s.slow
  have hbegin := Slow.phase_run_succ hvalid (tickInputs s.asyncReset signals answers) 0
  rw [funext (beforeTick_eq_run s signals answers)]
  refine Slow.not_retries_of_nack hvalid (Slow.phase_asyncReset s.slow) (n := 0 + 1 + 12) ?_ ?_
  · rw [Sequencer.inAckSlot, Slow.sdCounter_frame hvalid _ hbegin (by omega)]
    rfl
  · rw [tickInputs, tickEdge_asyncReset]
    exact hmissed

/-- One slot that is not answered is enough for a transfer never to be retried. -/
theorem not_retries_and_completes :
    ¬ ∀ (s : State) (signals : ℕ → Signals) (answers : ℕ → Bool),
      Retries (beforeTick s signals answers) ∧
        ((∃ last, ∀ n ≥ last, Answered (beforeTick s signals answers) answers n) →
          Completes (beforeTick s signals answers)) := by
  intro hclaim
  have hretries := (hclaim ⟨0, false, 0, false, false, ⟨.stop, false, false, false, 0,
    ⟨0, true, true, false, false, false, false, 0⟩⟩⟩ (fun _ ↦ ⟨false, false, false⟩)
    (fun t ↦ decide (t ≠ 1250 + 2500 * 13))).1
  exact not_retries_of_first_slot _ _ _ (decide_eq_false (not_not.mpr rfl)) hretries

end AudioProcessor.Codec
