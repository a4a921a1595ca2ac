import AudioProcessor.ControlPath.Press

/-!
# Waking the controller

The stretchers of the volume buttons are one-shots of 5000 cycles, and the controller looks at them
every 2500. It needs two looks: one that sees the pulse risen to leave `stop`, and the next one to
begin the pass at position 3. The pulse is just long enough for both (`pulse_readAt`), whatever
buttons are pressed meanwhile, so a volume pulse that wakes the controller is always followed by the
pass from position 3 (`volume_wakes`).
-/

set_option autoImplicit false
set_option relaxedAutoImplicit false

namespace AudioProcessor.Volume

open Clocked (OneShot)

/-- A stretched pulse that was seen low, and high one look before the next tick, is still high after
two periods of the divider. -/
theorem out_run_of_looks {stretcher : State → Stretcher} {edge : State → Bool}
    (hstep : ∀ b s, stretcher (step true b s) = (stretcher s).step (edge s)) (s : State)
    (buttons : ℕ → Buttons) {t : ℕ} (ht : 1 ≤ t) (hlow : (stretcher (run s buttons t)).out = false)
    (hhigh : (stretcher (run s buttons (t + 2499))).out = true) :
    (stretcher (run s buttons (t + 5000))).out = true := by
  have hout : ∀ t, (stretcher (run s buttons t)).out = (Clocked.run (OneShot.step 5000)
      (stretcher s).toOneShot (fun t ↦ edge (run s buttons t)) t).out := fun t ↦
    congrArg OneShot.out (toOneShot_run hstep s buttons t)
  rw [hout] at hlow hhigh ⊢
  exact OneShot.out_of_samples _ _ (by decide) ht hlow hhigh

end AudioProcessor.Volume

namespace AudioProcessor.ControlPath

open Codec (tickEdge transfers i2cData)

section Wake

variable {s : State} (hreach : Reachable s) {inputs : ℕ → Inputs}
  (hreset : ∀ t, (inputs t).reset = true)

include hreset

/-- A stretched pulse that was low after a tick and that the next tick finds is still there after
the one that follows. -/
theorem out_readAt {stretcher : Volume.State → Volume.Stretcher} {edge : Volume.State → Bool}
    (hstep : ∀ b v, stretcher (Volume.step true b v) = (stretcher v).step (edge v)) {n : ℕ}
    (hlow : (stretcher (run s inputs (tickEdge s.codec n + 1)).volume).out = false)
    (hhigh : (stretcher (run s inputs (tickEdge s.codec (n + 1))).volume).out = true) :
    (stretcher (run s inputs (tickEdge s.codec (n + 2) + 1)).volume).out = true := by
  rw [volume_run s hreset] at hlow hhigh ⊢
  rw [Codec.tickEdge_add] at hhigh ⊢
  rw [Nat.add_right_comm]
  exact Volume.out_run_of_looks hstep _ _ (Nat.le_add_left 1 _) hlow
    (by rwa [Nat.add_assoc])

/-- What wakes the controller by a volume pulse is there for the register index at the next tick. -/
theorem pulse_readAt {n : ℕ}
    (hpulse : (((readAt s inputs (n + 1)).before.volUp && !(readAt s inputs n).after.volUp) ||
      ((readAt s inputs (n + 1)).before.volDown && !(readAt s inputs n).after.volDown)) = true) :
    (readAt s inputs (n + 2)).pulse = true := by
  rw [Bool.or_eq_true, Bool.and_eq_true, Bool.and_eq_true, Bool.not_eq_true', Bool.not_eq_true']
    at hpulse
  rw [Codec.TickInputs.pulse, Bool.or_eq_true]
  rcases hpulse with ⟨hhigh, hlow⟩ | ⟨hhigh, hlow⟩
  · exact .inl (out_readAt (s := s) (n := n) hreset Volume.step_volUp hlow hhigh)
  · exact .inr (out_readAt (s := s) (n := n) hreset Volume.step_volDown hlow hhigh)

include hreach

/-- Whatever the buttons do, in every run from a reachable state with a slave that acknowledges
everything: a volume pulse that wakes the controller makes it send the words of exactly one pass from
position 3 on, after which it is in `stop` again. -/
theorem volume_wakes (hanswer : ∀ t, (inputs t).answer = true) {n : ℕ}
    (hstop : (slowAt s inputs (n + 1)).currentState = .stop)
    (hpulse : (((readAt s inputs (n + 1)).before.volUp && !(slowAt s inputs (n + 1)).volUpRegSlow) ||
      ((readAt s inputs (n + 1)).before.volDown &&
        !(slowAt s inputs (n + 1)).volDownRegSlow)) = true) :
    (∀ k, 1 ≤ k → k ≤ 290 → (slowAt s inputs (n + 1 + k)).currentState ≠ .stop) ∧
      (slowAt s inputs (n + 1 + 291)).currentState = .stop ∧
      transfers (slowAt s inputs) (n + 1 + 291) = transfers (slowAt s inputs) (n + 1) ++
        (List.range 8).map fun j ↦
          (3 + j, i2cData (3 + j) (readAt s inputs (n + 3 + 36 * j + 1)).effectiveVol) := by
  have hvalid := (inStep_of_reachable hreach).valid
  have hacked : s.codec.slow.Acknowledged (readAt s inputs) := fun _ _ ↦ hanswer _
  rw [funext (slowAt_eq_run hreach hreset)] at hstop hpulse ⊢
  have hleaves : (s.codec.slow.run (readAt s inputs) (n + 1)).leavesStop
      (readAt s inputs (n + 1)).before = true := by
    rw [Codec.Slow.leavesStop, hpulse, Bool.true_or]
  have hjump : (s.codec.slow.run (readAt s inputs) (n + 2)).phase = .jump := by
    rw [show n + 2 = n + 1 + 1 from rfl, Codec.Slow.phase_run_succ hvalid,
      Codec.Slow.phase_of_stop hstop, hleaves]
    rfl
  have hbegin : (s.codec.slow.run (readAt s inputs) (n + 3)).phase = .frame 3 0 := by
    rw [show n + 3 = n + 2 + 1 from rfl, Codec.Slow.phase_run_succ hvalid, hjump, Codec.Phase.next,
      pulse_readAt hreset hpulse]
    rfl
  refine ⟨fun k hlow hhigh hagain ↦ ?_, ?_, ?_⟩
  · have hphase := Codec.Slow.phase_of_stop hagain
    rcases Nat.lt_or_eq_of_le hlow with hlow | rfl
    · exact Codec.Slow.phase_pass_ne_stop hvalid hacked hbegin (by decide) (by omega) (by omega)
        hphase
    · rw [hjump] at hphase
      cases hphase
  · have hend := (Codec.Slow.phase_pass_end hvalid hacked hbegin (by decide)).2
    rw [show n + 3 + 36 * (11 - 3) + 1 = n + 1 + 291 by omega] at hend
    exact Codec.Slow.currentState_of_stop hend
  · have hsent := Codec.Slow.transfers_pass_end hvalid hacked hbegin (by decide)
    rw [show n + 3 + 36 * (11 - 3) + 1 = n + 1 + 291 by omega] at hsent
    have hquiet : transfers (s.codec.slow.run (readAt s inputs)) (n + 3) =
        transfers (s.codec.slow.run (readAt s inputs)) (n + 1) := by
      rw [show n + 3 = n + 2 + 1 from rfl, Codec.Slow.transfers_succ_of_phase hvalid
          (by simp [hjump]), show n + 2 = n + 1 + 1 from rfl,
        Codec.Slow.transfers_succ_of_phase hvalid
          (by simp [Codec.Slow.phase_of_stop hstop])]
    rw [← hquiet]
    exact hsent

end Wake

/-- The press of the up button ten cycles after the first pass is found by tick 1. -/
theorem found_pressUp {s : State} (hreach : Reachable s) (hidle : Idle s)
    (hpress : Volume.PressedOnce s.volume (fun k ↦ (pressUp 10 k).buttons) .volumeUp 10 5000)
    (hcounter : s.codec.i2cClockCounter = 1250) (hmute : s.volume.muteState = false) :
    (slowAt s (pressUp 10) (0 + 1)).currentState = .stop ∧
      (slowAt s (pressUp 10) (0 + 1)).volUpRegSlow = false ∧
      (readAt s (pressUp 10) (0 + 1)).before.volUp = true := by
  have hreset : ∀ t, (pressUp 10 t).reset = true := fun _ ↦ rfl
  have hedge : ∀ k, tickEdge s.codec k = 2500 * k := by
    intro k
    rw [tickEdge, hcounter]
    omega
  have hsignals : ∀ t ≤ 5000, signals (run s (pressUp 10) t).volume =
      pressSignals .volumeUp 10 s.volume.muteState t :=
    fun t ht ↦ signals_run hreach hidle hreset hpress (by omega)
  have hvalid := (inStep_of_reachable hreach).valid
  refine ⟨Codec.Slow.currentState_of_stop ?_, ?_, ?_⟩
  · rw [slowAt_eq_run hreach hreset, Codec.Slow.phase_run_succ hvalid,
      leavesStop_readAt_zero hreach hidle hreset hpress (by rw [hedge]; omega), hedge, hmute,
      show (s.codec.slow.run (readAt s (pressUp 10)) 0).phase = .stop from
        Codec.Slow.phase_of_stop hidle.stop]
    rfl
  · rw [slowAt_eq_run hreach hreset, Codec.Slow.run_succ, Codec.Slow.tick, readAt]
    dsimp only
    rw [hedge, hsignals _ (by omega)]
    rfl
  · rw [readAt]
    dsimp only
    rw [hedge, hsignals _ (by omega)]
    rfl

/-- The pass that follows. -/
theorem volume_wakes_pressUp :
    (slowAt rested (pressUp 10) (0 + 1 + 291)).currentState = .stop ∧
      (transfers (slowAt rested (pressUp 10)) (0 + 1 + 291)).length =
        (transfers (slowAt rested (pressUp 10)) (0 + 1)).length + 8 := by
  have hmute : rested.volume.muteState = false := by rw [volume_rested]
  obtain ⟨hstop, hlow, hhigh⟩ := found_pressUp reachable_rested (idle_holdMute le_rfl)
    (pressedOnce_pressUp 10 5000) i2cClockCounter_rested hmute
  obtain ⟨-, hend, hsent⟩ := volume_wakes reachable_rested (fun _ ↦ rfl) (fun _ ↦ rfl) hstop
    (by rw [hlow, hhigh]; rfl)
  refine ⟨hend, ?_⟩
  rw [hsent, List.length_append, List.length_map, List.length_range]

end AudioProcessor.ControlPath
