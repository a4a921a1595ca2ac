import AudioProcessor.ControlPath.Leds
import AudioProcessor.Volume.Press

/-!
# The LED meter

What the LEDs show, without the synchronisers and the shift register: a meter with a count of lit LEDs
between 0 and 26 and a mute flag, which processes the presses of the buttons one after the other. A
press is a fall of a sampled button, and it is processed two cycles after it is first sampled. The
volume control shows the meter at every cycle (`shows_run`), whatever the buttons do.
-/

set_option autoImplicit false
set_option relaxedAutoImplicit false

namespace AudioProcessor.ControlPath

open Volume (Button Buttons)

/-! ### The meter -/

/-- The number of lit LEDs and the mute flag. -/
structure Meter where
  lit : ℕ
  lit_le : lit ≤ 26
  muted : Bool

/-- The meter after a reset. -/
def Meter.initial : Meter := ⟨8, by decide, false⟩

/-- The presses of a cycle: mute before up before down. -/
def Meter.process (pressed : Button → Bool) (m : Meter) : Meter :=
  if pressed .mute then { m with muted := !m.muted }
  else if pressed .volumeUp then ⟨min (m.lit + 1) 26, Nat.min_le_right _ _, false⟩
  else if pressed .volumeDown then ⟨m.lit - 1, (Nat.sub_le _ _).trans m.lit_le, false⟩
  else m

/-- The level of a button at cycle `t` after the release of the reset as it is sampled: the first two
cycles release the synchronised reset. -/
def sampled (buttons : ℕ → Buttons) (k : Button) : ℕ → Bool
  | 0 => true
  | 1 => true
  | t + 2 => (buttons (t + 2)).level k

/-- The button is first sampled low at cycle `t`. -/
def pressedAt (buttons : ℕ → Buttons) : ℕ → Button → Bool
  | 0, _ => false
  | t + 1, k => sampled buttons k t && !sampled buttons k (t + 1)

/-- The meter after `t` cycles: the presses of a cycle are processed two cycles later. -/
def meter (buttons : ℕ → Buttons) : ℕ → Meter
  | 0 => .initial
  | 1 => .initial
  | t + 2 => Clocked.run Meter.process .initial (pressedAt buttons) t

/-- The LED registers and the mute flag show the meter, and the LEDs are dark when it is muted or
empty. -/
structure Shows (v : Volume.State) (m : Meter) : Prop where
  ledRegisters : ∀ i, v.ledRegisters.getLsbD i = decide (i < m.lit)
  muteState : v.muteState = m.muted
  dark : v.greenLEDs = 0 ∧ v.redLEDs = 0 ↔ m.muted = true ∨ m.lit = 0

/-! ### One cycle -/

theorem getLsbD_bar {k : ℕ} (hk : k ≤ 26) (i : ℕ) : (bar k).getLsbD i = decide (i < k) := by
  rw [bar, BitVec.getLsbD_ofNat, Nat.testBit_two_pow_sub_one, ← Bool.decide_and]
  exact decide_eq_decide.mpr (by omega)

theorem dark_bar : ∀ k ≤ 26,
    ((bar k).setWidth 8 = 0 ∧ (bar k).extractLsb' 8 18 = 0 ↔ k = 0) := by decide

theorem shows_of_bar {v : Volume.State} {m : Meter} (hleds : v.ledRegisters = bar m.lit)
    (hmute : v.muteState = m.muted) : Shows v m where
  ledRegisters i := by rw [hleds, getLsbD_bar m.lit_le]
  muteState := hmute
  dark := by
    rw [Volume.State.greenLEDs, Volume.State.redLEDs, hleds, hmute]
    cases m.muted with
    | true => simp
    | false => simpa using dark_bar m.lit m.lit_le

/-- The shift register processes the edges of a cycle as the meter does. -/
theorem shiftRegister_process (v : Volume.State) (m : Meter) (hleds : v.ledRegisters = bar m.lit)
    (hmute : v.muteState = m.muted) :
    v.shiftRegister.1 = bar (m.process fun k ↦ (v.button k).edge).lit ∧
      v.shiftRegister.2 = (m.process fun k ↦ (v.button k).edge).muted := by
  unfold Volume.State.shiftRegister Meter.process Volume.State.button
  rw [hleds, hmute]
  dsimp only
  split_ifs
  · exact ⟨rfl, rfl⟩
  · refine ⟨(shiftIn_bar m.lit m.lit_le).trans ?_, rfl⟩
    rw [Move.apply, Nat.min_comm]
  · exact ⟨shiftRight_bar m.lit m.lit_le, rfl⟩
  · exact ⟨rfl, rfl⟩

/-! ### Runs -/

section Run

variable (s : State) (buttons : ℕ → Buttons)

/-- Two cycles after the release the synchronised reset is released as well. -/
theorem released_run (t : ℕ) : (Volume.run s.afterReset.volume buttons (t + 2)).Released :=
  ⟨rfl, rfl⟩

/-- From then on the registers of a button hold its last three samples. -/
theorem button_run (t : ℕ) (k : Button) :
    (Volume.run s.afterReset.volume buttons (t + 2)).button k =
      ⟨sampled buttons k (t + 1), sampled buttons k t, sampled buttons k (t - 1)⟩ := by
  induction t with
  | zero => cases k <;> rfl
  | succ t ih =>
    rw [Volume.run_succ, (released_run s buttons t).button_step, ih]
    rfl

/-- The edges of the buttons are the presses two cycles before. -/
theorem edge_button_run (t : ℕ) (k : Button) :
    ((Volume.run s.afterReset.volume buttons (t + 2)).button k).edge = pressedAt buttons t k := by
  rw [button_run]
  cases t <;> rfl

/-- The registers follow the meter. -/
theorem bar_run (t : ℕ) : (Volume.run s.afterReset.volume buttons (t + 2)).ledRegisters =
      bar (meter buttons (t + 2)).lit ∧
    (Volume.run s.afterReset.volume buttons (t + 2)).muteState =
      (meter buttons (t + 2)).muted := by
  induction t with
  | zero => exact ⟨rfl, rfl⟩
  | succ t ih =>
    have hnext := shiftRegister_process _ _ ih.1 ih.2
    rw [funext (edge_button_run s buttons t)] at hnext
    have hsettled := (released_run s buttons t).settled
    rw [Volume.run_succ, hsettled.step_ledRegisters, hsettled.step_muteState]
    exact hnext

end Run

/-- While no button is first sampled low the meter rests, however the buttons are held. -/
theorem meter_rests (buttons : ℕ → Buttons) {t n : ℕ}
    (hnone : ∀ j < n, ∀ k, pressedAt buttons (t + j) k = false) :
    meter buttons (t + n + 2) = meter buttons (t + 2) := by
  induction n with
  | zero => rfl
  | succ n ih =>
    have hlast := hnone n (Nat.lt_succ_self n)
    rw [← ih fun j hj ↦ hnone j (Nat.lt_succ_of_lt hj), ← Nat.add_assoc, meter, meter,
      Clocked.run_succ, Meter.process, hlast, hlast, hlast]
    rfl

/-- After a reset the LED registers and the mute flag show the meter at every cycle, whatever the
buttons do, and each press moves the meter once, however long the button is held. -/
theorem shows_run (s : State) (buttons : ℕ → Buttons) :
    (∀ t, Shows (Volume.run s.afterReset.volume buttons t) (meter buttons t)) ∧
      ∀ t n, (∀ j < n, ∀ k, pressedAt buttons (t + j) k = false) →
        meter buttons (t + n + 2) = meter buttons (t + 2) := by
  refine ⟨fun t ↦ ?_, fun t n hnone ↦ meter_rests buttons hnone⟩
  match t with
  | 0 => exact shows_of_bar rfl rfl
  | 1 => exact shows_of_bar rfl rfl
  | t + 2 =>
    obtain ⟨hleds, hmute⟩ := bar_run s buttons t
    exact shows_of_bar hleds hmute

end AudioProcessor.ControlPath
