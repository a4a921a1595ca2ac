import AudioProcessor.ControlPath.Meter
import AudioProcessor.TopLevel.System

/-!
# Cycling the switch

While `SW(0)` is low the volume level has its reset value, but the LEDs and the mute flag are reset
through a copy of the switch that has to be clocked through two registers, by the clock that the
switch holds. Once this copy has been released it is never low again. So the volume control does not
see the switch, its up stretcher apart: it runs on the buttons as they were at the edges of the clock
(`samples`), and the LEDs and the mute flag show the meter of all presses since power-up, those still
in the synchronisers when the switch went low among them.

The level is back at its reset value for good if no pulse follows: if no up press is still in the
synchronisers and no down press either there or in its stretcher, which the switch does not reset
(`PressedWithin`). `atDefault_cycle` puts the two together.
-/

set_option autoImplicit false
set_option relaxedAutoImplicit false

namespace AudioProcessor.Codec

variable {s : State} {signals : ℕ → Signals} {answers : ℕ → Bool} {n j : ℕ}

/-- Without a pulse the level rests. -/
theorem volLevel_of_no_pulse (hup : ∀ k, (signals k).volUp = false)
    (hdown : ∀ k, (signals k).volDown = false) :
    (run s signals answers n).volLevel = s.volLevel := by
  induction n with
  | zero => rfl
  | succ n ih =>
    rw [run_succ, step_volLevel, State.nextVolLevel, hup, hdown]
    exact ih

/-- With pulses of the up button only, the level has risen. -/
theorem volLevel_of_volUp (hreg : s.volUpRegFast = false) (hlevel : s.volLevel < 0b1111111)
    (hdown : ∀ k, (signals k).volDown = false) (hj : j < n) (hup : (signals j).volUp = true) :
    s.volLevel < (run s signals answers n).volLevel := by
  have hrun (m : ℕ) : ((run s signals answers m).volLevel = s.volLevel ∧
      (run s signals answers m).volUpRegFast = false ∧ ∀ k < m, (signals k).volUp = false) ∨
        s.volLevel < (run s signals answers m).volLevel := by
    induction m with
    | zero => exact .inl ⟨rfl, hreg, fun k hk ↦ absurd hk (Nat.not_lt_zero k)⟩
    | succ m ih =>
      rw [run_succ, step_volLevel, step_volUpRegFast, State.nextVolLevel, hdown]
      rcases ih with ⟨hsame, hlow, hnone⟩ | hmore
      · rw [hsame, hlow]
        cases hpulse : (signals m).volUp with
        | false => exact .inl ⟨rfl, rfl, Nat.forall_lt_succ_right.mpr ⟨hnone, hpulse⟩⟩
        | true =>
          right
          rw [if_pos (by rfl), if_pos hlevel]
          bv_omega
      · right
        rw [Bool.false_and, if_neg Bool.false_ne_true]
        split_ifs <;> bv_omega
  exact (hrun n).resolve_left fun hnone ↦ Bool.false_ne_true ((hnone.2.2 j hj).symm.trans hup)

/-- With pulses of the down button only, it has fallen. -/
theorem volLevel_of_volDown (hreg : s.volDownRegFast = false) (hlevel : s.volLevel > 0b1100101)
    (hup : ∀ k, (signals k).volUp = false) (hj : j < n) (hdown : (signals j).volDown = true) :
    (run s signals answers n).volLevel < s.volLevel := by
  have hrun (m : ℕ) : ((run s signals answers m).volLevel = s.volLevel ∧
      (run s signals answers m).volDownRegFast = false ∧ ∀ k < m, (signals k).volDown = false) ∨
        (run s signals answers m).volLevel < s.volLevel := by
    induction m with
    | zero => exact .inl ⟨rfl, hreg, fun k hk ↦ absurd hk (Nat.not_lt_zero k)⟩
    | succ m ih =>
      rw [run_succ, step_volLevel, step_volDownRegFast, State.nextVolLevel, hup, Bool.false_and,
        if_neg Bool.false_ne_true]
      rcases ih with ⟨hsame, hlow, hnone⟩ | hless
      · rw [hsame, hlow]
        cases hpulse : (signals m).volDown with
        | false => exact .inl ⟨rfl, rfl, Nat.forall_lt_succ_right.mpr ⟨hnone, hpulse⟩⟩
        | true =>
          right
          rw [if_pos (by rfl), if_pos hlevel]
          bv_omega
      · right
        split_ifs <;> bv_omega
  exact (hrun n).resolve_left fun hnone ↦ Bool.false_ne_true ((hnone.2.2 j hj).symm.trans hdown)

end AudioProcessor.Codec

namespace AudioProcessor.Volume

/-- The registers but the up stretcher. -/
def State.withoutVolUp (v : State) : State := { v with volUp := .idle }

theorem withoutVolUp_run {v w : State} (hsame : v.withoutVolUp = w.withoutVolUp)
    (buttons : ℕ → Buttons) (t : ℕ) :
    (run v buttons t).withoutVolUp = (run w buttons t).withoutVolUp := by
  have hstep (b : Buttons) (v : State) :
      (step true b v).withoutVolUp = (step true b v.withoutVolUp).withoutVolUp := rfl
  induction t with
  | zero => exact hsame
  | succ t ih => rw [run_succ, run_succ, hstep, ih, ← hstep]

/-- The switch resets the up stretcher only. -/
theorem withoutVolUp_asyncReset {v : State} (h : v.Settled) :
    (v.asyncReset false).withoutVolUp = v.withoutVolUp := by
  cases hsync : v.rstSync2
  · simp [State.asyncReset, State.withoutVolUp, hsync, h.volUpBtn hsync, h.volDownBtn hsync,
      h.muteBtn hsync, h.ledRegisters hsync, h.muteState hsync]
  · simp [State.asyncReset, State.withoutVolUp, hsync]

/-- The reset branches keep the volume control settled. -/
theorem settled_asyncReset {v : State} (h : v.Settled) : (v.asyncReset false).Settled where
  rstSync1 := h.rstSync1
  volUpBtn hsync := if_neg (ne_true_of_eq_false hsync)
  volDownBtn hsync := if_neg (ne_true_of_eq_false hsync)
  muteBtn hsync := if_neg (ne_true_of_eq_false hsync)
  ledRegisters hsync := if_neg (ne_true_of_eq_false hsync)
  muteState hsync := Bool.and_eq_false_imp.mpr fun hhigh ↦ Bool.noConfusion (hhigh.symm.trans hsync)

end AudioProcessor.Volume

namespace AudioProcessor.TopLevel

open Clocked (OneShot)
open ControlPath (Meter meter pressedAt sampled bar)
open Volume (Button Buttons Stretcher)

/-- The registers at power-up with the switch at a given level: flip-flops without an initial value
are low, and so is the synchronised reset of the volume control. -/
def State.powerUp (level : Bool) : State :=
  let volume : Volume.State :=
    ⟨false, false, ⟨false, false, false⟩, ⟨false, false, false⟩, ⟨false, false, false⟩, 0b01101101,
      false, .idle, .idle⟩
  let codec : Codec.State :=
    ⟨0, false, 0b1101101, false, false, ⟨.resetState, false, false, false, 0,
      ⟨0, false, false, false, false, false, false, 0⟩⟩⟩
  { sw0 := level
    control := ⟨volume.asyncReset level, if level then codec else codec.asyncReset⟩
    delay := .asyncReset }

/-- The volume level, the LEDs and the mute flag have their reset values. -/
structure State.AtDefault (s : State) : Prop where
  volLevel : s.control.codec.volLevel = 0b1101101
  ledRegisters : s.control.volume.ledRegisters = 0b11111111
  muteState : s.control.volume.muteState = false

/-- From event `t` on the clock rises `n` times with idle buttons. -/
def IdleClock (events : ℕ → Event) (t n : ℕ) : Prop :=
  ∀ k < n, ∃ answer, events (t + k) = .clock .idle answer

/-! ### Samples -/

/-- The buttons at the edges of the clock before event `t`, one after the other. -/
def samples (s : State) (events : ℕ → Event) : ℕ → List Buttons
  | 0 => []
  | t + 1 =>
    match events t with
    | .sw0 _ => samples s events t
    | .clock buttons _ =>
      if (run s events t).sw0 then samples s events t ++ [buttons] else samples s events t

/-- The samples and then idle buttons. -/
def thenIdle (l : List Buttons) (k : ℕ) : Buttons := l.getD k .idle

/-- The meter when all presses among the samples have been processed. -/
def afterPresses (l : List Buttons) : Meter := meter (thenIdle l) (l.length + 2)

/-- The button was pressed within a number of last samples. -/
def PressedWithin (l : List Buttons) (k : Button) (window : ℕ) : Prop :=
  ∃ p < l.length, l.length ≤ p + window ∧ pressedAt (thenIdle l) p k = true

/-- The presses among the samples take the meter back to where it starts, and no volume pulse is
still to come. -/
structure Balanced (l : List Buttons) : Prop where
  meter : afterPresses l = .initial
  volUp : ¬ PressedWithin l .volumeUp 2
  volDown : ¬ PressedWithin l .volumeDown 5003

theorem thenIdle_of_le {l : List Buttons} {k : ℕ} (hk : l.length ≤ k) : thenIdle l k = .idle :=
  List.getD_eq_default l .idle hk

theorem thenIdle_append (l l' : List Buttons) {k : ℕ} (hk : k < l.length) :
    thenIdle (l ++ l') k = thenIdle l k :=
  List.getD_append l l' .idle k hk

theorem thenIdle_replicate (l : List Buttons) (n : ℕ) :
    thenIdle (l ++ List.replicate n .idle) = thenIdle l := by
  funext k
  rcases Nat.lt_or_ge k l.length with hlt | hge
  · exact thenIdle_append l _ hlt
  · rw [thenIdle_of_le hge, thenIdle, List.getD_append_right _ _ _ _ hge,
      List.getD_eq_getElem?_getD, List.getElem?_getD_replicate_default_eq]

/-- Idle buttons are no press. -/
theorem pressedAt_thenIdle {l : List Buttons} {p : ℕ} (hp : l.length ≤ p) (k : Button) :
    pressedAt (thenIdle l) p k = false := by
  match p, hp with
  | 0, _ => rfl
  | 1, _ => rfl
  | p + 2, hp =>
    have hidle : sampled (thenIdle l) k (p + 2) = true := by
      rw [sampled, thenIdle_of_le hp]
      cases k <;> rfl
    rw [pressedAt, hidle]
    exact Bool.and_false _

/-- Once the presses have been processed the meter rests. -/
theorem meter_thenIdle (l : List Buttons) (n : ℕ) :
    meter (thenIdle l) (l.length + n + 2) = afterPresses l :=
  ControlPath.meter_rests (thenIdle l) fun j _ k ↦
    pressedAt_thenIdle (Nat.le_add_right l.length j) k

/-! ### While the switch is low -/

/-- The volume control before the first edge of the clock. -/
def started : Volume.State := ControlPath.State.initial.afterReset.volume

/-- The volume control is settled and has, apart from the up stretcher, seen the samples only; with
the switch low the registers that take it are reset. -/
structure Switched (l : List Buttons) (s : State) : Prop where
  settled : s.control.volume.Settled
  sampled : s.control.volume.withoutVolUp =
    (Volume.run started (thenIdle l) l.length).withoutVolUp
  volUp : s.sw0 = false → s.control.volume.volUp = .idle
  codec : s.sw0 = false → s.control.codec.asyncReset = s.control.codec

theorem switched_powerUp (level : Bool) : Switched [] (.powerUp level) where
  settled := ⟨id, fun _ ↦ rfl, fun _ ↦ rfl, fun _ ↦ rfl, fun _ ↦ rfl, fun _ ↦ rfl⟩
  sampled := rfl
  volUp _ := by cases level <;> rfl
  codec hlow := by
    rw [show level = false from hlow]
    rfl

theorem Switched.sw0 {l : List Buttons} {s : State} (h : Switched l s) (level : Bool) :
    Switched l (step (.sw0 level) s) := by
  cases level with
  | false =>
    exact ⟨Volume.settled_asyncReset h.settled,
      (Volume.withoutVolUp_asyncReset h.settled).trans h.sampled, fun _ ↦ rfl, fun _ ↦ rfl⟩
  | true => exact ⟨h.settled, h.sampled, Bool.noConfusion, Bool.noConfusion⟩

/-- The next sample does not change what the ones before it did. -/
theorem run_thenIdle_concat (l : List Buttons) (b : Buttons) :
    Volume.run started (thenIdle (l ++ [b])) (l ++ [b]).length =
      Volume.step true b (Volume.run started (thenIdle l) l.length) := by
  have hbefore : ∀ k ≤ l.length, Volume.run started (thenIdle (l ++ [b])) k =
      Volume.run started (thenIdle l) k := by
    intro k hk
    induction k with
    | zero => rfl
    | succ k ih => rw [Volume.run_succ, ih (Nat.le_of_succ_le hk), thenIdle_append l [b] hk,
        Volume.run_succ]
  have hlast : thenIdle (l ++ [b]) l.length = b := by
    rw [thenIdle, List.getD_append_right _ _ _ _ (le_refl _), Nat.sub_self]
    rfl
  rw [List.length_append, List.length_singleton, Volume.run_succ, hbefore _ (le_refl _), hlast]

theorem Switched.clock {l : List Buttons} {s : State} (h : Switched l s) (hhigh : s.sw0 = true)
    (buttons : Buttons) (answer : Bool) :
    Switched (l ++ [buttons]) (step (.clock buttons answer) s) := by
  have hlow : ¬ s.sw0 = false := ne_false_of_eq_true hhigh
  rw [step, if_pos hhigh]
  refine ⟨Volume.State.Settled.settled_step _, ?_, fun h ↦ absurd h hlow, fun h ↦ absurd h hlow⟩
  have hnext := Volume.withoutVolUp_run h.sampled (fun _ ↦ buttons) 1
  rw [run_thenIdle_concat]
  exact hnext

theorem switched_run (level : Bool) (events : ℕ → Event) (t : ℕ) :
    Switched (samples (.powerUp level) events t) (run (.powerUp level) events t) := by
  induction t with
  | zero => exact switched_powerUp level
  | succ t ih =>
    rw [run_succ, samples]
    cases events t with
    | sw0 level => exact ih.sw0 level
    | clock buttons answer =>
      dsimp only
      split_ifs with hhigh
      · exact ih.clock hhigh buttons answer
      · rwa [step, if_neg hhigh]

/-! ### After it is high again -/

/-- What the slave answers at an event. -/
def Event.answer : Event → Bool
  | .sw0 _ => false
  | .clock _ answer => answer

/-- From when the switch is high on, the control path runs on idle buttons. -/
theorem run_idleClock {s : State} {events : ℕ → Event} {t n : ℕ} (hrise : events t = .sw0 true)
    (hidle : IdleClock events (t + 1) n) :
    (run s events (t + 1 + n)).sw0 = true ∧ (run s events (t + 1 + n)).control =
      ControlPath.run (run s events t).control
        (fun k ↦ ⟨true, .idle, (events (t + 1 + k)).answer⟩) n := by
  induction n with
  | zero =>
    rw [Nat.add_zero, run_succ, hrise]
    exact ⟨rfl, rfl⟩
  | succ n ih =>
    obtain ⟨hhigh, hcontrol⟩ := ih fun k hk ↦ hidle k (Nat.lt_succ_of_lt hk)
    obtain ⟨answer, hevent⟩ := hidle n (Nat.lt_succ_self n)
    rw [← Nat.add_assoc, run_succ, ControlPath.run_succ, hevent, step, if_pos hhigh, hcontrol]
    exact ⟨hhigh, rfl⟩

/-- The volume control then goes on as if the switch had not been touched, its up stretcher apart. -/
theorem Switched.run_idle {l : List Buttons} {s : State} (h : Switched l s) (j : ℕ) :
    (Volume.run s.control.volume (fun _ ↦ .idle) j).withoutVolUp =
      (Volume.run started (thenIdle l) (l.length + j)).withoutVolUp := by
  have hrest : (fun k ↦ thenIdle l (l.length + k)) = fun _ ↦ .idle := by
    funext k
    exact thenIdle_of_le (Nat.le_add_right l.length k)
  have hadd := Clocked.run_add (Volume.step true) started (thenIdle l) l.length j
  rw [hrest] at hadd
  rw [Volume.withoutVolUp_run h.sampled]
  exact congrArg Volume.State.withoutVolUp hadd.symm

/-! ### The pulses that are still to come -/

/-- An edge of a button is a press two samples before. -/
theorem edge_started (buttons : ℕ → Buttons) (m : ℕ) (k : Button) :
    ((Volume.run started buttons m).button k).edge = true ↔
      ∃ p, m = p + 2 ∧ pressedAt buttons p k = true := by
  match m with
  | 0 =>
    refine ⟨fun hedge ↦ ?_, fun ⟨p, hp, _⟩ ↦ absurd hp (by omega)⟩
    cases k <;> cases hedge
  | 1 =>
    refine ⟨fun hedge ↦ ?_, fun ⟨p, hp, _⟩ ↦ absurd hp (by omega)⟩
    cases k <;> cases hedge
  | m + 2 =>
    rw [started, ControlPath.edge_button_run]
    exact ⟨fun hpressed ↦ ⟨m, rfl, hpressed⟩,
      fun ⟨p, hp, hpressed⟩ ↦ Nat.add_right_cancel hp ▸ hpressed⟩

/-- A button that was pressed at a sample was not pressed at the next one. -/
theorem pressedAt_succ {buttons : ℕ → Buttons} {p : ℕ} {k : Button}
    (hpressed : pressedAt buttons p k = true) : pressedAt buttons (p + 1) k = false := by
  cases p with
  | zero => exact absurd hpressed Bool.false_ne_true
  | succ p =>
    rw [pressedAt, Bool.and_eq_true, Bool.not_eq_true'] at hpressed
    rw [pressedAt, hpressed.2, Bool.false_and]

section Pulses

variable {l : List Buttons} {v : Volume.State} {buttons : ℕ → Buttons} {o : ℕ} {k : Button}
  {stretcher : Volume.State → Stretcher}
  (hstep : ∀ b v, stretcher (Volume.step true b v) = (stretcher v).step (v.button k).edge)
  (hidle : stretcher v = .idle)
  (hedge : ∀ j, ((Volume.run v buttons j).button k).edge =
    ((Volume.run started (thenIdle l) (o + j)).button k).edge)

include hstep hidle hedge

/-- A stretcher that rested at sample `o` does so after the samples, if the button was not pressed
for the length of a pulse. -/
theorem out_of_not_pressed (hnone : ∀ p < l.length, o ≤ p + 2 → l.length ≤ p + 5003 →
      ¬ pressedAt (thenIdle l) p k = true) {j : ℕ} (hj : l.length ≤ o + j) :
    (stretcher (Volume.run v buttons j)).out = false := by
  have hrest : (stretcher (Volume.run v buttons j)).toOneShot = .rest := by
    rw [Volume.toOneShot_run hstep, hidle]
    refine OneShot.rest_of_no_trigger _ fun m hm hwithin ↦ ?_
    by_contra htrigger
    rw [hedge, Bool.not_eq_false, edge_started] at htrigger
    obtain ⟨p, hp, hpressed⟩ := htrigger
    rcases Nat.lt_or_ge p l.length with hlt | hge
    · exact hnone p hlt (by omega) (by omega) hpressed
    · exact Bool.false_ne_true ((pressedAt_thenIdle hge k).symm.trans hpressed)
  exact congrArg OneShot.out hrest

omit hidle in
/-- Otherwise its pulse is high at the last sample or in one of the four cycles that follow. -/
theorem out_of_pressed {p : ℕ} (hp : p < l.length) (ho : o ≤ p + 2)
    (hwithin : l.length ≤ p + 5003) (hpressed : pressedAt (thenIdle l) p k = true) :
    ∃ j, l.length ≤ o + j ∧ o + j < l.length + 4 ∧
      (stretcher (Volume.run v buttons j)).out = true := by
  have hrun := Volume.toOneShot_run hstep v buttons (max (l.length - o) (p + 4 - o))
  refine ⟨max (l.length - o) (p + 4 - o), by omega, by omega,
    (congrArg OneShot.out hrun).trans ?_⟩
  refine OneShot.out_of_trigger _ _ (t := p + 2 - o) ?_ ?_ (by omega) (by omega)
  · rw [hedge, edge_started]
    exact ⟨p, by omega, hpressed⟩
  · rw [hedge]
    by_contra hagain
    rw [Bool.not_eq_false, edge_started] at hagain
    obtain ⟨q, hq, hnext⟩ := hagain
    rw [show q = p + 1 by omega, pressedAt_succ hpressed] at hnext
    exact Bool.false_ne_true hnext

end Pulses

/-! ### Cycles of the switch -/

/-- The signals of the volume control with idle buttons. -/
def idleSignals (v : Volume.State) (j : ℕ) : Codec.Signals :=
  ControlPath.signals (Volume.run v (fun _ ↦ .idle) j)

section Cycle

variable {l : List Buttons} {s : State} (h : Switched l s)

include h

/-- The LEDs and the mute flag show what all presses have led to. -/
theorem Switched.shows {n : ℕ} (hn : 2 ≤ n) :
    (Volume.run s.control.volume (fun _ ↦ .idle) n).ledRegisters = bar (afterPresses l).lit ∧
      (Volume.run s.control.volume (fun _ ↦ .idle) n).muteState = (afterPresses l).muted := by
  obtain ⟨m, rfl⟩ := Nat.exists_eq_add_of_le' hn
  have hsame := h.run_idle (m + 2)
  obtain ⟨hleds, hmute⟩ := ControlPath.bar_run .initial (thenIdle l) (l.length + m)
  rw [meter_thenIdle] at hleds hmute
  exact ⟨(congrArg Volume.State.ledRegisters hsame).trans hleds,
    (congrArg Volume.State.muteState hsame).trans hmute⟩

theorem Switched.edge_run (j : ℕ) (k : Button) :
    ((Volume.run s.control.volume (fun _ ↦ .idle) j).button k).edge =
      ((Volume.run started (thenIdle l) (l.length + j)).button k).edge := by
  have hsame := h.run_idle j
  cases k with
  | volumeUp => exact congrArg (fun v ↦ v.volUpBtn.edge) hsame
  | volumeDown => exact congrArg (fun v ↦ v.volDownBtn.edge) hsame
  | mute => exact congrArg (fun v ↦ v.muteBtn.edge) hsame

theorem Switched.volDown_run (j : ℕ) :
    (Volume.run s.control.volume (fun _ ↦ .idle) j).volDown =
      (Volume.run started (thenIdle l) (l.length + j)).volDown := by
  have hsame := h.run_idle j
  exact congrArg (fun v ↦ v.volDown) hsame

/-- A pulse of the up button follows if it was pressed within the last two samples. -/
theorem Switched.volUp_pulse (hidle : s.control.volume.volUp = .idle) :
    (PressedWithin l .volumeUp 2 →
      ∃ j < 4, (idleSignals s.control.volume j).volUp = true) ∧
    (¬ PressedWithin l .volumeUp 2 →
      ∀ j, (idleSignals s.control.volume j).volUp = false) := by
  refine ⟨fun ⟨p, hp, hwithin, hpressed⟩ ↦ ?_, fun hnone j ↦ ?_⟩
  · obtain ⟨j, -, hj, hhigh⟩ := out_of_pressed Volume.step_volUp (fun j ↦ h.edge_run j .volumeUp)
      hp hwithin (by omega) hpressed
    exact ⟨j, by omega, hhigh⟩
  · exact out_of_not_pressed Volume.step_volUp hidle (fun j ↦ h.edge_run j .volumeUp)
      (fun p hp hwithin _ hpressed ↦ hnone ⟨p, hp, hwithin, hpressed⟩) (Nat.le_add_right _ j)

/-- A pulse of the down button is there or follows if it was pressed within the length of one. -/
theorem Switched.volDown_pulse :
    (PressedWithin l .volumeDown 5003 →
      ∃ j < 4, (idleSignals s.control.volume j).volDown = true) ∧
    (¬ PressedWithin l .volumeDown 5003 →
      ∀ j, (idleSignals s.control.volume j).volDown = false) := by
  have hedge (j : ℕ) : ((Volume.run started (thenIdle l) j).button .volumeDown).edge =
      ((Volume.run started (thenIdle l) (0 + j)).button .volumeDown).edge := by rw [Nat.zero_add]
  refine ⟨fun ⟨p, hp, hwithin, hpressed⟩ ↦ ?_, fun hnone j ↦ ?_⟩
  · obtain ⟨j, hlow, hj, hhigh⟩ := out_of_pressed Volume.step_volDown hedge hp (Nat.zero_le _)
      hwithin hpressed
    obtain ⟨i, rfl⟩ := Nat.exists_eq_add_of_le (hlow.trans_eq (Nat.zero_add j))
    refine ⟨i, by omega, ?_⟩
    rw [idleSignals, ControlPath.signals, h.volDown_run]
    exact hhigh
  · rw [idleSignals, ControlPath.signals, h.volDown_run]
    exact out_of_not_pressed Volume.step_volDown rfl hedge
      (fun p hp _ hwithin hpressed ↦ hnone ⟨p, hp, hwithin, hpressed⟩) (by omega)

end Cycle

theorem bar_eq_initial : ∀ k ≤ 26, bar k = 0b11111111 ↔ k = 8 := by decide

/-- The LEDs and the mute flag have their reset values where the meter is at its start. -/
theorem eq_initial_iff (m : Meter) : m = .initial ↔ bar m.lit = 0b11111111 ∧ m.muted = false := by
  rw [bar_eq_initial m.lit m.lit_le]
  constructor
  · rintro rfl
    exact ⟨rfl, rfl⟩
  · obtain ⟨lit, hle, muted⟩ := m
    rintro ⟨rfl, rfl⟩
    rfl

/-- In every run from power-up, with any number of cycles of the switch, when the switch has gone high
again and the clock has risen four times or more with idle buttons: if the presses since power-up
balance and no volume pulse is still to come, the volume level, the LEDs and the mute flag have their
reset values. They have them in no other case, except that an up press and a down press that are both
still to come may make up for each other. -/
theorem atDefault_cycle (level : Bool) (events : ℕ → Event) (t n : ℕ)
    (hlow : (run (.powerUp level) events t).sw0 = false) (hrise : events t = .sw0 true)
    (hidle : IdleClock events (t + 1) n) (hn : 4 ≤ n) :
    (Balanced (samples (.powerUp level) events t) →
      (run (.powerUp level) events (t + 1 + n)).AtDefault) ∧
    ((run (.powerUp level) events (t + 1 + n)).AtDefault →
      ¬ (PressedWithin (samples (.powerUp level) events t) .volumeUp 2 ∧
        PressedWithin (samples (.powerUp level) events t) .volumeDown 5003) →
      Balanced (samples (.powerUp level) events t)) := by
  have h := switched_run level events t
  obtain ⟨hup, hnoup⟩ := h.volUp_pulse (h.volUp hlow)
  obtain ⟨hdown, hnodown⟩ := h.volDown_pulse
  obtain ⟨hleds, hmute⟩ := h.shows (Nat.le_trans (by decide) hn)
  obtain ⟨-, hcontrol⟩ := run_idleClock (s := .powerUp level) hrise hidle
  set s := run (.powerUp level) events t
  set l := samples (.powerUp level) events t
  set inputs : ℕ → ControlPath.Inputs := fun k ↦ ⟨true, .idle, (events (t + 1 + k)).answer⟩
  have hvolume (j : ℕ) : (ControlPath.run s.control inputs j).volume =
      Volume.run s.control.volume (fun _ ↦ .idle) j := ControlPath.volume_run _ (fun _ ↦ rfl) j
  have hcodec : (ControlPath.run s.control inputs n).codec = Codec.run s.control.codec
      (idleSignals s.control.volume) (fun k ↦ (inputs k).answer) n := by
    have hsignals : (fun j ↦ ControlPath.signals (ControlPath.run s.control inputs j).volume) =
        idleSignals s.control.volume := funext fun j ↦ congrArg ControlPath.signals (hvolume j)
    rw [ControlPath.codec_run _ fun _ ↦ rfl, hsignals]
  have hstart : s.control.codec.volLevel = 0b1101101 ∧ s.control.codec.volUpRegFast = false ∧
      s.control.codec.volDownRegFast = false := by
    rw [← h.codec hlow]
    exact ⟨rfl, rfl, rfl⟩
  obtain ⟨hlevel, hupReg, hdownReg⟩ := hstart
  have hafter : (run (.powerUp level) events (t + 1 + n)).AtDefault ↔
      (ControlPath.run s.control inputs n).codec.volLevel = 0b1101101 ∧
        afterPresses l = .initial := by
    rw [eq_initial_iff, ← hleds, ← hmute, ← hvolume, ← hcontrol]
    exact ⟨fun ⟨hvol, hbar, hmuted⟩ ↦ ⟨hvol, hbar, hmuted⟩,
      fun ⟨hvol, hbar, hmuted⟩ ↦ ⟨hvol, hbar, hmuted⟩⟩
  rw [hafter, hcodec]
  refine ⟨fun hbalanced ↦ ⟨?_, hbalanced.meter⟩, fun ⟨hvol, hmeter⟩ hapart ↦
    ⟨hmeter, fun hpressed ↦ ?_, fun hpressed ↦ ?_⟩⟩
  · exact (Codec.volLevel_of_no_pulse (hnoup hbalanced.volUp)
      (hnodown hbalanced.volDown)).trans hlevel
  · obtain ⟨j, hj, hhigh⟩ := hup hpressed
    have hmore : _ < (Codec.run _ _ (fun k ↦ (inputs k).answer) n).volLevel :=
      Codec.volLevel_of_volUp hupReg (by rw [hlevel]; decide)
        (hnodown fun hother ↦ hapart ⟨hpressed, hother⟩) (hj.trans_le hn) hhigh
    rw [hvol, hlevel] at hmore
    exact absurd hmore (by decide)
  · obtain ⟨j, hj, hhigh⟩ := hdown hpressed
    have hless : (Codec.run _ _ (fun k ↦ (inputs k).answer) n).volLevel < _ :=
      Codec.volLevel_of_volDown hdownReg (by rw [hlevel]; decide)
        (hnoup fun hother ↦ hapart ⟨hother, hpressed⟩) (hj.trans_le hn) hhigh
    rw [hvol, hlevel] at hless
    exact absurd hless (by decide)

/-! ### A press of each volume button before the cycle -/

/-- Idle samples, enough of them to outlast a pulse, leave a balance. -/
theorem balanced_replicate {l : List Buttons} {n : ℕ} (hmeter : afterPresses l = .initial)
    (hn : 5003 ≤ n) : Balanced (l ++ List.replicate n .idle) := by
  have hlength : (l ++ List.replicate n Buttons.idle).length = l.length + n := by
    rw [List.length_append, List.length_replicate]
  have hnone (k : Button) {window : ℕ} (hwindow : window ≤ 5003) :
      ¬ PressedWithin (l ++ List.replicate n .idle) k window := by
    rintro ⟨p, -, hwithin, hpressed⟩
    rw [thenIdle_replicate, pressedAt_thenIdle (by omega)] at hpressed
    exact Bool.false_ne_true hpressed
  refine ⟨?_, hnone .volumeUp (by decide), hnone .volumeDown (le_refl 5003)⟩
  rw [afterPresses, thenIdle_replicate, hlength, meter_thenIdle, hmeter]

/-- The samples of idle buttons with the switch high. -/
theorem samples_idleClock {s : State} {events : ℕ → Event} {t n : ℕ}
    (hhigh : (run s events t).sw0 = true) (hidle : IdleClock events t n) :
    (run s events (t + n)).sw0 = true ∧
      samples s events (t + n) = samples s events t ++ List.replicate n .idle := by
  induction n with
  | zero => exact ⟨hhigh, (List.append_nil _).symm⟩
  | succ n ih =>
    obtain ⟨hsame, hsamples⟩ := ih fun k hk ↦ hidle k (Nat.lt_succ_of_lt hk)
    obtain ⟨answer, hevent⟩ := hidle n (Nat.lt_succ_self n)
    rw [← Nat.add_assoc, run_succ, samples, hevent, step, if_pos hsame]
    dsimp only
    rw [if_pos hsame, hsamples, List.append_assoc, ← List.replicate_succ']
    exact ⟨hsame, rfl⟩

/-- The switch is pushed up, the up button and then the down button are pressed, and when the pulse of
the down button is over the switch is cycled. -/
def upDownCycle (t : ℕ) : Event :=
  if t = 0 ∨ t = 5011 then .sw0 true
  else if t = 5010 then .sw0 false
  else if t = 4 then .clock ⟨false, true, true⟩ true
  else if t = 6 then .clock ⟨true, false, true⟩ true
  else .clock .idle true

/-- Its presses balance, so the reset values are back. -/
theorem atDefault_upDownCycle : (run (.powerUp false) upDownCycle (5011 + 1 + 4)).AtDefault := by
  have hclock (t : ℕ) (hlow : 7 ≤ t) (hhigh : t ≠ 5010 ∧ t ≠ 5011) :
      upDownCycle t = .clock .idle true := by
    rw [upDownCycle, if_neg (by omega), if_neg hhigh.1, if_neg (by omega), if_neg (by omega)]
  have hidle : IdleClock upDownCycle 7 5003 := fun k hk ↦ ⟨true, hclock _ (by omega) (by omega)⟩
  have hhigh : (run (.powerUp false) upDownCycle 7).sw0 = true := rfl
  obtain ⟨-, hsamples⟩ := samples_idleClock hhigh hidle
  refine (atDefault_cycle false upDownCycle 5011 4 ?_ rfl
    (fun k hk ↦ ⟨true, hclock _ (by omega) (by omega)⟩) (le_refl 4)).1 ?_
  · rw [show (5011 : ℕ) = 5010 + 1 from rfl, run_succ]
    rfl
  · rw [show (5011 : ℕ) = 7 + 5003 + 1 from rfl, samples,
      show upDownCycle (7 + 5003) = .sw0 false from rfl]
    dsimp only
    rw [hsamples]
    exact balanced_replicate rfl (le_refl 5003)

/-- Here the up button alone is pressed before the cycle. -/
def upCycle (t : ℕ) : Event :=
  if t = 0 ∨ t = 9 then .sw0 true
  else if t = 8 then .sw0 false
  else if t = 3 then .clock ⟨false, true, true⟩ true
  else .clock .idle true

/-- One press of the up button before the cycle leaves nine LEDs lit after it, however long the clock
has run since. -/
theorem not_atDefault : ¬ ∃ few, ∀ (level : Bool) (events : ℕ → Event) (t n : ℕ),
    (run (.powerUp level) events t).sw0 = false → events t = .sw0 true →
      IdleClock events (t + 1) n → few ≤ n →
      (run (.powerUp level) events (t + 1 + n)).AtDefault := by
  rintro ⟨few, hdefault⟩
  have hlow : (run (.powerUp false) upCycle 9).sw0 = false := rfl
  have hidle : IdleClock upCycle (9 + 1) (few + 2) := by
    intro k hk
    refine ⟨true, ?_⟩
    rw [upCycle, if_neg (by omega), if_neg (by omega), if_neg (by omega)]
  have hlit : (afterPresses (samples (.powerUp false) upCycle 9)).lit = 9 := by decide +kernel
  have hleds := ((switched_run false upCycle 9).shows (Nat.le_add_left 2 few)).1
  have hafter :=
    (hdefault false upCycle 9 (few + 2) hlow rfl hidle (Nat.le_add_right few 2)).ledRegisters
  rw [(run_idleClock rfl hidle).2, ControlPath.volume_run _ fun _ ↦ rfl, hleds, hlit] at hafter
  exact absurd hafter (by decide)

end AudioProcessor.TopLevel
