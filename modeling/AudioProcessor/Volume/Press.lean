import AudioProcessor.Library.OneShot
import AudioProcessor.Volume.Control

/-!
# A single press

A button that falls in cycle `e` gives its edge in cycle `e + 2` (`edge_run`). The edge changes the
mute flag from cycle `e + 3` on (`muteState_run`), and the edge of a volume button is stretched to a
pulse that is high from cycle `e + 4` to cycle `e + 5003` (`volUp_run`, `volDown_run`). All of this
holds as long as no other button falls, however long the button is held.
-/

set_option autoImplicit false
set_option relaxedAutoImplicit false

namespace AudioProcessor.Volume

open Clocked (OneShot)

/-- The three buttons. -/
inductive Button
  | volumeUp
  | volumeDown
  | mute
deriving DecidableEq

/-- The level of a button. -/
def Buttons.level (b : Buttons) : Button → Bool
  | .volumeUp => b.volumeUpButton
  | .volumeDown => b.volumeDownButton
  | .mute => b.muteButton

/-- The registers of a button. -/
def State.button (s : State) : Button → ButtonSync
  | .volumeUp => s.volUpBtn
  | .volumeDown => s.volDownBtn
  | .mute => s.muteBtn

/-- The mute flag after a press. -/
def Button.muted : Button → Bool → Bool
  | .mute, muted => !muted
  | _, _ => false

namespace ButtonSync

variable (b : ButtonSync) (levels : ℕ → Bool)

/-- The levels of a button one after the other: the three in its registers, the oldest first, and
those of the cycles to come. -/
def history : ℕ → Bool
  | 0 => b.prev
  | 1 => b.sync2
  | 2 => b.sync1
  | t + 3 => levels t

/-- The button falls in cycle `t`. -/
def falls (t : ℕ) : Bool := b.history levels (t + 2) && !b.history levels (t + 3)

/-- No falling edge is in the registers. -/
structure Steady : Prop where
  edge : b.edge = false
  sync : (b.sync2 && !b.sync1) = false

end ButtonSync

/-! ### The stretcher after one edge -/

namespace Stretcher

/-- A stretcher in cycle `t` whose only edge is in cycle `a`. -/
def pulse (a t : ℕ) : Stretcher where
  count := if t ≤ a then 0 else 5001 + a - t
  out := decide (a + 2 ≤ t ∧ t ≤ a + 5001)

theorem pulse_zero (a : ℕ) : pulse a 0 = .idle := by
  rw [pulse, if_pos (Nat.zero_le a), decide_eq_false (by omega), idle]

theorem pulse_succ (a t : ℕ) : pulse a (t + 1) = (pulse a t).step (decide (t = a)) := by
  rcases Nat.lt_trichotomy t a with hlt | rfl | hgt
  · rw [pulse, pulse, if_pos (show t + 1 ≤ a by omega), if_pos hlt.le, decide_eq_false hlt.ne,
      decide_eq_false (show ¬(a + 2 ≤ t + 1 ∧ t + 1 ≤ a + 5001) by omega)]
    rfl
  · rw [pulse, pulse, if_neg (show ¬ t + 1 ≤ t by omega), if_pos (le_refl t), decide_eq_true rfl,
      decide_eq_false (show ¬(t + 2 ≤ t ∧ t ≤ t + 5001) by omega),
      decide_eq_false (show ¬(t + 2 ≤ t + 1 ∧ t + 1 ≤ t + 5001) by omega),
      show 5001 + t - (t + 1) = 5000 by omega]
    rfl
  · rw [pulse, pulse, if_neg (show ¬ t + 1 ≤ a by omega), if_neg (show ¬ t ≤ a by omega),
      decide_eq_false hgt.ne', step, if_neg Bool.false_ne_true]
    by_cases hbusy : t ≤ a + 5000
    · rw [if_pos (show 5001 + a - t > 0 by omega), Nat.sub_sub,
        decide_eq_true (show a + 2 ≤ t + 1 ∧ t + 1 ≤ a + 5001 by omega)]
    · rw [if_neg (show ¬ 5001 + a - t > 0 by omega),
        decide_eq_false (show ¬(a + 2 ≤ t + 1 ∧ t + 1 ≤ a + 5001) by omega),
        show 5001 + a - (t + 1) = 5001 + a - t by omega]

end Stretcher

/-! ### The stretchers as one-shots -/

/-- A stretcher as a one-shot. -/
def Stretcher.toOneShot (p : Stretcher) : OneShot := ⟨p.count, p.out⟩

theorem Stretcher.toOneShot_step (edge : Bool) (p : Stretcher) :
    (p.step edge).toOneShot = p.toOneShot.step 5000 edge := by
  cases edge with
  | true => rfl
  | false =>
    by_cases hbusy : p.count > 0
    · simp [step, OneShot.step, toOneShot, hbusy]
    · simp [step, OneShot.step, toOneShot, hbusy]

/-- A stretcher runs on the edges of its button. -/
theorem toOneShot_run {stretcher : State → Stretcher} {edge : State → Bool}
    (hstep : ∀ b s, stretcher (step true b s) = (stretcher s).step (edge s)) (s : State)
    (buttons : ℕ → Buttons) (t : ℕ) : (stretcher (run s buttons t)).toOneShot =
      Clocked.run (OneShot.step 5000) (stretcher s).toOneShot (fun t ↦ edge (run s buttons t)) t := by
  induction t with
  | zero => rfl
  | succ t ih => rw [run_succ, hstep, Stretcher.toOneShot_step, ih, Clocked.run_succ]

/-! ### Runs with the reset released -/

/-- Both registers of the synchronised reset are high. -/
structure State.Released (s : State) : Prop where
  rstSync1 : s.rstSync1 = true
  rstSync2 : s.rstSync2 = true

namespace State.Released

variable {s : State} (h : s.Released)

include h

theorem settled : s.Settled := by
  constructor <;> intro hsync <;> simp_all [h.rstSync1, h.rstSync2]

theorem button_step (b : Buttons) (k : Button) :
    (Volume.step true b s).button k = (s.button k).sample (b.level k) := by
  cases k
  · exact (h.settled.step_volUpBtn b).trans (if_pos h.rstSync2)
  · exact (h.settled.step_volDownBtn b).trans (if_pos h.rstSync2)
  · exact (h.settled.step_muteBtn b).trans (if_pos h.rstSync2)

theorem released_run (buttons : ℕ → Buttons) (t : ℕ) : (run s buttons t).Released := by
  refine Clocked.invariant_run h (fun b s' hs ↦ ?_) t
  exact ⟨rfl, hs.rstSync1⟩

/-- The registers of a button hold its last three levels. -/
theorem button_run (buttons : ℕ → Buttons) (k : Button) (t : ℕ) :
    (run s buttons t).button k =
      ⟨(s.button k).history (fun t ↦ (buttons t).level k) (t + 2),
        (s.button k).history (fun t ↦ (buttons t).level k) (t + 1),
        (s.button k).history (fun t ↦ (buttons t).level k) t⟩ := by
  induction t with
  | zero => rfl
  | succ t ih =>
    rw [run_succ, (h.released_run buttons t).button_step, ih]
    rfl

end State.Released

/-- Up to cycle `T` the only button that falls is `pressed`, in cycle `e`. -/
def PressedOnce (s : State) (buttons : ℕ → Buttons) (pressed : Button) (e T : ℕ) : Prop :=
  ∀ k, ∀ t < T, (s.button k).falls (fun t ↦ (buttons t).level k) t = decide (k = pressed ∧ t = e)

section Press

variable {s : State} (hreleased : s.Released) (hsteady : ∀ k, (s.button k).Steady)
  {buttons : ℕ → Buttons} {pressed : Button} {e T : ℕ}
  (hpress : PressedOnce s buttons pressed e T)

include hreleased hsteady hpress

/-- The only edge is that of the pressed button, two cycles later. -/
theorem edge_run (k : Button) {t : ℕ} (ht : t ≤ T + 1) :
    ((run s buttons t).button k).edge = decide (k = pressed ∧ t = e + 2) := by
  rw [hreleased.button_run]
  match t, ht with
  | 0, _ =>
    rw [decide_eq_false (by omega)]
    exact (hsteady k).edge
  | 1, _ =>
    rw [decide_eq_false (by omega)]
    exact (hsteady k).sync
  | t + 2, ht =>
    simp only [Nat.add_right_cancel_iff]
    exact hpress k t (by omega)

/-- The mute flag changes three cycles later. -/
theorem muteState_run {t : ℕ} (ht : t ≤ T + 2) :
    (run s buttons t).muteState = if t ≤ e + 2 then s.muteState else pressed.muted s.muteState := by
  induction t with
  | zero => rfl
  | succ t ih =>
    have hedge := fun k ↦ edge_run hreleased hsteady hpress k (show t ≤ T + 1 by omega)
    have hup := hedge .volumeUp
    have hdown := hedge .volumeDown
    have hmute := hedge .mute
    simp only [State.button] at hup hdown hmute
    rw [run_succ, (hreleased.released_run buttons t).settled.step_muteState, State.shiftRegister, hup,
      hdown, hmute, ih (by omega)]
    rcases Nat.lt_trichotomy t (e + 2) with hlt | rfl | hgt
    · simp [hlt.ne, hlt.le, Nat.succ_le_of_lt hlt]
    · cases pressed <;> simp [Button.muted]
    · simp [hgt.ne', Nat.not_le.mpr hgt, Nat.not_le.mpr (Nat.lt_succ_of_lt hgt)]

/-- A volume button is stretched to one pulse. -/
theorem stretcher_run {k : Button} {stretcher : State → Stretcher}
    (hstep : ∀ b s, stretcher (step true b s) = (stretcher s).step (s.button k).edge)
    (hidle : stretcher s = .idle) {t : ℕ} (ht : t ≤ T + 2) :
    stretcher (run s buttons t) = if k = pressed then .pulse (e + 2) t else .idle := by
  induction t with
  | zero =>
    rw [Stretcher.pulse_zero, ite_self]
    exact hidle
  | succ t ih =>
    rw [run_succ, hstep, edge_run hreleased hsteady hpress k (by omega), ih (by omega)]
    by_cases hk : k = pressed
    · rw [if_pos hk, if_pos hk, Stretcher.pulse_succ]
      simp only [hk, true_and]
    · rw [if_neg hk, if_neg hk, decide_eq_false fun hedge ↦ hk hedge.1]
      rfl

theorem volUp_run (hidle : s.volUp = .idle) {t : ℕ} (ht : t ≤ T + 2) :
    (run s buttons t).volUp = if .volumeUp = pressed then .pulse (e + 2) t else .idle :=
  stretcher_run hreleased hsteady hpress step_volUp hidle ht

theorem volDown_run (hidle : s.volDown = .idle) {t : ℕ} (ht : t ≤ T + 2) :
    (run s buttons t).volDown = if .volumeDown = pressed then .pulse (e + 2) t else .idle :=
  stretcher_run hreleased hsteady hpress step_volDown hidle ht

end Press

end AudioProcessor.Volume
