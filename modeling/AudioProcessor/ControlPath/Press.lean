import AudioProcessor.ControlPath.Update
import AudioProcessor.Volume.Press

/-!
# A single press

The pulse of a volume button is high in 5000 cycles, and the controller looks at it every 2500
cycles: one tick to leave `stop`, and the next to begin the pass at position 3. At all positions of
the divider but one the pulse is seen at both. The exception is a pulse that rises together with a
tick: the edge memory has it after this tick, but the decision of the tick was made without it, so at
the next one it looks as if it had been there before, and the controller never leaves `stop`.

`single_press_iff` follows one press from any reachable idle state. It is delivered unless its pulse
is missed in this way (`Missed`); a press that also ends a mute is delivered in any case.
-/

set_option autoImplicit false
set_option relaxedAutoImplicit false

namespace AudioProcessor.Codec

/-- The signals as the edge memory of the 20 kHz domain has them. -/
def Slow.seen (s : Slow) : Signals := ⟨s.volUpRegSlow, s.volDownRegSlow, s.isMutedReg⟩

/-- The signals changed in a way that makes the controller leave `stop`. -/
def Signals.changed (before after : Signals) : Bool :=
  (after.volUp && !before.volUp) || (after.volDown && !before.volDown) ||
    after.isMuted != before.isMuted

theorem Slow.leavesStop_eq (i : Signals) (s : Slow) : s.leavesStop i = s.seen.changed i := rfl

/-- The edge memory has the pulses as they were after the tick, and the mute flag as it was before
it. -/
theorem Slow.seen_tick (i : TickInputs) (s : Slow) :
    (s.tick i).seen = ⟨i.after.volUp, i.after.volDown, i.before.isMuted⟩ := rfl

end AudioProcessor.Codec

namespace AudioProcessor.ControlPath

open Codec (Signals tickEdge transfers i2cData)
open Volume (Button PressedOnce)

/-! ### Reachable states -/

/-- The divider and the sequencer are in step, and the controller makes no tick before the
synchronised reset is released. -/
structure InStep (s : State) : Prop where
  divided : s.codec.Divided
  valid : s.codec.slow.Valid
  rstSync1 : s.volume.rstSync1 = false →
    s.codec.i2cClockCounter = 0 ∧ s.codec.slow.currentState = .resetState
  rstSync2 : s.volume.rstSync2 = false →
    s.codec.i2cClockCounter ≤ 1 ∧ s.codec.slow.currentState = .resetState

theorem inStep_initial : InStep .initial where
  divided := Codec.State.divided_asyncReset State.initial.codec
  valid := Codec.Slow.valid_asyncReset State.initial.codec.slow
  rstSync1 _ := ⟨rfl, rfl⟩
  rstSync2 _ := ⟨Nat.zero_le 1, rfl⟩

theorem InStep.step {s : State} (h : InStep s) (i : Inputs) : InStep (step i s) := by
  rw [ControlPath.step]
  cases i.reset
  · exact ⟨Codec.State.divided_asyncReset s.codec, Codec.Slow.valid_asyncReset s.codec.slow,
      fun _ ↦ ⟨rfl, rfl⟩, fun _ ↦ ⟨Nat.zero_le 1, rfl⟩⟩
  · refine ⟨Codec.divided_step _ _ _ h.divided, ?_, fun hsync ↦ ?_, fun hsync ↦ ?_⟩
    · rw [Codec.step_slow _ _ _ h.divided]
      split_ifs
      · exact Codec.Slow.valid_tick _ h.valid
      · exact h.valid
    · rw [Volume.step_rstSync1] at hsync
      contradiction
    · rw [Volume.step_rstSync2] at hsync
      obtain ⟨hcounter, hstate⟩ := h.rstSync1 hsync
      rw [(Codec.step_divider _ _ _ s.codec).1, h.divided.divider, Codec.step_slow _ _ _ h.divided,
        if_neg (by omega), hcounter]
      exact ⟨le_refl 1, hstate⟩

theorem inStep_of_reachable {s : State} (h : Reachable s) : InStep s := by
  obtain ⟨inputs, n, rfl⟩ := h
  exact Clocked.invariant_run inStep_initial (fun i _ hs ↦ hs.step i) n

/-- The controller is in `stop`, its edge memory has the signals as they are, and no pulse and no
edge is in flight. -/
structure Idle (s : State) : Prop where
  stop : s.codec.slow.currentState = .stop
  volUp : s.volume.volUp = .idle
  volDown : s.volume.volDown = .idle
  steady : ∀ k, (s.volume.button k).Steady
  seen : s.codec.slow.seen = signals s.volume

theorem Idle.released {s : State} (h : Idle s) (hreach : Reachable s) : s.volume.Released := by
  have hstep := inStep_of_reachable hreach
  have hstop : s.codec.slow.currentState ≠ .resetState := by
    rw [h.stop]
    exact Codec.States.noConfusion
  constructor
  · by_contra hsync
    exact hstop (hstep.rstSync1 (Bool.eq_false_of_not_eq_true hsync)).2
  · by_contra hsync
    exact hstop (hstep.rstSync2 (Bool.eq_false_of_not_eq_true hsync)).2

/-! ### The signals of a press -/

/-- The signals in cycle `t` where the button `pressed` falls in cycle `e`. -/
def pressSignals (pressed : Button) (e : ℕ) (muted : Bool) (t : ℕ) : Signals where
  volUp := decide (.volumeUp = pressed ∧ e + 4 ≤ t ∧ t ≤ e + 5003)
  volDown := decide (.volumeDown = pressed ∧ e + 4 ≤ t ∧ t ≤ e + 5003)
  isMuted := if t ≤ e + 2 then muted else pressed.muted muted

/-- What a tick at edge `u` leaves of them in the edge memory. -/
def pressSeen (pressed : Button) (e : ℕ) (muted : Bool) (u : ℕ) : Signals where
  volUp := (pressSignals pressed e muted (u + 1)).volUp
  volDown := (pressSignals pressed e muted (u + 1)).volDown
  isMuted := (pressSignals pressed e muted u).isMuted

/-- The first cycle in which the signals are not as before the press: the pulse comes one cycle
after the mute flag. -/
def firstChange (pressed : Button) (e : ℕ) (muted : Bool) : ℕ :=
  if pressed.muted muted = muted then e + 4 else e + 3

section Signals

variable (pressed : Button) {e t u : ℕ} (muted : Bool)

theorem pressSignals_before (ht : t < firstChange pressed e muted) :
    pressSignals pressed e muted t = ⟨false, false, muted⟩ := by
  rw [firstChange] at ht
  have hmuted : (if t ≤ e + 2 then muted else pressed.muted muted) = muted := by
    split_ifs at ht with hsame
    · rw [hsame, ite_self]
    · exact if_pos (by omega)
  rw [pressSignals, hmuted, decide_eq_false (by split_ifs at ht <;> omega),
    decide_eq_false (by split_ifs at ht <;> omega)]

theorem pressSignals_pulse (hlow : e + 4 ≤ t) (hhigh : t ≤ e + 5003) :
    pressSignals pressed e muted t = ⟨decide (.volumeUp = pressed), decide (.volumeDown = pressed),
      pressed.muted muted⟩ := by
  rw [pressSignals, if_neg (by omega)]
  simp only [hlow, hhigh, and_true]

theorem pressSignals_after (ht : e + 5004 ≤ t) :
    pressSignals pressed e muted t = ⟨false, false, pressed.muted muted⟩ := by
  rw [pressSignals, if_neg (by omega), decide_eq_false (by omega), decide_eq_false (by omega)]

theorem pressSeen_before (hu : u < e + 3) :
    pressSeen pressed e muted u = ⟨false, false, muted⟩ := by
  have hpulse (k : Button) : decide (k = pressed ∧ e + 4 ≤ u + 1 ∧ u + 1 ≤ e + 5003) = false :=
    decide_eq_false (by omega)
  have hmuted : (if u ≤ e + 2 then muted else pressed.muted muted) = muted := if_pos (by omega)
  rw [pressSeen, pressSignals, pressSignals, hpulse, hpulse, hmuted]

theorem pressSeen_after (hu : e + 5003 ≤ u) :
    pressSeen pressed e muted u = ⟨false, false, pressed.muted muted⟩ := by
  rw [pressSeen, pressSignals_after pressed muted (by omega), pressSignals, if_neg (by omega)]

/-- The press can be seen in a window as long as the divider's period. -/
theorem changed_pressSignals (hlow : firstChange pressed e muted ≤ t)
    (hhigh : t < firstChange pressed e muted + 2500) :
    Signals.changed ⟨false, false, muted⟩ (pressSignals pressed e muted t) = true := by
  rw [firstChange] at hlow hhigh
  split_ifs at hlow hhigh with hsame
  · rw [pressSignals_pulse pressed muted hlow (by omega), hsame]
    cases pressed
    · rfl
    · rfl
    · cases muted <;> cases hsame
  · have hmuted : (pressSignals pressed e muted t).isMuted = pressed.muted muted :=
      if_neg (by omega)
    rw [Signals.changed, hmuted, bne_iff_ne.mpr hsame, Bool.or_true]

/-- Of a pulse that rose together with a tick, no later tick sees a change. -/
theorem changed_pressSeen (hsame : pressed.muted muted = muted) (hu : e + 3 ≤ u) :
    (pressSeen pressed e muted u).changed (pressSignals pressed e muted (u + 2500)) = false := by
  have hmuted (t : ℕ) : (pressSignals pressed e muted t).isMuted = muted := by
    rw [pressSignals, hsame, ite_self]
  rw [Signals.changed, hmuted, pressSeen, hmuted, bne_self_eq_false, Bool.or_false]
  rcases Nat.lt_or_ge (e + 5003) (u + 2500) with hover | hwithin
  · rw [pressSignals_after pressed muted (by omega)]
    rfl
  · rw [pressSignals_pulse pressed muted (by omega) hwithin,
      pressSignals_pulse pressed muted (by omega) (by omega), Bool.and_not_self, Bool.and_not_self]
    rfl

end Signals

/-- The volume level after a press. -/
def pressedLevel (volLevel : BitVec 7) : Button → BitVec 7
  | .volumeUp => if volLevel < 0b1111111 then volLevel + 1 else volLevel
  | .volumeDown => if volLevel > 0b1100101 then volLevel - 1 else volLevel
  | .mute => volLevel

/-- The position at which the pass of a press begins. -/
def firstPosition : Button → ℕ
  | .mute => 0
  | _ => 3

theorem firstPosition_le (pressed : Button) : firstPosition pressed ≤ 10 := by
  cases pressed <;> decide

/-! ### Runs with one press -/

/-- The 20 kHz domain before tick `n` of a run. -/
def slowAt (s : State) (inputs : ℕ → Inputs) (n : ℕ) : Codec.Slow :=
  (run s inputs (tickEdge s.codec n)).codec.slow

/-- What tick `n` of a run reads. -/
def readAt (s : State) (inputs : ℕ → Inputs) (n : ℕ) : Codec.TickInputs where
  before := signals (run s inputs (tickEdge s.codec n)).volume
  after := signals (run s inputs (tickEdge s.codec n + 1)).volume
  volLevel := (run s inputs (tickEdge s.codec n)).codec.volLevel
  pull := (inputs (tickEdge s.codec n)).answer

/-- The pulse of the press rises together with a tick, and the mute flag does not move. -/
def Missed (s : State) (pressed : Button) (e : ℕ) : Prop :=
  pressed.muted s.volume.muteState = s.volume.muteState ∧
    (s.codec.i2cClockCounter + (e + 3)) % 2500 = 1250

/-- The press is delivered: the controller leaves `stop` once, at a tick at most 2502 cycles after
it, sends the words of one pass, each with its position, from position 3 on for a volume button and
from position 0 on for the mute button, all of them with the volume that results from the press, and
then stays in `stop`, as far as the run is looked at. -/
def Delivered (s : State) (inputs : ℕ → Inputs) (pressed : Button) (e T : ℕ) : Prop :=
  ∃ N, e + 3 ≤ tickEdge s.codec N ∧ tickEdge s.codec N ≤ e + 2502 ∧
    ∀ n, tickEdge s.codec n ≤ T →
      ((slowAt s inputs n).currentState = .stop ↔
        n ≤ N ∨ N + 3 + 36 * (11 - firstPosition pressed) ≤ n) ∧
      (N + 3 + 36 * (11 - firstPosition pressed) ≤ n → transfers (slowAt s inputs) n =
        (List.range (11 - firstPosition pressed)).map fun j ↦
          (firstPosition pressed + j, i2cData (firstPosition pressed + j)
            (Codec.effectiveVol (pressed.muted s.volume.muteState)
              (pressedLevel s.codec.volLevel pressed))))

section Press

variable {s : State} (hreach : Reachable s) (hidle : Idle s) {inputs : ℕ → Inputs}
  (hreset : ∀ t, (inputs t).reset = true) {pressed : Button} {e T : ℕ}
  (hpress : PressedOnce s.volume (fun t ↦ (inputs t).buttons) pressed e T)

include hreach hidle hreset

omit hidle in
theorem slowAt_eq_run (n : ℕ) :
    slowAt s inputs n = s.codec.slow.run (readAt s inputs) n := by
  have hcodec := codec_run s hreset
  have hinputs : Codec.tickInputs s.codec (fun t ↦ signals (run s inputs t).volume)
      (fun t ↦ (inputs t).answer) = readAt s inputs := by
    funext i
    rw [Codec.tickInputs, readAt, hcodec]
  rw [slowAt, hcodec, Codec.slow_tickEdge (inStep_of_reachable hreach).divided, hinputs]

include hpress

/-- The signals of a run with one press. -/
theorem signals_run {t : ℕ} (ht : t ≤ T + 2) : signals (run s inputs t).volume =
    pressSignals pressed e s.volume.muteState t := by
  have hreleased := hidle.released hreach
  rw [volume_run s hreset, signals,
    Volume.volUp_run hreleased hidle.steady hpress hidle.volUp ht,
    Volume.volDown_run hreleased hidle.steady hpress hidle.volDown ht,
    Volume.muteState_run hreleased hidle.steady hpress ht]
  cases pressed <;> simp [pressSignals, Volume.Stretcher.pulse, Volume.Stretcher.idle]

/-- The pulse rises once. -/
theorem rises_run {t : ℕ} (ht : t ≤ T + 2) :
    ((pressSignals pressed e s.volume.muteState t).volUp &&
        !(run s inputs t).codec.volUpRegFast) = decide (.volumeUp = pressed ∧ t = e + 4) ∧
      ((pressSignals pressed e s.volume.muteState t).volDown &&
        !(run s inputs t).codec.volDownRegFast) = decide (.volumeDown = pressed ∧ t = e + 4) := by
  cases t with
  | zero => simp [pressSignals]
  | succ t =>
    rw [run_succ, step, hreset, Codec.step_volUpRegFast, Codec.step_volDownRegFast,
      signals_run hreach hidle hreset hpress (show t ≤ T + 2 by omega)]
    simp only [pressSignals, ← decide_not, ← Bool.decide_and]
    exact ⟨decide_eq_decide.mpr (by grind), decide_eq_decide.mpr (by grind)⟩

/-- The volume level moves with the rising edge of the pulse. -/
theorem volLevel_run {t : ℕ} (ht : t ≤ T + 3) : (run s inputs t).codec.volLevel =
    if t ≤ e + 4 then s.codec.volLevel else pressedLevel s.codec.volLevel pressed := by
  induction t with
  | zero => rfl
  | succ t ih =>
    obtain ⟨hup, hdown⟩ := rises_run hreach hidle hreset hpress (show t ≤ T + 2 by omega)
    rw [run_succ, step, hreset, Codec.step_volLevel, Codec.State.nextVolLevel,
      signals_run hreach hidle hreset hpress (by omega), hup, hdown, ih (by omega)]
    rcases Nat.lt_trichotomy t (e + 4) with hlt | rfl | hgt
    · simp [hlt.ne, hlt.le, Nat.succ_le_of_lt hlt]
    · cases pressed <;> simp [pressedLevel]
    · simp [hgt.ne', Nat.not_le.mpr hgt, Nat.not_le.mpr (Nat.lt_succ_of_lt hgt)]

/-- What a tick reads long enough after the press. -/
theorem effectiveVol_readAt {n : ℕ} (hlow : e + 5004 ≤ tickEdge s.codec n)
    (hhigh : tickEdge s.codec n ≤ T) : (readAt s inputs n).effectiveVol =
      Codec.effectiveVol (pressed.muted s.volume.muteState)
        (pressedLevel s.codec.volLevel pressed) := by
  rw [readAt, Codec.TickInputs.effectiveVol, signals_run hreach hidle hreset hpress (by omega),
    volLevel_run hreach hidle hreset hpress (by omega), if_neg (by omega),
    pressSignals_after _ _ hlow]

/-- The first tick compares the signals with those of the idle state. -/
theorem leavesStop_readAt_zero (hfirst : tickEdge s.codec 0 ≤ T) :
    (s.codec.slow.run (readAt s inputs) 0).leavesStop (readAt s inputs 0).before =
      Signals.changed ⟨false, false, s.volume.muteState⟩
        (pressSignals pressed e s.volume.muteState (tickEdge s.codec 0)) := by
  rw [Codec.Slow.leavesStop_eq, readAt, signals_run hreach hidle hreset hpress (by omega)]
  refine congrArg (fun seen ↦ Signals.changed seen _) (hidle.seen.trans ?_)
  rw [signals, hidle.volUp, hidle.volDown]
  rfl

/-- Every other tick compares them with what the tick before it left in the edge memory. -/
theorem leavesStop_readAt_succ {k : ℕ} (hk : tickEdge s.codec (k + 1) ≤ T) :
    (s.codec.slow.run (readAt s inputs) (k + 1)).leavesStop (readAt s inputs (k + 1)).before =
      (pressSeen pressed e s.volume.muteState (tickEdge s.codec k)).changed
        (pressSignals pressed e s.volume.muteState (tickEdge s.codec (k + 1))) := by
  have hlast : tickEdge s.codec k + 2500 ≤ T := (Codec.tickEdge_succ _ _).symm.trans_le hk
  rw [Codec.Slow.leavesStop_eq, Codec.Slow.run_succ, Codec.Slow.seen_tick, readAt, readAt,
    signals_run hreach hidle hreset hpress (by omega),
    signals_run hreach hidle hreset hpress (by omega),
    signals_run hreach hidle hreset hpress (by omega)]
  rfl

/-- A press whose pulse is missed leaves the controller in `stop`. -/
theorem stop_of_missed (hmissed : Missed s pressed e) {n : ℕ} (hn : tickEdge s.codec n ≤ T) :
    (slowAt s inputs n).currentState = .stop := by
  have hstep := inStep_of_reachable hreach
  have hlt := hstep.divided.lt
  obtain ⟨hsame, hrises⟩ := hmissed
  have hchange : firstChange pressed e s.volume.muteState = e + 4 := if_pos hsame
  rw [slowAt_eq_run hreach hreset]
  refine Codec.Slow.currentState_of_stop (Codec.Slow.phase_before_change hstep.valid
    (Codec.Slow.phase_of_stop hidle.stop) (fun k hk _ ↦ ?_) (le_refl n) (le_refl n))
  have hedge : tickEdge s.codec k < tickEdge s.codec n := by
    rw [tickEdge, tickEdge]
    omega
  cases k with
  | zero =>
    -- the tick with which the pulse rises is one of the run, so the first one is not later
    have hfirst : tickEdge s.codec 0 < e + 4 := by
      rw [tickEdge]
      omega
    rw [leavesStop_readAt_zero hreach hidle hreset hpress (by omega),
      pressSignals_before _ _ (by omega)]
    exact bne_self_eq_false _
  | succ k =>
    rw [leavesStop_readAt_succ hreach hidle hreset hpress (by omega)]
    rcases Nat.lt_or_ge (tickEdge s.codec k) (e + 3) with hearly | hlate
    · have hnext : tickEdge s.codec (k + 1) < e + 4 := by
        rw [tickEdge] at hearly ⊢
        omega
      rw [pressSeen_before _ _ hearly, pressSignals_before _ _ (by omega)]
      exact bne_self_eq_false _
    · rw [Codec.tickEdge_succ]
      exact changed_pressSeen _ _ hsame hlate

/-- Any other press is delivered. -/
theorem delivered_of_not_missed (hanswer : ∀ t, (inputs t).answer = true)
    (hseen : ¬ Missed s pressed e) : Delivered s inputs pressed e T := by
  have hstep := inStep_of_reachable hreach
  have hlt := hstep.divided.lt
  set muted := s.volume.muteState with hmuted
  set first := firstPosition pressed
  have hfirst : first ≤ 10 := firstPosition_le pressed
  obtain ⟨N, hbefore, hlow, hhigh⟩ :=
    Codec.exists_firstTick hstep.divided (firstChange pressed e muted)
  -- no tick falls on the edge with which a pulse rises that nothing else tells
  have hapart : firstChange pressed e muted = e + 3 ∨ firstChange pressed e muted = e + 4 ∧
      ∀ k, tickEdge s.codec k ≠ e + 3 := by
    rw [firstChange]
    split_ifs with hsame
    · refine .inr ⟨rfl, fun k hk ↦ hseen ⟨hsame, ?_⟩⟩
      rw [tickEdge] at hk
      omega
    · exact .inl rfl
  have hearly : ∀ k < N, tickEdge s.codec k < e + 3 := fun k hk ↦ by
    have hlate := hbefore k hk
    rcases hapart with hchange | ⟨hchange, hnone⟩
    · omega
    · have hother := hnone k
      omega
  have hsoon : tickEdge s.codec N ≤ e + 2502 := by
    rcases hapart with hchange | ⟨hchange, hnone⟩
    · omega
    · by_contra hlate
      cases N with
      | zero =>
        rw [tickEdge] at hhigh hlate
        omega
      | succ N =>
        refine hnone N ?_
        rw [tickEdge] at hhigh hlate ⊢
        omega
  refine ⟨N, by omega, hsoon, fun n hn ↦ ?_⟩
  rw [funext (slowAt_eq_run hreach hreset)]
  have hwithin : ∀ k < n, tickEdge s.codec k ≤ T := fun k hk ↦ by
    rw [tickEdge] at hn ⊢
    omega
  have hlater : ∀ k ≥ N + 3, e + 5004 ≤ tickEdge s.codec k := fun k hk ↦ by
    rw [tickEdge] at hlow ⊢
    omega
  have hcompares : ∀ k ≤ N, tickEdge s.codec k ≤ T →
      (s.codec.slow.run (readAt s inputs) k).leavesStop (readAt s inputs k).before =
        Signals.changed ⟨false, false, muted⟩
          (pressSignals pressed e muted (tickEdge s.codec k)) := by
    intro k hk hkT
    cases k with
    | zero => exact leavesStop_readAt_zero hreach hidle hreset hpress hkT
    | succ k =>
      rw [leavesStop_readAt_succ hreach hidle hreset hpress hkT, ← hmuted,
        pressSeen_before _ _ (hearly k hk)]
  have hstays : ∀ k < N, k < n →
      (s.codec.slow.run (readAt s inputs) k).leavesStop (readAt s inputs k).before = false := by
    intro k hkN hkn
    rw [hcompares k hkN.le (hwithin k hkn), pressSignals_before _ _ (hbefore k hkN)]
    exact bne_self_eq_false muted
  have hleaves : N < n →
      (s.codec.slow.run (readAt s inputs) N).leavesStop (readAt s inputs N).before = true := by
    intro hNn
    rw [hcompares N (le_refl N) (hwithin N hNn), changed_pressSignals _ _ hlow hhigh]
  have hbegins : N + 1 < n → (if (readAt s inputs (N + 1)).pulse then 3 else 0) = first := by
    intro hNn
    have hsignals : (readAt s inputs (N + 1)).after =
        pressSignals pressed e muted (tickEdge s.codec (N + 1) + 1) :=
      signals_run hreach hidle hreset hpress (Nat.add_le_add (hwithin _ hNn) (Nat.le_succ 1))
    rw [Codec.TickInputs.pulse, hsignals, Codec.tickEdge_add,
      pressSignals_pulse _ _ (by omega) (by omega)]
    cases pressed <;> rfl
  have hrests : ∀ k ≥ N + 3 + 36 * (11 - first), k < n →
      (s.codec.slow.run (readAt s inputs) k).leavesStop (readAt s inputs k).before = false := by
    intro k hkN hkn
    obtain ⟨j, rfl⟩ : ∃ j, k = j + 1 := Nat.exists_eq_succ_of_ne_zero (by omega)
    rw [leavesStop_readAt_succ hreach hidle hreset hpress (hwithin _ hkn),
      pressSignals_after _ _ (hlater _ (by omega)),
      pressSeen_after _ _ (Nat.le_of_succ_le (hlater j (by omega)))]
    exact bne_self_eq_false _
  have hacked : s.codec.slow.Acknowledged (readAt s inputs) := fun _ _ ↦ hanswer _
  have hstop := Codec.Slow.phase_of_stop hidle.stop
  refine ⟨Iff.trans ⟨Codec.Slow.phase_of_stop, Codec.Slow.currentState_of_stop⟩
    (Codec.Slow.phase_eq_stop_iff hstep.valid hacked hstop hfirst hstays hleaves hbegins hrests
      (le_refl n)), fun hover ↦ ?_⟩
  rw [Codec.Slow.transfers_change hstep.valid hacked hstop hfirst hstays hleaves hbegins hrests
    hover (le_refl n)]
  refine List.map_congr_left fun j hj ↦ ?_
  have hj := List.mem_range.mp hj
  rw [effectiveVol_readAt hreach hidle hreset hpress (hlater _ (by omega)) (hwithin _ (by omega))]

/-- A missed press is not delivered, if the run is looked at up to the end of the pulse. -/
theorem not_delivered_of_missed (hT : e + 5004 ≤ T) (hmissed : Missed s pressed e) :
    ¬ Delivered s inputs pressed e T := by
  rintro ⟨N, hlow, hhigh, hpass⟩
  have hedge : tickEdge s.codec (N + 1) ≤ T := by
    rw [Codec.tickEdge_succ]
    omega
  have hstop := ((hpass (N + 1) hedge).1.mp
    (stop_of_missed hreach hidle hreset hpress hmissed hedge))
  omega

/-- A press of one button from a reachable idle state, at any position of the divider and for any
hold time, with a slave that acknowledges everything and no other button falling up to cycle `T`, by
which the pulse is over: it is delivered if and only if it is not missed. -/
theorem single_press_iff (hanswer : ∀ t, (inputs t).answer = true) (hT : e + 5004 ≤ T) :
    Delivered s inputs pressed e T ↔ ¬ Missed s pressed e :=
  ⟨fun hdelivered hmissed ↦
    not_delivered_of_missed hreach hidle hreset hpress hT hmissed hdelivered,
    delivered_of_not_missed hreach hidle hreset hpress hanswer⟩

end Press

/-! ### The up button pressed after the first pass -/

/-- Until the mute button is pressed the volume control rests. -/
theorem volume_holdMute_before {e t : ℕ} (ht : 2 ≤ t) (hte : t ≤ e) :
    (run State.initial.afterReset (holdMute e) t).volume =
      ⟨true, true, .released, .released, .released, 0b11111111, false, .idle, .idle⟩ := by
  rw [volume_holdMute (ht.trans hte), decide_eq_true (show 1 ≤ t by omega), decide_eq_true ht,
    decide_eq_true hte, decide_eq_true (show t ≤ e + 1 by omega),
    decide_eq_true (show t ≤ e + 2 by omega), decide_eq_false (show ¬ e + 3 ≤ t by omega)]
  rfl

/-- After the first pass the controller is idle until the button is pressed. -/
theorem idle_holdMute {e : ℕ} (he : 1250 + 2500 * 398 ≤ e) :
    Idle (run State.initial.afterReset (holdMute e) (1250 + 2500 * 398)) := by
  have hvolume := volume_holdMute_before (show 2 ≤ 1250 + 2500 * 398 by omega) he
  have hslow : (beforeTick .initial (holdMute e) (397 + 1)).seen = ⟨false, false, false⟩ := by
    rw [beforeTick_eq_run .initial fun _ ↦ rfl, Codec.Slow.run_succ,
      atTick_holdMute (show 2 ≤ e by omega), Codec.Slow.seen_tick,
      decide_eq_false (show ¬ e + 3 ≤ 1250 + 2500 * 397 by omega)]
  have hstop := (firstPass_holdMute (show 2 ≤ e by omega) (by omega)).1
  rw [beforeTick] at hslow hstop
  refine ⟨hstop, ?_, ?_, fun k ↦ ?_, ?_⟩
  · rw [hvolume]
  · rw [hvolume]
  · rw [hvolume]
    cases k <;> exact ⟨rfl, rfl⟩
  · rw [hvolume]
    exact hslow

/-- The system after the first pass. -/
def rested : State :=
  run State.initial.afterReset (holdMute (1250 + 2500 * 398)) (1250 + 2500 * 398)

theorem volume_rested : rested.volume =
    ⟨true, true, .released, .released, .released, 0b11111111, false, .idle, .idle⟩ := by
  rw [rested, volume_holdMute_before (by omega) le_rfl]

theorem reachable_rested : Reachable rested :=
  ⟨holdMute (1250 + 2500 * 398), 1250 + 2500 * 398, by
    rw [rested, show State.initial.afterReset = .initial from rfl]⟩

theorem i2cClockCounter_rested : rested.codec.i2cClockCounter = 1250 := by
  have hdivided : State.initial.afterReset.codec.Divided :=
    Codec.State.divided_asyncReset State.initial.codec
  rw [rested, codec_run State.initial.afterReset fun _ ↦ rfl, Codec.run_i2cClockCounter hdivided]
  rfl

/-- The up button is pressed `e` cycles later, and held. -/
def pressUp (e k : ℕ) : Inputs := ⟨true, ⟨decide (k < e), true, true⟩, true⟩

theorem pressedOnce_pressUp (e T : ℕ) :
    PressedOnce rested.volume (fun k ↦ (pressUp e k).buttons) .volumeUp e T := by
  intro k t _
  rw [volume_rested, Volume.ButtonSync.falls]
  cases k with
  | volumeUp =>
    have hlast : Volume.ButtonSync.released.history
        (fun k ↦ (pressUp e k).buttons.level .volumeUp) (t + 2) = decide (t ≤ e) := by
      cases t with
      | zero => exact (decide_eq_true (Nat.zero_le e)).symm
      | succ t => exact decide_eq_decide.mpr (by omega)
    refine (congrArg (· && !decide (t < e)) hlast).trans ?_
    rw [← decide_not, ← Bool.decide_and]
    exact decide_eq_decide.mpr (by simp; omega)
  | volumeDown => exact Bool.and_false _
  | mute => exact Bool.and_false _

/-- The pulse of the press is missed where it rises together with one of the ticks. -/
theorem missed_rested (e : ℕ) : Missed rested .volumeUp e ↔ (e + 3) % 2500 = 0 := by
  rw [Missed, volume_rested, i2cClockCounter_rested]
  simp only [Volume.Button.muted, true_and]
  omega

/-- A pulse that rises one cycle after a tick is delivered, one that rises together with it is
not. -/
theorem single_press_up : Delivered rested (pressUp 2498) .volumeUp 2498 2000000 ∧
    ¬ Delivered rested (pressUp 2497) .volumeUp 2497 2000000 := by
  have hidle : Idle rested := idle_holdMute le_rfl
  have hexact (e : ℕ) (he : e + 5004 ≤ 2000000) :
      Delivered rested (pressUp e) .volumeUp e 2000000 ↔ ¬ (e + 3) % 2500 = 0 := by
    rw [← missed_rested]
    exact single_press_iff reachable_rested hidle (fun _ ↦ rfl) (pressedOnce_pressUp e 2000000)
      (fun _ ↦ rfl) he
  exact ⟨(hexact 2498 (by decide)).mpr (by decide),
    fun hdelivered ↦ (hexact 2497 (by decide)).mp hdelivered (by decide)⟩

/-- Not every press from an idle state is delivered. -/
theorem not_single_press :
    ¬ ∀ s : State, Reachable s → Idle s → ∀ inputs : ℕ → Inputs,
      (∀ t, (inputs t).reset = true) → (∀ t, (inputs t).answer = true) →
      ∀ pressed e T, PressedOnce s.volume (fun t ↦ (inputs t).buttons) pressed e T →
        e + 5004 ≤ T → Delivered s inputs pressed e T := by
  intro hclaim
  have hidle : Idle rested := idle_holdMute le_rfl
  have hpress := pressedOnce_pressUp 2497 2000000
  exact not_delivered_of_missed reachable_rested hidle (fun _ ↦ rfl) hpress (by decide)
    ((missed_rested 2497).mpr (by decide))
    (hclaim rested reachable_rested hidle (pressUp 2497) (fun _ ↦ rfl) (fun _ ↦ rfl) .volumeUp 2497
      2000000 hpress (by decide))

end AudioProcessor.ControlPath
