import AudioProcessor.Codec.Transfers
import AudioProcessor.ControlPath.System

/-!
# Keeping the volume of the codec up to date

The controller notices a change of the buttons only in `stop`: the edge memory it compares the
signals with is refreshed at every tick, in every state. A change of the effective volume is
therefore sent to the codec if it is seen in `stop`, or by a pass that has not loaded its word for
the left output yet, and is lost otherwise. `lastWord_current` says that in a run in which every
change comes in time (`Codec.Slow.InTime`) the codec never keeps a stale volume while the controller
stays in `stop`.
-/

set_option autoImplicit false
set_option relaxedAutoImplicit false

namespace AudioProcessor.Codec

/-- A pass has loaded its word for a position. -/
def Phase.Loaded (pos : ℕ) : Phase → Prop
  | .frame other ticks => pos < other ∨ other = pos ∧ 2 ≤ ticks
  | .finished => True
  | .stop => True
  | .jump => False
  | .hung _ => False

/-- A change that the tick ahead is the first to find is in time: it makes the controller leave
`stop`, or the pass that is beginning has not loaded its word for position 3 yet. -/
def Phase.InTime (leaves : Bool) : Phase → Prop
  | .stop => leaves = true
  | .jump => True
  | .frame pos ticks => pos < 3 ∨ pos = 3 ∧ ticks ≤ 1
  | .finished => False
  | .hung _ => False

/-- A change of the inputs that a tick reads is in time for it. -/
def Slow.InTime (i : TickInputs) (s : Slow) : Prop := s.phase.InTime (s.leavesStop i.before)

namespace Slow

variable {start : Slow} (hstart : start.Valid) (hjump : start.phase = .jump)
  {inputs : ℕ → TickInputs} (hacked : start.Acknowledged inputs)

include hstart

/-- A controller that stays in `stop` has no change to find. -/
theorem not_inTime_of_stays {n : ℕ} (hstop : (start.run inputs n).phase = .stop)
    (hstays : (start.run inputs (n + 1)).phase = .stop) :
    ¬ (start.run inputs n).InTime (inputs n) := by
  intro hchange
  rw [InTime, hstop] at hchange
  rw [phase_run_succ hstart, hstop,
    show (start.run inputs n).leavesStop (inputs n).before = true from hchange] at hstays
  cases hstays

include hjump hacked

/-- Once a pass has loaded its word for one of the output volumes, that word has the volume of the
last tick, if all changes up to it came in time. -/
theorem lastWord_of_loaded {pos : ℕ} (hpos : pos = 3 ∨ pos = 4) (n : ℕ)
    (hontime : ∀ k < n, (inputs (k + 1)).effectiveVol ≠ (inputs k).effectiveVol →
      (start.run inputs (k + 1)).InTime (inputs (k + 1)))
    (hloaded : (start.run inputs (n + 1)).phase.Loaded pos) :
    lastWord pos (transfers (start.run inputs) (n + 1)) =
      some (i2cData pos (inputs n).effectiveVol) := by
  induction n with
  | zero =>
    have hfirst : (start.run inputs (0 + 1)).phase = .frame (if (inputs 0).pulse then 3 else 0) 0 := by
      rw [phase_run_succ hstart, show (start.run inputs 0).phase = .jump from hjump, Phase.next]
    rw [hfirst, Phase.Loaded] at hloaded
    split_ifs at hloaded <;> omega
  | succ n ih =>
    have hkeep (hbefore : (start.run inputs (n + 1)).phase.Loaded pos)
        (hlate : ¬ (start.run inputs (n + 1)).InTime (inputs (n + 1)))
        (hsame : lastWord pos (transfers (start.run inputs) (n + 1 + 1)) =
          lastWord pos (transfers (start.run inputs) (n + 1))) :
        lastWord pos (transfers (start.run inputs) (n + 1 + 1)) =
          some (i2cData pos (inputs (n + 1)).effectiveVol) := by
      have hvol := not_not.mp (mt (hontime n (Nat.lt_succ_self n)) hlate)
      rw [hsame, ih (fun k hk ↦ hontime k (Nat.lt_succ_of_lt hk)) hbefore, hvol]
    have hnext := phase_run_succ hstart inputs (n + 1)
    rw [InTime] at hkeep
    cases hphase : (start.run inputs (n + 1)).phase with
    | jump =>
      rw [hnext, hphase, Phase.next, Phase.Loaded] at hloaded
      split_ifs at hloaded <;> omega
    | hung other => exact absurd hphase (phase_ne_hung hstart hacked hjump (n + 1) other)
    | finished =>
      refine hkeep (by rw [hphase]; trivial) (by rw [hphase]; exact id) ?_
      rw [transfers_succ_of_phase hstart (by simp [hphase])]
    | stop =>
      cases hleave : (start.run inputs (n + 1)).leavesStop (inputs (n + 1)).before
      · refine hkeep (by rw [hphase]; trivial) ?_ ?_
        · rw [hphase, hleave]
          exact Bool.false_ne_true
        · rw [transfers_succ_of_phase hstart (by simp [hphase])]
      · rw [hnext, hphase, hleave, Phase.next] at hloaded
        exact absurd hloaded id
    | frame other ticks =>
      have hle := (inFrame_of_frame (valid_run hstart inputs (n + 1)) hphase).1
      by_cases hstarts : other = pos ∧ ticks = 1
      · obtain ⟨rfl, rfl⟩ := hstarts
        rw [transfers_start hstart hphase, lastWord_concat, if_pos rfl]
      have hbefore : pos < other ∨ other = pos ∧ 2 ≤ ticks := by
        rw [hnext, hphase, Phase.next] at hloaded
        split_ifs at hloaded <;> simp only [Phase.Loaded] at hloaded <;> omega
      refine hkeep (by rw [hphase]; exact hbefore) ?_ ?_
      · rw [hphase, Phase.InTime]
        omega
      · by_cases hone : ticks = 1
        · subst hone
          rw [transfers_start hstart hphase, lastWord_concat, if_neg (by omega)]
        · rw [transfers_succ_of_phase hstart fun q h ↦ ?_]
          rw [hphase] at h
          cases h
          exact hone rfl

end Slow

end AudioProcessor.Codec

namespace AudioProcessor.ControlPath

open Codec (transfers lastWord i2cData)

/-- The volume the codec is to have in a cycle. -/
def State.effectiveVol (s : State) : BitVec 7 :=
  Codec.effectiveVol s.volume.muteState s.codec.volLevel

/-- The first tick at cycle `t` after a reset or later. -/
def nextTick (t : ℕ) : ℕ := (t + 1249) / 2500

section Current

variable (s : State) {inputs : ℕ → Inputs} (hreset : ∀ t, (inputs t).reset = true)
  (hanswer : ∀ t, (inputs t).answer = true)

include hreset

/-- Up to the next tick the 20 kHz domain rests. -/
theorem slow_eq_beforeTick (t : ℕ) :
    (run s.afterReset inputs t).codec.slow = beforeTick s inputs (nextTick t) := by
  rw [beforeTick, codec_run _ hreset, codec_run _ hreset]
  have hslow := Codec.slow_released s.codec
    (fun t ↦ signals (run s.afterReset inputs t).volume) (fun t ↦ (inputs t).answer)
  refine (hslow t).trans ((hslow _).trans ?_).symm
  rw [nextTick, show (1250 + 2500 * ((t + 1249) / 2500) + 1249) / 2500 = (t + 1249) / 2500 by omega]

include hanswer

/-- The last word for one of the output volumes. -/
theorem lastWord_of_stays {pos : ℕ} (hpos : pos = 3 ∨ pos = 4) {t : ℕ}
    (hontime : ∀ k < t, (run s.afterReset inputs (k + 1)).effectiveVol ≠
        (run s.afterReset inputs k).effectiveVol →
      (beforeTick s inputs (nextTick (k + 1))).InTime (atTick s inputs (nextTick (k + 1))))
    (hstop : (run s.afterReset inputs t).codec.slow.currentState = .stop)
    (hstays : (beforeTick s inputs (nextTick t + 1)).currentState = .stop) :
    lastWord pos (transfers (beforeTick s inputs) (nextTick t)) =
      some (i2cData pos (run s.afterReset inputs t).effectiveVol) := by
  have hvalid := Codec.Slow.valid_asyncReset s.codec.slow
  have hjump := Codec.Slow.phase_asyncReset s.codec.slow
  have hacked : s.codec.slow.asyncReset.Acknowledged (atTick s inputs) := fun _ _ ↦ hanswer _
  rw [slow_eq_beforeTick s hreset] at hstop
  rw [funext (beforeTick_eq_run s hreset)] at hontime hstop hstays ⊢
  have hstop' := Codec.Slow.phase_of_stop hstop
  have hstays' := Codec.Slow.phase_of_stop hstays
  obtain ⟨m, hm⟩ : ∃ m, nextTick t = m + 1 := by
    refine Nat.exists_eq_succ_of_ne_zero fun hzero ↦ ?_
    rw [hzero] at hstop'
    exact Codec.Phase.noConfusion (hjump.symm.trans hstop')
  rw [hm] at hstop' hstays' ⊢
  have hnext : 1250 + 2500 * m < t ∧ t ≤ 1250 + 2500 * (m + 1) := by
    rw [nextTick] at hm
    omega
  have hticks (k : ℕ) (hk : k < m) (hchange : (atTick s inputs (k + 1)).effectiveVol ≠
      (atTick s inputs k).effectiveVol) :
      (s.codec.slow.asyncReset.run (atTick s inputs) (k + 1)).InTime (atTick s inputs (k + 1)) := by
    obtain ⟨j, hfrom, hto, hj⟩ := Clocked.exists_change
      (fun t ↦ (run s.afterReset inputs t).effectiveVol)
      (show 1250 + 2500 * k ≤ 1250 + 2500 * (k + 1) by omega) hchange
    have hlate := hontime j (by omega) hj
    rwa [show nextTick (j + 1) = k + 1 by rw [nextTick]; omega] at hlate
  have hlast := Codec.Slow.lastWord_of_loaded hvalid hjump hacked hpos m hticks
    (by rw [hstop']; trivial)
  have hsame : (run s.afterReset inputs t).effectiveVol = (atTick s inputs m).effectiveVol := by
    by_contra hchange
    obtain ⟨j, hfrom, hto, hj⟩ := Clocked.exists_change
      (fun t ↦ (run s.afterReset inputs t).effectiveVol) hnext.1.le hchange
    have hlate := hontime j hto hj
    rw [show nextTick (j + 1) = m + 1 by rw [nextTick]; omega] at hlate
    exact Codec.Slow.not_inTime_of_stays hvalid hstop' hstays' hlate
  rw [hlast, hsame]

/-- In every run after a reset with a slave that acknowledges everything: at every cycle up to which
all changes of the effective volume came in time, if the controller is in `stop` and stays there at
the next tick, the last words for both output volumes carry the effective volume. -/
theorem lastWord_current {t : ℕ}
    (hontime : ∀ k < t, (run s.afterReset inputs (k + 1)).effectiveVol ≠
        (run s.afterReset inputs k).effectiveVol →
      (beforeTick s inputs (nextTick (k + 1))).InTime (atTick s inputs (nextTick (k + 1))))
    (hstop : (run s.afterReset inputs t).codec.slow.currentState = .stop)
    (hstays : (beforeTick s inputs (nextTick t + 1)).currentState = .stop) :
    lastWord 3 (transfers (beforeTick s inputs) (nextTick t)) =
        some (i2cData 3 (run s.afterReset inputs t).effectiveVol) ∧
      lastWord 4 (transfers (beforeTick s inputs) (nextTick t)) =
        some (i2cData 4 (run s.afterReset inputs t).effectiveVol) :=
  ⟨lastWord_of_stays s hreset hanswer (.inl rfl) hontime hstop hstays,
    lastWord_of_stays s hreset hanswer (.inr rfl) hontime hstop hstays⟩

end Current

/-! ### Runs with the mute button held -/

/-- The mute button is pressed in cycle `e` and held. -/
def holdMute (e t : ℕ) : Inputs := ⟨true, ⟨true, true, decide (t < e)⟩, true⟩

section HoldMute

variable {e : ℕ} (he : 2 ≤ e)

include he

/-- Three edges later the mute flag is set, and nothing else has happened. -/
theorem volume_holdMute (t : ℕ) : (run State.initial.afterReset (holdMute e) t).volume =
    ⟨decide (1 ≤ t), decide (2 ≤ t), .released, .released,
      ⟨decide (t ≤ e), decide (t ≤ e + 1), decide (t ≤ e + 2)⟩, 0b11111111, decide (e + 3 ≤ t),
      .idle, .idle⟩ := by
  induction t with
  | zero =>
    rw [decide_eq_true (Nat.zero_le e), decide_eq_true (Nat.zero_le (e + 1)),
      decide_eq_true (Nat.zero_le (e + 2)), decide_eq_false (Nat.not_succ_le_zero (e + 2))]
    rfl
  | succ t ih =>
    have hreset : ∀ t, (holdMute e t).reset = true := fun _ ↦ rfl
    have hsettled := settled_run State.initial hreset t
    rw [volume_run_succ _ fun _ ↦ rfl]
    have hsync1 : decide (1 ≤ t) = decide (2 ≤ t + 1) := decide_eq_decide.mpr (by omega)
    have hedge : (decide (t ≤ e + 2) && !decide (t ≤ e + 1)) = decide (t = e + 2) := by
      rw [← decide_not, ← Bool.decide_and]
      exact decide_eq_decide.mpr (by omega)
    have hshift : (run State.initial.afterReset (holdMute e) t).volume.shiftRegister =
        (0b11111111, decide (e + 3 ≤ t + 1)) := by
      rw [ih, Volume.State.shiftRegister]
      simp only [Volume.ButtonSync.edge, Volume.ButtonSync.released, hedge]
      by_cases ht : t = e + 2
      · rw [decide_eq_true ht, if_pos rfl, decide_eq_false (show ¬ e + 3 ≤ t by omega),
          decide_eq_true (show e + 3 ≤ t + 1 by omega)]
        rfl
      · rw [decide_eq_false ht, if_neg Bool.false_ne_true,
          decide_eq_decide.mpr (show e + 3 ≤ t ↔ e + 3 ≤ t + 1 by omega)]
        rfl
    refine Volume.State.ext rfl ?_ ?_ ?_ ?_ ?_ ?_ ?_ ?_
    · rw [Volume.step_rstSync2, ih]
      exact hsync1
    · rw [hsettled.step_volUpBtn, ih]
      exact ite_self _
    · rw [hsettled.step_volDownBtn, ih]
      exact ite_self _
    · rw [hsettled.step_muteBtn, ih]
      by_cases hsync2 : 2 ≤ t
      · simp only [decide_eq_true hsync2, if_true, Volume.ButtonSync.sample, holdMute]
        refine Volume.ButtonSync.ext ?_ ?_ ?_ <;> exact decide_eq_decide.mpr (by omega)
      · simp only [decide_eq_false hsync2, Bool.false_eq_true, if_false]
        refine Volume.ButtonSync.ext ?_ ?_ ?_ <;> exact (decide_eq_true (by omega)).symm
    · rw [hsettled.step_ledRegisters, hshift]
    · rw [hsettled.step_muteState, hshift]
    · rw [Volume.step_volUp, ih]
      rfl
    · rw [Volume.step_volDown, ih]
      rfl

/-- The signals of such a run. -/
theorem signals_holdMute (t : ℕ) :
    signals (run State.initial.afterReset (holdMute e) t).volume =
      ⟨false, false, decide (e + 3 ≤ t)⟩ := by
  rw [volume_holdMute he]
  rfl

/-- The volume level keeps its reset value. -/
theorem volLevel_holdMute (t : ℕ) :
    (run State.initial.afterReset (holdMute e) t).codec.volLevel = 0b1101101 := by
  rw [codec_run State.initial.afterReset (fun _ ↦ rfl), funext (signals_holdMute he)]
  exact Codec.volLevel_steady _ (fun _ ↦ ⟨rfl, rfl⟩) _ _

theorem effectiveVol_holdMute (t : ℕ) :
    (run State.initial.afterReset (holdMute e) t).effectiveVol =
      Codec.effectiveVol (decide (e + 3 ≤ t)) 0b1101101 := by
  rw [State.effectiveVol, volLevel_holdMute he, volume_holdMute he]

/-- What the ticks of such a run read. -/
theorem atTick_holdMute (n : ℕ) : atTick .initial (holdMute e) n =
    ⟨⟨false, false, decide (e + 3 ≤ 1250 + 2500 * n)⟩,
      ⟨false, false, decide (e + 3 ≤ 1250 + 2500 * n + 1)⟩, 0b1101101, true⟩ := by
  rw [atTick, signals_holdMute he, signals_holdMute he, volLevel_holdMute he]
  rfl

/-- The first pass begins at position 0. -/
theorem begin_holdMute :
    (State.initial.codec.slow.asyncReset.run (atTick .initial (holdMute e)) 1).phase =
      .frame 0 0 := by
  rw [← Nat.zero_add 1, Codec.Slow.phase_run_succ (Codec.Slow.valid_asyncReset _),
    show (State.initial.codec.slow.asyncReset.run (atTick .initial (holdMute e)) 0).phase = .jump from
      rfl, atTick_holdMute he]
  rfl

/-- If the button is not seen just at the end of the first pass, the pass is followed by rest. -/
theorem firstPass_holdMute
    (hseen : e + 3 ≤ 1250 + 2500 * 397 ↔ e + 3 ≤ 1250 + 2500 * 398) :
    (beforeTick .initial (holdMute e) 398).currentState = .stop ∧
      (beforeTick .initial (holdMute e) (398 + 1)).currentState = .stop ∧
      transfers (beforeTick .initial (holdMute e)) 398 = (List.range 11).map fun j ↦
        (j, i2cData j (Codec.effectiveVol
          (decide (e + 3 ≤ 1250 + 2500 * (36 * j + 2))) 0b1101101)) := by
  have hvalid := Codec.Slow.valid_asyncReset State.initial.codec.slow
  have hjump := Codec.Slow.phase_asyncReset State.initial.codec.slow
  rw [funext (beforeTick_eq_run .initial fun _ ↦ rfl), funext (atTick_holdMute he)]
  set inputs : ℕ → Codec.TickInputs := fun n ↦
    ⟨⟨false, false, decide (e + 3 ≤ 1250 + 2500 * n)⟩,
      ⟨false, false, decide (e + 3 ≤ 1250 + 2500 * n + 1)⟩, 0b1101101, true⟩
  have hacked : State.initial.codec.slow.asyncReset.Acknowledged inputs := fun _ _ ↦ rfl
  obtain ⟨hstop, hsent⟩ := Codec.Slow.transfers_firstPass hvalid hacked hjump rfl
  refine ⟨Codec.Slow.currentState_of_stop hstop, Codec.Slow.currentState_of_stop ?_, hsent⟩
  have hstays : (State.initial.codec.slow.asyncReset.run inputs 398).leavesStop
      (inputs 398).before = false := by
    change (decide (e + 3 ≤ 1250 + 2500 * 398) != decide (e + 3 ≤ 1250 + 2500 * 397)) = false
    rw [decide_eq_decide.mpr hseen, bne_self_eq_false]
  rw [Codec.Slow.phase_run_succ hvalid, hstop, hstays]
  rfl

end HoldMute

/-- A mute press while the word for position 1 is being sent is in time. -/
theorem inTime_holdMute {k : ℕ}
    (hchange : (run State.initial.afterReset (holdMute 100000) (k + 1)).effectiveVol ≠
      (run State.initial.afterReset (holdMute 100000) k).effectiveVol) :
    (beforeTick .initial (holdMute 100000) (nextTick (k + 1))).InTime
      (atTick .initial (holdMute 100000) (nextTick (k + 1))) := by
  have he : 2 ≤ 100000 := by omega
  have hphase : (beforeTick .initial (holdMute 100000) 40).phase = .frame 1 3 := by
    have hacked : State.initial.codec.slow.asyncReset.Acknowledged
        (atTick .initial (holdMute 100000)) := fun _ _ ↦ rfl
    have hwithin := Codec.Slow.phase_within_pass (Codec.Slow.valid_asyncReset _) hacked
      (begin_holdMute he) (show 0 + 1 ≤ 10 by decide) (show 3 < 36 by decide)
    rwa [← beforeTick_eq_run .initial fun _ ↦ rfl] at hwithin
  rw [effectiveVol_holdMute he, effectiveVol_holdMute he] at hchange
  have hpressed : k = 100002 := by
    by_contra hother
    have hsame : 100000 + 3 ≤ k + 1 ↔ 100000 + 3 ≤ k := by omega
    exact hchange (by rw [decide_eq_decide.mpr hsame])
  have htick : nextTick (k + 1) = 40 := by rw [hpressed, nextTick]
  rw [htick, Codec.Slow.InTime, hphase]
  exact .inl (by decide)

/-- The first pass then carries the mute volume. -/
theorem lastWord_current_muted :
    lastWord 3 (transfers (beforeTick .initial (holdMute 100000)) 398) = some 0x0530 ∧
      lastWord 4 (transfers (beforeTick .initial (holdMute 100000)) 398) = some 0x0730 := by
  have he : 2 ≤ 100000 := by omega
  have hnext : nextTick (1250 + 2500 * 398) = 398 := by rw [nextTick]
  obtain ⟨hstop, hstays, -⟩ := firstPass_holdMute he (by omega)
  rw [← hnext] at hstop hstays ⊢
  have hlast := lastWord_current .initial (fun _ ↦ rfl) (fun _ ↦ rfl)
    (fun k _ hchange ↦ inTime_holdMute hchange)
    (by rw [slow_eq_beforeTick _ fun _ ↦ rfl]; exact hstop) hstays
  have hmuted : decide (100000 + 3 ≤ 1250 + 2500 * 398) = true := decide_eq_true (by omega)
  rwa [effectiveVol_holdMute he, hmuted] at hlast

/-- A mute press in the middle of the first pass is lost. -/
theorem lastWord_stale :
    ¬ ∀ (s : State) (inputs : ℕ → Inputs), (∀ t, (inputs t).reset = true) →
      (∀ t, (inputs t).answer = true) → ∀ t,
        (run s.afterReset inputs t).codec.slow.currentState = .stop →
        (beforeTick s inputs (nextTick t + 1)).currentState = .stop →
        lastWord 3 (transfers (beforeTick s inputs) (nextTick t)) =
            some (i2cData 3 (run s.afterReset inputs t).effectiveVol) ∧
          lastWord 4 (transfers (beforeTick s inputs) (nextTick t)) =
            some (i2cData 4 (run s.afterReset inputs t).effectiveVol) := by
  intro hclaim
  have he : 2 ≤ 500000 := by omega
  obtain ⟨hstop, hstays, hsent⟩ := firstPass_holdMute he (by omega)
  have hnext : nextTick (1250 + 2500 * 398) = 398 := by rw [nextTick]
  rw [← hnext] at hstop hstays
  have hcurrent := (hclaim .initial (holdMute 500000) (fun _ ↦ rfl) (fun _ ↦ rfl)
    (1250 + 2500 * 398) (by rw [slow_eq_beforeTick _ fun _ ↦ rfl]; exact hstop) hstays).1
  rw [hnext, hsent, effectiveVol_holdMute he] at hcurrent
  exact absurd hcurrent (by decide)

end AudioProcessor.ControlPath
