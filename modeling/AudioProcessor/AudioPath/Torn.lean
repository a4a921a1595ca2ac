import AudioProcessor.AudioPath.Restart

/-!
# The two words of a frame

The program writes the same word to the two output PIOs, with two accesses, and the controller latches
both at once, at any time. Between the accesses the left PIO already holds the new word and the
right one still the old one; at all other times they hold the same (`Paired`, `paired_restarted`).
So the words latched are equal exactly at the latches that do not fall between the two writes, and at
those that do when the new word is the old one (`latched_eq_iff`).
-/

set_option autoImplicit false
set_option relaxedAutoImplicit false

namespace AudioProcessor.AudioPath

open AdcDac (latchEdge)
open Equaliser (Access Main Frame iowr)

/-- Between the two writes of a frame the left PIO holds its word, and at all other times the two hold
the same. -/
structure Paired (s : State) : Prop where
  between : s.main.access = .outRight → s.outLeft = iowr s.main.res
  otherwise : s.main.access ≠ .outRight → s.outLeft = s.outRight

/-- The next access is the second write of a frame, and it changes what the right PIO holds. -/
def State.BetweenWrites (s : State) : Prop :=
  ∃ word, s.main.write = some (.outRight, word) ∧ word ≠ s.outRight

/-- Every access keeps them paired. -/
theorem Paired.access {s : State} (h : Paired s) (switches : Switches) :
    Paired (step (.access switches) s) := by
  obtain ⟨controller, ⟨access, currentReady, lastReady, bassPrev, audioIn, bStage, tStage, res⟩,
    outLeft, outRight⟩ := s
  cases access with
  | dataReady =>
    -- a poll, whether or not it sees a rise
    refine ⟨fun hout ↦ ?_, fun _ ↦ h.otherwise Access.noConfusion⟩
    rw [step_access_of_poll switches rfl, Main.step] at hout
    dsimp only at hout
    split_ifs at hout
  | inLeft => exact ⟨Access.noConfusion, fun _ ↦ h.otherwise Access.noConfusion⟩
  | bassStageSwitch => exact ⟨Access.noConfusion, fun _ ↦ h.otherwise Access.noConfusion⟩
  | trebleStageSwitch => exact ⟨Access.noConfusion, fun _ ↦ h.otherwise Access.noConfusion⟩
  | outLeft => exact ⟨fun _ ↦ rfl, fun hother ↦ absurd rfl hother⟩
  | outRight => exact ⟨Access.noConfusion, fun _ ↦ h.between rfl⟩

theorem Paired.selectStep {s : State} (h : Paired s) (dataSelect : Bool) (e : Event) :
    Paired (selectStep dataSelect e s) := by
  cases e with
  | audioClock adcData => exact ⟨h.between, h.otherwise⟩
  | access switches => exact h.access switches

theorem paired_restarted (s : State) (select : ℕ → Bool) (ev : ℕ → Event) (t : ℕ) :
    Paired (restarted s select ev t) := by
  have hstart : Paired s.restart := ⟨Access.noConfusion, fun _ ↦ rfl⟩
  exact Clocked.invariant_run hstart (fun i _ h ↦ h.selectStep i.1 i.2) t

/-- In a paired state the words agree exactly when it is not between two writes. -/
theorem Paired.eq_iff {s : State} (h : Paired s) :
    s.outLeft = s.outRight ↔ ¬ s.BetweenWrites := by
  rw [State.BetweenWrites, Main.write]
  cases haccess : s.main.access with
  | outRight =>
    rw [h.between haccess]
    simp
  | _ => simp [h.otherwise (ne_of_eq_of_ne haccess Access.noConfusion)]

/-- What the two output registers are loaded with. -/
theorem latched_words (s : State) (select : ℕ → Bool) (ev : ℕ → Event) {t : ℕ}
    (hlatches : Latches s select ev t) :
    (restarted s select ev (t + 1)).controller.dacDataLeftChannelRegister =
        (restarted s select ev t).outLeft ∧
      (restarted s select ev (t + 1)).controller.dacDataRightChannelRegister =
        (restarted s select ev t).outRight := by
  obtain ⟨hclock, n, hn⟩ := (latches_iff s select ev t).mp hlatches
  have hbridge := restarted_bridge s select ev hclock
  rw [if_pos (by rw [hn, latchEdge]; omega)] at hbridge
  exact ⟨congrArg AdcDac.Bridge.fromNiosLeft hbridge, congrArg AdcDac.Bridge.fromNiosRight hbridge⟩

/-- At every latch of every run the words loaded into the two output registers are equal exactly
when it does not fall between two writes of different words. -/
theorem latched_eq_iff (s : State) (select : ℕ → Bool) (ev : ℕ → Event) (t : ℕ)
    (hlatches : Latches s select ev t) :
    (restarted s select ev (t + 1)).controller.dacDataLeftChannelRegister =
        (restarted s select ev (t + 1)).controller.dacDataRightChannelRegister ↔
      ¬ (restarted s select ev t).BetweenWrites := by
  obtain ⟨hleft, hright⟩ := latched_words s select ev hlatches
  rw [hleft, hright]
  exact (paired_restarted s select ev t).eq_iff

/-! ### Accesses in the second frame -/

/-- Ones on the ADC line, and a number of accesses in the second frame as soon as the flag is high,
with both stages at zero. -/
def burst (count t : ℕ) : Event :=
  if 396 ≤ t ∧ t < 396 + count then .access ⟨0, 0⟩ else .audioClock true

/-- The system under these events, with `dataSelect` low. -/
def restartedBurst (count : ℕ) : ℕ → State := restarted .powerUp (fun _ ↦ false) (burst count)

/-- The word of the frame of ones that is received before. -/
def wordOfOnes : BitVec 16 := iowr ((⟨BitVec.allOnes 16, 0, 0⟩ : Frame).body 0).limited

theorem isAudioClock_burst {count t n : ℕ} (hbefore : t + n ≤ 396 ∨ 396 + count ≤ t) :
    ∀ j < n, (burst count (t + j)).isAudioClock = true := by
  intro j hj
  rw [burst, if_neg (by omega)]
  rfl

/-- The flag is high before the first access, and the program polls for the first time. -/
theorem restartedBurst_before (count : ℕ) : edges (burst count) 396 = 396 ∧
    (restartedBurst count 396).main = .start ∧ (restartedBurst count 396).outRight = 0 ∧
      (restartedBurst count 396).controller.dataReadyFlag = true ∧
      (restartedBurst count 396).controller.audioToNiosLeft = BitVec.allOnes 16 := by
  obtain ⟨hedges, hmain, -, hright⟩ := restarted_of_audioClock .powerUp (fun _ ↦ false)
    (burst count) (isAudioClock_burst (t := 0) (n := 396) (by omega))
  rw [Nat.zero_add, edges_zero, Nat.zero_add] at hedges
  rw [Nat.zero_add] at hmain hright
  have hflag := restarted_dataReadyFlag .powerUp (fun _ ↦ false) (burst count) 396
  rw [hedges] at hflag
  refine ⟨hedges, hmain, hright, hflag,
    audioToNiosLeft_ones .powerUp _ _ (fun t ht ↦ ?_) (by omega) (by omega)⟩
  rw [burst, if_neg (by omega)]

/-- The accesses are over when the words of the frame are latched. -/
theorem restartedBurst_latch (count : ℕ) :
    Latches .powerUp (fun _ ↦ false) (burst count) (396 + count + 371) ∧
      ∀ s, (step (.access ⟨0, 0⟩))^[count] (restartedBurst count 396) = s →
        (restartedBurst count (396 + count + 371)).main = s.main ∧
          (restartedBurst count (396 + count + 371)).outLeft = s.outLeft ∧
          (restartedBurst count (396 + count + 371)).outRight = s.outRight := by
  obtain ⟨hedges, hsteps⟩ := restarted_accesses .powerUp (fun _ ↦ false) (burst count) (t := 396)
    (n := count) ⟨0, 0⟩ fun j hj ↦ if_pos ⟨Nat.le_add_right 396 j, Nat.add_lt_add_left hj 396⟩
  obtain ⟨hlast, hmain, hleft, hright⟩ := restarted_of_audioClock .powerUp (fun _ ↦ false)
    (burst count) (isAudioClock_burst (t := 396 + count) (n := 371) (by omega))
  rw [hsteps] at hmain hleft hright
  rw [hedges, (restartedBurst_before count).1] at hlast
  refine ⟨(latches_iff _ _ _ _).mpr ⟨isAudioClock_burst (n := 1) (by omega) 0 Nat.one_pos, 1, ?_⟩, ?_⟩
  · rw [hlast, latchEdge]
  · rintro _ rfl
    exact ⟨hmain, hleft, hright⟩

/-- Five accesses write the left word only, and the right one is due. -/
theorem latch_five : (restartedBurst 5 (396 + 5 + 371)).main.write = some (.outRight, wordOfOnes) ∧
    (restartedBurst 5 (396 + 5 + 371)).outLeft = wordOfOnes ∧
    (restartedBurst 5 (396 + 5 + 371)).outRight = 0 := by
  obtain ⟨-, hstart, hzero, hflag, hword⟩ := restartedBurst_before 5
  have hfive := five_accesses hstart hflag ⟨0, 0⟩ _ rfl
  rw [hword] at hfive
  obtain ⟨hmain, hleft, hright⟩ := (restartedBurst_latch 5).2 _ hfive
  dsimp only at hmain hleft hright
  rw [hmain, hleft, hright]
  exact ⟨rfl, rfl, hzero⟩

/-- Six accesses write both words. -/
theorem latch_six : (restartedBurst 6 (396 + 6 + 371)).main.write = none := by
  obtain ⟨-, hstart, -, hflag, -⟩ := restartedBurst_before 6
  have hsix := congrArg (step (.access ⟨0, 0⟩)) (five_accesses hstart hflag ⟨0, 0⟩ _ rfl)
  rw [← Function.iterate_succ_apply' (step (.access ⟨0, 0⟩))] at hsix
  rw [((restartedBurst_latch 6).2 _ hsix).1]
  rfl

/-- With all six accesses of the frame before its latch the words loaded are equal, with five of them
they are not. -/
theorem latched_eq_burst :
    (restartedBurst 6 (396 + 6 + 371 + 1)).controller.dacDataLeftChannelRegister =
        (restartedBurst 6 (396 + 6 + 371 + 1)).controller.dacDataRightChannelRegister ∧
      (restartedBurst 5 (396 + 5 + 371 + 1)).controller.dacDataLeftChannelRegister ≠
        (restartedBurst 5 (396 + 5 + 371 + 1)).controller.dacDataRightChannelRegister := by
  have hsix := latched_eq_iff _ _ _ _ (restartedBurst_latch 6).1
  have hfive := latched_eq_iff _ _ _ _ (restartedBurst_latch 5).1
  obtain ⟨hwrite, -, hright⟩ := latch_five
  refine ⟨hsix.mpr ?_, fun hequal ↦ hfive.mp hequal ⟨wordOfOnes, hwrite, ?_⟩⟩
  · rintro ⟨word, hdue, -⟩
    exact absurd (hdue.symm.trans latch_six) (Option.some_ne_none _)
  · exact ne_of_ne_of_eq (by decide) hright.symm

/-- If the second latch falls between the two writes of the first word, and that is the word of a
frame of ones, it is loaded on the left and zero on the right. -/
theorem not_latched_eq : ¬ ∀ (s : State) (select : ℕ → Bool) (ev : ℕ → Event) (t : ℕ),
    Latches s select ev t →
      (restarted s select ev (t + 1)).controller.dacDataLeftChannelRegister =
        (restarted s select ev (t + 1)).controller.dacDataRightChannelRegister := by
  intro hequal
  have hlatches := (restartedBurst_latch 5).1
  obtain ⟨-, hleft, hright⟩ := latch_five
  obtain ⟨hwordLeft, hwordRight⟩ := latched_words _ _ _ hlatches
  have hsame : wordOfOnes = 0 := by
    rw [← hleft, ← hright]
    exact hwordLeft.symm.trans ((hequal _ _ _ _ hlatches).trans hwordRight)
  exact absurd hsame (by decide)

end AudioProcessor.AudioPath
