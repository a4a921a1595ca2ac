import AudioProcessor.ControlPath.System

/-!
# The LED bar and the volume level

A press moves two things: its edge shifts the LED bar at once, unless the mute button falls in the
same cycle, and it loads a stretcher whose pulse moves the volume level two edges later, unless the
stretcher was still busy with the press before. Both saturate at the same ends. `Matched` says that
in a cycle the two moves have the same effect; along a run in which every cycle is matched the
level follows the bar, with at most two moves on the way (`Follows`), and shows the same once none
is.
-/

set_option autoImplicit false
set_option relaxedAutoImplicit false

namespace AudioProcessor.ControlPath

/-! ### Moves -/

/-- What a press does to a count between 0 and 26. -/
inductive Move
  | stay
  | up
  | down
deriving DecidableEq

/-- Up before down. -/
def Move.of (up down : Bool) : Move := if up then .up else if down then .down else .stay

/-- The count after a move. -/
def Move.apply : Move → ℕ → ℕ
  | .stay, k => k
  | .up, k => min 26 (k + 1)
  | .down, k => k - 1

theorem Move.apply_le (m : Move) {k : ℕ} (hk : k ≤ 26) : m.apply k ≤ 26 := by
  cases m <;> simp only [apply] <;> omega

/-- The number of ones in the LED registers. -/
def ones (v : BitVec 26) : ℕ := (List.range 26).countP fun i ↦ v.getLsbD i

/-- The LED registers with `k` ones at the bottom. -/
def bar (k : ℕ) : BitVec 26 := BitVec.ofNat 26 (2 ^ k - 1)

theorem ones_bar : ∀ k ≤ 26, ones (bar k) = k := by decide

theorem shiftIn_bar : ∀ k ≤ 26, Serial.shiftIn (bar k) true = bar (Move.up.apply k) := by decide

theorem shiftRight_bar : ∀ k ≤ 26, bar k >>> 1 = bar (Move.down.apply k) := by decide

/-- The volume level `k` steps above its bottom. -/
def level (k : ℕ) : BitVec 7 := BitVec.ofNat 7 (0b1100101 + k)

theorem toNat_level : ∀ k ≤ 26, (level k).toNat = k + 0b1100101 := by decide

theorem nextVolLevel_up : ∀ k ≤ 26,
    (if level k < 0b1111111 then level k + 1 else level k) = level (Move.up.apply k) := by decide

theorem nextVolLevel_down : ∀ k ≤ 26,
    (if level k > 0b1100101 then level k - 1 else level k) = level (Move.down.apply k) := by decide

/-! ### The two paths of a press -/

/-- The move of the LED bar at an edge: none when the mute button falls. -/
def ledMove (v : Volume.State) : Move :=
  if v.muteBtn.edge then .stay else .of v.volUpBtn.edge v.volDownBtn.edge

/-- The move of the volume level that an edge sets off: a press that finds its stretcher at rest. -/
def pulseMove (v : Volume.State) : Move :=
  .of (v.volUpBtn.edge && decide (v.volUp = .idle)) (v.volDownBtn.edge && decide (v.volDown = .idle))

/-- The move of the volume level one edge ahead. -/
def loadedMove (v : Volume.State) : Move := .of v.volUp.loaded v.volDown.loaded

/-- The move of the volume level at this edge. -/
def levelMove (s : State) : Move :=
  .of (s.volume.volUp.out && !s.codec.volUpRegFast)
    (s.volume.volDown.out && !s.codec.volDownRegFast)

/-- The bar and the level move the same way at an edge. -/
def Matched (s : State) : Prop :=
  (ledMove s.volume).apply (ones s.volume.ledRegisters) =
    (pulseMove s.volume).apply (ones s.volume.ledRegisters)

theorem shiftRegister_bar (v : Volume.State) {k : ℕ} (hk : k ≤ 26) (hleds : v.ledRegisters = bar k) :
    v.shiftRegister.1 = bar ((ledMove v).apply k) := by
  unfold Volume.State.shiftRegister ledMove Move.of
  rw [hleds]
  split_ifs
  · rfl
  · exact shiftIn_bar k hk
  · exact shiftRight_bar k hk
  · rfl

theorem nextVolLevel_level (s : State) {k : ℕ} (hk : k ≤ 26) (hlevel : s.codec.volLevel = level k) :
    s.codec.nextVolLevel (signals s.volume) = level ((levelMove s).apply k) := by
  unfold Codec.State.nextVolLevel levelMove Move.of signals
  rw [hlevel]
  by_cases hup : (s.volume.volUp.out && !s.codec.volUpRegFast) = true
  · rw [if_pos hup, if_pos hup]
    exact nextVolLevel_up k hk
  · rw [if_neg hup, if_neg hup]
    by_cases hdown : (s.volume.volDown.out && !s.codec.volDownRegFast) = true
    · rw [if_pos hdown, if_pos hdown]
      exact nextVolLevel_down k hk
    · rw [if_neg hdown, if_neg hdown]
      rfl

/-- The volume level `v` follows the bar with its `k` ones: with the moves that are on the way it
gets there. -/
structure Follows (k v : ℕ) (s : State) : Prop where
  settled : s.volume.Settled
  bar_le : k ≤ 26
  level_le : v ≤ 26
  ledRegisters : s.volume.ledRegisters = bar k
  volLevel : s.codec.volLevel = level v
  moves : (loadedMove s.volume).apply ((levelMove s).apply v) = k
  volUp : s.volume.volUp.loaded = true → s.volume.volUpBtn.edge = false
  volDown : s.volume.volDown.loaded = true → s.volume.volDownBtn.edge = false

section Step

variable {k v : ℕ} {s : State} (h : Follows k v s) {i : Inputs} (hreset : i.reset = true)

include h hreset

/-- What was loaded is the next move of the level. -/
theorem Follows.levelMove_step : levelMove (step i s) = loadedMove s.volume := by
  rw [levelMove, loadedMove, step, hreset]
  simp only [Codec.step_volUpRegFast, Codec.step_volDownRegFast, Volume.step_volUp,
    Volume.step_volDown, signals]
  rw [Volume.Stretcher.rises_step _ h.volUp, Volume.Stretcher.rises_step _ h.volDown]

/-- What is set off now is loaded next. -/
theorem Follows.loadedMove_step : loadedMove (step i s).volume = pulseMove s.volume := by
  rw [loadedMove, pulseMove, step, hreset, Volume.step_volUp, Volume.step_volDown,
    Volume.Stretcher.loaded_step _ h.volUp, Volume.Stretcher.loaded_step _ h.volDown]

/-- An edge at which bar and level move the same way keeps the level following the bar. -/
theorem Follows.step (hmatched : Matched s) :
    Follows ((ledMove s.volume).apply k) ((levelMove s).apply v) (step i s) where
  settled := by
    rw [ControlPath.step, hreset]
    exact Volume.State.Settled.settled_step _
  bar_le := Move.apply_le _ h.bar_le
  level_le := Move.apply_le _ h.level_le
  ledRegisters := by
    rw [ControlPath.step, hreset]
    exact (h.settled.step_ledRegisters _).trans (shiftRegister_bar _ h.bar_le h.ledRegisters)
  volLevel := by
    rw [ControlPath.step, hreset, Codec.step_volLevel]
    exact nextVolLevel_level s h.level_le h.volLevel
  moves := by
    have heffect : (ledMove s.volume).apply k = (pulseMove s.volume).apply k := by
      rwa [Matched, h.ledRegisters, ones_bar k h.bar_le] at hmatched
    rw [h.loadedMove_step hreset, h.levelMove_step hreset, h.moves, heffect]
  volUp hloaded := by
    rw [ControlPath.step, hreset] at hloaded ⊢
    rw [Volume.step_volUp, Volume.Stretcher.loaded_step _ h.volUp, Bool.and_eq_true] at hloaded
    rw [h.settled.step_volUpBtn]
    split_ifs
    · exact Volume.ButtonSync.edge_sample hloaded.1 _
    · rfl
  volDown hloaded := by
    rw [ControlPath.step, hreset] at hloaded ⊢
    rw [Volume.step_volDown, Volume.Stretcher.loaded_step _ h.volDown, Bool.and_eq_true] at hloaded
    rw [h.settled.step_volDownBtn]
    split_ifs
    · exact Volume.ButtonSync.edge_sample hloaded.1 _
    · rfl

end Step

/-! ### Runs -/

/-- No press is in flight. -/
structure Quiescent (s : State) : Prop where
  volUpBtn : s.volume.volUpBtn = .released
  volDownBtn : s.volume.volDownBtn = .released
  muteBtn : s.volume.muteBtn = .released
  volUp : s.volume.volUp = .idle
  volDown : s.volume.volDown = .idle
  volUpRegFast : s.codec.volUpRegFast = false
  volDownRegFast : s.codec.volDownRegFast = false

/-- After a reset with the down stretcher at rest the level follows the bar. -/
theorem follows_afterReset {s : State} (h : s.DownAtRest) : Follows 8 8 s.afterReset where
  settled := settled_afterReset s
  bar_le := by decide
  level_le := by decide
  ledRegisters := rfl
  volLevel := rfl
  moves := by
    rw [loadedMove, levelMove, State.afterReset, h]
    rfl
  volUp hloaded := absurd hloaded Bool.false_ne_true
  volDown hloaded := by
    rw [State.afterReset, h] at hloaded
    exact absurd hloaded Bool.false_ne_true

/-- In every run from a reset with the down stretcher at rest in which all cycles are matched, the
bar shows the volume level whenever no press is in flight. -/
theorem ones_eq_level {s : State} (hrest : s.DownAtRest) {inputs : ℕ → Inputs}
    (hreset : ∀ t, (inputs t).reset = true) {t : ℕ}
    (hmatched : ∀ k < t, Matched (run s.afterReset inputs k))
    (hquiet : Quiescent (run s.afterReset inputs t)) :
    ones (run s.afterReset inputs t).volume.ledRegisters + 0b1100101 =
      (outputs (run s.afterReset inputs t)).volOut.toNat := by
  obtain ⟨k, v, hfollows⟩ : ∃ k v, Follows k v (run s.afterReset inputs t) := by
    clear hquiet
    induction t with
    | zero => exact ⟨8, 8, follows_afterReset hrest⟩
    | succ t ih =>
      obtain ⟨k, v, hfollows⟩ := ih fun j hj ↦ hmatched j (hj.trans (Nat.lt_succ_self t))
      exact ⟨_, _, hfollows.step (hreset t) (hmatched t (Nat.lt_succ_self t))⟩
  have hmoves := hfollows.moves
  rw [loadedMove, levelMove, hquiet.volUp, hquiet.volDown] at hmoves
  rw [hfollows.ledRegisters, ones_bar k hfollows.bar_le, outputs, hfollows.volLevel,
    toNat_level v hfollows.level_le, ← hmoves]
  rfl

/-! ### One press after a reset -/

/-- The buttons `b` are pressed for one cycle, soon after the reset. -/
def pressOnce (b : Volume.Buttons) (t : ℕ) : Inputs := ⟨true, if t = 2 then b else .idle, true⟩

/-- The up pulse running down: `n` cycles after it moved the level. -/
structure RunsDown (leds : BitVec 26) (muted : Bool) (vol : BitVec 7) (n : ℕ) (s : State) :
    Prop where
  volume : s.volume = ⟨true, true, .released, .released, .released, leds, muted,
    ⟨4998 - n, decide (n ≤ 4998)⟩, .idle⟩
  volLevel : s.codec.volLevel = vol
  volUpRegFast : s.codec.volUpRegFast = decide (n ≤ 4999)
  volDownRegFast : s.codec.volDownRegFast = false

theorem RunsDown.step {leds : BitVec 26} {muted : Bool} {vol : BitVec 7} {n : ℕ} {s : State}
    (h : RunsDown leds muted vol n s) :
    RunsDown leds muted vol (n + 1) (step ⟨true, .idle, true⟩ s) where
  volume := by
    have hpulse : Volume.Stretcher.step false ⟨4998 - n, decide (n ≤ 4998)⟩ =
        ⟨4998 - (n + 1), decide (n + 1 ≤ 4998)⟩ := by
      rw [Volume.Stretcher.step, if_neg Bool.false_ne_true]
      by_cases hcount : n + 1 ≤ 4998
      · rw [if_pos (show 4998 - n > 0 by omega), decide_eq_true hcount]
        rfl
      · rw [if_neg (show ¬ 4998 - n > 0 by omega), decide_eq_false hcount,
          show 4998 - n = 4998 - (n + 1) by omega]
    rw [ControlPath.step, h.volume]
    exact Volume.State.ext rfl rfl rfl rfl rfl rfl rfl hpulse rfl
  volLevel := by
    have hrise : (decide (n ≤ 4998) && !decide (n ≤ 4999)) = false := by
      by_cases hn : n ≤ 4998
      · rw [decide_eq_true (show n ≤ 4999 by omega), Bool.not_true, Bool.and_false]
      · rw [decide_eq_false hn, Bool.false_and]
    rw [ControlPath.step, Codec.step_volLevel, Codec.State.nextVolLevel, h.volume, h.volUpRegFast,
      h.volLevel, h.volDownRegFast]
    simp only [signals, hrise]
    rfl
  volUpRegFast := by
    rw [ControlPath.step, Codec.step_volUpRegFast, h.volume]
    exact decide_eq_decide.mpr (by omega)
  volDownRegFast := by
    rw [ControlPath.step, Codec.step_volDownRegFast, h.volume]
    rfl

/-- From the seventh cycle on the pulse of the press runs down. -/
theorem runsDown_run {b : Volume.Buttons} {leds : BitVec 26} {muted : Bool} {vol : BitVec 7}
    (hfirst : RunsDown leds muted vol 0 (run .initial (pressOnce b) 7)) (n : ℕ) :
    RunsDown leds muted vol n (run .initial (pressOnce b) (7 + n)) := by
  induction n with
  | zero => exact hfirst
  | succ n ih =>
    have hidle : pressOnce b (7 + n) = ⟨true, .idle, true⟩ := by
      rw [pressOnce, if_neg (by omega)]
    rw [← Nat.add_assoc, run_succ, hidle]
    exact ih.step

/-- Once the pulse is over no press is in flight. -/
theorem RunsDown.quiescent {leds : BitVec 26} {muted : Bool} {vol : BitVec 7} {s : State}
    (h : RunsDown leds muted vol 5000 s) : Quiescent s where
  volUpBtn := by rw [h.volume]
  volDownBtn := by rw [h.volume]
  muteBtn := by rw [h.volume]
  volUp := by rw [h.volume]; rfl
  volDown := by rw [h.volume]
  volUpRegFast := h.volUpRegFast
  volDownRegFast := h.volDownRegFast

/-- While the pulse runs down nothing moves. -/
theorem RunsDown.matched {leds : BitVec 26} {muted : Bool} {vol : BitVec 7} {n : ℕ} {s : State}
    (h : RunsDown leds muted vol n s) : Matched s := by
  rw [Matched, ledMove, pulseMove, h.volume]
  rfl

/-- A single press of the up button moves both. -/
theorem ones_eq_level_press :
    ones (run State.initial.afterReset (pressOnce ⟨false, true, true⟩) 5007).volume.ledRegisters +
        0b1100101 =
      (outputs (run State.initial.afterReset (pressOnce ⟨false, true, true⟩) 5007)).volOut.toNat := by
  have hsame : State.initial.afterReset = .initial := rfl
  have hfirst : RunsDown 0b111111111 false 0b1101110 0
      (run .initial (pressOnce ⟨false, true, true⟩) 7) := ⟨rfl, rfl, rfl, rfl⟩
  have hover := (runsDown_run hfirst 5000).quiescent
  have hrest : State.initial.DownAtRest := rfl
  rw [← hsame] at hover
  refine ones_eq_level hrest (fun _ ↦ rfl) (fun k _ ↦ ?_) hover
  rw [hsame]
  by_cases hk : k < 7
  · interval_cases k <;> rfl
  · obtain ⟨n, rfl⟩ := Nat.exists_eq_add_of_le (Nat.not_lt.mp hk)
    exact (runsDown_run hfirst n).matched

/-- The up and the mute button pressed in the same cycle move the level and not the bar. -/
theorem ones_ne_level_of_mute :
    ¬ ∀ s : State, s.DownAtRest → ∀ inputs : ℕ → Inputs, (∀ t, (inputs t).reset = true) →
      ∀ t, Quiescent (run s.afterReset inputs t) →
        ones (run s.afterReset inputs t).volume.ledRegisters + 0b1100101 =
          (outputs (run s.afterReset inputs t)).volOut.toNat := by
  intro hclaim
  have hfirst : RunsDown 0b11111111 true 0b1101110 0
      (run .initial (pressOnce ⟨false, true, false⟩) 7) := ⟨rfl, rfl, rfl, rfl⟩
  have hover := runsDown_run hfirst 5000
  have hshown := hclaim .initial rfl (pressOnce ⟨false, true, false⟩) (fun _ ↦ rfl) (7 + 5000)
    hover.quiescent
  have hsame : State.initial.afterReset = .initial := rfl
  rw [hsame, outputs, hover.volLevel, hover.volume] at hshown
  exact absurd hshown (by decide)

end AudioProcessor.ControlPath
