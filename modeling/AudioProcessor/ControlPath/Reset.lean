import AudioProcessor.Codec.Transfers
import AudioProcessor.ControlPath.System

/-!
# What a reset forgets

Two copies of the control path that were reset and then read the same inputs give the same outputs,
whatever their histories were, except for what the down stretcher remembers: its process resets the
up stretcher only. `forgets_iff` says that the reset erases the history exactly where the down
stretcher is at rest when the reset is asserted.

The shift register `SD` of the sequencer has no reset branch either, but it is loaded at a START
before a bit of it is sent, so two copies that differ in it only (`State.withSd`) go on to do so.
-/

set_option autoImplicit false
set_option relaxedAutoImplicit false

namespace AudioProcessor.Codec

/-! ### The shift register -/

/-- The sequencer with another word in its shift register. -/
def Sequencer.withSd (sd : BitVec 24) (r : Sequencer) : Sequencer := { r with sd := sd }

/-- The shift register may hold `sd` instead of what it holds: it is not being sent, or it holds
`sd`. -/
def Sequencer.Spares (sd : BitVec 24) (r : Sequencer) : Prop :=
  1 < r.sdCounter → r.sdCounter ≤ 28 → r.sd = sd

/-- A tick sends the bits of the word in the shift register and nothing else of it. -/
theorem Sequencer.Spares.tick {sd : BitVec 24} {r : Sequencer} (h : r.Spares sd) (go : Bool)
    (data : BitVec 24) (sdat : Bool) :
    ∃ sd', (r.withSd sd).tick go data sdat = (r.tick go data sdat).withSd sd' ∧
      (r.tick go data sdat).Spares sd' := by
  by_cases hequal : r.sd = sd
  · subst hequal
    exact ⟨_, rfl, fun _ _ ↦ rfl⟩
  have hcounter : r.sdCounter = 0 ∨ r.sdCounter = 1 ∨ 28 < r.sdCounter := by
    by_contra hsent
    exact hequal (h (by omega) (by omega))
  obtain ⟨counter, sclk, sdo, i2cEnd, ack1, ack2, ack3, word⟩ := r
  rcases hcounter with hzero | hone | hlast
  · obtain rfl : counter = 0 := hzero
    refine ⟨sd, rfl, fun hlow ↦ absurd hlow ?_⟩
    cases go
    · exact Nat.not_lt_zero 1
    · exact Nat.lt_irrefl 1
  · obtain rfl : counter = 1 := hone
    exact ⟨data, rfl, fun _ _ ↦ rfl⟩
  · replace hlast : 28 < counter := hlast
    refine ⟨sd, ?_, fun hlow hhigh ↦ absurd hhigh ?_⟩
    · by_cases hrests : 32 < counter
      · rw [Sequencer.tick, transfer_rests data sdat hrests, Sequencer.tick,
          transfer_rests data sdat hrests]
        rfl
      · interval_cases counter <;> rfl
    · have hnext : ∀ r : Sequencer, 28 < r.sdCounter → 1 < r.nextCounter go →
          ¬ r.nextCounter go ≤ 28 := by
        intro r hr hgo
        unfold nextCounter at hgo ⊢
        split_ifs at hgo ⊢ <;> omega
      exact hnext _ hlast hlow

/-- The codec controller with another word in the shift register. -/
def State.withSd (sd : BitVec 24) (s : State) : State :=
  { s with slow := { s.slow with i2c := s.slow.i2c.withSd sd } }

/-- An edge keeps two controllers that differ in the shift register only apart in nothing else. -/
theorem step_withSd {sd : BitVec 24} {s : State} (h : s.slow.i2c.Spares sd) (reset : Bool)
    (before after : Signals) (pull : Bool) :
    ∃ sd', step reset before after pull (s.withSd sd) =
        (step reset before after pull s).withSd sd' ∧
      (step reset before after pull s).slow.i2c.Spares sd' := by
  cases reset
  · exact ⟨sd, rfl, fun _ hhigh ↦ absurd hhigh (Nat.not_le.mpr (show 28 < 63 by decide))⟩
  · obtain ⟨sd', htick, hspares⟩ := h.tick s.slow.i2cRun
      (i2cControllerData ⟨before, after, s.volLevel, pull⟩ s.slow) (s.slow.i2c.sdat pull)
    rw [step_released, step_released]
    by_cases hrise : (!s.i2cClock20KHz && s.divider.2) = true
    · refine ⟨sd', ?_, ?_⟩
      · have hrise' : (!(s.withSd sd).i2cClock20KHz && (s.withSd sd).divider.2) = true := hrise
        rw [if_pos hrise, if_pos hrise']
        have hslow : (s.withSd sd).slow.tick ⟨before, after, s.volLevel, pull⟩ =
            { s.slow.tick ⟨before, after, s.volLevel, pull⟩ with
              i2c := (s.slow.tick ⟨before, after, s.volLevel, pull⟩).i2c.withSd sd' } :=
          congrArg (fun r ↦ { s.slow.tick ⟨before, after, s.volLevel, pull⟩ with i2c := r }) htick
        exact congrArg (fun slow ↦ { s.clockEdge before with slow := slow }) hslow
      · rw [if_pos hrise]
        exact hspares
    · refine ⟨sd, ?_, ?_⟩
      · have hrise' : ¬ (!(s.withSd sd).i2cClock20KHz && (s.withSd sd).divider.2) = true := hrise
        rw [if_neg hrise, if_neg hrise']
        rfl
      · rw [if_neg hrise]
        exact h

end AudioProcessor.Codec

namespace AudioProcessor.ControlPath

open Codec (transfers)

/-- Two states that differ in the shift register of the sequencer only. -/
def State.SameUpToSd (s s' : State) : Prop :=
  ∃ sd, s' = { s with codec := s.codec.withSd sd } ∧ s.codec.slow.i2c.Spares sd

theorem State.SameUpToSd.step {s s' : State} (h : s.SameUpToSd s') (i : Inputs) :
    (ControlPath.step i s).SameUpToSd (ControlPath.step i s') := by
  obtain ⟨sd, rfl, hspares⟩ := h
  obtain ⟨sd', hstep, hspares'⟩ := Codec.step_withSd hspares i.reset (signals s.volume)
    (signals (Volume.step i.reset i.buttons s.volume)) i.answer
  exact ⟨sd', State.ext rfl hstep, hspares'⟩

/-- The shift register cannot be seen from outside. -/
theorem State.SameUpToSd.outputs_eq {s s' : State} (h : s.SameUpToSd s') :
    outputs s = outputs s' := by
  obtain ⟨sd, rfl, -⟩ := h
  rfl

/-- Two runs on the same inputs go on to differ in the shift register only. -/
theorem State.SameUpToSd.run {s s' : State} (h : s.SameUpToSd s') (inputs : ℕ → Inputs) (t : ℕ) :
    (ControlPath.run s inputs t).SameUpToSd (ControlPath.run s' inputs t) :=
  Clocked.simulation_run h (fun n _ _ hs ↦ hs.step (inputs n)) t

/-! ### The claim on a reset -/

/-- After a reset of at least three edges, the outputs of two runs on the same inputs agree at every
later cycle. -/
def Forgets (s s' : State) : Prop :=
  ∀ n ≥ 3, ∀ inputs : ℕ → Inputs, (∀ t, (inputs t).reset = decide (n ≤ t)) →
    ∀ t ≥ n, outputs (run s inputs t) = outputs (run s' inputs t)

/-- After a reset of at least three edges, and with idle buttons and a slave that acknowledges
everything from then on, the volume stays at its default and the controller comes to its stop
having sent the positions 0 to 10. -/
def Fresh (s : State) : Prop :=
  ∀ n ≥ 3, ∀ inputs : ℕ → Inputs, (∀ t, (inputs t).reset = decide (n ≤ t)) →
    (∀ t ≥ n, (inputs t).buttons = .idle ∧ (inputs t).answer = true) →
    (∀ t ≥ n, (outputs (run s inputs t)).volOut = 0b1101101) ∧
    (run s inputs (n + 1250 + 2500 * 398)).codec.slow.currentState = .stop ∧
    (transfers (fun i ↦ (run s inputs (n + 1250 + 2500 * i)).codec.slow) 398).map Prod.fst =
      List.range 11

/-- Where both down stretchers are at rest the reset makes the two states the same. -/
theorem sameUpToSd_afterReset {s s' : State} (h : s.DownAtRest) (h' : s'.DownAtRest) :
    s.afterReset.SameUpToSd s'.afterReset := by
  refine ⟨s'.codec.slow.i2c.sd, ?_, fun _ hhigh ↦
    absurd hhigh (Nat.not_le.mpr (show 28 < 63 by decide))⟩
  rw [State.afterReset, State.afterReset, h, h']
  rfl

theorem forgets_of_downAtRest {s s' : State} (h : s.DownAtRest) (h' : s'.DownAtRest) :
    Forgets s s' := by
  intro n hn inputs hreset t ht
  obtain ⟨k, rfl⟩ := Nat.exists_eq_add_of_le ht
  rw [run_of_reset s hn hreset, run_of_reset s' hn hreset]
  exact ((sameUpToSd_afterReset h h').run _ k).outputs_eq

/-! ### The first pass -/

/-- The volume control with nothing pressed since the reset. -/
def Unpressed (v : Volume.State) : Prop :=
  v = { rstSync1 := v.rstSync1
        rstSync2 := v.rstSync2
        volUpBtn := .released
        volDownBtn := .released
        muteBtn := .released
        ledRegisters := 0b11111111
        muteState := false
        volUp := .idle
        volDown := .idle }

theorem Unpressed.step {v : Volume.State} (h : Unpressed v) :
    Unpressed (Volume.step true .idle v) := by
  rw [h]
  simp [Unpressed, Volume.step, Volume.State.clockEdge, Volume.State.asyncReset,
    Volume.Buttons.idle, Volume.ButtonSync.sample, Volume.ButtonSync.released,
    Volume.ButtonSync.edge, Volume.State.shiftRegister, Volume.Stretcher.step,
    Volume.Stretcher.idle]

theorem Unpressed.signals_eq {v : Volume.State} (h : Unpressed v) :
    signals v = ⟨false, false, false⟩ := by
  rw [h]
  rfl

/-- With no button pressed after the reset the codec controller runs on signals that stay low. -/
theorem codec_unpressed {s : State} (h : s.DownAtRest) {inputs : ℕ → Inputs}
    (hreset : ∀ t, (inputs t).reset = true)
    (hidle : ∀ t, (inputs t).buttons = .idle ∧ (inputs t).answer = true) (t : ℕ) :
    (run s.afterReset inputs t).codec =
      Codec.released s.codec (fun _ ↦ ⟨false, false, false⟩) (fun _ ↦ true) t := by
  have hunpressed : ∀ t, Unpressed (run s.afterReset inputs t).volume := by
    intro t
    induction t with
    | zero =>
      change Unpressed s.afterReset.volume
      rw [State.afterReset, h]
      rfl
    | succ t ih =>
      rw [volume_run_succ _ hreset, (hidle t).1]
      exact ih.step
  rw [codec_run _ hreset, funext fun t ↦ (hunpressed t).signals_eq,
    funext fun t ↦ (hidle t).2]
  rfl

theorem fresh_of_downAtRest {s : State} (h : s.DownAtRest) : Fresh s := by
  intro n hn inputs hreset hidle
  have hcodec : ∀ k, (run s inputs (n + k)).codec =
      Codec.released s.codec (fun _ ↦ ⟨false, false, false⟩) (fun _ ↦ true) k := by
    intro k
    rw [run_of_reset s hn hreset]
    refine codec_unpressed h (fun t ↦ ?_) (fun t ↦ hidle (n + t) (Nat.le_add_right n t)) k
    rw [hreset, decide_eq_true (Nat.le_add_right n t)]
  have htick : ∀ i, (run s inputs (n + 1250 + 2500 * i)).codec.slow =
      Codec.beforeTick s.codec (fun _ ↦ ⟨false, false, false⟩) (fun _ ↦ true) i := by
    intro i
    rw [Nat.add_assoc, hcodec]
    rfl
  refine ⟨fun t ht ↦ ?_, ?_, ?_⟩
  · obtain ⟨k, rfl⟩ := Nat.exists_eq_add_of_le ht
    rw [outputs, hcodec]
    exact Codec.volLevel_steady s.codec.asyncReset (fun _ ↦ ⟨rfl, rfl⟩) _ k
  · rw [htick]
    exact (Codec.firstPass_idle s.codec).1
  · rw [funext htick]
    exact (Codec.firstPass_idle s.codec).2

/-! ### What the down stretcher remembers -/

/-- A down stretcher that is not at rest moves the volume within two cycles after the reset. -/
theorem volOut_of_not_downAtRest {s : State} (h : ¬ s.DownAtRest) (inputs : ℕ → Inputs)
    (hreset : ∀ t, (inputs t).reset = true) :
    ∃ t ≤ 2, (outputs (run s.afterReset inputs t)).volOut = 0b1101100 := by
  have hlevel : ∀ t, (outputs (run s.afterReset inputs (t + 1))).volOut =
      (run s.afterReset inputs t).codec.nextVolLevel
        (signals (run s.afterReset inputs t).volume) := by
    intro t
    rw [run_succ, outputs, step, hreset, Codec.step_volLevel]
  cases hout : s.volume.volDown.out
  · have hcount : s.volume.volDown.count > 0 := by
      by_contra hzero
      exact h (Volume.Stretcher.ext (Nat.eq_zero_of_not_pos hzero) hout)
    have hone : run s.afterReset inputs 1 = step (inputs 0) s.afterReset := rfl
    refine ⟨1 + 1, le_refl 2, ?_⟩
    have hsignals : signals (run s.afterReset inputs 1).volume = ⟨false, true, false⟩ := by
      rw [hone, step, hreset]
      simp [signals, Volume.step, Volume.State.clockEdge, Volume.State.asyncReset,
        State.afterReset, Volume.Stretcher.step, Volume.ButtonSync.edge, Volume.ButtonSync.released,
        Volume.Stretcher.idle, hcount]
    have hcodec : (run s.afterReset inputs 1).codec.volLevel = 0b1101101 ∧
        (run s.afterReset inputs 1).codec.volDownRegFast = false := by
      rw [hone, step, hreset, Codec.step_volLevel, Codec.step_volDownRegFast]
      refine ⟨?_, hout⟩
      simp [State.afterReset, signals, Codec.State.nextVolLevel, hout, Volume.Stretcher.idle,
        Codec.State.asyncReset]
    rw [hlevel, hsignals, Codec.State.nextVolLevel, hcodec.1, hcodec.2]
    rfl
  · refine ⟨0 + 1, Nat.le_succ 1, ?_⟩
    rw [hlevel]
    change s.afterReset.codec.nextVolLevel (signals s.afterReset.volume) = _
    have hsignals : signals s.afterReset.volume = ⟨false, true, false⟩ := by
      rw [signals, State.afterReset, hout]
      rfl
    rw [hsignals]
    simp [Codec.State.nextVolLevel, State.afterReset, Codec.State.asyncReset]

/-- A down stretcher that is not at rest shows after the reset. -/
theorem not_fresh_of_not_downAtRest {s : State} (h : ¬ s.DownAtRest) : ¬ Fresh s := by
  intro hfresh
  let inputs : ℕ → Inputs := fun t ↦ ⟨decide (3 ≤ t), .idle, true⟩
  have hvol := (hfresh 3 (le_refl 3) inputs (fun _ ↦ rfl) fun _ _ ↦ ⟨rfl, rfl⟩).1
  obtain ⟨t, -, ht⟩ := volOut_of_not_downAtRest h (fun k ↦ inputs (3 + k))
    fun t ↦ decide_eq_true (Nat.le_add_right 3 t)
  have hdefault := hvol (3 + t) (Nat.le_add_right 3 t)
  rw [run_of_reset s (le_refl 3) fun _ ↦ rfl, ht] at hdefault
  exact absurd hdefault (by decide)

/-- For every two states the reset erases their histories, and leaves a fresh control path, if and
only if both down stretchers are at rest when it is asserted. -/
theorem forgets_iff (s s' : State) :
    Forgets s s' ∧ Fresh s ∧ Fresh s' ↔ s.DownAtRest ∧ s'.DownAtRest := by
  constructor
  · rintro ⟨-, hfresh, hfresh'⟩
    exact ⟨by_contra fun h ↦ not_fresh_of_not_downAtRest h hfresh,
      by_contra fun h ↦ not_fresh_of_not_downAtRest h hfresh'⟩
  · rintro ⟨h, h'⟩
    exact ⟨forgets_of_downAtRest h h', fresh_of_downAtRest h, fresh_of_downAtRest h'⟩

/-- A press of the down button just before the reset is not forgotten. -/
theorem not_forgets_press :
    ¬ ∀ s s' : State, Reachable s → Reachable s' → Forgets s s' ∧ Fresh s ∧ Fresh s' := by
  intro hclaim
  let press : ℕ → Inputs := fun _ ↦ ⟨true, ⟨true, false, true⟩, true⟩
  let inputs : ℕ → Inputs := fun t ↦ ⟨decide (3 ≤ t), .idle, true⟩
  have hpressed : ¬ (run .initial press 5).DownAtRest := by
    intro hrest
    have hcount : (run .initial press 5).volume.volDown.count = 5000 := rfl
    rw [hrest] at hcount
    exact absurd hcount (by decide)
  have hforgets := (hclaim .initial (run .initial press 5) ⟨press, 0, rfl⟩ ⟨press, 5, rfl⟩).1
  have hfresh := (fresh_of_downAtRest (s := .initial) rfl 3 (le_refl 3) inputs (fun _ ↦ rfl)
    fun _ _ ↦ ⟨rfl, rfl⟩).1
  obtain ⟨t, -, ht⟩ := volOut_of_not_downAtRest hpressed (fun k ↦ inputs (3 + k))
    fun t ↦ decide_eq_true (Nat.le_add_right 3 t)
  have hsame := congrArg Outputs.volOut
    (hforgets 3 (le_refl 3) inputs (fun _ ↦ rfl) (3 + t) (Nat.le_add_right 3 t))
  rw [hfresh _ (Nat.le_add_right 3 t), run_of_reset _ (le_refl 3) fun _ ↦ rfl, ht] at hsame
  exact absurd hsame (by decide)

end AudioProcessor.ControlPath
