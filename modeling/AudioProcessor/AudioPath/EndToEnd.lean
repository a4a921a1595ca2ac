import AudioProcessor.AudioPath.Timely

/-!
# From the ADC to the DAC

Where the program keeps up with the frames, both slots of a frame carry the word it has made of the
frame before (`sent_filtered`). One such interleaving is that of edges and accesses in turn
(`timely_alternating`).
-/

set_option autoImplicit false
set_option relaxedAutoImplicit false

namespace AudioProcessor.AudioPath

open AdcDac (latchEdge sent received)
open Serial (msbFirst)

/-- In every interleaving in which the program keeps up with the frames: it takes up each frame
once; the sample it works on is the word received in the left slot of the frame before, and what the
register held at the start in the first frame; and both slots of the next frame carry the word it
has made of it, most significant bit first. -/
theorem sent_filtered {s : State} {ev : ℕ → Event} {bassPrev : Int32} {setting : ℕ → Switches}
    (htimely : Timely s ev bassPrev)
    (hsetting : ∀ n t switches, InFrame ev n t → ev t = .access switches → switches = setting n)
    (n : ℕ) :
    (∃! t, InFrame ev n t ∧ Triggers s ev t) ∧
      (released s ev (edgeTime ev (latchEdge n))).main.audioIn.toBitVec = sample (view s ev) n ∧
      sample (view s ev) 0 = s.controller.audioToNiosLeft ∧
      msbFirst (sample (view s ev) (n + 1)) = received (view s ev) (adcBits ev) true n ∧
      sent (view s ev) true (n + 1) = msbFirst (filtered bassPrev (frame (view s ev) setting) n) ∧
      sent (view s ev) false (n + 1) = msbFirst (filtered bassPrev (frame (view s ev) setting) n) := by
  have hfinished := finished_latch htimely hsetting n
  obtain ⟨hreceived, hsent⟩ := htimely.sent hsetting n
  refine ⟨existsUnique_triggers htimely hsetting n, ?_, ?_, hreceived, hsent true, hsent false⟩
  · rw [hfinished.audioIn]
    exact Equaliser.Ports.toBitVec_sample _
  · rw [sample, view_eq s ev htimely.unbounded,
      AdcDac.audioToNiosLeft_between _ _ 0 (by omega) (by omega)]
    rfl

/-! ### Edges and accesses in turn -/

/-- The edges of the audio clock and the accesses of the program alternate. -/
def alternating (adcData : ℕ → Bool) (switches : Switches) (t : ℕ) : Event :=
  if t % 2 = 0 then .audioClock (adcData (t / 2)) else .access switches

section Alternating

variable (adcData : ℕ → Bool) (switches : Switches)

theorem alternating_even (k : ℕ) :
    alternating adcData switches (2 * k) = .audioClock (adcData k) := by
  rw [alternating, if_pos (by omega), Nat.mul_div_cancel_left k (by omega)]

theorem alternating_odd (k : ℕ) : alternating adcData switches (2 * k + 1) = .access switches := by
  rw [alternating, if_neg (by omega)]

theorem edges_alternating (t : ℕ) : edges (alternating adcData switches) t = (t + 1) / 2 := by
  induction t with
  | zero => rw [edges_zero]
  | succ t ih =>
    obtain ⟨k, rfl | rfl⟩ : ∃ k, t = 2 * k ∨ t = 2 * k + 1 := ⟨t / 2, by omega⟩
    · rw [edges_succ_audioClock _ (by rw [alternating_even]; rfl), ih]
      omega
    · rw [edges_succ_rest _ (by rw [alternating_odd]; rfl), ih]
      omega

variable (s : State)

/-- The program makes one access in two events. -/
theorem main_alternating (k : ℕ) :
    (released s (alternating adcData switches) (2 * k + 3)).main =
      (released s (alternating adcData switches) (2 * k + 1)).main.step
        ((released s (alternating adcData switches) (2 * k + 1)).ports switches) := by
  rw [show 2 * k + 3 = 2 * (k + 1) + 1 by omega, released_succ, alternating_even,
    show 2 * (k + 1) = 2 * k + 1 + 1 by omega, released_succ, alternating_odd]
  rfl

/-- How many accesses the program makes before it polls. -/
def accessesToPoll : Equaliser.Access → ℕ
  | .dataReady => 0
  | .inLeft => 5
  | .bassStageSwitch => 4
  | .trebleStageSwitch => 3
  | .outLeft => 2
  | .outRight => 1

theorem accessesToPoll_step (p : Equaliser.Ports) (m : Equaliser.Main)
    (hbusy : m.access ≠ .dataReady) :
    accessesToPoll (m.step p).access + 1 = accessesToPoll m.access := by
  obtain ⟨access, currentReady, lastReady, bassPrev, audioIn, bStage, tStage, res⟩ := m
  cases access with
  | dataReady => exact absurd rfl hbusy
  | inLeft => rfl
  | bassStageSwitch => rfl
  | trebleStageSwitch => rfl
  | outLeft => rfl
  | outRight => rfl

theorem eq_dataReady_of_accessesToPoll {access : Equaliser.Access}
    (hzero : accessesToPoll access = 0) : access = .dataReady := by
  cases access with
  | dataReady => rfl
  | _ => exact absurd hzero (Nat.succ_ne_zero _)

/-- After so many accesses it polls. -/
theorem poll_alternating (r k : ℕ)
    (hr : accessesToPoll (released s (alternating adcData switches) (2 * k + 1)).main.access = r) :
    (released s (alternating adcData switches) (2 * (k + r) + 1)).main.access = .dataReady := by
  induction r generalizing k with
  | zero => exact eq_dataReady_of_accessesToPoll hr
  | succ r ih =>
    have hbusy : (released s (alternating adcData switches) (2 * k + 1)).main.access ≠
        .dataReady := by
      intro haccess
      rw [haccess] at hr
      exact absurd hr (Nat.succ_ne_zero r).symm
    have hstep := accessesToPoll_step ((released s (alternating adcData switches)
      (2 * k + 1)).ports switches) _ hbusy
    rw [← main_alternating] at hstep
    have hnext := ih (k + 1) (by rw [show 2 * (k + 1) + 1 = 2 * k + 3 by omega]; omega)
    rwa [show k + 1 + r = k + (r + 1) by omega] at hnext

theorem accessesToPoll_le (access : Equaliser.Access) : accessesToPoll access ≤ 5 := by
  cases access <;> decide

/-- Among six accesses one is a poll. -/
theorem exists_poll_alternating (k : ℕ) :
    ∃ r ≤ 5, Polls s (alternating adcData switches) (2 * (k + r) + 1) := by
  refine ⟨_, accessesToPoll_le _, ?_, poll_alternating adcData switches s _ k rfl⟩
  rw [alternating_odd]
  rfl

variable (hmain : s.main = .start)

include hmain

/-- Before the first frame opens the program keeps waiting. -/
theorem waiting_alternating {t : ℕ} (ht : t ≤ 23) :
    Waiting 0 (released s (alternating adcData switches) t).main := by
  induction t with
  | zero =>
    change Waiting 0 s.main
    rw [hmain]
    exact ⟨rfl, rfl, rfl⟩
  | succ t ih =>
    rw [released_succ]
    obtain ⟨k, rfl | rfl⟩ : ∃ k, t = 2 * k ∨ t = 2 * k + 1 := ⟨t / 2, by omega⟩
    · rw [alternating_even]
      exact ih (by omega)
    · rw [alternating_odd]
      refine (ih (by omega)).access_low switches ?_
      rw [controller_released, AdcDac.State.dataReadyFlag, AdcDac.released_internalLRSelect,
        edges_alternating]
      exact decide_eq_false (by omega)

/-- With this interleaving the program keeps up with the frames. -/
theorem timely_alternating : Timely s (alternating adcData switches) 0 where
  start t hedges _ := by
    rw [edges_alternating] at hedges
    exact waiting_alternating adcData switches s hmain (by omega)
  high n := by
    obtain ⟨r, hr, hpolls⟩ := exists_poll_alternating adcData switches s (384 * n + 12)
    have hedges := edges_alternating adcData switches (2 * (384 * n + 12 + r) + 1)
    have hin : InFrame (alternating adcData switches) n (2 * (384 * n + 12 + r) + 1) := by
      rw [InFrame, hedges]
      omega
    refine ⟨_, hin, ?_, hpolls⟩
    rw [flag_eq s hin, hedges]
    exact decide_eq_true (by omega)
  low n := by
    obtain ⟨r, hr, hpolls⟩ := exists_poll_alternating adcData switches s (384 * n + 204)
    have hedges := edges_alternating adcData switches (2 * (384 * n + 204 + r) + 1)
    have hin : InFrame (alternating adcData switches) n (2 * (384 * n + 204 + r) + 1) := by
      rw [InFrame, hedges]
      omega
    refine ⟨_, hin, ?_, hpolls⟩
    rw [flag_eq s hin, hedges]
    exact decide_eq_false (by omega)
  finishes n t hin htriggers := by
    obtain ⟨k, rfl⟩ : ∃ k, t = 2 * k + 1 := by
      refine ⟨t / 2, ?_⟩
      by_contra heven
      have hclock := htriggers.polls.1
      rw [show t = 2 * (t / 2) by omega, alternating_even] at hclock
      exact Bool.noConfusion hclock
    obtain ⟨_, hev, hrise⟩ := htriggers
    rw [alternating_odd] at hev
    cases hev
    have hflag : flag s (alternating adcData switches) (2 * k + 1) = true := by
      have hpoll := Triggers.polls ⟨switches, alternating_odd adcData switches k, hrise⟩
      rw [triggers_of_poll switches hpoll.2, Bool.and_eq_true] at hrise
      exact hrise.1
    rw [flag_eq s hin, decide_eq_true_eq, edges_alternating] at hflag
    have hwork : (released s (alternating adcData switches) (2 * (k + 1) + 1)).main.access =
        .inLeft := by
      rw [show 2 * (k + 1) + 1 = 2 * k + 3 by omega, main_alternating,
        Equaliser.Main.step_of_triggers hrise]
    have hdone := poll_alternating adcData switches s 5 (k + 1) (by rw [hwork]; rfl)
    refine ⟨2 * (k + 1 + 5) + 1, by omega, ?_, hdone⟩
    rw [edges_alternating, latchEdge]
    omega

end Alternating

/-- The system with a word in the bridge register. -/
def bridged : State where
  controller := ⟨false, 0, false, false, 0, 15, 15, 0, 0, 0, 0, 0x1234, 0, false, 0⟩
  main := .start
  outLeft := 0
  outRight := 0

/-- Both stages at zero. -/
def flat : Switches := ⟨0, 0⟩

/-- With both stages at zero this word is sent in both slots of frame 1. -/
theorem sent_bridged :
    sent (view bridged (alternating (fun _ ↦ false) flat)) true 1 = msbFirst (0x1234 : BitVec 16) ∧
      sent (view bridged (alternating (fun _ ↦ false) flat)) false 1 =
        msbFirst (0x1234 : BitVec 16) := by
  set ev := alternating (fun _ ↦ false) flat with hev
  have htimely : Timely bridged ev 0 := timely_alternating _ _ bridged rfl
  have hsetting : ∀ n t switches, InFrame ev n t → ev t = .access switches →
      switches = (fun _ : ℕ ↦ flat) n := by
    intro n t switches _ haccess
    rw [hev, alternating] at haccess
    split_ifs at haccess
    exact (Event.access.inj haccess).symm
  obtain ⟨-, -, hsample, -, hleft, hright⟩ := sent_filtered htimely hsetting 0
  have hfiltered : filtered 0 (frame (view bridged ev) fun _ ↦ flat) 0 = 0x1234 := by
    rw [filtered, frame, hsample]
    decide
  rw [hfiltered] at hleft hright
  exact ⟨hleft, hright⟩

end AudioProcessor.AudioPath
