import AudioProcessor.AudioPath.Frame

/-!
# Interleavings in which the program keeps up

`Timely` are the interleavings in which the program keeps up with the frames: it is waiting when the
first frame opens, polls in both halves of every frame, and is finished with a frame it has taken up
before the controller latches its words. The invariant `During` follows the program through a frame
at every time of it, whatever event comes next (`during_run`): the program takes up each frame once
(`existsUnique_triggers`), and is finished with it when the words are latched (`finished_latch`), so
that the next frame carries its word (`Timely.sent`).
-/

set_option autoImplicit false
set_option relaxedAutoImplicit false

namespace AudioProcessor.AudioPath

open AdcDac (latchEdge received)
open Equaliser (Frame iowr)
open Serial (msbFirst)

/-! ### Frames of a run -/

/-- Time `t` lies in frame `n`: between the rise of the ready flag that opens it and the next one. -/
def InFrame {ε : Type} [AudioClocked ε] (ev : ℕ → ε) (n t : ℕ) : Prop :=
  384 * n + 12 ≤ edges ev t ∧ edges ev t < 384 * n + 396

/-- The ready flag at a time. -/
def flag (s : State) (ev : ℕ → Event) (t : ℕ) : Bool :=
  (released s ev t).controller.dataReadyFlag

/-- The event is a poll of the ready flag. -/
def Polls (s : State) (ev : ℕ → Event) (t : ℕ) : Prop :=
  (ev t).isAudioClock = false ∧ (released s ev t).main.access = .dataReady

/-- The event is a poll that starts the work on a frame. -/
def Triggers (s : State) (ev : ℕ → Event) (t : ℕ) : Prop :=
  ∃ switches, ev t = .access switches ∧
    (released s ev t).main.triggers ((released s ev t).ports switches) = true

theorem Triggers.polls {s : State} {ev : ℕ → Event} {t : ℕ} (h : Triggers s ev t) :
    Polls s ev t := by
  obtain ⟨switches, hev, htriggers⟩ := h
  rw [Equaliser.Main.triggers, Bool.and_eq_true, beq_iff_eq] at htriggers
  exact ⟨by rw [hev]; rfl, htriggers.1⟩

section Frames

variable (s : State) {ev : ℕ → Event} {n t : ℕ} (hin : InFrame ev n t)

include hin

/-- The flag is high in the first half of a frame. -/
theorem flag_eq : flag s ev t = decide (edges ev t < 384 * n + 204) := by
  obtain ⟨hlow, hhigh⟩ := hin
  rw [flag, controller_released, AdcDac.State.dataReadyFlag, AdcDac.released_internalLRSelect]
  exact decide_eq_decide.mpr (by omega)

/-- Once low the flag stays low for the remainder of the frame. -/
theorem flag_low {u : ℕ} (hu : InFrame ev n u) (hlow : flag s ev t = false) (htu : t ≤ u) :
    flag s ev u = false := by
  rw [flag_eq s hin, decide_eq_false_iff_not] at hlow
  rw [flag_eq s hu]
  have hmono := edges_mono ev htu
  exact decide_eq_false (by omega)

end Frames

/-- The word in the left bridge register when frame `n` opens. -/
def sample (pins : ℕ → AdcDac.State) (n : ℕ) : BitVec 16 := (pins (384 * n + 12)).audioToNiosLeft

/-- What the program is to work on in frame `n`. -/
def frame (pins : ℕ → AdcDac.State) (setting : ℕ → Switches) (n : ℕ) : Frame :=
  ⟨sample pins n, (setting n).bass, (setting n).treble⟩

/-- The accumulator before a frame, from its value before the first one. -/
def accumulator (bassPrev : Int32) (frames : ℕ → Frame) : ℕ → Int32 :=
  Clocked.run (fun f acc ↦ (f.body acc).bassPrev) bassPrev frames

/-- The word the program makes of a frame. -/
def filtered (bassPrev : Int32) (frames : ℕ → Frame) (n : ℕ) : BitVec 16 :=
  iowr ((frames n).body (accumulator bassPrev frames n)).limited

/-- The interleavings in which the program keeps up with the frames. -/
structure Timely (s : State) (ev : ℕ → Event) (bassPrev : Int32) : Prop where
  /-- When the first frame opens the program is polling and has seen the flag low. -/
  start : ∀ t, edges ev t = 11 → (ev t).isAudioClock = true →
    Waiting bassPrev (released s ev t).main
  /-- It polls while the flag is high. -/
  high : ∀ n, ∃ t, InFrame ev n t ∧ flag s ev t = true ∧ Polls s ev t
  /-- It polls while the flag is low. -/
  low : ∀ n, ∃ t, InFrame ev n t ∧ flag s ev t = false ∧ Polls s ev t
  /-- What a detected rise makes it do is done before the words are latched. -/
  finishes : ∀ n t, InFrame ev n t → Triggers s ev t →
    ∃ u > t, edges ev u ≤ latchEdge n ∧ (released s ev u).main.access = .dataReady

theorem Timely.unbounded {s : State} {ev : ℕ → Event} {bassPrev : Int32}
    (h : Timely s ev bassPrev) : Unbounded ev := by
  intro k
  obtain ⟨t, hin, -⟩ := h.high k
  exact ⟨t, by have := hin.1; omega⟩

/-! ### The program during a frame -/

/-- The one poll before time `t` that has started the work on frame `n`. -/
structure TakenUp (s : State) (ev : ℕ → Event) (n t u : ℕ) : Prop where
  lt : u < t
  inFrame : InFrame ev n u
  triggers : Triggers s ev u
  unique : ∀ v < t, InFrame ev n v → Triggers s ev v → v = u

/-- The program has not polled in the low half of frame `n` before time `t`. -/
def NoLowPoll (s : State) (ev : ℕ → Event) (n t : ℕ) : Prop :=
  ∀ u < t, InFrame ev n u → flag s ev u = false → ¬ Polls s ev u

/-- How far the program is at time `t` of frame `n`, which offers `f` to it. -/
inductive During (s : State) (ev : ℕ → Event) (f : Frame) (acc : Int32) (n t : ℕ) : Prop
  | waiting (hmain : Waiting acc (released s ev t).main) (hflag : flag s ev t = true)
      (hnone : ∀ u < t, InFrame ev n u → ¬ Polls s ev u)
  | working (u : ℕ) (htaken : TakenUp s ev n t u) (hmain : Working f acc (released s ev t))
      (hsince : ∀ v, u < v → v ≤ t → (released s ev v).main.access ≠ .dataReady)
      (hlatch : edges ev t ≤ latchEdge n) (hnone : NoLowPoll s ev n t)
  | finished (u : ℕ) (htaken : TakenUp s ev n t u) (hmain : Finished f acc (released s ev t))
      (hready : (released s ev t).main.lastReady = 1 ∧ NoLowPoll s ev n t ∨
        (released s ev t).main.lastReady = 0 ∧ flag s ev t = false)

section Step

variable {s : State} {ev : ℕ → Event} {n t : ℕ}

theorem TakenUp.succ {u : ℕ} (h : TakenUp s ev n t u) (ht : ¬ Triggers s ev t) :
    TakenUp s ev n (t + 1) u where
  lt := Nat.lt_succ_of_lt h.lt
  inFrame := h.inFrame
  triggers := h.triggers
  unique := Nat.forall_lt_succ_right.mpr ⟨h.unique, fun _ hv ↦ absurd hv ht⟩

theorem NoLowPoll.succ (h : NoLowPoll s ev n t) (ht : flag s ev t = false → ¬ Polls s ev t) :
    NoLowPoll s ev n (t + 1) :=
  Nat.forall_lt_succ_right.mpr ⟨h, fun _ ↦ ht⟩

/-- An edge of the audio clock within a frame. -/
theorem During.audioClock {f : Frame} {acc bassPrev : Int32} {adcData : Bool}
    (h : During s ev f acc n t) (htimely : Timely s ev bassPrev) (hin : InFrame ev n t)
    (hnext : InFrame ev n (t + 1)) (hev : ev t = .audioClock adcData) :
    During s ev f acc n (t + 1) := by
  have hpoll : ¬ Polls s ev t := by
    rintro ⟨haccess, -⟩
    rw [hev] at haccess
    exact Bool.noConfusion haccess
  have hedges := edges_succ_audioClock ev (t := t) (by rw [hev]; rfl)
  have hmain : (released s ev (t + 1)).main = (released s ev t).main := by
    rw [released_succ, hev]
    rfl
  cases h with
  | waiting hwaiting hflag hnone =>
    have hnever : ∀ u < t + 1, InFrame ev n u → ¬ Polls s ev u :=
      Nat.forall_lt_succ_right.mpr ⟨hnone, fun _ ↦ hpoll⟩
    refine .waiting (hmain ▸ hwaiting) ?_ hnever
    -- the flag cannot fall before the poll there is in the high half
    by_contra hfalls
    obtain ⟨u, hinu, hhigh, hpolls⟩ := htimely.high n
    rcases Nat.lt_or_ge u (t + 1) with hlt | hge
    · exact hnever u hlt hinu hpolls
    · have hlow := flag_low s hnext hinu (Bool.eq_false_of_not_eq_true hfalls) hge
      rw [hlow] at hhigh
      exact Bool.noConfusion hhigh
  | working u htaken hworking hsince hlatch hnone =>
    have hbusy : ∀ v, u < v → v ≤ t + 1 → (released s ev v).main.access ≠ .dataReady := by
      intro v huv hvt
      rcases Nat.lt_or_eq_of_le hvt with hlt | rfl
      · exact hsince v huv (Nat.lt_succ_iff.mp hlt)
      · rw [hmain]
        exact hworking.access_ne
    refine .working u (htaken.succ fun htriggers ↦ hpoll htriggers.polls) ?_ hbusy ?_
      (hnone.succ fun _ ↦ hpoll)
    · rw [released_succ, hev]
      exact hworking.audioClock adcData
    · -- the latch edge does not come before the work is done
      by_contra hlate
      obtain ⟨v, huv, hdone, haccess⟩ := htimely.finishes n u htaken.inFrame htaken.triggers
      rcases Nat.lt_or_ge v (t + 1) with hlt | hge
      · exact hsince v huv (Nat.lt_succ_iff.mp hlt) haccess
      · have hmono := edges_mono ev hge
        omega
  | finished u htaken hfinished hready =>
    refine .finished u (htaken.succ fun htriggers ↦ hpoll htriggers.polls) ?_ ?_
    · rw [released_succ, hev]
      exact hfinished.audioClock adcData
    · rw [hmain]
      rcases hready with ⟨hlast, hnone⟩ | ⟨hlast, hflag⟩
      · exact .inl ⟨hlast, hnone.succ fun _ ↦ hpoll⟩
      · exact .inr ⟨hlast, flag_low s hin hnext hflag (Nat.le_succ t)⟩

/-- Up to the latch edge the bridge register shows the sample of the frame. -/
theorem audioToNiosLeft_eq (hclock : Unbounded ev) (hin : InFrame ev n t)
    (hlatch : edges ev t ≤ latchEdge n) :
    (released s ev t).controller.audioToNiosLeft = sample (view s ev) n := by
  have hlow := hin.1
  rw [latchEdge] at hlatch
  rw [controller_released, sample, view_eq s ev hclock,
    AdcDac.audioToNiosLeft_between _ _ n (by omega) (by omega),
    AdcDac.audioToNiosLeft_between _ _ n (k := 384 * n + 12) (by omega) (by omega)]

/-- An access within a frame. -/
theorem During.access {setting : ℕ → Switches} {acc bassPrev : Int32}
    (h : During s ev (frame (view s ev) setting n) acc n t) (htimely : Timely s ev bassPrev)
    (hin : InFrame ev n t) (hev : ev t = .access (setting n)) :
    During s ev (frame (view s ev) setting n) acc n (t + 1) := by
  have hedges : edges ev (t + 1) = edges ev t := edges_succ_rest ev (by rw [hev]; rfl)
  have hflag : flag s ev (t + 1) = flag s ev t := by
    rw [flag, flag, controller_released, controller_released, hedges]
  cases h with
  | waiting hwaiting hhigh hnone =>
    obtain ⟨htriggers, hworking⟩ :=
      hwaiting.access_high (f := frame (view s ev) setting n) (setting n) hhigh
    rw [← hev, ← released_succ] at hworking
    have hlow : edges ev t < 384 * n + 204 := by
      rw [flag_eq s hin, decide_eq_true_eq] at hhigh
      exact hhigh
    have htaken : TakenUp s ev n (t + 1) t :=
      ⟨Nat.lt_succ_self t, hin, ⟨_, hev, htriggers⟩, Nat.forall_lt_succ_right.mpr
        ⟨fun v hv hinv htriggers ↦ absurd htriggers.polls (hnone v hv hinv), fun _ _ ↦ rfl⟩⟩
    have hlowPoll : NoLowPoll s ev n t := fun u hu hinu _ ↦ hnone u hu hinu
    refine .working t htaken hworking (fun v hlt hle ↦ ?_) (by rw [hedges, latchEdge]; omega)
      (hlowPoll.succ fun hfalls ↦ Bool.noConfusion (hfalls.symm.trans hhigh))
    rw [Nat.le_antisymm hle hlt]
    exact hworking.access_ne
  | working u htaken hworking hsince hlatch hnone =>
    have hpoll : ¬ Polls s ev t := fun hpolls ↦ hworking.access_ne hpolls.2
    have hleft := audioToNiosLeft_eq (s := s) htimely.unbounded hin hlatch
    have htaken' := htaken.succ fun htriggers ↦ hpoll htriggers.polls
    have hnone' := hnone.succ fun _ ↦ hpoll
    have hnext := hworking.access (setting n) hleft rfl rfl
    rw [← hev, ← released_succ] at hnext
    rcases hnext with hworking' | ⟨hfinished, hlast⟩
    · refine .working u htaken' hworking' (fun v huv hvt ↦ ?_) (hedges.trans_le hlatch) hnone'
      rcases Nat.lt_or_eq_of_le hvt with hlt | rfl
      · exact hsince v huv (Nat.lt_succ_iff.mp hlt)
      · exact hworking'.access_ne
    · exact .finished u htaken' hfinished (.inl ⟨hlast, hnone'⟩)
  | finished u htaken hfinished hready =>
    have hnext := hfinished.access_poll (setting n) (hready.imp And.left And.right)
    rw [← hev, ← released_succ] at hnext
    obtain ⟨htriggers, hfinished', hlast⟩ := hnext
    have hidle : ¬ Triggers s ev t := by
      rintro ⟨switches, hev', htriggers'⟩
      rw [hev] at hev'
      cases hev'
      rw [htriggers] at htriggers'
      exact Bool.noConfusion htriggers'
    refine .finished u (htaken.succ hidle) hfinished' ?_
    change (released s ev (t + 1)).main.lastReady = if flag s ev t then 1 else 0 at hlast
    cases hcase : flag s ev t
    · rw [hcase] at hlast
      exact .inr ⟨hlast, hflag.trans hcase⟩
    · rw [hcase] at hlast
      refine .inl ⟨hlast, ?_⟩
      rcases hready with ⟨-, hnone⟩ | ⟨-, hlow⟩
      · exact hnone.succ fun hlow ↦ Bool.noConfusion (hcase.symm.trans hlow)
      · exact Bool.noConfusion (hcase.symm.trans hlow)

/-- When the next frame opens the program is waiting again. -/
theorem During.next {f : Frame} {acc bassPrev : Int32} (h : During s ev f acc n t)
    (htimely : Timely s ev bassPrev) (hin : InFrame ev n t)
    (hev : (ev t).isAudioClock = true) (hlast : edges ev t = 384 * n + 395) :
    Waiting (f.body acc).bassPrev (released s ev t).main := by
  have hlow : flag s ev t = false := by
    rw [flag_eq s hin]
    exact decide_eq_false (by omega)
  cases h with
  | waiting _ hhigh _ => exact Bool.noConfusion (hlow.symm.trans hhigh)
  | working _ _ _ _ hlatch _ =>
    rw [latchEdge] at hlatch
    omega
  | finished u _ hfinished hready =>
    refine ⟨hfinished.access, ?_, hfinished.bassPrev⟩
    rcases hready with ⟨-, hnone⟩ | ⟨hzero, -⟩
    · obtain ⟨v, hinv, hlowv, hpolls⟩ := htimely.low n
      rcases Nat.lt_trichotomy v t with hlt | rfl | hgt
      · exact absurd hpolls (hnone v hlt hinv hlowv)
      · exact Bool.noConfusion (hev.symm.trans hpolls.1)
      · have hmono := edges_mono ev hgt
        rw [edges_succ_audioClock ev hev] at hmono
        have := hinv.2
        omega
    · exact hzero

end Step

/-! ### Runs -/

section Run

variable {s : State} {ev : ℕ → Event} {bassPrev : Int32} {setting : ℕ → Switches}
  (htimely : Timely s ev bassPrev)
  (hsetting : ∀ n t switches, InFrame ev n t → ev t = .access switches → switches = setting n)

include htimely hsetting

/-- At every time of a frame the program is where it is to be. -/
theorem during_run {n t : ℕ} (hin : InFrame ev n t) :
    During s ev (frame (view s ev) setting n)
      (accumulator bassPrev (frame (view s ev) setting) n) n t := by
  induction t generalizing n with
  | zero =>
    have hlow := hin.1
    rw [edges_zero] at hlow
    omega
  | succ t ih =>
    by_cases hbefore : InFrame ev n t
    · cases hev : ev t with
      | audioClock adcData => exact (ih hbefore).audioClock htimely hbefore hin hev
      | access switches =>
        obtain rfl := hsetting n t switches hbefore hev
        exact (ih hbefore).access htimely hbefore hev
    · -- the frame opens with an edge of the audio clock
      obtain ⟨hlow, hhigh⟩ := hin
      have hclock : (ev t).isAudioClock = true := by
        by_contra haccess
        rw [edges_succ_rest ev (Bool.eq_false_of_not_eq_true haccess)] at hlow hhigh
        exact hbefore ⟨hlow, hhigh⟩
      rw [edges_succ_audioClock ev hclock] at hlow hhigh
      have hedges : edges ev t = 384 * n + 11 := by
        by_contra hother
        exact hbefore ⟨by omega, by omega⟩
      have hwaiting : Waiting (accumulator bassPrev (frame (view s ev) setting) n)
          (released s ev t).main := by
        cases n with
        | zero => exact htimely.start t hedges hclock
        | succ n =>
          have hin : InFrame ev n t := ⟨by omega, by omega⟩
          exact (ih hin).next htimely hin hclock (by omega)
      have hmain : (released s ev (t + 1)).main = (released s ev t).main := by
        rw [released_succ]
        cases hev : ev t with
        | audioClock adcData => rfl
        | access switches =>
          rw [hev] at hclock
          exact Bool.noConfusion hclock
      have hin : InFrame ev n (t + 1) := by
        rw [InFrame, edges_succ_audioClock ev hclock]
        exact ⟨hlow, hhigh⟩
      refine .waiting (hmain ▸ hwaiting) ?_ fun u hu hinu _ ↦ ?_
      · rw [flag_eq s hin, edges_succ_audioClock ev hclock]
        exact decide_eq_true (by omega)
      · have hmono := edges_mono ev (Nat.lt_succ_iff.mp hu)
        have hlowu := hinu.1
        omega

/-- At the latch edge and later in a frame the program is finished with it. -/
theorem finished_of_latched {n t : ℕ} (hin : InFrame ev n t) (hclock : (ev t).isAudioClock = true)
    (hlatch : latchEdge n ≤ edges ev t) : ∃ u, TakenUp s ev n t u ∧
      Finished (frame (view s ev) setting n) (accumulator bassPrev (frame (view s ev) setting) n)
        (released s ev t) := by
  have hlatch' := hlatch
  rw [latchEdge] at hlatch'
  cases during_run htimely hsetting hin with
  | waiting _ hhigh _ =>
    rw [flag_eq s hin, decide_eq_true_eq] at hhigh
    omega
  | working u htaken _ hsince _ _ =>
    obtain ⟨v, huv, hdone, haccess⟩ := htimely.finishes n u htaken.inFrame htaken.triggers
    rcases Nat.lt_or_ge t v with hlt | hge
    · have hmono := edges_mono ev hlt
      rw [edges_succ_audioClock ev hclock] at hmono
      omega
    · exact absurd haccess (hsince v huv hge)
  | finished u htaken hfinished _ => exact ⟨u, htaken, hfinished⟩

/-- The program takes up each frame once. -/
theorem existsUnique_triggers (n : ℕ) : ∃! t, InFrame ev n t ∧ Triggers s ev t := by
  have hclock := isAudioClock_edgeTime htimely.unbounded (384 * n + 395)
  have hedges := edges_edgeTime htimely.unbounded (384 * n + 395)
  set last := edgeTime ev (384 * n + 395)
  have hin : InFrame ev n last := ⟨by omega, by omega⟩
  obtain ⟨u, htaken, -⟩ := finished_of_latched htimely hsetting hin hclock
    (by rw [latchEdge]; omega)
  refine ⟨u, ⟨htaken.inFrame, htaken.triggers⟩, ?_⟩
  rintro v ⟨hinv, hv⟩
  rcases Nat.lt_trichotomy v last with hlt | rfl | hgt
  · exact htaken.unique v hlt hinv hv
  · exact Bool.noConfusion (hclock.symm.trans hv.polls.1)
  · have hmono := edges_mono ev hgt
    rw [edges_succ_audioClock ev hclock] at hmono
    have hhigh := hinv.2
    omega

/-- When the words are latched the output PIOs hold the word of the frame. -/
theorem finished_latch (n : ℕ) :
    Finished (frame (view s ev) setting n) (accumulator bassPrev (frame (view s ev) setting) n)
      (released s ev (edgeTime ev (latchEdge n))) := by
  have hedges := edges_edgeTime htimely.unbounded (latchEdge n)
  have hin : InFrame ev n (edgeTime ev (latchEdge n)) := by
    rw [InFrame, hedges, latchEdge]
    omega
  obtain ⟨u, -, hfinished⟩ := finished_of_latched htimely hsetting hin
    (isAudioClock_edgeTime htimely.unbounded _) hedges.ge
  exact hfinished

end Run

/-- Both slots of a frame carry the word that the program has made of the frame before, and the
sample of a frame is the word received in the left slot of the frame before. -/
theorem Timely.sent {s : State} {ev : ℕ → Event} {bassPrev : Int32} {setting : ℕ → Switches}
    (h : Timely s ev bassPrev)
    (hsetting : ∀ n t switches, InFrame ev n t → ev t = .access switches → switches = setting n)
    (n : ℕ) :
    msbFirst (sample (view s ev) (n + 1)) = received (view s ev) (adcBits ev) true n ∧
      ∀ slot, AdcDac.sent (view s ev) slot (n + 1) =
        msbFirst (filtered bassPrev (frame (view s ev) setting) n) := by
  have hfinished := finished_latch h hsetting n
  have hview := view_eq s ev h.unbounded
  refine ⟨?_, fun slot ↦ ?_⟩
  · rw [sample, hview, AdcDac.msbFirst_audioToNiosLeft]
    rfl
  · rw [filtered]
    cases slot with
    | true =>
      rw [← hfinished.outLeft, hview, controllerInputs, AdcDac.sent_left, hfinished.outLeft,
        hfinished.outRight]
      exact (AdcDac.msbFirst_eq_cons _).symm
    | false =>
      rw [← hfinished.outLeft, hview, controllerInputs, AdcDac.sent_right, hfinished.outLeft,
        hfinished.outRight]
      exact (AdcDac.msbFirst_eq_cons _).symm

end AudioProcessor.AudioPath
