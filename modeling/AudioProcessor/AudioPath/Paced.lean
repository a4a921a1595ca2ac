import AudioProcessor.AudioPath.Timely

/-!
# How fast the program has to be

`Timely` speaks of frames; `Paced` bounds the time between two polls instead, in edges of the audio
clock: `idle` after a poll that sees no rise, `busy` after one that does. A program that waits when
the reset of the controller is released keeps up with the frames where `idle` is at most half a frame
and the two together end before the words are latched (`Paced.timely`). A poll that sees a rise
comes early in its frame, since the poll before it saw the flag low (`Paced.triggers_early`).
-/

set_option autoImplicit false
set_option relaxedAutoImplicit false

namespace AudioProcessor.AudioPath

open AdcDac (latchEdge)

/-- The edges of the audio clock from one poll to the next, and from the release to the first. -/
structure Paced (s : State) (ev : ℕ → Event) (idle busy : ℕ) : Prop where
  unbounded : Unbounded ev
  first : ∃ t, Polls s ev t ∧ edges ev t ≤ idle
  rests : ∀ t, Polls s ev t → ¬ Triggers s ev t →
    ∃ u > t, Polls s ev u ∧ edges ev u ≤ edges ev t + idle
  works : ∀ t, Triggers s ev t → ∃ u > t, Polls s ev u ∧ edges ev u ≤ edges ev t + busy

/-- The last poll before a time. -/
structure LastPoll (s : State) (ev : ℕ → Event) (t v : ℕ) : Prop where
  lt : v < t
  polls : Polls s ev v
  none : ∀ w, v < w → w < t → ¬ Polls s ev w

section Last

variable (s : State) (ev : ℕ → Event)

theorem exists_lastPoll (t : ℕ) : (∀ v < t, ¬ Polls s ev v) ∨ ∃ v, LastPoll s ev t v := by
  induction t with
  | zero => exact .inl fun v hv ↦ absurd hv (Nat.not_lt_zero v)
  | succ t ih =>
    by_cases ht : Polls s ev t
    · exact .inr ⟨t, Nat.lt_succ_self t, ht, fun w hlow hhigh ↦ by omega⟩
    · rcases ih with hnone | ⟨v, hlt, hpolls, hnone⟩
      · exact .inl (Nat.forall_lt_succ_right.mpr ⟨hnone, ht⟩)
      · refine .inr ⟨v, Nat.lt_succ_of_lt hlt, hpolls, fun w hvw hwt ↦ ?_⟩
        rcases Nat.lt_succ_iff_lt_or_eq.mp hwt with hlt | rfl
        · exact hnone w hvw hlt
        · exact ht

variable {s ev} {t : ℕ}

/-- An edge of the audio clock leaves the program. -/
theorem main_audioClock (ht : (ev t).isAudioClock = true) :
    (released s ev (t + 1)).main = (released s ev t).main := by
  rw [released_succ]
  cases hev : ev t with
  | audioClock adcData => rfl
  | access switches =>
    rw [hev] at ht
    exact Bool.noConfusion ht

/-- An access moves the program. -/
theorem main_access (ht : (ev t).isAudioClock = false) : ∃ switches, ev t = .access switches ∧
    (released s ev (t + 1)).main =
      (released s ev t).main.step ((released s ev t).ports switches) := by
  cases hev : ev t with
  | audioClock adcData =>
    rw [hev] at ht
    exact Bool.noConfusion ht
  | access switches =>
    refine ⟨switches, rfl, ?_⟩
    rw [released_succ, hev]
    rfl

/-- The program rests after a poll that does not see a rise, and remembers the flag. -/
def Rests (s : State) (ev : ℕ → Event) (v t : ℕ) : Prop :=
  (released s ev t).main.access = .dataReady ∧
    (released s ev t).main.lastReady = if flag s ev v then 1 else 0

/-- The program works after a poll that sees a rise, and remembers that the flag was high. -/
def Works (s : State) (ev : ℕ → Event) (t : ℕ) : Prop :=
  (released s ev t).main.currentReady = 1 ∧
    ((released s ev t).main.access = .dataReady → (released s ev t).main.lastReady = 1)

/-- The work goes on up to the next poll. -/
theorem step_works {p : Equaliser.Ports} {m : Equaliser.Main} (hready : m.currentReady = 1)
    (hbusy : m.access ≠ .dataReady) : (m.step p).currentReady = 1 ∧
      ((m.step p).access = .dataReady → (m.step p).lastReady = 1) := by
  obtain ⟨access, currentReady, lastReady, bassPrev, audioIn, bStage, tStage, res⟩ := m
  cases access with
  | dataReady => exact absurd rfl hbusy
  | outRight => exact ⟨hready, fun _ ↦ hready⟩
  | _ => exact ⟨hready, fun haccess ↦ Equaliser.Access.noConfusion haccess⟩

/-- Up to the next poll the program rests or works. -/
theorem LastPoll.rests_or_works {v : ℕ} (h : LastPoll s ev t v) :
    ¬ Triggers s ev v ∧ Rests s ev v t ∨ Triggers s ev v ∧ Works s ev t := by
  obtain ⟨hlt, hpolls, hnone⟩ := h
  induction t, hlt using Nat.le_induction with
  | base =>
    obtain ⟨switches, hev, hmain⟩ := main_access (s := s) hpolls.1
    have hready := ready_ports (s := released s ev v) switches
    change _ = if flag s ev v then 1 else 0 at hready
    cases htriggers : (released s ev v).main.triggers ((released s ev v).ports switches) with
    | true =>
      refine .inr ⟨⟨switches, hev, htriggers⟩, ?_⟩
      rw [Works, hmain, Equaliser.Main.step_of_triggers htriggers]
      refine ⟨?_, fun haccess ↦ Equaliser.Access.noConfusion haccess⟩
      rw [Equaliser.Main.triggers, Bool.and_eq_true, Bool.and_eq_true] at htriggers
      exact beq_iff_eq.mp htriggers.2.1
    | false =>
      refine .inl ⟨?_, ?_⟩
      · rintro ⟨switches', hev', htriggers'⟩
        rw [hev] at hev'
        cases hev'
        rw [htriggers] at htriggers'
        exact Bool.noConfusion htriggers'
      · rw [Rests, hmain, Equaliser.Main.step_of_poll hpolls.2 htriggers]
        exact ⟨hpolls.2, hready⟩
  | succ t hvt ih =>
    have hpoll := hnone t hvt (Nat.lt_succ_self t)
    have hbefore := ih fun w hvw hwt ↦ hnone w hvw (Nat.lt_succ_of_lt hwt)
    cases haudio : (ev t).isAudioClock with
    | true =>
      rw [Rests, Works, main_audioClock haudio]
      exact hbefore
    | false =>
      obtain ⟨switches, -, hmain⟩ := main_access (s := s) haudio
      rcases hbefore with ⟨-, hrests⟩ | ⟨htriggers, hready, -⟩
      · exact absurd ⟨haudio, hrests.1⟩ hpoll
      · refine .inr ⟨htriggers, ?_⟩
        rw [Works, hmain]
        have hbusy : (released s ev t).main.access ≠ .dataReady := fun haccess ↦
          hpoll ⟨haudio, haccess⟩
        exact step_works hready hbusy

end Last

/-- The flag is low before the first frame opens. -/
theorem flag_before (s : State) {ev : ℕ → Event} {t : ℕ} (ht : edges ev t < 12) :
    flag s ev t = false := by
  rw [flag, controller_released, AdcDac.State.dataReadyFlag, AdcDac.released_internalLRSelect]
  exact decide_eq_false (by omega)

/-- A poll that sees a rise sees the flag high, where the program has seen it low. -/
theorem Triggers.flag_eq_true {s : State} {ev : ℕ → Event} {t : ℕ} (h : Triggers s ev t) :
    flag s ev t = true ∧ (released s ev t).main.lastReady = 0 := by
  have hpolls := h.polls
  obtain ⟨switches, -, htriggers⟩ := h
  rw [triggers_of_poll switches hpolls.2, Bool.and_eq_true, beq_iff_eq] at htriggers
  exact htriggers

/-- Each time from the opening of the first frame on lies in a frame. -/
theorem exists_inFrame {ev : ℕ → Event} {t : ℕ} (ht : 12 ≤ edges ev t) : ∃ n, InFrame ev n t := by
  refine ⟨(edges ev t - 12) / 384, ?_⟩
  rw [InFrame]
  omega

/-- Before the first frame opens the program keeps waiting. -/
theorem waiting_before {s : State} {ev : ℕ → Event} {bassPrev : Int32}
    (hstart : Waiting bassPrev s.main) {t : ℕ} (ht : edges ev t ≤ 11) :
    Waiting bassPrev (released s ev t).main := by
  induction t with
  | zero => exact hstart
  | succ t ih =>
    have hmono := edges_mono ev (Nat.le_succ t)
    have hwaiting := ih (hmono.trans ht)
    rw [released_succ]
    cases hev : ev t with
    | audioClock adcData => exact hwaiting
    | access switches =>
      exact hwaiting.access_low switches (flag_before s (Nat.lt_succ_of_le (hmono.trans ht)))

section Paced

variable {s : State} {ev : ℕ → Event} {idle busy : ℕ} (hpaced : Paced s ev idle busy)

include hpaced

theorem Paced.first_le {t : ℕ} (hnone : ∀ v < t, ¬ Polls s ev v) : edges ev t ≤ idle := by
  obtain ⟨u, hpolls, hidle⟩ := hpaced.first
  have htu : t ≤ u := Nat.not_lt.mp fun hlt ↦ hnone u hlt hpolls
  exact (edges_mono ev htu).trans hidle

/-- A poll sees a rise only at the start of a frame. -/
theorem Paced.triggers_early {n t : ℕ} (hin : InFrame ev n t) (htriggers : Triggers s ev t) :
    edges ev t ≤ 384 * n + 11 + idle := by
  obtain ⟨hhigh, hlast⟩ := htriggers.flag_eq_true
  rcases exists_lastPoll s ev t with hnone | ⟨v, hv⟩
  · have hfirst := hpaced.first_le hnone
    omega
  · rcases hv.rests_or_works with ⟨hidle, -, hready⟩ | ⟨-, -, hready⟩
    · obtain ⟨u, hvu, hpolls, hgap⟩ := hpaced.rests v hv.polls hidle
      have htu : t ≤ u := Nat.not_lt.mp fun hlt ↦ hv.none u hvu hlt hpolls
      have hmono := edges_mono ev htu
      have hmono' := edges_mono ev hv.lt.le
      -- the last poll saw the flag low, so it came before this frame
      have hbefore : edges ev v < 384 * n + 12 := by
        by_contra hin'
        rw [flag_eq s hin, decide_eq_true_eq] at hhigh
        have hv' : flag s ev v = true := by
          rw [flag_eq s (n := n) ⟨Nat.not_lt.mp hin', by omega⟩]
          exact decide_eq_true (by omega)
        rw [hlast, hv', if_pos rfl] at hready
        exact absurd hready (by decide)
      omega
    · rw [hready htriggers.polls.2] at hlast
      exact absurd hlast (by decide)

/-- After any edge of the audio clock there is a poll soon, or the work on a frame is in between. -/
theorem Paced.exists_poll (hbusy : idle + busy ≤ 372) (k : ℕ) :
    ∃ u, Polls s ev u ∧ k < edges ev u ∧
      (edges ev u ≤ k + idle ∨ ∃ n, 384 * n + 12 ≤ k ∧ edges ev u ≤ latchEdge n) := by
  have hclock := isAudioClock_edgeTime hpaced.unbounded k
  have hedges := edges_edgeTime hpaced.unbounded k
  set t := edgeTime ev k
  have hnext := edges_succ_audioClock ev hclock
  -- the first poll after the edge, from the last one before it
  suffices hsoon : ∃ u ≥ t, Polls s ev u ∧
      (edges ev u ≤ k + idle ∨ ∃ n, 384 * n + 12 ≤ k ∧ edges ev u ≤ latchEdge n) by
    obtain ⟨u, htu, hpolls, hbound⟩ := hsoon
    have hne : t ≠ u := by
      rintro rfl
      exact Bool.noConfusion (hclock.symm.trans hpolls.1)
    have hmono : edges ev (t + 1) ≤ edges ev u := edges_mono ev (Nat.lt_of_le_of_ne htu hne)
    exact ⟨u, hpolls, by omega, hbound⟩
  rcases exists_lastPoll s ev t with hnone | ⟨v, hv⟩
  · obtain ⟨u, hpolls, hidle⟩ := hpaced.first
    exact ⟨u, Nat.not_lt.mp fun hlt ↦ hnone u hlt hpolls, hpolls, .inl (by omega)⟩
  · have hmono := edges_mono ev hv.lt.le
    by_cases htriggers : Triggers s ev v
    · obtain ⟨u, hvu, hpolls, hgap⟩ := hpaced.works v htriggers
      have hopen : 12 ≤ edges ev v := by
        by_contra hbefore
        have hhigh := htriggers.flag_eq_true.1
        rw [flag_before s (Nat.not_le.mp hbefore)] at hhigh
        exact Bool.noConfusion hhigh
      obtain ⟨n, hin⟩ := exists_inFrame hopen
      have hearly := hpaced.triggers_early hin htriggers
      have hlow := hin.1
      exact ⟨u, Nat.not_lt.mp fun hlt ↦ hv.none u hvu hlt hpolls, hpolls,
        .inr ⟨n, by omega, by rw [latchEdge]; omega⟩⟩
    · obtain ⟨u, hvu, hpolls, hgap⟩ := hpaced.rests v hv.polls htriggers
      exact ⟨u, Nat.not_lt.mp fun hlt ↦ hv.none u hvu hlt hpolls, hpolls, .inl (by omega)⟩

/-- A program that is fast enough keeps up with the frames: the time between two idle polls is at
most half a frame, and with the work on a frame it ends before the words are latched. -/
theorem Paced.timely {bassPrev : Int32} (hstart : Waiting bassPrev s.main) (hidle : idle ≤ 192)
    (hbusy : idle + busy ≤ 372) : Timely s ev bassPrev where
  start t hedges _ := waiting_before hstart hedges.le
  high n := by
    obtain ⟨u, hpolls, hafter, hbound⟩ := hpaced.exists_poll hbusy (384 * n + 11)
    have hlow : edges ev u < 384 * n + 204 := by
      rcases hbound with hsoon | ⟨n', hn', hlatch⟩
      · omega
      · rw [latchEdge] at hlatch
        omega
    have hin : InFrame ev n u := ⟨hafter, by omega⟩
    refine ⟨u, hin, ?_, hpolls⟩
    rw [flag_eq s hin]
    exact decide_eq_true hlow
  low n := by
    obtain ⟨u, hpolls, hafter, hbound⟩ := hpaced.exists_poll hbusy (384 * n + 203)
    have hlow : edges ev u < 384 * n + 396 := by
      rcases hbound with hsoon | ⟨n', hn', hlatch⟩
      · omega
      · rw [latchEdge] at hlatch
        omega
    have hin : InFrame ev n u := ⟨by omega, hlow⟩
    refine ⟨u, hin, ?_, hpolls⟩
    rw [flag_eq s hin]
    exact decide_eq_false (by omega)
  finishes n t hin htriggers := by
    obtain ⟨u, htu, hpolls, hgap⟩ := hpaced.works t htriggers
    have hearly := hpaced.triggers_early hin htriggers
    exact ⟨u, htu, by rw [latchEdge]; omega, hpolls.2⟩

end Paced

end AudioProcessor.AudioPath
