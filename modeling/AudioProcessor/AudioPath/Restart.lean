import AudioProcessor.AdcDac.Handshake
import AudioProcessor.AudioPath.Frame

/-!
# What a reset leaves behind

The audio path with the switch `dataSelect` in any position, from a reset of the controller on, with
which the program starts over. The two bridge registers that show the received words to the NIOS
have no reset. They are loaded at the end of the first frame, and up to then they show what was there
before the reset. So two runs after a reset, under the same events, agree in everything but these
two registers as long as the program does not read one of them in the first frame (`alike_restarted`),
and that is up to the times of its accesses (`erases_iff`).
-/

set_option autoImplicit false
set_option relaxedAutoImplicit false

namespace AudioProcessor.AudioPath

open AdcDac (latchEdge)
open Equaliser (Main Ports Frame iowr)

/-- A reset of the controller, with which the program starts over. -/
def State.restart (s : State) : State where
  controller := s.controller.asyncReset
  main := .start
  outLeft := 0
  outRight := 0

/-- The system from such a reset on: the state before each event. -/
def restarted (s : State) (select : ℕ → Bool) (ev : ℕ → Event) : ℕ → State :=
  Clocked.run (fun i ↦ selectStep i.1 i.2) s.restart fun t ↦ (select t, ev t)

/-- Every register at power-up: those without an initial value are low. -/
def State.powerUp : State where
  controller := ⟨false, 0, false, false, 0, 0, 0, 0, 0, 0, 0, 0, 0, false, 0⟩
  main := .start
  outLeft := 0
  outRight := 0

/-- The states there can be before a reset. -/
inductive Reachable : State → Prop
  | powerUp : Reachable .powerUp
  | event (dataSelect : Bool) (e : Event) {s : State} (h : Reachable s) :
    Reachable (selectStep dataSelect e s)
  | restart {s : State} (h : Reachable s) : Reachable s.restart

/-- The words are exchanged at time `t`: an edge of the audio clock at which the bit clock falls and
finds the slot counter at its end. -/
def Latches (s : State) (select : ℕ → Bool) (ev : ℕ → Event) (t : ℕ) : Prop :=
  (ev t).isAudioClock = true ∧ (restarted s select ev t).controller.internalBitClock = true ∧
    (restarted s select ev (t + 1)).controller.internalBitClock = false ∧
    (restarted s select ev t).controller.lrCounter = 31

/-- After a reset the runs from two states show the same at every pin and output PIO, and each sample
the program reads was put into the bridge register after the reset. -/
def Erases (s s' : State) (select : ℕ → Bool) (ev : ℕ → Event) : Prop :=
  (∀ t, (restarted s select ev t).controller.internalBitClock =
        (restarted s' select ev t).controller.internalBitClock ∧
      (restarted s select ev t).controller.dacLRSelect =
        (restarted s' select ev t).controller.dacLRSelect ∧
      (restarted s select ev t).controller.dacData =
        (restarted s' select ev t).controller.dacData ∧
      (restarted s select ev t).outLeft = (restarted s' select ev t).outLeft ∧
      (restarted s select ev t).outRight = (restarted s' select ev t).outRight) ∧
    ∀ t, (ev t).isAudioClock = false → (restarted s select ev t).main.access = .inLeft →
      ∃ u < t, Latches s select ev u

/-- In the first frame there is an access while the ready flag is high and another one after it. -/
def ReadsEarly (ev : ℕ → Event) : Prop :=
  ∃ t u, t < u ∧ (ev t).isAudioClock = false ∧ (ev u).isAudioClock = false ∧
    12 ≤ edges ev t ∧ edges ev t < 204 ∧ edges ev u < 384

/-! ### The controller -/

section Controller

variable (s : State) (select : ℕ → Bool) (ev : ℕ → Event)

/-- What the controller reads at its edges. -/
noncomputable def restartedInputs (k : ℕ) : AdcDac.Inputs where
  dataSelect := select (edgeTime ev k)
  adcData := (ev (edgeTime ev k)).adcData
  audioFromNiosLeft := (restarted s select ev (edgeTime ev k)).outLeft
  audioFromNiosRight := (restarted s select ev (edgeTime ev k)).outRight

theorem restarted_succ (t : ℕ) :
    restarted s select ev (t + 1) = selectStep (select t) (ev t) (restarted s select ev t) := rfl

/-- Seen at its own edges the controller runs on its own. -/
theorem controller_restarted (t : ℕ) : (restarted s select ev t).controller =
    AdcDac.released s.controller (restartedInputs s select ev) (edges ev t) := by
  refine Clocked.component_run State.controller (AdcDac.step true)
    (fun t ↦ ⟨select t, (ev t).adcData, (restarted s select ev t).outLeft,
      (restarted s select ev t).outRight⟩)
    (fun t ↦ (ev t).isAudioClock = true) (fun t ht ↦ ?_) (fun t ht ↦ ?_) t
  · exact (selectStep_controller _ _ _).trans (if_pos ht)
  · exact (selectStep_controller _ _ _).trans (if_neg ht)

/-- The ready flag is high in the sixteen bit periods of a left slot. -/
theorem restarted_dataReadyFlag (t : ℕ) : (restarted s select ev t).controller.dataReadyFlag =
    decide (12 ≤ edges ev t % 384 ∧ edges ev t % 384 < 204) := by
  rw [controller_restarted, AdcDac.released_dataReadyFlag]

/-- An edge of the audio clock exchanges the words at the end of a frame. -/
theorem restarted_bridge {t : ℕ} (ht : (ev t).isAudioClock = true) :
    (restarted s select ev (t + 1)).controller.bridge =
      if edges ev t % 384 = 383 then
        (restarted s select ev t).controller.exchanged
          ⟨select t, (ev t).adcData, (restarted s select ev t).outLeft,
            (restarted s select ev t).outRight⟩
      else (restarted s select ev t).controller.bridge := by
  rw [controller_restarted, edges_succ_audioClock ev ht, AdcDac.released_bridge,
    ← controller_restarted, restartedInputs, edgeTime_edges ev ht]

/-- The exchange is at the last edge of the frames. -/
theorem latches_iff (t : ℕ) : Latches s select ev t ↔
    (ev t).isAudioClock = true ∧ ∃ n, edges ev t = latchEdge n := by
  refine and_congr_right fun ht ↦ ?_
  rw [controller_restarted, controller_restarted, edges_succ_audioClock ev ht]
  exact AdcDac.falls_last_iff s.controller (restartedInputs s select ev) (edges ev t)

/-- While there are only edges of the audio clock the program rests. -/
theorem restarted_of_audioClock {t n : ℕ} (hclock : ∀ j < n, (ev (t + j)).isAudioClock = true) :
    edges ev (t + n) = edges ev t + n ∧
      (restarted s select ev (t + n)).main = (restarted s select ev t).main ∧
      (restarted s select ev (t + n)).outLeft = (restarted s select ev t).outLeft ∧
      (restarted s select ev (t + n)).outRight = (restarted s select ev t).outRight := by
  induction n with
  | zero => exact ⟨rfl, rfl, rfl, rfl⟩
  | succ n ih =>
    obtain ⟨hedges, hmain, hleft, hright⟩ := ih fun j hj ↦ hclock j (Nat.lt_succ_of_lt hj)
    have hlast := hclock n (Nat.lt_succ_self n)
    rw [← Nat.add_assoc, edges_succ_audioClock ev hlast, hedges, restarted_succ, ← hmain, ← hleft,
      ← hright]
    cases hev : ev (t + n) with
    | audioClock adcData => exact ⟨rfl, rfl, rfl, rfl⟩
    | access switches =>
      rw [hev] at hlast
      exact Bool.noConfusion hlast

end Controller

/-! ### The first frames -/

/-- While there are only accesses no edge of the audio clock passes. -/
theorem restarted_accesses (s : State) (select : ℕ → Bool) (ev : ℕ → Event) {t n : ℕ}
    (switches : Switches) (haccess : ∀ j < n, ev (t + j) = .access switches) :
    edges ev (t + n) = edges ev t ∧
      restarted s select ev (t + n) = (step (.access switches))^[n] (restarted s select ev t) := by
  induction n with
  | zero => exact ⟨rfl, rfl⟩
  | succ n ih =>
    obtain ⟨hedges, hsteps⟩ := ih fun j hj ↦ haccess j (Nat.lt_succ_of_lt hj)
    have hlast := haccess n (Nat.lt_succ_self n)
    rw [← Nat.add_assoc, edges_succ_rest ev (by rw [hlast]; rfl), hedges, restarted_succ, hlast,
      Function.iterate_succ_apply', hsteps]
    exact ⟨rfl, rfl⟩

/-- From its beginning, with the flag high, the program has written the left word of a frame after
five accesses and not yet the right one. -/
theorem five_accesses {s : State} (hmain : s.main = .start)
    (hflag : s.controller.dataReadyFlag = true) (switches : Switches) (f : Frame)
    (hframe : f = ⟨s.controller.audioToNiosLeft, switches.bass, switches.treble⟩) :
    (step (.access switches))^[5] s =
      { s with
        main := ⟨.outRight, 1, 0, (f.body 0).bassPrev, (f.ports 1).sample,
          Equaliser.stage f.bassStageSwitch, Equaliser.stage f.trebleStageSwitch,
          (f.body 0).limited⟩
        outLeft := iowr (f.body 0).limited } := by
  obtain ⟨controller, main, outLeft, outRight⟩ := s
  obtain ⟨bass, treble⟩ := switches
  subst hmain hframe
  have hready :
      (State.ports ⟨bass, treble⟩ ⟨controller, Main.start, outLeft, outRight⟩).ready = 1 := by
    rw [ready_ports, hflag]
    rfl
  have htriggers : Main.start.triggers
      (State.ports ⟨bass, treble⟩ ⟨controller, Main.start, outLeft, outRight⟩) = true := by
    rw [Main.triggers, hready]
    rfl
  rw [Function.iterate_succ_apply, step_access_of_poll _ rfl, Main.step_of_triggers htriggers,
    hready]
  rfl

/-- After a first frame of ones the left bridge register shows ones. -/
theorem audioToNiosLeft_ones (s : State) (select : ℕ → Bool) (ev : ℕ → Event)
    (hones : ∀ t < 384, ev t = .audioClock true) {t : ℕ} (hlow : 384 ≤ edges ev t)
    (hhigh : edges ev t < 768) :
    (restarted s select ev t).controller.audioToNiosLeft = BitVec.allOnes 16 := by
  have hbits (k : ℕ) (hk : k < 384) : (restartedInputs s select ev k).adcData = true := by
    have hedges := (restarted_of_audioClock s select ev (t := 0) (n := 384) fun j hj ↦ by
      rw [Nat.zero_add, hones j hj]
      rfl).1
    rw [Nat.zero_add, edges_zero, Nat.zero_add] at hedges
    obtain ⟨u, hu, hclock, rfl⟩ := exists_edge ev (hk.trans_eq hedges.symm)
    rw [restartedInputs, edgeTime_edges ev hclock, hones u hu]
    rfl
  have hword := (AdcDac.released_audioToNios s.controller (restartedInputs s select ev) 0).1
  rw [AdcDac.audioToNiosLeft_between _ _ 1 (by omega) (by omega)] at hword
  rw [controller_restarted, AdcDac.audioToNiosLeft_between _ _ 1 (by omega) (by omega), hword,
    show 32 * 0 + 31 + 1 = 32 * 0 + 17 + 15 from rfl,
    AdcDac.bitRun_left_rests _ _ 0 (Nat.le_refl 15),
    show 32 * 0 + 17 = 32 * 0 + 1 + 16 from rfl, AdcDac.bitRun_left_slot _ _ 0 (Nat.le_refl 16)]
  refine BitVec.eq_of_getLsbD_eq fun i hi ↦ ?_
  rw [Serial.getLsbD_run_shiftIn _ _ _ _ hi, if_pos hi, hbits _ (by omega), BitVec.getLsbD_allOnes,
    decide_eq_true hi]

/-! ### Two runs -/

/-- The two states are the same up to the two bridge registers. -/
structure Alike (s s' : State) : Prop where
  controller : s.controller.core = s'.controller.core
  main : s.main = s'.main
  outLeft : s.outLeft = s'.outLeft
  outRight : s.outRight = s'.outRight

/-- Only the read of the left input port looks at it. -/
theorem step_of_access_ne {m : Main} (hm : m.access ≠ .inLeft) (p : Ports) (word : BitVec 16) :
    m.step { p with inLeft := word } = m.step p := by
  obtain ⟨access, currentReady, lastReady, bassPrev, audioIn, bStage, tStage, res⟩ := m
  cases access with
  | inLeft => exact absurd rfl hm
  | _ => rfl

section Alike

variable {s s' : State}

theorem Alike.audioClock (h : Alike s s') (dataSelect adcData : Bool) :
    Alike (selectStep dataSelect (.audioClock adcData) s)
      (selectStep dataSelect (.audioClock adcData) s') := by
  refine ⟨?_, h.main, h.outLeft, h.outRight⟩
  change (s.controller.audioClockEdge ⟨dataSelect, adcData, s.outLeft, s.outRight⟩).core =
    (s'.controller.audioClockEdge ⟨dataSelect, adcData, s'.outLeft, s'.outRight⟩).core
  rw [← AdcDac.State.core_audioClockEdge, h.controller, h.outLeft, h.outRight,
    AdcDac.State.core_audioClockEdge]

theorem Alike.access (h : Alike s s') (switches : Switches)
    (hleft : s.main.access = .inLeft →
      s.controller.audioToNiosLeft = s'.controller.audioToNiosLeft) :
    Alike (step (.access switches) s) (step (.access switches) s') := by
  have hports : s'.ports switches =
      { s.ports switches with inLeft := s'.controller.audioToNiosLeft } := by
    have hflag : s.controller.dataReadyFlag = s'.controller.dataReadyFlag := by
      change s.controller.core.dataReadyFlag = s'.controller.core.dataReadyFlag
      rw [h.controller]
    rw [State.ports, State.ports, hflag]
  have hmain : s.main.step (s.ports switches) = s'.main.step (s'.ports switches) := by
    rw [hports, ← h.main]
    by_cases haccess : s.main.access = .inLeft
    · rw [← hleft haccess]
      rfl
    · exact (step_of_access_ne haccess _ _).symm
  have hcontroller : (step (.access switches) s).controller.core =
      (step (.access switches) s').controller.core := by
    rw [step_access_controller, step_access_controller, h.controller]
  have hwrite : (s.write s.main.write).outLeft = (s'.write s'.main.write).outLeft ∧
      (s.write s.main.write).outRight = (s'.write s'.main.write).outRight := by
    rw [← h.main]
    cases s.main.write with
    | none => exact ⟨h.outLeft, h.outRight⟩
    | some write =>
      obtain ⟨output, word⟩ := write
      cases output with
      | outLeft => exact ⟨rfl, h.outRight⟩
      | outRight => exact ⟨h.outLeft, rfl⟩
  exact ⟨hcontroller, hmain, hwrite.1, hwrite.2⟩

end Alike

section Runs

variable {s s' : State} {select : ℕ → Bool} {ev : ℕ → Event}

/-- A read of the left port comes after a poll that saw the flag high. -/
theorem exists_high_poll {t : ℕ} (ht : (restarted s select ev t).main.access = .inLeft) :
    ∃ u < t, (ev u).isAudioClock = false ∧ 12 ≤ edges ev u % 384 ∧ edges ev u % 384 < 204 := by
  induction t with
  | zero =>
    have hstart : Equaliser.Access.dataReady = .inLeft := ht
    exact Equaliser.Access.noConfusion hstart
  | succ t ih =>
    rw [restarted_succ] at ht
    cases hev : ev t with
    | audioClock adcData =>
      rw [hev] at ht
      obtain ⟨u, hu, hpoll⟩ := ih ht
      exact ⟨u, Nat.lt_succ_of_lt hu, hpoll⟩
    | access switches =>
      rw [hev] at ht
      have htriggers := Main.triggers_of_step ht
      have hpoll : (restarted s select ev t).main.access = .dataReady := by
        rw [Main.triggers, Bool.and_eq_true, beq_iff_eq] at htriggers
        exact htriggers.1
      rw [triggers_of_poll switches hpoll, Bool.and_eq_true, restarted_dataReadyFlag,
        decide_eq_true_eq] at htriggers
      exact ⟨t, Nat.lt_succ_self t, by rw [hev]; rfl, htriggers.1⟩

/-- If there is no early read, a sample is read after an exchange of words. -/
theorem exchanged_of_not_readsEarly (hearly : ¬ ReadsEarly ev) {t : ℕ}
    (ht : (ev t).isAudioClock = false) (haccess : (restarted s select ev t).main.access = .inLeft) :
    384 ≤ edges ev t := by
  by_contra hfirst
  obtain ⟨u, hu, hpoll, hlow, hhigh⟩ := exists_high_poll haccess
  have hmono := edges_mono ev (Nat.le_of_lt hu)
  exact hearly ⟨u, t, hu, hpoll, ht, by omega, by omega, by omega⟩

theorem alike_restarted (hearly : ¬ ReadsEarly ev) (t : ℕ) :
    Alike (restarted s select ev t) (restarted s' select ev t) ∧
      (384 ≤ edges ev t → (restarted s select ev t).controller.audioToNiosLeft =
        (restarted s' select ev t).controller.audioToNiosLeft) := by
  induction t with
  | zero =>
    refine ⟨⟨rfl, rfl, rfl, rfl⟩, fun hfirst ↦ ?_⟩
    rw [edges_zero] at hfirst
    omega
  | succ t ih =>
    obtain ⟨halike, hbridge⟩ := ih
    cases hev : ev t with
    | audioClock adcData =>
      have hclock : (ev t).isAudioClock = true := by rw [hev]; rfl
      refine ⟨?_, fun hexchanged ↦ ?_⟩
      · rw [restarted_succ, restarted_succ, hev]
        exact halike.audioClock _ _
      · have hcore (s : State) := congrArg AdcDac.Bridge.toNiosLeft
          (restarted_bridge s select ev hclock)
        change (restarted s select ev (t + 1)).controller.bridge.toNiosLeft =
          (restarted s' select ev (t + 1)).controller.bridge.toNiosLeft
        rw [hcore, hcore]
        rw [edges_succ_audioClock ev hclock] at hexchanged
        split_ifs with hlast
        · change (restarted s select ev t).controller.core.adcDataLeftChannelRegister =
            (restarted s' select ev t).controller.core.adcDataLeftChannelRegister
          rw [halike.controller]
        · exact hbridge (by omega)
    | access switches =>
      have haccess : (ev t).isAudioClock = false := by rw [hev]; rfl
      rw [edges_succ_rest ev haccess, restarted_succ, restarted_succ, hev]
      refine ⟨halike.access switches fun hread ↦
        hbridge (exchanged_of_not_readsEarly hearly haccess hread), fun hexchanged ↦ ?_⟩
      change (step (.access switches) (restarted s select ev t)).controller.audioToNiosLeft =
        (step (.access switches) (restarted s' select ev t)).controller.audioToNiosLeft
      rw [step_access_controller, step_access_controller]
      exact hbridge hexchanged

section Reads

variable (hnone : ∀ t, (ev t).isAudioClock = false → edges ev t < 384 →
  (restarted s select ev t).main.access ≠ .inLeft)

include hnone

/-- If it does not read in the first frame, the program still polls while the flag is high, or is
about to read. -/
theorem waiting_or_reading {t : ℕ} (ht : edges ev t < 204) :
    Waiting 0 (restarted s select ev t).main ∨
      (restarted s select ev t).main.access = .inLeft := by
  induction t with
  | zero => exact .inl ⟨rfl, rfl, rfl⟩
  | succ t ih =>
    have hmono : edges ev t ≤ edges ev (t + 1) := edges_mono ev (Nat.le_succ t)
    rw [restarted_succ]
    cases hev : ev t with
    | audioClock adcData => exact ih (hmono.trans_lt ht)
    | access switches =>
      have haccess : (ev t).isAudioClock = false := by rw [hev]; rfl
      rcases ih (hmono.trans_lt ht) with hwaiting | hreading
      · cases hflag : (restarted s select ev t).controller.dataReadyFlag with
        | false => exact .inl (hwaiting.access_low switches hflag)
        | true =>
          have htriggers := (hwaiting.access_high (f := ⟨0, 0, 0⟩) switches hflag).1
          refine .inr ?_
          change ((restarted s select ev t).main.step _).access = .inLeft
          rw [Main.step_of_triggers htriggers]
      · exact absurd hreading (hnone t haccess (by omega))

/-- After an access while the flag is high it stays about to read. -/
theorem reading_of_high {t u : ℕ} (haccess : (ev t).isAudioClock = false) (hlow : 12 ≤ edges ev t)
    (hhigh : edges ev t < 204) (htu : t < u) (hu : edges ev u < 384) :
    (restarted s select ev u).main.access = .inLeft := by
  induction u, htu using Nat.le_induction with
  | base =>
    cases hev : ev t with
    | audioClock adcData =>
      rw [hev] at haccess
      exact Bool.noConfusion haccess
    | access switches =>
      rcases waiting_or_reading hnone hhigh with hwaiting | hreading
      · have hflag : (restarted s select ev t).controller.dataReadyFlag = true := by
          rw [restarted_dataReadyFlag]
          exact decide_eq_true (by omega)
        have htriggers := (hwaiting.access_high (f := ⟨0, 0, 0⟩) switches hflag).1
        rw [Nat.succ_eq_add_one, restarted_succ, hev]
        change ((restarted s select ev t).main.step _).access = .inLeft
        rw [Main.step_of_triggers htriggers]
      · exact absurd hreading (hnone t haccess (by omega))
  | succ u htu ih =>
    have hmono := edges_mono ev (Nat.le_succ u)
    have hreading := ih (hmono.trans_lt hu)
    rw [restarted_succ]
    cases hev : ev u with
    | audioClock adcData => exact hreading
    | access switches =>
      exact absurd hreading (hnone u (by rw [hev]; rfl) (hmono.trans_lt hu))

end Reads

end Runs

/-- After a reset the two runs show the same, and the program reads nothing from before the reset,
exactly when it does not read the left port in the first frame, which depends on the times of its
accesses alone. -/
theorem erases_iff (s s' : State) (select : ℕ → Bool) (ev : ℕ → Event) :
    Erases s s' select ev ↔ ¬ ReadsEarly ev := by
  constructor
  · rintro ⟨-, hcaptured⟩ ⟨t, u, htu, ht, hu, hlow, hhigh, hfirst⟩
    have hnone : ∀ t, (ev t).isAudioClock = false → edges ev t < 384 →
        (restarted s select ev t).main.access ≠ .inLeft := by
      intro t ht hedges hread
      obtain ⟨u, hu, hlatches⟩ := hcaptured t ht hread
      obtain ⟨hclock, n, hn⟩ := (latches_iff s select ev u).mp hlatches
      have hmono : edges ev (u + 1) ≤ edges ev t := edges_mono ev hu
      rw [edges_succ_audioClock ev hclock, hn, latchEdge] at hmono
      omega
    exact hnone u hu hfirst (reading_of_high hnone ht hlow hhigh htu hfirst)
  · intro hearly
    refine ⟨fun t ↦ ?_, fun t ht hread ↦ ?_⟩
    · have halike : Alike (restarted s select ev t) (restarted s' select ev t) :=
        (alike_restarted hearly t).1
      have hcore (register : AdcDac.State → Bool) := congrArg register halike.controller
      exact ⟨hcore AdcDac.State.internalBitClock, hcore AdcDac.State.dacLRSelect,
        hcore AdcDac.State.dacData, halike.outLeft, halike.outRight⟩
    · obtain ⟨u, hu, hclock, hedge⟩ := exists_edge ev (exchanged_of_not_readsEarly hearly ht hread)
      exact ⟨u, hu, (latches_iff s select ev u).mpr ⟨hclock, 0, hedge⟩⟩

theorem Reachable.restarted {s : State} (h : Reachable s) (select : ℕ → Bool) (ev : ℕ → Event)
    (t : ℕ) : Reachable (restarted s select ev t) := by
  induction t with
  | zero => exact h.restart
  | succ t ih => exact ih.event _ _

/-- A frame of ones before the reset shows in the word the program writes in the first frame after
it. -/
theorem not_erases : ¬ ∀ s s' : State, Reachable s → Reachable s' →
    ∀ select ev, Erases s s' select ev := by
  intro herases
  set ones : ℕ → Event := fun _ ↦ .audioClock true
  set ev : ℕ → Event := fun t ↦ if 1 ≤ t ∧ t < 13 then .audioClock false else .access ⟨0, 0⟩
  have hedges : edges ones 384 = 384 := by
    have h := (restarted_of_audioClock .powerUp (fun _ ↦ false) ones (t := 0) (n := 384)
      fun _ _ ↦ rfl).1
    rwa [Nat.zero_add, edges_zero, Nat.zero_add] at h
  have hword := audioToNiosLeft_ones .powerUp (fun _ ↦ false) ones (fun _ _ ↦ rfl) hedges.ge
    (by omega)
  have hout (s : State) : (restarted s (fun _ ↦ false) ev 18).outLeft =
      iowr ((⟨s.controller.audioToNiosLeft, 0, 0⟩ : Frame).body 0).limited := by
    obtain ⟨hedges, hmain, -, -⟩ := restarted_of_audioClock s (fun _ ↦ false) ev (t := 1) (n := 12)
      fun j hj ↦ by
        simp only [ev]
        rw [if_pos (by omega)]
        rfl
    have hfirst : edges ev 1 = 0 := rfl
    have hflag := restarted_dataReadyFlag s (fun _ ↦ false) ev 13
    have hleft := congrArg AdcDac.State.audioToNiosLeft
      (controller_restarted s (fun _ ↦ false) ev 13)
    rw [hedges, hfirst] at hflag hleft
    rw [AdcDac.audioToNiosLeft_between _ _ 0 (by omega) (by omega)] at hleft
    have hfive := (restarted_accesses s (fun _ ↦ false) ev (t := 13) (n := 5) ⟨0, 0⟩
      fun j hj ↦ by
        simp only [ev]
        rw [if_neg (by omega)]).2
    rw [five_accesses hmain hflag _ _ rfl, hleft] at hfive
    exact congrArg State.outLeft hfive
  have hsame := ((herases _ _ .powerUp (Reachable.powerUp.restarted (fun _ ↦ false) ones 384)
    (fun _ ↦ false) ev).1 18).2.2.2.1
  rw [hout, hout, hword] at hsame
  exact absurd hsame (by decide)

end AudioProcessor.AudioPath
