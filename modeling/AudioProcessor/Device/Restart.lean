import AudioProcessor.Codec.Settings
import AudioProcessor.Device.System
import AudioProcessor.TopLevel.StartDelay

/-!
# From every rise of the switch

The device from a rise of `SW(0)` on, in any reachable state. The control path and the start delay
see the edges of the 50 MHz clock alone (`top_raised`). After 2000000 of them the audio controller is
released, and from there on the board sees the edges of the audio clock and the instructions alone
(`board_raised`).

By then the slave on the bus has acknowledged the words of the table (`configured_raised`). If the
reset of the NIOS system has come through and 99 instructions have been executed since, the board
plays (`played_raised`).
-/

set_option autoImplicit false
set_option relaxedAutoImplicit false

namespace AudioProcessor.Codec

section Configured

variable (s : State) (signals : ℕ → Signals)

/-- With a slave that acknowledges everything the first pass is over before sample 797 of the lines.
From there on there is a word for every position from 3 on. -/
theorem holds_acknowledged {h : ℕ} (hh : 796 ≤ h) {pos : ℕ} (hlow : 3 ≤ pos) (hhigh : pos ≤ 10) :
    Holds pos (acknowledged s signals (fun _ ↦ true) h) := by
  have hvalid := Slow.valid_asyncReset s.slow
  have hjump := Slow.phase_asyncReset s.slow
  have hacked : s.slow.asyncReset.Acknowledged
      (tickInputs s.asyncReset signals (heldAnswers fun _ ↦ true)) := fun _ _ ↦ rfl
  obtain ⟨first, -, hstop, -⟩ := Slow.exists_firstPass hvalid hjump hacked
  obtain ⟨k, hk⟩ : ∃ k, h / 2 = 36 * (11 - first) + 2 + k := Nat.exists_eq_add_of_le (by omega)
  rw [acknowledged_eq, hk]
  refine Slow.holds_add hvalid hhigh ?_ k
  exact Slow.holds_of_done hvalid hjump hhigh _ (.inl hlow)
    (by rw [Slow.phase_of_stop hstop]; trivial)

end Configured

end AudioProcessor.Codec

namespace AudioProcessor.Device

open AdcDac (sent received)
open AudioPath (InFrame Switches Unbounded adcBits edges filtered frame sample)
open Board (Starts Within view)
open Clocked (tickTime tickTime_ticks ticks ticks_mono ticks_succ_active ticks_succ_rest ticks_zero)
open Codec (halfPeriod lastFor)
open Nios (Holds)
open Serial (msbFirst)
open TopLevel (DelayCounter released)
open Volume (Buttons)

/-! ### What the parts see -/

/-- The event is an edge of the 50 MHz clock. -/
def Event.isClock : Event → Bool
  | .clock .. => true
  | _ => false

/-- The buttons at an edge of the 50 MHz clock. -/
def Event.buttons : Event → Buttons
  | .clock buttons _ => buttons
  | _ => .idle

/-- The event is an instruction. -/
def Event.isInstruction : Event → Bool
  | .instruction .. => true
  | _ => false

/-- The event as one of the board. -/
def Event.onBoard : Event → Option Board.Event
  | .audioClock adcData => some (.audioClock adcData)
  | .instruction switches irq others => some (.instruction switches irq others)
  | _ => none

theorem Event.eq_clock {e : Event} (he : e.isClock = true) :
    ∃ pressed answer, e = .clock pressed answer := by
  cases e with
  | clock pressed answer => exact ⟨pressed, answer, rfl⟩
  | _ => exact Bool.noConfusion he

theorem Event.eq_instruction {e : Event} (he : e.isInstruction = true) :
    ∃ switches irq others, e = .instruction switches irq others := by
  cases e with
  | instruction switches irq others => exact ⟨switches, irq, others, rfl⟩
  | _ => exact Bool.noConfusion he

/-- How many edges of the 50 MHz clock there were before time `u`. -/
def clocks (ev : ℕ → Event) (u : ℕ) : ℕ := ticks (·.isClock = true) ev u

/-- How many instructions there were before time `u`. -/
def instructions (ev : ℕ → Event) (u : ℕ) : ℕ := ticks (·.isInstruction = true) ev u

/-- How many events of the board there were before time `u`. -/
def boardCount (ev : ℕ → Event) (u : ℕ) : ℕ := ticks (·.onBoard.isSome = true) ev u

/-- The buttons, edge by edge of the 50 MHz clock. -/
noncomputable def buttons (ev : ℕ → Event) (k : ℕ) : Buttons :=
  (ev (tickTime (·.isClock = true) ev k)).buttons

/-- The events of the board in an interleaving. -/
noncomputable def boardEvents (ev : ℕ → Event) (k : ℕ) : Board.Event :=
  (ev (tickTime (·.onBoard.isSome = true) ev k)).onBoard.getD (.audioClock false)

/-- The device from a rise of the switch on: the state before each event. -/
def raised (s : State) (ev : ℕ → Event) : ℕ → State := run (step (.sw0 true) s) ev

section Counts

variable {ev : ℕ → Event} {u : ℕ}

theorem clocks_succ (hu : (ev u).isClock = true) :
    clocks ev (u + 1) = clocks ev u + 1 ∧ buttons ev (clocks ev u) = (ev u).buttons :=
  ⟨ticks_succ_active hu, by rw [buttons, clocks, tickTime_ticks hu]⟩

theorem clocks_rest (hu : (ev u).isClock = false) : clocks ev (u + 1) = clocks ev u :=
  ticks_succ_rest (ne_true_of_eq_false hu)

theorem instructions_succ (hu : (ev u).isInstruction = true) :
    instructions ev (u + 1) = instructions ev u + 1 := ticks_succ_active hu

theorem instructions_rest (hu : (ev u).isInstruction = false) :
    instructions ev (u + 1) = instructions ev u := ticks_succ_rest (ne_true_of_eq_false hu)

theorem boardCount_succ {e : Board.Event} (hu : (ev u).onBoard = some e) :
    boardCount ev (u + 1) = boardCount ev u + 1 ∧ boardEvents ev (boardCount ev u) = e := by
  have hsome : (ev u).onBoard.isSome = true := by rw [hu]; rfl
  refine ⟨ticks_succ_active hsome, ?_⟩
  rw [boardEvents, boardCount, tickTime_ticks hsome, hu]
  rfl

theorem boardCount_rest (hu : (ev u).onBoard = none) : boardCount ev (u + 1) = boardCount ev u :=
  ticks_succ_rest (by rw [hu]; exact Bool.false_ne_true)

end Counts

/-! ### The control path and the start delay -/

/-- With the switch high only the 50 MHz clock changes what is behind it. -/
theorem top_step_rest {e : Event} {s : State} (hhigh : s.top.sw0 = true) (hstays : e ≠ .sw0 false)
    (hrest : e.isClock = false) : (step e s).top = s.top := by
  cases e with
  | sw0 level =>
    cases level with
    | false => exact absurd rfl hstays
    | true => rw [step, hold_top, TopLevel.step, if_pos rfl, ← hhigh]
  | clock => exact Bool.noConfusion hrest
  | audioClock adcData =>
    rw [step]
    split_ifs <;> rfl
  | niosReset => rfl
  | instruction => rfl

section Raised

variable {s : State} (hreach : Reachable s) (hlow : s.top.sw0 = false) {ev : ℕ → Event}
  (hstays : ∀ u, ev u ≠ .sw0 false)

theorem sound_raised (hreach : Reachable s) (ev : ℕ → Event) (u : ℕ) : Sound (raised s ev u) :=
  Clocked.invariant_run (hreach.sound.step (.sw0 true)) (fun e _ h ↦ h.step e) u

theorem raised_succ (s : State) (ev : ℕ → Event) (u : ℕ) :
    raised s ev (u + 1) = step (ev u) (raised s ev u) := rfl

theorem top_raised_zero (s : State) (ev : ℕ → Event) :
    (raised s ev 0).top = { s.top with sw0 := true } := hold_top _

include hreach hlow hstays

/-- The switch stays high, and the start delay counts the edges. -/
theorem delay_raised (u : ℕ) : (raised s ev u).top.sw0 = true ∧
    (raised s ev u).top.delay = .after (clocks ev u) := by
  induction u with
  | zero =>
    rw [top_raised_zero, clocks, ticks_zero]
    exact ⟨rfl, (hreach.sound.low hlow).2⟩
  | succ u ih =>
    cases hkind : (ev u).isClock with
    | false =>
      rw [clocks_rest hkind, raised_succ, top_step_rest ih.1 (hstays u) hkind]
      exact ih
    | true =>
      obtain ⟨hhigh, hdelay⟩ := ih
      obtain ⟨pressed, answer, hev⟩ := Event.eq_clock hkind
      rw [(clocks_succ hkind).1, raised_succ, hev, step, hold_top, TopLevel.step, if_pos hhigh,
        ← DelayCounter.step_after, ← hdelay]
      exact ⟨hhigh, rfl⟩

/-- The control path and the start delay run on the edges of the 50 MHz clock, with a codec that
acknowledges everything. -/
theorem top_raised (hanswer : ∀ u buttons answer, ev u = .clock buttons answer → answer = true)
    (u : ℕ) : (raised s ev u).top =
      released s.top.control.volume s.top.control.codec (buttons ev) (clocks ev u) := by
  induction u with
  | zero =>
    obtain ⟨hcodec, hdelay⟩ := hreach.sound.low hlow
    rw [top_raised_zero, clocks, ticks_zero]
    obtain ⟨⟨sw0, ⟨volume, codec⟩, delay⟩, board⟩ := s
    obtain rfl : delay = .asyncReset := hdelay
    exact congrArg (fun c ↦ TopLevel.State.mk true ⟨volume, c⟩ .asyncReset) hcodec.symm
  | succ u ih =>
    cases hkind : (ev u).isClock with
    | false =>
      rw [clocks_rest hkind, raised_succ,
        top_step_rest (delay_raised hreach hlow hstays u).1 (hstays u) hkind]
      exact ih
    | true =>
      obtain ⟨pressed, answer, hev⟩ := Event.eq_clock hkind
      obtain rfl := hanswer u pressed answer hev
      obtain ⟨hcount, hbuttons⟩ := clocks_succ hkind
      rw [hev] at hbuttons
      rw [hcount, raised_succ, hev, step, hold_top, ih, released, TopLevel.run_succ, hbuttons]
      rfl

/-- The audio controller runs after more than 2000000 edges of the 50 MHz clock. -/
theorem resetAdc_raised (u : ℕ) :
    (raised s ev u).top.delay.resetAdc = decide (2000000 < clocks ev u) := by
  rw [(delay_raised hreach hlow hstays u).2]
  rfl

theorem resetAdc_mono {u v : ℕ} (huv : u ≤ v)
    (hu : (raised s ev u).top.delay.resetAdc = true) :
    (raised s ev v).top.delay.resetAdc = true := by
  rw [resetAdc_raised hreach hlow hstays, decide_eq_true_eq] at hu ⊢
  exact hu.trans_le (ticks_mono _ _ huv)

end Raised

/-! ### The processor before the release -/

/-- Only instructions and a reset change the processor. -/
theorem machine_step {e : Event} (s : State) (hreset : e ≠ .niosReset)
    (hrest : e.isInstruction = false) : (step e s).board.machine = s.board.machine := by
  cases e with
  | sw0 => exact hold_machine _
  | clock => exact hold_machine _
  | audioClock adcData =>
    rw [step]
    split_ifs <;> rfl
  | niosReset => exact absurd rfl hreset
  | instruction => exact Bool.noConfusion hrest

section Starting

variable {s : State} (hreach : Reachable s) {ev : ℕ → Event} {r : ℕ} (hreset : ev r = .niosReset)
  (hlast : ∀ v > r, ev v ≠ .niosReset)

include hreach hreset hlast

/-- From the last reset of the NIOS system on, while the audio controller is held, the processor
starts. -/
theorem starts_raised {u : ℕ} (hru : r < u)
    (hheld : ∀ v < u, (raised s ev v).top.delay.resetAdc = false) :
    ∃ count, instructions ev u = instructions ev r + count ∧
      Starts count (raised s ev u).board.machine := by
  induction u, hru using Nat.le_induction with
  | base =>
    obtain ⟨m, hm, hloaded⟩ := (sound_raised hreach ev r).holds
    refine ⟨0, instructions_rest (by rw [hreset]; rfl), .inl ⟨Nat.zero_le _, ?_⟩⟩
    rw [raised_succ, hreset, step, niosReset, hm]
    exact Nios.tracks_reset hloaded _
  | succ u hru ih =>
    obtain ⟨count, hcount, hstarts⟩ := ih fun v hv ↦ hheld v (Nat.lt_succ_of_lt hv)
    cases hkind : (ev u).isInstruction with
    | false =>
      rw [instructions_rest hkind, raised_succ, machine_step _ (hlast u hru) hkind]
      exact ⟨count, hcount, hstarts⟩
    | true =>
      obtain ⟨switches, irq, others, hev⟩ := Event.eq_instruction hkind
      have hsame := (sound_raised hreach ev u).held (hheld u (Nat.lt_succ_self u))
      have hflag : (raised s ev u).board.controller.internalLRSelect = false :=
        congrArg AdcDac.State.internalLRSelect hsame.symm
      have hdataReady : ((raised s ev u).board.pins switches irq others).ports.dataReady = 0 :=
        congrArg BitVec.ofBool hflag
      rw [instructions_succ hkind, hcount, raised_succ, hev]
      exact ⟨count + 1, rfl, hstarts.succ hdataReady⟩

end Starting

/-! ### The board after the release -/

/-- The events after a time. -/
def after (ev : ℕ → Event) (T u : ℕ) : Event := ev (T + 1 + u)

theorem board_hold {s : State} (hrunning : s.hold.top.delay.resetAdc = true) :
    s.hold.board = s.board := by
  rw [hold_top] at hrunning
  rw [State.hold, if_pos hrunning]

/-- The event that releases the audio controller is none of the board's. -/
theorem board_release {e : Event} {s : State} (hheld : s.top.delay.resetAdc = false)
    (hrelease : (step e s).top.delay.resetAdc = true) : (step e s).board = s.board := by
  cases e with
  | sw0 => exact board_hold hrelease
  | clock => exact board_hold hrelease
  | audioClock adcData =>
    rw [step, if_neg (ne_true_of_eq_false hheld)]
  | niosReset => exact absurd hrelease (ne_true_of_eq_false hheld)
  | instruction => exact absurd hrelease (ne_true_of_eq_false hheld)

/-- While it is released the board makes its own events. -/
theorem board_step {e : Event} {s : State} (hreset : e ≠ .niosReset)
    (hrunning : s.top.delay.resetAdc = true) (hstill : (step e s).top.delay.resetAdc = true) :
    (step e s).board = e.onBoard.elim s.board fun e ↦ Board.step e s.board := by
  cases e with
  | sw0 => exact board_hold hstill
  | clock => exact board_hold hstill
  | audioClock adcData =>
    rw [step, if_pos hrunning]
    rfl
  | niosReset => exact absurd rfl hreset
  | instruction => rfl

section Released

variable {s : State} (hreach : Reachable s) (hlow : s.top.sw0 = false) {ev : ℕ → Event}
  (hstays : ∀ u, ev u ≠ .sw0 false)

include hreach hlow hstays

/-- From the release on the board runs on the edges of the audio clock and the instructions. -/
theorem board_raised {T : ℕ} (hlast : ∀ v > T, ev v ≠ .niosReset)
    (hheld : (raised s ev T).top.delay.resetAdc = false)
    (hrelease : (raised s ev (T + 1)).top.delay.resetAdc = true) (u : ℕ) :
    (raised s ev (T + 1 + u)).board = Board.released (raised s ev T).board
      (boardEvents (after ev T)) (boardCount (after ev T) u) := by
  induction u with
  | zero =>
    have hboard : (raised s ev (T + 1)).board = (raised s ev T).board :=
      board_release (e := ev T) hheld hrelease
    have hcontroller := (sound_raised hreach ev T).held hheld
    rw [Nat.add_zero, hboard, boardCount, ticks_zero, Board.released, Clocked.run_zero,
      hcontroller]
  | succ u ih =>
    have hrunning (u : ℕ) : (raised s ev (T + 1 + u)).top.delay.resetAdc = true :=
      resetAdc_mono hreach hlow hstays (Nat.le_add_right ..) hrelease
    have hnext : (raised s ev (T + 1 + (u + 1))).board =
        (step (after ev T u) (raised s ev (T + 1 + u))).board := rfl
    have hreset : after ev T u ≠ .niosReset := hlast (T + 1 + u) (by omega)
    rw [hnext, board_step hreset (hrunning u) (hrunning (u + 1))]
    cases he : (after ev T u).onBoard with
    | none =>
      rw [boardCount_rest he]
      exact ih
    | some e =>
      obtain ⟨hcount, hevent⟩ := boardCount_succ he
      rw [hcount, Board.released, Clocked.run_succ, hevent, ← Board.released, ← ih]
      rfl

/-- The words acknowledged on the bus of the codec up to an event. -/
noncomputable def busWords (s : State) (ev : ℕ → Event) (u : ℕ) : List (BitVec 16) :=
  Codec.acknowledged s.top.control.codec
    (fun k ↦ ControlPath.signals
      (released s.top.control.volume s.top.control.codec (buttons ev) k).control.volume)
    (fun _ ↦ true) (halfPeriod (clocks ev u))

/-- In every run from a rise of the switch on, with the switch left high and a slave that
acknowledges everything, whatever the buttons do: while the audio controller runs, there has been an
acknowledged word for every position but those before the output volumes, the last one with a volume
that the controller may have. -/
theorem configured_raised
    (hanswer : ∀ u buttons answer, ev u = .clock buttons answer → answer = true) {u : ℕ}
    (hrunning : (raised s ev u).top.delay.resetAdc = true) {pos : ℕ} (hfirst : 3 ≤ pos)
    (hlast : pos ≤ 10) :
    (raised s ev u).top =
        released s.top.control.volume s.top.control.codec (buttons ev) (clocks ev u) ∧
      Codec.Holds pos (busWords s ev u) := by
  refine ⟨top_raised hreach hlow hstays hanswer u, ?_⟩
  rw [resetAdc_raised hreach hlow hstays, decide_eq_true_eq] at hrunning
  exact Codec.holds_acknowledged _ _ (by rw [halfPeriod]; omega) hfirst hlast

end Released

/-! ### A start-up -/

theorem reachable_switchedOff : Reachable switchedOff :=
  ⟨switchedOff, fun _ ↦ .niosReset, 0, poweredUp_switchedOff, rfl⟩

/-- The reset of the NIOS system, 99 instructions, `count` edges of the 50 MHz clock with no button
pressed, and then edges of the audio clock and instructions in turn. -/
def startUp (count u : ℕ) : Event :=
  if u = 0 then .niosReset
  else if u < 100 then .instruction AudioPath.flat true fun _ _ ↦ 0
  else if u < 100 + count then .clock .idle true
  else if (u - (100 + count)) % 2 = 0 then .audioClock false
  else .instruction AudioPath.flat true fun _ _ ↦ 0xffffffff

section StartUp

variable (count : ℕ)

theorem startUp_stays (u : ℕ) : startUp count u ≠ .sw0 false := by
  rw [startUp]
  split_ifs <;> exact Event.noConfusion

theorem startUp_answer (u : ℕ) (buttons : Buttons) (answer : Bool)
    (hclock : startUp count u = .clock buttons answer) : answer = true := by
  rw [startUp] at hclock
  split_ifs at hclock
  exact (Event.clock.inj hclock).2.symm

theorem startUp_last (v : ℕ) (hv : v > 0) : startUp count v ≠ .niosReset := by
  rw [startUp, if_neg hv.ne']
  split_ifs <;> exact Event.noConfusion

theorem instructions_startUp : instructions (startUp count) 0 + 99 ≤
    instructions (startUp count) 100 := by
  have hcount : ∀ k ≤ 99, instructions (startUp count) (1 + k) = k := by
    intro k hk
    induction k with
    | zero => exact instructions_rest rfl
    | succ k ih =>
      have hinstruction : (startUp count (1 + k)).isInstruction = true := by
        rw [startUp, if_neg (by omega), if_pos (by omega)]
        rfl
      rw [← Nat.add_assoc, instructions_succ hinstruction, ih (by omega)]
  exact (hcount 99 le_rfl).ge

theorem clocks_startUp {k : ℕ} (hk : k ≤ count) : clocks (startUp count) (100 + k) = k := by
  induction k with
  | zero =>
    have hnone : ∀ u ≤ 100, clocks (startUp count) u = 0 := by
      intro u hu
      induction u with
      | zero => exact ticks_zero _ _
      | succ u ih =>
        rw [clocks_rest, ih (by omega)]
        rw [startUp]
        split_ifs <;> first | rfl | omega
    exact hnone 100 le_rfl
  | succ k ih =>
    have hclock : (startUp count (100 + k)).isClock = true := by
      rw [startUp, if_neg (by omega), if_neg (by omega), if_pos (by omega)]
      rfl
    rw [← Nat.add_assoc, (clocks_succ hclock).1, ih (by omega)]

theorem onBoard_startUp (u : ℕ) : (after (startUp count) (99 + count) u).onBoard =
    some (Board.alternating AudioPath.flat u) := by
  rw [after, startUp, if_neg (by omega), if_neg (by omega), if_neg (by omega), Board.alternating,
    show 99 + count + 1 + u - (100 + count) = u by omega]
  split_ifs <;> rfl

theorem boardCount_startUp (u : ℕ) : boardCount (after (startUp count) (99 + count)) u = u := by
  induction u with
  | zero => exact ticks_zero _ _
  | succ u ih => rw [(boardCount_succ (onBoard_startUp count u)).1, ih]

theorem boardEvents_startUp : boardEvents (after (startUp count) (99 + count)) =
    Board.alternating AudioPath.flat := by
  funext u
  have hseen := (boardCount_succ (onBoard_startUp count u)).2
  rwa [boardCount_startUp] at hseen

end StartUp

theorem resetAdc_startUp {k : ℕ} (hk : k ≤ 2000001) :
    (raised switchedOff (startUp 2000001) (100 + k)).top.delay.resetAdc = decide (2000000 < k) := by
  rw [resetAdc_raised reachable_switchedOff rfl (startUp_stays _),
    clocks_startUp _ hk]

/-- The word for the audio format has been acknowledged when the audio controller starts. -/
theorem configured_raised_startUp :
    lastFor 8 (busWords switchedOff (startUp 2000001) (100 + 2000001)) = some 0x0E01 := by
  obtain ⟨-, _, _, hformat⟩ := configured_raised reachable_switchedOff rfl (startUp_stays _)
    (startUp_answer _) (u := 100 + 2000001) (resetAdc_startUp le_rfl) (show 3 ≤ 8 by decide)
    (by decide)
  exact hformat

/-! ### Frames -/

/-- In every run from a rise of the switch on, with the switch left high: if between the last reset
of the NIOS system and the release of the audio controller 99 instructions are executed, and from the
release on six instructions take at most half a frame and, together with 79, end before the words are
latched, then both slots of every frame from the second on carry the word that the program makes of
the sample of the frame before, from an accumulator that was zero at first; and each sample is the
word received in the left slot of the frame before it. -/
theorem played_raised {s : State} (hreach : Reachable s) (hlow : s.top.sw0 = false)
    {ev : ℕ → Event} (hstays : ∀ u, ev u ≠ .sw0 false) {r T : ℕ} (hreset : ev r = .niosReset)
    (hlast : ∀ v > r, ev v ≠ .niosReset)
    (hboot : instructions ev r + 99 ≤ instructions ev T)
    (hheld : (raised s ev T).top.delay.resetAdc = false)
    (hrelease : (raised s ev (T + 1)).top.delay.resetAdc = true)
    (hclock : ∀ k, ∃ u, k ≤ edges (boardEvents (after ev T)) (boardCount (after ev T) u))
    {idle busy : ℕ} (hidle : Within (boardEvents (after ev T)) 6 idle)
    (hbusy : Within (boardEvents (after ev T)) 79 busy) (hhalf : idle ≤ 192)
    (hlatch : idle + busy ≤ 372) {setting : ℕ → Switches}
    (hsetting : ∀ n t switches irq others, InFrame (boardEvents (after ev T)) n t →
      boardEvents (after ev T) t = .instruction switches irq others → switches = setting n) :
    (∀ u, (raised s ev (T + 1 + u)).board = Board.released (raised s ev T).board
        (boardEvents (after ev T)) (boardCount (after ev T) u)) ∧
      ∀ n, msbFirst (sample (view (raised s ev T).board (boardEvents (after ev T))) (n + 1)) =
          received (view (raised s ev T).board (boardEvents (after ev T)))
            (adcBits (boardEvents (after ev T))) true n ∧
        ∀ slot, sent (view (raised s ev T).board (boardEvents (after ev T))) slot (n + 1) =
          msbFirst (filtered 0
            (frame (view (raised s ev T).board (boardEvents (after ev T))) setting) n) := by
  have hrT : r < T := by
    by_contra hlate
    have hmono : instructions ev T ≤ instructions ev r :=
      ticks_mono _ _ (Nat.not_lt.mp hlate)
    omega
  have hbefore : ∀ v < T, (raised s ev v).top.delay.resetAdc = false := fun v hv ↦
    Bool.eq_false_of_not_eq_true fun hrunning ↦ ne_true_of_eq_false hheld
      (resetAdc_mono hreach hlow hstays hv.le hrunning)
  obtain ⟨count, hcount, hstarts⟩ := starts_raised hreach hreset hlast hrT hbefore
  obtain ⟨main, d, hd, hwaiting, htracks⟩ := hstarts.waiting (by omega)
  have hunbounded : Unbounded (boardEvents (after ev T)) := fun k ↦
    let ⟨u, hu⟩ := hclock k
    ⟨_, hu⟩
  exact ⟨board_raised hreach hlow hstays (fun v hv ↦ hlast v (hrT.trans hv)) hheld hrelease,
    Board.sent_of_tracks htracks hd hwaiting hunbounded hidle hbusy hhalf hlatch hsetting⟩

/-- After the start-up both slots of frame 1 carry the word that is made of the first sample. -/
theorem played_raised_startUp :
    sent (view (raised switchedOff (startUp 2000001) (99 + 2000001)).board
          (Board.alternating AudioPath.flat)) true 1 =
        msbFirst (filtered 0 (frame (view (raised switchedOff (startUp 2000001) (99 + 2000001)).board
          (Board.alternating AudioPath.flat)) fun _ ↦ AudioPath.flat) 0) ∧
      sent (view (raised switchedOff (startUp 2000001) (99 + 2000001)).board
          (Board.alternating AudioPath.flat)) false 1 =
        msbFirst (filtered 0 (frame (view (raised switchedOff (startUp 2000001) (99 + 2000001)).board
          (Board.alternating AudioPath.flat)) fun _ ↦ AudioPath.flat) 0) := by
  have hevents := boardEvents_startUp 2000001
  have htime : 99 + 2000001 = 100 + 2000000 := by norm_num
  have hheld : (raised switchedOff (startUp 2000001) (99 + 2000001)).top.delay.resetAdc = false := by
    rw [htime, resetAdc_startUp (by norm_num)]
    exact decide_eq_false (by norm_num)
  have hrelease :
      (raised switchedOff (startUp 2000001) (99 + 2000001 + 1)).top.delay.resetAdc = true := by
    rw [show 99 + 2000001 + 1 = 100 + 2000001 by norm_num, resetAdc_startUp le_rfl]
    exact decide_eq_true (by norm_num)
  have hboot : instructions (startUp 2000001) 0 + 99 ≤
      instructions (startUp 2000001) (99 + 2000001) :=
    (instructions_startUp 2000001).trans (ticks_mono _ _ (by norm_num))
  have hsetting : ∀ n t switches irq others,
      InFrame (boardEvents (after (startUp 2000001) (99 + 2000001))) n t →
        boardEvents (after (startUp 2000001) (99 + 2000001)) t = .instruction switches irq others →
          switches = (fun _ : ℕ ↦ AudioPath.flat) n := by
    intro n t switches irq others _ hinstruction
    rw [hevents] at hinstruction
    exact Board.setting_alternating _ hinstruction
  have hplayed := played_raised reachable_switchedOff rfl (startUp_stays _)
    (r := 0) rfl (startUp_last _) hboot hheld hrelease
    (fun k ↦ by
      obtain ⟨u, hu⟩ := Board.unbounded_alternating AudioPath.flat k
      exact ⟨u, by rwa [hevents, boardCount_startUp]⟩)
    (by rw [hevents]; exact Board.within_alternating _ 6)
    (by rw [hevents]; exact Board.within_alternating _ 79) (by decide) (by decide)
    hsetting
  rw [hevents] at hplayed
  obtain ⟨-, hslots⟩ := hplayed.2 0
  exact ⟨hslots true, hslots false⟩

end AudioProcessor.Device
