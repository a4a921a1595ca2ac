import AudioProcessor.Library.Stuttering
import AudioProcessor.Nios.Boot

/-!
# The transfers of the processor

A run of the processor from its reset, with whatever the devices show it. `schedule` says which
instruction makes which access of `main`, from what the ports show at these instructions alone:
`booted_trace` is that these transfers are the only ones and that the processor never gets stuck.
The instructions between two polls are counted (`poll_next`), so that the ready flag is read once in
any 79 instructions (`booted_polls`).
-/

set_option autoImplicit false
set_option relaxedAutoImplicit false

namespace AudioProcessor.Nios

open Clocked (run)
open Equaliser (Access Main Ports stage)
open Stuttering (Countdown)

/-- One instruction; a machine that has got stuck is `none`. -/
def advance (pins : Pins) (m : Option Machine) : Option Machine :=
  m.bind (Machine.step pins.devices)

/-- The transfer of the next instruction. -/
def emits (pins : Pins) (m : Option Machine) : Option Transfer :=
  m.bind (Machine.transfer pins.devices)

/-- The next instruction makes a transfer. -/
def Visible (pins : Pins) (m : Option Machine) : Prop := emits pins m ≠ none

/-- The machine is not stuck, and has so many silent instructions left before the next access. -/
def Tracks (main : Main) (d : ℕ) (m : Option Machine) : Prop :=
  ∃ m', m = some m' ∧ Ahead d m' main

/-- The processor from its reset on, one instruction after the other. -/
def booted (registers : Registers) (sram : BitVec 14 → Word) (pins : ℕ → Pins) :
    ℕ → Option Machine :=
  run advance (some ⟨.reset registers, sram⟩) pins

section Tracks

variable {main : Main} {d : ℕ} {m : Option Machine} (pins : Pins)

theorem Tracks.silent (h : Tracks main (d + 1) m) :
    emits pins m = none ∧ Tracks main d (advance pins m) := by
  obtain ⟨m, rfl, m'', hsilent, hpaused⟩ := h
  cases hsilent with
  | cons hstep hquiet _ hrest => exact ⟨hquiet pins.devices, _, hstep pins.devices, m'', hrest, hpaused⟩

theorem Tracks.due (h : Tracks main 0 m) : emits pins m = some (mainTransfer main) ∧
    Tracks (main.step pins.ports) (silence pins.ports main) (advance pins m) := by
  obtain ⟨m, rfl, m'', hsilent, hpaused⟩ := h
  cases hsilent with
  | refl =>
    obtain ⟨m', hstep, htransfer, hahead⟩ := paused_step hpaused pins
    exact ⟨htransfer, m', hstep, hahead⟩

/-- A machine that makes a transfer has no silent instructions left. -/
theorem Tracks.eq_zero (h : Tracks main d m) (hemits : emits pins m ≠ none) : d = 0 := by
  cases d with
  | zero => rfl
  | succ d => exact absurd (h.silent pins).1 hemits

theorem accessSlave_injective : Function.Injective accessSlave := by
  intro access access' h
  cases access <;> cases access' <;> first | rfl | exact Slave.noConfusion h

/-- Only one access can be the next one. -/
theorem Tracks.access_eq {main' : Main} (h : Tracks main 0 m) (h' : Tracks main' d m) :
    main'.access = main.access := by
  have pins : Pins := ⟨false, ⟨0, 0, 0, 0⟩, fun _ _ ↦ 0⟩
  have hemits := (h.due pins).1
  obtain rfl := h'.eq_zero pins (by rw [hemits]; exact Option.some_ne_none _)
  rw [(h'.due pins).1] at hemits
  exact accessSlave_injective (congrArg Transfer.slave (Option.some_inj.mp hemits))

theorem Tracks.ne_none (h : Tracks main d m) : m ≠ none := by
  obtain ⟨m, rfl, -⟩ := h
  exact Option.some_ne_none m

/-- After any instruction the machine is on its way to an access again. -/
theorem Tracks.advance (h : Tracks main d m) : ∃ main' d', Tracks main' d' (advance pins m) := by
  cases d with
  | zero => exact ⟨_, _, (h.due pins).2⟩
  | succ d => exact ⟨main, d, (h.silent pins).2⟩

/-- The machine is not stuck, and its memory holds the program. -/
def Holds (m : Option Machine) : Prop := ∃ m', m = some m' ∧ Loaded m'.sram

/-- No instruction writes to the program, whether it makes a transfer or not. -/
theorem Tracks.holds (h : Tracks main d m) (hholds : Holds m) : Holds (Nios.advance pins m) := by
  obtain ⟨m, rfl, hloaded⟩ := hholds
  cases d with
  | succ d =>
    obtain ⟨m', hm, m'', hsilent, -⟩ := h
    cases hm
    cases hsilent with
    | cons hstep _ hprogram _ => exact ⟨_, hstep pins.devices, hloaded.sameProgram hprogram⟩
  | zero =>
    obtain ⟨hemits, m', hstep, -⟩ := h.due pins
    have htransfer : m.transfer pins.devices ≠ none := by
      change emits pins (some m) ≠ none
      rw [hemits]
      exact Option.some_ne_none _
    exact ⟨m', hstep, hloaded.sameProgram (Machine.sameProgram_of_transfer hstep htransfer)⟩

end Tracks

/-- The silent instructions count down to the next access. -/
theorem countdown_tracks (main : Main) :
    Countdown advance (fun _ ↦ True) Visible (Tracks main) where
  rest _ _ _ _ hrest := absurd trivial hrest
  silent pins _ _ h _ := ⟨not_not_intro (h.silent pins).1, (h.silent pins).2⟩
  due pins _ h _ := by
    rw [Visible, (h.due pins).1]
    exact Option.some_ne_none _

/-- The instruction that makes an access, and the program before it. -/
structure Point where
  time : ℕ
  main : Main

/-- The next access, from what the ports show at this one. -/
def Point.next (pins : ℕ → Pins) (p : Point) : Point where
  time := p.time + 1 + silence (pins p.time).ports p.main
  main := p.main.step (pins p.time).ports

/-- The accesses one after the other. -/
def schedule (pins : ℕ → Pins) (p : Point) (k : ℕ) : Point := (Point.next pins)^[k] p

section Schedule

variable {pins : ℕ → Pins} {p : Point}

theorem time_next : (p.next pins).time = p.time + 1 + silence (pins p.time).ports p.main := rfl

theorem main_next : (p.next pins).main = p.main.step (pins p.time).ports := rfl

theorem schedule_succ (k : ℕ) : schedule pins p (k + 1) = (schedule pins p k).next pins :=
  Function.iterate_succ_apply' ..

theorem schedule_lt (k : ℕ) :
    (schedule pins p k).time < (schedule pins p (k + 1)).time := by
  rw [schedule_succ, time_next]
  omega

/-- Each instruction from the first access on lies between two accesses. -/
theorem exists_schedule (n : ℕ) (hn : p.time ≤ n) :
    ∃ k, (schedule pins p k).time ≤ n ∧ n < (schedule pins p (k + 1)).time := by
  induction n, hn using Nat.le_induction with
  | base => exact ⟨0, le_rfl, schedule_lt 0⟩
  | succ n _ ih =>
    obtain ⟨k, hlow, hhigh⟩ := ih
    rcases Nat.lt_or_eq_of_le (Nat.succ_le_of_lt hhigh) with hlt | heq
    · exact ⟨k, hlow.trans (Nat.le_succ n), hlt⟩
    · exact ⟨k + 1, heq.ge, heq.trans_lt (schedule_lt (k + 1))⟩

variable {start : Option Machine}

/-- With silent instructions left the machine counts down. -/
theorem tracks_add {main : Main} {n d k : ℕ} (h : Tracks main (d + k) (run advance start pins n)) :
    Tracks main d (run advance start pins (n + k)) := by
  have hticks : ∀ n, Clocked.ticks (fun _ : Pins ↦ True) pins n = n := fun n ↦ Nat.count_true n
  obtain ⟨htracks, -⟩ := (countdown_tracks main).run_countdown (Nat.le_add_right n k) h
    (by rw [hticks, hticks]; omega)
  rwa [hticks, hticks, show d + k + n - (n + k) = d by omega] at htracks

variable (pins)

/-- Before the first access the machine is silent. -/
theorem silent_before {main : Main} {n d k : ℕ} (h : Tracks main d (run advance start pins n))
    (hk : k < d) : emits (pins (n + k)) (run advance start pins (n + k)) = none ∧
      run advance start pins (n + k) ≠ none := by
  obtain ⟨e, rfl⟩ : ∃ e, d = e + 1 + k := ⟨d - k - 1, by omega⟩
  have htracks := tracks_add h
  exact ⟨(htracks.silent (pins (n + k))).1, htracks.ne_none⟩

/-- At each access of the schedule the machine is about to make it. -/
theorem tracks_schedule (h : Tracks p.main p.time start) (k : ℕ) :
    Tracks (schedule pins p k).main 0 (run advance start pins (schedule pins p k).time) := by
  induction k with
  | zero =>
    rw [← Nat.zero_add p.time] at h
    have hfirst : Tracks p.main 0 (run advance start pins (0 + p.time)) := tracks_add h
    rwa [Nat.zero_add] at hfirst
  | succ k ih =>
    have hafter := (ih.due (pins (schedule pins p k).time)).2
    rw [← Nat.zero_add (silence _ _)] at hafter
    rw [schedule_succ]
    exact tracks_add (n := (schedule pins p k).time + 1) hafter

/-- Between two accesses the machine is silent. -/
theorem silent_between (h : Tracks p.main p.time start) {k n : ℕ}
    (hlow : (schedule pins p k).time < n) (hhigh : n < (schedule pins p (k + 1)).time) :
    emits (pins n) (run advance start pins n) = none ∧ run advance start pins n ≠ none := by
  have hafter := ((tracks_schedule pins h k).due (pins (schedule pins p k).time)).2
  rw [schedule_succ, time_next] at hhigh
  obtain ⟨j, rfl⟩ := Nat.exists_eq_add_of_le hlow
  exact silent_before pins (n := (schedule pins p k).time + 1) hafter (by omega)

end Schedule

/-! ### After a reset -/

/-- The first poll after a reset. -/
def firstPoll : Point := ⟨105, .start⟩

section Booted

variable {sram : BitVec 14 → Word} (hloaded : Loaded sram) (registers : Registers)
  (pins : ℕ → Pins)

include hloaded

theorem tracks_reset : Tracks firstPoll.main firstPoll.time (some ⟨.reset registers, sram⟩) :=
  ⟨_, rfl, silent_boot hloaded registers⟩

/-- Whatever the registers and the rest of the memory hold after a reset and whatever the devices
show, interrupts and unused ports included: the processor does not get stuck, the accesses of `main`
are its transfers, each at its instruction, and it makes no others. -/
theorem booted_trace :
    (∀ n, booted registers sram pins n ≠ none) ∧
      (∀ k, emits (pins (schedule pins firstPoll k).time)
          (booted registers sram pins (schedule pins firstPoll k).time) =
        some (mainTransfer (schedule pins firstPoll k).main)) ∧
      ∀ n, (∀ k, (schedule pins firstPoll k).time ≠ n) →
        emits (pins n) (booted registers sram pins n) = none := by
  have hreset := tracks_reset hloaded registers
  have haccess := fun k ↦
    ((tracks_schedule pins hreset k).due (pins (schedule pins firstPoll k).time)).1
  have hsilent : ∀ n, (∀ k, (schedule pins firstPoll k).time ≠ n) →
      emits (pins n) (booted registers sram pins n) = none ∧
        booted registers sram pins n ≠ none := by
    intro n hn
    rcases Nat.lt_or_ge n firstPoll.time with hboot | hloop
    · have hbefore := silent_before pins (n := 0) hreset hboot
      rwa [Nat.zero_add] at hbefore
    · obtain ⟨k, hlow, hhigh⟩ := exists_schedule n hloop
      exact silent_between pins hreset (Nat.lt_of_le_of_ne hlow (hn k)) hhigh
  refine ⟨fun n ↦ ?_, haccess, fun n hn ↦ (hsilent n hn).1⟩
  by_cases hn : ∃ k, (schedule pins firstPoll k).time = n
  · obtain ⟨k, rfl⟩ := hn
    exact (tracks_schedule pins hreset k).ne_none
  · exact (hsilent n (not_exists.mp hn)).2

end Booted

/-- A frame is due, the interrupt line is high, and the other slaves show ones. -/
def frameDue : Pins := ⟨true, ⟨1, 0x1234, 2, 1⟩, fun _ _ ↦ 0xffffffff⟩

/-- The first word is written with the instruction with number 168. -/
theorem booted_trace_frameDue :
    emits frameDue (booted cleared imageSram (fun _ ↦ frameDue) 168) =
      some ⟨.niosOutLeft, 0, some 9902⟩ := by
  have h := (booted_trace loaded_imageSram cleared fun _ ↦ frameDue).2.1 4
  rwa [show (schedule (fun _ ↦ frameDue) firstPoll 4).time = 168 by decide,
    show mainTransfer (schedule (fun _ ↦ frameDue) firstPoll 4).main =
      ⟨.niosOutLeft, 0, some 9902⟩ by decide] at h

/-! ### The time between two polls -/

/-- The most instructions up to the next poll. -/
def budget : Access → ℕ
  | .dataReady => 0
  | .inLeft => 74
  | .bassStageSwitch => 73
  | .trebleStageSwitch => 70
  | .outLeft => 6
  | .outRight => 3

/-- The bass stage that the program has read is one that the switches have. -/
def Staged (main : Main) : Prop :=
  main.access = .trebleStageSwitch → ∃ port, main.bStage = stage port

theorem staged_step (p : Ports) (main : Main) : Staged (main.step p) := by
  intro haccess
  cases hbefore : main.access with
  | bassStageSwitch =>
    rw [Main.step, hbefore]
    exact ⟨_, rfl⟩
  | dataReady =>
    rw [Main.step, hbefore] at haccess
    dsimp only at haccess
    split_ifs at haccess
  | _ =>
    rw [Main.step, hbefore] at haccess
    exact Access.noConfusion haccess

/-- A multiplication by a stage takes at most three rounds. -/
theorem roundSteps_stage (port : BitVec 2) : roundSteps ((stage port).toBitVec + 1).toNat ≤ 16 := by
  revert port
  decide

theorem frameSilence_le (bassPrev : Int32) (audioIn : Int16) (bass treble : BitVec 2) :
    frameSilence bassPrev audioIn (stage bass) (stage treble) ≤ 63 := by
  have hbass := roundSteps_stage bass
  have htreble := roundSteps_stage treble
  rw [frameSilence]
  split_ifs <;> omega

/-- An access and the silence after it use up some of the budget. -/
theorem budget_step (p : Ports) {main : Main} (hstaged : Staged main)
    (hbusy : main.access ≠ .dataReady) :
    silence p main + 1 + budget (main.step p).access ≤ budget main.access := by
  obtain ⟨access, currentReady, lastReady, bassPrev, audioIn, bStage, tStage, res⟩ := main
  cases access with
  | dataReady => exact absurd rfl hbusy
  | trebleStageSwitch =>
    obtain ⟨port, rfl⟩ := hstaged rfl
    have hframe := frameSilence_le bassPrev audioIn port p.trebleStageSwitch
    exact Nat.add_le_add_right hframe 7
  | _ => exact le_rfl

/-- The most instructions from a poll up to the next one. -/
def pollBudget (p : Ports) (main : Main) : ℕ := if main.triggers p then 79 else 6

theorem silence_poll (p : Ports) {main : Main} (hpoll : main.access = .dataReady) :
    silence p main + 1 + budget (main.step p).access ≤ pollBudget p main := by
  rw [pollBudget]
  cases htriggers : main.triggers p with
  | true =>
    rw [Main.step_of_triggers htriggers]
    rw [Main.triggers, Bool.and_eq_true, Bool.and_eq_true] at htriggers
    rw [silence, hpoll, if_pos htriggers.2.1, if_pos htriggers.2.2]
    exact le_rfl
  | false =>
    rw [Main.step_of_poll hpoll htriggers, hpoll, silence, hpoll]
    dsimp only
    split_ifs <;> decide

section Schedule

variable {pins : ℕ → Pins} {p : Point}

theorem schedule_add (j k : ℕ) :
    schedule pins p (j + k) = schedule pins (schedule pins p k) j := Function.iterate_add_apply ..

theorem schedule_succ' (k : ℕ) : schedule pins p (k + 1) = schedule pins (p.next pins) k :=
  Function.iterate_succ_apply ..

variable (pins)

/-- A program that is busy polls again within its budget. -/
theorem exists_poll (hstaged : Staged p.main) : ∃ k,
    (schedule pins p k).main.access = .dataReady ∧ p.time ≤ (schedule pins p k).time ∧
      (schedule pins p k).time ≤ p.time + budget p.main.access := by
  induction hbudget : budget p.main.access using Nat.strong_induction_on generalizing p with
  | h n ih =>
    by_cases hpoll : p.main.access = .dataReady
    · exact ⟨0, hpoll, le_rfl, Nat.le_add_right ..⟩
    · have hstep := budget_step (pins p.time).ports hstaged hpoll
      rw [hbudget, ← main_next] at hstep
      obtain ⟨k, haccess, hlow, hhigh⟩ := ih _ (by omega) (p := p.next pins) (staged_step _ _) rfl
      rw [time_next] at hlow hhigh
      refine ⟨k + 1, ?_⟩
      rw [schedule_succ']
      exact ⟨haccess, by omega, by omega⟩

/-- From a poll to the next one. -/
theorem poll_next (hpoll : p.main.access = .dataReady) : ∃ k,
    (schedule pins p k).main.access = .dataReady ∧ p.time < (schedule pins p k).time ∧
      (schedule pins p k).time ≤ p.time + pollBudget (pins p.time).ports p.main := by
  have hstep := silence_poll (pins p.time).ports hpoll
  rw [← main_next] at hstep
  have hstaged : Staged (p.next pins).main := staged_step _ _
  obtain ⟨k, haccess, hlow, hhigh⟩ := exists_poll pins hstaged
  rw [time_next] at hlow hhigh
  refine ⟨k + 1, ?_⟩
  rw [schedule_succ']
  exact ⟨haccess, by omega, by omega⟩

/-- A poll comes within the budget of one that has seen a rise, counted from any instruction of the
loop. -/
theorem exists_poll_after (hpoll : p.main.access = .dataReady) (n : ℕ) (hn : p.time ≤ n) :
    ∃ k, (schedule pins p k).main.access = .dataReady ∧ n ≤ (schedule pins p k).time ∧
      (schedule pins p k).time < n + 79 := by
  induction n, hn using Nat.le_induction with
  | base => exact ⟨0, hpoll, le_rfl, Nat.lt_add_of_pos_right (by decide)⟩
  | succ n _ ih =>
    obtain ⟨k, haccess, hlow, hhigh⟩ := ih
    rcases Nat.lt_or_eq_of_le hlow with hlt | rfl
    · exact ⟨k, haccess, hlt, by omega⟩
    · obtain ⟨j, haccess', hafter, hwithin⟩ := poll_next pins haccess
      have hbudget :
          pollBudget (pins (schedule pins p k).time).ports (schedule pins p k).main ≤ 79 := by
        rw [pollBudget]
        split_ifs <;> decide
      refine ⟨j + k, ?_⟩
      rw [schedule_add]
      exact ⟨haccess', hafter, by omega⟩

end Schedule

/-- After a reset and the start-up code, the ready flag is polled in any 79 instructions that follow
one another. -/
theorem booted_polls {sram : BitVec 14 → Word} (hloaded : Loaded sram) (registers : Registers)
    (pins : ℕ → Pins) (n : ℕ) (hn : 105 ≤ n) : ∃ i < 79,
      emits (pins (n + i)) (booted registers sram pins (n + i)) = some ⟨.niosDataReady, 0, none⟩ := by
  obtain ⟨k, haccess, hlow, hhigh⟩ := exists_poll_after pins (p := firstPoll) rfl n hn
  obtain ⟨i, hi⟩ := Nat.exists_eq_add_of_le hlow
  refine ⟨i, by omega, ?_⟩
  have hemits := ((tracks_schedule pins (tracks_reset hloaded registers) k).due (pins (n + i))).1
  rw [hi] at hemits
  rw [booted, hemits, mainTransfer, haccess]
  rfl

theorem booted_polls_frameDue : ∃ i < 79,
    emits frameDue (booted cleared imageSram (fun _ ↦ frameDue) (1000 + i)) =
      some ⟨.niosDataReady, 0, none⟩ :=
  booted_polls loaded_imageSram cleared (fun _ ↦ frameDue) 1000 (by decide)

end AudioProcessor.Nios
