import AudioProcessor.AudioPath.EndToEnd
import AudioProcessor.AudioPath.Paced
import AudioProcessor.Board.System

/-!
# Deadlines

How fast the processor has to be. `Within` bounds the edges of the audio clock in which so many
instructions are executed. Six instructions are the most between two polls that see no rise, and 79
the most from one that does to the next, so with bounds for these two the program is `Paced`
(`paced_accesses`), and both slots of every frame carry the words it makes (`sent_of_tracks`).
-/

set_option autoImplicit false
set_option relaxedAutoImplicit false

namespace AudioProcessor.Board

open AdcDac (sent received)
open AudioPath (InFrame Paced Switches Unbounded Waiting adcBits edgeTime edgeTime_edges edges
  edges_edgeTime edges_mono edges_succ_audioClock edges_succ_rest edges_zero filtered frame
  isAudioClock_edgeTime sample)
open Clocked (Endless ticks ticks_succ_active ticks_succ_rest)
open Equaliser (Main)
open Nios (Tracks Staged budget budget_step pollBudget silence silence_poll staged_step)
open Serial (msbFirst)
open Stuttering (Countdown)

/-- How many instructions there were before time `t`. -/
def instructions (ev : ℕ → Event) (t : ℕ) : ℕ := ticks (·.isAudioClock = false) ev t

/-- So many instructions are executed in so many edges of the audio clock. -/
def Within (ev : ℕ → Event) (count bound : ℕ) : Prop :=
  ∀ t u, t ≤ u → instructions ev u ≤ instructions ev t + count → edges ev u ≤ edges ev t + bound

/-- What an observer of the audio pins sees: the controller just before each edge. -/
noncomputable def view (b : State) (ev : ℕ → Event) (k : ℕ) : AdcDac.State :=
  (released b ev (edgeTime ev k)).controller

/-! ### The events of the audio path -/

theorem Event.adcData_access (e : Event) : e.access.adcData = e.adcData := by
  cases e <;> rfl

section Accesses

variable (b : State) {ev : ℕ → Event} (hclock : Unbounded ev)

include hclock

theorem unbounded_accesses : Unbounded (accesses b ev) := by
  intro k
  obtain ⟨t, ht⟩ := hclock k
  exact ⟨accessCount b ev t, ht.trans_eq (edges_accesses b ev t).symm⟩

/-- Each event of the audio path has its time. -/
theorem exists_time (k : ℕ) : ∃ t, VisibleAt b ev t ∧ accessCount b ev t = k := by
  classical
  have hinfinite : (Set.ofPred (VisibleAt b ev)).Infinite := by
    refine Clocked.infinite_of_count fun k ↦ ?_
    obtain ⟨t, ht⟩ := hclock k
    rw [← edges_accesses b ev t] at ht
    exact ⟨t, ht.trans (Nat.count_le ..)⟩
  exact ⟨_, Nat.nth_mem_of_infinite hinfinite k, Nat.count_nth_of_infinite hinfinite k⟩

end Accesses

/-! ### The time between two polls -/

/-- The silent instructions count down to the next access, and rest at the edges of the audio
clock. -/
theorem countdown_board (main : Main) : Countdown step (fun e ↦ e.isAudioClock = false) Transfers
    (fun d b ↦ Tracks main d b.machine) where
  rest e d b h hactive := by
    cases e with
    | audioClock adcData => exact ⟨id, h⟩
    | instruction => exact absurd rfl hactive
  silent e d b h hactive := by
    cases e with
    | audioClock => exact Bool.noConfusion hactive
    | instruction switches irq others =>
      obtain ⟨hquiet, hnext⟩ := h.silent (b.pins switches irq others)
      exact ⟨not_not_intro hquiet, hnext⟩
  due e b h hactive := by
    cases e with
    | audioClock => exact Bool.noConfusion hactive
    | instruction switches irq others =>
      rw [Transfers, (h.due (b.pins switches irq others)).1]
      exact Option.some_ne_none _

/-- The next instruction makes an access of the program. -/
def Makes (b : State) (ev : ℕ → Event) (main : Main) (t : ℕ) : Prop :=
  (ev t).isAudioClock = false ∧ Tracks main 0 (released b ev t).machine

section Polls

variable {b : State} {ev : ℕ → Event} (hinstructions : Endless (·.isAudioClock = false) ev)
  {main : Main} {t : ℕ}

/-- After the access the processor goes on to the next one. -/
theorem Makes.next (h : Makes b ev main t) : ∃ switches irq others,
    ev t = .instruction switches irq others ∧ Transfers (ev t) (released b ev t) ∧
      Tracks (main.step ((released b ev t).pins switches irq others).ports)
        (silence ((released b ev t).pins switches irq others).ports main)
        (released b ev (t + 1)).machine := by
  obtain ⟨hclock, htracks⟩ := h
  have hstep : released b ev (t + 1) = step (ev t) (released b ev t) := rfl
  rw [hstep]
  cases hev : ev t with
  | audioClock =>
    rw [hev] at hclock
    exact Bool.noConfusion hclock
  | instruction switches irq others =>
    obtain ⟨hemits, hnext⟩ := htracks.due ((released b ev t).pins switches irq others)
    refine ⟨switches, irq, others, rfl, ?_, hnext⟩
    rw [Transfers, hemits]
    exact Option.some_ne_none _

theorem instructions_succ (ht : (ev t).isAudioClock = false) :
    instructions ev (t + 1) = instructions ev t + 1 := ticks_succ_active ht

include hinstructions

/-- A program that is on its way polls within its budget. -/
theorem exists_poll {d : ℕ} (h : Tracks main d (released b ev t).machine) (hstaged : Staged main) :
    ∃ u ≥ t, ∃ main', Makes b ev main' u ∧ main'.access = .dataReady ∧
      instructions ev u ≤ instructions ev t + d + budget main.access := by
  induction hbudget : budget main.access using Nat.strong_induction_on generalizing main t d with
  | h n ih =>
    obtain ⟨u, htu, hactive, hdue, hcount⟩ := (countdown_board main).exists_due hinstructions h
    change instructions ev u = instructions ev t + d at hcount
    have hmakes : Makes b ev main u := ⟨hactive, hdue⟩
    by_cases hpoll : main.access = .dataReady
    · exact ⟨u, htu, main, hmakes, hpoll, hcount.le.trans (Nat.le_add_right ..)⟩
    · obtain ⟨switches, irq, others, -, -, hnext⟩ := hmakes.next
      have hsucc := instructions_succ hactive
      have hstep := budget_step ((released b ev u).pins switches irq others).ports hstaged hpoll
      rw [hbudget] at hstep
      obtain ⟨v, huv, main', hmakes', hpoll', hbound⟩ := ih _ (by omega) hnext (staged_step _ _) rfl
      exact ⟨v, by omega, main', hmakes', hpoll', by omega⟩

/-- From a poll to the next one. -/
theorem poll_next (h : Makes b ev main t) (hpoll : main.access = .dataReady) :
    ∃ switches irq others, ev t = .instruction switches irq others ∧
      ∃ u > t, ∃ main', Makes b ev main' u ∧ main'.access = .dataReady ∧
        instructions ev u ≤ instructions ev t +
          pollBudget ((released b ev t).pins switches irq others).ports main := by
  obtain ⟨switches, irq, others, hev, -, hnext⟩ := h.next
  have hsucc := instructions_succ h.1
  have hstep := silence_poll ((released b ev t).pins switches irq others).ports hpoll
  obtain ⟨u, htu, main', hmakes, hpoll', hbound⟩ :=
    exists_poll hinstructions hnext (staged_step _ _)
  exact ⟨switches, irq, others, hev, u, htu, main', hmakes, hpoll', by omega⟩

end Polls

/-! ### The program on the board -/

section Paced

variable {b : State} {ev : ℕ → Event} {main : Main} {d : ℕ} (h : Tracks main d b.machine)

include h

/-- A poll of the audio path is an access of the processor. -/
theorem makes_of_polls {t : ℕ} (ht : VisibleAt b ev t)
    (hpolls : AudioPath.Polls (b.audioPath main) (accesses b ev) (accessCount b ev t)) :
    ∃ main', AudioPath.released (b.audioPath main) (accesses b ev) (accessCount b ev t) =
        (released b ev t).audioPath main' ∧ Makes b ev main' t ∧ main'.access = .dataReady := by
  obtain ⟨main', d', hstate, htracks⟩ := follows_released h ev t
  obtain ⟨hclock, haccess⟩ := hpolls
  rw [hstate] at haccess
  rw [(accessCount_visible b ev ht).2, Event.isAudioClock_access] at hclock
  refine ⟨main', hstate, ⟨hclock, ?_⟩, haccess⟩
  -- it is visible, and no edge of the audio clock
  rcases ht with haudio | htransfers
  · exact absurd (hclock.symm.trans haudio) Bool.false_ne_true
  · change Transfers (ev t) (released b ev t) at htransfers
    cases hev : ev t with
    | audioClock =>
      rw [hev] at htransfers
      exact htransfers.elim
    | instruction switches irq others =>
      rw [hev] at htransfers
      rwa [htracks.eq_zero _ htransfers] at htracks

/-- An access of the processor that is a poll is one of the audio path. -/
theorem polls_of_makes {main' : Main} {t : ℕ} (hmakes : Makes b ev main' t)
    (hpoll : main'.access = .dataReady) : VisibleAt b ev t ∧
      AudioPath.Polls (b.audioPath main) (accesses b ev) (accessCount b ev t) := by
  obtain ⟨switches, irq, others, hev, htransfers, -⟩ := hmakes.next
  have ht : VisibleAt b ev t := .inr htransfers
  refine ⟨ht, ?_, ?_⟩
  · rw [(accessCount_visible b ev ht).2, hev]
    rfl
  · obtain ⟨main'', d', hstate, htracks⟩ := follows_released h ev t
    rw [hstate]
    exact (hmakes.2.access_eq htracks).trans hpoll

variable (hclock : Unbounded ev) {idle busy : ℕ} (hidle : Within ev 6 idle)
  (hbusy : Within ev 79 busy)

include hclock hidle

omit h in
/-- The processor does not stop either. -/
theorem unbounded_instructions (k : ℕ) : ∃ t, k ≤ instructions ev t := by
  induction k with
  | zero => exact ⟨0, Nat.zero_le _⟩
  | succ k ih =>
    obtain ⟨t, ht⟩ := ih
    obtain ⟨u, hu⟩ := hclock (edges ev t + idle + 1)
    refine ⟨u, ?_⟩
    by_contra hfew
    have htu : t ≤ u := by
      by_contra hlate
      have hmono := edges_mono ev (Nat.not_le.mp hlate).le
      omega
    have hwithin := hidle t u htu (by omega)
    omega

include hbusy

/-- From a poll of the audio path to the next one. -/
theorem next_poll {t' : ℕ} (hpolls : AudioPath.Polls (b.audioPath main) (accesses b ev) t') :
    ∃ u' > t', AudioPath.Polls (b.audioPath main) (accesses b ev) u' ∧
      edges (accesses b ev) u' ≤ edges (accesses b ev) t' +
        open Classical in if AudioPath.Triggers (b.audioPath main) (accesses b ev) t' then busy
          else idle := by
  obtain ⟨t, ht, rfl⟩ := exists_time b hclock t'
  obtain ⟨main', hstate, hmakes, haccess⟩ := makes_of_polls h ht hpolls
  obtain ⟨switches, irq, others, hev, u, htu, main'', hmakes', haccess', hbound⟩ :=
    poll_next (unbounded_instructions hclock hidle) hmakes haccess
  obtain ⟨hu, hpolls'⟩ := polls_of_makes h hmakes' haccess'
  refine ⟨accessCount b ev u, ?_, hpolls', ?_⟩
  · classical
    exact Nat.count_strict_mono ht htu
  · have haudio := (accessCount_visible b ev ht).2
    rw [hev] at haudio
    have htriggers : AudioPath.Triggers (b.audioPath main) (accesses b ev) (accessCount b ev t) ↔
        main'.triggers ((released b ev t).pins switches irq others).ports = true := by
      rw [AudioPath.Triggers, hstate]
      constructor
      · rintro ⟨switches', hother, hrise⟩
        rw [haudio] at hother
        cases hother
        exact hrise
      · exact fun hrise ↦ ⟨switches, haudio, hrise⟩
    rw [edges_accesses, edges_accesses, htriggers]
    rw [pollBudget] at hbound
    split_ifs at hbound ⊢
    · exact hbusy t u htu.le hbound
    · exact hidle t u htu.le hbound

/-- With bounds for six instructions and for 79 the program is paced. -/
theorem paced_accesses (hpoll : main.access = .dataReady) (hd : d ≤ 6) :
    Paced (b.audioPath main) (accesses b ev) idle busy where
  unbounded := unbounded_accesses b hclock
  first := by
    have hstart : Tracks main d (released b ev 0).machine := h
    obtain ⟨u, -, main', hmakes, haccess, hbound⟩ :=
      exists_poll (unbounded_instructions hclock hidle) hstart
        fun hother ↦ Equaliser.Access.noConfusion (hpoll.symm.trans hother)
    refine ⟨accessCount b ev u, (polls_of_makes h hmakes haccess).2, ?_⟩
    rw [hpoll] at hbound
    have hzero := edges_zero ev
    have hwithin := hidle 0 u (Nat.zero_le u) (hbound.trans (by rw [budget]; omega))
    rwa [hzero, Nat.zero_add, ← edges_accesses b ev u] at hwithin
  rests t' hpolls hrests := by
    obtain ⟨u', hafter, hpolls', hbound⟩ := next_poll h hclock hidle hbusy hpolls
    rw [if_neg hrests] at hbound
    exact ⟨u', hafter, hpolls', hbound⟩
  works t' htriggers := by
    obtain ⟨u', hafter, hpolls', hbound⟩ := next_poll h hclock hidle hbusy htriggers.polls
    rw [if_pos htriggers] at hbound
    exact ⟨u', hafter, hpolls', hbound⟩

end Paced

/-! ### From the ADC to the DAC -/

section View

variable {b : State} {ev : ℕ → Event} {main : Main} {d : ℕ} (hclock : Unbounded ev)

include hclock

/-- An edge of the audio clock is the same edge of the audio path. -/
theorem edgeTime_accesses (b : State) (k : ℕ) :
    edgeTime (accesses b ev) k = accessCount b ev (edgeTime ev k) ∧
      accesses b ev (accessCount b ev (edgeTime ev k)) = (ev (edgeTime ev k)).access := by
  have haudio := isAudioClock_edgeTime hclock k
  have hedges := edges_edgeTime hclock k
  have haccess := (accessCount_visible b ev (t := edgeTime ev k) (.inl haudio)).2
  have hkind := congrArg AudioPath.Event.isAudioClock haccess
  rw [Event.isAudioClock_access] at hkind
  have htime := edgeTime_edges (accesses b ev) (hkind.trans haudio)
  rw [edges_accesses, hedges] at htime
  exact ⟨htime, haccess⟩

theorem adcBits_accesses (b : State) : adcBits (accesses b ev) = adcBits ev := by
  funext k
  obtain ⟨htime, haccess⟩ := edgeTime_accesses hclock b k
  rw [adcBits, htime, haccess]
  exact Event.adcData_access _

/-- At the audio pins the board is the audio path. -/
theorem view_accesses (h : Tracks main d b.machine) :
    AudioPath.view (b.audioPath main) (accesses b ev) = view b ev := by
  funext k
  obtain ⟨main', d', hstate, -⟩ := follows_released h ev (edgeTime ev k)
  rw [AudioPath.view, (edgeTime_accesses hclock b k).1, hstate]
  rfl

end View

/-- The processor on the board, in any interleaving with the audio clock in which six instructions
take at most half a frame and, together with 79, end before the words are latched: both slots of
every frame carry the word that the program makes of the word received in the left slot of the frame
before the last. -/
theorem sent_of_tracks {b : State} {ev : ℕ → Event} {main : Main} {d idle busy : ℕ} {bassPrev : Int32}
    {setting : ℕ → Switches} (h : Tracks main d b.machine) (hd : d ≤ 6)
    (hwaiting : Waiting bassPrev main) (hclock : Unbounded ev) (hidle : Within ev 6 idle)
    (hbusy : Within ev 79 busy) (hhalf : idle ≤ 192) (hlatch : idle + busy ≤ 372)
    (hsetting : ∀ n t switches irq others, InFrame ev n t →
      ev t = .instruction switches irq others → switches = setting n) (n : ℕ) :
    msbFirst (sample (view b ev) (n + 1)) = received (view b ev) (adcBits ev) true n ∧
      ∀ slot, sent (view b ev) slot (n + 1) =
        msbFirst (filtered bassPrev (frame (view b ev) setting) n) := by
  have hpaced := paced_accesses h hclock hidle hbusy hwaiting.access hd
  have htimely : AudioPath.Timely (b.audioPath main) (accesses b ev) bassPrev :=
    hpaced.timely hwaiting hhalf hlatch
  have hsetting' : ∀ n t switches, InFrame (accesses b ev) n t →
      accesses b ev t = .access switches → switches = setting n := by
    intro n t' switches hin haccess
    obtain ⟨t, ht, rfl⟩ := exists_time b hclock t'
    rw [(accessCount_visible b ev ht).2] at haccess
    rw [InFrame, edges_accesses] at hin
    cases hev : ev t with
    | audioClock =>
      rw [hev] at haccess
      exact AudioPath.Event.noConfusion haccess
    | instruction switches' irq others =>
      rw [hev] at haccess
      cases haccess
      exact hsetting n t switches irq others hin hev
  have hsent := htimely.sent hsetting' n
  rw [view_accesses hclock h, adcBits_accesses hclock] at hsent
  exact hsent

/-! ### Edges and instructions in turn -/

section Alternating

variable (switches : Switches)

theorem isAudioClock_alternating (t : ℕ) :
    (alternating switches t).isAudioClock = decide (t % 2 = 0) := by
  rw [alternating]
  by_cases ht : t % 2 = 0
  · rw [if_pos ht]
    exact (decide_eq_true ht).symm
  · rw [if_neg ht]
    exact (decide_eq_false ht).symm

theorem counts_alternating (t : ℕ) : edges (alternating switches) t = (t + 1) / 2 ∧
    instructions (alternating switches) t = t / 2 := by
  induction t with
  | zero => exact ⟨rfl, rfl⟩
  | succ t ih =>
    have hkind := isAudioClock_alternating switches t
    by_cases ht : t % 2 = 0
    · have haudio := hkind.trans (decide_eq_true ht)
      have hrest : instructions (alternating switches) (t + 1) =
          instructions (alternating switches) t :=
        ticks_succ_rest (by rw [haudio]; exact Bool.noConfusion)
      rw [edges_succ_audioClock _ haudio, hrest, ih.1, ih.2]
      omega
    · have hinstruction := hkind.trans (decide_eq_false ht)
      rw [edges_succ_rest _ hinstruction, instructions_succ hinstruction, ih.1, ih.2]
      omega

theorem unbounded_alternating : Unbounded (alternating switches) := fun k ↦
  ⟨2 * k, by rw [(counts_alternating switches _).1]; omega⟩

theorem setting_alternating {t : ℕ} {switches' : Switches} {irq : Bool}
    {others : Nios.Slave → BitVec 2 → Nios.Word}
    (ht : alternating switches t = .instruction switches' irq others) : switches' = switches := by
  rw [alternating] at ht
  split_ifs at ht
  exact (Event.instruction.inj ht).1.symm

theorem within_alternating (count : ℕ) : Within (alternating switches) count (count + 1) := by
  intro t u htu hcount
  rw [(counts_alternating switches t).2, (counts_alternating switches u).2] at hcount
  rw [(counts_alternating switches t).1, (counts_alternating switches u).1]
  omega

end Alternating

end AudioProcessor.Board
