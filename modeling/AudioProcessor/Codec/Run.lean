import AudioProcessor.Codec.Frames

/-!
# Runs of the codec controller

The divider makes a tick of the 20 kHz domain at every 2500th edge of the 50 MHz clock, so along a
run the 20 kHz domain is a run of its own (`slow_run`), whose tick `i` reads what is present around
edge `tickEdge s i`.

The slave is a stream of answers: what it answers in each cycle if it is asked. The sequencer reads
the line in the acknowledge slots only, so an answer outside of them has no effect
(`Slow.tick_inAckSlot`).
-/

set_option autoImplicit false
set_option relaxedAutoImplicit false

namespace AudioProcessor.Codec

/-- An answer outside the acknowledge slots does not matter: the slave may be taken to pull the
line in these slots only. -/
theorem Slow.tick_inAckSlot (i : TickInputs) (s : Slow) :
    s.tick { i with pull := i.pull && s.i2c.inAckSlot } = s.tick i := by
  cases hslot : s.i2c.inAckSlot
  · have hsame : ∀ data sdat, s.i2c.transfer data sdat = s.i2c.transfer data true :=
      fun data sdat ↦ Sequencer.transfer_sdat data sdat hslot
    unfold tick Sequencer.tick
    simp only [hsame]
    rfl
  · simp only [Bool.and_true]

/-! ### The divider -/

/-- The registers of the divider are in step: the clock is high in the upper half of the count. -/
structure State.Divided (s : State) : Prop where
  lt : s.i2cClockCounter < 2500
  clock : s.i2cClock20KHz = decide (1250 < s.i2cClockCounter)

theorem State.divided_asyncReset (s : State) : s.asyncReset.Divided :=
  ⟨Nat.succ_pos 2499, rfl⟩

/-- The divider in step counts modulo 2500. -/
theorem State.Divided.divider {s : State} (h : s.Divided) :
    s.divider = ((s.i2cClockCounter + 1) % 2500,
      decide (1250 < (s.i2cClockCounter + 1) % 2500)) := by
  have hlt := h.lt
  unfold State.divider
  split_ifs with hlow hhigh
  · rw [Nat.mod_eq_of_lt (by omega), decide_eq_false (by omega)]
  · rw [Nat.mod_eq_of_lt (by omega), decide_eq_true (by omega)]
  · rw [show s.i2cClockCounter + 1 = 2500 by omega]
    rfl

section Step

variable (before after : Signals) (pull : Bool) (s : State)

/-- An edge with the reset released. -/
theorem step_released : step true before after pull s =
    if !s.i2cClock20KHz && s.divider.2 then
      { s.clockEdge before with slow := s.slow.tick ⟨before, after, s.volLevel, pull⟩ }
    else s.clockEdge before := rfl

theorem step_divider :
    (step true before after pull s).i2cClockCounter = s.divider.1 ∧
      (step true before after pull s).i2cClock20KHz = s.divider.2 := by
  rw [step_released]
  split_ifs <;> exact ⟨rfl, rfl⟩

@[simp] theorem step_volLevel :
    (step true before after pull s).volLevel = s.nextVolLevel before := by
  rw [step_released]
  split_ifs <;> rfl

@[simp] theorem step_volUpRegFast :
    (step true before after pull s).volUpRegFast = before.volUp := by
  rw [step_released]
  split_ifs <;> rfl

@[simp] theorem step_volDownRegFast :
    (step true before after pull s).volDownRegFast = before.volDown := by
  rw [step_released]
  split_ifs <;> rfl

variable {s} (h : s.Divided)

include h

theorem divided_step : (step true before after pull s).Divided := by
  obtain ⟨hcounter, hclock⟩ := step_divider before after pull s
  rw [h.divider] at hcounter hclock
  exact ⟨hcounter ▸ Nat.mod_lt _ (Nat.succ_pos 2499), by rw [hclock, hcounter]⟩

/-- The 20 kHz domain makes a tick at the edges that find the count at 1250, and rests at the
others. -/
theorem step_slow : (step true before after pull s).slow =
    if s.i2cClockCounter = 1250 then s.slow.tick ⟨before, after, s.volLevel, pull⟩
    else s.slow := by
  have hlt := h.lt
  have hrise : (!s.i2cClock20KHz && s.divider.2) = decide (s.i2cClockCounter = 1250) := by
    rw [h.clock, h.divider, ← decide_not, ← Bool.decide_and]
    refine decide_eq_decide.mpr ⟨fun hedge ↦ ?_, fun hedge ↦ ?_⟩ <;> omega
  rw [step_released, hrise]
  by_cases hcount : s.i2cClockCounter = 1250
  · rw [if_pos (decide_eq_true hcount), if_pos hcount]
  · rw [if_neg (by rwa [decide_eq_true_eq]), if_neg hcount]
    rfl

end Step

/-! ### Runs -/

/-- The registers after a number of edges with the reset released, from the registers `s`:
`signals t` are the ports in cycle `t`, and `answers t` is what the slave answers in it. -/
def run (s : State) (signals : ℕ → Signals) (answers : ℕ → Bool) : ℕ → State :=
  Clocked.run (fun t ↦ step true (signals t) (signals (t + 1)) (answers t)) s id

/-- The registers after a number of edges after a reset. -/
def released (s : State) (signals : ℕ → Signals) (answers : ℕ → Bool) : ℕ → State :=
  run s.asyncReset signals answers

/-- The edge at which the divider makes tick `i`. -/
def tickEdge (s : State) (i : ℕ) : ℕ := (3750 - s.i2cClockCounter) % 2500 + 2500 * i

theorem tickEdge_asyncReset (s : State) (i : ℕ) :
    tickEdge s.asyncReset i = 1250 + 2500 * i := by
  simp [tickEdge, State.asyncReset]

/-- How many ticks there were before edge `t`. -/
def ticksBefore (s : State) (t : ℕ) : ℕ :=
  (s.i2cClockCounter + t + 1249) / 2500 - (s.i2cClockCounter + 1249) / 2500

theorem tickEdge_add (s : State) (i k : ℕ) : tickEdge s (i + k) = tickEdge s i + 2500 * k := by
  rw [tickEdge, tickEdge, Nat.mul_add, Nat.add_assoc]

theorem tickEdge_succ (s : State) (i : ℕ) : tickEdge s (i + 1) = tickEdge s i + 2500 :=
  tickEdge_add s i 1

/-- Some tick is the first at edge `a` or a later one, and it is less than a period late. -/
theorem exists_firstTick {s : State} (h : s.Divided) (a : ℕ) :
    ∃ N, (∀ k < N, tickEdge s k < a) ∧ a ≤ tickEdge s N ∧ tickEdge s N < a + 2500 := by
  have hlt := h.lt
  refine ⟨ticksBefore s a, fun k hk ↦ ?_, ?_, ?_⟩
  · rw [ticksBefore] at hk
    rw [tickEdge]
    omega
  · rw [tickEdge, ticksBefore]
    omega
  · rw [tickEdge, ticksBefore]
    omega

section Run

variable {s : State} (h : s.Divided) (signals : ℕ → Signals) (answers : ℕ → Bool)

/-- What tick `i` of a run reads. -/
def tickInputs (s : State) (signals : ℕ → Signals) (answers : ℕ → Bool) (i : ℕ) : TickInputs where
  before := signals (tickEdge s i)
  after := signals (tickEdge s i + 1)
  volLevel := (run s signals answers (tickEdge s i)).volLevel
  pull := answers (tickEdge s i)

theorem run_succ (t : ℕ) : run s signals answers (t + 1) =
    step true (signals t) (signals (t + 1)) (answers t) (run s signals answers t) := rfl

include h

theorem divided_run (t : ℕ) : (run s signals answers t).Divided :=
  Clocked.invariant_run h (fun _ _ hs ↦ divided_step _ _ _ hs) t

theorem run_i2cClockCounter (t : ℕ) :
    (run s signals answers t).i2cClockCounter = (s.i2cClockCounter + t) % 2500 := by
  induction t with
  | zero => exact (Nat.mod_eq_of_lt h.lt).symm
  | succ t ih =>
    rw [run_succ, (step_divider _ _ _ _).1, (divided_run h signals answers t).divider, ih,
      Nat.mod_add_mod, Nat.add_assoc]

omit h in
theorem count_ticks (t : ℕ) :
    Nat.count (fun t ↦ (s.i2cClockCounter + t) % 2500 = 1250) t = ticksBefore s t := by
  induction t with
  | zero => simp [ticksBefore]
  | succ t ih =>
    rw [Nat.count_succ, ih, ticksBefore, ticksBefore]
    split_ifs <;> omega

omit h in
theorem nth_tick (hlt : s.i2cClockCounter < 2500) (i : ℕ) :
    Nat.nth (fun t ↦ (s.i2cClockCounter + t) % 2500 = 1250) i = tickEdge s i := by
  have hactive : (s.i2cClockCounter + tickEdge s i) % 2500 = 1250 := by
    rw [tickEdge]
    omega
  have hcount : ticksBefore s (tickEdge s i) = i := by
    rw [ticksBefore, tickEdge]
    omega
  have hnth := Nat.nth_count (p := fun t ↦ (s.i2cClockCounter + t) % 2500 = 1250) hactive
  rwa [count_ticks, hcount] at hnth

/-- The 20 kHz domain along a run is a run of its own. -/
theorem slow_run (t : ℕ) : (run s signals answers t).slow =
    s.slow.run (tickInputs s signals answers) (ticksBefore s t) := by
  have hedge : ∀ t, (run s signals answers (t + 1)).slow =
      if (s.i2cClockCounter + t) % 2500 = 1250 then
        (run s signals answers t).slow.tick
          ⟨signals t, signals (t + 1), (run s signals answers t).volLevel, answers t⟩
      else (run s signals answers t).slow := by
    intro t
    rw [run_succ, step_slow _ _ _ (divided_run h signals answers t), run_i2cClockCounter h]
  have hcomponent := Clocked.component_run State.slow Slow.tick
    (fun t ↦ ⟨signals t, signals (t + 1), (run s signals answers t).volLevel, answers t⟩)
    (fun t ↦ (s.i2cClockCounter + t) % 2500 = 1250)
    (fun t ht ↦ (hedge t).trans (if_pos ht)) (fun t ht ↦ (hedge t).trans (if_neg ht)) t
  rw [count_ticks] at hcomponent
  have hnth : ∀ i, Nat.nth (fun t ↦ (s.i2cClockCounter + t) % 2500 = 1250) i = tickEdge s i :=
    nth_tick h.lt
  simp only [hnth] at hcomponent
  exact hcomponent

/-- Before edge `tickEdge s n` there were `n` ticks. -/
theorem slow_tickEdge (n : ℕ) : (run s signals answers (tickEdge s n)).slow =
    s.slow.run (tickInputs s signals answers) n := by
  have hlt := h.lt
  rw [slow_run h, show ticksBefore s (tickEdge s n) = n by rw [ticksBefore, tickEdge]; omega]

end Run

/-! ### Ticks after a reset -/

/-- The 20 kHz domain before tick `n` after a reset. -/
def beforeTick (s : State) (signals : ℕ → Signals) (answers : ℕ → Bool) (n : ℕ) : Slow :=
  (released s signals answers (1250 + 2500 * n)).slow

section Released

variable (s : State) (signals : ℕ → Signals) (answers : ℕ → Bool)

/-- The ticks after a reset are a run of the 20 kHz domain. -/
theorem beforeTick_eq_run (n : ℕ) : beforeTick s signals answers n =
    s.slow.asyncReset.run (tickInputs s.asyncReset signals answers) n := by
  rw [beforeTick, released, ← tickEdge_asyncReset s n]
  exact slow_tickEdge s.divided_asyncReset signals answers n

/-- At any time after a reset the 20 kHz domain is as it is before the next tick. -/
theorem slow_released (t : ℕ) :
    (released s signals answers t).slow = beforeTick s signals answers ((t + 1249) / 2500) := by
  rw [beforeTick_eq_run, released, slow_run s.divided_asyncReset]
  congr 1
  simp [ticksBefore, State.asyncReset]

/-- The divided clock after a reset is high in the last 1249 cycles of each period. -/
theorem i2cClock20KHz_released (t : ℕ) :
    (released s signals answers t).i2cClock20KHz = decide (1250 < t % 2500) := by
  rw [released, (divided_run s.divided_asyncReset signals answers t).clock,
    run_i2cClockCounter s.divided_asyncReset]
  simp [State.asyncReset]

end Released

end AudioProcessor.Codec
