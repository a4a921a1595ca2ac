import AudioProcessor.Equaliser.Main

/-!
# The polling loop as an offline filter

The loop of `main` against a specification in two stages: `risingEdges` selects the polls that see
the ready flag high where the poll before saw it low, and `offline` folds the arithmetic of a frame
over the samples and switch settings of these polls alone. Whatever the ports show otherwise, the
program writes what the offline filter gives (`writes_polled`): its two pieces of state, the
accumulator and the last level of the flag, are those of the two stages (`Polling`).
-/

set_option autoImplicit false
set_option relaxedAutoImplicit false

namespace AudioProcessor.Equaliser

/-- What the ports show at each access that the program may make from one poll up to the next. -/
def Poll : Type := Access → Ports

/-- The level of the flag that the poll reads. -/
def Poll.ready (p : Poll) : BitVec 1 := (p .dataReady).dataReady

/-- The sample and the switches that the program reads after the poll, if it reads them. -/
def Poll.frame (p : Poll) : Frame where
  inLeft := (p .inLeft).inLeft
  bassStageSwitch := (p .bassStageSwitch).bassStageSwitch
  trebleStageSwitch := (p .trebleStageSwitch).trebleStageSwitch

/-- At most `count` accesses of the program, up to where it polls again. -/
def Main.untilPoll (p : Poll) : ℕ → Main → List Ports
  | 0, _ => []
  | count + 1, m => p m.access ::
      if (m.step (p m.access)).access = .dataReady then []
      else Main.untilPoll p count (m.step (p m.access))

/-- One pass through the loop: the accesses from a poll up to the next one. -/
def Main.iteration (p : Poll) (m : Main) : List Ports := m.untilPoll p 6

/-- The accesses of the program on a sequence of polls. -/
def Main.polled : List Poll → Main → List Ports
  | [], _ => []
  | p :: polls, m => m.iteration p ++ Main.polled polls (m.accesses (m.iteration p))

/-- The program after a sequence of polls. -/
def afterPolls (polls : List Poll) : Main := Main.start.accesses (Main.start.polled polls)

/-! ### The specification -/

/-- The poll sees the flag high, and the one before saw it low. -/
def Poll.Rises (last : BitVec 1) (p : Poll) : Prop := p.ready = 1 ∧ last = 0

instance (last : BitVec 1) (p : Poll) : Decidable (p.Rises last) := instDecidableAnd

/-- What the program is to read at the polls that see the flag rise. -/
def risingEdges : BitVec 1 → List Poll → List Frame
  | _, [] => []
  | last, p :: polls =>
    if p.Rises last then p.frame :: risingEdges p.ready polls else risingEdges p.ready polls

/-- The words that the arithmetic makes of a sequence of frames. -/
def offline : Int32 → List Frame → List (BitVec 16)
  | _, [] => []
  | acc, f :: frames => iowr (f.body acc).limited :: offline (f.body acc).bassPrev frames

/-- The accumulator after a sequence of frames. -/
def offlineAccumulator (acc : Int32) (frames : List Frame) : Int32 :=
  frames.foldl (fun acc f ↦ (f.body acc).bassPrev) acc

/-- A word written to both outputs. -/
def bothOutputs (word : BitVec 16) : List (Output × BitVec 16) := [(.outLeft, word), (.outRight, word)]

/-- The level of the flag at the last poll, low before the first one. -/
def lastReady (polls : List Poll) : BitVec 1 := (polls.getLast?.map Poll.ready).getD 0

/-! ### One pass through the loop -/

theorem Main.writes_append (ports ports' : List Ports) (m : Main) :
    m.writes (ports ++ ports') = m.writes ports ++ (m.accesses ports).writes ports' := by
  induction ports generalizing m with
  | nil => rfl
  | cons p ports ih =>
    rw [List.cons_append, writes, ih, writes, List.append_assoc]
    rfl

theorem Main.accesses_append (ports ports' : List Ports) (m : Main) :
    m.accesses (ports ++ ports') = (m.accesses ports).accesses ports' :=
  List.foldl_append

/-- The level of the flag as the program keeps it. -/
def readyByte (ready : BitVec 1) : UInt8 := UInt8.ofBitVec ((iord ready).setWidth 8)

theorem readyByte_eq_iff (ready : BitVec 1) :
    ((readyByte ready == 1) = true ↔ ready = 1) ∧ ((readyByte ready == 0) = true ↔ ready = 0) := by
  revert ready
  decide

/-- The program is polling: it has the accumulator and the last level of the flag. -/
structure Polling (acc : Int32) (last : BitVec 1) (m : Main) : Prop where
  access : m.access = .dataReady
  lastReady : m.lastReady = readyByte last
  bassPrev : m.bassPrev = acc

section Iteration

variable {acc : Int32} {last : BitVec 1} {m : Main} (h : Polling acc last m) (p : Poll)

include h

/-- The program sees the rise. -/
theorem Polling.triggers_iff : m.triggers (p .dataReady) = true ↔ p.Rises last := by
  rw [Main.triggers, h.access, beq_self_eq_true, Bool.true_and, Bool.and_eq_true, h.lastReady]
  exact and_congr (readyByte_eq_iff _).1 (readyByte_eq_iff _).2

/-- A poll that sees a rise is followed by the reads and writes of a frame: two writes of one word,
and the accumulator moves. -/
theorem Polling.iteration_rises (hrises : p.Rises last) :
    m.writes (m.iteration p) = bothOutputs (iowr (p.frame.body acc).limited) ∧
      Polling (p.frame.body acc).bassPrev p.ready (m.accesses (m.iteration p)) := by
  obtain ⟨haccess, -, rfl⟩ := id h
  have hstep := Main.step_of_triggers ((h.triggers_iff p).mpr hrises)
  have hlist : m.iteration p = [p .dataReady, p .inLeft, p .bassStageSwitch, p .trebleStageSwitch,
      p .outLeft, p .outRight] := by
    rw [Main.iteration, Main.untilPoll, haccess, hstep]
    rfl
  have hwrite : m.write = none := by rw [Main.write, haccess]
  rw [hlist, Main.writes, hwrite, hstep, Main.accesses, List.foldl_cons, hstep]
  exact ⟨rfl, rfl, rfl, rfl⟩

/-- Any other poll only keeps the level of the flag. -/
theorem Polling.iteration_rests (hrests : ¬ p.Rises last) :
    m.writes (m.iteration p) = [] ∧ Polling acc p.ready (m.accesses (m.iteration p)) := by
  have htriggers := Bool.eq_false_of_not_eq_true fun htriggers ↦
    hrests ((h.triggers_iff p).mp htriggers)
  have hstep := Main.step_of_poll h.access htriggers
  have hlist : m.iteration p = [p .dataReady] := by
    rw [Main.iteration, Main.untilPoll, h.access, hstep, if_pos h.access]
  have hwrite : m.write = none := by rw [Main.write, h.access]
  rw [hlist, Main.writes, hwrite, Main.accesses, List.foldl_cons, hstep]
  exact ⟨rfl, h.access, rfl, h.bassPrev⟩

end Iteration

/-! ### Sequences of polls -/

/-- The program on a sequence of polls, from any point at which it polls. -/
theorem Polling.polled {acc : Int32} {last : BitVec 1} {m : Main} (h : Polling acc last m)
    (polls : List Poll) :
    m.writes (m.polled polls) = (offline acc (risingEdges last polls)).flatMap bothOutputs ∧
      Polling (offlineAccumulator acc (risingEdges last polls))
        ((polls.getLast?.map Poll.ready).getD last) (m.accesses (m.polled polls)) := by
  induction polls generalizing acc last m with
  | nil => exact ⟨rfl, h⟩
  | cons p polls ih =>
    have hlast : (((p :: polls).getLast?).map Poll.ready).getD last =
        (polls.getLast?.map Poll.ready).getD p.ready := by
      rw [List.getLast?_cons]
      cases polls.getLast? <;> rfl
    rw [Main.polled, Main.writes_append, Main.accesses_append, risingEdges, hlast]
    by_cases hrises : p.Rises last
    · obtain ⟨hwrites, hpolling⟩ := h.iteration_rises p hrises
      obtain ⟨hrest, hend⟩ := ih hpolling
      rw [if_pos hrises, hwrites, hrest]
      exact ⟨rfl, hend⟩
    · obtain ⟨hwrites, hpolling⟩ := h.iteration_rests p hrises
      obtain ⟨hrest, hend⟩ := ih hpolling
      rw [if_neg hrises, hwrites, hrest]
      exact ⟨rfl, hend⟩

theorem Main.polled_concat (polls : List Poll) (p : Poll) (m : Main) :
    m.polled (polls ++ [p]) =
      m.polled polls ++ (m.accesses (m.polled polls)).iteration p := by
  induction polls generalizing m with
  | nil => exact List.append_nil _
  | cons q polls ih =>
    rw [List.cons_append, polled, ih, polled, List.append_assoc, accesses_append]

theorem afterPolls_concat (polls : List Poll) (p : Poll) :
    afterPolls (polls ++ [p]) = (afterPolls polls).accesses ((afterPolls polls).iteration p) := by
  rw [afterPolls, Main.polled_concat, Main.accesses_append]
  rfl

theorem polling_start : Polling 0 0 Main.start := ⟨rfl, rfl, rfl⟩

/-- On every sequence of polls the program writes the words of the offline filter over the polls
that see the flag rise, each to both outputs, and has its accumulator. A further poll that sees a
rise makes one write to each output, of the same word; any other poll makes none and leaves the
accumulator as it is. -/
theorem writes_polled (polls : List Poll) :
    Main.start.writes (Main.start.polled polls) =
        (offline 0 (risingEdges 0 polls)).flatMap bothOutputs ∧
      (afterPolls polls).bassPrev = offlineAccumulator 0 (risingEdges 0 polls) ∧
      ∀ p : Poll, (afterPolls polls).access = .dataReady ∧
        if p.ready = 1 ∧ lastReady polls = 0 then
          (afterPolls polls).writes ((afterPolls polls).iteration p) =
              bothOutputs (iowr (p.frame.body (afterPolls polls).bassPrev).limited) ∧
            (afterPolls (polls ++ [p])).bassPrev =
              (p.frame.body (afterPolls polls).bassPrev).bassPrev
        else
          (afterPolls polls).writes ((afterPolls polls).iteration p) = [] ∧
            (afterPolls (polls ++ [p])).bassPrev = (afterPolls polls).bassPrev := by
  obtain ⟨hwrites, hpolling⟩ := polling_start.polled polls
  refine ⟨hwrites, hpolling.bassPrev, fun p ↦ ⟨hpolling.access, ?_⟩⟩
  rw [afterPolls_concat, show (afterPolls polls).bassPrev = _ from hpolling.bassPrev]
  split_ifs with hrises
  · obtain ⟨htwice, hnext⟩ := hpolling.iteration_rises p hrises
    exact ⟨htwice, hnext.bassPrev⟩
  · obtain ⟨hnone, hnext⟩ := hpolling.iteration_rests p hrises
    exact ⟨hnone, hnext.bassPrev⟩

end AudioProcessor.Equaliser
