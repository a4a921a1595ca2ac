import AudioProcessor.Codec.Bus
import AudioProcessor.Codec.Transfers
import AudioProcessor.Library.Monitor

/-!
# What the slave acknowledges

The words that the slave at address `0x34` has acknowledged, as a monitor of the bus sees them, and
the positions of the controller's table that they belong to. What the slave does with a word is its
own affair.

Whatever the buttons and the slave do, only words of the table are acknowledged
(`acknowledged_words`). In `stop` there is one for every position from 3 on, and the last one of each
has a volume that the controller may have; the positions before are there as well if some pass was
begun without a volume pulse, and otherwise none of them is (`acknowledged_stop`).
-/

set_option autoImplicit false
set_option relaxedAutoImplicit false

namespace AudioProcessor.Codec

open TwoWire (Event Monitor)

/-! ### Acknowledged words -/

/-- The word of a transfer to address `0x34` of which every byte was acknowledged. -/
def acknowledgedWord : List (BitVec 8 × Bool) → Option (BitVec 16)
  | [(address, false), (high, false), (low, false)] =>
    if address = 0x34 then some (high ++ low) else none
  | _ => none

/-- The acknowledged words of some transfers. -/
def wordsOf (transfers : List (List (BitVec 8 × Bool))) : List (BitVec 16) :=
  transfers.filterMap acknowledgedWord

/-- The words that were acknowledged in the events of a bus. -/
def acknowledgedWords (events : List Event) : List (BitVec 16) :=
  wordsOf (Monitor.read events).transfers

/-- The volumes that the controller sends: a level above the bottom, or the one that is muted. -/
def Allowed (volume : BitVec 7) : Prop := volume = 0b0110000 ∨ 0b1100101 < volume

/-- The word is one that the table has for a position. -/
def IsWord (pos : ℕ) (word : BitVec 16) : Prop := ∃ volume, word = i2cData pos volume

instance (pos : ℕ) : DecidablePred (IsWord pos) := fun word ↦
  inferInstanceAs (Decidable (∃ volume, word = i2cData pos volume))

/-- The last word for a position. -/
def lastFor (pos : ℕ) (words : List (BitVec 16)) : Option (BitVec 16) :=
  (words.filter fun word ↦ IsWord pos word).getLast?

/-- The last word for a position is one that the controller has for it. -/
def Holds (pos : ℕ) (words : List (BitVec 16)) : Prop :=
  ∃ volume, Allowed volume ∧ lastFor pos words = some (i2cData pos volume)

instance : DecidablePred Frame.Acknowledged := fun f ↦
  inferInstanceAs (Decidable (f.ack1 = false ∧ f.ack2 = false ∧ f.ack3 = false))

theorem allowed_effectiveVol (isMuted : Bool) (volLevel : BitVec 7) :
    Allowed (effectiveVol isMuted volLevel) := by
  rw [effectiveVol]
  split_ifs with hmuted
  · exact .inl rfl
  · rw [Bool.or_eq_true, not_or, decide_eq_true_eq] at hmuted
    exact .inr (BitVec.not_le.mp hmuted.2)

/-- The bytes of a frame with the levels in their acknowledge slots. -/
def Frame.bytes (f : Frame) : List (BitVec 8 × Bool) :=
  [(0x34, f.ack1), (f.word.extractLsb' 8 8, f.ack2), (f.word.extractLsb' 0 8, f.ack3)]

theorem Frame.events_eq (f : Frame) : f.events = TwoWire.transfer f.bytes := by
  simp [events, TwoWire.transfer, bytes]

/-- A frame adds its word if every byte was acknowledged. -/
theorem acknowledgedWords_events (before : List Event) (f : Frame) :
    acknowledgedWords (before ++ f.events) =
      acknowledgedWords before ++ if f.Acknowledged then [f.word] else [] := by
  have hword : f.word.extractLsb' 8 8 ++ f.word.extractLsb' 0 8 = f.word :=
    (BitVec.extractLsb'_append_extractLsb'_eq_extractLsb' (by rfl)).trans BitVec.extractLsb'_eq_self
  have hframe : [f.bytes].filterMap acknowledgedWord = if f.Acknowledged then [f.word] else [] := by
    obtain ⟨pos, volume, ack1, ack2, ack3⟩ := f
    cases ack1 <;> cases ack2 <;> cases ack3 <;>
      simp [Frame.bytes, acknowledgedWord, Frame.Acknowledged, hword]
  rw [acknowledgedWords, Monitor.read_append, Frame.events_eq, TwoWire.read_transfer,
    Monitor.waiting, wordsOf, List.filterMap_append, hframe]
  rfl

/-- Before the STOP of a transfer nothing is added. -/
theorem acknowledgedWords_of_not_stop (before events : List Event) (hstop : Event.stop ∉ events) :
    acknowledgedWords (before ++ events) = acknowledgedWords before := by
  rw [acknowledgedWords, Monitor.read_append, Monitor.transfers_foldl events hstop, acknowledgedWords]

/-! ### The words of the table -/

/-- The position a word of the table belongs to: its upper seven bits count them from position 1
on. -/
def position (word : BitVec 16) : ℕ := if word = 0 then 0 else (word.extractLsb' 9 7).toNat + 1

theorem position_i2cData {pos : ℕ} (hpos : pos ≤ 10) (volume : BitVec 7) :
    position (i2cData pos volume) = pos := by
  revert volume
  interval_cases pos <;> decide

/-- The words of the table tell their positions. -/
theorem isWord_i2cData {pos other : ℕ} (hpos : pos ≤ 10) (hother : other ≤ 10) (volume : BitVec 7) :
    IsWord pos (i2cData other volume) ↔ other = pos := by
  constructor
  · rintro ⟨volume', hword⟩
    rw [← position_i2cData hother volume, hword, position_i2cData hpos]
  · rintro rfl
    exact ⟨volume, rfl⟩

theorem lastFor_concat {pos other : ℕ} (hpos : pos ≤ 10) (hother : other ≤ 10)
    (words : List (BitVec 16)) (volume : BitVec 7) :
    lastFor pos (words ++ [i2cData other volume]) =
      if other = pos then some (i2cData other volume) else lastFor pos words := by
  rw [lastFor, List.filter_append]
  split_ifs with hsame
  · rw [List.filter_singleton, decide_eq_true ((isWord_i2cData hpos hother volume).mpr hsame)]
    exact List.getLast?_concat
  · rw [List.filter_singleton,
      decide_eq_false fun h ↦ hsame ((isWord_i2cData hpos hother volume).mp h)]
    exact congrArg List.getLast? (List.append_nil _)

/-- Another word of the table leaves a position with a word of its own. -/
theorem Holds.concat {pos other : ℕ} {words : List (BitVec 16)} (h : Holds pos words)
    (hpos : pos ≤ 10) (hother : other ≤ 10) {volume : BitVec 7} (hallowed : Allowed volume) :
    Holds pos (words ++ [i2cData other volume]) := by
  rw [Holds, lastFor_concat hpos hother]
  split_ifs with hsame
  · exact ⟨volume, hallowed, by rw [hsame]⟩
  · exact h

/-! ### What is acknowledged in a run -/

/-- A pass was begun at position 0: the state machine jumped without a volume pulse. -/
def BegunAtZero (x : ℕ → Slow) (inputs : ℕ → TickInputs) (n : ℕ) : Prop :=
  ∃ m < n, (x m).currentState = .resetState ∧ (inputs m).pulse = false

theorem BegunAtZero.mono {x : ℕ → Slow} {inputs : ℕ → TickInputs} {m n : ℕ}
    (h : BegunAtZero x inputs m) (hle : m ≤ n) : BegunAtZero x inputs n := by
  obtain ⟨k, hk, hjumps⟩ := h
  exact ⟨k, hk.trans_le hle, hjumps⟩

/-- A position is over in this pass, or no pass is under way at tick `n`. -/
def Phase.Done (pos n : ℕ) : Phase → Prop
  | .jump => 0 < n
  | .frame other ticks => pos < other ∨ pos = other ∧ 33 < ticks
  | .finished => True
  | .hung _ => False
  | .stop => True

namespace Slow

/-- The words acknowledged before tick `n`. -/
def words (start : Slow) (inputs : ℕ → TickInputs) : ℕ → List (BitVec 16)
  | 0 => []
  | n + 1 => words start inputs n ++
      match (start.run inputs n).phase with
      | .frame pos 32 =>
        if (frameAt inputs (n - 32) pos).Acknowledged then [(frameAt inputs (n - 32) pos).word]
        else []
      | _ => []

variable {start : Slow} {inputs : ℕ → TickInputs} {slave : ℕ → Bool}

theorem words_succ_of_ne {n : ℕ} (hphase : ∀ pos, (start.run inputs n).phase ≠ .frame pos 32) :
    words start inputs (n + 1) = words start inputs n := by
  rw [words]
  split
  · rename_i pos hframe
    exact absurd hframe (hphase pos)
  · exact List.append_nil _

theorem words_succ {n pos : ℕ} (hphase : (start.run inputs n).phase = .frame pos 32) :
    words start inputs (n + 1) = words start inputs n ++
      if (frameAt inputs (n - 32) pos).Acknowledged then [(frameAt inputs (n - 32) pos).word]
      else [] := by
  rw [words, hphase]
  rfl

variable (hstart : start.Valid)

include hstart

/-- A frame has no acknowledged word before its last acknowledge slot. -/
theorem words_frame {b pos : ℕ} (hbegin : (start.run inputs b).phase = .frame pos 0) {c : ℕ}
    (hc : c ≤ 32) : words start inputs (b + c) = words start inputs b := by
  induction c with
  | zero => rfl
  | succ c ih =>
    rw [← Nat.add_assoc, words_succ_of_ne fun other hphase ↦ ?_, ih (by omega)]
    rw [phase_frame hstart inputs hbegin (by omega)] at hphase
    cases hphase
    omega

theorem words_frame_end {b pos : ℕ} (hbegin : (start.run inputs b).phase = .frame pos 0) :
    words start inputs (b + 33) = words start inputs b ++
      if (frameAt inputs b pos).Acknowledged then [(frameAt inputs b pos).word] else [] := by
  rw [words_succ (phase_frame hstart inputs hbegin (show 32 ≤ 33 by omega)), Nat.add_sub_cancel,
    words_frame hstart hbegin (le_refl 32)]

/-- Between two frames the monitor has the words of the acknowledged ones. -/
theorem read_between (hjump : start.phase = .jump)
    (hpull : ∀ n, (inputs n).pull = slave (2 * n)) (n : ℕ)
    (hrests : Rests (start.run inputs n).phase) :
    ∃ before, bus (start.run inputs) slave n = ⟨⟨true, true⟩, none, before⟩ ∧
      acknowledgedWords before = words start inputs n := by
  induction n using Nat.strong_induction_on with
  | h n ih =>
  cases n with
  | zero =>
    have hlines := lines_of_rests hstart false (slave 0) hrests
    refine ⟨[], ?_, rfl⟩
    change TwoWire.Decoder.step ((start.run inputs 0).i2c.lines false (slave 0)) .idle = _
    rw [hlines]
    rfl
  | succ n =>
    by_cases hbefore : Rests (start.run inputs n).phase
    · obtain ⟨before, hbus, hread⟩ := ih n (Nat.lt_succ_self n) hbefore
      refine ⟨before, bus_rests hstart hbus hrests, ?_⟩
      rw [hread, words_succ_of_ne fun pos hphase ↦ ?_]
      have hmid := hbefore pos 32 hphase
      omega
    · -- the tick before was the last one of a frame
      obtain ⟨b, c, pos, rfl, hlow, hhigh, hbegin⟩ := begin_of_not_rests hstart hjump hbefore
      have hlast : c = 33 := by
        by_contra hne
        have hnext := phase_frame hstart inputs hbegin (show c + 1 ≤ 33 by omega)
        have := hrests pos (c + 1) hnext
        omega
      subst hlast
      obtain ⟨before, hbus, hread⟩ := ih b (by omega) (rests_of_begin hbegin)
      have hend := bus_frame hstart hbegin hpull hbus (le_refl 33)
      refine ⟨before ++ (frameAt inputs b pos).events, bus_rests hstart ?_ hrests, ?_⟩
      · rw [hend]
        simp [Frame.decoder, Frame.emitted]
      · rw [acknowledgedWords_events, hread, words_succ_of_ne fun other hphase ↦ ?_,
          words_frame_end hstart hbegin]
        rw [phase_frame hstart inputs hbegin (le_refl 33)] at hphase
        cases hphase

/-- Before every tick these are the words acknowledged on the bus. -/
theorem words_bus (hjump : start.phase = .jump) (hpull : ∀ n, (inputs n).pull = slave (2 * n))
    (n : ℕ) : acknowledgedWords (bus (start.run inputs) slave n).decoded = words start inputs n := by
  by_cases hrests : Rests (start.run inputs n).phase
  · obtain ⟨before, hbus, hread⟩ := read_between hstart hjump hpull n hrests
    rw [hbus]
    exact hread
  · obtain ⟨b, c, pos, rfl, -, hhigh, hbegin⟩ := begin_of_not_rests hstart hjump hrests
    obtain ⟨before, hbus, hread⟩ := read_between hstart hjump hpull b (rests_of_begin hbegin)
    rw [bus_frame hstart hbegin hpull hbus hhigh, Frame.decoder]
    dsimp only
    rcases Nat.lt_or_eq_of_le hhigh with hmid | rfl
    · rw [acknowledgedWords_of_not_stop, hread, words_frame hstart hbegin (by omega)]
      rw [Frame.emitted, if_pos hmid]
      split_ifs <;> simp
    · rw [Frame.emitted, if_neg (by omega), if_neg (by omega), acknowledgedWords_events, hread,
        words_frame_end hstart hbegin]

omit hstart in
theorem currentState_of_jump {s : Slow} (hphase : s.phase = .jump) : s.currentState = .resetState := by
  unfold phase at hphase
  split at hphase <;> (try split_ifs at hphase) <;> simp_all

/-- Positions before the output volumes are sent in passes that were begun at position 0 only. -/
theorem begunAtZero_of_frame (hjump : start.phase = .jump) {n pos c : ℕ}
    (hphase : (start.run inputs n).phase = .frame pos c) (hpos : pos < 3) :
    BegunAtZero (start.run inputs) inputs n := by
  induction n generalizing pos c with
  | zero => exact Phase.noConfusion (hjump.symm.trans hphase)
  | succ n ih =>
    rw [phase_run_succ hstart] at hphase
    cases hbefore : (start.run inputs n).phase with
    | jump =>
      rw [hbefore, Phase.next, Phase.frame.injEq] at hphase
      refine ⟨n, Nat.lt_succ_self n, currentState_of_jump hbefore, ?_⟩
      by_contra hvolume
      rw [if_pos ((Bool.not_eq_false _).mp hvolume)] at hphase
      omega
    | frame other ticks =>
      refine (ih hbefore ?_).mono (Nat.le_succ n)
      rw [hbefore, Phase.next] at hphase
      split_ifs at hphase <;> rw [Phase.frame.injEq] at hphase <;> omega
    | finished => rw [hbefore] at hphase; cases hphase
    | hung other => rw [hbefore] at hphase; cases hphase
    | stop =>
      rw [hbefore, Phase.next] at hphase
      split_ifs at hphase

/-- Only words of the table are acknowledged. -/
theorem mem_words (hjump : start.phase = .jump) {word : BitVec 16} {n : ℕ}
    (hword : word ∈ words start inputs n) : ∃ pos ≤ 10, ∃ volume, Allowed volume ∧
      word = i2cData pos volume ∧ (pos < 3 → BegunAtZero (start.run inputs) inputs n) := by
  induction n with
  | zero => exact absurd hword List.not_mem_nil
  | succ n ih =>
    have hearlier (hbefore : word ∈ words start inputs n) : ∃ pos ≤ 10, ∃ volume, Allowed volume ∧
        word = i2cData pos volume ∧ (pos < 3 → BegunAtZero (start.run inputs) inputs (n + 1)) := by
      obtain ⟨pos, hpos, volume, hallowed, hdata, hbegun⟩ := ih hbefore
      exact ⟨pos, hpos, volume, hallowed, hdata, fun h ↦ (hbegun h).mono (Nat.le_succ n)⟩
    by_cases hphase : ∃ pos, (start.run inputs n).phase = .frame pos 32
    · obtain ⟨pos, hphase⟩ := hphase
      rw [words_succ hphase, List.mem_append] at hword
      rcases hword with hword | hword
      · exact hearlier hword
      · split_ifs at hword
        · exact ⟨pos, (inFrame_of_frame (valid_run hstart inputs n) hphase).1, _,
            allowed_effectiveVol _ _, List.mem_singleton.mp hword,
            fun hpos ↦ (begunAtZero_of_frame hstart hjump hphase hpos).mono (Nat.le_succ n)⟩
        · exact absurd hword List.not_mem_nil
    · exact hearlier (by rwa [words_succ_of_ne fun pos h ↦ hphase ⟨pos, h⟩] at hword)

omit hstart in
/-- An acknowledged word stays. -/
theorem words_add (n k : ℕ) :
    ∃ later, words start inputs (n + k) = words start inputs n ++ later := by
  induction k with
  | zero => exact ⟨[], (List.append_nil _).symm⟩
  | succ k ih =>
    obtain ⟨later, hlater⟩ := ih
    rw [← Nat.add_assoc, words, hlater, List.append_assoc]
    exact ⟨_, rfl⟩

/-- A position that has a word of the controller keeps one. -/
theorem holds_add {pos : ℕ} (hpos : pos ≤ 10) {n : ℕ} (h : Holds pos (words start inputs n)) (k : ℕ) :
    Holds pos (words start inputs (n + k)) := by
  induction k with
  | zero => exact h
  | succ k ih =>
    rw [← Nat.add_assoc]
    by_cases hphase : ∃ other, (start.run inputs (n + k)).phase = .frame other 32
    · obtain ⟨other, hphase⟩ := hphase
      rw [words_succ hphase]
      split_ifs
      · exact ih.concat hpos (inFrame_of_frame (valid_run hstart inputs _) hphase).1
          (allowed_effectiveVol _ _)
      · rwa [List.append_nil]
    · rwa [words_succ_of_ne fun other h ↦ hphase ⟨other, h⟩]

/-- If no pass was begun at position 0 there is no word for the positions before the output
volumes. -/
theorem lastFor_of_not_begun (hjump : start.phase = .jump) {n : ℕ}
    (hbegun : ¬ BegunAtZero (start.run inputs) inputs n) {pos : ℕ} (hpos : pos < 3) :
    lastFor pos (words start inputs n) = none := by
  have hnone : (words start inputs n).filter (fun word ↦ IsWord pos word) = [] := by
    refine List.filter_eq_nil_iff.mpr fun word hword ↦ ?_
    obtain ⟨other, hother, volume, -, rfl, hlow⟩ := mem_words hstart hjump hword
    rw [decide_eq_true_eq, isWord_i2cData (by omega) hother]
    rintro rfl
    exact hbegun (hlow hpos)
  rw [lastFor, hnone]
  rfl

/-- A frame that goes on was acknowledged. -/
theorem holds_of_acked (hjump : start.phase = .jump) {n pos : ℕ}
    (hphase : (start.run inputs n).phase = .frame pos 33)
    (hack : (start.run inputs n).i2c.ackO = false) : Holds pos (words start inputs n) := by
  obtain ⟨hle, hbegin⟩ := phase_begin hstart inputs hjump hphase
  obtain ⟨b, rfl⟩ := Nat.exists_eq_add_of_le' hle
  rw [Nat.add_sub_cancel] at hbegin
  have hpulls := ackO_frame hstart inputs hbegin
  rw [hack, eq_comm, Bool.not_eq_false', Bool.and_eq_true, Bool.and_eq_true] at hpulls
  obtain ⟨⟨h1, h2⟩, h3⟩ := hpulls
  have hacked : (frameAt inputs b pos).Acknowledged := by
    rw [Frame.Acknowledged, frameAt, h1, h2, h3]
    exact ⟨rfl, rfl, rfl⟩
  have hpos := (inFrame_of_frame (valid_run hstart inputs b) hbegin).1
  refine ⟨(frameAt inputs b pos).effectiveVol, allowed_effectiveVol _ _, ?_⟩
  rw [words_frame_end hstart hbegin, if_pos hacked]
  exact (lastFor_concat hpos hpos _ _).trans (if_pos rfl)

/-- What is done with has a word: positions from the output volumes on in any run, and those before
where a pass was begun at position 0. -/
theorem holds_of_done (hjump : start.phase = .jump) {pos : ℕ} (hpos : pos ≤ 10) (n : ℕ)
    (hbegun : 3 ≤ pos ∨ BegunAtZero (start.run inputs) inputs n)
    (hdone : (start.run inputs n).phase.Done pos n) : Holds pos (words start inputs n) := by
  induction n with
  | zero =>
    rw [show (start.run inputs 0).phase = .jump from hjump] at hdone
    exact absurd hdone (Nat.lt_irrefl 0)
  | succ n ih =>
    have hsame (hother : (start.run inputs n).phase ≠ .jump) :
        3 ≤ pos ∨ BegunAtZero (start.run inputs) inputs n := by
      refine hbegun.imp id ?_
      rintro ⟨m, hm, hstate, hvolume⟩
      rcases Nat.lt_or_eq_of_le (Nat.le_of_lt_succ hm) with hlt | rfl
      · exact ⟨m, hlt, hstate, hvolume⟩
      · exact absurd (phase_of_resetState hstate) hother
    rw [phase_run_succ hstart] at hdone
    -- whether it is done before the last tick, or just now
    refine holds_add hstart hpos ?_ 1
    cases hphase : (start.run inputs n).phase with
    | jump =>
      -- only a pass that skips the input volumes leaves something to show
      rw [hphase, Phase.next] at hdone
      have hlow : pos < if (inputs n).pulse then 3 else 0 :=
        hdone.resolve_right fun h ↦ absurd h.2 (by decide)
      split_ifs at hlow with hvolume
      · obtain ⟨m, hm, hstate, hquiet⟩ := hbegun.resolve_left (by omega)
        have hlt : m < n := by
          refine Nat.lt_of_le_of_ne (Nat.le_of_lt_succ hm) fun hmn ↦ ?_
          rw [hmn, hvolume] at hquiet
          cases hquiet
        refine ih (.inr ⟨m, hlt, hstate, hquiet⟩) ?_
        rw [hphase]
        exact Nat.zero_lt_of_lt hlt
      · omega
    | frame other ticks =>
      have hbefore : 3 ≤ pos ∨ BegunAtZero (start.run inputs) inputs n := hsame (by simp [hphase])
      rw [hphase] at ih
      rw [hphase, Phase.next] at hdone
      split_ifs at hdone with hmid hend hnack hturn hten
      · exact ih hbefore (hdone.imp_right fun h ↦ by omega)
      · exact absurd hdone id
      · rcases hdone with hlt | ⟨rfl, -⟩
        · exact ih hbefore (.inl hlt)
        · rw [hend] at hphase
          exact holds_of_acked hstart hjump hphase ((Bool.not_eq_true _).mp hnack)
      · exact ih hbefore (hdone.imp_right fun h ↦ ⟨h.1, by omega⟩)
      · have hle : pos < other + 1 := hdone.resolve_right fun h ↦ absurd h.2 (by decide)
        exact ih hbefore (by rw [Phase.Done]; omega)
      · exact ih hbefore (by rw [Phase.Done]; omega)
    | finished => exact ih (hsame (by simp [hphase])) (by rw [hphase]; trivial)
    | hung other =>
      rw [hphase] at hdone
      exact absurd hdone id
    | stop => exact ih (hsame (by simp [hphase])) (by rw [hphase]; trivial)

/-- Where everything is acknowledged, the words between two frames are those that were loaded. -/
theorem map_transfers (hjump : start.phase = .jump) (hacked : start.Acknowledged inputs) (n : ℕ)
    (hrests : Rests (start.run inputs n).phase) :
    (transfers (start.run inputs) n).map Prod.snd = words start inputs n ∧
      ∀ sent ∈ transfers (start.run inputs) n,
        sent.1 ≤ 10 ∧ ∃ volume, sent.2 = i2cData sent.1 volume := by
  induction n using Nat.strong_induction_on with
  | h n ih =>
  cases n with
  | zero => exact ⟨rfl, fun sent hsent ↦ absurd hsent List.not_mem_nil⟩
  | succ n =>
    by_cases hbefore : Rests (start.run inputs n).phase
    · rw [transfers_succ_of_phase hstart fun pos hphase ↦ ?_,
        words_succ_of_ne fun pos hphase ↦ ?_]
      · exact ih n (Nat.lt_succ_self n) hbefore
      · have hmid := hbefore pos 32 hphase
        omega
      · have hmid := hbefore pos 1 hphase
        omega
    · obtain ⟨b, c, pos, rfl, hlow, hhigh, hbegin⟩ := begin_of_not_rests hstart hjump hbefore
      have hlast : c = 33 := by
        by_contra hne
        have hnext := phase_frame hstart inputs hbegin (show c + 1 ≤ 33 by omega)
        have := hrests pos (c + 1) hnext
        omega
      subst hlast
      have hphase := phase_frame hstart inputs hbegin (le_refl 33)
      have hframe : (frameAt inputs b pos).Acknowledged := by
        have hpulls := pulls_of_acknowledged hstart hacked hbegin
        rw [Bool.and_eq_true, Bool.and_eq_true] at hpulls
        rw [Frame.Acknowledged, frameAt, hpulls.1.1, hpulls.1.2, hpulls.2]
        exact ⟨rfl, rfl, rfl⟩
      obtain ⟨hwords, htable⟩ := ih b (by omega) (rests_of_begin hbegin)
      rw [transfers_succ_of_phase hstart (by simp [hphase]), words_succ_of_ne (by simp [hphase]),
        transfers_frame hstart hbegin (by omega) (by omega), words_frame_end hstart hbegin,
        if_pos hframe, List.map_append, hwords]
      refine ⟨rfl, fun sent hsent ↦ ?_⟩
      rw [List.mem_append, List.mem_singleton] at hsent
      rcases hsent with hsent | rfl
      · exact htable sent hsent
      · exact ⟨(inFrame_of_frame (valid_run hstart inputs b) hbegin).1, _, rfl⟩

end Slow

/-- Either way of looking at them, the last words for a position are the same. -/
theorem lastFor_map_transfers {sent : List (ℕ × BitVec 16)}
    (htable : ∀ entry ∈ sent, entry.1 ≤ 10 ∧ ∃ volume, entry.2 = i2cData entry.1 volume) {pos : ℕ}
    (hpos : pos ≤ 10) : lastFor pos (sent.map Prod.snd) = lastWord pos sent := by
  induction sent using List.reverseRecOn with
  | nil => rfl
  | append_singleton sent entry ih =>
    obtain ⟨other, word⟩ := entry
    obtain ⟨hother, volume, hword⟩ := htable (other, word) (by simp)
    dsimp only at hother hword
    subst hword
    rw [List.map_append, List.map_singleton, lastFor_concat hpos hother, lastWord_concat,
      ih fun entry hentry ↦ htable entry (List.mem_append_left _ hentry)]
    exact if_congr eq_comm rfl rfl

/-! ### Runs of the controller -/

/-- What a tick reads of a slave that holds its answers. -/
theorem pull_heldAnswers (s : State) (signals : ℕ → Signals) (slave : ℕ → Bool) (n : ℕ) :
    (tickInputs s.asyncReset signals (heldAnswers slave) n).pull = slave (2 * n) := by
  have hhalf : halfPeriod (1250 + 2500 * n) = 2 * n := by rw [halfPeriod]; omega
  rw [tickInputs, tickEdge_asyncReset]
  exact congrArg slave hhalf

section Released

variable (s : State) (signals : ℕ → Signals) (slave : ℕ → Bool)

/-- The words acknowledged up to sample `h` of the lines. -/
def acknowledged (h : ℕ) : List (BitVec 16) :=
  acknowledgedWords (decode (sampledLines s signals slave) h).decoded

theorem acknowledged_eq (h : ℕ) : acknowledged s signals slave h =
    s.slow.asyncReset.words (tickInputs s.asyncReset signals (heldAnswers slave)) (h / 2) := by
  have hvalid := Slow.valid_asyncReset s.slow
  have hjump := Slow.phase_asyncReset s.slow
  have hpull := pull_heldAnswers s signals slave
  rw [acknowledged, sampledLines_eq, funext (beforeTick_eq_run s signals (heldAnswers slave))]
  rcases Nat.even_or_odd' h with ⟨m, rfl | rfl⟩
  · rw [Nat.mul_div_cancel_left m Nat.two_pos]
    cases m with
    | zero => rfl
    | succ m => rw [Slow.decoded_second hvalid hjump, Slow.words_bus hvalid hjump hpull]
  · rw [show (2 * m + 1) / 2 = m by omega]
    exact Slow.words_bus hvalid hjump hpull m

/-- In every run, whatever the buttons and the slave do, only words of the table are acknowledged,
with volumes that the controller may have, and those before the output volumes only if a pass was
begun at position 0. An acknowledged word stays acknowledged. -/
theorem acknowledged_words (h k : ℕ) :
    (∃ later, acknowledged s signals slave (h + k) = acknowledged s signals slave h ++ later) ∧
      ∀ word ∈ acknowledged s signals slave h, ∃ pos ≤ 10, ∃ volume, Allowed volume ∧
        word = i2cData pos volume ∧ (pos < 3 → BegunAtZero (beforeTick s signals (heldAnswers slave))
          (tickInputs s.asyncReset signals (heldAnswers slave)) (h / 2)) := by
  obtain ⟨j, hj⟩ := Nat.exists_eq_add_of_le (show h / 2 ≤ (h + k) / 2 by omega)
  rw [acknowledged_eq, acknowledged_eq, hj, funext (beforeTick_eq_run s signals (heldAnswers slave))]
  exact ⟨Slow.words_add (h / 2) j, fun word hword ↦
    Slow.mem_words (Slow.valid_asyncReset s.slow) (Slow.phase_asyncReset s.slow) hword⟩

/-- In `stop` there is an acknowledged word for every position, the last one with a volume that the
controller may have, if a pass was begun at position 0; otherwise there is none for the positions
before the output volumes and one for all others. -/
theorem acknowledged_stop {h : ℕ}
    (hstop : (beforeTick s signals (heldAnswers slave) (h / 2)).currentState = .stop) :
    (∀ pos ≤ 10, 3 ≤ pos ∨ BegunAtZero (beforeTick s signals (heldAnswers slave))
        (tickInputs s.asyncReset signals (heldAnswers slave)) (h / 2) →
      Holds pos (acknowledged s signals slave h)) ∧
    (¬ BegunAtZero (beforeTick s signals (heldAnswers slave))
        (tickInputs s.asyncReset signals (heldAnswers slave)) (h / 2) →
      ∀ pos < 3, lastFor pos (acknowledged s signals slave h) = none) := by
  have hvalid := Slow.valid_asyncReset s.slow
  have hjump := Slow.phase_asyncReset s.slow
  rw [funext (beforeTick_eq_run s signals (heldAnswers slave))] at hstop ⊢
  rw [acknowledged_eq]
  refine ⟨fun pos hpos hbegun ↦ Slow.holds_of_done hvalid hjump hpos (h / 2) hbegun ?_,
    fun hbegun pos hpos ↦ Slow.lastFor_of_not_begun hvalid hjump hbegun hpos⟩
  rw [Slow.phase_of_stop hstop]
  trivial

end Released

/-- A controller before its reset. -/
def stopped : State :=
  ⟨0, false, 0, false, false,
    ⟨.stop, false, false, false, 0, ⟨0, true, true, true, false, false, false, 0⟩⟩⟩

/-- After the first pass of a run without buttons the words for the line input and for the activation
have been acknowledged. -/
theorem acknowledged_stop_idle :
    lastFor 1 (acknowledged stopped (fun _ ↦ ⟨false, false, false⟩) (fun _ ↦ true) 796) =
        some 0x001F ∧
      lastFor 10 (acknowledged stopped (fun _ ↦ ⟨false, false, false⟩) (fun _ ↦ true) 796) =
        some 0x1201 := by
  obtain ⟨hholds, -⟩ := acknowledged_stop stopped (fun _ ↦ ⟨false, false, false⟩) (fun _ ↦ true)
    (h := 796) (firstPass_idle stopped).1
  have hjumps : (beforeTick stopped (fun _ ↦ ⟨false, false, false⟩)
      (heldAnswers fun _ ↦ true) 0).currentState = .resetState := by
    rw [beforeTick_eq_run]
    rfl
  have hbegun : BegunAtZero
      (beforeTick stopped (fun _ ↦ ⟨false, false, false⟩) (heldAnswers fun _ ↦ true))
      (tickInputs stopped.asyncReset (fun _ ↦ ⟨false, false, false⟩) (heldAnswers fun _ ↦ true))
      (796 / 2) := ⟨0, by decide, hjumps, rfl⟩
  obtain ⟨_, _, hinput⟩ := hholds 1 (by decide) (.inr hbegun)
  obtain ⟨_, _, hactive⟩ := hholds 10 (by decide) (.inr hbegun)
  exact ⟨hinput, hactive⟩

end AudioProcessor.Codec
