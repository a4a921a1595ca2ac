import AudioProcessor.Library.TwoWire

/-!
# Monitoring a two-wire bus

A transfer is a START, whole bytes with their acknowledge slots and a STOP. `Monitor` reads the events
of a bus and keeps the transfers, each as the list of its bytes with the levels in their slots; what
ends within a byte is dropped. Who is addressed, and what the bytes mean, is left to the slaves.

`read_transfer` is the round trip: the monitor keeps a transfer as it was sent.
-/

set_option autoImplicit false
set_option relaxedAutoImplicit false

namespace Serial

variable {width : ℕ}

/-- The bits that a register holds after those of a list. -/
theorem getLsbD_foldl_shiftIn (word : BitVec width) (bits : List Bool) (i : ℕ) (hi : i < width) :
    (bits.foldl shiftIn word).getLsbD i =
      if h : i < bits.length then bits[bits.length - 1 - i] else
        word.getLsbD (i - bits.length) := by
  induction bits using List.reverseRecOn generalizing i with
  | nil => simp
  | append_singleton bits bit ih =>
    rw [List.foldl_append, List.foldl_cons, List.foldl_nil, getLsbD_shiftIn _ _ _ hi]
    cases i with
    | zero => simp
    | succ i =>
      rw [if_neg (Nat.succ_ne_zero i), Nat.add_sub_cancel, ih i (by omega)]
      simp only [List.length_append, List.length_singleton, Nat.add_lt_add_iff_right]
      split_ifs with hlt
      · rw [List.getElem_append_left (by omega)]
        congr 1
        omega
      · congr 1
        omega

/-- The bits of a word shifted in one after the other give the word. -/
theorem foldl_shiftIn_msbFirst (start word : BitVec width) :
    (msbFirst word).foldl shiftIn start = word := by
  refine BitVec.eq_of_getLsbD_eq fun i hi ↦ ?_
  have hlength : (msbFirst word).length = width := by simp [msbFirst]
  rw [getLsbD_foldl_shiftIn _ _ _ hi, dif_pos (by omega)]
  simp only [msbFirst, List.length_map, List.length_range, List.getElem_map, List.getElem_range]
  congr 1
  omega

end Serial

namespace TwoWire

/-- The monitor: the bits of the byte under way and how many there are, the bytes since the START,
and the transfers so far. -/
@[ext]
structure Monitor where
  shift : BitVec 8
  count : ℕ
  bytes : List (BitVec 8 × Bool)
  transfers : List (List (BitVec 8 × Bool))

namespace Monitor

/-- The monitor between two transfers. -/
def waiting (transfers : List (List (BitVec 8 × Bool))) : Monitor := ⟨0, 0, [], transfers⟩

/-- The monitor reads an event. -/
def step (m : Monitor) : Event → Monitor
  | .start => waiting m.transfers
  | .bit level =>
    if m.count < 8 then { m with shift := Serial.shiftIn m.shift level, count := m.count + 1 }
    else { m with count := 0, bytes := m.bytes ++ [(m.shift, level)] }
  | .stop => waiting (if m.count = 0 then m.transfers ++ [m.bytes] else m.transfers)

/-- What the monitor makes of the events of a bus. -/
def read (events : List Event) : Monitor := events.foldl step (waiting [])

theorem read_append (events events' : List Event) :
    read (events ++ events') = events'.foldl step (read events) := List.foldl_append

/-- Bits of a byte that is not complete yet. -/
theorem foldl_bits (bits : List Bool) (m : Monitor) (hcount : m.count + bits.length ≤ 8) :
    (bits.map Event.bit).foldl step m =
      { m with shift := bits.foldl Serial.shiftIn m.shift, count := m.count + bits.length } := by
  induction bits generalizing m with
  | nil => rfl
  | cons bit bits ih =>
    rw [List.length_cons] at hcount
    rw [List.map_cons, List.foldl_cons, step, if_pos (by omega), ih _ (by dsimp only; omega)]
    simp only [List.foldl_cons, List.length_cons]
    congr 1
    omega

/-- A byte with its acknowledge slot. -/
theorem foldl_byte (data : BitVec 8) (ack : Bool) {m : Monitor} (hcount : m.count = 0) :
    (byte data ack).foldl step m =
      { m with shift := data, bytes := m.bytes ++ [(data, ack)] } := by
  have hlength : (Serial.msbFirst data).length = 8 := by simp [Serial.msbFirst]
  have hbits := foldl_bits (Serial.msbFirst data) m (by rw [hlength, hcount])
  rw [hlength, hcount, Serial.foldl_shiftIn_msbFirst] at hbits
  rw [byte, List.map_append, List.foldl_append, hbits, hcount]
  rfl

/-- Without a STOP no transfer is kept. -/
theorem transfers_foldl (events : List Event) (hstop : Event.stop ∉ events) (m : Monitor) :
    (events.foldl step m).transfers = m.transfers := by
  induction events generalizing m with
  | nil => rfl
  | cons event events ih =>
    rw [List.mem_cons, not_or] at hstop
    rw [List.foldl_cons, ih hstop.2]
    cases event with
    | start => rfl
    | stop => exact absurd rfl hstop.1
    | bit level =>
      rw [step]
      split_ifs <;> rfl

end Monitor

/-- The events of a transfer. -/
def transfer (bytes : List (BitVec 8 × Bool)) : List Event :=
  .start :: (bytes.flatMap fun b ↦ byte b.1 b.2) ++ [.stop]

/-- A transfer is kept as it was sent, and the monitor waits for the next one. -/
theorem read_transfer (bytes : List (BitVec 8 × Bool)) (m : Monitor) :
    (transfer bytes).foldl Monitor.step m = .waiting (m.transfers ++ [bytes]) := by
  have hbytes : ∀ (bytes : List (BitVec 8 × Bool)) (m : Monitor), m.count = 0 →
      ∃ shift, (bytes.flatMap fun b ↦ byte b.1 b.2).foldl Monitor.step m =
        { m with shift := shift, bytes := m.bytes ++ bytes } := by
    intro bytes
    induction bytes with
    | nil => exact fun m _ ↦ ⟨m.shift, by rw [List.append_nil]; rfl⟩
    | cons b bytes ih =>
      intro m hcount
      obtain ⟨shift, hrest⟩ := ih { m with shift := b.1, bytes := m.bytes ++ [b] } hcount
      refine ⟨shift, ?_⟩
      rw [List.flatMap_cons, List.foldl_append, Monitor.foldl_byte b.1 b.2 hcount, hrest,
        List.append_assoc, List.singleton_append]
  obtain ⟨shift, hread⟩ := hbytes bytes (.waiting m.transfers) rfl
  rw [transfer, List.cons_append, List.foldl_cons, Monitor.step, List.foldl_append, hread]
  rfl

end TwoWire
