import AudioProcessor.Library.Clocked
import Mathlib.Data.Int.Basic

/-!
# The program on the NIOS

`main` of `hello_world_small.c` as a machine that makes one PIO access at a time: the poll of the
data-ready port, then for a detected rise the three reads and the two writes of a frame. The fixed
width types of the program are Lean's; a PIO read zero-extends its port to the bus and a PIO write
keeps the low bits of the bus (`iord`, `iowr`). `body` is the arithmetic between the last read and
the first write with all its intermediate values, taken over any number type so that the same names
serve the unbounded arithmetic of `Equaliser.Exact`.
-/

set_option autoImplicit false
set_option relaxedAutoImplicit false

namespace AudioProcessor.Equaliser

/-! ### Ports -/

/-- What the input PIOs show at one moment. -/
structure Ports where
  dataReady : BitVec 1
  inLeft : BitVec 16
  bassStageSwitch : BitVec 2
  trebleStageSwitch : BitVec 2

/-- The two output PIOs. -/
inductive Output
  | outLeft
  | outRight
deriving DecidableEq

/-- A PIO read: the port in the low bits of the bus, zeros above it. -/
def iord {width : ℕ} (port : BitVec width) : BitVec 32 := port.setWidth 32

/-- A PIO write of `(int16_t)res`: the port keeps the low 16 bits of the bus. -/
def iowr (res : Int32) : BitVec 16 := res.toInt16.toInt32.toBitVec.setWidth 16

/-! ### The arithmetic of a frame -/

/-- The intermediate values of one pass through the arithmetic, in program order. -/
@[ext]
structure Body (α : Type) where
  inScaled : α
  difference : α
  bassPrev : α
  bass : α
  treble : α
  bassProduct : α
  trebleProduct : α
  res : α
  limited : α
deriving DecidableEq

/-- The intermediate values seen through a map. -/
def Body.map {α β : Type} (f : α → β) (b : Body α) : Body β where
  inScaled := f b.inScaled
  difference := f b.difference
  bassPrev := f b.bassPrev
  bass := f b.bass
  treble := f b.treble
  bassProduct := f b.bassProduct
  trebleProduct := f b.trebleProduct
  res := f b.res
  limited := f b.limited

section Map

variable {α β : Type} (f : α → β) (b : Body α)

@[simp] theorem Body.map_bassPrev : (b.map f).bassPrev = f b.bassPrev := rfl

@[simp] theorem Body.map_limited : (b.map f).limited = f b.limited := rfl

end Map

/-- The crossover, the boosts and the limiter; `audio_in << 8` is taken as a multiplication. -/
def body (bassPrev : Int32) (audioIn : Int16) (bStage tStage : Int32) : Body Int32 :=
  let inScaled := audioIn.toInt32 * 256
  let difference := inScaled - bassPrev
  let bassPrev := bassPrev + (difference >>> 3)
  let bass := bassPrev >>> 8
  let treble := audioIn.toInt32 - bass
  let bassProduct := bass * (bStage + 1)
  let trebleProduct := treble * (tStage + 1)
  let res := bassProduct + trebleProduct
  let limited := if res > 32767 then 32767 else if res < -32768 then -32768 else res
  ⟨inScaled, difference, bassPrev, bass, treble, bassProduct, trebleProduct, res, limited⟩

/-! ### The loop -/

/-- The PIO accesses of the program. -/
inductive Access
  | dataReady
  | inLeft
  | bassStageSwitch
  | trebleStageSwitch
  | outLeft
  | outRight
deriving DecidableEq

/-- The access the program makes next and its variables; `res` is the limited one. -/
structure Main where
  access : Access
  currentReady : UInt8
  lastReady : UInt8
  bassPrev : Int32
  audioIn : Int16
  bStage : Int32
  tStage : Int32
  res : Int32
deriving DecidableEq

/-- The program at its first poll. -/
def Main.start : Main := ⟨.dataReady, 0, 0, 0, 0, 0, 0, 0⟩

/-- The value the program takes from the data-ready port. -/
def Ports.ready (p : Ports) : UInt8 := UInt8.ofBitVec ((iord p.dataReady).setWidth 8)

/-- The sample the program takes from the left input port. -/
def Ports.sample (p : Ports) : Int16 := Int16.ofBitVec ((iord p.inLeft).setWidth 16)

/-- The sample is the word at the port. -/
theorem Ports.toBitVec_sample (p : Ports) : p.sample.toBitVec = p.inLeft := by
  rw [sample, Int16.toBitVec_ofBitVec, iord, BitVec.setWidth_setWidth_of_le _ (by decide),
    BitVec.setWidth_eq]

/-- The stage the program takes from a switch port. -/
def stage (port : BitVec 2) : Int32 := Int32.ofBitVec (iord port &&& 3)

/-- One PIO access and the computation up to the next one. -/
def Main.step (p : Ports) (m : Main) : Main :=
  match m.access with
  | .dataReady =>
    if p.ready == 1 && m.lastReady == 0 then
      { m with access := .inLeft, currentReady := p.ready }
    else
      { m with currentReady := p.ready, lastReady := p.ready }
  | .inLeft => { m with access := .bassStageSwitch, audioIn := p.sample }
  | .bassStageSwitch =>
    { m with access := .trebleStageSwitch, bStage := stage p.bassStageSwitch }
  | .trebleStageSwitch =>
    let b := body m.bassPrev m.audioIn m.bStage (stage p.trebleStageSwitch)
    { m with
      access := .outLeft
      tStage := stage p.trebleStageSwitch
      bassPrev := b.bassPrev
      res := b.limited }
  | .outLeft => { m with access := .outRight }
  | .outRight => { m with access := .dataReady, lastReady := m.currentReady }

/-- What the next access writes, if it is a write. -/
def Main.write (m : Main) : Option (Output × BitVec 16) :=
  match m.access with
  | .outLeft => some (.outLeft, iowr m.res)
  | .outRight => some (.outRight, iowr m.res)
  | _ => none

/-- A poll that finds the port high and the last one low starts the work on a frame. -/
def Main.triggers (p : Ports) (m : Main) : Bool :=
  m.access == .dataReady && (p.ready == 1 && m.lastReady == 0)

theorem Main.step_of_triggers {p : Ports} {m : Main} (htriggers : m.triggers p = true) :
    m.step p = { m with access := .inLeft, currentReady := p.ready } := by
  rw [triggers, Bool.and_eq_true, beq_iff_eq] at htriggers
  rw [step, htriggers.1]
  exact if_pos htriggers.2

/-- Any other poll only remembers what it saw. -/
theorem Main.step_of_poll {p : Ports} {m : Main} (hpoll : m.access = .dataReady)
    (htriggers : m.triggers p = false) :
    m.step p = { m with currentReady := p.ready, lastReady := p.ready } := by
  rw [triggers, hpoll, beq_self_eq_true, Bool.true_and] at htriggers
  rw [step, hpoll]
  exact if_neg (by rw [htriggers]; exact Bool.false_ne_true)

/-- Only a poll that triggers is followed by a read of the sample. -/
theorem Main.triggers_of_step {p : Ports} {m : Main} (hread : (m.step p).access = .inLeft) :
    m.triggers p = true := by
  cases haccess : m.access with
  | dataReady =>
    by_contra hidle
    rw [step_of_poll haccess (Bool.eq_false_of_not_eq_true hidle)] at hread
    exact Access.noConfusion (haccess.symm.trans hread)
  | _ =>
    rw [step, haccess] at hread
    exact Access.noConfusion hread

/-- The program after a list of accesses. -/
def Main.accesses (ports : List Ports) (m : Main) : Main :=
  ports.foldl (fun m p ↦ m.step p) m

/-- The writes among a list of accesses. -/
def Main.writes : List Ports → Main → List (Output × BitVec 16)
  | [], _ => []
  | p :: ports, m => m.write.toList ++ Main.writes ports (m.step p)

/-! ### Whole frames -/

/-- What the ports offer in one frame: the left sample and the stage switches. -/
structure Frame where
  inLeft : BitVec 16
  bassStageSwitch : BitVec 2
  trebleStageSwitch : BitVec 2

/-- The ports during a frame, with the level of the data-ready port. -/
def Frame.ports (f : Frame) (dataReady : BitVec 1) : Ports :=
  ⟨dataReady, f.inLeft, f.bassStageSwitch, f.trebleStageSwitch⟩

/-- The accesses of a frame: a poll before the rise, the poll that detects it, and the reads and
writes that follow. -/
def Frame.accesses (f : Frame) : List Ports :=
  f.ports 0 :: List.replicate 6 (f.ports 1)

/-- The program after a number of frames. -/
def play (frames : ℕ → Frame) : ℕ → Main :=
  Clocked.run (fun f m ↦ m.accesses f.accesses) Main.start frames

/-- The arithmetic of a frame from a given accumulator. -/
def Frame.body (f : Frame) (bassPrev : Int32) : Body Int32 :=
  Equaliser.body bassPrev (f.ports 1).sample (stage f.bassStageSwitch) (stage f.trebleStageSwitch)

/-- A frame taken up by a polling program leaves it polling, with the new accumulator. -/
theorem accesses_frame (f : Frame) {m : Main} (hpoll : m.access = .dataReady) :
    (m.accesses f.accesses).access = .dataReady ∧
      (m.accesses f.accesses).bassPrev = (f.body m.bassPrev).bassPrev := by
  cases m
  cases hpoll
  exact ⟨rfl, rfl⟩

/-- It makes two writes in between, the same word to both outputs. -/
theorem writes_frame (f : Frame) {m : Main} (hpoll : m.access = .dataReady) :
    m.writes f.accesses =
      [(.outLeft, iowr (f.body m.bassPrev).limited),
        (.outRight, iowr (f.body m.bassPrev).limited)] := by
  cases m
  cases hpoll
  rfl

/-- Between frames the program is polling. -/
theorem play_access (frames : ℕ → Frame) (n : ℕ) : (play frames n).access = .dataReady := by
  induction n with
  | zero => rfl
  | succ n ih => exact (accesses_frame (frames n) ih).1

/-- Each frame moves the accumulator by its arithmetic. -/
theorem play_bassPrev (frames : ℕ → Frame) (n : ℕ) :
    (play frames (n + 1)).bassPrev = ((frames n).body (play frames n).bassPrev).bassPrev :=
  (accesses_frame (frames n) (play_access frames n)).2

end AudioProcessor.Equaliser
