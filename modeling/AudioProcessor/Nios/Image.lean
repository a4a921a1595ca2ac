import AudioProcessor.Nios.Machine

/-!
# The program in memory

The words of `audioEqualizer.elf` from the reset address to the end of `.text`, and the instructions
they decode to, function by function as in the listing. `Loaded` memories hold these words;
what lies beyond them is not said. A straight line of register instructions is run in one lemma
(`silent_line`).
-/

set_option autoImplicit false
set_option relaxedAutoImplicit false

namespace AudioProcessor.Nios

/-- The words of the sections `.entry` and `.text`. -/
def image : List Word :=
  [0x00400074, 0x08400814, 0x0800683a, 0x00000000, 0x00000000, 0x00000000, 0x00000000, 0x00000000,
    0x06c00074, 0xdee80014, 0x06800074, 0xd6a0bd14, 0x00800074, 0x1080bf14, 0x00c00074, 0x18c0c214,
    0x10c00326, 0x10000015, 0x10800104, 0x10fffd36, 0x00101800, 0x00102940, 0x003fff06, 0xdefff604,
    0xddc00715, 0xdd800615, 0xdc800215, 0x05c000b4, 0x048000b4, 0x058000b4, 0xdcc00315, 0xdc400115,
    0xdfc00915, 0xdf000815, 0xdd400515, 0xdd000415, 0xdc000015, 0x0027883a, 0x0007883a, 0x94840004,
    0x04400044, 0xbdc41004, 0xb5841804, 0x00000106, 0x8007883a, 0x94000037, 0x80803fcc, 0x147ffc1e,
    0x18c03fcc, 0x183ffa1e, 0xb9400037, 0xb5400037, 0x008000b4, 0x10841404, 0x11000037, 0x297fffcc,
    0x2960001c, 0x29600004, 0x2804923a, 0x210000cc, 0x21000044, 0x14c5c83a, 0x1005d0fa, 0x98a7883a,
    0x9829d23a, 0x2d0bc83a, 0x00101580, 0xa90000cc, 0xa00b883a, 0x21000044, 0x1039883a, 0x00101580,
    0xe085883a, 0x00e00004, 0x10c0010e, 0x1805883a, 0x00dfffc4, 0x1880010e, 0x1805883a, 0x00c000b4,
    0x18c40804, 0x18800035, 0x00c000b4, 0x18c40404, 0x18800035, 0x003fd606, 0x0005883a, 0x20000726,
    0x20c0004c, 0x2008d07a, 0x18000126, 0x1145883a, 0x294b883a, 0x203ffa1e, 0xf800283a, 0xf800283a,
    0xdeffff04, 0x01800074, 0x01c00074, 0xdfc00015, 0x3180bd04, 0x39c0be04, 0x31c01026, 0x00800074,
    0x1080be04, 0x30800d26, 0x30c00104, 0x10c7c83a, 0x1806d0ba, 0x0005883a, 0x18c00044, 0x18c7883a,
    0x18c7883a, 0x11c9883a, 0x21400017, 0x1189883a, 0x10800104, 0x21400015, 0x10fffa1e, 0x01800074,
    0x01c00074, 0x31800804, 0x39c00804, 0x31c01026, 0x00800074, 0x10800804, 0x30800d26, 0x30c00104,
    0x10c7c83a, 0x1806d0ba, 0x0005883a, 0x18c00044, 0x18c7883a, 0x18c7883a, 0x11c9883a, 0x21400017,
    0x1189883a, 0x10800104, 0x21400015, 0x18bffa1e, 0x01800074, 0x01c00074, 0x3180bd04, 0x39c0bd04,
    0x31c01026, 0x00800074, 0x1080bd04, 0x30800d26, 0x30c00104, 0x10c7c83a, 0x1806d0ba, 0x0005883a,
    0x18c00044, 0x18c7883a, 0x18c7883a, 0x11c9883a, 0x21400017, 0x1189883a, 0x10800104, 0x21400015,
    0x10fffa1e, 0x00102e40, 0xdfc00017, 0xdec00104, 0x00102e81, 0xdeffff04, 0x0009883a, 0xdfc00015,
    0x00102c00, 0x00102e00, 0xd1a00217, 0xd1600317, 0xd1200417, 0xdfc00017, 0xdec00104, 0x001005c1,
    0xdeffff04, 0xdfc00015, 0x00102ec0, 0x00800044, 0x1001703a, 0xdfc00017, 0xdec00104, 0xf800283a,
    0xf800283a, 0xf800283a, 0xf800283a, 0x000170fa, 0xf800283a]

section Listing

open Instruction

/-- The instructions of these words; a number counts words from the reset address. -/
def listing : List Instruction :=
  [
    -- __reset, word 0
    .orhi 1 0 1, .ori 1 1 0x20, .jmp 1,
    -- _exit, word 3
    .call 0, .call 0, .call 0, .call 0, .call 0,
    -- _start, word 8
    .orhi 27 0 1, .ori 27 27 0xa000, .orhi 26 0 1, .ori 26 26 0x82f4, .orhi 2 0 1, .ori 2 2 0x2fc,
    .orhi 3 0 1, .ori 3 3 0x308, .beq 2 3 0xc, .stw 0 2 0, .addi 2 2 4, .bltu 2 3 0xfff4,
    .call 0x4060, .call 0x40a5,
    -- alt_after_alt_main, word 22
    .br 0xfffc,
    -- main, word 23
    .addi 27 27 0xffd8, .stw 23 27 0x1c, .stw 22 27 0x18, .stw 18 27 8, .orhi 23 0 2,
    .orhi 18 0 2, .orhi 22 0 2, .stw 19 27 0xc, .stw 17 27 4, .stw 31 27 0x24, .stw 28 27 0x20,
    .stw 21 27 0x14, .stw 20 27 0x10, .stw 16 27 0, .add 19 0 0, .add 3 0 0, .addi 18 18 0x1000,
    .addi 17 0 1, .addi 23 23 0x1040, .addi 22 22 0x1060, .br 4, .add 3 16 0, .ldw 16 18 0,
    .andi 2 16 0xff, .bne 2 17 0xfff0, .andi 3 3 0xff, .bne 3 0 0xffe8, .ldw 5 23 0, .ldw 21 22 0,
    .orhi 2 0 2, .addi 2 2 0x1050, .ldw 4 2 0, .andi 5 5 0xffff, .xori 5 5 0x8000,
    .addi 5 5 0x8000, .slli 2 5 8, .andi 4 4 3, .addi 4 4 1, .sub 2 2 19, .srai 2 2 3,
    .add 19 19 2, .srai 20 19 8, .sub 5 5 20, .call 0x4056, .andi 4 21 3, .add 5 20 0,
    .addi 4 4 1, .add 28 2 0, .call 0x4056, .add 2 28 2, .addi 3 0 0x8000, .bge 2 3 4, .add 2 3 0,
    .addi 3 0 0x7fff, .bge 3 2 4, .add 2 3 0, .orhi 3 0 2, .addi 3 3 0x1020, .stw 2 3 0,
    .orhi 3 0 2, .addi 3 3 0x1010, .stw 2 3 0, .br 0xff58,
    -- __mulsi3, word 86
    .add 2 0 0, .beq 4 0 0x1c, .andi 3 4 1, .srli 4 4 1, .beq 3 0 4, .add 2 2 5, .add 5 5 5,
    .bne 4 0 0xffe8, .jmp 31, .jmp 31,
    -- alt_load, word 96
    .addi 27 27 0xfffc, .orhi 6 0 1, .orhi 7 0 1, .stw 31 27 0, .addi 6 6 0x2f4, .addi 7 7 0x2f8,
    .beq 6 7 0x40, .orhi 2 0 1, .addi 2 2 0x2f8, .beq 6 2 0x34, .addi 3 6 4, .sub 3 2 3,
    .srli 3 3 2, .add 2 0 0, .addi 3 3 1, .add 3 3 3, .add 3 3 3, .add 4 2 7, .ldw 5 4 0,
    .add 4 2 6, .addi 2 2 4, .stw 5 4 0, .bne 2 3 0xffe8, .orhi 6 0 1, .orhi 7 0 1,
    .addi 6 6 0x20, .addi 7 7 0x20, .beq 6 7 0x40, .orhi 2 0 1, .addi 2 2 0x20, .beq 6 2 0x34,
    .addi 3 6 4, .sub 3 2 3, .srli 3 3 2, .add 2 0 0, .addi 3 3 1, .add 3 3 3, .add 3 3 3,
    .add 4 2 7, .ldw 5 4 0, .add 4 2 6, .addi 2 2 4, .stw 5 4 0, .bne 3 2 0xffe8, .orhi 6 0 1,
    .orhi 7 0 1, .addi 6 6 0x2f4, .addi 7 7 0x2f4, .beq 6 7 0x40, .orhi 2 0 1, .addi 2 2 0x2f4,
    .beq 6 2 0x34, .addi 3 6 4, .sub 3 2 3, .srli 3 3 2, .add 2 0 0, .addi 3 3 1, .add 3 3 3,
    .add 3 3 3, .add 4 2 7, .ldw 5 4 0, .add 4 2 6, .addi 2 2 4, .stw 5 4 0, .bne 2 3 0xffe8,
    .call 0x40b9, .ldw 31 27 0, .addi 27 27 4, .jmpi 0x40ba,
    -- alt_main, word 165
    .addi 27 27 0xfffc, .add 4 0 0, .stw 31 27 0, .call 0x40b0, .call 0x40b8, .ldw 6 26 0x8008,
    .ldw 5 26 0x800c, .ldw 4 26 0x8010, .ldw 31 27 0, .addi 27 27 4, .jmpi 0x4017,
    -- alt_irq_init, word 176
    .addi 27 27 0xfffc, .stw 31 27 0, .call 0x40bb, .addi 2 0 1, .wrctl 0 2, .ldw 31 27 0,
    .addi 27 27 4, .jmp 31,
    -- alt_sys_init, word 184
    .jmp 31,
    -- alt_dcache_flush_all, word 185
    .jmp 31,
    -- alt_icache_flush_all, word 186
    .jmp 31,
    -- altera_nios2_gen2_irq_init, word 187
    .wrctl 3 0, .jmp 31]

end Listing

set_option maxRecDepth 4000 in
/-- The words decode to the listing. -/
theorem decode_image : image.map decode = listing.map some := by decide

/-! ### Loaded memories -/

/-- The memory holds the words of the program. -/
def Loaded (sram : BitVec 14 → Word) : Prop :=
  ∀ k w, image[k]? = some w → sram (BitVec.ofNat 14 k) = w

/-- A write past the program leaves it in the memory. -/
theorem Loaded.update {sram : BitVec 14 → Word} (h : Loaded sram) {index : BitVec 14}
    (hindex : image.length ≤ index.toNat) (data : Word) :
    Loaded (Function.update sram index data) := by
  intro k w hk
  have hlength : image.length = 189 := rfl
  obtain ⟨hlt, -⟩ := List.getElem?_eq_some_iff.mp hk
  rw [Function.update_of_ne, h k w hk]
  rintro rfl
  rw [BitVec.toNat_ofNat] at hindex
  omega

theorem Loaded.sameProgram {m m' : Machine} (h : Loaded m.sram) (hsame : m.SameProgram m') :
    Loaded m'.sram := by
  intro k w hk
  have hlength : image.length = programWords := rfl
  obtain ⟨hlt, -⟩ := List.getElem?_eq_some_iff.mp hk
  rw [hsame _ ?_, h k w hk]
  rw [BitVec.toNat_ofNat]
  exact (Nat.mod_le ..).trans_lt (hlt.trans_eq hlength)

/-- The instruction at a word of the program. -/
theorem Loaded.instruction {m : Machine} (h : Loaded m.sram) (k : ℕ) {i : Instruction}
    (hi : listing[k]? = some i) (hpc : m.processor.pc = BitVec.ofNat 16 (16384 + k)) :
    m.instruction = some i := by
  have hlength : listing.length = 189 := rfl
  obtain ⟨hlt, -⟩ := List.getElem?_eq_some_iff.mp hi
  have hdecode : (image.map decode)[k]? = (listing.map some)[k]? := by rw [decode_image]
  rw [List.getElem?_map, List.getElem?_map, hi, Option.map_some, Option.map_eq_some_iff] at hdecode
  obtain ⟨w, hw, hwi⟩ := hdecode
  have hindex : m.processor.pc.setWidth 14 = BitVec.ofNat 14 k := by
    rw [hpc]
    apply BitVec.eq_of_toNat_eq
    rw [BitVec.toNat_setWidth, BitVec.toNat_ofNat, BitVec.toNat_ofNat]
    omega
  have hbank : m.processor.pc.extractLsb' 14 2 = 1 := by
    rw [hpc]
    apply BitVec.eq_of_toNat_eq
    rw [BitVec.extractLsb'_toNat, BitVec.toNat_ofNat, Nat.shiftRight_eq_div_pow]
    change _ = 1
    omega
  have hrange : (m.processor.pc.setWidth 14).toNat < sramWords := by
    rw [hindex, BitVec.toNat_ofNat, sramWords]
    omega
  rw [Machine.instruction, if_pos ⟨hbank, hrange⟩, hindex, h k w hw, hwi]

/-- The memory with the program and zeros beyond it. -/
def imageSram (index : BitVec 14) : Word := image.getD index.toNat 0

theorem loaded_imageSram : Loaded imageSram := by
  intro k w hk
  have hlength : image.length = 189 := rfl
  obtain ⟨hlt, -⟩ := List.getElem?_eq_some_iff.mp hk
  rw [imageSram, BitVec.toNat_ofNat, Nat.mod_eq_of_lt (by omega), List.getD_eq_getElem?_getD, hk]
  rfl

/-- All registers zero. -/
def cleared : Registers := ⟨fun _ ↦ 0, rfl⟩

/-! ### Straight lines -/

/-- The instruction moves on to the next one after it has written at most one register. -/
def Instruction.isAlu : Instruction → Bool
  | .addi .. | .logicImm .. | .arith .. | .shiftImm .. => true
  | _ => false

/-- The register file after such an instruction. -/
def Instruction.alu (r : Registers) : Instruction → Registers
  | .addi b a imm16 => r.write b (r.read a + imm16.signExtend 32)
  | .logicImm logicOp hi b a imm16 => r.write b <| logicResult logicOp (r.read a)
      (if hi then imm16.setWidth 32 <<< 16 else imm16.setWidth 32)
  | .arith false c a b => r.write c (r.read a + r.read b)
  | .arith true c a b => r.write c (r.read a - r.read b)
  | .shiftImm right logical c a imm5 => r.write c (shiftRotResult right logical (r.read a) imm5)
  | _ => r

theorem execute_alu (p : Processor) {i : Instruction} (hi : i.isAlu = true) :
    p.execute i = .internal (p.next (i.alu p.registers)) := by
  cases i with
  | addi b a imm16 => rw [Processor.execute, setWidth_arithResult_add, Instruction.alu]
  | logicImm logicOp hi b a imm16 => rfl
  | arith aluSub c a b =>
    cases aluSub
    · rw [Processor.execute, setWidth_arithResult_add, Instruction.alu]
    · rw [Processor.execute, setWidth_arithResult_sub, Instruction.alu]
  | shiftImm right logical c a imm5 => rfl
  | _ => exact Bool.noConfusion hi

/-- The register file after a straight line. -/
def line (block : List Instruction) (r : Registers) : Registers := block.foldl Instruction.alu r

/-- The register such an instruction writes. -/
def Instruction.dst : Instruction → Register
  | .addi b .. => b
  | .logicImm _ _ b .. => b
  | .arith _ c .. => c
  | .shiftImm _ _ c .. => c
  | _ => 0

theorem read_alu_of_ne (r : Registers) (i : Instruction) {n : Register} (hn : n ≠ i.dst) :
    (i.alu r).read n = r.read n := by
  cases i with
  | addi b a imm16 => exact r.read_write_of_ne _ hn
  | logicImm logicOp hi b a imm16 => exact r.read_write_of_ne _ hn
  | arith aluSub c a b => cases aluSub <;> exact r.read_write_of_ne _ hn
  | shiftImm right logical c a imm5 => exact r.read_write_of_ne _ hn
  | _ => rfl

/-- Only these registers may differ. -/
def Registers.SameOutside (changed : List Register) (r r' : Registers) : Prop :=
  ∀ n, n ∉ changed → r'.read n = r.read n

namespace Registers.SameOutside

variable {changed : List Register} {r r' r'' : Registers}

theorem refl (changed : List Register) (r : Registers) : r.SameOutside changed r := fun _ _ ↦ rfl

theorem trans (h : r.SameOutside changed r') (h' : r'.SameOutside changed r'') :
    r.SameOutside changed r'' := fun n hn ↦ (h' n hn).trans (h n hn)

theorem mono {changed' : List Register} (h : r.SameOutside changed r')
    (hsub : changed ⊆ changed') : r.SameOutside changed' r' := fun n hn ↦
  h n fun hmem ↦ hn (hsub hmem)

theorem write (r : Registers) (dst : Register) (data : Word) :
    r.SameOutside [dst] (r.write dst data) := fun _ hn ↦
  r.read_write_of_ne data (List.ne_of_not_mem_cons hn)

theorem line (r : Registers) (block : List Instruction)
    (hblock : block.all (fun i ↦ changed.contains i.dst) = true) :
    r.SameOutside changed (line block r) := by
  induction block generalizing r with
  | nil => exact refl changed r
  | cons i block ih =>
    rw [List.all_cons, Bool.and_eq_true, List.contains_iff_mem] at hblock
    have hfirst : r.SameOutside changed (i.alu r) := by
      intro n hn
      refine read_alu_of_ne r i fun heq ↦ hn ?_
      rw [heq]
      exact hblock.1
    exact hfirst.trans (ih (i.alu r) hblock.2)

end Registers.SameOutside

/-- The machine at a word of the program, with these registers. -/
def Machine.at (m : Machine) (k : ℕ) (r : Registers) : Machine :=
  { m with processor := { m.processor with pc := BitVec.ofNat 16 (16384 + k), registers := r } }

/-- The machine with a word of its memory written. -/
def Machine.store (m : Machine) (index : BitVec 14) (data : Word) : Machine :=
  { m with sram := Function.update m.sram index data }

/-- The program counter moves on. -/
theorem next_at (m : Machine) (k : ℕ) (r r' : Registers) :
    (m.at k r).processor.next r' = (m.at (k + 1) r').processor := by
  have hpc : BitVec.ofNat 16 (16384 + k) + 1 = BitVec.ofNat 16 (16384 + (k + 1)) := by
    rw [← Nat.add_assoc, BitVec.ofNat_add (16384 + k) 1]
    rfl
  rw [Machine.at, Processor.next, Machine.at, hpc]

section Silent

variable {m : Machine} (hloaded : Loaded m.sram)

include hloaded

theorem instruction_at (k : ℕ) (r : Registers) {i : Instruction} (hi : listing[k]? = some i) :
    (m.at k r).instruction = some i :=
  Loaded.instruction (m := m.at k r) hloaded k hi rfl

variable (hienable : m.processor.ienable = false)

include hienable

/-- An instruction that stays in the processor. -/
theorem silent_at (k k' : ℕ) (r r' : Registers) {i : Instruction} (hi : listing[k]? = some i)
    (hexecute : (m.at k r).processor.execute i = .internal (m.at k' r').processor) :
    Silent 1 (m.at k r) (m.at k' r') :=
  silent_internal (m := m.at k r) hienable (instruction_at hloaded k r hi) hexecute

/-- A straight line runs through. -/
theorem silent_line (k : ℕ) (r : Registers) (block : List Instruction)
    (hblock : block <+: listing.drop k) (halu : block.all Instruction.isAlu = true) :
    Silent block.length (m.at k r) (m.at (k + block.length) (line block r)) := by
  induction block generalizing k r with
  | nil => exact .refl _
  | cons i block ih =>
    rw [List.all_cons, Bool.and_eq_true] at halu
    obtain ⟨rest, hrest⟩ := hblock
    have hi : listing[k]? = some i := by
      rw [← List.head?_drop, ← hrest]
      rfl
    have htail : block <+: listing.drop (k + 1) := by
      rw [← List.tail_drop, ← hrest]
      exact List.prefix_append block rest
    have hfirst := silent_at hloaded hienable k (k + 1) r (i.alu r) hi
      (by rw [execute_alu _ halu.1, next_at]; rfl)
    have h := hfirst.trans (ih (k + 1) (i.alu r) htail halu.2)
    rwa [Nat.add_comm 1, Nat.add_assoc, Nat.add_comm 1] at h

/-- A branch that is taken. -/
theorem silent_taken (k k' : ℕ) (r : Registers) {compareOp : BitVec 2} {signed : Bool}
    {a b : Register} {imm16 : BitVec 16}
    (hi : listing[k]? = some (.branch compareOp signed a b imm16))
    (htarget : Processor.branchTarget (BitVec.ofNat 16 (16384 + k)) imm16 =
      BitVec.ofNat 16 (16384 + k'))
    (hcmp : cmpResult compareOp signed (r.read a) (r.read b) = true) :
    Silent 1 (m.at k r) (m.at k' r) := by
  refine silent_at hloaded hienable k k' r r hi ?_
  rw [Machine.at, Processor.execute, if_pos hcmp, htarget]
  rfl

/-- A branch that is not taken. -/
theorem silent_not_taken (k : ℕ) (r : Registers) {compareOp : BitVec 2} {signed : Bool}
    {a b : Register} {imm16 : BitVec 16}
    (hi : listing[k]? = some (.branch compareOp signed a b imm16))
    (hcmp : cmpResult compareOp signed (r.read a) (r.read b) = false) :
    Silent 1 (m.at k r) (m.at (k + 1) r) := by
  refine silent_at hloaded hienable k (k + 1) r r hi ?_
  rw [← next_at m k r, Machine.at, Processor.execute,
    if_neg (by rw [hcmp]; exact Bool.false_ne_true)]
  rfl

/-- An unconditional branch. -/
theorem silent_br (k k' : ℕ) (r : Registers) {imm16 : BitVec 16}
    (hi : listing[k]? = some (.br imm16))
    (htarget : Processor.branchTarget (BitVec.ofNat 16 (16384 + k)) imm16 =
      BitVec.ofNat 16 (16384 + k')) :
    Silent 1 (m.at k r) (m.at k' r) := by
  refine silent_at hloaded hienable k k' r r hi ?_
  rw [Machine.at, Processor.execute, htarget]
  rfl

/-- A call. -/
theorem silent_call (k k' : ℕ) (r : Registers) {imm26 : BitVec 26}
    (hi : listing[k]? = some (.call imm26))
    (htarget : Processor.jumpTarget (imm26.setWidth 32 <<< 2) = BitVec.ofNat 16 (16384 + k')) :
    Silent 1 (m.at k r)
      (m.at k' (r.write 31 (Processor.returnAddress (BitVec.ofNat 16 (16384 + k))))) := by
  refine silent_at hloaded hienable k k' r _ hi ?_
  rw [Machine.at, Processor.execute, htarget]
  rfl

/-- A jump. -/
theorem silent_jmpi (k k' : ℕ) (r : Registers) {imm26 : BitVec 26}
    (hi : listing[k]? = some (.jmpi imm26))
    (htarget : Processor.jumpTarget (imm26.setWidth 32 <<< 2) = BitVec.ofNat 16 (16384 + k')) :
    Silent 1 (m.at k r) (m.at k' r) := by
  refine silent_at hloaded hienable k k' r r hi ?_
  rw [Machine.at, Processor.execute, htarget]
  rfl

/-- A jump to the word whose address is in a register. -/
theorem silent_jmp (k k' : ℕ) (r : Registers) {a : Register} (hi : listing[k]? = some (.jmp a))
    (htarget : Processor.jumpTarget (r.read a) = BitVec.ofNat 16 (16384 + k')) :
    Silent 1 (m.at k r) (m.at k' r) := by
  refine silent_at hloaded hienable k k' r r hi ?_
  rw [Machine.at, Processor.execute, htarget]
  rfl

/-- A load from a slave. -/
theorem step_ldw (k : ℕ) (r : Registers) (d : Devices) (slave : Slave) (address : Address)
    {a b : Register} {imm16 : BitVec 16} (hi : listing[k]? = some (.ldw b a imm16))
    (haddress : (r.read a + imm16.signExtend 32).setWidth 18 = address)
    (hroute : route true address = slave) (hslave : slave ≠ .sram) :
    (m.at k r).step d = some (m.at (k + 1) (r.write b (d.readdata slave (offset address)))) ∧
      (m.at k r).transfer d = some ⟨slave, offset address, none⟩ := by
  have hoperation := operation_eq (m := m.at k r) hienable (instruction_at hloaded k r hi) d.irq
  have hmemBaddr : (m.at k r).processor.memBaddr a imm16 = address := by
    rw [Processor.memBaddr, setWidth_arithResult_address]
    exact haddress
  rw [Processor.execute, hmemBaddr] at hoperation
  rw [Machine.step, Machine.transfer, hoperation, Option.bind_some, Option.bind_some,
    Machine.complete, Operation.transfer, hroute, if_neg hslave, if_neg hslave, next_at]
  exact ⟨rfl, rfl⟩

/-- A store to a slave. -/
theorem step_stw (k : ℕ) (r : Registers) (d : Devices) (slave : Slave) (address : Address)
    {a b : Register} {imm16 : BitVec 16} (hi : listing[k]? = some (.stw b a imm16))
    (haddress : (r.read a + imm16.signExtend 32).setWidth 18 = address)
    (hroute : route false address = slave) (hslave : slave ≠ .sram) :
    (m.at k r).step d = some (m.at (k + 1) r) ∧
      (m.at k r).transfer d = some ⟨slave, offset address, some (r.read b)⟩ := by
  have hoperation := operation_eq (m := m.at k r) hienable (instruction_at hloaded k r hi) d.irq
  have hmemBaddr : (m.at k r).processor.memBaddr a imm16 = address := by
    rw [Processor.memBaddr, setWidth_arithResult_address]
    exact haddress
  rw [Processor.execute, hmemBaddr] at hoperation
  rw [Machine.step, Machine.transfer, hoperation, Option.bind_some, Option.bind_some,
    Machine.complete, Operation.transfer, hroute, if_neg hslave, if_neg hslave, next_at]
  exact ⟨rfl, rfl⟩

/-- A load from the memory. -/
theorem silent_ldw (k : ℕ) (r : Registers) (address : Address) {a b : Register}
    {imm16 : BitVec 16} (hi : listing[k]? = some (.ldw b a imm16))
    (haddress : (r.read a + imm16.signExtend 32).setWidth 18 = address)
    (hroute : route true address = .sram) (hsram : (wordIndex address).toNat < sramWords) :
    Silent 1 (m.at k r) (m.at (k + 1) (r.write b (m.sram (wordIndex address)))) := by
  have hmemBaddr : (m.at k r).processor.memBaddr a imm16 = address := by
    rw [Processor.memBaddr, setWidth_arithResult_address]
    exact haddress
  have h := silent_load (m := m.at k r) hienable (instruction_at hloaded k r hi)
    (by rw [Processor.execute, hmemBaddr]) hroute hsram
  rwa [next_at] at h

/-- A store to the memory. -/
theorem silent_stw (k : ℕ) (r : Registers) (address : Address) {a b : Register}
    {imm16 : BitVec 16} (hi : listing[k]? = some (.stw b a imm16))
    (haddress : (r.read a + imm16.signExtend 32).setWidth 18 = address)
    (hroute : route false address = .sram) (hsram : (wordIndex address).toNat < sramWords)
    (hprogram : programWords ≤ (wordIndex address).toNat) :
    Silent 1 (m.at k r) ((m.store (wordIndex address) (r.read b)).at (k + 1) r) := by
  have hmemBaddr : (m.at k r).processor.memBaddr a imm16 = address := by
    rw [Processor.memBaddr, setWidth_arithResult_address]
    exact haddress
  have h := silent_store (m := m.at k r) hienable (instruction_at hloaded k r hi)
    (by rw [Processor.execute, hmemBaddr]) hroute hsram hprogram
  rwa [next_at] at h

end Silent

end AudioProcessor.Nios
