import AudioProcessor.Library.SignBit
import AudioProcessor.Nios.Bus

/-!
# The processor

What one instruction does, after the stages of the NIOS II/e core: `decode` takes the fields of the
instruction word apart, and `execute` gives the next program counter and register file, or the
access to the data bus that these wait for. The names of the datapath are those of the core without
the letter of their stage. Instructions that the program does not contain (loads and stores of bytes
and halfwords, comparisons into a register, rotates, shifts by a register, `callr`, `rdctl`, the
exception and break instructions, the ones that the core traps, and the forms of `jmp`, `ret` and
`wrctl` that name a destination) do not decode.
-/

set_option autoImplicit false
set_option relaxedAutoImplicit false

namespace AudioProcessor.Nios

/-! ### Registers -/

/-- The number of a register. -/
abbrev Register := Fin 32

/-- A literal stands for its register without a proof that there is one. -/
instance (n : ℕ) : OfNat Register n := ⟨Fin.ofNat 32 n⟩

/-- The register file. Register 0 is zero: the reset writes zero to it and nothing else does. -/
structure Registers where
  read : Register → Word
  read_zero : read 0 = 0

namespace Registers

attribute [simp] read_zero

/-- A write to register 0 is dropped (`D_wr_dst_reg`). -/
def write (r : Registers) (dst : Register) (data : Word) : Registers where
  read n := if n = dst ∧ dst ≠ 0 then data else r.read n
  read_zero := by
    rw [if_neg (fun h ↦ h.2 h.1.symm), r.read_zero]

theorem read_write (r : Registers) (dst n : Register) (data : Word) :
    (r.write dst data).read n = if n = dst ∧ dst ≠ 0 then data else r.read n := rfl

theorem read_write_self (r : Registers) {dst : Register} (data : Word) (hdst : dst ≠ 0) :
    (r.write dst data).read dst = data := if_pos ⟨rfl, hdst⟩

theorem read_write_of_ne (r : Registers) {dst n : Register} (data : Word) (hn : n ≠ dst) :
    (r.write dst data).read n = r.read n := if_neg fun h ↦ hn h.1

end Registers

/-! ### The datapath -/

/-- `E_arith_src1` and `E_arith_src2`: a signed comparison inverts the top bits. -/
def arithSrc (invertArithSrcMsb : Bool) (src : Word) : BitVec 33 :=
  (src ^^^ if invertArithSrcMsb then 0x80000000#32 else 0#32).setWidth 33

/-- `E_arith_result`, one bit wider than its operands. -/
def arithResult (aluSub invertArithSrcMsb : Bool) (src1 src2 : Word) : BitVec 33 :=
  if aluSub then arithSrc invertArithSrcMsb src1 - arithSrc invertArithSrcMsb src2
  else arithSrc invertArithSrcMsb src1 + arithSrc invertArithSrcMsb src2

/-- `E_logic_result`. -/
def logicResult (logicOp : BitVec 2) (src1 src2 : Word) : Word :=
  match logicOp with
  | 0 => ~~~(src1 ||| src2)
  | 1 => src1 &&& src2
  | 2 => src1 ||| src2
  | _ => src1 ^^^ src2

/-- `E_cmp_result`: equal, not less, less or unequal. -/
def cmpResult (compareOp : BitVec 2) (signed : Bool) (src1 src2 : Word) : Bool :=
  let eq := src1 == src2
  let lt := (arithResult true signed src1 src2).msb
  match compareOp with
  | 0 => eq
  | 1 => !lt
  | 2 => lt
  | _ => !eq

/-- One cycle of the shifter, which shifts by one bit. -/
def shiftStep (right logical : Bool) (x : Word) : Word :=
  let fillBit := if logical then false else x.msb
  if right then BitVec.cons fillBit (x.extractLsb' 1 31)
  else (x.extractLsb' 0 31).concat fillBit

/-- `E_shift_rot_result` when the count has run out. -/
def shiftRotResult (right logical : Bool) (src1 : Word) (count : BitVec 5) : Word :=
  (shiftStep right logical)^[count.toNat] src1

/-! ### The datapath in closed form -/

theorem arithSrc_false (x : Word) : arithSrc false x = x.setWidth 33 := by
  rw [arithSrc, if_neg Bool.false_ne_true, BitVec.xor_zero]

@[simp] theorem setWidth_arithResult_add (x y : Word) :
    (arithResult false false x y).setWidth 32 = x + y := by
  rw [arithResult, if_neg Bool.false_ne_true, arithSrc_false, arithSrc_false]
  apply BitVec.eq_of_toNat_eq
  simp

@[simp] theorem setWidth_arithResult_sub (x y : Word) :
    (arithResult true false x y).setWidth 32 = x - y := by
  rw [arithResult, if_pos rfl, arithSrc_false, arithSrc_false]
  apply BitVec.eq_of_toNat_eq
  simp
  omega

@[simp] theorem setWidth_arithResult_address (x y : Word) :
    (arithResult false false x y).setWidth 18 = (x + y).setWidth 18 := by
  rw [← setWidth_arithResult_add, BitVec.setWidth_setWidth_of_le _ (by decide)]

/-- The top bit of the wider difference is the borrow. -/
theorem msb_setWidth_sub (x y : Word) : (x.setWidth 33 - y.setWidth 33).msb = x.ult y := by
  rw [BitVec.msb_eq_decide, BitVec.ult]
  simp
  omega

@[simp] theorem msb_arithResult_unsigned (x y : Word) :
    (arithResult true false x y).msb = x.ult y := by
  rw [arithResult, if_pos rfl, arithSrc_false, arithSrc_false, msb_setWidth_sub]

@[simp] theorem msb_arithResult_signed (x y : Word) :
    (arithResult true true x y).msb = x.slt y := by
  rw [arithResult, if_pos rfl, arithSrc, arithSrc, if_pos rfl, msb_setWidth_sub]
  exact SignBit.ult_xor_sign x y

@[simp] theorem cmpResult_eq (x y : Word) : cmpResult 0 false x y = (x == y) := rfl

@[simp] theorem cmpResult_ge (x y : Word) : cmpResult 1 true x y = !x.slt y := by
  rw [← msb_arithResult_signed]
  rfl

@[simp] theorem cmpResult_ltu (x y : Word) : cmpResult 2 false x y = x.ult y := by
  rw [← msb_arithResult_unsigned]
  rfl

@[simp] theorem cmpResult_ne (x y : Word) : cmpResult 3 false x y = !(x == y) := rfl

@[simp] theorem shiftRotResult_left (x : Word) (count : BitVec 5) :
    shiftRotResult false true x count = x <<< count.toNat := by
  have hstep : shiftStep false true = fun x : Word ↦ x <<< 1 := by
    funext x
    exact SignBit.concat_extractLsb' x
  rw [shiftRotResult, hstep, SignBit.iterate_shiftLeft]

@[simp] theorem shiftRotResult_right (x : Word) (count : BitVec 5) :
    shiftRotResult true true x count = x >>> count.toNat := by
  have hstep : shiftStep true true = fun x : Word ↦ x >>> 1 := by
    funext x
    exact SignBit.cons_false_extractLsb' x
  rw [shiftRotResult, hstep, SignBit.iterate_shiftRight]

@[simp] theorem shiftRotResult_right_arith (x : Word) (count : BitVec 5) :
    shiftRotResult true false x count = x.sshiftRight count.toNat := by
  have hstep : shiftStep true false = fun x : Word ↦ x.sshiftRight 1 := by
    funext x
    exact SignBit.cons_msb_extractLsb' x
  rw [shiftRotResult, hstep, SignBit.iterate_sshiftRight]

/-! ### Instructions -/

/-- The instructions, with the fields of the word that they use. `ldwio` and `stwio` take the same
path through the core as `ldw` and `stw`, and `ret` the same as `jmp`. -/
inductive Instruction
  | call (imm26 : BitVec 26)
  | jmpi (imm26 : BitVec 26)
  | jmp (a : Register)
  | br (imm16 : BitVec 16)
  | branch (compareOp : BitVec 2) (signed : Bool) (a b : Register) (imm16 : BitVec 16)
  | addi (b a : Register) (imm16 : BitVec 16)
  | logicImm (logicOp : BitVec 2) (hi : Bool) (b a : Register) (imm16 : BitVec 16)
  | arith (aluSub : Bool) (c a b : Register)
  | shiftImm (right logical : Bool) (c a : Register) (imm5 : BitVec 5)
  | ldw (b a : Register) (imm16 : BitVec 16)
  | stw (b a : Register) (imm16 : BitVec 16)
  | wrctl (controlRegnum : BitVec 5) (a : Register)
deriving DecidableEq

namespace Instruction

@[match_pattern] abbrev beq := branch 0 false
@[match_pattern] abbrev bge := branch 1 true
@[match_pattern] abbrev bltu := branch 2 false
@[match_pattern] abbrev bne := branch 3 false
@[match_pattern] abbrev andi := logicImm 1 false
@[match_pattern] abbrev ori := logicImm 2 false
@[match_pattern] abbrev xori := logicImm 3 false
@[match_pattern] abbrev orhi := logicImm 2 true
@[match_pattern] abbrev add := arith false
@[match_pattern] abbrev sub := arith true
@[match_pattern] abbrev slli := shiftImm false true
@[match_pattern] abbrev srli := shiftImm true true
@[match_pattern] abbrev srai := shiftImm true false

end Instruction

/-- The instruction of a word: `op` in bits 5 to 0, and `opx` in bits 16 to 11 where `op` is 58. -/
def decode (iw : Word) : Option Instruction :=
  let a : Register := (iw.extractLsb' 27 5).toFin
  let b : Register := (iw.extractLsb' 22 5).toFin
  let c : Register := (iw.extractLsb' 17 5).toFin
  let imm5 : BitVec 5 := iw.extractLsb' 6 5
  let imm16 : BitVec 16 := iw.extractLsb' 6 16
  let imm26 : BitVec 26 := iw.extractLsb' 6 26
  match (iw.extractLsb' 0 6).toNat with
  | 0 => some (.call imm26)
  | 1 => some (.jmpi imm26)
  | 4 => some (.addi b a imm16)
  | 6 => some (.br imm16)
  | 12 => some (.andi b a imm16)
  | 14 => some (.bge a b imm16)
  | 20 => some (.ori b a imm16)
  | 21 => some (.stw b a imm16)
  | 23 => some (.ldw b a imm16)
  | 28 => some (.xori b a imm16)
  | 30 => some (.bne a b imm16)
  | 38 => some (.beq a b imm16)
  | 52 => some (.orhi b a imm16)
  | 53 => some (.stw b a imm16)
  | 54 => some (.bltu a b imm16)
  | 55 => some (.ldw b a imm16)
  | 58 =>
    match (iw.extractLsb' 11 6).toNat with
    | 5 => if c = 0 then some (.jmp a) else none
    | 13 => if c = 0 then some (.jmp a) else none
    | 18 => some (.slli c a imm5)
    | 26 => some (.srli c a imm5)
    | 46 => if c = 0 then some (.wrctl imm5 a) else none
    | 49 => some (.add c a b)
    | 57 => some (.sub c a b)
    | 58 => some (.srai c a imm5)
    | _ => none
  | _ => none

/-! ### Execution -/

/-- The program counter in words (`F_pc`), the register file, and the two control registers: the
interrupt enable of `status` and the one bit of `ienable` that has a line. -/
structure Processor where
  pc : BitVec 16
  registers : Registers
  pie : Bool
  ienable : Bool

/-- What an instruction asks of the data bus. -/
inductive Operation
  | internal (next : Processor)
  | load (address : Address) (next : Word → Processor)
  | store (address : Address) (writedata : Word) (next : Processor)

namespace Processor

/-- `{F_pc_plus_one, 2'b00}`. -/
def returnAddress (pc : BitVec 16) : Word := (pc + 1).setWidth 32 <<< 2

/-- `E_arith_result[17 : 2]` of a jump. -/
def jumpTarget (target : Word) : BitVec 16 := target.extractLsb' 2 16

/-- The next instruction in order. -/
def next (p : Processor) (registers : Registers) : Processor :=
  { p with pc := p.pc + 1, registers }

/-- The target of a branch. -/
def branchTarget (pc imm16 : BitVec 16) : BitVec 16 :=
  jumpTarget ((arithResult false false (returnAddress pc) (imm16.signExtend 32)).setWidth 32)

/-- The address of a load or store (`E_mem_baddr`). -/
def memBaddr (p : Processor) (a : Register) (imm16 : BitVec 16) : Address :=
  (arithResult false false (p.registers.read a) (imm16.signExtend 32)).setWidth 18

/-- One instruction. -/
def execute (p : Processor) : Instruction → Operation
  | .call imm26 => .internal { p with
      pc := jumpTarget (imm26.setWidth 32 <<< 2)
      registers := p.registers.write 31 (returnAddress p.pc) }
  | .jmpi imm26 => .internal { p with pc := jumpTarget (imm26.setWidth 32 <<< 2) }
  | .jmp a => .internal { p with pc := jumpTarget (p.registers.read a) }
  | .br imm16 => .internal { p with pc := branchTarget p.pc imm16 }
  | .branch compareOp signed a b imm16 => .internal { p with
      pc := if cmpResult compareOp signed (p.registers.read a) (p.registers.read b) then
        branchTarget p.pc imm16 else p.pc + 1 }
  | .addi b a imm16 => .internal <| p.next <| p.registers.write b <|
      (arithResult false false (p.registers.read a) (imm16.signExtend 32)).setWidth 32
  | .logicImm logicOp hi b a imm16 => .internal <| p.next <| p.registers.write b <|
      logicResult logicOp (p.registers.read a)
        (if hi then imm16.setWidth 32 <<< 16 else imm16.setWidth 32)
  | .arith aluSub c a b => .internal <| p.next <| p.registers.write c <|
      (arithResult aluSub false (p.registers.read a) (p.registers.read b)).setWidth 32
  | .shiftImm right logical c a imm5 => .internal <| p.next <| p.registers.write c <|
      shiftRotResult right logical (p.registers.read a) imm5
  | .ldw b a imm16 => .load (p.memBaddr a imm16) fun data ↦ p.next (p.registers.write b data)
  | .stw b a imm16 => .store (p.memBaddr a imm16) (p.registers.read b) (p.next p.registers)
  | .wrctl controlRegnum a => .internal { p.next p.registers with
      pie := if controlRegnum = 0 then (p.registers.read a).getLsbD 0 else p.pie
      ienable := if controlRegnum = 3 then (p.registers.read a).getLsbD 0 else p.ienable }

/-- An interrupt is requested (`intr_req`). -/
def intrReq (p : Processor) (irq : Bool) : Bool := p.pie && (irq && p.ienable)

/-- The interrupt instruction, which the core puts in the place of the fetched one. -/
def intr (p : Processor) : Processor where
  pc := 16392
  registers := p.registers.write 29 (returnAddress p.pc)
  pie := false
  ienable := p.ienable

/-- The processor after its reset, with what the other registers happen to hold. -/
def reset (registers : Registers) : Processor := ⟨16384, registers, false, false⟩

end Processor

end AudioProcessor.Nios
