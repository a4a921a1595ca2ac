import AudioProcessor.Nios.Accesses

/-!
# From the reset to the loop

The start-up code between the reset and the first poll: it sets up the stack, clears the section
`.bss`, copies `.rwdata`, visits the interrupt controller and enters `main`, which saves its
registers. Only words past the program are written (`silent_boot`), and the interrupt lines stay
disabled.
-/

set_option autoImplicit false
set_option relaxedAutoImplicit false

namespace AudioProcessor.Nios

open Equaliser (Main)

/-! ### Words that may be written -/

/-- The address is that of a word of the memory past the program's 189 words. -/
def Writable (address : Address) : Prop :=
  route false address = .sram ∧ 189 ≤ (wordIndex address).toNat ∧
    (wordIndex address).toNat < sramWords

instance (address : Address) : Decidable (Writable address) := inferInstanceAs (Decidable (_ ∧ _))

@[simp] theorem store_self (m : Machine) (index : BitVec 14) (data : Word) :
    (m.store index data).sram index = data := Function.update_self ..

theorem store_of_ne (m : Machine) {index index' : BitVec 14} (h : index' ≠ index) (data : Word) :
    (m.store index data).sram index' = m.sram index' := Function.update_of_ne h ..

/-- A return goes on behind the call. -/
theorem jumpTarget_returnAddress (k : ℕ) :
    Processor.jumpTarget (Processor.returnAddress (BitVec.ofNat 16 (16384 + k))) =
      BitVec.ofNat 16 (16384 + (k + 1)) := by
  have hpc : BitVec.ofNat 16 (16384 + k) + 1 = BitVec.ofNat 16 (16384 + (k + 1)) := by
    rw [← Nat.add_assoc, BitVec.ofNat_add (16384 + k) 1]
    rfl
  rw [Processor.returnAddress, hpc, Processor.jumpTarget]
  generalize BitVec.ofNat 16 (16384 + (k + 1)) = pc
  apply BitVec.eq_of_toNat_eq
  rw [BitVec.extractLsb'_toNat, BitVec.toNat_shiftLeft, BitVec.toNat_setWidth]
  have hlt := pc.isLt
  omega

section Boot

variable {m : Machine} (hloaded : Loaded m.sram) (hienable : m.processor.ienable = false)

include hloaded hienable

/-- A store to such a word leaves the program. -/
theorem silent_store_writable (k : ℕ) (r : Registers) (address : Address) {a b : Register}
    {imm16 : BitVec 16} (hi : listing[k]? = some (.stw b a imm16))
    (haddress : (r.read a + imm16.signExtend 32).setWidth 18 = address)
    (hwritable : Writable address) :
    Silent 1 (m.at k r) ((m.store (wordIndex address) (r.read b)).at (k + 1) r) ∧
      Loaded (m.store (wordIndex address) (r.read b)).sram :=
  have hlength : image.length = 189 := rfl
  ⟨silent_stw hloaded hienable k r address hi haddress hwritable.1 hwritable.2.2
      hwritable.2.1,
    hloaded.update (hlength.trans_le hwritable.2.1) _⟩

/-- A run of stores below the stack pointer. -/
theorem silent_saves (k : ℕ) (r : Registers) (sp : Word) (hsp : r.read 27 = sp)
    (saves : List (Register × BitVec 16))
    (hblock : saves.map (fun save ↦ .stw save.1 27 save.2) <+: listing.drop k)
    (hwritable : saves.all (fun save ↦ Writable ((sp + save.2.signExtend 32).setWidth 18)) = true) :
    ∃ m' : Machine, Silent saves.length (m.at k r) (m'.at (k + saves.length) r) ∧ Loaded m'.sram ∧
      m'.processor.ienable = false := by
  induction saves generalizing k m with
  | nil => exact ⟨m, .refl _, hloaded, hienable⟩
  | cons save saves ih =>
    rw [List.all_cons, Bool.and_eq_true, decide_eq_true_eq] at hwritable
    obtain ⟨rest, hrest⟩ := hblock
    have hi : listing[k]? = some (.stw save.1 27 save.2) := by
      rw [← List.head?_drop, ← hrest]
      rfl
    have htail : saves.map (fun save ↦ .stw save.1 27 save.2) <+: listing.drop (k + 1) := by
      rw [← List.tail_drop, ← hrest]
      exact List.prefix_append _ rest
    obtain ⟨hfirst, hloaded'⟩ := silent_store_writable hloaded hienable k r _ hi (by rw [hsp])
      hwritable.1
    obtain ⟨m', hsilent, hdone⟩ := ih hloaded' hienable (k + 1) htail hwritable.2
    refine ⟨m', ?_, hdone⟩
    have h := hfirst.trans hsilent
    rwa [Nat.add_comm 1, Nat.add_assoc, Nat.add_comm 1] at h

/-- A write to a control register; the mask of the interrupt lines is only cleared. -/
theorem silent_wrctl (k : ℕ) (r : Registers) {controlRegnum : BitVec 5} {a : Register}
    (hi : listing[k]? = some (.wrctl controlRegnum a)) (hmask : controlRegnum = 3 → r.read a = 0) :
    ∃ m' : Machine, Silent 1 (m.at k r) (m'.at (k + 1) r) ∧ m'.sram = m.sram ∧
      m'.processor.ienable = false := by
  set written : Processor :=
    { m.processor with
      pie := if controlRegnum = 0 then (r.read a).getLsbD 0 else m.processor.pie
      ienable := if controlRegnum = 3 then (r.read a).getLsbD 0 else m.processor.ienable }
    with hwritten
  refine ⟨{ m with processor := written },
    silent_internal (m := m.at k r) hienable (instruction_at hloaded k r hi) ?_, rfl, ?_⟩
  · rw [Processor.execute, next_at]
    rfl
  · by_cases hn : controlRegnum = 3
    · rw [hwritten, if_pos hn, hmask hn]
      rfl
    · rw [hwritten, if_neg hn]
      exact hienable

/-- One word of the section `.bss` is cleared. -/
theorem silent_clear_word (r : Registers) {x : Word} (h2 : r.read 2 = x)
    (hwritable : Writable (x.setWidth 18)) :
    ∃ m' : Machine, Silent 2 (m.at 17 r) (m'.at 19 (line [.addi 2 2 4] r)) ∧ Loaded m'.sram ∧
      m'.processor.ienable = false := by
  obtain ⟨hclear, hloaded'⟩ := silent_store_writable hloaded hienable 17 r _ rfl
    (by rw [h2]; exact congrArg _ (BitVec.add_zero x)) hwritable
  exact ⟨_, hclear.trans (silent_line hloaded' hienable 18 r [.addi 2 2 4] ⟨_, rfl⟩ rfl), hloaded',
    hienable⟩

/-- The loop that clears the section, with `n` words after the next one. -/
theorem silent_clear (n : ℕ) (hn : n < 3) (r : Registers)
    (h2 : r.read 2 = 0x10304 - BitVec.ofNat 32 (4 * n)) (h3 : r.read 3 = 0x10308) :
    ∃ (m' : Machine) (r' : Registers), Silent (3 * (n + 1)) (m.at 17 r) (m'.at 20 r') ∧
      Loaded m'.sram ∧ m'.processor.ienable = false ∧ r.SameOutside [2] r' := by
  induction n generalizing m r with
  | zero =>
    obtain ⟨m', hclear, hloaded', hienable'⟩ := silent_clear_word hloaded hienable r h2 (by decide)
    have hread : (line [.addi 2 2 4] r).read 2 = 0x10308 := by
      simp [line, Instruction.alu, Registers.read_write, h2]
    have hsame : r.SameOutside [2] (line [.addi 2 2 4] r) := .line r _ rfl
    have hexit := silent_not_taken hloaded' hienable' 19 _ rfl
      (by rw [hread, hsame 3 (by decide), h3]; decide)
    exact ⟨m', _, hclear.trans hexit, hloaded', hienable', hsame⟩
  | succ n ih =>
    have hcases : n = 0 ∨ n = 1 := by omega
    obtain ⟨m', hclear, hloaded', hienable'⟩ := silent_clear_word hloaded hienable r h2
      (by rcases hcases with rfl | rfl <;> decide)
    have hread : (line [.addi 2 2 4] r).read 2 = 0x10304 - BitVec.ofNat 32 (4 * n) := by
      rcases hcases with rfl | rfl <;> simp [line, Instruction.alu, Registers.read_write, h2]
    have hsame : r.SameOutside [2] (line [.addi 2 2 4] r) := .line r _ rfl
    have hback := silent_taken hloaded' hienable' 19 17 _ rfl (by decide)
      (by rw [hread, hsame 3 (by decide), h3]; rcases hcases with rfl | rfl <;> decide)
    obtain ⟨m'', r', hrest, hdone, hienable'', hsame'⟩ := ih hloaded' hienable' (by omega)
      _ hread ((hsame 3 (by decide)).trans h3)
    refine ⟨m'', r', ((hclear.trans hback).trans hrest).of_eq (by omega), hdone, hienable'',
      hsame.trans hsame'⟩

/-- A call of a routine that only returns. -/
theorem silent_leaf (k k' : ℕ) (r : Registers) {imm26 : BitVec 26}
    (hi : listing[k]? = some (.call imm26)) (hleaf : listing[k']? = some (.jmp 31))
    (htarget : Processor.jumpTarget (imm26.setWidth 32 <<< 2) = BitVec.ofNat 16 (16384 + k')) :
    ∃ r' : Registers, Silent 2 (m.at k r) (m.at (k + 1) r') ∧ r.SameOutside [31] r' := by
  have hcall := silent_call hloaded hienable k k' r hi htarget
  have hreturn := silent_jmp hloaded hienable k' (k + 1) (r.write 31 _) hleaf
    (by rw [r.read_write_self _ (by decide)]; exact jumpTarget_returnAddress k)
  exact ⟨_, hcall.trans hreturn, .write r 31 _⟩

/-- The return address is taken from the stack. -/
theorem silent_pop (k : ℕ) (r : Registers) {sp ra : Word} (hsp : r.read 27 = sp)
    (hldw : listing[k]? = some (.ldw 31 27 0)) (haddi : [.addi 27 27 4] <+: listing.drop (k + 1))
    (hroute : route true (sp.setWidth 18) = .sram)
    (hsram : (wordIndex (sp.setWidth 18)).toNat < sramWords)
    (hra : m.sram (wordIndex (sp.setWidth 18)) = ra) :
    ∃ r' : Registers, Silent 2 (m.at k r) (m.at (k + 2) r') ∧ r.SameOutside [27, 31] r' ∧
      r'.read 27 = sp + 4 ∧ r'.read 31 = ra := by
  have hrestore := silent_ldw hloaded hienable k r _ hldw
    (by rw [hsp]; exact congrArg _ (BitVec.add_zero sp)) hroute hsram
  rw [hra] at hrestore
  refine ⟨_, hrestore.trans (silent_line hloaded hienable (k + 1) _ _ haddi rfl),
    ((Registers.SameOutside.write r 31 ra).mono (by decide)).trans (.line _ _ rfl), ?_, ?_⟩
  · simp [line, Instruction.alu, Registers.read_write, hsp]
  · simp [line, Instruction.alu, Registers.read_write]

/-- From the reset to the call of `alt_load`: the stack and global pointers are set, and the section
`.bss` is cleared. -/
theorem silent_start (r : Registers) :
    ∃ (m' : Machine) (r' : Registers), Silent 22 (m.at 0 r) (m'.at 96 r') ∧ Loaded m'.sram ∧
      m'.processor.ienable = false ∧
      r'.read 26 = 0x182f4 ∧ r'.read 27 = 0x1a000 ∧ r'.read 31 = 0x10054 := by
  have hreset := silent_line hloaded hienable 0 r [.orhi 1 0 1, .ori 1 1 0x20] ⟨_, rfl⟩ rfl
  set r₁ := line [.orhi 1 0 1, .ori 1 1 0x20] r with hr₁
  have h1 : r₁.read 1 = 0x10020 := by
    simp [hr₁, line, Instruction.alu, logicResult, Registers.read_write]
  have hjump := silent_jmp hloaded hienable 2 8 r₁ (a := 1) rfl (by rw [h1]; decide)
  have hpointers := silent_line hloaded hienable 8 r₁ [.orhi 27 0 1, .ori 27 27 0xa000,
    .orhi 26 0 1, .ori 26 26 0x82f4, .orhi 2 0 1, .ori 2 2 0x2fc, .orhi 3 0 1, .ori 3 3 0x308]
    ⟨_, rfl⟩ rfl
  set r₂ := line _ r₁ with hr₂
  have hread : r₂.read 2 = 0x102fc ∧ r₂.read 3 = 0x10308 ∧ r₂.read 26 = 0x182f4 ∧
      r₂.read 27 = 0x1a000 := by
    simp [hr₂, line, Instruction.alu, logicResult, Registers.read_write]
  obtain ⟨h2, h3, h26, h27⟩ := hread
  have henter := silent_not_taken hloaded hienable 16 r₂ rfl (by rw [h2, h3]; decide)
  obtain ⟨m', r₃, hclear, hloaded', hienable', hsame⟩ := silent_clear hloaded hienable 2 (by decide)
    r₂ h2 h3
  have hcall := silent_call hloaded' hienable' 20 96 r₃ rfl (by decide)
  have hkept : r₃.SameOutside [31] _ := .write r₃ 31 (Processor.returnAddress 0x4014)
  refine ⟨m', _, ((((hreset.trans hjump).trans hpointers).trans henter).trans hclear).trans hcall,
    hloaded', hienable', ?_, ?_, ?_⟩
  · exact (hkept 26 (by decide)).trans ((hsame 26 (by decide)).trans h26)
  · exact (hkept 27 (by decide)).trans ((hsame 27 (by decide)).trans h27)
  · exact (r₃.read_write_self _ (by decide)).trans (by decide)

/-- The copies of `alt_load`: of the section `.rwdata` one word is copied to where it belongs, the
other two sections are where they belong already. -/
theorem silent_copies (r : Registers) (h6 : r.read 6 = 0x10000) (h7 : r.read 7 = 0x10000) :
    ∃ (m' : Machine) (r' : Registers), Silent 29 (m.at 100 r) (m'.at 161 r') ∧ Loaded m'.sram ∧
      m'.processor.ienable = false ∧ m'.sram 10239 = m.sram 10239 ∧
      r.SameOutside [2, 3, 4, 5, 6, 7] r' := by
  have hbounds := silent_line hloaded hienable 100 r [.addi 6 6 0x2f4, .addi 7 7 0x2f8] ⟨_, rfl⟩ rfl
  set r₁ := line [.addi 6 6 0x2f4, .addi 7 7 0x2f8] r with hr₁
  have hsame₁ : r.SameOutside [6, 7] r₁ := .line r _ rfl
  have hread₁ : r₁.read 6 = 0x102f4 ∧ r₁.read 7 = 0x102f8 := by
    simp [hr₁, line, Instruction.alu, Registers.read_write, h6, h7]
  have hcopy := silent_not_taken hloaded hienable 102 r₁ rfl
    (by rw [hread₁.1, hread₁.2]; decide)
  have hlast := silent_line hloaded hienable 103 r₁ [.orhi 2 0 1, .addi 2 2 0x2f8] ⟨_, rfl⟩ rfl
  set r₂ := line [.orhi 2 0 1, .addi 2 2 0x2f8] r₁ with hr₂
  have hsame₂ : r₁.SameOutside [2] r₂ := .line r₁ _ rfl
  have hread₂ : r₂.read 6 = 0x102f4 ∧ r₂.read 7 = 0x102f8 ∧ r₂.read 2 = 0x102f8 := by
    simp [hr₂, line, Instruction.alu, logicResult, Registers.read_write, hread₁]
  have hsome := silent_not_taken hloaded hienable 105 r₂ rfl
    (by rw [hread₂.1, hread₂.2.2]; decide)
  have hcount := silent_line hloaded hienable 106 r₂ [.addi 3 6 4, .sub 3 2 3, .srli 3 3 2,
    .add 2 0 0, .addi 3 3 1, .add 3 3 3, .add 3 3 3, .add 4 2 7] ⟨_, rfl⟩ rfl
  set r₃ := line _ r₂ with hr₃
  have hsame₃ : r₂.SameOutside [2, 3, 4] r₃ := .line r₂ _ rfl
  have hread₃ : r₃.read 2 = 0 ∧ r₃.read 3 = 4 ∧ r₃.read 4 = 0x102f8 ∧ r₃.read 6 = 0x102f4 := by
    simp [hr₃, line, Instruction.alu, Registers.read_write, hread₂]
  have hload := silent_ldw hloaded hienable 114 r₃ 0x102f8 rfl
    (by rw [hread₃.2.2.1]; decide) (by decide) (by decide)
  set r₄ := r₃.write 5 (m.sram (wordIndex 0x102f8)) with hr₄
  have hsame₄ : r₃.SameOutside [5] r₄ := .write r₃ 5 _
  have hplace := silent_line hloaded hienable 115 r₄ [.add 4 2 6, .addi 2 2 4] ⟨_, rfl⟩ rfl
  set r₅ := line [.add 4 2 6, .addi 2 2 4] r₄ with hr₅
  have hsame₅ : r₄.SameOutside [2, 4] r₅ := .line r₄ _ rfl
  have hread₅ : r₅.read 2 = 4 ∧ r₅.read 3 = 4 ∧ r₅.read 4 = 0x102f4 := by
    simp [hr₅, hr₄, line, Instruction.alu, Registers.read_write, hread₃]
  obtain ⟨hstore, hloaded'⟩ := silent_store_writable hloaded hienable 117 r₅ 0x102f4 rfl
    (by rw [hread₅.2.2]; decide) (by decide)
  have hdone := silent_not_taken hloaded' hienable 118 r₅ rfl
    (by rw [hread₅.1, hread₅.2.1]; decide)
  have hexceptions := silent_line hloaded' hienable 119 r₅ [.orhi 6 0 1, .orhi 7 0 1,
    .addi 6 6 0x20, .addi 7 7 0x20] ⟨_, rfl⟩ rfl
  set r₆ := line _ r₅ with hr₆
  have hsame₆ : r₅.SameOutside [6, 7] r₆ := .line r₅ _ rfl
  have hread₆ : r₆.read 6 = r₆.read 7 := by
    simp [hr₆, line, Instruction.alu, logicResult, Registers.read_write]
  have hskip := silent_taken hloaded' hienable 123 140 r₆ rfl (by decide)
    (by rw [hread₆, cmpResult_eq, beq_self_eq_true])
  have hrodata := silent_line hloaded' hienable 140 r₆ [.orhi 6 0 1, .orhi 7 0 1,
    .addi 6 6 0x2f4, .addi 7 7 0x2f4] ⟨_, rfl⟩ rfl
  set r₇ := line _ r₆ with hr₇
  have hsame₇ : r₆.SameOutside [6, 7] r₇ := .line r₆ _ rfl
  have hread₇ : r₇.read 6 = r₇.read 7 := by
    simp [hr₇, line, Instruction.alu, logicResult, Registers.read_write]
  have hskip' := silent_taken hloaded' hienable 144 161 r₇ rfl (by decide)
    (by rw [hread₇, cmpResult_eq, beq_self_eq_true])
  have hcopied := ((((((((hbounds.trans hcopy).trans hlast).trans hsome).trans hcount).trans
    hload).trans hplace).trans hstore).trans hdone)
  refine ⟨_, r₇, (((hcopied.trans hexceptions).trans hskip).trans hrodata).trans hskip', hloaded',
    hienable, store_of_ne m (by decide) _, ?_⟩
  exact ((((((hsame₁.mono (by decide)).trans (hsame₂.mono (by decide))).trans
    (hsame₃.mono (by decide))).trans (hsame₄.mono (by decide))).trans
      (hsame₅.mono (by decide))).trans (hsame₆.mono (by decide))).trans (hsame₇.mono (by decide))

/-- From the call of `alt_load` to its return. -/
theorem silent_alt_load (r : Registers) (h27 : r.read 27 = 0x1a000) (h31 : r.read 31 = 0x10054) :
    ∃ (m' : Machine) (r' : Registers), Silent 39 (m.at 96 r) (m'.at 21 r') ∧ Loaded m'.sram ∧
      m'.processor.ienable = false ∧ r'.read 26 = r.read 26 ∧ r'.read 27 = 0x1a000 := by
  have hpush := silent_line hloaded hienable 96 r [.addi 27 27 0xfffc, .orhi 6 0 1, .orhi 7 0 1]
    ⟨_, rfl⟩ rfl
  set r₁ := line [.addi 27 27 0xfffc, .orhi 6 0 1, .orhi 7 0 1] r with hr₁
  have hsame₁ : r.SameOutside [6, 7, 27] r₁ := .line r _ rfl
  have hread₁ : r₁.read 6 = 0x10000 ∧ r₁.read 7 = 0x10000 ∧ r₁.read 27 = 0x19ffc := by
    simp [hr₁, line, Instruction.alu, logicResult, Registers.read_write, h27]
  obtain ⟨h6, h7, hsp⟩ := hread₁
  obtain ⟨hsave, hloaded₂⟩ := silent_store_writable hloaded hienable 99 r₁ 0x19ffc rfl
    (by rw [hsp]; decide) (by decide)
  obtain ⟨m₃, r₃, hcopies, hloaded₃, hienable₃, hstack, hsame₃⟩ :=
    silent_copies hloaded₂ hienable r₁ h6 h7
  have hsaved : m₃.sram (wordIndex 0x19ffc) = 0x10054 := by
    rw [show wordIndex 0x19ffc = 10239 by decide, hstack]
    exact (store_self m _ _).trans ((hsame₁ 31 (by decide)).trans h31)
  obtain ⟨r₄, hflush, hsame₄⟩ := silent_leaf hloaded₃ hienable₃ 161 185 r₃ rfl rfl (by decide)
  have hsp₄ : r₄.read 27 = 0x19ffc :=
    (hsame₄ 27 (by decide)).trans ((hsame₃ 27 (by decide)).trans hsp)
  obtain ⟨r₅, hpop, hsame₅, hsp₅, hra₅⟩ := silent_pop hloaded₃ hienable₃ 162 r₄ hsp₄ rfl ⟨_, rfl⟩
    (by decide) (by decide) hsaved
  have hleave := silent_jmpi hloaded₃ hienable₃ 164 186 r₅ rfl (by decide)
  have hreturn := silent_jmp hloaded₃ hienable₃ 186 21 r₅ (a := 31) rfl (by rw [hra₅]; decide)
  refine ⟨m₃, r₅, (((((hpush.trans hsave).trans hcopies).trans hflush).trans hpop).trans
    hleave).trans hreturn, hloaded₃, hienable₃, ?_, hsp₅⟩
  exact (hsame₅ 26 (by decide)).trans ((hsame₄ 26 (by decide)).trans
    ((hsame₃ 26 (by decide)).trans (hsame₁ 26 (by decide))))

/-- From the call of `alt_irq_init` to its return: the interrupt lines are masked and then the
interrupts enabled. -/
theorem silent_alt_irq_init (r : Registers) (h27 : r.read 27 = 0x19ffc) :
    ∃ (m' : Machine) (r' : Registers), Silent 11 (m.at 168 r) (m'.at 169 r') ∧ Loaded m'.sram ∧
      m'.processor.ienable = false ∧ m'.sram 10239 = m.sram 10239 ∧
      r.SameOutside [2, 27, 31] r' ∧ r'.read 27 = 0x19ffc := by
  have hcall := silent_call hloaded hienable 168 176 r rfl (by decide)
  set r₁ := r.write 31 (Processor.returnAddress (BitVec.ofNat 16 (16384 + 168))) with hr₁
  have hsame₁ : r.SameOutside [31] r₁ := .write r 31 _
  have hpush := silent_line hloaded hienable 176 r₁ [.addi 27 27 0xfffc] ⟨_, rfl⟩ rfl
  set r₂ := line [.addi 27 27 0xfffc] r₁ with hr₂
  have hsame₂ : r₁.SameOutside [27] r₂ := .line r₁ _ rfl
  have hsp₂ : r₂.read 27 = 0x19ff8 := by
    simp [hr₂, hr₁, line, Instruction.alu, Registers.read_write, h27]
  have hra₂ : r₂.read 31 = 0x102a4 :=
    (hsame₂ 31 (by decide)).trans ((r.read_write_self _ (by decide)).trans (by decide))
  obtain ⟨hsave, hloaded₂⟩ := silent_store_writable hloaded hienable 177 r₂ 0x19ff8 rfl
    (by rw [hsp₂]; decide) (by decide)
  rw [hra₂] at hsave hloaded₂
  have hinit := silent_call hloaded₂ hienable 178 187 r₂ rfl (by decide)
  set r₃ := r₂.write 31 (Processor.returnAddress (BitVec.ofNat 16 (16384 + 178))) with hr₃
  have hsame₃ : r₂.SameOutside [31] r₃ := .write r₂ 31 _
  obtain ⟨m₃, hmask, hsram₃, hienable₃⟩ := silent_wrctl hloaded₂ hienable 187 r₃ rfl
    fun _ ↦ r₃.read_zero
  have hloaded₃ : Loaded m₃.sram := by
    rw [hsram₃]
    exact hloaded₂
  have hback := silent_jmp hloaded₃ hienable₃ 188 179 r₃ (a := 31) rfl
    (by rw [hr₃, r₂.read_write_self _ (by decide)]; decide)
  have hone := silent_line hloaded₃ hienable₃ 179 r₃ [.addi 2 0 1] ⟨_, rfl⟩ rfl
  set r₄ := line [.addi 2 0 1] r₃ with hr₄
  have hsame₄ : r₃.SameOutside [2] r₄ := .line r₃ _ rfl
  obtain ⟨m₄, hpie, hsram₄, hienable₄⟩ := silent_wrctl hloaded₃ hienable₃ 180 r₄ rfl
    fun h ↦ absurd h (by decide)
  have hloaded₄ : Loaded m₄.sram := by
    rw [hsram₄]
    exact hloaded₃
  have hsaved : m₄.sram (wordIndex 0x19ff8) = 0x102a4 := by
    rw [hsram₄, hsram₃, store_self]
  have hsp₄ : r₄.read 27 = 0x19ff8 :=
    (hsame₄ 27 (by decide)).trans ((hsame₃ 27 (by decide)).trans hsp₂)
  obtain ⟨r₅, hpop, hsame₅, hsp₅, hra₅⟩ := silent_pop hloaded₄ hienable₄ 181 r₄ hsp₄ rfl ⟨_, rfl⟩
    (by decide) (by decide) hsaved
  have hreturn := silent_jmp hloaded₄ hienable₄ 183 169 r₅ (a := 31) rfl (by rw [hra₅]; decide)
  refine ⟨m₄, r₅, ((((((((hcall.trans hpush).trans hsave).trans hinit).trans hmask).trans
    hback).trans hone).trans hpie).trans hpop).trans hreturn, hloaded₄, hienable₄, ?_, ?_, hsp₅⟩
  · rw [hsram₄, hsram₃]
    exact store_of_ne m (by decide) _
  · exact ((((hsame₁.mono (by decide)).trans (hsame₂.mono (by decide))).trans
      (hsame₃.mono (by decide))).trans (hsame₄.mono (by decide))).trans (hsame₅.mono (by decide))

/-- `alt_main` loads the arguments of `main`. -/
theorem silent_arguments (r : Registers) (h26 : r.read 26 = 0x182f4) :
    ∃ r' : Registers, Silent 3 (m.at 170 r) (m.at 173 r') ∧ r.SameOutside [4, 5, 6] r' := by
  have hargc := silent_ldw hloaded hienable 170 r 0x102fc rfl
    (by rw [h26]; decide) (by decide) (by decide)
  set r₁ := r.write 6 (m.sram (wordIndex 0x102fc))
  have hsame₁ : r.SameOutside [6] r₁ := .write r 6 _
  have hargv := silent_ldw hloaded hienable 171 r₁ 0x10300 rfl
    (by rw [hsame₁ 26 (by decide), h26]; decide) (by decide) (by decide)
  set r₂ := r₁.write 5 (m.sram (wordIndex 0x10300))
  have hsame₂ : r₁.SameOutside [5] r₂ := .write r₁ 5 _
  have henvp := silent_ldw hloaded hienable 172 r₂ 0x10304 rfl
    (by rw [hsame₂ 26 (by decide), hsame₁ 26 (by decide), h26]; decide) (by decide) (by decide)
  exact ⟨_, (hargc.trans hargv).trans henvp, ((hsame₁.mono (by decide)).trans
    (hsame₂.mono (by decide))).trans ((Registers.SameOutside.write r₂ 4 _).mono (by decide))⟩

/-- From the call of `alt_main` to the first word of `main`. -/
theorem silent_alt_main (r : Registers) (h26 : r.read 26 = 0x182f4) (h27 : r.read 27 = 0x1a000) :
    ∃ (m' : Machine) (r' : Registers), Silent 23 (m.at 21 r) (m'.at 23 r') ∧ Loaded m'.sram ∧
      m'.processor.ienable = false ∧ r'.read 27 = 0x1a000 := by
  have hcall := silent_call hloaded hienable 21 165 r rfl (by decide)
  set r₁ := r.write 31 (Processor.returnAddress (BitVec.ofNat 16 (16384 + 21))) with hr₁
  have hsame₁ : r.SameOutside [31] r₁ := .write r 31 _
  have hpush := silent_line hloaded hienable 165 r₁ [.addi 27 27 0xfffc, .add 4 0 0] ⟨_, rfl⟩ rfl
  set r₂ := line [.addi 27 27 0xfffc, .add 4 0 0] r₁ with hr₂
  have hsame₂ : r₁.SameOutside [4, 27] r₂ := .line r₁ _ rfl
  have hsp₂ : r₂.read 27 = 0x19ffc := by
    simp [hr₂, hr₁, line, Instruction.alu, Registers.read_write, h27]
  have hra₂ : r₂.read 31 = 0x10058 :=
    (hsame₂ 31 (by decide)).trans ((r.read_write_self _ (by decide)).trans (by decide))
  obtain ⟨hsave, hloaded₂⟩ := silent_store_writable hloaded hienable 167 r₂ 0x19ffc rfl
    (by rw [hsp₂]; decide) (by decide)
  rw [hra₂] at hsave hloaded₂
  obtain ⟨m₃, r₃, hirq, hloaded₃, hienable₃, hstack, hsame₃, hsp₃⟩ :=
    silent_alt_irq_init hloaded₂ hienable r₂ hsp₂
  obtain ⟨r₄, hsys, hsame₄⟩ := silent_leaf hloaded₃ hienable₃ 169 184 r₃ rfl rfl (by decide)
  have h26₄ : r₄.read 26 = 0x182f4 := by
    rw [hsame₄ 26 (by decide), hsame₃ 26 (by decide), hsame₂ 26 (by decide),
      hsame₁ 26 (by decide), h26]
  obtain ⟨r₅, harguments, hsame₅⟩ := silent_arguments hloaded₃ hienable₃ r₄ h26₄
  have hsp₅ : r₅.read 27 = 0x19ffc :=
    (hsame₅ 27 (by decide)).trans ((hsame₄ 27 (by decide)).trans hsp₃)
  have hsaved : m₃.sram (wordIndex 0x19ffc) = 0x10058 := by
    rw [show wordIndex 0x19ffc = 10239 by decide, hstack]
    exact store_self m _ _
  obtain ⟨r₆, hpop, hsame₆, hsp₆, -⟩ := silent_pop hloaded₃ hienable₃ 173 r₅ hsp₅ rfl ⟨_, rfl⟩
    (by decide) (by decide) hsaved
  have hleave := silent_jmpi hloaded₃ hienable₃ 175 23 r₆ rfl (by decide)
  exact ⟨m₃, r₆, ((((((hcall.trans hpush).trans hsave).trans hirq).trans hsys).trans
    harguments).trans hpop).trans hleave, hloaded₃, hienable₃, hsp₆⟩

/-- From the first word of `main` to the first poll: the registers of the caller are saved, and
those of the loop set. -/
theorem silent_main (r : Registers) (h27 : r.read 27 = 0x1a000) :
    Ahead 21 (m.at 23 r) Main.start := by
  have hpush := silent_line hloaded hienable 23 r [.addi 27 27 0xffd8] ⟨_, rfl⟩ rfl
  set r₁ := line [.addi 27 27 0xffd8] r with hr₁
  have hsp₁ : r₁.read 27 = 0x19fd8 := by
    simp [hr₁, line, Instruction.alu, Registers.read_write, h27]
  obtain ⟨m₂, hsaves, hloaded₂, hienable₂⟩ := silent_saves hloaded hienable 24 r₁ 0x19fd8 hsp₁
    [(23, 0x1c), (22, 0x18), (18, 8)] ⟨_, rfl⟩ (by decide)
  have hports := silent_line hloaded₂ hienable₂ 27 r₁ [.orhi 23 0 2, .orhi 18 0 2, .orhi 22 0 2]
    ⟨_, rfl⟩ rfl
  set r₂ := line [.orhi 23 0 2, .orhi 18 0 2, .orhi 22 0 2] r₁ with hr₂
  have hsame₂ : r₁.SameOutside [18, 22, 23] r₂ := .line r₁ _ rfl
  obtain ⟨m₃, hsaves', hloaded₃, hienable₃⟩ := silent_saves hloaded₂ hienable₂ 30 r₂ 0x19fd8
    ((hsame₂ 27 (by decide)).trans hsp₁)
    [(19, 0xc), (17, 4), (31, 0x24), (28, 0x20), (21, 0x14), (20, 0x10), (16, 0)] ⟨_, rfl⟩
    (by decide)
  have hinit := silent_line hloaded₃ hienable₃ 37 r₂ [.add 19 0 0, .add 3 0 0, .addi 18 18 0x1000,
    .addi 17 0 1, .addi 23 23 0x1040, .addi 22 22 0x1060] ⟨_, rfl⟩ rfl
  set r₃ := line _ r₂ with hr₃
  have hread₃ : r₃.read 17 = 1 ∧ r₃.read 18 = 0x21000 ∧ r₃.read 22 = 0x21060 ∧
      r₃.read 23 = 0x21040 ∧ r₃.read 19 = 0 ∧ r₃.read 3 = 0 := by
    simp [hr₃, hr₂, line, Instruction.alu, logicResult, Registers.read_write]
  obtain ⟨h17, h18, h22, h23, h19, h3⟩ := hread₃
  have hloop := silent_br hloaded₃ hienable₃ 43 45 r₃ rfl (by decide)
  refine ⟨m₃.at 45 r₃, ((((hpush.trans hsaves).trans hports).trans hsaves').trans hinit).trans
    hloop, hloaded₃, hienable₃, rfl, ⟨h17, h18, h22, h23, h19⟩, ?_⟩
  exact congrArg (BitVec.setWidth 8) h3

end Boot

/-- After a reset, with the program in the memory and anything beyond it, the processor is silent
for exactly 105 instructions and then makes the first poll. -/
theorem silent_boot {sram : BitVec 14 → Word} (hloaded : Loaded sram) (registers : Registers) :
    Ahead 105 ⟨.reset registers, sram⟩ Main.start := by
  obtain ⟨m₁, r₁, hstart, hloaded₁, hienable₁, h26, h27, h31⟩ :=
    silent_start (m := ⟨.reset registers, sram⟩) hloaded rfl registers
  obtain ⟨m₂, r₂, hload, hloaded₂, hienable₂, h26₂, h27₂⟩ :=
    silent_alt_load hloaded₁ hienable₁ r₁ h27 h31
  obtain ⟨m₃, r₃, hmain, hloaded₃, hienable₃, h27₃⟩ :=
    silent_alt_main hloaded₂ hienable₂ r₂ (h26₂.trans h26) h27₂
  obtain ⟨m₄, hfirst, hpaused⟩ := silent_main hloaded₃ hienable₃ r₃ h27₃
  exact ⟨m₄, ((hstart.trans hload).trans hmain).trans hfirst, hpaused⟩

end AudioProcessor.Nios
