import AudioProcessor.Equaliser.Main
import AudioProcessor.Nios.Multiply

/-!
# The arithmetic of a frame in instructions

The instructions between the last read and the first write compute `Equaliser.body`: the crossover
in a straight line (`silent_crossover`), the two products and their sum with two calls of the
multiplication routine (`silent_boost`), and the limiter with two branches (`silent_limiter`).
-/

set_option autoImplicit false
set_option relaxedAutoImplicit false

namespace AudioProcessor.Nios

/-! ### Idioms of the compiler -/

/-- The sample is taken from the low half of a word with its sign. -/
theorem sign_half (x : Word) :
    ((x &&& 0xffff) ^^^ 0x8000) + 0xffff8000 = (x.setWidth 16).signExtend 32 := by
  have hmask : x &&& 0xffff = (x.setWidth 16).setWidth 32 := SignBit.and_mask x 16
  have hsign := SignBit.setWidth_xor_sub_sign (w := 15) (v := 32) (by decide) (x.setWidth 16)
  rw [BitVec.setWidth_xor] at hsign
  rw [hmask, ← hsign, BitVec.sub_eq_add_neg]
  rfl

theorem shiftLeft_eight (x : Word) : x <<< 8 = x * 256 := by
  rw [BitVec.shiftLeft_eq_mul_twoPow]
  rfl

section Body

variable {m : Machine} (hloaded : Loaded m.sram) (hienable : m.processor.ienable = false)
  (bassPrev : Int32) (audioIn : Int16) (bStage tStage : Int32)

include hloaded hienable

/-- The crossover, with the factor of the treble stage. -/
theorem silent_crossover (r : Registers) (haudioIn : (r.read 5).setWidth 16 = audioIn.toBitVec)
    (hbassPrev : r.read 19 = bassPrev.toBitVec) :
    ∃ r', Silent 11 (m.at 55 r) (m.at 66 r') ∧ r.SameOutside [2, 4, 5, 19, 20] r' ∧
      r'.read 4 = (r.read 4 &&& 3) + 1 ∧
      r'.read 5 = (Equaliser.body bassPrev audioIn bStage tStage).treble.toBitVec ∧
      r'.read 19 = (Equaliser.body bassPrev audioIn bStage tStage).bassPrev.toBitVec ∧
      r'.read 20 = (Equaliser.body bassPrev audioIn bStage tStage).bass.toBitVec := by
  have hextend := silent_line hloaded hienable 55 r
    [.andi 5 5 0xffff, .xori 5 5 0x8000, .addi 5 5 0x8000] ⟨_, rfl⟩ rfl
  set r₁ := line [.andi 5 5 0xffff, .xori 5 5 0x8000, .addi 5 5 0x8000] r with hr₁
  have hsame₁ : r.SameOutside [5] r₁ := .line r _ rfl
  have h5 : r₁.read 5 = audioIn.toInt32.toBitVec := by
    rw [Int16.toBitVec_toInt32, ← haudioIn, ← sign_half]
    simp [hr₁, line, Instruction.alu, logicResult, Registers.read_write]
  have h19 : r₁.read 19 = bassPrev.toBitVec := (hsame₁ 19 (by decide)).trans hbassPrev
  have h4 : r₁.read 4 = r.read 4 := hsame₁ 4 (by decide)
  have hfilter := silent_line hloaded hienable 58 r₁ [.slli 2 5 8, .andi 4 4 3, .addi 4 4 1,
    .sub 2 2 19, .srai 2 2 3, .add 19 19 2, .srai 20 19 8, .sub 5 5 20] ⟨_, rfl⟩ rfl
  set r₂ := line [.slli 2 5 8, .andi 4 4 3, .addi 4 4 1, .sub 2 2 19, .srai 2 2 3, .add 19 19 2,
    .srai 20 19 8, .sub 5 5 20] r₁ with hr₂
  have hsame₂ : r₁.SameOutside [2, 4, 5, 19, 20] r₂ := .line r₁ _ rfl
  have hfactor : r₂.read 4 = (r.read 4 &&& 3) + 1 := by
    simp [hr₂, line, Instruction.alu, logicResult, Registers.read_write, h4]
  have hread19 : r₂.read 19 = r₁.read 19 + (r₁.read 5 <<< 8 - r₁.read 19).sshiftRight 3 := by
    simp [hr₂, line, Instruction.alu, Registers.read_write]
  have hread20 : r₂.read 20 = (r₂.read 19).sshiftRight 8 := by
    simp [hr₂, line, Instruction.alu, Registers.read_write]
  have hread5 : r₂.read 5 = r₁.read 5 - r₂.read 20 := by
    simp [hr₂, line, Instruction.alu, Registers.read_write]
  have hacc : r₂.read 19 = (Equaliser.body bassPrev audioIn bStage tStage).bassPrev.toBitVec := by
    rw [hread19, h5, h19, shiftLeft_eight]
    rfl
  have hbass : r₂.read 20 = (Equaliser.body bassPrev audioIn bStage tStage).bass.toBitVec := by
    rw [hread20, hacc]
    rfl
  have htreble : r₂.read 5 = (Equaliser.body bassPrev audioIn bStage tStage).treble.toBitVec := by
    rw [hread5, h5, hbass]
    rfl
  exact ⟨r₂, hextend.trans hfilter, (hsame₁.mono (by decide)).trans hsame₂, hfactor, htreble, hacc,
    hbass⟩

/-- The two products and their sum. -/
theorem silent_boost (r : Registers) :
    ∃ r', Silent (13 + roundSteps (r.read 4).toNat + roundSteps ((r.read 21 &&& 3) + 1).toNat)
        (m.at 66 r) (m.at 73 r') ∧ r.SameOutside [2, 3, 4, 5, 28, 31] r' ∧
      r'.read 2 = r.read 4 * r.read 5 + ((r.read 21 &&& 3) + 1) * r.read 20 := by
  have hcall := silent_call hloaded hienable 66 86 r rfl (by decide)
  set r₁ := r.write 31 (Processor.returnAddress (BitVec.ofNat 16 (16384 + 66))) with hr₁
  have hsame₁ : r.SameOutside [31] r₁ := .write r 31 _
  obtain ⟨r₂, hmultiply, hproduct, hsame₂⟩ := silent_mulsi3 hloaded hienable r₁ 67
    (by rw [hr₁, r.read_write_self _ (by decide)]; decide)
  have hnext := silent_line hloaded hienable 67 r₂ [.andi 4 21 3, .add 5 20 0, .addi 4 4 1,
    .add 28 2 0] ⟨_, rfl⟩ rfl
  set r₃ := line [.andi 4 21 3, .add 5 20 0, .addi 4 4 1, .add 28 2 0] r₂ with hr₃
  have hsame₃ : r₂.SameOutside [4, 5, 28] r₃ := .line r₂ _ rfl
  have h4 : r₃.read 4 = (r.read 21 &&& 3) + 1 := by
    rw [← hsame₁ 21 (by decide), ← hsame₂ 21 (by decide)]
    simp [hr₃, line, Instruction.alu, logicResult, Registers.read_write]
  have h5 : r₃.read 5 = r.read 20 := by
    rw [← hsame₁ 20 (by decide), ← hsame₂ 20 (by decide)]
    simp [hr₃, line, Instruction.alu, Registers.read_write]
  have h28 : r₃.read 28 = r.read 4 * r.read 5 := by
    rw [← hsame₁ 4 (by decide), ← hsame₁ 5 (by decide), ← hproduct]
    simp [hr₃, line, Instruction.alu, Registers.read_write]
  have hcall' := silent_call hloaded hienable 71 86 r₃ rfl (by decide)
  set r₄ := r₃.write 31 (Processor.returnAddress (BitVec.ofNat 16 (16384 + 71))) with hr₄
  have hsame₄ : r₃.SameOutside [31] r₄ := .write r₃ 31 _
  obtain ⟨r₅, hmultiply', hproduct', hsame₅⟩ := silent_mulsi3 hloaded hienable r₄ 72
    (by rw [hr₄, r₃.read_write_self _ (by decide)]; decide)
  have hsum := silent_line hloaded hienable 72 r₅ [.add 2 28 2] ⟨_, rfl⟩ rfl
  have hread : (line [.add 2 28 2] r₅).read 2 = r₅.read 28 + r₅.read 2 := by
    simp [line, Instruction.alu, Registers.read_write]
  refine ⟨line [.add 2 28 2] r₅, ?_, ?_, ?_⟩
  · have h := ((((hcall.trans hmultiply).trans hnext).trans hcall').trans hmultiply').trans hsum
    rw [hsame₄ 4 (by decide), h4, hsame₁ 4 (by decide)] at h
    exact h.of_eq (by simp only [List.length_cons, List.length_nil]; omega)
  · exact (((((hsame₁.mono (by decide)).trans (hsame₂.mono (by decide))).trans
      (hsame₃.mono (by decide))).trans (hsame₄.mono (by decide))).trans
        (hsame₅.mono (by decide))).trans (.line r₅ _ rfl)
  · rw [hread, hsame₅ 28 (by decide), hsame₄ 28 (by decide), h28, hproduct', hsame₄ 4 (by decide),
      hsame₄ 5 (by decide), h4, h5]

/-- The address of the first output port. -/
theorem silent_address (r : Registers) :
    ∃ r', Silent 2 (m.at 79 r) (m.at 81 r') ∧ r.SameOutside [3] r' ∧ r'.read 3 = 0x21020 := by
  refine ⟨_, silent_line hloaded hienable 79 r [.orhi 3 0 2, .addi 3 3 0x1020] ⟨_, rfl⟩ rfl,
    .line r _ rfl, ?_⟩
  simp [line, Instruction.alu, logicResult, Registers.read_write]

/-- The limiter takes one instruction more where it limits. -/
theorem silent_limiter (r : Registers)
    (hres : r.read 2 = (Equaliser.body bassPrev audioIn bStage tStage).res.toBitVec) :
    ∃ r', Silent (6 + if (Equaliser.body bassPrev audioIn bStage tStage).limited =
        (Equaliser.body bassPrev audioIn bStage tStage).res then 0 else 1) (m.at 73 r) (m.at 81 r') ∧
      r.SameOutside [2, 3] r' ∧ r'.read 3 = 0x21020 ∧
      r'.read 2 = (Equaliser.body bassPrev audioIn bStage tStage).limited.toBitVec := by
  have hlimited : (Equaliser.body bassPrev audioIn bStage tStage).limited =
      if (Equaliser.body bassPrev audioIn bStage tStage).res > 32767 then 32767
      else if (Equaliser.body bassPrev audioIn bStage tStage).res < -32768 then -32768
      else (Equaliser.body bassPrev audioIn bStage tStage).res := rfl
  rw [hlimited]
  generalize (Equaliser.body bassPrev audioIn bStage tStage).res = res at hres
  have hlower := silent_line hloaded hienable 73 r [.addi 3 0 0x8000] ⟨_, rfl⟩ rfl
  set r₁ := line [.addi 3 0 0x8000] r with hr₁
  have hsame₁ : r.SameOutside [3] r₁ := .line r _ rfl
  have h2 : r₁.read 2 = res.toBitVec := (hsame₁ 2 (by decide)).trans hres
  have h3 : r₁.read 3 = (-32768 : Int32).toBitVec := by
    simp [hr₁, line, Instruction.alu, Registers.read_write]
  by_cases hbelow : res < -32768
  · -- the lower limit replaces the result, and passes the upper one
    have hskip := silent_not_taken hloaded hienable 74 r₁ rfl
      (by rw [cmpResult_ge, h2, h3]; exact congrArg not hbelow)
    have hupper := silent_line hloaded hienable 75 r₁ [.add 2 3 0, .addi 3 0 0x7fff] ⟨_, rfl⟩ rfl
    set r₂ := line [.add 2 3 0, .addi 3 0 0x7fff] r₁ with hr₂
    have hsame₂ : r₁.SameOutside [2, 3] r₂ := .line r₁ _ rfl
    have h2' : r₂.read 2 = (-32768 : Int32).toBitVec := by
      rw [← h3]
      simp [hr₂, line, Instruction.alu, Registers.read_write]
    have h3' : r₂.read 3 = (32767 : Int32).toBitVec := by
      simp [hr₂, line, Instruction.alu, Registers.read_write]
    have hpass := silent_taken hloaded hienable 77 79 r₂ rfl (by decide)
      (by rw [cmpResult_ge, h2', h3']; rfl)
    obtain ⟨r₃, haddress, hsame₃, hport⟩ := silent_address hloaded hienable r₂
    have hnot : ¬ res > 32767 := Int32.lt_asymm (Int32.lt_trans hbelow (by decide))
    rw [if_neg hnot, if_pos hbelow]
    refine ⟨r₃, ?_, ((hsame₁.mono (by decide)).trans hsame₂).trans (hsame₃.mono (by decide)), hport,
      (hsame₃ 2 (by decide)).trans h2'⟩
    rw [if_neg (Int32.ne_of_lt hbelow).symm]
    exact (((hlower.trans hskip).trans hupper).trans hpass).trans haddress
  · have hpass := silent_taken hloaded hienable 74 76 r₁ rfl (by decide)
      (by rw [cmpResult_ge, h2, h3]; exact congrArg not (eq_false_of_ne_true hbelow))
    have hupper := silent_line hloaded hienable 76 r₁ [.addi 3 0 0x7fff] ⟨_, rfl⟩ rfl
    set r₂ := line [.addi 3 0 0x7fff] r₁ with hr₂
    have hsame₂ : r₁.SameOutside [3] r₂ := .line r₁ _ rfl
    have h2' : r₂.read 2 = res.toBitVec := (hsame₂ 2 (by decide)).trans h2
    have h3' : r₂.read 3 = (32767 : Int32).toBitVec := by
      simp [hr₂, line, Instruction.alu, Registers.read_write]
    have hsame : r.SameOutside [2, 3] r₂ := (hsame₁.mono (by decide)).trans (hsame₂.mono (by decide))
    have hfirst := (hlower.trans hpass).trans hupper
    by_cases habove : res > 32767
    · have hskip := silent_not_taken hloaded hienable 77 r₂ rfl
        (by rw [cmpResult_ge, h2', h3']; exact congrArg not habove)
      have hmove := silent_line hloaded hienable 78 r₂ [.add 2 3 0] ⟨_, rfl⟩ rfl
      set r₃ := line [.add 2 3 0] r₂ with hr₃
      have hsame₃ : r₂.SameOutside [2] r₃ := .line r₂ _ rfl
      have h2'' : r₃.read 2 = (32767 : Int32).toBitVec := by
        rw [← h3']
        simp [hr₃, line, Instruction.alu, Registers.read_write]
      obtain ⟨r₄, haddress, hsame₄, hport⟩ := silent_address hloaded hienable r₃
      rw [if_pos habove]
      refine ⟨r₄, ?_, (hsame.trans (hsame₃.mono (by decide))).trans (hsame₄.mono (by decide)), hport,
        (hsame₄ 2 (by decide)).trans h2''⟩
      rw [if_neg (Int32.ne_of_lt habove)]
      exact ((hfirst.trans hskip).trans hmove).trans haddress
    · have hpass' := silent_taken hloaded hienable 77 79 r₂ rfl (by decide)
        (by rw [cmpResult_ge, h2', h3']; exact congrArg not (eq_false_of_ne_true habove))
      obtain ⟨r₃, haddress, hsame₃, hport⟩ := silent_address hloaded hienable r₂
      rw [if_neg habove, if_neg hbelow]
      refine ⟨r₃, ?_, hsame.trans (hsame₃.mono (by decide)), hport,
        (hsame₃ 2 (by decide)).trans h2'⟩
      rw [if_pos rfl]
      exact (hfirst.trans hpass').trans haddress

end Body

end AudioProcessor.Nios
