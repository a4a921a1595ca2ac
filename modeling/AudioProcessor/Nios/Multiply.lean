import AudioProcessor.Nios.Image
import Mathlib.Data.Nat.Bits
import Mathlib.Tactic.Ring

/-!
# The multiplication routine

The core has no multiplier, so the compiler calls `__mulsi3`, which adds the multiplicand for every
bit that is set in the multiplier, from the lowest bit up. `silent_mulsi3` is its contract: called
from anywhere it returns the product of any two words, in a number of instructions that the bits of
the multiplier determine, and writes no register but the four that it may.
-/

set_option autoImplicit false
set_option relaxedAutoImplicit false

namespace AudioProcessor.Nios

/-! ### Shift and add -/

section ShiftAdd

variable {w : ℕ} (a b : BitVec w)

/-- A word is twice its half, and its lowest bit. -/
theorem eq_half_add : a = (a >>> 1) * 2 + if a.getLsbD 0 then 1 else 0 := by
  apply BitVec.eq_of_toNat_eq
  have hlt := a.isLt
  have hdiv := Nat.div_add_mod a.toNat 2
  rw [BitVec.getLsbD, Nat.testBit_zero]
  rcases Nat.mod_two_eq_zero_or_one a.toNat with heven | hodd
  · have hhalf : a.toNat / 2 * 2 = a.toNat := by omega
    simp [heven, Nat.shiftRight_eq_div_pow, hhalf, Nat.mod_eq_of_lt hlt]
  · have hhalf : a.toNat / 2 * 2 + 1 = a.toNat := by omega
    simp [hodd, Nat.shiftRight_eq_div_pow, hhalf, Nat.mod_eq_of_lt hlt]

/-- One round of the multiplication leaves the product. -/
theorem mul_eq_half : a * b = (a >>> 1) * (b + b) + if a.getLsbD 0 then b else 0 := by
  conv_lhs => rw [eq_half_add a]
  split_ifs
  · ring
  · ring

end ShiftAdd

/-- The instructions of all rounds: a bit that is set takes one more. -/
def roundSteps (a : ℕ) : ℕ := (a.bits.map fun bit ↦ if bit then 6 else 5).sum

theorem roundSteps_of_pos {a : ℕ} (ha : a ≠ 0) :
    roundSteps a = (if a % 2 = 1 then 6 else 5) + roundSteps (a / 2) := by
  rcases Nat.mod_two_eq_zero_or_one a with heven | hodd
  · have hhalf : a / 2 ≠ 0 := by omega
    conv_lhs => rw [← Nat.div_add_mod a 2, heven, Nat.add_zero, roundSteps, Nat.bit0_bits _ hhalf]
    rw [List.map_cons, List.sum_cons, if_neg Bool.false_ne_true, if_neg (by omega)]
    rfl
  · conv_lhs => rw [← Nat.div_add_mod a 2, hodd, roundSteps, Nat.bit1_bits]
    rw [List.map_cons, List.sum_cons, if_pos rfl, if_pos hodd]
    rfl

theorem roundSteps_le {a w : ℕ} (ha : a < 2 ^ w) : roundSteps a ≤ 6 * w := by
  induction w generalizing a with
  | zero =>
    obtain rfl : a = 0 := by omega
    rfl
  | succ w ih =>
    by_cases hzero : a = 0
    · rw [hzero]
      exact Nat.zero_le _
    · rw [roundSteps_of_pos hzero]
      have hhalf := ih (a := a / 2) (by omega)
      split_ifs <;> omega

section Mulsi3

variable {m : Machine} (hloaded : Loaded m.sram) (hienable : m.processor.ienable = false)

include hloaded hienable

/-- One round, up to the branch back. -/
theorem silent_round (r : Registers) :
    ∃ r', Silent (if (r.read 4).getLsbD 0 then 5 else 4) (m.at 88 r) (m.at 93 r') ∧
      r'.read 4 = r.read 4 >>> 1 ∧ r'.read 5 = r.read 5 + r.read 5 ∧
      r'.read 2 = r.read 2 + (if (r.read 4).getLsbD 0 then r.read 5 else 0) ∧
      r.SameOutside [2, 3, 4, 5] r' := by
  have htest := silent_line hloaded hienable 88 r [.andi 3 4 1, .srli 4 4 1] ⟨_, rfl⟩ rfl
  obtain ⟨r₁, hr₁⟩ : ∃ r₁, r₁ = line [.andi 3 4 1, .srli 4 4 1] r := ⟨_, rfl⟩
  rw [← hr₁] at htest
  have h3 : r₁.read 3 = r.read 4 &&& 1 := by
    simp [hr₁, line, Instruction.alu, logicResult, Registers.read_write]
  have h4 : r₁.read 4 = r.read 4 >>> 1 := by
    simp [hr₁, line, Instruction.alu, Registers.read_write]
  have hsame : r.SameOutside [3, 4] r₁ := by
    rw [hr₁]
    exact .line r _ rfl
  have h2 : r₁.read 2 = r.read 2 := hsame 2 (by decide)
  have h5 : r₁.read 5 = r.read 5 := hsame 5 (by decide)
  have hrest : r.SameOutside [2, 3, 4, 5] r₁ := hsame.mono (by decide)
  have hzero : (r₁.read 3 == r₁.read 0) = !(r.read 4).getLsbD 0 := by
    rw [h3, r₁.read_zero]
    change (_ &&& 1#32 == 0#32) = _
    rw [BitVec.and_one_eq_setWidth_ofBool_getLsbD]
    cases (r.read 4).getLsbD 0 <;> rfl
  cases hbit : (r.read 4).getLsbD 0 with
  | true =>
    have hskip := silent_not_taken hloaded hienable 90 r₁ rfl (hzero.trans (by rw [hbit]; rfl))
    have hadd := silent_line hloaded hienable 91 r₁ [.add 2 2 5, .add 5 5 5] ⟨_, rfl⟩ rfl
    refine ⟨_, htest.trans (hskip.trans hadd), ?_, ?_, ?_, hrest.trans (.line r₁ _ rfl)⟩
    · simp [line, Instruction.alu, Registers.read_write, h4]
    · simp [line, Instruction.alu, Registers.read_write, h5]
    · simp [line, Instruction.alu, Registers.read_write, h2, h5]
  | false =>
    have hskip := silent_taken hloaded hienable 90 92 r₁ rfl (by decide)
      (hzero.trans (by rw [hbit]; rfl))
    have hadd := silent_line hloaded hienable 92 r₁ [.add 5 5 5] ⟨_, rfl⟩ rfl
    refine ⟨_, htest.trans (hskip.trans hadd), ?_, ?_, ?_, hrest.trans (.line r₁ _ rfl)⟩
    · simp [line, Instruction.alu, Registers.read_write, h4]
    · simp [line, Instruction.alu, Registers.read_write, h5]
    · simp [line, Instruction.alu, Registers.read_write, h2]

/-- All rounds of a multiplier that is not zero. -/
theorem silent_rounds (n : ℕ) (r : Registers) (hn : (r.read 4).toNat = n) (hpos : n ≠ 0) :
    ∃ r', Silent (roundSteps n) (m.at 88 r) (m.at 94 r') ∧
      r'.read 2 = r.read 2 + r.read 4 * r.read 5 ∧ r.SameOutside [2, 3, 4, 5] r' := by
  induction n using Nat.strong_induction_on generalizing r with
  | h n ih =>
    obtain ⟨r₁, hround, h4, h5, h2, hsame⟩ := silent_round hloaded hienable r
    have hhalf : (r₁.read 4).toNat = n / 2 := by
      rw [h4, BitVec.toNat_ushiftRight, hn, Nat.shiftRight_eq_div_pow, Nat.pow_one]
    have hbit : (r.read 4).getLsbD 0 = decide (n % 2 = 1) := by
      rw [BitVec.getLsbD, Nat.testBit_zero, hn]
    have hsteps : (if (r.read 4).getLsbD 0 then 5 else 4) + 1 = if n % 2 = 1 then 6 else 5 := by
      rw [hbit]
      split_ifs <;> simp_all
    rw [roundSteps_of_pos hpos, ← hsteps]
    by_cases hlast : n / 2 = 0
    · -- the branch back is not taken
      have hzero : r₁.read 4 = 0 := by
        apply BitVec.eq_of_toNat_eq
        rw [hhalf, hlast]
        rfl
      have hexit := silent_not_taken hloaded hienable 93 r₁ rfl (by
        rw [cmpResult_ne, hzero, r₁.read_zero]
        rfl)
      refine ⟨r₁, ?_, ?_, hsame⟩
      · rw [hlast, roundSteps, Nat.zero_bits]
        exact hround.trans hexit
      · rw [mul_eq_half, ← h4, hzero, zero_mul, zero_add, h2]
    · have hback := silent_taken hloaded hienable 93 88 r₁ rfl (by decide) (by
        rw [cmpResult_ne, r₁.read_zero, Bool.not_eq_true', beq_eq_false_iff_ne]
        intro hzero
        rw [hzero] at hhalf
        exact hlast hhalf.symm)
      obtain ⟨r₂, hrounds, hproduct, hsame'⟩ := ih (n / 2) (by omega) r₁ hhalf hlast
      refine ⟨r₂, (hround.trans hback).trans hrounds, ?_, hsame.trans hsame'⟩
      rw [hproduct, h2, h4, h5, mul_eq_half (r.read 4)]
      ring

/-- The routine returns the product to the word it was called from. -/
theorem silent_mulsi3 (r : Registers) (k : ℕ)
    (hreturn : Processor.jumpTarget (r.read 31) = BitVec.ofNat 16 (16384 + k)) :
    ∃ r', Silent (3 + roundSteps (r.read 4).toNat) (m.at 86 r) (m.at k r') ∧
      r'.read 2 = r.read 4 * r.read 5 ∧ r.SameOutside [2, 3, 4, 5] r' := by
  have hclear := silent_line hloaded hienable 86 r [.add 2 0 0] ⟨_, rfl⟩ rfl
  obtain ⟨r₁, hr₁⟩ : ∃ r₁, r₁ = line [.add 2 0 0] r := ⟨_, rfl⟩
  rw [← hr₁] at hclear
  have hsame : r.SameOutside [2] r₁ := by
    rw [hr₁]
    exact .line r _ rfl
  have h2 : r₁.read 2 = 0 := by
    simp [hr₁, line, Instruction.alu, Registers.read_write]
  have h4 : r₁.read 4 = r.read 4 := hsame 4 (by decide)
  have h5 : r₁.read 5 = r.read 5 := hsame 5 (by decide)
  have h31 : r₁.read 31 = r.read 31 := hsame 31 (by decide)
  have hrest : r.SameOutside [2, 3, 4, 5] r₁ := hsame.mono (by decide)
  by_cases hzero : r.read 4 = 0
  · have hskip := silent_taken hloaded hienable 87 95 r₁ rfl (by decide) (by
      rw [cmpResult_eq, h4, hzero, r₁.read_zero]
      rfl)
    have hret := silent_jmp hloaded hienable 95 k r₁ (a := 31) rfl (by rw [h31, hreturn])
    refine ⟨r₁, ?_, by rw [h2, hzero, zero_mul], hrest⟩
    rw [hzero]
    exact (hclear.trans hskip).trans hret
  · have hskip := silent_not_taken hloaded hienable 87 r₁ rfl (by
      rw [cmpResult_eq, h4, r₁.read_zero]
      exact beq_eq_false_iff_ne.mpr hzero)
    obtain ⟨r₂, hrounds, hproduct, hsame'⟩ := silent_rounds hloaded hienable _ r₁ (by rw [h4])
      (fun h ↦ hzero (BitVec.eq_of_toNat_eq h))
    have hret := silent_jmp hloaded hienable 94 k r₂ (a := 31) rfl
      (by rw [hsame' 31 (by decide), h31, hreturn])
    refine ⟨r₂, ?_, by rw [hproduct, h2, h4, h5, zero_add], hrest.trans hsame'⟩
    have h := ((hclear.trans hskip).trans hrounds).trans hret
    rwa [show [Instruction.add 2 0 0].length + 1 + roundSteps (r.read 4).toNat + 1 =
      3 + roundSteps (r.read 4).toNat by rw [List.length_singleton]; omega] at h

/-- The product of any two words, after at most 195 instructions and without a transfer. -/
theorem mulsi3_returns (r : Registers) (k : ℕ)
    (hreturn : Processor.jumpTarget (r.read 31) = BitVec.ofNat 16 (16384 + k)) :
    ∃ n ≤ 195, ∃ r', Silent n (m.at 86 r) (m.at k r') ∧ r'.read 2 = r.read 4 * r.read 5 ∧
      r.SameOutside [2, 3, 4, 5] r' := by
  have hrounds := roundSteps_le (r.read 4).isLt
  exact ⟨_, by omega, silent_mulsi3 hloaded hienable r k hreturn⟩

end Mulsi3

/-- Called from the first multiplication of a frame with the factors -3 and 7. -/
theorem mulsi3_returns_negative : ∃ n ≤ 195, ∃ r',
    Silent n ((⟨.reset cleared, imageSram⟩ : Machine).at 86
        (((cleared.write 4 (-3)).write 5 7).write 31 0x1010c))
      ((⟨.reset cleared, imageSram⟩ : Machine).at 67 r') ∧ r'.read 2 = -21 ∧
      (((cleared.write 4 (-3)).write 5 7).write 31 0x1010c).SameOutside [2, 3, 4, 5] r' := by
  exact mulsi3_returns (m := ⟨.reset cleared, imageSram⟩) loaded_imageSram rfl
    (((cleared.write 4 (-3)).write 5 7).write 31 0x1010c) 67 (by decide)

end AudioProcessor.Nios
