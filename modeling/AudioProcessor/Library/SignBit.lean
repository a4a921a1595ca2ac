import Mathlib.Data.BitVec
import Mathlib.Logic.Function.Iterate

/-!
# Machine idioms on the sign bit

What a datapath and a compiler do with the top bit of a word: an unsigned comparison after inverting
it is the signed comparison (`ult_xor_sign`), inverting it in a wider word and subtracting it again
extends the sign (`setWidth_xor_sub_sign`), a mask of ones cuts a word short (`and_mask`), and a
shifter that moves one bit in a cycle computes the shift by the number of cycles
(`iterate_shiftRight`, `iterate_sshiftRight`, `iterate_shiftLeft`).
-/

set_option autoImplicit false
set_option relaxedAutoImplicit false

namespace SignBit

open BitVec (cons)

variable {w : ℕ}

/-- The word with only its top bit set. -/
def sign (w : ℕ) : BitVec (w + 1) := cons true 0#w

/-- Every word is its top bit and the ones below. -/
theorem exists_cons (x : BitVec (w + 1)) : ∃ (b : Bool) (y : BitVec w), x = cons b y :=
  ⟨x.msb, x.setWidth w, (BitVec.cons_msb_setWidth x).symm⟩

theorem toNat_cons_eq (b : Bool) (y : BitVec w) :
    (cons b y).toNat = (if b then 2 ^ w else 0) + y.toNat := by
  rw [BitVec.toNat_cons', Nat.shiftLeft_eq]
  cases b
  · rw [Bool.toNat_false, Nat.zero_mul, if_neg Bool.false_ne_true]
  · rw [Bool.toNat_true, Nat.one_mul, if_pos rfl]

theorem cons_xor_sign (b : Bool) (y : BitVec w) : cons b y ^^^ sign w = cons (!b) y := by
  rw [sign, BitVec.cons_xor_cons, Bool.xor_true, BitVec.xor_zero]

/-- The signed order is the unsigned one with the top bits inverted. -/
theorem ult_xor_sign (x y : BitVec (w + 1)) : (x ^^^ sign w).ult (y ^^^ sign w) = x.slt y := by
  obtain ⟨a, x, rfl⟩ := exists_cons x
  obtain ⟨b, y, rfl⟩ := exists_cons y
  have hx := x.isLt
  have hy := y.isLt
  rw [BitVec.slt_eq_ult, cons_xor_sign, cons_xor_sign, BitVec.msb_cons, BitVec.msb_cons, BitVec.ult,
    BitVec.ult, toNat_cons_eq, toNat_cons_eq, toNat_cons_eq, toNat_cons_eq]
  cases a <;> cases b
  · simp
  · have hlow : ¬ 2 ^ w + x.toNat < y.toNat := by omega
    have hhigh : x.toNat < 2 ^ w + y.toNat := by omega
    simp [hlow, hhigh]
  · have hlow : x.toNat < 2 ^ w + y.toNat := by omega
    have hhigh : ¬ 2 ^ w + x.toNat < y.toNat := by omega
    simp [hlow, hhigh]
  · simp

/-- A narrow word in a wider one gets its sign by inverting its top bit and subtracting that bit. -/
theorem setWidth_xor_sub_sign {v : ℕ} (hv : w < v) (x : BitVec (w + 1)) :
    (x ^^^ sign w).setWidth v - (sign w).setWidth v = x.signExtend v := by
  obtain ⟨b, y, rfl⟩ := exists_cons x
  have hy := y.isLt
  have hlt : 2 ^ (w + 1) ≤ 2 ^ v := Nat.pow_le_pow_right (by decide) hv
  rw [Nat.pow_succ] at hlt
  apply BitVec.eq_of_toNat_eq
  rw [cons_xor_sign, BitVec.toNat_sub, BitVec.toNat_signExtend, BitVec.msb_cons,
    BitVec.toNat_setWidth, BitVec.toNat_setWidth, BitVec.toNat_setWidth, sign, toNat_cons_eq,
    toNat_cons_eq, toNat_cons_eq, BitVec.toNat_ofNat, Nat.zero_mod, Nat.add_zero]
  rw [if_pos rfl, Nat.mod_eq_of_lt (show 2 ^ w < 2 ^ v by omega)]
  cases b with
  | false =>
    rw [if_pos Bool.not_false, if_neg Bool.false_ne_true, if_neg Bool.false_ne_true, Nat.zero_add,
      Nat.add_zero, Nat.mod_eq_of_lt (show 2 ^ w + y.toNat < 2 ^ v by omega),
      show 2 ^ v - 2 ^ w + (2 ^ w + y.toNat) = y.toNat + 2 ^ v by omega, Nat.add_mod_right]
  | true =>
    rw [if_neg (by decide), if_pos rfl, if_pos rfl, Nat.zero_add,
      Nat.mod_eq_of_lt (show y.toNat < 2 ^ v by omega),
      Nat.mod_eq_of_lt (show 2 ^ w + y.toNat < 2 ^ v by omega), Nat.mod_eq_of_lt (by omega),
      Nat.pow_succ]
    omega

/-- A mask of ones in the low bits keeps these bits. -/
theorem and_mask (x : BitVec w) (n : ℕ) :
    x &&& BitVec.ofNat w (2 ^ n - 1) = (x.setWidth n).setWidth w := by
  apply BitVec.eq_of_getLsbD_eq
  intro i hi
  rw [BitVec.getLsbD_and, BitVec.getLsbD_ofNat, BitVec.getLsbD_setWidth, BitVec.getLsbD_setWidth,
    Nat.testBit_two_pow_sub_one, decide_eq_true hi, Bool.true_and, Bool.true_and, Bool.and_comm]

/-! ### Shifting bit by bit -/

theorem cons_false_extractLsb' (x : BitVec (w + 1)) : cons false (x.extractLsb' 1 w) = x >>> 1 := by
  ext i hi
  simp only [BitVec.getElem_cons, BitVec.getElem_extractLsb', BitVec.getElem_ushiftRight]
  split_ifs with htop
  · rw [BitVec.getLsbD_of_ge x _ (by omega)]
  · rfl

theorem cons_msb_extractLsb' (x : BitVec (w + 1)) :
    cons x.msb (x.extractLsb' 1 w) = x.sshiftRight 1 := by
  ext i hi
  simp only [BitVec.getElem_cons, BitVec.getElem_extractLsb', BitVec.getElem_sshiftRight]
  split_ifs with htop hbound hbound
  · omega
  · rfl
  · exact BitVec.getLsbD_eq_getElem hbound
  · omega

theorem concat_extractLsb' (x : BitVec (w + 1)) :
    (x.extractLsb' 0 w).concat false = x <<< 1 := by
  ext i hi
  simp only [BitVec.getElem_concat, BitVec.getElem_extractLsb', BitVec.getElem_shiftLeft]
  by_cases hzero : i = 0
  · rw [dif_pos hzero, decide_eq_true (by omega), Bool.not_true, Bool.false_and]
  · rw [dif_neg hzero, Nat.zero_add, BitVec.getLsbD_eq_getElem (by omega),
      decide_eq_false (by omega), Bool.not_false, Bool.true_and]

theorem iterate_shiftRight (x : BitVec w) (n : ℕ) : (fun x : BitVec w ↦ x >>> 1)^[n] x = x >>> n := by
  induction n with
  | zero => simp
  | succ n ih => rw [Function.iterate_succ_apply', ih, BitVec.shiftRight_add]

theorem iterate_sshiftRight (x : BitVec w) (n : ℕ) :
    (fun x : BitVec w ↦ x.sshiftRight 1)^[n] x = x.sshiftRight n := by
  induction n with
  | zero => simp
  | succ n ih => rw [Function.iterate_succ_apply', ih, BitVec.sshiftRight_add]

theorem iterate_shiftLeft (x : BitVec w) (n : ℕ) : (fun x : BitVec w ↦ x <<< 1)^[n] x = x <<< n := by
  induction n with
  | zero => simp
  | succ n ih => rw [Function.iterate_succ_apply', ih, BitVec.shiftLeft_add]

end SignBit
