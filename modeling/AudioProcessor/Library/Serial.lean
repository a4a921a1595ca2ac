import AudioProcessor.Library.Clocked
import Mathlib.Data.List.Basic

/-!
# Words on a serial line, most significant bit first

`msbFirst` is the order in which a word leaves a serialiser, `shiftIn` the register that receives
one. A register that has shifted in as many bits as it is wide holds exactly these bits
(`msbFirst_run_shiftIn`), whatever it held before.
-/

set_option autoImplicit false
set_option relaxedAutoImplicit false

namespace Serial

variable {width : ℕ}

/-- The bits of a word, most significant first. -/
def msbFirst (word : BitVec width) : List Bool :=
  (List.range width).map fun j ↦ word.getLsbD (width - 1 - j)

/-- Shift a word one place towards its most significant bit and take a new bit in at the bottom;
the old most significant bit is dropped. -/
def shiftIn (word : BitVec width) (bit : Bool) : BitVec width :=
  (word.concat bit).setWidth width

theorem getLsbD_shiftIn (word : BitVec width) (bit : Bool) (i : ℕ) (hi : i < width) :
    (shiftIn word bit).getLsbD i = if i = 0 then bit else word.getLsbD (i - 1) := by
  rw [shiftIn, BitVec.getLsbD_setWidth, BitVec.getLsbD_concat]
  simp [hi]

/-- After `count` shifts the low `count` bits are the last ones received, the newest lowest, and
the others are the old word moved up. -/
theorem getLsbD_run_shiftIn (word : BitVec width) (bits : ℕ → Bool) (count i : ℕ)
    (hi : i < width) :
    (Clocked.run (fun bit w ↦ shiftIn w bit) word bits count).getLsbD i =
      if i < count then bits (count - 1 - i) else word.getLsbD (i - count) := by
  induction count generalizing i with
  | zero => simp
  | succ count ih =>
    rw [Clocked.run_succ, getLsbD_shiftIn _ _ _ hi]
    by_cases h0 : i = 0
    · simp [h0]
    · rw [if_neg h0, ih (i - 1) (by omega)]
      by_cases hlt : i < count + 1
      · rw [if_pos (by omega), if_pos hlt]
        congr 1
        omega
      · rw [if_neg (by omega), if_neg hlt]
        congr 1
        omega

/-- A register that has shifted in as many bits as it is wide holds these bits and nothing else. -/
theorem msbFirst_run_shiftIn (word : BitVec width) (bits : ℕ → Bool) :
    msbFirst (Clocked.run (fun bit w ↦ shiftIn w bit) word bits width) =
      (List.range width).map bits := by
  refine List.map_congr_left fun j hj ↦ ?_
  have hlt : j < width := List.mem_range.mp hj
  rw [getLsbD_run_shiftIn _ _ _ _ (by omega), if_pos (by omega)]
  congr 1
  omega

end Serial
