import AudioProcessor.Equaliser.Main
import AudioProcessor.Library.FixedWidth
import AudioProcessor.Library.OnePole
import Mathlib.Tactic.Ring

/-!
# The equaliser in unbounded arithmetic

`exactBody` is the arithmetic of a frame over the integers. As long as the accumulator is a scaled
16-bit sample, every 32-bit intermediate value of the program equals the unbounded one
(`body_exact`), and the accumulator stays one: it is the one-pole filter of the scaled samples,
which never overshoots (`exactAccumulator_eq`, `exactAccumulator_mem`). The word written is then the
limited mix of the two bands (`iowr_limited`).
-/

set_option autoImplicit false
set_option relaxedAutoImplicit false

namespace AudioProcessor.Equaliser

open FixedWidth

/-- The arithmetic of a frame over the integers, from the accumulator, the sample and the stages. -/
def exactBody (bassPrev x b t : ℤ) : Body ℤ :=
  let inScaled := x * 256
  let difference := inScaled - bassPrev
  let bassPrev := bassPrev + difference / 8
  let bass := bassPrev / 256
  let treble := x - bass
  let bassProduct := bass * (b + 1)
  let trebleProduct := treble * (t + 1)
  let res := bassProduct + trebleProduct
  ⟨inScaled, difference, bassPrev, bass, treble, bassProduct, trebleProduct, res,
    clamp (-32768) 32767 res⟩

/-- The accumulator of the exact arithmetic is the one-pole filter of the scaled samples. -/
theorem exactBody_bassPrev (bassPrev x b t : ℤ) :
    (exactBody bassPrev x b t).bassPrev = OnePole.smooth 8 bassPrev (x * 256) := rfl

/-- The limited mix of the two bands, by the accumulator after the frame. -/
theorem exactBody_limited (bassPrev x b t : ℤ) :
    (exactBody bassPrev x b t).limited = min 32767 (max (-32768)
      ((b + 1) * ((exactBody bassPrev x b t).bassPrev / 256) +
        (t + 1) * (x - (exactBody bassPrev x b t).bassPrev / 256))) := by
  rw [mul_comm (b + 1), mul_comm (t + 1)]
  rfl

/-- The scaled samples. -/
def Scaled : Set ℤ := Set.Icc (-32768 * 256) (32767 * 256)

theorem exactBody_bassPrev_mem {bassPrev x : ℤ} (b t : ℤ) (hprev : bassPrev ∈ Scaled)
    (hx : x ∈ Set.Icc (-32768) 32767) : (exactBody bassPrev x b t).bassPrev ∈ Scaled := by
  obtain ⟨hlower, hupper⟩ := hx
  rw [exactBody_bassPrev]
  exact OnePole.smooth_mem_Icc (by norm_num) hprev ⟨by omega, by omega⟩

/-- A boost of one to four at most quadruples a bound. -/
theorem boost_bound {value gain : ℤ} (bound : ℤ) (hlower : -bound ≤ value) (hupper : value ≤ bound)
    (hgain : gain ∈ Set.Icc 0 3) :
    -(4 * bound) ≤ value * (gain + 1) ∧ value * (gain + 1) ≤ 4 * bound := by
  obtain ⟨hzero, hthree⟩ := hgain
  have hcases : gain = 0 ∨ gain = 1 ∨ gain = 2 ∨ gain = 3 := by omega
  rcases hcases with rfl | rfl | rfl | rfl <;> constructor <;> omega

/-- A stage setting boosts by an exact factor. -/
theorem toInt_stage_add_one {stage : Int32} (hstage : stage.toInt ∈ Set.Icc 0 3) :
    (stage + 1).toInt = stage.toInt + 1 := by
  have hone : (1 : Int32).toInt = 1 := rfl
  obtain ⟨hzero, hthree⟩ := hstage
  rw [toInt_add_exact _ _ (by rw [hone]; constructor <;> omega), hone]

/-- The limiter of the program is the clamp to the 16-bit range. -/
theorem toInt_limited (res : Int32) :
    (if res > 32767 then 32767 else if res < -32768 then -32768 else res : Int32).toInt =
      clamp (-32768) 32767 res.toInt := by
  have hupper : (32767 : Int32).toInt = 32767 := rfl
  have hlower : (-32768 : Int32).toInt = -32768 := rfl
  rw [← ite_eq_clamp (by norm_num), apply_ite Int32.toInt, apply_ite Int32.toInt]
  simp only [gt_iff_lt, Int32.lt_iff_toInt_lt, hupper, hlower]

/-- The filter of a frame does not wrap. -/
theorem filter_exact {bassPrev : Int32} (audioIn : Int16) (hprev : bassPrev.toInt ∈ Scaled) :
    (audioIn.toInt32 * 256).toInt = audioIn.toInt * 256 ∧
      (audioIn.toInt32 * 256 - bassPrev).toInt = audioIn.toInt * 256 - bassPrev.toInt ∧
      (bassPrev + ((audioIn.toInt32 * 256 - bassPrev) >>> 3)).toInt =
        bassPrev.toInt + (audioIn.toInt * 256 - bassPrev.toInt) / 8 := by
  obtain ⟨hprevLower, hprevUpper⟩ := hprev
  have hlower := audioIn.le_toInt
  have hupper := audioIn.toInt_lt
  have hscale : (256 : Int32).toInt = 256 := rfl
  have hinScaled : (audioIn.toInt32 * 256).toInt = audioIn.toInt * 256 := by
    rw [toInt_mul_exact, hscale, Int16.toInt_toInt32]
    rw [hscale, Int16.toInt_toInt32]
    constructor <;> omega
  have hdifference : (audioIn.toInt32 * 256 - bassPrev).toInt =
      audioIn.toInt * 256 - bassPrev.toInt := by
    rw [toInt_sub_exact, hinScaled]
    rw [hinScaled]
    constructor <;> omega
  refine ⟨hinScaled, hdifference, ?_⟩
  rw [toInt_add_exact, toInt_shiftRight_three, hdifference]
  rw [toInt_shiftRight_three, hdifference]
  constructor <;> omega

/-- The mix of a frame does not wrap. -/
theorem mix_exact {bass bStage tStage : Int32} (audioIn : Int16)
    (hbass : bass.toInt ∈ Set.Icc (-32768) 32767) (hb : bStage.toInt ∈ Set.Icc 0 3)
    (ht : tStage.toInt ∈ Set.Icc 0 3) :
    (audioIn.toInt32 - bass).toInt = audioIn.toInt - bass.toInt ∧
      (bass * (bStage + 1)).toInt = bass.toInt * (bStage.toInt + 1) ∧
      ((audioIn.toInt32 - bass) * (tStage + 1)).toInt =
        (audioIn.toInt - bass.toInt) * (tStage.toInt + 1) ∧
      (bass * (bStage + 1) + (audioIn.toInt32 - bass) * (tStage + 1)).toInt =
        bass.toInt * (bStage.toInt + 1) + (audioIn.toInt - bass.toInt) * (tStage.toInt + 1) := by
  obtain ⟨hbassLower, hbassUpper⟩ := hbass
  have hlower := audioIn.le_toInt
  have hupper := audioIn.toInt_lt
  have hbassBound := boost_bound 32768 hbassLower (by omega) hb
  have htrebleBound := boost_bound 65536 (show -65536 ≤ audioIn.toInt - bass.toInt by omega)
    (by omega) ht
  have htreble : (audioIn.toInt32 - bass).toInt = audioIn.toInt - bass.toInt := by
    rw [toInt_sub_exact, Int16.toInt_toInt32]
    rw [Int16.toInt_toInt32]
    constructor <;> omega
  have hbassProduct : (bass * (bStage + 1)).toInt = bass.toInt * (bStage.toInt + 1) := by
    rw [toInt_mul_exact, toInt_stage_add_one hb]
    rw [toInt_stage_add_one hb]
    constructor <;> omega
  have htrebleProduct : ((audioIn.toInt32 - bass) * (tStage + 1)).toInt =
      (audioIn.toInt - bass.toInt) * (tStage.toInt + 1) := by
    rw [toInt_mul_exact, htreble, toInt_stage_add_one ht]
    rw [htreble, toInt_stage_add_one ht]
    constructor <;> omega
  refine ⟨htreble, hbassProduct, htrebleProduct, ?_⟩
  rw [toInt_add_exact, hbassProduct, htrebleProduct]
  rw [hbassProduct, htrebleProduct]
  constructor <;> omega

/-- No 32-bit intermediate value of a frame wraps. -/
theorem body_exact {bassPrev : Int32} (audioIn : Int16) {bStage tStage : Int32}
    (hprev : bassPrev.toInt ∈ Scaled) (hb : bStage.toInt ∈ Set.Icc 0 3)
    (ht : tStage.toInt ∈ Set.Icc 0 3) :
    (body bassPrev audioIn bStage tStage).map Int32.toInt =
      exactBody bassPrev.toInt audioIn.toInt bStage.toInt tStage.toInt := by
  have hx : audioIn.toInt ∈ Set.Icc (-32768) 32767 :=
    ⟨audioIn.le_toInt, Int.le_of_lt_add_one audioIn.toInt_lt⟩
  obtain ⟨hinScaled, hdifference, hnext⟩ := filter_exact audioIn hprev
  obtain ⟨hnextLower, hnextUpper⟩ := exactBody_bassPrev_mem bStage.toInt tStage.toInt hprev hx
  simp only [body, exactBody, Body.map, Body.mk.injEq] at hnextLower hnextUpper ⊢
  set next := bassPrev + ((audioIn.toInt32 * 256 - bassPrev) >>> 3)
  have hbass : (next >>> 8).toInt =
      (bassPrev.toInt + (audioIn.toInt * 256 - bassPrev.toInt) / 8) / 256 := by
    rw [toInt_shiftRight_eight, hnext]
  have hbassMem : (next >>> 8).toInt ∈ Set.Icc (-32768) 32767 := by
    rw [hbass]
    constructor <;> omega
  obtain ⟨htreble, hbassProduct, htrebleProduct, hres⟩ := mix_exact audioIn hbassMem hb ht
  rw [hbass] at htreble hbassProduct htrebleProduct hres
  exact ⟨hinScaled, hdifference, hnext, hbass, htreble, hbassProduct, htrebleProduct, hres,
    by rw [toInt_limited, hres]⟩

/-! ### Runs of the program -/

/-- The stage the program takes from a switch port is the number on the port. -/
theorem toInt_stage (port : BitVec 2) : (stage port).toInt = port.toNat := by
  revert port
  decide

theorem toInt_stage_mem (port : BitVec 2) : (stage port).toInt ∈ Set.Icc 0 3 := by
  have hlt := port.isLt
  rw [toInt_stage]
  constructor <;> omega

/-- The sample the program takes from the left port is the signed value on it. -/
theorem toInt_sample (f : Frame) (dataReady : BitVec 1) :
    (f.ports dataReady).sample.toInt = f.inLeft.toInt := by
  rw [← Int16.toInt_toBitVec, Ports.toBitVec_sample]
  rfl

/-- The arithmetic of a frame over the integers, by the values on its ports. -/
def Frame.exactBody (f : Frame) (bassPrev : ℤ) : Body ℤ :=
  Equaliser.exactBody bassPrev f.inLeft.toInt f.bassStageSwitch.toNat f.trebleStageSwitch.toNat

theorem frame_body_exact (f : Frame) {bassPrev : Int32} (hprev : bassPrev.toInt ∈ Scaled) :
    (f.body bassPrev).map Int32.toInt = f.exactBody bassPrev.toInt := by
  rw [Frame.body, body_exact _ hprev (toInt_stage_mem _) (toInt_stage_mem _), toInt_sample,
    toInt_stage, toInt_stage, Frame.exactBody]

/-- The accumulator after a number of frames in unbounded arithmetic. -/
def exactAccumulator (frames : ℕ → Frame) : ℕ → ℤ :=
  Clocked.run (fun f bassPrev ↦ (f.exactBody bassPrev).bassPrev) 0 frames

theorem inLeft_mem (f : Frame) : f.inLeft.toInt ∈ Set.Icc (-32768) 32767 := by
  have hlower := f.inLeft.le_toInt
  have hupper := f.inLeft.toInt_lt
  constructor <;> omega

/-- It is the one-pole filter of the scaled samples. -/
theorem exactAccumulator_eq (frames : ℕ → Frame) (n : ℕ) : exactAccumulator frames n =
    Clocked.run (fun target accumulator ↦ OnePole.smooth 8 accumulator target) 0
      (fun n ↦ (frames n).inLeft.toInt * 256) n := by
  induction n with
  | zero => rfl
  | succ n ih =>
    rw [Clocked.run_succ, ← ih]
    rfl

theorem exactAccumulator_mem (frames : ℕ → Frame) (n : ℕ) : exactAccumulator frames n ∈ Scaled := by
  have htargets : ∀ n, (frames n).inLeft.toInt * 256 ∈ Scaled := by
    intro n
    obtain ⟨hlower, hupper⟩ := inLeft_mem (frames n)
    constructor <;> omega
  rw [exactAccumulator_eq]
  exact OnePole.run_smooth_mem_Icc (by norm_num) _ (by constructor <;> omega) htargets n

/-- Along every run the accumulator is the one of the unbounded arithmetic. -/
theorem play_bassPrev_exact (frames : ℕ → Frame) (n : ℕ) :
    (play frames n).bassPrev.toInt = exactAccumulator frames n := by
  induction n with
  | zero => rfl
  | succ n ih =>
    have hscaled : (play frames n).bassPrev.toInt ∈ Scaled := by
      rw [ih]
      exact exactAccumulator_mem frames n
    have hbody := frame_body_exact (frames n) hscaled
    rw [ih] at hbody
    rw [play_bassPrev, ← Body.map_bassPrev Int32.toInt, hbody]
    rfl

theorem play_mem_scaled (frames : ℕ → Frame) (n : ℕ) :
    (play frames n).bassPrev.toInt ∈ Scaled := by
  rw [play_bassPrev_exact]
  exact exactAccumulator_mem frames n

/-- The word a PIO write puts on an output is the two's-complement code of a limited value. -/
theorem iowr_eq (res : Int32) : iowr res = BitVec.ofInt 16 res.toInt := by
  have hextend (w : BitVec 16) : (w.signExtend 32).setWidth 16 = w := by
    refine BitVec.eq_of_getLsbD_eq fun i hi ↦ ?_
    rw [BitVec.getLsbD_setWidth, BitVec.getLsbD_signExtend]
    simp [hi, show i < 32 by omega]
  rw [iowr, Int16.toBitVec_toInt32, hextend, Int32.toBitVec_toInt16]
  rfl

/-- The word written in a frame, by the accumulator after it: the limited mix of the two bands. -/
theorem iowr_limited (f : Frame) {bassPrev : Int32} (hprev : bassPrev.toInt ∈ Scaled) :
    iowr (f.body bassPrev).limited =
      BitVec.ofInt 16 (min 32767 (max (-32768)
        ((f.bassStageSwitch.toNat + 1) * ((f.body bassPrev).bassPrev.toInt / 256) +
          (f.trebleStageSwitch.toNat + 1) *
            (f.inLeft.toInt - (f.body bassPrev).bassPrev.toInt / 256)))) := by
  have hbody := frame_body_exact f hprev
  have hbassPrev : (f.body bassPrev).bassPrev.toInt = (f.exactBody bassPrev.toInt).bassPrev := by
    rw [← hbody, Body.map_bassPrev]
  have hlimited : (f.body bassPrev).limited.toInt = (f.exactBody bassPrev.toInt).limited := by
    rw [← hbody, Body.map_limited]
  rw [iowr_eq, hlimited, hbassPrev, Frame.exactBody, exactBody_limited]

/-- The word of frame `n` of a run. -/
theorem iowr_play (frames : ℕ → Frame) (n : ℕ) :
    iowr ((frames n).body (play frames n).bassPrev).limited =
      BitVec.ofInt 16 (min 32767 (max (-32768)
        (((frames n).bassStageSwitch.toNat + 1) * ((play frames (n + 1)).bassPrev.toInt / 256) +
          ((frames n).trebleStageSwitch.toNat + 1) *
            ((frames n).inLeft.toInt - (play frames (n + 1)).bassPrev.toInt / 256)))) := by
  rw [iowr_limited (frames n) (play_mem_scaled frames n), ← play_bassPrev]

/-- A limited value is the value of its 16-bit code. -/
theorem toInt_ofInt_clamp (value : ℤ) :
    (BitVec.ofInt 16 (clamp (-32768) 32767 value)).toInt = clamp (-32768) 32767 value := by
  have horder : (-32768 : ℤ) ≤ 32767 := by norm_num
  obtain ⟨hlower, hupper⟩ := clamp_mem_Icc horder value
  rw [BitVec.toInt_ofInt, Int.bmod_eq_of_le (by omega) (by omega)]

/-- The two writes of a frame, by the value of their word. -/
theorem writes_play (frames : ℕ → Frame) (n : ℕ) :
    ∃ word, (play frames n).writes (frames n).accesses = [(.outLeft, word), (.outRight, word)] ∧
      word.toInt = clamp (-32768) 32767
        (((frames n).bassStageSwitch.toNat + 1) * ((play frames (n + 1)).bassPrev.toInt / 256) +
          ((frames n).trebleStageSwitch.toNat + 1) *
            ((frames n).inLeft.toInt - (play frames (n + 1)).bassPrev.toInt / 256)) := by
  refine ⟨_, writes_frame (frames n) (play_access frames n), ?_⟩
  rw [iowr_play]
  exact toInt_ofInt_clamp _

/-- With equal stages the two bands add up to the boosted sample, whatever the accumulator. -/
theorem mix_equal_stages (gain bass x : ℤ) :
    (gain + 1) * bass + (gain + 1) * (x - bass) = (gain + 1) * x := by
  ring

/-- Along every run of the program, the accumulator stays a scaled sample and moves to a value
between its old one and the scaled sample of the frame, no 32-bit intermediate value wraps, and
each frame writes to both outputs the limited mix of the two bands, which for equal stages is the
limited boosted sample. -/
theorem play_exact (frames : ℕ → Frame) (n : ℕ) :
    (play frames n).bassPrev.toInt ∈ Set.Icc (-32768 * 256) (32767 * 256) ∧
      (play frames (n + 1)).bassPrev.toInt ∈
        Set.uIcc (play frames n).bassPrev.toInt (256 * (frames n).inLeft.toInt) ∧
      (play frames n).bassPrev.toInt = exactAccumulator frames n ∧
      ((frames n).body (play frames n).bassPrev).map Int32.toInt =
        (frames n).exactBody (exactAccumulator frames n) ∧
      ∃ word, (play frames n).writes (frames n).accesses =
          [(.outLeft, word), (.outRight, word)] ∧
        word = BitVec.ofInt 16 (min 32767 (max (-32768)
          (((frames n).bassStageSwitch.toNat + 1) * ((play frames (n + 1)).bassPrev.toInt / 256) +
            ((frames n).trebleStageSwitch.toNat + 1) *
              ((frames n).inLeft.toInt - (play frames (n + 1)).bassPrev.toInt / 256)))) ∧
        ((frames n).bassStageSwitch = (frames n).trebleStageSwitch →
          word = BitVec.ofInt 16 (min 32767 (max (-32768)
            (((frames n).bassStageSwitch.toNat + 1) * (frames n).inLeft.toInt)))) := by
  have heq := play_bassPrev_exact frames n
  have hscaled := play_mem_scaled frames n
  have hbody := frame_body_exact (frames n) hscaled
  have hnext : (play frames (n + 1)).bassPrev.toInt =
      OnePole.smooth 8 (play frames n).bassPrev.toInt ((frames n).inLeft.toInt * 256) := by
    rw [play_bassPrev, ← Body.map_bassPrev Int32.toInt, hbody, Frame.exactBody, exactBody_bassPrev]
  have hword := iowr_play frames n
  refine ⟨hscaled, ?_, heq, heq ▸ hbody, _, writes_frame (frames n) (play_access frames n), hword,
    fun hstages ↦ ?_⟩
  · rw [hnext, mul_comm 256]
    exact OnePole.smooth_mem_uIcc (by norm_num) _ _
  · rw [hword, ← hstages, mix_equal_stages]

end AudioProcessor.Equaliser
