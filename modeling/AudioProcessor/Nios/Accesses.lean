import AudioProcessor.Nios.Body

/-!
# The loop of the program

`Paused m main`: the machine is about to make the access that `main` makes next, with the variables
of `main` in its registers. Each access of `main` is one transfer of the machine, after which it is
silent up to the next access (`paused_step`), for a number of instructions that `silence` bounds.
-/

set_option autoImplicit false
set_option relaxedAutoImplicit false

namespace AudioProcessor.Nios

open Equaliser (Access Main Ports body stage)

/-! ### What the devices show -/

/-- The interrupt line, the ports, and what the other slaves would return. -/
structure Pins where
  irq : Bool
  ports : Ports
  others : Slave → BitVec 2 → Word

/-- The slaves of the program show their ports. -/
def Pins.devices (pins : Pins) : Devices where
  irq := pins.irq
  readdata slave offset :=
    match slave with
    | .niosDataReady => readMux pins.ports.dataReady offset
    | .niosInLeft => readMux pins.ports.inLeft offset
    | .bassStageSwitch => readMux pins.ports.bassStageSwitch offset
    | .trebleStageSwitch => readMux pins.ports.trebleStageSwitch offset
    | _ => pins.others slave offset

/-! ### Where the accesses are -/

/-- The word of the program that makes an access. -/
def accessWord : Access → ℕ
  | .dataReady => 45
  | .inLeft => 50
  | .bassStageSwitch => 51
  | .trebleStageSwitch => 54
  | .outLeft => 81
  | .outRight => 84

/-- The slave of an access. -/
def accessSlave : Access → Slave
  | .dataReady => .niosDataReady
  | .inLeft => .niosInLeft
  | .bassStageSwitch => .bassStageSwitch
  | .trebleStageSwitch => .trebleStageSwitch
  | .outLeft => .niosOutLeft
  | .outRight => .niosOutRight

/-- The transfer of the next access. -/
def mainTransfer (main : Main) : Transfer where
  slave := accessSlave main.access
  offset := 0
  writedata :=
    match main.access with
    | .outLeft => some main.res.toBitVec
    | .outRight => some main.res.toBitVec
    | _ => none

/-! ### What the registers hold -/

/-- The registers of the variables that are live before each access. -/
def Live (r : Registers) (main : Main) : Prop :=
  match main.access with
  | .dataReady => (r.read 3).setWidth 8 = main.lastReady.toBitVec
  | .inLeft => (r.read 16).setWidth 8 = main.currentReady.toBitVec
  | .bassStageSwitch => (r.read 16).setWidth 8 = main.currentReady.toBitVec ∧
      (r.read 5).setWidth 16 = main.audioIn.toBitVec
  | .trebleStageSwitch => (r.read 16).setWidth 8 = main.currentReady.toBitVec ∧
      (r.read 5).setWidth 16 = main.audioIn.toBitVec ∧ r.read 21 &&& 3 = main.bStage.toBitVec ∧
      r.read 2 = 0x21050
  | .outLeft => (r.read 16).setWidth 8 = main.currentReady.toBitVec ∧
      r.read 2 = main.res.toBitVec ∧ r.read 3 = 0x21020
  | .outRight => (r.read 16).setWidth 8 = main.currentReady.toBitVec ∧
      r.read 2 = main.res.toBitVec ∧ r.read 3 = 0x21010

/-- The registers that hold the same throughout the loop, and the accumulator. -/
structure Kept (r : Registers) (bassPrev : Int32) : Prop where
  one : r.read 17 = 1
  dataReady : r.read 18 = 0x21000
  bassStageSwitch : r.read 22 = 0x21060
  inLeft : r.read 23 = 0x21040
  bassPrev : r.read 19 = bassPrev.toBitVec

section Kept

variable {r r' : Registers} {bassPrev bassPrev' : Int32} {changed : List Register}

/-- A block that writes the accumulator and none of the others. -/
theorem Kept.update (h : Kept r bassPrev) (hsame : r.SameOutside changed r')
    (hkept : ∀ n ∈ [17, 18, 22, 23], n ∉ changed) (hbassPrev : r'.read 19 = bassPrev'.toBitVec) :
    Kept r' bassPrev' where
  one := (hsame 17 (hkept 17 (by decide))).trans h.one
  dataReady := (hsame 18 (hkept 18 (by decide))).trans h.dataReady
  bassStageSwitch := (hsame 22 (hkept 22 (by decide))).trans h.bassStageSwitch
  inLeft := (hsame 23 (hkept 23 (by decide))).trans h.inLeft
  bassPrev := hbassPrev

/-- A block that writes none of these registers leaves them. -/
theorem Kept.sameOutside (h : Kept r bassPrev) (hsame : r.SameOutside changed r')
    (hkept : ∀ n ∈ [17, 18, 19, 22, 23], n ∉ changed) : Kept r' bassPrev :=
  h.update hsame (fun n hn ↦ hkept n (by revert hn; revert n; decide))
    ((hsame 19 (hkept 19 (by decide))).trans h.bassPrev)

end Kept

/-- The machine is about to make the next access of the program. -/
structure Paused (m : Machine) (main : Main) : Prop where
  loaded : Loaded m.sram
  ienable : m.processor.ienable = false
  pc : m.processor.pc = BitVec.ofNat 16 (16384 + accessWord main.access)
  kept : Kept m.processor.registers main.bassPrev
  live : Live m.processor.registers main

/-- It has so many silent instructions left before that. -/
def Ahead (d : ℕ) (m : Machine) (main : Main) : Prop := ∃ m', Silent d m m' ∧ Paused m' main

/-- The silent instructions of the arithmetic: the bits of the two factors and a limited result
count. -/
def frameSilence (bassPrev : Int32) (audioIn : Int16) (bStage tStage : Int32) : ℕ :=
  30 + roundSteps (tStage.toBitVec + 1).toNat + roundSteps (bStage.toBitVec + 1).toNat +
    if (body bassPrev audioIn bStage tStage).limited = (body bassPrev audioIn bStage tStage).res
    then 0 else 1

/-- The silent instructions between an access and the next one. -/
def silence (p : Ports) (main : Main) : ℕ :=
  match main.access with
  | .dataReady => if p.ready == 1 then if main.lastReady == 0 then 4 else 5 else 3
  | .inLeft => 0
  | .bassStageSwitch => 2
  | .trebleStageSwitch =>
    frameSilence main.bassPrev main.audioIn main.bStage (stage p.trebleStageSwitch)
  | .outLeft => 2
  | .outRight => 2

/-- The machine makes the access, and goes on to the next one. -/
def Advances (pins : Pins) (m : Machine) (main : Main) : Prop :=
  ∃ m', m.step pins.devices = some m' ∧ m.transfer pins.devices = some (mainTransfer main) ∧
    Ahead (silence pins.ports main) m' (main.step pins.ports)

/-! ### One access after the other -/

theorem at_registers {m : Machine} {k : ℕ} (hpc : m.processor.pc = BitVec.ofNat 16 (16384 + k)) :
    m.at k m.processor.registers = m := by
  rw [Machine.at, ← hpc]

theorem setWidth_readMux_inLeft (p : Ports) :
    (readMux p.inLeft 0).setWidth 16 = p.sample.toBitVec := by
  rw [Ports.toBitVec_sample]
  exact BitVec.setWidth_setWidth_of_le _ (by decide)

/-- The compiler makes the address of a port in two instructions. -/
theorem read_orhi_addi (r : Registers) {n : Register} (hn : n ≠ 0) (imm16 : BitVec 16) :
    (line [.orhi n 0 2, .addi n n imm16] r).read n = 0x20000 + imm16.signExtend 32 := by
  simp [line, Instruction.alu, logicResult, Registers.read_write, hn]

/-- The compiler masks a byte before it compares it. -/
theorem and_byte (x : Word) : x &&& 0xff = (x.setWidth 8).setWidth 32 := SignBit.and_mask x 8

theorem setWidth_byte_beq (u v : UInt8) :
    (u.toBitVec.setWidth 32 == v.toBitVec.setWidth 32) = (u == v) := by
  rw [Bool.eq_iff_iff, beq_iff_eq, beq_iff_eq]
  refine ⟨fun h ↦ ?_, fun h ↦ by rw [h]⟩
  have hnarrow := congrArg (BitVec.setWidth 8) h
  rw [BitVec.setWidth_setWidth_of_le _ (by decide), BitVec.setWidth_setWidth_of_le _ (by decide),
    BitVec.setWidth_eq, BitVec.setWidth_eq] at hnarrow
  exact UInt8.toBitVec_inj.mp hnarrow

section Access

variable {m : Machine} (hloaded : Loaded m.sram) (hienable : m.processor.ienable = false)
  (pins : Pins) {r : Registers} {bassPrev : Int32} (hkept : Kept r bassPrev)
  {currentReady lastReady : UInt8} {audioIn : Int16} {bStage tStage res : Int32}

include hloaded hienable hkept

/-- From the poll to the branch on what it has read. -/
theorem silent_poll (k : ℕ) (taken : Bool)
    (htaken : (pins.ports.ready == 1) = !taken) (hk : k = if taken then 44 else 48) :
    ∃ r₁, (m.at 45 r).step pins.devices = some (m.at 46 r₁) ∧
      (m.at 45 r).transfer pins.devices = some ⟨.niosDataReady, 0, none⟩ ∧
      ∃ r₂, Silent 2 (m.at 46 r₁) (m.at k r₂) ∧ r.SameOutside [2, 16] r₂ ∧
        (r₂.read 16).setWidth 8 = pins.ports.ready.toBitVec := by
  obtain ⟨hstep, htransfer⟩ := step_ldw hloaded hienable 45 r pins.devices .niosDataReady
    0x21000 rfl (by rw [hkept.dataReady]; decide) (by decide) (by decide)
  set r₁ := r.write 16 (pins.devices.readdata .niosDataReady 0) with hr₁
  have hready : (r₁.read 16).setWidth 8 = pins.ports.ready.toBitVec :=
    congrArg _ (r.read_write_self _ (by decide))
  have hmask := silent_line hloaded hienable 46 r₁ [.andi 2 16 0xff] ⟨_, rfl⟩ rfl
  set r₂ := line [.andi 2 16 0xff] r₁ with hr₂
  have hsame₂ : r₁.SameOutside [2] r₂ := .line r₁ _ rfl
  have h2 : r₂.read 2 = pins.ports.ready.toBitVec.setWidth 32 := by
    rw [← hready, ← and_byte]
    simp [hr₂, line, Instruction.alu, logicResult, Registers.read_write]
  have hsame : r.SameOutside [2, 16] r₂ :=
    ((Registers.SameOutside.write r 16 _).mono (by decide)).trans (hsame₂.mono (by decide))
  have hcmp : cmpResult 3 false (r₂.read 2) (r₂.read 17) = taken := by
    rw [cmpResult_ne, h2, hsame 17 (by decide), hkept.one]
    have h := setWidth_byte_beq pins.ports.ready 1
    rw [htaken] at h
    exact (congrArg not h).trans (Bool.not_not taken)
  refine ⟨r₁, hstep, htransfer, r₂, ?_, hsame,
    (congrArg _ (hsame₂ 16 (by decide))).trans hready⟩
  rw [hk]
  cases taken with
  | true => exact hmask.trans (silent_taken hloaded hienable 47 44 r₂ rfl (by decide) hcmp)
  | false => exact hmask.trans (silent_not_taken hloaded hienable 47 r₂ rfl hcmp)

/-- The program keeps what it has read as the last value, and polls again. -/
theorem paused_again (audioIn : Int16) (bStage tStage res : Int32)
    (hready : (r.read 16).setWidth 8 = currentReady.toBitVec) :
    Ahead 1 (m.at 44 r)
      ⟨.dataReady, currentReady, currentReady, bassPrev, audioIn, bStage, tStage, res⟩ := by
  have hline := silent_line hloaded hienable 44 r [.add 3 16 0] ⟨_, rfl⟩ rfl
  have hsame : r.SameOutside [3] (line [.add 3 16 0] r) := .line r _ rfl
  have h3 : (line [.add 3 16 0] r).read 3 = r.read 16 := by
    simp [line, Instruction.alu, Registers.read_write]
  exact ⟨_, hline, hloaded, hienable, rfl, hkept.sameOutside hsame (by decide),
    (congrArg _ h3).trans hready⟩

theorem advances_dataReady (hlast : (r.read 3).setWidth 8 = lastReady.toBitVec) :
    Advances pins (m.at 45 r)
      ⟨.dataReady, currentReady, lastReady, bassPrev, audioIn, bStage, tStage, res⟩ := by
  cases hready : pins.ports.ready == 1 with
  | false =>
    obtain ⟨r₁, hstep, htransfer, r₂, hsilent, hsame, hread⟩ :=
      silent_poll hloaded hienable pins hkept 44 true hready rfl
    obtain ⟨m', hagain, hpaused⟩ := paused_again hloaded hienable
      (hkept.sameOutside hsame (by decide)) audioIn bStage tStage res hread
    refine ⟨_, hstep, htransfer, m', ?_, ?_⟩
    · rw [silence, hready]
      exact hsilent.trans hagain
    · rw [Main.step, hready]
      exact hpaused
  | true =>
    obtain ⟨r₁, hstep, htransfer, r₂, hsilent, hsame, hread⟩ :=
      silent_poll hloaded hienable pins hkept 48 false hready rfl
    have hmask := silent_line hloaded hienable 48 r₂ [.andi 3 3 0xff] ⟨_, rfl⟩ rfl
    set r₃ := line [.andi 3 3 0xff] r₂ with hr₃
    have hsame₃ : r₂.SameOutside [3] r₃ := .line r₂ _ rfl
    have hkept₃ := (hkept.sameOutside hsame (by decide)).sameOutside hsame₃ (by decide)
    have hread₃ := (congrArg (BitVec.setWidth 8) (hsame₃ 16 (by decide))).trans hread
    have hcmp : cmpResult 3 false (r₃.read 3) (r₃.read 0) = !(lastReady == 0) := by
      have h3 : r₃.read 3 = lastReady.toBitVec.setWidth 32 := by
        rw [← hlast, ← hsame 3 (by decide), ← and_byte]
        simp [hr₃, line, Instruction.alu, logicResult, Registers.read_write]
      rw [cmpResult_ne, h3, r₃.read_zero]
      exact congrArg not (setWidth_byte_beq lastReady 0)
    cases hlow : lastReady == 0 with
    | true =>
      rw [hlow] at hcmp
      have hskip := silent_not_taken hloaded hienable 49 r₃ rfl hcmp
      refine ⟨_, hstep, htransfer, m.at 50 r₃, ?_, hloaded, hienable, ?_, ?_, ?_⟩
      · rw [silence, hready, hlow]
        exact hsilent.trans (hmask.trans hskip)
      · rw [Main.step, hready, hlow]
        rfl
      · rw [Main.step, hready, hlow]
        exact hkept₃
      · rw [Main.step, hready, hlow]
        exact hread₃
    | false =>
      rw [hlow] at hcmp
      have hback := silent_taken hloaded hienable 49 44 r₃ rfl (by decide) hcmp
      obtain ⟨m', hagain, hpaused⟩ := paused_again hloaded hienable hkept₃ audioIn bStage tStage
        res hread₃
      refine ⟨_, hstep, htransfer, m', ?_, ?_⟩
      · rw [silence, hready, hlow]
        exact hsilent.trans ((hmask.trans hback).trans hagain)
      · rw [Main.step, hready, hlow]
        exact hpaused

theorem advances_inLeft (hready : (r.read 16).setWidth 8 = currentReady.toBitVec) :
    Advances pins (m.at 50 r)
      ⟨.inLeft, currentReady, lastReady, bassPrev, audioIn, bStage, tStage, res⟩ := by
  obtain ⟨hstep, htransfer⟩ := step_ldw hloaded hienable 50 r pins.devices .niosInLeft
    0x21040 rfl (by rw [hkept.inLeft]; decide) (by decide) (by decide)
  have hsame := Registers.SameOutside.write r 5 (pins.devices.readdata .niosInLeft 0)
  refine ⟨_, hstep, htransfer, _, .refl _, hloaded, hienable, rfl,
    hkept.sameOutside hsame (by decide), ?_, ?_⟩
  · exact (congrArg _ (hsame 16 (by decide))).trans hready
  · exact (congrArg _ (r.read_write_self _ (by decide))).trans (setWidth_readMux_inLeft pins.ports)

theorem advances_bassStageSwitch (hready : (r.read 16).setWidth 8 = currentReady.toBitVec)
    (haudioIn : (r.read 5).setWidth 16 = audioIn.toBitVec) :
    Advances pins (m.at 51 r)
      ⟨.bassStageSwitch, currentReady, lastReady, bassPrev, audioIn, bStage, tStage, res⟩ := by
  obtain ⟨hstep, htransfer⟩ := step_ldw hloaded hienable 51 r pins.devices .bassStageSwitch
    0x21060 rfl (by rw [hkept.bassStageSwitch]; decide) (by decide) (by decide)
  have hsame := Registers.SameOutside.write r 21 (pins.devices.readdata .bassStageSwitch 0)
  set r₁ := r.write 21 (pins.devices.readdata .bassStageSwitch 0) with hr₁
  have hline := silent_line hloaded hienable 52 r₁ [.orhi 2 0 2, .addi 2 2 0x1050] ⟨_, rfl⟩ rfl
  have hsame' : r.SameOutside [2, 21] (line [.orhi 2 0 2, .addi 2 2 0x1050] r₁) :=
    (hsame.mono (by decide)).trans (.line r₁ _ rfl)
  refine ⟨_, hstep, htransfer, _, hline, hloaded, hienable, rfl,
    hkept.sameOutside hsame' (by decide), ?_, ?_, ?_, ?_⟩
  · exact (congrArg _ (hsame' 16 (by decide))).trans hready
  · exact (congrArg _ (hsame' 5 (by decide))).trans haudioIn
  · have hsame₂ : r₁.SameOutside [2] (line [.orhi 2 0 2, .addi 2 2 0x1050] r₁) := .line r₁ _ rfl
    exact congrArg (· &&& 3) ((hsame₂ 21 (by decide)).trans (r.read_write_self _ (by decide)))
  · exact read_orhi_addi r₁ (by decide) 0x1050

/-- After the last read the machine computes the frame. -/
theorem advances_trebleStageSwitch (hready : (r.read 16).setWidth 8 = currentReady.toBitVec)
    (haudioIn : (r.read 5).setWidth 16 = audioIn.toBitVec)
    (hbStage : r.read 21 &&& 3 = bStage.toBitVec) (haddress : r.read 2 = 0x21050) :
    Advances pins (m.at 54 r)
      ⟨.trebleStageSwitch, currentReady, lastReady, bassPrev, audioIn, bStage, tStage, res⟩ := by
  obtain ⟨hstep, htransfer⟩ := step_ldw hloaded hienable 54 r pins.devices .trebleStageSwitch
    0x21050 rfl (by rw [haddress]; decide) (by decide) (by decide)
  set tStage' := stage pins.ports.trebleStageSwitch with htStage
  set r₁ := r.write 4 (pins.devices.readdata .trebleStageSwitch 0) with hr₁
  have hsame₁ : r.SameOutside [4] r₁ := .write r 4 _
  have h4 : r₁.read 4 &&& 3 = tStage'.toBitVec :=
    congrArg (· &&& 3) (r.read_write_self _ (by decide))
  obtain ⟨r₂, hcrossover, hsame₂, hfactor, htreble, hacc, hbass⟩ := silent_crossover hloaded hienable
    bassPrev audioIn bStage tStage' r₁ ((congrArg _ (hsame₁ 5 (by decide))).trans haudioIn)
    ((hsame₁ 19 (by decide)).trans hkept.bassPrev)
  rw [h4] at hfactor
  obtain ⟨r₃, hboost, hsame₃, hsum⟩ := silent_boost hloaded hienable r₂
  have h21 : r₂.read 21 &&& 3 = bStage.toBitVec := by
    rw [hsame₂ 21 (by decide), hsame₁ 21 (by decide), hbStage]
  rw [hfactor, h21] at hboost
  have hres : r₃.read 2 = (body bassPrev audioIn bStage tStage').res.toBitVec := by
    have hbody : (body bassPrev audioIn bStage tStage').res.toBitVec =
        (body bassPrev audioIn bStage tStage').bass.toBitVec * (bStage.toBitVec + 1) +
          (body bassPrev audioIn bStage tStage').treble.toBitVec * (tStage'.toBitVec + 1) := rfl
    rw [hsum, hfactor, h21, htreble, hbass, hbody]
    ring
  obtain ⟨r₄, hlimiter, hsame₄, hport, hlimited⟩ := silent_limiter hloaded hienable bassPrev audioIn
    bStage tStage' r₃ hres
  have hsame : r.SameOutside [2, 3, 4, 5, 19, 20, 28, 31] r₄ :=
    (((hsame₁.mono (by decide)).trans (hsame₂.mono (by decide))).trans
      (hsame₃.mono (by decide))).trans (hsame₄.mono (by decide))
  refine ⟨_, hstep, htransfer, m.at 81 r₄, ?_, hloaded, hienable, rfl,
    hkept.update hsame (by decide) ?_, ?_, hlimited, hport⟩
  · refine ((hcrossover.trans hboost).trans hlimiter).of_eq ?_
    change _ = frameSilence bassPrev audioIn bStage tStage'
    rw [frameSilence]
    omega
  · exact (hsame₄ 19 (by decide)).trans ((hsame₃ 19 (by decide)).trans hacc)
  · exact (congrArg _ (hsame 16 (by decide))).trans hready

theorem advances_outLeft (hready : (r.read 16).setWidth 8 = currentReady.toBitVec)
    (hres : r.read 2 = res.toBitVec) (haddress : r.read 3 = 0x21020) :
    Advances pins (m.at 81 r)
      ⟨.outLeft, currentReady, lastReady, bassPrev, audioIn, bStage, tStage, res⟩ := by
  obtain ⟨hstep, htransfer⟩ := step_stw hloaded hienable 81 r pins.devices .niosOutLeft
    0x21020 rfl (by rw [haddress]; decide) (by decide) (by decide)
  have hline := silent_line hloaded hienable 82 r [.orhi 3 0 2, .addi 3 3 0x1010] ⟨_, rfl⟩ rfl
  have hsame : r.SameOutside [3] (line [.orhi 3 0 2, .addi 3 3 0x1010] r) := .line r _ rfl
  refine ⟨_, hstep, ?_, _, hline, hloaded, hienable, rfl,
    hkept.sameOutside hsame (by decide), ?_, ?_, ?_⟩
  · rw [htransfer, hres]
    rfl
  · exact (congrArg _ (hsame 16 (by decide))).trans hready
  · exact (hsame 2 (by decide)).trans hres
  · exact read_orhi_addi r (by decide) 0x1010

theorem advances_outRight (hready : (r.read 16).setWidth 8 = currentReady.toBitVec)
    (hres : r.read 2 = res.toBitVec) (haddress : r.read 3 = 0x21010) :
    Advances pins (m.at 84 r)
      ⟨.outRight, currentReady, lastReady, bassPrev, audioIn, bStage, tStage, res⟩ := by
  obtain ⟨hstep, htransfer⟩ := step_stw hloaded hienable 84 r pins.devices .niosOutRight
    0x21010 rfl (by rw [haddress]; decide) (by decide) (by decide)
  have hback := silent_br hloaded hienable 85 44 r rfl (by decide)
  obtain ⟨m', hagain, hpaused⟩ := paused_again hloaded hienable hkept audioIn bStage tStage res
    hready
  refine ⟨_, hstep, ?_, m', hback.trans hagain, hpaused⟩
  rw [htransfer, hres]
  rfl

end Access

/-- Each access of the program is one transfer of the machine, with silence up to the next one. -/
theorem paused_step {m : Machine} {main : Main} (h : Paused m main) (pins : Pins) :
    Advances pins m main := by
  obtain ⟨hloaded, hienable, hpc, hkept, hlive⟩ := h
  obtain ⟨access, currentReady, lastReady, bassPrev, audioIn, bStage, tStage, res⟩ := main
  rw [← at_registers hpc]
  cases access with
  | dataReady => exact advances_dataReady hloaded hienable pins hkept hlive
  | inLeft => exact advances_inLeft hloaded hienable pins hkept hlive
  | bassStageSwitch =>
    exact advances_bassStageSwitch hloaded hienable pins hkept hlive.1 hlive.2
  | trebleStageSwitch =>
    exact advances_trebleStageSwitch hloaded hienable pins hkept hlive.1 hlive.2.1 hlive.2.2.1
      hlive.2.2.2
  | outLeft => exact advances_outLeft hloaded hienable pins hkept hlive.1 hlive.2.1 hlive.2.2
  | outRight => exact advances_outRight hloaded hienable pins hkept hlive.1 hlive.2.1 hlive.2.2

end AudioProcessor.Nios
