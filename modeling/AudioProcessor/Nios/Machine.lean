import AudioProcessor.Nios.Processor

/-!
# The processor with its memory

The processor and the SRAM, in steps of one instruction. An instruction reads or writes the SRAM or
is a transfer with another slave, which `Devices` answers; the step is `none` where the core or the
memory would do something that is not modelled: an instruction that does not decode, a fetch outside
the SRAM, or an access past the last word of the SRAM. `Silent n` relates a machine to the one it
becomes in `n` instructions without a transfer, whatever the devices do meanwhile.
-/

set_option autoImplicit false
set_option relaxedAutoImplicit false

namespace AudioProcessor.Nios

/-- The number of words in the SRAM (`numwords_a`). -/
def sramWords : ℕ := 10240

/-- The processor and the words of the SRAM. -/
structure Machine where
  processor : Processor
  sram : BitVec 14 → Word

/-- The slave of an operation is not the SRAM: the transfer it makes. -/
def Operation.transfer : Operation → Option Transfer
  | .internal _ => none
  | .load address _ =>
    if route true address = .sram then none
    else some ⟨route true address, offset address, none⟩
  | .store address writedata _ =>
    if route false address = .sram then none
    else some ⟨route false address, offset address, some writedata⟩

namespace Machine

/-- The instruction at the program counter; the fetch has to go to the SRAM. -/
def instruction (m : Machine) : Option Instruction :=
  if m.processor.pc.extractLsb' 14 2 = 1 ∧ (m.processor.pc.setWidth 14).toNat < sramWords then
    decode (m.sram (m.processor.pc.setWidth 14))
  else none

/-- What the machine does next: it takes an interrupt or executes an instruction. -/
def operation (irq : Bool) (m : Machine) : Option Operation :=
  if m.processor.intrReq irq then some (.internal m.processor.intr)
  else m.instruction.map m.processor.execute

/-- The machine after an operation. -/
def complete (m : Machine) (readdata : Slave → BitVec 2 → Word) : Operation → Option Machine
  | .internal next => some { m with processor := next }
  | .load address next =>
    if route true address = .sram then
      if (wordIndex address).toNat < sramWords then
        some { m with processor := next (m.sram (wordIndex address)) }
      else none
    else some { m with processor := next (readdata (route true address) (offset address)) }
  | .store address writedata next =>
    if route false address = .sram then
      if (wordIndex address).toNat < sramWords then
        some ⟨next, Function.update m.sram (wordIndex address) writedata⟩
      else none
    else some { m with processor := next }

/-- One step. -/
def step (d : Devices) (m : Machine) : Option Machine :=
  (m.operation d.irq).bind (m.complete d.readdata)

/-- The transfer that the next step makes. -/
def transfer (d : Devices) (m : Machine) : Option Transfer :=
  (m.operation d.irq).bind Operation.transfer

end Machine

/-- The number of words of the program, which lie at the beginning of the SRAM. -/
def programWords : ℕ := 189

/-- The two machines have the same words in the part of the memory where the program lies. -/
def Machine.SameProgram (m m' : Machine) : Prop :=
  ∀ index : BitVec 14, index.toNat < programWords → m'.sram index = m.sram index

/-- A step that makes a transfer leaves the memory. -/
theorem Machine.sameProgram_of_transfer {m m' : Machine} {d : Devices} (hstep : m.step d = some m')
    (htransfer : m.transfer d ≠ none) : m.SameProgram m' := by
  rw [step] at hstep
  rw [transfer] at htransfer
  cases hoperation : m.operation d.irq with
  | none =>
    rw [hoperation] at htransfer
    exact absurd rfl htransfer
  | some operation =>
    rw [hoperation, Option.bind_some] at hstep htransfer
    cases operation with
    | internal next => exact absurd rfl htransfer
    | load address next =>
      rw [Operation.transfer] at htransfer
      have hroute : ¬ route true address = .sram := fun h ↦ htransfer (if_pos h)
      rw [complete, if_neg hroute] at hstep
      rw [← Option.some.inj hstep]
      exact fun _ _ ↦ rfl
    | store address writedata next =>
      rw [Operation.transfer] at htransfer
      have hroute : ¬ route false address = .sram := fun h ↦ htransfer (if_pos h)
      rw [complete, if_neg hroute] at hstep
      rw [← Option.some.inj hstep]
      exact fun _ _ ↦ rfl

/-- Some instructions without a transfer, none of which writes to the program. -/
inductive Silent : ℕ → Machine → Machine → Prop
  | refl (m : Machine) : Silent 0 m m
  | cons {n : ℕ} {m m' m'' : Machine} (hstep : ∀ d, m.step d = some m')
      (hquiet : ∀ d, m.transfer d = none) (hprogram : m.SameProgram m') (hrest : Silent n m' m'') :
      Silent (n + 1) m m''

namespace Silent

theorem trans {n k : ℕ} {m m' m'' : Machine} (h : Silent n m m') (h' : Silent k m' m'') :
    Silent (n + k) m m'' := by
  induction h with
  | refl m =>
    rw [Nat.zero_add]
    exact h'
  | cons hstep hquiet hprogram _ ih =>
    rw [Nat.add_right_comm]
    exact cons hstep hquiet hprogram (ih h')

theorem of_eq {n k : ℕ} {m m' : Machine} (h : Silent n m m') (hk : n = k) : Silent k m m' := hk ▸ h

end Silent

/-! ### Single instructions -/

section Single

variable {m : Machine} {i : Instruction}

/-- Without an interrupt to take the machine executes the instruction at the program counter. -/
theorem operation_eq (hienable : m.processor.ienable = false) (hi : m.instruction = some i)
    (irq : Bool) : m.operation irq = some (m.processor.execute i) := by
  rw [Machine.operation, Processor.intrReq, hienable, Bool.and_false, Bool.and_false,
    if_neg Bool.false_ne_true, hi, Option.map_some]

theorem silent_internal {next : Processor} (hienable : m.processor.ienable = false)
    (hi : m.instruction = some i) (hexecute : m.processor.execute i = .internal next) :
    Silent 1 m { m with processor := next } := by
  refine .cons (fun d ↦ ?_) (fun d ↦ ?_) ?_ (.refl _)
  · rw [Machine.step, operation_eq hienable hi, hexecute]
    rfl
  · rw [Machine.transfer, operation_eq hienable hi, hexecute]
    rfl
  · exact fun _ _ ↦ rfl

theorem silent_load {address : Address} {next : Word → Processor}
    (hienable : m.processor.ienable = false) (hi : m.instruction = some i)
    (hexecute : m.processor.execute i = .load address next) (hroute : route true address = .sram)
    (hsram : (wordIndex address).toNat < sramWords) :
    Silent 1 m { m with processor := next (m.sram (wordIndex address)) } := by
  refine .cons (fun d ↦ ?_) (fun d ↦ ?_) ?_ (.refl _)
  · rw [Machine.step, operation_eq hienable hi, hexecute, Option.bind_some, Machine.complete,
      if_pos hroute, if_pos hsram]
  · rw [Machine.transfer, operation_eq hienable hi, hexecute, Option.bind_some,
      Operation.transfer, if_pos hroute]
  · exact fun _ _ ↦ rfl

theorem silent_store {address : Address} {writedata : Word} {next : Processor}
    (hienable : m.processor.ienable = false) (hi : m.instruction = some i)
    (hexecute : m.processor.execute i = .store address writedata next)
    (hroute : route false address = .sram) (hsram : (wordIndex address).toNat < sramWords)
    (hprogram : programWords ≤ (wordIndex address).toNat) :
    Silent 1 m ⟨next, Function.update m.sram (wordIndex address) writedata⟩ := by
  refine .cons (fun d ↦ ?_) (fun d ↦ ?_) ?_ (.refl _)
  · rw [Machine.step, operation_eq hienable hi, hexecute, Option.bind_some, Machine.complete,
      if_pos hroute, if_pos hsram]
  · rw [Machine.transfer, operation_eq hienable hi, hexecute, Option.bind_some,
      Operation.transfer, if_pos hroute]
  · exact fun index hindex ↦ Function.update_of_ne
      (ne_of_apply_ne BitVec.toNat (hindex.trans_le hprogram).ne) _ _

end Single

end AudioProcessor.Nios
