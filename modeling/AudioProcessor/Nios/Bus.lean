import Mathlib.Data.BitVec

/-!
# The interconnect

The address decoder between the data master of the processor and its slaves, and the PIO slaves
themselves. Each slave has a span of addresses; an input PIO is decoded for reads only, and what no
span claims goes to the SRAM (`route`). A PIO has one register, at offset zero: reading it shows the
port with zeros above, writing it keeps the low bits of the bus.
-/

set_option autoImplicit false
set_option relaxedAutoImplicit false

namespace AudioProcessor.Nios

/-- A word on the bus. -/
abbrev Word := BitVec 32

/-- A byte address on the data bus. -/
abbrev Address := BitVec 18

/-- The slaves, in the order of the decoder. -/
inductive Slave
  | sram
  | debugMemSlave
  | niosDataReady
  | niosOutRight
  | niosOutLeft
  | niosInRight
  | niosInLeft
  | trebleStageSwitch
  | bassStageSwitch
  | muteButton
  | volDownButton
  | volUpButton
  | redLEDs
  | greenLEDs
  | jtag
deriving DecidableEq

/-- One comparison of the decoder: the address with its low `pad` bits cleared is the base. -/
structure Span where
  pad : ℕ
  base : Address
  readOnly : Bool
  slave : Slave

/-- The comparison holds of a transaction. -/
def Span.claims (span : Span) (read : Bool) (address : Address) : Bool :=
  (address >>> span.pad) <<< span.pad == span.base && (!span.readOnly || read)

/-- The comparisons in their order. -/
def decoder : List Span :=
  [⟨16, 0x10000, false, .sram⟩, ⟨11, 0x20800, false, .debugMemSlave⟩,
    ⟨4, 0x21000, true, .niosDataReady⟩, ⟨4, 0x21010, false, .niosOutRight⟩,
    ⟨4, 0x21020, false, .niosOutLeft⟩, ⟨4, 0x21030, true, .niosInRight⟩,
    ⟨4, 0x21040, true, .niosInLeft⟩, ⟨4, 0x21050, true, .trebleStageSwitch⟩,
    ⟨4, 0x21060, true, .bassStageSwitch⟩, ⟨4, 0x21070, true, .muteButton⟩,
    ⟨4, 0x21080, true, .volDownButton⟩, ⟨4, 0x21090, true, .volUpButton⟩,
    ⟨4, 0x210a0, false, .redLEDs⟩, ⟨4, 0x210b0, false, .greenLEDs⟩, ⟨3, 0x210c0, false, .jtag⟩]

/-- The slave a transaction goes to: a later comparison overrides an earlier one, and the default
is the SRAM. -/
def route (read : Bool) (address : Address) : Slave :=
  decoder.foldl (fun slave span ↦ if span.claims read address then span.slave else slave) .sram

/-- The word of the SRAM at an address. -/
def wordIndex (address : Address) : BitVec 14 := address.extractLsb' 2 14

/-- The register of a slave at an address. -/
def offset (address : Address) : BitVec 2 := address.extractLsb' 2 2

/-- `readdata` of an input PIO. -/
def readMux {width : ℕ} (inPort : BitVec width) (offset : BitVec 2) : Word :=
  (if offset == 0 then inPort else 0).setWidth 32

/-- `data_out` of an output PIO after a write. -/
def dataOut (writedata : Word) (offset : BitVec 2) (dataOut : BitVec 16) : BitVec 16 :=
  if offset == 0 then writedata.setWidth 16 else dataOut

/-- A transaction with a slave other than the SRAM. -/
structure Transfer where
  slave : Slave
  offset : BitVec 2
  writedata : Option Word
deriving DecidableEq

/-- What the devices contribute while an instruction executes: the interrupt line, and what each
slave would return to a read. -/
structure Devices where
  irq : Bool
  readdata : Slave → BitVec 2 → Word

/-! ### The memory map -/

/-- The transaction lies in the span, and the slave takes it. -/
def Span.Covers (span : Span) (read : Bool) (address : Address) : Prop :=
  span.base.toNat ≤ address.toNat ∧ address.toNat < span.base.toNat + 2 ^ span.pad ∧
    (span.readOnly = true → read = true)

instance (span : Span) (read : Bool) (address : Address) : Decidable (span.Covers read address) :=
  inferInstanceAs (Decidable (_ ∧ _ ∧ _))

/-- A comparison is one with the bounds of the span, where its base is aligned to it. -/
theorem Span.claims_iff {span : Span} (haligned : span.base.toNat % 2 ^ span.pad = 0) (read : Bool)
    (address : Address) : span.claims read address = true ↔ span.Covers read address := by
  obtain ⟨pad, base, readOnly, slave⟩ := span
  have hlow : (address >>> pad <<< pad).toNat = address.toNat / 2 ^ pad * 2 ^ pad := by
    have hle := Nat.div_mul_le_self address.toNat (2 ^ pad)
    rw [BitVec.toNat_shiftLeft, BitVec.toNat_ushiftRight, Nat.shiftRight_eq_div_pow,
      Nat.shiftLeft_eq, Nat.mod_eq_of_lt (hle.trans_lt address.isLt)]
  have hsame : address >>> pad <<< pad = base ↔
      base.toNat ≤ address.toNat ∧ address.toNat < base.toNat + 2 ^ pad := by
    obtain ⟨q, hq⟩ := Nat.dvd_of_mod_eq_zero haligned
    change base.toNat = 2 ^ pad * q at hq
    have hpos : 0 < 2 ^ pad := Nat.two_pow_pos pad
    rw [← BitVec.toNat_inj, hlow, hq, Nat.mul_comm _ (2 ^ pad), Nat.mul_right_inj hpos.ne',
      Nat.div_eq_iff hpos, Nat.mul_comm q]
    omega
  have hread : (!readOnly || read) = true ↔ (readOnly = true → read = true) := by
    cases readOnly <;> cases read <;> decide
  rw [claims, Bool.and_eq_true, beq_iff_eq, hsame, hread, Covers, and_assoc]

theorem decoder_aligned : ∀ span ∈ decoder, span.base.toNat % 2 ^ span.pad = 0 := by decide

section Override

variable {α β : Type*} (p : α → Bool) (f : α → β) (l : List α) (init : β)

/-- Where every match gives the value there already is, it stays. -/
theorem foldl_override_eq (hsame : ∀ x ∈ l, p x = true → f x = init) :
    l.foldl (fun value x ↦ if p x then f x else value) init = init := by
  induction l with
  | nil => rfl
  | cons x l ih =>
    rw [List.forall_mem_cons] at hsame
    have hfirst : (if p x then f x else init) = init := by
      split_ifs with hx
      · exact hsame.1 hx
      · rfl
    rw [List.foldl_cons, hfirst, ih hsame.2]

/-- Where all matches give the same value, the first of them decides. -/
theorem foldl_override_of_mem {x : α} (hx : x ∈ l) (hmatch : p x = true)
    (hsame : ∀ y ∈ l, p y = true → f y = f x) :
    l.foldl (fun value x ↦ if p x then f x else value) init = f x := by
  induction l generalizing init with
  | nil => exact absurd hx List.not_mem_nil
  | cons y l ih =>
    rw [List.forall_mem_cons] at hsame
    rw [List.foldl_cons]
    rcases List.mem_cons.mp hx with rfl | hlater
    · rw [if_pos hmatch, foldl_override_eq p f l _ hsame.2]
    · exact ih _ hlater hsame.2

end Override

/-- Two spans cannot both cover a transaction. -/
theorem covers_unique {span span' : Span} (hspan : span ∈ decoder) (hspan' : span' ∈ decoder)
    {read : Bool} {address : Address} (h : span.Covers read address)
    (h' : span'.Covers read address) : span.slave = span'.slave := by
  by_contra hne
  have hdisjoint : ∀ span ∈ decoder, ∀ span' ∈ decoder, span.slave ≠ span'.slave →
      span.base.toNat + 2 ^ span.pad ≤ span'.base.toNat ∨
        span'.base.toNat + 2 ^ span'.pad ≤ span.base.toNat := by decide
  have hlow := h.1
  have hhigh := h.2.1
  have hlow' := h'.1
  have hhigh' := h'.2.1
  rcases hdisjoint span hspan span' hspan' hne with hbefore | hafter
  · omega
  · omega

/-- The memory map: a transaction goes to the slave whose span covers it, and to the SRAM where none
does, in whatever order the comparisons are made. -/
theorem memory_map (spans : List Span) (hspans : spans.Perm decoder) (read : Bool)
    (address : Address) (slave : Slave) :
    spans.foldl (fun slave span ↦ if span.claims read address then span.slave else slave) .sram =
        slave ↔
      (∃ span ∈ decoder, span.Covers read address ∧ span.slave = slave) ∨
        (∀ span ∈ decoder, ¬ span.Covers read address) ∧ slave = .sram := by
  have hclaims : ∀ span ∈ decoder, span.claims read address = true ↔ span.Covers read address :=
    fun span hspan ↦ span.claims_iff (decoder_aligned span hspan) read address
  by_cases hcovered : ∃ span ∈ decoder, span.Covers read address
  · obtain ⟨span, hspan, hcovers⟩ := hcovered
    rw [foldl_override_of_mem _ _ _ _ (hspans.mem_iff.mpr hspan) ((hclaims span hspan).mpr hcovers)
      fun span' hspan' hmatch ↦ covers_unique (hspans.mem_iff.mp hspan') hspan
        ((hclaims span' (hspans.mem_iff.mp hspan')).mp hmatch) hcovers]
    constructor
    · exact fun hslave ↦ .inl ⟨span, hspan, hcovers, hslave⟩
    · rintro (⟨span', hspan', hcovers', rfl⟩ | ⟨hnone, -⟩)
      · exact covers_unique hspan hspan' hcovers hcovers'
      · exact absurd hcovers (hnone span hspan)
  · have hnone : ∀ span ∈ decoder, ¬ span.Covers read address := fun span hspan hcovers ↦
      hcovered ⟨span, hspan, hcovers⟩
    rw [foldl_override_eq _ _ _ _ fun span hspan hmatch ↦ absurd
      ((hclaims span (hspans.mem_iff.mp hspan)).mp hmatch) (hnone span (hspans.mem_iff.mp hspan))]
    constructor
    · exact fun hslave ↦ .inr ⟨hnone, hslave.symm⟩
    · rintro (⟨span, hspan, hcovers, -⟩ | ⟨-, hslave⟩)
      · exact absurd hcovers (hnone span hspan)
      · exact hslave.symm

/-- A write to the port of the ready flag goes to the SRAM. -/
theorem memory_map_write : decoder.reverse.foldl
    (fun slave span ↦ if span.claims false 0x21000 then span.slave else slave) .sram = .sram :=
  (memory_map decoder.reverse (List.reverse_perm _) false 0x21000 .sram).mpr
    (.inr ⟨by decide, rfl⟩)

end AudioProcessor.Nios
