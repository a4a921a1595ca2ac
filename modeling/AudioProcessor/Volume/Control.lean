import AudioProcessor.Library.Clocked
import AudioProcessor.Library.Serial

/-!
# The volume buttons

The registers of `volumeControl.vhd` and what one rising edge of its clock does to them. The three
button processes are one definition, `ButtonSync.sample`, and the two pulse stretchers another,
`Stretcher.step`; what differs between the stretchers is the reset branch of their process, which
assigns the up stretcher only (`State.asyncReset`).

Two resets act on the registers: the port `rst` on the stretchers, and on the button, LED and mute
registers its copy `rst_sync2`, which follows `rst` after two edges of the clock. Both are
asynchronous and active low. The registers `shift_up_clk` and `data_in` drive nothing and are left
out, as are the stage switch ports.
-/

set_option autoImplicit false
set_option relaxedAutoImplicit false

namespace AudioProcessor.Volume

/-- The levels of the three active-low buttons. -/
structure Buttons where
  volumeUpButton : Bool
  volumeDownButton : Bool
  muteButton : Bool

/-- No button is pressed. -/
def Buttons.idle : Buttons := ⟨true, true, true⟩

/-- The registers of a button process: two synchroniser stages and the previous value. -/
@[ext]
structure ButtonSync where
  sync1 : Bool
  sync2 : Bool
  prev : Bool
deriving DecidableEq

/-- The reset value of a button process: released. -/
def ButtonSync.released : ButtonSync := ⟨true, true, true⟩

/-- A button process at a rising edge of the clock. -/
def ButtonSync.sample (button : Bool) (b : ButtonSync) : ButtonSync := ⟨button, b.sync1, b.sync2⟩

/-- The one-cycle pulse on the falling edge of a button. -/
def ButtonSync.edge (b : ButtonSync) : Bool := b.prev && !b.sync2

/-- A button that has just fallen does not fall again at the next edge. -/
theorem ButtonSync.edge_sample {b : ButtonSync} (hedge : b.edge = true) (button : Bool) :
    (b.sample button).edge = false := by
  simp only [edge, Bool.and_eq_true, Bool.not_eq_true'] at hedge
  simp [edge, sample, hedge.2]

/-- The registers of a pulse stretcher: the count and the stretched output. -/
@[ext]
structure Stretcher where
  count : ℕ
  out : Bool
deriving DecidableEq

/-- A stretcher at rest. -/
def Stretcher.idle : Stretcher := ⟨0, false⟩

/-- A pulse stretcher at a rising edge of the clock: an edge of its button (re)starts the count, and
the output is high while it runs down. -/
def Stretcher.step (edge : Bool) (p : Stretcher) : Stretcher :=
  if edge then { p with count := 5000 }
  else if p.count > 0 then ⟨p.count - 1, true⟩
  else { p with out := false }

/-- The registers of the entity. -/
@[ext]
structure State where
  rstSync1 : Bool
  rstSync2 : Bool
  volUpBtn : ButtonSync
  volDownBtn : ButtonSync
  muteBtn : ButtonSync
  ledRegisters : BitVec 26
  muteState : Bool
  volUp : Stretcher
  volDown : Stretcher
deriving DecidableEq

/-- The output `greenLEDs`. -/
def State.greenLEDs (s : State) : BitVec 8 :=
  if s.muteState then 0 else s.ledRegisters.setWidth 8

/-- The output `redLEDs`. -/
def State.redLEDs (s : State) : BitVec 18 :=
  if s.muteState then 0 else s.ledRegisters.extractLsb' 8 18

/-- The bidirectional shift register and the mute toggle at a rising edge of the clock: mute before
up before down. -/
def State.shiftRegister (s : State) : BitVec 26 × Bool :=
  if s.muteBtn.edge then (s.ledRegisters, !s.muteState)
  else if s.volUpBtn.edge then (Serial.shiftIn s.ledRegisters true, false)
  else if s.volDownBtn.edge then (s.ledRegisters >>> 1, false)
  else (s.ledRegisters, s.muteState)

/-- The reset branches under the levels of `rst` and of the register `rst_sync2`. The process of the
stretchers resets the up stretcher only. -/
def State.asyncReset (rst : Bool) (s : State) : State :=
  { s with
    volUpBtn := if s.rstSync2 then s.volUpBtn else .released
    volDownBtn := if s.rstSync2 then s.volDownBtn else .released
    muteBtn := if s.rstSync2 then s.muteBtn else .released
    ledRegisters := if s.rstSync2 then s.ledRegisters else 0b11111111
    muteState := s.rstSync2 && s.muteState
    volUp := if rst then s.volUp else .idle }

/-- The clocked branches of the processes at a rising edge of the clock, each of them taken only
where its own reset is released. All read the registers as they were before the edge. -/
def State.clockEdge (rst : Bool) (b : Buttons) (s : State) : State where
  rstSync1 := rst
  rstSync2 := s.rstSync1
  volUpBtn := if s.rstSync2 then s.volUpBtn.sample b.volumeUpButton else s.volUpBtn
  volDownBtn := if s.rstSync2 then s.volDownBtn.sample b.volumeDownButton else s.volDownBtn
  muteBtn := if s.rstSync2 then s.muteBtn.sample b.muteButton else s.muteBtn
  ledRegisters := if s.rstSync2 then s.shiftRegister.1 else s.ledRegisters
  muteState := if s.rstSync2 then s.shiftRegister.2 else s.muteState
  volUp := if rst then s.volUp.step s.volUpBtn.edge else s.volUp
  volDown := if rst then s.volDown.step s.volDownBtn.edge else s.volDown

/-- One rising edge of the clock under the level of `rst` at it. -/
def step (rst : Bool) (b : Buttons) (s : State) : State :=
  (s.clockEdge rst b).asyncReset rst

/-! ### Released operation -/

/-- The synchronised reset follows its port on the way up, and while it is low the registers it
resets have their reset values. -/
structure State.Settled (s : State) : Prop where
  rstSync1 : s.rstSync2 = true → s.rstSync1 = true
  volUpBtn : s.rstSync2 = false → s.volUpBtn = .released
  volDownBtn : s.rstSync2 = false → s.volDownBtn = .released
  muteBtn : s.rstSync2 = false → s.muteBtn = .released
  ledRegisters : s.rstSync2 = false → s.ledRegisters = 0b11111111
  muteState : s.rstSync2 = false → s.muteState = false

/-- The register `rst_sync2` at an edge with the reset released. -/
@[simp] theorem step_rstSync2 (b : Buttons) (s : State) : (step true b s).rstSync2 = s.rstSync1 := rfl

@[simp] theorem step_rstSync1 (b : Buttons) (s : State) : (step true b s).rstSync1 = true := rfl

@[simp] theorem step_volUp (b : Buttons) (s : State) :
    (step true b s).volUp = s.volUp.step s.volUpBtn.edge := rfl

@[simp] theorem step_volDown (b : Buttons) (s : State) :
    (step true b s).volDown = s.volDown.step s.volDownBtn.edge := rfl

namespace State.Settled

variable {s : State} (h : s.Settled) (b : Buttons)

include h

/-- The shift register moves as if the synchronised reset were released. -/
theorem step_ledRegisters : (step true b s).ledRegisters = s.shiftRegister.1 := by
  cases hsync : s.rstSync2
  · have hleds : s.shiftRegister.1 = 0b11111111 := by
      rw [shiftRegister, h.volUpBtn hsync, h.volDownBtn hsync, h.muteBtn hsync]
      exact h.ledRegisters hsync
    rw [hleds]
    simp [step, clockEdge, asyncReset, hsync, h.ledRegisters hsync]
  · simp [step, clockEdge, asyncReset, hsync, h.rstSync1 hsync]

/-- So does the mute flag. -/
theorem step_muteState : (step true b s).muteState = s.shiftRegister.2 := by
  cases hsync : s.rstSync2
  · have hmute : s.shiftRegister.2 = false := by
      rw [shiftRegister, h.volUpBtn hsync, h.volDownBtn hsync, h.muteBtn hsync]
      exact h.muteState hsync
    rw [hmute]
    simp [step, clockEdge, asyncReset, hsync, h.muteState hsync]
  · simp [step, clockEdge, asyncReset, hsync, h.rstSync1 hsync]

/-- The button processes sample once the synchronised reset is released. -/
theorem step_volUpBtn : (step true b s).volUpBtn =
    if s.rstSync2 then s.volUpBtn.sample b.volumeUpButton else .released := by
  cases hsync : s.rstSync2
  · simp [step, clockEdge, asyncReset, hsync, h.volUpBtn hsync]
  · simp [step, clockEdge, asyncReset, hsync, h.rstSync1 hsync]

theorem step_volDownBtn : (step true b s).volDownBtn =
    if s.rstSync2 then s.volDownBtn.sample b.volumeDownButton else .released := by
  cases hsync : s.rstSync2
  · simp [step, clockEdge, asyncReset, hsync, h.volDownBtn hsync]
  · simp [step, clockEdge, asyncReset, hsync, h.rstSync1 hsync]

theorem step_muteBtn : (step true b s).muteBtn =
    if s.rstSync2 then s.muteBtn.sample b.muteButton else .released := by
  cases hsync : s.rstSync2
  · simp [step, clockEdge, asyncReset, hsync, h.muteBtn hsync]
  · simp [step, clockEdge, asyncReset, hsync, h.rstSync1 hsync]

omit h in
/-- An edge with the reset port released settles the registers. -/
theorem settled_step : (Volume.step true b s).Settled where
  rstSync1 _ := rfl
  volUpBtn hsync := by
    rw [step_rstSync2] at hsync
    simp [Volume.step, clockEdge, asyncReset, hsync]
  volDownBtn hsync := by
    rw [step_rstSync2] at hsync
    simp [Volume.step, clockEdge, asyncReset, hsync]
  muteBtn hsync := by
    rw [step_rstSync2] at hsync
    simp [Volume.step, clockEdge, asyncReset, hsync]
  ledRegisters hsync := by
    rw [step_rstSync2] at hsync
    simp [Volume.step, clockEdge, asyncReset, hsync]
  muteState hsync := by
    rw [step_rstSync2] at hsync
    simp [Volume.step, clockEdge, asyncReset, hsync]

end State.Settled

/-- The registers after a number of edges with the reset released. -/
def run (s : State) (buttons : ℕ → Buttons) : ℕ → State := Clocked.run (step true) s buttons

theorem run_succ (s : State) (buttons : ℕ → Buttons) (t : ℕ) :
    run s buttons (t + 1) = step true (buttons t) (run s buttons t) := rfl

/-! ### Stretched pulses -/

namespace Stretcher

/-- The stretcher has been loaded and has not raised its output yet. -/
def loaded (p : Stretcher) : Bool := decide (0 < p.count) && !p.out

/-- The output rises one edge after the stretcher was loaded. -/
theorem rises_step (p : Stretcher) {edge : Bool} (hedge : p.loaded = true → edge = false) :
    ((p.step edge).out && !p.out) = p.loaded := by
  cases hloaded : p.loaded
  · obtain ⟨count, out⟩ := p
    cases out
    · have hcount : count = 0 := by simpa [loaded] using hloaded
      cases edge <;> simp [step, hcount]
    · simp
  · obtain ⟨count, out⟩ := p
    obtain ⟨hcount, rfl⟩ : 0 < count ∧ out = false := by simpa [loaded] using hloaded
    simp [step, hedge hloaded, hcount]

/-- An edge loads a stretcher that is at rest, and only restarts one that is busy. -/
theorem loaded_step (p : Stretcher) {edge : Bool} (hedge : p.loaded = true → edge = false) :
    (p.step edge).loaded = (edge && decide (p = .idle)) := by
  obtain ⟨count, out⟩ := p
  cases edge
  · rw [Bool.false_and, step, if_neg Bool.false_ne_true]
    split_ifs with hcount
    · exact Bool.and_false _
    · simpa [loaded] using hcount
  · have hfree : ¬ (0 < count ∧ out = false) := fun hbusy ↦
      absurd (hedge (by simpa [loaded] using hbusy)) (by decide)
    cases out
    · have hcount : count = 0 := by simpa using hfree
      simp [step, loaded, idle, hcount]
    · simp [step, loaded, idle]

end Stretcher

end AudioProcessor.Volume
