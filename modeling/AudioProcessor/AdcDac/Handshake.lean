import AudioProcessor.AdcDac.Serialiser

/-!
# The handshake with the NIOS

The words between the controller and the NIOS are exchanged at one edge of a frame. `State.bridge`
are the four registers that take part, `released_bridge` says what every edge of the audio clock does
to them, and `bridge_stable` what a reader may rely on: the words it reads change only where the ready
flag is low and stays low for a bit clock more, not before fifteen bit clocks after it fell, and once
between two rises of the flag. `State.core_audioClockEdge` says that no other register is computed
from the two words shown to the NIOS.
-/

set_option autoImplicit false
set_option relaxedAutoImplicit false

namespace AudioProcessor.AdcDac

/-- The registers that take part in the exchange of words with the NIOS. -/
structure Bridge where
  toNiosLeft : BitVec 16
  toNiosRight : BitVec 16
  fromNiosLeft : BitVec 16
  fromNiosRight : BitVec 16
deriving DecidableEq

/-- These registers in a state. -/
def State.bridge (s : State) : Bridge where
  toNiosLeft := s.audioToNiosLeft
  toNiosRight := s.audioToNiosRight
  fromNiosLeft := s.dacDataLeftChannelRegister
  fromNiosRight := s.dacDataRightChannelRegister

/-- What an exchange puts into them: the words received, and those the NIOS offers. -/
def State.exchanged (i : Inputs) (s : State) : Bridge where
  toNiosLeft := s.adcDataLeftChannelRegister
  toNiosRight := s.adcDataRightChannelRegister
  fromNiosLeft := i.audioFromNiosLeft
  fromNiosRight := i.audioFromNiosRight

/-- The bit clock falls at edge `k` of the audio clock. -/
def bitClockFalls (view : ℕ → State) (k : ℕ) : Bool :=
  (view k).internalBitClock && !(view (k + 1)).internalBitClock

/-- The words are exchanged at edge `k`: the falling bit-clock edge that finds the slot counter at
its end. -/
def Exchanges (view : ℕ → State) (k : ℕ) : Prop :=
  bitClockFalls view k = true ∧ (view k).lrCounter = 31

/-- The ready flag rises at edge `k`. -/
def FlagRises (view : ℕ → State) (k : ℕ) : Prop :=
  (view k).dataReadyFlag = false ∧ (view (k + 1)).dataReadyFlag = true

/-- The ready flag falls at edge `k`. -/
def FlagFalls (view : ℕ → State) (k : ℕ) : Prop :=
  (view k).dataReadyFlag = true ∧ (view (k + 1)).dataReadyFlag = false

section Edges

variable (i : Inputs) (s : State)

@[simp] theorem State.risingEdge_bridge : (s.risingEdge i).bridge = s.bridge := by
  unfold State.risingEdge
  split <;> rfl

theorem State.fallingEdge_bridge : (s.fallingEdge i).bridge =
    if s.lrCounter = 31 then s.exchanged i else s.bridge := by
  split_ifs with hlast
  · obtain ⟨hleft, hright, htoLeft, htoRight⟩ := State.fallingEdge_exchanged i s hlast
    rw [bridge, hleft, hright, htoLeft, htoRight, exchanged]
  · obtain ⟨hleft, hright, htoLeft, htoRight⟩ := State.fallingEdge_held i s hlast
    rw [bridge, hleft, hright, htoLeft, htoRight, bridge]

end Edges

section Released

variable (s : State) (input : ℕ → Inputs)

/-- The exchange is at the last edge of the frames. -/
theorem exchanges_iff (k : ℕ) : Exchanges (released s input) k ↔ ∃ n, k = latchEdge n := by
  rw [Exchanges, bitClockFalls, Bool.and_eq_true, Bool.not_eq_true', and_assoc]
  exact falls_last_iff s input k

/-- The flag is high in the sixteen bit periods of the left slot. -/
theorem released_dataReadyFlag (k : ℕ) : (released s input k).dataReadyFlag =
    decide (12 ≤ k % 384 ∧ k % 384 < 204) := by
  rw [State.dataReadyFlag, released_internalLRSelect]
  exact decide_eq_decide.mpr (by omega)

/-- An edge of the audio clock exchanges the words, or leaves them all. -/
theorem released_bridge (k : ℕ) : (released s input (k + 1)).bridge =
    if k % 384 = 383 then (released s input k).exchanged (input k)
    else (released s input k).bridge := by
  have huntouched := released_of_untouched State.bridge (fun _ _ _ ↦ rfl)
    (fun i t ↦ t.risingEdge_bridge i) s input
  by_cases hfalls : k % 12 = 11
  · -- the edge ends bit period `k / 12`
    have hhigh := released_high_half s input (k / 12) (Nat.le_refl 5)
    rw [show 12 * (k / 12) + 6 + 5 = k by omega] at hhigh
    have hslots := (slots_bitRun s input (k / 12)).risingEdge (input (12 * (k / 12) + 5))
    have hend : (released s input (k + 1)).bridge =
        ((released s input k).fallingEdge (input k)).bridge := by
      rw [huntouched (k + 1), show (k + 1) / 12 = k / 12 + 1 by omega, bitRun_succ, hhigh,
        State.fallingEdge_atPhase, show 12 * (k / 12) + 11 = k by omega]
      rfl
    have hcounter : (released s input k).lrCounter = k / 12 % 32 := by
      rw [hhigh]
      exact hslots.lrCounter
    rw [hend, State.fallingEdge_bridge, hcounter]
    exact if_congr (by omega) rfl rfl
  · rw [if_neg (by omega), huntouched, huntouched, show (k + 1) / 12 = k / 12 by omega]

/-- Away from the exchange the registers stay. -/
theorem released_bridge_held {k : ℕ} (hk : ¬ Exchanges (released s input) k) :
    (released s input (k + 1)).bridge = (released s input k).bridge := by
  rw [released_bridge, if_neg]
  intro hlast
  exact hk ((exchanges_iff s input k).mpr ⟨k / 384, by rw [latchEdge]; omega⟩)

theorem released_bridge_exchanged {k : ℕ} (hk : Exchanges (released s input) k) :
    (released s input (k + 1)).bridge = (released s input k).exchanged (input k) := by
  obtain ⟨n, rfl⟩ := (exchanges_iff s input k).mp hk
  rw [released_bridge, if_pos (by rw [latchEdge]; omega)]

/-- From the fall of the flag on they stay for fifteen bit clocks. -/
theorem released_bridge_after_fall {k : ℕ} (hfalls : FlagFalls (released s input) k) {j : ℕ}
    (hj : j < 180) : (released s input (k + 1 + j)).bridge = (released s input k).bridge := by
  obtain ⟨hhigh, hlow⟩ := hfalls
  rw [released_dataReadyFlag, decide_eq_true_eq] at hhigh
  rw [released_dataReadyFlag, decide_eq_false_iff_not] at hlow
  induction j with
  | zero => rw [Nat.add_zero, released_bridge, if_neg (by omega)]
  | succ j ih => rw [← Nat.add_assoc, released_bridge, if_neg (by omega), ih (by omega)]

/-- Between two rises of the flag there is one exchange. -/
theorem existsUnique_exchange {k k' : ℕ} (hlt : k < k') (hrises : FlagRises (released s input) k)
    (hrises' : FlagRises (released s input) k')
    (hnone : ∀ j, k < j → j < k' → ¬ FlagRises (released s input) j) :
    ∃! e, k < e ∧ e < k' ∧ Exchanges (released s input) e := by
  obtain ⟨n, hn⟩ := (dataReadyFlag_rises_iff s input k).mp hrises
  obtain ⟨n', hn'⟩ := (dataReadyFlag_rises_iff s input k').mp hrises'
  have hnext : n' = n + 1 := by
    by_contra hother
    exact hnone (k + 384) (by omega) (by omega)
      ((dataReadyFlag_rises_iff s input _).mpr ⟨n + 1, by omega⟩)
  refine ⟨latchEdge n, ⟨?_, ?_, (exchanges_iff s input _).mpr ⟨n, rfl⟩⟩, ?_⟩
  · rw [latchEdge]
    omega
  · rw [latchEdge]
    omega
  · rintro e ⟨hlow, hhigh, hexchanges⟩
    obtain ⟨m, rfl⟩ := (exchanges_iff s input e).mp hexchanges
    rw [latchEdge] at hlow hhigh
    rw [show m = n by omega]

end Released

/-! ### The other registers -/

/-- The registers other than the two that show the received words to the NIOS. -/
def State.core (s : State) : State := { s with audioToNiosLeft := 0, audioToNiosRight := 0 }

section Core

variable (i : Inputs) (s : State)

theorem State.core_risingEdge : (s.core.risingEdge i).core = (s.risingEdge i).core := by
  rw [risingEdge, risingEdge]
  by_cases hselect : s.internalLRSelect = true
  · rw [if_pos hselect, if_pos (show s.core.internalLRSelect = true from hselect)]
    rfl
  · rw [if_neg hselect, if_neg (show ¬ s.core.internalLRSelect = true from hselect)]
    rfl

theorem State.core_fallingEdge : (s.core.fallingEdge i).core = (s.fallingEdge i).core := by
  rw [fallingEdge, fallingEdge]
  by_cases hleft : s.lrCounter < 16
  · rw [s.lrSelect_left i hleft, s.core.lrSelect_left i hleft]
    rfl
  · by_cases hlast : s.lrCounter = 31
    · rw [s.lrSelect_last i hlast, s.core.lrSelect_last i hlast]
      rfl
    · have hright : 16 ≤ s.lrCounter := Nat.le_of_not_lt hleft
      rw [s.lrSelect_right i hright hlast, s.core.lrSelect_right i hright hlast]
      rfl

/-- No register is computed from those two. -/
theorem State.core_audioClockEdge :
    (s.core.audioClockEdge i).core = (s.audioClockEdge i).core := by
  have hfalls := (s.atPhase s.bitClock.1 s.bitClock.2).core_fallingEdge i
  have hrises := (s.atPhase s.bitClock.1 s.bitClock.2).core_risingEdge i
  rw [audioClockEdge, audioClockEdge]
  change State.core (if (s.internalBitClock && !s.bitClock.1) = true then
      (s.atPhase s.bitClock.1 s.bitClock.2).core.fallingEdge i
    else if (!s.internalBitClock && s.bitClock.1) = true then
      (s.atPhase s.bitClock.1 s.bitClock.2).core.risingEdge i
    else (s.atPhase s.bitClock.1 s.bitClock.2).core) = _
  split_ifs
  · exact hfalls
  · exact hrises
  · rfl

end Core

/-- What the reader of the bridge registers may rely on, in every run after a reset: they change only
at a falling bit-clock edge that finds the ready flag low, with the flag staying low for twelve more
edges; they stay while the flag is high and for fifteen bit clocks after it fell; and between two
rises of the flag the words in both directions are loaded once, at the same edge. -/
theorem bridge_stable (s : State) (input : ℕ → Inputs) :
    (∀ k, (released s input (k + 1)).audioToNiosLeft ≠ (released s input k).audioToNiosLeft ∨
        (released s input (k + 1)).audioToNiosRight ≠ (released s input k).audioToNiosRight →
      bitClockFalls (released s input) k = true ∧
        ∀ j ≤ 12, (released s input (k + j)).dataReadyFlag = false) ∧
      (∀ k, (released s input k).dataReadyFlag = true →
        (released s input (k + 1)).bridge = (released s input k).bridge) ∧
      (∀ k, FlagFalls (released s input) k → ∀ j < 15 * 12,
        (released s input (k + 1 + j)).bridge = (released s input k).bridge) ∧
      (∀ k, Exchanges (released s input) k →
        (released s input (k + 1)).bridge = (released s input k).exchanged (input k)) ∧
      (∀ k, ¬ Exchanges (released s input) k →
        (released s input (k + 1)).bridge = (released s input k).bridge) ∧
      ∀ k k', k < k' → FlagRises (released s input) k → FlagRises (released s input) k' →
        (∀ j, k < j → j < k' → ¬ FlagRises (released s input) j) →
        ∃! e, k < e ∧ e < k' ∧ Exchanges (released s input) e := by
  refine ⟨fun k hchange ↦ ?_, fun k hhigh ↦ ?_,
    fun k hfalls j hj ↦ released_bridge_after_fall s input hfalls hj,
    fun k hk ↦ released_bridge_exchanged s input hk, fun k hk ↦ released_bridge_held s input hk,
    fun k k' hlt hrises hrises' hnone ↦ existsUnique_exchange s input hlt hrises hrises' hnone⟩
  · have hexchanges : Exchanges (released s input) k := by
      by_contra hother
      have hheld := released_bridge_held s input hother
      rcases hchange with hleft | hright
      · exact hleft (congrArg Bridge.toNiosLeft hheld)
      · exact hright (congrArg Bridge.toNiosRight hheld)
    obtain ⟨n, rfl⟩ := (exchanges_iff s input k).mp hexchanges
    refine ⟨hexchanges.1, fun j hj ↦ ?_⟩
    rw [released_dataReadyFlag, latchEdge]
    exact decide_eq_false (by omega)
  · rw [released_dataReadyFlag, decide_eq_true_eq] at hhigh
    rw [released_bridge, if_neg (by omega)]

end AudioProcessor.AdcDac
