import AudioProcessor.Library.Clocked
import AudioProcessor.Library.Ticks

/-!
# Machines that stutter

A machine that needs several steps for one step of its specification: only its visible steps are
steps of the specification, the others leave the specification where it is. `follows_run` turns what
one step of either kind preserves into what every run preserves; the specification has then made as
many steps as the machine has made visible ones, on what was seen at them.

`Countdown` bounds how long the machine can stay silent. `R d s` says that in state `s` there are
exactly `d` silent steps before the next visible one; inputs that are not `active` (those of a
neighbour on another clock) let the machine rest.
-/

set_option autoImplicit false
set_option relaxedAutoImplicit false

namespace Stuttering

open Clocked (Endless run run_succ ticks ticks_mono ticks_succ_active ticks_succ_rest)

variable {σ τ ι κ : Type*} {step : ι → σ → σ} {visible : ι → σ → Prop}

/-! ### Simulation -/

section Follows

variable {seen : ι → σ → κ} {other : κ → τ → τ} {R : σ → τ → Prop} {start : σ} {origin : τ}

/-- The step is visible at a time of a run. -/
def visibleAt (step : ι → σ → σ) (visible : ι → σ → Prop) (start : σ) (input : ℕ → ι) (n : ℕ) :
    Prop :=
  visible (input n) (run step start input n)

/-- What is seen at the visible steps of a run, in order. -/
noncomputable def seenAt (step : ι → σ → σ) (visible : ι → σ → Prop) (seen : ι → σ → κ) (start : σ)
    (input : ℕ → ι) (k : ℕ) : κ :=
  let n := Nat.nth (visibleAt step visible start input) k
  seen (input n) (run step start input n)

open Classical in
/-- What is seen at a visible step of a run. -/
theorem seenAt_count {input : ℕ → ι} {n : ℕ} (hn : visibleAt step visible start input n) :
    seenAt step visible seen start input (Nat.count (visibleAt step visible start input) n) =
      seen (input n) (run step start input n) := by
  rw [seenAt, Nat.nth_count hn]

open Classical in
/-- What a silent step of the machine preserves, and a visible one together with a step of the
specification, holds along every run. -/
theorem follows_run (hsilent : ∀ i s t, R s t → ¬ visible i s → R (step i s) t)
    (hvisible : ∀ i s t, R s t → visible i s → R (step i s) (other (seen i s) t))
    (hstart : R start origin) (input : ℕ → ι) (n : ℕ) :
    R (run step start input n)
      (run other origin (seenAt step visible seen start input)
        (Nat.count (visibleAt step visible start input) n)) := by
  induction n with
  | zero =>
    rw [Nat.count_zero]
    exact hstart
  | succ n ih =>
    rw [run_succ, Nat.count_succ]
    by_cases hn : visibleAt step visible start input n
    · rw [if_pos hn, run_succ]
      rw [seenAt_count hn]
      exact hvisible _ _ _ ih hn
    · rw [if_neg hn, Nat.add_zero]
      exact hsilent _ _ _ ih hn

end Follows

/-! ### Silence -/

/-- `R d s` leaves `d` silent steps before the next visible one. -/
structure Countdown (step : ι → σ → σ) (active : ι → Prop) (visible : ι → σ → Prop)
    (R : ℕ → σ → Prop) : Prop where
  rest : ∀ i d s, R d s → ¬ active i → ¬ visible i s ∧ R d (step i s)
  silent : ∀ i d s, R (d + 1) s → active i → ¬ visible i s ∧ R d (step i s)
  due : ∀ i s, R 0 s → active i → visible i s

namespace Countdown

variable {active : ι → Prop} [DecidablePred active] {R : ℕ → σ → Prop} {start : σ} {input : ℕ → ι}

/-- As long as there are ticks left the run is silent and counts down. -/
theorem run_countdown (h : Countdown step active visible R) {d n m : ℕ} (hnm : n ≤ m)
    (hd : R d (run step start input n))
    (hm : ticks active input m ≤ ticks active input n + d) :
    R (d + ticks active input n - ticks active input m) (run step start input m) ∧
      ∀ k, n ≤ k → k < m → ¬ visibleAt step visible start input k := by
  induction m, hnm using Nat.le_induction with
  | base =>
    rw [Nat.add_sub_cancel]
    exact ⟨hd, fun k hnk hkn ↦ absurd hnk (Nat.not_le_of_lt hkn)⟩
  | succ m hnm ih =>
    have hmono := ticks_mono active input hnm
    have hle := ticks_mono active input (Nat.le_succ m)
    obtain ⟨hm', hquiet⟩ := ih (hle.trans hm)
    suffices hstep : ¬ visibleAt step visible start input m ∧
        R (d + ticks active input n - ticks active input (m + 1)) (run step start input (m + 1)) by
      refine ⟨hstep.2, fun k hnk hkm ↦ ?_⟩
      rcases Nat.lt_succ_iff_lt_or_eq.mp hkm with hlt | rfl
      · exact hquiet k hnk hlt
      · exact hstep.1
    by_cases hactive : active (input m)
    · rw [ticks_succ_active hactive] at hm ⊢
      refine h.silent (input m) _ _ ?_ hactive
      rwa [show d + ticks active input n - (ticks active input m + 1) + 1 =
        d + ticks active input n - ticks active input m by omega]
    · rw [ticks_succ_rest hactive]
      exact h.rest (input m) _ _ hm' hactive

/-- The ticks do not stop, so they are used up: the next one is visible. -/
theorem exists_due (h : Countdown step active visible R)
    (hticks : Endless active input) {d n : ℕ} (hd : R d (run step start input n)) :
    ∃ m ≥ n, active (input m) ∧ R 0 (run step start input m) ∧
      ticks active input m = ticks active input n + d := by
  obtain ⟨m, hactive, hcount⟩ : ∃ m, active (input m) ∧
      ticks active input m = ticks active input n + d :=
    ⟨_, hticks.active_tickTime _, hticks.ticks_tickTime _⟩
  have hnm : n ≤ m := by
    by_contra hmn
    have hmono := ticks_mono active input (Nat.not_le.mp hmn : m + 1 ≤ n)
    rw [ticks_succ_active hactive] at hmono
    omega
  obtain ⟨hzero, -⟩ := h.run_countdown hnm hd hcount.le
  rw [hcount, Nat.add_comm d, Nat.sub_self] at hzero
  exact ⟨m, hnm, hactive, hzero, hcount⟩

end Countdown

end Stuttering
