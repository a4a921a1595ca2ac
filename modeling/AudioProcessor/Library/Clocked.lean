import Mathlib.Logic.Function.Basic
import Mathlib.Data.Nat.Nth

/-!
# Clocked machines

A clocked machine is a step function `ι → σ → σ`; edge `n` of its clock reads `input n`. `run` is
the state after a number of edges. `invariant_run` and `invariant_run_indexed` turn what one step
preserves into what every run preserves, and `simulation_run` does the same for a relation between
two machines that are clocked together.

`component_run` is about a part of the state that moves only at some of the edges, as a register
bank on a divided clock or one side of an interleaving does: seen on its own, it is a run of its
own step function, with as many steps as there were active edges (`Nat.count`) and with the inputs
present at them (`Nat.nth`).
-/

set_option autoImplicit false
set_option relaxedAutoImplicit false

namespace Clocked

variable {σ τ ι κ : Type*}

/-- The state after a number of clock edges, edge `n` reading `input n`. -/
def run (step : ι → σ → σ) (start : σ) (input : ℕ → ι) : ℕ → σ
  | 0 => start
  | n + 1 => step (input n) (run step start input n)

variable (step : ι → σ → σ) (start : σ) (input : ℕ → ι)

@[simp] theorem run_zero : run step start input 0 = start := rfl

theorem run_succ (n : ℕ) :
    run step start input (n + 1) = step (input n) (run step start input n) := rfl

/-- A run continues from where its first part ended, on the shifted inputs. -/
theorem run_add (m n : ℕ) :
    run step start input (m + n) =
      run step (run step start input m) (fun k ↦ input (m + k)) n := by
  induction n with
  | zero => rfl
  | succ n ih => rw [← Nat.add_assoc, run_succ, ih, run_succ]

/-- Between two times at which a value differs it changes. -/
theorem exists_change {α : Type*} (value : ℕ → α) {a b : ℕ} (hab : a ≤ b)
    (hdiffer : value b ≠ value a) : ∃ k, a ≤ k ∧ k < b ∧ value (k + 1) ≠ value k := by
  induction b, hab using Nat.le_induction with
  | base => exact absurd rfl hdiffer
  | succ b hab ih =>
    by_cases hlast : value (b + 1) = value b
    · obtain ⟨k, hak, hkb, hchange⟩ := ih (hlast ▸ hdiffer)
      exact ⟨k, hak, Nat.lt_succ_of_lt hkb, hchange⟩
    · exact ⟨b, hab, Nat.lt_succ_self b, hlast⟩

variable {step start input}

/-- What holds at the start and is preserved by every edge holds along the run; the invariant may
mention how many edges have passed. -/
theorem invariant_run_indexed {Inv : ℕ → σ → Prop} (hstart : Inv 0 start)
    (hstep : ∀ n s, Inv n s → Inv (n + 1) (step (input n) s)) (n : ℕ) :
    Inv n (run step start input n) := by
  induction n with
  | zero => exact hstart
  | succ n ih => exact hstep n _ ih

/-- What holds at the start and is preserved by every step holds along every run. -/
theorem invariant_run {Inv : σ → Prop} (hstart : Inv start)
    (hstep : ∀ i s, Inv s → Inv (step i s)) (n : ℕ) : Inv (run step start input n) := by
  have hindexed : ∀ n s, Inv s → Inv (step (input n) s) := fun n s ↦ hstep (input n) s
  exact invariant_run_indexed hstart hindexed n

/-- Two machines clocked together stay related when one edge of both keeps them related. -/
theorem simulation_run {other : κ → τ → τ} {origin : τ} {inputs : ℕ → κ} {R : σ → τ → Prop}
    (hstart : R start origin)
    (hstep : ∀ n s t, R s t → R (step (input n) s) (other (inputs n) t)) (n : ℕ) :
    R (run step start input n) (run other origin inputs n) := by
  induction n with
  | zero => exact hstart
  | succ n ih => exact hstep n _ _ ih

/-- A component that takes one step of its own at every active edge and rests at the others is,
after `n` edges, a run of its own: one step for each active edge so far, each reading what was
present at that edge. -/
theorem component_run (view : σ → τ) (component : κ → τ → τ) (seen : ℕ → κ) (active : ℕ → Prop)
    [DecidablePred active]
    (hactive : ∀ n, active n → view (run step start input (n + 1)) =
      component (seen n) (view (run step start input n)))
    (hrest : ∀ n, ¬ active n → view (run step start input (n + 1)) =
      view (run step start input n)) (n : ℕ) :
    view (run step start input n) =
      run component (view start) (fun i ↦ seen (Nat.nth active i)) (Nat.count active n) := by
  induction n with
  | zero => simp
  | succ n ih =>
    by_cases hn : active n
    · rw [hactive n hn, ih, Nat.count_succ, if_pos hn, run_succ, Nat.nth_count hn]
    · rw [hrest n hn, ih, Nat.count_succ, if_neg hn, Nat.add_zero]

end Clocked
