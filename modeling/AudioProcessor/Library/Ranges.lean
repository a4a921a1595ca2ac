import AudioProcessor.Library.Clocked
import Mathlib.Data.Int.ConditionallyCompleteOrder

/-!
# Signals with a declared range

A signal declared with a range holds values of a `Subrange`. What is assigned to it is an integer,
and `assign` checks it, so that a value out of the range is an error and never part of a state.

`checkedRun` is the run of a machine whose edges may raise an error, which ends the run.
`checkedRun_ok` and `checkedRun_error` say how far it goes, given an invariant that tells the edges
that go well from the others; `checkedRun_refines` relates it, as far as it goes, to the run of a
machine without checks.
-/

set_option autoImplicit false
set_option relaxedAutoImplicit false

namespace Ranges

/-! ### Assignments -/

section Assign

variable {ν : Type*} {low high value : ℤ}

/-- The values of an integer signal that is declared `range low to high`. -/
abbrev Subrange (low high : ℤ) : Type := Set.Icc low high

/-- A signal would have taken a value out of its range. -/
structure RangeError (ν : Type*) where
  signal : ν
  value : ℤ
deriving DecidableEq

/-- What a signal takes when a value is assigned to it. -/
def assign (signal : ν) (value : ℤ) : Except (RangeError ν) (Subrange low high) :=
  if h : low ≤ value ∧ value ≤ high then .ok ⟨value, h⟩ else .error ⟨signal, value⟩

theorem assign_of_mem (signal : ν) (h : value ∈ Set.Icc low high) :
    assign signal value = .ok ⟨value, h⟩ := dif_pos h

theorem assign_of_notMem (signal : ν) (h : value ∉ Set.Icc low high) :
    (assign signal value : Except _ (Subrange low high)) = .error ⟨signal, value⟩ := dif_neg h

/-- A signal that takes a value takes the one assigned to it. -/
theorem coe_of_assign {signal : ν} {taken : Subrange low high}
    (h : assign signal value = .ok taken) : (taken : ℤ) = value := by
  by_cases hmem : value ∈ Set.Icc low high
  · rw [assign_of_mem signal hmem] at h
    cases h
    rfl
  · rw [assign_of_notMem signal hmem] at h
    cases h

end Assign

/-! ### Runs that may end -/

section CheckedRun

universe u

variable {ε σ ι τ : Type*} {α β : Type u}

/-- A computation in two parts succeeds when both do. -/
theorem bind_eq_ok_iff {first : Except ε α} {next : α → Except ε β} {result : β} :
    first >>= next = .ok result ↔ ∃ a, first = .ok a ∧ next a = .ok result := by
  cases first with
  | error e =>
    constructor
    · intro h
      cases h
    · rintro ⟨_, h, -⟩
      cases h
  | ok a =>
    constructor
    · intro h
      exact ⟨a, rfl, h⟩
    · rintro ⟨_, ha, hnext⟩
      cases ha
      exact hnext

/-- The state after a number of edges, or the error that one of them raised. -/
def checkedRun (step : ι → σ → Except ε σ) (start : σ) (input : ℕ → ι) : ℕ → Except ε σ
  | 0 => .ok start
  | n + 1 => checkedRun step start input n >>= step (input n)

variable {step : ι → σ → Except ε σ} {start : σ} {input : ℕ → ι}

theorem checkedRun_succ (n : ℕ) :
    checkedRun step start input (n + 1) = checkedRun step start input n >>= step (input n) := rfl

section Progress

variable {P : ℕ → σ → Prop} {Good : ℕ → Prop}

/-- A run goes on as long as its edges are good, if these succeed and keep the invariant. -/
theorem checkedRun_ok (hstart : P 0 start)
    (hgood : ∀ n s, P n s → Good n → ∃ s', step (input n) s = .ok s' ∧ P (n + 1) s') {n : ℕ}
    (hn : ∀ m < n, Good m) : ∃ s, checkedRun step start input n = .ok s ∧ P n s := by
  induction n with
  | zero => exact ⟨start, rfl, hstart⟩
  | succ n ih =>
    obtain ⟨s, hrun, hP⟩ := ih fun m hm ↦ hn m (Nat.lt_succ_of_lt hm)
    obtain ⟨s', hstep, hP'⟩ := hgood n s hP (hn n (Nat.lt_succ_self n))
    refine ⟨s', ?_, hP'⟩
    rw [checkedRun_succ, hrun]
    exact hstep

/-- It ends with the first edge that is not, if such edges raise an error. -/
theorem checkedRun_error {e : ε} (hstart : P 0 start)
    (hgood : ∀ n s, P n s → Good n → ∃ s', step (input n) s = .ok s' ∧ P (n + 1) s')
    (hbad : ∀ n s, P n s → ¬ Good n → step (input n) s = .error e) {n : ℕ}
    (hn : ¬ ∀ m < n, Good m) : checkedRun step start input n = .error e := by
  induction n with
  | zero => exact absurd (fun m hm ↦ absurd hm (Nat.not_lt_zero m)) hn
  | succ n ih =>
    rw [checkedRun_succ]
    by_cases hbefore : ∀ m < n, Good m
    · obtain ⟨s, hrun, hP⟩ := checkedRun_ok hstart hgood hbefore
      have hlast : ¬ Good n := by
        intro hlast
        refine hn fun m hm ↦ ?_
        rcases Nat.lt_succ_iff_lt_or_eq.mp hm with hm | rfl
        · exact hbefore m hm
        · exact hlast
      rw [hrun]
      exact hbad n s hP hlast
    · rw [ih hbefore]
      rfl

end Progress

/-- As far as it goes it is the run without the checks, if every edge that succeeds is. -/
theorem checkedRun_refines {view : σ → τ} {unchecked : ι → τ → τ}
    (hstep : ∀ i s s', step i s = .ok s' → view s' = unchecked i (view s)) {n : ℕ} {s : σ}
    (hrun : checkedRun step start input n = .ok s) :
    view s = Clocked.run unchecked (view start) input n := by
  induction n generalizing s with
  | zero =>
    cases hrun
    rfl
  | succ n ih =>
    obtain ⟨t, ht, hs⟩ := bind_eq_ok_iff.mp hrun
    rw [hstep _ _ _ hs, ih ht, Clocked.run_succ]

end CheckedRun

end Ranges
