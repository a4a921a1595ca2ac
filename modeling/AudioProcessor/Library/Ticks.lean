import Mathlib.Data.Nat.Nth

/-!
# Ticks

Some inputs of a run are active: the edges of one of several clocks, or the steps of one of several
machines that take turns. `ticks` counts the active inputs before a time, and `tickTime` is the time
of each of them. Where they do not stop (`Endless`) every number is that of a tick
(`Endless.ticks_tickTime`).
-/

set_option autoImplicit false
set_option relaxedAutoImplicit false

namespace Clocked

variable {ι : Type*} (active : ι → Prop) (input : ℕ → ι)

/-- The time of active input `k`. -/
noncomputable def tickTime (k : ℕ) : ℕ := Nat.nth (fun n ↦ active (input n)) k

/-- What happens more often than any number happens again and again. -/
theorem infinite_of_count {p : ℕ → Prop} [DecidablePred p] (h : ∀ k, ∃ n, k ≤ Nat.count p n) :
    (Set.ofPred p).Infinite := by
  intro hfinite
  obtain ⟨n, hn⟩ := h (hfinite.toFinset.card + 1)
  exact absurd (hn.trans (Nat.count_le_card hfinite n)) (Nat.not_succ_le_self _)

variable [DecidablePred active]

/-- The active inputs before a time. -/
def ticks (n : ℕ) : ℕ := Nat.count (fun n ↦ active (input n)) n

/-- The active inputs do not stop. -/
def Endless : Prop := ∀ k, ∃ n, k ≤ ticks active input n

theorem ticks_zero : ticks active input 0 = 0 := Nat.count_zero _

theorem ticks_mono : Monotone (ticks active input) := Nat.count_monotone _

variable {active input} {n : ℕ}

theorem ticks_succ_active (hn : active (input n)) :
    ticks active input (n + 1) = ticks active input n + 1 := by
  rw [ticks, Nat.count_succ, if_pos hn, ticks]

theorem ticks_succ_rest (hn : ¬ active (input n)) :
    ticks active input (n + 1) = ticks active input n := by
  rw [ticks, Nat.count_succ, if_neg hn, Nat.add_zero, ticks]

/-- An active input is at the time of its number. -/
theorem tickTime_ticks (hn : active (input n)) :
    tickTime active input (ticks active input n) = n :=
  Nat.nth_count (p := fun n ↦ active (input n)) hn

/-- Each tick that has passed has its time. -/
theorem exists_tick {k : ℕ} (hk : k < ticks active input n) :
    ∃ m < n, active (input m) ∧ ticks active input m = k := by
  induction n with
  | zero => exact absurd hk (by rw [ticks_zero]; exact Nat.not_lt_zero k)
  | succ n ih =>
    by_cases hearlier : k < ticks active input n
    · obtain ⟨m, hm, htick⟩ := ih hearlier
      exact ⟨m, Nat.lt_succ_of_lt hm, htick⟩
    · by_cases hn : active (input n)
      · rw [ticks_succ_active hn] at hk
        exact ⟨n, Nat.lt_succ_self n, hn, by omega⟩
      · rw [ticks_succ_rest hn] at hk
        exact absurd hk hearlier

theorem Endless.active_tickTime (h : Endless active input) (k : ℕ) :
    active (input (tickTime active input k)) := Nat.nth_mem_of_infinite (infinite_of_count h) k

theorem Endless.ticks_tickTime (h : Endless active input) (k : ℕ) :
    ticks active input (tickTime active input k) = k :=
  Nat.count_nth_of_infinite (infinite_of_count h) k

end Clocked
