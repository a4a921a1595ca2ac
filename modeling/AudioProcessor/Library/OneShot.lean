import AudioProcessor.Library.Clocked

/-!
# One-shots

A retriggerable one-shot: a trigger loads its counter, and its output is high while the counter runs
down. An output that has risen stays high for the whole length (`out_of_rise`), whatever triggers
come. So an observer who has seen it low, and high some time later, sees it high again up to the
whole length after the first look (`out_of_samples`).

From rest, the output is high for the whole length after a trigger (`out_of_trigger`), and where
there was none for so long it is at rest (`rest_of_no_trigger`).
-/

set_option autoImplicit false
set_option relaxedAutoImplicit false

namespace Clocked

/-- The counter and the output. -/
@[ext]
structure OneShot where
  count : ℕ
  out : Bool

namespace OneShot

/-- A step: a trigger loads the counter and leaves the output. -/
def step (length : ℕ) (trigger : Bool) (p : OneShot) : OneShot :=
  if trigger then { p with count := length }
  else if p.count > 0 then ⟨p.count - 1, true⟩
  else { p with out := false }

variable {length : ℕ} (p : OneShot) (triggers : ℕ → Bool)

/-- A counter that has not raised the output yet was loaded just now. -/
theorem count_of_low {t : ℕ} (ht : 1 ≤ t) (hcount : 0 < (run (step length) p triggers t).count)
    (hlow : (run (step length) p triggers t).out = false) :
    (run (step length) p triggers t).count = length := by
  obtain ⟨t, rfl⟩ := Nat.exists_eq_add_of_le' ht
  rw [run_succ, step] at hcount hlow ⊢
  split_ifs at hcount hlow ⊢ with htrigger hbusy
  · rfl
  · exact absurd hcount hbusy

/-- An output that is high stays so while the counter runs down. -/
theorem out_of_count {t k : ℕ} (hhigh : (run (step length) p triggers t).out = true)
    (hcount : k ≤ (run (step length) p triggers t).count) (hlength : k ≤ length) :
    (run (step length) p triggers (t + k)).out = true := by
  induction k generalizing t with
  | zero => exact hhigh
  | succ k ih =>
    rw [Nat.add_comm k, ← Nat.add_assoc]
    have hnext : (run (step length) p triggers (t + 1)).out = true ∧
        k ≤ (run (step length) p triggers (t + 1)).count := by
      rw [run_succ, step]
      split_ifs with htrigger hbusy
      · exact ⟨hhigh, Nat.le_of_succ_le hlength⟩
      · exact ⟨rfl, Nat.le_sub_one_of_lt hcount⟩
      · exact absurd (Nat.zero_lt_of_lt hcount) hbusy
    exact ih hnext.1 hnext.2 (Nat.le_of_succ_le hlength)

/-- An output that has risen stays high for the whole length. -/
theorem out_of_rise {r k : ℕ} (hr : 1 ≤ r) (hlow : (run (step length) p triggers r).out = false)
    (hrise : (run (step length) p triggers (r + 1)).out = true) (hk : k + 1 ≤ length) :
    (run (step length) p triggers (r + 1 + k)).out = true := by
  refine out_of_count p triggers hrise ?_ (Nat.le_of_succ_le hk)
  rw [run_succ, step] at hrise ⊢
  split_ifs at hrise ⊢ with htrigger hbusy
  · exact Nat.le_of_succ_le hk
  · rw [count_of_low p triggers hr hbusy hlow]
    exact Nat.le_sub_one_of_lt hk

/-- Between a low and a high level there is a rise. -/
theorem exists_rise (level : ℕ → Bool) {a b : ℕ} (hab : a ≤ b) (hlow : level a = false)
    (hhigh : level b = true) : ∃ r, a ≤ r ∧ r < b ∧ level r = false ∧ level (r + 1) = true := by
  induction b, hab using Nat.le_induction with
  | base => exact absurd (hlow.symm.trans hhigh) Bool.false_ne_true
  | succ b hab ih =>
    cases hlast : level b with
    | false => exact ⟨b, hab, Nat.lt_succ_self b, hlast, hhigh⟩
    | true =>
      obtain ⟨r, har, hrb, hrise⟩ := ih hlast
      exact ⟨r, har, Nat.lt_succ_of_lt hrb, hrise⟩

/-- An observer who has seen the output low, and high some time later, sees it high when the whole
length has passed since the first look. -/
theorem out_of_samples {a t : ℕ} (ha : a ≤ length) (ht : 1 ≤ t)
    (hlow : (run (step length) p triggers t).out = false)
    (hhigh : (run (step length) p triggers (t + a)).out = true) :
    (run (step length) p triggers (t + length)).out = true := by
  obtain ⟨r, hfrom, hto, hbefore, hafter⟩ :=
    exists_rise (fun t ↦ (run (step length) p triggers t).out) (Nat.le_add_right t a) hlow hhigh
  have hstays := out_of_rise p triggers (ht.trans hfrom) hbefore hafter
    (k := t + length - (r + 1)) (by omega)
  rwa [show r + 1 + (t + length - (r + 1)) = t + length by omega] at hstays

/-! ### From rest -/

/-- A one-shot at rest. -/
def rest : OneShot := ⟨0, false⟩

/-- What is left on the counter tells how long ago the last trigger was at most. -/
theorem exists_trigger {t c : ℕ} (hcount : c < (run (step length) rest triggers t).count) :
    ∃ k < t, triggers k = true ∧ t + c ≤ k + length := by
  induction t generalizing c with
  | zero => exact absurd hcount (Nat.not_lt_zero c)
  | succ t ih =>
    rw [run_succ, step] at hcount
    split_ifs at hcount with htrigger hbusy
    · exact ⟨t, Nat.lt_succ_self t, htrigger, by dsimp only at hcount; omega⟩
    · obtain ⟨k, hk, htrigger, hsince⟩ := ih (Nat.lt_sub_iff_add_lt.mp hcount)
      exact ⟨k, Nat.lt_succ_of_lt hk, htrigger, by omega⟩
    · exact absurd (Nat.zero_lt_of_lt hcount) hbusy

/-- Without a trigger for long enough it is at rest. -/
theorem rest_of_no_trigger {t : ℕ}
    (hnone : ∀ k < t, t ≤ k + length + 1 → triggers k = false) :
    run (step length) rest triggers t = rest := by
  cases t with
  | zero => rfl
  | succ t =>
    have hcount : ¬ 0 < (run (step length) rest triggers t).count := fun hbusy ↦ by
      obtain ⟨k, hk, htrigger, hsince⟩ := exists_trigger triggers hbusy
      exact Bool.false_ne_true
        ((hnone k (Nat.lt_succ_of_lt hk) (Nat.succ_le_succ hsince)).symm.trans htrigger)
    rw [run_succ, step, hnone t (Nat.lt_succ_self t) (Nat.succ_le_succ (Nat.le_add_right t length)),
      if_neg Bool.false_ne_true, if_neg hcount]
    exact OneShot.ext (Nat.eq_zero_of_not_pos hcount) rfl

/-- A trigger that is not repeated at once raises the output, two steps later, for the whole length. -/
theorem out_of_trigger {t u : ℕ} (htrigger : triggers t = true) (hnext : triggers (t + 1) = false)
    (hlow : t + 2 ≤ u) (hhigh : u ≤ t + 1 + length) :
    (run (step length) p triggers u).out = true := by
  have hloaded : (run (step length) p triggers (t + 1)).count = length := by
    rw [run_succ, step, if_pos htrigger]
  have hrises : run (step length) p triggers (t + 2) = ⟨length - 1, true⟩ := by
    rw [run_succ, step, hnext, if_neg Bool.false_ne_true, hloaded, if_pos (by omega)]
  obtain ⟨k, rfl⟩ := Nat.exists_eq_add_of_le hlow
  refine out_of_count p triggers ?_ ?_ (show k ≤ length by omega)
  · rw [hrises]
  · rw [hrises]
    exact Nat.le_sub_one_of_lt (by omega)

end OneShot

end Clocked
