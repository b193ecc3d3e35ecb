import Mathlib.Algebra.Order.Archimedean.Basic
import Mathlib.Tactic.Linarith
import Mathlib.Tactic.Ring

/-! A value that is moved toward a goal by a fraction of the distance, again and again. -/

namespace Smoothing

variable {K : Type*} [Field K]

def toward (α x goal : K) : K := x + (goal - x) * α

variable {α x goal a b c : K}

theorem toward_eq : toward α x goal = x * (1 - α) + goal * α := by
  rw [toward]
  ring

theorem iterate_toward (n : ℕ) : (fun x => toward α x goal)^[n] x = goal - (goal - x) * (1 - α) ^ n := by
  induction n generalizing x with
  | zero => simp
  | succ n ih =>
    rw [Function.iterate_succ_apply, ih, toward, pow_succ']
    ring

variable [LinearOrder K] [IsStrictOrderedRing K]

theorem le_toward (h0 : 0 ≤ α) (h1 : α ≤ 1) (hx : a ≤ x) (hgoal : a ≤ goal) : a ≤ toward α x goal := by
  have hx' := mul_le_mul_of_nonneg_right hx (sub_nonneg.mpr h1)
  have hgoal' := mul_le_mul_of_nonneg_right hgoal h0
  rw [toward_eq]
  linarith

theorem toward_lt (h0 : 0 ≤ α) (h1 : α < 1) (hx : x < b) (hgoal : goal ≤ b) : toward α x goal < b := by
  have hx' := mul_lt_mul_of_pos_right hx (sub_pos.mpr h1)
  have hgoal' := mul_le_mul_of_nonneg_right hgoal h0
  rw [toward_eq]
  linarith

theorem iterate_toward_le (h1 : α ≤ 1) (hx : x ≤ goal) (n : ℕ) : (fun x => toward α x goal)^[n] x ≤ goal := by
  rw [iterate_toward]
  have hpow := mul_nonneg (sub_nonneg.mpr hx) (pow_nonneg (sub_nonneg.mpr h1) n)
  linarith

theorem exists_le_iterate_toward [Archimedean K] (h0 : 0 < α) (hx : x ≤ goal) (hc : c < goal) :
    ∃ n, c ≤ (fun x => toward α x goal)^[n] x := by
  rcases hx.eq_or_lt with rfl | hx
  · exact ⟨0, hc.le⟩
  have hdist : 0 < goal - x := sub_pos.mpr hx
  obtain ⟨n, hn⟩ := exists_pow_lt_of_lt_one (div_pos (sub_pos.mpr hc) hdist) (sub_lt_self 1 h0)
  refine ⟨n, ?_⟩
  rw [lt_div_iff₀ hdist] at hn
  rw [iterate_toward]
  linarith

end Smoothing
