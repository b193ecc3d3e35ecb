import Mathlib.Algebra.Order.Ring.Nat
import Mathlib.Order.Monotone.Basic
import Mathlib.Tactic.Common

/-! Quantizers: maps that take every argument to a representative of its cell. A quantizer whose
cells are intervals is monotone. The dyadic one keeps the leading bits of a number and puts the
representative in the middle of what the rest leaves open. -/

namespace Quantizers

section General

variable {α : Type*} [LinearOrder α] {q : α → α}

/-- Representatives represent themselves, and what lies between two arguments of one cell is in it. -/
structure Quantizer (q : α → α) : Prop where
  idem : ∀ x, q (q x) = q x
  convex : ∀ {a b c}, a ≤ b → b ≤ c → q a = q c → q b = q a

theorem Quantizer.monotone (h : Quantizer q) : Monotone q := by
  intro x y hxy
  by_contra hlt
  have hlt : q y < q x := not_le.mp hlt
  rcases le_or_gt x (q y) with hx | hx
  · -- the representative of `y` would lie in the cell of `x`
    have hsame := h.convex hx hlt.le (h.idem x).symm
    rw [h.idem y] at hsame
    exact hlt.ne hsame
  · have hsame := h.convex hx.le hxy (h.idem y)
    rw [h.idem y] at hsame
    exact hlt.ne' hsame

end General

/-- The middle of the interval of width `2 ^ (k + 1)` in which `m` lies. -/
def mid (k m : ℕ) : ℕ := m / 2 ^ (k + 1) * 2 ^ (k + 1) + 2 ^ k

theorem mid_div (k m : ℕ) : mid k m / 2 ^ (k + 1) = m / 2 ^ (k + 1) := by
  have hlt : 2 ^ k < 2 ^ (k + 1) := Nat.pow_lt_pow_right (by decide) (Nat.lt_succ_self k)
  rw [mid, Nat.mul_comm, Nat.mul_add_div (Nat.two_pow_pos _), Nat.div_eq_of_lt hlt, Nat.add_zero]

theorem pred_mid_div (k m : ℕ) : (mid k m - 1) / 2 ^ (k + 1) = m / 2 ^ (k + 1) := by
  have hpos := Nat.two_pow_pos k
  have hlt : 2 ^ k - 1 < 2 ^ (k + 1) := by
    rw [Nat.pow_succ]
    omega
  rw [mid, Nat.add_sub_assoc hpos, Nat.mul_comm, Nat.mul_add_div (Nat.two_pow_pos _), Nat.div_eq_of_lt hlt,
    Nat.add_zero]

theorem mid_le (k m : ℕ) : mid k m ≤ m + 2 ^ k :=
  Nat.add_le_add_right (Nat.div_mul_le_self m _) _

theorem lt_mid (k m : ℕ) : m < mid k m + 2 ^ k := by
  have hlt := Nat.lt_div_mul_add (a := m) (Nat.two_pow_pos (k + 1))
  have hdouble : 2 ^ (k + 1) = 2 ^ k + 2 ^ k := by rw [Nat.pow_succ, Nat.mul_two]
  rw [mid]
  omega

theorem mid_congr {k m n : ℕ} (h : m / 2 ^ (k + 1) = n / 2 ^ (k + 1)) : mid k m = mid k n := by
  rw [mid, mid, h]

/-- The width may grow from interval to interval, but not inside one. -/
structure Segments (k : ℕ → ℕ) : Prop where
  const : ∀ {m n}, n / 2 ^ (k m + 1) = m / 2 ^ (k m + 1) → k n = k m

theorem Segments.congr {k : ℕ → ℕ} (h : Segments k) {m n : ℕ}
    (heq : n / 2 ^ (k m + 1) = m / 2 ^ (k m + 1)) : mid (k n) n = mid (k m) m := by
  rw [h.const heq]
  exact mid_congr heq

theorem Segments.quantizer {k : ℕ → ℕ} (h : Segments k) : Quantizer fun m => mid (k m) m := by
  have hrep : ∀ m, k (mid (k m) m) = k m := fun m => h.const (mid_div _ _)
  refine ⟨fun m => ?_, fun {a b c} hab hbc heq => ?_⟩
  · simp only [hrep]
    exact mid_congr (mid_div _ _)
  · have hk : k a = k c := by rw [← hrep a, ← hrep c, heq]
    have hcell : a / 2 ^ (k a + 1) = c / 2 ^ (k a + 1) := by
      rw [← mid_div (k a) a, heq, ← hk, mid_div]
    have hb : b / 2 ^ (k a + 1) = a / 2 ^ (k a + 1) :=
      le_antisymm (hcell ▸ Nat.div_le_div_right hbc) (Nat.div_le_div_right hab)
    exact h.congr hb

/-- `p` bits are kept after the leading one, all of them where there are no more. -/
def keep (p m : ℕ) : ℕ := Nat.log2 m - (p + 1)

theorem segments_keep (p : ℕ) : Segments (keep p) := by
  refine ⟨fun {m n} h => ?_⟩
  -- both numbers have the same leading bit, or both fit into `p + 2` bits
  have hpow : ∀ j, keep p m + 1 ≤ j → (2 ^ j ≤ n ↔ 2 ^ j ≤ m) := by
    intro j hj
    obtain ⟨d, rfl⟩ := Nat.exists_eq_add_of_le hj
    rw [Nat.pow_add, Nat.mul_comm, ← Nat.le_div_iff_mul_le (Nat.two_pow_pos _),
      ← Nat.le_div_iff_mul_le (Nat.two_pow_pos _), h]
  have hlog : ∀ j, keep p m + 1 ≤ j → (j ≤ Nat.log2 n ↔ j ≤ Nat.log2 m) := by
    intro j hj
    rcases Nat.eq_zero_or_pos n with rfl | hn
    · rcases Nat.eq_zero_or_pos m with rfl | hm
      · rfl
      · have := (hpow j hj).mpr.mt (by simp)
        rw [Nat.le_log2 hm.ne']
        simp only [Nat.log2_zero]
        omega
    · rcases Nat.eq_zero_or_pos m with rfl | hm
      · have := (hpow j hj).mp.mt (by simp)
        rw [Nat.le_log2 hn.ne']
        simp only [Nat.log2_zero]
        omega
      · rw [Nat.le_log2 hn.ne', Nat.le_log2 hm.ne']
        exact hpow j hj
  simp only [keep] at hlog ⊢
  have hone := hlog (Nat.log2 m)
  have htwo := hlog (Nat.log2 n)
  have hthree := hlog (p + 2)
  omega

theorem lead {p m : ℕ} (h : 2 ^ (p + 1) ≤ m) :
    2 ^ p ≤ m / 2 ^ (keep p m + 1) ∧ m / 2 ^ (keep p m + 1) < 2 ^ (p + 1) := by
  have hm : m ≠ 0 := by
    rintro rfl
    exact absurd h (Nat.not_le.mpr (Nat.two_pow_pos _))
  have hlog : p + 1 ≤ Nat.log2 m := (Nat.le_log2 hm).mpr h
  have hk : keep p m + 1 = Nat.log2 m - p := by
    rw [keep]
    omega
  rw [hk, Nat.le_div_iff_mul_le (Nat.two_pow_pos _), Nat.div_lt_iff_lt_mul (Nat.two_pow_pos _),
    ← Nat.pow_add, ← Nat.pow_add, show p + (Nat.log2 m - p) = Nat.log2 m by omega,
    show p + 1 + (Nat.log2 m - p) = Nat.log2 m + 1 by omega]
  exact ⟨Nat.log2_self_le hm, Nat.lt_log2_self⟩

/-- The error is a part in `2 ^ (p + 1)` of the number, or one. -/
theorem pow_keep_le {p m : ℕ} : 2 ^ (p + 1) * 2 ^ keep p m ≤ max (2 ^ (p + 1)) m := by
  rcases Nat.lt_or_ge (p + 1) (Nat.log2 m) with hlt | hge
  · have hm : m ≠ 0 := by
      rintro rfl
      simp at hlt
    rw [keep, ← Nat.pow_add, Nat.add_sub_cancel' hlt.le]
    exact (Nat.log2_self_le hm).trans (le_max_right _ _)
  · rw [keep, Nat.sub_eq_zero_of_le hge, Nat.pow_zero, Nat.mul_one]
    exact le_max_left _ _

end Quantizers
