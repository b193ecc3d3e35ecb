import Mathlib.Algebra.Ring.Nat
import Mathlib.Data.List.Basic
import Mathlib.Tactic.Common

/-! Decimal numerals compared as texts. Numerals of one length are in the order of their numbers; of two lengths the
shorter one is compared with the leading digits of the other. -/

namespace Numerals

variable {α : Type*} [LT α] {xs ys us vs : List α} {m n k : ℕ}

theorem append_lt_append_iff (h : xs.length = ys.length) : xs ++ us < ys ++ vs ↔ xs < ys ∨ xs = ys ∧ us < vs := by
  induction xs generalizing ys with
  | nil =>
    obtain rfl := List.length_eq_zero_iff.mp h.symm
    simp
  | cons x xs ih =>
    cases ys with
    | nil => cases h
    | cons y ys =>
      rw [List.cons_append, List.cons_append, List.cons_lt_cons_iff, List.cons_lt_cons_iff, ih (Nat.succ.inj h),
        List.cons.injEq]
      tauto

theorem singleton_lt_singleton {a b : α} : [a] < [b] ↔ a < b := by
  rw [List.cons_lt_cons_iff]
  simp

theorem toDigits_inj : Nat.toDigits 10 m = Nat.toDigits 10 n ↔ m = n := by
  refine ⟨fun h => ?_, fun h => h ▸ rfl⟩
  rw [← @Nat.ofDigitChars_ten_toDigits m, h, Nat.ofDigitChars_ten_toDigits]

theorem digitChar_lt_iff (hm : m < 10) (hn : n < 10) : m.digitChar < n.digitChar ↔ m < n := by
  have h : ∀ a < 10, ∀ b < 10, a.digitChar < b.digitChar ↔ a < b := by decide
  exact h m hm n hn

theorem length_of_base_le (h : 10 ≤ n) : (Nat.toDigits 10 n).length = (Nat.toDigits 10 (n / 10)).length + 1 := by
  rw [Nat.toDigits_of_base_le (by decide) h, List.length_append, List.length_singleton]

theorem toDigits_lt_toDigits_iff (h : (Nat.toDigits 10 m).length = (Nat.toDigits 10 n).length) :
    Nat.toDigits 10 m < Nat.toDigits 10 n ↔ m < n := by
  induction m using Nat.strong_induction_on generalizing n with
  | _ m ih =>
    have hm := Nat.mod_lt m (by decide : 0 < 10)
    have hn := Nat.mod_lt n (by decide : 0 < 10)
    rcases lt_or_ge m 10 with hm10 | hm10
    · rcases lt_or_ge n 10 with hn10 | hn10
      · rw [Nat.toDigits_of_lt_base hm10, Nat.toDigits_of_lt_base hn10, singleton_lt_singleton]
        exact digitChar_lt_iff hm10 hn10
      · rw [Nat.toDigits_of_lt_base hm10, length_of_base_le hn10, List.length_singleton] at h
        have := @Nat.length_toDigits_pos 10 (n / 10)
        omega
    · rcases lt_or_ge n 10 with hn10 | hn10
      · rw [Nat.toDigits_of_lt_base hn10, length_of_base_le hm10, List.length_singleton] at h
        have := @Nat.length_toDigits_pos 10 (m / 10)
        omega
      · rw [length_of_base_le hm10, length_of_base_le hn10] at h
        have hlen := Nat.succ.inj h
        rw [Nat.toDigits_of_base_le (by decide) hm10, Nat.toDigits_of_base_le (by decide) hn10,
          append_lt_append_iff hlen, ih (m / 10) (by omega) hlen, toDigits_inj, singleton_lt_singleton,
          digitChar_lt_iff hm hn]
        omega

theorem toDigits_eq_append (h : 10 ^ k ≤ n) :
    ∃ tail, tail.length = k ∧ Nat.toDigits 10 n = Nat.toDigits 10 (n / 10 ^ k) ++ tail := by
  induction k generalizing n with
  | zero => exact ⟨[], rfl, by simp⟩
  | succ k ih =>
    rw [Nat.pow_succ] at h
    have hn : 10 ≤ n := le_trans (Nat.le_mul_of_pos_left 10 (Nat.pow_pos (by decide))) h
    obtain ⟨tail, htail, hdigits⟩ := ih ((Nat.le_div_iff_mul_le (by decide)).mpr h)
    refine ⟨tail ++ [Nat.digitChar (n % 10)], by simp [htail], ?_⟩
    rw [Nat.toDigits_of_base_le (by decide) hn, hdigits, Nat.div_div_eq_div_mul, List.append_assoc, Nat.pow_succ,
      Nat.mul_comm]

theorem length_mono (h : m ≤ n) : (Nat.toDigits 10 m).length ≤ (Nat.toDigits 10 n).length := by
  have hn := (Nat.length_toDigits_le_iff (n := n) (by decide : 1 < 10) Nat.length_toDigits_pos).mp le_rfl
  exact (Nat.length_toDigits_le_iff (by decide) Nat.length_toDigits_pos).mpr (lt_of_le_of_lt h hn)

theorem pow_le_of_lt_length (h : k < (Nat.toDigits 10 n).length) (hn : 0 < n) : 10 ^ k ≤ n := by
  rcases Nat.eq_zero_or_pos k with rfl | hk
  · exact hn
  · exact not_lt.mp fun hlt => absurd ((Nat.length_toDigits_le_iff (by decide) hk).mpr hlt) (not_le.mpr h)

/-- The smaller of two numbers comes first as a text, too, unless the other's leading digits, as many as it has, are
smaller. -/
theorem toDigits_lt_iff (h : m < n) : Nat.toDigits 10 m < Nat.toDigits 10 n ↔
    m ≤ n / 10 ^ ((Nat.toDigits 10 n).length - (Nat.toDigits 10 m).length) := by
  have hmono := length_mono (Nat.le_of_lt h)
  have hpos := @Nat.length_toDigits_pos 10 m
  set k := (Nat.toDigits 10 n).length - (Nat.toDigits 10 m).length with hk
  obtain ⟨tail, htail, hdigits⟩ := toDigits_eq_append (pow_le_of_lt_length (by omega : k < _) (Nat.zero_lt_of_lt h))
  have hlen := congrArg List.length hdigits
  rw [List.length_append, htail] at hlen
  have hsame : (Nat.toDigits 10 m).length = (Nat.toDigits 10 (n / 10 ^ k)).length := by omega
  have hlt : Nat.toDigits 10 m < Nat.toDigits 10 n ↔ m < n / 10 ^ k ∨ m = n / 10 ^ k ∧ [] < tail := by
    rw [hdigits]
    conv_lhs => rw [← List.append_nil (Nat.toDigits 10 m)]
    rw [append_lt_append_iff hsame, toDigits_lt_toDigits_iff hsame, toDigits_inj]
  rw [hlt, le_iff_lt_or_eq]
  refine or_congr_right ⟨And.left, fun heq => ⟨heq, ?_⟩⟩
  cases tail with
  | nil =>
    rw [← htail, List.length_nil, Nat.pow_zero, Nat.div_one] at heq
    omega
  | cons c tail => exact List.nil_lt_cons c tail

end Numerals
