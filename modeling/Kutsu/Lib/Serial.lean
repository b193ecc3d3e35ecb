import Mathlib.Data.Nat.ModEq
import Mathlib.Order.Interval.Finset.Nat
import Mathlib.Tactic.Common

/-! Serial numbers: numbers of which only the residue modulo `M` is seen, and what of a range of
them has not been seen. -/

namespace Serial

/-- How far up the residue `s` lies from the residue `r`. -/
def ahead (M r s : ℕ) : ℕ := (M - r + s) % M

variable {M m k a : ℕ} {l : List ℕ}

theorem ahead_up (hk : k < M) : ahead M (m % M) ((m + k) % M) = k := by
  have hlt : m % M < M := Nat.mod_lt m (by omega)
  rw [ahead, Nat.add_mod m k M, Nat.mod_eq_of_lt hk, Nat.add_mod_mod, ← Nat.add_assoc, Nat.sub_add_cancel hlt.le,
    Nat.add_mod_left, Nat.mod_eq_of_lt hk]

theorem ahead_down (hk : 0 < k) (hkM : k < M) : ahead M ((m + k) % M) (m % M) = M - k := by
  have hlt : m % M < M := Nat.mod_lt m (by omega)
  rw [ahead, Nat.add_mod m k M, Nat.mod_eq_of_lt hkM]
  by_cases hwrap : m % M + k < M
  · rw [Nat.mod_eq_of_lt hwrap, show M - (m % M + k) + m % M = M - k by omega]
    exact Nat.mod_eq_of_lt (by omega)
  · have hfall : (m % M + k) % M = m % M + k - M := by
      rw [Nat.mod_eq_sub_mod (not_lt.mp hwrap), Nat.mod_eq_of_lt (show m % M + k - M < M by omega)]
    rw [hfall, show M - (m % M + k - M) + m % M = M - k + M by omega, Nat.add_mod_right]
    exact Nat.mod_eq_of_lt (by omega)

/-- Going up by less than `M`, the residue falls exactly when a multiple of `M` is passed. -/
theorem div_up (hk : k < M) : (m + k) / M = if (m + k) % M < m % M then m / M + 1 else m / M := by
  have hlt : m % M < M := Nat.mod_lt m (by omega)
  have hkk : k % M = k := Nat.mod_eq_of_lt hk
  have hkd : k / M = 0 := Nat.div_eq_of_lt hk
  by_cases hwrap : m % M + k % M < M
  · rw [Nat.add_mod_of_add_mod_lt hwrap, Nat.add_div_eq_of_add_mod_lt hwrap, if_neg (by omega), hkd, Nat.add_zero]
  · have hle : M ≤ m % M + k % M := by omega
    have hres := Nat.add_mod_add_of_le_add_mod hle
    rw [Nat.add_div_eq_of_le_mod_add_mod hle (by omega), if_pos (by omega), hkd, Nat.add_zero]

/-- The numbers from `a` to `m` that are not in the list. -/
def missing (a m : ℕ) (l : List ℕ) : Finset ℕ := (Finset.Icc a m).filter (· ∉ l)

theorem card_missing (h : ∀ e ∈ l, a ≤ e ∧ e ≤ m) : (missing a m l).card + l.dedup.length = m + 1 - a := by
  have hseen : (Finset.Icc a m).filter (· ∈ l) = l.toFinset := by
    ext e
    rw [Finset.mem_filter, List.mem_toFinset, Finset.mem_Icc, and_iff_right_of_imp (h e)]
  have hcount := Finset.card_filter_add_card_filter_not (s := Finset.Icc a m) (· ∈ l)
  rw [hseen, List.card_toFinset, Nat.card_Icc] at hcount
  rw [missing]
  omega

/-- How many entries of the list repeat another one. -/
def repeats (l : List ℕ) : ℕ := l.length - l.dedup.length

theorem length_eq_dedup : l.length = l.dedup.length + repeats l := by
  have hle : l.dedup.length ≤ l.length := (List.dedup_sublist l).length_le
  rw [repeats]
  omega

theorem repeats_eq_zero_iff : repeats l = 0 ↔ l.Nodup := by
  have hsub := List.dedup_sublist l
  rw [repeats, Nat.sub_eq_zero_iff_le]
  constructor
  · intro h
    rw [← List.dedup_eq_self]
    exact hsub.eq_of_length_le h
  · intro h
    rw [List.dedup_eq_self.mpr h]

end Serial
