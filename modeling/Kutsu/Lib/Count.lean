import Mathlib.Algebra.BigOperators.Group.Finset.Basic
import Mathlib.Algebra.Order.Ring.Nat
import Mathlib.Data.List.Count
import Mathlib.Data.List.Perm.Subperm
import Mathlib.Tactic.Common

/-! Counting the elements of a list that meet a condition: when one of them changes, and where a sorted list passes
a bound. -/

namespace Counting

variable {α : Type*} {p : α → Bool} {l : List α} {i j : ℕ} {a b : α}

theorem countP_set (h : l[i]? = some a) :
    (l.set i b).countP p + (p a).toNat = l.countP p + (p b).toNat := by
  induction l generalizing i with
  | nil => simp at h
  | cons x xs ih =>
    cases i with
    | zero =>
      obtain rfl : x = a := by simpa using h
      rw [List.set_cons_zero, List.countP_cons, List.countP_cons]
      cases p x <;> cases p b <;> simp
    | succ i =>
      have hset := ih (i := i) (by simpa using h)
      rw [List.set_cons_succ, List.countP_cons, List.countP_cons]
      omega

theorem countP_concat : (l ++ [a]).countP p = l.countP p + (p a).toNat := by
  rw [List.countP_append, List.countP_singleton]
  cases p a <;> rfl

theorem countP_pos (h : l[i]? = some a) (ha : p a) : 1 ≤ l.countP p :=
  List.one_le_countP_iff.mpr ⟨a, List.mem_of_getElem? h, ha⟩

theorem sum_map_set (f : α → ℕ) (h : l[i]? = some a) :
    ((l.set i b).map f).sum + f a = (l.map f).sum + f b := by
  induction l generalizing i with
  | nil => simp at h
  | cons x xs ih =>
    cases i with
    | zero =>
      obtain rfl : x = a := by simpa using h
      simp only [List.set_cons_zero, List.map_cons, List.sum_cons]
      omega
    | succ i =>
      have hset := ih (i := i) (by simpa using h)
      simp only [List.set_cons_succ, List.map_cons, List.sum_cons]
      omega

theorem eq_of_countP_le_one (h : l.countP p ≤ 1) (hi : l[i]? = some a) (hj : l[j]? = some b)
    (ha : p a) (hb : p b) : i = j := by
  induction l generalizing i j with
  | nil => simp at hi
  | cons x xs ih =>
    rw [List.countP_cons] at h
    cases i with
    | zero =>
      cases j with
      | zero => rfl
      | succ j =>
        obtain rfl : x = a := by simpa using hi
        have hpos := countP_pos (l := xs) (i := j) (by simpa using hj) hb
        rw [if_pos ha] at h
        omega
    | succ i =>
      cases j with
      | zero =>
        obtain rfl : x = b := by simpa using hj
        have hpos := countP_pos (l := xs) (i := i) (by simpa using hi) ha
        rw [if_pos hb] at h
        omega
      | succ j => rw [ih (by omega) (i := i) (j := j) (by simpa using hi) (by simpa using hj)]

theorem getElem?_set_of_not (hi : l[i]? = some a) (ha : p a = false) (hj : l[j]? = some b)
    (hb : p b = true) (c : α) : (l.set i c)[j]? = some b := by
  rw [List.getElem?_set_ne, hj]
  rintro rfl
  rw [hi] at hj
  obtain rfl := Option.some.inj hj
  rw [ha] at hb
  cases hb

theorem mem_set_of_not (hi : l[i]? = some a) (ha : p a = false) (hb : b ∈ l) (hpb : p b = true)
    (c : α) : b ∈ l.set i c := by
  obtain ⟨j, hj⟩ := List.getElem?_of_mem hb
  exact List.mem_of_getElem? (getElem?_set_of_not hi ha hj hpb c)

theorem getElem?_append_some (hi : l[i]? = some a) (l' : List α) : (l ++ l')[i]? = some a := by
  rw [List.getElem?_append_left (List.getElem?_eq_some_iff.mp hi).1, hi]

theorem getElem?_concat_cases (h : (l ++ [b])[i]? = some a) :
    l[i]? = some a ∨ (i = l.length ∧ a = b) := by
  rcases Nat.lt_or_ge i l.length with hlt | hge
  · rw [List.getElem?_append_left hlt] at h
    exact Or.inl h
  · rw [List.getElem?_append_right hge] at h
    have hone : i - l.length < 1 := (List.getElem?_eq_some_iff.mp h).1
    obtain rfl : i = l.length := by omega
    rw [Nat.sub_self] at h
    exact Or.inr ⟨rfl, (Option.some.inj h).symm⟩

theorem modify_eq_set (f : α → α) (h : l[i]? = some a) : l.modify i f = l.set i (f a) := by
  induction l generalizing i with
  | nil => simp at h
  | cons x xs ih =>
    cases i with
    | zero =>
      obtain rfl : x = a := by simpa using h
      rfl
    | succ i => rw [List.modify_succ_cons, List.set_cons_succ, ih (by simpa using h)]

theorem map_set_of_eq {β : Type*} {f : α → β} (h : l[i]? = some a) (hf : f b = f a) :
    (l.set i b).map f = l.map f := by
  induction l generalizing i with
  | nil => rfl
  | cons x xs ih =>
    cases i with
    | zero =>
      obtain rfl : x = a := by simpa using h
      rw [List.set_cons_zero, List.map_cons, List.map_cons, hf]
    | succ i => rw [List.set_cons_succ, List.map_cons, List.map_cons, ih (by simpa using h)]

theorem length_le_countP {κ : Type*} (key : α → κ) {ks : List κ} (hks : ks.Nodup)
    (h : ∀ k ∈ ks, ∃ a ∈ l, p a = true ∧ key a = k) : ks.length ≤ l.countP p := by
  have hsub : ks ⊆ (l.filter p).map key := by
    intro k hk
    obtain ⟨a, ha, hpa, rfl⟩ := h k hk
    exact List.mem_map_of_mem (List.mem_filter.mpr ⟨ha, hpa⟩)
  have hlen := (List.subperm_of_subset hks hsub).length_le
  rwa [List.length_map, ← List.countP_eq_length_filter] at hlen

theorem countP_eq_sum {κ : Type*} [DecidableEq κ] (key : α → κ) {keys : ℕ → κ} (hinj : Function.Injective keys)
    {n : ℕ} (h : ∀ a ∈ l, p a = true → ∃ i < n, keys i = key a) :
    l.countP p = ∑ i ∈ Finset.range n, l.countP fun a => key a == keys i && p a := by
  induction l with
  | nil => simp
  | cons a l ih =>
    have hone : ∑ i ∈ Finset.range n, (if (key a == keys i && p a) = true then 1 else 0) =
        if p a = true then 1 else 0 := by
      cases hp : p a with
      | false => simp
      | true =>
        obtain ⟨i, hi, hkey⟩ := h a List.mem_cons_self hp
        rw [Finset.sum_eq_single i]
        · simp [hkey]
        · intro j _ hne
          have hkey' : key a ≠ keys j := fun heq => hne (hinj (heq.symm.trans hkey.symm))
          simp [hkey']
        · exact fun hno => absurd (Finset.mem_range.mpr hi) hno
    simp only [List.countP_cons, Finset.sum_add_distrib, hone]
    rw [ih fun b hb hpb => h b (List.mem_cons_of_mem _ hb) hpb]

theorem getElem_le_iff_lt_countP {β : Type*} [LinearOrder β] {l : List β} {x : β} {i : ℕ}
    (h : l.Pairwise (· ≤ ·)) (hi : i < l.length) : l[i] ≤ x ↔ i < l.countP (· ≤ x) := by
  induction l generalizing i with
  | nil => cases hi
  | cons y l ih =>
    obtain ⟨hy, hl⟩ := List.pairwise_cons.mp h
    by_cases hx : y ≤ x
    · rw [List.countP_cons_of_pos (by simpa using hx)]
      cases i with
      | zero => exact iff_of_true hx (Nat.succ_pos _)
      | succ i => exact (ih hl (Nat.lt_of_succ_lt_succ hi)).trans Nat.succ_lt_succ_iff.symm
    · have hnone : l.countP (· ≤ x) = 0 :=
        List.countP_eq_zero.mpr fun z hz hzx => hx ((hy z hz).trans (of_decide_eq_true hzx))
      rw [List.countP_cons_of_neg (by simpa using hx), hnone]
      refine iff_of_false (fun hle => hx (le_trans ?_ hle)) (Nat.not_lt_zero i)
      cases i with
      | zero => exact le_rfl
      | succ i => exact hy _ (List.getElem_mem _)

end Counting
