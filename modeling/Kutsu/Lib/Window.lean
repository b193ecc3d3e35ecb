import Mathlib.Data.List.DropRight
import Mathlib.Tactic.Common

/-! Sliding over a growing list: the last few elements, how many of the last ones in a row meet
a condition, and the segments between separators. -/

namespace Windows

variable {α : Type*} {p : α → Bool} {l : List α} {a : α} {n : ℕ}

/-- A window that takes the next element and drops what is over its width holds the last
elements of what it has been given. -/
theorem rtake_concat (l : List α) (a : α) (n : ℕ) :
    (l.rtake n ++ [a]).rtake n = (l ++ [a]).rtake n := by
  simp only [List.rtake_eq_reverse_take_reverse, List.reverse_append, List.reverse_reverse, List.reverse_singleton,
    List.singleton_append]
  cases n with
  | zero => rfl
  | succ n => rw [List.take_succ_cons, List.take_succ_cons, List.take_take, Nat.min_eq_left (Nat.le_succ n)]

theorem length_rtake (l : List α) (n : ℕ) : (l.rtake n).length = min n l.length := by
  rw [List.rtake, List.length_drop]
  omega

/-- The number of last elements in a row that meet the condition. -/
def streak (p : α → Bool) (l : List α) : ℕ := (l.rtakeWhile p).length

theorem streak_nil : streak p [] = 0 := rfl

theorem streak_concat : streak p (l ++ [a]) = if p a then streak p l + 1 else 0 := by
  rw [streak, List.rtakeWhile_concat]
  split_ifs
  · rw [List.length_append]
    rfl
  · rfl

theorem le_streak_iff : n ≤ streak p l ↔ n ≤ l.length ∧ ∀ a ∈ l.rtake n, p a = true := by
  induction l using List.reverseRecOn generalizing n with
  | nil =>
    rw [streak_nil]
    exact ⟨fun h => ⟨h, by simp⟩, fun h => h.1⟩
  | append_singleton l a ih =>
    cases n with
    | zero => simp
    | succ n =>
      rw [streak_concat, List.rtake_concat_succ, List.length_append, List.length_singleton, Nat.succ_le_succ_iff,
        List.forall_mem_append, List.forall_mem_singleton]
      split_ifs with ha
      · rw [Nat.succ_le_succ_iff, ih, and_iff_left ha]
      · exact iff_of_false (Nat.not_succ_le_zero n) fun h => ha h.2.2

theorem forall_prefix_concat {P : List α → α → Prop} :
    (∀ pre b, pre ++ [b] <+: l ++ [a] → P pre b) ↔ (∀ pre b, pre ++ [b] <+: l → P pre b) ∧ P l a := by
  constructor
  · intro h
    exact ⟨fun pre b hpre => h pre b (hpre.trans (List.prefix_append l [a])), h l a (List.prefix_refl _)⟩
  · rintro ⟨hold, hnew⟩ pre b hpre
    rcases List.prefix_concat_iff.mp hpre with heq | hpre
    · obtain ⟨rfl, hb⟩ := List.append_inj' heq rfl
      obtain rfl := List.singleton_inj.mp hb
      exact hnew
    · exact hold pre b hpre

theorem exists_split_concat {Q : List α → α → List α → Prop} :
    (∃ before b after, l ++ [a] = before ++ b :: after ∧ Q before b after) ↔
      Q l a [] ∨ ∃ before b after, l = before ++ b :: after ∧ Q before b (after ++ [a]) := by
  constructor
  · rintro ⟨before, b, after, heq, hq⟩
    rcases List.eq_nil_or_concat after with rfl | ⟨after, c, rfl⟩
    · obtain ⟨rfl, hb⟩ := List.append_inj' heq rfl
      obtain rfl := List.singleton_inj.mp hb
      exact Or.inl hq
    · rw [List.concat_eq_append, ← List.cons_append, ← List.append_assoc] at heq
      obtain ⟨rfl, hc⟩ := List.append_inj' heq rfl
      obtain rfl := List.singleton_inj.mp hc
      exact Or.inr ⟨before, b, after, rfl, List.concat_eq_append ▸ hq⟩
  · rintro (hq | ⟨before, b, after, rfl, hq⟩)
    · exact ⟨l, a, [], rfl, hq⟩
    · exact ⟨before, b, after ++ [a], by simp, hq⟩

theorem exists_splitOnP_concat (p : α → Bool) (l : List α) : ∃ segs seg, l.splitOnP p = segs ++ [seg] :=
  ⟨_, _, (List.dropLast_append_getLast (List.splitOnP_ne_nil p l)).symm⟩

theorem splitOnP_concat {segs : List (List α)} {seg : List α} (h : l.splitOnP p = segs ++ [seg]) (a : α) :
    (l ++ [a]).splitOnP p = if p a then segs ++ [seg] ++ [[]] else segs ++ [seg ++ [a]] := by
  induction l generalizing segs seg with
  | nil =>
    rw [List.splitOnP_nil] at h
    obtain ⟨rfl, hseg⟩ := List.append_inj' (show [] ++ [[]] = segs ++ [seg] from h) rfl
    obtain rfl := List.singleton_inj.mp hseg
    rw [List.nil_append, List.splitOnP_cons_eq_if_modifyHead, List.splitOnP_nil]
    rfl
  | cons x l ih =>
    obtain ⟨segs', seg', hl⟩ := exists_splitOnP_concat p l
    rw [List.splitOnP_cons_eq_if_modifyHead, hl] at h
    rw [List.cons_append, List.splitOnP_cons_eq_if_modifyHead, ih hl]
    by_cases hx : p x = true
    · rw [if_pos hx, ← List.cons_append] at h
      obtain ⟨rfl, hseg⟩ := List.append_inj' h rfl
      obtain rfl := List.singleton_inj.mp hseg
      rw [if_pos hx]
      split_ifs <;> rfl
    · rw [if_neg hx] at h ⊢
      cases segs' with
      | nil =>
        obtain ⟨rfl, hseg⟩ := List.append_inj' (show [] ++ [x :: seg'] = segs ++ [seg] from h) rfl
        obtain rfl := List.singleton_inj.mp hseg
        split_ifs <;> rfl
      | cons y ys =>
        obtain ⟨rfl, hseg⟩ := List.append_inj' (show (x :: y) :: ys ++ [seg'] = segs ++ [seg] from h) rfl
        obtain rfl := List.singleton_inj.mp hseg
        split_ifs <;> rfl

end Windows
