import Mathlib.Data.List.Range
import Mathlib.Data.List.Sort
import Mathlib.Tactic.Common

/-! The books of a buffer whose items are taken from the front and dropped from the back. Items are
numbered as they arrive; each is taken, dropped or still there, and what is taken keeps its order. -/

namespace Buffers

structure Books where
  arrived : ℕ := 0
  held : List ℕ := []
  taken : List ℕ := []
  dropped : List ℕ := []

namespace Books

def arrive (b : Books) (n : ℕ) : Books :=
  { b with arrived := b.arrived + n, held := b.held ++ List.range' b.arrived n }

def take (b : Books) (n : ℕ) : Books :=
  { b with held := b.held.drop n, taken := b.taken ++ b.held.take n }

def keep (b : Books) (n : ℕ) : Books :=
  { b with held := b.held.take n, dropped := b.dropped ++ b.held.drop n }

/-- What has been taken and what is held, in order; and every number once, wherever it is. -/
structure Sound (b : Books) : Prop where
  ordered : (b.taken ++ b.held).Pairwise (· < ·)
  once : ((b.taken ++ b.held) ++ b.dropped).Perm (List.range b.arrived)

variable {b : Books} {n : ℕ}

theorem sound_new : Sound {} := ⟨List.Pairwise.nil, List.Perm.refl _⟩

theorem sound_full (n : ℕ) : Sound { arrived := n, held := List.range n } :=
  ⟨List.pairwise_lt_range, by simp⟩

theorem Sound.lt_arrived (h : b.Sound) {k : ℕ} (hk : k ∈ b.taken ++ b.held) : k < b.arrived :=
  List.mem_range.mp (h.once.mem_iff.mp (List.mem_append_left _ hk))

theorem Sound.count (h : b.Sound) : b.arrived = b.taken.length + b.dropped.length + b.held.length := by
  have hlen := h.once.length_eq
  simp only [List.length_append, List.length_range] at hlen
  omega

theorem Sound.arrive (h : b.Sound) (n : ℕ) : (b.arrive n).Sound := by
  have hnew : (b.arrive n).taken ++ (b.arrive n).held = (b.taken ++ b.held) ++ List.range' b.arrived n :=
    (List.append_assoc ..).symm
  constructor
  · rw [hnew, List.pairwise_append]
    refine ⟨h.ordered, List.pairwise_lt_range', fun i hi j hj => ?_⟩
    exact lt_of_lt_of_le (h.lt_arrived hi) (List.mem_range'_1.mp hj).1
  · rw [hnew]
    have hrange : List.range (b.arrived + n) = List.range b.arrived ++ List.range' b.arrived n := by
      rw [List.range_eq_range', List.range_eq_range', ← List.range'_append_1, Nat.zero_add]
    have hmove : (((b.taken ++ b.held) ++ List.range' b.arrived n) ++ b.dropped).Perm
        (((b.taken ++ b.held) ++ b.dropped) ++ List.range' b.arrived n) := by
      rw [List.append_assoc, List.append_assoc (b.taken ++ b.held)]
      exact List.perm_append_comm.append_left _
    refine hmove.trans ?_
    rw [Books.arrive, hrange]
    exact h.once.append_right _

theorem Sound.take (h : b.Sound) (n : ℕ) : (b.take n).Sound := by
  have hsame : (b.take n).taken ++ (b.take n).held = b.taken ++ b.held := by
    rw [Books.take, List.append_assoc, List.take_append_drop]
  exact ⟨hsame ▸ h.ordered, by rw [hsame]; exact h.once⟩

theorem Sound.keep (h : b.Sound) (n : ℕ) : (b.keep n).Sound := by
  constructor
  · exact h.ordered.sublist ((List.take_sublist n b.held).append_left b.taken)
  · have hback : (b.taken ++ b.held.take n) ++ (b.held.drop n ++ b.dropped) = (b.taken ++ b.held) ++ b.dropped := by
      rw [← List.append_assoc, List.append_assoc b.taken, List.take_append_drop]
    exact (List.perm_append_comm.append_left _).trans (hback ▸ h.once)

/-- Nothing that had arrived by `old` has been taken since, or is held. -/
def Fresh (old b : Books) : Prop :=
  old.arrived ≤ b.arrived ∧ ∃ new, b.taken = old.taken ++ new ∧ ∀ k ∈ new ++ b.held, old.arrived ≤ k

variable {old : Books}

theorem fresh_refl (h : b.held = []) : b.Fresh b :=
  ⟨le_rfl, [], (List.append_nil _).symm, fun _ hk => by rw [h] at hk; cases hk⟩

theorem Fresh.arrive (h : old.Fresh b) (n : ℕ) : old.Fresh (b.arrive n) := by
  obtain ⟨hle, new, htaken, hnew⟩ := h
  refine ⟨hle.trans (Nat.le_add_right _ _), new, htaken, fun k hk => ?_⟩
  rw [Books.arrive, ← List.append_assoc] at hk
  rcases List.mem_append.mp hk with hk | hk
  · exact hnew k hk
  · exact hle.trans (List.mem_range'_1.mp hk).1

theorem Fresh.take (h : old.Fresh b) (n : ℕ) : old.Fresh (b.take n) := by
  obtain ⟨hle, new, htaken, hnew⟩ := h
  refine ⟨hle, new ++ b.held.take n, ?_, fun k hk => hnew k ?_⟩
  · rw [Books.take, htaken, List.append_assoc]
  · rwa [Books.take, List.append_assoc, List.take_append_drop] at hk

theorem Fresh.keep (h : old.Fresh b) (n : ℕ) : old.Fresh (b.keep n) := by
  obtain ⟨hle, new, htaken, hnew⟩ := h
  refine ⟨hle, new, htaken, fun k hk => hnew k ?_⟩
  exact ((List.take_sublist n b.held).append_left new).subset hk

end Books

end Buffers
