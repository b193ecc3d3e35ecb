import Mathlib.Algebra.BigOperators.Group.List.Lemmas
import Mathlib.Algebra.Order.Ring.Nat
import Mathlib.Data.List.Basic

/-! A network that loses, doubles and reorders packets. What has been sent on it is remembered. -/

namespace Wires

variable {α : Type*}

structure Wire (α : Type*) where
  inFlight : List α := []
  sent : List α := []

namespace Wire

variable {w w' : Wire α} {x y : α} {i : ℕ} {keep : Bool}

def send (w : Wire α) (x : α) : Wire α := { inFlight := w.inFlight ++ [x], sent := w.sent ++ [x] }

/-- A packet arrives; a copy of it may still be on its way. -/
def arrive (w : Wire α) (i : ℕ) (keep : Bool) : Option (α × Wire α) := do
  let x ← w.inFlight[i]?
  some (x, if keep then w else { w with inFlight := w.inFlight.eraseIdx i })

def lose (w : Wire α) (i : ℕ) : Wire α := { w with inFlight := w.inFlight.eraseIdx i }

/-- Nothing is on its way that was not sent. -/
def Honest (w : Wire α) : Prop := ∀ x ∈ w.inFlight, x ∈ w.sent

/-- What is on its way, each packet by its weight. -/
def load (f : α → ℕ) (w : Wire α) : ℕ := (w.inFlight.map f).sum

@[simp] theorem sent_send (w : Wire α) (x : α) : (w.send x).sent = w.sent ++ [x] := rfl

@[simp] theorem sent_lose (w : Wire α) (i : ℕ) : (w.lose i).sent = w.sent := rfl

theorem sent_arrive (h : w.arrive i keep = some (x, w')) : w'.sent = w.sent := by
  obtain ⟨y, -, h⟩ := Option.bind_eq_some_iff.mp h
  obtain ⟨-, rfl⟩ := Prod.mk.inj (Option.some.inj h)
  cases keep <;> rfl

theorem Honest.send (hw : w.Honest) (x : α) : (w.send x).Honest := fun y hy =>
  (List.mem_append.mp hy).elim (fun hold => List.mem_append_left _ (hw y hold)) (List.mem_append_right _)

theorem Honest.lose (hw : w.Honest) (i : ℕ) : (w.lose i).Honest := fun y hy => hw y (List.mem_of_mem_eraseIdx hy)

theorem Honest.arrive (hw : w.Honest) (h : w.arrive i keep = some (x, w')) : x ∈ w.sent ∧ w'.Honest := by
  obtain ⟨y, hy, h⟩ := Option.bind_eq_some_iff.mp h
  obtain ⟨rfl, rfl⟩ := Prod.mk.inj (Option.some.inj h)
  refine ⟨hw y (List.mem_of_getElem? hy), ?_⟩
  cases keep
  · exact hw.lose i
  · exact hw

@[simp] theorem load_send (f : α → ℕ) (w : Wire α) (x : α) : (w.send x).load f = w.load f + f x := by
  simp [load, send]

theorem load_eraseIdx (f : α → ℕ) {l : List α} (h : l[i]? = some x) :
    ((l.eraseIdx i).map f).sum + f x = (l.map f).sum := by
  obtain ⟨hlt, rfl⟩ := List.getElem?_eq_some_iff.mp h
  rw [← ((List.getElem_cons_eraseIdx_perm hlt).map f).sum_eq, List.map_cons, List.sum_cons, add_comm]

theorem load_arrive (f : α → ℕ) (h : w.arrive i false = some (x, w')) : w'.load f + f x = w.load f := by
  obtain ⟨y, hy, h⟩ := Option.bind_eq_some_iff.mp h
  obtain ⟨rfl, rfl⟩ := Prod.mk.inj (Option.some.inj h)
  exact load_eraseIdx f hy

theorem load_lose_le (f : α → ℕ) (w : Wire α) (i : ℕ) : (w.lose i).load f ≤ w.load f := by
  cases h : w.inFlight[i]? with
  | none => rw [lose, List.eraseIdx_of_length_le (List.getElem?_eq_none_iff.mp h)]
  | some x => exact Nat.le.intro (load_eraseIdx f h)

end Wire

end Wires
