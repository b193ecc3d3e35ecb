import Mathlib.Data.List.Basic
import Mathlib.Tactic.Common

/-! A bounded channel with one sender and one reader. What the sender has committed to
send waits until there is room; what has been read is remembered. Nothing is lost,
doubled or reordered on the way. -/

namespace Pipes

variable {α : Type*}

structure Pipe (α : Type*) where
  waiting : List α := []
  queued : List α := []
  read : List α := []

namespace Pipe

variable {p q : Pipe α} {x : α} {xs : List α}

/-- The sender commits to sending `xs`. -/
def offer (p : Pipe α) (xs : List α) : Pipe α := { p with waiting := p.waiting ++ xs }

/-- The first waiting item is accepted, if there is room for it. -/
def accept (cap : ℕ) (p : Pipe α) : Option (Pipe α) :=
  match p.waiting with
  | x :: waiting =>
    if p.queued.length < cap then some { p with waiting, queued := p.queued ++ [x] } else none
  | [] => none

/-- The first waiting item is thrown away: there is no reader any more. -/
def discard (p : Pipe α) : Option (Pipe α) :=
  match p.waiting with
  | _ :: waiting => some { p with waiting }
  | [] => none

def recv (p : Pipe α) : Option (α × Pipe α) :=
  match p.queued with
  | x :: queued => some (x, { p with queued, read := p.read ++ [x] })
  | [] => none

/-- A sender that does not wait: what finds no room is thrown away. -/
def trySend (cap : ℕ) (p : Pipe α) (x : α) : Pipe α :=
  if p.queued.length < cap then { p with queued := p.queued ++ [x] } else p

/-- Everything the sender has committed to, in order. -/
def sent (p : Pipe α) : List α := p.read ++ (p.queued ++ p.waiting)

@[simp] theorem sent_offer : (p.offer xs).sent = p.sent ++ xs := by
  simp [sent, offer]

theorem accept_spec {cap : ℕ} (h : p.accept cap = some q) :
    q.sent = p.sent ∧ q.read = p.read ∧ ∃ x, p.waiting = x :: q.waiting ∧ q.queued = p.queued ++ [x] := by
  unfold accept at h
  split at h
  · rename_i x waiting hw
    split_ifs at h
    obtain rfl := Option.some.inj h
    exact ⟨by simp [sent, hw], rfl, x, hw, rfl⟩
  · cases h

theorem recv_spec (h : p.recv = some (x, q)) :
    q.sent = p.sent ∧ q.read = p.read ++ [x] ∧ q.waiting = p.waiting ∧ p.queued = x :: q.queued := by
  unfold recv at h
  split at h
  · rename_i y queued hq
    obtain ⟨rfl, rfl⟩ := Prod.mk.inj (Option.some.inj h)
    exact ⟨by simp [sent, hq], rfl, rfl, hq⟩
  · cases h

theorem waiting_of_discard (h : p.discard = some q) : p.waiting ≠ [] := by
  unfold discard at h
  split at h
  · rename_i hw
    simp [hw]
  · cases h

theorem discard_spec (h : p.discard = some q) :
    q.read = p.read ∧ q.queued = p.queued ∧ q.waiting = p.waiting.tail := by
  unfold discard at h
  split at h
  · rename_i hw
    obtain rfl := Option.some.inj h
    exact ⟨rfl, rfl, by rw [hw]; rfl⟩
  · cases h

/-- The sender waits, and there is no room for what it sends. -/
def Blocked (cap : ℕ) (p : Pipe α) : Prop := p.waiting ≠ [] ∧ cap ≤ p.queued.length

/-- A blocked sender waits for the reader. -/
theorem Blocked.accept {cap : ℕ} (h : p.Blocked cap) : p.accept cap = none := by
  unfold Pipe.accept
  split
  · rw [if_neg (Nat.not_lt.mpr h.2)]
  · rfl

theorem exists_accept {cap : ℕ} (hw : p.waiting ≠ []) (h : ¬ p.Blocked cap) : ∃ q, p.accept cap = some q := by
  have hroom : p.queued.length < cap := Nat.lt_of_not_le fun hle => h ⟨hw, hle⟩
  unfold Pipe.accept
  split
  · exact ⟨_, if_pos hroom⟩
  · contradiction

theorem exists_discard (hw : p.waiting ≠ []) : ∃ q, p.discard = some q ∧ q.waiting = p.waiting.tail := by
  unfold discard
  split
  · rename_i heq
    exact ⟨_, rfl, by rw [heq]; rfl⟩
  · contradiction

theorem queued_subset_sent (h : x ∈ p.queued) : x ∈ p.sent := by
  simp [sent, h]

theorem read_eq_sent_of_last {l : List α} (hsent : p.sent = l ++ [x]) (hx : x ∉ l) (hread : x ∈ p.read) :
    p.read = p.sent := by
  cases hrest : p.queued ++ p.waiting with
  | nil => simp [sent, hrest]
  | cons y ys =>
    -- otherwise what has been read lies before the last item
    have hpre : p.read <+: l := by
      have hcat : p.read ++ (y :: ys) = l ++ [x] := by rw [← hrest]; exact hsent
      refine List.prefix_of_prefix_length_le ⟨_, hcat⟩ (List.prefix_append l [x]) ?_
      have hlen := congrArg List.length hcat
      simp only [List.length_append, List.length_cons, List.length_nil] at hlen
      omega
    exact absurd (hpre.subset hread) hx

end Pipe

end Pipes
