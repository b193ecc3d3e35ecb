import Mathlib.Data.Nat.Notation
import Mathlib.Tactic.Common

/-! The circuit breaker of the shared Gemini leg (`breaker.rs`). -/

namespace Kutsu

/-- `saturating_add` on `u64` and `u32`. -/
def satAdd64 (a b : ℕ) : ℕ := min (a + b) (UInt64.size - 1)

def satAdd32 (a b : ℕ) : ℕ := min (a + b) (UInt32.size - 1)

inductive Decision where
  | dispatch
  | probe
  | hold (untilMs : ℕ)
  deriving DecidableEq

structure Breaker where
  threshold : ℕ
  cooldownMs : ℕ
  consecFailures : ℕ := 0
  openUntilMs : ℕ := 0
  probeInFlight : Bool := false
  probeDeadlineMs : ℕ := 0
  deriving DecidableEq

namespace Breaker

def new (threshold cooldownMs : ℕ) : Breaker := { threshold, cooldownMs }

def decision (b : Breaker) (now : ℕ) : Decision :=
  if b.threshold = 0 then .dispatch
  else if b.openUntilMs = 0 then .dispatch
  else if now < b.openUntilMs then .hold b.openUntilMs
  else if b.probeInFlight ∧ now < b.probeDeadlineMs then .hold b.probeDeadlineMs
  else .probe

def markProbeDispatched (b : Breaker) (now windowMs : ℕ) : Breaker :=
  { b with probeInFlight := true, probeDeadlineMs := satAdd64 now windowMs }

/-- `on_result` up to its wake of the dispatcher, which `reports` tells of. -/
def onResult (b : Breaker) (ok : Bool) (now : ℕ) : Breaker :=
  if b.threshold = 0 then b
  else if ok then { b with probeInFlight := false, consecFailures := 0, openUntilMs := 0 }
  else if b.threshold ≤ satAdd32 b.consecFailures 1 then
    { b with probeInFlight := false, consecFailures := satAdd32 b.consecFailures 1,
             openUntilMs := satAdd64 now b.cooldownMs }
  else { b with probeInFlight := false, consecFailures := satAdd32 b.consecFailures 1 }

/-- Whether `on_result` wakes the dispatcher. -/
def reports (b : Breaker) : Bool := b.threshold ≠ 0

@[simp] theorem markProbeDispatched_threshold (b : Breaker) (now w : ℕ) :
    (b.markProbeDispatched now w).threshold = b.threshold := rfl

@[simp] theorem onResult_threshold (b : Breaker) (ok : Bool) (now : ℕ) :
    (b.onResult ok now).threshold = b.threshold := by
  unfold onResult; split_ifs <;> rfl

theorem lt_of_decision_hold {b : Breaker} {now t : ℕ} (h : b.decision now = .hold t) : now < t := by
  unfold decision at h
  split_ifs at h with _ _ hopen hprobe
  · obtain rfl := Decision.hold.inj h; exact hopen
  · obtain rfl := Decision.hold.inj h; exact hprobe.2

theorem decision_eq_probe {b : Breaker} {now : ℕ} :
    b.decision now = .probe ↔ b.threshold ≠ 0 ∧ b.openUntilMs ≠ 0 ∧ b.openUntilMs ≤ now ∧
      (b.probeInFlight = true → b.probeDeadlineMs ≤ now) := by
  unfold decision
  split_ifs with hth hopen hbefore hprobe
  · simp [hth]
  · simp [hopen]
  · exact iff_of_false (by simp) fun h => absurd h.2.2.1 (Nat.not_le.mpr hbefore)
  · exact iff_of_false (by simp) fun h => absurd (h.2.2.2 hprobe.1) (Nat.not_le.mpr hprobe.2)
  · exact iff_of_true rfl ⟨hth, hopen, Nat.le_of_not_lt hbefore,
      fun h => Nat.le_of_not_lt fun hlt => hprobe ⟨h, hlt⟩⟩

end Breaker

end Kutsu
