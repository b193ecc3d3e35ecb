import Kutsu.Model.Breaker

/-! The breaker against what its history asks for. Its four fields are read off the calls so far: the failures
since the last success, the time of the last failure and the probe marked since the last result. -/

namespace Kutsu

inductive BreakerCall where
  | onResult (ok : Bool) (now : ℕ)
  | markProbeDispatched (now windowMs : ℕ)

def BreakerCall.apply (b : Breaker) : BreakerCall → Breaker
  | .onResult ok now => b.onResult ok now
  | .markProbeDispatched now windowMs => b.markProbeDispatched now windowMs

namespace Breaker

/-! The histories below have the latest call first. -/

/-- The failures since the last success, or since the start. -/
def failures : List BreakerCall → ℕ
  | [] => 0
  | .onResult true _ :: _ => 0
  | .onResult false _ :: past => failures past + 1
  | .markProbeDispatched _ _ :: past => failures past

def lastFailure : List BreakerCall → ℕ
  | [] => 0
  | .onResult false now :: _ => now
  | _ :: past => lastFailure past

/-- The deadline of the latest probe marked after the last result. -/
def probeDeadline : List BreakerCall → Option ℕ
  | [] => none
  | .onResult _ _ :: _ => none
  | .markProbeDispatched now windowMs :: _ => some (satAdd64 now windowMs)

def spec (threshold cooldownMs : ℕ) (past : List BreakerCall) (now : ℕ) : Decision :=
  if failures past < threshold then .dispatch
  else if now < lastFailure past + cooldownMs then .hold (lastFailure past + cooldownMs)
  else match probeDeadline past with
    | some d => if now < d then .hold d else .probe
    | none => .probe

/-- What the fields of the breaker record of the history. -/
structure Recorded (n c : ℕ) (b : Breaker) (past : List BreakerCall) : Prop where
  threshold : b.threshold = n
  cooldownMs : b.cooldownMs = c
  consecFailures : b.consecFailures = min (failures past) (UInt32.size - 1)
  openUntilMs : b.openUntilMs = if failures past < n then 0 else lastFailure past + c
  probe : (if b.probeInFlight then some b.probeDeadlineMs else none) = probeDeadline past

/-- The cooldown that follows a failure ends at a time that the clock can show, and not at 0. -/
def Timed (cooldownMs : ℕ) (call : BreakerCall) : Prop :=
  ∀ now, call = .onResult false now → 1 ≤ now + cooldownMs ∧ now + cooldownMs < UInt64.size

variable {threshold cooldownMs : ℕ} {b : Breaker} {past : List BreakerCall}

theorem recorded_new (hth : 1 ≤ threshold) : Recorded threshold cooldownMs (new threshold cooldownMs) [] :=
  ⟨rfl, rfl, rfl, (if_pos hth).symm, rfl⟩

theorem Recorded.onResult_false (h : Recorded threshold cooldownMs b past) (hth : 1 ≤ threshold)
    (hsize : threshold < UInt32.size) {now : ℕ} (hnow : now + cooldownMs < UInt64.size) :
    Recorded threshold cooldownMs (b.onResult false now) (.onResult false now :: past) := by
  have hcount : satAdd32 b.consecFailures 1 = min (failures past + 1) (UInt32.size - 1) := by
    rw [satAdd32, h.consecFailures]
    omega
  have hsat : satAdd64 now b.cooldownMs = now + cooldownMs := by
    rw [satAdd64, h.cooldownMs]
    omega
  rw [onResult, h.threshold, if_neg (by omega), if_neg (by simp), hcount, hsat]
  by_cases htrip : failures past + 1 < threshold
  · rw [if_neg (by omega)]
    refine ⟨rfl, h.cooldownMs, rfl, ?_, rfl⟩
    rw [failures, if_pos htrip, h.openUntilMs, if_pos (by omega)]
  · rw [if_pos (by omega)]
    refine ⟨rfl, h.cooldownMs, rfl, ?_, rfl⟩
    rw [failures, if_neg htrip, lastFailure]

theorem Recorded.onResult_true (h : Recorded threshold cooldownMs b past) (hth : 1 ≤ threshold) (now : ℕ) :
    Recorded threshold cooldownMs (b.onResult true now) (.onResult true now :: past) := by
  rw [onResult, h.threshold, if_neg (by omega), if_pos rfl]
  exact ⟨rfl, h.cooldownMs, rfl, (if_pos hth).symm, rfl⟩

theorem Recorded.markProbeDispatched (h : Recorded threshold cooldownMs b past) (now windowMs : ℕ) :
    Recorded threshold cooldownMs (b.markProbeDispatched now windowMs) (.markProbeDispatched now windowMs :: past) :=
  ⟨h.threshold, h.cooldownMs, h.consecFailures, h.openUntilMs, rfl⟩

theorem Recorded.apply (h : Recorded threshold cooldownMs b past) (hth : 1 ≤ threshold)
    (hsize : threshold < UInt32.size) {call : BreakerCall} (hcall : Timed cooldownMs call) :
    Recorded threshold cooldownMs (call.apply b) (call :: past) := by
  match call with
  | .onResult true now => exact h.onResult_true hth now
  | .onResult false now => exact h.onResult_false hth hsize (hcall now rfl).2
  | .markProbeDispatched now windowMs => exact h.markProbeDispatched now windowMs

theorem Recorded.foldl (h : Recorded threshold cooldownMs b past) (hth : 1 ≤ threshold)
    (hsize : threshold < UInt32.size) {calls : List BreakerCall} (hcalls : ∀ call ∈ calls, Timed cooldownMs call) :
    Recorded threshold cooldownMs (calls.foldl BreakerCall.apply b) (calls.reverse ++ past) := by
  induction calls generalizing b past with
  | nil => exact h
  | cons call calls ih =>
    rw [List.forall_mem_cons] at hcalls
    rw [List.foldl_cons, List.reverse_cons, List.append_assoc]
    exact ih (h.apply hth hsize hcalls.1) hcalls.2

theorem lastFailure_pos (hpast : ∀ call ∈ past, Timed cooldownMs call) (hf : 0 < failures past) :
    1 ≤ lastFailure past + cooldownMs ∧ lastFailure past + cooldownMs < UInt64.size := by
  fun_induction failures past with
  | case1 => omega
  | case2 => omega
  | case3 now past ih => exact (hpast _ List.mem_cons_self) now rfl
  | case4 now w past ih =>
    rw [List.forall_mem_cons] at hpast
    exact ih hpast.2 hf

theorem Recorded.decision (h : Recorded threshold cooldownMs b past) (hth : 1 ≤ threshold)
    (hpast : ∀ call ∈ past, Timed cooldownMs call) (now : ℕ) : b.decision now = spec threshold cooldownMs past now := by
  rw [Breaker.decision, spec, h.threshold, if_neg (by omega), h.openUntilMs]
  by_cases hf : failures past < threshold
  · rw [if_pos hf, if_pos rfl, if_pos hf]
  · have hpos := lastFailure_pos hpast (by omega : 0 < failures past)
    rw [if_neg hf, if_neg (by omega), if_neg hf, ← h.probe]
    split_ifs with hcool hprobe <;> simp_all

theorem spec_eq_dispatch {now : ℕ} : spec threshold cooldownMs past now = .dispatch ↔ failures past < threshold := by
  unfold spec
  split_ifs with hf
  · exact iff_of_true rfl hf
  · exact iff_of_false (by simp) hf
  · refine iff_of_false ?_ hf
    split
    · split_ifs <;> simp
    · simp

theorem probeDeadline_lt {d : ℕ} (h : probeDeadline past = some d) : d < UInt64.size := by
  match past with
  | [] => cases h
  | .onResult _ _ :: _ => cases h
  | .markProbeDispatched now windowMs :: _ =>
    obtain rfl := Option.some.inj h
    have hpos : 0 < UInt64.size := by decide
    rw [satAdd64]
    omega

theorem spec_ne_hold {now : ℕ} (hcool : lastFailure past + cooldownMs ≤ now)
    (hprobe : ∀ d, probeDeadline past = some d → d ≤ now) (t : ℕ) : spec threshold cooldownMs past now ≠ .hold t := by
  unfold spec
  split_ifs
  · simp
  · omega
  · split
    · rename_i d hd
      rw [if_neg (Nat.not_lt.mpr (hprobe d hd))]
      simp
    · simp

/-- After any calls the breaker decides as its history asks for. It lets everything through exactly while the
failures stay under the threshold, every hold ends in the future, and without further calls there is a time from
which nothing is held. -/
theorem breaker_refines_spec (threshold cooldownMs : ℕ) (calls : List BreakerCall) (hth : 1 ≤ threshold)
    (hsize : threshold < UInt32.size) (hcalls : ∀ call ∈ calls, Timed cooldownMs call) :
    let b := calls.foldl BreakerCall.apply (new threshold cooldownMs)
    (∀ now, b.decision now = spec threshold cooldownMs calls.reverse now) ∧
      ((∀ now, b.decision now = .dispatch) ↔ failures calls.reverse < threshold) ∧
      (∀ now t, b.decision now = .hold t → now < t) ∧
      ∃ t < UInt64.size, ∀ now, t ≤ now → ∀ u, b.decision now ≠ .hold u := by
  intro b
  have hpast : ∀ call ∈ calls.reverse, Timed cooldownMs call := fun call hmem => hcalls call (List.mem_reverse.mp hmem)
  have hrec : Recorded threshold cooldownMs b calls.reverse := by
    have hfold := (recorded_new hth).foldl hth hsize hcalls
    rwa [List.append_nil] at hfold
  have hspec : ∀ now, b.decision now = spec threshold cooldownMs calls.reverse now := hrec.decision hth hpast
  refine ⟨hspec, ?_, fun now t => lt_of_decision_hold, ?_⟩
  · simp only [hspec, spec_eq_dispatch, forall_const]
  · by_cases hf : failures calls.reverse < threshold
    · refine ⟨0, by decide, fun now _ u => ?_⟩
      rw [hspec, spec_eq_dispatch.mpr hf]
      simp
    · have hcool := lastFailure_pos hpast (by omega : 0 < failures calls.reverse)
      refine ⟨max (lastFailure calls.reverse + cooldownMs) ((probeDeadline calls.reverse).getD 0), ?_,
        fun now hnow u => ?_⟩
      · refine Nat.max_lt.mpr ⟨hcool.2, ?_⟩
        cases hprobe : probeDeadline calls.reverse with
        | none => decide
        | some d => exact probeDeadline_lt hprobe
      · rw [hspec]
        refine spec_ne_hold (Nat.le_trans (Nat.le_max_left _ _) hnow) (fun d hd => ?_) u
        rw [hd] at hnow
        exact Nat.le_trans (Nat.le_max_right _ _) hnow

/-- Three failures trip it, and a probe is marked when the cooldown is over. -/
def tripped : List BreakerCall :=
  [.onResult false 1000, .onResult false 1000, .onResult false 1000, .markProbeDispatched 61000 20000]

theorem breaker_refines_spec_tripped :
    (1 ≤ 3 ∧ 3 < UInt32.size ∧ ∀ call ∈ tripped, Timed 60000 call) ∧
      ∀ now, (tripped.foldl BreakerCall.apply (new 3 60000)).decision now = spec 3 60000 tripped.reverse now := by
  have htimed : ∀ call ∈ tripped, Timed 60000 call := by
    simp [tripped, Timed]
    decide
  exact ⟨⟨by decide, by decide, htimed⟩, (breaker_refines_spec 3 60000 tripped (by decide) (by decide) htimed).1⟩

end Breaker

end Kutsu
