import Mathlib.Algebra.Order.BigOperators.Group.List
import Kutsu.Proofs.Preflight
import Kutsu.Proofs.Stages

/-! How long the preflight of a call can take, when a connect is over in its 5 s, a wait at its deadline and a
send at once: no longer than all the budgets and pauses together, and some run takes just that long.
`preflight_max_window_ms` adds the same up for `samples` pings, where `preflight` sends at least one. -/

namespace Kutsu

open Runs

namespace NetCheckConfig

variable {nc : NetCheckConfig} {i : ℕ}

def attempts (nc : NetCheckConfig) : ℕ := max nc.retryMax 1

def ackBudgetMs (nc : NetCheckConfig) : ℕ := max (Probe.pingBudgetMs nc) 2000

/-- What an attempt can still take before its `i`th ping. -/
def pingsMs (nc : NetCheckConfig) (i : ℕ) : ℕ := (max nc.samples 1 - i) * Probe.pingBudgetMs nc + nc.ackBudgetMs

def warmupsMs (nc : NetCheckConfig) (i : ℕ) : ℕ := (nc.warmupPings - i) * Probe.pingBudgetMs nc + nc.pingsMs 0

def attemptMs (nc : NetCheckConfig) : ℕ := 5000 + nc.warmupsMs 0

/-- The pauses after the first `n` attempts. -/
def backoffsMs (nc : NetCheckConfig) (n : ℕ) : ℕ :=
  ((List.range n).map fun i => retryBackoffMs (i + 1) nc.retryBackoffBaseMs).sum

def attemptsMs (nc : NetCheckConfig) (i : ℕ) : ℕ := nc.backoffsMs (i - 1) + i * nc.attemptMs

/-- An attempt as `preflight_max_window_ms` has it. -/
def budgetedMs (nc : NetCheckConfig) : ℕ :=
  Probe.pingBudgetMs nc * satAdd32 nc.samples nc.warmupPings + nc.ackBudgetMs + 5000

/-- No `u64` of `preflight_max_window_ms` saturates. -/
def Unsaturated (nc : NetCheckConfig) : Prop :=
  nc.backoffsMs (nc.attempts - 1) + nc.attempts * nc.budgetedMs < UInt64.size

theorem pingsMs_of_lt (h : i < max nc.samples 1) : nc.pingsMs i = Probe.pingBudgetMs nc + nc.pingsMs (i + 1) := by
  have hleft : max nc.samples 1 - i = max nc.samples 1 - (i + 1) + 1 := by omega
  rw [pingsMs, hleft, pingsMs, Nat.succ_mul]
  omega

theorem pingsMs_of_le (h : max nc.samples 1 ≤ i) : nc.pingsMs i = nc.ackBudgetMs := by
  rw [pingsMs, Nat.sub_eq_zero_of_le h, Nat.zero_mul, Nat.zero_add]

theorem warmupsMs_of_lt (h : i < nc.warmupPings) :
    nc.warmupsMs i = Probe.pingBudgetMs nc + nc.warmupsMs (i + 1) := by
  have hleft : nc.warmupPings - i = nc.warmupPings - (i + 1) + 1 := by omega
  rw [warmupsMs, hleft, warmupsMs, Nat.succ_mul]
  omega

theorem warmupsMs_of_le (h : nc.warmupPings ≤ i) : nc.warmupsMs i = nc.pingsMs 0 := by
  rw [warmupsMs, Nat.sub_eq_zero_of_le h, Nat.zero_mul, Nat.zero_add]

theorem attemptsMs_succ (hi : 1 ≤ i) :
    nc.attemptsMs (i + 1) = nc.attemptsMs i + retryBackoffMs i nc.retryBackoffBaseMs + nc.attemptMs := by
  obtain ⟨i, rfl⟩ := Nat.exists_eq_add_of_le' hi
  have hpauses : nc.backoffsMs (i + 1) = nc.backoffsMs i + retryBackoffMs (i + 1) nc.retryBackoffBaseMs := by
    rw [backoffsMs, List.range_succ, List.map_append, List.sum_append]
    simp [backoffsMs]
  rw [attemptsMs, attemptsMs, Nat.add_sub_cancel, Nat.add_sub_cancel, hpauses, Nat.succ_mul (i + 1)]
  omega

theorem attemptsMs_mono (nc : NetCheckConfig) {j : ℕ} (h : i ≤ j) : nc.attemptsMs i ≤ nc.attemptsMs j := by
  have hsum : nc.backoffsMs (i - 1) ≤ nc.backoffsMs (j - 1) :=
    ((List.range_sublist.mpr (Nat.sub_le_sub_right h 1)).map _).sum_le_sum fun _ _ => Nat.zero_le _
  exact Nat.add_le_add hsum (Nat.mul_le_mul_right _ h)

/-! The window in exact arithmetic. -/

theorem foldl_satAdd64 (l : List ℕ) {a : ℕ} (ha : a < UInt64.size) :
    l.foldl satAdd64 a = min (a + l.sum) (UInt64.size - 1) := by
  induction l generalizing a with
  | nil =>
    rw [List.foldl_nil, List.sum_nil, Nat.add_zero]
    exact (min_eq_left (Nat.le_pred_of_lt ha)).symm
  | cons x l ih =>
    have hstep : satAdd64 a x < UInt64.size := lt_of_le_of_lt (min_le_right _ _) (by decide)
    rw [List.foldl_cons, ih hstep, List.sum_cons, satAdd64]
    omega

theorem satAdd64_eq {a b : ℕ} (h : a + b < UInt64.size) : satAdd64 a b = a + b := min_eq_left (Nat.le_pred_of_lt h)

theorem satMul64_eq {a b : ℕ} (h : a * b < UInt64.size) : satMul64 a b = a * b := min_eq_left (Nat.le_pred_of_lt h)

theorem window_eq (h : nc.Unsaturated) :
    preflightMaxWindowMs nc = nc.backoffsMs (nc.attempts - 1) + nc.attempts * nc.budgetedMs := by
  have hall : nc.budgetedMs ≤ nc.attempts * nc.budgetedMs :=
    Nat.le_mul_of_pos_left _ (Nat.lt_of_lt_of_le one_pos (le_max_right _ _))
  have hsum : nc.backoffsMs (nc.attempts - 1) + nc.attempts * nc.budgetedMs < UInt64.size := h
  have hone : Probe.pingBudgetMs nc * satAdd32 nc.samples nc.warmupPings + nc.ackBudgetMs + 5000 < UInt64.size :=
    lt_of_le_of_lt (hall.trans (Nat.le_add_left _ _)) hsum
  have hack : Probe.pingBudgetMs nc ≤ nc.ackBudgetMs := le_max_left _ _
  have hbudget : satMul64 nc.maxRttMs 4 = Probe.pingBudgetMs nc :=
    satMul64_eq (show Probe.pingBudgetMs nc < _ by omega)
  have hpauses : ((List.range (nc.attempts - 1)).map fun i =>
      retryBackoffMs (i + 1) nc.retryBackoffBaseMs).foldl satAdd64 0 = nc.backoffsMs (nc.attempts - 1) := by
    rw [foldl_satAdd64 _ (by decide), Nat.zero_add]
    exact min_eq_left (Nat.le_pred_of_lt ((Nat.le_add_right _ _).trans_lt hsum))
  have hattempt : satAdd64 (satAdd64 (satMul64 (Probe.pingBudgetMs nc) (satAdd32 nc.samples nc.warmupPings))
      nc.ackBudgetMs) 5000 = nc.budgetedMs := by
    have hpings : Probe.pingBudgetMs nc * satAdd32 nc.samples nc.warmupPings + nc.ackBudgetMs < UInt64.size :=
      (Nat.le_add_right _ _).trans_lt hone
    rw [satMul64_eq ((Nat.le_add_right _ _).trans_lt hpings), satAdd64_eq hpings, satAdd64_eq hone]
    rfl
  calc preflightMaxWindowMs nc
      = satAdd64 (nc.backoffsMs (nc.attempts - 1)) (satMul64 nc.attempts nc.budgetedMs) := by
        rw [← hpauses, ← hattempt, ackBudgetMs, ← hbudget]
        rfl
    _ = nc.backoffsMs (nc.attempts - 1) + nc.attempts * nc.budgetedMs := by
        rw [satMul64_eq ((Nat.le_add_left _ _).trans_lt hsum), satAdd64_eq hsum]

/-- The pings that are budgeted are as many as those that are sent, or they cost nothing. -/
theorem attemptMs_le_budgeted_iff : nc.attemptMs ≤ nc.budgetedMs ↔
    nc.maxRttMs = 0 ∨ 0 < nc.samples ∧ nc.samples + nc.warmupPings < UInt32.size := by
  have hsent : nc.attemptMs =
      (max nc.samples 1 + nc.warmupPings) * Probe.pingBudgetMs nc + nc.ackBudgetMs + 5000 := by
    rw [attemptMs, warmupsMs, pingsMs, Nat.sub_zero, Nat.sub_zero, Nat.add_mul]
    omega
  have hcount : max nc.samples 1 + nc.warmupPings ≤ satAdd32 nc.samples nc.warmupPings ↔
      0 < nc.samples ∧ nc.samples + nc.warmupPings < UInt32.size := by
    rw [satAdd32, le_min_iff, show UInt32.size = 4294967296 from rfl]
    omega
  rw [hsent, budgetedMs, Nat.add_le_add_iff_right, Nat.add_le_add_iff_right, mul_comm, ← hcount]
  rcases Nat.eq_zero_or_pos nc.maxRttMs with hzero | hpos
  · rw [Probe.pingBudgetMs, hzero]
    simp
  · have hbudget : 0 < Probe.pingBudgetMs nc := Nat.mul_pos hpos (by decide)
    rw [Nat.mul_le_mul_left_iff hbudget]
    simp [hpos.ne']

end NetCheckConfig

namespace Probe

variable {crate : Crate} {nc : NetCheckConfig} {p p' : Probe} {now i : ℕ} {m : Measured} {input : ProbeInput}

/-- How long the probe stays where it is, at most. -/
def limitMs (now : ℕ) : Probe → ℕ
  | .connecting started => started + 5000
  | .warmupWait _ deadline _ | .pingWait _ _ deadline _ | .acking _ deadline _ => deadline
  | _ => now

/-- When the probe is over at the latest. -/
def latestMs (nc : NetCheckConfig) (now : ℕ) : Probe → ℕ
  | .connecting started => started + 5000 + nc.warmupsMs 0
  | .warmup i _ => now + pingBudgetMs nc + nc.warmupsMs (i + 1)
  | .warmupWait i deadline _ => deadline + nc.warmupsMs (i + 1)
  | .ping i _ _ => now + pingBudgetMs nc + nc.pingsMs (i + 1)
  | .pingWait i _ deadline _ => deadline + nc.pingsMs (i + 1)
  | .setup _ _ => now + nc.ackBudgetMs
  | .acking _ deadline _ => deadline
  | .closing _ _ _ | .done _ => now

theorem latest_nextPing : (nextPing nc now i m).latestMs nc now = now + nc.pingsMs i := by
  unfold nextPing
  split_ifs with h
  · rw [NetCheckConfig.pingsMs_of_lt h, ← Nat.add_assoc]
    rfl
  · rw [NetCheckConfig.pingsMs_of_le (not_lt.mp h)]
    rfl

theorem limit_nextPing : (nextPing nc now i m).limitMs now = now := by
  unfold nextPing
  split_ifs <;> rfl

theorem latest_nextWarmup : (nextWarmup nc now i m).latestMs nc now = now + nc.warmupsMs i := by
  unfold nextWarmup
  split_ifs with h
  · rw [NetCheckConfig.warmupsMs_of_lt h, ← Nat.add_assoc]
    rfl
  · rw [latest_nextPing, NetCheckConfig.warmupsMs_of_le (not_lt.mp h)]

theorem limit_nextWarmup : (nextWarmup nc now i m).limitMs now = now := by
  unfold nextWarmup
  split_ifs
  · rfl
  · exact limit_nextPing

theorem limit_le_latest (nc : NetCheckConfig) (now : ℕ) (p : Probe) : p.limitMs now ≤ p.latestMs nc now := by
  cases p <;> simp only [limitMs, latestMs] <;> omega

theorem limit_limit (now : ℕ) (p : Probe) : p.limitMs (p.limitMs now) = p.limitMs now := by
  cases p <;> rfl

theorem latest_of_wait (nc : NetCheckConfig) {later : ℕ} (h : now ≤ later) (hlim : later ≤ p.limitMs now) :
    p.latestMs nc later = p.latestMs nc now ∧ later ≤ p.limitMs later := by
  cases p with
  | connecting | warmupWait | pingWait | acking => exact ⟨rfl, hlim⟩
  | _ =>
    obtain rfl : now = later := le_antisymm h hlim
    exact ⟨rfl, le_rfl⟩

theorem latest_step (h : p.next crate nc now input = some p') (hlim : now ≤ p.limitMs now) :
    p'.latestMs nc now ≤ p.latestMs nc now ∧ now ≤ p'.limitMs now := by
  have ping : ∀ {i m t}, now ≤ t → (nextPing nc now i m).latestMs nc now ≤ t + nc.pingsMs i ∧
      now ≤ (nextPing nc now i m).limitMs now := fun hle =>
    ⟨latest_nextPing.trans_le (Nat.add_le_add_right hle _), limit_nextPing.ge⟩
  have warmup : ∀ {i m t}, now ≤ t → (nextWarmup nc now i m).latestMs nc now ≤ t + nc.warmupsMs i ∧
      now ≤ (nextWarmup nc now i m).limitMs now := fun hle =>
    ⟨latest_nextWarmup.trans_le (Nat.add_le_add_right hle _), limit_nextWarmup.ge⟩
  cases next_step h with
  | connected | warmupOver => exact warmup hlim
  | warmup | ping | setup => exact ⟨le_rfl, Nat.le_add_right _ _⟩
  | pingOver => exact ping hlim
  | warmupWait | pingWait | ackWait => exact ⟨le_rfl, hlim⟩
  | acked | unacked => exact ⟨hlim, le_rfl⟩
  | closed probe => cases probe <;> exact ⟨le_rfl, le_rfl⟩
  | failed => exact ⟨hlim.trans (limit_le_latest nc now p), le_rfl⟩

def pingSteps (nc : NetCheckConfig) (i : ℕ) : ℕ := 2 * (max nc.samples 1 - i) + 2

def warmupSteps (nc : NetCheckConfig) (i : ℕ) : ℕ := 2 * (nc.warmupPings - i) + pingSteps nc 0

def steps (nc : NetCheckConfig) : Probe → ℕ
  | .connecting _ => warmupSteps nc 0 + 1
  | .warmup i _ => warmupSteps nc (i + 1) + 2
  | .warmupWait i _ _ => warmupSteps nc (i + 1) + 1
  | .ping i _ _ => pingSteps nc (i + 1) + 2
  | .pingWait i _ _ _ => pingSteps nc (i + 1) + 1
  | .setup _ _ => 2
  | .acking _ _ _ => 1
  | .closing _ _ _ | .done _ => 0

theorem steps_nextPing : (nextPing nc now i m).steps nc = pingSteps nc i := by
  unfold nextPing
  split_ifs with h <;> simp only [steps, pingSteps] <;> omega

theorem steps_nextWarmup : (nextWarmup nc now i m).steps nc = warmupSteps nc i := by
  unfold nextWarmup
  split_ifs with h
  · simp only [steps, warmupSteps]
    omega
  · rw [steps_nextPing, warmupSteps]
    omega

/-- The probe has not concluded, and if it is about to, then because nothing came. -/
def Unanswered : Probe → Prop
  | .closing .timeout _ _ => True
  | .closing _ _ _ | .done _ => False
  | _ => True

theorem unanswered_nextPing : (nextPing nc now i m).Unanswered := by
  unfold nextPing
  split_ifs <;> trivial

theorem unanswered_nextWarmup : (nextWarmup nc now i m).Unanswered := by
  unfold nextWarmup
  split_ifs
  · trivial
  · exact unanswered_nextPing

/-- The setup was not acknowledged either. -/
def TimedOut (p : Probe) : Prop := ∃ setupMs m, p = .closing .timeout setupMs m

theorem exists_slow_step (crate : Crate) (nc : NetCheckConfig) (hun : p.Unanswered) (hopen : ¬ p.TimedOut)
    (hlim : p.limitMs now = now) :
    ∃ input p', p.next crate nc now input = some p' ∧ p'.result? = none ∧ p'.Unanswered ∧ now ≤ p'.limitMs now ∧
      p'.latestMs nc now = p.latestMs nc now ∧ p'.steps nc < p.steps nc := by
  have ping : ∀ {i m}, (nextPing nc now i m).result? = none := by
    intro i m
    unfold nextPing
    split_ifs <;> rfl
  have warmup : ∀ {i m}, (nextWarmup nc now i m).result? = none := by
    intro i m
    unfold nextWarmup
    split_ifs
    · rfl
    · exact ping
  cases p with
  | connecting started =>
    refine ⟨.connected (.ok ()), _, rfl, warmup, unanswered_nextWarmup, limit_nextWarmup.ge, ?_, ?_⟩
    · exact latest_nextWarmup.trans (congrArg (· + nc.warmupsMs 0) hlim.symm)
    · exact steps_nextWarmup.trans_lt (Nat.lt_succ_self _)
  | warmup i m => exact ⟨.pingSent (.ok ()), _, rfl, rfl, trivial, Nat.le_add_right _ _, rfl, Nat.lt_succ_self _⟩
  | warmupWait i deadline m =>
    obtain rfl : deadline = now := hlim
    refine ⟨.deadline, _, if_pos le_rfl, warmup, unanswered_nextWarmup, limit_nextWarmup.ge, latest_nextWarmup, ?_⟩
    exact steps_nextWarmup.trans_lt (Nat.lt_succ_self _)
  | ping i sent m => exact ⟨.pingSent (.ok ()), _, rfl, rfl, trivial, Nat.le_add_right _ _, rfl, Nat.lt_succ_self _⟩
  | pingWait i sent deadline m =>
    obtain rfl : deadline = now := hlim
    refine ⟨.deadline, _, if_pos le_rfl, ping, unanswered_nextPing, limit_nextPing.ge, latest_nextPing, ?_⟩
    exact steps_nextPing.trans_lt (Nat.lt_succ_self _)
  | setup started m => exact ⟨.setupSent (.ok ()), _, rfl, rfl, trivial, Nat.le_add_right _ _, rfl, Nat.lt_succ_self _⟩
  | acking started deadline m =>
    obtain rfl : deadline = now := hlim
    exact ⟨.deadline, _, if_pos le_rfl, rfl, trivial, le_rfl, rfl, Nat.lt_succ_self _⟩
  | closing probe setupMs m =>
    cases probe with
    | timeout => exact absurd ⟨setupMs, m, rfl⟩ hopen
    | ok | rejected => exact hun.elim
  | done r => exact hun.elim

end Probe

namespace Stage

variable {cfg : ServerConfig} {sh : Shared} {tok : Token} {a : Attempt} {input : RunInput} {p q : Stage} {eff : Effect}

theorem Step.ne_start (h : Step cfg sh tok a input p q eff) : q ≠ .start := by
  rintro rfl
  cases h with
  | start h | preflight h | unreported _ h | reportWake h | bump d h => rcases h with h | h <;> cases h
  | ringing h => rcases h with h | h | h <;> cases h

theorem Step.of_preflight (h : Step cfg sh tok a input p .preflight eff) :
    eff = .idle ∧ (p = .preflight ∨ p = .start ∧ cfg.netCheck.enabled = true) := by
  cases h with
  | start h hon => exact ⟨rfl, Or.inr ⟨rfl, hon.mp rfl⟩⟩
  | preflight => exact ⟨rfl, Or.inl rfl⟩
  | unreported _ h | reportWake h | bump d h => rcases h with h | h <;> cases h
  | ringing h => rcases h with h | h | h <;> cases h

end Stage

namespace Attempt

variable {cfg : ServerConfig} {sh : Shared} {tok : Token} {a : Attempt} {input : RunInput} {phase : Phase}
  {eff : Effect}
  {i untilMs : ℕ} {e : Option String}

theorem next_of_start (hph : a.phase = .start) (h : a.next cfg sh tok input = some (phase, eff))
    (hq : phase.stage = .preflight) : phase = .preflight 1 none := by
  unfold next at h
  rw [hph] at h
  cases input with
  | go =>
    obtain ⟨rfl, -⟩ := Prod.mk.inj (Option.some.inj h)
    split_ifs at hq
    · exact if_pos ‹_›
    · cases hq
  | panic =>
    obtain ⟨rfl, -⟩ := Prod.mk.inj (Option.some.inj h)
    cases hq
  | _ => cases h

theorem next_of_try (hph : a.phase = .preflight i e) (h : a.next cfg sh tok input = some (phase, eff))
    (hq : phase.stage = .preflight) :
    i < cfg.netCheck.attempts ∧
      ∃ e', phase = .backoff i (sh.clock + retryBackoffMs i cfg.netCheck.retryBackoffBaseMs) e' := by
  unfold next at h
  rw [hph] at h
  cases input with
  | probe r =>
    obtain ⟨rfl, -⟩ := Prod.mk.inj (Option.some.inj h)
    unfold onProbe at hq ⊢
    cases r with
    | ok health =>
      dsimp only at hq ⊢
      split_ifs at hq ⊢ with hok hlt
      · cases hq
      · exact ⟨hlt, _, rfl⟩
      · cases hq
    | error err =>
      dsimp only at hq ⊢
      split_ifs at hq ⊢ with hlt
      · exact ⟨hlt, _, rfl⟩
      · cases hq
  | cancelled =>
    simp only at h
    split_ifs at h
    obtain ⟨rfl, -⟩ := Prod.mk.inj (Option.some.inj h)
    cases hq
  | panic =>
    obtain ⟨rfl, -⟩ := Prod.mk.inj (Option.some.inj h)
    cases hq
  | _ => cases h

theorem next_of_pause (hph : a.phase = .backoff i untilMs e) (h : a.next cfg sh tok input = some (phase, eff))
    (hq : phase.stage = .preflight) : untilMs ≤ sh.clock ∧ phase = .preflight (i + 1) e := by
  unfold next at h
  rw [hph] at h
  cases input with
  | slept =>
    simp only at h
    split_ifs at h with hle
    obtain ⟨rfl, -⟩ := Prod.mk.inj (Option.some.inj h)
    exact ⟨hle, rfl⟩
  | cancelled =>
    simp only at h
    split_ifs at h
    obtain ⟨rfl, -⟩ := Prod.mk.inj (Option.some.inj h)
    cases hq
  | panic =>
    obtain ⟨rfl, -⟩ := Prod.mk.inj (Option.some.inj h)
    cases hq
  | _ => cases h

end Attempt

namespace Check

variable {crate : Crate} {cfg : ServerConfig} {tok : Token} {s s' : Check} {sh : Shared} {entry : PendingEntry}
  {probe : Bool} {tr : List CheckAct}

def began? (s : Check) : Option ℕ := s.tried.head?.map Tried.startedMs

/-- Time passes only while there is something to wait for: a connect for 5 s, a frame or a pause until the
deadline, and a send not at all. -/
def Prompt (s : Check) : CheckAct → Prop
  | .others change =>
    match s.attempt.phase with
    | .preflight _ _ => (change s.sh).clock ≤ s.probe.limitMs s.sh.clock
    | .backoff _ untilMs _ => (change s.sh).clock ≤ untilMs
    | _ => True
  | _ => True

theorem began_record (s : Check) (x : ProbeInput × ℕ) :
    (record s.tried x).head?.map Tried.startedMs = s.began? := by
  rcases List.eq_nil_or_concat s.tried with hnil | ⟨earlier, t, htried⟩
  · rw [began?, hnil]
    rfl
  · rw [began?, htried, List.concat_eq_append, record_concat]
    cases earlier <;> rfl

theorem advance_sh {input : RunInput} {phase : Phase} {eff : Effect} (h : s.advance cfg tok input = some s')
    (hnext : s.attempt.next cfg s.sh tok input = some (phase, eff)) : s'.sh = s.sh.apply eff := by
  rw [advance, hnext, Option.bind_eq_bind, Option.bind_some] at h
  cases phase <;> exact (congrArg Check.sh (Option.some.inj h)).symm

theorem exists_advance {input : RunInput} {phase : Phase}
  {eff : Effect}
    (hnext : s.attempt.next cfg s.sh tok input = some (phase, eff)) :
    ∃ s', s.advance cfg tok input = some s' ∧ s'.attempt.phase = phase ∧ s'.sh = s.sh.apply eff ∧
      (∀ i lastErr, phase = .preflight i lastErr →
        s'.tried = s.tried ++ [⟨s.sh.clock, []⟩] ∧ s'.probe = .connecting s.sh.clock) ∧
      ((∀ i lastErr, phase ≠ .preflight i lastErr) → s'.tried = s.tried) := by
  obtain ⟨s', h⟩ : ∃ s', s.advance cfg tok input = some s' := by
    rw [advance, hnext]
    exact ⟨_, rfl⟩
  obtain ⟨phase', eff', hnext', hatt, -, -, hnew, hsame⟩ := advance_cases h
  obtain ⟨rfl, rfl⟩ := Prod.mk.inj (Option.some.inj (hnext.symm.trans hnext'))
  exact ⟨s', h, congrArg Attempt.phase hatt, advance_sh h hnext, hnew, hsame⟩

/-- The call is within what its attempts so far can take. -/
def Timely (cfg : ServerConfig) (s : Check) : Prop :=
  match s.attempt.phase with
  | .start => s.tried = []
  | .preflight i _ => 1 ≤ i ∧ i ≤ cfg.netCheck.attempts ∧ s.sh.clock ≤ s.probe.limitMs s.sh.clock ∧
      ∀ start ∈ s.began?, s.probe.latestMs cfg.netCheck s.sh.clock ≤ start + cfg.netCheck.attemptsMs i
  | .backoff i untilMs _ => 1 ≤ i ∧ i < cfg.netCheck.attempts ∧ s.sh.clock ≤ untilMs ∧
      ∀ start ∈ s.began?, untilMs ≤
        start + cfg.netCheck.attemptsMs i + retryBackoffMs i cfg.netCheck.retryBackoffBaseMs
  | _ => True

theorem timely_of_stage (hstart : s.attempt.phase.stage ≠ .start) (hpre : s.attempt.phase.stage ≠ .preflight) :
    s.Timely cfg := by
  unfold Timely
  cases hph : s.attempt.phase with
  | start => exact absurd (congrArg Phase.stage hph) hstart
  | preflight | backoff => exact absurd (congrArg Phase.stage hph) hpre
  | _ => trivial

theorem timely_advance {input : RunInput} (ht : s.Timely cfg) (h : s.advance cfg tok input = some s') :
    s'.Timely cfg := by
  obtain ⟨phase, eff, hnext, hatt, -, -, hnew, hsame⟩ := advance_cases h
  have hstep := Attempt.next_step hnext
  have hphase : s'.attempt.phase = phase := congrArg Attempt.phase hatt
  by_cases hpre : phase.stage = .preflight
  · obtain ⟨rfl, hfrom⟩ := (hpre ▸ hstep).of_preflight
    have hsh : s'.sh = s.sh := advance_sh h hnext
    cases hph : s.attempt.phase with
    | start =>
      obtain rfl := Attempt.next_of_start hph hnext hpre
      obtain ⟨htried, hprobe⟩ := hnew 1 none rfl
      rw [Timely, hph] at ht
      rw [ht, List.nil_append] at htried
      rw [Timely, hphase, began?, htried, hprobe, hsh]
      refine ⟨le_rfl, le_max_right _ _, Nat.le_add_right _ _, fun start hstart => ?_⟩
      obtain rfl := Option.some.inj hstart
      change s.sh.clock + 5000 + _ ≤ s.sh.clock + cfg.netCheck.attemptsMs 1
      rw [NetCheckConfig.attemptsMs, NetCheckConfig.attemptMs]
      omega
    | preflight i e =>
      obtain ⟨hlt, e', rfl⟩ := Attempt.next_of_try hph hnext hpre
      rw [Timely, hph] at ht
      obtain ⟨hpos, -, hlim, hlatest⟩ := ht
      rw [Timely, hphase, began?, hsame (by simp), hsh]
      refine ⟨hpos, hlt, Nat.le_add_right _ _, fun start hstart => ?_⟩
      have := hlatest start hstart
      have := Probe.limit_le_latest cfg.netCheck s.sh.clock s.probe
      omega
    | backoff i untilMs e =>
      obtain ⟨hle, rfl⟩ := Attempt.next_of_pause hph hnext hpre
      obtain ⟨htried, hprobe⟩ := hnew (i + 1) e rfl
      rw [Timely, hph] at ht
      obtain ⟨hpos, hlt, hlim, hlatest⟩ := ht
      rw [Timely, hphase, began?, htried, hprobe, hsh]
      refine ⟨Nat.le_add_left _ _, hlt, Nat.le_add_right _ _, fun start hstart => ?_⟩
      change s.sh.clock + 5000 + cfg.netCheck.warmupsMs 0 ≤ _
      have hall : cfg.netCheck.attemptMs = 5000 + cfg.netCheck.warmupsMs 0 := rfl
      rw [NetCheckConfig.attemptsMs_succ hpos]
      cases htr : s.tried with
      | nil =>
        rw [htr] at hstart
        obtain rfl := Option.some.inj hstart
        change s.sh.clock + 5000 + _ ≤ s.sh.clock + _
        omega
      | cons t rest =>
        rw [htr] at hstart
        have := hlatest start (by rw [began?, htr]; exact hstart)
        omega
    | _ =>
      rw [hph] at hfrom
      rcases hfrom with hfrom | ⟨hfrom, -⟩ <;> cases hfrom
  · exact timely_of_stage (hphase ▸ hstep.ne_start) (hphase ▸ hpre)

theorem timely_step {act : CheckAct} (ht : s.Timely cfg) (hprompt : s.Prompt act)
    (h : s.step crate cfg tok act = some s') : s'.Timely cfg := by
  cases act with
  | cancelled | slept | go => exact timely_advance ht h
  | others change =>
    rw [step] at h
    split_ifs at h with hclock
    obtain rfl := Option.some.inj h
    unfold Timely at ht ⊢
    cases hph : s.attempt.phase with
    | start =>
      rw [hph] at ht
      exact ht
    | preflight i e =>
      rw [Prompt, hph] at hprompt
      rw [hph] at ht
      obtain ⟨hpos, hle, -, hlatest⟩ := ht
      obtain ⟨hsame, hlim⟩ := Probe.latest_of_wait cfg.netCheck hclock hprompt
      exact ⟨hpos, hle, hlim, fun start hstart => hsame.trans_le (hlatest start hstart)⟩
    | backoff i untilMs e =>
      rw [Prompt, hph] at hprompt
      rw [hph] at ht
      exact ⟨ht.1, ht.2.1, hprompt, ht.2.2.2⟩
    | _ => trivial
  | net input =>
    rw [step] at h
    split at h
    · rename_i i lastErr hph
      rw [Option.bind_eq_bind, Option.bind_eq_some_iff] at h
      obtain ⟨p, hp, h⟩ := h
      rw [Timely, hph] at ht
      obtain ⟨hpos, hle, hlim, hlatest⟩ := ht
      obtain ⟨hsooner, hlim'⟩ := Probe.latest_step hp hlim
      have hmid : Timely cfg { s with probe := p, tried := record s.tried (input, s.sh.clock) } := by
        unfold Timely began?
        rw [hph, began_record]
        exact ⟨hpos, hle, hlim', fun start hstart => hsooner.trans (hlatest start hstart)⟩
      cases hres : p.result? with
      | none =>
        rw [hres] at h
        obtain rfl := Option.some.inj h
        exact hmid
      | some r =>
        rw [hres] at h
        exact timely_advance hmid h
    · cases h

theorem timely_run (hrun : Run (step crate cfg tok) Prompt (init sh entry probe) tr s) : s.Timely cfg := by
  have hinit : (init sh entry probe).Timely cfg := rfl
  exact hrun.invariant hinit fun _ _ _ ht ha hs => timely_step ht ha hs

/-- The preflight takes no longer than its budgets and pauses. -/
theorem clock_le_attemptsMs (hrun : Run (step crate cfg tok) Prompt (init sh entry probe) tr s)
    (hpre : s.attempt.phase.stage = .preflight) {start : ℕ} (hstart : start ∈ s.began?) :
    s.sh.clock ≤ start + cfg.netCheck.attemptsMs cfg.netCheck.attempts := by
  have ht := timely_run hrun
  unfold Timely at ht
  cases hph : s.attempt.phase with
  | preflight i e =>
    rw [hph] at ht
    obtain ⟨-, hle, hlim, hlatest⟩ := ht
    have := hlatest start hstart
    have := Probe.limit_le_latest cfg.netCheck s.sh.clock s.probe
    have := NetCheckConfig.attemptsMs_mono cfg.netCheck hle
    omega
  | backoff i untilMs e =>
    rw [hph] at ht
    obtain ⟨hpos, hlt, hlim, hlatest⟩ := ht
    have := hlatest start hstart
    have := NetCheckConfig.attemptsMs_mono cfg.netCheck (Nat.succ_le_of_lt hlt)
    rw [NetCheckConfig.attemptsMs_succ hpos] at this
    omega
  | _ =>
    rw [hph] at hpre
    cases hpre

theorem no_preflight (hoff : cfg.netCheck.enabled = false)
    (hrun : Run (step crate cfg tok) Prompt (init sh entry probe) tr s) : s.attempt.phase.stage ≠ .preflight := by
  have hadvance : ∀ {s s' : Check} {input : RunInput}, s.attempt.phase.stage ≠ .preflight →
      s.advance cfg tok input = some s' → s'.attempt.phase.stage ≠ .preflight := by
    intro s s' input hs h hpre
    obtain ⟨phase, eff, hnext, hatt, -⟩ := advance_cases h
    have hphase : phase.stage = .preflight := by rw [hatt] at hpre; exact hpre
    obtain ⟨-, hfrom | ⟨-, hon⟩⟩ := (hphase ▸ Attempt.next_step hnext).of_preflight
    · exact hs hfrom
    · rw [hoff] at hon
      cases hon
  have hinit : (init sh entry probe).attempt.phase.stage ≠ .preflight := nofun
  refine hrun.invariant (I := fun s => s.attempt.phase.stage ≠ .preflight) hinit fun s act s' hs _ h => ?_
  cases act with
  | cancelled | slept | go => exact hadvance hs h
  | others change =>
    rw [step] at h
    split_ifs at h
    obtain rfl := Option.some.inj h
    exact hs
  | net input =>
    rw [step] at h
    split at h
    · rename_i hph
      exact absurd (congrArg Phase.stage hph) hs
    · cases h

/-- The `i`th attempt is under way, nothing has answered in it, and all budgets up to its end are used up. -/
structure Slow (cfg : ServerConfig) (i start : ℕ) (s : Check) : Prop where
  phase : ∃ lastErr, s.attempt.phase = .preflight i lastErr
  probe : s.probe.Unanswered
  onTime : s.sh.clock ≤ s.probe.limitMs s.sh.clock
  latest : s.probe.latestMs cfg.netCheck s.sh.clock = start + cfg.netCheck.attemptsMs i
  began : s.began? = some start

def slowSteps (cfg : ServerConfig) (s : Check) : ℕ :=
  2 * s.probe.steps cfg.netCheck + if s.sh.clock < s.probe.limitMs s.sh.clock then 1 else 0

/-- Time passes up to the limit, or the next step is taken. -/
theorem exists_slow_step {i start : ℕ} (crate : Crate) (tok : Token) (h : s.Slow cfg i start)
    (hopen : ¬ s.probe.TimedOut) :
    ∃ act s', s.Prompt act ∧ s.step crate cfg tok act = some s' ∧ s'.Slow cfg i start ∧
      slowSteps cfg s' < slowSteps cfg s := by
  obtain ⟨⟨lastErr, hph⟩, hun, htime, hlatest, hbegan⟩ := h
  by_cases hlim : s.sh.clock < s.probe.limitMs s.sh.clock
  · have hprompt : s.Prompt (.others fun sh => { sh with clock := s.probe.limitMs s.sh.clock }) := by
      rw [Prompt, hph]
    obtain ⟨hsame, hlim'⟩ := Probe.latest_of_wait (p := s.probe) cfg.netCheck hlim.le le_rfl
    refine ⟨_, _, hprompt, if_pos hlim.le, ⟨⟨lastErr, hph⟩, hun, hlim', hsame.trans hlatest, hbegan⟩, ?_⟩
    rw [slowSteps, slowSteps, if_pos hlim, if_neg (Probe.limit_limit _ _).not_gt]
    exact Nat.lt_succ_self _
  · have hnow : s.probe.limitMs s.sh.clock = s.sh.clock := le_antisymm (not_lt.mp hlim) htime
    obtain ⟨input, p, hp, hres, hun', htime', hlatest', hlt⟩ := Probe.exists_slow_step crate cfg.netCheck hun hopen hnow
    have hstep : s.step crate cfg tok (.net input) =
        some { s with probe := p, tried := record s.tried (input, s.sh.clock) } := by
      rw [step, hph]
      simp only [hp, Option.bind_eq_bind, Option.bind_some, hres]
    refine ⟨.net input, _, trivial, hstep, ⟨⟨lastErr, hph⟩, hun', htime', hlatest'.trans hlatest, ?_⟩, ?_⟩
    · rw [began?, began_record]
      exact hbegan
    · rw [slowSteps, slowSteps, if_neg hlim]
      dsimp only
      split_ifs <;> omega

theorem slow_attempt {i start : ℕ} (crate : Crate) (tok : Token) (h : s.Slow cfg i start) :
    ∃ tr s', Run (step crate cfg tok) Prompt s tr s' ∧ s'.Slow cfg i start ∧ s'.probe.TimedOut := by
  have hprogress : ∀ s : Check, s.Slow cfg i start → ¬ (s.Slow cfg i start ∧ s.probe.TimedOut) →
      ∃ act s', s.Prompt act ∧ s.step crate cfg tok act = some s' ∧ s'.Slow cfg i start ∧
        slowSteps cfg s' < slowSteps cfg s :=
    fun s hs hopen => exists_slow_step crate tok hs fun ht => hopen ⟨hs, ht⟩
  exact exists_run_of_progress (slowSteps cfg) hprogress h

theorem Slow.clock_eq {i start : ℕ} (h : s.Slow cfg i start) (hend : s.probe.TimedOut) :
    s.sh.clock = start + cfg.netCheck.attemptsMs i := by
  obtain ⟨setupMs, m, hprobe⟩ := hend
  have hlatest := h.latest
  rw [hprobe] at hlatest
  exact hlatest

theorem exists_closed {i setupMs : ℕ} {m : Measured} {lastErr : Option String} (crate : Crate) (tok : Token)
    (hph : s.attempt.phase = .preflight i lastErr) (hprobe : s.probe = .closing .timeout setupMs m)
    (hlt : i < cfg.netCheck.attempts) :
    ∃ s' lastErr', s.step crate cfg tok (.net .closed) = some s' ∧ s'.sh = s.sh ∧ s'.began? = s.began? ∧
      s'.attempt.phase = .backoff i (s.sh.clock + retryBackoffMs i cfg.netCheck.retryBackoffBaseMs) lastErr' := by
  let err := "connect error: " ++ "gemini setup not acknowledged (no setupComplete within budget)"
  let failed : Check := { s with probe := .done (.error err), tried := record s.tried (.closed, s.sh.clock) }
  have hnext : failed.attempt.next cfg failed.sh tok (.probe (.error err)) =
      some (.backoff i (s.sh.clock + retryBackoffMs i cfg.netCheck.retryBackoffBaseMs)
        (some ("network preflight failed: " ++ err)), .idle) := by
    unfold Attempt.next
    rw [show failed.attempt.phase = _ from hph]
    exact congrArg (fun phase => some (phase, Effect.idle)) (if_pos hlt)
  obtain ⟨s', hs, hph', hsh, -, htried⟩ := exists_advance hnext
  have hstep : s.step crate cfg tok (.net .closed) = failed.advance cfg tok (.probe (.error err)) := by
    rw [step, hph]
    simp only [hprobe]
    rfl
  refine ⟨s', _, hstep.trans hs, hsh, ?_, hph'⟩
  rw [began?, htried (by simp)]
  exact began_record s _

theorem exists_slept {i untilMs : ℕ} {lastErr : Option String} (crate : Crate) (tok : Token)
    (hph : s.attempt.phase = .backoff i untilMs lastErr) (hdue : untilMs ≤ s.sh.clock) :
    ∃ s', s.step crate cfg tok .slept = some s' ∧ s'.sh = s.sh ∧ s'.attempt.phase = .preflight (i + 1) lastErr ∧
      s'.probe = .connecting s.sh.clock ∧ s'.tried = s.tried ++ [⟨s.sh.clock, []⟩] := by
  have hnext : s.attempt.next cfg s.sh tok .slept = some (.preflight (i + 1) lastErr, .idle) := by
    unfold Attempt.next
    rw [hph]
    exact if_pos hdue
  obtain ⟨s', hs, hph', hsh, hnew, -⟩ := exists_advance hnext
  obtain ⟨htried, hprobe⟩ := hnew _ _ rfl
  exact ⟨s', hs, hsh, hph', hprobe, htried⟩

theorem slow_retry {i start : ℕ} (crate : Crate) (tok : Token) (h : s.Slow cfg i start) (hend : s.probe.TimedOut)
    (hpos : 1 ≤ i) (hlt : i < cfg.netCheck.attempts) :
    ∃ tr s', Run (step crate cfg tok) Prompt s tr s' ∧ s'.Slow cfg (i + 1) start := by
  have hclock := h.clock_eq hend
  obtain ⟨⟨lastErr, hph⟩, -, -, -, hbegan⟩ := h
  obtain ⟨setupMs, m, hprobe⟩ := hend
  obtain ⟨s₁, e, hclosed, hsh₁, hbegan₁, hph₁⟩ := exists_closed crate tok hph hprobe hlt
  let untilMs := s.sh.clock + retryBackoffMs i cfg.netCheck.retryBackoffBaseMs
  let s₂ : Check := { s₁ with sh := { s₁.sh with clock := untilMs } }
  have hwait : s₁.step crate cfg tok (.others fun sh => { sh with clock := untilMs }) = some s₂ :=
    if_pos (hsh₁ ▸ Nat.le_add_right _ _)
  have hprompt : s₁.Prompt (.others fun sh => { sh with clock := untilMs }) := by
    rw [Prompt, hph₁]
  obtain ⟨s₃, hslept, hsh₃, hph₃, hprobe₃, htried₃⟩ := exists_slept (s := s₂) crate tok hph₁ le_rfl
  have hnet : s.Prompt (.net .closed) := trivial
  have hsleep : s₂.Prompt .slept := trivial
  refine ⟨_, s₃, Run.cons hnet hclosed (Run.cons hprompt hwait (Run.cons hsleep hslept Run.nil)), ?_⟩
  refine ⟨⟨e, hph₃⟩, hprobe₃ ▸ trivial, ?_, ?_, ?_⟩
  · rw [hprobe₃, hsh₃]
    exact Nat.le_add_right _ _
  · rw [hprobe₃, NetCheckConfig.attemptsMs_succ hpos]
    change untilMs + 5000 + cfg.netCheck.warmupsMs 0 = start + (_ + _ + (5000 + cfg.netCheck.warmupsMs 0))
    omega
  · rw [← hbegan₁, began?] at hbegan
    rw [began?, htried₃, List.head?_append]
    change Option.map _ (s₁.tried.head?.or _) = _
    cases htr : s₁.tried.head? with
    | none =>
      rw [htr] at hbegan
      cases hbegan
    | some t =>
      rw [htr] at hbegan
      exact hbegan

theorem slow_run (hen : cfg.netCheck.enabled = true) (crate : Crate) (tok : Token) (sh : Shared) (entry : PendingEntry)
    (probe : Bool) {i : ℕ} (hi : i < cfg.netCheck.attempts) :
    ∃ tr s, Run (step crate cfg tok) Prompt (init sh entry probe) tr s ∧ s.Slow cfg (i + 1) sh.clock := by
  induction i with
  | zero =>
    have hnext : (init sh entry probe).attempt.next cfg sh tok .go = some (.preflight 1 none, .idle) :=
      congrArg (fun phase => some (phase, Effect.idle)) (if_pos hen)
    obtain ⟨s, hs, hph, hsh, hnew, -⟩ := exists_advance (s := init sh entry probe) hnext
    obtain ⟨htried, hprobe⟩ := hnew 1 none rfl
    have hgo : (init sh entry probe).Prompt .go := trivial
    refine ⟨[.go], s, Run.cons hgo hs Run.nil, ⟨none, hph⟩, hprobe ▸ trivial, ?_, ?_, ?_⟩
    · rw [hprobe, hsh]
      exact Nat.le_add_right _ _
    · rw [hprobe]
      change sh.clock + 5000 + cfg.netCheck.warmupsMs 0 = sh.clock + (0 + 1 * (5000 + cfg.netCheck.warmupsMs 0))
      omega
    · rw [began?, htried]
      rfl
  | succ i ih =>
    obtain ⟨tr, s, hrun, hslow⟩ := ih (Nat.lt_of_succ_lt hi)
    obtain ⟨tr₁, s₁, hrun₁, hslow₁, hend⟩ := slow_attempt crate tok hslow
    obtain ⟨tr₂, s₂, hrun₂, hslow₂⟩ := slow_retry crate tok hslow₁ hend (Nat.le_add_left _ _) hi
    exact ⟨_, s₂, hrun.append (hrun₁.append hrun₂), hslow₂⟩

theorem exists_slowest (hen : cfg.netCheck.enabled = true) (crate : Crate) (tok : Token) (sh : Shared)
    (entry : PendingEntry) (probe : Bool) :
    ∃ tr s, Run (step crate cfg tok) Prompt (init sh entry probe) tr s ∧ s.attempt.phase.stage = .preflight ∧
      s.began? = some sh.clock ∧ s.sh.clock = sh.clock + cfg.netCheck.attemptsMs cfg.netCheck.attempts := by
  have hpos : 1 ≤ cfg.netCheck.attempts := le_max_right _ _
  obtain ⟨tr, s, hrun, hslow⟩ := slow_run hen crate tok sh entry probe (Nat.sub_lt hpos one_pos)
  rw [Nat.sub_add_cancel hpos] at hslow
  obtain ⟨tr', s', hrun', hslow', hend⟩ := slow_attempt crate tok hslow
  obtain ⟨lastErr, hph⟩ := hslow'.phase
  exact ⟨_, s', hrun.append hrun', congrArg Phase.stage hph, hslow'.began, hslow'.clock_eq hend⟩

/-- `preflight_max_window_ms` bounds the preflight when it counts as many pings as `preflight` sends: `samples` is
not 0, and the sum of the pings does not saturate. Else it bounds only a check that is off, or has no ping budget. -/
theorem window_bounds_preflight_iff (crate : Crate) (cfg : ServerConfig) (tok : Token) (hu : cfg.netCheck.Unsaturated) :
    (∀ sh entry probe tr s, Run (step crate cfg tok) Prompt (init sh entry probe) tr s →
        s.attempt.phase.stage = .preflight → ∀ start ∈ s.began?,
          s.sh.clock ≤ start + preflightMaxWindowMs cfg.netCheck) ↔
      cfg.netCheck.enabled = false ∨ cfg.netCheck.maxRttMs = 0 ∨
        0 < cfg.netCheck.samples ∧ cfg.netCheck.samples + cfg.netCheck.warmupPings < UInt32.size := by
  have hwindow := NetCheckConfig.window_eq hu
  have hpos : 1 ≤ cfg.netCheck.attempts := le_max_right _ _
  rw [← NetCheckConfig.attemptMs_le_budgeted_iff]
  refine ⟨fun hall => ?_, fun hcond sh entry probe tr s hrun hpre start hstart => ?_⟩
  · cases hen : cfg.netCheck.enabled with
    | false => exact Or.inl rfl
    | true =>
      obtain ⟨tr, s, hrun, hpre, hbegan, hclock⟩ :=
        exists_slowest hen crate tok (Shared.init cfg 0) probeEntry false
      have hbound := hall _ _ _ tr s hrun hpre _ hbegan
      rw [hclock, hwindow, NetCheckConfig.attemptsMs] at hbound
      exact Or.inr (Nat.le_of_mul_le_mul_left (by omega) hpos)
  · rcases hcond with hoff | hle
    · exact absurd hpre (no_preflight hoff hrun)
    · have hbound := clock_le_attemptsMs hrun hpre hstart
      have hmul := Nat.mul_le_mul_left cfg.netCheck.attempts hle
      rw [NetCheckConfig.attemptsMs] at hbound
      omega

/-- The default configuration's window bounds its preflight. -/
theorem window_bounds_preflight_default : ({} : NetCheckConfig).Unsaturated ∧
    ∀ sh entry probe tr s, Run (step probeCrate ServerConfig.default 0) Prompt (init sh entry probe) tr s →
      s.attempt.phase.stage = .preflight → ∀ start ∈ s.began?, s.sh.clock ≤ start + 75600 := by
  have hu : ({} : NetCheckConfig).Unsaturated := by
    unfold NetCheckConfig.Unsaturated
    decide
  have hwindow : preflightMaxWindowMs ServerConfig.default.netCheck = 75600 := by decide
  have hbound := (window_bounds_preflight_iff probeCrate ServerConfig.default 0 hu).mpr (Or.inr (Or.inr (by decide)))
  rw [hwindow] at hbound
  exact ⟨hu, hbound⟩

/-- A check that asks for no samples, and so takes one. -/
def unsampledCfg : ServerConfig :=
  { ServerConfig.default with netCheck := { samples := 0, warmupPings := 0, retryMax := 1 } }

/-- It can take 8200 ms, and is given 7000. -/
theorem window_cuts_unsampled : unsampledCfg.netCheck.Unsaturated ∧ ∃ tr s,
    Run (step probeCrate unsampledCfg 0) Prompt (init (Shared.init unsampledCfg 0) probeEntry false) tr s ∧
      s.attempt.phase.stage = .preflight ∧ s.began? = some 0 ∧ s.sh.clock = 8200 ∧
      preflightMaxWindowMs unsampledCfg.netCheck = 7000 := by
  have hen : unsampledCfg.netCheck.enabled = true := rfl
  obtain ⟨tr, s, hrun, hpre, hbegan, hclock⟩ :=
    exists_slowest hen probeCrate 0 (Shared.init unsampledCfg 0) probeEntry false
  have hu : unsampledCfg.netCheck.Unsaturated := by
    unfold NetCheckConfig.Unsaturated
    decide
  exact ⟨hu, tr, s, hrun, hpre, hbegan, hclock, by decide⟩

end Check

end Kutsu
