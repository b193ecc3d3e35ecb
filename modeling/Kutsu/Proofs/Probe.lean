import Kutsu.Proofs.Channels
import Kutsu.Proofs.Park

/-! The half-open probe. The breaker knows of one probe in flight, but `on_result` is not
told whose preflight it hears of, and a preflight that is cancelled does not report. -/

namespace Kutsu

open Runs

def Stage.inPreflight : Stage → Bool
  | .registered | .claimed | .rung | .start | .preflight | .report => true
  | _ => false

/-- From the first preflight request to the report of the outcome. -/
def Stage.checking : Stage → Bool
  | .preflight | .report => true
  | _ => false

def Attempt.probing (a : Attempt) : Bool := a.probe && a.phase.stage.inPreflight

/-- The time at which the breaker let the probe through that the dispatcher is about to mark. -/
def DispPc.probing : DispPc → Option ℕ
  | .pop now true | .register _ now true | .claim _ now true | .mark _ now => some now
  | _ => none

/-- A breaker that has opened has seen enough failures, and so reopens on any other. -/
structure Breaker.Counted (b : Breaker) : Prop where
  small : b.consecFailures ≤ UInt32.size - 1
  opened : b.openUntilMs ≠ 0 → b.threshold ≠ 0 ∧ b.threshold ≤ b.consecFailures

namespace Breaker

variable {b : Breaker} {now : ℕ} {ok : Bool}

/-- Another failure reopens the breaker. -/
def Trips (b : Breaker) : Prop := b.threshold ≠ 0 ∧ b.threshold ≤ satAdd32 b.consecFailures 1

instance (b : Breaker) : Decidable b.Trips := inferInstanceAs (Decidable (_ ∧ _))

theorem counted_onResult (hb : b.Counted) : (b.onResult ok now).Counted := by
  have hsmall : satAdd32 b.consecFailures 1 ≤ UInt32.size - 1 := min_le_right _ _
  have hup : b.consecFailures ≤ satAdd32 b.consecFailures 1 :=
    le_min (Nat.le_add_right _ _) hb.small
  unfold onResult
  split_ifs with hth hok htrip
  · exact hb
  · exact ⟨Nat.zero_le _, fun h => absurd rfl h⟩
  · exact ⟨hsmall, fun _ => ⟨hth, htrip⟩⟩
  · exact ⟨hsmall, fun h => ⟨hth, (hb.opened h).2.trans hup⟩⟩

theorem Counted.trips (hb : b.Counted) (hopen : b.openUntilMs ≠ 0) : b.Trips :=
  ⟨(hb.opened hopen).1, (hb.opened hopen).2.trans (le_min (Nat.le_add_right _ _) hb.small)⟩

/-- A failure either trips the breaker or leaves it open for as long as it was. -/
theorem openUntilMs_failure : (b.onResult false now).openUntilMs =
    if b.Trips then satAdd64 now b.cooldownMs else b.openUntilMs := by
  unfold onResult Trips
  by_cases hth : b.threshold = 0
  · simp [hth]
  · by_cases htrip : b.threshold ≤ satAdd32 b.consecFailures 1
    · simp [hth, htrip]
    · simp [hth, htrip]

@[simp] theorem probeDeadlineMs_onResult : (b.onResult ok now).probeDeadlineMs = b.probeDeadlineMs := by
  unfold onResult
  split_ifs <;> rfl

theorem probeInFlight_onResult (h : (b.onResult ok now).probeInFlight = true) :
    b.threshold = 0 ∧ b.probeInFlight = true := by
  unfold onResult at h
  split_ifs at h with hth
  exact ⟨hth, h⟩

theorem probeInFlight_of_hold {untilMs : ℕ} (h : b.decision now = .hold untilMs) (hpast : b.openUntilMs ≤ now) :
    b.probeInFlight = true := by
  unfold decision at h
  split_ifs at h with _ _ hbefore hprobe
  · exact absurd hbefore (Nat.not_lt.mpr hpast)
  · exact hprobe.1

end Breaker

namespace Shared

variable {sh : Shared} {eff : Effect}

/-- The breaker is touched by a report and by the dispatcher's mark alone. -/
theorem breaker_apply (hm : ∀ now w, eff ≠ .markProbe now w) (hr : ∀ ok, eff ≠ .onResult ok) :
    (sh.apply eff).breaker = sh.breaker := by
  cases eff with
  | markProbe now w => exact absurd rfl (hm now w)
  | onResult ok => exact absurd rfl (hr ok)
  | register | dropGuard | send => exact (rewired_apply sh rfl).breaker
  | _ => rfl

end Shared

namespace Stage.Step

variable {cfg : ServerConfig} {sh : Shared} {tok : Token} {a : Attempt} {input : RunInput}
  {p q : Stage} {eff : Effect}

theorem inPreflight (h : Stage.Step cfg sh tok a input p q eff) (hq : q.inPreflight = true) :
    p.inPreflight = true ∧ eff = .idle := by
  cases h with
  | start | preflight => exact ⟨rfl, rfl⟩
  | unreported hr h | reportWake h => rcases h with rfl | rfl <;> cases hq
  | ringing h => rcases h with rfl | rfl | rfl <;> cases hq
  | bump d h => rcases h with rfl | rfl <;> cases hq
  | _ => cases hq

theorem checking (h : Stage.Step cfg sh tok a input p q eff) (hq : q.checking = true) :
    p.checking = true ∨ cfg.netCheck.enabled = true := by
  cases h with
  | start h hon =>
    rcases h with rfl | rfl
    · exact Or.inr (hon.mp rfl)
    · cases hq
  | preflight => exact Or.inl rfl
  | unreported _ h | reportWake h => rcases h with rfl | rfl <;> cases hq
  | ringing h => rcases h with rfl | rfl | rfl <;> cases hq
  | bump d h => rcases h with rfl | rfl <;> cases hq
  | _ => cases hq

theorem outPreflight (h : Stage.Step cfg sh tok a input p q eff) (hp : p.inPreflight = true)
    (hq : q.inPreflight = false) : (input = .cancelled ∨ input = .panic) ∨ (∃ ok, eff = .onResult ok) ∨
      cfg.netCheck.enabled = false ∨ sh.breaker.reports = false := by
  cases h with
  | start h hon =>
    rcases h with rfl | rfl
    · cases hq
    · exact Or.inr (Or.inr (Or.inl (Bool.eq_false_iff.mpr fun he => by cases hon.mpr he)))
  | preflight h => rcases h with rfl | rfl <;> cases hq
  | cancelled hi => exact Or.inl (Or.inl hi)
  | report ok => exact Or.inr (Or.inl ⟨ok, rfl⟩)
  | unreported hr => exact Or.inr (Or.inr (Or.inr hr))
  | panic hi => exact Or.inl (Or.inr hi)
  | _ => cases hp

theorem reporting (h : Stage.Step cfg sh tok a input p q eff) {ok : Bool} (he : eff = .onResult ok) :
    a.reporting input = some ok := by
  cases h with
  | report _ _ hr =>
    obtain rfl := Effect.onResult.inj he
    exact hr
  | talking h => rcases h with rfl | ⟨q, rfl⟩ | ⟨op, rfl, -⟩ <;> cases he
  | persist h => rcases h with rfl | ⟨rec, rfl⟩ <;> cases he
  | panic hi hs => split_ifs at he
  | _ => cases he

end Stage.Step

def Act.unreported : Act → Option Token
  | .run tok .cancelled | .run tok .panic => some tok
  | _ => none

def DispPc.probe : DispPc → Option Token
  | .claim tok _ true | .mark tok _ => some tok
  | _ => none

theorem Stage.Handed.inPreflight {p q : Stage} (h : Stage.Handed p q) : p.inPreflight = true := by
  cases h <;> rfl

def Act.task : Act → Option Token
  | .run tok _ => some tok
  | _ => none

namespace Sys

variable {cfg : ServerConfig} {s s' : Sys} {act : Act} {tok : Token}

def reports (s : Sys) (ok : Bool) : Act → Bool
  | .run tok input => s.attempts[tok]?.any fun a => a.reporting input == some ok
  | _ => false

def inPreflight (s : Sys) (tok : Token) : Bool := s.attempts[tok]?.any fun a => a.phase.stage.inPreflight

inductive BreakerStep (cfg : ServerConfig) (s s' : Sys) (act : Act) : Prop where
  | still (h : s'.sh.breaker = s.sh.breaker)
  | mark {tok : Token} {now : ℕ} (hd : s.disp = .mark tok now) (hd' : s'.disp = .setRinging tok)
      (ha : s'.attempts = s.attempts) (h : s'.sh.breaker =
        s.sh.breaker.markProbeDispatched now (preflightMaxWindowMs cfg.netCheck))
  | report {tok : Token} (ok : Bool) (hact : act.task = some tok) (hr : s.reports ok act = true)
      (hd : s'.disp = s.disp) (hleft : s'.inPreflight tok = false)
      (h : s'.sh.breaker = s.sh.breaker.onResult ok s.sh.clock)

theorem Step.breaker (h : Step cfg s act s') : BreakerStep cfg s s' act := by
  cases h with
  | tick | timer => exact .still rfl
  | place => exact .still rfl
  | @placing i p pc eff hp hn hl =>
    refine .still (Shared.breaker_apply ?_ ?_)
    · rintro now w rfl
      cases Placing.plain hn
    · rintro ok rfl
      unfold Placing.next at hn
      split at hn <;> cases hn
  | dispatch h =>
    cases h with
    | mark hd => exact .mark hd rfl rfl rfl
    | register => exact .still (Shared.breaker_apply (fun _ _ h => by cases h) fun _ h => by cases h)
    | _ => exact .still rfl
  | @run tok input a phase eff ha hn hl =>
    have hstep := Attempt.next_step hn
    by_cases hrep : ∃ ok, eff = .onResult ok
    · obtain ⟨ok, rfl⟩ := hrep
      refine .report ok rfl ?_ rfl ?_ rfl
      · simp [reports, ha, hstep.reporting rfl]
      · have hlt := (List.getElem?_eq_some_iff.mp ha).1
        simp only [inPreflight, List.getElem?_set_self hlt, Option.any_some]
        cases hq : phase.stage.inPreflight with
        | false => rfl
        | true => cases (hstep.inPreflight hq).2
    · refine .still (Shared.breaker_apply ?_ fun ok heq => hrep ⟨ok, heq⟩)
      rintro now w rfl
      cases hstep.plain
  | endCall id =>
    rcases s.sh.endCall_cases id with ⟨e, rest, -, h⟩ | ⟨tok, -, -, h⟩ | ⟨-, -, h⟩
    all_goals
      rw [h]
      exact .still rfl
  | @ender i d pc eff hd hn =>
    refine .still (Shared.breaker_apply ?_ ?_)
    · rintro now w rfl
      cases Ender.plain hn
    · rintro ok rfl
      unfold Ender.next at hn
      split at hn <;> cases hn

theorem breakerCounted_step (hb : s.sh.breaker.Counted) (h : Step cfg s act s') : s'.sh.breaker.Counted := by
  rcases h.breaker with heq | ⟨-, -, -, heq⟩ | ⟨ok, -, -, -, -, heq⟩
  · rw [heq]
    exact hb
  · rw [heq]
    exact ⟨hb.small, hb.opened⟩
  · rw [heq]
    exact Breaker.counted_onResult hb

theorem Step.inPreflight_back (hal : s.Aligned) (h : Step cfg s act s') (hlt : tok < s.attempts.length)
    (hpre : s'.inPreflight tok = true) : s.inPreflight tok = true := by
  obtain ⟨a', ha', hst⟩ := (Option.any_eq_true _ _).mp hpre
  have hold : ∀ a : Attempt, s.attempts[tok]? = some a → a.phase.stage.inPreflight = true →
      s.inPreflight tok = true := fun a ha hst => by simp [inPreflight, ha, hst]
  rcases h.back hal ha' with ⟨a, ha, -, hmoved⟩ | hmade
  · cases hmoved with
    | still heq => exact hold a ha (heq ▸ hst)
    | run hact hstep hn hsh => exact hold a ha (hstep.inPreflight hst).1
    | handed hact hh =>
      exact hold a ha hh.inPreflight
  · exact absurd hmade.last hlt.ne

theorem Step.probing (h : Step cfg s act s') {now : ℕ} (hp : s'.disp.probing = some now) :
    s.disp.probing = some now ∨ s.disp = .decide now ∧ s.sh.breaker.decision now = .probe := by
  cases h with
  | dispatch h =>
    cases h with
    | look hl =>
      generalize s.disp = d at hl
      dsimp only at hp
      cases hl with
      | probe hd =>
        obtain rfl := Option.some.inj hp
        exact Or.inr ⟨rfl, hd⟩
      | _ => cases hp
    | @pop n probe e rest hd hq =>
      left
      rw [hd]
      cases probe <;> exact hp
    | @register e n probe hd =>
      left
      rw [hd]
      cases probe <;> exact hp
    | @claim t n probe hd =>
      left
      rw [hd]
      cases probe <;> exact hp
    | _ => cases hp
  | timer => cases hp
  | _ => exact Or.inl hp

/-- Another attempt's failure is going to reopen the queue before the probe's deadline. -/
def Hurries (s : Sys) (tok : Token) (deadline : ℕ) (act : Act) : Prop :=
  s.inPreflight tok = true ∧ s.reports false act = true ∧ act.task ≠ some tok ∧ s.sh.breaker.Trips ∧
    satAdd64 s.sh.clock s.sh.breaker.cooldownMs < deadline

/-- As long as the probe is in its preflight, the breaker lets nothing through before the
deadline, unless it has been closed. -/
structure Awaits (s : Sys) (tok : Token) (deadline : ℕ) : Prop where
  aligned : s.Aligned
  counted : s.sh.breaker.Counted
  there : tok < s.attempts.length
  small : deadline ≤ UInt64.size - 1
  due : s.inPreflight tok = true → deadline ≤ s.sh.breaker.probeDeadlineMs
  held : s.inPreflight tok = true → s.sh.breaker.probeInFlight = true ∨ s.sh.breaker.openUntilMs = 0 ∨
    deadline ≤ s.sh.breaker.openUntilMs
  ahead : s.inPreflight tok = true → ∀ now, s.disp.probing = some now → deadline ≤ now

theorem Awaits.of_probe {deadline now : ℕ} (hw : s.Awaits tok deadline) (hpre : s.inPreflight tok = true)
    (hp : s.sh.breaker.decision now = .probe) : deadline ≤ now := by
  obtain ⟨-, hopen, hpast, hflight⟩ := Breaker.decision_eq_probe.mp hp
  rcases hw.held hpre with hin | hzero | hle
  · exact (hw.due hpre).trans (hflight hin)
  · exact absurd hzero hopen
  · exact hle.trans hpast

theorem awaits_step {deadline : ℕ} (hw : s.Awaits tok deadline) (hclose : s.reports true act = false)
    (hcalm : ¬ s.Hurries tok deadline act) (h : Step cfg s act s') : s'.Awaits tok deadline := by
  have hal := aligned_step hw.aligned h
  have hcount := breakerCounted_step hw.counted h
  have hback : s'.inPreflight tok = true → s.inPreflight tok = true :=
    h.inPreflight_back hw.aligned hw.there
  have hthere : tok < s'.attempts.length := by
    obtain ⟨a', ha', -⟩ := h.forth hw.aligned (List.getElem?_eq_getElem hw.there)
    exact (List.getElem?_eq_some_iff.mp ha').1
  have hahead : s'.inPreflight tok = true → ∀ now, s'.disp.probing = some now → deadline ≤ now := by
    intro hpre now hp
    rcases h.probing hp with hold | ⟨-, hdec⟩
    · exact hw.ahead (hback hpre) now hold
    · exact hw.of_probe (hback hpre) hdec
  rcases h.breaker with heq | @⟨tok', now, hd, -, -, heq⟩ | @⟨tok', ok, hact, hr, -, hleft, heq⟩
  · refine ⟨hal, hcount, hthere, hw.small, fun hpre => ?_, fun hpre => ?_, hahead⟩
    · rw [heq]
      exact hw.due (hback hpre)
    · rw [heq]
      exact hw.held (hback hpre)
  · refine ⟨hal, hcount, hthere, hw.small, fun hpre => ?_, fun _ => ?_, hahead⟩
    · rw [heq]
      have hle : deadline ≤ now := hw.ahead (hback hpre) now (by rw [hd]; rfl)
      exact le_min (hle.trans (Nat.le_add_right _ _)) hw.small
    · rw [heq]
      exact Or.inl rfl
  · cases ok with
    | true =>
      rw [hr] at hclose
      cases hclose
    | false =>
      have hne : s'.inPreflight tok = true → act.task ≠ some tok := by
        intro hpre heq'
        obtain rfl := Option.some.inj (hact.symm.trans heq')
        rw [hleft] at hpre
        cases hpre
      refine ⟨hal, hcount, hthere, hw.small, fun hpre => ?_, fun hpre => ?_, hahead⟩
      · rw [heq, Breaker.probeDeadlineMs_onResult]
        exact hw.due (hback hpre)
      · right
        rw [heq, Breaker.openUntilMs_failure]
        split_ifs with htrip
        · exact Or.inr (Nat.le_of_not_lt fun hlt => hcalm ⟨hback hpre, hr, hne hpre, htrip, hlt⟩)
        · by_cases hopen : s.sh.breaker.openUntilMs = 0
          · exact Or.inl hopen
          · exact absurd (hw.counted.trips hopen) htrip

theorem breakerCounted_init (clock : ℕ) : (init cfg clock).sh.breaker.Counted :=
  ⟨Nat.zero_le _, fun h => absurd rfl h⟩

theorem breakerCounted_run {ok : Sys → Act → Prop} {clock : ℕ} {tr : List Act}
    (h : Run (step cfg) ok (init cfg clock) tr s) : s.sh.breaker.Counted :=
  h.invariant (I := fun s => s.sh.breaker.Counted) (breakerCounted_init clock) fun _ _ _ hb _ hstep =>
    breakerCounted_step hb (step_cases hstep)

def wedgeDeadline (cfg : ServerConfig) (now : ℕ) : ℕ := satAdd64 now (preflightMaxWindowMs cfg.netCheck)

theorem awaits_mark {now : ℕ} (hal : s.Aligned) (hcount : s.sh.breaker.Counted) (hd : s.disp = .mark tok now)
    (h : Step cfg s .dispatch s') : s'.Awaits tok (wedgeDeadline cfg now) := by
  have hal' := aligned_step hal h
  have hcount' := breakerCounted_step hcount h
  cases h with
  | dispatch h =>
    cases h with
    | @mark tok' now' hd' =>
      cases hd.symm.trans hd'
      obtain ⟨a, ha, -⟩ := hal'.hand tok .claimed rfl
      exact ⟨hal', hcount', (List.getElem?_eq_some_iff.mp ha).1, min_le_right _ _, fun _ => le_rfl,
        fun _ => Or.inl rfl, fun _ _ h => by cases h⟩
    | look hl =>
      rw [hd] at hl
      cases hl
    | pop hd' | register hd' | claim hd' | setRinging hd' | spawn hd' | wake hd' => cases hd.symm.trans hd'

/-- No success closes the breaker. -/
def Unclosed (s : Sys) (act : Act) : Prop := s.reports true act = false

/-- Nothing closes the breaker, and no other attempt reopens it ahead of the probe's deadline. -/
def Spares (tok : Token) (deadline : ℕ) (s : Sys) (act : Act) : Prop :=
  s.Unclosed act ∧ ¬ s.Hurries tok deadline act

/-- While a probe is in its preflight no other call is let through as a probe before the
deadline, as long as no other attempt's failure reopens the breaker ahead of it. -/
theorem single_probe {clock now : ℕ} {tr tr' : List Act} {s₁ s₂ : Sys}
    (hrun : Run (step cfg) Always (init cfg clock) tr s) (hd : s.disp = .mark tok now)
    (hmark : s.step cfg .dispatch = some s₁)
    (h : Run (step cfg) (Spares tok (wedgeDeadline cfg now)) s₁ tr' s₂) (hpre : s₂.inPreflight tok = true) :
    ∀ now', s₂.disp.probing = some now' → wedgeDeadline cfg now ≤ now' := by
  have hw := awaits_mark (sound_run hrun).aligned (breakerCounted_run hrun) hd (step_cases hmark)
  have hw' := h.invariant (I := fun s => s.Awaits tok (wedgeDeadline cfg now)) hw
    fun _ _ _ hw hok hstep => awaits_step hw hok.1 hok.2 (step_cases hstep)
  exact hw'.ahead hpre

instance (s : Sys) (act : Act) : Decidable (s.Unclosed act) := inferInstanceAs (Decidable (_ = _))

instance (s : Sys) (deadline : ℕ) (act : Act) : Decidable (s.Hurries tok deadline act) :=
  inferInstanceAs (Decidable (_ ∧ _ ∧ _ ∧ _ ∧ _))

instance (deadline : ℕ) (s : Sys) (act : Act) : Decidable (Spares tok deadline s act) :=
  inferInstanceAs (Decidable (_ ∧ _))

def hastyBreaker : ServerConfig :=
  { ServerConfig.default with
    maxConcurrentChannels := 4
    maxConcurrentChannels_lt := by decide
    netCheck := { retryMax := 1, breakerThreshold := 1, cooldownMs := 1000 } }

/-- Two calls are in their preflight when the first one fails and opens the breaker; once it
has cooled down, a third is to be marked as its probe. -/
def probeMarked : List Act :=
  placeCall 0 0 ++ List.replicate 9 .dispatch ++ placeCall 1 0 ++ List.replicate 9 .dispatch ++
    [.run 0 .go, .run 0 (.probe (.error "no route")), .run 0 .go, .tick 1000] ++ placeCall 2 0 ++
    List.replicate 7 .dispatch

/-- The second call fails at one time, and the dispatcher looks at a fourth at another. -/
def secondFails (failsAt looksAt : ℕ) : List Act :=
  List.replicate 2 .dispatch ++ [.tick failsAt, .run 1 .go, .run 1 (.probe (.error "no route")), .run 1 .go] ++
    placeCall 3 0 ++ [.tick looksAt] ++ List.replicate 4 .dispatch

/-- A failure that holds the queue up to the probe's deadline does no harm. -/
theorem single_probe_overdue :
    ∃ s s₁ s₂, exec (step hastyBreaker) (init hastyBreaker 0) probeMarked = some s ∧
      s.step hastyBreaker .dispatch = some s₁ ∧
      exec (guarded (step hastyBreaker) (Spares 2 (wedgeDeadline hastyBreaker 1000))) s₁
        (secondFails 20200 21200) = some s₂ ∧
      s₂.disp.probing = some 21200 ∧ wedgeDeadline hastyBreaker 1000 ≤ 21200 := by
  obtain ⟨s, s₁, s₂, hs, hd, hs₁, hs₂, hpre, hp⟩ : ∃ s s₁ s₂, exec (step hastyBreaker) (init hastyBreaker 0)
        probeMarked = some s ∧ s.disp = .mark 2 1000 ∧ s.step hastyBreaker .dispatch = some s₁ ∧
      exec (guarded (step hastyBreaker) (Spares 2 (wedgeDeadline hastyBreaker 1000))) s₁
        (secondFails 20200 21200) = some s₂ ∧
      s₂.inPreflight 2 = true ∧ s₂.disp.probing = some 21200 := ⟨_, _, _, rfl, rfl, rfl, rfl, rfl, rfl⟩
  exact ⟨s, s₁, s₂, hs, hs₁, hs₂, hp, single_probe (run_of_exec hs) hd hs₁ (run_of_guarded hs₂) hpre _ hp⟩

/-- The failure of a call dispatched before the breaker opened takes the probe's flag with
it, and the next call is a second probe. -/
theorem second_probe :
    ∃ s s₁ s₂, exec (step hastyBreaker) (init hastyBreaker 0) probeMarked = some s ∧
      s.disp = .mark 2 1000 ∧ s.step hastyBreaker .dispatch = some s₁ ∧
      exec (guarded (step hastyBreaker) Unclosed) s₁ (secondFails 1000 2000) = some s₂ ∧
      s₂.inPreflight 2 = true ∧ s₂.disp.probing = some 2000 ∧ ¬ wedgeDeadline hastyBreaker 1000 ≤ 2000 :=
  ⟨_, _, _, rfl, rfl, rfl, rfl, rfl, rfl, by decide⟩

/-! A probe that is holding the queue. -/

def Reporting (cfg : ServerConfig) : Prop :=
  cfg.netCheck.enabled = true ∧ cfg.netCheck.breakerThreshold ≠ 0

/-- A probe is let through only where preflights are reported. -/
structure Warranted (cfg : ServerConfig) (s : Sys) : Prop where
  threshold : s.sh.breaker.threshold = cfg.netCheck.breakerThreshold
  opened : s.sh.breaker.openUntilMs ≠ 0 → Reporting cfg
  checking : ∀ (tok : Token) (a : Attempt), s.attempts[tok]? = some a → a.phase.stage.checking = true →
    cfg.netCheck.enabled = true
  probing : ∀ now, s.disp.probing = some now → Reporting cfg
  attempts : ∀ (tok : Token) (a : Attempt), s.attempts[tok]? = some a → a.probe = true → Reporting cfg
  hand : ∀ tok, s.disp.probe = some tok → ∃ a, s.attempts[tok]? = some a ∧ a.probe = true

theorem warranted_init (clock : ℕ) : Warranted cfg (init cfg clock) where
  threshold := rfl
  opened := fun h => absurd rfl h
  checking := fun _ _ h => by cases h
  probing := fun _ h => by cases h
  attempts := fun _ _ h => by cases h
  hand := fun _ h => by cases h

theorem reports_reporting {ok : Bool} (h : s.reports ok act = true) :
    ∃ a, act.task.bind (s.attempts[·]?) = some a ∧ a.phase.stage.checking = true := by
  cases act with
  | run tok input =>
    obtain ⟨a, ha, hr⟩ := (Option.any_eq_true _ _).mp h
    refine ⟨a, ha, ?_⟩
    have hr : a.reporting input = some ok := by simpa using hr
    unfold Attempt.reporting at hr
    split at hr
    · split at hr
      · rename_i hph
        rw [hph]
        rfl
      · cases hr
    · cases hr
  | _ => cases h

theorem Step.threshold (h : Step cfg s act s') : s'.sh.breaker.threshold = s.sh.breaker.threshold := by
  rcases h.breaker with heq | ⟨-, -, -, heq⟩ | ⟨ok, -, -, -, -, heq⟩
  · rw [heq]
  · rw [heq, Breaker.markProbeDispatched_threshold]
  · rw [heq, Breaker.onResult_threshold]

theorem Step.probe (h : Step cfg s act s') (hp : s'.disp.probe = some tok) :
    s.disp.probe = some tok ∨ ∃ a', s'.attempts[tok]? = some a' ∧ a'.probe = true := by
  cases h with
  | dispatch h =>
    cases h with
    | look hl =>
      generalize s.disp = d at hl
      cases hl <;> cases hp
    | @register e now probe hd =>
      cases probe with
      | false => cases hp
      | true =>
        obtain rfl := Option.some.inj hp
        exact Or.inr ⟨_, List.getElem?_concat_length, rfl⟩
    | @claim t now probe hd =>
      cases probe with
      | false => cases hp
      | true =>
        rw [hd]
        exact Or.inl hp
    | _ => cases hp
  | timer => cases hp
  | _ => exact Or.inl hp

theorem warranted_step (hw : Warranted cfg s) (hal : s.Aligned) (hcount : s.sh.breaker.Counted)
    (h : Step cfg s act s') : Warranted cfg s' where
  threshold := h.threshold.trans hw.threshold
  opened := by
    intro hopen
    have hth : cfg.netCheck.breakerThreshold ≠ 0 := by
      rw [← hw.threshold, ← h.threshold]
      exact ((breakerCounted_step hcount h).opened hopen).1
    rcases h.breaker with heq | ⟨-, -, -, heq⟩ | ⟨ok, -, hr, -, -, -⟩
    · exact hw.opened (heq ▸ hopen)
    · rw [heq] at hopen
      exact hw.opened hopen
    · obtain ⟨a, ha, hst⟩ := reports_reporting hr
      obtain ⟨tok, -, ha⟩ := Option.bind_eq_some_iff.mp ha
      exact ⟨hw.checking tok a ha hst, hth⟩
  checking := by
    intro tok a' ha' hst
    rcases h.back hal ha' with ⟨a, ha, -, hmoved⟩ | hm
    · cases hmoved with
      | still heq => exact hw.checking tok a ha (heq ▸ hst)
      | run hact hstep => exact (hstep.checking hst).elim (hw.checking tok a ha) id
      | handed hact hh => rcases hh.target with h | h | h <;> rw [h] at hst <;> cases hst
    · rw [hm.phase] at hst
      cases hst
  probing := by
    intro now hp
    rcases h.probing hp with hold | ⟨-, hdec⟩
    · exact hw.probing now hold
    · exact hw.opened (Breaker.decision_eq_probe.mp hdec).2.1
  attempts := by
    intro tok a' ha' hp
    rcases h.back hal ha' with ⟨a, ha, hsame, -⟩ | hm
    · exact hw.attempts tok a ha (hsame.probe ▸ hp)
    · obtain ⟨now, hd⟩ := hm.disp
      refine hw.probing now ?_
      rw [hd, hp]
      rfl
  hand := by
    intro tok hp
    rcases h.probe hp with hold | hmade
    · obtain ⟨a, ha, hpa⟩ := hw.hand tok hold
      obtain ⟨a', ha', hsame, -⟩ := h.forth hal ha
      exact ⟨a', ha', hsame.probe.trans hpa⟩
    · exact hmade

def probing (s : Sys) (tok : Token) : Bool := s.attempts[tok]?.any (·.probing)

/-- The last probe leaves its preflight without a report: it sees its cancel, or panics. -/
def Deserts (s : Sys) (act : Act) : Prop :=
  s.sh.breaker.probeInFlight = true ∧ act.unreported.any s.probing = true ∧
    ∀ tok < s.attempts.length, s.probing tok = true → act.unreported = some tok

/-- The breaker that takes a probe to be in flight is right. -/
def Backed (s : Sys) : Prop := s.sh.breaker.probeInFlight = true → ∃ tok, s.probing tok = true

theorem backed_step (hb : s.Backed) (hw : Warranted cfg s) (hal : s.Aligned) (hok : ¬ s.Deserts act)
    (h : Step cfg s act s') : s'.Backed := by
  intro hflag
  rcases h.breaker with heq | @⟨tok, now, hd, -, ha, -⟩ | ⟨ok, -, hr, -, -, heq⟩
  · have hold : s.sh.breaker.probeInFlight = true := heq ▸ hflag
    obtain ⟨tok, hp⟩ := hb hold
    obtain ⟨a, ha, hpa⟩ := (Option.any_eq_true _ _).mp hp
    obtain ⟨hprobe, hst⟩ := (Bool.and_eq_true _ _).mp hpa
    obtain ⟨a', ha', hsame, hmoved⟩ := h.forth hal ha
    cases hst' : a'.phase.stage.inPreflight with
    | true => exact ⟨tok, by simp [probing, ha', Attempt.probing, hsame.probe, hprobe, hst']⟩
    | false =>
      cases hmoved with
      | still heq =>
        rw [heq, hst] at hst'
        cases hst'
      | handed hact hh => rcases hh.target with h | h | h <;> rw [h] at hst' <;> cases hst'
      | run hact hstep hn hsh =>
        have hrep := hw.attempts tok a ha hprobe
        rcases hstep.outPreflight hst hst' with hi | ⟨ok, rfl⟩ | hoff | hoff
        · -- it does not report: another probe must be there to take its place
          have hun : act.unreported = some tok := by rcases hi with rfl | rfl <;> rw [hact] <;> rfl
          by_contra hnone
          refine hok ⟨hold, by rw [hun]; exact hp, fun tok' hlt hp' => ?_⟩
          by_contra hne
          obtain ⟨b, hb', hpb⟩ := (Option.any_eq_true _ _).mp hp'
          obtain ⟨b', hget, hsame', hmoved'⟩ := h.forth hal hb'
          refine hnone ⟨tok', ?_⟩
          cases hmoved' with
          | still heq =>
            subst heq
            exact (Option.any_eq_true _ _).mpr ⟨b', hget, hpb⟩
          | handed hact' => cases hact.symm.trans hact'
          | run hact' =>
            obtain ⟨rfl, -⟩ := Act.run.inj (hact.symm.trans hact')
            exact absurd hun hne
        · rw [hsh] at hflag
          exact absurd (hw.threshold.symm.trans (Breaker.probeInFlight_onResult hflag).1) hrep.2
        · exact absurd (hrep.1.symm.trans hoff) (by decide)
        · refine absurd (hw.threshold.symm.trans ?_) hrep.2
          simpa [Breaker.reports] using hoff
  · obtain ⟨a, hget, hp⟩ := hw.hand tok (by rw [hd]; rfl)
    obtain ⟨b, hb, hst⟩ := hal.hand tok .claimed (by rw [hd]; rfl)
    obtain rfl := Option.some.inj (hget.symm.trans hb)
    refine ⟨tok, ?_⟩
    simp [probing, ha, hget, Attempt.probing, hp, hst, Stage.inPreflight]
  · rw [heq] at hflag
    obtain ⟨hth, hflag⟩ := Breaker.probeInFlight_onResult hflag
    obtain ⟨tok, hp⟩ := hb hflag
    obtain ⟨a, ha, hp⟩ := (Option.any_eq_true _ _).mp hp
    have hth' := (hw.attempts tok a ha (Bool.and_elim_left hp)).2
    exact absurd (hw.threshold.symm.trans hth) hth'

/-- Everything the breaker's probe rests on. -/
structure Probed (cfg : ServerConfig) (s : Sys) : Prop where
  aligned : s.Aligned
  counted : s.sh.breaker.Counted
  warranted : Warranted cfg s
  backed : s.Backed

theorem probed_init (clock : ℕ) : Probed cfg (init cfg clock) :=
  ⟨aligned_init clock, breakerCounted_init clock, warranted_init clock, fun h => by cases h⟩

theorem probed_step (hp : Probed cfg s) (hok : ¬ s.Deserts act) (h : Step cfg s act s') : Probed cfg s' where
  aligned := aligned_step hp.aligned h
  counted := breakerCounted_step hp.counted h
  warranted := warranted_step hp.warranted hp.aligned hp.counted h
  backed := backed_step hp.backed hp.warranted hp.aligned hok h

/-- As long as the last probe does not leave its preflight without a report, a breaker that
holds the queue for its probe has one. -/
theorem probe_hold_backed {clock now untilMs : ℕ} {tr : List Act}
    (h : Run (step cfg) (fun s act => ¬ s.Deserts act) (init cfg clock) tr s)
    (hd : s.sh.breaker.decision now = .hold untilMs) (hpast : s.sh.breaker.openUntilMs ≤ now) :
    ∃ a ∈ s.attempts, a.probing = true := by
  have hp : Probed cfg s := h.invariant (probed_init clock) fun _ _ _ hp hok hstep =>
    probed_step hp hok (step_cases hstep)
  obtain ⟨tok, hprobing⟩ := hp.backed (Breaker.probeInFlight_of_hold hd hpast)
  obtain ⟨a, ha, hpa⟩ := (Option.any_eq_true _ _).mp hprobing
  exact ⟨a, List.mem_of_getElem? ha, hpa⟩

instance (s : Sys) (act : Act) : Decidable (s.Deserts act) := inferInstanceAs (Decidable (_ ∧ _ ∧ _))

/-- A failed call opens the breaker, and once that has cooled down the next is its probe. -/
def probeStarted : List Act :=
  placeCall 0 0 ++ List.replicate 9 .dispatch ++
    [.run 0 .go, .run 0 (.probe (.error "no route")), .run 0 .go, .tick 60000] ++ placeCall 1 0 ++
    List.replicate 10 .dispatch ++ [.run 1 .go]

theorem probe_hold_backed_preflight :
    ∃ s, exec (guarded (step eagerBreaker) fun s act => ¬ s.Deserts act) (init eagerBreaker 0) probeStarted =
        some s ∧ s.sh.breaker.decision 60000 = .hold 80200 ∧ s.sh.breaker.openUntilMs ≤ 60000 ∧
      ∃ a ∈ s.attempts, a.probing = true := by
  have hrun : (exec (guarded (step eagerBreaker) fun s act => ¬ s.Deserts act) (init eagerBreaker 0)
      probeStarted).any (fun s => s.sh.breaker.decision 60000 = .hold 80200 ∧
        s.sh.breaker.openUntilMs ≤ 60000) = true := by decide +kernel
  obtain ⟨s, hs, hheld⟩ := (Option.any_eq_true _ _).mp hrun
  obtain ⟨hd, hpast⟩ := of_decide_eq_true hheld
  exact ⟨s, hs, hd, hpast, probe_hold_backed (run_of_guarded hs) hd hpast⟩

/-- The probe is cancelled in its preflight, and the queue is held for nobody. -/
theorem probe_deserted :
    ∃ s, exec (step eagerBreaker) (init eagerBreaker 0)
        (probeStarted ++ [.endCall (callId 1), .ender 0, .run 1 .cancelled]) = some s ∧
      s.sh.breaker.decision 60000 = .hold 80200 ∧ s.sh.breaker.openUntilMs ≤ 60000 ∧
      ¬ ∃ a ∈ s.attempts, a.probing = true := by
  have hrun : (exec (step eagerBreaker) (init eagerBreaker 0)
      (probeStarted ++ [.endCall (callId 1), .ender 0, .run 1 .cancelled])).any (fun s =>
        s.sh.breaker.decision 60000 = .hold 80200 ∧ s.sh.breaker.openUntilMs ≤ 60000 ∧
          ¬ ∃ a ∈ s.attempts, a.probing = true) = true := by decide +kernel
  obtain ⟨s, hs, hheld⟩ := (Option.any_eq_true _ _).mp hrun
  exact ⟨s, hs, of_decide_eq_true hheld⟩

end Sys

end Kutsu