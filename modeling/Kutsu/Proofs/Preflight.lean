import Kutsu.Lib.Run
import Kutsu.Model.NetCheck

/-! The preflight lets a call through only on proof. A probe that succeeds has connected, sent the
setup and then read a `setupComplete` before anything that ends the wait; `run_call` tells the
breaker once how its attempts went, unless it is cancelled first, and dials only on a good one. -/

namespace Kutsu

open Runs

namespace WsItem

def ends : WsItem → Bool
  | .close _ => true
  | .ended => true
  | .error _ => true
  | _ => false

def acks (crate : Crate) : WsItem → Bool
  | .text bytes => crate.isSetupComplete bytes
  | .binary bytes => crate.isSetupComplete bytes
  | _ => false

end WsItem

section Probes

variable {crate : Crate} {nc : NetCheckConfig} {it : WsItem}

theorem onAckItem_eq_none (h : onAckItem crate it = none) : it.acks crate = false ∧ it.ends = false := by
  cases it with
  | text bytes | binary bytes =>
    rw [onAckItem] at h
    split_ifs at h with hack
    exact ⟨Bool.eq_false_of_not_eq_true hack, rfl⟩
  | close frame => cases frame <;> cases h
  | ended | error => cases h
  | pong | other => exact ⟨rfl, rfl⟩

theorem onAckItem_eq_ok (h : onAckItem crate it = some .ok) : it.acks crate = true := by
  cases it with
  | text bytes | binary bytes =>
    rw [onAckItem] at h
    split_ifs at h with hack
    exact hack
  | close frame => cases frame <;> cases h
  | ended | error | pong | other => cases h

end Probes

def ProbeInput.sendsSetup : ProbeInput → Bool
  | .setupSent _ => true
  | _ => false

/-- Connected, and no setup sent yet. -/
def Sampling (ins : List (ProbeInput × ℕ)) : Prop :=
  ∃ connAt before, ins = (.connected (.ok ()), connAt) :: before ∧ ∀ x ∈ before, x.1.sendsSetup = false

/-- The setup was sent after that, and all that has come since are frames of no account. -/
def Awaiting (crate : Crate) (ins : List (ProbeInput × ℕ)) : Prop :=
  ∃ pre sentAt waits, ins = pre ++ (.setupSent (.ok ()), sentAt) :: waits ∧ Sampling pre ∧
    ∀ x ∈ waits, ∃ it, x.1 = .item it ∧ it.acks crate = false ∧ it.ends = false

/-- The next frame then was a `setupComplete`, before the budget was over. -/
def Acknowledged (crate : Crate) (ins : List (ProbeInput × ℕ)) : Prop :=
  ∃ pre it ackAt, ins = pre ++ [(.item it, ackAt)] ∧ Awaiting crate pre ∧ it.acks crate = true

theorem Sampling.concat {ins : List (ProbeInput × ℕ)} (h : Sampling ins) {x : ProbeInput × ℕ}
    (hx : x.1.sendsSetup = false) : Sampling (ins ++ [x]) := by
  obtain ⟨connAt, before, rfl, hb⟩ := h
  refine ⟨connAt, before ++ [x], rfl, ?_⟩
  rw [List.forall_mem_append, List.forall_mem_singleton]
  exact ⟨hb, hx⟩

namespace Probe

variable {crate : Crate} {nc : NetCheckConfig} {ins : List (ProbeInput × ℕ)} {p p' : Probe} {now i : ℕ}
  {m : Measured}

/-- What the inputs of a probe have been, by where it stands. -/
def Story (crate : Crate) (ins : List (ProbeInput × ℕ)) : Probe → Prop
  | .connecting _ => ins = []
  | .warmup _ _ => Sampling ins
  | .warmupWait _ _ _ => Sampling ins
  | .ping _ _ _ => Sampling ins
  | .pingWait _ _ _ _ => Sampling ins
  | .setup _ _ => Sampling ins
  | .acking _ _ _ => Awaiting crate ins
  | .closing .ok _ _ => Acknowledged crate ins
  | .closing _ _ _ => True
  | .done (.ok _) => ∃ pre closedAt, ins = pre ++ [(.closed, closedAt)] ∧ Acknowledged crate pre
  | .done (.error _) => True

theorem story_nextPing (h : Sampling ins) : (nextPing nc now i m).Story crate ins := by
  unfold nextPing
  split_ifs <;> exact h

theorem story_nextWarmup (h : Sampling ins) : (nextWarmup nc now i m).Story crate ins := by
  unfold nextWarmup
  split_ifs
  · exact h
  · exact story_nextPing h

inductive Step (crate : Crate) (nc : NetCheckConfig) (now : ℕ) : Probe → ProbeInput → Probe → Prop where
  | connected (started : ℕ) (m : Measured) :
      Step crate nc now (.connecting started) (.connected (.ok ())) (nextWarmup nc now 0 m)
  | warmup (i : ℕ) (m : Measured) (r : Except String Unit) :
      Step crate nc now (.warmup i m) (.pingSent r) (.warmupWait i (now + pingBudgetMs nc) m)
  | warmupOver (i deadline : ℕ) (m : Measured) {input : ProbeInput} (h : input.sendsSetup = false) :
      Step crate nc now (.warmupWait i deadline m) input (nextWarmup nc now (i + 1) m)
  | warmupWait (i deadline : ℕ) (m : Measured) (it : WsItem) :
      Step crate nc now (.warmupWait i deadline m) (.item it) (.warmupWait i deadline m)
  | ping (i sent : ℕ) (m : Measured) :
      Step crate nc now (.ping i sent m) (.pingSent (.ok ())) (.pingWait i sent (now + pingBudgetMs nc) m)
  | pingOver (i sent deadline : ℕ) (m m' : Measured) {input : ProbeInput} (h : input.sendsSetup = false) :
      Step crate nc now (.pingWait i sent deadline m) input (nextPing nc now (i + 1) m')
  | pingWait (i sent deadline : ℕ) (m : Measured) (it : WsItem) :
      Step crate nc now (.pingWait i sent deadline m) (.item it) (.pingWait i sent deadline m)
  | setup (started : ℕ) (m : Measured) :
      Step crate nc now (.setup started m) (.setupSent (.ok ())) (.acking started (now + max (pingBudgetMs nc) 2000) m)
  | acked (started deadline setupMs : ℕ) (m : Measured) {it : WsItem} (h : it.acks crate = true) :
      Step crate nc now (.acking started deadline m) (.item it) (.closing .ok setupMs m)
  | unacked (started deadline setupMs : ℕ) (m : Measured) (input : ProbeInput) {probe : SetupProbe} (h : probe ≠ .ok) :
      Step crate nc now (.acking started deadline m) input (.closing probe setupMs m)
  | ackWait (started deadline : ℕ) (m : Measured) {it : WsItem} (h : it.acks crate = false ∧ it.ends = false) :
      Step crate nc now (.acking started deadline m) (.item it) (.acking started deadline m)
  | closed (probe : SetupProbe) (setupMs : ℕ) (m : Measured) :
      Step crate nc now (.closing probe setupMs m) .closed (conclude crate nc setupMs m probe)
  | failed (p : Probe) (input : ProbeInput) (e : String) : Step crate nc now p input (.done (.error e))

theorem next_step {input : ProbeInput} (h : p.next crate nc now input = some p') : Step crate nc now p input p' := by
  cases p with
  | connecting started =>
    cases input with
    | connected r =>
      obtain rfl := Option.some.inj h
      cases r with
      | ok _ => exact .connected _ _
      | error e => exact .failed _ _ _
    | _ => cases h
  | warmup i m =>
    cases input with
    | pingSent r =>
      obtain rfl := Option.some.inj h
      exact .warmup _ _ _
    | _ => cases h
  | warmupWait i deadline m =>
    cases input with
    | item it =>
      obtain rfl := Option.some.inj h
      cases onPongItem [0xff, UInt8.ofNat i] it with
      | some r => exact .warmupOver _ _ _ rfl
      | none => exact .warmupWait _ _ _ _
    | deadline =>
      simp only [next] at h
      split_ifs at h
      obtain rfl := Option.some.inj h
      exact .warmupOver _ _ _ rfl
    | _ => cases h
  | ping i sent m =>
    cases input with
    | pingSent r =>
      obtain rfl := Option.some.inj h
      cases r with
      | ok _ => exact .ping _ _ _
      | error e => exact .failed _ _ _
    | _ => cases h
  | pingWait i sent deadline m =>
    cases input with
    | item it =>
      obtain rfl := Option.some.inj h
      cases onPongItem [UInt8.ofNat i] it with
      | some r => cases r <;> exact .pingOver _ _ _ _ _ rfl
      | none => exact .pingWait _ _ _ _ _
    | deadline =>
      simp only [next] at h
      split_ifs at h
      obtain rfl := Option.some.inj h
      exact .pingOver _ _ _ _ _ rfl
    | _ => cases h
  | setup started m =>
    cases input with
    | setupSent r =>
      obtain rfl := Option.some.inj h
      cases r with
      | ok _ => exact .setup _ _
      | error e => exact .failed _ _ _
    | _ => cases h
  | acking started deadline m =>
    cases input with
    | item it =>
      obtain rfl := Option.some.inj h
      cases hitem : onAckItem crate it with
      | some probe =>
        cases probe with
        | ok => exact .acked _ _ _ _ (onAckItem_eq_ok hitem)
        | rejected | timeout => exact .unacked _ _ _ _ _ nofun
      | none => exact .ackWait _ _ _ (onAckItem_eq_none hitem)
    | deadline =>
      simp only [next] at h
      split_ifs at h
      obtain rfl := Option.some.inj h
      exact .unacked _ _ _ _ _ nofun
    | _ => cases h
  | closing probe setupMs m =>
    cases input with
    | closed =>
      obtain rfl := Option.some.inj h
      exact .closed _ _ _
    | _ => cases h
  | done r => cases input <;> cases h

theorem story_step {x : ProbeInput × ℕ} (h : p.Story crate ins) (hs : p.step crate nc x = some p') :
    p'.Story crate (ins ++ [x]) := by
  obtain ⟨input, now⟩ := x
  cases next_step hs with
  | connected started m =>
    obtain rfl : ins = [] := h
    exact story_nextWarmup ⟨now, [], rfl, fun x hx => absurd hx List.not_mem_nil⟩
  | warmup | warmupWait | ping | pingWait => exact Sampling.concat h rfl
  | warmupOver i deadline m hno => exact story_nextWarmup (Sampling.concat h hno)
  | pingOver i sent deadline m m' hno => exact story_nextPing (Sampling.concat h hno)
  | setup started m => exact ⟨ins, now, [], rfl, h, fun x hx => absurd hx List.not_mem_nil⟩
  | @acked started deadline setupMs m it hack => exact ⟨ins, it, now, rfl, h, hack⟩
  | @unacked started deadline setupMs m input probe hno =>
    cases probe with
    | ok => exact absurd rfl hno
    | rejected | timeout => trivial
  | @ackWait started deadline m it hitem =>
    obtain ⟨pre, sentAt, waits, rfl, hpre, hwaits⟩ := h
    refine ⟨pre, sentAt, waits ++ [(.item it, now)], by simp, hpre, ?_⟩
    rw [List.forall_mem_append, List.forall_mem_singleton]
    exact ⟨hwaits, it, rfl, hitem⟩
  | closed probe setupMs m =>
    cases probe with
    | ok => exact ⟨ins, now, rfl, h⟩
    | rejected | timeout => trivial
  | failed => trivial

theorem story_run {startedMs : ℕ} (h : Run (step crate nc) Always (.connecting startedMs) ins p) :
    p.Story crate ins := by
  have hinit : Story crate [] (.connecting startedMs) := rfl
  exact h.trace_invariant hinit fun _ _ _ _ hp _ hs => story_step hp hs

end Probe

/-- An attempt that connected, saw the setup acknowledged in time and was found good enough. -/
def Tried.Passed (crate : Crate) (nc : NetCheckConfig) (t : Tried) : Prop :=
  ∃ acked closedAt health, t.inputs = acked ++ [(.closed, closedAt)] ∧ Acknowledged crate acked ∧
    Run (Probe.step crate nc) Always (.connecting t.startedMs) t.inputs (.done (.ok health)) ∧
    verdict health nc = .ok

theorem passed_of_run {crate : Crate} {nc : NetCheckConfig} {t : Tried} {health : NetworkHealth}
    (h : Run (Probe.step crate nc) Always (.connecting t.startedMs) t.inputs (.done (.ok health)))
    (hok : verdict health nc = .ok) : t.Passed crate nc := by
  obtain ⟨acked, closedAt, hins, hack⟩ := Probe.story_run h
  exact ⟨acked, closedAt, health, hins, hack, h, hok⟩

namespace Effect

def dialled? : Effect → Option CallId
  | .dial id => some id
  | _ => none

def ending? : Effect → Option Ending
  | .finalize e => some e
  | _ => none

end Effect

namespace Check

variable {crate : Crate} {cfg : ServerConfig} {tok : Token} {s s' : Check}

def dials (s : Check) : List CallId := s.effects.filterMap Effect.dialled?

def endings (s : Check) : List Ending := s.effects.filterMap Effect.ending?

def id (s : Check) : CallId := s.attempt.id

/-- All the reports to the breaker, the dials and the finalizations so far. -/
def Told (s : Check) (reports : List Bool) (dials : List CallId) (endings : List Ending) : Prop :=
  s.reports = reports ∧ s.dials = dials ∧ s.endings = endings

/-- An attempt has passed. -/
def Proven (crate : Crate) (cfg : ServerConfig) (s : Check) : Prop := ∃ t ∈ s.tried, t.Passed crate cfg.netCheck

/-- Where `run_call` is and what it has told by then; `cancelled` is whether its cancel arm fired. -/
def Course (crate : Crate) (cfg : ServerConfig) (cancelled : Prop) (s : Check) : Prop :=
  s.tried.length ≤ max cfg.netCheck.retryMax 1 ∧
  match s.attempt.phase with
  | .start => s.tried = [] ∧ ¬ cancelled ∧ s.Told [] [] []
  | .preflight i _ => s.tried.length = i ∧ ¬ cancelled ∧ s.Told [] [] [] ∧
      ∃ earlier t, s.tried = earlier ++ [t] ∧
        Run (Probe.step crate cfg.netCheck) Always (.connecting t.startedMs) t.inputs s.probe
  | .backoff i _ _ => s.tried.length = i ∧ i < max cfg.netCheck.retryMax 1 ∧ ¬ cancelled ∧ s.Told [] [] []
  | .report usable _ => ¬ cancelled ∧ s.Told [] [] [] ∧ (usable = true → s.Proven crate cfg)
  | .reportWake usable _ => ¬ cancelled ∧ s.Told [usable] [] [] ∧ (usable = true → s.Proven crate cfg)
  | .invite => ¬ cancelled ∧ s.Told [true] [] [] ∧ s.Proven crate cfg
  | .inviting => ¬ cancelled ∧ s.Told [true] [s.id] [] ∧ s.Proven crate cfg
  | .finalizing c .early =>
      cancelled ∧ c = cancelledClosing ∧ s.Told [] [] [] ∨
      ¬ cancelled ∧ ∃ e, c = failedClosing e ∧ s.Told [false] [] []
  | .bumping _ .early | .guardDrop _ | .receiverDrop _ | .release | .slotWake | .gone =>
      cancelled ∧ (∃ t, s.Told [] [] [cancelledClosing.ending s.id t]) ∨
      ¬ cancelled ∧ ∃ e t, s.Told [false] [] [(failedClosing e).ending s.id t]
  | _ => False

theorem advance_cases {input : RunInput} (h : s.advance cfg tok input = some s') :
    ∃ phase eff, s.attempt.next cfg s.sh tok input = some (phase, eff) ∧ s'.attempt = { s.attempt with phase } ∧
      s'.reports = s.reports ++ reported s.attempt.phase ∧ s'.effects = s.effects ++ [eff] ∧
      (∀ i lastErr, phase = .preflight i lastErr →
        s'.tried = s.tried ++ [⟨s.sh.clock, []⟩] ∧ s'.probe = .connecting s.sh.clock) ∧
      ((∀ i lastErr, phase ≠ .preflight i lastErr) → s'.tried = s.tried) := by
  rw [advance, Option.bind_eq_bind, Option.bind_eq_some_iff] at h
  obtain ⟨⟨phase, eff⟩, hnext, h⟩ := h
  refine ⟨phase, eff, hnext, ?_⟩
  cases phase with
  | preflight i lastErr =>
    obtain rfl := Option.some.inj h
    exact ⟨rfl, rfl, rfl, fun _ _ _ => ⟨rfl, rfl⟩, fun hne => absurd rfl (hne i lastErr)⟩
  | _ =>
    obtain rfl := Option.some.inj h
    exact ⟨rfl, rfl, rfl, by simp, fun _ => rfl⟩

theorem told_advance {reports : List Bool} {dials : List CallId} {endings : List Ending} {eff : Effect} {phase : Phase}
    (h : s.Told reports dials endings) (hr : s'.reports = s.reports ++ reported phase)
    (he : s'.effects = s.effects ++ [eff]) :
    s'.Told (reports ++ reported phase) (dials ++ eff.dialled?.toList) (endings ++ eff.ending?.toList) := by
  have hmap : ∀ {β : Type} (f : Effect → Option β),
      s'.effects.filterMap f = s.effects.filterMap f ++ (f eff).toList := by
    intro β f
    rw [he, List.filterMap_append]
    cases hf : f eff with
    | none => simp [hf]
    | some b => simp [hf]
  obtain ⟨rfl, rfl, rfl⟩ := h
  exact ⟨hr, hmap Effect.dialled?, hmap Effect.ending?⟩

variable {cancelled : Prop}

/-- The cancel arm is taken while the attempts are made, and settles how the call ends. -/
theorem course_cancelled (hc : s.Course crate cfg cancelled) (h : s.advance cfg tok .cancelled = some s') :
    s'.Course crate cfg True := by
  obtain ⟨phase, eff, hnext, hatt, hrep, heff, -, hsame⟩ := advance_cases h
  obtain ⟨hbound, hc⟩ := hc
  have stop : ∀ {phase₀ : Phase}, s.attempt.phase = phase₀ → reported phase₀ = [] → s.Told [] [] [] →
      (if s.sh.signalOf tok ≠ some .quiet then some (Phase.finalizing cancelledClosing .early, Effect.idle) else none) =
        some (phase, eff) → s'.Course crate cfg True := by
    intro phase₀ hph hnone htold hfin
    split_ifs at hfin
    obtain ⟨rfl, rfl⟩ := Prod.mk.inj (Option.some.inj hfin)
    have htold' := told_advance htold hrep heff
    rw [hph, hnone] at htold'
    rw [Course, hatt, hsame (by simp)]
    exact ⟨hbound, Or.inl ⟨trivial, rfl, htold'⟩⟩
  unfold Attempt.next at hnext
  cases hph : s.attempt.phase with
  | preflight i lastErr =>
    rw [hph] at hnext hc
    exact stop hph rfl hc.2.2.1 hnext
  | backoff i untilMs lastErr =>
    rw [hph] at hnext hc
    exact stop hph rfl hc.2.2.2 hnext
  | live => rw [hph] at hc; exact hc.elim
  | _ => rw [hph] at hnext; cases hnext

theorem course_attempt {i : ℕ} {lastErr : Option String} (hatt : s'.attempt.phase = .preflight (i + 1) lastErr)
    (hlen : s.tried.length = i) (hlt : i < max cfg.netCheck.retryMax 1) (hno : ¬ cancelled) (htold : s'.Told [] [] [])
    (hnew : s'.tried = s.tried ++ [⟨s.sh.clock, []⟩] ∧ s'.probe = .connecting s.sh.clock) :
    s'.Course crate cfg cancelled := by
  have hlen' : s'.tried.length = i + 1 := by rw [hnew.1, List.length_append, hlen, List.length_singleton]
  rw [Course, hatt]
  refine ⟨hlen'.le.trans hlt, hlen', hno, htold, s.tried, _, hnew.1, ?_⟩
  rw [hnew.2]
  exact Run.nil

theorem course_slept (hc : s.Course crate cfg cancelled) (h : s.advance cfg tok .slept = some s') :
    s'.Course crate cfg cancelled := by
  obtain ⟨phase, eff, hnext, hatt, hrep, heff, hnew, -⟩ := advance_cases h
  obtain ⟨-, hc⟩ := hc
  unfold Attempt.next at hnext
  cases hph : s.attempt.phase with
  | backoff i untilMs lastErr =>
    rw [hph] at hnext hc hrep
    obtain ⟨hlen, hlt, hno, htold⟩ := hc
    simp only at hnext
    split_ifs at hnext
    obtain ⟨rfl, rfl⟩ := Prod.mk.inj (Option.some.inj hnext)
    exact course_attempt (congrArg Attempt.phase hatt) hlen hlt hno (told_advance htold hrep heff)
      (hnew (i + 1) lastErr rfl)
  | _ => rw [hph] at hnext; cases hnext

theorem course_probe {r : Except String NetworkHealth} {i : ℕ} {lastErr : Option String}
    (hph : s.attempt.phase = .preflight i lastErr) (hbound : s.tried.length ≤ max cfg.netCheck.retryMax 1)
    (hlen : s.tried.length = i) (hno : ¬ cancelled) (htold : s.Told [] [] [])
    (hproof : ∀ health, r = .ok health → verdict health cfg.netCheck = .ok → s.Proven crate cfg)
    (h : s.advance cfg tok (.probe r) = some s') : s'.Course crate cfg cancelled := by
  obtain ⟨phase, eff, hnext, hatt, hrep, heff, -, hsame⟩ := advance_cases h
  unfold Attempt.next at hnext
  rw [hph] at hnext hrep
  obtain ⟨rfl, rfl⟩ := Prod.mk.inj (Option.some.inj hnext)
  have htold' := told_advance htold hrep heff
  have hretry : ∀ err : String, Attempt.onProbe cfg s.sh.clock i r =
      (if i < max cfg.netCheck.retryMax 1 then
          .backoff i (s.sh.clock + retryBackoffMs i cfg.netCheck.retryBackoffBaseMs) (some err)
        else .report false (some err)) → s'.Course crate cfg cancelled := by
    intro err herr
    rw [herr] at hatt hsame
    split_ifs at hatt hsame with hlt
    · rw [Course, hatt, hsame (by simp)]
      exact ⟨hbound, hlen, hlt, hno, htold'⟩
    · rw [Course, hatt, hsame (by simp)]
      exact ⟨hbound, hno, htold', fun hfalse => Bool.noConfusion hfalse⟩
  cases r with
  | error e => exact hretry _ rfl
  | ok health =>
    by_cases hok : verdict health cfg.netCheck = .ok
    · have hpass : Attempt.onProbe cfg s.sh.clock i (.ok health) = .report true none := if_pos hok
      rw [hpass] at hatt hsame
      have hkept := hsame (by simp)
      obtain ⟨t, ht, hpassed⟩ := hproof health rfl hok
      rw [Course, hatt, hkept]
      exact ⟨hbound, hno, htold', fun _ => ⟨t, hkept ▸ ht, hpassed⟩⟩
    · exact hretry _ (if_neg hok)

theorem Proven.of_tried (h : s.Proven crate cfg) (heq : s'.tried = s.tried) : s'.Proven crate cfg := by
  rw [Proven, heq]
  exact h

/-- Behind the report a good leg is dialled, and a bad one fails the call. -/
theorem course_reported {usable : Bool} {e : String} {phase : Phase} (hatt : s'.attempt = { s.attempt with phase })
    (hphase : phase = if usable then .invite else .finalizing (failedClosing e) .early)
    (hsame : (∀ i lastErr, phase ≠ .preflight i lastErr) → s'.tried = s.tried)
    (hbound : s.tried.length ≤ max cfg.netCheck.retryMax 1) (hno : ¬ cancelled) (htold : s'.Told [usable] [] [])
    (hproof : usable = true → s.Proven crate cfg) : s'.Course crate cfg cancelled := by
  cases usable with
  | true =>
    obtain rfl : phase = .invite := hphase
    rw [Course, hatt, hsame (by simp)]
    exact ⟨hbound, hno, htold, (hproof rfl).of_tried (hsame (by simp))⟩
  | false =>
    obtain rfl : phase = .finalizing (failedClosing e) .early := hphase
    rw [Course, hatt, hsame (by simp)]
    exact ⟨hbound, Or.inr ⟨hno, e, rfl, htold⟩⟩

def Settled (cancelled : Prop) (s : Check) : Prop :=
  cancelled ∧ (∃ t, s.Told [] [] [cancelledClosing.ending s.id t]) ∨
    ¬ cancelled ∧ ∃ e t, s.Told [false] [] [(failedClosing e).ending s.id t]

theorem settled_advance {phase : Phase} {eff : Effect} (h : s.Settled cancelled) (hid : s'.id = s.id)
    (hr : s'.reports = s.reports ++ reported phase) (he : s'.effects = s.effects ++ [eff])
    (hquiet : reported phase = [] ∧ eff.dialled? = none ∧ eff.ending? = none) : s'.Settled cancelled := by
  have htold : ∀ {r d e}, s.Told r d e → s'.Told r d e := by
    intro r d e ht
    have ht' := told_advance ht hr he
    rwa [hquiet.1, hquiet.2.1, hquiet.2.2, Option.toList_none, List.append_nil, List.append_nil, Option.toList_none,
      List.append_nil] at ht'
  rw [Settled, hid]
  exact h.imp (fun ⟨hc, t, ht⟩ => ⟨hc, t, htold ht⟩) fun ⟨hc, e, t, ht⟩ => ⟨hc, e, t, htold ht⟩

theorem course_go (hen : cfg.netCheck.enabled = true) (hc : s.Course crate cfg cancelled)
    (h : s.advance cfg tok .go = some s') : s'.Course crate cfg cancelled := by
  obtain ⟨phase, eff, hnext, hatt, hrep, heff, hnew, hsame⟩ := advance_cases h
  obtain ⟨hbound, hc⟩ := hc
  have hid : s'.id = s.id := by rw [Check.id, hatt]; rfl
  have hkept : (∀ i lastErr, phase ≠ .preflight i lastErr) → s'.tried.length ≤ max cfg.netCheck.retryMax 1 :=
    fun hne => (hsame hne) ▸ hbound
  unfold Attempt.next at hnext
  cases hph : s.attempt.phase with
  | start =>
    rw [hph] at hnext hc hrep
    obtain ⟨hnil, hno, htold⟩ := hc
    simp only [hen, if_pos] at hnext
    obtain ⟨rfl, rfl⟩ := Prod.mk.inj (Option.some.inj hnext)
    exact course_attempt (congrArg Attempt.phase hatt) (congrArg List.length hnil)
      (lt_of_lt_of_le Nat.zero_lt_one (le_max_right _ _)) hno (told_advance htold hrep heff) (hnew 1 none rfl)
  | report usable lastErr =>
    rw [hph] at hnext hc hrep
    obtain ⟨hno, htold, hproof⟩ := hc
    by_cases hwake : s.sh.breaker.reports = true
    · simp only [if_pos hwake] at hnext
      obtain ⟨rfl, rfl⟩ := Prod.mk.inj (Option.some.inj hnext)
      rw [Course, hatt]
      exact ⟨hkept (by simp), hno, told_advance htold hrep heff, fun hu => (hproof hu).of_tried (hsame (by simp))⟩
    · simp only [if_neg hwake] at hnext
      obtain ⟨hphase, rfl⟩ := Prod.mk.inj (Option.some.inj hnext)
      exact course_reported hatt hphase.symm hsame hbound hno (told_advance htold hrep heff) hproof
  | reportWake usable lastErr =>
    rw [hph] at hnext hc hrep
    obtain ⟨hno, htold, hproof⟩ := hc
    obtain ⟨hphase, rfl⟩ := Prod.mk.inj (Option.some.inj hnext)
    exact course_reported hatt hphase.symm hsame hbound hno (told_advance htold hrep heff) hproof
  | invite =>
    rw [hph] at hnext hc hrep
    obtain ⟨hno, htold, hproof⟩ := hc
    obtain ⟨rfl, rfl⟩ := Prod.mk.inj (Option.some.inj hnext)
    rw [Course, hatt, hid]
    exact ⟨hkept (by simp), hno, told_advance htold hrep heff, hproof.of_tried (hsame (by simp))⟩
  | finalizing c rest =>
    rw [hph] at hnext hc hrep
    cases rest with
    | late => exact hc.elim
    | early =>
      obtain ⟨rfl, rfl⟩ := Prod.mk.inj (Option.some.inj hnext)
      rw [Course, hatt, hid]
      refine ⟨hkept (by simp), ?_⟩
      rcases hc with ⟨hyes, rfl, htold⟩ | ⟨hno, e, rfl, htold⟩
      · exact Or.inl ⟨hyes, s.sh.clock, told_advance htold hrep heff⟩
      · exact Or.inr ⟨hno, e, s.sh.clock, told_advance htold hrep heff⟩
  | bumping d rest =>
    rw [hph] at hnext hc hrep
    cases rest with
    | late => exact hc.elim
    | early =>
      obtain ⟨rfl, rfl⟩ := Prod.mk.inj (Option.some.inj hnext)
      rw [Course, hatt]
      exact ⟨hkept (by simp [Rest.leave]), settled_advance hc hid hrep heff ⟨rfl, rfl, rfl⟩⟩
  | guardDrop | receiverDrop | release | slotWake =>
    rw [hph] at hnext hc hrep
    obtain ⟨rfl, rfl⟩ := Prod.mk.inj (Option.some.inj hnext)
    rw [Course, hatt]
    exact ⟨hkept (by simp), settled_advance hc hid hrep heff ⟨rfl, rfl, rfl⟩⟩
  | preflight | backoff | inviting | gone => rw [hph] at hnext; cases hnext
  | _ => rw [hph] at hc; exact hc.elim

theorem record_concat (earlier : List Tried) (t : Tried) (x : ProbeInput × ℕ) :
    record (earlier ++ [t]) x = earlier ++ [{ t with inputs := t.inputs ++ [x] }] := by
  simp [record]

theorem eq_done_of_result {p : Probe} {r : Except String NetworkHealth} (h : p.result? = some r) : p = .done r := by
  cases p with
  | done r' => exact congrArg Probe.done (Option.some.inj h)
  | _ => cases h

theorem course_net {input : ProbeInput} (hc : s.Course crate cfg cancelled)
    (h : s.step crate cfg tok (.net input) = some s') : s'.Course crate cfg cancelled := by
  rw [step] at h
  split at h
  · rename_i i lastErr hph
    obtain ⟨hbound, hc⟩ := hc
    rw [hph] at hc
    obtain ⟨hlen, hno, htold, earlier, t, htried, hprobe⟩ := hc
    rw [Option.bind_eq_bind, Option.bind_eq_some_iff] at h
    obtain ⟨p, hp, h⟩ := h
    rw [htried, record_concat] at h
    have hrun : Run (Probe.step crate cfg.netCheck) Always (.connecting t.startedMs)
        (t.inputs ++ [(input, s.sh.clock)]) p := Run.snoc hprobe trivial hp
    have hlen' : ∀ t' : Tried, (earlier ++ [t']).length = s.tried.length := by
      intro t'
      rw [htried, List.length_append, List.length_append]
      rfl
    cases hres : p.result? with
    | none =>
      rw [hres] at h
      obtain rfl := Option.some.inj h
      rw [Course]
      simp only [hph]
      exact ⟨(hlen' _).trans_le hbound, (hlen' _).trans hlen, hno, htold, earlier, _, rfl, hrun⟩
    | some r =>
      rw [hres] at h
      obtain rfl := eq_done_of_result hres
      refine course_probe (s := { s with probe := .done r, tried := earlier ++ [_] }) hph ((hlen' _).trans_le hbound)
        ((hlen' _).trans hlen) hno htold ?_ h
      rintro health rfl hok
      exact ⟨_, List.mem_append_right _ (List.mem_singleton.mpr rfl), passed_of_run hrun hok⟩
  · cases h

end Check

def CheckAct.isCancel : CheckAct → Bool
  | .cancelled => true
  | _ => false

namespace Check

variable {crate : Crate} {cfg : ServerConfig} {tok : Token} {s s' : Check} {sh : Shared} {entry : PendingEntry}
  {probe : Bool} {tr : List CheckAct}

theorem course_step (hen : cfg.netCheck.enabled = true) {act : CheckAct}
    (hc : s.Course crate cfg (tr.any CheckAct.isCancel = true))
    (h : s.step crate cfg tok act = some s') : s'.Course crate cfg ((tr ++ [act]).any CheckAct.isCancel = true) := by
  rw [List.any_append]
  cases act with
  | cancelled =>
    have hyes : (tr.any CheckAct.isCancel || [CheckAct.cancelled].any CheckAct.isCancel) = true := Bool.or_true _
    rw [hyes, eq_self_iff_true]
    exact course_cancelled hc h
  | others change =>
    rw [show (tr.any CheckAct.isCancel || [CheckAct.others change].any CheckAct.isCancel) =
      tr.any CheckAct.isCancel from Bool.or_false _]
    rw [step] at h
    split_ifs at h
    obtain rfl := Option.some.inj h
    exact hc
  | net input =>
    rw [show (tr.any CheckAct.isCancel || [CheckAct.net input].any CheckAct.isCancel) =
      tr.any CheckAct.isCancel from Bool.or_false _]
    exact course_net hc h
  | slept =>
    rw [show (tr.any CheckAct.isCancel || [CheckAct.slept].any CheckAct.isCancel) =
      tr.any CheckAct.isCancel from Bool.or_false _]
    exact course_slept hc h
  | go =>
    rw [show (tr.any CheckAct.isCancel || [CheckAct.go].any CheckAct.isCancel) =
      tr.any CheckAct.isCancel from Bool.or_false _]
    exact course_go hen hc h

theorem course_run (hen : cfg.netCheck.enabled = true)
    (hrun : Run (step crate cfg tok) Always (init sh entry probe) tr s) :
    s.Course crate cfg (tr.any CheckAct.isCancel = true) := by
  have hinit : (init sh entry probe).Course crate cfg (([] : List CheckAct).any CheckAct.isCancel = true) :=
    ⟨Nat.zero_le _, rfl, Bool.false_ne_true, ⟨rfl, rfl, rfl⟩⟩
  exact hrun.trace_invariant (I := fun tr s => s.Course crate cfg (tr.any CheckAct.isCancel = true)) hinit
    fun _ _ _ _ hc _ hs => course_step hen hc hs

theorem advance_of_next (crate : Crate) {phase : Phase} {eff : Effect}
    (h : s.attempt.next cfg s.sh tok .go = some (phase, eff)) :
    ∃ s', s.step crate cfg tok .go = some s' ∧ s'.attempt = { s.attempt with phase } ∧ s'.sh = s.sh.apply eff ∧
      s'.effects = s.effects ++ [eff] := by
  rw [step, advance, h, Option.bind_eq_bind, Option.bind_some]
  cases phase <;> exact ⟨_, rfl, rfl, rfl, rfl⟩

/-- The call is finalized so, or will be by its own next steps. -/
def Closes (crate : Crate) (cfg : ServerConfig) (tok : Token) (s : Check) (c : Closing) : Prop :=
  (∃ t, s.endings = [c.ending s.id t]) ∨
    s.endings = [] ∧ ∃ n s', exec (step crate cfg tok) s (List.replicate n .go) = some s' ∧
      s'.endings = [c.ending s.id s.sh.clock]

theorem closes_finalizing (crate : Crate) (cfg : ServerConfig) (tok : Token) {c : Closing}
    (hph : s.attempt.phase = .finalizing c .early) (hnone : s.endings = []) :
    Closes crate cfg tok s c := by
  have hnext : s.attempt.next cfg s.sh tok .go =
      some (.bumping c.disposition .early, .finalize (c.ending s.id s.sh.clock)) := by
    unfold Attempt.next
    rw [hph]
    rfl
  obtain ⟨s', hs, -, -, heff⟩ := advance_of_next crate hnext
  refine Or.inr ⟨hnone, 1, s', ?_, ?_⟩
  · rw [List.replicate_one, exec, hs]
    rfl
  · rw [Check.endings, heff, List.filterMap_append]
    rw [Check.endings] at hnone
    rw [hnone]
    rfl

theorem closes_reportWake {lastErr : Option String} (hph : s.attempt.phase = .reportWake false lastErr)
    (hnone : s.endings = []) :
    Closes crate cfg tok s (failedClosing (lastErr.getD "network preflight failed")) := by
  have hnext : s.attempt.next cfg s.sh tok .go =
      some (.finalizing (failedClosing (lastErr.getD "network preflight failed")) .early, .notify) := by
    unfold Attempt.next
    rw [hph]
    rfl
  obtain ⟨s₁, hs, hatt, hsh, heff⟩ := advance_of_next crate hnext
  have hid : s₁.id = s.id := by rw [Check.id, hatt]; rfl
  have hnone₁ : s₁.endings = [] := by
    rw [Check.endings, heff, List.filterMap_append]
    rw [Check.endings] at hnone
    rw [hnone]
    rfl
  obtain ⟨t, ht⟩ | ⟨-, n, s₂, hexec, hend⟩ := closes_finalizing crate cfg tok (congrArg Attempt.phase hatt) hnone₁
  · rw [hnone₁] at ht
    cases ht
  · refine Or.inr ⟨hnone, n + 1, s₂, ?_, ?_⟩
    · rw [List.replicate_succ, exec, hs]
      exact hexec
    · rw [hend, hid, hsh]
      rfl

/-- No report yet and nothing else either: the attempts are under way. -/
def Undecided (s : Check) : Prop :=
  s.Told [] [] [] ∧
    (s.attempt.phase.stage = .start ∨ s.attempt.phase.stage = .preflight ∨ s.attempt.phase.stage = .report)

/-- The report was good, and the call is dialled or on its way there. -/
def Proceeds (s : Check) : Prop :=
  s.reports = [true] ∧ s.endings = [] ∧
    (s.dials = [s.id] ∨ s.dials = [] ∧ (s.attempt.phase.stage = .reportWake ∨ s.attempt.phase.stage = .invite))

/-- The report was bad, the call is not dialled, and it fails with an error. -/
def Fails (crate : Crate) (cfg : ServerConfig) (tok : Token) (s : Check) : Prop :=
  s.reports = [false] ∧ s.dials = [] ∧ ∃ e, Closes crate cfg tok s (failedClosing e)

/-- No report is made, the call is not dialled, and it is cancelled. -/
def Cancels (crate : Crate) (cfg : ServerConfig) (tok : Token) (s : Check) : Prop :=
  s.reports = [] ∧ s.dials = [] ∧ Closes crate cfg tok s cancelledClosing

theorem endings_of_settled {cancelled : Prop} (h : s.Settled cancelled) :
    (cancelled → s.Cancels crate cfg tok) ∧
      (¬ cancelled → s.Undecided ∨ s.Proceeds ∧ s.Proven crate cfg ∨ s.Fails crate cfg tok) := by
  rcases h with ⟨hyes, t, hr, hd, he⟩ | ⟨hno, e, t, hr, hd, he⟩
  · exact ⟨fun _ => ⟨hr, hd, Or.inl ⟨t, he⟩⟩, fun hno => absurd hyes hno⟩
  · exact ⟨fun hyes => absurd hyes hno, fun _ => Or.inr (Or.inr ⟨hr, hd, e, Or.inl ⟨t, he⟩⟩)⟩

theorem endings_of_course (tok : Token) {cancelled : Prop} (hc : s.Course crate cfg cancelled) :
    (cancelled → s.Cancels crate cfg tok) ∧
      (¬ cancelled → s.Undecided ∨ s.Proceeds ∧ s.Proven crate cfg ∨ s.Fails crate cfg tok) := by
  obtain ⟨-, hc⟩ := hc
  cases hph : s.attempt.phase with
  | start =>
    rw [hph] at hc
    exact ⟨fun hyes => absurd hyes hc.2.1, fun _ => Or.inl ⟨hc.2.2, Or.inl (congrArg Phase.stage hph)⟩⟩
  | preflight =>
    rw [hph] at hc
    exact ⟨fun hyes => absurd hyes hc.2.1, fun _ => Or.inl ⟨hc.2.2.1, Or.inr (Or.inl (congrArg Phase.stage hph))⟩⟩
  | backoff =>
    rw [hph] at hc
    exact ⟨fun hyes => absurd hyes hc.2.2.1,
      fun _ => Or.inl ⟨hc.2.2.2, Or.inr (Or.inl (congrArg Phase.stage hph))⟩⟩
  | report =>
    rw [hph] at hc
    exact ⟨fun hyes => absurd hyes hc.1, fun _ => Or.inl ⟨hc.2.1, Or.inr (Or.inr (congrArg Phase.stage hph))⟩⟩
  | reportWake usable lastErr =>
    rw [hph] at hc
    obtain ⟨hno, ⟨hr, hd, he⟩, hproof⟩ := hc
    refine ⟨fun hyes => absurd hyes hno, fun _ => Or.inr ?_⟩
    cases usable with
    | true => exact Or.inl ⟨⟨hr, he, Or.inr ⟨hd, Or.inl (congrArg Phase.stage hph)⟩⟩, hproof rfl⟩
    | false => exact Or.inr ⟨hr, hd, _, closes_reportWake hph he⟩
  | invite =>
    rw [hph] at hc
    obtain ⟨hno, ⟨hr, hd, he⟩, hproof⟩ := hc
    exact ⟨fun hyes => absurd hyes hno,
      fun _ => Or.inr (Or.inl ⟨⟨hr, he, Or.inr ⟨hd, Or.inr (congrArg Phase.stage hph)⟩⟩, hproof⟩)⟩
  | inviting =>
    rw [hph] at hc
    obtain ⟨hno, ⟨hr, hd, he⟩, hproof⟩ := hc
    exact ⟨fun hyes => absurd hyes hno, fun _ => Or.inr (Or.inl ⟨⟨hr, he, Or.inl hd⟩, hproof⟩)⟩
  | finalizing c rest =>
    rw [hph] at hc
    cases rest with
    | late => exact hc.elim
    | early =>
      rcases hc with ⟨hyes, rfl, hr, hd, he⟩ | ⟨hno, e, rfl, hr, hd, he⟩
      · exact ⟨fun _ => ⟨hr, hd, closes_finalizing crate cfg tok hph he⟩, fun hno => absurd hyes hno⟩
      · exact ⟨fun hyes => absurd hyes hno,
          fun _ => Or.inr (Or.inr ⟨hr, hd, e, closes_finalizing crate cfg tok hph he⟩)⟩
  | bumping d rest =>
    rw [hph] at hc
    cases rest with
    | late => exact hc.elim
    | early => exact endings_of_settled hc
  | guardDrop | receiverDrop | release | slotWake | gone =>
    rw [hph] at hc
    exact endings_of_settled hc
  | _ => rw [hph] at hc; exact hc.elim

/-- The INVITE is sent only on proof, and the preflight has three endings: no report and a cancelled
call, a good report and a dial, a bad report and a failed call. -/
theorem preflight_fail_closed (hen : cfg.netCheck.enabled = true)
    (hrun : Run (step crate cfg tok) Always (init sh entry probe) tr s) :
    (s.dials ≠ [] → s.dials = [s.id] ∧ s.tried.length ≤ max cfg.netCheck.retryMax 1 ∧
      ∃ t ∈ s.tried, t.Passed crate cfg.netCheck) ∧
    (tr.any CheckAct.isCancel = true → s.Cancels crate cfg tok) ∧
    (tr.any CheckAct.isCancel = false → s.Undecided ∨ s.Proceeds ∨ s.Fails crate cfg tok) := by
  have hc := course_run hen hrun
  obtain ⟨hyes, hno⟩ := endings_of_course tok hc
  have hno' : tr.any CheckAct.isCancel = false →
      s.Undecided ∨ s.Proceeds ∧ s.Proven crate cfg ∨ s.Fails crate cfg tok :=
    fun hfalse => hno (by rw [hfalse]; exact Bool.false_ne_true)
  refine ⟨fun hd => ?_, hyes, fun hfalse => (hno' hfalse).imp_right fun h => h.imp_left And.left⟩
  cases hany : tr.any CheckAct.isCancel with
  | true => exact absurd (hyes hany).2.1 hd
  | false =>
    rcases hno' hany with ⟨htold, -⟩ | ⟨⟨-, -, hdial | ⟨hnone, -⟩⟩, hproof⟩ | hfail
    · exact absurd htold.2.1 hd
    · exact ⟨hdial, hc.1, hproof⟩
    · exact absurd hnone hd
    · exact absurd hfail.2.1 hd

def probeCfg : ServerConfig :=
  { ServerConfig.default with netCheck := { ServerConfig.default.netCheck with
      samples := 1, warmupPings := 0, retryMax := 2, retryBackoffBaseMs := 0 } }

def probeCrate : Crate where
  parseServerMessage bytes := if bytes = [1] then some [.setupComplete] else none
  f32Text _ := "0"

def probeEntry : PendingEntry where
  callId := callId 0
  number := "100"
  scenario := ⟨.null, none, none⟩
  eligibleAtMs := 0
  attempt := 1

/-- The first attempt does not connect, and the second one passes. -/
def secondTry : List CheckAct :=
  [.go, .net (.connected (.error "refused")), .slept, .net (.connected (.ok ())), .net (.pingSent (.ok ())),
    .net (.item (.pong [0])), .net (.setupSent (.ok ())), .net (.item .other), .net (.item (.text [1])), .net .closed,
    .go, .go, .go]

theorem preflight_fail_closed_secondTry :
    ∃ s, Run (step probeCrate probeCfg 0) Always (init (Shared.init probeCfg 0) probeEntry false) secondTry s ∧
      s.dials = [s.id] ∧ s.tried.length ≤ max probeCfg.netCheck.retryMax 1 ∧
      ∃ t ∈ s.tried, t.Passed probeCrate probeCfg.netCheck := by
  have hrun : (exec (step probeCrate probeCfg 0) (init (Shared.init probeCfg 0) probeEntry false) secondTry).any
      (fun s => s.dials ≠ []) = true := by decide +kernel
  obtain ⟨s, hexec, hd⟩ := (Option.any_eq_true _ _).mp hrun
  exact ⟨s, run_of_exec hexec, (preflight_fail_closed rfl (run_of_exec hexec)).1 (of_decide_eq_true hd)⟩

end Check

end Kutsu
