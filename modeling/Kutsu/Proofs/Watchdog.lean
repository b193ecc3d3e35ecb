import Kutsu.Proofs.Harvest

/-! The dead-air watchdog against the record of its calls, and the loop that keeps the mute flag in step with it. -/

namespace Kutsu

open Runs

inductive WatchCall where
  | onActivity (nowMs : ℕ)
  | phase (nowMs : ℕ)

def WatchCall.nowMs : WatchCall → ℕ
  | .onActivity nowMs | .phase nowMs => nowMs

inductive WatchEvent where
  | onActivity (nowMs : ℕ) (cleared : Bool)
  | phase (nowMs : ℕ) (result : WrapPhase)

namespace WatchEvent

def nowMs : WatchEvent → ℕ
  | .onActivity nowMs _ | .phase nowMs _ => nowMs

/-! The records below have the latest call first. -/

/-- When the nudge came that no activity has followed. -/
def outstanding : List WatchEvent → Option ℕ
  | [] => none
  | .onActivity _ _ :: _ => none
  | .phase nowMs .nudge :: _ => some nowMs
  | .phase _ _ :: log => outstanding log

/-- The time of the last activity; the watchdog is made at 0. -/
def lastActivity : List WatchEvent → ℕ
  | [] => 0
  | .onActivity nowMs _ :: _ => nowMs
  | .phase _ _ :: log => lastActivity log

/-- What the watchdog must return, after the calls before. -/
def Right (nudgeMs graceMs : ℕ) (log : List WatchEvent) : WatchEvent → Prop
  | .onActivity _ cleared => cleared = (outstanding log).isSome
  | .phase nowMs .nudge => outstanding log = none ∧ lastActivity log + nudgeMs ≤ nowMs
  | .phase nowMs .finalize => ∃ t, outstanding log = some t ∧ t + graceMs ≤ nowMs
  | .phase _ .idle => True

end WatchEvent

open WatchEvent

structure Watch where
  w : WrapUpState
  log : List WatchEvent := []

namespace Watch

def new (nudgeMs graceMs : ℕ) : Watch := { w := WrapUpState.new nudgeMs graceMs }

def event (s : Watch) : WatchCall → WatchEvent
  | .onActivity nowMs => .onActivity nowMs (s.w.onActivity nowMs).1
  | .phase nowMs => .phase nowMs (s.w.phase nowMs).1

def call (s : Watch) (c : WatchCall) : Watch where
  w := match c with
    | .onActivity nowMs => (s.w.onActivity nowMs).2
    | .phase nowMs => (s.w.phase nowMs).2
  log := s.event c :: s.log

structure Told (nudgeMs graceMs : ℕ) (s : Watch) : Prop where
  nudge : s.w.nudgeMs = nudgeMs
  grace : s.w.graceMs = graceMs
  activity : s.w.lastActivityMs = lastActivity s.log
  nudged : s.w.nudgedAtMs = outstanding s.log

variable {nudgeMs graceMs : ℕ} {s : Watch}

theorem told_new (nudgeMs graceMs : ℕ) : (new nudgeMs graceMs).Told nudgeMs graceMs := ⟨rfl, rfl, rfl, rfl⟩

theorem Told.call (hs : s.Told nudgeMs graceMs) (c : WatchCall) : (s.call c).Told nudgeMs graceMs := by
  cases c with
  | onActivity nowMs => exact ⟨hs.nudge, hs.grace, rfl, rfl⟩
  | phase nowMs =>
    have hnudged := hs.nudged
    simp only [Watch.call, event, WrapUpState.phase]
    split
    · split_ifs
      · exact ⟨hs.nudge, hs.grace, hs.activity, rfl⟩
      · exact ⟨hs.nudge, hs.grace, hs.activity, hnudged⟩
    · split_ifs <;> exact ⟨hs.nudge, hs.grace, hs.activity, hnudged⟩

theorem told_foldl (hs : s.Told nudgeMs graceMs) (calls : List WatchCall) : (calls.foldl call s).Told nudgeMs graceMs :=
  List.foldlRecOn (motive := Told nudgeMs graceMs) calls call hs fun _ hs c _ => hs.call c

theorem lastActivity_le {t : ℕ} {log : List WatchEvent} (h : ∀ e ∈ log, e.nowMs ≤ t) : lastActivity log ≤ t := by
  induction log with
  | nil => exact Nat.zero_le t
  | cons e log ih =>
    rw [List.forall_mem_cons] at h
    cases e with
    | onActivity nowMs cleared => exact h.1
    | phase nowMs result => exact ih h.2

theorem outstanding_le {t t₀ : ℕ} {log : List WatchEvent} (h : ∀ e ∈ log, e.nowMs ≤ t)
    (hout : outstanding log = some t₀) :
    t₀ ≤ t := by
  induction log with
  | nil => cases hout
  | cons e log ih =>
    rw [List.forall_mem_cons] at h
    match e, hout with
    | .phase nowMs .nudge, hout => exact Option.some.inj hout ▸ h.1
    | .phase _ .idle, hout => exact ih h.2 hout
    | .phase _ .finalize, hout => exact ih h.2 hout

theorem Told.right (hs : s.Told nudgeMs graceMs) {c : WatchCall} (htime : ∀ e ∈ s.log, e.nowMs ≤ c.nowMs) :
    Right nudgeMs graceMs s.log (s.event c) := by
  cases c with
  | onActivity nowMs => exact congrArg Option.isSome hs.nudged
  | phase nowMs =>
    have hlast := lastActivity_le htime
    simp only [WatchCall.nowMs] at hlast
    simp only [event, WrapUpState.phase]
    rw [hs.nudge, hs.grace, hs.activity, hs.nudged]
    cases hout : outstanding s.log with
    | none =>
      dsimp only
      split_ifs with hlate
      · exact ⟨hout, by omega⟩
      · trivial
    | some t₀ =>
      have hle : t₀ ≤ nowMs := outstanding_le htime hout
      dsimp only
      split_ifs with hlate
      · exact ⟨t₀, hout, by omega⟩
      · trivial

/-- Everything recorded is what had to be returned. -/
def AllRight (nudgeMs graceMs : ℕ) (log : List WatchEvent) : Prop :=
  ∀ new e old, log = new ++ e :: old → Right nudgeMs graceMs old e

theorem AllRight.cons {log : List WatchEvent} {e : WatchEvent} (hlog : AllRight nudgeMs graceMs log)
    (he : Right nudgeMs graceMs log e) : AllRight nudgeMs graceMs (e :: log) := by
  intro new e' old heq
  cases new with
  | nil =>
    obtain ⟨rfl, rfl⟩ := List.cons.inj heq
    exact he
  | cons e₁ new => exact hlog new e' old (List.cons.inj heq).2

theorem allRight_foldl (hs : s.Told nudgeMs graceMs) (hlog : AllRight nudgeMs graceMs s.log) {calls : List WatchCall}
    (hlate : ∀ e ∈ s.log, ∀ c ∈ calls, e.nowMs ≤ c.nowMs)
    (hsorted : calls.Pairwise fun c c' => c.nowMs ≤ c'.nowMs) : AllRight nudgeMs graceMs (calls.foldl call s).log := by
  induction calls generalizing s with
  | nil => exact hlog
  | cons c calls ih =>
    obtain ⟨hfirst, hsorted⟩ := List.pairwise_cons.mp hsorted
    refine ih (hs.call c) (hlog.cons (hs.right fun e he => hlate e he c List.mem_cons_self)) ?_ hsorted
    intro e he c' hc'
    rcases List.mem_cons.mp he with rfl | he
    · have htime : (s.event c).nowMs = c.nowMs := by cases c <;> rfl
      rw [htime]
      exact hfirst c' hc'
    · exact hlate e he c' (List.mem_cons_of_mem c hc')

theorem activity_of_outstanding_none {mid old : List WatchEvent} {t : ℕ}
    (h : outstanding (mid ++ .phase t .nudge :: old) = none) : ∃ nowMs cleared, .onActivity nowMs cleared ∈ mid := by
  induction mid with
  | nil => cases h
  | cons e mid ih =>
    have hmem : outstanding (mid ++ .phase t .nudge :: old) = none →
        ∃ nowMs cleared, .onActivity nowMs cleared ∈ e :: mid := fun hmid => by
      obtain ⟨nowMs, cleared, hin⟩ := ih hmid
      exact ⟨nowMs, cleared, List.mem_cons_of_mem e hin⟩
    match e, h with
    | .onActivity nowMs cleared, _ => exact ⟨nowMs, cleared, List.mem_cons_self⟩
    | .phase _ .idle, h => exact hmem h
    | .phase _ .finalize, h => exact hmem h

end Watch

def LoopState.vars : LoopState → LoopVars
  | .running v => v
  | .left v _ _ => v

/-- The call of the watchdog that an arm makes: on activity, and on a tick that no gate has ended. -/
def LoopVars.watchCalls (cfg : ServerConfig) (v : LoopVars) (now : ℕ) : LoopInput → List WatchCall
  | .event (.transcript _ _ _) | .event .turnComplete => [.onActivity now]
  | .qtick quality uplink downlink =>
    if (v.gates cfg (mergeQuality quality uplink downlink) downlink).1 = none ∧ wrapUpEnabled cfg ∧ !v.harvesting then
      [.phase now]
    else []
  | _ => []

namespace LoopVars

/-- The loop's watchdog is this one, and the mute flag tells of its nudge. -/
structure Watched (v : LoopVars) (s : Watch) : Prop where
  wrapUp : v.wrapUp = s.w
  mute : v.muteDownlink = s.w.nudgedAtMs.isSome

variable {cfg : ServerConfig} {v : LoopVars} {s : Watch}

theorem Watched.active (hw : v.Watched s) (now : ℕ) : (v.active now).Watched (s.call (.onActivity now)) := by
  refine ⟨?_, ?_⟩
  · simp only [LoopVars.active, Watch.call, hw.wrapUp]
  · simp only [LoopVars.active, Watch.call, WrapUpState.onActivity, hw.mute, hw.wrapUp, Bool.and_not_self,
      Option.isSome_none]

theorem gates_watch (cfg : ServerConfig) (v : LoopVars) (q : CallQuality) (d : DownlinkQuality) :
    (v.gates cfg q d).2.wrapUp = v.wrapUp ∧ (v.gates cfg q d).2.muteDownlink = v.muteDownlink ∧
      (v.gates cfg q d).2.harvesting = v.harvesting := by
  simp only [gates]
  split_ifs
  · exact ⟨rfl, rfl, rfl⟩
  all_goals split <;> exact ⟨rfl, rfl, rfl⟩

theorem Watched.watchdog (hw : v.Watched s) (hon : (wrapUpEnabled cfg && !v.harvesting) = true) (now : ℕ) :
    (v.watchdog cfg now).2.vars.Watched (s.call (.phase now)) := by
  rw [LoopVars.watchdog, if_pos hon]
  simp only [hw.wrapUp]
  have hphase := hw.mute
  unfold Watch.call WrapUpState.phase
  dsimp only
  cases hn : s.w.nudgedAtMs with
  | none =>
    rw [hn] at hphase
    dsimp only
    split_ifs
    · exact ⟨rfl, rfl⟩
    · exact ⟨rfl, hphase.trans (by rw [hn])⟩
  | some t =>
    rw [hn] at hphase
    dsimp only
    split_ifs
    · exact ⟨rfl, hphase.trans (by rw [hn])⟩
    · exact ⟨rfl, hphase.trans (by rw [hn])⟩

theorem Watched.react (hw : v.Watched s) (id : CallId) (now : ℕ) (i : LoopInput) :
    (v.react cfg id now i).next.vars.Watched ((v.watchCalls cfg now i).foldl Watch.call s) := by
  cases i with
  | event ev =>
    cases ev with
    | transcript role text final => exact ⟨(hw.active now).wrapUp, (hw.active now).mute⟩
    | turnComplete => exact hw.active now
    | _ => exact ⟨hw.wrapUp, hw.mute⟩
  | sip r =>
    rcases r with _ | ⟨codec⟩ | ⟨reason⟩
    · simp only [LoopVars.react, onSip]
      split_ifs <;> exact ⟨hw.wrapUp, hw.mute⟩
    · exact ⟨hw.wrapUp, hw.mute⟩
    · simp only [LoopVars.react, onSip]
      split_ifs <;> exact ⟨hw.wrapUp, hw.mute⟩
  | qtick quality uplink downlink =>
    obtain ⟨hwrap, hmute, hharv⟩ := gates_watch cfg v (mergeQuality quality uplink downlink) downlink
    have hkept : (v.gates cfg (mergeQuality quality uplink downlink) downlink).2.Watched s :=
      ⟨hwrap.trans hw.wrapUp, hmute.trans hw.mute⟩
    simp only [LoopVars.react, onTick, watchCalls]
    split
    · rename_i reason v' heq
      rw [heq] at hkept
      rw [heq, if_neg (by simp)]
      exact ⟨hkept.wrapUp, hkept.mute⟩
    · rename_i v' heq
      rw [heq] at hkept hharv
      rw [heq]
      by_cases hon : (wrapUpEnabled cfg && !v'.harvesting) = true
      · rw [if_pos ⟨rfl, by rw [← hharv]; exact Bool.and_eq_true_iff.mp hon⟩]
        exact hkept.watchdog hon now
      · rw [if_neg fun h => hon (by rw [hharv]; exact Bool.and_eq_true_iff.mpr h.2), LoopVars.watchdog, if_neg hon]
        exact hkept
  | _ => exact ⟨hw.wrapUp, hw.mute⟩

end LoopVars

namespace LoopState

/-- The loop with the calls of its watchdog so far. -/
def record (cfg : ServerConfig) (id : CallId) (s : LoopState × List WatchCall) (x : ℕ × LoopInput) :
    Option (LoopState × List WatchCall) :=
  (s.1.step cfg id x).map fun s' => (s', s.2 ++ s.1.vars.watchCalls cfg x.1 x.2)

variable {cfg : ServerConfig} {id : CallId} {s s' : LoopState} {tr : List (ℕ × LoopInput)}

theorem vars_of_step {x : ℕ × LoopInput} (h : s.step cfg id x = some s') :
    s'.vars = (s.vars.react cfg id x.1 x.2).next.vars := by
  obtain ⟨v, rfl, ⟨v', hnext, rfl⟩ | ⟨v', endState, hnext, rfl⟩⟩ := step_cases h
  · simp only [vars, hnext, LoopNext.vars]
  · simp only [vars, hnext, LoopNext.vars]

theorem record_run (calls : List WatchCall) (h : Run (step cfg id) Always s tr s') :
    ∃ calls', Run (record cfg id) Always (s, calls) tr (s', calls') := by
  induction h with
  | nil => exact ⟨calls, .nil⟩
  | @snoc tr s₁ s₂ x _ _ hs ih =>
    obtain ⟨calls', hrun⟩ := ih
    exact ⟨_, hrun.snoc trivial (by rw [record, hs]; rfl)⟩

theorem watched_run {answeredAt now : ℕ} {r : LoopState × List WatchCall}
    (h : Run (record cfg id) Always (.running (LoopVars.init cfg answeredAt now), [.onActivity now]) tr r) :
    r.1.vars.Watched (r.2.foldl Watch.call (Watch.new cfg.deadAirNudgeMs cfg.wrapUpGraceMs)) := by
  refine h.invariant (I := fun r => r.1.vars.Watched
    (r.2.foldl Watch.call (Watch.new cfg.deadAirNudgeMs cfg.wrapUpGraceMs))) ⟨rfl, rfl⟩ ?_
  rintro ⟨s, calls⟩ x r' hw - hs
  obtain ⟨s', hstep, rfl⟩ := Option.map_eq_some_iff.mp hs
  rw [List.foldl_append, vars_of_step hstep]
  exact hw.react id x.1 x.2

end LoopState

/-- The dead-air watchdog returns a nudge once after each activity and in time, a finalization only after the grace
of an outstanding nudge, and tells an activity whether it clears one. In the loop of an answered call the mute flag
is set exactly while a nudge is outstanding. -/
theorem dead_air_watchdog :
    (∀ (nudgeMs graceMs : ℕ) (calls : List WatchCall), (calls.Pairwise fun c c' => c.nowMs ≤ c'.nowMs) →
      let log := (calls.foldl Watch.call (Watch.new nudgeMs graceMs)).log
      (∀ new e old, log = new ++ e :: old → Right nudgeMs graceMs old e) ∧
        ∀ new mid old t t', log = new ++ .phase t .nudge :: (mid ++ .phase t' .nudge :: old) →
          ∃ nowMs cleared, .onActivity nowMs cleared ∈ mid) ∧
      ∀ (cfg : ServerConfig) (id : CallId) (answeredAt now : ℕ) (tr : List (ℕ × LoopInput)) (s : LoopState),
        Run (LoopState.step cfg id) Always (.running (LoopVars.init cfg answeredAt now)) tr s →
        ∃ calls, Run (LoopState.record cfg id) Always
            (.running (LoopVars.init cfg answeredAt now), [.onActivity now]) tr (s, calls) ∧
          let watch := calls.foldl Watch.call (Watch.new cfg.deadAirNudgeMs cfg.wrapUpGraceMs)
          s.vars.wrapUp = watch.w ∧ s.vars.muteDownlink = (outstanding watch.log).isSome := by
  refine ⟨fun nudgeMs graceMs calls hsorted => ?_, fun cfg id answeredAt now tr s hrun => ?_⟩
  · have hright : Watch.AllRight nudgeMs graceMs (calls.foldl Watch.call (Watch.new nudgeMs graceMs)).log := by
      refine Watch.allRight_foldl (Watch.told_new nudgeMs graceMs) ?_ (fun e he => ?_) hsorted
      · exact fun new e old heq => by simp [Watch.new] at heq
      · simp [Watch.new] at he
    refine ⟨hright, fun new mid old t t' heq => ?_⟩
    exact Watch.activity_of_outstanding_none (hright new _ _ heq).1
  · obtain ⟨calls, hrec⟩ := LoopState.record_run [.onActivity now] hrun
    have hw := LoopState.watched_run hrec
    have ht := Watch.told_foldl (Watch.told_new cfg.deadAirNudgeMs cfg.wrapUpGraceMs) calls
    exact ⟨calls, hrec, hw.wrapUp, hw.mute.trans (congrArg Option.isSome ht.nudged)⟩

/-- The first silence of the call ends after the nudge, the second one goes on. -/
def twoSilences : List WatchCall :=
  [.onActivity 0, .phase 24000, .phase 25000, .onActivity 26000, .phase 51000, .phase 66000]

/-- What the loop of such a call receives. -/
def twoSilencesHeard : List (ℕ × LoopInput) :=
  [LoopState.quietTick 24000, LoopState.quietTick 25000, (26000, .event .turnComplete), LoopState.quietTick 51000]

/-- The first nudge is cleared, the second is outstanding and the loop is mute, until the call is finalized. -/
theorem dead_air_watchdog_twoSilences :
    let log := (twoSilences.foldl Watch.call (Watch.new 25000 15000)).log
    let old : List WatchEvent := [.onActivity 26000 true, .phase 25000 .nudge, .phase 24000 .idle, .onActivity 0 false]
    log = .phase 66000 .finalize :: .phase 51000 .nudge :: old ∧
      (∃ t, outstanding (.phase 51000 .nudge :: old) = some t ∧ t + 15000 ≤ 66000) ∧
      (outstanding old = none ∧ lastActivity old + 25000 ≤ 51000) ∧
      (∃ nowMs cleared, .onActivity nowMs cleared ∈ [WatchEvent.onActivity 26000 true]) ∧
      ∃ s calls, Run (LoopState.record ServerConfig.default (callId 0)) Always
          (.running (LoopVars.init ServerConfig.default 0 0), [.onActivity 0]) twoSilencesHeard (s, calls) ∧
        s.vars.muteDownlink = true ∧
        s.vars.muteDownlink = (outstanding (calls.foldl Watch.call (Watch.new 25000 15000)).log).isSome := by
  obtain ⟨hcalls, hloop⟩ := dead_air_watchdog
  obtain ⟨hright, hnudges⟩ := hcalls 25000 15000 twoSilences (by decide)
  obtain ⟨s, hs, hmute⟩ : ∃ s, exec (LoopState.step ServerConfig.default (callId 0))
      (.running (LoopVars.init ServerConfig.default 0 0)) twoSilencesHeard = some s ∧ s.vars.muteDownlink = true :=
    ⟨_, rfl, rfl⟩
  obtain ⟨calls, hrec, -, hout⟩ := hloop ServerConfig.default (callId 0) 0 0 twoSilencesHeard s (run_of_exec hs)
  exact ⟨rfl, hright [] _ _ rfl, hright [.phase 66000 .finalize] _ _ rfl,
    hnudges [.phase 66000 .finalize] [.onActivity 26000 true] [.phase 24000 .idle, .onActivity 0 false] 51000 25000 rfl,
    s, calls, hrec, hmute, hout⟩

end Kutsu
