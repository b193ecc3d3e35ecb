import Kutsu.Model.Engine

/-! What one step of a dial attempt can do, said once: from which stage to which, and
with which effect on what is shared. -/

namespace Kutsu

/-- An operation on the call's record that leaves its state, disposition, goal and error. -/
def StoreOp.Amends (op : StoreOp) (id : CallId) : Prop :=
  (∃ entry, op = .appendTranscript id entry) ∨ (∃ entry, op = .appendAffect id entry) ∨
    (∃ ts, op = .setTranscript id ts) ∨ ∃ q, op = .setQuality id q

/-- The SIP leg's answer is a busy that is to be dialled again. -/
def Attempt.retriesBusy (cfg : ServerConfig) (a : Attempt) : RunInput → Bool
  | .ring (.terminated (.failed .busy _)) => shouldRetryBusy a.entry.attempt cfg.retry
  | _ => false

def Attempt.reporting (a : Attempt) : RunInput → Option Bool
  | .go => match a.phase with
    | .report usable _ => some usable
    | _ => none
  | _ => none

def Phase.waitless : Phase → Bool
  | .start | .report .. | .reportWake .. | .invite | .requeueState _ | .requeueCount _ | .requeuePush _
  | .requeueWake | .answered _ | .geminiFailed .. | .totals .. | .transcribe .. | .resolve .. | .finalizing ..
  | .bumping .. | .countAbort | .persist | .guardDrop _ | .receiverDrop _ | .release | .slotWake => true
  | _ => false

/-- The steps of a task that runs `run_call`. -/
inductive Stage.Step (cfg : ServerConfig) (sh : Shared) (tok : Token) (a : Attempt)
    (input : RunInput) : Stage → Stage → Effect → Prop where
  | start {q : Stage} (h : q = .preflight ∨ q = .invite) (hon : q = .preflight ↔ cfg.netCheck.enabled = true) :
      Step cfg sh tok a input .start q .idle
  | preflight {q : Stage} (h : q = .preflight ∨ q = .report) : Step cfg sh tok a input .preflight q .idle
  | cancelled (hi : input = .cancelled) (h : sh.signalOf tok ≠ some .quiet) :
      Step cfg sh tok a input .preflight (.finalizing true) .idle
  | report (ok : Bool) (h : sh.breaker.reports) (hr : a.reporting input = some ok) :
      Step cfg sh tok a input .report .reportWake (.onResult ok)
  | unreported {q : Stage} (h : sh.breaker.reports = false)
      (hq : q = .invite ∨ q = .finalizing false) : Step cfg sh tok a input .report q .idle
  | reportWake {q : Stage} (h : q = .invite ∨ q = .finalizing false) :
      Step cfg sh tok a input .reportWake q .notify
  | invite (hi : input = .go) : Step cfg sh tok a input .invite .ringing (.dial a.id)
  | ringing {q : Stage} (h : q = .ringing ∨ q = .answered ∨ q = .finalizing false) :
      Step cfg sh tok a input .ringing q .idle
  | busy (h : a.retriesBusy cfg input) : Step cfg sh tok a input .ringing .requeueState .idle
  | requeueState :
      Step cfg sh tok a input .requeueState .requeueCount (.store (.setState a.id .queued))
  | requeueCount : Step cfg sh tok a input .requeueCount .requeuePush .countPlaced
  | requeuePush (eligibleAtMs : ℕ) :
      Step cfg sh tok a input .requeuePush .requeueWake (.push (a.retryEntry eligibleAtMs))
  | requeueWake : Step cfg sh tok a input .requeueWake (.guardDrop .requeued) .notify
  | answered :
      Step cfg sh tok a input .answered (.talking false) (.store (.setState a.id .inProgress))
  | talking {c : Bool} {eff : Effect} (h : eff = .idle ∨ (∃ q, eff = .addTotals q) ∨
      ∃ op, eff = .store op ∧ op.Amends a.id) : Step cfg sh tok a input (.talking c) (.talking c) eff
  | hungUp (h : sh.signalOf tok ≠ some .quiet) :
      Step cfg sh tok a input (.talking false) (.talking true) .idle
  | resolve {c : Bool} : Step cfg sh tok a input (.talking c) (.finalizing c) .idle
  | finalize (c : Closing) : Step cfg sh tok a input (.finalizing c.cancelled) (.bumping c.disposition)
      (.finalize (c.ending a.id sh.clock))
  | bump (d : Disposition) {q : Stage} (h : q = .settled ∨ q = .guardDrop .finalized) :
      Step cfg sh tok a input (.bumping d) q (.bump a.id d)
  | countAbort : Step cfg sh tok a input .settled .settled .qualityAborted
  | persist {eff : Effect} (h : eff = .idle ∨ ∃ rec, eff = .persist rec) :
      Step cfg sh tok a input .settled (.guardDrop .finalized) eff
  | guardDrop (how : Leave) :
      Step cfg sh tok a input (.guardDrop how) (.receiverDrop how) (.dropGuard tok a.id)
  | receiverDrop (how : Leave) :
      Step cfg sh tok a input (.receiverDrop how) .release (.dropReceiver tok)
  | release : Step cfg sh tok a input .release .slotWake .releaseSlot
  | slotWake : Step cfg sh tok a input .slotWake .gone .notify
  | panic {p : Stage} (hi : input = .panic) (h : p.spawned) :
      Step cfg sh tok a input p (.guardDrop .panicked) (if p.owns then .abandon a.id else .idle)

namespace Attempt

variable {cfg : ServerConfig} {sh : Shared} {tok : Token} {a : Attempt} {input : RunInput}
  {ph : Phase} {eff : Effect}

theorem stage_onProbe (now i : ℕ) (r : Except String NetworkHealth) :
    (onProbe cfg now i r).stage = .preflight ∨ (onProbe cfg now i r).stage = .report := by
  unfold onProbe
  cases r <;> dsimp only <;> split_ifs <;> simp [Phase.stage]

theorem step_onTerminated (reason : TermReason) :
    Stage.Step cfg sh tok a (.ring (.terminated reason)) .ringing
      (a.onTerminated cfg sh.clock reason).stage .idle := by
  have hgone : Stage.Step cfg sh tok a (.ring (.terminated reason)) .ringing (.finalizing false) .idle :=
    .ringing (Or.inr (Or.inr rfl))
  unfold onTerminated
  cases reason with
  | failed outcome detail =>
    dsimp only
    split_ifs with h
    · obtain ⟨rfl, hr⟩ := h
      exact .busy hr
    · exact hgone
  | remoteHangup | localHangup =>
    dsimp only
    rw [if_neg fun h => by cases h.1]
    exact hgone

theorem stage_teardown (v : LoopVars) (endState : LoopEnd) (now : ℕ) :
    (Phase.teardown v endState now).stage = .talking (endState = .cancelled) := by
  unfold Phase.teardown
  split_ifs <;> rfl

theorem react_store {id : CallId} {v : LoopVars} {now : ℕ} {i : LoopInput} {op : StoreOp}
    (h : (v.react cfg id now i).store = some op) : op.Amends id := by
  cases i with
  | event ev =>
    cases ev with
    | transcript role text final =>
      simp only [LoopVars.react, LoopVars.onEvent] at h
      split_ifs at h
      obtain rfl := Option.some.inj h
      exact Or.inl ⟨_, rfl⟩
    | affect role label =>
      obtain rfl := Option.some.inj h
      exact Or.inr (Or.inl ⟨_, rfl⟩)
    | _ => cases h
  | sip r =>
    cases r with
    | none => simp only [LoopVars.react, LoopVars.onSip] at h; split_ifs at h
    | some ev =>
      cases ev with
      | answered codec => cases h
      | terminated reason => simp only [LoopVars.react, LoopVars.onSip] at h; split_ifs at h
  | qtick quality uplink downlink =>
    simp only [LoopVars.react, LoopVars.onTick] at h
    split at h
    all_goals
      obtain rfl := Option.some.inj h
      exact Or.inr (Or.inr (Or.inr ⟨_, rfl⟩))
  | _ => cases h

theorem react_cancelled {id : CallId} {v v' : LoopVars} {now : ℕ} {i : LoopInput}
    (h : (v.react cfg id now i).next = .break v' .cancelled) : i = .cancelled := by
  cases i with
  | cancelled => rfl
  | event ev => cases ev <;> cases h
  | eventsClosed | deadline | harvestElapsed => cases h
  | sip r =>
    simp only [LoopVars.react] at h
    unfold LoopVars.onSip at h
    split at h
    · cases h
    all_goals
      split_ifs at h
      all_goals cases h
  | bridgeDone r =>
    simp only [LoopVars.react] at h
    injection h with _ hend
    unfold LoopVars.onBridgeDone at hend
    split at hend
    · split_ifs at hend
    · split_ifs at hend
    · cases hend
    · cases hend
  | qtick quality uplink downlink =>
    simp only [LoopVars.react, LoopVars.onTick] at h
    split at h
    · cases h
    · simp only [LoopVars.watchdog] at h
      split_ifs at h
      split at h <;> cases h

theorem step_loop {v : LoopVars} {i : LoopInput}
    (hc : i matches .cancelled → sh.signalOf tok ≠ some .quiet) :
    Stage.Step cfg sh tok a input (.talking false)
      (Phase.afterLoop sh.clock (v.react cfg a.id sh.clock i).next).stage
      (((v.react cfg a.id sh.clock i).store.map Effect.store).getD .idle) := by
  have heff : ∀ {eff}, ((v.react cfg a.id sh.clock i).store.map Effect.store).getD .idle = eff →
      eff = .idle ∨ (∃ q, eff = .addTotals q) ∨ ∃ op, eff = .store op ∧ op.Amends a.id := by
    intro eff heq
    cases hst : (v.react cfg a.id sh.clock i).store with
    | none => rw [hst] at heq; exact Or.inl heq.symm
    | some op =>
      rw [hst] at heq
      exact Or.inr (Or.inr ⟨op, heq.symm, react_store hst⟩)
  cases hn : (v.react cfg a.id sh.clock i).next with
  | «continue» v' => exact .talking (heff rfl)
  | «break» v' endState =>
    rw [Phase.afterLoop, stage_teardown]
    by_cases hcan : endState = .cancelled
    · subst hcan
      obtain rfl := react_cancelled hn
      exact .hungUp (hc rfl)
    · rw [decide_eq_false hcan]
      exact .talking (heff rfl)

theorem go_of_next (h : a.next cfg sh tok input = some (ph, eff)) (hp : a.phase.waitless = true)
    (hin : input ≠ .panic) : input = .go := by
  unfold next at h
  split at h
  all_goals first
    | rfl
    | exact absurd rfl hin
    | cases h
      done
    | rename_i hph
      rw [hph] at hp
      cases hp

/-- Every step of `run_call` is one of the table's. -/
theorem next_step (h : a.next cfg sh tok input = some (ph, eff)) :
    Stage.Step cfg sh tok a input a.phase.stage ph.stage eff := by
  unfold next at h
  split at h
  any_goals
    rename_i hph
    rw [hph]
  · obtain ⟨rfl, rfl⟩ := Prod.mk.inj (Option.some.inj h)
    split_ifs
    · exact .start (Or.inl rfl) (iff_of_true rfl ‹_›)
    · exact .start (Or.inr rfl) (iff_of_false (fun h => by cases h) ‹_›)
  · obtain ⟨rfl, rfl⟩ := Prod.mk.inj (Option.some.inj h)
    exact .preflight (stage_onProbe _ _ _)
  · split_ifs at h with hs
    obtain ⟨rfl, rfl⟩ := Prod.mk.inj (Option.some.inj h)
    exact .cancelled rfl hs
  · split_ifs at h with hs
    obtain ⟨rfl, rfl⟩ := Prod.mk.inj (Option.some.inj h)
    exact .cancelled rfl hs
  · split_ifs at h
    obtain ⟨rfl, rfl⟩ := Prod.mk.inj (Option.some.inj h)
    exact .preflight (Or.inl rfl)
  · split_ifs at h with hr hu
    all_goals obtain ⟨rfl, rfl⟩ := Prod.mk.inj (Option.some.inj h)
    · exact .report _ hr (by simp only [reporting, hph])
    · exact .unreported (Bool.not_eq_true _ ▸ hr) (Or.inl rfl)
    · exact .unreported (Bool.not_eq_true _ ▸ hr) (Or.inr rfl)
  · obtain ⟨rfl, rfl⟩ := Prod.mk.inj (Option.some.inj h)
    split_ifs
    · exact .reportWake (Or.inl rfl)
    · exact .reportWake (Or.inr rfl)
  · obtain ⟨rfl, rfl⟩ := Prod.mk.inj (Option.some.inj h)
    exact .invite rfl
  · split at h
    all_goals obtain ⟨rfl, rfl⟩ := Prod.mk.inj (Option.some.inj h)
    · exact .ringing (Or.inl rfl)
    · exact .ringing (Or.inr (Or.inr rfl))
  · obtain ⟨rfl, rfl⟩ := Prod.mk.inj (Option.some.inj h)
    exact .ringing (Or.inl rfl)
  · split at h
    all_goals obtain ⟨rfl, rfl⟩ := Prod.mk.inj (Option.some.inj h)
    · exact .ringing (Or.inr (Or.inl rfl))
    · exact step_onTerminated _
    · exact .ringing (Or.inr (Or.inr rfl))
  · obtain ⟨rfl, rfl⟩ := Prod.mk.inj (Option.some.inj h)
    exact .requeueState
  · obtain ⟨rfl, rfl⟩ := Prod.mk.inj (Option.some.inj h)
    exact .requeueCount
  · obtain ⟨rfl, rfl⟩ := Prod.mk.inj (Option.some.inj h)
    exact .requeuePush _
  · obtain ⟨rfl, rfl⟩ := Prod.mk.inj (Option.some.inj h)
    exact .requeueWake
  · obtain ⟨rfl, rfl⟩ := Prod.mk.inj (Option.some.inj h)
    split
    · exact .answered
    · exact .answered
  · obtain ⟨rfl, rfl⟩ := Prod.mk.inj (Option.some.inj h)
    exact .resolve
  · split_ifs at h with hc
    obtain ⟨rfl, rfl⟩ := Prod.mk.inj (Option.some.inj h)
    exact step_loop hc.2
  · obtain ⟨rfl, rfl⟩ := Prod.mk.inj (Option.some.inj h)
    split_ifs
    · exact .talking (Or.inl rfl)
    · exact .talking (Or.inl rfl)
  · obtain ⟨rfl, rfl⟩ := Prod.mk.inj (Option.some.inj h)
    exact .talking (Or.inl rfl)
  · obtain ⟨rfl, rfl⟩ := Prod.mk.inj (Option.some.inj h)
    exact .talking (Or.inr (Or.inr ⟨_, rfl, Or.inr (Or.inr (Or.inr ⟨_, rfl⟩))⟩))
  · obtain ⟨rfl, rfl⟩ := Prod.mk.inj (Option.some.inj h)
    exact .talking (Or.inr (Or.inl ⟨_, rfl⟩))
  · obtain ⟨rfl, rfl⟩ := Prod.mk.inj (Option.some.inj h)
    exact .talking (Or.inr (Or.inr ⟨_, rfl, Or.inr (Or.inr (Or.inl ⟨_, rfl⟩))⟩))
  · obtain ⟨rfl, rfl⟩ := Prod.mk.inj (Option.some.inj h)
    exact .resolve
  · obtain ⟨rfl, rfl⟩ := Prod.mk.inj (Option.some.inj h)
    exact .finalize _
  · obtain ⟨rfl, rfl⟩ := Prod.mk.inj (Option.some.inj h)
    refine .bump _ ?_
    unfold Rest.leave
    split
    · exact Or.inr rfl
    · split_ifs <;> exact Or.inl rfl
  · obtain ⟨rfl, rfl⟩ := Prod.mk.inj (Option.some.inj h)
    exact .countAbort
  · obtain ⟨rfl, rfl⟩ := Prod.mk.inj (Option.some.inj h)
    refine .persist ?_
    split
    · exact Or.inr ⟨_, rfl⟩
    · exact Or.inl rfl
  · obtain ⟨rfl, rfl⟩ := Prod.mk.inj (Option.some.inj h)
    exact .guardDrop _
  · obtain ⟨rfl, rfl⟩ := Prod.mk.inj (Option.some.inj h)
    exact .receiverDrop _
  · obtain ⟨rfl, rfl⟩ := Prod.mk.inj (Option.some.inj h)
    exact .release
  · obtain ⟨rfl, rfl⟩ := Prod.mk.inj (Option.some.inj h)
    exact .slotWake
  · by_cases hs : a.phase.stage.spawned
    · rw [if_pos hs] at h
      obtain ⟨rfl, rfl⟩ := Prod.mk.inj (Option.some.inj h)
      exact .panic rfl hs
    · rw [if_neg hs] at h
      cases h
  · cases h

end Attempt

end Kutsu
