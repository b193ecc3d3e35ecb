import Kutsu.Lib.Window
import Kutsu.Lib.Run
import Kutsu.Model.RunCall

/-! The harvest of a call whose phone has hung up. The loop then waits for the model's
result, and its quality ticks go on: their gates look at the last readings of the whole
call, from before the hangup and after it. -/

namespace Kutsu

open Runs Windows

structure Reading where
  quality : CallQuality
  downlink : DownlinkQuality

namespace Reading

def uplink (t : Reading) : ℕ × ℕ := (t.quality.uplinkReceived, t.quality.uplinkLost)

def breaches (cfg : ServerConfig) (t : Reading) : Bool :=
  downlinkBreach t.downlink cfg.netCheck.downlinkLossAbortPct

end Reading

def LoopInput.reading : LoopInput → Option Reading
  | .qtick quality uplink downlink => some ⟨mergeQuality quality uplink downlink, downlink⟩
  | _ => none

def readings (tr : List (ℕ × LoopInput)) : List Reading := tr.filterMap fun i => i.2.reading

/-- The loss over the last eight readings, once there are as many. -/
def windowLoss (seen : List Reading) (t : Reading) : Option ℚ :=
  if UPLINK_WINDOW_TICKS ≤ (seen ++ [t]).length then
    ((seen ++ [t]).rtake UPLINK_WINDOW_TICKS).head?.bind fun oldest => windowLossPct oldest.uplink t.uplink
  else none

/-- A reading that one of the three media gates ends the call on, after those before it:
the underruns are too many, the loss over the last eight readings is too high, or the last
five all report too high a loss on the way down. -/
inductive Trips (cfg : ServerConfig) (seen : List Reading) (t : Reading) : Prop where
  | underruns (h : shouldAbort cfg.quality t.quality.underruns = true)
  | uplink {pct : ℚ} (h : windowLoss seen t = some pct) (hlt : cfg.netCheck.uplinkLossAbortPct < pct)
  | downlink (hlen : DOWNLINK_BREACH_TICKS ≤ (seen ++ [t]).length)
      (h : ∀ x ∈ (seen ++ [t]).rtake DOWNLINK_BREACH_TICKS, x.breaches cfg = true)

/-- The arms a harvest may be left on. -/
def LoopInput.endsHarvest : LoopInput → Bool
  | .event (.endCall _) | .harvestElapsed | .bridgeDone _ | .deadline | .cancelled => true
  | _ => false

namespace LoopVars

variable {cfg : ServerConfig} {v v' : LoopVars} {seen : List Reading} {t : Reading} {now : ℕ} {id : CallId}

/-- The gates' accumulators hold the window and the streak of the readings so far. -/
structure Gauged (cfg : ServerConfig) (v : LoopVars) (seen : List Reading) : Prop where
  hist : v.uplinkHist = (seen.map Reading.uplink).rtake UPLINK_WINDOW_TICKS
  streak : v.downlinkOverStreak = streak (Reading.breaches cfg) seen

theorem map_rtake {α β : Type*} (f : α → β) (l : List α) (n : ℕ) : (l.map f).rtake n = (l.rtake n).map f := by
  rw [List.rtake, List.rtake, List.length_map, List.map_drop]

theorem Gauged.grown (hg : Gauged cfg v seen) (t : Reading) :
    (v.uplinkHist ++ [t.uplink]).drop ((v.uplinkHist ++ [t.uplink]).length - UPLINK_WINDOW_TICKS) =
      ((seen ++ [t]).map Reading.uplink).rtake UPLINK_WINDOW_TICKS := by
  rw [hg.hist, ← List.rtake, rtake_concat, List.map_append]
  rfl

theorem windowLoss_eq (seen : List Reading) (t : Reading) :
    (if UPLINK_WINDOW_TICKS ≤ (((seen ++ [t]).map Reading.uplink).rtake UPLINK_WINDOW_TICKS).length then
      (((seen ++ [t]).map Reading.uplink).rtake UPLINK_WINDOW_TICKS).head?.bind fun oldest =>
        windowLossPct oldest t.uplink
    else none) = windowLoss seen t := by
  have hlen : UPLINK_WINDOW_TICKS ≤ (((seen ++ [t]).map Reading.uplink).rtake UPLINK_WINDOW_TICKS).length ↔
      UPLINK_WINDOW_TICKS ≤ (seen ++ [t]).length := by
    rw [length_rtake, List.length_map, Nat.le_min, and_iff_right le_rfl]
  rw [windowLoss, map_rtake, List.head?_map, Option.bind_map, ← map_rtake]
  simp only [hlen, Function.comp_def]

/-- The gates stop the call on a reading that trips one of them, and else take it up. -/
theorem gates_spec (hg : Gauged cfg v seen) (t : Reading) :
    ∃ reason v', v.gates cfg t.quality t.downlink = (reason, v') ∧ v'.harvesting = v.harvesting ∧
      (reason.isSome = true ↔ Trips cfg seen t) ∧ (reason = none → Gauged cfg v' (seen ++ [t])) := by
  have hstreak : streak (Reading.breaches cfg) (seen ++ [t]) =
      if t.breaches cfg then v.downlinkOverStreak + 1 else 0 := by rw [streak_concat, hg.streak]
  unfold gates
  by_cases hu : shouldAbort cfg.quality t.quality.underruns = true
  · rw [if_pos hu]
    exact ⟨_, _, rfl, rfl, iff_of_true rfl (.underruns hu), fun h => by cases h⟩
  rw [if_neg hu]
  have hgrown := hg.grown t
  have hloss := windowLoss_eq seen t
  unfold Reading.uplink at hgrown hloss
  dsimp only
  rw [hgrown, hloss]
  cases hf : (windowLoss seen t).filter fun pct => cfg.netCheck.uplinkLossAbortPct < pct with
  | some pct =>
    obtain ⟨hpct, hlt⟩ := Option.filter_eq_some_iff.mp hf
    exact ⟨_, _, rfl, rfl, iff_of_true rfl (.uplink hpct (of_decide_eq_true hlt)), fun h => by cases h⟩
  | none =>
    have hnu : ∀ pct, windowLoss seen t = some pct → ¬ cfg.netCheck.uplinkLossAbortPct < pct := by
      intro pct hpct hlt
      rw [Option.filter_eq_none_iff] at hf
      exact absurd (decide_eq_true hlt) (hf pct hpct)
    have htrips : Trips cfg seen t ↔ DOWNLINK_BREACH_TICKS ≤ streak (Reading.breaches cfg) (seen ++ [t]) := by
      rw [le_streak_iff]
      refine ⟨fun h => ?_, fun h => .downlink h.1 h.2⟩
      cases h with
      | underruns h => exact absurd h hu
      | uplink h hlt => exact absurd hlt (hnu _ h)
      | downlink hlen h => exact ⟨hlen, h⟩
    rw [htrips, hstreak]
    dsimp only
    cases hb : t.breaches cfg with
    | true =>
      have hb' : downlinkBreach t.downlink cfg.netCheck.downlinkLossAbortPct = true := hb
      rw [if_pos hb', if_pos rfl]
      rw [hb, if_pos rfl] at hstreak
      by_cases hfive : DOWNLINK_BREACH_TICKS ≤ v.downlinkOverStreak + 1
      · rw [if_pos hfive]
        exact ⟨_, _, rfl, rfl, iff_of_true rfl hfive, fun h => by cases h⟩
      · rw [if_neg hfive]
        exact ⟨_, _, rfl, rfl, iff_of_false Bool.false_ne_true hfive, fun _ => ⟨rfl, hstreak.symm⟩⟩
    | false =>
      have hb' : downlinkBreach t.downlink cfg.netCheck.downlinkLossAbortPct = false := hb
      rw [hb', if_neg Bool.false_ne_true, if_neg Bool.false_ne_true]
      rw [hb, if_neg Bool.false_ne_true] at hstreak
      exact ⟨_, _, rfl, rfl, iff_of_false Bool.false_ne_true (Nat.not_succ_le_zero 4), fun _ => ⟨rfl, hstreak.symm⟩⟩

inductive HarvestStep (cfg : ServerConfig) (seen : List Reading) (v : LoopVars) (i : LoopInput) : LoopNext → Prop where
  | stay {v' : LoopVars} (hg : Gauged cfg v' (seen ++ i.reading.toList))
      (hh : v.harvesting = true → v'.harvesting = true)
      (hno : ∀ t, i.reading = some t → ¬ Trips cfg seen t) : HarvestStep cfg seen v i (.continue v')
  | leave {v' : LoopVars} {endState : LoopEnd} (hi : v.harvesting = true → i.endsHarvest = true)
      (hno : ∀ t, i.reading = some t → ¬ Trips cfg seen t) : HarvestStep cfg seen v i (.break v' endState)
  | trip {v' : LoopVars} {endState : LoopEnd} {t : Reading} (hi : i.endsHarvest = false) (ht : i.reading = some t)
      (h : Trips cfg seen t) : HarvestStep cfg seen v i (.break v' endState)

theorem HarvestStep.of_quiet {i : LoopInput} (hg : Gauged cfg v seen) (hi : i.reading = none)
    (hhist : v'.uplinkHist = v.uplinkHist) (hstreak : v'.downlinkOverStreak = v.downlinkOverStreak)
    (hh : v.harvesting = true → v'.harvesting = true) : HarvestStep cfg seen v i (.continue v') := by
  refine .stay ?_ hh fun t ht => ?_
  · rw [hi, Option.toList_none, List.append_nil]
    exact ⟨hhist.trans hg.hist, hstreak.trans hg.streak⟩
  · rw [hi] at ht
    cases ht

theorem HarvestStep.of_leave {endState : LoopEnd} {i : LoopInput} (hi : i.reading = none)
    (hend : v.harvesting = true → i.endsHarvest = true) : HarvestStep cfg seen v i (.break v' endState) := by
  refine .leave hend fun t ht => ?_
  rw [hi] at ht
  cases ht

/-- The watchdog leaves the gates alone, and ends a call only before its harvest. -/
theorem watchdog_spec (cfg : ServerConfig) (v : LoopVars) (now : ℕ) :
    (∃ v', (v.watchdog cfg now).2 = .continue v' ∧ v'.uplinkHist = v.uplinkHist ∧
      v'.downlinkOverStreak = v.downlinkOverStreak ∧ v'.harvesting = v.harvesting) ∨
    (v.harvesting = false ∧ ∃ v', (v.watchdog cfg now).2 = .break v' .completed) := by
  unfold watchdog
  split_ifs with hw
  · have hoff : v.harvesting = false := by simpa using (Bool.and_eq_true_iff.mp hw).2
    dsimp only
    split
    · exact Or.inl ⟨_, rfl, rfl, rfl, rfl⟩
    · exact Or.inr ⟨hoff, _, rfl⟩
    · exact Or.inl ⟨_, rfl, rfl, rfl, rfl⟩
  · exact Or.inl ⟨v, rfl, rfl, rfl, rfl⟩

theorem react_harvest (now : ℕ) (id : CallId) (hg : Gauged cfg v seen) (i : LoopInput) :
    HarvestStep cfg seen v i (v.react cfg id now i).next := by
  cases i with
  | event ev =>
    cases ev with
    | endCall g => exact .of_leave rfl fun _ => rfl
    | _ => exact .of_quiet hg rfl rfl rfl fun h => h
  | eventsClosed => exact .of_quiet hg rfl rfl rfl fun h => h
  | bridgeDone | deadline | cancelled | harvestElapsed => exact .of_leave rfl fun _ => rfl
  | sip r =>
    have hgone : ∀ r, HarvestStep cfg seen v (.sip r) (if v.harvesting then
        ({ next := .continue { v with sipOpen := false } } : LoopStep)
      else if 0 < cfg.wrapUpGraceMs ∧ harvestEligible v.transcriptEvents v.goal.isSome then
        { cues := [cfg.prompts.harvestCue]
          next := .continue { v with sipOpen := false, harvesting := true,
                                     harvestDeadline := some (now + cfg.wrapUpGraceMs) } }
      else { next := .break { v with sipOpen := false } .hungUp }).next := by
      intro r
      split_ifs with hh
      · exact .of_quiet hg rfl rfl rfl fun h => h
      · exact .of_quiet hg rfl rfl rfl fun _ => rfl
      · exact .of_leave rfl fun h => absurd h hh
    cases r with
    | none => exact hgone none
    | some ev =>
      cases ev with
      | answered codec => exact .of_quiet hg rfl rfl rfl fun h => h
      | terminated reason => exact hgone _
  | qtick quality uplink downlink =>
    obtain ⟨reason, v₁, hgates, hharv, htrips, hgauged⟩ :=
      gates_spec hg ⟨mergeQuality quality uplink downlink, downlink⟩
    simp only [react, onTick, hgates]
    cases reason with
    | some reason => exact .trip rfl rfl (htrips.mp rfl)
    | none =>
      have hno : ∀ t, LoopInput.reading (.qtick quality uplink downlink) = some t → ¬ Trips cfg seen t := by
        rintro t ht htrip
        obtain rfl := Option.some.inj ht
        cases htrips.mpr htrip
      have hg₁ := hgauged rfl
      dsimp only
      rcases watchdog_spec cfg v₁ now with ⟨v₂, hnext, hhist, hstreak, hh⟩ | ⟨hoff, v₂, hnext⟩
      · rw [hnext]
        exact .stay ⟨hhist.trans hg₁.hist, hstreak.trans hg₁.streak⟩ (fun h => hh.trans (hharv.trans h)) hno
      · rw [hnext]
        refine .leave (fun h => ?_) hno
        rw [← hharv, hoff] at h
        cases h

end LoopVars

/-- None of the readings trips a gate, after those before it. -/
def Spared (cfg : ServerConfig) (seen ts : List Reading) : Prop :=
  ∀ pre t, pre ++ [t] <+: ts → ¬ Trips cfg (seen ++ pre) t

theorem spared_nil (cfg : ServerConfig) (seen : List Reading) : Spared cfg seen [] := by
  intro pre t h
  exact absurd (List.prefix_nil.mp h) (by simp)

theorem spared_concat {cfg : ServerConfig} {seen ts : List Reading} {o : Option Reading} :
    Spared cfg seen (ts ++ o.toList) ↔ Spared cfg seen ts ∧ ∀ t, o = some t → ¬ Trips cfg (seen ++ ts) t := by
  cases o with
  | none => simp
  | some t =>
    rw [Spared, Option.toList_some, forall_prefix_concat]
    simp [Spared]

theorem spared_singleton {cfg : ServerConfig} {seen : List Reading} {t : Reading} :
    Spared cfg seen [t] ↔ ¬ Trips cfg seen t := by
  have hone : [t] = [] ++ (some t).toList := rfl
  rw [hone, spared_concat, List.append_nil, and_iff_right (spared_nil cfg seen)]
  exact ⟨fun h => h t rfl, fun h t' ht => Option.some.inj ht ▸ h⟩

theorem readings_concat (tr : List (ℕ × LoopInput)) (x : ℕ × LoopInput) :
    readings (tr ++ [x]) = readings tr ++ x.2.reading.toList := by
  rw [readings, List.filterMap_append, List.filterMap_cons, List.filterMap_nil]
  cases x.2.reading with
  | none => rfl
  | some t => rfl

namespace LoopState

variable {cfg : ServerConfig} {id : CallId} {s s' : LoopState} {tr tr' : List (ℕ × LoopInput)} {v : LoopVars}
  {seen ts : List Reading} {x : ℕ × LoopInput}

theorem step_cases (h : s.step cfg id x = some s') : ∃ v, s = .running v ∧
    ((∃ v', (v.react cfg id x.1 x.2).next = .continue v' ∧ s' = .running v') ∨
      ∃ v' endState, (v.react cfg id x.1 x.2).next = .break v' endState ∧ s' = .left v' endState x.2) := by
  unfold step at h
  split at h
  · split_ifs at h
    split at h
    · exact ⟨_, rfl, Or.inl ⟨_, ‹_›, (Option.some.inj h).symm⟩⟩
    · exact ⟨_, rfl, Or.inr ⟨_, _, ‹_›, (Option.some.inj h).symm⟩⟩
  · cases h

theorem gauged_run {answeredAt now : ℕ}
    (h : Run (step cfg id) Always (.running (LoopVars.init cfg answeredAt now)) tr s) :
    ∀ v, s = .running v → v.Gauged cfg (readings tr) := by
  refine h.trace_invariant (I := fun tr s => ∀ v, s = .running v → v.Gauged cfg (readings tr)) ?_ ?_
  · rintro v hv
    obtain rfl := LoopState.running.inj hv
    exact ⟨rfl, rfl⟩
  · rintro tr s x s' hg - hs v' hv'
    obtain ⟨v, rfl, ⟨v₁, hnext, rfl⟩ | ⟨v₁, endState, hnext, rfl⟩⟩ := step_cases hs
    · obtain rfl := LoopState.running.inj hv'
      have hstep := LoopVars.react_harvest x.1 id (hg v rfl) x.2
      rw [hnext] at hstep
      rw [readings_concat]
      cases hstep with
      | stay hg' => exact hg'
    · cases hv'

/-- How far a harvest has come: it waits, it is over, or a gate has cut it short. -/
inductive Harvested (cfg : ServerConfig) (seen ts : List Reading) : LoopState → Prop where
  | waiting {v : LoopVars} (hh : v.harvesting = true) (hg : v.Gauged cfg (seen ++ ts)) (hs : Spared cfg seen ts) :
      Harvested cfg seen ts (.running v)
  | ended {v : LoopVars} {endState : LoopEnd} {i : LoopInput} (hi : i.endsHarvest = true) (hs : Spared cfg seen ts) :
      Harvested cfg seen ts (.left v endState i)
  | cut {v : LoopVars} {endState : LoopEnd} {i : LoopInput} (hi : i.endsHarvest = false)
      (hs : ¬ Spared cfg seen ts) : Harvested cfg seen ts (.left v endState i)

theorem harvested_step (hd : Harvested cfg seen ts s) (h : s.step cfg id x = some s') :
    Harvested cfg seen (ts ++ x.2.reading.toList) s' := by
  obtain ⟨v, rfl, hout⟩ := step_cases h
  cases hd with
  | waiting hh hg hs =>
    have hstep := LoopVars.react_harvest x.1 id hg x.2
    rcases hout with ⟨v', hnext, rfl⟩ | ⟨v', endState, hnext, rfl⟩
    · rw [hnext] at hstep
      cases hstep with
      | stay hg' hh' hno => exact .waiting (hh' hh) (List.append_assoc .. ▸ hg') (spared_concat.mpr ⟨hs, hno⟩)
    · rw [hnext] at hstep
      cases hstep with
      | leave hi hno => exact .ended (hi hh) (spared_concat.mpr ⟨hs, hno⟩)
      | trip hi ht htrip => exact .cut hi fun h => (spared_concat.mp h).2 _ ht htrip

theorem harvested_run (h : Run (step cfg id) Always (.running v) tr s) (hh : v.harvesting = true)
    (hg : v.Gauged cfg seen) : Harvested cfg seen (readings tr) s := by
  refine h.trace_invariant (I := fun tr s => Harvested cfg seen (readings tr) s) ?_ ?_
  · exact .waiting hh (by rw [readings, List.filterMap_nil, List.append_nil]; exact hg) (spared_nil cfg seen)
  · rintro tr s x s' hd - hs
    rw [readings_concat]
    exact harvested_step hd hs

/-- A harvest is left on a late result, at its deadline or the call's, with the bridge or
on a cancel, as long as no reading taken meanwhile trips a gate. -/
theorem harvest_ends_iff {answeredAt now : ℕ}
    (h : Run (step cfg id) Always (.running (LoopVars.init cfg answeredAt now)) tr (.running v))
    (hh : v.harvesting = true) (h' : Run (step cfg id) Always (.running v) tr' s) :
    (∀ v' endState i, s = .left v' endState i → i.endsHarvest = true) ↔
      Spared cfg (readings tr) (readings tr') := by
  cases harvested_run h' hh (gauged_run h v rfl) with
  | waiting _ _ hs => exact iff_of_true (fun _ _ _ h => by cases h) hs
  | ended hi hs =>
    refine iff_of_true (fun v' endState i h => ?_) hs
    obtain ⟨-, -, rfl⟩ := LoopState.left.inj h
    exact hi
  | cut hi hs =>
    refine iff_of_false (fun h => ?_) hs
    rw [h _ _ _ rfl] at hi
    cases hi

def hangup : List (ℕ × LoopInput) :=
  [(0, .event (.transcript .user "hello" true)), (1000, .sip (some (.terminated .remoteHangup)))]

def quietTick (now : ℕ) : ℕ × LoopInput := (now, .qtick {} ⟨0, 0, 0⟩ ⟨false, 0, 0, 0⟩)

/-- A tick that reads the last report of the phone, which is gone. -/
def staleTick (now : ℕ) : ℕ × LoopInput := (now, .qtick {} ⟨0, 0, 0⟩ ⟨true, 20, 0, 0⟩)

theorem harvest_ends_quiet : ∃ v s, exec (step .default "") (.running (LoopVars.init .default 0 0)) hangup =
      some (.running v) ∧ exec (step .default "") (.running v) [quietTick 2000, (16000, .harvestElapsed)] = some s ∧
    ∀ v' endState i, s = .left v' endState i → i.endsHarvest = true := by
  obtain ⟨v, s, hv, hh, hs⟩ : ∃ v s, exec (step .default "") (.running (LoopVars.init .default 0 0)) hangup =
      some (.running v) ∧ v.harvesting = true ∧
      exec (step .default "") (.running v) [quietTick 2000, (16000, .harvestElapsed)] = some s :=
    ⟨_, _, rfl, rfl, rfl⟩
  refine ⟨v, s, hv, hs, (harvest_ends_iff (run_of_exec hv) hh (run_of_exec hs)).mpr ?_⟩
  refine spared_singleton.mpr fun htrip => ?_
  cases htrip with
  | underruns h => exact absurd h (by decide)
  | uplink h => cases h
  | downlink hlen => exact absurd hlen (by decide)

/-- The last report before the hangup said a fifth was lost. It is read five more times,
and the harvest ends as a failed call. -/
theorem stale_report_ends_harvest : ∃ v v' i, exec (step .default "") (.running (LoopVars.init .default 0 0))
      hangup = some (.running v) ∧ v.harvesting = true ∧
    exec (step .default "") (.running v) ([2000, 3000, 4000, 5000, 6000].map staleTick) =
      some (.left v' .failed i) ∧ i.endsHarvest = false :=
  ⟨_, _, _, rfl, rfl, rfl, rfl⟩

end LoopState

/-- The phase of a task that is in the loop, or has just left it. -/
def LoopState.phase (now : ℕ) : LoopState → Phase
  | .running v => .live v
  | .left v endState _ => Phase.teardown v endState now

theorem Attempt.next_loop {cfg : ServerConfig} {sh : Shared} {tok : Token} {a : Attempt} {v : LoopVars} {i : LoopInput}
    {ph : Phase} {eff : Effect} (hv : a.phase = .live v) (h : a.next cfg sh tok (.loop i) = some (ph, eff)) :
    ∃ s, (LoopState.running v).step cfg a.id (sh.clock, i) = some s ∧ ph = s.phase sh.clock := by
  unfold next at h
  rw [hv] at h
  dsimp only at h
  split_ifs at h with hen
  obtain ⟨rfl, -⟩ := Prod.mk.inj (Option.some.inj h)
  rw [LoopState.step, if_pos hen.1]
  cases (v.react cfg a.id sh.clock i).next with
  | «continue» v' => exact ⟨_, rfl, rfl⟩
  | «break» v' endState => exact ⟨_, rfl, rfl⟩

end Kutsu
