import Kutsu.Model.Teardown
import Kutsu.Proofs.Closing
import Kutsu.Proofs.Goal
import Kutsu.Proofs.Stages
import Kutsu.Proofs.WrapUp

/-! Whether a call that has left its loop comes to its end. The bridge looks at its cancel only between
its arms. Nobody reads what it sends to `run_call` once the loop is left, so an arm that waits for
room there waits forever, and `run_call` with it. -/

namespace Kutsu

open Runs Pipes

namespace Phase

def loops : Phase → Bool
  | .answered _ | .live _ => true
  | _ => false

/-- `run_call` between the answer and the hangup, with a session. -/
def converses : Phase → Bool
  | .answered (.ok _) | .live _ | .draining _ _ => true
  | _ => false

/-- How many statements `run_call` has left at most, past both joins: 8 from the finalization on, 2 from the
release of the slot on. -/
def rest? : Phase → Option ℕ
  | .quality _ _ => some 12
  | .totals _ _ _ => some 11
  | .transcribe _ _ => some 10
  | .resolve _ _ => some 9
  | .finalizing _ _ => some 8
  | .bumping _ _ => some 7
  | .countAbort => some 6
  | .persist => some 5
  | .guardDrop _ => some 4
  | .receiverDrop _ => some 3
  | .release => some 2
  | .slotWake => some 1
  | .gone => some 0
  | _ => none

def left : Phase → ℕ
  | .draining _ _ => 14
  | .joining _ => 13
  | ph => ph.rest?.getD 0

end Phase

theorem Rest.rest?_leave (rest : Rest) (d : Disposition) : ∃ n, (rest.leave d).rest? = some n ∧ n < 7 ∧ 2 ≤ n := by
  cases rest with
  | early => exact ⟨4, rfl, by decide, by decide⟩
  | late hadAbort =>
    unfold Rest.leave
    dsimp only
    split_ifs
    · exact ⟨6, rfl, by decide, by decide⟩
    · exact ⟨5, rfl, by decide, by decide⟩

namespace LoopVars

theorem cues_of_break {cfg : ServerConfig} {id : CallId} {v v' : LoopVars} {now : ℕ} {i : LoopInput} {how : LoopEnd}
    (h : (v.react cfg id now i).next = .break v' how) : (v.react cfg id now i).cues = [] := by
  cases i with
  | event ev => cases ev <;> rfl
  | sip r =>
    simp only [react] at h ⊢
    unfold onSip at h ⊢
    split at h
    · rfl
    all_goals
      split_ifs at h ⊢
      rfl
  | qtick q u d =>
    simp only [react, onTick] at h ⊢
    split at h
    · rfl
    · dsimp only at h
      unfold watchdog at h ⊢
      split_ifs at h ⊢
      · dsimp only at h ⊢
        split at h
        · cases h
        · rfl
        · cases h
  | _ => rfl

end LoopVars

namespace Attempt

variable {cfg : ServerConfig} {sh : Shared} {tok : Token} {a : Attempt} {input : RunInput} {ph : Phase}
  {eff : Effect}

theorem next_converses (h : a.next cfg sh tok input = some (ph, eff)) (ha : a.phase.converses = true)
    (hin : input ≠ .panic) :
    (a.phase.loops = true ∧ (∃ v, ph = .live v) ∧
      ∀ v i, a.phase = .live v → input = .loop i → ∃ v', (v.react cfg a.id sh.clock i).next = .continue v') ∨
    (∃ v i v' how, a.phase = .live v ∧ input = .loop i ∧ (v.react cfg a.id sh.clock i).next = .break v' how ∧
      ph = Phase.teardown v' how sh.clock) ∨
    ∃ t cap active, a.phase = .draining t cap ∧ input = .drain active ∧ (ph = .draining t cap ∨ ph = .joining t) := by
  cases hph : a.phase with
  | answered warm =>
    unfold next at h
    rw [hph] at h ha
    cases warm with
    | error e => cases ha
    | ok u =>
      cases input with
      | go =>
        obtain ⟨rfl, -⟩ := Prod.mk.inj (Option.some.inj h)
        exact Or.inl ⟨rfl, ⟨_, rfl⟩, fun v i hv => by cases hv⟩
      | panic => exact absurd rfl hin
      | _ => cases h
  | live v =>
    unfold next at h
    rw [hph] at h
    cases input with
    | loop i =>
      dsimp only at h
      split_ifs at h
      obtain ⟨rfl, -⟩ := Prod.mk.inj (Option.some.inj h)
      cases hnext : (v.react cfg a.id sh.clock i).next with
      | «continue» v' =>
        refine Or.inl ⟨rfl, ⟨v', rfl⟩, fun w j hw hj => ?_⟩
        cases hw
        cases hj
        exact ⟨v', hnext⟩
      | «break» v' how => exact Or.inr (Or.inl ⟨v, i, v', how, rfl, rfl, hnext, rfl⟩)
    | panic => exact absurd rfl hin
    | _ => cases h
  | draining t cap =>
    unfold next at h
    rw [hph] at h
    cases input with
    | drain active =>
      obtain ⟨rfl, -⟩ := Prod.mk.inj (Option.some.inj h)
      refine Or.inr (Or.inr ⟨t, cap, active, rfl, rfl, ?_⟩)
      split_ifs
      · exact Or.inl rfl
      · exact Or.inr rfl
    | panic => exact absurd rfl hin
    | _ => cases h
  | _ =>
    rw [hph] at ha
    cases ha

/-- Past both joins every statement is a step towards the end. The finalization and the release of the
slot are among them. -/
theorem next_rest {n : ℕ} (h : a.next cfg sh tok input = some (ph, eff)) (hin : input ≠ .panic)
    (hn : a.phase.rest? = some n) :
    ∃ m, ph.rest? = some m ∧ m < n ∧ (m < 8 → n < 8 ∨ ∃ e : Ending, eff = .finalize e ∧ e.id = a.id) ∧
      (m < 2 → n < 2 ∨ eff = .releaseSlot) := by
  have hgo := fun hp => go_of_next h hp hin
  cases hph : a.phase with
  | quality t o =>
    unfold next at h
    rw [hph] at h hn
    obtain rfl := Option.some.inj hn
    cases input with
    | snapshot q u d =>
      obtain ⟨rfl, -⟩ := Prod.mk.inj (Option.some.inj h)
      exact ⟨11, rfl, by decide, by simp, by simp⟩
    | panic => exact absurd rfl hin
    | _ => cases h
  | finalizing c rest =>
    obtain rfl := hgo (by rw [hph]; rfl)
    unfold next at h
    rw [hph] at h hn
    obtain rfl := Option.some.inj hn
    obtain ⟨rfl, rfl⟩ := Prod.mk.inj (Option.some.inj h)
    exact ⟨7, rfl, by decide, fun _ => Or.inr ⟨_, rfl, rfl⟩, by simp⟩
  | bumping d rest =>
    obtain rfl := hgo (by rw [hph]; rfl)
    unfold next at h
    rw [hph] at h hn
    obtain rfl := Option.some.inj hn
    obtain ⟨rfl, -⟩ := Prod.mk.inj (Option.some.inj h)
    obtain ⟨m, hm, hlt, hle⟩ := rest.rest?_leave d
    exact ⟨m, hm, hlt, fun _ => Or.inl (by decide), fun hlt' => absurd hlt' (Nat.not_lt.mpr hle)⟩
  | release =>
    obtain rfl := hgo (by rw [hph]; rfl)
    unfold next at h
    rw [hph] at h hn
    obtain rfl := Option.some.inj hn
    obtain ⟨rfl, rfl⟩ := Prod.mk.inj (Option.some.inj h)
    exact ⟨1, rfl, by decide, fun _ => Or.inl (by decide), fun _ => Or.inr rfl⟩
  | gone =>
    unfold next at h
    rw [hph] at h
    cases input with
    | panic => exact absurd rfl hin
    | _ => cases h
  | totals | transcribe | resolve | countAbort | persist | guardDrop | receiverDrop | slotWake =>
    obtain rfl := hgo (by rw [hph]; rfl)
    unfold next at h
    rw [hph] at h hn
    obtain rfl := Option.some.inj hn
    obtain ⟨rfl, -⟩ := Prod.mk.inj (Option.some.inj h)
    exact ⟨_, rfl, by decide, by simp, by simp⟩
  | _ =>
    rw [hph] at hn
    cases hn

theorem exists_next_rest (cfg : ServerConfig) (sh : Shared) (tok : Token) {n : ℕ} (hn : a.phase.rest? = some n)
    (hpos : n ≠ 0) :
    ∃ input ph eff, input ≠ .panic ∧ a.next cfg sh tok input = some (ph, eff) := by
  unfold next
  cases hph : a.phase with
  | quality t o => exact ⟨.snapshot {} ⟨0, 0, 0⟩ ⟨false, 0, 0, 0⟩, _, _, by simp, rfl⟩
  | gone =>
    rw [hph] at hn
    exact absurd (Option.some.inj hn).symm hpos
  | totals | transcribe | resolve | finalizing | bumping | countAbort | persist | guardDrop | receiverDrop | release
  | slotWake => exact ⟨.go, _, _, by simp, rfl⟩
  | _ =>
    rw [hph] at hn
    cases hn

end Attempt

namespace BridgeTask

variable {g : Option ℕ} {taps : List ℚ} {s s' : BridgeTask} {now : ℕ} {i : BridgeInput}

/-- The bridge sends one event at a time, and takes no arm until it is sent. -/
structure OneAtATime (s : BridgeTask) : Prop where
  single : s.waiting.length ≤ 1
  idle : s.waiting ≠ [] → s.bridge.selects = true

theorem oneAtATime_of_nil (h : s.waiting = []) : s.OneAtATime := ⟨by simp [h], fun hne => absurd h hne⟩

theorem oneAtATime_step (ho : s.OneAtATime) (h : Step g taps s now i s') : s'.OneAtATime := by
  cases h with
  | uplinkDone => exact ⟨ho.single, ho.idle⟩
  | ends hs => exact oneAtATime_of_nil (by rw [become_waiting, (ending_of_selects hs).2])
  | gone hi hs =>
    refine oneAtATime_of_nil ?_
    rw [become_waiting]
    rcases hs with hs | hs
    · exact (ending_of_selects hs).2
    · by_contra hne
      rw [Bridge.pc_of_selects (ho.idle hne)] at hs
      cases hs
  | event muted ev hs =>
    obtain ⟨heq, hpc, -, -⟩ := s.bridge.onEvent_spec now muted ev
    refine ⟨?_, fun _ => ?_⟩
    · dsimp only
      rw [heq]
      exact List.length_filter_le _ _
    · dsimp only
      rw [Bridge.selects_congr hpc]
      exact (Bool.and_eq_true_iff.mp hs).1
  | tick hs => exact oneAtATime_of_nil (ending_of_selects hs).2
  | @forwarded ev waiting hw =>
    have hone := ho.single
    rw [hw, List.length_cons] at hone
    exact oneAtATime_of_nil (List.eq_nil_of_length_eq_zero (Nat.le_zero.mp (Nat.le_of_succ_le_succ hone)))
  | sent hpc =>
    refine oneAtATime_of_nil ?_
    by_contra hne
    rw [Bridge.pc_of_selects (ho.idle hne)] at hpc
    cases hpc

theorem ending_step (h : Step g taps s now i s') (hend : s.bridge.ending.isSome = true) :
    s'.bridge.ending = s.bridge.ending := by
  have hsel : s.selects = false := by
    rw [Bool.eq_false_iff]
    intro hs
    rw [(ending_of_selects hs).1] at hend
    cases hend
  cases h with
  | uplinkDone | forwarded => rfl
  | ends hs | event _ _ hs | tick hs =>
    rw [hsel] at hs
    cases hs
  | gone hi hs =>
    rcases hs with hs | hs
    · rw [hsel] at hs
      cases hs
    · cases hpc : s.bridge.pc with
      | sending frame =>
        rw [Bridge.ending, hpc] at hend
        cases hend
      | _ =>
        rw [hpc] at hs
        cases hs
  | sent hpc =>
    rw [Bridge.ending, hpc] at hend
    cases hend

end BridgeTask

namespace Talk

variable {V : Type} {su : Setup V} {s s' : Talk V} {act : TalkAct}

inductive OutStep (s s' : Talk V) : TalkAct → Prop where
  | reads {arm : EngineArm} (h : s'.eventsOut = s.afterArm arm) : OutStep s s' (.engine arm)
  | takes {ev : Event} {rest : Pipe Event} (hrecv : s.geminiEvents.recv = some (ev, rest))
      (hfree : s.eventsOut.waiting = [])
      (h : s'.eventsOut = s.eventsOut.offer ([ev].filter Event.forwards)) : OutStep s s' (.bridge .event)
  | sends (h : s.eventsOut.accept EVENTS_CAPACITY = some s'.eventsOut) : OutStep s s' .bridgeSend
  | still {act : TalkAct} (hne : act ≠ .bridge .event) (hno : ∀ arm, act ≠ .engine arm)
      (h : s'.eventsOut = s.eventsOut) :
      OutStep s s' act

theorem out_step (h : step su s act = some s') : OutStep s s' act := by
  cases step_cases h with
  | bridge _ _ hfree harm =>
    cases harm with
    | event hrecv => exact .takes hrecv hfree (congrArg s.eventsOut.offer (Bridge.onEvent_spec ..).1)
    | _ => exact .still (by simp) (by simp) rfl
  | bridgeSend hp => exact .sends hp
  | engine h =>
    obtain ⟨input, phase, eff, -, -, -, rfl⟩ := engine_cases h
    exact .reads rfl
  | _ => exact .still (by simp) (by simp) rfl

theorem driver_of_step (h : step su s act = some s') (hact : ∀ input, act ≠ .driver input) : s'.driver = s.driver := by
  cases act with
  | engine arm =>
    obtain ⟨input, phase, eff, -, -, -, rfl⟩ := engine_cases h
    rfl
  | _ => exact (frame_of_step h fun _ hno => by cases hno).2.2 hact

theorem looping_of_step (h : step su s act = some s') (hl : s'.driver.status.done = false) :
    s.driver.status.done = false ∧ act ≠ .driver .hangup := by
  cases act with
  | driver input =>
    cases step_cases h with
    | driver _ hstep =>
      obtain ⟨d, hd, -, rfl⟩ := DriverRun.step_looping hstep
      refine ⟨by rw [hd]; rfl, ?_⟩
      rintro ⟨⟩
      cases hl
  | _ =>
    rw [driver_of_step h fun _ hno => by cases hno] at hl
    exact ⟨hl, by simp⟩

theorem free_step (hb : s.bridge = none) (hfree : s.eventsOut.waiting = []) (h : step su s act = some s') :
    s'.eventsOut.waiting = [] := by
  cases out_step h with
  | reads heq => rw [heq, (s.afterArm_spec _).1, hfree]
  | takes =>
    simp only [step, hb] at h
    cases h
  | sends hacc =>
    obtain ⟨-, -, x, hw, -⟩ := Pipe.accept_spec hacc
    rw [hfree] at hw
    cases hw
  | still _ _ heq => rw [heq, hfree]

theorem task_step (htask : ∀ b, s.bridge = some b → (s.bridgeTask b).OneAtATime)
    (hfree : s.bridge = none → s.eventsOut.waiting = []) (h : step su s act = some s') {b' : Bridge}
    (hb' : s'.bridge = some b') : (s'.bridgeTask b').OneAtATime := by
  cases hb : s.bridge with
  | none => exact BridgeTask.oneAtATime_of_nil (free_step hb (hfree hb) h)
  | some b =>
    obtain ⟨b₁, hb₁, hstep⟩ := bridge_step hb h
    obtain rfl := Option.some.inj (hb₁.symm.trans hb')
    cases hstep with
    | same heq => exact heq ▸ htask b hb
    | step input hinput => exact BridgeTask.oneAtATime_step (htask b hb) (BridgeTask.step_cases hinput)

theorem bridgeEnd_step (h : step su s act = some s') (hend : s.bridgeEnd.isSome = true) :
    s'.bridgeEnd = s.bridgeEnd := by
  cases hb : s.bridge with
  | none =>
    rw [bridgeEnd, hb] at hend
    cases hend
  | some b =>
    obtain ⟨b', hb', hstep⟩ := bridge_step hb h
    rw [bridgeEnd, hb] at hend
    rw [bridgeEnd, bridgeEnd, hb, hb', Option.bind_some, Option.bind_some]
    cases hstep with
    | same heq => exact congrArg (·.bridge.ending) heq
    | step input hinput => exact BridgeTask.ending_step (BridgeTask.step_cases hinput) hend

end Talk

/-- How many steps the bridge takes at most until it returns, once it is cancelled. -/
def Bridge.toGo (b : Bridge) : ℕ :=
  match b.pc with
  | .sending _ => 2
  | .select => 1
  | .ended _ => 0

theorem Bridge.toGo_onPhoneGone (b : Bridge) (grace : Option ℕ) (now : ℕ) (h : b.pc = .select) :
    (b.onPhoneGone grace now).toGo ≤ 1 := by
  unfold onPhoneGone
  split
  · exact Nat.zero_le 1
  · split_ifs <;> simp [toGo, h]

def DriverStatus.toGo {V : Type} : DriverStatus V → ℕ
  | .looping _ => 1
  | .returned _ => 0

namespace TeardownPc

/-- The hangup has yet to be sent to the driver. -/
def unhung : TeardownPc → Bool
  | .talking | .sipHangup | .geminiHangup => true
  | _ => false

def bridgeJoined : TeardownPc → Bool
  | .joinDriver | .joined => true
  | _ => false

def toGo : TeardownPc → ℕ
  | .talking => 6
  | .sipHangup => 5
  | .geminiHangup => 4
  | .bridgeCancel => 3
  | .joinBridge => 2
  | .joinDriver => 1
  | .joined => 0

/-- The phases that `run_call` is in there. -/
def Fits : TeardownPc → Phase → Prop
  | .talking, ph => ph.converses = true
  | .joined, ph => ph.rest?.isSome = true
  | _, ph => ∃ t, ph = .joining t

theorem Fits.of_talks {pc : TeardownPc} {ph : Phase} (h : pc.Fits ph) (ht : ph.talks = true) : pc = .talking := by
  cases pc with
  | talking => rfl
  | joined =>
    cases ph with
    | answered | live | draining => cases h
    | _ => cases ht
  | _ =>
    obtain ⟨t, rfl⟩ := h
    cases ht

end TeardownPc

theorem Phase.loops_of_rest {ph : Phase} (h : ph.rest?.isSome = true) : ph.loops = false := by
  cases ph with
  | answered | live => cases h
  | _ => rfl

theorem Phase.left_of_rest {ph : Phase} {n : ℕ} (h : ph.rest? = some n) : ph.left = n := by
  cases ph with
  | draining | joining => cases h
  | _ => exact congrArg (fun o => Option.getD o 0) h

theorem Phase.gone_of_rest {ph : Phase} (h : ph.rest? = some 0) : ph = .gone := by
  cases ph with
  | gone => rfl
  | _ => cases h

theorem Talk.engineInput_ne_panic {V : Type} {s : Talk V} {arm : EngineArm} :
    s.engineInput arm ≠ some .panic := by
  intro h
  cases receives h

namespace Talk

variable {V : Type}

def bridgeToGo (s : Talk V) : ℕ := s.eventsOut.waiting.length + (s.bridge.map Bridge.toGo).getD 0

def driverToGo (s : Talk V) : ℕ := s.geminiEvents.waiting.length + s.driver.status.toGo

end Talk

namespace CallTeardown

variable {V : Type} {su : Setup V} {s s' : CallTeardown V} {act : TeardownAct}

@[simp] theorem after_talk (act : TalkAct) (talk : Talk V) : (s.after su act talk).talk = talk := by
  unfold after
  split <;> rfl

structure Sound (s : CallTeardown V) : Prop where
  task : ∀ b, s.talk.bridge = some b → (s.talk.bridgeTask b).OneAtATime
  started : s.talk.bridge = none → s.talk.eventsOut.waiting = [] ∧ ∃ u, s.talk.attempt.phase = .answered (.ok u)
  fits : s.pc.Fits s.talk.attempt.phase
  told : s.talk.attempt.phase.loops = false → s.text.waiting = []
  hung : s.pc.unhung = true → s.hangups = 0
  heard : s.pc.unhung = false → s.talk.driver.status.done = false → 0 < s.hangups
  ended : s.pc.bridgeJoined = true → s.talk.bridgeEnd.isSome = true

theorem sound_init (sh : Shared) (entry : PendingEntry) (probe : Bool) (vad : V) :
    (init su sh entry probe vad).Sound where
  task _ h := by cases h
  started _ := ⟨rfl, (), rfl⟩
  fits := rfl
  told h := by cases h
  hung _ := rfl
  heard h := by cases h
  ended h := by cases h

/-- A step of `run_call` before the hangup: it has a bridge then, leaves its loop without a cue, and
goes from the drain or the loop to the teardown. -/
theorem engine_spec (hs : s.Sound) {arm : EngineArm} {talk : Talk V} (h : s.talk.step su (.engine arm) = some talk) :
    s.pc = .talking ∧ talk.bridge ≠ none ∧ (talk.attempt.phase.loops = false → s.cues su arm = []) ∧
      (talk.attempt.phase.converses = true ∧ talk.attempt.phase.talks = true ∨
        talk.attempt.phase.talks = false ∧ ∃ t, talk.attempt.phase = .joining t) := by
  obtain ⟨input, phase, eff, htalk, hin, hnext, rfl⟩ := Talk.engine_cases h
  have hpc := hs.fits.of_talks htalk
  have hfits := hs.fits
  rw [hpc] at hfits
  have hpanic : input ≠ .panic := fun heq => Talk.engineInput_ne_panic (heq ▸ hin)
  have hbridge : (∀ u, s.talk.attempt.phase ≠ .answered (.ok u)) → ∃ b, s.talk.bridge = some b := fun hno =>
    Option.ne_none_iff_exists'.mp fun hb => by
      obtain ⟨-, u, hu⟩ := hs.started hb
      exact hno u hu
  refine ⟨hpc, ?_⟩
  rcases Attempt.next_converses hnext hfits hpanic with ⟨-, ⟨v, rfl⟩, -⟩ | ⟨v, i, v', how, hph, rfl, hbreak, rfl⟩ |
      ⟨t, cap, active, hph, -, hcase⟩
  · refine ⟨?_, fun hl => (by cases hl), Or.inl ⟨rfl, rfl⟩⟩
    cases hb : s.talk.bridge <;> simp
  · obtain ⟨b, hb⟩ := hbridge (by simp [hph])
    refine ⟨by simp [hb], fun _ => ?_, ?_⟩
    · simp only [cues, hph, hin]
      exact LoopVars.cues_of_break hbreak
    · unfold Phase.teardown
      dsimp only
      split_ifs
      · exact Or.inl ⟨rfl, rfl⟩
      · exact Or.inr ⟨rfl, _, rfl⟩
  · obtain ⟨b, hb⟩ := hbridge (by simp [hph])
    refine ⟨by simp [hb], fun _ => by simp [cues, hph], ?_⟩
    rcases hcase with rfl | rfl
    · exact Or.inl ⟨rfl, rfl⟩
    · exact Or.inr ⟨rfl, _, rfl⟩

theorem sound_engine (hs : s.Sound) {arm : EngineArm} {talk : Talk V} (hallow : s.allows (.engine arm) = true)
    (h : s.talk.step su (.engine arm) = some talk) : (s.after su (.engine arm) talk).Sound := by
  obtain ⟨hpc, hbridge, hcues, hphase⟩ := engine_spec hs h
  have htask : ∀ b, talk.bridge = some b → (talk.bridgeTask b).OneAtATime := fun b hb =>
    Talk.task_step hs.task (fun hno => (hs.started hno).1) h hb
  have htext : s.text.waiting = [] := List.isEmpty_iff.mp hallow
  have hzero : s.hangups = 0 := hs.hung (by rw [hpc]; rfl)
  rcases hphase with ⟨hconv, htalks⟩ | ⟨htalks, t, hph⟩
  · simp only [after, htalks, if_true]
    refine ⟨htask, fun hno => absurd hno hbridge, hconv, fun hl => ?_, fun _ => hzero, fun hno => (by cases hno),
      fun hno => by cases hno⟩
    simp only [Pipe.offer, htext, hcues hl, List.append_nil]
  · simp only [after, htalks, Bool.false_eq_true, if_false]
    refine ⟨htask, fun hno => absurd hno hbridge, ⟨t, hph⟩, fun hl => ?_, fun _ => hzero, fun hno => (by cases hno),
      fun hno => by cases hno⟩
    simp only [Pipe.offer, htext, hcues hl, List.append_nil]

theorem after_spec (su : Setup V) (s : CallTeardown V) (talk : Talk V) {act : TalkAct}
    (hact : ∀ arm, act ≠ .engine arm) :
    (s.after su act talk).pc = s.pc ∧ (s.after su act talk).text.waiting = s.text.waiting ∧
      (s.after su act talk).hangups ≤ s.hangups ∧
      (act ≠ .driver .hangup → (s.after su act talk).hangups = s.hangups) := by
  unfold after
  split
  · exact absurd rfl (hact _)
  · refine ⟨rfl, ?_, le_rfl, fun _ => rfl⟩
    dsimp only
    cases hr : s.text.recv with
    | none => rfl
    | some r => exact (Pipe.recv_spec hr).2.2.1
  · exact ⟨rfl, rfl, Nat.sub_le _ _, fun hno => absurd rfl hno⟩
  · exact ⟨rfl, rfl, le_rfl, fun _ => rfl⟩

theorem sound_talk (hs : s.Sound) {act : TalkAct} {talk : Talk V} (hallow : s.allows act = true)
    (h : s.talk.step su act = some talk) : (s.after su act talk).Sound := by
  by_cases hact : ∃ arm, act = .engine arm
  · obtain ⟨arm, rfl⟩ := hact
    exact sound_engine hs hallow h
  · have hact : ∀ arm, act ≠ .engine arm := fun arm heq => hact ⟨arm, heq⟩
    obtain ⟨hpc, htext, hle, heq⟩ := after_spec su s talk hact
    have hatt := (Talk.frame_of_step h hact).1
    have hfree : s.talk.bridge = none → s.talk.eventsOut.waiting = [] := fun hno => (hs.started hno).1
    refine ⟨?_, ?_, ?_, ?_, ?_, ?_, ?_⟩
    · rw [after_talk]
      exact fun b hb => Talk.task_step hs.task hfree h hb
    · rw [after_talk]
      intro hno
      have hb : s.talk.bridge = none := by
        by_contra hb
        obtain ⟨b, hb⟩ := Option.ne_none_iff_exists'.mp hb
        obtain ⟨b', hb', -⟩ := Talk.bridge_step hb h
        rw [hno] at hb'
        cases hb'
      exact ⟨Talk.free_step hb (hfree hb) h, hatt ▸ (hs.started hb).2⟩
    · rw [hpc, after_talk, hatt]
      exact hs.fits
    · rw [htext, after_talk, hatt]
      exact hs.told
    · rw [hpc]
      intro hun
      have hzero := hs.hung hun
      omega
    · rw [hpc, after_talk]
      intro hun hl
      obtain ⟨hl, hno⟩ := Talk.looping_of_step h hl
      rw [heq hno]
      exact hs.heard hun hl
    · rw [hpc, after_talk]
      intro hj
      have hend := hs.ended hj
      rw [Talk.bridgeEnd_step h hend]
      exact hend

theorem step_rest {input : RunInput} (hin : input ≠ .panic) (hpc : s.pc = .joined) :
    s.step su (.rest input) = s.advance su input := by
  cases input with
  | panic => exact absurd rfl hin
  | _ => exact if_pos hpc

theorem talk_spec {a : TalkAct} (h : s.step su (.talk a) = some s') :
    s.allows a = true ∧ ∃ talk, s.talk.step su a = some talk ∧ s' = s.after su a talk := by
  simp only [step] at h
  split_ifs at h with hallow
  obtain ⟨talk, htalk, heq⟩ := Option.map_eq_some_iff.mp h
  exact ⟨hallow, talk, htalk, heq.symm⟩

theorem rest_spec {input : RunInput} (h : s.step su (.rest input) = some s') :
    input ≠ .panic ∧ s.pc = .joined ∧ s.advance su input = some s' := by
  have hin : input ≠ .panic := by
    rintro rfl
    cases h
  have hpc : s.pc = .joined := by
    by_contra hno
    cases input with
    | panic => exact hin rfl
    | _ => exact absurd (h.symm.trans (if_neg hno)) (by simp)
  exact ⟨hin, hpc, step_rest hin hpc ▸ h⟩

theorem advance_spec {input : RunInput} (h : s.advance su input = some s') :
    ∃ ph eff, s.talk.attempt.next su.cfg s.talk.sh su.tok input = some (ph, eff) ∧
      s' = { s with
        pc := .joined
        talk := { s.talk with sh := s.talk.sh.apply eff, attempt := { s.talk.attempt with phase := ph } } } := by
  obtain ⟨⟨ph, eff⟩, hnext, heq⟩ := Option.bind_eq_some_iff.mp h
  exact ⟨ph, eff, hnext, (Option.some.inj heq).symm⟩

theorem sound_advance (hs : s.Sound) {input : RunInput} (hj : s.pc.bridgeJoined = true)
    (hl : s.talk.attempt.phase.loops = false)
    (hrest : ∀ ph eff, s.talk.attempt.next su.cfg s.talk.sh su.tok input = some (ph, eff) → ph.rest?.isSome = true)
    (h : s.advance su input = some s') : s'.Sound := by
  obtain ⟨ph, eff, hnext, rfl⟩ := advance_spec h
  have hend := hs.ended hj
  have hhung : s.pc.unhung = false := by
    cases hpc : s.pc with
    | joinDriver | joined => rfl
    | _ =>
      rw [hpc] at hj
      cases hj
  refine ⟨hs.task, fun hno => ?_, hrest ph eff hnext, fun _ => hs.told hl, fun hno => (by cases hno),
    fun _ => hs.heard hhung, fun _ => hend⟩
  rw [Talk.bridgeEnd, hno] at hend
  cases hend

inductive Statement (su : Setup V) (s s' : CallTeardown V) : Prop where
  | sipHangup (hpc : s.pc = .sipHangup) (h : s' = { s with pc := .geminiHangup })
  | unheard (hpc : s.pc = .geminiHangup) (hgone : s.talk.driverGone = true) (h : s' = { s with pc := .bridgeCancel })
  | geminiHangup (hpc : s.pc = .geminiHangup) (h : s' = { s with pc := .bridgeCancel, hangups := s.hangups + 1 })
  | bridgeCancel (hpc : s.pc = .bridgeCancel) (h : s' = { s with pc := .joinBridge })
  | joinBridge (hpc : s.pc = .joinBridge) (hend : s.talk.bridgeEnd.isSome = true)
      (h : s' = { s with pc := .joinDriver })
  | joinDriver (hpc : s.pc = .joinDriver) {o : CallOutcome} (h : s.advance su (.joined o) = some s')

theorem teardown_cases (h : s.teardown su = some s') : Statement su s s' := by
  unfold teardown at h
  cases hpc : s.pc with
  | talking | joined =>
    rw [hpc] at h
    cases h
  | sipHangup =>
    rw [hpc] at h
    exact .sipHangup hpc (Option.some.inj h).symm
  | geminiHangup =>
    rw [hpc] at h
    dsimp only at h
    split_ifs at h with hgone
    · exact .unheard hpc hgone (Option.some.inj h).symm
    · exact .geminiHangup hpc (Option.some.inj h).symm
  | bridgeCancel =>
    rw [hpc] at h
    exact .bridgeCancel hpc (Option.some.inj h).symm
  | joinBridge =>
    rw [hpc] at h
    dsimp only at h
    split_ifs at h with hend
    exact .joinBridge hpc hend (Option.some.inj h).symm
  | joinDriver =>
    rw [hpc] at h
    dsimp only at h
    split at h
    · split_ifs at h
      exact .joinDriver hpc h
    · cases h

theorem quality_of_joined (hs : s.Sound) (hpc : s.pc = .joinDriver) {o : CallOutcome} {ph : Phase} {eff : Effect}
    (h : s.talk.attempt.next su.cfg s.talk.sh su.tok (.joined o) = some (ph, eff)) : ∃ t, ph = .quality t o := by
  have hfits := hs.fits
  rw [hpc] at hfits
  obtain ⟨t, hph⟩ := hfits
  unfold Attempt.next at h
  rw [hph] at h
  obtain ⟨rfl, -⟩ := Prod.mk.inj (Option.some.inj h)
  exact ⟨t, rfl⟩

theorem sound_teardown (hs : s.Sound) (h : Statement su s s') : s'.Sound := by
  have hfits := hs.fits
  cases h with
  | sipHangup hpc h =>
    subst h
    rw [hpc] at hfits
    exact ⟨hs.task, hs.started, hfits, hs.told, fun _ => hs.hung (by rw [hpc]; rfl), fun hno => (by cases hno),
      fun hno => by cases hno⟩
  | unheard hpc hgone h =>
    subst h
    rw [hpc] at hfits
    refine ⟨hs.task, hs.started, hfits, hs.told, fun hno => (by cases hno), fun _ hl => ?_, fun hno => by cases hno⟩
    exact absurd (Talk.waiting_of_gone hgone).1 (by rw [hl]; simp)
  | geminiHangup hpc h =>
    subst h
    rw [hpc] at hfits
    exact ⟨hs.task, hs.started, hfits, hs.told, fun hno => (by cases hno), fun _ _ => Nat.succ_pos _,
      fun hno => by cases hno⟩
  | bridgeCancel hpc h =>
    subst h
    rw [hpc] at hfits
    exact ⟨hs.task, hs.started, hfits, hs.told, fun hno => (by cases hno), fun _ => hs.heard (by rw [hpc]; rfl),
      fun hno => by cases hno⟩
  | joinBridge hpc hend h =>
    subst h
    rw [hpc] at hfits
    exact ⟨hs.task, hs.started, hfits, hs.told, fun hno => (by cases hno), fun _ => hs.heard (by rw [hpc]; rfl),
      fun _ => hend⟩
  | joinDriver hpc h =>
    rw [hpc] at hfits
    obtain ⟨t, hph⟩ := hfits
    refine sound_advance hs (by rw [hpc]; rfl) (by rw [hph]; rfl) (fun ph eff hnext => ?_) h
    obtain ⟨t, rfl⟩ := quality_of_joined hs hpc hnext
    rfl

theorem sound_step (hs : s.Sound) (h : s.step su act = some s') : s'.Sound := by
  cases act with
  | talk act =>
    obtain ⟨hallow, talk, htalk, rfl⟩ := talk_spec h
    exact sound_talk hs hallow htalk
  | textSend =>
    obtain ⟨text, htext, rfl⟩ := Option.map_eq_some_iff.mp h
    refine ⟨hs.task, hs.started, hs.fits, fun hl => ?_, hs.hung, hs.heard, hs.ended⟩
    -- a cue that is sent was waited for
    have hwait := hs.told hl
    split_ifs at htext
    · exact absurd hwait (Pipe.waiting_of_discard htext)
    · obtain ⟨-, -, cue, hcue, -⟩ := Pipe.accept_spec htext
      rw [hwait] at hcue
      cases hcue
  | teardown => exact sound_teardown hs (teardown_cases h)
  | rest input =>
    obtain ⟨hin, hpc, h⟩ := rest_spec h
    have hfits := hs.fits
    rw [hpc] at hfits
    obtain ⟨n, hn⟩ := Option.isSome_iff_exists.mp hfits
    refine sound_advance hs (by rw [hpc]; rfl) (Phase.loops_of_rest hfits) (fun ph eff hnext => ?_) h
    obtain ⟨m, hm, -⟩ := Attempt.next_rest hnext hin hn
    rw [hm]
    rfl

def left (s : CallTeardown V) : Bool := !s.talk.attempt.phase.loops

/-- The bridge waits for room in a channel that nobody reads any more. -/
def Jammed (s : CallTeardown V) : Prop := s.left = true ∧ s.talk.eventsOut.Blocked EVENTS_CAPACITY

def leaves (su : Setup V) (s : CallTeardown V) (arm : EngineArm) : Bool :=
  match s.talk.attempt.phase, s.talk.engineInput arm with
  | .live v, some (.loop i) => ((v.react su.cfg s.talk.attempt.id s.talk.sh.clock i).next matches .break _ _)
  | _, _ => false

/-- The bridge is not left waiting for room when `run_call` leaves its loop, and takes no event that has to
wait for room after that. -/
def Roomy (su : Setup V) (s : CallTeardown V) : TeardownAct → Prop
  | .talk (.engine arm) => s.leaves su arm = true → ¬ (s.talk.afterArm arm).Blocked EVENTS_CAPACITY
  | .talk (.bridge .event) => s.left = true → (∃ ev ∈ s.talk.geminiEvents.queued.head?, ev.forwards = true) →
      s.talk.eventsOut.queued.length < EVENTS_CAPACITY
  | _ => True

/-- The loop reads the bridge's events until it is left, and nothing reads them after that. -/
theorem engine_out (hs : s.Sound) {arm : EngineArm} {talk : Talk V} (h : s.talk.step su (.engine arm) = some talk) :
    (s.left = false ∧ talk.attempt.phase.loops = !s.leaves su arm ∧ talk.eventsOut = s.talk.afterArm arm) ∨
      (s.left = true ∧ talk.attempt.phase.loops = false ∧ talk.eventsOut = s.talk.eventsOut ∧
        s.leaves su arm = false) := by
  obtain ⟨input, phase, eff, htalk, hin, hnext, rfl⟩ := Talk.engine_cases h
  have hfits := hs.fits
  rw [hs.fits.of_talks htalk] at hfits
  have hpanic : input ≠ .panic := fun heq => Talk.engineInput_ne_panic (heq ▸ hin)
  unfold left leaves
  rcases Attempt.next_converses hnext hfits hpanic with ⟨hl, ⟨v, rfl⟩, hgoes⟩ | ⟨v, i, v', how, hph, rfl, hbreak, rfl⟩ |
      ⟨t, cap, active, hph, rfl, hcase⟩
  · refine Or.inl ⟨by rw [hl]; rfl, ?_, rfl⟩
    cases hph : s.talk.attempt.phase with
    | live w =>
      cases input with
      | loop i =>
        obtain ⟨v', hv'⟩ := hgoes w i hph rfl
        simp only [hin, hv']
        rfl
      | _ =>
        simp only [hin]
        rfl
    | _ => rfl
  · refine Or.inl ⟨by rw [hph]; rfl, ?_, rfl⟩
    simp only [hph, hin, hbreak]
    unfold Phase.teardown
    split_ifs <;> rfl
  · refine Or.inr ⟨by rw [hph]; rfl, ?_, ?_, by simp only [hph]⟩
    · rcases hcase with rfl | rfl <;> rfl
    · cases Talk.receives hin
      rfl

theorem Sound.left_of_pc (hs : s.Sound) (hpc : s.pc ≠ .talking) : s.left = true := by
  have hfits := hs.fits
  rw [left, Bool.not_eq_true']
  cases hp : s.pc with
  | talking => exact absurd hp hpc
  | joined =>
    rw [hp] at hfits
    exact Phase.loops_of_rest hfits
  | _ =>
    rw [hp] at hfits
    obtain ⟨t, ht⟩ := hfits
    rw [ht]
    rfl

theorem Sound.single (hs : s.Sound) : s.talk.eventsOut.waiting.length ≤ 1 := by
  cases hb : s.talk.bridge with
  | none => simp [(hs.started hb).1]
  | some b => exact (hs.task b hb).single

theorem Statement.frame (h : Statement su s s') :
    s.pc ≠ .talking ∧ s'.pc ≠ .talking ∧ s'.talk.eventsOut = s.talk.eventsOut := by
  cases h with
  | joinDriver hpc h =>
    obtain ⟨ph, eff, -, rfl⟩ := advance_spec h
    exact ⟨by simp [hpc], by simp, rfl⟩
  | _ hpc =>
    subst_vars
    exact ⟨by simp [hpc], by simp, rfl⟩

theorem other_out (hs : s.Sound) (h : s.step su act = some s') (hact : ∀ arm, act ≠ .talk (.engine arm)) :
    s'.left = s.left ∧ ((∃ a, act = .talk a ∧ Talk.OutStep s.talk s'.talk a) ∨
      s'.talk.eventsOut = s.talk.eventsOut) := by
  have hs' := sound_step hs h
  cases act with
  | talk a =>
    obtain ⟨-, talk, htalk, rfl⟩ := talk_spec h
    have hframe := Talk.frame_of_step htalk fun arm heq => hact arm (by rw [heq])
    rw [left, left, after_talk, hframe.1]
    exact ⟨rfl, Or.inl ⟨a, rfl, Talk.out_step htalk⟩⟩
  | textSend =>
    obtain ⟨text, -, rfl⟩ := Option.map_eq_some_iff.mp h
    exact ⟨rfl, Or.inr rfl⟩
  | teardown =>
    obtain ⟨hpc, hpc', hout⟩ := (teardown_cases h).frame
    exact ⟨(hs'.left_of_pc hpc').trans (hs.left_of_pc hpc).symm, Or.inr hout⟩
  | rest input =>
    obtain ⟨-, hpc, h⟩ := rest_spec h
    obtain ⟨ph, eff, -, rfl⟩ := advance_spec h
    exact ⟨(hs'.left_of_pc (by simp)).trans (hs.left_of_pc (by simp [hpc])).symm, Or.inr rfl⟩

theorem jammed_step (hs : s.Sound) (hj : s.Jammed) (h : s.step su act = some s') : s'.Jammed := by
  obtain ⟨hl, hb⟩ := hj
  by_cases hact : ∃ arm, act = .talk (.engine arm)
  · obtain ⟨arm, rfl⟩ := hact
    obtain ⟨-, talk, htalk, rfl⟩ := talk_spec h
    rcases engine_out hs htalk with ⟨hl', -⟩ | ⟨-, hl', hout, -⟩
    · rw [hl] at hl'
      cases hl'
    · rw [Jammed, left, after_talk, hl', hout]
      exact ⟨rfl, hb⟩
  · obtain ⟨hl', hout⟩ := other_out hs h fun arm heq => hact ⟨arm, heq⟩
    refine ⟨hl'.trans hl, ?_⟩
    rcases hout with ⟨a, rfl, hout⟩ | hout
    · cases hout with
      | reads => exact absurd ⟨_, rfl⟩ hact
      | takes _ hfree => exact absurd hfree hb.1
      | sends hacc =>
        rw [hb.accept] at hacc
        cases hacc
      | still _ _ hout =>
        rw [hout]
        exact hb
    · rw [hout]
      exact hb

theorem clear_step (hs : s.Sound) (hn : ¬ s.Jammed) (hok : s.Roomy su act) (h : s.step su act = some s') :
    ¬ s'.Jammed := by
  rintro ⟨hl, hb⟩
  by_cases hact : ∃ arm, act = .talk (.engine arm)
  · obtain ⟨arm, rfl⟩ := hact
    obtain ⟨-, talk, htalk, rfl⟩ := talk_spec h
    rw [after_talk] at hb
    rw [left, after_talk] at hl
    rcases engine_out hs htalk with ⟨-, hleaves, hout⟩ | ⟨hl', -, hout, -⟩
    · rw [hleaves, Bool.not_not] at hl
      exact hok hl (hout ▸ hb)
    · exact hn ⟨hl', hout ▸ hb⟩
  · obtain ⟨hl', hout⟩ := other_out hs h fun arm heq => hact ⟨arm, heq⟩
    rw [hl'] at hl
    rcases hout with ⟨a, rfl, hout⟩ | hout
    · cases hout with
      | reads => exact absurd ⟨_, rfl⟩ hact
      | @takes ev rest hrecv hfree hout =>
        rw [hout] at hb
        have hforwards : ev.forwards = true := by
          by_contra hno
          refine hb.1 ?_
          simp [Pipe.offer, hfree, hno]
        have hhead : ev ∈ s.talk.geminiEvents.queued.head? := by
          rw [(Pipe.recv_spec hrecv).2.2.2]
          rfl
        exact Nat.not_lt.mpr hb.2 (hok hl ⟨ev, hhead, hforwards⟩)
      | sends hacc =>
        obtain ⟨-, -, x, hw, -⟩ := Pipe.accept_spec hacc
        have hone := hs.single
        rw [hw, List.length_cons] at hone
        exact hb.1 (List.eq_nil_of_length_eq_zero (Nat.le_zero.mp (Nat.le_of_succ_le_succ hone)))
      | still _ _ hout => exact hn ⟨hl, hout ▸ hb⟩
    · exact hn ⟨hl, hout ▸ hb⟩

theorem jams_step (hs : s.Sound) (hno : ¬ s.Roomy su act) (h : s.step su act = some s') : s'.Jammed := by
  cases act with
  | talk a =>
    obtain ⟨-, talk, htalk, rfl⟩ := talk_spec h
    cases a with
    | engine arm =>
      simp only [Roomy, not_forall, not_not] at hno
      obtain ⟨hleaves, hb⟩ := hno
      rw [Jammed, left, after_talk]
      rcases engine_out hs htalk with ⟨-, hl, hout⟩ | ⟨-, -, -, hleaves'⟩
      · rw [hl, hleaves, hout]
        exact ⟨rfl, hb⟩
      · rw [hleaves] at hleaves'
        cases hleaves'
    | bridge arm =>
      cases arm with
      | event =>
        simp only [Roomy, not_forall, Nat.not_lt] at hno
        obtain ⟨hl, ⟨ev, hev, hforwards⟩, hfull⟩ := hno
        obtain ⟨hl', -⟩ := other_out hs h (by simp)
        refine ⟨hl'.trans hl, ?_⟩
        rw [after_talk]
        cases Talk.out_step htalk with
        | @takes x rest hrecv hfree hout =>
          rw [(Pipe.recv_spec hrecv).2.2.2] at hev
          obtain rfl := Option.some.inj hev
          rw [hout]
          exact ⟨by simp [Pipe.offer, hforwards], hfull⟩
        | still hne => exact absurd rfl hne
      | _ => exact absurd trivial hno
    | _ => exact absurd trivial hno
  | _ => exact absurd trivial hno

theorem left_step (hs : s.Sound) (hl : s.left = true) (h : s.step su act = some s') : s'.left = true := by
  by_cases hact : ∃ arm, act = .talk (.engine arm)
  · obtain ⟨arm, rfl⟩ := hact
    obtain ⟨-, talk, htalk, rfl⟩ := talk_spec h
    rcases engine_out hs htalk with ⟨hl', -⟩ | ⟨-, hl', -⟩
    · rw [hl] at hl'
      cases hl'
    · rw [left, after_talk, hl']
      rfl
  · exact (other_out hs h fun arm heq => hact ⟨arm, heq⟩).1.trans hl

def capAhead (s : CallTeardown V) : ℕ :=
  match s.talk.attempt.phase with
  | .draining _ cap => cap - s.talk.sh.clock
  | _ => 0

def ahead (s : CallTeardown V) : ℕ := s.talk.attempt.phase.left + s.pc.toGo + s.capAhead

def toGo (s : CallTeardown V) : ℕ := s.ahead + s.talk.bridgeToGo + s.talk.driverToGo

theorem toGo_lt_of_ahead (h : s'.ahead < s.ahead) (hb : s'.talk.bridgeToGo = s.talk.bridgeToGo)
    (hd : s'.talk.driverToGo = s.talk.driverToGo) : s'.toGo < s.toGo := by
  unfold toGo
  omega

theorem toGo_lt_of_bridge (ha : s'.ahead = s.ahead) (h : s'.talk.bridgeToGo < s.talk.bridgeToGo)
    (hd : s'.talk.driverToGo = s.talk.driverToGo) : s'.toGo < s.toGo := by
  unfold toGo
  omega

theorem toGo_lt_of_driver (ha : s'.ahead = s.ahead) (hb : s'.talk.bridgeToGo = s.talk.bridgeToGo)
    (h : s'.talk.driverToGo < s.talk.driverToGo) : s'.toGo < s.toGo := by
  unfold toGo
  omega

theorem step_talk {act : TalkAct} {talk : Talk V} (hallow : s.allows act = true) (h : s.talk.step su act = some talk) :
    s.step su (.talk act) = some (s.after su act talk) := by
  rw [step, if_pos hallow, h, Option.map_some]

theorem progress_drain (hs : s.Sound) {t : Teardown} {cap : ℕ} (hpc : s.pc = .talking)
    (hph : s.talk.attempt.phase = .draining t cap) :
    ∃ act s', s.Roomy su act ∧ s.step su act = some s' ∧ s'.toGo < s.toGo := by
  by_cases hcap : cap ≤ s.talk.sh.clock
  · have htext : s.text.waiting = [] := hs.told (by rw [hph]; rfl)
    have hnext : s.talk.attempt.next su.cfg s.talk.sh su.tok (.drain s.talk.quality.downlinkActive) =
        some (.joining t, .idle) := by
      unfold Attempt.next
      rw [hph]
      dsimp only
      rw [if_neg fun hno => Nat.not_lt.mpr hcap hno.2]
    have hstep : s.talk.step su (.engine .drain) = some { s.talk with
        sh := s.talk.sh.apply .idle, attempt := { s.talk.attempt with phase := .joining t } } := by
      simp only [Talk.step, Talk.engineStep, hph, Phase.talks, if_true, Talk.engineInput, Option.bind_eq_bind,
        Option.bind_some, hnext]
      cases s.talk.bridge <;> rfl
    refine ⟨.talk (.engine .drain), _, ?_, step_talk (by simp [allows, htext]) hstep, ?_⟩
    · intro hleaves
      simp [leaves, hph] at hleaves
    · refine toGo_lt_of_ahead ?_ (by rw [after_talk]; rfl) (by rw [after_talk]; rfl)
      have hahead : s.ahead = 14 + 6 + s.capAhead := by rw [ahead, hph, hpc]; rfl
      rw [hahead]
      exact Nat.lt_of_lt_of_le (by decide : 13 + 5 + 0 < 14 + 6) (Nat.le_add_right _ _)
  · have hstep : s.talk.step su (.others fun sh => { sh with clock := cap }) =
        some { s.talk with sh := { s.talk.sh with clock := cap } } := by
      simp only [Talk.step]
      rw [if_pos (Nat.le_of_not_le hcap)]
    refine ⟨.talk (.others fun sh => { sh with clock := cap }), _, trivial, step_talk rfl hstep,
      toGo_lt_of_ahead ?_ rfl rfl⟩
    refine Nat.add_lt_add_left ?_ (s.talk.attempt.phase.left + s.pc.toGo)
    simp only [after, capAhead, hph]
    omega

theorem progress_statement (hs : s.Sound) (hpc : s.pc = .sipHangup ∨ s.pc = .geminiHangup ∨ s.pc = .bridgeCancel ∨
      s.pc = .joinBridge ∧ s.talk.bridgeEnd.isSome = true) :
    ∃ act s', s.Roomy su act ∧ s.step su act = some s' ∧ s'.toGo < s.toGo := by
  have hless : ∀ (pc : TeardownPc) (n : ℕ), pc.toGo < s.pc.toGo →
      ({ s with pc, hangups := n } : CallTeardown V).toGo < s.toGo :=
    fun pc n hlt => toGo_lt_of_ahead (Nat.add_lt_add_right (Nat.add_lt_add_left hlt _) _) rfl rfl
  rcases hpc with hpc | hpc | hpc | ⟨hpc, hend⟩
  · refine ⟨.teardown, _, trivial, by rw [step, teardown, hpc], hless .geminiHangup s.hangups ?_⟩
    rw [hpc]
    decide
  · have hlt : TeardownPc.bridgeCancel.toGo < s.pc.toGo := by
      rw [hpc]
      decide
    by_cases hgone : s.talk.driverGone = true
    · exact ⟨.teardown, _, trivial, by simp only [step, teardown, hpc, hgone, if_true],
        hless .bridgeCancel s.hangups hlt⟩
    · have hroom : s.hangups < HANGUP_CAPACITY := by
        rw [hs.hung (by rw [hpc]; rfl)]
        decide
      have hstep : s.step su .teardown = some { s with pc := .bridgeCancel, hangups := s.hangups + 1 } := by
        simp only [step, teardown, hpc, hgone, hroom, Bool.false_eq_true, if_true, if_false]
      exact ⟨.teardown, _, trivial, hstep, hless .bridgeCancel _ hlt⟩
  · refine ⟨.teardown, _, trivial, by rw [step, teardown, hpc], hless .joinBridge s.hangups ?_⟩
    rw [hpc]
    decide
  · refine ⟨.teardown, _, trivial, by simp only [step, teardown, hpc, hend, if_true], hless .joinDriver s.hangups ?_⟩
    rw [hpc]
    decide

theorem progress_bridge (hs : s.Sound) (hb : ¬ s.talk.eventsOut.Blocked EVENTS_CAPACITY) (hpc : s.pc = .joinBridge)
    (hend : s.talk.bridgeEnd = none) : ∃ act s', s.Roomy su act ∧ s.step su act = some s' ∧ s'.toGo < s.toGo := by
  have hfits := hs.fits
  rw [hpc] at hfits
  obtain ⟨t, hph⟩ := hfits
  obtain ⟨b, hbr⟩ : ∃ b, s.talk.bridge = some b := Option.ne_none_iff_exists'.mp fun hno => by
    obtain ⟨-, u, hu⟩ := hs.started hno
    rw [hph] at hu
    cases hu
  by_cases hw : s.talk.eventsOut.waiting = []
  · cases hbpc : b.pc with
    | select =>
      have hstep : s.talk.step su (.bridge .cancel) =
          some { s.talk with bridge := some { b with pc := .ended .cancelled } } := by
        simp only [Talk.step, hbr, Option.bind_eq_bind, Option.bind_some, Talk.bridgeStep]
        rw [if_pos (by simp [Bridge.selects, hbpc, hw]), hph]
        rfl
      refine ⟨.talk (.bridge .cancel), _, trivial, step_talk (by rw [allows, hpc]; rfl) hstep,
        toGo_lt_of_bridge rfl ?_ rfl⟩
      refine Nat.add_lt_add_left ?_ s.talk.eventsOut.waiting.length
      simp [after, hbr, Bridge.toGo, hbpc]
    | sending frame =>
      by_cases hopen : s.talk.phoneOpen = true
      · have hstep : s.talk.step su .phoneSend = some { s.talk with
            bridge := some { b with pc := .select }, phoneOut := s.talk.phoneOut ++ [frame] } := by
          simp only [Talk.step, hbr, Option.bind_eq_bind, Option.bind_some, Talk.phoneStep, hbpc, hopen, if_true]
        refine ⟨.talk .phoneSend, _, trivial, step_talk rfl hstep, toGo_lt_of_bridge rfl ?_ rfl⟩
        refine Nat.add_lt_add_left ?_ s.talk.eventsOut.waiting.length
        simp [after, hbr, Bridge.toGo, hbpc]
      · have hstep : s.talk.step su .phoneSend = some { s.talk with
            bridge := some ({ b with pc := .select }.onPhoneGone (Talk.harvestGraceMs su.cfg) s.talk.sh.clock) } := by
          simp only [Talk.step, hbr, Option.bind_eq_bind, Option.bind_some, Talk.phoneStep, hbpc, hopen,
            Bool.false_eq_true, if_false]
        refine ⟨.talk .phoneSend, _, trivial, step_talk rfl hstep, toGo_lt_of_bridge rfl ?_ rfl⟩
        refine Nat.add_lt_add_left ?_ s.talk.eventsOut.waiting.length
        have hle := Bridge.toGo_onPhoneGone { b with pc := .select } (Talk.harvestGraceMs su.cfg) s.talk.sh.clock rfl
        have htwo : b.toGo = 2 := by rw [Bridge.toGo, hbpc]
        simp only [after, hbr, Option.map_some, Option.getD_some, htwo]
        omega
    | ended how =>
      rw [Talk.bridgeEnd, hbr, Option.bind_some, Bridge.ending, hbpc] at hend
      cases hend
  · obtain ⟨q, hq⟩ := Pipe.exists_accept hw hb
    obtain ⟨-, -, x, hx, -⟩ := Pipe.accept_spec hq
    have hstep : s.talk.step su .bridgeSend = some { s.talk with eventsOut := q } := by
      rw [Talk.step, hq, Option.map_some]
    refine ⟨.talk .bridgeSend, _, trivial, step_talk rfl hstep, toGo_lt_of_bridge rfl ?_ rfl⟩
    refine Nat.add_lt_add_right ?_ ((s.talk.bridge.map Bridge.toGo).getD 0)
    rw [hx]
    exact Nat.lt_succ_self _

theorem progress_driver (hs : s.Sound) (hpc : s.pc = .joinDriver) :
    ∃ act s', s.Roomy su act ∧ s.step su act = some s' ∧ s'.toGo < s.toGo := by
  have hfits := hs.fits
  rw [hpc] at hfits
  obtain ⟨t, hph⟩ := hfits
  by_cases hw : s.talk.geminiEvents.waiting = []
  · cases hstatus : s.talk.driver.status with
    | looping d =>
      have hqueued : 0 < s.hangups := hs.heard (by rw [hpc]; rfl) (by rw [hstatus]; rfl)
      have hstep : s.talk.step su (.driver .hangup) = some { s.talk with
          driver := ⟨.returned (d.finish s.talk.sh.clock .callerHangup none), s.talk.driver.sent⟩ } := by
        simp only [Talk.step, Talk.driverStep, hw, List.isEmpty_nil, if_true, DriverRun.step, hstatus, Driver.enabled,
          Option.bind_eq_bind, Option.bind_some, Driver.react, DriverRun.settle, List.append_nil, List.drop_length]
        simp [Talk.emits, Pipe.offer]
      refine ⟨.talk (.driver .hangup), _, trivial, step_talk (decide_eq_true hqueued) hstep,
        toGo_lt_of_driver rfl rfl ?_⟩
      refine Nat.add_lt_add_left ?_ s.talk.geminiEvents.waiting.length
      rw [hstatus]
      exact Nat.one_pos
    | returned o =>
      have hnext : s.talk.attempt.next su.cfg s.talk.sh su.tok (.joined o) = some (.quality t o, .idle) := by
        unfold Attempt.next
        rw [hph]
      have hstep : s.step su .teardown = some { s with pc := .joined, talk := { s.talk with
          sh := s.talk.sh.apply .idle, attempt := { s.talk.attempt with phase := .quality t o } } } := by
        simp only [step, teardown, hpc, hstatus, hw, List.isEmpty_nil, if_true, advance, hnext, Option.bind_eq_bind,
          Option.bind_some]
      refine ⟨.teardown, _, trivial, hstep, toGo_lt_of_ahead ?_ rfl rfl⟩
      have hahead : s.ahead = 13 + 1 + 0 := by rw [ahead, capAhead, hph, hpc]; rfl
      rw [hahead]
      exact (by decide : 12 + 0 + 0 < 13 + 1 + 0)
  · obtain ⟨q, hq, htail⟩ := Pipe.exists_discard hw
    have hend := hs.ended (by rw [hpc]; rfl)
    have hstep : s.talk.step su .driverSend = some { s.talk with geminiEvents := q } := by
      rw [Talk.step, if_pos hend, hq, Option.map_some]
    have hshort : q.waiting.length < s.talk.geminiEvents.waiting.length := by
      rw [htail, List.length_tail]
      exact Nat.sub_lt (List.length_pos_iff.mpr hw) Nat.one_pos
    exact ⟨.talk .driverSend, _, trivial, step_talk rfl hstep,
      toGo_lt_of_driver rfl rfl (Nat.add_lt_add_right hshort _)⟩

theorem capAhead_of_rest {n : ℕ} (h : s.talk.attempt.phase.rest? = some n) : s.capAhead = 0 := by
  unfold capAhead
  split
  · rename_i heq
    rw [heq] at h
    cases h
  · rfl

theorem progress_rest (hs : s.Sound) (hpc : s.pc = .joined) (hgone : s.talk.attempt.phase ≠ .gone) :
    ∃ act s', s.Roomy su act ∧ s.step su act = some s' ∧ s'.toGo < s.toGo := by
  have hfits := hs.fits
  rw [hpc] at hfits
  obtain ⟨n, hn⟩ := Option.isSome_iff_exists.mp hfits
  have hpos : n ≠ 0 := by
    rintro rfl
    exact hgone (Phase.gone_of_rest hn)
  obtain ⟨input, ph, eff, hpanic, hnext⟩ := Attempt.exists_next_rest su.cfg s.talk.sh su.tok hn hpos
  obtain ⟨m, hm, hlt, -, -⟩ := Attempt.next_rest hnext hpanic hn
  have hstep : s.step su (.rest input) = some { s with pc := .joined, talk := { s.talk with
      sh := s.talk.sh.apply eff, attempt := { s.talk.attempt with phase := ph } } } := by
    rw [step_rest hpanic hpc, advance, hnext]
    rfl
  refine ⟨.rest input, _, trivial, hstep, toGo_lt_of_ahead ?_ rfl rfl⟩
  have hahead : s.ahead = n + 0 + 0 := by rw [ahead, Phase.left_of_rest hn, capAhead_of_rest hn, hpc]; rfl
  rw [hahead, ahead, capAhead_of_rest (n := m) hm]
  exact (Phase.left_of_rest hm).symm ▸ hlt

/-- A call that has left its loop, and whose bridge is not jammed, goes on. -/
theorem progress (hs : s.Sound) (hl : s.left = true) (hn : ¬ s.Jammed) (hgone : s.talk.attempt.phase ≠ .gone) :
    ∃ act s', s.Roomy su act ∧ s.step su act = some s' ∧ s'.toGo < s.toGo := by
  cases hpc : s.pc with
  | talking =>
    have hfits := hs.fits
    rw [hpc] at hfits
    cases hph : s.talk.attempt.phase with
    | draining t cap => exact progress_drain hs hpc hph
    | answered | live =>
      rw [left, hph] at hl
      cases hl
    | _ =>
      rw [hph] at hfits
      cases hfits
  | sipHangup => exact progress_statement hs (Or.inl hpc)
  | geminiHangup => exact progress_statement hs (Or.inr (Or.inl hpc))
  | bridgeCancel => exact progress_statement hs (Or.inr (Or.inr (Or.inl hpc)))
  | joinBridge =>
    cases hend : s.talk.bridgeEnd with
    | none => exact progress_bridge hs (fun hb => hn ⟨hl, hb⟩) hpc hend
    | some how => exact progress_statement hs (Or.inr (Or.inr (Or.inr ⟨hpc, by rw [hend]; rfl⟩)))
  | joinDriver => exact progress_driver hs hpc
  | joined => exact progress_rest hs hpc hgone

theorem exists_gone (hs : s.Sound) (hl : s.left = true) (hn : ¬ s.Jammed) :
    ∃ tr s', Run (step su) Always s tr s' ∧ s'.talk.attempt.phase = .gone := by
  refine exists_run_of_progress (I := fun t => t.Sound ∧ t.left = true ∧ ¬ t.Jammed) toGo ?_ ⟨hs, hl, hn⟩
  rintro t ⟨hs, hl, hn⟩ hgone
  obtain ⟨act, t', hok, hstep, hlt⟩ := progress hs hl hn hgone
  exact ⟨act, t', trivial, hstep, ⟨sound_step hs hstep, left_step hs hl hstep, clear_step hs hn hok hstep⟩, hlt⟩

def Finalizes (su : Setup V) (s : CallTeardown V) : TeardownAct → Prop
  | .rest input => ∃ ph e, s.talk.attempt.next su.cfg s.talk.sh su.tok input = some (ph, .finalize e) ∧
      e.id = s.talk.attempt.id
  | _ => False

def Releases (su : Setup V) (s : CallTeardown V) : TeardownAct → Prop
  | .rest input => ∃ ph, s.talk.attempt.next su.cfg s.talk.sh su.tok input = some (ph, .releaseSlot)
  | _ => False

theorem rest_step {n : ℕ} (hs : s.Sound) (h : s.step su act = some s') (hn : s'.talk.attempt.phase.rest? = some n) :
    n = 12 ∨ ∃ k, s.talk.attempt.phase.rest? = some k ∧ (n < 8 → k < 8 ∨ s.Finalizes su act) ∧
      (n < 2 → k < 2 ∨ s.Releases su act) := by
  have hstays : s'.talk.attempt = s.talk.attempt → ∃ k, s.talk.attempt.phase.rest? = some k ∧
      (n < 8 → k < 8 ∨ s.Finalizes su act) ∧ (n < 2 → k < 2 ∨ s.Releases su act) := by
    intro heq
    rw [heq] at hn
    exact ⟨n, hn, Or.inl, Or.inl⟩
  cases act with
  | talk a =>
    obtain ⟨-, talk, htalk, rfl⟩ := talk_spec h
    by_cases hact : ∃ arm, a = .engine arm
    · obtain ⟨arm, rfl⟩ := hact
      obtain ⟨-, -, -, hphase⟩ := engine_spec hs htalk
      rw [after_talk] at hn
      rcases hphase with ⟨hconv, -⟩ | ⟨-, t, ht⟩
      · cases hph : talk.attempt.phase with
        | answered | live | draining =>
          rw [hph] at hn
          cases hn
        | _ =>
          rw [hph] at hconv
          cases hconv
      · rw [ht] at hn
        cases hn
    · right
      refine hstays ?_
      rw [after_talk]
      exact (Talk.frame_of_step htalk fun arm heq => hact ⟨arm, heq⟩).1
  | textSend =>
    obtain ⟨text, -, rfl⟩ := Option.map_eq_some_iff.mp h
    exact Or.inr (hstays rfl)
  | teardown =>
    cases teardown_cases h with
    | joinDriver hpc h =>
      obtain ⟨ph, eff, hnext, rfl⟩ := advance_spec h
      obtain ⟨t, rfl⟩ := quality_of_joined hs hpc hnext
      exact Or.inl (Option.some.inj hn).symm
    | _ =>
      subst_vars
      exact Or.inr (hstays rfl)
  | rest input =>
    obtain ⟨hin, hpc, h⟩ := rest_spec h
    obtain ⟨ph, eff, hnext, rfl⟩ := advance_spec h
    have hfits := hs.fits
    rw [hpc] at hfits
    obtain ⟨k, hk⟩ := Option.isSome_iff_exists.mp hfits
    obtain ⟨m, hm, -, hfin, hrel⟩ := Attempt.next_rest hnext hin hk
    obtain rfl : m = n := Option.some.inj (hm.symm.trans hn)
    refine Or.inr ⟨k, hk, fun hlt => ?_, fun hlt => ?_⟩
    · rcases hfin hlt with hk | ⟨e, rfl, he⟩
      · exact Or.inl hk
      · exact Or.inr ⟨ph, e, hnext, he⟩
    · rcases hrel hlt with hk | rfl
      · exact Or.inl hk
      · exact Or.inr ⟨ph, hnext⟩

/-- What `run_call` has behind it in a run from `s₀`. -/
structure Past (su : Setup V) (s₀ : CallTeardown V) (tr : List TeardownAct) (s : CallTeardown V) : Prop where
  sound : s.Sound
  finalized : ∀ n, s.talk.attempt.phase.rest? = some n → n < 8 → Once (step su) s₀ (Finalizes su) tr
  released : ∀ n, s.talk.attempt.phase.rest? = some n → n < 2 → Once (step su) s₀ (Releases su) tr

theorem past_run {sh : Shared} {entry : PendingEntry} {probe : Bool} {vad : V} {tr : List TeardownAct}
    (h : Run (step su) Always (init su sh entry probe vad) tr s) : Past su (init su sh entry probe vad) tr s := by
  refine (h.trace_invariant
    (I := fun tr t => Run (step su) Always (init su sh entry probe vad) tr t ∧
      Past su (init su sh entry probe vad) tr t)
    ⟨.nil, sound_init sh entry probe vad, fun n hn => (by cases hn), fun n hn => by cases hn⟩ ?_).2
  rintro tr t act t' ⟨hrun, hp⟩ hok hstep
  refine ⟨hrun.snoc hok hstep, sound_step hp.sound hstep, fun n hn hlt => ?_, fun n hn hlt => ?_⟩
  · rcases rest_step hp.sound hstep hn with rfl | ⟨k, hk, hfin, -⟩
    · exact absurd hlt (by decide)
    · rcases hfin hlt with hk' | hnow
      · exact (hp.finalized k hk hk').snoc act
      · exact hrun.once hnow
  · rcases rest_step hp.sound hstep hn with rfl | ⟨k, hk, -, hrel⟩
    · exact absurd hlt (by decide)
    · rcases hrel hlt with hk' | hnow
      · exact (hp.released k hk hk').snoc act
      · exact hrun.once hnow

/-- The run can go on to the end of `run_call`, and the call is finalized and its slot released in it. -/
def Finishes (su : Setup V) (s s₀ : CallTeardown V) (tr : List TeardownAct) : Prop :=
  ∃ tr' s', Run (step su) Always s tr' s' ∧ s'.talk.attempt.phase = .gone ∧
    Once (step su) s₀ (Finalizes su) (tr ++ tr') ∧ Once (step su) s₀ (Releases su) (tr ++ tr')

/-- Whatever the parties do, `run_call` does not get past the join of the bridge, and the bridge waits on a full
channel. -/
def Stuck (su : Setup V) (s : CallTeardown V) : Prop :=
  ∀ tr s', Run (step su) Always s tr s' →
    s'.pc.bridgeJoined = false ∧ s'.talk.bridgeEnd = none ∧ s'.talk.eventsOut.Blocked EVENTS_CAPACITY

theorem stuck_of_jammed (hs : s.Sound) (hj : s.Jammed) : s.Stuck su := by
  intro tr s' hrun
  obtain ⟨hs', hj'⟩ := hrun.invariant (I := fun t => t.Sound ∧ t.Jammed) ⟨hs, hj⟩
    fun _ _ _ hsj _ hstep => ⟨sound_step hsj.1 hstep, jammed_step hsj.1 hsj.2 hstep⟩
  have hend : s'.talk.bridgeEnd = none := by
    cases hb : s'.talk.bridge with
    | none => exact absurd (hs'.started hb).1 hj'.2.1
    | some b =>
      have hsel : b.selects = true := (hs'.task b hb).idle hj'.2.1
      rw [Talk.bridgeEnd, hb, Option.bind_some, Bridge.ending, Bridge.pc_of_selects hsel]
  refine ⟨?_, hend, hj'.2⟩
  rw [Bool.eq_false_iff]
  intro hpc
  have hsome := hs'.ended hpc
  rw [hend] at hsome
  cases hsome

/-- A call that has left its loop can be finalized, and its slot released, exactly when the bridge was
never left waiting for room; otherwise it is stuck in the join of the bridge for good. -/
theorem teardown_exact {sh : Shared} {entry : PendingEntry} {probe : Bool} {vad : V} {tr : List TeardownAct}
    (h : Run (step su) Always (init su sh entry probe vad) tr s) (hl : s.left = true) :
    (s.Finishes su (init su sh entry probe vad) tr ↔ Run (step su) (Roomy su) (init su sh entry probe vad) tr s) ∧
      (s.Stuck su ↔ ¬ Run (step su) (Roomy su) (init su sh entry probe vad) tr s) := by
  have hcases : _ ∧ _ ∨ ¬ Run (step su) (Roomy su) (init su sh entry probe vad) tr s ∧ _ := h.good_or_bad
    (G := fun t => t.Sound ∧ ¬ t.Jammed) (B := fun t => t.Sound ∧ t.Jammed)
    ⟨sound_init sh entry probe vad, fun hj => by cases hj.1⟩
    (fun _ _ _ hg hok hstep => ⟨sound_step hg.1 hstep, clear_step hg.1 hg.2 hok hstep⟩)
    (fun _ _ _ hg hno hstep => ⟨sound_step hg.1 hstep, jams_step hg.1 hno hstep⟩)
    (fun _ _ _ hb hstep => ⟨sound_step hb.1 hstep, jammed_step hb.1 hb.2 hstep⟩)
  have hgone : ∀ t : CallTeardown V, t.Sound → t.talk.attempt.phase = .gone → t.pc.bridgeJoined = true := by
    intro t ht hph
    have hfits := ht.fits
    rw [hph] at hfits
    cases hpc : t.pc with
    | joined => rfl
    | talking =>
      rw [hpc] at hfits
      cases hfits
    | _ =>
      rw [hpc] at hfits
      obtain ⟨u, hu⟩ := hfits
      cases hu
  have hfree : s.Stuck su → ∀ tr' s', Run (step su) Always s tr' s' → s'.talk.attempt.phase ≠ .gone := by
    intro hstuck tr' s' hrun hph
    have hj := (hstuck tr' s' hrun).1
    rw [hgone s' (past_run (h.append hrun)).sound hph] at hj
    cases hj
  rcases hcases with ⟨hok, hs, hclear⟩ | ⟨hno, hs, hjam⟩
  · obtain ⟨tr', s', hrun, hend⟩ := exists_gone hs hl hclear
    have hpast := past_run (h.append hrun)
    refine ⟨iff_of_true ⟨tr', s', hrun, hend, ?_, ?_⟩ hok,
      iff_of_false (fun hstuck => hfree hstuck tr' s' hrun hend) (not_not.mpr hok)⟩
    · exact hpast.finalized 0 (by rw [hend]; rfl) (by decide)
    · exact hpast.released 0 (by rw [hend]; rfl) (by decide)
  · have hstuck : s.Stuck su := stuck_of_jammed hs hjam
    refine ⟨iff_of_false ?_ hno, iff_of_true hstuck hno⟩
    rintro ⟨tr', s', hrun, hph, -⟩
    exact hfree hstuck tr' s' hrun hph

instance (su : Setup V) (s : CallTeardown V) (act : TeardownAct) : Decidable (s.Roomy su act) :=
  match act with
  | .talk a =>
    match a with
    | .engine arm => inferInstanceAs (Decidable (s.leaves su arm = true →
        ¬ ((s.talk.afterArm arm).waiting ≠ [] ∧ EVENTS_CAPACITY ≤ (s.talk.afterArm arm).queued.length)))
    | .bridge .event => inferInstanceAs (Decidable (s.left = true →
        (∃ ev ∈ s.talk.geminiEvents.queued.head?, ev.forwards = true) →
          s.talk.eventsOut.queued.length < EVENTS_CAPACITY))
    | .others _ | .phoneGone | .driver _ | .driverSend | .uplink | .bridge .cancel | .bridge .uplink | .bridge .grace
    | .bridge .closed | .bridge .tick | .bridgeSend | .phoneSend => .isTrue trivial
  | .textSend | .teardown | .rest _ => .isTrue trivial

def answered : CallTeardown Unit :=
  init (Talk.setup 0) (Shared.init (Talk.setup 0).cfg 0) ⟨callId 0, "", ⟨.null, none, none⟩, 0, 1⟩ false ()

/-- The phone hangs up, and `run_call` goes on until it joins the bridge. -/
def phoneHangsUp : List TeardownAct :=
  [TalkAct.phoneGone, .engine (.sip none)].map .talk ++ List.replicate 3 .teardown

theorem teardown_exact_phoneHangsUp :
    ∃ s, exec (guarded (step (Talk.setup 0)) (Roomy (Talk.setup 0))) answered (.talk (.engine .go) :: phoneHangsUp) =
        some s ∧
      s.pc = .joinBridge ∧ s.Finishes (Talk.setup 0) answered (.talk (.engine .go) :: phoneHangsUp) := by
  obtain ⟨s, hs, hpc, hl⟩ : ∃ s, exec (guarded (step (Talk.setup 0)) (Roomy (Talk.setup 0))) answered
      (.talk (.engine .go) :: phoneHangsUp) = some s ∧ s.pc = .joinBridge ∧ s.left = true := ⟨_, rfl, rfl, rfl⟩
  have hrun := run_of_guarded hs
  exact ⟨s, hs, hpc, (teardown_exact hrun.unconditional hl).1.mpr hrun⟩

/-- The driver's event is forwarded to `run_call`, which does not read it. -/
def forwardUnread : List TeardownAct :=
  [TalkAct.driver (.affect .user "calm"), .driverSend, .bridge .event, .bridgeSend].map .talk

def unread (n : ℕ) : CallTeardown Unit :=
  { answered with talk := { answered.talk with
      attempt := { answered.talk.attempt with phase := .live (LoopVars.init (Talk.setup 0).cfg 0 0) }
      sh := answered.talk.sh.apply (.store (.setState (callId 0) .inProgress))
      driver := ⟨.looping { Driver.init (Talk.setup 0).cfg () false 0 with hadActivity := 0 < n },
        List.replicate n (.event (.affect .user "calm"))⟩
      geminiEvents := { read := List.replicate n (.affect .user "calm") }
      eventsOut := { queued := List.replicate n (.affect .user "calm") }
      bridge := some (Bridge.new (Talk.setup 0).cfg.quality 0) } }

theorem exec_forwardUnread {n : ℕ} (hn : n < 256) :
    exec (step (Talk.setup 0)) (unread n) forwardUnread = some (unread (n + 1)) := by
  -- the driver and its channel, the bridge's arm, and the room for what it forwards
  simp [exec, forwardUnread, step, allows, after, unread, answered, init, Talk.init, Talk.step, Talk.driverStep,
    DriverRun.step, Driver.enabled, Driver.react, DriverRun.settle, Talk.emits, DriverOut.event?, Pipe.offer,
    Pipe.accept, Pipe.recv, Talk.bridgeEnd, Bridge.ending, Bridge.new, Talk.bridgeStep, Bridge.selects,
    Bridge.onEvent, Event.isAudio, EVENTS_CAPACITY, hn, List.replicate_succ']

theorem run_forwardUnread {n : ℕ} (hn : n ≤ 256) :
    Run (step (Talk.setup 0)) Always answered (.talk (.engine .go) :: (List.replicate n forwardUnread).flatten)
      (unread n) := by
  induction n with
  | zero =>
    have hgo : exec (step (Talk.setup 0)) answered [.talk (.engine .go)] = some (unread 0) := rfl
    exact run_of_exec hgo
  | succ n ih =>
    rw [List.replicate_succ', List.flatten_append, List.flatten_singleton]
    exact (ih (Nat.le_of_succ_le hn)).append (run_of_exec (exec_forwardUnread hn))

/-- The bridge waits to forward one more event when the phone hangs up. -/
def unreadHangup : List TeardownAct :=
  .talk (.engine .go) :: (List.replicate 256 forwardUnread).flatten ++ (forwardUnread.take 3 ++ phoneHangsUp)

/-- `run_call` waits in the join of the bridge forever. -/
theorem stuck_unreadHangup :
    ∃ s, Run (step (Talk.setup 0)) Always answered unreadHangup s ∧ s.pc = .joinBridge ∧ s.Stuck (Talk.setup 0) := by
  have hend : (exec (step (Talk.setup 0)) (unread 256) (forwardUnread.take 3 ++ phoneHangsUp)).any (fun s =>
      s.pc = .joinBridge ∧ s.left = true ∧ s.talk.eventsOut.waiting.length = 1 ∧
        s.talk.eventsOut.queued.length = EVENTS_CAPACITY) = true := by
    decide +kernel
  obtain ⟨s, hs, hend⟩ := (Option.any_eq_true _ _).mp hend
  obtain ⟨hpc, hl, hwaiting, hqueued⟩ := of_decide_eq_true hend
  have hrun := (run_forwardUnread le_rfl).append (run_of_exec hs)
  have hblocked : s.talk.eventsOut.Blocked EVENTS_CAPACITY := by
    refine ⟨fun hno => ?_, hqueued.ge⟩
    rw [hno] at hwaiting
    cases hwaiting
  exact ⟨s, hrun, hpc, stuck_of_jammed (past_run hrun).sound ⟨hl, hblocked⟩⟩

end CallTeardown

end Kutsu
