import Kutsu.Model.Talk

/-! What one step of a talk does, party by party. -/

namespace Kutsu

open Pipes

namespace Talk

variable {V : Type} {su : Setup V} {s s' : Talk V}

section Engine

variable {arm : EngineArm} {input : RunInput}

inductive Receives (s : Talk V) : EngineArm → RunInput → Prop where
  | go : Receives s .go .go
  | event {ev p} (hrecv : s.eventsOut.recv = some (ev, p)) : Receives s .event (.loop (.event ev))
  | eventsClosed {how} (hended : s.bridgeEnd = some how) : Receives s .event (.loop .eventsClosed)
  | bridgeDone {how} (hended : s.bridgeEnd = some how) :
      Receives s .bridgeDone (.loop (.bridgeDone (some how)))
  | answered (codec) :
      Receives s (.sip (some (.answered codec))) (.loop (.sip (some (.answered codec))))
  | sipEnds {r} (hphone : s.phoneOpen = false) : Receives s (.sip r) (.loop (.sip r))
  | deadline : Receives s .deadline (.loop .deadline)
  | cancelled : Receives s .cancelled (.loop .cancelled)
  | harvestElapsed : Receives s .harvestElapsed (.loop .harvestElapsed)
  | qtick {q q' uplink downlink} :
      Receives s (.qtick q uplink downlink) (.loop (.qtick q' uplink downlink))
  | drain : Receives s .drain (.drain s.quality.downlinkActive)

theorem receives (h : s.engineInput arm = some input) : s.Receives arm input := by
  cases arm with
  | event =>
    simp only [engineInput] at h
    split at h
    · rename_i hrecv
      obtain rfl := Option.some.inj h
      exact .event hrecv
    · obtain ⟨how, hended, rfl⟩ := Option.map_eq_some_iff.mp h
      exact .eventsClosed hended
  | bridgeDone =>
    obtain ⟨how, hended, rfl⟩ := Option.map_eq_some_iff.mp h
    exact .bridgeDone hended
  | sip r =>
    rcases r with _ | (codec | _)
    case some.answered =>
      obtain rfl := Option.some.inj h
      exact .answered codec
    all_goals
      simp only [engineInput] at h
      split_ifs at h with hphone
      obtain rfl := Option.some.inj h
      exact .sipEnds (by simpa using hphone)
  | _ =>
    obtain rfl := Option.some.inj h
    constructor

theorem engine_cases (h : s.engineStep su arm = some s') :
    ∃ input phase eff, s.attempt.phase.talks = true ∧ s.engineInput arm = some input ∧
      s.attempt.next su.cfg s.sh su.tok input = some (phase, eff) ∧
      s' = { s with sh := s.sh.apply eff, attempt := { s.attempt with phase }
                    eventsOut := s.afterArm arm
                    bridge := match s.bridge, phase with
                      | none, .live _ => some (Bridge.new su.cfg.quality s.sh.clock)
                      | b, _ => b } := by
  unfold engineStep at h
  split_ifs at h with htalk
  simp only [Option.bind_eq_bind, Option.bind_eq_some_iff] at h
  obtain ⟨input, hin, ⟨phase, eff⟩, hnext, heq⟩ := h
  exact ⟨input, phase, eff, htalk, hin, hnext, (Option.some.inj heq).symm⟩

end Engine

inductive Arm (su : Setup V) (s : Talk V) (b : Bridge) : BridgeArm → Talk V → Prop where
  | cancel (hover : s.attempt.phase.talks = false) :
      Arm su s b .cancel { s with bridge := some { b with pc := .ended .cancelled } }
  | uplink (hup : s.uplinkEnded = true) (hruns : b.uplinkRunning = true) :
      Arm su s b .uplink { s with
        bridge := some ({ b with uplinkRunning := false }.onPhoneGone (harvestGraceMs su.cfg) s.sh.clock) }
  | grace {t : ℕ} (hsleep : b.graceSleep = some t) (hpast : t ≤ s.sh.clock) :
      Arm su s b .grace { s with bridge := some { b with pc := .ended .phoneClosed } }
  | event {ev : Event} {rest : Pipe Event} (hrecv : s.geminiEvents.recv = some (ev, rest)) :
      Arm su s b .event { s with
        geminiEvents := rest
        bridge := some (b.onEvent s.attempt.phase.muted s.sh.clock ev).1
        eventsOut := s.eventsOut.offer (b.onEvent s.attempt.phase.muted s.sh.clock ev).2
        fresh := s.fresh && !ev.isAudio }
  | closed (hgone : s.driverGone = true) (hread : s.geminiEvents.queued = []) :
      Arm su s b .closed { s with bridge := some { b with pc := .ended .geminiClosed } }
  | tick (hpaces : b.harvesting = false) (hdue : b.nextTick ≤ s.sh.clock) :
      Arm su s b .tick { s with
        bridge := some (b.onTick su.taps s.sh.clock).1
        quality := (b.onTick su.taps s.sh.clock).2
        fresh := true }

theorem arm_cases {b : Bridge} {arm : BridgeArm} (h : s.bridgeStep su b arm = some s') :
    b.selects = true ∧ s.eventsOut.waiting = [] ∧ Arm su s b arm s' := by
  unfold bridgeStep at h
  by_cases hfree : (b.selects && s.eventsOut.waiting.isEmpty) = true
  swap
  · rw [if_neg hfree] at h
    cases h
  rw [if_pos hfree] at h
  obtain ⟨hsel, hwait⟩ := Bool.and_eq_true_iff.mp hfree
  refine ⟨hsel, List.isEmpty_iff.mp hwait, ?_⟩
  cases arm with
  | cancel =>
    dsimp only at h
    split_ifs at h with htalk
    obtain rfl := Option.some.inj h
    exact .cancel (by simpa using htalk)
  | uplink =>
    dsimp only at h
    split_ifs at h with hup
    obtain rfl := Option.some.inj h
    obtain ⟨hup, hruns⟩ := Bool.and_eq_true_iff.mp hup
    exact .uplink hup hruns
  | grace =>
    dsimp only at h
    split_ifs at h with helapsed
    obtain rfl := Option.some.inj h
    obtain ⟨t, hsleep, hpast⟩ := (Option.any_eq_true _ _).mp helapsed
    exact .grace hsleep (of_decide_eq_true hpast)
  | event =>
    obtain ⟨⟨ev, rest⟩, hrecv, heq⟩ := Option.bind_eq_some_iff.mp h
    obtain rfl := Option.some.inj heq
    exact .event hrecv
  | closed =>
    dsimp only at h
    split_ifs at h with hclosed
    obtain rfl := Option.some.inj h
    obtain ⟨hgone, hread⟩ := Bool.and_eq_true_iff.mp hclosed
    exact .closed hgone (List.isEmpty_iff.mp hread)
  | tick =>
    dsimp only at h
    split_ifs at h with htick
    obtain rfl := Option.some.inj h
    obtain ⟨hpaces, hdue⟩ := Bool.and_eq_true_iff.mp htick
    exact .tick (by simpa using hpaces) (of_decide_eq_true hdue)

inductive Step (su : Setup V) (s : Talk V) : TalkAct → Talk V → Prop where
  | others {change : Shared → Shared} (hclock : s.sh.clock ≤ (change s.sh).clock) :
      Step su s (.others change) { s with sh := change s.sh }
  | phoneGone : Step su s .phoneGone { s with phoneOpen := false }
  | driver {input : DriverInput} {driver : DriverRun V} (hwait : s.geminiEvents.waiting = [])
      (hstep : s.driver.step su.cfg su.observe (input, s.sh.clock) = some driver) :
      Step su s (.driver input) { s with
        driver
        geminiEvents := s.geminiEvents.offer (emits (driver.sent.drop s.driver.sent.length)) }
  | driverSend {p : Pipe Event} (hreads : s.bridgeEnd.isSome = false)
      (hp : s.geminiEvents.accept EVENTS_CAPACITY = some p) :
      Step su s .driverSend { s with geminiEvents := p }
  | driverDrop {p : Pipe Event} (hended : s.bridgeEnd.isSome = true) (hp : s.geminiEvents.discard = some p) :
      Step su s .driverSend { s with geminiEvents := p }
  | uplink (hstarted : s.bridge.isSome = true) (hcut : s.phoneOpen = false ∨ s.driverGone = true) :
      Step su s .uplink { s with uplinkEnded := true }
  | bridge {b : Bridge} {arm : BridgeArm} {s' : Talk V} (hb : s.bridge = some b) (hsel : b.selects = true)
      (hfree : s.eventsOut.waiting = []) (harm : Arm su s b arm s') : Step su s (.bridge arm) s'
  | bridgeSend {p : Pipe Event} (hp : s.eventsOut.accept EVENTS_CAPACITY = some p) :
      Step su s .bridgeSend { s with eventsOut := p }
  | phoneSend {b : Bridge} {frame : Frame} (hb : s.bridge = some b) (hpc : b.pc = .sending frame)
      (hopen : s.phoneOpen = true) :
      Step su s .phoneSend { s with bridge := some { b with pc := .select }, phoneOut := s.phoneOut ++ [frame] }
  | phoneLost {b : Bridge} {frame : Frame} (hb : s.bridge = some b) (hpc : b.pc = .sending frame)
      (hgone : s.phoneOpen = false) :
      Step su s .phoneSend { s with
        bridge := some ({ b with pc := .select }.onPhoneGone (harvestGraceMs su.cfg) s.sh.clock) }
  | engine {arm : EngineArm} {s' : Talk V} (h : s.engineStep su arm = some s') : Step su s (.engine arm) s'

theorem step_cases {act : TalkAct} (h : s.step su act = some s') : Step su s act s' := by
  cases act with
  | others change =>
    simp only [step] at h
    split_ifs at h with hclock
    obtain rfl := Option.some.inj h
    exact .others hclock
  | phoneGone =>
    obtain rfl := Option.some.inj h
    exact .phoneGone
  | driver input =>
    simp only [step, driverStep] at h
    split_ifs at h with hwait
    obtain ⟨driver, hstep, heq⟩ := Option.bind_eq_some_iff.mp h
    obtain rfl := Option.some.inj heq
    exact .driver (List.isEmpty_iff.mp hwait) hstep
  | driverSend =>
    simp only [step] at h
    obtain ⟨p, hp, rfl⟩ := Option.map_eq_some_iff.mp h
    split_ifs at hp with hended
    · exact .driverDrop hended hp
    · exact .driverSend (by simpa using hended) hp
  | uplink =>
    simp only [step] at h
    split_ifs at h with hup
    obtain rfl := Option.some.inj h
    obtain ⟨hstarted, hcut⟩ := Bool.and_eq_true_iff.mp hup
    exact .uplink hstarted (by simpa using hcut)
  | bridge arm =>
    obtain ⟨b, hb, h⟩ := Option.bind_eq_some_iff.mp h
    obtain ⟨hsel, hfree, harm⟩ := arm_cases h
    exact .bridge hb hsel hfree harm
  | bridgeSend =>
    obtain ⟨p, hp, rfl⟩ := Option.map_eq_some_iff.mp h
    exact .bridgeSend hp
  | phoneSend =>
    obtain ⟨b, hb, h⟩ := Option.bind_eq_some_iff.mp h
    unfold phoneStep at h
    split at h
    · rename_i frame hpc
      dsimp only at h
      split_ifs at h with hopen
      · obtain rfl := Option.some.inj h
        exact .phoneSend hb hpc hopen
      · obtain rfl := Option.some.inj h
        exact .phoneLost hb hpc (by simpa using hopen)
    · cases h
  | engine arm => exact .engine h

end Talk

end Kutsu
