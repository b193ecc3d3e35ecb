import Kutsu.Lib.Run
import Kutsu.Proofs.Drain
import Kutsu.Proofs.Goal
import Kutsu.Proofs.Parties

/-! What becomes of the model's closing audio. Every sample the driver has forwarded is
in the event channel, in the pacer's buffer, in the frame that is being sent, or with the
phone; once the bridge has stopped pacing, what is not with the phone is lost. -/

namespace Kutsu

open Runs Pipes

namespace Event

def isEndCall : Event → Bool
  | .endCall _ => true
  | _ => false

def audio : Event → List Sample
  | .outputAudio pcm => pcm
  | _ => []

def onClosing (acc : List Sample) : Event → List Sample
  | .outputAudio pcm => acc ++ pcm
  | .interrupted => []
  | _ => acc

end Event

/-- The model's audio since it was last interrupted. -/
def closingAudio (evs : List Event) : List Sample := evs.foldl Event.onClosing []

theorem closingAudio_concat (evs : List Event) (ev : Event) :
    closingAudio (evs ++ [ev]) = ev.onClosing (closingAudio evs) := by
  simp [closingAudio]

theorem closingAudio_eq_flatMap {evs : List Event} (h : Event.interrupted ∉ evs) :
    closingAudio evs = evs.flatMap Event.audio := by
  induction evs using List.reverseRecOn with
  | nil => rfl
  | append_singleton l ev ih =>
    rw [closingAudio_concat, ih fun hl => h (List.mem_append_left _ hl), List.flatMap_append]
    cases ev with
    | interrupted => exact absurd (by simp) h
    | _ => simp [Event.onClosing, Event.audio]

theorem closingAudio_quiet {evs quiet : List Event} {out : List Sample}
    (hq : ∀ ev ∈ quiet, ev.isAudio = false) (h : closingAudio evs <:+ out) :
    closingAudio (evs ++ quiet) <:+ out := by
  induction quiet using List.reverseRecOn with
  | nil => simpa using h
  | append_singleton l ev ih =>
    have hev : ev.isAudio = false := hq ev (by simp)
    have hl := ih fun x hx => hq x (by simp [hx])
    rw [← List.append_assoc, closingAudio_concat]
    cases ev with
    | outputAudio => cases hev
    | interrupted => exact List.nil_suffix
    | _ => exact hl

/-- Nothing follows an `EndCall`. -/
def EndLast (evs : List Event) : Prop :=
  ∀ ev ∈ evs, ev.isEndCall = true → ∃ l, evs = l ++ [ev] ∧ ∀ x ∈ l, x.isEndCall = false

theorem EndLast.append {a b : List Event} (ha : ∀ x ∈ a, x.isEndCall = false) (hb : EndLast b) :
    EndLast (a ++ b) := by
  intro ev hev hend
  rcases List.mem_append.mp hev with hev | hev
  · rw [ha ev hev] at hend
    cases hend
  · obtain ⟨l, rfl, hl⟩ := hb ev hev hend
    refine ⟨a ++ l, by simp, fun x hx => ?_⟩
    rcases List.mem_append.mp hx with hx | hx
    · exact ha x hx
    · exact hl x hx

namespace Driver

variable {V : Type} (cfg : ServerConfig) (observe : V → List Sample → Bool × V) (d : Driver V) (now : ℕ)

/-- An iteration that emits `EndCall` emits it last, and leaves the loop. -/
theorem react_emits (input : DriverInput) :
    (∀ x ∈ Talk.emits (d.react cfg observe now input).1, x.isEndCall = false) ∨
      ∃ l goal, Talk.emits (d.react cfg observe now input).1 = l ++ [.endCall goal] ∧
        (∀ x ∈ l, x.isEndCall = false) ∧
        (DriverRun.settle now (d.react cfg observe now input).2).done = true := by
  cases input with
  | turnComplete =>
    simp only [react, onTurnComplete]
    cases d.ending with
    | some goal => exact Or.inr ⟨[.turnComplete], goal, rfl, by simp [Event.isEndCall], rfl⟩
    | none => exact Or.inl (by simp [Talk.emits, DriverOut.event?, Event.isEndCall])
  | endingTimer =>
    simp only [react]
    cases d.ending with
    | some goal => exact Or.inr ⟨[], goal, rfl, by simp, rfl⟩
    | none => exact Or.inl (by simp [Talk.emits])
  | sessionOpened isReconnect resumed sendOk =>
    left
    simp only [react, onReconnect]
    split_ifs <;> simp [Talk.emits, DriverOut.event?, Event.isEndCall]
  | toolCall name id args =>
    left
    simp only [react, onToolCall]
    split_ifs <;> simp [Talk.emits, DriverOut.event?]
  | _ => exact Or.inl (by simp [react, Talk.emits, DriverOut.event?, Event.isEndCall])

end Driver

namespace LoopVars

variable {cfg : ServerConfig} {id : CallId} {v : LoopVars} {now : ℕ}

/-- No goal yet, and no harvest under way. -/
def Quiet (v : LoopVars) : Prop := v.goal = none ∧ v.harvesting = false

theorem react_quiet (i : LoopInput) (hend : ∀ g, i ≠ .event (.endCall g))
    (hsip : ∀ r, i = .sip r → ∃ codec, r = some (.answered codec)) (hv : v.Quiet) :
    (v.react cfg id now i).next.vars.Quiet := by
  cases i with
  | event ev =>
    cases ev with
    | endCall g => exact absurd rfl (hend g)
    | _ => exact hv
  | sip r =>
    obtain ⟨codec, rfl⟩ := hsip r rfl
    exact hv
  | qtick q u d =>
    have hgates : (v.gates cfg (mergeQuality q u d) d).2.Quiet := by
      simp only [gates]
      split_ifs
      · exact hv
      all_goals split <;> exact hv
    simp only [react, onTick]
    split
    · rename_i reason v' heq
      rw [heq] at hgates
      exact hgates
    · rename_i v' heq
      rw [heq] at hgates
      simp only [watchdog]
      split_ifs
      · split <;> exact hgates
      · exact hgates
  | _ => exact hv

end LoopVars

def Bridge.hand (b : Bridge) : List Sample :=
  match b.pc with
  | .sending frame => frame.block
  | _ => []

namespace Talk

variable {V : Type}

def forwarded (s : Talk V) : List Event := emits s.driver.sent

def endCallSent (s : Talk V) : Bool := s.forwarded.any Event.isEndCall

def paced (s : Talk V) : List Sample := s.phoneOut.flatMap Frame.block

def hand (s : Talk V) : List Sample := (s.bridge.map Bridge.hand).getD []

def buffered (s : Talk V) : List Sample := (s.bridge.map (·.downlink.buf)).getD []

def paces (s : Talk V) : Bool := s.bridge.any Bridge.paces

def audioLeft (s : Talk V) : Bool := !s.buffered.isEmpty || s.geminiEvents.queued.any Event.isAudio

/-- What the bridge keeps of the audio it has read. -/
structure BridgeFlow (s : Talk V) (b : Bridge) : Prop where
  pacing : b.paces = true → closingAudio s.geminiEvents.read <:+ s.paced ++ (b.hand ++ b.downlink.buf)
  stopped : b.paces = false → s.driverGone = true ∧ b.hand = [] ∧
    (s.endCallSent = true → closingAudio s.forwarded <:+ s.paced)
  idle : s.fresh = true → s.quality.downlinkActive = false → b.downlink.buf = []
  grace : b.graceSleep.isSome = true → b.harvesting = true

/-- What `run_call` knows of the driver's `EndCall`. -/
def Told (s : Talk V) : Prop :=
  match s.attempt.phase with
  | .live v => v.Quiet
  | .draining _ _ => ∃ ev ∈ s.geminiEvents.read, ev.isEndCall = true
  | _ => True

structure Flow (s : Talk V) : Prop where
  phone : s.phoneOpen = true
  piped : s.forwarded = s.geminiEvents.sent
  looping : s.driver.status.done = false → ∀ ev ∈ s.forwarded, ev.isEndCall = false
  last : EndLast s.forwarded
  uplink : s.uplinkEnded = true → s.driverGone = true
  unread : s.bridge = none → s.geminiEvents.read = []
  known : ∀ ev ∈ s.eventsOut.sent, ev ∈ s.geminiEvents.read
  told : s.Told
  bridge : ∀ b, s.bridge = some b → s.BridgeFlow b

/-- The phone stays connected, and the downlink is not muted where audio is read. A harvest
starts only when the phone is gone. -/
def InScope (s : Talk V) : TalkAct → Prop
  | .phoneGone => False
  | .bridge .event => (∃ ev ∈ s.geminiEvents.queued.head?, ev.isAudio = true) →
      s.attempt.phase.muted = false
  | _ => True

/-- The bridge sees the driver's return, on either of their channels, only when the closing
audio has been played; and `run_call` takes the downlink to be idle only when the pacer
has ticked since it was last given audio, and the frame of that tick has been sent. -/
def Patient (s : Talk V) : TalkAct → Prop
  | .bridge .closed | .bridge .uplink => s.endCallSent = true → s.audioLeft = false
  | .engine .drain => s.paces = true → s.quality.downlinkActive = false → s.fresh = true ∧ s.hand = []
  | _ => True

section Engine

variable {su : Setup V} {s s' : Talk V} {arm : EngineArm} {input : RunInput}

theorem event_of_input {ev : Event} (h : s.engineInput arm = some (.loop (.event ev))) :
    arm = .event ∧ ∃ p, s.eventsOut.recv = some (ev, p) := by
  cases receives h with
  | event hrecv => exact ⟨rfl, _, hrecv⟩

theorem sip_of_input {r : Option SipEvent} (hphone : s.phoneOpen = true)
    (h : s.engineInput arm = some (.loop (.sip r))) : ∃ codec, r = some (.answered codec) := by
  cases receives h with
  | answered codec => exact ⟨codec, rfl⟩
  | sipEnds hgone => simp [hphone] at hgone

theorem known_afterArm (hk : ∀ ev ∈ s.eventsOut.sent, ev ∈ s.geminiEvents.read) :
    ∀ ev ∈ (s.afterArm arm).sent, ev ∈ s.geminiEvents.read := by
  intro ev hev
  cases arm with
  | event =>
    cases hrecv : s.eventsOut.recv with
    | none =>
      simp only [afterArm, hrecv, Option.map_none, Option.getD_none] at hev
      exact hk ev hev
    | some r =>
      simp only [afterArm, hrecv, Option.map_some, Option.getD_some] at hev
      rw [(Pipe.recv_spec hrecv).1] at hev
      exact hk ev hev
  | _ => exact hk ev hev

end Engine

end Talk

theorem Attempt.next_talk {cfg : ServerConfig} {sh : Shared} {tok : Token} {a : Attempt}
    {input : RunInput} {ph : Phase} {eff : Effect} (ht : a.phase.talks = true)
    (h : a.next cfg sh tok input = some (ph, eff)) :
    (ph.talks = false ∧ (input = .panic ∨ input = .go)) ∨ (∃ v, ph = .live v ∧ v.Quiet) ∨
      (∃ v i, a.phase = .live v ∧ input = .loop i ∧
        ph = Phase.afterLoop sh.clock (v.react cfg a.id sh.clock i).next) ∨
      ∃ t cap active, a.phase = .draining t cap ∧ input = .drain active ∧
        ph = if active ∧ sh.clock < cap then .draining t cap else .joining t := by
  obtain ⟨entry, probe, phase⟩ := a
  cases phase with
  | answered warm =>
    cases input with
    | go =>
      obtain ⟨rfl, -⟩ := Prod.mk.inj (Option.some.inj h)
      cases warm with
      | ok u => exact Or.inr (Or.inl ⟨_, rfl, rfl, rfl⟩)
      | error e => exact Or.inl ⟨rfl, Or.inr rfl⟩
    | panic =>
      obtain ⟨rfl, -⟩ := Prod.mk.inj (Option.some.inj h)
      exact Or.inl ⟨rfl, Or.inl rfl⟩
    | _ => cases h
  | live v =>
    cases input with
    | loop i =>
      unfold next at h
      dsimp only at h
      split_ifs at h
      obtain ⟨rfl, -⟩ := Prod.mk.inj (Option.some.inj h)
      exact Or.inr (Or.inr (Or.inl ⟨v, i, rfl, rfl, rfl⟩))
    | panic =>
      obtain ⟨rfl, -⟩ := Prod.mk.inj (Option.some.inj h)
      exact Or.inl ⟨rfl, Or.inl rfl⟩
    | _ => cases h
  | draining t cap =>
    cases input with
    | drain active =>
      obtain ⟨rfl, -⟩ := Prod.mk.inj (Option.some.inj h)
      exact Or.inr (Or.inr (Or.inr ⟨t, cap, active, rfl, rfl, rfl⟩))
    | panic =>
      obtain ⟨rfl, -⟩ := Prod.mk.inj (Option.some.inj h)
      exact Or.inl ⟨rfl, Or.inl rfl⟩
    | _ => cases h
  | _ => cases ht

namespace Talk

variable {V : Type} {su : Setup V} {s s' : Talk V} {b b' : Bridge}

theorem waiting_of_gone (h : s.driverGone = true) :
    s.driver.status.done = true ∧ s.geminiEvents.waiting = [] := by
  simpa [driverGone] using h

theorem flow_driver (hf : s.Flow) {input : DriverInput} {driver : DriverRun V}
    (h : s.driver.step su.cfg su.observe (input, s.sh.clock) = some driver) :
    Flow { s with
      driver
      geminiEvents := s.geminiEvents.offer (emits (driver.sent.drop s.driver.sent.length)) } := by
  obtain ⟨d, hlooping, -, rfl⟩ := DriverRun.step_looping h
  have hdone : s.driver.status.done = false := by rw [hlooping]; rfl
  have hstays : s.driverGone = false := by simp [driverGone, hdone]
  have hold := hf.looping hdone
  have hsent : emits (s.driver.sent ++ (d.react su.cfg su.observe s.sh.clock input).1) =
      s.forwarded ++ emits (d.react su.cfg su.observe s.sh.clock input).1 := List.filterMap_append
  have hreact := d.react_emits su.cfg su.observe s.sh.clock input
  refine ⟨hf.phone, ?_, ?_, ?_, ?_, hf.unread, hf.known, hf.told, fun b hb => ?_⟩
  · rw [Pipe.sent_offer, List.drop_left, ← hf.piped]
    exact hsent
  · intro hloop
    rw [forwarded, hsent]
    rcases hreact with hquiet | ⟨l, goal, -, -, hdone'⟩
    · intro ev hev
      rcases List.mem_append.mp hev with hev | hev
      · exact hold ev hev
      · exact hquiet ev hev
    · rw [hdone'] at hloop
      cases hloop
  · rw [forwarded, hsent]
    refine EndLast.append hold ?_
    rcases hreact with hquiet | ⟨l, goal, heq, hl, -⟩
    · intro ev hev hend
      rw [hquiet ev hev] at hend
      cases hend
    · rw [heq]
      exact EndLast.append hl fun x hx _ => ⟨[], by simp [List.mem_singleton.mp hx], by simp⟩
  · intro hup
    rw [hf.uplink hup] at hstays
    cases hstays
  · have hb := hf.bridge b hb
    refine ⟨hb.pacing, fun hstop => ?_, hb.idle, hb.grace⟩
    rw [(hb.stopped hstop).1] at hstays
    cases hstays

theorem Flow.quiet (hf : s.Flow) {v : LoopVars} (hph : s.attempt.phase = .live v) : v.Quiet := by
  have htold := hf.told
  rw [Told, hph] at htold
  exact htold

theorem told_afterLoop (hf : s.Flow) {cfg : ServerConfig} {id : CallId} {now : ℕ} {v : LoopVars}
    {i : LoopInput} {arm : EngineArm} (hv : v.Quiet) (hin : s.engineInput arm = some (.loop i))
    (hs' : s'.geminiEvents = s.geminiEvents)
    (hph : s'.attempt.phase = Phase.afterLoop now (v.react cfg id now i).next) : s'.Told := by
  unfold Told
  rw [hph]
  by_cases hi : ∃ g, i = .event (.endCall g)
  · obtain ⟨g, rfl⟩ := hi
    obtain ⟨-, p, hrecv⟩ := event_of_input hin
    have hqueued : .endCall g ∈ s.eventsOut.queued := by
      rw [(Pipe.recv_spec hrecv).2.2.2]
      exact List.mem_cons_self
    simp only [LoopVars.react, LoopVars.onEvent, Phase.afterLoop, Phase.teardown]
    split_ifs
    · exact ⟨_, hs' ▸ hf.known _ (Pipe.queued_subset_sent hqueued), rfl⟩
    · trivial
  · have hquiet : (v.react cfg id now i).next.vars.Quiet :=
      LoopVars.react_quiet i (fun g hg => hi ⟨g, hg⟩) (fun r hr => sip_of_input hf.phone (hr ▸ hin)) hv
    cases hnext : (v.react cfg id now i).next with
    | «continue» v' =>
      rw [hnext] at hquiet
      exact hquiet
    | «break» v' endState =>
      rw [hnext] at hquiet
      have hquit : Phase.teardown v' endState now = .joining ⟨v', endState⟩ := by
        rw [Phase.teardown, show v'.goal = none from hquiet.1]
        rfl
      rw [Phase.afterLoop, hquit]
      trivial

theorem flow_engine (hf : s.Flow) {arm : EngineArm} (h : s.engineStep su arm = some s') : s'.Flow := by
  obtain ⟨input, phase, eff, htalk, hin, hnext, rfl⟩ := engine_cases h
  refine ⟨hf.phone, hf.piped, hf.looping, hf.last, hf.uplink, ?_, known_afterArm hf.known, ?_, ?_⟩
  · intro hb
    refine hf.unread ?_
    dsimp only at hb
    split at hb
    · cases hb
    · exact hb
  · rcases Attempt.next_talk htalk hnext with ⟨hover, -⟩ | ⟨v, rfl, hquiet⟩ | ⟨v, i, hph, rfl, rfl⟩ |
      ⟨t, cap, active, hph, -, rfl⟩
    · unfold Told
      cases phase <;> trivial
    · exact hquiet
    · exact told_afterLoop hf (hf.quiet hph) hin rfl rfl
    · have htold := hf.told
      rw [Told, hph] at htold
      split_ifs
      · exact htold
      · trivial
  · intro b hb
    dsimp only at hb
    split at hb
    · rename_i ph v hnone
      obtain rfl := Option.some.inj hb
      refine ⟨fun _ => ?_, fun hstop => ?_, fun _ _ => rfl, fun hg => ?_⟩
      · rw [hf.unread hnone]
        exact List.nil_suffix
      · cases hstop
      · cases hg
    · have hb := hf.bridge b hb
      exact ⟨hb.pacing, hb.stopped, hb.idle, hb.grace⟩

/-- When the pacer stops with nothing left to play, all of the closing audio has been paced. -/
theorem all_paced (hf : s.Flow) (hb : s.bridge = some b) (hpace : b.paces = true)
    (hsel : b.hand = []) (hgone : s.driverGone = true) (hleft : s.audioLeft = false) :
    closingAudio s.forwarded <:+ s.paced := by
  obtain ⟨hbuf, hquiet⟩ : b.downlink.buf = [] ∧ ∀ ev ∈ s.geminiEvents.queued, ev.isAudio = false := by
    simpa [audioLeft, buffered, hb] using hleft
  have hread := (hf.bridge b hb).pacing hpace
  rw [hsel, hbuf, List.append_nil, List.append_nil] at hread
  rw [hf.piped, Pipe.sent, (waiting_of_gone hgone).2, List.append_nil]
  exact closingAudio_quiet hquiet hread

end Talk

namespace Bridge

variable {b : Bridge}

/-- What holds of a bridge that has just been stopped, with the buffer as it was. -/
structure StoppedFrom (b b' : Bridge) : Prop where
  paces : b'.paces = false
  hand : b'.hand = []
  downlink : b'.downlink = b.downlink
  grace : b'.graceSleep.isSome = true → b'.harvesting = true

theorem stopped_ended (how : BridgeEnd) (hgrace : b.graceSleep.isSome = true → b.harvesting = true) :
    b.StoppedFrom { b with pc := .ended how } :=
  ⟨rfl, rfl, rfl, hgrace⟩

theorem hand_of_selects (h : b.selects = true) : b.hand = [] := by
  cases hpc : b.pc <;> simp [hand, selects, hpc] at h ⊢

theorem stopped_onPhoneGone (grace : Option ℕ) (now : ℕ) (hsel : b.selects = true)
    (hgrace : b.graceSleep.isSome = true → b.harvesting = true) :
    b.StoppedFrom (b.onPhoneGone grace now) := by
  cases grace with
  | none => exact ⟨rfl, rfl, rfl, hgrace⟩
  | some ms =>
    by_cases hh : b.harvesting = true
    · rw [show b.onPhoneGone (some ms) now = b from if_pos hh]
      exact ⟨by simp [Bridge.paces, hh], hand_of_selects hsel, rfl, fun _ => hh⟩
    · rw [show b.onPhoneGone (some ms) now =
        { b with harvesting := true, graceSleep := some (now + ms) } from if_neg hh]
      exact ⟨by simp [Bridge.paces], hand_of_selects hsel, rfl, fun _ => rfl⟩

theorem forwards_self {muted : Bool} {now : ℕ} {ev x : Event}
    (h : x ∈ (b.onEvent muted now ev).2) : x ∈ [ev] := by
  cases ev with
  | outputAudio pcm =>
    simp only [onEvent] at h
    split_ifs at h <;> cases h
  | interrupted => cases h
  | _ => exact h

@[simp] theorem paces_onEvent {muted : Bool} {now : ℕ} {ev : Event} :
    (b.onEvent muted now ev).1.paces = b.paces := by
  cases ev with
  | outputAudio pcm =>
    simp only [onEvent]
    split_ifs <;> rfl
  | _ => rfl

theorem paces_of_selects (hsel : b.selects = true) (hh : b.harvesting = false) : b.paces = true := by
  cases hpc : b.pc <;> simp [paces, ending, selects, hpc, hh] at hsel ⊢

end Bridge

namespace Talk

variable {V : Type} {su : Setup V} {s s' : Talk V} {b b' : Bridge}

theorem stopped_flow (hf : s.Flow) (hb : s.bridge = some b) (hsel : b.selects = true)
    (hgone : s.driverGone = true)
    (hleft : b.paces = true → s.endCallSent = true → s.audioLeft = false)
    (hstop : b.StoppedFrom b') : s.BridgeFlow b' := by
  obtain ⟨hpace', hhand, hdown, hgrace⟩ := hstop
  have hbf := hf.bridge b hb
  refine ⟨fun hp => ?_, fun _ => ⟨hgone, hhand, fun hend => ?_⟩, ?_, hgrace⟩
  · rw [hpace'] at hp
    cases hp
  · cases hpace : b.paces with
    | true => exact all_paced hf hb hpace (Bridge.hand_of_selects hsel) hgone (hleft hpace hend)
    | false => exact (hbf.stopped hpace).2.2 hend
  · rw [hdown]
    exact hbf.idle

theorem Flow.set_bridge (hf : s.Flow) (h : s.BridgeFlow b') :
    Flow { s with bridge := some b' } := by
  refine ⟨hf.phone, hf.piped, hf.looping, hf.last, hf.uplink, (fun h => by cases h), hf.known, hf.told,
    fun b hb => ?_⟩
  obtain rfl := Option.some.inj hb
  exact ⟨h.pacing, h.stopped, h.idle, h.grace⟩

theorem flow_phoneSend (hf : s.Flow) (hb : s.bridge = some b) {frame : Frame} (hpc : b.pc = .sending frame) :
    Flow { s with bridge := some { b with pc := .select }, phoneOut := s.phoneOut ++ [frame] } := by
  have hbf := hf.bridge b hb
  have hhand : b.hand = frame.block := by rw [Bridge.hand, hpc]
  have hpaces : b.paces = !b.harvesting := by simp [Bridge.paces, Bridge.ending, hpc]
  have hpaced : (s.phoneOut ++ [frame]).flatMap Frame.block = s.paced ++ frame.block := by
    simp [paced]
  refine ⟨hf.phone, hf.piped, hf.looping, hf.last, hf.uplink, (fun h => by cases h), hf.known, hf.told,
    fun b' hb' => ?_⟩
  obtain rfl := Option.some.inj hb'
  refine ⟨fun hp => ?_, fun hstop => ?_, hbf.idle, hbf.grace⟩
  · have hread := hbf.pacing (hpaces.trans (by simpa [Bridge.paces, Bridge.ending] using hp))
    rw [paced, hpaced, List.append_assoc]
    rw [hhand] at hread
    exact hread
  · obtain ⟨hgone, hnil, hall⟩ := hbf.stopped (hpaces.trans (by simpa [Bridge.paces, Bridge.ending] using hstop))
    refine ⟨hgone, rfl, fun hend => ?_⟩
    rw [paced, hpaced, ← hhand, hnil, List.append_nil]
    exact hall hend

theorem flow_tick (hf : s.Flow) (hb : s.bridge = some b) (hsel : b.selects = true)
    (hh : b.harvesting = false) :
    Flow { s with bridge := some (b.onTick su.taps s.sh.clock).1
                  quality := (b.onTick su.taps s.sh.clock).2, fresh := true } := by
  have hbf := hf.bridge b hb
  refine ⟨hf.phone, hf.piped, hf.looping, hf.last, hf.uplink, (fun h => by cases h), hf.known, hf.told,
    fun b' hb' => ?_⟩
  obtain rfl := Option.some.inj hb'
  have hsplit := List.suffix_iff_eq_append.mp (Downlink.buf_nextFrame (h := su.taps) (d := b.downlink))
  refine ⟨fun _ => ?_, fun hstop => ?_, fun _ hactive => ?_, hbf.grace⟩
  · have hread := hbf.pacing (Bridge.paces_of_selects hsel hh)
    rw [Bridge.hand_of_selects hsel, List.nil_append, ← hsplit] at hread
    exact hread
  · simp [Bridge.paces, Bridge.ending, Bridge.onTick, hh] at hstop
  · have hidle := (Bool.or_eq_false_iff.mp hactive).1
    exact Downlink.pending_eq_false.mp hidle

theorem bridgeFlow_event (hbf : s.BridgeFlow b) (hsel : b.selects = true) {ev : Event} {p : Pipe Event}
    {eventsOut : Pipe Event} (hread : p.read = s.geminiEvents.read ++ [ev])
    (hgone : s.driverGone = true → (s.driver.status.done && p.waiting.isEmpty) = true)
    (hmuted : ev.isAudio = true → s.attempt.phase.muted = false) :
    BridgeFlow { s with
      geminiEvents := p
      bridge := some (b.onEvent s.attempt.phase.muted s.sh.clock ev).1
      eventsOut := eventsOut
      fresh := s.fresh && !ev.isAudio } (b.onEvent s.attempt.phase.muted s.sh.clock ev).1 := by
  have hhand := Bridge.hand_of_selects hsel
  have hclosing : closingAudio p.read = ev.onClosing (closingAudio s.geminiEvents.read) := by
    rw [hread, closingAudio_concat]
  have hpacing := hbf.pacing
  rw [hhand, List.nil_append] at hpacing
  have hstop : b.paces = false → (s.driver.status.done && p.waiting.isEmpty) = true ∧ b.hand = [] ∧
      (s.endCallSent = true → closingAudio s.forwarded <:+ s.paced) := fun hs =>
    ⟨hgone (hbf.stopped hs).1, hhand, (hbf.stopped hs).2.2⟩
  cases ev with
  | outputAudio pcm =>
    cases hh : b.harvesting with
    | true =>
      have hsame : b.onEvent s.attempt.phase.muted s.sh.clock (.outputAudio pcm) = (b, []) := by
        simp [Bridge.onEvent, hh]
      rw [hsame]
      refine ⟨fun hp => ?_, hstop, fun hfresh => ?_, hbf.grace⟩
      · simp [Bridge.paces, hh] at hp
      · simp [Event.isAudio] at hfresh
    | false =>
      have hpush : b.onEvent s.attempt.phase.muted s.sh.clock (.outputAudio pcm) = ({ b with
          downlink := (b.downlink.setExpecting true).push pcm
          maxGapMs := (b.lastAudio.map fun prev => max b.maxGapMs (s.sh.clock - prev)).getD b.maxGapMs
          lastAudio := some s.sh.clock }, []) := by
        simp [Bridge.onEvent, hh, hmuted rfl]
      rw [hpush]
      refine ⟨fun hp => ?_, hstop, fun hfresh => ?_, hbf.grace⟩
      · obtain ⟨pre, hpre⟩ := hpacing hp
        refine ⟨pre, ?_⟩
        calc pre ++ closingAudio p.read = (pre ++ closingAudio s.geminiEvents.read) ++ pcm := by
              rw [hclosing, Event.onClosing, List.append_assoc]
          _ = s.paced ++ (b.hand ++ ((b.downlink.setExpecting true).push pcm).buf) := by
              rw [hpre, hhand, List.nil_append, Downlink.push, Downlink.buf_setExpecting,
                List.append_assoc]
      · simp [Event.isAudio] at hfresh
  | interrupted =>
    refine ⟨fun _ => ?_, hstop, fun hfresh hidle => ?_, hbf.grace⟩
    · rw [hclosing]
      exact List.nil_suffix
    · refine Downlink.buf_interruptFade 25 ?_
      rw [Downlink.buf_setExpecting]
      exact hbf.idle (Bool.and_eq_true_iff.mp hfresh).1 hidle
  | turnComplete =>
    have hbuf : (b.downlink.setExpecting false).buf = b.downlink.buf := Downlink.buf_setExpecting false
    refine ⟨fun hp => ?_, hstop, fun hfresh hidle => ?_, hbf.grace⟩
    · rw [hclosing]
      change closingAudio _ <:+ s.paced ++ (b.hand ++ (b.downlink.setExpecting false).buf)
      rw [hhand, hbuf]
      exact hpacing hp
    · exact hbuf.trans (hbf.idle (Bool.and_eq_true_iff.mp hfresh).1 hidle)
  | transcript | endCall | affect =>
    refine ⟨fun hp => ?_, hstop, fun hfresh hidle => ?_, hbf.grace⟩
    · rw [hclosing]
      exact hbf.pacing hp
    · exact hbf.idle (Bool.and_eq_true_iff.mp hfresh).1 hidle

theorem flow_event (hf : s.Flow) (hb : s.bridge = some b) (hsel : b.selects = true) {ev : Event}
    {p : Pipe Event} (hrecv : s.geminiEvents.recv = some (ev, p))
    (hmuted : ev.isAudio = true → s.attempt.phase.muted = false) :
    Flow { s with
      geminiEvents := p
      bridge := some (b.onEvent s.attempt.phase.muted s.sh.clock ev).1
      eventsOut := s.eventsOut.offer (b.onEvent s.attempt.phase.muted s.sh.clock ev).2
      fresh := s.fresh && !ev.isAudio } := by
  have hbf := hf.bridge b hb
  obtain ⟨hsent, hread, hwait, hqueued⟩ := Pipe.recv_spec hrecv
  have hgone : s.driverGone = true → (s.driver.status.done && p.waiting.isEmpty) = true := by
    rw [hwait]
    exact id
  refine ⟨hf.phone, hf.piped.trans hsent.symm, hf.looping, hf.last,
    fun hup => hgone (hf.uplink hup), (fun h => by cases h), ?_, ?_, fun b' hb' => ?_⟩
  · intro x hx
    rw [Pipe.sent_offer] at hx
    rw [hread]
    rcases List.mem_append.mp hx with hx | hx
    · exact List.mem_append_left _ (hf.known x hx)
    · exact List.mem_append_right _ (Bridge.forwards_self hx)
  · have htold := hf.told
    unfold Told at htold ⊢
    dsimp only
    split
    · rename_i v hph
      rw [hph] at htold
      exact htold
    · rename_i t cap hph
      rw [hph] at htold
      obtain ⟨x, hx, hend⟩ := htold
      exact ⟨x, hread ▸ List.mem_append_left _ hx, hend⟩
    · trivial
  · obtain rfl := Option.some.inj hb'
    exact bridgeFlow_event hbf hsel hread hgone hmuted

theorem flow_bridge (hf : s.Flow) (htalk : s.attempt.phase.talks = true) {arm : BridgeArm}
    (hscope : s.InScope (.bridge arm)) (hpat : s.Patient (.bridge arm)) (hb : s.bridge = some b)
    (hsel : b.selects = true) (h : Arm su s b arm s') : s'.Flow := by
  have hbf := hf.bridge b hb
  cases h with
  | cancel hover =>
    rw [htalk] at hover
    cases hover
  | uplink hup =>
    have hstop := Bridge.stopped_onPhoneGone (b := { b with uplinkRunning := false })
      (harvestGraceMs su.cfg) s.sh.clock hsel hbf.grace
    exact hf.set_bridge (stopped_flow hf hb hsel (hf.uplink hup) (fun _ => hpat)
      ⟨hstop.paces, hstop.hand, hstop.downlink, hstop.grace⟩)
  | grace hsleep =>
    have hh : b.harvesting = true := hbf.grace (by rw [hsleep]; rfl)
    have hpaces : b.paces = false := by simp [Bridge.paces, hh]
    refine hf.set_bridge (stopped_flow hf hb hsel (hbf.stopped hpaces).1 (fun hp => ?_)
      (Bridge.stopped_ended _ hbf.grace))
    rw [hpaces] at hp
    cases hp
  | event hrecv =>
    refine flow_event hf hb hsel hrecv fun haudio => hscope ⟨_, ?_, haudio⟩
    rw [(Pipe.recv_spec hrecv).2.2.2]
    rfl
  | closed hgone =>
    exact hf.set_bridge (stopped_flow hf hb hsel hgone (fun _ => hpat) (Bridge.stopped_ended _ hbf.grace))
  | tick hpaces => exact flow_tick hf hb hsel hpaces

/-- One step of any party keeps what is known of the audio, as long as `run_call` talks. -/
theorem flow_step (hf : s.Flow) {act : TalkAct} (hscope : s.InScope act) (hpat : s.Patient act)
    (htalk : s.attempt.phase.talks = true) (h : step su s act = some s') : s'.Flow := by
  have hbusy : s.geminiEvents.waiting ≠ [] → s.driverGone = false := fun hne => by
    cases hg : s.driverGone with
    | false => rfl
    | true => exact absurd (waiting_of_gone hg).2 hne
  cases step_cases h with
  | others =>
    exact ⟨hf.phone, hf.piped, hf.looping, hf.last, hf.uplink, hf.unread, hf.known, hf.told,
      fun b hb => ⟨(hf.bridge b hb).pacing, (hf.bridge b hb).stopped, (hf.bridge b hb).idle,
        (hf.bridge b hb).grace⟩⟩
  | phoneGone => cases hscope
  | driver _ hstep => exact flow_driver hf hstep
  | driverSend _ hp =>
    obtain ⟨hsent, hread, x, hwait, -⟩ := Pipe.accept_spec hp
    have hstays := hbusy (by rw [hwait]; exact List.cons_ne_nil _ _)
    refine ⟨hf.phone, hf.piped.trans hsent.symm, hf.looping, hf.last, fun hup => ?_,
      fun hb => hread.trans (hf.unread hb), hread ▸ hf.known, ?_, fun b hb => ?_⟩
    · rw [hf.uplink hup] at hstays
      cases hstays
    · have htold := hf.told
      unfold Told at htold ⊢
      rw [hread]
      exact htold
    · have hbf := hf.bridge b hb
      refine ⟨fun hp => hread ▸ hbf.pacing hp, fun hstop => ?_, hbf.idle, hbf.grace⟩
      rw [(hbf.stopped hstop).1] at hstays
      cases hstays
  | driverDrop hend hp =>
    -- the bridge is gone only once the driver is, and then nothing waits to be sent
    obtain ⟨how, hhow⟩ := Option.isSome_iff_exists.mp hend
    obtain ⟨b, hb, hended⟩ := Option.bind_eq_some_iff.mp hhow
    have hstop := (hf.bridge b hb).stopped (by simp [Bridge.paces, hended])
    rw [hbusy (Pipe.waiting_of_discard hp)] at hstop
    cases hstop.1
  | uplink _ hcut =>
    have hgone : s.driverGone = true := by simpa [hf.phone] using hcut
    exact ⟨hf.phone, hf.piped, hf.looping, hf.last, fun _ => hgone, hf.unread, hf.known, hf.told,
      fun b hb => ⟨(hf.bridge b hb).pacing, (hf.bridge b hb).stopped, (hf.bridge b hb).idle,
        (hf.bridge b hb).grace⟩⟩
  | bridge hb hsel _ harm => exact flow_bridge hf htalk hscope hpat hb hsel harm
  | bridgeSend hp =>
    obtain ⟨hsent, -⟩ := Pipe.accept_spec hp
    exact ⟨hf.phone, hf.piped, hf.looping, hf.last, hf.uplink, hf.unread, hsent ▸ hf.known, hf.told,
      fun b hb => ⟨(hf.bridge b hb).pacing, (hf.bridge b hb).stopped, (hf.bridge b hb).idle,
        (hf.bridge b hb).grace⟩⟩
  | phoneSend hb hpc => exact flow_phoneSend hf hb hpc
  | phoneLost _ _ hgone =>
    rw [hf.phone] at hgone
    cases hgone
  | engine h => exact flow_engine hf h

theorem flow_init (sh : Shared) (entry : PendingEntry) (probe : Bool) (vad : V) :
    (init su sh entry probe vad).Flow := by
  have hnone : ∀ ev : Event, ev ∉ (init su sh entry probe vad).forwarded := fun _ hev => by cases hev
  exact ⟨rfl, rfl, fun _ ev hev => absurd hev (hnone ev), fun ev hev => absurd hev (hnone ev),
    (fun h => by cases h), fun _ => rfl, (fun _ hev => by cases hev), trivial, fun _ hb => by cases hb⟩

theorem frame_of_step {act : TalkAct} (h : step su s act = some s') (hact : ∀ arm, act ≠ .engine arm) :
    s'.attempt = s.attempt ∧ ((∀ arm, act ≠ .bridge arm) → act ≠ .phoneSend → s'.bridge = s.bridge) ∧
      ((∀ input, act ≠ .driver input) → s'.driver = s.driver) := by
  cases step_cases h with
  | engine => exact absurd rfl (hact _)
  | driver => exact ⟨rfl, fun _ _ => rfl, fun hno => absurd rfl (hno _)⟩
  | bridge _ _ _ harm =>
    refine ⟨?_, fun hno => absurd rfl (hno _), fun _ => ?_⟩
    · cases harm <;> rfl
    · cases harm <;> rfl
  | phoneSend | phoneLost => exact ⟨rfl, fun _ hno => absurd rfl hno, fun _ => rfl⟩
  | _ => exact ⟨rfl, fun _ _ => rfl, fun _ => rfl⟩

theorem talks_of_step {act : TalkAct} (h : step su s act = some s')
    (htalk : s'.attempt.phase.talks = true) : s.attempt.phase.talks = true := by
  cases act with
  | engine arm =>
    obtain ⟨-, -, -, hold, -⟩ := engine_cases h
    exact hold
  | _ => exact (frame_of_step h fun _ hact => by cases hact).1 ▸ htalk

theorem flow_run {sh : Shared} {entry : PendingEntry} {probe : Bool} {vad : V} {tr : List TalkAct}
    (hrun : Run (step su) (fun s act => s.InScope act ∧ s.Patient act) (init su sh entry probe vad) tr s)
    (htalk : s.attempt.phase.talks = true) : s.Flow := by
  refine hrun.invariant (I := fun s => s.attempt.phase.talks = true → s.Flow)
    (fun _ => flow_init sh entry probe vad) (fun s act s' ih hok hstep htalk' => ?_) htalk
  have hold := talks_of_step hstep htalk'
  exact flow_step (ih hold) hok.1 hok.2 hold hstep

def PlayedOut (s : Talk V) : Prop := closingAudio s.forwarded <:+ s.paced

/-- The pacer is still ticking, the downlink is not idle, and the 8 s are over. -/
def CapExpired (s : Talk V) : Prop :=
  s.paces = true ∧ s.quality.downlinkActive = true ∧
    ∃ t cap, s.attempt.phase = .draining t cap ∧ cap ≤ s.sh.clock

/-- The act ends the talk for the driver's `EndCall`: `run_call` has heeded it and drained,
or it reads an event or the end of the bridge. -/
def ByModel (s : Talk V) : TalkAct → Prop
  | .engine .drain => True
  | .engine .event | .engine .bridgeDone => s.endCallSent = true
  | _ => False

/-- An act that ends the talk for the driver's `EndCall` finds the closing audio played
out, or the cap expired. -/
def HangsUpWell (s : Talk V) (act : TalkAct) (s' : Talk V) : Prop :=
  s.attempt.phase.talks = true → s'.attempt.phase.talks = false → s.ByModel act →
    s.PlayedOut ∨ s.CapExpired

theorem read_all (hf : s.Flow) {ev : Event} (hev : ev ∈ s.geminiEvents.read) (hend : ev.isEndCall = true) :
    s.geminiEvents.read = s.forwarded ∧ s.endCallSent = true := by
  have hmem : ev ∈ s.forwarded := by
    rw [hf.piped, Pipe.sent]
    exact List.mem_append_left _ hev
  obtain ⟨l, hl, hquiet⟩ := hf.last ev hmem hend
  refine ⟨?_, List.any_eq_true.mpr ⟨ev, hmem, hend⟩⟩
  rw [hf.piped]
  refine Pipe.read_eq_sent_of_last (hf.piped ▸ hl) (fun hx => ?_) hev
  rw [hquiet ev hx] at hend
  cases hend

/-- While `run_call` drains, the bridge is pacing, or it has stopped with nothing left to play. -/
theorem paces_or_playedOut (hf : s.Flow) {t : Teardown} {cap : ℕ} (hph : s.attempt.phase = .draining t cap) :
    ∃ b, s.bridge = some b ∧ closingAudio s.geminiEvents.read = closingAudio s.forwarded ∧
      (b.paces = false → s.PlayedOut) := by
  have htold := hf.told
  rw [Told, hph] at htold
  obtain ⟨ev, hev, hend⟩ := htold
  obtain ⟨hread, hsent⟩ := read_all hf hev hend
  cases hb : s.bridge with
  | none =>
    rw [hf.unread hb] at hev
    cases hev
  | some b => exact ⟨b, rfl, by rw [hread], fun hp => ((hf.bridge b hb).stopped hp).2.2 hsent⟩

theorem talks_of_event {cfg : ServerConfig} {id : CallId} {v : LoopVars} {now : ℕ} (hv : v.Quiet) (ev : Event) :
    (Phase.afterLoop now (v.react cfg id now (.event ev)).next).talks = true := by
  cases ev with
  | endCall g =>
    have hdrain : Phase.teardown { v with goal := some g } .completed now =
        .draining ⟨{ v with goal := some g }, .completed⟩ (now + 8000) := by
      simp [Phase.teardown, hv.2]
    simp only [LoopVars.react, LoopVars.onEvent, Phase.afterLoop, hdrain, Phase.talks]
  | _ => rfl

theorem playedOut_of_drained (hf : s.Flow) (hpat : s.Patient (.engine .drain)) {t : Teardown} {cap : ℕ}
    (hph : s.attempt.phase = .draining t cap)
    (hover : ¬ (s.quality.downlinkActive = true ∧ s.sh.clock < cap)) : s.PlayedOut ∨ s.CapExpired := by
  obtain ⟨b, hb, hclosing, hstopped⟩ := paces_or_playedOut hf hph
  have hpaces : s.paces = b.paces := by simp [paces, hb]
  cases hp : b.paces with
  | false => exact Or.inl (hstopped hp)
  | true =>
    cases hactive : s.quality.downlinkActive with
    | true =>
      refine Or.inr ⟨hpaces.trans hp, hactive, t, cap, hph, Nat.le_of_not_lt fun hlt => hover ⟨hactive, hlt⟩⟩
    | false =>
      left
      obtain ⟨hfresh, hnil⟩ := hpat (hpaces.trans hp) hactive
      have hhand : b.hand = [] := by simpa [hand, hb] using hnil
      have hread := (hf.bridge b hb).pacing hp
      rw [hhand, (hf.bridge b hb).idle hfresh hactive, List.append_nil, List.append_nil, hclosing] at hread
      exact hread

theorem hangsUpWell (hf : s.Flow) {act : TalkAct} (hpat : s.Patient act) (h : step su s act = some s') :
    s.HangsUpWell act s' := by
  intro htalk hover hby
  have hstopped : ∀ how, s.bridgeEnd = some how → s.endCallSent = true → s.PlayedOut := by
    intro how hhow hsent
    obtain ⟨b, hb, hended⟩ := Option.bind_eq_some_iff.mp hhow
    exact ((hf.bridge b hb).stopped (by simp [Bridge.paces, hended])).2.2 hsent
  cases act with
  | engine arm =>
    obtain ⟨input, phase, eff, -, hin, hnext, rfl⟩ := engine_cases h
    cases receives hin with
    | drain =>
      rcases Attempt.next_talk htalk hnext with ⟨-, hin | hin⟩ | ⟨v, rfl, -⟩ | ⟨v, i, -, hin, -⟩ |
        ⟨t, cap, active, hph, hin, rfl⟩
      · cases hin
      · cases hin
      · cases hover
      · cases hin
      · cases hin
        refine playedOut_of_drained hf hpat hph fun hwait => ?_
        dsimp only at hover
        rw [if_pos hwait] at hover
        cases hover
    | event =>
      rcases Attempt.next_talk htalk hnext with ⟨-, hin | hin⟩ | ⟨v, rfl, -⟩ | ⟨v, i, hph, hin, rfl⟩ |
        ⟨t, cap, active, -, hin, -⟩
      · cases hin
      · cases hin
      · cases hover
      · cases hin
        dsimp only at hover
        rw [talks_of_event (hf.quiet hph)] at hover
        cases hover
      · cases hin
    | eventsClosed hended => exact Or.inl (hstopped _ hended hby)
    | bridgeDone hended => exact Or.inl (hstopped _ hended hby)
    | _ => cases hby
  | _ => cases hby

/-- While `run_call` talks, the pacer is stopped by the driver's return alone. -/
theorem paces_of_step (hf : s.Flow) {act : TalkAct} (hscope : s.InScope act)
    (htalk : s.attempt.phase.talks = true) (h : step su s act = some s') (hp : s.paces = true) :
    s'.paces = true ∨ s.driverGone = true ∧ (act = .bridge .closed ∨ act = .bridge .uplink) := by
  obtain ⟨b, hb, hpb⟩ := (Option.any_eq_true _ _).mp hp
  have hh : b.harvesting = false := by simpa using (Bool.and_eq_true_iff.mp hpb).2
  cases step_cases h with
  | bridge hb' _ _ harm =>
    obtain rfl := Option.some.inj (hb.symm.trans hb')
    cases harm with
    | cancel hover =>
      rw [htalk] at hover
      cases hover
    | uplink hup => exact Or.inr ⟨hf.uplink hup, Or.inr rfl⟩
    | grace hsleep =>
      rw [(hf.bridge b hb).grace (by rw [hsleep]; rfl)] at hh
      cases hh
    | event => exact Or.inl (Bridge.paces_onEvent.trans hpb)
    | closed hgone => exact Or.inr ⟨hgone, Or.inl rfl⟩
    | tick => exact Or.inl (by simp [paces, Bridge.onTick, Bridge.paces, Bridge.ending, hh])
  | phoneSend hb' =>
    obtain rfl := Option.some.inj (hb.symm.trans hb')
    exact Or.inl (by simp [paces, Bridge.paces, Bridge.ending, hh])
  | phoneLost _ _ hgone =>
    rw [hf.phone] at hgone
    cases hgone
  | engine h =>
    obtain ⟨input, phase, eff, -, -, -, rfl⟩ := engine_cases h
    exact Or.inl (by simp [paces, hb, hpb])
  | _ => exact Or.inl hp

/-- Let the bridge see the driver's return only with nothing left to play, and `run_call` an
idle downlink only when it is: then the closing audio is not cut off by the model's own end. -/
theorem closing_audio_paced {sh : Shared} {entry : PendingEntry} {probe : Bool} {vad : V} {tr : List TalkAct}
    (hrun : Run (step su) (fun s act => s.InScope act ∧ s.Patient act) (init su sh entry probe vad) tr s) :
    (∀ t cap, s.attempt.phase = .draining t cap → s.paces = true ∨ s.PlayedOut) ∧
      ∀ act s', s.InScope act → s.Patient act → step su s act = some s' →
        s.HangsUpWell act s' ∧ (s.attempt.phase.talks = true → s.paces = true → s'.paces = true ∨
          s.driverGone = true ∧ (act = .bridge .closed ∨ act = .bridge .uplink)) := by
  refine ⟨fun t cap hph => ?_, fun act s' hscope hpat hstep => ⟨fun htalk => ?_, fun htalk => ?_⟩⟩
  · have hf := flow_run hrun (by rw [hph]; rfl)
    obtain ⟨b, hb, -, hstopped⟩ := paces_or_playedOut hf hph
    cases hp : b.paces with
    | false => exact Or.inr (hstopped hp)
    | true => exact Or.inl (by simp [paces, hb, hp])
  · exact hangsUpWell (flow_run hrun htalk) hpat hstep htalk
  · exact paces_of_step (flow_run hrun htalk) hscope htalk hstep

instance (s : Talk V) (act : TalkAct) : Decidable (s.InScope act) :=
  match act with
  | .phoneGone => .isFalse id
  | .bridge .event => inferInstanceAs (Decidable ((∃ ev ∈ s.geminiEvents.queued.head?, ev.isAudio = true) →
      s.attempt.phase.muted = false))
  | .others _ | .driver _ | .driverSend | .uplink | .bridge .cancel | .bridge .uplink | .bridge .grace
  | .bridge .closed | .bridge .tick | .bridgeSend | .phoneSend | .engine _ => .isTrue trivial

instance (s : Talk V) (act : TalkAct) : Decidable (s.Patient act) :=
  match act with
  | .bridge .closed | .bridge .uplink =>
    inferInstanceAs (Decidable (s.endCallSent = true → s.audioLeft = false))
  | .engine .drain => inferInstanceAs (Decidable (s.paces = true → s.quality.downlinkActive = false →
      s.fresh = true ∧ s.hand = []))
  | .others _ | .phoneGone | .driver _ | .driverSend | .uplink | .bridge .cancel | .bridge .grace
  | .bridge .event | .bridge .tick | .bridgeSend | .phoneSend | .engine .go | .engine .event
  | .engine .bridgeDone | .engine (.sip _) | .engine .deadline | .engine .cancelled
  | .engine .harvestElapsed | .engine (.qtick _ _ _) => .isTrue trivial

/-- A pacer that starts to play at `prebufferMs`, and no voice detection. -/
def setup (prebufferMs : ℕ) : Setup Unit where
  cfg := { ServerConfig.default with quality := { prebufferMs } }
  observe := fun _ _ => (false, ())
  taps := []
  tok := 0

def talk (prebufferMs : ℕ) : Talk Unit :=
  init (setup prebufferMs) (Shared.init (setup prebufferMs).cfg 0) ⟨callId 0, "", ⟨.null, none, none⟩, 0, 1⟩
    false ()

def chunk : List Sample := List.replicate 480 0

def say : List TalkAct := [.driver (.outputAudio chunk), .driverSend, .bridge .event]

def tick : List TalkAct := [.bridge .tick, .phoneSend]

def wait (ms : ℕ) : TalkAct := .others fun sh => { sh with clock := sh.clock + ms }

/-- The model ends the call, and the bridge hears of it. -/
def goodbye : List TalkAct :=
  [.driver (.toolCall "end_call" "1" .null), .driver .turnComplete, .driverSend, .driverSend,
    .bridge .event, .bridgeSend, .bridge .event, .bridgeSend]

def heed : List TalkAct := [.engine .event, .engine .event]

def playedChunk : List TalkAct := .engine .go :: (say ++ tick ++ goodbye ++ [wait 20] ++ tick ++ heed)

/-- The chunk is played, and the pacer has ticked once more when `run_call` looks. -/
theorem closing_audio_paced_chunk :
    ∃ s s', exec (guarded (step (setup 0)) fun s act => s.InScope act ∧ s.Patient act) (talk 0) playedChunk =
        some s ∧ step (setup 0) s (.engine .drain) = some s' ∧ s'.attempt.phase.talks = false ∧
      closingAudio s.forwarded = chunk ∧ (s.PlayedOut ∨ s.CapExpired) := by
  have hends : (exec (guarded (step (setup 0)) fun s act => s.InScope act ∧ s.Patient act) (talk 0)
      playedChunk).any (fun s => (step (setup 0) s (.engine .drain)).any fun s' =>
        s.attempt.phase.talks && !s'.attempt.phase.talks && decide (closingAudio s.forwarded = chunk) &&
          decide (s.Patient (.engine .drain))) = true := by decide +kernel
  obtain ⟨s, hs, hends⟩ := (Option.any_eq_true _ _).mp hends
  obtain ⟨s', hs', hends⟩ := (Option.any_eq_true _ _).mp hends
  simp only [Bool.and_eq_true, Bool.not_eq_true', decide_eq_true_eq] at hends
  obtain ⟨⟨⟨htalk, hover⟩, hclosing⟩, hpat⟩ := hends
  exact ⟨s, s', hs, hs', hover, hclosing,
    ((closing_audio_paced (run_of_guarded hs)).2 (.engine .drain) s' trivial hpat hs').1 htalk hover trivial⟩

def cutGoodbye : List TalkAct :=
  .engine .go :: (say ++ tick ++ say ++ goodbye ++ [.bridge .closed] ++ heed ++ [wait 8000])

/-- The bridge sees the closed channel with the goodbye still buffered: it stops, and
`run_call` waits 8 s for nothing. -/
theorem closing_audio_lost :
    ∃ s s', exec (step (setup 40)) (talk 40) cutGoodbye = some s ∧
      step (setup 40) s (.engine .drain) = some s' ∧ ¬ s.HangsUpWell (.engine .drain) s' := by
  have hends : (exec (step (setup 40)) (talk 40) cutGoodbye).any (fun s =>
      (step (setup 40) s (.engine .drain)).any fun s' =>
        s.attempt.phase.talks && !s'.attempt.phase.talks && decide (closingAudio s.forwarded = chunk ++ chunk) &&
          s.paced.isEmpty && !s.paces) = true := by decide +kernel
  obtain ⟨s, hs, hends⟩ := (Option.any_eq_true _ _).mp hends
  obtain ⟨s', hs', hends⟩ := (Option.any_eq_true _ _).mp hends
  simp only [Bool.and_eq_true, Bool.not_eq_true', decide_eq_true_eq, List.isEmpty_iff] at hends
  obtain ⟨⟨⟨⟨htalk, hover⟩, hclosing⟩, hpaced⟩, hstopped⟩ := hends
  refine ⟨s, s', hs, hs', fun hwell => ?_⟩
  rcases hwell htalk hover trivial with hplayed | ⟨hpaces, -⟩
  · rw [PlayedOut, hclosing, hpaced] at hplayed
    exact absurd (List.suffix_nil.mp hplayed) (by decide +kernel)
  · rw [hstopped] at hpaces
    cases hpaces

end Talk

end Kutsu
