import Kutsu.Lib.Pipe
import Kutsu.Model.Bridge
import Kutsu.Model.RunCall

/-! A talk: the driver, the bridge on its own thread and `run_call` from the answer to
the hangup (`gemini_live.rs`, `bridge/mod.rs`, `engine.rs`), joined by their channels, in
any interleaving. -/

namespace Kutsu

open Pipes

/-- What a talk is set up with; `observe` is the driver's VAD and `taps` the
downsampler's filter. -/
structure Setup (V : Type) where
  cfg : ServerConfig
  observe : V → List Sample → Bool × V
  taps : List ℚ
  tok : Token

/-- `uplinkEnded` says that the uplink task has come to its end: the phone no longer
feeds it, or the driver no longer takes what it forwards. `fresh` remembers whether
the pacer has ticked since audio was last pushed. -/
structure Talk (V : Type) where
  sh : Shared
  attempt : Attempt
  driver : DriverRun V
  geminiEvents : Pipe Event := {}
  eventsOut : Pipe Event := {}
  uplinkEnded : Bool := false
  bridge : Option Bridge := none
  quality : QualityShared := {}
  phoneOpen : Bool := true
  phoneOut : List Frame := []
  fresh : Bool := false

inductive BridgeArm where
  | cancel
  | uplink
  | grace
  | event
  | closed
  | tick

/-- What `run_call` waits for; what it receives is up to the other parties. -/
inductive EngineArm where
  | go
  | event
  | bridgeDone
  | sip (r : Option SipEvent)
  | deadline
  | cancelled
  | harvestElapsed
  | qtick (quality : CallQuality) (uplink : UplinkQuality) (downlink : DownlinkQuality)
  | drain

/-- `others` is any step of the rest of the engine, or of time. The three sends are those a
party waits for: the driver's, and the bridge's to `run_call` and to the phone. -/
inductive TalkAct where
  | others (change : Shared → Shared)
  | phoneGone
  | driver (input : DriverInput)
  | driverSend
  | uplink
  | bridge (arm : BridgeArm)
  | bridgeSend
  | phoneSend
  | engine (arm : EngineArm)

def Event.isAudio : Event → Bool
  | .outputAudio _ => true
  | _ => false

def DriverOut.event? : DriverOut → Option Event
  | .event ev => some ev
  | _ => none

def DriverStatus.done {V : Type} : DriverStatus V → Bool
  | .looping _ => false
  | .returned _ => true

namespace Phase

def talks : Phase → Bool
  | .answered _ | .live _ | .draining _ _ => true
  | _ => false

/-- The engine's word on the model's audio. -/
def muted : Phase → Bool
  | .live v => v.muteDownlink
  | .draining t _ | .joining t => t.vars.muteDownlink
  | _ => false

end Phase

def EVENTS_CAPACITY : ℕ := 256

namespace Talk

variable {V : Type}

def init (su : Setup V) (sh : Shared) (entry : PendingEntry) (probe : Bool) (vad : V) : Talk V where
  sh := sh
  attempt := ⟨entry, probe, .answered (.ok ())⟩
  driver := DriverRun.init su.cfg vad false sh.clock

def harvestGraceMs (cfg : ServerConfig) : Option ℕ :=
  if 0 < cfg.wrapUpGraceMs then some cfg.wrapUpGraceMs else none

/-- The driver has returned, and its ends of the channels are dropped. -/
def driverGone (s : Talk V) : Bool := s.driver.status.done && s.geminiEvents.waiting.isEmpty

def bridgeEnd (s : Talk V) : Option BridgeEnd := s.bridge.bind Bridge.ending

def emits (outs : List DriverOut) : List Event := outs.filterMap DriverOut.event?

/-- One iteration of the driver's `select!`; its sends are then to be accepted in turn. -/
def driverStep (su : Setup V) (s : Talk V) (input : DriverInput) : Option (Talk V) :=
  if s.geminiEvents.waiting.isEmpty then do
    let driver ← s.driver.step su.cfg su.observe (input, s.sh.clock)
    some { s with driver, geminiEvents :=
      s.geminiEvents.offer (emits (driver.sent.drop s.driver.sent.length)) }
  else none

/-- One arm of the bridge's `select!`, which is not reached while a send is waited for. -/
def bridgeStep (su : Setup V) (s : Talk V) (b : Bridge) (arm : BridgeArm) : Option (Talk V) :=
  if b.selects && s.eventsOut.waiting.isEmpty then
    match arm with
    | .cancel =>
      if s.attempt.phase.talks then none
      else some { s with bridge := some { b with pc := .ended .cancelled } }
    | .uplink =>
      if s.uplinkEnded && b.uplinkRunning then
        let b' := { b with uplinkRunning := false }
        some { s with bridge := some (b'.onPhoneGone (harvestGraceMs su.cfg) s.sh.clock) }
      else none
    | .grace =>
      if b.graceSleep.any fun t => t ≤ s.sh.clock then
        some { s with bridge := some { b with pc := .ended .phoneClosed } }
      else none
    | .event => do
      let (ev, geminiEvents) ← s.geminiEvents.recv
      let (b', forwarded) := b.onEvent s.attempt.phase.muted s.sh.clock ev
      some { s with geminiEvents, bridge := some b', eventsOut := s.eventsOut.offer forwarded
                    fresh := s.fresh && !ev.isAudio }
    | .closed =>
      if s.driverGone && s.geminiEvents.queued.isEmpty then
        some { s with bridge := some { b with pc := .ended .geminiClosed } }
      else none
    | .tick =>
      if !b.harvesting && b.nextTick ≤ s.sh.clock then
        let (b', quality) := b.onTick su.taps s.sh.clock
        some { s with bridge := some b', quality, fresh := true }
      else none
  else none

/-- The frame of a tick reaches the phone, or finds it gone. -/
def phoneStep (su : Setup V) (s : Talk V) (b : Bridge) : Option (Talk V) :=
  match b.pc with
  | .sending frame =>
    let b' := { b with pc := .select }
    if s.phoneOpen then some { s with bridge := some b', phoneOut := s.phoneOut ++ [frame] }
    else some { s with bridge := some (b'.onPhoneGone (harvestGraceMs su.cfg) s.sh.clock) }
  | _ => none

def engineInput (s : Talk V) : EngineArm → Option RunInput
  | .go => some .go
  | .event =>
    match s.eventsOut.recv with
    | some (ev, _) => some (.loop (.event ev))
    | none => s.bridgeEnd.map fun _ => .loop .eventsClosed
  | .bridgeDone => s.bridgeEnd.map fun how => .loop (.bridgeDone (some how))
  | .sip (some (.answered codec)) => some (.loop (.sip (some (.answered codec))))
  | .sip r => if s.phoneOpen then none else some (.loop (.sip r))
  | .deadline => some (.loop .deadline)
  | .cancelled => some (.loop .cancelled)
  | .harvestElapsed => some (.loop .harvestElapsed)
  | .qtick q uplink downlink =>
    some (.loop (.qtick { q with underruns := s.quality.underruns, starvedMs := s.quality.starvedMs,
                                 maxGapMs := s.quality.maxGapMs } uplink downlink))
  | .drain => some (.drain s.quality.downlinkActive)

def afterArm (s : Talk V) : EngineArm → Pipe Event
  | .event => (s.eventsOut.recv.map Prod.snd).getD s.eventsOut
  | _ => s.eventsOut

/-- One step of `run_call`, which starts the bridge when it enters its loop. Nothing is
said of it here after the hangup. -/
def engineStep (su : Setup V) (s : Talk V) (arm : EngineArm) : Option (Talk V) :=
  if s.attempt.phase.talks then do
    let input ← s.engineInput arm
    let (phase, eff) ← s.attempt.next su.cfg s.sh su.tok input
    some { s with
      sh := s.sh.apply eff
      attempt := { s.attempt with phase }
      eventsOut := s.afterArm arm
      bridge := match s.bridge, phase with
        | none, .live _ => some (Bridge.new su.cfg.quality s.sh.clock)
        | b, _ => b }
  else none

def step (su : Setup V) (s : Talk V) : TalkAct → Option (Talk V)
  | .others change =>
    if s.sh.clock ≤ (change s.sh).clock then some { s with sh := change s.sh } else none
  | .phoneGone => some { s with phoneOpen := false }
  | .driver input => s.driverStep su input
  | .driverSend =>
    (if s.bridgeEnd.isSome then s.geminiEvents.discard
      else s.geminiEvents.accept EVENTS_CAPACITY).map fun geminiEvents => { s with geminiEvents }
  | .uplink =>
    if s.bridge.isSome && (!s.phoneOpen || s.driverGone) then some { s with uplinkEnded := true }
    else none
  | .bridge arm => do
    let b ← s.bridge
    s.bridgeStep su b arm
  | .bridgeSend =>
    (s.eventsOut.accept EVENTS_CAPACITY).map fun eventsOut => { s with eventsOut }
  | .phoneSend => do
    let b ← s.bridge
    s.phoneStep su b
  | .engine arm => s.engineStep su arm

end Talk

end Kutsu
