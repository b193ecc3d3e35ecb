import Kutsu.Model.Config
import Kutsu.Model.Resample

/-! The per-call driver over the Gemini session (`gemini_live.rs`): one step is one
iteration of its `select!`. The energy VAD is a parameter, as is the order in which the
arms become ready; the answering-machine probe only logs and is left out. -/

namespace Kutsu

inductive Event where
  | outputAudio (pcm : List Sample)
  | transcript (role : Role) (text : String) (final : Bool)
  | interrupted
  | turnComplete
  | endCall (goal : Json)
  | affect (role : Role) (label : String)

structure CallOutcome where
  endedBy : EndedBy
  goal : Option Json
  transcript : List TranscriptEntry

/-- Unicode `White_Space`, which `str::trim` removes. -/
def isWhitespace (c : Char) : Bool :=
  (0x9 ≤ c.toNat ∧ c.toNat ≤ 0xd) ∨ c.toNat = 0x20 ∨ c.toNat = 0x85 ∨ c.toNat = 0xa0 ∨
    c.toNat = 0x1680 ∨ (0x2000 ≤ c.toNat ∧ c.toNat ≤ 0x200a) ∨ c.toNat = 0x2028 ∨
    c.toNat = 0x2029 ∨ c.toNat = 0x202f ∨ c.toNat = 0x205f ∨ c.toNat = 0x3000

def trim (s : String) : String :=
  String.ofList (((s.toList.dropWhile isWhitespace).reverse.dropWhile isWhitespace).reverse)

structure TranscriptAccumulator where
  user : String := ""
  model : String := ""

namespace TranscriptAccumulator

def onDelta (acc : TranscriptAccumulator) (role : Role) (text : String) : TranscriptAccumulator :=
  match role with
  | .user => { acc with user := acc.user ++ text }
  | .model => { acc with model := acc.model ++ text }

def entry (role : Role) (text : String) (tsMs : ℕ) : List TranscriptEntry :=
  if (trim text).isEmpty then [] else [⟨role, trim text, tsMs⟩]

def flush (acc : TranscriptAccumulator) (tsMs : ℕ) :
    List TranscriptEntry × TranscriptAccumulator :=
  (entry .user acc.user tsMs ++ entry .model acc.model tsMs, {})

end TranscriptAccumulator

/-- What an arm of the `select!` receives. `sendOk` says whether the session accepts what
the arm sends it, where the arm looks at that. -/
inductive DriverInput where
  | answeredChanged (answered : Bool)
  | answeredClosed
  | greetTimer (sendOk : Bool)
  | endingTimer
  | audio (pcm : List Sample) (sendOk : Bool)
  | audioClosed
  | sessionOpened (isReconnect resumed sendOk : Bool)
  | outputAudio (pcm : List Sample)
  | transcript (role : Role) (text : String) (final : Bool)
  | affect (role : Role) (label : String)
  | interrupted
  | turnComplete
  | toolCall (name id : String) (args : Json)
  | sessionClosed
  | hangup
  | text (cue : String)
  | textClosed

/-- What the driver sends: events to the bridge, the rest to the session. `drainUplink`
throws the queued callee frames away. -/
inductive DriverOut where
  | event (ev : Event)
  | clientText (cue : String)
  | audio (pcm : List Sample)
  | toolResponse (id : String)
  | drainUplink

/-- The locals of `run_driver`; `V` is the VAD's state. -/
structure Driver (V : Type) where
  transcript : List TranscriptEntry := []
  acc : TranscriptAccumulator := {}
  greeted : Bool
  hadActivity : Bool := false
  calleeActive : Bool := false
  resumeNeeded : Bool := false
  isReconnectSession : Bool := false
  greetArmed : Bool
  greetDeadline : ℕ
  answeredClosed : Bool := false
  textChannelOpen : Bool := true
  vad : V
  ending : Option Json := none
  endingDeadline : ℕ
  startedMs : ℕ

/-- How one iteration ends: on to the next, or out of the loop. -/
inductive DriverNext (V : Type) where
  | continue (d : Driver V)
  | break (d : Driver V) (endedBy : EndedBy) (goal : Option Json)

namespace Driver

variable {V : Type}

def DAY_MS : ℕ := 86400000

def init (cfg : ServerConfig) (vad : V) (answered : Bool) (now : ℕ) : Driver V where
  greeted := !(0 < cfg.greetAfterSilenceMs : Bool)
  greetArmed := answered
  greetDeadline := if answered then now + cfg.greetAfterSilenceMs else now + DAY_MS
  vad := vad
  endingDeadline := now + DAY_MS
  startedMs := now

def enabled (d : Driver V) (now : ℕ) : DriverInput → Bool
  | .answeredChanged _ | .answeredClosed => !d.greetArmed && !d.greeted && !d.answeredClosed
  | .greetTimer _ => d.greetArmed && !d.greeted && !d.hadActivity && !d.calleeActive &&
      !d.isReconnectSession && d.greetDeadline ≤ now
  | .endingTimer => d.ending.isSome && d.endingDeadline ≤ now
  | .text _ | .textClosed => d.textChannelOpen
  | _ => true

/-- The arm of a reopened session: the pacer is flushed and lost context is recovered. -/
def onReconnect (cfg : ServerConfig) (d : Driver V) (resumed sendOk : Bool) :
    List DriverOut × DriverNext V :=
  let flushed := [.drainUplink, .event .interrupted]
  if !resumed && d.resumeNeeded then
    (flushed ++ [.clientText cfg.prompts.resumeCue],
      if sendOk then .continue { d with isReconnectSession := true, greeted := true }
      else .break { d with isReconnectSession := true } .remoteClose none)
  else (flushed, .continue { d with isReconnectSession := true, greeted := true })

/-- A completed turn ends the driver when `end_call` is pending. -/
def onTurnComplete (d : Driver V) (now : ℕ) : List DriverOut × DriverNext V :=
  let flushed := d.acc.flush (now - d.startedMs)
  let d' := { d with hadActivity := true, resumeNeeded := false,
                     transcript := d.transcript ++ flushed.1, acc := flushed.2 }
  match d.ending with
  | some goal => ([.event .turnComplete, .event (.endCall goal)],
      .break { d' with ending := none } .modelEndCall (some goal))
  | none => ([.event .turnComplete], .continue d')

/-- `end_call` is acknowledged and deferred; a second one and other tools do nothing. -/
def onToolCall (d : Driver V) (now : ℕ) (name id : String) (args : Json) :
    List DriverOut × DriverNext V :=
  if name = "end_call" then
    ([.toolResponse id],
      .continue (if d.ending.isNone then
        { d with ending := some args, endingDeadline := now + 10000, greeted := true } else d))
  else ([], .continue d)

def react (cfg : ServerConfig) (observe : V → List Sample → Bool × V) (d : Driver V) (now : ℕ) :
    DriverInput → List DriverOut × DriverNext V
  | .answeredChanged answered =>
    ([], .continue (if answered then
      { d with greetArmed := true, greetDeadline := now + cfg.greetAfterSilenceMs } else d))
  | .answeredClosed => ([], .continue { d with answeredClosed := true })
  | .greetTimer sendOk =>
    ([.clientText cfg.prompts.greetCue],
      if sendOk then .continue { d with greeted := true }
      else .break { d with greeted := true } .remoteClose none)
  | .endingTimer =>
    match d.ending with
    | some goal => ([.event (.endCall goal)],
        .break { d with ending := none } .modelEndCall (some goal))
    | none => ([], .continue d)
  | .audio pcm sendOk =>
    let onset := (observe d.vad pcm).1
    let d' := { d with vad := (observe d.vad pcm).2, calleeActive := d.calleeActive || onset,
                       resumeNeeded := d.resumeNeeded || onset }
    ([.audio pcm], if sendOk then .continue d' else .break d' .remoteClose none)
  | .audioClosed => ([], .break d .callerHangup none)
  | .sessionOpened isReconnect resumed sendOk =>
    if isReconnect then d.onReconnect cfg resumed sendOk else ([], .continue d)
  | .outputAudio pcm => ([.event (.outputAudio pcm)], .continue { d with hadActivity := true })
  | .transcript role text final =>
    ([.event (.transcript role text final)],
      .continue { d with hadActivity := true, acc := d.acc.onDelta role text,
                         calleeActive := d.calleeActive || role = .user,
                         resumeNeeded := d.resumeNeeded || role = .user })
  | .affect role label => ([.event (.affect role label)], .continue { d with hadActivity := true })
  | .interrupted => ([.event .interrupted], .continue { d with hadActivity := true })
  | .turnComplete => d.onTurnComplete now
  | .toolCall name id args => d.onToolCall now name id args
  | .sessionClosed => ([], .break d .remoteClose none)
  | .hangup => ([], .break d .callerHangup none)
  | .text cue => ([.clientText cue], .continue d)
  | .textClosed => ([], .continue { d with textChannelOpen := false })

/-- After the loop the unfinished turn is flushed into the transcript. -/
def finish (d : Driver V) (now : ℕ) (endedBy : EndedBy) (goal : Option Json) : CallOutcome :=
  ⟨endedBy, goal, d.transcript ++ (d.acc.flush (now - d.startedMs)).1⟩

end Driver

inductive DriverStatus (V : Type) where
  | looping (d : Driver V)
  | returned (outcome : CallOutcome)

/-- A driver together with everything it has sent. -/
structure DriverRun (V : Type) where
  status : DriverStatus V
  sent : List DriverOut

namespace DriverRun

variable {V : Type}

def init (cfg : ServerConfig) (vad : V) (answered : Bool) (now : ℕ) : DriverRun V :=
  ⟨.looping (Driver.init cfg vad answered now), []⟩

def settle (now : ℕ) : DriverNext V → DriverStatus V
  | .continue d => .looping d
  | .break d endedBy goal => .returned (d.finish now endedBy goal)

def step (cfg : ServerConfig) (observe : V → List Sample → Bool × V) (r : DriverRun V)
    (input : DriverInput × ℕ) : Option (DriverRun V) :=
  match r.status with
  | .looping d =>
    if d.enabled input.2 input.1 then
      some ⟨settle input.2 (d.react cfg observe input.2 input.1).2,
        r.sent ++ (d.react cfg observe input.2 input.1).1⟩
    else none
  | .returned _ => none

end DriverRun

end Kutsu
