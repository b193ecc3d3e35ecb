import Kutsu.Model.Live
import Kutsu.Model.Shared

/-! One dial attempt: the task that runs `run_call` (`engine.rs`), from the moment the
dispatcher registers its cancel channel until it has given its slot back. A phase is a
point between two accesses to what is shared; what the outside world answers is input. -/

namespace Kutsu

/-- `ring_wait`'s result. It waits on the SIP side alone: the cancel channel is not
looked at until the call is answered. -/
inductive RingOutcome where
  | answered (codec : NegotiatedCodec)
  | terminated (reason : TermReason)
  | closed

/-- The arguments of `finalize_call`. -/
structure Closing where
  cancelled : Bool := false
  amd : Option String := none
  sip : Option SipOutcome := none
  shape : CallShape
  goal : Option Json := none
  error : Option String := none

/-- What is left after `finalize_call`: an early return, or the end of a talk. -/
inductive Rest where
  | early
  | late (hadAbort : Bool)

inductive Leave where
  | finalized
  | requeued
  | panicked
  deriving DecidableEq

structure Teardown where
  vars : LoopVars
  endState : LoopEnd

inductive Phase where
  /-- the dispatcher's part: channel registered, slot claimed, record `Ringing` -/
  | registered
  | claimed
  | rung
  | start
  | preflight (attemptI : ℕ) (lastErr : Option String)
  | backoff (attemptI untilMs : ℕ) (lastErr : Option String)
  | report (usable : Bool) (lastErr : Option String)
  | reportWake (usable : Bool) (lastErr : Option String)
  | invite
  | inviting
  | warming
  | ringing (warm : Except String Unit)
  | requeueState (eligibleAtMs : ℕ)
  | requeueCount (eligibleAtMs : ℕ)
  | requeuePush (eligibleAtMs : ℕ)
  | requeueWake
  | answered (warm : Except String Unit)
  | geminiFailed (error : String) (answeredAt : ℕ)
  | live (v : LoopVars)
  | draining (t : Teardown) (drainCap : ℕ)
  | joining (t : Teardown)
  | quality (t : Teardown) (o : CallOutcome)
  | totals (t : Teardown) (o : CallOutcome) (q : CallQuality)
  | transcribe (t : Teardown) (o : CallOutcome)
  | resolve (t : Teardown) (o : CallOutcome)
  | finalizing (c : Closing) (rest : Rest)
  | bumping (d : Disposition) (rest : Rest)
  | countAbort
  | persist
  /-- the locals of `run_call` are dropped, then its parameters, then the slot -/
  | guardDrop (how : Leave)
  | receiverDrop (how : Leave)
  | release
  | slotWake
  | gone

inductive RunInput where
  | go
  | cancelled
  | panic
  | probe (r : Except String NetworkHealth)
  | slept
  | invited (r : Except String Unit)
  | warmed (r : Except String Unit)
  | ring (r : RingOutcome)
  | loop (i : LoopInput)
  | drain (downlinkActive : Bool)
  | joined (o : CallOutcome)
  | snapshot (quality : CallQuality) (uplink : UplinkQuality) (downlink : DownlinkQuality)

/-- `probe` remembers whether the breaker let the attempt through as its probe. -/
structure Attempt where
  entry : PendingEntry
  probe : Bool
  phase : Phase

def unansweredShape : CallShape where
  answered := false
  durationMs := 0
  transcriptLen := 0
  endedBy := .error

def cancelledClosing : Closing := { cancelled := true, shape := unansweredShape }

def failedClosing (error : String) : Closing :=
  { shape := unansweredShape, error := some error }

/-- `{reason:?}` -/
def TermReason.debug : TermReason → String
  | .remoteHangup => "RemoteHangup"
  | .localHangup => "LocalHangup"
  | .failed _ _ => "Failed"

/-- A phase without its data, and with the points of one kind taken together. -/
inductive Stage where
  | registered
  | claimed
  | rung
  | start
  | preflight
  | report
  | reportWake
  | invite
  | ringing
  | requeueState
  | requeueCount
  | requeuePush
  | requeueWake
  | answered
  | talking (cancelled : Bool)
  | finalizing (cancelled : Bool)
  | bumping (d : Disposition)
  | settled
  | guardDrop (how : Leave)
  | receiverDrop (how : Leave)
  | release
  | slotWake
  | gone
  deriving DecidableEq

def Teardown.stage (t : Teardown) : Stage := .talking (t.endState = .cancelled)

def Phase.stage : Phase → Stage
  | .registered => .registered
  | .claimed => .claimed
  | .rung => .rung
  | .start => .start
  | .preflight _ _ | .backoff _ _ _ => .preflight
  | .report _ _ => .report
  | .reportWake _ _ => .reportWake
  | .invite => .invite
  | .inviting | .warming | .ringing _ => .ringing
  | .requeueState _ => .requeueState
  | .requeueCount _ => .requeueCount
  | .requeuePush _ => .requeuePush
  | .requeueWake => .requeueWake
  | .answered _ => .answered
  | .geminiFailed _ _ | .live _ => .talking false
  | .draining t _ | .joining t | .quality t _ | .totals t _ _ | .transcribe t _
  | .resolve t _ => t.stage
  | .finalizing c _ => .finalizing c.cancelled
  | .bumping d _ => .bumping d
  | .countAbort | .persist => .settled
  | .guardDrop how => .guardDrop how
  | .receiverDrop how => .receiverDrop how
  | .release => .release
  | .slotWake => .slotWake
  | .gone => .gone

namespace Stage

/-- Whether the task has yet to settle the call: finalize it or put it back in the queue. -/
def owns : Stage → Bool
  | .requeueWake | .bumping _ | .settled | .guardDrop _ | .receiverDrop _ | .release
  | .slotWake | .gone => false
  | _ => true

def holdsSlot : Stage → Bool
  | .registered | .slotWake | .gone => false
  | _ => true

/-- Whether the task can be run, and so can panic: not before it is spawned, not in the
two places that are about to wake the dispatcher, and not while its locals are dropped. -/
def spawned : Stage → Bool
  | .registered | .claimed | .rung | .reportWake | .requeueWake | .guardDrop _
  | .receiverDrop _ | .release | .slotWake | .gone => false
  | _ => true

end Stage

namespace Phase

/-- The end of the talk: a submitted goal is played out before the phone is hung up. -/
def teardown (v : LoopVars) (endState : LoopEnd) (now : ℕ) : Phase :=
  if v.goal.isSome && !v.harvesting then .draining ⟨v, endState⟩ (now + 8000)
  else .joining ⟨v, endState⟩

def afterLoop (now : ℕ) : LoopNext → Phase
  | .continue v => .live v
  | .break v endState => teardown v endState now

end Phase

def Rest.leave : Rest → Disposition → Phase
  | .early, _ => .guardDrop .finalized
  | .late hadAbort, d => if hadAbort && d = .failed then .countAbort else .persist

def Closing.disposition (c : Closing) : Disposition := resolveDisposition c.cancelled c.amd c.sip c.shape

def Closing.ending (c : Closing) (id : CallId) (now : ℕ) : Ending :=
  ⟨id, c.disposition, c.goal, c.error, now⟩

namespace Attempt

def id (a : Attempt) : CallId := a.entry.callId

def retryEntry (a : Attempt) (eligibleAtMs : ℕ) : PendingEntry :=
  { a.entry with eligibleAtMs, attempt := a.entry.attempt + 1 }

/-- A ring that was not answered: busy is retried while attempts are left. -/
def onTerminated (cfg : ServerConfig) (a : Attempt) (now : ℕ) (reason : TermReason) : Phase :=
  let (outcome, detail) := match reason with
    | .failed outcome detail => (outcome, detail)
    | other => (.noAnswer, other.debug)
  if outcome = .busy ∧ shouldRetryBusy a.entry.attempt cfg.retry then
    .requeueState ((now + cfg.retry.busyRetryIntervalMs) % UInt64.size)
  else .finalizing { sip := some outcome, shape := unansweredShape, error := some detail } .early

/-- One preflight result: through, or another try after a pause, or the last word. -/
def onProbe (cfg : ServerConfig) (now i : ℕ) (r : Except String NetworkHealth) : Phase :=
  let attempts := max cfg.netCheck.retryMax 1
  let retry := fun lastErr => if i < attempts then
      .backoff i (now + retryBackoffMs i cfg.netCheck.retryBackoffBaseMs) (some lastErr)
    else .report false (some lastErr)
  match r with
  | .ok health => if verdict health cfg.netCheck = .ok then .report true none
      else retry ("network preflight unusable: " ++ health.summary)
  | .error e => retry ("network preflight failed: " ++ e)

/-- The closing of a talk, from the session's own outcome and the record. -/
def closing (t : Teardown) (o : CallOutcome) (now transcriptLen : ℕ) : Closing :=
  let finalGoal := t.vars.goal.or o.goal
  let amd := (finalGoal.bind (Json.get "amd")).bind Json.asStr
  let shape : CallShape := ⟨true, now - t.vars.answeredAt, transcriptLen, o.endedBy⟩
  let cancelled := t.endState = .cancelled
  { cancelled, amd, sip := none, shape, goal := finalGoal
    error := if resolveDisposition cancelled amd none shape = .failed then t.vars.abortReason
      else none }

def next (cfg : ServerConfig) (sh : Shared) (tok : Token) (a : Attempt) (input : RunInput) :
    Option (Phase × Effect) :=
  match a.phase, input with
  | .start, .go =>
    some (if cfg.netCheck.enabled then .preflight 1 none else .invite, .idle)
  | .preflight i _, .probe r => some (onProbe cfg sh.clock i r, .idle)
  | .preflight _ _, .cancelled | .backoff _ _ _, .cancelled =>
    if sh.signalOf tok ≠ some .quiet then some (.finalizing cancelledClosing .early, .idle) else none
  | .backoff i untilMs lastErr, .slept =>
    if untilMs ≤ sh.clock then some (.preflight (i + 1) lastErr, .idle) else none
  | .report usable lastErr, .go =>
    if sh.breaker.reports then some (.reportWake usable lastErr, .onResult usable)
    else some (if usable then .invite
      else .finalizing (failedClosing (lastErr.getD "network preflight failed")) .early, .idle)
  | .reportWake usable lastErr, .go =>
    some (if usable then .invite
      else .finalizing (failedClosing (lastErr.getD "network preflight failed")) .early, .notify)
  | .invite, .go => some (.inviting, .dial a.id)
  | .inviting, .invited r =>
    match r with
    | .ok _ => some (.warming, .idle)
    | .error e => some (.finalizing (failedClosing e) .early, .idle)
  | .warming, .warmed r => some (.ringing r, .idle)
  | .ringing warm, .ring r =>
    match r with
    | .answered _ => some (.answered warm, .idle)
    | .terminated reason => some (a.onTerminated cfg sh.clock reason, .idle)
    | .closed => some (.finalizing (failedClosing "sip closed before answer") .early, .idle)
  | .requeueState at_, .go => some (.requeueCount at_, .store (.setState a.id .queued))
  | .requeueCount at_, .go => some (.requeuePush at_, .countPlaced)
  | .requeuePush at_, .go => some (.requeueWake, .push (a.retryEntry at_))
  | .requeueWake, .go => some (.guardDrop .requeued, .notify)
  | .answered warm, .go =>
    some (match warm with
      | .ok _ => .live (LoopVars.init cfg sh.clock sh.clock)
      | .error e => .geminiFailed e sh.clock,
      .store (.setState a.id .inProgress))
  | .geminiFailed e answeredAt, .go =>
    some (.finalizing { shape := ⟨true, sh.clock - answeredAt, 0, .error⟩
                        error := some ("gemini connect: " ++ e) } .early, .idle)
  | .live v, .loop i =>
    if v.enabled sh.clock i ∧ (i matches .cancelled → sh.signalOf tok ≠ some .quiet) then
      some (Phase.afterLoop sh.clock (v.react cfg a.id sh.clock i).next,
        ((v.react cfg a.id sh.clock i).store.map Effect.store).getD .idle)
    else none
  | .draining t drainCap, .drain downlinkActive =>
    some (if downlinkActive ∧ sh.clock < drainCap then .draining t drainCap else .joining t, .idle)
  | .joining t, .joined o => some (.quality t o, .idle)
  | .quality t o, .snapshot quality uplink downlink =>
    some (.totals t o (mergeQuality quality uplink downlink),
      .store (.setQuality a.id (mergeQuality quality uplink downlink)))
  | .totals t o q, .go => some (.transcribe t o, .addTotals q)
  | .transcribe t o, .go => some (.resolve t o, .store (.setTranscript a.id o.transcript))
  | .resolve t o, .go =>
    some (.finalizing
        (closing t o sh.clock (((sh.store.get a.id).map (·.transcript.length)).getD 0))
        (.late t.vars.abortReason.isSome), .idle)
  | .finalizing c rest, .go => some (.bumping c.disposition rest, .finalize (c.ending a.id sh.clock))
  | .bumping d rest, .go => some (rest.leave d, .bump a.id d)
  | .countAbort, .go => some (.persist, .qualityAborted)
  | .persist, .go =>
    some (.guardDrop .finalized, match cfg.transcriptDir, sh.store.get a.id with
      | some _, some rec => .persist rec
      | _, _ => .idle)
  | .guardDrop how, .go => some (.receiverDrop how, .dropGuard tok a.id)
  | .receiverDrop _, .go => some (.release, .dropReceiver tok)
  | .release, .go => some (.slotWake, .releaseSlot)
  | .slotWake, .go => some (.gone, .notify)
  | phase, .panic =>
    if phase.stage.spawned then
      some (.guardDrop .panicked, if phase.stage.owns then .abandon a.id else .idle)
    else none
  | _, _ => none

end Attempt

end Kutsu
