import Kutsu.Lib.Rounding
import Kutsu.Model.Driver
import Kutsu.Model.Store

/-! The orchestration loop of an answered call (`run_call` in `engine.rs`), with its
quality gates and the dead-air watchdog: one step is one arm of the `select!`. -/

namespace Kutsu

open Rounding

inductive G711Kind where
  | ulaw
  | alaw
  deriving DecidableEq

structure NegotiatedCodec where
  pt : ℕ
  kind : G711Kind
  ptimeMs : ℕ
  deriving DecidableEq

inductive SipEvent where
  | answered (codec : NegotiatedCodec)
  | terminated (reason : TermReason)
  deriving DecidableEq

inductive BridgeEnd where
  | phoneClosed
  | geminiClosed
  | cancelled
  deriving DecidableEq

structure UplinkQuality where
  received : ℕ
  lost : ℕ
  reordered : ℕ

structure DownlinkQuality where
  present : Bool
  lossPct : ℚ
  jitterMs : ℕ
  rttMs : ℕ

def shouldAbort (cfg : QualityConfig) (underruns : ℕ) : Bool :=
  0 < cfg.abortUnderruns ∧ cfg.abortUnderruns ≤ underruns

def UPLINK_WINDOW_TICKS : ℕ := 8

def windowLossPct (oldest current : ℕ × ℕ) : Option ℚ :=
  let recv := current.1 - oldest.1
  let lost := current.2 - oldest.2
  let total := recv + lost
  -- `lost as f32 / total as f32 * 100.0`
  if total < 200 then none else some (f32 (f32 (f32 lost / f32 total) * 100))

-- exactly 15 %, which the rounding takes over 15
example : windowLossPct (0, 0) (340, 60) = some (15 + 1 / 2 ^ 20) := by decide +kernel

def mergeQuality (q : CallQuality) (u : UplinkQuality) (d : DownlinkQuality) : CallQuality :=
  let q' := { q with uplinkReceived := u.received, uplinkLost := u.lost,
                     uplinkReordered := u.reordered }
  if d.present then
    { q' with downlinkLossPct := d.lossPct, downlinkJitterMs := d.jitterMs,
              downlinkRttMs := d.rttMs }
  else q'

def DOWNLINK_BREACH_TICKS : ℕ := 5

def downlinkBreach (d : DownlinkQuality) (abortPct : ℚ) : Bool := d.present ∧ abortPct < d.lossPct

def harvestEligible (transcriptLen : ℕ) (goalSet : Bool) : Bool := 0 < transcriptLen ∧ !goalSet

inductive WrapPhase where
  | idle
  | nudge
  | finalize
  deriving DecidableEq

structure WrapUpState where
  nudgeMs : ℕ
  graceMs : ℕ
  lastActivityMs : ℕ
  nudgedAtMs : Option ℕ
  deriving DecidableEq

namespace WrapUpState

def new (nudgeMs graceMs : ℕ) : WrapUpState := ⟨nudgeMs, graceMs, 0, none⟩

/-- Whether a nudge was pending, and the state after the activity. -/
def onActivity (w : WrapUpState) (nowMs : ℕ) : Bool × WrapUpState :=
  (w.nudgedAtMs.isSome, { w with lastActivityMs := nowMs, nudgedAtMs := none })

def phase (w : WrapUpState) (nowMs : ℕ) : WrapPhase × WrapUpState :=
  match w.nudgedAtMs with
  | none =>
    if w.nudgeMs ≤ nowMs - w.lastActivityMs then (.nudge, { w with nudgedAtMs := some nowMs })
    else (.idle, w)
  | some nudgedAt => if w.graceMs ≤ nowMs - nudgedAt then (.finalize, w) else (.idle, w)

end WrapUpState

inductive LoopEnd where
  | completed
  | hungUp
  | failed
  | cancelled
  deriving DecidableEq

/-- What an arm of the orchestration loop receives; `bridgeDone none` is a bridge that
died before it sent its end. -/
inductive LoopInput where
  | event (ev : Event)
  | eventsClosed
  | sip (r : Option SipEvent)
  | bridgeDone (r : Option BridgeEnd)
  | deadline
  | cancelled
  | harvestElapsed
  | qtick (quality : CallQuality) (uplink : UplinkQuality) (downlink : DownlinkQuality)

structure LoopVars where
  goal : Option Json := none
  transcriptEvents : ℕ := 0
  eventsOpen : Bool := true
  abortReason : Option String := none
  deadline : ℕ
  wrapUp : WrapUpState
  uplinkHist : List (ℕ × ℕ) := []
  downlinkOverStreak : ℕ := 0
  harvesting : Bool := false
  harvestDeadline : Option ℕ := none
  sipOpen : Bool := true
  muteDownlink : Bool := false
  answeredAt : ℕ

inductive LoopNext where
  | continue (v : LoopVars)
  | break (v : LoopVars) (endState : LoopEnd)

def LoopNext.vars : LoopNext → LoopVars
  | .continue v => v
  | .break v _ => v

/-- What one arm does: at most one store operation, the cues sent to the model, and
where it goes on. -/
structure LoopStep where
  store : Option StoreOp := none
  cues : List String := []
  next : LoopNext

namespace LoopVars

def init (cfg : ServerConfig) (answeredAt now : ℕ) : LoopVars where
  deadline := now + cfg.maxCallSecs * 1000
  wrapUp := ((WrapUpState.new cfg.deadAirNudgeMs cfg.wrapUpGraceMs).onActivity now).2
  answeredAt := answeredAt

def wrapUpEnabled (cfg : ServerConfig) : Bool := 0 < cfg.deadAirNudgeMs ∧ 0 < cfg.wrapUpGraceMs

/-- Whether the arm can fire; the cancel channel is looked at by the caller. -/
def enabled (v : LoopVars) (now : ℕ) : LoopInput → Bool
  | .event _ | .eventsClosed => v.eventsOpen
  | .sip _ => v.sipOpen
  | .deadline => v.deadline ≤ now
  | .harvestElapsed => v.harvestDeadline.any fun t => t ≤ now
  | _ => true

/-- Activity clears a pending nudge and then lifts the mute it set. -/
def active (v : LoopVars) (now : ℕ) : LoopVars :=
  { v with wrapUp := (v.wrapUp.onActivity now).2,
           muteDownlink := v.muteDownlink && !(v.wrapUp.onActivity now).1 }

def onEvent (callId : CallId) (v : LoopVars) (now : ℕ) : Event → LoopStep
  | .transcript role text final =>
    { store := if final then some (.appendTranscript callId ⟨role, text, now⟩) else none
      next := .continue { v.active now with transcriptEvents := v.transcriptEvents + 1 } }
  | .endCall g => { next := .break { v with goal := some g } .completed }
  | .turnComplete => { next := .continue (v.active now) }
  | .affect role label =>
    { store := some (.appendAffect callId ⟨role, label, now⟩), next := .continue v }
  | .outputAudio _ | .interrupted => { next := .continue v }

/-- The phone is gone: a call that had a conversation and no goal yet is harvested. -/
def onSip (cfg : ServerConfig) (v : LoopVars) (now : ℕ) : Option SipEvent → LoopStep
  | some (.answered _) => { next := .continue { v with sipOpen := false } }
  | some (.terminated _) | none =>
    if v.harvesting then { next := .continue { v with sipOpen := false } }
    else if 0 < cfg.wrapUpGraceMs ∧ harvestEligible v.transcriptEvents v.goal.isSome then
      { cues := [cfg.prompts.harvestCue]
        next := .continue { v with sipOpen := false, harvesting := true,
                                   harvestDeadline := some (now + cfg.wrapUpGraceMs) } }
    else { next := .break { v with sipOpen := false } .hungUp }

def onBridgeDone (v : LoopVars) : Option BridgeEnd → LoopEnd
  | some .phoneClosed => if v.harvesting then .completed else .hungUp
  | some .geminiClosed => if v.harvesting then .completed else .failed
  | some .cancelled => .hungUp
  | none => .failed

/-- `{:.1}` of a percentage: the tenth nearest to its value, of two the even one. -/
def fixed1 (pct : ℚ) : String :=
  let tenths := (halfEven (pct * 10)).toNat
  s!"{tenths / 10}.{tenths % 10}"

def gates (cfg : ServerConfig) (v : LoopVars) (q : CallQuality) (d : DownlinkQuality) :
    Option String × LoopVars :=
  if shouldAbort cfg.quality q.underruns then
    (some s!"aborted: audio quality degraded ({q.underruns} underruns, {q.starvedMs} ms silence)",
      v)
  else
    let grown := v.uplinkHist ++ [(q.uplinkReceived, q.uplinkLost)]
    let hist := grown.drop (grown.length - UPLINK_WINDOW_TICKS)
    let v₁ := { v with uplinkHist := hist }
    let loss := if UPLINK_WINDOW_TICKS ≤ hist.length then
        hist.head?.bind fun oldest => windowLossPct oldest (q.uplinkReceived, q.uplinkLost)
      else none
    match loss.filter fun pct => cfg.netCheck.uplinkLossAbortPct < pct with
    | some pct => (some s!"aborted: uplink RTP loss {fixed1 pct}% over ~8s window", v₁)
    | none =>
      if downlinkBreach d cfg.netCheck.downlinkLossAbortPct then
        let v₂ := { v₁ with downlinkOverStreak := v₁.downlinkOverStreak + 1 }
        if DOWNLINK_BREACH_TICKS ≤ v₂.downlinkOverStreak then
          (some (s!"aborted: downlink RTP loss {fixed1 d.lossPct}% " ++
            "reported by callee over ~5s"), v₂)
        else (none, v₂)
      else (none, { v₁ with downlinkOverStreak := 0 })

/-- The dead-air watchdog runs on a tick that no gate has ended. -/
def watchdog (cfg : ServerConfig) (v : LoopVars) (now : ℕ) : List String × LoopNext :=
  if wrapUpEnabled cfg && !v.harvesting then
    let v' := { v with wrapUp := (v.wrapUp.phase now).2 }
    match (v.wrapUp.phase now).1 with
    | .nudge => ([cfg.prompts.endCallCue], .continue { v' with muteDownlink := true })
    | .finalize => ([], .break v' .completed)
    | .idle => ([], .continue v')
  else ([], .continue v)

def onTick (cfg : ServerConfig) (callId : CallId) (v : LoopVars) (now : ℕ) (q : CallQuality)
    (d : DownlinkQuality) : LoopStep :=
  match v.gates cfg q d with
  | (some reason, v') =>
    { store := some (.setQuality callId q)
      next := .break { v' with abortReason := some reason } .failed }
  | (none, v') =>
    { store := some (.setQuality callId q)
      cues := (v'.watchdog cfg now).1
      next := (v'.watchdog cfg now).2 }

def react (cfg : ServerConfig) (callId : CallId) (v : LoopVars) (now : ℕ) : LoopInput → LoopStep
  | .event ev => v.onEvent callId now ev
  | .eventsClosed => { next := .continue { v with eventsOpen := false } }
  | .sip r => v.onSip cfg now r
  | .bridgeDone r => { next := .break v (v.onBridgeDone r) }
  | .deadline => { next := .break v .completed }
  | .cancelled => { next := .break v .cancelled }
  | .harvestElapsed => { next := .break v .completed }
  | .qtick quality uplink downlink =>
    v.onTick cfg callId now (mergeQuality quality uplink downlink) downlink

end LoopVars

/-- The loop, or what it was left with and the arm that left it. -/
inductive LoopState where
  | running (v : LoopVars)
  | left (v : LoopVars) (endState : LoopEnd) (by_ : LoopInput)

namespace LoopState

def step (cfg : ServerConfig) (callId : CallId) : LoopState → ℕ × LoopInput → Option LoopState
  | .running v, (now, i) =>
    if v.enabled now i then
      match (v.react cfg callId now i).next with
      | .continue v' => some (.running v')
      | .break v' endState => some (.left v' endState i)
    else none
  | .left _ _ _, _ => none

end LoopState

end Kutsu
