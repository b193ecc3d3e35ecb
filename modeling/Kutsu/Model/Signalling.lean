import Kutsu.Model.RunCall
import Kutsu.Model.SipCall

/-! One dial as both sides see it: the engine's attempt (`run_call` in `engine.rs`) and the call that it
places on the SIP thread (`run_call` in `sip/call.rs`), joined by the reply, the events and the hangup. -/

namespace Kutsu

/-- `dialled` is whether the SIP thread has been asked for the call. -/
structure Signalling where
  attempt : Attempt
  dialled : Bool := false
  sip : SipCall

/-- The engine goes on with whatever the rest of it has made of what they share. -/
inductive SignalAct where
  | engine (sh : Shared) (input : RunInput)
  | sip (now : ℕ) (input : CallInput)

/-- The engine still waits for the handle of the call, or has it and has not hung up. -/
def Phase.holdsPhone : Phase → Bool
  | .inviting | .warming | .ringing _ | .answered _ | .live _ | .draining _ _ => true
  | _ => false

def Effect.dials : Effect → Bool
  | .dial _ => true
  | _ => false

namespace SipCall

def tell (c : SipCall) (ev : SipEvent) : Option SipCall := do
  let (ev', events) ← c.events.recv
  if ev' = ev then some { c with events } else none

def closed (c : SipCall) : Bool := c.events.queued.isEmpty && (c.pc matches .returned)

/-- What the engine waits for has to come from the call. -/
def heard (c : SipCall) : RunInput → Option SipCall
  | .invited (.ok _) =>
    match c.reply with
    | some (.ok _) => some c
    | _ => none
  | .invited (.error e) =>
    match c.reply with
    | some (.error err) => if err.display = e then some c else none
    | _ => none
  | .ring (.answered codec) => c.tell (.answered codec)
  | .ring (.terminated reason) => c.tell (.terminated reason)
  | .ring .closed | .loop (.sip none) => if c.closed then some c else none
  | .loop (.sip (some ev)) => c.tell ev
  | _ => some c

end SipCall

namespace Signalling

def init (callId : String) (entry : PendingEntry) (probe : Bool) : Signalling :=
  { attempt := ⟨entry, probe, .start⟩, sip := { callId } }

/-- A handle that is not taken, or is dropped, hangs up; so does the engine. -/
def lets (s : Signalling) : CallInput → Bool
  | .replied taken => taken == (s.attempt.phase matches .inviting)
  | .eventsDropped | .hangup => !s.attempt.phase.holdsPhone
  | _ => true

def step (cfg : ServerConfig) (tok : Token) (s : Signalling) : SignalAct → Option Signalling
  | .engine sh input => do
    let sip ← s.sip.heard input
    let (phase, eff) ← s.attempt.next cfg sh tok input
    some { attempt := { s.attempt with phase }, sip, dialled := s.dialled || eff.dials }
  | .sip now input =>
    if s.dialled && s.lets input then (s.sip.step (now, input)).map fun sip => { s with sip } else none

end Signalling

end Kutsu
