import Kutsu.Lib.Pipe
import Kutsu.Lib.Rounding
import Kutsu.Model.Uplink

/-! One outbound call on the SIP thread (`run_call` in `sip/call.rs`) with the two local tasks that
move its RTP. What the user agent reports is input; a step is taken at a point in time. -/

namespace Kutsu

open Pipes Rounding

abbrev Payload := List UInt8

inductive SipError where
  | config (text : String)
  | bind (text : String)
  | invite (line : String)
  | notAnswered
  | media (text : String)
  | register (text : String)
  | runtimeGone

def SipError.display : SipError → String
  | .config text => "sip config: " ++ text
  | .bind text => "sip bind/io: " ++ text
  | .invite line => "invite rejected: " ++ line
  | .notAnswered => "call not answered"
  | .media text => "media error: " ++ text
  | .register text => "register failed: " ++ text
  | .runtimeGone => "sip runtime unavailable"

def outcomeFromStatus (code : ℕ) : SipOutcome :=
  if 200 ≤ code ∧ code ≤ 299 then .completed
  else if code = 404 ∨ code = 484 then .notFound
  else if code = 486 ∨ code = 600 then .busy
  else if code = 408 ∨ code = 480 then .noAnswer
  else if code = 403 ∨ code = 603 then .rejected
  else if 500 ≤ code ∧ code ≤ 599 then .unavailable
  else .failed

/-- How `OutboundCall::make` fails; the texts are the errors' `Debug` forms. -/
inductive MakeCallError where
  | failed (line : String)
  | requestTimedOut
  | other (text : String)

/-- How the INVITE fails after it was sent. -/
inductive CompletionError where
  | failed (code : ℕ) (line : String)
  | requestTimedOut
  | other (text : String)

def mapMakeErr : MakeCallError → SipError
  | .failed line => .invite line
  | .requestTimedOut => .notAnswered
  | .other text => .media text

def classifyCompletionErr : CompletionError → SipOutcome × String
  | .failed code line => (outcomeFromStatus code, line)
  | .requestTimedOut => (.noAnswer, "request timed out")
  | .other text => (.failed, text)

def g711KindFromPt : ℕ → Option G711Kind
  | 0 => some .ulaw
  | 8 => some .alaw
  | _ => none

def negCodec (pt : ℕ) : NegotiatedCodec := ⟨pt, (g711KindFromPt pt).getD .ulaw, 20⟩

structure SendRtpPacket where
  mediaTime : ℕ
  pt : ℕ
  payload : Payload

/-- The outbound forwarder; `sent` is what the RTP session has taken from it. -/
structure OutTask where
  pt : ℕ
  mediaTime : Option ℕ := none
  sent : List SendRtpPacket := []
  running : Bool := true

/-- Media time runs by 20 ms a frame from the first payload on, whatever the clock says. -/
def OutTask.forward (t : OutTask) (now : ℕ) (payload : Payload) (ok : Bool) : OutTask :=
  let mt := match t.mediaTime with
    | some prev => prev + 20
    | none => now
  if ok then { t with mediaTime := some mt, sent := t.sent ++ [⟨mt, t.pt, payload⟩] }
  else { t with mediaTime := some mt, running := false }

structure RtpPacket where
  sequenceNumber : UInt16
  payload : Payload

structure InTask where
  stats : UplinkStats := UplinkStats.new
  running : Bool := true

/-- What the callee's receiver report says, when there is one. -/
structure RemoteStats where
  loss : ℚ
  jitterMs : ℕ
  rttMs : Option ℕ

def DownlinkQuality.absent : DownlinkQuality := ⟨false, 0, 0, 0⟩

def RemoteStats.quality (r : RemoteStats) : DownlinkQuality := ⟨true, f32 (r.loss * 100), r.jitterMs, r.rttMs.getD 0⟩

inductive CallPc where
  | media
  | make
  | reply
  | cancel
  | completion
  | finish
  | negotiating (sender : Option NegotiatedCodec) (receiver : Bool) (deadline : ℕ)
  | answering (codec : NegotiatedCodec)
  | live
  | hangingUp
  /-- `Terminated` is being sent; `bye` is whether the call is terminated after it -/
  | terminating (bye : Bool)
  | bye
  | returned

/-- What the task waits for. `terminated`, `failed` and the media events come from `call.run()`. -/
inductive CallInput where
  | mediaBuilt (r : Except String Unit)
  | made (r : Except MakeCallError Unit)
  | replied (taken : Bool)
  | cancelled
  | completed (r : Except CompletionError Unit)
  | finished (r : Except CompletionError Unit)
  | internal (ok : Bool)
  | senderAdded (pt : ℕ)
  | receiverAdded
  | terminated
  | failed (text : String)
  | mediaDeadline
  | eventSent
  | rrTick (remote : Option RemoteStats)
  | hangup
  | byeSent
  /-- the two local tasks -/
  | forward (ok : Bool)
  | received (packet : RtpPacket)
  /-- the other ends of the channels -/
  | fed (payload : Payload)
  | eventsDropped

def SIP_EVENTS_CAPACITY : ℕ := 16

def RTP_CAPACITY : ℕ := 64

/-- `final` is how the INVITE failed, and `reply` what `place_call` was answered, for the record. -/
structure SipCall where
  callId : String
  pc : CallPc := .media
  reply : Option (Except SipError Unit) := none
  handed : Bool := false
  final : Option CompletionError := none
  events : Pipe SipEvent := {}
  eventsOpen : Bool := true
  rtpIn : Pipe Payload := {}
  rtpOut : Pipe Payload := {}
  outTask : Option OutTask := none
  inTask : Option InTask := none
  uplink : UplinkQuality := ⟨0, 0, 0⟩
  downlink : DownlinkQuality := DownlinkQuality.absent

namespace SipCall

def terminate (c : SipCall) (reason : TermReason) (bye : Bool) : SipCall :=
  { c with pc := .terminating bye, events := c.events.offer [.terminated reason] }

/-- The end of the main loop: the two tasks are aborted before the event is sent. -/
def leave (c : SipCall) (reason : TermReason) : SipCall :=
  terminate { c with outTask := c.outTask.map fun t => { t with running := false }
                     inTask := c.inTask.map fun t => { t with running := false } } reason false

def unanswered (c : SipCall) (e : CompletionError) : SipCall :=
  let (outcome, detail) := classifyCompletionErr e
  terminate { c with final := some e } (.failed outcome detail) false

def negotiated (c : SipCall) (sender : Option NegotiatedCodec) (receiver : Bool) (deadline : ℕ) : SipCall :=
  match sender, receiver with
  | some codec, true => { c with pc := .answering codec, events := c.events.offer [.answered codec] }
  | _, _ => { c with pc := .negotiating sender receiver deadline }

def failed (text : String) : TermReason := .failed .failed text

/-- The event that is being sent has been taken, or there is nobody to take it. -/
def eventSent (c : SipCall) : Option SipCall := do
  let events ← (if c.eventsOpen then c.events.accept SIP_EVENTS_CAPACITY else c.events.discard)
  match c.pc with
  | .answering codec => some { c with events, pc := .live, outTask := some { pt := codec.pt }, inTask := some {} }
  | .terminating true => some { c with events, pc := .bye }
  | .terminating false => some { c with events, pc := .returned }
  | _ => none

def forward (c : SipCall) (now : ℕ) (ok : Bool) : Option SipCall := do
  let t ← c.outTask
  if t.running then do
    let (payload, rtpOut) ← c.rtpOut.recv
    some { c with rtpOut, outTask := some (t.forward now payload ok) }
  else none

/-- The receiver counts a packet and passes its payload on, unless the bridge is behind. -/
def received (c : SipCall) (packet : RtpPacket) : Option SipCall := do
  let t ← c.inTask
  if t.running then
    let stats := t.stats.observe packet.sequenceNumber
    some { c with inTask := some { t with stats }, uplink := stats.snapshot
                  rtpIn := c.rtpIn.trySend RTP_CAPACITY packet.payload }
  else none

/-- The call's own task: what it awaits is over, or one arm of its `select!` fires. -/
def advance (c : SipCall) (now : ℕ) (input : CallInput) : Option SipCall :=
  match c.pc, input with
  | .media, .mediaBuilt (.error e) => some { c with pc := .returned, reply := some (.error (.media e)) }
  | .media, .mediaBuilt (.ok _) => some { c with pc := .make }
  | .make, .made (.error e) => some { c with pc := .returned, reply := some (.error (mapMakeErr e)) }
  | .make, .made (.ok _) => some { c with pc := .reply }
  | .reply, .replied taken =>
    some { c with pc := if taken then .completion else .cancel, reply := some (.ok ()), handed := taken }
  | .cancel, .cancelled => some { c with pc := .returned }
  | .completion, .completed (.error e) | .finish, .finished (.error e) => some (c.unanswered e)
  | .completion, .completed (.ok _) => some { c with pc := .finish }
  | .finish, .finished (.ok _) => some { c with pc := .negotiating none false (now + 10000) }
  | .negotiating _ _ _, .internal ok => some (if ok then c else c.terminate (failed "internal") false)
  | .negotiating _ receiver deadline, .senderAdded pt => some (c.negotiated (some (negCodec pt)) receiver deadline)
  | .negotiating sender _ deadline, .receiverAdded => some (c.negotiated sender true deadline)
  | .negotiating _ _ _, .terminated => some (c.terminate .remoteHangup false)
  | .negotiating _ _ _, .failed text => some (c.terminate (failed text) false)
  | .negotiating _ _ deadline, .mediaDeadline =>
    if deadline ≤ now then
      some (c.terminate (failed "answered but media was not negotiated in time") true)
    else none
  | .live, .rrTick remote => some { c with downlink := (remote.map RemoteStats.quality).getD .absent }
  | .live, .internal ok => some (if ok then c else c.leave (failed "internal"))
  | .live, .senderAdded _ | .live, .receiverAdded => some c
  | .live, .terminated => some (c.leave .remoteHangup)
  | .live, .failed text => some (c.leave (failed text))
  | .live, .hangup => some { c with pc := .hangingUp }
  | .hangingUp, .byeSent => some (c.leave .localHangup)
  | .bye, .byeSent => some { c with pc := .returned }
  | _, _ => none

def step (c : SipCall) : ℕ × CallInput → Option SipCall
  | (now, .forward ok) => c.forward now ok
  | (_, .received packet) => c.received packet
  | (_, .fed payload) =>
    if c.rtpOut.queued.length < RTP_CAPACITY then some { c with rtpOut := c.rtpOut.trySend RTP_CAPACITY payload }
    else none
  | (_, .eventsDropped) => some { c with eventsOpen := false }
  | (_, .eventSent) => c.eventSent
  | (now, input) => c.advance now input

end SipCall

end Kutsu
