import Kutsu.Model.Bridge
import Kutsu.Model.G711
import Kutsu.Model.SipCall

/-! The way of the model's voice to the phone: the bridge's pacer (`bridge/mod.rs`) makes and encodes a frame at
every tick, and the forwarder on the SIP thread (`sip/call.rs`) stamps it. A step is taken at a point in time. -/

namespace Kutsu

open Pipes

/-- `frames` remembers every frame the pacer has made. -/
structure Egress where
  codec : G711Kind
  clock : ℕ
  bridge : BridgeTask
  phoneOut : Pipe Payload := {}
  task : OutTask
  frames : List Frame := []

inductive EgressAct where
  | bridge (input : BridgeInput)
  | forward (ok : Bool)

namespace Egress

def init (codec : NegotiatedCodec) (cfg : QualityConfig) (now : ℕ) : Egress where
  codec := codec.kind
  clock := now
  bridge := BridgeTask.new cfg now
  task := { pt := codec.pt }

def payload (s : Egress) (frame : Frame) : Payload := encode s.codec frame.pcm8

/-- A forwarder that has ended has dropped its end of the channel. -/
def act (harvestGraceMs : Option ℕ) (taps : List ℚ) (s : Egress) (now : ℕ) : EgressAct → Option Egress
  | .bridge .tick => do
    let bridge ← s.bridge.step harvestGraceMs taps (now, .tick)
    match bridge.bridge.pc with
    | .sending frame =>
      some { s with bridge, frames := s.frames ++ [frame], phoneOut := s.phoneOut.offer [s.payload frame] }
    | _ => none
  | .bridge (.phoneSend ok) => do
    let phoneOut ← (if s.task.running then s.phoneOut.accept RTP_CAPACITY else s.phoneOut.discard)
    let bridge ← s.bridge.step harvestGraceMs taps (now, .phoneSend ok)
    if ok = s.task.running then some { s with bridge, phoneOut } else none
  | .bridge input => (s.bridge.step harvestGraceMs taps (now, input)).map fun bridge => { s with bridge }
  | .forward ok =>
    if s.task.running then do
      let (payload, phoneOut) ← s.phoneOut.recv
      some { s with phoneOut, task := s.task.forward now payload ok }
    else none

def step (harvestGraceMs : Option ℕ) (taps : List ℚ) (s : Egress) (x : ℕ × EgressAct) : Option Egress :=
  if s.clock ≤ x.1 then (s.act harvestGraceMs taps x.1 x.2).map fun s' => { s' with clock := x.1 } else none

end Egress

end Kutsu
