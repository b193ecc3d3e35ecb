import Mathlib.Data.Nat.Sqrt
import Kutsu.Model.Agc
import Kutsu.Model.G711
import Kutsu.Model.SipCall

/-! The way of the callee's voice to the model: the SIP thread's receiver (`sip/call.rs`), the bridge's uplink
task (`bridge/mod.rs`) and the two channels on the way. The dumps are copies and are left out; the sums of the
level are unbounded. -/

namespace Kutsu

open Pipes

/-- The running level of the uplink, in `QualityShared`. -/
structure UplinkLevel where
  sumsq : ℕ := 0
  samples : ℕ := 0

def UplinkLevel.add (l : UplinkLevel) (pcm : List Sample) : UplinkLevel :=
  ⟨l.sumsq + (pcm.map fun s : Sample => s.natAbs * s.natAbs).sum, l.samples + pcm.length⟩

def UplinkLevel.rms (l : UplinkLevel) : ℕ := if l.samples = 0 then 0 else Nat.sqrt (l.sumsq / l.samples)

def GEMINI_IN_CAPACITY : ℕ := 64

section
variable {K : Type*} [Field K] [LinearOrder K] [FloorRing K] (sqrt exp10 : K → K)

structure Ingress (K : Type*) where
  call : SipCall
  codec : G711Kind
  agc : Agc K
  level : UplinkLevel := {}
  geminiIn : Pipe (List Sample) := {}
  running : Bool := true

inductive IngressAct where
  | sip (now : ℕ) (input : CallInput)
  /-- the uplink task takes the next payload -/
  | payload
  /-- its send returns, or fails because the session is gone -/
  | sent (ok : Bool)
  /-- the driver takes a frame -/
  | heard

namespace Ingress

def init (callId : String) (codec : G711Kind) (cfg : AgcConfig) : Ingress K where
  call := { callId }
  codec := codec
  agc := Agc.new exp10 cfg

/-- One payload: decoded, levelled out, measured, upsampled and sent on. -/
def uplink (s : Ingress K) (payload : Payload) : Ingress K :=
  let (pcm8, agc) := s.agc.process sqrt (decode s.codec payload)
  { s with agc, level := s.level.add pcm8, geminiIn := s.geminiIn.offer [up8k16k pcm8] }

def step (s : Ingress K) : IngressAct → Option (Ingress K)
  | .sip now input => (s.call.step (now, input)).map fun call => { s with call }
  | .payload =>
    if s.running && s.geminiIn.waiting.isEmpty then
      s.call.rtpIn.recv.map fun (payload, rtpIn) => { s.uplink sqrt payload with call := { s.call with rtpIn } }
    else none
  | .sent true => (s.geminiIn.accept GEMINI_IN_CAPACITY).map fun geminiIn => { s with geminiIn }
  | .sent false => (s.geminiIn.discard).map fun geminiIn => { s with geminiIn, running := false }
  | .heard => s.geminiIn.recv.map fun (_, geminiIn) => { s with geminiIn }

end Ingress

end

end Kutsu
