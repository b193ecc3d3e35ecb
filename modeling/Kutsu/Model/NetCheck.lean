import Mathlib.Data.List.Sort
import Kutsu.Lib.Rounding
import Kutsu.Model.RunCall

/-! The preflight of a call: one probe of the endpoint (`net_check.rs`), and `run_call` (`engine.rs`)
from its start to the INVITE with the probe run inside it. What the socket yields is input. How the
Gemini crate reads a server message and how an `f32` is written are parameters; the places of the percentiles
are exact. -/

namespace Kutsu

open Rounding

inductive ServerEvent where
  | setupComplete
  | other
  deriving DecidableEq

inductive WsItem where
  | pong (payload : List UInt8)
  | text (bytes : List UInt8)
  | binary (bytes : List UInt8)
  | close (frame : Option (ℕ × String))
  | other
  | error (e : String)
  | ended

inductive SetupProbe where
  | ok
  | rejected (code : ℕ) (reason : String)
  | timeout

/-- The crate's `parse_server_message` and the text of an `f32`. -/
structure Crate where
  parseServerMessage : List UInt8 → Option (List ServerEvent)
  f32Text : ℚ → String

namespace Crate

def isSetupComplete (crate : Crate) (bytes : List UInt8) : Bool :=
  (crate.parseServerMessage bytes).any fun evs => evs.any (· = .setupComplete)

end Crate

/-- One item of `wait_for_pong`, which goes on waiting on `none`. -/
def onPongItem (expected : List UInt8) : WsItem → Option (Except String Unit)
  | .pong p => if p = expected then some (.ok ()) else none
  | .error e => some (.error ("preflight recv: " ++ e))
  | .ended => some (.error "preflight stream ended")
  | _ => none

/-- One item of `await_setup_ack`. -/
def onAckItem (crate : Crate) : WsItem → Option SetupProbe
  | .ended => some (.rejected 0 "stream ended before setupComplete")
  | .close (some (code, reason)) => some (.rejected code reason)
  | .close none => some (.rejected 0 "no close frame")
  | .text bytes | .binary bytes => if crate.isSetupComplete bytes then some .ok else none
  | .error e => some (.rejected 0 e)
  | .pong _ | .other => none

/-- The place of a quantile, in hundredths, among `len` sorted samples, rounded half up. -/
def quantileIndex (len hundredths : ℕ) : ℕ := ((len - 1) * hundredths * 2 + 100) / 200

def summarize (crate : Crate) (rtts : List ℕ) (lost total : ℕ) : NetworkHealth :=
  let lossPct := f32 (f32 (f32 lost / f32 total) * 100)
  let lossText := crate.f32Text lossPct
  if rtts.isEmpty then
    let max32 := UInt32.size - 1
    ⟨max32, max32, max32, max32, lossPct, lossText, 0, 0⟩
  else
    let sorted := rtts.insertionSort (· ≤ ·)
    -- the slowest sample is dropped, unless there are hardly any
    let sample := if 2 < sorted.length then sorted.dropLast else sorted
    let p := fun hundredths => sample.getD (quantileIndex sample.length hundredths) 0
    ⟨p 50, p 95, sorted.getD (quantileIndex sorted.length 95) 0, p 95 - p 50, lossPct, lossText, 0, 0⟩

structure Measured where
  connectMs : ℕ
  rtts : List ℕ := []
  lost : ℕ := 0

inductive ProbeInput where
  | connected (r : Except String Unit)
  | pingSent (r : Except String Unit)
  | setupSent (r : Except String Unit)
  | item (i : WsItem)
  | deadline
  | closed

/-- Where `preflight` stands: at one of its awaits, or back. -/
inductive Probe where
  | connecting (startedMs : ℕ)
  | warmup (i : ℕ) (m : Measured)
  | warmupWait (i deadlineMs : ℕ) (m : Measured)
  | ping (i sentMs : ℕ) (m : Measured)
  | pingWait (i sentMs deadlineMs : ℕ) (m : Measured)
  | setup (startedMs : ℕ) (m : Measured)
  | acking (startedMs deadlineMs : ℕ) (m : Measured)
  | closing (probe : SetupProbe) (setupMs : ℕ) (m : Measured)
  | done (r : Except String NetworkHealth)

namespace Probe

def connectError (e : String) : Probe := .done (.error ("connect error: " ++ e))

def elapsed32 (since now : ℕ) : ℕ := (now - since) % UInt32.size

def pingBudgetMs (nc : NetCheckConfig) : ℕ := nc.maxRttMs * 4

def nextPing (nc : NetCheckConfig) (now i : ℕ) (m : Measured) : Probe :=
  if i < max nc.samples 1 then .ping i now m else .setup now m

def nextWarmup (nc : NetCheckConfig) (now i : ℕ) (m : Measured) : Probe :=
  if i < nc.warmupPings then .warmup i m else nextPing nc now 0 m

/-- The verdict on the setup, once the socket is closed. -/
def conclude (crate : Crate) (nc : NetCheckConfig) (setupMs : ℕ) (m : Measured) : SetupProbe → Probe
  | .ok => .done (.ok { summarize crate m.rtts m.lost (max nc.samples 1) with
      connectMs := m.connectMs, setupMs })
  | .rejected code reason => connectError (s!"gemini setup rejected (ws close {code}): " ++ reason)
  | .timeout => connectError "gemini setup not acknowledged (no setupComplete within budget)"

def next (crate : Crate) (nc : NetCheckConfig) (now : ℕ) : Probe → ProbeInput → Option Probe
  | .connecting started, .connected r =>
    some (match r with
      | .ok _ => nextWarmup nc now 0 { connectMs := elapsed32 started now }
      | .error e => connectError ("preflight connect: " ++ e))
  | .warmup i m, .pingSent _ => some (.warmupWait i (now + pingBudgetMs nc) m)
  | .warmupWait i deadline m, .item it =>
    some (match onPongItem [0xff, UInt8.ofNat i] it with
      | some _ => nextWarmup nc now (i + 1) m
      | none => .warmupWait i deadline m)
  | .warmupWait i deadline m, .deadline =>
    if deadline ≤ now then some (nextWarmup nc now (i + 1) m) else none
  | .ping i sent m, .pingSent r =>
    some (match r with
      | .ok _ => .pingWait i sent (now + pingBudgetMs nc) m
      | .error e => connectError ("preflight ping: " ++ e))
  | .pingWait i sent deadline m, .item it =>
    some (match onPongItem [UInt8.ofNat i] it with
      | some (.ok _) => nextPing nc now (i + 1) { m with rtts := m.rtts ++ [elapsed32 sent now] }
      | some (.error _) => nextPing nc now (i + 1) { m with lost := m.lost + 1 }
      | none => .pingWait i sent deadline m)
  | .pingWait i _ deadline m, .deadline =>
    if deadline ≤ now then some (nextPing nc now (i + 1) { m with lost := m.lost + 1 }) else none
  | .setup started m, .setupSent r =>
    some (match r with
      | .ok _ => .acking started (now + max (pingBudgetMs nc) 2000) m
      | .error e => connectError ("preflight setup send: " ++ e))
  | .acking started deadline m, .item it =>
    some (match onAckItem crate it with
      | some probe => .closing probe (elapsed32 started now) m
      | none => .acking started deadline m)
  | .acking started deadline m, .deadline =>
    if deadline ≤ now then some (.closing .timeout (elapsed32 started now) m) else none
  | .closing probe setupMs m, .closed => some (conclude crate nc setupMs m probe)
  | _, _ => none

def step (crate : Crate) (nc : NetCheckConfig) (p : Probe) (input : ProbeInput × ℕ) : Option Probe :=
  p.next crate nc input.2 input.1

def result? : Probe → Option (Except String NetworkHealth)
  | .done r => some r
  | _ => none

end Probe

/-- One attempt of the preflight, with what it has been given. -/
structure Tried where
  startedMs : ℕ
  inputs : List (ProbeInput × ℕ)

/-- `run_call` up to the INVITE, with the probe it awaits. `tried`, `reports` and `effects` are a
history that the code does not keep. -/
structure Check where
  sh : Shared
  attempt : Attempt
  probe : Probe
  tried : List Tried := []
  reports : List Bool := []
  effects : List Effect := []

inductive CheckAct where
  /-- the rest of the engine, and time -/
  | others (change : Shared → Shared)
  | net (input : ProbeInput)
  | cancelled
  | slept
  | go

namespace Check

def init (sh : Shared) (entry : PendingEntry) (probe : Bool) : Check where
  sh := sh
  attempt := ⟨entry, probe, .start⟩
  probe := .connecting sh.clock

def reported : Phase → List Bool
  | .report usable _ => [usable]
  | _ => []

def advance (cfg : ServerConfig) (tok : Token) (s : Check) (input : RunInput) : Option Check := do
  let (phase, eff) ← s.attempt.next cfg s.sh tok input
  let s' := { s with sh := s.sh.apply eff, attempt := { s.attempt with phase }
                     reports := s.reports ++ reported s.attempt.phase, effects := s.effects ++ [eff] }
  some (match phase with
    | .preflight _ _ => { s' with probe := .connecting s.sh.clock, tried := s.tried ++ [⟨s.sh.clock, []⟩] }
    | _ => s')

/-- The attempt that is under way has one more input. -/
def record (tried : List Tried) (input : ProbeInput × ℕ) : List Tried :=
  match tried.getLast? with
  | some t => tried.dropLast ++ [{ t with inputs := t.inputs ++ [input] }]
  | none => tried

def step (crate : Crate) (cfg : ServerConfig) (tok : Token) (s : Check) : CheckAct → Option Check
  | .others change =>
    if s.sh.clock ≤ (change s.sh).clock then some { s with sh := change s.sh } else none
  | .net input =>
    match s.attempt.phase with
    | .preflight _ _ => do
      let probe ← s.probe.next crate cfg.netCheck s.sh.clock input
      let s' := { s with probe, tried := record s.tried (input, s.sh.clock) }
      match probe.result? with
      | some r => s'.advance cfg tok (.probe r)
      | none => some s'
    | _ => none
  | .cancelled => s.advance cfg tok .cancelled
  | .slept => s.advance cfg tok .slept
  | .go => s.advance cfg tok .go

end Check

end Kutsu
