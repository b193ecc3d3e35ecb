import Kutsu.Model.RunCall

/-! The engine (`engine.rs`): callers placing and ending calls, the dispatcher, and the
attempts it has spawned, in any interleaving. -/

namespace Kutsu

/-- Where `place_call_at` is. -/
inductive PlacePc where
  | insert
  | count
  | push
  | wake
  | done
  deriving DecidableEq

structure Placing where
  entry : PendingEntry
  clientRef : Option String
  pc : PlacePc

/-- Where `end_call` is: cancelling a queued call, signalling an attempt, or done. -/
inductive EndPc where
  | finalize
  | bump (d : Disposition)
  | send (tok : Token)
  | returned (accepted : Bool)
  deriving DecidableEq

structure Ender where
  id : CallId
  pc : EndPc

/-- Where the dispatcher is. It holds the queue's lock from `capCheck` to `claim`. -/
inductive DispPc where
  | lock
  | capCheck
  | readClock
  | decide (now : ℕ)
  | pop (now : ℕ) (probe : Bool)
  | register (e : PendingEntry) (now : ℕ) (probe : Bool)
  | claim (tok : Token) (now : ℕ) (probe : Bool)
  | mark (tok : Token) (now : ℕ)
  | setRinging (tok : Token)
  | spawn (tok : Token)
  | readRunning (breakerHold : Option ℕ)
  | peek (breakerHold : Option ℕ)
  | arm (sleepUntil : Option ℕ)
  | parked (timer : Option ℕ)

def DispPc.locked : DispPc → Bool
  | .capCheck | .readClock | .decide _ | .pop _ _ | .register _ _ _ | .claim _ _ _ => true
  | _ => false

/-- The soonest of the next eligibility and the end of the breaker's hold. -/
def sleepUntil : Option ℕ → Option ℕ → Option ℕ
  | some a, some b => some (min a b)
  | some a, none => some a
  | none, b => b

structure Sys where
  sh : Shared
  disp : DispPc := .lock
  attempts : List Attempt := []
  placing : List Placing := []
  enders : List Ender := []

inductive Act where
  | tick (now : ℕ)
  | place (number : String) (scenario : ScenarioConfig) (eligibleAtMs attempt : ℕ)
      (clientRef : Option String)
  | placing (i : ℕ)
  | dispatch
  | timer
  | run (tok : Token) (input : RunInput)
  | endCall (id : CallId)
  | ender (i : ℕ)

def Placing.record (p : Placing) (now : ℕ) : CallRecord where
  callId := p.entry.callId
  number := p.entry.number
  state := .queued
  transcript := []
  affect := []
  goal := none
  error := none
  startedMs := now
  endedMs := none
  quality := {}
  disposition := none
  attempt := p.entry.attempt
  clientRef := p.clientRef

def Placing.next (p : Placing) (now : ℕ) : Option (PlacePc × Effect) :=
  match p.pc with
  | .insert => some (.count, .store (.insert (p.record now)))
  | .count => some (.push, .countPlaced)
  | .push => some (.wake, .push p.entry)
  | .wake => some (.done, .notify)
  | .done => none

/-- How `end_call` finalizes a call it has taken out of the queue. -/
def queuedClosing : Closing where
  cancelled := true
  shape := ⟨false, 0, 0, .callerHangup⟩

def Ender.next (d : Ender) (sh : Shared) : Option (EndPc × Effect) :=
  match d.pc with
  | .finalize =>
    some (.bump queuedClosing.disposition, .finalize (queuedClosing.ending d.id sh.clock))
  | .bump disposition => some (.returned true, .bump d.id disposition)
  | .send tok => some (.returned (sh.hears tok), .send tok d.id)
  | .returned _ => none

/-- `end_call` up to the release of the queue's lock. -/
def Shared.endCall (sh : Shared) (id : CallId) : EndPc × Effect :=
  match sh.queue.remove id with
  | some (e, rest) => (.finalize, .remove e rest)
  | none =>
    match sh.cancels.lookup id with
    | some tok => (.send tok, .takeSender tok id)
    | none => (.returned false, .noSender id)

namespace Sys

def init (cfg : ServerConfig) (clock : ℕ) : Sys := { sh := Shared.init cfg clock }

/-- The effects that take the queue's lock. -/
def lockFree (s : Sys) : Effect → Bool
  | .push _ => !s.disp.locked
  | _ => true

def idOf (s : Sys) (tok : Token) : CallId := (s.attempts[tok]?.map (·.id)).getD ""

def setPhase (s : Sys) (tok : Token) (phase : Phase) : List Attempt :=
  s.attempts.modify tok fun a => { a with phase }

/-- The dispatcher's next step. It is not enabled when parked without a permit. -/
def dispatch (cfg : ServerConfig) (s : Sys) : Option Sys :=
  match s.disp with
  | .lock => some { s with disp := .capCheck }
  | .capCheck =>
    if cfg.maxConcurrentChannels ≤ s.sh.running then some { s with disp := .readRunning none }
    else some { s with disp := .readClock }
  | .readClock => some { s with disp := .decide s.sh.clock }
  | .decide now =>
    match s.sh.breaker.decision now with
    | .dispatch => some { s with disp := .pop now false }
    | .probe => some { s with disp := .pop now true }
    | .hold untilMs => some { s with disp := .readRunning (some untilMs) }
  | .pop now probe =>
    match s.sh.queue.popEligible now with
    | some (e, rest) =>
      some { s with disp := .register e now probe, sh := s.sh.apply (.pop now e rest) }
    | none => some { s with disp := .readRunning none }
  | .register e now probe =>
    some { s with disp := .claim s.attempts.length now probe
                  attempts := s.attempts ++ [⟨e, probe, .registered⟩]
                  sh := s.sh.apply (.register e.callId) }
  | .claim tok now probe =>
    some { s with disp := if probe then .mark tok now else .setRinging tok
                  attempts := s.setPhase tok .claimed
                  sh := s.sh.apply .claimSlot }
  | .mark tok now =>
    some { s with disp := .setRinging tok
                  sh := s.sh.apply (.markProbe now (preflightMaxWindowMs cfg.netCheck)) }
  | .setRinging tok =>
    some { s with disp := .spawn tok, attempts := s.setPhase tok .rung
                  sh := s.sh.apply (.store (.setState (s.idOf tok) .ringing)) }
  | .spawn tok => some { s with disp := .lock, attempts := s.setPhase tok .start }
  | .readRunning hold =>
    if s.sh.running < cfg.maxConcurrentChannels then some { s with disp := .peek hold }
    else some { s with disp := .arm (sleepUntil none hold) }
  | .peek hold => some { s with disp := .arm (sleepUntil s.sh.queue.peekNextEligibleAt hold) }
  | .arm target => some { s with disp := .parked (target.map fun t => max t s.sh.clock) }
  | .parked _ =>
    if s.sh.permit then some { s with disp := .lock, sh := s.sh.apply .consume } else none

def step (cfg : ServerConfig) (s : Sys) : Act → Option Sys
  | .tick now => some { s with sh := { s.sh with clock := now } }
  | .place number scenario eligibleAtMs attempt clientRef =>
    some { s with
      sh := s.sh.apply .mint
      placing := s.placing ++
        [⟨⟨callId s.sh.seq, number, scenario, eligibleAtMs, attempt⟩, clientRef, .insert⟩] }
  | .placing i => do
    let p ← s.placing[i]?
    let (pc, eff) ← p.next s.sh.clock
    if s.lockFree eff then
      some { s with sh := s.sh.apply eff, placing := s.placing.set i { p with pc } }
    else none
  | .dispatch => s.dispatch cfg
  | .timer =>
    match s.disp with
    | .parked (some t) => if t ≤ s.sh.clock then some { s with disp := .lock } else none
    | _ => none
  | .run tok input => do
    let a ← s.attempts[tok]?
    let (phase, eff) ← a.next cfg s.sh tok input
    if s.lockFree eff then
      some { s with sh := s.sh.apply eff, attempts := s.attempts.set tok { a with phase } }
    else none
  | .endCall id =>
    if s.disp.locked then none
    else some { s with sh := s.sh.apply (s.sh.endCall id).2
                       enders := s.enders ++ [⟨id, (s.sh.endCall id).1⟩] }
  | .ender i => do
    let d ← s.enders[i]?
    let (pc, eff) ← d.next s.sh
    some { s with sh := s.sh.apply eff, enders := s.enders.set i { d with pc } }

end Sys

end Kutsu
