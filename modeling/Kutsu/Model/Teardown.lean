import Kutsu.Model.Talk

/-! The teardown of a talk (`run_call`, step 8 on): the talk with the two channels by which `run_call`
reaches the driver, and what `run_call` does from the end of its loop until it returns. -/

namespace Kutsu

open Pipes

/-- Where `run_call` is: in its loop or the drain, at a statement of the teardown, or past both joins. -/
inductive TeardownPc where
  | talking
  | sipHangup
  | geminiHangup
  | bridgeCancel
  | joinBridge
  | joinDriver
  | joined
  deriving DecidableEq

def TeardownPc.cancelSent : TeardownPc → Bool
  | .joinBridge | .joinDriver | .joined => true
  | _ => false

/-- `hangups` counts what is queued in the hangup channel. -/
structure CallTeardown (V : Type) where
  talk : Talk V
  pc : TeardownPc := .talking
  text : Pipe String := {}
  hangups : ℕ := 0

inductive TeardownAct where
  | talk (act : TalkAct)
  | textSend
  | teardown
  | rest (input : RunInput)

def TEXT_CAPACITY : ℕ := 4

def HANGUP_CAPACITY : ℕ := 1

namespace CallTeardown

variable {V : Type}

def init (su : Setup V) (sh : Shared) (entry : PendingEntry) (probe : Bool) (vad : V) : CallTeardown V where
  talk := Talk.init su sh entry probe vad

def cues (su : Setup V) (s : CallTeardown V) (arm : EngineArm) : List String :=
  match s.talk.attempt.phase, s.talk.engineInput arm with
  | .live v, some (.loop i) => (v.react su.cfg s.talk.attempt.id s.talk.sh.clock i).cues
  | _, _ => []

/-- What the channels between the parties let them do. `run_call` waits for its cues to be sent; the
driver is fed by the bridge until that returns, and `run_call` keeps its ends of the other two. -/
def allows (s : CallTeardown V) : TalkAct → Bool
  | .engine _ => s.text.waiting.isEmpty
  | .driver (.text cue) => s.text.queued.head? = some cue
  | .driver .textClosed => false
  | .driver .hangup => 0 < s.hangups
  | .driver .audioClosed => s.talk.bridgeEnd.isSome
  | .bridge .cancel => s.pc.cancelSent
  | _ => true

def after (su : Setup V) (s : CallTeardown V) (act : TalkAct) (talk : Talk V) : CallTeardown V :=
  match act with
  | .engine arm =>
    { s with talk, text := s.text.offer (s.cues su arm)
             pc := if talk.attempt.phase.talks then .talking else .sipHangup }
  | .driver (.text _) => { s with talk, text := (s.text.recv.map Prod.snd).getD s.text }
  | .driver .hangup => { s with talk, hangups := s.hangups - 1 }
  | _ => { s with talk }

def advance (su : Setup V) (s : CallTeardown V) (input : RunInput) : Option (CallTeardown V) := do
  let (phase, eff) ← s.talk.attempt.next su.cfg s.talk.sh su.tok input
  some { s with pc := .joined
                talk := { s.talk with sh := s.talk.sh.apply eff, attempt := { s.talk.attempt with phase } } }

/-- The next statement of the teardown. The hangup is not sent to a driver that is gone. -/
def teardown (su : Setup V) (s : CallTeardown V) : Option (CallTeardown V) :=
  match s.pc with
  | .sipHangup => some { s with pc := .geminiHangup }
  | .geminiHangup =>
    if s.talk.driverGone then some { s with pc := .bridgeCancel }
    else if s.hangups < HANGUP_CAPACITY then some { s with pc := .bridgeCancel, hangups := s.hangups + 1 }
    else none
  | .bridgeCancel => some { s with pc := .joinBridge }
  | .joinBridge => if s.talk.bridgeEnd.isSome then some { s with pc := .joinDriver } else none
  | .joinDriver =>
    match s.talk.driver.status with
    | .returned o => if s.talk.geminiEvents.waiting.isEmpty then s.advance su (.joined o) else none
    | .looping _ => none
  | .talking | .joined => none

/-- A panic is left out. -/
def step (su : Setup V) (s : CallTeardown V) : TeardownAct → Option (CallTeardown V)
  | .talk act => if s.allows act then (s.talk.step su act).map (s.after su act) else none
  | .textSend =>
    (if s.talk.driverGone then s.text.discard else s.text.accept TEXT_CAPACITY).map fun text => { s with text }
  | .teardown => s.teardown su
  | .rest .panic => none
  | .rest input => if s.pc = .joined then s.advance su input else none

end CallTeardown

end Kutsu
