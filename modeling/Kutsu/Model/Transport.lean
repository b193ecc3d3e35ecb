import Kutsu.Model.SipCall

/-! The SIP transport (`sip/mod.rs`): the runtime thread with the calls that run on it as local tasks, and those who
ask it for one (`place_call`). The endpoint is bound and the REGISTER, if there is one, is done. -/

namespace Kutsu

open Pipes

/-- What the thread is sent; the ticket is the caller who holds the other end of `reply`. -/
inductive Cmd where
  | place (number : String) (ticket : ℕ)
  | shutdown

def Cmd.ticket? : Cmd → Option ℕ
  | .place _ ticket => some ticket
  | .shutdown => none

/-- A future of `place_call`: sending its command, waiting for the reply, over, or dropped before it was. -/
inductive CallerPc where
  | sending
  | waiting
  | told (reply : Except SipError String)
  | dropped

def CallerPc.asks : CallerPc → Bool
  | .sending | .waiting => true
  | _ => false

structure Caller where
  number : String
  pc : CallerPc := .sending

/-- A local task of the thread: `run_call` for one caller. -/
structure RunningCall where
  number : String
  ticket : ℕ
  call : SipCall

/-- The thread has left its loop when it is stopping, dropped the receiver when it is deaf and its tasks when it has
ended. -/
inductive ThreadPc where
  | serving
  | stopping
  | deaf
  | ended
  deriving DecidableEq

def ThreadPc.listens : ThreadPc → Bool
  | .serving | .stopping => true
  | _ => false

def CMD_CAPACITY : ℕ := 16

def sipCallId (n : ℕ) : String := "kutsu-" ++ toString n

/-- `transport` is whether a handle is left. The calls that have come to their end, and those that were cut short by a
panic or by the end of the thread, are kept for the record. -/
structure SipThread where
  pc : ThreadPc := .serving
  cmds : Pipe Cmd := {}
  callers : List Caller := []
  transport : Bool := true
  seq : ℕ := 0
  calls : List RunningCall := []
  active : ℕ := 0
  finished : List RunningCall := []
  lost : List RunningCall := []

inductive ThreadAct where
  /-- the callers and the transport's other users -/
  | place (number : String)
  | send (ticket : ℕ)
  | giveUp (ticket : ℕ)
  | shutdown
  | dropTransport
  /-- the thread -/
  | recv
  | call (i : ℕ) (now : ℕ) (input : CallInput)
  | finish (i : ℕ)
  | panicked (i : ℕ)
  | dropReceiver
  | dropTasks

def Caller.tell (reply : Except SipError String) (c : Caller) : Caller :=
  if c.pc.asks then { c with pc := .told reply } else c

namespace SipThread

/-- These callers hear `reply`, if they still wait for it. -/
def tell (s : SipThread) (tickets : List ℕ) (reply : Except SipError String) : SipThread :=
  { s with callers := s.callers.mapIdx fun ticket c => if ticket ∈ tickets then c.tell reply else c }

/-- Whoever sends to a thread that is gone is told at once. -/
def place (s : SipThread) (number : String) : Option SipThread :=
  if s.transport then
    let pc := if s.pc.listens then .sending else .told (.error .runtimeGone)
    some { s with callers := s.callers ++ [{ number, pc }] }
  else none

/-- The channel has room for a command that waits for it; tokio does not promise which. -/
def send (s : SipThread) (ticket : ℕ) : Option SipThread := do
  let c ← s.callers[ticket]?
  match c.pc with
  | .sending =>
    if s.cmds.queued.length < CMD_CAPACITY then
      some { s with cmds := s.cmds.trySend CMD_CAPACITY (.place c.number ticket)
                    callers := s.callers.set ticket { c with pc := .waiting } }
    else none
  | _ => none

def giveUp (s : SipThread) (ticket : ℕ) : Option SipThread := do
  let c ← s.callers[ticket]?
  if c.pc.asks then some { s with callers := s.callers.set ticket { c with pc := .dropped } } else none

def shutdown (s : SipThread) : Option SipThread :=
  if s.transport ∧ s.pc.listens ∧ s.cmds.queued.length < CMD_CAPACITY then
    some { s with cmds := s.cmds.trySend CMD_CAPACITY .shutdown }
  else none

/-- The last handle; whoever asks for a call borrows one. -/
def dropTransport (s : SipThread) : Option SipThread :=
  if s.callers.all fun c => !c.pc.asks then some { s with transport := false } else none

def recv (s : SipThread) : Option SipThread :=
  if s.pc = .serving then
    match s.cmds.recv with
    | some (.place number ticket, cmds) =>
      some { s with cmds, seq := s.seq + 1, active := s.active + 1
                    calls := s.calls ++ [{ number, ticket, call := { callId := sipCallId (s.seq + 1) } }] }
    | some (.shutdown, cmds) => some { s with cmds, pc := .stopping }
    | none => if s.transport then none else some { s with pc := .stopping }
  else none

/-- The handle is taken by a caller who still waits for it. -/
def lets (s : SipThread) (ticket : ℕ) : CallInput → Bool
  | .replied taken => taken == ((s.callers[ticket]?).any fun c => c.pc.asks)
  | _ => true

/-- A step of one of the calls; if it replies, its caller hears of it. -/
def call (s : SipThread) (i now : ℕ) (input : CallInput) : Option SipThread := do
  let r ← s.calls[i]?
  if s.pc = .serving ∧ s.lets r.ticket input then
    let call ← r.call.step (now, input)
    let s' := { s with calls := s.calls.set i { r with call } }
    some (match r.call.reply, call.reply with
      | none, some reply => s'.tell [r.ticket] (reply.map fun _ => call.callId)
      | _, _ => s')
  else none

def finish (s : SipThread) (i : ℕ) : Option SipThread := do
  let r ← s.calls[i]?
  match s.pc, r.call.pc with
  | .serving, .returned =>
    some { s with active := s.active - 1, calls := s.calls.eraseIdx i, finished := s.finished ++ [r] }
  | _, _ => none

def unreplied (calls : List RunningCall) : List ℕ :=
  (calls.filter fun r => r.call.reply.isNone).map (·.ticket)

/-- A task that panics drops what it holds; the count of active calls is left as it is. -/
def panicked (s : SipThread) (i : ℕ) : Option SipThread := do
  let r ← s.calls[i]?
  match s.pc, r.call.pc with
  | _, .returned => none
  | .serving, _ =>
    some ({ s with calls := s.calls.eraseIdx i, lost := s.lost ++ [r] }.tell (unreplied [r]) (.error .runtimeGone))
  | _, _ => none

def senders (s : SipThread) : List ℕ :=
  (List.range s.callers.length).filter fun ticket => (s.callers[ticket]?).any fun c => c.pc matches .sending

/-- The commands that are still in the channel go with the receiver, and nobody can send any more. -/
def dropReceiver (s : SipThread) : Option SipThread :=
  if s.pc = .stopping then
    some ({ s with pc := .deaf, cmds := { s.cmds with queued := [] } }.tell
      (s.cmds.queued.filterMap Cmd.ticket? ++ s.senders) (.error .runtimeGone))
  else none

def dropTasks (s : SipThread) : Option SipThread :=
  if s.pc = .deaf then
    some ({ s with pc := .ended, calls := [], lost := s.lost ++ s.calls }.tell (unreplied s.calls)
      (.error .runtimeGone))
  else none

def step (s : SipThread) : ThreadAct → Option SipThread
  | .place number => s.place number
  | .send ticket => s.send ticket
  | .giveUp ticket => s.giveUp ticket
  | .shutdown => s.shutdown
  | .dropTransport => s.dropTransport
  | .recv => s.recv
  | .call i now input => s.call i now input
  | .finish i => s.finish i
  | .panicked i => s.panicked i
  | .dropReceiver => s.dropReceiver
  | .dropTasks => s.dropTasks

end SipThread

end Kutsu
