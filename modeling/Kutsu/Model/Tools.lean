import Kutsu.Model.Task

/-! The tools that read and end calls, and the futures of the tasks (`mcp.rs`). A request reads the store, the
queue and the clock one after the other. The records that were read, in this order, are a history that the code
does not keep; the status messages of a task are left out. -/

namespace Kutsu

def Disposition.name : Disposition → String
  | .completed => "completed"
  | .voicemail => "voicemail"
  | .announcement => "announcement"
  | .ivr => "ivr"
  | .hold => "hold"
  | .busy => "busy"
  | .noAnswer => "no_answer"
  | .rejected => "rejected"
  | .notFound => "not_found"
  | .unavailable => "unavailable"
  | .failed => "failed"
  | .cancelled => "cancelled"

inductive TaskExit where
  | cancelled
  | error (message : String) (data : Option (CallId × Option String))

structure TaskResult where
  disposition : Option Disposition := none
  transcript : List TranscriptEntry
  goal : Option Json
  clientRef : Option String
  serverTimeUnix : ℕ

/-- What a finished call's record makes of its task. -/
def taskResultFor (serverTimeUnix : ℕ) (rec : Option CallRecord) : Except TaskExit TaskResult :=
  match rec with
  | none => .error (.error "call ended with no disposition" none)
  | some r =>
    match r.disposition with
    | none => .error (.error "call ended with no disposition" none)
    | some .completed => .ok { transcript := r.transcript, goal := r.goal, clientRef := r.clientRef, serverTimeUnix }
    | some .voicemail | some .announcement | some .ivr | some .hold =>
      .ok { disposition := r.disposition, transcript := r.transcript, goal := r.goal, clientRef := r.clientRef
            serverTimeUnix }
    | some .cancelled => .error .cancelled
    | some d => .error (.error (r.error.getD ("call ended: " ++ d.name)) (some (r.callId, r.clientRef)))

/-- `ended`: the watcher has seen the call end, and the record is read once more. -/
structure TaskFuture where
  callId : CallId
  ended : Bool := false
  result : Option (Except TaskExit TaskResult) := none

def unknownCall (id : CallId) : String := "unknown call_id: " ++ id

/-- What a client is told; `get_call_status` shows the record's fields but its transcript and its affect, and
`get_call_transcript` the transcript. -/
inductive Answer where
  | error (message : String)
  | status (id : CallId) (rec : CallRecord) (queuedPosition : Option ℕ) (serverTimeUnix : ℕ)
  | transcript (id : CallId) (rec : CallRecord)
  | signalled (id : CallId) (accepted : Bool)

inductive Request where
  | status (id : CallId) (rec : CallRecord)
  | ending (id : CallId)
  | ended (id : CallId) (i : ℕ)

structure Tools where
  mcp : Mcp
  futures : List TaskFuture := []
  requests : List Request := []
  answers : List Answer := []
  seen : List (CallId × Option CallRecord) := []

inductive ToolAct where
  | mcp (a : McpAct)
  | getCallStatus (id : CallId)
  | getCallTranscript (id : CallId)
  | endCall (id : CallId)
  /-- the request goes on -/
  | request (k : ℕ)
  /-- the task's watcher looks at the store -/
  | watch (i : ℕ)
  | finish (i : ℕ)
  /-- the client cancels the task -/
  | cancel (i : ℕ)

namespace Tools

def init (cfg : ServerConfig) (clock : ℕ) : Tools := { mcp := Mcp.init cfg clock }

def clock (w : Tools) : ℕ := w.mcp.sys.sh.clock

def get (w : Tools) (id : CallId) : Option CallRecord := w.mcp.sys.sh.store.get id

def read (w : Tools) (id : CallId) : Tools := { w with seen := w.seen ++ [(id, w.get id)] }

def answer (w : Tools) (a : Answer) : Tools := { w with answers := w.answers ++ [a] }

def begin (w : Tools) (r : Request) : Tools := { w with requests := w.requests ++ [r] }

def setFuture (w : Tools) (i : ℕ) (t : TaskFuture) : Tools := { w with futures := w.futures.set i t }

def spawned (w : Tools) (mcp : Mcp) : List TaskFuture :=
  (mcp.tasks.drop w.mcp.tasks.length).map fun t => { callId := t.callId }

def step (cfg : ServerConfig) (w : Tools) : ToolAct → Option Tools
  | .mcp a => (w.mcp.step cfg a).map fun mcp => { w with mcp, futures := w.futures ++ w.spawned mcp }
  | .getCallStatus id =>
    some (match w.get id with
      | some rec => (w.read id).begin (.status id rec)
      | none => (w.read id).answer (.error (unknownCall id)))
  | .getCallTranscript id =>
    some ((w.read id).answer (match w.get id with
      | some rec => .transcript id rec
      | none => .error (unknownCall id)))
  | .endCall id =>
    some (match w.get id with
      | some _ => (w.read id).begin (.ending id)
      | none => (w.read id).answer (.error (unknownCall id)))
  | .request k => do
    let r ← w.requests[k]?
    let rest := { w with requests := w.requests.eraseIdx k }
    match r with
    | .status id rec => some (rest.answer (.status id rec (w.mcp.sys.sh.queue.position id) w.clock))
    | .ending id => do
      let sys ← w.mcp.sys.step cfg (.endCall id)
      some { rest.begin (.ended id w.mcp.sys.enders.length) with mcp := { w.mcp with sys } }
    | .ended id i => do
      let d ← w.mcp.sys.enders[i]?
      match d.pc with
      | .returned accepted => some (rest.answer (.signalled id accepted))
      | _ => none
  | .watch i => do
    let t ← w.futures[i]?
    if t.ended || t.result.isSome then none
    else
      let ended := (w.get t.callId).any fun r => r.state = .ended
      some ((w.read t.callId).setFuture i { t with ended })
  | .finish i => do
    let t ← w.futures[i]?
    if t.ended && t.result.isNone then
      some ((w.read t.callId).setFuture i { t with result := some (taskResultFor w.clock (w.get t.callId)) })
    else none
  | .cancel i => do
    let t ← w.futures[i]?
    if t.ended || t.result.isSome then none
    else do
      let sys ← w.mcp.sys.step cfg (.endCall t.callId)
      some { w.setFuture i { t with result := some (.error .cancelled) } with mcp := { w.mcp with sys } }

end Tools

end Kutsu
