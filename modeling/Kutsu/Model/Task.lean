import Kutsu.Model.Engine

/-! `place_call` and its MCP task (`mcp.rs`) over the engine. The task manager is a third party's: a
task is swept when its `ttl_ms` has passed since it was made. How long a task's call has not been
talking is a history that the code does not keep. -/

namespace Kutsu

structure PlaceCallArgs where
  toNumber : String
  goalSchema : Json
  context : Option Json := none
  promptOverride : Option String := none
  scheduleAt : Option ℕ := none
  clientRef : Option String := none

/-- The TTL of the task, in a `u64`. -/
def taskTtlMs (cfg : ServerConfig) : ℕ := (cfg.maxCallSecs * 1000 + 30000) % UInt64.size

structure CallTask where
  callId : CallId
  createdMs : ℕ
  ttlMs : ℕ
  offMs : ℕ := 0

/-- A `place_call_inner` that waits for `place_call_at`, and the place of its caller. -/
structure PlaceRequest where
  i : ℕ
  scheduled : Bool
  clientSupportsTasks : Bool

structure Mcp where
  sys : Sys
  requests : List PlaceRequest := []
  tasks : List CallTask := []

inductive McpAct where
  | engine (a : Act)
  | placeCall (a : PlaceCallArgs) (clientSupportsTasks : Bool)
  | respond (j : ℕ)

namespace Sys

def unended (s : Sys) (id : CallId) : Bool := (s.sh.store.get id).any fun r => r.state ≠ .ended

def talking (s : Sys) (id : CallId) : Bool := s.attempts.any fun a => a.id = id ∧ a.phase matches .live _

end Sys

/-- The time the step takes counts as off where the call is neither ended nor talking. -/
def CallTask.pass (s s' : Sys) (t : CallTask) : CallTask :=
  if s.unended t.callId && !s.talking t.callId then { t with offMs := t.offMs + (s'.sh.clock - s.sh.clock) } else t

namespace Mcp

def init (cfg : ServerConfig) (clock : ℕ) : Mcp := { sys := Sys.init cfg clock }

/-- The task is swept to `failed` while its call goes on. -/
def Swept (w : Mcp) (t : CallTask) : Prop :=
  w.sys.unended t.callId = true ∧ t.createdMs + t.ttlMs < w.sys.sh.clock

/-- Time does not run backwards here. A request without a number is refused. -/
def step (cfg : ServerConfig) (w : Mcp) : McpAct → Option Mcp
  | .engine a => do
    let sys ← w.sys.step cfg a
    if w.sys.sh.clock ≤ sys.sh.clock then some { w with sys, tasks := w.tasks.map (.pass w.sys sys) } else none
  | .placeCall a clientSupportsTasks =>
    if (trim a.toNumber).isEmpty then some w
    else do
      let now := w.sys.sh.clock
      let eligible := (a.scheduleAt.filter fun t => now < t).getD now
      let sys ← w.sys.step cfg
        (.place a.toNumber ⟨a.goalSchema, a.context, a.promptOverride⟩ eligible 1 a.clientRef)
      some { w with sys, requests := w.requests ++ [⟨w.sys.placing.length, now < eligible, clientSupportsTasks⟩] }
  | .respond j => do
    let r ← w.requests[j]?
    let p ← w.sys.placing[r.i]?
    if p.pc ≠ .done then none
    else
      let requests := w.requests.eraseIdx j
      if r.scheduled || !r.clientSupportsTasks then some { w with requests }
      else
        some { w with requests, tasks := w.tasks ++ [⟨p.entry.callId, w.sys.sh.clock, taskTtlMs cfg, 0⟩] }

end Mcp

end Kutsu
