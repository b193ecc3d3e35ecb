import Kutsu.Lib.Wire

/-! The two ends of an INVITE transaction over UDP (`client_inv.rs` and `server_inv.rs` of the vendored SIP core),
each with its registration at its endpoint (`registration.rs`, `Endpoint::do_receive`), and the network between
them. Who calls them may do so at any time. What a response says is a parameter; `received`, `results`, `invites`,
`resent` and what the wires have sent are histories that the code does not keep. -/

namespace Kutsu

open Wires

def T1 : ℕ := 500

def T2 : ℕ := 4000

inductive CodeKind where
  | provisional
  | success
  | failure
  deriving DecidableEq

/-- A request with the branch of the transaction; `create_ack` takes the `To` header from the response. -/
inductive TsxRequest (R : Type) where
  | invite
  | ack (response : R)

inductive ClientInvState where
  | init
  | proceeding
  | accepted
  | completed
  | terminated
  deriving DecidableEq

/-- Where `receive` is: at the head of its loop with the time to wait, waiting for it, or for the timeout only. -/
inductive ReceivePc where
  | idle
  | top (n : ℕ)
  | wait (n deadline : ℕ)
  | plain
  deriving DecidableEq

structure ClientInvTsx where
  state : ClientInvState := .init
  timeout : ℕ
  pc : ReceivePc := .idle
  dropped : Bool := false

/-- Who has the client's registration; the task keeps it to send the `ACK` again. -/
inductive Keeper (R : Type) where
  | tsx
  | task (response : R) (timeout : ℕ)
  | gone

inductive Received (R : Type) where
  | response (r : R)
  | timedOut
  | io
  | ended

/-- What is done with a request that made a registration: the transaction's user has not answered it for good,
it waits for the `ACK`, it has accepted, or an `ACK` that belongs to no transaction is handed around. -/
inductive ServerPc (R : Type) where
  | unanswered
  | failing (response : R) (abandonRetransmit retransmitDelta retransmit : ℕ)
  | accepted (response : R)
  | stray

structure ServerInvTsx (R : Type) where
  pc : ServerPc R
  inbox : List (TsxRequest R) := []
  resent : ℕ := 0

inductive Responded where
  | ok
  | timedOut
  | io
  deriving DecidableEq

structure InviteTsx (R : Type) where
  clock : ℕ
  client : ClientInvTsx
  keeper : Keeper R := .tsx
  inbox : List R := []
  received : List (ℕ × Received R) := []
  server : Option (ServerInvTsx R) := none
  results : List Responded := []
  invites : List ℕ
  up : Wire (TsxRequest R)
  down : Wire R := {}

/-- `sent` says whether the socket takes what is sent in the step. -/
inductive TsxAct (R : Type) where
  | tick (now : ℕ)
  /-- the client's user calls `receive`, polls it, drops it while it waits, or drops the transaction -/
  | call
  | poll (sent : Bool)
  | abort
  | dropClient
  | keep (sent : Bool)
  | toClient (i : ℕ) (keep : Bool)
  | loseDown (i : ℕ)
  | toServer (i : ℕ) (keep : Bool)
  | loseUp (i : ℕ)
  /-- the server's user responds, or drops what it has -/
  | provisional (r : R) (sent : Bool)
  | failure (r : R) (sent : Bool)
  | success (r : R) (sent : Bool)
  | retransmit (sent : Bool)
  | dropServer
  | serverPoll (sent : Bool)

namespace InviteTsx

variable {R : Type} (kind : R → CodeKind)

/-- `ClientInvTsx::send` -/
def start (t₀ : ℕ) : InviteTsx R where
  clock := t₀
  client := { timeout := t₀ + T1 * 64 }
  invites := [t₀]
  up := ({} : Wire (TsxRequest R)).send .invite

def setPc (s : InviteTsx R) (pc : ReceivePc) : InviteTsx R := { s with client := { s.client with pc } }

def ret (s : InviteTsx R) (x : Received R) : InviteTsx R :=
  { s.setPc .idle with received := s.received ++ [(s.clock, x)] }

def handleMsg (s : InviteTsx R) (r : R) (sent : Bool) : InviteTsx R :=
  match kind r with
  | .provisional =>
    { s with client := { s.client with timeout := s.clock + T1 * 240, state := .proceeding } }.ret (.response r)
  | .success =>
    { s with client := { s.client with timeout := s.clock + T1 * 64, state := .accepted } }.ret (.response r)
  | .failure =>
    if sent then
      { s with up := s.up.send (.ack r)
               client := { s.client with state := .completed }
               keeper := .task r (s.clock + 32000) }.ret (.response r)
    else { s with keeper := .gone, inbox := [] }.ret .io

def call (s : InviteTsx R) : Option (InviteTsx R) :=
  if s.client.pc = .idle ∧ s.client.dropped = false then
    match s.keeper, s.client.state with
    | .tsx, .init => some (s.setPc (.top T1))
    | .tsx, .proceeding | .tsx, .accepted => some (s.setPc .plain)
    | _, _ => some (s.ret .ended)
  else none

/-- Of two timers the inner one is looked at first. -/
def poll (s : InviteTsx R) (sent : Bool) : Option (InviteTsx R) :=
  match s.client.pc, s.inbox with
  | .idle, _ => none
  | .top _, r :: inbox | .wait _ _, r :: inbox => some ({ s with inbox }.handleMsg kind r sent)
  | .top n, [] =>
    if s.client.timeout ≤ s.clock then some (s.ret .timedOut) else some (s.setPc (.wait n (s.clock + n)))
  | .wait n deadline, [] =>
    if deadline ≤ s.clock then
      if sent then
        some { s.setPc (.top (n * 2)) with invites := s.invites ++ [s.clock], up := s.up.send .invite }
      else some (s.ret .io)
    else if s.client.timeout ≤ s.clock then some (s.ret .timedOut)
    else none
  | .plain, r :: inbox =>
    if s.client.state = .accepted then some ({ s with inbox }.ret (.response r))
    else some ({ s with inbox }.handleMsg kind r sent)
  | .plain, [] =>
    if s.client.timeout ≤ s.clock then
      if s.client.state = .accepted then
        some ({ s with client := { s.client with state := .terminated } }.ret .ended)
      else some (s.ret .timedOut)
    else none

def dropClient (s : InviteTsx R) : Option (InviteTsx R) :=
  if s.client.pc = .idle ∧ s.client.dropped = false then
    let s := { s with client := { s.client with dropped := true } }
    match s.keeper with
    | .tsx => some { s with keeper := .gone, inbox := [] }
    | _ => some s
  else none

/-- The task that was spawned when the transaction was completed. -/
def keep (s : InviteTsx R) (sent : Bool) : Option (InviteTsx R) :=
  match s.keeper, s.inbox with
  | .task r _, _ :: inbox => some { s with inbox, up := if sent then s.up.send (.ack r) else s.up }
  | .task _ timeout, [] => if timeout ≤ s.clock then some { s with keeper := .gone } else none
  | _, _ => none

/-- The endpoint of the client receives a response. -/
def toClient (s : InviteTsx R) (r : R) : InviteTsx R :=
  match s.keeper with
  | .gone => s
  | _ => { s with inbox := s.inbox ++ [r] }

/-- The endpoint of the server receives a request. An accepted transaction has a filter against `ACK`s. -/
def toServer (s : InviteTsx R) (p : TsxRequest R) : InviteTsx R :=
  match s.server, p with
  | none, .invite => { s with server := some { pc := .unanswered } }
  | none, .ack _ => { s with server := some { pc := .stray } }
  | some ⟨.accepted _, _, _⟩, .ack _ => s
  | some t, p => { s with server := some { t with inbox := t.inbox ++ [p] } }

/-- `respond_failure` returns, and the registration is dropped. -/
def responded (s : InviteTsx R) (x : Responded) : InviteTsx R :=
  { s with server := none, results := s.results ++ [x] }

/-- The loop of `respond_failure`. -/
def serverPoll (s : InviteTsx R) (sent : Bool) : Option (InviteTsx R) := do
  let t ← s.server
  match t.pc, t.inbox with
  | .failing r _ _ _, .invite :: inbox =>
    if sent then some { s with server := some { t with inbox }, down := s.down.send r } else some (s.responded .io)
  | .failing _ _ _ _, .ack _ :: _ => some (s.responded .ok)
  | .failing r abandon delta retransmit, [] =>
    if retransmit ≤ s.clock then
      if abandon < s.clock then some (s.responded .timedOut)
      else if sent then
        let delta := min (delta * 2) T2
        some { s with server := some { t with pc := .failing r abandon delta (s.clock + delta), resent := t.resent + 1 }
                      down := s.down.send r }
      else some (s.responded .io)
    else none
  | _, _ => none

def step (s : InviteTsx R) : TsxAct R → Option (InviteTsx R)
  | .tick now => if s.clock ≤ now then some { s with clock := now } else none
  | .call => s.call
  | .poll sent => s.poll kind sent
  | .abort => if s.client.pc = .idle then none else some (s.setPc .idle)
  | .dropClient => s.dropClient
  | .keep sent => s.keep sent
  | .toClient i keep => do
    let (r, down) ← s.down.arrive i keep
    some ({ s with down }.toClient r)
  | .loseDown i => some { s with down := s.down.lose i }
  | .toServer i keep => do
    let (p, up) ← s.up.arrive i keep
    some ({ s with up }.toServer p)
  | .loseUp i => some { s with up := s.up.lose i }
  | .provisional r sent => do
    let t ← s.server
    match t.pc, kind r with
    | .unanswered, .provisional => some (if sent then { s with down := s.down.send r } else s)
    | _, _ => none
  | .failure r sent => do
    let t ← s.server
    match t.pc, kind r with
    | .unanswered, .failure =>
      if sent then
        some { s with server := some { t with pc := .failing r (s.clock + T1 * 64) T1 (s.clock + T1) }
                      down := s.down.send r }
      else some (s.responded .io)
    | _, _ => none
  | .success r sent => do
    let t ← s.server
    match t.pc, kind r with
    | .unanswered, .success =>
      if sent then some { s with server := some { t with pc := .accepted r }, down := s.down.send r }
      else some { s with server := none }
    | _, _ => none
  | .retransmit sent => do
    let t ← s.server
    match t.pc with
    | .accepted r => some (if sent then { s with down := s.down.send r } else s)
    | _ => none
  | .dropServer => s.server.map fun _ => { s with server := none }
  | .serverPoll sent => s.serverPoll sent

end InviteTsx

end Kutsu
