import Kutsu.Model.Config
import Kutsu.Model.Queue
import Kutsu.Model.Store

/-! What the engine's tasks share (`engine.rs`): the store, the queue, the slot count,
the cancel channels, the counters, the breaker and the dispatcher's wake-up. Each effect
is one access under one lock, or one atomic operation. `log` is a history of what
happened that the code does not keep. -/

namespace Kutsu

/-- A cancel channel as its receiver sees it. -/
inductive Signal where
  | quiet
  | sent
  | dropped
  deriving DecidableEq

structure Chan where
  signal : Signal := .quiet
  receiver : Bool := true
  deriving DecidableEq

/-- The place of an attempt's cancel channel in the list of all channels. -/
abbrev Token := ℕ

structure Counters where
  placed : ℕ := 0
  completed : ℕ := 0
  failed : ℕ := 0
  cancelled : ℕ := 0
  busy : ℕ := 0
  noAnswer : ℕ := 0
  rejected : ℕ := 0
  notFound : ℕ := 0
  unavailable : ℕ := 0
  voicemail : ℕ := 0
  announcement : ℕ := 0
  ivr : ℕ := 0
  hold : ℕ := 0
  underruns : ℕ := 0
  starvedMs : ℕ := 0
  qualityAborted : ℕ := 0
  uplinkReceived : ℕ := 0
  uplinkLost : ℕ := 0
  deriving DecidableEq

namespace Counters

def bumpDisposition (c : Counters) : Disposition → Counters
  | .completed => { c with completed := c.completed + 1 }
  | .voicemail => { c with voicemail := c.voicemail + 1 }
  | .announcement => { c with announcement := c.announcement + 1 }
  | .ivr => { c with ivr := c.ivr + 1 }
  | .hold => { c with hold := c.hold + 1 }
  | .busy => { c with busy := c.busy + 1 }
  | .noAnswer => { c with noAnswer := c.noAnswer + 1 }
  | .rejected => { c with rejected := c.rejected + 1 }
  | .notFound => { c with notFound := c.notFound + 1 }
  | .unavailable => { c with unavailable := c.unavailable + 1 }
  | .failed => { c with failed := c.failed + 1 }
  | .cancelled => { c with cancelled := c.cancelled + 1 }

def ofDisposition (c : Counters) : Disposition → ℕ
  | .completed => c.completed
  | .voicemail => c.voicemail
  | .announcement => c.announcement
  | .ivr => c.ivr
  | .hold => c.hold
  | .busy => c.busy
  | .noAnswer => c.noAnswer
  | .rejected => c.rejected
  | .notFound => c.notFound
  | .unavailable => c.unavailable
  | .failed => c.failed
  | .cancelled => c.cancelled

def addTotals (c : Counters) (q : CallQuality) : Counters :=
  { c with underruns := c.underruns + q.underruns, starvedMs := c.starvedMs + q.starvedMs
           uplinkReceived := c.uplinkReceived + q.uplinkReceived
           uplinkLost := c.uplinkLost + q.uplinkLost }

theorem ofDisposition_bump (c : Counters) (d d' : Disposition) :
    (c.bumpDisposition d).ofDisposition d' = c.ofDisposition d' + if d = d' then 1 else 0 := by
  cases d <;> cases d' <;> rfl

end Counters

/-- Who took a sender out of `cancels`. -/
inductive Remover where
  | endCall (id : CallId)
  | guard (tok : Token)
  | registration (tok : Token)
  deriving DecidableEq

inductive Obs where
  | minted (id : CallId)
  | pushed (e : PendingEntry)
  | popped (now : ℕ) (e : PendingEntry)
  | removed (e : PendingEntry)
  | dialled (id : CallId)
  | endCalled (id : CallId)
  /-- `end_call` is going to return true; the state its record is in at that point -/
  | accepted (id : CallId) (state : Option CallState)
  | unregistered (tok : Token) (by_ : Remover)
  | finalized (id : CallId) (disposition : Disposition)
  | bumped (id : CallId) (disposition : Disposition)
  /-- the task that was to finalize the call panicked -/
  | abandoned (id : CallId)
  | persisted (record : CallRecord)

structure Shared where
  clock : ℕ
  seq : ℕ := 0
  store : CallStore
  queue : MemQueue := MemQueue.new
  running : ℕ := 0
  permit : Bool := false
  cancels : AList fun _ : CallId => Token := ∅
  chans : List Chan := []
  counters : Counters := {}
  breaker : Breaker
  log : List Obs := []

inductive Effect where
  | idle
  | mint
  | store (op : StoreOp)
  | finalize (e : Ending)
  | bump (id : CallId) (d : Disposition)
  | countPlaced
  | addTotals (q : CallQuality)
  | qualityAborted
  | push (e : PendingEntry)
  | pop (now : ℕ) (e : PendingEntry) (rest : MemQueue)
  | remove (e : PendingEntry) (rest : MemQueue)
  | register (id : CallId)
  | claimSlot
  | releaseSlot
  | notify
  | consume
  | markProbe (now windowMs : ℕ)
  | onResult (ok : Bool)
  | dial (id : CallId)
  | takeSender (tok : Token) (id : CallId)
  | noSender (id : CallId)
  | send (tok : Token) (id : CallId)
  | dropGuard (tok : Token) (id : CallId)
  | dropReceiver (tok : Token)
  | abandon (id : CallId)
  | persist (rec : CallRecord)

namespace Shared

def init (cfg : ServerConfig) (clock : ℕ) : Shared where
  clock := clock
  store := CallStore.withHistoryCap cfg.maxCallHistory
  breaker := Breaker.new cfg.netCheck.breakerThreshold cfg.netCheck.cooldownMs

/-- `fetch_add(1)` and `fetch_sub(1)` on a `usize`, which wrap around. -/
def fetchAdd (n : ℕ) : ℕ := if n + 1 = UInt64.size then 0 else n + 1

def fetchSub (n : ℕ) : ℕ := if n = 0 then UInt64.size - 1 else n - 1

/-- A sender that goes without having sent: the receiver sees the channel close. -/
def closeSender (chans : List Chan) (tok : Token) : List Chan :=
  chans.modify tok fun c => if c.signal = .quiet then { c with signal := .dropped } else c

def stateOf (sh : Shared) (id : CallId) : Option CallState := (sh.store.get id).map (·.state)

def hears (sh : Shared) (tok : Token) : Bool := sh.chans[tok]?.any (·.receiver)

def signalOf (sh : Shared) (tok : Token) : Option Signal := sh.chans[tok]?.map (·.signal)

def unregister (sh : Shared) (id : CallId) (by_ : Remover) : Shared :=
  match sh.cancels.lookup id with
  | some tok => { sh with cancels := sh.cancels.erase id, chans := closeSender sh.chans tok,
                          log := sh.log ++ [.unregistered tok by_] }
  | none => sh

def apply (sh : Shared) : Effect → Shared
  | .idle => sh
  | .mint => { sh with seq := sh.seq + 1, log := sh.log ++ [.minted (callId sh.seq)] }
  | .store op => { sh with store := op.apply sh.store }
  | .finalize e => { sh with store := (StoreOp.finalize e).apply sh.store,
                             log := sh.log ++ [.finalized e.id e.disposition] }
  | .bump id d => { sh with counters := sh.counters.bumpDisposition d,
                            log := sh.log ++ [.bumped id d] }
  | .countPlaced =>
    { sh with counters := { sh.counters with placed := sh.counters.placed + 1 } }
  | .addTotals q => { sh with counters := sh.counters.addTotals q }
  | .qualityAborted =>
    { sh with counters := { sh.counters with qualityAborted := sh.counters.qualityAborted + 1 } }
  | .push e => { sh with queue := sh.queue.push e, log := sh.log ++ [.pushed e] }
  | .pop now e rest => { sh with queue := rest, log := sh.log ++ [.popped now e] }
  | .remove e rest =>
    { sh with queue := rest, log := sh.log ++ [.endCalled e.callId, .removed e,
        .accepted e.callId (sh.stateOf e.callId)] }
  | .register id =>
    { sh.unregister id (.registration sh.chans.length) with
        cancels := sh.cancels.insert id sh.chans.length
        chans := (sh.unregister id (.registration sh.chans.length)).chans ++ [{}] }
  | .claimSlot => { sh with running := fetchAdd sh.running }
  | .releaseSlot => { sh with running := fetchSub sh.running }
  | .notify => { sh with permit := true }
  | .consume => { sh with permit := false }
  | .markProbe now windowMs =>
    { sh with breaker := sh.breaker.markProbeDispatched now windowMs }
  | .onResult ok => { sh with breaker := sh.breaker.onResult ok sh.clock }
  | .dial id => { sh with log := sh.log ++ [.dialled id] }
  | .takeSender tok id =>
    { sh with cancels := sh.cancels.erase id
              log := sh.log ++ [.endCalled id, .unregistered tok (.endCall id)] }
  | .noSender id => { sh with log := sh.log ++ [.endCalled id] }
  | .send tok id =>
    if sh.hears tok then
      { sh with chans := sh.chans.modify tok fun c => { c with signal := .sent }
                log := sh.log ++ [.accepted id (sh.stateOf id)] }
    else sh
  | .dropGuard tok id => sh.unregister id (.guard tok)
  | .dropReceiver tok =>
    { sh with chans := sh.chans.modify tok fun c => { c with receiver := false } }
  | .abandon id => { sh with log := sh.log ++ [.abandoned id] }
  | .persist rec => { sh with log := sh.log ++ [.persisted rec] }

end Shared

end Kutsu
