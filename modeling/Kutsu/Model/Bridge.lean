import Kutsu.Model.Live
import Kutsu.Model.Pace

/-! The bridge's downlink loop (`bridge/mod.rs`): one step is one arm of its `select!`, or
the end of a send that an arm waits for. The onset and tick statistics are only logged
and the dumps are copies, so they are left out. -/

namespace Kutsu

def DOWNLINK_GRACE_MS : ℕ := 600

/-- What every tick of the pacer publishes. -/
structure QualityShared where
  underruns : ℕ := 0
  starvedMs : ℕ := 0
  maxGapMs : ℕ := 0
  downlinkActive : Bool := false

/-- A frame for the phone; `block` remembers the buffered samples it was made of. -/
structure Frame where
  pcm8 : List Sample
  block : List Sample

inductive BridgePc where
  | select
  | sending (frame : Frame)
  | ended (how : BridgeEnd)

structure Bridge where
  downlink : Downlink
  nextTick : ℕ
  lastAudio : Option ℕ := none
  maxGapMs : ℕ := 0
  uplinkRunning : Bool := true
  harvesting : Bool := false
  graceSleep : Option ℕ := none
  pc : BridgePc := .select

namespace Bridge

def new (cfg : QualityConfig) (now : ℕ) : Bridge where
  downlink := Downlink.new cfg.prebufferMs cfg.resumeMs
  nextTick := now

def selects (b : Bridge) : Bool := b.pc matches .select

def ending (b : Bridge) : Option BridgeEnd :=
  match b.pc with
  | .ended how => some how
  | _ => none

def paces (b : Bridge) : Bool := b.ending.isNone && !b.harvesting

/-- The phone is taken to be gone: the bridge ends, or goes on only forwarding events. -/
def onPhoneGone (harvestGraceMs : Option ℕ) (now : ℕ) (b : Bridge) : Bridge :=
  match harvestGraceMs with
  | none => { b with pc := .ended .phoneClosed }
  | some ms =>
    if b.harvesting then b else { b with harvesting := true, graceSleep := some (now + ms) }

/-- An event read from the driver, and what is forwarded of it. -/
def onEvent (muted : Bool) (now : ℕ) (b : Bridge) : Event → Bridge × List Event
  | .outputAudio pcm =>
    if b.harvesting || muted then (b, [])
    else
      ({ b with
        downlink := (b.downlink.setExpecting true).push pcm
        maxGapMs := (b.lastAudio.map fun prev => max b.maxGapMs (now - prev)).getD b.maxGapMs
        lastAudio := some now }, [])
  | .interrupted =>
    ({ b with downlink := (b.downlink.setExpecting false).interruptFade 25, lastAudio := none }, [])
  | .turnComplete =>
    ({ b with downlink := b.downlink.setExpecting false, lastAudio := none }, [.turnComplete])
  | other => (b, [other])

/-- `tokio::time::interval` with `Delay`: a tick over 5 ms late shifts those after it. -/
def rearm (timeout now : ℕ) : ℕ := if timeout + 5 < now then now + 20 else timeout + 20

/-- The next frame, still to be sent, and what is published before it is. -/
def onTick (taps : List ℚ) (now : ℕ) (b : Bridge) : Bridge × QualityShared :=
  let (pcm8, downlink) := b.downlink.nextFrame taps
  let block := b.downlink.buf.take (b.downlink.buf.length - downlink.buf.length)
  let recentAudio := b.lastAudio.any fun t => now - t < DOWNLINK_GRACE_MS
  ({ b with downlink, nextTick := rearm b.nextTick now, pc := .sending ⟨pcm8, block⟩ },
    { underruns := downlink.underruns, starvedMs := downlink.starvedMs, maxGapMs := b.maxGapMs,
      downlinkActive := downlink.pending || recentAudio })

end Bridge

/-- What `bridge::run` can meet at a point in time: the uplink task comes to its end, an arm
of the `select!` fires, or one of its two sends returns. -/
inductive BridgeInput where
  | uplinkDone
  | cancel
  | uplink
  | grace
  | event (muted : Bool) (ev : Event)
  | closed
  | tick
  | forwarded
  | phoneSend (ok : Bool)

/-- `bridge::run` with the event it is sending on, those sent, and the two senders it has
for Gemini's uplink: the uplink task's, and the clone that is kept until it returns. -/
structure BridgeTask where
  bridge : Bridge
  waiting : List Event := []
  forwarded : List Event := []
  uplinkTask : Bool := true
  keepalive : Bool := true

namespace BridgeTask

def new (cfg : QualityConfig) (now : ℕ) : BridgeTask := { bridge := Bridge.new cfg now }

def selects (s : BridgeTask) : Bool := s.bridge.selects && s.waiting.isEmpty

/-- The bridge after an arm. Returning aborts the uplink task and drops the clone. -/
def become (s : BridgeTask) (bridge : Bridge) : BridgeTask :=
  if bridge.ending.isSome then { s with bridge, uplinkTask := false, keepalive := false }
  else { s with bridge }

def geminiInOpen (s : BridgeTask) : Bool := s.uplinkTask || s.keepalive

def step (harvestGraceMs : Option ℕ) (taps : List ℚ) (s : BridgeTask) : ℕ × BridgeInput → Option BridgeTask
  | (_, .uplinkDone) => if s.uplinkTask then some { s with uplinkTask := false } else none
  | (_, .cancel) => if s.selects then some (s.become { s.bridge with pc := .ended .cancelled }) else none
  | (now, .uplink) =>
    if s.selects && !s.uplinkTask && s.bridge.uplinkRunning then
      some (s.become ({ s.bridge with uplinkRunning := false }.onPhoneGone harvestGraceMs now))
    else none
  | (now, .grace) =>
    if s.selects && s.bridge.graceSleep.any fun t => t ≤ now then
      some (s.become { s.bridge with pc := .ended .phoneClosed })
    else none
  | (now, .event muted ev) =>
    if s.selects then
      let (bridge, waiting) := s.bridge.onEvent muted now ev
      some { s with bridge, waiting }
    else none
  | (_, .closed) =>
    if s.selects then some (s.become { s.bridge with pc := .ended .geminiClosed }) else none
  | (now, .tick) =>
    if s.selects && !s.bridge.harvesting && s.bridge.nextTick ≤ now then
      some { s with bridge := (s.bridge.onTick taps now).1 }
    else none
  | (_, .forwarded) =>
    match s.waiting with
    | ev :: waiting => some { s with waiting, forwarded := s.forwarded ++ [ev] }
    | [] => none
  | (now, .phoneSend ok) =>
    match s.bridge.pc with
    | .sending _ =>
      let bridge := { s.bridge with pc := .select }
      some (if ok then { s with bridge } else s.become (bridge.onPhoneGone harvestGraceMs now))
    | _ => none

end BridgeTask

end Kutsu
