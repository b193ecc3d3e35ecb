import Kutsu.Model.Resample

/-! The downlink jitter buffer and 20 ms pacer (`bridge/pace.rs`). -/

namespace Kutsu

open Rounding

def IN_PER_FRAME : ℕ := 480
def SAMPLES_PER_MS : ℕ := 24

structure Downlink where
  buf : List Sample
  down : Downsampler
  prebuffer : ℕ
  resume : ℕ
  fillTarget : ℕ
  playing : Bool
  expecting : Bool
  underruns : ℕ
  starvedMs : ℕ
  deriving DecidableEq

namespace Downlink

def new (prebufferMs resumeMs : ℕ) : Downlink where
  buf := []
  down := Downsampler.new
  prebuffer := prebufferMs * SAMPLES_PER_MS
  resume := resumeMs * SAMPLES_PER_MS
  fillTarget := prebufferMs * SAMPLES_PER_MS
  playing := false
  expecting := false
  underruns := 0
  starvedMs := 0

def push (d : Downlink) (samples : List Sample) : Downlink := { d with buf := d.buf ++ samples }

def clear (d : Downlink) : Downlink :=
  { d with buf := [], down := Downsampler.new, playing := false, fillTarget := d.prebuffer }

/-- The fraction is dropped and what is out of range is clamped. -/
def toI16 (q : ℚ) : Sample := Downsampler.clamp16 (if 0 ≤ q then ⌊q⌋ else ⌈q⌉)

/-- `(s as f32 * gain) as i16` with `gain = 1.0 - (i as f32 / n as f32)`. -/
def fadeSample (n i : ℕ) (s : Sample) : Sample :=
  let gain := f32 (1 - f32 (f32 i / f32 n))
  toI16 (f32 (s * gain))

def interruptFade (d : Downlink) (fadeMs : ℕ) : Downlink :=
  let n := min (fadeMs * SAMPLES_PER_MS) d.buf.length
  if n = 0 then d.clear
  else
    { d with buf := (d.buf.take n).mapIdx (fadeSample n), playing := true,
             fillTarget := d.prebuffer }

def setExpecting (d : Downlink) (expecting : Bool) : Downlink :=
  let d' := if expecting && !d.expecting then
      { d with playing := false, fillTarget := d.prebuffer }
    else d
  { d' with expecting }

def pending (d : Downlink) : Bool := !d.buf.isEmpty

def silenceFrame (h : List ℚ) (d : Downlink) : List Sample × Downlink :=
  let out := d.down.process h (List.replicate IN_PER_FRAME 0)
  (out.1, { d with down := out.2 })

def nextFrame (h : List ℚ) (d : Downlink) : List Sample × Downlink :=
  let d := if !d.playing && max d.fillTarget IN_PER_FRAME ≤ d.buf.length then
      { d with playing := true }
    else d
  if !d.playing then
    silenceFrame h { d with starvedMs := if d.expecting then d.starvedMs + 20 else d.starvedMs }
  else if IN_PER_FRAME ≤ d.buf.length then
    let out := d.down.process h (d.buf.take IN_PER_FRAME)
    (out.1, { d with buf := d.buf.drop IN_PER_FRAME, down := out.2 })
  else
    silenceFrame h { d with
      underruns := if d.expecting then d.underruns + 1 else d.underruns
      starvedMs := if d.expecting then d.starvedMs + 20 else d.starvedMs
      playing := false
      fillTarget := d.resume }

/-- Enough is buffered to play, or playout is already under way. -/
def Ready (d : Downlink) : Prop :=
  d.playing = true ∨ max d.fillTarget IN_PER_FRAME ≤ d.buf.length

instance (d : Downlink) : Decidable d.Ready := inferInstanceAs (Decidable (_ ∨ _))

/-- The three things a call to `nextFrame` can do: play a block, hold, or run dry. -/
theorem nextFrame_play {h : List ℚ} {d : Downlink} (hr : d.Ready)
    (hlen : IN_PER_FRAME ≤ d.buf.length) :
    d.nextFrame h = ((d.down.process h (d.buf.take IN_PER_FRAME)).1,
      { d with buf := d.buf.drop IN_PER_FRAME, playing := true,
               down := (d.down.process h (d.buf.take IN_PER_FRAME)).2 }) := by
  rcases hp : d.playing with _ | _
  · have hfill : max d.fillTarget IN_PER_FRAME ≤ d.buf.length := by
      rcases hr with hr | hr
      · rw [hp] at hr; cases hr
      · exact hr
    simp [nextFrame, hp, hfill, hlen]
  · simp only [nextFrame, hp, Bool.not_true, Bool.false_and, Bool.false_eq_true, if_false,
      if_pos hlen]

theorem nextFrame_hold {h : List ℚ} {d : Downlink} (hr : ¬ d.Ready) :
    d.nextFrame h = silenceFrame h
      { d with starvedMs := if d.expecting then d.starvedMs + 20 else d.starvedMs } := by
  obtain ⟨hp, hfill⟩ := not_or.mp hr
  simp only [Bool.not_eq_true] at hp
  simp only [nextFrame, hp, hfill, decide_false, Bool.and_false, Bool.false_eq_true, if_false,
    Bool.not_false, if_true]

theorem nextFrame_dry {h : List ℚ} {d : Downlink} (hp : d.playing = true)
    (hlen : d.buf.length < IN_PER_FRAME) :
    d.nextFrame h = silenceFrame h
      { d with underruns := if d.expecting then d.underruns + 1 else d.underruns
               starvedMs := if d.expecting then d.starvedMs + 20 else d.starvedMs
               playing := false
               fillTarget := d.resume } := by
  simp only [nextFrame, hp, Bool.not_true, Bool.false_and, Bool.false_eq_true, if_false,
    if_neg (Nat.not_le.mpr hlen)]

end Downlink

inductive PaceOp where
  | push (samples : List Sample)
  | nextFrame
  | clear
  | interruptFade (fadeMs : ℕ)
  | setExpecting (expecting : Bool)

def PaceOp.apply (h : List ℚ) (d : Downlink) : PaceOp → Downlink
  | .push samples => d.push samples
  | .nextFrame => (d.nextFrame h).2
  | .clear => d.clear
  | .interruptFade fadeMs => d.interruptFade fadeMs
  | .setExpecting expecting => d.setExpecting expecting

end Kutsu
