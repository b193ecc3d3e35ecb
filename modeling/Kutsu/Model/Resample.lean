import Mathlib.Data.Fin.Basic
import Kutsu.Lib.Rounding

/-! The two sample-rate conversions (`bridge/resample.rs`). The filter coefficients are a
parameter: `lowpass` computes them once from sines. -/

namespace Kutsu

open Rounding

abbrev Sample := ℤ

/-- 8 kHz to 16 kHz by linear interpolation; the last sample of a block is held. -/
def up8k16k : List Sample → List Sample
  | [] => []
  | cur :: rest => cur :: (cur + rest.headD cur).tdiv 2 :: up8k16k rest

def TAPS : ℕ := 23

structure Downsampler where
  win : List Sample
  /-- input-sample counter mod 3; a sample is emitted at 0 -/
  phase : Fin 3
  deriving DecidableEq

namespace Downsampler

def new : Downsampler := ⟨List.replicate TAPS 0, 0⟩

/-- `f32::round`: half away from zero. -/
def roundAway (q : ℚ) : ℤ := if 0 ≤ q then ⌊q + 1 / 2⌋ else -⌊-q + 1 / 2⌋

def clamp16 (n : ℤ) : Sample := max (-32768) (min 32767 n)

/-- The products are added up in `f32`, from the oldest sample to the newest. -/
def fir (h : List ℚ) (win : List Sample) : Sample :=
  clamp16 (roundAway (dot f32 h (win.map Int.cast)))

def feed (h : List ℚ) (d : Downsampler) (s : Sample) : List Sample × Downsampler :=
  let win := d.win.tail ++ [s]
  (if d.phase = 0 then [fir h win] else [], ⟨win, d.phase + 1⟩)

def process (h : List ℚ) (d : Downsampler) : List Sample → List Sample × Downsampler
  | [] => ([], d)
  | s :: block =>
    let first := d.feed h s
    let rest := first.2.process h block
    (first.1 ++ rest.1, rest.2)

variable {h : List ℚ}

@[simp] theorem process_nil (d : Downsampler) : d.process h [] = ([], d) := rfl

theorem process_append (d : Downsampler) (a b : List Sample) :
    d.process h (a ++ b) =
      ((d.process h a).1 ++ ((d.process h a).2.process h b).1,
        ((d.process h a).2.process h b).2) := by
  induction a generalizing d with
  | nil => rfl
  | cons s a ih => simp only [List.cons_append, process, ih, List.append_assoc]

end Downsampler

end Kutsu
