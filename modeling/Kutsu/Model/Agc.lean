import Mathlib.Algebra.Order.Floor.Ring
import Kutsu.Model.Vad

/-! The gain control of the uplink (`bridge/agc.rs`) in exact arithmetic: over a field, with the square root and
the power of ten as parameters. -/

namespace Kutsu

section
variable {K : Type*} [Field K] [LinearOrder K] [FloorRing K] (sqrt exp10 : K → K)

structure Agc (K : Type*) where
  cfg : AgcConfig
  targetRms : K
  maxGain : K
  gain : K

namespace Agc

def new (cfg : AgcConfig) : Agc K where
  cfg := cfg
  targetRms := 32768 * exp10 ((cfg.targetDbfs : K) / 20)
  maxGain := exp10 ((cfg.maxGainDb : K) / 20)
  gain := 1

/-- `f32::round`: half away from zero. -/
def roundAway (x : K) : ℤ := if 0 ≤ x then ⌊x + 1 / 2⌋ else -⌊-x + 1 / 2⌋

/-- The gain adapts on frames at or above the noise floor, faster down than up. -/
def adapt (a : Agc K) (rms : K) : Agc K :=
  if (a.cfg.noiseFloorRms : K) ≤ rms ∧ 0 < rms then
    let desired := max 0 (min (a.targetRms / rms) a.maxGain)
    let coeff : ℚ := if desired < a.gain then 3 / 10 else 1 / 20
    { a with gain := a.gain + (desired - a.gain) * (coeff : K) }
  else a

def process (a : Agc K) (frame : List Sample) : List Sample × Agc K :=
  if !a.cfg.enabled || frame.isEmpty then (frame, a)
  else
    let a := a.adapt (frameRms sqrt frame)
    if |a.gain - 1| < 1 / 1000 then (frame, a)
    else (frame.map fun s : Sample => Downsampler.clamp16 (roundAway ((s : K) * a.gain)), a)

end Agc

end

end Kutsu
