import Mathlib.Algebra.Order.Field.Basic
import Mathlib.Data.Rat.Cast.Defs
import Kutsu.Model.Config
import Kutsu.Model.Resample

/-! The energy VAD on the callee's audio (`vad.rs`) in exact arithmetic: over a field, with the square root as a
parameter. -/

namespace Kutsu

section
variable {K : Type*} [Field K] [LinearOrder K] (sqrt : K → K)

/-- The root of the mean square. -/
def frameRms (frame : List Sample) : K := sqrt ((frame.map fun s : Sample => (s : K) * s).sum / frame.length)

structure Vad (K : Type*) where
  cfg : VadConfig
  noiseFloor : K
  lastRms : K
  consec : ℕ
  fired : Bool
  framesSeen : ℕ

namespace Vad

def new (cfg : VadConfig) : Vad K where
  cfg := cfg
  noiseFloor := 0
  lastRms := 0
  consec := 0
  fired := false
  framesSeen := 0

def threshold (v : Vad K) : K := max (v.cfg.minRms : K) (v.noiseFloor * (v.cfg.ratio : K))

def classify (v : Vad K) (rms : K) : Bool × Vad K :=
  if v.threshold ≤ rms then
    if v.cfg.onsetFrames ≤ v.consec + 1 then (true, { v with consec := v.consec + 1, fired := true })
    else (false, { v with consec := v.consec + 1 })
  else (false, { v with consec := 0, noiseFloor := v.noiseFloor * (9 / 10) + rms * (1 / 10) })

def observe (v : Vad K) (frame : List Sample) : Bool × Vad K :=
  if frame.isEmpty then (false, v)
  else
    let rms := frameRms sqrt frame
    let v := { v with lastRms := rms }
    if v.fired then (false, v)
    else if v.framesSeen < v.cfg.warmupFrames then
      let isSeedFrame := v.framesSeen == 0
      let v := { v with framesSeen := v.framesSeen + 1 }
      if isSeedFrame then (false, { v with noiseFloor := rms, consec := 0 })
      else v.classify rms
    else v.classify rms

end Vad

end

end Kutsu
