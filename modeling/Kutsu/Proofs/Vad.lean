import Mathlib.Analysis.SpecialFunctions.Pow.Real
import Mathlib.Order.Interval.Set.Defs
import Kutsu.Lib.Window
import Kutsu.Model.Vad

/-! When the VAD reports an onset. On a steady background the noise floor stays in the range of the background,
so that no frame reaches the threshold; in any case the report is made once, and the frames it counts were loud. -/

namespace Kutsu

open Windows

/-- The VAD with the record of what it returned, and of the floor and the RMS of each frame that was not empty. -/
structure Hearing (K : Type*) where
  v : Vad K
  returned : List Bool := []
  heard : List (K × K) := []

namespace Hearing

section
variable {K : Type*} [Field K] [LinearOrder K] {sqrt : K → K} {s : Hearing K}

def observe (sqrt : K → K) (s : Hearing K) (frame : List Sample) : Hearing K where
  v := (s.v.observe sqrt frame).2
  returned := s.returned ++ [(s.v.observe sqrt frame).1]
  heard := if frame.isEmpty then s.heard else s.heard ++ [(s.v.noiseFloor, frameRms sqrt frame)]

def after (sqrt : K → K) (cfg : VadConfig) (frames : List (List Sample)) : Hearing K :=
  frames.foldl (observe sqrt) { v := Vad.new cfg }

/-- The frame is at or above the threshold of the floor held before it. -/
def loud (cfg : VadConfig) (x : K × K) : Bool := max (cfg.minRms : K) (x.1 * (cfg.ratio : K)) ≤ x.2

theorem classify_loud (v : Vad K) {rms : K} (h : v.threshold ≤ rms) :
    v.classify rms = (decide (v.cfg.onsetFrames ≤ v.consec + 1),
      { v with consec := v.consec + 1, fired := v.fired || decide (v.cfg.onsetFrames ≤ v.consec + 1) }) := by
  by_cases honset : v.cfg.onsetFrames ≤ v.consec + 1 <;> simp [Vad.classify, h, honset]

theorem classify_quiet (v : Vad K) {rms : K} (h : rms < v.threshold) :
    v.classify rms = (false, { v with consec := 0, noiseFloor := v.noiseFloor * (9 / 10) + rms * (1 / 10) }) := by
  simp [Vad.classify, not_le.mpr h]

theorem observe_cases (sqrt : K → K) (v : Vad K) (frame : List Sample) :
    (v.observe sqrt frame = (false, v) ∧ frame = []) ∨
    (v.observe sqrt frame = (false, { v with lastRms := frameRms sqrt frame }) ∧ frame ≠ [] ∧ v.fired = true) ∨
    (v.observe sqrt frame = (false, { v with
        lastRms := frameRms sqrt frame, framesSeen := 1, noiseFloor := frameRms sqrt frame, consec := 0 }) ∧
      frame ≠ [] ∧ v.fired = false ∧ v.framesSeen = 0) ∨
    ∃ seen, v.observe sqrt frame =
        ({ v with lastRms := frameRms sqrt frame, framesSeen := seen } : Vad K).classify (frameRms sqrt frame) ∧
      frame ≠ [] ∧ v.fired = false ∧ (v.framesSeen = 0 → v.cfg.warmupFrames = 0) := by
  by_cases hempty : frame = []
  · exact Or.inl ⟨by simp [Vad.observe, hempty], hempty⟩
  rcases hfired : v.fired with _ | _
  · by_cases hwarm : v.framesSeen < v.cfg.warmupFrames
    · by_cases hseed : v.framesSeen = 0
      · refine Or.inr (Or.inr (Or.inl ⟨?_, hempty, rfl, hseed⟩))
        simp [Vad.observe, hempty, hfired, hseed, hseed ▸ hwarm]
      · refine Or.inr (Or.inr (Or.inr ⟨v.framesSeen + 1, ?_, hempty, rfl, fun h => absurd h hseed⟩))
        simp [Vad.observe, hempty, hfired, hseed, hwarm]
    · refine Or.inr (Or.inr (Or.inr ⟨v.framesSeen, ?_, hempty, rfl, fun h => by omega⟩))
      simp [Vad.observe, hempty, hfired, hwarm]
  · exact Or.inr (Or.inl ⟨by simp [Vad.observe, hempty, hfired], hempty, rfl⟩)

/-- No report so far, and the floor, once seeded, is in the range of the background. -/
structure Steady (cfg : VadConfig) (a b : K) (s : Hearing K) : Prop where
  cfg : s.v.cfg = cfg
  fired : s.v.fired = false
  noiseFloor : s.v.framesSeen = 0 ∨ a ≤ s.v.noiseFloor ∧ s.v.noiseFloor ≤ b
  returned : true ∉ s.returned

/-- Before the report the count is of the last frames, which were loud; the report, once made, is one of those
returned. -/
structure Counted (cfg : VadConfig) (s : Hearing K) : Prop where
  once : s.returned.count true = s.v.fired.toNat
  consec : s.v.fired = false → s.v.consec ≤ streak (loud cfg) s.heard
  cfg : s.v.cfg = cfg

variable {cfg : VadConfig} {a b : K}

theorem Counted.of_unreported (hs : s.Counted cfg) {frame : List Sample} {v : Vad K}
    (heq : s.v.observe sqrt frame = (false, v)) (hcfg : v.cfg = s.v.cfg) (hfired : v.fired = s.v.fired)
    (hconsec : v.fired = false → v.consec ≤ streak (loud cfg) (s.observe sqrt frame).heard) :
    (s.observe sqrt frame).Counted cfg ∧
      ((s.v.observe sqrt frame).1 = true →
        max 1 cfg.onsetFrames ≤ streak (loud cfg) (s.observe sqrt frame).heard) := by
  have hv : (s.observe sqrt frame).v = v := congrArg Prod.snd heq
  refine ⟨⟨?_, ?_, ?_⟩, fun hreport => ?_⟩
  · rw [hv, hfired, ← hs.once]
    simp [Hearing.observe, heq]
  · rw [hv]
    exact hconsec
  · rw [hv, hcfg]
    exact hs.cfg
  · rw [heq] at hreport
    cases hreport

theorem Counted.observe (hs : s.Counted cfg) (frame : List Sample) :
    (s.observe sqrt frame).Counted cfg ∧
      ((s.v.observe sqrt frame).1 = true →
        max 1 cfg.onsetFrames ≤ streak (loud cfg) (s.observe sqrt frame).heard) := by
  rcases observe_cases sqrt s.v frame with
    ⟨heq, rfl⟩ | ⟨heq, -, hfired⟩ | ⟨heq, -, -, -⟩ | ⟨seen, heq, hne, hfired, -⟩
  · exact hs.of_unreported heq rfl rfl hs.consec
  · exact hs.of_unreported heq rfl rfl fun hnot => absurd hfired (Bool.eq_false_iff.mp hnot)
  · exact hs.of_unreported heq rfl rfl fun _ => Nat.zero_le _
  · set v : Vad K := { s.v with lastRms := frameRms sqrt frame, framesSeen := seen } with hv
    have hheard : (s.observe sqrt frame).heard = s.heard ++ [(s.v.noiseFloor, frameRms sqrt frame)] := by
      simp [Hearing.observe, hne]
    have hloud : loud cfg (s.v.noiseFloor, frameRms sqrt frame) = decide (v.threshold ≤ frameRms sqrt frame) := by
      simp [loud, Vad.threshold, hv, hs.cfg]
    by_cases h : v.threshold ≤ frameRms sqrt frame
    · have hconsec := hs.consec hfired
      have honce : s.returned.count true = 0 := by rw [hs.once, hfired]; rfl
      have hstreak : streak (loud cfg) (s.observe sqrt frame).heard = streak (loud cfg) s.heard + 1 := by
        rw [hheard, streak_concat, hloud, if_pos (decide_eq_true h)]
      rw [classify_loud _ h] at heq
      refine ⟨⟨?_, fun _ => ?_, ?_⟩, fun hreport => ?_⟩
      · simp only [Hearing.observe, heq, hv, hfired, List.count_append, honce]
        cases decide (s.v.cfg.onsetFrames ≤ s.v.consec + 1) <;> rfl
      · rw [hstreak]
        simp only [Hearing.observe, heq, hv]
        omega
      · simp only [Hearing.observe, heq]
        exact hs.cfg
      · rw [hstreak]
        simp only [heq, hv, hs.cfg, decide_eq_true_eq] at hreport
        omega
    · rw [classify_quiet _ (not_le.mp h)] at heq
      exact hs.of_unreported heq rfl rfl fun _ => Nat.zero_le _

theorem counted_after (frames : List (List Sample)) : (after sqrt cfg frames).Counted cfg :=
  List.foldlRecOn (motive := Counted cfg) frames (observe sqrt) ⟨rfl, fun _ => le_rfl, rfl⟩
    fun _ hs frame _ => (hs.observe frame).1

variable [IsStrictOrderedRing K]

theorem Steady.observe (hs : s.Steady cfg a b) (hratio : b < cfg.ratio * a) (hpos : 0 ≤ (cfg.ratio : K))
    (hwarm : 1 ≤ cfg.warmupFrames) {frame : List Sample}
    (hframe : frame ≠ [] → a ≤ frameRms sqrt frame ∧ frameRms sqrt frame ≤ b) :
    (s.observe sqrt frame).Steady cfg a b := by
  have hreturned : ∀ {v : Vad K}, s.v.observe sqrt frame = (false, v) → true ∉ (s.observe sqrt frame).returned := by
    intro v heq hmem
    rw [Hearing.observe, heq] at hmem
    simp at hmem
    exact hs.returned hmem
  rcases observe_cases sqrt s.v frame with
    ⟨heq, -⟩ | ⟨-, -, hfired⟩ | ⟨heq, hne, -, -⟩ | ⟨seen, heq, hne, -, hseeded⟩
  · refine ⟨?_, ?_, ?_, hreturned heq⟩ <;> simp only [Hearing.observe, heq]
    · exact hs.cfg
    · exact hs.fired
    · exact hs.noiseFloor
  · rw [hs.fired] at hfired
    cases hfired
  · refine ⟨?_, ?_, ?_, hreturned heq⟩ <;> simp only [Hearing.observe, heq]
    · exact hs.cfg
    · exact hs.fired
    · exact Or.inr (hframe hne)
  · obtain ⟨hlo, hhi⟩ : a ≤ s.v.noiseFloor ∧ s.v.noiseFloor ≤ b := by
      refine hs.noiseFloor.resolve_left fun hnone => ?_
      have := hseeded hnone
      rw [hs.cfg] at this
      omega
    obtain ⟨hrlo, hrhi⟩ := hframe hne
    -- the floor is at least `a`, so the threshold is over `b`
    have hquiet : frameRms sqrt frame <
        ({ s.v with lastRms := frameRms sqrt frame, framesSeen := seen } : Vad K).threshold := by
      refine lt_max_of_lt_right ?_
      calc frameRms sqrt frame ≤ b := hrhi
        _ < cfg.ratio * a := hratio
        _ ≤ cfg.ratio * s.v.noiseFloor := mul_le_mul_of_nonneg_left hlo hpos
        _ = s.v.noiseFloor * s.v.cfg.ratio := by rw [hs.cfg, mul_comm]
    rw [classify_quiet _ hquiet] at heq
    refine ⟨?_, ?_, ?_, hreturned heq⟩ <;> simp only [Hearing.observe, heq]
    · exact hs.cfg
    · exact hs.fired
    · exact Or.inr ⟨by linarith, by linarith⟩

theorem steady_after (hratio : b < cfg.ratio * a) (hpos : 0 ≤ (cfg.ratio : K)) (hwarm : 1 ≤ cfg.warmupFrames)
    {frames : List (List Sample)}
    (hframes : ∀ frame ∈ frames, frame ≠ [] → a ≤ frameRms sqrt frame ∧ frameRms sqrt frame ≤ b) :
    (after sqrt cfg frames).Steady cfg a b :=
  List.foldlRecOn (motive := Steady cfg a b) frames (observe sqrt) ⟨rfl, rfl, Or.inl rfl, List.not_mem_nil⟩
    fun _ hs frame hmem => hs.observe hratio hpos hwarm (hframes frame hmem)

end

/-- A steady background is never reported. In any sequence of frames there is at most one report, and the last
frames that were not empty were loud then, as many of them as the onset takes. -/
theorem onset_reported (cfg : VadConfig) :
    (∀ a b : ℝ, 1 < cfg.ratio → 1 ≤ cfg.warmupFrames → 0 < a → a ≤ b → b < cfg.ratio * a →
      ∀ frames : List (List Sample),
        (∀ frame ∈ frames, frame ≠ [] → a ≤ frameRms Real.sqrt frame ∧ frameRms Real.sqrt frame ≤ b) →
          true ∉ (after Real.sqrt cfg frames).returned) ∧
      ∀ frames : List (List Sample), (after Real.sqrt cfg frames).returned.count true ≤ 1 ∧
        ∀ frame, ((after Real.sqrt cfg frames).v.observe Real.sqrt frame).1 = true →
          let heard := (after Real.sqrt cfg (frames ++ [frame])).heard
          max 1 cfg.onsetFrames ≤ heard.length ∧
            ∀ x ∈ heard.rtake (max 1 cfg.onsetFrames), max (cfg.minRms : ℝ) (x.1 * cfg.ratio) ≤ x.2 := by
  refine ⟨fun a b hgt hwarm _ _ hratio frames hframes => ?_, fun frames => ⟨?_, fun frame hreport => ?_⟩⟩
  · have hpos : (0 : ℝ) ≤ cfg.ratio := Rat.cast_nonneg.mpr (zero_le_one.trans hgt.le)
    exact (steady_after hratio hpos hwarm hframes).returned
  · rw [(counted_after frames).once]
    exact Bool.toNat_le _
  · have hcounted : (after Real.sqrt cfg frames).Counted cfg := counted_after frames
    have hstreak := (hcounted.observe frame).2 hreport
    obtain ⟨hlen, hloud⟩ := le_streak_iff.mp hstreak
    have hsnoc : after Real.sqrt cfg (frames ++ [frame]) = (after Real.sqrt cfg frames).observe Real.sqrt frame := by
      rw [after, List.foldl_concat, after]
    rw [hsnoc]
    exact ⟨hlen, fun x hx => of_decide_eq_true (hloud x hx)⟩

def flat (v : Sample) : List Sample := List.replicate 160 v

theorem frameRms_flat (v : Sample) : frameRms Real.sqrt (flat v) = |(v : ℝ)| := by
  have hmean : ((flat v).map fun s : Sample => (s : ℝ) * s).sum / (flat v).length = v * v := by
    rw [flat, List.map_replicate, List.sum_replicate, List.length_replicate, nsmul_eq_mul]
    field_simp
  rw [frameRms, hmean, Real.sqrt_mul_self_eq_abs]

/-- A background that varies is not reported; a voice over it is, at its second frame. -/
theorem onset_reported_voice :
    true ∉ (after Real.sqrt {} [flat 300, flat 500, [], flat (-700)]).returned ∧
      let cfg : VadConfig := { onsetFrames := 2, warmupFrames := 1 }
      (after Real.sqrt cfg [flat 300, flat 1000]).returned.count true ≤ 1 ∧
        ((after Real.sqrt cfg [flat 300, flat 1000]).v.observe Real.sqrt (flat 1000)).1 = true ∧
        let heard := (after Real.sqrt cfg [flat 300, flat 1000, flat 1000]).heard
        2 ≤ heard.length ∧ ∀ x ∈ heard.rtake 2, max 200 (x.1 * 3) ≤ x.2 := by
  have hflat : ∀ v, (flat v).isEmpty = false := fun v => rfl
  have hvoice : ((after Real.sqrt { onsetFrames := 2, warmupFrames := 1 } [flat 300, flat 1000]).v.observe Real.sqrt
      (flat 1000)).1 = true := by
    norm_num [after, observe, Vad.new, Vad.observe, Vad.classify, Vad.threshold, frameRms_flat, hflat]
  obtain ⟨hsteady, -⟩ := onset_reported {}
  obtain ⟨-, honset⟩ := onset_reported { onsetFrames := 2, warmupFrames := 1 }
  obtain ⟨honce, hreport⟩ := honset [flat 300, flat 1000]
  obtain ⟨hlen, hloud⟩ := hreport (flat 1000) hvoice
  refine ⟨hsteady 300 800 (by norm_num) (by norm_num) (by norm_num) (by norm_num) (by norm_num) _ ?_,
    honce, hvoice, hlen, fun x hx => ?_⟩
  · intro frame hframe _
    simp only [List.mem_cons, List.not_mem_nil, or_false] at hframe
    rcases hframe with rfl | rfl | rfl | rfl
    all_goals first | contradiction | norm_num [frameRms_flat]
  · have hx := hloud x hx
    norm_num at hx ⊢
    exact hx

end Hearing

end Kutsu
