import Mathlib.Algebra.Order.BigOperators.Group.List
import Mathlib.Analysis.SpecialFunctions.Pow.Real
import Kutsu.Lib.Smooth
import Kutsu.Model.Agc

/-! What the gain control does to frames below its noise floor. The gain is held on them, and with a gain over
unity that speech has built up some of them leave above the floor. -/

namespace Kutsu

open Smoothing

def Pcm (frame : List Sample) : Prop := ∀ s ∈ frame, -32768 ≤ s ∧ s ≤ 32767

namespace Agc

noncomputable def fresh (cfg : AgcConfig) : Agc ℝ := new (fun x => ((10 : ℕ) : ℝ) ^ x) cfg

noncomputable def run (cfg : AgcConfig) (frames : List (List Sample)) : Agc ℝ :=
  frames.foldl (fun a frame => (a.process Real.sqrt frame).2) (fresh cfg)

/-- A frame below the noise floor does not leave above it. -/
def HoldsQuiet (a : Agc ℝ) : Prop :=
  ∀ frame, Pcm frame → frameRms Real.sqrt frame < a.cfg.noiseFloorRms →
    frameRms Real.sqrt (a.process Real.sqrt frame).1 ≤ a.cfg.noiseFloorRms

noncomputable def scale (g : ℝ) (s : Sample) : Sample := Downsampler.clamp16 (roundAway ((s : ℝ) * g))

variable {a : Agc ℝ} {frame : List Sample} {g : ℝ}

theorem adapt_quiet {rms : ℝ} (h : rms < a.cfg.noiseFloorRms) : a.adapt rms = a :=
  if_neg fun hloud => not_le.mpr h hloud.1

theorem process_quiet (h : frameRms Real.sqrt frame < a.cfg.noiseFloorRms) :
    (a.process Real.sqrt frame).1 =
      if a.cfg.enabled = false ∨ frame = [] ∨ |a.gain - 1| < 1 / 1000 then frame else frame.map (scale a.gain) := by
  by_cases hoff : a.cfg.enabled = false
  · simp [process, hoff]
  by_cases hempty : frame = []
  · simp [process, hempty]
  rw [process, adapt_quiet h, if_neg (by simp [hoff, hempty])]
  by_cases hunity : |a.gain - 1| < 1 / 1000
  · rw [if_pos hunity, if_pos (Or.inr (Or.inr hunity))]
  · rw [if_neg hunity, if_neg (not_or.mpr ⟨hoff, not_or.mpr ⟨hempty, hunity⟩⟩)]
    rfl

theorem abs_roundAway_le (h0 : 0 ≤ g) (h1 : g ≤ 1) (s : ℤ) : |roundAway ((s : ℝ) * g)| ≤ |s| := by
  have habs : |(s : ℝ) * g| ≤ ((|s| : ℤ) : ℝ) := by
    rw [abs_mul, abs_of_nonneg h0, Int.cast_abs]
    exact mul_le_of_le_one_right (abs_nonneg _) h1
  rw [abs_le] at habs ⊢
  have hfloor : ∀ {x : ℝ}, 0 ≤ x → x ≤ ((|s| : ℤ) : ℝ) → 0 ≤ ⌊x + 1 / 2⌋ ∧ ⌊x + 1 / 2⌋ ≤ |s| := by
    intro x hpos hx
    refine ⟨Int.floor_nonneg.mpr (by linarith), Int.lt_add_one_iff.mp (Int.floor_lt.mpr ?_)⟩
    push_cast
    push_cast at hx
    linarith
  unfold roundAway
  split_ifs with hsign
  · have := hfloor hsign habs.2
    omega
  · have := hfloor (neg_nonneg.mpr (not_le.mp hsign).le) (by linarith [habs.1])
    omega

theorem abs_clamp16_le {n m : ℤ} (h : |n| ≤ m) : |Downsampler.clamp16 n| ≤ m := by
  rw [abs_le] at h ⊢
  change -m ≤ max (-32768 : ℤ) (min 32767 n) ∧ max (-32768 : ℤ) (min 32767 n) ≤ m
  omega

theorem abs_scale_le (h0 : 0 ≤ g) (h1 : g ≤ 1) (s : Sample) : |scale g s| ≤ |s| :=
  abs_clamp16_le (abs_roundAway_le h0 h1 s)

theorem frameRms_nonneg (frame : List Sample) : 0 ≤ frameRms Real.sqrt frame := Real.sqrt_nonneg _

theorem frameRms_map_le {f : Sample → Sample} (hf : ∀ s ∈ frame, |f s| ≤ |s|) :
    frameRms Real.sqrt (frame.map f) ≤ frameRms Real.sqrt frame := by
  rw [frameRms, frameRms, List.map_map, List.length_map]
  refine Real.sqrt_le_sqrt (div_le_div_of_nonneg_right (List.sum_le_sum fun s hs => ?_) (Nat.cast_nonneg _))
  have habs : |(f s : ℝ)| ≤ |(s : ℝ)| := by exact_mod_cast hf s hs
  exact abs_le_iff_mul_self_le.mp habs

theorem frameRms_le_full (hframe : ∀ s ∈ frame, |s| ≤ 32768) : frameRms Real.sqrt frame ≤ 32768 := by
  refine Real.sqrt_le_iff.mpr ⟨by norm_num, div_le_of_le_mul₀ (Nat.cast_nonneg _) (by norm_num) ?_⟩
  have hsum := List.sum_le_card_nsmul (frame.map fun s : Sample => (s : ℝ) * s) (32768 ^ 2) fun x hx => by
    obtain ⟨s, hs, rfl⟩ := List.mem_map.mp hx
    have habs : |(s : ℝ)| ≤ |(32768 : ℝ)| := by
      rw [abs_of_pos (by norm_num : (0 : ℝ) < 32768)]
      exact_mod_cast hframe s hs
    rw [sq]
    exact abs_le_iff_mul_self_le.mp habs
  rwa [List.length_map, nsmul_eq_mul, mul_comm] at hsum

theorem holdsQuiet_of_gain_lt (h0 : 0 ≤ a.gain) (hgain : a.gain < 1 + 1 / 1000) : a.HoldsQuiet := by
  intro frame _ hquiet
  rw [process_quiet hquiet]
  split_ifs with hsame
  · exact hquiet.le
  · have hfar : 1 / 1000 ≤ |a.gain - 1| := not_lt.mp fun hunity => hsame (Or.inr (Or.inr hunity))
    have h1 : a.gain ≤ 1 := by
      by_contra hover
      rw [abs_of_pos (sub_pos.mpr (not_le.mp hover))] at hfar
      linarith
    exact (frameRms_map_le fun s _ => abs_scale_le h0 h1 s).trans hquiet.le

theorem holdsQuiet_of_full (hfull : 32768 ≤ (a.cfg.noiseFloorRms : ℝ)) : a.HoldsQuiet := by
  intro frame hpcm hquiet
  rw [process_quiet hquiet]
  split_ifs
  · exact hquiet.le
  · refine (frameRms_le_full fun s hs => ?_).trans hfull
    obtain ⟨x, -, rfl⟩ := List.mem_map.mp hs
    rw [abs_le]
    change -32768 ≤ max (-32768 : ℤ) (min 32767 _) ∧ max (-32768 : ℤ) (min 32767 _) ≤ 32768
    omega

/-- A frame of `k` samples of one value and zeros up to `n`. -/
def burst (v : Sample) (k n : ℕ) : List Sample := List.replicate k v ++ List.replicate (n - k) 0

theorem burst_ne_nil {v : Sample} {k n : ℕ} (hk : 0 < k) : burst v k n ≠ [] := by
  simp [burst, hk.ne']

theorem frameRms_burst (v : Sample) {k n : ℕ} (hk : k ≤ n) :
    frameRms Real.sqrt (burst v k n) = Real.sqrt ((k : ℝ) / n * (v : ℝ) ^ 2) := by
  rw [frameRms, burst, List.length_append, List.length_replicate, List.length_replicate, Nat.add_sub_cancel' hk]
  simp only [List.map_append, List.map_replicate, List.sum_append, List.sum_replicate, nsmul_eq_mul, Int.cast_zero,
    mul_zero, add_zero]
  rw [← sq, mul_div_right_comm]

theorem pcm_burst {v : Sample} (hv : -32768 ≤ v ∧ v ≤ 32767) (k n : ℕ) : Pcm (burst v k n) := by
  intro s hs
  rcases List.mem_append.mp hs with hs | hs
  · rw [List.eq_of_mem_replicate hs]
    exact hv
  · rw [List.eq_of_mem_replicate hs]
    decide

theorem map_burst {f : Sample → Sample} (hf : f 0 = 0) (v : Sample) (k n : ℕ) :
    (burst v k n).map f = burst (f v) k n := by
  simp [burst, hf]

theorem exists_share (lo hi : ℝ) (h0 : 0 ≤ lo) (h : lo < hi) (h1 : lo < 1) :
    ∃ k n : ℕ, 0 < k ∧ k ≤ n ∧ lo < (k : ℝ) / n ∧ (k : ℝ) / n < hi := by
  obtain ⟨q, hlo, hhi⟩ := exists_rat_btwn (lt_min h h1)
  have hq : 0 < q := by exact_mod_cast h0.trans_lt hlo
  have hnum : ((q.num.toNat : ℤ) : ℝ) = q.num := by rw [Int.toNat_of_nonneg (Rat.num_nonneg.mpr hq.le)]
  have hshare : (q.num.toNat : ℝ) / q.den = q := by
    rw [← Int.cast_natCast, hnum, ← Rat.cast_def]
  have hden : (0 : ℝ) < q.den := Nat.cast_pos.mpr q.den_pos
  refine ⟨q.num.toNat, q.den, ?_, ?_, hshare ▸ hlo, hshare ▸ hhi.trans_le (min_le_left _ _)⟩
  · have := Rat.num_pos.mpr hq
    omega
  · have hlt : (q.num.toNat : ℝ) / q.den < 1 := hshare ▸ hhi.trans_le (min_le_right _ _)
    rw [div_lt_one hden] at hlt
    exact_mod_cast hlt.le

theorem scale_zero : scale g 0 = 0 := by
  have hhalf : ⌊(1 / 2 : ℝ)⌋ = 0 := by norm_num
  rw [scale, roundAway, Int.cast_zero, zero_mul, if_pos le_rfl, zero_add, hhalf]
  rfl

theorem scale_full (hg : 1 + 1 / 1000 ≤ g) : scale g (-32767) = -32768 := by
  have hneg : ¬ 0 ≤ ((-32767 : ℤ) : ℝ) * g := by
    push_cast
    linarith
  have hround : 32768 ≤ ⌊-(((-32767 : ℤ) : ℝ) * g) + 1 / 2⌋ := by
    rw [Int.le_floor]
    push_cast
    linarith
  rw [scale, roundAway, if_neg hneg]
  change max (-32768 : ℤ) (min 32767 _) = -32768
  omega

theorem not_holdsQuiet (hon : a.cfg.enabled = true) (hpos : 0 < (a.cfg.noiseFloorRms : ℝ))
    (hfull : (a.cfg.noiseFloorRms : ℝ) < 32768) (hgain : 1 + 1 / 1000 ≤ a.gain) : ¬ a.HoldsQuiet := by
  set floor := (a.cfg.noiseFloorRms : ℝ) with hfloor
  obtain ⟨k, n, hk, hkn, hlo, hhi⟩ := exists_share ((floor / 32768) ^ 2) ((floor / 32767) ^ 2)
    (sq_nonneg _)
    (pow_lt_pow_left₀ (div_lt_div_of_pos_left hpos (by norm_num) (by norm_num)) (by positivity) two_ne_zero)
    (pow_lt_one₀ (by positivity) ((div_lt_one (by norm_num)).mpr hfull) two_ne_zero)
  rw [div_pow, div_lt_iff₀ (by norm_num)] at hlo
  rw [div_pow, lt_div_iff₀ (by norm_num)] at hhi
  have hquiet : frameRms Real.sqrt (burst (-32767) k n) < floor := by
    rw [frameRms_burst _ hkn, Real.sqrt_lt' hpos]
    push_cast
    linarith
  have hlifted : floor < frameRms Real.sqrt (burst (-32768) k n) := by
    rw [frameRms_burst _ hkn, Real.lt_sqrt hpos.le]
    push_cast
    linarith
  have hchanged : ¬ (a.cfg.enabled = false ∨ burst (-32767) k n = [] ∨ |a.gain - 1| < 1 / 1000) := by
    rintro (hoff | hnil | hunity)
    · rw [hon] at hoff
      cases hoff
    · exact burst_ne_nil hk hnil
    · rw [abs_of_pos (by linarith)] at hunity
      linarith
  intro hholds
  have hout := hholds _ (pcm_burst (by decide) k n) hquiet
  rw [process_quiet hquiet, if_neg hchanged, map_burst scale_zero, scale_full hgain] at hout
  exact absurd hlifted (not_lt.mpr hout)

theorem holdsQuiet_iff (h0 : 0 ≤ a.gain) : a.HoldsQuiet ↔
    a.cfg.enabled = false ∨ (a.cfg.noiseFloorRms : ℝ) ≤ 0 ∨ 32768 ≤ (a.cfg.noiseFloorRms : ℝ) ∨
      a.gain < 1 + 1 / 1000 := by
  constructor
  · intro hholds
    by_contra hnone
    obtain ⟨hon, hpos, hfull, hgain⟩ : a.cfg.enabled = true ∧ 0 < (a.cfg.noiseFloorRms : ℝ) ∧
        (a.cfg.noiseFloorRms : ℝ) < 32768 ∧ 1 + 1 / 1000 ≤ a.gain := by
      simpa only [not_or, Bool.not_eq_false, not_le, not_lt] using hnone
    exact not_holdsQuiet hon hpos hfull hgain hholds
  · rintro (hoff | hneg | hfull | hgain)
    · intro frame _ hquiet
      rw [process_quiet hquiet, if_pos (Or.inl hoff)]
      exact hquiet.le
    · exact fun frame _ hquiet => absurd (hquiet.trans_le hneg) (not_lt.mpr (frameRms_nonneg frame))
    · exact holdsQuiet_of_full hfull
    · exact holdsQuiet_of_gain_lt h0 hgain

noncomputable def desired (a : Agc ℝ) (rms : ℝ) : ℝ := max 0 (min (a.targetRms / rms) a.maxGain)

theorem process_snd (a : Agc ℝ) (frame : List Sample) :
    (a.process Real.sqrt frame).2 =
      if a.cfg.enabled = false ∨ frame = [] then a else a.adapt (frameRms Real.sqrt frame) := by
  by_cases hoff : a.cfg.enabled = false
  · simp [process, hoff]
  by_cases hempty : frame = []
  · simp [process, hempty]
  rw [process, if_neg (by simp [hoff, hempty]), if_neg (not_or.mpr ⟨hoff, hempty⟩)]
  dsimp only
  split_ifs <;> rfl

theorem adapt_loud {rms : ℝ} (hfloor : a.cfg.noiseFloorRms ≤ rms) (hpos : 0 < rms) :
    a.adapt rms = { a with
      gain := toward ((if a.desired rms < a.gain then 3 / 10 else 1 / 20 : ℚ) : ℝ) a.gain (a.desired rms) } :=
  if_pos ⟨hfloor, hpos⟩

/-- The parameters are those of the configuration, and the gain is not negative. -/
structure Tuned (cfg : AgcConfig) (a : Agc ℝ) : Prop where
  targetRms : a.targetRms = (fresh cfg).targetRms
  maxGain : a.maxGain = (fresh cfg).maxGain
  gain : 0 ≤ a.gain
  cfg : a.cfg = cfg

variable {cfg : AgcConfig}

theorem process_snd_cases (a : Agc ℝ) (frame : List Sample) :
    (a.process Real.sqrt frame).2 = a ∨
      ((a.cfg.noiseFloorRms : ℝ) ≤ frameRms Real.sqrt frame ∧ ∃ α, 0 ≤ α ∧ α < 1 ∧
        (a.process Real.sqrt frame).2 =
          { a with gain := toward α a.gain (a.desired (frameRms Real.sqrt frame)) }) := by
  rw [process_snd]
  split_ifs
  · exact Or.inl rfl
  by_cases hloud : (a.cfg.noiseFloorRms : ℝ) ≤ frameRms Real.sqrt frame ∧ 0 < frameRms Real.sqrt frame
  · rw [adapt_loud hloud.1 hloud.2]
    refine Or.inr ⟨hloud.1, _, ?_, ?_, rfl⟩ <;> split_ifs <;> norm_num
  · exact Or.inl (if_neg hloud)

theorem Tuned.process (ha : a.Tuned cfg) (frame : List Sample) : (a.process Real.sqrt frame).2.Tuned cfg := by
  rcases process_snd_cases a frame with heq | ⟨-, α, h0, h1, heq⟩
  · rw [heq]
    exact ha
  · rw [heq]
    exact ⟨ha.targetRms, ha.maxGain, le_toward h0 h1.le ha.gain (le_max_left _ _), ha.cfg⟩

theorem tuned_run (cfg : AgcConfig) (frames : List (List Sample)) : (run cfg frames).Tuned cfg :=
  List.foldlRecOn (motive := Tuned cfg) frames _ ⟨rfl, rfl, zero_le_one, rfl⟩ fun _ ha frame _ => ha.process frame

theorem run_concat (cfg : AgcConfig) (frames : List (List Sample)) (frame : List Sample) :
    run cfg (frames ++ [frame]) = ((run cfg frames).process Real.sqrt frame).2 := List.foldl_concat ..

/-- Where no frame asks for more, the gain stays within a thousandth of unity or below it. -/
theorem gain_run_lt (hpos : 0 < (cfg.noiseFloorRms : ℝ))
    (hlow : (fresh cfg).targetRms ≤ (1 + 1 / 1000) * cfg.noiseFloorRms ∨ (fresh cfg).maxGain ≤ 1 + 1 / 1000)
    (frames : List (List Sample)) :
    (run cfg frames).gain < 1 + 1 / 1000 := by
  induction frames using List.reverseRecOn with
  | nil => exact lt_add_of_pos_right 1 (by norm_num)
  | append_singleton frames frame ih =>
    have ht := tuned_run cfg frames
    rw [run_concat]
    rcases process_snd_cases (run cfg frames) frame with heq | ⟨hfloor, α, h0, h1, heq⟩
    · rw [heq]
      exact ih
    · rw [heq]
      refine toward_lt h0 h1 ih (max_le (by norm_num) ?_)
      rw [ht.cfg] at hfloor
      rw [ht.targetRms, ht.maxGain]
      rcases hlow with htarget | hmax
      · refine (min_le_left _ _).trans ((div_le_iff₀ (hpos.trans_le hfloor)).mpr (htarget.trans ?_))
        exact mul_le_mul_of_nonneg_left hfloor (by norm_num)
      · exact (min_le_right _ _).trans hmax

theorem gain_run_replicate (hon : cfg.enabled = true) (hne : frame ≠ []) {goal : ℝ} (hgoal : 1 ≤ goal)
    (hfloor : (cfg.noiseFloorRms : ℝ) ≤ frameRms Real.sqrt frame) (hpos : 0 < frameRms Real.sqrt frame)
    (hdesired : (fresh cfg).desired (frameRms Real.sqrt frame) = goal) (m : ℕ) :
    (run cfg (List.replicate m frame)).gain = (fun x => toward (1 / 20) x goal)^[m] 1 := by
  induction m with
  | zero => rfl
  | succ m ih =>
    have ht := tuned_run cfg (List.replicate m frame)
    have hup : ¬ goal < (run cfg (List.replicate m frame)).gain := by
      rw [ih]
      exact not_lt.mpr (iterate_toward_le (by norm_num) hgoal m)
    have hstate : (run cfg (List.replicate m frame)).desired (frameRms Real.sqrt frame) = goal := by
      rw [desired, ht.targetRms, ht.maxGain, ← hdesired, desired]
    have hloud : ((run cfg (List.replicate m frame)).cfg.noiseFloorRms : ℝ) ≤ frameRms Real.sqrt frame := by
      rw [ht.cfg]
      exact hfloor
    rw [List.replicate_succ', run_concat, process_snd, ht.cfg, if_neg (not_or.mpr ⟨by simp [hon], hne⟩),
      adapt_loud hloud hpos, hstate, if_neg hup, Function.iterate_succ_apply', ← ih]
    norm_num

theorem exists_run_gain (hon : cfg.enabled = true) (hpos : 0 < (cfg.noiseFloorRms : ℝ))
    (hfull : (cfg.noiseFloorRms : ℝ) < 32768)
    (htarget : (1 + 1 / 1000) * cfg.noiseFloorRms < (fresh cfg).targetRms)
    (hmax : 1 + 1 / 1000 < (fresh cfg).maxGain) :
    ∃ frames, (∀ frame ∈ frames, Pcm frame) ∧ 1 + 1 / 1000 ≤ (run cfg frames).gain := by
  set floor := (cfg.noiseFloorRms : ℝ) with hfloor
  set top := (fresh cfg).targetRms / (1 + 1 / 1000) with htop
  have hlt : floor < top := (lt_div_iff₀' (by norm_num)).mpr htarget
  -- speech at a level between the floor and the one that asks for a gain of a thousandth over unity
  obtain ⟨k, n, hk, hkn, hlo, hhi⟩ := exists_share ((floor / 32768) ^ 2) ((top / 32768) ^ 2)
    (sq_nonneg _)
    (pow_lt_pow_left₀ (div_lt_div_of_pos_right hlt (by norm_num)) (by positivity) two_ne_zero)
    (pow_lt_one₀ (by positivity) ((div_lt_one (by norm_num)).mpr hfull) two_ne_zero)
  rw [div_pow, div_lt_iff₀ (by norm_num)] at hlo
  rw [div_pow, lt_div_iff₀ (by norm_num)] at hhi
  have hloud : floor < frameRms Real.sqrt (burst (-32768) k n) := by
    rw [frameRms_burst _ hkn, Real.lt_sqrt hpos.le]
    push_cast
    linarith
  have hlow : frameRms Real.sqrt (burst (-32768) k n) < top := by
    rw [frameRms_burst _ hkn, Real.sqrt_lt' (hpos.trans hlt)]
    push_cast
    linarith
  have hgoal : 1 + 1 / 1000 < (fresh cfg).desired (frameRms Real.sqrt (burst (-32768) k n)) := by
    refine lt_max_of_lt_right (lt_min ?_ hmax)
    rw [htop, lt_div_iff₀' (by norm_num)] at hlow
    rwa [lt_div_iff₀ (hpos.trans hloud)]
  obtain ⟨m, hm⟩ := exists_le_iterate_toward (α := 1 / 20) (x := 1) (by norm_num)
    (by linarith : 1 ≤ (fresh cfg).desired (frameRms Real.sqrt (burst (-32768) k n))) hgoal
  refine ⟨List.replicate m (burst (-32768) k n), fun frame hmem => ?_, ?_⟩
  · rw [List.eq_of_mem_replicate hmem]
    exact pcm_burst (by decide) k n
  · rwa [gain_run_replicate hon (burst_ne_nil hk) (by linarith) hloud.le (hpos.trans hloud) rfl]

/-- The gain control lifts no background above the noise floor, whatever it has processed, exactly when it cannot
reach a gain of a thousandth over unity: it is off, the floor is out of the range of a frame, or the target or the
cap is too low. In a run it depends on the gain held. -/
theorem background_held_iff (cfg : AgcConfig) :
    ((∀ frames, (∀ frame ∈ frames, Pcm frame) → (run cfg frames).HoldsQuiet) ↔
      cfg.enabled = false ∨ (cfg.noiseFloorRms : ℝ) ≤ 0 ∨ 32768 ≤ (cfg.noiseFloorRms : ℝ) ∨
        (fresh cfg).targetRms ≤ (1 + 1 / 1000) * cfg.noiseFloorRms ∨ (fresh cfg).maxGain ≤ 1 + 1 / 1000) ∧
      ∀ frames, (run cfg frames).HoldsQuiet ↔
        cfg.enabled = false ∨ (cfg.noiseFloorRms : ℝ) ≤ 0 ∨ 32768 ≤ (cfg.noiseFloorRms : ℝ) ∨
          (run cfg frames).gain < 1 + 1 / 1000 := by
  have hrun : ∀ frames, (run cfg frames).HoldsQuiet ↔
      cfg.enabled = false ∨ (cfg.noiseFloorRms : ℝ) ≤ 0 ∨ 32768 ≤ (cfg.noiseFloorRms : ℝ) ∨
        (run cfg frames).gain < 1 + 1 / 1000 := by
    intro frames
    rw [holdsQuiet_iff (tuned_run cfg frames).gain, (tuned_run cfg frames).cfg]
  refine ⟨⟨fun hall => ?_, fun hcond frames _ => ?_⟩, hrun⟩
  · by_contra hnone
    obtain ⟨hon, hpos, hfull, htarget, hmax⟩ : cfg.enabled = true ∧ 0 < (cfg.noiseFloorRms : ℝ) ∧
        (cfg.noiseFloorRms : ℝ) < 32768 ∧ (1 + 1 / 1000) * cfg.noiseFloorRms < (fresh cfg).targetRms ∧
        1 + 1 / 1000 < (fresh cfg).maxGain := by
      simpa only [not_or, Bool.not_eq_false, not_le] using hnone
    obtain ⟨frames, hpcm, hgain⟩ := exists_run_gain hon hpos hfull htarget hmax
    rcases (hrun frames).mp (hall frames hpcm) with hoff | hneg | hover | hlow
    · rw [hon] at hoff
      cases hoff
    · exact absurd hpos (not_lt.mpr hneg)
    · exact absurd hfull (not_lt.mpr hover)
    · exact absurd hlow (not_lt.mpr hgain)
  · rw [hrun]
    rcases hcond with hoff | hneg | hover | hlow
    · exact Or.inl hoff
    · exact Or.inr (Or.inl hneg)
    · exact Or.inr (Or.inr (Or.inl hover))
    · refine Or.inr ((le_or_gt (cfg.noiseFloorRms : ℝ) 0).imp_right fun hpos => Or.inr ?_)
      exact gain_run_lt hpos hlow frames

theorem targetRms_default : 4096 ≤ (fresh {}).targetRms := by
  have hpow : ((10 : ℝ) ^ (((-18 : ℚ) : ℝ) / 20)) ^ 10 = (10 ^ 9)⁻¹ := by
    rw [← Real.rpow_natCast, ← Real.rpow_mul (by norm_num), ← Real.rpow_natCast 10 9, ← Real.rpow_neg (by norm_num)]
    norm_num
  have hroot : (1 / 8 : ℝ) ≤ (10 : ℝ) ^ (((-18 : ℚ) : ℝ) / 20) := by
    refine le_of_pow_le_pow_left₀ (n := 10) (by norm_num) (by positivity) ?_
    rw [hpow]
    norm_num
  calc (4096 : ℝ) = 32768 * (1 / 8) := by norm_num
    _ ≤ 32768 * (10 : ℝ) ^ (((-18 : ℚ) : ℝ) / 20) := mul_le_mul_of_nonneg_left hroot (by norm_num)

theorem maxGain_default : 8 ≤ (fresh {}).maxGain := by
  calc (8 : ℝ) ≤ (10 : ℝ) ^ (1 : ℝ) := by norm_num
    _ ≤ (10 : ℝ) ^ (((30 : ℚ) : ℝ) / 20) := Real.rpow_le_rpow_of_exponent_le (by norm_num) (by norm_num)

/-- With the default configuration one frame of speech at 500 takes the gain over 1.3, and a background of 190,
under the floor of 200, leaves above it. -/
theorem speech_lifts_background :
    Pcm (burst 500 160 160) ∧ Pcm (burst 190 160 160) ∧
      frameRms Real.sqrt (burst 190 160 160) < (({} : AgcConfig).noiseFloorRms : ℝ) ∧
      (({} : AgcConfig).noiseFloorRms : ℝ) <
        frameRms Real.sqrt ((run {} [burst 500 160 160]).process Real.sqrt (burst 190 160 160)).1 := by
  have hlevel : ∀ v : Sample, 0 ≤ v → frameRms Real.sqrt (burst v 160 160) = v := by
    intro v hv
    rw [frameRms_burst v le_rfl, Nat.cast_ofNat, div_self (by norm_num), one_mul, Real.sqrt_sq (Int.cast_nonneg hv)]
  have hfloor : ((({} : AgcConfig).noiseFloorRms : ℚ) : ℝ) = 200 := by norm_num
  have hquiet : frameRms Real.sqrt (burst 190 160 160) < (({} : AgcConfig).noiseFloorRms : ℝ) := by
    rw [hlevel 190 (by decide), hfloor]
    norm_num
  have hdesired : 8 ≤ (fresh {}).desired (frameRms Real.sqrt (burst 500 160 160)) := by
    refine le_max_of_le_right (le_min ?_ maxGain_default)
    rw [hlevel 500 (by decide), le_div_iff₀ (by norm_num)]
    exact le_trans (by norm_num) targetRms_default
  have hgain : 1.3 ≤ (run {} [burst 500 160 160]).gain := by
    have hspeech : frameRms Real.sqrt (burst 500 160 160) = 500 := by
      rw [hlevel 500 (by decide)]
      norm_num
    have hone : (run {} (List.replicate 1 (burst 500 160 160))).gain = (fun x => toward (1 / 20) x _)^[1] 1 :=
      gain_run_replicate rfl (burst_ne_nil (by decide)) (by linarith) (by rw [hspeech, hfloor]; norm_num)
        (by rw [hspeech]; norm_num) rfl 1
    rw [List.replicate_one, Function.iterate_one, toward] at hone
    rw [hone]
    linarith
  have hlouder : 247 ≤ scale (run {} [burst 500 160 160]).gain 190 := by
    have hpos : 0 ≤ ((190 : ℤ) : ℝ) * (run {} [burst 500 160 160]).gain := by push_cast; linarith
    have hround : 247 ≤ ⌊((190 : ℤ) : ℝ) * (run {} [burst 500 160 160]).gain + 1 / 2⌋ := by
      rw [Int.le_floor]
      push_cast
      linarith
    rw [scale, roundAway, if_pos hpos]
    change 247 ≤ max (-32768 : ℤ) (min 32767 _)
    omega
  have hcfg := (tuned_run {} [burst 500 160 160]).cfg
  have hchanged : ¬ ((run {} [burst 500 160 160]).cfg.enabled = false ∨ burst 190 160 160 = [] ∨
      |(run {} [burst 500 160 160]).gain - 1| < 1 / 1000) := by
    rw [hcfg, abs_of_pos (by linarith)]
    rintro (hoff | hnil | hunity)
    · cases hoff
    · exact burst_ne_nil (by decide) hnil
    · linarith
  refine ⟨pcm_burst (by decide) _ _, pcm_burst (by decide) _ _, hquiet, ?_⟩
  rw [process_quiet (by rw [hcfg]; exact hquiet), if_neg hchanged, map_burst scale_zero,
    hlevel _ ((by decide : (0 : ℤ) ≤ 247).trans hlouder), hfloor]
  exact_mod_cast (by decide : (200 : ℤ) < 247).trans_le hlouder

end Agc

end Kutsu
