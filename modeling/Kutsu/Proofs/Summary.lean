import Kutsu.Lib.Count
import Kutsu.Model.NetCheck

/-! When the pings that a probe has measured make the network unusable. A percentile passes a bound when few enough
pings stay within it, and from thirteen pings on the 95th passes over two slow ones. The slowest ping alone decides
nothing. -/

namespace Kutsu

open Counting Rounding

def ranked (rtts : List ℕ) : List ℕ := rtts.insertionSort (· ≤ ·)

/-- The place among all `n` pings of a percentile that is taken without the slowest. -/
def gateIndex (n hundredths : ℕ) : ℕ := quantileIndex (n - 1) hundredths

variable {crate : Crate} {cfg : NetCheckConfig} {rtts : List ℕ} {n q x : ℕ}

theorem gateIndex_lt (hn : 2 < n) (hq : q ≤ 100) : gateIndex n q < n - 1 := by
  have hmul : (n - 1 - 1) * q ≤ (n - 1 - 1) * 100 := Nat.mul_le_mul_left _ hq
  unfold gateIndex quantileIndex
  omega

theorem length_ranked (rtts : List ℕ) : (ranked rtts).length = rtts.length := List.length_insertionSort ..

theorem ranked_dropLast (hn : 2 < rtts.length) (hq : q ≤ 100) :
    (ranked rtts).dropLast.getD (gateIndex rtts.length q) 0 = (ranked rtts).getD (gateIndex rtts.length q) 0 := by
  have hlt := gateIndex_lt hn hq
  rw [List.getD_eq_getElem?_getD, List.getD_eq_getElem?_getD, List.getElem?_dropLast, length_ranked, if_pos hlt]

theorem lt_ranked_iff {i : ℕ} (hi : i < rtts.length) : x < (ranked rtts).getD i 0 ↔ rtts.countP (· ≤ x) ≤ i := by
  have hi' : i < (ranked rtts).length := by rwa [length_ranked]
  have hsorted : (ranked rtts).Pairwise (· ≤ ·) := List.pairwise_insertionSort ..
  have hperm : (ranked rtts).countP (· ≤ x) = rtts.countP (· ≤ x) := (List.perm_insertionSort ..).countP_eq _
  rw [List.getD_eq_getElem?_getD, List.getElem?_eq_getElem hi', Option.getD_some, ← not_le,
    getElem_le_iff_lt_countP hsorted hi', hperm, not_lt]

/-- The percentile of the pings without the slowest. -/
def gated (rtts : List ℕ) (q : ℕ) : ℕ := (ranked rtts).getD (gateIndex rtts.length q) 0

theorem summarize_gated (crate : Crate) (lost total : ℕ) (hn : 2 < rtts.length) : summarize crate rtts lost total =
    ⟨gated rtts 50, gated rtts 95, (ranked rtts).getD (quantileIndex rtts.length 95) 0, gated rtts 95 - gated rtts 50,
      f32 (f32 (f32 lost / f32 total) * 100), crate.f32Text (f32 (f32 (f32 lost / f32 total) * 100)), 0, 0⟩ := by
  have hne : rtts.isEmpty = false := by
    cases rtts with
    | nil => cases hn
    | cons t rtts => rfl
  have hp : ∀ q ≤ 100,
      (rtts.insertionSort (· ≤ ·)).dropLast.getD (quantileIndex (rtts.length - 1) q) 0 = gated rtts q :=
    fun q hq => ranked_dropLast hn hq
  unfold summarize
  simp only [hne, Bool.false_eq_true, if_false, List.length_insertionSort, hn, if_true, List.length_dropLast,
    hp 50 (by decide), hp 95 (by decide)]
  rfl

theorem unusable_iff (hn : 2 < rtts.length) :
    verdict (summarize crate rtts 0 rtts.length) cfg = .unusable ↔
      cfg.maxRttMs < gated rtts 95 ∨ cfg.maxJitterMs < gated rtts 95 - gated rtts 50 ∨ cfg.maxLossPct < 0 := by
  have hloss : f32 (f32 (f32 (0 : ℕ) / f32 rtts.length) * 100) = 0 := by
    rw [Nat.cast_zero, f32_zero, zero_div, f32_zero, zero_mul, f32_zero]
  have hsetup : ¬ (0 < cfg.maxSetupMs ∧ cfg.maxSetupMs < satAdd32 0 0) := by
    rintro ⟨hpos, hlt⟩
    exact absurd hlt (Nat.not_lt_zero _)
  rw [summarize_gated crate 0 rtts.length hn, verdict]
  dsimp only
  simp only [hloss, hsetup, or_false]
  split_ifs with hbad
  · exact iff_of_true rfl hbad
  · exact iff_of_false (by decide) hbad

theorem countP_over (rtts : List ℕ) (x : ℕ) : rtts.countP (· ≤ x) + rtts.countP (x < ·) = rtts.length := by
  rw [List.length_eq_countP_add_countP fun t => decide (t ≤ x)]
  simp

theorem rtt_gate_iff (hn : 2 < rtts.length) :
    x < gated rtts 95 ↔ rtts.length - gateIndex rtts.length 95 ≤ rtts.countP (x < ·) := by
  have hlt := gateIndex_lt hn (by decide : 95 ≤ 100)
  have hcount := countP_over rtts x
  rw [gated, lt_ranked_iff (by omega)]
  omega

/-- The spread passes a bound when some level has the median within it and, with the bound added, too few pings. -/
theorem jitter_gate_iff (hn : 2 < rtts.length) :
    x < gated rtts 95 - gated rtts 50 ↔
      ∃ v, gateIndex rtts.length 50 < rtts.countP (· ≤ v) ∧ rtts.countP (· ≤ v + x) ≤ gateIndex rtts.length 95 := by
  have h95 := gateIndex_lt hn (by decide : 95 ≤ 100)
  have h50 := gateIndex_lt hn (by decide : 50 ≤ 100)
  have hmedian : ∀ v, gateIndex rtts.length 50 < rtts.countP (· ≤ v) ↔ gated rtts 50 ≤ v := by
    intro v
    rw [← not_le, ← lt_ranked_iff (by omega), not_lt, gated]
  have hslow : ∀ v, rtts.countP (· ≤ v + x) ≤ gateIndex rtts.length 95 ↔ v + x < gated rtts 95 := by
    intro v
    rw [← lt_ranked_iff (by omega), gated]
  simp only [hmedian, hslow]
  constructor
  · intro hspread
    exact ⟨gated rtts 50, le_rfl, by omega⟩
  · rintro ⟨v, hle, hlt⟩
    omega

def twoSlow (n x : ℕ) : List ℕ := List.replicate (n - 2) 0 ++ [x + 1, x + 1]

theorem countP_twoSlow (n x : ℕ) : (twoSlow n x).countP (x < ·) = 2 := by
  simp [twoSlow, List.countP_append, List.countP_replicate]

theorem le_countP_twoSlow (n x v : ℕ) : n - 2 ≤ (twoSlow n x).countP (· ≤ v) := by
  simp [twoSlow, List.countP_append, List.countP_replicate]

/-- Up to twelve pings two slow ones make the network unusable, whatever the times. From thirteen on the 95th
percentile without the slowest is over the bound only when enough pings are, and two are not. -/
theorem slow_pings_unusable_iff (crate : Crate) (cfg : NetCheckConfig) (hsamples : 3 ≤ cfg.samples) :
    ((∀ rtts : List ℕ, rtts.length = cfg.samples → (∀ t ∈ rtts, t < UInt32.size) →
        2 ≤ rtts.countP (cfg.maxRttMs < ·) → verdict (summarize crate rtts 0 cfg.samples) cfg = .unusable) ↔
      cfg.samples ≤ 12 ∨ cfg.maxLossPct < 0 ∨ UInt32.size ≤ cfg.maxRttMs + 1) ∧
      ∀ rtts : List ℕ, rtts.length = cfg.samples →
        (verdict (summarize crate rtts 0 cfg.samples) cfg = .unusable ↔
          cfg.samples - gateIndex cfg.samples 95 ≤ rtts.countP (cfg.maxRttMs < ·) ∨
            (∃ v, gateIndex cfg.samples 50 < rtts.countP (· ≤ v) ∧
              rtts.countP (· ≤ v + cfg.maxJitterMs) ≤ gateIndex cfg.samples 95) ∨ cfg.maxLossPct < 0) := by
  have hlist : ∀ rtts : List ℕ, rtts.length = cfg.samples →
      (verdict (summarize crate rtts 0 cfg.samples) cfg = .unusable ↔
        cfg.samples - gateIndex cfg.samples 95 ≤ rtts.countP (cfg.maxRttMs < ·) ∨
          (∃ v, gateIndex cfg.samples 50 < rtts.countP (· ≤ v) ∧
            rtts.countP (· ≤ v + cfg.maxJitterMs) ≤ gateIndex cfg.samples 95) ∨ cfg.maxLossPct < 0) := by
    intro rtts hlen
    have hn : 2 < rtts.length := by omega
    rw [← hlen, unusable_iff hn, rtt_gate_iff hn, jitter_gate_iff hn]
  refine ⟨⟨fun hall => ?_, fun hcond rtts hlen hsize hslow => (hlist rtts hlen).mpr ?_⟩, hlist⟩
  · by_contra hnone
    obtain ⟨hmany, hloss, hrtt⟩ : 12 < cfg.samples ∧ 0 ≤ cfg.maxLossPct ∧ cfg.maxRttMs + 1 < UInt32.size := by
      simpa only [not_or, not_le, not_lt] using hnone
    have hindex : gateIndex cfg.samples 95 < cfg.samples - 2 := by
      unfold gateIndex quantileIndex
      omega
    have hlen : (twoSlow cfg.samples cfg.maxRttMs).length = cfg.samples := by
      simp only [twoSlow, List.length_append, List.length_replicate, List.length_cons, List.length_nil]
      omega
    have hbad := hall (twoSlow cfg.samples cfg.maxRttMs) hlen (fun t ht => ?_) (countP_twoSlow _ _).ge
    · rcases (hlist _ hlen).mp hbad with hgate | ⟨v, -, hjitter⟩ | hneg
      · rw [countP_twoSlow] at hgate
        omega
      · have := le_countP_twoSlow cfg.samples cfg.maxRttMs (v + cfg.maxJitterMs)
        omega
      · exact absurd hneg (not_lt.mpr hloss)
    · simp only [twoSlow, List.mem_append, List.mem_replicate, List.mem_cons, List.not_mem_nil, or_false, or_self] at ht
      rcases ht with ⟨-, rfl⟩ | rfl
      · decide
      · exact hrtt
  · rcases hcond with hfew | hneg | hover
    · left
      refine le_trans ?_ hslow
      unfold gateIndex quantileIndex
      omega
    · exact Or.inr (Or.inr hneg)
    · have hnone : rtts.countP (cfg.maxRttMs < ·) = 0 := by
        refine List.countP_eq_zero.mpr fun t ht hlt => ?_
        have := hsize t ht
        have := of_decide_eq_true hlt
        omega
      omega

/-- The default configuration takes ten pings, and two slow ones show. -/
theorem slow_pings_unusable_ten : 3 ≤ ({} : NetCheckConfig).samples ∧
    ∀ crate, verdict (summarize crate (twoSlow 10 300) 0 10) {} = .unusable :=
  ⟨by decide, fun crate => ((slow_pings_unusable_iff crate {} (by decide)).1.mpr (Or.inl (by decide)))
    (twoSlow 10 300) (by decide) (by decide) (by decide)⟩

def spiky : List ℕ := List.replicate 11 100 ++ [600, 600]

/-- The two slow pings are trimmed away: the network is taken to be good. -/
theorem spiky_ok : spiky.length = 13 ∧ spiky.countP (300 < ·) = 2 ∧
    ∀ crate, verdict (summarize crate spiky 0 13) { samples := 13 } = .ok := by
  refine ⟨by decide, by decide, fun crate => ?_⟩
  have hgood : ¬ verdict (summarize crate spiky 0 spiky.length) { samples := 13 } = .unusable := by
    rw [unusable_iff (by decide)]
    decide
  cases h : verdict (summarize crate spiky 0 spiky.length) { samples := 13 } with
  | ok => exact h
  | unusable => exact absurd h hgood

theorem ranked_of_max {rest : List ℕ} {m : ℕ} (hperm : rtts.Perm (m :: rest)) (hmax : ∀ t ∈ rest, t ≤ m) :
    ranked rtts = ranked rest ++ [m] := by
  have hsorted : (ranked rtts).Pairwise (· ≤ ·) := List.pairwise_insertionSort ..
  have hrest : (ranked rest ++ [m]).Pairwise (· ≤ ·) := by
    refine List.pairwise_append.mpr ⟨List.pairwise_insertionSort .., List.pairwise_singleton _ _, fun t ht u hu => ?_⟩
    rw [List.mem_singleton.mp hu]
    exact hmax t ((List.mem_insertionSort _).mp ht)
  have hsame : (m :: rest).Perm (ranked rest ++ [m]) :=
    ((List.perm_insertionSort ..).symm.cons m).trans (List.perm_append_singleton m _).symm
  exact List.Perm.eq_of_pairwise' hsorted hrest (((List.perm_insertionSort ..).trans hperm).trans hsame)

theorem gated_of_max {rest : List ℕ} {m : ℕ} (hn : 2 < rtts.length) (hq : q ≤ 100) (hperm : rtts.Perm (m :: rest))
    (hmax : ∀ t ∈ rest, t ≤ m) : gated rtts q = (ranked rest).getD (gateIndex rtts.length q) 0 := by
  rw [gated, ← ranked_dropLast hn hq, ranked_of_max hperm hmax, List.dropLast_concat]

theorem gated_set {i m x : ℕ} (hn : 2 < rtts.length) (hq : q ≤ 100) (hi : rtts[i]? = some m) (hmax : ∀ t ∈ rtts, t ≤ m)
    (hx : m ≤ x) : gated (rtts.set i x) q = gated rtts q := by
  obtain ⟨hlt, hget⟩ := List.getElem?_eq_some_iff.mp hi
  have hold : rtts.Perm (m :: rtts.eraseIdx i) := hget ▸ (List.getElem_cons_eraseIdx_perm hlt).symm
  have hnew : (rtts.set i x).Perm (x :: rtts.eraseIdx i) := List.set_perm_cons_eraseIdx hlt x
  have hrest : ∀ t ∈ rtts.eraseIdx i, t ≤ m := fun t ht => hmax t (List.mem_of_mem_eraseIdx ht)
  have hn' : 2 < (rtts.set i x).length := by rwa [List.length_set]
  rw [gated_of_max hn' hq hnew fun t ht => (hrest t ht).trans hx, gated_of_max hn hq hold hrest, List.length_set]

theorem quantileIndex_mono {k : ℕ} (h : n ≤ k) : quantileIndex n q ≤ quantileIndex k q := by
  unfold quantileIndex
  gcongr

theorem getElem?_ranked {i : ℕ} (hi : i < rtts.length) : (ranked rtts)[i]? = some ((ranked rtts).getD i 0) := by
  have hi' : i < (ranked rtts).length := by rwa [length_ranked]
  rw [List.getD_eq_getElem?_getD, List.getElem?_eq_getElem hi', Option.getD_some]

theorem ranked_mono {i j : ℕ} (hij : i ≤ j) (hj : j < rtts.length) :
    (ranked rtts).getD i 0 ≤ (ranked rtts).getD j 0 := by
  have hsorted : (ranked rtts).Pairwise (· ≤ ·) := List.pairwise_insertionSort ..
  obtain ⟨hi', hgeti⟩ := List.getElem?_eq_some_iff.mp (getElem?_ranked (lt_of_le_of_lt hij hj))
  obtain ⟨hj', hgetj⟩ := List.getElem?_eq_some_iff.mp (getElem?_ranked hj)
  rw [← hgeti, ← hgetj]
  exact hsorted.rel_get_of_le (a := ⟨i, hi'⟩) (b := ⟨j, hj'⟩) hij

/-- Each percentile is read within the list it is taken from, the trimmed ones are in order below the raw one, and
when the slowest ping takes longer nothing that the verdict looks at changes. -/
theorem summarize_ignores_outlier (crate : Crate) (hn : 3 ≤ rtts.length) (lost total : ℕ) :
    let h := summarize crate rtts lost total
    ((ranked rtts).dropLast[quantileIndex (rtts.length - 1) 50]? = some h.rttP50Ms ∧
      (ranked rtts).dropLast[quantileIndex (rtts.length - 1) 95]? = some h.rttP95Ms ∧
      (ranked rtts)[quantileIndex rtts.length 95]? = some h.rttP95RawMs) ∧
    (h.rttP50Ms ≤ h.rttP95Ms ∧ h.rttP95Ms ≤ h.rttP95RawMs ∧ h.jitterMs = h.rttP95Ms - h.rttP50Ms) ∧
    ∀ i m x, rtts[i]? = some m → (∀ t ∈ rtts, t ≤ m) → m ≤ x →
      let h' := summarize crate (rtts.set i x) lost total
      (h'.rttP50Ms = h.rttP50Ms ∧ h'.rttP95Ms = h.rttP95Ms ∧ h'.jitterMs = h.jitterMs ∧ h'.lossPct = h.lossPct) ∧
      ∀ cfg connectMs setupMs,
        verdict { h' with connectMs, setupMs } cfg = verdict { h with connectMs, setupMs } cfg := by
  have hgate : ∀ q ≤ 100, gateIndex rtts.length q < rtts.length - 1 := fun q hq => gateIndex_lt hn hq
  have hraw : quantileIndex rtts.length 95 < rtts.length := by
    unfold quantileIndex
    omega
  have hread : ∀ q ≤ 100, (ranked rtts).dropLast[gateIndex rtts.length q]? = some (gated rtts q) := by
    intro q hq
    have hlt := hgate q hq
    rw [List.getElem?_dropLast, length_ranked, if_pos hlt, getElem?_ranked (by omega), gated]
  intro h
  have hh : h = _ := summarize_gated crate lost total hn
  refine ⟨⟨?_, ?_, ?_⟩, ⟨?_, ?_, ?_⟩, fun i m x hi hmax hx => ?_⟩
  · rw [hh]
    exact hread 50 (by decide)
  · rw [hh]
    exact hread 95 (by decide)
  · rw [hh]
    exact getElem?_ranked hraw
  · have hlt := hgate 95 (by decide)
    have hmono : gateIndex rtts.length 50 ≤ gateIndex rtts.length 95 := by
      unfold gateIndex quantileIndex
      omega
    rw [hh]
    exact ranked_mono hmono (by omega)
  · rw [hh]
    exact ranked_mono (quantileIndex_mono (Nat.sub_le _ _)) hraw
  · rw [hh]
  · intro h'
    have hn' : 3 ≤ (rtts.set i x).length := by rwa [List.length_set]
    have hh' : h' = _ := summarize_gated crate lost total hn'
    have hgated : ∀ q ≤ 100, gated (rtts.set i x) q = gated rtts q := fun q hq => gated_set hn hq hi hmax hx
    rw [hgated 50 (by decide), hgated 95 (by decide)] at hh'
    rw [hh, hh']
    exact ⟨⟨rfl, rfl, rfl, rfl⟩, fun cfg connectMs setupMs => rfl⟩

/-- The slowest of three pings comes to take a minute. -/
theorem summarize_ignores_outlier_three : 3 ≤ [40, 90, 60].length ∧ ∀ crate,
    let h := summarize crate [40, 90, 60] 0 3
    (h.rttP50Ms = 60 ∧ h.rttP95Ms = 60 ∧ h.rttP95RawMs = 90 ∧ h.jitterMs = 0) ∧
    ∀ cfg, verdict (summarize crate [40, 60000, 60] 0 3) cfg = verdict h cfg := by
  refine ⟨by decide, ?_⟩
  intro crate h
  obtain ⟨⟨h50, h95, hraw⟩, ⟨-, -, hjitter⟩, hslow⟩ :=
    summarize_ignores_outlier crate (by decide : 3 ≤ [40, 90, 60].length) 0 3
  have hfifty : h.rttP50Ms = 60 := (Option.some.inj h50).symm
  have hninety : h.rttP95Ms = 60 := (Option.some.inj h95).symm
  refine ⟨⟨hfifty, hninety, (Option.some.inj hraw).symm, hjitter.trans (by rw [hninety, hfifty])⟩, fun cfg => ?_⟩
  exact (hslow 1 90 60000 rfl (by decide) (by decide)).2 cfg 0 0

end Kutsu
