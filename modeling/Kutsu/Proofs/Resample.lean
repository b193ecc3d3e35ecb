import Mathlib.Algebra.BigOperators.Ring.Finset
import Kutsu.Lib.Window
import Kutsu.Model.Resample

/-! The downsampler against the convolution that it is meant to be, however its input is cut into blocks. -/

namespace Kutsu

open Rounding Windows

/-- The input at a place that may lie before its start. -/
def sampleAt (xs : List Sample) (i : ℤ) : Sample := if 0 ≤ i then xs.getD i.toNat 0 else 0

/-- The samples over which the filter is taken at `i`. -/
def tapsAt (xs : List Sample) (i : ℕ) : List Sample := (List.range TAPS).map fun j : ℕ => sampleAt xs (i + j + 1 - TAPS)

/-- The filter at `i`, added up as the code does it. -/
def filterSum (h : List ℚ) (xs : List Sample) (i : ℕ) : ℚ := dot f32 h ((tapsAt xs i).map Int.cast)

/-- The convolution that the filter approximates. -/
def convolution (h : List ℚ) (xs : List Sample) (i : ℕ) : ℚ :=
  ∑ j ∈ Finset.range TAPS, h.getD j 0 * sampleAt xs (i + j + 1 - TAPS)

def lastTaps (xs : List Sample) : List Sample := (List.replicate TAPS 0 ++ xs).rtake TAPS

variable {h : List ℚ} {xs : List Sample}

theorem length_lastTaps (xs : List Sample) : (lastTaps xs).length = TAPS := by
  rw [lastTaps, length_rtake, List.length_append, List.length_replicate]
  exact Nat.min_eq_left (Nat.le_add_right _ _)

theorem lastTaps_concat (xs : List Sample) (s : Sample) : (lastTaps xs).tail ++ [s] = lastTaps (xs ++ [s]) := by
  have htail : ((lastTaps xs).tail ++ [s]) = (lastTaps xs ++ [s]).rtake TAPS := by
    rw [List.rtake, List.length_append, length_lastTaps, List.length_singleton, Nat.add_sub_cancel_left, List.drop_one,
      List.tail_append_of_ne_nil]
    intro hnil
    have hlen := length_lastTaps xs
    rw [hnil] at hlen
    cases hlen
  rw [htail, lastTaps, rtake_concat, lastTaps, List.append_assoc]

@[simp] theorem length_tapsAt (xs : List Sample) (i : ℕ) : (tapsAt xs i).length = TAPS := by
  rw [tapsAt, List.length_map, List.length_range]

theorem lastTaps_eq (xs : List Sample) (s : Sample) : lastTaps (xs ++ [s]) = tapsAt (xs ++ [s]) xs.length := by
  refine List.ext_getElem (by rw [length_lastTaps, length_tapsAt]) fun j hj _ => ?_
  rw [length_lastTaps] at hj
  have hdrop : lastTaps (xs ++ [s]) = (List.replicate TAPS 0 ++ (xs ++ [s])).drop (xs.length + 1) := by
    rw [lastTaps, List.rtake]
    congr 1
    simp only [List.length_append, List.length_replicate, List.length_singleton]
    omega
  simp only [hdrop, tapsAt, List.getElem_drop, List.getElem_map, List.getElem_range, sampleAt]
  split_ifs with hpos
  · rw [List.getElem_append_right (by rw [List.length_replicate]; omega), List.getD_eq_getElem?_getD,
      List.getElem?_eq_getElem (by simp only [List.length_append, List.length_singleton]; omega), Option.getD_some]
    congr 1
    rw [List.length_replicate]
    omega
  · rw [List.getElem_append_left (by rw [List.length_replicate]; omega), List.getElem_replicate]

theorem tapsAt_concat {i : ℕ} (s : Sample) (hi : i < xs.length) : tapsAt (xs ++ [s]) i = tapsAt xs i := by
  refine List.map_congr_left fun j hj => ?_
  have hj := List.mem_range.mp hj
  unfold sampleAt
  split_ifs
  · rw [List.getD_eq_getElem?_getD, List.getD_eq_getElem?_getD, List.getElem?_append_left (by omega)]
  · rfl

namespace Downsampler

theorem fir_lastTaps (h : List ℚ) (xs : List Sample) (s : Sample) :
    fir h (lastTaps (xs ++ [s])) = clamp16 (roundAway (filterSum h (xs ++ [s]) xs.length)) := by
  rw [fir, lastTaps_eq, filterSum]

theorem filterSum_concat {i : ℕ} (s : Sample) (hi : i < xs.length) :
    filterSum h (xs ++ [s]) i = filterSum h xs i := by
  rw [filterSum, tapsAt_concat s hi, filterSum]

def reference (h : List ℚ) (xs : List Sample) : List Sample :=
  (List.range ((xs.length + 2) / 3)).map fun k => clamp16 (roundAway (filterSum h xs (3 * k)))

theorem reference_concat (h : List ℚ) (xs : List Sample) (s : Sample) :
    reference h (xs ++ [s]) =
      reference h xs ++ if 3 ∣ xs.length then [fir h (lastTaps (xs ++ [s]))] else [] := by
  have hsame : ∀ n, 3 * n ≤ xs.length + 2 →
      ((List.range n).map fun k => clamp16 (roundAway (filterSum h (xs ++ [s]) (3 * k)))) =
        (List.range n).map fun k => clamp16 (roundAway (filterSum h xs (3 * k))) := by
    intro n hn
    refine List.map_congr_left fun k hk => ?_
    have hk := List.mem_range.mp hk
    rw [filterSum_concat s (by omega)]
  rw [reference, reference, List.length_append, List.length_singleton]
  split_ifs with hdvd
  · obtain ⟨q, hq⟩ := hdvd
    have hlong : (xs.length + 1 + 2) / 3 = q + 1 := by omega
    have hshort : (xs.length + 2) / 3 = q := by omega
    rw [hlong, hshort, List.range_succ, List.map_append, hsame q (by omega), List.map_singleton, fir_lastTaps, hq]
  · have hcount : (xs.length + 1 + 2) / 3 = (xs.length + 2) / 3 := by omega
    rw [hcount, hsame _ (by omega), List.append_nil]

def after (xs : List Sample) : Downsampler := ⟨lastTaps xs, xs.length % 3, Nat.mod_lt _ (Nat.succ_pos 2)⟩

theorem process_new (h : List ℚ) (xs : List Sample) : new.process h xs = (reference h xs, after xs) := by
  induction xs using List.reverseRecOn with
  | nil => rfl
  | append_singleton xs s ih =>
    have hphase : (after xs).phase = 0 ↔ 3 ∣ xs.length := by
      rw [Nat.dvd_iff_mod_eq_zero, Fin.ext_iff]
      rfl
    have hnext : (after xs).phase + 1 = (after (xs ++ [s])).phase := by
      rw [Fin.ext_iff, Fin.val_add]
      simp [after]
    simp only [after] at hphase hnext
    rw [process_append, ih, process, process, feed]
    simp only [after, hphase, lastTaps_concat, hnext, List.append_nil, reference_concat]

def processBlocks (h : List ℚ) (d : Downsampler) : List (List Sample) → List Sample × Downsampler
  | [] => ([], d)
  | block :: blocks =>
    let first := d.process h block
    let rest := first.2.processBlocks h blocks
    (first.1 ++ rest.1, rest.2)

theorem processBlocks_eq (d : Downsampler) (blocks : List (List Sample)) :
    d.processBlocks h blocks = d.process h blocks.flatten := by
  induction blocks generalizing d with
  | nil => rfl
  | cons block blocks ih => rw [List.flatten_cons, process_append, processBlocks, ih]

theorem getElem?_processBlocks_new (h : List ℚ) (blocks : List (List Sample)) {k : ℕ}
    (hk : k < (blocks.flatten.length + 2) / 3) : (new.processBlocks h blocks).1[k]? =
      some (clamp16 (roundAway (filterSum h blocks.flatten (3 * k)))) := by
  rw [processBlocks_eq, process_new, reference, List.getElem?_map, List.getElem?_range hk]
  rfl

/-- From any state a cut in the input makes no difference; from a fresh downsampler the output is the
filter at every third sample. -/
theorem downsampler_exact (h : List ℚ) :
    (∀ (d : Downsampler) (a b : List Sample),
      ((d.process h a).1 ++ ((d.process h a).2.process h b).1, ((d.process h a).2.process h b).2) =
        d.process h (a ++ b)) ∧
    ∀ blocks : List (List Sample),
      (new.processBlocks h blocks).1.length = (blocks.flatten.length + 2) / 3 ∧
      ∀ k < (blocks.flatten.length + 2) / 3, (new.processBlocks h blocks).1[k]? =
        some (clamp16 (roundAway (filterSum h blocks.flatten (3 * k)))) := by
  refine ⟨fun d a b => (d.process_append a b).symm, fun blocks => ⟨?_, fun k => getElem?_processBlocks_new h blocks⟩⟩
  rw [processBlocks_eq, process_new, reference, List.length_map, List.length_range]

theorem sum_products_tapsAt (h : List ℚ) (xs : List Sample) (i : ℕ) :
    ((h.zip ((tapsAt xs i).map Int.cast)).map fun cx => cx.1 * cx.2).sum = convolution h xs i := by
  have hzip : ∀ (h : List ℚ) (win : List Sample),
      ((h.zip (win.map Int.cast)).map fun cx => cx.1 * cx.2).sum =
        ∑ j ∈ Finset.range win.length, h.getD j 0 * win.getD j 0 := by
    intro h win
    induction win generalizing h with
    | nil => simp
    | cons s win ih =>
      rw [List.length_cons, Finset.sum_range_succ']
      cases h with
      | nil => simp
      | cons c h =>
        simp only [List.map_cons, List.zip_cons_cons, List.sum_cons, ih, List.getD_cons_succ, List.getD_cons_zero]
        exact add_comm _ _
  rw [hzip, length_tapsAt]
  refine Finset.sum_congr rfl fun j hj => ?_
  have hj := Finset.mem_range.mp hj
  rw [tapsAt, List.getD_eq_getElem?_getD (l := (List.range TAPS).map _), List.getElem?_map, List.getElem?_range hj]
  rfl

theorem abs_sampleAt_le {M : ℤ} (hM : 0 ≤ M) (hxs : ∀ s ∈ xs, |s| ≤ M) (i : ℤ) : |sampleAt xs i| ≤ M := by
  unfold sampleAt
  split_ifs
  · rw [List.getD_eq_getElem?_getD]
    cases hs : xs[i.toNat]? with
    | none => rwa [Option.getD_none, abs_zero]
    | some s => exact hxs s (List.mem_of_getElem? hs)
  · rwa [abs_zero]

/-- Adding the filter up in `f32` costs less than one. The sizes of the coefficients of `lowpass` add up to
less than 2. -/
theorem filterSum_near (hh : (h.map fun c => |c|).sum ≤ 7) (hxs : ∀ s ∈ xs, |s| ≤ 32768) (i : ℕ) :
    |filterSum h xs i - convolution h xs i| < 1 := by
  have hsamples : ∀ x ∈ (tapsAt xs i).map (Int.cast : ℤ → ℚ), |x| ≤ 32768 := by
    intro x hx
    obtain ⟨s, hs, rfl⟩ := List.mem_map.mp hx
    obtain ⟨j, -, rfl⟩ := List.mem_map.mp hs
    rw [← Int.cast_abs]
    exact Int.cast_le.mpr (abs_sampleAt_le (by decide) hxs _)
  have hsize : ((h.zip ((tapsAt xs i).map Int.cast)).map fun cx => |cx.1 * cx.2|).sum ≤ 7 * 32768 :=
    (sum_abs_products_le (by norm_num) hsamples).trans (mul_le_mul_of_nonneg_right hh (by norm_num))
  have htaps : ((h.zip ((tapsAt xs i).map (Int.cast : ℤ → ℚ))).length : ℚ) ≤ 23 := by
    rw [List.length_zip, List.length_map, length_tapsAt]
    exact_mod_cast Nat.min_le_right _ _
  have herr := f32_accurate.dot_error (by linarith) hsize
  rw [sum_products_tapsAt] at herr
  refine lt_of_le_of_lt (herr.trans (mul_le_mul_of_nonneg_right htaps ?_)) ?_ <;> norm_num

theorem roundAway_error (q : ℚ) : |roundAway q - q| ≤ 1 / 2 := by
  unfold roundAway
  split_ifs
  · have hle := Int.floor_le (q + 1 / 2)
    have hlt := Int.lt_floor_add_one (q + 1 / 2)
    rw [abs_le]
    constructor <;> linarith
  · have hle := Int.floor_le (-q + 1 / 2)
    have hlt := Int.lt_floor_add_one (-q + 1 / 2)
    rw [abs_le, Int.cast_neg]
    constructor <;> linarith

theorem roundAway_near {p q : ℚ} (h : |p - q| < 1) : |roundAway p - roundAway q| ≤ 1 := by
  obtain ⟨hp, hp'⟩ := abs_le.mp (roundAway_error p)
  obtain ⟨hq, hq'⟩ := abs_le.mp (roundAway_error q)
  obtain ⟨hlow, hhigh⟩ := abs_lt.mp h
  have hup : ((roundAway p - roundAway q : ℤ) : ℚ) < (2 : ℤ) := by
    rw [Int.cast_sub, Int.cast_ofNat]
    linarith
  have hdown : ((-2 : ℤ) : ℚ) < (roundAway p - roundAway q : ℤ) := by
    rw [Int.cast_sub, Int.cast_neg, Int.cast_ofNat]
    linarith
  rw [Int.cast_lt] at hup hdown
  rw [abs_le]
  omega

theorem clamp16_near (m n : ℤ) : |clamp16 m - clamp16 n| ≤ |m - n| := by
  unfold clamp16
  grind

/-- However the input is cut, each output is within one of the convolution, rounded and clamped. -/
theorem downsampler_accurate (h : List ℚ) (hh : (h.map fun c => |c|).sum ≤ 7) (blocks : List (List Sample))
    (hblocks : ∀ block ∈ blocks, ∀ s ∈ block, -32768 ≤ s ∧ s ≤ 32767) :
    ∀ k < (blocks.flatten.length + 2) / 3, ∃ out, (new.processBlocks h blocks).1[k]? = some out ∧
      |out - clamp16 (roundAway (convolution h blocks.flatten (3 * k)))| ≤ 1 := by
  intro k hk
  have hxs : ∀ s ∈ blocks.flatten, |s| ≤ 32768 := by
    intro s hs
    obtain ⟨block, hblock, hs⟩ := List.mem_flatten.mp hs
    have hpcm := hblocks block hblock s hs
    exact abs_le.mpr ⟨hpcm.1, hpcm.2.trans (by decide)⟩
  exact ⟨_, getElem?_processBlocks_new h blocks hk, (clamp16_near _ _).trans (roundAway_near (filterSum_near hh hxs _))⟩

/-- A filter that averages its taps, over two blocks of the loudest samples. -/
theorem downsampler_accurate_loud :
    ∃ out, (new.processBlocks (List.replicate 23 (1 / 23))
        [[32767, -32768], [32767, -32768, -32768]]).1[1]? = some out ∧
      |out - clamp16 (roundAway (convolution (List.replicate 23 (1 / 23))
        [32767, -32768, 32767, -32768, -32768] 3))| ≤ 1 :=
  downsampler_accurate (List.replicate 23 (1 / 23)) (by decide +kernel) [[32767, -32768], [32767, -32768, -32768]]
    (by decide) 1 (by decide)

end Downsampler

end Kutsu
