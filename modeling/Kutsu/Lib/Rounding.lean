import Mathlib.Algebra.Order.BigOperators.Group.List
import Mathlib.Data.Int.Log
import Mathlib.Data.Rat.Floor
import Mathlib.Tactic.Linarith
import Mathlib.Tactic.Ring

/-! Binary floating-point numbers as rationals. A format says how many leading bits of a number it keeps and how small
the last of them may be; it has no largest number, so a sum that overflows is outside its reach. What a computation
loses to rounding is bounded with the error of one operation as the only thing known of it. -/

namespace Rounding

/-- The nearest integer, and of two the even one. -/
def halfEven (x : ℚ) : ℤ :=
  let above := x - ⌊x⌋
  if above < 1 / 2 then ⌊x⌋ else if 1 / 2 < above then ⌊x⌋ + 1 else ⌊x⌋ + ⌊x⌋ % 2

structure Format where
  digits : ℕ
  minExp : ℤ

def binary32 : Format := ⟨24, -149⟩

namespace Format

/-- The exponent of the last bit that is kept. -/
def place (f : Format) (x : ℚ) : ℤ := max (Int.log 2 |x| + 1 - f.digits) f.minExp

def round (f : Format) (x : ℚ) : ℚ := halfEven (x / 2 ^ f.place x) * 2 ^ f.place x

end Format

abbrev f32 : ℚ → ℚ := binary32.round

@[simp] theorem halfEven_zero : halfEven 0 = 0 := by
  simp [halfEven]

theorem halfEven_error (x : ℚ) : |halfEven x - x| ≤ 1 / 2 := by
  have hfloor := Int.floor_le x
  have hnext := Int.lt_floor_add_one x
  unfold halfEven
  dsimp only
  split_ifs with hlow hhigh
  · rw [abs_le]
    constructor <;> linarith
  · rw [abs_le, Int.cast_add, Int.cast_one]
    constructor <;> linarith
  · -- half-way: the two candidates are equally far
    rw [abs_le, Int.cast_add]
    rcases Int.emod_two_eq_zero_or_one ⌊x⌋ with heven | hodd
    · rw [heven, Int.cast_zero]
      constructor <;> linarith
    · rw [hodd, Int.cast_one]
      constructor <;> linarith

/-- Rounding with a relative error of at most `u` and an absolute one of at most `η`. -/
structure Accurate (fl : ℚ → ℚ) (u η : ℚ) : Prop where
  rel : 0 ≤ u
  abs : 0 ≤ η
  error : ∀ x, |fl x - x| ≤ u * |x| + η

namespace Format

variable (f : Format)

@[simp] theorem round_zero : f.round 0 = 0 := by
  rw [round, zero_div, halfEven_zero, Int.cast_zero, zero_mul]

theorem round_error (x : ℚ) : |f.round x - x| ≤ 2 ^ f.place x / 2 := by
  have hpos : (0 : ℚ) < 2 ^ f.place x := zpow_pos two_pos _
  have hscaled : f.round x - x = (halfEven (x / 2 ^ f.place x) - x / 2 ^ f.place x) * 2 ^ f.place x := by
    rw [sub_mul, div_mul_cancel₀ _ hpos.ne', round]
  calc |f.round x - x| = |halfEven (x / 2 ^ f.place x) - x / 2 ^ f.place x| * 2 ^ f.place x := by
        rw [hscaled, abs_mul, abs_of_pos hpos]
    _ ≤ 1 / 2 * 2 ^ f.place x := mul_le_mul_of_nonneg_right (halfEven_error _) hpos.le
    _ = 2 ^ f.place x / 2 := one_div_mul_eq_div _ _

/-- Half a unit in the last place is relative to the number itself, down to the smallest numbers. -/
theorem accurate : Accurate f.round (2 ^ (-f.digits : ℤ)) (2 ^ (f.minExp - 1)) := by
  have hu : (0 : ℚ) < 2 ^ (-f.digits : ℤ) := zpow_pos two_pos _
  have hη : (0 : ℚ) < 2 ^ (f.minExp - 1) := zpow_pos two_pos _
  refine ⟨hu.le, hη.le, fun x => ?_⟩
  rcases eq_or_ne x 0 with rfl | hx
  · rw [round_zero, sub_zero, abs_zero, mul_zero, zero_add]
    exact hη.le
  have hrel : (0 : ℚ) ≤ 2 ^ (-f.digits : ℤ) * |x| := mul_nonneg hu.le (abs_nonneg x)
  refine (f.round_error x).trans ?_
  rcases max_choice (Int.log 2 |x| + 1 - f.digits) f.minExp with hlog | hmin
  · have hlead : (2 : ℚ) ^ Int.log 2 |x| ≤ |x| := Int.zpow_log_le_self (b := 2) Nat.one_lt_two (abs_pos.mpr hx)
    have hhalf : (2 : ℚ) ^ (Int.log 2 |x| + 1 - f.digits) / 2 = 2 ^ (-f.digits : ℤ) * 2 ^ Int.log 2 |x| := by
      rw [← zpow_add₀ two_ne_zero, div_eq_mul_inv, ← zpow_sub_one₀ two_ne_zero]
      congr 1
      ring
    rw [place, hlog, hhalf]
    have hle := mul_le_mul_of_nonneg_left hlead hu.le
    linarith
  · rw [place, hmin, div_eq_mul_inv, ← zpow_sub_one₀ two_ne_zero]
    linarith

end Format

@[simp] theorem f32_zero : f32 0 = 0 := binary32.round_zero

theorem f32_accurate : Accurate f32 (1 / 2 ^ 24) (1 / 2 ^ 150) := by
  have h := binary32.accurate
  norm_num [binary32] at h ⊢
  exact h

/-- Products added up from the left, every operation rounded. -/
def dot (fl : ℚ → ℚ) (cs xs : List ℚ) : ℚ :=
  (cs.zip xs).foldl (fun acc cx => fl (acc + fl (cx.1 * cx.2))) 0

section Dot

variable {fl : ℚ → ℚ} {u η A : ℚ} {k n : ℕ}

theorem Accurate.step (hfl : Accurate fl u η) (hk : (k + 1) * u ≤ 1 / 4) {acc s p : ℚ} (hp : |s| + |p| ≤ A)
    (hacc : |acc - s| ≤ k * (3 * u * A + 4 * η)) :
    |fl (acc + fl p) - (s + p)| ≤ (k + 1) * (3 * u * A + 4 * η) := by
  have hη := hfl.abs
  have hpA : u * |p| ≤ u * A := mul_le_mul_of_nonneg_left (by linarith [abs_nonneg s]) hfl.rel
  have hprod := (hfl.error p).trans (add_le_add_left hpA η)
  have hsum : |acc + fl p - (s + p)| ≤ k * (3 * u * A + 4 * η) + (u * A + η) := by
    calc |acc + fl p - (s + p)| = |(acc - s) + (fl p - p)| := by congr 1; ring
      _ ≤ |acc - s| + |fl p - p| := abs_add_le _ _
      _ ≤ k * (3 * u * A + 4 * η) + (u * A + η) := add_le_add hacc hprod
  have hsize : |acc + fl p| ≤ A + (k * (3 * u * A + 4 * η) + (u * A + η)) := by
    calc |acc + fl p| = |(s + p) + (acc + fl p - (s + p))| := by rw [add_sub_cancel]
      _ ≤ |s + p| + |acc + fl p - (s + p)| := abs_add_le _ _
      _ ≤ A + (k * (3 * u * A + 4 * η) + (u * A + η)) := add_le_add ((abs_add_le s p).trans hp) hsum
  have hround := (hfl.error (acc + fl p)).trans (add_le_add_left (mul_le_mul_of_nonneg_left hsize hfl.rel) η)
  -- rounding the sum costs the error so far only a small part of what one more product may cost
  have huA : 0 ≤ u * A := le_trans (mul_nonneg hfl.rel (abs_nonneg p)) hpA
  have hpart := mul_le_mul_of_nonneg_right hk (by linarith : 0 ≤ 3 * u * A + 4 * η)
  have hsmall : u * (u * A + η) ≤ u * (3 * u * A + 4 * η) := mul_le_mul_of_nonneg_left (by linarith) hfl.rel
  calc |fl (acc + fl p) - (s + p)| = |(fl (acc + fl p) - (acc + fl p)) + (acc + fl p - (s + p))| := by
        rw [sub_add_sub_cancel]
    _ ≤ |fl (acc + fl p) - (acc + fl p)| + |acc + fl p - (s + p)| := abs_add_le _ _
    _ ≤ (k + 1) * (3 * u * A + 4 * η) := by linarith

theorem Accurate.foldl_error (hfl : Accurate fl u η) (hn : (n + 1) * u ≤ 1 / 4) (ps : List (ℚ × ℚ)) {acc s : ℚ}
    (hlen : k + ps.length ≤ n) (hA : |s| + (ps.map fun cx => |cx.1 * cx.2|).sum ≤ A)
    (hacc : |acc - s| ≤ k * (3 * u * A + 4 * η)) :
    |ps.foldl (fun acc cx => fl (acc + fl (cx.1 * cx.2))) acc - (s + (ps.map fun cx => cx.1 * cx.2).sum)| ≤
      (k + ps.length : ℕ) * (3 * u * A + 4 * η) := by
  induction ps generalizing acc s k with
  | nil => simpa using hacc
  | cons cx ps ih =>
    rw [List.length_cons] at hlen ⊢
    rw [List.map_cons, List.sum_cons, ← add_assoc] at hA ⊢
    have hrest : 0 ≤ (ps.map fun cx => |cx.1 * cx.2|).sum :=
      List.sum_nonneg fun a ha => by
        obtain ⟨cx', -, rfl⟩ := List.mem_map.mp ha
        exact abs_nonneg _
    have hk : ((k : ℚ) + 1) * u ≤ 1 / 4 := by
      have hkn : (k : ℚ) ≤ n := Nat.cast_le.mpr (by omega)
      exact (mul_le_mul_of_nonneg_right (by linarith) hfl.rel).trans hn
    have hstep := hfl.step (p := cx.1 * cx.2) hk (by linarith) hacc
    rw [List.foldl_cons, show k + (ps.length + 1) = k + 1 + ps.length by omega]
    refine ih (by omega) ?_ (by rwa [Nat.cast_succ])
    exact (add_le_add_left (abs_add_le _ _) _).trans hA

/-- The error of a sum of products grows with their number and with their sizes. -/
theorem Accurate.dot_error (hfl : Accurate fl u η) {cs xs : List ℚ} (hn : ((cs.zip xs).length + 1) * u ≤ 1 / 4)
    (hA : ((cs.zip xs).map fun cx => |cx.1 * cx.2|).sum ≤ A) :
    |dot fl cs xs - ((cs.zip xs).map fun cx => cx.1 * cx.2).sum| ≤ (cs.zip xs).length * (3 * u * A + 4 * η) := by
  have hstart : |(0 : ℚ) - 0| ≤ (0 : ℕ) * (3 * u * A + 4 * η) := by rw [sub_zero, abs_zero, Nat.cast_zero, zero_mul]
  have herr := hfl.foldl_error hn (cs.zip xs) (Nat.zero_add _).le (by rwa [abs_zero, zero_add]) hstart
  rwa [Nat.zero_add, zero_add] at herr

theorem sum_abs_products_le {cs xs : List ℚ} {M : ℚ} (hM : 0 ≤ M) (hxs : ∀ x ∈ xs, |x| ≤ M) :
    ((cs.zip xs).map fun cx => |cx.1 * cx.2|).sum ≤ (cs.map fun c => |c|).sum * M := by
  induction cs generalizing xs with
  | nil => simp
  | cons c cs ih =>
    have hrest := @ih xs.tail fun x hx => hxs x (List.mem_of_mem_tail hx)
    rw [List.map_cons, List.sum_cons, add_mul]
    cases xs with
    | nil =>
      rw [List.tail_nil, List.zip_nil_right] at hrest
      rw [List.zip_nil_right]
      exact hrest.trans (le_add_of_nonneg_left (mul_nonneg (abs_nonneg c) hM))
    | cons x xs =>
      rw [List.zip_cons_cons, List.map_cons, List.sum_cons, abs_mul]
      exact add_le_add (mul_le_mul_of_nonneg_left (hxs x List.mem_cons_self) (abs_nonneg c)) hrest

end Dot

end Rounding
