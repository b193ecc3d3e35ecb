import Kutsu.Lib.Quantizer
import Kutsu.Model.G711

/-! What a G.711 hop does to the audio. Under both laws it keeps the leading five bits of a
magnitude: decoding after encoding is a quantizer, so a second hop changes nothing. -/

namespace Kutsu

open Quantizers

def Pcm16 (s : ℤ) : Prop := -32768 ≤ s ∧ s ≤ 32767

def level (m : ℕ) : ℕ := mid (keep 4 m) m

theorem level_quantizer : Quantizer level := (segments_keep 4).quantizer

theorem level_pred (m : ℕ) : level (level m - 1) = level m := (segments_keep 4).congr (pred_mid_div _ _)

theorem level_pos (m : ℕ) : 0 < level m := Nat.add_pos_right _ (Nat.two_pow_pos _)

theorem level_err (m : ℕ) : ∃ w, level m ≤ m + w ∧ m < level m + w ∧ 32 * w ≤ max 32 m :=
  ⟨2 ^ keep 4 m, mid_le _ _, lt_mid _ _, pow_keep_le (p := 4)⟩

/-- The bounds of the segments are powers of two: the search finds the place of the leading bit. -/
theorem search_pow {m j : ℕ} (hj : 0 < j) (n : ℕ) :
    search m ((List.range n).map fun i => 2 ^ (j + i) - 1) = min (Nat.log2 m + 1 - j) n := by
  have hle : ∀ i, m ≤ 2 ^ (j + i) - 1 ↔ Nat.log2 m < j + i := by
    intro i
    have hpos := Nat.two_pow_pos (j + i)
    rcases Nat.eq_zero_or_pos m with rfl | hm
    · simp only [Nat.log2_zero]
      omega
    · rw [Nat.log2_lt hm.ne']
      omega
  unfold search
  induction n with
  | zero => simp
  | succ n ih =>
    rw [List.range_succ, List.map_append, List.findIdx_append, ih, List.length_map, List.length_range]
    simp only [List.map_cons, List.map_nil, List.findIdx_cons, List.findIdx_nil, cond_eq_ite, hle,
      decide_eq_true_eq]
    split_ifs <;> omega

theorem search_ulaw {m : ℕ} (h : m < 8192) : search m SEG_UEND = keep 4 m := by
  have hlog : Nat.log2 m < 13 ∨ m = 0 := or_iff_not_imp_right.mpr fun hm => (Nat.log2_lt hm).mpr h
  have hs := search_pow (m := m) (j := 6) (by decide) 8
  rw [show SEG_UEND = (List.range 8).map fun i => 2 ^ (6 + i) - 1 from rfl, hs, keep]
  rcases hlog with hlog | rfl
  · omega
  · rfl

theorem search_alaw {m : ℕ} (h : m < 4096) : search m SEG_AEND = Nat.log2 m - 4 := by
  have hlog : Nat.log2 m < 12 ∨ m = 0 := or_iff_not_imp_right.mpr fun hm => (Nat.log2_lt hm).mpr h
  have hs := search_pow (m := m) (j := 5) (by decide) 8
  rw [show SEG_AEND = (List.range 8).map fun i => 2 ^ (5 + i) - 1 from rfl, hs]
  rcases hlog with hlog | rfl
  · omega
  · rfl

theorem decodeUlaw_code : ∀ s r : Fin 16, s < 8 →
    decodeUlaw (UInt8.ofNat ((s.val <<< 4 ||| r.val) ^^^ 0xFF)) = (((8 * r + 132) * 2 ^ s.val : ℕ) : ℤ) - 132 ∧
      decodeUlaw (UInt8.ofNat ((s.val <<< 4 ||| r.val) ^^^ 0x7F)) =
        132 - (((8 * r + 132) * 2 ^ s.val : ℕ) : ℤ) := by
  decide

theorem decodeAlaw_code : ∀ s r : Fin 16, s < 8 →
    decodeAlaw (UInt8.ofNat ((s.val <<< 4 ||| r.val) ^^^ 0xD5)) =
        ((if s = 0 then 16 * r + 8 else (16 * r + 264) * 2 ^ (s.val - 1) : ℕ) : ℤ) ∧
      decodeAlaw (UInt8.ofNat ((s.val <<< 4 ||| r.val) ^^^ 0x55)) =
        -((if s = 0 then 16 * r + 8 else (16 * r + 264) * 2 ^ (s.val - 1) : ℕ) : ℤ) := by
  decide

theorem mantissa {m : ℕ} (h : 32 ≤ m) :
    m >>> (keep 4 m + 1) &&& 0xF = m / 2 ^ (keep 4 m + 1) - 16 ∧ m / 2 ^ (keep 4 m + 1) - 16 < 16 ∧
      16 ≤ m / 2 ^ (keep 4 m + 1) := by
  obtain ⟨hlow, hhigh⟩ := lead (p := 4) h
  rw [Nat.shiftRight_eq_div_pow, show (0xF : ℕ) = 2 ^ 4 - 1 from rfl, Nat.and_two_pow_sub_one_eq_mod]
  omega

theorem decodeUlaw_magnitude {m : ℕ} (hlow : 32 ≤ m) (hhigh : m < 8192) :
    decodeUlaw (UInt8.ofNat ((search m SEG_UEND <<< 4 ||| m >>> (search m SEG_UEND + 1) &&& 0xF) ^^^ 0xFF)) =
        4 * (level m : ℤ) - 132 ∧
      decodeUlaw (UInt8.ofNat ((search m SEG_UEND <<< 4 ||| m >>> (search m SEG_UEND + 1) &&& 0xF) ^^^ 0x7F)) =
        132 - 4 * (level m : ℤ) := by
  obtain ⟨hbits, hr, hq⟩ := mantissa hlow
  have hk : keep 4 m < 8 := by
    have : Nat.log2 m < 13 := (Nat.log2_lt (by omega)).mpr hhigh
    rw [keep]
    omega
  have hcode := decodeUlaw_code ⟨keep 4 m, by omega⟩ ⟨_, hr⟩ hk
  have hlevel : (8 * (m / 2 ^ (keep 4 m + 1) - 16) + 132) * 2 ^ keep 4 m = 4 * level m := by
    rw [level, mid, show 8 * (m / 2 ^ (keep 4 m + 1) - 16) + 132 = 4 * (2 * (m / 2 ^ (keep 4 m + 1)) + 1) by omega,
      Nat.pow_succ]
    ring
  rw [search_ulaw hhigh, hbits]
  simp only [hlevel, Nat.cast_mul, Nat.cast_ofNat] at hcode
  exact hcode

theorem level_small {m : ℕ} (h : m < 64) : level m = m / 2 * 2 + 1 := by
  have hk : keep 4 m = 0 := by
    rcases Nat.eq_zero_or_pos m with rfl | hm
    · rfl
    · have : Nat.log2 m < 6 := (Nat.log2_lt hm.ne').mpr h
      rw [keep]
      omega
  rw [level, hk]
  rfl

theorem decodeAlaw_magnitude {m : ℕ} (h : m < 4096) :
    let seg := search m SEG_AEND
    let aval := seg <<< 4 ||| if seg < 2 then m >>> 1 &&& 0xF else m >>> seg &&& 0xF
    decodeAlaw (UInt8.ofNat (aval ^^^ 0xD5)) = 8 * (level m : ℤ) ∧
      decodeAlaw (UInt8.ofNat (aval ^^^ 0x55)) = -(8 * (level m : ℤ)) := by
  intro seg aval
  rcases Nat.lt_or_ge m 32 with hsmall | hlarge
  · -- below the second segment all five bits are in the code
    have hseg : seg = 0 := by
      have : Nat.log2 m < 5 ∨ m = 0 := or_iff_not_imp_right.mpr fun hm => (Nat.log2_lt hm).mpr hsmall
      rcases this with hlog | rfl
      · rw [show seg = Nat.log2 m - 4 from search_alaw h]
        omega
      · rfl
    have haval : aval = 0 <<< 4 ||| m / 2 := by
      change (seg <<< 4 ||| if seg < 2 then m >>> 1 &&& 0xF else m >>> seg &&& 0xF) = _
      rw [hseg, if_pos (by decide), Nat.shiftRight_one, show (0xF : ℕ) = 2 ^ 4 - 1 from rfl,
        Nat.and_two_pow_sub_one_eq_mod, Nat.mod_eq_of_lt (by omega)]
    have hcode := decodeAlaw_code 0 ⟨m / 2, by omega⟩ (by decide)
    have hlevel : 16 * (m / 2) + 8 = 8 * level m := by
      rw [level_small (by omega)]
      ring
    simp only [if_true, hlevel, Nat.cast_mul, Nat.cast_ofNat] at hcode
    rw [haval]
    exact hcode
  · obtain ⟨hbits, hr, hq⟩ := mantissa hlarge
    have hlog : 5 ≤ Nat.log2 m ∧ Nat.log2 m < 12 :=
      ⟨(Nat.le_log2 (by omega)).mpr hlarge, (Nat.log2_lt (by omega)).mpr h⟩
    have hk : seg = keep 4 m + 1 := by
      rw [show seg = Nat.log2 m - 4 from search_alaw h, keep]
      omega
    have hlt : keep 4 m + 1 < 8 := by
      rw [keep]
      omega
    have haval : aval = (keep 4 m + 1) <<< 4 ||| (m / 2 ^ (keep 4 m + 1) - 16) := by
      change (seg <<< 4 ||| if seg < 2 then m >>> 1 &&& 0xF else m >>> seg &&& 0xF) = _
      rw [hk, ← hbits]
      split_ifs with hone
      · rw [show keep 4 m + 1 = 1 by omega]
      · rfl
    have hcode := decodeAlaw_code ⟨keep 4 m + 1, by omega⟩ ⟨_, hr⟩ hlt
    have hlevel : (16 * (m / 2 ^ (keep 4 m + 1) - 16) + 264) * 2 ^ keep 4 m = 8 * level m := by
      rw [level, mid, show 16 * (m / 2 ^ (keep 4 m + 1) - 16) + 264 =
          8 * (2 * (m / 2 ^ (keep 4 m + 1)) + 1) by omega, Nat.pow_succ]
      ring
    rw [if_neg (by simp [Fin.ext_iff])] at hcode
    simp only [Nat.add_sub_cancel, hlevel, Nat.cast_mul, Nat.cast_ofNat] at hcode
    rw [haval]
    exact hcode

namespace G711Kind

/-- The µ-law level of a magnitude of 14 bits, at the scale of 16. -/
def ulawLevel (v : ℕ) : ℤ := 4 * (level (min v 8158 + 33) : ℤ) - 132

theorem encodeUlaw_decodes (s : ℤ) :
    decodeUlaw (encodeUlaw s) = if s / 4 < 0 then -ulawLevel (-(s / 4)).toNat else ulawLevel (s / 4).toNat := by
  have hv : s >>> (2 : ℕ) = s / 4 := by rw [Int.shiftRight_eq_div_pow]; rfl
  have hbias : BIAS >>> (2 : ℕ) = 33 := rfl
  simp only [encodeUlaw, hv, hbias, CLIP]
  generalize s / 4 = v
  have hsign : (if v < 0 then -v else v) = (v.natAbs : ℤ) := by split_ifs <;> omega
  rw [hsign]
  rcases Nat.lt_or_ge v.natAbs 8159 with hin | hclip
  · have hmag : (min (v.natAbs : ℤ) 8159 + 33).toNat = min v.natAbs 8158 + 33 := by omega
    rw [hmag]
    have hlow : 32 ≤ min v.natAbs 8158 + 33 := by omega
    have hhigh : min v.natAbs 8158 + 33 < 8192 := by omega
    have hseg : ¬ 8 ≤ search (min v.natAbs 8158 + 33) SEG_UEND := by
      have : Nat.log2 (min v.natAbs 8158 + 33) < 13 := (Nat.log2_lt (by omega)).mpr hhigh
      rw [search_ulaw hhigh, keep]
      omega
    obtain ⟨hpos, hneg⟩ := decodeUlaw_magnitude hlow hhigh
    rw [if_neg hseg]
    split_ifs with hv
    · rw [hneg, ulawLevel, show (-v).toNat = v.natAbs by omega]
      ring
    · rw [hpos, ulawLevel, show v.toNat = v.natAbs by omega]
  · have hmag : (min (v.natAbs : ℤ) 8159 + 33).toNat = 8192 := by omega
    rw [hmag, if_pos (by decide)]
    have htop : ulawLevel 8158 = 32124 := by decide
    have hsat : ∀ n, 8158 ≤ n → ulawLevel n = 32124 := fun n hn => by
      rw [← htop, ulawLevel, ulawLevel, Nat.min_eq_right hn, Nat.min_self]
    split_ifs with hv
    · rw [hsat _ (by omega)]
      decide
    · rw [hsat _ (by omega)]
      decide

theorem encodeAlaw_decodes {s : ℤ} (h : Pcm16 s) :
    decodeAlaw (encodeAlaw s) =
      if 0 ≤ s / 8 then 8 * (level (s / 8).toNat : ℤ) else -(8 * (level (-(s / 8) - 1).toNat : ℤ)) := by
  have hv : s >>> (3 : ℕ) = s / 8 := by rw [Int.shiftRight_eq_div_pow]; rfl
  have hrange : -4096 ≤ s / 8 ∧ s / 8 ≤ 4095 := by
    obtain ⟨hlow, hhigh⟩ := h
    omega
  simp only [encodeAlaw, hv]
  generalize s / 8 = v at hrange
  have hseg : ∀ {m : ℕ}, m < 4096 → ¬ 8 ≤ search m SEG_AEND := by
    intro m hm
    rw [search_alaw hm]
    rcases Nat.eq_zero_or_pos m with rfl | hpos
    · decide
    · have : Nat.log2 m < 12 := (Nat.log2_lt hpos.ne').mpr hm
      omega
  by_cases hpos : 0 ≤ v
  · have hmag : v.toNat < 4096 := by omega
    simp only [if_pos hpos]
    rw [if_neg (hseg hmag)]
    exact (decodeAlaw_magnitude hmag).1
  · have hmag : (-v - 1).toNat < 4096 := by omega
    simp only [if_neg hpos]
    rw [if_neg (hseg hmag)]
    exact (decodeAlaw_magnitude hmag).2

theorem ulawLevel_spec {n : ℕ} (hn : n ≤ 8192) : ∃ a : ℕ, ulawLevel n = 4 * a ∧ ulawLevel a = 4 * a ∧
    a ≤ 8031 ∧ 128 * a ≤ 132 * n + 132 ∧ 128 * n ≤ 128 * a + 4 * n + 132 := by
  have hmono := level_quantizer.monotone
  have hlow : level 33 ≤ level (min n 8158 + 33) := hmono (Nat.le_add_left _ _)
  have hhigh : level (min n 8158 + 33) ≤ level 8191 := hmono (by omega)
  have h33 : level 33 = 33 := by decide
  have h8191 : level 8191 = 8064 := by decide
  have hidem := level_quantizer.idem (min n 8158 + 33)
  have herr : 128 * (level (min n 8158 + 33) - 33) ≤ 132 * n + 132 ∧
      128 * n ≤ 128 * (level (min n 8158 + 33) - 33) + 4 * n + 132 := by
    rcases Nat.lt_or_ge n 8158 with hin | hclip
    · obtain ⟨w, h1, h2, h3⟩ := level_err (min n 8158 + 33)
      omega
    · rw [Nat.min_eq_right hclip, h8191]
      omega
  refine ⟨level (min n 8158 + 33) - 33, ?_, ?_, by omega, herr⟩
  · rw [ulawLevel]
    omega
  · rw [ulawLevel, show min (level (min n 8158 + 33) - 33) 8158 + 33 = level (min n 8158 + 33) by omega, hidem]
    omega

theorem ulawLevel_mono {m n : ℕ} (h : m ≤ n) : ulawLevel m ≤ ulawLevel n := by
  have hmono : level (min m 8158 + 33) ≤ level (min n 8158 + 33) := level_quantizer.monotone (by omega)
  rw [ulawLevel, ulawLevel]
  omega

/-- One hop of a sample. -/
def quantize (kind : G711Kind) (s : ℤ) : ℤ := kind.decodeByte (kind.encodeSample s)

/-- A quantizer of 16-bit samples, with an error of at most a part in 32. -/
structure Companding (q : ℤ → ℤ) : Prop where
  pcm : ∀ {s}, Pcm16 s → Pcm16 (q s)
  mono : ∀ {s t}, Pcm16 s → Pcm16 t → s ≤ t → q s ≤ q t
  idem : ∀ {s}, Pcm16 s → q (q s) = q s
  err : ∀ {s}, Pcm16 s → 32 * |q s - s| ≤ |s| + 256

theorem quantize_ulaw (s : ℤ) :
    ulaw.quantize s = if s / 4 < 0 then -ulawLevel (-(s / 4)).toNat else ulawLevel (s / 4).toNat :=
  encodeUlaw_decodes s

theorem quantize_ulawLevel {a : ℕ} (h : ulawLevel a = 4 * a) :
    ulaw.quantize (4 * a) = 4 * a ∧ ulaw.quantize (-(4 * a)) = -(4 * a) := by
  rw [quantize_ulaw, quantize_ulaw]
  constructor
  · rw [if_neg (by omega), show (4 * (a : ℤ) / 4).toNat = a by omega, h]
  · split_ifs with hneg
    · rw [show (-(-(4 * (a : ℤ)) / 4)).toNat = a by omega, h]
    · obtain rfl : a = 0 := by omega
      rfl

theorem quantize_ulaw_spec {s : ℤ} (h : Pcm16 s) : ∃ a : ℕ, a ≤ 8031 ∧ ulawLevel a = 4 * a ∧
    (ulaw.quantize s = 4 * a ∨ ulaw.quantize s = -(4 * a)) ∧ 32 * |ulaw.quantize s - s| ≤ |s| + 256 := by
  obtain ⟨hlow, hhigh⟩ := h
  rw [quantize_ulaw]
  split_ifs with hneg
  · obtain ⟨a, hval, hself, ha, h1, h2⟩ := ulawLevel_spec (n := (-(s / 4)).toNat) (by omega)
    refine ⟨a, ha, hself, Or.inr (by rw [hval]), ?_⟩
    rw [hval, abs_of_neg (show s < 0 by omega)]
    rcases abs_cases (-(4 * (a : ℤ)) - s) with ⟨he, -⟩ | ⟨he, -⟩ <;> rw [he] <;> omega
  · obtain ⟨a, hval, hself, ha, h1, h2⟩ := ulawLevel_spec (n := (s / 4).toNat) (by omega)
    refine ⟨a, ha, hself, Or.inl hval, ?_⟩
    rw [hval, abs_of_nonneg (show 0 ≤ s by omega)]
    rcases abs_cases (4 * (a : ℤ) - s) with ⟨he, -⟩ | ⟨he, -⟩ <;> rw [he] <;> omega

theorem ulaw_companding : Companding ulaw.quantize where
  pcm h := by
    obtain ⟨a, ha, -, hq, -⟩ := quantize_ulaw_spec h
    rw [Pcm16]
    omega
  mono {s t} _ _ hst := by
    have hpos : ∀ n, 0 ≤ ulawLevel n := fun n => ulawLevel_mono (Nat.zero_le n)
    have hs := hpos (s / 4).toNat
    rw [quantize_ulaw, quantize_ulaw]
    split_ifs with h1 h2 h2
    · have := ulawLevel_mono (m := (-(t / 4)).toNat) (n := (-(s / 4)).toNat) (by omega)
      omega
    · have := hpos (-(s / 4)).toNat
      have := hpos (t / 4).toNat
      omega
    · omega
    · exact ulawLevel_mono (by omega)
  idem h := by
    obtain ⟨a, -, hself, hq | hq, -⟩ := quantize_ulaw_spec h <;> rw [hq]
    · exact (quantize_ulawLevel hself).1
    · exact (quantize_ulawLevel hself).2
  err h := by
    obtain ⟨a, -, -, -, herr⟩ := quantize_ulaw_spec h
    exact herr

theorem quantize_alaw {s : ℤ} (h : Pcm16 s) :
    alaw.quantize s = if 0 ≤ s / 8 then 8 * (level (s / 8).toNat : ℤ) else -(8 * (level (-(s / 8) - 1).toNat : ℤ)) :=
  encodeAlaw_decodes h

theorem level_le {m : ℕ} (h : m ≤ 4095) : level m ≤ 4032 := by
  have h4095 : level 4095 = 4032 := by decide
  exact h4095 ▸ level_quantizer.monotone h

theorem quantize_alaw_spec {s : ℤ} (h : Pcm16 s) : ∃ m : ℕ, m ≤ 4095 ∧
    (alaw.quantize s = 8 * level m ∨ alaw.quantize s = -(8 * level m)) ∧ 32 * |alaw.quantize s - s| ≤ |s| + 256 := by
  rw [quantize_alaw h]
  obtain ⟨hlow, hhigh⟩ := h
  split_ifs with hpos
  · obtain ⟨w, h1, h2, h3⟩ := level_err (s / 8).toNat
    refine ⟨(s / 8).toNat, by omega, Or.inl rfl, ?_⟩
    rw [abs_of_nonneg (show 0 ≤ s by omega)]
    rcases abs_cases (8 * (level (s / 8).toNat : ℤ) - s) with ⟨he, -⟩ | ⟨he, -⟩ <;> rw [he] <;> omega
  · obtain ⟨w, h1, h2, h3⟩ := level_err (-(s / 8) - 1).toNat
    refine ⟨(-(s / 8) - 1).toNat, by omega, Or.inr rfl, ?_⟩
    rw [abs_of_neg (show s < 0 by omega)]
    rcases abs_cases (-(8 * (level (-(s / 8) - 1).toNat : ℤ)) - s) with ⟨he, -⟩ | ⟨he, -⟩ <;> rw [he] <;> omega

theorem alaw_companding : Companding alaw.quantize where
  pcm h := by
    obtain ⟨m, hm, hq, -⟩ := quantize_alaw_spec h
    have := level_le hm
    rw [Pcm16]
    omega
  mono {s t} hs ht hst := by
    have hmono : ∀ {m n : ℕ}, m ≤ n → (level m : ℤ) ≤ level n := fun hmn =>
      Int.ofNat_le.mpr (level_quantizer.monotone hmn)
    rw [quantize_alaw hs, quantize_alaw ht]
    split_ifs with h1 h2 h2
    · have := hmono (m := (s / 8).toNat) (n := (t / 8).toNat) (by omega)
      omega
    · omega
    · omega
    · have := hmono (m := (-(t / 8) - 1).toNat) (n := (-(s / 8) - 1).toNat) (by omega)
      omega
  idem h := by
    obtain ⟨m, hm, hq, -⟩ := quantize_alaw_spec h
    have hle := level_le hm
    have hpos := level_pos m
    rcases hq with hq | hq
    · rw [hq, quantize_alaw (by rw [Pcm16]; omega), if_pos (by omega),
        show (8 * (level m : ℤ) / 8).toNat = level m by omega, level_quantizer.idem]
    · -- the magnitude of a negative level is one below it, in the same cell
      rw [hq, quantize_alaw (by rw [Pcm16]; omega), if_neg (by omega),
        show (-(-(8 * (level m : ℤ)) / 8) - 1).toNat = level m - 1 by omega, level_pred]
  err h := by
    obtain ⟨m, -, -, herr⟩ := quantize_alaw_spec h
    exact herr

theorem companding : ∀ kind : G711Kind, Companding kind.quantize
  | .ulaw => ulaw_companding
  | .alaw => alaw_companding

/-- The byte that stands for the same level and is sent again: µ-law has two zeros. -/
def resent : G711Kind → UInt8 → UInt8
  | .ulaw, 0x7F => 0xFF
  | _, b => b

theorem resent_ofNat : ∀ n : Fin 256,
    encodeUlaw (decodeUlaw (UInt8.ofNat n)) = ulaw.resent (UInt8.ofNat n) ∧
      encodeAlaw (decodeAlaw (UInt8.ofNat n)) = UInt8.ofNat n := by
  decide +kernel

theorem encodeSample_decodeByte (kind : G711Kind) (b : UInt8) :
    kind.encodeSample (kind.decodeByte b) = kind.resent b := by
  obtain ⟨hu, ha⟩ := resent_ofNat ⟨b.toNat, b.toNat_lt⟩
  simp only [UInt8.ofNat_toNat] at hu ha
  cases kind with
  | ulaw => exact hu
  | alaw => exact ha

/-- A frame that goes over the line and is decoded at its end. -/
def hop (kind : G711Kind) (pcm : List Sample) : List Sample := decode kind (encode kind pcm)

theorem hop_eq (kind : G711Kind) (pcm : List Sample) : kind.hop pcm = pcm.map kind.quantize := by
  simp [hop, decode, encode, Function.comp_def, quantize]

/-- However many hops a frame of 16-bit samples takes, it suffers one: no sample is moved by more than a
part in 32, none overtakes another, and what is decoded from the line is sent as the same bytes again,
but for the second zero of the µ-law. -/
theorem hops (kind : G711Kind) {pcm : List Sample} (hpcm : ∀ s ∈ pcm, Pcm16 s) :
    (∀ n, (kind.hop)^[n + 1] pcm = kind.hop pcm) ∧
      (kind.hop pcm).length = pcm.length ∧
      (∀ st ∈ pcm.zip (kind.hop pcm), Pcm16 st.2 ∧ 32 * |st.2 - st.1| ≤ |st.1| + 256) ∧
      (∀ x ∈ pcm.zip (kind.hop pcm), ∀ y ∈ pcm.zip (kind.hop pcm), x.1 ≤ y.1 → x.2 ≤ y.2) ∧
      ∀ payload, encode kind (decode kind payload) = payload.map kind.resent := by
  have hq := kind.companding
  have hzip : ∀ x ∈ pcm.zip (kind.hop pcm), Pcm16 x.1 ∧ x.2 = kind.quantize x.1 := by
    intro x hx
    have hmap : pcm.zip (pcm.map kind.quantize) = pcm.map fun s => (s, kind.quantize s) := by
      simpa using List.zip_map' (f := id) (g := kind.quantize) (l := pcm)
    rw [hop_eq, hmap] at hx
    obtain ⟨s, hs, rfl⟩ := List.mem_map.mp hx
    exact ⟨hpcm s hs, rfl⟩
  refine ⟨fun n => ?_, by simp [hop_eq], fun x hx => ?_, fun x hx y hy hxy => ?_, fun payload => ?_⟩
  · induction n with
    | zero => rfl
    | succ n ih =>
      rw [Function.iterate_succ_apply', ih, hop_eq, hop_eq, List.map_map]
      exact List.map_congr_left fun s hs => hq.idem (hpcm s hs)
  · obtain ⟨hs, heq⟩ := hzip x hx
    rw [heq]
    exact ⟨hq.pcm hs, hq.err hs⟩
  · obtain ⟨hs, heqs⟩ := hzip x hx
    obtain ⟨ht, heqt⟩ := hzip y hy
    rw [heqs, heqt]
    exact hq.mono hs ht hxy
  · simp [encode, decode, Function.comp_def, encodeSample_decodeByte]

theorem hops_thrice : (G711Kind.hop .ulaw)^[3] [0, 1000, -20000] = G711Kind.hop .ulaw [0, 1000, -20000] :=
  (hops .ulaw (by simp [Pcm16])).1 2

end G711Kind

end Kutsu
