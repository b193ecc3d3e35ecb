import Kutsu.Lib.Serial
import Kutsu.Model.Uplink

/-! What the loss accounting reports of a stream of packets, in terms of their true extended
sequence numbers. While every packet is less than half the number space from the running
maximum, `cycles` and `max16` are that maximum's quotient, counted from the first packet's, and its
remainder. -/

namespace Kutsu

open Serial

/-- Each number is at least `first` and within half the number space of the maximum before it. -/
def InWindow (first : ℕ) : ℕ → List ℕ → Prop
  | _, [] => True
  | top, e :: es => first ≤ e ∧ top ≤ e + 32768 ∧ e ≤ top + 32767 ∧ InWindow first (max top e) es

/-- How many arrived below the running maximum. -/
def late : ℕ → List ℕ → ℕ
  | _, [] => 0
  | top, e :: es => (if e < top then 1 else 0) + late (max top e) es

def highest (top : ℕ) (es : List ℕ) : ℕ := es.foldl max top

def wire (e : ℕ) : UInt16 := UInt16.ofNat e

theorem toNat_wire (e : ℕ) : (wire e).toNat = e % 65536 := UInt16.toNat_ofNat'

theorem ahead_wire (e top : ℕ) : (wire e - wire top).toNat = ahead 65536 (top % 65536) (e % 65536) := by
  rw [UInt16.toNat_sub, toNat_wire, toNat_wire, ahead]

namespace UplinkStats

variable {s : UplinkStats} {seq : UInt16}

theorem forward_cases (s : UplinkStats) (seq : UInt16) :
    seq - s.max16 = 0 ∨ (0 < (seq - s.max16).toNat ∧ (seq - s.max16).toNat < 32768) ∨
      32768 ≤ (seq - s.max16).toNat := by
  rcases Nat.eq_zero_or_pos (seq - s.max16).toNat with h0 | hpos
  · exact Or.inl (UInt16.toNat_inj.mp h0)
  · exact Or.inr ((lt_or_ge _ _).imp_left fun hlt => ⟨hpos, hlt⟩)

theorem observe_same (hs : s.started = true) (h : seq - s.max16 = 0) :
    s.observe seq = { s with received := s.received + 1 } := by
  simp only [observe, hs, if_pos h, Bool.not_true, Bool.false_eq_true, if_false]

theorem observe_forward (hs : s.started = true) (hpos : 0 < (seq - s.max16).toNat)
    (hlt : (seq - s.max16).toNat < 32768) :
    s.observe seq = { s with received := s.received + 1, max16 := seq
                             cycles := if seq < s.max16 then s.cycles + 1 else s.cycles } := by
  have hne : seq - s.max16 ≠ 0 := fun h0 => hpos.ne' (congrArg UInt16.toNat h0)
  have hhalf : seq - s.max16 < 0x8000 := UInt16.lt_iff_toNat_lt.mpr hlt
  simp only [observe, hs, if_neg hne, if_pos hhalf, Bool.not_true, Bool.false_eq_true, if_false]

theorem observe_behind (hs : s.started = true) (hge : 32768 ≤ (seq - s.max16).toNat) :
    s.observe seq = { s with received := s.received + 1, reordered := s.reordered + 1 } := by
  have hne : seq - s.max16 ≠ 0 := by
    intro h0
    rw [h0] at hge
    exact absurd hge (by decide)
  have hhalf : ¬ seq - s.max16 < 0x8000 := fun hlt => absurd (UInt16.lt_iff_toNat_lt.mp hlt) (not_lt.mpr hge)
  simp only [observe, hs, if_neg hne, if_neg hhalf, Bool.not_true, Bool.false_eq_true, if_false]

/-- What the accounting knows: where the stream began, its maximum, and how many packets came and
how many of them late. -/
structure Tracks (s : UplinkStats) (first top received reordered : ℕ) : Prop where
  started : s.started = true
  firstExt : s.firstExt = first % 65536
  cycles : s.cycles + first / 65536 = top / 65536
  max16 : s.max16 = wire top
  received : s.received = received
  reordered : s.reordered = reordered

variable {first top n r : ℕ}

theorem span_tracks (h : s.Tracks first top n r) : s.maxExt + first = top + s.firstExt := by
  have htop := Nat.div_add_mod top 65536
  have hfirst := Nat.div_add_mod first 65536
  have hcycles := h.cycles
  rw [maxExt, h.max16, h.firstExt, toNat_wire]
  omega

theorem tracks_first (e : ℕ) : (new.observe (wire e)).Tracks e e 1 0 where
  started := rfl
  firstExt := toNat_wire e
  cycles := Nat.zero_add _
  max16 := rfl
  received := rfl
  reordered := rfl

theorem tracks_again (h : s.Tracks first top n r) : (s.observe (wire top)).Tracks first top (n + 1) r := by
  rw [observe_same h.started (by rw [h.max16, UInt16.sub_self])]
  exact { h with received := congrArg (· + 1) h.received }

theorem tracks_up (h : s.Tracks first top n r) {k : ℕ} (hk : 0 < k) (hk' : k < 32768) :
    (s.observe (wire (top + k))).Tracks first (top + k) (n + 1) r := by
  have hM : k < 65536 := by omega
  have hahead : (wire (top + k) - s.max16).toNat = k := by rw [h.max16, ahead_wire, ahead_up hM]
  have hpass : wire (top + k) < s.max16 ↔ (top + k) % 65536 < top % 65536 := by
    rw [h.max16, UInt16.lt_iff_toNat_lt, toNat_wire, toNat_wire]
  rw [observe_forward h.started (by omega) (by omega)]
  refine { h with received := congrArg (· + 1) h.received, max16 := rfl, cycles := ?_ }
  have hcycles := h.cycles
  rw [div_up hM]
  simp only [hpass]
  split_ifs <;> omega

theorem tracks_down (h : s.Tracks first top n r) {e k : ℕ} (htop : top = e + k) (hk : 0 < k) (hk' : k ≤ 32768) :
    (s.observe (wire e)).Tracks first top (n + 1) (r + 1) := by
  have hahead : (wire e - s.max16).toNat = 65536 - k := by
    rw [h.max16, ahead_wire, htop, ahead_down hk (by omega)]
  rw [observe_behind h.started (by omega)]
  exact { h with received := congrArg (· + 1) h.received, reordered := congrArg (· + 1) h.reordered }

theorem tracks_observe (h : s.Tracks first top n r) {e : ℕ} (hlow : top ≤ e + 32768) (hhigh : e ≤ top + 32767) :
    (s.observe (wire e)).Tracks first (max top e) (n + 1) (r + if e < top then 1 else 0) := by
  rcases lt_trichotomy e top with hlt | rfl | hgt
  · rw [max_eq_left hlt.le, if_pos hlt]
    exact tracks_down h (k := top - e) (by omega) (by omega) (by omega)
  · rw [max_self, if_neg (lt_irrefl _)]
    exact tracks_again h
  · rw [max_eq_right hgt.le, if_neg hgt.not_gt]
    obtain ⟨k, rfl⟩ := Nat.exists_eq_add_of_lt hgt
    exact tracks_up h (k := k + 1) (by omega) (by omega)

theorem tracks_observeAll {es : List ℕ} (h : s.Tracks first top n r) (hw : InWindow first top es) :
    (s.observeAll (es.map wire)).Tracks first (highest top es) (n + es.length) (r + late top es) := by
  induction es generalizing s top n r with
  | nil => exact h
  | cons e es ih =>
    obtain ⟨-, hlow, hhigh, hw⟩ := hw
    have hnext := ih (tracks_observe h hlow hhigh) hw
    rw [Nat.add_right_comm, Nat.add_assoc, Nat.add_assoc] at hnext
    exact hnext

theorem tracks_stream {e₀ : ℕ} {es : List ℕ} (hw : InWindow e₀ e₀ es) :
    (new.observeAll ((e₀ :: es).map wire)).Tracks e₀ (highest e₀ es) (e₀ :: es).length (late e₀ es) := by
  have h := tracks_observeAll (tracks_first e₀) hw
  rwa [Nat.add_comm 1, Nat.zero_add] at h

/-! Streams that are not in the window. -/

theorem firstExt_observe (hs : s.started = true) : (s.observe seq).firstExt = s.firstExt := by
  rcases forward_cases s seq with h | ⟨hpos, hlt⟩ | hge
  · rw [observe_same hs h]
  · rw [observe_forward hs hpos hlt]
  · rw [observe_behind hs hge]

theorem maxExt_observe (hs : s.started = true) (seq : UInt16) : s.maxExt ≤ (s.observe seq).maxExt := by
  rcases forward_cases s seq with h | ⟨hpos, hlt⟩ | hge
  · rw [observe_same hs h]
    exact le_rfl
  · rw [observe_forward hs hpos hlt]
    have hbound : s.max16.toNat < 65536 := s.max16.toNat_lt
    simp only [maxExt]
    split_ifs with hwrap
    · omega
    · have hup : s.max16.toNat ≤ seq.toNat := UInt16.le_iff_toNat_le.mp (UInt16.not_lt.mp hwrap)
      omega
  · rw [observe_behind hs hge]
    exact le_rfl

theorem started_observe : (s.observe seq).started = true := by
  by_cases hs : s.started = true
  · rcases forward_cases s seq with h | ⟨hpos, hlt⟩ | hge
    · rw [observe_same hs h]
      exact hs
    · rw [observe_forward hs hpos hlt]
      exact hs
    · rw [observe_behind hs hge]
      exact hs
  · simp [observe, hs]

/-- Before the first packet nothing is counted, and afterwards the maximum is not below where the
stream began. -/
def Sound (s : UplinkStats) : Prop := s = new ∨ s.started = true ∧ s.firstExt ≤ s.maxExt

theorem sound_observe (h : s.Sound) (seq : UInt16) : (s.observe seq).Sound ∧ s.maxExt ≤ (s.observe seq).maxExt := by
  rcases h with rfl | ⟨hs, hle⟩
  · have hfirst : (new.observe seq).firstExt = (new.observe seq).maxExt := by
      simp [observe, new, maxExt]
    exact ⟨Or.inr ⟨started_observe, hfirst.le⟩, Nat.zero_le _⟩
  · have hup := maxExt_observe hs seq
    exact ⟨Or.inr ⟨started_observe, (firstExt_observe hs).le.trans (hle.trans hup)⟩, hup⟩

theorem sound_observeAll (h : s.Sound) (seqs : List UInt16) :
    (s.observeAll seqs).Sound ∧ s.maxExt ≤ (s.observeAll seqs).maxExt := by
  induction seqs generalizing s with
  | nil => exact ⟨h, le_rfl⟩
  | cons seq seqs ih =>
    obtain ⟨hnext, hup⟩ := sound_observe h seq
    obtain ⟨hsound, hups⟩ := ih hnext
    exact ⟨hsound, hup.trans hups⟩

theorem firstExt_le_maxExt (h : s.Sound) : s.firstExt ≤ s.maxExt := by
  rcases h with rfl | ⟨-, hle⟩
  · exact le_rfl
  · exact hle

theorem maxExt_extend (seqs more : List UInt16) :
    (new.observeAll seqs).firstExt ≤ (new.observeAll seqs).maxExt ∧
      (new.observeAll seqs).maxExt ≤ (new.observeAll (seqs ++ more)).maxExt := by
  obtain ⟨hsound, -⟩ := sound_observeAll (Or.inl rfl) seqs
  have happend : new.observeAll (seqs ++ more) = (new.observeAll seqs).observeAll more := List.foldl_append
  refine ⟨firstExt_le_maxExt hsound, ?_⟩
  rw [happend]
  exact (sound_observeAll hsound more).2

theorem counters_observe (s : UplinkStats) (seq : UInt16) :
    (s.observe seq).cycles ≤ s.cycles + 1 ∧ (s.observe seq).received ≤ s.received + 1 := by
  by_cases hs : s.started = true
  · rcases forward_cases s seq with h | ⟨hpos, hlt⟩ | hge
    · rw [observe_same hs h]
      exact ⟨Nat.le_succ _, le_rfl⟩
    · rw [observe_forward hs hpos hlt]
      refine ⟨?_, le_rfl⟩
      simp only
      split_ifs <;> omega
    · rw [observe_behind hs hge]
      exact ⟨Nat.le_succ _, le_rfl⟩
  · simp [observe, hs]

/-- No counter leaves its 64 bits within the first `2 ^ 48 - 1` packets. -/
theorem counters_fit {seqs : List UInt16} (h : seqs.length < 281474976710655) :
    (new.observeAll seqs).maxExt + 1 < UInt64.size ∧ (new.observeAll seqs).received < UInt64.size := by
  have hgrow : ∀ l : List UInt16, (new.observeAll l).cycles ≤ l.length ∧ (new.observeAll l).received ≤ l.length := by
    intro l
    induction l using List.reverseRecOn with
    | nil => exact ⟨le_rfl, le_rfl⟩
    | append_singleton l seq ih =>
      have hlast : new.observeAll (l ++ [seq]) = (new.observeAll l).observe seq := List.foldl_append
      have hstep := counters_observe (new.observeAll l) seq
      rw [hlast, List.length_append, List.length_singleton]
      exact ⟨hstep.1.trans (Nat.succ_le_succ ih.1), hstep.2.trans (Nat.succ_le_succ ih.2)⟩
  obtain ⟨hc, hr⟩ := hgrow seqs
  have hbound : (new.observeAll seqs).max16.toNat < 65536 := (new.observeAll seqs).max16.toNat_lt
  have hsize : UInt64.size = 18446744073709551616 := rfl
  rw [maxExt, hsize]
  omega

end UplinkStats

/-! What is reported of a stream in the window. -/

theorem inWindow_bounds {first top : ℕ} {es : List ℕ} (hft : first ≤ top) (hw : InWindow first top es) :
    top ≤ highest top es ∧ ∀ e ∈ es, first ≤ e ∧ e ≤ highest top es := by
  induction es generalizing top with
  | nil => exact ⟨le_rfl, fun e he => absurd he List.not_mem_nil⟩
  | cons e es ih =>
    obtain ⟨hfe, -, -, hw⟩ := hw
    obtain ⟨hle, hall⟩ := ih (hft.trans (le_max_left top e)) hw
    refine ⟨(le_max_left top e).trans hle, fun x hx => ?_⟩
    rcases List.mem_cons.mp hx with rfl | hx
    · exact ⟨hfe, (le_max_right top x).trans hle⟩
    · exact hall x hx

/-- The numbers between the first and the highest that never arrived. -/
def neverArrived (e₀ : ℕ) (es : List ℕ) : Finset ℕ := missing e₀ (highest e₀ es) (e₀ :: es)

/-- The report of a stream whose packets may be repeated: each repetition hides one missing
packet. -/
theorem snapshot_stream {e₀ : ℕ} {es : List ℕ} (hw : InWindow e₀ e₀ es) :
    (UplinkStats.new.observeAll ((e₀ :: es).map wire)).snapshot =
      ⟨(e₀ :: es).length, (neverArrived e₀ es).card - repeats (e₀ :: es), late e₀ es⟩ := by
  have h := UplinkStats.tracks_stream hw
  obtain ⟨hle, hall⟩ := inWindow_bounds le_rfl hw
  have hbounds : ∀ e ∈ e₀ :: es, e₀ ≤ e ∧ e ≤ highest e₀ es := by
    intro e he
    rcases List.mem_cons.mp he with rfl | he
    · exact ⟨le_rfl, hle⟩
    · exact hall e he
  have hcard := card_missing hbounds
  have hlen := @length_eq_dedup (e₀ :: es)
  have hspan := UplinkStats.span_tracks h
  have hlost : ∀ s : UplinkStats, s.maxExt + e₀ = highest e₀ es + s.firstExt →
      s.maxExt - s.firstExt + 1 - (e₀ :: es).length = (neverArrived e₀ es).card - repeats (e₀ :: es) := by
    intro s hspan
    rw [neverArrived]
    omega
  rw [UplinkStats.snapshot, h.started, h.received, h.reordered, hlost _ hspan]
  rfl

/-- The accounting is exact for packets that are all different, and its span never underflows. -/
theorem uplink_exact {e₀ : ℕ} {es : List ℕ} (hw : InWindow e₀ e₀ es) (hd : (e₀ :: es).Nodup) :
    (UplinkStats.new.observeAll ((e₀ :: es).map wire)).snapshot =
      ⟨(e₀ :: es).length, (neverArrived e₀ es).card, late e₀ es⟩ ∧
    ∀ seqs more : List UInt16,
      (UplinkStats.new.observeAll seqs).firstExt ≤ (UplinkStats.new.observeAll seqs).maxExt ∧
      (UplinkStats.new.observeAll seqs).maxExt ≤ (UplinkStats.new.observeAll (seqs ++ more)).maxExt := by
  refine ⟨?_, UplinkStats.maxExt_extend⟩
  rw [snapshot_stream hw, repeats_eq_zero_iff.mpr hd, Nat.sub_zero]

/-- A wrap with a gap and a late packet from before it. -/
theorem uplink_exact_wrap :
    ((UplinkStats.new.observeAll ([65534, 65537, 65535, 65539].map wire)).snapshot =
      ⟨4, (neverArrived 65534 [65537, 65535, 65539]).card, 1⟩ ∧
      ∀ seqs more : List UInt16,
        (UplinkStats.new.observeAll seqs).firstExt ≤ (UplinkStats.new.observeAll seqs).maxExt ∧
        (UplinkStats.new.observeAll seqs).maxExt ≤ (UplinkStats.new.observeAll (seqs ++ more)).maxExt) ∧
    (neverArrived 65534 [65537, 65535, 65539]).card = 2 := by
  refine ⟨uplink_exact ?_ (by decide), by decide⟩
  simp [InWindow]

/-- Repeated packets hide missing ones one for one, so the loss is right exactly where nothing is
repeated or nothing is missing. -/
theorem uplink_lost_repeats {e₀ : ℕ} {es : List ℕ} (hw : InWindow e₀ e₀ es) :
    (UplinkStats.new.observeAll ((e₀ :: es).map wire)).snapshot.lost =
      (neverArrived e₀ es).card - repeats (e₀ :: es) ∧
    ((UplinkStats.new.observeAll ((e₀ :: es).map wire)).snapshot.lost = (neverArrived e₀ es).card ↔
      (e₀ :: es).Nodup ∨ neverArrived e₀ es = ∅) := by
  have hlost : (UplinkStats.new.observeAll ((e₀ :: es).map wire)).snapshot.lost =
      (neverArrived e₀ es).card - repeats (e₀ :: es) := by rw [snapshot_stream hw]
  refine ⟨hlost, ?_⟩
  rw [hlost, ← repeats_eq_zero_iff, ← Finset.card_eq_zero]
  omega

theorem uplink_lost_repeats_gap :
    (UplinkStats.new.observeAll ([100, 101, 101, 104].map wire)).snapshot.lost =
      (neverArrived 100 [101, 101, 104]).card - repeats [100, 101, 101, 104] ∧
    ((UplinkStats.new.observeAll ([100, 101, 101, 104].map wire)).snapshot.lost =
      (neverArrived 100 [101, 101, 104]).card ↔
      [100, 101, 101, 104].Nodup ∨ neverArrived 100 [101, 101, 104] = ∅) := by
  refine uplink_lost_repeats ?_
  simp [InWindow]

/-- Packet 102 never arrives, packet 101 arrives twice, and no loss is reported. -/
theorem duplicate_hides_loss :
    ¬ ∀ (e₀ : ℕ) (es : List ℕ), e₀ < 65536 → InWindow e₀ e₀ es →
      (UplinkStats.new.observeAll ((e₀ :: es).map wire)).snapshot.lost = (neverArrived e₀ es).card := by
  intro h
  have hlost := h 100 [101, 101, 103] (by decide) (by simp [InWindow])
  exact absurd hlost (by decide)

end Kutsu
