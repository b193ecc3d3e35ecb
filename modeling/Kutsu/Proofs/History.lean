import Kutsu.Lib.Run
import Kutsu.Proofs.Ledger

/-! What the history cap leaves readable. The cap evicts by placement number, so the
last `c` calls to end stay readable exactly as long as every eviction also takes
the call that ended first. -/

namespace Kutsu

namespace Ledger

variable {h : Ledger} {e : Ending}

theorem held_mark_present (hp : (h.store.get e.id).isSome) :
    (h.mark e).held = h.held ++ [e] := by
  have hended : (h.mark e).ended = h.ended ++ [e] := if_pos hp
  simp only [held, hended, List.filter_append, isSome_get_mark]
  simp [hp]

theorem held_mark_absent (hp : ¬ (h.store.get e.id).isSome) : (h.mark e).held = h.held := by
  have hended : (h.mark e).ended = h.ended := if_neg hp
  simp only [held, hended, isSome_get_mark]

theorem readable_iff (hw : h.WF) :
    h.Readable ↔ ∀ e ∈ h.ended.rtake h.store.maxHistory, (h.store.get e.id).isSome := by
  constructor
  · intro hr e he
    obtain ⟨r, hget, -⟩ := hr e he
    simp [hget]
  · intro hp e he
    obtain ⟨r, hget⟩ := Option.isSome_iff_exists.mp (hp e he)
    have hmem : e ∈ h.ended := by
      rw [List.rtake] at he; exact List.mem_of_mem_drop he
    exact ⟨r, hget, hw.describes e hmem r hget⟩

theorem held_eq_rtake (hw : h.WF) (hr : h.Readable) (hle : h.held.length ≤ h.store.maxHistory) :
    h.held = h.ended.rtake h.store.maxHistory := by
  set c := h.store.maxHistory
  have hsplit : h.held = (h.ended.take (h.ended.length - c)).filter
      (fun e => (h.store.get e.id).isSome) ++ h.ended.rtake c := by
    have hlast : (h.ended.rtake c).filter (fun e => (h.store.get e.id).isSome) =
        h.ended.rtake c := List.filter_eq_self.mpr ((readable_iff hw).mp hr)
    rw [← hlast, List.rtake, ← List.filter_append, List.take_append_drop]
    rfl
  by_cases hlen : h.ended.length ≤ c
  · rw [hsplit, Nat.sub_eq_zero_of_le hlen]; simp
  · -- the last `c` already make up the bound, so nothing older is held
    have hc : (h.ended.rtake c).length = c := by rw [List.rtake, List.length_drop]; omega
    have hnil := congrArg List.length hsplit
    rw [List.length_append, hc] at hnil
    have hzero := List.eq_nil_of_length_eq_zero (l := (h.ended.take (h.ended.length - c)).filter
      (fun e => (h.store.get e.id).isSome)) (by omega)
    rw [hsplit, hzero, List.nil_append]

theorem get_evict_within (hw : h.WF) (hle : h.held.length ≤ h.store.maxHistory) (k : CallId) :
    h.evict.store.get k = h.store.get k := by
  rw [get_evict, CallStore.overCap_within (by rw [endedIds_length hw]; exact hle)]
  simp

theorem evict_over (hw : h.WF) (hc : 1 ≤ h.store.maxHistory)
    (hlen : h.held.length = h.store.maxHistory + 1) :
    ∃ w ∈ h.held, (∀ e ∈ h.held, callSeq w.id ≤ callSeq e.id) ∧
      ∀ k, h.evict.store.get k = if k = w.id then none else h.store.get k := by
  obtain ⟨w, hover, ⟨r, hget, hr⟩, hmin⟩ :=
    CallStore.overCap_succ hc ((endedIds_length hw).trans hlen)
  obtain ⟨ew, hew, rfl⟩ := hw.ended_mem w r hget hr
  refine ⟨ew, mem_held.mpr ⟨hew, Option.isSome_iff_exists.mpr ⟨r, hget⟩⟩, fun e he => ?_, fun k => ?_⟩
  · obtain ⟨hmem, hsome⟩ := mem_held.mp he
    obtain ⟨r', hr'⟩ := Option.isSome_iff_exists.mp hsome
    exact hmin e.id r' hr' (hw.describes e hmem r' hr').1
  · simp only [get_evict, hover, List.mem_singleton]

theorem held_evict_le (hw : h.WF) (hc : 1 ≤ h.store.maxHistory)
    (hlen : h.held.length ≤ h.store.maxHistory + 1) :
    h.evict.held.length ≤ h.store.maxHistory := by
  by_cases hle : h.held.length ≤ h.store.maxHistory
  · have : h.evict.held = h.held := by
      simp only [held, get_evict_within hw hle]
      rfl
    rwa [this]
  · obtain ⟨w, hwm, -, hget⟩ := evict_over hw hc (by omega)
    have hfilter : h.evict.held = h.held.filter fun e => e.id ≠ w.id := by
      simp only [held, List.filter_filter, hget]
      refine List.filter_congr fun e _ => ?_
      by_cases he : e.id = w.id <;> simp [he]
    have hlt : (h.held.filter fun e => e.id ≠ w.id).length < h.held.length :=
      List.length_filter_lt_length_iff_exists.mpr ⟨w, hwm, by simp⟩
    rw [hfilter]; omega

/-- A call that ends with the history full: the last `c` stay readable exactly when
the first of those held is the one evicted. -/
theorem readable_evict_full (hw : h.WF) (hc : 1 ≤ h.store.maxHistory) (hr : h.Readable)
    (hlen : h.held.length = h.store.maxHistory) (hp : (h.store.get e.id).isSome)
    (hl : ∀ e' ∈ h.ended, e'.id ≠ e.id) :
    (h.mark e).evict.Readable ↔ ∀ first ∈ h.held.head?, callSeq first.id ≤ callSeq e.id ∧
      ∀ e' ∈ h.held, callSeq first.id ≤ callSeq e'.id := by
  have hw₁ := wf_mark hw e hl
  have hheld := held_mark_present hp
  have hmax : (h.mark e).store.maxHistory = h.store.maxHistory :=
    CallStore.modify_maxHistory _ _ _
  obtain ⟨w, hwm, hmin, hget⟩ := evict_over hw₁ (hmax ▸ hc) (by rw [hheld, hmax]; simp [hlen])
  have hsuffix := held_eq_rtake hw hr hlen.le
  obtain ⟨c, hcs⟩ : ∃ c, h.store.maxHistory = c + 1 := ⟨_, (Nat.sub_add_cancel hc).symm⟩
  cases hfirst : h.held with
  | nil => rw [hfirst] at hlen; simp at hlen; omega
  | cons first rest =>
    -- the last `c` after this ending: all that were held but the first, and this one
    have hended : (h.mark e).evict.ended = h.ended ++ [e] := if_pos hp
    have hrest : h.ended.rtake c = rest := by
      have htail := congrArg List.tail (hsuffix.symm.trans hfirst)
      rw [hcs, List.rtake, List.tail_drop, List.tail_cons] at htail
      have hle : c + 1 ≤ h.ended.length := by
        have := congrArg List.length hsuffix
        rw [hlen, hcs, List.rtake, List.length_drop] at this
        omega
      rw [List.rtake, ← htail]
      congr 1; omega
    have hlast : (h.mark e).evict.ended.rtake (h.mark e).evict.store.maxHistory = rest ++ [e] := by
      have : (h.mark e).evict.store.maxHistory = c + 1 := hmax.trans hcs
      rw [hended, this, List.rtake_concat_succ, hrest]
    have hids : ((first :: rest ++ [e]).map (·.id)).Nodup := by
      rw [← hfirst, ← hheld]
      exact hw₁.nodup.sublist (List.Sublist.map _ List.filter_sublist)
    have hnum : ∀ e' ∈ h.held ++ [e], Numbered e'.id := by
      intro e' he'
      rw [← hheld] at he'
      obtain ⟨r, hr'⟩ := Option.isSome_iff_exists.mp (mem_held.mp he').2
      exact hw₁.numbered e'.id r hr'
    rw [hheld, hfirst] at hwm hmin
    rw [hfirst] at hnum
    have hpresent : ∀ e' ∈ first :: rest ++ [e], ((h.mark e).store.get e'.id).isSome := by
      intro e' he'
      rw [← hfirst, ← hheld] at he'
      exact (mem_held.mp he').2
    rw [readable_iff (wf_evict hw₁), hlast]
    simp only [hget, List.head?_cons, Option.mem_def, Option.some.injEq, forall_eq']
    constructor
    · intro hread
      -- the evicted one is not among `rest ++ [e]`, so it is the first
      have hweq : w.id = first.id := by
        rcases List.mem_cons.mp hwm with rfl | hin
        · rfl
        · have := hread w hin
          simp at this
      rw [hweq] at hmin
      exact ⟨hmin e (by simp), fun e' he' => hmin e' (List.mem_append_left _ he')⟩
    · rintro ⟨hfe, hfr⟩ e' he'
      have hle : callSeq first.id ≤ callSeq w.id := by
        rcases List.mem_append.mp hwm with hin | hin
        · exact hfr w hin
        · rw [List.mem_singleton.mp hin]; exact hfe
      have hweq : w.id = first.id := callSeq_inj (hnum w hwm) (hnum first (by simp))
        (le_antisymm (hmin first (by simp)) hle)
      have hne : e'.id ≠ w.id := by
        rw [hweq]
        rw [List.cons_append, List.map_cons, List.nodup_cons] at hids
        exact fun heq => hids.1 (heq ▸ List.mem_map_of_mem he')
      rw [if_neg hne]
      exact hpresent e' (List.mem_cons_of_mem _ he')

theorem readable_modify (hr : h.Readable) (id : CallId) (f : CallRecord → CallRecord)
    (hf : ∀ r, h.store.get id = some r → ∀ e, Ending.Describes e r → e.Describes (f r)) :
    (⟨h.store.modify id f, h.ended⟩ : Ledger).Readable := by
  intro e he
  have hmax : (h.store.modify id f).maxHistory = h.store.maxHistory :=
    CallStore.modify_maxHistory _ _ _
  simp only [hmax] at he
  obtain ⟨r, hget, hd⟩ := hr e he
  simp only [CallStore.get_modify, hget]
  split_ifs with hid
  · exact ⟨f r, rfl, hf r (hid ▸ hget) e hd⟩
  · exact ⟨r, rfl, hd⟩

theorem held_modify (id : CallId) (f : CallRecord → CallRecord) :
    (⟨h.store.modify id f, h.ended⟩ : Ledger).held = h.held := by
  refine List.filter_congr fun e _ => ?_
  rw [CallStore.get_modify]
  split_ifs <;> simp

/-- One operation keeps the last `c` readable exactly when it is `FirstOut`. -/
theorem readable_apply_iff (hw : h.WF) (hc : 1 ≤ h.store.maxHistory) (hr : h.Readable)
    (hle : h.held.length ≤ h.store.maxHistory) (op : StoreOp) (hl : h.Legal op) :
    (h.apply op).Readable ↔ h.FirstOut op := by
  cases op with
  | finalize e =>
    rw [apply_finalize]
    have hw₁ := wf_mark hw e hl
    have hmax : (h.mark e).store.maxHistory = h.store.maxHistory :=
      CallStore.modify_maxHistory _ _ _
    by_cases hp : (h.store.get e.id).isSome
    · by_cases hfull : h.held.length = h.store.maxHistory
      · rw [readable_evict_full hw hc hr hfull hp hl]
        exact ⟨fun hf _ _ => hf, fun hf => hf hp hfull.ge⟩
      · -- the history is not full: nothing is evicted and every ended call is still held
        refine iff_of_true ?_ fun _ hge => absurd (le_antisymm hle hge) hfull
        have hheld := held_mark_present hp
        rw [readable_iff (wf_evict hw₁)]
        intro e' he'
        rw [get_evict_within hw₁ (by rw [hheld, hmax, List.length_append]; simp; omega),
          isSome_get_mark]
        have hmem : e' ∈ h.ended ++ [e] := by
          rw [← show (h.mark e).evict.ended = h.ended ++ [e] from if_pos hp]
          exact List.mem_of_mem_drop he'
        rcases List.mem_append.mp hmem with hold | hnew
        · have hall : h.held = h.ended := by
            have hsuffix := held_eq_rtake hw hr hle
            have hlen := congrArg List.length hsuffix
            rw [List.rtake, List.length_drop] at hlen
            rw [hsuffix, List.rtake, show h.ended.length - h.store.maxHistory = 0 by omega]
            rfl
          rw [← hall] at hold
          exact (mem_held.mp hold).2
        · rwa [List.mem_singleton.mp hnew]
    · refine iff_of_true ?_ fun hsome _ => absurd hsome hp
      have hheld := held_mark_absent hp
      rw [readable_iff (wf_evict hw₁)]
      intro e' he'
      rw [get_evict_within hw₁ (by rw [hheld, hmax]; exact hle), isSome_get_mark]
      have hended : (h.mark e).evict.ended = h.ended := if_neg hp
      have hmax' : (h.mark e).evict.store.maxHistory = h.store.maxHistory := hmax
      rw [hended, hmax'] at he'
      exact (readable_iff hw).mp hr e' he'
  | insert rec =>
    refine iff_of_true (fun e he => ?_) trivial
    obtain ⟨r, hget, hd⟩ := hr e he
    have hne : e.id ≠ rec.callId := hl.2.2.2 e (List.mem_of_mem_drop he)
    exact ⟨r, by rw [show (h.apply (.insert rec)).store.get e.id = _ from
      CallStore.get_insert _ _ _, if_neg hne]; exact hget, hd⟩
  | setState id st =>
    refine iff_of_true (readable_modify hr id _ fun r hget e hd => ?_) trivial
    exact absurd hd.1 (hl.2 r hget)
  | appendTranscript id entry =>
    exact iff_of_true (readable_modify hr id _ fun _ _ _ hd => hd) trivial
  | appendAffect id entry =>
    exact iff_of_true (readable_modify hr id _ fun _ _ _ hd => hd) trivial
  | setTranscript id ts =>
    exact iff_of_true (readable_modify hr id _ fun _ _ _ hd => hd) trivial
  | setQuality id q =>
    exact iff_of_true (readable_modify hr id _ fun _ _ _ hd => hd) trivial

structure Sound (c : ℕ) (h : Ledger) : Prop where
  wf : h.WF
  cap : h.store.maxHistory = c
  within : h.held.length ≤ c

theorem sound_init (c : ℕ) : (init c).Sound c := ⟨init_wf c, rfl, Nat.zero_le _⟩

theorem sound_modify {c : ℕ} (hs : h.Sound c) (id : CallId) (f : CallRecord → CallRecord)
    (hf : ∀ r, h.store.get id = some r →
      ((f r).state = .ended → r.state = .ended) ∧ ∀ e, Ending.Describes e r → e.Describes (f r)) :
    (⟨h.store.modify id f, h.ended⟩ : Ledger).Sound c :=
  ⟨wf_modify hs.wf id f hf, (CallStore.modify_maxHistory _ _ _).trans hs.cap,
    by rw [held_modify]; exact hs.within⟩

theorem sound_apply {c : ℕ} (hc : 1 ≤ c) (hs : h.Sound c) {op : StoreOp} (hl : h.Legal op) :
    (h.apply op).Sound c := by
  cases op with
  | finalize e =>
    rw [apply_finalize]
    have hw₁ := wf_mark hs.wf e hl
    have hmax : (h.mark e).store.maxHistory = c :=
      (CallStore.modify_maxHistory _ _ _).trans hs.cap
    have hle : (h.mark e).held.length ≤ c + 1 := by
      by_cases hp : (h.store.get e.id).isSome
      · rw [held_mark_present hp, List.length_append]
        exact Nat.succ_le_succ hs.within
      · rw [held_mark_absent hp]
        exact Nat.le_succ_of_le hs.within
    have hin := held_evict_le hw₁ (by rw [hmax]; exact hc) (by rw [hmax]; exact hle)
    rw [hmax] at hin
    exact ⟨wf_evict hw₁, hmax, hin⟩
  | insert rec =>
    obtain ⟨hnum, hst, hnone, hfresh⟩ := hl
    have hget : ∀ k, (h.apply (.insert rec)).store.get k =
        if k = rec.callId then some rec else h.store.get k := CallStore.get_insert _ _
    have hold : ∀ e ∈ h.ended, (h.apply (.insert rec)).store.get e.id = h.store.get e.id :=
      fun e he => by rw [hget, if_neg (hfresh e he)]
    refine ⟨⟨hs.wf.nodup, fun k r hk hr => ?_, fun e he r hk => ?_, fun k r hk => ?_⟩, hs.cap, ?_⟩
    · rw [hget] at hk
      split_ifs at hk with hid
      · obtain rfl := Option.some.inj hk
        exact absurd hr hst
      · exact hs.wf.ended_mem k r hk hr
    · rw [hold e he] at hk
      exact hs.wf.describes e he r hk
    · rw [hget] at hk
      split_ifs at hk with hid
      · exact hid ▸ hnum
      · exact hs.wf.numbered k r hk
    · have hheld : (h.apply (.insert rec)).held = h.held :=
        List.filter_congr fun e he => by rw [hold e he]
      rw [hheld]
      exact hs.within
  | setState id st =>
    refine sound_modify hs id _ fun r hget => ⟨fun hst => absurd hst hl.1, fun e hd => ?_⟩
    exact absurd hd.1 (hl.2 r hget)
  | appendTranscript id entry => exact sound_modify hs id _ fun _ _ => ⟨fun h => h, fun _ hd => hd⟩
  | appendAffect id entry => exact sound_modify hs id _ fun _ _ => ⟨fun h => h, fun _ hd => hd⟩
  | setTranscript id ts => exact sound_modify hs id _ fun _ _ => ⟨fun h => h, fun _ hd => hd⟩
  | setQuality id q => exact sound_modify hs id _ fun _ _ => ⟨fun h => h, fun _ hd => hd⟩

/-- Over a run, the last `c` calls to end are readable at every point exactly when
every eviction takes the call that ended first. -/
theorem readable_iff_firstOut (c : ℕ) (hc : 1 ≤ c) (ops : List StoreOp)
    (hl : Runs.EachStep apply Legal (init c) ops) :
    Runs.Throughout apply Readable (init c) ops ↔ Runs.EachStep apply FirstOut (init c) ops := by
  have hempty : (init c).Readable := fun e he => by
    rw [List.rtake] at he
    exact absurd (List.mem_of_mem_drop he) List.not_mem_nil
  refine Runs.throughout_iff_eachStep (I := Sound c) (fun s a hs ha => sound_apply hc hs ha)
    (fun s a hs hr ha => ?_) (sound_init c) hempty hl
  exact readable_apply_iff hs.wf (by rw [hs.cap]; exact hc) hr (by rw [hs.cap]; exact hs.within) a ha

end Ledger

def freshRecord (n : ℕ) : CallRecord where
  callId := callId n
  number := "600"
  state := .queued
  transcript := []
  affect := []
  goal := none
  error := none
  startedMs := 0
  endedMs := none
  quality := {}
  disposition := none
  attempt := 1
  clientRef := none

def failedAt (n t : ℕ) : Ending := ⟨callId n, .failed, none, none, t⟩

/-- Two calls, a history of one, and the second call ends first. -/
def laterCallEndsFirst : List StoreOp :=
  [.insert (freshRecord 0), .insert (freshRecord 1), .finalize (failedAt 1 10),
    .finalize (failedAt 0 20)]

theorem laterCallEndsFirst_legal :
    Runs.EachStep Ledger.apply Ledger.Legal (Ledger.init 1) laterCallEndsFirst := by
  refine ⟨⟨⟨0, by decide, rfl⟩, by decide, rfl, by decide⟩,
    ⟨⟨1, by decide, rfl⟩, by decide, by rfl, by decide⟩, ?_, ?_, trivial⟩
  · simp only [Ledger.Legal]; decide +kernel
  · simp only [Ledger.Legal]; decide +kernel

/-- The call that just ended is the one evicted: its result is never readable. -/
theorem late_result_lost :
    Runs.EachStep Ledger.apply Ledger.Legal (Ledger.init 1) laterCallEndsFirst ∧
      (((laterCallEndsFirst.take 3).foldl Ledger.apply (Ledger.init 1)).store.get
        (callId 0)).isSome ∧
      ((laterCallEndsFirst.foldl Ledger.apply (Ledger.init 1)).ended.rtake 1).map (·.id) =
        [callId 0] ∧
      ((laterCallEndsFirst.foldl Ledger.apply (Ledger.init 1)).store.get (callId 0)).isNone :=
  ⟨laterCallEndsFirst_legal, by decide +kernel, by decide +kernel, by decide +kernel⟩

/-- Ending in placement order meets the condition. -/
def endInOrder : List StoreOp :=
  [.insert (freshRecord 0), .insert (freshRecord 1), .finalize (failedAt 0 10),
    .finalize (failedAt 1 20)]

theorem endInOrder_readable :
    Runs.Throughout Ledger.apply Ledger.Readable (Ledger.init 1) endInOrder := by
  have hlegal : Runs.EachStep Ledger.apply Ledger.Legal (Ledger.init 1) endInOrder := by
    refine ⟨⟨⟨0, by decide, rfl⟩, by decide, rfl, by decide⟩,
      ⟨⟨1, by decide, rfl⟩, by decide, by rfl, by decide⟩, ?_, ?_, trivial⟩
    · simp only [Ledger.Legal]; decide +kernel
    · simp only [Ledger.Legal]; decide +kernel
  refine (Ledger.readable_iff_firstOut 1 le_rfl endInOrder hlegal).mpr
    ⟨trivial, trivial, ?_, ?_, trivial⟩
  · simp only [Ledger.FirstOut]; decide +kernel
  · simp only [Ledger.FirstOut]; decide +kernel

end Kutsu
