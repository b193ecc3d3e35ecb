import Kutsu.Proofs.History
import Mathlib.Data.Finset.Card

/-! What the history cap removes. Ids are numbered, so the records that `finalize` sorts have distinct numbers, and
those it evicts are the smallest of the ended ones: it never takes a call in flight. -/

namespace Kutsu

namespace CallStore

def endedCount (s : CallStore) : ℕ := s.inner.entries.countP fun e => e.2.state = .ended

def EndedAt (s : CallStore) (n : ℕ) : Prop := ∃ r, s.get (callId n) = some r ∧ r.state = .ended

def marked (s : CallStore) (e : Ending) : CallStore := s.modify e.id e.mark

def AllNumbered (s : CallStore) : Prop := ∀ id r, s.get id = some r → Numbered id

/-- The store without the ended records of the smallest numbers, as many as there are over the cap. -/
def KeepsNewest (c : ℕ) (s s' : CallStore) : Prop := ∃ out : Finset ℕ, out.card = s.endedCount - c ∧
  (∀ n ∈ out, s.EndedAt n) ∧ (∀ n ∈ out, ∀ k, s.EndedAt k → k ∉ out → n < k) ∧
  ∀ id, s'.get id = if ∃ n ∈ out, id = callId n then none else s.get id

variable {s : CallStore} {m : Records} {c : ℕ} {id k : CallId} {e : Ending} {op : StoreOp} {r : CallRecord}

theorem endedCount_eq (s : CallStore) : s.endedCount = (endedIds s.inner).length := by
  rw [endedCount, endedIds, List.length_map, List.countP_eq_length_filter]

theorem maxHistory_apply (s : CallStore) (op : StoreOp) : (StoreOp.apply s op).maxHistory = s.maxHistory := by
  cases op with
  | insert rec => rfl
  | finalize e => exact modify_maxHistory _ _ _
  | _ => exact modify_maxHistory _ _ _

theorem AllNumbered.of_isSome {s' : CallStore} (h : s.AllNumbered)
    (hs : ∀ id, (s'.get id).isSome → (s.get id).isSome) : s'.AllNumbered := by
  intro id r hr
  obtain ⟨r₀, hr₀⟩ := Option.isSome_iff_exists.mp (hs id (Option.isSome_of_eq_some hr))
  exact h id r₀ hr₀

theorem AllNumbered.modify (h : s.AllNumbered) (id : CallId) (f : CallRecord → CallRecord) :
    (s.modify id f).AllNumbered := h.of_isSome fun k hk => (isSome_get_modify s id f k).symm.trans hk

theorem AllNumbered.apply (h : s.AllNumbered) (hop : ∀ rec, op = .insert rec → Numbered rec.callId) :
    (StoreOp.apply s op).AllNumbered := by
  cases op with
  | insert rec =>
    intro k r hr
    have hget : (StoreOp.apply s (.insert rec)).get k = _ := get_insert s rec k
    rw [hget] at hr
    split_ifs at hr with hk
    · exact hk ▸ hop rec rfl
    · exact h k r hr
  | finalize e =>
    refine (h.modify e.id e.mark).of_isSome fun k hk => ?_
    rw [get_finalize_eq] at hk
    split_ifs at hk
    · cases hk
    · exact hk
  | setState id state => exact h.modify _ _
  | appendTranscript id entry => exact h.modify _ _
  | appendAffect id entry => exact h.modify _ _
  | setTranscript id transcript => exact h.modify _ _
  | setQuality id quality => exact h.modify _ _

theorem allNumbered_foldl {ops : List StoreOp} (hn : ∀ rec, StoreOp.insert rec ∈ ops → Numbered rec.callId) :
    (ops.foldl StoreOp.apply (withHistoryCap c)).AllNumbered ∧
      (ops.foldl StoreOp.apply (withHistoryCap c)).maxHistory = c := by
  refine List.foldlRecOn (motive := fun s => s.AllNumbered ∧ s.maxHistory = c) ops StoreOp.apply
    ⟨fun id r hr => ?_, rfl⟩ fun s ⟨hs, hmax⟩ op hop => ?_
  · rw [get_withHistoryCap] at hr
    cases hr
  · exact ⟨hs.apply fun rec hrec => hn rec (hrec ▸ hop), (maxHistory_apply s op).trans hmax⟩

theorem endedSorted_strict (hn : ∀ k r, m.lookup k = some r → Numbered k) :
    (endedSorted m).Pairwise fun a b => a.1 < b.1 := by
  have hle : (endedSorted m).Pairwise fun a b => a.1 ≤ b.1 := List.pairwise_insertionSort ..
  have hne : (endedSorted m).Pairwise fun a b => a ≠ b :=
    (List.perm_insertionSort ..).nodup_iff.mpr (endedIds_nodup m).of_map
  refine (hle.and hne).imp_of_mem fun {a b} ha hb ⟨hab, hdiff⟩ => lt_of_le_of_ne hab fun heq => hdiff ?_
  obtain ⟨hseqa, ra, hra, -⟩ := mem_endedIds.mp (mem_endedSorted.mp ha)
  obtain ⟨hseqb, rb, hrb, -⟩ := mem_endedIds.mp (mem_endedSorted.mp hb)
  have hid : a.2 = b.2 := callSeq_inj (hn a.2 ra hra) (hn b.2 rb hrb) (hseqa ▸ hseqb ▸ heq)
  exact Prod.ext heq hid

theorem callId_callSeq (h : Numbered id) : callId (callSeq id) = id := by
  obtain ⟨n, hn, rfl⟩ := h
  rw [callSeq_callId n hn]

theorem endedAt_iff (hn : s.AllNumbered) {n : ℕ} : s.EndedAt n ↔ (n, callId n) ∈ endedSorted s.inner := by
  rw [mem_endedSorted, mem_endedIds]
  refine ⟨fun ⟨r, hr, hended⟩ => ⟨?_, r, hr, hended⟩, fun ⟨_, r, hr, hended⟩ => ⟨r, hr, hended⟩⟩
  exact (callId_injective (callId_callSeq (hn _ r hr))).symm

theorem callId_of_mem_endedSorted (hn : s.AllNumbered) {x : ℕ × CallId} (hx : x ∈ endedSorted s.inner) :
    x = (x.1, callId x.1) := by
  obtain ⟨hseq, r, hr, -⟩ := mem_endedIds.mp (mem_endedSorted.mp hx)
  exact Prod.ext rfl (by rw [hseq, callId_callSeq (hn _ r hr)])

theorem keepsNewest_of_evict {s' : CallStore} (hn : s.AllNumbered) (hc : 1 ≤ c)
    (hget : ∀ id, s'.get id = if id ∈ overCap s.inner c then none else s.get id) : KeepsNewest c s s' := by
  set i := (endedIds s.inner).length - c with hi
  set out := (((endedSorted s.inner).take i).map (·.1)).toFinset with hout
  have hstrict : (endedSorted s.inner).Pairwise fun a b => a.1 < b.1 := endedSorted_strict hn
  have hmem : ∀ n, n ∈ out ↔ (n, callId n) ∈ (endedSorted s.inner).take i := by
    intro n
    rw [hout, List.mem_toFinset, List.mem_map]
    constructor
    · rintro ⟨x, hx, rfl⟩
      exact callId_of_mem_endedSorted hn (List.mem_of_mem_take hx) ▸ hx
    · intro hx
      exact ⟨_, hx, rfl⟩
  refine ⟨out, ?_, fun n hn' => ?_, fun n hn' k hk hkept => ?_, fun id => ?_⟩
  · have hnodup : (((endedSorted s.inner).take i).map (·.1)).Nodup :=
      List.pairwise_map.mpr ((hstrict.sublist (List.take_sublist _ _)).imp ne_of_lt)
    rw [hout, List.toFinset_card_of_nodup hnodup, List.length_map, List.length_take, length_endedSorted, endedCount_eq]
    omega
  · exact (endedAt_iff hn).mpr (List.mem_of_mem_take ((hmem n).mp hn'))
  · -- the list is sorted, and what is kept comes after the part that is taken
    rw [hmem] at hn' hkept
    have hsplit := (endedAt_iff hn).mp hk
    rw [← List.take_append_drop i (endedSorted s.inner)] at hsplit hstrict
    have hlate := (List.mem_append.mp hsplit).resolve_left hkept
    exact (List.pairwise_append.mp hstrict).2.2 _ hn' _ hlate
  · have hover : id ∈ overCap s.inner c ↔ ∃ n ∈ out, id = callId n := by
      simp only [hmem, overCap_eq hc, ← hi, List.mem_map]
      constructor
      · rintro ⟨x, hx, rfl⟩
        have hpair := callId_of_mem_endedSorted hn (List.mem_of_mem_take hx)
        exact ⟨x.1, hpair ▸ hx, congrArg Prod.snd hpair⟩
      · rintro ⟨n, hx, rfl⟩
        exact ⟨_, hx, rfl⟩
    rw [hget]
    exact if_congr hover rfl rfl

theorem endedCount_le_of_evict {s' : CallStore} (hc : 1 ≤ c)
    (hget : ∀ id, s'.get id = if id ∈ overCap s.inner c then none else s.get id) : s'.endedCount ≤ c := by
  have hsub : endedIds s'.inner ⊆ (endedSorted s.inner).drop ((endedIds s.inner).length - c) := by
    rintro ⟨n, k⟩ hx
    obtain ⟨hseq, r, hr, hended⟩ := mem_endedIds.mp hx
    have hr : s'.get k = some r := hr
    rw [hget] at hr
    split_ifs at hr with hover
    have hin : (n, k) ∈ endedSorted s.inner := mem_endedSorted.mpr (mem_endedIds.mpr ⟨hseq, r, hr, hended⟩)
    rw [← List.take_append_drop ((endedIds s.inner).length - c) (endedSorted s.inner)] at hin
    refine (List.mem_append.mp hin).resolve_left fun htake => hover ?_
    rw [overCap_eq hc]
    exact List.mem_map.mpr ⟨_, htake, rfl⟩
  have hlen := ((endedIds_nodup s'.inner).of_map.subperm hsub).length_le
  rw [List.length_drop, length_endedSorted] at hlen
  rw [endedCount_eq]
  omega

theorem isSome_apply_of_not_finalize (hop : ∀ e, op ≠ .finalize e) (h : (s.get id).isSome) :
    ((StoreOp.apply s op).get id).isSome := by
  cases op with
  | insert rec =>
    have hget : (StoreOp.apply s (.insert rec)).get id = _ := get_insert s rec id
    rw [hget]
    split_ifs
    · rfl
    · exact h
  | finalize e => exact absurd rfl (hop e)
  | _ => exact (isSome_get_modify ..).trans h

/-- With a cap only `finalize` removes a record: one that had ended, or the one it has just marked. -/
theorem removed_by_apply (hr : s.get id = some r) (hgone : (StoreOp.apply s op).get id = none) :
    1 ≤ s.maxHistory ∧ ∃ e, op = .finalize e ∧ (r.state = .ended ∨ id = e.id) := by
  have hsome : (s.get id).isSome := Option.isSome_of_eq_some hr
  by_cases hop : ∃ e, op = .finalize e
  · obtain ⟨e, rfl⟩ := hop
    rw [get_finalize_eq] at hgone
    split_ifs at hgone with hover
    · obtain ⟨r', hr', hended⟩ := ended_of_mem_overCap hover
      refine ⟨Nat.pos_of_ne_zero fun hzero => ?_, e, rfl, ?_⟩
      · rw [hzero, overCap, if_pos rfl] at hover
        exact absurd hover List.not_mem_nil
      · by_cases hid : id = e.id
        · exact .inr hid
        · have hsame : (s.marked e).get id = s.get id := (get_modify ..).trans (if_neg hid)
          obtain rfl : r' = r := Option.some.inj ((hr'.symm.trans hsame).trans hr)
          exact .inl hended
    · have hkept := (isSome_get_modify s e.id e.mark id).trans hsome
      rw [hgone] at hkept
      cases hkept
  · have hkept := isSome_apply_of_not_finalize (fun e he => hop ⟨e, he⟩) hsome
    rw [hgone] at hkept
    cases hkept

/-- Whatever has happened before: a record goes only in a `finalize` under a cap, when it has ended, and after each
one there are no more ended records than the cap, without those of the smallest numbers. -/
theorem history_keeps_newest (c : ℕ) (ops : List StoreOp)
    (hn : ∀ rec, StoreOp.insert rec ∈ ops → Numbered rec.callId) :
    let s := ops.foldl StoreOp.apply (withHistoryCap c)
    (∀ op id r, s.get id = some r → (StoreOp.apply s op).get id = none →
      1 ≤ c ∧ ∃ e, op = .finalize e ∧ (r.state = .ended ∨ id = e.id)) ∧
    (1 ≤ c → ∀ e, (StoreOp.apply s (.finalize e)).endedCount ≤ c ∧
      KeepsNewest c (s.marked e) (StoreOp.apply s (.finalize e))) := by
  intro s
  obtain ⟨hs, hmax⟩ : s.AllNumbered ∧ s.maxHistory = c := allNumbered_foldl hn
  refine ⟨fun op id r hr hgone => hmax ▸ removed_by_apply hr hgone, fun hc e => ?_⟩
  have hget := fun id => get_finalize_eq s e id
  rw [hmax] at hget
  exact ⟨endedCount_le_of_evict hc hget, keepsNewest_of_evict (hs.modify e.id _) hc hget⟩

def tenEnded : List StoreOp :=
  [.insert (freshRecord 9), .insert (freshRecord 10), .insert (freshRecord 8), .finalize (failedAt 10 5)]

/-- Call 9 ends after call 10 and is the older one: it goes, and call 8 is still in flight. -/
theorem tenEnded_keeps_newest :
    let s := tenEnded.foldl StoreOp.apply (withHistoryCap 1)
    let s' := StoreOp.apply s (.finalize (failedAt 9 6))
    (s'.endedCount ≤ 1 ∧ KeepsNewest 1 (s.marked (failedAt 9 6)) s') ∧
      s'.get (callId 9) = none ∧ (s'.get (callId 10)).isSome ∧ (s'.get (callId 8)).isSome := by
  have hn : ∀ rec, StoreOp.insert rec ∈ tenEnded → Numbered rec.callId := by
    intro rec hrec
    simp only [tenEnded, List.mem_cons, StoreOp.insert.injEq, reduceCtorEq, List.not_mem_nil, or_false] at hrec
    rcases hrec with rfl | rfl | rfl
    · exact ⟨9, by decide, rfl⟩
    · exact ⟨10, by decide, rfl⟩
    · exact ⟨8, by decide, rfl⟩
  exact ⟨(history_keeps_newest 1 tenEnded hn).2 le_rfl (failedAt 9 6), by rfl, by decide +kernel, by decide +kernel⟩

end CallStore

end Kutsu
