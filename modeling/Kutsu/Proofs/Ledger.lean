import Mathlib.Data.List.DropRight
import Mathlib.Data.List.Perm.Basic
import Kutsu.Model.Store

/-! A call store driven by its own operations, together with the calls it has seen
end. `WF` ties the two: the ended records held are endings of the list, each as
`finalize` wrote it. -/

namespace Kutsu

/-- The record is the ended one that `finalize` wrote. -/
def Ending.Describes (e : Ending) (r : CallRecord) : Prop :=
  r.state = .ended ∧ r.disposition = some e.disposition ∧ r.goal = e.goal ∧
    r.error = e.error ∧ r.endedMs = some e.endedMs

/-- A store and the calls it has seen end, first one first. -/
structure Ledger where
  store : CallStore
  ended : List Ending

namespace Ledger

def init (c : ℕ) : Ledger := ⟨CallStore.withHistoryCap c, []⟩

def mark (h : Ledger) (e : Ending) : Ledger :=
  ⟨h.store.modify e.id fun r =>
      { r with state := .ended, disposition := some e.disposition, goal := e.goal,
               error := e.error, endedMs := some e.endedMs },
    if (h.store.get e.id).isSome then h.ended ++ [e] else h.ended⟩

def evict (h : Ledger) : Ledger :=
  { h with store := { h.store with
      inner := CallStore.evictEndedOverCap h.store.inner h.store.maxHistory } }

def apply (h : Ledger) : StoreOp → Ledger
  | .insert rec => { h with store := h.store.insert rec }
  | .setState id st => { h with store := h.store.setState id st }
  | .appendTranscript id entry => { h with store := h.store.appendTranscript id entry }
  | .appendAffect id entry => { h with store := h.store.appendAffect id entry }
  | .setTranscript id ts => { h with store := h.store.setTranscript id ts }
  | .setQuality id q => { h with store := h.store.setQuality id q }
  | .finalize e =>
    ⟨h.store.finalize e.id e.disposition e.goal e.error e.endedMs, (h.mark e).ended⟩

theorem apply_finalize (h : Ledger) (e : Ending) :
    h.apply (.finalize e) = (h.mark e).evict := rfl

def step (h : Ledger) (op : StoreOp) : Option Ledger := some (h.apply op)

/-- Calls have distinct `call-N` ids, end at most once, and nothing but `finalize`
makes a record ended or moves an ended one. -/
def Legal (h : Ledger) : StoreOp → Prop
  | .insert rec => Numbered rec.callId ∧ rec.state ≠ .ended ∧ h.store.get rec.callId = none ∧
      ∀ e ∈ h.ended, e.id ≠ rec.callId
  | .setState id st => st ≠ .ended ∧ ∀ r, h.store.get id = some r → r.state ≠ .ended
  | .finalize e => ∀ e' ∈ h.ended, e'.id ≠ e.id
  | _ => True

/-- Of the last `c` calls that ended, each is still there, as it ended. -/
def Readable (h : Ledger) : Prop :=
  ∀ e ∈ h.ended.rtake h.store.maxHistory, ∃ r, h.store.get e.id = some r ∧ e.Describes r

/-- The ended calls that are still held, first one to end first. -/
def held (h : Ledger) : List Ending := h.ended.filter fun e => (h.store.get e.id).isSome

/-- If this `finalize` takes the held ended calls over the cap, then of these and
the call just ended the one that ended first also has the smallest number. -/
def FirstOut (h : Ledger) : StoreOp → Prop
  | .finalize e => (h.store.get e.id).isSome → h.store.maxHistory ≤ h.held.length →
      ∀ first ∈ h.held.head?, callSeq first.id ≤ callSeq e.id ∧
        ∀ e' ∈ h.held, callSeq first.id ≤ callSeq e'.id
  | _ => True

structure WF (h : Ledger) : Prop where
  nodup : (h.ended.map (·.id)).Nodup
  ended_mem : ∀ id r, h.store.get id = some r → r.state = .ended → ∃ e ∈ h.ended, e.id = id
  describes : ∀ e ∈ h.ended, ∀ r, h.store.get e.id = some r → e.Describes r
  numbered : ∀ id r, h.store.get id = some r → Numbered id

theorem mem_held {h : Ledger} {e : Ending} :
    e ∈ h.held ↔ e ∈ h.ended ∧ (h.store.get e.id).isSome := List.mem_filter

theorem init_wf (c : ℕ) : (init c).WF :=
  ⟨List.nodup_nil, by simp [init], by simp [init], by simp [init]⟩

theorem endedIds_perm {h : Ledger} (hw : h.WF) :
    (CallStore.endedIds h.store.inner).Perm (h.held.map fun e => (callSeq e.id, e.id)) := by
  have hkeys := CallStore.endedIds_nodup h.store.inner
  have hheld : ((h.held.map fun e => (callSeq e.id, e.id)).map (·.2)).Nodup := by
    simp only [List.map_map]
    exact hw.nodup.sublist (List.Sublist.map _ List.filter_sublist)
  rw [List.perm_ext_iff_of_nodup hkeys.of_map hheld.of_map]
  rintro ⟨n, k⟩
  rw [CallStore.mem_endedIds, List.mem_map]
  constructor
  · rintro ⟨rfl, r, hl, hr⟩
    obtain ⟨e, he, rfl⟩ := hw.ended_mem k r hl hr
    exact ⟨e, mem_held.mpr ⟨he, Option.isSome_iff_exists.mpr ⟨r, hl⟩⟩, rfl⟩
  · rintro ⟨e, he, heq⟩
    obtain ⟨hmem, hsome⟩ := mem_held.mp he
    obtain ⟨r, hr⟩ := Option.isSome_iff_exists.mp hsome
    obtain ⟨rfl, rfl⟩ := Prod.mk.inj heq
    exact ⟨rfl, r, hr, (hw.describes e hmem r hr).1⟩

theorem endedIds_length {h : Ledger} (hw : h.WF) :
    (CallStore.endedIds h.store.inner).length = h.held.length := by
  rw [(endedIds_perm hw).length_eq, List.length_map]

theorem wf_modify {h : Ledger} (hw : h.WF) (id : CallId) (f : CallRecord → CallRecord)
    (hf : ∀ r, h.store.get id = some r →
      ((f r).state = .ended → r.state = .ended) ∧ ∀ e, Ending.Describes e r → e.Describes (f r)) :
    (⟨h.store.modify id f, h.ended⟩ : Ledger).WF := by
  have hget : ∀ k r, (h.store.modify id f).get k = some r →
      ∃ r₀, h.store.get k = some r₀ ∧ (r.state = .ended → r₀.state = .ended) ∧
        ∀ e, Ending.Describes e r₀ → e.Describes r := by
    intro k r hk
    rw [CallStore.get_modify] at hk
    split_ifs at hk with hid
    · subst hid
      obtain ⟨r₀, hr₀, rfl⟩ := Option.map_eq_some_iff.mp hk
      exact ⟨r₀, hr₀, (hf r₀ hr₀).1, (hf r₀ hr₀).2⟩
    · exact ⟨r, hk, fun hr => hr, fun _ he => he⟩
  refine ⟨hw.nodup, fun k r hk hr => ?_, fun e he r hk => ?_, fun k r hk => ?_⟩
  · obtain ⟨r₀, hr₀, hst, -⟩ := hget k r hk
    exact hw.ended_mem k r₀ hr₀ (hst hr)
  · obtain ⟨r₀, hr₀, -, hd⟩ := hget e.id r hk
    exact hd e (hw.describes e he r₀ hr₀)
  · obtain ⟨r₀, hr₀, -, -⟩ := hget k r hk
    exact hw.numbered k r₀ hr₀

theorem get_mark (h : Ledger) (e : Ending) (k : CallId) :
    (h.mark e).store.get k = if k = e.id then (h.store.get k).map fun r =>
      { r with state := .ended, disposition := some e.disposition, goal := e.goal,
               error := e.error, endedMs := some e.endedMs }
    else h.store.get k := CallStore.get_modify _ _ _ _

theorem isSome_get_mark (h : Ledger) (e : Ending) (k : CallId) :
    ((h.mark e).store.get k).isSome = (h.store.get k).isSome := CallStore.isSome_get_modify _ _ _ _

theorem get_evict (h : Ledger) (k : CallId) :
    h.evict.store.get k =
      if k ∈ CallStore.overCap h.store.inner h.store.maxHistory then none else h.store.get k :=
  CallStore.lookup_evict _ _ _

theorem wf_mark {h : Ledger} (hw : h.WF) (e : Ending) (hl : ∀ e' ∈ h.ended, e'.id ≠ e.id) :
    (h.mark e).WF := by
  have hnum : ∀ k r, (h.mark e).store.get k = some r → Numbered k := by
    intro k r hk
    have hs := isSome_get_mark h e k
    rw [hk] at hs
    obtain ⟨r₀, hr₀⟩ := Option.isSome_iff_exists.mp hs.symm
    exact hw.numbered k r₀ hr₀
  have hother : ∀ k, k ≠ e.id → (h.mark e).store.get k = h.store.get k := fun k hk => by
    rw [get_mark, if_neg hk]
  by_cases hp : (h.store.get e.id).isSome
  · have hended : (h.mark e).ended = h.ended ++ [e] := if_pos hp
    refine ⟨?_, fun k r hk hr => ?_, fun e' he' r hk => ?_, hnum⟩
    · rw [hended, List.map_append, List.map_singleton]
      refine List.nodup_append.mpr ⟨hw.nodup, List.nodup_singleton _, fun a ha b hb => ?_⟩
      obtain ⟨e', he', rfl⟩ := List.mem_map.mp ha
      rw [List.mem_singleton.mp hb]
      exact hl e' he'
    · rw [hended]
      by_cases hid : k = e.id
      · exact ⟨e, by simp, hid.symm⟩
      · rw [hother k hid] at hk
        obtain ⟨e', he', hid'⟩ := hw.ended_mem k r hk hr
        exact ⟨e', List.mem_append_left _ he', hid'⟩
    · rw [hended] at he'
      rcases List.mem_append.mp he' with hold | hnew
      · rw [hother e'.id (hl e' hold)] at hk
        exact hw.describes e' hold r hk
      · obtain rfl := List.mem_singleton.mp hnew
        rw [get_mark, if_pos rfl] at hk
        obtain ⟨r₀, -, rfl⟩ := Option.map_eq_some_iff.mp hk
        exact ⟨rfl, rfl, rfl, rfl, rfl⟩
  · have hended : (h.mark e).ended = h.ended := if_neg hp
    have hsame : ∀ k, (h.mark e).store.get k = h.store.get k := by
      intro k
      by_cases hid : k = e.id
      · subst hid
        rw [get_mark, if_pos rfl, Option.not_isSome_iff_eq_none.mp hp]
        rfl
      · exact hother k hid
    refine ⟨by rw [hended]; exact hw.nodup, fun k r hk hr => ?_, fun e' he' r hk => ?_, hnum⟩
    · rw [hsame] at hk; rw [hended]; exact hw.ended_mem k r hk hr
    · rw [hsame] at hk; rw [hended] at he'; exact hw.describes e' he' r hk

theorem wf_evict {h : Ledger} (hw : h.WF) : h.evict.WF := by
  have hsub : ∀ k r, h.evict.store.get k = some r → h.store.get k = some r := by
    intro k r hk
    rw [get_evict] at hk
    split_ifs at hk
    exact hk
  exact ⟨hw.nodup, fun k r hk => hw.ended_mem k r (hsub k r hk),
    fun e he r hk => hw.describes e he r (hsub _ r hk),
    fun k r hk => hw.numbered k r (hsub k r hk)⟩

end Ledger

end Kutsu
