import Mathlib.Data.Prod.Lex
import Mathlib.Data.String.Basic
import Kutsu.Lib.OrdMap
import Kutsu.Model.Types

/-! The pending-call queue (`queue.rs`): entries in the order of their eligibility and
id. A key is its entry's own, so a queue that files an entry elsewhere cannot be built. -/

namespace Kutsu

structure PendingEntry where
  callId : CallId
  number : String
  scenario : ScenarioConfig
  eligibleAtMs : ℕ
  attempt : ℕ

def PendingEntry.key (e : PendingEntry) : ℕ ×ₗ CallId := toLex (e.eligibleAtMs, e.callId)

theorem PendingEntry.eligibleAtMs_le_of_key_le {a b : PendingEntry} (h : a.key ≤ b.key) :
    a.eligibleAtMs ≤ b.eligibleAtMs := by
  rcases Prod.Lex.toLex_le_toLex.mp h with h | ⟨h, -⟩
  · exact h.le
  · exact h.le

structure MemQueue where
  entries : OrdMap (ℕ ×ₗ CallId) PendingEntry
  keyed : ∀ e ∈ entries.entries, e.1 = e.2.key

namespace MemQueue

def new : MemQueue := ⟨OrdMap.empty, by simp [OrdMap.empty]⟩

def push (q : MemQueue) (entry : PendingEntry) : MemQueue where
  entries := q.entries.insert entry.key entry
  keyed e he := by
    rcases OrdMap.mem_insert he with rfl | he
    · rfl
    · exact q.keyed e he

def popFirst (q : MemQueue) : MemQueue where
  entries := q.entries.tail
  keyed e he := q.keyed e (List.mem_of_mem_tail he)

def erase (q : MemQueue) (entry : PendingEntry) : MemQueue where
  entries := q.entries.erase entry.key
  keyed e he := q.keyed e (List.mem_of_mem_filter he)

def popEligible (q : MemQueue) (nowMs : ℕ) : Option (PendingEntry × MemQueue) :=
  match q.entries.first with
  | some (_, e) => if e.eligibleAtMs ≤ nowMs then some (e, q.popFirst) else none
  | none => none

def peekNextEligibleAt (q : MemQueue) : Option ℕ := q.entries.first.map (·.2.eligibleAtMs)

def remove (q : MemQueue) (callId : CallId) : Option (PendingEntry × MemQueue) :=
  (q.entries.values.find? fun v => v.callId = callId).map fun e => (e, q.erase e)

def pending (q : MemQueue) : List PendingEntry := q.entries.values

def len (q : MemQueue) : ℕ := q.pending.length

def position (q : MemQueue) (callId : CallId) : Option ℕ :=
  (q.pending.findIdx? fun v => v.callId = callId).map (· + 1)

theorem exists_entry {q : MemQueue} {e : PendingEntry} (he : e ∈ q.pending) :
    (e.key, e) ∈ q.entries.entries := by
  obtain ⟨⟨k, e'⟩, hmem, rfl⟩ := List.mem_map.mp he
  obtain rfl : k = e'.key := q.keyed _ hmem
  exact hmem

theorem mem_push (q : MemQueue) (e : PendingEntry) : e ∈ (q.push e).pending :=
  List.mem_map.mpr ⟨_, OrdMap.mem_insert_self q.entries e.key e, rfl⟩

theorem push_perm {q : MemQueue} {e : PendingEntry} (h : ∀ e' ∈ q.pending, e'.callId ≠ e.callId) :
    (q.push e).pending.Perm (e :: q.pending) := by
  refine OrdMap.values_insert_perm _ _ fun a ha hkey => ?_
  rw [q.keyed a ha] at hkey
  exact h a.2 (List.mem_map_of_mem ha) (congrArg (fun k => (ofLex k).2) hkey)

theorem popEligible_some {q q' : MemQueue} {now : ℕ} {e : PendingEntry}
    (h : q.popEligible now = some (e, q')) :
    e.eligibleAtMs ≤ now ∧ q.pending = e :: q'.pending := by
  rw [popEligible] at h
  split at h
  · rename_i k e' hfirst
    split_ifs at h with hle
    obtain ⟨rfl, rfl⟩ := Prod.mk.inj (Option.some.inj h)
    exact ⟨hle, OrdMap.values_of_first hfirst⟩
  · cases h

theorem peek_le {q : MemQueue} {t : ℕ} (h : q.peekNextEligibleAt = some t) {e : PendingEntry}
    (he : e ∈ q.pending) : t ≤ e.eligibleAtMs := by
  obtain ⟨⟨k, e₀⟩, hfirst, rfl⟩ := Option.map_eq_some_iff.mp h
  have hmin : k ≤ e.key := OrdMap.first_le hfirst (exists_entry he)
  have hmem : (k, e₀) ∈ q.entries.entries := by
    rw [OrdMap.entries_of_first hfirst]; exact List.mem_cons_self
  obtain rfl : k = e₀.key := q.keyed _ hmem
  exact PendingEntry.eligibleAtMs_le_of_key_le hmin

theorem peek_mem {q : MemQueue} {t : ℕ} (h : q.peekNextEligibleAt = some t) :
    ∃ e ∈ q.pending, e.eligibleAtMs = t := by
  obtain ⟨⟨k, e⟩, hfirst, rfl⟩ := Option.map_eq_some_iff.mp h
  refine ⟨e, ?_, rfl⟩
  have hvalues : q.pending = e :: q.entries.tail.values := OrdMap.values_of_first hfirst
  rw [hvalues]; exact List.mem_cons_self

theorem peek_eq_none {q : MemQueue} : q.peekNextEligibleAt = none ↔ q.pending = [] := by
  rw [peekNextEligibleAt, Option.map_eq_none_iff]
  refine ⟨OrdMap.values_of_first_none, fun h => ?_⟩
  exact List.head?_eq_none_iff.mpr (List.map_eq_nil_iff.mp h)

theorem popEligible_eq_none {q : MemQueue} {now : ℕ} :
    q.popEligible now = none ↔ ∀ t, q.peekNextEligibleAt = some t → now < t := by
  rw [popEligible, peekNextEligibleAt]
  cases hfirst : q.entries.first with
  | none => simp
  | some ke => simp

theorem remove_some {q q' : MemQueue} {id : CallId} {e : PendingEntry}
    (h : q.remove id = some (e, q')) : e.callId = id ∧ q.pending.Perm (e :: q'.pending) := by
  obtain ⟨e', hfind, heq⟩ := Option.map_eq_some_iff.mp h
  obtain ⟨rfl, rfl⟩ := Prod.mk.inj heq
  have hid := List.find?_some hfind
  exact ⟨of_decide_eq_true hid,
    OrdMap.values_perm_erase (exists_entry (List.mem_of_find?_eq_some hfind))⟩

end MemQueue

end Kutsu
