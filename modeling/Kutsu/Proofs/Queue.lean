import Kutsu.Lib.Run
import Kutsu.Model.Queue
import Mathlib.Data.List.Nodup

/-! The pending queue after any history of its operations. What repeated popping yields is what went in and has not
come out, in the order of the times and ids, and the other operations read that same order. -/

namespace Kutsu

namespace MemQueue

/-- What is popped at one time, until nothing more is. -/
inductive Pops (now : ℕ) : MemQueue → List PendingEntry → Prop where
  | done {q : MemQueue} : q.popEligible now = none → Pops now q []
  | next {q q' : MemQueue} {e : PendingEntry} {es : List PendingEntry} :
      q.popEligible now = some (e, q') → Pops now q' es → Pops now q (e :: es)

def Uniq (q : MemQueue) : Prop := (q.pending.map (·.callId)).Nodup

variable {q q' : MemQueue} {e : PendingEntry} {es : List PendingEntry} {now k : ℕ} {id : CallId}

theorem pending_sorted (q : MemQueue) : q.pending.Pairwise fun a b => a.key < b.key := by
  refine List.pairwise_map.mpr (q.entries.sorted.imp_of_mem fun {a b} ha hb hlt => ?_)
  rwa [← q.keyed a ha, ← q.keyed b hb]

theorem popEligible_none_iff : q.popEligible now = none ↔ ∀ e ∈ q.pending, now < e.eligibleAtMs := by
  rw [popEligible_eq_none]
  constructor
  · intro h e he
    cases hpeek : q.peekNextEligibleAt with
    | none =>
      rw [peek_eq_none.mp hpeek] at he
      exact absurd he List.not_mem_nil
    | some t => exact lt_of_lt_of_le (h t hpeek) (peek_le hpeek he)
  · intro h t hpeek
    obtain ⟨e, he, rfl⟩ := peek_mem hpeek
    exact h e he

theorem popEligible_cons (hq : q.pending = e :: es) (he : e.eligibleAtMs ≤ now) :
    ∃ q', q.popEligible now = some (e, q') ∧ q'.pending = es := by
  cases hpop : q.popEligible now with
  | none =>
    have hlate := popEligible_none_iff.mp hpop e (hq ▸ List.mem_cons_self)
    exact absurd hlate (not_lt.mpr he)
  | some popped =>
    obtain ⟨e', q'⟩ := popped
    obtain ⟨rfl, rfl⟩ := List.cons.inj (hq.symm.trans (popEligible_some hpop).2)
    exact ⟨q', rfl, rfl⟩

theorem exists_pops (q : MemQueue) (now : ℕ) :
    ∃ es rest, Pops now q es ∧ q.pending = es ++ rest ∧ ∀ e ∈ rest, now < e.eligibleAtMs := by
  generalize hes : q.pending = es
  induction es generalizing q with
  | nil => exact ⟨[], [], .done (popEligible_none_iff.mpr (by simp [hes])), rfl, List.forall_mem_nil _⟩
  | cons e es ih =>
    rcases le_or_gt e.eligibleAtMs now with hdue | hlate
    · obtain ⟨q', hpop, hrest⟩ := popEligible_cons hes hdue
      obtain ⟨es', rest, hpops, heq, hlate⟩ := ih q' hrest
      exact ⟨e :: es', rest, .next hpop hpops, congrArg (e :: ·) heq, hlate⟩
    · have hsorted := q.pending_sorted
      rw [hes, List.pairwise_cons] at hsorted
      have hall : ∀ e' ∈ e :: es, now < e'.eligibleAtMs := List.forall_mem_cons.mpr ⟨hlate, fun e' he' =>
        lt_of_lt_of_le hlate (PendingEntry.eligibleAtMs_le_of_key_le (hsorted.1 e' he').le)⟩
      exact ⟨[], e :: es, .done (popEligible_none_iff.mpr (hes ▸ hall)), rfl, hall⟩

theorem pops_pending (h : ∀ e ∈ q.pending, e.eligibleAtMs ≤ now) : Pops now q q.pending := by
  obtain ⟨es, rest, hpops, heq, hlate⟩ := exists_pops q now
  have hnone : rest = [] := List.eq_nil_iff_forall_not_mem.mpr fun e he =>
    absurd (hlate e he) (not_lt.mpr (h e (heq ▸ List.mem_append_right es he)))
  rwa [heq, hnone, List.append_nil]

theorem position_eq_none : q.position id = none ↔ ∀ e ∈ q.pending, e.callId ≠ id := by
  simp [position]

theorem position_eq_some (hu : q.Uniq) : q.position id = some k ↔
    1 ≤ k ∧ ∃ e, q.pending[k - 1]? = some e ∧ e.callId = id := by
  unfold position
  constructor
  · intro h
    obtain ⟨i, hi, rfl⟩ := Option.map_eq_some_iff.mp h
    obtain ⟨hlt, hid, -⟩ := List.findIdx?_eq_some_iff_getElem.mp hi
    exact ⟨Nat.succ_pos i, q.pending[i], List.getElem?_eq_getElem hlt, of_decide_eq_true hid⟩
  · rintro ⟨hk, e, he, hid⟩
    obtain ⟨hlt, hget⟩ := List.getElem?_eq_some_iff.mp he
    have hfind : q.pending.findIdx? (fun v => v.callId = id) = some (k - 1) := by
      refine List.findIdx?_eq_some_iff_getElem.mpr ⟨hlt, by simp [hget, hid], fun j hj => ?_⟩
      have hne := List.pairwise_iff_getElem.mp (List.pairwise_map.mp hu) j (k - 1) (hj.trans hlt) hlt hj
      rw [hget, hid] at hne
      simpa using hne
    rw [hfind, Option.map_some, Nat.sub_add_cancel hk]

theorem remove_eq_none : q.remove id = none ↔ ∀ e ∈ q.pending, e.callId ≠ id := by
  simp [remove, pending]

theorem pending_remove (hu : q.Uniq) (h : q.remove id = some (e, q')) :
    e ∈ q.pending ∧ e.callId = id ∧ q'.pending = q.pending.filter fun v => v.callId ≠ id := by
  obtain ⟨e', hfind, heq⟩ := Option.map_eq_some_iff.mp h
  obtain ⟨rfl, rfl⟩ := Prod.mk.inj heq
  have hmem : e' ∈ q.pending := List.mem_of_find?_eq_some hfind
  have hid := List.find?_some hfind
  obtain rfl : e'.callId = id := of_decide_eq_true hid
  refine ⟨hmem, rfl, ?_⟩
  have hkeep : ∀ a ∈ q.entries.entries, a.1 ≠ e'.key ↔ a.2.callId ≠ e'.callId := by
    intro a ha
    rw [q.keyed a ha, not_iff_not]
    refine ⟨fun hkey => congrArg (fun k => (ofLex k).2) hkey, fun hid => ?_⟩
    exact congrArg PendingEntry.key (List.inj_on_of_nodup_map hu (List.mem_map_of_mem ha) hmem hid)
  change (q.entries.entries.filter _).map _ = (q.entries.entries.map _).filter _
  rw [List.filter_map, List.filter_congr fun a ha => decide_eq_decide.mpr (hkeep a ha)]
  rfl

end MemQueue

inductive QueueOp where
  | push (entry : PendingEntry)
  | popEligible (nowMs : ℕ)
  | remove (callId : CallId)

structure Line where
  q : MemQueue
  held : List PendingEntry

namespace Line

open MemQueue (Pops)

def new : Line := ⟨MemQueue.new, []⟩

def leave (l : Line) (id : CallId) (q' : MemQueue) : Line := ⟨q', l.held.filter fun v => v.callId ≠ id⟩

def apply (l : Line) : QueueOp → Line
  | .push entry => ⟨l.q.push entry, entry :: l.held⟩
  | .popEligible nowMs => (l.q.popEligible nowMs).elim l fun popped => l.leave popped.1.callId popped.2
  | .remove callId => (l.q.remove callId).elim l fun removed => l.leave callId removed.2

/-- An id goes in while it is not in, with a time that a `u64` holds. -/
def Fresh (l : Line) : QueueOp → Prop
  | .push entry => (∀ e ∈ l.held, e.callId ≠ entry.callId) ∧ entry.eligibleAtMs < UInt64.size
  | _ => True

structure WF (l : Line) : Prop where
  perm : l.q.pending.Perm l.held
  uniq : l.q.Uniq
  bounded : ∀ e ∈ l.held, e.eligibleAtMs < UInt64.size

theorem wf_new : new.WF := ⟨List.Perm.refl _, List.nodup_nil, by simp [new]⟩

variable {l : Line} {op : QueueOp} {ops : List QueueOp} {e : PendingEntry} {q' : MemQueue} {id : CallId}

theorem WF.leave (h : l.WF) (hq : q'.pending = l.q.pending.filter fun v => v.callId ≠ id) : (l.leave id q').WF := by
  refine ⟨?_, ?_, fun e he => h.bounded e (List.mem_of_mem_filter he)⟩
  · rw [Line.leave, hq]
    exact h.perm.filter _
  · rw [MemQueue.Uniq, Line.leave, hq]
    exact h.uniq.sublist (List.filter_sublist.map _)

theorem WF.pending_of_pop (h : l.WF) {now : ℕ} (hpop : l.q.popEligible now = some (e, q')) :
    q'.pending = l.q.pending.filter fun v => v.callId ≠ e.callId := by
  have hu := h.uniq
  rw [MemQueue.Uniq, (MemQueue.popEligible_some hpop).2] at hu
  have hne : ∀ v ∈ q'.pending, v.callId ≠ e.callId := fun v hv hid =>
    (List.nodup_cons.mp hu).1 (List.mem_map.mpr ⟨v, hv, hid⟩)
  rw [(MemQueue.popEligible_some hpop).2, List.filter_cons_of_neg (by simp)]
  exact (List.filter_eq_self.mpr fun v hv => by simpa using hne v hv).symm

theorem WF.apply (h : l.WF) (hf : l.Fresh op) : (l.apply op).WF := by
  cases op with
  | push entry =>
    have hnew : ∀ e ∈ l.q.pending, e.callId ≠ entry.callId := fun e he => hf.1 e (h.perm.mem_iff.mp he)
    have hpush := MemQueue.push_perm hnew
    refine ⟨hpush.trans (h.perm.cons entry), ?_, List.forall_mem_cons.mpr ⟨hf.2, h.bounded⟩⟩
    refine (hpush.map _).nodup_iff.mpr (List.nodup_cons.mpr ⟨fun hin => ?_, h.uniq⟩)
    obtain ⟨e, he, hid⟩ := List.mem_map.mp hin
    exact hnew e he hid
  | popEligible nowMs =>
    rw [Line.apply]
    cases hpop : l.q.popEligible nowMs with
    | none => exact h
    | some popped => exact h.leave (h.pending_of_pop hpop)
  | remove callId =>
    rw [Line.apply]
    cases hrem : l.q.remove callId with
    | none => exact h
    | some removed => exact h.leave (MemQueue.pending_remove h.uniq hrem).2.2

/-- What each operation answers, where `es` is what repeated popping yields at the latest time. -/
structure Dispatch (l : Line) (es : List PendingEntry) : Prop where
  pops : Pops (UInt64.size - 1) l.q es
  held : es.Perm l.held
  sorted : es.Pairwise fun a b => a.key < b.key
  position_some : ∀ id k, l.q.position id = some k ↔ 1 ≤ k ∧ ∃ e, es[k - 1]? = some e ∧ e.callId = id
  position_none : ∀ id, l.q.position id = none ↔ ∀ e ∈ l.held, e.callId ≠ id
  pop_none : ∀ now, (l.q.popEligible now = none ∧ l.apply (.popEligible now) = l) ↔
    ∀ e ∈ l.held, now < e.eligibleAtMs
  pop_some : ∀ now, (∃ e ∈ l.held, e.eligibleAtMs ≤ now) →
    ∃ e q' es', es = e :: es' ∧ l.q.popEligible now = some (e, q') ∧ Pops (UInt64.size - 1) q' es'
  peek_none : l.q.peekNextEligibleAt = none ↔ l.held = []
  peek_some : ∀ t, l.q.peekNextEligibleAt = some t →
    (∃ e ∈ l.held, e.eligibleAtMs = t) ∧ ∀ e ∈ l.held, t ≤ e.eligibleAtMs
  remove_none : ∀ id, l.q.remove id = none ↔ ∀ e ∈ l.held, e.callId ≠ id
  remove_some : ∀ id e q', l.q.remove id = some (e, q') → e ∈ l.held ∧ e.callId = id ∧
    Pops (UInt64.size - 1) q' (es.filter fun v => v.callId ≠ id)

theorem WF.pops (h : l.WF) (hsub : ∀ e ∈ q'.pending, e ∈ l.q.pending) : Pops (UInt64.size - 1) q' q'.pending :=
  MemQueue.pops_pending fun e he => Nat.le_sub_one_of_lt (h.bounded e (h.perm.mem_iff.mp (hsub e he)))

theorem WF.dispatch (h : l.WF) : l.Dispatch l.q.pending where
  pops := h.pops fun _ he => he
  held := h.perm
  sorted := l.q.pending_sorted
  position_some id k := MemQueue.position_eq_some h.uniq
  position_none id := by simp only [MemQueue.position_eq_none, h.perm.mem_iff]
  pop_none now := by
    simp only [← h.perm.mem_iff, ← MemQueue.popEligible_none_iff]
    refine ⟨And.left, fun hpop => ⟨hpop, ?_⟩⟩
    rw [Line.apply, hpop, Option.elim_none]
  pop_some now hdue := by
    cases hpop : l.q.popEligible now with
    | none =>
      obtain ⟨e, he, hle⟩ := hdue
      have hlate := MemQueue.popEligible_none_iff.mp hpop e (h.perm.mem_iff.mpr he)
      exact absurd hle (not_le.mpr hlate)
    | some popped =>
      obtain ⟨e, q'⟩ := popped
      have hcons := (MemQueue.popEligible_some hpop).2
      exact ⟨e, q', q'.pending, hcons, rfl, h.pops fun v hv => hcons ▸ List.mem_cons_of_mem _ hv⟩
  peek_none := by
    rw [MemQueue.peek_eq_none]
    exact ⟨fun hnil => List.nil_perm.mp (hnil ▸ h.perm), fun hnil => List.perm_nil.mp (hnil ▸ h.perm)⟩
  peek_some t ht := by
    simp only [← h.perm.mem_iff]
    exact ⟨MemQueue.peek_mem ht, fun e he => MemQueue.peek_le ht he⟩
  remove_none id := by simp only [MemQueue.remove_eq_none, h.perm.mem_iff]
  remove_some id e q' hrem := by
    obtain ⟨hmem, hid, hrest⟩ := MemQueue.pending_remove h.uniq hrem
    refine ⟨h.perm.mem_iff.mp hmem, hid, ?_⟩
    rw [← hrest]
    exact h.pops fun v hv => List.mem_of_mem_filter (hrest ▸ hv)

/-- After any history in which no id goes in while it is in, all the operations agree on one order. -/
theorem position_is_dispatch_order (h : Runs.EachStep apply Fresh new ops) :
    (ops.foldl apply new).Dispatch (ops.foldl apply new).q.pending :=
  (h.invariant (fun _ _ hwf hf => hwf.apply hf) wf_new).dispatch

def pushed (ops : List QueueOp) : List PendingEntry := ops.filterMap fun
  | .push entry => some entry
  | _ => none

theorem held_apply_subset (he : e ∈ (l.apply op).held) : op = .push e ∨ e ∈ l.held := by
  cases op with
  | push entry =>
    rcases List.mem_cons.mp he with rfl | he
    · exact .inl rfl
    · exact .inr he
  | popEligible nowMs =>
    rw [apply] at he
    cases hpop : l.q.popEligible nowMs with
    | none => rw [hpop] at he; exact .inr he
    | some popped => rw [hpop] at he; exact .inr (List.mem_of_mem_filter he)
  | remove callId =>
    rw [apply] at he
    cases hrem : l.q.remove callId with
    | none => rw [hrem] at he; exact .inr he
    | some removed => rw [hrem] at he; exact .inr (List.mem_of_mem_filter he)

theorem fresh_of_distinct (hheld : ∀ e ∈ l.held, ∀ e' ∈ pushed ops, e.callId ≠ e'.callId)
    (hids : ((pushed ops).map (·.callId)).Nodup) (htimes : ∀ e ∈ pushed ops, e.eligibleAtMs < UInt64.size) :
    Runs.EachStep apply Fresh l ops := by
  induction ops generalizing l with
  | nil => trivial
  | cons op ops ih =>
    have hlater : ∀ e' ∈ pushed ops, e' ∈ pushed (op :: ops) := fun e' he' => by
      cases op with
      | push entry => exact List.mem_cons_of_mem _ he'
      | _ => exact he'
    refine ⟨?_, ih (fun e he e' he' => ?_) ?_ fun e he => htimes e (hlater e he)⟩
    · cases op with
      | push entry => exact ⟨fun e he => hheld e he entry List.mem_cons_self, htimes entry List.mem_cons_self⟩
      | _ => trivial
    · rcases held_apply_subset he with rfl | he
      · exact fun hid => (List.nodup_cons.mp hids).1 (List.mem_map.mpr ⟨e', he', hid.symm⟩)
      · exact hheld e he e' (hlater e' he')
    · cases op with
      | push entry => exact (List.nodup_cons.mp hids).2
      | _ => exact hids

def slot (id : CallId) (eligibleAtMs : ℕ) : PendingEntry := ⟨id, "600", ⟨.null, none, none⟩, eligibleAtMs, 1⟩

/-- One entry is popped while the others wait, and one is taken out from the middle. -/
def bookings : List QueueOp :=
  [.push (slot "b" 5), .push (slot "" 7), .push (slot "a" 5), .push (slot "c" 3), .popEligible 4, .remove "b"]

theorem bookings_dispatch : (bookings.foldl apply new).Dispatch (bookings.foldl apply new).q.pending ∧
    (bookings.foldl apply new).q.pending.map (·.callId) = ["a", ""] := by
  have hfresh : Runs.EachStep apply Fresh new bookings :=
    fresh_of_distinct (fun e he => absurd he List.not_mem_nil) (by decide) (by decide)
  exact ⟨position_is_dispatch_order hfresh, by decide +kernel⟩

end Line

end Kutsu
