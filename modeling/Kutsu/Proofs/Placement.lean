import Kutsu.Lib.Numeral
import Kutsu.Proofs.Custody
import Kutsu.Proofs.Queue

/-! In which order calls of one time are dispatched. The queue compares their ids as texts, and an id carries the
number of its placement: a call is overtaken by a later one whose number has more digits and begins with less. -/

namespace Kutsu

open Runs

theorem callId_lt_iff {m n : ℕ} (h : m < n) :
    callId m < callId n ↔ m ≤ n / 10 ^ ((toString n).length - (toString m).length) := by
  have hlist : ∀ n : ℕ, (callId n).toList = "call-".toList ++ Nat.toDigits 10 n := fun n => by
    rw [callId, String.toList_append, Nat.toString_eq_repr, Nat.toList_repr]
  have hlen : ∀ n : ℕ, (toString n).length = (Nat.toDigits 10 n).length := fun n => by
    rw [← String.length_toList, Nat.toString_eq_repr, Nat.toList_repr]
  rw [String.lt_iff_toList_lt, hlist, hlist, Numerals.append_lt_append_iff rfl, hlen, hlen,
    ← Numerals.toDigits_lt_iff h]
  simp

namespace MemQueue

def Waiting (q : MemQueue) (t : ℕ) (ids : List CallId) : Prop :=
  ∀ id ∈ ids, ∃ e ∈ q.pending, e.callId = id ∧ e.eligibleAtMs = t

/-- The ids come out of the queue in this order, and are reported in it. -/
structure InOrder (q : MemQueue) (t : ℕ) (ids : List CallId) : Prop where
  yields : ∀ now, t ≤ now → ∃ es, Pops now q es ∧ (es.map (·.callId)).filter (· ∈ ids) = ids
  positions : ids.Pairwise fun a b => ∃ i j, q.position a = some i ∧ q.position b = some j ∧ i < j

variable {q : MemQueue} {t : ℕ} {ids : List CallId} {a b : PendingEntry}

theorem callId_lt_of_key_lt (hkey : a.key < b.key) (ht : a.eligibleAtMs = b.eligibleAtMs) : a.callId < b.callId := by
  rcases Prod.Lex.toLex_lt_toLex.mp hkey with hlt | ⟨-, hlt⟩
  · exact absurd ht hlt.ne
  · exact hlt

theorem eligibleAtMs_of_id (hu : q.Uniq) (hids : q.Waiting t ids) (ha : a ∈ q.pending) (hid : a.callId ∈ ids) :
    a.eligibleAtMs = t := by
  obtain ⟨e, he, hsame, ht⟩ := hids _ hid
  rwa [List.inj_on_of_nodup_map hu ha he hsame.symm]

theorem exists_position (hu : q.Uniq) (ha : a ∈ q.pending) : ∃ i, q.position a.callId = some i := by
  obtain ⟨i, hi, rfl⟩ := List.mem_iff_getElem.mp ha
  exact ⟨i + 1, (position_eq_some hu).mpr ⟨Nat.succ_pos i, _, List.getElem?_eq_getElem hi, rfl⟩⟩

theorem lt_of_position (hu : q.Uniq) (hids : q.Waiting t ids) {x y : CallId} (hx : x ∈ ids) (hy : y ∈ ids) {i j : ℕ}
    (hi : q.position x = some i) (hj : q.position y = some j) (hij : i < j) : x < y := by
  obtain ⟨hi1, a, ha, rfl⟩ := (position_eq_some hu).mp hi
  obtain ⟨hj1, b, hb, rfl⟩ := (position_eq_some hu).mp hj
  have hta := eligibleAtMs_of_id hu hids (List.mem_of_getElem? ha) hx
  have htb := eligibleAtMs_of_id hu hids (List.mem_of_getElem? hb) hy
  obtain ⟨hilt, rfl⟩ := List.getElem?_eq_some_iff.mp ha
  obtain ⟨hjlt, rfl⟩ := List.getElem?_eq_some_iff.mp hb
  have hkey := List.pairwise_iff_getElem.mp q.pending_sorted _ _ hilt hjlt (by omega)
  exact callId_lt_of_key_lt hkey (hta.trans htb.symm)

theorem positions_of_sorted (hu : q.Uniq) (hids : q.Waiting t ids) {x y : CallId} (hx : x ∈ ids) (hy : y ∈ ids)
    (hxy : x < y) : ∃ i j, q.position x = some i ∧ q.position y = some j ∧ i < j := by
  obtain ⟨a, ha, rfl, -⟩ := hids x hx
  obtain ⟨b, hb, rfl, -⟩ := hids y hy
  obtain ⟨i, hi⟩ := exists_position hu ha
  obtain ⟨j, hj⟩ := exists_position hu hb
  refine ⟨i, j, hi, hj, lt_of_not_ge fun hji => ?_⟩
  rcases hji.lt_or_eq with hlt | rfl
  · exact lt_asymm hxy (lt_of_position hu hids hy hx hj hi hlt)
  · obtain ⟨-, a', ha', hida⟩ := (position_eq_some hu).mp hi
    obtain ⟨-, b', hb', hidb⟩ := (position_eq_some hu).mp hj
    obtain rfl := Option.some.inj (ha'.symm.trans hb')
    exact hxy.ne (hida.symm.trans hidb)

theorem pending_of_sorted (hu : q.Uniq) (hids : q.Waiting t ids) (hsorted : ids.Pairwise (· < ·)) :
    (q.pending.map (·.callId)).filter (· ∈ ids) = ids := by
  have hout : ((q.pending.map (·.callId)).filter (· ∈ ids)).Pairwise (· < ·) := by
    rw [List.filter_map, List.pairwise_map]
    refine (q.pending_sorted.sublist List.filter_sublist).imp_of_mem fun {a b} ha hb hkey => ?_
    obtain ⟨ha, hain⟩ := List.mem_filter.mp ha
    obtain ⟨hb, hbin⟩ := List.mem_filter.mp hb
    have hta := eligibleAtMs_of_id hu hids ha (of_decide_eq_true hain)
    have htb := eligibleAtMs_of_id hu hids hb (of_decide_eq_true hbin)
    exact callId_lt_of_key_lt hkey (hta.trans htb.symm)
  refine List.Pairwise.eq_of_mem_iff hout hsorted fun id => ?_
  rw [List.mem_filter, decide_eq_true_iff, and_iff_right_iff_imp]
  intro hid
  obtain ⟨e, he, rfl, -⟩ := hids id hid
  exact List.mem_map_of_mem he

/-- Of calls of one time, those that come out in order are those whose ids are in order as texts. -/
theorem inOrder_iff (hu : q.Uniq) (hids : q.Waiting t ids) :
    q.InOrder t ids ↔ ids.Pairwise (· < ·) := by
  constructor
  · intro h
    exact h.positions.imp_of_mem fun hx hy ⟨i, j, hi, hj, hij⟩ => lt_of_position hu hids hx hy hi hj hij
  · intro hsorted
    refine ⟨fun now hnow => ?_, hsorted.imp_of_mem fun hx hy hxy => positions_of_sorted hu hids hx hy hxy⟩
    obtain ⟨es, rest, hpops, hsplit, hlate⟩ := exists_pops q now
    have hrest : (rest.map (·.callId)).filter (· ∈ ids) = [] := by
      refine List.filter_eq_nil_iff.mpr fun id hid hin => ?_
      obtain ⟨e, he, rfl⟩ := List.mem_map.mp hid
      have ht := eligibleAtMs_of_id hu hids (hsplit ▸ List.mem_append_right es he) (of_decide_eq_true hin)
      exact absurd (hlate e he) (not_lt.mpr (ht.trans_le hnow))
    have hall := pending_of_sorted hu hids hsorted
    rw [hsplit, List.map_append, List.filter_append, hrest, List.append_nil] at hall
    exact ⟨es, hpops, hall⟩

end MemQueue

/-- The ids that `place_call_at` has given out, in the order of the placements. -/
def Shared.placed (sh : Shared) : List CallId := sh.log.filterMap fun
  | .minted id => some id
  | _ => none

theorem Shared.placed_apply (sh : Shared) (eff : Effect) :
    (sh.apply eff).placed = sh.placed ∧ (sh.apply eff).seq = sh.seq ∨
      (sh.apply eff).placed = sh.placed ++ [callId sh.seq] ∧ (sh.apply eff).seq = sh.seq + 1 := by
  have hlog : (sh.apply eff).placed = sh.placed ++ (sh.logs eff).filterMap fun
      | .minted id => some id
      | _ => none := by rw [placed, log_apply, List.filterMap_append, placed]
  rw [hlog]
  cases eff with
  | mint => exact .inr ⟨rfl, rfl⟩
  | register id =>
    refine .inl ⟨?_, (rewired_apply sh rfl).seq⟩
    cases h : sh.cancels.lookup id <;> simp [logs, h]
  | dropGuard tok id =>
    refine .inl ⟨?_, (rewired_apply sh rfl).seq⟩
    cases h : sh.cancels.lookup id <;> simp [logs, h]
  | send tok id =>
    refine .inl ⟨?_, (rewired_apply sh rfl).seq⟩
    cases h : sh.hears tok <;> simp [logs, h]
  | _ => exact .inl ⟨List.append_nil _, rfl⟩

namespace Sys

variable {cfg : ServerConfig} {s s' : Sys} {clock t : ℕ} {tr : List Act} {ok : Sys → Act → Prop} {ns : List ℕ}

theorem placed_run (h : Run (step cfg) ok (init cfg clock) tr s) :
    s.sh.placed = (List.range s.sh.seq).map callId := by
  refine h.invariant (I := fun s => s.sh.placed = (List.range s.sh.seq).map callId) rfl fun s a s' hs _ hstep => ?_
  rcases (step_cases hstep).shared with ⟨eff, hsh⟩ | ⟨now, hsh⟩
  · rw [hsh]
    rcases s.sh.placed_apply eff with ⟨hplaced, hseq⟩ | ⟨hplaced, hseq⟩
    · rw [hplaced, hseq, hs]
    · rw [hplaced, hseq, hs, List.range_succ, List.map_append]
      rfl
  · rw [hsh]
    exact hs

theorem uniq_of_custody (hc : s.Custody) : s.sh.queue.Uniq := by
  refine List.nodup_iff_count_le_one.mpr fun id => ?_
  have hle := owners_le_one hc id
  unfold owners Shared.holds at hle
  rw [List.count, List.countP_map]
  exact le_trans (Nat.le_add_right _ _) (le_trans (Nat.le_add_left _ _) hle)

/-- Calls that wait for one time are dispatched in the order of their placement exactly if none of them is overtaken:
the number of an earlier one is never above as many leading digits of a later one's. -/
theorem placed_in_order_iff (h : Run (step cfg) Always (init cfg clock) tr s)
    (hplaced : (ns.map callId).Sublist s.sh.placed) (hwait : s.sh.queue.Waiting t (ns.map callId)) :
    s.sh.queue.InOrder t (ns.map callId) ↔
      ∀ m ∈ ns, ∀ n ∈ ns, m < n → m ≤ n / 10 ^ ((toString n).length - (toString m).length) := by
  have hsorted : ns.Pairwise (· < ·) := by
    rw [placed_run h] at hplaced
    obtain ⟨ns', hsub, heq⟩ := List.sublist_map_iff.mp hplaced
    obtain rfl := List.map_injective_iff.mpr (fun _ _ => callId_injective) heq
    exact List.pairwise_lt_range.sublist hsub
  rw [MemQueue.inOrder_iff (uniq_of_custody (sound_run h).custody) hwait, List.pairwise_map]
  constructor
  · intro hall m hm n hn hlt
    obtain ⟨i, hi, rfl⟩ := List.mem_iff_getElem.mp hm
    obtain ⟨j, hj, rfl⟩ := List.mem_iff_getElem.mp hn
    have hij : i < j := lt_of_not_ge fun hji => by
      rcases hji.lt_or_eq with hlt' | rfl
      · exact lt_asymm hlt (List.pairwise_iff_getElem.mp hsorted j i hj hi hlt')
      · exact lt_irrefl _ hlt
    exact (callId_lt_iff hlt).mp (List.pairwise_iff_getElem.mp hall i j hi hj hij)
  · intro hall
    exact hsorted.imp_of_mem fun hm hn hlt => (callId_lt_iff hlt).mpr (hall _ hm _ hn hlt)

theorem exists_run_place (cfg : ServerConfig) (hd : s.disp.locked = false) (t : ℕ) :
    ∃ tr s' e, Run (step cfg) Always s tr s' ∧ s'.disp = s.disp ∧ s'.sh.seq = s.sh.seq + 1 ∧
      s'.sh.queue = s.sh.queue.push e ∧ e.callId = callId s.sh.seq ∧ e.eligibleAtMs = t := by
  set e : PendingEntry := ⟨callId s.sh.seq, "600", ⟨.null, none, none⟩, t, 1⟩
  have hexec : exec (step cfg) s [.place "600" ⟨.null, none, none⟩ t 1 none, .placing s.placing.length,
      .placing s.placing.length, .placing s.placing.length] = some { s with
        sh := (((s.sh.apply .mint).apply (.store (.insert (Placing.record ⟨e, none, .insert⟩
          (s.sh.apply .mint).clock)))).apply .countPlaced).apply (.push e)
        placing := s.placing ++ [⟨e, none, .wake⟩] } := by
    simp [exec, step, Placing.next, lockFree, hd, e]
  exact ⟨_, _, e, run_of_exec hexec, rfl, rfl, rfl, rfl, rfl⟩

theorem fresh_of_unminted (hc : s.Custody) : ∀ e ∈ s.sh.queue.pending, e.callId ≠ callId s.sh.seq := by
  have hnew : ¬ s.Minted (callId s.sh.seq) := by
    rintro ⟨n, hn, heq⟩
    exact hn.ne (callId_injective heq)
  have hzero := hc.2 _ hnew
  unfold owners Shared.holds at hzero
  exact not_pending_of_count (by omega)

theorem exists_run_placing (cfg : ServerConfig) (t k : ℕ) : ∃ tr s, Run (step cfg) Always (init cfg 0) tr s ∧
    s.disp.locked = false ∧ s.sh.seq = k ∧ s.sh.queue.Waiting t ((List.range k).map callId) := by
  induction k with
  | zero => exact ⟨[], init cfg 0, .nil, rfl, rfl, List.forall_mem_nil _⟩
  | succ k ih =>
    obtain ⟨tr, s, hrun, hd, rfl, hall⟩ := ih
    obtain ⟨tr', s', e, hrun', hd', hseq, hqueue, hid, ht⟩ := exists_run_place cfg hd t
    have hpush : (s.sh.queue.push e).pending.Perm (e :: s.sh.queue.pending) :=
      MemQueue.push_perm (hid ▸ fresh_of_unminted (sound_run hrun).custody)
    refine ⟨tr ++ tr', s', hrun.append hrun', hd' ▸ hd, hseq, ?_⟩
    rw [hqueue, MemQueue.Waiting, List.range_succ, List.map_append]
    simp only [hpush.mem_iff]
    refine List.forall_mem_append.mpr ⟨fun id hmem => ?_, List.forall_mem_singleton.mpr ?_⟩
    · obtain ⟨e', he', hsame⟩ := hall id hmem
      exact ⟨e', List.mem_cons_of_mem _ he', hsame⟩
    · exact ⟨e, List.mem_cons_self, hid, ht⟩

theorem exists_run_waiting (cfg : ServerConfig) (t : ℕ) {k : ℕ} (hns : ns.Sublist (List.range k)) :
    ∃ tr s, Run (step cfg) Always (init cfg 0) tr s ∧ (ns.map callId).Sublist s.sh.placed ∧
      s.sh.queue.Waiting t (ns.map callId) := by
  obtain ⟨tr, s, hrun, -, rfl, hwait⟩ := exists_run_placing cfg t k
  have hsub := hns.map callId
  exact ⟨tr, s, hrun, placed_run hrun ▸ hsub, fun id hid => hwait id (hsub.subset hid)⟩

/-- The numbers 1, 12 and 13 have no other order as texts. -/
theorem placed_in_order_thirteen : ∃ tr s,
    Run (step ServerConfig.default) Always (init ServerConfig.default 0) tr s ∧
      s.sh.queue.InOrder 0 ([1, 12, 13].map callId) := by
  have hsub : [1, 12, 13].Sublist (List.range 14) := by decide
  obtain ⟨tr, s, hrun, hplaced, hwait⟩ := exists_run_waiting ServerConfig.default 0 hsub
  exact ⟨tr, s, hrun, (placed_in_order_iff hrun hplaced hwait).mpr (by decide +kernel)⟩

/-- Call 10 is dispatched before call 9, and is reported ahead of it. -/
theorem tenth_overtakes_ninth : ∃ tr s,
    Run (step ServerConfig.default) Always (init ServerConfig.default 0) tr s ∧
      ([9, 10].map callId).Sublist s.sh.placed ∧ s.sh.queue.Waiting 0 ([9, 10].map callId) ∧
      ¬ s.sh.queue.InOrder 0 ([9, 10].map callId) := by
  have hsub : [9, 10].Sublist (List.range 11) := by decide
  obtain ⟨tr, s, hrun, hplaced, hwait⟩ := exists_run_waiting ServerConfig.default 0 hsub
  refine ⟨tr, s, hrun, hplaced, hwait, fun hin => ?_⟩
  rw [MemQueue.inOrder_iff (uniq_of_custody (sound_run hrun).custody) hwait] at hin
  exact absurd hin (by decide +kernel)

end Sys

end Kutsu
