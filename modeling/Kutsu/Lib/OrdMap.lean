import Mathlib.Data.List.Perm.Basic
import Mathlib.Order.Lattice
import Mathlib.Tactic.Common

/-! A map kept in key order: the list of its entries, which carries the proof that
the keys increase. Insertion overwrites, and the first entry is the smallest. -/

structure OrdMap (κ ν : Type*) [LinearOrder κ] where
  entries : List (κ × ν)
  sorted : entries.Pairwise fun a b => a.1 < b.1

namespace OrdMap

variable {κ ν : Type*} [LinearOrder κ]

def empty : OrdMap κ ν := ⟨[], List.Pairwise.nil⟩

def insertList (k : κ) (v : ν) : List (κ × ν) → List (κ × ν)
  | [] => [(k, v)]
  | e :: es =>
    if k < e.1 then (k, v) :: e :: es
    else if k = e.1 then (k, v) :: es
    else e :: insertList k v es

theorem mem_insertList_self (k : κ) (v : ν) (es : List (κ × ν)) : (k, v) ∈ insertList k v es := by
  induction es with
  | nil => exact List.mem_singleton_self _
  | cons a es ih =>
    rw [insertList]
    split_ifs
    · exact List.mem_cons_self
    · exact List.mem_cons_self
    · exact List.mem_cons_of_mem _ ih

theorem mem_insertList {k : κ} {v : ν} {es : List (κ × ν)} {e : κ × ν}
    (h : e ∈ insertList k v es) : e = (k, v) ∨ e ∈ es := by
  induction es with
  | nil => exact Or.inl (List.mem_singleton.mp h)
  | cons a es ih =>
    rw [insertList] at h
    split_ifs at h with hlt heq
    · rcases List.mem_cons.mp h with h | h
      · exact Or.inl h
      · exact Or.inr h
    · rcases List.mem_cons.mp h with h | h
      · exact Or.inl h
      · exact Or.inr (List.mem_cons_of_mem _ h)
    · rcases List.mem_cons.mp h with h | h
      · exact Or.inr (h ▸ List.mem_cons_self)
      · exact (ih h).imp_right (List.mem_cons_of_mem _)

theorem sorted_insertList (k : κ) (v : ν) {es : List (κ × ν)}
    (h : es.Pairwise fun a b => a.1 < b.1) :
    (insertList k v es).Pairwise fun a b => a.1 < b.1 := by
  induction es with
  | nil => exact List.pairwise_singleton _ _
  | cons a es ih =>
    obtain ⟨ha, hes⟩ := List.pairwise_cons.mp h
    rw [insertList]
    split_ifs with hlt heq
    · refine List.pairwise_cons.mpr ⟨fun b hb => ?_, h⟩
      rcases List.mem_cons.mp hb with rfl | hb
      · exact hlt
      · exact hlt.trans (ha b hb)
    · exact List.pairwise_cons.mpr ⟨fun b hb => lt_of_eq_of_lt heq (ha b hb), hes⟩
    · refine List.pairwise_cons.mpr ⟨fun b hb => ?_, ih hes⟩
      rcases mem_insertList hb with rfl | hb
      · exact lt_of_le_of_ne (not_lt.mp hlt) (Ne.symm heq)
      · exact ha b hb

def lookupList (k : κ) (es : List (κ × ν)) : Option ν := (es.find? fun e => e.1 = k).map Prod.snd

@[simp] theorem lookupList_cons_self (k : κ) (v : ν) (es : List (κ × ν)) :
    lookupList k ((k, v) :: es) = some v := by
  simp [lookupList]

theorem lookupList_cons_ne {k : κ} {e : κ × ν} (h : e.1 ≠ k) (es : List (κ × ν)) :
    lookupList k (e :: es) = lookupList k es := by
  rw [lookupList, List.find?_cons_of_neg (by simpa using h), lookupList]

theorem lookupList_insertList_self (k : κ) (v : ν) (es : List (κ × ν)) :
    lookupList k (insertList k v es) = some v := by
  induction es with
  | nil => exact lookupList_cons_self k v []
  | cons e es ih =>
    rw [insertList]
    split_ifs with hlt heq
    · exact lookupList_cons_self k v _
    · exact lookupList_cons_self k v _
    · rw [lookupList_cons_ne (Ne.symm heq), ih]

theorem lookupList_insertList_ne {k k' : κ} (h : k ≠ k') (v : ν) (es : List (κ × ν)) :
    lookupList k' (insertList k v es) = lookupList k' es := by
  induction es with
  | nil => exact lookupList_cons_ne h []
  | cons e es ih =>
    rw [insertList]
    split_ifs with hlt heq
    · exact lookupList_cons_ne h _
    · rw [lookupList_cons_ne h, lookupList_cons_ne (heq ▸ h)]
    · by_cases he : e.1 = k'
      · obtain ⟨k₀, v₀⟩ := e
        obtain rfl : k₀ = k' := he
        rw [lookupList_cons_self, lookupList_cons_self]
      · rw [lookupList_cons_ne he, lookupList_cons_ne he, ih]

theorem lookupList_filter (p : κ → Bool) (k : κ) (es : List (κ × ν)) :
    lookupList k (es.filter fun e => p e.1) = if p k then lookupList k es else none := by
  induction es with
  | nil => exact (ite_self none).symm
  | cons e es ih =>
    obtain ⟨k₀, v₀⟩ := e
    by_cases hk : k₀ = k
    · obtain rfl := hk
      cases hp : p k₀ with
      | true => rw [List.filter_cons_of_pos (p := fun e : κ × ν => p e.1) hp, lookupList_cons_self,
          lookupList_cons_self, if_pos rfl]
      | false =>
        rw [List.filter_cons_of_neg (by simp [hp]), ih, hp]
        rfl
    · rw [lookupList_cons_ne hk, ← ih]
      cases hp : p k₀ with
      | true => rw [List.filter_cons_of_pos (p := fun e : κ × ν => p e.1) hp, lookupList_cons_ne hk]
      | false => rw [List.filter_cons_of_neg (by simp [hp])]

theorem lookupList_map {μ : Type*} (f : ν → μ) (k : κ) (es : List (κ × ν)) :
    lookupList k (es.map fun e => (e.1, f e.2)) = (lookupList k es).map f := by
  induction es with
  | nil => rfl
  | cons e es ih =>
    obtain ⟨k₀, v₀⟩ := e
    rw [List.map_cons]
    by_cases hk : k₀ = k
    · obtain rfl := hk
      rw [lookupList_cons_self, lookupList_cons_self]
      rfl
    · rw [lookupList_cons_ne hk, lookupList_cons_ne hk, ih]

theorem mem_of_lookupList {k : κ} {v : ν} {es : List (κ × ν)} (h : lookupList k es = some v) : (k, v) ∈ es := by
  obtain ⟨e, hfind, rfl⟩ := Option.map_eq_some_iff.mp h
  have hkey : e.1 = k := by simpa using List.find?_some hfind
  exact hkey ▸ List.mem_of_find?_eq_some hfind

theorem lookupList_of_mem {e : κ × ν} {es : List (κ × ν)} (hs : es.Pairwise fun a b => a.1 < b.1) (he : e ∈ es) :
    lookupList e.1 es = some e.2 := by
  induction es with
  | nil => exact absurd he List.not_mem_nil
  | cons e' es ih =>
    obtain ⟨hlt, hes⟩ := List.pairwise_cons.mp hs
    rcases List.mem_cons.mp he with rfl | he
    · exact lookupList_cons_self _ _ _
    · rw [lookupList_cons_ne (hlt e he).ne, ih hes he]

theorem insertList_of_lookupList {k : κ} {v : ν} {es : List (κ × ν)} (hs : es.Pairwise fun a b => a.1 < b.1)
    (h : lookupList k es = some v) : insertList k v es = es := by
  induction es with
  | nil => cases h
  | cons e es ih =>
    obtain ⟨k₀, v₀⟩ := e
    obtain ⟨hlt, hes⟩ := List.pairwise_cons.mp hs
    by_cases hk : k₀ = k
    · obtain rfl := hk
      rw [lookupList_cons_self] at h
      obtain rfl := Option.some.inj h
      rw [insertList, if_neg (lt_irrefl _), if_pos rfl]
    · rw [lookupList_cons_ne hk] at h
      have hless : k₀ < k := hlt _ (mem_of_lookupList h)
      rw [insertList, if_neg hless.not_gt, if_neg hless.ne', ih hes h]

def insert (m : OrdMap κ ν) (k : κ) (v : ν) : OrdMap κ ν :=
  ⟨insertList k v m.entries, sorted_insertList k v m.sorted⟩

def first (m : OrdMap κ ν) : Option (κ × ν) := m.entries.head?

def tail (m : OrdMap κ ν) : OrdMap κ ν := ⟨m.entries.tail, m.sorted.tail⟩

def erase (m : OrdMap κ ν) (k : κ) : OrdMap κ ν :=
  ⟨m.entries.filter fun e => e.1 ≠ k, m.sorted.sublist List.filter_sublist⟩

def values (m : OrdMap κ ν) : List ν := m.entries.map Prod.snd

theorem insertList_perm {k : κ} (v : ν) {es : List (κ × ν)} (hk : ∀ e ∈ es, e.1 ≠ k) :
    (insertList k v es).Perm ((k, v) :: es) := by
  induction es with
  | nil => exact List.Perm.refl _
  | cons a es ih =>
    rw [insertList]
    split_ifs with hlt heq
    · exact List.Perm.refl _
    · exact absurd heq.symm (hk a List.mem_cons_self)
    · exact ((ih fun e he => hk e (List.mem_cons_of_mem _ he)).cons a).trans
        (List.Perm.swap _ _ _)

theorem mem_insert {m : OrdMap κ ν} {k : κ} {v : ν} {e : κ × ν}
    (h : e ∈ (m.insert k v).entries) : e = (k, v) ∨ e ∈ m.entries := mem_insertList h

theorem mem_insert_self (m : OrdMap κ ν) (k : κ) (v : ν) : (k, v) ∈ (m.insert k v).entries :=
  mem_insertList_self k v m.entries

theorem values_insert_perm (m : OrdMap κ ν) {k : κ} (v : ν) (hk : ∀ e ∈ m.entries, e.1 ≠ k) :
    (m.insert k v).values.Perm (v :: m.values) :=
  (insertList_perm v hk).map Prod.snd

theorem entries_of_first {m : OrdMap κ ν} {e : κ × ν} (h : m.first = some e) :
    m.entries = e :: m.tail.entries := by
  obtain ⟨es, hes⟩ : ∃ es, m.entries = e :: es := List.head?_eq_some_iff.mp h
  have htail : m.tail.entries = m.entries.tail := rfl
  rw [htail, hes, List.tail_cons]

theorem values_of_first {m : OrdMap κ ν} {e : κ × ν} (h : m.first = some e) :
    m.values = e.2 :: m.tail.values := by
  rw [values, entries_of_first h, List.map_cons, values]

theorem values_of_first_none {m : OrdMap κ ν} (h : m.first = none) : m.values = [] := by
  rw [values, List.head?_eq_none_iff.mp h, List.map_nil]

theorem first_le {m : OrdMap κ ν} {e : κ × ν} (h : m.first = some e) {e' : κ × ν}
    (he' : e' ∈ m.entries) : e.1 ≤ e'.1 := by
  have hsorted := m.sorted
  rw [entries_of_first h] at hsorted he'
  rcases List.mem_cons.mp he' with rfl | htail
  · exact le_refl _
  · exact le_of_lt ((List.pairwise_cons.mp hsorted).1 _ htail)

theorem entries_perm_erase {m : OrdMap κ ν} {e : κ × ν} (he : e ∈ m.entries) :
    m.entries.Perm (e :: (m.erase e.1).entries) := by
  obtain ⟨xs, ys, hsplit⟩ := List.append_of_mem he
  have hsorted := m.sorted
  rw [hsplit] at hsorted
  obtain ⟨-, hys, hxs⟩ := List.pairwise_append.mp hsorted
  have hkeep : (m.erase e.1).entries = xs ++ ys := by
    have hfilter : (m.erase e.1).entries = m.entries.filter fun a => a.1 ≠ e.1 := rfl
    have hleft : xs.filter (fun a => a.1 ≠ e.1) = xs := List.filter_eq_self.mpr fun a ha =>
      decide_eq_true (hxs a ha e List.mem_cons_self).ne
    have hright : ys.filter (fun a => a.1 ≠ e.1) = ys := List.filter_eq_self.mpr fun a ha =>
      decide_eq_true ((List.pairwise_cons.mp hys).1 a ha).ne'
    rw [hfilter, hsplit, List.filter_append, List.filter_cons_of_neg (by simp), hleft, hright]
  rw [hkeep, hsplit]
  exact List.perm_middle

theorem values_perm_erase {m : OrdMap κ ν} {e : κ × ν} (he : e ∈ m.entries) :
    m.values.Perm (e.2 :: (m.erase e.1).values) :=
  (entries_perm_erase he).map Prod.snd

end OrdMap
