import Kutsu.Proofs.Setup

/-! What putting in `amd` does to the caller's own fields: nothing, to all but the three keys it is about, and nothing
more a second time. -/

namespace Kutsu

open OrdMap (lookupList insertList)
open Fields

namespace Fields

variable {k : String} {default v : Json} {f : Json → Json} {m : Map}

theorem entry_eq_self (hm : m.Pairwise fun a b => a.1 < b.1) (h : lookupList k m = some v) (hv : f v = v) :
    entry k default f m = m := by
  rw [entry, h, Option.getD_some, hv]
  exact OrdMap.insertList_of_lookupList hm h

theorem sorted_entry (hm : m.Pairwise fun a b => a.1 < b.1) : (entry k default f m).Pairwise fun a b => a.1 < b.1 :=
  OrdMap.sorted_insertList _ _ hm

end Fields

variable {fromStr : String → Option Json} {m : Map} {v : Json} {k : String}

theorem augment_obj (fromStr : String → Option Json) (m : Map) :
    augmentGoalSchema fromStr (.obj m) = .obj (augmented m) := augment_parsed rfl

theorem lookup_augmented_ne (ht : k ≠ "type") (hp : k ≠ "properties") (hr : k ≠ "required") :
    lookupList k (augmented m) = lookupList k m := by
  rw [augmented, lookup_entry_ne hr.symm, lookup_entry_ne hp.symm, lookup_entry_ne ht.symm]

theorem isAmd_iff : isAmd v ↔ v = .str "amd" := by
  cases v <;> simp [isAmd, Json.asStr]

theorem requireAmd_mem {arr : List Json} (h : Json.str "amd" ∈ arr) : requireAmd (.arr arr) = .arr arr :=
  if_pos (List.any_eq_true.mpr ⟨_, h, isAmd_iff.mpr rfl⟩)

theorem requireAmd_not_mem {arr : List Json} (h : Json.str "amd" ∉ arr) :
    requireAmd (.arr arr) = .arr (arr ++ [.str "amd"]) := by
  refine if_neg fun hany => h ?_
  obtain ⟨v, hv, hamd⟩ := List.any_eq_true.mp hany
  exact isAmd_iff.mp hamd ▸ hv

theorem requireAmd_requireAmd (v : Json) : requireAmd (requireAmd v) = requireAmd v := by
  cases v with
  | arr arr =>
    by_cases h : Json.str "amd" ∈ arr
    · rw [requireAmd_mem h, requireAmd_mem h]
    · rw [requireAmd_not_mem h, requireAmd_mem (List.mem_append_right _ (List.mem_singleton_self _))]
  | _ => rfl

theorem insertAmd_insertAmd (hv : v.Ordered) : insertAmd (insertAmd v) = insertAmd v := by
  cases hv with
  | obj hm _ =>
    refine congrArg Json.obj (OrdMap.insertList_of_lookupList (OrdMap.sorted_insertList _ _ hm) ?_)
    exact OrdMap.lookupList_insertList_self _ _ _
  | _ => rfl

theorem augmented_augmented (hm : (Json.obj m).Ordered) : augmented (augmented m) = augmented m := by
  cases hm with
  | obj hsorted hfields =>
    have hsorted' : (augmented m).Pairwise fun a b => a.1 < b.1 := sorted_entry (sorted_entry (sorted_entry hsorted))
    have hprops : ((lookupList "properties" m).getD (.obj [])).Ordered := by
      cases hp : lookupList "properties" m with
      | none => exact .obj List.Pairwise.nil (List.forall_mem_nil _)
      | some p => exact hfields _ (OrdMap.mem_of_lookupList hp)
    calc augmented (augmented m)
      _ = entry "required" (.arr []) requireAmd (entry "properties" (.obj []) insertAmd (augmented m)) := by
          rw [augmented, entry_eq_self hsorted' (lookup_type_augmented m) rfl]
      _ = entry "required" (.arr []) requireAmd (augmented m) := by
          rw [entry_eq_self hsorted' (lookup_properties_augmented m) (insertAmd_insertAmd hprops)]
      _ = augmented m := entry_eq_self hsorted' (lookup_required_augmented m) (requireAmd_requireAmd _)

/-- The caller's schema keeps what is not about `amd`, in whichever of its two forms it is sent, and what is no object
is passed on as it is. -/
theorem augment_conservative (fromStr : String → Option Json) (hm : (Json.obj m).Ordered) :
    ((∀ k, k ≠ "type" → k ≠ "properties" → k ≠ "required" →
        (augmentGoalSchema fromStr (.obj m)).get k = (Json.obj m).get k) ∧
      (∀ props, (Json.obj m).get "properties" = some (.obj props) →
        ∃ props', (augmentGoalSchema fromStr (.obj m)).get "properties" = some (.obj props') ∧
          ∀ k, k ≠ "amd" → (Json.obj props').get k = (Json.obj props).get k) ∧
      (∀ arr, (Json.obj m).get "required" = some (.arr arr) →
        (.str "amd" ∈ arr → (augmentGoalSchema fromStr (.obj m)).get "required" = some (.arr arr)) ∧
        (.str "amd" ∉ arr →
          (augmentGoalSchema fromStr (.obj m)).get "required" = some (.arr (arr ++ [.str "amd"]))))) ∧
    augmentGoalSchema fromStr (augmentGoalSchema fromStr (.obj m)) = augmentGoalSchema fromStr (.obj m) ∧
    (∀ text, fromStr text = some (.obj m) →
      augmentGoalSchema fromStr (.str text) = augmentGoalSchema fromStr (.obj m)) ∧
    (∀ v : Json, (∀ fields, v ≠ .obj fields) → (∀ text, v ≠ .str text) → augmentGoalSchema fromStr v = v) ∧
    ∀ text, fromStr text = none → augmentGoalSchema fromStr (.str text) = .str text := by
  refine ⟨⟨fun k ht hp hr => ?_, fun props hprops => ?_, fun arr harr => ⟨fun h => ?_, fun h => ?_⟩⟩, ?_,
    fun text htext => ?_, fun v hobj hstr => ?_, fun text htext => ?_⟩
  · rw [augment_obj]
    exact lookup_augmented_ne ht hp hr
  · have hget := lookup_properties_augmented m
    rw [show lookupList "properties" m = some (.obj props) from hprops] at hget
    exact ⟨insertList "amd" amdSchema props, hget, fun k hk => OrdMap.lookupList_insertList_ne hk.symm _ _⟩
  · have hget := lookup_required_augmented m
    rwa [show lookupList "required" m = some (.arr arr) from harr, Option.getD_some, requireAmd_mem h] at hget
  · have hget := lookup_required_augmented m
    rwa [show lookupList "required" m = some (.arr arr) from harr, Option.getD_some, requireAmd_not_mem h] at hget
  · rw [augment_obj, augment_obj, augmented_augmented hm]
  · have hparse : parseStringified fromStr (.str text) = .obj m := by
      rw [parseStringified, htext]
      rfl
    rw [augment_parsed hparse, augment_obj]
  · cases v with
    | obj fields => exact absurd rfl (hobj fields)
    | str text => exact absurd rfl (hstr text)
    | _ => rfl
  · have hparse : parseStringified fromStr (.str text) = .str text := by
      rw [parseStringified, htext]
      rfl
    rw [augmentGoalSchema, hparse]

/-- One field, which is required. -/
def bookingMap : Map := [("properties", .obj [("day", .obj [("type", .str "string")])]), ("required", .strs ["day"])]

def bookingText : String :=
  "\x7b\"properties\": \x7b\"day\": \x7b\"type\": \"string\"\x7d\x7d, \"required\": [\"day\"]\x7d"

def bookingOnly (text : String) : Option Json := if text = bookingText then some (.obj bookingMap) else none

theorem ordered_bookingMap : (Json.obj bookingMap).Ordered := by
  have hday : (Json.obj [("type", .str "string")]).Ordered :=
    .obj (List.pairwise_singleton _ _) (List.forall_mem_singleton.mpr (.str _))
  have hprops : (Json.obj [("day", .obj [("type", .str "string")])]).Ordered :=
    .obj (List.pairwise_singleton _ _) (List.forall_mem_singleton.mpr hday)
  have hreq : (Json.strs ["day"]).Ordered := .arr (List.forall_mem_singleton.mpr (.str _))
  exact .obj (by decide) (List.forall_mem_cons.mpr ⟨hprops, List.forall_mem_singleton.mpr hreq⟩)

/-- The field and its being required are still there, and the text is as good as the object. -/
theorem augment_booking :
    (augmentGoalSchema bookingOnly (.obj bookingMap)).get "required" = some (.strs ["day", "amd"]) ∧
      augmentGoalSchema bookingOnly (.str bookingText) = augmentGoalSchema bookingOnly (.obj bookingMap) ∧
      augmentGoalSchema bookingOnly (.str "call me") = .str "call me" := by
  obtain ⟨⟨-, -, hreq⟩, -, htext, -, hother⟩ := augment_conservative bookingOnly ordered_bookingMap
  refine ⟨(hreq [.str "day"] rfl).2 (by simp), htext bookingText (if_pos rfl), hother "call me" (if_neg (by decide))⟩

end Kutsu
