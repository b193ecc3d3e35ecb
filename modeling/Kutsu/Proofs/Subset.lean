import Kutsu.Proofs.Nodes

/-! What sanitizing makes of a JSON value at every depth. The keys that Gemini does not accept are gone, and a second
time nothing changes; but a list of types is replaced by its first that is not null only if there is one. -/

namespace Kutsu

open OrdMap (lookupList insertList)
open Fields Trees

/-- A value directly inside another, and the key that leads there. -/
inductive Json.Child : Json → List String → Json → Prop where
  | field {m : Map} {k : String} {c : Json} : (k, c) ∈ m → Child (.obj m) [k] c
  | elem {xs : List Json} {i : ℕ} {c : Json} : xs[i]? = some c → Child (.arr xs) [toString i] c

/-- An object with keys that Gemini accepts, and no list of types. -/
def InSubset (n : Json) : Prop :=
  ∀ m, n = .obj m → ∀ e ∈ m, e.1 ∉ geminiUnsupportedSchemaKeys ∧ (e.1 = "type" → ∀ types, e.2 ≠ .arr types)

def StringTypes (n : Json) : Prop := ∀ types, n.get "type" = some (.arr types) → ∀ t ∈ types, ∃ s, t = .str s

/-- A list of types with one other than `null` in it, of which the first is no list. -/
def Folds (n : Json) : Prop := ∀ types, n.get "type" = some (.arr types) →
  ∃ first, (types.find? fun t => !t.isNull) = some first ∧ ∀ us, first ≠ .arr us

/-- The object's `type` is a list that has `null` in it. -/
def Nulls (m : Map) : Prop := ∃ types, lookupList "type" m = some (.arr types) ∧ types.any Json.isNull = true

/-- What stays directly inside a value: of a list of types its first that is not null, and no `nullable` that is
overwritten. -/
inductive Json.Left : Json → List String → Json → Prop where
  | elem {xs : List Json} {i : ℕ} {c : Json} : xs[i]? = some c → Left (.arr xs) [toString i] c
  | field {m : Map} {k : String} {c : Json} : lookupList k m = some c → Stays k → k ≠ "type" →
      ¬ (k = "nullable" ∧ Nulls m) → Left (.obj m) [k] c
  | type {m : Map} {t : Json} : lookupList "type" m = some t → Left (.obj m) ["type"] (foldedType t)

/-- Every list of types that stays can be folded. -/
def Foldable (v : Json) : Prop := Everywhere Json.Left Folds v

variable {m : Map} {v : Json} {e : String × Json} {xs : List Json} {P : Json → Prop} {k : String}

theorem everywhere_obj : Everywhere Json.Child P (.obj m) ↔ P (.obj m) ∧ ∀ e ∈ m, Everywhere Json.Child P e.2 := by
  rw [everywhere_iff]
  refine and_congr_right fun _ => ⟨fun h e he => h _ _ (.field he), fun h ks c hc => ?_⟩
  cases hc with
  | field he => exact h _ he

theorem everywhere_arr : Everywhere Json.Child P (.arr xs) ↔ P (.arr xs) ∧ ∀ v ∈ xs, Everywhere Json.Child P v := by
  rw [everywhere_iff]
  refine and_congr_right fun _ => ⟨fun h v hv => ?_, fun h ks c hc => ?_⟩
  · obtain ⟨i, hi⟩ := List.mem_iff_getElem?.mp hv
    exact h _ _ (.elem hi)
  · cases hc with
    | elem hi => exact h _ (List.mem_of_getElem? hi)

theorem everywhere_scalar (hobj : ∀ m, v ≠ .obj m) (harr : ∀ xs, v ≠ .arr xs) : Everywhere Json.Child P v ↔ P v := by
  rw [everywhere_iff, and_iff_left]
  intro ks c hc
  cases hc with
  | field => exact absurd rfl (hobj _)
  | elem => exact absurd rfl (harr _)

/-- The fields of a node that sanitizing goes on to. -/
abbrev kept (m : Map) : Map := foldType (dropUnsupported m)

theorem mem_kept (he : e ∈ kept m) : e ∈ m ∧ Stays e.1 ∨
    ∃ types, lookupList "type" m = some (.arr types) ∧ (e = ("nullable", .bool true) ∨ e.1 = "type" ∧ e.2 ∈ types) := by
  rcases mem_foldType he with he | ⟨types, htypes, he⟩
  · obtain ⟨hmem, hkey⟩ := List.mem_filter.mp he
    exact .inl ⟨hmem, by simpa [Stays] using hkey⟩
  · rw [lookup_dropUnsupported, if_neg (by decide)] at htypes
    exact .inr ⟨types, htypes, he⟩

theorem stays_of_mem_kept (he : e ∈ kept m) : Stays e.1 := by
  rcases mem_kept he with ⟨-, hkey⟩ | ⟨types, -, rfl | ⟨htype, -⟩⟩
  · exact hkey
  · decide
  · rw [htype]
    decide

theorem everywhere_of_mem_kept (h : Everywhere Json.Child P (.obj m)) (hbool : P (.bool true)) (he : e ∈ kept m) :
    Everywhere Json.Child P e.2 := by
  rcases mem_kept he with ⟨hmem, -⟩ | ⟨types, htypes, rfl | ⟨-, ht⟩⟩
  · exact (everywhere_obj.mp h).2 e hmem
  · exact (everywhere_scalar (by simp) (by simp)).mpr hbool
  · have harr := (everywhere_obj.mp h).2 _ (OrdMap.mem_of_lookupList htypes)
    exact (everywhere_arr.mp harr).2 _ ht

theorem ordered_of_mem_kept (h : (Json.obj m).Ordered) (he : e ∈ kept m) : e.2.Ordered := by
  cases h with
  | obj _ hfields =>
    rcases mem_kept he with ⟨hmem, -⟩ | ⟨types, htypes, rfl | ⟨-, ht⟩⟩
    · exact hfields e hmem
    · exact .bool true
    · cases hfields _ (OrdMap.mem_of_lookupList htypes) with
      | arr htypes => exact htypes _ ht

theorem sorted_foldType (hm : m.Pairwise fun a b => a.1 < b.1) : (foldType m).Pairwise fun a b => a.1 < b.1 := by
  unfold foldType
  split
  · rename_i types _
    have hfirst : ((types.find? fun t => !t.isNull).elim m fun first => insertList "type" first m).Pairwise
        fun a b => a.1 < b.1 := by
      cases types.find? fun t => !t.isNull with
      | none => exact hm
      | some first => exact OrdMap.sorted_insertList _ _ hm
    dsimp only
    split_ifs
    · exact OrdMap.sorted_insertList _ _ hfirst
    · exact hfirst
  · exact hm

theorem sorted_kept (h : (Json.obj m).Ordered) : (kept m).Pairwise fun a b => a.1 < b.1 := by
  cases h with
  | obj hm _ => exact sorted_foldType (hm.sublist List.filter_sublist)

theorem lookup_nullable_foldType (m : Map) : Nulls m ∧ lookupList "nullable" (foldType m) = some (.bool true) ∨
    ¬ Nulls m ∧ lookupList "nullable" (foldType m) = lookupList "nullable" m := by
  by_cases h : ∃ types, lookupList "type" m = some (.arr types)
  · obtain ⟨types, htypes⟩ := h
    have hfirst : lookupList "nullable"
        ((types.find? fun t => !t.isNull).elim m fun first => insertList "type" first m) = lookupList "nullable" m := by
      cases types.find? fun t => !t.isNull with
      | none => rfl
      | some first => exact OrdMap.lookupList_insertList_ne (by decide) _ _
    rw [foldType, htypes]
    dsimp only
    split_ifs with hnull
    · exact .inl ⟨⟨types, htypes, hnull⟩, OrdMap.lookupList_insertList_self _ _ _⟩
    · refine .inr ⟨fun ⟨types', htypes', hnull'⟩ => hnull ?_, hfirst⟩
      rw [htypes] at htypes'
      exact Json.arr.inj (Option.some.inj htypes') ▸ hnull'
  · have hnone : ∀ types, lookupList "type" m ≠ some (.arr types) := fun types htypes => h ⟨types, htypes⟩
    exact .inr ⟨fun ⟨types, htypes, _⟩ => hnone types htypes, lookup_foldType (.inr hnone)⟩

theorem nulls_dropUnsupported (m : Map) : Nulls (dropUnsupported m) ↔ Nulls m := by
  unfold Nulls
  rw [lookup_dropUnsupported, if_neg (by decide)]

/-- The fields that sanitizing goes on to are those that stay, and the `nullable` that it puts in. -/
theorem lookup_kept_iff {c : Json} : lookupList k (kept m) = some c ↔
    Json.Left (.obj m) [k] c ∨ k = "nullable" ∧ c = .bool true ∧ Nulls m := by
  by_cases htype : k = "type"
  · subst htype
    rw [lookup_type_foldType, lookup_dropUnsupported, if_neg (by decide), Option.map_eq_some_iff]
    constructor
    · rintro ⟨t, ht, rfl⟩
      exact .inl (.type ht)
    · rintro (hleft | ⟨hne, -⟩)
      · cases hleft with
        | field _ _ hne _ => exact absurd rfl hne
        | type ht => exact ⟨_, ht, rfl⟩
      · exact absurd hne (by decide)
  · have hleft : Json.Left (.obj m) [k] c ↔ lookupList k m = some c ∧ Stays k ∧ ¬ (k = "nullable" ∧ Nulls m) := by
      refine ⟨fun h => ?_, fun ⟨hk, hstays, hnull⟩ => .field hk hstays htype hnull⟩
      cases h with
      | field hk hstays _ hnull => exact ⟨hk, hstays, hnull⟩
      | type => exact absurd rfl htype
    have hdrop : lookupList k (dropUnsupported m) = some c ↔ lookupList k m = some c ∧ Stays k := by
      rw [lookup_dropUnsupported, Stays, ← List.contains_iff_mem]
      cases geminiUnsupportedSchemaKeys.contains k <;> simp
    rw [hleft]
    by_cases hnullable : k = "nullable"
    · subst hnullable
      have hcases := lookup_nullable_foldType (dropUnsupported m)
      rw [nulls_dropUnsupported] at hcases
      rcases hcases with ⟨hnull, hget⟩ | ⟨hnull, hget⟩
      · rw [hget, Option.some_inj]
        simp [hnull, eq_comm]
      · rw [hget, hdrop]
        simp [hnull]
    · rw [lookup_foldType (.inl ⟨htype, hnullable⟩), hdrop]
      simp [hnullable]

theorem foldedType_ne_arr_iff {t : Json} : (∀ us, foldedType t ≠ .arr us) ↔ ∀ types, t = .arr types →
    ∃ first, (types.find? fun t => !t.isNull) = some first ∧ ∀ us, first ≠ .arr us := by
  cases t with
  | arr types =>
    cases hfind : types.find? fun t => !t.isNull with
    | none =>
      have hfold : foldedType (.arr types) = .arr types := by rw [foldedType, hfind, Option.getD_none]
      refine iff_of_false (fun h => h types hfold) fun h => ?_
      obtain ⟨first, hfirst, -⟩ := h types rfl
      rw [hfind] at hfirst
      cases hfirst
    | some first =>
      have hfold : foldedType (.arr types) = first := by rw [foldedType, hfind, Option.getD_some]
      rw [hfold]
      refine ⟨fun h us hus => ⟨first, Json.arr.inj hus ▸ hfind, h⟩, fun h => ?_⟩
      obtain ⟨first', hfirst, harr⟩ := h types rfl
      rw [hfind] at hfirst
      exact Option.some.inj hfirst ▸ harr
  | _ => exact iff_of_true (fun us => by simp [foldedType]) (fun types h => by cases h)

theorem folds_obj_iff : Folds (.obj m) ↔ ∀ us, lookupList "type" (kept m) ≠ some (.arr us) := by
  rw [lookup_type_foldType, lookup_dropUnsupported, if_neg (by decide)]
  unfold Folds
  rw [Json.get_obj]
  cases ht : lookupList "type" m with
  | none => simp
  | some t =>
    simp only [Option.map_some, ne_eq, Option.some_inj]
    exact foldedType_ne_arr_iff.symm

theorem inSubset_sanitize_iff (h : (Json.obj m).Ordered) :
    InSubset (sanitizeGeminiSchema (.obj m)) ↔ Folds (.obj m) := by
  rw [sanitize_obj, folds_obj_iff]
  constructor
  · intro hin us htype
    have hmem := OrdMap.mem_of_lookupList htype
    have hin := hin _ rfl ("type", sanitizeGeminiSchema (.arr us)) (List.mem_map.mpr ⟨_, hmem, rfl⟩)
    exact hin.2 rfl _ (sanitize_arr us)
  · intro hne m' hm' e he
    obtain rfl := Json.obj.inj hm'
    obtain ⟨e, hmem, rfl⟩ := List.mem_map.mp he
    refine ⟨stays_of_mem_kept (e := e) hmem, fun htype types harr => ?_⟩
    obtain ⟨us, hus, -⟩ := sanitize_eq_arr harr
    have hget := OrdMap.lookupList_of_mem (sorted_kept h) hmem
    rw [show e.1 = "type" from htype, hus] at hget
    exact hne us hget

theorem sanitize_scalar (hobj : ∀ m, v ≠ .obj m) (harr : ∀ xs, v ≠ .arr xs) : sanitizeGeminiSchema v = v := by
  cases v with
  | obj m => exact absurd rfl (hobj m)
  | arr xs => exact absurd rfl (harr xs)
  | _ => rw [sanitizeGeminiSchema]

theorem sanitize_induction {motive : Json → Prop} (obj : ∀ m, (∀ e ∈ kept m, motive e.2) → motive (.obj m))
    (arr : ∀ xs, (∀ v ∈ xs, motive v) → motive (.arr xs))
    (scalar : ∀ v, (∀ m, v ≠ .obj m) → (∀ xs, v ≠ .arr xs) → motive v) (v : Json) : motive v := by
  induction v using sanitizeGeminiSchema.induct with
  | case1 m ih => exact obj m fun e he => ih ⟨e, he⟩
  | case2 xs ih => exact arr xs ih
  | case3 => exact scalar _ (by simp) (by simp)
  | case4 b => exact scalar _ (by simp) (by simp)
  | case5 text => exact scalar _ (by simp) (by simp)
  | case6 s => exact scalar _ (by simp) (by simp)

theorem inSubset_of_not_obj (hobj : ∀ m, v ≠ .obj m) : InSubset v := fun m hm => absurd hm (hobj m)

theorem folds_of_not_obj (hobj : ∀ m, v ≠ .obj m) : Folds v := by
  intro types htypes
  cases v with
  | obj m => exact absurd rfl (hobj m)
  | _ => cases htypes

theorem foldable_scalar (hobj : ∀ m, v ≠ .obj m) (harr : ∀ xs, v ≠ .arr xs) : Foldable v := by
  refine everywhere_iff.mpr ⟨folds_of_not_obj hobj, fun ks c hc => ?_⟩
  cases hc with
  | elem => exact absurd rfl (harr _)
  | field => exact absurd rfl (hobj _)
  | type => exact absurd rfl (hobj _)

theorem foldable_arr : Foldable (.arr xs) ↔ ∀ v ∈ xs, Foldable v := by
  rw [Foldable, everywhere_iff, and_iff_right (folds_of_not_obj (by simp))]
  refine ⟨fun h v hv => ?_, fun h ks c hc => ?_⟩
  · obtain ⟨i, hi⟩ := List.mem_iff_getElem?.mp hv
    exact h _ _ (.elem hi)
  · cases hc with
    | elem hi => exact h _ (List.mem_of_getElem? hi)

theorem foldable_obj (h : (Json.obj m).Ordered) :
    Foldable (.obj m) ↔ Folds (.obj m) ∧ ∀ e ∈ kept m, Foldable e.2 := by
  rw [Foldable, everywhere_iff]
  refine and_congr_right fun _ => ⟨fun hleft e he => ?_, fun hkept ks c hc => ?_⟩
  · rcases lookup_kept_iff.mp (OrdMap.lookupList_of_mem (sorted_kept h) he) with hc | ⟨-, hbool, -⟩
    · exact hleft _ _ hc
    · rw [hbool]
      exact foldable_scalar (by simp) (by simp)
  · have hmem : ∀ k, Json.Left (.obj m) [k] c → (k, c) ∈ kept m := fun k hc =>
      OrdMap.mem_of_lookupList (lookup_kept_iff.mpr (.inl hc))
    cases hc with
    | field hk hstays htype hnull => exact hkept _ (hmem _ (.field hk hstays htype hnull))
    | type ht => exact hkept _ (hmem _ (.type ht))

theorem everywhere_inSubset_iff (h : v.Ordered) :
    Everywhere Json.Child InSubset (sanitizeGeminiSchema v) ↔ Foldable v := by
  induction v using sanitize_induction with
  | obj m ih =>
    rw [foldable_obj h, ← inSubset_sanitize_iff h, sanitize_obj, everywhere_obj, List.forall_mem_map]
    exact and_congr_right fun _ => forall₂_congr fun e he => ih e he (ordered_of_mem_kept h he)
  | arr xs ih =>
    cases h with
    | arr hxs =>
      rw [foldable_arr, sanitize_arr, everywhere_arr, List.forall_mem_map,
        and_iff_right (inSubset_of_not_obj (by simp))]
      exact forall₂_congr fun v hv => ih v hv (hxs v hv)
  | scalar v hobj harr =>
    rw [sanitize_scalar hobj harr, everywhere_scalar hobj harr]
    exact iff_of_true (inSubset_of_not_obj hobj) (foldable_scalar hobj harr)

theorem isNull_sanitize (t : Json) : (sanitizeGeminiSchema t).isNull = t.isNull := by
  rw [Json.isNull, Json.isNull, asStr_sanitize]

theorem types_of_kept (hs : StringTypes (.obj m)) {us : List Json} (h : lookupList "type" (kept m) = some (.arr us)) :
    lookupList "type" m = some (.arr us) ∧ us.find? (fun t => !t.isNull) = none := by
  rw [lookup_type_foldType, lookup_dropUnsupported, if_neg (by decide)] at h
  obtain ⟨t, ht, hfold⟩ := Option.map_eq_some_iff.mp h
  cases t with
  | arr types =>
    rw [foldedType] at hfold
    cases hfind : types.find? fun t => !t.isNull with
    | none =>
      rw [hfind, Option.getD_none] at hfold
      obtain rfl := Json.arr.inj hfold
      exact ⟨ht, hfind⟩
    | some first =>
      rw [hfind, Option.getD_some] at hfold
      obtain ⟨s, hstr⟩ := hs types ht first (List.mem_of_find?_eq_some hfind)
      cases hfold.symm.trans hstr
  | _ => cases hfold

theorem foldType_eq_self (hm : m.Pairwise fun a b => a.1 < b.1)
    (hfind : ∀ types, lookupList "type" m = some (.arr types) → types.find? (fun t => !t.isNull) = none)
    (hnull : Nulls m → lookupList "nullable" m = some (.bool true)) : foldType m = m := by
  unfold foldType
  split
  · rename_i types htypes
    rw [hfind types htypes]
    dsimp only [Option.elim_none]
    split_ifs with hany
    · exact OrdMap.insertList_of_lookupList hm (hnull ⟨types, htypes, hany⟩)
    · rfl
  · rfl

theorem kept_sanitized (h : (Json.obj m).Ordered) (hs : StringTypes (.obj m)) :
    kept ((kept m).map fun e => (e.1, sanitizeGeminiSchema e.2)) =
      (kept m).map fun e => (e.1, sanitizeGeminiSchema e.2) := by
  have hdrop : dropUnsupported ((kept m).map fun e => (e.1, sanitizeGeminiSchema e.2)) =
      (kept m).map fun e => (e.1, sanitizeGeminiSchema e.2) := by
    refine List.filter_eq_self.mpr fun e' he' => ?_
    obtain ⟨e, he, rfl⟩ := List.mem_map.mp he'
    have hstays := stays_of_mem_kept he
    simpa [Stays] using hstays
  have htypes : ∀ types, lookupList "type" ((kept m).map fun e => (e.1, sanitizeGeminiSchema e.2)) =
      some (.arr types) → ∃ us, types = us.map sanitizeGeminiSchema ∧ lookupList "type" m = some (.arr us) ∧
        us.find? (fun t => !t.isNull) = none := by
    intro types htypes
    rw [OrdMap.lookupList_map] at htypes
    obtain ⟨t, ht, harr⟩ := Option.map_eq_some_iff.mp htypes
    obtain ⟨us, rfl, rfl⟩ := sanitize_eq_arr harr
    exact ⟨us, rfl, types_of_kept hs ht⟩
  rw [kept, hdrop]
  refine foldType_eq_self (List.pairwise_map.mpr (sorted_kept h)) (fun types ht => ?_) fun ⟨types, ht, hany⟩ => ?_
  · obtain ⟨us, rfl, -, hfind⟩ := htypes types ht
    rw [List.find?_map, Option.map_eq_none_iff, ← hfind]
    exact congrArg (us.find? ·) (funext fun t => by simp [isNull_sanitize])
  · obtain ⟨us, rfl, hus, -⟩ := htypes types ht
    have hnulls : Nulls m := by
      refine ⟨us, hus, ?_⟩
      rw [← hany, List.any_map]
      exact congrArg (us.any ·) (funext fun t => (isNull_sanitize t).symm)
    have hget := lookup_kept_iff.mpr (.inr ⟨rfl, rfl, hnulls⟩)
    rw [OrdMap.lookupList_map, hget, Option.map_some, sanitize_scalar (by simp) (by simp)]

theorem sanitize_sanitize (h : v.Ordered) (hs : Everywhere Json.Child StringTypes v) :
    sanitizeGeminiSchema (sanitizeGeminiSchema v) = sanitizeGeminiSchema v := by
  induction v using sanitize_induction with
  | obj m ih =>
    have hbool : StringTypes (.bool true) := fun types htypes => by cases htypes
    have hfields : ∀ e ∈ kept m, sanitizeGeminiSchema (sanitizeGeminiSchema e.2) = sanitizeGeminiSchema e.2 :=
      fun e he => ih e he (ordered_of_mem_kept h he) (everywhere_of_mem_kept hs hbool he)
    have hagain : foldType (dropUnsupported ((kept m).map fun e => (e.1, sanitizeGeminiSchema e.2))) = _ :=
      kept_sanitized h hs.root
    rw [sanitize_obj, sanitize_obj, hagain, List.map_map]
    exact congrArg Json.obj (List.map_congr_left fun e he => congrArg (Prod.mk e.1) (hfields e he))
  | arr xs ih =>
    cases h with
    | arr hxs =>
      rw [sanitize_arr, sanitize_arr, List.map_map]
      exact congrArg Json.arr (List.map_congr_left fun v hv => ih v hv (hxs v hv) ((everywhere_arr.mp hs).2 v hv))
  | scalar v hobj harr => rw [sanitize_scalar hobj harr, sanitize_scalar hobj harr]

/-- What Gemini accepts is left at every depth, and left alone a second time, exactly if every list of types that stays
can be folded. -/
theorem sanitize_inSubset_iff (h : v.Ordered) : Everywhere Json.Child InSubset (sanitizeGeminiSchema v) ∧
    (Everywhere Json.Child StringTypes v → sanitizeGeminiSchema (sanitizeGeminiSchema v) = sanitizeGeminiSchema v) ↔
      Foldable v := by
  rw [everywhere_inSubset_iff h]
  exact and_iff_left fun hs => sanitize_sanitize h hs

def typed (types : List Json) : Json := .obj [("type", .arr types)]

theorem ordered_typed {types : List Json} (h : ∀ t ∈ types, t.Ordered) : (typed types).Ordered :=
  .obj (List.pairwise_singleton _ _) (List.forall_mem_singleton.mpr (.arr h))

/-- An optional string is folded. -/
theorem optional_string_inSubset :
    Everywhere Json.Child InSubset (sanitizeGeminiSchema (typed [.str "null", .str "string"])) ∧
      (Everywhere Json.Child StringTypes (typed [.str "null", .str "string"]) →
        sanitizeGeminiSchema (sanitizeGeminiSchema (typed [.str "null", .str "string"])) =
          sanitizeGeminiSchema (typed [.str "null", .str "string"])) := by
  have hordered : (typed [.str "null", .str "string"]).Ordered := ordered_typed (by simp [Json.Ordered.str])
  refine (sanitize_inSubset_iff hordered).mpr ((foldable_obj hordered).mpr ⟨fun types htypes => ?_, fun e he => ?_⟩)
  · obtain rfl := Json.arr.inj (Option.some.inj htypes)
    exact ⟨.str "string", rfl, fun us => by simp⟩
  · have hkept : kept [("type", .arr [.str "null", .str "string"])] =
        [("nullable", .bool true), ("type", .str "string")] := by rfl
    rw [hkept] at he
    rcases List.mem_pair.mp he with rfl | rfl
    · exact foldable_scalar (by simp) (by simp)
    · exact foldable_scalar (by simp) (by simp)

/-- A type of nothing but `null` is a list before and after. -/
theorem null_type_stays : (typed [.str "null"]).Ordered ∧
    (sanitizeGeminiSchema (typed [.str "null"])).get "type" = some (.arr [.str "null"]) ∧
    ¬ Everywhere Json.Child InSubset (sanitizeGeminiSchema (typed [.str "null"])) := by
  have hordered : (typed [.str "null"]).Ordered := ordered_typed (by simp [Json.Ordered.str])
  refine ⟨hordered, ?_, fun hin => ?_⟩
  · rw [typed, get_type_sanitize, OrdMap.lookupList_cons_self, Option.map_some]
    exact congrArg some (sanitize_strs ["null"])
  · have hfolds := ((everywhere_inSubset_iff hordered).mp hin).root
    obtain ⟨first, hfirst, -⟩ := hfolds [.str "null"] rfl
    cases hfirst

end Kutsu
