import Kutsu.Model.Schema

/-! The goal schema of the setup. What sanitizing leaves under a key depends on that key and
on the node's `type` only; the setup has a valid top level exactly when the caller's own
`type`, `properties` and `required` are of the right kind. -/

namespace Kutsu

open OrdMap (lookupList insertList)

namespace Fields

variable {k k' : String} {default : Json} {f : Json → Json} {m : Map}

theorem lookup_entry_self : lookupList k (entry k default f m) = some (f ((lookupList k m).getD default)) :=
  OrdMap.lookupList_insertList_self _ _ _

theorem lookup_entry_ne (h : k ≠ k') : lookupList k' (entry k default f m) = lookupList k' m :=
  OrdMap.lookupList_insertList_ne h _ _

end Fields

open Fields

theorem Json.get_obj (k : String) (m : Map) : (Json.obj m).get k = lookupList k m := rfl

def foldedType : Json → Json
  | .arr types => (types.find? fun t => !t.isNull).getD (.arr types)
  | v => v

theorem lookup_dropUnsupported (k : String) (m : Map) :
    lookupList k (dropUnsupported m) = if geminiUnsupportedSchemaKeys.contains k then none else lookupList k m := by
  unfold dropUnsupported
  rw [OrdMap.lookupList_filter (fun k => !geminiUnsupportedSchemaKeys.contains k)]
  cases geminiUnsupportedSchemaKeys.contains k with
  | true => rfl
  | false => rfl

/-- Folding leaves every key alone but `type` and `nullable`, and these too if no list is there. -/
theorem lookup_foldType {k : String} {m : Map}
    (h : (k ≠ "type" ∧ k ≠ "nullable") ∨ ∀ types, lookupList "type" m ≠ some (.arr types)) :
    lookupList k (foldType m) = lookupList k m := by
  unfold foldType
  split
  · rename_i types htypes
    obtain ⟨htype, hnullable⟩ := h.resolve_right fun h => h types htypes
    have hfirst : lookupList k ((types.find? fun t => !t.isNull).elim m fun first => insertList "type" first m) =
        lookupList k m := by
      cases types.find? fun t => !t.isNull with
      | some first => exact OrdMap.lookupList_insertList_ne (Ne.symm htype) _ _
      | none => rfl
    dsimp only
    split_ifs
    · rw [OrdMap.lookupList_insertList_ne (Ne.symm hnullable), hfirst]
    · exact hfirst
  · rfl

theorem lookup_type_foldType (m : Map) :
    lookupList "type" (foldType m) = (lookupList "type" m).map foldedType := by
  unfold foldType
  split
  · rename_i types htypes
    have hfirst : lookupList "type"
        ((types.find? fun t => !t.isNull).elim m fun first => insertList "type" first m) =
          (lookupList "type" m).map foldedType := by
      rw [htypes, Option.map_some, foldedType]
      cases types.find? fun t => !t.isNull with
      | some first => exact OrdMap.lookupList_insertList_self _ _ _
      | none => exact htypes
    dsimp only
    split_ifs
    · rw [OrdMap.lookupList_insertList_ne (by decide), hfirst]
    · exact hfirst
  · rename_i hne
    cases ht : lookupList "type" m with
    | none => rfl
    | some t =>
      cases t with
      | arr types => exact absurd ht (hne types)
      | null => rfl
      | bool b => rfl
      | num s => rfl
      | str s => rfl
      | obj m => rfl

theorem get_sanitize {v : Json} {k : String}
    (h : (k ≠ "type" ∧ k ≠ "nullable") ∨ ∀ types, v.get "type" ≠ some (.arr types)) :
    (sanitizeGeminiSchema v).get k =
      if geminiUnsupportedSchemaKeys.contains k then none else (v.get k).map sanitizeGeminiSchema := by
  cases v with
  | obj m =>
    rw [sanitize_obj, Json.get_obj, Json.get_obj, OrdMap.lookupList_map, lookup_foldType, lookup_dropUnsupported]
    · split_ifs
      · rfl
      · rfl
    · rw [lookup_dropUnsupported, if_neg (by decide)]
      exact h
  | arr xs =>
    rw [sanitize_arr]
    exact (ite_self none).symm
  | _ =>
    rw [sanitizeGeminiSchema]
    exact (ite_self none).symm

theorem get_type_sanitize (m : Map) : (sanitizeGeminiSchema (.obj m)).get "type" =
    (lookupList "type" m).map fun t => sanitizeGeminiSchema (foldedType t) := by
  rw [sanitize_obj, Json.get_obj, OrdMap.lookupList_map, lookup_type_foldType, lookup_dropUnsupported,
    if_neg (by decide), Option.map_map]
  rfl

theorem sanitize_str (s : String) : sanitizeGeminiSchema (.str s) = .str s := by
  rw [sanitizeGeminiSchema]

theorem sanitize_strs (xs : List String) : sanitizeGeminiSchema (.strs xs) = .strs xs := by
  rw [Json.strs, sanitize_arr, List.map_map]
  exact congrArg Json.arr (List.map_congr_left fun s _ => sanitize_str s)

theorem sanitize_eq_str {v : Json} {s : String} (h : sanitizeGeminiSchema v = .str s) : v = .str s := by
  cases v with
  | obj m => rw [sanitize_obj] at h; cases h
  | arr xs => rw [sanitize_arr] at h; cases h
  | _ => rwa [sanitizeGeminiSchema] at h

theorem asStr_sanitize (v : Json) : (sanitizeGeminiSchema v).asStr = v.asStr := by
  cases v with
  | obj m => rw [sanitize_obj]; rfl
  | arr xs => rw [sanitize_arr]; rfl
  | _ => rw [sanitizeGeminiSchema]

theorem sanitize_amdSchema : sanitizeGeminiSchema amdSchema = amdSchema := by
  have hfold : ∀ d : Json, foldType (dropUnsupported [("description", d),
      ("enum", .strs ["live", "voicemail", "announcement", "ivr", "hold"]), ("type", .str "string")]) =
    [("description", d), ("enum", .strs ["live", "voicemail", "announcement", "ivr", "hold"]),
      ("type", .str "string")] := fun d => rfl
  unfold amdSchema
  rw [sanitize_obj, hfold]
  simp only [List.map_cons, List.map_nil, sanitize_str, sanitize_strs]

/-- How often the caller lists `amd` as required. -/
def amdListed (m : Map) : ℕ :=
  match lookupList "required" m with
  | some (.arr xs) => xs.countP isAmd
  | _ => 0

/-- An object with kutsu's `amd`, which is required: once, if it was `listed` at most once. -/
structure ValidSetup (listed : ℕ) (s : Json) : Prop where
  object : s.get "type" = some (.str "object")
  amd : (s.get "properties").bind (Json.get "amd") = some amdSchema
  required : ∃ xs, s.get "required" = some (.arr xs) ∧ (listed ≤ 1 → xs.countP isAmd = 1)

/-- `object`, or a list of types whose first that is not null is `object`. -/
def ObjectType (t : Json) : Prop :=
  t = .str "object" ∨ ∃ types, t = .arr types ∧ (types.find? fun t => !t.isNull) = some (.str "object")

/-- What the caller puts under the three keys is absent or of the right kind. -/
structure Fits (m : Map) : Prop where
  type : ∀ t, lookupList "type" m = some t → ObjectType t
  properties : ∀ p, lookupList "properties" m = some p → ∃ props, p = .obj props
  required : ∀ r, lookupList "required" m = some r → ∃ xs, r = .arr xs

variable {m : Map}

theorem sanitize_foldedType_iff (t : Json) :
    sanitizeGeminiSchema (foldedType t) = .str "object" ↔ ObjectType t := by
  constructor
  · intro h
    have h := sanitize_eq_str h
    cases t with
    | arr types =>
      rw [foldedType] at h
      cases hfind : types.find? fun t => !t.isNull with
      | some first =>
        rw [hfind] at h
        exact .inr ⟨types, rfl, hfind.trans (congrArg some h)⟩
      | none =>
        rw [hfind] at h
        cases h
    | _ => exact .inl h
  · rintro (rfl | ⟨types, rfl, hfind⟩)
    · exact sanitize_str _
    · rw [foldedType, hfind]
      exact sanitize_str _

/-- Only an object takes in `amd`, and sanitizing leaves it there. -/
theorem amd_insertAmd_iff (p : Json) :
    (sanitizeGeminiSchema (insertAmd p)).get "amd" = some amdSchema ↔ ∃ props, p = .obj props := by
  constructor
  · intro h
    cases p with
    | obj props => exact ⟨props, rfl⟩
    | arr xs =>
      simp only [insertAmd, sanitize_arr] at h
      cases h
    | _ =>
      simp only [insertAmd, sanitizeGeminiSchema] at h
      cases h
  · rintro ⟨props, rfl⟩
    rw [get_sanitize (.inl ⟨by decide, by decide⟩), if_neg (by decide), insertAmd, Json.get_obj,
      OrdMap.lookupList_insertList_self, Option.map_some, sanitize_amdSchema]

theorem countP_sanitize (xs : List Json) : (xs.map sanitizeGeminiSchema).countP isAmd = xs.countP isAmd := by
  rw [List.countP_map]
  exact congrArg (xs.countP ·) (funext fun v => by simp [isAmd, asStr_sanitize])

theorem countP_requireAmd {xs : List Json} (h : xs.countP isAmd ≤ 1) :
    ∃ ys, requireAmd (.arr xs) = .arr ys ∧ ys.countP isAmd = 1 := by
  rw [requireAmd]
  split_ifs with hany
  · exact ⟨xs, rfl, le_antisymm h (List.countP_pos_iff.mpr (List.any_eq_true.mp hany))⟩
  · refine ⟨_, rfl, ?_⟩
    have hnone : xs.countP isAmd = 0 :=
      List.countP_eq_zero.mpr fun v hv hamd => hany (List.any_eq_true.mpr ⟨v, hv, hamd⟩)
    rw [List.countP_append, hnone]
    rfl

theorem required_requireAmd_iff {r : Json} {listed : ℕ} (hlisted : ∀ xs, r = .arr xs → xs.countP isAmd = listed) :
    (∃ xs, sanitizeGeminiSchema (requireAmd r) = .arr xs ∧ (listed ≤ 1 → xs.countP isAmd = 1)) ↔ ∃ xs, r = .arr xs := by
  constructor
  · rintro ⟨xs, h, -⟩
    cases r with
    | arr xs => exact ⟨xs, rfl⟩
    | obj m =>
      simp only [requireAmd, sanitize_obj] at h
      cases h
    | _ =>
      simp only [requireAmd, sanitizeGeminiSchema] at h
      cases h
  · rintro ⟨xs, rfl⟩
    obtain rfl := hlisted xs rfl
    by_cases hone : xs.countP isAmd ≤ 1
    · obtain ⟨ys, hys, hcount⟩ := countP_requireAmd hone
      exact ⟨_, by rw [hys, sanitize_arr], fun _ => (countP_sanitize ys).trans hcount⟩
    · rw [requireAmd]
      split_ifs
      · exact ⟨_, sanitize_arr xs, fun h => absurd h hone⟩
      · exact ⟨_, sanitize_arr _, fun h => absurd h hone⟩

def augmented (m : Map) : Map :=
  entry "required" (.arr []) requireAmd (entry "properties" (.obj []) insertAmd (entry "type" (.str "object") id m))

theorem augment_parsed {fromStr : String → Option Json} {schema : Json} (h : parseStringified fromStr schema = .obj m) :
    augmentGoalSchema fromStr schema = .obj (augmented m) := by
  rw [augmentGoalSchema, h]
  rfl

theorem lookup_type_augmented (m : Map) :
    lookupList "type" (augmented m) = some ((lookupList "type" m).getD (.str "object")) := by
  rw [augmented, lookup_entry_ne (by decide), lookup_entry_ne (by decide), lookup_entry_self, id]

theorem lookup_properties_augmented (m : Map) :
    lookupList "properties" (augmented m) = some (insertAmd ((lookupList "properties" m).getD (.obj []))) := by
  rw [augmented, lookup_entry_ne (by decide), lookup_entry_self, lookup_entry_ne (by decide)]

theorem lookup_required_augmented (m : Map) :
    lookupList "required" (augmented m) = some (requireAmd ((lookupList "required" m).getD (.arr []))) := by
  rw [augmented, lookup_entry_self, lookup_entry_ne (by decide), lookup_entry_ne (by decide)]

theorem get_setupGoalSchema {fromStr : String → Option Json} {schema : Json}
    (h : parseStringified fromStr schema = .obj m) :
    (setupGoalSchema fromStr schema).get "type" =
        some (sanitizeGeminiSchema (foldedType ((lookupList "type" m).getD (.str "object")))) ∧
      (setupGoalSchema fromStr schema).get "properties" =
        some (sanitizeGeminiSchema (insertAmd ((lookupList "properties" m).getD (.obj [])))) ∧
      (setupGoalSchema fromStr schema).get "required" =
        some (sanitizeGeminiSchema (requireAmd ((lookupList "required" m).getD (.arr [])))) := by
  unfold setupGoalSchema
  rw [augment_parsed h]
  refine ⟨?_, ?_, ?_⟩
  · rw [get_type_sanitize, lookup_type_augmented]
    rfl
  · rw [get_sanitize (.inl ⟨by decide, by decide⟩), if_neg (by decide), Json.get_obj, lookup_properties_augmented]
    rfl
  · rw [get_sanitize (.inl ⟨by decide, by decide⟩), if_neg (by decide), Json.get_obj, lookup_required_augmented]
    rfl

theorem forall_getD_iff {α : Type} {P : α → Prop} {o : Option α} {d : α} (hd : P d) :
    P (o.getD d) ↔ ∀ a, o = some a → P a := by
  cases o with
  | none => simpa using hd
  | some a => simp

/-- The setup's goal schema has a valid top level exactly when the caller's three keys fit. -/
theorem setupGoalSchema_valid_iff {fromStr : String → Option Json} {schema : Json}
    (h : schema = .obj m ∨ ∃ s, schema = .str s ∧ fromStr s = some (.obj m)) :
    ValidSetup (amdListed m) (setupGoalSchema fromStr schema) ↔ Fits m := by
  have hparse : parseStringified fromStr schema = .obj m := by
    rcases h with rfl | ⟨s, rfl, hs⟩
    · rfl
    · rw [parseStringified, hs]
      rfl
  obtain ⟨htype, hprops, hreq⟩ := get_setupGoalSchema hparse
  have hobject : (setupGoalSchema fromStr schema).get "type" = some (.str "object") ↔
      ∀ t, lookupList "type" m = some t → ObjectType t := by
    rw [htype, Option.some_inj, sanitize_foldedType_iff]
    exact forall_getD_iff (P := ObjectType) (.inl rfl)
  have hamd : ((setupGoalSchema fromStr schema).get "properties").bind (Json.get "amd") = some amdSchema ↔
      ∀ p, lookupList "properties" m = some p → ∃ props, p = .obj props := by
    rw [hprops, Option.bind_some, amd_insertAmd_iff]
    exact forall_getD_iff (P := fun p : Json => ∃ props, p = .obj props) ⟨[], rfl⟩
  have hrequired : (∃ xs, (setupGoalSchema fromStr schema).get "required" = some (.arr xs) ∧
        (amdListed m ≤ 1 → xs.countP isAmd = 1)) ↔
      ∀ r, lookupList "required" m = some r → ∃ xs, r = .arr xs := by
    have hlisted : ∀ xs, (lookupList "required" m).getD (.arr []) = .arr xs → xs.countP isAmd = amdListed m := by
      intro xs hxs
      unfold amdListed
      cases hr : lookupList "required" m with
      | none =>
        rw [hr] at hxs
        cases hxs
        rfl
      | some r =>
        rw [hr] at hxs
        obtain rfl : r = .arr xs := hxs
        rfl
    simp only [hreq, Option.some_inj]
    rw [required_requireAmd_iff hlisted]
    exact forall_getD_iff (P := fun r : Json => ∃ xs, r = .arr xs) ⟨[], rfl⟩
  exact ⟨fun ⟨h₁, h₂, h₃⟩ => ⟨hobject.mp h₁, hamd.mp h₂, hrequired.mp h₃⟩,
    fun ⟨h₁, h₂, h₃⟩ => ⟨hobject.mpr h₁, hamd.mpr h₂, hrequired.mpr h₃⟩⟩

def stringifiedSchema : String := "\x7b\"type\": [\"object\", \"null\"], \"required\": [\"amd\"]\x7d"

def stringifiedMap : Map := [("required", .strs ["amd"]), ("type", .strs ["object", "null"])]

def stringifiedOnly (s : String) : Option Json := if s = stringifiedSchema then some (.obj stringifiedMap) else none

theorem setupGoalSchema_valid_stringified :
    ValidSetup (amdListed stringifiedMap) (setupGoalSchema stringifiedOnly (.str stringifiedSchema)) := by
  refine (setupGoalSchema_valid_iff (.inr ⟨stringifiedSchema, rfl, if_pos rfl⟩)).mpr ⟨?_, ?_, ?_⟩
  · rintro t h
    obtain rfl := Option.some.inj h
    exact .inr ⟨_, rfl, rfl⟩
  · rintro p h
    cases h
  · rintro r h
    obtain rfl := Option.some.inj h
    exact ⟨_, rfl⟩

/-- A type that is there and is not `object` stays. -/
theorem setupGoalSchema_invalid :
    (setupGoalSchema stringifiedOnly (.obj [("type", .str "string")])).get "type" = some (.str "string") ∧
      ¬ ValidSetup (amdListed [("type", .str "string")])
        (setupGoalSchema stringifiedOnly (.obj [("type", .str "string")])) := by
  have htype : (setupGoalSchema stringifiedOnly (.obj [("type", .str "string")])).get "type" = some (.str "string") :=
    (get_setupGoalSchema (m := [("type", .str "string")]) rfl).1.trans (congrArg some (sanitize_str "string"))
  refine ⟨htype, fun h => ?_⟩
  have hne : "string" = "object" := Json.str.inj (Option.some.inj (htype.symm.trans h.object))
  exact absurd hne (by decide)

end Kutsu
