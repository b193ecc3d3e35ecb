import Kutsu.Lib.OrdMap
import Kutsu.Model.Types
import Mathlib.Data.String.Basic

/-! The caller's `goal_schema` on its way into the Gemini setup (`config.rs`,
`build_setup_config`): the `amd` field is put in, then what Gemini does not accept is taken
out. -/

namespace Kutsu

namespace Fields

/-- `serde_json::Map`, in key order. -/
abbrev Map := List (String × Json)

/-- `entry(k).or_insert_with(..)`, and what is done to the value it returns. -/
def entry (k : String) (default : Json) (f : Json → Json) (m : Map) : Map :=
  OrdMap.insertList k (f ((OrdMap.lookupList k m).getD default)) m

end Fields

open Fields

/-- A value whose maps are in key order at every depth, as `serde_json` keeps them. -/
inductive Json.Ordered : Json → Prop where
  | null : Ordered .null
  | bool (b : Bool) : Ordered (.bool b)
  | num (text : String) : Ordered (.num text)
  | str (s : String) : Ordered (.str s)
  | arr {xs : List Json} : (∀ v ∈ xs, Ordered v) → Ordered (.arr xs)
  | obj {m : Map} : (m.Pairwise fun a b => a.1 < b.1) → (∀ e ∈ m, Ordered e.2) → Ordered (.obj m)

/-- `serde_json::json!` of strings. -/
def Json.strs (xs : List String) : Json := .arr (xs.map .str)

def amdSchema : Json := .obj [
  ("description", .str ("What the far end is: `live` for a real person you " ++
    "conversed with; otherwise the non-live kind you detected.")),
  ("enum", .strs ["live", "voicemail", "announcement", "ivr", "hold"]),
  ("type", .str "string")]

def insertAmd : Json → Json
  | .obj props => .obj (OrdMap.insertList "amd" amdSchema props)
  | v => v

def isAmd (v : Json) : Bool := v.asStr = some "amd"

def requireAmd : Json → Json
  | .arr arr => if arr.any isAmd then .arr arr else .arr (arr ++ [.str "amd"])
  | v => v

/-- `fromStr` is `serde_json::from_str`. -/
def parseStringified (fromStr : String → Option Json) : Json → Json
  | .str s => (fromStr s).getD (.str s)
  | v => v

def augmentGoalSchema (fromStr : String → Option Json) (schema : Json) : Json :=
  match parseStringified fromStr schema with
  | .obj obj =>
    let obj := entry "type" (.str "object") id obj
    let obj := entry "properties" (.obj []) insertAmd obj
    .obj (entry "required" (.arr []) requireAmd obj)
  | s => s

def geminiUnsupportedSchemaKeys : List String :=
  ["additionalProperties", "unevaluatedProperties", "patternProperties", "additionalItems",
    "unevaluatedItems", "$schema", "$id", "$defs", "definitions", "examples"]

def dropUnsupported (map : Map) : Map := map.filter fun e => !geminiUnsupportedSchemaKeys.contains e.1

def Json.isNull (t : Json) : Bool := t.asStr = some "null"

/-- `type: [T, "null"]` becomes `type: T` and `nullable: true`. -/
def foldType (map : Map) : Map :=
  match OrdMap.lookupList "type" map with
  | some (.arr types) =>
    let hasNull := types.any Json.isNull
    let map := (types.find? fun t => !t.isNull).elim map fun first => OrdMap.insertList "type" first map
    if hasNull then OrdMap.insertList "nullable" (.bool true) map else map
  | _ => map

theorem mem_foldType {map : Map} {e : String × Json} (h : e ∈ foldType map) : e ∈ map ∨
    ∃ types, OrdMap.lookupList "type" map = some (.arr types) ∧
      (e = ("nullable", .bool true) ∨ e.1 = "type" ∧ e.2 ∈ types) := by
  unfold foldType at h
  split at h
  · rename_i types htypes
    have hfirst (h : e ∈ (types.find? fun t => !t.isNull).elim map fun first => OrdMap.insertList "type" first map) :
        e ∈ map ∨ e.1 = "type" ∧ e.2 ∈ types := by
      cases hfind : types.find? fun t => !t.isNull with
      | some first =>
        rw [hfind] at h
        rcases OrdMap.mem_insertList h with rfl | h
        · exact .inr ⟨rfl, List.mem_of_find?_eq_some hfind⟩
        · exact .inl h
      | none =>
        rw [hfind] at h
        exact .inl h
    dsimp only at h
    split_ifs at h with hnull
    · rcases OrdMap.mem_insertList h with h | h
      · exact .inr ⟨types, htypes, .inl h⟩
      · exact (hfirst h).imp_right fun h => ⟨types, htypes, .inr h⟩
    · exact (hfirst h).imp_right fun h => ⟨types, htypes, .inr h⟩
  · exact .inl h

theorem sizeOf_snd_lt {map : Map} {e : String × Json} (h : e ∈ map) : sizeOf e.2 < sizeOf map := by
  obtain ⟨k, v⟩ := e
  have hlt := List.sizeOf_lt_of_mem h
  rw [Prod.mk.sizeOf_spec] at hlt
  dsimp only
  omega

theorem sizeOf_foldType {map : Map} {e : String × Json} (h : e ∈ foldType (dropUnsupported map)) :
    sizeOf e.2 < sizeOf map := by
  rcases mem_foldType h with h | ⟨types, htypes, h⟩
  · exact sizeOf_snd_lt (List.mem_of_mem_filter h)
  · have harr := sizeOf_snd_lt (List.mem_of_mem_filter (OrdMap.mem_of_lookupList htypes))
    rw [Json.arr.sizeOf_spec] at harr
    rcases h with rfl | ⟨-, h⟩
    · have hpos : 0 < sizeOf types := by cases types <;> simp
      change 2 < _
      omega
    · have := List.sizeOf_lt_of_mem h
      omega

def sanitizeGeminiSchema : Json → Json
  | .obj map => .obj ((foldType (dropUnsupported map)).attach.map fun e => (e.1.1, sanitizeGeminiSchema e.1.2))
  | .arr arr => .arr (arr.map sanitizeGeminiSchema)
  | .null => .null
  | .bool b => .bool b
  | .num text => .num text
  | .str s => .str s
termination_by v => sizeOf v
decreasing_by
  · have := sizeOf_foldType e.2
    rw [Json.obj.sizeOf_spec]
    omega
  · have := List.sizeOf_lt_of_mem ‹_›
    rw [Json.arr.sizeOf_spec]
    omega

theorem sanitize_obj (map : Map) : sanitizeGeminiSchema (.obj map) =
    .obj ((foldType (dropUnsupported map)).map fun e => (e.1, sanitizeGeminiSchema e.2)) := by
  rw [sanitizeGeminiSchema]
  exact congrArg Json.obj (List.attach_map_val (f := fun e : String × Json => (e.1, sanitizeGeminiSchema e.2)))

theorem sanitize_arr (arr : List Json) :
    sanitizeGeminiSchema (.arr arr) = .arr (arr.map sanitizeGeminiSchema) := by
  rw [sanitizeGeminiSchema]

/-- The goal schema of the setup that `build_setup_config` makes. -/
def setupGoalSchema (fromStr : String → Option Json) (schema : Json) : Json :=
  sanitizeGeminiSchema (augmentGoalSchema fromStr schema)

end Kutsu
