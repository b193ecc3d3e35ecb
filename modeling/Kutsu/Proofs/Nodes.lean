import Kutsu.Lib.Tree
import Kutsu.Proofs.Setup

/-! What sanitizing leaves of a JSON Schema's own structure. The keys it takes out are taken
out of every object, the maps of user-chosen names among them: a node is left exactly if no
key on its path is one of them, so that a property of such a name is lost, and so is what a
reference into `$defs` stands for. -/

namespace Kutsu

open OrdMap (lookupList)
open Fields Trees

def Json.isSchema : Json → Bool
  | .obj _ | .bool _ => true
  | _ => false

/-- The keywords that hold a schema, a list of schemas, or schemas by name. -/
structure Vocabulary where
  one : List String
  many : List String
  named : List String
  properties_mem : "properties" ∈ named
  apart : ∀ k ∈ one ++ many ++ named, k ≠ "type" ∧ k ≠ "nullable"

namespace Vocabulary

/-- A schema directly under another, and the keys that lead there. -/
inductive Child (V : Vocabulary) : Json → List String → Json → Prop where
  | one {v c : Json} {k : String} : k ∈ V.one → v.get k = some c → c.isSchema = true → V.Child v [k] c
  | many {v c : Json} {k : String} {xs : List Json} {i : ℕ} : k ∈ V.many → v.get k = some (.arr xs) →
      xs[i]? = some c → c.isSchema = true → V.Child v [k, toString i] c
  | named {v c : Json} {k name : String} {m : Map} : k ∈ V.named → v.get k = some (.obj m) →
      lookupList name m = some c → c.isSchema = true → V.Child v [k, name] c

abbrev Node (V : Vocabulary) : Json → List String → Json → Prop := At V.Child

def NamesSchemas (V : Vocabulary) (v : Json) : Prop :=
  ∀ k ∈ V.named, ∀ m, v.get k = some (.obj m) → ∀ e ∈ m, e.2.isSchema = true

/-- At every node what stands by name is a schema. -/
def IsSchema (V : Vocabulary) (v : Json) : Prop := Everywhere V.Child V.NamesSchemas v

/-- The keywords of the 2020-12 draft, with those it replaced that are still taken out. -/
def draft2020 : Vocabulary where
  one := ["additionalProperties", "unevaluatedProperties", "additionalItems", "unevaluatedItems", "items",
    "contains", "contentSchema", "propertyNames", "not", "if", "then", "else"]
  many := ["allOf", "anyOf", "oneOf", "prefixItems", "items"]
  named := ["properties", "patternProperties", "$defs", "definitions", "dependentSchemas"]
  properties_mem := by decide
  apart := by decide

variable {V : Vocabulary} {k : String}

theorem apart_one (h : k ∈ V.one) : k ≠ "type" ∧ k ≠ "nullable" :=
  V.apart k (List.mem_append_left _ (List.mem_append_left _ h))

theorem apart_many (h : k ∈ V.many) : k ≠ "type" ∧ k ≠ "nullable" :=
  V.apart k (List.mem_append_left _ (List.mem_append_right _ h))

theorem apart_named (h : k ∈ V.named) : k ≠ "type" ∧ k ≠ "nullable" := V.apart k (List.mem_append_right _ h)

end Vocabulary

def Declares (n : Json) (name : String) (c : Json) : Prop := (n.get "properties").bind (Json.get name) = some c

def Requires (n : Json) (name : String) : Prop := ∃ xs, n.get "required" = some (.arr xs) ∧ Json.str name ∈ xs

/-- A key that sanitizing leaves. -/
def Stays (k : String) : Prop := k ∉ geminiUnsupportedSchemaKeys

instance (k : String) : Decidable (Stays k) := inferInstanceAs (Decidable (k ∉ geminiUnsupportedSchemaKeys))

theorem isSchema_sanitize (v : Json) : (sanitizeGeminiSchema v).isSchema = v.isSchema := by
  cases v with
  | obj m => rw [sanitize_obj]; rfl
  | arr xs => rw [sanitize_arr]; rfl
  | _ => rw [sanitizeGeminiSchema]

theorem sanitize_eq_arr {v : Json} {ys : List Json} (h : sanitizeGeminiSchema v = .arr ys) :
    ∃ xs, v = .arr xs ∧ ys = xs.map sanitizeGeminiSchema := by
  cases v with
  | arr xs =>
    rw [sanitize_arr] at h
    exact ⟨xs, rfl, (Json.arr.inj h).symm⟩
  | obj m =>
    rw [sanitize_obj] at h
    cases h
  | _ =>
    rw [sanitizeGeminiSchema] at h
    cases h

theorem sanitize_eq_obj {v : Json} {m' : Map} (h : sanitizeGeminiSchema v = .obj m') :
    ∃ m, v = .obj m ∧ sanitizeGeminiSchema (.obj m) = .obj m' := by
  cases v with
  | obj m => exact ⟨m, rfl, h⟩
  | arr xs =>
    rw [sanitize_arr] at h
    cases h
  | _ =>
    rw [sanitizeGeminiSchema] at h
    cases h

theorem kept_iff {o : Option Json} {k : String} {c' : Json} :
    (if geminiUnsupportedSchemaKeys.contains k then none else o.map sanitizeGeminiSchema) = some c' ↔
      Stays k ∧ ∃ c, o = some c ∧ c' = sanitizeGeminiSchema c := by
  unfold Stays
  rw [← List.contains_iff_mem]
  cases geminiUnsupportedSchemaKeys.contains k with
  | true => simp
  | false =>
    simp only [Bool.false_eq_true, if_false, not_false_eq_true, true_and, Option.map_eq_some_iff]
    exact exists_congr fun c => and_congr_right fun _ => eq_comm

theorem get_sanitize_iff {v c' : Json} {k : String} (hk : k ≠ "type" ∧ k ≠ "nullable") :
    (sanitizeGeminiSchema v).get k = some c' ↔ Stays k ∧ ∃ c, v.get k = some c ∧ c' = sanitizeGeminiSchema c := by
  rw [get_sanitize (.inl hk), kept_iff]

theorem lookup_sanitize_iff {m m' : Map} {c' : Json} {name : String} (hm : ∀ e ∈ m, e.2.isSchema = true)
    (h : sanitizeGeminiSchema (.obj m) = .obj m') :
    lookupList name m' = some c' ↔ Stays name ∧ ∃ c, lookupList name m = some c ∧ c' = sanitizeGeminiSchema c := by
  have htype : ∀ types, (Json.obj m).get "type" ≠ some (.arr types) := fun types htypes =>
    absurd (hm _ (OrdMap.mem_of_lookupList htypes)) (by simp [Json.isSchema])
  rw [← Json.get_obj, ← h, get_sanitize (.inr htype), kept_iff]
  rfl

theorem stays_index (i : ℕ) : Stays (toString i) := by
  intro hmem
  have hall : (geminiUnsupportedSchemaKeys.all fun k => k.toList.any fun c => !c.isDigit) = true := by decide +kernel
  obtain ⟨c, hc, hdigit⟩ := List.any_eq_true.mp (List.all_eq_true.mp hall _ hmem)
  rw [Nat.toString_eq_repr, Nat.toList_repr] at hc
  have htrue : c.isDigit = true := Nat.isDigit_of_mem_toDigits (by decide) (by decide) hc
  rw [htrue] at hdigit
  cases hdigit

/-- Sanitizing keeps the steps whose keys it does not take out. -/
theorem sanitize_prunes (V : Vocabulary) : Prunes V.Child Stays V.NamesSchemas sanitizeGeminiSchema where
  keeps v ks c hgood hchild hkeep := by
    have hk₀ : ∀ {k : String} {ks : List String}, (∀ k' ∈ k :: ks, Stays k') → Stays k :=
      fun h => h _ List.mem_cons_self
    cases hchild with
    | one hk hget hc =>
      have hget' := (get_sanitize_iff (Vocabulary.apart_one hk)).mpr ⟨hk₀ hkeep, c, hget, rfl⟩
      exact .one hk hget' ((isSchema_sanitize c).trans hc)
    | @many _ k xs i hk hget hi hc =>
      have hget' := (get_sanitize_iff (Vocabulary.apart_many hk)).mpr ⟨hk₀ hkeep, _, hget, rfl⟩
      rw [sanitize_arr] at hget'
      refine .many hk hget' ?_ ((isSchema_sanitize c).trans hc)
      rw [List.getElem?_map, hi]
      rfl
    | @named _ k name m hk hget hname hc =>
      have hget' := (get_sanitize_iff (Vocabulary.apart_named hk)).mpr ⟨hk₀ hkeep, _, hget, rfl⟩
      obtain ⟨m', hm'⟩ : ∃ m', sanitizeGeminiSchema (.obj m) = .obj m' := ⟨_, sanitize_obj m⟩
      rw [hm'] at hget'
      have hstays : Stays name := hkeep name (List.mem_cons_of_mem _ (List.mem_singleton_self _))
      have hname' := (lookup_sanitize_iff (hgood k hk m hget) hm').mpr ⟨hstays, c, hname, rfl⟩
      exact .named hk hget' hname' ((isSchema_sanitize c).trans hc)
  origin v ks c' hgood hchild := by
    cases hchild with
    | one hk hget' hc =>
      obtain ⟨hstays, c, hget, rfl⟩ := (get_sanitize_iff (Vocabulary.apart_one hk)).mp hget'
      exact ⟨c, .one hk hget ((isSchema_sanitize c).symm.trans hc), List.forall_mem_singleton.mpr hstays, rfl⟩
    | @many _ k ys i hk hget' hi' hc =>
      obtain ⟨hstays, w, hget, hw⟩ := (get_sanitize_iff (Vocabulary.apart_many hk)).mp hget'
      obtain ⟨xs, rfl, rfl⟩ := sanitize_eq_arr hw.symm
      rw [List.getElem?_map] at hi'
      obtain ⟨c, hi, rfl⟩ := Option.map_eq_some_iff.mp hi'
      refine ⟨c, .many hk hget hi ((isSchema_sanitize c).symm.trans hc), ?_, rfl⟩
      exact List.forall_mem_cons.mpr ⟨hstays, List.forall_mem_singleton.mpr (stays_index i)⟩
    | @named _ k name m' hk hget' hname' hc =>
      obtain ⟨hstays, w, hget, hw⟩ := (get_sanitize_iff (Vocabulary.apart_named hk)).mp hget'
      obtain ⟨m, rfl, hm'⟩ := sanitize_eq_obj hw.symm
      obtain ⟨hname_stays, c, hname, rfl⟩ := (lookup_sanitize_iff (hgood k hk m hget) hm').mp hname'
      refine ⟨c, .named hk hget hname ((isSchema_sanitize c).symm.trans hc), ?_, rfl⟩
      exact List.forall_mem_cons.mpr ⟨hstays, List.forall_mem_singleton.mpr hname_stays⟩

section Contents

variable {V : Vocabulary} {n c' : Json} {name : String}

theorem declares_sanitize_iff (hgood : V.NamesSchemas n) : Declares (sanitizeGeminiSchema n) name c' ↔
    Stays name ∧ ∃ c, Declares n name c ∧ c' = sanitizeGeminiSchema c := by
  have hprops : ("properties" ≠ "type") ∧ "properties" ≠ "nullable" := by decide
  have hstays : Stays "properties" := by decide
  unfold Declares
  constructor
  · intro h
    obtain ⟨p', hp', hname⟩ := Option.bind_eq_some_iff.mp h
    obtain ⟨-, p, hp, rfl⟩ := (get_sanitize_iff hprops).mp hp'
    cases hm' : sanitizeGeminiSchema p with
    | obj m' =>
      obtain ⟨m, rfl, hm'⟩ := sanitize_eq_obj hm'
      rw [hm'] at hname
      obtain ⟨hstays, c, hc, rfl⟩ := (lookup_sanitize_iff (hgood _ V.properties_mem m hp) hm').mp hname
      exact ⟨hstays, c, Option.bind_eq_some_iff.mpr ⟨_, hp, hc⟩, rfl⟩
    | _ =>
      rw [hm'] at hname
      cases hname
  · rintro ⟨hname, c, h, rfl⟩
    obtain ⟨p, hp, hc⟩ := Option.bind_eq_some_iff.mp h
    refine Option.bind_eq_some_iff.mpr ⟨_, (get_sanitize_iff hprops).mpr ⟨hstays, p, hp, rfl⟩, ?_⟩
    cases p with
    | obj m =>
      obtain ⟨m', hm'⟩ : ∃ m', sanitizeGeminiSchema (.obj m) = .obj m' := ⟨_, sanitize_obj m⟩
      rw [hm']
      exact (lookup_sanitize_iff (hgood _ V.properties_mem m hp) hm').mpr ⟨hname, c, hc, rfl⟩
    | _ => cases hc

theorem requires_sanitize (h : Requires (sanitizeGeminiSchema n) name) : Requires n name := by
  obtain ⟨ys, hget', hmem⟩ := h
  obtain ⟨-, w, hget, hw⟩ := (get_sanitize_iff (by decide)).mp hget'
  obtain ⟨xs, rfl, rfl⟩ := sanitize_eq_arr hw.symm
  obtain ⟨v, hv, hstr⟩ := List.mem_map.mp hmem
  obtain rfl := sanitize_eq_str hstr
  exact ⟨xs, hget, hv⟩

theorem ref_sanitize_iff {s : String} :
    (sanitizeGeminiSchema n).get "$ref" = some (.str s) ↔ n.get "$ref" = some (.str s) := by
  rw [get_sanitize_iff (by decide)]
  constructor
  · rintro ⟨-, w, hget, hw⟩
    rwa [sanitize_eq_str hw.symm] at hget
  · intro hget
    exact ⟨by decide, _, hget, (sanitize_str s).symm⟩

end Contents

/-- Every declared property is still declared at the node it was declared at, sanitized. -/
def KeepsProperties (V : Vocabulary) (v : Json) : Prop := ∀ p n name c, V.Node v p n → Declares n name c →
  ∃ n', V.Node (sanitizeGeminiSchema v) p n' ∧ Declares n' name (sanitizeGeminiSchema c)

/-- Every required name is declared and every local reference leads to a schema. `ref` is the
path that a local reference stands for. -/
structure Closed (V : Vocabulary) (ref : String → Option (List String)) (v : Json) : Prop where
  required : ∀ p n name, V.Node v p n → Requires n name → ∃ c, Declares n name c
  resolved : ∀ p n s q, V.Node v p n → n.get "$ref" = some (.str s) → ref s = some q → ∃ t, V.Node v q t

variable {V : Vocabulary} {ref : String → Option (List String)} {v : Json}

theorem node_sanitize_iff (hv : V.IsSchema v) {p : List String} {m : Json} : V.Node (sanitizeGeminiSchema v) p m ↔
    ∃ n, V.Node v p n ∧ (∀ k ∈ p, Stays k) ∧ m = sanitizeGeminiSchema n :=
  (sanitize_prunes V).at_iff hv

theorem keepsProperties_iff (hv : V.IsSchema v) : KeepsProperties V v ↔
    ∀ p n name c, V.Node v p n → Declares n name c → (∀ k ∈ p, Stays k) ∧ Stays name := by
  constructor
  · intro h p n name c hn hdecl
    obtain ⟨n', hn', hdecl'⟩ := h p n name c hn hdecl
    obtain ⟨n₀, hn₀, hp, rfl⟩ := (node_sanitize_iff hv).mp hn'
    exact ⟨hp, ((declares_sanitize_iff (hv p n₀ hn₀)).mp hdecl').1⟩
  · intro h p n name c hn hdecl
    obtain ⟨hp, hname⟩ := h p n name c hn hdecl
    refine ⟨_, (node_sanitize_iff hv).mpr ⟨n, hn, hp, rfl⟩, ?_⟩
    exact (declares_sanitize_iff (hv p n hn)).mpr ⟨hname, c, hdecl, rfl⟩

/-- Where the properties are kept, a closed schema stays closed exactly if every reference
that is left leads along keys that are left. -/
theorem closed_sanitize_iff (hv : V.IsSchema v) (hkeep : KeepsProperties V v) (hclosed : Closed V ref v) :
    Closed V ref (sanitizeGeminiSchema v) ↔ ∀ p n s q, V.Node v p n → (∀ k ∈ p, Stays k) →
      n.get "$ref" = some (.str s) → ref s = some q → ∀ k ∈ q, Stays k := by
  constructor
  · intro h p n s q hn hp hs hq
    obtain ⟨t', ht'⟩ := h.resolved p _ s q ((node_sanitize_iff hv).mpr ⟨n, hn, hp, rfl⟩) (ref_sanitize_iff.mpr hs) hq
    obtain ⟨-, -, hkeys, -⟩ := (node_sanitize_iff hv).mp ht'
    exact hkeys
  · intro h
    refine ⟨fun p n' name hn' hreq => ?_, fun p n' s q hn' hs hq => ?_⟩
    · obtain ⟨n, hn, -, rfl⟩ := (node_sanitize_iff hv).mp hn'
      obtain ⟨c, hdecl⟩ := hclosed.required p n name hn (requires_sanitize hreq)
      have hname := ((keepsProperties_iff hv).mp hkeep p n name c hn hdecl).2
      exact ⟨_, (declares_sanitize_iff (hv p n hn)).mpr ⟨hname, c, hdecl, rfl⟩⟩
    · obtain ⟨n, hn, hp, rfl⟩ := (node_sanitize_iff hv).mp hn'
      have hs := ref_sanitize_iff.mp hs
      obtain ⟨t, ht⟩ := hclosed.resolved p n s q hn hs hq
      exact ⟨_, (node_sanitize_iff hv).mpr ⟨t, ht, h p n s q hn hp hs hq, rfl⟩⟩

/-- A schema keeps its properties and stays closed exactly if no property is declared along a
key that is taken out and, it being closed, no reference leads along one. -/
theorem sanitize_keeps_iff (hv : V.IsSchema v) :
    KeepsProperties V v ∧ (Closed V ref v → Closed V ref (sanitizeGeminiSchema v)) ↔
      (∀ p n name c, V.Node v p n → Declares n name c → (∀ k ∈ p, Stays k) ∧ Stays name) ∧
      (Closed V ref v → ∀ p n s q, V.Node v p n → (∀ k ∈ p, Stays k) →
        n.get "$ref" = some (.str s) → ref s = some q → ∀ k ∈ q, Stays k) := by
  rw [keepsProperties_iff hv]
  refine and_congr_right fun hkeep => forall_congr' fun hclosed => ?_
  exact closed_sanitize_iff hv ((keepsProperties_iff hv).mpr hkeep) hclosed

def unescape : List Char → List Char
  | '~' :: '1' :: cs => '/' :: unescape cs
  | '~' :: '0' :: cs => '~' :: unescape cs
  | c :: cs => c :: unescape cs
  | [] => []

def localRef (s : String) : Option (List String) :=
  match s.toList.splitOn '/' with
  | ['#'] :: tokens => some (tokens.map fun t => String.ofList (unescape t))
  | _ => none

def refersHome : Json := .obj [("$ref", .str "#")]

/-- A schema of one property, which refers back to the whole and is required. -/
def oneProperty (name : String) : Json :=
  .obj [("properties", .obj [(name, refersHome)]), ("required", .strs [name])]

section OneProperty

variable {name k : String} {ks p : List String} {c n : Json}

theorem get_refersHome (h : refersHome.get k = some c) : k = "$ref" ∧ c = .str "#" := by
  by_cases hk : k = "$ref"
  · subst hk
    exact ⟨rfl, (Option.some.inj h).symm⟩
  · have hnone : refersHome.get k = none := OrdMap.lookupList_cons_ne (Ne.symm hk) []
    rw [hnone] at h
    cases h

theorem refersHome_childless : ¬ Vocabulary.draft2020.Child refersHome ks c := by
  intro h
  cases h with
  | one hk h _ => exact absurd ((get_refersHome h).1 ▸ hk) (by decide)
  | many hk h _ _ => exact absurd ((get_refersHome h).1 ▸ hk) (by decide)
  | named hk h _ _ => exact absurd ((get_refersHome h).1 ▸ hk) (by decide)

theorem get_oneProperty (h : (oneProperty name).get k = some c) :
    k = "properties" ∧ c = .obj [(name, refersHome)] ∨ k = "required" ∧ c = .strs [name] := by
  by_cases hp : k = "properties"
  · subst hp
    exact .inl ⟨rfl, (Option.some.inj h).symm⟩
  · by_cases hr : k = "required"
    · subst hr
      exact .inr ⟨rfl, (Option.some.inj h).symm⟩
    · have hnone : (oneProperty name).get k = none :=
        (OrdMap.lookupList_cons_ne (Ne.symm hp) _).trans (OrdMap.lookupList_cons_ne (Ne.symm hr) [])
      rw [hnone] at h
      cases h

theorem child_oneProperty (h : Vocabulary.draft2020.Child (oneProperty name) ks c) :
    ks = ["properties", name] ∧ c = refersHome := by
  cases h with
  | one hk h _ =>
    rcases get_oneProperty h with ⟨rfl, -⟩ | ⟨rfl, -⟩
    · exact absurd hk (by decide)
    · exact absurd hk (by decide)
  | many hk h _ _ =>
    rcases get_oneProperty h with ⟨rfl, -⟩ | ⟨rfl, -⟩
    · exact absurd hk (by decide)
    · exact absurd hk (by decide)
  | @named _ k name' m hk h hname _ =>
    rcases get_oneProperty h with ⟨rfl, hm⟩ | ⟨rfl, -⟩
    · obtain rfl := Json.obj.inj hm
      by_cases hne : name = name'
      · subst hne
        rw [OrdMap.lookupList_cons_self] at hname
        exact ⟨rfl, (Option.some.inj hname).symm⟩
      · rw [OrdMap.lookupList_cons_ne hne] at hname
        cases hname
    · exact absurd hk (by decide)

theorem node_oneProperty (h : Vocabulary.draft2020.Node (oneProperty name) p n) :
    p = [] ∧ n = oneProperty name ∨ p = ["properties", name] ∧ n = refersHome := by
  cases h with
  | here => exact .inl ⟨rfl, rfl⟩
  | down hc h =>
    obtain ⟨rfl, rfl⟩ := child_oneProperty hc
    cases h with
    | here => exact .inr ⟨rfl, rfl⟩
    | down hc _ => exact absurd hc refersHome_childless

theorem isSchema_oneProperty (name : String) : Vocabulary.draft2020.IsSchema (oneProperty name) := by
  intro p n hn k hk m hm e he
  rcases node_oneProperty hn with ⟨-, rfl⟩ | ⟨-, rfl⟩
  · rcases get_oneProperty hm with ⟨-, hm⟩ | ⟨-, hm⟩
    · obtain rfl := Json.obj.inj hm
      rw [List.mem_singleton.mp he]
      rfl
    · cases hm
  · cases (get_refersHome hm).2

theorem declares_oneProperty (name : String) : Declares (oneProperty name) name refersHome :=
  Option.bind_eq_some_iff.mpr ⟨_, rfl, OrdMap.lookupList_cons_self _ _ _⟩

theorem property_oneProperty {name' : String} (hn : Vocabulary.draft2020.Node (oneProperty name) p n)
    (h : Declares n name' c) : p = [] ∧ name' = name := by
  obtain ⟨v, hv, hc⟩ := Option.bind_eq_some_iff.mp h
  rcases node_oneProperty hn with ⟨hp, rfl⟩ | ⟨-, rfl⟩
  · refine ⟨hp, ?_⟩
    by_contra hne
    obtain rfl := Option.some.inj hv
    cases (OrdMap.lookupList_cons_ne (Ne.symm hne) []).symm.trans hc
  · cases (get_refersHome hv).2
    cases hc

theorem required_oneProperty {name' : String} (hn : Vocabulary.draft2020.Node (oneProperty name) p n)
    (h : Requires n name') : Declares n name' refersHome := by
  obtain ⟨xs, hxs, hmem⟩ := h
  rcases node_oneProperty hn with ⟨-, rfl⟩ | ⟨-, rfl⟩
  · obtain rfl := Json.arr.inj (Option.some.inj hxs)
    obtain rfl := Json.str.inj (List.mem_singleton.mp hmem)
    exact declares_oneProperty name'
  · cases (get_refersHome hxs).2

theorem ref_oneProperty {s : String} {q : List String} (hn : Vocabulary.draft2020.Node (oneProperty name) p n)
    (hs : n.get "$ref" = some (.str s)) (hq : localRef s = some q) : q = [] := by
  rcases node_oneProperty hn with ⟨-, rfl⟩ | ⟨-, rfl⟩
  · cases hs
  · obtain rfl := Json.str.inj (Option.some.inj hs)
    exact (Option.some.inj hq).symm

end OneProperty

theorem sanitize_keeps_address : KeepsProperties .draft2020 (oneProperty "address") ∧
    (Closed .draft2020 localRef (oneProperty "address") →
      Closed .draft2020 localRef (sanitizeGeminiSchema (oneProperty "address"))) := by
  refine (sanitize_keeps_iff (isSchema_oneProperty "address")).mpr
    ⟨fun p n name c hn h => ?_, fun _ p n s q hn _ hs hq => ?_⟩
  · obtain ⟨rfl, rfl⟩ := property_oneProperty hn h
    exact ⟨by decide, by decide⟩
  · rw [ref_oneProperty hn hs hq]
    exact List.forall_mem_nil _

/-- A property of that name is lost and still required. -/
theorem sanitize_loses_definitions : ¬ KeepsProperties .draft2020 (oneProperty "definitions") ∧
    ¬ (Closed .draft2020 localRef (oneProperty "definitions") →
      Closed .draft2020 localRef (sanitizeGeminiSchema (oneProperty "definitions"))) := by
  have hgood := isSchema_oneProperty "definitions"
  have hlost : ¬ Stays "definitions" := by decide
  have hroot : Vocabulary.draft2020.Node (oneProperty "definitions") [] (oneProperty "definitions") := At.here _
  have hreq : Requires (sanitizeGeminiSchema (oneProperty "definitions")) "definitions" :=
    ⟨_, (get_sanitize_iff (by decide)).mpr ⟨by decide, _, rfl, (sanitize_strs ["definitions"]).symm⟩,
      List.mem_singleton_self _⟩
  refine ⟨fun h => ?_, fun h => ?_⟩
  · exact hlost ((keepsProperties_iff hgood).mp h _ _ _ _ hroot (declares_oneProperty "definitions")).2
  · have hclosed : Closed .draft2020 localRef (oneProperty "definitions") := by
      refine ⟨fun p n name hn hname => ⟨_, required_oneProperty hn hname⟩, fun p n s q hn hs hq => ?_⟩
      exact ⟨_, ref_oneProperty hn hs hq ▸ hroot⟩
    obtain ⟨c, hdecl⟩ := (h hclosed).required [] _ "definitions" (At.here _) hreq
    exact hlost ((declares_sanitize_iff hgood.root).mp hdecl).1

end Kutsu
