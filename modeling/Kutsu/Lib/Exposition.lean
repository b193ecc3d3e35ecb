import Mathlib.Data.List.Basic
import Mathlib.Tactic.Common

/-! The text format that metrics are exposed in: lines with a help text or the type of a series, and its samples.
What is written is read back. -/

namespace Exposition

inductive Item where
  | help (name text : List Char)
  | type (name kind : List Char)
  | sample (name : List Char) (value : ℕ)
  deriving DecidableEq

/-- The lines of a text; what follows the last line break is one more. -/
def lines : List Char → List (List Char)
  | [] => [[]]
  | c :: cs =>
    if c = '\n' then [] :: lines cs
    else
      match lines cs with
      | l :: ls => (c :: l) :: ls
      | [] => [[c]]

/-- The line up to its first blank, and the rest. -/
def word (l : List Char) : List Char × List Char := (l.takeWhile (· ≠ ' '), (l.dropWhile (· ≠ ' ')).drop 1)

def helpHead : List Char := ['#', ' ', 'H', 'E', 'L', 'P', ' ']

def typeHead : List Char := ['#', ' ', 'T', 'Y', 'P', 'E', ' ']

def Item.line : Item → List Char
  | .help name text => helpHead ++ (name ++ ' ' :: text)
  | .type name kind => typeHead ++ (name ++ ' ' :: kind)
  | .sample name value => name ++ ' ' :: Nat.toDigits 10 value

/-- A line, as a scraper reads it. -/
def parseLine (l : List Char) : Option Item :=
  if helpHead <+: l then some (.help (word (l.drop 7)).1 (word (l.drop 7)).2)
  else if typeHead <+: l then some (.type (word (l.drop 7)).1 (word (l.drop 7)).2)
  else if (word l).2 ≠ [] ∧ (word l).2.all Char.isDigit then
    some (.sample (word l).1 (Nat.ofDigitChars 10 (word l).2 0))
  else none

/-- A text whose last line is ended. -/
def parse (text : List Char) : Option (List Item) :=
  match (lines text).getLast? with
  | some [] => (lines text).dropLast.mapM parseLine
  | _ => none

def render (items : List Item) : List Char := items.flatMap fun i => i.line ++ ['\n']

/-- The names hold no blank, no line is broken, and no series is called `#`. -/
def Item.WellFormed : Item → Prop
  | .help name text | .type name text => ' ' ∉ name ∧ '\n' ∉ name ∧ '\n' ∉ text
  | .sample name _ => ' ' ∉ name ∧ '\n' ∉ name ∧ name.head? ≠ some '#'

instance (i : Item) : Decidable i.WellFormed :=
  match i with
  | .help _ _ | .type _ _ | .sample _ _ => inferInstanceAs (Decidable (_ ∧ _ ∧ _))

variable {l rest : List Char} {i : Item} {items : List Item}

theorem lines_append (h : '\n' ∉ l) : lines (l ++ '\n' :: rest) = l :: lines rest := by
  induction l with
  | nil => simp [lines]
  | cons c l ih =>
    rw [List.mem_cons, not_or] at h
    rw [List.cons_append, lines, if_neg (Ne.symm h.1), ih h.2]

theorem word_append {name : List Char} (h : ' ' ∉ name) : word (name ++ ' ' :: rest) = (name, rest) := by
  have hall : ∀ c ∈ name, decide (c ≠ ' ') = true := fun c hc => decide_eq_true fun heq => h (heq ▸ hc)
  simp only [word, List.takeWhile_append_of_pos hall, List.dropWhile_append_of_pos hall]
  simp

theorem Item.WellFormed.line (h : i.WellFormed) : '\n' ∉ i.line := by
  cases i with
  | help name text | type name text =>
    obtain ⟨-, hname, htext⟩ := h
    simp [Item.line, helpHead, typeHead, hname, htext]
  | sample name value =>
    obtain ⟨-, hname, -⟩ := h
    have hdigits : '\n' ∉ Nat.toDigits 10 value := fun hc =>
      absurd (Nat.isDigit_of_mem_toDigits (by decide) (by decide) hc) (by decide)
    simp [Item.line, hname, hdigits]

theorem parseLine_line (h : i.WellFormed) : parseLine i.line = some i := by
  cases i with
  | help name text =>
    have hdrop : (Item.help name text).line.drop 7 = name ++ ' ' :: text := rfl
    rw [parseLine, if_pos ⟨_, rfl⟩, hdrop, word_append h.1]
  | type name kind =>
    have hdrop : (Item.type name kind).line.drop 7 = name ++ ' ' :: kind := rfl
    have hhelp : ¬ helpHead <+: (Item.type name kind).line := by
      simp [Item.line, helpHead, typeHead]
    rw [parseLine, if_neg hhelp, if_pos ⟨_, rfl⟩, hdrop, word_append h.1]
  | sample name value =>
    obtain ⟨hblank, -, hhash⟩ := h
    have hno : ∀ l : List Char, l.head? = some '#' → ¬ l <+: (Item.sample name value).line := by
      rintro l hl ⟨l', heq⟩
      obtain ⟨t, rfl⟩ := List.head?_eq_some_iff.mp hl
      cases name with
      | nil => simp [Item.line] at heq
      | cons c name =>
        obtain ⟨rfl, -⟩ := List.cons.inj heq
        exact hhash rfl
    have hdigits : ∀ c ∈ Nat.toDigits 10 value, c.isDigit = true := fun c hc =>
      Nat.isDigit_of_mem_toDigits (by decide) (by decide) hc
    have hne : Nat.toDigits 10 value ≠ [] := fun hnil => by
      have := @Nat.length_toDigits_pos 10 value
      rw [hnil] at this
      cases this
    rw [parseLine, if_neg (hno _ rfl), if_neg (hno _ rfl), Item.line, word_append hblank,
      if_pos ⟨hne, List.all_eq_true.mpr hdigits⟩, Nat.ofDigitChars_ten_toDigits]

theorem lines_render (h : ∀ i ∈ items, i.WellFormed) : lines (render items) = items.map Item.line ++ [[]] := by
  induction items with
  | nil => rfl
  | cons i items ih =>
    have hhead : render (i :: items) = i.line ++ '\n' :: render items := by simp [render]
    rw [hhead, lines_append (h i List.mem_cons_self).line, ih fun j hj => h j (List.mem_cons_of_mem _ hj)]
    rfl

theorem parse_render (h : ∀ i ∈ items, i.WellFormed) : parse (render items) = some items := by
  rw [parse, lines_render h, List.getLast?_concat, List.dropLast_concat]
  change (items.map Item.line).mapM parseLine = some items
  induction items with
  | nil => rfl
  | cons i items ih =>
    rw [List.map_cons, List.mapM_cons, parseLine_line (h i List.mem_cons_self),
      ih fun j hj => h j (List.mem_cons_of_mem _ hj)]
    rfl

def value (items : List Item) (name : List Char) : Option ℕ := items.findSome? fun
  | .sample n v => if n = name then some v else none
  | _ => none

theorem value_append (items items' : List Item) (name : List Char) :
    value (items ++ items') name = (value items name).or (value items' name) := List.findSome?_append

theorem value_flatMap {ρ : Type*} {rows : List ρ} {name : ρ → List Char} {v : ρ → ℕ} {its : ρ → List Item}
    (hits : ∀ r n, value (its r) n = if name r = n then some (v r) else none) (hnodup : (rows.map name).Nodup)
    {r : ρ} (hr : r ∈ rows) : value (rows.flatMap its) (name r) = some (v r) := by
  induction rows with
  | nil => cases hr
  | cons x rows ih =>
    obtain ⟨hx, hrest⟩ := List.nodup_cons.mp hnodup
    rw [List.flatMap_cons, value_append, hits]
    rcases List.mem_cons.mp hr with rfl | hin
    · rw [if_pos rfl, Option.some_or]
    · have hne : name x ≠ name r := fun heq => hx (heq ▸ List.mem_map_of_mem hin)
      rw [if_neg hne, Option.none_or]
      exact ih hrest hin

end Exposition
