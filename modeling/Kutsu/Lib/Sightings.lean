import Mathlib.Data.List.Basic
import Mathlib.Data.List.Pairwise
import Mathlib.Order.Defs.Unbundled

/-! The values that were read of a keyed store, in the order of the reads. If a value only grows, or is lost for
good, then no read shows less than an earlier one of its key, and none shows a value that was found lost. -/

namespace Sightings

variable {κ α : Type*} {le : α → α → Prop} {get get' : κ → Option α} {gone gone' : κ → Prop}
  {seen : List (κ × Option α)}

theorem sublist_concat {β : Type*} {l l' : List β} {a b : β} (h : (l ++ [a]).Sublist (l' ++ [b])) :
    (l ++ [a]).Sublist l' ∨ l.Sublist l' ∧ a = b := by
  obtain ⟨l₁, l₂, heq, h₁, h₂⟩ := List.sublist_append_iff.mp h
  rcases List.sublist_singleton.mp h₂ with rfl | rfl
  · rw [List.append_nil] at heq
    exact Or.inl (heq ▸ h₁)
  · obtain ⟨rfl, hab⟩ := List.append_inj' heq rfl
    exact Or.inr ⟨h₁, List.singleton_inj.mp hab⟩

/-- The reads fit what the store holds now. -/
structure Coherent (le : α → α → Prop) (get : κ → Option α) (gone : κ → Prop) (seen : List (κ × Option α)) :
    Prop where
  now : ∀ k a, (k, some a) ∈ seen → (∃ b, get k = some b ∧ le a b) ∨ gone k
  order : seen.Pairwise fun x y => ∀ a b, x = (y.1, some a) → y.2 = some b → le a b
  lost : ∀ k a, [(k, some a), (k, none)].Sublist seen → gone k
  final : ∀ k a b, ¬ [(k, some a), (k, none), (k, some b)].Sublist seen

theorem Coherent.nil : Coherent le get gone [] :=
  ⟨fun _ _ h => (by cases h), .nil, fun _ _ h => (by cases h), fun _ _ _ h => by cases h⟩

theorem Coherent.move [IsPreorder α le] (h : Coherent le get gone seen)
    (hmove : ∀ k a, get k = some a → (∃ b, get' k = some b ∧ le a b) ∨ gone' k) (hgone : ∀ k, gone k → gone' k) :
    Coherent le get' gone' seen := by
  refine ⟨fun k a ha => ?_, h.order, fun k a hsub => hgone k (h.lost k a hsub), h.final⟩
  rcases h.now k a ha with ⟨b, hb, hab⟩ | hg
  · rcases hmove k b hb with ⟨c, hc, hbc⟩ | hg
    · exact Or.inl ⟨c, hc, IsTrans.trans _ _ _ hab hbc⟩
    · exact Or.inr hg
  · exact Or.inr (hgone k hg)

theorem Coherent.read [IsPreorder α le] (h : Coherent le get gone seen) (hgone : ∀ k, gone k → get k = none) (k : κ) :
    Coherent le get gone (seen ++ [(k, get k)]) := by
  refine ⟨fun i a ha => ?_, ?_, fun i a hsub => ?_, fun i a b hsub => ?_⟩
  · rcases List.mem_append.mp ha with ha | ha
    · exact h.now i a ha
    · obtain ⟨rfl, hget⟩ := Prod.mk.inj (List.mem_singleton.mp ha)
      exact Or.inl ⟨a, hget.symm, refl a⟩
  · refine List.pairwise_append.mpr ⟨h.order, List.pairwise_singleton _ _, fun x hx y hy a b hxa hyb => ?_⟩
    obtain rfl := List.mem_singleton.mp hy
    subst hxa
    rcases h.now k a hx with ⟨c, hc, hac⟩ | hg
    · obtain rfl := Option.some.inj (hc.symm.trans hyb)
      exact hac
    · rw [hgone k hg] at hyb
      cases hyb
  · rcases sublist_concat (l := [(i, some a)]) hsub with hold | ⟨hin, heq⟩
    · exact h.lost i a hold
    · obtain ⟨rfl, hnone⟩ := Prod.mk.inj heq
      rcases h.now i a (List.singleton_sublist.mp hin) with ⟨b, hb, -⟩ | hg
      · rw [hb] at hnone
        cases hnone
      · exact hg
  · rcases sublist_concat (l := [(i, some a), (i, none)]) hsub with hold | ⟨hin, heq⟩
    · exact h.final i a b hold
    · obtain ⟨rfl, hsome⟩ := Prod.mk.inj heq
      rw [hgone i (h.lost i a hin)] at hsome
      cases hsome

end Sightings
