import Mathlib.Data.List.Basic
import Mathlib.Tactic.Common

/-! Trees whose nodes are reached along paths of keys. A tree is given by what a single step
down reaches. A function prunes if it keeps exactly the steps over some of the keys; it then
keeps exactly the paths over these. -/

namespace Trees

variable {α κ : Type*}

inductive At (child : α → List κ → α → Prop) : α → List κ → α → Prop where
  | here (v : α) : At child v [] v
  | down {v c n : α} {ks p : List κ} : child v ks c → At child c p n → At child v (ks ++ p) n

variable {child : α → List κ → α → Prop} {keep : κ → Prop} {good : α → Prop} {f : α → α} {v n m : α} {p : List κ}

/-- A property of every node of a tree. -/
def Everywhere (child : α → List κ → α → Prop) (P : α → Prop) (v : α) : Prop := ∀ p n, At child v p n → P n

theorem Everywhere.root {P : α → Prop} (h : Everywhere child P v) : P v := h [] v (At.here v)

theorem Everywhere.below {P : α → Prop} {ks : List κ} {c : α} (h : Everywhere child P v) (hc : child v ks c) :
    Everywhere child P c := fun p n hat => h (ks ++ p) n (At.down hc hat)

theorem everywhere_iff {P : α → Prop} :
    Everywhere child P v ↔ P v ∧ ∀ ks c, child v ks c → Everywhere child P c := by
  refine ⟨fun h => ⟨h.root, fun ks c hc => h.below hc⟩, fun ⟨hroot, hbelow⟩ p n hat => ?_⟩
  cases hat with
  | here => exact hroot
  | down hc hat => exact hbelow _ _ hc _ n hat

/-- What `f` does to a single step from a value that is `good`. -/
structure Prunes (child : α → List κ → α → Prop) (keep : κ → Prop) (good : α → Prop) (f : α → α) : Prop where
  keeps : ∀ v ks c, good v → child v ks c → (∀ k ∈ ks, keep k) → child (f v) ks (f c)
  origin : ∀ v ks c', good v → child (f v) ks c' → ∃ c, child v ks c ∧ (∀ k ∈ ks, keep k) ∧ c' = f c

theorem Prunes.at_keeps (h : Prunes child keep good f) (hgood : Everywhere child good v) (hat : At child v p n)
    (hkeep : ∀ k ∈ p, keep k) : At child (f v) p (f n) := by
  induction hat with
  | here v => exact At.here (f v)
  | @down v c n ks p hc _ ih =>
    have hks : ∀ k ∈ ks, keep k := fun k hk => hkeep k (List.mem_append_left p hk)
    have hp : ∀ k ∈ p, keep k := fun k hk => hkeep k (List.mem_append_right ks hk)
    exact At.down (h.keeps v ks c hgood.root hc hks) (ih (hgood.below hc) hp)

theorem Prunes.at_origin (h : Prunes child keep good f) (hgood : Everywhere child good v)
    (hat : At child (f v) p m) : ∃ n, At child v p n ∧ (∀ k ∈ p, keep k) ∧ m = f n := by
  generalize hw : f v = w at hat
  induction hat generalizing v with
  | here w =>
    subst hw
    exact ⟨v, At.here v, fun k hk => absurd hk List.not_mem_nil, rfl⟩
  | @down w c' m ks p hstep _ ih =>
    subst hw
    obtain ⟨c, hc, hks, rfl⟩ := h.origin v ks c' hgood.root hstep
    obtain ⟨n, hn, hp, rfl⟩ := ih (hgood.below hc) rfl
    refine ⟨n, At.down hc hn, fun k hk => ?_, rfl⟩
    exact (List.mem_append.mp hk).elim (hks k) (hp k)

/-- The nodes that are left are the pruned nodes on the paths that are kept. -/
theorem Prunes.at_iff (h : Prunes child keep good f) (hgood : Everywhere child good v) :
    At child (f v) p m ↔ ∃ n, At child v p n ∧ (∀ k ∈ p, keep k) ∧ m = f n := by
  constructor
  · exact h.at_origin hgood
  · rintro ⟨n, hn, hp, rfl⟩
    exact h.at_keeps hgood hn hp

end Trees
