import Mathlib.Data.List.Infix
import Mathlib.Tactic.Common

/-! Finite runs of a partial step function, with the labels taken. Every step of
a run may be required to meet a condition on the state before it; `Always` is no
condition. An invariant is proved once for a step and holds of every run. -/

namespace Runs

variable {σ α : Type*}

def Always (_ : σ) (_ : α) : Prop := True

inductive Run (step : σ → α → Option σ) (ok : σ → α → Prop) (s₀ : σ) : List α → σ → Prop where
  | nil : Run step ok s₀ [] s₀
  | snoc {tr : List α} {s s' : σ} {a : α} :
      Run step ok s₀ tr s → ok s a → step s a = some s' → Run step ok s₀ (tr ++ [a]) s'

variable {step : σ → α → Option σ} {ok ok' : σ → α → Prop} {s₀ s₁ s₂ : σ} {tr tr' : List α}

theorem Run.weaken (hok : ∀ s a, ok s a → ok' s a) (h : Run step ok s₀ tr s₁) :
    Run step ok' s₀ tr s₁ := by
  induction h with
  | nil => exact Run.nil
  | snoc _ ha hs ih => exact Run.snoc ih (hok _ _ ha) hs

theorem Run.restrict (hok : ∀ s, ∀ a ∈ tr, ok' s a) (h : Run step ok s₀ tr s₁) :
    Run step ok' s₀ tr s₁ := by
  induction h with
  | nil => exact Run.nil
  | snoc _ _ hs ih =>
    exact Run.snoc (ih fun s a ha => hok s a (List.mem_append_left _ ha))
      (hok _ _ (List.mem_append_right _ (List.mem_singleton.mpr rfl))) hs

theorem Run.unconditional (h : Run step ok s₀ tr s₁) : Run step Always s₀ tr s₁ :=
  h.weaken fun _ _ _ => trivial

theorem Run.append (h₁ : Run step ok s₀ tr s₁) (h₂ : Run step ok s₁ tr' s₂) :
    Run step ok s₀ (tr ++ tr') s₂ := by
  induction h₂ with
  | nil => simpa using h₁
  | snoc _ ha hs ih => rw [← List.append_assoc]; exact Run.snoc ih ha hs

theorem Run.cons {a : α} (ha : ok s₀ a) (hs : step s₀ a = some s₁) (h : Run step ok s₁ tr s₂) :
    Run step ok s₀ (a :: tr) s₂ := by
  have first : Run step ok s₀ ([] ++ [a]) s₁ := Run.snoc Run.nil ha hs
  exact first.append h

/-- Where some step lowers the measure, some run reaches the goal. -/
theorem exists_run_of_progress {I goal : σ → Prop} (μ : σ → ℕ)
    (hstep : ∀ s, I s → ¬ goal s → ∃ a s', ok s a ∧ step s a = some s' ∧ I s' ∧ μ s' < μ s) {s : σ} (hs : I s) :
    ∃ tr s', Run step ok s tr s' ∧ goal s' := by
  induction hn : μ s using Nat.strong_induction_on generalizing s with
  | _ n ih =>
    by_cases hgoal : goal s
    · exact ⟨[], s, Run.nil, hgoal⟩
    · obtain ⟨a, s', ha, hs', hI, hlt⟩ := hstep s hs hgoal
      obtain ⟨tr, s'', hrun, hend⟩ := ih (μ s') (hn ▸ hlt) hI rfl
      exact ⟨a :: tr, s'', hrun.cons ha hs', hend⟩

theorem exists_run_of_descent {I goal : σ → Prop} (μ : σ → ℕ)
    (hrun : ∀ s, I s → ¬ goal s → ∃ tr s', Run step ok s tr s' ∧ I s' ∧ μ s' < μ s) {s : σ} (hs : I s) :
    ∃ tr s', Run step ok s tr s' ∧ I s' ∧ goal s' := by
  induction hn : μ s using Nat.strong_induction_on generalizing s with
  | _ n ih =>
    by_cases hgoal : goal s
    · exact ⟨[], s, Run.nil, hs, hgoal⟩
    · obtain ⟨tr, s', hfirst, hI, hlt⟩ := hrun s hs hgoal
      obtain ⟨tr', s'', hrest, hend⟩ := ih (μ s') (hn ▸ hlt) hI rfl
      exact ⟨tr ++ tr', s'', hfirst.append hrest, hend⟩

/-- What one step preserves, a run preserves. -/
theorem Run.invariant {I : σ → Prop} (hinit : I s₀)
    (hstep : ∀ s a s', I s → ok s a → step s a = some s' → I s') (h : Run step ok s₀ tr s₁) :
    I s₁ := by
  induction h with
  | nil => exact hinit
  | snoc _ ha hs ih => exact hstep _ _ _ ih ha hs

theorem Run.trace_invariant {I : List α → σ → Prop} (hinit : I [] s₀)
    (hstep : ∀ tr s a s', I tr s → ok s a → step s a = some s' → I (tr ++ [a]) s')
    (h : Run step ok s₀ tr s₁) : I tr s₁ := by
  induction h with
  | nil => exact hinit
  | snoc _ ha hs ih => exact hstep _ _ _ _ ih ha hs

theorem Run.target_unique (h : Run step ok s₀ tr s₁) (h' : Run step ok' s₀ tr s₂) : s₁ = s₂ := by
  induction h generalizing s₂ with
  | nil =>
    generalize hnil : [] = tr at h'
    cases h' with
    | nil => rfl
    | snoc => exact absurd hnil (by simp)
  | @snoc tr s s' a _ _ hs ih =>
    generalize htr : tr ++ [a] = tr' at h'
    cases h' with
    | nil => exact absurd htr (by simp)
    | snoc hrun' _ hs' =>
      obtain ⟨rfl, ha⟩ := List.append_inj' htr rfl
      obtain rfl := List.singleton_inj.mp ha
      obtain rfl := ih hrun'
      exact Option.some.inj (hs.symm.trans hs')

theorem Run.of_snoc {a : α} (h : Run step ok s₀ (tr ++ [a]) s₂) :
    ∃ s, Run step ok s₀ tr s ∧ ok s a ∧ step s a = some s₂ := by
  generalize htr : tr ++ [a] = tr' at h
  cases h with
  | nil => exact absurd htr (by simp)
  | snoc hrun ha hs =>
    obtain ⟨rfl, heq⟩ := List.append_inj' htr rfl
    obtain rfl := List.singleton_inj.mp heq
    exact ⟨_, hrun, ha, hs⟩

/-- If a step that fails the condition leaves the good states for the bad ones, and these
are never left again, the good states are those reached by meeting the condition. -/
theorem Run.good_or_bad {G B : σ → Prop} (hinit : G s₀)
    (hmeets : ∀ s a s', G s → ok s a → step s a = some s' → G s')
    (hfails : ∀ s a s', G s → ¬ ok s a → step s a = some s' → B s')
    (hbad : ∀ s a s', B s → step s a = some s' → B s') (h : Run step Always s₀ tr s₁) :
    Run step ok s₀ tr s₁ ∧ G s₁ ∨ ¬ Run step ok s₀ tr s₁ ∧ B s₁ := by
  induction h with
  | nil => exact Or.inl ⟨Run.nil, hinit⟩
  | @snoc tr s s' a hrun _ hs ih =>
    rcases ih with ⟨hok, hg⟩ | ⟨hno, hb⟩
    · by_cases ha : ok s a
      · exact Or.inl ⟨Run.snoc hok ha hs, hmeets s a s' hg ha hs⟩
      · refine Or.inr ⟨fun hrun' => ?_, hfails s a s' hg ha hs⟩
        obtain ⟨t, hrun', hok', -⟩ := hrun'.of_snoc
        exact ha (hrun.target_unique hrun' ▸ hok')
    · refine Or.inr ⟨fun hrun' => hno ?_, hbad s a s' hb hs⟩
      obtain ⟨t, hrun', -⟩ := hrun'.of_snoc
      exact hrun.target_unique hrun' ▸ hrun'

/-- Some step of the run is taken in such a state, with such a label. -/
def Once (step : σ → α → Option σ) (s₀ : σ) (P : σ → α → Prop) (tr : List α) : Prop :=
  ∃ tr₁ s a tr₂, Run step Always s₀ tr₁ s ∧ P s a ∧ tr = tr₁ ++ a :: tr₂

theorem Once.snoc {P : σ → α → Prop} (h : Once step s₀ P tr) (a : α) : Once step s₀ P (tr ++ [a]) := by
  obtain ⟨tr₁, s, b, tr₂, hrun, hP, rfl⟩ := h
  exact ⟨tr₁, s, b, tr₂ ++ [a], hrun, hP, by simp⟩

theorem Run.once {P : σ → α → Prop} {a : α} (h : Run step ok s₀ tr s₁) (hP : P s₁ a) :
    Once step s₀ P (tr ++ [a]) := ⟨tr, s₁, a, [], h.unconditional, hP, rfl⟩

theorem Once.of_snoc {P : σ → α → Prop} {a : α} (h : Once step s₀ P (tr ++ [a])) :
    Once step s₀ P tr ∨ ∃ s, Run step Always s₀ tr s ∧ P s a := by
  obtain ⟨tr₁, s, b, tr₂, hrun, hP, heq⟩ := h
  rcases List.eq_nil_or_concat tr₂ with rfl | ⟨tr₃, c, rfl⟩
  · obtain ⟨rfl, hab⟩ := List.append_inj' heq rfl
    obtain rfl := List.singleton_inj.mp hab
    exact Or.inr ⟨s, hrun, hP⟩
  · rw [List.concat_eq_append, ← List.cons_append, ← List.append_assoc] at heq
    obtain ⟨rfl, -⟩ := List.append_inj' heq rfl
    exact Or.inl ⟨tr₁, s, b, tr₃, hrun, hP, rfl⟩

/-- What such a step brings about, and every step keeps, holds after it. -/
theorem Once.settled {P : σ → α → Prop} {J Q : σ → Prop} (ho : Once step s₀ P tr) (hinit : J s₀)
    (hJ : ∀ s a s', J s → ok s a → step s a = some s' → J s')
    (hfirst : ∀ s a s', J s → P s a → step s a = some s' → Q s')
    (hkeep : ∀ s a s', J s → Q s → step s a = some s' → Q s') (h : Run step ok s₀ tr s₁) : Q s₁ := by
  induction h with
  | nil =>
    obtain ⟨tr₁, s, a, tr₂, -, -, heq⟩ := ho
    simp at heq
  | snoc hrun _ hs ih =>
    have hJs := hrun.invariant hinit hJ
    rcases ho.of_snoc with ho | ⟨t, hrun', hP⟩
    · exact hkeep _ _ _ hJs (ih ho) hs
    · obtain rfl := hrun.target_unique hrun'
      exact hfirst _ _ _ hJs hP hs

def exec (step : σ → α → Option σ) (s : σ) : List α → Option σ
  | [] => some s
  | a :: tr => (step s a).bind fun s' => exec step s' tr

/-- A step that is not enabled where the condition fails. -/
def guarded (step : σ → α → Option σ) (ok : σ → α → Prop) [∀ s a, Decidable (ok s a)] (s : σ) (a : α) :
    Option σ :=
  if ok s a then step s a else none

theorem run_of_guarded [∀ s a, Decidable (ok s a)] (h : exec (guarded step ok) s₀ tr = some s₁) :
    Run step ok s₀ tr s₁ := by
  induction tr generalizing s₀ with
  | nil => simp only [exec, Option.some.injEq] at h; subst h; exact Run.nil
  | cons a tr ih =>
    simp only [exec, Option.bind_eq_some_iff] at h
    obtain ⟨s, hs, h⟩ := h
    rw [guarded] at hs
    split_ifs at hs with hok
    exact (ih h).cons hok hs

theorem run_of_exec (h : exec step s₀ tr = some s₁) : Run step Always s₀ tr s₁ := by
  induction tr generalizing s₀ with
  | nil => simp only [exec, Option.some.injEq] at h; subst h; exact Run.nil
  | cons a tr ih =>
    simp only [exec, Option.bind_eq_some_iff] at h
    obtain ⟨s, hs, h⟩ := h
    exact (ih h).cons trivial hs

/-! Total operations: a list of them applied in turn, a property of every state on
the way and a condition on every operation in the state it is applied to. -/

section Total

variable (apply : σ → α → σ)

def Throughout (P : σ → Prop) (s : σ) : List α → Prop
  | [] => P s
  | a :: as => P s ∧ Throughout P (apply s a) as

def EachStep (Q : σ → α → Prop) (s : σ) : List α → Prop
  | [] => True
  | a :: as => Q s a ∧ EachStep Q (apply s a) as

variable {apply}

theorem EachStep.invariant {I : σ → Prop} {legal : σ → α → Prop} (hI : ∀ s a, I s → legal s a → I (apply s a))
    {s : σ} {as : List α} (hs : I s) (hl : EachStep apply legal s as) : I (as.foldl apply s) := by
  induction as generalizing s with
  | nil => exact hs
  | cons a as ih => exact ih (hI s a hs hl.1) hl.2

/-- If one operation keeps `P` exactly when it meets `Q`, then `P` holds throughout
exactly when every operation meets `Q`. -/
theorem throughout_iff_eachStep {P : σ → Prop} {I : σ → Prop} {legal Q : σ → α → Prop}
    (hI : ∀ s a, I s → legal s a → I (apply s a))
    (hstep : ∀ s a, I s → P s → legal s a → (P (apply s a) ↔ Q s a))
    {s : σ} {as : List α} (hs : I s) (hP : P s) (hl : EachStep apply legal s as) :
    Throughout apply P s as ↔ EachStep apply Q s as := by
  induction as generalizing s with
  | nil => exact iff_of_true hP trivial
  | cons a as ih =>
    simp only [Throughout, EachStep]
    have hnext := hstep s a hs hP hl.1
    refine ⟨fun ⟨_, h⟩ => ?_, fun ⟨hq, h⟩ => ⟨hP, ?_⟩⟩
    · have hP' : P (apply s a) := by
        cases as with
        | nil => exact h
        | cons b bs => exact h.1
      exact ⟨hnext.mp hP', (ih (hI s a hs hl.1) hP' hl.2).mp h⟩
    · exact (ih (hI s a hs hl.1) (hnext.mpr hq) hl.2).mpr h

end Total

end Runs
