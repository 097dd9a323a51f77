import Mathlib.Data.List.Basic
import Mathlib.Data.List.Induction

/-!
# Labelled steps

The closure of a labelled step relation.  A history of labels fixes what happened; `Steps.split`
cuts a history anywhere and gives the state in between, and `Steps.exists_step` the step behind one
label.
-/

variable {S L : Type*} {R : S → L → S → Prop} {s₀ s s' : S}

/-- `s` is reached from `s₀` by steps with the labels of the list, in this order. -/
inductive Steps (R : S → L → S → Prop) (s₀ : S) : List L → S → Prop
  | nil : Steps R s₀ [] s₀
  | snoc {h : List L} {s s' : S} {r : L} : Steps R s₀ h s → R s r s' → Steps R s₀ (h ++ [r]) s'

namespace Steps

lemma single {r : L} (h : R s r s') : Steps R s [r] s' := Steps.snoc Steps.nil h

lemma trans {h h' : List L} (first : Steps R s₀ h s) (rest : Steps R s h' s') :
    Steps R s₀ (h ++ h') s' := by
  induction rest with
  | nil => simpa using first
  | snoc _ hr ih =>
      rw [← List.append_assoc]
      exact Steps.snoc ih hr

lemma snoc_iff {h : List L} {r : L} :
    Steps R s₀ (h ++ [r]) s' ↔ ∃ s, Steps R s₀ h s ∧ R s r s' := by
  constructor
  · intro hs
    generalize hl : h ++ [r] = l at hs
    cases hs with
    | nil => simp at hl
    | snoc hsteps hr =>
        obtain ⟨rfl, hrr⟩ := List.append_inj' hl rfl
        cases hrr
        exact ⟨_, hsteps, hr⟩
  · rintro ⟨s, hsteps, hr⟩
    exact Steps.snoc hsteps hr

/-- **Cutting a history.** -/
theorem split {h h' : List L} :
    Steps R s₀ (h ++ h') s' ↔ ∃ s, Steps R s₀ h s ∧ Steps R s h' s' := by
  constructor
  · intro hs
    induction h' using List.reverseRecOn generalizing s' with
    | nil => exact ⟨s', by simpa using hs, Steps.nil⟩
    | append_singleton h' r ih =>
        rw [← List.append_assoc, snoc_iff] at hs
        obtain ⟨s₁, hs₁, hr⟩ := hs
        obtain ⟨s₂, hs₂, hrest⟩ := ih hs₁
        exact ⟨s₂, hs₂, Steps.snoc hrest hr⟩
  · rintro ⟨s, hs, hs'⟩
    exact hs.trans hs'

/-- The step behind one label of a history. -/
lemma exists_step {h h' : List L} {r : L} (hs : Steps R s₀ (h ++ r :: h') s') :
    ∃ s₁ s₂, Steps R s₀ h s₁ ∧ R s₁ r s₂ ∧ Steps R s₂ h' s' := by
  rw [← List.singleton_append, ← List.append_assoc] at hs
  obtain ⟨s₂, hfirst, hrest⟩ := split.mp hs
  obtain ⟨s₁, hs₁, hr⟩ := snoc_iff.mp hfirst
  exact ⟨s₁, s₂, hs₁, hr, hrest⟩

end Steps
