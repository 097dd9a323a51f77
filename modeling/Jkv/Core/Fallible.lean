import Mathlib.Data.List.Basic

/-!
# Loops that may fail

A loop over a list whose body works on a state and may fail is `List.forM` in `EStateM`.  What every
turn keeps, the loop keeps (`forM_invariant`); and a loop that fails, fails in one turn, on a state
the turns before it have left (`forM_error_split`).
-/

variable {ε α S : Type} {f : α → EStateM ε S Unit} {I : S → Prop} {as : List α} {s s' : S}

/-- One turn of a loop on a state. -/
lemma run_forM_cons (f : α → EStateM ε S Unit) (a : α) (as : List α) (s : S) :
    ((a :: as).forM f).run s = match (f a).run s with
      | .ok _ s' => (as.forM f).run s'
      | .error e s' => .error e s' := by
  simp only [List.forM_eq_forM, List.forM_cons, EStateM.run_bind]
  cases (f a).run s <;> rfl

/-- **The loop rule.**  If every successful turn keeps `I`, the state after the loop has it. -/
theorem forM_invariant (step : ∀ a s s', I s → (f a).run s = .ok () s' → I s') (init : I s)
    (h : (as.forM f).run s = .ok () s') : I s' := by
  induction as generalizing s with
  | nil =>
      cases h
      exact init
  | cons a as ih =>
      rw [run_forM_cons] at h
      cases hturn : (f a).run s with
      | error e s₁ => rw [hturn] at h; cases h
      | ok u s₁ =>
          rw [hturn] at h
          exact ih (step a s s₁ init hturn) h

/-- **A loop that fails, fails in one of its turns**, and the turns before it have succeeded. -/
theorem forM_error_split {e : ε} (h : (as.forM f).run s = .error e s') : ∃ as₁ a as₂ s₁,
    as = as₁ ++ a :: as₂ ∧ (as₁.forM f).run s = .ok () s₁ ∧ (f a).run s₁ = .error e s' := by
  induction as generalizing s with
  | nil => cases h
  | cons a as ih =>
      rw [run_forM_cons] at h
      cases hturn : (f a).run s with
      | error e s₁ =>
          rw [hturn] at h
          cases h
          exact ⟨[], a, as, s, rfl, rfl, hturn⟩
      | ok u s₁ =>
          rw [hturn] at h
          obtain ⟨as₁, b, as₂, s₂, rfl, hok, hfails⟩ := ih h
          refine ⟨a :: as₁, b, as₂, s₂, rfl, ?_, hfails⟩
          rw [run_forM_cons, hturn]
          exact hok

/-- The error a call ended with, if it did. -/
def errorOf : EStateM.Result ε S α → Option ε
  | .ok _ _ => none
  | .error e _ => some e

lemma errorOf_eq_some {r : EStateM.Result ε S α} {e : ε} :
    errorOf r = some e ↔ ∃ s, r = .error e s := by
  cases r <;> simp [errorOf]
