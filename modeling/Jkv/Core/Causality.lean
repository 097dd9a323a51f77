import Mathlib.Data.List.Basic
import Mathlib.Data.List.Induction

/-!
# Histories in which everything has a cause

What a component does is often justified by what it has seen before: an answer by a request, a
message that arrives by a message that was sent.  `Caused P h` says that `P` justifies every event
of the history `h` by the events before it.

`Caused.forall_mem` is the induction rule: what follows for an event from its cause, and from having
been shown of everything before, holds of all events.
-/

variable {α : Type*} {P P' : List α → α → Prop} {h : List α} {x : α}

/-- `P` justifies every event by those before it. -/
def Caused (P : List α → α → Prop) (h : List α) : Prop :=
  ∀ (k : ℕ) (hk : k < h.length), P (h.take k) h[k]

instance [∀ past x, Decidable (P past x)] (h : List α) : Decidable (Caused P h) :=
  inferInstanceAs (Decidable (∀ (k : ℕ) (hk : k < h.length), P (h.take k) h[k]))

lemma caused_nil : Caused P [] := fun _ hk => absurd hk (Nat.not_lt_zero _)

/-- What happens later justifies nothing. -/
lemma Caused.of_append {h' : List α} (hc : Caused P (h ++ h')) : Caused P h := by
  intro k hk
  have hcause := hc k (by rw [List.length_append]; omega)
  rwa [List.take_append_of_le_length (Nat.le_of_lt hk), List.getElem_append_left hk] at hcause

/-- One event more. -/
lemma caused_concat : Caused P (h ++ [x]) ↔ Caused P h ∧ P h x := by
  constructor
  · intro hc
    have hlast := hc h.length (by simp)
    exact ⟨hc.of_append, by simpa using hlast⟩
  · rintro ⟨hc, hx⟩ k hk
    rw [List.length_append, List.length_singleton] at hk
    by_cases hlt : k < h.length
    · rw [List.take_append_of_le_length (Nat.le_of_lt hlt), List.getElem_append_left hlt]
      exact hc k hlt
    · have hlast : k = h.length := by omega
      subst hlast
      simpa using hx

lemma Caused.and (hc : Caused P h) (hc' : Caused P' h) :
    Caused (fun past x => P past x ∧ P' past x) h := fun k hk => ⟨hc k hk, hc' k hk⟩

/-- **Induction along causes.** -/
theorem Caused.forall_mem {Q : α → Prop} (hc : Caused P h)
    (hQ : ∀ past x, P past x → (∀ y ∈ past, Q y) → Q x) : ∀ x ∈ h, Q x := by
  induction h using List.reverseRecOn with
  | nil =>
      intro x hx
      cases hx
  | append_singleton h x ih =>
      obtain ⟨hpast, hx⟩ := caused_concat.mp hc
      intro y hy
      rcases List.mem_append.mp hy with hy | hy
      · exact ih hpast y hy
      · rw [List.mem_singleton.mp hy]
        exact hQ h x hx (ih hpast)
