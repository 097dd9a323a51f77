import Mathlib.Logic.Function.Basic
import Mathlib.Data.List.Basic
import Mathlib.Data.List.Pairwise

/-!
# Machines, their runs, and interleavings of machines

A *machine* answers a call with its next state, or with nothing when the call aborts, and reports
what could be observed while it answered.  A *run* is a sequence of answered calls; it carries the
whole observation history, because the guarantees of a component one does not control (a consensus
library, a network) are statements about histories and not about single states.

* `Machine`, `Machine.Run`: the machine and its runs from a given state.
* `Run.exists_call`: everything in a history was observed of a call of the run.
* `Machine.interleave`: one machine per index, calls interleaved in any order, with `Run.proj`:
  what one component does inside an interleaved run is a run of its own.
* `Machine.Simulates`: a machine that can answer for another, with `Run.simulate`: then every run of
  the one is matched by a run of the other; interleaving keeps this.
* `Machine.Refines`: the same where a call may be matched by several calls, or by none, with
  `Run.refine`.
* `Machine.replay`: the same runs computed from a list of calls, for concrete executions.
-/

/-- A deterministic machine whose calls may abort.  `exec` is the state after a call, `obs` what
the call lets an observer see. -/
structure Machine (S A O : Type*) where
  exec : S → A → Option S
  obs : S → A → List O

namespace Machine

variable {S A O ι : Type*}

/-- The runs of `M` from `s₀`: the history observed so far and the state reached. -/
inductive Run (M : Machine S A O) (s₀ : S) : List O → S → Prop
  | nil : Run M s₀ [] s₀
  | snoc {h : List O} {s s' : S} (a : A) :
      Run M s₀ h s → M.exec s a = some s' → Run M s₀ (h ++ M.obs s a) s'

/-! ## Computing a run -/

/-- The run that a list of calls gives, if none of them aborts. -/
def replay (M : Machine S A O) (s : S) : List A → Option (List O × S)
  | [] => some ([], s)
  | a :: as => (M.exec s a).bind fun s' =>
      (replay M s' as).map fun r => (M.obs s a ++ r.1, r.2)

/-- Runs compose. -/
lemma Run.trans {M : Machine S A O} {s₀ s₁ s₂ : S} {h₁ h₂ : List O}
    (r₁ : M.Run s₀ h₁ s₁) (r₂ : M.Run s₁ h₂ s₂) : M.Run s₀ (h₁ ++ h₂) s₂ := by
  induction r₂ with
  | nil => simpa using r₁
  | snoc a _ hexec ih =>
      rw [← List.append_assoc]
      exact Run.snoc a ih hexec

/-- What `replay` computes is a run. -/
theorem run_of_replay {M : Machine S A O} {as : List A} {s s' : S} {h : List O}
    (hr : M.replay s as = some (h, s')) : M.Run s h s' := by
  induction as generalizing s h with
  | nil =>
      simp only [replay, Option.some.injEq, Prod.mk.injEq] at hr
      obtain ⟨rfl, rfl⟩ := hr
      exact Run.nil
  | cons a as ih =>
      simp only [replay, Option.bind_eq_some_iff, Option.map_eq_some_iff, Prod.mk.injEq] at hr
      obtain ⟨s₁, hexec, ⟨h₁, s₂⟩, hrest, rfl, rfl⟩ := hr
      have first : M.Run s ([] ++ M.obs s a) s₁ := Run.snoc a Run.nil hexec
      exact first.trans (ih hrest)

/-- A list of calls that can be computed gives a run with everything computed about it. -/
theorem exists_run {M : Machine S A O} {β : Type*} (as : List A) (f : List O × S → β) {s : S}
    {b : β} (hr : (M.replay s as).map f = some b) : ∃ h s', M.Run s h s' ∧ f (h, s') = b := by
  obtain ⟨⟨h, s'⟩, hreplay, hb⟩ := Option.map_eq_some_iff.mp hr
  exact ⟨h, s', run_of_replay hreplay, hb⟩

/-- Everything in a history was observed of some call of the run. -/
theorem Run.exists_call {M : Machine S A O} {s₀ s : S} {h : List O} (run : M.Run s₀ h s) {o : O}
    (ho : o ∈ h) : ∃ h₁ s₁ a s₂, M.Run s₀ h₁ s₁ ∧ M.exec s₁ a = some s₂ ∧ o ∈ M.obs s₁ a ∧
      h₁ ++ M.obs s₁ a <+: h := by
  induction run with
  | nil => cases ho
  | @snoc h s s' a run hexec ih =>
      rcases List.mem_append.mp ho with ho | ho
      · obtain ⟨h₁, s₁, a₁, s₂, run₁, hexec₁, hobs, hpre⟩ := ih ho
        exact ⟨h₁, s₁, a₁, s₂, run₁, hexec₁, hobs, hpre.trans (List.prefix_append _ _)⟩
      · exact ⟨h, s, a, s', run, hexec, ho, List.prefix_rfl⟩

/-! ## Interleaving -/

variable [DecidableEq ι]

/-- One copy of `M` per index.  A call names the component it goes to, and so does everything
observed of it. -/
def interleave (ι : Type*) [DecidableEq ι] (M : Machine S A O) :
    Machine (ι → S) (ι × A) (ι × O) where
  exec c x := (M.exec (c x.1) x.2).map (Function.update c x.1)
  obs c x := (M.obs (c x.1) x.2).map (Prod.mk x.1)

/-- The part of an interleaved history that component `i` contributed. -/
def proj (i : ι) (h : List (ι × O)) : List O :=
  h.filterMap fun x => if x.1 = i then some x.2 else none

@[simp] lemma proj_append (i : ι) (h h' : List (ι × O)) :
    proj i (h ++ h') = proj i h ++ proj i h' := List.filterMap_append ..

lemma proj_map_self (i : ι) (os : List O) : proj i (os.map (Prod.mk i)) = os := by
  simp [proj]

lemma proj_map_ne {i j : ι} (hij : j ≠ i) (os : List O) : proj i (os.map (Prod.mk j)) = [] := by
  simp [proj, hij]

@[simp] lemma mem_proj {i : ι} {o : O} {h : List (ι × O)} : o ∈ proj i h ↔ (i, o) ∈ h := by
  simp only [proj, List.mem_filterMap]
  constructor
  · rintro ⟨⟨j, o'⟩, hmem, heq⟩
    split_ifs at heq with hj
    cases heq
    exact hj ▸ hmem
  · intro hmem
    exact ⟨(i, o), hmem, by simp⟩

lemma pairwise_proj {R : ι × O → ι × O → Prop} {h : List (ι × O)} (hR : h.Pairwise R) (i : ι) :
    (proj i h).Pairwise fun o o' => R (i, o) (i, o') := by
  rw [proj, List.pairwise_filterMap]
  refine hR.imp ?_
  rintro ⟨j, o⟩ ⟨k, o'⟩ hrel b hb b' hb'
  dsimp only at hb hb'
  split_ifs at hb hb' with hj hk
  cases hb
  cases hb'
  subst hj hk
  exact hrel

/-- **A component of an interleaved run runs.**  The other components' calls neither change its
state nor contribute to its part of the history. -/
theorem Run.proj {M : Machine S A O} {c₀ c : ι → S} {h : List (ι × O)}
    (run : (M.interleave ι).Run c₀ h c) (i : ι) : M.Run (c₀ i) (proj i h) (c i) := by
  induction run with
  | nil => exact Run.nil
  | @snoc h c c' x run hexec ih =>
      obtain ⟨j, a⟩ := x
      obtain ⟨s', hs', rfl⟩ := Option.map_eq_some_iff.mp hexec
      have hobs : (M.interleave ι).obs c (j, a) = (M.obs (c j) a).map (Prod.mk j) := rfl
      rw [proj_append, hobs]
      by_cases hij : j = i
      · subst hij
        rw [proj_map_self, Function.update_self]
        exact Run.snoc a ih hs'
      · rw [proj_map_ne hij, List.append_nil, Function.update_of_ne (Ne.symm hij)]
        exact ih

/-! ## Simulation -/

variable {S' A' O' : Type*} {M : Machine S A O} {N : Machine S' A' O'} {R : S → S' → Prop}
  {f : O → O'}

/-- `N` can answer for `M`: from related states, a call that `M` answers is matched by a call that
`N` answers, to related states, and what is observed of it is what `f` keeps of the other. -/
def Simulates (M : Machine S A O) (N : Machine S' A' O') (R : S → S' → Prop) (f : O → O') : Prop :=
  ∀ s t a s', R s t → M.exec s a = some s' →
    ∃ b t', N.exec t b = some t' ∧ R s' t' ∧ N.obs t b = (M.obs s a).map f

/-- **Runs are simulated.** -/
theorem Run.simulate (hsim : Simulates M N R f) {s₀ s : S} {t₀ : S'} {h : List O}
    (run : M.Run s₀ h s) (hR : R s₀ t₀) : ∃ t, N.Run t₀ (h.map f) t ∧ R s t := by
  induction run with
  | nil => exact ⟨t₀, Run.nil, hR⟩
  | snoc a _ hexec ih =>
      obtain ⟨t, runt, hRt⟩ := ih
      obtain ⟨b, t', hexec', hR', hobs⟩ := hsim _ t a _ hRt hexec
      refine ⟨t', ?_, hR'⟩
      rw [List.map_append, ← hobs]
      exact Run.snoc b runt hexec'

/-- Components that are simulated are simulated together. -/
lemma Simulates.interleave (ι : Type*) [DecidableEq ι] (hsim : Simulates M N R f) :
    Simulates (M.interleave ι) (N.interleave ι) (fun c d => ∀ i, R (c i) (d i))
      (fun x => (x.1, f x.2)) := by
  rintro c d ⟨i, a⟩ c' hR hexec
  obtain ⟨s', hs', rfl⟩ := Option.map_eq_some_iff.mp hexec
  obtain ⟨b, t', hexec', hR', hobs⟩ := hsim _ _ a s' (hR i) hs'
  refine ⟨(i, b), Function.update d i t', ?_, ?_, ?_⟩
  · simp only [Machine.interleave, hexec', Option.map_some]
  · intro j
    by_cases hj : j = i
    · subst hj
      rw [Function.update_self, Function.update_self]
      exact hR'
    · rw [Function.update_of_ne hj, Function.update_of_ne hj]
      exact hR j
  · simp only [Machine.interleave, hobs, List.map_map]
    rfl

/-- `N` does whatever `M` does, in any number of calls: a call that `M` answers is matched by a run
of `N`, to related states, and what is observed of the run is what `f` keeps of the call. -/
def Refines (M : Machine S A O) (N : Machine S' A' O') (R : S → S' → Prop) (f : O → Option O') :
    Prop :=
  ∀ s t a s', R s t → M.exec s a = some s' →
    ∃ t', N.Run t ((M.obs s a).filterMap f) t' ∧ R s' t'

/-- **Runs are refined.** -/
theorem Run.refine {f : O → Option O'} (href : Refines M N R f) {s₀ s : S} {t₀ : S'} {h : List O}
    (run : M.Run s₀ h s) (hR : R s₀ t₀) : ∃ t, N.Run t₀ (h.filterMap f) t ∧ R s t := by
  induction run with
  | nil => exact ⟨t₀, Run.nil, hR⟩
  | snoc a _ hexec ih =>
      obtain ⟨t, runt, hRt⟩ := ih
      obtain ⟨t', runt', hR'⟩ := href _ t a _ hRt hexec
      rw [List.filterMap_append]
      exact ⟨t', runt.trans runt', hR'⟩

end Machine
