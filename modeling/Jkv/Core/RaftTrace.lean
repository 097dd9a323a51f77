import Mathlib.Data.List.Basic
import Mathlib.Data.List.Infix
import Mathlib.Data.List.Pairwise

/-!
# What a Raft group shows of its logs over time

The members of a Raft group are looked at one after the other; a *view* is what such a look shows
(whether the member leads, its term, its log), and a *trace* is the list of looks in the order they
were taken.  `RaftTrace` states the guarantees Raft gives about a trace, and nothing about how the
members come to keep them:

* `election_safety`: at most one member ever leads a term;
* `append_only`: while a member leads one term, its log only grows;
* `log_matching`: logs that agree on the term of one entry agree up to that entry;
* `leader_creates`: an entry of term `t` was first in the log of the member leading `t`.

Two consequences carry everything built on top.  `leader_holds` is about time: what existed with
term `t` is in the log of whoever leads `t` from then on.  `leader_comparable` is not: a log that
contains an entry of term `t`, cut after that entry, and any log the leader of `t` ever had while
leading it, are prefixes of one another.
-/

/-- What one look at a member shows.  The entry of index `i` stands at position `i - 1`. -/
structure View (E : Type*) where
  leader : Bool
  term : ℕ
  log : List E
  deriving DecidableEq

variable {ι E : Type*}

/-- The guarantees of Raft about a trace of views. -/
structure RaftTrace (termOf : E → ℕ) (t : List (ι × View E)) : Prop where
  election_safety : ∀ x ∈ t, ∀ y ∈ t, x.2.leader = true → y.2.leader = true →
    x.2.term = y.2.term → x.1 = y.1
  append_only : t.Pairwise fun x y => x.1 = y.1 → x.2.leader = true → y.2.leader = true →
    x.2.term = y.2.term → x.2.log <+: y.2.log
  log_matching : ∀ x ∈ t, ∀ y ∈ t, ∀ i < x.2.log.length,
    x.2.log[i]?.map termOf = y.2.log[i]?.map termOf →
      x.2.log.take (i + 1) = y.2.log.take (i + 1)
  leader_creates : ∀ (k : ℕ) (hk : k < t.length), ∀ i < t[k].2.log.length,
    ∃ y ∈ t.take (k + 1), y.2.leader = true ∧ t[k].2.log[i]?.map termOf = some y.2.term ∧
      y.2.log[i]? = t[k].2.log[i]?

set_option synthInstance.maxSize 512 in
instance [DecidableEq ι] [DecidableEq E] (termOf : E → ℕ) (t : List (ι × View E)) :
    Decidable (RaftTrace termOf t) :=
  decidable_of_iff (_ ∧ _ ∧ _ ∧ _)
    ⟨fun ⟨h₁, h₂, h₃, h₄⟩ => ⟨h₁, h₂, h₃, h₄⟩, fun ⟨h₁, h₂, h₃, h₄⟩ => ⟨h₁, h₂, h₃, h₄⟩⟩

/-- A longer log has what its prefixes have. -/
lemma getElem?_of_prefix {l l' : List E} (h : l <+: l') {i : ℕ} {e : E} (he : l[i]? = some e) :
    l'[i]? = some e := by
  obtain ⟨r, rfl⟩ := h
  rw [List.getElem?_append_left (List.getElem?_eq_some_iff.mp he).1, he]

namespace RaftTrace

variable {termOf : E → ℕ} {t : List (ι × View E)}

/-- Two logs with an entry of one index and one term hold the same entry there. -/
lemma entry_unique (h : RaftTrace termOf t) {x y : ι × View E} (hx : x ∈ t) (hy : y ∈ t)
    {i : ℕ} {e f : E} (he : x.2.log[i]? = some e) (hf : y.2.log[i]? = some f)
    (hterm : termOf e = termOf f) : e = f := by
  have hi : i < x.2.log.length := (List.getElem?_eq_some_iff.mp he).1
  have htake := h.log_matching x hx y hy i hi (by simp [he, hf, hterm])
  have hget := congrArg (fun l => l[i]?) htake
  simpa [List.getElem?_take, he, hf] using hget

/-- An entry seen in some log was, then or before, in the log of the leader of its term. -/
lemma exists_creator (h : RaftTrace termOf t) {t₁ t₂ : List (ι × View E)} {x : ι × View E}
    (ht : t = t₁ ++ x :: t₂) {i : ℕ} {e : E} (he : x.2.log[i]? = some e) :
    ∃ y ∈ t₁ ++ [x], y.2.leader = true ∧ y.2.term = termOf e ∧ y.2.log[i]? = some e := by
  subst ht
  have hk : t₁.length < (t₁ ++ x :: t₂).length := by simp
  have hget : (t₁ ++ x :: t₂)[t₁.length] = x := by simp
  have hcreate := h.leader_creates t₁.length hk i
  rw [hget, he, List.take_length_add_append] at hcreate
  obtain ⟨y, hy, hlead, hterm, hlog⟩ := hcreate (List.getElem?_eq_some_iff.mp he).1
  exact ⟨y, by simpa using hy, hlead, by simpa using hterm.symm, hlog⟩

/-- The log of a leader, later in its term, still has what it had. -/
lemma append_only_of_split (h : RaftTrace termOf t) {t₁ t₂ : List (ι × View E)} {x y : ι × View E}
    (ht : t = t₁ ++ y :: t₂) (hx : x ∈ t₁ ++ [y]) (hmem : x.1 = y.1) (hlx : x.2.leader = true)
    (hly : y.2.leader = true) (hterm : x.2.term = y.2.term) : x.2.log <+: y.2.log := by
  subst ht
  rcases List.mem_append.mp hx with hx | hx
  · exact (List.pairwise_append.mp h.append_only).2.2 x hx y (List.mem_cons_self) hmem hlx hly hterm
  · rw [List.mem_singleton.mp hx]

/-- **A leader holds every entry of its own term that existed before.**  The entry was created in
the leader's log, and the leader has only appended since. -/
theorem leader_holds (h : RaftTrace termOf t) {t₁ t₂ : List (ι × View E)} {x y : ι × View E}
    (ht : t = t₁ ++ y :: t₂) (hx : x ∈ t₁) {i : ℕ} {e : E} (he : x.2.log[i]? = some e)
    (hlead : y.2.leader = true) (hterm : y.2.term = termOf e) : y.2.log[i]? = some e := by
  obtain ⟨a, b, hab⟩ := List.append_of_mem hx
  have hsplit : t = a ++ x :: (b ++ y :: t₂) := by rw [ht, hab]; simp
  obtain ⟨z, hz, hzlead, hzterm, hzlog⟩ := h.exists_creator hsplit he
  have hzt₁ : z ∈ t₁ := by
    rw [hab]
    rcases List.mem_append.mp hz with hz | hz
    · exact List.mem_append_left _ hz
    · exact List.mem_append_right _ (by rw [List.mem_singleton.mp hz]; exact List.mem_cons_self)
  have hzt : z ∈ t := by rw [ht]; exact List.mem_append_left _ hzt₁
  have hyt : y ∈ t := by rw [ht]; exact List.mem_append_right _ List.mem_cons_self
  have hsame : z.1 = y.1 := h.election_safety z hzt y hyt hzlead hlead (by rw [hzterm, hterm])
  have hpre := h.append_only_of_split ht (List.mem_append_left _ hzt₁) hsame hzlead hlead
    (by rw [hzterm, hterm])
  exact getElem?_of_prefix hpre hzlog

/-- Two logs a leader had in one term are prefixes of one another. -/
lemma leader_total (h : RaftTrace termOf t) {x y : ι × View E} (hx : x ∈ t) (hy : y ∈ t)
    (hlx : x.2.leader = true) (hly : y.2.leader = true) (hterm : x.2.term = y.2.term) :
    x.2.log <+: y.2.log ∨ y.2.log <+: x.2.log := by
  have hmem : x.1 = y.1 := h.election_safety x hx y hy hlx hly hterm
  obtain ⟨a, b, hab⟩ := List.append_of_mem hy
  have hx' : x ∈ a ++ [y] ∨ x ∈ b := by
    rw [hab] at hx
    simp only [List.mem_append, List.mem_cons, List.not_mem_nil, or_false] at hx ⊢
    tauto
  rcases hx' with hx' | hx'
  · exact Or.inl (h.append_only_of_split hab hx' hmem hlx hly hterm)
  · obtain ⟨c, d, hcd⟩ := List.append_of_mem hx'
    have hsplit : t = (a ++ y :: c) ++ x :: d := by rw [hab, hcd]; simp
    exact Or.inr (h.append_only_of_split hsplit (by simp) hmem.symm hly hlx hterm.symm)

/-- **A log with an entry of term `t` and a log of the leader of `t` are comparable** up to that
entry, whichever of the two was seen first. -/
theorem leader_comparable (h : RaftTrace termOf t) {x y : ι × View E} (hx : x ∈ t) (hy : y ∈ t)
    {i : ℕ} {e : E} (he : x.2.log[i]? = some e) (hlead : y.2.leader = true)
    (hterm : y.2.term = termOf e) :
    x.2.log.take (i + 1) <+: y.2.log ∨ y.2.log <+: x.2.log := by
  obtain ⟨a, b, hab⟩ := List.append_of_mem hx
  obtain ⟨z, hz, hzlead, hzterm, hzlog⟩ := h.exists_creator hab he
  have hzt : z ∈ t := by
    rw [hab]
    simp only [List.mem_append, List.mem_cons] at hz ⊢
    tauto
  have hi : i < x.2.log.length := (List.getElem?_eq_some_iff.mp he).1
  have htake := h.log_matching x hx z hzt i hi (by rw [he, hzlog])
  have hpre : x.2.log.take (i + 1) <+: z.2.log := by rw [htake]; exact List.take_prefix _ _
  rcases h.leader_total hzt hy hzlead hlead (by rw [hzterm, hterm]) with hzy | hyz
  · exact Or.inl (hpre.trans hzy)
  · -- both are prefixes of the log in which the entry was created
    rcases List.prefix_or_prefix_of_prefix hpre hyz with hxy | hyx
    · exact Or.inl hxy
    · exact Or.inr (hyx.trans (List.take_prefix _ _))

end RaftTrace
