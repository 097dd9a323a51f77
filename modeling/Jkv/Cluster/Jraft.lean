import Jkv.Server.Closures

/-!
# What the peers of a group rely on

A group is the interleaving of its servers' machines.  `Jraft log h` is what the peers rely on of
jraft in a history `h` of the group, with `log` the committed log: the guarantees of Raft about the
logs (`RaftTrace`), terms that never decrease, leader completeness, and that each peer's `Ready`s
deliver the committed log from its first entry on, in index order, every entry out of the peer's own
log.

Nothing here says how jraft does it, and nothing is said about `Propose`: whether it appends is
assumed separately (`Record.Appends`), because jraft may refuse a request.
-/

namespace Jkv

open Machine

variable {ι σ : Type} [DecidableEq ι]

/-- The servers of a group, their calls interleaved in any order. -/
def cluster (ι : Type) [DecidableEq ι] (raft : RawNode σ) (codec : Codec) :
    Machine (ι → Server σ) (ι × Event) (ι × Record) := (serverMachine raft codec).interleave ι

/-- Every look at every node, in order. -/
def samples (h : List (ι × Record)) : List (ι × View Entry) :=
  h.flatMap fun x => [(x.1, x.2.before), (x.1, x.2.after)]

/-- What jraft keeps of a group with the committed log `log`. -/
structure Jraft (log : List Entry) (h : List (ι × Record)) : Prop where
  trace : RaftTrace Entry.term (samples h)
  term_mono : (samples h).Pairwise fun x y => x.1 = y.1 → x.2.term ≤ y.2.term
  /-- A leader has every entry that was committed in its term or before. -/
  leader_completeness : h.Pairwise fun x y => ∀ e ∈ x.2.delivery?, y.2.before.leader = true →
    x.2.before.term ≤ y.2.before.term → y.2.before.log[e.index - 1]? = some e
  delivered_own : ∀ x ∈ h, ∀ e ∈ x.2.delivery?,
    x.2.before.log[e.index - 1]? = some e ∧ e.term ≤ x.2.before.term
  delivered_prefix : ∀ x ∈ h, entriesOf (proj x.1 h) <+: log
  log_index : ∀ i < log.length, log[i]?.map Entry.index = some (i + 1)
  log_sorted : log.Pairwise fun e e' => e.term ≤ e'.term

set_option synthInstance.maxSize 512 in
instance (log : List Entry) (h : List (ι × Record)) : Decidable (Jraft log h) :=
  decidable_of_iff (_ ∧ _ ∧ _ ∧ _ ∧ _ ∧ _ ∧ _)
    ⟨fun ⟨h₁, h₂, h₃, h₄, h₅, h₆, h₇⟩ => ⟨h₁, h₂, h₃, h₄, h₅, h₆, h₇⟩,
      fun ⟨h₁, h₂, h₃, h₄, h₅, h₆, h₇⟩ => ⟨h₁, h₂, h₃, h₄, h₅, h₆, h₇⟩⟩

omit [DecidableEq ι] in
lemma before_mem_samples {h : List (ι × Record)} {x : ι × Record} (hx : x ∈ h) :
    (x.1, x.2.before) ∈ samples h := List.mem_flatMap.mpr ⟨x, hx, by simp⟩

omit [DecidableEq ι] in
lemma after_mem_samples {h : List (ι × Record)} {x : ι × Record} (hx : x ∈ h) :
    (x.1, x.2.after) ∈ samples h := List.mem_flatMap.mpr ⟨x, hx, by simp⟩

/-- Looking at one peer of the group is looking at its own history. -/
lemma proj_samples (a : ι) (h : List (ι × Record)) : proj a (samples h) = looks (proj a h) := by
  induction h with
  | nil => rfl
  | cons x h ih =>
      have hcons : samples (x :: h) = [(x.1, x.2.before), (x.1, x.2.after)] ++ samples h := rfl
      rw [hcons, proj_append, ih]
      by_cases hx : x.1 = a
      · simp [proj, looks, hx]
      · simp [proj, looks, hx]

namespace Jraft

variable {log : List Entry} {h h₁ h₂ : List (ι × Record)} {a : ι} {r : Record} {e f : Entry}

/-! ## The committed log -/

lemma mem_log (hj : Jraft log h) (he : e ∈ log) : 0 < e.index ∧ log[e.index - 1]? = some e := by
  obtain ⟨i, hi, rfl⟩ := List.mem_iff_getElem.mp he
  have hindex := hj.log_index i hi
  rw [List.getElem?_eq_getElem hi, Option.map_some, Option.some.injEq] at hindex
  rw [hindex]
  exact ⟨Nat.succ_pos i, by simp⟩

/-- Two committed entries of one index are one entry. -/
lemma log_unique (hj : Jraft log h) (he : e ∈ log) (hf : f ∈ log) (hindex : e.index = f.index) :
    e = f := by
  have hget := (hj.mem_log he).2
  rw [hindex, (hj.mem_log hf).2] at hget
  exact (Option.some.inj hget).symm

/-- The committed log has no gaps. -/
lemma exists_index (hj : Jraft log h) (he : e ∈ log) {i : ℕ} (hpos : 0 < i) (hi : i ≤ e.index) :
    ∃ f ∈ log, f.index = i := by
  have hlen := (List.getElem?_eq_some_iff.mp (hj.mem_log he).2).1
  have hbound : i - 1 < log.length := by omega
  have hindex := hj.log_index (i - 1) hbound
  rw [List.getElem?_eq_getElem hbound, Option.map_some, Option.some.injEq] at hindex
  exact ⟨log[i - 1], List.getElem_mem hbound, by omega⟩

/-- Terms do not decrease along the committed log. -/
lemma log_term_le (hj : Jraft log h) (he : e ∈ log) (hf : f ∈ log) (hindex : e.index < f.index) :
    e.term ≤ f.term := by
  obtain ⟨hpos, hget⟩ := hj.mem_log he
  obtain ⟨-, hget'⟩ := hj.mem_log hf
  obtain ⟨hi, hei⟩ := List.getElem?_eq_some_iff.mp hget
  obtain ⟨hi', hfi⟩ := List.getElem?_eq_some_iff.mp hget'
  have hle := List.pairwise_iff_getElem.mp hj.log_sorted _ _ hi hi' (by omega)
  rwa [hei, hfi] at hle

/-- Every peer delivers a prefix of the committed log. -/
lemma entriesOf_prefix (hj : Jraft log h) (a : ι) : entriesOf (proj a h) <+: log := by
  cases hp : proj a h with
  | nil => exact List.nil_prefix
  | cons r rest =>
      have hmem : (a, r) ∈ h := mem_proj.mp (by rw [hp]; exact List.mem_cons_self)
      have hpre := hj.delivered_prefix _ hmem
      rwa [hp] at hpre

lemma mem_log_of_delivered (hj : Jraft log h) (hr : (a, r) ∈ h) (he : r.delivery? = some e) :
    e ∈ log :=
  (hj.entriesOf_prefix a).subset (List.mem_filterMap.mpr ⟨r, mem_proj.mpr hr, he⟩)

/-- What a peer had delivered before an entry is the committed log before that entry. -/
lemma entriesOf_eq_take (hj : Jraft log h) {h₁ h₂ : List Record}
    (hsplit : proj a h = h₁ ++ r :: h₂) (he : r.delivery? = some e) :
    entriesOf h₁ = log.take (e.index - 1) := by
  obtain ⟨rest, hlog⟩ := hj.entriesOf_prefix a
  have hcut : log = entriesOf h₁ ++ (e :: (entriesOf h₂ ++ rest)) := by
    rw [← hlog, hsplit]
    simp [entriesOf, he]
  have hget : log[(entriesOf h₁).length]? = some e := by rw [hcut]; simp
  have hindex := hj.log_index _ (List.getElem?_eq_some_iff.mp hget).1
  rw [hget, Option.map_some, Option.some.injEq] at hindex
  rw [hindex, hcut]
  simp

/-- A peer that has delivered an entry has delivered everything committed before it. -/
lemma delivered_below (hj : Jraft log (h₁ ++ h₂)) (hr : (a, r) ∈ h₁) (he : r.delivery? = some e)
    (hf : f ∈ log) (hindex : f.index ≤ e.index) : ∃ r', (a, r') ∈ h₁ ∧ r'.delivery? = some f := by
  have hpre : entriesOf (proj a h₁) <+: log := by
    have hall := hj.entriesOf_prefix a
    rw [proj_append, entriesOf_append] at hall
    exact (List.prefix_append _ _).trans hall
  have hmem : e ∈ entriesOf (proj a h₁) := List.mem_filterMap.mpr ⟨r, mem_proj.mpr hr, he⟩
  obtain ⟨i, hi, hget⟩ := List.mem_iff_getElem.mp hmem
  have hlog : log[i]? = some e := getElem?_of_prefix hpre (by rw [← hget]; simp)
  have hlen := hj.log_index i (List.getElem?_eq_some_iff.mp hlog).1
  rw [hlog, Option.map_some, Option.some.injEq] at hlen
  obtain ⟨hpos, hfget⟩ := hj.mem_log hf
  obtain ⟨rest, rfl⟩ := hpre
  rw [List.getElem?_append_left (by omega)] at hfget
  obtain ⟨r', hr', hentry⟩ := List.mem_filterMap.mp (List.mem_of_getElem? hfget)
  exact ⟨r', mem_proj.mp hr', hentry⟩

/-! ## One peer of the group -/

/-- **Each peer of a group has what a peer relies on.** -/
theorem peer {codec : Codec} (hj : Jraft log h) (happ : ∀ x ∈ h, x.2.Appends codec) (a : ι) :
    PeerJraft codec (proj a h) where
  term_mono := by
    rw [← proj_samples]
    refine (pairwise_proj hj.term_mono a).imp ?_
    intro v v' hle
    exact hle rfl
  leader_grows := by
    rw [← proj_samples]
    refine (pairwise_proj hj.trace.append_only a).imp ?_
    intro v v' hgrows
    exact hgrows rfl
  keeps_delivered := by
    have hmono : (looks (proj a h)).Pairwise fun v v' => v.term ≤ v'.term := by
      rw [← proj_samples]
      exact (pairwise_proj hj.term_mono a).imp fun hle => hle rfl
    refine ((pairwise_looks hmono).and (pairwise_proj hj.leader_completeness a)).imp ?_
    rintro r r' ⟨⟨hle, -⟩, hcomplete⟩ hlead e he
    exact hcomplete e he hlead hle
  appends r hr := happ (a, r) (mem_proj.mp hr)
  delivered_sorted := by
    have hlog : log.Pairwise fun e e' => e.index < e'.index ∧ e.term ≤ e'.term := by
      refine List.Pairwise.and ?_ hj.log_sorted
      refine List.pairwise_iff_getElem.mpr ?_
      intro i j hi hj' hlt
      have hi' := hj.log_index i hi
      have hj'' := hj.log_index j hj'
      simp only [List.getElem?_eq_getElem hi, List.getElem?_eq_getElem hj', Option.map_some,
        Option.some.injEq] at hi' hj''
      omega
    exact hlog.sublist (hj.entriesOf_prefix a).sublist
  delivered_term r hr e he := (hj.delivered_own (a, r) (mem_proj.mp hr) e he).2

end Jraft

end Jkv
