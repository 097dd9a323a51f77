import Mathlib.Data.Finmap
import Mathlib.Data.List.Perm.Basic

/-!
# Filling a table, row by row

A loop reads texts one after the other and puts what it reads into a table, under a key; it fails
when a text cannot be read, and when a key is taken.  `foldlM_addRow_eq_ok` says what the loop
comes to: it succeeds when every text can be read and the keys are distinct, and the table then has
the rows that were read and no others.  None of this depends on the order of the texts
(`foldlM_addRow_perm`), although the turn in which the loop fails does.
-/

variable {α β κ ε : Type*} [DecidableEq κ]

section

variable (read : α → Except ε β) (key : β → κ) (taken : ε)

/-- One turn: read a row and put it under its key, if the key is free. -/
def addRow (t : Finmap fun _ : κ => β) (a : α) : Except ε (Finmap fun _ : κ => β) :=
  match read a with
  | .error e => .error e
  | .ok b => if key b ∈ t then .error taken else .ok (t.insert (key b) b)

/-- The table has these rows, each under its key, and no others. -/
def HasRows (t : Finmap fun _ : κ => β) (rows : List β) : Prop :=
  ∀ k b, t.lookup k = some b ↔ b ∈ rows ∧ key b = k

end

namespace HasRows

variable {key : β → κ} {t t' : Finmap fun _ : κ => β} {rows rows' : List β} {b : β}

lemma empty : HasRows key ∅ [] := by
  intro k b
  simp

lemma mem_iff (h : HasRows key t rows) {k : κ} : k ∈ t ↔ k ∈ rows.map key := by
  rw [Finmap.mem_iff, List.mem_map]
  exact exists_congr fun b => h k b

lemma insert (h : HasRows key t rows) (hb : key b ∉ t) :
    HasRows key (t.insert (key b) b) (rows ++ [b]) := by
  intro k b'
  by_cases hk : k = key b
  · subst hk
    rw [Finmap.lookup_insert, Option.some.injEq, List.mem_append, List.mem_singleton]
    constructor
    · rintro rfl
      exact ⟨Or.inr rfl, rfl⟩
    · rintro ⟨hmem | rfl, hkey⟩
      · have htaken : key b ∈ t := h.mem_iff.mpr (List.mem_map.mpr ⟨b', hmem, hkey⟩)
        exact absurd htaken hb
      · rfl
  · rw [Finmap.lookup_insert_of_ne _ hk, h k b', List.mem_append, List.mem_singleton]
    constructor
    · rintro ⟨hmem, hkey⟩
      exact ⟨Or.inl hmem, hkey⟩
    · rintro ⟨hmem | rfl, hkey⟩
      · exact ⟨hmem, hkey⟩
      · exact absurd hkey.symm hk

/-- Rows with distinct keys can be put into a table. -/
lemma exists_of_nodup (h : (rows.map key).Nodup) : ∃ t, HasRows key t rows := by
  induction rows using List.reverseRecOn with
  | nil => exact ⟨∅, empty⟩
  | append_singleton rows b ih =>
      rw [List.map_append, List.map_singleton, List.nodup_append_comm, List.singleton_append,
        List.nodup_cons] at h
      obtain ⟨t, ht⟩ := ih h.2
      refine ⟨t.insert (key b) b, ht.insert ?_⟩
      rw [ht.mem_iff]
      exact h.1

/-- The rows determine the table. -/
lemma ext (h : HasRows key t rows) (h' : HasRows key t' rows')
    (hmem : ∀ b, b ∈ rows ↔ b ∈ rows') : t = t' := by
  refine Finmap.ext_lookup ?_
  intro k
  refine Option.ext ?_
  intro b
  rw [h k b, h' k b, hmem]

/-- Rows with distinct keys are as many as the table has keys. -/
lemma card_keys (h : HasRows key t rows) (hnodup : (rows.map key).Nodup) :
    t.keys.card = rows.length := by
  have hkeys : t.keys = (rows.map key).toFinset := by
    ext k
    rw [Finmap.mem_keys, h.mem_iff, List.mem_toFinset]
  rw [hkeys, List.toFinset_card_of_nodup hnodup, List.length_map]

end HasRows

variable {read : α → Except ε β} {key : β → κ} {taken : ε}

/-- The rows that are read, side by side with the texts. -/
lemma forall₂_read_iff {as : List α} {rows : List β} :
    List.Forall₂ (fun a b => read a = .ok b) as rows ↔ as.map read = rows.map .ok := by
  rw [← List.forall₂_eq_eq_eq, List.forall₂_map_left_iff, List.forall₂_map_right_iff]

/-- The rows are what the texts say. -/
lemma mem_rows_iff {as : List α} {rows : List β}
    (h : List.Forall₂ (fun a b => read a = .ok b) as rows) (b : β) :
    b ∈ rows ↔ ∃ a ∈ as, read a = .ok b := by
  rw [forall₂_read_iff] at h
  rw [← List.mem_map, h, List.mem_map_of_injective (fun _ _ => Except.ok.inj)]

/-- Every text can be read. -/
lemma exists_row {as : List α} {rows : List β}
    (h : List.Forall₂ (fun a b => read a = .ok b) as rows) {a : α} (ha : a ∈ as) :
    ∃ b ∈ rows, read a = .ok b := by
  rw [forall₂_read_iff] at h
  have hmem : read a ∈ rows.map .ok := h ▸ List.mem_map_of_mem ha
  obtain ⟨b, hb, hread⟩ := List.mem_map.mp hmem
  exact ⟨b, hb, hread.symm⟩

lemma exists_rows {as : List α} (h : ∀ a ∈ as, ∃ b, read a = .ok b) :
    ∃ rows, List.Forall₂ (fun a b => read a = .ok b) as rows := by
  induction as with
  | nil => exact ⟨[], List.Forall₂.nil⟩
  | cons a as ih =>
      obtain ⟨⟨b, hb⟩, has⟩ := List.forall_mem_cons.mp h
      obtain ⟨rows, hrows⟩ := ih has
      exact ⟨b :: rows, List.Forall₂.cons hb hrows⟩

/-- One turn, by its outcome. -/
lemma addRow_eq_ok {t t' : Finmap fun _ : κ => β} {a : α} :
    addRow read key taken t a = .ok t' ↔
      ∃ b, read a = .ok b ∧ key b ∉ t ∧ t' = t.insert (key b) b := by
  rw [addRow]
  cases read a with
  | error e => simp
  | ok b =>
      by_cases hb : key b ∈ t
      · simp [hb]
      · simp [hb, eq_comm]

/-- **The loop**, from a table that is filled already. -/
lemma foldlM_addRow_from {t₀ t : Finmap fun _ : κ => β} {rows₀ : List β} {as : List α}
    (h₀ : HasRows key t₀ rows₀) (hnodup : (rows₀.map key).Nodup) :
    as.foldlM (addRow read key taken) t₀ = .ok t ↔ ∃ rows,
      List.Forall₂ (fun a b => read a = .ok b) as rows ∧ ((rows₀ ++ rows).map key).Nodup ∧
        HasRows key t (rows₀ ++ rows) := by
  induction as generalizing t₀ rows₀ with
  | nil =>
      rw [List.foldlM_nil]
      constructor
      · intro h
        cases h
        exact ⟨[], List.Forall₂.nil, by simpa using hnodup, by simpa using h₀⟩
      · rintro ⟨rows, hread, -, hrows⟩
        cases hread
        rw [List.append_nil] at hrows
        exact congrArg Except.ok (h₀.ext hrows fun b => Iff.rfl)
  | cons a as ih =>
      rw [List.foldlM_cons]
      cases hturn : addRow read key taken t₀ a with
      | error e =>
          constructor
          · intro h; cases h
          · rintro ⟨rows, hread, hdistinct, -⟩
            obtain ⟨b, rest, ha, -, rfl⟩ := List.forall₂_cons_left_iff.mp hread
            -- the key of the first row is free, so the turn has not failed
            have hfree : key b ∉ t₀ := by
              rw [List.map_append, List.map_cons] at hdistinct
              rw [h₀.mem_iff]
              intro hmem
              exact List.disjoint_of_nodup_append hdistinct hmem List.mem_cons_self
            rw [addRow_eq_ok.mpr ⟨b, ha, hfree, rfl⟩] at hturn
            cases hturn
      | ok t₁ =>
          obtain ⟨b, ha, hfree, rfl⟩ := addRow_eq_ok.mp hturn
          have hnodup₁ : ((rows₀ ++ [b]).map key).Nodup := by
            rw [h₀.mem_iff] at hfree
            rw [List.map_append, List.map_singleton, List.nodup_append_comm, List.singleton_append]
            exact List.nodup_cons.mpr ⟨hfree, hnodup⟩
          refine (ih (h₀.insert hfree) hnodup₁).trans ⟨?_, ?_⟩
          · rintro ⟨rows, hread, hdistinct, hrows⟩
            exact ⟨b :: rows, List.Forall₂.cons ha hread, by simpa using hdistinct,
              by simpa using hrows⟩
          · rintro ⟨rows, hread, hdistinct, hrows⟩
            obtain ⟨b', rest, ha', hrest, rfl⟩ := List.forall₂_cons_left_iff.mp hread
            rw [ha] at ha'
            cases ha'
            exact ⟨rest, hrest, by simpa using hdistinct, by simpa using hrows⟩

/-- **The loop, from the empty table.** -/
theorem foldlM_addRow_eq_ok {t : Finmap fun _ : κ => β} {as : List α} :
    as.foldlM (addRow read key taken) ∅ = .ok t ↔ ∃ rows,
      List.Forall₂ (fun a b => read a = .ok b) as rows ∧ (rows.map key).Nodup ∧
        HasRows key t rows := by
  simpa using foldlM_addRow_from (HasRows.empty) List.nodup_nil

/-- **The order of the texts does not matter.** -/
theorem foldlM_addRow_perm {t : Finmap fun _ : κ => β} {as as' : List α} (hperm : as.Perm as') :
    as.foldlM (addRow read key taken) ∅ = .ok t ↔
      as'.foldlM (addRow read key taken) ∅ = .ok t := by
  have himp : ∀ {as as' : List α}, as.Perm as' → as'.foldlM (addRow read key taken) ∅ = .ok t →
      as.foldlM (addRow read key taken) ∅ = .ok t := by
    intro as as' hperm h
    obtain ⟨rows', hread, hnodup, hrows⟩ := foldlM_addRow_eq_ok.mp h
    obtain ⟨rows, hread', hrowsperm⟩ := List.perm_comp_forall₂ hperm hread
    refine foldlM_addRow_eq_ok.mpr ⟨rows, hread', ?_, ?_⟩
    · exact (hrowsperm.map key).nodup_iff.mpr hnodup
    · intro k b
      rw [hrows k b, hrowsperm.mem_iff]
  exact ⟨himp hperm.symm, himp hperm⟩

/-- A loop that can read every text fails only on a key that is taken. -/
lemma foldlM_addRow_error {t₀ : Finmap fun _ : κ => β} {as : List α} {e : ε}
    (hread : ∀ a ∈ as, ∃ b, read a = .ok b)
    (h : as.foldlM (addRow read key taken) t₀ = .error e) : e = taken := by
  induction as generalizing t₀ with
  | nil => cases h
  | cons a as ih =>
      obtain ⟨⟨b, hb⟩, hrest⟩ := List.forall_mem_cons.mp hread
      rw [List.foldlM_cons, addRow, hb] at h
      dsimp only at h
      split_ifs at h
      · cases h
        rfl
      · exact ih hrest h

/-- **A loop that can read every text**: it has put every row that it read under its key, or it has
found two with one key. -/
theorem foldlM_addRow_of_read (key : β → κ) (taken : ε) {as : List α} {rows : List β}
    (hread : List.Forall₂ (fun a b => read a = .ok b) as rows) :
    ((rows.map key).Nodup → ∃ t, as.foldlM (addRow read key taken) ∅ = .ok t ∧
      HasRows key t rows) ∧
    (¬ (rows.map key).Nodup → as.foldlM (addRow read key taken) ∅ = .error taken) := by
  refine ⟨?_, ?_⟩
  · intro hnodup
    obtain ⟨t, ht⟩ := HasRows.exists_of_nodup hnodup
    exact ⟨t, foldlM_addRow_eq_ok.mpr ⟨rows, hread, hnodup, ht⟩, ht⟩
  · intro hdup
    cases hloop : as.foldlM (addRow read key taken) ∅ with
    | error e =>
        have htexts : ∀ a ∈ as, ∃ b, read a = .ok b := by
          intro a ha
          obtain ⟨b, -, hb⟩ := exists_row hread ha
          exact ⟨b, hb⟩
        rw [foldlM_addRow_error htexts hloop]
    | ok t =>
        obtain ⟨rows', hread', hnodup, -⟩ := foldlM_addRow_eq_ok.mp hloop
        -- the texts are read in one way only
        rw [forall₂_read_iff] at hread hread'
        have hrows : rows = rows' :=
          List.map_injective_iff.mpr (fun _ _ => Except.ok.inj) (hread.symm.trans hread')
        rw [hrows] at hdup
        exact absurd hnodup hdup
