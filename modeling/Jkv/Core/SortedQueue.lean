import Mathlib.Order.Lattice
import Mathlib.Data.List.Pairwise

/-!
# Popping a queue up to a key

A queue whose elements carry a key is popped from the front until an element with a key at or
above `k` shows up.  The elements below `k` are rejected, an element with key `k` is handed out,
and the rest stays.  `popTo` does not assume the queue sorted; `popTo_queue_gt` is what sortedness
buys: the early exits of the loop then never hide an element at or below `k`.

`popEach` pops up to one key after the other.  On a sorted queue, with increasing keys, that is a
merge join: each key is handed its own element (`popEach_found`), the elements that no key asked for
are rejected on the way (`popEach_rejected`), and those beyond the last key stay
(`popEach_queue`).
-/

/-- The outcome of popping: the element handed out, the elements rejected on the way, and the
queue left behind. -/
structure Popped (α : Type*) where
  found : Option α
  rejected : List α
  queue : List α
  deriving DecidableEq

variable {α κ : Type*}

/-- One more element rejected in front of what was rejected later. -/
def Popped.reject (p : α) (r : Popped α) : Popped α := { r with rejected := p :: r.rejected }

section LinearOrder

variable [LinearOrder κ] (key : α → κ)

/-- Pop `q` up to the key `k`. -/
def popTo (k : κ) : List α → Popped α
  | [] => ⟨none, [], []⟩
  | p :: q =>
      if key p < k then (popTo k q).reject p
      else if key p = k then ⟨some p, [], q⟩
      else ⟨none, [], p :: q⟩

variable {key} {k : κ} {q : List α}

/-- Popping loses nothing and keeps the order. -/
theorem popTo_append (key : α → κ) (k : κ) (q : List α) :
    (popTo key k q).rejected ++ (popTo key k q).found.toList ++ (popTo key k q).queue = q := by
  induction q with
  | nil => rfl
  | cons p q ih =>
      rw [popTo]
      split_ifs
      · simpa [Popped.reject] using ih
      · rfl
      · rfl

lemma popTo_rejected_lt {p : α} (hp : p ∈ (popTo key k q).rejected) : key p < k := by
  induction q with
  | nil => simp [popTo] at hp
  | cons p' q ih =>
      rw [popTo] at hp
      split_ifs at hp with hlt
      · rcases List.mem_cons.mp hp with rfl | hp
        · exact hlt
        · exact ih hp
      · simp at hp
      · simp at hp

lemma popTo_found_eq {p : α} (hp : (popTo key k q).found = some p) : key p = k := by
  induction q with
  | nil => simp [popTo] at hp
  | cons p' q ih =>
      rw [popTo] at hp
      split_ifs at hp with hlt heq
      · exact ih hp
      · cases hp
        exact heq

/-- What lies above the key stays. -/
lemma mem_popTo_queue {p : α} (hp : p ∈ q) (hk : k < key p) : p ∈ (popTo key k q).queue := by
  rw [← popTo_append key k q, List.mem_append, List.mem_append] at hp
  rcases hp with (hp | hp) | hp
  · exact absurd (popTo_rejected_lt hp) hk.not_gt
  · exact absurd (popTo_found_eq (Option.mem_toList.mp hp)) hk.ne'
  · exact hp

/-- **In a strictly sorted queue nothing at or below the key is left behind.** -/
theorem popTo_queue_gt (hq : q.Pairwise fun p p' => key p < key p') {p : α}
    (hp : p ∈ (popTo key k q).queue) : k < key p := by
  induction q with
  | nil => simp [popTo] at hp
  | cons p' q ih =>
      obtain ⟨hhead, htail⟩ := List.pairwise_cons.mp hq
      rw [popTo] at hp
      split_ifs at hp with hlt heq
      · exact ih htail hp
      · exact heq ▸ hhead p hp
      · have hfront : k < key p' := lt_of_le_of_ne (not_lt.mp hlt) (Ne.symm heq)
        rcases List.mem_cons.mp hp with rfl | hp
        · exact hfront
        · exact hfront.trans (hhead p hp)

/-- What has the key is handed out. -/
lemma popTo_found_of_mem (hq : q.Pairwise fun p p' => key p < key p') {p : α} (hp : p ∈ q)
    (hk : key p = k) : (popTo key k q).found = some p := by
  rw [← popTo_append key k q, List.mem_append, List.mem_append] at hp
  rcases hp with (hp | hp) | hp
  · exact absurd hk (popTo_rejected_lt hp).ne
  · exact Option.mem_toList.mp hp
  · exact absurd hk (popTo_queue_gt hq hp).ne'

/-! ## One key after the other -/

/-- The outcome of popping up to several keys: what was handed out at each of them, the elements
rejected on the way, and the queue left behind. -/
structure PoppedEach (α : Type*) where
  found : List (Option α)
  rejected : List α
  queue : List α

variable (key) in
/-- Pop `q` up to each of the keys in turn. -/
def popEach : List κ → List α → PoppedEach α
  | [], q => ⟨[], [], q⟩
  | k :: ks, q =>
      let r := popTo key k q
      let rest := popEach ks r.queue
      ⟨r.found :: rest.found, r.rejected ++ rest.rejected, rest.queue⟩

/-- What popping leaves of a sorted queue is sorted. -/
lemma popTo_queue_pairwise (hq : q.Pairwise fun p p' => key p < key p') :
    (popTo key k q).queue.Pairwise fun p p' => key p < key p' := by
  rw [← popTo_append key k q] at hq
  exact (List.pairwise_append.mp hq).2.1

/-- A filter that drops the element at the key, part by part. -/
lemma filter_popTo (key : α → κ) (k : κ) (q : List α) {P : α → Bool}
    (hat : ∀ p, key p = k → P p = false) :
    q.filter P = (popTo key k q).rejected.filter P ++ (popTo key k q).queue.filter P := by
  have hfound : (popTo key k q).found.toList.filter P = [] := by
    refine List.filter_eq_nil_iff.mpr ?_
    intro p hp
    simp [hat p (popTo_found_eq (Option.mem_toList.mp hp))]
  conv_lhs => rw [← popTo_append key k q]
  rw [List.filter_append, List.filter_append, hfound, List.append_nil]

/-- In a sorted queue the element at the key is handed out if there is one. -/
lemma popTo_found (hq : q.Pairwise fun p p' => key p < key p') :
    (popTo key k q).found = q.find? (key · = k) := by
  induction q with
  | nil => rfl
  | cons p q ih =>
      obtain ⟨hhead, htail⟩ := List.pairwise_cons.mp hq
      rw [popTo, List.find?_cons]
      split_ifs with hlt heq
      · simpa [Popped.reject, hlt.ne] using ih htail
      · simp [heq]
      · have hfront : k < key p := lt_of_le_of_ne (not_lt.mp hlt) (Ne.symm heq)
        have hnone : q.find? (key · = k) = none := by
          refine List.find?_eq_none.mpr ?_
          intro p' hp'
          simpa using (hfront.trans (hhead p' hp')).ne'
        simp [heq, hnone]

/-- Popping does not touch what is asked for later. -/
lemma find?_popTo_queue {k' : κ} (hk : k < k') :
    (popTo key k q).queue.find? (key · = k') = q.find? (key · = k') := by
  have hrejected : (popTo key k q).rejected.find? (key · = k') = none := by
    refine List.find?_eq_none.mpr ?_
    intro p hp
    simpa using ((popTo_rejected_lt hp).trans hk).ne
  have hfound : (popTo key k q).found.toList.find? (key · = k') = none := by
    refine List.find?_eq_none.mpr ?_
    intro p hp
    simpa [popTo_found_eq (Option.mem_toList.mp hp)] using hk.ne
  conv_rhs => rw [← popTo_append key k q]
  rw [List.find?_append, List.find?_append, hrejected, hfound]
  rfl

section Sorted

variable {ks : List κ} (hq : q.Pairwise fun p p' => key p < key p') (hks : ks.Pairwise (· < ·))

include hq hks

/-- **Each key is handed its own element.** -/
theorem popEach_found : (popEach key ks q).found = ks.map fun k => q.find? (key · = k) := by
  induction ks generalizing q with
  | nil => rfl
  | cons k ks ih =>
      obtain ⟨hhead, htail⟩ := List.pairwise_cons.mp hks
      rw [popEach, List.map_cons]
      dsimp only
      rw [popTo_found hq, ih (popTo_queue_pairwise hq) htail]
      refine congrArg _ (List.map_congr_left ?_)
      intro k' hk'
      exact find?_popTo_queue (hhead k' hk')

/-- **What no key asked for is rejected**, up to the last key. -/
theorem popEach_rejected : (popEach key ks q).rejected
    = q.filter fun p => (∃ k ∈ ks, key p < k) ∧ key p ∉ ks := by
  induction ks generalizing q with
  | nil => simp [popEach]
  | cons k ks ih =>
      obtain ⟨hhead, htail⟩ := List.pairwise_cons.mp hks
      rw [popEach]
      dsimp only
      rw [ih (popTo_queue_pairwise hq) htail, filter_popTo key k q (by simp +contextual)]
      congr 1
      · refine (List.filter_eq_self.mpr ?_).symm
        intro p hp
        have hlt := popTo_rejected_lt hp
        have hnotin : key p ∉ ks := fun hmem => (hlt.trans (hhead _ hmem)).false
        simp [hlt, hlt.ne, hnotin]
      · refine List.filter_congr ?_
        intro p hp
        have hgt := popTo_queue_gt hq hp
        simp [hgt.not_gt, hgt.ne']

/-- **What lies beyond every key stays.** -/
theorem popEach_queue : (popEach key ks q).queue = q.filter fun p => ∀ k ∈ ks, k < key p := by
  induction ks generalizing q with
  | nil => exact (List.filter_eq_self.mpr (by simp)).symm
  | cons k ks ih =>
      obtain ⟨-, htail⟩ := List.pairwise_cons.mp hks
      rw [popEach]
      dsimp only
      rw [ih (popTo_queue_pairwise hq) htail, filter_popTo key k q (by simp +contextual)]
      have hnone : (popTo key k q).rejected.filter (fun p => ∀ k' ∈ k :: ks, k' < key p) = [] := by
        refine List.filter_eq_nil_iff.mpr ?_
        intro p hp
        simp [(popTo_rejected_lt hp).not_gt]
      rw [hnone, List.nil_append]
      refine List.filter_congr ?_
      intro p hp
      simp [popTo_queue_gt hq hp]

end Sorted

end LinearOrder
