import Jkv.Peer.Spec

/-!
# `GetProposal`, entry after entry

While a peer leads, `ProcessEntry` calls `GetProposal` once for every committed entry.  On a sorted
queue and increasing entries the calls together are a merge join of the two (`run_getProposals`,
`getProposals_mergeJoin`): every entry is handed the proposal of its own index and term, if the
queue has one; what lies below the last entry and belongs to none is rejected, once and in queue
order; and what lies beyond the last entry stays.
-/

namespace Jkv

variable {σ : Type}

/-- `GetProposal` for each of the entries in turn. -/
def getProposals (entries : List Entry) : PeerM σ (List (Option Proposal)) :=
  entries.mapM fun entry => getProposal entry.index entry.term

lemma run_getProposal (index term : ℕ) (s : Server σ) :
    (getProposal index term).run s =
      let r := popTo Proposal.key (toLex (term, index)) s.proposals
      .ok r.found (s.settled r) := by
  rw [← popProposals_eq_popTo]
  rfl

/-- The calls of `GetProposal` pop the queue up to one key after the other. -/
lemma run_getProposals (es : List Entry) (s : Server σ) :
    (getProposals es).run s =
      let r := popEach Proposal.key (es.map Entry.key) s.proposals
      .ok r.found { s with
        proposals := r.queue
        ran := s.ran ++ r.rejected.map Proposal.reject } := by
  induction es generalizing s with
  | nil => simp [getProposals, popEach]
  | cons e es ih =>
      have hcons : getProposals (σ := σ) (e :: es) = do
          let p ← getProposal e.index e.term
          let ps ← getProposals es
          return p :: ps := by rw [getProposals, List.mapM_cons]; rfl
      rw [hcons]
      simp only [EStateM.run_bind, run_getProposal, ih]
      simp [popEach, Server.settled, Entry.key]

/-- Among increasing keys, being below one of them is being below the last, and being beyond all of
them is being beyond the last. -/
lemma lt_last_iff {es : List Entry} {last : Entry} (hlast : es.getLast? = some last)
    (hes : es.Pairwise fun e e' => e.key < e'.key) (k : Key) :
    ((∃ k' ∈ es.map Entry.key, k < k') ↔ k < last.key) ∧
      ((∀ k' ∈ es.map Entry.key, k' < k) ↔ last.key < k) := by
  obtain ⟨es', rfl⟩ := List.getLast?_eq_some_iff.mp hlast
  have hle : ∀ e ∈ es' ++ [last], e.key ≤ last.key := by
    intro e he
    rcases List.mem_append.mp he with he | he
    · exact ((List.pairwise_append.mp hes).2.2 e he last List.mem_cons_self).le
    · rw [List.mem_singleton.mp he]
  have hmem : last ∈ es' ++ [last] := by simp
  constructor
  · constructor
    · rintro ⟨k', hk', hlt⟩
      obtain ⟨e, he, rfl⟩ := List.mem_map.mp hk'
      exact hlt.trans_le (hle e he)
    · intro hlt
      exact ⟨last.key, List.mem_map_of_mem hmem, hlt⟩
  · constructor
    · intro hall
      exact hall last.key (List.mem_map_of_mem hmem)
    · intro hlt k' hk'
      obtain ⟨e, he, rfl⟩ := List.mem_map.mp hk'
      exact (hle e he).trans_lt hlt

/-- **`GetProposal` over a sequence of commits is a merge join.**  On a strictly sorted queue and a
strictly increasing sequence of entries, the last of which is `last`: each call returns the proposal
of its entry's index and term, if the queue held one; the proposals below `last` that belong to no
entry are answered with `rejected` set, once each and in queue order; and the queue left is what
lies beyond `last`, in its order. -/
theorem getProposals_mergeJoin {es : List Entry} {last : Entry} {s : Server σ}
    (hlast : es.getLast? = some last) (hes : es.Pairwise fun e e' => e.key < e'.key)
    (hq : s.proposals.Pairwise fun p p' => p.key < p'.key) :
    (getProposals es).run s = .ok (es.map fun e => s.proposals.find? fun p => p.key = e.key)
      { s with
        proposals := s.proposals.filter fun p => last.key < p.key
        ran := s.ran ++ (s.proposals.filter fun p => p.key < last.key ∧
          p.key ∉ es.map Entry.key).map Proposal.reject } := by
  have hks : (es.map Entry.key).Pairwise (· < ·) := List.pairwise_map.mpr hes
  rw [run_getProposals]
  dsimp only
  rw [popEach_found hq hks, popEach_rejected hq hks, popEach_queue hq hks, List.map_map]
  simp only [lt_last_iff hlast hes]
  rfl

/-- Two of four proposals are committed.  The one between them is rejected, and the last one, whose
index the leader has not reached, stays. -/
theorem getProposals_mergeJoin_four :
    let es : List Entry := [⟨1, 2, .kEntryNormal, []⟩, ⟨2, 3, .kEntryNormal, []⟩]
    let s : Server Unit := { self := {}, peers := ∅, rawNode := (), kvDb := ∅
                             proposals := [⟨2, 1, {}, 0⟩, ⟨3, 1, {}, 1⟩, ⟨3, 2, {}, 2⟩,
                               ⟨4, 2, {}, 3⟩] }
    (getProposals es).run s = .ok [some ⟨2, 1, {}, 0⟩, some ⟨3, 2, {}, 2⟩]
      { s with proposals := [⟨4, 2, {}, 3⟩], ran := [⟨1, { rejected := true }⟩] } := by
  intro es s
  have hlast : es.getLast? = some ⟨2, 3, .kEntryNormal, []⟩ := rfl
  have hes : es.Pairwise fun e e' => e.key < e'.key := by decide
  have hq : s.proposals.Pairwise fun p p' => p.key < p'.key := by decide
  exact getProposals_mergeJoin hlast hes hq

end Jkv
