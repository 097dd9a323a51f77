import Jkv.Cluster.Jraft

/-!
# Acknowledged requests and their log positions

A proposal guesses where its request will be: at the next index, under the current term.  When
`Propose` appends, the guess is right, and by log matching every log that has an entry of that index
and term has this very request there (`Submitted.entry_eq`).  A request that was acknowledged was
pending when such an entry was delivered, so the entry is its own (`Acked.delivered`).
-/

namespace Jkv

open Machine

variable {ι σ : Type}

/-- Peer `a` queued `p` for the request. -/
def Submitted (h : List (ι × Record)) (a : ι) (p : Proposal) (req : KvReq) : Prop :=
  ∃ r err, (a, r) ∈ h ∧ r.act = .proposed p req err

/-- The requests that were queued. -/
def submissions (h : List (ι × Record)) : List (ι × Proposal × KvReq) :=
  h.filterMap fun x => match x.2.act with
    | .proposed p req _ => some (x.1, p, req)
    | _ => none

lemma submitted_of_mem {h : List (ι × Record)} {a : ι} {p : Proposal} {req : KvReq}
    (hmem : (a, p, req) ∈ submissions h) : Submitted h a p req := by
  obtain ⟨⟨b, r⟩, hr, heq⟩ := List.mem_filterMap.mp hmem
  dsimp only at heq
  split at heq
  · next p' req' err hact =>
      cases heq
      exact ⟨r, err, hr, hact⟩
  · cases heq

/-- The entry a proposal waits for. -/
def Proposal.entry (codec : Codec) (p : Proposal) (req : KvReq) : Entry :=
  ⟨p.term, p.index, .kEntryNormal, (codec.serialize req).getD []⟩

/-- The request behind `p` was answered by `cb`, and not rejected. -/
structure Acked (h : List (ι × Record)) (c : ι → Server σ) (a : ι) (p : Proposal) (req : KvReq)
    (cb : Callback) : Prop where
  submitted : Submitted h a p req
  ran : cb ∈ (c a).ran
  done : cb.done = p.done
  accepted : cb.resp.rejected = false

/-- Where `Propose` appends, the raft log gives the position of a proposal to its request. -/
lemma Record.Queued.given {codec : Codec} {r : Record} {p : Proposal} {req : KvReq} {err : ErrNum}
    (hq : r.Queued p) (happ : r.Appends codec) (hact : r.act = .proposed p req err) :
    r.after.leader = true ∧ r.after.term = p.term ∧ r.after.log.length = p.index ∧
      r.after.log[p.index - 1]? = some (p.entry codec req) := by
  have hafter : r.after
      = { r.before with log := r.before.log ++ [proposedEntry codec r.before req] } := by
    simpa [Record.Appends, hact] using happ
  have hentry : proposedEntry codec r.before req = p.entry codec req := by
    simp [proposedEntry, Proposal.entry, hq.index, hq.term]
  rw [hafter, hentry]
  refine ⟨hq.leader, hq.term.symm, ?_, ?_⟩
  · simp [hq.index]
  · simp [hq.index]

variable [DecidableEq ι] {raft : RawNode σ} {codec : Codec} {log : List Entry}
  {c₀ c : ι → Server σ} {h : List (ι × Record)} {a b : ι} {r : Record} {p p' : Proposal}
  {req req' : KvReq} {cb cb' : Callback} {e : Entry}

/-- One server of the group, as its ledger. -/
lemma cluster_ledger (run : (cluster ι raft codec).Run c₀ h c) (a : ι) :
    LedgerSteps codec (c₀ a).ledger (proj a h) (c a).ledger := run_ledger (run.proj a)

lemma Submitted.mem_proposedOf (hsub : Submitted h a p req) : p ∈ proposedOf (proj a h) := by
  obtain ⟨r, err, hr, hact⟩ := hsub
  exact Jkv.mem_proposedOf.mpr ⟨r, mem_proj.mpr hr, Record.proposal?_eq_some.mpr ⟨req, err, hact⟩⟩

/-- A submission, with everything the record says about it. -/
lemma Submitted.record (run : (cluster ι raft codec).Run c₀ h c) (hsub : Submitted h a p req) :
    ∃ r err, (a, r) ∈ h ∧ r.act = .proposed p req err ∧ r.Queued p := by
  obtain ⟨r, err, hr, hact⟩ := hsub
  exact ⟨r, err, hr, hact, (cluster_ledger run a).queued (mem_proj.mpr hr)
    (Record.proposal?_eq_some.mpr ⟨req, err, hact⟩)⟩

/-- **Only its own entry has the index and term of a proposal.** -/
theorem Submitted.entry_eq (run : (cluster ι raft codec).Run c₀ h c) (hj : Jraft log h)
    (happ : ∀ x ∈ h, x.2.Appends codec) (hsub : Submitted h a p req) (hr : (b, r) ∈ h)
    (he : r.delivery? = some e) (hindex : p.index = e.index) (hterm : p.term = e.term) :
    e = p.entry codec req := by
  obtain ⟨r', err, hr', hact, hq⟩ := hsub.record run
  obtain ⟨-, -, -, hgiven⟩ := hq.given (happ _ hr') hact
  have hown := (hj.delivered_own _ hr e he).1
  rw [← hindex] at hown
  exact hj.trace.entry_unique (before_mem_samples hr) (after_mem_samples hr') hown hgiven
    (by simp [Proposal.entry, hterm])

/-- A peer's proposals are told apart by their closures. -/
lemma proposed_inj (run : (cluster ι raft codec).Run c₀ h c) (hfresh : (c₀ a).Fresh)
    (hp : p ∈ proposedOf (proj a h)) (hp' : p' ∈ proposedOf (proj a h)) (hdone : p.done = p'.done) :
    p = p' := by
  have hnodup := ((cluster_ledger run a).closures_nodup hfresh.calls).of_append_left
  exact List.inj_on_of_nodup_map hnodup hp hp' hdone

/-- An acknowledged request was pending when an entry of its index and term was delivered. -/
lemma Acked.delivered (run : (cluster ι raft codec).Run c₀ h c) (hfresh : (c₀ a).Fresh)
    (hack : Acked h c a p req cb) : ∃ h₁ r h₂ l₁ e, proj a h = h₁ ++ r :: h₂ ∧
      LedgerSteps codec (c₀ a).ledger h₁ l₁ ∧ Answers codec l₁ r p e cb := by
  obtain ⟨h₁, r, h₂, l₁, p', e, hsplit, hfirst, hans⟩ :=
    (cluster_ledger run a).answers hfresh.ran hack.ran hack.accepted
  have hp' : p' ∈ proposedOf (proj a h) := by
    rw [hsplit, proposedOf_append]
    exact List.mem_append_left _ (hfirst.pending_subset hfresh.proposals hans.pending)
  have hsame : p' = p := proposed_inj run hfresh hp' hack.submitted.mem_proposedOf
    (hans.done.symm.trans hack.done)
  exact ⟨h₁, r, h₂, l₁, e, hsplit, hfirst, hsame ▸ hans⟩

/-- Everything that was run without rejecting acknowledges a submission. -/
lemma exists_acked (run : (cluster ι raft codec).Run c₀ h c) (hfresh : (c₀ a).Fresh)
    (hcb : cb ∈ (c a).ran) (hacc : cb.resp.rejected = false) :
    ∃ p req, Acked h c a p req cb := by
  obtain ⟨h₁, r, h₂, l₁, p, e, hsplit, hfirst, hans⟩ :=
    (cluster_ledger run a).answers hfresh.ran hcb hacc
  obtain ⟨r', hr', hp'⟩ := mem_proposedOf.mp (hfirst.pending_subset hfresh.proposals hans.pending)
  have hmem : (a, r') ∈ h := mem_proj.mp (by rw [hsplit]; exact List.mem_append_left _ hr')
  obtain ⟨req, err, hact⟩ := Record.proposal?_eq_some.mp hp'
  exact ⟨p, req, ⟨r', err, hmem, hact⟩, hcb, hans.done, hacc⟩

end Jkv
