import Jkv.Cluster.Linearizability
import Jkv.Server.Stranded

/-!
# A command that was accepted is settled

A server alone cannot tell whether the entry that comes at the place of a proposal is the
proposal's own.  In a group it is (`Submitted.entry_eq`), so an accepted request is handed out to
nothing but its own entry, and is left without an answer only if it was a request for nothing
(`accepted_settled`).  Whatever else is committed in the group, a configuration change or the empty
entries of new leaders, takes no answer from anybody.

That an accepted request has an entry is assumed (`Record.Appends`).  A request that `Propose` has
refused waits for an entry that may be somebody else's.
-/

namespace Jkv

open Machine

variable {ι σ : Type} [DecidableEq ι] {raft : RawNode σ} {codec : Codec} {log : List Entry}
  {c₀ c : ι → Server σ} {h : List (ι × Record)} {a : ι} {p : Proposal} {req : KvReq}

/-- What was stranded was queued, and the entry of its place was delivered and answers nobody. -/
lemma LedgerSteps.stranded {l₀ l : Ledger} {h : List Record} (hs : LedgerSteps codec l₀ h l)
    (hempty : l₀.proposals = []) {d : Closure} (hd : d ∈ strandedOf codec h) :
    ∃ r ∈ h, ∃ p ∈ proposedOf h, ∃ e, p.done = d ∧ r.delivery? = some e ∧
      p.index = e.index ∧ p.term = e.term ∧ e.silent codec = true := by
  obtain ⟨r, hr, hstranded⟩ := List.mem_filterMap.mp hd
  obtain ⟨h₁, h₂, rfl⟩ := List.append_of_mem hr
  obtain ⟨l₁, l₂, hfirst, hstep, -⟩ := Steps.exists_step hs
  cases hstep with
  | @delivered v e db x hdb hx =>
      cases hfound : x.found with
      | none =>
          rw [hfound] at hstranded
          cases hstranded
      | some p =>
          rw [hfound, Record.stranded?] at hstranded
          dsimp only at hstranded
          split_ifs at hstranded with hsilent
          cases hstranded
          have hpending : p ∈ l₁.proposals := by
            rw [← popFor_append v.leader e l₁.proposals, ← hx, hfound]
            simp
          obtain ⟨hindex, hterm⟩ := popFor_found (hx ▸ hfound)
          refine ⟨_, List.mem_append_right _ List.mem_cons_self, p, ?_, e, rfl, rfl, hindex, hterm,
            hsilent⟩
          rw [proposedOf_append]
          exact List.mem_append_left _ (LedgerSteps.pending_subset hfirst hempty hpending)
  | _ => cases hstranded

/-- In a group, only a request for nothing is stranded. -/
lemma Submitted.stranded (run : (cluster ι raft codec).Run c₀ h c) (hfresh : (c₀ a).Fresh)
    (hj : Jraft log h) (happ : ∀ x ∈ h, x.2.Appends codec) (hsub : Submitted h a p req)
    (hd : p.done ∈ strandedOf codec (proj a h)) : req.cmdType = kInvalid := by
  obtain ⟨r, hr, p', hp', e, hdone, he, hindex, hterm, hsilent⟩ :=
    LedgerSteps.stranded (cluster_ledger run a) hfresh.proposals hd
  obtain rfl := proposed_inj run hfresh hp' hsub.mem_proposedOf hdone
  rw [hsub.entry_eq run hj happ (mem_proj.mp hr) he hindex hterm] at hsilent
  rcases Entry.silent_iff.mp hsilent with htype | ⟨req', hparse, hinvalid⟩
  · exact absurd rfl htype
  · rw [hsub.parse_entry run] at hparse
    obtain rfl := Option.some.inj hparse
    exact hinvalid

/-- **A command that was accepted is settled.**  In every run of a group in which `Propose` refuses
nothing, a request that was let in at some peer is in exactly one of three states: it waits in the
queue, and its client has been told nothing; it was answered, exactly once; or it was a request for
nothing, has left the queue, and is never answered.  So a `get`, a `put` or a `del` is never lost,
and never answered twice. -/
theorem accepted_settled (run : (cluster ι raft codec).Run c₀ h c) (hfresh : (c₀ a).Fresh)
    (hj : Jraft log h) (happ : ∀ x ∈ h, x.2.Appends codec) (hsub : Submitted h a p req) :
    (p ∈ (c a).proposals ∧ (c a).ran.filter (·.done = p.done) = []) ∨
    (p ∉ (c a).proposals ∧ ∃ cb, (c a).ran.filter (·.done = p.done) = [cb]) ∨
    (p ∉ (c a).proposals ∧ (c a).ran.filter (·.done = p.done) = [] ∧ req.cmdType = kInvalid) := by
  have hs := cluster_ledger run a
  have hb := LedgerSteps.balanced hs hfresh.calls hfresh.proposals hfresh.ran
  have hnodup := hb.nodup
  have haccepted : p.done ∈ acceptedOf (proj a h) ++ refusedOf (proj a h) :=
    List.mem_append_left _ (List.mem_map_of_mem hsub.mem_proposedOf)
  have hmem := hb.once.symm.subset ((LedgerSteps.closures_perm hs hfresh.calls).subset haccepted)
  have hnone : ∀ {d : Closure}, d ∉ (c a).ran.map Callback.done →
      (c a).ran.filter (·.done = d) = [] := by
    intro d hd
    refine List.filter_eq_nil_iff.mpr ?_
    intro cb hcb hsame
    rw [decide_eq_true_eq] at hsame
    exact hd (hsame ▸ List.mem_map_of_mem hcb)
  rcases List.mem_append.mp hmem with hlive | hstranded
  · rcases List.mem_append.mp hlive with hran | hpending
    · refine Or.inr (Or.inl ⟨?_, ?_⟩)
      · intro hp
        exact List.disjoint_of_nodup_append hnodup.of_append_left hran (List.mem_map_of_mem hp)
      · obtain ⟨cb, hcb, hdone⟩ := List.mem_map.mp hran
        exact ⟨cb, hdone ▸ hb.filter_ran hcb⟩
    · obtain ⟨p', hp', hdone⟩ := List.mem_map.mp hpending
      obtain rfl := proposed_inj run hfresh (LedgerSteps.pending_subset hs hfresh.proposals hp')
        hsub.mem_proposedOf hdone
      refine Or.inl ⟨hp', hnone ?_⟩
      intro hran
      exact List.disjoint_of_nodup_append hnodup.of_append_left hran hpending
  · refine Or.inr (Or.inr ⟨?_, hnone ?_, hsub.stranded run hfresh hj happ hstranded⟩)
    · intro hp
      exact List.disjoint_of_nodup_append hnodup
        (List.mem_append_right _ (List.mem_map_of_mem hp)) hstranded
    · intro hran
      exact List.disjoint_of_nodup_append hnodup (List.mem_append_left _ hran) hstranded

/-- A `put` and a request for nothing are let in by one leader and committed together.  The first is
answered, and the second is not. -/
theorem accepted_settled_invalid :
    let log : List Entry := [⟨1, 1, .kEntryNormal, []⟩,
      (Proposal.mk 2 1 {} 0).entry openCodec (putRequest 7 9), ⟨1, 3, .kEntryNormal, []⟩]
    ∃ h c, (cluster ℕ TrioNode.raft openCodec).Run trioServer h c ∧ Jraft log h ∧
      Submitted h 1 ⟨2, 1, {}, 0⟩ (putRequest 7 9) ∧ Submitted h 1 ⟨3, 1, {}, 1⟩ {} ∧
      (∃ cb, (c 1).ran.filter (·.done = 0) = [cb]) ∧ (c 1).ran.filter (·.done = 1) = [] := by
  intro log
  obtain ⟨h, c, run, hval⟩ := Machine.exists_run (M := cluster ℕ TrioNode.raft openCodec)
    ((elect 1).map (Prod.mk 1) ++ [(1, .kvOp (putRequest 7 9)), (1, .kvOp {}),
      (2, appendEntries 1 0 log 0), (1, acknowledge 1 3), (1, tickConnected)])
    (fun r => decide (Jraft log r.1) && decide (∀ x ∈ r.1, x.2.Appends openCodec) &&
      decide ((r.2 1).proposals = []) && decide ((r.2 1).ran = [⟨0, {}⟩]) &&
      decide (submissions r.1 = [(1, ⟨2, 1, {}, 0⟩, putRequest 7 9), (1, ⟨3, 1, {}, 1⟩, {})]))
    (s := trioServer) (b := true) (by decide +kernel)
  simp only [Bool.and_eq_true, decide_eq_true_eq] at hval
  obtain ⟨⟨⟨⟨hj, happ⟩, hempty⟩, hran⟩, hsubs⟩ := hval
  have hput : Submitted h 1 ⟨2, 1, {}, 0⟩ (putRequest 7 9) :=
    submitted_of_mem (by rw [hsubs]; simp)
  have hnothing : Submitted h 1 ⟨3, 1, {}, 1⟩ {} := submitted_of_mem (by rw [hsubs]; simp)
  refine ⟨h, c, run, hj, hput, hnothing, ?_, ?_⟩
  · rcases accepted_settled run (trioServer_fresh 1) hj happ hput with
      ⟨hp, -⟩ | ⟨-, hanswered⟩ | ⟨-, -, htype⟩
    · rw [hempty] at hp
      cases hp
    · exact hanswered
    · cases htype
  · rcases accepted_settled run (trioServer_fresh 1) hj happ hnothing with
      ⟨-, hnone⟩ | ⟨-, cb, hcb⟩ | ⟨-, hnone, -⟩
    · exact hnone
    · rw [hran] at hcb
      cases hcb
    · exact hnone

end Jkv
