import Jkv.Cluster.Linearizability

/-!
# When `Propose` refuses a request

jraft may drop a proposal, and says so with `kErrProposalDropped`.  `ProposeKvOp` queues the
proposal before it calls `Propose` and does not look at what it returns, so the proposal of a
dropped request stays in the queue with an index and a term that the raft log will give to another
request.

`DropSafe` is what a client could expect of such a run; `dropSafe_iff` says it is kept exactly in
the runs in which nothing is dropped, and `dropped_acknowledged` shows a client being told that its
request was done when another one was.
-/

namespace Jkv

open Machine

/-- `Propose` refused the request. -/
def Record.Drops (r : Record) : Prop :=
  match r.act with
  | .proposed _ _ err => err = .kErrProposalDropped
  | _ => False

instance : ∀ r : Record, Decidable r.Drops
  | ⟨_, _, .proposed _ _ err⟩ => inferInstanceAs (Decidable (err = .kErrProposalDropped))
  | ⟨_, _, .refused _⟩ => .isFalse id
  | ⟨_, _, .stepped _ _⟩ => .isFalse id
  | ⟨_, _, .ticked⟩ => .isFalse id
  | ⟨_, _, .delivered _ _ _ _⟩ => .isFalse id

/-- `Propose` refuses and appends nothing, or appends. -/
def Record.AppendsOrDrops (codec : Codec) (r : Record) : Prop :=
  r.Drops ∧ r.after.log = r.before.log ∨ ¬ r.Drops ∧ r.Appends codec

instance (codec : Codec) (r : Record) : Decidable (r.AppendsOrDrops codec) :=
  inferInstanceAs (Decidable (_ ∨ _))

variable {ι σ : Type} [DecidableEq ι] {raft : RawNode σ} {codec : Codec} {log : List Entry}
  {c₀ c : ι → Server σ} {h : List (ι × Record)}

/-- What refusals must not break.  `refusals` is about every call of the run up to `h`: a refused
request is not queued, and its closure is run with `rejected` set. -/
structure DropSafe (raft : RawNode σ) (codec : Codec) (log : List Entry) (c₀ : ι → Server σ)
    (h : List (ι × Record)) (c : ι → Server σ) : Prop where
  refusals : ∀ h₁ c₁ a req c₂, (cluster ι raft codec).Run c₀ h₁ c₁ →
    (cluster ι raft codec).exec c₁ (a, .kvOp req) = some c₂ →
    h₁ ++ (cluster ι raft codec).obs c₁ (a, .kvOp req) <+: h →
    raft.isLeader (c₁ a).rawNode = true →
    (raft.propose (c₁ a).rawNode ((codec.serialize req).getD [])).1 = .kErrProposalDropped →
    (c₂ a).proposals = (c₁ a).proposals ∧
      (c₂ a).ran = (c₁ a).ran ++ [⟨(c₁ a).calls, { rejected := true }⟩]
  distinct : (∀ a, ((c a).proposals.map Proposal.key).Nodup) ∧
    ∀ a b, ∀ p ∈ (c a).proposals, ∀ p' ∈ (c b).proposals, p.key = p'.key → a = b
  given : ∀ a, ∀ p ∈ (c a).proposals, ∃ r req err, (a, r) ∈ h ∧ r.act = .proposed p req err ∧
    r.after.log[p.index - 1]? = some (p.entry codec req)
  acked : ∀ a p req cb, Acked h c a p req cb → log[p.index - 1]? = some (p.entry codec req)

/-! ## Without refusals -/

/-- Pending proposals of the group have keys of their own. -/
lemma pending_distinct (run : (cluster ι raft codec).Run c₀ h c) (hfresh : ∀ a, (c₀ a).Fresh)
    (hj : Jraft log h) (happ : ∀ x ∈ h, x.2.Appends codec) :
    (∀ a, ((c a).proposals.map Proposal.key).Nodup) ∧
      ∀ a b, ∀ p ∈ (c a).proposals, ∀ p' ∈ (c b).proposals, p.key = p'.key → a = b := by
  constructor
  · intro a
    rw [List.Nodup, List.pairwise_map]
    have hsorted := pending_sorted (cluster_ledger run a) (hj.peer happ a) (hfresh a).proposals
    exact hsorted.imp fun hlt => hlt.ne
  · intro a b p hp p' hp' hkey
    obtain ⟨r, hr, hpr⟩ :=
      mem_proposedOf.mp ((cluster_ledger run a).pending_subset (hfresh a).proposals hp)
    obtain ⟨r', hr', hpr'⟩ :=
      mem_proposedOf.mp ((cluster_ledger run b).pending_subset (hfresh b).proposals hp')
    have hq := (cluster_ledger run a).queued hr hpr
    have hq' := (cluster_ledger run b).queued hr' hpr'
    have hterm : p.term = p'.term := congrArg (fun k => (ofLex k).1) hkey
    exact hj.trace.election_safety _ (before_mem_samples (mem_proj.mp hr)) _
      (before_mem_samples (mem_proj.mp hr')) hq.leader hq'.leader
      (by rw [← hq.term, ← hq'.term, hterm])

/-- The position of a pending proposal was given to its own request. -/
lemma pending_given (run : (cluster ι raft codec).Run c₀ h c) (hfresh : ∀ a, (c₀ a).Fresh)
    (happ : ∀ x ∈ h, x.2.Appends codec) (a : ι) (p : Proposal) (hp : p ∈ (c a).proposals) :
    ∃ r req err, (a, r) ∈ h ∧ r.act = .proposed p req err ∧
      r.after.log[p.index - 1]? = some (p.entry codec req) := by
  obtain ⟨r, hr, hpr⟩ :=
    mem_proposedOf.mp ((cluster_ledger run a).pending_subset (hfresh a).proposals hp)
  obtain ⟨req, err, hact⟩ := Record.proposal?_eq_some.mp hpr
  have hq := (cluster_ledger run a).queued hr hpr
  obtain ⟨-, -, -, hgiven⟩ := hq.given (happ _ (mem_proj.mp hr)) hact
  exact ⟨r, req, err, mem_proj.mp hr, hact, hgiven⟩

/-! ## With refusals -/

/-- What a `KvOp` call of a leader shows and does. -/
lemma kvOp_call {c₁ c₂ : ι → Server σ} {a : ι} {req : KvReq}
    (hlead : raft.isLeader (c₁ a).rawNode = true)
    (hexec : (cluster ι raft codec).exec c₁ (a, .kvOp req) = some c₂) :
    ∃ r p err, (cluster ι raft codec).obs c₁ (a, .kvOp req) = [(a, r)] ∧
      r.act = .proposed p req err ∧
      err = (raft.propose (c₁ a).rawNode ((codec.serialize req).getD [])).1 ∧
      (c₂ a).proposals = (c₁ a).proposals ++ [p] := by
  obtain ⟨s', hs', rfl⟩ := Option.map_eq_some_iff.mp hexec
  have hrun := (serverMachine_exec raft codec).mp hs'
  rw [execEvent,
    run_kvOp_leader raft codec (s := { c₁ a with calls := (c₁ a).calls + 1 }) hlead] at hrun
  cases hdata : codec.serialize req with
  | none => rw [hdata] at hrun; cases hrun
  | some context =>
      rw [hdata] at hrun
      cases hrun
      let r := raft.propose (c₁ a).rawNode context
      let p : Proposal :=
        ⟨raft.lastIndex (c₁ a).rawNode + 1, raft.term (c₁ a).rawNode, {}, (c₁ a).calls⟩
      refine ⟨⟨raft.view (c₁ a).rawNode, raft.view r.2, .proposed p req r.1⟩, p, r.1, ?_, rfl, rfl,
        ?_⟩
      · show (observe raft codec (c₁ a) (.kvOp req)).map (Prod.mk a) = _
        simp only [observe, hlead, if_true, hdata]
        rfl
      · simp only [Function.update_self]
        rfl

/-- A record that shows a refusal comes from a leader's `KvOp` call whose `Propose` refused. -/
lemma drops_call {c₁ : ι → Server σ} {a : ι} {ev : Event} {x : ι × Record}
    (hx : x ∈ (cluster ι raft codec).obs c₁ (a, ev)) (hdrops : x.2.Drops) :
    ∃ req, ev = .kvOp req ∧ raft.isLeader (c₁ a).rawNode = true ∧
      (raft.propose (c₁ a).rawNode ((codec.serialize req).getD [])).1 = .kErrProposalDropped := by
  have hobs : (cluster ι raft codec).obs c₁ (a, ev)
      = (observe raft codec (c₁ a) ev).map (Prod.mk a) := rfl
  rw [hobs] at hx
  obtain ⟨r, hr, rfl⟩ := List.mem_map.mp hx
  cases ev with
  | kvOp req =>
      cases hlead : raft.isLeader (c₁ a).rawNode with
      | false =>
          simp only [observe, hlead, Bool.false_eq_true, if_false, List.mem_singleton] at hr
          subst hr
          exact hdrops.elim
      | true =>
          simp only [observe, hlead, if_true, List.mem_singleton] at hr
          subst hr
          exact ⟨req, rfl, rfl, hdrops⟩
  | step msg =>
      simp only [observe, List.mem_singleton] at hr
      subst hr
      exact hdrops.elim
  | tick connect =>
      exfalso
      rcases List.mem_cons.mp hr with rfl | hr
      · exact hdrops
      · obtain ⟨e, -, pending, rejected, found, rfl⟩ := mem_deliveries hr
        exact hdrops

/-- **Refusals are safe only when there are none.** -/
theorem dropSafe_iff (run : (cluster ι raft codec).Run c₀ h c) (hfresh : ∀ a, (c₀ a).Fresh)
    (hj : Jraft log h) (hpropose : ∀ x ∈ h, x.2.AppendsOrDrops codec) :
    DropSafe raft codec log c₀ h c ↔ ∀ x ∈ h, ¬ x.2.Drops := by
  constructor
  · intro hsafe x hx hdrops
    obtain ⟨h₁, c₁, ⟨a, ev⟩, c₂, run₁, hexec, hobs, hpre⟩ := run.exists_call hx
    obtain ⟨req, rfl, hlead, herr⟩ := drops_call hobs hdrops
    obtain ⟨r, p, err, -, -, -, hqueue⟩ := kvOp_call hlead hexec
    have hkept := (hsafe.refusals h₁ c₁ a req c₂ run₁ hexec hpre hlead herr).1
    -- the proposal was queued before the refusal was known
    rw [hqueue] at hkept
    have hlen := congrArg List.length hkept
    simp at hlen
  · intro hnone
    have happ : ∀ x ∈ h, x.2.Appends codec := by
      intro x hx
      rcases hpropose x hx with ⟨hdrops, -⟩ | ⟨-, happends⟩
      · exact absurd hdrops (hnone x hx)
      · exact happends
    refine ⟨?_, pending_distinct run hfresh hj happ, pending_given run hfresh happ, ?_⟩
    · intro h₁ c₁ a req c₂ run₁ hexec hpre hlead herr
      obtain ⟨r, p, err, hobs, hact, rfl, -⟩ := kvOp_call hlead hexec
      have hmem : (a, r) ∈ h := hpre.subset (by rw [hobs]; simp)
      exact absurd (show r.Drops by simp only [Record.Drops, hact, herr]) (hnone _ hmem)
    · intro a p req cb hack
      exact (hack.committed run (hfresh a) hj happ).2

/-- A run of three requests, none of them dropped. -/
theorem dropSafe_trio :
    let log : List Entry := [⟨1, 1, .kEntryNormal, []⟩, (Proposal.mk 2 1 {} 0).entry shortCodec
      (putRequest 7 9), (Proposal.mk 3 1 {} 1).entry shortCodec (getRequest 7)]
    ∃ h c, (cluster ℕ TrioNode.raft shortCodec).Run trioServer h c ∧
      (c 1).ran = [⟨0, {}⟩, ⟨1, { getResp := some ⟨[9]⟩ }⟩] ∧
      (c 1).proposals = [⟨4, 1, {}, 2⟩] ∧
      DropSafe TrioNode.raft shortCodec log trioServer h c := by
  intro log
  obtain ⟨h, c, run, hval⟩ := Machine.exists_run (M := cluster ℕ TrioNode.raft shortCodec)
    ((elect 1).map (Prod.mk 1) ++ [(1, .kvOp (putRequest 7 9)), (1, .kvOp (getRequest 7)),
      (2, appendEntries 1 0 log 0), (1, acknowledge 1 3), (1, .kvOp (delRequest 7)),
      (1, tickConnected)])
    (fun r => (decide (Jraft log r.1), decide (∀ x ∈ r.1, x.2.AppendsOrDrops shortCodec),
      decide (∀ x ∈ r.1, ¬ x.2.Drops), (r.2 1).ran, (r.2 1).proposals))
    (s := trioServer)
    (b := (true, true, true, [⟨0, {}⟩, ⟨1, { getResp := some ⟨[9]⟩ }⟩], [⟨4, 1, {}, 2⟩]))
    (by decide +kernel)
  simp only [Prod.mk.injEq, decide_eq_true_eq] at hval
  obtain ⟨hj, hpropose, hnone, hran, hqueue⟩ := hval
  exact ⟨h, c, run, hran, hqueue, (dropSafe_iff run trioServer_fresh hj hpropose).mpr hnone⟩

/-- A leader that is asked to hand over its leadership drops a `put`, and gives the transfer up.
The next `put` gets the index and term of the dropped one; when it is committed, the client of the
dropped one is told that its request was done. -/
theorem dropped_acknowledged :
    let log : List Entry := [⟨1, 1, .kEntryNormal, []⟩, (Proposal.mk 2 1 {} 1).entry shortCodec
      (putRequest 7 8)]
    ∃ h c, (cluster ℕ TrioNode.raft shortCodec).Run trioServer h c ∧ Jraft log h ∧
      (∀ x ∈ h, x.2.AppendsOrDrops shortCodec) ∧
      (∃ p, Acked h c 1 p (putRequest 7 9) ⟨0, {}⟩ ∧
        log[p.index - 1]? ≠ some (p.entry shortCodec (putRequest 7 9))) ∧
      ¬ DropSafe TrioNode.raft shortCodec log trioServer h c := by
  intro log
  obtain ⟨h, c, run, hval⟩ := Machine.exists_run (M := cluster ℕ TrioNode.raft shortCodec)
    ((elect 1 ++ [transferLeader, .kvOp (putRequest 7 9)]).map (Prod.mk 1) ++
      List.replicate 8 (1, tickConnected) ++ [(1, .kvOp (putRequest 7 8)),
      (2, appendEntries 1 0 log 0), (1, acknowledge 1 2), (1, tickConnected)])
    (fun r => (decide (Jraft log r.1), decide (∀ x ∈ r.1, x.2.AppendsOrDrops shortCodec),
      decide (∃ x ∈ r.1, x.1 = 1 ∧
        x.2.act = .proposed ⟨2, 1, {}, 0⟩ (putRequest 7 9) .kErrProposalDropped), (r.2 1).ran))
    (s := trioServer) (b := (true, true, true, [⟨0, {}⟩])) (by decide +kernel)
  simp only [Prod.mk.injEq, decide_eq_true_eq] at hval
  obtain ⟨hj, hpropose, ⟨⟨_, r⟩, hx, rfl, hact⟩, hran⟩ := hval
  have hack : Acked h c 1 ⟨2, 1, {}, 0⟩ (putRequest 7 9) ⟨0, {}⟩ :=
    ⟨⟨r, _, hx, hact⟩, by rw [hran]; exact List.mem_singleton_self _, rfl, rfl⟩
  have hother : log[1]? ≠ some ((Proposal.mk 2 1 {} 0).entry shortCodec (putRequest 7 9)) := by
    decide
  refine ⟨h, c, run, hj, hpropose, ⟨_, hack, hother⟩, ?_⟩
  intro hsafe
  exact hother (hsafe.acked _ _ _ _ hack)

end Jkv
