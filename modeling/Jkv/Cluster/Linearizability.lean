import Jkv.Cluster.Acknowledged

/-!
# Acknowledged operations are linearizable

The committed log is the order.  An acknowledged request stands in it at the position its proposal
guessed, alone there; a `get` was answered with what the entries before it leave at its key; and a
request that was submitted after another had been acknowledged stands after it.

The last point is where a guess could go wrong: a deposed leader may still propose.  If its request
is ever committed under the old term, it cannot have been in any log before it was proposed, since a
leader holds every entry of its own term; so nothing at or beyond its position had been delivered.
-/

namespace Jkv

open Machine

variable {ι σ : Type} [DecidableEq ι] {raft : RawNode σ} {codec : Codec} {log : List Entry}
  {c₀ c : ι → Server σ} {h : List (ι × Record)} {a b : ι} {r : Record} {p p' : Proposal}
  {req req' : KvReq} {cb cb' : Callback} {e : Entry}

/-- An acknowledged request is committed at the position of its proposal. -/
lemma Acked.committed (run : (cluster ι raft codec).Run c₀ h c) (hfresh : (c₀ a).Fresh)
    (hj : Jraft log h) (happ : ∀ x ∈ h, x.2.Appends codec) (hack : Acked h c a p req cb) :
    0 < p.index ∧ log[p.index - 1]? = some (p.entry codec req) := by
  obtain ⟨h₁, r, h₂, l₁, e, hsplit, -, hans⟩ := hack.delivered run hfresh
  have hr : (a, r) ∈ h := mem_proj.mp (by rw [hsplit]; simp)
  have hown := hack.submitted.entry_eq run hj happ hr hans.entry hans.index hans.term
  have hlog := hj.mem_log (hj.mem_log_of_delivered hr hans.entry)
  rw [hans.index, ← hown]
  exact hlog

/-- The entry of a request parses to the request. -/
lemma Submitted.parse_entry (run : (cluster ι raft codec).Run c₀ h c)
    (hsub : Submitted h a p req) : codec.parse (p.entry codec req).data = some req := by
  obtain ⟨r, err, hr, hact⟩ := hsub
  exact (cluster_ledger run a).serialized (mem_proj.mpr hr) hact

/-- An acknowledged `get` carries what the log before it leaves at its key. -/
lemma Acked.get_value (run : (cluster ι raft codec).Run c₀ h c) (hfresh : (c₀ a).Fresh)
    (hj : Jraft log h) (happ : ∀ x ∈ h, x.2.Appends codec) (hack : Acked h c a p req cb)
    (hget : req.cmdType = kGet) : ∃ val, cb.resp.getResp = some ⟨val⟩ ∧
      (replayLog codec (c₀ a).kvDb (log.take (p.index - 1))).lookup req.get.key = some val := by
  obtain ⟨h₁, r, h₂, l₁, e, hsplit, hfirst, hans⟩ := hack.delivered run hfresh
  have hr : (a, r) ∈ h := mem_proj.mp (by rw [hsplit]; simp)
  have hown := hack.submitted.entry_eq run hj happ hr hans.entry hans.index hans.term
  have hdb : l₁.kvDb = replayLog codec (c₀ a).kvDb (log.take (p.index - 1)) := by
    rw [hans.index, ← hj.entriesOf_eq_take hsplit hans.entry]
    exact LedgerSteps.kvDb_eq hfirst
  have hdecode : decode codec e = .ok (.get req.get.key) := by
    rw [hown, decode_normal rfl (hack.submitted.parse_entry run), commandOf, hget]
    rfl
  obtain ⟨db, happlied⟩ := hans.applied
  rw [applyEntry_of_decode hdecode] at happlied
  obtain ⟨val, hval⟩ := Finmap.mem_iff.mp ((Command.exec_eq_ok.mp happlied).2 _ rfl)
  have hanswer := hans.answer
  rw [answer_of_decode hdecode, Command.answer, List.mem_singleton, hval] at hanswer
  exact ⟨val, by rw [hanswer]; rfl, by rw [← hdb, hval]⟩

/-- Acknowledged requests stand alone at their positions. -/
lemma Acked.position_inj (run : (cluster ι raft codec).Run c₀ h c) (hfresh : ∀ a, (c₀ a).Fresh)
    (hj : Jraft log h) (happ : ∀ x ∈ h, x.2.Appends codec) (hack : Acked h c a p req cb)
    (hack' : Acked h c b p' req' cb') (hindex : p.index = p'.index) : a = b ∧ p = p' := by
  have hlog := (hack.committed run (hfresh a) hj happ).2
  rw [hindex, (hack'.committed run (hfresh b) hj happ).2, Option.some.injEq] at hlog
  have hterm : p'.term = p.term := congrArg Entry.term hlog
  obtain ⟨r, err, hr, hact, hq⟩ := hack.submitted.record run
  obtain ⟨r', err', hr', hact', hq'⟩ := hack'.submitted.record run
  have hpeer : a = b := hj.trace.election_safety _ (before_mem_samples hr) _
    (before_mem_samples hr') hq.leader hq'.leader (by rw [← hq.term, ← hq'.term, hterm])
  subst hpeer
  refine ⟨rfl, ?_⟩
  have hsorted := proposedOf_sorted (cluster_ledger run a) (hj.peer happ a)
  have hkeys : ((proposedOf (proj a h)).map Proposal.key).Nodup := by
    rw [List.Nodup, List.pairwise_map]
    exact hsorted.imp fun hlt => hlt.ne
  exact List.inj_on_of_nodup_map hkeys hack.submitted.mem_proposedOf
    hack'.submitted.mem_proposedOf (by rw [Proposal.key, Proposal.key, hterm, hindex])

/-- A request submitted after another was acknowledged stands after it. -/
lemma Acked.real_time {h₁ h₂ : List (ι × Record)} {c₁ : ι → Server σ}
    (run : (cluster ι raft codec).Run c₀ (h₁ ++ h₂) c) (run₁ : (cluster ι raft codec).Run c₀ h₁ c₁)
    (hfresh : ∀ a, (c₀ a).Fresh) (hj : Jraft log (h₁ ++ h₂))
    (happ : ∀ x ∈ h₁ ++ h₂, x.2.Appends codec) (hack : Acked h₁ c₁ a p req cb)
    (hsub : Submitted h₂ b p' req') (hack' : Acked (h₁ ++ h₂) c b p' req' cb') :
    p.index < p'.index := by
  by_contra hle
  obtain ⟨h₃, r, h₄, l₁, e, hsplit, -, hans⟩ := hack.delivered run₁ (hfresh a)
  have hr : (a, r) ∈ h₁ := mem_proj.mp (by rw [hsplit]; simp)
  obtain ⟨hpos, hlog⟩ := hack'.committed run (hfresh b) hj happ
  -- the later request's entry was delivered at `a` before it was proposed at `b`
  have hmem := List.mem_of_getElem? hlog
  obtain ⟨r₁, hr₁, he₁⟩ := hj.delivered_below hr hans.entry hmem
    (by rw [← hans.index]; exact not_lt.mp hle)
  obtain ⟨r₂, err, hr₂, hact⟩ := hsub
  have hq := (cluster_ledger run b).queued (mem_proj.mpr (List.mem_append_right _ hr₂))
    (Record.proposal?_eq_some.mpr ⟨req', err, hact⟩)
  obtain ⟨t₁, t₂, hsamples⟩ := List.append_of_mem (before_mem_samples hr₂)
  have htrace : samples (h₁ ++ h₂) = (samples h₁ ++ t₁) ++ (b, r₂.before) :: t₂ := by
    rw [samples, List.flatMap_append, List.append_assoc, ← hsamples]
    rfl
  have hown := (hj.delivered_own _ (List.mem_append_left _ hr₁) _ he₁).1
  have hheld := hj.trace.leader_holds htrace (List.mem_append_left _ (before_mem_samples hr₁)) hown
    hq.leader hq.term.symm
  have hlen := (List.getElem?_eq_some_iff.mp hheld).1
  have hindex : (p'.entry codec req').index = p'.index := rfl
  have hqindex := hq.index
  rw [hindex] at hlen
  dsimp only at hlen
  omega

/-- **Acknowledged operations are linearizable.**  In every state a group reaches, with the
committed log as the order: what was run without rejecting acknowledges a submitted request; an
acknowledged request is committed at the index and term of its proposal, and a `get` was answered
with what the entries before it, applied to the empty database, leave at its key; no two
acknowledged requests share a position; and a request submitted after another was acknowledged
stands after it. -/
theorem acked_linearizable (run : (cluster ι raft codec).Run c₀ h c) (hfresh : ∀ a, (c₀ a).Fresh)
    (hdb : ∀ a, (c₀ a).kvDb = ∅) (hj : Jraft log h) (happ : ∀ x ∈ h, x.2.Appends codec) :
    (∀ a, ∀ cb ∈ (c a).ran, cb.resp.rejected = false → ∃ p req, Acked h c a p req cb) ∧
    (∀ a p req cb, Acked h c a p req cb →
      (∃ e, log[p.index - 1]? = some e ∧ e.index = p.index ∧ e.term = p.term ∧
        codec.parse e.data = some req) ∧
      (req.cmdType = kGet → ∃ val, cb.resp.getResp = some ⟨val⟩ ∧
        (replayLog codec ∅ (log.take (p.index - 1))).lookup req.get.key = some val)) ∧
    (∀ a b p p' req req' cb cb', Acked h c a p req cb → Acked h c b p' req' cb' →
      p.index = p'.index → a = b ∧ p = p') ∧
    (∀ h₁ h₂ c₁ a b p p' req req' cb cb', h = h₁ ++ h₂ → (cluster ι raft codec).Run c₀ h₁ c₁ →
      Acked h₁ c₁ a p req cb → Submitted h₂ b p' req' → Acked h c b p' req' cb' →
      p.index < p'.index) := by
  refine ⟨?_, ?_, ?_, ?_⟩
  · intro a cb hcb hacc
    exact exists_acked run (hfresh a) hcb hacc
  · intro a p req cb hack
    have hcommitted := (hack.committed run (hfresh a) hj happ).2
    refine ⟨⟨_, hcommitted, rfl, rfl, hack.submitted.parse_entry run⟩, ?_⟩
    intro hget
    have hvalue := hack.get_value run (hfresh a) hj happ hget
    rwa [hdb a] at hvalue
  · intro a b p p' req req' cb cb' hack hack' hindex
    exact hack.position_inj run hfresh hj happ hack' hindex
  · rintro h₁ h₂ c₁ a b p p' req req' cb cb' rfl run₁ hack hsub hack'
    exact hack.real_time run run₁ hfresh hj happ hsub hack'

/-- A `put` acknowledged by the leader of term 1, and a `get` of its key acknowledged by another
leader, of term 2. -/
theorem acked_linearizable_trio :
    let log : List Entry := [⟨1, 1, .kEntryNormal, []⟩, (Proposal.mk 2 1 {} 0).entry shortCodec
      (putRequest 7 9), ⟨2, 3, .kEntryNormal, []⟩, (Proposal.mk 4 2 {} 0).entry shortCodec
      (getRequest 7)]
    ∃ h c, (cluster ℕ TrioNode.raft shortCodec).Run trioServer h c ∧ Jraft log h ∧
      (∀ x ∈ h, x.2.Appends shortCodec) ∧
      (∃ p req, Acked h c 1 p req ⟨0, {}⟩) ∧
      ∃ p req, Acked h c 2 p req ⟨0, { getResp := some ⟨[9]⟩ }⟩ := by
  intro log
  obtain ⟨h, c, run, hval⟩ := Machine.exists_run (M := cluster ℕ TrioNode.raft shortCodec)
    ((elect 1).map (Prod.mk 1) ++ [(1, .kvOp (putRequest 7 9)),
      (2, appendEntries 1 0 (log.take 2) 0), (1, acknowledge 1 2), (1, tickConnected),
      (2, appendEntries 1 2 [] 2), (2, tickConnected)] ++ (elect 2).map (Prod.mk 2) ++
      [(2, .kvOp (getRequest 7)), (3, appendEntries 2 0 log 0), (2, acknowledge 2 4),
        (2, tickConnected)])
    (fun r => (decide (Jraft log r.1), decide (∀ x ∈ r.1, x.2.Appends shortCodec), (r.2 1).ran,
      (r.2 2).ran))
    (s := trioServer) (b := (true, true, [⟨0, {}⟩], [⟨0, { getResp := some ⟨[9]⟩ }⟩]))
    (by decide +kernel)
  simp only [Prod.mk.injEq, decide_eq_true_eq] at hval
  obtain ⟨hj, happ, hput, hget⟩ := hval
  have hlin := acked_linearizable run trioServer_fresh (fun _ => rfl) hj happ
  exact ⟨h, c, run, hj, happ, hlin.1 1 _ (by rw [hput]; exact List.mem_singleton_self _) rfl,
    hlin.1 2 _ (by rw [hget]; exact List.mem_singleton_self _) rfl⟩

end Jkv
