import Jkv.Cluster.Acknowledged

/-!
# Which rejections are final

A client that is told `rejected` may send its request again, to another peer.  That is safe when
the rejected request can never be committed any more.

`dead_of_not_mayFollow` is the reason a rejection can be trusted: the committed log has no entry for
a proposal that is pending when an entry is delivered, unless it is that entry or may follow it
(`Proposal.MayFollow`).  An entry of its index and term could not stand before the delivered one,
for then it had been delivered while the proposal was pending, and if it stands behind it, its term
is not smaller, for terms do not decrease along the log.

`GetProposal` rejects proposals of an earlier term only (`getProposal_rejections_final`).
`CallbackAll` does not look at the entry: it rejects what may be committed, or what is being applied
in the same call (`callbackAll_rejects_applied`), and is right when no pending proposal may follow
the entry at hand (`callbackAll_rejections_final`).
-/

namespace Jkv

open Machine

variable {ι σ : Type} [DecidableEq ι] {raft : RawNode σ} {codec : Codec} {log : List Entry}
  {c₀ c : ι → Server σ} {h : List (ι × Record)} {a : ι} {r : Record} {p : Proposal} {e f : Entry}

/-- The history of a peer around a delivery, with the ledger before it. -/
lemma exists_delivery (run : (cluster ι raft codec).Run c₀ h c) (hr : (a, r) ∈ h)
    (he : r.delivery? = some e) : ∃ h₁ h₂ l, proj a h = h₁ ++ r :: h₂ ∧
      LedgerSteps codec (c₀ a).ledger h₁ l ∧ r.pending = l.proposals ∧
      r.rejected = (popFor r.before.leader e l.proposals).rejected := by
  obtain ⟨h₁, h₂, hsplit⟩ := List.append_of_mem (mem_proj.mpr hr)
  have hs := cluster_ledger run a
  rw [hsplit] at hs
  obtain ⟨l, l', hfirst, hstep, -⟩ := Steps.exists_step hs
  exact ⟨h₁, h₂, l, hsplit, hfirst, hstep.pending_eq he⟩

/-- What was committed before an entry was delivered before it. -/
lemma delivered_before (hj : Jraft log h) {h₁ h₂ : List Record}
    (hsplit : proj a h = h₁ ++ r :: h₂) (he : r.delivery? = some e) (hf : f ∈ log)
    (hindex : f.index < e.index) : ∃ r' ∈ h₁, r'.delivery? = some f := by
  obtain ⟨hpos, hget⟩ := hj.mem_log hf
  have hmem : f ∈ entriesOf h₁ := by
    rw [hj.entriesOf_eq_take hsplit he]
    refine List.mem_of_getElem? (i := f.index - 1) ?_
    rw [List.getElem?_take_of_lt (by omega), hget]
  exact List.mem_filterMap.mp hmem

/-- What was committed before an entry is below everything that is pending at the entry. -/
lemma committed_lt_pending (hfresh : (c₀ a).Fresh) (hj : Jraft log h)
    (happ : ∀ x ∈ h, x.2.Appends codec) {h₁ h₂ : List Record} {l : Ledger}
    (hsplit : proj a h = h₁ ++ r :: h₂) (he : r.delivery? = some e)
    (hs : LedgerSteps codec (c₀ a).ledger h₁ l) (hp : p ∈ l.proposals) (hf : f ∈ log)
    (hindex : f.index < e.index) : f.key < p.key := by
  obtain ⟨r', hr', hentry⟩ := delivered_before hj hsplit he hf hindex
  obtain ⟨h₃, h₄, hcut⟩ := List.append_of_mem hr'
  have hpeer := hj.peer happ a
  rw [hsplit] at hpeer
  exact (delivered_lt_pending hs hpeer.of_append hfresh.proposals hcut hentry hp).1

/-- What was committed before an entry is in the log of a leader that delivers the entry. -/
lemma leader_has_committed (hj : Jraft log h) (happ : ∀ x ∈ h, x.2.Appends codec)
    {h₁ h₂ : List Record} (hsplit : proj a h = h₁ ++ r :: h₂) (he : r.delivery? = some e)
    (hlead : r.before.leader = true) (hf : f ∈ log) (hindex : f.index < e.index) :
    r.before.log[f.index - 1]? = some f := by
  obtain ⟨r', hr', hentry⟩ := delivered_before hj hsplit he hf hindex
  have hkeeps := (hj.peer happ a).keeps_delivered
  rw [hsplit, List.pairwise_append] at hkeeps
  exact hkeeps.2.2 r' hr' r List.mem_cons_self hlead f hentry

/-- The request of `p` is the entry `e`, or may be committed behind it. -/
def Proposal.MayFollow (p : Proposal) (e : Entry) : Prop :=
  e.index = p.index ∧ e.term = p.term ∨ e.index < p.index ∧ e.term ≤ p.term

instance (p : Proposal) (e : Entry) : Decidable (p.MayFollow e) :=
  inferInstanceAs (Decidable (_ ∨ _))

/-- **A proposal that is pending at an entry it cannot follow is dead.** -/
theorem dead_of_not_mayFollow (run : (cluster ι raft codec).Run c₀ h c) (hfresh : (c₀ a).Fresh)
    (hj : Jraft log h) (happ : ∀ x ∈ h, x.2.Appends codec) (hr : (a, r) ∈ h)
    (he : r.delivery? = some e) (hp : p ∈ r.pending) (hstale : ¬ p.MayFollow e) :
    ∀ f ∈ log, ¬ (f.index = p.index ∧ f.term = p.term) := by
  rintro f hf ⟨hindex, hterm⟩
  obtain ⟨h₁, h₂, l, hsplit, hfirst, hpending, -⟩ := exists_delivery run hr he
  rw [hpending] at hp
  have helog := hj.mem_log_of_delivered hr he
  rcases Nat.lt_trichotomy f.index e.index with hlt | heq | hgt
  · -- it would have been delivered before, and taken the proposal with it
    have hkey := committed_lt_pending hfresh hj happ hsplit he hfirst hp hf hlt
    rw [Entry.key, Proposal.key, hindex, hterm] at hkey
    exact lt_irrefl _ hkey
  · rw [hj.log_unique hf helog heq] at hindex hterm
    exact hstale (Or.inl ⟨hindex, hterm⟩)
  · have hle := hj.log_term_le helog hf hgt
    rw [hindex] at hgt
    rw [hterm] at hle
    exact hstale (Or.inr ⟨hgt, hle⟩)

/-- A log with an entry of the term of a proposal, beyond its index, continues the log the proposal
was appended to. -/
lemma Record.Queued.continued {r' : Record} {b : ι} {req : KvReq} {err : ErrNum}
    (hq : r'.Queued p) (hj : Jraft log h) (happ : ∀ x ∈ h, x.2.Appends codec) (hr' : (b, r') ∈ h)
    (hact : r'.act = .proposed p req err) (hr : (a, r) ∈ h) (he : r.delivery? = some e)
    (hterm : p.term = e.term) (hindex : p.index < e.index) :
    r.before.log[p.index - 1]? = some (p.entry codec req) := by
  obtain ⟨hlead', hterm', hlen', hgiven⟩ := hq.given (happ _ hr') hact
  have hown := (hj.delivered_own _ hr e he).1
  have helen := (List.getElem?_eq_some_iff.mp hown).1
  rcases hj.trace.leader_comparable (before_mem_samples hr) (after_mem_samples hr') hown hlead'
    (by rw [hterm', hterm]) with hpre | hpre
  · -- the log of the proposal ends before the entry
    have hlen := hpre.length_le
    rw [List.length_take] at hlen
    dsimp only at hlen helen
    omega
  · exact getElem?_of_prefix hpre hgiven

/-- A leader does not reject a proposal of the term of the entry: the entry would stand in a log
that continues the proposal's own, so the proposal's index would have been delivered with its
request. -/
lemma term_lt_of_rejected (run : (cluster ι raft codec).Run c₀ h c) (hfresh : (c₀ a).Fresh)
    (hj : Jraft log h) (happ : ∀ x ∈ h, x.2.Appends codec) (hr : (a, r) ∈ h)
    (he : r.delivery? = some e) (hlead : r.before.leader = true) (hp : p ∈ r.rejected) :
    p ∈ r.pending ∧ p.term < e.term := by
  obtain ⟨h₁, h₂, l, hsplit, hfirst, hpending, hrejected⟩ := exists_delivery run hr he
  rw [hrejected] at hp
  have hmem : p ∈ l.proposals := by
    rw [← popFor_append r.before.leader e l.proposals]
    simp [hp]
  refine ⟨hpending ▸ hmem, ?_⟩
  rw [hlead, popFor_leader] at hp
  have hkey := popTo_rejected_lt hp
  rw [Entry.key, Proposal.key_lt_iff] at hkey
  rcases hkey with hlt | ⟨hterm, hindex⟩
  · exact hlt
  exfalso
  obtain ⟨r', hr', hp'⟩ := mem_proposedOf.mp (hfirst.pending_subset hfresh.proposals hmem)
  have hr'h : (a, r') ∈ h := mem_proj.mp (by rw [hsplit]; exact List.mem_append_left _ hr')
  have hq := hfirst.queued hr' hp'
  obtain ⟨req, err, hact⟩ := Record.proposal?_eq_some.mp hp'
  have hlog := hq.continued hj happ hr'h hact hr he hterm hindex
  -- what was committed at the index of `p` is in the leader's log as well, and has an earlier term
  obtain ⟨f, hf, hfindex⟩ := hj.exists_index (hj.mem_log_of_delivered hr he)
    (show 0 < p.index by rw [hq.index]; omega) hindex.le
  have hbelow : f.index < e.index := by omega
  have hlt := committed_lt_pending hfresh hj happ hsplit he hfirst hmem hf hbelow
  have hsame := leader_has_committed hj happ hsplit he hlead hf hbelow
  rw [hfindex, hlog, Option.some.injEq] at hsame
  rw [← hsame] at hlt
  exact lt_irrefl _ hlt

/-! ## `GetProposal` -/

/-- **A rejection by `GetProposal` is final.**  When a leader rejects a proposal, the entry at hand
is of a later term, and the committed log has, and will have, no entry of the proposal's index and
term. -/
theorem getProposal_rejections_final (run : (cluster ι raft codec).Run c₀ h c)
    (hfresh : ∀ a, (c₀ a).Fresh) (hj : Jraft log h) (happ : ∀ x ∈ h, x.2.Appends codec)
    (hr : (a, r) ∈ h) (he : r.delivery? = some e) (hlead : r.before.leader = true)
    (hp : p ∈ r.rejected) :
    p.term < e.term ∧ ∀ f ∈ log, ¬ (f.index = p.index ∧ f.term = p.term) := by
  obtain ⟨hpending, hterm⟩ := term_lt_of_rejected run (hfresh a) hj happ hr he hlead hp
  have hstale : ¬ p.MayFollow e := by
    rw [Proposal.MayFollow]
    omega
  exact ⟨hterm, dead_of_not_mayFollow run (hfresh a) hj happ hr he hpending hstale⟩

/-- A proposal of term 1 is rejected by its own peer, which has lost it to the leader of term 2 and
leads again. -/
theorem getProposal_rejections_final_reelected :
    let log : List Entry := [⟨1, 1, .kEntryNormal, []⟩, ⟨2, 2, .kEntryNormal, []⟩,
      ⟨3, 3, .kEntryNormal, []⟩]
    ∃ h c, (cluster ℕ TrioNode.raft shortCodec).Run trioServer h c ∧ Jraft log h ∧
      (∀ x ∈ h, x.2.Appends shortCodec) ∧ ∃ x ∈ h, x.1 = 1 ∧ x.2.before.leader = true ∧
        ∃ p ∈ x.2.rejected, p.index = 2 ∧ p.term = 1 ∧
          ∀ f ∈ log, ¬ (f.index = p.index ∧ f.term = p.term) := by
  intro log
  obtain ⟨h, c, run, hval⟩ := Machine.exists_run (M := cluster ℕ TrioNode.raft shortCodec)
    ((elect 1).map (Prod.mk 1) ++ [(2, appendEntries 1 0 (log.take 1) 0),
      (1, .kvOp (putRequest 7 9))] ++ (elect 2).map (Prod.mk 2) ++
      [(1, appendEntries 2 1 [⟨2, 2, .kEntryNormal, []⟩] 0)] ++ (elect 3).map (Prod.mk 1) ++
      [(1, acknowledge 3 3), (1, tickConnected)])
    (fun r => (decide (Jraft log r.1), decide (∀ x ∈ r.1, x.2.Appends shortCodec),
      decide (∃ x ∈ r.1, x.1 = 1 ∧ x.2.before.leader = true ∧
        x.2.delivery? = some ⟨2, 2, .kEntryNormal, []⟩ ∧
        ∃ p ∈ x.2.rejected, p.index = 2 ∧ p.term = 1)))
    (s := trioServer) (b := (true, true, true)) (by decide +kernel)
  simp only [Prod.mk.injEq, decide_eq_true_eq] at hval
  obtain ⟨hj, happ, ⟨_, r⟩, hx, rfl, hlead, he, p, hp, hindex, hterm⟩ := hval
  have hfinal := getProposal_rejections_final run trioServer_fresh hj happ hx he hlead hp
  exact ⟨h, c, run, hj, happ, _, hx, rfl, hlead, p, hp, hindex, hterm, hfinal.2⟩

/-! ## `CallbackAll` -/

/-- Whenever a peer that does not lead processes an entry, nothing that is pending there may follow
the entry. -/
def StepsDownStale (h : List (ι × Record)) : Prop :=
  ∀ x ∈ h, x.2.before.leader = false → ∀ e ∈ x.2.delivery?, ∀ p ∈ x.2.pending, ¬ p.MayFollow e

/-- **A rejection by `CallbackAll` is final when what is pending is stale.**  As everywhere in this
module, `Propose` refuses nothing (`Record.Appends`): a request that was refused leaves a proposal
behind that an entry of somebody else may take the place of. -/
theorem callbackAll_rejections_final (run : (cluster ι raft codec).Run c₀ h c)
    (hfresh : ∀ a, (c₀ a).Fresh) (hj : Jraft log h) (happ : ∀ x ∈ h, x.2.Appends codec)
    (hstale : StepsDownStale h) (hr : (a, r) ∈ h) (he : r.delivery? = some e)
    (hlead : r.before.leader = false) (hp : p ∈ r.rejected) :
    ∀ f ∈ log, ¬ (f.index = p.index ∧ f.term = p.term) := by
  obtain ⟨_, _, l, _, _, hpending, hrejected⟩ := exists_delivery run hr he
  have hmem : p ∈ r.pending := by
    rw [hrejected, hlead, popFor_follower] at hp
    rw [hpending]
    exact hp
  exact dead_of_not_mayFollow run (hfresh a) hj happ hr he hmem (hstale _ hr hlead e he p hmem)

/-- A proposal of term 1 is rejected at an entry of term 2 that has taken its place. -/
theorem callbackAll_rejections_final_overwritten :
    let log : List Entry := [⟨1, 1, .kEntryNormal, []⟩, ⟨2, 2, .kEntryNormal, []⟩]
    ∃ h c, (cluster ℕ TrioNode.raft shortCodec).Run trioServer h c ∧ Jraft log h ∧
      (∀ x ∈ h, x.2.Appends shortCodec) ∧ StepsDownStale h ∧
      ∃ x ∈ h, x.1 = 1 ∧ x.2.before.leader = false ∧
        ∃ p ∈ x.2.rejected, p.index = 2 ∧ p.term = 1 ∧
          ∀ f ∈ log, ¬ (f.index = p.index ∧ f.term = p.term) := by
  intro log
  obtain ⟨h, c, run, hval⟩ := Machine.exists_run (M := cluster ℕ TrioNode.raft shortCodec)
    ((elect 1).map (Prod.mk 1) ++ [(2, appendEntries 1 0 (log.take 1) 0), (1, acknowledge 1 1),
      (1, tickConnected), (1, .kvOp (putRequest 7 9))] ++ (elect 2).map (Prod.mk 2) ++
      [(1, appendEntries 2 1 (log.drop 1) 2), (1, tickConnected)])
    (fun r => (decide (Jraft log r.1), decide (∀ x ∈ r.1, x.2.Appends shortCodec),
      decide (∀ x ∈ r.1, x.2.before.leader = false → ∀ e ∈ x.2.delivery?, ∀ p ∈ x.2.pending,
        ¬ p.MayFollow e),
      decide (∃ x ∈ r.1, x.1 = 1 ∧ x.2.before.leader = false ∧
        x.2.delivery? = some ⟨2, 2, .kEntryNormal, []⟩ ∧
        ∃ p ∈ x.2.rejected, p.index = 2 ∧ p.term = 1)))
    (s := trioServer) (b := (true, true, true, true)) (by decide +kernel)
  simp only [Prod.mk.injEq, decide_eq_true_eq] at hval
  obtain ⟨hj, happ, hstale, ⟨_, r⟩, hx, rfl, hlead, he, p, hp, hindex, hterm⟩ := hval
  have hfinal := callbackAll_rejections_final run trioServer_fresh hj happ hstale hx he hlead hp
  exact ⟨h, c, run, hj, happ, hstale, _, hx, rfl, hlead, p, hp, hindex, hterm, hfinal⟩

/-- The leader of term 1 replicates a `put` and is deposed; the leader of term 2 commits it.  The
deposed leader processes the `put` as a follower: it rejects the request and applies it, so it is
not true that what is rejected at a delivery is not what is delivered there or later. -/
theorem callbackAll_rejects_applied :
    ¬ ∀ (log : List Entry) (h h₁ h₂ : List (ℕ × Record)) (x : ℕ × Record)
        (c : ℕ → Server TrioNode),
      (cluster ℕ TrioNode.raft shortCodec).Run trioServer h c → Jraft log h →
      (∀ x ∈ h, x.2.Appends shortCodec) → h = h₁ ++ x :: h₂ → x.2.before.leader = false →
      ∀ p ∈ x.2.rejected, ∀ y ∈ x :: h₂, ∀ f ∈ y.2.delivery?,
        ¬ (f.index = p.index ∧ f.term = p.term) := by
  intro hall
  let log : List Entry := [⟨1, 1, .kEntryNormal, []⟩, (Proposal.mk 2 1 {} 0).entry shortCodec
    (putRequest 7 9), ⟨2, 3, .kEntryNormal, []⟩]
  obtain ⟨h, c, run, hval⟩ := Machine.exists_run (M := cluster ℕ TrioNode.raft shortCodec)
    ((elect 1).map (Prod.mk 1) ++ [(2, appendEntries 1 0 (log.take 1) 0), (1, acknowledge 1 1),
      (1, tickConnected), (1, .kvOp (putRequest 7 9)), (2, appendEntries 1 1 [log[1]] 1)] ++
      (elect 2).map (Prod.mk 2) ++ [(3, appendEntries 2 0 log 0), (2, acknowledge 2 3),
      (2, tickConnected), (1, appendEntries 2 2 (log.drop 2) 3), (1, tickConnected)])
    (fun r => (decide (Jraft log r.1), decide (∀ x ∈ r.1, x.2.Appends shortCodec),
      decide (∃ x ∈ r.1, x.2.before.leader = false ∧ ∃ p ∈ x.2.rejected, ∃ f ∈ x.2.delivery?,
        f.index = p.index ∧ f.term = p.term)))
    (s := trioServer) (b := (true, true, true)) (by decide +kernel)
  simp only [Prod.mk.injEq, decide_eq_true_eq] at hval
  obtain ⟨hj, happ, x, hx, hlead, p, hp, f, hf, hown⟩ := hval
  obtain ⟨h₁, h₂, hsplit⟩ := List.append_of_mem hx
  exact hall log h h₁ h₂ x c run hj happ hsplit hlead p hp x List.mem_cons_self f hf hown

end Jkv
