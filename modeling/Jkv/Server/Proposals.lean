import Jkv.Server.Replica

/-!
# The queue of proposals

What is pending at a server was proposed by it and has not been popped since, in the order it was
proposed (`LedgerSteps.proposals_sublist`); that needs nothing of jraft.

`PeerJraft` is what one peer may rely on: its term never decreases, while it leads a term its log
only grows and has what it delivered, and `Propose` appends.  Then a later proposal has a larger
key, term first, than an earlier one, and larger than every entry delivered before it.  So the queue
is sorted and lies above everything delivered (`proposals_invariant`), although indices alone may go
back after a truncation.
-/

namespace Jkv

/-- The proposal a record queued. -/
def Record.proposal? (r : Record) : Option Proposal :=
  match r.act with
  | .proposed p _ _ => some p
  | _ => none

lemma Record.proposal?_eq_some {r : Record} {p : Proposal} :
    r.proposal? = some p ↔ ∃ req err, r.act = .proposed p req err := by
  rw [Record.proposal?]
  split
  · next p' req err hact => simp [hact]
  · next hact =>
      constructor
      · intro hp; cases hp
      · rintro ⟨req, err, hp⟩; exact absurd hp (hact p req err)

/-- The proposals a history queued, in acceptance order. -/
def proposedOf (h : List Record) : List Proposal := h.filterMap Record.proposal?

@[simp] lemma proposedOf_append (h h' : List Record) :
    proposedOf (h ++ h') = proposedOf h ++ proposedOf h' := List.filterMap_append ..

lemma mem_proposedOf {h : List Record} {p : Proposal} :
    p ∈ proposedOf h ↔ ∃ r ∈ h, r.proposal? = some p := List.mem_filterMap

variable {codec : Codec} {l₀ l l' : Ledger} {h : List Record} {r : Record} {p : Proposal}

/-! ## What is pending was proposed -/

lemma LedgerStep.proposals_sublist (hs : LedgerStep codec l r l') :
    List.Sublist l'.proposals (l.proposals ++ proposedOf [r]) := by
  cases hs with
  | refused _ => exact List.sublist_append_left _ _
  | proposed _ _ _ => exact List.Sublist.refl _
  | stepped => exact List.sublist_append_left _ _
  | ticked => exact List.sublist_append_left _ _
  | delivered _ hr =>
      subst hr
      exact (popFor_queue_sublist _ _ _).trans (List.sublist_append_left _ _)

/-- The queue is what was proposed, less what was popped. -/
lemma LedgerSteps.proposals_sublist (hs : LedgerSteps codec l₀ h l) :
    List.Sublist l.proposals (l₀.proposals ++ proposedOf h) := by
  induction hs with
  | nil => simp
  | snoc _ hstep ih =>
      rw [proposedOf_append, ← List.append_assoc]
      exact hstep.proposals_sublist.trans (ih.append (List.Sublist.refl _))

/-- What is pending at the end was pending at any point in between, or has been proposed since. -/
lemma LedgerSteps.pending_cases (hs : LedgerSteps codec l h l') (hp : p ∈ l'.proposals) :
    p ∈ l.proposals ∨ p ∈ proposedOf h :=
  List.mem_append.mp (hs.proposals_sublist.subset hp)

lemma LedgerSteps.pending_subset (hs : LedgerSteps codec l₀ h l) (hempty : l₀.proposals = []) :
    l.proposals ⊆ proposedOf h := by
  have hsub := hs.proposals_sublist
  rw [hempty, List.nil_append] at hsub
  exact hsub.subset

/-- What a record says about the proposal it queued. -/
structure Record.Queued (r : Record) (p : Proposal) : Prop where
  leader : r.before.leader = true
  index : p.index = r.before.log.length + 1
  term : p.term = r.before.term

lemma LedgerStep.queued (hs : LedgerStep codec l r l') (hp : r.proposal? = some p) :
    r.Queued p := by
  cases hs with
  | proposed hlead hdata hp' =>
      cases hp
      subst hp'
      exact ⟨hlead, rfl, rfl⟩
  | _ => cases hp

lemma LedgerSteps.queued (hs : LedgerSteps codec l₀ h l) (hr : r ∈ h)
    (hp : r.proposal? = some p) : r.Queued p := by
  obtain ⟨h₁, h₂, rfl⟩ := List.append_of_mem hr
  obtain ⟨_, _, _, hstep, _⟩ := Steps.exists_step hs
  exact hstep.queued hp

/-- A request that was queued had been serialized. -/
lemma LedgerSteps.serialized {req : KvReq} {err : ErrNum} (hs : LedgerSteps codec l₀ h l)
    (hr : r ∈ h) (hact : r.act = .proposed p req err) :
    codec.parse ((codec.serialize req).getD []) = some req := by
  obtain ⟨h₁, h₂, rfl⟩ := List.append_of_mem hr
  obtain ⟨_, _, _, hstep, _⟩ := Steps.exists_step hs
  cases hstep with
  | proposed _ hdata _ =>
      cases hact
      rw [hdata]
      exact codec.parse_serialize hdata
  | _ => cases hact

/-! ## Who is acknowledged -/

/-- `cb` answers `p`, which was pending when `r` delivered `e` on the ledger `l`. -/
structure Answers (codec : Codec) (l : Ledger) (r : Record) (p : Proposal) (e : Entry)
    (cb : Callback) : Prop where
  pending : p ∈ l.proposals
  entry : r.delivery? = some e
  index : p.index = e.index
  term : p.term = e.term
  applied : ∃ db, applyEntry codec l.kvDb e = .ok db
  answer : cb ∈ answer codec l.kvDb e p

lemma Answers.done {e : Entry} {cb : Callback} (ha : Answers codec l r p e cb) :
    cb.done = p.done := by
  have hcb := ha.answer
  rw [Jkv.answer] at hcb
  split at hcb
  · next cmd _ => cases cmd <;> simp_all [Command.answer]
  · cases hcb

lemma LedgerStep.answers {cb : Callback} (hs : LedgerStep codec l r l') (hcb : cb ∈ l'.ran)
    (hacc : cb.resp.rejected = false) : cb ∈ l.ran ∨ ∃ p e, Answers codec l r p e cb := by
  cases hs with
  | refused _ =>
      rcases List.mem_append.mp hcb with hcb | hcb
      · exact Or.inl hcb
      · rw [List.mem_singleton.mp hcb] at hacc
        cases hacc
  | proposed _ _ _ => exact Or.inl hcb
  | stepped => exact Or.inl hcb
  | ticked => exact Or.inl hcb
  | @delivered v e db r' hdb hr =>
      rcases List.mem_append.mp hcb with hcb | hcb
      · rcases List.mem_append.mp hcb with hcb | hcb
        · exact Or.inl hcb
        · obtain ⟨p, _, rfl⟩ := List.mem_map.mp hcb
          cases hacc
      · obtain ⟨p, hp, hcb⟩ := List.mem_flatMap.mp hcb
        have hfound : (popFor v.leader e l.proposals).found = some p := by
          rw [← hr]
          simpa using hp
        have hpending : p ∈ l.proposals := by
          rw [← popFor_append v.leader e l.proposals, hfound]
          simp
        obtain ⟨hindex, hterm⟩ := popFor_found hfound
        exact Or.inr ⟨p, e, hpending, rfl, hindex, hterm, ⟨db, hdb⟩, hcb⟩

/-- Only `ProcessNormal` answers without rejecting, and it answers a proposal that was pending when
an entry of its index and term was delivered. -/
lemma LedgerSteps.answers {cb : Callback} (hs : LedgerSteps codec l₀ h l) (hran : l₀.ran = [])
    (hcb : cb ∈ l.ran) (hacc : cb.resp.rejected = false) :
    ∃ h₁ r h₂ l₁ p e, h = h₁ ++ r :: h₂ ∧ LedgerSteps codec l₀ h₁ l₁ ∧
      Answers codec l₁ r p e cb := by
  induction hs with
  | nil => simp [hran] at hcb
  | @snoc h l l' r hs hstep ih =>
      rcases hstep.answers hcb hacc with hcb | ⟨p, e, hans⟩
      · obtain ⟨h₁, r', h₂, l₁, p, e, rfl, hfirst, hans⟩ := ih hcb
        exact ⟨h₁, r', h₂ ++ [r], l₁, p, e, by simp, hfirst, hans⟩
      · exact ⟨h, r, [], l, p, e, rfl, hs, hans⟩

/-! ## Above what was delivered -/

/-- The proposals that were queued when a record delivered its entry. -/
def Record.pending (r : Record) : List Proposal :=
  match r.act with
  | .delivered _ pending _ _ => pending
  | _ => []

/-- The proposals a record rejected. -/
def Record.rejected (r : Record) : List Proposal :=
  match r.act with
  | .delivered _ _ rejected _ => rejected
  | _ => []

lemma LedgerStep.pending_eq {e : Entry} (hs : LedgerStep codec l r l') (he : r.delivery? = some e) :
    r.pending = l.proposals ∧ r.rejected = (popFor r.before.leader e l.proposals).rejected := by
  cases hs with
  | delivered _ hr =>
      cases he
      exact ⟨rfl, by rw [← hr]; rfl⟩
  | _ => cases he

/-- What a delivery leaves in a sorted queue lies above the entry; away from the leader it leaves
nothing. -/
lemma LedgerStep.pending_gt {e : Entry} (hs : LedgerStep codec l r l') (he : r.delivery? = some e)
    (hsorted : l.proposals.Pairwise fun p p' => p.key < p'.key) (hp : p ∈ l'.proposals) :
    r.before.leader = true ∧ e.key < p.key := by
  cases hs with
  | @delivered v _ db _ hdb hr =>
      cases he
      subst hr
      cases hlead : v.leader with
      | false => simp [hlead, popFor_follower] at hp
      | true =>
          rw [hlead, popFor_leader] at hp
          exact ⟨rfl, popTo_queue_gt hsorted hp⟩
  | _ => cases he

/-! ## What a peer relies on -/

/-- Every look at the node a history has, in order. -/
def looks (h : List Record) : List (View Entry) := h.flatMap fun r => [r.before, r.after]

lemma pairwise_looks {R : View Entry → View Entry → Prop} (hR : (looks h).Pairwise R) :
    h.Pairwise fun r r' => R r.before r'.before ∧ R r.after r'.before := by
  rw [looks, List.pairwise_flatMap] at hR
  refine hR.2.imp ?_
  intro r r' hrr'
  exact ⟨hrr' _ (by simp) _ (by simp), hrr' _ (by simp) _ (by simp)⟩

/-- The entry `Propose` makes of a request. -/
def proposedEntry (codec : Codec) (v : View Entry) (req : KvReq) : Entry :=
  ⟨v.term, v.log.length + 1, .kEntryNormal, (codec.serialize req).getD []⟩

/-- `Propose` put the request at the end of the log, under the leader's term. -/
def Record.Appends (codec : Codec) (r : Record) : Prop :=
  match r.act with
  | .proposed _ req _ =>
      r.after = { r.before with log := r.before.log ++ [proposedEntry codec r.before req] }
  | _ => True

instance (codec : Codec) : ∀ r : Record, Decidable (r.Appends codec)
  | ⟨v, v', .proposed _ req _⟩ =>
      inferInstanceAs (Decidable (v' = { v with log := v.log ++ [proposedEntry codec v req] }))
  | ⟨_, _, .refused _⟩ => .isTrue trivial
  | ⟨_, _, .stepped _ _⟩ => .isTrue trivial
  | ⟨_, _, .ticked⟩ => .isTrue trivial
  | ⟨_, _, .delivered _ _ _ _⟩ => .isTrue trivial

/-- What jraft keeps of one peer.  `leader_grows` says in one: a peer leads at most one
uninterrupted period of a term, and in it its log only grows. -/
structure PeerJraft (codec : Codec) (h : List Record) : Prop where
  term_mono : (looks h).Pairwise fun v v' => v.term ≤ v'.term
  leader_grows : (looks h).Pairwise fun v v' =>
    v.leader = true → v'.leader = true → v.term = v'.term → v.log <+: v'.log
  keeps_delivered : h.Pairwise fun r r' =>
    r'.before.leader = true → ∀ e ∈ r.delivery?, r'.before.log[e.index - 1]? = some e
  appends : ∀ r ∈ h, r.Appends codec
  delivered_sorted : (entriesOf h).Pairwise fun e e' => e.index < e'.index ∧ e.term ≤ e'.term
  delivered_term : ∀ r ∈ h, ∀ e ∈ r.delivery?, e.term ≤ r.before.term

set_option synthInstance.maxSize 512 in
instance (codec : Codec) (h : List Record) : Decidable (PeerJraft codec h) :=
  decidable_of_iff (_ ∧ _ ∧ _ ∧ _ ∧ _ ∧ _)
    ⟨fun ⟨h₁, h₂, h₃, h₄, h₅, h₆⟩ => ⟨h₁, h₂, h₃, h₄, h₅, h₆⟩,
      fun ⟨h₁, h₂, h₃, h₄, h₅, h₆⟩ => ⟨h₁, h₂, h₃, h₄, h₅, h₆⟩⟩

/-- What holds of a history held of it before. -/
lemma PeerJraft.of_append {h' : List Record} (hj : PeerJraft codec (h ++ h')) :
    PeerJraft codec h where
  term_mono := by
    have hmono := hj.term_mono
    rw [looks, List.flatMap_append] at hmono
    exact (List.pairwise_append.mp hmono).1
  leader_grows := by
    have hgrows := hj.leader_grows
    rw [looks, List.flatMap_append] at hgrows
    exact (List.pairwise_append.mp hgrows).1
  keeps_delivered := (List.pairwise_append.mp hj.keeps_delivered).1
  appends r hr := hj.appends r (List.mem_append_left _ hr)
  delivered_sorted := by
    have hsorted := hj.delivered_sorted
    rw [entriesOf_append] at hsorted
    exact (List.pairwise_append.mp hsorted).1
  delivered_term r hr := hj.delivered_term r (List.mem_append_left _ hr)

lemma Record.Appends.after_eq (ha : r.Appends codec) (hp : r.proposal? = some p) :
    ∃ e : Entry, r.after = { r.before with log := r.before.log ++ [e] } := by
  obtain ⟨v, v', act⟩ := r
  cases act with
  | proposed p' req err => exact ⟨_, ha⟩
  | _ => cases hp

/-! ## Order -/

/-- Proposals get larger: in a later term, or in the same term at the end of a longer log. -/
lemma proposedOf_sorted (hs : LedgerSteps codec l₀ h l) (hj : PeerJraft codec h) :
    (proposedOf h).Pairwise fun p p' => p.key < p'.key := by
  rw [proposedOf, List.pairwise_filterMap]
  refine ((pairwise_looks hj.term_mono).and (pairwise_looks hj.leader_grows)).imp_of_mem ?_
  rintro r r' hr hr' ⟨⟨-, hterm⟩, ⟨-, hgrows⟩⟩ p hp p' hp'
  have hq := hs.queued hr hp
  have hq' := hs.queued hr' hp'
  obtain ⟨e, hafter⟩ := (hj.appends r hr).after_eq hp
  rw [hafter] at hterm hgrows
  rw [Proposal.key, Proposal.key, Prod.Lex.toLex_lt_toLex, hq.term, hq'.term]
  rcases Nat.lt_or_eq_of_le hterm with hlt | heq
  · exact Or.inl hlt
  · refine Or.inr ⟨heq, ?_⟩
    have hlen := (hgrows hq.leader hq'.leader heq).length_le
    simp only [List.length_append, List.length_singleton] at hlen
    show p.index < p'.index
    rw [hq.index, hq'.index]
    omega

/-- What is pending is sorted. -/
lemma pending_sorted (hs : LedgerSteps codec l₀ h l) (hj : PeerJraft codec h)
    (hempty : l₀.proposals = []) : l.proposals.Pairwise fun p p' => p.key < p'.key := by
  have hsub := hs.proposals_sublist
  rw [hempty, List.nil_append] at hsub
  exact (proposedOf_sorted hs hj).sublist hsub

/-- A proposal is larger than every entry delivered before it. -/
lemma delivered_lt_proposed {e : Entry} {h₁ h₂ : List Record} (hs : LedgerSteps codec l₀ h l)
    (hj : PeerJraft codec h) (hsplit : h = h₁ ++ r :: h₂) (he : r.delivery? = some e)
    (hp : p ∈ proposedOf h₂) : e.key < p.key := by
  obtain ⟨r', hr', hp'⟩ := mem_proposedOf.mp hp
  have hmem : r ∈ h := by rw [hsplit]; simp
  have hq := hs.queued (by rw [hsplit]; simp [hr']) hp'
  have hterm := pairwise_looks hj.term_mono
  have hkeeps := hj.keeps_delivered
  rw [hsplit, List.pairwise_append, List.pairwise_cons] at hterm hkeeps
  have hlog := hkeeps.2.1.1 r' hr' hq.leader e he
  have hle : e.term ≤ r'.before.term := (hj.delivered_term r hmem e he).trans (hterm.2.1.1 r' hr').1
  rw [Entry.key, Proposal.key, Prod.Lex.toLex_lt_toLex, hq.term]
  rcases Nat.lt_or_eq_of_le hle with hlt | heq
  · exact Or.inl hlt
  · refine Or.inr ⟨heq, ?_⟩
    have hlen := (List.getElem?_eq_some_iff.mp hlog).1
    show e.index < p.index
    rw [hq.index]
    omega

/-- What is pending is larger than every entry delivered, and was proposed after every entry that
was delivered away from the leader. -/
lemma delivered_lt_pending {e : Entry} {h₁ h₂ : List Record} (hs : LedgerSteps codec l₀ h l)
    (hj : PeerJraft codec h) (hempty : l₀.proposals = []) (hsplit : h = h₁ ++ r :: h₂)
    (he : r.delivery? = some e) (hp : p ∈ l.proposals) :
    e.key < p.key ∧ (r.before.leader = false → p ∈ proposedOf h₂) := by
  obtain ⟨l₁, l₂, hfirst, hstep, hrest⟩ := Steps.exists_step (hsplit ▸ hs)
  rcases LedgerSteps.pending_cases hrest hp with hpending | hproposed
  · have hsorted := pending_sorted hfirst (PeerJraft.of_append (hsplit ▸ hj)) hempty
    have hgt := hstep.pending_gt he hsorted hpending
    exact ⟨hgt.2, fun hlead => absurd hgt.1 (by simp [hlead])⟩
  · exact ⟨delivered_lt_proposed hs hj hsplit he hproposed, fun _ => hproposed⟩

variable {σ : Type} {raft : RawNode σ}

/-- **The queue is sorted, and lies above what was delivered.**  In every state a peer reaches, for
the last committed entry it processed: every pending proposal is larger, and if the peer did not
lead then, every pending proposal was queued after it. -/
theorem proposals_invariant {s₀ s : Server σ} (run : (serverMachine raft codec).Run s₀ h s)
    (hfresh : s₀.Fresh) (hj : PeerJraft codec h) :
    (s.proposals.Pairwise fun p p' => p.key < p'.key) ∧
      ∀ h₁ r h₂ e, h = h₁ ++ r :: h₂ → r.delivery? = some e → entriesOf h₂ = [] →
        (∀ p ∈ s.proposals, e.key < p.key) ∧
        (r.before.leader = false → ∀ p ∈ s.proposals, p ∈ proposedOf h₂) := by
  have hs := run_ledger run
  have hempty : s₀.ledger.proposals = [] := hfresh.proposals
  refine ⟨pending_sorted hs hj hempty, ?_⟩
  intro h₁ r h₂ e hsplit he _
  constructor
  · intro p hp
    exact (delivered_lt_pending hs hj hempty hsplit he hp).1
  · intro hlead p hp
    exact (delivered_lt_pending hs hj hempty hsplit he hp).2 hlead

/-- A peer that led term 1, lost two entries to the leader of term 2, and leads term 3: the
proposal pending in term 3 has the index of one that was lost. -/
theorem proposals_invariant_reelected : ∃ h s,
    (serverMachine TrioNode.raft shortCodec).Run (trioServer 1) h s ∧ PeerJraft shortCodec h ∧
      s.proposals.map Proposal.key = [toLex (3, 3), toLex (3, 4)] ∧
      s.proposals.Pairwise fun p p' => p.key < p'.key := by
  obtain ⟨h, s, run, hval⟩ := Machine.exists_run (M := serverMachine TrioNode.raft shortCodec)
    (elect 1 ++ [.kvOp (putRequest 7 9), .kvOp (putRequest 7 8),
      appendEntries 2 0 [⟨2, 1, .kEntryNormal, []⟩] 1, tickConnected] ++
      elect 3 ++ [.kvOp (putRequest 7 9), .kvOp (getRequest 7)])
    (fun r => (decide (PeerJraft shortCodec r.1), r.2.proposals.map Proposal.key))
    (s := trioServer 1) (b := (true, [toLex (3, 3), toLex (3, 4)])) (by decide +kernel)
  simp only [Prod.mk.injEq, decide_eq_true_eq] at hval
  obtain ⟨hj, hkeys⟩ := hval
  exact ⟨h, s, run, hj, hkeys, (proposals_invariant run (trioServer_fresh 1) hj).1⟩

end Jkv
