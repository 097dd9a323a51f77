import Jkv.Server.Closures

/-!
# Which requests enter the log

`KvOpCb` lets every request of a client into the log while the peer leads.  `ProcessNormal` applies
three commands; a fourth, `kInvalid`, is what the empty entry of a new leader parses to, and answers
nobody; and on any other it ends the process with "should not come here.".  A command travels as an
open enum, so each of these can come from a client.

`admissionAgrees_iff` says that the two agree on the three commands and on nothing else.  The way to
it: while the peer leads, entries are delivered in the order of the log, so the proposal of a
request is pending when its entry comes (`LedgerSteps.still_pending`), and the entry is matched with
it and answers it (`processEntry_own`).
-/

namespace Jkv

variable {σ : Type}

/-- The key that a get asks for is there. -/
def KvReq.KeyPresent (req : KvReq) (db : KvDb) : Prop := req.cmdType = kGet → req.get.key ∈ db

/-- `ProcessNormal` can apply the request, and answer whoever waits for it. -/
def Servable (σ : Type) (codec : Codec) (req : KvReq) : Prop :=
  ∀ (t : Server σ) (e : Entry) (p : Proposal), e.type = .kEntryNormal →
    codec.serialize req = some e.data → req.KeyPresent t.kvDb →
      ∃ t' cb, (processNormal codec e (some p)).run t = .ok () t' ∧ t'.ran = t.ran ++ [cb] ∧
        cb.done = p.done

variable (raft : RawNode σ) (codec : Codec)

/-- A tick of `s` comes to the call of `ProcessEntry` for `e`, with the server in `t`.  `h` is what
the tick shows up to this delivery. -/
def ComesTo (s : Server σ) (h : List Record) (e : Entry) (t : Server σ) : Prop :=
  ∃ connect es rest s₁, startTick raft connect s = .ok (es ++ e :: rest) s₁ ∧
    (processEntries raft codec es).run s₁ = .ok () t ∧
    h = ⟨raft.view s.rawNode, raft.view s₁.rawNode, .ticked⟩ ::
      deliveries (raft.view s₁.rawNode) s.proposals (es ++ [e])

/-- **Admission agrees with application**, for a request that comes to the leader `s` after `h`. -/
structure AdmissionAgrees (h : List Record) (s : Server σ) (req : KvReq) : Prop where
  /-- If the peer leads until the entry of the request is delivered, `ProcessEntry` runs the closure
  of the request once, and does not reject. -/
  answered : ∀ s₁ h₁ s₂ h₂ t, (serverMachine raft codec).exec s (.kvOp req) = some s₁ →
    (serverMachine raft codec).Run s₁ h₁ s₂ →
    ComesTo raft codec s₂ h₂ (proposedEntry codec (raft.view s.rawNode) req) t →
    (∀ r ∈ h₁ ++ h₂, r.before.leader = true) →
    PeerJraft codec (h ++ observe raft codec s (.kvOp req) ++ (h₁ ++ h₂)) →
    req.KeyPresent t.kvDb →
    ∃ t' new cb, (processEntry raft codec (proposedEntry codec (raft.view s.rawNode) req)).run t
        = .ok () t' ∧
      t'.ran = t.ran ++ new ∧ new.filter (·.done = s.calls) = [cb] ∧ cb.resp.rejected = false
  /-- The entry can be applied by every peer. -/
  applied : ∀ s₁, (serverMachine raft codec).exec s (.kvOp req) = some s₁ →
    ∀ (σ' : Type) (raft' : RawNode σ') (t : Server σ'), req.KeyPresent t.kvDb →
    ∃ t', (processEntry raft' codec (proposedEntry codec (raft.view s.rawNode) req)).run t
      = .ok () t'
  /-- What cannot be served is neither queued nor proposed. -/
  refused : ¬ Servable σ codec req → ∃ s₁, (serverMachine raft codec).exec s (.kvOp req) = some s₁ ∧
    s₁.proposals = s.proposals ∧ s₁.rawNode = s.rawNode

variable {raft codec} {req : KvReq} {e : Entry} {p : Proposal}

/-! ## What is served -/

/-- A command that asks for something answers whoever waits for it, once. -/
lemma Command.answer_of_ne_noop {cmd : Command} (hcmd : cmd ≠ .noop) (db : KvDb) (p : Proposal) :
    ∃ cb, cmd.answer db p = [cb] ∧ cb.done = p.done ∧ cb.resp.rejected = p.resp.rejected := by
  cases cmd with
  | noop => exact absurd rfl hcmd
  | get key => exact ⟨_, rfl, rfl, rfl⟩
  | put key val => exact ⟨_, rfl, rfl, rfl⟩
  | del key => exact ⟨_, rfl, rfl, rfl⟩

/-- The entry of one of the three commands is applied, and answers whoever waits for it, once. -/
lemma KvReq.IsOperation.served (hop : req.IsOperation) (htype : e.type = .kEntryNormal)
    (hdata : codec.serialize req = some e.data) {db : KvDb} (hkey : req.KeyPresent db) :
    (∃ db', applyEntry codec db e = .ok db') ∧ ∀ p, ∃ cb, answer codec db e p = [cb] ∧
      cb.done = p.done ∧ cb.resp.rejected = p.resp.rejected := by
  obtain ⟨cmd, hcmd, hnoop, hget⟩ := hop.commandOf_eq
  have hdecode : decode codec e = .ok cmd := by
    rw [decode_normal htype (codec.parse_serialize hdata), hcmd]
  refine ⟨⟨cmd.apply db, ?_⟩, ?_⟩
  · rw [applyEntry_of_decode hdecode, Command.exec_eq_ok]
    refine ⟨rfl, ?_⟩
    intro key hkeyOf
    obtain ⟨hisGet, rfl⟩ := hget key hkeyOf
    exact hkey hisGet
  · intro p
    rw [answer_of_decode hdecode]
    exact Command.answer_of_ne_noop hnoop db p

lemma serialize_proposedEntry {data : Bytes} (hdata : codec.serialize req = some data)
    (v : View Entry) : codec.serialize req = some (proposedEntry codec v req).data := by
  rw [proposedEntry, hdata]
  rfl

/-- **What can be served** is the three commands. -/
lemma servable_iff (s : Server σ) {data : Bytes} (hdata : codec.serialize req = some data) :
    Servable σ codec req ↔ req.IsOperation := by
  constructor
  · intro hserv
    by_contra hop
    have hkey : req.KeyPresent s.kvDb := fun hget => absurd (Or.inl hget) hop
    obtain ⟨t', cb, hrun, hran, -⟩ :=
      hserv s ⟨0, 0, .kEntryNormal, data⟩ ⟨0, 0, {}, 0⟩ rfl hdata hkey
    have hdecode := decode_normal (e := ⟨0, 0, .kEntryNormal, data⟩) rfl
      (codec.parse_serialize hdata)
    rw [run_processNormal codec _ _ _ rfl] at hrun
    rcases commandOf_of_not_isOperation hop with hcmd | hcmd
    · rw [hcmd] at hdecode
      rw [applyEntry_of_decode hdecode, Command.exec] at hrun
      cases hrun
      rw [applied_noop hdecode] at hran
      simp at hran
    · rw [hcmd] at hdecode
      rw [applyEntry, hdecode] at hrun
      cases hrun
  · intro hop t e p htype hdata hkey
    obtain ⟨⟨db, hdb⟩, hanswer⟩ := hop.served htype hdata hkey
    obtain ⟨cb, hcb, hdone, -⟩ := hanswer p
    refine ⟨t.applied codec e (some p) db, cb, ?_, ?_, hdone⟩
    · rw [run_processNormal codec e _ _ htype, hdb]
    · simp [Server.applied, hcb]

/-! ## The proposal is pending when its entry comes -/

variable {l₀ l l' : Ledger} {h : List Record} {r : Record}

lemma LedgerStep.still_pending (hs : LedgerStep codec l r l') (hp : p ∈ l.proposals)
    (hbelow : ∀ e ∈ r.delivery?, r.before.leader = true ∧ e.key < p.key) : p ∈ l'.proposals := by
  cases hs with
  | refused _ => exact hp
  | proposed _ _ _ => exact List.mem_append_left _ hp
  | stepped => exact hp
  | ticked => exact hp
  | @delivered v e db r' hdb hr =>
      obtain ⟨hlead, hlt⟩ := hbelow e rfl
      subst hr
      dsimp only at hlead
      show p ∈ (popFor v.leader e l.proposals).queue
      rw [hlead, popFor_leader]
      exact mem_popTo_queue hp hlt

/-- A leader that delivers entries below a proposal keeps the proposal. -/
lemma LedgerSteps.still_pending (hs : LedgerSteps codec l h l') (hp : p ∈ l.proposals)
    (hlead : ∀ r ∈ h, r.before.leader = true) (hbelow : ∀ e ∈ entriesOf h, e.key < p.key) :
    p ∈ l'.proposals := by
  induction hs with
  | nil => exact hp
  | @snoc h l l' r _ hstep ih =>
      refine hstep.still_pending (ih ?_ ?_) ?_
      · intro r' hr'
        exact hlead r' (List.mem_append_left _ hr')
      · intro e he
        exact hbelow e (by rw [entriesOf_append]; exact List.mem_append_left _ he)
      · intro e he
        refine ⟨hlead r (by simp), hbelow e ?_⟩
        rw [entriesOf_append]
        exact List.mem_append_right _ (by simp [entriesOf, Option.mem_def.mp he])

/-- Entries are delivered in increasing order. -/
lemma PeerJraft.delivered_lt (hj : PeerJraft codec (h ++ [r])) (he : r.delivery? = some e) :
    ∀ e' ∈ entriesOf h, e'.key < e.key := by
  intro e' he'
  have hdelivered := hj.delivered_sorted
  rw [entriesOf_append, List.pairwise_append] at hdelivered
  obtain ⟨hindex, hterm⟩ := hdelivered.2.2 e' he' e (by simp [entriesOf, he])
  rw [Entry.key, Entry.key, Prod.Lex.toLex_lt_toLex]
  rcases Nat.lt_or_eq_of_le hterm with hlt | heq
  · exact Or.inl hlt
  · exact Or.inr ⟨heq, hindex⟩

/-- What is pending has closures of its own. -/
lemma LedgerSteps.pending_nodup (hs : LedgerSteps codec l₀ h l) (hcalls : l₀.calls = 0)
    (hempty : l₀.proposals = []) : (l.proposals.map Proposal.done).Nodup := by
  have hsub := hs.proposals_sublist
  rw [hempty, List.nil_append] at hsub
  exact (hs.closures_nodup hcalls).of_append_left.sublist (hsub.map _)

/-- **The leader's pass over the entry of a pending proposal** runs the closure of the proposal
once. -/
lemma processEntry_own {t : Server σ} {db : KvDb} {cb : Callback}
    (hlead : raft.isLeader t.rawNode = true)
    (hsorted : t.proposals.Pairwise fun p p' => p.key < p'.key)
    (hnodup : (t.proposals.map Proposal.done).Nodup) (hp : p ∈ t.proposals) (hkey : p.key = e.key)
    (hdb : applyEntry codec t.kvDb e = .ok db) (hcb : answer codec t.kvDb e p = [cb])
    (hdone : cb.done = p.done) :
    ∃ t' new, (processEntry raft codec e).run t = .ok () t' ∧ t'.ran = t.ran ++ new ∧
      new.filter (·.done = p.done) = [cb] := by
  have hpop := popTo_append Proposal.key e.key t.proposals
  have hfound := popTo_found_of_mem hsorted hp hkey
  rw [hfound] at hpop
  -- the proposals that are rejected on the way have other closures
  have hothers : (((popTo Proposal.key e.key t.proposals).rejected.map Proposal.reject).filter
      (·.done = p.done)) = [] := by
    refine List.filter_eq_nil_iff.mpr ?_
    intro cb' hcb'
    obtain ⟨p', hp', rfl⟩ := List.mem_map.mp hcb'
    rw [← hpop, List.map_append, List.map_append] at hnodup
    have hne : p'.done ≠ p.done := by
      simpa using List.disjoint_of_nodup_append hnodup.of_append_left
        (List.mem_map_of_mem (f := Proposal.done) hp')
    simp [Proposal.reject, hne]
  have hrun := run_processEntry codec raft e t
  rw [hlead, popFor_leader] at hrun
  dsimp only at hrun
  rw [hdb, hfound] at hrun
  refine ⟨_, (popTo Proposal.key e.key t.proposals).rejected.map Proposal.reject ++ [cb], hrun,
    ?_, ?_⟩
  · simp [Server.applied, Server.settled, hcb]
  · rw [List.filter_append, hothers]
    simp [hdone]

lemma deliveries_append (v : View Entry) (q : List Proposal) (es es' : List Entry) :
    ∃ q', deliveries v q (es ++ es') = deliveries v q es ++ deliveries v q' es' := by
  induction es generalizing q with
  | nil => exact ⟨q, rfl⟩
  | cons e es ih =>
      obtain ⟨q', hq'⟩ := ih (popFor v.leader e q).queue
      exact ⟨q', congrArg _ hq'⟩

/-- Up to the call of `ProcessEntry` for `e`, a tick is a history like any other; then `e` is
delivered. -/
lemma ComesTo.exists_steps {s t : Server σ} (hc : ComesTo raft codec s h e t) : ∃ h' r,
    h = h' ++ [r] ∧ LedgerSteps codec s.ledger h' t.ledger ∧ r.delivery? = some e ∧
      r.before = raft.view t.rawNode := by
  obtain ⟨connect, es, rest, s₁, hstart, hprocess, rfl⟩ := hc
  obtain ⟨hes, hnode, hledger⟩ := startTick_ok hstart
  obtain ⟨hnode', hsteps⟩ := processEntries_ledger hprocess
  have hqueue : s₁.proposals = s.proposals := congrArg Ledger.proposals hledger
  rw [hqueue, hledger] at hsteps
  obtain ⟨q', hq'⟩ := deliveries_append (raft.view s₁.rawNode) s.proposals es [e]
  refine ⟨_, _, by rw [hq', ← List.cons_append]; rfl, ?_, rfl, ?_⟩
  · exact (Steps.single LedgerStep.ticked).trans hsteps
  · rw [hnode']

/-! ## Admission -/

section Leader

variable {s₀ s : Server σ} {data : Bytes} (hlead : raft.isLeader s.rawNode = true)
  (hdata : codec.serialize req = some data)

include hlead hdata

/-- Every request that can be serialized is let in. -/
lemma exec_kvOp_leader : (serverMachine raft codec).exec s (.kvOp req) = some { s with
    proposals := s.proposals ++
      [⟨raft.lastIndex s.rawNode + 1, raft.term s.rawNode, {}, s.calls⟩]
    rawNode := (raft.propose s.rawNode data).2
    calls := s.calls + 1 } := by
  rw [serverMachine_exec, execEvent,
    run_kvOp_leader raft codec (s := { s with calls := s.calls + 1 }) hlead, hdata]

/-- While the peer leads, the entry of one of the three commands finds its proposal. -/
lemma KvReq.IsOperation.answered (hop : req.IsOperation)
    (run : (serverMachine raft codec).Run s₀ h s) (hfresh : s₀.Fresh) {s₁ s₂ t : Server σ}
    {h₁ h₂ : List Record} (hexec : (serverMachine raft codec).exec s (.kvOp req) = some s₁)
    (run₁ : (serverMachine raft codec).Run s₁ h₁ s₂)
    (hcomes : ComesTo raft codec s₂ h₂ (proposedEntry codec (raft.view s.rawNode) req) t)
    (hleads : ∀ r ∈ h₁ ++ h₂, r.before.leader = true)
    (hj : PeerJraft codec (h ++ observe raft codec s (.kvOp req) ++ (h₁ ++ h₂)))
    (hkey : req.KeyPresent t.kvDb) :
    ∃ t' new cb, (processEntry raft codec (proposedEntry codec (raft.view s.rawNode) req)).run t
        = .ok () t' ∧
      t'.ran = t.ran ++ new ∧ new.filter (·.done = s.calls) = [cb] ∧ cb.resp.rejected = false := by
  -- the history up to the delivery, and the delivery
  obtain ⟨h', r, rfl, hsteps₂, he, hbefore⟩ := hcomes.exists_steps
  have hsteps := (run_ledger run₁).trans hsteps₂
  have hfirst := execEvent_ledger ((serverMachine_exec raft codec).mp hexec)
  have hall := ((run_ledger run).trans hfirst).trans hsteps
  rw [← List.append_assoc h₁, ← List.append_assoc] at hj
  have hsorted := pending_sorted hall hj.of_append hfresh.proposals
  have hnodup := LedgerSteps.pending_nodup hall hfresh.calls hfresh.proposals
  -- everything delivered since lies below the entry of the request
  have hbelow : ∀ e' ∈ entriesOf (h₁ ++ h'),
      e'.key < (proposedEntry codec (raft.view s.rawNode) req).key := by
    intro e' he'
    refine hj.delivered_lt he e' ?_
    rw [entriesOf_append]
    exact List.mem_append_right _ he'
  have hpending : (⟨raft.lastIndex s.rawNode + 1, raft.term s.rawNode, {}, s.calls⟩ : Proposal)
      ∈ t.proposals := by
    rw [exec_kvOp_leader hlead hdata, Option.some.injEq] at hexec
    subst hexec
    refine LedgerSteps.still_pending hsteps ?_ ?_ hbelow
    · exact List.mem_append_right _ List.mem_cons_self
    · intro r' hr'
      exact hleads r' (by rw [← List.append_assoc]; exact List.mem_append_left _ hr')
  have hleader : raft.isLeader t.rawNode = true := by
    have hlast := hleads r (by simp)
    rwa [hbefore] at hlast
  obtain ⟨⟨db, hdb⟩, hanswer⟩ :=
    hop.served rfl (serialize_proposedEntry hdata (raft.view s.rawNode)) hkey
  obtain ⟨cb, hcb, hdone, hrejected⟩ := hanswer _
  obtain ⟨t', new, hrun, hran, hfilter⟩ :=
    processEntry_own hleader hsorted hnodup hpending rfl hdb hcb hdone
  exact ⟨t', new, cb, hrun, hran, hfilter, hrejected⟩

end Leader

/-- **Admission agrees with application exactly on the three commands.** -/
theorem admissionAgrees_iff {s₀ s : Server σ} {data : Bytes}
    (run : (serverMachine raft codec).Run s₀ h s) (hfresh : s₀.Fresh)
    (hlead : raft.isLeader s.rawNode = true) (hdata : codec.serialize req = some data) :
    AdmissionAgrees raft codec h s req ↔ req.IsOperation := by
  constructor
  · intro hagrees
    by_contra hop
    -- what cannot be served would have to be refused, but it is queued
    have hserv : ¬ Servable σ codec req := by rwa [servable_iff s hdata]
    obtain ⟨s₁, hexec, hqueue, -⟩ := hagrees.refused hserv
    rw [exec_kvOp_leader hlead hdata, Option.some.injEq] at hexec
    subst hexec
    simp at hqueue
  · intro hop
    refine ⟨?_, ?_, ?_⟩
    · intro s₁ h₁ s₂ h₂ t hexec run₁ hcomes hleads hj hkey
      exact hop.answered hlead hdata run hfresh hexec run₁ hcomes hleads hj hkey
    · intro s₁ _ σ' raft' t hkey
      obtain ⟨⟨db, hdb⟩, -⟩ :=
        hop.served rfl (serialize_proposedEntry hdata (raft.view s.rawNode)) hkey
      rw [run_processEntry, hdb]
      exact ⟨_, rfl⟩
    · intro hserv
      exact absurd ((servable_iff s hdata).mpr hop) hserv

/-- Host 1 of the group, just elected. -/
def electedServer : Server TrioNode :=
  { trioServer 1 with
    rawNode := { id := 1, leader := true, term := 1, log := [⟨1, 1, .kEntryNormal, []⟩] } }

/-- What its election showed. -/
def electedHistory : List Record :=
  [⟨⟨false, 0, []⟩, ⟨false, 1, []⟩,
      .stepped ⟨.kMsgTimeoutNow, 1, 2, 0, 0, 0, [], 0, false, 0⟩ .kOk⟩,
    ⟨⟨false, 1, []⟩, ⟨true, 1, [⟨1, 1, .kEntryNormal, []⟩]⟩,
      .stepped ⟨.kMsgVoteResp, 1, 2, 1, 0, 0, [], 0, false, 0⟩ .kOk⟩]

lemma electedServer_run (codec : Codec) :
    (serverMachine TrioNode.raft codec).Run (trioServer 1) electedHistory electedServer := by
  have hreplay : (serverMachine TrioNode.raft codec).replay (trioServer 1) (elect 1)
      = some (electedHistory, electedServer) := rfl
  exact Machine.run_of_replay hreplay

/-- The entry of a `put` that it is sent next. -/
def putEntry : Entry :=
  proposedEntry shortCodec (TrioNode.raft.view electedServer.rawNode) (putRequest 7 9)

/-- The leader with the `put` in its log and its client waiting. -/
def waitingServer : Server TrioNode :=
  { electedServer with
    rawNode := { electedServer.rawNode with log := electedServer.rawNode.log ++ [putEntry] }
    proposals := [⟨2, 1, {}, 0⟩]
    calls := 1 }

/-- The same after another member has acknowledged the entry. -/
def committedServer : Server TrioNode :=
  { waitingServer with rawNode := { waitingServer.rawNode with commit := 2 } }

/-- The tick after the acknowledgement comes to the entry, and answers the client. -/
theorem admissionAgrees_put : ∃ h₁ h₂ t,
    (serverMachine TrioNode.raft shortCodec).Run waitingServer h₁ committedServer ∧
      ComesTo TrioNode.raft shortCodec committedServer h₂ putEntry t ∧
      ∃ t' new cb, (processEntry TrioNode.raft shortCodec putEntry).run t = .ok () t' ∧
        t'.ran = t.ran ++ new ∧ new.filter (·.done = 0) = [cb] ∧ cb.resp.rejected = false := by
  have hagrees : AdmissionAgrees TrioNode.raft shortCodec electedHistory electedServer
      (putRequest 7 9) :=
    (admissionAgrees_iff (electedServer_run shortCodec) (trioServer_fresh 1) rfl rfl).mpr
      (Or.inr (Or.inl rfl))
  have hexec : (serverMachine TrioNode.raft shortCodec).exec electedServer
      (.kvOp (putRequest 7 9)) = some waitingServer := rfl
  have hreplay : (serverMachine TrioNode.raft shortCodec).replay waitingServer [acknowledge 1 2]
      = some (_, committedServer) := rfl
  have hrun := Machine.run_of_replay hreplay
  have hcomes : ComesTo TrioNode.raft shortCodec committedServer _ putEntry _ :=
    ⟨fun _ => true, [⟨1, 1, .kEntryNormal, []⟩], [], _, rfl, rfl, rfl⟩
  exact ⟨_, _, _, hrun, hcomes, hagrees.answered _ _ _ _ _ hexec hrun hcomes (by decide)
    (by decide +kernel) (by intro h; cases h)⟩

/-- Protobuf on two more requests: the default one, and one of a command without a name. -/
def openCodec : Codec where
  serialize req :=
    match req with
    | ⟨⟨0⟩, none, none, none⟩ => some []
    | ⟨⟨7⟩, none, none, none⟩ => some [8, 7]
    | _ => shortCodec.serialize req
  parse data := if data = [8, 7] then some { cmdType := ⟨7⟩ } else shortCodec.parse data
  parse_serialize := by
    intro req data h
    split at h
    · cases h; rfl
    · cases h; rfl
    · have hparse := shortCodec.parse_serialize h
      rw [if_neg, hparse]
      rintro rfl
      cases hparse
  parse_nil := rfl

/-- A command without a name ends every peer that applies it, and a request for nothing is let in
although nobody will answer it. -/
theorem admission_disagrees :
    (serverMachine TrioNode.raft openCodec).Run (trioServer 1) electedHistory electedServer ∧
      ¬ AdmissionAgrees TrioNode.raft openCodec electedHistory electedServer { cmdType := ⟨7⟩ } ∧
      ¬ AdmissionAgrees TrioNode.raft openCodec electedHistory electedServer {} := by
  refine ⟨electedServer_run openCodec, ?_, ?_⟩
  · intro hagrees
    obtain ⟨t', ht'⟩ := hagrees.applied _ rfl TrioNode TrioNode.raft (trioServer 2)
      (by intro h; cases h)
    cases ht'
  · intro hagrees
    have hserv : ¬ Servable TrioNode openCodec {} := by
      have hdata : openCodec.serialize {} = some [] := rfl
      rw [servable_iff electedServer hdata, KvReq.IsOperation]
      decide
    obtain ⟨s₁, hexec, hqueue, -⟩ := hagrees.refused hserv
    cases hexec
    cases hqueue

end Jkv
