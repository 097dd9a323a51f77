import Jkv.Core.Steps
import Jkv.Server.History

/-!
# The ledger of a server

What a server owes its clients, without the raft node and the network: the database, the queue of
proposals, the closures that were run, and the number of calls.  `LedgerStep` says once what each
record can do to it.

`run_ledger` connects it to the code: every run of the server machine is, record by record, a
sequence of ledger steps.  All properties of queues and answers are proved from `LedgerStep`.
-/

namespace Jkv

/-- The part of a server its clients depend on. -/
structure Ledger where
  kvDb : KvDb
  proposals : List Proposal
  ran : List Callback
  calls : ℕ

variable {σ : Type}

def Server.ledger (s : Server σ) : Ledger := ⟨s.kvDb, s.proposals, s.ran, s.calls⟩

/-- What a record does to the ledger, and what it says about the raft node. -/
inductive LedgerStep (codec : Codec) (l : Ledger) : Record → Ledger → Prop
  | refused {v : View Entry} (hlead : v.leader = false) :
      LedgerStep codec l ⟨v, v, .refused l.calls⟩
        { l with ran := l.ran ++ [⟨l.calls, { rejected := true }⟩], calls := l.calls + 1 }
  | proposed {v v' : View Entry} {req : KvReq} {err : ErrNum} {data : Bytes} {p : Proposal}
      (hlead : v.leader = true) (hdata : codec.serialize req = some data)
      (hp : p = ⟨v.log.length + 1, v.term, {}, l.calls⟩) :
      LedgerStep codec l ⟨v, v', .proposed p req err⟩
        { l with proposals := l.proposals ++ [p], calls := l.calls + 1 }
  | stepped {v v' : View Entry} {msg : Message} {err : ErrNum} :
      LedgerStep codec l ⟨v, v', .stepped msg err⟩ l
  | ticked {v v' : View Entry} : LedgerStep codec l ⟨v, v', .ticked⟩ l
  | delivered {v : View Entry} {e : Entry} {db : KvDb} {r : Popped Proposal}
      (hdb : applyEntry codec l.kvDb e = .ok db) (hr : r = popFor v.leader e l.proposals) :
      LedgerStep codec l ⟨v, v, .delivered e l.proposals r.rejected r.found⟩
        { l with
          kvDb := db
          proposals := r.queue
          ran := l.ran ++ r.rejected.map Proposal.reject ++
            r.found.toList.flatMap (answer codec l.kvDb e) }

/-- A server's history, as steps of its ledger. -/
abbrev LedgerSteps (codec : Codec) := Steps (LedgerStep codec)

/-! ## The server refines its ledger -/

section

variable {raft : RawNode σ} {codec : Codec}

lemma Server.SameButSent.ledger_eq {s s' : Server σ} (h : s.SameButSent s') :
    s'.ledger = s.ledger ∧ s'.rawNode = s.rawNode := by
  obtain ⟨mgr, sent, rfl⟩ := h
  exact ⟨rfl, rfl⟩

/-- One committed entry. -/
lemma processEntry_ledger {e : Entry} {s s' : Server σ}
    (h : (processEntry raft codec e).run s = .ok () s') :
    s'.rawNode = s.rawNode ∧
      s'.proposals = (popFor (raft.isLeader s.rawNode) e s.proposals).queue ∧
      LedgerStep codec s.ledger ⟨raft.view s.rawNode, raft.view s.rawNode,
        .delivered e s.proposals (popFor (raft.isLeader s.rawNode) e s.proposals).rejected
          (popFor (raft.isLeader s.rawNode) e s.proposals).found⟩ s'.ledger := by
  rw [run_processEntry] at h
  dsimp only at h
  cases hdb : applyEntry codec s.kvDb e with
  | error f => rw [hdb] at h; cases h
  | ok db =>
      rw [hdb] at h
      cases h
      exact ⟨rfl, rfl, LedgerStep.delivered hdb rfl⟩

/-- A batch of committed entries. -/
lemma processEntries_ledger {es : List Entry} {s s' : Server σ}
    (h : (processEntries raft codec es).run s = .ok () s') :
    s'.rawNode = s.rawNode ∧ LedgerSteps codec s.ledger
      (deliveries (raft.view s.rawNode) s.proposals es) s'.ledger := by
  induction es generalizing s with
  | nil =>
      cases h
      exact ⟨rfl, Steps.nil⟩
  | cons e es ih =>
      rw [run_processEntries_cons] at h
      cases hentry : (processEntry raft codec e).run s with
      | error f s₁ => rw [hentry] at h; cases h
      | ok u s₁ =>
          rw [hentry] at h
          obtain ⟨hnode₁, hqueue, hstep⟩ := processEntry_ledger hentry
          obtain ⟨hnode, hsteps⟩ := ih h
          rw [hnode₁] at hnode hsteps
          rw [hqueue] at hsteps
          exact ⟨hnode, (Steps.single hstep).trans hsteps⟩

end

/-! ## A tick, in three parts -/

/-- The messages a tick takes out of its `Ready`. -/
def readyMessages (raft : RawNode σ) (node : σ) : List Message :=
  if raft.hasReady (raft.tick node) then (raft.getReady (raft.tick node)).1.messages else []

section

variable (raft : RawNode σ) (codec : Codec)

/-- The first part of a tick, up to the point where committed entries are processed: it returns
these entries. -/
def startTick (connect : SockAddress → Bool) (s : Server σ) :
    EStateM.Result Fatal (Server σ) (List Entry) :=
  let node := raft.tick s.rawNode
  let msgs := if raft.hasReady node then (raft.getReady node).1.messages else []
  match (sendMsgs connect msgs).run { s with rawNode := (readyAt raft s.rawNode).1 } with
  | .ok _ s' => .ok (readyAt raft s.rawNode).2 s'
  | .error f s' => .error f s'

/-- The source skips an empty list; doing nothing for it is the same. -/
lemma skip_empty {α : Type} (f : List α → PeerM σ Unit) (hf : f [] = pure ()) (l : List α)
    (k : PeerM σ Unit) : (if (!l.isEmpty) = true then (do f l; k) else k) = (do f l; k) := by
  cases l <;> simp [hf]

/-- **A tick** takes the `Ready`, processes its committed entries, and acknowledges it. -/
theorem run_tick (connect : SockAddress → Bool) (s : Server σ) :
    (tick raft codec connect).run s = match startTick raft connect s with
      | .error f s₁ => .error f s₁
      | .ok es s₁ => match (processEntries raft codec es).run s₁ with
        | .error f s₂ => .error f s₂
        | .ok _ s₂ =>
            let node := raft.tick s.rawNode
            .ok () (if raft.hasReady node then
              { s₂ with rawNode := raft.advance s₂.rawNode (raft.getReady node).1 } else s₂) := by
  simp only [tick, handleRaftReady, startTick, readyAt, EStateM.run_bind, EStateM.run_modify,
    EStateM.run_get]
  cases hready : raft.hasReady (raft.tick s.rawNode) with
  | false => rfl
  | true =>
      simp only [Bool.not_true, Bool.false_eq_true, if_false, if_true, EStateM.run_bind,
        EStateM.run_get, EStateM.run_modify, skip_empty (sendMsgs connect) rfl,
        skip_empty (processEntries raft codec) rfl]
      generalize raft.getReady (raft.tick s.rawNode) = r
      obtain ⟨⟨ents, msgs, committed⟩, node⟩ := r
      cases ents <;> simp <;> generalize (sendMsgs connect msgs).run _ = sending <;>
        rcases sending with ⟨_, s₁⟩ | ⟨f, s₁⟩ <;> try rfl
      all_goals
        dsimp only
        cases (processEntries raft codec committed).run s₁ <;> rfl

variable {raft codec}

/-- Up to the committed entries a tick only moves the node. -/
lemma startTick_ok {connect : SockAddress → Bool} {s s₁ : Server σ} {es : List Entry}
    (h : startTick raft connect s = .ok es s₁) :
    es = (readyAt raft s.rawNode).2 ∧ s₁.rawNode = (readyAt raft s.rawNode).1 ∧
      s₁.ledger = s.ledger := by
  simp only [startTick] at h
  split at h
  · next u s₂ hsend =>
      cases h
      obtain ⟨hledger, hnode⟩ := (sendMsgs_frame hsend).ledger_eq
      exact ⟨rfl, hnode, hledger⟩
  · cases h

/-- Before it comes to the committed entries, a tick has sent all its messages. -/
lemma startTick_sends {connect : SockAddress → Bool} {s s₁ : Server σ} {es : List Entry}
    (h : startTick raft connect s = .ok es s₁) :
    (sendMsgs connect (readyMessages raft s.rawNode)).run
      { s with rawNode := (readyAt raft s.rawNode).1 } = .ok () s₁ := by
  simp only [startTick] at h
  split at h
  · next u s₂ hsend =>
      cases h
      exact hsend
  · cases h

/-- **A tick that ends the process** ends on one of its messages, before it comes to the entries, or
on one of its committed entries, when all the messages have been sent. -/
theorem tick_ends {connect : SockAddress → Bool} {s s' : Server σ} {f : Fatal}
    (h : (tick raft codec connect).run s = .error f s') :
    (sendMsgs connect (readyMessages raft s.rawNode)).run
        { s with rawNode := (readyAt raft s.rawNode).1 } = .error f s' ∨
      ∃ s₁, (sendMsgs connect (readyMessages raft s.rawNode)).run
          { s with rawNode := (readyAt raft s.rawNode).1 } = .ok () s₁ ∧
        (processEntries raft codec (readyAt raft s.rawNode).2).run s₁ = .error f s' := by
  rw [run_tick] at h
  split at h
  · next f s₁ hstart =>
      cases h
      simp only [startTick] at hstart
      split at hstart
      · cases hstart
      · next f s₂ hsend =>
          cases hstart
          exact Or.inl hsend
  · next es s₁ hstart =>
      split at h
      · next f s₂ hprocess =>
          cases h
          rw [(startTick_ok hstart).1] at hprocess
          exact Or.inr ⟨s₁, startTick_sends hstart, hprocess⟩
      · cases h

/-- A tick that returns went through its three parts. -/
lemma tick_ok {connect : SockAddress → Bool} {s s' : Server σ}
    (h : (tick raft codec connect).run s = .ok () s') : ∃ es s₁ s₂,
      startTick raft connect s = .ok es s₁ ∧ (processEntries raft codec es).run s₁ = .ok () s₂ ∧
        ∃ node, s' = { s₂ with rawNode := node } := by
  rw [run_tick] at h
  split at h
  · cases h
  · next es s₁ hstart =>
      split at h
      · cases h
      · next u s₂ hprocess =>
          cases h
          refine ⟨es, s₁, s₂, hstart, hprocess, ?_⟩
          split_ifs
          · exact ⟨_, rfl⟩
          · exact ⟨s₂.rawNode, rfl⟩

/-- One call of the event loop. -/
theorem execEvent_ledger {s s' : Server σ} {ev : Event}
    (h : execEvent raft codec s ev = .ok () s') :
    LedgerSteps codec s.ledger (observe raft codec s ev) s'.ledger := by
  cases ev with
  | kvOp req =>
      cases hlead : raft.isLeader s.rawNode with
      | false =>
          rw [execEvent,
            run_kvOp_follower raft codec (s := { s with calls := s.calls + 1 }) hlead] at h
          cases h
          simp only [observe, hlead]
          exact Steps.single (LedgerStep.refused hlead)
      | true =>
          rw [execEvent,
            run_kvOp_leader raft codec (s := { s with calls := s.calls + 1 }) hlead] at h
          cases hdata : codec.serialize req with
          | none => rw [hdata] at h; cases h
          | some context =>
              rw [hdata] at h
              cases h
              simp only [observe, hlead, if_true]
              exact Steps.single (LedgerStep.proposed hlead hdata rfl)
  | step msg =>
      simp only [execEvent, stepPeer] at h
      cases h
      exact Steps.single LedgerStep.stepped
  | tick connect =>
      obtain ⟨es, s₁, s₂, hstart, hprocess, node, rfl⟩ := tick_ok h
      obtain ⟨rfl, hnode, hledger₁⟩ := startTick_ok hstart
      have hsteps := (processEntries_ledger hprocess).2
      have hqueue : s₁.proposals = s.proposals := congrArg Ledger.proposals hledger₁
      rw [hnode, hqueue, hledger₁] at hsteps
      exact (Steps.single LedgerStep.ticked).trans hsteps

/-- **The server refines its ledger.**  Every run of a server is, record by record, a sequence of
ledger steps. -/
theorem run_ledger {s₀ s : Server σ} {h : List Record}
    (run : (serverMachine raft codec).Run s₀ h s) : LedgerSteps codec s₀.ledger h s.ledger := by
  induction run with
  | nil => exact Steps.nil
  | snoc ev _ hexec ih =>
      exact ih.trans (execEvent_ledger ((serverMachine_exec raft codec).mp hexec))

end

end Jkv
