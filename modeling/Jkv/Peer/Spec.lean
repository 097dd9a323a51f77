import Mathlib.Data.Prod.Lex
import Jkv.Core.Fallible
import Jkv.Peer.Peer
import Jkv.Store.Command

/-!
# What the functions of the peer do

One equation per function of `Jkv/Peer/Peer.lean`; nothing after this file unfolds them again.

The pass over a committed entry splits into two parts that do not see each other.  The *queue* part
(`popFor`) looks at the role of the peer and at the index and term of the entry; the *database*
part (`applyEntry`) looks at the type and the data of the entry.  `run_processEntry` says the whole
pass is the two side by side, and that it aborts exactly when the database part does.

The loop of `GetProposal` pops up to the key `(term, index)` in lexicographic order
(`popProposals_eq_popTo`), whatever the queue looks like.
-/

namespace Jkv

variable {σ : Type}

/-! ## The queue part -/

/-- Proposals and entries are compared by term first. -/
abbrev Key := ℕ ×ₗ ℕ

def Proposal.key (p : Proposal) : Key := toLex (p.term, p.index)

def Entry.key (e : Entry) : Key := toLex (e.term, e.index)

lemma Proposal.key_lt_iff {p : Proposal} {index term : ℕ} :
    p.key < toLex (term, index) ↔ p.term < term ∨ p.term = term ∧ p.index < index := by
  simp [Proposal.key, Prod.Lex.toLex_lt_toLex]

lemma Proposal.key_eq_iff {p : Proposal} {index term : ℕ} :
    p.key = toLex (term, index) ↔ p.term = term ∧ p.index = index := by
  simp [Proposal.key]

/-- **The loop of `GetProposal` pops up to a key.** -/
theorem popProposals_eq_popTo (index term : ℕ) (q : List Proposal) :
    popProposals index term q = popTo Proposal.key (toLex (term, index)) q := by
  induction q with
  | nil => rfl
  | cons p q ih =>
      rw [popProposals, popTo, ih]
      simp only [Proposal.key_lt_iff, Proposal.key_eq_iff]
      split_ifs <;> first | rfl | omega

/-- What a committed entry does to the queue of a peer that does, or does not, lead. -/
def popFor (leader : Bool) (e : Entry) (q : List Proposal) : Popped Proposal :=
  if leader then popProposals e.index e.term q else allRejected q

lemma popFor_leader (e : Entry) (q : List Proposal) :
    popFor true e q = popTo Proposal.key e.key q := popProposals_eq_popTo ..

lemma popFor_follower (e : Entry) (q : List Proposal) : popFor false e q = ⟨none, q, []⟩ := rfl

/-- Popping loses nothing: every proposal is answered, handed out, or still queued, in order. -/
lemma popFor_append (leader : Bool) (e : Entry) (q : List Proposal) :
    (popFor leader e q).rejected ++ (popFor leader e q).found.toList ++ (popFor leader e q).queue
      = q := by
  cases leader with
  | false => simp [popFor_follower]
  | true => rw [popFor_leader]; exact popTo_append ..

lemma popFor_queue_sublist (leader : Bool) (e : Entry) (q : List Proposal) :
    List.Sublist (popFor leader e q).queue q := by
  have hsub := List.sublist_append_right
    ((popFor leader e q).rejected ++ (popFor leader e q).found.toList) (popFor leader e q).queue
  rwa [popFor_append] at hsub

/-- A proposal is only handed out to an entry of its own index and term. -/
lemma popFor_found {leader : Bool} {e : Entry} {q : List Proposal} {p : Proposal}
    (h : (popFor leader e q).found = some p) : p.index = e.index ∧ p.term = e.term := by
  cases leader with
  | false => simp [popFor_follower] at h
  | true =>
      rw [popFor_leader] at h
      have hkey := popTo_found_eq h
      rw [Entry.key, Proposal.key_eq_iff] at hkey
      exact ⟨hkey.2, hkey.1⟩

/-! ## The database part -/

/-- Running a command against the database, the way `DiskStorage` does it: reading an absent key
is fatal. -/
def Command.exec (db : KvDb) : Command → Except Fatal KvDb
  | .noop => .ok db
  | .get key => (DiskStorage.get db key).map fun _ => db
  | .put key val => DiskStorage.put db key val
  | .del key => DiskStorage.del db key

/-- How a client that waits for a command is answered. -/
def Command.answer (db : KvDb) (p : Proposal) : Command → List Callback
  | .noop => []
  | .get key => [⟨p.done, { p.resp with getResp := some ⟨(db.lookup key).getD []⟩ }⟩]
  | .put _ _ => [⟨p.done, p.resp⟩]
  | .del _ => [⟨p.done, p.resp⟩]

/-- When a command runs, it does what the reference semantics says. -/
lemma Command.exec_eq_ok {db db' : KvDb} {cmd : Command} :
    cmd.exec db = .ok db' ↔ db' = cmd.apply db ∧ ∀ key, cmd = .get key → key ∈ db := by
  cases cmd with
  | noop => simp [exec, apply, eq_comm]
  | get key =>
      cases hlookup : db.lookup key with
      | none =>
          have habsent : key ∉ db := by simp [Finmap.mem_iff, hlookup]
          simp [exec, DiskStorage.get_of_absent hlookup, Except.map, habsent]
      | some val =>
          have hmem : key ∈ db := Finmap.mem_of_lookup_eq_some hlookup
          simp [exec, apply, DiskStorage.get_of_lookup hlookup, Except.map, hmem, eq_comm]
  | put key val => simp [exec, apply, eq_comm]
  | del key => simp [exec, apply, eq_comm]

section

variable (codec : Codec)

/-- How `ProcessNormal` reads a request. -/
def commandOf (req : KvReq) : Except Fatal Command :=
  if req.cmdType = kInvalid then .ok .noop
  else if req.cmdType = kGet then .ok (.get req.get.key)
  else if req.cmdType = kPut then .ok (.put req.put.key req.put.value)
  else if req.cmdType = kDel then .ok (.del req.del.key)
  else .error .unknownCommand

/-- One of the three commands that clients are offered. -/
def KvReq.IsOperation (req : KvReq) : Prop :=
  req.cmdType = kGet ∨ req.cmdType = kPut ∨ req.cmdType = kDel

/-- One of the three commands is read as what it says. -/
lemma KvReq.IsOperation.commandOf_eq {req : KvReq} (hop : req.IsOperation) :
    ∃ cmd, commandOf req = .ok cmd ∧ cmd ≠ .noop ∧
      ∀ key, cmd = .get key → req.cmdType = kGet ∧ key = req.get.key := by
  rw [commandOf]
  split_ifs with hinvalid hget hput hdel
  · rcases hop with htype | htype | htype <;> rw [htype] at hinvalid <;> cases hinvalid
  · refine ⟨_, rfl, by simp, ?_⟩
    intro key hcmd
    cases hcmd
    exact ⟨hget, rfl⟩
  · exact ⟨_, rfl, by simp, by simp⟩
  · exact ⟨_, rfl, by simp, by simp⟩
  · rcases hop with htype | htype | htype <;> contradiction

/-- Anything else asks for nothing, or ends the process. -/
lemma commandOf_of_not_isOperation {req : KvReq} (hop : ¬ req.IsOperation) :
    commandOf req = .ok .noop ∨ commandOf req = .error .unknownCommand := by
  rw [commandOf]
  split_ifs with hinvalid hget hput hdel
  · exact Or.inl rfl
  · exact absurd (Or.inl hget) hop
  · exact absurd (Or.inr (Or.inl hput)) hop
  · exact absurd (Or.inr (Or.inr hdel)) hop
  · exact Or.inr rfl

/-- How `ProcessEntry` reads an entry. -/
def decode (e : Entry) : Except Fatal Command :=
  if e.type = .kEntryNormal then
    match codec.parse e.data with
    | none => .error .parseFailed
    | some req => commandOf req
  else .ok .noop

/-- What an entry leaves in the database, or how it ends the process. -/
def applyEntry (db : KvDb) (e : Entry) : Except Fatal KvDb :=
  match decode codec e with
  | .ok cmd => cmd.exec db
  | .error f => .error f

/-- How the proposal handed out to an entry is answered. -/
def answer (db : KvDb) (e : Entry) (p : Proposal) : List Callback :=
  match decode codec e with
  | .ok cmd => cmd.answer db p
  | .error _ => []

/-- The server after its queue was popped. -/
def Server.settled (s : Server σ) (r : Popped Proposal) : Server σ :=
  { s with proposals := r.queue, ran := s.ran ++ r.rejected.map Proposal.reject }

/-- The server after the database part. -/
def Server.applied (s : Server σ) (e : Entry) (p : Option Proposal) (db : KvDb) : Server σ :=
  { s with kvDb := db, ran := s.ran ++ p.toList.flatMap (answer codec s.kvDb e) }

variable {codec}

lemma applyEntry_of_decode {db : KvDb} {e : Entry} {cmd : Command} (h : decode codec e = .ok cmd) :
    applyEntry codec db e = cmd.exec db := by rw [applyEntry, h]

lemma answer_of_decode {db : KvDb} {e : Entry} {cmd : Command} {p : Proposal}
    (h : decode codec e = .ok cmd) : answer codec db e p = cmd.answer db p := by rw [answer, h]

lemma decode_normal {e : Entry} {req : KvReq} (htype : e.type = .kEntryNormal)
    (hparse : codec.parse e.data = some req) : decode codec e = commandOf req := by
  simp [decode, htype, hparse]

lemma decode_confChange {e : Entry} (htype : e.type ≠ .kEntryNormal) :
    decode codec e = .ok .noop := by
  simp [decode, htype]

/-- The ways an entry can end the process. -/
lemma applyEntry_error {db : KvDb} {e : Entry} {f : Fatal} (h : applyEntry codec db e = .error f) :
    f = .parseFailed ∨ f = .unknownCommand ∨ f = .dbGet "NotFound: " := by
  rw [applyEntry] at h
  split at h
  · next cmd _ =>
      cases cmd with
      | noop => cases h
      | get key =>
          cases hlookup : db.lookup key with
          | none => simp_all [Command.exec, DiskStorage.get_of_absent hlookup, Except.map]
          | some val => simp [Command.exec, DiskStorage.get_of_lookup hlookup, Except.map] at h
      | put key val => simp [Command.exec] at h
      | del key => simp [Command.exec] at h
  · next f' hdecode =>
      cases h
      rw [decode] at hdecode
      split_ifs at hdecode
      split at hdecode
      · cases hdecode
        exact Or.inl rfl
      · rw [commandOf] at hdecode
        split_ifs at hdecode
        cases hdecode
        exact Or.inr (Or.inl rfl)

/-- An entry that asks for nothing changes nothing. -/
lemma applied_noop {e : Entry} (h : decode codec e = .ok .noop) (p : Option Proposal)
    (s : Server σ) : s.applied codec e p s.kvDb = s := by
  cases p <;> simp [Server.applied, answer_of_decode h, Command.answer]

@[simp] lemma liftDb_ok {α : Type} (a : α) : (liftDb (.ok a) : PeerM σ α) = pure a := rfl

@[simp] lemma liftDb_error {α : Type} (f : Fatal) : (liftDb (.error f) : PeerM σ α) = throw f :=
  rfl

@[simp] lemma run_throw' {α : Type} (f : Fatal) (s : Server σ) :
    (throw f : PeerM σ α).run s = .error f s := rfl

variable (codec)

lemma run_processNormal (e : Entry) (p : Option Proposal) (s : Server σ)
    (htype : e.type = .kEntryNormal) :
    (processNormal codec e p).run s = match applyEntry codec s.kvDb e with
      | .ok db => .ok () (s.applied codec e p db)
      | .error f => .error f s := by
  cases hparse : codec.parse e.data with
  | none => simp [processNormal, applyEntry, decode, htype, hparse]
  | some req =>
      have hdecode := decode_normal htype hparse
      rw [commandOf] at hdecode
      simp only [processNormal, hparse]
      -- the branches of the source, in its order
      split_ifs at hdecode ⊢ with hinv hget hput hdel
      · rw [applyEntry_of_decode hdecode]
        exact congrArg _ (applied_noop hdecode _ _).symm
      · rw [applyEntry_of_decode hdecode, Command.exec]
        cases hlookup : s.kvDb.lookup req.get.key with
        | none => simp [DiskStorage.get_of_absent hlookup, Except.map]
        | some val =>
            cases p <;> simp [DiskStorage.get_of_lookup hlookup, Except.map, Server.applied,
              answer_of_decode hdecode, Command.answer, runClosure, hlookup]
      · rw [applyEntry_of_decode hdecode, Command.exec]
        cases p <;> simp [Server.applied, answer_of_decode hdecode, Command.answer, runClosure]
      · rw [applyEntry_of_decode hdecode, Command.exec]
        cases p <;> simp [Server.applied, answer_of_decode hdecode, Command.answer, runClosure]
      · rw [applyEntry, hdecode]
        rfl

/-- **The pass over one committed entry.**  The queue part does not look at the data of the entry,
the database part does not look at the role of the peer, and only the database part can abort. -/
theorem run_processEntry (raft : RawNode σ) (e : Entry) (s : Server σ) :
    (processEntry raft codec e).run s =
      let r := popFor (raft.isLeader s.rawNode) e s.proposals
      match applyEntry codec s.kvDb e with
      | .ok db => .ok () ((s.settled r).applied codec e r.found db)
      | .error f => .error f (s.settled r) := by
  have hqueue : (processEntry raft codec e).run s =
      let r := popFor (raft.isLeader s.rawNode) e s.proposals
      EStateM.run (if e.type = .kEntryNormal then processNormal codec e r.found
        else processConfChange e r.found) (s.settled r) := by
    cases hlead : raft.isLeader s.rawNode
    · simp [processEntry, hlead, callbackAll, settle, popFor, Server.settled, allRejected]
    · simp [processEntry, hlead, getProposal, settle, popFor, Server.settled]
  rw [hqueue]
  dsimp only
  split_ifs with htype
  · rw [run_processNormal codec e _ _ htype]
    rfl
  · have hnoop : decode codec e = .ok .noop := decode_confChange htype
    rw [applyEntry_of_decode hnoop]
    exact congrArg _ (applied_noop hnoop _ _).symm

lemma run_processEntries_cons (raft : RawNode σ) (e : Entry) (es : List Entry) (s : Server σ) :
    (processEntries raft codec (e :: es)).run s = match (processEntry raft codec e).run s with
      | .ok _ s' => (processEntries raft codec es).run s'
      | .error f s' => .error f s' := by
  rw [processEntries, run_forM_cons]
  cases (processEntry raft codec e).run s <;> rfl

end

/-! ## Sending -/

@[simp] lemma run_map' {α β : Type} (f : α → β) (x : PeerM σ α) (s : Server σ) :
    (f <$> x).run s = match x.run s with
      | .ok a s' => .ok (f a) s'
      | .error e s' => .error e s' := by
  rw [← bind_pure_comp, EStateM.run_bind]
  cases x.run s <;> rfl

/-- The envelope `SendMsg2Peer` puts a message into. -/
def Server.envelope (s : Server σ) (toMember : GroupMember) (msg : Message) : RaftMsgReq :=
  { msg := msg
    fromPeer := ⟨s.self.hostId, s.self.peerId⟩
    toPeer := ⟨toMember.hostId, toMember.peerId⟩ }

/-- **Sending one message**: the destination is looked up, the client of that host is used or
made, and the message goes to the address the client is connected to. -/
theorem run_sendMsg2Peer (connect : SockAddress → Bool) (msg : Message) (s : Server σ) :
    (sendMsg2Peer connect msg).run s = match s.peers.lookup msg.toId with
      | none => .error .endIterator s
      | some m => match s.rpcCliMgr.lookup msg.toId with
        | some client => .ok () { s with sent := s.sent ++ [(client, s.envelope m msg)] }
        | none =>
            if connect ⟨m.ip, m.port⟩ then
              .ok () { s with
                rpcCliMgr := s.rpcCliMgr.insert msg.toId ⟨m.ip, m.port⟩
                sent := s.sent ++ [(⟨m.ip, m.port⟩, s.envelope m msg)] }
            else .error (.connectFailed (SockAddress.toText ⟨m.ip, m.port⟩)) s := by
  cases hpeer : s.peers.lookup msg.toId with
  | none => simp [sendMsg2Peer, hpeer]
  | some m =>
      cases hclient : s.rpcCliMgr.lookup msg.toId with
      | some client => simp [sendMsg2Peer, getClient, hpeer, hclient, Server.envelope]
      | none =>
          cases hconn : connect ⟨m.ip, m.port⟩ <;>
            simp [sendMsg2Peer, getClient, hpeer, hclient, hconn, Server.envelope]

/-- Nothing but the clients and the messages sent may differ. -/
def Server.SameButSent (s s' : Server σ) : Prop :=
  ∃ mgr sent, s' = { s with rpcCliMgr := mgr, sent := sent }

lemma sendMsg2Peer_frame {connect : SockAddress → Bool} {msg : Message} {s s' : Server σ}
    (h : (sendMsg2Peer connect msg).run s = .ok () s') : s.SameButSent s' := by
  rw [run_sendMsg2Peer] at h
  split at h
  · cases h
  · split at h
    · cases h
      exact ⟨_, _, rfl⟩
    · split_ifs at h
      cases h
      exact ⟨_, _, rfl⟩

/-- Sending leaves the peer alone. -/
lemma sendMsgs_frame {connect : SockAddress → Bool} {msgs : List Message} {s s' : Server σ}
    (h : (sendMsgs connect msgs).run s = .ok () s') : s.SameButSent s' := by
  refine forM_invariant ?_ ⟨s.rpcCliMgr, s.sent, rfl⟩ h
  rintro msg s₁ s₂ ⟨mgr, sent, rfl⟩ hsend
  obtain ⟨mgr', sent', rfl⟩ := sendMsg2Peer_frame hsend
  exact ⟨mgr', sent', rfl⟩

/-- Sending that ends the process ends on one message, when those before it have left: on a host
that is not in the table, or on an address in the table that nobody listens at. -/
lemma sendMsgs_error {connect : SockAddress → Bool} {msgs : List Message} {s s' : Server σ}
    {f : Fatal} (h : (sendMsgs connect msgs).run s = .error f s') : ∃ msgs₁ msg msgs₂,
      msgs = msgs₁ ++ msg :: msgs₂ ∧ (sendMsgs connect msgs₁).run s = .ok () s' ∧
        (s.peers.lookup msg.toId = none ∧ f = .endIterator ∨
          ∃ row, s.peers.lookup msg.toId = some row ∧ connect ⟨row.ip, row.port⟩ = false ∧
            f = .connectFailed (SockAddress.toText ⟨row.ip, row.port⟩)) := by
  obtain ⟨msgs₁, msg, msgs₂, s₁, rfl, hsent, hmsg⟩ := forM_error_split h
  obtain ⟨mgr, sent, rfl⟩ := sendMsgs_frame hsent
  rw [run_sendMsg2Peer] at hmsg
  split at hmsg
  · next hlookup =>
      cases hmsg
      exact ⟨msgs₁, msg, msgs₂, rfl, hsent, Or.inl ⟨hlookup, rfl⟩⟩
  · next row hrow =>
      split at hmsg
      · cases hmsg
      · split_ifs at hmsg with hconnect
        cases hmsg
        exact ⟨msgs₁, msg, msgs₂, rfl, hsent,
          Or.inr ⟨row, hrow, Bool.eq_false_iff.mpr hconnect, rfl⟩⟩

end Jkv
