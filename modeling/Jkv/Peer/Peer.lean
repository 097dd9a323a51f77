import Jkv.Core.SortedQueue
import Jkv.Peer.Members
import Jkv.Peer.RawNode
import Jkv.Storage.DiskStorage

/-!
# `peer/peer.cc`

The peer: a raft node, a database, and the queue of proposals whose clients wait for an answer.

A function of `Peer` runs in `PeerM`, on the state of the process it belongs to (`Server`): the
peer's own members, the rpc clients of its host, and what has left the process — messages handed to
rpc clients and closures that were run.  `JLOG_FATAL` is `throw`.

Two things are represented by value.  `KvResp* resp` is written by nobody but the peer until
`done->Run()` sends it, so a proposal carries the response itself; and running a closure records the
closure together with the response it sends.
-/

namespace Jkv

/-- A closure is named by the number of the `KvOp` call it came with. -/
abbrev Closure := ℕ

structure Proposal where
  index : ℕ
  term : ℕ
  resp : KvResp
  done : Closure
  deriving DecidableEq

/-- `done->Run()`: the closure, and the response it sent. -/
structure Callback where
  done : Closure
  resp : KvResp
  deriving DecidableEq

/-- `class Peer`. -/
structure Peer (σ : Type) where
  self : GroupMember
  peers : PeerTable
  rawNode : σ
  kvDb : KvDb
  proposals : List Proposal := []

/-- A peer and what its calls touch outside of it: the host's rpc clients by host id, each
represented by the address it is connected to, the messages sent, the closures run, and the number
of `KvOp` calls received, which names the closures. -/
structure Server (σ : Type) extends Peer σ where
  rpcCliMgr : Finmap fun _ : HostId => SockAddress := ∅
  sent : List (SockAddress × RaftMsgReq) := []
  ran : List Callback := []
  calls : ℕ := 0

abbrev PeerM (σ : Type) := EStateM Fatal (Server σ)

variable {σ : Type}

/-- `done->Run()`. -/
def runClosure (done : Closure) (resp : KvResp) : PeerM σ Unit :=
  modify fun s => { s with ran := s.ran ++ [⟨done, resp⟩] }

/-- An operation of `DiskStorage` inside a function of the peer. -/
def liftDb {α : Type} : Except Fatal α → PeerM σ α
  | .ok a => pure a
  | .error f => throw f

/-! ## Proposals -/

/-- `p->resp->set_rejected(true); p->done->Run()`. -/
def Proposal.reject (p : Proposal) : Callback := ⟨p.done, { p.resp with rejected := true }⟩

/-- The loop of `GetProposal`: the front is popped and rejected until a proposal of the given
index and term, or one beyond it, shows up. -/
def popProposals (index term : ℕ) : List Proposal → Popped Proposal
  | [] => ⟨none, [], []⟩
  | p :: proposals =>
      if term = p.term then
        if index = p.index then ⟨some p, [], proposals⟩
        else if index < p.index then ⟨none, [], p :: proposals⟩
        else (popProposals index term proposals).reject p
      else if term < p.term then ⟨none, [], p :: proposals⟩
      else (popProposals index term proposals).reject p

/-- Leave the queue as the popping left it, and answer the rejected proposals. -/
def settle (r : Popped Proposal) : PeerM σ Unit :=
  modify fun s => { s with
    proposals := r.queue
    ran := s.ran ++ r.rejected.map Proposal.reject }

/-- `Peer::GetProposal`. -/
def getProposal (index term : ℕ) : PeerM σ (Option Proposal) := do
  let r := popProposals index term (← get).proposals
  settle r
  return r.found

/-- `Peer::CallbackAll`, as what it does to the queue: everything is rejected. -/
def allRejected (proposals : List Proposal) : Popped Proposal := ⟨none, proposals, []⟩

/-- `Peer::CallbackAll`. -/
def callbackAll : PeerM σ Unit := do
  settle (allRejected (← get).proposals)

/-! ## Sending -/

/-- `PeerHost::GetClient`.  `connect` says whether `client->Connect()` succeeds. -/
def getClient (connect : SockAddress → Bool) (hostId : HostId) (addr : SockAddress)
    (createIfMissing : Bool := true) : PeerM σ (Option SockAddress) := do
  match (← get).rpcCliMgr.lookup hostId with
  | some client => return some client
  | none =>
      if !createIfMissing then
        return none
      if !connect addr then
        throw (.connectFailed addr.toText)
      modify fun s => { s with rpcCliMgr := s.rpcCliMgr.insert hostId addr }
      return some addr

/-- `Peer::SendMsg2Peer`.  The iterator of a missing key is dereferenced all the same. -/
def sendMsg2Peer (connect : SockAddress → Bool) (msg : Message) : PeerM σ Unit := do
  let s ← get
  let some toMember := s.peers.lookup msg.toId | throw .endIterator
  let raftMsg : RaftMsgReq :=
    { msg := msg
      fromPeer := ⟨s.self.hostId, s.self.peerId⟩
      toPeer := ⟨toMember.hostId, toMember.peerId⟩ }
  let some client ← getClient connect msg.toId ⟨toMember.ip, toMember.port⟩
    | throw .nullClient
  modify fun s => { s with sent := s.sent ++ [(client, raftMsg)] }

/-- `Peer::SendMsgs`. -/
def sendMsgs (connect : SockAddress → Bool) (msgs : List Message) : PeerM σ Unit :=
  msgs.forM (sendMsg2Peer connect)

/-! ## Applying committed entries -/

section

variable (raft : RawNode σ) (codec : Codec)

/-- `Peer::ProcessNormal`. -/
def processNormal (entry : Entry) (p : Option Proposal) : PeerM σ Unit := do
  let some req := codec.parse entry.data | throw .parseFailed
  let type := req.cmdType
  if type = kInvalid then
    return
  else if type = kGet then
    let val ← liftDb (DiskStorage.get (← get).kvDb req.get.key)
    if let some p := p then
      runClosure p.done { p.resp with getResp := some ⟨val⟩ }
  else if type = kPut then
    let db ← liftDb (DiskStorage.put (← get).kvDb req.put.key req.put.value)
    modify fun s => { s with kvDb := db }
    if let some p := p then
      runClosure p.done p.resp
  else if type = kDel then
    let db ← liftDb (DiskStorage.del (← get).kvDb req.del.key)
    modify fun s => { s with kvDb := db }
    if let some p := p then
      runClosure p.done p.resp
  else
    throw .unknownCommand

/-- `Peer::ProcessConfChange`, which the source leaves to be written. -/
def processConfChange (_entry : Entry) (_p : Option Proposal) : PeerM σ Unit := pure ()

/-- `Peer::ProcessEntry`. -/
def processEntry (entry : Entry) : PeerM σ Unit := do
  let mut p : Option Proposal := none
  if raft.isLeader (← get).rawNode then
    p ← getProposal entry.index entry.term
  else
    callbackAll
  if entry.type = .kEntryNormal then
    processNormal codec entry p
  else
    processConfChange entry p

/-- `Peer::ProcessEntries`. -/
def processEntries (entries : List Entry) : PeerM σ Unit :=
  entries.forM (processEntry raft codec)

/-! ## The three calls of the event loop -/

/-- `Peer::NextProposalIndex`. -/
def nextProposalIndex (node : σ) : ℕ := raft.lastIndex node + 1

/-- `Peer::ProposeKvOp`.  What `Propose` returns is not looked at. -/
def proposeKvOp (req : KvReq) (resp : KvResp) (done : Closure) : PeerM σ Unit := do
  let some context := codec.serialize req | throw .serializeFailed
  let s ← get
  let ni := nextProposalIndex raft s.rawNode
  let p : Proposal := ⟨ni, raft.term s.rawNode, resp, done⟩
  if raft.isLeader s.rawNode then
    modify fun s => { s with proposals := s.proposals ++ [p] }
  modify fun s => { s with rawNode := (raft.propose s.rawNode context).2 }

/-- `Peer::Step`. -/
def stepPeer (msg : Message) : PeerM σ ErrNum := do
  let r := raft.step (← get).rawNode msg
  modify fun s => { s with rawNode := r.2 }
  return r.1

/-- `Peer::HandleRaftReady`. -/
def handleRaftReady (connect : SockAddress → Bool) : PeerM σ Unit := do
  if !raft.hasReady (← get).rawNode then
    return
  let rd := (raft.getReady (← get).rawNode).1
  modify fun s => { s with rawNode := (raft.getReady s.rawNode).2 }
  if !rd.entries.isEmpty then
    modify fun s => { s with rawNode := raft.append s.rawNode rd.entries }
  if !rd.messages.isEmpty then
    sendMsgs connect rd.messages
  if !rd.committedEntries.isEmpty then
    processEntries raft codec rd.committedEntries
  modify fun s => { s with rawNode := raft.advance s.rawNode rd }

/-- `Peer::Tick`. -/
def tick (connect : SockAddress → Bool) : PeerM σ Unit := do
  modify fun s => { s with rawNode := raft.tick s.rawNode }
  handleRaftReady raft codec connect

end

/-- `Peer::Peer`.  `db` is what the database on disk holds. -/
def newPeer (raft : RawNode σ) (peerOpt : PeerOption) (db : KvDb) : Except Fatal (Peer σ) := do
  let self : GroupMember := ⟨peerOpt.hostId, peerOpt.peerId, peerOpt.ip, peerOpt.port⟩
  let peers ← initGroupMembers peerOpt.members
  let c : Config := { id := self.hostId }
  let some storage := peerOpt.storage | throw .storageMissing
  let (err, voters) := storage.getSnapshot
  if err ≠ .kOk then
    throw .snapshotMissing
  return { self, peers, rawNode := raft.construct c (voters + peers.keys.val), kvDb := db }

end Jkv
