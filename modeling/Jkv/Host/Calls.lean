import Jkv.Server.Ledger
import Jkv.Service.RaftMsgService

/-!
# A host as a machine

The calls that reach a host: a raft message in its envelope, a client's request, and the timer of
one of its peers.  What a call lets one see here is what passes between the peers and jraft: the
messages stepped, and the messages a `Ready` asks to be sent.

The tables the peers were constructed with never change (`execHost_members`).
-/

namespace Jkv

variable {σ α : Type}

/-- A call that reaches a host. -/
inductive HostEvent
  | raftMsg (req : RaftMsgReq)
  | kvOp (req : KvReq)
  | tick (peerId : PeerId) (connect : SockAddress → Bool)

/-- What passed between a peer and jraft. -/
inductive HostAct
  | stepped (msg : Message) (err : ErrNum)
  | readied (messages : List Message)
  deriving DecidableEq

section

variable (raft : RawNode σ) (codec : Codec)

/-- One call. -/
def execHost (host : PeerHost σ) : HostEvent → EStateM.Result Fatal (PeerHost σ) Unit
  | .raftMsg req => (handleRaftMsg raft req).run host
  | .kvOp req => (kvOpCb raft codec req).run host
  | .tick peerId connect => (onPeer peerId (tick raft codec connect)).run host

/-- What a call lets one see. -/
def observeHost (host : PeerHost σ) : HostEvent → List (PeerId × HostAct)
  | .raftMsg req =>
      if req.toPeer.hostId ≠ host.hostId then []
      else match host.localPeers.lookup req.toPeer.peerId with
        | none => []
        | some peer => [(req.toPeer.peerId, .stepped req.msg (raft.step peer.rawNode req.msg).1)]
  | .kvOp _ => []
  | .tick peerId _ =>
      match host.localPeers.lookup peerId with
      | none => []
      | some peer => [(peerId, .readied (readyMessages raft peer.rawNode))]

/-- A host, as the machine of the calls that reach it. -/
def hostMachine : Machine (PeerHost σ) HostEvent (PeerId × HostAct) where
  exec host ev := match execHost raft codec host ev with
    | .ok _ host' => some host'
    | .error _ _ => none
  obs := observeHost raft

lemma hostMachine_exec {host host' : PeerHost σ} {ev : HostEvent} :
    (hostMachine raft codec).exec host ev = some host' ↔
      execHost raft codec host ev = .ok () host' := by
  simp only [hostMachine]
  cases execHost raft codec host ev <;> simp

end

variable {raft : RawNode σ} {codec : Codec} {host host' : PeerHost σ}

/-! ## What a call leaves alone -/

/-- Nothing a peer routes its messages by differs. -/
structure Server.SameWiring (s s' : Server σ) : Prop where
  self : s'.self = s.self
  peers : s'.peers = s.peers
  rpcCliMgr : s'.rpcCliMgr = s.rpcCliMgr
  sent : s'.sent = s.sent

lemma processEntries_wiring {es : List Entry} {s s' : Server σ}
    (h : (processEntries raft codec es).run s = .ok () s') : s.SameWiring s' := by
  refine forM_invariant ?_ ⟨rfl, rfl, rfl, rfl⟩ h
  intro e s₁ s₂ hwiring hentry
  rw [run_processEntry] at hentry
  dsimp only at hentry
  cases hdb : applyEntry codec s₁.kvDb e with
  | error f => rw [hdb] at hentry; cases hentry
  | ok db =>
      rw [hdb] at hentry
      cases hentry
      exact ⟨hwiring.self, hwiring.peers, hwiring.rpcCliMgr, hwiring.sent⟩

lemma kvOp_wiring {req : KvReq} {resp : KvResp} {done : Closure} {s s' : Server σ}
    (h : (kvOp raft codec req resp done).run s = .ok () s') : s.SameWiring s' := by
  cases hlead : raft.isLeader s.rawNode with
  | false =>
      rw [run_kvOp_follower raft codec hlead] at h
      cases h
      exact ⟨rfl, rfl, rfl, rfl⟩
  | true =>
      rw [run_kvOp_leader raft codec hlead] at h
      split at h
      · cases h
        exact ⟨rfl, rfl, rfl, rfl⟩
      · cases h

/-- A tick that returns has sent the messages of its `Ready`, and moved nothing else that messages
are routed by. -/
lemma tick_wiring {connect : SockAddress → Bool} {s s' : Server σ}
    (h : (tick raft codec connect).run s = .ok () s') :
    ∃ node s₁, (sendMsgs connect (readyMessages raft s.rawNode)).run { s with rawNode := node }
      = .ok () s₁ ∧ s₁.SameWiring s' := by
  obtain ⟨es, s₁, s₂, hstart, hprocess, node, rfl⟩ := tick_ok h
  have hwiring := processEntries_wiring hprocess
  exact ⟨_, s₁, startTick_sends hstart, hwiring.self, hwiring.peers, hwiring.rpcCliMgr,
    hwiring.sent⟩

/-- Own name and table of a local peer. -/
def PeerHost.members (host : PeerHost σ) (peerId : PeerId) : Option (GroupMember × PeerTable) :=
  (host.localPeers.lookup peerId).map fun peer => (peer.self, peer.peers)

lemma PeerHost.members_store {peerId : PeerId} {peer : Peer σ} {s : Server σ}
    (hpeer : host.localPeers.lookup peerId = some peer) (hself : s.self = peer.self)
    (hpeers : s.peers = peer.peers) : (host.store peerId s).members = host.members := by
  funext i
  by_cases hi : i = peerId
  · subst hi
    simp [PeerHost.members, PeerHost.store, hpeer, hself, hpeers]
  · simp [PeerHost.members, PeerHost.store, Finmap.lookup_insert_of_ne _ hi]

/-- A call on a peer that keeps its name and table keeps them at the host. -/
lemma onPeer_members {peerId : PeerId} {call : PeerM σ α} {a : α}
    (hcall : ∀ s a s', call.run s = .ok a s' → s'.self = s.self ∧ s'.peers = s.peers)
    (h : (onPeer peerId call).run host = .ok a host') :
    host'.members = host.members ∧ host'.hostOpt = host.hostOpt := by
  rw [run_onPeer] at h
  split at h
  · cases h
  · next peer hpeer =>
      split at h
      · next b s hrun =>
          cases h
          obtain ⟨hself, hpeers⟩ := hcall _ _ _ hrun
          exact ⟨PeerHost.members_store hpeer hself hpeers, rfl⟩
      · cases h

/-- A client's request moves nothing that the host routes messages by. -/
lemma kvOpCb_wiring {req : KvReq} (h : (kvOpCb raft codec req).run host = .ok () host') :
    host'.members = host.members ∧ host'.hostOpt = host.hostOpt ∧
      host'.rpcCliMgr = host.rpcCliMgr ∧ host'.sent = host.sent := by
  rw [run_kvOpCb] at h
  split at h
  · cases h
  · next peer hpeer =>
      split at h
      · next u s hrun =>
          cases h
          have hwiring := kvOp_wiring hrun
          exact ⟨PeerHost.members_store hpeer hwiring.self hwiring.peers, rfl, hwiring.rpcCliMgr,
            hwiring.sent⟩
      · cases h

/-- **No call changes a table.** -/
theorem execHost_members {ev : HostEvent} (h : execHost raft codec host ev = .ok () host') :
    host'.members = host.members ∧ host'.hostOpt = host.hostOpt := by
  cases ev with
  | raftMsg req =>
      rw [execHost, run_handleRaftMsg] at h
      split_ifs at h
      split at h
      · cases h
      · next peer hpeer =>
          cases h
          have hmembers := PeerHost.members_store (s := host.server (peer.stepped raft req.msg))
            hpeer rfl rfl
          exact ⟨hmembers, rfl⟩
  | kvOp req =>
      obtain ⟨hmembers, hopt, -, -⟩ := kvOpCb_wiring h
      exact ⟨hmembers, hopt⟩
  | tick peerId connect =>
      refine onPeer_members ?_ h
      intro s a s' hrun
      obtain ⟨node, s₁, hsend, hwiring⟩ := tick_wiring hrun
      obtain ⟨mgr, sent, rfl⟩ := sendMsgs_frame hsend
      exact ⟨hwiring.self, hwiring.peers⟩

end Jkv
