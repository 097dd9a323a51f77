import Jkv.Peer.Peer

/-!
# `peer/peer_host.cc`

A host owns its local peers, by peer id, and the rpc clients they share, by host id.  Calls arrive
at the host and are made on one of its peers; `onPeer` is such a call.  A peer's own functions run
on a `Server`, which is the peer together with what it shares with its host.
-/

namespace Jkv

/-- `class PeerHost`, with what has left the process. -/
structure PeerHost (σ : Type) where
  hostOpt : PeerHostOption
  localPeers : Finmap fun _ : PeerId => Peer σ := ∅
  rpcCliMgr : Finmap fun _ : HostId => SockAddress := ∅
  sent : List (SockAddress × RaftMsgReq) := []
  ran : List Callback := []
  calls : ℕ := 0

abbrev HostM (σ : Type) := EStateM Fatal (PeerHost σ)

namespace PeerHost

variable {σ : Type}

def hostId (host : PeerHost σ) : HostId := host.hostOpt.hostId

/-- `mutable_local_peers(i)`. -/
def mutableLocalPeers (host : PeerHost σ) (i : PeerId) : Option (Peer σ) := host.localPeers.lookup i

/-- A local peer and what it shares with its host. -/
def server (host : PeerHost σ) (peer : Peer σ) : Server σ :=
  { peer with
    rpcCliMgr := host.rpcCliMgr
    sent := host.sent
    ran := host.ran
    calls := host.calls }

/-- The host after a call on one of its peers. -/
def store (host : PeerHost σ) (peerId : PeerId) (s : Server σ) : PeerHost σ :=
  { host with
    localPeers := host.localPeers.insert peerId s.toPeer
    rpcCliMgr := s.rpcCliMgr
    sent := s.sent
    ran := s.ran
    calls := s.calls }

end PeerHost

variable {σ α : Type}

/-- A call on a local peer, which has to be there. -/
def onPeer (peerId : PeerId) (call : PeerM σ α) : HostM σ α := do
  let host ← get
  let some peer := host.mutableLocalPeers peerId | throw .peerMissing
  match call.run (host.server peer) with
  | .ok a s =>
      set (host.store peerId s)
      return a
  | .error f s =>
      set (host.store peerId s)
      throw f

/-- `PeerHost::CheckPeerOption`. -/
def checkPeerOption (peerOpt : PeerOption) : HostM σ Unit := do
  let host ← get
  if peerOpt.peerId ≤ 0 then
    throw .invalidPeerId
  if peerOpt.hostId ≠ host.hostId then
    throw (.foreignHostId peerOpt.hostId host.hostId)

/-- `PeerHost::AddLocalPeer`.  `db` is what the database on disk holds. -/
def addLocalPeer (raft : RawNode σ) (peerOpt : PeerOption) (db : KvDb) : HostM σ Unit := do
  if ((← get).localPeers.lookup peerOpt.peerId).isSome then
    throw .raftNodeExists
  checkPeerOption peerOpt
  match newPeer raft peerOpt db with
  | .ok peer =>
      modify fun host => { host with localPeers := host.localPeers.insert peerOpt.peerId peer }
  | .error f => throw f

/-- A call on a local peer, by its outcome. -/
lemma run_onPeer (peerId : PeerId) (call : PeerM σ α) (host : PeerHost σ) :
    (onPeer peerId call).run host = match host.localPeers.lookup peerId with
      | none => .error .peerMissing host
      | some peer => match call.run (host.server peer) with
        | .ok a s => .ok a (host.store peerId s)
        | .error f s => .error f (host.store peerId s) := by
  cases hpeer : host.localPeers.lookup peerId with
  | none => simp [onPeer, PeerHost.mutableLocalPeers, hpeer]; rfl
  | some peer =>
      simp only [onPeer, PeerHost.mutableLocalPeers, EStateM.run_bind, EStateM.run_get, hpeer]
      cases call.run (host.server peer) <;> rfl

/-- A peer is constructed when its members string and its storage are good, and then has the table
of the string, the database that was found, and a raft node for the voters of both. -/
lemma newPeer_eq_ok {raft : RawNode σ} {peerOpt : PeerOption} {db : KvDb} {peer : Peer σ} :
    newPeer raft peerOpt db = .ok peer ↔ ∃ peers storage,
      initGroupMembers peerOpt.members = .ok peers ∧ peerOpt.storage = some storage ∧
        storage.getSnapshot.1 = .kOk ∧ peer =
          { self := ⟨peerOpt.hostId, peerOpt.peerId, peerOpt.ip, peerOpt.port⟩
            peers := peers
            rawNode := raft.construct { id := peerOpt.hostId }
              (storage.getSnapshot.2 + peers.keys.val)
            kvDb := db } := by
  constructor
  · intro h
    rw [newPeer] at h
    cases hmembers : initGroupMembers peerOpt.members with
    | error f => rw [hmembers] at h; cases h
    | ok peers =>
        rw [hmembers] at h
        cases hstorage : peerOpt.storage with
        | none => rw [hstorage] at h; cases h
        | some storage =>
            rw [hstorage] at h
            by_cases herr : storage.getSnapshot.1 = .kOk
            · simp only [herr, ne_eq, not_true_eq_false, if_false] at h
              cases h
              exact ⟨peers, storage, rfl, rfl, herr, rfl⟩
            · simp [herr, bind, Except.bind, throw, throwThe, MonadExceptOf.throw] at h
  · rintro ⟨peers, storage, hmembers, hstorage, herr, rfl⟩
    simp only [newPeer, hmembers, hstorage]
    simp only [bind, Except.bind, herr, ne_eq, not_true_eq_false, if_false]
    rfl

lemma newPeer_kvDb {raft : RawNode σ} {peerOpt : PeerOption} {db : KvDb} {peer : Peer σ}
    (h : newPeer raft peerOpt db = .ok peer) : peer.kvDb = db := by
  obtain ⟨peers, storage, -, -, -, rfl⟩ := newPeer_eq_ok.mp h
  rfl

/-- `AddLocalPeer`, check by check. -/
lemma run_addLocalPeer (raft : RawNode σ) (peerOpt : PeerOption) (db : KvDb) (host : PeerHost σ) :
    (addLocalPeer raft peerOpt db).run host =
      if (host.localPeers.lookup peerOpt.peerId).isSome then .error .raftNodeExists host
      else if peerOpt.peerId ≤ 0 then .error .invalidPeerId host
      else if peerOpt.hostId ≠ host.hostId then
        .error (.foreignHostId peerOpt.hostId host.hostId) host
      else match newPeer raft peerOpt db with
        | .error f => .error f host
        | .ok peer => .ok ()
            { host with localPeers := host.localPeers.insert peerOpt.peerId peer } := by
  by_cases hlocal : (host.localPeers.lookup peerOpt.peerId).isSome
  · simp only [addLocalPeer, EStateM.run_bind, EStateM.run_get, if_pos hlocal]
    rfl
  by_cases hpeer : peerOpt.peerId ≤ 0
  · simp only [addLocalPeer, checkPeerOption, EStateM.run_bind, EStateM.run_get, if_neg hlocal,
      if_pos hpeer]
    rfl
  by_cases hhost : peerOpt.hostId ≠ host.hostId
  · simp only [addLocalPeer, checkPeerOption, EStateM.run_bind, EStateM.run_get, if_neg hlocal,
      if_neg hpeer, if_pos hhost]
    rfl
  · simp only [addLocalPeer, checkPeerOption, EStateM.run_bind, EStateM.run_get, if_neg hlocal,
      if_neg hpeer, if_neg hhost, EStateM.run_pure]
    cases newPeer raft peerOpt db <;> rfl

/-- What `AddLocalPeer` accepts, and what it leaves behind. -/
lemma addLocalPeer_eq_ok {raft : RawNode σ} {peerOpt : PeerOption} {db : KvDb}
    {host host' : PeerHost σ} (h : (addLocalPeer raft peerOpt db).run host = .ok () host') :
    peerOpt.hostId = host.hostId ∧ ∃ peer, newPeer raft peerOpt db = .ok peer ∧
      host' = { host with localPeers := host.localPeers.insert peerOpt.peerId peer } := by
  rw [run_addLocalPeer] at h
  split_ifs at h with _ _ hhost
  refine ⟨not_not.mp hhost, ?_⟩
  split at h
  · cases h
  · next peer hpeer =>
      cases h
      exact ⟨peer, hpeer, rfl⟩

end Jkv
