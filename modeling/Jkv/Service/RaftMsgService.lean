import Jkv.Peer.PeerHost

/-!
# `service/raft_msg_service.cc`

A raft message arrives in an envelope that names the host and the peer it is for.  Both names come
from the sender's table of members; the receiver compares the first with its own id and looks the
second up among its own peers, and ends the process when either does not fit.  Who sent the message
is not looked at.
-/

namespace Jkv

variable {σ : Type} (raft : RawNode σ)

/-- `RaftMsgServiceImpl::HandleRaftMsgCb`. -/
def handleRaftMsgCb (req : RaftMsgReq) : HostM σ Unit :=
  onPeer req.toPeer.peerId do
    let _ ← stepPeer raft req.msg

/-- `RaftMsgServiceImpl::HandleRaftMsg`. -/
def handleRaftMsg (req : RaftMsgReq) : HostM σ Unit := do
  if req.toPeer.hostId ≠ (← get).hostId then
    throw .wrongHost
  handleRaftMsgCb raft req

/-- The peer after a message was stepped. -/
def Peer.stepped (peer : Peer σ) (msg : Message) : Peer σ :=
  { peer with rawNode := (raft.step peer.rawNode msg).2 }

/-- **An envelope** is accepted by the host it names, if that has the peer it names. -/
theorem run_handleRaftMsg (req : RaftMsgReq) (host : PeerHost σ) :
    (handleRaftMsg raft req).run host =
      if req.toPeer.hostId ≠ host.hostId then .error .wrongHost host
      else match host.localPeers.lookup req.toPeer.peerId with
        | none => .error .peerMissing host
        | some peer =>
            let peer' := peer.stepped raft req.msg
            .ok () { host with localPeers := host.localPeers.insert req.toPeer.peerId peer' } := by
  by_cases hhost : req.toPeer.hostId ≠ host.hostId
  · simp only [handleRaftMsg, EStateM.run_bind, EStateM.run_get, if_pos hhost]
    rfl
  · simp only [handleRaftMsg, handleRaftMsgCb, EStateM.run_bind, EStateM.run_get, if_neg hhost]
    rw [run_onPeer]
    cases host.localPeers.lookup req.toPeer.peerId <;> rfl

end Jkv
