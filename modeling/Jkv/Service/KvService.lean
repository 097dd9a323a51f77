import Jkv.Peer.PeerHost

/-!
# `service/kv_service.cc`

`KvOp` hands the call to the worker's loop, so calls, steps and ticks of one peer never overlap.
`KvOpCb` takes the local peer of id 1, answers right away when the peer does not lead, and proposes
the request otherwise.
-/

namespace Jkv

variable {σ : Type} (raft : RawNode σ) (codec : Codec)

/-- `KvServiceImpl::KvOpCb`, once the peer is found.  The guard runs the closure when the function
returns. -/
def kvOp (req : KvReq) (resp : KvResp) (done : Closure) : PeerM σ Unit := do
  if !raft.isLeader (← get).rawNode then
    runClosure done { resp with rejected := true }
  else
    proposeKvOp raft codec req resp done

/-- `KvServiceImpl::KvOpCb`.  The closure is the number of the call. -/
def kvOpCb (req : KvReq) : HostM σ Unit := do
  let done := (← get).calls
  modify fun host => { host with calls := host.calls + 1 }
  onPeer 1 (kvOp raft codec req {} done)

/-- `KvOpCb`, by its outcome. -/
lemma run_kvOpCb (req : KvReq) (host : PeerHost σ) :
    (kvOpCb raft codec req).run host = match host.localPeers.lookup 1 with
      | none => .error .peerMissing { host with calls := host.calls + 1 }
      | some peer => match (kvOp raft codec req {} host.calls).run
            { host.server peer with calls := host.calls + 1 } with
        | .ok _ s => .ok () (host.store 1 s)
        | .error f s => .error f (host.store 1 s) := by
  simp only [kvOpCb, EStateM.run_bind, EStateM.run_get, EStateM.run_modify]
  rw [run_onPeer]
  cases host.localPeers.lookup 1 with
  | none => rfl
  | some peer =>
      have hserver : PeerHost.server { host with calls := host.calls + 1 } peer
          = { host.server peer with calls := host.calls + 1 } := rfl
      dsimp only
      rw [hserver]
      cases (kvOp raft codec req {} host.calls).run _ <;> rfl

lemma run_kvOp_follower {req : KvReq} {resp : KvResp} {done : Closure} {s : Server σ}
    (h : raft.isLeader s.rawNode = false) :
    (kvOp raft codec req resp done).run s
      = .ok () { s with ran := s.ran ++ [⟨done, { resp with rejected := true }⟩] } := by
  simp [kvOp, h, runClosure]

lemma run_kvOp_leader {req : KvReq} {resp : KvResp} {done : Closure} {s : Server σ}
    (h : raft.isLeader s.rawNode = true) :
    (kvOp raft codec req resp done).run s = match codec.serialize req with
      | some context => .ok () { s with
          proposals := s.proposals ++
            [⟨raft.lastIndex s.rawNode + 1, raft.term s.rawNode, resp, done⟩]
          rawNode := (raft.propose s.rawNode context).2 }
      | none => .error .serializeFailed s := by
  cases hs : codec.serialize req with
  | none => simp [kvOp, proposeKvOp, h, hs]
  | some context => simp [kvOp, proposeKvOp, h, hs, nextProposalIndex]

/-- A request ends the process, before anything else is done, when it cannot be written. -/
lemma run_kvOp_error {req : KvReq} {resp : KvResp} {done : Closure} {s s' : Server σ} {f : Fatal}
    (h : (kvOp raft codec req resp done).run s = .error f s') : f = .serializeFailed ∧ s' = s := by
  cases hlead : raft.isLeader s.rawNode with
  | false =>
      rw [run_kvOp_follower raft codec hlead] at h
      cases h
  | true =>
      rw [run_kvOp_leader raft codec hlead] at h
      split at h
      · cases h
      · cases h
        exact ⟨rfl, rfl⟩

end Jkv
