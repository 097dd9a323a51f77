import Jkv.Peer.RawNode

/-!
# A raft node of a group of three

The interface `RawNode` is open; this is one small node behind it, so that concrete runs of the
model can be computed.  It follows Raft as jraft documents it, in a group of three members: one vote
or one acknowledgement from another member completes a majority.  Messages are answered; what a
leader would send of its own accord is left to the messages a run is given.

`kMsgTimeoutNow` starts a campaign, and `kMsgTransferLeader` makes a leader drop proposals until the
transfer is given up after `election_tick` ticks.
-/

namespace Jkv

structure TrioNode where
  id : ℕ
  leader : Bool := false
  term : ℕ := 0
  log : List Entry := []
  commit : ℕ := 0
  applied : ℕ := 0
  transferring : Bool := false
  elapsed : ℕ := 0
  msgs : List Message := []
  deriving DecidableEq

namespace TrioNode

/-- A new leader starts its term with an empty entry. -/
def becomeLeader (n : TrioNode) : TrioNode :=
  { n with leader := true, log := n.log ++ [⟨n.term, n.log.length + 1, .kEntryNormal, []⟩] }

/-- A message of a leader of the same or a later term makes a follower. -/
def becomeFollower (n : TrioNode) (term : ℕ) : TrioNode :=
  { n with leader := false, term := term, transferring := false }

def reply (n : TrioNode) (type : MessageType) (msg : Message) : TrioNode :=
  { n with msgs := n.msgs ++ [⟨type, msg.fromId, n.id, n.term, 0, n.log.length, [], 0, false, 0⟩] }

def handle (n : TrioNode) (msg : Message) : TrioNode :=
  match msg.type with
  | .kMsgTimeoutNow => { n with leader := false, term := n.term + 1 }
  | .kMsgVoteResp => if msg.term = n.term ∧ msg.reject = false then n.becomeLeader else n
  | .kMsgApp =>
      if n.term ≤ msg.term then
        let n := n.becomeFollower msg.term
        let n := { n with log := n.log.take msg.index ++ msg.entries }
        { n with commit := max n.commit (min msg.commit n.log.length) }.reply .kMsgAppResp msg
      else n
  | .kMsgHeartbeat =>
      if n.term ≤ msg.term then
        let n := n.becomeFollower msg.term
        { n with commit := max n.commit (min msg.commit n.log.length) }.reply .kMsgHeartbeatResp msg
      else n
  | .kMsgAppResp =>
      if n.leader ∧ msg.term = n.term then
        { n with commit := max n.commit (min msg.index n.log.length) }
      else n
  | .kMsgTransferLeader => { n with transferring := n.leader, elapsed := 0 }
  | _ => n

/-- The node behind the interface. -/
def raft : RawNode TrioNode where
  construct c _ := { id := c.id }
  isLeader n := n.leader
  term n := n.term
  log n := n.log
  tick n :=
    if n.elapsed + 1 < 8 then { n with elapsed := n.elapsed + 1 }
    else { n with elapsed := 0, transferring := false }
  step n msg :=
    if msg.type.isLocal then (.kErrStepLocalMsg, n)
    else if msg.type.isResponse ∧ msg.fromId ∉ [1, 2, 3] then (.kErrStepPeerNotFound, n)
    else (.kOk, n.handle msg)
  propose n data :=
    if n.leader = false ∨ n.transferring = true then (.kErrProposalDropped, n)
    else (.kOk, { n with log := n.log ++ [⟨n.term, n.log.length + 1, .kEntryNormal, data⟩] })
  hasReady n := !n.msgs.isEmpty || n.applied < n.commit
  getReady n :=
    (⟨[], n.msgs, (n.log.take n.commit).drop n.applied⟩, { n with msgs := [] })
  append n _ := n
  advance n _ := { n with applied := n.commit }

end TrioNode

/-! ## Requests and their encoding -/

/-- `put k v` with one-byte key and value. -/
def putRequest (key val : UInt8) : KvReq :=
  { cmdType := kPut, putReq := some ⟨[key], [val]⟩ }

/-- `get k` with a one-byte key. -/
def getRequest (key : UInt8) : KvReq := { cmdType := kGet, getReq := some ⟨[key]⟩ }

/-- `del k` with a one-byte key. -/
def delRequest (key : UInt8) : KvReq := { cmdType := kDel, delReq := some ⟨[key]⟩ }

/-- Protobuf on requests of these three forms: tag and value of each field that is set. -/
def shortCodec : Codec where
  serialize req :=
    match req with
    | ⟨⟨2⟩, none, some ⟨[key], [val]⟩, none⟩ => some [8, 2, 26, 6, 10, 1, key, 18, 1, val]
    | ⟨⟨1⟩, some ⟨[key]⟩, none, none⟩ => some [8, 1, 18, 3, 10, 1, key]
    | ⟨⟨3⟩, none, none, some ⟨[key]⟩⟩ => some [8, 3, 34, 3, 10, 1, key]
    | _ => none
  parse data :=
    match data with
    | [] => some {}
    | [8, 2, 26, 6, 10, 1, key, 18, 1, val] => some (putRequest key val)
    | [8, 1, 18, 3, 10, 1, key] => some (getRequest key)
    | [8, 3, 34, 3, 10, 1, key] => some (delRequest key)
    | _ => none
  parse_serialize := by
    intro req data h
    split at h
    · cases h; rfl
    · cases h; rfl
    · cases h; rfl
    · cases h
  parse_nil := rfl

end Jkv
