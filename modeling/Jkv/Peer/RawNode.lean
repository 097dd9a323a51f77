import Jkv.Core.RaftTrace
import Jkv.Common.Config

/-!
# jraft, as the peer uses it

jraft is a submodule of the repository and not part of it.  `RawNode` is the interface through
which `Peer` talks to it: a type `σ` of node states with the calls the peer makes.  Everything that
is proved is proved for every such interface; what the peer relies on is stated as named
assumptions on the runs of a group (`Jkv/Cluster/Jraft.lean`).
-/

namespace Jkv

/-- `jraft::Ready`, with the three lists `HandleRaftReady` looks at. -/
structure Ready where
  entries : List Entry := []
  messages : List Message := []
  committedEntries : List Entry := []

/-- Messages that are meant for the node itself; `Step` refuses them (`kErrStepLocalMsg`). -/
def MessageType.isLocal : MessageType → Bool
  | .kMsgHup | .kMsgBeat | .kMsgUnreachable | .kMsgSnapStatus | .kMsgCheckQuorum => true
  | _ => false

/-- Answers to messages; `Step` refuses them when the sender is not in the group
(`kErrStepPeerNotFound`). -/
def MessageType.isResponse : MessageType → Bool
  | .kMsgAppResp | .kMsgVoteResp | .kMsgHeartbeatResp | .kMsgReadIndexResp
  | .kMsgPreVoteResp => true
  | _ => false

/-- Messages that may be answered. -/
def MessageType.isRequest (type : MessageType) : Bool := !type.isLocal && !type.isResponse

/-- `jraft::RawNode` and the parts of it the peer reaches through. -/
structure RawNode (σ : Type) where
  /-- `RawNode(c)`, on a storage whose snapshot lists these voters. -/
  construct : Config → Multiset HostId → σ
  isLeader : σ → Bool
  /-- `raft().term()`. -/
  term : σ → ℕ
  /-- The entries of `raft().raft_log()`, from index 1 on: nothing in the repository compacts. -/
  log : σ → List Entry
  tick : σ → σ
  step : σ → Message → ErrNum × σ
  propose : σ → Bytes → ErrNum × σ
  hasReady : σ → Bool
  getReady : σ → Ready × σ
  /-- `mutable_raft()->mutable_storage()->Append(entries)`. -/
  append : σ → List Entry → σ
  advance : σ → Ready → σ

namespace RawNode

variable {σ : Type} (raft : RawNode σ)

/-- `raft().raft_log()->LastIndex()`. -/
def lastIndex (node : σ) : ℕ := (raft.log node).length

/-- What a look at a node shows. -/
def view (node : σ) : View Entry := ⟨raft.isLeader node, raft.term node, raft.log node⟩

end RawNode

end Jkv
