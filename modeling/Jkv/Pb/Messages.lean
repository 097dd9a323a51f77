import Mathlib.Data.Nat.Notation

/-!
# The messages of `pb/`

The protobuf messages the modelled functions read or write: the client's `KvReq`/`KvResp`
(`kv_op.proto`), jraft's `Entry` and `Message` (`eraft.proto`) and error numbers (`errnum.proto`),
and the envelope raft messages travel in (`raft_msg.proto`, `meta.proto`).

The generated C++ classes are not part of the repository.  Their records are written out here; how
they are turned into bytes is left to a `Codec`, of which only the documented behaviour is asked.
-/

namespace Jkv

/-- `bytes` of protobuf, `std::string` of the data an entry carries, `leveldb::Slice`. -/
abbrev Bytes := List UInt8

/-! ## `kv_op.proto` -/

/-- `CmdType` is an open proto3 enum: a message may carry any 32-bit value. -/
structure CmdType where
  raw : Int32
  deriving DecidableEq

def kInvalid : CmdType := ⟨0⟩
def kGet : CmdType := ⟨1⟩
def kPut : CmdType := ⟨2⟩
def kDel : CmdType := ⟨3⟩

structure GetReq where
  key : Bytes := []
  deriving DecidableEq

structure GetResp where
  value : Bytes := []
  deriving DecidableEq

structure PutReq where
  key : Bytes := []
  value : Bytes := []
  deriving DecidableEq

structure DelReq where
  key : Bytes := []
  deriving DecidableEq

/-- `KvReq`.  A sub-message that is not set reads as its default, see `KvReq.get` and its
siblings. -/
structure KvReq where
  cmdType : CmdType := kInvalid
  getReq : Option GetReq := none
  putReq : Option PutReq := none
  delReq : Option DelReq := none
  deriving DecidableEq

/-- `req.get_req()`. -/
def KvReq.get (req : KvReq) : GetReq := req.getReq.getD {}

/-- `req.put_req()`. -/
def KvReq.put (req : KvReq) : PutReq := req.putReq.getD {}

/-- `req.del_req()`. -/
def KvReq.del (req : KvReq) : DelReq := req.delReq.getD {}

/-- `KvResp`, without the fields that no function of the repository sets. -/
structure KvResp where
  rejected : Bool := false
  getResp : Option GetResp := none
  deriving DecidableEq

/-- Protobuf's `SerializeToString` and `ParseFromString` for `KvReq`.  A message that was
serialized parses to itself, and the empty string is the encoding of the default message. -/
structure Codec where
  serialize : KvReq → Option Bytes
  parse : Bytes → Option KvReq
  parse_serialize : ∀ {req : KvReq} {data : Bytes}, serialize req = some data →
    parse data = some req
  parse_nil : parse [] = some {}

/-! ## `eraft.proto` and `errnum.proto` -/

inductive EntryType
  | kEntryNormal
  | kEntryConfChange
  deriving DecidableEq

structure Entry where
  term : ℕ
  index : ℕ
  type : EntryType := .kEntryNormal
  data : Bytes := []
  deriving DecidableEq

inductive MessageType
  | kMsgHup
  | kMsgBeat
  | kMsgProp
  | kMsgApp
  | kMsgAppResp
  | kMsgVote
  | kMsgVoteResp
  | kMsgSnap
  | kMsgHeartbeat
  | kMsgHeartbeatResp
  | kMsgUnreachable
  | kMsgSnapStatus
  | kMsgCheckQuorum
  | kMsgTransferLeader
  | kMsgTimeoutNow
  | kMsgReadIndex
  | kMsgReadIndexResp
  | kMsgPreVote
  | kMsgPreVoteResp
  deriving DecidableEq

/-- `Message`; `to` and `from` are `toId` and `fromId` here.  The peer only reads the first; the
rest travels through it untouched.  `snapshot` and `context` are left out: no function of the
repository looks into them. -/
structure Message where
  type : MessageType
  toId : ℕ
  fromId : ℕ
  term : ℕ := 0
  logTerm : ℕ := 0
  index : ℕ := 0
  entries : List Entry := []
  commit : ℕ := 0
  reject : Bool := false
  rejectHint : ℕ := 0
  deriving DecidableEq

inductive ErrNum
  | kOk
  | kErrCompacted
  | kErrSnapOutOfData
  | kErrUnavailable
  | kErrSnapshotTemporarilyUnavailable
  | kErrSerializeFail
  | kErrProposalDropped
  | kErrStepLocalMsg
  | kErrStepPeerNotFound
  deriving DecidableEq

/-! ## `meta.proto` and `raft_msg.proto` -/

structure PeerMeta where
  hostId : ℕ := 0
  peerId : ℕ := 0
  deriving DecidableEq

structure RaftMsgReq where
  fromPeer : PeerMeta
  toPeer : PeerMeta
  msg : Message
  deriving DecidableEq

end Jkv
