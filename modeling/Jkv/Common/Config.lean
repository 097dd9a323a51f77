import Mathlib.Data.Finmap
import Jkv.Common.Fatal

/-!
# `common/config.h` and the member table

Ids are `uint64_t`, ports are `uint16_t`; both are naturals here, and the places that narrow a
number to them say so.
-/

namespace Jkv

/-- `std::string`, character by character. -/
abbrev StdString := List Char

abbrev HostId := ℕ
abbrev PeerId := ℕ

def kNoHost : HostId := 0
def kNoPeer : PeerId := 0

/-- `GroupMember` (`peer.h`): the address of one member of the group. -/
structure GroupMember where
  hostId : HostId := kNoHost
  peerId : PeerId := kNoPeer
  ip : StdString := []
  port : ℕ := 0
  deriving DecidableEq

/-- `peers_`: all members of the group, by host id. -/
abbrev PeerTable := Finmap fun _ : HostId => GroupMember

/-- `jrpc::SockAddress(ip, port)`. -/
structure SockAddress where
  ip : StdString
  port : ℕ
  deriving DecidableEq

/-- `SockAddress::ToString`, for the log. -/
def SockAddress.toText (addr : SockAddress) : String :=
  String.ofList addr.ip ++ ":" ++ toString addr.port

/-- What a host is started with.  The worker and the database path play no part in the logic. -/
structure PeerHostOption where
  hostId : HostId := kNoHost

/-- `jraft::MemoryStorage`, seen from the constructor of `Peer`: `GetSnapshot` either fails or
returns the snapshot whose `conf_state` lists the voters. -/
structure MemoryStorage where
  getSnapshot : ErrNum × Multiset HostId

/-- What a peer is started with.  The raft parameters are left out: the constructor overrides
them with constants of its own. -/
structure PeerOption where
  hostId : HostId := kNoHost
  peerId : PeerId := kNoPeer
  ip : StdString := "127.0.0.1".toList
  port : ℕ := 0
  members : StdString := []
  storage : Option MemoryStorage := none

/-- `jraft::Config` as the constructor fills it in.  `id` is the only field that depends on the
peer. -/
structure Config where
  id : ℕ
  electionTick : ℕ := 8
  heartbeatTick : ℕ := 1
  applied : ℕ := 0
  maxSizePerMsg : ℕ := 1024 * 1024
  maxCommittedSizePerReady : ℕ := 0
  maxUncommittedEntriesSize : ℕ := 2 ^ 30
  maxInflightMsgs : ℕ := 256
  checkQuorum : Bool := true
  preVote : Bool := true
  disableProposalForwarding : Bool := false

end Jkv
