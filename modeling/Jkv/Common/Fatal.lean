import Jkv.Pb.Messages

/-!
# How a process ends

`JLOG_FATAL` logs a text and aborts the process.  Each place where the modelled code does so has a
constructor here, with the text it logs; the state the process had at that point stays behind (the
database is on disk), so the functions of the model run in `EStateM Fatal`, which keeps it.

`endIterator` and `nullClient` are not `JLOG_FATAL`s: they stand for dereferencing the iterator
`find` returns for a missing key, and a null pointer to a client, which is undefined behaviour.
-/

namespace Jkv

inductive Fatal
  | storageMissing
  | snapshotMissing
  | serializeFailed
  | invalidMembers
  | invalidMember
  | sameHost
  | parseFailed
  | unknownCommand
  | raftNodeExists
  | connectFailed (addr : String)
  | invalidPeerId
  | foreignHostId (peer host : ℕ)
  | peerMissing
  | wrongHost
  | dbGet (status : String)
  | dbPut (status : String)
  | dbDel (status : String)
  | endIterator
  | nullClient
  deriving DecidableEq

/-- The text that is logged. -/
def Fatal.text : Fatal → String
  | storageMissing => "storage should constructed at start"
  | snapshotMissing => "can't get snapshot from storage"
  | serializeFailed => "failed to serialize to str"
  | invalidMembers => "invalid members"
  | invalidMember => "invalid member"
  | sameHost => "same host in one cluster"
  | parseFailed => "failed to parse from str"
  | unknownCommand => "should not come here."
  | raftNodeExists => "RaftNode already existed"
  | connectFailed addr => "connect to " ++ addr ++ " failed"
  | invalidPeerId => "peer id should be valid"
  | foreignHostId peer host => "peer's host_id: " ++ toString peer ++
      " should be the same as local host_id: " ++ toString host
  | peerMissing => "peer should exist"
  | wrongHost => "send to wrong host"
  | dbGet status => "can't get kv from db, err_msg: " ++ status
  | dbPut status => "can't put kv to db, err_msg: " ++ status
  | dbDel status => "can't del kv from db, err_msg: " ++ status
  | endIterator => ""
  | nullClient => ""

end Jkv
