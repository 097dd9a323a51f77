import Jkv.Peer.Spec

/-!
# `example/echo/client`

The client program makes one request: `CheckFlags` looks at the flags, `main` connects and calls
`Get`, `Put` or `Del`, and the callback of the call ends the process, with `JLOG_FATAL` when the
call failed or was rejected and with `exit(0)` otherwise.
-/

namespace Jkv

/-- The three requests of `KvClient`. -/
inductive ClientOp
  | get
  | put
  | del
  deriving DecidableEq

/-- How the texts of the callbacks name a request. -/
def ClientOp.text : ClientOp → String
  | get => "get"
  | put => "put"
  | del => "del"

/-- `client_flags.cc`, without the log level. -/
structure ClientFlags where
  ip : StdString := "127.0.0.1".toList
  port : ℕ := 0
  opType : StdString := []
  key : Bytes := []
  val : Bytes := []

/-- What ends the client. -/
inductive ClientFatal
  | port
  | opType
  | key
  | connect
  | invalidType
  | rpcFailed (op : ClientOp) (errorText : String)
  | rejected (op : ClientOp)
  deriving DecidableEq

/-- The text that is logged. -/
def ClientFatal.text : ClientFatal → String
  | port => "should input correct port"
  | opType => "should input op type"
  | key => "should input key"
  | connect => "failed to connect"
  | invalidType => "invalid type"
  | rpcFailed op errorText => op.text ++ " kv rpc failed, error text: " ++ errorText
  | rejected op => "server rejected " ++ op.text ++ " request"

namespace KvClient

/-- `KvClient::Get`, as the request it sends. -/
def get (key : Bytes) : KvReq := { cmdType := kGet, getReq := some ⟨key⟩ }

/-- `KvClient::Put`, as the request it sends. -/
def put (key val : Bytes) : KvReq := { cmdType := kPut, putReq := some ⟨key, val⟩ }

/-- `KvClient::Del`, as the request it sends. -/
def del (key : Bytes) : KvReq := { cmdType := kDel, delReq := some ⟨key⟩ }

/-- The callback of a request, up to `exit(0)`, as the text it logs.  `failed` is the error text of
a call that failed. -/
def callback (op : ClientOp) (failed : Option String) (resp : KvResp) :
    Except ClientFatal String :=
  match failed with
  | some errorText => .error (.rpcFailed op errorText)
  | none =>
      if resp.rejected then .error (.rejected op)
      else .ok (op.text ++ " kv request success")

/-- `KvClient::GetCb`. -/
def getCb := callback .get

/-- `KvClient::PutCb`. -/
def putCb := callback .put

/-- `KvClient::DelCb`. -/
def delCb := callback .del

end KvClient

namespace ClientFlags

/-- `CheckFlags`. -/
def checkFlags (flags : ClientFlags) : Except ClientFatal Unit := do
  if flags.port < 1024 || flags.port > 65535 then
    throw .port
  if flags.opType.isEmpty then
    throw .opType
  if flags.key.isEmpty then
    throw .key

/-- `main`, as the request that is sent and the callback that waits for the answer.  `connect` says
whether `client_->Connect()` succeeds. -/
def start (connect : SockAddress → Bool) (flags : ClientFlags) :
    Except ClientFatal (KvReq × (Option String → KvResp → Except ClientFatal String)) := do
  flags.checkFlags
  if !connect ⟨flags.ip, flags.port % 2 ^ 16⟩ then
    throw .connect
  if flags.opType = "get".toList then
    return (KvClient.get flags.key, KvClient.getCb)
  else if flags.opType = "put".toList then
    return (KvClient.put flags.key flags.val, KvClient.putCb)
  else if flags.opType = "del".toList then
    return (KvClient.del flags.key, KvClient.delCb)
  else
    throw .invalidType

/-- What the flags ask for. -/
def command (flags : ClientFlags) : Command :=
  if flags.opType = "get".toList then .get flags.key
  else if flags.opType = "put".toList then .put flags.key flags.val
  else if flags.opType = "del".toList then .del flags.key
  else .noop

end ClientFlags

variable {connect : SockAddress → Bool} {flags : ClientFlags} {req : KvReq}
  {cb : Option String → KvResp → Except ClientFatal String}

/-- **The client sends what its flags ask for**, with a key, and reports success only when it was
answered and not rejected. -/
theorem ClientFlags.start_eq_ok (h : flags.start connect = .ok (req, cb)) :
    flags.key ≠ [] ∧ commandOf req = .ok flags.command ∧ flags.command ≠ .noop ∧
      (∀ key, flags.command = .get key → req.cmdType = kGet ∧ req.get.key = key) ∧
      ∀ failed resp text, cb failed resp = .ok text → failed = none ∧ resp.rejected = false := by
  have hcallback : ∀ op failed resp text, KvClient.callback op failed resp = .ok text →
      failed = none ∧ resp.rejected = false := by
    intro op failed resp text hok
    cases failed with
    | some errorText => cases hok
    | none =>
        simp only [KvClient.callback] at hok
        split_ifs at hok with hrejected
        exact ⟨rfl, by simpa using hrejected⟩
  simp only [start, checkFlags, bind, Except.bind, pure, Except.pure, throw, throwThe,
    MonadExceptOf.throw] at h
  split_ifs at h with hport hop hkey hconnect hget hput hdel
  all_goals
    have hne : flags.key ≠ [] := by simpa using hkey
    cases h
  · have hcommand : flags.command = .get flags.key := by rw [command, if_pos hget]
    refine ⟨hne, by rw [hcommand]; rfl, by rw [hcommand]; simp, ?_, hcallback .get⟩
    intro key hk
    rw [hcommand] at hk
    cases hk
    exact ⟨rfl, rfl⟩
  · have hcommand : flags.command = .put flags.key flags.val := by
      rw [command, if_neg hget, if_pos hput]
    refine ⟨hne, by rw [hcommand]; rfl, by rw [hcommand]; simp, ?_, hcallback .put⟩
    intro key hk
    rw [hcommand] at hk
    cases hk
  · have hcommand : flags.command = .del flags.key := by
      rw [command, if_neg hget, if_neg hput, if_pos hdel]
    refine ⟨hne, by rw [hcommand]; rfl, by rw [hcommand]; simp, ?_, hcallback .del⟩
    intro key hk
    rw [hcommand] at hk
    cases hk

end Jkv
