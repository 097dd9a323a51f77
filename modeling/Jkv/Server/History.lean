import Jkv.Core.Machine
import Jkv.Peer.Spec
import Jkv.Peer.TrioNode
import Jkv.Service.KvService

/-!
# A server as a machine

The event loop of a server makes three kinds of calls on its peer: a client's request, a raft
message, and a tick of the timer.  `serverMachine` is the machine of these calls; a call that ends
the process has no next state.

What a call lets one see is a list of `Record`s: how the raft node looked before and after, and what
the peer did in between.  One tick gives one record for the tick and one for every committed entry
its `Ready` delivered.  Everything that is assumed of jraft, and everything that is claimed about
clients, is said about these records.
-/

namespace Jkv

/-- A call of the event loop.  `tick` comes with what connecting to an address would give. -/
inductive Event
  | kvOp (req : KvReq)
  | step (msg : Message)
  | tick (connect : SockAddress → Bool)

/-- What the peer did. -/
inductive Act
  /-- `KvOpCb` found the peer not leading and ran the closure. -/
  | refused (done : Closure)
  /-- `ProposeKvOp` queued `p` for the request, and `Propose` returned `err`. -/
  | proposed (p : Proposal) (req : KvReq) (err : ErrNum)
  /-- A message was passed to `Step`. -/
  | stepped (msg : Message) (err : ErrNum)
  /-- The timer fired; `Ready`s are taken after this. -/
  | ticked
  /-- `ProcessEntry` was called for `e` with `pending` queued; `rejected` were answered on the way
  and `found` is the proposal the entry was matched with. -/
  | delivered (e : Entry) (pending rejected : List Proposal) (found : Option Proposal)
  deriving DecidableEq

/-- What the peer did, between two looks at its raft node. -/
structure Record where
  before : View Entry
  after : View Entry
  act : Act
  deriving DecidableEq

variable {σ : Type} (raft : RawNode σ) (codec : Codec)

/-- One call of the event loop.  The closure of a request is the number of the call. -/
def execEvent (s : Server σ) : Event → EStateM.Result Fatal (Server σ) Unit
  | .kvOp req => (kvOp raft codec req {} s.calls).run { s with calls := s.calls + 1 }
  | .step msg => (do let _ ← stepPeer raft msg).run s
  | .tick connect => (tick raft codec connect).run s

/-- The node when the committed entries of a tick are processed, with these entries. -/
def readyAt (node : σ) : σ × List Entry :=
  let node₁ := raft.tick node
  if raft.hasReady node₁ then
    let rd := (raft.getReady node₁).1
    let node₂ := (raft.getReady node₁).2
    (if rd.entries.isEmpty then node₂ else raft.append node₂ rd.entries, rd.committedEntries)
  else (node₁, [])

/-- The records of a batch of committed entries, processed under one look at the node. -/
def deliveries (v : View Entry) : List Proposal → List Entry → List Record
  | _, [] => []
  | q, e :: es =>
      let r := popFor v.leader e q
      ⟨v, v, .delivered e q r.rejected r.found⟩ :: deliveries v r.queue es

/-- A batch shows nothing but deliveries, under the look it was processed with. -/
lemma mem_deliveries {v : View Entry} {q : List Proposal} {es : List Entry} {r : Record}
    (hr : r ∈ deliveries v q es) :
    ∃ e ∈ es, ∃ pending rejected found, r = ⟨v, v, .delivered e pending rejected found⟩ := by
  induction es generalizing q with
  | nil => cases hr
  | cons e es ih =>
      rcases List.mem_cons.mp hr with rfl | hr
      · exact ⟨e, List.mem_cons_self, _, _, _, rfl⟩
      · obtain ⟨e', he', hr'⟩ := ih hr
        exact ⟨e', List.mem_cons_of_mem _ he', hr'⟩

/-- What a call lets one see. -/
def observe (s : Server σ) : Event → List Record
  | .kvOp req =>
      if raft.isLeader s.rawNode then
        let r := raft.propose s.rawNode ((codec.serialize req).getD [])
        let p : Proposal := ⟨raft.lastIndex s.rawNode + 1, raft.term s.rawNode, {}, s.calls⟩
        [⟨raft.view s.rawNode, raft.view r.2, .proposed p req r.1⟩]
      else [⟨raft.view s.rawNode, raft.view s.rawNode, .refused s.calls⟩]
  | .step msg =>
      let r := raft.step s.rawNode msg
      [⟨raft.view s.rawNode, raft.view r.2, .stepped msg r.1⟩]
  | .tick _ =>
      let r := readyAt raft s.rawNode
      ⟨raft.view s.rawNode, raft.view r.1, .ticked⟩ ::
        deliveries (raft.view r.1) s.proposals r.2

/-- A server, as the machine its event loop drives. -/
def serverMachine : Machine (Server σ) Event Record where
  exec s ev := match execEvent raft codec s ev with
    | .ok _ s' => some s'
    | .error _ _ => none
  obs := observe raft codec

lemma serverMachine_exec {s s' : Server σ} {ev : Event} :
    (serverMachine raft codec).exec s ev = some s' ↔ execEvent raft codec s ev = .ok () s' := by
  simp only [serverMachine]
  cases execEvent raft codec s ev <;> simp

/-- A server that has not done anything yet. -/
structure Server.Fresh (s : Server σ) : Prop where
  proposals : s.proposals = []
  ran : s.ran = []
  calls : s.calls = 0

/-! ## A server to compute with -/

/-- The table of a group of three hosts with one peer each. -/
def trioTable : PeerTable :=
  ((Finmap.singleton 1 ⟨1, 1, ['a'], 10000⟩).insert 2 ⟨2, 1, ['b'], 10001⟩).insert 3
    ⟨3, 1, ['c'], 10002⟩

/-- Host `id` of the group, just started. -/
def trioServer (id : ℕ) : Server TrioNode :=
  { self := ⟨id, 1, [], 0⟩, peers := trioTable, rawNode := { id := id }, kvDb := ∅ }

/-- The host campaigns and is elected. -/
def elect (term : ℕ) : List Event :=
  [.step ⟨.kMsgTimeoutNow, 1, 2, 0, 0, 0, [], 0, false, 0⟩,
    .step ⟨.kMsgVoteResp, 1, 2, term, 0, 0, [], 0, false, 0⟩]

/-- Another member has the log up to `index`. -/
def acknowledge (term index : ℕ) : Event :=
  .step ⟨.kMsgAppResp, 1, 2, term, 0, index, [], 0, false, 0⟩

/-- The leader, host 1, sends entries to be put after `index`. -/
def appendEntries (term index : ℕ) (entries : List Entry) (commit : ℕ) : Event :=
  .step ⟨.kMsgApp, 2, 1, term, 0, index, entries, commit, false, 0⟩

/-- The leader is asked to hand over its leadership. -/
def transferLeader : Event := .step ⟨.kMsgTransferLeader, 1, 2, 1, 0, 0, [], 0, false, 0⟩

/-- A tick while every host can be reached. -/
def tickConnected : Event := .tick fun _ => true

lemma trioServer_fresh (id : ℕ) : (trioServer id).Fresh := ⟨rfl, rfl, rfl⟩

end Jkv
