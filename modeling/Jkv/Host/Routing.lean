import Mathlib.Logic.Relation
import Jkv.Host.Destinations

/-!
# How messages reach their peers

The sender of a message finds the receiver's host, peer id and address in its table of members,
which all hosts parse from one string.  The receiver has its own host id, peer id and address from
its own options.  `AddLocalPeer` compares the two host ids; nothing compares the rest.

`Deployed` is a group of hosts that were all started with one members string; `NetStep` is what
such a group does, with messages arriving in any order and any number of times.  It routes
correctly exactly when every host's row of the table has the peer id and an address of that host
(`routesCorrectly_iff`).
-/

namespace Jkv

variable {σ : Type} {raft : RawNode σ} {codec : Codec}

/-- The address in a row of the table. -/
def GroupMember.address (row : GroupMember) : SockAddress := ⟨row.ip, row.port⟩

/-- Connecting succeeds where a server listens. -/
def connects (net : SockAddress → Option HostId) (addr : SockAddress) : Bool := (net addr).isSome

/-- Every host of the table was started with the members string and listens where its options say.
`net` says whose server is reached at an address. -/
structure Deployed (raft : RawNode σ) (members : StdString) (table : PeerTable)
    (opts : HostId → PeerOption) (net : SockAddress → Option HostId)
    (hosts : HostId → PeerHost σ) : Prop where
  parsed : initGroupMembers members = .ok table
  started : ∀ b ∈ table, (opts b).members = members ∧
    ∃ db, (addLocalPeer raft (opts b) db).run { hostOpt := ⟨b⟩ } = .ok () (hosts b)
  listens : ∀ b ∈ table, net ⟨(opts b).ip, (opts b).port⟩ = some b

/-- One step of the group: a client's request or a tick at a host, a message sent by a peer, or a
message that was sent arriving where its address leads. -/
inductive NetStep (raft : RawNode σ) (codec : Codec) (table : PeerTable)
    (net : SockAddress → Option HostId) (hosts : HostId → PeerHost σ) :
    (HostId → PeerHost σ) → Prop
  | kvOp {a : HostId} {req : KvReq} {host : PeerHost σ} (ha : a ∈ table)
      (h : execHost raft codec (hosts a) (.kvOp req) = .ok () host) :
      NetStep raft codec table net hosts (Function.update hosts a host)
  | tick {a : HostId} {peerId : PeerId} {host : PeerHost σ} (ha : a ∈ table)
      (h : execHost raft codec (hosts a) (.tick peerId (connects net)) = .ok () host) :
      NetStep raft codec table net hosts (Function.update hosts a host)
  | send {a : HostId} {peerId : PeerId} {msg : Message} {host : PeerHost σ} (ha : a ∈ table)
      (h : (onPeer peerId (sendMsg2Peer (connects net) msg)).run (hosts a) = .ok () host) :
      NetStep raft codec table net hosts (Function.update hosts a host)
  | deliver {a b : HostId} {addr : SockAddress} {req : RaftMsgReq} {host : PeerHost σ}
      (ha : a ∈ table) (hsent : (addr, req) ∈ (hosts a).sent) (hnet : net addr = some b)
      (h : (handleRaftMsg raft req).run (hosts b) = .ok () host) :
      NetStep raft codec table net hosts (Function.update hosts b host)

/-- In every state the group reaches: a message to a member can be sent, and a message that was
sent to `b` reaches host `b`, is accepted there, and is stepped on the local peer whose raft id is
`b`. -/
structure RoutesCorrectly (raft : RawNode σ) (codec : Codec) (table : PeerTable)
    (net : SockAddress → Option HostId) (hosts₀ : HostId → PeerHost σ) : Prop where
  sends : ∀ hosts, Relation.ReflTransGen (NetStep raft codec table net) hosts₀ hosts →
    ∀ a ∈ table, ∀ peerId ∈ (hosts a).localPeers, ∀ msg : Message, msg.toId ∈ table →
      ∃ host addr req, (onPeer peerId (sendMsg2Peer (connects net) msg)).run (hosts a)
        = .ok () host ∧ host.sent = (hosts a).sent ++ [(addr, req)] ∧ req.msg = msg
  arrives : ∀ hosts, Relation.ReflTransGen (NetStep raft codec table net) hosts₀ hosts →
    ∀ a ∈ table, ∀ addr req, (addr, req) ∈ (hosts a).sent →
      net addr = some req.msg.toId ∧ ∃ peerId peer,
        (hosts req.msg.toId).localPeers.lookup peerId = some peer ∧
        peer.self.hostId = req.msg.toId ∧
        (handleRaftMsg raft req).run (hosts req.msg.toId) = .ok () { hosts req.msg.toId with
          localPeers := (hosts req.msg.toId).localPeers.insert peerId (peer.stepped raft req.msg) }

/-- The row of every host has the peer id of the host's own options, and an address at which the
host is reached. -/
def OwnRows (table : PeerTable) (opts : HostId → PeerOption) (net : SockAddress → Option HostId) :
    Prop :=
  ∀ b row, table.lookup b = some row →
    row.peerId = (opts b).peerId ∧ net row.address = some b

/-! ## What a host sends by -/

/-- Clients are connected to the addresses of the table, and what was sent went out under it. -/
structure Wired (table : PeerTable) (rpcCliMgr : Finmap fun _ : HostId => SockAddress)
    (sent : List (SockAddress × RaftMsgReq)) : Prop where
  clients : ∀ b addr, rpcCliMgr.lookup b = some addr →
    ∃ row, table.lookup b = some row ∧ addr = row.address
  routed : ∀ x ∈ sent, ∃ row, table.lookup x.2.msg.toId = some row ∧ x.1 = row.address ∧
    x.2.toPeer = ⟨row.hostId, row.peerId⟩

lemma sendMsg2Peer_wired {connect : SockAddress → Bool} {msg : Message} {s s' : Server σ}
    (hw : Wired s.peers s.rpcCliMgr s.sent) (h : (sendMsg2Peer connect msg).run s = .ok () s') :
    Wired s.peers s'.rpcCliMgr s'.sent := by
  rw [run_sendMsg2Peer] at h
  split at h
  · cases h
  · next row hrow =>
      split at h
      · next client hclient =>
          cases h
          refine ⟨hw.clients, ?_⟩
          intro x hx
          rcases List.mem_append.mp hx with hx | hx
          · exact hw.routed x hx
          · obtain ⟨row', hrow', haddr⟩ := hw.clients _ _ hclient
            rw [hrow] at hrow'
            cases hrow'
            rw [List.mem_singleton.mp hx]
            exact ⟨row, hrow, haddr, rfl⟩
      · split_ifs at h
        cases h
        refine ⟨?_, ?_⟩
        · intro b addr hb
          by_cases hto : b = msg.toId
          · subst hto
            rw [Finmap.lookup_insert] at hb
            cases hb
            exact ⟨row, hrow, rfl⟩
          · rw [Finmap.lookup_insert_of_ne _ hto] at hb
            exact hw.clients b addr hb
        · intro x hx
          rcases List.mem_append.mp hx with hx | hx
          · exact hw.routed x hx
          · rw [List.mem_singleton.mp hx]
            exact ⟨row, hrow, rfl, rfl⟩

lemma sendMsgs_wired {connect : SockAddress → Bool} {msgs : List Message} {s s' : Server σ}
    (hw : Wired s.peers s.rpcCliMgr s.sent) (h : (sendMsgs connect msgs).run s = .ok () s') :
    Wired s.peers s'.rpcCliMgr s'.sent := by
  have hkeeps : ∀ msg (s₁ s₂ : Server σ),
      s₁.peers = s.peers ∧ Wired s.peers s₁.rpcCliMgr s₁.sent →
      (sendMsg2Peer connect msg).run s₁ = .ok () s₂ →
      s₂.peers = s.peers ∧ Wired s.peers s₂.rpcCliMgr s₂.sent := by
    rintro msg s₁ s₂ ⟨hpeers, hw₁⟩ hsend
    rw [← hpeers] at hw₁ ⊢
    have hw₂ := sendMsg2Peer_wired hw₁ hsend
    obtain ⟨mgr, sent, rfl⟩ := sendMsg2Peer_frame hsend
    exact ⟨rfl, hw₂⟩
  exact (forM_invariant hkeeps ⟨rfl, hw⟩ h).2

lemma tick_wired {connect : SockAddress → Bool} {s s' : Server σ}
    (hw : Wired s.peers s.rpcCliMgr s.sent) (h : (tick raft codec connect).run s = .ok () s') :
    Wired s.peers s'.rpcCliMgr s'.sent := by
  obtain ⟨node, s₁, hsend, hwiring⟩ := tick_wiring h
  have hw₁ := sendMsgs_wired (s := { s with rawNode := node }) hw hsend
  rw [hwiring.rpcCliMgr, hwiring.sent]
  exact hw₁

/-! ## The hosts of a group -/

/-- Host `b` of a group: it has its own id, one local peer, with the id of its options and the
group's table, and it sends by the table. -/
structure HostOk (table : PeerTable) (opts : HostId → PeerOption) (b : HostId) (host : PeerHost σ) :
    Prop where
  hostId : host.hostId = b
  own : ∃ self, host.members (opts b).peerId = some (self, table) ∧ self.hostId = b
  only : ∀ peerId, peerId ≠ (opts b).peerId → host.members peerId = none
  wired : Wired table host.rpcCliMgr host.sent

lemma HostOk.of_members {table : PeerTable} {opts : HostId → PeerOption} {b : HostId}
    {host host' : PeerHost σ} (hok : HostOk table opts b host) (hmem : host'.members = host.members)
    (hopt : host'.hostOpt = host.hostOpt) (hw : Wired table host'.rpcCliMgr host'.sent) :
    HostOk table opts b host' where
  hostId := by rw [PeerHost.hostId, hopt]; exact hok.hostId
  own := by rw [hmem]; exact hok.own
  only := by rw [hmem]; exact hok.only
  wired := hw

/-- The local peer of a host of the group. -/
lemma HostOk.local_peer {table : PeerTable} {opts : HostId → PeerOption} {b : HostId}
    {host : PeerHost σ} (hok : HostOk table opts b host) {peerId : PeerId} {peer : Peer σ}
    (hpeer : host.localPeers.lookup peerId = some peer) :
    peerId = (opts b).peerId ∧ peer.peers = table ∧ peer.self.hostId = b := by
  have hmem : host.members peerId = some (peer.self, peer.peers) := by
    simp [PeerHost.members, hpeer]
  have hid : peerId = (opts b).peerId := by
    by_contra hne
    rw [hok.only peerId hne] at hmem
    cases hmem
  obtain ⟨self, hown, hself⟩ := hok.own
  rw [← hid, hmem] at hown
  cases hown
  exact ⟨hid, rfl, hself⟩

section

variable {members : StdString} {table : PeerTable} {opts : HostId → PeerOption}
  {net : SockAddress → Option HostId} {hosts₀ hosts hosts' : HostId → PeerHost σ} {b : HostId}
  {host host' : PeerHost σ}

/-- A host that was started is a host of the group. -/
lemma Deployed.hostOk (hd : Deployed raft members table opts net hosts) (hb : b ∈ table) :
    HostOk table opts b (hosts b) := by
  obtain ⟨hmembers, db, hadd⟩ := hd.started b hb
  obtain ⟨hhost, peer, hpeer, hhosts⟩ := addLocalPeer_eq_ok hadd
  obtain ⟨peers, storage, htable, -, -, rfl⟩ := newPeer_eq_ok.mp hpeer
  rw [hmembers, hd.parsed] at htable
  cases htable
  rw [hhosts]
  refine ⟨rfl, ⟨⟨(opts b).hostId, (opts b).peerId, (opts b).ip, (opts b).port⟩, ?_, hhost⟩, ?_, ?_,
    ?_⟩
  · simp [PeerHost.members]
  · intro peerId hne
    simp [PeerHost.members, Finmap.lookup_insert_of_ne _ hne]
  · intro b addr hlookup
    simp at hlookup
  · intro x hx
    cases hx

/-- A call on the local peer that keeps its name and table, and sends by the table. -/
lemma HostOk.onPeer (hok : HostOk table opts b host) {peerId : PeerId} {call : PeerM σ Unit}
    (hcall : ∀ s s', Wired s.peers s.rpcCliMgr s.sent → call.run s = .ok () s' →
      s'.self = s.self ∧ s'.peers = s.peers ∧ Wired s.peers s'.rpcCliMgr s'.sent)
    (h : (Jkv.onPeer peerId call).run host = .ok () host') : HostOk table opts b host' := by
  rw [run_onPeer] at h
  split at h
  · cases h
  · next peer hpeer =>
      split at h
      · next u s hrun =>
          cases h
          have htable : (host.server peer).peers = table := (hok.local_peer hpeer).2.1
          obtain ⟨hself, hpeers, hw⟩ := hcall (host.server peer) s (htable ▸ hok.wired) hrun
          rw [htable] at hw
          exact hok.of_members (PeerHost.members_store hpeer hself hpeers) rfl hw
      · cases h

/-- A message that is delivered leaves a host of the group one. -/
lemma HostOk.handleRaftMsg (hok : HostOk table opts b host) {req : RaftMsgReq}
    (h : (Jkv.handleRaftMsg raft req).run host = .ok () host') : HostOk table opts b host' := by
  rw [run_handleRaftMsg] at h
  split_ifs at h
  split at h
  · cases h
  · next peer hpeer =>
      cases h
      have hmembers := PeerHost.members_store (s := host.server (peer.stepped raft req.msg)) hpeer
        rfl rfl
      exact hok.of_members hmembers rfl hok.wired

/-- **One step keeps the hosts of a group.** -/
lemma NetStep.hostOk (hstep : NetStep raft codec table net hosts hosts')
    (hok : ∀ b ∈ table, HostOk table opts b (hosts b)) :
    ∀ b ∈ table, HostOk table opts b (hosts' b) := by
  have hupdate : ∀ a host, (a ∈ table → HostOk table opts a host) →
      ∀ b ∈ table, HostOk table opts b (Function.update hosts a host b) := by
    intro a host hhost b hb
    by_cases hba : b = a
    · subst hba
      rw [Function.update_self]
      exact hhost hb
    · rw [Function.update_of_ne hba]
      exact hok b hb
  cases hstep with
  | kvOp ha h =>
      refine hupdate _ _ fun _ => ?_
      obtain ⟨hmembers, hopt, hmgr, hsent⟩ := kvOpCb_wiring h
      refine (hok _ ha).of_members hmembers hopt ?_
      rw [hmgr, hsent]
      exact (hok _ ha).wired
  | tick ha h =>
      refine hupdate _ _ fun _ => (hok _ ha).onPeer ?_ h
      intro s s' hw hrun
      have hw' := tick_wired hw hrun
      obtain ⟨node, s₁, hsend, hwiring⟩ := tick_wiring hrun
      obtain ⟨mgr, sent, rfl⟩ := sendMsgs_frame hsend
      exact ⟨hwiring.self, hwiring.peers, hw'⟩
  | send ha h =>
      refine hupdate _ _ fun _ => (hok _ ha).onPeer ?_ h
      intro s s' hw hrun
      have hw' := sendMsg2Peer_wired hw hrun
      obtain ⟨mgr, sent, rfl⟩ := sendMsg2Peer_frame hrun
      exact ⟨rfl, rfl, hw'⟩
  | deliver ha hsent hnet h => exact hupdate _ _ fun hb => (hok _ hb).handleRaftMsg h

/-- The hosts of a deployed group stay its hosts. -/
lemma Deployed.reachable_hostOk (hd : Deployed raft members table opts net hosts₀)
    (hreach : Relation.ReflTransGen (NetStep raft codec table net) hosts₀ hosts) :
    ∀ b ∈ table, HostOk table opts b (hosts b) := by
  induction hreach with
  | refl => exact fun b hb => hd.hostOk hb
  | tail _ hstep ih => exact hstep.hostOk ih

/-! ## Routing -/

/-- A peer of the group sends to a member where the table says. -/
lemma HostOk.send (hok : HostOk table opts b host) {peerId : PeerId}
    (hpeer : peerId ∈ host.localPeers) {msg : Message} {row : GroupMember}
    (hrow : table.lookup msg.toId = some row) (hconn : connects net row.address = true) :
    ∃ host' req, (Jkv.onPeer peerId (sendMsg2Peer (connects net) msg)).run host = .ok () host' ∧
      host'.sent = host.sent ++ [(row.address, req)] ∧ req.msg = msg ∧
      req.toPeer = ⟨row.hostId, row.peerId⟩ := by
  obtain ⟨peer, hlookup⟩ := Finmap.mem_iff.mp hpeer
  have htable : (host.server peer).peers = table := (hok.local_peer hlookup).2.1
  rw [run_onPeer, hlookup]
  dsimp only
  rw [run_sendMsg2Peer, htable, hrow]
  dsimp only
  cases hclient : (host.server peer).rpcCliMgr.lookup msg.toId with
  | some client =>
      obtain ⟨row', hrow', haddr⟩ := hok.wired.clients _ _ hclient
      rw [hrow] at hrow'
      cases hrow'
      rw [haddr]
      exact ⟨_, _, rfl, rfl, rfl, rfl⟩
  | none =>
      dsimp only
      rw [if_pos (show connects net ⟨row.ip, row.port⟩ = true from hconn)]
      exact ⟨_, _, rfl, rfl, rfl, rfl⟩

/-- With own rows, every message finds its peer. -/
lemma Deployed.routes (hd : Deployed raft members table opts net hosts₀)
    (hrows : OwnRows table opts net) : RoutesCorrectly raft codec table net hosts₀ where
  sends hosts hreach a ha peerId hpeer msg hto := by
    obtain ⟨row, hrow⟩ := Finmap.mem_iff.mp hto
    have hconn : connects net row.address = true := by
      rw [connects, (hrows _ row hrow).2]
      rfl
    obtain ⟨host', req, hrun, hsent, hmsg, -⟩ :=
      (hd.reachable_hostOk hreach a ha).send hpeer hrow hconn
    exact ⟨host', _, req, hrun, hsent, hmsg⟩
  arrives hosts hreach a ha addr req hsent := by
    obtain ⟨row, hrow, rfl, htoPeer⟩ := (hd.reachable_hostOk hreach a ha).wired.routed _ hsent
    obtain ⟨hpeerId, hnet⟩ := hrows _ row hrow
    have hok := hd.reachable_hostOk hreach req.msg.toId (Finmap.mem_of_lookup_eq_some hrow)
    have hkey : row.hostId = req.msg.toId := initGroupMembers_keyed hd.parsed _ row hrow
    obtain ⟨self, hown, hself⟩ := hok.own
    obtain ⟨peer, hpeer, hmember⟩ := Option.map_eq_some_iff.mp hown
    cases hmember
    refine ⟨hnet, (opts req.msg.toId).peerId, peer, hpeer, hself, ?_⟩
    rw [run_handleRaftMsg, if_neg (by rw [htoPeer, hok.hostId, hkey]; simp), htoPeer]
    dsimp only
    rw [hpeerId, hpeer]

/-- A group that routes correctly has own rows: a message each host sends to itself shows it. -/
lemma Deployed.ownRows (hd : Deployed raft members table opts net hosts₀)
    (hroutes : RoutesCorrectly raft codec table net hosts₀) : OwnRows table opts net := by
  intro b row hrow
  have hb : b ∈ table := Finmap.mem_of_lookup_eq_some hrow
  have hok := hd.hostOk hb
  obtain ⟨self, hown, -⟩ := hok.own
  obtain ⟨peer, hpeer, -⟩ := Option.map_eq_some_iff.mp hown
  have hlocal := Finmap.mem_of_lookup_eq_some hpeer
  obtain ⟨host', addr, req, hrun, hsent, hmsg⟩ := hroutes.sends hosts₀ Relation.ReflTransGen.refl b
    hb (opts b).peerId hlocal ⟨.kMsgHeartbeat, b, b, 0, 0, 0, [], 0, false, 0⟩ hb
  have hto : req.msg.toId = b := congrArg Message.toId hmsg
  have hstep : Relation.ReflTransGen (NetStep raft codec table net) hosts₀
      (Function.update hosts₀ b host') := Relation.ReflTransGen.single (NetStep.send hb hrun)
  have hmem : (addr, req) ∈ (Function.update hosts₀ b host' b).sent := by
    rw [Function.update_self, hsent]
    simp
  have hok' := hd.reachable_hostOk hstep b hb
  obtain ⟨row', hrow', haddr, htoPeer⟩ := hok'.wired.routed _ hmem
  dsimp only at hrow' haddr htoPeer
  rw [hto, hrow] at hrow'
  cases hrow'
  obtain ⟨hnet, peerId, peer', -, -, hhandle⟩ := hroutes.arrives _ hstep b hb addr req hmem
  rw [hto, haddr] at hnet
  refine ⟨?_, hnet⟩
  -- the envelope names the peer of the row, and was accepted
  rw [hto, run_handleRaftMsg, htoPeer] at hhandle
  split_ifs at hhandle
  dsimp only at hhandle
  split at hhandle
  · cases hhandle
  · next peer₁ hlookup => exact (hok'.local_peer hlookup).1

/-- **A group routes correctly exactly when its options agree with its table.** -/
theorem routesCorrectly_iff (hd : Deployed raft members table opts net hosts₀) :
    RoutesCorrectly raft codec table net hosts₀ ↔ OwnRows table opts net :=
  ⟨hd.ownRows, hd.routes⟩

end

/-! ## Two hosts -/

/-- The members string of two hosts. -/
def pairMembers : StdString := "1,1,a,10000|2,1,b,10001".toList

/-- Its table. -/
def pairTable : PeerTable :=
  (Finmap.singleton 1 ⟨1, 1, "a".toList, 10000⟩).insert 2 ⟨2, 1, "b".toList, 10001⟩

/-- Options of a host of the pair that go with its row, but for the peer id. -/
def pairOption (peerId : PeerId) (id : HostId) : PeerOption :=
  { hostId := id, peerId := peerId, ip := if id = 1 then "a".toList else "b".toList
    port := if id = 1 then 10000 else 10001, members := pairMembers
    storage := some ⟨(.kOk, 0)⟩ }

/-- The network of the pair. -/
def pairNet (addr : SockAddress) : Option HostId :=
  if addr = ⟨"a".toList, 10000⟩ then some 1
  else if addr = ⟨"b".toList, 10001⟩ then some 2 else none

/-- A host of the pair after `AddLocalPeer`. -/
def pairHost (peerId : PeerId) (id : HostId) : PeerHost TrioNode :=
  match (addLocalPeer TrioNode.raft (pairOption peerId id) ∅).run { hostOpt := ⟨id⟩ } with
  | .ok _ host => host
  | .error _ host => host

lemma mem_pairTable {b : HostId} (hb : b ∈ pairTable) : b = 1 ∨ b = 2 := by
  rw [pairTable, Finmap.mem_insert, Finmap.mem_singleton] at hb
  exact hb.symm

/-- The pair, with peer ids that are accepted at the start. -/
lemma pair_deployed (peerId : HostId → PeerId)
    (hstart : ∀ b ∈ [1, 2], (match (addLocalPeer TrioNode.raft (pairOption (peerId b) b) ∅).run
      { hostOpt := ⟨b⟩ } with | .ok _ _ => true | .error _ _ => false) = true) :
    Deployed TrioNode.raft pairMembers pairTable (fun b => pairOption (peerId b) b) pairNet
      (fun b => pairHost (peerId b) b) where
  parsed := by decide
  started b hb := by
    refine ⟨rfl, ∅, ?_⟩
    have hok := hstart b (by simpa using mem_pairTable hb)
    simp only [pairHost]
    split at hok
    · next u host hrun => rw [hrun]
    · cases hok
  listens b hb := by
    rcases mem_pairTable hb with rfl | rfl <;> rfl

lemma pair_ownRows : OwnRows pairTable (pairOption 1) pairNet := by
  intro b row hrow
  rcases mem_pairTable (Finmap.mem_of_lookup_eq_some hrow) with rfl | rfl
  · have hlookup : pairTable.lookup 1 = some ⟨1, 1, "a".toList, 10000⟩ := by decide
    rw [hlookup] at hrow
    cases hrow
    exact ⟨rfl, rfl⟩
  · have hlookup : pairTable.lookup 2 = some ⟨2, 1, "b".toList, 10001⟩ := by decide
    rw [hlookup] at hrow
    cases hrow
    exact ⟨rfl, rfl⟩

/-- Both hosts were started with the peer ids of their rows. -/
theorem routesCorrectly_pair :
    RoutesCorrectly TrioNode.raft shortCodec pairTable pairNet (pairHost 1) :=
  (routesCorrectly_iff (pair_deployed (fun _ => 1) (by decide +kernel))).mpr pair_ownRows

/-- Host 2 is started with peer id 7, and with peer id 1 in the table.  The start succeeds, and the
first message to host 2 ends it. -/
theorem not_routesCorrectly_peerId :
    ¬ ∀ (members : StdString) (table : PeerTable) (opts : HostId → PeerOption)
        (net : SockAddress → Option HostId) (hosts : HostId → PeerHost TrioNode),
      Deployed TrioNode.raft members table opts net hosts →
      RoutesCorrectly TrioNode.raft shortCodec table net hosts := by
  intro hall
  have hd := pair_deployed (fun b => if b = 2 then 7 else 1) (by decide +kernel)
  have hrows := hd.ownRows (hall _ _ _ _ _ hd)
  have hlookup : pairTable.lookup 2 = some ⟨2, 1, "b".toList, 10001⟩ := by decide
  exact absurd (hrows 2 _ hlookup).1 (by decide)

end Jkv
