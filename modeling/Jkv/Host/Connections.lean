import Jkv.Host.Routing

/-!
# What leaves a host

A peer hands the messages of its `Ready`s to the rpc clients of its host.  The host keeps one client
for each host id, makes it when the first message for that id is sent, and never looks at the
address again.

`Transmits` says what this comes to, for any stretch of a run: the messages leave in the order the
`Ready`s had them, none lost and none twice, each in an envelope with its sender's name and with the
name its sender's table has for the receiver; a client that was made stays; and all messages for one
host id leave through its client, whichever peer sent them and whatever address that peer's own
table has.  A call that ends the process may cut off the end of its `Ready`, and has then done
nothing but send (`host_transmits`).
-/

namespace Jkv

variable {σ : Type} {raft : RawNode σ} {codec : Codec}

/-- A message to be sent, with the name and the table of the peer that sends it. -/
structure Parcel where
  self : GroupMember
  table : PeerTable
  msg : Message

/-- What was handed to an rpc client is this parcel. -/
def Parcel.SentAs (q : Parcel) (x : SockAddress × RaftMsgReq) : Prop :=
  x.2.msg = q.msg ∧ x.2.fromPeer = ⟨q.self.hostId, q.self.peerId⟩ ∧
    ∃ row, q.table.lookup q.msg.toId = some row ∧ x.2.toPeer = ⟨row.hostId, row.peerId⟩

abbrev Clients := Finmap fun _ : HostId => SockAddress

/-- The parcels have left, in this order, between two moments of a host. -/
structure Transmits (mgr : Clients) (sent : List (SockAddress × RaftMsgReq)) (qs : List Parcel)
    (mgr' : Clients) (sent' : List (SockAddress × RaftMsgReq)) : Prop where
  /-- Clients stay. -/
  keeps : ∀ b addr, mgr.lookup b = some addr → mgr'.lookup b = some addr
  /-- A new client is connected to the address that the first sender's table has. -/
  made : ∀ b addr, mgr'.lookup b = some addr → mgr.lookup b = some addr ∨
    ∃ q, qs.find? (·.msg.toId = b) = some q ∧
      ∃ row, q.table.lookup b = some row ∧ addr = row.address
  /-- The parcels leave in order, through the clients. -/
  leaves : ∃ new, sent' = sent ++ new ∧ List.Forall₂ Parcel.SentAs qs new ∧
    ∀ x ∈ new, mgr'.lookup x.2.msg.toId = some x.1

namespace Transmits

variable {mgr mgr₁ mgr' : Clients} {sent sent₁ sent' : List (SockAddress × RaftMsgReq)}
  {qs qs' : List Parcel}

lemma nil : Transmits mgr sent [] mgr sent where
  keeps _ _ h := h
  made _ _ h := Or.inl h
  leaves := ⟨[], by simp, List.Forall₂.nil, fun _ hx => absurd hx List.not_mem_nil⟩

/-- As long as there is no client for a host, there was nothing to send to it. -/
lemma find?_of_absent {b : HostId} (ht : Transmits mgr sent qs mgr' sent')
    (hb : mgr'.lookup b = none) : qs.find? (·.msg.toId = b) = none := by
  obtain ⟨new, -, hnew, hthrough⟩ := ht.leaves
  have hmsgs : qs.map Parcel.msg = new.map (·.2.msg) := by
    rw [← List.forall₂_eq_eq_eq, List.forall₂_map_left_iff, List.forall₂_map_right_iff]
    exact hnew.imp fun q x hsent => hsent.1.symm
  refine List.find?_eq_none.mpr ?_
  intro q hq hto
  have hmem : q.msg ∈ new.map (·.2.msg) := hmsgs ▸ List.mem_map_of_mem hq
  obtain ⟨x, hx, hmsg⟩ := List.mem_map.mp hmem
  have hclient := hthrough x hx
  rw [hmsg, of_decide_eq_true hto, hb] at hclient
  cases hclient

/-- Stretches compose. -/
lemma trans (first : Transmits mgr sent qs mgr₁ sent₁)
    (rest : Transmits mgr₁ sent₁ qs' mgr' sent') :
    Transmits mgr sent (qs ++ qs') mgr' sent' where
  keeps b addr h := rest.keeps b addr (first.keeps b addr h)
  made b addr h := by
    rw [List.find?_append]
    cases hclient : mgr₁.lookup b with
    | some addr₁ =>
        -- the client of the first stretch is kept
        rw [rest.keeps b addr₁ hclient, Option.some.injEq] at h
        subst h
        rcases first.made b addr₁ hclient with h₀ | ⟨q, hq, hrow⟩
        · exact Or.inl h₀
        · exact Or.inr ⟨q, by rw [hq, Option.some_or], hrow⟩
    | none =>
        rcases rest.made b addr h with h₁ | ⟨q, hq, hrow⟩
        · rw [hclient] at h₁
          cases h₁
        · exact Or.inr ⟨q, by rw [first.find?_of_absent hclient, Option.none_or, hq], hrow⟩
  leaves := by
    obtain ⟨new, rfl, hnew, hthrough⟩ := first.leaves
    obtain ⟨new', rfl, hnew', hthrough'⟩ := rest.leaves
    refine ⟨new ++ new', by simp, List.rel_append hnew hnew', ?_⟩
    intro x hx
    rcases List.mem_append.mp hx with hx | hx
    · exact rest.keeps _ _ (hthrough x hx)
    · exact hthrough' x hx

end Transmits

/-! ## One peer -/

/-- What a server has to send. -/
def Server.parcels (s : Server σ) (msgs : List Message) : List Parcel :=
  msgs.map fun msg => ⟨s.self, s.peers, msg⟩

lemma sendMsg2Peer_transmits {connect : SockAddress → Bool} {msg : Message} {s s' : Server σ}
    (h : (sendMsg2Peer connect msg).run s = .ok () s') :
    Transmits s.rpcCliMgr s.sent (s.parcels [msg]) s'.rpcCliMgr s'.sent := by
  rw [run_sendMsg2Peer] at h
  split at h
  · cases h
  · next row hrow =>
      have hsent : Parcel.SentAs ⟨s.self, s.peers, msg⟩ (row.address, s.envelope row msg) :=
        ⟨rfl, rfl, row, hrow, rfl⟩
      split at h
      · next client hclient =>
          cases h
          refine ⟨fun _ _ h => h, fun _ _ h => Or.inl h, [(client, s.envelope row msg)], rfl,
            List.Forall₂.cons hsent List.Forall₂.nil, ?_⟩
          intro x hx
          rw [List.mem_singleton.mp hx]
          exact hclient
      · next hnone =>
          split_ifs at h
          cases h
          refine ⟨?_, ?_, [(row.address, s.envelope row msg)], rfl,
            List.Forall₂.cons hsent List.Forall₂.nil, ?_⟩
          · intro b addr hb
            have hne : b ≠ msg.toId := by
              rintro rfl
              rw [hnone] at hb
              cases hb
            rw [Finmap.lookup_insert_of_ne _ hne]
            exact hb
          · intro b addr hb
            by_cases hto : b = msg.toId
            · subst hto
              rw [Finmap.lookup_insert] at hb
              cases hb
              exact Or.inr ⟨⟨s.self, s.peers, msg⟩, by simp [Server.parcels], row, hrow, rfl⟩
            · rw [Finmap.lookup_insert_of_ne _ hto] at hb
              exact Or.inl hb
          · intro x hx
            rw [List.mem_singleton.mp hx]
            exact Finmap.lookup_insert _

/-- A whole `Ready`. -/
lemma sendMsgs_transmits {connect : SockAddress → Bool} {msgs : List Message} {s s' : Server σ}
    (h : (sendMsgs connect msgs).run s = .ok () s') :
    Transmits s.rpcCliMgr s.sent (s.parcels msgs) s'.rpcCliMgr s'.sent := by
  induction msgs generalizing s with
  | nil =>
      cases h
      exact Transmits.nil
  | cons msg msgs ih =>
      rw [sendMsgs, run_forM_cons] at h
      cases hone : (sendMsg2Peer connect msg).run s with
      | error f s₁ => rw [hone] at h; cases h
      | ok u s₁ =>
          rw [hone] at h
          have hrest := ih h
          have hsame : s₁.parcels msgs = s.parcels msgs := by
            obtain ⟨mgr, sent, rfl⟩ := sendMsg2Peer_frame hone
            rfl
          rw [hsame] at hrest
          exact (sendMsg2Peer_transmits hone).trans hrest

lemma tick_transmits {connect : SockAddress → Bool} {s s' : Server σ}
    (h : (tick raft codec connect).run s = .ok () s') :
    Transmits s.rpcCliMgr s.sent (s.parcels (readyMessages raft s.rawNode)) s'.rpcCliMgr
      s'.sent := by
  obtain ⟨node, s₁, hsend, hwiring⟩ := tick_wiring h
  rw [hwiring.rpcCliMgr, hwiring.sent]
  have hsent := sendMsgs_transmits hsend
  exact hsent

/-! ## The whole host -/

/-- What the `Ready`s of a history asked to be sent, with the names and tables of the peers they
came from. -/
def parcelsOf (members : PeerId → Option (GroupMember × PeerTable))
    (h : List (PeerId × HostAct)) : List Parcel :=
  h.flatMap fun x => (members x.1).toList.flatMap fun m => x.2.messages.map fun msg =>
    ⟨m.1, m.2, msg⟩

@[simp] lemma parcelsOf_append (members : PeerId → Option (GroupMember × PeerTable))
    (h h' : List (PeerId × HostAct)) :
    parcelsOf members (h ++ h') = parcelsOf members h ++ parcelsOf members h' := by
  simp [parcelsOf]

/-- One call. -/
lemma execHost_transmits {host host' : PeerHost σ} {ev : HostEvent}
    (h : execHost raft codec host ev = .ok () host') :
    Transmits host.rpcCliMgr host.sent (parcelsOf host.members (observeHost raft host ev))
      host'.rpcCliMgr host'.sent := by
  cases ev with
  | raftMsg req =>
      have hnone : parcelsOf host.members (observeHost raft host (.raftMsg req)) = [] := by
        rw [observeHost]
        split_ifs
        · rfl
        · split
          · rfl
          · simp [parcelsOf, HostAct.messages]
      rw [hnone]
      rw [execHost, run_handleRaftMsg] at h
      split_ifs at h
      split at h
      · cases h
      · cases h
        exact Transmits.nil
  | kvOp req =>
      obtain ⟨-, -, hmgr, hsent⟩ := kvOpCb_wiring h
      rw [hmgr, hsent]
      exact Transmits.nil
  | tick peerId connect =>
      rw [execHost, run_onPeer] at h
      split at h
      · cases h
      · next peer hpeer =>
          split at h
          · next u s hrun =>
              cases h
              have hparcels : parcelsOf host.members (observeHost raft host (.tick peerId connect))
                  = (host.server peer).parcels (readyMessages raft peer.rawNode) := by
                simp [observeHost, hpeer, parcelsOf, PeerHost.members, HostAct.messages,
                  Server.parcels, PeerHost.server]
              rw [hparcels]
              exact tick_transmits hrun
          · cases h

/-- Every call of a run. -/
lemma run_transmits {host₀ host : PeerHost σ} {h : List (PeerId × HostAct)}
    (run : (hostMachine raft codec).Run host₀ h host) :
    Transmits host₀.rpcCliMgr host₀.sent (parcelsOf host₀.members h) host.rpcCliMgr host.sent := by
  induction run with
  | nil => exact Transmits.nil
  | snoc ev run hexec ih =>
      have hone := execHost_transmits ((hostMachine_exec raft codec).mp hexec)
      rw [run_members run] at hone
      rw [parcelsOf_append]
      exact ih.trans hone

/-! ## A host that ends -/

/-- Sending this parcel ends the process, and why. -/
def Parcel.Ends (q : Parcel) (f : Fatal) : Prop :=
  q.table.lookup q.msg.toId = none ∧ f = .endIterator ∨
    ∃ row, q.table.lookup q.msg.toId = some row ∧ f = .connectFailed row.address.toText

lemma processEntries_error_wiring {es : List Entry} {s s' : Server σ} {f : Fatal}
    (h : (processEntries raft codec es).run s = .error f s') : s.SameWiring s' := by
  obtain ⟨es₁, e, es₂, s₁, rfl, hok, hentry⟩ := forM_error_split h
  have hwiring := processEntries_wiring hok
  rw [run_processEntry] at hentry
  dsimp only at hentry
  cases hdb : applyEntry codec s₁.kvDb e with
  | ok db => rw [hdb] at hentry; cases hentry
  | error f =>
      rw [hdb] at hentry
      cases hentry
      exact ⟨hwiring.self, hwiring.peers, hwiring.rpcCliMgr, hwiring.sent⟩

/-- A tick that ends the process has sent the first messages of its `Ready`.  If that is not all of
them, it has done nothing else. -/
lemma tick_error_transmits {connect : SockAddress → Bool} {s s' : Server σ} {f : Fatal}
    (h : (tick raft codec connect).run s = .error f s') : ∃ msgs rest,
      readyMessages raft s.rawNode = msgs ++ rest ∧
      Transmits s.rpcCliMgr s.sent (s.parcels msgs) s'.rpcCliMgr s'.sent ∧
      ∀ msg rest', rest = msg :: rest' →
        Parcel.Ends ⟨s.self, s.peers, msg⟩ f ∧ s'.ledger = s.ledger := by
  rcases tick_ends h with hsend | ⟨s₁, hsend, hprocess⟩
  · obtain ⟨msgs, msg, rest, hmsgs, hsent, hcause⟩ := sendMsgs_error hsend
    have htransmits := sendMsgs_transmits hsent
    obtain ⟨mgr, sent, rfl⟩ := sendMsgs_frame hsent
    refine ⟨msgs, msg :: rest, hmsgs, htransmits, ?_⟩
    rintro msg rest' ⟨⟩
    refine ⟨?_, rfl⟩
    rcases hcause with habsent | ⟨row, hrow, -, hf⟩
    · exact Or.inl habsent
    · exact Or.inr ⟨row, hrow, hf⟩
  · have hwiring := processEntries_error_wiring hprocess
    have htransmits := sendMsgs_transmits hsend
    rw [← hwiring.rpcCliMgr, ← hwiring.sent] at htransmits
    refine ⟨readyMessages raft s.rawNode, [], by simp, htransmits, ?_⟩
    intro msg rest' hrest
    cases hrest

/-- One call that ends the process. -/
lemma execHost_error_transmits {host host' : PeerHost σ} {ev : HostEvent} {f : Fatal}
    (h : execHost raft codec host ev = .error f host') : ∃ qs rest,
      parcelsOf host.members (observeHost raft host ev) = qs ++ rest ∧
      Transmits host.rpcCliMgr host.sent qs host'.rpcCliMgr host'.sent ∧
      ∀ q rest', rest = q :: rest' → q.Ends f ∧ host'.ran = host.ran ∧ ∀ peerId,
        (host'.localPeers.lookup peerId).map (fun peer => (peer.kvDb, peer.proposals))
          = (host.localPeers.lookup peerId).map fun peer => (peer.kvDb, peer.proposals) := by
  cases ev with
  | raftMsg req =>
      refine ⟨[], [], ?_, ?_, nofun⟩
      · rw [observeHost]
        split_ifs
        · rfl
        · split
          · rfl
          · simp [parcelsOf, HostAct.messages]
      · rw [execHost, run_handleRaftMsg] at h
        split_ifs at h
        · cases h
          exact Transmits.nil
        · split at h
          · cases h
            exact Transmits.nil
          · cases h
  | kvOp req =>
      refine ⟨[], [], rfl, ?_, nofun⟩
      rw [execHost, run_kvOpCb] at h
      split at h
      · cases h
        exact Transmits.nil
      · split at h
        · cases h
        · next f s hrun =>
            cases h
            obtain ⟨-, rfl⟩ := run_kvOp_error raft codec hrun
            exact Transmits.nil
  | tick peerId connect =>
      rw [execHost, run_onPeer] at h
      split at h
      · next hpeer =>
          cases h
          refine ⟨[], [], ?_, Transmits.nil,
            nofun⟩
          simp [observeHost, hpeer, parcelsOf]
      · next peer hpeer =>
          split at h
          · cases h
          · next f s hrun =>
              cases h
              obtain ⟨msgs, rest, hmsgs, htransmits, hcut⟩ := tick_error_transmits hrun
              refine ⟨(host.server peer).parcels msgs, (host.server peer).parcels rest, ?_,
                htransmits, ?_⟩
              · have hready : readyMessages raft peer.rawNode = msgs ++ rest := hmsgs
                simp [observeHost, hpeer, parcelsOf, PeerHost.members, HostAct.messages,
                  Server.parcels, PeerHost.server, hready]
              · intro q rest' hrest
                cases rest with
                | nil => cases hrest
                | cons msg rest =>
                    obtain ⟨hends, hledger⟩ := hcut msg rest rfl
                    obtain ⟨rfl, -⟩ := List.cons.inj hrest
                    refine ⟨hends, congrArg Ledger.ran hledger, ?_⟩
                    intro i
                    by_cases hi : i = peerId
                    · subst hi
                      rw [hpeer, PeerHost.store, Finmap.lookup_insert]
                      exact congrArg some (Prod.ext (congrArg Ledger.kvDb hledger)
                        (congrArg Ledger.proposals hledger))
                    · rw [PeerHost.store, Finmap.lookup_insert_of_ne _ hi]

/-- **What leaves a host is what its `Ready`s ask for, in order, and a crash cuts off the end.**  In
every run of a host, with any number of local peers: what is handed to rpc clients is, one for one
and in order, the messages of the `Ready`s, each from its own peer and to the peer the sender's
table names; a client is never replaced, was made for the address in the table of the peer that had
the first message for that host, and carries every later message for it.  A call that then ends the
process has sent the first messages of its `Ready` in the same way.  If those are not all, then the
next one ended the process, and nothing of what comes after the messages was begun: no database of
the host has an entry of this `Ready`, no queue has lost a proposal, and nobody was answered. -/
theorem host_transmits {host₀ host : PeerHost σ} {h : List (PeerId × HostAct)}
    (run : (hostMachine raft codec).Run host₀ h host) :
    Transmits host₀.rpcCliMgr host₀.sent (parcelsOf host₀.members h) host.rpcCliMgr host.sent ∧
      ∀ ev f host', execHost raft codec host ev = .error f host' → ∃ qs rest,
        parcelsOf host₀.members (observeHost raft host ev) = qs ++ rest ∧
        Transmits host₀.rpcCliMgr host₀.sent (parcelsOf host₀.members h ++ qs) host'.rpcCliMgr
          host'.sent ∧
        ∀ q rest', rest = q :: rest' → q.Ends f ∧ host'.ran = host.ran ∧ ∀ peerId,
          (host'.localPeers.lookup peerId).map (fun peer => (peer.kvDb, peer.proposals))
            = (host.localPeers.lookup peerId).map fun peer => (peer.kvDb, peer.proposals) := by
  refine ⟨run_transmits run, ?_⟩
  intro ev f host' hend
  obtain ⟨qs, rest, hparcels, htransmits, hcut⟩ := execHost_error_transmits hend
  rw [run_members run] at hparcels
  exact ⟨qs, rest, hparcels, (run_transmits run).trans htransmits, hcut⟩

/-! ## Two tables on one host -/

/-- A peer of host 1 whose table has host 2 at this address. -/
def peerKnowing (peerId : PeerId) (addr : SockAddress) : Peer TrioNode :=
  { self := ⟨1, peerId, ['a'], 10000⟩
    peers := Finmap.singleton 2 ⟨2, peerId, addr.ip, addr.port⟩
    rawNode := { id := 1 }, kvDb := ∅ }

/-- Host 1 with two local peers, whose tables disagree about host 2. -/
def splitHost : PeerHost TrioNode :=
  { hostOpt := ⟨1⟩
    localPeers := Finmap.insert 2 (peerKnowing 2 ⟨['c'], 10002⟩)
      (Finmap.insert 1 (peerKnowing 1 ⟨['b'], 10001⟩) ∅) }

/-- A heartbeat of some host for one of the peers. -/
def heartbeatFor (peerId : PeerId) (fromId : HostId) : HostEvent :=
  .raftMsg ⟨⟨fromId, peerId⟩, ⟨1, peerId⟩, ⟨.kMsgHeartbeat, 1, fromId, 1, 0, 0, [], 0, false, 0⟩⟩

/-- Both peers answer a heartbeat of host 2, and both answers go to the address in the table of the
peer that was first.  Then peer 2 has heartbeats of host 2 and of host 3 to answer: the first answer
leaves, the second one ends the process. -/
theorem host_transmits_split : ∃ h host host',
    (hostMachine TrioNode.raft shortCodec).Run splitHost h host ∧
      host.sent.map Prod.fst = [⟨['b'], 10001⟩, ⟨['b'], 10001⟩] ∧
      execHost TrioNode.raft shortCodec host (.tick 2 fun _ => true) = .error .endIterator host' ∧
      (∃ new, host.sent = [] ++ new ∧
        List.Forall₂ Parcel.SentAs (parcelsOf splitHost.members h) new) ∧
      ∃ qs rest, parcelsOf splitHost.members
          (observeHost TrioNode.raft host (.tick 2 fun _ => true)) = qs ++ rest ∧
        Transmits ∅ [] (parcelsOf splitHost.members h ++ qs) host'.rpcCliMgr host'.sent := by
  obtain ⟨h, host, run, hval⟩ := Machine.exists_run (M := hostMachine TrioNode.raft shortCodec)
    [heartbeatFor 1 2, heartbeatFor 2 2, .tick 1 fun _ => true, .tick 2 fun _ => true,
      heartbeatFor 2 2, heartbeatFor 2 3]
    (fun r => (r.2.sent.map Prod.fst,
      errorOf (execHost TrioNode.raft shortCodec r.2 (.tick 2 fun _ => true))))
    (s := splitHost) (b := ([⟨['b'], 10001⟩, ⟨['b'], 10001⟩], some .endIterator))
    (by decide +kernel)
  simp only [Prod.mk.injEq] at hval
  obtain ⟨haddresses, herror⟩ := hval
  obtain ⟨host', hend⟩ := errorOf_eq_some.mp herror
  obtain ⟨htransmits, hends⟩ := host_transmits run
  obtain ⟨new, hsent, hparcels, -⟩ := htransmits.leaves
  obtain ⟨qs, rest, hready, hleft, -⟩ := hends _ _ _ hend
  exact ⟨h, host, host', run, haddresses, hend, ⟨new, hsent, hparcels⟩, qs, rest, hready, hleft⟩

end Jkv
