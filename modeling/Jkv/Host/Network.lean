import Jkv.Core.Causality
import Jkv.Host.Connections
import Jkv.Host.Peers

/-!
# A group that only talks to itself

A group of hosts that were started with one members string, with nobody else on the network: what
arrives at a host is what a host of the group has sent, in any order, any number of times, or not at
all.  This is what the services take for granted, since neither of them looks at who is calling.

`Deployed.genuine` puts sending and receiving together: a raft node only ever steps messages that
the `Ready` of a node of the group had for it.  If jraft answers those who asked and signs what it
says (`Speaks`), then every id that a message names is an id of the group.  So no process of the
group ends because of a message: not on a name that is not in its table, not on an address that
nobody listens at, not on an envelope for somebody else (`group_ends`).
-/

namespace Jkv

open Machine

variable {σ : Type}

/-- What happens in a group: a client's request, the timer of a peer, or the arrival of the message
that host `a` was the `i`-th to send. -/
inductive GroupCall
  | kvOp (b : HostId) (req : KvReq)
  | tick (b : HostId) (peerId : PeerId)
  | deliver (a : HostId) (i : ℕ)

section

variable (raft : RawNode σ) (codec : Codec) (table : PeerTable) (net : SockAddress → Option HostId)

/-- The call this is, and the host it is made on. -/
def GroupCall.reaches (hosts : HostId → PeerHost σ) : GroupCall → Option (HostId × HostEvent)
  | .kvOp b req => if (table.lookup b).isSome then some (b, .kvOp req) else none
  | .tick b peerId =>
      if (table.lookup b).isSome ∧ ((hosts b).localPeers.lookup peerId).isSome then
        some (b, .tick peerId (connects net))
      else none
  | .deliver a i =>
      if (table.lookup a).isSome then
        (hosts a).sent[i]?.bind fun x => (net x.1).map fun b => (b, .raftMsg x.2)
      else none

/-- A group, as a machine. -/
def groupMachine : Machine (HostId → PeerHost σ) GroupCall (HostId × PeerId × HostAct) where
  exec hosts c := (c.reaches table net hosts).bind fun x =>
    ((hostMachine raft codec).exec (hosts x.1) x.2).map (Function.update hosts x.1)
  obs hosts c := (c.reaches table net hosts).toList.flatMap fun x =>
    (observeHost raft (hosts x.1) x.2).map (Prod.mk x.1)

/-- What can be called next, and where. -/
inductive Reaches (hosts : HostId → PeerHost σ) : HostId → HostEvent → Prop
  | kvOp {b : HostId} {req : KvReq} (hb : b ∈ table) : Reaches hosts b (.kvOp req)
  | tick {b : HostId} {peerId : PeerId} {peer : Peer σ} (hb : b ∈ table)
      (hpeer : (hosts b).localPeers.lookup peerId = some peer) :
      Reaches hosts b (.tick peerId (connects net))
  | deliver {a b : HostId} {addr : SockAddress} {req : RaftMsgReq} (ha : a ∈ table)
      (hsent : (addr, req) ∈ (hosts a).sent) (hnet : net addr = some b) :
      Reaches hosts b (.raftMsg req)

end

variable {raft : RawNode σ} {codec : Codec} {members : StdString} {table : PeerTable}
  {opts : HostId → PeerOption} {net : SockAddress → Option HostId}
  {hosts₀ hosts hosts' : HostId → PeerHost σ} {h : List (HostId × PeerId × HostAct)}
  {b : HostId} {ev : HostEvent}

lemma GroupCall.reaches_sound {c : GroupCall} (hc : c.reaches table net hosts = some (b, ev)) :
    Reaches table net hosts b ev := by
  cases c with
  | kvOp b' req =>
      rw [GroupCall.reaches] at hc
      split_ifs at hc with hb
      cases hc
      exact Reaches.kvOp (Finmap.lookup_isSome.mp hb)
  | tick b' peerId =>
      rw [GroupCall.reaches] at hc
      split_ifs at hc with hb
      cases hc
      obtain ⟨peer, hpeer⟩ := Option.isSome_iff_exists.mp hb.2
      exact Reaches.tick (Finmap.lookup_isSome.mp hb.1) hpeer
  | deliver a i =>
      rw [GroupCall.reaches] at hc
      split_ifs at hc with ha
      simp only [Option.bind_eq_some_iff, Option.map_eq_some_iff, Prod.mk.injEq] at hc
      obtain ⟨x, hx, b', hnet, rfl, rfl⟩ := hc
      exact Reaches.deliver (Finmap.lookup_isSome.mp ha) (List.mem_of_getElem? hx) hnet

/-- **A call of the group is a call on one of its hosts.** -/
theorem groupMachine_exec {c : GroupCall}
    (hexec : (groupMachine raft codec table net).exec hosts c = some hosts') :
    ∃ b ev host, Reaches table net hosts b ev ∧ execHost raft codec (hosts b) ev = .ok () host ∧
      hosts' = Function.update hosts b host ∧
      (groupMachine raft codec table net).obs hosts c
        = (observeHost raft (hosts b) ev).map (Prod.mk b) := by
  simp only [groupMachine, Option.bind_eq_some_iff, Option.map_eq_some_iff] at hexec
  obtain ⟨⟨b, ev⟩, hc, host, hhost, rfl⟩ := hexec
  refine ⟨b, ev, host, GroupCall.reaches_sound hc, (hostMachine_exec raft codec).mp hhost, rfl, ?_⟩
  simp only [groupMachine, hc]
  simp

/-- A step of the group is one of the steps routing was proved for. -/
lemma Reaches.netStep {host : PeerHost σ} (hr : Reaches table net hosts b ev)
    (h : execHost raft codec (hosts b) ev = .ok () host) :
    NetStep raft codec table net hosts (Function.update hosts b host) := by
  cases hr with
  | kvOp hb => exact NetStep.kvOp hb h
  | tick hb _ => exact NetStep.tick hb h
  | deliver ha hsent hnet => exact NetStep.deliver ha hsent hnet h

lemma run_reachable (run : (groupMachine raft codec table net).Run hosts₀ h hosts) :
    Relation.ReflTransGen (NetStep raft codec table net) hosts₀ hosts := by
  induction run with
  | nil => exact Relation.ReflTransGen.refl
  | snoc c _ hexec ih =>
      obtain ⟨b, ev, host, hr, hhost, rfl, -⟩ := groupMachine_exec hexec
      exact ih.tail (hr.netStep hhost)

/-! ## What was sent was asked for -/

/-- The message a node was given, if it was given one. -/
def HostAct.stepped? : HostAct → Option Message
  | .stepped msg _ => some msg
  | .readied _ => none

/-- What a call adds to what a host has sent is in the `Ready` it took. -/
lemma execHost_sent {host host' : PeerHost σ} (hexec : execHost raft codec host ev = .ok () host')
    {x : SockAddress × RaftMsgReq} (hx : x ∈ host'.sent) :
    x ∈ host.sent ∨ ∃ y ∈ observeHost raft host ev, x.2.msg ∈ y.2.messages := by
  obtain ⟨new, hsent, hparcels, -⟩ := (execHost_transmits hexec).leaves
  have hmsgs : (parcelsOf host.members (observeHost raft host ev)).map Parcel.msg
      = new.map fun x => x.2.msg := by
    rw [← List.forall₂_eq_eq_eq, List.forall₂_map_left_iff, List.forall₂_map_right_iff]
    exact hparcels.imp fun _ _ hsame => hsame.1.symm
  rw [hsent] at hx
  rcases List.mem_append.mp hx with hx | hx
  · exact Or.inl hx
  have hmem : x.2.msg ∈ new.map fun x => x.2.msg := List.mem_map_of_mem hx
  rw [← hmsgs] at hmem
  obtain ⟨q, hq, hmsg⟩ := List.mem_map.mp hmem
  simp only [parcelsOf, List.mem_flatMap, List.mem_map] at hq
  obtain ⟨y, hy, m, -, msg, hmember, rfl⟩ := hq
  exact Or.inr ⟨y, hy, hmsg ▸ hmember⟩

/-- Nothing has been sent when the hosts have just been started. -/
lemma Deployed.sent_nil (hd : Deployed raft members table opts net hosts₀) {a : HostId}
    (ha : a ∈ table) : (hosts₀ a).sent = [] := by
  obtain ⟨-, db, hadd⟩ := hd.started a ha
  obtain ⟨-, peer, -, hhost⟩ := addLocalPeer_eq_ok hadd
  rw [hhost]

/-- Everything a host has sent was in one of its `Ready`s. -/
lemma run_asked (hd : Deployed raft members table opts net hosts₀)
    (run : (groupMachine raft codec table net).Run hosts₀ h hosts) {a : HostId} (ha : a ∈ table)
    {x : SockAddress × RaftMsgReq} (hx : x ∈ (hosts a).sent) :
    ∃ y ∈ h, y.1 = a ∧ x.2.msg ∈ y.2.2.messages := by
  induction run with
  | nil =>
      rw [hd.sent_nil ha] at hx
      cases hx
  | @snoc h hosts hosts' c run hexec ih =>
      obtain ⟨b, ev, host, hr, hhost, rfl, hobs⟩ := groupMachine_exec hexec
      rw [hobs]
      have hold : x ∈ (hosts a).sent → ∃ y ∈ h ++ (observeHost raft (hosts b) ev).map (Prod.mk b),
          y.1 = a ∧ x.2.msg ∈ y.2.2.messages := by
        intro hx
        obtain ⟨y, hy, hya, hmsg⟩ := ih hx
        exact ⟨y, List.mem_append_left _ hy, hya, hmsg⟩
      by_cases hab : a = b
      · subst hab
        rw [Function.update_self] at hx
        rcases execHost_sent hhost hx with hx | ⟨y, hy, hmsg⟩
        · exact hold hx
        · exact ⟨(a, y), List.mem_append_right _ (List.mem_map_of_mem hy), rfl, hmsg⟩
      · rw [Function.update_of_ne hab] at hx
        exact hold hx

/-! ## What arrives was sent -/

/-- What a node is given was meant for it, and was in the `Ready` of a node of the group before. -/
def Genuine (table : PeerTable) (past : List (HostId × PeerId × HostAct))
    (x : HostId × PeerId × HostAct) : Prop :=
  ∀ msg ∈ x.2.2.stepped?, msg.toId = x.1 ∧
    (∃ row, table.lookup x.1 = some row ∧ x.2.1 = row.peerId) ∧
    ∃ y ∈ past, y.1 ∈ table ∧ msg ∈ y.2.2.messages

/-- A message that arrives has come to the host it is for. -/
lemma Deployed.arrives (hd : Deployed raft members table opts net hosts₀)
    (hrows : OwnRows table opts net)
    (run : (groupMachine raft codec table net).Run hosts₀ h hosts) {a : HostId} (ha : a ∈ table)
    {addr : SockAddress} {req : RaftMsgReq} (hsent : (addr, req) ∈ (hosts a).sent)
    (hnet : net addr = some b) :
    req.msg.toId = b ∧ ∃ row, table.lookup b = some row ∧ req.toPeer.peerId = row.peerId := by
  obtain ⟨row, hrow, haddr, htoPeer⟩ :=
    (hd.reachable_hostOk (run_reachable run) a ha).wired.routed _ hsent
  have hself := (hrows _ row hrow).2
  rw [← haddr, hnet, Option.some.injEq] at hself
  refine ⟨hself.symm, row, ?_, ?_⟩
  · rw [hself]
    exact hrow
  · rw [htoPeer]

/-- **A node is only given what the nodes of its group had for it.** -/
theorem Deployed.genuine (hd : Deployed raft members table opts net hosts₀)
    (hrows : OwnRows table opts net)
    (run : (groupMachine raft codec table net).Run hosts₀ h hosts) : Caused (Genuine table) h := by
  induction run with
  | nil => exact caused_nil
  | @snoc h hosts hosts' c run hexec ih =>
      obtain ⟨b, ev, host, hr, hhost, rfl, hobs⟩ := groupMachine_exec hexec
      rw [hobs]
      cases hr with
      | kvOp hb => simpa [observeHost] using ih
      | @tick b peerId peer hb hpeer =>
          simp only [observeHost, hpeer, List.map_cons, List.map_nil]
          refine caused_concat.mpr ⟨ih, ?_⟩
          intro msg hmsg
          cases hmsg
      | @deliver a b addr req ha hsent hnet =>
          obtain ⟨hto, hrow⟩ := hd.arrives hrows run ha hsent hnet
          obtain ⟨y, hy, hya, hmsg⟩ := run_asked hd run ha hsent
          rw [observeHost]
          split_ifs
          · simpa using ih
          · split
            · simpa using ih
            · simp only [List.map_cons, List.map_nil]
              refine caused_concat.mpr ⟨ih, ?_⟩
              intro msg hstepped
              cases hstepped
              exact ⟨hto, hrow, y, hy, hya ▸ ha, hmsg⟩

/-! ## Names that are known -/

/-- The node of `x` has, in the past, been given a message from `id`. -/
def Heard (past : List (HostId × PeerId × HostAct)) (x : HostId × PeerId × HostAct) (id : HostId) :
    Prop :=
  ∃ y ∈ past, y.1 = x.1 ∧ y.2.1 = x.2.1 ∧ ∃ msg ∈ y.2.2.stepped?, msg.fromId = id

instance (past : List (HostId × PeerId × HostAct)) (x : HostId × PeerId × HostAct) (id : HostId) :
    Decidable (Heard past x id) :=
  inferInstanceAs (Decidable
    (∃ y ∈ past, y.1 = x.1 ∧ y.2.1 = x.2.1 ∧ ∃ msg ∈ y.2.2.stepped?, msg.fromId = id))

/-- What is relied on of jraft: a node talks to the members of its group and to those it has heard
from, in its own name or in the name of somebody whose message it passes on. -/
def Speaks (table : PeerTable) (past : List (HostId × PeerId × HostAct))
    (x : HostId × PeerId × HostAct) : Prop :=
  ∀ m ∈ x.2.2.messages, (m.toId ∈ table ∨ Heard past x m.toId) ∧
    (m.fromId = x.1 ∨ Heard past x m.fromId)

instance (table : PeerTable) (past : List (HostId × PeerId × HostAct))
    (x : HostId × PeerId × HostAct) : Decidable (Speaks table past x) :=
  inferInstanceAs (Decidable (∀ m ∈ x.2.2.messages, (m.toId ∈ table ∨ Heard past x m.toId) ∧
    (m.fromId = x.1 ∨ Heard past x m.fromId)))

/-- The messages of an event, given or to be sent. -/
def HostAct.named (x : HostAct) : List Message := x.messages ++ x.stepped?.toList

/-- Everybody that is named is a member. -/
def NamesMembers (table : PeerTable) (x : HostId × PeerId × HostAct) : Prop :=
  ∀ m ∈ x.2.2.named, m.fromId ∈ table ∧ m.toId ∈ table

/-- **Only members are ever named**, by induction along the causes of messages. -/
theorem names_members (hgenuine : Caused (Genuine table) h) (hspeaks : Caused (Speaks table) h) :
    ∀ x ∈ h, x.1 ∈ table → NamesMembers table x := by
  refine (hgenuine.and hspeaks).forall_mem ?_
  rintro past x ⟨hgen, hspeak⟩ ih hx
  have hheard : ∀ id, Heard past x id → id ∈ table := by
    rintro id ⟨y, hy, hhost, -, msg, hmsg, rfl⟩
    exact (ih y hy (hhost ▸ hx) msg
      (List.mem_append_right _ (Option.mem_toList.mpr hmsg))).1
  intro m hm
  rcases List.mem_append.mp hm with hm | hm
  · obtain ⟨hto, hfrom⟩ := hspeak m hm
    refine ⟨?_, hto.elim id (hheard _)⟩
    rcases hfrom with hself | hother
    · rw [hself]
      exact hx
    · exact hheard _ hother
  · obtain ⟨hto, -, y, hy, hya, hmsg⟩ := hgen m (Option.mem_toList.mp hm)
    refine ⟨(ih y hy hya m (List.mem_append_left _ hmsg)).1, ?_⟩
    rw [hto]
    exact hx

/-! ## What ends a process of the group -/

lemma Reaches.mem_table (hd : Deployed raft members table opts net hosts₀)
    (hrows : OwnRows table opts net)
    (run : (groupMachine raft codec table net).Run hosts₀ h hosts)
    (hr : Reaches table net hosts b ev) : b ∈ table := by
  cases hr with
  | kvOp hb => exact hb
  | tick hb _ => exact hb
  | deliver ha hsent hnet =>
      obtain ⟨-, row, hrow, -⟩ := hd.arrives hrows run ha hsent hnet
      exact Finmap.mem_of_lookup_eq_some hrow

lemma run_hosts (hd : Deployed raft members table opts net hosts₀) (hrows : OwnRows table opts net)
    (run : (groupMachine raft codec table net).Run hosts₀ h hosts) : ∀ x ∈ h, x.1 ∈ table := by
  induction run with
  | nil =>
      intro x hx
      cases hx
  | snoc c run hexec ih =>
      obtain ⟨b, ev, host, hr, -, -, hobs⟩ := groupMachine_exec hexec
      intro x hx
      rw [hobs] at hx
      rcases List.mem_append.mp hx with hx | hx
      · exact ih x hx
      · obtain ⟨y, -, rfl⟩ := List.mem_map.mp hx
        exact hr.mem_table hd hrows run

/-- A tick whose messages are for members ends, if it ends, on a committed entry. -/
lemma tick_error {connect : SockAddress → Bool} {s s' : Server σ} {f : Fatal}
    (hto : ∀ m ∈ readyMessages raft s.rawNode, ∃ row, s.peers.lookup m.toId = some row)
    (hconnect : ∀ id row, s.peers.lookup id = some row → connect row.address = true)
    (hend : (tick raft codec connect).run s = .error f s') :
    ∃ e ∈ (readyAt raft s.rawNode).2, applyEntry codec s'.kvDb e = .error f := by
  rcases tick_ends hend with hsend | ⟨s₁, -, hprocess⟩
  · exfalso
    obtain ⟨msgs₁, m, msgs₂, hmsgs, -, ⟨habsent, -⟩ | ⟨row, hrow, hdown, -⟩⟩ :=
      sendMsgs_error hsend
    · have hm : m ∈ readyMessages raft s.rawNode := by
        rw [hmsgs]
        simp
      obtain ⟨row, hrow⟩ := hto m hm
      rw [hrow] at habsent
      cases habsent
    · have hup : connect ⟨row.ip, row.port⟩ = true := hconnect _ row hrow
      rw [hup] at hdown
      cases hdown
  · obtain ⟨es₁, e, es₂, hes, -, haborts⟩ := processEntries_error hprocess
    exact ⟨e, by rw [hes]; simp, haborts⟩

/-- A request ends the process when it cannot be written, or when there is no peer 1. -/
lemma kvOp_error {host host' : PeerHost σ} {req : KvReq} {f : Fatal}
    (hend : execHost raft codec host (.kvOp req) = .error f host') :
    f = .serializeFailed ∨ f = .peerMissing := by
  rw [execHost, run_kvOpCb] at hend
  split at hend
  · cases hend
    exact Or.inr rfl
  · next peer _ =>
      split at hend
      · cases hend
      · next f s hcall =>
          cases hend
          exact Or.inl (run_kvOp_error raft codec hcall).1

/-- **No process of the group ends because of a message.**  Let the nodes of a group talk to members
and to those they have heard from, and sign with their own id or with that of one they have heard
from.  In every run of the group, if its options agree with its table, with messages lost, repeated
and out of order: every message that was stepped was stepped on the node it is addressed to, and had
been in a `Ready` of a node of the group; every host that a message names is a member; and what may
happen next ends a process only if it is a request that cannot be written or that finds no peer 1,
or a tick whose `Ready` commits an entry that cannot be applied. -/
theorem group_ends (hd : Deployed raft members table opts net hosts₀)
    (hrows : OwnRows table opts net)
    (run : (groupMachine raft codec table net).Run hosts₀ h hosts)
    (hr : Reaches table net hosts b ev)
    (hj : Caused (Speaks table) (h ++ (observeHost raft (hosts b) ev).map (Prod.mk b))) :
    Caused (Genuine table) h ∧ (∀ x ∈ h, NamesMembers table x) ∧
      ∀ f host', execHost raft codec (hosts b) ev = .error f host' →
        (∃ req, ev = .kvOp req ∧ (f = .serializeFailed ∨ f = .peerMissing)) ∨
        ∃ peerId peer peer' e, ev = .tick peerId (connects net) ∧
          (hosts b).localPeers.lookup peerId = some peer ∧
          host'.localPeers.lookup peerId = some peer' ∧
          e ∈ (readyAt raft peer.rawNode).2 ∧ applyEntry codec peer'.kvDb e = .error f := by
  have hgenuine := hd.genuine hrows run
  have hb := hr.mem_table hd hrows run
  refine ⟨hgenuine, ?_, ?_⟩
  · intro x hx
    exact names_members hgenuine hj.of_append x hx (run_hosts hd hrows run x hx)
  intro f host' hend
  cases hr with
  | @kvOp _ req _ => exact Or.inl ⟨req, rfl, kvOp_error hend⟩
  | @tick _ peerId peer _ hpeer =>
      -- the `Ready` of this tick names members, like everything before it
      simp only [observeHost, hpeer, List.map_cons, List.map_nil] at hj
      have hready : Genuine table h (b, peerId, .readied (readyMessages raft peer.rawNode)) := by
        intro msg hmsg
        cases hmsg
      have hnames := names_members (caused_concat.mpr ⟨hgenuine, hready⟩) hj _
        (List.mem_append_right _ (List.mem_singleton_self _)) hb
      have htable : ((hosts b).server peer).peers = table :=
        ((hd.reachable_hostOk (run_reachable run) b hb).local_peer hpeer).2.1
      rw [execHost, run_onPeer, hpeer] at hend
      dsimp only at hend
      split at hend
      · cases hend
      · next f s hcall =>
          cases hend
          have hto : ∀ m ∈ readyMessages raft ((hosts b).server peer).rawNode,
              ∃ row, ((hosts b).server peer).peers.lookup m.toId = some row := by
            intro m hm
            rw [htable]
            exact Finmap.mem_iff.mp (hnames m (List.mem_append_left _ hm)).2
          have hconnect : ∀ id row, ((hosts b).server peer).peers.lookup id = some row →
              connects net row.address = true := by
            intro id row hrow
            rw [htable] at hrow
            rw [connects, (hrows id row hrow).2]
            rfl
          obtain ⟨e, he, haborts⟩ := tick_error hto hconnect hcall
          exact Or.inr ⟨peerId, peer, s.toPeer, e, rfl, hpeer, Finmap.lookup_insert _, he, haborts⟩
  | @deliver a _ addr req ha hsent hnet =>
      obtain ⟨hto, -⟩ := hd.arrives hrows run ha hsent hnet
      subst hto
      obtain ⟨-, peerId, peer, -, -, hok⟩ :=
        ((hd.routes hrows).arrives hosts (run_reachable run) a ha addr req hsent)
      rw [execHost, hok] at hend
      cases hend

/-! ## Two hosts that hear from each other -/

/-- The node of a pair: it asks the other one for its vote when it has heard nothing for eight
ticks, and gives its own when it is asked. -/
def pairRaft : RawNode TrioNode :=
  { TrioNode.raft with
    tick := fun n =>
      if n.elapsed + 1 < 8 then { n with elapsed := n.elapsed + 1 }
      else { n with
        elapsed := 0
        msgs := n.msgs ++
          [⟨.kMsgPreVote, 3 - n.id, n.id, n.term + 1, 0, n.log.length, [], 0, false, 0⟩] }
    step := fun n msg =>
      if msg.type = .kMsgPreVote then (.kOk, n.reply .kMsgPreVoteResp msg)
      else TrioNode.raft.step n msg }

lemma pairRaft_deployed :
    Deployed pairRaft pairMembers pairTable (pairOption 1) pairNet (pairHost 1) := by
  have hd := pair_deployed (fun _ => 1) (by decide +kernel)
  exact ⟨hd.parsed, hd.started, hd.listens⟩

/-- Host 1 asks for a vote, its message arrives twice, and host 2 is about to answer. -/
theorem group_ends_pair : ∃ h hosts,
    (groupMachine pairRaft shortCodec pairTable pairNet).Run (pairHost 1) h hosts ∧
      (h.filterMap fun x => x.2.2.stepped?).length = 2 ∧ Caused (Genuine pairTable) h ∧
      ∀ f host', execHost pairRaft shortCodec (hosts 2) (.tick 1 (connects pairNet))
          = .error f host' → ∃ e db, applyEntry shortCodec db e = .error f := by
  obtain ⟨h, hosts, run, hval⟩ := Machine.exists_run
    (M := groupMachine pairRaft shortCodec pairTable pairNet)
    (List.replicate 8 (.tick 1 1) ++ [.deliver 1 0, .deliver 1 0])
    (fun r => ((r.1.filterMap fun x => x.2.2.stepped?).length,
      (((r.2 2).localPeers.lookup 1).isSome && decide (Caused (Speaks pairTable)
        (r.1 ++ (observeHost pairRaft (r.2 2) (.tick 1 (connects pairNet))).map (Prod.mk 2))))))
    (s := pairHost 1) (b := (2, true)) (by decide +kernel)
  simp only [Prod.mk.injEq, Bool.and_eq_true, decide_eq_true_eq] at hval
  obtain ⟨hlen, hlocal, hj⟩ := hval
  obtain ⟨peer, hpeer⟩ := Option.isSome_iff_exists.mp hlocal
  have hmem : 2 ∈ pairTable := by decide
  obtain ⟨hgenuine, -, hends⟩ := group_ends pairRaft_deployed pair_ownRows run
    (Reaches.tick hmem hpeer) hj
  refine ⟨h, hosts, run, hlen, hgenuine, ?_⟩
  intro f host' hend
  rcases hends f host' hend with ⟨req, hev, -⟩ | ⟨peerId, _, peer', e, -, -, -, -, haborts⟩
  · cases hev
  · exact ⟨e, peer'.kvDb, haborts⟩

end Jkv
