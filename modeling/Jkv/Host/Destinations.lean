import Jkv.Host.Calls

/-!
# Where outgoing messages go

`SendMsg2Peer` looks the destination of a message up in the table of members and dereferences what
it finds, without a check.  jraft addresses its messages to the members of the group and to whoever
sent it a request; the service hands requests to it without looking at the sender.  So the lookup
is safe as long as only members send requests (`destinations_known`), and a single request from a
stranger ends the process at the next tick (`stranger_ends_host`).
-/

namespace Jkv

variable {σ : Type} {raft : RawNode σ} {codec : Codec}

/-- The request that was stepped, if it was one. -/
def HostAct.request? : HostAct → Option Message
  | .stepped msg _ => if msg.type.isRequest then some msg else none
  | .readied _ => none

/-- The message that `Step` refused. -/
def HostAct.refusal? : HostAct → Option Message
  | .stepped msg err => if err ≠ .kOk then some msg else none
  | .readied _ => none

/-- The messages a `Ready` asked to be sent. -/
def HostAct.messages : HostAct → List Message
  | .stepped _ _ => []
  | .readied messages => messages

/-- The ids in the table of a local peer, which are the voters it was constructed with. -/
def PeerHost.group (host : PeerHost σ) (peerId : PeerId) : Finset HostId :=
  ((host.members peerId).map fun m => m.2.keys).getD ∅

/-- What is relied on of jraft: messages go to members or answer requests, and `Step` refuses only
local messages and responses from strangers. -/
structure JraftAddresses (host : PeerHost σ) (h : List (PeerId × HostAct)) : Prop where
  ready : ∀ x ∈ h, ∀ m ∈ x.2.messages, m.toId ∈ host.group x.1 ∨
    ∃ y ∈ h, y.1 = x.1 ∧ ∃ msg ∈ y.2.request?, msg.fromId = m.toId
  step : ∀ x ∈ h, ∀ msg ∈ x.2.refusal?, msg.type.isLocal = true ∨
    msg.type.isResponse = true ∧ msg.fromId ∉ host.group x.1

instance (host : PeerHost σ) (h : List (PeerId × HostAct)) : Decidable (JraftAddresses host h) :=
  decidable_of_iff (_ ∧ _) ⟨fun ⟨h₁, h₂⟩ => ⟨h₁, h₂⟩, fun ⟨h₁, h₂⟩ => ⟨h₁, h₂⟩⟩

/-- Every request comes from a member of the group it is for. -/
def KnownSenders (host : PeerHost σ) (h : List (PeerId × HostAct)) : Prop :=
  ∀ x ∈ h, ∀ msg ∈ x.2.request?, msg.fromId ∈ host.group x.1

instance (host : PeerHost σ) (h : List (PeerId × HostAct)) : Decidable (KnownSenders host h) :=
  inferInstanceAs (Decidable (∀ x ∈ h, ∀ msg ∈ x.2.request?, msg.fromId ∈ host.group x.1))

/-! ## Where the lookup can fail -/

lemma sendMsgs_endIterator {connect : SockAddress → Bool} {msgs : List Message} {s s' : Server σ}
    (h : (sendMsgs connect msgs).run s = .error .endIterator s') :
    ∃ m ∈ msgs, m.toId ∉ s.peers := by
  obtain ⟨msgs₁, msg, msgs₂, rfl, -, ⟨habsent, -⟩ | ⟨row, -, -, hf⟩⟩ := sendMsgs_error h
  · exact ⟨msg, by simp, Finmap.lookup_eq_none.mp habsent⟩
  · cases hf

/-- Applying entries looks nothing up in the table. -/
lemma processEntries_endIterator {es : List Entry} {s s' : Server σ} :
    (processEntries raft codec es).run s ≠ .error .endIterator s' := by
  intro h
  obtain ⟨es₁, e, es₂, s₁, rfl, -, hentry⟩ := forM_error_split h
  rw [run_processEntry] at hentry
  dsimp only at hentry
  cases hdb : applyEntry codec s₁.kvDb e with
  | ok db => rw [hdb] at hentry; cases hentry
  | error f =>
      rw [hdb] at hentry
      cases hentry
      simpa using applyEntry_error hdb

lemma tick_endIterator {connect : SockAddress → Bool} {s s' : Server σ}
    (h : (tick raft codec connect).run s = .error .endIterator s') :
    ∃ m ∈ readyMessages raft s.rawNode, m.toId ∉ s.peers := by
  rcases tick_ends h with hsend | ⟨s₁, -, hprocess⟩
  · have hmissing := sendMsgs_endIterator hsend
    exact hmissing
  · exact absurd hprocess processEntries_endIterator

/-- A host ends on a failed lookup only when a `Ready` has a message for somebody who is not in the
table. -/
lemma execHost_endIterator {host host' : PeerHost σ} {ev : HostEvent}
    (h : execHost raft codec host ev = .error .endIterator host') :
    ∃ x ∈ observeHost raft host ev, ∃ m ∈ x.2.messages, m.toId ∉ host.group x.1 := by
  cases ev with
  | raftMsg req =>
      rw [execHost, run_handleRaftMsg] at h
      split_ifs at h
      · cases h
      · split at h <;> cases h
  | kvOp req =>
      rw [execHost, run_kvOpCb] at h
      split at h
      · cases h
      · split at h
        · cases h
        · next f s hrun =>
            cases h
            cases (run_kvOp_error raft codec hrun).1
  | tick peerId connect =>
      rw [execHost, run_onPeer] at h
      split at h
      · cases h
      · next peer hpeer =>
          split at h
          · cases h
          · next f s hrun =>
              cases h
              obtain ⟨m, hm, hto⟩ := tick_endIterator hrun
              refine ⟨(peerId, .readied (readyMessages raft peer.rawNode)), ?_, m, hm, ?_⟩
              · simp [observeHost, hpeer]
              · have hkeys : host.group peerId = peer.peers.keys := by
                  simp [PeerHost.group, PeerHost.members, hpeer]
                rw [hkeys, Finmap.mem_keys]
                exact hto

/-! ## The lookup is safe among members -/

lemma run_members {host₀ host : PeerHost σ} {h : List (PeerId × HostAct)}
    (run : (hostMachine raft codec).Run host₀ h host) : host.members = host₀.members := by
  induction run with
  | nil => rfl
  | snoc ev _ hexec ih =>
      rw [(execHost_members ((hostMachine_exec raft codec).mp hexec)).1, ih]

/-- **Every outgoing message has a known destination, if every request has a known sender.**  `ev`
is any call that may come next. -/
theorem destinations_known {host₀ host : PeerHost σ} {h : List (PeerId × HostAct)}
    (run : (hostMachine raft codec).Run host₀ h host) (ev : HostEvent)
    (hj : JraftAddresses host₀ (h ++ observeHost raft host ev))
    (hsenders : KnownSenders host₀ (h ++ observeHost raft host ev)) :
    (∀ x ∈ h ++ observeHost raft host ev, ∀ m ∈ x.2.messages, m.toId ∈ host₀.group x.1) ∧
      ∀ host', execHost raft codec host ev ≠ .error .endIterator host' := by
  have hknown : ∀ x ∈ h ++ observeHost raft host ev, ∀ m ∈ x.2.messages,
      m.toId ∈ host₀.group x.1 := by
    intro x hx m hm
    rcases hj.ready x hx m hm with hmem | ⟨y, hy, hyx, msg, hmsg, hto⟩
    · exact hmem
    · rw [← hyx, ← hto]
      exact hsenders y hy msg hmsg
  refine ⟨hknown, ?_⟩
  intro host' hend
  obtain ⟨x, hx, m, hm, hto⟩ := execHost_endIterator hend
  have hmem := hknown x (List.mem_append_right _ hx) m hm
  rw [PeerHost.group, ← run_members run] at hmem
  exact hto hmem

/-! ## A host to compute with -/

/-- A host of the group of three. -/
def trioHost (id : ℕ) : PeerHost TrioNode :=
  { hostOpt := ⟨id⟩, localPeers := Finmap.singleton 1 (trioServer id).toPeer }

/-- A heartbeat of term 1 from `sender`, in an envelope for the peer of host 1. -/
def heartbeatFrom (sender : ℕ) : RaftMsgReq :=
  ⟨⟨sender, 1⟩, ⟨1, 1⟩, ⟨.kMsgHeartbeat, 1, sender, 1, 0, 0, [], 0, false, 0⟩⟩

/-- Heartbeats from another member are answered. -/
theorem destinations_known_heartbeat : ∃ h host,
    (hostMachine TrioNode.raft shortCodec).Run (trioHost 1) h host ∧ h.length = 1 ∧
      ∀ host', execHost TrioNode.raft shortCodec host (.tick 1 fun _ => true)
        ≠ .error .endIterator host' := by
  obtain ⟨h, host, run, hval⟩ := Machine.exists_run (M := hostMachine TrioNode.raft shortCodec)
    [.raftMsg (heartbeatFrom 2)]
    (fun r => (r.1.length,
      decide (JraftAddresses (trioHost 1)
        (r.1 ++ observeHost TrioNode.raft r.2 (.tick 1 fun _ => true))),
      decide (KnownSenders (trioHost 1)
        (r.1 ++ observeHost TrioNode.raft r.2 (.tick 1 fun _ => true)))))
    (s := trioHost 1) (b := (1, true, true)) (by decide +kernel)
  simp only [Prod.mk.injEq, decide_eq_true_eq] at hval
  obtain ⟨hlen, hj, hsenders⟩ := hval
  exact ⟨h, host, run, hlen, (destinations_known run _ hj hsenders).2⟩

/-- A heartbeat from host 9, which is in nobody's table, ends host 1 at its next tick. -/
theorem stranger_ends_host :
    ¬ ∀ (h : List (PeerId × HostAct)) (host : PeerHost TrioNode) (ev : HostEvent),
      (hostMachine TrioNode.raft shortCodec).Run (trioHost 1) h host →
      JraftAddresses (trioHost 1) (h ++ observeHost TrioNode.raft host ev) →
      ∀ host', execHost TrioNode.raft shortCodec host ev ≠ .error .endIterator host' := by
  intro hall
  obtain ⟨h, host, run, hval⟩ := Machine.exists_run (M := hostMachine TrioNode.raft shortCodec)
    [.raftMsg (heartbeatFrom 9)]
    (fun r => (decide (JraftAddresses (trioHost 1)
        (r.1 ++ observeHost TrioNode.raft r.2 (.tick 1 fun _ => true))),
      match execHost TrioNode.raft shortCodec r.2 (.tick 1 fun _ => true) with
        | .ok _ _ => none
        | .error f _ => some f))
    (s := trioHost 1) (b := (true, some .endIterator)) (by decide +kernel)
  simp only [Prod.mk.injEq, decide_eq_true_eq] at hval
  obtain ⟨hj, hend⟩ := hval
  split at hend
  · cases hend
  · next f host' hexec =>
      cases hend
      exact hall h host _ run hj host' hexec

end Jkv
