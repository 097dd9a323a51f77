import Jkv.Host.Calls
import Jkv.Server.Lifecycle
import Jkv.Server.Stranded

/-!
# The peers of one host

A host may have several local peers, one for each group it is a member of.  They share its rpc
clients and its worker, and a call that reaches the host is made on one of them: it is a call of the
server that consists of this peer and of what it shares (`execHost_ok`).

So every local peer has a history of its own inside a run of the host, and keeps its own ledger
(`run_account`).  Only peer 1 has clients: `KvOpCb` asks for no other, so no other peer ever queues
a proposal or runs a closure, and the closures that were run at the host are those of peer 1.  What
a call does to one peer, also a call that ends the process, no other peer's database shows.
-/

namespace Jkv

open Machine

variable {σ : Type}

/-- The local peer a call is made on, and what is called there. -/
def HostEvent.call : HostEvent → PeerId × Event
  | .raftMsg req => (req.toPeer.peerId, .step req.msg)
  | .kvOp req => (1, .kvOp req)
  | .tick peerId connect => (peerId, .tick connect)

section

variable (raft : RawNode σ) (codec : Codec)

/-- The machine of the calls that reach a host, with the records of the peers they are made on. -/
def peersMachine : Machine (PeerHost σ) HostEvent (PeerId × Record) where
  exec := (hostMachine raft codec).exec
  obs host ev := match host.localPeers.lookup ev.call.1 with
    | none => []
    | some peer => (observe raft codec (host.server peer) ev.call.2).map (Prod.mk ev.call.1)

end

variable {raft : RawNode σ} {codec : Codec} {host host₀ host' : PeerHost σ} {ev : HostEvent}

/-! ## A call on a host is a call on a peer -/

/-- **A call that reaches a host, by its outcome.** -/
theorem execHost_eq (raft : RawNode σ) (codec : Codec) (host : PeerHost σ) (ev : HostEvent) :
    (∃ f, (f = .wrongHost ∨ f = .peerMissing ∧ host.localPeers.lookup ev.call.1 = none) ∧
      ∃ host', execHost raft codec host ev = .error f host' ∧
        host'.localPeers = host.localPeers) ∨
    ∃ peer, host.localPeers.lookup ev.call.1 = some peer ∧
      execHost raft codec host ev = match execEvent raft codec (host.server peer) ev.call.2 with
        | .ok _ s => .ok () (host.store ev.call.1 s)
        | .error f s => .error f (host.store ev.call.1 s) := by
  cases ev with
  | raftMsg req =>
      by_cases hhost : req.toPeer.hostId ≠ host.hostId
      · refine Or.inl ⟨.wrongHost, Or.inl rfl, host, ?_, rfl⟩
        rw [execHost, run_handleRaftMsg, if_pos hhost]
      · cases hpeer : host.localPeers.lookup req.toPeer.peerId with
        | none =>
            refine Or.inl ⟨.peerMissing, Or.inr ⟨rfl, hpeer⟩, host, ?_, rfl⟩
            rw [execHost, run_handleRaftMsg, if_neg hhost, hpeer]
        | some peer =>
            refine Or.inr ⟨peer, hpeer, ?_⟩
            rw [execHost, run_handleRaftMsg, if_neg hhost, hpeer]
            rfl
  | kvOp req =>
      rw [execHost, run_kvOpCb]
      cases hpeer : host.localPeers.lookup 1 with
      | none => exact Or.inl ⟨.peerMissing, Or.inr ⟨rfl, hpeer⟩, _, rfl, rfl⟩
      | some peer => exact Or.inr ⟨peer, hpeer, rfl⟩
  | tick peerId connect =>
      rw [execHost, run_onPeer]
      cases hpeer : host.localPeers.lookup peerId with
      | none => exact Or.inl ⟨.peerMissing, Or.inr ⟨rfl, hpeer⟩, host, rfl, rfl⟩
      | some peer =>
          refine Or.inr ⟨peer, hpeer, ?_⟩
          have hcall : execEvent raft codec (host.server peer) (.tick connect)
              = (tick raft codec connect).run (host.server peer) := rfl
          dsimp only [HostEvent.call]
          rw [hcall]
          cases (tick raft codec connect).run _ <;> rfl

lemma execHost_ok (h : execHost raft codec host ev = .ok () host') : ∃ peer s,
    host.localPeers.lookup ev.call.1 = some peer ∧
      execEvent raft codec (host.server peer) ev.call.2 = .ok () s ∧
      host' = host.store ev.call.1 s := by
  rcases execHost_eq raft codec host ev with
    ⟨f, -, host₁, herr, -⟩ | ⟨peer, hpeer, hexec⟩
  · rw [herr] at h
    cases h
  · rw [hexec] at h
    split at h
    · next u s hs =>
        cases h
        exact ⟨peer, s, hpeer, hs, rfl⟩
    · cases h

lemma execHost_error {f : Fatal} (h : execHost raft codec host ev = .error f host') :
    host'.localPeers = host.localPeers ∨ ∃ peer s,
      host.localPeers.lookup ev.call.1 = some peer ∧
      execEvent raft codec (host.server peer) ev.call.2 = .error f s ∧
      host' = host.store ev.call.1 s := by
  rcases execHost_eq raft codec host ev with ⟨f', -, host₁, herr, hpeers⟩ | ⟨peer, hpeer, hexec⟩
  · rw [herr] at h
    cases h
    exact Or.inl hpeers
  · rw [hexec] at h
    split at h
    · cases h
    · next f' s hs =>
        cases h
        exact Or.inr ⟨peer, s, hpeer, hs, rfl⟩

lemma peersMachine_exec :
    (peersMachine raft codec).exec host ev = some host' ↔
      execHost raft codec host ev = .ok () host' := hostMachine_exec raft codec

/-! ## Peers without clients -/

/-- No client is behind a record. -/
def Record.Unasked (r : Record) : Prop := r.proposal? = none ∧ r.refused? = none

/-- Only `KvOp` brings in clients. -/
lemma observe_unasked {s : Server σ} {e : Event} (he : ∀ req, e ≠ .kvOp req) {r : Record}
    (hr : r ∈ observe raft codec s e) : r.Unasked := by
  cases e with
  | kvOp req => exact absurd rfl (he req)
  | step msg =>
      rw [List.mem_singleton.mp hr]
      exact ⟨rfl, rfl⟩
  | tick connect =>
      rcases List.mem_cons.mp hr with rfl | hr
      · exact ⟨rfl, rfl⟩
      · obtain ⟨e, -, pending, rejected, found, rfl⟩ := mem_deliveries hr
        exact ⟨rfl, rfl⟩

/-- Where nobody waits, a record no client is behind only moves the database. -/
lemma LedgerStep.of_unasked {l l' : Ledger} {r : Record} (hs : LedgerStep codec l r l')
    (hr : r.Unasked) (hq : l.proposals = []) :
    l' = { l with kvDb := l'.kvDb } ∧
      ∀ ran calls, LedgerStep codec ⟨l.kvDb, [], ran, calls⟩ r ⟨l'.kvDb, [], ran, calls⟩ := by
  cases hs with
  | refused _ => cases hr.2
  | proposed _ _ _ => cases hr.1
  | stepped => exact ⟨rfl, fun _ _ => LedgerStep.stepped⟩
  | ticked => exact ⟨rfl, fun _ _ => LedgerStep.ticked⟩
  | @delivered v e db r hdb hpop =>
      have hnone : popFor v.leader e [] = ⟨none, [], []⟩ := by
        cases hlead : v.leader <;> rfl
      rw [hq, hnone] at hpop
      subst hpop
      refine ⟨?_, ?_⟩
      · simp [hq]
      · intro ran calls
        rw [hq]
        simpa using @LedgerStep.delivered codec ⟨l.kvDb, [], ran, calls⟩ v e db _ hdb hnone.symm

/-- A whole history that no client is behind. -/
lemma LedgerSteps.of_unasked {l l' : Ledger} {h : List Record} (hs : LedgerSteps codec l h l')
    (hh : ∀ r ∈ h, r.Unasked) (hq : l.proposals = []) :
    l' = { l with kvDb := l'.kvDb } ∧
      ∀ ran calls, LedgerSteps codec ⟨l.kvDb, [], ran, calls⟩ h ⟨l'.kvDb, [], ran, calls⟩ := by
  induction hs with
  | nil =>
      refine ⟨rfl, ?_⟩
      intro ran calls
      exact Steps.nil
  | @snoc h l₁ l₂ r _ hstep ih =>
      obtain ⟨hfirst, hsteps⟩ := ih fun r hr => hh r (List.mem_append_left _ hr)
      have hq₁ : l₁.proposals = [] := by rw [hfirst]; exact hq
      obtain ⟨hlast, hone⟩ := hstep.of_unasked (hh r (by simp)) hq₁
      refine ⟨?_, ?_⟩
      · rw [hlast, hfirst]
      · intro ran calls
        exact Steps.snoc (hsteps ran calls) (hone ran calls)

/-! ## The ledgers of a host -/

/-- A host whose peers have been added and have not done anything yet. -/
structure PeerHost.Started (host : PeerHost σ) : Prop where
  queues : ∀ peerId peer, host.localPeers.lookup peerId = some peer → peer.proposals = []
  ran : host.ran = []
  calls : host.calls = 0

/-- The ledger of a local peer.  What was run at the host, and how many requests it took, belongs to
peer 1. -/
def PeerHost.account (host : PeerHost σ) (peerId : PeerId) (peer : Peer σ) : Ledger :=
  if peerId = 1 then (host.server peer).ledger else ⟨peer.kvDb, peer.proposals, [], 0⟩

lemma PeerHost.account_kvDb (host : PeerHost σ) (peerId : PeerId) (peer : Peer σ) :
    (host.account peerId peer).kvDb = peer.kvDb := by
  rw [PeerHost.account]
  split_ifs <;> rfl

/-- A call on a peer other than peer 1 brings in no client. -/
lemma HostEvent.call_ne (hev : ev.call.1 ≠ 1) (req : KvReq) : ev.call.2 ≠ .kvOp req := by
  cases ev with
  | raftMsg req => exact Event.noConfusion
  | kvOp req => exact absurd rfl hev
  | tick peerId connect => exact Event.noConfusion

/-- A call on a peer without clients only moves its database, as the shared part of the host
shows. -/
lemma execEvent_unasked {s s' : Server σ} {e : Event} (he : ∀ req, e ≠ .kvOp req)
    (hq : s.proposals = []) (h : execEvent raft codec s e = .ok () s') :
    s'.proposals = [] ∧ s'.ran = s.ran ∧ s'.calls = s.calls ∧
      LedgerSteps codec ⟨s.kvDb, [], [], 0⟩ (observe raft codec s e) ⟨s'.kvDb, [], [], 0⟩ := by
  obtain ⟨hledger, hsteps⟩ := LedgerSteps.of_unasked (execEvent_ledger h)
    (fun r hr => observe_unasked he hr) hq
  refine ⟨?_, congrArg Ledger.ran hledger, congrArg Ledger.calls hledger, hsteps [] 0⟩
  exact (congrArg Ledger.proposals hledger).trans hq

/-- Nobody but peer 1 ever has a queue. -/
lemma run_idle {h : List (PeerId × Record)} (run : (peersMachine raft codec).Run host₀ h host)
    (hstart : host₀.Started) {peerId : PeerId} (hne : peerId ≠ 1) {peer : Peer σ}
    (hpeer : host.localPeers.lookup peerId = some peer) : peer.proposals = [] := by
  induction run generalizing peer with
  | nil => exact hstart.queues peerId peer hpeer
  | snoc ev _ hexec ih =>
      obtain ⟨peer₁, s, hpeer₁, hs, rfl⟩ := execHost_ok (peersMachine_exec.mp hexec)
      by_cases hcall : peerId = ev.call.1
      · subst hcall
        rw [PeerHost.store, Finmap.lookup_insert, Option.some.injEq] at hpeer
        subst hpeer
        exact (execEvent_unasked (HostEvent.call_ne hne) (ih hpeer₁) hs).1
      · rw [PeerHost.store, Finmap.lookup_insert_of_ne _ hcall] at hpeer
        exact ih hpeer

/-- **Every local peer keeps its own ledger.**  In a run of the host, what one local peer does is a
history of its own. -/
theorem run_account {h : List (PeerId × Record)} (run : (peersMachine raft codec).Run host₀ h host)
    (hstart : host₀.Started) {peerId : PeerId} {peer₀ : Peer σ}
    (hpeer₀ : host₀.localPeers.lookup peerId = some peer₀) :
    ∃ peer, host.localPeers.lookup peerId = some peer ∧
      LedgerSteps codec (host₀.account peerId peer₀) (proj peerId h)
        (host.account peerId peer) := by
  induction run with
  | nil => exact ⟨peer₀, hpeer₀, Steps.nil⟩
  | @snoc h host host' ev run hexec ih =>
      obtain ⟨peer, hpeer, hsteps⟩ := ih
      obtain ⟨peer₁, s, hpeer₁, hs, rfl⟩ := execHost_ok (peersMachine_exec.mp hexec)
      have hobs : (peersMachine raft codec).obs host ev
          = (observe raft codec (host.server peer₁) ev.call.2).map (Prod.mk ev.call.1) := by
        simp only [peersMachine, hpeer₁]
      rw [proj_append, hobs]
      by_cases hcall : ev.call.1 = peerId
      · -- the call is this peer's
        subst hcall
        rw [hpeer] at hpeer₁
        cases hpeer₁
        rw [proj_map_self]
        refine ⟨s.toPeer, Finmap.lookup_insert _, hsteps.trans ?_⟩
        by_cases hone : ev.call.1 = 1
        · simp only [PeerHost.account, hone, if_true]
          exact execEvent_ledger hs
        · have hq := run_idle run hstart hone hpeer
          obtain ⟨hq', -, -, hown⟩ := execEvent_unasked (HostEvent.call_ne hone) hq hs
          simp only [PeerHost.account, hone, if_false, hq, hq']
          exact hown
      · -- the call is another peer's, and does not touch what is this peer's
        rw [proj_map_ne hcall, List.append_nil]
        refine ⟨peer, ?_, ?_⟩
        · rw [PeerHost.store, Finmap.lookup_insert_of_ne _ (Ne.symm hcall)]
          exact hpeer
        · by_cases hone : peerId = 1
          · subst hone
            have hq := run_idle run hstart hcall hpeer₁
            obtain ⟨-, hran, hcalls, -⟩ := execEvent_unasked (HostEvent.call_ne hcall) hq hs
            have hsame : (host.store ev.call.1 s).account 1 peer = host.account 1 peer := by
              simp only [PeerHost.account, if_true, Server.ledger, PeerHost.server, PeerHost.store,
                hran, hcalls]
            rw [hsame]
            exact hsteps
          · simp only [PeerHost.account, hone, if_false] at hsteps ⊢
            exact hsteps

/-! ## What a host owes its clients -/

/-- Adding a peer keeps a host that has not done anything yet. -/
lemma addLocalPeer_started {peerOpt : PeerOption} {db : KvDb} (hstart : host.Started)
    (h : (addLocalPeer raft peerOpt db).run host = .ok () host') : host'.Started := by
  obtain ⟨-, peer, hnew, rfl⟩ := addLocalPeer_eq_ok h
  refine ⟨?_, hstart.ran, hstart.calls⟩
  intro peerId peer' hlookup
  by_cases hid : peerId = peerOpt.peerId
  · rw [hid, Finmap.lookup_insert, Option.some.injEq] at hlookup
    subst hlookup
    obtain ⟨peers, storage, -, -, -, rfl⟩ := newPeer_eq_ok.mp hnew
    rfl
  · rw [Finmap.lookup_insert_of_ne _ hid] at hlookup
    exact hstart.queues peerId peer' hlookup

/-- Only peer 1 is asked for anything. -/
lemma run_unasked {h : List (PeerId × Record)} (run : (peersMachine raft codec).Run host₀ h host)
    {peerId : PeerId} (hne : peerId ≠ 1) {r : Record} (hr : r ∈ proj peerId h) : r.Unasked := by
  obtain ⟨-, host₁, ev, -, -, -, hobs, -⟩ := run.exists_call (mem_proj.mp hr)
  simp only [peersMachine] at hobs
  split at hobs
  · cases hobs
  · next peer _ =>
      obtain ⟨r', hr', heq⟩ := List.mem_map.mp hobs
      cases heq
      exact observe_unasked (HostEvent.call_ne hne) hr'

/-- The complete account of the clients of a host, which are those of its peer 1. -/
lemma run_balanced {h : List (PeerId × Record)} (run : (peersMachine raft codec).Run host₀ h host)
    (hstart : host₀.Started) {peer₀ : Peer σ} (hpeer₀ : host₀.localPeers.lookup 1 = some peer₀) :
    ∃ peer, host.localPeers.lookup 1 = some peer ∧
      Balanced codec (proj 1 h) (host.server peer).ledger := by
  obtain ⟨peer, hpeer, hsteps⟩ := run_account run hstart hpeer₀
  simp only [PeerHost.account, if_true] at hsteps
  exact ⟨peer, hpeer, LedgerSteps.balanced hsteps hstart.calls (hstart.queues 1 peer₀ hpeer₀)
    hstart.ran⟩

/-- **The clients of a host are the clients of its peer 1.**  However many local peers there are,
and however their calls are mixed: no peer but peer 1 ever queues a proposal or answers a request;
and if the host has a peer 1, every request that reached it was answered exactly once, or waits
exactly once in the queue of peer 1, or was handed out there to an entry that answers nobody: the
accepted ones in the order they were accepted, the refused ones with `rejected` set. -/
theorem clients_of_peer_one {h : List (PeerId × Record)}
    (run : (peersMachine raft codec).Run host₀ h host) (hstart : host₀.Started) :
    (∀ peer₀, host₀.localPeers.lookup 1 = some peer₀ →
      ∃ peer, host.localPeers.lookup 1 = some peer ∧
        (host.ran.map Callback.done ++ peer.proposals.map Proposal.done ++
          strandedOf codec (proj 1 h)).Perm (List.range host.calls) ∧
        ((host.ran.map Callback.done).filter (· ∉ refusedOf (proj 1 h)) ++
          peer.proposals.map Proposal.done).Sublist (acceptedOf (proj 1 h)) ∧
        ∀ d ∈ refusedOf (proj 1 h), host.ran.filter (·.done = d) = [⟨d, { rejected := true }⟩]) ∧
      ∀ peerId peer, peerId ≠ 1 → host.localPeers.lookup peerId = some peer →
        peer.proposals = [] ∧ ∀ r ∈ proj peerId h, r.Unasked := by
  refine ⟨?_, ?_⟩
  · intro peer₀ hpeer₀
    obtain ⟨peer, hpeer, hb⟩ := run_balanced run hstart hpeer₀
    exact ⟨peer, hpeer, hb.once, hb.inOrder, fun d hd => hb.filter_refused hd⟩
  · intro peerId peer hne hpeer
    exact ⟨run_idle run hstart hne hpeer, fun r hr => run_unasked run hne hr⟩

/-- **A crash in one peer leaves the databases of the others at their logs.**  After any run of the
host, a call ends its process.  Every local peer leaves the database it had started from with its
own entries applied to it, and only the peer the call was made on may have applied some more of
them, a part of its `Ready`. -/
theorem host_crash_isolated {h : List (PeerId × Record)}
    (run : (peersMachine raft codec).Run host₀ h host) (hstart : host₀.Started) {f : Fatal}
    (hend : execHost raft codec host ev = .error f host') {peerId : PeerId} {peer₀ : Peer σ}
    (hpeer₀ : host₀.localPeers.lookup peerId = some peer₀) :
    ∃ peer peer' es, host.localPeers.lookup peerId = some peer ∧
      host'.localPeers.lookup peerId = some peer' ∧
      peer'.kvDb = replayLog codec peer₀.kvDb (entriesOf (proj peerId h) ++ es) ∧
      (es ≠ [] → peerId = ev.call.1 ∧ ∃ e, es ++ [e] <+: ev.call.2.entries raft peer.rawNode ∧
        applyEntry codec peer'.kvDb e = .error f) := by
  obtain ⟨peer, hpeer, hsteps⟩ := run_account run hstart hpeer₀
  have hdb : peer.kvDb = replayLog codec peer₀.kvDb (entriesOf (proj peerId h)) := by
    have hledger := LedgerSteps.kvDb_eq hsteps
    rwa [PeerHost.account_kvDb, PeerHost.account_kvDb] at hledger
  rcases execHost_error hend with hpeers | ⟨peer₁, s, hpeer₁, hs, rfl⟩
  · exact ⟨peer, peer, [], hpeer, by rw [hpeers, hpeer], by rw [List.append_nil, hdb],
      fun hne => absurd rfl hne⟩
  by_cases hcall : peerId = ev.call.1
  · subst hcall
    rw [hpeer] at hpeer₁
    cases hpeer₁
    obtain ⟨es, hleft, hcause⟩ := execEvent_error hs
    refine ⟨peer, s.toPeer, es, hpeer, Finmap.lookup_insert _, ?_, ?_⟩
    · rw [replayLog_append, ← hdb]
      exact hleft
    · intro hne
      rcases hcause with ⟨rfl, -⟩ | ⟨e, hpre, haborts⟩
      · exact absurd rfl hne
      · exact ⟨rfl, e, hpre, haborts⟩
  · refine ⟨peer, peer, [], hpeer, ?_, by rw [List.append_nil, hdb], fun hne => absurd rfl hne⟩
    rw [PeerHost.store, Finmap.lookup_insert_of_ne _ hcall]
    exact hpeer

/-! ## Two peers on one host -/

/-- Host 1 with two local peers, each of a group of its own. -/
def twinHost : PeerHost TrioNode :=
  { hostOpt := ⟨1⟩
    localPeers := Finmap.insert 2 { soloPeer ∅ with self := ⟨1, 2, ['a'], 10000⟩ }
      (Finmap.insert 1 (soloPeer ∅) ∅) }

lemma twinHost_started : twinHost.Started := by
  have hempty : ({ hostOpt := ⟨1⟩ } : PeerHost TrioNode).Started := by
    refine ⟨?_, rfl, rfl⟩
    intro peerId peer hlookup
    simp at hlookup
  have hsecond : newPeer TrioNode.raft { soloOption with peerId := 2 } ∅
      = .ok { soloPeer ∅ with self := ⟨1, 2, ['a'], 10000⟩ } := by
    have hmembers : initGroupMembers soloOption.members
        = .ok (Finmap.singleton 1 ⟨1, 1, ['a'], 10000⟩) := by decide
    exact newPeer_eq_ok.mpr ⟨_, _, hmembers, rfl, rfl, rfl⟩
  have hone : (addLocalPeer TrioNode.raft soloOption ∅).run { hostOpt := ⟨1⟩ }
      = .ok () { hostOpt := ⟨1⟩, localPeers := Finmap.insert 1 (soloPeer ∅) ∅ } := by
    rw [run_addLocalPeer, newPeer_solo]
    rfl
  have htwo : (addLocalPeer TrioNode.raft { soloOption with peerId := 2 } ∅).run
      { hostOpt := ⟨1⟩, localPeers := Finmap.insert 1 (soloPeer ∅) ∅ } = .ok () twinHost := by
    rw [run_addLocalPeer, hsecond]
    rfl
  exact addLocalPeer_started (addLocalPeer_started hempty hone) htwo

lemma twinHost_lookup : twinHost.localPeers.lookup 1 = some (soloPeer ∅) := rfl

/-- An event of the event loop of a peer, in an envelope for it. -/
def forPeer (peerId : PeerId) : Event → HostEvent
  | .step msg => .raftMsg ⟨⟨2, 1⟩, ⟨1, peerId⟩, msg⟩
  | .kvOp req => .kvOp req
  | .tick connect => .tick peerId connect

/-- Peer 1 is elected and serves a request; peer 2 follows, and has a log of its own. -/
def twinEvents : List HostEvent :=
  (elect 1 ++ [.kvOp (putRequest 7 9), acknowledge 1 2, tickConnected]).map (forPeer 1) ++
    [appendEntries 1 0 [requestEntry 1 (putRequest 7 8), requestEntry 2 (getRequest 8)] 2].map
      (forPeer 2)

/-- Both peers at work. -/
theorem clients_of_peer_one_twin : ∃ h host,
    (peersMachine TrioNode.raft shortCodec).Run twinHost h host ∧ host.calls = 1 ∧
      ∃ peer, host.localPeers.lookup 1 = some peer ∧
        (host.ran.map Callback.done ++ peer.proposals.map Proposal.done).Perm
          (List.range host.calls) := by
  obtain ⟨h, host, run, hval⟩ := Machine.exists_run (M := peersMachine TrioNode.raft shortCodec)
    twinEvents (fun r => (strandedOf shortCodec (proj 1 r.1), r.2.calls))
    (s := twinHost) (b := ([], 1)) (by decide +kernel)
  simp only [Prod.mk.injEq] at hval
  obtain ⟨hstranded, hcalls⟩ := hval
  obtain ⟨hone, -⟩ := clients_of_peer_one run twinHost_started
  obtain ⟨peer, hpeer, hperm, -, -⟩ := hone _ twinHost_lookup
  rw [hstranded, List.append_nil] at hperm
  exact ⟨h, host, run, hcalls, peer, hpeer, hperm⟩

/-- A `get` of an absent key in the log of peer 2 ends the process.  The database of peer 1 has what
its client had put, and that of peer 2 the entry before the `get`. -/
theorem host_crash_isolated_twin : ∃ h host host',
    (peersMachine TrioNode.raft shortCodec).Run twinHost h host ∧
      execHost TrioNode.raft shortCodec host (.tick 2 fun _ => true)
        = .error (.dbGet "NotFound: ") host' ∧
      ∃ peer, host'.localPeers.lookup 1 = some peer ∧
        peer.kvDb = replayLog shortCodec ∅ (entriesOf (proj 1 h)) := by
  obtain ⟨h, host, run, hval⟩ := Machine.exists_run (M := peersMachine TrioNode.raft shortCodec)
    twinEvents
    (fun r => errorOf (execHost TrioNode.raft shortCodec r.2 (.tick 2 fun _ => true)))
    (s := twinHost) (b := some (.dbGet "NotFound: ")) (by decide +kernel)
  obtain ⟨host', hend⟩ := errorOf_eq_some.mp hval
  obtain ⟨peer, peer', es, -, hpeer', hdb, hes⟩ := host_crash_isolated run twinHost_started hend
    twinHost_lookup
  have hnone : es = [] := by
    by_contra hne
    exact absurd (hes hne).1 (by decide)
  rw [hnone, List.append_nil] at hdb
  exact ⟨h, host, host', run, hend, peer', hpeer', hdb⟩

end Jkv
