import Jkv.Peer.PeerHost
import Jkv.Peer.TrioNode

/-!
# The order of the members

Every host of a group is started with a members string of its own.  The strings list the same
members, but nothing makes them list the members in one order.

The table does not depend on the order: which part makes the loop fail does, whether one does not.
The voters that raft is given are the keys of the table, so all hosts start with the same voters.
-/

namespace Jkv

/-- The table has exactly one row for each part of the string. -/
structure OneRowPerPart (parts : List StdString) (peers : PeerTable) : Prop where
  card : peers.keys.card = parts.length
  row_of_part : ∀ part ∈ parts, ∃ member,
    readMember part = .ok member ∧ peers.lookup member.hostId = some member
  part_of_row : ∀ host member, peers.lookup host = some member →
    member.hostId = host ∧ ∃ part ∈ parts, readMember part = .ok member

lemma initGroupMembers_oneRowPerPart {members : StdString} {peers : PeerTable}
    (h : initGroupMembers members = .ok peers) :
    OneRowPerPart (boostSplit '|' members) peers where
  card := by
    obtain ⟨rows, hread, hnodup, hrows⟩ := initGroupMembers_eq_ok.mp h
    rw [hrows.card_keys hnodup, hread.length_eq]
  row_of_part _ := row_of_part h
  part_of_row _ _ := part_of_row h

/-- One table for every order of the parts. -/
lemma initGroupMembers_perm {members members' : StdString} {peers : PeerTable}
    (hperm : (boostSplit '|' members).Perm (boostSplit '|' members')) :
    initGroupMembers members = .ok peers ↔ initGroupMembers members' = .ok peers := by
  rw [initGroupMembers_eq, initGroupMembers_eq]
  exact foldlM_addRow_perm hperm

/-- A peer that starts from an empty configuration gives raft the keys of its table. -/
lemma newPeer_voters {σ : Type} {raft : RawNode σ} {peerOpt : PeerOption} {db : KvDb}
    (hstorage : peerOpt.storage = some ⟨(.kOk, 0)⟩) {peer : Peer σ}
    (h : newPeer raft peerOpt db = .ok peer) :
    initGroupMembers peerOpt.members = .ok peer.peers ∧
      peer.rawNode = raft.construct { id := peerOpt.hostId } peer.peers.keys.val := by
  obtain ⟨peers, storage, hmembers, hfound, -, rfl⟩ := newPeer_eq_ok.mp h
  rw [hstorage] at hfound
  cases hfound
  exact ⟨hmembers, by simp⟩

/-- Such a peer is constructed exactly when its members string is good. -/
lemma exists_newPeer_iff {σ : Type} {raft : RawNode σ} {peerOpt : PeerOption} {db : KvDb}
    (hstorage : peerOpt.storage = some ⟨(.kOk, 0)⟩) :
    (∃ peer, newPeer raft peerOpt db = .ok peer) ↔
      ∃ peers, initGroupMembers peerOpt.members = .ok peers := by
  constructor
  · rintro ⟨peer, h⟩
    exact ⟨peer.peers, (newPeer_voters hstorage h).1⟩
  · rintro ⟨peers, hmembers⟩
    exact ⟨_, newPeer_eq_ok.mpr ⟨peers, _, hmembers, hstorage, rfl, rfl⟩⟩

lemma initGroupMembers_error_iff {members : StdString} :
    (∃ f, initGroupMembers members = .error f) ↔
      ¬ ∃ peers, initGroupMembers members = .ok peers := by
  cases initGroupMembers members with
  | error f => simp
  | ok peers => simp

/-- **The order of the members does not matter.**  Of two strings with the same parts in different
order both are refused or neither, and then both give one table, with one row for each part.  Two
hosts that are started with the strings, from a configuration without voters, both get a peer or
neither does, and raft is given the same voters on both, each once. -/
theorem members_order_irrelevant {members members' : StdString}
    (hperm : (boostSplit '|' members).Perm (boostSplit '|' members')) :
    ((∃ f, initGroupMembers members = .error f) ↔ ∃ f, initGroupMembers members' = .error f) ∧
    (∀ peers, initGroupMembers members = .ok peers ↔ initGroupMembers members' = .ok peers) ∧
    (∀ peers, initGroupMembers members = .ok peers →
      OneRowPerPart (boostSplit '|' members) peers) ∧
    ∀ (σ : Type) (raft : RawNode σ) (peerOpt peerOpt' : PeerOption) (db db' : KvDb),
      peerOpt.members = members → peerOpt'.members = members' →
      peerOpt.storage = some ⟨(.kOk, 0)⟩ → peerOpt'.storage = some ⟨(.kOk, 0)⟩ →
      ((∃ peer, newPeer raft peerOpt db = .ok peer) ↔
        ∃ peer, newPeer raft peerOpt' db' = .ok peer) ∧
      ∀ peer peer', newPeer raft peerOpt db = .ok peer → newPeer raft peerOpt' db' = .ok peer' →
        peer.peers = peer'.peers ∧ ∃ voters : Multiset HostId, voters.Nodup ∧
          (∀ host, host ∈ voters ↔ host ∈ peer.peers) ∧
          peer.rawNode = raft.construct { id := peerOpt.hostId } voters ∧
          peer'.rawNode = raft.construct { id := peerOpt'.hostId } voters := by
  have htable : ∀ peers, initGroupMembers members = .ok peers ↔
      initGroupMembers members' = .ok peers := fun peers => initGroupMembers_perm hperm
  refine ⟨?_, htable, fun peers => initGroupMembers_oneRowPerPart, ?_⟩
  · rw [initGroupMembers_error_iff, initGroupMembers_error_iff]
    exact not_congr (exists_congr htable)
  · rintro σ raft peerOpt peerOpt' db db' rfl rfl hstorage hstorage'
    refine ⟨?_, ?_⟩
    · rw [exists_newPeer_iff hstorage, exists_newPeer_iff hstorage']
      exact exists_congr htable
    · intro peer peer' hpeer hpeer'
      obtain ⟨hmembers, hnode⟩ := newPeer_voters hstorage hpeer
      obtain ⟨hmembers', hnode'⟩ := newPeer_voters hstorage' hpeer'
      have hpeers : peer.peers = peer'.peers := by
        rw [(htable peer.peers).mp hmembers] at hmembers'
        exact Except.ok.inj hmembers'
      refine ⟨hpeers, peer.peers.keys.val, peer.peers.keys.nodup, ?_, hnode, ?_⟩
      · intro host
        rw [Finset.mem_val, Finmap.mem_keys]
      · rw [hpeers]
        exact hnode'

/-- What the first host of a group of three is started with. -/
def firstOption : PeerOption :=
  { hostId := 1
    peerId := 1
    members := "1,1,a,10000|2,1,b,10001|3,1,c,10002".toList
    storage := some ⟨(.kOk, 0)⟩ }

/-- The second host has its own row first. -/
def secondOption : PeerOption :=
  { hostId := 2
    peerId := 1
    members := "2,1,b,10001|3,1,c,10002|1,1,a,10000".toList
    storage := some ⟨(.kOk, 0)⟩ }

theorem members_order_irrelevant_trio :
    ∃ peer peer', newPeer TrioNode.raft firstOption ∅ = .ok peer ∧
      newPeer TrioNode.raft secondOption ∅ = .ok peer' ∧ peer.peers = peer'.peers := by
  have hperm : (boostSplit '|' firstOption.members).Perm (boostSplit '|' secondOption.members) := by
    decide
  obtain ⟨hiff, hsame⟩ := (members_order_irrelevant hperm).2.2.2 TrioNode TrioNode.raft
    firstOption secondOption ∅ ∅ rfl rfl rfl rfl
  obtain ⟨peer, hpeer⟩ : ∃ peer, newPeer TrioNode.raft firstOption ∅ = .ok peer := ⟨_, rfl⟩
  obtain ⟨peer', hpeer'⟩ := hiff.mp ⟨peer, hpeer⟩
  exact ⟨peer, peer', hpeer, hpeer', (hsame peer peer' hpeer hpeer').1⟩

end Jkv
