import Jkv.Cluster.Linearizability
import Jkv.Host.Peers

/-!
# A group of hosts is a group of servers

The group that is reasoned about is made of servers: a peer and what it shares with its host.  What
is deployed is hosts, with the services in front of them.  A host whose only local peer is peer 1
does exactly what this peer's server does (`Serves.simulates`), so a group of hosts, whatever
arrives at each of them and in whatever order, does what a group of servers does
(`hosts_refine_cluster`).
-/

namespace Jkv

open Machine

variable {ι σ : Type} {raft : RawNode σ} {codec : Codec}

/-- Peer 1 is the only local peer of the host, and `s` is this peer with what it shares. -/
structure Serves (host : PeerHost σ) (s : Server σ) : Prop where
  peer : host.localPeers.lookup 1 = some s.toPeer
  shared : host.server s.toPeer = s
  only : ∀ peerId, peerId ≠ 1 → host.localPeers.lookup peerId = none

/-- What the hosts of a group have shown, without the ids of the local peers. -/
def recordsOf (h : List (ι × PeerId × Record)) : List (ι × Record) :=
  h.map fun x => (x.1, x.2.2)

lemma Serves.ran_eq {host : PeerHost σ} {s : Server σ} (hs : Serves host s) : s.ran = host.ran := by
  rw [← hs.shared]
  rfl

/-- **The server answers for its host.** -/
theorem Serves.simulates :
    Simulates (peersMachine raft codec) (serverMachine raft codec) Serves Prod.snd := by
  intro host s ev host' hs hexec
  obtain ⟨peer, s', hpeer, hcall, rfl⟩ := execHost_ok (peersMachine_exec.mp hexec)
  have hone : ev.call.1 = 1 := by
    by_contra hne
    rw [hs.only _ hne] at hpeer
    cases hpeer
  have hown : peer = s.toPeer := by
    rw [hone, hs.peer] at hpeer
    exact (Option.some.inj hpeer).symm
  subst hown
  rw [hs.shared] at hcall
  refine ⟨ev.call.2, s', (serverMachine_exec raft codec).mpr hcall, ⟨?_, rfl, ?_⟩, ?_⟩
  · rw [hone]
    exact Finmap.lookup_insert _
  · intro peerId hne
    rw [hone, PeerHost.store, Finmap.lookup_insert_of_ne _ hne]
    exact hs.only peerId hne
  · simp only [peersMachine, hpeer, hs.shared, List.map_map]
    exact (List.map_id _).symm

variable [DecidableEq ι] {hosts₀ hosts : ι → PeerHost σ} {h : List (ι × PeerId × Record)}
  {c₀ : ι → Server σ}

/-- **A group of hosts refines a group of servers.** -/
theorem hosts_refine_cluster (run : ((peersMachine raft codec).interleave ι).Run hosts₀ h hosts)
    (hserves : ∀ a, Serves (hosts₀ a) (c₀ a)) :
    ∃ c, (cluster ι raft codec).Run c₀ (recordsOf h) c ∧ ∀ a, Serves (hosts a) (c a) :=
  run.simulate (Serves.simulates.interleave ι) hserves

end Jkv
