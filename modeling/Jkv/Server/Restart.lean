import Jkv.Server.Workload

/-!
# Starting again on an old database

A peer that is constructed again finds the database its process has left on disk, but tells raft
that nothing was applied, so the committed log is delivered from its first entry on.  The database
is then ahead of the log: it has values that the replay has not come to yet.

Nobody can tell.  A `get` that found its key when the log was first applied found a key that the log
itself had put there, so the replay puts it there as well before it comes to the `get`
(`GetsLive.of_empty`); and what the replay writes covers what was left over
(`Command.applyAll_applyAll_take`).
-/

namespace Jkv

variable {σ σ' : Type} {codec : Codec}

/-- A `get` that finds its key from the empty database finds it from every database. -/
lemma GetsLive.of_empty {cmds : List Command} (h : GetsLive ∅ cmds) (db : KvDb) :
    GetsLive db cmds := by
  intro i key hi
  rcases h i key hi with hput | ⟨-, hmem⟩
  · exact Or.inl hput
  · exact absurd hmem Finmap.notMem_empty

/-- What a `get` reads, too, does not depend on the database the log is applied to. -/
lemma GetsLive.lookup_replayLog {log : List Entry}
    (h : GetsLive ∅ (log.map (reference codec))) {n : ℕ} {e : Entry} {key : Bytes}
    (he : log[n]? = some e) (hget : reference codec e = .get key) :
    ∃ val, ∀ db : KvDb, (replayLog codec db (log.take n)).lookup key = some val := by
  rcases h n key (by simp [he, hget]) with ⟨val, hput⟩ | ⟨-, hmem⟩
  · refine ⟨val, ?_⟩
    intro db
    rw [replayLog, List.map_take, Command.lookup_applyAll, hput]
    rfl
  · exact absurd hmem Finmap.notMem_empty

lemma GetsLive.take {db : KvDb} {cmds : List Command} (h : GetsLive db cmds) (n : ℕ) :
    GetsLive db (cmds.take n) := by
  intro i key hi
  rw [List.getElem?_take] at hi
  split_ifs at hi with hlt
  rw [List.take_take, Nat.min_eq_left hlt.le]
  exact h i key hi

/-- A log that can be applied to the empty database. -/
lemma processEntries_empty {raft : RawNode σ} {log : List Entry} {s₀ s : Server σ}
    (hempty : s₀.kvDb = ∅) (h : (processEntries raft codec log).run s₀ = .ok () s) :
    (∀ e ∈ log, decode codec e = .ok (reference codec e)) ∧
      GetsLive ∅ (log.map (reference codec)) := by
  have hok := foldlM_applyEntry_iff.mp (processEntries_ok_iff.mp ⟨s, h⟩)
  rwa [hempty] at hok

/-- The server has applied these entries: as one batch, or in a run that cuts them into `Ready`s. -/
def HasApplied (raft : RawNode σ) (codec : Codec) (s₀ : Server σ) (es : List Entry)
    (s : Server σ) : Prop :=
  (processEntries raft codec es).run s₀ = .ok () s ∨ Processed raft codec s₀ es s

lemma HasApplied.kvDb_eq {raft : RawNode σ} {s₀ s : Server σ} {es : List Entry}
    (h : HasApplied raft codec s₀ es s) : s.kvDb = replayLog codec s₀.kvDb es := by
  rcases h with hbatch | hrun
  · exact processEntries_kvDb hbatch
  · exact hrun.kvDb_eq

/-- Every part of a log can be applied if its `get`s are live. -/
lemma GetsLive.exists_take (raft : RawNode σ) {log : List Entry} {s₀ : Server σ}
    (h : GetsLive s₀.kvDb (log.map (reference codec)))
    (hdecodes : ∀ e ∈ log, decode codec e = .ok (reference codec e)) (n : ℕ) :
    ∃ s, (processEntries raft codec (log.take n)).run s₀ = .ok () s := by
  refine processEntries_ok_iff.mpr (foldlM_applyEntry_iff.mpr ⟨?_, ?_⟩)
  · intro e he
    exact hdecodes e (List.mem_of_mem_take he)
  · rw [List.map_take]
    exact h.take n

/-- **A log can be replayed on top of a part of itself.**  Let `log` be applied to the end by a
server with an empty database.  Another server, on whatever raft node, had applied its first `m`
entries, from an empty database, when its process ended, and a peer is constructed on what it left.
Then `log` is applied to the end by the new peer and leaves the same database; and wherever its
`Ready`s cut the log, after the first `n` entries the next one does not end the process, a `get`
reads what it read the first time, and after the last one the database is the same. -/
theorem replay_after_restart {raft : RawNode σ} {raft' : RawNode σ'} {log : List Entry} {m : ℕ}
    {s₀ s : Server σ} (hempty : s₀.kvDb = ∅)
    (hfirst : (processEntries raft codec log).run s₀ = .ok () s)
    {t₀ t : Server σ'} (ht₀ : t₀.kvDb = ∅) (hleft : HasApplied raft' codec t₀ (log.take m) t)
    {peerOpt : PeerOption} {r₀ : Server σ'} (hnew : newPeer raft' peerOpt t.kvDb = .ok r₀.toPeer) :
    (∃ r, (processEntries raft' codec log).run r₀ = .ok () r ∧ r.kvDb = s.kvDb) ∧
      ∀ n r, HasApplied raft' codec r₀ (log.take n) r →
        (∀ e, log[n]? = some e → ∀ f, ¬ AbortsWith raft' codec e f r) ∧
        (∀ e key, log[n]? = some e → reference codec e = .get key → ∃ s₁ val,
          (processEntries raft codec (log.take n)).run s₀ = .ok () s₁ ∧
          DiskStorage.get s₁.kvDb key = .ok val ∧ DiskStorage.get r.kvDb key = .ok val) ∧
        (log.length ≤ n → r.kvDb = s.kvDb) := by
  obtain ⟨hdecodes, hgets⟩ := processEntries_empty hempty hfirst
  have hs : s.kvDb = replayLog codec ∅ log := by rw [processEntries_kvDb hfirst, hempty]
  have hr₀ : r₀.kvDb = replayLog codec ∅ (log.take m) := by
    rw [newPeer_kvDb hnew, hleft.kvDb_eq, ht₀]
  have hreplayed : replayLog codec r₀.kvDb log = s.kvDb := by
    rw [hs, hr₀, replayLog, replayLog, replayLog, List.map_take]
    exact Command.applyAll_applyAll_take ..
  constructor
  · obtain ⟨r, hr⟩ := (hgets.of_empty r₀.kvDb).exists_take raft' hdecodes log.length
    rw [List.take_length] at hr
    exact ⟨r, hr, by rw [processEntries_kvDb hr, hreplayed]⟩
  intro n r hr
  refine ⟨?_, ?_, ?_⟩
  · intro e he f haborts
    have hfinds : ∀ key, reference codec e = .get key → key ∈ r.kvDb := by
      intro key hget
      obtain ⟨val, hval⟩ := hgets.lookup_replayLog he hget
      rw [hr.kvDb_eq]
      exact Finmap.mem_of_lookup_eq_some (hval _)
    have happlied := applyEntry_ok_iff.mpr ⟨hdecodes e (List.mem_of_getElem? he), rfl, hfinds⟩
    rw [abortsWith_iff, happlied] at haborts
    cases haborts
  · intro e key he hget
    obtain ⟨val, hval⟩ := hgets.lookup_replayLog he hget
    obtain ⟨s₁, hs₁⟩ := (hgets.of_empty s₀.kvDb).exists_take raft hdecodes n
    refine ⟨s₁, val, hs₁, DiskStorage.get_of_lookup ?_, DiskStorage.get_of_lookup ?_⟩
    · rw [processEntries_kvDb hs₁]
      exact hval _
    · rw [hr.kvDb_eq]
      exact hval _
  · intro hn
    rw [hr.kvDb_eq, List.take_of_length_le hn, hreplayed]

/-- Options of a group of one host. -/
def soloOption : PeerOption :=
  { hostId := 1, peerId := 1, ip := ['a'], port := 10000, members := "1,1,a,10000".toList
    storage := some ⟨(.kOk, 0)⟩ }

/-- A key is put, read, and put again, and the process ends.  The database then has the second
value; the log, which reads the first one, is replayed on it. -/
theorem replay_after_restart_overwritten :
    let log := [requestEntry 1 (putRequest 7 9), requestEntry 2 (getRequest 7),
      requestEntry 3 (putRequest 7 8)]
    ∃ (s t : Server TrioNode) (peer : Peer TrioNode),
      (processEntries TrioNode.raft shortCodec log).run (trioServer 1) = .ok () s ∧
      HasApplied TrioNode.raft shortCodec (trioServer 2) (log.take 3) t ∧
      newPeer TrioNode.raft soloOption t.kvDb = .ok peer ∧ peer.kvDb.lookup [7] = some [8] ∧
      ∃ r, (processEntries TrioNode.raft shortCodec log).run { toPeer := peer } = .ok () r ∧
        r.kvDb = s.kvDb := by
  intro log
  have hfold : ∃ db, log.foldlM (applyEntry shortCodec) (trioServer 1).kvDb = .ok db :=
    ⟨Finmap.singleton [7] [8], by decide +kernel⟩
  obtain ⟨s, hfirst⟩ : ∃ s, (processEntries TrioNode.raft shortCodec log).run (trioServer 1)
      = .ok () s := processEntries_ok_iff.mpr hfold
  obtain ⟨h, t, run, hval⟩ := Machine.exists_run (M := serverMachine TrioNode.raft shortCodec)
    [appendEntries 1 0 log 3, tickConnected]
    (fun r => (entriesOf r.1, r.2.kvDb.lookup [7])) (s := trioServer 2)
    (b := (log.take 3, some [8])) (by decide +kernel)
  simp only [Prod.mk.injEq] at hval
  obtain ⟨hlog, hlookup⟩ := hval
  have hleft : HasApplied TrioNode.raft shortCodec (trioServer 2) (log.take 3) t :=
    Or.inr (hlog ▸ Processed.between run)
  have hmembers : initGroupMembers soloOption.members
      = .ok (Finmap.singleton 1 ⟨1, 1, ['a'], 10000⟩) := by decide
  obtain ⟨peer, hpeer⟩ : ∃ peer, newPeer TrioNode.raft soloOption t.kvDb = .ok peer :=
    ⟨_, newPeer_eq_ok.mpr ⟨_, _, hmembers, rfl, rfl, rfl⟩⟩
  let r₀ : Server TrioNode := { toPeer := peer }
  have hnew : newPeer TrioNode.raft soloOption t.kvDb = .ok r₀.toPeer := hpeer
  refine ⟨s, t, peer, hfirst, hleft, hpeer, ?_, (replay_after_restart rfl hfirst rfl hleft hnew).1⟩
  rw [newPeer_kvDb hpeer]
  exact hlookup

end Jkv
