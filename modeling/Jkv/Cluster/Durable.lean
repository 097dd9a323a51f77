import Jkv.Cluster.Linearizability
import Jkv.Server.Lifecycle

/-!
# Acknowledged writes are durable

An acknowledged request is in the committed log, and a database is never anything but the log,
applied from some entry on.  So a write that was acknowledged is on the disk of every peer that has
come past its entry: of the members of the group at work, of a peer whose process has just ended,
and of a peer that was constructed again on whatever its earlier lives have left
(`acked_write_durable`).  Besides what Raft promises, jraft is relied on to append every request it
is given (`Record.Appends`); where it refuses one, the client may be told otherwise
(`Jkv/Cluster/Dropped.lean`).
-/

namespace Jkv

open Machine

variable {ι σ σ' : Type} [DecidableEq ι] {raft : RawNode σ} {raft' : RawNode σ'} {codec : Codec}
  {log : List Entry} {c₀ c : ι → Server σ} {h : List (ι × Record)} {a : ι} {p : Proposal}
  {req : KvReq} {cb : Callback} {key : Bytes} {db : KvDb} {n : ℕ}

/-- A database that has come past an entry has what the entry wrote, until the key is written
again. -/
lemma lookup_replayLog_of_write {i : ℕ} {e : Entry} {val : Option Bytes} (he : log[i]? = some e)
    (hn : i < n) (hwrite : (reference codec e).write key = some val)
    (hlater : ∀ e ∈ (log.take n).drop (i + 1), (reference codec e).write key = none) :
    (replayLog codec db (log.take n)).lookup key = val := by
  have hlen : i < (log.take n).length := by
    have hlog := (List.getElem?_eq_some_iff.mp he).1
    rw [List.length_take]
    omega
  have hget : (log.take n)[i] = e := by
    rw [List.getElem_take]
    exact (List.getElem?_eq_some_iff.mp he).2
  have hsplit : log.take n = (log.take n).take i ++ [e] ++ (log.take n).drop (i + 1) := by
    rw [← hget, List.append_assoc, List.singleton_append, ← List.drop_eq_getElem_cons hlen,
      List.take_append_drop]
  have hnone : Command.lastWrite key (((log.take n).drop (i + 1)).map (reference codec))
      = none := by
    rw [Command.lastWrite, List.findSome?_eq_none_iff]
    intro cmd hcmd
    obtain ⟨e', he', rfl⟩ := List.mem_map.mp (List.mem_reverse.mp hcmd)
    exact hlater e' he'
  rw [hsplit, replayLog_append, replayLog_append, replayLog, Command.lookup_applyAll, hnone]
  show ((reference codec e).apply _).lookup key = val
  rw [Command.lookup_apply, hwrite]
  rfl

/-- **An acknowledged write is durable.**  A request was acknowledged somewhere in a group, whose
`Propose` refuses nothing.  Any peer, on whatever raft node and from whatever database it was
started, whose process has come past the entry of the request in the committed log, between two
calls or inside a tick, has on its disk what the request wrote, as long as no entry since has
written the key. -/
theorem acked_write_durable (run : (cluster ι raft codec).Run c₀ h c) (hfresh : ∀ a, (c₀ a).Fresh)
    (hj : Jraft log h) (happ : ∀ x ∈ h, x.2.Appends codec) (hack : Acked h c a p req cb)
    {s₀ r : Server σ'} (hr : Processed raft' codec s₀ (log.take n) r) (hn : p.index ≤ n)
    (hlater : ∀ e ∈ (log.take n).drop p.index, (reference codec e).write key = none) :
    (req.cmdType = kPut → req.put.key = key →
      DiskStorage.get r.kvDb key = .ok req.put.value) ∧
    (req.cmdType = kDel → req.del.key = key →
      DiskStorage.get r.kvDb key = .error (.dbGet "NotFound: ")) := by
  obtain ⟨hpos, hlog⟩ := hack.committed run (hfresh a) hj happ
  have hindex : p.index - 1 + 1 = p.index := Nat.sub_add_cancel hpos
  have hparse := hack.submitted.parse_entry run
  have hwritten : ∀ {val : Option Bytes},
      (reference codec (p.entry codec req)).write key = some val → r.kvDb.lookup key = val := by
    intro val hwrite
    rw [hr.kvDb_eq]
    refine lookup_replayLog_of_write hlog (by omega) hwrite ?_
    rw [hindex]
    exact hlater
  refine ⟨?_, ?_⟩
  · intro hput hkey
    have hdecode : decode codec (p.entry codec req) = .ok (.put req.put.key req.put.value) := by
      rw [decode_normal rfl hparse, commandOf, hput]
      rfl
    refine DiskStorage.get_of_lookup (hwritten ?_)
    rw [reference_of_decode hdecode, Command.write, if_pos hkey]
  · intro hdel hkey
    have hdecode : decode codec (p.entry codec req) = .ok (.del req.del.key) := by
      rw [decode_normal rfl hparse, commandOf, hdel]
      rfl
    refine DiskStorage.get_of_absent (hwritten ?_)
    rw [reference_of_decode hdecode, Command.write, if_pos hkey]

/-- A `put` is acknowledged by the leader of term 1.  A peer that has an older value of the key on
its disk is constructed again, and comes past the entry. -/
theorem acked_write_durable_restarted :
    let log : List Entry := [⟨1, 1, .kEntryNormal, []⟩, (Proposal.mk 2 1 {} 0).entry shortCodec
      (putRequest 7 9)]
    ∃ h c r, (cluster ℕ TrioNode.raft shortCodec).Run trioServer h c ∧
      Acked h c 1 ⟨2, 1, {}, 0⟩ (putRequest 7 9) ⟨0, {}⟩ ∧
      Processed TrioNode.raft shortCodec { toPeer := soloPeer (Finmap.singleton [7] [5]) }
        (log.take 2) r ∧
      DiskStorage.get r.kvDb [7] = .ok [9] := by
  intro log
  obtain ⟨h, c, run, hval⟩ := Machine.exists_run (M := cluster ℕ TrioNode.raft shortCodec)
    ((elect 1).map (Prod.mk 1) ++ [(1, .kvOp (putRequest 7 9)), (2, appendEntries 1 0 log 0),
      (1, acknowledge 1 2), (1, tickConnected)])
    (fun r => decide (Jraft log r.1) && decide (∀ x ∈ r.1, x.2.Appends shortCodec) &&
      decide ((r.2 1).ran = [⟨0, {}⟩]) &&
      decide (submissions r.1 = [(1, ⟨2, 1, {}, 0⟩, putRequest 7 9)]))
    (s := trioServer) (b := true) (by decide +kernel)
  simp only [Bool.and_eq_true, decide_eq_true_eq] at hval
  obtain ⟨⟨⟨hj, happ⟩, hran⟩, hsubs⟩ := hval
  have hsub : Submitted h 1 ⟨2, 1, {}, 0⟩ (putRequest 7 9) :=
    submitted_of_mem (by rw [hsubs]; exact List.mem_singleton_self _)
  have hack : Acked h c 1 ⟨2, 1, {}, 0⟩ (putRequest 7 9) ⟨0, {}⟩ :=
    ⟨hsub, by rw [hran]; exact List.mem_singleton_self _, rfl, rfl⟩
  obtain ⟨r, -, hr⟩ := exists_processed_solo log 2 (Finmap.singleton [7] [5])
    (Finmap.singleton [7] [9]) (by decide +kernel)
  have hlater : ∀ e ∈ (log.take 2).drop 2, (reference shortCodec e).write [7] = none := by
    intro e he
    cases he
  exact ⟨h, c, r, run, hack, hr,
    (acked_write_durable run trioServer_fresh hj happ hack hr le_rfl hlater).1 rfl rfl⟩

end Jkv
