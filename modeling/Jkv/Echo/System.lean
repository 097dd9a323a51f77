import Jkv.Cluster.Hosts
import Jkv.Echo.Client
import Jkv.Echo.Server

/-!
# Client programs and server programs

A client program makes one request, to one of the servers, and reports success or ends in an error.
Here the whole path is put together: the flags of a client, the request, the host it arrives at, the
raft group behind the hosts, the response, and the client's report.

`clients_linearizable` is about what clients report.  The committed log orders all clients that
report success: each has its own position in it, at which stands exactly the command its flags ask
for; a `get` was answered with what the commands before it leave at its key; and a client that was
started after another one had reported success comes after it.  Besides what Raft promises, jraft is
relied on to append every request it is given (`Record.Appends`).
-/

namespace Jkv

open Machine

variable {ι σ : Type}

/-- Call `d` at peer `a` was for this request: it was refused right away, or queued. -/
def AskedAs (h : List (ι × Record)) (a : ι) (d : Closure) (req : KvReq) : Prop :=
  (∃ r, (a, r) ∈ h ∧ r.refused? = some d) ∨ ∃ p, Submitted h a p req ∧ p.done = d

/-- A client with these flags has made call `d` at server `a`, has been answered with `cb`, and
reports success. -/
structure Success (connect : SockAddress → Bool) (h : List (ι × PeerId × Record))
    (hosts : ι → PeerHost σ) (a : ι) (flags : ClientFlags) (d : Closure) (cb : Callback) :
    Prop where
  reported : ∃ req report, flags.start connect = .ok (req, report) ∧
    AskedAs (recordsOf h) a d req ∧ ∃ text, report none cb.resp = .ok text
  ran : cb ∈ (hosts a).ran
  done : cb.done = d

/-- The servers were started for the first time, each with its own flags, to serve clients. -/
def FirstStart (raft : RawNode σ) (storage : MemoryStorage) (flags : ι → ServerFlags)
    (hosts : ι → PeerHost σ) : Prop :=
  ∀ a, (flags a).peerId = 1 ∧ startServer raft storage (fun _ => .ok ∅) (flags a) = .ok (hosts a)

variable {raft : RawNode σ} {codec : Codec} {storage : MemoryStorage} {hosts₀ : ι → PeerHost σ}

/-- Servers that were started for the first time are fresh. -/
lemma FirstStart.exists_servers {flags : ι → ServerFlags}
    (hstart : FirstStart raft storage flags hosts₀) : ∃ c₀ : ι → Server σ,
      ∀ a, Serves (hosts₀ a) (c₀ a) ∧ (c₀ a).Fresh ∧ (c₀ a).kvDb = ∅ := by
  have hserver : ∀ a, ∃ s : Server σ, Serves (hosts₀ a) s ∧ s.Fresh ∧ s.kvDb = ∅ := by
    intro a
    obtain ⟨hid, hstarted⟩ := hstart a
    obtain ⟨-, db, peer, hdisk, hnew, hhost⟩ := startServer_eq_ok.mp hstarted
    cases hdisk
    rw [hid] at hhost
    refine ⟨{ toPeer := peer }, ⟨?_, ?_, ?_⟩, ⟨?_, rfl, rfl⟩, newPeer_kvDb hnew⟩
    · rw [hhost]
      exact Finmap.lookup_insert _
    · rw [hhost]
      rfl
    · intro peerId hne
      rw [hhost]
      simp [Finmap.lookup_insert_of_ne _ hne]
    · obtain ⟨peers, storage, -, -, -, rfl⟩ := newPeer_eq_ok.mp hnew
      rfl
  choose c₀ hc₀ using hserver
  exact ⟨c₀, hc₀⟩

variable [DecidableEq ι]

/-- The position call `d` at peer `a` was given, if it was queued. -/
def position (h : List (ι × Record)) (a : ι) (d : Closure) : ℕ :=
  (((proposedOf (proj a h)).find? fun p => p.done = d).map fun p => p.index - 1).getD 0

section

variable {c₀ c : ι → Server σ} {h : List (ι × Record)} {a : ι} {d : Closure} {p : Proposal}
  {req : KvReq} {cb : Callback}

lemma position_eq (run : (cluster ι raft codec).Run c₀ h c) (hfresh : (c₀ a).Fresh)
    (hp : p ∈ proposedOf (proj a h)) : position h a p.done = p.index - 1 := by
  cases hfind : (proposedOf (proj a h)).find? (fun q => q.done = p.done) with
  | none =>
      have hne := List.find?_eq_none.mp hfind p hp
      simp at hne
  | some q =>
      have hdone : q.done = p.done := by simpa using List.find?_some hfind
      have hsame := proposed_inj run hfresh (List.mem_of_find?_eq_some hfind) hp hdone
      rw [position, hfind, hsame]
      rfl

/-- A call that was acknowledged was not refused. -/
lemma Acked.not_refused (run : (cluster ι raft codec).Run c₀ h c) (hfresh : (c₀ a).Fresh)
    (hack : Acked h c a p req cb) {r : Record} (hr : (a, r) ∈ h) : r.refused? ≠ some p.done := by
  intro hrefused
  have hnodup := LedgerSteps.closures_nodup (cluster_ledger run a) hfresh.calls
  have haccepted : p.done ∈ acceptedOf (proj a h) :=
    List.mem_map_of_mem hack.submitted.mem_proposedOf
  have hmem : p.done ∈ refusedOf (proj a h) :=
    List.mem_filterMap.mpr ⟨r, mem_proj.mpr hr, hrefused⟩
  exact List.disjoint_of_nodup_append hnodup haccepted hmem

/-- A call that was answered, and not rejected, was queued. -/
lemma AskedAs.acked (run : (cluster ι raft codec).Run c₀ h c) (hfresh : (c₀ a).Fresh)
    (hasked : AskedAs h a d req) (hcb : cb ∈ (c a).ran) (hdone : cb.done = d)
    (hacc : cb.resp.rejected = false) : ∃ p, p.done = d ∧ Acked h c a p req cb := by
  rcases hasked with ⟨r, hr, hrefused⟩ | ⟨p, hsub, hp⟩
  · obtain ⟨p, req', hack⟩ := exists_acked run hfresh hcb hacc
    rw [← hdone, hack.done] at hrefused
    exact absurd hrefused (hack.not_refused run hfresh hr)
  · exact ⟨p, hp, hsub, hcb, by rw [hdone, hp], hacc⟩

/-- A call that was made in the second part of a history, and acknowledged in the end, was queued in
the second part. -/
lemma AskedAs.later {h₁ h₂ : List (ι × Record)} {req' : KvReq}
    (run : (cluster ι raft codec).Run c₀ (h₁ ++ h₂) c) (hfresh : (c₀ a).Fresh)
    (hasked : AskedAs h₂ a p.done req') (hack : Acked (h₁ ++ h₂) c a p req cb) :
    Submitted h₂ a p req' ∧ Acked (h₁ ++ h₂) c a p req' cb := by
  rcases hasked with ⟨r, hr, hrefused⟩ | ⟨p', ⟨r, err, hr, hact⟩, hdone⟩
  · exact absurd hrefused (hack.not_refused run hfresh (List.mem_append_right _ hr))
  · have hsub : Submitted (h₁ ++ h₂) a p' req' := ⟨r, err, List.mem_append_right _ hr, hact⟩
    have hsame : p' = p :=
      proposed_inj run hfresh hsub.mem_proposedOf hack.submitted.mem_proposedOf hdone
    subst hsame
    exact ⟨⟨r, err, hr, hact⟩, hsub, hack.ran, hack.done, hack.accepted⟩

end

section

variable {hosts : ι → PeerHost σ} {h : List (ι × PeerId × Record)} {c₀ c : ι → Server σ}
  {connect : SockAddress → Bool} {a : ι} {flags : ClientFlags} {d : Closure} {cb : Callback}

/-- A client that reports success was queued for a request that stands for its flags, and was
acknowledged. -/
lemma Success.acked (hs : Success connect h hosts a flags d cb)
    (run : (cluster ι raft codec).Run c₀ (recordsOf h) c) (hserves : Serves (hosts a) (c a))
    (hfresh : (c₀ a).Fresh) : ∃ p req, p.done = d ∧ Acked (recordsOf h) c a p req cb ∧
      commandOf req = .ok flags.command ∧
      ∀ key, flags.command = .get key → req.cmdType = kGet ∧ req.get.key = key := by
  obtain ⟨req, report, hstart, hasked, text, hreport⟩ := hs.reported
  obtain ⟨-, hcommand, -, hget, hcallback⟩ := ClientFlags.start_eq_ok hstart
  have hran : cb ∈ (c a).ran := hserves.ran_eq ▸ hs.ran
  obtain ⟨p, hp, hack⟩ := hasked.acked run hfresh hran hs.done (hcallback _ _ _ hreport).2
  exact ⟨p, req, hp, hack, hcommand, hget⟩

end

/-- **What clients report is linearizable.**  The servers were started for the first time and have
answered calls, in any order, to the state `hosts`, and `Propose` has refused none of the requests
it was given.  There is an order of all calls, given by positions in the committed log, such that
for all clients that report success: at the client's position stands the command its flags ask for,
and a `get` was answered with what the commands before it leave at its key; no two clients have one
position; and a client that made its call after another one had reported success comes after it. -/
theorem clients_linearizable {flags : ι → ServerFlags} {log : List Entry}
    {connect : SockAddress → Bool} {h : List (ι × PeerId × Record)} {hosts : ι → PeerHost σ}
    (hstart : FirstStart raft storage flags hosts₀)
    (run : ((peersMachine raft codec).interleave ι).Run hosts₀ h hosts)
    (hj : Jraft log (recordsOf h)) (happ : ∀ x ∈ recordsOf h, x.2.Appends codec) :
    ∃ pos : ι → Closure → ℕ,
      (∀ a cf d cb, Success connect h hosts a cf d cb →
        (∃ e, log[pos a d]? = some e ∧ reference codec e = cf.command) ∧
        ∀ key, cf.command = .get key → ∃ val, cb.resp.getResp = some ⟨val⟩ ∧
          (replayLog codec ∅ (log.take (pos a d))).lookup key = some val) ∧
      (∀ a b cf cf' d d' cb cb', Success connect h hosts a cf d cb →
        Success connect h hosts b cf' d' cb' → pos a d = pos b d' → a = b ∧ d = d') ∧
      (∀ h₁ h₂ hosts₁ a b cf cf' d d' cb cb' req', h = h₁ ++ h₂ →
        ((peersMachine raft codec).interleave ι).Run hosts₀ h₁ hosts₁ →
        Success connect h₁ hosts₁ a cf d cb → AskedAs (recordsOf h₂) b d' req' →
        Success connect h hosts b cf' d' cb' → pos a d < pos b d') := by
  obtain ⟨c₀, hc₀⟩ := hstart.exists_servers
  have hfresh : ∀ a, (c₀ a).Fresh := fun a => (hc₀ a).2.1
  obtain ⟨c, runc, hserves⟩ := hosts_refine_cluster run fun a => (hc₀ a).1
  refine ⟨position (recordsOf h), ?_, ?_, ?_⟩
  · intro a cf d cb hs
    obtain ⟨p, req, rfl, hack, hcommand, hget⟩ := hs.acked runc (hserves a) (hfresh a)
    obtain ⟨hpos, hlog⟩ := hack.committed runc (hfresh a) hj happ
    rw [position_eq runc (hfresh a) hack.submitted.mem_proposedOf]
    refine ⟨⟨_, hlog, ?_⟩, ?_⟩
    · refine reference_of_decode ?_
      rw [decode_normal rfl (hack.submitted.parse_entry runc), hcommand]
    · intro key hkey
      obtain ⟨htype, rfl⟩ := hget key hkey
      have hvalue := hack.get_value runc (hfresh a) hj happ htype
      rwa [(hc₀ a).2.2] at hvalue
  · intro a b cf cf' d d' cb cb' hs hs' hposition
    obtain ⟨p, req, rfl, hack, -, -⟩ := hs.acked runc (hserves a) (hfresh a)
    obtain ⟨p', req', rfl, hack', -, -⟩ := hs'.acked runc (hserves b) (hfresh b)
    have hpos := (hack.committed runc (hfresh a) hj happ).1
    have hpos' := (hack'.committed runc (hfresh b) hj happ).1
    rw [position_eq runc (hfresh a) hack.submitted.mem_proposedOf,
      position_eq runc (hfresh b) hack'.submitted.mem_proposedOf] at hposition
    obtain ⟨rfl, rfl⟩ := hack.position_inj runc hfresh hj happ hack' (by omega)
    exact ⟨rfl, rfl⟩
  · rintro h₁ h₂ hosts₁ a b cf cf' d d' cb cb' req' rfl run₁ hs hasked hs'
    obtain ⟨c₁, runc₁, hserves₁⟩ := hosts_refine_cluster run₁ fun a => (hc₀ a).1
    have happend : recordsOf (h₁ ++ h₂) = recordsOf h₁ ++ recordsOf h₂ := List.map_append
    obtain ⟨p, req, rfl, hack, -, -⟩ := hs.acked runc₁ (hserves₁ a) (hfresh a)
    obtain ⟨p', req'', rfl, hack', -, -⟩ := hs'.acked runc (hserves b) (hfresh b)
    rw [happend] at runc hj happ hack' ⊢
    obtain ⟨hsub, hlater⟩ := hasked.later runc (hfresh b) hack'
    have hlt := hack.real_time runc runc₁ hfresh hj happ hsub hlater
    have hpos := (hlater.committed runc (hfresh b) hj happ).1
    have hmem : p ∈ proposedOf (proj a (recordsOf h₁ ++ recordsOf h₂)) := by
      rw [proj_append, proposedOf_append]
      exact List.mem_append_left _ hack.submitted.mem_proposedOf
    rw [position_eq runc (hfresh a) hmem,
      position_eq runc (hfresh b) hlater.submitted.mem_proposedOf]
    have hfirst := hack.submitted
    obtain ⟨r, err, hr, hact, hq⟩ := hfirst.record runc₁
    have hindex := hq.index
    omega

/-! ## Three servers and two clients -/

/-- The flags of one of three servers. -/
def echoFlags (a : Fin 3) : ServerFlags :=
  { hostId := a.val + 1, peerId := 1, port := 10000
    members := "1,1,a,10000|2,1,b,10001|3,1,c,10002".toList }

/-- Its peer. -/
def echoPeer (a : Fin 3) : Peer TrioNode :=
  { self := ⟨a.val + 1, 1, "127.0.0.1".toList, 10000⟩, peers := trioTable
    rawNode := { id := a.val + 1 }, kvDb := ∅ }

/-- The server when it has been started. -/
def echoHost (a : Fin 3) : PeerHost TrioNode :=
  { hostOpt := ⟨a.val + 1⟩, localPeers := Finmap.insert 1 (echoPeer a) ∅ }

lemma echo_firstStart : FirstStart TrioNode.raft ⟨(.kOk, 0)⟩ echoFlags echoHost := by
  intro a
  have htexts : "127.0.0.1".toList ≠ [] ∧ "1,1,a,10000|2,1,b,10001|3,1,c,10002".toList ≠ [] ∧
      "info".toList ≠ [] ∧ "./host".toList ≠ [] := by decide
  have hmembers : initGroupMembers "1,1,a,10000|2,1,b,10001|3,1,c,10002".toList
      = .ok trioTable := by decide
  have hid : a.val + 1 ≠ 0 := by omega
  have haccepted : (echoFlags a).Accepted :=
    ⟨hid, one_ne_zero, htexts.1, ⟨by show 1024 ≤ 10000; omega, by show 10000 ≤ 65535; omega⟩,
      htexts.2.1, htexts.2.2.1, htexts.2.2.2⟩
  have hpeer : newPeer TrioNode.raft ((echoFlags a).peerOption ⟨(.kOk, 0)⟩) ∅
      = .ok (echoPeer a) := newPeer_eq_ok.mpr ⟨trioTable, _, hmembers, rfl, rfl, rfl⟩
  exact ⟨rfl, startServer_eq_ok.mpr ⟨haccepted, ∅, echoPeer a, rfl, hpeer, rfl⟩⟩

/-- A call of the event loop of a server, as a call that reaches its host. -/
def forHost (a : Fin 3) : Event → Fin 3 × HostEvent
  | .step msg => (a, .raftMsg ⟨⟨msg.fromId, 1⟩, ⟨a.val + 1, 1⟩, msg⟩)
  | .kvOp req => (a, .kvOp req)
  | .tick connect => (a, .tick 1 connect)

/-- A client puts a value through the leader of term 1, and another client reads it back through
the leader of term 2. -/
theorem clients_linearizable_put_get :
    let log : List Entry := [⟨1, 1, .kEntryNormal, []⟩, (Proposal.mk 2 1 {} 0).entry shortCodec
      (putRequest 7 9), ⟨2, 3, .kEntryNormal, []⟩, (Proposal.mk 4 2 {} 0).entry shortCodec
      (getRequest 7)]
    let putFlags : ClientFlags := { port := 10000, opType := "put".toList, key := [7], val := [9] }
    let getFlags : ClientFlags := { port := 10000, opType := "get".toList, key := [7] }
    ∃ h hosts, ((peersMachine TrioNode.raft shortCodec).interleave (Fin 3)).Run echoHost h hosts ∧
      Success (fun _ => true) h hosts 0 putFlags 0 ⟨0, {}⟩ ∧
      Success (fun _ => true) h hosts 1 getFlags 0 ⟨0, { getResp := some ⟨[9]⟩ }⟩ ∧
      ∃ pos : Fin 3 → Closure → ℕ, pos 0 0 ≠ pos 1 0 ∧
        (∃ e, log[pos 0 0]? = some e ∧ reference shortCodec e = .put [7] [9]) ∧
        (replayLog shortCodec ∅ (log.take (pos 1 0))).lookup [7] = some [9] := by
  intro log putFlags getFlags
  obtain ⟨h, hosts, run, hval⟩ := Machine.exists_run
    (M := (peersMachine TrioNode.raft shortCodec).interleave (Fin 3))
    ((elect 1 ++ [Event.kvOp (putRequest 7 9)]).map (forHost 0) ++
      [forHost 1 (appendEntries 1 0 (log.take 2) 0), forHost 0 (acknowledge 1 2),
        forHost 0 tickConnected, forHost 1 (appendEntries 1 2 [] 2), forHost 1 tickConnected] ++
      (elect 2 ++ [Event.kvOp (getRequest 7)]).map (forHost 1) ++
      [forHost 2 (appendEntries 2 0 log 0), forHost 1 (acknowledge 2 4), forHost 1 tickConnected])
    (fun r => decide (Jraft log (recordsOf r.1)) &&
      decide (∀ x ∈ recordsOf r.1, x.2.Appends shortCodec) &&
      decide ((r.2 0).ran = [⟨0, {}⟩]) &&
      decide ((r.2 1).ran = [⟨0, { getResp := some ⟨[9]⟩ }⟩]) &&
      decide (submissions (recordsOf r.1)
        = [(0, ⟨2, 1, {}, 0⟩, putRequest 7 9), (1, ⟨4, 2, {}, 0⟩, getRequest 7)]))
    (s := echoHost) (b := true) (by decide +kernel)
  simp only [Bool.and_eq_true, decide_eq_true_eq] at hval
  obtain ⟨⟨⟨⟨hj, happ⟩, hput⟩, hget⟩, hsubs⟩ := hval
  have hputSub : Submitted (recordsOf h) 0 ⟨2, 1, {}, 0⟩ (putRequest 7 9) :=
    submitted_of_mem (by rw [hsubs]; simp)
  have hgetSub : Submitted (recordsOf h) 1 ⟨4, 2, {}, 0⟩ (getRequest 7) :=
    submitted_of_mem (by rw [hsubs]; simp)
  have hputs : Success (fun _ => true) h hosts 0 putFlags 0 ⟨0, {}⟩ :=
    ⟨⟨putRequest 7 9, KvClient.putCb, rfl, Or.inr ⟨_, hputSub, rfl⟩, _, rfl⟩,
      by rw [hput]; exact List.mem_singleton_self _, rfl⟩
  have hgets : Success (fun _ => true) h hosts 1 getFlags 0 ⟨0, { getResp := some ⟨[9]⟩ }⟩ :=
    ⟨⟨getRequest 7, KvClient.getCb, rfl, Or.inr ⟨_, hgetSub, rfl⟩, _, rfl⟩,
      by rw [hget]; exact List.mem_singleton_self _, rfl⟩
  obtain ⟨pos, hat, hinj, -⟩ := clients_linearizable echo_firstStart run hj happ
  obtain ⟨val, hresp, hvalue⟩ := (hat 1 _ 0 _ hgets).2 [7] rfl
  cases hresp
  refine ⟨h, hosts, run, hputs, hgets, pos, ?_, (hat 0 _ 0 _ hputs).1, hvalue⟩
  intro heq
  exact absurd (hinj 0 1 _ _ 0 0 _ _ hputs hgets heq).1 (by decide)

end Jkv
