import Jkv.Server.Replica

/-!
# Which workloads a replica survives

A committed entry is applied by every replica, a `get` as well as a `put`, and `DiskStorage::Get`
ends the process when the key is not there.  So a batch of well-formed client requests is processed
to the end exactly when every `get` in it finds its key: the last write to the key before it was a
`put`, or there was none and the database had the key from the start (`servesWorkload_iff`).
-/

namespace Jkv

variable {σ : Type}

/-- The entry holds a request for one of the three commands, with the part the command needs. -/
def ClientEntry (codec : Codec) (e : Entry) : Prop :=
  e.type = .kEntryNormal ∧ ∃ req, codec.parse e.data = some req ∧
    (req.cmdType = kGet ∧ req.getReq.isSome ∨ req.cmdType = kPut ∧ req.putReq.isSome ∨
      req.cmdType = kDel ∧ req.delReq.isSome)

/-- The batch is processed to the end, and a client waiting for a `get` of an absent key is
answered. -/
def ServesWorkload (raft : RawNode σ) (codec : Codec) (s : Server σ) (es : List Entry) : Prop :=
  ∃ s', (processEntries raft codec es).run s = .ok () s' ∧
    ∀ es₁ e es₂ s₁ key p, es = es₁ ++ e :: es₂ → (processEntries raft codec es₁).run s = .ok () s₁ →
      reference codec e = .get key → key ∉ s₁.kvDb →
      (popFor (raft.isLeader s₁.rawNode) e s₁.proposals).found = some p →
      ∃ cb ∈ s'.ran, cb.done = p.done

/-- A key is there after a history if its last write was a `put`, or if it has not been written and
was there before. -/
def Live (db : KvDb) (cmds : List Command) (key : Bytes) : Prop :=
  (∃ val, Command.lastWrite key cmds = some (some val)) ∨
    Command.lastWrite key cmds = none ∧ key ∈ db

/-- Every `get` of a log reads a key that is there. -/
def GetsLive (db : KvDb) (cmds : List Command) : Prop :=
  ∀ i key, cmds[i]? = some (.get key) → Live db (cmds.take i) key

lemma live_iff {db : KvDb} {cmds : List Command} {key : Bytes} :
    Live db cmds key ↔ key ∈ Command.applyAll db cmds := by
  rw [Finmap.mem_iff, Command.lookup_applyAll, Live, Finmap.mem_iff]
  rcases Command.lastWrite key cmds with _ | _ | val <;> simp

/-- The whole batch, as the database sees it. -/
lemma processEntries_ok_iff {raft : RawNode σ} {codec : Codec} {es : List Entry} {s : Server σ} :
    (∃ s', (processEntries raft codec es).run s = .ok () s') ↔
      ∃ db, es.foldlM (applyEntry codec) s.kvDb = .ok db := by
  induction es generalizing s with
  | nil => exact ⟨fun _ => ⟨s.kvDb, rfl⟩, fun _ => ⟨s, rfl⟩⟩
  | cons e es ih =>
      rw [run_processEntries_cons, run_processEntry, List.foldlM_cons]
      dsimp only
      cases applyEntry codec s.kvDb e with
      | error f =>
          constructor
          · rintro ⟨s', hs'⟩; cases hs'
          · rintro ⟨db, hdb⟩; cases hdb
      | ok db => exact ih

/-- A client's entry decodes to the command it stands for. -/
lemma ClientEntry.decode_eq {codec : Codec} {e : Entry} (h : ClientEntry codec e) :
    decode codec e = .ok (reference codec e) := by
  obtain ⟨htype, req, hparse, hreq⟩ := h
  have hop : req.IsOperation := hreq.imp And.left (Or.imp And.left And.left)
  obtain ⟨cmd, hcmd, -⟩ := hop.commandOf_eq
  have hdecode : decode codec e = .ok cmd := by rw [decode_normal htype hparse, hcmd]
  rw [hdecode, reference_of_decode hdecode]

lemma getsLive_cons {db : KvDb} {cmd : Command} {cmds : List Command} :
    GetsLive db (cmd :: cmds) ↔ (∀ key, cmd = .get key → key ∈ db) ∧
      GetsLive (cmd.apply db) cmds := by
  simp only [GetsLive, live_iff]
  constructor
  · intro hgets
    refine ⟨?_, ?_⟩
    · intro key hget
      simpa using hgets 0 key (by simp [hget])
    · intro i key hi
      exact hgets (i + 1) key (by simpa using hi)
  · rintro ⟨hhead, htail⟩ i key hi
    cases i with
    | zero => simpa using hhead key (by simpa using hi)
    | succ i => exact htail i key (by simpa using hi)

/-- A batch is applied when every entry can be read and no `get` misses its key. -/
lemma foldlM_applyEntry_iff {codec : Codec} {es : List Entry} {db : KvDb} :
    (∃ db', es.foldlM (applyEntry codec) db = .ok db') ↔
      (∀ e ∈ es, decode codec e = .ok (reference codec e)) ∧
        GetsLive db (es.map (reference codec)) := by
  induction es generalizing db with
  | nil =>
      constructor
      · intro _
        refine ⟨fun e he => absurd he List.not_mem_nil, ?_⟩
        intro i key hi
        simp at hi
      · intro _
        exact ⟨db, rfl⟩
  | cons e es ih =>
      rw [List.foldlM_cons, List.map_cons, getsLive_cons, List.forall_mem_cons]
      cases hentry : applyEntry codec db e with
      | error f =>
          constructor
          · rintro ⟨db', hdb'⟩; cases hdb'
          · rintro ⟨⟨hdecode, -⟩, hhead, -⟩
            rw [applyEntry_ok_iff.mpr ⟨hdecode, rfl, hhead⟩] at hentry
            cases hentry
      | ok db₁ =>
          obtain ⟨hdecode, rfl, hhead⟩ := applyEntry_ok_iff.mp hentry
          refine (@ih ((reference codec e).apply db)).trans ⟨?_, ?_⟩
          · rintro ⟨hdecodes, hgets⟩
            exact ⟨⟨hdecode, hdecodes⟩, hhead, hgets⟩
          · rintro ⟨⟨-, hdecodes⟩, -, hgets⟩
            exact ⟨hdecodes, hgets⟩

/-- What was processed before an entry decides what the entry finds. -/
lemma processEntries_kvDb {raft : RawNode σ} {codec : Codec} {es : List Entry} {s s' : Server σ}
    (h : (processEntries raft codec es).run s = .ok () s') :
    s'.kvDb = replayLog codec s.kvDb es := by
  have hdb := LedgerSteps.kvDb_eq (processEntries_ledger h).2
  rwa [entriesOf_deliveries] at hdb

/-- **A workload is served exactly when its `get`s are live.** -/
theorem servesWorkload_iff {raft : RawNode σ} {codec : Codec} {s : Server σ} {es : List Entry}
    (hes : ∀ e ∈ es, ClientEntry codec e) :
    ServesWorkload raft codec s es ↔ GetsLive s.kvDb (es.map (reference codec)) := by
  have hlive : (∃ s', (processEntries raft codec es).run s = .ok () s') ↔
      GetsLive s.kvDb (es.map (reference codec)) := by
    rw [processEntries_ok_iff, foldlM_applyEntry_iff]
    exact and_iff_right fun e he => (hes e he).decode_eq
  constructor
  · rintro ⟨s', hs', -⟩
    exact hlive.mp ⟨s', hs'⟩
  · intro hgets
    obtain ⟨s', hs'⟩ := hlive.mpr hgets
    refine ⟨s', hs', ?_⟩
    intro es₁ e es₂ s₁ key p hsplit hs₁ hget habsent
    -- the key of a `get` is there, so nobody waits for an absent one
    have hpresent := hgets es₁.length key (by simp [hsplit, hget])
    rw [live_iff, hsplit, List.map_append, List.take_append_of_le_length (by simp),
      List.take_of_length_le (by simp)] at hpresent
    rw [processEntries_kvDb hs₁] at habsent
    exact absurd hpresent habsent

/-- An entry that asks for `req`. -/
def requestEntry (index : ℕ) (req : KvReq) : Entry :=
  ⟨1, index, .kEntryNormal, (shortCodec.serialize req).getD []⟩

lemma requestEntry_client (index : ℕ) (req : KvReq)
    (h : req = putRequest 7 9 ∨ req = getRequest 7 ∨ req = delRequest 7) :
    ClientEntry shortCodec (requestEntry index req) := by
  rcases h with rfl | rfl | rfl
  · exact ⟨rfl, putRequest 7 9, rfl, by decide⟩
  · exact ⟨rfl, getRequest 7, rfl, by decide⟩
  · exact ⟨rfl, delRequest 7, rfl, by decide⟩

/-- A key that is put, read, and deleted. -/
theorem servesWorkload_put_get_del :
    ServesWorkload TrioNode.raft shortCodec (trioServer 1)
      [requestEntry 1 (putRequest 7 9), requestEntry 2 (getRequest 7),
        requestEntry 3 (delRequest 7)] := by
  refine (servesWorkload_iff ?_).mpr ?_
  · intro e he
    simp only [List.mem_cons, List.not_mem_nil, or_false] at he
    rcases he with rfl | rfl | rfl <;> exact requestEntry_client _ _ (by decide)
  · have hcmds : [requestEntry 1 (putRequest 7 9), requestEntry 2 (getRequest 7),
        requestEntry 3 (delRequest 7)].map (reference shortCodec)
          = [.put [7] [9], .get [7], .del [7]] := by decide
    rw [hcmds]
    intro i key hi
    rcases i with _ | _ | _ | i
    · simp at hi
    · cases hi
      exact Or.inl ⟨[9], by decide⟩
    · simp at hi
    · simp at hi

/-- The client script: `put`, `get`, `del`, and `get` again.  Every replica ends on the last one. -/
theorem not_servesWorkload_get_after_del :
    ¬ ∀ es : List Entry, (∀ e ∈ es, ClientEntry shortCodec e) →
      ServesWorkload TrioNode.raft shortCodec (trioServer 1) es := by
  intro hall
  have hserves := hall [requestEntry 1 (putRequest 7 9), requestEntry 2 (getRequest 7),
    requestEntry 3 (delRequest 7), requestEntry 4 (getRequest 7)] (by
      intro e he
      simp only [List.mem_cons, List.not_mem_nil, or_false] at he
      rcases he with rfl | rfl | rfl | rfl <;> exact requestEntry_client _ _ (by decide))
  obtain ⟨s', hs', -⟩ := hserves
  obtain ⟨db, hdb⟩ := processEntries_ok_iff.mp ⟨s', hs'⟩
  have hmissing : [requestEntry 1 (putRequest 7 9), requestEntry 2 (getRequest 7),
      requestEntry 3 (delRequest 7), requestEntry 4 (getRequest 7)].foldlM (applyEntry shortCodec)
        (trioServer 1).kvDb = .error (.dbGet "NotFound: ") := by decide +kernel
  rw [hmissing] at hdb
  cases hdb

end Jkv
