import Jkv.Server.Restart

/-!
# Crashes and restarts, any number of them

A call that ends the process leaves the database behind, and so does a process that is killed.  What
is left is always the log applied up to some entry, with nothing of the next one
(`crash_consistent`).

A *life* of a peer starts on the database the life before has left, and replays the committed log
from its first entry on.  It may end before it comes to where an earlier life had been, so the
database of the next one need not be a state the log ever had.  Two facts survive all of this
(`Covered`): replaying as many entries as any life has seen gives what they give from the empty
database, and all these entries can be applied from the empty database.  So two replicas agree
however often either of them was restarted (`restarts_agree`), and an entry that ends one life ends
every life that comes to it (`fatal_entry_final`).

None of this holds across a cold start of the whole group: the log is gone, the databases are not.
`cold_start_iff` says what is left of agreement then.
-/

namespace Jkv

variable {σ σ' : Type} {raft : RawNode σ} {raft' : RawNode σ'} {codec : Codec}

/-! ## What has been processed has been applied -/

lemma LedgerStep.applied {l l' : Ledger} {r : Record} (h : LedgerStep codec l r l') :
    (entriesOf [r]).foldlM (applyEntry codec) l.kvDb = .ok l'.kvDb := by
  cases h with
  | refused _ => rfl
  | proposed _ _ _ => rfl
  | stepped => rfl
  | ticked => rfl
  | delivered hdb _ =>
      show (applyEntry codec l.kvDb _ >>= fun db => pure db) = _
      rw [hdb]
      rfl

lemma LedgerSteps.applied {l l' : Ledger} {h : List Record} (hs : LedgerSteps codec l h l') :
    (entriesOf h).foldlM (applyEntry codec) l.kvDb = .ok l'.kvDb := by
  induction hs with
  | nil => rfl
  | snoc _ hstep ih =>
      rw [entriesOf_append, List.foldlM_append, ih]
      exact hstep.applied

lemma processEntries_applied {es : List Entry} {s s' : Server σ}
    (h : (processEntries raft codec es).run s = .ok () s') :
    es.foldlM (applyEntry codec) s.kvDb = .ok s'.kvDb := by
  have happlied := LedgerSteps.applied (processEntries_ledger h).2
  rwa [entriesOf_deliveries] at happlied

lemma Processed.applied {s₀ s : Server σ} {log : List Entry}
    (h : Processed raft codec s₀ log s) :
    log.foldlM (applyEntry codec) s₀.kvDb = .ok s.kvDb := by
  cases h with
  | between run => exact LedgerSteps.applied (run_ledger run)
  | @inTick h s₁ s₂ _ connect es rest run hstart hprocess =>
      have hrun : (entriesOf h).foldlM (applyEntry codec) s₀.kvDb = .ok s₁.kvDb :=
        LedgerSteps.applied (run_ledger run)
      have hdb : s₂.kvDb = s₁.kvDb := congrArg Ledger.kvDb (startTick_ok hstart).2.2
      have hbatch := processEntries_applied hprocess
      rw [hdb] at hbatch
      rw [List.foldlM_append, hrun]
      exact hbatch

/-! ## A call that ends the process -/

/-- The committed entries a call has to process. -/
def Event.entries (raft : RawNode σ) (node : σ) : Event → List Entry
  | .tick _ => (readyAt raft node).2
  | _ => []

/-- A batch that ends the process has been applied up to the entry it ends on. -/
lemma processEntries_error {es : List Entry} {s s' : Server σ} {f : Fatal}
    (h : (processEntries raft codec es).run s = .error f s') : ∃ es₁ e es₂,
      es = es₁ ++ e :: es₂ ∧ s'.kvDb = replayLog codec s.kvDb es₁ ∧
        applyEntry codec s'.kvDb e = .error f := by
  obtain ⟨es₁, e, es₂, s₁, rfl, hok, hentry⟩ := forM_error_split h
  have haborts : applyEntry codec s₁.kvDb e = .error f := abortsWith_iff.mp ⟨s', hentry⟩
  have hdb : s'.kvDb = s₁.kvDb := by
    rw [run_processEntry] at hentry
    dsimp only at hentry
    rw [haborts] at hentry
    cases hentry
    rfl
  exact ⟨es₁, e, es₂, rfl, by rw [hdb, processEntries_kvDb hok], by rw [hdb, haborts]⟩

/-- What a call that ends the process has done to the database. -/
lemma execEvent_error {s s' : Server σ} {ev : Event} {f : Fatal}
    (hend : execEvent raft codec s ev = .error f s') : ∃ es,
      s'.kvDb = replayLog codec s.kvDb es ∧
      ((es = [] ∧ (f = .serializeFailed ∨ f = .endIterator ∨ ∃ addr, f = .connectFailed addr)) ∨
        ∃ e, es ++ [e] <+: ev.entries raft s.rawNode ∧ applyEntry codec s'.kvDb e = .error f) := by
  cases ev with
  | kvOp req =>
      obtain ⟨rfl, rfl⟩ := run_kvOp_error raft codec hend
      exact ⟨[], rfl, Or.inl ⟨rfl, Or.inl rfl⟩⟩
  | step msg =>
      simp only [execEvent, stepPeer] at hend
      cases hend
  | tick connect =>
      rcases tick_ends hend with hsend | ⟨s₁, hsend, hprocess⟩
      · obtain ⟨msgs₁, msg, msgs₂, -, hsent, hcause⟩ := sendMsgs_error hsend
        obtain ⟨mgr, sent, rfl⟩ := sendMsgs_frame hsent
        refine ⟨[], rfl, Or.inl ⟨rfl, Or.inr ?_⟩⟩
        rcases hcause with ⟨-, rfl⟩ | ⟨row, -, -, rfl⟩
        · exact Or.inl rfl
        · exact Or.inr ⟨_, rfl⟩
      · have hdb₁ : s₁.kvDb = s.kvDb :=
          congrArg Ledger.kvDb (sendMsgs_frame hsend).ledger_eq.1
        obtain ⟨es₁, e, es₂, hes, hdb, haborts⟩ := processEntries_error hprocess
        refine ⟨es₁, by rw [hdb, hdb₁], Or.inr ⟨e, ?_, haborts⟩⟩
        rw [Event.entries, hes]
        exact ⟨es₂, by simp⟩

/-- **A crash leaves the log, applied up to an entry.**  Whatever call ends the process, after
whatever run: the database that is left is the one the server had started from with the entries of
the run, and the first of this call's, applied to it, all of each and nothing of the next.  Either
none of this call's entries was applied, and the process ended on a request or on a connection; or
it ended on the very next entry, which cannot be applied to what is left. -/
theorem crash_consistent {s₀ s s' : Server σ} {h : List Record} {ev : Event} {f : Fatal}
    (run : (serverMachine raft codec).Run s₀ h s) (hend : execEvent raft codec s ev = .error f s') :
    ∃ es, s'.kvDb = replayLog codec s₀.kvDb (entriesOf h ++ es) ∧
      ((es = [] ∧ (f = .serializeFailed ∨ f = .endIterator ∨ ∃ addr, f = .connectFailed addr)) ∨
        ∃ e, es ++ [e] <+: ev.entries raft s.rawNode ∧ applyEntry codec s'.kvDb e = .error f) := by
  obtain ⟨es, hdb, hcause⟩ := execEvent_error hend
  exact ⟨es, by rw [hdb, replayLog_append, (Processed.between run).kvDb_eq], hcause⟩

/-- A key is put, and another one, which is not there, is read in the same `Ready`: the process ends
on the read, and the disk has the put. -/
theorem crash_consistent_absent_key : ∃ h s s',
    (serverMachine TrioNode.raft shortCodec).Run (trioServer 2) h s ∧
      execEvent TrioNode.raft shortCodec s tickConnected = .error (.dbGet "NotFound: ") s' ∧
      ∃ es, s'.kvDb = replayLog shortCodec ∅ (entriesOf h ++ es) ∧ es ≠ [] := by
  let log := [requestEntry 1 (putRequest 7 9), requestEntry 2 (getRequest 8)]
  obtain ⟨h, s, run, hval⟩ := Machine.exists_run (M := serverMachine TrioNode.raft shortCodec)
    [appendEntries 1 0 log 2]
    (fun r => (entriesOf r.1,
      match execEvent TrioNode.raft shortCodec r.2 tickConnected with
        | .ok _ _ => none
        | .error f s' => some (f, s'.kvDb.lookup [7])))
    (s := trioServer 2) (b := ([], some (.dbGet "NotFound: ", some [9]))) (by decide +kernel)
  simp only [Prod.mk.injEq] at hval
  obtain ⟨hentries, hend⟩ := hval
  split at hend
  · cases hend
  · next f s' hexec =>
      simp only [Option.some.injEq, Prod.mk.injEq] at hend
      obtain ⟨rfl, hlookup⟩ := hend
      obtain ⟨es, hdb, -⟩ := crash_consistent run hexec
      refine ⟨h, s, s', run, hexec, es, hdb, ?_⟩
      rintro rfl
      have hempty : (trioServer 2).kvDb = ∅ := rfl
      rw [hdb, hentries, hempty] at hlookup
      simp [replayLog] at hlookup

/-! ## Lives -/

/-- One life: a peer is constructed on `db`, processes the first `n` entries of the log, and is gone
at that moment, leaving `db'`. -/
def Life (raft : RawNode σ) (codec : Codec) (log : List Entry) (db : KvDb) (n : ℕ) (db' : KvDb) :
    Prop :=
  ∃ (peerOpt : PeerOption) (peer : Peer σ) (r : Server σ), newPeer raft peerOpt db = .ok peer ∧
    Processed raft codec { toPeer := peer } (log.take n) r ∧ db' = r.kvDb

/-- The lives of one peer, from an empty disk; `marks` are the numbers of entries they processed. -/
def Lives (raft : RawNode σ) (codec : Codec) (log : List Entry) (marks : List ℕ) (db : KvDb) :
    Prop :=
  Steps (Life raft codec log) ∅ marks db

/-- `r` is the state of a peer that was constructed on what these lives have left, at the moment it
has processed the first `n` entries. -/
def Restarted (raft : RawNode σ) (codec : Codec) (log : List Entry) (marks : List ℕ) (n : ℕ)
    (r : Server σ) : Prop :=
  ∃ (db : KvDb) (peerOpt : PeerOption) (peer : Peer σ), Lives raft codec log marks db ∧
    newPeer raft peerOpt db = .ok peer ∧ Processed raft codec { toPeer := peer } (log.take n) r

/-- What the lives before leave behind does not matter once as many entries are replayed as any of
them has seen; and the entries any of them has seen can be applied from the empty database. -/
structure Covered (codec : Codec) (log : List Entry) (marks : List ℕ) (db : KvDb) : Prop where
  absorbed : ∀ n, (∀ m ∈ marks, m ≤ n) →
    replayLog codec db (log.take n) = replayLog codec ∅ (log.take n)
  decodes : ∀ m ∈ marks, ∀ e ∈ log.take m, decode codec e = .ok (reference codec e)
  live : ∀ m ∈ marks, GetsLive ∅ ((log.take m).map (reference codec))

variable {log : List Entry} {marks marks' : List ℕ} {db db' : KvDb} {m n : ℕ}

/-- A `get` inside what a life has seen finds its key, from whatever database the log is applied
to. -/
lemma Covered.live_of_lt (hc : Covered codec log marks db) (hm : m ∈ marks) (hlt : n < m)
    (key : Bytes) (hget : (log.map (reference codec))[n]? = some (.get key)) :
    ∃ val, Command.lastWrite key ((log.take n).map (reference codec)) = some (some val) := by
  have hmark : ((log.take m).map (reference codec))[n]? = some (.get key) := by
    rw [List.map_take, List.getElem?_take, if_pos hlt, hget]
  rcases hc.live m hm n key hmark with hput | ⟨-, hmem⟩
  · rwa [List.map_take, List.take_take, Nat.min_eq_left hlt.le, ← List.map_take] at hput
  · exact absurd hmem Finmap.notMem_empty

/-- **One life keeps the cover.** -/
lemma Life.covered (hlife : Life raft codec log db n db') (hc : Covered codec log marks db) :
    Covered codec log (marks ++ [n]) db' := by
  obtain ⟨peerOpt, peer, r, hnew, hprocessed, rfl⟩ := hlife
  have hr : r.kvDb = replayLog codec db (log.take n) := by
    rw [hprocessed.kvDb_eq, ← newPeer_kvDb hnew]
  have happlied := foldlM_applyEntry_iff.mp ⟨_, hprocessed.applied⟩
  rw [show ({ toPeer := peer } : Server σ).kvDb = db from newPeer_kvDb hnew] at happlied
  obtain ⟨hdecodes, hgets⟩ := happlied
  refine ⟨?_, ?_, ?_⟩
  · intro k hk
    have hnk : n ≤ k := hk n (by simp)
    have htake : log.take n = (log.take k).take n := by rw [List.take_take, Nat.min_eq_left hnk]
    rw [hr, ← hc.absorbed k fun m hm => hk m (List.mem_append_left _ hm), htake]
    simp only [replayLog, List.map_take]
    rw [← List.map_take]
    exact Command.applyAll_applyAll_take ..
  · intro m hm
    rcases List.mem_append.mp hm with hm | hm
    · exact hc.decodes m hm
    · rw [List.mem_singleton.mp hm]
      exact hdecodes
  · intro m hm
    rcases List.mem_append.mp hm with hm | hm
    · exact hc.live m hm
    rw [List.mem_singleton.mp hm]
    intro i key hi
    by_cases hseen : ∃ m ∈ marks, i < m
    · -- an earlier life has read this key, after the log had put it
      obtain ⟨m, hm, hlt⟩ := hseen
      rw [List.map_take, List.getElem?_take] at hi
      split_ifs at hi with hin
      obtain ⟨val, hval⟩ := hc.live_of_lt hm hlt key hi
      rw [List.map_take] at hval ⊢
      rw [List.take_take, Nat.min_eq_left hin.le]
      exact Or.inl ⟨val, hval⟩
    · -- beyond what any life has seen, the database is the one of the log
      push Not at hseen
      have hlive := live_iff.mp (hgets i key hi)
      rw [live_iff]
      have hin : i < n := by
        by_contra hge
        rw [List.getElem?_eq_none (by rw [List.length_map, List.length_take]; omega)] at hi
        cases hi
      have habsorbed := hc.absorbed i hseen
      simp only [replayLog, List.map_take] at habsorbed
      rw [List.map_take, List.take_take, Nat.min_eq_left hin.le] at hlive ⊢
      rwa [habsorbed] at hlive

/-- However many lives there were. -/
lemma Lives.covered (hl : Lives raft codec log marks db) : Covered codec log marks db := by
  induction hl with
  | nil =>
      refine ⟨fun _ _ => rfl, ?_, ?_⟩
      · intro m hm
        cases hm
      · intro m hm
        cases hm
  | snoc _ hlife ih => exact hlife.covered ih

/-! ## What a restarted peer shows -/

section

variable {r : Server σ} {r' : Server σ'} {e : Entry} {f : Fatal}

/-- An entry looks at the database in one place only. -/
lemma applyEntry_error_congr
    (hlookup : ∀ key, reference codec e = .get key → db.lookup key = db'.lookup key) :
    applyEntry codec db e = .error f ↔ applyEntry codec db' e = .error f := by
  simp only [applyEntry]
  cases hdecode : decode codec e with
  | error f' => rfl
  | ok cmd =>
      cases cmd with
      | noop => simp [Command.exec]
      | put key val => simp [Command.exec]
      | del key => simp [Command.exec]
      | get key =>
          have hkey := hlookup key (reference_of_decode hdecode)
          cases hval : db'.lookup key with
          | none =>
              rw [hval] at hkey
              simp [Command.exec, DiskStorage.get_of_absent hkey, DiskStorage.get_of_absent hval,
                Except.map]
          | some val =>
              rw [hval] at hkey
              simp [Command.exec, DiskStorage.get_of_lookup hkey, DiskStorage.get_of_lookup hval,
                Except.map]

lemma answer_congr
    (hlookup : ∀ key, reference codec e = .get key → db.lookup key = db'.lookup key)
    (p : Proposal) : answer codec db e p = answer codec db' e p := by
  simp only [answer]
  cases hdecode : decode codec e with
  | error f' => rfl
  | ok cmd =>
      cases cmd with
      | noop => rfl
      | put key val => rfl
      | del key => rfl
      | get key => simp only [Command.answer, hlookup key (reference_of_decode hdecode)]

lemma Restarted.lives (h : Restarted raft codec log marks n r) :
    Lives raft codec log (marks ++ [n]) r.kvDb := by
  obtain ⟨db, peerOpt, peer, hl, hnew, hprocessed⟩ := h
  exact Steps.snoc hl ⟨peerOpt, peer, r, hnew, hprocessed, rfl⟩

/-- Where no life has been before, a restarted peer has the database of the log. -/
lemma Restarted.kvDb_eq (h : Restarted raft codec log marks n r) (hmarks : ∀ m ∈ marks, m ≤ n) :
    r.kvDb = replayLog codec ∅ (log.take n) := by
  obtain ⟨db, peerOpt, peer, hl, hnew, hprocessed⟩ := h
  rw [← hl.covered.absorbed n hmarks, hprocessed.kvDb_eq, ← newPeer_kvDb hnew]

/-- What the next entry reads is what the log has left there, wherever lives have been before. -/
lemma Restarted.lookup_eq (h : Restarted raft codec log marks n r) (he : log[n]? = some e)
    {key : Bytes} (hget : reference codec e = .get key) :
    r.kvDb.lookup key = (replayLog codec ∅ (log.take n)).lookup key := by
  by_cases hmarks : ∀ m ∈ marks, m ≤ n
  · rw [h.kvDb_eq hmarks]
  · push Not at hmarks
    obtain ⟨m, hm, hlt⟩ := hmarks
    obtain ⟨db, peerOpt, peer, hl, hnew, hprocessed⟩ := h
    obtain ⟨val, hval⟩ := hl.covered.live_of_lt hm hlt key (by simp [he, hget])
    rw [hprocessed.kvDb_eq, replayLog, replayLog, Command.lookup_applyAll, Command.lookup_applyAll,
      hval]
    rfl

/-- A restarted peer ends on its next entry when the log says so. -/
lemma Restarted.abortsWith_iff (h : Restarted raft codec log marks n r) (he : log[n]? = some e) :
    AbortsWith raft codec e f r ↔
      applyEntry codec (replayLog codec ∅ (log.take n)) e = .error f := by
  rw [Jkv.abortsWith_iff]
  exact applyEntry_error_congr fun key hget => h.lookup_eq he hget

/-- No entry that a life has seen ends a process. -/
lemma Lives.not_error (hl : Lives raft codec log marks db) (hm : m ∈ marks) (hlt : n < m)
    (he : log[n]? = some e) :
    applyEntry codec (replayLog codec ∅ (log.take n)) e ≠ .error f := by
  have hc := hl.covered
  have hseen : (log.take m)[n]? = some e := by rw [List.getElem?_take, if_pos hlt, he]
  have hfinds : ∀ key, reference codec e = .get key → key ∈ replayLog codec ∅ (log.take n) := by
    intro key hget
    obtain ⟨val, hval⟩ := hc.live_of_lt hm hlt key (by simp [he, hget])
    exact live_iff.mp (Or.inl ⟨val, hval⟩)
  rw [applyEntry_ok_iff.mpr ⟨hc.decodes m hm e (List.mem_of_getElem? hseen), rfl, hfinds⟩]
  exact fun h => nomatch h

/-- **Replicas agree, however often they were restarted.**  Two peers, each constructed on what any
number of earlier lives has left, have processed the first `n` entries of the log.  If no life has
seen more of it, their databases are equal.  And in any case the next entry ends both processes or
none, for the same reason, and a client waiting for it is answered alike. -/
theorem restarts_agree (h : Restarted raft codec log marks n r)
    (h' : Restarted raft' codec log marks' n r') :
    ((∀ m ∈ marks ++ marks', m ≤ n) → r.kvDb = r'.kvDb) ∧
      ∀ e, log[n]? = some e →
        (∀ f, AbortsWith raft codec e f r ↔ AbortsWith raft' codec e f r') ∧
        ∀ p, answer codec r.kvDb e p = answer codec r'.kvDb e p := by
  refine ⟨?_, ?_⟩
  · intro hmarks
    rw [h.kvDb_eq fun m hm => hmarks m (List.mem_append_left _ hm),
      h'.kvDb_eq fun m hm => hmarks m (List.mem_append_right _ hm)]
  · intro e he
    refine ⟨?_, ?_⟩
    · intro f
      rw [h.abortsWith_iff he, h'.abortsWith_iff he]
    · intro p
      refine answer_congr ?_ p
      intro key hget
      rw [h.lookup_eq he hget, h'.lookup_eq he hget]

/-- **An entry that ends one life ends every life that comes to it.**  Entry `n` has ended a process
for reason `f`.  Then no life of any replica has got past it; and a peer that is constructed again,
on whatever its lives have left, ends for the same reason in the tick whose `Ready` brings the
entry, once the messages of this `Ready` have been sent. -/
theorem fatal_entry_final (h : Restarted raft codec log marks n r) (he : log[n]? = some e)
    (hf : AbortsWith raft codec e f r) (hl : Lives raft' codec log marks' db') :
    (∀ m ∈ marks', m ≤ n) ∧
      ∀ (peerOpt : PeerOption) (peer : Peer σ') (hist : List Record) (s s₁ : Server σ')
        (connect : SockAddress → Bool) (es : List Entry), newPeer raft' peerOpt db' = .ok peer →
        (serverMachine raft' codec).Run { toPeer := peer } hist s →
        startTick raft' connect s = .ok es s₁ → entriesOf hist ++ es <+: log →
        n < (entriesOf hist ++ es).length →
        ∃ s', execEvent raft' codec s (.tick connect) = .error f s' := by
  rw [h.abortsWith_iff he] at hf
  have hpast : ∀ {marks' : List ℕ} {db' : KvDb}, Lives raft' codec log marks' db' →
      ∀ m ∈ marks', m ≤ n := by
    intro marks' db' hl m hm
    by_contra hlt
    exact hl.not_error hm (not_le.mp hlt) he hf
  refine ⟨hpast hl, ?_⟩
  intro peerOpt peer hist s s₁ connect es hnew run hstart hpre hlong
  -- as far as the batch is processed, the peer is a restarted one
  have hpart : ∀ es₁ rest s₂, es = es₁ ++ rest →
      (processEntries raft' codec es₁).run s₁ = .ok () s₂ →
      Restarted raft' codec log marks' (entriesOf hist ++ es₁).length s₂ := by
    rintro es₁ rest s₂ rfl hok
    have htake : log.take (entriesOf hist ++ es₁).length = entriesOf hist ++ es₁ := by
      rw [← List.append_assoc] at hpre
      exact (List.prefix_iff_eq_take.mp ((List.prefix_append _ _).trans hpre)).symm
    refine ⟨db', peerOpt, peer, hl, hnew, ?_⟩
    rw [htake]
    exact Processed.inTick run hstart hok
  cases hbatch : (processEntries raft' codec es).run s₁ with
  | ok u s₂ =>
      have hle := hpast (hpart es [] s₂ (by simp) hbatch).lives _
        (List.mem_append_right _ (List.mem_singleton_self _))
      omega
  | error f' s₂ =>
      refine ⟨s₂, ?_⟩
      rw [execEvent, run_tick, hstart]
      dsimp only
      rw [hbatch]
      obtain ⟨es₁, e', es₂, s₃, rfl, hok, hentry⟩ := forM_error_split hbatch
      have hr := hpart es₁ (e' :: es₂) s₃ rfl hok
      have he' : log[(entriesOf hist ++ es₁).length]? = some e' := by
        refine getElem?_of_prefix hpre ?_
        rw [← List.append_assoc, List.getElem?_append_right le_rfl]
        simp
      have haborts := (hr.abortsWith_iff he').mp ⟨s₂, hentry⟩
      have hle := hpast hr.lives _ (List.mem_append_right _ (List.mem_singleton_self _))
      have hn : (entriesOf hist ++ es₁).length = n := by
        by_contra hne
        exact h.lives.not_error (List.mem_append_right _ (List.mem_singleton_self _))
          (lt_of_le_of_ne hle hne) he' haborts
      rw [hn] at he' haborts
      rw [he] at he'
      cases he'
      rw [hf] at haborts
      cases haborts
      rfl

end

/-! ## Lives to compute with -/

/-- The peer of a group of one host, constructed on `db`. -/
def soloPeer (db : KvDb) : Peer TrioNode :=
  { self := ⟨1, 1, ['a'], 10000⟩, peers := Finmap.singleton 1 ⟨1, 1, ['a'], 10000⟩
    rawNode := { id := 1 }, kvDb := db }

lemma newPeer_solo (db : KvDb) : newPeer TrioNode.raft soloOption db = .ok (soloPeer db) := by
  have hmembers : initGroupMembers soloOption.members
      = .ok (Finmap.singleton 1 ⟨1, 1, ['a'], 10000⟩) := by decide
  exact newPeer_eq_ok.mpr ⟨_, _, hmembers, rfl, rfl, rfl⟩

/-- A life that can be computed: the first `n` entries arrive in one message, and are processed in
the next tick. -/
lemma exists_processed_solo (log : List Entry) (n : ℕ) (db db' : KvDb)
    (hr : ((serverMachine TrioNode.raft shortCodec).replay { toPeer := soloPeer db }
      [appendEntries 1 0 (log.take n) n, tickConnected]).map (fun r => (entriesOf r.1, r.2.kvDb))
        = some (log.take n, db')) :
    ∃ r : Server TrioNode, r.kvDb = db' ∧
      Processed TrioNode.raft shortCodec { toPeer := soloPeer db } (log.take n) r := by
  obtain ⟨h, r, run, hval⟩ := Machine.exists_run _ _ hr
  simp only [Prod.mk.injEq] at hval
  obtain ⟨hentries, hdb⟩ := hval
  exact ⟨r, hdb, hentries ▸ Processed.between run⟩

/-- A key is put, read, and put again.  One peer has seen all of it, has then been restarted and
killed after the first entry, and has been restarted once more; another peer has lived only once.
Both come to the read. -/
theorem restarts_agree_twice :
    let log := [requestEntry 1 (putRequest 7 9), requestEntry 2 (getRequest 7),
      requestEntry 3 (putRequest 7 8)]
    ∃ r r' : Server TrioNode, Restarted TrioNode.raft shortCodec log [3, 1] 1 r ∧
      Restarted TrioNode.raft shortCodec log [] 1 r' ∧
      ∀ p, answer shortCodec r.kvDb (requestEntry 2 (getRequest 7)) p
        = answer shortCodec r'.kvDb (requestEntry 2 (getRequest 7)) p := by
  intro log
  obtain ⟨r₁, hr₁, hp₁⟩ := exists_processed_solo log 3 ∅ (Finmap.singleton [7] [8])
    (by decide +kernel)
  obtain ⟨r₂, hr₂, hp₂⟩ := exists_processed_solo log 1 (Finmap.singleton [7] [8])
    (Finmap.singleton [7] [9]) (by decide +kernel)
  obtain ⟨r, -, hp⟩ := exists_processed_solo log 1 (Finmap.singleton [7] [9])
    (Finmap.singleton [7] [9]) (by decide +kernel)
  obtain ⟨r', -, hp'⟩ := exists_processed_solo log 1 ∅ (Finmap.singleton [7] [9])
    (by decide +kernel)
  have hlives : Lives TrioNode.raft shortCodec log [3, 1] (Finmap.singleton [7] [9]) :=
    Steps.snoc (Steps.single ⟨soloOption, _, r₁, newPeer_solo ∅, hp₁, hr₁.symm⟩)
      ⟨soloOption, _, r₂, newPeer_solo _, hp₂, hr₂.symm⟩
  have h : Restarted TrioNode.raft shortCodec log [3, 1] 1 r :=
    ⟨_, soloOption, _, hlives, newPeer_solo _, hp⟩
  have h' : Restarted TrioNode.raft shortCodec log [] 1 r' :=
    ⟨∅, soloOption, _, Steps.nil, newPeer_solo ∅, hp'⟩
  exact ⟨r, r', h, h', ((restarts_agree h h').2 _ rfl).2⟩

/-- The second entry reads a key that is not there, and has ended one peer.  Another peer was killed
after the first entry, is constructed again on the database that was left, and is given both. -/
theorem fatal_entry_final_absent_key :
    let log := [requestEntry 1 (putRequest 7 9), requestEntry 2 (getRequest 8)]
    ∃ (r s s' : Server TrioNode) (h : List Record),
      Restarted TrioNode.raft shortCodec log [] 1 r ∧
      AbortsWith TrioNode.raft shortCodec (requestEntry 2 (getRequest 8)) (.dbGet "NotFound: ") r ∧
      Lives TrioNode.raft shortCodec log [1] (Finmap.singleton [7] [9]) ∧
      (serverMachine TrioNode.raft shortCodec).Run
        { toPeer := soloPeer (Finmap.singleton [7] [9]) } h s ∧
      execEvent TrioNode.raft shortCodec s tickConnected = .error (.dbGet "NotFound: ") s' := by
  intro log
  obtain ⟨r, hr, hp⟩ := exists_processed_solo log 1 ∅ (Finmap.singleton [7] [9])
    (by decide +kernel)
  have hrestarted : Restarted TrioNode.raft shortCodec log [] 1 r :=
    ⟨∅, soloOption, _, Steps.nil, newPeer_solo ∅, hp⟩
  have haborts : AbortsWith TrioNode.raft shortCodec (requestEntry 2 (getRequest 8))
      (.dbGet "NotFound: ") r := by
    rw [abortsWith_iff, hr]
    decide +kernel
  have hlives : Lives TrioNode.raft shortCodec log [1] (Finmap.singleton [7] [9]) :=
    Steps.single ⟨soloOption, _, r, newPeer_solo ∅, hp, hr.symm⟩
  obtain ⟨h, s, run, hval⟩ := Machine.exists_run (M := serverMachine TrioNode.raft shortCodec)
    [appendEntries 1 0 log 2]
    (fun x => (entriesOf x.1,
      match startTick TrioNode.raft (fun _ => true) x.2 with
        | .ok es _ => some es
        | .error _ _ => none))
    (s := { toPeer := soloPeer (Finmap.singleton [7] [9]) }) (b := ([], some log))
    (by decide +kernel)
  simp only [Prod.mk.injEq] at hval
  obtain ⟨hentries, hready⟩ := hval
  split at hready
  · next es s₁ hstart =>
      cases hready
      obtain ⟨s', hend⟩ := (fatal_entry_final hrestarted rfl haborts hlives).2 soloOption _ h s s₁
        (fun _ => true) log (newPeer_solo _) run hstart
        (by rw [hentries]; exact List.prefix_rfl) (by rw [hentries]; decide)
      exact ⟨r, s, s', h, hrestarted, haborts, hlives, run, hend⟩
  · cases hready

/-! ## A group that starts again from nothing

The raft log is in memory, the databases are on disk.  When all processes of a group are started
again there is a new log, and each database is where its own process happened to be.
-/

lemma decode_of_reference_get {e : Entry} {key : Bytes} (hget : reference codec e = .get key) :
    decode codec e = .ok (.get key) := by
  rw [reference] at hget
  split_ifs at hget with hempty
  rw [not_or] at hempty
  have htype : e.type = .kEntryNormal := by
    cases htype : e.type with
    | kEntryNormal => rfl
    | kEntryConfChange => exact absurd htype hempty.1
  split at hget
  · cases hget
  · next req hparse =>
      have hcodes : kInvalid ≠ kGet ∧ kPut ≠ kGet ∧ kDel ≠ kGet := by decide
      rw [decode_normal htype hparse, commandOf]
      split_ifs at hget with hput hdel hisGet
      rw [hisGet, if_neg hcodes.1.symm, if_pos rfl, hget]

/-- What an entry does on two databases is the same when it does not read a key on which they
differ, and only then. -/
lemma alike_iff {e : Entry} {db db' : KvDb} :
    ((∀ f, applyEntry codec db e = .error f ↔ applyEntry codec db' e = .error f) ∧
      ∀ p, answer codec db e p = answer codec db' e p) ↔
    ∀ key, reference codec e = .get key → db.lookup key = db'.lookup key := by
  constructor
  · rintro ⟨herror, hanswer⟩ key hget
    have hdecode := decode_of_reference_get hget
    have hfinds : ∀ db : KvDb, db.lookup key = none ↔
        ∃ f, applyEntry codec db e = .error f := by
      intro db
      rw [applyEntry_of_decode hdecode]
      cases hlookup : db.lookup key with
      | none => simp [Command.exec, DiskStorage.get_of_absent hlookup, Except.map]
      | some val => simp [Command.exec, DiskStorage.get_of_lookup hlookup, Except.map]
    have hnone : db.lookup key = none ↔ db'.lookup key = none := by
      rw [hfinds, hfinds]
      exact exists_congr herror
    have hvalue := hanswer ⟨0, 0, {}, 0⟩
    rw [answer_of_decode hdecode, answer_of_decode hdecode, Command.answer,
      Command.answer] at hvalue
    cases hval : db.lookup key with
    | none => rw [hnone.mp hval]
    | some val =>
        cases hval' : db'.lookup key with
        | none => rw [hnone.mpr hval'] at hval; cases hval
        | some val' =>
            rw [hval, hval'] at hvalue
            simpa using hvalue
  · intro hlookup
    exact ⟨fun f => applyEntry_error_congr hlookup, answer_congr hlookup⟩

/-- **What a cold start does to a group.**  Two peers are constructed on whatever databases, and
have processed the first `n` entries of the log.  Their databases are equal exactly when each key on
which the disks differed was written by these entries; and the next entry ends both or none, and
answers alike, exactly when it does not read such a key that was not written. -/
theorem cold_start_iff {r : Server σ} {r' : Server σ'} {peerOpt peerOpt' : PeerOption}
    {peer : Peer σ} {peer' : Peer σ'} (hnew : newPeer raft peerOpt db = .ok peer)
    (hnew' : newPeer raft' peerOpt' db' = .ok peer')
    (h : Processed raft codec { toPeer := peer } (log.take n) r)
    (h' : Processed raft' codec { toPeer := peer' } (log.take n) r') :
    let written := fun key => Command.lastWrite key ((log.take n).map (reference codec)) ≠ none
    (r.kvDb = r'.kvDb ↔ ∀ key, db.lookup key ≠ db'.lookup key → written key) ∧
      ∀ e, ((∀ f, AbortsWith raft codec e f r ↔ AbortsWith raft' codec e f r') ∧
          ∀ p, answer codec r.kvDb e p = answer codec r'.kvDb e p) ↔
        ∀ key, reference codec e = .get key → db.lookup key ≠ db'.lookup key → written key := by
  intro written
  have hr : r.kvDb = replayLog codec db (log.take n) := by
    rw [h.kvDb_eq, ← newPeer_kvDb hnew]
  have hr' : r'.kvDb = replayLog codec db' (log.take n) := by
    rw [h'.kvDb_eq, ← newPeer_kvDb hnew']
  refine ⟨?_, ?_⟩
  · rw [hr, hr']
    exact Command.applyAll_eq_iff
  · intro e
    simp only [abortsWith_iff, alike_iff]
    refine forall_congr' fun key => imp_congr_right fun _ => ?_
    rw [hr, hr', replayLog, replayLog, Command.lookup_applyAll, Command.lookup_applyAll]
    show _ ↔ (_ → Command.lastWrite key ((log.take n).map (reference codec)) ≠ none)
    cases Command.lastWrite key ((log.take n).map (reference codec)) with
    | none => simp
    | some val => simp

/-- One peer had a key when its process ended, the other one did not come to it.  The new log puts
another key, and then reads the first one. -/
theorem cold_start_iff_apart :
    let log := [requestEntry 1 (putRequest 8 9)]
    ∃ r r' : Server TrioNode,
      Processed TrioNode.raft shortCodec { toPeer := soloPeer (Finmap.singleton [7] [9]) }
        (log.take 1) r ∧
      Processed TrioNode.raft shortCodec { toPeer := soloPeer ∅ } (log.take 1) r' ∧
      r.kvDb ≠ r'.kvDb ∧
      ¬ ((∀ f, AbortsWith TrioNode.raft shortCodec (requestEntry 2 (getRequest 7)) f r ↔
          AbortsWith TrioNode.raft shortCodec (requestEntry 2 (getRequest 7)) f r') ∧
        ∀ p, answer shortCodec r.kvDb (requestEntry 2 (getRequest 7)) p
          = answer shortCodec r'.kvDb (requestEntry 2 (getRequest 7)) p) := by
  intro log
  obtain ⟨r, -, hp⟩ := exists_processed_solo log 1 (Finmap.singleton [7] [9])
    (Finmap.insert [8] [9] (Finmap.singleton [7] [9])) (by decide +kernel)
  obtain ⟨r', -, hp'⟩ := exists_processed_solo log 1 ∅ (Finmap.singleton [8] [9])
    (by decide +kernel)
  have hdiffer : (Finmap.singleton [7] [9] : KvDb).lookup [7] ≠ (∅ : KvDb).lookup [7] := by decide
  obtain ⟨hequal, halike⟩ := cold_start_iff (newPeer_solo _) (newPeer_solo _) hp hp'
  refine ⟨r, r', hp, hp', ?_, ?_⟩
  · intro heq
    exact hequal.mp heq [7] hdiffer (by decide +kernel)
  · intro hsame
    exact (halike _).mp hsame [7] (by decide +kernel) hdiffer (by decide +kernel)

end Jkv
