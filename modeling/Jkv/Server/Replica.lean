import Jkv.Server.Ledger

/-!
# The database of a server is the log, replayed

`reference` reads an entry as a command of the sequential store, by what the entry is and not by
how `ProcessNormal` goes about it: configuration changes and empty entries ask for nothing.  The
database of a server is at every moment the fold of the entries it has processed, whatever its role
was at each of them, whatever was queued, and however the log was cut into `Ready`s
(`Processed.kvDb_eq`).  Whether the next entry ends the process is decided by the same fold.
-/

namespace Jkv

variable {σ σ' : Type}

/-! ## The log as commands -/

section

variable (codec : Codec)

/-- The command an entry stands for. -/
def reference (e : Entry) : Command :=
  if e.type = .kEntryConfChange ∨ e.data = [] then .noop
  else match codec.parse e.data with
    | none => .noop
    | some req =>
        if req.cmdType = kPut then .put req.put.key req.put.value
        else if req.cmdType = kDel then .del req.del.key
        else if req.cmdType = kGet then .get req.get.key
        else .noop

/-- The sequential store after a log. -/
def replayLog (db : KvDb) (log : List Entry) : KvDb :=
  Command.applyAll db (log.map (reference codec))

@[simp] lemma replayLog_append (db : KvDb) (log log' : List Entry) :
    replayLog codec db (log ++ log') = replayLog codec (replayLog codec db log) log' := by
  simp [replayLog]

end

variable {codec : Codec}

/-- What the code makes of an entry is what the entry stands for. -/
lemma reference_of_decode {e : Entry} {cmd : Command} (h : decode codec e = .ok cmd) :
    reference codec e = cmd := by
  cases htype : e.type with
  | kEntryConfChange =>
      rw [decode_confChange (by rw [htype]; decide)] at h
      cases h
      simp [reference, htype]
  | kEntryNormal =>
      by_cases hdata : e.data = []
      · rw [decode_normal htype (hdata ▸ codec.parse_nil), commandOf] at h
        cases h
        simp [reference, hdata]
      · cases hparse : codec.parse e.data with
        | none => simp [decode, htype, hparse] at h
        | some req =>
            rw [decode_normal htype hparse, commandOf] at h
            simp only [reference, htype, hdata, hparse]
            have hcodes : kInvalid ≠ kGet ∧ kInvalid ≠ kPut ∧ kInvalid ≠ kDel ∧ kGet ≠ kPut ∧
                kGet ≠ kDel ∧ kPut ≠ kDel := by decide
            split_ifs at h <;> simp_all

/-- An entry is applied when it can be read and, if it is a `get`, its key is there; it changes the
database the way its command says. -/
lemma applyEntry_ok_iff {db db' : KvDb} {e : Entry} :
    applyEntry codec db e = .ok db' ↔ decode codec e = .ok (reference codec e) ∧
      db' = (reference codec e).apply db ∧ ∀ key, reference codec e = .get key → key ∈ db := by
  constructor
  · intro h
    rw [applyEntry] at h
    split at h
    · next cmd hdecode =>
        rw [reference_of_decode hdecode]
        exact ⟨hdecode, Command.exec_eq_ok.mp h⟩
    · cases h
  · rintro ⟨hdecode, hexec⟩
    rw [applyEntry_of_decode hdecode]
    exact Command.exec_eq_ok.mpr hexec

/-! ## Processed entries -/

/-- The committed entry a record processed. -/
def Record.delivery? (r : Record) : Option Entry :=
  match r.act with
  | .delivered e _ _ _ => some e
  | _ => none

/-- The committed entries a history processed. -/
def entriesOf (h : List Record) : List Entry := h.filterMap Record.delivery?

@[simp] lemma entriesOf_append (h h' : List Record) :
    entriesOf (h ++ h') = entriesOf h ++ entriesOf h' := List.filterMap_append ..

@[simp] lemma entriesOf_deliveries (v : View Entry) (q : List Proposal) (es : List Entry) :
    entriesOf (deliveries v q es) = es := by
  induction es generalizing q with
  | nil => rfl
  | cons e es ih => simpa [entriesOf, deliveries, Record.delivery?] using ih _

/-- One record of the ledger, as a step of the sequential store. -/
lemma LedgerStep.kvDb_eq {l l' : Ledger} {r : Record} (h : LedgerStep codec l r l') :
    l'.kvDb = replayLog codec l.kvDb (entriesOf [r]) := by
  cases h with
  | refused _ => rfl
  | proposed _ _ _ => rfl
  | stepped => rfl
  | ticked => rfl
  | delivered hdb _ => exact (applyEntry_ok_iff.mp hdb).2.1

/-- A whole history of the ledger. -/
lemma LedgerSteps.kvDb_eq {l l' : Ledger} {h : List Record} (hs : LedgerSteps codec l h l') :
    l'.kvDb = replayLog codec l.kvDb (entriesOf h) := by
  induction hs with
  | nil => rfl
  | snoc _ hstep ih => rw [hstep.kvDb_eq, ih, entriesOf_append, replayLog_append]

/-! ## The refinement -/

/-- `s` is the state of the server right after it processed exactly the entries of `log`: between
two calls, or inside a tick whose `Ready` has more of them. -/
inductive Processed (raft : RawNode σ) (codec : Codec) (s₀ : Server σ) :
    List Entry → Server σ → Prop
  | between {h : List Record} {s : Server σ} :
      (serverMachine raft codec).Run s₀ h s → Processed raft codec s₀ (entriesOf h) s
  | inTick {h : List Record} {s s₁ s₂ : Server σ} {connect : SockAddress → Bool}
      {es rest : List Entry} :
      (serverMachine raft codec).Run s₀ h s → startTick raft connect s = .ok (es ++ rest) s₁ →
      (processEntries raft codec es).run s₁ = .ok () s₂ →
      Processed raft codec s₀ (entriesOf h ++ es) s₂

/-- `ProcessEntry` ends the process on `e` for reason `f`. -/
def AbortsWith (raft : RawNode σ) (codec : Codec) (e : Entry) (f : Fatal) (s : Server σ) : Prop :=
  ∃ s', (processEntry raft codec e).run s = .error f s'

/-- The database of a server is the log it has processed, replayed. -/
lemma Processed.kvDb_eq {raft : RawNode σ} {s₀ s : Server σ} {log : List Entry}
    (h : Processed raft codec s₀ log s) : s.kvDb = replayLog codec s₀.kvDb log := by
  cases h with
  | between run => exact LedgerSteps.kvDb_eq (run_ledger run)
  | inTick run hstart hprocess =>
      have hrun := LedgerSteps.kvDb_eq (run_ledger run)
      have hbatch := LedgerSteps.kvDb_eq (processEntries_ledger hprocess).2
      have hledger := congrArg Ledger.kvDb (startTick_ok hstart).2.2
      rw [entriesOf_deliveries] at hbatch
      rw [replayLog_append, ← show _ = replayLog codec s₀.kvDb _ from hrun]
      exact hbatch.trans (by rw [hledger])

/-- Whether, and how, an entry ends the process is a matter of the database alone. -/
lemma abortsWith_iff {raft : RawNode σ} {e : Entry} {f : Fatal} {s : Server σ} :
    AbortsWith raft codec e f s ↔ applyEntry codec s.kvDb e = .error f := by
  rw [AbortsWith, run_processEntry]
  dsimp only
  cases applyEntry codec s.kvDb e <;> simp

/-- **Replicas agree.**  Two servers, on whatever raft nodes, that have processed the first `n`
entries of a log: each has the database the log gives, and started from equal databases they have
equal databases and end, or do not end, on the next entry together. -/
theorem replicas_agree {raft : RawNode σ} {raft' : RawNode σ'} {log : List Entry} {n : ℕ}
    {s₀ s : Server σ} {s₀' s' : Server σ'} (h : Processed raft codec s₀ (log.take n) s)
    (h' : Processed raft' codec s₀' (log.take n) s') :
    s.kvDb = replayLog codec s₀.kvDb (log.take n) ∧
      (s₀.kvDb = s₀'.kvDb → s.kvDb = s'.kvDb ∧ ∀ e, log[n]? = some e → ∀ f,
        (AbortsWith raft codec e f s ↔ AbortsWith raft' codec e f s')) := by
  refine ⟨h.kvDb_eq, ?_⟩
  intro hstart
  have hdb : s.kvDb = s'.kvDb := by rw [h.kvDb_eq, h'.kvDb_eq, hstart]
  refine ⟨hdb, ?_⟩
  intro e _ f
  rw [abortsWith_iff, abortsWith_iff, hdb]

/-- A leader and a follower that have processed the same put. -/
theorem replicas_agree_trio :
    let log : List Entry :=
      [⟨1, 1, .kEntryNormal, []⟩, ⟨1, 2, .kEntryNormal, [8, 2, 26, 6, 10, 1, 7, 18, 1, 9]⟩]
    ∃ s s' : Server TrioNode,
      Processed TrioNode.raft shortCodec (trioServer 1) (log.take 2) s ∧
      Processed TrioNode.raft shortCodec (trioServer 2) (log.take 2) s' ∧
      s.kvDb = replayLog shortCodec ∅ log ∧ s.kvDb = s'.kvDb := by
  intro log
  obtain ⟨h, s, run, hlog⟩ := Machine.exists_run (M := serverMachine TrioNode.raft shortCodec)
    (elect 1 ++ [.kvOp (putRequest 7 9), acknowledge 1 2, tickConnected])
    (fun r => entriesOf r.1) (s := trioServer 1) (b := log.take 2) (by decide +kernel)
  obtain ⟨h', s', run', hlog'⟩ := Machine.exists_run (M := serverMachine TrioNode.raft shortCodec)
    [appendEntries 1 0 log 2, tickConnected]
    (fun r => entriesOf r.1) (s := trioServer 2) (b := log.take 2) (by decide +kernel)
  dsimp only at hlog hlog'
  have hs := hlog ▸ Processed.between run
  have hs' := hlog' ▸ Processed.between run'
  have hagree := replicas_agree hs hs'
  exact ⟨s, s', hs, hs', hagree.1, (hagree.2 rfl).1⟩

end Jkv
