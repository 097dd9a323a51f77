import Jkv.Server.Stranded

/-!
# What becomes of a request

A request that was let in waits in the queue, among the requests of other clients, until
`GetProposal` or `CallbackAll` comes across it.  Which of them does, and with which answer, seems to
depend on everything else in the queue.

It does not.  `fate` follows one request through the committed entries that are delivered after it
was queued, and looks at nothing else: while the peer leads and the entries are below the request,
nothing happens; the first delivery of another kind tells the client, whether its own entry has come
or not.  `request_fate` says that this is what the code does, in every run, whatever other clients
ask for and however the entries are cut into `Ready`s.  It rests on what jraft keeps of one peer
(`PeerJraft`), and that includes that `Propose` refuses nothing: after a refusal two requests wait
for one entry.
-/

namespace Jkv

/-- What the delivery of an entry tells the client behind `p`, if anything, while `p` is pending. -/
def Entry.tells (codec : Codec) (p : Proposal) (db : KvDb) (leader : Bool) (e : Entry) :
    Option (List Callback) :=
  if leader = false then some [p.reject]
  else if e.key < p.key then none
  else if e.key = p.key then some (answer codec db e p)
  else some [p.reject]

/-- The same for a record. -/
def Record.tells (codec : Codec) (p : Proposal) (db : KvDb) (r : Record) :
    Option (List Callback) :=
  r.delivery?.bind (Entry.tells codec p db r.before.leader)

/-- What the client behind `p` has been told after the records `h`, from the moment `p` was queued
on the database `db`.  `none` says that the client waits. -/
def fate (codec : Codec) (p : Proposal) : KvDb → List Record → Option (List Callback)
  | _, [] => none
  | db, r :: h =>
      match r.tells codec p db with
      | some told => some told
      | none => fate codec p (replayLog codec db (entriesOf [r])) h

variable {codec : Codec} {l₀ l l' : Ledger} {h : List Record} {r : Record} {p : Proposal}
  {db : KvDb}

lemma fate_append_of_some {told : List Callback} (hfate : fate codec p db h = some told)
    (h' : List Record) : fate codec p db (h ++ h') = some told := by
  induction h generalizing db with
  | nil => cases hfate
  | cons r h ih =>
      rw [List.cons_append, fate]
      rw [fate] at hfate
      split at hfate
      · exact hfate
      · exact ih hfate

lemma fate_append_of_none (hfate : fate codec p db h = none) :
    fate codec p db (h ++ [r]) = r.tells codec p (replayLog codec db (entriesOf h)) := by
  induction h generalizing db with
  | nil =>
      show fate codec p db [r] = r.tells codec p db
      rw [fate]
      cases r.tells codec p db <;> rfl
  | cons r' h ih =>
      rw [fate] at hfate
      split at hfate
      · cases hfate
      · next htells =>
          rw [List.cons_append, fate, htells]
          have hentries : entriesOf (r' :: h) = entriesOf [r'] ++ entriesOf h := by
            rw [← entriesOf_append]
            rfl
          rw [hentries, replayLog_append]
          exact ih hfate

/-! ## Closures belong to one client each -/

/-- An entry answers nobody but the client it is matched with. -/
lemma done_of_mem_answer {e : Entry} {cb : Callback} (hcb : cb ∈ answer codec db e p) :
    cb.done = p.done := by
  rw [answer] at hcb
  split at hcb
  · next cmd _ =>
      by_cases hnoop : cmd = .noop
      · subst hnoop
        cases hcb
      · obtain ⟨cb', heq, hdone, -⟩ := Command.answer_of_ne_noop hnoop db p
        rw [heq, List.mem_singleton] at hcb
        rw [hcb, hdone]
  · cases hcb

lemma LedgerStep.calls_le (hs : LedgerStep codec l r l') : l.calls ≤ l'.calls := by
  cases hs <;> simp

lemma LedgerSteps.calls_le (hs : LedgerSteps codec l₀ h l) : l₀.calls ≤ l.calls := by
  induction hs with
  | nil => exact le_rfl
  | snoc _ hstep ih => exact ih.trans hstep.calls_le

/-- Everything that was run so far has the number of an earlier call. -/
lemma Balanced.done_lt (hb : Balanced codec h l) {cb : Callback} (hcb : cb ∈ l.ran) :
    cb.done < l.calls := by
  refine List.mem_range.mp (hb.once.subset ?_)
  exact List.mem_append_left _ (List.mem_append_left _ (List.mem_map_of_mem hcb))

/-! ## One delivery, and one client -/

section

variable {q : List Proposal} {f : Proposal → List Callback}
  (hf : ∀ p, ∀ cb ∈ f p, cb.done = p.done)

include hf

/-- Others are told nothing. -/
lemma filter_flatMap_of_notMem (hp : p.done ∉ q.map Proposal.done) :
    (q.flatMap f).filter (·.done = p.done) = [] := by
  refine List.filter_eq_nil_iff.mpr ?_
  intro cb hcb
  obtain ⟨p', hp', hcb⟩ := List.mem_flatMap.mp hcb
  have hne : p'.done ≠ p.done := fun heq => hp (heq ▸ List.mem_map_of_mem hp')
  simpa [hf p' cb hcb] using hne

/-- A client is told once. -/
lemma filter_flatMap_of_mem (hnodup : (q.map Proposal.done).Nodup) (hp : p ∈ q) :
    (q.flatMap f).filter (·.done = p.done) = f p := by
  obtain ⟨q₁, q₂, rfl⟩ := List.append_of_mem hp
  simp only [List.map_append, List.map_cons] at hnodup
  have hfirst : p.done ∉ q₁.map Proposal.done := by
    intro hmem
    exact List.disjoint_of_nodup_append hnodup hmem List.mem_cons_self
  have hrest : p.done ∉ q₂.map Proposal.done :=
    (List.nodup_cons.mp hnodup.of_append_right).1
  have hown : (f p).filter (·.done = p.done) = f p := by
    refine List.filter_eq_self.mpr ?_
    intro cb hcb
    simpa using hf p cb hcb
  rw [List.flatMap_append, List.flatMap_cons, List.filter_append, List.filter_append,
    filter_flatMap_of_notMem hf hfirst, filter_flatMap_of_notMem hf hrest, hown]
  simp

end

section

variable {leader : Bool} {e : Entry} {q : List Proposal}

lemma tells_of_rejected (hp : p ∈ (popFor leader e q).rejected) :
    e.tells codec p db leader = some [p.reject] := by
  cases leader with
  | false => rfl
  | true =>
      rw [popFor_leader] at hp
      have hlt := popTo_rejected_lt hp
      simp [Entry.tells, hlt.not_gt, hlt.ne']

lemma tells_of_found (hp : (popFor leader e q).found = some p) :
    e.tells codec p db leader = some (answer codec db e p) := by
  cases leader with
  | false => cases hp
  | true =>
      rw [popFor_leader] at hp
      simp [Entry.tells, popTo_found_eq hp]

lemma tells_of_queue (hsorted : q.Pairwise fun p p' => p.key < p'.key)
    (hp : p ∈ (popFor leader e q).queue) : e.tells codec p db leader = none := by
  cases leader with
  | false => cases hp
  | true =>
      rw [popFor_leader] at hp
      simp [Entry.tells, popTo_queue_gt hsorted hp]

/-- **A delivery tells one client what `tells` says**, whoever else is in the queue. -/
lemma popFor_tells (codec : Codec) (db : KvDb) (leader : Bool) (e : Entry)
    (hsorted : q.Pairwise fun p p' => p.key < p'.key) (hnodup : (q.map Proposal.done).Nodup)
    (hp : p ∈ q) :
    ((popFor leader e q).rejected.map Proposal.reject ++
        (popFor leader e q).found.toList.flatMap (answer codec db e)).filter (·.done = p.done)
      = (e.tells codec p db leader).getD [] ∧
    (e.tells codec p db leader = none → p ∈ (popFor leader e q).queue) ∧
    (e.tells codec p db leader ≠ none → p.done ∉ (popFor leader e q).queue.map Proposal.done) := by
  have hreject : ∀ p : Proposal, ∀ cb ∈ [p.reject], cb.done = p.done := by
    simp [Proposal.reject]
  have hanswer : ∀ p, ∀ cb ∈ answer codec db e p, cb.done = p.done :=
    fun _ _ hcb => done_of_mem_answer hcb
  rw [← popFor_append leader e q, List.map_append, List.map_append] at hnodup
  have hnodup₁ := hnodup.of_append_left
  have hqueue : ∀ d ∈ (popFor leader e q).rejected.map Proposal.done ++
      (popFor leader e q).found.toList.map Proposal.done,
      d ∉ (popFor leader e q).queue.map Proposal.done :=
    fun d hd => List.disjoint_of_nodup_append hnodup hd
  rw [List.map_eq_flatMap, List.filter_append]
  rw [← popFor_append leader e q, List.mem_append, List.mem_append] at hp
  rcases hp with (hp | hp) | hp
  · have hdone := List.mem_map_of_mem (f := Proposal.done) hp
    rw [tells_of_rejected hp, filter_flatMap_of_mem hreject hnodup₁.of_append_left hp,
      filter_flatMap_of_notMem hanswer (List.disjoint_of_nodup_append hnodup₁ hdone)]
    exact ⟨by simp, by simp, fun _ => hqueue _ (List.mem_append_left _ hdone)⟩
  · have hdone := List.mem_map_of_mem (f := Proposal.done) hp
    have hother : p.done ∉ (popFor leader e q).rejected.map Proposal.done :=
      fun hmem => List.disjoint_of_nodup_append hnodup₁ hmem hdone
    rw [tells_of_found (Option.mem_toList.mp hp), filter_flatMap_of_notMem hreject hother,
      filter_flatMap_of_mem hanswer hnodup₁.of_append_right hp]
    exact ⟨by simp, by simp, fun _ => hqueue _ (List.mem_append_right _ hdone)⟩
  · have hdone := List.mem_map_of_mem (f := Proposal.done) hp
    have hrest : ∀ d ∈ (popFor leader e q).rejected.map Proposal.done ++
        (popFor leader e q).found.toList.map Proposal.done, d ≠ p.done := by
      rintro d hd rfl
      exact hqueue _ hd hdone
    rw [tells_of_queue hsorted hp,
      filter_flatMap_of_notMem hreject fun hmem => hrest _ (List.mem_append_left _ hmem) rfl,
      filter_flatMap_of_notMem hanswer fun hmem => hrest _ (List.mem_append_right _ hmem) rfl]
    exact ⟨by simp, fun _ => hp, by simp⟩

end

/-! ## One client, in the whole run -/

/-- The state of the client behind `p`: what it was told, and whether it still waits. -/
structure Told (p : Proposal) (told : Option (List Callback)) (l : Ledger) : Prop where
  ran : l.ran.filter (·.done = p.done) = told.getD []
  waits : told = none → p ∈ l.proposals
  gone : told ≠ none → p.done ∉ l.proposals.map Proposal.done

/-- A client waits from the moment its request is queued. -/
lemma LedgerStep.told_queued (hs : LedgerStep codec l r l') (hp : r.proposal? = some p)
    (hran : ∀ cb ∈ l.ran, cb.done < l.calls) :
    Told p none l' ∧ l'.kvDb = l.kvDb ∧ p.done < l'.calls := by
  cases hs with
  | proposed _ _ hp' =>
      cases hp
      subst hp'
      refine ⟨⟨?_, ?_, ?_⟩, rfl, Nat.lt_succ_self _⟩
      · refine List.filter_eq_nil_iff.mpr ?_
        intro cb hcb
        simpa using (hran cb hcb).ne
      · intro _
        exact List.mem_append_right _ (List.mem_singleton_self _)
      · intro hne
        exact absurd rfl hne
  | _ => cases hp

/-- A client that waits is told what the record tells it. -/
lemma LedgerStep.told_of_waiting (hs : LedgerStep codec l r l') (ht : Told p none l)
    (hsorted : l.proposals.Pairwise fun p p' => p.key < p'.key)
    (hnodup : (l.proposals.map Proposal.done).Nodup) (hlt : p.done < l.calls) :
    Told p (r.tells codec p l.kvDb) l' := by
  have hran : l.ran.filter (·.done = p.done) = [] := ht.ran
  cases hs with
  | refused _ =>
      refine ⟨?_, fun _ => ht.waits rfl, fun hne => absurd rfl hne⟩
      rw [List.filter_append, hran]
      simpa [Record.tells, Record.delivery?] using hlt.ne'
  | proposed _ _ _ =>
      exact ⟨hran, fun _ => List.mem_append_left _ (ht.waits rfl), fun hne => absurd rfl hne⟩
  | stepped => exact ht
  | ticked => exact ht
  | @delivered v e db r hdb hr =>
      subst hr
      obtain ⟨htold, hwaits, hgone⟩ :=
        popFor_tells codec l.kvDb v.leader e hsorted hnodup (ht.waits rfl)
      refine ⟨?_, hwaits, hgone⟩
      rw [List.append_assoc, List.filter_append, hran, List.nil_append]
      exact htold

/-- A client that was told something is told nothing more. -/
lemma LedgerStep.told_of_gone {told : List Callback} (hs : LedgerStep codec l r l')
    (ht : Told p (some told) l) (hlt : p.done < l.calls) : Told p (some told) l' := by
  have hran : l.ran.filter (·.done = p.done) = told := ht.ran
  have hgone := ht.gone (by simp)
  cases hs with
  | refused _ =>
      refine ⟨?_, by simp, fun _ => hgone⟩
      rw [List.filter_append, hran]
      simpa using hlt.ne'
  | proposed _ _ hp =>
      subst hp
      refine ⟨hran, by simp, fun _ => ?_⟩
      rw [List.map_append, List.mem_append, not_or]
      exact ⟨hgone, by simpa using hlt.ne⟩
  | stepped => exact ht
  | ticked => exact ht
  | @delivered v e db r hdb hr =>
      subst hr
      rw [← popFor_append v.leader e l.proposals, List.map_append, List.map_append,
        List.mem_append, List.mem_append, not_or, not_or] at hgone
      obtain ⟨⟨hrejected, hfound⟩, hqueue⟩ := hgone
      refine ⟨?_, by simp, fun _ => hqueue⟩
      rw [List.map_eq_flatMap, List.filter_append, List.filter_append, hran,
        filter_flatMap_of_notMem (by simp [Proposal.reject]) hrejected,
        filter_flatMap_of_notMem (fun _ _ hcb => done_of_mem_answer hcb) hfound]
      simp

/-- The client is told what its fate says, from the moment its request is queued. -/
lemma LedgerSteps.told {h₁ : List Record} {l₁ : Ledger} (hs : LedgerSteps codec l₁ h l)
    (hfirst : LedgerSteps codec l₀ h₁ l₁) (hj : PeerJraft codec (h₁ ++ h))
    (hcalls : l₀.calls = 0) (hempty : l₀.proposals = []) (hlt : p.done < l₁.calls)
    (ht : Told p none l₁) : Told p (fate codec p l₁.kvDb h) l := by
  induction hs with
  | nil => exact ht
  | @snoc h l l' r hs hstep ih =>
      rw [← List.append_assoc] at hj
      have hall := hfirst.trans hs
      have ht' := ih hj.of_append
      have hlt' : p.done < l.calls := lt_of_lt_of_le hlt (LedgerSteps.calls_le hs)
      cases hfate : fate codec p l₁.kvDb h with
      | none =>
          rw [fate_append_of_none hfate, ← LedgerSteps.kvDb_eq hs]
          rw [hfate] at ht'
          exact hstep.told_of_waiting ht' (pending_sorted hall hj.of_append hempty)
            (LedgerSteps.pending_nodup hall hcalls hempty) hlt'
      | some told =>
          rw [fate_append_of_some hfate]
          rw [hfate] at ht'
          exact hstep.told_of_gone ht' hlt'

variable {σ : Type} {raft : RawNode σ} {s₀ s : Server σ} {h₁ h₂ : List Record}

/-- **What becomes of a request is decided by the committed entries alone.**  In every run in which
a peer has queued a request, and in which jraft appends all requests and delivers in order: the
callbacks its client has received so far are the ones `fate` says, and the request is pending
exactly as long as `fate` says that the client waits. -/
theorem request_fate (run : (serverMachine raft codec).Run s₀ (h₁ ++ r :: h₂) s)
    (hfresh : s₀.Fresh) (hj : PeerJraft codec (h₁ ++ r :: h₂)) (hp : r.proposal? = some p) :
    let told := fate codec p (replayLog codec s₀.kvDb (entriesOf h₁)) h₂
    s.ran.filter (·.done = p.done) = told.getD [] ∧ (p ∈ s.proposals ↔ told = none) := by
  intro told
  obtain ⟨l, l₁, hfirst, hstep, hrest⟩ := Steps.exists_step (run_ledger run)
  have hb := LedgerSteps.balanced hfirst hfresh.calls hfresh.proposals hfresh.ran
  have hdb : l.kvDb = replayLog codec s₀.kvDb (entriesOf h₁) := LedgerSteps.kvDb_eq hfirst
  obtain ⟨hqueued, hkept, hnext⟩ := hstep.told_queued hp fun _ => hb.done_lt
  have ht := LedgerSteps.told hrest (Steps.snoc hfirst hstep) (by simpa using hj) hfresh.calls
    hfresh.proposals hnext hqueued
  rw [hkept, hdb] at ht
  refine ⟨ht.ran, ?_, ht.waits⟩
  intro hpending
  by_contra hne
  exact ht.gone hne (List.mem_map_of_mem hpending)

/-- A `put` and a `get` are queued by the leader of term 1.  The entry of the `put` is committed;
then the leader of term 2 puts another entry where the `get` would have been. -/
theorem request_fate_deposed : ∃ h₁ r h₂ s,
    (serverMachine TrioNode.raft shortCodec).Run (trioServer 1) (h₁ ++ r :: h₂) s ∧
      PeerJraft shortCodec (h₁ ++ r :: h₂) ∧ r.proposal? = some ⟨3, 1, {}, 1⟩ ∧
      s.ran.filter (·.done = 1) = [⟨1, { rejected := true }⟩] ∧
      (⟨3, 1, {}, 1⟩ : Proposal) ∉ s.proposals := by
  obtain ⟨h, s, run, hval⟩ := Machine.exists_run (M := serverMachine TrioNode.raft shortCodec)
    (elect 1 ++ [.kvOp (putRequest 7 9), .kvOp (getRequest 7), acknowledge 1 2, tickConnected,
      appendEntries 2 2 [⟨2, 3, .kEntryNormal, []⟩] 3, tickConnected])
    (fun x => (decide (PeerJraft shortCodec x.1), x.1[3]?.bind Record.proposal?,
      fate shortCodec ⟨3, 1, {}, 1⟩ (replayLog shortCodec ∅ (entriesOf (x.1.take 3)))
        (x.1.drop 4)))
    (s := trioServer 1)
    (b := (true, some ⟨3, 1, {}, 1⟩, some [⟨1, { rejected := true }⟩])) (by decide +kernel)
  simp only [Prod.mk.injEq, decide_eq_true_eq, Option.bind_eq_some_iff] at hval
  obtain ⟨hj, ⟨r, hr, hp⟩, hfate⟩ := hval
  obtain ⟨hlen, hget⟩ := List.getElem?_eq_some_iff.mp hr
  have hsplit : h = h.take 3 ++ r :: h.drop 4 := by
    rw [← hget, ← List.drop_eq_getElem_cons hlen, List.take_append_drop]
  rw [hsplit] at run hj
  obtain ⟨hran, hpending⟩ := request_fate run (trioServer_fresh 1) hj hp
  have hempty : (trioServer 1).kvDb = ∅ := rfl
  rw [hempty, hfate] at hran hpending
  exact ⟨_, r, _, s, run, hj, hp, hran, by simp [hpending]⟩

end Jkv
