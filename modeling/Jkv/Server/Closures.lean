import Jkv.Server.Proposals

/-!
# Every closure is run once, in order

A closure is handed to the peer with a `KvOp` call and is run by whoever answers the call:
`KvOpCb`, the loop of `GetProposal`, `CallbackAll`, or `ProcessNormal`.  `closures_run_once` puts
them together: the closures of queued requests, in acceptance order, are the ones that were run, in
the order they were run, followed by the ones still queued.

A closure would be lost if a proposal were handed out to an entry that answers nobody: a
configuration change, or a command `kInvalid`.  `OrderlyEntries` says that neither happens.
-/

namespace Jkv

/-- The closure of a request that the leader check refused. -/
def Record.refused? (r : Record) : Option Closure :=
  match r.act with
  | .refused done => some done
  | _ => none

/-- The closures of refused requests. -/
def refusedOf (h : List Record) : List Closure := h.filterMap Record.refused?

/-- The closures of queued requests, in acceptance order. -/
def acceptedOf (h : List Record) : List Closure := (proposedOf h).map Proposal.done

@[simp] lemma refusedOf_nil : refusedOf [] = [] := rfl

@[simp] lemma acceptedOf_nil : acceptedOf [] = [] := rfl

@[simp] lemma refusedOf_append (h h' : List Record) :
    refusedOf (h ++ h') = refusedOf h ++ refusedOf h' := List.filterMap_append ..

@[simp] lemma acceptedOf_append (h h' : List Record) :
    acceptedOf (h ++ h') = acceptedOf h ++ acceptedOf h' := by simp [acceptedOf]

lemma refusedOf_of_none {h : List Record} {r : Record} (hr : r.refused? = none) :
    refusedOf (h ++ [r]) = refusedOf h := by simp [refusedOf, hr]

lemma refusedOf_of_some {h : List Record} {r : Record} {d : Closure} (hr : r.refused? = some d) :
    refusedOf (h ++ [r]) = refusedOf h ++ [d] := by simp [refusedOf, hr]

lemma acceptedOf_of_some {h : List Record} {r : Record} {p : Proposal}
    (hr : r.proposal? = some p) : acceptedOf (h ++ [r]) = acceptedOf h ++ [p.done] := by
  simp [acceptedOf, proposedOf, hr]

lemma acceptedOf_of_none {h : List Record} {r : Record} (hr : r.proposal? = none) :
    acceptedOf (h ++ [r]) = acceptedOf h := by simp [acceptedOf, proposedOf, hr]

variable {codec : Codec} {l₀ l l' : Ledger} {h : List Record} {r : Record} {p : Proposal}
  {r' : Popped Proposal}

/-! ## Closures are numbered -/

lemma LedgerStep.closures_perm (hs : LedgerStep codec l r l')
    (hn : (acceptedOf h ++ refusedOf h).Perm (List.range l.calls)) :
    (acceptedOf (h ++ [r]) ++ refusedOf (h ++ [r])).Perm (List.range l'.calls) := by
  rw [acceptedOf_append, refusedOf_append]
  cases hs with
  | refused _ =>
      show (acceptedOf h ++ [] ++ (refusedOf h ++ [l.calls])).Perm (List.range (l.calls + 1))
      rw [List.append_nil, ← List.append_assoc, List.range_succ]
      exact hn.append_right _
  | proposed _ _ hp =>
      subst hp
      show (acceptedOf h ++ [l.calls] ++ (refusedOf h ++ [])).Perm (List.range (l.calls + 1))
      rw [List.append_nil, List.append_assoc, List.range_succ]
      exact (List.perm_append_comm.append_left _).trans
        ((List.append_assoc ..).symm ▸ hn.append_right _)
  | _ =>
      show (acceptedOf h ++ [] ++ (refusedOf h ++ [])).Perm _
      simpa using hn

/-- The calls so far, accepted or refused, are numbered from zero. -/
lemma LedgerSteps.closures_perm (hs : LedgerSteps codec l₀ h l) (hcalls : l₀.calls = 0) :
    (acceptedOf h ++ refusedOf h).Perm (List.range l.calls) := by
  induction hs with
  | nil => simp [hcalls]
  | snoc _ hstep ih => exact hstep.closures_perm ih

lemma LedgerSteps.closures_nodup (hs : LedgerSteps codec l₀ h l) (hcalls : l₀.calls = 0) :
    (acceptedOf h ++ refusedOf h).Nodup :=
  (hs.closures_perm hcalls).nodup_iff.mpr List.nodup_range

/-! ## The account -/

/-- What the entries of a run have to keep: no configuration change is delivered, and the command
`kInvalid` only comes with the empty entry of a new leader, before every proposal of its term. -/
structure OrderlyEntries (codec : Codec) (h : List Record) : Prop where
  no_confChange : ∀ e ∈ entriesOf h, e.type = .kEntryNormal
  noop_first : ∀ e ∈ entriesOf h, ∀ req ∈ codec.parse e.data, req.cmdType = kInvalid →
    e.data = [] ∧ ∀ p ∈ proposedOf h, p.term = e.term → e.index < p.index

/-- The closures of queued requests are the ones that were run, in order, and the ones still queued;
those of refused requests were run once, with `rejected` set. -/
structure Accounted (h : List Record) (l : Ledger) : Prop where
  accepted : acceptedOf h
    = (l.ran.map Callback.done).filter (· ∉ refusedOf h) ++ l.proposals.map Proposal.done
  refused : l.ran.filter (·.done ∈ refusedOf h) = (refusedOf h).map (⟨·, { rejected := true }⟩)

lemma OrderlyEntries.of_append {h' : List Record} (ho : OrderlyEntries codec (h ++ h')) :
    OrderlyEntries codec h where
  no_confChange e he := ho.no_confChange e (by simp [he])
  noop_first e he req hreq hinvalid := by
    obtain ⟨hdata, hlt⟩ := ho.noop_first e (by simp [he]) req hreq hinvalid
    refine ⟨hdata, ?_⟩
    intro p hp
    exact hlt p (by simp [hp])

/-- A proposal handed out to an orderly entry is answered. -/
lemma answer_done {e : Entry} {db : KvDb} (ho : OrderlyEntries codec h) (he : e ∈ entriesOf h)
    (hp : p ∈ proposedOf h) (hkey : p.index = e.index ∧ p.term = e.term)
    (hdb : applyEntry codec l.kvDb e = .ok db) :
    (answer codec l.kvDb e p).map Callback.done = [p.done] := by
  rw [applyEntry] at hdb
  split at hdb
  · next cmd hdecode =>
      rw [answer_of_decode hdecode]
      cases cmd with
      | noop =>
          exfalso
          have htype := ho.no_confChange e he
          simp only [decode, htype, if_true] at hdecode
          split at hdecode
          · cases hdecode
          · next req hparse =>
              have hinvalid : req.cmdType = kInvalid := by
                rw [commandOf] at hdecode
                split_ifs at hdecode with h₁ <;> first | exact h₁ | cases hdecode
              have hlt := (ho.noop_first e he req hparse hinvalid).2 p hp hkey.2
              omega
      | get _ => rfl
      | put _ _ => rfl
      | del _ => rfl
  · cases hdb

/-- The closures a delivery runs are the ones it took out of the queue. -/
lemma delivered_dones {e : Entry} {db : KvDb} {leader : Bool} (ho : OrderlyEntries codec h)
    (he : e ∈ entriesOf h) (hpending : l.proposals ⊆ proposedOf h)
    (hdb : applyEntry codec l.kvDb e = .ok db) (hr : r' = popFor leader e l.proposals) :
    (r'.rejected.map Proposal.reject ++
        r'.found.toList.flatMap (answer codec l.kvDb e)).map Callback.done ++
      r'.queue.map Proposal.done = l.proposals.map Proposal.done := by
  have hpop := popFor_append leader e l.proposals
  have hfound : (r'.found.toList.flatMap (answer codec l.kvDb e)).map Callback.done
      = r'.found.toList.map Proposal.done := by
    cases hf : r'.found with
    | none => rfl
    | some p =>
        rw [hr] at hf
        have hmem : p ∈ l.proposals := by rw [← hpop, hf]; simp
        simp [answer_done ho he (hpending hmem) (popFor_found hf) hdb]
  have hrejected : (r'.rejected.map Proposal.reject).map Callback.done
      = r'.rejected.map Proposal.done := by simp [Proposal.reject]
  rw [List.map_append, hfound, hrejected, ← List.map_append, ← List.map_append, hr, hpop]

lemma Accounted.mem_closures (ha : Accounted h l) {cb : Callback} (hcb : cb ∈ l.ran) :
    cb.done ∈ acceptedOf h ++ refusedOf h := by
  by_cases hr : cb.done ∈ refusedOf h
  · exact List.mem_append_right _ hr
  · refine List.mem_append_left _ ?_
    rw [ha.accepted]
    refine List.mem_append_left _ (List.mem_filter.mpr ⟨List.mem_map_of_mem hcb, by simpa using hr⟩)

/-- A record that neither queues nor refuses a request leaves the account as it is. -/
lemma Accounted.of_none (ha : Accounted h l) (hp : r.proposal? = none) (hr : r.refused? = none) :
    Accounted (h ++ [r]) l where
  accepted := by rw [refusedOf_of_none hr, acceptedOf_of_none hp, ha.accepted]
  refused := by rw [refusedOf_of_none hr, ha.refused]

/-- Closures move from the front of the queue to the end of those that were run. -/
lemma Accounted.run {new : List Callback} {queue : List Proposal} {db : KvDb} (ha : Accounted h l)
    (hdones : new.map Callback.done ++ queue.map Proposal.done = l.proposals.map Proposal.done)
    (hnew : ∀ cb ∈ new, cb.done ∉ refusedOf h) :
    Accounted h { l with kvDb := db, proposals := queue, ran := l.ran ++ new } where
  accepted := by
    have hrun : (new.map Callback.done).filter (· ∉ refusedOf h) = new.map Callback.done := by
      refine List.filter_eq_self.mpr ?_
      intro d hd
      obtain ⟨cb, hcb, rfl⟩ := List.mem_map.mp hd
      simpa using hnew cb hcb
    rw [ha.accepted, ← hdones, List.map_append, List.filter_append, hrun, List.append_assoc]
  refused := by
    have hrun : new.filter (·.done ∈ refusedOf h) = [] := by
      refine List.filter_eq_nil_iff.mpr ?_
      intro cb hcb
      simpa using hnew cb hcb
    rw [List.filter_append, ha.refused, hrun, List.append_nil]

/-- A refused request has a closure of its own, which is run at once. -/
lemma Accounted.refuse (ha : Accounted h l) (hcalls : ∀ cb ∈ l.ran, cb.done ≠ l.calls)
    (hp : r.proposal? = none) (hr : r.refused? = some l.calls) :
    Accounted (h ++ [r])
      { l with ran := l.ran ++ [⟨l.calls, { rejected := true }⟩], calls := l.calls + 1 } where
  accepted := by
    have hkeep : (l.ran.map Callback.done).filter (· ∉ refusedOf h ++ [l.calls])
        = (l.ran.map Callback.done).filter (· ∉ refusedOf h) := by
      refine List.filter_congr ?_
      intro d hd
      obtain ⟨cb, hcb, rfl⟩ := List.mem_map.mp hd
      simp [hcalls cb hcb]
    rw [refusedOf_of_some hr, acceptedOf_of_none hp, ha.accepted, List.map_append,
      List.filter_append, hkeep]
    simp
  refused := by
    have hkeep : l.ran.filter (·.done ∈ refusedOf h ++ [l.calls])
        = l.ran.filter (·.done ∈ refusedOf h) := by
      refine List.filter_congr ?_
      intro cb hcb
      simp [hcalls cb hcb]
    rw [refusedOf_of_some hr, List.filter_append, hkeep, ha.refused]
    simp

/-- One record keeps the account. -/
lemma LedgerStep.accounted (hs : LedgerSteps codec l₀ h l) (hstep : LedgerStep codec l r l')
    (hcalls : l₀.calls = 0) (hempty : l₀.proposals = []) (ho : OrderlyEntries codec (h ++ [r]))
    (ha : Accounted h l) : Accounted (h ++ [r]) l' := by
  cases hstep with
  | refused _ =>
      refine ha.refuse ?_ rfl rfl
      intro cb hcb
      have hmem := (hs.closures_perm hcalls).subset (ha.mem_closures hcb)
      exact (List.mem_range.mp hmem).ne
  | proposed _ _ _ =>
      refine ⟨?_, ?_⟩
      · rw [refusedOf_of_none rfl, acceptedOf_of_some rfl, ha.accepted, List.append_assoc]
        simp
      · rw [refusedOf_of_none rfl]
        exact ha.refused
  | stepped => exact ha.of_none rfl rfl
  | ticked => exact ha.of_none rfl rfl
  | @delivered v e db r' hdb hr =>
      have hpending := hs.pending_subset hempty
      have hdones := delivered_dones ho (by simp [entriesOf, Record.delivery?])
        (fun p hp => by rw [proposedOf_append]; exact List.mem_append_left _ (hpending hp)) hdb hr
      rw [List.append_assoc]
      refine (ha.run hdones ?_).of_none rfl rfl
      -- what is run now was accepted, so it was not refused
      intro cb hcb
      have hmem : cb.done ∈ l.proposals.map Proposal.done := by
        rw [← hdones]
        exact List.mem_append_left _ (List.mem_map_of_mem hcb)
      obtain ⟨p, hp, hdone⟩ := List.mem_map.mp hmem
      rw [← hdone]
      exact List.disjoint_of_nodup_append (hs.closures_nodup hcalls)
        (List.mem_map_of_mem (hpending hp))

/-- A whole history keeps the account. -/
lemma LedgerSteps.accounted (hs : LedgerSteps codec l₀ h l) (hcalls : l₀.calls = 0)
    (hempty : l₀.proposals = []) (hran : l₀.ran = []) (ho : OrderlyEntries codec h) :
    Accounted h l := by
  induction hs with
  | nil => exact ⟨by simp [hran, hempty], by simp [hran]⟩
  | snoc hs hstep ih => exact hstep.accounted hs hcalls hempty ho (ih ho.of_append)

/-! ## Reading the account -/

/-- Among the closures that were run, the accepted ones are those that were not refused. -/
lemma Accounted.filter_accepted (ha : Accounted h l)
    (hnodup : (acceptedOf h ++ refusedOf h).Nodup) :
    (l.ran.map Callback.done).filter (· ∈ acceptedOf h)
      = (l.ran.map Callback.done).filter (· ∉ refusedOf h) := by
  refine List.filter_congr ?_
  intro d hd
  obtain ⟨cb, hcb, rfl⟩ := List.mem_map.mp hd
  have hmem := List.mem_append.mp (ha.mem_closures hcb)
  have hdisjoint := List.disjoint_of_nodup_append hnodup (a := cb.done)
  simp only [decide_eq_decide]
  tauto

/-- A refused closure was run once. -/
lemma Accounted.filter_refused (ha : Accounted h l) (hnodup : (refusedOf h).Nodup) {d : Closure}
    (hd : d ∈ refusedOf h) : l.ran.filter (·.done = d) = [⟨d, { rejected := true }⟩] := by
  have hfilter : l.ran.filter (·.done = d)
      = (l.ran.filter (·.done ∈ refusedOf h)).filter (·.done = d) := by
    rw [List.filter_filter]
    refine List.filter_congr ?_
    intro cb _
    by_cases hcb : cb.done = d <;> simp [hcb, hd]
  rw [hfilter, ha.refused, List.filter_map]
  have hone : (refusedOf h).filter (· = d) = [d] := by
    rw [List.filter_eq, List.count_eq_one_of_mem hnodup hd]
    rfl
  show ((refusedOf h).filter (· = d)).map _ = _
  rw [hone]
  rfl

/-- Every closure was run or is queued. -/
lemma Accounted.perm (ha : Accounted h l) :
    (l.ran.map Callback.done ++ l.proposals.map Proposal.done).Perm
      (acceptedOf h ++ refusedOf h) := by
  have hrefused : (l.ran.map Callback.done).filter (· ∈ refusedOf h) = refusedOf h := by
    rw [List.filter_map]
    show (l.ran.filter (·.done ∈ refusedOf h)).map Callback.done = _
    rw [ha.refused, List.map_map]
    simp [Function.comp_def]
  have hsplit : (refusedOf h ++ (l.ran.map Callback.done).filter (· ∉ refusedOf h)).Perm
      (l.ran.map Callback.done) := by
    have hperm := List.filter_append_perm (· ∈ refusedOf h) (l.ran.map Callback.done)
    rw [hrefused] at hperm
    simpa using hperm
  rw [ha.accepted]
  refine (hsplit.symm.append_right _).trans ?_
  rw [List.append_assoc]
  exact List.perm_append_comm

variable {σ : Type} {raft : RawNode σ}

/-- **Every closure is run exactly once, in order.**  The closures of queued requests are, in
acceptance order, those that were run, in the order they were run, and then those still queued; a
refused request's closure was run once, with `rejected` set, and never queued; and every call's
closure was run once or is queued once. -/
theorem closures_run_once {s₀ s : Server σ} (run : (serverMachine raft codec).Run s₀ h s)
    (hfresh : s₀.Fresh) (ho : OrderlyEntries codec h) :
    acceptedOf h = (s.ran.map Callback.done).filter (· ∈ acceptedOf h) ++
        s.proposals.map Proposal.done ∧
      (∀ d ∈ refusedOf h, s.ran.filter (·.done = d) = [⟨d, { rejected := true }⟩] ∧
        d ∉ acceptedOf h) ∧
      (s.ran.map Callback.done ++ s.proposals.map Proposal.done).Perm (List.range s.calls) := by
  have hs := run_ledger run
  have ha := hs.accounted hfresh.calls hfresh.proposals hfresh.ran ho
  have hnodup := hs.closures_nodup hfresh.calls
  refine ⟨?_, ?_, ?_⟩
  · have haccepted := ha.accepted
    rw [← ha.filter_accepted hnodup] at haccepted
    exact haccepted
  · intro d hd
    refine ⟨ha.filter_refused hnodup.of_append_right hd, ?_⟩
    intro haccepted
    exact List.disjoint_of_nodup_append hnodup haccepted hd
  · exact ha.perm.trans (hs.closures_perm hfresh.calls)

set_option synthInstance.maxSize 512 in
instance (codec : Codec) (h : List Record) : Decidable (OrderlyEntries codec h) :=
  decidable_of_iff (_ ∧ _) ⟨fun ⟨h₁, h₂⟩ => ⟨h₁, h₂⟩, fun ⟨h₁, h₂⟩ => ⟨h₁, h₂⟩⟩

/-- Five requests at one peer: one refused while it follows, one acknowledged, two rejected after a
step-down, and one pending in a new term. -/
theorem closures_run_once_five : ∃ h s,
    (serverMachine TrioNode.raft shortCodec).Run (trioServer 1) h s ∧
      OrderlyEntries shortCodec h ∧ refusedOf h = [0] ∧
      acceptedOf h = (s.ran.map Callback.done).filter (· ∈ acceptedOf h) ++
        s.proposals.map Proposal.done := by
  obtain ⟨h, s, run, hval⟩ := Machine.exists_run (M := serverMachine TrioNode.raft shortCodec)
    ([.kvOp (putRequest 7 9)] ++ elect 1 ++ [.kvOp (putRequest 7 9), acknowledge 1 2, tickConnected,
      .kvOp (getRequest 7), .kvOp (delRequest 7),
      appendEntries 2 2 [⟨2, 3, .kEntryNormal, []⟩] 3, tickConnected] ++
      elect 3 ++ [.kvOp (putRequest 7 9)])
    (fun r => (decide (OrderlyEntries shortCodec r.1), refusedOf r.1))
    (s := trioServer 1) (b := (true, [0])) (by decide +kernel)
  simp only [Prod.mk.injEq, decide_eq_true_eq] at hval
  obtain ⟨ho, hrefused⟩ := hval
  exact ⟨h, s, run, ho, hrefused, (closures_run_once run (trioServer_fresh 1) ho).1⟩

end Jkv
