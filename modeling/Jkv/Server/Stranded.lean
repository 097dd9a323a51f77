import Jkv.Server.Admission

/-!
# Who is never answered

`closures_run_once` asks the entries of a run to be orderly.  Here nothing is asked: not of the
entries, not of the clients, and not of jraft.

There is one way to leave the queue without being answered, which is to be handed out to an entry
that answers nobody: a configuration change, or the command `kInvalid`.  `strandedOf` lists the
closures that left this way, and with them the account is complete in every run
(`requests_balance`).
-/

namespace Jkv

/-- The entry answers nobody. -/
def Entry.silent (codec : Codec) (e : Entry) : Bool :=
  match decode codec e with
  | .ok .noop => true
  | _ => false

/-- The closure of a proposal that was handed out to an entry which answers nobody. -/
def Record.stranded? (codec : Codec) (r : Record) : Option Closure :=
  match r.act with
  | .delivered e _ _ (some p) => if e.silent codec then some p.done else none
  | _ => none

/-- The closures that have left the queue and are never run. -/
def strandedOf (codec : Codec) (h : List Record) : List Closure :=
  h.filterMap (Record.stranded? codec)

@[simp] lemma strandedOf_append (codec : Codec) (h h' : List Record) :
    strandedOf codec (h ++ h') = strandedOf codec h ++ strandedOf codec h' :=
  List.filterMap_append ..

variable {codec : Codec} {l₀ l l' : Ledger} {h : List Record} {r : Record} {p : Proposal}
  {e : Entry} {db db' : KvDb}

/-- Silent are the entries that `ProcessNormal` is not called on, and the requests for nothing. -/
lemma Entry.silent_iff : e.silent codec = true ↔ e.type ≠ .kEntryNormal ∨
    ∃ req, codec.parse e.data = some req ∧ req.cmdType = kInvalid := by
  rw [Entry.silent]
  by_cases htype : e.type = .kEntryNormal
  · cases hparse : codec.parse e.data with
    | none => simp [decode, htype, hparse]
    | some req =>
        rw [decode_normal htype hparse, commandOf]
        split_ifs with hinvalid <;> simp [htype, hinvalid]
  · simp [decode, htype]

/-- An entry that was applied answers the proposal it is matched with, or is silent. -/
lemma answer_or_silent (hdb : applyEntry codec db e = .ok db') (p : Proposal) :
    (answer codec db e p).map Callback.done ++ (if e.silent codec then [p.done] else [])
      = [p.done] := by
  rw [applyEntry] at hdb
  split at hdb
  · next cmd hdecode =>
      rw [answer_of_decode hdecode, Entry.silent, hdecode]
      cases cmd <;> rfl
  · cases hdb

/-- Who is taken out of the queue by a delivery is answered, in the order of the queue, or
stranded. -/
lemma delivered_dones_perm (v : View Entry) (q : List Proposal)
    (hdb : applyEntry codec db e = .ok db') :
    let x := popFor v.leader e q
    let dones := (x.rejected.map Proposal.reject ++
      x.found.toList.flatMap (answer codec db e)).map Callback.done ++ x.queue.map Proposal.done
    dones.Sublist (q.map Proposal.done) ∧
      (dones ++ strandedOf codec [⟨v, v, .delivered e q x.rejected x.found⟩]).Perm
        (q.map Proposal.done) := by
  intro x dones
  have hrejected : (x.rejected.map Proposal.reject).map Callback.done
      = x.rejected.map Proposal.done := by simp [Proposal.reject]
  have hq : q.map Proposal.done = x.rejected.map Proposal.done ++
      (x.found.toList.map Proposal.done ++ x.queue.map Proposal.done) := by
    rw [← List.map_append, ← List.map_append, ← List.append_assoc]
    exact congrArg _ (popFor_append v.leader e q).symm
  simp only [dones, List.map_append, hrejected, List.append_assoc]
  rw [hq]
  cases hfound : x.found with
  | none =>
      have hnone : strandedOf codec [⟨v, v, .delivered e q x.rejected none⟩] = [] := rfl
      rw [hnone, List.append_nil]
      exact ⟨List.Sublist.refl _, List.Perm.refl _⟩
  | some p =>
      have hanswer := answer_or_silent hdb p
      have hstranded : strandedOf codec [⟨v, v, .delivered e q x.rejected (some p)⟩]
          = if e.silent codec then [p.done] else [] := by
        simp only [strandedOf, Record.stranded?, List.filterMap_cons, List.filterMap_nil]
        cases e.silent codec <;> rfl
      generalize (if e.silent codec then [p.done] else []) = silent at hanswer hstranded
      simp only [Option.toList_some, List.flatMap_singleton, List.map_singleton]
      refine ⟨?_, ?_⟩
      · refine (List.Sublist.refl _).append (List.Sublist.append ?_ (List.Sublist.refl _))
        rw [← hanswer]
        exact List.sublist_append_left _ _
      · rw [hstranded, ← hanswer, List.append_assoc]
        exact (List.perm_append_comm.append_left _).append_left _

/-! ## The complete account -/

/-- Every closure was run once, waits once, or is stranded; those of queued requests that were run,
and then those that wait, are in acceptance order; and those of refused requests were run with
`rejected` set. -/
structure Balanced (codec : Codec) (h : List Record) (l : Ledger) : Prop where
  once : (l.ran.map Callback.done ++ l.proposals.map Proposal.done ++ strandedOf codec h).Perm
    (List.range l.calls)
  inOrder : ((l.ran.map Callback.done).filter (· ∉ refusedOf h) ++
    l.proposals.map Proposal.done).Sublist (acceptedOf h)
  refused : ∀ d ∈ refusedOf h, ⟨d, { rejected := true }⟩ ∈ l.ran

/-- A record that neither queues, nor refuses, nor delivers. -/
lemma Balanced.of_none (hb : Balanced codec h l) (hp : r.proposal? = none) (hr : r.refused? = none)
    (hst : r.stranded? codec = none) : Balanced codec (h ++ [r]) l where
  once := by
    have hnone : strandedOf codec [r] = [] := by simp [strandedOf, hst]
    rw [strandedOf_append, hnone, List.append_nil]
    exact hb.once
  inOrder := by
    rw [refusedOf_of_none hr, acceptedOf_of_none hp]
    exact hb.inOrder
  refused := by
    rw [refusedOf_of_none hr]
    exact hb.refused

/-- A refused request is answered at once. -/
lemma Balanced.refuse (hb : Balanced codec h l) {v : View Entry} :
    Balanced codec (h ++ [⟨v, v, .refused l.calls⟩])
      { l with ran := l.ran ++ [⟨l.calls, { rejected := true }⟩], calls := l.calls + 1 } where
  once := by
    have hnone : strandedOf codec [⟨v, v, .refused l.calls⟩] = [] := rfl
    have honce := hb.once
    rw [strandedOf_append, hnone, List.append_nil, List.range_succ, List.map_append]
    simp only [List.perm_iff_count, List.count_append] at honce ⊢
    intro d
    rw [← honce d, List.map_singleton]
    dsimp only
    omega
  inOrder := by
    rw [refusedOf_of_some rfl, acceptedOf_of_none rfl, List.map_append, List.filter_append]
    have hown : ([l.calls] : List Closure).filter (· ∉ refusedOf h ++ [l.calls]) = [] := by simp
    rw [List.map_singleton, hown, List.append_nil]
    refine List.Sublist.trans (List.Sublist.append ?_ (List.Sublist.refl _)) hb.inOrder
    refine List.monotone_filter_right _ ?_
    intro d hd
    simp only [List.mem_append, not_or, decide_eq_true_eq] at hd ⊢
    exact hd.1
  refused := by
    intro d hd
    rw [refusedOf_of_some rfl] at hd
    rcases List.mem_append.mp hd with hd | hd
    · exact List.mem_append_left _ (hb.refused d hd)
    · rw [List.mem_singleton.mp hd]
      exact List.mem_append_right _ (List.mem_singleton_self _)

/-- An accepted request waits behind the others. -/
lemma Balanced.queue (hb : Balanced codec h l) (hp : r.proposal? = some p) (hr : r.refused? = none)
    (hst : r.stranded? codec = none) (hdone : p.done = l.calls) :
    Balanced codec (h ++ [r]) { l with proposals := l.proposals ++ [p], calls := l.calls + 1 } where
  once := by
    have hnone : strandedOf codec [r] = [] := by simp [strandedOf, hst]
    have honce := hb.once
    rw [strandedOf_append, hnone, List.append_nil, List.range_succ, List.map_append]
    simp only [List.perm_iff_count, List.count_append] at honce ⊢
    intro d
    rw [← honce d, List.map_singleton, hdone]
    omega
  inOrder := by
    rw [refusedOf_of_none hr, acceptedOf_of_some hp, List.map_append, ← List.append_assoc]
    exact hb.inOrder.append (List.Sublist.refl _)
  refused := by
    rw [refusedOf_of_none hr]
    exact hb.refused

/-- Who leaves the queue is answered or stranded. -/
lemma Balanced.deliver (hb : Balanced codec h l) {v : View Entry}
    (hdb : applyEntry codec l.kvDb e = .ok db) {x : Popped Proposal}
    (hx : x = popFor v.leader e l.proposals) :
    Balanced codec (h ++ [⟨v, v, .delivered e l.proposals x.rejected x.found⟩])
      { l with
        kvDb := db
        proposals := x.queue
        ran := l.ran ++ x.rejected.map Proposal.reject ++
          x.found.toList.flatMap (answer codec l.kvDb e) } := by
  obtain ⟨hsub, hperm⟩ := delivered_dones_perm v l.proposals hdb
  rw [← hx] at hsub hperm
  have honce := hb.once
  rw [List.append_assoc]
  refine ⟨?_, ?_, ?_⟩
  · rw [strandedOf_append]
    simp only [List.map_append, List.perm_iff_count, List.count_append] at hperm honce ⊢
    intro d
    rw [← honce d, ← hperm d]
    omega
  · rw [refusedOf_of_none rfl, acceptedOf_of_none rfl]
    refine List.Sublist.trans ?_ hb.inOrder
    rw [List.map_append, List.filter_append, List.append_assoc]
    refine (List.Sublist.refl _).append (List.Sublist.trans ?_ hsub)
    exact List.filter_sublist.append (List.Sublist.refl _)
  · rw [refusedOf_of_none rfl]
    intro d hd
    exact List.mem_append_left _ (hb.refused d hd)

/-- One record keeps the account. -/
lemma LedgerStep.balanced (hs : LedgerStep codec l r l') (hb : Balanced codec h l) :
    Balanced codec (h ++ [r]) l' := by
  cases hs with
  | refused _ => exact hb.refuse
  | proposed _ _ hp => exact hb.queue rfl rfl rfl (by rw [hp])
  | stepped => exact hb.of_none rfl rfl rfl
  | ticked => exact hb.of_none rfl rfl rfl
  | delivered hdb hx => exact hb.deliver hdb hx

/-- A whole history keeps the account. -/
lemma LedgerSteps.balanced (hs : LedgerSteps codec l₀ h l) (hcalls : l₀.calls = 0)
    (hempty : l₀.proposals = []) (hran : l₀.ran = []) : Balanced codec h l := by
  induction hs with
  | nil => exact ⟨by simp [hcalls, hempty, hran, strandedOf], by simp [hempty, hran], by simp⟩
  | snoc _ hstep ih => exact hstep.balanced ih

/-! ## Reading the account -/

lemma Balanced.nodup (hb : Balanced codec h l) :
    (l.ran.map Callback.done ++ l.proposals.map Proposal.done ++ strandedOf codec h).Nodup :=
  hb.once.nodup_iff.mpr List.nodup_range

/-- A closure that was run was run once. -/
lemma Balanced.filter_ran (hb : Balanced codec h l) {cb : Callback} (hcb : cb ∈ l.ran) :
    l.ran.filter (·.done = cb.done) = [cb] := by
  have hnodup := hb.nodup.of_append_left.of_append_left
  obtain ⟨ran₁, ran₂, hran⟩ := List.append_of_mem hcb
  rw [hran, List.map_append, List.map_cons] at hnodup
  have hfirst : ran₁.filter (·.done = cb.done) = [] := by
    refine List.filter_eq_nil_iff.mpr ?_
    intro cb' hcb' hsame
    rw [decide_eq_true_eq] at hsame
    exact List.disjoint_of_nodup_append hnodup (List.mem_map_of_mem hcb')
      (hsame ▸ List.mem_cons_self)
  have hrest : ran₂.filter (·.done = cb.done) = [] := by
    refine List.filter_eq_nil_iff.mpr ?_
    intro cb' hcb' hsame
    rw [decide_eq_true_eq] at hsame
    exact (List.nodup_cons.mp hnodup.of_append_right).1 (hsame ▸ List.mem_map_of_mem hcb')
  rw [hran, List.filter_append, hfirst, List.filter_cons_of_pos (by simp), hrest, List.nil_append]

lemma Balanced.filter_refused (hb : Balanced codec h l) {d : Closure} (hd : d ∈ refusedOf h) :
    l.ran.filter (·.done = d) = [⟨d, { rejected := true }⟩] := hb.filter_ran (hb.refused d hd)

variable {σ : Type} {raft : RawNode σ}

/-- **Where every request is, in every run.**  Whatever clients ask for, whatever entries are
committed and whatever jraft does: every request was answered exactly once, or waits exactly once in
the queue, or was handed out exactly once to an entry that answers nobody, and never two of these.
What was answered, and then what waits, is in the order in which it was accepted; and a refused
request was answered with `rejected` set. -/
theorem requests_balance {s₀ s : Server σ} (run : (serverMachine raft codec).Run s₀ h s)
    (hfresh : s₀.Fresh) :
    (s.ran.map Callback.done ++ s.proposals.map Proposal.done ++ strandedOf codec h).Perm
        (List.range s.calls) ∧
      ((s.ran.map Callback.done).filter (· ∉ refusedOf h) ++
        s.proposals.map Proposal.done).Sublist (acceptedOf h) ∧
      ∀ d ∈ refusedOf h, s.ran.filter (·.done = d) = [⟨d, { rejected := true }⟩] := by
  have hb := LedgerSteps.balanced (run_ledger run) hfresh.calls hfresh.proposals hfresh.ran
  exact ⟨hb.once, hb.inOrder, fun d hd => hb.filter_refused hd⟩

/-- A request with the command `kInvalid` is let in between two others.  Its entry is committed with
theirs: the others are answered, and it is not. -/
theorem requests_balance_invalid : ∃ h s,
    (serverMachine TrioNode.raft openCodec).Run (trioServer 1) h s ∧
      strandedOf openCodec h = [1] ∧
      (s.ran.map Callback.done ++ s.proposals.map Proposal.done ++ [1]).Perm (List.range 3) := by
  obtain ⟨h, s, run, hval⟩ := Machine.exists_run (M := serverMachine TrioNode.raft openCodec)
    (elect 1 ++ [.kvOp (putRequest 7 9), .kvOp {}, .kvOp (getRequest 7), acknowledge 1 4,
      tickConnected])
    (fun r => (strandedOf openCodec r.1, r.2.calls))
    (s := trioServer 1) (b := ([1], 3)) (by decide +kernel)
  simp only [Prod.mk.injEq] at hval
  obtain ⟨hstranded, hcalls⟩ := hval
  obtain ⟨hperm, -, -⟩ := requests_balance run (trioServer_fresh 1)
  rw [hstranded, hcalls] at hperm
  exact ⟨h, s, run, hstranded, hperm⟩

end Jkv
