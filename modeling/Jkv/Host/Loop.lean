import Jkv.Host.Peers

/-!
# The loop of a host's worker

Neither service does its work where it is called.  `KvOp` and `HandleRaftMsg` bind a task and hand
it to `RunInLoop`; the loop of the host's worker runs it later, between the tasks that came before,
those that came after and the timers of the peers.  `HandleRaftMsg` compares the host ids before it
posts its task, not when the task is run.

The loop is jrpc's, and the repository has only its header.  `EventLoop` is the interface, and
everything is proved for every loop behind it, whether it runs a task at once or later, and in
whatever order.  What the services rely on is that a task they post is run, and once
(`EventLoop.Lawful`).

A worker then does what its host does when calls are made on it one after the other, in the order
in which their tasks are run (`Worker.refines`), and every call of `KvOp` can be found in one place:
in the loop, among the answers, in the queue of peer 1, or with an entry that answers nobody
(`loop_accounts`).
-/

namespace Jkv

open Machine

variable {σ τ : Type}

/-- What the services bind: a function and its arguments.  `done` is the closure of the call. -/
inductive LoopTask
  | kvOpCb (req : KvReq) (done : Closure)
  | handleRaftMsgCb (req : RaftMsgReq)
  deriving DecidableEq

/-- `jrpc::EventLoop`, as the services use it.  Both calls also say which tasks the loop runs before
they return, and in what order. -/
structure EventLoop (τ : Type) where
  /-- `pending_tasks_`. -/
  pendingTasks : τ → List LoopTask
  runInLoop : τ → LoopTask → List LoopTask × τ
  doPendingTasks : τ → List LoopTask × τ

/-- What the names of the calls promise: a task that is posted is run in the loop, once.  Nothing is
said about when, or in what order. -/
structure EventLoop.Lawful (loop : EventLoop τ) : Prop where
  runInLoop : ∀ t task, (loop.pendingTasks t ++ [task]).Perm
    ((loop.runInLoop t task).1 ++ loop.pendingTasks (loop.runInLoop t task).2)
  doPendingTasks : ∀ t, (loop.pendingTasks t).Perm
    ((loop.doPendingTasks t).1 ++ loop.pendingTasks (loop.doPendingTasks t).2)

/-- A host, the loop of its worker, and how often `KvOp` was called. -/
structure Worker (σ τ : Type) where
  host : PeerHost σ
  loop : τ
  kvOps : ℕ := 0

/-- What happens at a worker. -/
inductive LoopEvent
  | kvOp (req : KvReq)
  | handleRaftMsg (req : RaftMsgReq)
  | doPendingTasks
  | timer (peerId : PeerId) (connect : SockAddress → Bool)

/-- What one sees of it. -/
inductive LoopObs
  | posted (task : LoopTask)
  | ran (task : LoopTask)
  | record (peerId : PeerId) (r : Record)

/-- The call on a host that a task stands for. -/
def LoopTask.event : LoopTask → HostEvent
  | .kvOpCb req _ => .kvOp req
  | .handleRaftMsgCb req => .raftMsg req

section

variable (loop : EventLoop τ) (raft : RawNode σ) (codec : Codec)

/-- The bound function.  A host numbers the requests as they come; which closure a number stands for
is kept in the history (`closureAt`). -/
def LoopTask.call : LoopTask → HostM σ Unit
  | .kvOpCb req _ => Jkv.kvOpCb raft codec req
  | .handleRaftMsgCb req => Jkv.handleRaftMsgCb raft req

/-- The loop runs tasks, one after the other. -/
def runTasks (tasks : List LoopTask) : HostM σ Unit := tasks.forM (LoopTask.call raft codec)

/-- A call on the host, from the loop. -/
def Worker.onHost (w : Worker σ τ) (call : HostM σ Unit) :
    EStateM.Result Fatal (Worker σ τ) Unit :=
  match call.run w.host with
  | .ok _ host => .ok () { w with host := host }
  | .error f host => .error f { w with host := host }

/-- `KvServiceImpl::KvOp`, `RaftMsgServiceImpl::HandleRaftMsg`, the loop when it wakes up, and the
timer of `Peer::StartTimer`.  The closure of a call of `KvOp` is its number. -/
def execLoop (w : Worker σ τ) : LoopEvent → EStateM.Result Fatal (Worker σ τ) Unit
  | .kvOp req =>
      let r := loop.runInLoop w.loop (.kvOpCb req w.kvOps)
      Worker.onHost { w with loop := r.2, kvOps := w.kvOps + 1 } (runTasks raft codec r.1)
  | .handleRaftMsg req =>
      if req.toPeer.hostId ≠ w.host.hostId then .error .wrongHost w
      else
        let r := loop.runInLoop w.loop (.handleRaftMsgCb req)
        Worker.onHost { w with loop := r.2 } (runTasks raft codec r.1)
  | .doPendingTasks =>
      let r := loop.doPendingTasks w.loop
      Worker.onHost { w with loop := r.2 } (runTasks raft codec r.1)
  | .timer peerId connect => w.onHost (onPeer peerId (tick raft codec connect))

/-- The records of the peer a call is made on. -/
def recordsAt (host : PeerHost σ) (ev : HostEvent) : List LoopObs :=
  ((peersMachine raft codec).obs host ev).map fun x => .record x.1 x.2

/-- What running tasks lets one see. -/
def seenOf (host : PeerHost σ) : List LoopTask → List LoopObs
  | [] => []
  | task :: tasks => .ran task :: recordsAt raft codec host task.event ++
      match (task.call raft codec).run host with
      | .ok _ host' => seenOf host' tasks
      | .error _ _ => []

/-- What a call lets one see. -/
def observeLoop (w : Worker σ τ) : LoopEvent → List LoopObs
  | .kvOp req =>
      let task := .kvOpCb req w.kvOps
      .posted task :: seenOf raft codec w.host (loop.runInLoop w.loop task).1
  | .handleRaftMsg req =>
      let task := .handleRaftMsgCb req
      .posted task :: seenOf raft codec w.host (loop.runInLoop w.loop task).1
  | .doPendingTasks => seenOf raft codec w.host (loop.doPendingTasks w.loop).1
  | .timer peerId connect => recordsAt raft codec w.host (.tick peerId connect)

/-- A worker, as a machine. -/
def loopMachine : Machine (Worker σ τ) LoopEvent LoopObs where
  exec w ev := match execLoop loop raft codec w ev with
    | .ok _ w' => some w'
    | .error _ _ => none
  obs := observeLoop loop raft codec

end

variable {loop : EventLoop τ} {raft : RawNode σ} {codec : Codec} {w w₀ w' : Worker σ τ}
  {host host' : PeerHost σ} {task : LoopTask} {tasks : List LoopTask}

/-! ## What one sees, sorted -/

/-- The records among what one sees. -/
def LoopObs.record? : LoopObs → Option (PeerId × Record)
  | .record peerId r => some (peerId, r)
  | _ => none

def LoopObs.posted? : LoopObs → Option LoopTask
  | .posted task => some task
  | _ => none

def LoopObs.ran? : LoopObs → Option LoopTask
  | .ran task => some task
  | _ => none

/-- The closure a task was bound with. -/
def LoopTask.done? : LoopTask → Option Closure
  | .kvOpCb _ done => some done
  | .handleRaftMsgCb _ => none

/-- The tasks that were posted, in order. -/
def postedOf (h : List LoopObs) : List LoopTask := h.filterMap LoopObs.posted?

/-- The tasks that were run, in order. -/
def ranOf (h : List LoopObs) : List LoopTask := h.filterMap LoopObs.ran?

/-- The closures among the arguments of tasks. -/
def closuresOf (tasks : List LoopTask) : List Closure := tasks.filterMap LoopTask.done?

/-- The closure of the call of `KvOp` whose task was the `k`-th one to be run. -/
def closureAt (h : List LoopObs) (k : ℕ) : Closure := (closuresOf (ranOf h)).getD k 0

@[simp] lemma postedOf_append (h h' : List LoopObs) :
    postedOf (h ++ h') = postedOf h ++ postedOf h' := List.filterMap_append ..

@[simp] lemma ranOf_append (h h' : List LoopObs) : ranOf (h ++ h') = ranOf h ++ ranOf h' :=
  List.filterMap_append ..

@[simp] lemma closuresOf_append (tasks tasks' : List LoopTask) :
    closuresOf (tasks ++ tasks') = closuresOf tasks ++ closuresOf tasks' :=
  List.filterMap_append ..

lemma tasks_of_records (raft : RawNode σ) (codec : Codec) (host : PeerHost σ) (ev : HostEvent) :
    postedOf (recordsAt raft codec host ev) = [] ∧ ranOf (recordsAt raft codec host ev) = [] := by
  constructor
  · simp [postedOf, recordsAt, List.filterMap_map, Function.comp_def, LoopObs.posted?]
  · simp [ranOf, recordsAt, List.filterMap_map, Function.comp_def, LoopObs.ran?]

lemma tasks_of_posted (tasks : List LoopTask) :
    (tasks.map LoopObs.posted).filterMap LoopObs.record? = [] ∧
      postedOf (tasks.map LoopObs.posted) = tasks ∧ ranOf (tasks.map LoopObs.posted) = [] := by
  refine ⟨?_, ?_, ?_⟩
  · simp [List.filterMap_map, Function.comp_def, LoopObs.record?]
  · simp [postedOf, List.filterMap_map, Function.comp_def, LoopObs.posted?]
  · simp [ranOf, List.filterMap_map, Function.comp_def, LoopObs.ran?]

/-! ## The tasks of a host -/

/-- The host ids of a task that was posted have been compared. -/
def LoopTask.Checked (host : PeerHost σ) : LoopTask → Prop
  | .kvOpCb _ _ => True
  | .handleRaftMsgCb req => req.toPeer.hostId = host.hostId

/-- Comparing the host ids early is comparing them. -/
lemma LoopTask.Checked.call_run (hc : task.Checked host) :
    (task.call raft codec).run host = execHost raft codec host task.event := by
  cases task with
  | kvOpCb req done => rfl
  | handleRaftMsgCb req =>
      have hhost : ¬ req.toPeer.hostId ≠ host.hostId := not_not.mpr hc
      simp only [LoopTask.call, LoopTask.event, execHost, handleRaftMsg, EStateM.run_bind,
        EStateM.run_get, if_neg hhost]

/-- What was compared stays so while the host keeps its id. -/
lemma LoopTask.Checked.of_hostId (hc : task.Checked host) (hid : host'.hostId = host.hostId) :
    task.Checked host' := by
  cases task with
  | kvOpCb req done => trivial
  | handleRaftMsgCb req => exact Eq.trans hc hid.symm

lemma LedgerStep.calls_unasked {l l' : Ledger} {r : Record} (hs : LedgerStep codec l r l')
    (hr : r.Unasked) : l'.calls = l.calls := by
  cases hs with
  | refused _ => cases hr.2
  | proposed _ _ _ => cases hr.1
  | stepped => rfl
  | ticked => rfl
  | delivered _ _ => rfl

lemma LedgerSteps.calls_unasked {l l' : Ledger} {h : List Record} (hs : LedgerSteps codec l h l')
    (hh : ∀ r ∈ h, r.Unasked) : l'.calls = l.calls := by
  induction hs with
  | nil => rfl
  | snoc _ hstep ih =>
      rw [hstep.calls_unasked (hh _ (by simp)), ih fun r hr => hh r (List.mem_append_left _ hr)]

/-- A call that brings in no client takes no number. -/
lemma execHost_calls_unasked {ev : HostEvent} (hev : ∀ req, ev.call.2 ≠ .kvOp req)
    (h : execHost raft codec host ev = .ok () host') : host'.calls = host.calls := by
  obtain ⟨peer, s, -, hs, rfl⟩ := execHost_ok h
  exact LedgerSteps.calls_unasked (execEvent_ledger hs) fun r hr => observe_unasked hev hr

/-- A request takes the next number. -/
lemma execHost_calls_kvOp {req : KvReq} (h : execHost raft codec host (.kvOp req) = .ok () host') :
    host'.calls = host.calls + 1 := by
  obtain ⟨peer, s, -, hs, rfl⟩ := execHost_ok h
  dsimp only [HostEvent.call] at hs
  show s.calls = (host.server peer).calls + 1
  cases hlead : raft.isLeader peer.rawNode with
  | false =>
      rw [execEvent, run_kvOp_follower raft codec (s := { host.server peer with
        calls := (host.server peer).calls + 1 }) hlead] at hs
      cases hs
      rfl
  | true =>
      rw [execEvent, run_kvOp_leader raft codec (s := { host.server peer with
        calls := (host.server peer).calls + 1 }) hlead] at hs
      split at hs
      · cases hs
        rfl
      · cases hs

lemma execHost_calls (h : execHost raft codec host task.event = .ok () host') :
    host'.calls = host.calls + (closuresOf [task]).length := by
  cases task with
  | kvOpCb req done => exact execHost_calls_kvOp h
  | handleRaftMsgCb req => exact execHost_calls_unasked (fun _ => Event.noConfusion) h

lemma execHost_hostId {ev : HostEvent} (h : execHost raft codec host ev = .ok () host') :
    host'.hostId = host.hostId := by
  rw [PeerHost.hostId, PeerHost.hostId, (execHost_members h).2]

/-- A call on the host, as a run of it. -/
lemma run_records {ev : HostEvent} (h : execHost raft codec host ev = .ok () host') :
    (peersMachine raft codec).Run host
      ((recordsAt raft codec host ev).filterMap LoopObs.record?) host' := by
  have hrecords : (recordsAt raft codec host ev).filterMap LoopObs.record?
      = (peersMachine raft codec).obs host ev := by
    simp [recordsAt, List.filterMap_map, Function.comp_def, LoopObs.record?]
  rw [hrecords]
  have run := Run.snoc ev Run.nil (peersMachine_exec.mpr h)
  rwa [List.nil_append] at run

/-- What running tasks comes to. -/
structure TasksRun (raft : RawNode σ) (codec : Codec) (host : PeerHost σ) (tasks : List LoopTask)
    (host' : PeerHost σ) : Prop where
  /-- The host answers the calls that the tasks stand for. -/
  run : (peersMachine raft codec).Run host
    ((seenOf raft codec host tasks).filterMap LoopObs.record?) host'
  posted : postedOf (seenOf raft codec host tasks) = []
  ran : ranOf (seenOf raft codec host tasks) = tasks
  hostId : host'.hostId = host.hostId
  /-- Every request takes a number. -/
  calls : host'.calls = host.calls + (closuresOf tasks).length

/-- Tasks that have been checked are calls on the host, one after the other. -/
lemma runTasks_ok (hc : ∀ task ∈ tasks, task.Checked host)
    (h : (runTasks raft codec tasks).run host = .ok () host') :
    TasksRun raft codec host tasks host' := by
  induction tasks generalizing host with
  | nil =>
      cases h
      exact ⟨Run.nil, rfl, rfl, rfl, rfl⟩
  | cons task tasks ih =>
      rw [runTasks, run_forM_cons] at h
      cases hcall : (task.call raft codec).run host with
      | error f host₁ => rw [hcall] at h; cases h
      | ok u host₁ =>
          rw [hcall] at h
          have hexec : execHost raft codec host task.event = .ok () host₁ := by
            rw [← (hc task List.mem_cons_self).call_run, hcall]
          have hid := execHost_hostId hexec
          have hrest := ih (fun task' htask => (hc task' (List.mem_cons_of_mem _ htask)).of_hostId
            hid) h
          have hseen : seenOf raft codec host (task :: tasks) = [.ran task] ++
              recordsAt raft codec host task.event ++ seenOf raft codec host₁ tasks := by
            rw [seenOf, hcall]
            rfl
          obtain ⟨hposted, hran⟩ := tasks_of_records raft codec host task.event
          refine ⟨?_, ?_, ?_, hrest.hostId.trans hid, ?_⟩
          · rw [hseen, List.filterMap_append, List.filterMap_append]
            exact (run_records hexec).trans hrest.run
          · rw [hseen, postedOf_append, postedOf_append, hposted, hrest.posted]
            rfl
          · rw [hseen, ranOf_append, ranOf_append, hran, hrest.ran]
            rfl
          · have hsplit : task :: tasks = [task] ++ tasks := rfl
            rw [hrest.calls, execHost_calls hexec, hsplit, closuresOf_append, List.length_append,
              Nat.add_assoc]

/-! ## A worker refines its host -/

/-- Every task that waits has been checked. -/
def Worker.Checked (loop : EventLoop τ) (w : Worker σ τ) : Prop :=
  ∀ task ∈ loop.pendingTasks w.loop, task.Checked w.host

/-- What happens at a worker comes to this. -/
structure LoopStep (loop : EventLoop τ) (raft : RawNode σ) (codec : Codec) (w : Worker σ τ)
    (o : List LoopObs) (w' : Worker σ τ) : Prop where
  checked : w'.Checked loop
  /-- The host does what it does when the tasks are called on it. -/
  run : (peersMachine raft codec).Run w.host (o.filterMap LoopObs.record?) w'.host
  /-- What was posted was run, or waits. -/
  tasks : (loop.pendingTasks w.loop ++ postedOf o).Perm (ranOf o ++ loop.pendingTasks w'.loop)
  /-- Every call of `KvOp` was posted with a closure of its own. -/
  closures : List.range w.kvOps ++ closuresOf (postedOf o) = List.range w'.kvOps
  /-- Every request that was run has a number at the host. -/
  calls : w'.host.calls = w.host.calls + (closuresOf (ranOf o)).length

namespace LoopStep

/-- The loop is given tasks, and runs some. -/
lemma turn (posted : List LoopTask) {t : τ} {kvOps : ℕ} (hw : w.Checked loop)
    (hc : ∀ task ∈ posted, task.Checked w.host)
    (hperm : (loop.pendingTasks w.loop ++ posted).Perm (tasks ++ loop.pendingTasks t))
    (hclosures : List.range w.kvOps ++ closuresOf posted = List.range kvOps)
    (h : (runTasks raft codec tasks).run w.host = .ok () host) :
    LoopStep loop raft codec w (posted.map LoopObs.posted ++ seenOf raft codec w.host tasks)
      ⟨host, t, kvOps⟩ := by
  have hchecked : ∀ task ∈ tasks ++ loop.pendingTasks t, task.Checked w.host := by
    intro task htask
    rcases List.mem_append.mp (hperm.mem_iff.mpr htask) with htask | htask
    · exact hw task htask
    · exact hc task htask
  have hran := runTasks_ok (fun task htask => hchecked task (List.mem_append_left _ htask)) h
  obtain ⟨hrecords, hposted, hnone⟩ := tasks_of_posted posted
  refine ⟨?_, ?_, ?_, ?_, ?_⟩
  · intro task htask
    exact (hchecked task (List.mem_append_right _ htask)).of_hostId hran.hostId
  · rw [List.filterMap_append, hrecords, List.nil_append]
    exact hran.run
  · rw [postedOf_append, ranOf_append, hposted, hnone, hran.posted, hran.ran, List.append_nil,
      List.nil_append]
    exact hperm
  · rw [postedOf_append, hposted, hran.posted, List.append_nil]
    exact hclosures
  · rw [ranOf_append, hnone, hran.ran, List.nil_append]
    exact hran.calls

/-- A timer runs out. -/
lemma timer {peerId : PeerId} {connect : SockAddress → Bool} (hw : w.Checked loop)
    (h : execHost raft codec w.host (.tick peerId connect) = .ok () host) :
    LoopStep loop raft codec w (recordsAt raft codec w.host (.tick peerId connect))
      { w with host := host } := by
  obtain ⟨hposted, hran⟩ := tasks_of_records raft codec w.host (.tick peerId connect)
  refine ⟨?_, run_records h, ?_, ?_, ?_⟩
  · exact fun task htask => (hw task htask).of_hostId (execHost_hostId h)
  · rw [hposted, hran, List.append_nil, List.nil_append]
  · rw [hposted]
    exact List.append_nil _
  · rw [hran]
    exact execHost_calls_unasked (fun _ => Event.noConfusion) h

end LoopStep

lemma Worker.onHost_eq_ok {call : HostM σ Unit} :
    w.onHost call = .ok () w' ↔ ∃ host, call.run w.host = .ok () host ∧
      w' = { w with host := host } := by
  rw [Worker.onHost]
  cases call.run w.host with
  | ok u host => simp [eq_comm]
  | error f host => simp

/-- **What happens at a worker.** -/
theorem execLoop_step (hl : loop.Lawful) (hw : w.Checked loop) {ev : LoopEvent}
    (h : execLoop loop raft codec w ev = .ok () w') :
    LoopStep loop raft codec w (observeLoop loop raft codec w ev) w' := by
  cases ev with
  | kvOp req =>
      obtain ⟨host, hrun, rfl⟩ := Worker.onHost_eq_ok.mp h
      refine LoopStep.turn [.kvOpCb req w.kvOps] hw ?_ (hl.runInLoop _ _) ?_ hrun
      · intro task htask
        rw [List.mem_singleton.mp htask]
        trivial
      · exact List.range_succ.symm
  | handleRaftMsg req =>
      rw [execLoop] at h
      split_ifs at h with hhost
      obtain ⟨host, hrun, rfl⟩ := Worker.onHost_eq_ok.mp h
      refine LoopStep.turn [.handleRaftMsgCb req] hw ?_ (hl.runInLoop _ _) ?_ hrun
      · intro task htask
        rw [List.mem_singleton.mp htask]
        exact not_not.mp hhost
      · exact List.append_nil _
  | doPendingTasks =>
      obtain ⟨host, hrun, rfl⟩ := Worker.onHost_eq_ok.mp h
      refine LoopStep.turn [] hw (fun _ => nofun) ?_ (List.append_nil _) hrun
      rw [List.append_nil]
      exact hl.doPendingTasks _
  | timer peerId connect =>
      obtain ⟨host, hrun, rfl⟩ := Worker.onHost_eq_ok.mp h
      exact LoopStep.timer hw hrun

lemma loopMachine_exec {ev : LoopEvent} :
    (loopMachine loop raft codec).exec w ev = some w' ↔
      execLoop loop raft codec w ev = .ok () w' := by
  simp only [loopMachine]
  cases execLoop loop raft codec w ev <;> simp

/-- **A worker refines its host.** -/
theorem Worker.refines (hl : loop.Lawful) :
    Refines (loopMachine loop raft codec) (peersMachine raft codec)
      (fun w host => w.Checked loop ∧ w.host = host) LoopObs.record? := by
  rintro w host ev w' ⟨hw, rfl⟩ hexec
  have hstep := execLoop_step hl hw (loopMachine_exec.mp hexec)
  exact ⟨w'.host, hstep.run, hstep.checked, rfl⟩

/-! ## What the worker owes its clients -/

/-- What becomes of the tasks of a run, by what each step does with its own. -/
lemma run_tasks (hl : loop.Lawful) {h : List LoopObs}
    (run : (loopMachine loop raft codec).Run w₀ h w) (hw : w₀.Checked loop) :
    (loop.pendingTasks w₀.loop ++ postedOf h).Perm (ranOf h ++ loop.pendingTasks w.loop) ∧
      List.range w₀.kvOps ++ closuresOf (postedOf h) = List.range w.kvOps ∧
      w.host.calls = w₀.host.calls + (closuresOf (ranOf h)).length := by
  induction run with
  | nil => simp [postedOf, ranOf, closuresOf]
  | @snoc h w w' ev run hexec ih =>
      obtain ⟨htasks, hclosures, hcalls⟩ := ih
      obtain ⟨-, -, hchecked, -⟩ := run.refine (Worker.refines hl) ⟨hw, rfl⟩
      have hstep := execLoop_step hl hchecked (loopMachine_exec.mp hexec)
      refine ⟨?_, ?_, ?_⟩
      · rw [postedOf_append, ranOf_append, ← List.append_assoc, List.append_assoc (ranOf h)]
        refine (htasks.append_right _).trans ?_
        rw [List.append_assoc]
        exact hstep.tasks.append_left _
      · rw [postedOf_append, closuresOf_append, ← List.append_assoc, hclosures]
        exact hstep.closures
      · rw [ranOf_append, closuresOf_append, List.length_append, hstep.calls, hcalls,
          Nat.add_assoc]
        rfl

/-- The numbers of a host, taken for the closures of the calls. -/
lemma map_closureAt (h : List LoopObs) :
    (List.range (closuresOf (ranOf h)).length).map (closureAt h) = closuresOf (ranOf h) := by
  refine List.ext_getElem (by simp) ?_
  intro k hk hk'
  simp [closureAt, hk']

/-- **No request is lost between the service and the client.**  Let the loop run every task that is
posted once, now or later and in any order.  Then, in every run of a worker, the host does what it
does when the tasks are called on it one after the other; and of the calls of `KvOp` every one is in
one place, and there once: its task waits in the loop, or it was answered, or it waits in the queue
of peer 1, or it was handed out there to an entry that answers nobody. -/
theorem loop_accounts (hl : loop.Lawful) {host₀ : PeerHost σ} {t₀ : τ} {h : List LoopObs}
    (run : (loopMachine loop raft codec).Run ⟨host₀, t₀, 0⟩ h w)
    (hidle : loop.pendingTasks t₀ = []) (hstart : host₀.Started) {peer₀ : Peer σ}
    (hpeer₀ : host₀.localPeers.lookup 1 = some peer₀) :
    (peersMachine raft codec).Run host₀ (h.filterMap LoopObs.record?) w.host ∧
      ∃ peer, w.host.localPeers.lookup 1 = some peer ∧
        ((w.host.ran.map Callback.done ++ peer.proposals.map Proposal.done ++
            strandedOf codec (proj 1 (h.filterMap LoopObs.record?))).map (closureAt h) ++
          closuresOf (loop.pendingTasks w.loop)).Perm (List.range w.kvOps) := by
  have hw : Worker.Checked loop ⟨host₀, t₀, 0⟩ := by
    intro task htask
    rw [hidle] at htask
    cases htask
  obtain ⟨host, runhost, -, rfl⟩ := run.refine (Worker.refines hl) ⟨hw, rfl⟩
  refine ⟨runhost, ?_⟩
  obtain ⟨peer, hpeer, hb⟩ := run_balanced runhost hstart hpeer₀
  refine ⟨peer, hpeer, ?_⟩
  obtain ⟨htasks, hclosures, hcalls⟩ := run_tasks hl run hw
  rw [hidle, List.nil_append] at htasks
  rw [hstart.calls, Nat.zero_add] at hcalls
  have hran := hb.once.map (closureAt h)
  have hnumbers : (List.range w.host.calls).map (closureAt h) = closuresOf (ranOf h) := by
    rw [hcalls, map_closureAt]
  have hposted : closuresOf (postedOf h) = List.range w.kvOps := hclosures
  rw [← hposted]
  refine ((hran.trans (List.Perm.of_eq hnumbers)).append_right _).trans ?_
  rw [← closuresOf_append]
  exact (htasks.filterMap _).symm

/-- A loop that queues what it is given, and runs all of it when it wakes up. -/
def queueLoop : EventLoop (List LoopTask) where
  pendingTasks q := q
  runInLoop q task := ([], q ++ [task])
  doPendingTasks q := (q, [])

lemma queueLoop_lawful : queueLoop.Lawful where
  runInLoop _ _ := List.Perm.refl _
  doPendingTasks _ := List.Perm.of_eq (List.append_nil _).symm

/-- A call on a host, posted. -/
def post : HostEvent → LoopEvent
  | .raftMsg req => .handleRaftMsg req
  | .kvOp req => .kvOp req
  | .tick peerId connect => .timer peerId connect

/-- A request is posted with the messages that make peer 1 the leader, and another one when the loop
has run them.  The first waits in the queue of peer 1 then, and the second in the loop. -/
theorem loop_accounts_queued : ∃ h w,
    (loopMachine queueLoop TrioNode.raft shortCodec).Run ⟨twinHost, [], 0⟩ h w ∧ w.kvOps = 2 ∧
      ∃ peer, w.host.localPeers.lookup 1 = some peer ∧
        (peer.proposals.map (closureAt h ∘ Proposal.done) ++ [1]).Perm (List.range 2) := by
  obtain ⟨h, w, run, hval⟩ := Machine.exists_run
    (M := loopMachine queueLoop TrioNode.raft shortCodec)
    (((elect 1 ++ [Event.kvOp (putRequest 7 9)]).map (forPeer 1)).map post ++
      [.doPendingTasks, .kvOp (putRequest 7 8)])
    (fun r => (r.2.host.ran.map Callback.done,
      strandedOf shortCodec (proj 1 (r.1.filterMap LoopObs.record?)),
      closuresOf (queueLoop.pendingTasks r.2.loop), r.2.kvOps))
    (s := ⟨twinHost, [], 0⟩) (b := ([], [], [1], 2)) (by decide +kernel)
  simp only [Prod.mk.injEq] at hval
  obtain ⟨hran, hstranded, hpending, hkvOps⟩ := hval
  obtain ⟨-, peer, hpeer, hclients⟩ := loop_accounts queueLoop_lawful run rfl twinHost_started
    twinHost_lookup
  rw [hran, hstranded, hpending, hkvOps, List.nil_append, List.append_nil, List.map_map] at hclients
  exact ⟨h, w, run, hkvOps, peer, hpeer, hclients⟩

end Jkv
