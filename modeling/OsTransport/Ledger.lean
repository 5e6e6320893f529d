/-
  No task of the transport is lost or duplicated.

  A task is known by its argument `ArgPtr`: the request and the index.  Every bag of tasks
  below is a `Multiset` of these.  In every reachable state

      queued + executing + marked + cancelled = attached ,

  where `queued` and `executing` are totals over the workers, and the other three are read off
  the histories: the tasks that ran `mark_task_group_completed`, the tasks removed by cancels and
  the tasks submissions put into queues.  A task executes from its removal from the queue until it
  runs `mark_task_group_completed`; what the worker does after that (`Body.free`, `Body.finish`) no
  longer concerns the request.

  The statement is about bags and not numbers, so it holds for the tasks of one request and for
  a single task alike: counting what a bag holds of them restricts it.

  Each kind of step has one lemma that moves the bags (`Ledger.attach`, `Ledger.cancel`, `Ledger.pop`,
  `Ledger.mark`), and all others leave them alone (`Ledger.frame`).  The pool's own steps come as
  three cases, known from `OsTransport.PoolEffect`: an advance attaches, removes or does neither
  (`Ledger.advance`).  `ledger_move` is the case split over the steps of the transport, and
  `ledger_reach` the induction.

  `OsTransport.Effects` needs the single task, `OsTransport.Release` the tasks of one request, and
  both restrict this one equation.
-/
import OsTransport.Move
import OsTransport.PoolEffect
import OsTransport.Lib.Total
import Mathlib.Algebra.Order.Group.Multiset
import Mathlib.Algebra.Order.Sub.Unbundled.Basic

namespace OsTransport

open Transition Total

/-! ## Bags of tasks

Two totals over the workers and three readings of the histories. -/

/-- The task a node was built for. -/
def TaskNode.ptr (t : TaskNode ArgPtr) : ArgPtr := t.taskArg.userArg

/-- The queued tasks of a worker. -/
def queuedBag (w : WorkerThread ArgPtr) : Multiset ArgPtr := (w.queue.map TaskNode.ptr : List ArgPtr)

/-- The task function has not run `mark_task_group_completed` yet. -/
def Body.unmarked : Body → Bool
  | .free _ => false
  | .finish _ => false
  | _ => true

/-- The task a worker executes. -/
def executingBag (x : WorkerThread ArgPtr × Body) : Multiset ArgPtr :=
  match x.1.exec with
  | .running task _ _ => if x.2.unmarked then {TaskNode.ptr task} else 0
  | _ => 0

/-- The tasks that ran `mark_task_group_completed`, each with its success. -/
def marks (trace : List Event) : List (ArgPtr × Bool) :=
  trace.filterMap fun
    | .mark q i success => some (⟨q, i⟩, success)
    | _ => none

/-- The tasks cancels removed, each with the process that did. -/
def removals (log : List (PoolEvent Proc ArgPtr)) : List (Proc × ArgPtr) :=
  log.filterMap fun
    | .cancelled c task => some (c, TaskNode.ptr task)
    | _ => none

/-- The tasks submissions attached. -/
def attachedList (log : List (PoolEvent Proc ArgPtr)) : List ArgPtr :=
  log.filterMap fun
    | .attached _ _ task => some (TaskNode.ptr task)
    | _ => none

/-- What each worker is doing. -/
def Transport.running (s : Transport) (w : Nat) : WorkerThread ArgPtr × Body :=
  (s.pool.workers w, s.body w)

/-- The bags `Q` of queued and `E` of executing tasks, and the balance of all five. -/
structure Ledger (s : Transport) (Q E : Multiset ArgPtr) : Prop where
  queued : HasTotal queuedBag s.pool.workers Q
  executing : HasTotal executingBag s.running E
  balance : Q + E + (marks s.trace).map Prod.fst + (removals s.pool.log).map Prod.snd
    = attachedList s.pool.log

section Lists

@[simp] theorem marks_append (t t' : List Event) : marks (t ++ t') = marks t ++ marks t' :=
  List.filterMap_append

@[simp] theorem attachedList_append (l l' : List (PoolEvent Proc ArgPtr)) :
    attachedList (l ++ l') = attachedList l ++ attachedList l' := List.filterMap_append

@[simp] theorem removals_append (l l' : List (PoolEvent Proc ArgPtr)) :
    removals (l ++ l') = removals l ++ removals l' := List.filterMap_append

theorem marks_eq_nil {t : List Event} (h : ∀ e ∈ t, ∀ q i b, e ≠ .mark q i b) : marks t = [] := by
  refine List.filterMap_eq_nil_iff.mpr fun e he => ?_
  cases e with
  | mark q i b => exact absurd rfl (h _ he q i b)
  | _ => rfl

/-- Nodes that are queued are the tasks queued. -/
theorem attachedList_attached (c : Proc) (w : Nat) (nodes : List (TaskNode ArgPtr)) :
    attachedList (nodes.map (.attached c w)) = nodes.map TaskNode.ptr := by
  simp [attachedList, List.filterMap_map]

/-- Queueing removes nothing. -/
theorem removals_attached (c : Proc) (w : Nat) (nodes : List (TaskNode ArgPtr)) :
    removals (nodes.map (.attached c w)) = [] := by
  simp [removals, List.filterMap_map]

/-- Nodes that are cancelled are the tasks removed, each by its cancel. -/
theorem removals_cancelled (c : Proc) (nodes : List (TaskNode ArgPtr)) :
    removals (nodes.map (.cancelled c)) = nodes.map fun t => (c, t.ptr) := by
  simp [removals, List.filterMap_map]

/-- Cancelling queues nothing. -/
theorem attachedList_cancelled (c : Proc) (nodes : List (TaskNode ArgPtr)) :
    attachedList (nodes.map (.cancelled c)) = [] := by
  simp [attachedList, List.filterMap_map]

/-- Events that are not about queueing or cancelling tasks. -/
theorem log_passive {events : List (PoolEvent Proc ArgPtr)} (h : ∀ e ∈ events, e.passive = true) :
    attachedList events = [] ∧ removals events = [] := by
  constructor <;> refine List.filterMap_eq_nil_iff.mpr fun e he => ?_ <;> have hp := h e he <;>
    cases e <;> first | rfl | cases hp

end Lists

/-! ## Steps that move no task

Most steps: whatever they do, the five bags stay. -/

section Frame

variable {s s' : Transport} {Q E : Multiset ArgPtr}

/-- The five bags of `s'` are those of `s`. -/
theorem Ledger.frame (h : Ledger s Q E)
    (hqueue : ∀ w, (s'.pool.workers w).queue = (s.pool.workers w).queue)
    (hexec : ∀ w, executingBag (s'.running w) = executingBag (s.running w))
    (hmark : marks s'.trace = marks s.trace)
    (hcancel : removals s'.pool.log = removals s.pool.log)
    (hattach : attachedList s'.pool.log = attachedList s.pool.log) : Ledger s' Q E where
  queued := h.queued.congr fun w => by unfold queuedBag; rw [hqueue w]
  executing := h.executing.congr hexec
  balance := by rw [hmark, hcancel, hattach]; exact h.balance

/-- A quiet step of the pool, on its own or with edits of requests. -/
theorem Ledger.quiet {pool : PoolSys Proc ArgPtr} (h : Ledger s Q E)
    (hq : PoolSys.Quiet s.pool pool) (hpool : s'.pool = pool) (hbody : s'.body = s.body)
    (htrace : marks s'.trace = marks s.trace) : Ledger s' Q E := by
  subst hpool
  refine h.frame hq.queue (fun w => ?_) htrace (by rw [hq.log]) (by rw [hq.log])
  unfold executingBag Transport.running
  rw [hq.exec w, hbody]

/-- A step that leaves the pool and the workers alone and marks nothing. -/
theorem Ledger.same (h : Ledger s Q E) (hpool : s'.pool = s.pool) (hbody : s'.body = s.body)
    (htrace : marks s'.trace = marks s.trace) : Ledger s' Q E :=
  h.quiet (PoolSys.Quiet.refl s.pool) hpool hbody htrace

/-- A worker that goes on inside its task function without marking it. -/
theorem Ledger.setBody (h : Ledger s Q E) {w : Nat} {b : Body} (hpool : s'.pool = s.pool)
    (hbody : s'.body = Function.update s.body w b) (hun : b.unmarked = (s.body w).unmarked)
    (htrace : marks s'.trace = marks s.trace) : Ledger s' Q E := by
  refine h.frame (fun _ => by rw [hpool]) (fun w' => ?_) htrace (by rw [hpool]) (by rw [hpool])
  unfold executingBag Transport.running
  rw [hpool, hbody]
  by_cases hw : w' = w
  · subst hw
    simp only [Function.update_self, hun]
  · rw [Function.update_of_ne hw]

/-- A post leaves the pool, the requests and the workers alone and marks nothing. -/
theorem post_same {q : Nat} {op : UrmaOpcode} {k : Nat} {attempt : Option (SendQueue × UrmaJfsWr)}
    {status st : UrmaStatus} {s₁ : Transport} (h : s.post q op k attempt status = (s₁, st)) :
    s₁.pool = s.pool ∧ s₁.reqs = s.reqs ∧ s₁.body = s.body ∧ s₁.recvCtx = s.recvCtx ∧
      marks s₁.trace = marks s.trace := by
  unfold Transport.post at h
  split at h
  · cases h
    exact ⟨rfl, rfl, rfl, rfl, rfl⟩
  · cases h
    refine ⟨rfl, rfl, rfl, rfl, ?_⟩
    show marks (s.trace ++ _) = _
    rw [marks_append]
    exact List.append_nil _

/-- Events that are no marks add none. -/
theorem marks_emit {events : List Event} (hev : ∀ e ∈ events, ∀ q i b, e ≠ .mark q i b) :
    marks (s.trace ++ events) = marks s.trace := by
  rw [marks_append, marks_eq_nil hev, List.append_nil]

/-- What is done for a completion marks no task. -/
theorem Handles.no_mark {cr : UrmaCr} {events : List Event} (h : Handles cr events) :
    ∀ e ∈ events, ∀ q i b, e ≠ .mark q i b := by
  obtain ⟨reposts, rfl, hre⟩ := h
  intro e he q i b
  rcases List.mem_cons.mp he with rfl | he
  · simp
  · obtain ⟨jetty, status, rfl⟩ := hre e he
    simp

/-- The posts of the prefill are receive work requests. -/
theorem prefill_recvPost {ctx ctx' : UrmaRecvCtx} {recvInfo : UrmaRecvInfo}
    {statuses : List UrmaStatus} {ret : UrmaStatus} {events : List Event}
    (h : Transport.urmaRecvCtxInit ctx recvInfo statuses = (ret, ctx', events)) :
    ∀ e ∈ events, ∃ status, e = .recvPost recvInfo.jfr recvInfo.jetty status := by
  unfold Transport.urmaRecvCtxInit at h
  split at h
  · cases h
    intro e he
    cases he
  · cases h
    intro e he
    obtain ⟨status, -, rfl⟩ := List.mem_map.mp he
    exact ⟨status, rfl⟩

/-- Nor does a prefill. -/
theorem prefill_events {ctx ctx' : UrmaRecvCtx} {recvInfo : UrmaRecvInfo}
    {statuses : List UrmaStatus} {ret : UrmaStatus} {events : List Event}
    (h : Transport.urmaRecvCtxInit ctx recvInfo statuses = (ret, ctx', events)) :
    ∀ e ∈ events, ∀ q i b, e ≠ .mark q i b := by
  intro e he q i b
  obtain ⟨status, rfl⟩ := prefill_recvPost h e he
  simp

end Frame

/-! ## Steps that move a task

An attach fills the queues, a worker takes, marks and forgets, a cancel empties them. -/

section Moves

variable {s s' : Transport} {Q E : Multiset ArgPtr}

/-- Executing is the same through a changed pool when every worker's `exec` is. -/
theorem executing_congr {pool : PoolSys Proc ArgPtr}
    (hexec : ∀ w, (pool.workers w).exec = (s.pool.workers w).exec) (w : Nat) :
    executingBag ((s.setPool pool).running w) = executingBag (s.running w) := by
  unfold executingBag Transport.running
  rw [show (s.setPool pool).pool.workers w = pool.workers w from rfl, hexec w]
  rfl

/-- A worker whose lists change goes on executing what it did. -/
theorem exec_update {pool : PoolSys Proc ArgPtr} {w : Nat} {wk : WorkerThread ArgPtr}
    (hwork : pool.workers = Function.update s.pool.workers w wk)
    (hexec : wk.exec = (s.pool.workers w).exec) (w' : Nat) :
    (pool.workers w').exec = (s.pool.workers w').exec := by
  rw [hwork]
  by_cases hw : w' = w
  · subst hw
    rw [Function.update_self, hexec]
  · rw [Function.update_of_ne hw]

/-- Nodes attached to a queue. -/
theorem Ledger.attach (h : Ledger s Q E) {pool : PoolSys Proc ArgPtr} {c : Proc} {w : Nat}
    {nodes : List (TaskNode ArgPtr)}
    (hwork : pool.workers = Function.update s.pool.workers w
      (attachNodesToWorker (s.pool.workers w) nodes))
    (hlog : pool.log = s.pool.log ++ nodes.map (.attached c w)) :
    Ledger (s.setPool pool) (Q + (nodes.map TaskNode.ptr : List ArgPtr)) E where
  queued := by
    show HasTotal queuedBag pool.workers _
    rw [hwork]
    refine h.queued.update ?_
    have hbag : queuedBag (attachNodesToWorker (s.pool.workers w) nodes)
        = queuedBag (s.pool.workers w) + (nodes.map TaskNode.ptr : List ArgPtr) := by
      simp [queuedBag, attachNodesToWorker]
    rw [hbag, add_comm (queuedBag _), add_assoc]
  executing := h.executing.congr (executing_congr (exec_update hwork rfl))
  balance := by
    show Q + (nodes.map TaskNode.ptr : List ArgPtr) + E + (marks s.trace).map Prod.fst
      + (removals pool.log).map Prod.snd = (attachedList pool.log : Multiset ArgPtr)
    rw [hlog, attachedList_append, removals_append, attachedList_attached, removals_attached,
      List.append_nil, ← Multiset.coe_add, ← h.balance]
    ac_rfl

/-- Tasks removed by a cancel. -/
theorem Ledger.cancel (h : Ledger s Q E) {pool : PoolSys Proc ArgPtr} {c : Proc} {w : Nat}
    {reqId : ReqId}
    (hwork : pool.workers = Function.update s.pool.workers w
      (cancelInWorkerQueue (s.pool.workers w) reqId))
    (hlog : pool.log = s.pool.log ++
      (cancelledNodes (s.pool.workers w) reqId).map (.cancelled c)) :
    ∃ Q', Q = Q' + ((cancelledNodes (s.pool.workers w) reqId).map TaskNode.ptr : List ArgPtr) ∧
      Ledger (s.setPool pool) Q' E := by
  have hsplit : queuedBag (s.pool.workers w)
      = queuedBag (cancelInWorkerQueue (s.pool.workers w) reqId)
        + ((cancelledNodes (s.pool.workers w) reqId).map TaskNode.ptr : List ArgPtr) := by
    have hperm := (List.filter_append_perm (fun t : TaskNode ArgPtr => t.requestId == reqId)
      (s.pool.workers w).queue).map TaskNode.ptr
    rw [List.map_append] at hperm
    rw [add_comm]
    exact (Multiset.coe_eq_coe.mpr hperm).symm
  have hle : ((cancelledNodes (s.pool.workers w) reqId).map TaskNode.ptr : Multiset ArgPtr) ≤ Q :=
    le_trans (hsplit ▸ Multiset.le_add_left _ _) (h.queued.le w)
  obtain ⟨Q', rfl⟩ := Multiset.le_iff_exists_add.mp hle
  refine ⟨Q', add_comm _ _, ?_, ?_, ?_⟩
  · show HasTotal queuedBag pool.workers Q'
    rw [hwork]
    refine h.queued.update ?_
    rw [hsplit]
    ac_rfl
  · exact h.executing.congr (executing_congr (exec_update hwork rfl))
  · show Q' + E + (marks s.trace).map Prod.fst + (removals pool.log).map Prod.snd
      = (attachedList pool.log : Multiset ArgPtr)
    rw [hlog, attachedList_append, removals_append, attachedList_cancelled, removals_cancelled,
      List.append_nil, ← h.balance, List.map_append, List.map_map, ← Multiset.coe_add]
    have hsnd : (cancelledNodes (s.pool.workers w) reqId).map (Prod.snd ∘ fun t => (c, t.ptr))
        = (cancelledNodes (s.pool.workers w) reqId).map TaskNode.ptr := rfl
    rw [hsnd]
    ac_rfl

/-- A step that concerns worker `w` only. -/
theorem running_update {w : Nat} {wk : WorkerThread ArgPtr} {b : Body}
    (hwork : s'.pool.workers = Function.update s.pool.workers w wk)
    (hbody : s'.body = Function.update s.body w b) :
    s'.running = Function.update s.running w (wk, b) := by
  funext w'
  unfold Transport.running
  rw [hwork, hbody]
  by_cases hw : w' = w
  · subst hw
    simp only [Function.update_self]
  · simp only [Function.update_of_ne hw]

/-- A step at one worker changes what that worker is at. -/
theorem running_setPool {pool : PoolSys Proc ArgPtr} {w : Nat} {wk : WorkerThread ArgPtr}
    (hwork : pool.workers = Function.update s.pool.workers w wk) :
    (s.setPool pool).running = Function.update s.running w (wk, s.body w) :=
  running_update hwork (Function.update_eq_self w _).symm

/-- A worker in its loop executes nothing. -/
theorem executingBag_loop {x : WorkerThread ArgPtr × Body} (h : x.1.exec = .loop) :
    executingBag x = 0 := by
  unfold executingBag
  rw [h]

/-- A worker in a task executes it until its mark. -/
theorem executingBag_running {x : WorkerThread ArgPtr × Body} {task : TaskNode ArgPtr}
    {reqId : ReqId} {userData : BitVec 64} (h : x.1.exec = .running task reqId userData) :
    executingBag x = if x.2.unmarked then {TaskNode.ptr task} else 0 := by
  unfold executingBag
  rw [h]

/-- The task that is taken leaves the queue, and no other does. -/
theorem queuedBag_pop {queue rest : List (TaskNode ArgPtr)} {r : ReqId} {u : BitVec 64}
    {task : TaskNode ArgPtr} (h : workerQueuePopByReqAndUserData queue r u = some (task, rest)) :
    ((queue.map TaskNode.ptr : List ArgPtr) : Multiset ArgPtr)
      = (rest.map TaskNode.ptr : List ArgPtr) + {TaskNode.ptr task} := by
  obtain ⟨l₁, l₂, rfl, rfl, -, -⟩ := Queue.popFirst_some h
  simp only [List.map_append, List.map_cons, ← Multiset.coe_add, ← Multiset.cons_coe,
    ← Multiset.singleton_add]
  ac_rfl

/-- A step whose events move no task has the balance of the state before it. -/
theorem Ledger.passive (h : Ledger s Q E) {Q' E' : Multiset ArgPtr}
    {events : List (PoolEvent Proc ArgPtr)} (hev : ∀ e ∈ events, e.passive = true)
    (hQE : Q' + E' = Q + E) :
    Q' + E' + (marks s.trace).map Prod.fst + (removals (s.pool.log ++ events)).map Prod.snd
      = (attachedList (s.pool.log ++ events) : Multiset ArgPtr) := by
  obtain ⟨hattached, hremoved⟩ := log_passive hev
  rw [attachedList_append, removals_append, hattached, hremoved, List.append_nil, List.append_nil,
    hQE]
  exact h.balance

/-- One iteration of a worker's loop. -/
theorem Ledger.pop (h : Ledger s Q E) {pool : PoolSys Proc ArgPtr} {w : Nat}
    (hpool : s.pool.step (.pop w) = some pool) :
    ∃ Q' E', Ledger ((s.setPool pool).setBody w .start) Q' E' := by
  obtain ⟨hexec, -, hcases⟩ := pop_cases hpool
  have hidle : executingBag (s.running w) = 0 := executingBag_loop hexec
  rcases hcases with ⟨hpend, rfl⟩ | ⟨p, pending, task, queue, hpend, hpop, rfl⟩ |
    ⟨p, pending, hpend, hpop, rfl⟩
  · refine ⟨Q, E, h.queued.update_same rfl, ?_, h.balance⟩
    rw [running_update (s := s) rfl rfl]
    exact h.executing.update_same (by rw [hidle]; exact executingBag_loop hexec)
  · have hbag : queuedBag (s.pool.workers w) = (queue.map TaskNode.ptr : List ArgPtr)
        + {TaskNode.ptr task} := queuedBag_pop hpop
    have hmem : ({TaskNode.ptr task} : Multiset ArgPtr) ≤ Q :=
      le_trans (hbag ▸ Multiset.le_add_left _ _) (h.queued.le w)
    obtain ⟨Q', rfl⟩ := Multiset.le_iff_exists_add.mp hmem
    refine ⟨Q', E + {TaskNode.ptr task}, h.queued.update ?_, ?_, ?_⟩
    · show _ + (queue.map TaskNode.ptr : List ArgPtr) = Q' + _
      rw [hbag]
      ac_rfl
    · rw [running_update (s := s) rfl rfl]
      refine h.executing.update ?_
      rw [hidle, executingBag_running rfl, add_zero]
      rfl
    · exact h.passive (by simp [PoolEvent.passive]) (by ac_rfl)
  · refine ⟨Q, E, h.queued.update_same rfl, ?_, ?_⟩
    · rw [running_update (s := s) rfl rfl]
      exact h.executing.update_same (by rw [hidle]; exact executingBag_loop hexec)
    · exact h.passive (by simp [PoolEvent.passive]) rfl

/-- A task that runs `mark_task_group_completed`. -/
theorem Ledger.mark (h : Ledger s Q E) {w : Nat} {b : Body} {task : TaskNode ArgPtr}
    {reqId : ReqId} {userData : BitVec 64} {success : Bool}
    (hexec : (s.pool.workers w).exec = .running task reqId userData)
    (hun : (s.body w).unmarked = true) (hb : b.unmarked = false) (hpool : s'.pool = s.pool)
    (hbody : s'.body = Function.update s.body w b)
    (htrace : s'.trace = s.trace ++ [.mark task.ptr.sync task.ptr.index success]) :
    ∃ E', Ledger s' Q E' := by
  have hbag : executingBag (s.running w) = {TaskNode.ptr task} := by
    rw [executingBag_running hexec]
    exact if_pos hun
  have hmem : ({TaskNode.ptr task} : Multiset ArgPtr) ≤ E := hbag ▸ h.executing.le w
  obtain ⟨E', rfl⟩ := Multiset.le_iff_exists_add.mp hmem
  refine ⟨E', ?_, ?_, ?_⟩
  · rw [hpool]
    exact h.queued
  · rw [running_update (s := s) (by rw [hpool]; exact (Function.update_eq_self w _).symm) hbody]
    refine h.executing.update ?_
    rw [hbag, executingBag_running hexec, if_neg (by simp [hb]), add_zero, add_comm]
  · have hlist : (marks s'.trace).map Prod.fst = (marks s.trace).map Prod.fst ++ [task.ptr] := by
      rw [htrace, marks_append, List.map_append]
      rfl
    rw [hlist, hpool, ← h.balance, ← Multiset.coe_add, Multiset.coe_singleton]
    ac_rfl

/-- The task function of a marked task returns. -/
theorem Ledger.finish (h : Ledger s Q E) {pool : PoolSys Proc ArgPtr} {w : Nat} {ret : Int}
    (hb : (s.body w).unmarked = false) (hpool : s.pool.step (.finish w ret) = some pool) :
    Ledger (s.setPool pool) Q E := by
  simp only [PoolSys.step, PoolSys.finish] at hpool
  split at hpool
  · rename_i task reqId userData hexec
    cases hpool
    refine ⟨h.queued.update_same rfl, ?_, ?_⟩
    · rw [running_setPool (w := w) rfl]
      refine h.executing.update_same ?_
      have hbag : executingBag (s.running w) = _ := executingBag_running hexec
      rw [hbag]
      exact (if_neg (by simp [Transport.running, hb])).symm
    · exact h.passive (PoolSys.passive_finishEvents w task ret) rfl
  · cases hpool

/-- The context of a finished task is counted down. -/
theorem Ledger.account (h : Ledger s Q E) {pool : PoolSys Proc ArgPtr} {w : Nat}
    (hpool : s.pool.step (.account w) = some pool) : Ledger (s.setPool pool) Q E := by
  simp only [PoolSys.step, PoolSys.account] at hpool
  split at hpool
  · rename_i task reqId ret hexec
    cases hpool
    refine ⟨h.queued.update_same rfl, ?_, ?_⟩
    · rw [running_setPool (w := w) rfl]
      refine h.executing.update_same ?_
      unfold executingBag Transport.running
      simp only [hexec]
    · exact h.passive (passive_batchCb _) rfl
  · cases hpool

/-- One section of a call in progress. -/
theorem Ledger.advance (h : Ledger s Q E) {pool : PoolSys Proc ArgPtr} {c : Proc} {alloc : Alloc}
    (hpool : s.pool.step (.advance c alloc) = some pool) : ∃ Q', Ledger (s.setPool pool) Q' E := by
  rcases PoolSys.advance_effect hpool with hq | ⟨sub, w, nodes, -, rfl⟩ | ⟨reqId, w, pc, -, rfl, -⟩
  · exact ⟨Q, h.quiet hq rfl rfl rfl⟩
  · exact ⟨_, h.attach rfl rfl⟩
  · have hcancel : ∃ Q', Q = Q' + ((cancelledNodes (s.pool.workers w) reqId).map TaskNode.ptr :
        List ArgPtr) ∧
        Ledger (s.setPool (((s.pool.setWorker w (cancelInWorkerQueue (s.pool.workers w) reqId)).record
          ((cancelledNodes (s.pool.workers w) reqId).map (.cancelled c))).setCall c pc)) Q' E :=
      h.cancel rfl rfl
    obtain ⟨Q', -, h'⟩ := hcancel
    exact ⟨Q', h'⟩

end Moves

/-! ## Every run

The equation along a run. -/

/-- Each step keeps the balance. -/
theorem ledger_move {s s' : Transport} {a : Action} {Q E : Multiset ArgPtr} (h : Ledger s Q E)
    (hm : Move s a s') : ∃ Q' E', Ledger s' Q' E' := by
  cases hm with
  | refuse ha hc => exact ⟨Q, E, h.same rfl rfl rfl⟩
  | submit ha hc hpool => exact ⟨Q, E, h.quiet (PoolSys.unchanged_submit hpool).quiet rfl rfl rfl⟩
  | callerAdvance hc hpool =>
    obtain ⟨Q', h'⟩ := h.advance hpool
    exact ⟨Q', E, h'⟩
  | registerSend hc hdone hinfo hpool =>
    exact ⟨Q, E, h.quiet (PoolSys.unchanged_collect hpool).quiet rfl rfl rfl⟩
  | registerRecv hc hdone hinfo hpool =>
    exact ⟨Q, E, h.quiet (PoolSys.unchanged_collect hpool).quiet rfl rfl rfl⟩
  | unregistered hc hdone hres hpool =>
    exact ⟨Q, E, h.quiet (PoolSys.unchanged_collect hpool).quiet rfl rfl rfl⟩
  | firstWrite hc hinfo hpost =>
    obtain ⟨hp, -, hb, -, ht⟩ := post_same hpost
    exact ⟨Q, E, h.same hp hb ht⟩
  | prefill hc hinfo hinit hret =>
    exact ⟨Q, E, h.same rfl rfl (marks_emit (prefill_events hinit))⟩
  | prefillFailed hc hinfo hinit hret =>
    exact ⟨Q, E, h.same rfl rfl (marks_emit (prefill_events hinit))⟩
  | fail hc => exact ⟨Q, E, h.same rfl rfl rfl⟩
  | callWait ho => exact ⟨Q, E, h.same rfl rfl rfl⟩
  | callCancel ho hpool =>
    exact ⟨Q, E, h.quiet (PoolSys.unchanged_cancel hpool).quiet rfl rfl rfl⟩
  | enter ho hb => exact ⟨Q, E, h.same rfl rfl rfl⟩
  | woken ho => exact ⟨Q, E, h.same rfl rfl rfl⟩
  | unbound ho hb => exact ⟨Q, E, h.same rfl rfl rfl⟩
  | timeout ho => exact ⟨Q, E, h.same rfl rfl rfl⟩
  | condError ho => exact ⟨Q, E, h.same rfl rfl rfl⟩
  | beginCancel ho htask hpool =>
    exact ⟨Q, E, h.quiet (PoolSys.unchanged_cancel hpool).quiet rfl rfl rfl⟩
  | ownerAdvance ho hpool =>
    obtain ⟨Q', h'⟩ := h.advance hpool
    exact ⟨Q', E, h'⟩
  | counted ho hdone hpool =>
    exact ⟨Q, E, h.quiet (PoolSys.unchanged_collect hpool).quiet rfl rfl rfl⟩
  | refusedWait ho hdone hres hpool =>
    exact ⟨Q, E, h.quiet (PoolSys.unchanged_collect hpool).quiet rfl rfl rfl⟩
  | refusedCancel ho hdone hres hpool =>
    exact ⟨Q, E, h.quiet (PoolSys.unchanged_collect hpool).quiet rfl rfl rfl⟩
  | add ho hsync => exact ⟨Q, E, h.same rfl rfl rfl⟩
  | addFree ho => exact ⟨Q, E, h.same rfl rfl rfl⟩
  | release ho hsync => exact ⟨Q, E, h.same rfl rfl rfl⟩
  | request ho => exact ⟨Q, E, h.same rfl rfl rfl⟩
  | recheck ho hsync => exact ⟨Q, E, h.same rfl rfl rfl⟩
  | ownerFree ho => exact ⟨Q, E, h.same rfl rfl rfl⟩
  | ignored hidle hcr hev hout => exact ⟨Q, E, h.same rfl rfl (marks_emit hev.no_mark)⟩
  | completion hidle hcr hpool hev hout =>
    exact ⟨Q, E, h.quiet (PoolSys.unchanged_wake hpool).quiet rfl rfl
      (marks_emit hev.no_mark)⟩
  | wakeStep hpa hpool =>
    rcases hpa with rfl | rfl
    · obtain ⟨Q', h'⟩ := h.advance hpool
      exact ⟨Q', E, h'⟩
    · exact ⟨Q, E, h.quiet (PoolSys.unchanged_collect hpool).quiet rfl rfl rfl⟩
  | cancelId hpool =>
    exact ⟨Q, E, h.quiet (PoolSys.unchanged_cancel hpool).quiet rfl rfl rfl⟩
  | cancelStep hpa hpool =>
    rcases hpa with rfl | rfl
    · obtain ⟨Q', h'⟩ := h.advance hpool
      exact ⟨Q', E, h'⟩
    · exact ⟨Q, E, h.quiet (PoolSys.unchanged_collect hpool).quiet rfl rfl rfl⟩
  | pop hexec hpool => exact h.pop hpool
  | notify hexec hbody harg hpost =>
    obtain ⟨hp, -, hb, -, ht⟩ := post_same hpost
    refine ⟨Q, E, h.setBody hp (congrArg (Function.update · _ _) hb) ?_ ht⟩
    rw [hbody]
    split <;> rfl
  | write hexec hbody harg hpost =>
    obtain ⟨hp, -, hb, -, ht⟩ := post_same hpost
    refine ⟨Q, E, h.setBody hp (congrArg (Function.update · _ _) hb) ?_ ht⟩
    rw [hbody]
    rfl
  | callback hexec hbody harg hcb =>
    exact ⟨Q, E, h.setBody rfl rfl (by rw [hbody]; rfl) (marks_emit (by simp))⟩
  | noCallback hexec hbody harg hcb =>
    exact ⟨Q, E, h.setBody rfl rfl (by rw [hbody]; rfl) rfl⟩
  | status hexec hbody => exact ⟨Q, E, h.setBody rfl rfl (by rw [hbody]; rfl) rfl⟩
  | @mark w _ _ _ _ taskRet _ shouldFree hexec hbody _ =>
    have hb : (if shouldFree then Body.free taskRet else .finish taskRet).unmarked = false := by
      cases shouldFree <;> rfl
    exact ⟨Q, h.mark hexec (by rw [hbody]; rfl) hb rfl rfl rfl⟩
  | workerFree hexec hbody => exact ⟨Q, E, h.setBody rfl rfl (by rw [hbody]; rfl) rfl⟩
  | finish hexec hbody hpool => exact ⟨Q, E, h.finish (by rw [hbody]; rfl) hpool⟩
  | account hexec hpool => exact ⟨Q, E, h.account hpool⟩

/-- In every reachable state the books balance. -/
theorem ledger_reach {workerCount : Nat} {capacity : BitVec 32} {ok : Transport → Action → Prop}
    {s : Transport} (h : (transportSystem workerCount capacity).Reach ok s) :
    ∃ Q E, Ledger s Q E := by
  refine System.Reach.invariant (I := fun s => ∃ Q E, Ledger s Q E) ?_ ?_ h
  · rintro s rfl
    exact ⟨0, 0, .zero fun _ => rfl, .zero fun _ => rfl, rfl⟩
  · rintro s a s' - ⟨Q, E, hL⟩ - hs
    exact ledger_move hL (Transport.move_of_step hs)

end OsTransport
