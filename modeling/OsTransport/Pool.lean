/-
  The thread pool: its data, and the work done under one hold of one of its locks.

  A worker owns two lists under `worker->mutex`: the queue of submitted tasks and the list of
  accepted wake-ups.  Both are linked lists with head, tail and length in the source and plain
  lists here, front first.  The request table (`OsTransport.ReqHash`) is under
  `req_hash_mutex`, the task-id counter under `task_id_mutex`.  No function holds two of these
  locks at once, so every public call is a sequence of the atomic sections defined here; the
  interleavings of such sequences are the subject of `OsTransport.PoolSystem`.

  A task handed to the pool is a `ThreadPoolTask α`: `α` stands for the task function together
  with its argument and its prepare callback.  What is queued is a second `ThreadPoolTask` whose
  argument is the `InternalTask` wrapped around the first (`TaskNode α`).  A callback with its
  user data is one opaque token.

  A task is an allocation, and one caller keeps a pointer to it longer than it should (see
  `OsTransport.PoolBooks`).  So a task has a `serial`, which tells allocations apart for ever, while
  its id is what is left of the serial in 64 bits.
-/
import OsTransport.ReqHash
import OsTransport.Lib.Queue

namespace OsTransport

variable {α : Type*}

/-! ## Data

The structures of the header, without the links between nodes. -/

/-- `ThreadPoolTask`. -/
structure ThreadPoolTask (α : Type*) where
  taskId : BitVec 64
  requestId : ReqId
  taskArg : α
  hasMatchUserCtx : Bool
  matchUserCtx : BitVec 64
  deriving DecidableEq, Repr

/-- `InternalTask`: the wrapper the pool puts around the submitted task. -/
structure InternalTask (α : Type*) where
  userArg : α
  completeCb : Option Nat
  taskId : BitVec 64
  requestId : ReqId
  /-- Which allocation of a task this is: what a pointer to the task points to. -/
  serial : Nat
  deriving DecidableEq, Repr

/-- A queued task. -/
abbrev TaskNode (α : Type*) := ThreadPoolTask (InternalTask α)

/-- `PendingReqNode`: an accepted wake-up with its copy of the completion's user data. -/
structure PendingReqNode where
  requestId : ReqId
  userData : BitVec 64
  deriving DecidableEq, Repr

/-- `WorkerState`. -/
inductive WorkerState
  | init
  | idle
  | busy
  | exit
  deriving DecidableEq, Repr

/-- Where a worker thread is: in the loop of `worker_routine`, inside `task->task_func` of
    `worker_process_task`, or past it and before the context is counted down. -/
inductive Exec (α : Type*)
  | loop
  | running (task : TaskNode α) (reqId : ReqId) (userData : BitVec 64)
  | returned (task : TaskNode α) (reqId : ReqId) (ret : Int)
  deriving DecidableEq, Repr

/-- The task a worker has in its hands. -/
def Exec.task : Exec α → Option (TaskNode α)
  | .loop => none
  | .running task _ _ => some task
  | .returned task _ _ => some task

/-- `WorkerThread`. -/
structure WorkerThread (α : Type*) where
  queue : List (TaskNode α)
  pending : List PendingReqNode
  state : WorkerState
  exec : Exec α

/-- A worker as `create_worker` leaves it. -/
def WorkerThread.fresh : WorkerThread α := ⟨[], [], .idle, .loop⟩

/-- `struct _ThreadPool`. -/
structure Pool (α : Type*) where
  workerCount : Nat
  workers : Nat → WorkerThread α
  reqHash : ReqHash
  /-- `next_task_id`, of which the source keeps the low 64 bits. -/
  nextTaskId : Nat
  isRunning : Bool

/-- The pool after `thread_pool_init` and `thread_pool_start`. -/
def Pool.started (workerCount : Nat) : Pool α where
  workerCount := workerCount
  workers _ := .fresh
  reqHash := .empty
  nextTaskId := 1
  isRunning := true

/-! ## Under a worker's mutex

What the four functions that take `worker->mutex` do to the two lists, and one iteration of
`worker_routine`. -/

/-- A queued task answers a wake-up if it has its request id and either no match key or the
    completion's 64 bits as match key. -/
def answersWakeUp (reqId : ReqId) (userData : BitVec 64) (task : TaskNode α) : Bool :=
  task.requestId == reqId && (!task.hasMatchUserCtx || task.matchUserCtx == userData)

/-- `worker_queue_pop_by_req_and_user_data`. -/
def workerQueuePopByReqAndUserData (queue : List (TaskNode α)) (reqId : ReqId)
    (userData : BitVec 64) : Option (TaskNode α × List (TaskNode α)) :=
  Queue.popFirst (answersWakeUp reqId userData) queue

/-- `worker_pending_req_push`. -/
def workerPendingReqPush (w : WorkerThread α) (reqId : ReqId) (userData : BitVec 64) :
    WorkerThread α :=
  { w with pending := w.pending ++ [⟨reqId, userData⟩] }

/-- `attach_nodes_to_worker`, and `worker_queue_push` for one node. -/
def attachNodesToWorker (w : WorkerThread α) (nodes : List (TaskNode α)) : WorkerThread α :=
  { w with queue := w.queue ++ nodes }

/-- The tasks `cancel_in_worker_queue` removes. -/
def cancelledNodes (w : WorkerThread α) (reqId : ReqId) : List (TaskNode α) :=
  w.queue.filter fun t => t.requestId == reqId

/-- `cancel_in_worker_queue`: tasks and wake-ups of the id leave the worker under one hold. -/
def cancelInWorkerQueue (w : WorkerThread α) (reqId : ReqId) : WorkerThread α :=
  { w with
    queue := w.queue.filter fun t => !(t.requestId == reqId)
    pending := w.pending.filter fun p => !(p.requestId == reqId) }

/-- One iteration of `worker_routine`: sleep, or serve the oldest wake-up. -/
def workerRoutine (w : WorkerThread α) : WorkerThread α :=
  match w.pending with
  | [] => { w with state := .idle }
  | p :: pending =>
    match workerQueuePopByReqAndUserData w.queue p.requestId p.userData with
    | some (task, queue) =>
      { queue, pending, state := .busy, exec := .running task p.requestId p.userData }
    | none => { w with pending, state := .idle }

/-! ### `select_best_worker` -/

/-- The candidate kept by the scan, with the load it was seen under. -/
structure BestWorker where
  workerIdx : Nat
  load : Nat
  busyBias : Nat
  deriving DecidableEq, Repr

/-- `w->queue_size + w->pending_req_count`, a `uint32_t`. -/
def workerLoad (w : WorkerThread α) : Nat := (w.queue.length + w.pending.length) % 2 ^ 32

/-- One iteration of the scan, under the mutex of worker `i`: the candidate after it, and whether
    the scan stops there. -/
def selectBestWorkerStep (w : WorkerThread α) (i : Nat) (best : Option BestWorker) :
    BestWorker × Bool :=
  let load := workerLoad w
  let busyBias := if w.state = .busy then 1 else 0
  if load = 0 ∧ busyBias = 0 then (⟨i, load, busyBias⟩, true)
  else match best with
    | none => (⟨i, load, busyBias⟩, false)
    | some b =>
      if load < b.load ∨ (load = b.load ∧ busyBias < b.busyBias) then (⟨i, load, busyBias⟩, false)
      else (b, false)

/-! ## Under `req_hash_mutex`

Three sections edit the count of a context: the recording of a submission, the count-down of a
cancel and the count-down of a task.  Each may find that there is no context. -/

/-- What `update_batch_context` makes of the context of its id.  `alloc` is whether the `malloc` of
    a missing context succeeds. -/
def recordedContext (alloc : Bool) (reqId : ReqId) (workerIdx taskCount : Nat)
    (batchCb : Option Nat) : Option RequestContext → Option RequestContext
  | some ctx => some (ctx.add taskCount)
  | none => if alloc then some ⟨reqId, workerIdx, cInt taskCount, batchCb⟩ else none

/-- `update_batch_context`, and the same section of `thread_pool_submit_task`. -/
def updateBatchContext (t : ReqHash) (alloc : Bool) (reqId : ReqId) (workerIdx taskCount : Nat)
    (batchCb : Option Nat) : ReqHash :=
  match h : t.find reqId with
  | some _ => t.addPending reqId taskCount
  | none => if alloc then t.insert ⟨reqId, workerIdx, cInt taskCount, batchCb⟩ h else t

/-- What `update_context_after_cancel` makes of the context of its id.  Both counts are compared as
    `uint32_t`. -/
def cancelledContext (removed : Nat) : Option RequestContext → Option RequestContext
  | some ctx =>
    if cUint32 removed ≥ cUint32 ctx.pendingCount then none else some (ctx.add (-removed))
  | none => none

/-- `update_context_after_cancel`. -/
def updateContextAfterCancel (t : ReqHash) (reqId : ReqId) (removed : Nat) : ReqHash :=
  match t.find reqId with
  | some ctx =>
    if cUint32 removed ≥ cUint32 ctx.pendingCount then t.remove reqId
    else t.addPending reqId (-removed)
  | none => t

/-- What the end of `worker_process_task` makes of the context of its id. -/
def accountedContext : Option RequestContext → Option RequestContext
  | some ctx => if (ctx.add (-1)).pendingCount = 0 then none else some (ctx.add (-1))
  | none => none

/-! A count that fits an `int` is lowered as an integer is. -/

theorem RequestContext.add_of_fits {ctx : RequestContext} {delta : Int}
    (hlo : -2 ^ 31 ≤ ctx.pendingCount + delta) (hhi : ctx.pendingCount + delta < 2 ^ 31) :
    ctx.add delta = { ctx with pendingCount := ctx.pendingCount + delta } := by
  rw [RequestContext.add, cInt_eq hlo hhi]

theorem cancelledContext_of_fits {removed : Nat} {ctx : RequestContext}
    (hpos : 0 ≤ ctx.pendingCount) (hfits : ctx.pendingCount < 2 ^ 31) (hfew : removed < 2 ^ 32) :
    cancelledContext removed (some ctx) =
      if (removed : Int) ≥ ctx.pendingCount then none
      else some { ctx with pendingCount := ctx.pendingCount - removed } := by
  rw [cancelledContext, cUint32_eq (by omega) (by omega), cUint32_eq hpos (by omega)]
  split
  · rfl
  · rw [RequestContext.add_of_fits (by omega) (by omega)]
    rfl

theorem accountedContext_of_fits {ctx : RequestContext} (hpos : 0 ≤ ctx.pendingCount)
    (hfits : ctx.pendingCount < 2 ^ 31) :
    accountedContext (some ctx) =
      if ctx.pendingCount - 1 = 0 then none
      else some { ctx with pendingCount := ctx.pendingCount - 1 } := by
  rw [accountedContext, RequestContext.add_of_fits (by omega) (by omega)]
  rfl

theorem cancelledContext_some {removed : Nat} {old : Option RequestContext} {ctx : RequestContext} :
    cancelledContext removed old = some ctx ↔ ∃ ctx₀, old = some ctx₀ ∧
      cUint32 removed < cUint32 ctx₀.pendingCount ∧ ctx = ctx₀.add (-removed) := by
  cases old with
  | none => simp [cancelledContext]
  | some ctx₀ =>
    simp only [cancelledContext, Option.ite_none_left_eq_some, ge_iff_le, not_le, Option.some.injEq]
    exact ⟨fun ⟨hlt, heq⟩ => ⟨ctx₀, rfl, hlt, heq.symm⟩,
      fun ⟨_, hsome, hlt, heq⟩ => ⟨hsome ▸ hlt, by rw [hsome, heq]⟩⟩

theorem accountedContext_some {old : Option RequestContext} {ctx : RequestContext} :
    accountedContext old = some ctx ↔ ∃ ctx₀, old = some ctx₀ ∧ (ctx₀.add (-1)).pendingCount ≠ 0 ∧
      ctx = ctx₀.add (-1) := by
  cases old with
  | none => simp [accountedContext]
  | some ctx₀ =>
    simp only [accountedContext, Option.ite_none_left_eq_some, Option.some.injEq]
    exact ⟨fun ⟨hne, heq⟩ => ⟨ctx₀, rfl, hne, heq.symm⟩,
      fun ⟨_, hsome, hne, heq⟩ => ⟨hsome ▸ hne, by rw [hsome, heq]⟩⟩

/-- The locked section at the end of `worker_process_task`. -/
def accountTask (t : ReqHash) (reqId : ReqId) : ReqHash :=
  match t.find reqId with
  | some ctx =>
    if (ctx.add (-1)).pendingCount = 0 then t.remove reqId else t.addPending reqId (-1)
  | none => t

/-- The batch callback that section hands out: that of the context it removes. -/
def accountBatchCb (t : ReqHash) (reqId : ReqId) : Option Nat :=
  match t.find reqId with
  | some ctx => if (ctx.add (-1)).pendingCount = 0 then ctx.batchCb else none
  | none => none

/-! Each section edits the context of its own id and no other. -/

theorem find_updateBatchContext (t : ReqHash) (alloc : Bool) (r r' : ReqId) (w k : Nat)
    (cb : Option Nat) :
    (updateBatchContext t alloc r w k cb).find r' =
      if r' = r then recordedContext alloc r w k cb (t.find r) else t.find r' := by
  unfold updateBatchContext
  split
  · rename_i ctx h
    rw [ReqHash.find_addPending, h]
    rfl
  · rename_i h
    cases alloc with
    | true =>
      rw [if_pos rfl, ReqHash.find_insert, h]
      rfl
    | false =>
      rw [if_neg Bool.false_ne_true, h]
      by_cases hr : r' = r
      · rw [if_pos hr, hr, h]; rfl
      · rw [if_neg hr]

theorem find_updateContextAfterCancel (t : ReqHash) (r r' : ReqId) (k : Nat) :
    (updateContextAfterCancel t r k).find r' =
      if r' = r then cancelledContext k (t.find r) else t.find r' := by
  unfold updateContextAfterCancel
  cases h : t.find r with
  | none =>
    by_cases hr : r' = r
    · rw [if_pos hr, hr, h]; rfl
    · rw [if_neg hr]
  | some ctx =>
    by_cases hk : cUint32 k ≥ cUint32 ctx.pendingCount
    · simp only [if_pos hk, ReqHash.find_remove, cancelledContext]
    · simp only [if_neg hk, ReqHash.find_addPending, cancelledContext, h]
      rfl

theorem find_accountTask (t : ReqHash) (r r' : ReqId) :
    (accountTask t r).find r' = if r' = r then accountedContext (t.find r) else t.find r' := by
  unfold accountTask
  cases h : t.find r with
  | none =>
    by_cases hr : r' = r
    · rw [if_pos hr, hr, h]; rfl
    · rw [if_neg hr]
  | some ctx =>
    by_cases hk : (ctx.add (-1)).pendingCount = 0
    · simp only [if_pos hk, ReqHash.find_remove, accountedContext]
    · simp only [if_neg hk, ReqHash.find_addPending, accountedContext, h]
      rfl

end OsTransport
