/-
  The transport: requests, their owners, the completion poller and the workers, over one pool.

  A request is a number `q`, used once.  The threads that act on it are processes of the pool:

  * `caller q` runs `os_transport_send` or `os_transport_recv`;
  * `owner q` then runs one `wait_and_free_sync`, `wait_and_free_sync_timeout` or
    `os_transport_cancel_tasks` with the handle that call left in `*ret_sync_handle`;
  * `wake k` runs `os_transport_wake_up_task` for a completion record;
  * `cancel k` runs `os_transport_cancel_tasks` without a handle.

  A worker that executes a task is inside `send_task_worker_func` or `recv_task_worker_func`;
  `Body` is how far it got.  Every locked section and every post to the URMA library is a step
  of its own, and each step makes at most one step of the pool, so a run of the transport is in
  particular a run of the pool.

  What a step takes from outside is part of the action: the outcome of allocations, the status
  of a post, the value a notify callback returns, why `pthread_cond_wait` returned, the content
  of a completion record.  `trace` and `outstanding` are history variables: the calls that left
  the library, and the local tags of the posted work requests whose completion has not been
  handled.

  A request has at most seven tasks.  What `thread_pool_cancel_tasks_by_req` has removed is added as
  it is; as the `int` the source takes it for, it is the same as long as fewer than 2^31 tasks are
  queued under one id, which takes some three hundred million requests of that id at a time.
-/
import OsTransport.Submit

namespace OsTransport

/-! ## Processes and requests

Where each of the three parties of a request is. -/

/-- A thread inside the library, by the call it runs. -/
inductive Proc
  | caller (q : Nat)
  | owner (q : Nat)
  | wake (k : Nat)
  | cancel (k : Nat)
  deriving DecidableEq, Repr

/-- Where `os_transport_send` / `os_transport_recv` is. -/
inductive CallerPc
  /-- Not called yet. -/
  | fresh
  /-- In `thread_pool_submit_batch_tasks`. -/
  | submitting
  /-- About to post the first chunk. -/
  | writing
  /-- About to run `urma_recv_ctx_init`. -/
  | prefilling
  /-- That post failed with this status; about to set `request_completed`. -/
  | failing (urmaStatus : UrmaStatus)
  /-- Returned `0` or `-1`, with this `*urma_status`. -/
  | returned (ok : Bool) (urmaStatus : UrmaStatus)
  deriving DecidableEq, Repr

/-- What the call on the handle returned. -/
inductive OwnerRet
  /-- A wait, with `*urma_status`. -/
  | waited (ret : WaitRet) (urmaStatus : UrmaStatus)
  /-- `os_transport_cancel_tasks`, with `0` and the handle cleared. -/
  | cancelled
  deriving DecidableEq, Repr

/-- Where the call on the handle is.  `wait` is what a wait will return, `none` in a cancel. -/
inductive OwnerPc
  | idle
  /-- `wait_and_free_sync_common` called, with a deadline or without. -/
  | entering (timed : Bool)
  /-- In `pthread_cond_wait` / `pthread_cond_timedwait`. -/
  | blocked (timed : Bool)
  /-- The wait failed; about to cancel the queued tasks. -/
  | failed (wait : WaitRet)
  /-- In `thread_pool_cancel_tasks_by_req`. -/
  | cancelling (wait : Option WaitRet)
  /-- About to run `task_sync_add_canceled_tasks`. -/
  | adding (count : Nat) (wait : Option WaitRet)
  /-- That section took the object for freeing. -/
  | addFreeing (wait : Option WaitRet)
  /-- About to request the release. -/
  | releasing (wait : Option WaitRet)
  /-- The task group is missing: about to run `sync_request_release`. -/
  | requesting
  /-- Between its two sections. -/
  | rechecking
  /-- About to run `free_sync_owned_resources`, then to return. -/
  | freeing (ret : OwnerRet)
  | returned (ret : OwnerRet)
  deriving DecidableEq, Repr

/-- A request with everything the library keeps for it. -/
structure Request where
  prep : Prepared
  sync : TaskSync
  /-- `sync->task_group` and `sync->chunks` are set. -/
  bound : Bool
  /-- `*ret_sync_handle` is the sync object. -/
  handle : Bool
  caller : CallerPc
  owner : OwnerPc
  /-- How often `free_sync_owned_resources` has run. -/
  freed : Nat

/-- A request nobody has made. -/
def Request.fresh : Request where
  prep := ⟨0#64, .recv ⟨none, none, none, ⟨none, none, 0#64⟩, 0#64⟩, [], [], []⟩
  sync := .init 0
  bound := false
  handle := false
  caller := .fresh
  owner := .idle
  freed := 0

/-- Where a worker is in the task function. -/
inductive Body
  /-- About to post the notify, or to invoke the callback. -/
  | start
  /-- About to post the write. -/
  | write
  /-- `do_send_chunk_for_worker` returned; about to run `update_urma_status`. -/
  | status (urmaStatus : UrmaStatus)
  /-- About to run `mark_task_group_completed`. -/
  | mark (ret : Int)
  /-- That section took the object for freeing. -/
  | free (ret : Int)
  /-- About to return. -/
  | finish (ret : Int)
  deriving DecidableEq, Repr

/-! ## The state

One pool, all requests, the worker bodies, the receive context of the handle, and the history. -/

/-- `urma_recv_ctx_t`. -/
structure UrmaRecvCtx where
  recvQueueCapacity : BitVec 32
  jetty : Ptr
  deriving DecidableEq, Repr

/-- What `os_transport_wake_up_task` reads of an `urma_cr_t`, and its status, which it does not
    read. -/
structure UrmaCr where
  status : Int
  sR : Bool
  opcode : Int
  userCtx : BitVec 64
  immData : BitVec 64
  deriving DecidableEq, Repr

/-- `URMA_CR_OPC_SEND_WITH_IMM`. -/
def urmaCrOpcSendWithImm : Int := 3

/-- A call that left the library, or a completion that entered it. -/
inductive Event
  /-- The write or the notify of chunk `chunk` of request `q` was posted, with this result. -/
  | post (q : Nat) (opcode : UrmaOpcode) (chunk : Nat) (queue : SendQueue) (wr : UrmaJfsWr)
      (status : UrmaStatus)
  | recvPost (jfr jetty : Ptr) (status : UrmaStatus)
  | callback (q : Nat) (task : Nat) (callback : Nat) (userData : UserData) (ret : Int)
  /-- Task `task` of request `q` ran `mark_task_group_completed` with `ret == 0`. -/
  | mark (q : Nat) (task : Nat) (success : Bool)
  | completion (cr : UrmaCr)
  deriving DecidableEq, Repr

structure Transport where
  pool : PoolSys Proc ArgPtr
  reqs : Nat → Request
  body : Nat → Body
  recvCtx : UrmaRecvCtx
  outstanding : List (BitVec 64)
  trace : List Event

/-- After `os_transport_init`. -/
def Transport.start (workerCount : Nat) (recvQueueCapacity : BitVec 32) : Transport where
  pool := .start workerCount
  reqs _ := .fresh
  body _ := .start
  recvCtx := ⟨recvQueueCapacity, none⟩
  outstanding := []
  trace := []

/-- Why `pthread_cond_wait` / `pthread_cond_timedwait` returned. -/
inductive CondRet
  /-- Signalled, or spuriously. -/
  | woken
  | etimedout
  | error
  deriving DecidableEq, Repr

inductive Action
  | callSend (q : Nat) (call : SendCall) (alloc : Bool) (submitAlloc : Alloc)
  | callRecv (q : Nat) (call : RecvCall) (alloc : Bool) (submitAlloc : Alloc)
  /-- The next step of `caller q`; the statuses of its posts. -/
  | caller (q : Nat) (alloc : Alloc) (statuses : List UrmaStatus)
  | callWait (q : Nat) (timed : Bool)
  | callCancel (q : Nat) (reqId : ReqId)
  | owner (q : Nat) (cond : CondRet)
  /-- `os_transport_wake_up_task`; the status of the receive work request it re-posts. -/
  | completion (k : Nat) (cr : UrmaCr) (status : UrmaStatus)
  | wake (k : Nat) (alloc : Alloc)
  | callCancelId (k : Nat) (reqId : ReqId)
  | canceller (k : Nat)
  /-- The next step of worker `w`; the status of its post, or what the callback returned. -/
  | worker (w : Nat) (ret : Int)

namespace Transport

/-! ## Pieces of the state

Setters, and the one way a work request reaches the library. -/

def setPool (s : Transport) (pool : PoolSys Proc ArgPtr) : Transport := { s with pool }

def setReq (s : Transport) (q : Nat) (r : Request) : Transport :=
  { s with reqs := Function.update s.reqs q r }

def setBody (s : Transport) (w : Nat) (b : Body) : Transport :=
  { s with body := Function.update s.body w b }

def emit (s : Transport) (events : List Event) : Transport := { s with trace := s.trace ++ events }

/-- Post a send-side work request; `none` is a post refused before it reached the library. -/
def post (s : Transport) (q : Nat) (opcode : UrmaOpcode) (chunk : Nat)
    (attempt : Option (SendQueue × UrmaJfsWr)) (status : UrmaStatus) : Transport × UrmaStatus :=
  match attempt with
  | none => (s, urmaFail)
  | some (queue, wr) =>
    ({ s.emit [.post q opcode chunk queue wr status] with
        outstanding := if status = urmaSuccess then s.outstanding ++ [wr.userCtx] else s.outstanding },
      status)

/-! ## Callers

A caller prepares, submits, stores the handle and posts; every post may fail. -/

/-- Register the request `p`, or refuse the call. -/
def beginCall (s : Transport) (q : Nat) (prep : Option Prepared) (alloc : Alloc) :
    Option Transport :=
  match prep with
  | none => some (s.setReq q { s.reqs q with caller := .returned false urmaSuccess })
  | some p =>
    (s.pool.step (.submit (.caller q) p.submission alloc)).map fun pool =>
      (s.setPool pool).setReq q
        { s.reqs q with prep := p, sync := .init p.tasks.length, caller := .submitting }

/-- The prefill loop of `urma_recv_ctx_init`: its result and the statuses of its posts. -/
def prefillLoop : Nat → List UrmaStatus → UrmaStatus × List UrmaStatus
  | 0, _ => (urmaSuccess, [])
  | n + 1, statuses =>
    let status := statuses.headD urmaSuccess
    if status ≠ urmaSuccess then (status, [status])
    else
      let (ret, posted) := prefillLoop n statuses.tail
      (ret, status :: posted)

/-- `RQE_PREFILL_MULTIPLE_DUPLEX`. -/
def rqePrefillMultipleDuplex : BitVec 32 := 4#32

/-- `urma_recv_ctx_init`: its result, the context it leaves and its posts. -/
def urmaRecvCtxInit (ctx : UrmaRecvCtx) (recvInfo : UrmaRecvInfo) (statuses : List UrmaStatus) :
    UrmaStatus × UrmaRecvCtx × List Event :=
  if ctx.jetty = recvInfo.jetty then (urmaSuccess, ctx, [])
  else
    let (ret, posted) :=
      prefillLoop (ctx.recvQueueCapacity * rqePrefillMultipleDuplex).toNat statuses
    let ctx := if ret = urmaSuccess ∨ ret = urmaEnomem then { ctx with jetty := recvInfo.jetty }
      else ctx
    (ret, ctx, posted.map (.recvPost recvInfo.jfr recvInfo.jetty))

/-- The next step of the call that makes request `q`. -/
def callerStep (s : Transport) (q : Nat) (alloc : Alloc) (statuses : List UrmaStatus) :
    Option Transport :=
  let r := s.reqs q
  match r.caller with
  | .submitting =>
    match s.pool.calls (.caller q) with
    | .done (.taskIds _) =>
      (s.pool.step (.collect (.caller q))).map fun pool =>
        match r.prep.urmaInfo with
        | .write _ =>
          (s.setPool pool).setReq q { r with bound := true, handle := true, caller := .writing }
        | .recv _ => (s.setPool pool).setReq q { r with bound := true, caller := .prefilling }
    | .done _ =>
      -- refused before a task was queued: the handle stays clear
      (s.pool.step (.collect (.caller q))).map fun pool =>
        (s.setPool pool).setReq q { r with caller := .returned false urmaSuccess }
    | _ => (s.pool.step (.advance (.caller q) alloc)).map s.setPool
  | .writing =>
    match r.prep.urmaInfo with
    | .write writeInfo =>
      let (s, ret) := s.post q .write 0 (urmaWriteChunk writeInfo r.prep.chunks[0]?)
        (statuses.headD urmaSuccess)
      some (s.setReq q { r with
        caller := if ret = urmaSuccess then .returned true urmaSuccess else .failing ret })
    | .recv _ => none
  | .prefilling =>
    match r.prep.urmaInfo with
    | .recv recvInfo =>
      let (ret, recvCtx, events) := urmaRecvCtxInit s.recvCtx recvInfo statuses
      let s := { s.emit events with recvCtx }
      if ret ≠ urmaSuccess ∧ ret ≠ urmaEnomem then
        some (s.setReq q { r with caller := .failing urmaSuccess })
      else some (s.setReq q { r with handle := true, caller := .returned true urmaSuccess })
    | .write _ => none
  | .failing urmaStatus =>
    some (s.setReq q { r with sync := r.sync.complete, caller := .returned false urmaStatus })
  | _ => none

/-! ## Owners

The two waits and the cancel, up to the release of the object. -/

/-- A call on the handle can be made: the API call returned it and nobody has used it. -/
def ownable (s : Transport) (q : Nat) : Bool :=
  let r := s.reqs q
  (match r.caller with
    | .returned _ _ => r.handle
    | _ => false) && r.owner == .idle

/-- One check of the loop condition in `wait_for_task_complete_common`, under the mutex. -/
def checkCompleted (r : Request) (timed : Bool) : OwnerPc :=
  if r.sync.requestCompleted then
    match r.sync.verdict with
    | .ok => .releasing (some .ok)
    | wait => .failed wait
  else .blocked timed

/-- What `wait_and_free_sync_common` or `os_transport_cancel_tasks` returns at its end. -/
def ownerRet (wait : Option WaitRet) (urmaStatus : UrmaStatus) : OwnerRet :=
  match wait with
  | some wait => .waited (if urmaStatus = urmaSuccess then wait else .error) urmaStatus
  | none => .cancelled

/-- The next step of the call on the handle of request `q`. -/
def ownerStep (s : Transport) (q : Nat) (cond : CondRet) : Option Transport :=
  let r := s.reqs q
  match r.owner with
  | .idle => none
  | .returned _ => none
  | .entering timed =>
    if r.bound then some (s.setReq q { r with owner := checkCompleted r timed })
    else some (s.setReq q { r with owner := .requesting })
  | .blocked timed =>
    match cond with
    | .woken => some (s.setReq q { r with owner := checkCompleted r timed })
    | .etimedout =>
      if timed then some (s.setReq q { r with sync := r.sync.setTimedout, owner := .failed .timeout })
      else none
    | .error => some (s.setReq q { r with owner := .failed .error })
  | .failed wait =>
    -- `task_group->tasks[0].request_id`
    match r.prep.tasks with
    | task :: _ =>
      (s.pool.step (.cancel (.owner q) task.requestId)).map fun pool =>
        (s.setPool pool).setReq q { r with owner := .cancelling (some wait) }
    | [] => none
  | .cancelling wait =>
    match s.pool.calls (.owner q), wait with
    | .done (.removed n), wait =>
      (s.pool.step (.collect (.owner q))).map fun pool =>
        (s.setPool pool).setReq q { r with owner := .adding n wait }
    | .done _, some wait =>
      (s.pool.step (.collect (.owner q))).map fun pool =>
        (s.setPool pool).setReq q { r with owner := .adding 0 (some wait) }
    | .done _, none =>
      -- `os_transport_cancel_tasks` returns `-1` and keeps the handle
      (s.pool.step (.collect (.owner q))).map fun pool =>
        (s.setPool pool).setReq q { r with owner := .idle }
    | _, _ => (s.pool.step (.advance (.owner q) .ok)).map s.setPool
  | .adding n wait =>
    let (sync, shouldFree) := r.sync.addCanceledTasks n (wait == some .timeout)
    some (s.setReq q
      { r with sync, owner := if shouldFree then .addFreeing wait else .releasing wait })
  | .addFreeing wait =>
    some (s.setReq q { r with freed := r.freed + 1, owner := .releasing wait })
  | .releasing wait =>
    let ret := ownerRet wait r.sync.urmaStatus
    let (sync, shouldFree) := r.sync.requestRelease
    some (s.setReq q { r with sync, owner := if shouldFree then .freeing ret else .returned ret })
  | .requesting =>
    some (s.setReq q { r with sync := { r.sync with releaseRequested := true }, owner := .rechecking })
  | .rechecking =>
    let (sync, shouldFree) := r.sync.freeIfReady
    let ret := OwnerRet.waited .error urmaSuccess
    some (s.setReq q { r with sync, owner := if shouldFree then .freeing ret else .returned ret })
  | .freeing ret =>
    some (s.setReq q { r with freed := r.freed + 1, owner := .returned ret })

/-! ## Completions and cancels by id

The poller's call and the call of `os_transport_cancel_tasks` without a handle. -/

/-- The tag `os_transport_wake_up_task` looks its task up by; `none` when it returns before. -/
def wakeUpUserData (cr : UrmaCr) : Option UserData :=
  if cr.sR then
    if cr.opcode = urmaCrOpcSendWithImm then some (receivedUserData cr.immData) else none
  else
    let userData := UserData.ofUserCtx cr.userCtx
    -- the local completion of a notify
    if userData.chunkId.toNat ≥ maxChunkNum then none else some userData

/-- `os_transport_wake_up_task` up to the look-up of the request's context.  A receive completion
    has consumed a work request and posts another (`urma_recv_ctx_add`). -/
def completionStep (s : Transport) (k : Nat) (cr : UrmaCr) (status : UrmaStatus) :
    Option Transport :=
  let repost : List Event :=
    if cr.sR = true ∧ cr.opcode = urmaCrOpcSendWithImm ∧ s.recvCtx.jetty.isSome then
      [.recvPost none s.recvCtx.jetty status]
    else []
  let s' := s.emit (.completion cr :: repost)
  let s' := if cr.sR then s' else { s' with outstanding := s.outstanding.erase cr.userCtx }
  match wakeUpUserData cr with
  | none => some s'
  | some userData =>
    (s.pool.step (.wake (.wake k) (userData.requestId.setWidth 64) userData.userCtx)).map s'.setPool

/-- The next step of a call that is nothing but a call into the pool. -/
def poolCallStep (s : Transport) (c : Proc) (alloc : Alloc) : Option Transport :=
  match s.pool.calls c with
  | .done _ => (s.pool.step (.collect c)).map s.setPool
  | _ => (s.pool.step (.advance c alloc)).map s.setPool

/-! ## Workers

What a worker does between taking a task and its return: the task function, place by place. -/

/-- The next step of worker `w` inside the task function of task `i` of request `q`. -/
def bodyStep (s : Transport) (w : Nat) (p : ArgPtr) (userData : BitVec 64) (ret : Int) :
    Option Transport :=
  let r := s.reqs p.sync
  match s.body w, r.prep.args[p.index]? with
  | .start, some (.send arg) =>
    let (s, st) := s.post p.sync .sendImm p.index (urmaWriteNotify arg.writeInfo arg.chunkInfo) ret
    -- the task of the last chunk has no write to post
    if st ≠ urmaSuccess ∨ arg.chunkInfo = none then some (s.setBody w (.status st))
    else some (s.setBody w .write)
  | .write, some (.send arg) =>
    let (s, st) := s.post p.sync .write (p.index + 1)
      (urmaWriteChunk arg.writeInfo arg.chunkInfo) ret
    some (s.setBody w (.status st))
  | .start, some (.recv arg) =>
    let arg := prepareRecvTaskUserData arg userData
    match arg.notifyCallback with
    | some cb => some ((s.emit [.callback p.sync p.index cb arg.notifyUserData ret]).setBody w (.mark ret))
    | none =>
      -- without a callback the chunk counts as failed
      some (s.setBody w (.mark (-1)))
  | .status st, _ =>
    some ((s.setReq p.sync { r with sync := r.sync.updateUrmaStatus st }).setBody w (.mark st))
  | .mark ret, _ =>
    let (sync, shouldFree) := r.sync.markTaskGroupCompleted (ret == 0)
    some (((s.setReq p.sync { r with sync }).emit [.mark p.sync p.index (ret == 0)]).setBody w
      (if shouldFree then .free ret else .finish ret))
  | .free ret, _ =>
    some ((s.setReq p.sync { r with freed := r.freed + 1 }).setBody w (.finish ret))
  | .finish ret, _ => (s.pool.step (.finish w ret)).map s.setPool
  | _, _ => none

/-- The next step of worker `w`. -/
def workerStep (s : Transport) (w : Nat) (ret : Int) : Option Transport :=
  match (s.pool.workers w).exec with
  | .loop => (s.pool.step (.pop w)).map fun pool => (s.setPool pool).setBody w .start
  | .running task _ userData => s.bodyStep w task.taskArg.userArg userData ret
  | .returned _ _ _ => (s.pool.step (.account w)).map s.setPool

/-! ## The system

All of these, in any order. -/

/-- One step of the transport. -/
def step (s : Transport) : Action → Option Transport
  | .callSend q call alloc submitAlloc =>
    if (s.reqs q).caller = .fresh then s.beginCall q (prepareSend q true call alloc) submitAlloc
    else none
  | .callRecv q call alloc submitAlloc =>
    if (s.reqs q).caller = .fresh then s.beginCall q (prepareRecv q true call alloc) submitAlloc
    else none
  | .caller q alloc statuses => s.callerStep q alloc statuses
  | .callWait q timed =>
    if s.ownable q then some (s.setReq q { s.reqs q with owner := .entering timed }) else none
  | .callCancel q reqId =>
    if s.ownable q then
      (s.pool.step (.cancel (.owner q) reqId)).map fun pool =>
        (s.setPool pool).setReq q { s.reqs q with owner := .cancelling none }
    else none
  | .owner q cond => s.ownerStep q cond
  | .completion k cr status =>
    if s.pool.isIdle (.wake k) then s.completionStep k cr status else none
  | .wake k alloc => s.poolCallStep (.wake k) alloc
  | .callCancelId k reqId => (s.pool.step (.cancel (.cancel k) reqId)).map s.setPool
  | .canceller k => s.poolCallStep (.cancel k) .ok
  | .worker w ret => s.workerStep w ret

end Transport

/-- All runs of a transport with `workerCount` workers. -/
def transportSystem (workerCount : Nat) (recvQueueCapacity : BitVec 32) :
    Transition.System Transport Action :=
  .ofFun (· = Transport.start workerCount recvQueueCapacity) Transport.step

end OsTransport
