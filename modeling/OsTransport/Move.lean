/-
  What a step of the transport can do.

  `Move s a s'` lists the steps of `Transport.step` one rule each, with the guard the state
  meets before it and the state after it written out; `move_of_step` is the only place where the
  step function is unfolded.  Every invariant of the transport is proved by cases on `Move`.

  `Move.frame` says what the steps of others leave of a request alone, and `Move.pool` which step
  of the pool, if any, a step of the transport makes.

  A step of the pool made by a thread of the transport is kept as it is: the rules name the
  `PoolAction` and say nothing of what it does to the pool, which is the subject of
  `OsTransport.Lane` and `OsTransport.PoolEffect`.  So a change to a section of the pool does not
  reach this file, and a change to a function of `os_transport.c` reaches one rule.

  `pool_reach` and `roles_reach` draw the first conclusions: the pool under a transport makes a run
  of its own, and each process of it makes only the calls its role has.
-/
import OsTransport.Transport
import OsTransport.PoolEffect

namespace OsTransport

/-- The request whose API call takes the step. -/
def Action.madeBy : Action → Option Nat
  | .callSend q _ _ _ => some q
  | .callRecv q _ _ _ => some q
  | .caller q _ _ => some q
  | _ => none

/-- `a` calls the API for request `q` with these prepared arguments. -/
inductive ApiCall : Action → Nat → Option Prepared → Alloc → Prop
  | send (q : Nat) (call : SendCall) (alloc : Bool) (submitAlloc : Alloc) :
      ApiCall (.callSend q call alloc submitAlloc) q (prepareSend q true call alloc) submitAlloc
  | recv (q : Nat) (call : RecvCall) (alloc : Bool) (submitAlloc : Alloc) :
      ApiCall (.callRecv q call alloc submitAlloc) q (prepareRecv q true call alloc) submitAlloc

/-- What a call prepares is well formed. -/
theorem ApiCall.wellFormed {a : Action} {q : Nat} {p : Prepared} {alloc : Alloc}
    (h : ApiCall a q (some p) alloc) : p.WellFormed q := by
  generalize hp : some p = o at h
  cases h with
  | send call alloc submitAlloc => exact prepareSend_wellFormed hp.symm
  | recv call alloc submitAlloc => exact prepareRecv_wellFormed hp.symm

/-- A request that posts writes was made by `os_transport_send`. -/
theorem ApiCall.of_write {a : Action} {q : Nat} {p : Prepared} {alloc : Alloc}
    {writeInfo : UrmaWriteInfo} (h : ApiCall a q (some p) alloc)
    (hinfo : p.urmaInfo = .write writeInfo) : ∃ call mem, prepareSend q true call mem = some p := by
  generalize hp : some p = o at h
  cases h with
  | send _ call mem => exact ⟨call, mem, rfl⟩
  | recv _ call mem =>
    obtain ⟨-, -, _, _, _, -, -, -, -, rfl⟩ := prepareRecv_eq_some hp.symm
    cases hinfo

/-- The two calls of the API. -/
theorem ApiCall.isCall {a : Action} {q : Nat} {p : Option Prepared} {alloc : Alloc}
    (h : ApiCall a q p alloc) :
    (∃ call mem, a = .callSend q call mem alloc) ∨ ∃ call mem, a = .callRecv q call mem alloc := by
  cases h with
  | send => exact .inl ⟨_, _, rfl⟩
  | recv => exact .inr ⟨_, _, rfl⟩

/-- A call makes its own request. -/
theorem ApiCall.madeBy {a : Action} {q : Nat} {p : Option Prepared} {alloc : Alloc}
    (h : ApiCall a q p alloc) : a.madeBy = some q := by
  cases h <;> rfl

/-- Handling a completion record adds it to the history, and a work request posted in its stead. -/
def Handles (cr : UrmaCr) (events : List Event) : Prop :=
  ∃ reposts, events = .completion cr :: reposts ∧
    ∀ e ∈ reposts, ∃ jetty status, e = .recvPost none jetty status

/-- The steps of the transport. -/
inductive Move (s : Transport) : Action → Transport → Prop
  -- `os_transport_send`, `os_transport_recv`
  /-- The call fails before it reaches the pool: bad arguments, or no memory. -/
  | refuse {a q alloc} (ha : ApiCall a q none alloc) (hc : (s.reqs q).caller = .fresh) :
      Move s a (s.setReq q { s.reqs q with caller := .returned false urmaSuccess })
  /-- It has prepared its request and calls `thread_pool_submit_batch_tasks`. -/
  | submit {a q alloc p pool} (ha : ApiCall a q (some p) alloc) (hc : (s.reqs q).caller = .fresh)
      (hpool : s.pool.step (.submit (.caller q) p.submission alloc) = some pool) :
      Move s a ((s.setPool pool).setReq q
        { s.reqs q with prep := p, sync := .init p.tasks.length, caller := .submitting })
  /-- The next section of that submission. -/
  | callerAdvance {q alloc statuses pool} (hc : (s.reqs q).caller = .submitting)
      (hpool : s.pool.step (.advance (.caller q) alloc) = some pool) :
      Move s (.caller q alloc statuses) (s.setPool pool)
  /-- It was accepted: `os_transport_send` stores the handle. -/
  | registerSend {q alloc statuses pool ids writeInfo} (hc : (s.reqs q).caller = .submitting)
      (hdone : s.pool.calls (.caller q) = .done (.taskIds ids))
      (hinfo : (s.reqs q).prep.urmaInfo = .write writeInfo)
      (hpool : s.pool.step (.collect (.caller q)) = some pool) :
      Move s (.caller q alloc statuses) ((s.setPool pool).setReq q
        { s.reqs q with bound := true, handle := true, caller := .writing })
  /-- It was accepted; `os_transport_recv` stores the handle later. -/
  | registerRecv {q alloc statuses pool ids recvInfo} (hc : (s.reqs q).caller = .submitting)
      (hdone : s.pool.calls (.caller q) = .done (.taskIds ids))
      (hinfo : (s.reqs q).prep.urmaInfo = .recv recvInfo)
      (hpool : s.pool.step (.collect (.caller q)) = some pool) :
      Move s (.caller q alloc statuses) ((s.setPool pool).setReq q
        { s.reqs q with bound := true, caller := .prefilling })
  /-- It was refused, so the call fails. -/
  | unregistered {q alloc statuses pool res} (hc : (s.reqs q).caller = .submitting)
      (hdone : s.pool.calls (.caller q) = .done res) (hres : ∀ ids, res ≠ .taskIds ids)
      (hpool : s.pool.step (.collect (.caller q)) = some pool) :
      Move s (.caller q alloc statuses) ((s.setPool pool).setReq q
        { s.reqs q with caller := .returned false urmaSuccess })
  /-- `os_transport_send` posts the write of chunk 0. -/
  | firstWrite {q alloc statuses writeInfo s₁ ret} (hc : (s.reqs q).caller = .writing)
      (hinfo : (s.reqs q).prep.urmaInfo = .write writeInfo)
      (hpost : s.post q .write 0 (urmaWriteChunk writeInfo (s.reqs q).prep.chunks[0]?)
        (statuses.headD urmaSuccess) = (s₁, ret)) :
      Move s (.caller q alloc statuses) (s₁.setReq q { s.reqs q with
        caller := if ret = urmaSuccess then .returned true urmaSuccess else .failing ret })
  /-- `urma_recv_ctx_init` fills the receive queue, and the handle is stored. -/
  | prefill {q alloc statuses recvInfo ret recvCtx events} (hc : (s.reqs q).caller = .prefilling)
      (hinfo : (s.reqs q).prep.urmaInfo = .recv recvInfo)
      (hinit : Transport.urmaRecvCtxInit s.recvCtx recvInfo statuses = (ret, recvCtx, events))
      (hret : ret = urmaSuccess ∨ ret = urmaEnomem) :
      Move s (.caller q alloc statuses) (Transport.setReq { s.emit events with recvCtx } q
        { s.reqs q with handle := true, caller := .returned true urmaSuccess })
  /-- A post of the prefill fails with anything but `URMA_ENOMEM`. -/
  | prefillFailed {q alloc statuses recvInfo ret recvCtx events}
      (hc : (s.reqs q).caller = .prefilling) (hinfo : (s.reqs q).prep.urmaInfo = .recv recvInfo)
      (hinit : Transport.urmaRecvCtxInit s.recvCtx recvInfo statuses = (ret, recvCtx, events))
      (hret : ret ≠ urmaSuccess ∧ ret ≠ urmaEnomem) :
      Move s (.caller q alloc statuses) (Transport.setReq { s.emit events with recvCtx } q
        { s.reqs q with caller := .failing urmaSuccess })
  /-- The failing call marks the request as completed. -/
  | fail {q alloc statuses urmaStatus} (hc : (s.reqs q).caller = .failing urmaStatus) :
      Move s (.caller q alloc statuses) (s.setReq q
        { s.reqs q with sync := (s.reqs q).sync.complete, caller := .returned false urmaStatus })
  -- `wait_and_free_sync`, `os_transport_cancel_tasks(&sync, id)`
  /-- One of the two waits is called with the handle. -/
  | callWait {q timed} (ho : s.ownable q = true) :
      Move s (.callWait q timed) (s.setReq q { s.reqs q with owner := .entering timed })
  /-- `os_transport_cancel_tasks` is called with the handle. -/
  | callCancel {q reqId pool} (ho : s.ownable q = true)
      (hpool : s.pool.step (.cancel (.owner q) reqId) = some pool) :
      Move s (.callCancel q reqId)
        ((s.setPool pool).setReq q { s.reqs q with owner := .cancelling none })
  /-- The first look at `request_completed`. -/
  | enter {q cond timed} (ho : (s.reqs q).owner = .entering timed) (hb : (s.reqs q).bound = true) :
      Move s (.owner q cond)
        (s.setReq q { s.reqs q with owner := Transport.checkCompleted (s.reqs q) timed })
  /-- The look after `pthread_cond_wait` has returned. -/
  | woken {q timed} (ho : (s.reqs q).owner = .blocked timed) :
      Move s (.owner q .woken)
        (s.setReq q { s.reqs q with owner := Transport.checkCompleted (s.reqs q) timed })
  /-- A request without tasks is not waited for. -/
  | unbound {q cond timed} (ho : (s.reqs q).owner = .entering timed)
      (hb : (s.reqs q).bound = false) :
      Move s (.owner q cond) (s.setReq q { s.reqs q with owner := .requesting })
  /-- `pthread_cond_timedwait` answers `ETIMEDOUT`: no further look. -/
  | timeout {q} (ho : (s.reqs q).owner = .blocked true) :
      Move s (.owner q .etimedout) (s.setReq q
        { s.reqs q with sync := (s.reqs q).sync.setTimedout, owner := .failed .timeout })
  /-- The wait on the condition variable fails. -/
  | condError {q timed} (ho : (s.reqs q).owner = .blocked timed) :
      Move s (.owner q .error) (s.setReq q { s.reqs q with owner := .failed .error })
  /-- A wait that fails cancels the id of the request's first task. -/
  | beginCancel {q cond wait task tasks pool} (ho : (s.reqs q).owner = .failed wait)
      (htask : (s.reqs q).prep.tasks = task :: tasks)
      (hpool : s.pool.step (.cancel (.owner q) task.requestId) = some pool) :
      Move s (.owner q cond)
        ((s.setPool pool).setReq q { s.reqs q with owner := .cancelling (some wait) })
  /-- The next section of that cancel, or of the owner's own. -/
  | ownerAdvance {q cond wait pool} (ho : (s.reqs q).owner = .cancelling wait)
      (hpool : s.pool.step (.advance (.owner q) .ok) = some pool) :
      Move s (.owner q cond) (s.setPool pool)
  /-- The cancel says how many tasks it has removed. -/
  | counted {q cond wait n pool} (ho : (s.reqs q).owner = .cancelling wait)
      (hdone : s.pool.calls (.owner q) = .done (.removed n))
      (hpool : s.pool.step (.collect (.owner q)) = some pool) :
      Move s (.owner q cond) ((s.setPool pool).setReq q { s.reqs q with owner := .adding n wait })
  /-- It was refused; the wait goes on with none. -/
  | refusedWait {q cond wait res pool} (ho : (s.reqs q).owner = .cancelling (some wait))
      (hdone : s.pool.calls (.owner q) = .done res) (hres : ∀ n, res ≠ .removed n)
      (hpool : s.pool.step (.collect (.owner q)) = some pool) :
      Move s (.owner q cond)
        ((s.setPool pool).setReq q { s.reqs q with owner := .adding 0 (some wait) })
  /-- It was refused, and the owner may try again. -/
  | refusedCancel {q cond res pool} (ho : (s.reqs q).owner = .cancelling none)
      (hdone : s.pool.calls (.owner q) = .done res) (hres : ∀ n, res ≠ .removed n)
      (hpool : s.pool.step (.collect (.owner q)) = some pool) :
      Move s (.owner q cond) ((s.setPool pool).setReq q { s.reqs q with owner := .idle })
  /-- What was removed is added to `canceled_tasks`. -/
  | add {q cond n wait sync shouldFree} (ho : (s.reqs q).owner = .adding n wait)
      (hsync : (s.reqs q).sync.addCanceledTasks n (wait == some .timeout) = (sync, shouldFree)) :
      Move s (.owner q cond) (s.setReq q
        { s.reqs q with sync, owner := if shouldFree then .addFreeing wait else .releasing wait })
  /-- The object is freed there, by a section that found it ready. -/
  | addFree {q cond wait} (ho : (s.reqs q).owner = .addFreeing wait) :
      Move s (.owner q cond)
        (s.setReq q { s.reqs q with freed := (s.reqs q).freed + 1, owner := .releasing wait })
  /-- The release is requested and the status read. -/
  | release {q cond wait sync shouldFree} (ho : (s.reqs q).owner = .releasing wait)
      (hsync : (s.reqs q).sync.requestRelease = (sync, shouldFree)) :
      Move s (.owner q cond) (s.setReq q
        { s.reqs q with
          sync
          owner := if shouldFree then .freeing (Transport.ownerRet wait (s.reqs q).sync.urmaStatus)
            else .returned (Transport.ownerRet wait (s.reqs q).sync.urmaStatus) })
  /-- The same for a request without tasks, in two sections: the first -/
  | request {q cond} (ho : (s.reqs q).owner = .requesting) :
      Move s (.owner q cond) (s.setReq q
        { s.reqs q with
          sync := { (s.reqs q).sync with releaseRequested := true }
          owner := .rechecking })
  /-- and the second. -/
  | recheck {q cond sync shouldFree} (ho : (s.reqs q).owner = .rechecking)
      (hsync : (s.reqs q).sync.freeIfReady = (sync, shouldFree)) :
      Move s (.owner q cond) (s.setReq q
        { s.reqs q with
          sync
          owner := if shouldFree then .freeing (.waited .error urmaSuccess)
            else .returned (.waited .error urmaSuccess) })
  /-- The owner frees the object. -/
  | ownerFree {q cond ret} (ho : (s.reqs q).owner = .freeing ret) :
      Move s (.owner q cond) (s.setReq q
        { s.reqs q with freed := (s.reqs q).freed + 1, owner := .returned ret })
  -- `os_transport_wake_up_task`, `os_transport_cancel_tasks(NULL, id)`
  /-- A completion that wakes nobody: its opcode or its tag says so. -/
  | ignored {k cr status events outstanding} (hidle : s.pool.isIdle (.wake k) = true)
      (hcr : Transport.wakeUpUserData cr = none) (hev : Handles cr events)
      (hout : outstanding = if cr.sR then s.outstanding else s.outstanding.erase cr.userCtx) :
      Move s (.completion k cr status) { s.emit events with outstanding }
  /-- `thread_pool_wake_up_by_req_and_user_data` is called for a completion. -/
  | completion {k cr status events outstanding userData pool}
      (hidle : s.pool.isIdle (.wake k) = true) (hcr : Transport.wakeUpUserData cr = some userData)
      (hpool : s.pool.step (.wake (.wake k) (userData.requestId.setWidth 64) userData.userCtx)
        = some pool) (hev : Handles cr events)
      (hout : outstanding = if cr.sR then s.outstanding else s.outstanding.erase cr.userCtx) :
      Move s (.completion k cr status) (Transport.setPool { s.emit events with outstanding } pool)
  /-- The next section of that wake-up. -/
  | wakeStep {k alloc pa pool} (hpa : pa = .advance (.wake k) alloc ∨ pa = .collect (.wake k))
      (hpool : s.pool.step pa = some pool) : Move s (.wake k alloc) (s.setPool pool)
  /-- `os_transport_cancel_tasks` is called without a handle. -/
  | cancelId {k reqId pool} (hpool : s.pool.step (.cancel (.cancel k) reqId) = some pool) :
      Move s (.callCancelId k reqId) (s.setPool pool)
  /-- The next section of that cancel. -/
  | cancelStep {k pa pool} (hpa : pa = .advance (.cancel k) .ok ∨ pa = .collect (.cancel k))
      (hpool : s.pool.step pa = some pool) : Move s (.canceller k) (s.setPool pool)
  -- worker threads
  /-- An iteration of `worker_routine`, which may take a task. -/
  | pop {w ret pool} (hexec : (s.pool.workers w).exec = .loop)
      (hpool : s.pool.step (.pop w) = some pool) :
      Move s (.worker w ret) ((s.setPool pool).setBody w .start)
  /-- `send_task_worker_func` announces its chunk. -/
  | notify {w ret task reqId userData arg s₁ st}
      (hexec : (s.pool.workers w).exec = .running task reqId userData) (hbody : s.body w = .start)
      (harg : (s.reqs task.taskArg.userArg.sync).prep.args[task.taskArg.userArg.index]?
        = some (.send arg))
      (hpost : s.post task.taskArg.userArg.sync .sendImm task.taskArg.userArg.index
        (urmaWriteNotify arg.writeInfo arg.chunkInfo) ret = (s₁, st)) :
      Move s (.worker w ret) (s₁.setBody w
        (if st ≠ urmaSuccess ∨ arg.chunkInfo = none then .status st else .write))
  /-- It writes the next chunk. -/
  | write {w ret task reqId userData arg s₁ st}
      (hexec : (s.pool.workers w).exec = .running task reqId userData) (hbody : s.body w = .write)
      (harg : (s.reqs task.taskArg.userArg.sync).prep.args[task.taskArg.userArg.index]?
        = some (.send arg))
      (hpost : s.post task.taskArg.userArg.sync .write (task.taskArg.userArg.index + 1)
        (urmaWriteChunk arg.writeInfo arg.chunkInfo) ret = (s₁, st)) :
      Move s (.worker w ret) (s₁.setBody w (.status st))
  /-- `recv_task_worker_func` calls back with the data of the wake-up. -/
  | callback {w ret task reqId userData arg cb}
      (hexec : (s.pool.workers w).exec = .running task reqId userData) (hbody : s.body w = .start)
      (harg : (s.reqs task.taskArg.userArg.sync).prep.args[task.taskArg.userArg.index]?
        = some (.recv arg)) (hcb : arg.notifyCallback = some cb) :
      Move s (.worker w ret)
        ((s.emit [.callback task.taskArg.userArg.sync task.taskArg.userArg.index cb
          (UserData.ofUserCtx userData) ret]).setBody w (.mark ret))
  /-- It has no callback, which is an error. -/
  | noCallback {w ret task reqId userData arg}
      (hexec : (s.pool.workers w).exec = .running task reqId userData) (hbody : s.body w = .start)
      (harg : (s.reqs task.taskArg.userArg.sync).prep.args[task.taskArg.userArg.index]?
        = some (.recv arg)) (hcb : arg.notifyCallback = none) :
      Move s (.worker w ret) (s.setBody w (.mark (-1)))
  /-- `update_urma_status`. -/
  | status {w ret task reqId userData st}
      (hexec : (s.pool.workers w).exec = .running task reqId userData)
      (hbody : s.body w = .status st) :
      Move s (.worker w ret) ((s.setReq task.taskArg.userArg.sync
        { s.reqs task.taskArg.userArg.sync with
          sync := (s.reqs task.taskArg.userArg.sync).sync.updateUrmaStatus st }).setBody w (.mark st))
  /-- `mark_task_group_completed`. -/
  | mark {w ret task reqId userData taskRet sync shouldFree}
      (hexec : (s.pool.workers w).exec = .running task reqId userData)
      (hbody : s.body w = .mark taskRet)
      (hsync : (s.reqs task.taskArg.userArg.sync).sync.markTaskGroupCompleted (taskRet == 0)
        = (sync, shouldFree)) :
      Move s (.worker w ret) (((s.setReq task.taskArg.userArg.sync
        { s.reqs task.taskArg.userArg.sync with sync }).emit
          [.mark task.taskArg.userArg.sync task.taskArg.userArg.index (taskRet == 0)]).setBody w
            (if shouldFree then .free taskRet else .finish taskRet))
  /-- The worker frees the object, if that section has told it to. -/
  | workerFree {w ret task reqId userData taskRet}
      (hexec : (s.pool.workers w).exec = .running task reqId userData)
      (hbody : s.body w = .free taskRet) :
      Move s (.worker w ret) ((s.setReq task.taskArg.userArg.sync
        { s.reqs task.taskArg.userArg.sync with
          freed := (s.reqs task.taskArg.userArg.sync).freed + 1 }).setBody w (.finish taskRet))
  /-- The task function returns. -/
  | finish {w ret task reqId userData taskRet pool}
      (hexec : (s.pool.workers w).exec = .running task reqId userData)
      (hbody : s.body w = .finish taskRet) (hpool : s.pool.step (.finish w taskRet) = some pool) :
      Move s (.worker w ret) (s.setPool pool)
  /-- `worker_process_task` counts the task off. -/
  | account {w ret task reqId taskRet pool}
      (hexec : (s.pool.workers w).exec = .returned task reqId taskRet)
      (hpool : s.pool.step (.account w) = some pool) : Move s (.worker w ret) (s.setPool pool)

namespace Transport

variable {s s' : Transport}

/-! ## Every step is a move

The step function is unfolded here, and nowhere else. -/

/-- The beginning of a call. -/
theorem move_beginCall {a : Action} {q : Nat} {prep : Option Prepared} {alloc : Alloc}
    (ha : ApiCall a q prep alloc) (hc : (s.reqs q).caller = .fresh)
    (h : s.beginCall q prep alloc = some s') : Move s a s' := by
  unfold beginCall at h
  cases prep with
  | none =>
    cases h
    exact .refuse ha hc
  | some p =>
    obtain ⟨pool, hpool, rfl⟩ := Option.map_eq_some_iff.mp h
    exact .submit ha hc hpool

/-- What a call of the API does first. -/
theorem begin_of_step {a : Action} {q : Nat} {prep : Option Prepared} {alloc : Alloc}
    (ha : ApiCall a q prep alloc) (h : s.step a = some s') :
    (s.reqs q).caller = .fresh ∧ s.beginCall q prep alloc = some s' := by
  cases ha with
  | send | recv => exact Option.ite_none_right_eq_some.mp h

/-- The steps of a caller. -/
theorem move_caller {q : Nat} {alloc : Alloc} {statuses : List UrmaStatus}
    (h : s.callerStep q alloc statuses = some s') : Move s (.caller q alloc statuses) s' := by
  unfold callerStep at h
  simp only at h
  split at h
  · rename_i hc
    split at h
    · rename_i ids hdone
      obtain ⟨pool, hpool, rfl⟩ := Option.map_eq_some_iff.mp h
      split
      · rename_i writeInfo hinfo
        exact .registerSend hc hdone hinfo hpool
      · rename_i recvInfo hinfo
        exact .registerRecv hc hdone hinfo hpool
    · rename_i res hres hdone
      obtain ⟨pool, hpool, rfl⟩ := Option.map_eq_some_iff.mp h
      exact .unregistered hc hdone (fun ids hids => hres ids hids) hpool
    · obtain ⟨pool, hpool, rfl⟩ := Option.map_eq_some_iff.mp h
      exact .callerAdvance hc hpool
  · rename_i hc
    split at h
    · rename_i writeInfo hinfo
      cases h
      exact .firstWrite hc hinfo rfl
    · cases h
  · rename_i hc
    split at h
    · rename_i recvInfo hinfo
      split at h <;> rename_i hret <;> cases h
      · exact .prefillFailed hc hinfo rfl hret
      · refine .prefill hc hinfo rfl ?_
        by_contra hne
        exact hret (not_or.mp hne)
    · cases h
  · rename_i urmaStatus hc
    cases h
    exact .fail hc
  · cases h

/-- The steps of the owner of a handle. -/
theorem move_owner {q : Nat} {cond : CondRet} (h : s.ownerStep q cond = some s') :
    Move s (.owner q cond) s' := by
  unfold ownerStep at h
  simp only at h
  split at h
  · cases h
  · cases h
  · rename_i timed ho
    split at h <;> rename_i hb <;> cases h
    · exact .enter ho hb
    · exact .unbound ho (Bool.eq_false_iff.mpr hb)
  · rename_i timed ho
    split at h
    · cases h
      exact .woken ho
    · split at h <;> rename_i ht <;> cases h
      subst ht
      exact .timeout ho
    · cases h
      exact .condError ho
  · rename_i wait ho
    split at h
    · rename_i task tasks htask
      obtain ⟨pool, hpool, rfl⟩ := Option.map_eq_some_iff.mp h
      exact .beginCancel ho htask hpool
    · cases h
  · rename_i wait ho
    split at h
    · rename_i n wait' hdone
      obtain ⟨pool, hpool, rfl⟩ := Option.map_eq_some_iff.mp h
      exact .counted ho hdone hpool
    · rename_i res wait hres hdone
      obtain ⟨pool, hpool, rfl⟩ := Option.map_eq_some_iff.mp h
      exact .refusedWait ho hdone (fun n hn => hres n hn) hpool
    · rename_i res hres hdone
      obtain ⟨pool, hpool, rfl⟩ := Option.map_eq_some_iff.mp h
      exact .refusedCancel ho hdone (fun n hn => hres n hn) hpool
    · obtain ⟨pool, hpool, rfl⟩ := Option.map_eq_some_iff.mp h
      exact .ownerAdvance ho hpool
  · rename_i n wait ho
    cases h
    exact .add ho rfl
  · rename_i wait ho
    cases h
    exact .addFree ho
  · rename_i wait ho
    cases h
    exact .release ho rfl
  · rename_i ho
    cases h
    exact .request ho
  · rename_i ho
    cases h
    exact .recheck ho rfl
  · rename_i ret ho
    cases h
    exact .ownerFree ho

/-- What the thread that polls completions does. -/
theorem move_completion {k : Nat} {cr : UrmaCr} {status : UrmaStatus}
    (hidle : s.pool.isIdle (.wake k) = true) (h : s.completionStep k cr status = some s') :
    Move s (.completion k cr status) s' := by
  unfold completionStep at h
  simp only at h
  generalize hrep : (if cr.sR = true ∧ cr.opcode = urmaCrOpcSendWithImm ∧ s.recvCtx.jetty.isSome
    then [Event.recvPost none s.recvCtx.jetty status] else []) = repost at h
  have hev : Handles cr (.completion cr :: repost) := by
    refine ⟨repost, rfl, fun e he => ?_⟩
    rw [← hrep] at he
    split at he
    · exact ⟨_, _, List.mem_singleton.mp he⟩
    · cases he
  have hstate : (if cr.sR = true then s.emit (.completion cr :: repost)
      else { s.emit (.completion cr :: repost) with outstanding := s.outstanding.erase cr.userCtx }) =
      { s.emit (.completion cr :: repost) with
        outstanding := if cr.sR then s.outstanding else s.outstanding.erase cr.userCtx } := by
    split <;> rfl
  rw [hstate] at h
  split at h
  · rename_i hcr
    cases h
    exact .ignored hidle hcr hev rfl
  · rename_i userData hcr
    obtain ⟨pool, hpool, rfl⟩ := Option.map_eq_some_iff.mp h
    exact .completion hidle hcr hpool hev rfl

/-- Inside the pool a call takes its next section, or collects its result. -/
theorem poolCallStep_cases {c : Proc} {alloc : Alloc} (h : s.poolCallStep c alloc = some s') :
    ∃ pa pool, (pa = .advance c alloc ∨ pa = .collect c) ∧ s.pool.step pa = some pool ∧
      s' = s.setPool pool := by
  unfold poolCallStep at h
  split at h
  · obtain ⟨pool, hpool, rfl⟩ := Option.map_eq_some_iff.mp h
    exact ⟨_, pool, .inr rfl, hpool, rfl⟩
  · obtain ⟨pool, hpool, rfl⟩ := Option.map_eq_some_iff.mp h
    exact ⟨_, pool, .inl rfl, hpool, rfl⟩

/-- The steps of a task function. -/
theorem move_body {w : Nat} {task : TaskNode ArgPtr} {reqId : ReqId} {userData : BitVec 64}
    {ret : Int} (hexec : (s.pool.workers w).exec = .running task reqId userData)
    (h : s.bodyStep w task.taskArg.userArg userData ret = some s') : Move s (.worker w ret) s' := by
  unfold bodyStep at h
  simp only at h
  split at h
  · rename_i arg hbody harg
    generalize hpost : s.post task.taskArg.userArg.sync .sendImm task.taskArg.userArg.index
      (urmaWriteNotify arg.writeInfo arg.chunkInfo) ret = res at h
    obtain ⟨s₁, st⟩ := res
    have hmove := Move.notify hexec hbody harg hpost
    simp only at h
    split at h <;> rename_i hst <;> cases h
    · rwa [if_pos hst] at hmove
    · rwa [if_neg hst] at hmove
  · rename_i arg hbody harg
    cases h
    exact .write hexec hbody harg rfl
  · rename_i arg hbody harg
    split at h
    · rename_i cb hcb
      cases h
      exact .callback hexec hbody harg hcb
    · rename_i hcb
      cases h
      exact .noCallback hexec hbody harg hcb
  · rename_i st hbody
    cases h
    exact .status hexec hbody
  · rename_i taskRet hbody
    cases h
    exact .mark hexec hbody rfl
  · rename_i taskRet hbody
    cases h
    exact .workerFree hexec hbody
  · rename_i taskRet hbody
    obtain ⟨pool, hpool, rfl⟩ := Option.map_eq_some_iff.mp h
    exact .finish hexec hbody hpool
  · cases h

/-- The steps of a worker. -/
theorem move_worker {w : Nat} {ret : Int} (h : s.workerStep w ret = some s') :
    Move s (.worker w ret) s' := by
  unfold workerStep at h
  split at h
  · rename_i hexec
    obtain ⟨pool, hpool, rfl⟩ := Option.map_eq_some_iff.mp h
    exact .pop hexec hpool
  · rename_i task reqId userData hexec
    exact move_body hexec h
  · rename_i task reqId taskRet hexec
    obtain ⟨pool, hpool, rfl⟩ := Option.map_eq_some_iff.mp h
    exact .account hexec hpool

/-- **Every step of the transport is one of these moves.** -/
theorem move_of_step {a : Action} (h : s.step a = some s') : Move s a s' := by
  cases a with
  | callSend q call alloc submitAlloc =>
    obtain ⟨hc, h⟩ := Option.ite_none_right_eq_some.mp h
    exact move_beginCall (.send ..) hc h
  | callRecv q call alloc submitAlloc =>
    obtain ⟨hc, h⟩ := Option.ite_none_right_eq_some.mp h
    exact move_beginCall (.recv ..) hc h
  | caller q alloc statuses => exact move_caller h
  | callWait q timed =>
    obtain ⟨ho, h⟩ := Option.ite_none_right_eq_some.mp h
    cases h
    exact .callWait ho
  | callCancel q reqId =>
    obtain ⟨ho, h⟩ := Option.ite_none_right_eq_some.mp h
    obtain ⟨pool, hpool, rfl⟩ := Option.map_eq_some_iff.mp h
    exact .callCancel ho hpool
  | owner q cond => exact move_owner h
  | completion k cr status =>
    obtain ⟨hidle, h⟩ := Option.ite_none_right_eq_some.mp h
    exact move_completion hidle h
  | wake k alloc =>
    obtain ⟨pa, pool, hpa, hpool, rfl⟩ := poolCallStep_cases h
    exact .wakeStep hpa hpool
  | callCancelId k reqId =>
    obtain ⟨pool, hpool, rfl⟩ := Option.map_eq_some_iff.mp h
    exact .cancelId hpool
  | canceller k =>
    obtain ⟨pa, pool, hpa, hpool, rfl⟩ := poolCallStep_cases h
    exact .cancelStep hpa hpool
  | worker w ret => exact move_worker h

end Transport

/-- The handle can be used: the call that made the request returned it, and nobody has. -/
theorem ownable_iff {s : Transport} {q : Nat} : s.ownable q = true ↔
    (s.reqs q).handle = true ∧ (∃ ok st, (s.reqs q).caller = .returned ok st) ∧
      (s.reqs q).owner = .idle := by
  unfold Transport.ownable
  simp only [Bool.and_eq_true, beq_iff_eq]
  cases hc : (s.reqs q).caller <;> simp

/-! ## What the caller of a request owns

Tasks, arguments and the rest of what a call has prepared are written by that call only. -/

/-- What only the call that makes the request writes. -/
def Request.made (r : Request) : Prepared × CallerPc × Bool × Bool :=
  (r.prep, r.caller, r.bound, r.handle)

/-- An edit of one request that keeps what its call has made changes no other. -/
theorem setReq_made {s : Transport} {q' : Nat} {r : Request} (h : r.made = (s.reqs q').made)
    (q : Nat) : ((s.setReq q' r).reqs q).made = (s.reqs q).made := by
  by_cases hq : q = q'
  · subst hq
    rw [← h]
    exact congrArg Request.made (Function.update_self ..)
  · exact congrArg Request.made (Function.update_of_ne hq ..)

theorem reqs_setReq_self (s : Transport) (q : Nat) (r : Request) : (s.setReq q r).reqs q = r :=
  Function.update_self ..

theorem setReq_reqs_of_ne {s : Transport} {q q' : Nat} (r : Request) (hq : q ≠ q') :
    (s.setReq q' r).reqs q = s.reqs q := Function.update_of_ne hq ..

theorem post_reqs {s s₁ : Transport} {q : Nat} {op : UrmaOpcode} {k : Nat}
    {attempt : Option (SendQueue × UrmaJfsWr)} {status st : UrmaStatus}
    (h : s.post q op k attempt status = (s₁, st)) : s₁.reqs = s.reqs := by
  unfold Transport.post at h
  split at h <;> cases h <;> rfl

/-- The steps of others leave it alone. -/
theorem Move.frame {s s' : Transport} {a : Action} (hm : Move s a s') {q : Nat}
    (ha : a.madeBy ≠ some q) : (s'.reqs q).made = (s.reqs q).made := by
  cases hm with
  | refuse hcall | submit hcall =>
    exact congrArg Request.made (setReq_reqs_of_ne _ fun h => ha (h ▸ hcall.madeBy))
  | registerSend | registerRecv | unregistered | fail | prefill | prefillFailed =>
    exact congrArg Request.made (setReq_reqs_of_ne _ fun h => ha (congrArg some h.symm))
  | firstWrite _ _ hpost =>
    refine (congrArg Request.made (setReq_reqs_of_ne _ fun h => ha (congrArg some h.symm))).trans ?_
    rw [post_reqs hpost]
  | notify _ _ _ hpost | write _ _ _ hpost => exact congrArg (fun f => (f q).made) (post_reqs hpost)
  | callerAdvance | ownerAdvance | ignored | completion | wakeStep | cancelId | cancelStep | pop
  | callback | noCallback | finish | account => rfl
  | callWait | callCancel | enter | woken | unbound | timeout | condError | beginCancel | counted
  | refusedWait | refusedCancel | add | addFree | release | request | recheck | ownerFree =>
    refine setReq_made ?_ q
    rfl
  | status | mark | workerFree =>
    refine setReq_made ?_ q
    rfl

/-! ## The pool under the transport

Every run of the transport is a run of the pool in which each process makes the calls of its
kind. -/

/-- The calls the threads of the library make. -/
def MayCall : PoolAction Proc ArgPtr → Prop
  | .submit c sub _ => ∃ q p, c = .caller q ∧ Prepared.WellFormed q p ∧ sub = p.submission
  | .wake c _ _ => ∃ k, c = .wake k
  | .cancel c _ => (∃ q, c = .owner q) ∨ ∃ k, c = .cancel k
  | _ => True

variable {s s' : Transport}

theorem post_pool {q : Nat} {op : UrmaOpcode} {k : Nat} {attempt : Option (SendQueue × UrmaJfsWr)}
    {status st : UrmaStatus} {s₁ : Transport} (h : s.post q op k attempt status = (s₁, st)) :
    s₁.pool = s.pool := by
  unfold Transport.post at h
  split at h <;> cases h <;> rfl

/-- The step `a` is one of the call that process `c` is in. -/
def Proc.Runs : Proc → Action → Prop
  | .caller q, .caller q' _ _ => q' = q
  | .owner q, .owner q' _ => q' = q
  | .wake k, .wake k' _ => k' = k
  | .cancel k, .canceller k' => k' = k
  | _, _ => False

/-- The pool step `pa` of the step `a`: who calls the pool, and with which arguments. -/
def Calls (s : Transport) (a : Action) : PoolAction Proc ArgPtr → Prop
  | .submit c sub alloc => ∃ q p, c = .caller q ∧ ApiCall a q (some p) alloc ∧ sub = p.submission ∧
      (s.reqs q).caller = .fresh
  | .wake c reqId userData => ∃ k cr status tag, c = .wake k ∧ a = .completion k cr status ∧
      Transport.wakeUpUserData cr = some tag ∧ reqId = tag.requestId.setWidth 64 ∧
      userData = tag.userCtx
  | .cancel c reqId => (∃ q, c = .owner q ∧ (a = .callCancel q reqId ∨
        ∃ cond wait task tasks, a = .owner q cond ∧ (s.reqs q).owner = .failed wait ∧
          (s.reqs q).prep.tasks = task :: tasks ∧ reqId = task.requestId)) ∨
      ∃ k, c = .cancel k ∧ a = .callCancelId k reqId
  | .advance c _ => c.Runs a
  | .collect c => c.Runs a
  | .pop w => ∃ ret, a = .worker w ret
  | .finish w _ => ∃ ret, a = .worker w ret
  | .account w => ∃ ret, a = .worker w ret

/-- Who calls the pool may make that call. -/
theorem Calls.may {a : Action} {pa : PoolAction Proc ArgPtr} (h : Calls s a pa) : MayCall pa := by
  cases pa with
  | submit c sub alloc =>
    obtain ⟨q, p, rfl, ha, rfl, -⟩ := h
    exact ⟨q, p, rfl, ha.wellFormed, rfl⟩
  | wake c reqId userData =>
    obtain ⟨k, -, -, -, rfl, -⟩ := h
    exact ⟨k, rfl⟩
  | cancel c reqId =>
    rcases h with ⟨q, rfl, -⟩ | ⟨k, rfl, -⟩
    · exact .inl ⟨q, rfl⟩
    · exact .inr ⟨k, rfl⟩
  | _ => trivial

/-- A section of a call allocates what the step `a` says. -/
def Allocates (a : Action) : PoolAction Proc ArgPtr → Prop
  | .advance (.caller q) alloc => ∃ statuses, a = .caller q alloc statuses
  | .advance (.wake k) alloc => a = .wake k alloc
  | _ => True

/-- Each step of the transport makes at most one of the pool. -/
theorem Move.pool_alloc {a : Action} (h : Move s a s') :
    s'.pool = s.pool ∨ ∃ pa, Calls s a pa ∧ Allocates a pa ∧ s.pool.step pa = some s'.pool := by
  have hcall : ∀ {pa pool}, s.pool.step pa = some pool → Calls s a pa → Allocates a pa →
      pool = s.pool ∨ ∃ pa, Calls s a pa ∧ Allocates a pa ∧ s.pool.step pa = some pool :=
    fun hs hpa hal => .inr ⟨_, hpa, hal, hs⟩
  cases h with
  | submit ha hc hpool => exact hcall hpool ⟨_, _, rfl, ha, rfl, hc⟩ trivial
  | callerAdvance hc hpool => exact hcall hpool rfl ⟨_, rfl⟩
  | registerSend hc hdone hinfo hpool => exact hcall hpool rfl trivial
  | registerRecv hc hdone hinfo hpool => exact hcall hpool rfl trivial
  | unregistered hc hdone hres hpool => exact hcall hpool rfl trivial
  | firstWrite hc hinfo hpost =>
    have hp := post_pool hpost
    exact .inl hp
  | callCancel ho hpool => exact hcall hpool (.inl ⟨_, rfl, .inl rfl⟩) trivial
  | beginCancel ho htask hpool =>
    exact hcall hpool (.inl ⟨_, rfl, .inr ⟨_, _, _, _, rfl, ho, htask, rfl⟩⟩) trivial
  | ownerAdvance ho hpool => exact hcall hpool rfl trivial
  | counted ho hdone hpool => exact hcall hpool rfl trivial
  | refusedWait ho hdone hres hpool => exact hcall hpool rfl trivial
  | refusedCancel ho hdone hres hpool => exact hcall hpool rfl trivial
  | completion hidle hcr hpool hev hout =>
    exact hcall hpool ⟨_, _, _, _, rfl, rfl, hcr, rfl, rfl⟩ trivial
  | wakeStep hpa hpool => rcases hpa with rfl | rfl <;> exact hcall hpool rfl (by trivial)
  | cancelId hpool => exact hcall hpool (.inr ⟨_, rfl, rfl⟩) trivial
  | cancelStep hpa hpool => rcases hpa with rfl | rfl <;> exact hcall hpool rfl trivial
  | pop hexec hpool => exact hcall hpool ⟨_, rfl⟩ trivial
  | notify hexec hbody harg hpost =>
    have hp := post_pool hpost
    exact .inl hp
  | write hexec hbody harg hpost =>
    have hp := post_pool hpost
    exact .inl hp
  | finish hexec hbody hpool => exact hcall hpool ⟨_, rfl⟩ trivial
  | account hexec hpool => exact hcall hpool ⟨_, rfl⟩ trivial
  | _ => exact .inl rfl

/-- Each step of the transport makes at most one of the pool. -/
theorem Move.pool {a : Action} (h : Move s a s') :
    s'.pool = s.pool ∨ ∃ pa, Calls s a pa ∧ s.pool.step pa = some s'.pool :=
  h.pool_alloc.imp_right fun ⟨pa, hpa, _, hs⟩ => ⟨pa, hpa, hs⟩

/-- The pool of a run of the transport is in a run of its own. -/
theorem pool_reach {workerCount : Nat} {capacity : BitVec 32} {ok : Transport → Action → Prop}
    (h : (transportSystem workerCount capacity).Reach ok s) :
    (poolSystem Proc ArgPtr workerCount).Reach (fun _ pa => MayCall pa) s.pool := by
  refine h.simulate Transport.pool ?_ ?_
  · rintro s rfl
    rfl
  · intro s a s' _ _ _ hs
    rcases (Transport.move_of_step hs).pool with heq | ⟨pa, hpa, hpool⟩
    · exact .inl heq
    · exact .inr ⟨pa, hpa.may, hpool⟩

/-- The library submits batches only. -/
theorem batch_reach {workerCount : Nat} {pool : PoolSys Proc ArgPtr}
    (h : (poolSystem Proc ArgPtr workerCount).Reach (fun _ pa => MayCall pa) pool) {c : Proc}
    {sub : Submission ArgPtr} (hsub : (pool.calls c).submission = some sub) :
    sub.single = false := by
  refine (PoolSys.submission_reach (P := fun sub => sub.single = false) ?_ h hsub).2
  rintro pool c sub alloc ⟨q, p, -, -, rfl⟩
  rfl

/-- Callers submit, owners and cancellers cancel, and nobody else does. -/
structure Roles (s : PoolSys Proc ArgPtr) : Prop where
  submits : ∀ c, (s.calls c).submits = true → ∃ q, c = .caller q
  cancels : ∀ c, (s.calls c).cancels = true → (∃ q, c = .owner q) ∨ ∃ k, c = .cancel k

/-- Who begins to submit does not cancel. -/
theorem submits_beginSubmission {b : Bool} {sub : Submission ArgPtr} {alloc : Alloc} :
    (beginSubmission b sub alloc).cancels = false := by
  unfold beginSubmission
  split
  · rfl
  · split <;> rfl

/-- One step keeps the roles. -/
theorem Roles.step {s s' : PoolSys Proc ArgPtr} {pa : PoolAction Proc ArgPtr} (h : Roles s)
    (hpa : MayCall pa) (hs : s.step pa = some s') : Roles s' := by
  -- the process whose step it is decides; every other call is as before
  have hother : ∀ c, pa.proc ≠ some c → s'.calls c = s.calls c := fun c hc =>
    PoolSys.step_calls_of_ne hs hc
  have hown : ∀ c, pa.proc = some c →
      ((s'.calls c).submits = true → ∃ q, c = .caller q) ∧
      ((s'.calls c).cancels = true → (∃ q, c = .owner q) ∨ ∃ k, c = .cancel k) := by
    intro c hc
    cases pa with
    | submit c' sub alloc =>
      obtain rfl : c' = c := Option.some.inj hc
      obtain ⟨q, p, rfl, -, -⟩ := hpa
      refine ⟨fun _ => ⟨q, rfl⟩, fun hx => ?_⟩
      rw [(PoolSys.submit_calls hs).2, submits_beginSubmission] at hx
      cases hx
    | wake c' reqId userData =>
      obtain ⟨-, hcall | ⟨w, hcall⟩⟩ := PoolSys.wake_calls hs <;>
        obtain rfl : c' = c := Option.some.inj hc <;> rw [hcall] <;>
        exact ⟨fun hx => (by cases hx), fun hx => by cases hx⟩
    | cancel c' reqId =>
      obtain rfl : c' = c := Option.some.inj hc
      refine ⟨fun hx => ?_, fun _ => hpa⟩
      obtain ⟨-, hcall | hcall | ⟨w, hcall⟩⟩ := PoolSys.cancel_calls hs <;> rw [hcall] at hx <;> cases hx
    | advance c' alloc =>
      obtain rfl : c' = c := Option.some.inj hc
      obtain ⟨hsub, hcan⟩ := PoolSys.advance_kind hs
      exact ⟨fun hx => h.submits _ (hsub hx), fun hx => h.cancels _ (hcan hx)⟩
    | collect c' =>
      obtain rfl : c' = c := Option.some.inj hc
      rw [(PoolSys.collect_calls hs).2]
      exact ⟨fun hx => (by cases hx), fun hx => by cases hx⟩
    | pop | finish | account => cases hc
  constructor <;> intro c hx <;> by_cases hc : pa.proc = some c
  · exact (hown c hc).1 hx
  · exact h.submits c (by rwa [hother c hc] at hx)
  · exact (hown c hc).2 hx
  · exact h.cancels c (by rwa [hother c hc] at hx)

/-- In every run callers submit, owners and cancellers cancel, and nobody else does. -/
theorem roles_reach {workerCount : Nat} {s : PoolSys Proc ArgPtr}
    (h : (poolSystem Proc ArgPtr workerCount).Reach (fun _ pa => MayCall pa) s) : Roles s := by
  refine h.invariant ?_ ?_
  · rintro s rfl
    exact ⟨fun c hx => (by cases hx), fun c hx => by cases hx⟩
  · intro s pa s' _ hI hpa hs
    exact hI.step hpa hs

end OsTransport
