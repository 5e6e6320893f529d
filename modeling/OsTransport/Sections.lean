/-
  The pool, access by access.

  `OsTransport.PoolSystem` takes what a thread does under one lock as one step.  Here it is what
  the source makes it: every lock, every access to what the lock protects, every test of
  `is_destroying`, every signal and every unlock is a step, and between two of them any other thread
  may run.  The locks are the workers' mutexes, `req_hash_mutex` and `task_id_mutex`; a worker
  with nothing to do sleeps on its condition variable, and may wake for no reason.

  An access is one operation on one of the lists, on the table or on the counter: appending the nodes
  of a submission to the queue (`attachSection`), adding to a count with the search for its context
  (`recordSection`, `uncountSection`, `accountSection`), taking the matching tasks out of the queue.
  The loads and stores inside one operation are not told apart.  And what is done with no lock held
  is not here: `thread_pool_submit_task` ends in `return task->task_id`, after its last section, when
  the task may be gone.  A single call ends with the pointer to its task; what its caller is
  given is the subject of `OsTransport.PoolBooks`.

  * `sections_refine` — until `thread_pool_destroy` is called, what the locks publish is a run of
                        `poolSystem`: whatever holds of all its runs holds of the pool;
  * `worker_awake`    — a worker never sleeps over an accepted wake-up, nor over `is_destroying`,
                        unless the signal is still to come;
  * `wake_up_served`  — an accepted wake-up can always be served.

  Both come from `Monitor`; this module says what the threads of the pool do (`poolCode`), and that
  it is well-behaved.

  A worker that finds no task for a wake-up goes round its loop without giving its mutex back.  Here
  it gives it back and takes it again: the source's run is the one in which nobody comes between.

  How they are proved:

  1. `poolCode` is the code of the threads: at each point the section under the lock, and where the
     thread goes from there (`poolNext`, one row for each point in `PoolRow`);
  2. `Shows` relates a state of `Monitor`'s atomic view to a state of `PoolSys`: the lists, the table
     and the counter are the same, and each thread is where its call or its worker is.  `shows_whole`
     takes one whole section to one step of the pool; a section that changes nothing the pool can
     see is a step that stays (`shows_hop`);
  3. so `refines` of `OsTransport.Lib.Monitor` gives a run of `PoolSys`, and `sections_refine` says
     which;
  4. a worker's lock is `Watched` and `Heeded` because whoever appends a wake-up signals before it
     unlocks, because `worker_routine` tests before it waits, and because `shutdown_threads` signals
     each worker after raising the flag (`worker_watched`, `worker_heeded`);
  5. `worker_iterates` and `worker_leaves` follow a worker on its own from where it is to the end of
     an iteration, or to the exit.
-/
import OsTransport.PoolSystem
import OsTransport.Lib.Monitor

namespace OsTransport

open Transition Monitor

variable {κ α : Type}

/-! ## The threads of the pool

A thread's point is where its call is, or where the worker is in its loop.  A caller ends with the
pointer to its task. -/

inductive PoolLock
  /-- `worker->mutex`, with `worker->cond_task`. -/
  | worker (w : Nat)
  | reqHash
  | taskId
  deriving DecidableEq

inductive PoolThread (κ : Type)
  | caller (c : κ)
  | worker (w : Nat)
  /-- The thread that calls `thread_pool_destroy`. -/
  | destroyer
  deriving DecidableEq

/-- What `worker->mutex` protects. -/
structure WorkerShared (α : Type) where
  queue : List (TaskNode α)
  pending : List PendingReqNode
  state : WorkerState

/-- The worker of `OsTransport.Pool`, whose thread is at `exec`. -/
def WorkerShared.thread (d : WorkerShared α) (exec : Exec α) : WorkerThread α :=
  ⟨d.queue, d.pending, d.state, exec⟩

def WorkerThread.lists (w : WorkerThread α) : WorkerShared α := ⟨w.queue, w.pending, w.state⟩

/-- What a lock protects. -/
@[reducible] def PoolData (α : Type) : PoolLock → Type
  | .worker _ => WorkerShared α
  | .reqHash => ReqHash
  | .taskId => Nat

/-- Where a thread is between two sections. -/
inductive Point (α : Type)
  | call (pc : Call α)
  | exec (pc : Exec α)
  /-- The worker has left `worker_routine`. -/
  | ended
  /-- `thread_pool_destroy` is not called. -/
  | unasked
  /-- `shutdown_threads`, about to signal worker `i`. -/
  | shutting (i : Nat)
  /-- About to join the workers. -/
  | joining

/-- What a step takes from outside: the calls with their arguments, the outcome of allocations, what
    a task returns. -/
inductive Input (α : Type)
  | submit (sub : Submission α) (alloc : Alloc)
  | wake (reqId : ReqId) (userData : BitVec 64)
  | cancel (reqId : ReqId)
  | advance (alloc : Alloc)
  | collect
  | pop
  | finish (ret : Int)
  | account
  | destroy
  | shut

/-! ## What they do

Each section of the source, as a program; then which section comes next. -/

/-- What a thread of the pool does under a lock that protects a `σ`. -/
abbrev Section (σ α : Type) := Prog σ (Point α)

/-- `select_best_worker`, looking at worker `i`. -/
def sampleSection (sub : Submission α) (made : List (TaskNode α)) (i : Nat)
    (best : Option BestWorker) : Section (WorkerShared α) α :=
  .edit id fun size => .edit id fun pendingCount => .edit id fun state =>
    let seen : WorkerThread α := ⟨size.queue, pendingCount.pending, state.state, .loop⟩
    let (b, stop) := selectBestWorkerStep seen i best
    .ret (.call (if stop then selectedWorker sub made i else .selecting sub made (i + 1) (some b)))

/-- `generate_task_id`, and the rest of building a node. -/
def taskIdSection (sub : Submission α) (worker : Option Nat) (made : List (TaskNode α))
    (src : ThreadPoolTask α) (todo : List (ThreadPoolTask α)) (alloc : Alloc) :
    Section Nat α :=
  .edit (fun serial => serial + 1) fun serial =>
    .ret (.call (if alloc = .nodeFail ∧ !sub.single then .done .null
      else builtNode sub worker
        (made ++ [createBatchNode serial sub.requestId sub.completeCb src]) todo))

/-- `attach_nodes_to_worker`, and `worker_queue_push` of a single task. -/
def attachSection (sub : Submission α) (w : Nat) (nodes : List (TaskNode α)) :
    Section (WorkerShared α) α :=
  .edit (fun d => { d with queue := d.queue ++ nodes }) fun _ =>
    .ret (.call (.recording sub w nodes))

/-- `update_batch_context`, and the same section of `thread_pool_submit_task`. -/
def recordSection (sub : Submission α) (w : Nat) (nodes : List (TaskNode α)) (alloc : Alloc) :
    Section ReqHash α :=
  .edit (fun t => updateBatchContext t (sub.single || alloc == .ok) sub.requestId w
      nodes.length (if sub.single then none else sub.batchCb)) fun _ =>
    .ret (.call (.done (submitResult sub w nodes)))

/-- The lookup of a wake-up. -/
def wakeSection (reqId : ReqId) (userData : BitVec 64) : Section ReqHash α :=
  .edit id fun t => .ret (.call
    (match t.find reqId with
      | none => .done .err
      | some ctx => .waking reqId userData ctx.workerIdx))

/-- `worker_pending_req_push` and the signal. -/
def pushSection (reqId : ReqId) (userData : BitVec 64) : Section (WorkerShared α) α :=
  .edit (fun d => { d with pending := d.pending ++ [⟨reqId, userData⟩] }) fun _ =>
    .signal (.ret (.call (.done .ok)))

/-- The lookup of a cancel. -/
def lookupSection (reqId : ReqId) : Section ReqHash α :=
  .edit id fun t => .ret (.call
    (match t.find reqId with
      | none => .done (.removed 0)
      | some ctx => .cancelling reqId ctx.workerIdx))

/-- `cancel_in_worker_queue`: the tasks first, then the wake-ups. -/
def cancelSection (reqId : ReqId) : Section (WorkerShared α) α :=
  .edit (fun d => { d with queue := d.queue.filter fun t => !(t.requestId == reqId) })
    fun d =>
  .edit (fun d => { d with pending := d.pending.filter fun p => !(p.requestId == reqId) }) fun _ =>
    let removed := (d.queue.filter fun t => t.requestId == reqId).length
    .ret (.call (if removed % 2 ^ 32 > 0 then .uncounting reqId removed
      else .done (.removed removed)))

/-- `update_context_after_cancel`. -/
def uncountSection (reqId : ReqId) (removed : Nat) : Section ReqHash α :=
  .edit (fun t => updateContextAfterCancel t reqId removed) fun _ =>
    .ret (.call (.done (.removed removed)))

/-- A call into the pool. -/
def callNext (workerCount : Nat) (isRunning : Bool) :
    Call α → Input α → Option (Next (PoolData α) (Point α))
  | .idle, .submit sub alloc => some (.hop (.call (beginSubmission isRunning sub alloc)))
  | .idle, .wake reqId userData => some (.lock .reqHash (wakeSection reqId userData))
  | .idle, .cancel reqId =>
    if !isRunning then some (.hop (.call (.done .err)))
    else some (.lock .reqHash (lookupSection reqId))
  | .selecting sub made i best, .advance _ =>
    if i < workerCount then some (.lock (.worker i) (sampleSection sub made i best))
    else match best with
      | none => some (.hop (.call (.done .null)))
      | some b => some (.hop (.call (selectedWorker sub made b.workerIdx)))
  | .building sub worker made todo, .advance alloc =>
    match todo, alloc with
    | [], _ => none
    | _, .fail => some (.hop (.call (.done .null)))
    | src :: todo, alloc => some (.lock .taskId (taskIdSection sub worker made src todo alloc))
  | .attaching sub w nodes, .advance alloc =>
    -- the context of a single task is allocated before the lock, its node under it
    if sub.single ∧ alloc = .fail then some (.hop (.call (.done .null)))
    else if sub.single ∧ alloc = .nodeFail then
      some (.lock (.worker w) (.ret (.call (.done .null))))
    else some (.lock (.worker w) (attachSection sub w nodes))
  | .recording sub w nodes, .advance alloc =>
    some (.lock .reqHash (recordSection sub w nodes alloc))
  | .waking reqId userData w, .advance alloc =>
    if alloc = .ok then some (.lock (.worker w) (pushSection reqId userData))
    else some (.lock (.worker w) (.ret (.call (.done .err))))
  | .cancelling reqId w, .advance _ => some (.lock (.worker w) (cancelSection reqId))
  | .uncounting reqId removed, .advance _ => some (.lock .reqHash (uncountSection reqId removed))
  | .done _, .collect => some (.hop (.call .idle))
  | _, _ => none

/-- `worker->state = WORKER_STATE_EXIT`, and out of the loop. -/
def exitSection : Section (WorkerShared α) α :=
  .edit (fun d => { d with state := .exit }) fun _ => .ret .ended

/-- `worker->state = state`, and on at `pc`. -/
def settle (state : WorkerState) (pc : Exec α) : Section (WorkerShared α) α :=
  .edit (fun d => { d with state }) fun _ => .ret (.exec pc)

/-- From `worker_pending_req_pop` to the end of the iteration. -/
def serveSection : Section (WorkerShared α) α :=
  .edit (fun d => { d with pending := d.pending.tail }) fun d =>
    match d.pending with
    | [] => settle .idle .loop
    | p :: _ =>
      .edit (fun d =>
          match workerQueuePopByReqAndUserData d.queue p.requestId p.userData with
          | some (_, queue) => { d with queue }
          | none => d) fun d =>
        match workerQueuePopByReqAndUserData d.queue p.requestId p.userData with
        | some (task, _) => settle .busy (.running task p.requestId p.userData)
        | none => settle .idle .loop

/-- One iteration of `worker_routine`: `is_destroying` is tested in the loop that sleeps, and again
    after it. -/
def routineSection : Section (WorkerShared α) α :=
  .test fun isDestroying =>
    if isDestroying then exitSection
    else .edit id fun d =>
      if d.pending.isEmpty then
        .edit (fun d => { d with state := .idle }) fun _ => .wait (.exec .loop)
      else .test fun isDestroying => if isDestroying then exitSection else serveSection

/-- The end of `worker_process_task`. -/
def accountSection (reqId : ReqId) : Section ReqHash α :=
  .edit (fun t => accountTask t reqId) fun _ => .ret (.exec .loop)

/-- A worker thread. -/
def workerNext (workerCount w : Nat) : Exec α → Input α → Option (Next (PoolData α) (Point α))
  | .loop, .pop =>
    if w < workerCount then some (.lock (.worker w) routineSection) else none
  | .running task reqId _, .finish ret => some (.hop (.exec (.returned task reqId ret)))
  | .returned _ reqId _, .account =>
    some (.lock .reqHash (accountSection reqId))
  | _, _ => none

/-- `shutdown_threads`. -/
def shutdownNext (workerCount : Nat) : Point α → Input α → Option (Next (PoolData α) (Point α))
  | .unasked, .destroy => some (.raise (.shutting 0))
  | .shutting i, .shut =>
    if i < workerCount then some (.lock (.worker i) (.signal (.ret (.shutting (i + 1)))))
    else some (.hop .joining)
  | _, _ => none

/-- The pool of `workerCount` workers. -/
def poolNext (workerCount : Nat) (isRunning : Bool) :
    PoolThread κ → Point α → Input α → Option (Next (PoolData α) (Point α))
  | .caller _, .call pc, a => callNext workerCount isRunning pc a
  | .worker w, .exec pc, a => workerNext workerCount w pc a
  | .destroyer, p, a => shutdownNext workerCount p a
  | _, _, _ => none

/-- What is next, row by row. -/
inductive PoolRow (workerCount : Nat) (isRunning : Bool) :
    PoolThread κ → Point α → Input α → Next (PoolData α) (Point α) → Prop
  | submit {c sub alloc} : PoolRow workerCount isRunning (.caller c) (.call .idle)
      (.submit sub alloc) (.hop (.call (beginSubmission isRunning sub alloc)))
  | refused {c reqId} : isRunning = false → PoolRow workerCount isRunning (.caller c) (.call .idle)
      (.cancel reqId) (.hop (.call (.done .err)))
  | unselected {c sub made i alloc} : ¬ i < workerCount → PoolRow workerCount isRunning (.caller c)
      (.call (.selecting sub made i none)) (.advance alloc) (.hop (.call (.done .null)))
  | selected {c sub made i b alloc} : ¬ i < workerCount → PoolRow workerCount isRunning (.caller c)
      (.call (.selecting sub made i (some b))) (.advance alloc)
      (.hop (.call (selectedWorker sub made b.workerIdx)))
  | unbuilt {c sub worker made src todo} : PoolRow workerCount isRunning (.caller c)
      (.call (.building sub worker made (src :: todo))) (.advance .fail)
      (.hop (.call (.done .null)))
  | unattached {c sub w nodes} : sub.single = true → PoolRow workerCount isRunning (.caller c)
      (.call (.attaching sub w nodes)) (.advance .fail) (.hop (.call (.done .null)))
  | collect {c result} : PoolRow workerCount isRunning (.caller c) (.call (.done result)) .collect
      (.hop (.call .idle))
  | finish {w task reqId userData ret} : PoolRow workerCount isRunning (.worker w)
      (.exec (.running task reqId userData)) (.finish ret) (.hop (.exec (.returned task reqId ret)))
  | joins {i} : ¬ i < workerCount → PoolRow workerCount isRunning .destroyer (.shutting i) .shut
      (.hop .joining)
  | destroy : PoolRow workerCount isRunning .destroyer .unasked .destroy (.raise (.shutting 0))
  | wake {c reqId userData} : PoolRow workerCount isRunning (.caller c) (.call .idle)
      (.wake reqId userData) (.lock .reqHash (wakeSection reqId userData))
  | cancel {c reqId} : isRunning = true → PoolRow workerCount isRunning (.caller c) (.call .idle)
      (.cancel reqId) (.lock .reqHash (lookupSection reqId))
  | sample {c sub made i best alloc} : i < workerCount → PoolRow workerCount isRunning (.caller c)
      (.call (.selecting sub made i best)) (.advance alloc)
      (.lock (.worker i) (sampleSection sub made i best))
  | build {c sub worker made src todo alloc} : alloc ≠ .fail →
      PoolRow workerCount isRunning (.caller c) (.call (.building sub worker made (src :: todo)))
        (.advance alloc)
      (.lock .taskId (taskIdSection sub worker made src todo alloc))
  | unpushed {c sub w nodes} : sub.single = true → PoolRow workerCount isRunning (.caller c)
      (.call (.attaching sub w nodes)) (.advance .nodeFail)
      (.lock (.worker w) (.ret (.call (.done .null))))
  | attach {c sub w nodes alloc} : ¬ (sub.single = true ∧ alloc ≠ .ok) →
      PoolRow workerCount isRunning (.caller c) (.call (.attaching sub w nodes)) (.advance alloc)
      (.lock (.worker w) (attachSection sub w nodes))
  | record {c sub w nodes alloc} : PoolRow workerCount isRunning (.caller c)
      (.call (.recording sub w nodes)) (.advance alloc)
      (.lock .reqHash (recordSection sub w nodes alloc))
  | push {c reqId userData w} : PoolRow workerCount isRunning (.caller c)
      (.call (.waking reqId userData w)) (.advance .ok)
      (.lock (.worker w) (pushSection reqId userData))
  | unwoken {c reqId userData w alloc} : alloc ≠ .ok → PoolRow workerCount isRunning (.caller c)
      (.call (.waking reqId userData w)) (.advance alloc)
      (.lock (.worker w) (.ret (.call (.done .err))))
  | drop {c reqId w alloc} : PoolRow workerCount isRunning (.caller c)
      (.call (.cancelling reqId w)) (.advance alloc) (.lock (.worker w) (cancelSection reqId))
  | uncount {c reqId removed alloc} : PoolRow workerCount isRunning (.caller c)
      (.call (.uncounting reqId removed)) (.advance alloc)
      (.lock .reqHash (uncountSection reqId removed))
  | routine {w} : w < workerCount → PoolRow workerCount isRunning (.worker w) (.exec .loop) .pop
      (.lock (.worker w) routineSection)
  | account {w task reqId ret} : PoolRow workerCount isRunning (.worker w)
      (.exec (.returned task reqId ret)) .account (.lock .reqHash (accountSection reqId))
  | signal {i} : i < workerCount → PoolRow workerCount isRunning .destroyer (.shutting i) .shut
      (.lock (.worker i) (.signal (.ret (.shutting (i + 1)))))

/-- Every section of a caller is one of these, -/
theorem callNext_row {workerCount : Nat} {isRunning : Bool} {c : κ} {pc : Call α} {a : Input α}
    {x : Next (PoolData α) (Point α)} (h : callNext workerCount isRunning pc a = some x) :
    PoolRow workerCount isRunning (.caller c) (.call pc) a x := by
  cases pc with
  | idle =>
    cases a with
    | submit sub alloc => cases h; exact .submit
    | wake reqId userData => cases h; exact .wake
    | cancel reqId =>
      cases isRunning with
      | true => cases h; exact .cancel rfl
      | false => cases h; exact .refused rfl
    | advance | collect | pop | finish | account | destroy | shut => cases h
  | selecting sub made i best =>
    cases a with
    | advance alloc =>
      simp only [callNext] at h
      split at h
      · cases h; exact .sample ‹_›
      · cases best with
        | none => cases h; exact .unselected ‹_›
        | some b => cases h; exact .selected ‹_›
    | submit | wake | cancel | collect | pop | finish | account | destroy | shut => cases h
  | building sub worker made todo =>
    cases a with
    | advance alloc =>
      cases todo with
      | nil => cases alloc <;> cases h
      | cons src todo =>
        cases alloc with
        | ok => cases h; exact .build (by simp)
        | fail => cases h; exact .unbuilt
        | nodeFail => cases h; exact .build (by simp)
    | submit | wake | cancel | collect | pop | finish | account | destroy | shut => cases h
  | attaching sub w nodes =>
    cases a with
    | advance alloc =>
      simp only [callNext] at h
      cases hsingle : sub.single with
      | true =>
        cases alloc with
        | ok => simp only [hsingle] at h; cases h; exact .attach (by simp)
        | fail => simp only [hsingle] at h; cases h; exact .unattached hsingle
        | nodeFail => simp only [hsingle] at h; cases h; exact .unpushed hsingle
      | false => simp only [hsingle] at h; cases h; exact .attach (by simp [hsingle])
    | submit | wake | cancel | collect | pop | finish | account | destroy | shut => cases h
  | recording sub w nodes =>
    cases a with
    | advance alloc => cases h; exact .record
    | submit | wake | cancel | collect | pop | finish | account | destroy | shut => cases h
  | waking reqId userData w =>
    cases a with
    | advance alloc =>
      cases alloc with
      | ok => cases h; exact .push
      | fail => cases h; exact .unwoken (by simp)
      | nodeFail => cases h; exact .unwoken (by simp)
    | submit | wake | cancel | collect | pop | finish | account | destroy | shut => cases h
  | cancelling reqId w =>
    cases a with
    | advance alloc => cases h; exact .drop
    | submit | wake | cancel | collect | pop | finish | account | destroy | shut => cases h
  | uncounting reqId removed =>
    cases a with
    | advance alloc => cases h; exact .uncount
    | submit | wake | cancel | collect | pop | finish | account | destroy | shut => cases h
  | done result =>
    cases a with
    | collect => cases h; exact .collect
    | submit | wake | cancel | advance | pop | finish | account | destroy | shut => cases h

/-- every section of a worker, -/
theorem workerNext_row {workerCount w : Nat} {isRunning : Bool} {pc : Exec α} {a : Input α}
    {x : Next (PoolData α) (Point α)} (h : workerNext workerCount w pc a = some x) :
    PoolRow workerCount isRunning (.worker w : PoolThread κ) (.exec pc) a x := by
  simp only [workerNext] at h
  split at h
  · split at h <;> cases h
    exact .routine ‹_›
  · cases h; exact .finish
  · cases h; exact .account
  · cases h

/-- every section of `shutdown_threads`, -/
theorem shutdownNext_row {workerCount : Nat} {isRunning : Bool} {p : Point α} {a : Input α}
    {x : Next (PoolData α) (Point α)} (h : shutdownNext workerCount p a = some x) :
    PoolRow workerCount isRunning (.destroyer : PoolThread κ) p a x := by
  simp only [shutdownNext] at h
  split at h
  · cases h; exact .destroy
  · split at h <;> cases h
    · exact .signal ‹_›
    · exact .joins ‹_›
  · cases h

/-- and so every section of a thread. -/
theorem poolNext_row {workerCount : Nat} {isRunning : Bool} {t : PoolThread κ} {p : Point α}
    {a : Input α} {x : Next (PoolData α) (Point α)}
    (h : poolNext workerCount isRunning t p a = some x) :
    PoolRow workerCount isRunning t p a x := by
  cases t with
  | caller c =>
    cases p with
    | call pc => exact callNext_row h
    | exec | ended | unasked | shutting | joining => cases h
  | worker w =>
    cases p with
    | exec pc => exact workerNext_row h
    | call | ended | unasked | shutting | joining => cases h
  | destroyer => exact shutdownNext_row h

variable (κ α) in
/-- The code of a pool of `workerCount` workers: worker `w` alone sleeps on `cond_task` of worker
    `w`. -/
def poolCode (workerCount : Nat) (isRunning : Bool) :
    Code (PoolData α) (PoolThread κ) (Point α) (Input α) where
  next := poolNext workerCount isRunning
  server
    | .worker w => .worker w
    | _ => .destroyer
  expire _ _ := none
  waitless := by
    intro t p a i prog h hne
    cases poolNext_row h with
    | routine => exact absurd rfl hne
    | _ => simp [Prog.Waitless, wakeSection, lookupSection, sampleSection, taskIdSection,
        attachSection, recordSection, pushSection, cancelSection, uncountSection, accountSection]

variable (κ α) in
/-- A pool with its locks. -/
abbrev LockedPool := State (PoolData α) (PoolThread κ) (Point α) (Input α)

/-- What the locks of a started pool protect. -/
def startData (α : Type) : ∀ i, PoolData α i
  | .worker _ => (WorkerThread.fresh : WorkerThread α).lists
  | .reqHash => ReqHash.empty
  | .taskId => (1 : Nat)

/-- Where the threads of a started pool are. -/
def startPoint : PoolThread κ → Point α
  | .caller _ => .call .idle
  | .worker _ => .exec .loop
  | .destroyer => .unasked

variable (κ α) in
/-- All runs of a started pool, access by access. -/
def poolMonitor [DecidableEq κ] (workerCount : Nat) :=
  Monitor.system (poolCode κ α workerCount true) (startData α) startPoint

/-- A run of the pool may be evaluated. -/
theorem poolMonitor_exec [DecidableEq κ] (workerCount : Nat)
    (as : List (Monitor.Action (PoolThread κ) (Input α))) (P : LockedPool κ α → Bool)
    (h : (Transition.exec (fun _ _ => true) (State.step (poolCode κ α workerCount true))
      (State.start (startData α) startPoint) as).any P = true) :
    ∃ s, (poolMonitor κ α workerCount).Reach (fun _ _ => True) s ∧ P s = true :=
  System.Reach.of_exec (· = State.start (startData α) startPoint) (fun _ _ => true)
    (fun _ _ _ => trivial) rfl as P h

/-! ## Sections are steps

A section run as a whole is one step of `OsTransport.PoolSystem`, and the points between sections
are its places. -/

/-- The step of `poolSystem` that a section of thread `t` is. -/
def poolAction : AtomicAction (PoolThread κ) (Input α) → Option (PoolAction κ α)
  | .hop t a | .whole t a =>
    match t, a with
    | .caller c, .submit sub alloc => some (.submit c sub alloc)
    | .caller c, .wake reqId userData => some (.wake c reqId userData)
    | .caller c, .cancel reqId => some (.cancel c reqId)
    | .caller c, .advance alloc => some (.advance c alloc)
    | .caller c, .collect => some (.collect c)
    | .worker w, .pop => some (.pop w)
    | .worker w, .finish ret => some (.finish w ret)
    | .worker w, .account => some (.account w)
    | _, _ => none
  | .expire _ _ => none

/-- `v` is what is seen of the pool `s`, whose log is history. -/
structure Shows (workerCount : Nat) (v : Atomic (PoolData α) (PoolThread κ) (Point α))
    (s : PoolSys κ α) : Prop where
  calls : ∀ c, v.pc (.caller c) = .call (s.calls c)
  workers : ∀ w, v.pc (.worker w) = .exec (s.workers w).exec
  lists : ∀ w, v.data (.worker w) = (s.workers w).lists
  reqHash : v.data .reqHash = s.reqHash
  taskId : v.data .taskId = s.nextTaskId
  destroyer : v.pc .destroyer = .unasked
  isRunning : s.isRunning = true
  workerCount_eq : s.workerCount = workerCount

section Shows

variable [DecidableEq κ] {workerCount : Nat} {v v' : Atomic (PoolData α) (PoolThread κ) (Point α)}
  {s : PoolSys κ α}

/-- A call that moves shows it. -/
theorem Shows.setCall (h : Shows workerCount v s) (c : κ) (pc : Call α) :
    Shows workerCount { v with pc := Function.update v.pc (.caller c) (.call pc) }
      (s.setCall c pc) where
  calls := by
    intro c'
    by_cases hc : c' = c
    · subst hc
      simp only [PoolSys.setCall, Function.update_self]
    · have hne : (PoolThread.caller c' : PoolThread κ) ≠ .caller c :=
        fun heq => hc (by cases heq; rfl)
      simp only [PoolSys.setCall, Function.update_of_ne hc, Function.update_of_ne hne]
      exact h.calls c'
  workers := h.workers
  lists := h.lists
  reqHash := h.reqHash
  taskId := h.taskId
  destroyer := h.destroyer
  isRunning := h.isRunning
  workerCount_eq := h.workerCount_eq

/-- A worker that moves shows it. -/
theorem Shows.setExec (h : Shows workerCount v s) (w : Nat) (exec : Exec α) :
    Shows workerCount { v with pc := Function.update v.pc (.worker w) (.exec exec) }
      (s.setWorker w { s.workers w with exec }) where
  calls := h.calls
  workers := by
    intro w'
    by_cases hw : w' = w
    · subst hw
      simp only [PoolSys.setWorker, Function.update_self]
    · have hne : (PoolThread.worker w' : PoolThread κ) ≠ .worker w :=
        fun heq => hw (by cases heq; rfl)
      simp only [PoolSys.setWorker, Function.update_of_ne hw, Function.update_of_ne hne]
      exact h.workers w'
  lists := by
    intro w'
    by_cases hw : w' = w
    · subst hw
      simp only [PoolSys.setWorker, Function.update_self]
      exact h.lists w'
    · simp only [PoolSys.setWorker, Function.update_of_ne hw]
      exact h.lists w'
  reqHash := h.reqHash
  taskId := h.taskId
  destroyer := h.destroyer
  isRunning := h.isRunning
  workerCount_eq := h.workerCount_eq

omit [DecidableEq κ] in
/-- What is done to the lists of a worker shows. -/
theorem Shows.setLists (h : Shows workerCount v s) (w : Nat) (d : WorkerShared α) :
    Shows workerCount { v with data := Function.update v.data (.worker w) d }
      (s.setWorker w (d.thread (s.workers w).exec)) where
  calls := h.calls
  workers := by
    intro w'
    by_cases hw : w' = w
    · subst hw
      simp only [PoolSys.setWorker, Function.update_self]
      exact h.workers w'
    · simp only [PoolSys.setWorker, Function.update_of_ne hw]
      exact h.workers w'
  lists := by
    intro w'
    by_cases hw : w' = w
    · subst hw
      simp only [PoolSys.setWorker, Function.update_self]
      rfl
    · have hne : PoolLock.worker w' ≠ .worker w := fun heq => hw (by cases heq; rfl)
      simp only [PoolSys.setWorker, Function.update_of_ne hw, Function.update_of_ne hne]
      exact h.lists w'
  reqHash := h.reqHash
  taskId := h.taskId
  destroyer := h.destroyer
  isRunning := h.isRunning
  workerCount_eq := h.workerCount_eq

omit [DecidableEq κ] in
/-- What is done to the table shows. -/
theorem Shows.setReqHash (h : Shows workerCount v s) (t : ReqHash) :
    Shows workerCount { v with data := Function.update v.data .reqHash t } (s.setReqHash t) :=
  ⟨h.calls, h.workers, h.lists, rfl, h.taskId, h.destroyer, h.isRunning, h.workerCount_eq⟩

omit [DecidableEq κ] in
/-- A task id that is drawn shows. -/
theorem Shows.setTaskId (h : Shows workerCount v s) (taskId : Nat) :
    Shows workerCount { v with data := Function.update v.data .taskId taskId }
      { s with nextTaskId := taskId } :=
  ⟨h.calls, h.workers, h.lists, h.reqHash, rfl, h.destroyer, h.isRunning, h.workerCount_eq⟩

omit [DecidableEq κ] in
/-- The log of the pool is not shown. -/
theorem Shows.record (h : Shows workerCount v s) (events : List (PoolEvent κ α)) :
    Shows workerCount v (s.record events) :=
  ⟨h.calls, h.workers, h.lists, h.reqHash, h.taskId, h.destroyer, h.isRunning, h.workerCount_eq⟩

omit [DecidableEq κ] in
/-- Where a call is shown to be, it is. -/
theorem Shows.call_eq (h : Shows workerCount v s) {c : κ} {pc : Call α}
    (hpc : v.pc (.caller c) = .call pc) : s.calls c = pc := by
  have heq := (h.calls c).symm.trans hpc
  cases heq
  rfl

omit [DecidableEq κ] in
/-- Where a worker is shown to be, it is. -/
theorem Shows.exec_eq (h : Shows workerCount v s) {w : Nat} {pc : Exec α}
    (hpc : v.pc (.worker w) = .exec pc) : (s.workers w).exec = pc := by
  have heq := (h.workers w).symm.trans hpc
  cases heq
  rfl

/-- A step without a lock is a step of the pool. -/
theorem shows_hop (h : Shows workerCount v s) {t : PoolThread κ} {p q : Point α} {a : Input α}
    (hp : v.pc t = p) (hrow : PoolRow workerCount true t p a (.hop q)) :
    ∃ b s', poolAction (.hop t a) = some b ∧ s.step b = some s' ∧
      Shows workerCount { v with pc := Function.update v.pc t q } s' := by
  cases hrow with
  | @submit c sub alloc =>
    refine ⟨_, _, rfl, ?_, h.setCall c _⟩
    simp only [PoolSys.step, PoolSys.isIdle, h.call_eq hp, if_true, h.isRunning]
  | @unselected c sub made i alloc hi =>
    refine ⟨_, _, rfl, ?_, h.setCall c _⟩
    simp only [PoolSys.step, PoolSys.advance, h.call_eq hp, h.workerCount_eq, if_neg hi]
  | @selected c sub made i b alloc hi =>
    refine ⟨_, _, rfl, ?_, h.setCall c _⟩
    simp only [PoolSys.step, PoolSys.advance, h.call_eq hp, h.workerCount_eq, if_neg hi]
  | @unbuilt c sub worker made src todo =>
    refine ⟨_, _, rfl, ?_, h.setCall c _⟩
    simp only [PoolSys.step, PoolSys.advance, h.call_eq hp]
  | @unattached c sub w nodes hsingle =>
    refine ⟨_, _, rfl, ?_, h.setCall c _⟩
    simp only [PoolSys.step, PoolSys.advance, h.call_eq hp, hsingle]
    rfl
  | @collect c result =>
    refine ⟨_, _, rfl, ?_, h.setCall c _⟩
    simp only [PoolSys.step, h.call_eq hp]
  | @finish w task reqId userData ret =>
    refine ⟨.finish w ret, _, rfl, ?_,
      (h.setExec w (.returned task reqId ret)).record (PoolSys.finishEvents w task ret)⟩
    simp only [PoolSys.step, PoolSys.finish, h.exec_eq hp]
  | refused hstopped => cases hstopped
  | joins => cases hp.symm.trans h.destroyer

omit [DecidableEq κ] in
/-- Putting back what was read changes nothing. -/
theorem Shows.reread (h : Shows workerCount v s) (i : PoolLock) :
    Shows workerCount { v with data := Function.update v.data i (v.data i) } s := by
  rw [Function.update_eq_self]
  exact h

omit [DecidableEq κ] in
/-- The section of `worker_routine` does what `workerRoutine` does. -/
theorem routine_run (d : WorkerShared α) :
    routineSection.run false d =
      ((workerRoutine (d.thread .loop)).lists, .exec (workerRoutine (d.thread .loop)).exec) := by
  obtain ⟨queue, pending, state⟩ := d
  cases pending with
  | nil => rfl
  | cons p pending =>
    show serveSection.run false (⟨queue, p :: pending, state⟩ : WorkerShared α) = _
    cases hpop : workerQueuePopByReqAndUserData queue p.requestId p.userData with
    | none => simp [serveSection, settle, Prog.run, workerRoutine, WorkerShared.thread,
        WorkerThread.lists, hpop]
    | some hit => simp [serveSection, settle, Prog.run, workerRoutine, WorkerShared.thread,
        WorkerThread.lists, hpop]

/-- An iteration of `worker_routine` is one step. -/
theorem shows_routine (h : Shows workerCount v s) {w : Nat} (hw : w < workerCount)
    (hp : v.pc (.worker w) = .exec .loop) :
    ∃ s', s.step (.pop w) = some s' ∧
      Shows workerCount
        ⟨Function.update v.data (.worker w) (routineSection.run false (v.data (.worker w))).1,
          Function.update v.pc (.worker w) (routineSection.run false (v.data (.worker w))).2⟩
        s' := by
  have hexec := h.exec_eq hp
  refine ⟨_, by simp only [PoolSys.step, PoolSys.pop, hexec, h.workerCount_eq, if_pos hw]; rfl, ?_⟩
  refine Shows.record ?_ _
  have hthread : (s.workers w).lists.thread .loop = s.workers w := by
    rw [← hexec]
    rfl
  have hboth := (h.setExec w (workerRoutine (s.workers w)).exec).setLists w
    (workerRoutine (s.workers w)).lists
  rw [h.lists w, routine_run, hthread]
  simp only [PoolSys.setWorker, Function.update_idem, Function.update_self] at hboth ⊢
  exact hboth

/-- A section of a call that leaves `d` in worker `w`'s lists and goes on at `pc`. -/
theorem Shows.callWorker (h : Shows workerCount v s) {w : Nat} {c : κ}
    {prog : Section (WorkerShared α) α} {d : WorkerShared α} {pc : Call α}
    (hrun : prog.run false (s.workers w).lists = (d, .call pc)) :
    Shows workerCount ⟨Function.update v.data (.worker w) (prog.run false (v.data (.worker w))).1,
      Function.update v.pc (.caller c) (prog.run false (v.data (.worker w))).2⟩
      ((s.setWorker w (d.thread (s.workers w).exec)).setCall c pc) := by
  rw [h.lists w, hrun]
  exact (h.setLists w d).setCall c pc

/-- A section of a call that edits nothing. -/
theorem Shows.callRead (h : Shows workerCount v s) {i : PoolLock} {c : κ}
    {prog : Section (PoolData α i) α} {pc : Call α}
    (hrun : prog.run false (v.data i) = (v.data i, .call pc)) :
    Shows workerCount ⟨Function.update v.data i (prog.run false (v.data i)).1,
      Function.update v.pc (.caller c) (prog.run false (v.data i)).2⟩ (s.setCall c pc) := by
  rw [hrun]
  exact (h.reread i).setCall c pc

/-- A section of a call that leaves the request table as `table`. -/
theorem Shows.callReqHash (h : Shows workerCount v s) {c : κ} {prog : Section ReqHash α}
    {table : ReqHash} {pc : Call α} (hrun : prog.run false s.reqHash = (table, .call pc)) :
    Shows workerCount ⟨Function.update v.data .reqHash (prog.run false (v.data .reqHash)).1,
      Function.update v.pc (.caller c) (prog.run false (v.data .reqHash)).2⟩
      ((s.setReqHash table).setCall c pc) := by
  rw [h.reqHash, hrun]
  exact (h.setReqHash table).setCall c pc

/-- A section of a call that leaves `taskId` as the next id. -/
theorem Shows.callTaskId (h : Shows workerCount v s) {c : κ} {prog : Section Nat α}
    {taskId : Nat} {pc : Call α} (hrun : prog.run false s.nextTaskId = (taskId, .call pc)) :
    Shows workerCount ⟨Function.update v.data .taskId (prog.run false (v.data .taskId)).1,
      Function.update v.pc (.caller c) (prog.run false (v.data .taskId)).2⟩
      ({ s with nextTaskId := taskId }.setCall c pc) := by
  rw [h.taskId, hrun]
  exact (h.setTaskId taskId).setCall c pc

/-- A section is a step of the pool. -/
theorem shows_whole (h : Shows workerCount v s) {t : PoolThread κ} {p : Point α} {a : Input α}
    {i : PoolLock} {prog : Section (PoolData α i) α} (hp : v.pc t = p)
    (hrow : PoolRow workerCount true t p a (.lock i prog)) :
    ∃ b s', poolAction (.whole t a) = some b ∧ s.step b = some s' ∧
      Shows workerCount ⟨Function.update v.data i (prog.run false (v.data i)).1,
        Function.update v.pc t (prog.run false (v.data i)).2⟩ s' := by
  cases hrow with
  | @wake c reqId userData =>
    refine ⟨.wake c reqId userData, _, rfl, ?_, h.callReqHash rfl⟩
    simp only [PoolSys.step, PoolSys.isIdle, h.call_eq hp, if_true]
    cases s.reqHash.find reqId <;> rfl
  | @cancel c reqId _ =>
    refine ⟨.cancel c reqId, _, rfl, ?_, h.callReqHash rfl⟩
    simp only [PoolSys.step, PoolSys.isIdle, h.call_eq hp, h.isRunning, if_true]
    cases s.reqHash.find reqId <;> rfl
  | @sample c sub made i best alloc hi =>
    refine ⟨.advance c alloc, s.setCall c
      (let (b, stop) := selectBestWorkerStep (s.workers i) i best
        if stop then selectedWorker sub made i else .selecting sub made (i + 1) (some b)),
      rfl, ?_, h.callRead ?_⟩
    · simp only [PoolSys.step, PoolSys.advance, h.call_eq hp, h.workerCount_eq, if_pos hi]
      split <;> rfl
    · rw [h.lists i]
      rfl
  | @build c sub worker made src todo alloc halloc =>
    refine ⟨.advance c alloc, _, rfl, ?_, h.callTaskId rfl⟩
    simp only [PoolSys.step, PoolSys.advance, h.call_eq hp]
    split <;> rfl
  | @unpushed c sub w nodes hsingle =>
    refine ⟨.advance c .nodeFail, _, rfl, ?_, h.callRead rfl⟩
    simp only [PoolSys.step, PoolSys.advance, h.call_eq hp, hsingle]
    rfl
  | @attach c sub w nodes alloc halloc =>
    refine ⟨.advance c alloc, _, rfl, ?_,
      Shows.record (h.callWorker rfl) (nodes.map (.attached c w))⟩
    simp only [PoolSys.step, PoolSys.advance, h.call_eq hp, if_neg halloc]
    rfl
  | @record c sub w nodes alloc =>
    refine ⟨.advance c alloc, _, rfl, ?_, h.callReqHash rfl⟩
    simp only [PoolSys.step, PoolSys.advance, h.call_eq hp]
  | @push c reqId userData w =>
    refine ⟨.advance c .ok, _, rfl, ?_, h.callWorker rfl⟩
    simp only [PoolSys.step, PoolSys.advance, h.call_eq hp, if_true]
    rfl
  | @unwoken c reqId userData w alloc halloc =>
    refine ⟨.advance c alloc, _, rfl, ?_, h.callRead rfl⟩
    simp only [PoolSys.step, PoolSys.advance, h.call_eq hp, if_neg halloc]
  | @drop c reqId w alloc =>
    refine ⟨.advance c alloc, _, rfl, ?_,
      Shows.record (h.callWorker rfl) ((cancelledNodes (s.workers w) reqId).map (.cancelled c))⟩
    simp only [PoolSys.step, PoolSys.advance, h.call_eq hp]
    rfl
  | @uncount c reqId removed alloc =>
    refine ⟨.advance c alloc, _, rfl, ?_, h.callReqHash rfl⟩
    simp only [PoolSys.step, PoolSys.advance, h.call_eq hp]
  | routine hw =>
    obtain ⟨s', hs, hshows⟩ := shows_routine h hw hp
    exact ⟨_, s', rfl, hs, hshows⟩
  | @account w task reqId ret =>
    have hexec := h.exec_eq hp
    refine ⟨.account w, _, rfl, by simp only [PoolSys.step, PoolSys.account, hexec]; rfl, ?_⟩
    rw [h.reqHash]
    exact Shows.record ((h.setExec w .loop).setReqHash _) _
  | signal => cases hp.symm.trans h.destroyer

/-- **Each section that is published is one step of the pool.** -/
theorem shows_step (h : Shows workerCount v s) {b : AtomicAction (PoolThread κ) (Input α)}
    (hs : v.step (poolCode κ α workerCount true) b = some v') :
    ∃ a s', poolAction b = some a ∧ s.step a = some s' ∧ Shows workerCount v' s' := by
  cases atomic_stepped hs with
  | hop hnext => exact shows_hop h rfl (poolNext_row hnext)
  | whole hnext => exact shows_whole h rfl (poolNext_row hnext)
  | expire hq => cases hq

omit [DecidableEq κ] in
/-- At the start the locks show the pool at its start. -/
theorem shows_start :
    Shows workerCount ⟨startData α, startPoint⟩ (PoolSys.start workerCount : PoolSys κ α) :=
  ⟨fun _ => rfl, fun _ => rfl, fun _ => rfl, rfl, rfl, rfl, rfl, rfl⟩

/-- A run of the code with its sections as steps is a run of the pool. -/
theorem shows_reach {g : PoolAction κ α → Prop}
    (h : (Monitor.atomic (poolCode κ α workerCount true) (startData α) startPoint).Reach
      (fun _ b => ∀ a, poolAction b = some a → g a) v) :
    ∃ s, (poolSystem κ α workerCount).Reach (fun _ a => g a) s ∧ Shows workerCount v s := by
  refine h.invariant
    (I := fun v =>
      ∃ s, (poolSystem κ α workerCount).Reach (fun _ a => g a) s ∧ Shows workerCount v s) ?_ ?_
  · rintro v rfl
    exact ⟨_, .init rfl, shows_start⟩
  · rintro v b v' - ⟨s, hr, hshows⟩ hg hs
    obtain ⟨a, s', ha, hstep, hshows'⟩ := shows_step hshows hs
    exact ⟨s', .step hr (hg a ha) hstep, hshows'⟩

/-- What the steps of the pool in `g` allow, in the pool access by access: whatever section ends, or
    step without a lock is taken, is allowed. -/
def Allows (workerCount : Nat) (g : PoolAction κ α → Prop)
    (s : LockedPool κ α)
    (b : Monitor.Action (PoolThread κ) (Input α)) : Prop :=
  ∀ c, s.commits (poolCode κ α workerCount true) b = some c → ∀ a, poolAction c = some a → g a

/-- One caller queues a task on a sleeping worker, and another has just queued its wake-up and is
    about to signal. -/
def wakingRun : List (Monitor.Action (PoolThread Nat) (Input Unit)) :=
  let sub : Submission Unit := ⟨false, [⟨0#64, 1#64, (), false, 0#64⟩], none, none⟩
  [.go (.worker 0) .pop, .act (.worker 0), .act (.worker 0), .act (.worker 0), .act (.worker 0),
    .go (.caller 0) (.submit sub .ok),
    .go (.caller 0) (.advance .ok), .act (.caller 0), .act (.caller 0), .act (.caller 0),
    .act (.caller 0),
    .go (.caller 0) (.advance .ok), .act (.caller 0), .act (.caller 0),
    .go (.caller 0) (.advance .ok), .act (.caller 0), .act (.caller 0),
    .go (.caller 0) (.advance .ok), .act (.caller 0), .act (.caller 0),
    .go (.caller 1) (.wake 1#64 0#64), .act (.caller 1), .act (.caller 1),
    .go (.caller 1) (.advance .ok), .act (.caller 1)]

/-- The worker sleeps, a wake-up is queued, and nobody has called `thread_pool_destroy`. -/
def sleepsOver (s : LockedPool Nat Unit) : Bool :=
  (match s.thread (.worker 0) with
    | .asleep (.worker 0) (.exec .loop) => true
    | _ => false) && !(s.data (.worker 0)).pending.isEmpty && !s.flag

/-- A worker may be asleep over a wake-up: its signal is still to come. -/
theorem sleepsOver_reach : ∃ s, (poolMonitor Nat Unit 1).Reach (fun _ _ => True) s ∧
    s.thread (.worker 0) = .asleep (.worker 0) (.exec .loop) ∧
    (s.data (.worker 0)).pending ≠ [] ∧ s.flag = false := by
  obtain ⟨s, hr, hs⟩ := poolMonitor_exec (κ := Nat) 1 wakingRun sleepsOver (by decide +kernel)
  refine ⟨s, hr, ?_⟩
  simp only [sleepsOver, Bool.and_eq_true, Bool.not_eq_true'] at hs
  obtain ⟨⟨hthread, hpending⟩, hflag⟩ := hs
  refine ⟨?_, ?_, hflag⟩
  · split at hthread
    · assumption
    · cases hthread
  · rintro heq
    rw [heq] at hpending
    cases hpending

/-- The pool's sections are atomic: until `thread_pool_destroy` is called, what is seen of the pool
    between sections is a state of `poolSystem`, whatever runs inside the sections. -/
theorem sections_refine {g : PoolAction κ α → Prop}
    {s : LockedPool κ α}
    (h : (poolMonitor κ α workerCount).Reach (Allows workerCount g) s) (hflag : s.flag = false) :
    ∃ p, (poolSystem κ α workerCount).Reach (fun _ a => g a) p ∧ Shows workerCount s.view p :=
  shows_reach (refines h hflag)

/-- That state, and the pool it shows. -/
theorem sections_refine_waking : ∃ (s : LockedPool Nat Unit) (p : PoolSys Nat Unit),
    s.thread (.worker 0) = .asleep (.worker 0) (.exec .loop) ∧
    (s.data (.worker 0)).pending ≠ [] ∧ (poolSystem Nat Unit 1).Reach (fun _ _ => True) p ∧
    Shows 1 s.view p := by
  obtain ⟨s, hr, hthread, hpending, hflag⟩ := sleepsOver_reach
  obtain ⟨p, hp, hshows⟩ := sections_refine (g := fun _ => True)
    (hr.mono fun _ _ _ _ _ _ _ => trivial) hflag
  exact ⟨s, p, hthread, hpending, hp, hshows⟩

end Shows

/-! ## Workers wake

The two conditions of `Monitor`, shown of the sections above; the rest is there. -/

section Watch

variable {workerCount w : Nat}

/-- There is something to do: `worker->pending_req_head != NULL`. -/
def hasPending (d : WorkerShared α) : Bool := !d.pending.isEmpty

/-- `shutdown_threads` has not come to worker `w` yet. -/
def beforeWorker (w : Nat) : Point α → Prop
  | .shutting i => i ≤ w
  | _ => False

/-- A worker that serves a wake-up has looked for one. -/
theorem serve_careful (d : WorkerShared α) :
    serveSection.Careful hasPending d := by
  simp only [serveSection, Prog.Careful]
  split
  · trivial
  · simp only [Prog.Careful]
    split <;> trivial

/-- A worker sleeps only after it has looked for a wake-up. -/
theorem routine_careful (d : WorkerShared α) : routineSection.Careful hasPending d := by
  intro isDestroying
  cases isDestroying with
  | true => trivial
  | false =>
    show Prog.Careful hasPending (if d.pending.isEmpty then _ else _) d
    by_cases hempty : d.pending.isEmpty = true
    · rw [if_pos hempty]
      simpa [Prog.Careful, hasPending] using hempty
    · rw [if_neg hempty]
      intro isDestroying
      cases isDestroying with
      | true => trivial
      | false => exact serve_careful d

/-- Whoever queues a wake-up signals. -/
theorem worker_watched (isRunning : Bool) :
    Watched (poolCode κ α workerCount isRunning) (.worker w) hasPending where
  alert := by
    intro t p a prog h hne
    cases poolNext_row h with
    | routine => exact absurd rfl hne
    | sample => exact fun _ => ⟨fun h₀ h₁ => absurd (h₀.symm.trans h₁) nofun, fun _ =>
        ⟨fun h₀ h₁ => absurd (h₀.symm.trans h₁) nofun, fun _ =>
          ⟨fun h₀ h₁ => absurd (h₀.symm.trans h₁) nofun, trivial⟩⟩⟩
    | unpushed => trivial
    | attach => exact fun d => ⟨fun h₀ h₁ => absurd (h₀.symm.trans h₁) nofun, trivial⟩
    | push => exact fun d => ⟨fun _ _ => trivial, trivial⟩
    | unwoken => trivial
    | drop =>
      refine fun d => ⟨fun h₀ h₁ => absurd (h₀.symm.trans h₁) nofun,
        fun d => ⟨fun h₀ h₁ => ?_, trivial⟩⟩
      -- what is filtered out of nothing is nothing
      have hnil : d.pending = [] := by simpa [hasPending] using h₀
      simp [hasPending, hnil] at h₁
    | signal => trivial
  careful := by
    intro p a prog h d
    cases poolNext_row h with
    | routine =>
      exact routine_careful d

/-- `shutdown_threads` comes to every worker. -/
theorem worker_heeded (isRunning : Bool) (hw : w < workerCount) :
    Heeded (poolCode κ α workerCount isRunning) (.worker w) (beforeWorker w) where
  brisk := by
    intro p a prog h d
    cases poolNext_row h with
    | routine => exact id
  raised := by
    intro t p a q h
    cases poolNext_row h
    exact ⟨nofun, Nat.zero_le w⟩
  hop := by
    intro t p a q h ho
    cases poolNext_row h with
    | joins hi => exact absurd (Nat.lt_of_le_of_lt ho hw) hi
    | _ => exact ho.elim
  signals := by
    intro t p a prog h ho d
    cases poolNext_row h with
    | signal => trivial
    | _ => exact ho.elim
  leaves := by
    intro t p a j prog h hj ho
    cases poolNext_row h with
    | @signal i _ =>
      have hi : i ≤ w := ho
      have hne : i ≠ w := fun heq => hj (by rw [heq])
      show i + 1 ≤ w
      omega
    | _ => exact ho.elim

variable [DecidableEq κ] {s : LockedPool κ α}
  {ok : LockedPool κ α →
    Monitor.Action (PoolThread κ) (Input α) → Prop}

omit [DecidableEq κ] in
/-- `worker_routine` stays in its loop, or leaves it. -/
theorem routine_ends {Q : Point α → Prop} (hexec : ∀ exec, Q (.exec exec)) (hended : Q .ended) :
    (routineSection : Section (WorkerShared α) α).Ends Q := by
  have hserve : (serveSection : Section (WorkerShared α) α).Ends Q := by
    intro d
    show Prog.Ends Q (match d.pending with | [] => _ | p :: _ => _)
    split
    · exact fun _ => hexec _
    · intro d
      dsimp only
      split <;> exact fun _ => hexec _
  rintro (_ | _)
  · intro d
    show Prog.Ends Q (if d.pending.isEmpty then _ else _)
    split
    · exact fun _ => hexec _
    · rintro (_ | _)
      · exact hserve
      · exact fun _ => hended
  · exact fun _ => hended

/-- Only the thread that destroys the pool is ever in `shutdown_threads`. -/
theorem shutting_destroyer (h : (poolMonitor κ α workerCount).Reach ok s) {t : PoolThread κ}
    {i : Nat} (hi : (s.thread t).pc = .shutting i) : t = .destroyer := by
  by_contra ht
  refine placed_reach (Q := fun t p => t ≠ PoolThread.destroyer → ∀ i, p ≠ .shutting i)
    ?_ ?_ ?_ ?_ ?_ h t ht i hi
  · rintro (c | w | _) - j hj
    all_goals cases hj
  · intro t p a q hnext hQ ht
    cases poolNext_row hnext with
    | joins => exact absurd rfl ht
    | _ => exact fun _ => nofun
  · intro t p a q hnext hQ ht
    cases poolNext_row hnext with
    | destroy => exact absurd rfl ht
  · intro t p a i prog hnext hQ
    cases poolNext_row hnext with
    | signal => exact fun ht => absurd rfl ht
    | routine => exact routine_ends (fun _ _ _ => nofun) fun _ _ => nofun
    | _ => simp [Prog.Ends, wakeSection, lookupSection, sampleSection, taskIdSection, attachSection,
        recordSection, pushSection, cancelSection, uncountSection, accountSection]
  · intro t p a q hq
    cases hq

/-- Over `is_destroying` a worker sleeps only until `shutdown_threads` comes to it. -/
theorem unshut_of_asleep (h : (poolMonitor κ α workerCount).Reach ok s) (hw : w < workerCount)
    {p : Point α} (hp : s.thread (.worker w) = .asleep (.worker w) p) (hflag : s.flag = true) :
    ∃ i, (s.thread .destroyer).pc = .shutting i ∧ i ≤ w := by
  obtain ⟨t, -, ho⟩ := no_lost_flag (worker_heeded true hw) h hp hflag
  have hpoint := ho.point
  cases hpc : (s.thread t).pc with
  | shutting i =>
    obtain rfl := shutting_destroyer h hpc
    rw [hpc] at hpoint
    exact ⟨i, hpc, hpoint⟩
  | call | exec | ended | unasked | joining =>
    rw [hpc] at hpoint
    exact hpoint.elim

/-- No wake-up is lost: if a worker sleeps and has an accepted wake-up, the thread that holds its
    mutex is going to signal, and the worker wakes as that thread goes on to the unlock; and if it
    sleeps with `is_destroying` set, `shutdown_threads` has not come to it yet. -/
theorem worker_awake (h : (poolMonitor κ α workerCount).Reach ok s) (hw : w < workerCount)
    {p : Point α} (hp : s.thread (.worker w) = .asleep (.worker w) p) :
    ((s.data (.worker w)).pending ≠ [] → ∃ t, t ≠ .worker w ∧
      (s.thread t).Signaling (.worker w) s.data ∧
      ∃ s', ByActs (poolCode κ α workerCount true) t s s' ∧ s'.holder (.worker w) = none ∧
        s'.thread (.worker w) = .free p) ∧
    (s.flag = true → ∃ i, (s.thread .destroyer).pc = .shutting i ∧ i ≤ w) := by
  refine ⟨fun hpending => wakes (worker_watched true) h hp ?_, unshut_of_asleep h hw hp⟩
  simpa [hasPending] using hpending

/-- The thread whose signal is still to come wakes the worker by its own steps. -/
theorem worker_awake_waking : ∃ (s : LockedPool Nat Unit) (t : PoolThread Nat),
    s.thread (.worker 0) = .asleep (.worker 0) (.exec .loop) ∧
    t ≠ .worker 0 ∧ (s.thread t).Signaling (.worker 0) s.data ∧
    ∃ s', ByActs (poolCode Nat Unit 1 true) t s s' ∧
      s'.thread (.worker 0) = .free (.exec .loop) := by
  obtain ⟨s, hr, hthread, hpending, -⟩ := sleepsOver_reach
  obtain ⟨t, ht, hsig, s', hby, -, hfree⟩ := (worker_awake hr (by decide) hthread).1 hpending
  exact ⟨s, t, hthread, ht, hsig, s', hby, hfree⟩

/-- Who waits for a worker's mutex gets it: the thread that holds it can go on to the unlock. -/
theorem mutex_comes (h : (poolMonitor κ α workerCount).Reach ok s)
    (hfree : s.thread (.worker w) = .free (.exec .loop)) :
    ∃ t s₁, ByActs (poolCode κ α workerCount true) t s s₁ ∧ s₁.holder (.worker w) = none ∧
      s₁.thread (.worker w) = .free (.exec .loop) := by
  cases hholder : s.holder (.worker w) with
  | none => exact ⟨.worker w, s, .init rfl, hholder, hfree⟩
  | some t =>
    obtain ⟨p, a, whole, rest, hin⟩ := (sound_reach h).held hholder
    obtain ⟨s₁, -, hby, hholder₁, -, -, -, hothers, -⟩ := unlocks
      (poolCode κ α workerCount true) hin
    have hne : (.worker w : PoolThread κ) ≠ t := by
      rintro rfl
      cases hfree.symm.trans hin
    refine ⟨t, s₁, hby, hholder₁, ?_⟩
    rcases hothers _ hne with heq | heq <;> rw [heq, hfree]
    rfl

/-- A worker with a wake-up to serve, or one that has not gone to sleep, gets round its loop: the
    thread that holds its mutex gives it back, by its own steps, and then the worker does
    an iteration of `worker_routine` on what it finds, by its own. -/
theorem worker_iterates (h : (poolMonitor κ α workerCount).Reach ok s) (hw : w < workerCount)
    (hflag : s.flag = false)
    (hidle : s.thread (.worker w) = .free (.exec .loop) ∨
      s.thread (.worker w) = .asleep (.worker w) (.exec .loop) ∧
        (s.data (.worker w)).pending ≠ []) :
    ∃ t s₁ s₂, ByActs (poolCode κ α workerCount true) t s s₁ ∧
      ByThread (poolCode κ α workerCount true) (.worker w) s₁ s₂ ∧ s₂.holder (.worker w) = none ∧
      s₂.data (.worker w) = (workerRoutine ((s₁.data (.worker w)).thread .loop)).lists ∧
      (s₂.thread (.worker w)).pc =
        .exec (workerRoutine ((s₁.data (.worker w)).thread .loop)).exec := by
  obtain ⟨t, s₁, hby, hholder, hfree⟩ : ∃ t s₁,
      ByActs (poolCode κ α workerCount true) t s s₁ ∧ s₁.holder (.worker w) = none ∧
      s₁.thread (.worker w) = .free (.exec .loop) := by
    rcases hidle with hfree | ⟨hasleep, hpending⟩
    · exact mutex_comes h hfree
    · obtain ⟨t, -, -, s₁, hby, hholder, hfree⟩ := wakes (worker_watched true) h hasleep
        (by simpa [hasPending] using hpending)
      exact ⟨t, s₁, hby, hholder, hfree⟩
  have hnext : (poolCode κ α workerCount true).next (.worker w) (.exec .loop) .pop =
      some (.lock (.worker w) routineSection) := if_pos hw
  obtain ⟨s₂, q, hby₂, hholder₂, hend, hrun⟩ := runs hfree hnext hholder
  rw [hby.flag_eq, hflag, routine_run] at hrun
  obtain ⟨hdata, hq⟩ := Prod.mk.inj hrun
  refine ⟨t, s₁, s₂, hby, hby₂, hholder₂, hdata, ?_⟩
  rw [← hq, hend]
  split <;> rfl

/-- The worker that is woken goes round its loop once. -/
theorem worker_iterates_waking : ∃ (s s₁ s₂ : LockedPool Nat Unit) (t : PoolThread Nat),
    (s.data (.worker 0)).pending ≠ [] ∧
    ByActs (poolCode Nat Unit 1 true) t s s₁ ∧
    ByThread (poolCode Nat Unit 1 true) (.worker 0) s₁ s₂ ∧
    s₂.data (.worker 0) = (workerRoutine ((s₁.data (.worker 0)).thread .loop)).lists := by
  obtain ⟨s, hr, hthread, hpending, hflag⟩ := sleepsOver_reach
  obtain ⟨t, s₁, s₂, hby, hby₂, -, hdata, -⟩ :=
    worker_iterates hr (by decide) hflag (.inr ⟨hthread, hpending⟩)
  exact ⟨s, s₁, s₂, t, hpending, hby, hby₂, hdata⟩

/-- `shutdown_threads` has signalled worker `w`. -/
def pastWorker (w : Nat) : Point α → Prop
  | .shutting i => w < i
  | .joining => True
  | _ => False

/-- Once the destroyer has passed a worker, `is_destroying` is set. -/
theorem flag_of_past (h : (poolMonitor κ α workerCount).Reach ok s)
    (hpast : pastWorker w (s.thread .destroyer).pc) : s.flag = true := by
  by_contra hflag
  have hall : (poolMonitor κ α workerCount).Reach (Allows workerCount fun _ => True) s :=
    h.mono fun _ _ _ _ _ _ _ => trivial
  obtain ⟨p, -, hshows⟩ := shows_reach (refines hall (Bool.eq_false_iff.mpr hflag))
  have hunasked : (s.thread .destroyer).pc = .unasked := hshows.destroyer
  rw [hunasked] at hpast
  exact hpast

/-- A pool that shuts down is not kept by an idle worker: once `shutdown_threads` has signalled it,
    it does not sleep any more, and where it is about to go round its loop, it can leave by its
    own steps once the thread that holds its mutex has given it back. -/
theorem worker_leaves (h : (poolMonitor κ α workerCount).Reach ok s) (hw : w < workerCount)
    (hpast : pastWorker w (s.thread .destroyer).pc) :
    (∀ p, s.thread (.worker w) ≠ .asleep (.worker w) p) ∧
    (s.thread (.worker w) = .free (.exec .loop) → ∃ t s₁ s₂,
      ByActs (poolCode κ α workerCount true) t s s₁ ∧
      ByThread (poolCode κ α workerCount true) (.worker w) s₁ s₂ ∧
      s₂.thread (.worker w) = .free .ended ∧ (s₂.data (.worker w)).state = .exit) := by
  have hflag := flag_of_past h hpast
  refine ⟨fun p hp => ?_, fun hfree => ?_⟩
  · obtain ⟨i, hi, hle⟩ := unshut_of_asleep h hw hp hflag
    rw [hi] at hpast
    have hlt : w < i := hpast
    omega
  · obtain ⟨t, s₁, hby, hholder, hfree₁⟩ := mutex_comes h hfree
    have hnext : (poolCode κ α workerCount true).next (.worker w) (.exec .loop) .pop =
        some (.lock (.worker w) routineSection) := if_pos hw
    obtain ⟨s₂, q, hby₂, -, hend, hrun⟩ := runs hfree₁ hnext hholder
    rw [hby.flag_eq, hflag] at hend hrun
    obtain ⟨hdata, hq⟩ := Prod.mk.inj hrun
    refine ⟨t, s₁, s₂, hby, hby₂, ?_, ?_⟩
    · rw [hend, hq]
      rfl
    · exact congrArg WorkerShared.state hdata

/-- A sleeping worker is shut down. -/
def shutdownRun : List (Monitor.Action (PoolThread Nat) (Input Unit)) :=
  [.go (.worker 0) .pop, .act (.worker 0), .act (.worker 0), .act (.worker 0), .act (.worker 0),
    .go .destroyer .destroy, .go .destroyer .shut, .act .destroyer, .act .destroyer]

/-- `shutdown_threads` is past the worker, which has not gone on yet. -/
def signalled (s : LockedPool Nat Unit) : Bool :=
  match s.thread .destroyer, s.thread (.worker 0) with
  | .free (.shutting 1), .free (.exec .loop) => (s.data (.worker 0)).state == .idle
  | _, _ => false

/-- A worker asleep when the pool is destroyed is woken, and leaves. -/
theorem worker_leaves_sleeper : ∃ (s s₁ s₂ : LockedPool Nat Unit) (t : PoolThread Nat),
    (s.data (.worker 0)).state = .idle ∧ ByActs (poolCode Nat Unit 1 true) t s s₁ ∧
    ByThread (poolCode Nat Unit 1 true) (.worker 0) s₁ s₂ ∧
    s₂.thread (.worker 0) = .free .ended ∧ (s₂.data (.worker 0)).state = .exit := by
  obtain ⟨s, hr, hs⟩ := poolMonitor_exec (κ := Nat) 1 shutdownRun signalled (by decide +kernel)
  unfold signalled at hs
  split at hs
  · rename_i hdestroyer hfree
    obtain ⟨-, hleaves⟩ := worker_leaves (w := 0) hr (by decide)
      (by rw [hdestroyer]; exact Nat.zero_lt_one)
    obtain ⟨t, s₁, s₂, hby, hby₂, hended, hexit⟩ := hleaves hfree
    exact ⟨s, s₁, s₂, t, beq_iff_eq.mp hs, hby, hby₂, hended, hexit⟩
  · cases hs

end Watch

end OsTransport
