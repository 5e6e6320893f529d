/-
  The thread pool as a transition system.

  Every call into the pool is a process of its own, named by an element of `κ`: a thread runs
  one call at a time, so "any number of threads" is "any number of processes".  A process
  advances by one locked section per step (`advance`); between two sections everything else may
  happen.  A worker thread takes three kinds of steps: an iteration of `worker_routine` under its
  mutex (`pop`), the return of the task function (`finish`), and the count-down of the request's
  context (`account`).

  `select_best_worker` looks at the workers one after the other, each under its own mutex, so
  its scan is a step per worker; the nodes of a batch are built one after the other because
  `generate_task_id` takes a lock for each.

  What a step took from the environment is part of the action: whether an allocation succeeds
  (`Alloc`) and what a task function returned.  `log` is a history variable: no step reads it.

  The source's `thread_pool_submit_batch_tasks` and `thread_pool_submit_task` are one submission with
  a flag `single`: the places they go through are the same, and where they differ (whether the worker
  or the node comes first, where the context is allocated, what is returned) the section asks for
  the flag.

  `Carries` is the one invariant proved here, since everything else needs it: the nodes of a
  submission on its way are those created from its tasks, with their request id and their order.
-/
import OsTransport.Pool
import OsTransport.Lib.Transition

namespace OsTransport

variable {κ α : Type*}

/-! ## Calls in progress

A call is at one of a few places between its locked sections, with what it has read so far. -/

/-- The outcome of the allocations of one section.  `nodeFail`: the `TaskNode` of a batch cannot be
    allocated, after its task id has been drawn. -/
inductive Alloc
  | ok
  | fail
  | nodeFail
  deriving DecidableEq, Repr

/-- The arguments of `thread_pool_submit_batch_tasks`, or of `thread_pool_submit_task` (`single`). -/
structure Submission (α : Type*) where
  single : Bool
  tasks : List (ThreadPoolTask α)
  completeCb : Option Nat
  batchCb : Option Nat

/-- `tasks[0].request_id`. -/
def Submission.requestId (sub : Submission α) : ReqId :=
  match sub.tasks with
  | [] => 0#64
  | t :: _ => t.requestId

/-- What a call has when it returns.  What its caller gets for it is an `Answer`
    (`OsTransport.PoolBooks`). -/
inductive CallResult
  /-- The ids a batch has noted. -/
  | taskIds (ids : List (BitVec 64))
  /-- `return task->task_id` of `thread_pool_submit_task`, with no lock held: a pointer to the task
      queued at the worker, whose id is yet to be read. -/
  | ofTasks (worker : Nat) (tasks : List Nat)
  /-- `NULL`, or `0`. -/
  | null
  | ok
  | err
  /-- How many tasks a cancel has freed.  `removed` is this as a `uint32_t`, and is returned as an
      `int`. -/
  | removed (count : Nat)
  deriving DecidableEq, Repr

/-- Where a call into the pool is.  A place is between two locked sections; what a section found
    under its lock is kept in it. -/
inductive Call (α : Type*)
  /-- No call in progress. -/
  | idle
  /-- `select_best_worker`, about to look at worker `i`. -/
  | selecting (sub : Submission α) (made : List (TaskNode α)) (i : Nat) (best : Option BestWorker)
  /-- `build_batch_nodes` (a batch has its worker by now, a single task has not). -/
  | building (sub : Submission α) (worker : Option Nat) (made : List (TaskNode α))
      (todo : List (ThreadPoolTask α))
  /-- About to append the nodes to the worker's queue. -/
  | attaching (sub : Submission α) (worker : Nat) (nodes : List (TaskNode α))
  /-- The nodes are queued, the context is not yet recorded. -/
  | recording (sub : Submission α) (worker : Nat) (nodes : List (TaskNode α))
  /-- A wake-up that has looked up its worker and not yet queued itself there. -/
  | waking (reqId : ReqId) (userData : BitVec 64) (worker : Nat)
  /-- A cancel that has looked up its worker and not yet edited its lists. -/
  | cancelling (reqId : ReqId) (worker : Nat)
  /-- A cancel that has freed so many tasks and not yet counted them off the context. -/
  | uncounting (reqId : ReqId) (removed : Nat)
  /-- The call has returned; its caller has not taken the result yet. -/
  | done (result : CallResult)

/-! ## The system

One step for each locked section.  The log is written and never read. -/

/-- What happened to tasks, wake-ups and callbacks, oldest first.  An event carries the task itself;
    what a callback is told are the values the source passes to it. -/
inductive PoolEvent (κ α : Type*)
  | attached (proc : κ) (worker : Nat) (task : TaskNode α)
  | taken (worker : Nat) (task : TaskNode α) (userData : BitVec 64)
  | missed (worker : Nat) (reqId : ReqId) (userData : BitVec 64)
  | finished (worker : Nat) (task : TaskNode α) (ret : Int)
  | cancelled (proc : κ) (task : TaskNode α)
  | completeCb (cb : Nat) (taskId : BitVec 64) (success : Bool)
  | batchCb (cb : Nat) (taskId : BitVec 64) (success : Bool)
  deriving DecidableEq

/-- A pool with the calls in progress on it. -/
structure PoolSys (κ α : Type*) extends Pool α where
  calls : κ → Call α
  log : List (PoolEvent κ α)

/-- A started pool on which nothing has been called. -/
def PoolSys.start (workerCount : Nat) : PoolSys κ α where
  toPool := .started workerCount
  calls _ := .idle
  log := []

inductive PoolAction (κ α : Type*)
  /-- Call `thread_pool_submit_batch_tasks` / `thread_pool_submit_task`. -/
  | submit (proc : κ) (sub : Submission α) (alloc : Alloc)
  /-- Call `thread_pool_wake_up_worker_by_req_id`. -/
  | wake (proc : κ) (reqId : ReqId) (userData : BitVec 64)
  /-- Call `thread_pool_cancel_tasks_by_req`. -/
  | cancel (proc : κ) (reqId : ReqId)
  /-- The next section of the call in progress. -/
  | advance (proc : κ) (alloc : Alloc)
  /-- The caller takes the result. -/
  | collect (proc : κ)
  | pop (worker : Nat)
  | finish (worker : Nat) (ret : Int)
  | account (worker : Nat)

/-- The node built for a submitted task: `create_batch_node`.  Its id is the low 64 bits of what the
    counter has come to. -/
def createBatchNode (serial : Nat) (reqId : ReqId) (completeCb : Option Nat)
    (src : ThreadPoolTask α) : TaskNode α where
  taskId := BitVec.ofNat 64 serial
  requestId := reqId
  taskArg := ⟨src.taskArg, completeCb, BitVec.ofNat 64 serial, reqId, serial⟩
  hasMatchUserCtx := src.hasMatchUserCtx
  matchUserCtx := src.matchUserCtx

/-- The state of a submission after its arguments were checked: `validate_and_select_worker` up to
    the selection, and the checks and first allocations of `thread_pool_submit_task`. -/
def beginSubmission (isRunning : Bool) (sub : Submission α) (alloc : Alloc) : Call α :=
  if sub.tasks.isEmpty || !isRunning
      || !sub.tasks.all (fun t => t.requestId == sub.requestId) || alloc != .ok then
    .done .null
  else if sub.single then .building sub none [] sub.tasks
  else .selecting sub [] 0 none

/-- Where a submission goes once its worker is chosen. -/
def selectedWorker (sub : Submission α) (made : List (TaskNode α)) (worker : Nat) : Call α :=
  if sub.single then .attaching sub worker made else .building sub (some worker) [] sub.tasks

/-- Where a submission goes once a node is built. -/
def builtNode (sub : Submission α) (worker : Option Nat) (made : List (TaskNode α)) :
    List (ThreadPoolTask α) → Call α
  | [] =>
    match worker with
    | some w => .attaching sub w made
    | none => .selecting sub made 0 none
  | todo => .building sub worker made todo

/-- What a submission has once its context is recorded: a batch the ids it noted as it drew them, a
    single call nothing but the pointer to its task. -/
def submitResult (sub : Submission α) (worker : Nat) (nodes : List (TaskNode α)) : CallResult :=
  if sub.single then .ofTasks worker (nodes.map fun t => t.taskArg.serial)
  else .taskIds (nodes.map ThreadPoolTask.taskId)

theorem submitResult_batch {sub : Submission α} (hbatch : sub.single = false) (worker : Nat)
    (nodes : List (TaskNode α)) :
    submitResult sub worker nodes = .taskIds (nodes.map ThreadPoolTask.taskId) :=
  if_neg (by rw [hbatch]; exact Bool.false_ne_true)

section Step

variable [DecidableEq κ]

namespace PoolSys

/-- Move process `c` to `pc`. -/
def setCall (s : PoolSys κ α) (c : κ) (pc : Call α) : PoolSys κ α :=
  { s with calls := Function.update s.calls c pc }

/-- Replace worker `w`. -/
def setWorker (s : PoolSys κ α) (w : Nat) (worker : WorkerThread α) : PoolSys κ α :=
  { s with workers := Function.update s.workers w worker }

/-- Replace the request table. -/
def setReqHash (s : PoolSys κ α) (t : ReqHash) : PoolSys κ α := { s with reqHash := t }

/-- Extend the history. -/
def record (s : PoolSys κ α) (events : List (PoolEvent κ α)) : PoolSys κ α :=
  { s with log := s.log ++ events }

/-- The next section of the call process `c` is in. -/
def advance (s : PoolSys κ α) (c : κ) (alloc : Alloc) : Option (PoolSys κ α) :=
  match s.calls c with
  | .idle => none
  | .done _ => none
  | .selecting sub made i best =>
    if i < s.workerCount then
      let (b, stop) := selectBestWorkerStep (s.workers i) i best
      if stop then some (s.setCall c (selectedWorker sub made i))
      else some (s.setCall c (.selecting sub made (i + 1) (some b)))
    else match best with
      | none => some (s.setCall c (.done .null))
      | some b => some (s.setCall c (selectedWorker sub made b.workerIdx))
  | .building sub worker made todo =>
    match todo, alloc with
    | [], _ => none
    | _, .fail => some (s.setCall c (.done .null))
    | src :: todo, alloc =>
      let s' := { s with nextTaskId := s.nextTaskId + 1 }
      if alloc = .nodeFail ∧ !sub.single then some (s'.setCall c (.done .null))
      else
        let node := createBatchNode s.nextTaskId sub.requestId sub.completeCb src
        some (s'.setCall c (builtNode sub worker (made ++ [node]) todo))
  | .attaching sub w nodes =>
    -- a single task still allocates its context and its node here
    if sub.single ∧ alloc ≠ .ok then some (s.setCall c (.done .null))
    else some (((s.setWorker w (attachNodesToWorker (s.workers w) nodes)).record
      (nodes.map (.attached c w))).setCall c (.recording sub w nodes))
  | .recording sub w nodes =>
    -- the context of a single task is allocated by now
    let ok := sub.single || alloc == .ok
    let batchCb := if sub.single then none else sub.batchCb
    some ((s.setReqHash (updateBatchContext s.reqHash ok sub.requestId w nodes.length batchCb)).setCall
      c (.done (submitResult sub w nodes)))
  | .waking reqId userData w =>
    if alloc = .ok then
      some ((s.setWorker w (workerPendingReqPush (s.workers w) reqId userData)).setCall c (.done .ok))
    else some (s.setCall c (.done .err))
  | .cancelling reqId w =>
    let nodes := cancelledNodes (s.workers w) reqId
    some (((s.setWorker w (cancelInWorkerQueue (s.workers w) reqId)).record
      (nodes.map (.cancelled c))).setCall c
        -- `removed` is a `uint32_t`
        (if nodes.length % 2 ^ 32 > 0 then .uncounting reqId nodes.length
          else .done (.removed nodes.length)))
  | .uncounting reqId removed =>
    some ((s.setReqHash (updateContextAfterCancel s.reqHash reqId removed)).setCall c
      (.done (.removed removed)))

/-- One iteration of `worker_routine` of worker `w`. -/
def pop (s : PoolSys κ α) (w : Nat) : Option (PoolSys κ α) :=
  match (s.workers w).exec with
  | .loop =>
    if w < s.workerCount then
      let worker := workerRoutine (s.workers w)
      let events : List (PoolEvent κ α) :=
        match (s.workers w).pending, worker.exec with
        | [], _ => []
        | _ :: _, .running task _ userData => [.taken w task userData]
        | p :: _, _ => [.missed w p.requestId p.userData]
      some ((s.setWorker w worker).record events)
    else none
  | _ => none

/-- The events of `internal_task_wrapper` after the user function returned. -/
def finishEvents (w : Nat) (task : TaskNode α) (ret : Int) : List (PoolEvent κ α) :=
  .finished w task ret ::
    (match task.taskArg.completeCb with
      | some cb => [.completeCb cb task.taskArg.taskId (ret == 0)]
      | none => [])

/-- `batch_cb(0, true, batch_data)`: the call at the end of `worker_process_task`. -/
def batchCbEvent (cb : Nat) : PoolEvent κ α := .batchCb cb 0#64 true

/-- The task function of worker `w` returned `ret`. -/
def finish (s : PoolSys κ α) (w : Nat) (ret : Int) : Option (PoolSys κ α) :=
  match (s.workers w).exec with
  | .running task reqId _ =>
    some ((s.setWorker w { s.workers w with exec := .returned task reqId ret }).record
      (finishEvents w task ret))
  | _ => none

/-- The rest of `worker_process_task` of worker `w`. -/
def account (s : PoolSys κ α) (w : Nat) : Option (PoolSys κ α) :=
  match (s.workers w).exec with
  | .returned _ reqId _ =>
    some (((s.setReqHash (accountTask s.reqHash reqId)).setWorker w
      { s.workers w with exec := .loop }).record
        ((accountBatchCb s.reqHash reqId).toList.map batchCbEvent))
  | _ => none

/-- A call starts only in a process that has none in progress. -/
def isIdle (s : PoolSys κ α) (c : κ) : Bool :=
  match s.calls c with
  | .idle => true
  | _ => false

/-- One step of the pool. -/
def step (s : PoolSys κ α) : PoolAction κ α → Option (PoolSys κ α)
  | .submit c sub alloc =>
    if s.isIdle c then some (s.setCall c (beginSubmission s.isRunning sub alloc)) else none
  | .wake c reqId userData =>
    if s.isIdle c then
      match s.reqHash.find reqId with
      | none => some (s.setCall c (.done .err))
      | some ctx => some (s.setCall c (.waking reqId userData ctx.workerIdx))
    else none
  | .cancel c reqId =>
    if s.isIdle c then
      if !s.isRunning then some (s.setCall c (.done .err))
      else match s.reqHash.find reqId with
        | none => some (s.setCall c (.done (.removed 0)))
        | some ctx => some (s.setCall c (.cancelling reqId ctx.workerIdx))
    else none
  | .advance c alloc => s.advance c alloc
  | .collect c =>
    match s.calls c with
    | .done _ => some (s.setCall c .idle)
    | _ => none
  | .pop w => s.pop w
  | .finish w ret => s.finish w ret
  | .account w => s.account w

end PoolSys

/-- All runs of a pool with `workerCount` workers. -/
def poolSystem (κ α : Type*) [DecidableEq κ] (workerCount : Nat) :
    Transition.System (PoolSys κ α) (PoolAction κ α) :=
  .ofFun (· = PoolSys.start workerCount) PoolSys.step

/-- A run of the pool may be evaluated. -/
theorem poolSystem_exec {workerCount : Nat} (okb : PoolSys κ α → PoolAction κ α → Bool)
    {ok : PoolSys κ α → PoolAction κ α → Prop} (hok : ∀ s a, okb s a = true → ok s a)
    (as : List (PoolAction κ α)) (P : PoolSys κ α → Bool)
    (h : (Transition.exec okb PoolSys.step (PoolSys.start workerCount) as).any P = true) :
    ∃ s, (poolSystem κ α workerCount).Reach ok s ∧ P s = true :=
  Transition.System.Reach.of_exec (· = PoolSys.start workerCount) okb hok rfl as P h

/-! ## What a submission carries

The nodes a call is about to queue are those built of its tasks, in their order, all of one id. -/

omit [DecidableEq κ]

/-- `node` was built for `src` by the submission `sub`.  Its argument is the wrapper around the
    caller's task, and its id is drawn from the counter. -/
def Submission.Created (sub : Submission α) (src : ThreadPoolTask α) (node : TaskNode α) : Prop :=
  ∃ serial, node = createBatchNode serial sub.requestId sub.completeCb src

/-- The nodes a call holds were built for the tasks it was given, in their order, and those tasks
    have one request id. -/
def Call.Carries : Call α → Prop
  | .selecting sub made _ _ =>
    (∀ t ∈ sub.tasks, t.requestId = sub.requestId) ∧
      (sub.single = true → List.Forall₂ sub.Created sub.tasks made)
  | .building sub _ made todo =>
    (∀ t ∈ sub.tasks, t.requestId = sub.requestId) ∧
      ∃ built, sub.tasks = built ++ todo ∧ List.Forall₂ sub.Created built made
  | .attaching sub _ nodes =>
    (∀ t ∈ sub.tasks, t.requestId = sub.requestId) ∧ List.Forall₂ sub.Created sub.tasks nodes
  | .recording sub _ nodes =>
    (∀ t ∈ sub.tasks, t.requestId = sub.requestId) ∧ List.Forall₂ sub.Created sub.tasks nodes
  | _ => True

def PoolSys.Carries (s : PoolSys κ α) : Prop := ∀ c, (s.calls c).Carries

/-- Each node was built for one of the tasks. -/
theorem created_of_mem {sub : Submission α} {tasks : List (ThreadPoolTask α)}
    {nodes : List (TaskNode α)} (h : List.Forall₂ sub.Created tasks nodes) {t : TaskNode α}
    (ht : t ∈ nodes) : ∃ src ∈ tasks, sub.Created src t := by
  induction h with
  | nil => cases ht
  | @cons src node _ _ hnode _ ih =>
    rcases List.mem_cons.mp ht with rfl | ht
    · exact ⟨src, List.mem_cons_self, hnode⟩
    · obtain ⟨src', hsrc', hnode'⟩ := ih ht
      exact ⟨src', List.mem_cons_of_mem _ hsrc', hnode'⟩

theorem requestId_of_created {sub : Submission α} {tasks : List (ThreadPoolTask α)}
    {nodes : List (TaskNode α)} (h : List.Forall₂ sub.Created tasks nodes) :
    ∀ t ∈ nodes, t.requestId = sub.requestId := by
  intro t ht
  obtain ⟨src, -, serial, rfl⟩ := created_of_mem h ht
  rfl

theorem carries_beginSubmission (b : Bool) (sub : Submission α) (alloc : Alloc) :
    (beginSubmission b sub alloc).Carries := by
  unfold beginSubmission
  split
  · trivial
  · rename_i h
    have hid : ∀ t ∈ sub.tasks, t.requestId = sub.requestId := by
      simp only [Bool.or_eq_true, not_or, Bool.not_eq_true', Bool.not_eq_true, Bool.not_eq_false,
        List.all_eq_true, beq_iff_eq] at h
      exact h.1.2
    split
    · exact ⟨hid, [], rfl, .nil⟩
    · rename_i hsingle
      exact ⟨hid, fun hs => absurd hs hsingle⟩

theorem carries_selectedWorker {sub : Submission α} {made : List (TaskNode α)} (w : Nat)
    (hid : ∀ t ∈ sub.tasks, t.requestId = sub.requestId)
    (h : sub.single = true → List.Forall₂ sub.Created sub.tasks made) :
    (selectedWorker sub made w).Carries := by
  unfold selectedWorker
  split
  · rename_i hsingle
    exact ⟨hid, h hsingle⟩
  · exact ⟨hid, [], rfl, .nil⟩

theorem carries_builtNode {sub : Submission α} {made : List (TaskNode α)} (w : Option Nat)
    (built : List (ThreadPoolTask α)) {todo : List (ThreadPoolTask α)}
    (hid : ∀ t ∈ sub.tasks, t.requestId = sub.requestId)
    (htasks : sub.tasks = built ++ todo) (h : List.Forall₂ sub.Created built made) :
    (builtNode sub w made todo).Carries := by
  cases todo with
  | nil =>
    rw [List.append_nil] at htasks
    rw [← htasks] at h
    cases w with
    | none => exact ⟨hid, fun _ => h⟩
    | some w => exact ⟨hid, h⟩
  | cons src todo => exact ⟨hid, built, htasks, h⟩

namespace PoolSys

variable [DecidableEq κ] {s s' : PoolSys κ α}

theorem carries_setCall {c : κ} {pc : Call α} (h : s.Carries) (hpc : pc.Carries) :
    (s.setCall c pc).Carries := by
  intro c'
  by_cases hc : c' = c
  · subst hc
    simpa only [setCall, Function.update_self] using hpc
  · simpa only [setCall, Function.update_of_ne hc] using h c'

theorem carries_advance {c : κ} {alloc : Alloc} (h : s.Carries) (hs : s.advance c alloc = some s') :
    s'.Carries := by
  have hpc := h c
  have hcall : ∀ {s₁ : PoolSys κ α} {pc : Call α}, s₁.calls = s.calls → pc.Carries →
      (s₁.setCall c pc).Carries := fun hs₁ hpc =>
    carries_setCall (fun c' => by rw [hs₁]; exact h c') hpc
  unfold advance at hs
  split at hs
  · cases hs
  · cases hs
  · rename_i sub made i best hc
    rw [hc] at hpc
    simp only at hs
    split at hs
    · split at hs <;> cases hs
      · exact hcall rfl (carries_selectedWorker i hpc.1 hpc.2)
      · exact hcall rfl ⟨hpc.1, hpc.2⟩
    · split at hs <;> cases hs
      · exact hcall rfl trivial
      · exact hcall rfl (carries_selectedWorker _ hpc.1 hpc.2)
  · rename_i sub worker made todo hc
    rw [hc] at hpc
    obtain ⟨hid, built, htasks, hbuilt⟩ := hpc
    split at hs
    · cases hs
    · cases hs
      exact hcall rfl trivial
    · rename_i src todo _
      split at hs <;> cases hs
      · exact hcall rfl trivial
      · refine hcall rfl (carries_builtNode worker (built ++ [src]) hid ?_ ?_)
        · rw [htasks, List.append_assoc, List.singleton_append]
        · exact List.rel_append hbuilt (.cons ⟨_, rfl⟩ .nil)
  · rename_i sub w nodes hc
    rw [hc] at hpc
    split at hs <;> cases hs
    · exact hcall rfl trivial
    · exact hcall rfl hpc
  · cases hs
    exact hcall rfl trivial
  · split at hs <;> cases hs <;> exact hcall rfl trivial
  · cases hs
    refine hcall rfl ?_
    split <;> trivial
  · cases hs
    exact hcall rfl trivial

theorem carries_step {a : PoolAction κ α} (h : s.Carries) (hs : s.step a = some s') :
    s'.Carries := by
  cases a with
  | submit c sub alloc =>
    simp only [step, Option.ite_none_right_eq_some, Option.some.injEq] at hs
    obtain ⟨-, rfl⟩ := hs
    exact carries_setCall h (carries_beginSubmission ..)
  | wake c reqId userData =>
    simp only [step, Option.ite_none_right_eq_some] at hs
    obtain ⟨-, hs⟩ := hs
    split at hs <;> cases hs <;> exact carries_setCall h trivial
  | cancel c reqId =>
    simp only [step, Option.ite_none_right_eq_some] at hs
    obtain ⟨-, hs⟩ := hs
    split at hs
    · cases hs
      exact carries_setCall h trivial
    · split at hs <;> cases hs <;> exact carries_setCall h trivial
  | advance c alloc => exact carries_advance h hs
  | collect c =>
    simp only [step] at hs
    split at hs <;> cases hs
    exact carries_setCall h trivial
  | pop w =>
    simp only [step, pop] at hs
    split at hs
    · split at hs <;> cases hs
      exact h
    · cases hs
  | finish w ret =>
    simp only [step, finish] at hs
    split at hs <;> cases hs
    exact h
  | account w =>
    simp only [step, account] at hs
    split at hs <;> cases hs
    exact h

/-- In every run, whatever a submission queues it built from the tasks it was called with. -/
theorem carries_reach {workerCount : Nat} {ok : PoolSys κ α → PoolAction κ α → Prop}
    (h : (poolSystem κ α workerCount).Reach ok s) : s.Carries := by
  refine h.invariant ?_ ?_
  · rintro s rfl c
    trivial
  · intro s a s' _ hI _ hs
    exact carries_step hI hs

end PoolSys

end Step

end OsTransport
