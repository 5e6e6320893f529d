/-
  The books a pool keeps of task ids and results.

  Two accounts of what happens to submitted tasks, each an equation between bags that every step of
  the pool preserves:

  * NUMBERS — the task ids drawn so far are those of accepted tasks and of nodes still with a
              submission on its way, each drawn once (`Numbered`);
  * ANSWERS — the ids callers were given, and those they are about to be given, are the ids of
              the accepted tasks; likewise for the counts of cancels (`Answered`).

  What a caller is given is not always what the call had in mind.  `thread_pool_submit_task` ends in
  `return task->task_id`, after the task has been queued and both locks given back: by then a
  wake-up may have had it executed, or a cancel removed it, and it may be freed.  So the history of a
  pool (`PoolHistory`) also knows which tasks are still allocated, and the answer to a single
  submission is read out of the task where that is so, and is `unknown` where it is not.  The answer
  of a cancel is its count as an `int`.

  Three guards on runs keep the books right: fewer than 2^64 - 1 tasks are submitted, so that the
  ids, 64 bits wide, stay distinct (`FewTasks`); a single submission reads the id of a task that is
  still there (`ReadsInTime`); and no cancel removes 2^31 tasks (`CancelsFew`).  Where the tasks are
  is the subject of `OsTransport.Conservation`.

  The layers:

  1. `Advances` is the inversion of `PoolSys.advance`: one rule for each section of a call, used by
     every lemma below;
  2. `Minted` ties the id of a task to its serial, so that as long as the tasks are few an id found
     in memory is that of the task the caller means (`PoolHistory.Minted.taskIdAt_eq`);
  3. `numbered_step`: an id is drawn (`Numbered.draw`), or moves with its node from a call to the log
     (`Numbered.move`), or nothing happens to it (`Numbered.same`);
  4. `answered_step`: an answer becomes due when a submission is accepted or a cancel has removed its
     tasks (`Answered.advance`) and is given when the caller collects it (`Answered.collect`).  The
     two guards are used in that last lemma and nowhere else.
-/
import OsTransport.PoolEffect
import OsTransport.Lib.Total
import Mathlib.Algebra.Order.Group.Multiset
import Mathlib.Algebra.Order.Sub.Unbundled.Basic

namespace OsTransport

open Transition Total

variable {κ α : Type*}

/-! ## What callers are given

The call ends with the pointer to its task (or with its array of ids); the answer is what is read
there at that time. -/

/-- What a function of the pool returns. -/
inductive Answer
  /-- The array of a batch, or the id of a single task. -/
  | taskIds (ids : List (BitVec 64))
  /-- What is found in a task that has been freed: any number. -/
  | unknown
  /-- `NULL`, or `0`. -/
  | null
  | ok
  | err
  /-- `(int)removed`. -/
  | removed (value : Int)
  deriving DecidableEq, Repr

namespace PoolSys

variable (s : PoolSys κ α) (unfreed : Nat → Option (TaskNode α))

/-- The tasks of worker `w` that are still allocated: those in its queue, the one in its hands, and
    the one it has counted down and not freed yet. -/
def allocated (w : Nat) : List (TaskNode α) :=
  (s.workers w).queue ++ (s.workers w).exec.task.toList ++ (unfreed w).toList

/-- `task->task_id`, through a pointer to a task of worker `w`: there is no saying what is read from
    one that has been freed. -/
def taskIdAt (w task : Nat) : Option (BitVec 64) :=
  ((s.allocated unfreed w).find? fun t => t.taskArg.serial == task).map ThreadPoolTask.taskId

/-- What the caller is given for a result. -/
def given : CallResult → Answer
  | .taskIds ids => .taskIds ids
  | .ofTasks w tasks =>
    if tasks.all fun task => (s.taskIdAt unfreed w task).isSome then
      .taskIds (tasks.filterMap (s.taskIdAt unfreed w))
    else .unknown
  | .null => .null
  | .ok => .ok
  | .err => .err
  | .removed count => .removed (cInt count)

/-- A single submission whose answer is not known has lost its task. -/
theorem given_ofTasks (w : Nat) (tasks : List Nat) :
    s.given unfreed (.ofTasks w tasks) = .unknown ∨
      ∀ n ∈ tasks, ∃ t ∈ s.allocated unfreed w, t.taskArg.serial = n := by
  by_cases hall : (tasks.all fun task => (s.taskIdAt unfreed w task).isSome) = true
  · refine .inr fun n hn => ?_
    obtain ⟨id, hid⟩ := Option.isSome_iff_exists.mp (List.all_eq_true.mp hall n hn)
    obtain ⟨t, hfind, -⟩ := Option.map_eq_some_iff.mp hid
    exact ⟨t, List.mem_of_find?_eq_some hfind, by simpa using List.find?_some hfind⟩
  · exact .inl (if_neg hall)

/-- The answer a caller takes with an action. -/
def answer : PoolAction κ α → List Answer
  | .collect c =>
    match s.calls c with
    | .done result => [s.given unfreed result]
    | _ => []
  | _ => []

end PoolSys

/-- The ids an answer may consist of. -/
def Answer.MayBe : Answer → List (BitVec 64) → Prop
  | .taskIds ids, given => given = ids
  | .unknown, given => ∃ id, given = [id]
  | _, given => given = []

/-- The ids the callers with these answers may have been given. -/
def Given (results : List Answer) (given : List (BitVec 64)) : Prop :=
  ∃ parts, List.Forall₂ Answer.MayBe results parts ∧ given = parts.flatten

/-! ## Histories

The pool with three things written down: how many tasks have been submitted, which are allocated
besides those in its lists, and what the calls have returned.  A worker frees a task some time after
counting it off. -/

/-- How many tasks an action hands to the pool. -/
def PoolAction.taskCount : PoolAction κ α → Nat
  | .submit _ sub _ => sub.tasks.length
  | _ => 0

/-- A pool, the tasks its workers have counted down and not freed, the number of tasks it was ever
    given, and the answers its callers took. -/
structure PoolHistory (κ α : Type*) where
  pool : PoolSys κ α
  unfreed : Nat → Option (TaskNode α)
  submitted : Nat
  results : List Answer

inductive HistoryAction (κ α : Type*)
  | pool (a : PoolAction κ α)
  /-- `free(task)`, at the end of `worker_process_task`. -/
  | free (worker : Nat)

namespace PoolHistory

/-- A pool on which nothing has been called. -/
def start (workerCount : Nat) : PoolHistory κ α := ⟨PoolSys.start workerCount, fun _ => none, 0, []⟩

/-- A worker that has counted its task down has it to free. -/
def unfreedBy (h : PoolHistory κ α) : PoolAction κ α → Nat → Option (TaskNode α)
  | .account w => Function.update h.unfreed w (h.pool.workers w).exec.task
  | _ => h.unfreed

/-- A worker frees its task before it goes on. -/
def frees (h : PoolHistory κ α) : PoolAction κ α → Bool
  | .pop w => (h.unfreed w).isSome
  | _ => false

def step [DecidableEq κ] (h : PoolHistory κ α) : HistoryAction κ α → Option (PoolHistory κ α)
  | .pool a =>
    if h.frees a then none
    else (h.pool.step a).map fun s' =>
      ⟨s', h.unfreedBy a, h.submitted + a.taskCount, h.results ++ h.pool.answer h.unfreed a⟩
  | .free w => (h.unfreed w).map fun _ => { h with unfreed := Function.update h.unfreed w none }

/-- A step of the pool, with its answer and what it leaves allocated; or a worker frees a task. -/
theorem step_cases [DecidableEq κ] {h h' : PoolHistory κ α} {a : HistoryAction κ α}
    (hs : h.step a = some h') :
    (∃ b s', a = .pool b ∧ h.pool.step b = some s' ∧
      h' = ⟨s', h.unfreedBy b, h.submitted + b.taskCount,
        h.results ++ h.pool.answer h.unfreed b⟩) ∨
    ∃ w, a = .free w ∧ h' = { h with unfreed := Function.update h.unfreed w none } := by
  cases a with
  | pool b =>
    obtain ⟨-, hmap⟩ := Option.ite_none_left_eq_some.mp hs
    obtain ⟨s', hpool, rfl⟩ := Option.map_eq_some_iff.mp hmap
    exact .inl ⟨b, s', rfl, hpool, rfl⟩
  | free w =>
    obtain ⟨t, -, rfl⟩ := Option.map_eq_some_iff.mp hs
    exact .inr ⟨w, rfl, rfl⟩

end PoolHistory

/-- All runs of a pool, with their history. -/
def historySystem (κ α : Type*) [DecidableEq κ] (workerCount : Nat) :
    System (PoolHistory κ α) (HistoryAction κ α) :=
  .ofFun (· = .start workerCount) PoolHistory.step

/-- The process whose call an action belongs to. -/
def HistoryAction.proc : HistoryAction κ α → Option κ
  | .pool a => a.proc
  | .free _ => none

/-- With its history, a pool takes the same steps. -/
theorem PoolHistory.step_pool [DecidableEq κ] {h h' : PoolHistory κ α} {a : PoolAction κ α}
    (hs : h.step (.pool a) = some h') : h.pool.step a = some h'.pool := by
  rcases PoolHistory.step_cases hs with ⟨b, s', hb, hpool, rfl⟩ | ⟨w, hw, -⟩
  · cases hb
    exact hpool
  · cases hw

/-- A step leaves the calls of other processes where they are. -/
theorem PoolHistory.step_calls_of_ne [DecidableEq κ] {h h' : PoolHistory κ α}
    {a : HistoryAction κ α} {c : κ} (hs : h.step a = some h') (ha : a.proc ≠ some c) :
    h'.pool.calls c = h.pool.calls c := by
  rcases PoolHistory.step_cases hs with ⟨b, s', rfl, hpool, rfl⟩ | ⟨w, -, rfl⟩
  · exact PoolSys.step_calls_of_ne hpool ha
  · rfl

/-- A run with its history is a run. -/
theorem history_reach [DecidableEq κ] {workerCount : Nat} {h : PoolHistory κ α}
    {ok : PoolHistory κ α → HistoryAction κ α → Prop}
    (hr : (historySystem κ α workerCount).Reach ok h) :
    (poolSystem κ α workerCount).Reach (fun _ _ => True) h.pool := by
  refine hr.simulate PoolHistory.pool ?_ ?_
  · rintro h rfl
    rfl
  · intro h a h' _ _ _ hs
    rcases PoolHistory.step_cases hs with ⟨b, s', -, hpool, rfl⟩ | ⟨w, -, rfl⟩
    · exact .inr ⟨b, trivial, hpool⟩
    · exact .inl rfl

/-- How many tasks a step hands to the pool. -/
def HistoryAction.taskCount : HistoryAction κ α → Nat
  | .pool a => a.taskCount
  | .free _ => 0

/-- Fewer than 2^64 - 1 tasks are submitted in total. -/
def FewTasks (h : PoolHistory κ α) (a : HistoryAction κ α) : Prop :=
  h.submitted + a.taskCount < 2 ^ 64 - 1

instance (h : PoolHistory κ α) (a : HistoryAction κ α) : Decidable (FewTasks h a) :=
  inferInstanceAs (Decidable (_ < _))

/-- A single submission returns before its task is freed. -/
def ReadsInTime (h : PoolHistory κ α) : HistoryAction κ α → Prop
  | .pool (.collect c) => ∀ w tasks, h.pool.calls c = .done (.ofTasks w tasks) →
    ∀ n ∈ tasks, ∃ t ∈ h.pool.allocated h.unfreed w, t.taskArg.serial = n
  | _ => True

/-- A cancel finds fewer than 2^31 tasks of its id. -/
def CancelsFew (h : PoolHistory κ α) : HistoryAction κ α → Prop
  | .pool (.advance c _) => ∀ r w, h.pool.calls c = .cancelling r w →
    (cancelledNodes (h.pool.workers w) r).length < 2 ^ 31
  | _ => True

/-! ## What the log says of tasks

Four readings of the log, each a list that only grows. -/

/-- The tasks submissions have queued. -/
def accepted (log : List (PoolEvent κ α)) : List (TaskNode α) :=
  log.filterMap fun
    | .attached _ _ task => some task
    | _ => none

/-- The tasks whose function has returned, each with what it returned. -/
def executed (log : List (PoolEvent κ α)) : List (TaskNode α × Int) :=
  log.filterMap fun
    | .finished _ task ret => some (task, ret)
    | _ => none

/-- The tasks cancels have removed. -/
def removedTasks (log : List (PoolEvent κ α)) : List (TaskNode α) :=
  log.filterMap fun
    | .cancelled _ task => some task
    | _ => none

/-- The calls of completion callbacks: callback, task id, success. -/
def completions (log : List (PoolEvent κ α)) : List (Nat × BitVec 64 × Bool) :=
  log.filterMap fun
    | .completeCb cb taskId success => some (cb, taskId, success)
    | _ => none

/-- The completion callback owed for an executed task. -/
def completionOf (x : TaskNode α × Int) : List (Nat × BitVec 64 × Bool) :=
  x.1.taskArg.completeCb.toList.map fun cb => (cb, x.1.taskArg.taskId, x.2 == 0)

section Lists

@[simp] theorem accepted_append (l l' : List (PoolEvent κ α)) :
    accepted (l ++ l') = accepted l ++ accepted l' := List.filterMap_append

@[simp] theorem executed_append (l l' : List (PoolEvent κ α)) :
    executed (l ++ l') = executed l ++ executed l' := List.filterMap_append

@[simp] theorem removedTasks_append (l l' : List (PoolEvent κ α)) :
    removedTasks (l ++ l') = removedTasks l ++ removedTasks l' := List.filterMap_append

@[simp] theorem completions_append (l l' : List (PoolEvent κ α)) :
    completions (l ++ l') = completions l ++ completions l' := List.filterMap_append

/-- Queueing nodes accepts them, and nothing else. -/
theorem log_attached (c : κ) (w : Nat) (nodes : List (TaskNode α)) :
    accepted (nodes.map (PoolEvent.attached c w)) = nodes ∧
    executed (nodes.map (PoolEvent.attached c w)) = [] ∧
    removedTasks (nodes.map (PoolEvent.attached c w)) = [] ∧
    completions (nodes.map (PoolEvent.attached c w)) = [] := by
  simp [accepted, executed, removedTasks, completions, List.filterMap_map]

/-- Cancelling nodes removes them, and nothing else. -/
theorem log_cancelled (c : κ) (nodes : List (TaskNode α)) :
    accepted (nodes.map (PoolEvent.cancelled c)) = [] ∧
    executed (nodes.map (PoolEvent.cancelled c)) = [] ∧
    removedTasks (nodes.map (PoolEvent.cancelled c)) = nodes ∧
    completions (nodes.map (PoolEvent.cancelled c)) = [] := by
  simp [accepted, executed, removedTasks, completions, List.filterMap_map]

/-- The end of a task executes it and calls what it has to call. -/
theorem log_finished (w : Nat) (task : TaskNode α) (ret : Int) :
    accepted (PoolSys.finishEvents (κ := κ) w task ret) = [] ∧
    executed (PoolSys.finishEvents (κ := κ) w task ret) = [(task, ret)] ∧
    removedTasks (PoolSys.finishEvents (κ := κ) w task ret) = [] ∧
    completions (PoolSys.finishEvents (κ := κ) w task ret) = completionOf (task, ret) := by
  unfold PoolSys.finishEvents completionOf
  cases task.taskArg.completeCb <;>
    simp [accepted, executed, removedTasks, completions]

/-- A batch callback is no news of any task. -/
theorem log_batchCb (cb : Option Nat) :
    accepted (cb.toList.map (PoolSys.batchCbEvent (κ := κ) (α := α))) = [] ∧
    executed (cb.toList.map (PoolSys.batchCbEvent (κ := κ) (α := α))) = [] ∧
    removedTasks (cb.toList.map (PoolSys.batchCbEvent (κ := κ) (α := α))) = [] ∧
    completions (cb.toList.map (PoolSys.batchCbEvent (κ := κ) (α := α))) = [] := by
  cases cb <;> simp [accepted, executed, removedTasks, completions, PoolSys.batchCbEvent]

end Lists

/-! ## The sections of a call

`advance` as rules, for the two accounts below. -/

section Advance

variable [DecidableEq κ]

/-- What one section of a call may do. -/
inductive Advances (s : PoolSys κ α) (c : κ) (alloc : Alloc) : PoolSys κ α → Prop
  | scan {sub : Submission α} {made : List (TaskNode α)} {i j : Nat} {best b : Option BestWorker}
      (hc : s.calls c = .selecting sub made i best) :
      Advances s c alloc (s.setCall c (.selecting sub made j b))
  | select {sub : Submission α} {made : List (TaskNode α)} {i : Nat} {best : Option BestWorker}
      {w : Nat} (hc : s.calls c = .selecting sub made i best) :
      Advances s c alloc (s.setCall c (selectedWorker sub made w))
  | build {sub : Submission α} {worker : Option Nat} {made : List (TaskNode α)}
      {src : ThreadPoolTask α} {todo : List (ThreadPoolTask α)}
      (hc : s.calls c = .building sub worker made (src :: todo)) :
      Advances s c alloc (({ s with nextTaskId := s.nextTaskId + 1 } : PoolSys κ α).setCall c
        (builtNode sub worker
          (made ++ [createBatchNode s.nextTaskId sub.requestId sub.completeCb src]) todo))
  | nodeFail {sub : Submission α} {worker : Option Nat} {made : List (TaskNode α)}
      {src : ThreadPoolTask α} {todo : List (ThreadPoolTask α)}
      (hc : s.calls c = .building sub worker made (src :: todo)) :
      Advances s c alloc
        (({ s with nextTaskId := s.nextTaskId + 1 } : PoolSys κ α).setCall c (.done .null))
  | refuse {sub : Submission α} (hc : (s.calls c).submitPhase = .pending sub) :
      Advances s c alloc (s.setCall c (.done .null))
  | attach {sub : Submission α} {w : Nat} {nodes : List (TaskNode α)}
      (hc : s.calls c = .attaching sub w nodes) :
      Advances s c alloc (((s.setWorker w (attachNodesToWorker (s.workers w) nodes)).record
        (nodes.map (.attached c w))).setCall c (.recording sub w nodes))
  | record {sub : Submission α} {w : Nat} {nodes : List (TaskNode α)} {t : ReqHash}
      (hc : s.calls c = .recording sub w nodes) :
      Advances s c alloc
        ((s.setReqHash t).setCall c (.done (submitResult sub w nodes)))
  | push {reqId : ReqId} {userData : BitVec 64} {w : Nat}
      (hc : s.calls c = .waking reqId userData w) :
      Advances s c alloc
        ((s.setWorker w (workerPendingReqPush (s.workers w) reqId userData)).setCall c (.done .ok))
  | drop {reqId : ReqId} {userData : BitVec 64} {w : Nat}
      (hc : s.calls c = .waking reqId userData w) :
      Advances s c alloc (s.setCall c (.done .err))
  | remove {reqId : ReqId} {w : Nat} (hc : s.calls c = .cancelling reqId w) :
      Advances s c alloc (((s.setWorker w (cancelInWorkerQueue (s.workers w) reqId)).record
        ((cancelledNodes (s.workers w) reqId).map (.cancelled c))).setCall c
          (if (cancelledNodes (s.workers w) reqId).length % 2 ^ 32 > 0 then
            .uncounting reqId (cancelledNodes (s.workers w) reqId).length
          else .done (.removed (cancelledNodes (s.workers w) reqId).length)))
  | uncount {reqId : ReqId} {k : Nat} {t : ReqHash} (hc : s.calls c = .uncounting reqId k) :
      Advances s c alloc ((s.setReqHash t).setCall c (.done (.removed k)))

/-- Every section of a call is one of these. -/
theorem advances_of_advance {s s' : PoolSys κ α} {c : κ} {alloc : Alloc}
    (h : s.advance c alloc = some s') : Advances s c alloc s' := by
  unfold PoolSys.advance at h
  split at h
  · cases h
  · cases h
  · rename_i sub made i best hc
    simp only at h
    split at h
    · split at h <;> cases h
      · exact .select hc
      · exact .scan hc
    · split at h <;> cases h
      · exact .refuse (by rw [hc]; rfl)
      · exact .select hc
  · rename_i sub worker made todo hc
    split at h
    · cases h
    · cases h
      exact .refuse (by rw [hc]; rfl)
    · split at h <;> cases h
      · exact .nodeFail hc
      · exact .build hc
  · rename_i sub w nodes hc
    split at h <;> cases h
    · exact .refuse (by rw [hc]; rfl)
    · exact .attach hc
  · rename_i sub w nodes hc
    cases h
    exact .record hc
  · rename_i hc
    split at h <;> cases h
    · exact .push hc
    · exact .drop hc
  · rename_i hc
    cases h
    exact .remove hc
  · rename_i hc
    cases h
    exact .uncount hc

end Advance

/-! ## The id in a task

Every task that is allocated has the id it was built with, and none is built twice, so what is read
from an allocated task is its id. -/

/-- A task carries the number it was drawn with as its id. -/
def TaskNode.Minted (t : TaskNode α) : Prop := t.taskId = BitVec.ofNat 64 t.taskArg.serial

/-- All tasks that may be read do. -/
def PoolHistory.Minted (h : PoolHistory κ α) : Prop :=
  ∀ w, ∀ t ∈ h.pool.allocated h.unfreed w, t.Minted

/-- The nodes of a submission have the ids of their serials. -/
theorem minted_of_created {sub : Submission α} {tasks : List (ThreadPoolTask α)}
    {nodes : List (TaskNode α)} (h : List.Forall₂ sub.Created tasks nodes) :
    ∀ t ∈ nodes, t.Minted := by
  intro t ht
  obtain ⟨src, -, serial, rfl⟩ := created_of_mem h ht
  rfl

/-- A task is allocated if it is queued, in the hands of its worker, or counted down and not freed. -/
theorem mem_allocated {s : PoolSys κ α} {unfreed : Nat → Option (TaskNode α)} {w : Nat}
    {t : TaskNode α} : t ∈ s.allocated unfreed w ↔
      t ∈ (s.workers w).queue ∨ (s.workers w).exec.task = some t ∨ unfreed w = some t := by
  simp [PoolSys.allocated, Option.mem_toList]

section Minted

variable [DecidableEq κ] {h h' : PoolHistory κ α}

/-- What is allocated was so before, or has just been queued. -/
theorem allocated_effect {a : HistoryAction κ α} (hstep : h.step a = some h') {w : Nat}
    {t : TaskNode α} (ht : t ∈ h'.pool.allocated h'.unfreed w) :
    t ∈ h.pool.allocated h.unfreed w ∨
      ∃ c sub nodes, h.pool.calls c = .attaching sub w nodes ∧ t ∈ nodes := by
  rw [mem_allocated] at ht ⊢
  rcases PoolHistory.step_cases hstep with ⟨b, s', rfl, hs, rfl⟩ | ⟨w', rfl, rfl⟩
  · rcases ht with hqueue | htask | hfree
    · rcases PoolSys.queue_effect hs hqueue with hold | ⟨c, al, sub, nodes, -, hc, ht⟩
      · exact .inl (.inl hold)
      · exact .inr ⟨c, sub, nodes, hc, ht⟩
    · rcases PoolSys.task_effect hs htask with hold | hqueue
      · exact .inl (.inr (.inl hold))
      · exact .inl (.inl hqueue)
    · refine .inl (.inr ?_)
      cases b with
      | account w' =>
        have hfree' : Function.update h.unfreed w' (h.pool.workers w').exec.task w = some t := hfree
        by_cases hw : w = w'
        · subst hw
          rw [Function.update_self] at hfree'
          exact .inl hfree'
        · rw [Function.update_of_ne hw] at hfree'
          exact .inr hfree'
      | _ => exact .inr hfree
  · rcases ht with hqueue | htask | hfree
    · exact .inl (.inl hqueue)
    · exact .inl (.inr (.inl htask))
    · have hfree' : Function.update h.unfreed w' none w = some t := hfree
      by_cases hw : w = w'
      · subst hw
        rw [Function.update_self] at hfree'
        cases hfree'
      · rw [Function.update_of_ne hw] at hfree'
        exact .inl (.inr (.inr hfree'))

/-- In every run, a task that may be read carries its number. -/
theorem minted_reach {workerCount : Nat} {ok : PoolHistory κ α → HistoryAction κ α → Prop}
    (hr : (historySystem κ α workerCount).Reach ok h) : h.Minted := by
  refine System.Reach.invariant (I := PoolHistory.Minted) ?_ ?_ hr
  · rintro h rfl w t ht
    simp [PoolHistory.start, PoolSys.allocated, PoolSys.start, Pool.started, WorkerThread.fresh,
      Exec.task] at ht
  · intro h a h' hr hI _ hstep w t ht
    rcases allocated_effect hstep ht with hold | ⟨c, sub, nodes, hc, ht⟩
    · exact hI w t hold
    · have hcarries := PoolSys.carries_reach (history_reach hr) c
      rw [hc] at hcarries
      exact minted_of_created hcarries.2 t ht

omit [DecidableEq κ] in
/-- The id in a task that is still allocated is the number it was drawn with. -/
theorem PoolHistory.Minted.taskIdAt_eq (hm : h.Minted) {w n : Nat}
    (hn : ∃ t ∈ h.pool.allocated h.unfreed w, t.taskArg.serial = n) :
    h.pool.taskIdAt h.unfreed w n = some (BitVec.ofNat 64 n) := by
  unfold PoolSys.taskIdAt
  cases hfind : (h.pool.allocated h.unfreed w).find? fun t => t.taskArg.serial == n with
  | none =>
    obtain ⟨t, ht, hserial⟩ := hn
    exact absurd (beq_iff_eq.mpr hserial) (List.find?_eq_none.mp hfind t ht)
  | some t =>
    have hserial : t.taskArg.serial = n := by simpa using List.find?_some hfind
    have hid := hm w t (List.mem_of_find?_eq_some hfind)
    rw [Option.map_some, hid, hserial]

omit [DecidableEq κ] in
/-- A single submission that reads in time is given the ids its tasks were drawn with. -/
theorem PoolHistory.Minted.given_ofTasks (hm : h.Minted) {w : Nat} {tasks : List Nat}
    (hread : ∀ n ∈ tasks, ∃ t ∈ h.pool.allocated h.unfreed w, t.taskArg.serial = n) :
    h.pool.given h.unfreed (.ofTasks w tasks) = .taskIds (tasks.map (BitVec.ofNat 64)) := by
  have hids : ∀ n ∈ tasks, h.pool.taskIdAt h.unfreed w n = some (BitVec.ofNat 64 n) := fun n hn =>
    hm.taskIdAt_eq (hread n hn)
  have hall : (tasks.all fun task => (h.pool.taskIdAt h.unfreed w task).isSome) = true := by
    rw [List.all_eq_true]
    intro n hn
    rw [hids n hn, Option.isSome_some]
  rw [PoolSys.given, if_pos hall, List.filterMap_congr hids, List.filterMap_eq_map']

end Minted

/-! ## Numbers and answers

Both accounts as equations, what each section does to their terms, and the two step lemmas. -/

/-- The nodes a submission has built and not queued. -/
def Call.made : Call α → List (TaskNode α)
  | .selecting _ made _ _ => made
  | .building _ _ made _ => made
  | .attaching _ _ nodes => nodes
  | _ => []

/-- How many task ids a submission has still to draw. -/
def Call.ahead : Call α → Nat
  | .selecting sub _ _ _ => if sub.single then 0 else sub.tasks.length
  | .building _ _ _ todo => todo.length
  | _ => 0

/-- The task ids a submission is about to return. -/
def Call.dueIds : Call α → List (BitVec 64)
  | .recording _ _ nodes => nodes.map ThreadPoolTask.taskId
  | .done (.taskIds ids) => ids
  | .done (.ofTasks _ tasks) => tasks.map (BitVec.ofNat 64)
  | _ => []

/-- The count a cancel is about to return. -/
def Call.dueRemoved : Call α → Nat
  | .uncounting _ k => k
  | .done (.removed k) => k
  | _ => 0

/-- Only a single task is built before its worker is chosen. -/
def Call.Staged : Call α → Prop
  | .building sub none _ _ => sub.single = true
  | _ => True

/-- The task ids in a list of answers. -/
def returnedIds (results : List Answer) : List (BitVec 64) :=
  results.flatMap fun
    | .taskIds ids => ids
    | _ => []

/-- The sum of the counts cancels returned. -/
def returnedCounts (results : List Answer) : Int :=
  (results.map fun
    | .removed value => value
    | _ => 0).sum

/-- Answers that are all known leave no choice. -/
theorem given_eq {results : List Answer} (hknown : .unknown ∉ results) {given : List (BitVec 64)}
    (h : Given results given) : given = returnedIds results := by
  obtain ⟨parts, hparts, rfl⟩ := h
  induction hparts with
  | nil => rfl
  | @cons answer part results parts hpart _ ih =>
    have hrest := ih fun hmem => hknown (List.mem_cons_of_mem _ hmem)
    have hhead : part = returnedIds [answer] := by
      cases answer with
      | unknown => exact absurd List.mem_cons_self hknown
      | taskIds ids =>
        obtain rfl : part = ids := hpart
        simp [returnedIds]
      | _ =>
        obtain rfl : part = [] := hpart
        simp [returnedIds]
    rw [List.flatten_cons, hrest, hhead]
    exact List.flatMap_append.symm

/-- The ids of a list of tasks. -/
def idBag (tasks : List (TaskNode α)) : Multiset (BitVec 64) := (tasks.map ThreadPoolTask.taskId)

/-- `drawn` ids have been drawn, `ahead` more are needed; those of accepted tasks and of nodes still
    with their submission are among the drawn ones, each once. -/
structure Numbered (h : PoolHistory κ α) (drawn ahead : Nat) (M : Multiset (BitVec 64)) : Prop where
  made : HasTotal (fun call => idBag (Call.made call)) h.pool.calls M
  todo : HasTotal Call.ahead h.pool.calls ahead
  counter : h.pool.nextTaskId = drawn + 1
  enough : drawn + ahead ≤ h.submitted
  few : h.submitted < 2 ^ 64 - 1
  distinct : (M + idBag (accepted h.pool.log)).Nodup
  within : ∀ id ∈ M + idBag (accepted h.pool.log), 0 < id.toNat ∧ id.toNat ≤ drawn
  staged : ∀ c, (h.pool.calls c).Staged

/-- What callers were told, and are about to be told, is what happened. -/
structure Answered (h : PoolHistory κ α) (R : Multiset (BitVec 64)) (k : Nat) : Prop where
  due : HasTotal (fun call => (Call.dueIds call : Multiset (BitVec 64))) h.pool.calls R
  ids : (returnedIds h.results : Multiset (BitVec 64)) + R = idBag (accepted h.pool.log)
  dueRemoved : HasTotal Call.dueRemoved h.pool.calls k
  counts : returnedCounts h.results + k = (removedTasks h.pool.log).length
  /-- No count is too large for an `int`, -/
  fits : ∀ c, (h.pool.calls c).dueRemoved < 2 ^ 31
  /-- and no id was read from a freed task. -/
  known : .unknown ∉ h.results

section Numbers

variable [DecidableEq κ] {h h' : PoolHistory κ α} {c : κ} {pc : Call α} {drawn ahead : Nat}
  {M : Multiset (BitVec 64)}

theorem idBag_append (l l' : List (TaskNode α)) : idBag (l ++ l') = idBag l + idBag l' := by
  unfold idBag
  rw [List.map_append, ← Multiset.coe_add]

/-- A call that moves on without drawing an id.  Its nodes may become accepted ones, or be lost. -/
theorem Numbered.move (hn : Numbered h drawn ahead M)
    (hcalls : h'.pool.calls = Function.update h.pool.calls c pc)
    (hcounter : h'.pool.nextTaskId = h.pool.nextTaskId)
    (hbag : idBag pc.made + idBag (accepted h'.pool.log) ≤
      idBag (h.pool.calls c).made + idBag (accepted h.pool.log))
    (hahead : pc.ahead + h.submitted ≤ (h.pool.calls c).ahead + h'.submitted)
    (hfew : h'.submitted < 2 ^ 64 - 1) (hst : pc.Staged) :
    ∃ ahead' M', Numbered h' drawn ahead' M' := by
  obtain ⟨rest, rfl, hrest⟩ := hn.made.replace c
  obtain ⟨todo, rfl, htodo⟩ := hn.todo.replace c
  have hle : rest + idBag pc.made + idBag (accepted h'.pool.log) ≤
      rest + idBag (h.pool.calls c).made + idBag (accepted h.pool.log) := by
    rw [add_assoc, add_assoc]
    exact add_le_add_right hbag rest
  refine ⟨todo + pc.ahead, rest + idBag pc.made, ?_, ?_, ?_, ?_, hfew, ?_, ?_, ?_⟩
  · rw [hcalls]
    exact hrest pc
  · rw [hcalls]
    exact htodo pc
  · rw [hcounter]
    exact hn.counter
  · have henough := hn.enough
    omega
  · exact Multiset.nodup_of_le hle hn.distinct
  · intro id hid
    exact hn.within id (Multiset.mem_of_le hle hid)
  · intro c'
    rw [hcalls]
    by_cases hc : c' = c
    · rw [hc, Function.update_self]
      exact hst
    · rw [Function.update_of_ne hc]
      exact hn.staged c'

/-- A call that draws an id, which no task has had before. -/
theorem Numbered.draw (hn : Numbered h drawn ahead M)
    (hcalls : h'.pool.calls = Function.update h.pool.calls c pc)
    (hcounter : h'.pool.nextTaskId = h.pool.nextTaskId + 1)
    (hacc : accepted h'.pool.log = accepted h.pool.log)
    (hmade : idBag pc.made ≤ {BitVec.ofNat 64 h.pool.nextTaskId} + idBag (h.pool.calls c).made)
    (hahead : pc.ahead + 1 ≤ (h.pool.calls c).ahead) (hsub : h'.submitted = h.submitted)
    (hst : pc.Staged) : ∃ ahead' M', Numbered h' (drawn + 1) ahead' M' := by
  obtain ⟨rest, rfl, hrest⟩ := hn.made.replace c
  obtain ⟨todo, rfl, htodo⟩ := hn.todo.replace c
  have henough := hn.enough
  have hfew := hn.few
  have hnext : (BitVec.ofNat 64 h.pool.nextTaskId).toNat = drawn + 1 := by
    rw [hn.counter, BitVec.toNat_ofNat, Nat.mod_eq_of_lt (by omega)]
  have hle : rest + idBag pc.made + idBag (accepted h'.pool.log) ≤
      {BitVec.ofNat 64 h.pool.nextTaskId} +
        (rest + idBag (h.pool.calls c).made + idBag (accepted h.pool.log)) := by
    rw [hacc]
    calc rest + idBag pc.made + idBag (accepted h.pool.log)
        ≤ rest + ({BitVec.ofNat 64 h.pool.nextTaskId} + idBag (h.pool.calls c).made) +
            idBag (accepted h.pool.log) := add_le_add_left (add_le_add_right hmade rest) _
      _ = _ := by ac_rfl
  refine ⟨todo + pc.ahead, rest + idBag pc.made, ?_, ?_, ?_, ?_, hsub ▸ hfew, ?_, ?_, ?_⟩
  · rw [hcalls]
    exact hrest pc
  · rw [hcalls]
    exact htodo pc
  · rw [hcounter, hn.counter]
  · omega
  · refine Multiset.nodup_of_le hle ?_
    rw [Multiset.singleton_add, Multiset.nodup_cons]
    refine ⟨fun hmem => ?_, hn.distinct⟩
    have := (hn.within _ hmem).2
    omega
  · intro id hid
    rcases Multiset.mem_add.mp (Multiset.mem_of_le hle hid) with hid | hid
    · rw [Multiset.mem_singleton.mp hid]
      omega
    · have := hn.within id hid
      omega
  · intro c'
    rw [hcalls]
    by_cases hc : c' = c
    · rw [hc, Function.update_self]
      exact hst
    · rw [Function.update_of_ne hc]
      exact hn.staged c'

omit [DecidableEq κ] in
/-- Steps that leave the calls, the counter and the accepted tasks alone. -/
theorem Numbered.same (hn : Numbered h drawn ahead M) (hcalls : h'.pool.calls = h.pool.calls)
    (hcounter : h'.pool.nextTaskId = h.pool.nextTaskId)
    (hacc : accepted h'.pool.log = accepted h.pool.log) (hsub : h'.submitted = h.submitted) :
    Numbered h' drawn ahead M := by
  obtain ⟨hmade, htodo, hnext, henough, hfew, hdistinct, hwithin, hstaged⟩ := hn
  constructor
  · rwa [hcalls]
  · rwa [hcalls]
  · rwa [hcounter]
  · rwa [hsub]
  · rwa [hsub]
  · rwa [hacc]
  · rwa [hacc]
  · rwa [hcalls]

/-- A call that begins has made no node, and has its tasks ahead of it. -/
theorem begin_numbers (b : Bool) (sub : Submission α) (alloc : Alloc) :
    (beginSubmission b sub alloc).made = [] ∧
      (beginSubmission b sub alloc).ahead ≤ sub.tasks.length ∧
      (beginSubmission b sub alloc).Staged := by
  unfold beginSubmission
  split
  · exact ⟨rfl, Nat.zero_le _, trivial⟩
  · split
    · rename_i hsingle
      exact ⟨rfl, Nat.le_refl _, hsingle⟩
    · rename_i hsingle
      refine ⟨rfl, ?_, trivial⟩
      simp [Call.ahead, hsingle]

/-- The choice of a worker draws no id. -/
theorem selected_numbers (sub : Submission α) (made : List (TaskNode α)) (w i : Nat)
    (best : Option BestWorker) :
    idBag (selectedWorker sub made w).made ≤ idBag made ∧
      (selectedWorker sub made w).ahead = (Call.selecting sub made i best).ahead ∧
      (selectedWorker sub made w).Staged := by
  unfold selectedWorker
  cases hsingle : sub.single with
  | true => exact ⟨le_refl _, by simp [Call.ahead, hsingle], trivial⟩
  | false => exact ⟨Multiset.zero_le _, by simp [Call.ahead, hsingle], trivial⟩

/-- Every node built is one task less ahead. -/
theorem built_numbers {sub : Submission α} {worker : Option Nat} (made : List (TaskNode α))
    (todo : List (ThreadPoolTask α)) (hst : worker = none → sub.single = true) :
    (builtNode sub worker made todo).made = made ∧
      (builtNode sub worker made todo).ahead = todo.length ∧
      (builtNode sub worker made todo).Staged := by
  unfold builtNode
  cases todo with
  | nil =>
    cases worker with
    | some w => exact ⟨rfl, rfl, trivial⟩
    | none => exact ⟨rfl, if_pos (hst rfl), trivial⟩
  | cons src todo =>
    cases worker with
    | some w => exact ⟨rfl, rfl, trivial⟩
    | none => exact ⟨rfl, rfl, hst rfl⟩

/-- Each section of a call keeps the numbers. -/
theorem Numbered.advance (hn : Numbered h drawn ahead M) {alloc : Alloc} {s' : PoolSys κ α}
    (hs : Advances h.pool c alloc s') (hpool : h'.pool = s') (hsub : h'.submitted = h.submitted) :
    ∃ drawn' ahead' M', Numbered h' drawn' ahead' M' := by
  have hfew : h'.submitted < 2 ^ 64 - 1 := hsub ▸ hn.few
  have hst := hn.staged c
  -- a call that has no nodes and none to build
  have hplain : ∀ {pc : Call α}, h'.pool.calls = Function.update h.pool.calls c pc →
      h'.pool.nextTaskId = h.pool.nextTaskId → accepted h'.pool.log = accepted h.pool.log →
      pc.made = [] → pc.ahead = 0 → pc.Staged → ∃ drawn' ahead' M', Numbered h' drawn' ahead' M' := by
    intro pc hcalls hcounter hacc hmade hahead hstaged
    have hle : idBag pc.made + idBag (accepted h'.pool.log) ≤
        idBag (h.pool.calls c).made + idBag (accepted h.pool.log) := by
      rw [hmade, hacc]
      exact add_le_add_left (Multiset.zero_le _) _
    exact ⟨drawn, hn.move hcalls hcounter hle (by omega) hfew hstaged⟩
  cases hs with
  | @scan sub made i j best b hc =>
    refine ⟨drawn, hn.move (c := c) (congrArg _ hpool) (by rw [hpool]; rfl) ?_ ?_ hfew trivial⟩
    · rw [hpool, hc]
      exact le_refl _
    · rw [hc, hsub]
      exact Nat.le_refl _
  | @select sub made i best w hc =>
    obtain ⟨hmade, hahead, hstaged⟩ := selected_numbers sub made w i best
    refine ⟨drawn, hn.move (c := c) (congrArg _ hpool) (by rw [hpool]; rfl) ?_ ?_ hfew hstaged⟩
    · rw [hpool, hc]
      exact add_le_add_left hmade _
    · rw [hc, hsub, hahead]
  | @build sub worker made src todo hc =>
    rw [hc] at hst
    have hsingle : worker = none → sub.single = true := by
      rintro rfl
      exact hst
    obtain ⟨hmade, hahead, hstaged⟩ := built_numbers
      (made ++ [createBatchNode h.pool.nextTaskId sub.requestId sub.completeCb src]) todo hsingle
    refine ⟨drawn + 1, hn.draw (c := c) (congrArg _ hpool) (by rw [hpool]; rfl) (by rw [hpool]; rfl)
      ?_ ?_ hsub hstaged⟩
    · rw [hmade, hc, idBag_append, add_comm]
      exact le_refl _
    · rw [hahead, hc]
      exact Nat.le_refl _
  | @nodeFail sub worker made src todo hc =>
    refine ⟨drawn + 1, hn.draw (c := c) (congrArg _ hpool) (by rw [hpool]; rfl) (by rw [hpool]; rfl)
      (Multiset.zero_le _) ?_ hsub trivial⟩
    rw [hc]
    show 0 + 1 ≤ (src :: todo).length
    simp
  | refuse hc => exact hplain (congrArg _ hpool) (by rw [hpool]; rfl) (by rw [hpool]; rfl) rfl rfl trivial
  | @attach sub w nodes hc =>
    refine ⟨drawn, hn.move (c := c) (congrArg _ hpool) (by rw [hpool]; rfl) ?_ ?_ hfew trivial⟩
    · rw [hpool, hc]
      show idBag [] + idBag (accepted (h.pool.log ++ nodes.map (.attached c w))) ≤ _
      rw [accepted_append, (log_attached c w nodes).1, idBag_append, add_comm (idBag _) (idBag nodes)]
      exact le_of_eq (zero_add _)
    · rw [hc, hsub]
      exact Nat.le_refl _
  | record hc => exact hplain (congrArg _ hpool) (by rw [hpool]; rfl) (by rw [hpool]; rfl) rfl rfl trivial
  | push hc => exact hplain (congrArg _ hpool) (by rw [hpool]; rfl) (by rw [hpool]; rfl) rfl rfl trivial
  | drop hc => exact hplain (congrArg _ hpool) (by rw [hpool]; rfl) (by rw [hpool]; rfl) rfl rfl trivial
  | @remove reqId w hc =>
    have hacc : accepted h'.pool.log = accepted h.pool.log := by
      rw [hpool]
      show accepted (h.pool.log ++ (cancelledNodes (h.pool.workers w) reqId).map (.cancelled c)) = _
      rw [accepted_append, (log_cancelled c _).1, List.append_nil]
    refine hplain (congrArg _ hpool) (by rw [hpool]; rfl) hacc ?_ ?_ ?_ <;> split <;>
      first | rfl | trivial
  | uncount hc => exact hplain (congrArg _ hpool) (by rw [hpool]; rfl) (by rw [hpool]; rfl) rfl rfl trivial

/-- A step of a worker touches no call, no id and no accepted task. -/
theorem worker_step {s s' : PoolSys κ α} {a : PoolAction κ α} (hs : s.step a = some s')
    (ha : a.proc = none) :
    s'.calls = s.calls ∧ s'.nextTaskId = s.nextTaskId ∧ accepted s'.log = accepted s.log ∧
      removedTasks s'.log = removedTasks s.log := by
  have hlog : ∀ {l l' : List (PoolEvent κ α)}, accepted l' = [] ∧ executed l' = executed l' ∧
      removedTasks l' = [] → accepted (l ++ l') = accepted l ∧
        removedTasks (l ++ l') = removedTasks l := by
    rintro l l' ⟨hacc, -, hrem⟩
    rw [accepted_append, removedTasks_append, hacc, hrem, List.append_nil, List.append_nil]
    exact ⟨rfl, rfl⟩
  cases a with
  | pop w =>
    obtain ⟨-, -, ⟨-, rfl⟩ | ⟨p, pending, task, queue, -, -, rfl⟩ | ⟨p, pending, -, -, rfl⟩⟩ :=
      pop_cases hs
    · exact ⟨rfl, rfl, rfl, rfl⟩
    · exact ⟨rfl, rfl, hlog ⟨rfl, rfl, rfl⟩⟩
    · exact ⟨rfl, rfl, hlog ⟨rfl, rfl, rfl⟩⟩
  | finish w ret =>
    simp only [PoolSys.step, PoolSys.finish] at hs
    split at hs
    · cases hs
      obtain ⟨hacc, -, hrem, -⟩ := log_finished (κ := κ) w ‹TaskNode α› ret
      exact ⟨rfl, rfl, hlog ⟨hacc, rfl, hrem⟩⟩
    · cases hs
  | account w =>
    simp only [PoolSys.step, PoolSys.account] at hs
    split at hs
    · cases hs
      obtain ⟨hacc, -, hrem, -⟩ := log_batchCb (κ := κ) (α := α) (accountBatchCb s.reqHash ‹ReqId›)
      exact ⟨rfl, rfl, hlog ⟨hacc, rfl, hrem⟩⟩
    · cases hs
  | submit | wake | cancel | advance | collect => cases ha

/-- **One step keeps the ids apart**, as long as fewer than 2^64 - 1 tasks are submitted. -/
theorem numbered_step {x : HistoryAction κ α} (hn : Numbered h drawn ahead M) (hfew : FewTasks h x)
    (hstep : h.step x = some h') : ∃ drawn' ahead' M', Numbered h' drawn' ahead' M' := by
  rcases PoolHistory.step_cases hstep with ⟨a, s', rfl, hs, rfl⟩ | ⟨w, rfl, rfl⟩
  case inr => exact ⟨drawn, ahead, M, hn.same rfl rfl rfl rfl⟩
  -- calls that start or end
  have hplain : ∀ {c : κ} {pc : Call α}, s' = h.pool.setCall c pc → pc.made = [] →
      pc.ahead ≤ a.taskCount → pc.Staged → ∃ drawn' ahead' M', Numbered
        ⟨s', h.unfreedBy a, h.submitted + a.taskCount, h.results ++ h.pool.answer h.unfreed a⟩
        drawn' ahead' M' := by
    rintro c pc rfl hmade hahead hstaged
    refine ⟨drawn, hn.move (c := c) rfl rfl ?_ ?_ hfew hstaged⟩
    · rw [hmade]
      exact add_le_add_left (Multiset.zero_le _) _
    · show pc.ahead + h.submitted ≤ _ + (h.submitted + a.taskCount)
      omega
  cases a with
  | submit c sub alloc =>
    obtain ⟨-, hs⟩ := Option.ite_none_right_eq_some.mp hs
    obtain ⟨hmade, hahead, hstaged⟩ := begin_numbers h.pool.isRunning sub alloc
    exact hplain (Option.some.inj hs).symm hmade hahead hstaged
  | wake c r u =>
    obtain ⟨-, hs⟩ := Option.ite_none_right_eq_some.mp hs
    split at hs <;> exact hplain (Option.some.inj hs).symm rfl (Nat.le_refl _) trivial
  | cancel c r =>
    obtain ⟨-, hs⟩ := Option.ite_none_right_eq_some.mp hs
    split at hs
    · exact hplain (Option.some.inj hs).symm rfl (Nat.le_refl _) trivial
    · split at hs <;> exact hplain (Option.some.inj hs).symm rfl (Nat.le_refl _) trivial
  | collect c =>
    simp only [PoolSys.step] at hs
    split at hs
    · exact hplain (Option.some.inj hs).symm rfl (Nat.le_refl _) trivial
    · cases hs
  | advance c alloc => exact hn.advance (advances_of_advance hs) rfl rfl
  | pop w | finish w ret | account w =>
    obtain ⟨hcalls, hcounter, hacc, -⟩ := worker_step hs rfl
    exact ⟨drawn, ahead, M, hn.same hcalls hcounter hacc rfl⟩

end Numbers

section Answers

variable [DecidableEq κ] {h h' : PoolHistory κ α} {c : κ} {pc : Call α}
  {R : Multiset (BitVec 64)} {k : Nat}

/-- A call that moves on: what it owes its caller changes with what it did. -/
theorem Answered.move (ha : Answered h R k)
    (hcalls : h'.pool.calls = Function.update h.pool.calls c pc)
    (hids : (returnedIds h'.results : Multiset (BitVec 64)) + pc.dueIds + idBag (accepted h.pool.log)
      = returnedIds h.results + (h.pool.calls c).dueIds + idBag (accepted h'.pool.log))
    (hcounts : returnedCounts h'.results + pc.dueRemoved + (removedTasks h.pool.log).length
      = returnedCounts h.results + (h.pool.calls c).dueRemoved + (removedTasks h'.pool.log).length)
    (hfits : pc.dueRemoved < 2 ^ 31) (hknown : .unknown ∉ h'.results) :
    ∃ R' k', Answered h' R' k' := by
  obtain ⟨rest, rfl, hrest⟩ := ha.due.replace c
  obtain ⟨n, rfl, hn⟩ := ha.dueRemoved.replace c
  refine ⟨rest + pc.dueIds, n + pc.dueRemoved, ?_, ?_, ?_, ?_, ?_, hknown⟩
  · rw [hcalls]
    exact hrest pc
  · have hsum := ha.ids
    apply add_right_cancel (b := idBag (accepted h.pool.log))
    calc (returnedIds h'.results : Multiset (BitVec 64)) + (rest + pc.dueIds)
          + idBag (accepted h.pool.log)
        = rest + (returnedIds h'.results + pc.dueIds + idBag (accepted h.pool.log)) := by ac_rfl
      _ = rest + (returnedIds h.results + (h.pool.calls c).dueIds
          + idBag (accepted h'.pool.log)) := by rw [hids]
      _ = (returnedIds h.results + (rest + (h.pool.calls c).dueIds))
          + idBag (accepted h'.pool.log) := by ac_rfl
      _ = idBag (accepted h'.pool.log) + idBag (accepted h.pool.log) := by rw [hsum, add_comm]
  · rw [hcalls]
    exact hn pc
  · have hsum := ha.counts
    push_cast at hsum ⊢
    omega
  · intro c'
    rw [hcalls]
    by_cases hc : c' = c
    · rwa [hc, Function.update_self]
    · rw [Function.update_of_ne hc]
      exact ha.fits c'

theorem returnedIds_append (l l' : List Answer) :
    (returnedIds (l ++ l') : Multiset (BitVec 64)) = returnedIds l + returnedIds l' := by
  unfold returnedIds
  rw [List.flatMap_append, ← Multiset.coe_add]

theorem returnedCounts_append (l l' : List Answer) :
    returnedCounts (l ++ l') = returnedCounts l + returnedCounts l' := by
  unfold returnedCounts
  rw [List.map_append, List.sum_append]

/-- A call that owes its caller as much as before. -/
theorem Answered.plain (ha : Answered h R k)
    (hcalls : h'.pool.calls = Function.update h.pool.calls c pc)
    (hacc : accepted h'.pool.log = accepted h.pool.log)
    (hrem : removedTasks h'.pool.log = removedTasks h.pool.log) (hres : h'.results = h.results)
    (hids : pc.dueIds = (h.pool.calls c).dueIds)
    (hcounts : pc.dueRemoved = (h.pool.calls c).dueRemoved) : ∃ R' k', Answered h' R' k' :=
  ha.move hcalls (by rw [hacc, hres, hids]) (by rw [hrem, hres, hcounts]) (hcounts ▸ ha.fits c)
    (hres ▸ ha.known)

/-- A submission on its way owes nothing yet. -/
theorem due_of_pending {sub : Submission α} (hp : pc.submitPhase = .pending sub) :
    pc.dueIds = [] ∧ pc.dueRemoved = 0 := by
  rcases pending_cases hp with ⟨_, _, _, rfl⟩ | ⟨_, _, _, rfl⟩ | ⟨_, _, rfl⟩ <;> exact ⟨rfl, rfl⟩

omit [DecidableEq κ] in
/-- What a submission has when its context is recorded leads to the ids of its nodes. -/
theorem due_submitResult (sub : Submission α) (w : Nat) {nodes : List (TaskNode α)}
    (hminted : ∀ t ∈ nodes, t.Minted) :
    (Call.done (α := α) (submitResult sub w nodes)).dueIds = nodes.map ThreadPoolTask.taskId ∧
      (Call.done (α := α) (submitResult sub w nodes)).dueRemoved = 0 := by
  unfold submitResult
  split
  · refine ⟨?_, rfl⟩
    show (nodes.map fun t => t.taskArg.serial).map (BitVec.ofNat 64) = _
    rw [List.map_map]
    exact List.map_congr_left fun t ht => (hminted t ht).symm
  · exact ⟨rfl, rfl⟩

/-- Attaching the nodes makes their ids due to the caller: they are in the history as accepted, and
    nobody has been told yet. -/
theorem Answered.attach (ha : Answered h R k) {sub : Submission α} {w : Nat}
    {nodes : List (TaskNode α)} (hc : h.pool.calls c = .attaching sub w nodes)
    (hcalls : h'.pool.calls = Function.update h.pool.calls c (.recording sub w nodes))
    (hlog : h'.pool.log = h.pool.log ++ nodes.map (.attached c w)) (hres : h'.results = h.results) :
    ∃ R' k', Answered h' R' k' := by
  obtain ⟨hacc, -, hrem, -⟩ := log_attached c w nodes
  refine ha.move hcalls ?_ ?_ (Nat.two_pow_pos 31) (hres ▸ ha.known)
  · rw [hlog, accepted_append, hacc, hres, hc, idBag_append]
    show _ + idBag nodes + _ = _ + ((([] : List (BitVec 64))) : Multiset (BitVec 64)) + _
    rw [Multiset.coe_nil]
    simp only [add_zero]
    ac_rfl
  · rw [hlog, removedTasks_append, hrem, hres, hc, List.append_nil]
    rfl

/-- The edit of a cancel makes the number of the removed tasks due to its caller. -/
theorem Answered.remove (ha : Answered h R k) {reqId : ReqId} {w : Nat}
    {nodes : List (TaskNode α)} (hc : h.pool.calls c = .cancelling reqId w)
    (hdue : pc.dueIds = [] ∧ pc.dueRemoved = nodes.length)
    (hcalls : h'.pool.calls = Function.update h.pool.calls c pc)
    (hlog : h'.pool.log = h.pool.log ++ nodes.map (.cancelled c)) (hres : h'.results = h.results)
    (hfew : nodes.length < 2 ^ 31) : ∃ R' k', Answered h' R' k' := by
  obtain ⟨hacc, -, hrem, -⟩ := log_cancelled c nodes
  refine ha.move hcalls ?_ ?_ (hdue.2 ▸ hfew) (hres ▸ ha.known)
  · rw [hlog, accepted_append, hacc, hres, hc, List.append_nil, hdue.1]
    rfl
  · rw [hlog, removedTasks_append, hrem, hres, hc, List.length_append, hdue.2]
    show _ + _ + _ = _ + ((0 : Nat) : Int) + _
    push_cast
    ring

/-- Each section of a call keeps the answers. -/
theorem Answered.advance (ha : Answered h R k) {alloc : Alloc} {s' : PoolSys κ α}
    (hs : Advances h.pool c alloc s') (hpool : h'.pool = s') (hres : h'.results = h.results)
    (hcarries : (h.pool.calls c).Carries)
    (hfew : ∀ r w, h.pool.calls c = .cancelling r w →
      (cancelledNodes (h.pool.workers w) r).length < 2 ^ 31) :
    ∃ R' k', Answered h' R' k' := by
  have hplain : ∀ {pc : Call α}, h'.pool.calls = Function.update h.pool.calls c pc →
      h'.pool.log = h.pool.log → pc.dueIds = (h.pool.calls c).dueIds →
      pc.dueRemoved = (h.pool.calls c).dueRemoved → ∃ R' k', Answered h' R' k' := by
    intro pc hcalls hlog hids hcounts
    exact ha.plain hcalls (by rw [hlog]) (by rw [hlog]) hres hids hcounts
  have hpending : ∀ {pc : Call α} {sub sub' : Submission α},
      h'.pool.calls = Function.update h.pool.calls c pc → h'.pool.log = h.pool.log →
      (h.pool.calls c).submitPhase = .pending sub → pc.submitPhase = .pending sub' →
      ∃ R' k', Answered h' R' k' := by
    intro pc sub sub' hcalls hlog hold hnew
    obtain ⟨hids, hcounts⟩ := due_of_pending hold
    obtain ⟨hids', hcounts'⟩ := due_of_pending hnew
    exact hplain hcalls hlog (by rw [hids, hids']) (by rw [hcounts, hcounts'])
  cases hs with
  | @scan sub made i j best b hc =>
    have hnew : (Call.selecting sub made j b).submitPhase = .pending sub := rfl
    exact hpending (congrArg _ hpool) (by rw [hpool]; rfl) (by rw [hc]; rfl) hnew
  | @select sub made i best w hc =>
    exact hpending (congrArg _ hpool) (by rw [hpool]; rfl) (by rw [hc]; rfl)
      (submitPhase_selectedWorker sub made w)
  | @build sub worker made src todo hc =>
    exact hpending (congrArg _ hpool) (by rw [hpool]; rfl) (by rw [hc]; rfl)
      (submitPhase_builtNode sub worker _ todo)
  | nodeFail hc =>
    exact hplain (congrArg _ hpool) (by rw [hpool]; rfl) (by rw [hc]; rfl) (by rw [hc]; rfl)
  | refuse hc =>
    obtain ⟨hids, hcounts⟩ := due_of_pending hc
    exact hplain (congrArg _ hpool) (by rw [hpool]; rfl) (by rw [hids]; rfl) (by rw [hcounts]; rfl)
  -- from here on the ids are due to the caller
  | @attach sub w nodes hc =>
    exact ha.attach hc (congrArg _ hpool) (by rw [hpool]; rfl) hres
  | @record sub w nodes t hc =>
    rw [hc] at hcarries
    obtain ⟨hids, hcounts⟩ := due_submitResult sub w (minted_of_created hcarries.2)
    exact hplain (congrArg _ hpool) (by rw [hpool]; rfl) (by rw [hids, hc]; rfl)
      (by rw [hcounts, hc]; rfl)
  | push hc =>
    exact hplain (congrArg _ hpool) (by rw [hpool]; rfl) (by rw [hc]; rfl) (by rw [hc]; rfl)
  | drop hc =>
    exact hplain (congrArg _ hpool) (by rw [hpool]; rfl) (by rw [hc]; rfl) (by rw [hc]; rfl)
  -- the count that the cancel will answer
  | @remove reqId w hc =>
    refine ha.remove hc ?_ (congrArg _ hpool) (by rw [hpool]; rfl) hres (hfew reqId w hc)
    -- the count is the same whether or not the context has to be told
    split <;> exact ⟨rfl, rfl⟩
  | uncount hc =>
    exact hplain (congrArg _ hpool) (by rw [hpool]; rfl) (by rw [hc]; rfl) (by rw [hc]; rfl)

omit [DecidableEq κ] in
/-- Steps that leave the calls and the accepted and removed tasks alone. -/
theorem Answered.same (ha : Answered h R k) (hcalls : h'.pool.calls = h.pool.calls)
    (hacc : accepted h'.pool.log = accepted h.pool.log)
    (hrem : removedTasks h'.pool.log = removedTasks h.pool.log) (hres : h'.results = h.results) :
    Answered h' R k := by
  obtain ⟨hdue, hids, hremoved, hcounts, hfits, hknown⟩ := ha
  constructor
  · rwa [hcalls]
  · rwa [hres, hacc]
  · rwa [hcalls]
  · rwa [hres, hrem]
  · rwa [hcalls]
  · rwa [hres]

/-- The caller of a pool that reads in time, and whose cancels find few tasks, is given what the call
    owed it. -/
theorem Answered.collect (ha : Answered h R k) (hminted : h.Minted) {result : CallResult}
    (hc : h.pool.calls c = .done result)
    (hread : ∀ w tasks, result = .ofTasks w tasks →
      ∀ n ∈ tasks, ∃ t ∈ h.pool.allocated h.unfreed w, t.taskArg.serial = n)
    (hcalls : h'.pool.calls = Function.update h.pool.calls c .idle) (hlog : h'.pool.log = h.pool.log)
    (hres : h'.results = h.results ++ [h.pool.given h.unfreed result]) :
    ∃ R' k', Answered h' R' k' := by
  have hfits := ha.fits c
  rw [hc] at hfits
  have hgiven : h.pool.given h.unfreed result ≠ .unknown ∧
      returnedIds [h.pool.given h.unfreed result] = (Call.done (α := α) result).dueIds ∧
      returnedCounts [h.pool.given h.unfreed result] =
        (Call.done (α := α) result).dueRemoved := by
    cases result with
    | ofTasks w tasks =>
      rw [hminted.given_ofTasks (hread w tasks rfl)]
      exact ⟨by rintro ⟨⟩, List.append_nil _, rfl⟩
    | taskIds ids => exact ⟨by rintro ⟨⟩, List.append_nil _, rfl⟩
    | removed n =>
      have hlt : n < 2 ^ 31 := hfits
      have hn : h.pool.given h.unfreed (.removed n) = .removed n :=
        congrArg Answer.removed (cInt_eq (by omega) (by omega))
      rw [hn]
      exact ⟨by rintro ⟨⟩, rfl, add_zero _⟩
    | _ => exact ⟨by rintro ⟨⟩, rfl, rfl⟩
  obtain ⟨hknown, hids, hcounts⟩ := hgiven
  refine ha.move (c := c) hcalls ?_ ?_ (Nat.two_pow_pos 31) ?_
  · rw [hres, returnedIds_append, hc, hids, hlog]
    show _ + (([] : List (BitVec 64)) : Multiset (BitVec 64)) + _ = _
    rw [Multiset.coe_nil, add_zero]
  · rw [hres, returnedCounts_append, hc, hcounts, hlog]
    show _ + ((0 : Nat) : Int) + _ = _
    rw [Nat.cast_zero, add_zero]
  · rw [hres, List.mem_append, not_or]
    exact ⟨ha.known, fun hmem => hknown (List.mem_singleton.mp hmem).symm⟩

/-- **One step keeps the answers right**: a task is there when its id is read, and a count fits an
    `int`. -/
theorem answered_step {x : HistoryAction κ α} (ha : Answered h R k) (hminted : h.Minted)
    (hcarries : h.pool.Carries) (hread : ReadsInTime h x) (hfew : CancelsFew h x)
    (hstep : h.step x = some h') : ∃ R' k', Answered h' R' k' := by
  rcases PoolHistory.step_cases hstep with ⟨a, s', rfl, hs, rfl⟩ | ⟨w, rfl, rfl⟩
  case inr => exact ⟨R, k, ha.same rfl rfl rfl rfl⟩
  have hplain : ∀ {c : κ} {pc : Call α}, h.pool.isIdle c = true → s' = h.pool.setCall c pc →
      h.pool.answer h.unfreed a = [] → pc.dueIds = [] → pc.dueRemoved = 0 → ∃ R' k', Answered
        ⟨s', h.unfreedBy a, h.submitted + a.taskCount,
          h.results ++ h.pool.answer h.unfreed a⟩ R' k' := by
    rintro c pc hidle rfl hanswer hids hcounts
    refine ha.plain (c := c) rfl rfl rfl (by rw [hanswer]; exact List.append_nil _) ?_ ?_
    · rw [hids, isIdle_iff.mp hidle]
      rfl
    · rw [hcounts, isIdle_iff.mp hidle]
      rfl
  cases a with
  | submit c sub alloc =>
    obtain ⟨hidle, hs⟩ := Option.ite_none_right_eq_some.mp hs
    have hdue : (beginSubmission h.pool.isRunning sub alloc).dueIds = [] ∧
        (beginSubmission h.pool.isRunning sub alloc).dueRemoved = 0 := by
      unfold beginSubmission
      split
      · exact ⟨rfl, rfl⟩
      · split <;> exact ⟨rfl, rfl⟩
    exact hplain hidle (Option.some.inj hs).symm rfl hdue.1 hdue.2
  | wake c r u =>
    obtain ⟨hidle, hs⟩ := Option.ite_none_right_eq_some.mp hs
    split at hs <;> exact hplain hidle (Option.some.inj hs).symm rfl rfl rfl
  | cancel c r =>
    obtain ⟨hidle, hs⟩ := Option.ite_none_right_eq_some.mp hs
    split at hs
    · exact hplain hidle (Option.some.inj hs).symm rfl rfl rfl
    · split at hs <;> exact hplain hidle (Option.some.inj hs).symm rfl rfl rfl
  | collect c =>
    obtain ⟨⟨result, hc⟩, rfl⟩ : (∃ result, h.pool.calls c = .done result) ∧
        h.pool.setCall c .idle = s' := by
      simp only [PoolSys.step] at hs
      split at hs
      · rename_i result hc
        exact ⟨⟨result, hc⟩, Option.some.inj hs⟩
      · cases hs
    have hanswer : h.pool.answer h.unfreed (.collect c) = [h.pool.given h.unfreed result] := by
      simp only [PoolSys.answer, hc]
    refine ha.collect hminted hc ?_ rfl rfl (congrArg _ hanswer)
    rintro w tasks rfl
    exact hread w tasks hc
  | advance c alloc =>
    exact ha.advance (advances_of_advance hs) rfl (List.append_nil _) (hcarries c) hfew
  | pop w | finish w ret | account w =>
    obtain ⟨hcalls, -, hacc, hrem⟩ := worker_step hs rfl
    exact ⟨R, k, ha.same hcalls hacc hrem (List.append_nil _)⟩

end Answers

end OsTransport
