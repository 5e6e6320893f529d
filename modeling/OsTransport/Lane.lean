/-
  The lane of one request id: the abstract pool a single request sees.

  The pool multiplexes all requests over shared lists: worker queues, wake-up lists, hash
  chains.  `lane r s` is what is left of a pool state when everything that does not concern the
  id `r` is forgotten: the context of `r`, per worker the queued tasks and wake-ups of `r` in
  order, whether the worker is executing a task of `r`, and per call whether it is about `r`.

  `LaneStep` is the abstract machine on lanes.  It knows no other id, no load balancing and no
  shared lists, and is the statement of what the pool is for: a request's tasks are queued, bound
  to a worker by a context, served by its wake-ups, and counted off.

  The connection to the pool is `lane_step`: every step of the pool is, for every id, a step of
  the lane machine (possibly `tau`, which changes nothing).  Steps for other ids are `tau`
  steps, so the frame property of the pool is part of the statement, and every invariant of a
  request is proved over the fifteen rules of `LaneStep` and nothing else.

  How `lane_step` is proved:

  1. the lane of a state after an edit is the lane before it with the same edit, or the lane before
     it: one lemma for each kind of edit (`lane_setCall`, `lane_setWorker`, `lane_record`,
     `lane_reqHash`);
  2. one lemma for each place a call can be at (`lane_selecting`, `lane_attaching`, `lane_waking`,
     `lane_cancelling`, …) and for each step of a worker, by cases on whether the id is `r`;
  3. where a list is shared, that what is done to it for one id is invisible through another is
     taken from `OsTransport.Lib.Queue` (`laneQueue_cancel`, `pop_laneQueue`).

  `Explains` says which label a step of the pool may have, and is for the modules that carry a
  condition on the pool's steps over to conditions on labels.
-/
import OsTransport.PoolSystem

namespace OsTransport

variable {κ α : Type*}

/-! ## Lanes

A lane is a pool of its own, with one context, and per worker a queue and a list of wake-ups. `lane
r` is a function of the pool's state, so nothing has to be kept in step. -/

/-- A call as the lane of its id sees it. -/
inductive LaneCall
  | idle
  /-- A submission that has not queued its tasks. -/
  | submitting
  | recording (worker taskCount : Nat)
  | waking (userData : BitVec 64) (worker : Nat)
  | cancelling (worker : Nat)
  | uncounting (removed : Nat)
  deriving DecidableEq, Repr

/-- The abstract pool of one request id. -/
@[ext] structure Lane (κ α : Type*) where
  /-- The entry of the id in the table. -/
  ctx : Option RequestContext
  /-- The tasks of the id at each worker, front first. -/
  queue : Nat → List (TaskNode α)
  /-- The user data of its wake-ups pending there. -/
  wakes : Nat → List (BitVec 64)
  /-- The task of it in execution there. -/
  exec : Nat → Exec α
  /-- The calls about it. -/
  calls : κ → LaneCall
  /-- The wake-ups served so far, whether or not they found a task. -/
  served : List (BitVec 64)

/-- The tasks of `r` in a queue. -/
def laneQueue (r : ReqId) (queue : List (TaskNode α)) : List (TaskNode α) :=
  queue.filter fun t => t.requestId == r

/-- The wake-ups of `r` in a list, without the id. -/
def laneWakes (r : ReqId) (pending : List PendingReqNode) : List (BitVec 64) :=
  (pending.filter fun p => p.requestId == r).map PendingReqNode.userData

/-- Execution of a task of `r`; any other task looks like none. -/
def laneExec (r : ReqId) : Exec α → Exec α
  | .loop => .loop
  | .running task reqId userData => if reqId = r then .running task reqId userData else .loop
  | .returned task reqId ret => if reqId = r then .returned task reqId ret else .loop

/-- A call about `r`; any other call looks idle. -/
def laneCall (r : ReqId) : Call α → LaneCall
  | .idle => .idle
  | .done _ => .idle
  | .selecting sub _ _ _ => if sub.requestId = r then .submitting else .idle
  | .building sub _ _ _ => if sub.requestId = r then .submitting else .idle
  | .attaching sub _ _ => if sub.requestId = r then .submitting else .idle
  | .recording sub w nodes => if sub.requestId = r then .recording w nodes.length else .idle
  | .waking reqId userData w => if reqId = r then .waking userData w else .idle
  | .cancelling reqId w => if reqId = r then .cancelling w else .idle
  | .uncounting reqId removed => if reqId = r then .uncounting removed else .idle

/-- The wake-ups of `r` that a stretch of history served. -/
def servedOf (r : ReqId) (log : List (PoolEvent κ α)) : List (BitVec 64) :=
  log.filterMap fun
    | .taken _ task userData => if task.requestId = r then some userData else none
    | .missed _ reqId userData => if reqId = r then some userData else none
    | _ => none

/-- The lane of `r` in a pool state. -/
def lane (r : ReqId) (s : PoolSys κ α) : Lane κ α where
  ctx := s.reqHash.find r
  queue w := laneQueue r (s.workers w).queue
  wakes w := laneWakes r (s.workers w).pending
  exec w := laneExec r (s.workers w).exec
  calls c := laneCall r (s.calls c)
  served := servedOf r s.log

section Fields

variable (r : ReqId) (s : PoolSys κ α)

@[simp] theorem lane_ctx : (lane r s).ctx = s.reqHash.find r := rfl

@[simp] theorem lane_queue (w : Nat) : (lane r s).queue w = laneQueue r (s.workers w).queue := rfl

@[simp] theorem lane_wakes (w : Nat) : (lane r s).wakes w = laneWakes r (s.workers w).pending := rfl

@[simp] theorem lane_exec (w : Nat) : (lane r s).exec w = laneExec r (s.workers w).exec := rfl

@[simp] theorem lane_calls (c : κ) : (lane r s).calls c = laneCall r (s.calls c) := rfl

@[simp] theorem lane_served : (lane r s).served = servedOf r s.log := rfl

end Fields

section Calls

variable {r : ReqId} {pc : Call α}

/-! The place of a call in the lane gives its place in the pool. -/

/-- A call that records in the lane is one that records tasks of its id. -/
theorem laneCall_recording {w k : Nat} (h : laneCall r pc = .recording w k) :
    ∃ sub nodes, pc = .recording sub w nodes ∧ sub.requestId = r ∧ nodes.length = k := by
  cases pc with
  | recording sub w' nodes =>
    simp only [laneCall, ite_eq_iff, LaneCall.recording.injEq, reduceCtorEq, and_false, or_false] at h
    obtain ⟨hr, rfl, rfl⟩ := h
    exact ⟨sub, nodes, rfl, hr, rfl⟩
  | _ => simp [laneCall, ite_eq_iff] at h

/-- Wake-ups and cancels carry their id, so the lane loses nothing of them. -/
theorem laneCall_waking {userData : BitVec 64} {w : Nat} :
    laneCall r pc = .waking userData w ↔ pc = .waking r userData w := by
  cases pc <;> simp [laneCall, ite_eq_iff]

/-- So does a cancel that has looked up its worker. -/
theorem laneCall_cancelling {w : Nat} : laneCall r pc = .cancelling w ↔ pc = .cancelling r w := by
  cases pc <;> simp [laneCall, ite_eq_iff]

/-- So does one that still has to lower the count. -/
theorem laneCall_uncounting {k : Nat} : laneCall r pc = .uncounting k ↔ pc = .uncounting r k := by
  cases pc <;> simp [laneCall, ite_eq_iff]

end Calls

/-! ## The lane machine

Fifteen rules.  A label says which rule was taken, and with what; guards on labels become guards on
the pool through `Explains`. -/

section Machine

variable [DecidableEq κ]

inductive LaneLabel (κ α : Type*)
  /-- A step of something else. -/
  | tau
  /-- A submission of the id is called. -/
  | submit (c : κ)
  /-- It fails before its tasks are queued: no worker, or no memory. -/
  | giveUp (c : κ)
  /-- Its nodes are appended to the queue of the worker it has chosen. -/
  | attach (c : κ) (w : Nat) (nodes : List (TaskNode α))
  /-- Its context is made or raised; `alloc` says whether there was memory for a new one. -/
  | record (c : κ) (alloc : Bool)
  /-- A wake-up reads the context. -/
  | lookWake (c : κ) (userData : BitVec 64)
  /-- It is appended to the pending list of the worker the context named. -/
  | pushWake (c : κ)
  /-- There was no memory for it. -/
  | dropWake (c : κ)
  /-- A cancel reads the context. -/
  | lookCancel (c : κ)
  /-- It takes all tasks and wake-ups of the id from the worker the context named. -/
  | cancelQueue (c : κ)
  /-- It takes what it has removed off the context. -/
  | uncount (c : κ)
  /-- The worker serves a wake-up with a task. -/
  | take (w : Nat) (task : TaskNode α) (userData : BitVec 64)
  /-- It finds no task for it. -/
  | miss (w : Nat) (userData : BitVec 64)
  /-- The task function returns. -/
  | finish (w : Nat) (ret : Int)
  /-- The task is counted off the context. -/
  | account (w : Nat)

/-- The steps of the lane of `r`. -/
inductive LaneStep (r : ReqId) : Lane κ α → LaneLabel κ α → Lane κ α → Prop
  | tau {L : Lane κ α} : LaneStep r L .tau L
  | submit {L : Lane κ α} {c : κ} (hc : L.calls c = .idle) :
      LaneStep r L (.submit c) { L with calls := Function.update L.calls c .submitting }
  | giveUp {L : Lane κ α} {c : κ} (hc : L.calls c = .submitting) :
      LaneStep r L (.giveUp c) { L with calls := Function.update L.calls c .idle }
  | attach {L : Lane κ α} {c : κ} {w : Nat} {nodes : List (TaskNode α)}
      (hc : L.calls c = .submitting) (hid : ∀ t ∈ nodes, t.requestId = r) :
      LaneStep r L (.attach c w nodes)
        { L with
          queue := Function.update L.queue w (L.queue w ++ nodes)
          calls := Function.update L.calls c (.recording w nodes.length) }
  | record {L : Lane κ α} {c : κ} {w k : Nat} {alloc : Bool} {cb : Option Nat}
      (hc : L.calls c = .recording w k) :
      LaneStep r L (.record c alloc)
        { L with
          ctx := recordedContext alloc r w k cb L.ctx
          calls := Function.update L.calls c .idle }
  | lookWake {L : Lane κ α} {c : κ} {userData : BitVec 64} {ctx : RequestContext}
      (hc : L.calls c = .idle) (hctx : L.ctx = some ctx) :
      LaneStep r L (.lookWake c userData)
        { L with calls := Function.update L.calls c (.waking userData ctx.workerIdx) }
  | pushWake {L : Lane κ α} {c : κ} {userData : BitVec 64} {w : Nat}
      (hc : L.calls c = .waking userData w) :
      LaneStep r L (.pushWake c)
        { L with
          wakes := Function.update L.wakes w (L.wakes w ++ [userData])
          calls := Function.update L.calls c .idle }
  | dropWake {L : Lane κ α} {c : κ} {userData : BitVec 64} {w : Nat}
      (hc : L.calls c = .waking userData w) :
      LaneStep r L (.dropWake c) { L with calls := Function.update L.calls c .idle }
  | lookCancel {L : Lane κ α} {c : κ} {ctx : RequestContext}
      (hc : L.calls c = .idle) (hctx : L.ctx = some ctx) :
      LaneStep r L (.lookCancel c)
        { L with calls := Function.update L.calls c (.cancelling ctx.workerIdx) }
  | cancelQueue {L : Lane κ α} {c : κ} {w : Nat} (hc : L.calls c = .cancelling w) :
      LaneStep r L (.cancelQueue c)
        { L with
          queue := Function.update L.queue w []
          wakes := Function.update L.wakes w []
          calls := Function.update L.calls c
            (if (L.queue w).length % 2 ^ 32 > 0 then .uncounting (L.queue w).length else .idle) }
  | uncount {L : Lane κ α} {c : κ} {k : Nat} (hc : L.calls c = .uncounting k) :
      LaneStep r L (.uncount c)
        { L with
          ctx := cancelledContext k L.ctx
          calls := Function.update L.calls c .idle }
  | take {L : Lane κ α} {w : Nat} {userData : BitVec 64} {wakes : List (BitVec 64)}
      {task : TaskNode α} {queue : List (TaskNode α)}
      (hexec : L.exec w = .loop) (hwake : L.wakes w = userData :: wakes)
      (hpop : workerQueuePopByReqAndUserData (L.queue w) r userData = some (task, queue)) :
      LaneStep r L (.take w task userData)
        { L with
          queue := Function.update L.queue w queue
          wakes := Function.update L.wakes w wakes
          exec := Function.update L.exec w (.running task r userData)
          served := L.served ++ [userData] }
  | miss {L : Lane κ α} {w : Nat} {userData : BitVec 64} {wakes : List (BitVec 64)}
      (hexec : L.exec w = .loop) (hwake : L.wakes w = userData :: wakes)
      (hpop : workerQueuePopByReqAndUserData (L.queue w) r userData = none) :
      LaneStep r L (.miss w userData)
        { L with
          wakes := Function.update L.wakes w wakes
          served := L.served ++ [userData] }
  | finish {L : Lane κ α} {w : Nat} {task : TaskNode α} {userData : BitVec 64} {ret : Int}
      (hexec : L.exec w = .running task r userData) :
      LaneStep r L (.finish w ret)
        { L with exec := Function.update L.exec w (.returned task r ret) }
  | account {L : Lane κ α} {w : Nat} {task : TaskNode α} {ret : Int}
      (hexec : L.exec w = .returned task r ret) :
      LaneStep r L (.account w)
        { L with
          ctx := accountedContext L.ctx
          exec := Function.update L.exec w .loop }

end Machine

/-! ## What the edits of a pool state do to a lane

The pool's state is changed by setters, and each of them is a setter of the lane, or nothing. -/

section Edits

variable (r : ReqId) (s : PoolSys κ α)

theorem comp_update {ι β γ : Type*} [DecidableEq ι] (g : β → γ) (f : ι → β) (i : ι) (v : β) :
    (fun j => g (Function.update f i v j)) = Function.update (fun j => g (f j)) i (g v) :=
  Function.comp_update g f i v

/-- A call that moves is seen as its image moving. -/
theorem lane_setCall [DecidableEq κ] (c : κ) (pc : Call α) :
    lane r (s.setCall c pc) =
      { lane r s with calls := Function.update (lane r s).calls c (laneCall r pc) } := by
  simp only [lane, PoolSys.setCall, comp_update (laneCall r)]

/-- A worker that changes is seen in its queue, its wake-ups and what it executes. -/
theorem lane_setWorker (w : Nat) (worker : WorkerThread α) :
    lane r (s.setWorker w worker) =
      { lane r s with
        queue := Function.update (lane r s).queue w (laneQueue r worker.queue)
        wakes := Function.update (lane r s).wakes w (laneWakes r worker.pending)
        exec := Function.update (lane r s).exec w (laneExec r worker.exec) } := by
  simp only [lane, PoolSys.setWorker, comp_update (fun x => laneQueue r (WorkerThread.queue x)),
    comp_update (fun x => laneWakes r (WorkerThread.pending x)),
    comp_update (fun x => laneExec r (WorkerThread.exec x))]

/-- Of the events recorded, the lane sees what has been served. -/
theorem lane_record (events : List (PoolEvent κ α)) :
    lane r (s.record events) = { lane r s with served := (lane r s).served ++ servedOf r events } := by
  simp only [lane, PoolSys.record, servedOf, List.filterMap_append]

/-- Of the table, the lane sees the entry of its id. -/
theorem lane_reqHash (t : ReqHash) :
    lane r (s.setReqHash t) = { lane r s with ctx := t.find r } := rfl

end Edits

/-! ## Every step of the pool is a step of every lane

One lemma for each place a call or a worker can be at; `lane_step` puts them together. -/

/-- The action of the pool behind a step of the lane of `r`. -/
def Explains (r : ReqId) (s : PoolSys κ α) (a : PoolAction κ α) : LaneLabel κ α → Prop
  | .tau => True
  | .submit c => ∃ sub alloc, a = .submit c sub alloc ∧ sub.requestId = r
  | .giveUp c => ∃ alloc, a = .advance c alloc
  | .attach c w nodes =>
    ∃ sub alloc, a = .advance c alloc ∧ s.calls c = .attaching sub w nodes ∧ sub.requestId = r
  | .record c ok =>
    ∃ sub w nodes alloc, a = .advance c alloc ∧ s.calls c = .recording sub w nodes
      ∧ sub.requestId = r ∧ ok = (sub.single || alloc == .ok)
  | .lookWake c userData => a = .wake c r userData
  | .pushWake c => ∃ alloc, a = .advance c alloc
  | .dropWake c => ∃ alloc, a = .advance c alloc ∧ alloc ≠ .ok
  | .lookCancel c => a = .cancel c r
  | .cancelQueue c => ∃ alloc, a = .advance c alloc
  | .uncount c => ∃ alloc, a = .advance c alloc
  | .take w _ _ => a = .pop w
  | .miss w _ => a = .pop w
  | .finish w ret => a = .finish w ret
  | .account w => a = .account w

section Step

variable [DecidableEq κ] {r : ReqId} {s s' : PoolSys κ α}

/-- `r` may see the step `a` from `s` to `s'` as some step of its lane. -/
def LaneSees (r : ReqId) (s : PoolSys κ α) (a : PoolAction κ α) (s' : PoolSys κ α) : Prop :=
  ∃ l, LaneStep r (lane r s) l (lane r s') ∧ Explains r s a l

/-- A step that leaves the lane as it is. -/
theorem laneSees_tau {a : PoolAction κ α} (h : lane r s' = lane r s) : LaneSees r s a s' :=
  ⟨.tau, h ▸ .tau, trivial⟩

/-- Moving a call between two places the lane does not distinguish is no step of the lane. -/
theorem lane_setCall_same {c : κ} {pc : Call α} (h : laneCall r pc = laneCall r (s.calls c)) :
    lane r (s.setCall c pc) = lane r s := by
  rw [lane_setCall, h]
  exact Lane.ext rfl rfl rfl rfl (Function.update_eq_self c _) rfl

omit [DecidableEq κ] in
/-- The test says that process `c` is in no call of the pool. -/
theorem isIdle_iff {c : κ} : s.isIdle c = true ↔ s.calls c = .idle := by
  unfold PoolSys.isIdle
  split <;> simp_all

omit [DecidableEq κ] in
/-- Who is in no call is in none of the lane. -/
theorem laneCall_of_isIdle {c : κ} (h : s.isIdle c = true) : laneCall r (s.calls c) = .idle := by
  rw [isIdle_iff.mp h]; rfl

/-- A submission is refused, or from the lane's point of view it has begun. -/
theorem laneCall_beginSubmission (b : Bool) (sub : Submission α) (alloc : Alloc) :
    laneCall r (beginSubmission b sub alloc) = .idle ∨
      (sub.requestId = r ∧ laneCall r (beginSubmission b sub alloc) = .submitting) := by
  by_cases hr : sub.requestId = r
  · unfold beginSubmission
    split
    · exact .inl rfl
    · split <;> exact .inr ⟨hr, if_pos hr⟩
  · left
    unfold beginSubmission
    split
    · rfl
    · split <;> exact if_neg hr

/-- With a worker selected, a submission of the id still only submits. -/
theorem laneCall_selectedWorker (sub : Submission α) (made : List (TaskNode α)) (w : Nat) :
    laneCall r (selectedWorker sub made w) = if sub.requestId = r then .submitting else .idle := by
  unfold selectedWorker
  split <;> rfl

/-- So it does while its nodes are allocated, one by one. -/
theorem laneCall_builtNode (sub : Submission α) (w : Option Nat) (made : List (TaskNode α))
    (todo : List (ThreadPoolTask α)) :
    laneCall r (builtNode sub w made todo) = if sub.requestId = r then .submitting else .idle := by
  unfold builtNode
  split
  · split <;> rfl
  · rfl

/-- Only a submission of the id begins one in the lane. -/
theorem lane_submit {c : κ} {sub : Submission α} {alloc : Alloc}
    (h : s.step (.submit c sub alloc) = some s') : LaneSees r s (.submit c sub alloc) s' := by
  simp only [PoolSys.step, Option.ite_none_right_eq_some, Option.some.injEq] at h
  obtain ⟨hidle, rfl⟩ := h
  have hc : laneCall r (s.calls c) = .idle := laneCall_of_isIdle hidle
  rcases laneCall_beginSubmission (r := r) s.isRunning sub alloc with hpc | ⟨hr, hpc⟩
  · exact laneSees_tau (lane_setCall_same (hpc.trans hc.symm))
  · refine ⟨.submit c, ?_, sub, alloc, rfl, hr⟩
    rw [lane_setCall, hpc]
    exact .submit hc

/-- A wake-up of the id looks up the context; without one it comes to nothing. -/
theorem lane_wake {c : κ} {reqId : ReqId} {userData : BitVec 64}
    (h : s.step (.wake c reqId userData) = some s') :
    LaneSees r s (.wake c reqId userData) s' := by
  simp only [PoolSys.step, Option.ite_none_right_eq_some] at h
  obtain ⟨hidle, h⟩ := h
  have hc : laneCall r (s.calls c) = .idle := laneCall_of_isIdle hidle
  split at h
  · cases h
    exact laneSees_tau (lane_setCall_same hc.symm)
  · rename_i ctx hctx
    cases h
    by_cases hr : reqId = r
    · subst hr
      refine ⟨.lookWake c userData, ?_, rfl⟩
      rw [lane_setCall, laneCall, if_pos rfl]
      exact .lookWake hc hctx
    · exact laneSees_tau (lane_setCall_same ((if_neg hr).trans hc.symm))

/-- A cancel of the id looks up the context; without one it has removed nothing. -/
theorem lane_cancel {c : κ} {reqId : ReqId} (h : s.step (.cancel c reqId) = some s') :
    LaneSees r s (.cancel c reqId) s' := by
  simp only [PoolSys.step, Option.ite_none_right_eq_some] at h
  obtain ⟨hidle, h⟩ := h
  have hc : laneCall r (s.calls c) = .idle := laneCall_of_isIdle hidle
  split at h
  · cases h
    exact laneSees_tau (lane_setCall_same hc.symm)
  · split at h
    · cases h
      exact laneSees_tau (lane_setCall_same hc.symm)
    · rename_i ctx hctx
      cases h
      by_cases hr : reqId = r
      · subst hr
        refine ⟨.lookCancel c, ?_, rfl⟩
        rw [lane_setCall, laneCall, if_pos rfl]
        exact .lookCancel hc hctx
      · exact laneSees_tau (lane_setCall_same ((if_neg hr).trans hc.symm))

/-- The scan and the building of nodes keep the submission before its queue edit, or end it. -/
theorem laneSees_submitting {c : κ} {sub : Submission α} {pc : Call α} {alloc : Alloc}
    (hc : laneCall r (s.calls c) = if sub.requestId = r then .submitting else .idle)
    (hpc : laneCall r pc = .idle ∨ laneCall r pc = laneCall r (s.calls c)) :
    LaneSees r s (.advance c alloc) (s.setCall c pc) := by
  by_cases hsame : laneCall r pc = laneCall r (s.calls c)
  · exact laneSees_tau (lane_setCall_same hsame)
  · have hidle : laneCall r pc = .idle := hpc.resolve_right hsame
    have hsub : laneCall r (s.calls c) = .submitting := by
      by_cases hr : sub.requestId = r
      · rw [hc, if_pos hr]
      · rw [hc, if_neg hr] at hsame
        exact absurd hidle hsame
    refine ⟨.giveUp c, ?_, alloc, rfl⟩
    rw [lane_setCall, hidle]
    exact .giveUp hsub

/-- The choice of a worker is not seen, unless the pool has none. -/
theorem lane_selecting {c : κ} {alloc : Alloc} {sub : Submission α} {made : List (TaskNode α)}
    {i : Nat} {best : Option BestWorker} (hc : s.calls c = .selecting sub made i best)
    (h : s.advance c alloc = some s') : LaneSees r s (.advance c alloc) s' := by
  have hlane : laneCall r (s.calls c) = if sub.requestId = r then .submitting else .idle := by
    rw [hc]; rfl
  simp only [PoolSys.advance, hc] at h
  split at h
  · split at h <;> cases h
    · exact laneSees_submitting hlane (.inr ((laneCall_selectedWorker ..).trans hlane.symm))
    · exact laneSees_submitting hlane (.inr hlane.symm)
  · split at h <;> cases h
    · exact laneSees_submitting hlane (.inl rfl)
    · exact laneSees_submitting hlane (.inr ((laneCall_selectedWorker ..).trans hlane.symm))

/-- Nor are the allocations, unless one fails. -/
theorem lane_building {c : κ} {alloc : Alloc} {sub : Submission α} {made : List (TaskNode α)}
    {worker : Option Nat} {todo : List (ThreadPoolTask α)}
    (hc : s.calls c = .building sub worker made todo) (h : s.advance c alloc = some s') :
    LaneSees r s (.advance c alloc) s' := by
  have hlane : laneCall r (s.calls c) = if sub.requestId = r then .submitting else .idle := by
    rw [hc]; rfl
  simp only [PoolSys.advance, hc] at h
  split at h
  · cases h
  · cases h
    exact laneSees_submitting hlane (.inl rfl)
  · -- drawing a task id is invisible to the lane
    have hid : ∀ pc, LaneSees r s (.advance c alloc) (s.setCall c pc) →
        LaneSees r s (.advance c alloc)
          ({ s with nextTaskId := s.nextTaskId + 1 }.setCall c pc) := fun _ hpc => hpc
    split at h <;> cases h
    · exact hid _ (laneSees_submitting hlane (.inl rfl))
    · exact hid _ (laneSees_submitting hlane (.inr ((laneCall_builtNode ..).trans hlane.symm)))

theorem laneQueue_append (q q' : List (TaskNode α)) :
    laneQueue r (q ++ q') = laneQueue r q ++ laneQueue r q' := List.filter_append ..

/-- The nodes of one submission go to one lane. -/
theorem laneQueue_of_tagged {nodes : List (TaskNode α)} {r' : ReqId}
    (h : ∀ t ∈ nodes, t.requestId = r') : laneQueue r nodes = if r' = r then nodes else [] := by
  by_cases hr : r' = r
  · rw [if_pos hr]
    exact List.filter_eq_self.mpr fun t ht => by simp [h t ht, hr]
  · rw [if_neg hr]
    exact List.filter_eq_nil_iff.mpr fun t ht => by simp [h t ht, hr]

omit [DecidableEq κ] in
/-- Replacing a worker by one that holds the same of `r` is no step of the lane. -/
theorem lane_setWorker_same {w : Nat} {worker : WorkerThread α}
    (hq : laneQueue r worker.queue = laneQueue r (s.workers w).queue)
    (hp : laneWakes r worker.pending = laneWakes r (s.workers w).pending)
    (he : laneExec r worker.exec = laneExec r (s.workers w).exec) :
    lane r (s.setWorker w worker) = lane r s := by
  rw [lane_setWorker, hq, hp, he]
  exact Lane.ext rfl (Function.update_eq_self w _) (Function.update_eq_self w _)
    (Function.update_eq_self w _) rfl rfl

omit [DecidableEq κ] in
/-- An event that serves nothing of the id is not seen. -/
theorem lane_record_same {events : List (PoolEvent κ α)} (h : servedOf r events = []) :
    lane r (s.record events) = lane r s := by
  rw [lane_record, h, List.append_nil]

/-- The nodes of a submission appear in the lane of its id, all at once. -/
theorem lane_attaching {c : κ} {alloc : Alloc} {sub : Submission α} {w : Nat}
    {nodes : List (TaskNode α)} (hc : s.calls c = .attaching sub w nodes)
    (htag : ∀ t ∈ nodes, t.requestId = sub.requestId) (h : s.advance c alloc = some s') :
    LaneSees r s (.advance c alloc) s' := by
  have hlane : laneCall r (s.calls c) = if sub.requestId = r then .submitting else .idle := by
    rw [hc]; rfl
  simp only [PoolSys.advance, hc] at h
  split at h <;> cases h
  · exact laneSees_submitting hlane (.inl rfl)
  · have hserved : servedOf r (nodes.map (PoolEvent.attached c w)) = [] := by
      simp [servedOf]
    by_cases hr : sub.requestId = r
    · rw [if_pos hr] at hlane
      refine ⟨.attach c w nodes, ?_, sub, alloc, rfl, hc, hr⟩
      have hstep := LaneStep.attach (L := lane r s) (w := w) hlane (fun t ht => (htag t ht).trans hr)
      rw [lane_setCall, lane_record_same hserved, lane_setWorker]
      have hx : Function.update (lane r s).exec w (laneExec r (s.workers w).exec)
          = (lane r s).exec := Function.update_eq_self w _
      have hp : Function.update (lane r s).wakes w (laneWakes r (s.workers w).pending)
          = (lane r s).wakes := Function.update_eq_self w _
      simpa only [attachNodesToWorker, laneQueue_append, laneQueue_of_tagged htag, laneCall, hr,
        if_pos, hx, hp, lane_queue] using hstep
    · rw [if_neg hr] at hlane
      refine laneSees_tau ((lane_setCall_same ?_).trans ?_)
      · exact (if_neg hr).trans hlane.symm
      · rw [lane_record_same hserved]
        refine lane_setWorker_same ?_ rfl rfl
        rw [attachNodesToWorker, laneQueue_append, laneQueue_of_tagged htag, if_neg hr,
          List.append_nil]

/-- The context of the id is made or raised, unless there is no memory for it. -/
theorem lane_recording {c : κ} {alloc : Alloc} {sub : Submission α} {w : Nat}
    {nodes : List (TaskNode α)} (hc : s.calls c = .recording sub w nodes)
    (h : s.advance c alloc = some s') : LaneSees r s (.advance c alloc) s' := by
  have hlane : laneCall r (s.calls c) =
      if sub.requestId = r then .recording w nodes.length else .idle := by
    rw [hc]; rfl
  simp only [PoolSys.advance, hc] at h
  cases h
  by_cases hr : sub.requestId = r
  · rw [if_pos hr] at hlane
    refine ⟨.record c (sub.single || alloc == .ok), ?_, sub, w, nodes, alloc, rfl, hc, hr, rfl⟩
    have hstep : LaneStep r (lane r s) (.record c (sub.single || alloc == .ok))
        { lane r s with
          ctx := recordedContext (sub.single || alloc == .ok) r w nodes.length
            (if sub.single then none else sub.batchCb) (lane r s).ctx
          calls := Function.update (lane r s).calls c .idle } := .record hlane
    rw [lane_setCall, lane_reqHash, find_updateBatchContext, if_pos hr.symm]
    simpa only [laneCall, hr, lane_ctx] using hstep
  · rw [if_neg hr] at hlane
    refine laneSees_tau ((lane_setCall_same ?_).trans ?_)
    · exact hlane.symm
    · rw [lane_reqHash, find_updateBatchContext, if_neg (Ne.symm hr)]
      rfl

/-- The worker looked up has the wake-up appended, or there was no memory. -/
theorem lane_waking {c : κ} {alloc : Alloc} {reqId : ReqId} {userData : BitVec 64} {w : Nat}
    (hc : s.calls c = .waking reqId userData w) (h : s.advance c alloc = some s') :
    LaneSees r s (.advance c alloc) s' := by
  have hlane : laneCall r (s.calls c) = if reqId = r then .waking userData w else .idle := by
    rw [hc]; rfl
  simp only [PoolSys.advance, hc] at h
  split at h <;> rename_i halloc <;> cases h <;> by_cases hr : reqId = r
  · rw [if_pos hr] at hlane
    refine ⟨.pushWake c, ?_, alloc, rfl⟩
    have hstep := LaneStep.pushWake (r := r) (L := lane r s) hlane
    have hq : Function.update (lane r s).queue w (laneQueue r (s.workers w).queue)
        = (lane r s).queue := Function.update_eq_self w _
    have hx : Function.update (lane r s).exec w (laneExec r (s.workers w).exec)
        = (lane r s).exec := Function.update_eq_self w _
    have hp : laneWakes r ((s.workers w).pending ++ [⟨reqId, userData⟩])
        = laneWakes r (s.workers w).pending ++ [userData] := by
      simp [laneWakes, hr]
    rw [lane_setCall, lane_setWorker]
    simpa only [workerPendingReqPush, laneCall, hq, hx, hp, lane_wakes] using hstep
  · rw [if_neg hr] at hlane
    refine laneSees_tau ((lane_setCall_same ?_).trans (lane_setWorker_same rfl ?_ rfl))
    · exact hlane.symm
    · simp [workerPendingReqPush, laneWakes, hr]
  · rw [if_pos hr] at hlane
    refine ⟨.dropWake c, ?_, alloc, rfl, halloc⟩
    rw [lane_setCall]
    exact .dropWake hlane
  · rw [if_neg hr] at hlane
    exact laneSees_tau (lane_setCall_same hlane.symm)

omit [DecidableEq κ] in
/-- Removing the tasks of an id leaves the tasks of every other. -/
theorem laneQueue_cancel {queue : List (TaskNode α)} {reqId : ReqId} :
    laneQueue r (queue.filter fun t => !(t.requestId == reqId)) =
      if reqId = r then [] else laneQueue r queue := by
  unfold laneQueue
  rw [List.filter_filter]
  split
  · rename_i hr
    exact List.filter_eq_nil_iff.mpr fun t _ => by simp [hr]
  · rename_i hr
    refine List.filter_congr fun t _ => ?_
    by_cases ht : t.requestId = r
    · simp [ht, Ne.symm hr]
    · simp [ht]

omit [DecidableEq κ] in
/-- A cancel takes the pending wake-ups of its id, and no others. -/
theorem laneWakes_cancel {pending : List PendingReqNode} {reqId : ReqId} :
    laneWakes r (pending.filter fun p => !(p.requestId == reqId)) =
      if reqId = r then [] else laneWakes r pending := by
  unfold laneWakes
  rw [List.filter_filter]
  split
  · rename_i hr
    rw [List.filter_eq_nil_iff.mpr fun p _ => by simp [hr]]
    rfl
  · rename_i hr
    congr 1
    refine List.filter_congr fun p _ => ?_
    by_cases hp : p.requestId = r
    · simp [hp, Ne.symm hr]
    · simp [hp]

/-- A cancel empties the lane at the worker it has looked up. -/
theorem lane_cancelling {c : κ} {alloc : Alloc} {reqId : ReqId} {w : Nat}
    (hc : s.calls c = .cancelling reqId w) (h : s.advance c alloc = some s') :
    LaneSees r s (.advance c alloc) s' := by
  have hlane : laneCall r (s.calls c) = if reqId = r then .cancelling w else .idle := by
    rw [hc]; rfl
  have hserved : servedOf r ((cancelledNodes (s.workers w) reqId).map (PoolEvent.cancelled c)) = [] := by
    simp [servedOf]
  simp only [PoolSys.advance, hc] at h
  cases h
  by_cases hr : reqId = r
  · rw [if_pos hr] at hlane
    refine ⟨.cancelQueue c, ?_, alloc, rfl⟩
    have hstep := LaneStep.cancelQueue (r := r) (L := lane r s) hlane
    have hx : Function.update (lane r s).exec w (laneExec r (s.workers w).exec)
        = (lane r s).exec := Function.update_eq_self w _
    have hpc : laneCall r (if (cancelledNodes (s.workers w) reqId).length % 2 ^ 32 > 0 then
          Call.uncounting (α := α) reqId (cancelledNodes (s.workers w) reqId).length
          else .done (.removed (cancelledNodes (s.workers w) reqId).length))
        = if ((lane r s).queue w).length % 2 ^ 32 > 0 then .uncounting ((lane r s).queue w).length
          else .idle := by
      subst hr
      rw [apply_ite (laneCall reqId)]
      simp only [laneCall, if_pos]
      rfl
    rw [lane_setCall, lane_record_same hserved, lane_setWorker, hpc]
    simpa only [cancelInWorkerQueue, laneQueue_cancel, laneWakes_cancel, if_pos hr, hx] using hstep
  · rw [if_neg hr] at hlane
    refine laneSees_tau ((lane_setCall_same ?_).trans ?_)
    · refine Eq.trans ?_ hlane.symm
      rw [apply_ite (laneCall r)]
      simp only [laneCall, if_neg hr, ite_self]
    · rw [lane_record_same hserved]
      refine lane_setWorker_same ?_ ?_ rfl
      · rw [cancelInWorkerQueue, laneQueue_cancel, if_neg hr]
      · rw [cancelInWorkerQueue, laneWakes_cancel, if_neg hr]

/-- What it has removed is subtracted from the context, which may go with it. -/
theorem lane_uncounting {c : κ} {alloc : Alloc} {reqId : ReqId} {removed : Nat}
    (hc : s.calls c = .uncounting reqId removed) (h : s.advance c alloc = some s') :
    LaneSees r s (.advance c alloc) s' := by
  have hlane : laneCall r (s.calls c) = if reqId = r then .uncounting removed else .idle := by
    rw [hc]; rfl
  simp only [PoolSys.advance, hc] at h
  cases h
  by_cases hr : reqId = r
  · rw [if_pos hr] at hlane
    refine ⟨.uncount c, ?_, alloc, rfl⟩
    have hstep := LaneStep.uncount (r := r) (L := lane r s) hlane
    rw [lane_setCall, lane_reqHash, find_updateContextAfterCancel, if_pos hr.symm]
    simpa only [laneCall, hr, lane_ctx] using hstep
  · rw [if_neg hr] at hlane
    refine laneSees_tau ((lane_setCall_same ?_).trans ?_)
    · exact hlane.symm
    · rw [lane_reqHash, find_updateContextAfterCancel, if_neg (Ne.symm hr)]
      rfl

omit [DecidableEq κ] in
/-- A task only answers wake-ups of its id. -/
theorem answersWakeUp_requestId {reqId : ReqId} {userData : BitVec 64} {t : TaskNode α}
    (h : answersWakeUp reqId userData t = true) : t.requestId = reqId := by
  unfold answersWakeUp at h
  rw [Bool.and_eq_true] at h
  exact eq_of_beq h.1

omit [DecidableEq κ] in
/-- Serving a wake-up of `r` looks only at the tasks of `r`. -/
theorem pop_laneQueue (queue : List (TaskNode α)) (userData : BitVec 64) :
    workerQueuePopByReqAndUserData (laneQueue r queue) r userData =
      (workerQueuePopByReqAndUserData queue r userData).map fun p => (p.1, laneQueue r p.2) :=
  Queue.popFirst_filter (fun _ h => beq_iff_eq.mpr (answersWakeUp_requestId h)) queue

omit [DecidableEq κ] in
/-- The wake-ups of a lane, from the front. -/
theorem laneWakes_cons (p : PendingReqNode) (pending : List PendingReqNode) :
    laneWakes r (p :: pending) =
      if p.requestId = r then p.userData :: laneWakes r pending else laneWakes r pending := by
  unfold laneWakes
  by_cases hp : p.requestId = r
  · simp [hp]
  · simp [hp]

omit [DecidableEq κ] in
/-- What one iteration of the worker loop does, by cases. -/
theorem pop_cases {w : Nat} (h : s.pop w = some s') :
    (s.workers w).exec = .loop ∧ w < s.workerCount ∧
    (((s.workers w).pending = [] ∧ s' = s.setWorker w { s.workers w with state := .idle }) ∨
     (∃ p pending task queue, (s.workers w).pending = p :: pending ∧
        workerQueuePopByReqAndUserData (s.workers w).queue p.requestId p.userData
          = some (task, queue) ∧
        s' = (s.setWorker w ⟨queue, pending, .busy, .running task p.requestId p.userData⟩).record
          [.taken w task p.userData]) ∨
     (∃ p pending, (s.workers w).pending = p :: pending ∧
        workerQueuePopByReqAndUserData (s.workers w).queue p.requestId p.userData = none ∧
        s' = (s.setWorker w { s.workers w with pending, state := .idle }).record
          [.missed w p.requestId p.userData])) := by
  unfold PoolSys.pop at h
  split at h
  · rename_i hexec
    split at h
    · rename_i hw
      refine ⟨hexec, hw, ?_⟩
      unfold workerRoutine at h
      cases hp : (s.workers w).pending with
      | nil =>
        left
        simp only [hp, Option.some.injEq] at h
        refine ⟨rfl, ?_⟩
        rw [← h]
        simp [PoolSys.record, hp]
      | cons p pending =>
        right
        simp only [hp] at h
        cases hq : workerQueuePopByReqAndUserData (s.workers w).queue p.requestId p.userData with
        | some tq =>
          obtain ⟨task, queue⟩ := tq
          left
          simp only [hq, Option.some.injEq] at h
          exact ⟨p, pending, task, queue, rfl, hq, h.symm⟩
        | none =>
          right
          simp only [hq, hexec, Option.some.injEq] at h
          exact ⟨p, pending, rfl, hq, by rw [← h]; simp [hexec]⟩
    · cases h
  · cases h

/-- A worker that pops a wake-up of the id takes the task it names, or finds none. -/
theorem lane_pop {w : Nat} (h : s.pop w = some s') : LaneSees r s (.pop w) s' := by
  obtain ⟨hexec, -, ⟨hp, rfl⟩ | ⟨p, pending, task, queue, hp, hq, rfl⟩ | ⟨p, pending, hp, hq, rfl⟩⟩ :=
    pop_cases h
  · exact laneSees_tau (lane_setWorker_same rfl rfl rfl)
  · have htask : task.requestId = p.requestId :=
      answersWakeUp_requestId (Queue.popFirst_mem hq).2
    by_cases hr : p.requestId = r
    · refine ⟨.take w task p.userData, ?_, rfl⟩
      have hwake : (lane r s).wakes w = p.userData :: laneWakes r pending := by
        rw [lane_wakes, hp, laneWakes_cons, if_pos hr]
      have hpop : workerQueuePopByReqAndUserData ((lane r s).queue w) r p.userData
          = some (task, laneQueue r queue) := by
        rw [lane_queue, pop_laneQueue, ← hr, hq, Option.map_some]
      have hloop : (lane r s).exec w = .loop := by rw [lane_exec, hexec]; rfl
      have hstep := LaneStep.take hloop hwake hpop
      rw [lane_record, lane_setWorker]
      simpa only [laneExec, servedOf, if_pos hr, hr, htask, List.filterMap_cons,
        List.filterMap_nil, if_true] using hstep
    · refine laneSees_tau ((lane_record_same ?_).trans (lane_setWorker_same ?_ ?_ ?_))
      · simp [servedOf, htask, hr]
      · exact Queue.popFirst_filter_other hq (by simpa [htask] using hr)
      · rw [hp, laneWakes_cons, if_neg hr]
      · rw [hexec]
        exact if_neg hr
  · by_cases hr : p.requestId = r
    · refine ⟨.miss w p.userData, ?_, rfl⟩
      have hwake : (lane r s).wakes w = p.userData :: laneWakes r pending := by
        rw [lane_wakes, hp, laneWakes_cons, if_pos hr]
      have hpop : workerQueuePopByReqAndUserData ((lane r s).queue w) r p.userData = none := by
        rw [lane_queue, pop_laneQueue, ← hr, hq, Option.map_none]
      have hloop : (lane r s).exec w = .loop := by rw [lane_exec, hexec]; rfl
      have hstep := LaneStep.miss hloop hwake hpop
      have hqu : Function.update (lane r s).queue w (laneQueue r (s.workers w).queue)
          = (lane r s).queue := Function.update_eq_self w _
      have hx : Function.update (lane r s).exec w (laneExec r (s.workers w).exec)
          = (lane r s).exec := Function.update_eq_self w _
      rw [lane_record, lane_setWorker]
      simpa only [servedOf, if_pos hr, hqu, hx, List.filterMap_cons, List.filterMap_nil] using hstep
    · refine laneSees_tau ((lane_record_same ?_).trans (lane_setWorker_same rfl ?_ rfl))
      · simp [servedOf, hr]
      · rw [hp, laneWakes_cons, if_neg hr]

/-- What a task of the id returned. -/
theorem lane_finish {w : Nat} {ret : Int} (h : s.finish w ret = some s') :
    LaneSees r s (.finish w ret) s' := by
  unfold PoolSys.finish at h
  split at h
  · rename_i task reqId userData hexec
    cases h
    have hserved : servedOf r (PoolSys.finishEvents (κ := κ) w task ret) = [] := by
      unfold PoolSys.finishEvents
      cases task.taskArg.completeCb <;> rfl
    by_cases hr : reqId = r
    · refine ⟨.finish w ret, ?_, rfl⟩
      have hrun : (lane r s).exec w = .running task r userData := by
        rw [lane_exec, hexec, ← hr]
        exact if_pos rfl
      have hstep : LaneStep r (lane r s) (.finish w ret) _ := .finish hrun
      have hqu : Function.update (lane r s).queue w (laneQueue r (s.workers w).queue)
          = (lane r s).queue := Function.update_eq_self w _
      have hp : Function.update (lane r s).wakes w (laneWakes r (s.workers w).pending)
          = (lane r s).wakes := Function.update_eq_self w _
      rw [lane_record_same hserved, lane_setWorker]
      simpa only [laneExec, hr, if_true, hqu, hp] using hstep
    · refine laneSees_tau ((lane_record_same hserved).trans (lane_setWorker_same rfl rfl ?_))
      rw [hexec]
      exact (if_neg hr).trans (if_neg hr).symm
  · cases h

/-- A task of the id is counted off its context. -/
theorem lane_account {w : Nat} (h : s.account w = some s') : LaneSees r s (.account w) s' := by
  unfold PoolSys.account at h
  split at h
  · rename_i task reqId ret hexec
    cases h
    have hserved : servedOf r ((accountBatchCb s.reqHash reqId).toList.map
        (PoolSys.batchCbEvent (κ := κ) (α := α))) = [] := by
      cases accountBatchCb s.reqHash reqId <;> rfl
    by_cases hr : reqId = r
    · refine ⟨.account w, ?_, rfl⟩
      have hret : (lane r s).exec w = .returned task r ret := by
        rw [lane_exec, hexec, ← hr]
        exact if_pos rfl
      have hstep := LaneStep.account hret
      have hqu : Function.update (lane r s).queue w (laneQueue r (s.workers w).queue)
          = (lane r s).queue := Function.update_eq_self w _
      have hp : Function.update (lane r s).wakes w (laneWakes r (s.workers w).pending)
          = (lane r s).wakes := Function.update_eq_self w _
      rw [lane_record_same hserved, lane_setWorker, lane_reqHash, find_accountTask, if_pos hr.symm]
      rw [← hr] at hstep hqu hp ⊢
      simpa only [laneExec, hqu, hp, lane_ctx] using hstep
    · have hctx : lane r (s.setReqHash (accountTask s.reqHash reqId)) = lane r s := by
        rw [lane_reqHash, find_accountTask, if_neg (Ne.symm hr)]
        rfl
      have hx : laneExec r (.loop : Exec α) = laneExec r (s.workers w).exec := by
        rw [hexec]
        exact (if_neg hr).symm
      refine laneSees_tau ((lane_record_same hserved).trans (Eq.trans ?_ hctx))
      exact lane_setWorker_same rfl rfl hx
  · cases h

/-- Every step of the pool is a step of the lane of every id. -/
theorem lane_step {a : PoolAction κ α} (hcarry : s.Carries) (h : s.step a = some s') :
    LaneSees r s a s' := by
  cases a with
  | submit c sub alloc => exact lane_submit h
  | wake c reqId userData => exact lane_wake h
  | cancel c reqId => exact lane_cancel h
  | advance c alloc =>
    have hcarry := hcarry c
    cases hc : s.calls c with
    | idle => simp [PoolSys.step, PoolSys.advance, hc] at h
    | done result => simp [PoolSys.step, PoolSys.advance, hc] at h
    | selecting sub made i best => exact lane_selecting hc h
    | building sub worker made todo => exact lane_building hc h
    | attaching sub w nodes =>
      rw [hc] at hcarry
      exact lane_attaching hc (requestId_of_created hcarry.2) h
    | recording sub w nodes => exact lane_recording hc h
    | waking reqId userData w => exact lane_waking hc h
    | cancelling reqId w => exact lane_cancelling hc h
    | uncounting reqId removed => exact lane_uncounting hc h
  | collect c =>
    simp only [PoolSys.step] at h
    split at h
    · rename_i res hc
      cases h
      refine laneSees_tau (lane_setCall_same ?_)
      rw [hc]; rfl
    · cases h
  | pop w => exact lane_pop h
  | finish w ret => exact lane_finish h
  | account w => exact lane_account h

/-- A step of the pool that is none of the lane leaves it as it is. -/
theorem lane_tau {L' : Lane κ α} (hl : LaneStep r (lane r s) .tau L') :
    L' = lane r s := by
  cases hl
  rfl

end Step

end OsTransport
