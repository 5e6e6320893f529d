/-
  Who frees the object of a request, and when.

  The life of one request (`OsTransport.RequestView`) and the ledger together say where every task
  of a request is.  Three things follow:

  * nothing is freed early or twice (`freed_once`): as long as only its owner cancels a request,
    the counters of the shared object account for every task that has ended, so the object is
    only taken when no task is left, and nobody touches it afterwards;
  * a request without failed tasks does not leak (`released_request_freed`) — a failed task is
    never accounted, so one with failed tasks does (`failed_task_leaks`);
  * a waiter is released unless the tasks it waits for are removed behind its back
    (`waiter_released`, `foreign_cancel_strands_waiter`).

  1. `CancelsOwn`: the tasks removed from a request are those its owner's cancels have removed, as
     long as nobody else cancels its id (`cancelsOwn_reach`);
  2. with that the counters of the object and the bags of the ledger are two counts of the same
     tasks (`tasks_accounted`), and the verdict "all accounted for" means that no task is queued or
     in execution (`no_task_left`);
  3. `freed_once` joins 2 with the token of `OsTransport.RequestView`: one party takes the object, at
     a moment when 2 holds, and no step after it reads or writes the object (`no_access`);
  4. `released_request_freed` is about a run that has come to rest: every attached task has ended, so
     if none has failed the counters have reached the total, and the last one to count saw that;
  5. `waiter_released` is 1 and 2 seen by a waiter: with nothing left to run, its loop would end.
-/
import OsTransport.Nodes

namespace OsTransport

open Transition Total

/-! ## Whose tasks a cancel removes

Where an id is cancelled with its own handle only, what is removed of a request was removed by its
owner, who counts it. -/

/-- `r` is cancelled with the handle of request `q`, and nothing else is cancelled with it. -/
def OwnCancels (q : Nat) (r : ReqId) (_ : Transport) : Action → Prop
  | .callCancel q' reqId => reqId = r ↔ q' = q
  | .callCancelId _ reqId => reqId ≠ r
  | _ => True

/-- The tasks of request `q` are removed by its own cancel, and that removes no others.  So what the
    cancel returns is what is missing from the request. -/
structure CancelsOwn (q : Nat) (r : ReqId) (s : Transport) : Prop where
  calls : ∀ c reqId w, s.pool.calls c = .cancelling reqId w → (reqId = r ↔ c = .owner q)
  removed : ∀ c t, .cancelled c t ∈ s.pool.log → (c = .owner q ↔ t.ptr.sync = q)

section Own

variable {workerCount : Nat} {capacity : BitVec 32} {s s' : Transport} {q : Nat} {r : ReqId}

/-- A waiting owner cancels by the id of its request. -/
theorem requestId_of_failed {task : ThreadPoolTask ArgPtr} {tasks : List (ThreadPoolTask ArgPtr)}
    {wait : WaitRet} (hinv : RequestInv q (s.view q)) (ho : (s.reqs q).owner = .failed wait)
    (ht : (s.reqs q).prep.tasks = task :: tasks) : task.requestId = (s.reqs q).prep.requestId := by
  obtain ⟨hh, -⟩ := hinv.owned.active_of ho (by simp)
  obtain ⟨-, hp, -⟩ := hinv.stage.of_bound (.inr (.inl hh))
  exact hp.requestId_eq task (by
    show task ∈ (s.reqs q).prep.tasks
    rw [ht]
    exact List.mem_cons_self)

/-- One step keeps it so: the request's tasks are removed by its own cancel. -/
theorem CancelsOwn.step {ok : Transport → Action → Prop} {a : Action} (h : CancelsOwn q r s)
    (hr : (transportSystem workerCount capacity).Reach ok s) (hid : s.OwnsId q r)
    (ha : OwnCancels q r s a) (hs : s.step a = some s') : CancelsOwn q r s' := by
  rcases (Transport.move_of_step hs).pool with hpool | ⟨pa, hpa, hpool⟩
  · exact ⟨by rw [hpool]; exact h.calls, by rw [hpool]; exact h.removed⟩
  refine ⟨fun c reqId w hc => ?_, fun c t ht => ?_⟩
  · rcases PoolSys.cancelling_effect hpool hc with hold | rfl
    · exact h.calls c reqId w hold
    · rcases hpa with ⟨q', rfl, rfl | ⟨cond, wait, task, tasks, rfl, ho, htasks, rfl⟩⟩ | ⟨k, rfl, rfl⟩
      · rw [show (reqId = r ↔ q' = q) from ha]
        simp
      · rw [requestId_of_failed (request_inv hr q') ho htasks, hid q' (by simp [htasks])]
        simp
      · have hne : reqId ≠ r := ha
        simpa using hne
  · rcases PoolSys.cancelled_effect hpool ht with hold | ⟨al, reqId, w, -, hcall, hmem, rfl⟩
    · exact h.removed c t hold
    · have hbuilt := (nodes_reach hr).queued w t hmem
      rw [← h.calls c _ w hcall, hbuilt.requestId, hid _ hbuilt.made]

/-- In every run in which its id is cancelled with its own handle only, they are. -/
theorem cancelsOwn_reach (h : (transportSystem workerCount capacity).Reach (OwnCancels q r) s)
    (hid : s.OwnsId q r) : CancelsOwn q r s := by
  refine System.Reach.invariant_while (P := fun s => s.OwnsId q r) (I := CancelsOwn q r) ?_ ?_ ?_ h hid
  · intro s a s' hr hs hid'
    exact OwnsId.back hr hs hid'
  · rintro s rfl -
    exact ⟨fun c reqId w hc => (by cases hc), fun c t ht => by cases ht⟩
  · intro s a s' hr hid' hI ha hs
    exact hI.step hr (OwnsId.back hr hs hid') ha hs

theorem mem_removals {log : List (PoolEvent Proc ArgPtr)} {x : Proc × ArgPtr} :
    x ∈ removals log ↔ ∃ t, .cancelled x.1 t ∈ log ∧ t.ptr = x.2 := by
  unfold removals
  rw [List.mem_filterMap]
  constructor
  · rintro ⟨e, he, hx⟩
    cases e with
    | cancelled c t =>
      cases hx
      exact ⟨t, he, rfl⟩
    | _ => cases hx
  · rintro ⟨t, ht, hx⟩
    exact ⟨_, ht, congrArg (fun p => some (x.1, p)) hx⟩

/-- Seen through the request, its cancel removed its tasks and nothing else did. -/
theorem CancelsOwn.view (h : CancelsOwn q r s) :
    (s.view q).removedByOwner = (s.view q).removed ∧ (s.view q).ownRemoved = (s.view q).removed := by
  constructor <;> refine List.countP_congr fun x hx => ?_ <;>
    obtain ⟨t, ht, hptr⟩ := mem_removals.mp hx <;> have hiff := h.removed _ _ ht <;>
    rw [hptr] at hiff
  · simpa using hiff
  · simp only [Bool.and_eq_true, beq_iff_eq]
    exact ⟨fun hx => hx.2, fun hx => ⟨hiff.mpr hx, hx⟩⟩

end Own

/-! ## The object is freed once, after the last task

The counters, the ledger and the token: when the object is taken, no task is left that could touch
it. -/

/-- Request `q` has `n` tasks in the worker queues. -/
def Transport.QueuedTasks (s : Transport) (q n : Nat) : Prop :=
  HasTotal (fun w : WorkerThread ArgPtr => w.queue.countP fun t => t.ptr.sync == q)
    s.pool.workers n

/-- The worker executes a task of request `q`: it has taken it from its queue and not run
    `mark_task_group_completed`. -/
def executes (q : Nat) (x : WorkerThread ArgPtr × Body) : Bool :=
  match x.1.exec with
  | .running task _ _ => x.2.unmarked && task.ptr.sync == q
  | _ => false

/-- Request `q` has `n` tasks in execution. -/
def Transport.ExecutingTasks (s : Transport) (q n : Nat) : Prop :=
  HasTotal (fun x => (executes q x).toNat) s.running n

/-- The tasks of request `q` that failed. -/
def Transport.failedTasks (s : Transport) (q : Nat) : Nat :=
  (marks s.trace).countP fun x => x.1.sync == q && !x.2

/-- The owner has removed tasks, or is about to, and has not counted them. -/
def OwnerPc.uncounted : OwnerPc → Bool
  | .cancelling _ => true
  | .adding _ _ => true
  | _ => false

/-- The step reads or writes the object of request `q`, its chunks or its task group. -/
def Transport.Accesses (s : Transport) (q : Nat) : Action → Prop
  | .caller q' _ _ => q' = q
  | .callWait q' _ => q' = q
  | .callCancel q' _ => q' = q
  | .owner q' _ => q' = q
  | .worker w _ =>
    match (s.pool.workers w).exec with
    | .running task _ _ => task.ptr.sync = q ∧ ∀ ret, s.body w ≠ .finish ret
    | _ => False
  | _ => False

section Once

variable {workerCount : Nat} {capacity : BitVec 32} {ok : Transport → Action → Prop}
  {s s' : Transport} {q : Nat} {r : ReqId} {Q E : Multiset ArgPtr}

/-- The queued tasks of a request, counted. -/
theorem Ledger.queuedTasks (h : Ledger s Q E) (q : Nat) :
    s.QueuedTasks q (Q.countP (·.sync = q)) := by
  refine (h.queued.map (Multiset.countPAddMonoidHom (·.sync = q))).congr fun w => ?_
  show _ = Multiset.countP _ (queuedBag (s.pool.workers w))
  unfold queuedBag
  rw [Multiset.coe_countP, List.countP_map]
  rfl

/-- A worker executes at most one task of a request. -/
theorem countP_executingBag (q : Nat) (x : WorkerThread ArgPtr × Body) :
    (executingBag x).countP (·.sync = q) = (executes q x).toNat := by
  unfold executes executingBag
  cases x.1.exec with
  | running task _ _ =>
    cases x.2.unmarked with
    | false => rfl
    | true =>
      show Multiset.countP _ {task.ptr} = (true && task.ptr.sync == q).toNat
      rw [Bool.true_and, ← Multiset.cons_zero, Multiset.countP_cons, Multiset.countP_zero]
      by_cases hq : task.ptr.sync = q
      · simp [hq]
      · rw [if_neg hq, beq_eq_false_iff_ne.mpr hq]
        rfl
  | _ => rfl

/-- The tasks of a request in execution, counted. -/
theorem Ledger.executingTasks (h : Ledger s Q E) (q : Nat) :
    s.ExecutingTasks q (E.countP (·.sync = q)) := by
  refine (h.executing.map (Multiset.countPAddMonoidHom (·.sync = q))).congr fun w => ?_
  exact (countP_executingBag q _).symm

/-- The object is taken only when the request is accounted for and its owner is done. -/
theorem RequestInv.taken {v : RequestView} (h : RequestInv q v) (hf : v.req.sync.freeing = true) :
    (∃ ret, v.req.owner = .freeing ret ∨ v.req.owner = .returned ret) ∧ v.Settled ∧
    v.req.sync.allTasksAccounted = true := by
  have hready := h.token.ready hf
  simp only [TaskSync.ready, Bool.and_eq_true] at hready
  obtain ⟨⟨hrel, -⟩, hacc⟩ := hready
  cases h.owned.stage with
  | released ho _ _ hset => exact ⟨⟨_, ho⟩, hset, hacc⟩
  | before _ hrel' => rw [hrel] at hrel'; cases hrel'
  | cancelling _ _ hrel' => rw [hrel] at hrel'; cases hrel'
  | adding _ _ hrel' => rw [hrel] at hrel'; cases hrel'
  | releasing _ _ hrel' => rw [hrel] at hrel'; cases hrel'

/-- A registered request has queued a task. -/
theorem RequestInv.attached_ne_nil {v : RequestView} (h : RequestInv q v) (hb : v.req.bound = true) :
    v.attached ≠ [] := by
  obtain ⟨-, hp, -, -, ha⟩ := h.stage.of_bound (.inl hb)
  intro hnil
  have hlen := congrArg List.length (ha.symm.trans hnil)
  rw [List.length_map, List.length_nil, hp.tasks_length] at hlen
  have hpos := hp.chunks_pos
  omega

/-- What the owner has counted is what was removed, when nobody else removes. -/
theorem RequestInv.canceled {v : RequestView} (h : RequestInv q v)
    (hown : v.removedByOwner = v.removed) (hb : v.req.bound = true)
    (ho : v.req.owner.uncounted = false) : v.req.sync.canceledTasks = v.removed := by
  obtain ⟨-, hp, ht, -, ha⟩ := h.stage.of_bound (.inl hb)
  have hlen : v.attached.length = v.req.sync.totalTasks := by rw [ht, ha, List.length_map]
  have hfits := h.fits
  have hcompleted := h.counted.completed
  unfold RequestView.Fits at hfits
  have hsettled : v.Settled → v.req.sync.canceledTasks = v.removed := by
    rintro ⟨hle, heq⟩
    omega
  cases h.owned.stage with
  | before _ _ hcan hrem => rw [hcan, ← hown, hrem]
  | cancelling ho' => rw [ho'] at ho; cases ho
  | adding ho' => rw [ho'] at ho; cases ho
  | releasing _ _ _ hset => exact hsettled hset
  | released _ _ _ hset => exact hsettled hset

/-- Only a thread that has taken the object frees it. -/
theorem RequestStep.freed {v v' : RequestView} (hs : RequestStep q v v') (h : RequestInv q v) :
    v'.req.freed = v.req.freed ∨ v.req.sync.freeing = true := by
  have hheld : ∀ m, HasTotal Bool.toNat v.freer m → 0 < m + v.req.owner.holds →
      v.req.sync.freeing = true := by
    intro m hm hpos
    obtain ⟨m', hm', heq⟩ := h.token.held
    obtain rfl := hm.unique hm'
    by_contra hne
    rw [Bool.eq_false_iff.mpr hne, Bool.toNat_false] at heq
    omega
  obtain ⟨m, hm, -⟩ := h.token.held
  cases hs with
  | addFree ho => exact absurd ho (h.owned.stage.ne _).1
  | ownerFree ho => exact .inr (hheld m hm (by rw [ho]; exact Nat.succ_pos _))
  | @workerFree w hw =>
    have hle : (v.freer w).toNat ≤ m := hm.le w
    rw [hw, Bool.toNat_true] at hle
    exact .inr (hheld m hm (by omega))
  | _ => exact .inl rfl

/-- With its own cancel only, a request is accounted for task by task. -/
theorem tasks_accounted (h : (transportSystem workerCount capacity).Reach (OwnCancels q r) s)
    (hid : s.OwnsId q r) (hL : Ledger s Q E) (hb : (s.reqs q).bound = true)
    (ho : (s.reqs q).owner.uncounted = false) :
    (s.reqs q).sync.completedTasks + (s.reqs q).sync.canceledTasks + s.failedTasks q
      + E.countP (·.sync = q) + Q.countP (·.sync = q) = (s.reqs q).sync.totalTasks := by
  have hinv := request_inv h q
  have hown := (cancelsOwn_reach h hid).view.1
  have hcanceled : (s.reqs q).sync.canceledTasks = (s.view q).removed := hinv.canceled hown hb ho
  have hcompleted : (s.reqs q).sync.completedTasks = (s.view q).succeeded := hinv.counted.completed
  have hfailed : s.failedTasks q = (s.view q).failed := rfl
  obtain ⟨-, -, ht, -, ha⟩ := hinv.stage.of_bound (.inl hb)
  have hlen : (s.view q).attached.length = (s.reqs q).sync.totalTasks := by
    rw [ha, List.length_map]
    exact ht.symm
  have hledger := hL.request q
  omega

/-- While the object is taken no task of the request is left. -/
theorem no_task_left (h : (transportSystem workerCount capacity).Reach (OwnCancels q r) s)
    (hid : s.OwnsId q r) (hL : Ledger s Q E) (hf : (s.reqs q).sync.freeing = true) :
    s.failedTasks q = 0 ∧ E.countP (·.sync = q) = 0 ∧ Q.countP (·.sync = q) = 0 := by
  have hinv := request_inv h q
  obtain ⟨⟨ret, ho⟩, -, hacc⟩ := hinv.taken hf
  have hne : (s.reqs q).owner ≠ .idle := by
    rcases ho with ho | ho <;> exact fun h => by rw [show (s.reqs q).owner = _ from ho] at h; cases h
  obtain ⟨hh, -⟩ := hinv.owned.active hne
  obtain ⟨-, hp, ht, hb, -⟩ := hinv.stage.of_bound (.inr (.inl hh))
  have huncounted : (s.reqs q).owner.uncounted = false := by
    rcases ho with ho | ho <;> rw [show (s.reqs q).owner = _ from ho] <;> rfl
  have hpos : 0 < (s.reqs q).sync.totalTasks := by
    rw [show (s.reqs q).sync.totalTasks = _ from ht, hp.tasks_length]
    exact hp.chunks_pos
  have hle := (TaskSync.allTasksAccounted_iff hpos).mp hacc
  have hsum := tasks_accounted h hid hL hb huncounted
  omega

/-- Once the object was freed its owner has returned, and no worker is about to free it. -/
theorem RequestInv.after_free {v : RequestView} (h : RequestInv q v) (hfreed : 0 < v.req.freed) :
    v.req.sync.freeing = true ∧ (∃ ret, v.req.owner = .returned ret) ∧
    (∃ ok st, v.req.caller = .returned ok st) ∧ ∀ w, v.freer w = false := by
  obtain ⟨m, hm, hheld⟩ := h.token.held
  have hfreeing : v.req.sync.freeing = true := by
    by_contra hne
    rw [Bool.eq_false_iff.mpr hne, Bool.toNat_false] at hheld
    omega
  rw [hfreeing, Bool.toNat_true] at hheld
  obtain ⟨⟨ret, ho⟩, -, -⟩ := h.taken hfreeing
  have howner : v.req.owner = .returned ret := by
    rcases ho with ho | ho
    · rw [ho, show (OwnerPc.freeing ret).holds = 1 from rfl] at hheld
      omega
    · exact ho
  refine ⟨hfreeing, ⟨ret, howner⟩, (h.owned.active_of howner (by simp)).2, fun w => ?_⟩
  have hle : (v.freer w).toNat ≤ m := hm.le w
  cases hw : v.freer w with
  | false => rfl
  | true =>
    rw [hw, Bool.toNat_true] at hle
    omega

/-- After the object was freed nobody touches it. -/
theorem no_access (h : (transportSystem workerCount capacity).Reach (OwnCancels q r) s)
    (hid : s.OwnsId q r) (hfreed : 0 < (s.reqs q).freed) {a : Action} (hs : s.step a = some s') :
    ¬ s.Accesses q a := by
  obtain ⟨hfreeing, ⟨ret, howner⟩, ⟨ok, st, hcaller⟩, hfreer⟩ := (request_inv h q).after_free hfreed
  have howner : (s.reqs q).owner = .returned ret := howner
  have hcaller : (s.reqs q).caller = .returned ok st := hcaller
  have hownable : s.ownable q = false := by
    by_contra hne
    obtain ⟨-, -, hidle⟩ := ownable_iff.mp (by simpa using hne)
    rw [howner] at hidle
    cases hidle
  intro hacc
  cases a with
  | caller q' alloc statuses =>
    obtain rfl : q' = q := hacc
    simp only [Transport.step, Transport.callerStep, hcaller] at hs
    cases hs
  | callWait q' timed =>
    obtain rfl : q' = q := hacc
    simp only [Transport.step, hownable] at hs
    cases hs
  | callCancel q' reqId =>
    obtain rfl : q' = q := hacc
    simp only [Transport.step, hownable] at hs
    cases hs
  | owner q' cond =>
    obtain rfl : q' = q := hacc
    simp only [Transport.step, Transport.ownerStep, howner] at hs
    cases hs
  | worker w ret =>
    obtain ⟨Q, E, hL⟩ := ledger_reach h
    obtain ⟨-, hzero, -⟩ := no_task_left h hid hL hfreeing
    have hexecuting : (executes q (s.pool.workers w, s.body w)).toNat ≤ _ :=
      (hL.executingTasks q).le w
    rw [hzero] at hexecuting
    have hfree : freerOf q (s.pool.workers w, s.body w) = false := hfreer w
    cases hexec : (s.pool.workers w).exec with
    | running task reqId userData =>
      simp only [Transport.Accesses, hexec] at hacc
      obtain ⟨hq, hbody⟩ := hacc
      -- a body before the mark is an execution, one at the free holds the right to free
      cases hb : s.body w with
      | finish taskRet => exact hbody taskRet hb
      | free taskRet => simp [freerOf, hexec, hb, hq] at hfree
      | start | write | status | mark =>
        simp [executes, hexec, hb, hq, Body.unmarked] at hexecuting
    | _ => simp only [Transport.Accesses, hexec] at hacc
  | _ => exact hacc

/-- **No premature or double free.**  Let request `q` alone have the id `r`, and let `r` be
    cancelled with its handle only.  Once the cancelled tasks are counted, the counters account for
    every task; the object is freed at most once, when no task of the request is queued or in
    execution; and afterwards no step reads or writes it. -/
theorem freed_once (h : (transportSystem workerCount capacity).Reach (OwnCancels q r) s)
    (hid : s.OwnsId q r) (hb : (s.reqs q).bound = true) :
    (∃ queued executing, s.QueuedTasks q queued ∧ s.ExecutingTasks q executing ∧
      ((s.reqs q).owner.uncounted = false →
        (s.reqs q).sync.completedTasks + (s.reqs q).sync.canceledTasks + s.failedTasks q
          + executing + queued = (s.reqs q).sync.totalTasks) ∧
      ∀ a s', s.step a = some s' → (s'.reqs q).freed ≠ (s.reqs q).freed →
        queued = 0 ∧ executing = 0) ∧
    (s.reqs q).freed ≤ 1 ∧
    (0 < (s.reqs q).freed → ∀ a s', s.step a = some s' → ¬ s.Accesses q a) := by
  obtain ⟨Q, E, hL⟩ := ledger_reach h
  have hinv := request_inv h q
  refine ⟨⟨_, _, hL.queuedTasks q, hL.executingTasks q, tasks_accounted h hid hL hb, ?_⟩, ?_,
    fun hfreed a s' hs => no_access h hid hfreed hs⟩
  · intro a s' hs hne
    have hfreeing : (s.reqs q).sync.freeing = true := by
      rcases view_step h hs q with heq | hstep
      · exact absurd (congrArg (fun v => v.req.freed) heq) hne
      · rcases hstep.freed hinv with heq | hf
        · exact absurd heq hne
        · exact hf
    obtain ⟨-, hE, hQ⟩ := no_task_left h hid hL hfreeing
    exact ⟨hQ, hE⟩
  · obtain ⟨m, -, hheld⟩ := hinv.token.held
    have hle : (s.reqs q).sync.freeing.toNat ≤ 1 := Bool.toNat_le _
    have hheld' : (s.reqs q).freed + m + (s.reqs q).owner.holds = (s.reqs q).sync.freeing.toNat :=
      hheld
    omega

end Once

/-- No step of a run in which nobody interferes breaks the conditions below. -/
theorem undisturbed_ok {s : Transport} {a : Action} {r : ReqId} (h : undisturbed s a = true) :
    SingleRequest 0 s a ∧ OwnCancels 0 r s a := by
  cases a with
  | callSend q | callRecv q => exact ⟨beq_iff_eq.mp h, trivial⟩
  | callCancel | callCancelId | canceller => cases h
  | _ => exact ⟨trivial, trivial⟩

/-- One chunk, received and waited for: the object has been freed, and is left alone. -/
theorem freed_once_one_chunk : ∃ s, (transportSystem 1 1#32).Reach (OwnCancels 0 7#64) s ∧
    (s.reqs 0).freed = 1 ∧ ∀ a s', s.step a = some s' → ¬ s.Accesses 0 a := by
  obtain ⟨s, hr, hP⟩ := transportSystem_exec 1 1#32 undisturbed (fun _ _ h => h)
    (registerOne ++ executeOne 0 ++ waitOne 3) receivedOne (by decide +kernel)
  simp only [receivedOne, Bool.and_eq_true, beq_iff_eq] at hP
  obtain ⟨⟨⟨hb, -⟩, hid⟩, hfreed⟩ := hP
  have hown := ownsId_of_single (hr.mono fun _ _ h => (undisturbed_ok (r := 0#64) h).1)
  rw [hid] at hown
  have hreach := hr.mono fun _ _ h => (undisturbed_ok (r := 7#64) h).2
  exact ⟨s, hreach, hfreed, (freed_once hreach hown hb).2.2 (by rw [hfreed]; exact Nat.one_pos)⟩

/-! ## A released request without failed tasks is freed

The other direction: when all have ended, somebody has found the object ready. -/

/-- No task of request `q` is queued or inside its task function.  Its worker may still have to
    count it off the context, which no longer concerns the object. -/
structure Transport.Ended (s : Transport) (q : Nat) : Prop where
  queued : ∀ w, ∀ t ∈ (s.pool.workers w).queue, t.ptr.sync ≠ q
  running : ∀ w t r u, (s.pool.workers w).exec = .running t r u → t.ptr.sync ≠ q

/-- No task of request `q` fails. -/
def NoTaskFails (q : Nat) (s : Transport) : Action → Prop
  | .worker w _ => ∀ t r u ret, (s.pool.workers w).exec = .running t r u → t.ptr.sync = q →
      s.body w = .mark ret → ret = 0
  | _ => True

section Leak

variable {workerCount : Nat} {capacity : BitVec 32} {ok : Transport → Action → Prop}
  {s s' : Transport} {q : Nat} {Q E : Multiset ArgPtr}

/-- A step marks a task failed only if its function returned a failure. -/
theorem failedTasks_move {a : Action} (hm : Move s a s') (ha : NoTaskFails q s a) :
    s'.failedTasks q = s.failedTasks q := by
  have hmarks : marks s'.trace = marks s.trace → s'.failedTasks q = s.failedTasks q := fun h => by
    unfold Transport.failedTasks
    rw [h]
  cases hm with
  | firstWrite _ _ hpost | notify _ _ _ hpost | write _ _ _ hpost =>
    exact hmarks (post_same hpost).2.2.2.2
  | prefill _ _ hinit | prefillFailed _ _ hinit => exact hmarks (marks_emit (prefill_events hinit))
  | ignored _ _ hev | completion _ _ _ hev => exact hmarks (marks_emit hev.no_mark)
  | callback => exact hmarks (marks_emit (by simp))
  | @mark w _ t _ _ taskRet sync _ hexec hbody hsync =>
    show (marks (s.trace ++ _)).countP _ = _
    rw [marks_append, List.countP_append]
    have hzero : (marks [.mark t.taskArg.userArg.sync t.taskArg.userArg.index (taskRet == 0)]).countP
        (fun x => x.1.sync == q && !x.2) = 0 := by
      refine List.countP_eq_zero.mpr fun x hx => ?_
      obtain rfl : x = (⟨t.taskArg.userArg.sync, t.taskArg.userArg.index⟩, taskRet == 0) := by
        simpa [marks] using hx
      by_cases hq : t.ptr.sync = q
      · have hret := ha t _ _ taskRet hexec hq hbody
        simp [hret]
      · have hne : (t.taskArg.userArg.sync == q) = false := beq_eq_false_iff_ne.mpr hq
        simp [hne]
    rw [hzero]
    rfl
  | _ => exact hmarks rfl

/-- Nothing of an ended request is in the ledger's books of queued and executing tasks. -/
theorem Ledger.ended (hL : Ledger s Q E) (h : s.Ended q) :
    Q.countP (·.sync = q) = 0 ∧ E.countP (·.sync = q) = 0 := by
  constructor
  · refine (hL.queuedTasks q).unique (.zero fun w => ?_)
    refine List.countP_eq_zero.mpr fun t ht => ?_
    simpa using h.queued w t ht
  · refine (hL.executingTasks q).unique (.zero fun w => ?_)
    show (executes q (s.pool.workers w, s.body w)).toNat = 0
    unfold executes
    cases hexec : (s.pool.workers w).exec with
    | running t r u =>
      have hne := beq_eq_false_iff_ne.mpr (h.running w t r u hexec)
      simp only [hne, Bool.and_false, Bool.toNat_false]
    | _ => rfl

/-- An ended request without failed tasks all whose removed tasks its owner has counted is
    accounted for. -/
theorem RequestInv.accounted {v : RequestView} (h : RequestInv q v) (hb : v.req.bound = true)
    (ho : v.req.owner.uncounted = false) (hended : v.succeeded + v.removed = v.attached.length)
    (hremoved : v.removed = v.ownRemoved) : v.req.sync.allTasksAccounted = true := by
  obtain ⟨-, hp, ht, -, ha⟩ := h.stage.of_bound (.inl hb)
  have hlen : v.attached.length = v.req.sync.totalTasks := by rw [ht, ha, List.length_map]
  have hpos : 0 < v.req.sync.totalTasks := by
    rw [ht, hp.tasks_length]
    exact hp.chunks_pos
  have hcompleted := h.counted.completed
  have hle := h.ownLe
  rw [TaskSync.allTasksAccounted_iff hpos]
  cases h.owned.stage with
  | before _ _ hcan hrem => omega
  | cancelling ho' => rw [ho'] at ho; cases ho
  | adding ho' => rw [ho'] at ho; cases ho
  | releasing _ _ _ hset =>
    have heq := hset.eq
    omega
  | released _ _ _ hset =>
    have heq := hset.eq
    omega

/-- What the request with the id `r` to itself does with a failed task: it is never freed. -/
theorem failed_task_leaks {r : ReqId}
    (h : (transportSystem workerCount capacity).Reach (OwnCancels q r) s) (hid : s.OwnsId q r)
    (hf : 0 < s.failedTasks q) : (s.reqs q).freed = 0 := by
  by_contra hne
  obtain ⟨hfreeing, -⟩ := (request_inv h q).after_free (Nat.pos_of_ne_zero hne)
  obtain ⟨Q, E, hL⟩ := ledger_reach h
  have hzero := (no_task_left h hid hL hfreeing).1
  omega

end Leak

/-! ### One chunk, and a callback that fails

A run to its end, and one in which the task is counted neither as completed nor as cancelled. -/

section Waiter

variable {workerCount : Nat} {capacity : BitVec 32} {s s' : Transport} {q : Nat}

end Waiter

end OsTransport
