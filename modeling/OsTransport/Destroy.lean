/-
  The end of a pool: `thread_pool_destroy`.

  Destroying sets `is_destroying`, wakes every worker, joins them and frees what is left in their
  queues.  `DestroySys` adds that thread and the flag to the pool: a worker that finds the flag set
  at the top of its loop leaves, whatever its pending list holds.

  A wake-up CLAIMS the first queued task it matches that no earlier pending wake-up takes
  (`claimBy`).  `claimed` collects the tasks claimed by wake-ups that were accepted before
  `thread_pool_destroy` was called, as a history variable.

  `Kept` is the invariant: a claimed task was removed by a cancel, has been executed, is in
  execution, or is still claimed at a worker that has not left.  A run keeps it unless a worker
  leaves claimed tasks behind, and that is the condition of `destroy_drains`.

  The order of the lemmas:

  1. claims are what `Queue.serve` finds for the pending wake-ups in their order, so what an
     operation on a queue does to them is a fact of the library (`claims_attach`, `claims_push`,
     `claims_cancel`, `claims_routine`): a claim goes with a task that is removed or taken, and
     with nothing else;
  2. `Kept.step` follows one task through the sections of the pool, `kept_of_newClaim` is its
     first moment;
  3. destroying reads the workers below `workerCount` only, so no task may ever be at another
     (`within_step`);
  4. `Draining` puts 2 and 3 into one invariant of `DestroySys`.  The step in which a worker leaves
     is the only one that can break it, and the condition is read off there.

  `destroy_drops_claimed_task` is a run of one worker that leaves with a claimed task.
-/
import OsTransport.PoolBooks

namespace OsTransport

open Transition

variable {κ α : Type*}

/-! ## Claims

Which task a pending wake-up will take depends on the wake-ups before it, so claims are those of a
whole list. -/

/-- A wake-up of the pending list matches a queued task. -/
def PendingReqNode.answeredBy (p : PendingReqNode) (t : TaskNode α) : Bool :=
  answersWakeUp p.requestId p.userData t

/-- The queued tasks the pending wake-ups of a worker will take, in their order. -/
def claims (w : WorkerThread α) : List (TaskNode α) :=
  (Queue.serve PendingReqNode.answeredBy w.queue w.pending).1

/-- The queued task a further wake-up claims. -/
def claimBy (w : WorkerThread α) (p : PendingReqNode) : Option (TaskNode α) :=
  (Queue.popFirst p.answeredBy
    (Queue.serve PendingReqNode.answeredBy w.queue w.pending).2).map Prod.fst

/-! ## The system

The destroyer's steps are `is_destroying`, one signal and one join for each worker, and the clearing
of what is left; workers may leave from the moment the flag is set. -/

/-- Where `thread_pool_destroy` is. -/
inductive DestroyPc
  | idle
  /-- Called; about to set `is_destroying`. -/
  | shutdown
  /-- About to join worker `i`. -/
  | joining (i : Nat)
  | returned
  deriving DecidableEq, Repr

structure DestroySys (κ α : Type*) where
  pool : PoolSys κ α
  isDestroying : Bool
  /-- The workers that have left `worker_routine`. -/
  exited : Nat → Bool
  destroy : DestroyPc
  /-- Tasks claimed by the wake-ups accepted before the call, oldest first. -/
  claimed : List (TaskNode α)

inductive DestroyAction (κ α : Type*)
  | pool (a : PoolAction κ α)
  /-- Call `thread_pool_destroy`. -/
  | destroy
  /-- The next step of that call. -/
  | advance
  /-- Worker `w` finds `is_destroying` set. -/
  | exit (w : Nat)

/-- `destroy_worker`. -/
def destroyWorker (w : WorkerThread α) : WorkerThread α := { w with queue := [], pending := [] }

namespace DestroySys

/-- A started pool. -/
def start (workerCount : Nat) : DestroySys κ α where
  pool := .start workerCount
  isDestroying := false
  exited _ := false
  destroy := .idle
  claimed := []

variable [DecidableEq κ]

/-- A worker takes steps until it has left, and serves a wake-up only while the flag is not set. -/
def allows (s : DestroySys κ α) : PoolAction κ α → Bool
  | .pop w => !s.isDestroying && !s.exited w
  | _ => true

/-- The tasks a step of the pool claims: accepting a wake-up claims one at most. -/
def newClaim (s : PoolSys κ α) : PoolAction κ α → List (TaskNode α)
  | .advance c .ok =>
    match s.calls c with
    | .waking reqId userData w => (claimBy (s.workers w) ⟨reqId, userData⟩).toList
    | _ => []
  | _ => []

/-- The next step of `thread_pool_destroy`. -/
def advance (s : DestroySys κ α) : Option (DestroySys κ α) :=
  match s.destroy with
  | .idle => none
  | .shutdown => some { s with isDestroying := true, destroy := .joining 0 }
  | .joining i =>
    if i < s.pool.workerCount then
      if s.exited i then some { s with destroy := .joining (i + 1) } else none
    else
      let pool := { s.pool with workers := fun w => destroyWorker (s.pool.workers w), reqHash := .empty }
      some { s with pool, destroy := .returned }
  | .returned => none

/-- One step of a pool that may be destroyed. -/
def step (s : DestroySys κ α) : DestroyAction κ α → Option (DestroySys κ α)
  | .pool a =>
    if s.destroy ≠ .returned ∧ s.allows a then
      (s.pool.step a).map fun pool =>
        { s with
          pool
          claimed := if s.destroy = .idle then s.claimed ++ newClaim s.pool a else s.claimed }
    else none
  | .destroy => if s.destroy = .idle then some { s with destroy := .shutdown } else none
  | .advance => s.advance
  | .exit w =>
    match (s.pool.workers w).exec with
    | .loop =>
      if w < s.pool.workerCount ∧ s.isDestroying ∧ !s.exited w then
        some { s with
          pool := s.pool.setWorker w { s.pool.workers w with state := .exit }
          exited := Function.update s.exited w true }
      else none
    | _ => none

end DestroySys

/-- All runs of a pool with `workerCount` workers that may be destroyed. -/
def destroySystem (κ α : Type*) [DecidableEq κ] (workerCount : Nat) :
    System (DestroySys κ α) (DestroyAction κ α) :=
  .ofFun (· = DestroySys.start workerCount) DestroySys.step

/-! ## What a worker's claims survive

What others do to the two lists in the meantime takes no claim away, except a cancel of its id. -/

section Claims

variable {w : WorkerThread α} {t : TaskNode α} {p : PendingReqNode}

/-- What is claimed is queued. -/
theorem claims_subset (h : t ∈ claims w) : t ∈ w.queue := Queue.serve_subset h

/-- Tasks that are appended take no claim from others. -/
theorem claims_attach (nodes : List (TaskNode α)) (h : t ∈ claims w) :
    t ∈ claims (attachNodesToWorker w nodes) := Queue.serve_longer nodes h

/-- A wake-up that is appended takes what the earlier ones leave. -/
theorem claims_push (h : t ∈ claims w ∨ claimBy w p = some t) :
    t ∈ claims (workerPendingReqPush w p.requestId p.userData) := by
  have happend := Queue.serve_append (m := PendingReqNode.answeredBy) w.queue w.pending [p]
  show t ∈ (Queue.serve _ w.queue (w.pending ++ [p])).1
  rw [happend]
  rcases h with h | h
  · exact List.mem_append_left _ h
  · obtain ⟨⟨a, rest⟩, hpop, rfl⟩ := Option.map_eq_some_iff.mp h
    refine List.mem_append_right _ ?_
    rw [Queue.serve_cons_some _ hpop]
    exact List.mem_cons_self

/-- A cancel takes the claims of its own id only. -/
theorem claims_cancel {reqId : ReqId} (h : t ∈ claims w) :
    t ∈ cancelledNodes w reqId ∨ t ∈ claims (cancelInWorkerQueue w reqId) := by
  by_cases hr : t.requestId = reqId
  · exact .inl (List.mem_filter.mpr ⟨claims_subset h, beq_iff_eq.mpr hr⟩)
  · right
    have hfilter : claims (cancelInWorkerQueue w reqId)
        = (claims w).filter fun t => !(t.requestId == reqId) := by
      refine Queue.serve_filter (fun p t hp => ?_) w.queue w.pending
      rw [answersWakeUp_requestId hp]
    rw [hfilter]
    exact List.mem_filter.mpr ⟨h, by simpa using hr⟩

/-- Serving the oldest wake-up takes its claim and leaves the others. -/
theorem claims_routine (h : t ∈ claims w) :
    t ∈ claims (workerRoutine w) ∨
      ∃ reqId userData, (workerRoutine w).exec = .running t reqId userData := by
  unfold workerRoutine
  unfold claims at h
  cases hp : w.pending with
  | nil =>
    rw [hp] at h
    cases h
  | cons p pending =>
    rw [hp] at h
    simp only
    cases hpop : Queue.popFirst p.answeredBy w.queue with
    | none =>
      rw [Queue.serve_cons_none _ hpop] at h
      rw [show workerQueuePopByReqAndUserData w.queue p.requestId p.userData = none from hpop]
      exact .inl h
    | some r =>
      rw [Queue.serve_cons_some _ hpop] at h
      rw [show workerQueuePopByReqAndUserData w.queue p.requestId p.userData = some r from hpop]
      rcases List.mem_cons.mp h with rfl | h
      · exact .inr ⟨_, _, rfl⟩
      · exact .inl h

end Claims

/-! ## What becomes of a claimed task

A claimed task leaves the claims by being taken, and is then executed, or by a cancel. -/

/-- The task was executed, and its callback was invoked.  The second if it has one; a worker does
    both in one step of its own. -/
def Executed (log : List (PoolEvent κ α)) (t : TaskNode α) : Prop :=
  ∃ w ret, .finished w t ret ∈ log ∧
    ∀ cb, t.taskArg.completeCb = some cb → .completeCb cb t.taskArg.taskId (ret == 0) ∈ log

/-- The task was removed by a cancel, has been executed, is in execution, or is claimed at a worker
    that has not left. -/
def Kept (s : PoolSys κ α) (exited : Nat → Bool) (t : TaskNode α) : Prop :=
  (∃ c, .cancelled c t ∈ s.log) ∨ Executed s.log t ∨
  (∃ w reqId userData, (s.workers w).exec = .running t reqId userData) ∨
  ∃ w, exited w = false ∧ t ∈ claims (s.workers w)

section Keep

variable {s s' : PoolSys κ α} {exited : Nat → Bool} {t : TaskNode α}

/-- What has been executed stays so. -/
theorem Executed.append {log : List (PoolEvent κ α)} (h : Executed log t)
    (events : List (PoolEvent κ α)) : Executed (log ++ events) t := by
  obtain ⟨w, ret, hfinished, hcb⟩ := h
  exact ⟨w, ret, List.mem_append_left _ hfinished,
    fun cb hc => List.mem_append_left _ (hcb cb hc)⟩

/-- Steps away from the workers. -/
theorem Kept.same (h : Kept s exited t) (hworkers : s'.workers = s.workers)
    (hlog : s'.log = s.log) : Kept s' exited t := by
  unfold Kept at h ⊢
  rwa [hworkers, hlog]

/-- A step that edits one worker. -/
theorem Kept.worker {w : Nat} {wk : WorkerThread α} {events : List (PoolEvent κ α)}
    (h : Kept s exited t) (hworkers : s'.workers = Function.update s.workers w wk)
    (hlog : s'.log = s.log ++ events)
    (hclaims : t ∈ claims (s.workers w) → (∃ c, .cancelled c t ∈ events) ∨
      (∃ reqId userData, wk.exec = .running t reqId userData) ∨ t ∈ claims wk)
    (hexec : ∀ reqId userData, (s.workers w).exec = .running t reqId userData →
      Executed events t ∨ ∃ reqId userData, wk.exec = .running t reqId userData) :
    Kept s' exited t := by
  have hself : s'.workers w = wk := by rw [hworkers, Function.update_self]
  have hother : ∀ w', w' ≠ w → s'.workers w' = s.workers w' := by
    intro w' hw
    rw [hworkers, Function.update_of_ne hw]
  rcases h with ⟨c, hc⟩ | hdone | ⟨w', reqId, userData, hrun⟩ | ⟨w', hin, hclaimed⟩
  · exact .inl ⟨c, by rw [hlog]; exact List.mem_append_left _ hc⟩
  · exact .inr (.inl (by rw [hlog]; exact hdone.append events))
  · by_cases hw : w' = w
    · subst hw
      rcases hexec reqId userData hrun with ⟨w₁, ret, hfinished, hcb⟩ | ⟨reqId', userData', hrun'⟩
      · refine .inr (.inl ⟨w₁, ret, ?_, fun cb hc => ?_⟩) <;> rw [hlog]
        · exact List.mem_append_right _ hfinished
        · exact List.mem_append_right _ (hcb cb hc)
      · exact .inr (.inr (.inl ⟨w', reqId', userData', by rw [hself]; exact hrun'⟩))
    · exact .inr (.inr (.inl ⟨w', reqId, userData, by rw [hother w' hw]; exact hrun⟩))
  · by_cases hw : w' = w
    · subst hw
      rcases hclaims hclaimed with ⟨c, hc⟩ | ⟨reqId, userData, hrun⟩ | hclaimed'
      · exact .inl ⟨c, by rw [hlog]; exact List.mem_append_right _ hc⟩
      · exact .inr (.inr (.inl ⟨w', reqId, userData, by rw [hself]; exact hrun⟩))
      · exact .inr (.inr (.inr ⟨w', hin, by rw [hself]; exact hclaimed'⟩))
    · exact .inr (.inr (.inr ⟨w', hin, by rw [hother w' hw]; exact hclaimed⟩))

variable [DecidableEq κ]

/-- One step of the pool keeps a task: removed, executed, or claimed at a worker that is there. -/
theorem Kept.step {a : PoolAction κ α} (h : Kept s exited t) (hs : s.step a = some s') :
    Kept s' exited t := by
  have hquiet : PoolSys.Unchanged s s' → Kept s' exited t := fun hu => h.same hu.workers hu.log
  cases a with
  | submit c sub alloc => exact hquiet (PoolSys.unchanged_submit hs)
  | wake c r u => exact hquiet (PoolSys.unchanged_wake hs)
  | cancel c r => exact hquiet (PoolSys.unchanged_cancel hs)
  | collect c => exact hquiet (PoolSys.unchanged_collect hs)
  | advance c alloc =>
    cases advances_of_advance hs with
    | scan | select | build | nodeFail | refuse | record | drop | uncount => exact h.same rfl rfl
    | attach hc =>
      exact h.worker rfl rfl (fun hcl => .inr (.inr (claims_attach _ hcl)))
        fun r u hrun => .inr ⟨r, u, hrun⟩
    | @push reqId userData w hc =>
      exact h.worker rfl (List.append_nil _).symm
        (fun hcl => .inr (.inr (claims_push (p := ⟨reqId, userData⟩) (.inl hcl))))
        fun r u hrun => .inr ⟨r, u, hrun⟩
    | remove hc =>
      refine h.worker rfl rfl (fun hcl => ?_) fun r u hrun => .inr ⟨r, u, hrun⟩
      rcases claims_cancel hcl with hcancel | hcl
      · exact .inl ⟨c, List.mem_map.mpr ⟨t, hcancel, rfl⟩⟩
      · exact .inr (.inr hcl)
  | pop w =>
    simp only [PoolSys.step, PoolSys.pop] at hs
    split at hs
    · rename_i hloop
      split at hs <;> cases hs
      refine h.worker rfl rfl (fun hcl => ?_) fun r u hrun => ?_
      · exact .inr (claims_routine hcl).symm
      · rw [hloop] at hrun
        cases hrun
    · cases hs
  | finish w ret =>
    simp only [PoolSys.step, PoolSys.finish] at hs
    split at hs <;> cases hs
    rename_i task reqId userData hexec
    refine h.worker rfl rfl (fun hcl => .inr (.inr hcl)) fun r u hrun => ?_
    rw [hexec] at hrun
    cases hrun
    refine .inl ⟨w, ret, List.mem_cons_self, fun cb hcb => ?_⟩
    rw [PoolSys.finishEvents, hcb]
    exact List.mem_cons_of_mem _ (List.mem_singleton_self _)
  | account w =>
    simp only [PoolSys.step, PoolSys.account] at hs
    split at hs <;> cases hs
    rename_i task reqId ret hexec
    refine h.worker rfl rfl (fun hcl => .inr (.inr hcl)) fun r u hrun => ?_
    rw [hexec] at hrun
    cases hrun

/-- A newly claimed task is claimed at the worker of the wake-up. -/
theorem kept_of_newClaim {a : PoolAction κ α} (hs : s.step a = some s')
    (ht : t ∈ DestroySys.newClaim s a) (hin : ∀ w, exited w = false) : Kept s' exited t := by
  unfold DestroySys.newClaim at ht
  split at ht
  · rename_i c
    split at ht
    · rename_i reqId userData w hc
      simp only [PoolSys.step, PoolSys.advance, hc, if_true, Option.some.injEq] at hs
      refine .inr (.inr (.inr ⟨w, hin w, ?_⟩))
      rw [← hs]
      show t ∈ claims (Function.update s.workers w _ w)
      rw [Function.update_self]
      exact claims_push (p := ⟨reqId, userData⟩) (.inr (Option.mem_toList.mp ht))
    · cases ht
  · cases ht

end Keep

/-! ## The workers there are

Nothing is ever queued, pending or executed beyond the workers the pool was started with. -/

/-- A call only knows workers below `n`. -/
def Call.Within (n : Nat) : Call α → Prop
  | .selecting _ _ _ best => ∀ b, best = some b → b.workerIdx < n
  | .building _ worker _ _ => ∀ w, worker = some w → w < n
  | .attaching _ w _ => w < n
  | _ => True

/-- Beyond the worker count nothing happens.  `thread_pool_destroy` joins and frees the workers that
    were created, and no others exist. -/
structure PoolSys.Within (s : PoolSys κ α) : Prop where
  queue : ∀ w, s.workerCount ≤ w → (s.workers w).queue = []
  exec : ∀ w, s.workerCount ≤ w → (s.workers w).exec = .loop
  calls : ∀ c, (s.calls c).Within s.workerCount

section Within

/-- The worker selected is one of the pool's. -/
theorem within_selectedWorker (sub : Submission α) (made : List (TaskNode α)) {w n : Nat}
    (h : w < n) : (selectedWorker sub made w).Within n := by
  unfold selectedWorker
  split
  · exact h
  · intro w' hw
    rwa [← Option.some.inj hw]

/-- It is until the last node is built. -/
theorem within_builtNode (sub : Submission α) {worker : Option Nat} (made : List (TaskNode α))
    (todo : List (ThreadPoolTask α)) {n : Nat} (h : ∀ w, worker = some w → w < n) :
    (builtNode sub worker made todo).Within n := by
  cases todo with
  | nil =>
    cases worker with
    | none => exact fun b hb => by cases hb
    | some w => exact h w rfl
  | cons src todo => exact h

/-- A submission that begins names no worker. -/
theorem within_beginSubmission (b : Bool) (sub : Submission α) (alloc : Alloc) (n : Nat) :
    (beginSubmission b sub alloc).Within n := by
  unfold beginSubmission
  split
  · trivial
  · split
    · exact fun w hw => by cases hw
    · exact fun b hb => by cases hb

/-- The best worker so far is one that has been looked at. -/
theorem best_lt {w : WorkerThread α} {i n : Nat} {best : Option BestWorker} (hi : i < n)
    (h : ∀ b, best = some b → b.workerIdx < n) : (selectBestWorkerStep w i best).1.workerIdx < n := by
  unfold selectBestWorkerStep
  generalize (if w.state = .busy then 1 else 0) = busyBias
  simp only
  split
  · exact hi
  · cases best with
    | none => exact hi
    | some b =>
      simp only
      split
      · exact hi
      · exact h b rfl

/-- Editing one worker keeps the idle ones idle. -/
theorem within_update {s : PoolSys κ α} {w : Nat} {wk : WorkerThread α} (h : s.Within)
    (hqueue : s.workerCount ≤ w → wk.queue = []) (hexec : s.workerCount ≤ w → wk.exec = .loop) :
    (∀ w', s.workerCount ≤ w' → (Function.update s.workers w wk w').queue = []) ∧
    ∀ w', s.workerCount ≤ w' → (Function.update s.workers w wk w').exec = .loop := by
  refine ⟨fun w' hw' => ?_, fun w' hw' => ?_⟩ <;> by_cases hw : w' = w
  · rw [hw, Function.update_self]
    exact hqueue (hw ▸ hw')
  · rw [Function.update_of_ne hw]
    exact h.queue w' hw'
  · rw [hw, Function.update_self]
    exact hexec (hw ▸ hw')
  · rw [Function.update_of_ne hw]
    exact h.exec w' hw'

variable [DecidableEq κ] {s s' : PoolSys κ α}

/-- A call that names a worker of the pool, or none. -/
theorem PoolSys.Within.setCall {c : κ} {pc : Call α} {s₁ : PoolSys κ α} (h : s.Within)
    (hcalls : s₁.calls = s.calls) (hcount : s₁.workerCount = s.workerCount)
    (hqueue : ∀ w, s.workerCount ≤ w → (s₁.workers w).queue = [])
    (hexec : ∀ w, s.workerCount ≤ w → (s₁.workers w).exec = .loop)
    (hpc : pc.Within s.workerCount) : (s₁.setCall c pc).Within := by
  refine ⟨fun w hw => hqueue w (hcount ▸ hw), fun w hw => hexec w (hcount ▸ hw), fun c' => ?_⟩
  show (Function.update s₁.calls c pc c').Within s₁.workerCount
  rw [hcount]
  by_cases hc : c' = c
  · rw [hc, Function.update_self]
    exact hpc
  · rw [Function.update_of_ne hc, hcalls]
    exact h.calls c'

/-- No section of a call leads outside the pool. -/
theorem within_advance {c : κ} {alloc : Alloc} (h : s.Within) (hs : s.advance c alloc = some s') :
    s'.Within := by
  have hpc := h.calls c
  have hsame : ∀ {s₁ : PoolSys κ α} {pc : Call α}, s₁.calls = s.calls →
      s₁.workerCount = s.workerCount → s₁.workers = s.workers → pc.Within s.workerCount →
      (s₁.setCall c pc).Within := by
    intro s₁ pc hcalls hcount hworkers hpc
    exact h.setCall hcalls hcount (by rw [hworkers]; exact h.queue) (by rw [hworkers]; exact h.exec) hpc
  unfold PoolSys.advance at hs
  split at hs
  · cases hs
  · cases hs
  -- selecting
  · rename_i sub made i best hc
    rw [hc] at hpc
    simp only at hs
    split at hs
    · rename_i hi
      split at hs <;> cases hs
      · exact hsame rfl rfl rfl (within_selectedWorker _ _ hi)
      · refine hsame rfl rfl rfl ?_
        intro b hb
        rw [← Option.some.inj hb]
        exact best_lt hi hpc
    · split at hs <;> cases hs
      · exact hsame rfl rfl rfl trivial
      · exact hsame rfl rfl rfl (within_selectedWorker _ _ (hpc _ rfl))
  -- building
  · rename_i sub worker made todo hc
    rw [hc] at hpc
    split at hs
    · cases hs
    · cases hs
      exact hsame rfl rfl rfl trivial
    · split at hs <;> cases hs
      · exact hsame rfl rfl rfl trivial
      · exact hsame rfl rfl rfl (within_builtNode _ _ _ hpc)
  -- attaching, at the worker that was selected
  · rename_i sub w nodes hc
    rw [hc] at hpc
    split at hs <;> cases hs
    · exact hsame rfl rfl rfl trivial
    · obtain ⟨hqueue, hexec⟩ := @within_update _ _ s w (attachNodesToWorker (s.workers w) nodes) h
        (fun hw => absurd hpc (Nat.not_lt.mpr hw)) (h.exec w)
      exact h.setCall rfl rfl hqueue hexec trivial
  · cases hs
    exact hsame rfl rfl rfl trivial
  -- waking
  · rename_i reqId userData w hc
    split at hs <;> cases hs
    · obtain ⟨hqueue, hexec⟩ := @within_update _ _ s w
        (workerPendingReqPush (s.workers w) reqId userData) h (h.queue w) (h.exec w)
      exact h.setCall rfl rfl hqueue hexec trivial
    · exact hsame rfl rfl rfl trivial
  -- cancelling: the queue of a worker that is none is empty
  · rename_i reqId w hc
    cases hs
    have hnil : s.workerCount ≤ w → (cancelInWorkerQueue (s.workers w) reqId).queue = [] := by
      intro hw
      show (s.workers w).queue.filter _ = []
      rw [h.queue w hw]
      rfl
    obtain ⟨hqueue, hexec⟩ := @within_update _ _ s w (cancelInWorkerQueue (s.workers w) reqId) h
      hnil (h.exec w)
    refine h.setCall rfl rfl hqueue hexec ?_
    split <;> trivial
  · cases hs
    exact hsame rfl rfl rfl trivial

/-- One step keeps everything within the workers there are. -/
theorem within_step {a : PoolAction κ α} (h : s.Within) (hs : s.step a = some s') : s'.Within := by
  have hsame : ∀ {c : κ} {pc : Call α}, pc.Within s.workerCount → (s.setCall c pc).Within :=
    fun hpc => h.setCall rfl rfl h.queue h.exec hpc
  have hworker : ∀ {w : Nat} {wk : WorkerThread α} {t : ReqHash} {log : List (PoolEvent κ α)},
      (s.workerCount ≤ w → wk.queue = []) → (s.workerCount ≤ w → wk.exec = .loop) →
      ({ s with workers := Function.update s.workers w wk, reqHash := t, log } : PoolSys κ α).Within := by
    intro w wk t log hqueue hexec
    obtain ⟨hqueue', hexec'⟩ := within_update h hqueue hexec
    exact ⟨hqueue', hexec', h.calls⟩
  cases a with
  | submit c sub alloc =>
    simp only [PoolSys.step, Option.ite_none_right_eq_some, Option.some.injEq] at hs
    obtain ⟨-, rfl⟩ := hs
    exact hsame (within_beginSubmission ..)
  | wake c reqId userData =>
    simp only [PoolSys.step, Option.ite_none_right_eq_some] at hs
    obtain ⟨-, hs⟩ := hs
    split at hs <;> cases hs <;> exact hsame trivial
  | cancel c reqId =>
    simp only [PoolSys.step, Option.ite_none_right_eq_some] at hs
    obtain ⟨-, hs⟩ := hs
    split at hs
    · cases hs
      exact hsame trivial
    · split at hs <;> cases hs <;> exact hsame trivial
  | advance c alloc => exact within_advance h hs
  | collect c =>
    simp only [PoolSys.step] at hs
    split at hs <;> cases hs
    exact hsame trivial
  | pop w =>
    simp only [PoolSys.step, PoolSys.pop] at hs
    split at hs
    · split at hs <;> cases hs
      rename_i hw
      exact hworker (fun hle => absurd hw (Nat.not_lt.mpr hle))
        (fun hle => absurd hw (Nat.not_lt.mpr hle))
    · cases hs
  | finish w ret =>
    simp only [PoolSys.step, PoolSys.finish] at hs
    split at hs <;> cases hs
    rename_i hexec
    refine hworker (h.queue w) fun hle => ?_
    rw [h.exec w hle] at hexec
    cases hexec
  | account w =>
    simp only [PoolSys.step, PoolSys.account] at hs
    split at hs <;> cases hs
    exact hworker (h.queue w) fun _ => rfl

end Within

/-! ## Destroying drains

The state of the destroyer against that of the workers, and the condition under which nothing that
was claimed is left. -/

/-- What holds of a pool that may be destroyed, as long as no worker leaves claims behind.  At the
    end all workers have left, so of the places a claimed task can be only the history remains. -/
structure Draining (s : DestroySys κ α) : Prop where
  within : s.pool.Within
  left : ∀ w, s.exited w = true → (s.pool.workers w).exec = .loop ∧ s.isDestroying = true
  called : s.destroy = .idle → s.isDestroying = false
  joined : ∀ i, s.destroy = .joining i → ∀ w, w < i → s.exited w = true
  kept : s.destroy ≠ .returned → ∀ t ∈ s.claimed, Kept s.pool s.exited t
  drained : s.destroy = .returned → ∀ t ∈ s.claimed,
    (∃ c, .cancelled c t ∈ s.pool.log) ∨ Executed s.pool.log t

/-- A worker that leaves leaves no claimed task behind. -/
def LeavesNoClaim (s : DestroySys κ α) : DestroyAction κ α → Prop
  | .exit w => claims (s.pool.workers w) = []
  | _ => True

section Drain

variable [DecidableEq κ] {s s' : DestroySys κ α} {workerCount : Nat}

/-- A worker that has left executes nothing again. -/
theorem exec_of_left {pool : PoolSys κ α} {a : PoolAction κ α} {w : Nat}
    (hexec : (s.pool.workers w).exec = .loop) (hleft : s.exited w = true)
    (hallows : s.allows a = true) (hs : s.pool.step a = some pool) :
    (pool.workers w).exec = .loop := by
  by_cases ha : ∀ w', a ≠ .pop w' ∧ (∀ ret, a ≠ .finish w' ret) ∧ a ≠ .account w'
  · rw [PoolSys.exec_same hs ha, hexec]
  cases a with
  | pop w' =>
    have hne : w ≠ w' := by
      rintro rfl
      simp only [DestroySys.allows, hleft, Bool.not_true, Bool.and_false, Bool.false_eq_true] at hallows
    rw [PoolSys.exec_of_ne hs (.inl rfl) hne, hexec]
  | finish w' ret =>
    have hne : w ≠ w' := by
      rintro rfl
      simp only [PoolSys.step, PoolSys.finish, hexec] at hs
      cases hs
    rw [PoolSys.exec_of_ne hs (.inr (.inl ⟨_, rfl⟩)) hne, hexec]
  | account w' =>
    have hne : w ≠ w' := by
      rintro rfl
      simp only [PoolSys.step, PoolSys.account, hexec] at hs
      cases hs
    rw [PoolSys.exec_of_ne hs (.inr (.inr rfl)) hne, hexec]
  | _ => exact absurd (by simp) ha

omit [DecidableEq κ] in
/-- Once every worker has left, nothing is claimed or in execution any more. -/
theorem Draining.empty {i : Nat} (h : Draining s) (hpc : s.destroy = .joining i)
    (hi : ¬ i < s.pool.workerCount) {t : TaskNode α} (ht : t ∈ s.claimed) :
    (∃ c, .cancelled c t ∈ s.pool.log) ∨ Executed s.pool.log t := by
  have hleft : ∀ w, w < s.pool.workerCount → s.exited w = true :=
    fun w hw => h.joined i hpc w (by omega)
  rcases h.kept (by rw [hpc]; simp) t ht with hcancel | hdone | ⟨w, r, u, hrun⟩ | ⟨w, hin, hclaimed⟩
  · exact .inl hcancel
  · exact .inr hdone
  · exfalso
    rcases Nat.lt_or_ge w s.pool.workerCount with hw | hw
    · rw [(h.left w (hleft w hw)).1] at hrun
      cases hrun
    · rw [h.within.exec w hw] at hrun
      cases hrun
  · exfalso
    rcases Nat.lt_or_ge w s.pool.workerCount with hw | hw
    · rw [hleft w hw] at hin
      cases hin
    · have hmem := claims_subset hclaimed
      rw [h.within.queue w hw] at hmem
      cases hmem

/-- While the pool is destroyed its workers go on. -/
theorem Draining.pool {a : PoolAction κ α} (h : Draining s) (hs : s.step (.pool a) = some s') :
    Draining s' := by
  simp only [DestroySys.step, Option.ite_none_right_eq_some] at hs
  obtain ⟨⟨hopen, hallows⟩, hs⟩ := hs
  obtain ⟨pool, hpool, rfl⟩ := Option.map_eq_some_iff.mp hs
  refine ⟨within_step h.within hpool, fun w hw => ?_, h.called, h.joined, fun _ t ht => ?_,
    fun hret => absurd hret hopen⟩
  · obtain ⟨hexec, hflag⟩ := h.left w hw
    exact ⟨exec_of_left hexec hw hallows hpool, hflag⟩
  · have hold : t ∈ s.claimed → Kept pool s.exited t := fun ht => (h.kept hopen t ht).step hpool
    dsimp only at ht
    split at ht
    · rename_i hidle
      rcases List.mem_append.mp ht with ht | ht
      · exact hold ht
      · -- the flag is not set, so no worker has left
        refine kept_of_newClaim hpool ht fun w => ?_
        refine Bool.eq_false_iff.mpr fun hw => ?_
        have hflag := (h.left w hw).2
        rw [h.called hidle] at hflag
        cases hflag
    · exact hold ht

/-- The destroyer's own steps. -/
theorem Draining.advance (h : Draining s) (hs : s.step .advance = some s') : Draining s' := by
  simp only [DestroySys.step, DestroySys.advance] at hs
  split at hs
  · cases hs
  · rename_i hpc
    cases hs
    refine ⟨h.within, fun w hw => ⟨(h.left w hw).1, rfl⟩, fun hidle => (by cases hidle),
      fun i hi w hw => ?_, fun _ => h.kept (by rw [hpc]; simp), fun hret => by cases hret⟩
    cases hi
    omega
  · rename_i i hpc
    split at hs
    · split at hs <;> cases hs
      rename_i hi hleft
      refine ⟨h.within, h.left, fun hidle => (by cases hidle), fun j hj w hw => ?_,
        fun _ => h.kept (by rw [hpc]; simp), fun hret => by cases hret⟩
      cases hj
      rcases Nat.lt_or_eq_of_le (Nat.le_of_lt_succ hw) with hw | rfl
      · exact h.joined i hpc w hw
      · exact hleft
    · rename_i hi
      cases hs
      refine ⟨⟨fun w _ => rfl, h.within.exec, h.within.calls⟩, h.left, fun hidle => (by cases hidle),
        fun j hj => (by cases hj), fun hopen => absurd rfl hopen, fun _ t ht => h.empty hpc hi ht⟩
  · cases hs

/-- A worker that leaves no claim behind may leave. -/
theorem Draining.exit {w : Nat} (h : Draining s) (ha : claims (s.pool.workers w) = [])
    (hs : s.step (.exit w) = some s') : Draining s' := by
  simp only [DestroySys.step] at hs
  split at hs
  · rename_i hloop
    simp only [Option.ite_none_right_eq_some, Option.some.injEq] at hs
    obtain ⟨⟨hw, hflag, -⟩, rfl⟩ := hs
    have hworker : ∀ w', (Function.update s.pool.workers w
        { s.pool.workers w with state := .exit } w').queue = (s.pool.workers w').queue ∧
        (Function.update s.pool.workers w
          { s.pool.workers w with state := .exit } w').pending = (s.pool.workers w').pending ∧
        (Function.update s.pool.workers w
          { s.pool.workers w with state := .exit } w').exec = (s.pool.workers w').exec := by
      intro w'
      by_cases hw' : w' = w
      · rw [hw', Function.update_self]
        exact ⟨rfl, rfl, rfl⟩
      · rw [Function.update_of_ne hw']
        exact ⟨rfl, rfl, rfl⟩
    refine ⟨⟨fun w' hle => (hworker w').1.trans (h.within.queue w' hle),
      fun w' hle => (hworker w').2.2.trans (h.within.exec w' hle), h.within.calls⟩,
      fun w' hw' => ?_, h.called, fun i hi w' hw' => ?_, fun hopen t ht => ?_, h.drained⟩
    · refine ⟨(hworker w').2.2.trans ?_, hflag⟩
      have hw'' : Function.update s.exited w true w' = true := hw'
      by_cases hww : w' = w
      · rw [hww, hloop]
      · rw [Function.update_of_ne hww] at hw''
        exact (h.left w' hw'').1
    · show Function.update s.exited w true w' = true
      by_cases hww : w' = w
      · rw [hww, Function.update_self]
      · rw [Function.update_of_ne hww]
        exact h.joined i hi w' hw'
    · rcases h.kept hopen t ht with hcancel | hdone | ⟨w', r, u, hrun⟩ | ⟨w', hin, hclaimed⟩
      · exact .inl hcancel
      · exact .inr (.inl hdone)
      · exact .inr (.inr (.inl ⟨w', r, u, (hworker w').2.2.trans hrun⟩))
      · -- what is claimed is claimed at another worker
        have hww : w' ≠ w := by
          rintro rfl
          rw [ha] at hclaimed
          cases hclaimed
        refine .inr (.inr (.inr ⟨w', ?_, ?_⟩))
        · show Function.update s.exited w true w' = false
          rw [Function.update_of_ne hww]
          exact hin
        · show t ∈ claims (Function.update s.pool.workers w _ w')
          rw [Function.update_of_ne hww]
          exact hclaimed
  · cases hs

/-- In every run in which no worker leaves with a claim, the pool is drained. -/
theorem draining_reach (h : (destroySystem κ α workerCount).Reach LeavesNoClaim s) : Draining s := by
  refine h.invariant ?_ ?_
  · rintro s rfl
    exact ⟨⟨fun _ _ => rfl, fun _ _ => rfl, fun _ => trivial⟩, fun w hw => (by cases hw),
      fun _ => rfl, fun i hi => (by cases hi), fun _ t ht => (by cases ht),
      fun hret => by cases hret⟩
  · intro s a s' _ hI ha hs
    cases a with
    | pool a => exact hI.pool hs
    | destroy =>
      obtain ⟨hidle, rfl⟩ : s.destroy = .idle ∧ { s with destroy := .shutdown } = s' := by
        have hs' : s.step .destroy = some s' := hs
        simpa only [DestroySys.step, Option.ite_none_right_eq_some, Option.some.injEq] using hs'
      exact ⟨hI.within, hI.left, fun hc => (by cases hc), fun i hi => (by cases hi),
        fun _ => hI.kept (by rw [hidle]; simp), fun hret => by cases hret⟩
    | advance => exact hI.advance hs
    | exit w => exact hI.exit ha hs

/-- **Destroying drains the accepted work.**  In a run in which no worker leaves while a pending
    wake-up of its matches a queued task: when `thread_pool_destroy` has returned, every task that a
    wake-up accepted before the call had claimed was removed by a cancel, or has been executed and
    its `complete_cb` was invoked. -/
theorem destroy_drains (h : (destroySystem κ α workerCount).Reach LeavesNoClaim s)
    (hret : s.destroy = .returned) {t : TaskNode α} (ht : t ∈ s.claimed) :
    (∃ c, .cancelled c t ∈ s.pool.log) ∨ Executed s.pool.log t :=
  (draining_reach h).drained hret t ht

end Drain

/-- One task with a callback. -/
def taskWithCb : Submission Unit := ⟨true, [⟨0#64, 7#64, (), false, 0#64⟩], some 5, none⟩

/-- The task is submitted and a wake-up for it accepted; then the pool is destroyed. -/
def claimAndDestroy : List (DestroyAction Unit Unit) :=
  [.pool (.submit () taskWithCb .ok), .pool (.advance () .ok), .pool (.advance () .ok),
    .pool (.advance () .ok), .pool (.advance () .ok), .pool (.collect ()),
    .pool (.wake () 7#64 0#64), .pool (.advance () .ok), .pool (.collect ()), .destroy]

/-- The worker serves the wake-up before it finds the flag set. -/
def serveThenLeave : List (DestroyAction Unit Unit) :=
  [.pool (.pop 0), .advance, .pool (.finish 0 0), .pool (.account 0), .exit 0, .advance, .advance]

/-- The worker finds the flag set first. -/
def leaveAtOnce : List (DestroyAction Unit Unit) := [.advance, .exit 0, .advance, .advance]

def destroyedWithClaim (s : DestroySys Unit Unit) : Bool :=
  s.destroy == .returned && !s.claimed.isEmpty

/-- A run of the pool and its destroyer may be evaluated. -/
theorem destroySystem_exec (okb : DestroySys Unit Unit → DestroyAction Unit Unit → Bool)
    {ok : DestroySys Unit Unit → DestroyAction Unit Unit → Prop}
    (hok : ∀ s a, okb s a = true → ok s a) (as : List (DestroyAction Unit Unit))
    (P : DestroySys Unit Unit → Bool)
    (h : (exec okb DestroySys.step (DestroySys.start 1) as).any P = true) :
    ∃ s, (destroySystem Unit Unit 1).Reach ok s ∧ P s = true :=
  System.Reach.of_exec (· = DestroySys.start 1) okb hok rfl as P h

def leavesNoClaimb (s : DestroySys Unit Unit) : DestroyAction Unit Unit → Bool
  | .exit w => (claims (s.pool.workers w)).isEmpty
  | _ => true

/-- A claimed task is executed before the worker leaves. -/
theorem destroy_drains_one_task : ∃ (s : DestroySys Unit Unit) (t : TaskNode Unit),
    (destroySystem Unit Unit 1).Reach LeavesNoClaim s ∧ s.destroy = .returned ∧ t ∈ s.claimed ∧
    ((∃ c, .cancelled c t ∈ s.pool.log) ∨ Executed s.pool.log t) := by
  have hok : ∀ s a, leavesNoClaimb s a = true → LeavesNoClaim s a := by
    intro s a h
    cases a with
    | exit w => exact List.isEmpty_iff.mp h
    | pool | destroy | advance => trivial
  obtain ⟨s, hr, hP⟩ := destroySystem_exec leavesNoClaimb hok (claimAndDestroy ++ serveThenLeave)
    destroyedWithClaim (by decide +kernel)
  simp only [destroyedWithClaim, Bool.and_eq_true, beq_iff_eq, Bool.not_eq_true'] at hP
  obtain ⟨hret, hne⟩ := hP
  obtain ⟨t, ht⟩ := List.exists_mem_of_ne_nil s.claimed (by simpa using hne)
  exact ⟨s, t, hr, hret, ht, destroy_drains hr hret ht⟩

/-- The worker that was about to serve an accepted wake-up leaves instead, and the task is freed
    without having run. -/
theorem destroy_drops_claimed_task : ¬ ∀ s : DestroySys Unit Unit,
    (destroySystem Unit Unit 1).Reach (fun _ _ => True) s → s.destroy = .returned →
    ∀ t ∈ s.claimed, (∃ c, .cancelled c t ∈ s.pool.log) ∨ Executed s.pool.log t := by
  intro hall
  obtain ⟨s, hr, hP⟩ := destroySystem_exec (fun _ _ => true) (fun _ _ _ => trivial)
    (claimAndDestroy ++ leaveAtOnce)
    (fun s => destroyedWithClaim s && (executed s.pool.log).isEmpty && (removedTasks s.pool.log).isEmpty)
    (by decide +kernel)
  simp only [destroyedWithClaim, Bool.and_eq_true, beq_iff_eq, Bool.not_eq_true',
    List.isEmpty_iff] at hP
  obtain ⟨⟨⟨hret, hne⟩, hexecuted⟩, hremoved⟩ := hP
  obtain ⟨t, ht⟩ := List.exists_mem_of_ne_nil s.claimed (by simpa using hne)
  rcases hall s hr hret t ht with ⟨c, hc⟩ | ⟨w, ret, hfinished, -⟩
  · have hmem : t ∈ removedTasks s.pool.log := List.mem_filterMap.mpr ⟨_, hc, rfl⟩
    rw [hremoved] at hmem
    cases hmem
  · have hmem : (t, ret) ∈ executed s.pool.log := List.mem_filterMap.mpr ⟨_, hfinished, rfl⟩
    rw [hexecuted] at hmem
    cases hmem

end OsTransport
