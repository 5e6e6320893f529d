/-
  The object the tasks of a request and its waiter share: `task_sync_t`.

  Every function below is one locked section of the source.  A section that may find the object
  ready to be freed returns, besides the new object, whether the thread that ran it has to
  free it: `freeing` is set under the lock, the memory is released after it.

  The counters are `uint64_t` in the source and never exceed the number of tasks of a request.

  `ready` is the condition under which the object may be freed, and `shouldFree_eq` says that the test
  in the source is that condition.  Each section has one lemma (`mark_spec`, `add_spec`,
  `release_spec`) with two parts: the counters only grow (`Later`), and the object is handed to the
  thread exactly when the section has made it ready (`Handoff`).  Those who reason about requests use
  these and do not unfold a section.
-/
import OsTransport.Tasks

namespace OsTransport

/-- `struct task_sync`, without the mutex, the condition variable and the two owned pointers. -/
@[ext] structure TaskSync where
  requestCompleted : Bool
  requestCanceled : Bool
  requestTimedout : Bool
  releaseRequested : Bool
  freeing : Bool
  totalTasks : Nat
  completedTasks : Nat
  canceledTasks : Nat
  urmaStatus : UrmaStatus
  deriving DecidableEq, Repr

/-- What a wait returns: `0`, `OS_TRANSPORT_WAIT_TIMEOUT` or `OS_TRANSPORT_WAIT_ERROR`. -/
inductive WaitRet
  | ok
  | timeout
  | error
  deriving DecidableEq, Repr

namespace TaskSync

/-- `init_task_sync`, and `sync->total_tasks = task_num`. -/
def init (totalTasks : Nat) : TaskSync :=
  ⟨false, false, false, false, false, totalTasks, 0, 0, urmaSuccess⟩

/-- `sync_all_tasks_accounted_locked`. -/
def allTasksAccounted (s : TaskSync) : Bool :=
  s.totalTasks == 0 || s.completedTasks + s.canceledTasks ≥ s.totalTasks

/-- `sync_should_free_locked`. -/
def shouldFree (s : TaskSync) : Bool :=
  s.releaseRequested && s.requestCompleted && s.allTasksAccounted && !s.freeing

/-- `if (sync_should_free_locked(sync)) { sync->freeing = 1; should_free = true; }`. -/
def freeIfReady (s : TaskSync) : TaskSync × Bool :=
  if s.shouldFree then ({ s with freeing := true }, true) else (s, false)

/-- `if (sync_all_tasks_accounted_locked(sync)) { sync->request_completed = 1; ... }`. -/
def completeIfAccounted (s : TaskSync) : TaskSync :=
  if s.allTasksAccounted then { s with requestCompleted := true } else s

/-- `sync->request_completed = 1`, as the API calls do when a post of theirs failed. -/
def complete (s : TaskSync) : TaskSync := { s with requestCompleted := true }

/-- The counting in `task_sync_add_canceled_tasks`. -/
def countCanceled (s : TaskSync) (canceledTasks : Nat) : TaskSync :=
  let accounted := s.completedTasks + s.canceledTasks
  if accounted < s.totalTasks then
    let remain := s.totalTasks - accounted
    { s with canceledTasks :=
        s.canceledTasks + (if canceledTasks > remain then remain else canceledTasks) }
  else s

/-- `task_sync_add_canceled_tasks`. -/
def addCanceledTasks (s : TaskSync) (canceledTasks : Nat) (timedout : Bool) : TaskSync × Bool :=
  let s := { s with requestCanceled := true, requestTimedout := s.requestTimedout || timedout }
  ((s.countCanceled canceledTasks).completeIfAccounted).freeIfReady

/-- `update_urma_status`: the first status that is not a success stays. -/
def updateUrmaStatus (s : TaskSync) (urmaStatus : UrmaStatus) : TaskSync :=
  if urmaStatus ≠ urmaSuccess ∧ s.urmaStatus = urmaSuccess then { s with urmaStatus } else s

/-- `mark_task_group_completed`. -/
def markTaskGroupCompleted (s : TaskSync) (taskSuccess : Bool) : TaskSync × Bool :=
  if taskSuccess then
    ({ s with completedTasks := s.completedTasks + 1 } : TaskSync).completeIfAccounted.freeIfReady
  else
    ({ s with requestCanceled := true, requestCompleted := true } : TaskSync).freeIfReady

/-- The section that hands the object over: `sync->release_requested = 1` and the check. -/
def requestRelease (s : TaskSync) : TaskSync × Bool :=
  ({ s with releaseRequested := true } : TaskSync).freeIfReady

/-- `sync->request_timedout = 1`. -/
def setTimedout (s : TaskSync) : TaskSync := { s with requestTimedout := true }

/-- The verdict of `wait_for_task_complete_common` on a completed request. -/
def verdict (s : TaskSync) : WaitRet :=
  if s.completedTasks = s.totalTasks ∧ !s.requestCanceled ∧ !s.requestTimedout then .ok else .error

/-! ## What the sections keep

Counters only grow and flags are only set; a section that ends with the release check leaves the
object either not ready or taken. -/

/-- `sync_should_free_locked` without the last conjunct. -/
def ready (s : TaskSync) : Bool := s.releaseRequested && s.requestCompleted && s.allTasksAccounted

theorem shouldFree_eq (s : TaskSync) : s.shouldFree = (s.ready && !s.freeing) := rfl

/-- `s'` is a later state of `s`.  Counters only grow and flags are only raised, by whichever
    section. -/
structure Later (s s' : TaskSync) : Prop where
  total : s'.totalTasks = s.totalTasks
  completed : s.completedTasks ≤ s'.completedTasks
  canceled : s.canceledTasks ≤ s'.canceledTasks
  requestCompleted : s.requestCompleted = true → s'.requestCompleted = true
  releaseRequested : s.releaseRequested = true → s'.releaseRequested = true

/-- A section that ends with the release check: `taken` is whether it took the object, `freeing`
    whether that had been done before. -/
structure Handoff (freeing : Bool) (s' : TaskSync) (taken : Bool) : Prop where
  freeing_eq : s'.freeing = (freeing || taken)
  rest : s'.shouldFree = false
  ready : taken = true → freeing = false ∧ s'.ready = true

section Sections

variable {s s' : TaskSync} {taken : Bool}

theorem allTasksAccounted_iff (h : 0 < s.totalTasks) :
    s.allTasksAccounted = true ↔ s.totalTasks ≤ s.completedTasks + s.canceledTasks := by
  simp only [allTasksAccounted, Bool.or_eq_true, beq_iff_eq, decide_eq_true_eq]
  omega

theorem Later.accounted (h : Later s s') (ha : s.allTasksAccounted = true) :
    s'.allTasksAccounted = true := by
  have hc := h.completed
  have hn := h.canceled
  simp only [allTasksAccounted, Bool.or_eq_true, beq_iff_eq, decide_eq_true_eq, h.total] at ha ⊢
  omega

theorem Later.ready (h : Later s s') (hr : s.ready = true) : s'.ready = true := by
  simp only [TaskSync.ready, Bool.and_eq_true] at hr ⊢
  obtain ⟨⟨hrel, hcomp⟩, hacc⟩ := hr
  exact ⟨⟨h.releaseRequested hrel, h.requestCompleted hcomp⟩, h.accounted hacc⟩

/-- The release check sets `freeing` and nothing else. -/
theorem freeIfReady_eq (h : s.freeIfReady = (s', taken)) :
    s' = { s with freeing := s.freeing || taken } ∧ taken = s.shouldFree := by
  unfold freeIfReady at h
  split at h <;> cases h
  · rename_i hf
    exact ⟨by simp, hf.symm⟩
  · rename_i hf
    exact ⟨by simp, (Bool.eq_false_iff.mpr hf).symm⟩

theorem freeIfReady_handoff (h : s.freeIfReady = (s', taken)) : Handoff s.freeing s' taken := by
  obtain ⟨rfl, rfl⟩ := freeIfReady_eq h
  refine ⟨rfl, ?_, fun hf => ?_⟩
  · show (s.ready && !(s.freeing || s.shouldFree)) = false
    rw [shouldFree_eq]
    cases s.ready <;> cases s.freeing <;> rfl
  · rw [shouldFree_eq, Bool.and_eq_true, Bool.not_eq_true'] at hf
    exact ⟨hf.2, hf.1⟩

/-- What `mark_task_group_completed` does. -/
theorem mark_spec {success : Bool} (h : s.markTaskGroupCompleted success = (s', taken)) :
    Later s s' ∧ Handoff s.freeing s' taken ∧
    s'.completedTasks = s.completedTasks + success.toNat ∧ s'.canceledTasks = s.canceledTasks ∧
    s'.releaseRequested = s.releaseRequested ∧ s'.urmaStatus = s.urmaStatus ∧
    (success = false ∨ s'.allTasksAccounted = true → s'.requestCompleted = true) := by
  unfold markTaskGroupCompleted at h
  cases success with
  | true =>
    have hh := freeIfReady_handoff h
    obtain ⟨rfl, -⟩ := freeIfReady_eq h
    unfold completeIfAccounted at hh ⊢
    split at hh <;> rename_i hacc
    · rw [if_pos hacc]
      exact ⟨⟨rfl, Nat.le_succ _, Nat.le_refl _, fun _ => rfl, id⟩, hh, rfl, rfl, rfl, rfl, fun _ => rfl⟩
    · rw [if_neg hacc]
      refine ⟨⟨rfl, Nat.le_succ _, Nat.le_refl _, id, id⟩, hh, rfl, rfl, rfl, rfl, ?_⟩
      rintro (hs | ha)
      · cases hs
      · exact absurd ha hacc
  | false =>
    have hh := freeIfReady_handoff h
    obtain ⟨rfl, -⟩ := freeIfReady_eq h
    exact ⟨⟨rfl, Nat.le_refl _, Nat.le_refl _, fun _ => rfl, id⟩, hh, rfl, rfl, rfl, rfl, fun _ => rfl⟩

theorem countCanceled_eq (s : TaskSync) (n : Nat) :
    s.countCanceled n = { s with
      canceledTasks :=
        s.canceledTasks + min n (s.totalTasks - (s.completedTasks + s.canceledTasks)) } := by
  simp only [countCanceled]
  split
  · ext <;> try rfl
    show _ + (if _ then _ else _) = _ + _
    split <;> omega
  · rename_i h
    rw [Nat.sub_eq_zero_of_le (Nat.le_of_not_lt h), Nat.min_zero, Nat.add_zero]

/-- What `task_sync_add_canceled_tasks` does. -/
theorem add_spec {n : Nat} {timedout : Bool} (h : s.addCanceledTasks n timedout = (s', taken)) :
    Later s s' ∧ Handoff s.freeing s' taken ∧ s'.completedTasks = s.completedTasks ∧
    s'.canceledTasks = s.canceledTasks
      + min n (s.totalTasks - (s.completedTasks + s.canceledTasks)) ∧
    s'.releaseRequested = s.releaseRequested ∧
    (s'.allTasksAccounted = true → s'.requestCompleted = true) := by
  simp only [addCanceledTasks, countCanceled_eq] at h
  have hh := freeIfReady_handoff h
  obtain ⟨rfl, -⟩ := freeIfReady_eq h
  unfold completeIfAccounted at hh ⊢
  split at hh <;> rename_i hacc
  · rw [if_pos hacc]
    exact ⟨⟨rfl, Nat.le_refl _, Nat.le_add_right _ _, fun _ => rfl, id⟩, hh, rfl, rfl, rfl, fun _ => rfl⟩
  · rw [if_neg hacc]
    exact ⟨⟨rfl, Nat.le_refl _, Nat.le_add_right _ _, id, id⟩, hh, rfl, rfl, rfl,
      fun ha => absurd ha hacc⟩

/-- What the request for the release does. -/
theorem release_spec (h : s.requestRelease = (s', taken)) :
    Later s s' ∧ Handoff s.freeing s' taken ∧ s'.completedTasks = s.completedTasks ∧
    s'.canceledTasks = s.canceledTasks ∧ s'.requestCompleted = s.requestCompleted ∧
    s'.releaseRequested = true := by
  unfold requestRelease at h
  have hh := freeIfReady_handoff h
  obtain ⟨rfl, -⟩ := freeIfReady_eq h
  exact ⟨⟨rfl, Nat.le_refl _, Nat.le_refl _, id, fun _ => rfl⟩, hh, rfl, rfl, rfl, rfl⟩

/-- `update_urma_status` leaves everything else. -/
theorem updateUrmaStatus_eq (st : UrmaStatus) :
    ∃ urmaStatus, s.updateUrmaStatus st = { s with urmaStatus } := by
  unfold updateUrmaStatus
  split
  · exact ⟨st, rfl⟩
  · exact ⟨s.urmaStatus, rfl⟩

end Sections

end TaskSync

end OsTransport
