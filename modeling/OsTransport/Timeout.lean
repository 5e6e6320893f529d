/-
  What a timed wait answers when it wakes up.

  `pthread_cond_timedwait` re-acquires the mutex before it returns, so between the deadline and
  the moment the waiter holds the mutex again the last task may have completed the request.
  `wait_for_task_complete_common` checks `request_completed` again on every way out of the wait but
  one: when `ETIMEDOUT` is reported it answers at once.

  `no_false_timeout` says for which wake-ups the answer is right.  It needs two facts about the shared
  object that hold until its owner has decided: only a failed task marks it cancelled
  (`Undecided`), and only a task that is failing or has failed leaves an URMA status
  (`status_reach`).

  The proof:

  1. `undecided_reach` and `status_reach`: what the flags and the status say as long as the owner is
     in its wait loop;
  2. `AllSucceeded`: every task of the request is marked a success.  Then nothing has failed and
     nothing is failing, so with 1 the flags are down and the status is a success
     (`AllSucceeded.settled`), and it stays so (`AllSucceeded.step`);
  3. `willReturn_ok`: from there on the owner can return nothing but `0`, and can return;
  4. `no_false_timeout` looks at the one step in which the mutex is taken again, and compares what is
     answered with what is owed (`NoFalseTimeout`).

  `completed_request_times_out` is the run in which the two differ.
-/
import OsTransport.Effects

namespace OsTransport

open Transition Total

/-! ## The flags before the owner has decided

Nothing but a failed task cancels a request, and nothing but its owner times it out. -/

/-- The owner has neither timed out nor counted cancelled tasks. -/
def OwnerPc.undecided : OwnerPc → Bool
  | .idle => true
  | .entering _ => true
  | .blocked _ => true
  | .cancelling none => true
  | _ => false

/-- Until then the object is not marked timed out, and marked cancelled by failed tasks only. -/
def Undecided (v : RequestView) : Prop :=
  v.req.owner.undecided = true →
    v.req.sync.requestTimedout = false ∧ (v.req.sync.requestCanceled = true → 0 < v.failed)

section Flags

variable {q : Nat} {v v' : RequestView}

/-- The test for the release leaves status and flags alone. -/
theorem freeIfReady_flags {s s' : TaskSync} {taken : Bool} (h : s.freeIfReady = (s', taken)) :
    s'.requestTimedout = s.requestTimedout ∧ s'.requestCanceled = s.requestCanceled ∧
      s'.urmaStatus = s.urmaStatus := by
  obtain ⟨rfl, -⟩ := TaskSync.freeIfReady_eq h
  exact ⟨rfl, rfl, rfl⟩

/-- So does the completion of a request. -/
theorem completeIfAccounted_flags (s : TaskSync) :
    s.completeIfAccounted.requestTimedout = s.requestTimedout ∧
      s.completeIfAccounted.requestCanceled = s.requestCanceled ∧
      s.completeIfAccounted.urmaStatus = s.urmaStatus := by
  unfold TaskSync.completeIfAccounted
  split <;> exact ⟨rfl, rfl, rfl⟩

/-- A failed task cancels the request; nothing here times it out. -/
theorem mark_flags {s s' : TaskSync} {success taken : Bool}
    (h : s.markTaskGroupCompleted success = (s', taken)) :
    s'.requestTimedout = s.requestTimedout ∧
      s'.requestCanceled = (s.requestCanceled || !success) := by
  unfold TaskSync.markTaskGroupCompleted at h
  cases success with
  | true =>
    obtain ⟨htimed, hcancel, -⟩ := freeIfReady_flags h
    obtain ⟨htimed', hcancel', -⟩ := completeIfAccounted_flags { s with completedTasks := s.completedTasks + 1 }
    refine ⟨htimed.trans htimed', ?_⟩
    rw [hcancel, hcancel', Bool.not_true, Bool.or_false]
  | false =>
    obtain ⟨htimed, hcancel, -⟩ := freeIfReady_flags h
    refine ⟨htimed, ?_⟩
    rw [hcancel, Bool.not_false, Bool.or_true]

/-- One step keeps it so: only the owner times a request out, and only a failed task cancels it. -/
theorem Undecided.step (h : Undecided v) (howned : Owned v) (hs : RequestStep q v v') :
    Undecided v' := by
  cases hs with
  | submit hc =>
    intro _
    exact ⟨rfl, fun hcancel => by cases hcancel⟩
  | check ho =>
    intro _
    rcases ho with ho | ho <;> exact h (by rw [ho]; rfl)
  | callWait hh hc ho | callCancel hh hc ho hb =>
    intro _
    exact h (by rw [ho]; rfl)
  | refusedCancel ho =>
    intro _
    exact h (by rw [ho]; rfl)
  | status =>
    obtain ⟨st, hst⟩ := TaskSync.updateUrmaStatus_eq (s := v.req.sync) ‹UrmaStatus›
    intro hu
    have := h hu
    show (TaskSync.updateUrmaStatus _ _).requestTimedout = _ ∧ _
    rw [hst]
    exact this
  | @mark w success sync shouldFree hw hsync =>
    intro hu
    obtain ⟨htimed, hcancel⟩ := h hu
    obtain ⟨htimed', hcancel'⟩ := mark_flags hsync
    refine ⟨htimed'.trans htimed, fun hx => ?_⟩
    have hx' : sync.requestCanceled = true := hx
    show 0 < v.failed + (!success).toNat
    rw [hcancel', Bool.or_eq_true] at hx'
    rcases hx' with hold | hnew
    · have := hcancel hold
      omega
    · rw [hnew]
      exact Nat.succ_pos _
  | fail | refuse | select | attach | record | register | unregistered | post | remove | removeOther
  | workerFree => exact h
  | unbound | timeout | condError | beginCancel | counted | refusedWait | addFree | request
  | ownerFree =>
    intro hu
    cases hu
  | add =>
    intro hu
    split at hu <;> cases hu
  | release =>
    intro hu
    split at hu <;> cases hu
  | recheck ho => exact absurd ho (howned.stage.ne none).2.2

/-- In every run it is so until the owner decides. -/
theorem undecided_reach {ok : RequestView → Unit → Prop} (h : (requestSystem q).Reach ok v) :
    Undecided v := by
  refine h.invariant ?_ ?_
  · rintro v rfl _
    exact ⟨rfl, fun hcancel => by cases hcancel⟩
  · rintro v - v' hr hI - ⟨hs, -⟩
    exact hI.step (requestInv_reach hr).owned hs

end Flags

/-! ## Where an URMA status comes from

A status that is no success was recorded by a task that fails. -/

/-- Marking a task does not touch the status. -/
theorem mark_urmaStatus {s s' : TaskSync} {success taken : Bool}
    (h : s.markTaskGroupCompleted success = (s', taken)) : s'.urmaStatus = s.urmaStatus := by
  obtain ⟨-, -, -, -, -, hst, -⟩ := TaskSync.mark_spec h
  exact hst

/-- Nor does adding the canceled tasks. -/
theorem add_urmaStatus {s s' : TaskSync} {n : Nat} {timedout taken : Bool}
    (h : s.addCanceledTasks n timedout = (s', taken)) : s'.urmaStatus = s.urmaStatus := by
  simp only [TaskSync.addCanceledTasks, TaskSync.countCanceled_eq] at h
  rw [(freeIfReady_flags h).2.2, (completeIfAccounted_flags _).2.2]

/-- A task of `q` has failed, or is about to be marked as failed.  The status is recorded one
    section before the mark. -/
def Transport.Failing (s : Transport) (q : Nat) : Prop :=
  (∃ i, (⟨q, i⟩, false) ∈ marks s.trace) ∨
    ∃ w t r u st, (s.pool.workers w).exec = .running t r u ∧ t.ptr.sync = q ∧
      s.body w = .mark st ∧ st ≠ urmaSuccess

section Status

variable {s s' : Transport} {q : Nat} {a : Action}

/-- An edit of one request that keeps its status changes none. -/
theorem setReq_urmaStatus {q' : Nat} {r : Request}
    (h : r.sync.urmaStatus = (s.reqs q').sync.urmaStatus) (q : Nat) :
    ((s.setReq q' r).reqs q).sync.urmaStatus = (s.reqs q).sync.urmaStatus := by
  by_cases hq : q = q'
  · subst hq
    rw [← h]
    exact congrArg (fun r : Request => r.sync.urmaStatus) (Function.update_self ..)
  · exact congrArg (fun r : Request => r.sync.urmaStatus) (Function.update_of_ne hq ..)

/-- What a step does to the status of request `q`: nothing, or the call that makes the request
    initialises it, or a worker records the status of a task. -/
inductive StatusMove (s : Transport) (q : Nat) (a : Action) (s' : Transport) : Prop
  | same (h : (s'.reqs q).sync.urmaStatus = (s.reqs q).sync.urmaStatus)
      (hno : ∀ w ret t r u st, a = .worker w ret → (s.pool.workers w).exec = .running t r u →
        s.body w = .status st → t.ptr.sync ≠ q)
  | made (hc : (s.reqs q).caller = .fresh) (h : (s'.reqs q).sync.urmaStatus = urmaSuccess)
  | recorded {w ret t r u st} (ha : a = .worker w ret)
      (hexec : (s.pool.workers w).exec = .running t r u) (hbody : s.body w = .status st)
      (hq : t.ptr.sync = q) (hpool : s'.pool = s.pool) (hbody' : s'.body w = .mark st)
      (h : (s'.reqs q).sync = (s.reqs q).sync.updateUrmaStatus st)

/-- Every step leaves the status of a request, initialises it, or records one. -/
theorem Move.statusMove (hm : Move s a s') (q : Nat) : StatusMove s q a s' := by
  have hkeep : (∀ w ret, a ≠ .worker w ret) →
      (s'.reqs q).sync.urmaStatus = (s.reqs q).sync.urmaStatus → StatusMove s q a s' :=
    fun ha h => .same h fun w ret _ _ _ _ hw => absurd hw (ha w ret)
  -- a worker that is not about to record a status
  have hworker : ∀ {w ret}, a = .worker w ret → (∀ st, s.body w ≠ .status st) →
      (s'.reqs q).sync.urmaStatus = (s.reqs q).sync.urmaStatus → StatusMove s q a s' := by
    intro w ret ha hno h
    refine .same h fun w' ret' _ _ _ st hw _ hbody => ?_
    rw [ha] at hw
    cases hw
    exact absurd hbody (hno st)
  cases hm with
  | @submit a' q' alloc p pool hcall hc =>
    by_cases hq : q = q'
    · subst hq
      refine .made hc ?_
      exact congrArg (fun r : Request => r.sync.urmaStatus) (reqs_setReq_self _ q _)
    · refine hkeep ?_ (congrArg (fun r : Request => r.sync.urmaStatus) (setReq_reqs_of_ne _ hq))
      rintro w ret rfl
      cases hcall
  | refuse hcall =>
    refine hkeep ?_ (setReq_urmaStatus ?_ q)
    · rintro w ret rfl
      cases hcall
    · rfl
  | firstWrite _ _ hpost =>
    refine hkeep (by simp) ?_
    rw [← post_reqs hpost]
    exact setReq_urmaStatus (by rw [post_reqs hpost]) q
  | notify _ hbody _ hpost | write _ hbody _ hpost =>
    refine hworker rfl (by simp [hbody]) ?_
    exact congrArg (fun f => (f q).sync.urmaStatus) (post_reqs hpost)
  | add ho hsync => exact hkeep (by simp) (setReq_urmaStatus (add_urmaStatus hsync) q)
  | release ho hsync | recheck ho hsync =>
    have hst := (freeIfReady_flags hsync).2.2
    exact hkeep (by simp) (setReq_urmaStatus hst q)
  | @status w ret t r u st hexec hbody =>
    by_cases hq : t.ptr.sync = q
    · subst hq
      refine .recorded rfl hexec hbody rfl rfl (Function.update_self ..) ?_
      exact congrArg Request.sync (reqs_setReq_self s _ _)
    · refine .same ?_ fun w' ret' t' _ _ _ hw hexec' _ => ?_
      · have hne : q ≠ t.taskArg.userArg.sync := Ne.symm hq
        exact congrArg (fun r : Request => r.sync.urmaStatus) (setReq_reqs_of_ne _ hne)
      · cases hw
        rw [hexec] at hexec'
        cases hexec'
        exact hq
  | mark hexec hbody hsync =>
    exact hworker rfl (by simp [hbody]) (setReq_urmaStatus (mark_urmaStatus hsync) q)
  | workerFree hexec hbody =>
    refine hworker rfl (by simp [hbody]) (setReq_urmaStatus ?_ q)
    rfl
  | callback _ hbody | noCallback _ hbody | finish _ hbody =>
    exact hworker rfl (by simp [hbody]) rfl
  | pop hexec | account hexec =>
    refine .same rfl fun w' ret' _ _ _ _ hw hexec' _ => ?_
    cases hw
    rw [hexec] at hexec'
    cases hexec'
  | callerAdvance | ownerAdvance | ignored | completion | wakeStep | cancelId | cancelStep =>
    exact hkeep (by simp) rfl
  | _ =>
    refine hkeep (by simp) (setReq_urmaStatus ?_ q)
    rfl

theorem mem_marks_of_append {t t' events : List Event} {x : ArgPtr × Bool}
    (h : t' = t ++ events) (hx : x ∈ marks t) : x ∈ marks t' := by
  obtain ⟨e, he, hex⟩ := List.mem_filterMap.mp hx
  rw [h]
  exact List.mem_filterMap.mpr ⟨e, List.mem_append_left _ he, hex⟩

/-- A failing task stays one until it is marked as failed. -/
theorem Transport.Failing.step (h : s.Failing q) (hs : s.step a = some s') : s'.Failing q := by
  have hm := Transport.move_of_step hs
  obtain ⟨events, htrace⟩ := hm.trace_append
  rcases h with ⟨i, hi⟩ | ⟨w, t, r, u, st, hexec, hq, hbody, hst⟩
  · exact .inl ⟨i, mem_marks_of_append htrace hi⟩
  by_cases ha : ∀ w ret, a ≠ .worker w ret
  · obtain ⟨hsame, hbody', -⟩ := hm.other ha
    exact .inr ⟨w, t, r, u, st, by rw [hsame, hexec], hq, by rw [hbody', hbody], hst⟩
  obtain ⟨w', ret, rfl⟩ : ∃ w' ret, a = .worker w' ret := by
    simpa only [not_forall, not_not] using ha
  by_cases hw : w = w'
  · subst hw
    -- all this worker can do is to mark the task
    refine .inl ⟨t.ptr.index, ?_⟩
    have hfalse : (st == 0) = false := beq_eq_false_iff_ne.mpr hst
    have hmark : s.bodyStep w t.taskArg.userArg u ret = some s' := by
      simpa only [Transport.step, Transport.workerStep, hexec] using hs
    simp only [Transport.bodyStep, hbody, hfalse, Option.some.injEq] at hmark
    rw [← hmark, ← hq]
    exact List.mem_filterMap.mpr ⟨_, List.mem_append_right _ (List.mem_singleton_self _), rfl⟩
  · obtain ⟨hsame, hbody'⟩ := hm.elsewhere hw
    exact .inr ⟨w, t, r, u, st, by rw [hsame, hexec], hq, by rw [hbody', hbody], hst⟩

/-- In every run, a status that is no success comes from a task that failed or is about to. -/
theorem status_reach {workerCount : Nat} {capacity : BitVec 32} {ok : Transport → Action → Prop}
    (h : (transportSystem workerCount capacity).Reach ok s)
    (hst : (s.reqs q).sync.urmaStatus ≠ urmaSuccess) : s.Failing q := by
  refine h.invariant (I := fun s => (s.reqs q).sync.urmaStatus ≠ urmaSuccess → s.Failing q) ?_ ?_ hst
  · rintro s rfl hst
    exact absurd rfl hst
  · intro s a s' _ hI _ hs hst
    cases (Transport.move_of_step hs).statusMove q with
    | same hsame => exact (hI (by rwa [← hsame])).step hs
    | made _ hnew => exact absurd hnew hst
    | @recorded w _ t r u st _ hexec _ hq hpool hbody hset =>
      rw [hset] at hst
      unfold TaskSync.updateUrmaStatus at hst
      split at hst
      · exact .inr ⟨w, t, r, u, st, by rw [hpool, hexec], hq, hbody, hst⟩
      · exact (hI hst).step hs

end Status

/-! ## A request whose tasks have all succeeded

Then no status is left, and the verdict is a success. -/

/-- Every task of `q` has ended with success.  Told by the marks in the history; that the counters
    agree is `Transport.AllSucceeded.count`. -/
def Transport.AllSucceeded (s : Transport) (q : Nat) : Prop :=
  ∀ i, i < (s.reqs q).prep.tasks.length → (⟨q, i⟩, true) ∈ marks s.trace

section Succeeded

variable {s s' : Transport} {q : Nat} {a : Action} {workerCount : Nat} {capacity : BitVec 32}
  {ok : Transport → Action → Prop}

/-- If every task has been marked as a success, so many are counted. -/
theorem Transport.AllSucceeded.count (h : s.AllSucceeded q) :
    (s.reqs q).prep.tasks.length ≤ (s.view q).succeeded := by
  have hnodup : ((List.range (s.reqs q).prep.tasks.length).map fun i => ((⟨q, i⟩ : ArgPtr), true)).Nodup := by
    refine List.nodup_range.map fun i j hij => ?_
    simpa using hij
  have hsub : (List.range (s.reqs q).prep.tasks.length).map (fun i => ((⟨q, i⟩ : ArgPtr), true)) ⊆
      marks s.trace := by
    intro x hx
    obtain ⟨i, hi, rfl⟩ := List.mem_map.mp hx
    exact h i (List.mem_range.mp hi)
  have hcount := (hnodup.subperm hsub).countP_le fun x => x.1.sync == q && x.2
  rw [List.countP_map, List.countP_eq_length.mpr (by simp), List.length_range] at hcount
  exact hcount

/-- Then the counter says so, no task failed and none is executing, and no status was left. -/
theorem Transport.AllSucceeded.settled (h : s.AllSucceeded q)
    (hr : (transportSystem workerCount capacity).Reach ok s) (hb : (s.reqs q).bound = true) :
    (s.reqs q).sync.completedTasks = (s.reqs q).sync.totalTasks ∧ (s.view q).failed = 0 ∧
      (s.reqs q).sync.urmaStatus = urmaSuccess := by
  obtain ⟨Q, E, hL⟩ := ledger_reach hr
  have hinv := request_inv hr q
  obtain ⟨-, -, ht, -, ha⟩ := hinv.stage.of_bound (.inl hb)
  have htotal : (s.reqs q).sync.totalTasks = (s.reqs q).prep.tasks.length := ht
  have hcompleted : (s.reqs q).sync.completedTasks = (s.view q).succeeded := hinv.counted.completed
  have hcount := h.count
  obtain ⟨-, hE, hfailed, -⟩ := all_succeeded hL hinv hb (by omega)
  have hfits : (s.view q).succeeded + (s.view q).failed + (s.view q).removed ≤ _ := hinv.fits
  rw [ha, List.length_map] at hfits
  have hfits' : (s.view q).succeeded ≤ (s.reqs q).prep.tasks.length := by
    show _ ≤ (s.view q).req.prep.tasks.length
    omega
  refine ⟨by omega, hfailed, ?_⟩
  by_contra hst
  rcases status_reach hr hst with ⟨i, hi⟩ | ⟨w, t, r, u, st, hexec, hq, hbody, -⟩
  · exact absurd (by simp) (List.countP_eq_zero.mp hfailed _ hi)
  · have hone := hL.executing_count ⟨t, r, u, hexec, rfl, by rw [hbody]; rfl⟩
    exact Multiset.countP_eq_zero.mp hE t.ptr (Multiset.count_pos.mp hone) hq

/-- Marks stay. -/
theorem Transport.AllSucceeded.step (h : s.AllSucceeded q) (hmade : (s.reqs q).prep.tasks ≠ [])
    (hr : (transportSystem workerCount capacity).Reach ok s) (hs : s.step a = some s') :
    s'.AllSucceeded q := by
  obtain ⟨events, htrace⟩ := (Transport.move_of_step hs).trace_append
  intro i hi
  rw [keepsMade_step hr hs q hmade] at hi
  exact mem_marks_of_append htrace (h i hi)

end Succeeded

/-! ## What the wait returns

From the wake-up on, the owner's own steps decide; the others cannot change the outcome any more. -/

/-- From here the call on the handle of `q` can return `ret`, and nothing else.  A call that cannot
    return at all would satisfy the second half alone. -/
def Transport.WillReturn (s : Transport) (q : Nat) (ret : OwnerRet) : Prop :=
  (∃ s', (System.ofFun (· = s) Transport.step).Reach (fun _ _ => True) s' ∧
    (s'.reqs q).owner = .returned ret) ∧
  ∀ s' ret', (System.ofFun (· = s) Transport.step).Reach (fun _ _ => True) s' →
    (s'.reqs q).owner = .returned ret' → ret' = ret

/-- On the way to the return of `0` after the wait has succeeded. -/
def OwnerPc.succeeding (pc : OwnerPc) : Prop :=
  pc = .releasing (some .ok) ∨ pc = .freeing (.waited .ok urmaSuccess) ∨
    pc = .returned (.waited .ok urmaSuccess)

section Return

variable {s s' : Transport} {q : Nat} {workerCount : Nat} {capacity : BitVec 32}
  {ok : Transport → Action → Prop}

/-- A wait that is over in time, with success recorded, answers so. -/
theorem ownerRet_ok : Transport.ownerRet (some .ok) urmaSuccess = .waited .ok urmaSuccess := by
  decide

/-- An owner on its way to success stays on it while the status is one. -/
theorem RequestStep.succeeding {v v' : RequestView} (hs : RequestStep q v v')
    (ho : v.req.owner.succeeding) (hst : v.req.sync.urmaStatus = urmaSuccess) :
    v'.req.owner.succeeding := by
  have hno : ∀ pc, v.req.owner = pc → ¬ pc.succeeding → False := fun pc hpc hn => hn (hpc ▸ ho)
  cases hs with
  | release ho' hsync =>
    rcases ho with ho | ho | ho <;> rw [ho'] at ho <;> cases ho
    show (if _ then _ else _ : OwnerPc).succeeding
    rw [hst, ownerRet_ok]
    split
    · exact .inr (.inl rfl)
    · exact .inr (.inr rfl)
  | ownerFree ho' =>
    rcases ho with ho | ho | ho <;> rw [ho'] at ho <;> cases ho
    exact .inr (.inr rfl)
  | check ho' =>
    rcases ho' with ho' | ho' <;> exact (hno _ ho' (by simp [OwnerPc.succeeding])).elim
  | callWait _ _ ho' | callCancel _ _ ho' | unbound ho' | timeout ho' | condError ho'
  | beginCancel ho' | remove ho' | counted ho' | refusedWait ho' | refusedCancel ho' | add ho'
  | addFree ho' | request ho' | recheck ho' =>
    exact (hno _ ho' (by simp [OwnerPc.succeeding])).elim
  | _ => exact ho

/-- A request that is registered stays so. -/
theorem RequestStep.bound {v v' : RequestView} (hs : RequestStep q v v')
    (hb : v.req.bound = true) : v'.req.bound = true := by
  cases hs with
  | register => rfl
  | _ => exact hb

/-- The owner can always hand the object over, and free it. -/
theorem owner_releasing {wait : Option WaitRet} (ho : (s.reqs q).owner = .releasing wait) :
    ∃ s', s.step (.owner q .woken) = some s' ∧
      ((s'.reqs q).owner = .freeing (Transport.ownerRet wait (s.reqs q).sync.urmaStatus) ∨
        (s'.reqs q).owner = .returned (Transport.ownerRet wait (s.reqs q).sync.urmaStatus)) := by
  have hstep : s.step (.owner q .woken) = some (s.setReq q { s.reqs q with
      sync := (s.reqs q).sync.requestRelease.1
      owner := if (s.reqs q).sync.requestRelease.2 then
          .freeing (Transport.ownerRet wait (s.reqs q).sync.urmaStatus)
        else .returned (Transport.ownerRet wait (s.reqs q).sync.urmaStatus) }) := by
    simp only [Transport.step, Transport.ownerStep, ho]
  refine ⟨_, hstep, ?_⟩
  rw [reqs_setReq_self]
  cases (s.reqs q).sync.requestRelease.2 with
  | true => exact .inl rfl
  | false => exact .inr rfl

/-- An owner that frees returns next. -/
theorem owner_freeing {ret : OwnerRet} (ho : (s.reqs q).owner = .freeing ret) :
    ∃ s', s.step (.owner q .woken) = some s' ∧ (s'.reqs q).owner = .returned ret := by
  have hstep : s.step (.owner q .woken) = some (s.setReq q
      { s.reqs q with freed := (s.reqs q).freed + 1, owner := .returned ret }) := by
    simp only [Transport.step, Transport.ownerStep, ho]
  refine ⟨_, hstep, ?_⟩
  rw [reqs_setReq_self]

/-- What is ahead of the owner stays so along every step. -/
theorem succeeding_step {a : Action} (hr : (transportSystem workerCount capacity).Reach ok s)
    (hs : s.step a = some s') (hb : (s.reqs q).bound = true) (hall : s.AllSucceeded q)
    (ho : (s.reqs q).owner.succeeding) :
    (s'.reqs q).bound = true ∧ s'.AllSucceeded q ∧ (s'.reqs q).owner.succeeding := by
  obtain ⟨-, -, hst⟩ := hall.settled hr hb
  obtain ⟨-, hp, -⟩ := (request_inv hr q).stage.of_bound (.inl hb)
  have hall' := hall.step hp.tasks_ne_nil hr hs
  rcases view_step hr hs q with hsame | hstep
  · have hreq : s'.reqs q = s.reqs q := congrArg RequestView.req hsame
    rw [hreq]
    exact ⟨hb, hall', ho⟩
  · exact ⟨hstep.bound hb, hall', hstep.succeeding ho hst⟩

/-- Once the wait has found all tasks succeeded, it returns `0`. -/
theorem willReturn_ok (hr : (transportSystem workerCount capacity).Reach ok s)
    (hb : (s.reqs q).bound = true) (hall : s.AllSucceeded q)
    (ho : (s.reqs q).owner = .releasing (some .ok)) :
    s.WillReturn q (.waited .ok urmaSuccess) := by
  have hfrom : (transportSystem workerCount capacity).Reach (fun _ _ => True) s :=
    hr.mono fun _ _ _ => trivial
  constructor
  · obtain ⟨-, -, hst⟩ := hall.settled hr hb
    obtain ⟨s₁, hs₁, ho₁⟩ := owner_releasing ho
    rw [hst, ownerRet_ok] at ho₁
    have h₁ : (System.ofFun (· = s) Transport.step).Reach (fun _ _ => True) s₁ :=
      .step (.init rfl) trivial hs₁
    rcases ho₁ with ho₁ | ho₁
    · obtain ⟨s₂, hs₂, ho₂⟩ := owner_freeing ho₁
      exact ⟨s₂, .step h₁ trivial hs₂, ho₂⟩
    · exact ⟨s₁, h₁, ho₁⟩
  · intro s' ret hreach hret
    have hI : (s'.reqs q).bound = true ∧ s'.AllSucceeded q ∧ (s'.reqs q).owner.succeeding := by
      refine hreach.invariant (I := fun s' => (s'.reqs q).bound = true ∧ s'.AllSucceeded q ∧
        (s'.reqs q).owner.succeeding) ?_ ?_
      · rintro s' rfl
        exact ⟨hb, hall, .inl ho⟩
      · rintro s₁ a s₂ hr₁ ⟨hb₁, hall₁, ho₁⟩ - hs
        have hr₁' := hfrom.trans hr₁
        exact succeeding_step hr₁' hs hb₁ hall₁ ho₁
    obtain ⟨-, -, ho'⟩ := hI
    rcases ho' with ho' | ho' | ho' <;> rw [hret] at ho' <;> cases ho'
    rfl

/-- What the waiter of `q` owes when it holds the mutex again in `s` and goes on in `s'`:
    `0` if the request is completed and every task succeeded, and the timeout code
    (`wait_for_task_complete_common` answers `OS_TRANSPORT_WAIT_TIMEOUT`) only if the request is not
    completed. -/
structure NoFalseTimeout (q : Nat) (s s' : Transport) : Prop where
  success : (s.reqs q).sync.requestCompleted = true → s.AllSucceeded q →
    s'.WillReturn q (.waited .ok urmaSuccess)
  timeout : (s'.reqs q).owner = .failed .timeout → (s.reqs q).sync.requestCompleted = false

/-- What a completed request is judged to be is never a timeout. -/
theorem verdict_ne_timeout (s : TaskSync) : s.verdict ≠ .timeout := by
  unfold TaskSync.verdict
  split <;> simp

/-- The verdict of a waiter that looks while nobody has decided against the request. -/
theorem verdict_ok (hr : (transportSystem workerCount capacity).Reach ok s)
    (hb : (s.reqs q).bound = true) (hall : s.AllSucceeded q)
    (hu : (s.reqs q).owner.undecided = true) : (s.reqs q).sync.verdict = .ok := by
  obtain ⟨hcompleted, hfailed, -⟩ := hall.settled hr hb
  obtain ⟨htimed, hcancel⟩ := undecided_reach (view_reach hr q) hu
  have htimed' : (s.reqs q).sync.requestTimedout = false := htimed
  have hcancel' : (s.reqs q).sync.requestCanceled = false := by
    by_contra hc
    have hpos := hcancel (Bool.not_eq_false _ ▸ hc)
    omega
  simp [TaskSync.verdict, hcompleted, htimed', hcancel']

/-- **No false timeout.**  Let `pthread_cond_timedwait` return, with the mutex held and for one of
    the two reasons it has, to a waiter of request `q`.  The waiter answers rightly unless
    the reason is `ETIMEDOUT` although the request is completed by now. -/
theorem no_false_timeout (h : (transportSystem workerCount capacity).Reach ok s) {cond : CondRet}
    (hcond : cond ≠ .error) (ho : (s.reqs q).owner = .blocked true)
    (hs : s.step (.owner q cond) = some s') :
    NoFalseTimeout q s s' ↔ ¬ (cond = .etimedout ∧ (s.reqs q).sync.requestCompleted = true) := by
  have hstep : s.ownerStep q cond = some s' := hs
  cases cond with
  | error => exact absurd rfl hcond
  | etimedout =>
    simp only [Transport.ownerStep, ho, if_true, Option.some.injEq] at hstep
    have ho' : (s'.reqs q).owner = .failed .timeout := by rw [← hstep, reqs_setReq_self]
    constructor
    · rintro hno ⟨-, hcompleted⟩
      rw [hno.timeout ho'] at hcompleted
      cases hcompleted
    · intro hn
      have hopen : (s.reqs q).sync.requestCompleted = false :=
        Bool.eq_false_iff.mpr fun hc => hn ⟨rfl, hc⟩
      exact ⟨fun hc => absurd hc (by rw [hopen]; decide), fun _ => hopen⟩
  | woken =>
    simp only [Transport.ownerStep, ho, Option.some.injEq] at hstep
    have ho' : (s'.reqs q).owner = Transport.checkCompleted (s.reqs q) true := by
      rw [← hstep, reqs_setReq_self]
    refine ⟨fun _ => (fun hc => by cases hc.1), fun _ => ⟨fun hc hall => ?_, fun hf => ?_⟩⟩
    · have howner : (s.view q).req.owner = .blocked true := ho
      obtain ⟨hh, -⟩ := (request_inv h q).owned.active_of howner (by simp)
      obtain ⟨-, hp, -, hb, -⟩ := (request_inv h q).stage.of_bound (.inr (.inl hh))
      have hverdict := verdict_ok h hb hall (by rw [ho]; rfl)
      have hrel : Transport.checkCompleted (s.reqs q) true = .releasing (some .ok) := by
        rw [Transport.checkCompleted, hc, if_pos rfl, hverdict]
      have hr' : (transportSystem workerCount capacity).Reach (fun _ _ => True) s' :=
        .step (h.mono fun _ _ _ => trivial) trivial hs
      refine willReturn_ok hr' ?_ (hall.step hp.tasks_ne_nil h hs) (ho'.trans hrel)
      rw [← hstep, reqs_setReq_self]
      exact hb
    · rw [ho', Transport.checkCompleted] at hf
      split at hf
      · split at hf
        · cases hf
        · -- a completed request may be an error, but no timeout
          rename_i wait hne
          injection hf with hwait
          exact absurd hwait (verdict_ne_timeout _)
      · rename_i hn
        exact Bool.eq_false_iff.mpr hn

end Return

/-- One chunk is received while the owner is blocked in a wait with a deadline. -/
def receiveBlocked : List Action :=
  registerOne ++ [.callWait 0 true, .owner 0 .woken] ++ executeOne 0

/-- The waiter is still blocked on a request that is completed. -/
def blockedOnCompleted (s : Transport) : Bool :=
  (s.reqs 0).owner == .blocked true && (s.reqs 0).sync.requestCompleted

/-- Woken by the signal of the last task, it answers rightly. -/
theorem no_false_timeout_woken : ∃ s s', (transportSystem 1 1#32).Reach (fun _ _ => True) s ∧
    (s.reqs 0).sync.requestCompleted = true ∧ s.step (.owner 0 .woken) = some s' ∧
    NoFalseTimeout 0 s s' := by
  obtain ⟨s, hr, hP⟩ := transportSystem_run 1 1#32 receiveBlocked
    (fun s => blockedOnCompleted s && (s.step (.owner 0 .woken)).isSome) (by decide +kernel)
  simp only [blockedOnCompleted, Bool.and_eq_true, beq_iff_eq] at hP
  obtain ⟨⟨ho, hc⟩, hsome⟩ := hP
  obtain ⟨s', hs⟩ := Option.isSome_iff_exists.mp hsome
  exact ⟨s, s', hr, hc, hs, (no_false_timeout hr (by decide) ho hs).mpr (by simp)⟩

/-- The deadline passes while the last task completes the request, and the waiter gets the mutex
    after it. -/
theorem completed_request_times_out : ¬ ∀ (s s' : Transport) (cond : CondRet),
    (transportSystem 1 1#32).Reach (fun _ _ => True) s → cond ≠ .error →
    (s.reqs 0).owner = .blocked true → s.step (.owner 0 cond) = some s' →
    NoFalseTimeout 0 s s' := by
  intro hall
  obtain ⟨s, hr, hP⟩ := transportSystem_run 1 1#32 receiveBlocked blockedOnCompleted
    (by decide +kernel)
  simp only [blockedOnCompleted, Bool.and_eq_true, beq_iff_eq] at hP
  obtain ⟨ho, hc⟩ := hP
  have hstep : s.step (.owner 0 .etimedout) = some (s.setReq 0
      { s.reqs 0 with sync := (s.reqs 0).sync.setTimedout, owner := .failed .timeout }) := by
    simp only [Transport.step, Transport.ownerStep, ho, if_true]
  have hopen := (hall s _ .etimedout hr (by decide) ho hstep).timeout
    (by rw [reqs_setReq_self])
  rw [hc] at hopen
  cases hopen

end OsTransport
