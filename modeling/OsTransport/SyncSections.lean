/-
  A `task_sync_t`, access by access.

  `OsTransport.Sync` takes each locked section of the source as one function, and the transport
  takes each of them as one step.  Here every access under `sync->mutex` is a step of its own: any
  number of threads report tasks, post, cancel and release, in any order, while one thread waits in
  `wait_for_task_complete_common`, sleeps on `sync->cond`, may wake for no reason, and may give up
  at its deadline.

  * `sync_published` — what the mutex publishes is what a sequence of the functions of
                       `OsTransport.Sync` makes of a fresh object, a wait that returns `0` has read
                       a whole state of that sequence, and at most one thread is told to free
                       the object;
  * `waiter_awake`   — the waiter never sleeps over a completed request, unless the thread that has
                       completed it still holds the mutex, and is about to signal.

  The plan is that of `OsTransport.Sections`, on a smaller object.  `syncCode` is the code of the
  threads, written from small programs that the source's static functions are (`freeSection`,
  `completeSection`, `accountedSection`).  Run as a whole, each program is the function of
  `OsTransport.Sync` of the same name (`client_run`), so `refines` of `OsTransport.Lib.Monitor` makes
  one sequence of functions out of a run (`published_whole`).

  The lock of the object is `Watched`: whoever completes the request signals before it unlocks
  (`client_alert`), and the waiter looks at `request_completed` before it sleeps.
-/
import OsTransport.Sync
import OsTransport.Lib.Monitor

namespace OsTransport

open Transition Monitor

/-! ## The threads

What a thread can ask of the object, and the sections it then runs. -/

inductive SyncThread (τ : Type)
  /-- The thread in `wait_for_task_complete_common`. -/
  | waiter
  | client (t : τ)
  deriving DecidableEq

/-- Where a thread is between two sections. -/
inductive SyncPoint
  | idle
  /-- It has set `freeing`, and is going to free the object. -/
  | freeing
  /-- At the head of the loop that sleeps, without the mutex. -/
  | waiting
  /-- `pthread_cond_timedwait` is about to return `ETIMEDOUT`. -/
  | timedOut
  /-- The wait on the condition variable is about to return another error. -/
  | failed
  | waited (ret : WaitRet)
  /-- Between the two sections of `sync_request_release`. -/
  | releasing

/-- What a step takes from outside. -/
inductive SyncInput
  | mark (taskSuccess : Bool)
  | addCanceled (canceledTasks : Nat) (timedout : Bool)
  | updateUrmaStatus (urmaStatus : UrmaStatus)
  | complete
  | requestRelease
  | wait
  | deadline
  | error
  | syncRequestRelease
  | syncFreeIfReady

abbrev SyncSection := Prog TaskSync SyncPoint

/-- `if (sync_should_free_locked(sync)) { sync->freeing = 1; should_free = true; }`. -/
def freeSection : SyncSection :=
  .edit id fun s =>
    if s.shouldFree then .edit (fun s => { s with freeing := true }) fun _ => .ret .freeing
    else .ret .idle

/-- `sync->request_completed = 1` and the signal. -/
def completeSection (k : SyncSection) : SyncSection := .edit TaskSync.complete fun _ => .signal k

/-- `if (sync_all_tasks_accounted_locked(sync)) { ... }` and the release check. -/
def accountedSection : SyncSection :=
  .edit id fun s => if s.allTasksAccounted then completeSection freeSection else freeSection

/-- `mark_task_group_completed`. -/
def markSection : Bool → SyncSection
  | true =>
    .edit (fun s => { s with completedTasks := s.completedTasks + 1 }) fun _ => accountedSection
  | false =>
    .edit (fun s => { s with requestCanceled := true }) fun _ => completeSection freeSection

/-- `task_sync_add_canceled_tasks`. -/
def addCanceledSection (canceledTasks : Nat) (timedout : Bool) : SyncSection :=
  .edit (fun s => { s with requestCanceled := true }) fun _ =>
  .edit (fun s => { s with requestTimedout := s.requestTimedout || timedout }) fun _ =>
  .edit (fun s => s.countCanceled canceledTasks) fun _ => accountedSection

/-- `update_urma_status`. -/
def updateUrmaStatusSection (urmaStatus : UrmaStatus) : SyncSection :=
  .edit id fun s =>
    if s.urmaStatus = urmaSuccess then .edit (fun s => { s with urmaStatus }) fun _ => .ret .idle
    else .ret .idle

/-- `sync->release_requested = 1` and the release check. -/
def requestReleaseSection : SyncSection :=
  .edit (fun s => { s with releaseRequested := true }) fun _ => freeSection

/-- The first section of `sync_request_release`; the second is that of `sync_free_if_ready`. -/
def setReleaseSection : SyncSection :=
  .edit (fun s => { s with releaseRequested := true }) fun _ => .ret .releasing

/-- One turn of the loop of `wait_for_task_complete_common`, or what comes after it. -/
def waitSection : SyncSection :=
  .edit id fun s =>
    if s.requestCompleted then .edit id fun s => .ret (.waited s.verdict) else .wait .waiting

/-- A call on the object. -/
def clientNext : SyncInput → Option (Next (fun _ : Unit => TaskSync) SyncPoint)
  | .mark taskSuccess => some (.lock () (markSection taskSuccess))
  | .addCanceled canceledTasks timedout =>
    some (.lock () (addCanceledSection canceledTasks timedout))
  | .updateUrmaStatus urmaStatus =>
    if urmaStatus = urmaSuccess then some (.hop .idle)
    else some (.lock () (updateUrmaStatusSection urmaStatus))
  | .complete => some (.lock () (completeSection (.ret .idle)))
  | .requestRelease => some (.lock () requestReleaseSection)
  | _ => none

/-- The waiter waits, and then goes on like any other thread. -/
def syncNext {τ : Type} : SyncThread τ → SyncPoint → SyncInput →
    Option (Next (fun _ : Unit => TaskSync) SyncPoint)
  | .waiter, .waiting, .wait => some (.lock () waitSection)
  | .waiter, .timedOut, .wait =>
    some (.lock () (.edit TaskSync.setTimedout fun _ => .ret (.waited .timeout)))
  | .waiter, .failed, .wait => some (.lock () (.ret (.waited .error)))
  -- an object without tasks is released and not waited for
  | .waiter, .waiting, .syncRequestRelease => some (.lock () setReleaseSection)
  | .waiter, .releasing, .syncFreeIfReady => some (.lock () freeSection)
  | .waiter, .waited _, a => clientNext a
  | .waiter, .idle, a => clientNext a
  | .client _, .idle, a => clientNext a
  | _, _, _ => none

/-- What a call does next, row by row. -/
inductive ClientRow : SyncInput → Next (fun _ : Unit => TaskSync) SyncPoint → Prop
  | mark (taskSuccess : Bool) : ClientRow (.mark taskSuccess) (.lock () (markSection taskSuccess))
  | addCanceled (canceledTasks : Nat) (timedout : Bool) :
      ClientRow (.addCanceled canceledTasks timedout)
        (.lock () (addCanceledSection canceledTasks timedout))
  | success : ClientRow (.updateUrmaStatus urmaSuccess) (.hop .idle)
  | updateUrmaStatus {urmaStatus : UrmaStatus} : urmaStatus ≠ urmaSuccess →
      ClientRow (.updateUrmaStatus urmaStatus) (.lock () (updateUrmaStatusSection urmaStatus))
  | complete : ClientRow .complete (.lock () (completeSection (.ret .idle)))
  | requestRelease : ClientRow .requestRelease (.lock () requestReleaseSection)

/-- Every section of a client is one of these. -/
theorem clientNext_row {a : SyncInput} {x : Next (fun _ : Unit => TaskSync) SyncPoint}
    (h : clientNext a = some x) : ClientRow a x := by
  cases a with
  | mark taskSuccess => cases h; exact .mark taskSuccess
  | addCanceled n timedout => cases h; exact .addCanceled n timedout
  | updateUrmaStatus urmaStatus =>
    simp only [clientNext] at h
    split at h
    · subst urmaStatus
      cases h
      exact .success
    · cases h
      exact .updateUrmaStatus ‹_›
  | complete => cases h; exact .complete
  | requestRelease => cases h; exact .requestRelease
  | wait | deadline | error | syncRequestRelease | syncFreeIfReady => cases h

/-- Nobody waits while he frees. -/
theorem free_waitless : freeSection.Waitless := by
  intro s
  dsimp only
  split
  · exact fun _ => trivial
  · trivial

/-- Nobody waits while he accounts for a task. -/
theorem accounted_waitless : accountedSection.Waitless := by
  intro s
  dsimp only
  split
  · exact fun _ => free_waitless
  · exact free_waitless

/-- No client waits. -/
theorem clientNext_waitless {a : SyncInput} {prog : SyncSection}
    (h : clientNext a = some (.lock () prog)) : prog.Waitless := by
  cases clientNext_row h with
  | mark taskSuccess =>
    cases taskSuccess with
    | true => exact fun _ => accounted_waitless
    | false => exact fun _ _ => free_waitless
  | addCanceled => exact fun _ _ _ => accounted_waitless
  | updateUrmaStatus =>
    intro s
    dsimp only
    split
    · exact fun _ => trivial
    · trivial
  | complete => exact fun _ => trivial
  | requestRelease => exact fun _ => free_waitless

/-- The code around one object; `timed` is whether the wait has a deadline. -/
def syncCode (τ : Type) (timed : Bool) :
    Code (fun _ : Unit => TaskSync) (SyncThread τ) SyncPoint SyncInput where
  next := syncNext
  server _ := .waiter
  expire
    | .waiting, .deadline => if timed then some .timedOut else none
    | .waiting, .error => some .failed
    | _, _ => none
  waitless := by
    rintro (_ | t) p a ⟨⟩ prog h hne
    · exact absurd rfl hne
    · cases p with
      | idle => exact clientNext_waitless h
      | freeing | waiting | timedOut | failed | waited | releasing => cases h

/-- The waiter is about to wait; nobody else has called anything. -/
def syncStart {τ : Type} : SyncThread τ → SyncPoint
  | .waiter => .waiting
  | .client _ => .idle

/-- All runs around an object of `totalTasks` tasks, access by access. -/
def syncMonitor (τ : Type) [DecidableEq τ] (timed : Bool) (totalTasks : Nat) :=
  Monitor.system (syncCode τ timed) (fun _ => TaskSync.init totalTasks) syncStart

/-- An object with the threads around it. -/
abbrev LockedSync (τ : Type) := State (fun _ : Unit => TaskSync) (SyncThread τ) SyncPoint SyncInput

/-- A run may be evaluated. -/
theorem syncMonitor_exec {τ : Type} [DecidableEq τ] (timed : Bool) (totalTasks : Nat)
    (as : List (Monitor.Action (SyncThread τ) SyncInput)) (P : LockedSync τ → Bool)
    (h : (Transition.exec (fun _ _ => true) (State.step (syncCode τ timed))
      (State.start (fun _ => TaskSync.init totalTasks) syncStart) as).any P = true) :
    ∃ s, (syncMonitor τ timed totalTasks).Reach (fun _ _ => True) s ∧ P s = true :=
  System.Reach.of_exec (· = State.start (fun _ => TaskSync.init totalTasks) syncStart)
    (fun _ _ => true) (fun _ _ _ => trivial) rfl as P h

/-! ## Sections are the functions of `OsTransport.Sync`

A section run as a whole is one function, so the object is always what a sequence of them makes of a
fresh one. -/

/-- What a section does to the object, as one step. -/
inductive SyncOp
  | mark (taskSuccess : Bool)
  | addCanceled (canceledTasks : Nat) (timedout : Bool)
  | updateUrmaStatus (urmaStatus : UrmaStatus)
  | complete
  | requestRelease
  | setTimedout
  | setReleaseRequested
  | freeIfReady

/-- The object after the section, and whether the thread is told to free it. -/
def SyncOp.run : SyncOp → TaskSync → TaskSync × Bool
  | .mark taskSuccess, s => s.markTaskGroupCompleted taskSuccess
  | .addCanceled canceledTasks timedout, s => s.addCanceledTasks canceledTasks timedout
  | .updateUrmaStatus urmaStatus, s => (s.updateUrmaStatus urmaStatus, false)
  | .complete, s => (s.complete, false)
  | .requestRelease, s => s.requestRelease
  | .setTimedout, s => (s.setTimedout, false)
  | .setReleaseRequested, s => ({ s with releaseRequested := true }, false)
  | .freeIfReady, s => s.freeIfReady

/-- A sequence of sections. -/
def SyncOp.runAll (ops : List SyncOp) (s : TaskSync) : TaskSync :=
  ops.foldl (fun s op => (op.run s).1) s

/-- Where a section leaves its thread. -/
def nextPoint (taken : Bool) : SyncPoint := if taken then .freeing else .idle

/-- Who has taken the object goes on to free it, and nobody else does. -/
theorem nextPoint_freeing (taken : Bool) : nextPoint taken = .freeing ↔ taken = true := by
  cases taken <;> simp [nextPoint]

/-- No client has waited. -/
theorem nextPoint_ne_waited (taken : Bool) {ret : WaitRet} : nextPoint taken ≠ .waited ret := by
  cases taken <;> exact nofun

/-- The test for the release, run as a whole. -/
theorem free_run (s : TaskSync) (flag : Bool) :
    freeSection.run flag s = (s.freeIfReady.1, nextPoint s.freeIfReady.2) := by
  simp only [freeSection, Prog.run, TaskSync.freeIfReady, id]
  split <;> rfl

/-- The end of a group, run as a whole. -/
theorem accounted_run (s : TaskSync) (flag : Bool) :
    accountedSection.run flag s =
      (s.completeIfAccounted.freeIfReady.1, nextPoint s.completeIfAccounted.freeIfReady.2) := by
  simp only [accountedSection, Prog.run, TaskSync.completeIfAccounted, id]
  split
  · exact free_run ..
  · exact free_run ..

/-- Every section of a client does what one operation of `TaskSync` does. -/
theorem client_run {a : SyncInput} {prog : SyncSection} (h : clientNext a = some (.lock () prog))
    (s : TaskSync) (flag : Bool) :
    ∃ op : SyncOp, prog.run flag s = ((op.run s).1, nextPoint (op.run s).2) := by
  cases clientNext_row h with
  | mark taskSuccess =>
    refine ⟨.mark taskSuccess, ?_⟩
    cases taskSuccess with
    | true => exact accounted_run ..
    | false => exact free_run ..
  | addCanceled n timedout => exact ⟨.addCanceled n timedout, accounted_run ..⟩
  | @updateUrmaStatus urmaStatus hst =>
    refine ⟨.updateUrmaStatus urmaStatus, ?_⟩
    simp only [updateUrmaStatusSection, Prog.run, SyncOp.run, TaskSync.updateUrmaStatus, id]
    by_cases hs : s.urmaStatus = urmaSuccess
    · rw [if_pos hs, if_pos ⟨hst, hs⟩]
      rfl
    · rw [if_neg hs, if_neg fun hboth => hs hboth.2]
      rfl
  | complete => exact ⟨.complete, rfl⟩
  | requestRelease => exact ⟨.requestRelease, free_run ..⟩

/-- An operation hands the object over once: it was not being freed before. -/
theorem SyncOp.handoff (op : SyncOp) (s : TaskSync) :
    (op.run s).1.freeing = (s.freeing || (op.run s).2) ∧
      ((op.run s).2 = true → s.freeing = false) := by
  cases op with
  | mark taskSuccess =>
    have hh := (TaskSync.mark_spec (Prod.eta (s.markTaskGroupCompleted taskSuccess)).symm).2.1
    exact ⟨hh.freeing_eq, fun ht => (hh.ready ht).1⟩
  | addCanceled n timedout =>
    have hh := (TaskSync.add_spec (Prod.eta (s.addCanceledTasks n timedout)).symm).2.1
    exact ⟨hh.freeing_eq, fun ht => (hh.ready ht).1⟩
  | updateUrmaStatus urmaStatus =>
    obtain ⟨st, heq⟩ := TaskSync.updateUrmaStatus_eq (s := s) urmaStatus
    refine ⟨?_, nofun⟩
    show (s.updateUrmaStatus urmaStatus).freeing = _
    rw [heq, SyncOp.run, Bool.or_false]
  | complete => exact ⟨(Bool.or_false _).symm, nofun⟩
  | requestRelease =>
    have hh := (TaskSync.release_spec (Prod.eta s.requestRelease).symm).2.1
    exact ⟨hh.freeing_eq, fun ht => (hh.ready ht).1⟩
  | setTimedout => exact ⟨(Bool.or_false _).symm, nofun⟩
  | setReleaseRequested => exact ⟨(Bool.or_false _).symm, nofun⟩
  | freeIfReady =>
    have hh := TaskSync.freeIfReady_handoff (Prod.eta s.freeIfReady).symm
    exact ⟨hh.freeing_eq, fun ht => (hh.ready ht).1⟩

/-- What is next, row by row. -/
inductive SyncRow {τ : Type} :
    SyncThread τ → SyncPoint → SyncInput → Next (fun _ : Unit => TaskSync) SyncPoint → Prop
  | client {t p a x} : clientNext a = some x → SyncRow t p a x
  | wait : SyncRow .waiter .waiting .wait (.lock () waitSection)
  | timedOut : SyncRow .waiter .timedOut .wait
      (.lock () (.edit TaskSync.setTimedout fun _ => .ret (.waited .timeout)))
  | failed : SyncRow .waiter .failed .wait (.lock () (.ret (.waited .error)))
  | setRelease : SyncRow .waiter .waiting .syncRequestRelease (.lock () setReleaseSection)
  | freeIfReady : SyncRow .waiter .releasing .syncFreeIfReady (.lock () freeSection)

/-- Every section of a thread is one of these. -/
theorem syncNext_row {τ : Type} {t : SyncThread τ} {p : SyncPoint} {a : SyncInput}
    {x : Next (fun _ : Unit => TaskSync) SyncPoint} (h : syncNext t p a = some x) :
    SyncRow t p a x := by
  unfold syncNext at h
  split at h
  · cases h; exact .wait
  · cases h; exact .timedOut
  · cases h; exact .failed
  · cases h; exact .setRelease
  · cases h; exact .freeIfReady
  · exact .client h
  · exact .client h
  · exact .client h
  · cases h

/-- The only hop is that of an update with `URMA_SUCCESS`. -/
theorem hop_idle {τ : Type} {t : SyncThread τ} {p q : SyncPoint} {a : SyncInput}
    (h : SyncRow t p a (.hop q)) : q = .idle := by
  cases h with
  | client hclient =>
    cases clientNext_row hclient with
    | success => rfl

/-- A wait that gives up has timed out or failed. -/
theorem expire_ends {τ : Type} {timed : Bool} {p q : SyncPoint} {a : SyncInput}
    (h : (syncCode τ timed).expire p a = some q) : q = .timedOut ∨ q = .failed := by
  cases p with
  | waiting =>
    cases a with
    | deadline =>
      cases timed with
      | true => cases h; exact .inl rfl
      | false => cases h
    | error => cases h; exact .inr rfl
    | _ => cases h
  | _ => cases h

/-- What is published of an object of `totalTasks` tasks. -/
structure Published {τ : Type} (totalTasks : Nat)
    (v : Atomic (fun _ : Unit => TaskSync) (SyncThread τ) SyncPoint) : Prop where
  /-- Sections have made it of a fresh object, and a wait that has returned `0` has read what some
      of them had made of it. -/
  made : ∃ ops, v.data () = SyncOp.runAll ops (TaskSync.init totalTasks) ∧
    (v.pc .waiter = .waited .ok → ∃ ops₁ ops₂, ops = ops₁ ++ ops₂ ∧
      (SyncOp.runAll ops₁ (TaskSync.init totalTasks)).requestCompleted = true ∧
      (SyncOp.runAll ops₁ (TaskSync.init totalTasks)).verdict = .ok)
  taken : ∀ t, v.pc t = .freeing → (v.data ()).freeing = true
  one : ∀ t u, v.pc t = .freeing → v.pc u = .freeing → t = u

section Published

variable {τ : Type} [DecidableEq τ] {totalTasks : Nat}
  {v v' : Atomic (fun _ : Unit => TaskSync) (SyncThread τ) SyncPoint}

/-- A section that edits as `op` does, and leaves its thread at `q`. -/
theorem Published.op (h : Published totalTasks v) (t : SyncThread τ) (op : SyncOp) (q : SyncPoint)
    (hq : q = .freeing ↔ (op.run (v.data ())).2 = true)
    (hok : q ≠ .waited .ok) :
    Published totalTasks ⟨Function.update v.data () (op.run (v.data ())).1,
      Function.update v.pc t q⟩ := by
  obtain ⟨⟨ops, hdata, hwait⟩, htaken, hone⟩ := h
  obtain ⟨hfreeing, hfresh⟩ := op.handoff (v.data ())
  have hnobody : q = .freeing → ∀ u, v.pc u ≠ .freeing := fun heq u hu => by
    have := hfresh (hq.mp heq)
    rw [htaken u hu] at this
    cases this
  refine ⟨⟨ops ++ [op], ?_, fun (hw : Function.update v.pc t q .waiter = _) => ?_⟩,
    fun u (hu : Function.update v.pc t q u = _) => ?_,
    fun u u' (hu : Function.update v.pc t q u = _) (hu' : Function.update v.pc t q u' = _) => ?_⟩
  · rw [SyncOp.runAll, List.foldl_append]
    show (op.run (v.data ())).1 = _
    rw [hdata]
    rfl
  · have hold : v.pc .waiter = .waited .ok := by
      by_cases ht : SyncThread.waiter = t
      · subst ht
        rw [Function.update_self] at hw
        exact absurd hw hok
      · rwa [Function.update_of_ne ht] at hw
    obtain ⟨ops₁, ops₂, rfl, hcompleted, hverdict⟩ := hwait hold
    exact ⟨ops₁, ops₂ ++ [op], List.append_assoc .., hcompleted, hverdict⟩
  · show (op.run (v.data ())).1.freeing = true
    rw [hfreeing]
    by_cases hut : u = t
    · subst hut
      rw [Function.update_self] at hu
      rw [hq.mp hu, Bool.or_true]
    · rw [Function.update_of_ne hut] at hu
      rw [htaken u hu, Bool.true_or]
  · by_cases hut : u = t
    · by_cases hut' : u' = t
      · rw [hut, hut']
      · subst hut
        rw [Function.update_self] at hu
        rw [Function.update_of_ne hut'] at hu'
        exact absurd hu' (hnobody hu u')
    · rw [Function.update_of_ne hut] at hu
      by_cases hut' : u' = t
      · subst hut'
        rw [Function.update_self] at hu'
        exact absurd hu (hnobody hu' u)
      · rw [Function.update_of_ne hut'] at hu'
        exact hone u u' hu hu'

/-- A thread goes on to a point from which it frees nothing. -/
theorem Published.move (h : Published totalTasks v) (t : SyncThread τ) (q : SyncPoint)
    (hq : q ≠ .freeing)
    (hok : q = .waited .ok → (v.data ()).requestCompleted = true ∧ (v.data ()).verdict = .ok) :
    Published totalTasks { v with pc := Function.update v.pc t q } := by
  obtain ⟨⟨ops, hdata, hwait⟩, htaken, hone⟩ := h
  have hback : ∀ u, Function.update v.pc t q u = .freeing → v.pc u = .freeing := fun u hu => by
    by_cases hut : u = t
    · subst hut
      rw [Function.update_self] at hu
      exact absurd hu hq
    · rwa [Function.update_of_ne hut] at hu
  refine ⟨⟨ops, hdata, fun hw => ?_⟩, fun u hu => htaken u (hback u hu),
    fun u u' hu hu' => hone u u' (hback u hu) (hback u' hu')⟩
  by_cases ht : SyncThread.waiter = t
  · subst ht
    simp only [Function.update_self] at hw
    obtain ⟨hcompleted, hverdict⟩ := hok hw
    rw [hdata] at hcompleted hverdict
    exact ⟨ops, [], (List.append_nil ops).symm, hcompleted, hverdict⟩
  · simp only [Function.update_of_ne ht] at hw
    exact hwait hw

/-- A section that edits nothing. -/
theorem Published.read (h : Published totalTasks v) (t : SyncThread τ) (q : SyncPoint)
    (hq : q ≠ .freeing)
    (hok : q = .waited .ok → (v.data ()).requestCompleted = true ∧ (v.data ()).verdict = .ok) :
    Published totalTasks ⟨Function.update v.data () (v.data ()), Function.update v.pc t q⟩ := by
  rw [Function.update_eq_self]
  exact h.move t q hq hok

/-- A section publishes what one operation makes of the state. -/
theorem published_whole (h : Published totalTasks v) {t : SyncThread τ} {p : SyncPoint}
    {a : SyncInput} {prog : SyncSection} (hrow : SyncRow t p a (.lock () prog)) :
    Published totalTasks ⟨Function.update v.data () (prog.run false (v.data ())).1,
      Function.update v.pc t (prog.run false (v.data ())).2⟩ := by
  cases hrow with
  | client hclient =>
    obtain ⟨op, hrun⟩ := client_run hclient (v.data ()) false
    rw [hrun]
    exact h.op t op _ (nextPoint_freeing _) (nextPoint_ne_waited _)
  | wait =>
    -- the verdict is that of the whole object the waiter finds
    have hrun : waitSection.run false (v.data ()) =
        (v.data (),
          if (v.data ()).requestCompleted then .waited (v.data ()).verdict else .waiting) := by
      simp only [waitSection, Prog.run, id]
      split <;> rfl
    rw [hrun]
    by_cases hcompleted : (v.data ()).requestCompleted = true
    · rw [if_pos hcompleted]
      exact h.read .waiter _ nofun fun hw => ⟨hcompleted, SyncPoint.waited.inj hw⟩
    · rw [if_neg hcompleted]
      exact h.read .waiter _ nofun nofun
  | timedOut => exact h.op .waiter .setTimedout (.waited .timeout) ⟨nofun, nofun⟩ nofun
  | failed => exact h.read .waiter _ nofun nofun
  | setRelease => exact h.op .waiter .setReleaseRequested .releasing ⟨nofun, nofun⟩ nofun
  | freeIfReady =>
    rw [free_run]
    exact h.op .waiter .freeIfReady _ (nextPoint_freeing _) (nextPoint_ne_waited _)

/-- One step keeps what is published right. -/
theorem published_step {timed : Bool} (h : Published totalTasks v)
    {b : AtomicAction (SyncThread τ) SyncInput} (hs : v.step (syncCode τ timed) b = some v') :
    Published totalTasks v' := by
  cases atomic_stepped hs with
  | hop hnext =>
    obtain rfl := hop_idle (syncNext_row hnext)
    exact h.move _ .idle nofun nofun
  | whole hnext => exact published_whole h (syncNext_row hnext)
  | expire hq =>
    rcases expire_ends hq with rfl | rfl
    · exact h.move _ .timedOut nofun nofun
    · exact h.move _ .failed nofun nofun

variable {timed : Bool} {s : LockedSync τ}
  {ok : LockedSync τ → Monitor.Action (SyncThread τ) SyncInput → Prop}

/-- Nobody raises the flag: there is none. -/
theorem flag_down (h : (syncMonitor τ timed totalTasks).Reach ok s) : s.flag = false := by
  refine h.invariant (I := fun s => s.flag = false) ?_ ?_
  · rintro s rfl
    rfl
  · intro s b s' _ hf _ hs
    have hstep : s.step (syncCode τ timed) b = some s' := hs
    cases stepped hstep with
    | raise _ hnext =>
      cases syncNext_row hnext with
      | client hclient => cases clientNext_row hclient
    | _ => exact hf

/-- Between sections, the object is what a sequence of whole sections has made of a fresh one; a
    wait has returned `0` only if it has read a whole state of that sequence that is completed, with
    every task done and nothing cancelled or timed out; and no two threads are told to free the
    object. -/
theorem sync_published (h : (syncMonitor τ timed totalTasks).Reach ok s) :
    Published totalTasks s.view := by
  have hall : (syncMonitor τ timed totalTasks).Reach
      (fun s b => ∀ c, s.commits (syncCode τ timed) b = some c → True) s :=
    h.mono fun _ _ _ _ _ => trivial
  have hatomic := refines (g := fun _ _ => True) hall (flag_down h)
  refine hatomic.invariant ?_ ?_
  · rintro v rfl
    refine ⟨⟨[], rfl, nofun⟩, ?_, ?_⟩
    · rintro (_ | t) ht <;> cases ht
    · rintro (_ | t) u ht <;> cases ht
  · intro v b v' _ hI _ hs
    exact published_step hI hs

/-- The only task of a request is done while the waiter sleeps, up to the completion. -/
def completedRun : List (Monitor.Action (SyncThread Nat) SyncInput) :=
  [.go .waiter .wait, .act .waiter, .act .waiter,
    .go (.client 0) (.mark true), .act (.client 0), .act (.client 0), .act (.client 0)]

/-- The signal, the unlock, and the rest of the wait. -/
def wokenRun : List (Monitor.Action (SyncThread Nat) SyncInput) :=
  [.act (.client 0), .act (.client 0), .act (.client 0),
    .go .waiter .wait, .act .waiter, .act .waiter, .act .waiter]

def waitedOk (s : LockedSync Nat) : Bool :=
  match s.thread .waiter with
  | .free (.waited .ok) => true
  | _ => false

/-- A waiter that sees the only task complete, and what its object then is. -/
theorem sync_published_ok : ∃ s : LockedSync Nat, s.thread .waiter = .free (.waited .ok) ∧
    Published 1 s.view := by
  obtain ⟨s, hr, hs⟩ := syncMonitor_exec false 1 (completedRun ++ wokenRun) waitedOk
    (by decide +kernel)
  refine ⟨s, ?_, sync_published hr⟩
  unfold waitedOk at hs
  split at hs
  · assumption
  · cases hs

/-! ## The waiter wakes

Completing a request and signalling are in one section, so no signal is lost. -/

/-- The test for the release completes nothing. -/
theorem free_alert : freeSection.Alert TaskSync.requestCompleted := by
  refine .quiet (fun _ => rfl) fun s => ?_
  split
  · exact .quiet (fun _ => rfl) fun _ => trivial
  · trivial

/-- Who completes the request signals before he leaves. -/
theorem complete_alert {k : SyncSection} (hk : k.Alert TaskSync.requestCompleted) :
    (completeSection k).Alert TaskSync.requestCompleted :=
  fun _ => ⟨fun _ _ => trivial, hk⟩

/-- So does who accounts for the last task. -/
theorem accounted_alert : accountedSection.Alert TaskSync.requestCompleted := by
  refine .quiet (fun _ => rfl) fun s => ?_
  split
  · exact complete_alert free_alert
  · exact free_alert

/-- So does every client. -/
theorem client_alert {a : SyncInput} {prog : SyncSection}
    (h : clientNext a = some (.lock () prog)) : prog.Alert TaskSync.requestCompleted := by
  cases clientNext_row h with
  | mark taskSuccess =>
    cases taskSuccess with
    | true => exact .quiet (fun _ => rfl) fun _ => accounted_alert
    | false => exact .quiet (fun _ => rfl) fun _ => complete_alert free_alert
  | addCanceled =>
    refine .quiet (fun _ => rfl) fun _ => .quiet (fun _ => rfl) fun _ =>
      .quiet (fun s => ?_) fun _ => accounted_alert
    rw [TaskSync.countCanceled_eq]
  | updateUrmaStatus =>
    refine .quiet (fun _ => rfl) fun s => ?_
    split
    · exact .quiet (fun _ => rfl) fun _ => trivial
    · trivial
  | complete => exact complete_alert trivial
  | requestRelease => exact .quiet (fun _ => rfl) fun _ => free_alert

omit [DecidableEq τ] in
/-- Whoever completes the request signals. -/
theorem waiter_watched : Watched (syncCode τ timed) () TaskSync.requestCompleted where
  alert := by
    intro t p a prog h hne
    cases syncNext_row h with
    | client hclient => exact client_alert hclient
    | wait => exact absurd rfl hne
    | timedOut => exact absurd rfl hne
    | failed => exact absurd rfl hne
    | setRelease => exact absurd rfl hne
    | freeIfReady => exact absurd rfl hne
  careful := by
    intro p a prog h s
    cases syncNext_row h with
    | client hclient => exact (clientNext_waitless hclient).careful s
    | wait =>
      simp only [waitSection, Prog.Careful, id]
      split
      · trivial
      · rename_i hcompleted
        exact Bool.eq_false_iff.mpr hcompleted
    | timedOut => trivial
    | failed => trivial
    | setRelease => trivial
    | freeIfReady => exact free_waitless.careful s

/-- The waiter never sleeps over a completed request, unless the thread that has completed it still
    holds the mutex and is about to signal; and it wakes as that thread goes on to the unlock. -/
theorem waiter_awake (h : (syncMonitor τ timed totalTasks).Reach ok s) {p : SyncPoint}
    (hp : s.thread .waiter = .asleep () p) (hcompleted : (s.data ()).requestCompleted = true) :
    ∃ t, t ≠ .waiter ∧ (s.thread t).Signaling () s.data ∧
      ∃ s', ByActs (syncCode τ timed) t s s' ∧ s'.holder () = none ∧ s'.thread .waiter = .free p :=
  wakes waiter_watched h hp hcompleted

def sleepsCompleted (s : LockedSync Nat) : Bool :=
  match s.thread .waiter with
  | .asleep () .waiting => (s.data ()).requestCompleted
  | _ => false

/-- A waiter asleep over a completed request, and the signal that wakes him. -/
theorem waiter_awake_completed : ∃ (s s' : LockedSync Nat) (t : SyncThread Nat),
    s.thread .waiter = .asleep () .waiting ∧ t ≠ .waiter ∧ (s.thread t).Signaling () s.data ∧
    ByActs (syncCode Nat false) t s s' ∧ s'.thread .waiter = .free .waiting := by
  obtain ⟨s, hr, hs⟩ := syncMonitor_exec false 1 completedRun sleepsCompleted (by decide +kernel)
  unfold sleepsCompleted at hs
  split at hs
  · rename_i hasleep
    obtain ⟨t, ht, hsig, s', hby, -, hfree⟩ := waiter_awake hr hasleep hs
    exact ⟨s, s', t, hasleep, ht, hsig, hby, hfree⟩
  · cases hs

end Published

end OsTransport
