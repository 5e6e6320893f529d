/-
  The status a wait reports.

  A send task records its URMA status in one locked section and marks itself completed in
  another; the waiter looks at the object in several sections of its own and reads the status in the
  last.  In between tasks may end, fail and overwrite nothing: `update_urma_status` keeps the
  first status that is no success.

  `WaitStory` is the transport with three things written down about each request: the
  statuses its tasks recorded, why its wait loop was left, and what had been recorded when the wait
  took its last look.  `first_failure` says how these determine the pair a wait returns.  One
  invariant per mechanism:

  * `Recorded`    — the object holds the first failure, and no task is marked failed before its
    failure is recorded;
  * `InTurn`      — statuses are recorded in the order in which the tasks were started;
  * `Accountable` — a request is completed by a failed task, by its last task or by the caller;
  * `Explained`   — a wait that fails is on the way to report a failure.

  How they are put together:

  1. `Recorded` and `InTurn` are about the tasks.  The tasks of a send run one at a time
     (`underway_unique`), so the order of the records is the order of the starts (`turn_of_move` is
     the step lemma);
  2. `WaitStep` says what each step of the owner does to the pair it is going to return, by the
     place of the owner in the wait (`wait_of_move`);
  3. `Accountable` is about the flag `request_completed`: `mark_completes` says which success sets it,
     and `Accountable.failed` that a waiter who finds it set and no success has a failed task to
     report, unless the caller has returned an error;
  4. `Explained.step` joins 1 to 3: a wait that is going to return a failure has left the loop for
     one of the reasons of `WaitEnd`, and that reason stays true (`WaitStory.Later.stays`).  The
     three ways to go on from a state are lemmas of their own (`Explained.of_completed`,
     `Explained.goesOn`, `Explained.looks`).

  `first_failure` reads off the snapshot: the status returned is the first failure among the
  records that were there at the last look, and if there is one the other half of the pair is not 0.
-/
import OsTransport.Timeout
import OsTransport.Solo
import OsTransport.Release
import OsTransport.Isolation
import OsTransport.Line

namespace OsTransport

open Transition

/-! ## The first failure

Of a list of statuses, in the order they were recorded. -/

/-- The first status that is no success.  With no failure among them it is a success. -/
def firstFailure (recorded : List (Nat × UrmaStatus)) : UrmaStatus :=
  ((recorded.map Prod.snd).find? (· ≠ urmaSuccess)).getD urmaSuccess

/-- One status recorded is the first failure, if it is one. -/
theorem firstFailure_single (i : Nat) (st : UrmaStatus) : firstFailure [(i, st)] = st := by
  by_cases hst : st = urmaSuccess
  · subst hst
    rfl
  · simp [firstFailure, hst]

theorem firstFailure_append (l m : List (Nat × UrmaStatus)) :
    firstFailure (l ++ m) = if firstFailure l = urmaSuccess then firstFailure m else firstFailure l := by
  induction l with
  | nil => rfl
  | cons x l ih =>
    obtain ⟨i, st⟩ := x
    by_cases hst : st = urmaSuccess
    · have hcons : ∀ l, firstFailure ((i, st) :: l) = firstFailure l := by
        intro l
        simp [firstFailure, hst]
      rw [List.cons_append, hcons, hcons, ih]
    · have hcons : ∀ l, firstFailure ((i, st) :: l) = st := by
        intro l
        simp [firstFailure, hst]
      rw [List.cons_append, hcons, hcons, if_neg hst]

/-- It is a success iff all are. -/
theorem firstFailure_eq_success {recorded : List (Nat × UrmaStatus)} :
    firstFailure recorded = urmaSuccess ↔ ∀ x ∈ recorded, x.2 = urmaSuccess := by
  induction recorded with
  | nil => simp [firstFailure]
  | cons x l ih =>
    rw [← List.singleton_append, firstFailure_append, firstFailure_single, List.singleton_append,
      List.forall_mem_cons, ← ih]
    split
    · rename_i hx
      simp [hx]
    · rename_i hx
      simp [hx]

/-- A failure stays what it is, whatever is recorded later. -/
theorem firstFailure_stays {l : List (Nat × UrmaStatus)} (h : firstFailure l ≠ urmaSuccess)
    (m : List (Nat × UrmaStatus)) : firstFailure (l ++ m) ≠ urmaSuccess := by
  rw [firstFailure_append, if_neg h]
  exact h

/-! ## Stories of waits

The history variables of a wait, and what each step adds to them. -/

/-- Why the loop of `wait_for_task_complete_common` was left.  The number in `completed` is that of
    the tasks that had failed when the flag was seen. -/
inductive WaitEnd
  /-- `request_completed` was set, and so many tasks had been marked as failed. -/
  | completed (failed : Nat)
  | timedout
  | condError
  deriving DecidableEq

namespace Transport

/-- The status a task of `q` records.  It does so in `update_urma_status`, between its posts and its
    mark. -/
def recordedBy (s : Transport) (q : Nat) : Action → List (Nat × UrmaStatus)
  | .worker w _ =>
    match (s.pool.workers w).exec, s.body w with
    | .running t _ _, .status st => if t.ptr.sync = q then [(t.ptr.index, st)] else []
    | _, _ => []
  | _ => []

/-- The step that leaves the wait loop of `q`.  Woken without the flag the wait goes back to sleep;
    a timeout and an error of the condition variable leave without a look at it. -/
def endedBy (s : Transport) (q : Nat) : Action → Option WaitEnd
  | .owner q' cond =>
    if q' ≠ q then none
    else
      let completed := if (s.reqs q).sync.requestCompleted then some (.completed (s.view q).failed) else none
      match (s.reqs q).owner, cond with
      | .entering _, _ => if (s.reqs q).bound then completed else none
      | .blocked _, .woken => completed
      | .blocked _, .etimedout => some .timedout
      | .blocked _, .error => some .condError
      | _, _ => none
  | _ => none

/-- The last locked section of the wait on `q`: it reads the status. -/
def looksLast (s : Transport) (q : Nat) : Action → Bool
  | .owner q' _ =>
    match (s.reqs q).owner with
    | .releasing _ => q' == q
    | _ => false
  | _ => false

end Transport

/-- The transport, the statuses recorded by the tasks of each request, why its wait loop was left
    and what had been recorded at the last look of the wait.  No step reads the last three. -/
structure WaitStory where
  sys : Transport
  recorded : Nat → List (Nat × UrmaStatus)
  ended : Nat → Option WaitEnd
  snapshot : Nat → Option (List (Nat × UrmaStatus))

def WaitStory.start (workerCount : Nat) (capacity : BitVec 32) : WaitStory :=
  ⟨.start workerCount capacity, fun _ => [], fun _ => none, fun _ => none⟩

def WaitStory.step (c : WaitStory) (a : Action) : Option WaitStory :=
  (c.sys.step a).map fun sys =>
    { sys
      recorded := fun q => c.recorded q ++ c.sys.recordedBy q a
      ended := fun q => (c.sys.endedBy q a).or (c.ended q)
      snapshot := fun q => if c.sys.looksLast q a then some (c.recorded q) else c.snapshot q }

/-- All runs of the transport, with their stories. -/
def waitSystem (workerCount : Nat) (capacity : BitVec 32) : System WaitStory Action :=
  .ofFun (· = WaitStory.start workerCount capacity) WaitStory.step

/-- The tasks of `q` that workers started, oldest first. -/
def startedOf (q : Nat) (log : List (PoolEvent Proc ArgPtr)) : List Nat :=
  log.filterMap fun
    | .taken _ task _ => if task.ptr.sync = q then some task.ptr.index else none
    | _ => none

section Story

variable {c c' : WaitStory} {a : Action} {q : Nat} {workerCount : Nat} {capacity : BitVec 32}
  {ok : WaitStory → Action → Prop}

/-- What a step adds to the story of the wait on `q`.  A reason once noted is replaced only by a
    later one. -/
theorem WaitStory.step_eq (h : c.step a = some c') :
    c.sys.step a = some c'.sys ∧ c'.recorded q = c.recorded q ++ c.sys.recordedBy q a ∧
      c'.ended q = (c.sys.endedBy q a).or (c.ended q) ∧
      c'.snapshot q = if c.sys.looksLast q a then some (c.recorded q) else c.snapshot q := by
  obtain ⟨sys, hs, rfl⟩ := Option.map_eq_some_iff.mp h
  exact ⟨hs, rfl, rfl, rfl⟩

/-- A story is that of a run of the transport. -/
theorem sys_reach_of {okSys : Transport → Action → Prop} (hok : ∀ c a, ok c a → okSys c.sys a)
    (h : (waitSystem workerCount capacity).Reach ok c) :
    (transportSystem workerCount capacity).Reach okSys c.sys := by
  refine h.invariant (I := fun c => (transportSystem workerCount capacity).Reach okSys c.sys) ?_ ?_
  · rintro c rfl
    exact .init rfl
  · rintro c a c' - hI ha hs
    exact .step hI (hok c a ha) (WaitStory.step_eq (q := 0) hs).1

/-- The story of a run of the transport is about that run. -/
theorem sys_reach (h : (waitSystem workerCount capacity).Reach ok c) :
    (transportSystem workerCount capacity).Reach (fun _ _ => True) c.sys :=
  sys_reach_of (fun _ _ _ => trivial) h

end Story

/-! ## What the object holds

The status in the object is the first failure of what was recorded. -/

/-- All tasks of `q` are send tasks.  Receive tasks record no status. -/
def Transport.Sends (s : Transport) (q : Nat) : Prop :=
  (s.reqs q).prep.tasks ≠ [] → ∀ (i : Nat) arg, (s.reqs q).prep.args[i]? = some arg → ∃ a, arg = .send a

/-- The status in the object after these statuses were recorded.  A failure that is there already
    stays. -/
def statusAfter (old : UrmaStatus) (recorded : List (Nat × UrmaStatus)) : UrmaStatus :=
  if old = urmaSuccess then firstFailure recorded else old

theorem statusAfter_nil (old : UrmaStatus) : statusAfter old [] = old := by
  unfold statusAfter
  split
  · rename_i hold
    exact hold.symm
  · rfl

/-- `update_urma_status` keeps the first failure. -/
theorem updateUrmaStatus_urmaStatus (s : TaskSync) (i : Nat) (st : UrmaStatus) :
    (s.updateUrmaStatus st).urmaStatus = statusAfter s.urmaStatus [(i, st)] := by
  rw [statusAfter, firstFailure_single]
  unfold TaskSync.updateUrmaStatus
  by_cases hold : s.urmaStatus = urmaSuccess
  · rw [if_pos hold]
    by_cases hst : st = urmaSuccess
    · rw [if_neg (by simp [hst]), hold, hst]
    · rw [if_pos ⟨hst, hold⟩]
  · rw [if_neg (by simp [hold]), if_neg hold]

section Status

variable {s s' : Transport} {q : Nat} {a : Action}

theorem recordedBy_of_ne (ha : ∀ w ret, a ≠ .worker w ret) : s.recordedBy q a = [] := by
  cases a with
  | worker w ret => exact absurd rfl (ha w ret)
  | _ => rfl

/-- A worker records a status only in `update_urma_status`. -/
theorem recordedBy_worker {w : Nat} {ret : Int} (hbody : ∀ st, s.body w ≠ .status st) :
    s.recordedBy q (.worker w ret) = [] := by
  simp only [Transport.recordedBy]
  split
  · rename_i hst
    exact absurd hst (hbody _)
  · rfl

/-- The step between the post and the mark records the status of that post. -/
theorem recordedBy_status {w : Nat} (ret : Int) {t : TaskNode ArgPtr} {r : ReqId} {u : BitVec 64}
    {st : UrmaStatus} (hexec : (s.pool.workers w).exec = .running t r u) (hbody : s.body w = .status st) :
    s.recordedBy q (.worker w ret) = if t.ptr.sync = q then [(t.ptr.index, st)] else [] := by
  simp only [Transport.recordedBy, hexec, hbody]

/-- The object of a request is initialised when the request is made; from then on its status is
    changed by what its tasks record. -/
theorem Move.status_eq (hm : Move s a s') (q : Nat) :
    (s.reqs q).caller = .fresh ∧ (s'.reqs q).sync.urmaStatus = urmaSuccess ∨
      (s'.reqs q).sync.urmaStatus = statusAfter (s.reqs q).sync.urmaStatus (s.recordedBy q a) := by
  cases hm.statusMove q with
  | same hsame hno =>
    have hnil : s.recordedBy q a = [] := by
      unfold Transport.recordedBy
      split
      · split
        · rename_i hexec hbody
          exact if_neg (hno _ _ _ _ _ _ rfl hexec hbody)
        · rfl
      · rfl
    right
    rw [hnil, statusAfter_nil, hsame]
  | made hc h => exact .inl ⟨hc, h⟩
  | @recorded w ret t r u st ha hexec hbody hq _ _ hset =>
    right
    rw [ha, recordedBy_status ret hexec hbody, if_pos hq, hset]
    exact updateUrmaStatus_urmaStatus _ _ _

/-- A failing mark is made by a worker that has a failure in hand.  No other step adds to the failed
    marks of the request. -/
theorem failing_mark (hs : s.step a = some s') (hgrow : (s'.view q).failed ≠ (s.view q).failed) :
    ∃ w ret t r u st, a = .worker w ret ∧ (s.pool.workers w).exec = .running t r u ∧
      t.ptr.sync = q ∧ s.body w = .mark st ∧ st ≠ urmaSuccess := by
  by_contra hno
  refine hgrow (failedTasks_move (Transport.move_of_step hs) ?_)
  cases a with
  | worker w ret =>
    intro t r u st hexec hq hbody
    by_contra hst
    exact hno ⟨w, ret, t, r, u, st, rfl, hexec, hq, hbody, hst⟩
  | _ => trivial

/-- A worker of a send has its return value from the status it recorded.  So a task that is marked
    failed has recorded a failure before. -/
theorem mark_of_status {w : Nat} {t : TaskNode ArgPtr} {r : ReqId} {u : BitVec 64} {st : Int}
    (hm : Move s a s') (hn : Nodes s) (hsends : s.Sends t.ptr.sync)
    (hexec : (s'.pool.workers w).exec = .running t r u) (hbody : s'.body w = .mark st) :
    ((s.pool.workers w).exec = .running t r u ∧ s.body w = .mark st) ∨
      s.recordedBy t.ptr.sync a = [(t.ptr.index, st)] := by
  by_cases ha : ∀ w ret, a ≠ .worker w ret
  · obtain ⟨hsame, hbody', -⟩ := hm.other ha
    exact .inl ⟨by rw [← hsame, hexec], by rw [← hbody', hbody]⟩
  obtain ⟨w', ret, rfl⟩ : ∃ w' ret, a = .worker w' ret := by
    simpa only [not_forall, not_not] using ha
  by_cases hw : w = w'
  · subst hw
    have hself : ∀ {f : Nat → Body} {b : Body}, Function.update f w b w = b := Function.update_self ..
    cases hm with
    | refuse hcall | submit hcall => cases hcall
    | pop _ hpool =>
      have hstart : Body.start = .mark st := hself.symm.trans hbody
      cases hstart
    | @notify _ _ _ _ _ arg _ ret' _ _ _ hpost =>
      have hnext : (if ret' ≠ urmaSuccess ∨ arg.chunkInfo = none then Body.status ret' else .write)
          = .mark st := hself.symm.trans hbody
      split at hnext <;> cases hnext
    | write _ _ _ hpost =>
      have hnext : Body.status _ = .mark st := hself.symm.trans hbody
      cases hnext
    | @callback _ _ _ _ _ arg cb hexec' _ harg =>
      have heq : (s.pool.workers w).exec = .running t r u := hexec
      rw [hexec'] at heq
      cases heq
      obtain ⟨x, hx⟩ := hsends (hn.running w t r u hexec').1.made _ _ harg
      cases hx
    | @noCallback _ _ _ _ _ arg hexec' _ harg =>
      have heq : (s.pool.workers w).exec = .running t r u := hexec
      rw [hexec'] at heq
      cases heq
      obtain ⟨x, hx⟩ := hsends (hn.running w t r u hexec').1.made _ _ harg
      cases hx
    | @status _ _ _ _ _ st' hexec' hbody' =>
      have heq : (s.pool.workers w).exec = .running t r u := hexec
      have hst : Body.mark st' = .mark st := hself.symm.trans hbody
      cases hst
      right
      rw [recordedBy_status _ heq hbody', if_pos rfl]
    | @mark _ _ _ _ _ taskRet _ shouldFree hexec' hbody' hsync =>
      have hnext : (if shouldFree then Body.free taskRet else .finish taskRet) = .mark st :=
        hself.symm.trans hbody
      split at hnext <;> cases hnext
    | workerFree hexec' hbody' =>
      have hnext : Body.finish _ = .mark st := hself.symm.trans hbody
      cases hnext
    | finish hexec' hbody' hpool =>
      have hbody : s.body w = .mark st := hbody
      rw [hbody'] at hbody
      cases hbody
    | account hexec' hpool =>
      exfalso
      rcases PoolSys.exec_effect hpool hexec with hold | ⟨hpop, -⟩
      · rw [hexec'] at hold
        cases hold
      · cases hpop
  · obtain ⟨hsame, hbody'⟩ := hm.elsewhere hw
    exact .inl ⟨by rw [← hsame, hexec], by rw [← hbody', hbody]⟩

/-- A request that sends has always been one, from its call on. -/
theorem Transport.Sends.back {workerCount : Nat} {capacity : BitVec 32} {ok : Transport → Action → Prop}
    (hr : (transportSystem workerCount capacity).Reach ok s) (hs : s.step a = some s')
    (h : s'.Sends q) : s.Sends q := by
  intro hmade
  have hprep := keepsMade_step hr hs q hmade
  unfold Transport.Sends at h
  rw [hprep] at h
  exact h hmade

end Status

/-- The object of `q` holds the first failure recorded, and the failure of a task is recorded before
    the task is marked. -/
structure Recorded (q : Nat) (c : WaitStory) : Prop where
  status : (c.sys.reqs q).sync.urmaStatus = firstFailure (c.recorded q)
  made : c.recorded q ≠ [] → (c.sys.reqs q).prep.tasks ≠ []
  inHand : ∀ w t r u st, (c.sys.pool.workers w).exec = .running t r u → t.ptr.sync = q →
    c.sys.body w = .mark st → st ≠ urmaSuccess → firstFailure (c.recorded q) ≠ urmaSuccess
  failed : 0 < (c.sys.view q).failed → firstFailure (c.recorded q) ≠ urmaSuccess

section Recorded

variable {c c' : WaitStory} {a : Action} {q : Nat} {workerCount : Nat} {capacity : BitVec 32}
  {ok : WaitStory → Action → Prop}

/-- Only a task of a request that was made records a status.  The tasks in the hands of workers come
    from the calls. -/
theorem made_of_recordedBy {s : Transport} (hn : Nodes s) (h : s.recordedBy q a ≠ []) :
    (s.reqs q).prep.tasks ≠ [] := by
  cases a with
  | worker w ret =>
    simp only [Transport.recordedBy] at h
    split at h
    · rename_i t r u st hexec hbody
      split at h
      · rename_i hq
        rw [← hq]
        exact (hn.running w t r u hexec).1.made
      · exact absurd rfl h
    · exact absurd rfl h
  | _ => exact absurd rfl h

/-- Every step records what it finds, and marks a failure only after recording it.  The two are
    locked sections of their own, with a failure in the worker's hand in between (`inHand`). -/
theorem Recorded.step (h : Recorded q c) (hr : (waitSystem workerCount capacity).Reach ok c)
    (hsends : c.sys.Sends q) (hs : c.step a = some c') : Recorded q c' := by
  obtain ⟨hsys, hrec, -, -⟩ := WaitStory.step_eq (q := q) hs
  have hreach := sys_reach hr
  have hn := nodes_reach hreach
  have hm := Transport.move_of_step hsys
  have hstays : firstFailure (c.recorded q) ≠ urmaSuccess → firstFailure (c'.recorded q) ≠ urmaSuccess := by
    intro hst
    rw [hrec]
    exact firstFailure_stays hst _
  have hmade : c'.recorded q ≠ [] → (c.sys.reqs q).prep.tasks ≠ [] := by
    intro hne
    by_cases hold : c.recorded q = []
    · rw [hrec, hold, List.nil_append] at hne
      exact made_of_recordedBy hn hne
    · exact h.made hold
  refine ⟨?_, ?_, ?_, ?_⟩
  · rcases hm.status_eq q with ⟨hfresh, hst⟩ | hst
    · have hnil : c'.recorded q = [] := by
        by_contra hne
        exact hmade hne (hn.fresh q hfresh)
      rw [hst, hnil]
      rfl
    · rw [hst, h.status, hrec, firstFailure_append]
      rfl
  · intro hne
    rw [keepsMade_step hreach hsys q (hmade hne)]
    exact hmade hne
  · intro w t r u st hexec hq hbody hst
    subst hq
    rcases mark_of_status hm hn hsends hexec hbody with ⟨hexec', hbody'⟩ | hnew
    · exact hstays (h.inHand w t r u st hexec' rfl hbody' hst)
    · rw [hrec, hnew, firstFailure_append, firstFailure_single]
      split
      · exact hst
      · assumption
  · intro hpos
    by_cases hsame : (c'.sys.view q).failed = (c.sys.view q).failed
    · exact hstays (h.failed (by omega))
    · obtain ⟨w, ret, t, r, u, st, rfl, hexec, hq, hbody, hst⟩ := failing_mark hsys hsame
      exact hstays (h.inHand w t r u st hexec hq hbody hst)

/-- In every run the status of the shared object is the first failure recorded. -/
theorem recorded_reach (h : (waitSystem workerCount capacity).Reach ok c) (hsends : c.sys.Sends q) :
    Recorded q c := by
  refine h.invariant (I := fun c => c.sys.Sends q → Recorded q c) ?_ ?_ hsends
  · rintro c rfl -
    refine ⟨rfl, fun hne => absurd rfl hne, ?_, fun hpos => absurd hpos (Nat.lt_irrefl 0)⟩
    intro w t r u st hexec
    cases hexec
  · intro c a c' hr hI _ hs hsends
    have hback := hsends.back (sys_reach hr) (WaitStory.step_eq (q := q) hs).1
    exact (hI hback).step hr hback hs

end Recorded

/-! ## The order of execution

At most one task of a send is under way, and it records before the next one starts. -/

/-- The task function has not recorded its status yet. -/
def Body.unrecorded : Body → Bool
  | .start => true
  | .write => true
  | .status _ => true
  | _ => false

/-- Worker `w` executes task `i` of `q`, whose status is not recorded. -/
def Transport.Underway (s : Transport) (q w i : Nat) : Prop :=
  ∃ t r u, (s.pool.workers w).exec = .running t r u ∧ t.ptr = ⟨q, i⟩ ∧ (s.body w).unrecorded = true

/-- What a step does to the tasks of `q` that are under way.  Nothing, or one starts, or one records
    its status and is under way no more. -/
inductive TurnStep (q : Nat) (s : Transport) (a : Action) (s' : Transport) : Prop
  | same (h : ∀ w i, s'.Underway q w i ↔ s.Underway q w i)
      (hlog : startedOf q s'.pool.log = startedOf q s.pool.log) (hrec : s.recordedBy q a = [])
  | start {w i} (h : s'.Underway q w i) (hloop : (s.pool.workers w).exec = .loop)
      (hother : ∀ w', w' ≠ w → ∀ i, s'.Underway q w' i ↔ s.Underway q w' i)
      (hlog : startedOf q s'.pool.log = startedOf q s.pool.log ++ [i]) (hrec : s.recordedBy q a = [])
  | record {w i st} (h : s.Underway q w i) (hno : ∀ i, ¬ s'.Underway q w i)
      (hother : ∀ w', w' ≠ w → ∀ i, s'.Underway q w' i ↔ s.Underway q w' i)
      (hlog : startedOf q s'.pool.log = startedOf q s.pool.log) (hrec : s.recordedBy q a = [(i, st)])

section Turn

variable {s s' : Transport} {q : Nat} {a : Action}

theorem startedOf_append (l m : List (PoolEvent Proc ArgPtr)) :
    startedOf q (l ++ m) = startedOf q l ++ startedOf q m := List.filterMap_append ..

theorem startedOf_nil {events : List (PoolEvent Proc ArgPtr)}
    (h : ∀ e ∈ events, ∀ w t u, e ≠ .taken w t u) : startedOf q events = [] := by
  refine List.filterMap_eq_nil_iff.mpr fun e he => ?_
  cases e with
  | taken w t u => exact absurd rfl (h _ he w t u)
  | _ => rfl

/-- Tasks are started by the worker loop only.  No other step writes `taken` to the history. -/
theorem startedOf_step {pool pool' : PoolSys Proc ArgPtr} {pa : PoolAction Proc ArgPtr}
    (h : pool.step pa = some pool') (hpa : ∀ w, pa ≠ .pop w) :
    startedOf q pool'.log = startedOf q pool.log := by
  have happend : ∀ events : List (PoolEvent Proc ArgPtr), (∀ e ∈ events, ∀ w t u, e ≠ .taken w t u) →
      startedOf q (pool.log ++ events) = startedOf q pool.log := by
    intro events hev
    rw [startedOf_append, startedOf_nil hev, List.append_nil]
  cases pa with
  | submit => rw [(PoolSys.unchanged_submit h).quiet.log]
  | wake => rw [(PoolSys.unchanged_wake h).quiet.log]
  | cancel => rw [(PoolSys.unchanged_cancel h).quiet.log]
  | collect => rw [(PoolSys.unchanged_collect h).quiet.log]
  | advance c al =>
    rcases PoolSys.advance_effect h with hq | ⟨sub, w, nodes, -, rfl⟩ | ⟨reqId, w, pc, -, rfl, -⟩
    · rw [hq.log]
    · exact happend _ (by simp)
    · exact happend _ (by simp)
  | pop w => exact absurd rfl (hpa w)
  | finish w ret =>
    simp only [PoolSys.step, PoolSys.finish] at h
    split at h <;> cases h
    refine happend _ fun e he w t u => ?_
    rintro rfl
    simp only [PoolSys.finishEvents, List.mem_cons] at he
    rcases he with he | he
    · cases he
    · split at he <;> simp at he
  | account w =>
    simp only [PoolSys.step, PoolSys.account] at h
    split at h <;> cases h
    refine happend _ fun e he w t u => ?_
    rintro rfl
    obtain ⟨cb, -, hcb⟩ := List.mem_map.mp he
    cases hcb

/-- Whether a worker is at chunk `i` is a matter of its task and of how far its body is. -/
theorem underway_congr {w : Nat} (hexec : (s'.pool.workers w).exec = (s.pool.workers w).exec)
    (hbody : s'.body w = s.body w) (i : Nat) : s'.Underway q w i ↔ s.Underway q w i := by
  unfold Transport.Underway
  rw [hexec, hbody]

/-- A body that has recorded its status is at no chunk any more. -/
theorem not_underway_of_body {w : Nat} (h : (s.body w).unrecorded = false) (i : Nat) :
    ¬ s.Underway q w i := by
  rintro ⟨t, r, u, -, -, hb⟩
  rw [h] at hb
  cases hb

/-- Nor is a worker that runs no task. -/
theorem not_underway_of_exec {w : Nat} (h : ∀ t r u, (s.pool.workers w).exec ≠ .running t r u) (i : Nat) :
    ¬ s.Underway q w i := by
  rintro ⟨t, r, u, hexec, -⟩
  exact h t r u hexec

/-- A worker in a task is at the chunk of that task until its status is recorded. -/
theorem underway_iff {w : Nat} {t : TaskNode ArgPtr} {r : ReqId} {u : BitVec 64}
    (hexec : (s.pool.workers w).exec = .running t r u) (i : Nat) :
    s.Underway q w i ↔ t.ptr = ⟨q, i⟩ ∧ (s.body w).unrecorded = true := by
  constructor
  · rintro ⟨t', r', u', hexec', hptr, hb⟩
    rw [hexec] at hexec'
    cases hexec'
    exact ⟨hptr, hb⟩
  · rintro ⟨hptr, hb⟩
    exact ⟨t, r, u, hexec, hptr, hb⟩

/-- The tasks of other requests are none of its chunks. -/
theorem not_underway_of_sync {w : Nat} {t : TaskNode ArgPtr} {r : ReqId} {u : BitVec 64}
    (hexec : (s.pool.workers w).exec = .running t r u) (hq : t.ptr.sync ≠ q) (i : Nat) :
    ¬ s.Underway q w i := by
  rw [underway_iff hexec]
  rintro ⟨hptr, -⟩
  exact hq (by rw [hptr])

/-- A step that starts nothing and records nothing.  It suffices to look at the one worker whose
    step it is. -/
theorem TurnStep.of_same {w : Nat} (hown : ∀ i, s'.Underway q w i ↔ s.Underway q w i)
    (hother : ∀ w', w' ≠ w → (s'.pool.workers w').exec = (s.pool.workers w').exec ∧ s'.body w' = s.body w')
    (hlog : startedOf q s'.pool.log = startedOf q s.pool.log) (hrec : s.recordedBy q a = []) :
    TurnStep q s a s' := by
  refine .same (fun w' i => ?_) hlog hrec
  by_cases hw : w' = w
  · subst hw
    exact hown i
  · exact underway_congr (hother w' hw).1 (hother w' hw).2 i

/-- Neither before nor after the step is the status of the task of `w` unrecorded. -/
theorem TurnStep.quiet {w : Nat}
    (hbefore : (s.body w).unrecorded = false ∨ ∀ t r u, (s.pool.workers w).exec ≠ .running t r u)
    (hafter : (s'.body w).unrecorded = false ∨ ∀ t r u, (s'.pool.workers w).exec ≠ .running t r u)
    (hother : ∀ w', w' ≠ w → (s'.pool.workers w').exec = (s.pool.workers w').exec ∧ s'.body w' = s.body w')
    (hlog : startedOf q s'.pool.log = startedOf q s.pool.log) (hrec : s.recordedBy q a = []) :
    TurnStep q s a s' := by
  refine .of_same (w := w) (fun i => iff_of_false ?_ ?_) hother hlog hrec
  · exact hafter.elim (fun h => not_underway_of_body h i) fun h => not_underway_of_exec h i
  · exact hbefore.elim (fun h => not_underway_of_body h i) fun h => not_underway_of_exec h i

/-- A worker in its loop takes a task of `q` or another one, or finds none.  Only the first of the
    three is seen from `q`. -/
theorem turn_of_pop {w : Nat} {ret : Int} {pool : PoolSys Proc ArgPtr}
    (hloop : (s.pool.workers w).exec = .loop) (hpool : s.pool.step (.pop w) = some pool)
    (hother : ∀ w', w' ≠ w → (pool.workers w').exec = (s.pool.workers w').exec ∧
      ((s.setPool pool).setBody w .start).body w' = s.body w') :
    TurnStep q s (.worker w ret) ((s.setPool pool).setBody w .start) := by
  have hrec : s.recordedBy q (.worker w ret) = [] := by
    simp [Transport.recordedBy, hloop]
  have hbefore : ∀ t r u, (s.pool.workers w).exec ≠ .running t r u := by simp [hloop]
  obtain ⟨-, -, ⟨-, rfl⟩ | ⟨p, pending, task, queue, -, -, rfl⟩ | ⟨p, pending, -, -, rfl⟩⟩ :=
    pop_cases hpool
  · refine .quiet (.inr hbefore) (.inr ?_) hother rfl hrec
    show ∀ t r u, (Function.update s.pool.workers w _ w).exec ≠ _
    rw [Function.update_self]
    exact hbefore
  · have hexec : ((((s.setPool ((s.pool.setWorker w ⟨queue, pending, .busy,
        .running task p.requestId p.userData⟩).record [.taken w task p.userData])).setBody w
        .start).pool.workers w).exec) = .running task p.requestId p.userData := by
      show (Function.update s.pool.workers w _ w).exec = _
      rw [Function.update_self]
    have hlog : startedOf q (s.pool.log ++ [.taken w task p.userData])
        = startedOf q s.pool.log ++ if task.ptr.sync = q then [task.ptr.index] else [] := by
      rw [startedOf_append]
      by_cases hq : task.ptr.sync = q <;> simp [startedOf, hq]
    by_cases hq : task.ptr.sync = q
    · rw [if_pos hq] at hlog
      refine .start (i := task.ptr.index) ?_ hloop
        (fun w' hw i => underway_congr (hother w' hw).1 (hother w' hw).2 i) hlog hrec
      refine (underway_iff hexec _).mpr ⟨?_, ?_⟩
      · rw [← hq]
      · show (Function.update s.body w Body.start w).unrecorded = true
        rw [Function.update_self]
        rfl
    · rw [if_neg hq, List.append_nil] at hlog
      exact .of_same (fun i => iff_of_false (not_underway_of_sync hexec hq i)
        (not_underway_of_exec hbefore i)) hother hlog hrec
  · refine .quiet (.inr hbefore) (.inr ?_) hother ?_ hrec
    · show ∀ t r u, (Function.update s.pool.workers w _ w).exec ≠ _
      rw [Function.update_self]
      exact hbefore
    · show startedOf q (s.pool.log ++ [.missed w p.requestId p.userData]) = _
      rw [startedOf_append]
      exact List.append_nil _

/-- A worker posts, and its task has still to record what comes of it. -/
theorem turn_of_post {w : Nat} {ret : Int} {t : TaskNode ArgPtr} {r : ReqId} {u : BitVec 64}
    {s₁ : Transport} {b : Body} (hexec : (s.pool.workers w).exec = .running t r u)
    (hpool : s₁.pool = s.pool) (hbefore : (s.body w).unrecorded = true) (hb : b.unrecorded = true)
    (hother : ∀ w', w' ≠ w → (s₁.pool.workers w').exec = (s.pool.workers w').exec ∧
      (s₁.setBody w b).body w' = s.body w')
    (hrec : s.recordedBy q (.worker w ret) = []) :
    TurnStep q s (.worker w ret) (s₁.setBody w b) := by
  refine .of_same (fun i => ?_) hother (by rw [← hpool]; rfl) hrec
  rw [underway_iff hexec, underway_iff (t := t) (r := r) (u := u) (by rw [← hexec, ← hpool]; rfl)]
  refine and_congr_right fun _ => iff_of_true ?_ hbefore
  show (Function.update s₁.body w _ w).unrecorded = true
  rw [Function.update_self, hb]

/-- A worker records the status of a task of `q` or of another one.  In the first case the task is
    under way no more. -/
theorem turn_of_status {w : Nat} {ret : Int} {t : TaskNode ArgPtr} {r : ReqId} {u : BitVec 64}
    {st : UrmaStatus} {s' : Transport} (hexec : (s.pool.workers w).exec = .running t r u)
    (hexec' : (s'.pool.workers w).exec = .running t r u) (hbody : s.body w = .status st)
    (hbody' : (s'.body w).unrecorded = false) (hlog : s'.pool.log = s.pool.log)
    (hother : ∀ w', w' ≠ w → (s'.pool.workers w').exec = (s.pool.workers w').exec ∧
      s'.body w' = s.body w') : TurnStep q s (.worker w ret) s' := by
  have hrec := recordedBy_status (q := q) ret hexec hbody
  by_cases hq : t.ptr.sync = q
  · rw [if_pos hq] at hrec
    refine .record (w := w) ?_ (not_underway_of_body hbody')
      (fun w' hw i => underway_congr (hother w' hw).1 (hother w' hw).2 i) (by rw [hlog]) hrec
    rw [underway_iff hexec, hbody]
    exact ⟨by rw [← hq], rfl⟩
  · rw [if_neg hq] at hrec
    exact .of_same (fun i => iff_of_false (not_underway_of_sync hexec' hq i)
      (not_underway_of_sync hexec hq i)) hother (by rw [hlog]) hrec

/-- Every step of the transport is one of these, seen from a send. -/
theorem turn_of_move (hm : Move s a s') (hn : Nodes s) (hsends : s.Sends q) : TurnStep q s a s' := by
  by_cases ha : ∀ w ret, a ≠ .worker w ret
  · obtain ⟨hexec, hbody, -⟩ := hm.other ha
    refine .same (fun w i => underway_congr (hexec w) (by rw [hbody]) i) ?_ (recordedBy_of_ne ha)
    rcases hm.pool with hpool | ⟨pa, hcalls, hpool⟩
    · rw [hpool]
    · refine startedOf_step hpool ?_
      rintro w rfl
      obtain ⟨ret, rfl⟩ := hcalls
      exact ha w ret rfl
  obtain ⟨w, ret, rfl⟩ : ∃ w ret, a = .worker w ret := by
    simpa only [not_forall, not_not] using ha
  have hother : ∀ w', w' ≠ w → (s'.pool.workers w').exec = (s.pool.workers w').exec ∧ s'.body w' = s.body w' :=
    fun w' hw => hm.elsewhere hw
  cases hm with
  | refuse hcall | submit hcall => cases hcall
  | pop hloop hpool => exact turn_of_pop hloop hpool hother
  | @notify _ _ t r u arg s₁ st hexec hbody harg hpost =>
    refine turn_of_post hexec (post_pool hpost) (by rw [hbody]; rfl) ?_ hother
      (recordedBy_worker (by simp [hbody]))
    split <;> rfl
  | @write _ _ t r u arg s₁ st hexec hbody harg hpost =>
    exact turn_of_post hexec (post_pool hpost) (by rw [hbody]; rfl) rfl hother
      (recordedBy_worker (by simp [hbody]))
  | @callback _ _ t r u arg cb hexec hbody harg | @noCallback _ _ t r u arg hexec hbody harg =>
    -- not a task of `q`, whose tasks send
    have hq : t.ptr.sync ≠ q := by
      rintro rfl
      obtain ⟨x, hx⟩ := hsends (hn.running w t r u hexec).1.made _ _ harg
      cases hx
    refine .of_same (fun i => iff_of_false ?_ ?_) hother rfl (recordedBy_worker (by simp [hbody]))
    · refine not_underway_of_sync (t := t) (r := r) (u := u) ?_ hq i
      exact hexec
    · exact not_underway_of_sync hexec hq i
  | @status _ _ t r u st hexec hbody =>
    refine turn_of_status hexec hexec hbody ?_ rfl hother
    show (Function.update s.body w _ w).unrecorded = false
    rw [Function.update_self]
    rfl
  | @mark _ _ t r u taskRet sync shouldFree hexec hbody hsync =>
    refine .quiet (.inl (by rw [hbody]; rfl)) (.inl ?_) hother rfl (recordedBy_worker (by simp [hbody]))
    show (Function.update s.body w _ w).unrecorded = false
    rw [Function.update_self]
    split <;> rfl
  | workerFree hexec hbody =>
    refine .quiet (.inl (by rw [hbody]; rfl)) (.inl ?_) hother rfl (recordedBy_worker (by simp [hbody]))
    show (Function.update s.body w _ w).unrecorded = false
    rw [Function.update_self]
    rfl
  | finish hexec hbody hpool =>
    have hfinish : (s.body w).unrecorded = false := by rw [hbody]; rfl
    refine .quiet (.inl hfinish) (.inl hfinish) hother ?_ (recordedBy_worker (by simp [hbody]))
    exact startedOf_step hpool (by simp)
  | account hexec hpool =>
    refine .quiet (.inr (by simp [hexec])) (.inr fun t r u hrun => ?_) hother ?_ ?_
    · rcases PoolSys.exec_effect hpool hrun with hold | ⟨hpop, -⟩
      · rw [hexec] at hold
        cases hold
      · cases hpop
    · exact startedOf_step hpool (by simp)
    · simp [Transport.recordedBy, hexec]

/-- Statuses are recorded in the order in which the tasks were started; at most the last task
    started has not recorded its own.  Between two tasks and during one are the two cases. -/
inductive InTurn (q : Nat) (c : WaitStory) : Prop
  | between (hno : ∀ w i, ¬ c.sys.Underway q w i)
      (h : startedOf q c.sys.pool.log = (c.recorded q).map Prod.fst)
  | during {w i} (hnow : c.sys.Underway q w i)
      (h : startedOf q c.sys.pool.log = (c.recorded q).map Prod.fst ++ [i])

end Turn

section Order

variable {c c' : WaitStory} {a : Action} {q : Nat} {r : ReqId} {workerCount : Nat}
  {capacity : BitVec 32} {ok : WaitStory → Action → Prop}

/-- The tasks of a request with an id of its own are executed one at a time.  They are all at one
    worker, and a worker executes one task. -/
theorem underway_unique {s : Transport} {ok : Transport → Action → Prop}
    (hr : (transportSystem workerCount capacity).Reach ok s) (hid : s.OwnsId q r) {w w' i i' : Nat}
    (h : s.Underway q w i) (h' : s.Underway q w' i') : w' = w ∧ i' = i := by
  have hlane : ∀ {w i}, s.Underway q w i → ∃ t u, (lane r s.pool).exec w = .running t r u := by
    rintro w i ⟨t, r', u, hexec, hptr, -⟩
    obtain rfl := (sync_of_running hr hid hexec).mp (by rw [hptr])
    exact ⟨t, u, by rw [lane_exec, hexec]; simp [laneExec]⟩
  have hw : w' = w := by
    have hat := own_lane_reach (fun _ _ => True) (J := fun _ L => ∃ w₀, L.At w₀)
      (fun _ _ _ _ _ _ => trivial) (fun _ _ _ _ w _ _ _ hL _ => ⟨w, hL.at_attached _ _ _⟩)
      (fun _ _ _ _ hat hs hatt _ => hat.imp fun _ hat => at_step hat hs hatt) hr hid
    obtain ⟨t, u, hexec⟩ := hlane h
    obtain ⟨t', u', hexec'⟩ := hlane h'
    rcases hat with ⟨-, huntouched⟩ | ⟨-, w₀, hat⟩
    · rw [huntouched.exec] at hexec
      cases hexec
    · have hone : ∀ {w t u}, (lane r s.pool).exec w = .running t r u → w = w₀ := by
        intro w t u hexec
        exact hat.worker_of_exec (by rw [hexec]; simp)
      rw [hone hexec, hone hexec']
  subst hw
  obtain ⟨t, r₁, u, hexec, hptr, -⟩ := h
  obtain ⟨t', r₂, u', hexec', hptr', -⟩ := h'
  rw [hexec] at hexec'
  cases hexec'
  rw [hptr] at hptr'
  cases hptr'
  exact ⟨rfl, rfl⟩

/-- One step keeps the order: what starts comes next, what is recorded was under way.  That no
    second task is under way is used in both directions. -/
theorem InTurn.step (h : InTurn q c) (hr : (waitSystem workerCount capacity).Reach ok c)
    (hid : c'.sys.OwnsId q r) (hsends : c.sys.Sends q) (hs : c.step a = some c') : InTurn q c' := by
  obtain ⟨hsys, hrec, -, -⟩ := WaitStory.step_eq (q := q) hs
  have hreach := sys_reach hr
  have hreach' : (transportSystem workerCount capacity).Reach (fun _ _ => True) c'.sys :=
    .step hreach trivial hsys
  have hturn := turn_of_move (Transport.move_of_step hsys) (nodes_reach hreach) hsends
  cases hturn with
  | same hsame hlog hnone =>
    rw [hnone, List.append_nil] at hrec
    cases h with
    | between hno h => exact .between (fun w i => by rw [hsame]; exact hno w i) (by rw [hlog, hrec, h])
    | during hnow h => exact .during ((hsame _ _).mpr hnow) (by rw [hlog, hrec, h])
  | @start w i hnow hloop hother hlog hnone =>
    rw [hnone, List.append_nil] at hrec
    cases h with
    | between hno h => exact .during hnow (by rw [hlog, hrec, h])
    | @during w' i' hold h =>
      -- the worker was free, so the task under way is another worker's
      have hne : w' ≠ w := by
        rintro rfl
        obtain ⟨t, r, u, hexec, -⟩ := hold
        rw [hloop] at hexec
        cases hexec
      exact absurd (underway_unique hreach' hid hnow ((hother w' hne i').mpr hold)).1 hne
  | @record w i st hold hno hother hlog hone =>
    rw [hone] at hrec
    cases h with
    | between hnone h => exact absurd hold (hnone w i)
    | @during w' i' hnow h =>
      obtain ⟨rfl, rfl⟩ := underway_unique hreach (OwnsId.back hreach hsys hid) hold hnow
      refine .between (fun w'' i'' hnow' => ?_) (by rw [hlog, hrec, h, List.map_append]; rfl)
      by_cases hw : w'' = w'
      · subst hw
        exact hno i'' hnow'
      · have hnow'' := (hother w'' hw i'').mp hnow'
        exact hw (underway_unique hreach (OwnsId.back hreach hsys hid) hold hnow'').1

/-- In every run the chunks of a send are recorded in the order of their tasks. -/
theorem inTurn_reach (h : (waitSystem workerCount capacity).Reach ok c) (hid : c.sys.OwnsId q r)
    (hsends : c.sys.Sends q) : InTurn q c := by
  refine h.invariant (I := fun c => c.sys.OwnsId q r → c.sys.Sends q → InTurn q c) ?_ ?_ hid hsends
  · rintro c rfl - -
    refine .between (fun w i => not_underway_of_exec ?_ i) rfl
    intro t r u hexec
    cases hexec
  · intro c a c' hr hI _ hs hid hsends
    have hreach := sys_reach hr
    have hsys := (WaitStory.step_eq (q := q) hs).1
    have hback := hsends.back hreach hsys
    exact (hI (OwnsId.back hreach hsys hid) hback).step hr hid hback hs

end Order

/-! ## How a wait ends

The steps of a wait, seen from its end. -/

namespace OwnerPc

/-- What the wait will return unless its last look finds a failure, from the moment it has left
    its loop; and what it has returned. -/
def wait : OwnerPc → Option WaitRet
  | .failed wait => some wait
  | .cancelling wait => wait
  | .adding _ wait => wait
  | .addFreeing wait => wait
  | .releasing wait => wait
  | .freeing (.waited ret _) => some ret
  | .returned (.waited ret _) => some ret
  | _ => none

/-- The pair the wait returns. -/
def reported : OwnerPc → Option (WaitRet × UrmaStatus)
  | .freeing (.waited ret st) => some (ret, st)
  | .returned (.waited ret st) => some (ret, st)
  | _ => none

/-- What reports something comes from a wait. -/
theorem wait_of_reported {pc : OwnerPc} {ret : WaitRet} {st : UrmaStatus}
    (h : pc.reported = some (ret, st)) : pc.wait = some ret := by
  cases pc with
  | freeing r | returned r =>
    cases r with
    | waited => cases h; rfl
    | cancelled => cases h
  | _ => cases h

end OwnerPc

/-- What a step does to the wait on `q`.  Its constructors are the places where the loop is left,
    the last look, and the way between them. -/
inductive WaitStep (q : Nat) (s : Transport) (a : Action) (s' : Transport) : Prop
  /-- There is no wait that has left its loop. -/
  | aside (hwait : (s'.reqs q).owner.wait = none) (hend : s.endedBy q a = none)
      (hlook : s.looksLast q a = false)
  | completed {timed} (ho : (s.reqs q).owner = .entering timed ∨ (s.reqs q).owner = .blocked timed)
      (hc : (s.reqs q).sync.requestCompleted = true)
      (ho' : (s'.reqs q).owner = Transport.checkCompleted (s.reqs q) timed)
      (hend : s.endedBy q a = some (.completed (s.view q).failed)) (hlook : s.looksLast q a = false)
  | gaveUp {wait e} (ho' : (s'.reqs q).owner = .failed wait) (he : ∀ n, e ≠ .completed n)
      (hend : s.endedBy q a = some e) (hlook : s.looksLast q a = false)
  | goesOn (hwait : (s'.reqs q).owner.wait = (s.reqs q).owner.wait)
      (hrep : (s'.reqs q).owner.reported = (s.reqs q).owner.reported)
      (hend : s.endedBy q a = none) (hlook : s.looksLast q a = false)
  | looks {wait} (ho : (s.reqs q).owner = .releasing wait)
      (ho' : (s'.reqs q).owner.wait = (OwnerPc.returned
        (Transport.ownerRet wait (s.reqs q).sync.urmaStatus)).wait)
      (hrep : (s'.reqs q).owner.reported = (OwnerPc.returned
        (Transport.ownerRet wait (s.reqs q).sync.urmaStatus)).reported)
      (hend : s.endedBy q a = none) (hlook : s.looksLast q a = true)

section WaitStep

variable {s s' : Transport} {q : Nat} {a : Action}

/-- An edit of one request that keeps its owner moves no owner. -/
theorem setReq_owner {q' : Nat} {r : Request} (h : r.owner = (s.reqs q').owner) (q : Nat) :
    ((s.setReq q' r).reqs q).owner = (s.reqs q).owner := by
  by_cases hq : q = q'
  · subst hq
    rw [← h]
    exact congrArg Request.owner (Function.update_self ..)
  · exact congrArg Request.owner (Function.update_of_ne hq ..)

/-- The step of another thread. -/
theorem WaitStep.of_same (ha : ∀ cond, a ≠ .owner q cond)
    (ho : (s'.reqs q).owner = (s.reqs q).owner) : WaitStep q s a s' := by
  refine .goesOn (by rw [ho]) (by rw [ho]) ?_ ?_
  · cases a with
    | owner q' cond =>
      have hq : q' ≠ q := by
        rintro rfl
        exact ha cond rfl
      simp only [Transport.endedBy, if_pos hq]
    | _ => rfl
  · cases a with
    | owner q' cond =>
      have hq : (q' == q) = false := by
        refine beq_eq_false_iff_ne.mpr ?_
        rintro rfl
        exact ha cond rfl
      simp only [Transport.looksLast, hq]
      split <;> rfl
    | _ => rfl

/-- One check of the loop condition.  It leaves the loop iff the flag is set; the number of failed
    tasks is noted as it is now. -/
theorem WaitStep.checked {cond : CondRet} {timed : Bool}
    (ho : (s.reqs q).owner = .entering timed ∨ (s.reqs q).owner = .blocked timed)
    (hend : s.endedBy q (.owner q cond) = if (s.reqs q).sync.requestCompleted = true then
      some (.completed (s.view q).failed) else none)
    (hlook : s.looksLast q (.owner q cond) = false) :
    WaitStep q s (.owner q cond)
      (s.setReq q { s.reqs q with owner := Transport.checkCompleted (s.reqs q) timed }) := by
  by_cases hc : (s.reqs q).sync.requestCompleted = true
  · rw [if_pos hc] at hend
    exact .completed ho hc (by rw [reqs_setReq_self]) hend hlook
  · rw [if_neg hc] at hend
    refine .aside ?_ hend hlook
    rw [reqs_setReq_self]
    show (Transport.checkCompleted _ _).wait = none
    rw [Transport.checkCompleted, if_neg hc]
    rfl

/-- A step of the call on the handle itself.  No request is ever at the three places left out: they
    are for objects without tasks, and for a release before the wait. -/
theorem wait_of_own {cond : CondRet} (hm : Move s (.owner q cond) s')
    (hne : ∀ wait, (s.reqs q).owner ≠ .addFreeing wait ∧
      (s.reqs q).owner ≠ .requesting ∧ (s.reqs q).owner ≠ .rechecking) :
    WaitStep q s (.owner q cond) s' := by
  have hself : ∀ {pool : PoolSys Proc ArgPtr} {r : Request},
      (((s.setPool pool).setReq q r).reqs q).owner = r.owner := by
    intro pool r
    rw [reqs_setReq_self]
  have hend : ∀ {pc}, (s.reqs q).owner = pc → (∀ timed, pc ≠ .entering timed) →
      (∀ timed, pc ≠ .blocked timed) → s.endedBy q (.owner q cond) = none := by
    intro pc hpc hentering hblocked
    simp only [Transport.endedBy, ne_eq, not_true_eq_false, if_false, hpc]
    split
    · exact absurd rfl (hentering _)
    · exact absurd rfl (hblocked _)
    · exact absurd rfl (hblocked _)
    · exact absurd rfl (hblocked _)
    · rfl
  have hlook : ∀ {pc}, (s.reqs q).owner = pc → (∀ wait, pc ≠ .releasing wait) →
      s.looksLast q (.owner q cond) = false := by
    intro pc hpc hreleasing
    simp only [Transport.looksLast, hpc]
  cases hm with
  | refuse hcall | submit hcall => cases hcall
  | enter ho hb =>
    exact .checked (.inl ho) (by simp [Transport.endedBy, ho, hb]) (hlook ho (by simp))
  | woken ho => exact .checked (.inr ho) (by simp [Transport.endedBy, ho]) (hlook ho (by simp))
  | unbound ho hb =>
    refine .aside (by rw [reqs_setReq_self]; rfl) ?_ (hlook ho (by simp))
    simp [Transport.endedBy, ho, hb]
  -- a wait that gives up has not seen `request_completed`
  | timeout ho =>
    refine .gaveUp (e := .timedout) (by rw [reqs_setReq_self]) (by simp) ?_ (hlook ho (by simp))
    simp [Transport.endedBy, ho]
  | condError ho =>
    refine .gaveUp (e := .condError) (by rw [reqs_setReq_self]) (by simp) ?_ (hlook ho (by simp))
    simp [Transport.endedBy, ho]
  | beginCancel ho htask hpool | counted ho hdone hpool | refusedWait ho hdone hres hpool =>
    refine .goesOn ?_ ?_ (hend ho (by simp) (by simp)) (hlook ho (by simp))
    · rw [hself, ho]
      rfl
    · rw [hself, ho]
      rfl
  | ownerAdvance ho hpool =>
    exact .goesOn rfl rfl (hend ho (by simp) (by simp)) (hlook ho (by simp))
  | refusedCancel ho =>
    exact .aside (by rw [hself]; rfl) (hend ho (by simp) (by simp)) (hlook ho (by simp))
  | @add _ _ n wait sync shouldFree ho hsync =>
    refine .goesOn ?_ ?_ (hend ho (by simp) (by simp)) (hlook ho (by simp))
    · rw [reqs_setReq_self, ho]
      cases shouldFree <;> rfl
    · rw [reqs_setReq_self, ho]
      cases shouldFree <;> rfl
  -- the one step that reads `sync->urma_status`
  | @release _ _ wait sync shouldFree ho hsync =>
    refine .looks ho ?_ ?_ (hend ho (by simp) (by simp)) (by simp [Transport.looksLast, ho])
    · rw [reqs_setReq_self]
      generalize Transport.ownerRet wait (s.reqs q).sync.urmaStatus = ret
      cases ret <;> cases shouldFree <;> rfl
    · rw [reqs_setReq_self]
      generalize Transport.ownerRet wait (s.reqs q).sync.urmaStatus = ret
      cases ret <;> cases shouldFree <;> rfl
  | @ownerFree _ _ ret ho =>
    refine .goesOn ?_ ?_ (hend ho (by simp) (by simp)) (hlook ho (by simp))
    · rw [reqs_setReq_self, ho]
      cases ret <;> rfl
    · rw [reqs_setReq_self, ho]
      cases ret <;> rfl
  | addFree ho => exact absurd ho (hne _).1
  | request ho => exact absurd ho (hne none).2.1
  | recheck ho => exact absurd ho (hne none).2.2

/-- A step of another thread, or of the one that makes the call.  It begins a call on the handle, or
    leaves the owner where it is. -/
theorem wait_of_other (hm : Move s a s') (ha : ∀ cond, a ≠ .owner q cond) : WaitStep q s a s' := by
  cases hm with
  | @callWait q' timed ho =>
    by_cases hq : q = q'
    · subst hq
      exact .aside (by rw [reqs_setReq_self]; rfl) rfl rfl
    · exact .of_same ha (congrArg Request.owner (Function.update_of_ne hq ..))
  | @callCancel q' reqId pool ho hpool =>
    by_cases hq : q = q'
    · subst hq
      exact .aside (by rw [reqs_setReq_self]; rfl) rfl rfl
    · exact .of_same ha (congrArg Request.owner (Function.update_of_ne hq ..))
  | @enter q' _ _ _ _ | @woken q' _ _ | @unbound q' _ _ _ _ | @timeout q' _ | @condError q' _ _
  | @beginCancel q' _ _ _ _ _ _ _ _ | @counted q' _ _ _ _ _ _ _ | @refusedWait q' _ _ _ _ _ _ _ _
  | @refusedCancel q' _ _ _ _ _ _ _ | @add q' _ _ _ _ _ _ _ | @addFree q' _ _ _
  | @release q' _ _ _ _ _ _ | @request q' _ _ | @recheck q' _ _ _ _ _ | @ownerFree q' _ _ _ =>
    have hq : q ≠ q' := by
      rintro rfl
      exact ha _ rfl
    exact .of_same ha (congrArg Request.owner (Function.update_of_ne hq ..))
  | firstWrite _ _ hpost =>
    refine .of_same ha ?_
    rw [← post_reqs hpost]
    exact setReq_owner (by rw [post_reqs hpost]) q
  | notify _ _ _ hpost | write _ _ _ hpost =>
    exact .of_same ha (congrArg (fun f => (f q).owner) (post_reqs hpost))
  | callerAdvance | ownerAdvance | ignored | completion | wakeStep | cancelId | cancelStep | pop
  | callback | noCallback | finish | account => exact .of_same ha rfl
  | _ =>
    refine .of_same ha (setReq_owner ?_ q)
    rfl

/-- Every step of the transport is one of these, seen from a wait. -/
theorem wait_of_move (hm : Move s a s') (hne : ∀ wait, (s.reqs q).owner ≠ .addFreeing wait ∧
    (s.reqs q).owner ≠ .requesting ∧ (s.reqs q).owner ≠ .rechecking) : WaitStep q s a s' := by
  by_cases ha : ∃ cond, a = .owner q cond
  · obtain ⟨cond, rfl⟩ := ha
    exact wait_of_own hm hne
  · exact wait_of_other hm fun cond heq => ha ⟨cond, heq⟩

end WaitStep

/-! ## Why a request is completed

Three reasons, and each leaves its trace. -/

/-- Until its owner decides, a request is completed by a failed task, by its last task, or by the
    caller, whose own post failed. -/
def Accountable (v : RequestView) : Prop :=
  v.req.owner.undecided = true → v.req.sync.requestCompleted = true →
    0 < v.failed ∨ v.req.sync.totalTasks ≤ v.req.sync.completedTasks ∨
      ∃ st, v.req.caller = .returned false st

section Accountable

variable {q : Nat} {v v' : RequestView}

/-- A task that succeeds completes the request iff none is left.  A task that fails completes it at
    once. -/
theorem mark_completes {s s' : TaskSync} {taken : Bool} (h : s.markTaskGroupCompleted true = (s', taken))
    (hc : s'.requestCompleted = true) : s.requestCompleted = true ∨ s'.allTasksAccounted = true := by
  simp only [TaskSync.markTaskGroupCompleted, if_true] at h
  obtain ⟨rfl, -⟩ := TaskSync.freeIfReady_eq h
  unfold TaskSync.completeIfAccounted at hc ⊢
  split at hc
  · rename_i hacc
    right
    rw [if_pos hacc]
    exact hacc
  · exact .inl hc

/-- Before its owner decides, no task of a request is counted as cancelled.  The owner is the only
    one that adds to that count. -/
theorem OwnerStage.undecided_none (h : OwnerStage v) (hu : v.req.owner.undecided = true) :
    v.req.sync.canceledTasks = 0 := by
  cases h with
  | before ho hrel hcan => exact hcan
  | cancelling ho hw hrel hcan => exact hcan
  | adding ho hw hrel hcan => exact hcan
  | releasing ho =>
    rw [ho] at hu
    cases hu
  | released ho =>
    rcases ho with ho | ho <;> rw [ho] at hu <;> cases hu

/-- One step keeps a completed request accountable.  A mark that sets the flag is that of a failed
    task or of the last one; the caller sets it as its post fails. -/
theorem Accountable.step (h : Accountable v) (hinv : RequestInv q v) (hs : RequestStep q v v') :
    Accountable v' := by
  -- a caller that has not returned cannot have returned an error
  have hearlier : v.req.owner.undecided = true → v.req.sync.requestCompleted = true →
      (∀ st, v.req.caller ≠ .returned false st) →
      0 < v.failed ∨ v.req.sync.totalTasks ≤ v.req.sync.completedTasks := by
    intro hu hc hcaller
    rcases h hu hc with hf | ht | ⟨st, hst⟩
    · exact .inl hf
    · exact .inr ht
    · exact absurd hst (hcaller st)
  cases hs with
  | submit hc => exact fun _ hcompleted => by cases hcompleted
  | refuse hc => exact fun _ _ => .inr (.inr ⟨_, rfl⟩)
  | unregistered hc => exact fun _ _ => .inr (.inr ⟨_, rfl⟩)
  | fail hc => exact fun _ _ => .inr (.inr ⟨_, rfl⟩)
  | register hc =>
    intro hu hcompleted
    exact (hearlier hu hcompleted (by simp [hc])).imp_right .inl
  | post hc =>
    intro hu hcompleted
    exact (hearlier hu hcompleted (by rcases hc with hc | hc <;> simp [hc])).imp_right .inl
  | callWait hh hc ho | callCancel hh hc ho =>
    intro _
    exact h (by rw [ho]; rfl)
  | refusedCancel ho =>
    intro _
    exact h (by rw [ho]; rfl)
  | check ho =>
    intro _
    rcases ho with ho | ho <;> exact h (by rw [ho]; rfl)
  | @status st =>
    obtain ⟨_, heq⟩ := TaskSync.updateUrmaStatus_eq (s := v.req.sync) st
    intro hu hcompleted
    simp only [RequestView.setSync, heq] at hcompleted ⊢
    exact h hu hcompleted
  | @mark w success sync shouldFree hw hsync =>
    intro hu hcompleted
    have hcan := hinv.owned.stage.undecided_none hu
    obtain ⟨hlater, -, hcompletedTasks, hcanceled, -⟩ := TaskSync.mark_spec hsync
    cases success with
    | false => exact .inl (Nat.succ_pos _)
    | true =>
      rcases mark_completes hsync hcompleted with hold | hacc
      · rcases h hu hold with hf | ht | hst
        · exact .inl hf
        · refine .inr (.inl ?_)
          show sync.totalTasks ≤ sync.completedTasks
          have := hlater.total
          omega
        · exact .inr (.inr hst)
      · refine .inr (.inl ?_)
        show sync.totalTasks ≤ sync.completedTasks
        simp only [TaskSync.allTasksAccounted, Bool.or_eq_true, beq_iff_eq, decide_eq_true_eq] at hacc
        omega
  | select | attach | record | remove | removeOther | workerFree => exact h
  | unbound | timeout | condError | beginCancel | counted | refusedWait | addFree | request
  | ownerFree =>
    intro hu
    cases hu
  | add | release =>
    intro hu
    split at hu <;> cases hu
  | recheck ho => exact absurd ho (hinv.owned.stage.ne none).2.2

/-- In every run a completed request is accountable. -/
theorem accountable_reach {ok : RequestView → Unit → Prop} (h : (requestSystem q).Reach ok v) :
    Accountable v := by
  refine h.invariant ?_ ?_
  · rintro v rfl _ hcompleted
    cases hcompleted
  · rintro v - v' hr hI - ⟨hs, -⟩
    exact hI.step (requestInv_reach hr) hs

/-- A waiter that finds its request completed and no success knows of a failed task, or the caller
    has returned an error. -/
theorem Accountable.failed (h : Accountable v) (hinv : RequestInv q v) (hund : Undecided v)
    (hu : v.req.owner.undecided = true) (hc : v.req.sync.requestCompleted = true)
    (hb : v.req.bound = true) (hverdict : v.req.sync.verdict ≠ .ok) :
    0 < v.failed ∨ ∃ st, v.req.caller = .returned false st := by
  obtain ⟨htimed, hcancel⟩ := hund hu
  rcases h hu hc with hf | ht | hst
  · exact .inl hf
  · left
    refine hcancel ?_
    by_contra hnot
    refine hverdict ?_
    -- all tasks succeeded, and no more than there are
    obtain ⟨-, -, htotal, -, ha⟩ := hinv.stage.of_bound (.inl hb)
    have hfits := hinv.fits
    have hcompleted := hinv.counted.completed
    unfold RequestView.Fits at hfits
    rw [ha, List.length_map] at hfits
    have heq : v.req.sync.completedTasks = v.req.sync.totalTasks := by omega
    simp [TaskSync.verdict, heq, htimed, Bool.not_eq_true _ ▸ hnot]
  · exact .inr hst

end Accountable

/-! ## What the wait reports

From the reason to the report. -/

/-- A wait that fails on a completed request has a failure to report, and what is reported is what
    had been recorded at the last look. -/
structure Explained (q : Nat) (c : WaitStory) : Prop where
  ended : ∀ n, c.ended q = some (.completed n) →
    (0 < n → firstFailure (c.recorded q) ≠ urmaSuccess) ∧
    ∀ ret, (c.sys.reqs q).owner.wait = some ret → ret ≠ .ok →
      (∀ st, (c.sys.reqs q).caller ≠ .returned false st) → firstFailure (c.recorded q) ≠ urmaSuccess
  reported : ∀ ret st, (c.sys.reqs q).owner.reported = some (ret, st) →
    ∃ recorded, c.snapshot q = some recorded ∧ recorded <+: c.recorded q ∧
      st = firstFailure recorded ∧ (st ≠ urmaSuccess → ret ≠ .ok) ∧
      ∀ n, c.ended q = some (.completed n) → (0 < n → st ≠ urmaSuccess) ∧
        (ret ≠ .ok → (∀ st, (c.sys.reqs q).caller ≠ .returned false st) → st ≠ urmaSuccess)

section Explained

variable {c c' : WaitStory} {a : Action} {q : Nat} {workerCount : Nat} {capacity : BitVec 32}
  {ok : WaitStory → Action → Prop}

/-- The API call returns once. -/
theorem RequestStep.returned {v v' : RequestView} {b : Bool} {st : UrmaStatus}
    (hs : RequestStep q v v') (h : v.req.caller = .returned b st) : v'.req.caller = .returned b st := by
  cases hs with
  | refuse hc | submit hc | register hc | unregistered hc | fail hc =>
    rw [h] at hc
    cases hc
  | post hc => rcases hc with hc | hc <;> rw [h] at hc <;> cases hc
  | _ => exact h

/-- What the last look makes of the answer of the loop. -/
theorem ownerRet_wait {wait : Option WaitRet} {st : UrmaStatus} {ret : WaitRet}
    (h : (OwnerPc.returned (Transport.ownerRet wait st)).wait = some ret) :
    wait = some ret ∧ st = urmaSuccess ∨ ret = .error ∧ st ≠ urmaSuccess := by
  cases wait with
  | none => cases h
  | some w =>
    cases h
    by_cases hst : st = urmaSuccess
    · exact .inl ⟨by rw [if_pos hst], hst⟩
    · exact .inr ⟨if_neg hst, hst⟩

/-- What is reported is the status just read. -/
theorem ownerRet_reported {wait : Option WaitRet} {st st' : UrmaStatus} {ret : WaitRet}
    (h : (OwnerPc.returned (Transport.ownerRet wait st)).reported = some (ret, st')) :
    st' = st ∧ (OwnerPc.returned (Transport.ownerRet wait st)).wait = some ret := by
  refine ⟨?_, OwnerPc.wait_of_reported h⟩
  cases wait with
  | none => cases h
  | some w =>
    cases h
    rfl

/-- What a later state of a story keeps: the statuses recorded only grow, and a call that has failed
    stays failed. -/
structure WaitStory.Later (q : Nat) (c c' : WaitStory) : Prop where
  recorded : c.recorded q <+: c'.recorded q
  failed : ∀ st, (c.sys.reqs q).caller = .returned false st →
    (c'.sys.reqs q).caller = .returned false st

theorem later_of_step (hr : (waitSystem workerCount capacity).Reach ok c) (hs : c.step a = some c') :
    WaitStory.Later q c c' := by
  obtain ⟨hsys, hrec, -⟩ := WaitStory.step_eq (q := q) hs
  refine ⟨?_, fun st hst => ?_⟩
  · rw [hrec]
    exact List.prefix_append ..
  · rcases view_step (sys_reach hr) hsys q with hsame | hstep
    · rw [show c'.sys.reqs q = c.sys.reqs q from congrArg RequestView.req hsame]
      exact hst
    · exact hstep.returned hst

theorem WaitStory.Later.stays (hl : WaitStory.Later q c c')
    (h : firstFailure (c.recorded q) ≠ urmaSuccess) : firstFailure (c'.recorded q) ≠ urmaSuccess := by
  obtain ⟨m, hm⟩ := hl.recorded
  rw [← hm]
  exact firstFailure_stays h m

theorem WaitStory.Later.unfailed (hl : WaitStory.Later q c c')
    (h : ∀ st, (c'.sys.reqs q).caller ≠ .returned false st) :
    ∀ st, (c.sys.reqs q).caller ≠ .returned false st := fun st hst => h st (hl.failed st hst)

/-- The check that ends the loop: a chunk that failed before it has recorded its status. -/
theorem Explained.of_completed {timed : Bool} (hr : (waitSystem workerCount capacity).Reach ok c)
    (hsends : c.sys.Sends q) (hl : WaitStory.Later q c c')
    (ho : (c.sys.reqs q).owner = .entering timed ∨ (c.sys.reqs q).owner = .blocked timed)
    (hc : (c.sys.reqs q).sync.requestCompleted = true)
    (ho' : (c'.sys.reqs q).owner = Transport.checkCompleted (c.sys.reqs q) timed)
    (hended : c'.ended q = some (.completed (c.sys.view q).failed)) : Explained q c' := by
  have hreach := sys_reach hr
  have hR := recorded_reach hr hsends
  have hinv := request_inv hreach q
  have hu : (c.sys.reqs q).owner.undecided = true := by rcases ho with ho | ho <;> rw [ho] <;> rfl
  have hactive : (c.sys.view q).req.owner ≠ .idle := by
    intro hidle
    have hidle : (c.sys.reqs q).owner = .idle := hidle
    rcases ho with ho | ho <;> rw [hidle] at ho <;> cases ho
  obtain ⟨-, -, -, hb, -⟩ := hinv.stage.of_bound (.inr (.inl (hinv.owned.active hactive).1))
  have hcheck : (c'.sys.reqs q).owner = .releasing (some .ok) ∨
      (c'.sys.reqs q).owner = .failed (c.sys.reqs q).sync.verdict ∧
        (c.sys.reqs q).sync.verdict ≠ .ok := by
    rw [ho', Transport.checkCompleted, if_pos hc]
    split
    · exact .inl rfl
    · rename_i hne
      exact .inr ⟨rfl, hne⟩
  refine ⟨fun n hn => ?_, fun ret st hrep => ?_⟩
  · rw [hended] at hn
    cases hn
    refine ⟨fun hpos => hl.stays (hR.failed hpos), fun ret hret hne hno => ?_⟩
    rcases hcheck with hok | ⟨-, hverdict⟩
    · rw [hok] at hret
      cases hret
      exact absurd rfl hne
    · rcases (accountable_reach (view_reach hreach q)).failed hinv
        (undecided_reach (view_reach hreach q)) hu hc hb hverdict with hf | ⟨st, hst⟩
      · exact hl.stays (hR.failed hf)
      · exact absurd hst (hl.unfailed hno st)
  · exfalso
    rcases hcheck with hok | ⟨hfailed, -⟩
    · rw [hok] at hrep
      cases hrep
    · rw [hfailed] at hrep
      cases hrep

/-- A step that leaves the wait where it is. -/
theorem Explained.goesOn (h : Explained q c) (hl : WaitStory.Later q c c')
    (hwait : (c'.sys.reqs q).owner.wait = (c.sys.reqs q).owner.wait)
    (hrep : (c'.sys.reqs q).owner.reported = (c.sys.reqs q).owner.reported)
    (hended : c'.ended q = c.ended q) (hsnap : c'.snapshot q = c.snapshot q) : Explained q c' := by
  refine ⟨fun n hn => ?_, fun ret st hrep' => ?_⟩
  · obtain ⟨hpos, hret⟩ := h.ended n (hended ▸ hn)
    refine ⟨fun hn => hl.stays (hpos hn), fun ret hret' hne hno => ?_⟩
    exact hl.stays (hret ret (hwait ▸ hret') hne (hl.unfailed hno))
  · obtain ⟨recorded, hsnap', hprefix, hst, hnonzero, hcause⟩ := h.reported ret st (hrep ▸ hrep')
    refine ⟨recorded, hsnap.trans hsnap', hprefix.trans hl.recorded, hst, hnonzero, fun n hn => ?_⟩
    obtain ⟨hpos, hret⟩ := hcause n (hended ▸ hn)
    exact ⟨hpos, fun hne hno => hret hne (hl.unfailed hno)⟩

/-- The last look reads the first failure recorded so far. -/
theorem Explained.looks {wait : Option WaitRet} (h : Explained q c) (hR : Recorded q c)
    (hl : WaitStory.Later q c c') (ho : (c.sys.reqs q).owner = .releasing wait)
    (ho' : (c'.sys.reqs q).owner.wait = (OwnerPc.returned
      (Transport.ownerRet wait (c.sys.reqs q).sync.urmaStatus)).wait)
    (hrep : (c'.sys.reqs q).owner.reported = (OwnerPc.returned
      (Transport.ownerRet wait (c.sys.reqs q).sync.urmaStatus)).reported)
    (hended : c'.ended q = c.ended q) (hsnap : c'.snapshot q = some (c.recorded q)) :
    Explained q c' := by
  have hold : ∀ n, c.ended q = some (.completed n) →
      (0 < n → firstFailure (c.recorded q) ≠ urmaSuccess) ∧
      ∀ ret, (OwnerPc.returned (Transport.ownerRet wait (c.sys.reqs q).sync.urmaStatus)).wait = some ret →
        ret ≠ .ok → (∀ st, (c'.sys.reqs q).caller ≠ .returned false st) →
          firstFailure (c.recorded q) ≠ urmaSuccess := by
    intro n hn
    obtain ⟨hpos, hret⟩ := h.ended n hn
    refine ⟨hpos, fun ret hret' hne hno => ?_⟩
    rcases ownerRet_wait hret' with ⟨hwait, -⟩ | ⟨-, hst⟩
    · exact hret ret (by rw [ho]; exact hwait) hne (hl.unfailed hno)
    · rw [← hR.status]
      exact hst
  refine ⟨fun n hn => ?_, fun ret st hrep' => ?_⟩
  · obtain ⟨hpos, hret⟩ := hold n (hended ▸ hn)
    refine ⟨fun hn => hl.stays (hpos hn), fun ret hret' hne hno => ?_⟩
    exact hl.stays (hret ret (ho' ▸ hret') hne hno)
  · obtain ⟨rfl, hret⟩ := ownerRet_reported (hrep ▸ hrep')
    refine ⟨c.recorded q, hsnap, hl.recorded, hR.status, fun hst => ?_, fun n hn => ?_⟩
    · rcases ownerRet_wait hret with ⟨-, hsuccess⟩ | ⟨rfl, -⟩
      · exact absurd hsuccess hst
      · decide
    · obtain ⟨hpos, hcause⟩ := hold n (hended ▸ hn)
      rw [hR.status]
      exact ⟨hpos, fun hne hno => hcause ret hret hne hno⟩

/-- One step keeps what is reported explained. -/
theorem Explained.step (h : Explained q c) (hr : (waitSystem workerCount capacity).Reach ok c)
    (hsends : c.sys.Sends q) (hs : c.step a = some c') : Explained q c' := by
  obtain ⟨hsys, -, hended, hsnap⟩ := WaitStory.step_eq (q := q) hs
  have hl : WaitStory.Later q c c' := later_of_step hr hs
  have hinv := request_inv (sys_reach hr) q
  have hwait := wait_of_move (Transport.move_of_step hsys) fun wait => hinv.owned.stage.ne wait
  cases hwait with
  -- no wait has left its loop
  | aside hwait hend =>
    rw [hend, Option.none_or] at hended
    refine ⟨fun n hn => ⟨fun hpos => hl.stays ((h.ended n (hended ▸ hn)).1 hpos), fun ret hret => ?_⟩, ?_⟩
    · rw [hwait] at hret
      cases hret
    · intro ret st hrep
      rw [OwnerPc.wait_of_reported hrep] at hwait
      cases hwait
  | completed ho hc ho' hend =>
    rw [hend, Option.some_or] at hended
    exact .of_completed hr hsends hl ho hc ho' hended
  | gaveUp ho' he hend =>
    rw [hend, Option.some_or] at hended
    refine ⟨fun n hn => ?_, fun ret st hrep => ?_⟩
    · rw [hended] at hn
      cases hn
      exact absurd rfl (he n)
    · rw [ho'] at hrep
      cases hrep
  | goesOn hwait hrep hend hlook =>
    rw [hend, Option.none_or] at hended
    rw [hlook, if_neg (by decide)] at hsnap
    exact h.goesOn hl hwait hrep hended hsnap
  | looks ho ho' hrep hend hlook =>
    rw [hend, Option.none_or] at hended
    rw [hlook, if_pos rfl] at hsnap
    exact h.looks (recorded_reach hr hsends) hl ho ho' hrep hended hsnap

/-- In every run what a wait reports is explained by what had been recorded. -/
theorem explained_reach (h : (waitSystem workerCount capacity).Reach ok c) (hsends : c.sys.Sends q) :
    Explained q c := by
  refine h.invariant (I := fun c => c.sys.Sends q → Explained q c) ?_ ?_ hsends
  · rintro c rfl -
    refine ⟨fun n hn => ?_, fun ret st hrep => ?_⟩
    · cases hn
    · cases hrep
  · intro c a c' hr hI _ hs hsends
    have hback := hsends.back (sys_reach hr) (WaitStory.step_eq (q := q) hs).1
    exact (hI hback).step hr hback hs

end Explained

/-- What it tells that the wait on the send `q` returned `ret` and left `st` in `*urma_status`.  The
    wait decides in one section and reads the status in another, so the two halves of the pair come
    from different moments. -/
structure StatusReport (q : Nat) (c : WaitStory) (ret : WaitRet) (st : UrmaStatus) : Prop where
  /-- It is a success iff no task had recorded a failure at the last look, and else the failure of
      the first task in the order of execution that had. -/
  earliest : ∃ recorded, c.snapshot q = some recorded ∧
    recorded.map Prod.fst <+: startedOf q c.sys.pool.log ∧
    (st = urmaSuccess ↔ ∀ x ∈ recorded, x.2 = urmaSuccess) ∧ st = firstFailure recorded
  /-- A failure comes with a return value that is not `0`. -/
  nonzero : st ≠ urmaSuccess → ret ≠ .ok
  /-- A wait that found its request completed when a task had failed reports a failure, -/
  failed : ∀ n, c.ended q = some (.completed n) → 0 < n → st ≠ urmaSuccess
  /-- and so does one that found it completed and fails, unless the write of the first chunk had. -/
  cause : ∀ n, c.ended q = some (.completed n) → ret ≠ .ok →
    (∀ st', (c.sys.reqs q).caller ≠ .returned false st') → st ≠ urmaSuccess

/-- **First failure.**  Whatever the order in which the tasks of a send, its waiter and everybody
    else take their steps: the status a wait reports is that of the task that failed first. -/
theorem first_failure {c : WaitStory} {q : Nat} {r : ReqId} {workerCount : Nat} {capacity : BitVec 32}
    {ok : WaitStory → Action → Prop} (h : (waitSystem workerCount capacity).Reach ok c)
    (hid : c.sys.OwnsId q r) {writeInfo : UrmaWriteInfo}
    (hsend : (c.sys.reqs q).prep.urmaInfo = .write writeInfo) {ret : WaitRet} {st : UrmaStatus}
    (howner : (c.sys.reqs q).owner.reported = some (ret, st)) : StatusReport q c ret st := by
  have hsends : c.sys.Sends q := by
    intro hmade i arg harg
    exact ⟨_, (sendReq_of_made (sys_reach h) hmade hsend).args i arg harg⟩
  obtain ⟨recorded, hsnap, hprefix, hst, hnonzero, hcause⟩ :=
    (explained_reach h hsends).reported ret st howner
  refine ⟨⟨recorded, hsnap, ?_, ?_, hst⟩, hnonzero, fun n hn => (hcause n hn).1, fun n hn => (hcause n hn).2⟩
  · -- what had been recorded is the beginning of what was recorded, and that of what was started
    have hindices := hprefix.map Prod.fst
    cases inTurn_reach h hid hsends with
    | between hno horder =>
      rw [horder]
      exact hindices
    | during hnow horder =>
      rw [horder]
      exact hindices.trans (List.prefix_append _ _)
  · rw [hst]
    exact firstFailure_eq_success

/-- The notify of a chunk is refused while the owner is blocked in its wait. -/
def sendRefused : List Action :=
  sendTwo ++ [.callWait 0 false, .owner 0 .woken, .completion 0 firstWriteCr urmaSuccess, .wake 0 .ok,
    .wake 0 .ok] ++ List.replicate 5 (.worker 0 5) ++ List.replicate 7 (.owner 0 .woken)

/-- The wait has returned with the status of the notify. -/
def reportedFive (c : WaitStory) : Bool :=
  (c.sys.reqs 0).owner.reported == some (.error, 5) && (c.sys.reqs 0).prep.requestId == 7#64 &&
    match (c.sys.reqs 0).prep.urmaInfo with
    | .write _ => true
    | .recv _ => false

/-- A send whose first write is refused: its wait reports the refusal. -/
theorem first_failure_refused : ∃ c : WaitStory, c.ended 0 = some (.completed 1) ∧
    StatusReport 0 c .error 5 := by
  have hrun : (exec (fun c => singleRequestb c.sys) WaitStory.step (WaitStory.start 1 1#32)
      sendRefused).any (fun c => reportedFive c && c.ended 0 == some (.completed 1)) = true := by
    decide +kernel
  obtain ⟨c, hr, hP⟩ := System.Reach.of_exec (· = WaitStory.start 1 1#32) _
    (fun c a => singleRequest_of_b c.sys a) rfl sendRefused _ hrun
  simp only [reportedFive, Bool.and_eq_true, beq_iff_eq] at hP
  obtain ⟨⟨⟨howner, hreq⟩, hinfo⟩, hended⟩ := hP
  have hid := ownsId_of_single (q := 0) (sys_reach_of (fun _ _ h => h) hr)
  cases hsend : (c.sys.reqs 0).prep.urmaInfo with
  | write writeInfo => exact ⟨c, hended, first_failure hr hid hsend howner⟩
  | recv recvInfo =>
    rw [hsend] at hinfo
    cases hinfo

end OsTransport
