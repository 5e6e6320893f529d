/-
  The life of one request.

  A request is made by its caller, worked off by the workers and given up by its owner, and the
  object they share is freed by whoever comes last.  `RequestView` is what the transport holds
  about one request; `RequestStep` are the steps of this small machine, those of the caller, of
  the owner and of everybody else.  It says nothing of queues and wake-ups: that tasks are
  neither lost nor duplicated is the assumption `Fits`, which the ledger provides.

  The invariant has one part per party:

  * `Stage`   — how far the caller is, and which tasks it has queued;
  * `OwnerStage` — how far the owner is, and what it has counted as cancelled;
  * `Counted` — the counters of the object against what really happened;
  * `Token`   — the right to free the object: handed out once, and in one hand.

  Each part has one lemma for each rule of `RequestStep` that can touch it and a `congr` lemma for
  all the others (`Stage.congr`, `OwnerStage.congr`, `Counted.congr`, `Token.congr`), and
  `RequestInv.step` joins them.  They need each other: the owner's stage says what it has counted as
  cancelled, which the counters need; the counters say when the last task is accounted for, which
  the token needs.

  The token is where the defects of a shared object would show.  `Token.mark`, `Token.release` and
  `Token.workerFree` are the three places at which the source decides who frees: the worker that marks
  the last task, the owner that asks for the release, and the worker that was told to do it.
-/
import OsTransport.Transport
import OsTransport.PoolEffect
import OsTransport.Lib.Total

namespace OsTransport

open Transition Total

/-! ## The machine

What the transport holds of one request, and the steps that change it. -/

/-- What there is about one request. -/
@[ext] structure RequestView where
  req : Request
  /-- The caller's call into the pool. -/
  submit : SubmitPhase ArgPtr
  /-- The owner's call into the pool. -/
  cancel : CancelPhase
  /-- The tasks of the request that were queued, oldest first. -/
  attached : List ArgPtr
  /-- Tasks the owner's cancel removed, of whatever request. -/
  removedByOwner : Nat
  /-- Tasks of this request the owner's cancel removed. -/
  ownRemoved : Nat
  /-- Tasks of this request any cancel removed. -/
  removed : Nat
  /-- Tasks of this request that ran `mark_task_group_completed`, by success. -/
  succeeded : Nat
  failed : Nat
  /-- The workers that took the object for freeing and have not freed it. -/
  freer : Nat → Bool

namespace RequestView

def setCaller (v : RequestView) (pc : CallerPc) : RequestView :=
  { v with req := { v.req with caller := pc } }

def setOwner (v : RequestView) (pc : OwnerPc) : RequestView :=
  { v with req := { v.req with owner := pc } }

def setSync (v : RequestView) (sync : TaskSync) : RequestView :=
  { v with req := { v.req with sync } }

/-- No more tasks of the request have ended than were queued.  The small machine does not see to it;
    the ledger of the transport does. -/
def Fits (v : RequestView) : Prop := v.succeeded + v.failed + v.removed ≤ v.attached.length

end RequestView

/-- The phases a cancel may start in. -/
def CancelPhase.Begun (c : CancelPhase) : Prop := c = .looked ∨ c = .removed 0 ∨ c = .refused

/-- The steps of request `q`. -/
inductive RequestStep (q : Nat) (v : RequestView) : RequestView → Prop
  -- the caller
  /-- The call fails before the pool. -/
  | refuse (hc : v.req.caller = .fresh) : RequestStep q v (v.setCaller (.returned false urmaSuccess))
  /-- It begins to submit its tasks, or was refused at once. -/
  | submit {p submit} (hc : v.req.caller = .fresh) (hp : p.WellFormed q)
      (hs : submit = .refused ∨ submit = .pending p.submission) :
      RequestStep q v { v with
        req := { v.req with prep := p, sync := .init p.tasks.length, caller := .submitting }
        submit }
  /-- The submission goes on, or is refused. -/
  | select {sub submit} (hc : v.req.caller = .submitting) (hs : v.submit = .pending sub)
      (hs' : submit = .refused ∨ submit = .pending sub) : RequestStep q v { v with submit }
  /-- All tasks are queued. -/
  | attach {sub} (hc : v.req.caller = .submitting) (hs : v.submit = .pending sub) :
      RequestStep q v { v with
        submit := .attached sub
        attached := v.attached ++ sub.tasks.map ThreadPoolTask.taskArg }
  /-- Their context is recorded. -/
  | record {sub} (hc : v.req.caller = .submitting) (hs : v.submit = .attached sub) :
      RequestStep q v { v with submit := .accepted }
  /-- The call has its ids, and goes on to post. -/
  | register {handle caller} (hc : v.req.caller = .submitting) (hs : v.submit = .accepted)
      (hn : caller = .writing ∨ caller = .prefilling) :
      RequestStep q v { v with req := { v.req with bound := true, handle, caller }, submit := .other }
  /-- The call fails with nothing queued. -/
  | unregistered (hc : v.req.caller = .submitting) (hs : v.submit = .refused) :
      RequestStep q v { v.setCaller (.returned false urmaSuccess) with submit := .other }
  /-- The first post or the prefill, with the outcome. -/
  | post {handle caller} (hc : v.req.caller = .writing ∨ v.req.caller = .prefilling)
      (hn : (∃ ok st, caller = .returned ok st) ∨ ∃ st, caller = .failing st) :
      RequestStep q v { v with req := { v.req with handle, caller } }
  /-- A post has failed: the request is marked as completed. -/
  | fail {st} (hc : v.req.caller = .failing st) :
      RequestStep q v ((v.setSync v.req.sync.complete).setCaller (.returned false st))
  -- the owner
  /-- A wait begins. -/
  | callWait {timed} (hh : v.req.handle = true) (hc : ∃ ok st, v.req.caller = .returned ok st)
      (ho : v.req.owner = .idle) : RequestStep q v (v.setOwner (.entering timed))
  /-- A cancel begins. -/
  | callCancel {cancel} (hh : v.req.handle = true) (hc : ∃ ok st, v.req.caller = .returned ok st)
      (ho : v.req.owner = .idle) (hb : cancel.Begun) :
      RequestStep q v { v.setOwner (.cancelling none) with cancel }
  /-- `request_completed` is looked at. -/
  | check {timed} (ho : v.req.owner = .entering timed ∨ v.req.owner = .blocked timed) :
      RequestStep q v (v.setOwner (Transport.checkCompleted v.req timed))
  /-- There is nothing to wait for. -/
  | unbound {timed} (ho : v.req.owner = .entering timed) (hb : v.req.bound = false) :
      RequestStep q v (v.setOwner .requesting)
  /-- The deadline is reported. -/
  | timeout (ho : v.req.owner = .blocked true) :
      RequestStep q v ((v.setSync v.req.sync.setTimedout).setOwner (.failed .timeout))
  /-- The wait itself fails. -/
  | condError {timed} (ho : v.req.owner = .blocked timed) :
      RequestStep q v (v.setOwner (.failed .error))
  /-- A failed wait cancels. -/
  | beginCancel {wait cancel} (ho : v.req.owner = .failed wait) (hb : cancel.Begun) :
      RequestStep q v { v.setOwner (.cancelling (some wait)) with cancel }
  /-- The cancel takes `n` tasks out of a queue, `k` of them of this request. -/
  | remove {wait n k} (ho : v.req.owner = .cancelling wait) (hl : v.cancel = .looked) (hk : k ≤ n) :
      RequestStep q v { v with
        cancel := .removed n
        removedByOwner := v.removedByOwner + n
        ownRemoved := v.ownRemoved + k
        removed := v.removed + k }
  /-- Its count is known. -/
  | counted {wait n} (ho : v.req.owner = .cancelling wait) (hn : v.cancel = .removed n) :
      RequestStep q v { v.setOwner (.adding n wait) with cancel := .other }
  /-- It was refused in a wait. -/
  | refusedWait {wait} (ho : v.req.owner = .cancelling (some wait)) (hn : v.cancel = .refused) :
      RequestStep q v { v.setOwner (.adding 0 (some wait)) with cancel := .other }
  /-- It was refused by itself. -/
  | refusedCancel (ho : v.req.owner = .cancelling none) (hn : v.cancel = .refused) :
      RequestStep q v { v.setOwner .idle with cancel := .other }
  /-- Its count is added to the object. -/
  | add {n wait sync shouldFree} (ho : v.req.owner = .adding n wait)
      (hsync : v.req.sync.addCanceledTasks n (wait == some .timeout) = (sync, shouldFree)) :
      RequestStep q v ((v.setSync sync).setOwner
        (if shouldFree then .addFreeing wait else .releasing wait))
  /-- That section has found the object ready. -/
  | addFree {wait} (ho : v.req.owner = .addFreeing wait) :
      RequestStep q v { v with
        req := { v.req with freed := v.req.freed + 1, owner := .releasing wait } }
  /-- The owner is done with the object. -/
  | release {wait sync shouldFree} (ho : v.req.owner = .releasing wait)
      (hsync : v.req.sync.requestRelease = (sync, shouldFree)) :
      RequestStep q v ((v.setSync sync).setOwner
        (if shouldFree then .freeing (Transport.ownerRet wait v.req.sync.urmaStatus)
          else .returned (Transport.ownerRet wait v.req.sync.urmaStatus)))
  /-- The release of a request without tasks, -/
  | request (ho : v.req.owner = .requesting) :
      RequestStep q v ((v.setSync { v.req.sync with releaseRequested := true }).setOwner .rechecking)
  /-- and the test that follows it. -/
  | recheck {sync owner} (ho : v.req.owner = .rechecking)
      (ht : sync.totalTasks = v.req.sync.totalTasks) :
      RequestStep q v ((v.setSync sync).setOwner owner)
  /-- The owner frees. -/
  | ownerFree {ret} (ho : v.req.owner = .freeing ret) :
      RequestStep q v { v with
        req := { v.req with freed := v.req.freed + 1, owner := .returned ret } }
  -- everybody else
  /-- Another cancel removes `k` tasks of this request. -/
  | removeOther {k} : RequestStep q v { v with removed := v.removed + k }
  /-- A task records a status. -/
  | status {st} : RequestStep q v (v.setSync (v.req.sync.updateUrmaStatus st))
  /-- A task ends. -/
  | mark {w success sync shouldFree} (hw : v.freer w = false)
      (hsync : v.req.sync.markTaskGroupCompleted success = (sync, shouldFree)) :
      RequestStep q v { v.setSync sync with
        succeeded := v.succeeded + success.toNat
        failed := v.failed + (!success).toNat
        freer := Function.update v.freer w shouldFree }
  /-- A worker frees. -/
  | workerFree {w} (hw : v.freer w = true) :
      RequestStep q v { v with
        req := { v.req with freed := v.req.freed + 1 }
        freer := Function.update v.freer w false }

/-- A request nobody has made. -/
def RequestView.fresh : RequestView where
  req := .fresh
  submit := .other
  cancel := .other
  attached := []
  removedByOwner := 0
  ownRemoved := 0
  removed := 0
  succeeded := 0
  failed := 0
  freer _ := false

/-- The runs of request `q` in which the books balance. -/
def requestSystem (q : Nat) : System RequestView Unit where
  Init := (· = .fresh)
  Step v _ v' := RequestStep q v v' ∧ v'.Fits

/-! ## The caller

Nothing is queued before the submission, and everything after it; a registered request stays so. -/

section Caller

variable {q : Nat} {v v' : RequestView}

/-- How far the caller is, and which tasks it has queued. -/
inductive Stage (q : Nat) (v : RequestView) : Prop
  | unmade (hc : v.req.caller = .fresh ∨ ∃ ok st, v.req.caller = .returned ok st)
      (hb : v.req.bound = false) (hh : v.req.handle = false) (ha : v.attached = [])
  | pending (hc : v.req.caller = .submitting) (hp : v.req.prep.WellFormed q)
      (ht : v.req.sync.totalTasks = v.req.prep.tasks.length)
      (hb : v.req.bound = false) (hh : v.req.handle = false) (ha : v.attached = [])
      (hs : v.submit = .refused ∨ v.submit = .pending v.req.prep.submission)
  | queued (hc : v.req.caller = .submitting) (hp : v.req.prep.WellFormed q)
      (ht : v.req.sync.totalTasks = v.req.prep.tasks.length)
      (hb : v.req.bound = false) (hh : v.req.handle = false)
      (ha : v.attached = v.req.prep.tasks.map ThreadPoolTask.taskArg)
      (hs : (∃ sub, v.submit = .attached sub) ∨ v.submit = .accepted)
  | bound (hc : v.req.caller ≠ .fresh ∧ v.req.caller ≠ .submitting) (hp : v.req.prep.WellFormed q)
      (ht : v.req.sync.totalTasks = v.req.prep.tasks.length) (hb : v.req.bound = true)
      (ha : v.attached = v.req.prep.tasks.map ThreadPoolTask.taskArg)

/-- Steps of others leave the caller where it is. -/
theorem Stage.congr (h : Stage q v) (hcaller : v'.req.caller = v.req.caller)
    (hprep : v'.req.prep = v.req.prep) (hbound : v'.req.bound = v.req.bound)
    (hhandle : v'.req.handle = v.req.handle)
    (htotal : v'.req.sync.totalTasks = v.req.sync.totalTasks) (hsubmit : v'.submit = v.submit)
    (hattached : v'.attached = v.attached) : Stage q v' := by
  cases h with
  | unmade hc hb hh ha =>
    exact .unmade (by rwa [hcaller]) (by rwa [hbound]) (by rwa [hhandle]) (by rwa [hattached])
  | pending hc hp ht hb hh ha hs =>
    exact .pending (by rwa [hcaller]) (by rwa [hprep]) (by rwa [htotal, hprep]) (by rwa [hbound])
      (by rwa [hhandle]) (by rwa [hattached]) (by rwa [hsubmit, hprep])
  | queued hc hp ht hb hh ha hs =>
    exact .queued (by rwa [hcaller]) (by rwa [hprep]) (by rwa [htotal, hprep]) (by rwa [hbound])
      (by rwa [hhandle]) (by rwa [hattached, hprep]) (by rwa [hsubmit])
  | bound hc hp ht hb ha =>
    exact .bound (by rwa [hcaller]) (by rwa [hprep]) (by rwa [htotal, hprep]) (by rwa [hbound])
      (by rwa [hattached, hprep])

/-- A request nobody has made has nothing. -/
theorem Stage.of_fresh (h : Stage q v) (hc : v.req.caller = .fresh) :
    v.req.bound = false ∧ v.req.handle = false ∧ v.attached = [] := by
  cases h with
  | unmade _ hb hh ha => exact ⟨hb, hh, ha⟩
  | pending hc' => rw [hc] at hc'; cases hc'
  | queued hc' => rw [hc] at hc'; cases hc'
  | bound hc' => exact absurd hc hc'.1

/-- While its caller submits, a request has either none of its tasks queued, or all. -/
theorem Stage.of_submitting (h : Stage q v) (hc : v.req.caller = .submitting) :
    v.req.prep.WellFormed q ∧ v.req.sync.totalTasks = v.req.prep.tasks.length ∧
    v.req.bound = false ∧ v.req.handle = false ∧
    (v.attached = [] ∧ (v.submit = .refused ∨ v.submit = .pending v.req.prep.submission) ∨
      v.attached = v.req.prep.tasks.map ThreadPoolTask.taskArg ∧
        ((∃ sub, v.submit = .attached sub) ∨ v.submit = .accepted)) := by
  cases h with
  | unmade hc' => rcases hc' with hc' | ⟨_, _, hc'⟩ <;> rw [hc] at hc' <;> cases hc'
  | pending _ hp ht hb hh ha hs => exact ⟨hp, ht, hb, hh, .inl ⟨ha, hs⟩⟩
  | queued _ hp ht hb hh ha hs => exact ⟨hp, ht, hb, hh, .inr ⟨ha, hs⟩⟩
  | bound hc' => exact absurd hc hc'.2

/-- From its registration on, a request has all its tasks queued. -/
theorem Stage.of_bound (h : Stage q v)
    (hb : v.req.bound = true ∨ v.req.handle = true ∨ v.req.caller = .writing ∨
      v.req.caller = .prefilling ∨ ∃ st, v.req.caller = .failing st) :
    (v.req.caller ≠ .fresh ∧ v.req.caller ≠ .submitting) ∧ v.req.prep.WellFormed q ∧
    v.req.sync.totalTasks = v.req.prep.tasks.length ∧ v.req.bound = true ∧
    v.attached = v.req.prep.tasks.map ThreadPoolTask.taskArg := by
  cases h with
  | unmade hc hb' hh =>
    exfalso
    rcases hc with hc | ⟨_, _, hc⟩ <;> simp [hc, hb', hh] at hb
  | pending hc _ _ hb' hh => simp [hc, hb', hh] at hb
  | queued hc _ _ hb' hh => simp [hc, hb', hh] at hb
  | bound hc hp ht hb' ha => exact ⟨hc, hp, ht, hb', ha⟩

/-- A request with a queued task has at least one task. -/
theorem Stage.attached_ne_nil (h : Stage q v) (hn : v.attached ≠ []) :
    v.req.prep.WellFormed q ∧ v.req.sync.totalTasks = v.attached.length ∧ 0 < v.attached.length := by
  have hpos : 0 < v.attached.length := List.length_pos_of_ne_nil hn
  cases h with
  | unmade _ _ _ ha => exact absurd ha hn
  | pending _ _ _ _ _ ha => exact absurd ha hn
  | queued _ hp ht _ _ ha => exact ⟨hp, by rw [ht, ha, List.length_map], hpos⟩
  | bound _ hp ht _ ha => exact ⟨hp, by rw [ht, ha, List.length_map], hpos⟩

/-- One step keeps the stage of the caller. -/
theorem Stage.step (h : Stage q v) (hs : RequestStep q v v') : Stage q v' := by
  cases hs with
  | refuse hc =>
    obtain ⟨hb, hh, ha⟩ := h.of_fresh hc
    exact .unmade (.inr ⟨_, _, rfl⟩) hb hh ha
  | submit hc hp hs =>
    obtain ⟨hb, hh, ha⟩ := h.of_fresh hc
    exact .pending rfl hp rfl hb hh ha hs
  -- a section before the attach: the call is still pending
  | select hc hs hs' =>
    obtain ⟨hp, ht, hb, hh, ⟨ha, hph⟩ | ⟨-, hph⟩⟩ := h.of_submitting hc
    · refine .pending hc hp ht hb hh ha ?_
      rcases hph with hph | hph
      · rw [hph] at hs
        cases hs
      · rw [hph] at hs
        cases hs
        exact hs'
    · rcases hph with ⟨_, hph⟩ | hph <;> rw [hph] at hs <;> cases hs
  | attach hc hs =>
    obtain ⟨hp, ht, hb, hh, ⟨ha, hph⟩ | ⟨-, hph⟩⟩ := h.of_submitting hc
    · refine .queued hc hp ht hb hh ?_ (.inl ⟨_, rfl⟩)
      rcases hph with hph | hph
      · rw [hph] at hs
        cases hs
      · rw [hph] at hs
        cases hs
        show v.attached ++ _ = _
        rw [ha, List.nil_append]
        rfl
    · rcases hph with ⟨_, hph⟩ | hph <;> rw [hph] at hs <;> cases hs
  | record hc hs =>
    obtain ⟨hp, ht, hb, hh, ⟨-, hph⟩ | ⟨ha, -⟩⟩ := h.of_submitting hc
    · rcases hph with hph | hph <;> rw [hph] at hs <;> cases hs
    · exact .queued hc hp ht hb hh ha (.inr rfl)
  | register hc hs hn =>
    obtain ⟨hp, ht, hb, hh, ⟨-, hph⟩ | ⟨ha, -⟩⟩ := h.of_submitting hc
    · rcases hph with hph | hph <;> rw [hph] at hs <;> cases hs
    · refine .bound ?_ hp ht rfl ha
      rcases hn with rfl | rfl <;> simp
  | unregistered hc hs =>
    obtain ⟨hp, ht, hb, hh, ⟨ha, -⟩ | ⟨-, hph⟩⟩ := h.of_submitting hc
    · exact .unmade (.inr ⟨_, _, rfl⟩) hb hh ha
    · rcases hph with ⟨_, hph⟩ | hph <;> rw [hph] at hs <;> cases hs
  | post hc hn =>
    obtain ⟨-, hp, ht, hb, ha⟩ := h.of_bound (by
      rcases hc with hc | hc <;> simp [hc])
    refine .bound ?_ hp ht hb ha
    rcases hn with ⟨_, _, rfl⟩ | ⟨_, rfl⟩ <;> simp
  | fail hc =>
    obtain ⟨-, hp, ht, hb, ha⟩ := h.of_bound (by simp [hc])
    exact .bound (by simp [RequestView.setCaller]) hp ht hb ha
  | add _ hsync => exact h.congr rfl rfl rfl rfl (TaskSync.add_spec hsync).1.total rfl rfl
  | release _ hsync => exact h.congr rfl rfl rfl rfl (TaskSync.release_spec hsync).1.total rfl rfl
  | mark _ hsync => exact h.congr rfl rfl rfl rfl (TaskSync.mark_spec hsync).1.total rfl rfl
  | @status st =>
    obtain ⟨_, heq⟩ := TaskSync.updateUrmaStatus_eq (s := v.req.sync) st
    exact h.congr rfl rfl rfl rfl (by simp [RequestView.setSync, heq]) rfl rfl
  | recheck ho htotal => exact h.congr rfl rfl rfl rfl htotal rfl rfl
  | callWait | callCancel | check | unbound | timeout | condError | beginCancel | remove | counted
  | refusedWait | refusedCancel | addFree | request | ownerFree | removeOther | workerFree =>
    exact h.congr rfl rfl rfl rfl rfl rfl rfl

end Caller

/-! ## The owner

A wait or a cancel goes one way: it decides, cancels, adds what it has removed, and releases.  What
it has removed is in one of three places on the way: the cancel's answer, the number to be added,
and the object. -/

section Owner

variable {q : Nat} {v v' : RequestView}

/-- What the owner has counted as cancelled is what its cancel removed, or all that was left.
    `task_sync_add_canceled_tasks` counts no more than are missing from the total. -/
structure RequestView.Settled (v : RequestView) : Prop where
  le : v.req.sync.canceledTasks ≤ v.removedByOwner
  eq : v.req.sync.canceledTasks = v.removedByOwner ∨
    v.req.sync.totalTasks ≤ v.req.sync.completedTasks + v.req.sync.canceledTasks

/-- How far the owner is, and what it has counted. -/
inductive OwnerStage (v : RequestView) : Prop
  | before (ho : v.req.owner = .idle ∨ (∃ t, v.req.owner = .entering t) ∨
        (∃ t, v.req.owner = .blocked t) ∨ ∃ w, v.req.owner = .failed w ∧ w ≠ .ok)
      (hrel : v.req.sync.releaseRequested = false) (hcan : v.req.sync.canceledTasks = 0)
      (hrem : v.removedByOwner = 0)
  | cancelling {wait} (ho : v.req.owner = .cancelling wait) (hw : wait ≠ some .ok)
      (hrel : v.req.sync.releaseRequested = false) (hcan : v.req.sync.canceledTasks = 0)
      (hph : (v.cancel = .looked ∨ v.cancel = .refused) ∧ v.removedByOwner = 0 ∨
        v.cancel = .removed v.removedByOwner)
  | adding {n wait} (ho : v.req.owner = .adding n wait) (hw : wait ≠ some .ok)
      (hrel : v.req.sync.releaseRequested = false) (hcan : v.req.sync.canceledTasks = 0)
      (hn : n = v.removedByOwner)
  | releasing {wait} (ho : v.req.owner = .releasing wait)
      (hok : wait = some .ok → v.req.sync.totalTasks ≤ v.req.sync.completedTasks)
      (hrel : v.req.sync.releaseRequested = false) (hset : v.Settled)
  | released {ret} (ho : v.req.owner = .freeing ret ∨ v.req.owner = .returned ret)
      (hok : ∀ st, ret = .waited .ok st →
        v.req.sync.totalTasks ≤ v.req.sync.completedTasks ∧ st = urmaSuccess)
      (hrel : v.req.sync.releaseRequested = true) (hset : v.Settled)

/-- Steps of others leave the owner where it is. -/
theorem OwnerStage.congr (h : OwnerStage v) (howner : v'.req.owner = v.req.owner)
    (hrelease : v'.req.sync.releaseRequested = v.req.sync.releaseRequested)
    (hcanceled : v'.req.sync.canceledTasks = v.req.sync.canceledTasks)
    (htotal : v'.req.sync.totalTasks = v.req.sync.totalTasks)
    (hcompleted : v.req.sync.completedTasks ≤ v'.req.sync.completedTasks)
    (hcancel : v'.cancel = v.cancel) (hremoved : v'.removedByOwner = v.removedByOwner) :
    OwnerStage v' := by
  have hsettled : v.Settled → v'.Settled := by
    rintro ⟨hle, heq⟩
    refine ⟨by rw [hcanceled, hremoved]; exact hle, ?_⟩
    rw [hcanceled, hremoved, htotal]
    omega
  cases h with
  | before ho hrel hcan hrem =>
    exact .before (by rwa [howner]) (by rwa [hrelease]) (by rwa [hcanceled]) (by rwa [hremoved])
  | cancelling ho hw hrel hcan hph =>
    exact .cancelling (by rwa [howner]) hw (by rwa [hrelease]) (by rwa [hcanceled])
      (by rwa [hcancel, hremoved])
  | adding ho hw hrel hcan hn =>
    exact .adding (by rwa [howner]) hw (by rwa [hrelease]) (by rwa [hcanceled]) (by rwa [hremoved])
  | releasing ho hok hrel hset =>
    refine .releasing (by rwa [howner]) (fun hw => ?_) (by rwa [hrelease]) (hsettled hset)
    have := hok hw
    omega
  | released ho hok hrel hset =>
    refine .released (by rwa [howner]) (fun st hst => ?_) (by rwa [hrelease]) (hsettled hset)
    obtain ⟨hle, hst⟩ := hok st hst
    exact ⟨by omega, hst⟩

/-- Before its owner cancels, nothing of a request is cancelled or released. -/
theorem OwnerStage.of_before (h : OwnerStage v)
    (ho : v.req.owner = .idle ∨ (∃ t, v.req.owner = .entering t) ∨
      (∃ t, v.req.owner = .blocked t) ∨ ∃ w, v.req.owner = .failed w) :
    v.req.sync.releaseRequested = false ∧ v.req.sync.canceledTasks = 0 ∧ v.removedByOwner = 0 ∧
    ∀ w, v.req.owner = .failed w → w ≠ .ok := by
  cases h with
  | before ho' hrel hcan hrem =>
    refine ⟨hrel, hcan, hrem, fun w hw => ?_⟩
    rcases ho' with ho' | ⟨_, ho'⟩ | ⟨_, ho'⟩ | ⟨w', ho', hne⟩ <;> rw [hw] at ho' <;> cases ho'
    exact hne
  | cancelling ho' => simp [ho'] at ho
  | adding ho' => simp [ho'] at ho
  | releasing ho' => simp [ho'] at ho
  | released ho' => rcases ho' with ho' | ho' <;> simp [ho'] at ho

/-- Nobody cancels after a successful wait; and what is removed is in the cancel's answer. -/
theorem OwnerStage.of_cancelling {wait : Option WaitRet} (h : OwnerStage v)
    (ho : v.req.owner = .cancelling wait) :
    wait ≠ some .ok ∧ v.req.sync.releaseRequested = false ∧ v.req.sync.canceledTasks = 0 ∧
    ((v.cancel = .looked ∨ v.cancel = .refused) ∧ v.removedByOwner = 0 ∨
      v.cancel = .removed v.removedByOwner) := by
  cases h with
  | before ho' => rcases ho' with ho' | ⟨_, ho'⟩ | ⟨_, ho'⟩ | ⟨_, ho', -⟩ <;> rw [ho] at ho' <;> cases ho'
  | cancelling ho' hw hrel hcan hph =>
    rw [ho] at ho'
    cases ho'
    exact ⟨hw, hrel, hcan, hph⟩
  | adding ho' => rw [ho] at ho'; cases ho'
  | releasing ho' => rw [ho] at ho'; cases ho'
  | released ho' => rcases ho' with ho' | ho' <;> rw [ho] at ho' <;> cases ho'

/-- What is about to be added is what the owner has removed. -/
theorem OwnerStage.of_adding {n : Nat} {wait : Option WaitRet} (h : OwnerStage v)
    (ho : v.req.owner = .adding n wait) :
    wait ≠ some .ok ∧ v.req.sync.releaseRequested = false ∧ v.req.sync.canceledTasks = 0 ∧
    n = v.removedByOwner := by
  cases h with
  | before ho' => rcases ho' with ho' | ⟨_, ho'⟩ | ⟨_, ho'⟩ | ⟨_, ho', -⟩ <;> rw [ho] at ho' <;> cases ho'
  | cancelling ho' => rw [ho] at ho'; cases ho'
  | adding ho' hw hrel hcan hn =>
    rw [ho] at ho'
    cases ho'
    exact ⟨hw, hrel, hcan, hn⟩
  | releasing ho' => rw [ho] at ho'; cases ho'
  | released ho' => rcases ho' with ho' | ho' <;> rw [ho] at ho' <;> cases ho'

/-- What has been removed is accounted for when the release comes. -/
theorem OwnerStage.of_releasing {wait : Option WaitRet} (h : OwnerStage v)
    (ho : v.req.owner = .releasing wait) :
    (wait = some .ok → v.req.sync.totalTasks ≤ v.req.sync.completedTasks) ∧
    v.req.sync.releaseRequested = false ∧ v.Settled := by
  cases h with
  | before ho' => rcases ho' with ho' | ⟨_, ho'⟩ | ⟨_, ho'⟩ | ⟨_, ho', -⟩ <;> rw [ho] at ho' <;> cases ho'
  | cancelling ho' => rw [ho] at ho'; cases ho'
  | adding ho' => rw [ho] at ho'; cases ho'
  | releasing ho' hok hrel hset =>
    rw [ho] at ho'
    cases ho'
    exact ⟨hok, hrel, hset⟩
  | released ho' => rcases ho' with ho' | ho' <;> rw [ho] at ho' <;> cases ho'

/-- A wait that reports success has seen all tasks complete. -/
theorem OwnerStage.of_released {ret : OwnerRet} (h : OwnerStage v)
    (ho : v.req.owner = .freeing ret ∨ v.req.owner = .returned ret) :
    (∀ st, ret = .waited .ok st →
      v.req.sync.totalTasks ≤ v.req.sync.completedTasks ∧ st = urmaSuccess) ∧
    v.req.sync.releaseRequested = true ∧ v.Settled := by
  cases h with
  | before ho' =>
    rcases ho' with ho' | ⟨_, ho'⟩ | ⟨_, ho'⟩ | ⟨_, ho', -⟩ <;> simp [ho'] at ho
  | cancelling ho' => simp [ho'] at ho
  | adding ho' => simp [ho'] at ho
  | releasing ho' => simp [ho'] at ho
  | released ho' hok hrel hset =>
    refine ⟨?_, hrel, hset⟩
    rcases ho' with ho' | ho' <;> simp only [ho', OwnerPc.freeing.injEq, OwnerPc.returned.injEq,
      reduceCtorEq, or_false, false_or] at ho <;> subst ho <;> exact hok

/-- The phases the owner of a bound request never enters. -/
theorem OwnerStage.ne (h : OwnerStage v) (wait : Option WaitRet) :
    v.req.owner ≠ .addFreeing wait ∧ v.req.owner ≠ .requesting ∧ v.req.owner ≠ .rechecking := by
  cases h with
  | before ho' => rcases ho' with ho' | ⟨_, ho'⟩ | ⟨_, ho'⟩ | ⟨_, ho', -⟩ <;> simp [ho']
  | cancelling ho' => simp [ho']
  | adding ho' => simp [ho']
  | releasing ho' => simp [ho']
  | released ho' => rcases ho' with ho' | ho' <;> simp [ho']

/-- The part of the invariant about the owner. -/
structure Owned (v : RequestView) : Prop where
  active : v.req.owner ≠ .idle →
    v.req.handle = true ∧ ∃ ok st, v.req.caller = .returned ok st
  stage : OwnerStage v

/-- While the caller is on its way nobody uses the handle. -/
theorem Owned.idle (h : Owned v) (hc : ∀ ok st, v.req.caller ≠ .returned ok st) :
    v.req.owner = .idle := by
  by_contra hne
  obtain ⟨-, ok, st, hret⟩ := h.active hne
  exact hc ok st hret

/-- A step of the caller keeps the owner's part. -/
theorem Owned.caller (h : Owned v) (hc : ∀ ok st, v.req.caller ≠ .returned ok st)
    (howner : v'.req.owner = v.req.owner)
    (hrelease : v'.req.sync.releaseRequested = v.req.sync.releaseRequested)
    (hcanceled : v'.req.sync.canceledTasks = v.req.sync.canceledTasks)
    (hremoved : v'.removedByOwner = v.removedByOwner) : Owned v' := by
  have hidle := h.idle hc
  obtain ⟨hrel, hcan, hrem, -⟩ := h.stage.of_before (.inl hidle)
  exact ⟨fun hne => absurd (howner.trans hidle) hne,
    .before (.inl (howner.trans hidle)) (hrelease.trans hrel) (hcanceled.trans hcan)
      (hremoved.trans hrem)⟩

/-- A step of a worker or of another request's cancel keeps the owner's part. -/
theorem Owned.congr (h : Owned v) (howner : v'.req.owner = v.req.owner)
    (hcaller : v'.req.caller = v.req.caller) (hhandle : v'.req.handle = v.req.handle)
    (hrelease : v'.req.sync.releaseRequested = v.req.sync.releaseRequested)
    (hcanceled : v'.req.sync.canceledTasks = v.req.sync.canceledTasks)
    (htotal : v'.req.sync.totalTasks = v.req.sync.totalTasks)
    (hcompleted : v.req.sync.completedTasks ≤ v'.req.sync.completedTasks)
    (hcancel : v'.cancel = v.cancel) (hremoved : v'.removedByOwner = v.removedByOwner) : Owned v' :=
  ⟨fun hne => by rw [hhandle, hcaller]; exact h.active (by rwa [howner] at hne),
    h.stage.congr howner hrelease hcanceled htotal hcompleted hcancel hremoved⟩

/-- A verdict of `ok` says that all tasks have completed, and that nobody gave up. -/
theorem TaskSync.verdict_ok {s : TaskSync} (h : s.verdict = .ok) :
    s.completedTasks = s.totalTasks ∧ s.requestCanceled = false ∧ s.requestTimedout = false := by
  unfold TaskSync.verdict at h
  split at h
  · rename_i hc
    simpa using hc
  · cases h

/-- A check of `request_completed` ends the wait, or puts it back to sleep. -/
theorem OwnerStage.check {timed : Bool} (h : OwnerStage v)
    (ho : v.req.owner = .entering timed ∨ v.req.owner = .blocked timed) :
    OwnerStage (v.setOwner (Transport.checkCompleted v.req timed)) := by
  obtain ⟨hrel, hcan, hrem, -⟩ := h.of_before (by
    rcases ho with ho | ho <;> simp [ho])
  unfold Transport.checkCompleted
  split
  · cases hv : v.req.sync.verdict with
    | ok =>
      refine .releasing rfl (fun _ => ?_) hrel ⟨Nat.le_of_eq (hcan.trans hrem.symm), .inl (hcan.trans hrem.symm)⟩
      exact Nat.le_of_eq (TaskSync.verdict_ok hv).1.symm
    | timeout => exact .before (.inr (.inr (.inr ⟨_, rfl, by simp⟩))) hrel hcan hrem
    | error => exact .before (.inr (.inr (.inr ⟨_, rfl, by simp⟩))) hrel hcan hrem
  · exact .before (.inr (.inr (.inl ⟨_, rfl⟩))) hrel hcan hrem

/-- A cancel has begun. -/
theorem OwnerStage.begin {wait : Option WaitRet} {cancel : CancelPhase} (h : OwnerStage v)
    (ho : v.req.owner = .idle ∨ ∃ w, v.req.owner = .failed w) (hw : wait ≠ some .ok)
    (hb : cancel.Begun) : OwnerStage { v.setOwner (.cancelling wait) with cancel } := by
  obtain ⟨hrel, hcan, hrem, -⟩ := h.of_before (by
    rcases ho with ho | ⟨_, ho⟩ <;> simp [ho])
  refine .cancelling rfl hw hrel hcan ?_
  show (cancel = _ ∨ cancel = _) ∧ v.removedByOwner = 0 ∨ cancel = .removed v.removedByOwner
  rcases hb with rfl | rfl | rfl
  · exact .inl ⟨.inl rfl, hrem⟩
  · exact .inr (by rw [hrem])
  · exact .inl ⟨.inr rfl, hrem⟩

/-- A wait that gives up has nothing cancelled yet. -/
theorem OwnerStage.fail {timed : Bool} {wait : WaitRet} (h : OwnerStage v)
    (ho : v.req.owner = .blocked timed) (ho' : v'.req.owner = .failed wait) (hne : wait ≠ .ok)
    (hrelease : v'.req.sync.releaseRequested = v.req.sync.releaseRequested)
    (hcanceled : v'.req.sync.canceledTasks = v.req.sync.canceledTasks)
    (hremoved : v'.removedByOwner = v.removedByOwner) : OwnerStage v' := by
  obtain ⟨hrel, hcan, hrem, -⟩ := h.of_before (by simp [ho])
  exact .before (.inr (.inr (.inr ⟨_, ho', hne⟩))) (hrelease.trans hrel) (hcanceled.trans hcan)
    (hremoved.trans hrem)

/-- What the cancel removes now is what the owner will add to the canceled tasks. -/
theorem OwnerStage.remove {wait : Option WaitRet} {n k : Nat} (h : OwnerStage v)
    (ho : v.req.owner = .cancelling wait) (hl : v.cancel = .looked) :
    OwnerStage { v with
      cancel := .removed n
      removedByOwner := v.removedByOwner + n
      ownRemoved := v.ownRemoved + k
      removed := v.removed + k } := by
  obtain ⟨hw, hrel, hcan, hph⟩ := h.of_cancelling ho
  refine .cancelling ho hw hrel hcan (.inr ?_)
  rcases hph with ⟨-, hrem⟩ | hph
  · show CancelPhase.removed n = .removed (v.removedByOwner + n)
    rw [hrem, Nat.zero_add]
  · rw [hl] at hph
    cases hph

theorem OwnerStage.counted {wait : Option WaitRet} {n : Nat} (h : OwnerStage v)
    (ho : v.req.owner = .cancelling wait) (hn : v.cancel = .removed n) :
    OwnerStage { v.setOwner (.adding n wait) with cancel := .other } := by
  obtain ⟨hw, hrel, hcan, hph⟩ := h.of_cancelling ho
  refine .adding rfl hw hrel hcan ?_
  rw [hn] at hph
  rcases hph with ⟨hph | hph, -⟩ | hph <;> cases hph
  rfl

/-- A refused cancel has removed nothing. -/
theorem OwnerStage.removed_of_refused {wait : Option WaitRet} (h : OwnerStage v)
    (ho : v.req.owner = .cancelling wait) (hn : v.cancel = .refused) : v.removedByOwner = 0 := by
  obtain ⟨-, -, -, hph⟩ := h.of_cancelling ho
  rw [hn] at hph
  rcases hph with ⟨-, hrem⟩ | hph
  · exact hrem
  · cases hph

/-- The cancelled tasks are counted. -/
theorem OwnerStage.add {n : Nat} {wait : Option WaitRet} {sync : TaskSync} {shouldFree : Bool}
    (h : OwnerStage v) (ho : v.req.owner = .adding n wait)
    (hsync : v.req.sync.addCanceledTasks n (wait == some .timeout) = (sync, shouldFree)) :
    shouldFree = false ∧ OwnerStage ((v.setSync sync).setOwner (.releasing wait)) := by
  obtain ⟨hw, hrel, hcan, rfl⟩ := h.of_adding ho
  obtain ⟨hlater, hhand, hcompleted, hcanceled, hrelease, -⟩ := TaskSync.add_spec hsync
  have hfree : shouldFree = false := by
    by_contra hne
    have hready := (hhand.ready (by simpa using hne)).2
    simp [TaskSync.ready, hrelease, hrel] at hready
  refine ⟨hfree, .releasing rfl (fun hok => absurd hok hw) (hrelease.trans hrel) ⟨?_, ?_⟩⟩
  · show sync.canceledTasks ≤ v.removedByOwner
    omega
  · show sync.canceledTasks = v.removedByOwner ∨
      sync.totalTasks ≤ sync.completedTasks + sync.canceledTasks
    have ht := hlater.total
    omega

/-- After the release the owner frees, or returns. -/
theorem freeing_or_returned (f : Bool) (ret : OwnerRet) :
    (if f then OwnerPc.freeing ret else .returned ret) = .freeing ret ∨
      (if f then OwnerPc.freeing ret else .returned ret) = .returned ret := by
  cases f
  · exact .inr rfl
  · exact .inl rfl

/-- The release is requested. -/
theorem OwnerStage.release {wait : Option WaitRet} {sync : TaskSync} {shouldFree : Bool}
    (h : OwnerStage v) (ho : v.req.owner = .releasing wait)
    (hsync : v.req.sync.requestRelease = (sync, shouldFree)) :
    OwnerStage ((v.setSync sync).setOwner
      (if shouldFree then .freeing (Transport.ownerRet wait v.req.sync.urmaStatus)
        else .returned (Transport.ownerRet wait v.req.sync.urmaStatus))) := by
  obtain ⟨hok, -, hset⟩ := h.of_releasing ho
  obtain ⟨hlater, -, hcompleted, hcanceled, -, hrelease⟩ := TaskSync.release_spec hsync
  refine .released (freeing_or_returned shouldFree _) (fun st hst => ?_) hrelease ?_
  · cases wait with
    | none => cases hst
    | some wait =>
      simp only [Transport.ownerRet, OwnerRet.waited.injEq] at hst
      obtain ⟨hwait, rfl⟩ := hst
      split at hwait
      · rename_i hsuccess
        refine ⟨?_, hsuccess⟩
        show sync.totalTasks ≤ sync.completedTasks
        have := hok (by rw [hwait])
        rw [hlater.total, hcompleted]
        exact this
      · cases hwait
  · refine ⟨?_, ?_⟩
    · show sync.canceledTasks ≤ v.removedByOwner
      rw [hcanceled]
      exact hset.le
    · show sync.canceledTasks = v.removedByOwner ∨
        sync.totalTasks ≤ sync.completedTasks + sync.canceledTasks
      rw [hcanceled, hlater.total, hcompleted]
      exact hset.eq

/-- A phase between the call on the handle and its return. -/
theorem Owned.active_of (h : Owned v) {pc : OwnerPc} (ho : v.req.owner = pc) (hne : pc ≠ .idle) :
    v.req.handle = true ∧ ∃ ok st, v.req.caller = .returned ok st :=
  h.active (by rwa [ho])

/-- One step keeps the owner's part. -/
theorem Owned.step (h : Owned v) (hstage : Stage q v) (hs : RequestStep q v v') : Owned v' := by
  cases hs with
  | refuse hc | submit hc | select hc | attach hc | record hc | register hc | unregistered hc
  | fail hc =>
    have hret : ∀ ok st, v.req.caller ≠ .returned ok st := by simp [hc]
    have hidle := h.idle hret
    obtain ⟨hrel, hcan, -, -⟩ := h.stage.of_before (.inl hidle)
    exact h.caller hret rfl (by first | rfl | exact hrel.symm) (by first | rfl | exact hcan.symm) rfl
  | post hc =>
    refine h.caller ?_ rfl rfl rfl rfl
    rcases hc with hc | hc <;> simp [hc]
  | callWait hh hc ho =>
    obtain ⟨hrel, hcan, hrem, -⟩ := h.stage.of_before (.inl ho)
    exact ⟨fun _ => ⟨hh, hc⟩, .before (.inr (.inl ⟨_, rfl⟩)) hrel hcan hrem⟩
  | callCancel hh hc ho hb => exact ⟨fun _ => ⟨hh, hc⟩, h.stage.begin (.inl ho) (by simp) hb⟩
  | @check timed ho =>
    have hact : v.req.handle = true ∧ ∃ ok st, v.req.caller = .returned ok st := by
      rcases ho with ho | ho <;> exact h.active_of ho (by simp)
    exact ⟨fun _ => hact, h.stage.check ho⟩
  -- a request whose handle is set is bound
  | unbound ho hb =>
    obtain ⟨hh, -⟩ := h.active_of ho (by simp)
    obtain ⟨-, -, -, hb', -⟩ := hstage.of_bound (.inr (.inl hh))
    rw [hb] at hb'
    cases hb'
  | timeout ho | condError ho =>
    exact ⟨fun _ => h.active_of ho (by simp), h.stage.fail ho rfl (by simp) rfl rfl rfl⟩
  | @beginCancel wait cancel ho hb =>
    obtain ⟨-, -, -, hne⟩ := h.stage.of_before (.inr (.inr (.inr ⟨_, ho⟩)))
    refine ⟨fun _ => h.active_of ho (by simp), h.stage.begin (.inr ⟨_, ho⟩) ?_ hb⟩
    intro hw
    exact hne _ ho (Option.some.inj hw)
  | remove ho hl => exact ⟨fun _ => h.active_of ho (by simp), h.stage.remove ho hl⟩
  | counted ho hn => exact ⟨fun _ => h.active_of ho (by simp), h.stage.counted ho hn⟩
  | refusedWait ho hn =>
    obtain ⟨hw, hrel, hcan, -⟩ := h.stage.of_cancelling ho
    exact ⟨fun _ => h.active_of ho (by simp),
      .adding rfl hw hrel hcan (h.stage.removed_of_refused ho hn).symm⟩
  | refusedCancel ho hn =>
    obtain ⟨-, hrel, hcan, -⟩ := h.stage.of_cancelling ho
    exact ⟨fun hne => absurd rfl hne,
      .before (.inl rfl) hrel hcan (h.stage.removed_of_refused ho hn)⟩
  | add ho hsync =>
    obtain ⟨rfl, hstage'⟩ := h.stage.add ho hsync
    exact ⟨fun _ => h.active_of ho (by simp), hstage'⟩
  -- an owner that adds has not asked for the release, so it never frees there
  | addFree ho => exact absurd ho (h.stage.ne _).1
  | release ho hsync => exact ⟨fun _ => h.active_of ho (by simp), h.stage.release ho hsync⟩
  | request ho => exact absurd ho (h.stage.ne none).2.1
  | recheck ho => exact absurd ho (h.stage.ne none).2.2
  | ownerFree ho =>
    obtain ⟨hok, hrel, hset⟩ := h.stage.of_released (.inl ho)
    exact ⟨fun _ => h.active_of ho (by simp), .released (.inr rfl) hok hrel ⟨hset.le, hset.eq⟩⟩
  | removeOther => exact h.congr rfl rfl rfl rfl rfl rfl (Nat.le_refl _) rfl rfl
  | @status st =>
    obtain ⟨_, heq⟩ := TaskSync.updateUrmaStatus_eq (s := v.req.sync) st
    refine h.congr rfl rfl rfl ?_ ?_ ?_ ?_ rfl rfl <;> simp [RequestView.setSync, heq]
  | mark hw hsync =>
    obtain ⟨hlater, -, -, hcanceled, hrelease, -⟩ := TaskSync.mark_spec hsync
    exact h.congr rfl rfl rfl hrelease hcanceled hlater.total hlater.completed rfl rfl
  | workerFree hw => exact h.congr rfl rfl rfl rfl rfl rfl (Nat.le_refl _) rfl rfl

end Owner

/-! ## The counters

Every task that has ended is counted, in the order of its sections. -/

section Counters

variable {q : Nat} {v v' : RequestView}

/-- The counters of the shared object against what happened.  Only a success is counted; a failed
    task completes the request at once and is on no counter. -/
structure Counted (v : RequestView) : Prop where
  completed : v.req.sync.completedTasks = v.succeeded
  failed : 0 < v.failed → v.req.sync.requestCompleted = true
  accounted : v.attached ≠ [] → v.req.sync.allTasksAccounted = true →
    v.req.sync.requestCompleted = true
  rest : v.req.sync.shouldFree = false

/-- Steps that touch no counter. -/
theorem Counted.congr (h : Counted v) (hsync : v'.req.sync = v.req.sync)
    (hattached : v'.attached = v.attached) (hsucceeded : v'.succeeded = v.succeeded)
    (hfailed : v'.failed = v.failed) : Counted v' :=
  ⟨by rw [hsync, hsucceeded]; exact h.completed, by rw [hsync, hfailed]; exact h.failed,
    by rw [hsync, hattached]; exact h.accounted, by rw [hsync]; exact h.rest⟩

/-- Without a request for the release the object stays. -/
theorem rest_of_not_requested {s : TaskSync} (h : s.releaseRequested = false) :
    s.shouldFree = false ∧ s.ready = false := by
  simp [TaskSync.shouldFree, TaskSync.ready, h]

/-- Nothing has ended of a request without queued tasks. -/
theorem RequestView.Fits.zero (h : v.Fits) (ha : v.attached = []) :
    v.succeeded = 0 ∧ v.failed = 0 ∧ v.removed = 0 := by
  unfold RequestView.Fits at h
  rw [ha, List.length_nil] at h
  omega

/-- The tasks of a request are queued when none has been counted. -/
theorem Counted.attach {submit : SubmitPhase ArgPtr} {ptrs : List ArgPtr} (h : Counted v)
    (hfits : v.Fits) (ha : v.attached = []) (hcan : v.req.sync.canceledTasks = 0)
    (ht : 0 < v.req.sync.totalTasks) :
    Counted { v with submit, attached := v.attached ++ ptrs } := by
  refine ⟨h.completed, h.failed, fun _ hacc => ?_, h.rest⟩
  obtain ⟨hzero, -, -⟩ := hfits.zero ha
  have hle := (TaskSync.allTasksAccounted_iff ht).mp hacc
  have hcompleted := h.completed
  omega

/-- A task that ends is counted, as success or as failure. -/
theorem Counted.mark {w : Nat} {success shouldFree : Bool} {sync : TaskSync} (h : Counted v)
    (hsync : v.req.sync.markTaskGroupCompleted success = (sync, shouldFree)) :
    Counted { v.setSync sync with
      succeeded := v.succeeded + success.toNat
      failed := v.failed + (!success).toNat
      freer := Function.update v.freer w shouldFree } := by
  obtain ⟨hlater, hhand, hcompleted, hcanceled, -, -, hdone⟩ := TaskSync.mark_spec hsync
  refine ⟨?_, ?_, fun _ hacc => hdone (.inr hacc), hhand.rest⟩
  · show sync.completedTasks = v.succeeded + success.toNat
    rw [hcompleted, h.completed]
  · intro hfailed
    cases success with
    | true => exact hlater.requestCompleted (h.failed hfailed)
    | false => exact hdone (.inl rfl)

/-- One step keeps the counters right. -/
theorem Counted.step (h : Counted v) (hstage : Stage q v) (howned : Owned v) (hfits : v.Fits)
    (hs : RequestStep q v v') : Counted v' := by
  cases hs with
  | submit hc hp hs =>
    obtain ⟨-, -, ha⟩ := hstage.of_fresh hc
    obtain ⟨hsucceeded, hfailed, -⟩ := hfits.zero ha
    refine ⟨hsucceeded.symm, fun hpos => ?_, fun hne => absurd ha hne, rfl⟩
    exact absurd hpos (by show ¬ 0 < v.failed; omega)
  | attach hc hs =>
    obtain ⟨hp, ht, -, -, ⟨ha, -⟩ | ⟨-, hph⟩⟩ := hstage.of_submitting hc
    · have hidle := howned.idle (by simp [hc])
      obtain ⟨-, hcan, -, -⟩ := howned.stage.of_before (.inl hidle)
      exact h.attach hfits ha hcan (by rw [ht, hp.tasks_length]; exact hp.chunks_pos)
    · rcases hph with ⟨_, hph⟩ | hph <;> rw [hph] at hs <;> cases hs
  | fail hc =>
    have hidle := howned.idle (by simp [hc])
    obtain ⟨hrel, -, -, -⟩ := howned.stage.of_before (.inl hidle)
    exact ⟨h.completed, fun _ => rfl, fun _ _ => rfl,
      (rest_of_not_requested (s := v.req.sync.complete) hrel).1⟩
  | add ho hsync =>
    obtain ⟨hlater, hhand, hcompleted, -, -, hdone⟩ := TaskSync.add_spec hsync
    exact ⟨hcompleted.trans h.completed, fun hf => hlater.requestCompleted (h.failed hf),
      fun _ => hdone, hhand.rest⟩
  | @release wait sync shouldFree ho hsync =>
    obtain ⟨hlater, hhand, hcompleted, hcanceled, -⟩ := TaskSync.release_spec hsync
    refine ⟨hcompleted.trans h.completed, fun hf => hlater.requestCompleted (h.failed hf),
      fun hne hacc => hlater.requestCompleted (h.accounted hne ?_), hhand.rest⟩
    have hacc' : sync.allTasksAccounted = true := hacc
    rw [← hacc']
    simp only [TaskSync.allTasksAccounted, hlater.total, hcompleted, hcanceled]
  | timeout ho =>
    obtain ⟨hrel, -, -, -⟩ := howned.stage.of_before (by simp [ho])
    exact ⟨h.completed, h.failed, h.accounted,
      (rest_of_not_requested (s := v.req.sync.setTimedout) hrel).1⟩
  | @status st =>
    obtain ⟨_, heq⟩ := TaskSync.updateUrmaStatus_eq (s := v.req.sync) st
    rw [heq]
    exact ⟨h.completed, h.failed, h.accounted, h.rest⟩
  | mark hw hsync => exact h.mark hsync
  | request ho => exact absurd ho (howned.stage.ne none).2.1
  | recheck ho => exact absurd ho (howned.stage.ne none).2.2
  | refuse | select | record | register | unregistered | post | callWait | callCancel | check
  | unbound | condError | beginCancel | remove | counted | refusedWait | refusedCancel | addFree
  | ownerFree | removeOther | workerFree => exact h.congr rfl rfl rfl rfl

end Counters

/-! ## The right to free the object

`freeing` is set once, by the section that finds the object ready; who ran that section has the
token. -/

section Freeing

variable {q : Nat} {v v' : RequestView}

/-- The owner has the right to free the object. -/
def OwnerPc.holds : OwnerPc → Nat
  | .addFreeing _ => 1
  | .freeing _ => 1
  | _ => 0

/-- The object is taken once, when it is ready, and then either a thread is about to free it or one
    has freed it.  `freeing` is set under the lock and the memory released after it, so the one who
    frees is known in between. -/
structure Token (v : RequestView) : Prop where
  ready : v.req.sync.freeing = true → v.req.sync.ready = true
  held : ∃ m, HasTotal Bool.toNat v.freer m ∧
    v.req.freed + m + v.req.owner.holds = v.req.sync.freeing.toNat

/-- Steps that leave the object and its holders alone. -/
theorem Token.congr (h : Token v) (hready : v.req.sync.ready = true → v'.req.sync.ready = true)
    (hfreeing : v'.req.sync.freeing = v.req.sync.freeing)
    (hholds : v'.req.owner.holds = v.req.owner.holds) (hfreed : v'.req.freed = v.req.freed)
    (hfreer : v'.freer = v.freer) : Token v' :=
  ⟨fun hf => hready (h.ready (by rwa [hfreeing] at hf)),
    by rw [hfreer, hfreed, hholds, hfreeing]; exact h.held⟩

/-- Nobody frees an object whose release has not been requested. -/
theorem Token.free (h : Token v) (hrel : v.req.sync.releaseRequested = false) :
    v.req.sync.freeing = false := by
  by_contra hne
  have hready := h.ready (by simpa using hne)
  rw [(rest_of_not_requested hrel).2] at hready
  cases hready

/-- The worker whose mark makes the object ready is the one to free it. -/
theorem Token.mark {w : Nat} {success shouldFree : Bool} {sync : TaskSync} {n m : Nat} (h : Token v)
    (hw : v.freer w = false)
    (hsync : v.req.sync.markTaskGroupCompleted success = (sync, shouldFree)) :
    Token { v.setSync sync with
      succeeded := n
      failed := m
      freer := Function.update v.freer w shouldFree } := by
  obtain ⟨hlater, hhand, -⟩ := TaskSync.mark_spec hsync
  obtain ⟨k, hk, heq⟩ := h.held
  refine ⟨fun hf => ?_, k + shouldFree.toNat, hk.update (by rw [hw]; rfl), ?_⟩
  · have hf' : sync.freeing = true := hf
    rw [hhand.freeing_eq, Bool.or_eq_true] at hf'
    rcases hf' with hf' | hf'
    · exact hlater.ready (h.ready hf')
    · exact (hhand.ready hf').2
  · show v.req.freed + (k + shouldFree.toNat) + v.req.owner.holds = sync.freeing.toNat
    rw [hhand.freeing_eq]
    cases shouldFree with
    | false => simpa using heq
    | true =>
      rw [(hhand.ready rfl).1] at heq ⊢
      simp only [Bool.toNat_false, Bool.toNat_true, Bool.or_true] at heq ⊢
      omega

/-- The owner whose release makes it ready is the one to free it. -/
theorem Token.release {wait : Option WaitRet} {sync : TaskSync} {shouldFree : Bool} (h : Token v)
    (ho : v.req.owner = .releasing wait) (hsync : v.req.sync.requestRelease = (sync, shouldFree))
    (ret : OwnerRet) :
    Token ((v.setSync sync).setOwner (if shouldFree then .freeing ret else .returned ret)) := by
  obtain ⟨hlater, hhand, -⟩ := TaskSync.release_spec hsync
  obtain ⟨k, hk, heq⟩ := h.held
  refine ⟨fun hf => ?_, k, hk, ?_⟩
  · have hf' : sync.freeing = true := hf
    rw [hhand.freeing_eq, Bool.or_eq_true] at hf'
    rcases hf' with hf' | hf'
    · exact hlater.ready (h.ready hf')
    · exact (hhand.ready hf').2
  · show v.req.freed + k + OwnerPc.holds (if shouldFree then .freeing ret else .returned ret)
      = sync.freeing.toNat
    rw [ho] at heq
    rw [hhand.freeing_eq]
    cases shouldFree with
    | false => simpa [OwnerPc.holds] using heq
    | true =>
      rw [(hhand.ready rfl).1] at heq ⊢
      simp only [OwnerPc.holds, if_true, Bool.toNat_false, Bool.toNat_true, Bool.or_true] at heq ⊢
      omega

/-- A worker with the token frees the object. -/
theorem Token.workerFree {w : Nat} (h : Token v) (hw : v.freer w = true) :
    Token { v with
      req := { v.req with freed := v.req.freed + 1 }
      freer := Function.update v.freer w false } := by
  obtain ⟨k, hk, heq⟩ := h.held
  have hpos : (v.freer w).toNat ≤ k := hk.le w
  rw [hw, Bool.toNat_true] at hpos
  obtain ⟨k, rfl⟩ := Nat.exists_eq_add_of_le' hpos
  refine ⟨h.ready, k, hk.update (by rw [hw]; rfl), ?_⟩
  show v.req.freed + 1 + k + v.req.owner.holds = v.req.sync.freeing.toNat
  omega

/-- One step keeps the books of who has taken the object and who has freed it. -/
theorem Token.step (h : Token v) (howned : Owned v) (hs : RequestStep q v v') : Token v' := by
  cases hs with
  | submit hc hp hs =>
    have hidle := howned.idle (by simp [hc])
    obtain ⟨hrel, -, -, -⟩ := howned.stage.of_before (.inl hidle)
    have hfree := h.free hrel
    obtain ⟨m, hm, heq⟩ := h.held
    rw [hfree] at heq
    exact ⟨fun hf => (by cases hf), m, hm, heq⟩
  | fail hc =>
    have hidle := howned.idle (by simp [hc])
    obtain ⟨hrel, -, -, -⟩ := howned.stage.of_before (.inl hidle)
    refine h.congr (fun hr => ?_) rfl rfl rfl rfl
    rw [(rest_of_not_requested hrel).2] at hr
    cases hr
  | @check timed ho =>
    refine h.congr id rfl ?_ rfl rfl
    show OwnerPc.holds (Transport.checkCompleted v.req timed) = v.req.owner.holds
    have hzero : v.req.owner.holds = 0 := by rcases ho with ho | ho <;> rw [ho] <;> rfl
    rw [hzero]
    unfold Transport.checkCompleted
    split
    · split <;> rfl
    · rfl
  | add ho hsync =>
    obtain ⟨hlater, hhand, -⟩ := TaskSync.add_spec hsync
    obtain ⟨rfl, -⟩ := howned.stage.add ho hsync
    exact h.congr hlater.ready (hhand.freeing_eq.trans (Bool.or_false _)) (by rw [ho]; rfl) rfl rfl
  | release ho hsync => exact h.release ho hsync _
  | ownerFree ho =>
    obtain ⟨k, hk, heq⟩ := h.held
    rw [ho] at heq
    refine ⟨h.ready, k, hk, ?_⟩
    show v.req.freed + 1 + k + 0 = v.req.sync.freeing.toNat
    rw [← heq]
    show _ = v.req.freed + k + 1
    omega
  | @status st =>
    obtain ⟨_, heq⟩ := TaskSync.updateUrmaStatus_eq (s := v.req.sync) st
    rw [heq]
    exact ⟨h.ready, h.held⟩
  | mark hw hsync => exact h.mark hw hsync
  | workerFree hw => exact h.workerFree hw
  | addFree ho => exact absurd ho (howned.stage.ne _).1
  | request ho => exact absurd ho (howned.stage.ne none).2.1
  | recheck ho => exact absurd ho (howned.stage.ne none).2.2
  | callWait hh hc ho | callCancel hh hc ho hb | unbound ho hb | timeout ho | condError ho
  | beginCancel ho hb | counted ho hn | refusedWait ho hn | refusedCancel ho hn =>
    exact h.congr id rfl (by rw [ho]; rfl) rfl rfl
  | refuse | select | attach | record | register | unregistered | post | remove | removeOther =>
    exact h.congr id rfl rfl rfl rfl

end Freeing

/-! ## Calls into the pool

A caller is in the pool only while it submits, an owner only while it cancels. -/

section Calls

variable {q : Nat} {v v' : RequestView}

/-- Neither party is in the pool outside its phase. -/
structure Silent (v : RequestView) : Prop where
  submit : v.req.caller ≠ .submitting → v.submit = .other
  cancel : (∀ wait, v.req.owner ≠ .cancelling wait) → v.cancel = .other

/-- One step keeps a request silent in the pool while it is in no call. -/
theorem Silent.step (h : Silent v) (hs : RequestStep q v v') : Silent v' := by
  cases hs with
  | submit hc => exact ⟨fun hne => absurd rfl hne, h.cancel⟩
  | select hc | attach hc | record hc => exact ⟨fun hne => absurd hc hne, h.cancel⟩
  | register | unregistered => exact ⟨fun _ => rfl, h.cancel⟩
  | refuse hc | fail hc => exact ⟨fun _ => h.submit (by simp [hc]), h.cancel⟩
  | post hc => exact ⟨fun _ => h.submit (by rcases hc with hc | hc <;> simp [hc]), h.cancel⟩
  | callCancel | beginCancel => exact ⟨h.submit, fun hne => absurd rfl (hne _)⟩
  | remove ho => exact ⟨h.submit, fun hne => absurd ho (hne _)⟩
  | counted | refusedWait | refusedCancel => exact ⟨h.submit, fun _ => rfl⟩
  | callWait _ _ ho | unbound ho | timeout ho | condError ho | add ho | addFree ho | release ho
  | request ho | recheck ho | ownerFree ho =>
    exact ⟨h.submit, fun _ => h.cancel (by simp [ho])⟩
  | check ho =>
    exact ⟨h.submit, fun _ => h.cancel (by rcases ho with ho | ho <;> simp [ho])⟩
  | removeOther | status | mark | workerFree => exact ⟨h.submit, h.cancel⟩

/-- A submission on its way is that of the request. -/
theorem Stage.of_pending {sub : Submission ArgPtr} (h : Stage q v) (hsilent : Silent v)
    (hs : v.submit = .pending sub) :
    v.req.caller = .submitting ∧ v.req.prep.WellFormed q ∧ sub = v.req.prep.submission ∧
      v.attached = [] := by
  have hc : v.req.caller = .submitting := by
    by_contra hne
    rw [hsilent.submit hne] at hs
    cases hs
  obtain ⟨hp, -, -, -, ⟨ha, hph⟩ | ⟨-, hph⟩⟩ := h.of_submitting hc
  · rcases hph with hph | hph <;> rw [hs] at hph <;> cases hph
    exact ⟨hc, hp, rfl, ha⟩
  · rcases hph with ⟨_, hph⟩ | hph <;> rw [hs] at hph <;> cases hph

/-- The tasks of a request are fixed once it is made. -/
theorem RequestStep.prep (hs : RequestStep q v v') :
    (v'.req.prep = v.req.prep ∧ (v'.req.caller = .fresh → v.req.caller = .fresh)) ∨
    (v.req.caller = .fresh ∧ v'.req.caller = .submitting) := by
  cases hs with
  | submit hc => exact .inr ⟨hc, rfl⟩
  | register _ _ hn => exact .inl ⟨rfl, fun h => by rcases hn with rfl | rfl <;> cases h⟩
  | post _ hn => exact .inl ⟨rfl, fun h => by rcases hn with ⟨_, _, rfl⟩ | ⟨_, rfl⟩ <;> cases h⟩
  | refuse | unregistered | fail => exact .inl ⟨rfl, fun h => by cases h⟩
  | _ => exact .inl ⟨rfl, id⟩

end Calls

/-! ## Every run

All parts together; each step lemma may use the others. -/

/-- What holds of a request in every reachable state. -/
structure RequestInv (q : Nat) (v : RequestView) : Prop where
  fits : v.Fits
  ownLe : v.ownRemoved ≤ v.removedByOwner
  stage : Stage q v
  owned : Owned v
  counted : Counted v
  token : Token v
  silent : Silent v

/-- A request nobody has made satisfies the invariant. -/
theorem requestInv_fresh (q : Nat) : RequestInv q .fresh where
  fits := Nat.le_refl 0
  ownLe := Nat.le_refl 0
  stage := .unmade (.inl rfl) rfl rfl rfl
  owned := ⟨fun h => absurd rfl h, .before (.inl rfl) rfl rfl rfl⟩
  counted := ⟨rfl, fun h => absurd h (Nat.lt_irrefl 0), fun h => absurd rfl h, rfl⟩
  token := ⟨fun h => (by cases h), 0, .zero fun _ => rfl, rfl⟩
  silent := ⟨fun _ => rfl, fun _ => rfl⟩

/-- One step keeps the invariant. -/
theorem RequestInv.step {q : Nat} {v v' : RequestView} (h : RequestInv q v)
    (hs : RequestStep q v v') (hfits : v'.Fits) : RequestInv q v' where
  fits := hfits
  ownLe := by
    have hle := h.ownLe
    cases hs with
    | @remove wait n k ho hl hk =>
      show v.ownRemoved + k ≤ v.removedByOwner + n
      omega
    | _ => exact hle
  stage := h.stage.step hs
  owned := h.owned.step h.stage hs
  counted := h.counted.step h.stage h.owned h.fits hs
  token := h.token.step h.owned hs
  silent := h.silent.step hs

/-- In every run of a request the invariant holds. -/
theorem requestInv_reach {q : Nat} {ok : RequestView → Unit → Prop} {v : RequestView}
    (h : (requestSystem q).Reach ok v) : RequestInv q v := by
  refine h.invariant ?_ ?_
  · rintro v rfl
    exact requestInv_fresh q
  · rintro v - v' - hI - ⟨hs, hfits⟩
    exact hI.step hs hfits

end OsTransport
