/-
  The callback of a batch.

  The pool has one count and one batch callback for each request id, in the context: the first
  submission of the id leaves its callback there, and whoever takes the count to zero in
  `worker_process_task` calls it, with `true` for its success argument.  Nothing else is known at
  that point.  `BatchBook` writes down, for one id, what was queued, executed, cancelled and called
  since each submission, and `Batch.Truthful` is what a caller takes the callback to mean.

  Three things break it.  A further submission of the id joins the context: its own callback is
  dropped and the first one waits for its tasks too.  A cancel counts off what it removed while a
  worker has another task of the batch in hand: the worker's count-down then reaches zero as if every
  task had been executed.  A task returns an error: the argument is `true` all the same.  The first
  is excluded where a submission queues its tasks (`Lane.Free`), the second where a cancel counts
  off, the third at the count-down that calls; `truthful_callback` holds of every run whose steps
  are all of them (`BatchUndisturbed`).

  The lane of the id goes through phases (`Lane.InBatch`).  What carries the proof is `counting`: the
  context's count is the number of tasks queued or in hand, these with the executed ones are the
  batch, and the callback in the context is the batch's own.

  The proof has three layers:

  1. `batchEvent_fits`: what a step of the pool is to the book of the id, it is to the lane.  So
     everything after it is about `LaneStep`, whose constructors are the sections of the source;
  2. `Lane.InBatch.step`: one lemma for each thing that can happen to a phase (`record`, `take`,
     `finish`, `account`, `uncount`, …), each saying which phase comes next.  Only `account` can
     call the callback, and only from `counting` with the count at one;
  3. `sound_reach`, over every run: the current batch is in its phase and those before it have told
     the truth.  `Lane.InBatch.truthful` reads `truthful_callback` off the phase.

  The three ways out each have a run: `callback_untruthful`, `callback_after_cancel` and
  `callback_dropped`.
-/
import OsTransport.Quiesce

namespace OsTransport

open Transition

variable {κ α : Type*}

/-! ## Batches

The history of one id, submission by submission. -/

/-- The tasks of one submission and what has become of them.  `calls` are the invocations of the
    callback, with the success argument each was given. -/
structure Batch (α : Type*) where
  batchCb : Option Nat
  tasks : List (TaskNode α)
  executed : List (TaskNode α × Int)
  cancelled : List (TaskNode α)
  /-- The batch callbacks that were called, each with its success argument. -/
  calls : List (Nat × Bool)

/-- A batch as it is queued. -/
def Batch.submitted (batchCb : Option Nat) (tasks : List (TaskNode α)) : Batch α :=
  ⟨batchCb, tasks, [], [], []⟩

/-- Every task of the batch has been executed.  Each as often as it was submitted: the two lists are
    permutations of each other. -/
def Batch.Complete (b : Batch α) : Prop := (b.executed.map Prod.fst).Perm b.tasks

/-- What the batch callback tells its caller.  `counted`: no worker has still to count down a task it
    has executed. -/
structure Batch.Truthful (b : Batch α) (counted : Prop) : Prop where
  once : b.calls.length ≤ 1
  own : ∀ call ∈ b.calls, b.batchCb = some call.1
  complete : b.calls ≠ [] → b.Complete
  uncancelled : b.calls ≠ [] → b.cancelled = []
  called : counted → b.Complete → b.batchCb ≠ none → b.calls ≠ []
  success : ∀ call ∈ b.calls, call.2 = true ↔ ∀ e ∈ b.executed, e.2 = 0

/-- What a step of the pool is to the batches of an id. -/
inductive BatchEvent (α : Type*)
  | nothing
  | queued (batchCb : Option Nat) (tasks : List (TaskNode α))
  | executed (task : TaskNode α) (ret : Int)
  | cancelled (tasks : List (TaskNode α))
  | counted (calls : List (Nat × Bool))

def Batch.next (b : Batch α) : BatchEvent α → Batch α
  | .executed task ret => { b with executed := b.executed ++ [(task, ret)] }
  | .cancelled tasks => { b with cancelled := b.cancelled ++ tasks }
  | .counted calls => { b with calls := b.calls ++ calls }
  | _ => b

/-- The callback a submission leaves in its context. -/
def Submission.contextCb (sub : Submission α) : Option Nat :=
  if sub.single then none else sub.batchCb

/-- The calls of batch callbacks in a stretch of history. -/
def batchCalls (events : List (PoolEvent κ α)) : List (Nat × Bool) :=
  events.filterMap fun
    | .batchCb cb _ success => some (cb, success)
    | _ => none

/-- What the step `a` is to the batches of `r`. -/
def PoolSys.batchEvent (r : ReqId) (s : PoolSys κ α) : PoolAction κ α → BatchEvent α
  | .advance c alloc =>
    match s.calls c with
    | .attaching sub _ nodes =>
      if sub.requestId = r ∧ ¬(sub.single ∧ alloc ≠ .ok) then .queued sub.contextCb nodes
      else .nothing
    | .cancelling reqId w =>
      if reqId = r then .cancelled (cancelledNodes (s.workers w) reqId) else .nothing
    | _ => .nothing
  | .finish w ret =>
    match (s.workers w).exec with
    | .running task reqId _ => if reqId = r then .executed task ret else .nothing
    | _ => .nothing
  | .account w =>
    match (s.workers w).exec with
    | .returned _ reqId _ =>
      if reqId = r then
        .counted (batchCalls ((accountBatchCb s.reqHash r).toList.map
          (PoolSys.batchCbEvent (κ := κ) (α := α))))
      else .nothing
    | _ => .nothing
  | _ => .nothing

/-- A pool with the batches of one id: the one queued last, to which everything that happens to the
    id is put down, and those before it.  Before the first there is an empty one. -/
structure BatchBook (κ α : Type*) where
  pool : PoolSys κ α
  current : Batch α
  past : List (Batch α)

def BatchBook.start (workerCount : Nat) : BatchBook κ α :=
  ⟨PoolSys.start workerCount, .submitted none [], []⟩

/-- The book after a step that leads to `s'`. -/
def BatchBook.note (st : BatchBook κ α) (s' : PoolSys κ α) : BatchEvent α → BatchBook κ α
  | .queued batchCb tasks => ⟨s', .submitted batchCb tasks, st.current :: st.past⟩
  | e => ⟨s', st.current.next e, st.past⟩

section System

variable [DecidableEq κ]

def BatchBook.step (r : ReqId) (st : BatchBook κ α) (a : PoolAction κ α) : Option (BatchBook κ α) :=
  (st.pool.step a).map fun s' => st.note s' (st.pool.batchEvent r a)

/-- All runs of a pool, with the batches of `r`. -/
def batchSystem (κ α : Type*) [DecidableEq κ] (r : ReqId) (workerCount : Nat) :
    System (BatchBook κ α) (PoolAction κ α) :=
  .ofFun (· = BatchBook.start workerCount) (BatchBook.step r)

end System

/-! ## The condition

On the steps that queue, count off and call. -/

/-- A call that has no hold on the tasks of the id.  A cancel that found the context of an earlier
    batch may still be on its way to a queue. -/
def LaneCall.loose : LaneCall → Bool
  | .idle => true
  | .submitting => true
  | .cancelling _ => true
  | _ => false

/-- Nothing of the id is left in the pool.  It is what a submission must find for the count and the
    callback in the context to be its own. -/
structure Lane.Free (L : Lane κ α) : Prop where
  ctx : L.ctx = none
  queue : ∀ w, L.queue w = []
  wakes : ∀ w, L.wakes w = []
  exec : ∀ w, L.exec w = .loop
  calls : ∀ c, (L.calls c).loose = true

/-- The step does not do to the batches of `r` what their callback does not see. -/
structure BatchUndisturbed (r : ReqId) (st : BatchBook κ α) (a : PoolAction κ α) : Prop where
  /-- Tasks of `r` are queued when nothing of `r` is left in the pool, fewer than 2^31 of them. -/
  alone : ∀ batchCb tasks, st.pool.batchEvent r a = .queued batchCb tasks →
    (lane r st.pool).Free ∧ tasks.length < 2 ^ 31
  /-- A cancel counts off tasks of a batch with a callback when no worker has one in hand. -/
  uncounts : ∀ c alloc k, a = .advance c alloc → st.pool.calls c = .uncounting r k →
    st.current.batchCb ≠ none → ∀ w, (lane r st.pool).exec w = .loop
  /-- A callback is called when every task has returned 0. -/
  succeeds : ∀ w t ret, a = .account w → (st.pool.workers w).exec = .returned t r ret →
    accountBatchCb st.pool.reqHash r ≠ none → ∀ e ∈ st.current.executed, e.2 = 0

/-- No worker has still to count down a task of `r` it has executed. -/
def CountedDown (r : ReqId) (s : PoolSys κ α) : Prop :=
  ∀ w t ret, (s.workers w).exec ≠ .returned t r ret

/-! ## The step of the lane behind an event

What is written down is what the lane does. -/

/-- The callback handed out by the count-down of a context. -/
def removedCb : Option RequestContext → Option Nat
  | some ctx => if (ctx.add (-1)).pendingCount = 0 then ctx.batchCb else none
  | none => none

theorem accountBatchCb_eq (t : ReqHash) (r : ReqId) : accountBatchCb t r = removedCb (t.find r) := by
  unfold accountBatchCb removedCb
  cases t.find r <;> rfl

/-- A count that fits the C `int` hands out the callback of its context with its last task, and
    nothing before. -/
theorem removedCb_of_fits {ctx : RequestContext} (hpos : 0 ≤ ctx.pendingCount)
    (hfits : ctx.pendingCount < 2 ^ 31) :
    removedCb (some ctx) = if ctx.pendingCount - 1 = 0 then ctx.batchCb else none := by
  rw [removedCb, RequestContext.add_of_fits (by omega) (by omega)]
  rfl

/-- A context that has no callback, or owes two tasks or more, hands out nothing. -/
theorem removedCb_eq_none {old : Option RequestContext}
    (h : ∀ ctx, old = some ctx →
      ctx.batchCb ≠ none → 2 ≤ ctx.pendingCount ∧ ctx.pendingCount < 2 ^ 31) :
    removedCb old = none := by
  cases hold : old with
  | none => rfl
  | some ctx =>
    cases hcb : ctx.batchCb with
    | none =>
      unfold removedCb
      simp only [hcb, ite_self]
    | some cb =>
      obtain ⟨htwo, hfew⟩ := h ctx hold (by rw [hcb]; exact Option.some_ne_none cb)
      rw [removedCb_of_fits (by omega) hfew, if_neg (by omega)]

/-- The success argument of every call is `true`. -/
theorem batchCalls_batchCb (cb : Option Nat) :
    batchCalls (cb.toList.map (PoolSys.batchCbEvent (κ := κ) (α := α)))
      = cb.toList.map fun cb => (cb, true) := by
  cases cb <;> rfl

/-- What the lane of `r` makes of an event. -/
def BatchEvent.Fits (r : ReqId) (L : Lane κ α) (e : BatchEvent α) : LaneLabel κ α → Prop
  | .attach _ _ nodes => ∃ batchCb, e = .queued batchCb nodes
  | .cancelQueue c => ∃ w, L.calls c = .cancelling w ∧ e = .cancelled (L.queue w)
  | .finish w ret => ∃ task u, L.exec w = .running task r u ∧ e = .executed task ret
  | .account _ => e = .counted ((removedCb L.ctx).toList.map fun cb => (cb, true))
  | _ => e = .nothing

section Fits

variable [DecidableEq κ] {r : ReqId} {s s' : PoolSys κ α} {a : PoolAction κ α} {c : κ}
  {alloc : Alloc} {l : LaneLabel κ α}

/-- A submission of `r` about to queue its tasks queues them or gives up. -/
theorem batchEvent_attaching {sub : Submission α} {w : Nat} {nodes : List (TaskNode α)}
    (hc : s.calls c = .attaching sub w nodes) (hr : sub.requestId = r)
    (h : s.advance c alloc = some s') :
    s.batchEvent r (.advance c alloc) = .nothing ∧ (lane r s').calls c = .idle ∨
      s.batchEvent r (.advance c alloc) = .queued sub.contextCb nodes ∧
        (lane r s').calls c = .recording w nodes.length := by
  by_cases hsingle : sub.single ∧ alloc ≠ .ok
  · left
    have hs' : s.setCall c (.done .null) = s' := by
      simpa only [PoolSys.advance, hc, if_pos hsingle, Option.some.injEq] using h
    refine ⟨?_, ?_⟩
    · simp only [PoolSys.batchEvent, hc]
      rw [if_neg fun h => h.2 hsingle]
    · rw [← hs', lane_calls, PoolSys.calls_setCall_self]
      rfl
  · right
    refine ⟨?_, ?_⟩
    · simp only [PoolSys.batchEvent, hc]
      rw [if_pos ⟨hr, hsingle⟩]
    · simp only [PoolSys.advance, hc, if_neg hsingle, Option.some.injEq] at h
      rw [← h, lane_calls, PoolSys.calls_setCall_self, laneCall, if_pos hr]

/-- A section of a call is to the batches of `r` what it is to the lane. -/
theorem fits_advance (hs : s.advance c alloc = some s')
    (hl : LaneStep r (lane r s) l (lane r s')) (hexp : Explains r s (.advance c alloc) l) :
    (s.batchEvent r (.advance c alloc)).Fits r (lane r s) l := by
  have hlane : (lane r s).calls c = laneCall r (s.calls c) := rfl
  -- nothing but an attach and a cancel of `r` is an event
  have hother : (∀ sub w nodes, s.calls c = .attaching sub w nodes → sub.requestId ≠ r) →
      (∀ w, s.calls c ≠ .cancelling r w) → s.batchEvent r (.advance c alloc) = .nothing := by
    intro hatt hcan
    simp only [PoolSys.batchEvent]
    split
    · rename_i sub w nodes hc
      rw [if_neg fun h => hatt sub w nodes hc h.1]
    · rename_i reqId w hc
      rw [if_neg]
      rintro rfl
      exact hcan w hc
    · rfl
  rcases label_of_advance hexp hl with ⟨rfl, hsame⟩ | ⟨hc, ⟨rfl, hidle⟩ | ⟨w, nodes, rfl, hrec⟩⟩ |
      ⟨w, k, ok, hc, rfl⟩ | ⟨u, w, hc, hwake⟩ | ⟨w, hc, rfl⟩ | ⟨k, hc, rfl⟩
  · refine hother ?_ ?_
    · intro sub w nodes hc hr
      have hsub : (lane r s).calls c = .submitting := by
        rw [hlane, hc, laneCall, if_pos hr]
      rcases batchEvent_attaching hc hr hs with ⟨-, hidle⟩ | ⟨-, hrec⟩
      · rw [hsame, hsub] at hidle
        cases hidle
      · rw [hsame, hsub] at hrec
        cases hrec
    · intro w hc
      have hcan : (lane r s).calls c = .cancelling w := by
        rw [hlane, hc, laneCall, if_pos rfl]
      rw [← hsame] at hcan
      simp only [PoolSys.advance, hc, Option.some.injEq] at hs
      rw [← hs, lane_calls, PoolSys.calls_setCall_self] at hcan
      split at hcan <;> simp [laneCall] at hcan
  · by_cases hatt : ∃ sub w nodes, s.calls c = .attaching sub w nodes ∧ sub.requestId = r
    · obtain ⟨sub, w, nodes, hatt, hr⟩ := hatt
      rcases batchEvent_attaching hatt hr hs with ⟨hev, -⟩ | ⟨-, hrec⟩
      · exact hev
      · rw [hidle] at hrec
        cases hrec
    · refine hother (fun sub w nodes h hr => hatt ⟨sub, w, nodes, h, hr⟩) fun w hcan => ?_
      rw [hlane, laneCall_cancelling.mpr hcan] at hc
      cases hc
  · obtain ⟨sub, alloc', hact, hatt, hr⟩ := hexp
    rcases batchEvent_attaching hatt hr hs with ⟨-, hidle⟩ | ⟨hev, -⟩
    · rw [hidle] at hrec
      cases hrec
    · exact ⟨_, hev⟩
  · obtain ⟨sub, nodes, hrec, -, -⟩ := laneCall_recording hc
    show s.batchEvent r (.advance c alloc) = .nothing
    refine hother (fun _ _ _ h => ?_) fun _ h => ?_ <;> rw [hrec] at h <;> cases h
  · have hcall := laneCall_waking.mp hc
    have hnothing : s.batchEvent r (.advance c alloc) = .nothing := by
      refine hother (fun _ _ _ h => ?_) fun _ h => ?_ <;> rw [hcall] at h <;> cases h
    rcases hwake with ⟨rfl, -⟩ | ⟨rfl, -⟩ <;> exact hnothing
  · have hcall := laneCall_cancelling.mp hc
    refine ⟨w, hc, ?_⟩
    simp only [PoolSys.batchEvent, hcall, if_true]
    rfl
  · have hcall := laneCall_uncounting.mp hc
    show s.batchEvent r (.advance c alloc) = .nothing
    refine hother (fun _ _ _ h => ?_) fun _ h => ?_ <;> rw [hcall] at h <;> cases h

/-- A task of `r` returns, or one of another request does. -/
theorem fits_finish {w : Nat} {ret : Int} {l : LaneLabel κ α} (h : s.step (.finish w ret) = some s')
    (hl : LaneStep r (lane r s) l (lane r s')) (hexp : Explains r s (.finish w ret) l) :
    (s.batchEvent r (.finish w ret)).Fits r (lane r s) l := by
  simp only [PoolSys.step, PoolSys.finish] at h
  split at h
  · rename_i task reqId u hexec
    have hrun : (lane r s).exec w = if reqId = r then .running task reqId u else .loop := by
      rw [lane_exec, hexec]
      rfl
    have hret : (lane r s').exec w = if reqId = r then .returned task reqId ret else .loop := by
      rw [← Option.some.inj h, lane_exec]
      show laneExec r (Function.update s.workers w _ w).exec = _
      rw [Function.update_self]
      rfl
    simp only [PoolSys.batchEvent, hexec]
    generalize lane r s' = L' at hl hret
    cases l with
    | tau =>
      cases hl
      rw [if_neg]
      · rfl
      · intro hr
        rw [if_pos hr] at hrun hret
        rw [hrun] at hret
        cases hret
    | finish w' ret' =>
      cases hexp
      cases hl with
      | finish hexec' =>
        rw [hrun] at hexec'
        by_cases hr : reqId = r
        · subst hr
          rw [if_pos rfl] at hrun ⊢
          exact ⟨task, u, hrun, rfl⟩
        · rw [if_neg hr] at hexec'
          cases hexec'
    | _ => simp [Explains] at hexp
  · cases h

/-- The worker that accounts calls back for `r` just when its task was one of `r`. -/
theorem fits_account {w : Nat} {l : LaneLabel κ α} (h : s.step (.account w) = some s')
    (hl : LaneStep r (lane r s) l (lane r s')) (hexp : Explains r s (.account w) l) :
    (s.batchEvent r (.account w)).Fits r (lane r s) l := by
  simp only [PoolSys.step, PoolSys.account] at h
  split at h
  · rename_i task reqId ret hexec
    have hret : (lane r s).exec w = if reqId = r then .returned task reqId ret else .loop := by
      rw [lane_exec, hexec]
      rfl
    have hloop : (lane r s').exec w = .loop := by
      rw [← Option.some.inj h, lane_exec]
      show laneExec r (Function.update s.workers w _ w).exec = _
      rw [Function.update_self]
      rfl
    simp only [PoolSys.batchEvent, hexec, batchCalls_batchCb, accountBatchCb_eq]
    generalize lane r s' = L' at hl hloop
    cases l with
    | tau =>
      cases hl
      rw [if_neg]
      · rfl
      · intro hr
        rw [if_pos hr] at hret
        rw [hret] at hloop
        cases hloop
    | account w' =>
      cases hexp
      cases hl with
      | account hexec' =>
        rw [hret] at hexec'
        by_cases hr : reqId = r
        · rw [if_pos hr]
          rfl
        · rw [if_neg hr] at hexec'
          cases hexec'
    | _ => simp [Explains] at hexp
  · cases h

/-- Every step of the pool is to the batches of `r` what it is to the lane of `r`. -/
theorem batchEvent_fits (hcarry : s.Carries) (h : s.step a = some s') :
    ∃ l, LaneStep r (lane r s) l (lane r s') ∧ Explains r s a l ∧
      (s.batchEvent r a).Fits r (lane r s) l := by
  obtain ⟨l, hl, hexp⟩ := lane_step (r := r) hcarry h
  refine ⟨l, hl, hexp, ?_⟩
  cases a with
  | advance c alloc => exact fits_advance h hl hexp
  | finish w ret => exact fits_finish h hl hexp
  | account w => exact fits_account h hl hexp
  | submit c sub alloc =>
    cases l with
    | tau | submit => rfl
    | _ => simp [Explains] at hexp
  | wake c reqId u =>
    cases l with
    | tau | lookWake => rfl
    | _ => simp [Explains] at hexp
  | cancel c reqId =>
    cases l with
    | tau | lookCancel => rfl
    | _ => simp [Explains] at hexp
  | collect c =>
    cases l with
    | tau => rfl
    | _ => simp [Explains] at hexp
  | pop w =>
    cases l with
    | tau | take | miss => rfl
    | _ => simp [Explains] at hexp

end Fits

/-! ## The phases of a batch

Empty, counting, and called. -/

/-- No task of the id is queued or in hand.  A cancel that found an earlier context may still be on
    its way. -/
structure Lane.Drained (L : Lane κ α) : Prop where
  queue : ∀ w, L.queue w = []
  exec : ∀ w, L.exec w = .loop

/-- The lane of an id whose last batch is `b`.  The phases follow the count; what the callback may
    say is a matter of the phase alone (`Lane.InBatch.truthful`). -/
inductive Lane.InBatch (L : Lane κ α) (b : Batch α) : Prop
  /-- The tasks are queued and nobody finds them yet. -/
  | recording {c : κ} {w : Nat} (hc : L.calls c = .recording w b.tasks.length)
      (hctx : L.ctx = none) (hqueue : L.queue w = b.tasks) (hat : ∀ w', w' ≠ w → L.queue w' = [])
      (hwakes : ∀ w, L.wakes w = []) (hexec : ∀ w, L.exec w = .loop)
      (hother : ∀ c', c' ≠ c → (L.calls c').loose = true)
      (hne : b.tasks ≠ []) (hfew : b.tasks.length < 2 ^ 31) (hexecuted : b.executed = [])
      (hcancelled : b.cancelled = []) (hcalls : b.calls = [])
  /-- There was no memory for the context: the tasks stay where they are. -/
  | stranded {w : Nat} (hctx : L.ctx = none) (hat : ∀ w', w' ≠ w → L.queue w' = [])
      (hwakes : ∀ w, L.wakes w = []) (hexec : ∀ w, L.exec w = .loop)
      (hloose : ∀ c, (L.calls c).loose = true)
      (hne : b.tasks ≠ []) (hexecuted : b.executed = []) (hcalls : b.calls = [])
  /-- The context counts the tasks queued or in hand. -/
  | counting {ctx : RequestContext} {w : Nat} (hctx : L.ctx = some ctx)
      (hcb : ctx.batchCb = b.batchCb)
      (hcount : ctx.pendingCount = (L.queue w).length + (L.exec w).owed)
      (hpos : 0 < (L.queue w).length + (L.exec w).owed) (hfew : ctx.pendingCount < 2 ^ 31)
      (hat : ∀ w', w' ≠ w → L.queue w' = [] ∧ L.exec w' = .loop)
      (hcount' : ∀ c, (L.calls c).counts = false)
      (hperm : (b.executed.map Prod.fst ++ ((L.exec w).now ++ L.queue w)).Perm b.tasks)
      (hcancelled : b.cancelled = []) (hcalls : b.calls = [])
  /-- A cancel has removed tasks while a worker has one in hand. -/
  | unwinding {w : Nat}
      (hctx : ∀ ctx, L.ctx = some ctx →
        ctx.batchCb = b.batchCb ∧
          (b.batchCb ≠ none → 2 ≤ ctx.pendingCount ∧ ctx.pendingCount < 2 ^ 31))
      (hqueue : ∀ w, L.queue w = []) (hexec : L.exec w ≠ .loop)
      (hat : ∀ w', w' ≠ w → L.exec w' = .loop) (hrec : ∀ c w k, L.calls c ≠ .recording w k)
      (hless : b.executed.length + (L.exec w).now.length < b.tasks.length) (hcalls : b.calls = [])
  /-- Every task has been executed, or is lost. -/
  | settled (hdrained : L.Drained) (htrue : b.Truthful True)

/-- Nothing false is told while nothing is called, unless all tasks of a batch with a callback have
    been executed.  Most phases are silent, and this is what they owe. -/
theorem Batch.truthful_of_silent {b : Batch α} {p : Prop} (hcalls : b.calls = [])
    (hinc : p → b.batchCb ≠ none → ¬ b.Complete) : b.Truthful p := by
  refine ⟨?_, ?_, ?_, ?_, ?_, ?_⟩
  · rw [hcalls]
    exact Nat.zero_le 1
  · rw [hcalls]
    intro call hcall
    cases hcall
  · exact fun hne => absurd hcalls hne
  · exact fun hne => absurd hcalls hne
  · exact fun hp hcomplete hcb => absurd hcomplete (hinc hp hcb)
  · rw [hcalls]
    intro call hcall
    cases hcall

/-- Fewer executions than tasks. -/
theorem Batch.not_complete_of_lt {b : Batch α} (h : b.executed.length < b.tasks.length) :
    ¬ b.Complete := by
  intro hcomplete
  have hlen := hcomplete.length_eq
  rw [List.length_map] at hlen
  omega

/-- No execution at all. -/
theorem Batch.not_complete_of_none {b : Batch α} (hne : b.tasks ≠ []) (h : b.executed = []) :
    ¬ b.Complete := by
  apply Batch.not_complete_of_lt
  rw [h]
  exact List.length_pos_of_ne_nil hne

/-- What is owed under a condition is owed under a stronger one. -/
theorem Batch.Truthful.mono {b : Batch α} {p q : Prop} (h : b.Truthful p) (hqp : q → p) :
    b.Truthful q :=
  ⟨h.once, h.own, h.complete, h.uncancelled, fun hq => h.called (hqp hq), h.success⟩

section Phases

variable [DecidableEq κ] {r : ReqId} {L L' : Lane κ α} {l : LaneLabel κ α} {b : Batch α}
  {c : κ}

omit [DecidableEq κ] in
/-- In every phase the callback has told the truth.  The one moment at which all tasks are executed
    and nothing is called yet is before the last is counted down, and then a worker has it in
    hand. -/
theorem Lane.InBatch.truthful (h : L.InBatch b) :
    b.Truthful (∀ w t r ret, L.exec w ≠ .returned t r ret) := by
  cases h with
  | recording _ _ _ _ _ _ _ hne _ hexecuted _ hcalls | stranded _ _ _ _ _ hne hexecuted hcalls =>
    exact Batch.truthful_of_silent hcalls fun _ _ => Batch.not_complete_of_none hne hexecuted
  | @counting ctx w _ _ _ hpos _ _ _ hperm _ hcalls =>
    refine Batch.truthful_of_silent hcalls fun hcounted _ hcomplete => ?_
    have hlen := hperm.length_eq
    have hdone := hcomplete.length_eq
    simp only [List.length_append] at hlen
    -- something is queued or in hand, and it is not executed
    cases hexec : L.exec w with
    | loop =>
      rw [hexec] at hlen hpos
      simp only [Exec.owed, Exec.now, List.length_nil] at hlen hpos
      omega
    | running t r u =>
      rw [hexec] at hlen
      simp only [Exec.now, List.length_singleton] at hlen
      omega
    | returned t r ret => exact hcounted w t r ret hexec
  | unwinding _ _ _ _ _ hless hcalls =>
    refine Batch.truthful_of_silent hcalls fun _ _ => Batch.not_complete_of_lt ?_
    omega
  | settled _ htrue => exact htrue.mono fun _ => trivial

/-- A call moves without touching the tasks of the batch.  Submissions that have queued nothing,
    wake-ups and cancels before their edit are such calls. -/
theorem Lane.InBatch.setCall (h : L.InBatch b) (c : κ) (pc : LaneCall)
    (hc : (L.calls c).counts = false) (hpc : pc.counts = false) (hloose : L.ctx = none → pc.loose = true) :
    Lane.InBatch { L with calls := Function.update L.calls c pc } b := by
  have hothers : ∀ {P : κ → Prop}, (∀ c', P c' → (L.calls c').loose = true) → L.ctx = none →
      ∀ c', P c' → (Function.update L.calls c pc c').loose = true := by
    intro P hP hnone c' hc'
    by_cases heq : c' = c
    · rw [heq, Function.update_self]
      exact hloose hnone
    · rw [Function.update_of_ne heq]
      exact hP c' hc'
  cases h with
  | @recording c₀ w hc₀ hctx hqueue hat hwakes hexec hother hne hfew hexecuted hcancelled hcalls =>
    have hne₀ : c₀ ≠ c := by
      rintro rfl
      rw [hc₀] at hc
      cases hc
    exact .recording ((Function.update_of_ne hne₀ _ _).trans hc₀) hctx hqueue hat hwakes hexec
      (hothers hother hctx) hne hfew hexecuted hcancelled hcalls
  | stranded hctx hat hwakes hexec hloose₀ hne hexecuted hcalls =>
    exact .stranded hctx hat hwakes hexec
      (fun c' => hothers (P := fun _ => True) (fun c' _ => hloose₀ c') hctx c' trivial) hne hexecuted
      hcalls
  | counting hctx hcb hcount hpos hfew hat hcount' hperm hcancelled hcalls =>
    exact .counting hctx hcb hcount hpos hfew hat
      (counts_update_all (f := L.calls) (fun c' _ => hcount' c') hpc) hperm hcancelled hcalls
  | unwinding hctx hqueue hexec hat hrec hless hcalls =>
    refine .unwinding hctx hqueue hexec hat (fun c' w k hc' => ?_) hless hcalls
    have hc' : Function.update L.calls c pc c' = .recording w k := hc'
    by_cases heq : c' = c
    · rw [heq, Function.update_self] at hc'
      rw [hc'] at hpc
      cases hpc
    · rw [Function.update_of_ne heq] at hc'
      exact hrec c' w k hc'
  | settled hdrained htrue => exact .settled ⟨hdrained.queue, hdrained.exec⟩ htrue

/-- The submission records its context, or there is no memory for it.  Without it the tasks are
    stranded: no wake-up finds them, so none is ever executed. -/
theorem Lane.InBatch.record (h : L.InBatch b) {w k : Nat} (alloc : Bool)
    (hc : L.calls c = .recording w k) :
    Lane.InBatch { L with
      ctx := recordedContext alloc r w k b.batchCb L.ctx
      calls := Function.update L.calls c .idle } b := by
  cases h with
  | @recording c₀ w₀ hc₀ hctx hqueue hat hwakes hexec hother hne hfew hexecuted hcancelled hcalls =>
    obtain rfl : c = c₀ := by
      by_contra hne
      have hloose := hother c hne
      rw [hc] at hloose
      cases hloose
    rw [hc₀] at hc
    cases hc
    cases alloc with
    | true =>
      have hctx' : recordedContext true r w b.tasks.length b.batchCb L.ctx
          = some ⟨r, w, b.tasks.length, b.batchCb⟩ := by
        rw [hctx, recordedContext, if_pos rfl, cInt_eq (by omega) (by omega)]
      have hfits : (b.tasks.length : Int) < 2 ^ 31 := by omega
      refine .counting hctx' rfl ?_ ?_ hfits
        (fun w' hw' => ⟨hat w' hw', hexec w'⟩) ?_ ?_ hcancelled hcalls
      · rw [hqueue, hexec]
        simp [Exec.owed]
      · rw [hqueue]
        have hlen := List.length_pos_of_ne_nil hne
        omega
      · refine counts_update_all (fun c' hc' => ?_) rfl
        have hloose := hother c' hc'
        cases hcall : L.calls c' <;> rw [hcall] at hloose <;> first | rfl | cases hloose
      · rw [hexecuted, hexec, hqueue]
        exact .refl _
    | false =>
      refine .stranded ?_ hat hwakes hexec (fun c' => ?_) hne hexecuted hcalls
      · rw [hctx]
        rfl
      · show (Function.update L.calls c .idle c').loose = true
        by_cases heq : c' = c
        · rw [heq, Function.update_self]
          rfl
        · rw [Function.update_of_ne heq]
          exact hother c' heq
  | stranded _ _ _ _ hloose =>
    have hloose := hloose c
    rw [hc] at hloose
    cases hloose
  | counting _ _ _ _ _ _ hcount' =>
    have hcounts := hcount' c
    rw [hc] at hcounts
    cases hcounts
  | unwinding _ _ _ _ hrec => exact absurd hc (hrec c w k)
  | settled hdrained htrue => exact .settled ⟨hdrained.queue, hdrained.exec⟩ htrue

omit [DecidableEq κ] in
/-- The queue of the batch is the only one, and it is emptied. -/
theorem update_nil_self {f : Nat → List (TaskNode α)} {w₀ : Nat} (hat : ∀ w', w' ≠ w₀ → f w' = [])
    (w' : Nat) : Function.update f w₀ [] w' = [] := by
  by_cases heq : w' = w₀
  · rw [heq, Function.update_self]
  · rw [Function.update_of_ne heq]
    exact hat w' heq

omit [DecidableEq κ] in
/-- Wake-ups come and go once the context is there. -/
theorem Lane.InBatch.setWakes (h : L.InBatch b) (wakes : Nat → List (BitVec 64))
    (served : List (BitVec 64)) (hw : (∀ c u w, L.calls c ≠ .waking u w) → (∀ w, L.wakes w = []) →
      ∀ w, wakes w = []) : Lane.InBatch { L with wakes := wakes, served := served } b := by
  have hnot : ∀ {pc : LaneCall}, pc.loose = true → ∀ u w, pc ≠ .waking u w := by
    rintro pc hloose u w rfl
    cases hloose
  cases h with
  | @recording c₀ w hc hctx hqueue hat hwakes hexec hother hne hfew hexecuted hcancelled hcalls =>
    refine .recording hc hctx hqueue hat (hw (fun c' => ?_) hwakes) hexec hother hne hfew hexecuted
      hcancelled hcalls
    by_cases heq : c' = c₀
    · rw [heq, hc]
      exact fun _ _ h => by cases h
    · exact hnot (hother c' heq)
  | stranded hctx hat hwakes hexec hloose hne hexecuted hcalls =>
    exact .stranded hctx hat (hw (fun c' => hnot (hloose c')) hwakes) hexec hloose hne hexecuted
      hcalls
  | counting hctx hcb hcount hpos hfew hat hcount' hperm hcancelled hcalls =>
    exact .counting hctx hcb hcount hpos hfew hat hcount' hperm hcancelled hcalls
  | unwinding hctx hqueue hexec hat hrec hless hcalls =>
    exact .unwinding hctx hqueue hexec hat hrec hless hcalls
  | settled hdrained htrue => exact .settled ⟨hdrained.queue, hdrained.exec⟩ htrue

/-- A cancel that is not on the worker of the batch, or comes too late, removes nothing. -/
theorem Lane.InBatch.cancelNothing (h : L.InBatch b) {w : Nat} (hc : L.calls c = .cancelling w)
    (hq : L.queue w = []) :
    Lane.InBatch { L with
      queue := Function.update L.queue w []
      wakes := Function.update L.wakes w []
      calls := Function.update L.calls c .idle } b := by
  have hqueue : Function.update L.queue w [] = L.queue := by
    rw [← hq]
    exact Function.update_eq_self w _
  have hset := h.setWakes (Function.update L.wakes w []) L.served fun _ hwakes w' => ?_
  · rw [hqueue]
    exact hset.setCall c .idle (by rw [hc]; rfl) rfl fun _ => rfl
  · by_cases heq : w' = w
    · rw [heq, Function.update_self]
    · rw [Function.update_of_ne heq]
      exact hwakes w'

/-- A cancel removes what is queued.  If a worker has a task of the batch in hand, the batch is
    unwinding; otherwise it is settled, as it cannot be completed any more. -/
theorem Lane.InBatch.cancelQueue (h : L.InBatch b) {w : Nat} (hc : L.calls c = .cancelling w) :
    Lane.InBatch { L with
      queue := Function.update L.queue w []
      wakes := Function.update L.wakes w []
      calls := Function.update L.calls c
        (if (L.queue w).length % 2 ^ 32 > 0 then .uncounting (L.queue w).length else .idle) }
      { b with cancelled := b.cancelled ++ L.queue w } := by
  by_cases hq : L.queue w = []
  · rw [hq, if_neg (by simp), List.append_nil]
    exact h.cancelNothing hc hq
  have hlen : 0 < (L.queue w).length := List.length_pos_of_ne_nil hq
  cases h with
  | @recording c₀ w₀ _ _ _ hat _ hexec _ hne _ hexecuted _ hcalls =>
    obtain rfl : w = w₀ := by
      by_contra heq
      exact hq (hat w heq)
    exact .settled ⟨update_nil_self hat, hexec⟩
      (Batch.truthful_of_silent hcalls fun _ _ => Batch.not_complete_of_none hne hexecuted)
  | @stranded w₀ _ hat _ hexec _ hne hexecuted hcalls =>
    obtain rfl : w = w₀ := by
      by_contra heq
      exact hq (hat w heq)
    exact .settled ⟨update_nil_self hat, hexec⟩
      (Batch.truthful_of_silent hcalls fun _ _ => Batch.not_complete_of_none hne hexecuted)
  | @counting ctx w₀ hctx hcb hcount hpos hfew hat hcount' hperm hcancelled hcalls =>
    obtain rfl : w = w₀ := by
      by_contra heq
      exact hq (hat w heq).1
    rw [if_pos (by omega : (L.queue w).length % 2 ^ 32 > 0)]
    have hless : b.executed.length + (L.exec w).now.length < b.tasks.length := by
      have hsum := hperm.length_eq
      simp only [List.length_append, List.length_map] at hsum
      omega
    have hnil := update_nil_self fun w' hw' => (hat w' hw').1
    by_cases hexec : L.exec w = .loop
    · refine .settled ⟨hnil, fun w' => ?_⟩ (Batch.truthful_of_silent hcalls fun _ _ =>
        Batch.not_complete_of_lt (Nat.lt_of_le_of_lt (Nat.le_add_right _ _) hless))
      by_cases heq : w' = w
      · rw [heq]
        exact hexec
      · exact (hat w' heq).2
    · -- the worker still owes the count-down of its task
      refine .unwinding (w := w) ?_ hnil hexec (fun w' hw' => (hat w' hw').2) ?_ hless hcalls
      · intro ctx' hctx'
        obtain rfl : ctx = ctx' := Option.some.inj (hctx.symm.trans hctx')
        refine ⟨hcb, fun _ => ⟨?_, hfew⟩⟩
        have howed : (L.exec w).owed = 1 := by
          cases hx : L.exec w with
          | loop => exact absurd hx hexec
          | running | returned => rfl
        omega
      · intro c' w' k hc'
        have hc' : Function.update L.calls c _ c' = .recording w' k := hc'
        have hcounts : (Function.update L.calls c .idle c').counts = false :=
          counts_update_all (fun c'' _ => hcount' c'') rfl c'
        by_cases heq : c' = c
        · rw [heq, Function.update_self] at hc'
          cases hc'
        · rw [Function.update_of_ne heq] at hc' hcounts
          rw [hc'] at hcounts
          cases hcounts
  | unwinding _ hqueue => exact absurd (hqueue w) hq
  | settled hdrained => exact absurd (hdrained.queue w) hq

/-- A cancel counts off what it removed.  Where the batch has a callback the condition says that no
    worker has a task of it in hand then, so nothing is left that could call it. -/
theorem Lane.InBatch.uncount (h : L.InBatch b) {k : Nat} (hc : L.calls c = .uncounting k)
    (hloop : b.batchCb ≠ none → ∀ w, L.exec w = .loop) :
    Lane.InBatch { L with
      ctx := cancelledContext k L.ctx
      calls := Function.update L.calls c .idle } b := by
  cases h with
  | @recording c₀ w hc₀ _ _ _ _ _ hother =>
    by_cases heq : c = c₀
    · rw [heq, hc₀] at hc
      cases hc
    · have hloose := hother c heq
      rw [hc] at hloose
      cases hloose
  | stranded _ _ _ _ hloose =>
    have hloose := hloose c
    rw [hc] at hloose
    cases hloose
  | counting _ _ _ _ _ _ hcount' =>
    have hcounts := hcount' c
    rw [hc] at hcounts
    cases hcounts
  | @unwinding w hctx hqueue hexec hat hrec hless hcalls =>
    have hnone : b.batchCb = none := by
      by_contra hsome
      exact hexec (hloop hsome w)
    refine .unwinding (fun ctx' hctx' => ⟨?_, fun hsome => absurd hnone hsome⟩) hqueue hexec hat
      (fun c' w' k' hc' => ?_) hless hcalls
    · have hctx' : cancelledContext k L.ctx = some ctx' := hctx'
      obtain ⟨ctx, hold, -, rfl⟩ := cancelledContext_some.mp hctx'
      exact (hctx ctx hold).1
    · have hc' : Function.update L.calls c .idle c' = .recording w' k' := hc'
      by_cases heq : c' = c
      · rw [heq, Function.update_self] at hc'
        cases hc'
      · rw [Function.update_of_ne heq] at hc'
        exact hrec c' w' k' hc'
  | settled hdrained htrue => exact .settled ⟨hdrained.queue, hdrained.exec⟩ htrue

omit [DecidableEq κ] in
/-- A worker takes a task.  It is owed from here until it is counted down. -/
theorem Lane.InBatch.take (h : L.InBatch b) {w : Nat} {u : BitVec 64} {us : List (BitVec 64)}
    {task : TaskNode α} {queue : List (TaskNode α)} (hexec : L.exec w = .loop)
    (hw : L.wakes w = u :: us)
    (hq : workerQueuePopByReqAndUserData (L.queue w) r u = some (task, queue)) :
    Lane.InBatch { L with
      queue := Function.update L.queue w queue
      wakes := Function.update L.wakes w us
      exec := Function.update L.exec w (.running task r u)
      served := L.served ++ [u] } b := by
  have hne : L.queue w ≠ [] := by
    intro hnil
    rw [hnil] at hq
    cases hq
  cases h with
  | recording _ _ _ _ hwakes | stranded _ _ hwakes =>
    rw [hwakes] at hw
    cases hw
  | @counting ctx w₀ hctx hcb hcount hpos hfew hat hcount' hperm hcancelled hcalls =>
    obtain rfl : w = w₀ := by
      by_contra heq
      exact hne (hat w heq).1
    obtain ⟨l₁, l₂, hqueue, rfl, -, -⟩ := Queue.popFirst_some hq
    have hrun : Function.update L.exec w (.running task r u) w = .running task r u :=
      Function.update_self ..
    have hleft : Function.update L.queue w (l₁ ++ l₂) w = l₁ ++ l₂ := Function.update_self ..
    rw [hqueue, hexec] at hcount hperm
    refine .counting (w := w) hctx hcb ?_ ?_ hfew (fun w' hw' => ?_) hcount' ?_ hcancelled hcalls
      <;> dsimp only
    · rw [hrun, hleft, hcount]
      simp [Exec.owed]
      omega
    · rw [hrun]
      simp [Exec.owed]
    · rw [Function.update_of_ne hw', Function.update_of_ne hw']
      exact hat w' hw'
    · rw [hrun, hleft]
      have hmiddle : (task :: (l₁ ++ l₂)).Perm (l₁ ++ task :: l₂) := List.perm_middle.symm
      exact List.Perm.trans (.append_left _ hmiddle) hperm
  | unwinding _ hqueue => exact absurd (hqueue w) hne
  | settled hdrained => exact absurd (hdrained.queue w) hne

omit [DecidableEq κ] in
/-- The task function returns.  Its result is written down, and it is still owed. -/
theorem Lane.InBatch.finish (h : L.InBatch b) {w : Nat} {task : TaskNode α} {u : BitVec 64}
    {ret : Int} (hexec : L.exec w = .running task r u) :
    Lane.InBatch { L with exec := Function.update L.exec w (.returned task r ret) }
      { b with executed := b.executed ++ [(task, ret)] } := by
  have hret : Function.update L.exec w (.returned task r ret) w = .returned task r ret :=
    Function.update_self ..
  cases h with
  | recording _ _ _ _ _ hloop | stranded _ _ _ hloop =>
    rw [hloop] at hexec
    cases hexec
  | @counting ctx w₀ hctx hcb hcount hpos hfew hat hcount' hperm hcancelled hcalls =>
    obtain rfl : w = w₀ := by
      by_contra heq
      rw [(hat w heq).2] at hexec
      cases hexec
    rw [hexec] at hcount hpos hperm
    refine .counting (w := w) hctx hcb ?_ ?_ hfew (fun w' hw' => ⟨(hat w' hw').1, ?_⟩) hcount' ?_
      hcancelled hcalls <;> dsimp only
    · rw [hret, hcount]
      rfl
    · rw [hret]
      exact hpos
    · rw [Function.update_of_ne hw']
      exact (hat w' hw').2
    · rw [hret, List.map_append, List.append_assoc]
      exact hperm
  | @unwinding w₀ hctx hqueue _ hat hrec hless hcalls =>
    obtain rfl : w = w₀ := by
      by_contra heq
      rw [hat w heq] at hexec
      cases hexec
    rw [hexec] at hless
    refine .unwinding (w := w) hctx hqueue ?_ (fun w' hw' => ?_) hrec ?_ hcalls <;> dsimp only
    · rw [hret]
      exact fun hloop => by cases hloop
    · rw [Function.update_of_ne hw']
      exact hat w' hw'
    · rw [hret]
      simp only [Exec.now, List.length_append, List.length_singleton, List.length_nil] at hless ⊢
      omega
  | settled hdrained =>
    rw [hdrained.exec w] at hexec
    cases hexec

omit [DecidableEq κ] in
/-- A batch that is complete when its context goes: its callback has been called, truthfully if every
    task returned 0. -/
theorem Batch.truthful_called (hcomplete : b.Complete) (hcancelled : b.cancelled = [])
    (hcalls : b.calls = []) (hzero : b.batchCb ≠ none → ∀ e ∈ b.executed, e.2 = 0) :
    Batch.Truthful { b with calls := b.calls ++ b.batchCb.toList.map fun cb => (cb, true) } True := by
  rw [hcalls, List.nil_append]
  cases hcb : b.batchCb with
  | none => exact Batch.truthful_of_silent rfl fun _ hsome => absurd rfl hsome
  | some cb =>
    refine ⟨Nat.le_refl 1, ?_, fun _ => hcomplete, fun _ => hcancelled, fun _ _ _ => ?_, ?_⟩
    · intro call hcall
      rw [List.mem_singleton.mp hcall]
    · exact List.cons_ne_nil _ _
    · intro call hcall
      rw [List.mem_singleton.mp hcall]
      exact ⟨fun _ => hzero (by rw [hcb]; simp), fun _ => rfl⟩

omit [DecidableEq κ] in
/-- The worker counts the task off.  If it is the last, the context goes, and this is where the
    callback is made: `batch_cb(0, true, …)` in the source, whatever the results. -/
theorem Lane.InBatch.account (h : L.InBatch b) {w : Nat} {task : TaskNode α} {ret : Int}
    (hexec : L.exec w = .returned task r ret)
    (hzero : removedCb L.ctx ≠ none → ∀ e ∈ b.executed, e.2 = 0) :
    Lane.InBatch { L with
      ctx := accountedContext L.ctx
      exec := Function.update L.exec w .loop }
      { b with calls := b.calls ++ (removedCb L.ctx).toList.map fun cb => (cb, true) } := by
  have hloop : Function.update L.exec w .loop w = Exec.loop := Function.update_self ..
  have hloops : (∀ w', w' ≠ w → L.exec w' = .loop) →
      ∀ w', Function.update L.exec w .loop w' = .loop := by
    intro hat w'
    by_cases heq : w' = w
    · rw [heq, hloop]
    · rw [Function.update_of_ne heq]
      exact hat w' heq
  cases h with
  | recording _ _ _ _ _ hloop' | stranded _ _ _ hloop' =>
    rw [hloop'] at hexec
    cases hexec
  | @counting ctx w₀ hctx hcb hcount hpos hfew hat hcount' hperm hcancelled hcalls =>
    obtain rfl : w = w₀ := by
      by_contra heq
      rw [(hat w heq).2] at hexec
      cases hexec
    rw [hexec] at hcount hperm
    simp only [Exec.owed, Nat.cast_one] at hcount
    have hcb' : removedCb (some ctx) = _ := removedCb_of_fits (by omega) hfew
    have hdown : accountedContext (some ctx) = _ := accountedContext_of_fits (by omega) hfew
    -- the last task takes the context with it, and its worker calls back
    by_cases hlast : ctx.pendingCount - 1 = 0
    · have hnil : L.queue w = [] := List.length_eq_zero_iff.mp (by omega)
      have hcalled : removedCb L.ctx = b.batchCb := by rw [hctx, hcb', if_pos hlast, hcb]
      rw [hcalled] at hzero ⊢
      refine .settled ⟨fun w' => ?_, hloops fun w' hw' => (hat w' hw').2⟩
        (Batch.truthful_called ?_ hcancelled hcalls hzero)
      · by_cases heq : w' = w
        · rw [heq]
          exact hnil
        · exact (hat w' heq).1
      · rw [hnil] at hperm
        simpa only [Batch.Complete, Exec.now, List.append_nil] using hperm
    · have hcalled : removedCb L.ctx = none := by rw [hctx, hcb', if_neg hlast]
      have hctx' : accountedContext L.ctx
          = some { ctx with pendingCount := ctx.pendingCount - 1 } := by
        rw [hctx, hdown, if_neg hlast]
      rw [hcalled, Option.toList_none, List.map_nil, List.append_nil]
      refine .counting (w := w) hctx' hcb ?_ ?_ ((Int.sub_lt_self _ Int.one_pos).trans hfew)
        (fun w' hw' => ⟨(hat w' hw').1, ?_⟩) hcount' ?_ hcancelled hcalls <;> dsimp only
      · rw [hloop]
        show ctx.pendingCount - 1 = (L.queue w).length + (0 : Nat)
        omega
      · rw [hloop]
        show 0 < (L.queue w).length + 0
        omega
      · rw [Function.update_of_ne hw']
        exact (hat w' hw').2
      · rw [hloop]
        exact hperm
  | @unwinding w₀ hctx hqueue _ hat hrec hless hcalls =>
    obtain rfl : w = w₀ := by
      by_contra heq
      rw [hat w heq] at hexec
      cases hexec
    -- a cancel has been here: the context it leaves behind has no callback, or owes more
    have hcalled : removedCb L.ctx = none := by
      refine removedCb_eq_none fun ctx hold hsome => ?_
      obtain ⟨hcb, htwo⟩ := hctx ctx hold
      exact htwo (hcb ▸ hsome)
    rw [hcalled, Option.toList_none, List.map_nil, List.append_nil]
    exact .settled ⟨hqueue, hloops hat⟩ (Batch.truthful_of_silent hcalls fun _ _ =>
      Batch.not_complete_of_lt (Nat.lt_of_le_of_lt (Nat.le_add_right _ _) hless))
  | settled hdrained =>
    rw [hdrained.exec w] at hexec
    cases hexec

/-- The phases are kept by every step but the queueing of a further batch.  What the condition of
    the run says about a step comes in as the last three hypotheses. -/
theorem Lane.InBatch.step (h : L.InBatch b) {e : BatchEvent α} (hs : LaneStep r L l L')
    (hfits : e.Fits r L l) (hatt : ∀ c w nodes, l ≠ .attach c w nodes)
    (hrec : ∀ c ok w k, l = .record c ok → L.calls c = .recording w k →
      L'.ctx = recordedContext ok r w k b.batchCb L.ctx)
    (huncount : ∀ c k, l = .uncount c → L.calls c = .uncounting k → b.batchCb ≠ none →
      ∀ w, L.exec w = .loop)
    (haccount : ∀ w t ret, l = .account w → L.exec w = .returned t r ret → removedCb L.ctx ≠ none →
      ∀ e ∈ b.executed, e.2 = 0) : L'.InBatch (b.next e) := by
  cases hs with
  | tau =>
    obtain rfl := hfits
    exact h
  | submit hc =>
    obtain rfl := hfits
    exact h.setCall _ _ (by rw [hc]; rfl) rfl fun _ => rfl
  | giveUp hc | dropWake hc =>
    obtain rfl := hfits
    exact h.setCall _ _ (by rw [hc]; rfl) rfl fun _ => rfl
  | lookWake hc hctx | lookCancel hc hctx =>
    obtain rfl := hfits
    refine h.setCall _ _ (by rw [hc]; rfl) rfl fun hnone => ?_
    rw [hnone] at hctx
    cases hctx
  | attach => exact absurd rfl (hatt _ _ _)
  | @record c w k alloc cb hc =>
    obtain rfl := hfits
    have hctx : recordedContext alloc r w k cb L.ctx
        = recordedContext alloc r w k b.batchCb L.ctx := hrec c alloc w k rfl hc
    rw [hctx]
    exact h.record alloc hc
  | @pushWake c u w hc =>
    obtain rfl := hfits
    have hset := h.setWakes (Function.update L.wakes w (L.wakes w ++ [u])) L.served
      fun hno => absurd hc (hno c u w)
    exact hset.setCall c .idle (by rw [hc]; rfl) rfl fun _ => rfl
  | @cancelQueue c w hc =>
    obtain ⟨w', hc', rfl⟩ := hfits
    rw [hc] at hc'
    cases hc'
    exact h.cancelQueue hc
  | @uncount c k hc =>
    obtain rfl := hfits
    exact h.uncount hc (huncount c k rfl hc)
  | @take w u us task queue hexec hw hq =>
    obtain rfl := hfits
    exact h.take hexec hw hq
  | @miss w u us hexec hw hq =>
    obtain rfl := hfits
    refine h.setWakes _ _ fun _ hwakes => ?_
    rw [hwakes w] at hw
    cases hw
  | @finish w task u ret hexec =>
    obtain ⟨task', u', hexec', rfl⟩ := hfits
    rw [hexec] at hexec'
    cases hexec'
    exact h.finish hexec
  | @account w task ret hexec =>
    obtain rfl := hfits
    exact h.account hexec (haccount w _ _ rfl hexec)

end Phases

/-! ## Every run

The phases along a run, and the runs that break the promise without the condition. -/

section Run

variable [DecidableEq κ] {r : ReqId} {workerCount : Nat} {st st' : BatchBook κ α}
  {a : PoolAction κ α} {s s' : PoolSys κ α}

/-- The book of `r` is right about the pool, and the callbacks of its past batches are settled.  A
    past batch has no task left in the pool, so nothing more will be told of it. -/
structure BatchBook.Sound (r : ReqId) (st : BatchBook κ α) : Prop where
  phase : (lane r st.pool).InBatch st.current
  callback : ∀ c sub w nodes, st.pool.calls c = .recording sub w nodes → sub.requestId = r →
    st.current.batchCb = sub.contextCb
  past : ∀ b ∈ st.past, b.Truthful True

omit [DecidableEq κ] in
theorem laneExec_returned {x : Exec α} {t : TaskNode α} {r' : ReqId} {ret : Int}
    (h : laneExec r x = .returned t r' ret) : r' = r ∧ x = .returned t r ret := by
  cases x with
  | returned t' r'' ret' =>
    simp only [laneExec] at h
    split at h
    · rename_i hr
      cases h
      exact ⟨hr, by rw [hr]⟩
    · cases h
  | running t' r'' u =>
    simp only [laneExec] at h
    split at h <;> cases h
  | loop => cases h

omit [DecidableEq κ] in
/-- Where nothing of the id is left, what its last batch has told is settled. -/
theorem Lane.InBatch.truthful_of_free {L : Lane κ α} {b : Batch α} (h : L.InBatch b)
    (hfree : L.Free) : b.Truthful True := by
  refine h.truthful.mono fun _ w t r' ret hexec => ?_
  rw [hfree.exec w] at hexec
  cases hexec

/-- A batch is queued where nothing of its id is left.  Then it starts in its first phase, and the
    batch before it is past. -/
theorem Lane.Free.attach {L L' : Lane κ α} {c : κ} {w : Nat} {nodes : List (TaskNode α)}
    {batchCb : Option Nat} (hfree : L.Free) (hne : nodes ≠ []) (hfew : nodes.length < 2 ^ 31)
    (hl : LaneStep r L (.attach c w nodes) L') : L'.InBatch (.submitted batchCb nodes) := by
  cases hl with
  | attach hc hid =>
    refine .recording (c := c) (w := w) (Function.update_self ..) hfree.ctx ?_ ?_ hfree.wakes
      hfree.exec ?_ hne hfew rfl rfl rfl
    · show Function.update L.queue w _ w = nodes
      rw [Function.update_self, hfree.queue, List.nil_append]
    · intro w' hw'
      show Function.update L.queue w _ w' = []
      rw [Function.update_of_ne hw']
      exact hfree.queue w'
    · intro c' hc'
      show (Function.update L.calls c _ c').loose = true
      rw [Function.update_of_ne hc']
      exact hfree.calls c'

/-- What is queued is queued by the section that attaches it.  So a new batch begins with `attach`,
    and its context is recorded next. -/
theorem batchEvent_queued {batchCb : Option Nat} {tasks : List (TaskNode α)}
    (h : s.batchEvent r a = .queued batchCb tasks) (hs : s.step a = some s') :
    ∃ c alloc sub w, a = .advance c alloc ∧ s.calls c = .attaching sub w tasks ∧
      sub.requestId = r ∧ batchCb = sub.contextCb ∧ s'.calls c = .recording sub w tasks := by
  unfold PoolSys.batchEvent at h
  split at h
  · rename_i c alloc
    split at h
    · rename_i sub w nodes hc
      split at h
      · rename_i hcond
        cases h
        refine ⟨c, alloc, sub, w, rfl, hc, hcond.1, rfl, ?_⟩
        simp only [PoolSys.step, PoolSys.advance, hc, if_neg hcond.2, Option.some.injEq] at hs
        rw [← hs, PoolSys.calls_setCall_self]
      · cases h
    · split at h <;> cases h
    · cases h
  · split at h
    · split at h <;> cases h
    · cases h
  · split at h
    · split at h <;> cases h
    · cases h
  · cases h

/-- The context a submission records has its callback.  A context that exists already keeps the
    callback it has (`callback_dropped`). -/
theorem ctx_recorded {c : κ} {alloc : Alloc} {sub : Submission α} {w : Nat}
    {nodes : List (TaskNode α)} (hc : s.calls c = .recording sub w nodes) (hr : sub.requestId = r)
    (hs : s.step (.advance c alloc) = some s') :
    (lane r s').ctx = recordedContext (sub.single || alloc == .ok) r w nodes.length sub.contextCb
      (lane r s).ctx := by
  simp only [PoolSys.step, PoolSys.advance, hc, Option.some.injEq] at hs
  rw [← hs, hr]
  exact (find_updateBatchContext ..).trans (if_pos rfl)

/-- A batch is queued, which the condition allows only where nothing of the last one is left: the
    new one is in its first phase, and the last is settled. -/
theorem BatchBook.Sound.queued (h : st.Sound r) {c : κ} {alloc : Alloc} {sub : Submission α} {w : Nat}
    {nodes : List (TaskNode α)} (hne : nodes ≠ []) (hfree : (lane r st.pool).Free)
    (hfew : nodes.length < 2 ^ 31) (hc : st.pool.calls c = .attaching sub w nodes)
    (hstep : st.pool.step (.advance c alloc) = some s') {c' : κ} {w' : Nat}
    (hl : LaneStep r (lane r st.pool) (.attach c' w' nodes) (lane r s')) :
    BatchBook.Sound r ⟨s', .submitted sub.contextCb nodes, st.current :: st.past⟩ := by
  refine ⟨hfree.attach hne hfew hl, ?_, ?_⟩
  · intro c₁ sub₁ w₁ nodes₁ hrec₁ hr₁
    rcases PoolSys.recording_effect hstep hrec₁ with hold | ⟨hatt, al, hact⟩
    · -- no other submission of `r` is between queueing and recording
      have hloose := hfree.calls c₁
      rw [lane_calls, hold, laneCall, if_pos hr₁] at hloose
      cases hloose
    · cases hact
      rw [hc] at hatt
      cases hatt
      rfl
  · intro b hb
    rcases List.mem_cons.mp hb with rfl | hb
    · exact h.phase.truthful_of_free hfree
    · exact h.past b hb

/-- A step of a run keeps it so, and a new batch starts only where nothing of the last is left. -/
theorem sound_step (hcarry : st.pool.Carries)
    (hnodes : ∀ c sub w nodes, st.pool.calls c = .attaching sub w nodes → nodes ≠ [])
    (h : st.Sound r) (hok : BatchUndisturbed r st a) (hs : st.step r a = some st') : st'.Sound r := by
  obtain ⟨s', hstep, rfl⟩ := Option.map_eq_some_iff.mp hs
  obtain ⟨l, hl, hexp, hfits⟩ := batchEvent_fits (r := r) hcarry hstep
  by_cases hq : ∃ batchCb tasks, st.pool.batchEvent r a = .queued batchCb tasks
  · obtain ⟨batchCb, tasks, hev⟩ := hq
    obtain ⟨hfree, hfew⟩ := hok.alone batchCb tasks hev
    obtain ⟨c, alloc, sub, w, rfl, hc, hr, rfl, hrec⟩ := batchEvent_queued hev hstep
    rw [hev] at hfits ⊢
    obtain ⟨c', w', rfl⟩ : ∃ c' w', l = .attach c' w' tasks := by
      cases l with
      | attach c' w' nodes =>
        obtain ⟨_, heq⟩ := hfits
        cases heq
        exact ⟨c', w', rfl⟩
      | cancelQueue =>
        obtain ⟨_, _, heq⟩ := hfits
        cases heq
      | finish =>
        obtain ⟨_, _, _, heq⟩ := hfits
        cases heq
      | _ => cases hfits
    exact h.queued (hnodes c sub w tasks hc) hfree hfew hc hstep hl
  -- any other step continues the batch there is
  · have hnote : st.note s' (st.pool.batchEvent r a)
        = ⟨s', st.current.next (st.pool.batchEvent r a), st.past⟩ := by
      cases hev : st.pool.batchEvent r a with
      | queued batchCb tasks => exact absurd ⟨batchCb, tasks, hev⟩ hq
      | _ => rfl
    have hcb : (st.current.next (st.pool.batchEvent r a)).batchCb = st.current.batchCb := by
      cases st.pool.batchEvent r a <;> rfl
    rw [hnote]
    refine ⟨h.phase.step hl hfits ?_ ?_ ?_ ?_, ?_, h.past⟩
    · rintro c w nodes rfl
      obtain ⟨batchCb, hev⟩ := hfits
      exact hq ⟨batchCb, nodes, hev⟩
    · rintro c ok w k rfl hc
      obtain ⟨sub, w', nodes, alloc, rfl, hcall, hr, rfl⟩ := hexp
      rw [lane_calls, hcall, laneCall, if_pos hr] at hc
      cases hc
      rw [h.callback c sub w nodes hcall hr]
      exact ctx_recorded hcall hr hstep
    · rintro c k rfl hc
      obtain ⟨alloc, rfl⟩ := hexp
      exact hok.uncounts c alloc k rfl (laneCall_uncounting.mp hc)
    · rintro w t ret rfl hret hcalled
      cases hexp
      refine hok.succeeds w t ret rfl (laneExec_returned hret).2 ?_
      rw [accountBatchCb_eq]
      exact hcalled
    · intro c sub w nodes hrec hr
      rw [hcb]
      rcases PoolSys.recording_effect hstep hrec with hold | ⟨hatt, al, rfl⟩
      · exact h.callback c sub w nodes hold hr
      · rcases batchEvent_attaching hatt hr hstep with ⟨-, hidle⟩ | ⟨hev, -⟩
        · rw [lane_calls, hrec, laneCall, if_pos hr] at hidle
          cases hidle
        · exact absurd ⟨_, _, hev⟩ hq

/-- A run of the book is a run of the pool. -/
theorem batch_pool_reach {ok : BatchBook κ α → PoolAction κ α → Prop}
    (h : (batchSystem κ α r workerCount).Reach ok st) :
    (poolSystem κ α workerCount).Reach (fun _ _ => True) st.pool := by
  refine h.simulate BatchBook.pool ?_ ?_
  · rintro st rfl
    rfl
  · intro st a st' _ _ _ hs
    obtain ⟨s', hstep, rfl⟩ := Option.map_eq_some_iff.mp hs
    refine .inr ⟨a, trivial, ?_⟩
    cases hev : st.pool.batchEvent r a <;> exact hstep

/-- So it is in every state of a run that meets the condition. -/
theorem sound_reach (h : (batchSystem κ α r workerCount).Reach (BatchUndisturbed r) st) :
    st.Sound r := by
  refine h.invariant (I := fun st => st.Sound r) ?_ ?_
  · rintro st rfl
    refine ⟨.settled ⟨fun _ => rfl, fun _ => rfl⟩ ?_, ?_, ?_⟩
    · exact Batch.truthful_of_silent rfl fun _ hsome => absurd rfl hsome
    · intro c sub w nodes hc
      cases hc
    · intro b hb
      cases hb
  · intro st a st' hr hI hok hs
    have hpool := batch_pool_reach hr
    refine sound_step (PoolSys.carries_reach hpool) ?_ hI hok hs
    rintro c sub w nodes hc rfl
    have hcarry := PoolSys.carries_reach hpool c
    rw [hc] at hcarry
    exact (PoolSys.submission_reach (P := fun _ => True) (fun _ _ _ _ _ => trivial) hpool
      (by rw [hc]; rfl)).1 (List.forall₂_nil_right_iff.mp hcarry.2)

/-- **The batch callback is truthful.**  In every run whose steps all meet the condition, whatever
    else happens to the id and however wake-ups, workers and cancels interleave, in every state
    reached: the callback of each batch of `r` has been called at most once, with the success
    argument the results of its tasks deserve, only after all of them were executed and none was
    cancelled; and once they are all executed and counted down, it has been called. -/
theorem truthful_callback (h : (batchSystem κ α r workerCount).Reach (BatchUndisturbed r) st) :
    ∀ b ∈ st.current :: st.past, b.Truthful (CountedDown r st.pool) := by
  have hsound := sound_reach h
  intro b hb
  rcases List.mem_cons.mp hb with rfl | hb
  · refine hsound.phase.truthful.mono fun hdown w t r' ret hret => ?_
    exact hdown w t ret (laneExec_returned hret).2
  · exact (hsound.past b hb).mono fun _ => trivial

end Run

/-- A task of request 7. -/
def pairTask : ThreadPoolTask Unit := ⟨0#64, 7#64, (), false, 0#64⟩

/-- Two tasks of request 7 with a batch callback. -/
def calledPair : Submission Unit := ⟨false, [pairTask, pairTask], none, some 9⟩

/-- The pair is about to be queued in a pool that has held nothing yet. -/
def queueingPair : BatchBook Unit Unit where
  pool := { PoolSys.start 1 with
    nextTaskId := 3
    calls := fun _ => .attaching calledPair 0
      [createBatchNode 1 7#64 none pairTask, createBatchNode 2 7#64 none pairTask] }
  current := .submitted none []
  past := []

/-- The steps that need no look at the whole lane to meet the condition. -/
def plainStep (st : BatchBook Unit Unit) : PoolAction Unit Unit → Bool
  | .advance c _ =>
    match st.pool.calls c with
    | .attaching _ _ _ => false
    | .uncounting _ _ => false
    | _ => true
  | .account _ => st.current.executed.all fun e => e.2 == 0
  | _ => true

/-- Such steps meet it. -/
theorem undisturbed_of_plain (st : BatchBook Unit Unit) (a : PoolAction Unit Unit)
    (h : plainStep st a = true) : BatchUndisturbed 7#64 st a := by
  refine ⟨fun batchCb tasks hev => ?_, ?_, ?_⟩
  · exfalso
    cases a with
    | advance c alloc =>
      unfold plainStep at h
      simp only [PoolSys.batchEvent] at hev
      split at hev
      · rename_i hc
        simp [hc] at h
      · split at hev <;> cases hev
      · cases hev
    | finish w ret =>
      simp only [PoolSys.batchEvent] at hev
      split at hev
      · split at hev <;> cases hev
      · cases hev
    | account w =>
      simp only [PoolSys.batchEvent] at hev
      split at hev
      · split at hev <;> cases hev
      · cases hev
    | _ => cases hev
  · rintro c alloc k rfl hc
    simp [plainStep, hc] at h
  · rintro w t ret rfl - - e he
    simpa using List.all_eq_true.mp h e he

/-- The pair is queued and its context recorded. -/
def submitCalled : List (PoolAction Unit Unit) :=
  .submit () calledPair .ok :: List.replicate 5 (.advance () .ok) ++ [.collect ()]

/-- A wake-up of the pair is served by its task, which returns `ret` and is counted down. -/
def serveOne (ret : Int) : List (PoolAction Unit Unit) :=
  [.wake () 7#64 5#64, .advance () .ok, .collect (), .pop 0, .finish 0 ret, .account 0]

/-- Both tasks of the pair return 0, and the callback says so. -/
theorem truthful_callback_pair : ∃ st : BatchBook Unit Unit,
    (∀ b ∈ st.current :: st.past, b.Truthful (CountedDown 7#64 st.pool)) ∧
      st.current.tasks.length = 2 ∧ st.current.calls = [(9, true)] := by
  have hr₁ : (batchSystem Unit Unit 7#64 1).Reach (BatchUndisturbed 7#64) queueingPair :=
    exec_reach undisturbed_of_plain (.submit () calledPair .ok :: List.replicate 3 (.advance () .ok))
      (BatchBook.start 1) _ (.init rfl) rfl
  have hfree : BatchUndisturbed 7#64 queueingPair (.advance () .ok) := by
    refine ⟨fun batchCb tasks h => ?_, fun c alloc k h hc => (by cases hc), fun w t ret h => by cases h⟩
    cases h
    exact ⟨⟨rfl, fun _ => rfl, fun _ => rfl, fun _ => rfl, fun _ => rfl⟩, by decide⟩
  have hrun : ((queueingPair.step 7#64 (.advance () .ok)).bind fun st =>
      exec plainStep (BatchBook.step 7#64) st
        (.advance () .ok :: .collect () :: (serveOne 0 ++ serveOne 0))).any
      (fun st => decide (st.current.tasks.length = 2 ∧ st.current.calls = [(9, true)])) = true := by
    decide +kernel
  cases hs : queueingPair.step 7#64 (.advance () .ok) with
  | none =>
    rw [hs] at hrun
    cases hrun
  | some st₂ =>
    rw [hs, Option.bind_some] at hrun
    obtain ⟨st, hexec, hend⟩ := exec_any hrun
    exact ⟨st, truthful_callback (exec_reach undisturbed_of_plain _ _ _ (hr₁.step hfree hs) hexec),
      of_decide_eq_true hend⟩

/-- A task of the pair returns -1, and the callback reports success. -/
theorem callback_untruthful : ¬ ∀ st : BatchBook Unit Unit,
    (batchSystem Unit Unit 7#64 1).Reach (fun _ _ => True) st →
      ∀ b ∈ st.current :: st.past, b.Truthful (CountedDown 7#64 st.pool) := by
  intro hall
  have hrun : (exec (fun _ _ => true) (BatchBook.step 7#64) (BatchBook.start 1)
      (submitCalled ++ serveOne (-1) ++ serveOne 0)).any
      (fun st : BatchBook Unit Unit => st.current.calls == [(9, true)] &&
        st.current.executed.any fun e => e.2 == -1) = true := by
    decide +kernel
  obtain ⟨st, hexec, hend⟩ := exec_any hrun
  rw [Bool.and_eq_true, beq_iff_eq, List.any_eq_true] at hend
  obtain ⟨hcalls, e, he, hret⟩ := hend
  have hr : (batchSystem Unit Unit 7#64 1).Reach (fun _ _ => True) st :=
    exec_reach (fun _ _ _ => trivial) _ _ _ (.init rfl) hexec
  have hzero := ((hall st hr _ List.mem_cons_self).success (9, true)
    (by rw [hcalls]; exact List.mem_singleton_self _)).mp rfl e he
  rw [hzero] at hret
  cases hret

/-- A cancel removes one task of the pair while a worker has the other in hand, and the callback is
    called with `true` when that one is counted down. -/
theorem callback_after_cancel : ∃ st : BatchBook Unit Unit,
    (batchSystem Unit Unit 7#64 1).Reach (fun _ _ => True) st ∧
      st.current.calls = [(9, true)] ∧ st.current.cancelled.length = 1 := by
  have hrun : (exec (fun _ _ => true) (BatchBook.step 7#64) (BatchBook.start 1)
      (submitCalled ++ [.wake () 7#64 5#64, .advance () .ok, .collect (), .pop 0, .cancel () 7#64,
        .advance () .ok, .advance () .ok, .finish 0 0, .account 0])).any
      (fun st : BatchBook Unit Unit =>
        decide (st.current.calls = [(9, true)] ∧ st.current.cancelled.length = 1)) = true := by
    decide +kernel
  obtain ⟨st, hexec, hend⟩ := exec_any hrun
  exact ⟨st, exec_reach (fun _ _ _ => trivial) _ _ _ (.init rfl) hexec, of_decide_eq_true hend⟩

/-- A second pair of the id, with a callback of its own, is queued before the first is executed: all
    four tasks are executed and counted down, and the second callback is never called. -/
theorem callback_dropped : ∃ st : BatchBook Unit Unit,
    (batchSystem Unit Unit 7#64 1).Reach (fun _ _ => True) st ∧ st.pool.reqHash.find 7#64 = none ∧
      st.current.batchCb = some 10 ∧ st.current.executed.length = 4 ∧
        batchCalls st.pool.log = [(9, true)] := by
  have hrun : (exec (fun _ _ => true) (BatchBook.step 7#64) (BatchBook.start 1)
      (submitCalled ++ .submit () { calledPair with batchCb := some 10 } .ok ::
        List.replicate 6 (.advance () .ok) ++ .collect () ::
          (serveOne 0 ++ serveOne 0 ++ serveOne 0 ++ serveOne 0))).any
      (fun st : BatchBook Unit Unit => decide (st.pool.reqHash.find 7#64 = none ∧
        st.current.batchCb = some 10 ∧ st.current.executed.length = 4 ∧
          batchCalls st.pool.log = [(9, true)])) = true := by
    decide +kernel
  obtain ⟨st, hexec, hend⟩ := exec_any hrun
  exact ⟨st, exec_reach (fun _ _ _ => trivial) _ _ _ (.init rfl) hexec, of_decide_eq_true hend⟩

end OsTransport
