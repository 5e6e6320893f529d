/-
  When `os_transport_send` and `os_transport_recv` return `0`.

  A call whose arguments were accepted, whose allocations succeed and none of whose posts fails
  returns `0`, whatever runs in between: it can always take its next step, and `Going` bounds the
  number of steps it has left.  The scan of `select_best_worker` takes at most one step per worker,
  the batch one per task, and a handful follow.

  `returns_iff` is the statement, for both calls.  Its two halves:

  * `Going.own`: a call that is going takes its next step, whatever the state, and has one step less
    to go;
  * `Going.other`: what others do in between leaves it where it is.  It needs of the pool that it is
    running and of the call that nobody else makes calls in its name (`caller_idle_reach`).

  `Accepting` is the same bound for the part of the call that is inside the pool.
-/
import OsTransport.SendPipeline

namespace OsTransport

open Transition

/-! ## A batch that is accepted

No section of a batch is refused as long as memory is there and the pool runs. -/

section Batch

variable {κ α : Type*} [DecidableEq κ]

/-- A submission that will be accepted, and how many sections it has left at most.  The bound goes
    down with each section, whatever other threads do to the queues in between.  Only batches occur:
    the transport makes no single submissions. -/
inductive Accepting (workerCount : Nat) : Call α → Nat → Prop
  /-- The scan has a candidate from its second step on. -/
  | selecting {sub : Submission α} {made : List (TaskNode α)} {i : Nat} {best : Option BestWorker}
      (hbatch : sub.single = false) (htasks : sub.tasks ≠ []) (hi : i ≤ workerCount)
      (hbest : best = none → i = 0) :
      Accepting workerCount (.selecting sub made i best) (workerCount - i + sub.tasks.length + 3)
  | building {sub : Submission α} {w : Nat} {made : List (TaskNode α)}
      {todo : List (ThreadPoolTask α)} (hbatch : sub.single = false) (htodo : todo ≠ []) :
      Accepting workerCount (.building sub (some w) made todo) (todo.length + 2)
  | attaching {sub : Submission α} {w : Nat} {nodes : List (TaskNode α)}
      (hbatch : sub.single = false) : Accepting workerCount (.attaching sub w nodes) 2
  | recording {sub : Submission α} {w : Nat} {nodes : List (TaskNode α)}
      (hbatch : sub.single = false) : Accepting workerCount (.recording sub w nodes) 1
  | accepted {ids : List (BitVec 64)} : Accepting workerCount (.done (.taskIds ids)) 0

namespace PoolSys

variable {s s' : PoolSys κ α} {c : κ} {n : Nat}

/-- A call that moves on to a place with a smaller bound. -/
theorem accepting_setCall {s₁ : PoolSys κ α} {pc : Call α} {m : Nat}
    (h : Accepting s₁.workerCount pc m) (hm : m < n) :
    ∃ s', some (s₁.setCall c pc) = some s' ∧
      ∃ m, m < n ∧ Accepting s'.workerCount (s'.calls c) m := by
  refine ⟨_, rfl, m, hm, ?_⟩
  rw [calls_setCall_self]
  exact h

/-- The next section of an accepted submission.  With memory every section goes on, and the scan
    finds a worker as there is at least one. -/
theorem accepting_advance (h : Accepting s.workerCount (s.calls c) n) (hpos : 0 < s.workerCount)
    (hn : n ≠ 0) :
    ∃ s', s.advance c .ok = some s' ∧ ∃ m, m < n ∧ Accepting s'.workerCount (s'.calls c) m := by
  generalize hc : s.calls c = pc at h
  cases h with
  | @selecting sub made i best hbatch htasks hi hbest =>
    have hselected : ∀ w, Accepting s.workerCount (selectedWorker sub made w) (sub.tasks.length + 2) := by
      intro w
      rw [selectedWorker, if_neg (by simp [hbatch])]
      exact .building hbatch htasks
    simp only [advance, hc]
    by_cases hlt : i < s.workerCount
    · rw [if_pos hlt]
      split
      · exact accepting_setCall (hselected i) (by omega)
      · refine accepting_setCall (.selecting hbatch htasks hlt ?_) (by omega)
        intro hnone
        cases hnone
    · rw [if_neg hlt]
      cases best with
      | none => exact absurd (hbest rfl) (by omega)
      | some b => exact accepting_setCall (hselected b.workerIdx) (by omega)
  | @building sub w made todo hbatch htodo =>
    cases todo with
    | nil => exact absurd rfl htodo
    | cons src rest =>
      simp only [advance, hc]
      rw [if_neg (by simp)]
      cases rest with
      | nil => exact accepting_setCall (m := 2) (.attaching hbatch) (by simp)
      | cons src' rest => exact accepting_setCall (.building hbatch (by simp)) (by simp)
  | attaching hbatch =>
    simp only [advance, hc]
    rw [if_neg (by simp [hbatch])]
    exact accepting_setCall (.recording hbatch) (by omega)
  | recording hbatch =>
    simp only [advance, hc, submitResult_batch hbatch]
    exact accepting_setCall .accepted (by omega)
  | accepted => exact absurd rfl hn

/-- A started pool stays started.  Only `thread_pool_destroy` stops one, and no action of the pool
    under a transport does that. -/
theorem step_isRunning {pa : PoolAction κ α} (h : s.step pa = some s') :
    s'.isRunning = s.isRunning := by
  cases pa with
  | submit c sub alloc =>
    simp only [step, Option.ite_none_right_eq_some, Option.some.injEq] at h
    obtain ⟨-, rfl⟩ := h
    rfl
  | wake c r u =>
    simp only [step, Option.ite_none_right_eq_some] at h
    obtain ⟨-, h⟩ := h
    split at h <;> cases h <;> rfl
  | cancel c r =>
    simp only [step, Option.ite_none_right_eq_some] at h
    obtain ⟨-, h⟩ := h
    split at h
    · cases h
      rfl
    · split at h <;> cases h <;> rfl
  | advance c alloc =>
    simp only [step, advance] at h
    split at h
    · cases h
    · cases h
    · split at h
      · split at h <;> cases h <;> rfl
      · split at h <;> cases h <;> rfl
    · split at h
      · cases h
      · cases h
        rfl
      · split at h <;> cases h <;> rfl
    · split at h <;> cases h <;> rfl
    · cases h
      rfl
    · split at h <;> cases h <;> rfl
    · cases h
      rfl
    · cases h
      rfl
  | collect c =>
    simp only [step] at h
    split at h <;> cases h
    rfl
  | pop w =>
    obtain ⟨-, -, ⟨-, rfl⟩ | ⟨p, pending, task, queue, -, -, rfl⟩ | ⟨p, pending, -, -, rfl⟩⟩ :=
      pop_cases h <;> rfl
  | finish w ret =>
    simp only [step, finish] at h
    split at h <;> cases h
    rfl
  | account w =>
    simp only [step, account] at h
    split at h <;> cases h
    rfl

/-- A pool in a run has been started. -/
theorem isRunning_reach {workerCount : Nat} {ok : PoolSys κ α → PoolAction κ α → Prop}
    (h : (poolSystem κ α workerCount).Reach ok s) : s.isRunning = true := by
  refine h.invariant (I := fun s : PoolSys κ α => s.isRunning = true) ?_ ?_
  · rintro s rfl
    rfl
  · intro s pa s' _ hI _ hs
    rw [step_isRunning hs, hI]

end PoolSys

end Batch

/-! ## A call that goes to its end

`Going` says where the call is and how many steps it has left at most. -/

section Call

variable {s s' : Transport} {q n : Nat} {a : Action}

/-- A step of the pool for the process of a call is a step of that call. -/
theorem Calls.madeBy {pa : PoolAction Proc ArgPtr} (h : Calls s a pa)
    (hproc : pa.proc = some (.caller q)) : a.madeBy = some q := by
  cases pa with
  | submit c sub alloc =>
    obtain ⟨q', p, rfl, hcall, -⟩ := h
    cases hproc
    exact hcall.madeBy
  | wake c reqId userData =>
    obtain ⟨k, -, -, -, rfl, -⟩ := h
    cases hproc
  | cancel c reqId => rcases h with ⟨q', rfl, -⟩ | ⟨k, rfl, -⟩ <;> cases hproc
  | advance c alloc | collect c =>
    cases hproc
    cases a with
    | caller q' alloc statuses => exact congrArg some h
    | _ => cases h
  | pop w | finish w ret | account w => cases hproc

/-- The pool's side of a call belongs to the call.  The process `.caller q` is the call that makes
    request `q`, and nobody else acts for it. -/
theorem caller_calls_of_ne (hm : Move s a s') (ha : a.madeBy ≠ some q) :
    s'.pool.calls (.caller q) = s.pool.calls (.caller q) := by
  rcases hm.pool with hpool | ⟨pa, hcalls, hpool⟩
  · rw [hpool]
  · exact PoolSys.step_calls_of_ne hpool fun hproc => ha (hcalls.madeBy hproc)

/-- Outside the submission a call is not in the pool.  It has collected its answer before it goes on
    to its post, or to its prefill. -/
theorem caller_idle_reach {workerCount : Nat} {capacity : BitVec 32}
    {ok : Transport → Action → Prop} (h : (transportSystem workerCount capacity).Reach ok s) :
    (s.reqs q).caller ≠ .submitting → s.pool.calls (.caller q) = .idle := by
  refine h.invariant (I := fun s => (s.reqs q).caller ≠ .submitting →
    s.pool.calls (.caller q) = .idle) ?_ ?_
  · rintro s rfl -
    rfl
  intro s a s' _ hI _ hs hc
  have hm := Transport.move_of_step hs
  by_cases ha : a.madeBy = some q
  · have hkept : s'.pool = s.pool → (s.reqs q).caller ≠ .submitting →
        s'.pool.calls (.caller q) = .idle := by
      intro hpool hc
      rw [hpool]
      exact hI hc
    cases hm with
    | refuse hcall hfresh =>
      obtain rfl := Option.some.inj (hcall.madeBy.symm.trans ha)
      exact hkept rfl (by rw [hfresh]; simp)
    | submit hcall =>
      obtain rfl := Option.some.inj (hcall.madeBy.symm.trans ha)
      rw [reqs_setReq_self] at hc
      exact absurd rfl hc
    | callerAdvance hsub =>
      cases ha
      exact absurd hsub hc
    | registerSend _ _ _ hpool | registerRecv _ _ _ hpool | unregistered _ _ _ hpool =>
      cases ha
      exact (PoolSys.collect_calls hpool).2
    | firstWrite hw _ hpost =>
      cases ha
      have hsame := post_pool hpost
      exact hkept hsame (by rw [hw]; simp)
    | prefill hw | prefillFailed hw | fail hw =>
      cases ha
      exact hkept rfl (by rw [hw]; simp)
    | _ => cases ha
  · rw [caller_calls_of_ne hm ha]
    have hcaller : (s'.reqs q).caller = (s.reqs q).caller := congrArg (fun x => x.2.1) (hm.frame ha)
    exact hI (hcaller ▸ hc)

/-- The first chunk of a send can be posted.  It is a matter of the arguments alone: whether there
    is a queue to post it to. -/
def Prepared.Postable (p : Prepared) : Prop :=
  ∀ writeInfo, p.urmaInfo = .write writeInfo → (urmaWriteChunk writeInfo p.chunks[0]?).isSome = true

/-- The call of request `q` is going to return `0`, within `n` more steps of its own.  It asks
    nothing of the scheduler: only that the call gets its steps. -/
inductive Going (s : Transport) (q : Nat) : Nat → Prop
  | submitting {n : Nat} (hc : (s.reqs q).caller = .submitting) (hp : (s.reqs q).prep.Postable)
      (hpool : Accepting s.pool.workerCount (s.pool.calls (.caller q)) n) : Going s q (n + 2)
  | writing {writeInfo : UrmaWriteInfo} (hc : (s.reqs q).caller = .writing)
      (hp : (s.reqs q).prep.Postable) (hinfo : (s.reqs q).prep.urmaInfo = .write writeInfo) :
      Going s q 1
  | prefilling {recvInfo : UrmaRecvInfo} (hc : (s.reqs q).caller = .prefilling)
      (hinfo : (s.reqs q).prep.urmaInfo = .recv recvInfo) : Going s q 1
  | returned {st : UrmaStatus} (hc : (s.reqs q).caller = .returned true st) : Going s q 0

/-- The others do not hold it up.  They may fill queues and draw ids, but neither where the call is
    nor what it was called with changes. -/
theorem Going.other (h : Going s q n) (hm : Move s a s') (ha : a.madeBy ≠ some q) :
    Going s' q n := by
  have hframe := hm.frame ha
  have hprep : (s'.reqs q).prep = (s.reqs q).prep := congrArg (fun x => x.1) hframe
  have hcaller : (s'.reqs q).caller = (s.reqs q).caller := congrArg (fun x => x.2.1) hframe
  have hcount : s'.pool.workerCount = s.pool.workerCount := by
    rcases hm.pool with hpool | ⟨pa, -, hpool⟩
    · rw [hpool]
    · exact PoolSys.step_workerCount hpool
  cases h with
  | submitting hc hp hpool =>
    refine .submitting (hcaller.trans hc) (hprep ▸ hp) ?_
    rw [hcount, caller_calls_of_ne hm ha]
    exact hpool
  | writing hc hp hinfo => exact .writing (hcaller.trans hc) (hprep ▸ hp) (hprep ▸ hinfo)
  | prefilling hc hinfo => exact .prefilling (hcaller.trans hc) (hprep ▸ hinfo)
  | returned hc => exact .returned (hcaller.trans hc)

/-- A prefill whose posts are all accepted succeeds, however many there are. -/
theorem prefillLoop_success (n : Nat) {statuses : List UrmaStatus}
    (h : ∀ st ∈ statuses, st = urmaSuccess) :
    (Transport.prefillLoop n statuses).1 = urmaSuccess := by
  induction n generalizing statuses with
  | zero => rfl
  | succ n ih =>
    have hhead : statuses.headD urmaSuccess = urmaSuccess := by
      cases statuses with
      | nil => rfl
      | cons st _ => exact h st List.mem_cons_self
    rw [Transport.prefillLoop, hhead, if_neg (by simp)]
    exact ih fun st hst => h st (List.mem_of_mem_tail hst)

/-- The submission is through: the call collects its result, and goes on to its write or to its
    prefill. -/
theorem Going.collect (hc : (s.reqs q).caller = .submitting) (hp : (s.reqs q).prep.Postable)
    {ids : List (BitVec 64)} (hcall : s.pool.calls (.caller q) = .done (.taskIds ids))
    (statuses : List UrmaStatus) :
    ∃ s', s.step (.caller q .ok statuses) = some s' ∧ Going s' q 1 := by
  have hcollect : s.pool.step (.collect (.caller q)) = some (s.pool.setCall (.caller q) .idle) := by
    simp only [PoolSys.step, hcall]
  cases hinfo : (s.reqs q).prep.urmaInfo with
  | write writeInfo =>
    refine ⟨(s.setPool (s.pool.setCall (.caller q) .idle)).setReq q
      { s.reqs q with bound := true, handle := true, caller := .writing }, ?_, ?_⟩
    · simp only [Transport.step, Transport.callerStep, hc, hcall, hcollect, hinfo, Option.map_some]
    · have hself : ∀ {x : Request}, ((s.setPool (s.pool.setCall (.caller q) .idle)).setReq q x).reqs q
          = x := Function.update_self ..
      apply Going.writing
      · rw [hself]
      · rw [hself]
        exact hp
      · rw [hself]
        exact hinfo
  | recv recvInfo =>
    refine ⟨(s.setPool (s.pool.setCall (.caller q) .idle)).setReq q
      { s.reqs q with bound := true, caller := .prefilling }, ?_, ?_⟩
    · simp only [Transport.step, Transport.callerStep, hc, hcall, hcollect, hinfo, Option.map_some]
    · apply Going.prefilling
      · rw [reqs_setReq_self]
      · rw [reqs_setReq_self]
        exact hinfo

/-- While the submission is on its way the step of the call is its next section. -/
theorem callerStep_section (hc : (s.reqs q).caller = .submitting)
    {pool : PoolSys Proc ArgPtr} (hadvance : s.pool.advance (.caller q) .ok = some pool)
    (statuses : List UrmaStatus) : s.step (.caller q .ok statuses) = some (s.setPool pool) := by
  have hnotdone : ∀ res, s.pool.calls (.caller q) ≠ .done res := by
    intro res hres
    simp only [PoolSys.advance, hres] at hadvance
    cases hadvance
  simp only [Transport.step, Transport.callerStep, hc]
  split
  · rename_i hdone
    exact absurd hdone (hnotdone _)
  · rename_i hdone
    exact absurd hdone (hnotdone _)
  · show (s.pool.step (.advance (.caller q) .ok)).map s.setPool = _
    rw [show s.pool.step (.advance (.caller q) .ok) = s.pool.advance (.caller q) .ok from rfl, hadvance]
    rfl

/-- The first write is posted, and accepted. -/
theorem callerStep_write {writeInfo : UrmaWriteInfo} (hc : (s.reqs q).caller = .writing)
    (hp : (s.reqs q).prep.Postable) (hinfo : (s.reqs q).prep.urmaInfo = .write writeInfo)
    {statuses : List UrmaStatus} (hst : ∀ st ∈ statuses, st = urmaSuccess) :
    ∃ s', s.step (.caller q .ok statuses) = some s' ∧
      (s'.reqs q).caller = .returned true urmaSuccess := by
  have hhead : statuses.headD urmaSuccess = urmaSuccess := by
    cases statuses with
    | nil => rfl
    | cons st _ => exact hst st List.mem_cons_self
  obtain ⟨⟨queue, wr⟩, hwr⟩ := Option.isSome_iff_exists.mp (hp writeInfo hinfo)
  obtain ⟨⟨s₁, ret⟩, hpost⟩ : ∃ x, s.post q .write 0 (urmaWriteChunk writeInfo (s.reqs q).prep.chunks[0]?)
      (statuses.headD urmaSuccess) = x := ⟨_, rfl⟩
  have hret : ret = urmaSuccess := by
    rw [hwr, hhead] at hpost
    exact (congrArg Prod.snd hpost).symm
  refine ⟨s₁.setReq q { s.reqs q with caller := .returned true urmaSuccess }, ?_,
    congrArg Request.caller (reqs_setReq_self ..)⟩
  simp only [Transport.step, Transport.callerStep, hc, hinfo, hpost, hret, if_true]

/-- The jetty is prefilled, or has been before. -/
theorem callerStep_prefill {recvInfo : UrmaRecvInfo} (hc : (s.reqs q).caller = .prefilling)
    (hinfo : (s.reqs q).prep.urmaInfo = .recv recvInfo) {statuses : List UrmaStatus}
    (hst : ∀ st ∈ statuses, st = urmaSuccess) :
    ∃ s', s.step (.caller q .ok statuses) = some s' ∧
      (s'.reqs q).caller = .returned true urmaSuccess := by
  obtain ⟨⟨ret, recvCtx, events⟩, hinit⟩ :
      ∃ x, Transport.urmaRecvCtxInit s.recvCtx recvInfo statuses = x := ⟨_, rfl⟩
  have hret : ret = urmaSuccess := by
    have hfst : (Transport.urmaRecvCtxInit s.recvCtx recvInfo statuses).1 = urmaSuccess := by
      unfold Transport.urmaRecvCtxInit
      split
      · rfl
      · exact prefillLoop_success _ hst
    rwa [hinit] at hfst
  refine ⟨({ s.emit events with recvCtx } : Transport).setReq q
    { s.reqs q with handle := true, caller := .returned true urmaSuccess }, ?_,
    congrArg Request.caller (reqs_setReq_self ..)⟩
  simp only [Transport.step, Transport.callerStep, hc, hinfo, hinit, hret]
  rfl

/-- Its own next step, with memory and no failing post.  Each of the four places of a call has one
    next step, and each brings the bound down. -/
theorem Going.own (h : Going s q n) (hpos : 0 < s.pool.workerCount) {statuses : List UrmaStatus}
    (hst : ∀ st ∈ statuses, st = urmaSuccess) :
    (∃ st, (s.reqs q).caller = .returned true st) ∨
      ∃ s', s.step (.caller q .ok statuses) = some s' ∧ ∃ m, m < n ∧ Going s' q m := by
  cases h with
  | @submitting n hc hp hpool =>
    right
    by_cases hn : n = 0
    · subst hn
      generalize hcall : s.pool.calls (.caller q) = pc at hpool
      cases hpool
      obtain ⟨s', hs, hnext⟩ := Going.collect hc hp hcall statuses
      exact ⟨s', hs, 1, by omega, hnext⟩
    · obtain ⟨pool, hadvance, m, hm, hnext⟩ := PoolSys.accepting_advance hpool hpos hn
      exact ⟨s.setPool pool, callerStep_section hc hadvance statuses, m + 2, by omega,
        .submitting hc hp hnext⟩
  | writing hc hp hinfo =>
    obtain ⟨s', hs, hret⟩ := callerStep_write hc hp hinfo hst
    exact .inr ⟨s', hs, 0, by omega, .returned hret⟩
  | prefilling hc hinfo =>
    obtain ⟨s', hs, hret⟩ := callerStep_prefill hc hinfo hst
    exact .inr ⟨s', hs, 0, by omega, .returned hret⟩
  | returned hc => exact .inl ⟨_, hc⟩

/-- A call of which every allocation and every post succeeds.  The steps of other calls are not
    restricted. -/
def smooth (q : Nat) (_ : Transport) : Action → Bool
  | .caller q' alloc statuses => q' != q || (alloc == .ok && statuses.all (· == urmaSuccess))
  | _ => true

/-- The step is one of the call that makes request `q`. -/
def Action.advances (q : Nat) : Action → Bool
  | .caller q' _ _ => q' == q
  | _ => false

/-- However the threads interleave, the call `a` for request `q`, made in `s`, returns `0` (`b`) or
    `-1`: while its allocations and posts succeed it can take its next step until it has returned
    `b`, and the number of its steps is bounded. -/
def Transport.Returns (s : Transport) (q : Nat) (a : Action) (b : Bool) : Prop :=
  (s.step a).isSome = true ∧
  ∃ n, ∀ as s', exec (smooth q) Transport.step s (a :: as) = some s' →
    as.countP (Action.advances q) ≤ n ∧
      ((∃ st, (s'.reqs q).caller = .returned b st) ∨ (s'.step (.caller q .ok [])).isSome = true)

variable {workerCount : Nat} {capacity : BitVec 32} {ok : Transport → Action → Prop}

/-- One step of a smooth run.  A step of the call itself makes the bound smaller, any other leaves
    it. -/
theorem Going.step (h : Going s q n) (hpos : 0 < s.pool.workerCount) (hok : smooth q s a = true)
    (hs : s.step a = some s') :
    ∃ m, Going s' q m ∧ m + (if a.advances q then 1 else 0) ≤ n := by
  by_cases ha : a.madeBy = some q
  · cases a with
    | callSend q' call mem alloc | callRecv q' call mem alloc =>
      cases ha
      have hfresh := (Transport.begin_of_step (by constructor) hs).1
      cases h with
      | submitting hc | writing hc | prefilling hc | returned hc =>
        rw [hfresh] at hc
        cases hc
    | caller q' alloc statuses =>
      cases ha
      simp only [smooth, bne_self_eq_false, Bool.false_or, Bool.and_eq_true, beq_iff_eq,
        List.all_eq_true] at hok
      obtain ⟨rfl, hst⟩ := hok
      rcases h.own hpos hst with ⟨st, hc⟩ | ⟨s₁, hs₁, m, hm, hnext⟩
      · simp only [Transport.step, Transport.callerStep, hc] at hs
        cases hs
      · obtain rfl : s₁ = s' := Option.some.inj (hs₁.symm.trans hs)
        refine ⟨m, hnext, ?_⟩
        rw [Action.advances, beq_self_eq_true, if_pos rfl]
        omega
    | _ => cases ha
  · refine ⟨n, h.other (Transport.move_of_step hs) ha, ?_⟩
    have hno : a.advances q = false := by
      cases a with
      | caller q' => exact beq_false_of_ne fun hq => ha (congrArg some hq)
      | _ => rfl
    rw [hno]
    simp

/-- The first step of an accepted call.  Its arguments have passed the checks, so `prepareSend` or
    `prepareRecv` has made its tasks. -/
theorem going_of_begin (h : (transportSystem workerCount capacity).Reach ok s) {p : Prepared}
    (ha : ApiCall a q (some p) .ok) (hfresh : (s.reqs q).caller = .fresh) (hp : p.Postable) :
    ∃ s' n, s.step a = some s' ∧ Going s' q n := by
  have hidle : s.pool.calls (.caller q) = .idle := caller_idle_reach h (by rw [hfresh]; simp)
  have hrunning := PoolSys.isRunning_reach (pool_reach h)
  have hwf := ha.wellFormed
  have hbegin : beginSubmission s.pool.isRunning p.submission .ok = .selecting p.submission [] 0 none := by
    have htasks : p.submission.tasks.isEmpty = false := List.isEmpty_eq_false_iff.mpr hwf.tasks_ne_nil
    have hsame : p.submission.tasks.all (fun t => t.requestId == p.submission.requestId) = true := by
      have hid : p.submission.requestId = p.requestId := by
        unfold Submission.requestId
        cases hts : p.submission.tasks with
        | nil => exact absurd hts hwf.tasks_ne_nil
        | cons t ts =>
          refine hwf.requestId_eq t ?_
          rw [show p.tasks = p.submission.tasks from rfl, hts]
          exact List.mem_cons_self
      rw [List.all_eq_true]
      intro t ht
      rw [hid, beq_iff_eq]
      exact hwf.requestId_eq t ht
    unfold beginSubmission
    rw [htasks, hrunning, hsame]
    rfl
  have hsubmit : s.pool.step (.submit (.caller q) p.submission .ok) =
      some (s.pool.setCall (.caller q) (.selecting p.submission [] 0 none)) := by
    simp only [PoolSys.step, PoolSys.isIdle, hidle, if_true, hbegin]
  have hstep : s.step a = some ((s.setPool (s.pool.setCall (.caller q)
      (.selecting p.submission [] 0 none))).setReq q
        { s.reqs q with prep := p, sync := .init p.tasks.length, caller := .submitting }) := by
    have hcall : s.step a = s.beginCall q (some p) .ok := by
      generalize hprep : some p = prep at ha
      cases ha <;> exact if_pos hfresh
    rw [hcall]
    simp only [Transport.beginCall, hsubmit, Option.map_some]
  refine ⟨_, s.pool.workerCount - 0 + p.submission.tasks.length + 3 + 2, hstep, .submitting ?_ ?_ ?_⟩
  · rw [reqs_setReq_self]
  · rw [reqs_setReq_self]
    exact hp
  · show Accepting s.pool.workerCount ((s.pool.setCall _ _).calls _) _
    rw [PoolSys.calls_setCall_self]
    exact .selecting rfl hwf.tasks_ne_nil (Nat.zero_le _) fun _ => rfl

/-- The number of workers stays what it was at the start. -/
theorem workerCount_reach (h : (transportSystem workerCount capacity).Reach ok s) :
    s.pool.workerCount = workerCount :=
  (PoolSys.running_lt (pool_reach h)).1

/-- **When a call returns `0`.**  With memory and no failing post, exactly when it got past its own
    checks.  In the other direction a refused call has returned at its first step, and never returns
    `0` after that. -/
theorem returns_iff (h : (transportSystem workerCount capacity).Reach ok s) (hpos : 0 < workerCount)
    {prep : Option Prepared} (ha : ApiCall a q prep .ok) (hfresh : (s.reqs q).caller = .fresh)
    (hp : ∀ p, prep = some p → p.Postable) : s.Returns q a true ↔ prep.isSome = true := by
  cases prep with
  | none =>
    refine iff_of_false ?_ (by simp)
    rintro ⟨hsome, n, hrun⟩
    obtain ⟨s', hs⟩ := Option.isSome_iff_exists.mp hsome
    have hok : smooth q s a = true := by
      rcases ha.isCall with ⟨_, _, rfl⟩ | ⟨_, _, rfl⟩ <;> rfl
    obtain ⟨-, hret⟩ := hrun [] s' (by rw [exec_cons [] hok hs, exec])
    have hrefused : (s'.reqs q).caller = .returned false urmaSuccess := by
      obtain ⟨-, hbegin⟩ := Transport.begin_of_step ha hs
      cases hbegin
      rw [reqs_setReq_self]
    rcases hret with ⟨st, hret⟩ | hstep
    · rw [hrefused] at hret
      cases hret
    · simp [Transport.step, Transport.callerStep, hrefused] at hstep
  | some p =>
    refine iff_of_true ?_ rfl
    obtain ⟨s₁, n, hs, hgoing⟩ := going_of_begin h ha hfresh (hp p rfl)
    refine ⟨by rw [hs]; rfl, n, ?_⟩
    intro as s' hexec
    have hok : smooth q s a = true := by
      rcases ha.isCall with ⟨_, _, rfl⟩ | ⟨_, _, rfl⟩ <;> rfl
    rw [exec_cons as hok hs] at hexec
    have hr : (transportSystem workerCount capacity).Reach (fun _ _ => True) s₁ :=
      .step (h.mono fun _ _ _ => trivial) trivial hs
    obtain ⟨m, ⟨hr', hgoing'⟩, hm⟩ := exec_variant (I := fun s n =>
        (transportSystem workerCount capacity).Reach (fun _ _ => True) s ∧ Going s q n)
      (Action.advances q) (fun s a s' n hI hok hs => by
        obtain ⟨m, hnext, hm⟩ := hI.2.step (by rw [workerCount_reach hI.1]; exact hpos) hok hs
        exact ⟨m, ⟨.step hI.1 trivial hs, hnext⟩, hm⟩) as ⟨hr, hgoing⟩ hexec
    refine ⟨by omega, ?_⟩
    rcases hgoing'.own (by rw [workerCount_reach hr']; exact hpos) (show ∀ st ∈ [], st = urmaSuccess by simp) with
      hret | ⟨s'', hs'', -⟩
    · exact .inl hret
    · exact .inr (by rw [hs'']; rfl)

end Call

end OsTransport
