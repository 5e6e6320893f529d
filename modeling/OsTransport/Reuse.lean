/-
  Using a request id again.

  A request is ACTIVE from the call that makes it until the wait or the cancel that ends it has
  returned (`Request.Active`).  Ids need only be unique among active requests.  So when an id comes
  back, whatever the pool still has of it belongs to a request that has ended.

  That is something exactly when the last call came back too early.  A waiter is released by the
  object of its request, inside the task function; the worker counts the task off the context of
  the pool afterwards.  And a wake-up that found the context may still be on its way.  Nothing
  makes the wait look at either (`reuse_before_count_down`).

  The invariant is `Phase`: the lane of the id is idle, or one active request has it.

  1. In an idle lane nothing happens until a request of the id is made (`idle_step`).
  2. While a request has the lane, its context counts what is owed and names the worker
     everything is at (`OsTransport.ContextCount`, `OsTransport.Binding`).  Before a wait or a
     cancel gets to its release, no task of the id is queued any more (`RequestStep.clears`): all
     tasks have succeeded, or the cancel found no context, or it has edited the one queue.
  3. If the last section of that call finds no worker and no other call at the id, the count is
     zero and the lane is idle again (`Busy.ends`).

  `clean_slate` is what a new request of the id then finds.

  Two runs end the file.  In one the id comes back before the worker has counted down
  (`reuse_before_count_down`), and its new request finds the context of the old one.  In the other the
  first request has run, was waited for and is counted down before the id is used again
  (`clean_slate_after_wait`).  What the guards ask of all processes is decided there on the few that
  take part, since the others are known to be idle (`call_idle_of_uninvolved`).
-/
import OsTransport.ContextCount
import OsTransport.Solo
import OsTransport.Release
import OsTransport.Returns
import OsTransport.Selection

namespace OsTransport

open Transition Total

variable {κ α : Type*}

/-! ## Idle lanes

Idle, opening, and back to idle when nobody attends to the lane any more. -/

/-- Call `c` may be about to submit, and nothing else goes on.  From such a lane everything proved
    about a first request of an id holds of the next one. -/
structure Lane.Opening (L : Lane κ α) (c : κ) : Prop where
  ctx : L.ctx = none
  queue : ∀ w, L.queue w = []
  wakes : ∀ w, L.wakes w = []
  exec : ∀ w, L.exec w = .loop
  own : L.calls c = .idle ∨ L.calls c = .submitting
  others : ∀ c', c' ≠ c → L.calls c' = .idle

/-- No worker is at the id, and no call.  The context may still be there; with nothing queued and
    the count right it is not. -/
structure Lane.Unattended (L : Lane κ α) : Prop where
  exec : ∀ w, L.exec w = .loop
  wakes : ∀ w, L.wakes w = []
  calls : ∀ c, L.calls c = .idle

section Lane

variable {L : Lane κ α} {c : κ}

/-- In an idle lane any call may be about to submit. -/
theorem Lane.Idle.opening (h : L.Idle) (c : κ) : L.Opening c :=
  ⟨h.ctx, h.queue, h.wakes, h.exec, .inl (h.calls c), fun c' _ => h.calls c'⟩

/-- When it has not begun, the lane is idle. -/
theorem Lane.Opening.idle (h : L.Opening c) (hc : L.calls c = .idle) : L.Idle := by
  refine ⟨h.ctx, h.queue, h.wakes, h.exec, fun c' => ?_⟩
  by_cases hne : c' = c
  · rw [hne, hc]
  · exact h.others c' hne

/-- Nothing is queued or executed, and nothing is owed. -/
theorem Lane.Opening.balance (h : L.Opening c) : L.Balance 0 := by
  refine ⟨0, 0, 0, .zero fun w => ?_, .zero fun w => ?_, .zero fun c' => ?_, ?_⟩
  · rw [h.queue w]
    rfl
  · rw [h.exec w]
    rfl
  · by_cases hne : c' = c
    · rw [hne]
      rcases h.own with hown | hown <;> rw [hown] <;> rfl
    · rw [h.others c' hne]
      rfl
  · rw [h.ctx]
    rfl

/-- So the counts are right. -/
theorem Lane.Opening.counts (h : L.Opening c) : L.Counts := by
  refine ⟨h.balance, fun ctx hctx => ?_, ?_⟩
  · rw [h.ctx] at hctx
    cases hctx
  · rcases h.own with hown | hown
    · refine .inl fun c' => ?_
      rw [(h.idle hown).calls c']
      rfl
    · refine .inr ⟨c, h.ctx, h.wakes, h.exec, by rw [hown]; rfl, ?_, h.others⟩
      intro w k hrec
      rw [hown] at hrec
      cases hrec

/-- An opening lane is bound to no worker. -/
theorem Lane.Opening.not_bound (h : L.Opening c) (w : Nat) : ¬ L.BoundTo w := by
  rintro (⟨ctx, hctx, -⟩ | ⟨c', hc'⟩ | hw)
  · rw [h.ctx] at hctx
    cases hctx
  · by_cases hne : c' = c
    · rw [hne] at hc'
      rcases h.own with hown | hown <;> rw [hown] at hc' <;> cases hc'
    · rw [h.others c' hne] at hc'
      cases hc'
  · exact absurd (h.wakes w) hw

/-- And nothing is bound elsewhere. -/
theorem Lane.Opening.bound (h : L.Opening c) : L.Bound := by
  refine ⟨⟨0, ?_⟩, ⟨0, Int.le_refl 0, h.balance⟩, fun ctx hctx => ?_, fun c' w k hc' => ?_⟩
  · rintro w (hw | hw)
    · exact absurd hw (h.not_bound w)
    · exact absurd (h.queue w) hw
  · rw [h.ctx] at hctx
    cases hctx
  · by_cases hne : c' = c
    · rw [hne] at hc'
      rcases h.own with hown | hown <;> rw [hown] at hc' <;> cases hc'
    · rw [h.others c' hne] at hc'
      cases hc'

/-- Without a submission in progress a missing context means that nothing is queued. -/
theorem Lane.Counts.unqueued (h : L.Counts) (hset : L.Settled) (hctx : L.ctx = none) (w : Nat) :
    L.queue w = [] := by
  obtain ⟨q, e, m, hq, -, hm, heq⟩ := h.balance
  have hle := hset.credit_nonpos hm
  have hlen : (L.queue w).length ≤ q := hq.le w
  rw [hctx, ctxCount] at heq
  exact List.eq_nil_of_length_eq_zero (by omega)

variable [DecidableEq κ]

/-- Without any call, worker or queued task the context is gone. -/
theorem Lane.Unattended.idle (h : L.Unattended) (hcounts : L.Counts) (hqueue : ∀ w, L.queue w = []) :
    L.Idle := by
  refine ⟨?_, hqueue, h.wakes, h.exec, h.calls⟩
  by_contra hne
  obtain ⟨ctx, hctx⟩ := Option.ne_none_iff_exists'.mp hne
  obtain ⟨q, e, m, hq, he, hm, heq⟩ := hcounts.balance
  obtain rfl : q = 0 := hq.unique (.zero fun w => by rw [hqueue w]; rfl)
  obtain rfl : e = 0 := he.unique (.zero fun w => by rw [h.exec w]; rfl)
  obtain rfl : m = 0 := hm.unique (.zero fun c => by rw [h.calls c]; rfl)
  have hpos := (hcounts.counts ctx hctx).1
  rw [hctx, ctxCount] at heq
  omega

variable {r : ReqId} {L' : Lane κ α} {l : LaneLabel κ α}

/-- In an idle lane only a submission begins. -/
theorem idle_step (h : L.Idle) (hs : LaneStep r L l L') :
    L' = L ∨ ∃ c, l = .submit c ∧ L'.Opening c := by
  have hcall : ∀ {c : κ} {pc : LaneCall}, L.calls c = pc → pc = .idle := fun hc => hc ▸ h.calls _
  cases hs with
  | tau => exact .inl rfl
  | @submit c =>
    refine .inr ⟨c, rfl, h.ctx, h.queue, h.wakes, h.exec, .inr (Function.update_self ..), ?_⟩
    intro c' hc'
    exact (Function.update_of_ne hc' ..).trans (h.calls c')
  | giveUp hc | attach hc | record hc | pushWake hc | dropWake hc | cancelQueue hc | uncount hc =>
    cases hcall hc
  | lookWake _ hctx | lookCancel _ hctx =>
    rw [h.ctx] at hctx
    cases hctx
  | take _ hw | miss _ hw =>
    rw [h.wakes] at hw
    cases hw
  | finish hx | account hx =>
    rw [h.exec] at hx
    cases hx

/-- An opening lane stays one until its tasks are attached. -/
theorem opening_step (h : L.Opening c) (hs : LaneStep r L l L') (hsub : ∀ c', l ≠ .submit c') :
    L'.Opening c ∨ ∃ c' w nodes, l = .attach c' w nodes := by
  have hcall : ∀ {c' : κ} {pc : LaneCall}, L.calls c' = pc → pc = .idle ∨ c' = c ∧ pc = .submitting := by
    rintro c' pc rfl
    by_cases hne : c' = c
    · subst hne
      exact h.own.imp_right fun hsub => ⟨rfl, hsub⟩
    · exact .inl (h.others c' hne)
  cases hs with
  | tau => exact .inl h
  | submit => exact absurd rfl (hsub _)
  | attach => exact .inr ⟨_, _, _, rfl⟩
  | @giveUp c' hc =>
    rcases hcall hc with hidle | ⟨rfl, -⟩
    · cases hidle
    · refine .inl ⟨h.ctx, h.queue, h.wakes, h.exec, .inl (Function.update_self ..), ?_⟩
      intro c'' hc''
      exact (Function.update_of_ne hc'' ..).trans (h.others c'' hc'')
  | record hc | pushWake hc | dropWake hc | cancelQueue hc | uncount hc =>
    rcases hcall hc with hidle | ⟨-, hidle⟩ <;> cases hidle
  | lookWake _ hctx | lookCancel _ hctx =>
    rw [h.ctx] at hctx
    cases hctx
  | take _ hw | miss _ hw =>
    rw [h.wakes] at hw
    cases hw
  | finish hx | account hx =>
    rw [h.exec] at hx
    cases hx

/-- A call that submits has begun to. -/
theorem submits_step (hs : LaneStep r L l L') (hsub : ∀ c', l ≠ .submit c') {c : κ}
    (hc : (L'.calls c).submits = true) : (L.calls c).submits = true := by
  have hset : ∀ {c' : κ} {pc : LaneCall}, (pc.submits = true → (L.calls c').submits = true) →
      (Function.update L.calls c' pc c).submits = true → (L.calls c).submits = true := by
    intro c' pc hpc hc
    by_cases hne : c = c'
    · rw [hne, Function.update_self] at hc
      rw [hne]
      exact hpc hc
    · rwa [Function.update_of_ne hne] at hc
  cases hs with
  | submit => exact absurd rfl (hsub _)
  | @attach c' w nodes hc' =>
    refine hset (fun _ => ?_) hc
    rw [hc']
    rfl
  | giveUp | record | lookWake | pushWake | dropWake | lookCancel | uncount =>
    exact hset (fun hx => by cases hx) hc
  | cancelQueue =>
    refine hset (fun hx => ?_) hc
    split at hx <;> cases hx
  | _ => exact hc

end Lane

/-! ## Active requests

When a request begins and ends to be active, and what is known when it ends. -/

/-- The call returned without having registered any task. -/
def Request.Refused (r : Request) : Prop := (∃ ok st, r.caller = .returned ok st) ∧ r.bound = false

/-- Called, and not ended: neither has the call returned without a task, nor the wait or the cancel
    of the handle. -/
def Request.Active (r : Request) : Prop :=
  r.caller ≠ .fresh ∧ ¬ r.Refused ∧ ∀ ret, r.owner ≠ .returned ret

/-- Request `q` is active, with id `r`. -/
def Transport.Uses (s : Transport) (q : Nat) (r : ReqId) : Prop :=
  (s.reqs q).Active ∧ (s.reqs q).prep.requestId = r

/-- The wait or the cancel is past the point where the queue is known to be empty.  A wait gets
    there after its cancel, if it has to make one, has edited the queue. -/
def RequestView.Cleared (v : RequestView) : Prop :=
  match v.req.owner with
  | .cancelling _ => ∃ n, v.cancel = .removed n
  | .adding _ _ => True
  | .addFreeing _ => True
  | .releasing _ => True
  | .freeing _ => True
  | .returned _ => True
  | _ => False

section Request

variable {q : Nat} {v v' : RequestView}

/-- A request is active while its caller submits. -/
theorem active_of_submitting (h : RequestInv q v) (hc : v.req.caller = .submitting) :
    v.req.Active := by
  have howner : v.req.owner = .idle := h.owned.idle fun ok st => by rw [hc]; simp
  refine ⟨by rw [hc]; simp, ?_, fun ret => by rw [howner]; simp⟩
  rintro ⟨⟨ok, st, hret⟩, -⟩
  rw [hc] at hret
  cases hret

/-- A request that is active after a step was so before, or has just been made. -/
theorem RequestStep.active (hs : RequestStep q v v') (hinv : RequestInv q v) (h : v'.req.Active) :
    v.req.Active ∨ v.req.caller = .fresh ∧ v'.req.caller = .submitting := by
  obtain ⟨hfresh, hrefused, hret⟩ := h
  -- a step of the caller or of the owner says where it was
  have hcaller : v.req.owner = v'.req.owner → v.req.caller ≠ .fresh →
      (∀ ok st, v.req.caller ≠ .returned ok st) → v.req.Active := by
    intro howner hc hc'
    refine ⟨hc, ?_, howner ▸ hret⟩
    rintro ⟨⟨ok, st, hx⟩, -⟩
    exact hc' ok st hx
  have howner : v.req.caller = v'.req.caller → v.req.bound = v'.req.bound →
      (∀ ret, v.req.owner ≠ .returned ret) → v.req.Active := by
    intro hc hb ho
    refine ⟨hc ▸ hfresh, ?_, ho⟩
    rintro ⟨hx, hx'⟩
    exact hrefused ⟨hc ▸ hx, hb ▸ hx'⟩
  cases hs with
  | refuse hc => exact absurd ⟨⟨_, _, rfl⟩, (hinv.stage.of_fresh hc).1⟩ hrefused
  | submit hc => exact .inr ⟨hc, rfl⟩
  | select hc | attach hc | record hc | register hc | unregistered hc | fail hc =>
    exact .inl (hcaller rfl (by rw [hc]; simp) (by rw [hc]; simp))
  | post hc => exact .inl (hcaller rfl (by rcases hc with hc | hc <;> rw [hc] <;> simp)
      (by rcases hc with hc | hc <;> rw [hc] <;> simp))
  | callWait _ _ ho | callCancel _ _ ho | unbound ho | timeout ho | condError ho | beginCancel ho
  | remove ho | counted ho | refusedWait ho | refusedCancel ho | add ho | addFree ho | release ho
  | request ho | recheck ho | ownerFree ho => exact .inl (howner rfl rfl (by rw [ho]; simp))
  | check ho => exact .inl (howner rfl rfl (by rcases ho with ho | ho <;> rw [ho] <;> simp))
  | removeOther | status | mark | workerFree => exact .inl (howner rfl rfl hret)

/-- What gets a wait or a cancel past that point: all tasks have succeeded, or its cancel has looked
    at the queue. -/
theorem RequestStep.clears (hs : RequestStep q v v') (hinv : RequestInv q v)
    (hcan : v.cancel ≠ .refused) (h : v'.Cleared) :
    v.Cleared ∨ v.req.owner ≠ .idle ∧ v.req.sync.totalTasks ≤ v.req.sync.completedTasks ∨
      (∃ ok st, v.req.caller = .returned ok st) ∧ (∃ n, v'.cancel = .removed n) ∧
        ∀ n, v.cancel ≠ .removed n := by
  have hother : (∀ wait, v.req.owner ≠ .cancelling wait) → ∀ n, v.cancel ≠ .removed n := by
    intro ho n
    rw [hinv.silent.cancel ho]
    simp
  cases hs with
  | callWait | unbound | timeout | condError | refusedCancel | request => exact h.elim
  | @check timed ho =>
    refine .inr (.inl ⟨by rcases ho with ho | ho <;> rw [ho] <;> simp, ?_⟩)
    have hpc : (v.setOwner (Transport.checkCompleted v.req timed)).Cleared := h
    unfold Transport.checkCompleted at hpc
    split at hpc
    · cases hverdict : v.req.sync.verdict with
      | ok => exact (TaskSync.verdict_ok hverdict).1.ge
      | _ =>
        rw [hverdict] at hpc
        exact hpc.elim
    · exact hpc.elim
  | callCancel _ hc ho => exact .inr (.inr ⟨hc, h, hother fun wait => by rw [ho]; simp⟩)
  | beginCancel ho =>
    have hc := (hinv.owned.active_of ho (by simp)).2
    exact .inr (.inr ⟨hc, h, hother fun wait => by rw [ho]; simp⟩)
  | remove ho hl =>
    have hc := (hinv.owned.active_of ho (by simp)).2
    exact .inr (.inr ⟨hc, ⟨_, rfl⟩, fun n => by rw [hl]; simp⟩)
  | counted ho hn =>
    left
    unfold RequestView.Cleared
    rw [ho]
    exact ⟨_, hn⟩
  | refusedWait _ hn => exact absurd hn hcan
  | add ho | addFree ho | release ho | ownerFree ho =>
    left
    unfold RequestView.Cleared
    rw [ho]
    trivial
  | recheck ho => exact absurd ho (hinv.owned.stage.ne none).2.2
  | refuse | submit | select | attach | record | register | unregistered | post | fail | removeOther
  | status | mark | workerFree => exact .inl h

/-- It returns from its last section, which is beyond that point. -/
theorem RequestStep.returns_cleared (hs : RequestStep q v v') (hinv : RequestInv q v) {ret : OwnerRet}
    (ho' : v'.req.owner = .returned ret) (hno : ∀ ret, v.req.owner ≠ .returned ret) :
    v.Cleared ∧ ∀ wait, v.req.owner ≠ .cancelling wait := by
  cases hs with
  | callWait | callCancel | unbound | timeout | condError | beginCancel | counted | refusedWait
  | refusedCancel | addFree | request => cases ho'
  | check =>
    have hpc : Transport.checkCompleted v.req _ = .returned ret := ho'
    unfold Transport.checkCompleted at hpc
    split at hpc
    · split at hpc <;> cases hpc
    · cases hpc
  | @add n wait sync shouldFree =>
    have hpc : (if shouldFree then OwnerPc.addFreeing wait else .releasing wait) = .returned ret := ho'
    split at hpc <;> cases hpc
  | release ho | ownerFree ho =>
    unfold RequestView.Cleared
    rw [ho]
    exact ⟨trivial, by simp⟩
  | recheck ho => exact absurd ho (hinv.owned.stage.ne none).2.2
  | refuse | submit | select | attach | record | register | unregistered | post | fail | remove
  | removeOther | status | mark | workerFree => exact absurd ho' (hno ret)

/-- By then there is a wait or a cancel. -/
theorem RequestView.Cleared.not_idle (h : v.Cleared) : v.req.owner ≠ .idle := by
  intro hidle
  unfold RequestView.Cleared at h
  rw [hidle] at h
  exact h

/-- By then the call has long returned. -/
theorem RequestView.Cleared.active (h : v.Cleared) (hinv : RequestInv q v) :
    v.req.handle = true ∧ ∃ ok st, v.req.caller = .returned ok st :=
  hinv.owned.active h.not_idle

end Request

/-! ## The calls of an owner

An owner is in the pool to cancel, and for nothing else. -/

/-- No call, or a cancel on a running pool. -/
def Call.OnlyCancels : Call α → Prop
  | .idle => True
  | .cancelling _ _ => True
  | .uncounting _ _ => True
  | .done (.removed _) => True
  | _ => False

/-- Such a call comes to a count of removed tasks in two ways: it finds no context, or it edits the
    queue of the worker it has looked up. -/
theorem onlyCancels_step [DecidableEq κ] {s s' : PoolSys κ α} {pa : PoolAction κ α} {c : κ}
    (hrun : s.isRunning = true) (h : (s.calls c).OnlyCancels)
    (hsub : ∀ sub alloc, pa ≠ .submit c sub alloc) (hwake : ∀ r u, pa ≠ .wake c r u)
    (hs : s.step pa = some s') :
    (s'.calls c).OnlyCancels ∧ ∀ n, (s'.calls c).cancelPhase = .removed n →
      (s.calls c).cancelPhase = .removed n ∨
      (∃ reqId, pa = .cancel c reqId ∧ s.reqHash.find reqId = none) ∨
      ∃ reqId w alloc, pa = .advance c alloc ∧ s.calls c = .cancelling reqId w := by
  by_cases hproc : pa.proc = some c
  · cases pa with
    | submit c' sub alloc =>
      obtain rfl : c' = c := Option.some.inj hproc
      exact absurd rfl (hsub sub alloc)
    | wake c' r u =>
      obtain rfl : c' = c := Option.some.inj hproc
      exact absurd rfl (hwake r u)
    | cancel c' reqId =>
      obtain rfl : c' = c := Option.some.inj hproc
      obtain ⟨-, hs⟩ := Option.ite_none_right_eq_some.mp hs
      rw [hrun] at hs
      simp only [Bool.not_true, Bool.false_eq_true, if_false] at hs
      split at hs <;> cases hs <;> rw [PoolSys.calls_setCall_self]
      · rename_i hfind
        exact ⟨trivial, fun n _ => .inr (.inl ⟨reqId, rfl, hfind⟩)⟩
      · exact ⟨trivial, fun n hn => by cases hn⟩
    | advance c' alloc =>
      obtain rfl : c' = c := Option.some.inj hproc
      have hstep : s.advance c' alloc = some s' := hs
      cases hcall : s.calls c' with
      | idle | done =>
        simp only [PoolSys.advance, hcall] at hstep
        cases hstep
      | cancelling reqId w =>
        refine ⟨?_, fun n _ => .inr (.inr ⟨reqId, w, alloc, rfl, rfl⟩)⟩
        simp only [PoolSys.advance, hcall, Option.some.injEq] at hstep
        rw [← hstep, PoolSys.calls_setCall_self]
        split <;> trivial
      | uncounting reqId k =>
        simp only [PoolSys.advance, hcall, Option.some.injEq] at hstep
        rw [← hstep, PoolSys.calls_setCall_self]
        exact ⟨trivial, fun n hn => .inl hn⟩
      | _ =>
        rw [hcall] at h
        exact h.elim
    | collect c' =>
      obtain rfl : c' = c := Option.some.inj hproc
      rw [(PoolSys.collect_calls hs).2]
      exact ⟨trivial, fun n hn => by cases hn⟩
    | pop | finish | account => cases hproc
  · rw [PoolSys.step_calls_of_ne hs hproc]
    exact ⟨h, fun n hn => .inl hn⟩

section Owner

variable {workerCount : Nat} {capacity : BitVec 32} {ok : Transport → Action → Prop}
  {s s' : Transport} {a : Action} {pa : PoolAction Proc ArgPtr}

/-- Owners only cancel. -/
theorem owner_cancels (h : Calls s a pa) (q : Nat) :
    (∀ sub alloc, pa ≠ .submit (.owner q) sub alloc) ∧ ∀ r u, pa ≠ .wake (.owner q) r u := by
  constructor
  · rintro sub alloc rfl
    obtain ⟨q', p, hc, -⟩ := h
    cases hc
  · rintro r u rfl
    obtain ⟨k, cr, status, tag, hc, -⟩ := h
    cases hc

/-- In every run an owner only cancels. -/
theorem onlyCancels_reach (h : (transportSystem workerCount capacity).Reach ok s) (q : Nat) :
    (s.pool.calls (.owner q)).OnlyCancels := by
  refine h.invariant (I := fun s => (s.pool.calls (.owner q)).OnlyCancels) ?_ ?_
  · rintro s rfl
    trivial
  · intro s a s' hr hI _ hs
    rcases (Transport.move_of_step hs).pool with hpool | ⟨pa, hpa, hpool⟩
    · rw [hpool]
      exact hI
    · obtain ⟨hsub, hwake⟩ := owner_cancels hpa q
      exact (onlyCancels_step (PoolSys.isRunning_reach (pool_reach hr)) hI hsub hwake hpool).1

/-- No cancel of an owner is refused. -/
theorem unrefused_reach (h : (transportSystem workerCount capacity).Reach ok s) (q : Nat) :
    (s.view q).cancel ≠ .refused := by
  have hcalls := onlyCancels_reach h q
  show (s.pool.calls (.owner q)).cancelPhase ≠ .refused
  cases hc : s.pool.calls (.owner q) with
  | done res =>
    rw [hc] at hcalls
    cases res with
    | removed n => simp [Call.cancelPhase]
    | _ => exact hcalls.elim
  | _ => simp [Call.cancelPhase]

end Owner

/-! ## When an id may be used again

The two guards, and what holds while a request has the lane. -/

/-- A request of `r` is made while no other is active. -/
def DistinctIds (r : ReqId) (s : Transport) (a : Action) : Prop :=
  ∀ q p alloc, ApiCall a q (some p) alloc → p.requestId = r → ∀ q', ¬ s.Uses q' r

/-- A request of `r` ends when the pool is done with it.  The main part is about the last step of
    the old request; nothing is asked of the new one. -/
structure EndsDone (r : ReqId) (s : Transport) (a : Action) : Prop where
  /-- The wait or the cancel returns when no worker and no other call is at `r`. -/
  returns : ∀ q s' ret, s.step a = some s' → s.Uses q r → (s'.reqs q).owner = .returned ret →
    (lane r s.pool).Unattended
  /-- It is cancelled with its own id. -/
  named : ∀ q reqId, a = .callCancel q reqId → s.Uses q r → reqId = r
  /-- Its context has been allocated. -/
  memory : ∀ q alloc statuses sub w nodes, a = .caller q alloc statuses →
    s.pool.calls (.caller q) = .recording sub w nodes → sub.requestId = r → alloc = .ok

/-- No task of `r` is queued. -/
def Transport.NoneQueued (s : Transport) (r : ReqId) : Prop :=
  ∀ w, ∀ t ∈ (s.pool.workers w).queue, t.requestId ≠ r

/-- Request `q` has the lane of `r`. -/
structure Busy (r : ReqId) (s : Transport) (q : Nat) : Prop where
  uses : s.Uses q r
  only : ∀ q', s.Uses q' r → q' = q
  counts : (lane r s.pool).Counts
  bound : (lane r s.pool).Bound
  before : (s.view q).attached = [] → (lane r s.pool).Opening (.caller q)
  own : ∀ w, ∀ t ∈ (s.pool.workers w).queue, t.requestId = r → t.ptr.sync = q
  callers : ∀ c, ((lane r s.pool).calls c).submits = true → c = .caller q
  mine : ∀ reqId w, s.pool.calls (.owner q) = .cancelling reqId w → reqId = r
  cleared : (s.view q).Cleared → s.NoneQueued r

inductive Phase (r : ReqId) (s : Transport) : Prop
  | free (hno : ∀ q, ¬ s.Uses q r) (hL : (lane r s.pool).Idle)
  | busy {q : Nat} (h : Busy r s q)

section Step

variable {workerCount : Nat} {capacity : BitVec 32} {ok : Transport → Action → Prop}
  {s s' : Transport} {a : Action} {q : Nat} {r : ReqId} {l : LaneLabel Proc ArgPtr}

/-- A call that starts to submit in the lane is a call of the API that makes a request of the id. -/
theorem submit_label {c : Proc} (h : SeesLane r s a (.submit c) s') :
    ∃ q p alloc, c = .caller q ∧ ApiCall a q (some p) alloc ∧ p.requestId = r := by
  obtain ⟨-, ⟨-, hl⟩ | ⟨pa, hpa, -, -, sub, alloc, rfl, hid⟩⟩ := h
  · cases hl
  · obtain ⟨q, p, rfl, hcall, rfl, -⟩ := hpa
    exact ⟨q, p, alloc, rfl, hcall, hcall.wellFormed.submission_requestId.symm.trans hid⟩

/-- Such a call leaves an active request. -/
theorem uses_of_call (hr' : (transportSystem workerCount capacity).Reach ok s')
    (hs : s.step a = some s') {p : Prepared} {alloc : Alloc} (hcall : ApiCall a q (some p) alloc)
    (hid : p.requestId = r) : s'.Uses q r := by
  obtain ⟨-, hbegin⟩ := Transport.begin_of_step hcall hs
  obtain ⟨pool, -, rfl⟩ := Option.map_eq_some_iff.mp hbegin
  have hreq := reqs_setReq_self (s.setPool pool) q
    { s.reqs q with prep := p, sync := .init p.tasks.length, caller := .submitting }
  refine ⟨active_of_submitting (request_inv hr' q) ?_, ?_⟩
  · exact congrArg Request.caller hreq
  · rw [hreq]
    exact hid

/-- An active request was active before the step, or the step has made it.  Nothing that is over
    becomes active again. -/
theorem uses_step (hr : (transportSystem workerCount capacity).Reach ok s)
    (hs : s.step a = some s') (h : s'.Uses q r) :
    s.Uses q r ∨ (s'.reqs q).caller = .submitting ∧
      ∃ p alloc, ApiCall a q (some p) alloc ∧ p.requestId = r := by
  obtain ⟨hact, hid⟩ := h
  have hm := Transport.move_of_step hs
  rcases view_step hr hs q with heq | hstep
  · have hreq : s'.reqs q = s.reqs q := congrArg RequestView.req heq
    rw [hreq] at hact hid
    exact .inl ⟨hact, hid⟩
  · rcases hstep.active (request_inv hr q) hact with hold | ⟨hfresh, hsub⟩
    · rcases hstep.prep with ⟨hprep, -⟩ | ⟨hfresh, -⟩
      · refine .inl ⟨hold, ?_⟩
        rw [← hid]
        exact congrArg Prepared.requestId hprep.symm
      · exact absurd hfresh hold.1
    · refine .inr ⟨hsub, ?_⟩
      have hfresh' : (s.reqs q).caller = .fresh := hfresh
      have hsub' : (s'.reqs q).caller = .submitting := hsub
      have hbegin : ∀ {prep alloc}, ApiCall a q prep alloc →
          ∃ p alloc, ApiCall a q (some p) alloc ∧ p.requestId = r := by
        intro prep alloc hcall
        obtain ⟨-, hb⟩ := Transport.begin_of_step hcall hs
        cases prep with
        | none =>
          obtain rfl := Option.some.inj hb
          rw [reqs_setReq_self] at hsub'
          cases hsub'
        | some p =>
          obtain ⟨pool, -, rfl⟩ := Option.map_eq_some_iff.mp hb
          rw [reqs_setReq_self] at hid
          exact ⟨p, alloc, hcall, hid⟩
      by_cases hmade : a.madeBy = some q
      · cases a with
        | callSend q' call mem alloc =>
          obtain rfl : q' = q := Option.some.inj hmade
          exact hbegin (.send q' call mem alloc)
        | callRecv q' call mem alloc =>
          obtain rfl : q' = q := Option.some.inj hmade
          exact hbegin (.recv q' call mem alloc)
        | caller q' =>
          obtain rfl : q' = q := Option.some.inj hmade
          have hcaller : s.callerStep q' _ _ = some s' := hs
          simp only [Transport.callerStep, hfresh'] at hcaller
          cases hcaller
        | _ => cases hmade
      · have hframe : (s'.reqs q).caller = (s.reqs q).caller :=
          congrArg (fun x => x.2.1) (hm.frame hmade)
        rw [hfresh', hsub'] at hframe
        cases hframe

/-- A call that submits in the lane is the caller of an active request.  It has not returned, so its
    request is in use. -/
theorem submits_uses (hr : (transportSystem workerCount capacity).Reach ok s) {c : Proc}
    (hc : ((lane r s.pool).calls c).submits = true) :
    ∃ q, c = .caller q ∧ (s.reqs q).caller = .submitting := by
  have hsub : (s.pool.calls c).submits = true ∧ (s.pool.calls c).submitPhase ≠ .other := by
    rw [lane_calls] at hc
    cases hcall : s.pool.calls c with
    | selecting | building | attaching => exact ⟨rfl, by simp [Call.submitPhase]⟩
    | recording =>
      have hbatch := batch_reach (pool_reach hr) (c := c) (by rw [hcall]; rfl)
      exact ⟨rfl, by simp [submitPhase_recording hbatch]⟩
    | idle | done =>
      rw [hcall] at hc
      cases hc
    | _ =>
      rw [hcall, laneCall] at hc
      split at hc <;> cases hc
  obtain ⟨q, rfl⟩ := (roles_reach (pool_reach hr)).submits c hsub.1
  refine ⟨q, rfl, ?_⟩
  by_contra hne
  exact hsub.2 ((request_inv hr q).silent.submit hne)

/-- Tasks of the id are only attached for an active request that has none yet.  A call submits once,
    and a well-formed request has at least one task and at most `maxChunkNum`. -/
theorem attaching_uses (hr : (transportSystem workerCount capacity).Reach ok s) {c : Proc}
    {sub : Submission ArgPtr} {w : Nat} {nodes : List (TaskNode ArgPtr)}
    (hcall : s.pool.calls c = .attaching sub w nodes) (hid : sub.requestId = r) :
    ∃ q, c = .caller q ∧ s.Uses q r ∧ (s.reqs q).caller = .submitting ∧
      (s.view q).attached = [] ∧ (∀ t ∈ nodes, t.ptr.sync = q) ∧ nodes ≠ [] ∧
      nodes.length < 2 ^ 31 := by
  have hpool := pool_reach hr
  have hcarry := PoolSys.carries_reach hpool
  obtain ⟨q, rfl, hc, hp, rfl, ha, hnodes⟩ :=
    built_of_attaching hcarry (roles_reach hpool) (request_inv hr) hcall
  have hcreated := hcarry (.caller q)
  rw [hcall] at hcreated
  have hlen : (s.reqs q).prep.tasks.length = nodes.length := hcreated.2.length_eq
  have hpos := hp.chunks_pos
  have hmax : (s.reqs q).prep.chunks.length ≤ 7 := hp.chunks_le
  rw [hp.tasks_length] at hlen
  refine ⟨q, rfl, ⟨active_of_submitting (request_inv hr q) hc, ?_⟩, hc, ha,
    fun t ht => (hnodes t ht).1, ?_, by omega⟩
  · rw [← hid, hp.submission_requestId]
  · rintro rfl
    exact absurd hlen (by simp only [List.length_nil]; omega)

/-- A queued task of the id was queued before, or has just been attached for an active request.  So
    whose tasks are in the queues is a matter of who was active. -/
theorem queued_step (hr : (transportSystem workerCount capacity).Reach ok s)
    (hs : s.step a = some s') {w : Nat} {t : TaskNode ArgPtr}
    (ht : t ∈ (s'.pool.workers w).queue) (hid : t.requestId = r) :
    t ∈ (s.pool.workers w).queue ∨ ∃ q, s.Uses q r ∧ (s.reqs q).caller = .submitting ∧
      t.ptr.sync = q := by
  rcases (Transport.move_of_step hs).pool with hpool | ⟨pa, -, hpool⟩
  · rw [hpool] at ht
    exact .inl ht
  · rcases PoolSys.queue_effect hpool ht with hold | ⟨c, al, sub, nodes, -, hcall, hmem⟩
    · exact .inl hold
    · have hcarry := PoolSys.carries_reach (pool_reach hr) c
      rw [hcall] at hcarry
      obtain ⟨q, -, huse, hc, -, hnodes, -⟩ := attaching_uses hr hcall
        ((requestId_of_created hcarry.2 t hmem).symm.trans hid)
      exact .inr ⟨q, huse, hc, hnodes t hmem⟩

/-- A request that has just been made has an opening lane.  The id was free, so its lane was idle
    before the call. -/
theorem busy_of_opening (hinv : RequestInv q (s.view q)) (huse : s.Uses q r)
    (honly : ∀ q', s.Uses q' r → q' = q) (hsub : (s.reqs q).caller = .submitting)
    (hopen : (lane r s.pool).Opening (.caller q)) : Busy r s q := by
  have howner : (s.view q).req.owner = .idle := hinv.owned.idle fun ok st => by
    rw [show (s.view q).req.caller = .submitting from hsub]
    simp
  refine ⟨huse, honly, hopen.counts, hopen.bound, fun _ => hopen, ?_, ?_, ?_, ?_⟩
  · intro w t ht hid
    have hmem : t ∈ (lane r s.pool).queue w := List.mem_filter.mpr ⟨ht, beq_iff_eq.mpr hid⟩
    rw [hopen.queue w] at hmem
    cases hmem
  · intro c hc
    by_contra hne
    rw [hopen.others c hne] at hc
    cases hc
  · intro reqId w hc
    have hother : (s.pool.calls (.owner q)).cancelPhase = .other :=
      hinv.silent.cancel fun wait => by rw [howner]; simp
    rw [hc] at hother
    cases hother
  · intro hcl
    unfold RequestView.Cleared at hcl
    rw [howner] at hcl
    exact hcl.elim

/-- A free id stays free until a request of it is made.  What may happen in its lane meanwhile,
    wake-ups and cancels by id, finds nothing. -/
theorem free_step (hr : (transportSystem workerCount capacity).Reach ok s)
    (hr' : (transportSystem workerCount capacity).Reach ok s') (hno : ∀ q, ¬ s.Uses q r)
    (hL : (lane r s.pool).Idle) (hs : s.step a = some s') : Phase r s' := by
  obtain ⟨l, hsees⟩ := seesLane_step (r := r) hr hs
  have hmade : ∀ {q}, s'.Uses q r → (s'.reqs q).caller = .submitting ∧ a.madeBy = some q := by
    intro q huse
    rcases uses_step hr hs huse with hold | ⟨hsub, p, alloc, hcall, -⟩
    · exact absurd hold (hno q)
    · exact ⟨hsub, hcall.madeBy⟩
  by_cases huse : ∃ q, s'.Uses q r
  · obtain ⟨q, huse⟩ := huse
    obtain ⟨hsub, hq⟩ := hmade huse
    have honly : ∀ q', s'.Uses q' r → q' = q := fun q' huse' =>
      Option.some.inj ((hmade huse').2.symm.trans hq)
    refine .busy (busy_of_opening (request_inv hr' q) huse honly hsub ?_)
    rcases idle_step hL hsees.1 with heq | ⟨c, rfl, hopen⟩
    · rw [heq]
      exact hL.opening _
    · obtain ⟨q', p, alloc, rfl, hcall, hid⟩ := submit_label hsees
      rwa [honly q' (uses_of_call hr' hs hcall hid)] at hopen
  · refine .free (fun q hq => huse ⟨q, hq⟩) ?_
    rcases idle_step hL hsees.1 with heq | ⟨c, rfl, -⟩
    · rw [heq]
      exact hL
    · obtain ⟨q, p, alloc, -, hcall, hid⟩ := submit_label hsees
      exact absurd ⟨q, uses_of_call hr' hs hcall hid⟩ huse

/-! ## One active request

What a step of any thread leaves of that, and how the request ends. -/

/-- While `q` is active no other request of the id is made.  That is the condition on the callers,
    `DistinctIds`. -/
theorem Busy.only_step (h : Busy r s q) (hr : (transportSystem workerCount capacity).Reach ok s)
    (hd : DistinctIds r s a) (hs : s.step a = some s') {q' : Nat} (huse : s'.Uses q' r) : q' = q := by
  rcases uses_step hr hs huse with hold | ⟨-, p, alloc, hcall, hid⟩
  · exact h.only q' hold
  · exact absurd h.uses (hd q' p alloc hcall hid q)

/-- What a step may be in its lane. -/
structure BusyLabel (q : Nat) (s : Transport) (l : LaneLabel Proc ArgPtr) : Prop where
  submit : ∀ c, l ≠ .submit c
  attach : ∀ c w nodes, l = .attach c w nodes → c = .caller q ∧ (s.view q).attached = [] ∧
    nodes ≠ [] ∧ nodes.length < 2 ^ 31
  record : ∀ c alloc, l = .record c alloc → alloc = true

/-- What can happen to a lane that one request has.  One attach, by its own caller, and a record
    that gets its memory; the rest is wake-ups, workers and cancels. -/
theorem Busy.label (h : Busy r s q) (hr : (transportSystem workerCount capacity).Reach ok s)
    (hd : DistinctIds r s a) (hdone : EndsDone r s a) (hsees : SeesLane r s a l s') :
    BusyLabel q s l := by
  refine ⟨?_, ?_, ?_⟩
  · rintro c rfl
    obtain ⟨q', p, alloc, -, hcall, hid⟩ := submit_label hsees
    exact hd q' p alloc hcall hid q h.uses
  · rintro c w nodes rfl
    obtain ⟨-, ⟨-, hl⟩ | ⟨pa, -, -, -, sub, alloc, -, hcall, hid⟩⟩ := hsees
    · cases hl
    · obtain ⟨q', rfl, huse, -, ha, -, hne, hlen⟩ := attaching_uses hr hcall hid
      obtain rfl := h.only q' huse
      exact ⟨rfl, ha, hne, hlen⟩
  · rintro c alloc rfl
    obtain ⟨-, ⟨-, hl⟩ | ⟨pa, -, halloc, -, sub, w, nodes, al, rfl, hcall, hid, rfl⟩⟩ := hsees
    · cases hl
    · obtain ⟨q', rfl⟩ := (roles_reach (pool_reach hr)).submits c (by rw [hcall]; rfl)
      obtain ⟨statuses, rfl⟩ := halloc
      rw [hdone.memory q' al statuses sub w nodes rfl hcall hid]
      simp

/-- The lane keeps its count, and its one worker.  These are the invariants of
    `OsTransport.ContextCount` and `OsTransport.Binding`, which hold as one request has the lane. -/
theorem Busy.lane_step (h : Busy r s q) (hl : BusyLabel q s l)
    (hstep : LaneStep r (lane r s.pool) l (lane r s'.pool)) :
    (lane r s'.pool).Counts ∧ (lane r s'.pool).Bound := by
  constructor
  · refine counts_step h.counts ?_ hstep
    cases l with
    | submit c => exact absurd rfl (hl.submit c)
    | attach c w nodes => exact (hl.attach c w nodes rfl).2.2
    | record c alloc => exact hl.record c alloc rfl
    | _ => trivial
  · refine bound_step h.bound ?_ hstep
    cases l with
    | attach c w nodes =>
      obtain ⟨-, hnone, hne, -⟩ := hl.attach c w nodes rfl
      exact ⟨hne, fun w' hw' => absurd hw' ((h.before hnone).not_bound w')⟩
    -- the one submission of the id finds no context, and has fewer than 2^31 tasks
    | record c alloc =>
      refine ⟨hl.record c alloc rfl, fun w k hc => ?_⟩
      have hsub := h.counts.submitted (c := c) (by rw [hc]; rfl)
      rw [hsub.ctx, ctxCount, Int.zero_add]
      exact_mod_cast (hsub.loaded w k hc).2
    | _ => trivial

/-- Until its tasks are queued the lane is opening. -/
theorem Busy.before_step (h : Busy r s q) (hr : (transportSystem workerCount capacity).Reach ok s)
    (hr' : (transportSystem workerCount capacity).Reach ok s') (hs : s.step a = some s')
    (hl : BusyLabel q s l) (hstep : LaneStep r (lane r s.pool) l (lane r s'.pool))
    (ha' : (s'.view q).attached = []) : (lane r s'.pool).Opening (.caller q) := by
  have hinv' := request_inv hr' q
  have ha : (s.view q).attached = [] := by
    rcases view_step hr hs q with heq | hview
    · rw [← heq, ha']
    · rcases hview.attached with heq | ⟨sub, -, hsub⟩
      · rw [← heq, ha']
      · exact absurd ha' (hinv'.attached_of_phase hsub)
  rcases opening_step (h.before ha) hstep hl.submit with hopen | ⟨c, w, nodes, rfl⟩
  · exact hopen
  · obtain ⟨rfl, -⟩ := hl.attach c w nodes rfl
    have hrec : ∃ w k, (lane r s'.pool).calls (.caller q) = .recording w k := by
      generalize lane r s'.pool = L' at hstep
      cases hstep with
      | attach => exact ⟨_, _, Function.update_self ..⟩
    obtain ⟨w', k, hrec⟩ := hrec
    exact absurd ha' (attached_of_recording hr' hrec)

/-- A cancel its owner begins is one of the id. -/
theorem Busy.cancels (h : Busy r s q) (hr : (transportSystem workerCount capacity).Reach ok s)
    (hdone : EndsDone r s a) {reqId : ReqId} (hpa : Calls s a (.cancel (.owner q) reqId)) :
    reqId = r := by
  rcases hpa with ⟨q', hq, rfl | ⟨cond, wait, task, tasks, rfl, ho, htasks, rfl⟩⟩ | ⟨k, hk, -⟩
  · cases hq
    exact hdone.named q reqId rfl h.uses
  · cases hq
    rw [requestId_of_failed (request_inv hr q) ho htasks]
    exact h.uses.2
  · cases hk

/-- Its owner only cancels the id. -/
theorem Busy.mine_step (h : Busy r s q) (hr : (transportSystem workerCount capacity).Reach ok s)
    (hdone : EndsDone r s a) (hs : s.step a = some s') {reqId : ReqId} {w : Nat}
    (hc : s'.pool.calls (.owner q) = .cancelling reqId w) : reqId = r := by
  rcases (Transport.move_of_step hs).pool with hpool | ⟨pa, hpa, hpool⟩
  · rw [hpool] at hc
    exact h.mine reqId w hc
  · rcases PoolSys.cancelling_effect hpool hc with hold | rfl
    · exact h.mine reqId w hold
    · exact h.cancels hr hdone hpa

/-- Nothing of the id gets queued once the call has returned.  Its submission was the only one. -/
theorem Busy.noneQueued_step (h : Busy r s q)
    (hr : (transportSystem workerCount capacity).Reach ok s) (hs : s.step a = some s')
    (hc : (s.reqs q).caller ≠ .submitting) (hnone : s.NoneQueued r) : s'.NoneQueued r := by
  intro w t ht hid
  rcases queued_step hr hs ht hid with hold | ⟨q', huse, hsub, -⟩
  · exact hnone w t hold hid
  · obtain rfl := h.only q' huse
    exact hc hsub

/-- With none of its tasks queued, the lane of an id is empty. -/
theorem Transport.NoneQueued.lane_queue (h : s.NoneQueued r) (w : Nat) :
    (lane r s.pool).queue w = [] := by
  refine List.filter_eq_nil_iff.mpr fun t ht => ?_
  simpa using h w t ht

/-- When its tasks have all succeeded, none of them is queued.  A task that succeeded was taken from
    the queue, and each is in one place. -/
theorem Busy.noneQueued_of_succeeded (h : Busy r s q)
    (hr : (transportSystem workerCount capacity).Reach ok s) (ho : (s.reqs q).owner ≠ .idle)
    (hall : (s.reqs q).sync.totalTasks ≤ (s.reqs q).sync.completedTasks) : s.NoneQueued r := by
  have hinv := request_inv hr q
  obtain ⟨hh, -⟩ := hinv.owned.active ho
  obtain ⟨-, -, -, hb, -⟩ := hinv.stage.of_bound (.inr (.inl hh))
  obtain ⟨Q, E, hL⟩ := ledger_reach hr
  obtain ⟨hQ, -⟩ := all_succeeded hL hinv hb hall
  have htotal := hL.queuedTasks q
  rw [hQ] at htotal
  intro w t ht hid
  have hle : (s.pool.workers w).queue.countP (fun t => t.ptr.sync == q) ≤ 0 := htotal.le w
  refine List.countP_eq_zero.mp (Nat.le_zero.mp hle) t ht ?_
  simpa using h.own w t ht hid

/-- A cancel that finds no context would find no task either.  The context counts the queued tasks,
    and goes only at zero. -/
theorem Busy.noneQueued_of_no_context (h : Busy r s q)
    (hr : (transportSystem workerCount capacity).Reach ok s)
    (hc : (s.reqs q).caller ≠ .submitting) (hfind : s.pool.reqHash.find r = none) :
    s.NoneQueued r := by
  have hset : (lane r s.pool).Settled := by
    intro c
    by_contra hne
    have hsub : ((lane r s.pool).calls c).submits = true := by simpa using hne
    obtain ⟨q', rfl, hsub'⟩ := submits_uses hr hsub
    cases h.callers _ hsub
    exact hc hsub'
  intro w t ht hid
  exact laneQueue_ne_nil ht hid (h.counts.unqueued hset hfind w)

/-- A cancel that has looked up a worker empties the one queue there is.  All tasks of the id are at
    the worker its context names. -/
theorem Busy.noneQueued_of_cancelled (h : Busy r s q) {w : Nat} {alloc : Alloc}
    (hcall : s.pool.calls (.owner q) = .cancelling r w)
    (hpool : s.pool.step (.advance (.owner q) alloc) = some s'.pool) : s'.NoneQueued r := by
  have hadv : s.pool.advance (.owner q) alloc = some s'.pool := hpool
  have hwork : s'.pool.workers =
      Function.update s.pool.workers w (cancelInWorkerQueue (s.pool.workers w) r) := by
    rcases PoolSys.advance_cancel hadv (by rw [hcall]; simp [Call.cancelPhase]) with
      ⟨reqId, w', hcall', hw, -⟩ | ⟨n, hn, -⟩
    · rw [hcall] at hcall'
      cases hcall'
      exact hw
    · rw [hcall] at hn
      cases hn
  intro w' t ht hid
  rw [hwork] at ht
  by_cases hw : w' = w
  · rw [hw, Function.update_self] at ht
    have hkept := (List.mem_filter.mp ht).2
    simp [hid] at hkept
  · rw [Function.update_of_ne hw] at ht
    obtain ⟨w₀, hone⟩ := h.bound.one
    have htarget : ((lane r s.pool).calls (.owner q)).target = some w := by
      rw [lane_calls, laneCall_cancelling.mpr hcall]
      rfl
    have hw₀ : w = w₀ := hone w (.inl (.inr (.inl ⟨_, htarget⟩)))
    have hw₁ : w' = w₀ := hone w' (.inr (laneQueue_ne_nil ht hid))
    exact hw (hw₁.trans hw₀.symm)

/-- Past that point no task of the id is queued.  The three ways to get there are the three lemmas
    above: all succeeded, no context, or a cancel. -/
theorem Busy.cleared_step (h : Busy r s q)
    (hr : (transportSystem workerCount capacity).Reach ok s) (hdone : EndsDone r s a)
    (hs : s.step a = some s') (hcl : (s'.view q).Cleared) : s'.NoneQueued r := by
  have hinv := request_inv hr q
  have hpool := pool_reach hr
  have hkeep : (∃ ok st, (s.reqs q).caller = .returned ok st) → s.NoneQueued r →
      s'.NoneQueued r := by
    rintro ⟨ok, st, hret⟩
    exact h.noneQueued_step hr hs (by rw [hret]; simp)
  have hold : (s.view q).Cleared → s'.NoneQueued r := fun hold =>
    hkeep (hold.active hinv).2 (h.cleared hold)
  rcases view_step hr hs q with heq | hview
  · exact hold (heq ▸ hcl)
  rcases hview.clears hinv (unrefused_reach hr q) hcl with hcl | ⟨ho, hall⟩ | ⟨hret, ⟨n, hn⟩, hno⟩
  · exact hold hcl
  · exact hkeep (hinv.owned.active ho).2 (h.noneQueued_of_succeeded hr ho hall)
  -- the cancel has looked at the queue in this step
  rcases (Transport.move_of_step hs).pool with hp | ⟨pa, hpa, hp⟩
  · refine absurd ?_ (hno n)
    show (s.pool.calls (.owner q)).cancelPhase = _
    rw [← hp]
    exact hn
  · obtain ⟨hsub, hwake⟩ := owner_cancels hpa q
    have hrun := PoolSys.isRunning_reach hpool
    rcases (onlyCancels_step hrun (onlyCancels_reach hr q) hsub hwake hp).2 n hn with
      hph | ⟨reqId, rfl, hfind⟩ | ⟨reqId, w, alloc, rfl, hcall⟩
    · exact absurd hph (hno n)
    · obtain rfl := h.cancels hr hdone hpa
      obtain ⟨ok, st, hc⟩ := hret
      have hc' : (s.reqs q).caller ≠ .submitting := by
        rw [show (s.reqs q).caller = .returned ok st from hc]
        simp
      exact h.noneQueued_step hr hs hc' (h.noneQueued_of_no_context hr hc' hfind)
    · obtain rfl := h.mine reqId w hcall
      exact h.noneQueued_of_cancelled hcall hp

/-- The last section of a wait or a cancel. -/
theorem ends_cleared (hr : (transportSystem workerCount capacity).Reach ok s)
    (hs : s.step a = some s') (hno : ∀ ret, (s.reqs q).owner ≠ .returned ret) {ret : OwnerRet}
    (ho : (s'.reqs q).owner = .returned ret) :
    (s.view q).Cleared ∧ ∀ wait, (s.reqs q).owner ≠ .cancelling wait := by
  rcases view_step hr hs q with heq | hview
  · have hreq : s'.reqs q = s.reqs q := congrArg RequestView.req heq
    rw [hreq] at ho
    exact absurd ho (hno ret)
  · exact hview.returns_cleared (request_inv hr q) ho hno

/-- A request that is over leaves an idle lane.  No task is queued, and `EndsDone` says that no
    worker and no other call is at the id; so nothing is counted, and the context is gone. -/
theorem Busy.ends (h : Busy r s q) (hr : (transportSystem workerCount capacity).Reach ok s)
    (hr' : (transportSystem workerCount capacity).Reach ok s') (hdone : EndsDone r s a)
    (hs : s.step a = some s') (hl : BusyLabel q s l)
    (hstep : LaneStep r (lane r s.pool) l (lane r s'.pool)) (hover : ¬ s'.Uses q r) :
    (lane r s'.pool).Idle := by
  obtain ⟨hprep, hfresh⟩ : (s'.reqs q).prep = (s.reqs q).prep ∧ (s'.reqs q).caller ≠ .fresh := by
    rcases prep_step hr hs q with ⟨heq, hback⟩ | ⟨hfresh, -⟩
    · exact ⟨heq, fun hc => h.uses.1.1 (hback hc)⟩
    · exact absurd hfresh h.uses.1.1
  have hover' : (s'.reqs q).Refused ∨ ∃ ret, (s'.reqs q).owner = .returned ret := by
    by_contra hne
    obtain ⟨hrefused, hret⟩ := not_or.mp hne
    refine hover ⟨⟨hfresh, hrefused, fun ret ho => hret ⟨ret, ho⟩⟩, ?_⟩
    rw [hprep]
    exact h.uses.2
  rcases hover' with ⟨⟨ok', st, hret⟩, hb⟩ | ⟨ret, ho⟩
  · -- it never had a task
    have hcaller : (s'.view q).req.caller = .returned ok' st := hret
    have ha : (s'.view q).attached = [] := by
      cases (request_inv hr' q).stage with
      | unmade _ _ _ ha => exact ha
      | pending hc | queued hc =>
        rw [hcaller] at hc
        cases hc
      | bound _ _ _ hb' =>
        rw [show (s'.view q).req.bound = false from hb] at hb'
        cases hb'
    refine (h.before_step hr hr' hs hl hstep ha).idle ?_
    rw [lane_calls, caller_idle_reach hr' (by rw [hret]; simp)]
    rfl
  · obtain ⟨hcl, -⟩ := ends_cleared hr hs h.uses.1.2.2 ho
    have hidle : (lane r s.pool).Idle :=
      (hdone.returns q s' ret hs h.uses ho).idle h.counts (h.cleared hcl).lane_queue
    rcases idle_step hidle hstep with heq | ⟨c, rfl, -⟩
    · rw [heq]
      exact hidle
    · exact absurd rfl (hl.submit c)

/-- From an active request on: it stays, or it is over.  If it is over the id is free again. -/
theorem busy_step (h : Busy r s q) (hr : (transportSystem workerCount capacity).Reach ok s)
    (hr' : (transportSystem workerCount capacity).Reach ok s') (hd : DistinctIds r s a)
    (hdone : EndsDone r s a) (hs : s.step a = some s') : Phase r s' := by
  obtain ⟨l, hsees⟩ := seesLane_step (r := r) hr hs
  have hl := h.label hr hd hdone hsees
  have honly : ∀ q', s'.Uses q' r → q' = q := fun q' => h.only_step hr hd hs
  by_cases huse : s'.Uses q r
  · obtain ⟨hcounts, hbound⟩ := h.lane_step hl hsees.1
    refine .busy (q := q) ⟨huse, honly, hcounts, hbound, h.before_step hr hr' hs hl hsees.1, ?_,
      fun c hc => h.callers c (submits_step hsees.1 hl.submit hc),
      fun reqId w => h.mine_step hr hdone hs, h.cleared_step hr hdone hs⟩
    intro w t ht hid
    rcases queued_step hr hs ht hid with hold | ⟨q', huse', -, hq⟩
    · exact h.own w t hold hid
    · rw [hq, h.only q' huse']
  · refine .free (fun q' hq' => ?_) (h.ends hr hr' hdone hs hl hsees.1 huse)
    rw [honly q' hq'] at hq'
    exact huse hq'

/-- In every run the lane is idle, or one active request has it.  It is the invariant behind
    `clean_slate`. -/
theorem phase_reach (h : (transportSystem workerCount capacity).Reach
    (fun s a => DistinctIds r s a ∧ EndsDone r s a) s) : Phase r s := by
  refine h.invariant ?_ ?_
  · rintro s rfl
    refine .free (fun q huse => huse.1.1 rfl) ?_
    exact ⟨rfl, fun _ => rfl, fun _ => rfl, fun _ => rfl, fun _ => rfl⟩
  · intro s a s' hr hI hok hs
    cases hI with
    | free hno hL => exact free_step hr (.step hr hok hs) hno hL hs
    | busy hb => exact busy_step hb hr (.step hr hok hs) hok.1 hok.2 hs

end Step

/-! ## What a new request of the id finds

The main result; an opening lane has nothing of the id. -/

/-- The pool holds nothing of `r`.  A new request of the id finds what a first one does. -/
structure CleanSlate (r : ReqId) (s : Transport) : Prop where
  context : s.pool.reqHash.find r = none
  queued : s.NoneQueued r
  /-- No worker is in a task of `r`, or has yet to count one off. -/
  executing : ∀ w t ret u, (s.pool.workers w).exec ≠ .running t r u ∧
    (s.pool.workers w).exec ≠ .returned t r ret
  pending : ∀ w, ∀ p ∈ (s.pool.workers w).pending, p.requestId ≠ r
  /-- No wake-up is on its way to a worker. -/
  waking : ∀ c u w, s.pool.calls c ≠ .waking r u w

/-- While a lane opens, the pool holds nothing of its id.  There are only the call that submits and
    calls that have found nothing. -/
theorem Lane.Opening.cleanSlate {s : Transport} {r : ReqId} {c : Proc}
    (h : (lane r s.pool).Opening c) : CleanSlate r s := by
  refine ⟨h.ctx, ?_, ?_, ?_, ?_⟩
  · intro w t ht hid
    exact laneQueue_ne_nil ht hid (h.queue w)
  · intro w t ret u
    have hloop : laneExec r (s.pool.workers w).exec = .loop := h.exec w
    constructor <;> intro he <;> rw [he, laneExec, if_pos rfl] at hloop <;> cases hloop
  · intro w p hp hid
    exact laneWakes_ne_nil hp hid (h.wakes w)
  · intro c' u w hcall
    have hw : (lane r s.pool).calls c' = .waking u w := by
      rw [lane_calls]
      exact laneCall_waking.mpr hcall
    by_cases hc : c' = c
    · rw [hc] at hw
      rcases h.own with hown | hown <;> rw [hown] at hw <;> cases hw
    · rw [h.others c' hc] at hw
      cases hw

/-- **Clean slate.**  In every run in which requests of `r` are made one at a time, and end when
    the pool is done with them, the pool holds nothing of `r` when a request of it is made, and
    until its tasks are queued.  So they are all on the worker that the context of `r` names. -/
theorem clean_slate {workerCount : Nat} {capacity : BitVec 32} {s : Transport} {r : ReqId}
    (h : (transportSystem workerCount capacity).Reach
      (fun s a => DistinctIds r s a ∧ EndsDone r s a) s) :
    (∀ a q p alloc, ApiCall a q (some p) alloc → p.requestId = r → DistinctIds r s a →
      CleanSlate r s) ∧
    (∀ q, s.Uses q r → (s.view q).attached = [] → CleanSlate r s) ∧
    ((∀ c, (laneCall r (s.pool.calls c)).submits = false) →
      ∀ w, ∀ t ∈ (s.pool.workers w).queue, t.requestId = r →
        ∃ ctx, s.pool.reqHash.find r = some ctx ∧ ctx.workerIdx = w) := by
  refine ⟨?_, ?_, ?_⟩
  · intro a q p alloc hcall hid hd
    cases phase_reach h with
    | free _ hL => exact (hL.opening (.caller q)).cleanSlate
    | @busy q' hb => exact absurd hb.uses (hd q p alloc hcall hid q')
  · intro q huse ha
    cases phase_reach h with
    | free hno => exact absurd huse (hno q)
    | @busy q' hb =>
      obtain rfl := hb.only q huse
      exact (hb.before ha).cleanSlate
  · intro hset w t ht hid
    have hne := laneQueue_ne_nil ht hid
    cases phase_reach h with
    | free _ hL => exact absurd (hL.queue w) hne
    | busy hb =>
      rcases hb.counts.balance.queued_bound (Int.le_refl 0) hne with ⟨ctx, hctx⟩ | ⟨c, w', k, hc⟩
      · obtain ⟨w₀, hone⟩ := hb.bound.one
        have hw : w = w₀ := hone w (.inr hne)
        have hctx' : ctx.workerIdx = w₀ := hone _ (.inl (.inl ⟨ctx, hctx, rfl⟩))
        exact ⟨ctx, hctx, hctx'.trans hw.symm⟩
      · have hno := hset c
        rw [show laneCall r (s.pool.calls c) = .recording w' k from hc] at hno
        cases hno

/-! ### An id that comes back too early

The waiter is released inside the task function, before the worker counts the task off. -/

/-- One request `0`, made by the first call. -/
def oneRequest (s : Transport) : Action → Bool
  | .callSend _ _ _ _ => false
  | .callRecv q _ _ _ => q == 0 && (s.reqs 0).caller == .fresh
  | _ => true

section OneRequest

variable {s : Transport} {a : Action} {r : ReqId}

theorem single_of_oneRequest (h : oneRequest s a = true) : SingleRequest 0 s a := by
  cases a with
  | callSend => cases h
  | callRecv => exact beq_iff_eq.mp (Bool.and_eq_true_iff.mp h).1
  | _ => trivial

/-- So its id is distinct. -/
theorem distinct_of_oneRequest (h : oneRequest s a = true)
    (hfresh : ∀ q, q ≠ 0 → (s.reqs q).caller = .fresh) : DistinctIds r s a := by
  intro q p alloc hcall _ q' huse
  rcases hcall.isCall with ⟨call, mem, rfl⟩ | ⟨call, mem, rfl⟩
  · cases h
  · have hzero : (s.reqs 0).caller = .fresh := beq_iff_eq.mp (Bool.and_eq_true_iff.mp h).2
    by_cases hq : q' = 0
    · exact huse.1.1 (hq ▸ hzero)
    · exact huse.1.1 (hfresh q' hq)

/-- Once request `0` has returned its id may be used again. -/
theorem distinct_of_returned {ret : OwnerRet} (h : (s.reqs 0).owner = .returned ret)
    (hfresh : ∀ q, q ≠ 0 → (s.reqs q).caller = .fresh) : DistinctIds r s a := by
  intro q p alloc _ _ q' huse
  by_cases hq : q' = 0
  · subst hq
    exact huse.1.2.2 ret h
  · exact huse.1.1 (hfresh q' hq)

/-- A second receive with the id of the first. -/
theorem receive_again :
    ∃ p, ApiCall (.callRecv 1 oneChunk true .ok) 1 (some p) .ok ∧ p.requestId = 7#64 := by
  have hkey : (prepareRecv 1 true oneChunk true).any (fun p => p.requestId == 7#64) = true := by
    decide +kernel
  obtain ⟨p, hp, hid⟩ := (Option.any_eq_true ..).mp hkey
  have hcall := ApiCall.recv 1 oneChunk true .ok
  rw [hp] at hcall
  exact ⟨p, hcall, beq_iff_eq.mp hid⟩

end OneRequest

/-- A receive of one chunk whose task has reported its success, and the wait for it. -/
def releasedEarly : List Action :=
  registerOne ++ [.completion 0 oneChunkCr urmaSuccess, .wake 0 .ok, .wake 0 .ok] ++
    List.replicate 3 (.worker 0 0) ++ waitOne 3

/-- The wait has returned, and there still is a context of its id. -/
def returnedCounted (s : Transport) : Bool :=
  (s.reqs 0).owner == .returned (.waited .ok urmaSuccess) && (s.pool.reqHash.find 7#64).isSome

/-- The wait is released by the task function, and the id may be used again.  The worker has not
    counted the task off.  The new request then finds the context of the old one. -/
theorem reuse_before_count_down :
    ¬ ∀ (s : Transport) a q p alloc, (transportSystem 1 1#32).Reach (DistinctIds 7#64) s →
      ApiCall a q (some p) alloc → p.requestId = 7#64 → DistinctIds 7#64 s a →
      CleanSlate 7#64 s := by
  intro h
  have hok : ∀ s a, oneRequest s a = true → oneRequest s a = true := fun _ _ ha => ha
  obtain ⟨s, hr, hs⟩ := transportSystem_exec 1 1#32 oneRequest hok releasedEarly returnedCounted
    (by decide +kernel)
  obtain ⟨hret, hctx⟩ := Bool.and_eq_true_iff.mp hs
  have hfresh : ∀ s, (transportSystem 1 1#32).Reach (fun s a => oneRequest s a = true) s →
      ∀ q, q ≠ 0 → (s.reqs q).caller = .fresh := fun s hr q hq =>
    fresh_of_single (hr.mono fun s a => single_of_oneRequest) hq
  have hreach : (transportSystem 1 1#32).Reach (DistinctIds 7#64) s :=
    (hr.strengthen hfresh).mono fun s a ha => distinct_of_oneRequest ha.1 ha.2
  obtain ⟨p, hcall, hid⟩ := receive_again
  have hclean := h s _ 1 p .ok hreach hcall hid
    (distinct_of_returned (beq_iff_eq.mp hret) (hfresh s hr))
  rw [hclean.context] at hctx
  cases hctx

/-! ### An id that comes back in time

The same, with the task counted off: the wait returns `0`, and the id is used again. -/

/-- The process whose call takes the step, if it is not a worker's. -/
def Action.process : Action → Option Proc
  | .callSend q _ _ _ => some (.caller q)
  | .callRecv q _ _ _ => some (.caller q)
  | .caller q _ _ => some (.caller q)
  | .callWait q _ => some (.owner q)
  | .callCancel q _ => some (.owner q)
  | .owner q _ => some (.owner q)
  | .completion k _ _ => some (.wake k)
  | .wake k _ => some (.wake k)
  | .callCancelId k _ => some (.cancel k)
  | .canceller k => some (.cancel k)
  | .worker _ _ => none

/-- Who calls the pool takes the step. -/
theorem Calls.process {s : Transport} {a : Action} {pa : PoolAction Proc ArgPtr} {c : Proc}
    (h : Calls s a pa) (hc : pa.proc = some c) : a.process = some c := by
  have hruns : ∀ {c : Proc}, c.Runs a → a.process = some c := by
    intro c hr
    cases c <;> cases a
    all_goals first
      | exact hr.elim
      | exact congrArg _ (congrArg _ hr)
  cases pa with
  | submit c' sub alloc =>
    obtain rfl : c' = c := Option.some.inj hc
    obtain ⟨q, p, rfl, hcall, -⟩ := h
    rcases hcall.isCall with ⟨call, mem, rfl⟩ | ⟨call, mem, rfl⟩ <;> rfl
  | wake c' r u =>
    obtain rfl : c' = c := Option.some.inj hc
    obtain ⟨k, cr, status, tag, rfl, rfl, -⟩ := h
    rfl
  | cancel c' reqId =>
    obtain rfl : c' = c := Option.some.inj hc
    rcases h with ⟨q, rfl, rfl | ⟨cond, wait, task, tasks, rfl, -⟩⟩ | ⟨k, rfl, rfl⟩ <;> rfl
  | advance c' alloc =>
    obtain rfl : c' = c := Option.some.inj hc
    exact hruns h
  | collect c' =>
    obtain rfl : c' = c := Option.some.inj hc
    exact hruns h
  | pop | finish | account => cases hc

/-- A process that takes no step is in no call of the pool. -/
theorem call_idle_of_uninvolved {workerCount : Nat} {capacity : BitVec 32}
    {ok : Transport → Action → Prop} {s : Transport} {c : Proc}
    (hok : ∀ s a, ok s a → a.process ≠ some c)
    (h : (transportSystem workerCount capacity).Reach ok s) : s.pool.calls c = .idle := by
  refine h.invariant (I := fun s => s.pool.calls c = .idle) ?_ ?_
  · rintro s rfl
    rfl
  · intro s a s' _ hI ha hs
    rcases (Transport.move_of_step hs).pool with hpool | ⟨pa, hpa, hpool⟩
    · rw [hpool]
      exact hI
    · rw [PoolSys.step_calls_of_ne hpool fun hc => hok s a ha (hpa.process hc)]
      exact hI

/-- Who takes part: two callers, the owner of the first request, and one thread with completions. -/
def participants : List Proc := [.caller 0, .caller 1, .owner 0, .wake 0]

/-- Worker 0 and the participants have nothing to do in the pool for id 7. -/
def calmPool (s : Transport) : Bool :=
  (s.pool.workers 0).pending.isEmpty && laneExec 7#64 (s.pool.workers 0).exec == .loop &&
    participants.all s.pool.isIdle

/-- Two receives of one chunk, the second after the first has ended.  While the first is waited for,
    its task has been counted off. -/
def oneAtATime (s : Transport) (a : Action) : Bool :=
  a.process.all participants.contains &&
    ((s.reqs 0).owner == .idle || (s.reqs 0).owner == .returned (.waited .ok urmaSuccess) ||
      calmPool s) && (s.reqs 1).owner == .idle &&
    match a with
    | .callSend _ _ _ _ => false
    | .callRecv q _ _ _ => (s.reqs q).caller == .fresh && (s.reqs 1).caller == .fresh &&
        (q == 0 || (s.reqs 0).owner == .returned (.waited .ok urmaSuccess))
    | .caller _ alloc _ => alloc == .ok
    | .callCancel _ _ => false
    | _ => true

section OneAtATime

variable {s : Transport} {a : Action} {q : Nat}

/-- There are only two requests. -/
theorem fresh_of_oneAtATime
    (hr : (transportSystem 1 1#32).Reach (fun s a => oneAtATime s a = true) s) (hq : 2 ≤ q) :
    (s.reqs q).caller = .fresh := by
  refine fresh_of_unmade (fun s a ha => ⟨?_, ?_⟩) hr
  all_goals
    rintro call mem alloc rfl
    simp only [oneAtATime, Action.process, Option.all_some, participants, List.contains_cons,
      List.contains_nil, Bool.and_eq_true, Bool.or_eq_true, beq_iff_eq, Proc.caller.injEq] at ha
    simp at ha
  all_goals omega

/-- With nothing to do for worker 0 and the participants, nobody is at the id. -/
theorem unattended_of_calm
    (hr : (transportSystem 1 1#32).Reach (fun s a => oneAtATime s a = true) s)
    (hcalm : calmPool s = true) : (lane 7#64 s.pool).Unattended := by
  simp only [calmPool, Bool.and_eq_true, List.isEmpty_iff, beq_iff_eq] at hcalm
  obtain ⟨⟨hpending, hexec⟩, hidle⟩ := hcalm
  have hpool := pool_reach hr
  refine ⟨fun w => ?_, fun w => ?_, fun c => ?_⟩
  · by_cases hw : w = 0
    · rw [hw]
      exact hexec
    · have hloop : (s.pool.workers w).exec = .loop := (within_reach hpool).exec w (by
        rw [(PoolSys.running_lt hpool).1]
        omega)
      show laneExec 7#64 (s.pool.workers w).exec = .loop
      rw [hloop]
      rfl
  · by_cases hw : w = 0
    · show laneWakes 7#64 (s.pool.workers w).pending = []
      rw [hw, laneWakes, hpending]
      rfl
    · by_contra hne
      have hlt := names_lt hpool 7#64 w (.inl (.inr (.inr hne)))
      omega
  · rw [lane_calls]
    by_cases hc : c ∈ participants
    · rw [isIdle_iff.mp (List.all_eq_true.mp hidle c hc)]
      rfl
    · rw [call_idle_of_uninvolved (fun s a ha hproc => ?_) hr]
      · rfl
      · simp only [oneAtATime, hproc, Option.all_some, Bool.and_eq_true, List.contains_iff_mem] at ha
        exact hc ha.1.1.1

/-- The second is made when the first has ended. -/
theorem distinct_of_oneAtATime
    (hr : (transportSystem 1 1#32).Reach (fun s a => oneAtATime s a = true) s)
    (ha : oneAtATime s a = true) : DistinctIds 7#64 s a := by
  intro q p alloc hcall _ q' huse
  rcases hcall.isCall with ⟨call, mem, rfl⟩ | ⟨call, mem, rfl⟩
  · simp [oneAtATime] at ha
  · simp only [oneAtATime, Bool.and_eq_true, Bool.or_eq_true, beq_iff_eq] at ha
    obtain ⟨-, ⟨hfresh, hfresh₁⟩, hq⟩ := ha
    match q', huse with
    | 0, huse =>
      rcases hq with rfl | hret
      · exact huse.1.1 hfresh
      · exact huse.1.2.2 _ hret
    | 1, huse => exact huse.1.1 hfresh₁
    | q' + 2, huse => exact huse.1.1 (fresh_of_oneAtATime hr (Nat.le_add_left 2 q'))

/-- Such a request ends when the pool is done with it. -/
theorem endsDone_of_oneAtATime
    (hr : (transportSystem 1 1#32).Reach (fun s a => oneAtATime s a = true) s)
    (ha : oneAtATime s a = true) : EndsDone 7#64 s a := by
  simp only [oneAtATime, Bool.and_eq_true, Bool.or_eq_true, beq_iff_eq] at ha
  obtain ⟨⟨⟨-, howner⟩, howner₁⟩, hact⟩ := ha
  refine ⟨?_, ?_, ?_⟩
  · intro q s' ret hs huse ho
    obtain ⟨hcl, -⟩ := ends_cleared hr hs huse.1.2.2 ho
    match q, huse, hcl with
    | 0, huse, hcl =>
      rcases howner with (hidle | hret) | hcalm
      · exact (hcl.not_idle hidle).elim
      · exact absurd hret (huse.1.2.2 _)
      · exact unattended_of_calm hr hcalm
    | 1, _, hcl => exact (hcl.not_idle howner₁).elim
    | q + 2, huse, _ => exact absurd (fresh_of_oneAtATime hr (Nat.le_add_left 2 q)) huse.1.1
  · rintro q reqId rfl -
    cases hact
  · rintro q alloc statuses sub w nodes rfl - -
    exact beq_iff_eq.mp hact

/-- So such a run meets the condition of `clean_slate`. -/
theorem reach_of_oneAtATime
    (hr : (transportSystem 1 1#32).Reach (fun s a => oneAtATime s a = true) s) :
    (transportSystem 1 1#32).Reach (fun s a => DistinctIds 7#64 s a ∧ EndsDone 7#64 s a) s := by
  refine (hr.strengthen fun s hr => hr).mono fun s a h => ?_
  exact ⟨distinct_of_oneAtATime h.2 h.1, endsDone_of_oneAtATime h.2 h.1⟩

end OneAtATime

/-- The first receive: its chunk arrives, its task runs and is counted off, and its wait returns. -/
def receivedOnce : List Action := registerOne ++ executeOne 0 ++ waitOne 3

/-- Its wait has returned, and the second is still to come. -/
def waitedOnce (s : Transport) : Bool :=
  (s.reqs 0).owner == .returned (.waited .ok urmaSuccess) && (s.reqs 1).caller == .fresh

/-- The second one, with the id of the first, up to its return. -/
def receivedAgain : List Action := .callRecv 1 oneChunk true .ok :: List.replicate 7 (.caller 1 .ok [])

/-- It has returned, its task is queued, and nobody is at the id. -/
def queuedAgain (s : Transport) : Bool :=
  (s.reqs 1).caller == .returned true urmaSuccess && calmPool s &&
    (s.pool.workers 0).queue.any fun t => t.requestId == 7#64

/-- A request that has been waited for leaves a clean slate to the next one of its id, whose task is
    then where its context says. -/
theorem clean_slate_after_wait :
    ∃ s s', (transportSystem 1 1#32).Reach
        (fun s a => DistinctIds 7#64 s a ∧ EndsDone 7#64 s a) s' ∧
      (s.reqs 0).owner = .returned (.waited .ok urmaSuccess) ∧ CleanSlate 7#64 s ∧
      (s'.reqs 1).caller = .returned true urmaSuccess ∧
      (∃ t ∈ (s'.pool.workers 0).queue, t.requestId = 7#64) ∧
      ∃ ctx, s'.pool.reqHash.find 7#64 = some ctx ∧ ctx.workerIdx = 0 := by
  have hrun : ((exec oneAtATime Transport.step (Transport.start 1 1#32) receivedOnce).bind fun s =>
      exec oneAtATime Transport.step s receivedAgain).any queuedAgain = true := by
    decide +kernel
  have hwaited : (exec oneAtATime Transport.step (Transport.start 1 1#32) receivedOnce).any
      waitedOnce = true := by
    decide +kernel
  have hok : ∀ s a, oneAtATime s a = true → oneAtATime s a = true := fun _ _ h => h
  obtain ⟨s, hs, hfirst⟩ := exec_any hwaited
  rw [hs, Option.bind_some] at hrun
  obtain ⟨s', hs', hend⟩ := exec_any hrun
  have hr : (transportSystem 1 1#32).Reach (fun s a => oneAtATime s a = true) s :=
    exec_reach hok receivedOnce _ s (.init rfl) hs
  have hr' : (transportSystem 1 1#32).Reach (fun s a => oneAtATime s a = true) s' :=
    exec_reach hok receivedAgain s s' hr hs'
  -- the first request has ended, so its id may come back
  simp only [waitedOnce, Bool.and_eq_true, beq_iff_eq] at hfirst
  obtain ⟨hret, hfresh⟩ := hfirst
  have hdistinct : DistinctIds 7#64 s (.callRecv 1 oneChunk true .ok) := by
    refine distinct_of_returned hret fun q hq => ?_
    by_cases hone : q = 1
    · rw [hone]
      exact hfresh
    · exact fresh_of_oneAtATime hr (by omega)
  obtain ⟨p, hcall, hid⟩ := receive_again
  have hclean := (clean_slate (reach_of_oneAtATime hr)).1 _ 1 p .ok hcall hid hdistinct
  -- when it has, no call submits any more
  simp only [queuedAgain, Bool.and_eq_true, beq_iff_eq, List.any_eq_true] at hend
  obtain ⟨⟨hcaller, hcalm⟩, t, ht, htask⟩ := hend
  have hset : ∀ c, (laneCall 7#64 (s'.pool.calls c)).submits = false := by
    intro c
    rw [← lane_calls, (unattended_of_calm hr' hcalm).calls c]
    rfl
  exact ⟨s, s', reach_of_oneAtATime hr', hret, hclean, hcaller, ⟨t, ht, htask⟩,
    (clean_slate (reach_of_oneAtATime hr')).2.2 hset 0 t ht htask⟩

end OsTransport
