/-
  Which worker a request is bound to, and what is owed to its context.

  Two invariants of a lane (`OsTransport.Lane`):

  * the BALANCE: the context's count plus what submissions have still to record, minus the tasks
    that are queued, executing, or cancelled and not yet counted off.  It never falls while
    allocations succeed and the count fits its `int` (`drift_nonneg`): a task that is queued is paid
    for, so its context exists or is about to be recorded;
  * the BINDING (`Lane.Bound`): the context, the submissions about to record, the wake-ups and
    cancels that have looked up a worker, the queued tasks and the accepted wake-ups all name
    one worker.

  A submission picks its worker by load before it looks at the table, and an existing context
  keeps the worker it has.  So the binding is lost by a submission that attaches its tasks
  to a worker other than the one the request is bound to, and by nothing else: it is an
  invariant of every run in which submissions attach where the request is bound
  (`SubmitsWhereBound`), and `second_submission_elsewhere` is a run of two workers in which one
  does not.

  Both are proved on the lane machine (`laneSystem`), where a run sees one request and nothing else,
  and carried to the pool by `lane_reach`: every run of the pool is, for each id, a run of the lane.

  1. `balance_step`: one equation for each constructor of `LaneStep`; what it changes is added to
     the drift, and `drift_nonneg` bounds that from below by the memory and by the `int`;
  2. `Lane.Balance.queued_bound`: so a queued task has a context or a submission that is about to
     record one, whatever wraps and whatever is lost elsewhere;
  3. `bound_step`: with 2, a submission that finds the request bound finds where it is bound, and
     every look-up names that worker;
  4. `queued_with_context_worker` reads 3 at a reachable pool; its hypotheses are the three things
     the drift and the binding need, step by step.
-/
import OsTransport.PoolEffect
import OsTransport.Lib.Total

namespace OsTransport

open Transition Total

variable {κ α : Type*}

/-! ## The lane machine as a transition system

Every run of the pool is, seen from an id, a run of this system. -/

/-- The lane of an id on which nothing has happened. -/
def Lane.empty : Lane κ α where
  ctx := none
  queue _ := []
  wakes _ := []
  exec _ := .loop
  calls _ := .idle
  served := []

/-- All runs of the lane of `r`. -/
def laneSystem (κ α : Type*) [DecidableEq κ] (r : ReqId) : System (Lane κ α) (LaneLabel κ α) where
  Init := (· = Lane.empty)
  Step := LaneStep r

theorem lane_start (r : ReqId) (workerCount : Nat) :
    lane r (PoolSys.start workerCount : PoolSys κ α) = Lane.empty := rfl

/-- A run of the pool is, through the eyes of `r`, a run of the lane machine; a guard on the
    pool's steps that excludes a label of the lane carries over. -/
theorem lane_reach [DecidableEq κ] {r : ReqId} {workerCount : Nat}
    {ok : PoolSys κ α → PoolAction κ α → Prop} {okLane : Lane κ α → LaneLabel κ α → Prop}
    (hok : ∀ s a l, ok s a → Explains r s a l → okLane (lane r s) l) {s : PoolSys κ α}
    (h : (poolSystem κ α workerCount).Reach ok s) : (laneSystem κ α r).Reach okLane (lane r s) := by
  refine h.simulate (lane r) ?_ ?_
  · rintro s rfl
    exact lane_start r workerCount
  · intro s a s' hr _ ha hs
    obtain ⟨l, hl, hexp⟩ := lane_step (r := r) (PoolSys.carries_reach hr) hs
    exact .inr ⟨l, hok s a l ha hexp, hl⟩

/-! ## The balance

`credit` is what a call has still to add to the count, or to take off it.  The drift of a step is by
how much it changes the balance; while counts fit and memory is there it is never negative. -/

/-- What a call in progress adds to the balance. -/
def LaneCall.credit : LaneCall → Int
  | .recording _ k => k
  | .uncounting k => -k
  | _ => 0

/-- Whether a worker executes a task that is not counted off yet. -/
def Exec.owed : Exec α → Nat
  | .loop => 0
  | _ => 1

/-- The count of a context, zero when there is none. -/
def ctxCount : Option RequestContext → Int
  | some ctx => ctx.pendingCount
  | none => 0

/-- `d` is the balance of the lane.  What the context counts and what submissions have still to
    record, less what is owed: tasks queued, in execution, or removed and not yet counted off. -/
def Lane.Balance (L : Lane κ α) (d : Int) : Prop :=
  ∃ (queued executing : Nat) (credit : Int),
    HasTotal List.length L.queue queued ∧ HasTotal Exec.owed L.exec executing ∧
    HasTotal LaneCall.credit L.calls credit ∧ d = ctxCount L.ctx + credit - queued - executing

/-- An empty lane owes nothing. -/
theorem balance_empty [DecidableEq κ] : (Lane.empty : Lane κ α).Balance 0 :=
  ⟨0, 0, 0, .zero fun _ => rfl, .zero fun _ => rfl, .zero fun _ => rfl, rfl⟩

/-- By how much a step changes the balance: a record that does not raise the count by as much as
    it has queued, a count-down that does not lower it by as much as it takes away, or a cancel whose
    32-bit count of what it freed has come back to zero. -/
def Lane.drift (L : Lane κ α) : LaneLabel κ α → Int
  | .record c alloc =>
    match L.calls c with
    | .recording _ k => ctxCount (recordedContext alloc 0#64 0 k none L.ctx) - ctxCount L.ctx - k
    | _ => 0
  | .cancelQueue c =>
    match L.calls c with
    | .cancelling w => if (L.queue w).length % 2 ^ 32 > 0 then 0 else (L.queue w).length
    | _ => 0
  | .uncount c =>
    match L.calls c with
    | .uncounting k => k - (ctxCount L.ctx - ctxCount (cancelledContext k L.ctx))
    | _ => 0
  | .account _ => 1 - (ctxCount L.ctx - ctxCount (accountedContext L.ctx))
  | _ => 0

/-- A context that exists owes something, and no more than an `int` holds.  As long as this is so
    the arithmetic of the count is that of the integers. -/
def CountFits (ctx : Option RequestContext) : Prop :=
  ∀ c, ctx = some c → 0 < c.pendingCount ∧ c.pendingCount < 2 ^ 31

/-- Without a context there is no count. -/
theorem countFits_none : CountFits none := by
  rintro c ⟨⟩

/-- The count does not depend on what else a record writes. -/
theorem ctxCount_recorded (alloc : Bool) (r r' : ReqId) (w w' k : Nat) (cb cb' : Option Nat)
    (ctx : Option RequestContext) :
    ctxCount (recordedContext alloc r w k cb ctx) =
      ctxCount (recordedContext alloc r' w' k cb' ctx) := by
  cases ctx <;> cases alloc <;> rfl

/-- A record raises a count that stays in bounds by what was queued. -/
theorem CountFits.recorded {ctx : Option RequestContext} (h : CountFits ctx) {r : ReqId} {w k : Nat}
    {cb : Option Nat} (hk : 0 < k) (hfits : ctxCount ctx + k < 2 ^ 31) :
    CountFits (recordedContext true r w k cb ctx) ∧
      ctxCount (recordedContext true r w k cb ctx) = ctxCount ctx + k := by
  cases ctx with
  | none =>
    simp only [ctxCount] at hfits
    rw [recordedContext, if_pos rfl, cInt_eq (by omega) (by omega)]
    refine ⟨?_, (Int.zero_add _).symm⟩
    rintro c hc
    obtain rfl := Option.some.inj hc
    show 0 < (k : Int) ∧ (k : Int) < 2 ^ 31
    omega
  | some c =>
    have hold := h c rfl
    simp only [ctxCount] at hfits
    have hadd : c.add k = { c with pendingCount := c.pendingCount + k } :=
      c.add_of_fits (by omega) hfits
    rw [recordedContext, hadd]
    refine ⟨?_, rfl⟩
    rintro c' hc'
    obtain rfl := Option.some.inj hc'
    show 0 < c.pendingCount + k ∧ c.pendingCount + k < 2 ^ 31
    omega

/-- A cancel lowers the count by no more than it freed, and leaves a positive one. -/
theorem CountFits.cancelled {ctx : Option RequestContext} (h : CountFits ctx) (k : Nat) :
    CountFits (cancelledContext k ctx) ∧ ctxCount ctx - ctxCount (cancelledContext k ctx) ≤ k := by
  cases ctx with
  | none => exact ⟨countFits_none, by simp [cancelledContext, ctxCount]⟩
  | some c =>
    obtain ⟨hpos, hfits⟩ := h c rfl
    have hcount : cUint32 c.pendingCount = c.pendingCount := cUint32_eq (by omega) (by omega)
    simp only [cancelledContext, hcount]
    unfold cUint32
    split
    · refine ⟨countFits_none, ?_⟩
      simp only [ctxCount]
      omega
    -- modulo 2^32, what is taken off is less than the count
    · have hadd : (c.add (-k)).pendingCount = c.pendingCount - (k : Int) % 2 ^ 32 := by
        unfold RequestContext.add cInt
        show Int.bmod (c.pendingCount + -k) (2 ^ 32) = _
        rw [Int.bmod_def]
        split <;> omega
      refine ⟨?_, ?_⟩
      · rintro c' hc'
        obtain rfl := Option.some.inj hc'
        omega
      · simp only [ctxCount]
        omega

/-- A worker's count-down lowers the count by no more than one, and leaves a positive one. -/
theorem CountFits.accounted {ctx : Option RequestContext} (h : CountFits ctx) :
    CountFits (accountedContext ctx) ∧ ctxCount ctx - ctxCount (accountedContext ctx) ≤ 1 := by
  cases ctx with
  | none => exact ⟨countFits_none, by simp [accountedContext, ctxCount]⟩
  | some c =>
    obtain ⟨hpos, hfits⟩ := h c rfl
    rw [accountedContext_of_fits (by omega) hfits]
    split
    · refine ⟨countFits_none, ?_⟩
      simp only [ctxCount]
      omega
    · refine ⟨?_, ?_⟩
      · rintro c' hc'
        obtain rfl := Option.some.inj hc'
        show 0 < c.pendingCount - 1 ∧ c.pendingCount - 1 < 2 ^ 31
        omega
      · simp only [ctxCount]
        omega

section Step

variable [DecidableEq κ] {r : ReqId} {L L' : Lane κ α} {l : LaneLabel κ α}

/-- Moving a call changes the balance by the difference of its credits. -/
theorem hasTotal_setCall {f : κ → LaneCall} {c : κ} {credit : Int} (pc : LaneCall)
    (h : HasTotal LaneCall.credit f credit) :
    HasTotal LaneCall.credit (Function.update f c pc) (credit + pc.credit - (f c).credit) :=
  h.update (by omega)

/-- What each rule of the lane machine does to the balance. -/
theorem balance_step (h : LaneStep r L l L') {d : Int} (hd : L.Balance d) :
    L'.Balance (d + L.drift l) := by
  obtain ⟨q, e, m, hq, he, hm, rfl⟩ := hd
  cases h with
  | tau => exact ⟨q, e, m, hq, he, hm, by simp [Lane.drift]⟩
  | submit hc =>
    refine ⟨q, e, _, hq, he, hasTotal_setCall .submitting hm, ?_⟩
    simp [hc, LaneCall.credit, Lane.drift]
  | giveUp hc =>
    refine ⟨q, e, _, hq, he, hasTotal_setCall .idle hm, ?_⟩
    simp [hc, LaneCall.credit, Lane.drift]
  -- the tasks are in the queue, and the call still owes them to the context
  | @attach c w nodes hc hid =>
    refine ⟨q + nodes.length, e, _, hq.update ?_, he, hasTotal_setCall (.recording w _) hm, ?_⟩
    · rw [List.length_append]; omega
    · simp only [hc, LaneCall.credit, Lane.drift]; omega
  | @record c w k alloc cb hc =>
    refine ⟨q, e, _, hq, he, hasTotal_setCall .idle hm, ?_⟩
    simp only [hc, LaneCall.credit, Lane.drift,
      ctxCount_recorded alloc r 0#64 w 0 k cb none L.ctx]
    omega
  | lookWake hc hctx =>
    refine ⟨q, e, _, hq, he, hasTotal_setCall (.waking _ _) hm, ?_⟩
    simp [hc, LaneCall.credit, Lane.drift]
  | pushWake hc =>
    refine ⟨q, e, _, hq, he, hasTotal_setCall .idle hm, ?_⟩
    simp [hc, LaneCall.credit, Lane.drift]
  | dropWake hc =>
    refine ⟨q, e, _, hq, he, hasTotal_setCall .idle hm, ?_⟩
    simp [hc, LaneCall.credit, Lane.drift]
  | lookCancel hc hctx =>
    refine ⟨q, e, _, hq, he, hasTotal_setCall (.cancelling _) hm, ?_⟩
    simp [hc, LaneCall.credit, Lane.drift]
  -- as many leave the queue as the call will take off the context
  | @cancelQueue c w hc =>
    have hw : (L.queue w).length ≤ q := hq.le w
    refine ⟨q - (L.queue w).length, e, _, hq.update ?_, he, hasTotal_setCall _ hm, ?_⟩
    · simp only [List.length_nil]; omega
    · split <;> rename_i hfreed
      · simp only [hc, LaneCall.credit, Lane.drift, if_pos hfreed]
        omega
      · simp only [hc, LaneCall.credit, Lane.drift, if_neg hfreed]
        omega
  | @uncount c k hc =>
    refine ⟨q, e, _, hq, he, hasTotal_setCall .idle hm, ?_⟩
    simp only [hc, LaneCall.credit, Lane.drift]
    omega
  | @take w userData wakes task queue hexec hwake hpop =>
    obtain ⟨l₁, l₂, hl, hqueue, -, -⟩ := Queue.popFirst_some hpop
    have hlen : (L.queue w).length = queue.length + 1 := by
      rw [hl, hqueue]
      simp only [List.length_append, List.length_cons]
      omega
    have hw : (L.queue w).length ≤ q := hq.le w
    refine ⟨q - 1, e + 1, m, hq.update (by omega), he.update ?_, hm, ?_⟩
    · simp only [hexec, Exec.owed]
    · simp only [Lane.drift]; omega
  | miss hexec hwake hpop => exact ⟨q, e, m, hq, he, hm, by simp [Lane.drift]⟩
  | finish hexec =>
    refine ⟨q, e, m, hq, he.update_same ?_, hm, by simp [Lane.drift]⟩
    rw [hexec]; rfl
  | @account w task ret hexec =>
    have hw : Exec.owed (L.exec w) ≤ e := he.le w
    rw [hexec] at hw
    simp only [Exec.owed] at hw
    refine ⟨q, e - 1, m, hq, he.update ?_, hm, ?_⟩
    · simp only [hexec, Exec.owed]; omega
    · simp only [Lane.drift]; omega

omit [DecidableEq κ] in
/-- The balance only falls when a context cannot be allocated, or its count not be raised. -/
theorem drift_nonneg (hfits : CountFits L.ctx)
    (hrecord : ∀ c alloc, l = .record c alloc → alloc = true ∧
      ∀ w k, L.calls c = .recording w k → 0 < k ∧ ctxCount L.ctx + k < 2 ^ 31) :
    0 ≤ L.drift l := by
  unfold Lane.drift
  split
  · split
    · rename_i hc
      obtain ⟨rfl, hcount⟩ := hrecord _ _ rfl
      obtain ⟨hk, hlt⟩ := hcount _ _ hc
      rw [(hfits.recorded hk hlt).2]
      omega
    · exact Int.le_refl 0
  · split
    · split <;> omega
    · exact Int.le_refl 0
  · split
    · have hle := (hfits.cancelled ‹Nat›).2
      omega
    · exact Int.le_refl 0
  · have hle := hfits.accounted.2
    omega
  · exact Int.le_refl 0

end Step

/-! ## The binding

A worker is named by the context, by a call about to record, wake or cancel, by a pending wake-up,
or by a queued task.  The binding says that all of them name the same one. -/

/-- The worker a call in progress has been told. -/
def LaneCall.target : LaneCall → Option Nat
  | .recording w _ => some w
  | .waking _ w => some w
  | .cancelling w => some w
  | _ => none

/-- Something of the request points at worker `w`: its context, a call that has chosen or looked
    up `w`, or a wake-up accepted there. -/
def Lane.BoundTo (L : Lane κ α) (w : Nat) : Prop :=
  (∃ ctx, L.ctx = some ctx ∧ ctx.workerIdx = w) ∨ (∃ c, (L.calls c).target = some w) ∨
    L.wakes w ≠ []

/-- Worker `w` is pointed at or holds tasks. -/
def Lane.Names (L : Lane κ α) (w : Nat) : Prop := L.BoundTo w ∨ L.queue w ≠ []

/-- Everything of the request names one worker, and its tasks are paid for.  The second half is what
    makes the first an invariant: without it a context could go while tasks of it are queued, and
    the next submission would bind the request elsewhere. -/
structure Lane.Bound (L : Lane κ α) : Prop where
  one : ∃ w₀, ∀ w, L.Names w → w = w₀
  covered : ∃ d, 0 ≤ d ∧ L.Balance d
  fits : CountFits L.ctx
  loaded : ∀ c w k, L.calls c = .recording w k → 0 < k

/-- A submission attaches its nodes to the worker the request is bound to, if it is bound, the
    context it then records can be allocated, and its count does not overflow. -/
def AttachesWhereBound (L : Lane κ α) : LaneLabel κ α → Prop
  | .attach _ w nodes => nodes ≠ [] ∧ ∀ w', L.BoundTo w' → w' = w
  | .record c alloc =>
    alloc = true ∧ ∀ w k, L.calls c = .recording w k → ctxCount L.ctx + k < 2 ^ 31
  | _ => True

/-- A queued task is paid for by the context or by a submission about to record it. -/
theorem Lane.Balance.queued_bound {L : Lane κ α} {d : Int} (hd : 0 ≤ d) (h : L.Balance d) {w : Nat}
    (hw : L.queue w ≠ []) :
    (∃ ctx, L.ctx = some ctx) ∨ ∃ c w' k, L.calls c = .recording w' k := by
  obtain ⟨q, e, m, hq, he, hm, rfl⟩ := h
  by_contra hnone
  obtain ⟨hctx, hcall⟩ := not_or.mp hnone
  have hm0 : m ≤ 0 := by
    refine hm.nonpos fun c => ?_
    cases hc : L.calls c with
    | recording w' k => exact absurd ⟨c, w', k, hc⟩ hcall
    | uncounting k => simp [LaneCall.credit]
    | _ => exact Int.le_refl 0
  have hctx0 : ctxCount L.ctx = 0 := by
    cases hx : L.ctx with
    | none => rfl
    | some ctx => exact absurd ⟨ctx, hx⟩ hctx
  have hlen : 0 < (L.queue w).length := List.length_pos_iff.mpr hw
  have hle : (L.queue w).length ≤ q := hq.le w
  omega

section Bound

variable [DecidableEq κ] {r : ReqId} {L L' : Lane κ α} {l : LaneLabel κ α}

/-- What some call is at after a step is the call that moved, or was there before. -/
theorem exists_update {P : LaneCall → Prop} {f : κ → LaneCall} {c : κ} {pc : LaneCall}
    (h : ∃ c', P (Function.update f c pc c')) : P pc ∨ ∃ c', P (f c') := by
  obtain ⟨c', hc'⟩ := h
  by_cases hc : c' = c
  · subst hc
    rw [Function.update_self] at hc'
    exact .inl hc'
  · rw [Function.update_of_ne hc] at hc'
    exact .inr ⟨c', hc'⟩

/-- A call that moves to a place where it has no target, or one that was already named, points
    at nothing new. -/
theorem boundTo_setCall {c : κ} {pc : LaneCall} {w : Nat}
    (hpc : ∀ w', pc.target = some w' → L.BoundTo w')
    (h : Lane.BoundTo { L with calls := Function.update L.calls c pc } w) : L.BoundTo w := by
  rcases h with h | h | h
  · exact .inl h
  · rcases exists_update (P := fun x => x.target = some w) h with h | h
    · exact hpc w h
    · exact .inr (.inl h)
  · exact .inr (.inr h)

omit [DecidableEq κ] in
/-- The one argument behind all the steps: an edit that leaves the lists of every worker but `v`
    alone, and whose context and calls point only where something pointed before, names no worker
    but `v` anew. -/
theorem Lane.Names.of_edit {v w : Nat} (hw : L'.Names w) (hv : L.Names v)
    (hctx : ∀ ctx, L'.ctx = some ctx → L.Names ctx.workerIdx)
    (hcalls : ∀ w, (∃ c, (L'.calls c).target = some w) → L.Names w)
    (hwakes : ∀ w, w ≠ v → L'.wakes w = L.wakes w)
    (hqueue : ∀ w, w ≠ v → L'.queue w = L.queue w) : L.Names w := by
  rcases hw with (⟨ctx, hsome, rfl⟩ | hcall | hwake) | hq
  · exact hctx ctx hsome
  · exact hcalls w hcall
  · by_cases hwv : w = v
    · exact hwv ▸ hv
    · rw [hwakes w hwv] at hwake
      exact .inl (.inr (.inr hwake))
  · by_cases hwv : w = v
    · exact hwv ▸ hv
    · rw [hqueue w hwv] at hq
      exact .inr hq

/-- A call that moves to a place without a target leaves the targets of the others. -/
theorem names_of_target_none {c : κ} {pc : LaneCall} (hpc : pc.target = none) {w : Nat}
    (h : ∃ c', (Function.update L.calls c pc c').target = some w) : L.Names w := by
  rcases exists_update (P := fun x => x.target = some w) h with h | h
  · rw [hpc] at h
    cases h
  · exact .inl (.inr (.inl h))

omit [DecidableEq κ] in
/-- The worker of a recorded context is that of the context before, or the one the tasks went to. -/
theorem recordedContext_named {v k : Nat} {alloc : Bool} {cb : Option Nat}
    (hv : L.Names v) {ctx : RequestContext}
    (h : recordedContext alloc r v k cb L.ctx = some ctx) : L.Names ctx.workerIdx := by
  cases hold : L.ctx with
  | some ctx₀ =>
    simp only [hold, recordedContext, Option.some.injEq] at h
    subst h
    exact .inl (.inl ⟨ctx₀, hold, rfl⟩)
  | none =>
    simp only [hold, recordedContext, Option.ite_none_right_eq_some, Option.some.injEq] at h
    obtain ⟨-, rfl⟩ := h
    exact hv

/-- Only an attach can name a worker that was not named. -/
theorem names_step (h : LaneStep r L l L') (hatt : ∀ c w nodes, l ≠ .attach c w nodes) {w : Nat}
    (hw : L'.Names w) : L.Names w := by
  have hcall : ∀ {c : κ} {pc : LaneCall}, (∀ w', pc.target = some w' → L.BoundTo w') →
      Lane.Names { L with calls := Function.update L.calls c pc } w → L.Names w := by
    rintro c pc hpc (hb | hq)
    · exact .inl (boundTo_setCall hpc hb)
    · exact .inr hq
  have hctx : ∀ ctx, L.ctx = some ctx → L.Names ctx.workerIdx :=
    fun ctx h => .inl (.inl ⟨ctx, h, rfl⟩)
  have hcalls : ∀ w, (∃ c, (L.calls c).target = some w) → L.Names w := fun w h => .inl (.inr (.inl h))
  -- the worker a step is about is the target of its call, or the one with the wake-up it serves
  have htarget : ∀ {c v}, (L.calls c).target = some v → L.Names v := fun h => hcalls _ ⟨_, h⟩
  have hserved : ∀ {v u us}, L.wakes v = u :: us → L.Names v :=
    fun h => .inl (.inr (.inr (by rw [h]; simp)))
  cases h with
  | tau | finish => exact hw
  | submit hc | giveUp hc | dropWake hc => exact hcall (by intro _ h; cases h) hw
  | lookWake hc hsome | lookCancel hc hsome =>
    exact hcall (fun w' h => .inl ⟨_, hsome, by simpa [LaneCall.target] using h⟩) hw
  | @attach c v nodes hc hid => exact absurd rfl (hatt c v nodes)
  | @record c v k alloc cb hc =>
    have hv : L.Names v := htarget (c := c) (by rw [hc]; rfl)
    exact hw.of_edit hv (fun ctx h => recordedContext_named hv h)
      (fun w h => names_of_target_none rfl h) (fun w _ => rfl) (fun w _ => rfl)
  | @pushWake c userData v hc =>
    have hv : L.Names v := htarget (c := c) (by rw [hc]; rfl)
    exact hw.of_edit hv hctx (fun w h => names_of_target_none rfl h)
      (fun w h => Function.update_of_ne h ..) (fun w _ => rfl)
  | @cancelQueue c v hc =>
    have hv : L.Names v := htarget (c := c) (by rw [hc]; rfl)
    exact hw.of_edit hv hctx (fun w h => names_of_target_none (by split <;> rfl) h)
      (fun w h => Function.update_of_ne h ..) (fun w h => Function.update_of_ne h ..)
  | @uncount c k hc =>
    rcases hw with (⟨ctx, hsome, rfl⟩ | hb | hb) | hq
    · obtain ⟨ctx₀, hold, -, rfl⟩ := cancelledContext_some.mp hsome
      exact hctx ctx₀ hold
    · exact names_of_target_none rfl hb
    · exact .inl (.inr (.inr hb))
    · exact .inr hq
  | @take v userData wakes task queue hexec hwake hpop =>
    exact hw.of_edit (hserved hwake) hctx hcalls
      (fun w h => Function.update_of_ne h ..) (fun w h => Function.update_of_ne h ..)
  | @miss v userData wakes hexec hwake hpop =>
    exact hw.of_edit (hserved hwake) hctx hcalls
      (fun w h => Function.update_of_ne h ..) (fun w _ => rfl)
  | @account v task ret hexec =>
    rcases hw with (⟨ctx, hsome, rfl⟩ | hb) | hq
    · obtain ⟨ctx₀, hold, -, rfl⟩ := accountedContext_some.mp hsome
      exact hctx ctx₀ hold
    · exact .inl (.inr hb)
    · exact .inr hq

/-- The count of the context keeps in bounds. -/
theorem fits_step (hfits : CountFits L.ctx) (hloaded : ∀ c w k, L.calls c = .recording w k → 0 < k)
    (hok : AttachesWhereBound L l) (h : LaneStep r L l L') : CountFits L'.ctx := by
  cases h with
  | @record c w k alloc cb hc =>
    obtain ⟨rfl, hcount⟩ := hok
    exact (hfits.recorded (hloaded c w k hc) (hcount w k hc)).1
  | @uncount c k => exact (hfits.cancelled k).1
  | account => exact hfits.accounted.1
  | _ => exact hfits

/-- A submission has queued something when it is about to record. -/
theorem loaded_step (hloaded : ∀ c w k, L.calls c = .recording w k → 0 < k)
    (hok : AttachesWhereBound L l) (h : LaneStep r L l L') :
    ∀ c w k, L'.calls c = .recording w k → 0 < k := by
  have hcall : ∀ {c : κ} {pc : LaneCall}, (∀ w k, pc = .recording w k → 0 < k) →
      ∀ c' w k, Function.update L.calls c pc c' = .recording w k → 0 < k := by
    intro c pc hpc c' w k hc'
    by_cases hc : c' = c
    · rw [hc, Function.update_self] at hc'
      exact hpc w k hc'
    · rw [Function.update_of_ne hc] at hc'
      exact hloaded c' w k hc'
  cases h with
  | tau | take | miss | finish | account => exact hloaded
  | @attach c w nodes =>
    refine hcall fun w' k hk => ?_
    obtain ⟨-, rfl⟩ := LaneCall.recording.inj hk
    exact List.length_pos_of_ne_nil hok.1
  | cancelQueue => exact hcall fun w k hk => by split at hk <;> cases hk
  | submit | giveUp | record | lookWake | pushWake | dropWake | lookCancel | uncount =>
    exact hcall fun w k hk => by cases hk

/-- **One step keeps a lane bound to one worker**, if attaches go where it is bound. -/
theorem bound_step (hL : L.Bound) (hok : AttachesWhereBound L l) (h : LaneStep r L l L') :
    L'.Bound := by
  obtain ⟨⟨w₀, hone⟩, ⟨d, hd, hbal⟩, hfits, hloaded⟩ := hL
  have hrecord : ∀ c alloc, l = .record c alloc → alloc = true ∧
      ∀ w k, L.calls c = .recording w k → 0 < k ∧ ctxCount L.ctx + k < 2 ^ 31 := by
    rintro c alloc rfl
    exact ⟨hok.1, fun w k hc => ⟨hloaded c w k hc, hok.2 w k hc⟩⟩
  refine ⟨?_, ⟨d + L.drift l, Int.add_nonneg hd (drift_nonneg hfits hrecord), balance_step h hbal⟩,
    fits_step hfits hloaded hok h, loaded_step hloaded hok h⟩
  by_cases hatt : ∀ c w nodes, l ≠ .attach c w nodes
  · exact ⟨w₀, fun w hw => hone w (names_step h hatt hw)⟩
  · simp only [not_forall, not_not] at hatt
    obtain ⟨c, v, nodes, rfl⟩ := hatt
    refine ⟨v, fun w hw => ?_⟩
    -- an old queue is paid for by something that is bound, hence bound to `v`
    have hold : ∀ w, L.Names w → w = v := by
      rintro w (hb | hq)
      · exact hok.2 w hb
      · rcases hbal.queued_bound hd hq with ⟨ctx, hctx⟩ | ⟨c', w', k, hc'⟩
        · have hb : L.BoundTo ctx.workerIdx := .inl ⟨ctx, hctx, rfl⟩
          rw [hone w (.inr hq), ← hone _ (.inl hb)]
          exact hok.2 _ hb
        · have hb : L.BoundTo w' := .inr (.inl ⟨c', by rw [hc']; rfl⟩)
          rw [hone w (.inr hq), ← hone _ (.inl hb)]
          exact hok.2 _ hb
    cases h with
    | attach hc hid =>
      rcases hw with (hb | hb | hb) | hq
      · exact hold w (.inl (.inl hb))
      · rcases exists_update (P := fun x => x.target = some w) hb with h | h
        · exact (Option.some.inj h).symm
        · exact hold w (.inl (.inr (.inl h)))
      · exact hold w (.inl (.inr (.inr hb)))
      · by_cases hwv : w = v
        · exact hwv
        · simp only [Function.update_of_ne hwv] at hq
          exact hold w (.inr hq)

/-- An empty lane is bound to nothing. -/
theorem bound_empty : (Lane.empty : Lane κ α).Bound where
  one := by
    refine ⟨0, ?_⟩
    rintro w ((⟨ctx, hctx, -⟩ | ⟨c, hc⟩ | hw) | hw)
    · cases hctx
    · cases hc
    · exact absurd rfl hw
    · exact absurd rfl hw
  covered := ⟨0, Int.le_refl 0, balance_empty⟩
  fits := countFits_none
  loaded := fun c w k hk => by cases hk

/-- In every run of a lane whose attaches go where it is bound, it is. -/
theorem bound_reach (h : (laneSystem κ α r).Reach AttachesWhereBound L) : L.Bound := by
  refine h.invariant ?_ ?_
  · rintro L rfl
    exact bound_empty
  · intro L l L' _ hL hok hs
    exact bound_step hL hok hs

end Bound

/-! ## The binding in the pool

The lane's guard as a guard on the steps of the pool: `SubmitsWhereBound`. -/

/-- A submission for `r` in progress: its call has started and not yet recorded its context. -/
def LaneCall.submits : LaneCall → Bool
  | .submitting => true
  | .recording _ _ => true
  | _ => false

/-- `AttachesWhereBound`, as a condition on a step of the pool: a submission of `r` queues its tasks
    where `r` is bound, and recording them it has memory for a context and leaves the count below
    2^31. -/
def SubmitsWhereBound (r : ReqId) (s : PoolSys κ α) : PoolAction κ α → Prop
  | .advance c alloc =>
    match s.calls c with
    | .attaching sub w _ => sub.requestId = r → ∀ w', (lane r s).BoundTo w' → w' = w
    | .recording sub _ nodes => sub.requestId = r →
      (sub.single = true ∨ alloc = .ok) ∧ ctxCount (s.reqHash.find r) + nodes.length < 2 ^ 31
    | _ => True
  | _ => True

/-- A submission that attaches where its id is bound does so in the lane. -/
theorem attachesWhereBound_of_explains [DecidableEq κ] {workerCount : Nat} {r : ReqId}
    {s : PoolSys κ α} {ok : PoolSys κ α → PoolAction κ α → Prop} {a : PoolAction κ α}
    {l : LaneLabel κ α} (hr : (poolSystem κ α workerCount).Reach ok s) (h : SubmitsWhereBound r s a)
    (hexp : Explains r s a l) : AttachesWhereBound (lane r s) l := by
  cases l with
  | attach c w nodes =>
    obtain ⟨sub, alloc, rfl, hc, hid⟩ := hexp
    simp only [SubmitsWhereBound, hc] at h
    refine ⟨?_, h hid⟩
    -- a submission has tasks, and a node for each
    have hsub : (s.calls c).submission = some sub := by
      rw [hc]
      rfl
    have htasks := (PoolSys.submission_reach (P := fun _ => True) (fun _ _ _ _ _ => trivial)
      (hr.mono fun _ _ _ => trivial) hsub).1
    have hcreated := PoolSys.carries_reach hr c
    rw [hc] at hcreated
    rintro rfl
    exact htasks (List.forall₂_nil_right_iff.mp hcreated.2)
  | record c ok =>
    obtain ⟨sub, w, nodes, alloc, rfl, hc, hid, rfl⟩ := hexp
    simp only [SubmitsWhereBound, hc] at h
    obtain ⟨halloc, hcount⟩ := h hid
    refine ⟨?_, fun w' k hk => ?_⟩
    · rcases halloc with hs | ha
      · simp [hs]
      · simp [ha]
    · rw [lane_calls, hc, laneCall, if_pos hid] at hk
      obtain ⟨-, rfl⟩ := LaneCall.recording.inj hk
      exact hcount
  | _ => trivial

section PoolBinding

variable [DecidableEq κ] {workerCount : Nat} {r : ReqId} {s : PoolSys κ α}

/-- In every run of the pool whose submissions do so the lane is bound. -/
theorem lane_bound (h : (poolSystem κ α workerCount).Reach (SubmitsWhereBound r) s) :
    (lane r s).Bound := by
  have hreached := h.strengthen
    (Q := fun s => (poolSystem κ α workerCount).Reach (fun _ _ => True) s)
    fun _ hr => hr.mono fun _ _ _ => trivial
  exact bound_reach (lane_reach (fun s a l hok hexp =>
    attachesWhereBound_of_explains hok.2 hok.1 hexp) hreached)

omit [DecidableEq κ] in
theorem laneQueue_ne_nil {w : Nat} {t : TaskNode α} (ht : t ∈ (s.workers w).queue)
    (hr : t.requestId = r) : (lane r s).queue w ≠ [] :=
  List.ne_nil_of_mem (List.mem_filter.mpr ⟨ht, beq_iff_eq.mpr hr⟩)

omit [DecidableEq κ] in
theorem laneWakes_ne_nil {w : Nat} {p : PendingReqNode} (hp : p ∈ (s.workers w).pending)
    (hr : p.requestId = r) : (lane r s).wakes w ≠ [] :=
  List.ne_nil_of_mem (List.mem_map.mpr ⟨p, List.mem_filter.mpr ⟨hp, beq_iff_eq.mpr hr⟩, rfl⟩)

/-- In every run in which submissions of `r` attach where `r` is bound and record a count that an
    `int` holds, and in every state in which none is in progress: the queued tasks of `r` are with
    the worker its context names, the wake-ups of `r` are accepted or about to be accepted there,
    and a cancel of `r` leaves none of its tasks in any queue. -/
theorem queued_with_context_worker
    (h : (poolSystem κ α workerCount).Reach (SubmitsWhereBound r) s)
    (hsub : ∀ c, (laneCall r (s.calls c)).submits = false) :
    (∀ w, ∀ t ∈ (s.workers w).queue, t.requestId = r →
      ∃ ctx, s.reqHash.find r = some ctx ∧ ctx.workerIdx = w) ∧
    (∀ w, ∀ p ∈ (s.workers w).pending, p.requestId = r →
      ∀ w', ∀ t ∈ (s.workers w').queue, t.requestId = r → w' = w) ∧
    (∀ c userData w, s.calls c = .waking r userData w →
      ∀ w', ∀ t ∈ (s.workers w').queue, t.requestId = r → w' = w) ∧
    (∀ c w alloc s', s.calls c = .cancelling r w → s.step (.advance c alloc) = some s' →
      ∀ w', ∀ t ∈ (s'.workers w').queue, t.requestId ≠ r) := by
  obtain ⟨⟨w₀, hone⟩, ⟨d, hd, hbal⟩, -, -⟩ := lane_bound h
  have hqueue : ∀ w, ∀ t ∈ (s.workers w).queue, t.requestId = r → w = w₀ :=
    fun w t ht hr => hone w (.inr (laneQueue_ne_nil ht hr))
  refine ⟨?_, ?_, ?_, ?_⟩
  · intro w t ht hr
    rcases hbal.queued_bound hd (laneQueue_ne_nil ht hr) with ⟨ctx, hctx⟩ | ⟨c, w', k, hc⟩
    · refine ⟨ctx, hctx, ?_⟩
      rw [hone _ (.inl (.inl ⟨ctx, hctx, rfl⟩)), hqueue w t ht hr]
    · have hno := hsub c
      rw [← lane_calls, hc] at hno
      cases hno
  · intro w p hp hpr w' t ht hr
    rw [hqueue w' t ht hr, hone w (.inl (.inr (.inr (laneWakes_ne_nil hp hpr))))]
  · intro c userData w hc w' t ht hr
    have htarget : ((lane r s).calls c).target = some w := by
      rw [lane_calls, hc, laneCall, if_pos rfl]
      rfl
    rw [hqueue w' t ht hr, hone w (.inl (.inr (.inl ⟨c, htarget⟩)))]
  · intro c w alloc s' hc hs w' t ht hr
    have htarget : ((lane r s).calls c).target = some w := by
      rw [lane_calls, hc, laneCall, if_pos rfl]
      rfl
    have hw : w = w₀ := hone w (.inl (.inr (.inl ⟨c, htarget⟩)))
    simp only [PoolSys.step, PoolSys.advance, hc, Option.some.injEq] at hs
    subst hs
    by_cases hww : w' = w
    · subst hww
      simp [PoolSys.setCall, PoolSys.record, PoolSys.setWorker, cancelInWorkerQueue, hr] at ht
    · have ht' : t ∈ (s.workers w').queue := by
        simpa [PoolSys.setCall, PoolSys.record, PoolSys.setWorker, Function.update_of_ne hww] using ht
      exact hww (by rw [hqueue w' t ht' hr, hw])

end PoolBinding

/-! ### Two workers, two submissions

Two submissions of one id.  In one run the second goes where the first is, and a cancel finds both;
in the other it goes to the worker with less to do. -/

/-- No allocation of the step fails. -/
def PoolAction.allocOk : PoolAction κ α → Bool
  | .submit _ _ alloc => alloc == .ok
  | .advance _ alloc => alloc == .ok
  | _ => true

/-- One task of request 7, submitted alone. -/
def oneTask : Submission Unit := ⟨true, [⟨0#64, 7#64, (), false, 0#64⟩], none, none⟩

/-- Two tasks of request 9. -/
def otherPair : Submission Unit :=
  ⟨false, [⟨0#64, 9#64, (), false, 0#64⟩, ⟨0#64, 9#64, (), false, 0#64⟩], none, none⟩

/-- A call of so many sections, from its start until its result is taken. -/
def runSubmission (c : κ) (sub : Submission α) (sections : Nat) : List (PoolAction κ α) :=
  .submit c sub .ok :: List.replicate sections (.advance c .ok) ++ [.collect c]

/-- Worker 0 is loaded with two tasks of request 9, so that both submissions of request 7 choose
    worker 1; the second finds the task of the first still queued.  Then a cancel looks up 7. -/
def submitTwiceThere : List (PoolAction Bool Unit) :=
  runSubmission true otherPair 5 ++ runSubmission true oneTask 5 ++ runSubmission true oneTask 6 ++
    [.cancel false 7#64]

section Twice

variable {r : ReqId}

/-- A lane whose wake-ups nobody has looked up has none. -/
theorem unwoken_reach [DecidableEq κ] {L : Lane κ α}
    (h : (laneSystem κ α r).Reach (fun _ l => ∀ c u, l ≠ .lookWake c u) L) :
    (∀ w, L.wakes w = []) ∧ ∀ c u w, L.calls c ≠ .waking u w := by
  refine h.invariant (I := fun L => (∀ w, L.wakes w = []) ∧ ∀ c u w, L.calls c ≠ .waking u w) ?_ ?_
  · rintro L rfl
    exact ⟨fun _ => rfl, fun c u w hc => by cases hc⟩
  · intro L l L' _ ⟨hwakes, hcalls⟩ hok hs
    have hcall : ∀ {c : κ} {pc : LaneCall}, (∀ u w, pc ≠ .waking u w) →
        ∀ c' u w, Function.update L.calls c pc c' ≠ .waking u w := by
      intro c pc hpc c' u w
      by_cases hc : c' = c
      · rw [hc, Function.update_self]
        exact hpc u w
      · rw [Function.update_of_ne hc]
        exact hcalls c' u w
    cases hs with
    | tau | finish | account => exact ⟨hwakes, hcalls⟩
    | submit | giveUp | record | lookCancel | uncount | attach =>
      exact ⟨hwakes, hcall fun u w hc => by cases hc⟩
    | lookWake => exact absurd rfl (hok _ _)
    | pushWake hc | dropWake hc => exact absurd hc (hcalls _ _ _)
    | @cancelQueue c w =>
      refine ⟨fun w' => ?_, hcall fun u w hc => by split at hc <;> cases hc⟩
      by_cases hw : w' = w
      · subst hw
        exact Function.update_self ..
      · exact (Function.update_of_ne hw _ _).trans (hwakes w')
    | take _ hwake | miss _ hwake => cases (hwakes _).symm.trans hwake

/-- `SubmitsWhereBound` of a step in a pool of two callers in which nobody is woken. -/
def submitsWhereBoundb (r : ReqId) (s : PoolSys Bool Unit) : PoolAction Bool Unit → Bool
  | .advance c alloc =>
    match s.calls c with
    | .attaching sub w _ => sub.requestId != r ||
      ((s.reqHash.find r).all (fun ctx => ctx.workerIdx == w) &&
        [true, false].all fun c => (laneCall r (s.calls c)).target.all fun w' => w' == w)
    | .recording sub _ nodes => sub.requestId != r ||
      ((sub.single || alloc == .ok) && ctxCount (s.reqHash.find r) + nodes.length < 2 ^ 31)
    | _ => true
  | .wake _ _ _ => false
  | _ => true

/-- The test that submissions attach where the id is bound. -/
theorem submitsWhereBound_of_b {workerCount : Nat} {s : PoolSys Bool Unit}
    (h : (poolSystem Bool Unit workerCount).Reach (fun s a => submitsWhereBoundb r s a = true) s) :
    (poolSystem Bool Unit workerCount).Reach (SubmitsWhereBound r) s := by
  have hunwoken : ∀ s, (poolSystem Bool Unit workerCount).Reach
      (fun s a => submitsWhereBoundb r s a = true) s → ∀ w, (lane r s).wakes w = [] := by
    intro s hr
    refine (unwoken_reach (lane_reach (r := r) (fun s a l hok hexp c u => ?_) hr)).1
    rintro rfl
    obtain rfl : a = .wake c r u := hexp
    cases hok
  refine (h.strengthen hunwoken).mono fun s a ⟨hok, hwakes⟩ => ?_
  cases a with
  | advance c alloc =>
    simp only [submitsWhereBoundb] at hok
    simp only [SubmitsWhereBound]
    cases hc : s.calls c with
    | attaching sub w nodes =>
      rintro hid
      rw [hc] at hok
      simp only [hid, bne_self_eq_false, Bool.false_or, Bool.and_eq_true, List.all_eq_true] at hok
      rintro w' (⟨ctx, hctx, rfl⟩ | ⟨c', hc'⟩ | hw)
      · have hall := hok.1
        rw [← lane_ctx, hctx] at hall
        exact eq_of_beq hall
      · have hall := hok.2 c' (by cases c' <;> decide)
        rw [← lane_calls, hc'] at hall
        exact eq_of_beq hall
      · exact absurd (hwakes w') hw
    | recording sub w nodes =>
      rintro hid
      rw [hc] at hok
      simpa [hid] using hok
    | _ => trivial
  | _ => trivial

/-- The binding holds after a second submission that joins the first, and the cancel that has looked
    it up removes both tasks. -/
theorem queued_with_context_worker_twice : ∃ s s' : PoolSys Bool Unit,
    (poolSystem Bool Unit 2).Reach (SubmitsWhereBound 7#64) s ∧
      ((lane 7#64 s).queue 1).length = 2 ∧
      (∀ w, ∀ t ∈ (s.workers w).queue, t.requestId = 7#64 →
        ∃ ctx, s.reqHash.find 7#64 = some ctx ∧ ctx.workerIdx = w) ∧
      s.step (.advance false .ok) = some s' ∧
      ∀ w, ∀ t ∈ (s'.workers w).queue, t.requestId ≠ 7#64 := by
  have hrun : (exec (submitsWhereBoundb 7#64) PoolSys.step (PoolSys.start 2) submitTwiceThere).any
      (fun s => ((lane 7#64 s).queue 1).length == 2 &&
        (s.isIdle true && laneCall 7#64 (s.calls false) == .cancelling 1)) = true := by
    decide +kernel
  obtain ⟨s, hr, hs⟩ := poolSystem_exec _ (fun _ _ h => h) _ _ hrun
  simp only [Bool.and_eq_true, beq_iff_eq] at hs
  obtain ⟨hlen, hidle, hcancel⟩ := hs
  have hr := submitsWhereBound_of_b hr
  have hno : ∀ c, (laneCall 7#64 (s.calls c)).submits = false := by
    rintro (_ | _)
    · rw [hcancel]
      rfl
    · rw [laneCall_of_isIdle hidle]
      rfl
  have hcall := laneCall_cancelling.mp hcancel
  obtain ⟨hqueued, -, -, hremoves⟩ := queued_with_context_worker hr hno
  obtain ⟨s', hs'⟩ : ∃ s', s.step (.advance false .ok) = some s' := by
    simp [PoolSys.step, PoolSys.advance, hcall]
  exact ⟨s, s', hr, hlen, hqueued, hs', hremoves false 1 .ok s' hcall hs'⟩

end Twice

/-- No call is in progress, worker 1 holds a task of request 7 and the context of 7 names
    worker 0. -/
def splitOverWorkers (s : PoolSys Unit Unit) : Bool :=
  s.isIdle () && (s.workers 1).queue.any (fun t => t.requestId == 7#64) &&
    (s.reqHash.find 7#64).any (fun ctx => ctx.workerIdx == 0)

/-- Without the condition: two submissions of request 7 on two workers.  The second finds worker 0
    loaded, queues its task on worker 1 and leaves the context pointing at worker 0. -/
theorem second_submission_elsewhere :
    ¬ ∀ s : PoolSys Unit Unit,
      (poolSystem Unit Unit 2).Reach (fun _ a => a.allocOk = true) s →
      (∀ c, (laneCall 7#64 (s.calls c)).submits = false) →
      ∀ w, ∀ t ∈ (s.workers w).queue, t.requestId = 7#64 →
        ∃ ctx, s.reqHash.find 7#64 = some ctx ∧ ctx.workerIdx = w := by
  intro hall
  have hrun : ∃ s, (poolSystem Unit Unit 2).Reach (fun _ a => a.allocOk = true) s ∧
      splitOverWorkers s = true :=
    poolSystem_exec (fun _ a => a.allocOk) (fun _ _ h => h)
      (runSubmission () oneTask 4 ++ runSubmission () oneTask 5) splitOverWorkers (by decide +kernel)
  obtain ⟨s, hr, hP⟩ := hrun
  simp only [splitOverWorkers, Bool.and_eq_true, List.any_eq_true, beq_iff_eq] at hP
  obtain ⟨⟨hidle, t, ht, htr⟩, hctx⟩ := hP
  obtain ⟨ctx, hfind, hw⟩ := hall s hr (fun c => by rw [laneCall_of_isIdle hidle]; rfl) 1 t ht htr
  rw [hfind, Option.any_some, hw] at hctx
  cases hctx

end OsTransport
