/-
  The count of a request context is exact.

  A context counts the tasks of its request that are still owed: queued, being executed and not
  yet counted down, or removed by a cancel that has not yet counted them off.  Queue and count are
  under different mutexes, so the count lags behind the queue; `OsTransport.Binding` has the
  balance that holds at every moment, up to a `drift` that is never negative.  Here the drift is
  zero: when a submission starts on an idle id, nothing can touch the id before the context is
  recorded (there is no context to look up), so no count-down ever finds less than it takes away
  (`drift_eq_zero`), and the balance is an equation.

  1. `Lane.Settled` is an id on which no submission is on its way; `Lane.SubmittedBy` one on which a
     single submission has queued its tasks and nobody else has touched the id.  A run alternates
     between the two, and `Lane.Counts` says so (`counts_step`);
  2. in either the tasks still owed are covered by the count (`Lane.Counts.covers`), so what a
     count-down takes away is there, and `drift_eq_zero` follows by cases on the step;
  3. `stage_step` says which of the two comes next, `countFits_step` that the count stays in its
     `int` while the tasks still owed are fewer than 2^31;
  4. `lane_counts` carries both to the pool, and `context_count` is the balance of
     `OsTransport.Binding` with its drift at zero.

  The witness has a task in hand, a cancel between its edit of the queue and its count-down, and a
  context whose count is the sum of both.
-/
import OsTransport.Binding
import OsTransport.PoolEffect

namespace OsTransport

open Transition Total

variable {κ α : Type*}

/-! ## The lane of an id whose submissions start idle

While a call submits it is alone at the lane (`SubmittedBy`); otherwise nobody submits (`Settled`).
In either case the balance has no drift, and the context counts at least what each single term of it
has. -/

/-- Nothing of the id is in the pool and no call of it is in progress.  Only then does the condition
    let a submission of the id start. -/
structure Lane.Idle (L : Lane κ α) : Prop where
  ctx : L.ctx = none
  queue : ∀ w, L.queue w = []
  wakes : ∀ w, L.wakes w = []
  exec : ∀ w, L.exec w = .loop
  calls : ∀ c, L.calls c = .idle

/-- Submissions start when the id is idle, queue at least one and fewer than 2^31 tasks, and get
    their context. -/
def SubmitsIdle (L : Lane κ α) : LaneLabel κ α → Prop
  | .submit _ => L.Idle
  | .attach _ _ nodes => nodes ≠ [] ∧ nodes.length < 2 ^ 31
  | .record _ alloc => alloc = true
  | _ => True

/-- No submission is in progress.  Wake-ups, cancels and the worker may be: these only take away. -/
def Lane.Settled (L : Lane κ α) : Prop := ∀ c, (L.calls c).submits = false

/-- Call `c` submits, and nothing else goes on.  Until the context is recorded nobody can find the
    tasks, so nobody comes between. -/
structure Lane.SubmittedBy (L : Lane κ α) (c : κ) : Prop where
  ctx : L.ctx = none
  wakes : ∀ w, L.wakes w = []
  exec : ∀ w, L.exec w = .loop
  submits : (L.calls c).submits = true
  loaded : ∀ w k, L.calls c = .recording w k → 0 < k ∧ k < 2 ^ 31
  others : ∀ c', c' ≠ c → L.calls c' = .idle

/-- The context counts what is owed.  The balance is an equation here, with no drift. -/
structure Lane.Counts (L : Lane κ α) : Prop where
  balance : L.Balance 0
  counts : CountFits L.ctx
  stage : L.Settled ∨ ∃ c, L.SubmittedBy c

section Lane

variable [DecidableEq κ] {r : ReqId} {L L' : Lane κ α} {l : LaneLabel κ α}

omit [DecidableEq κ] in
/-- While `c` submits, every call in progress is `c`. -/
theorem Lane.SubmittedBy.eq {c c' : κ} (h : L.SubmittedBy c) (hc : L.calls c' ≠ .idle) : c' = c := by
  by_contra hne
  exact hc (h.others c' hne)

omit [DecidableEq κ] in
/-- With a call past its submission, nobody submits. -/
theorem Lane.Counts.settled (h : L.Counts) {c : κ} (hc : L.calls c ≠ .idle)
    (hs : (L.calls c).submits = false) : L.Settled := by
  rcases h.stage with hset | ⟨c₀, hsub⟩
  · exact hset
  · rw [hsub.eq hc, hsub.submits] at hs
    cases hs

omit [DecidableEq κ] in
/-- Who submits is the only one at the lane. -/
theorem Lane.Counts.submitted (h : L.Counts) {c : κ} (hs : (L.calls c).submits = true) :
    L.SubmittedBy c := by
  rcases h.stage with hset | ⟨c₀, hsub⟩
  · rw [hset c] at hs
    cases hs
  · have hne : L.calls c ≠ .idle := by
      intro hidle
      rw [hidle] at hs
      cases hs
    rwa [hsub.eq hne]

/-- A call that does not submit leaves a settled lane settled. -/
theorem Lane.Settled.setCall (h : L.Settled) {c : κ} {pc : LaneCall} (hpc : pc.submits = false)
    (c' : κ) : (Function.update L.calls c pc c').submits = false := by
  by_cases hc : c' = c
  · rw [hc, Function.update_self, hpc]
  · rw [Function.update_of_ne hc]
    exact h c'

/-- A submission that ends leaves the id without calls. -/
theorem Lane.SubmittedBy.ended {c : κ} (h : L.SubmittedBy c) (c' : κ) :
    (Function.update L.calls c .idle c').submits = false := by
  by_cases hc : c' = c
  · rw [hc, Function.update_self]
    rfl
  · rw [Function.update_of_ne hc, h.others c' hc]
    rfl

omit [DecidableEq κ] in
/-- Without a submission in progress the calls have nothing to add to the count. -/
theorem Lane.Settled.credit_nonpos (h : L.Settled) {m : Int} (hm : HasTotal LaneCall.credit L.calls m) :
    m ≤ 0 := by
  refine hm.nonpos fun c => ?_
  have hno := h c
  cases hx : L.calls c with
  | recording w n =>
    rw [hx] at hno
    cases hno
  | uncounting n => simp [LaneCall.credit]
  | _ => exact Int.le_refl 0

/-- A call of the id that is between removing tasks and counting them off is covered by the
    context. -/
theorem Lane.Counts.covers (h : L.Counts) {c : κ} {k : Nat} (hc : L.calls c = .uncounting k) :
    (k : Int) ≤ ctxCount L.ctx := by
  have hset : L.Settled := h.settled (by rw [hc]; simp) (by rw [hc]; rfl)
  obtain ⟨q, e, m, -, -, hm, heq⟩ := h.balance
  have hrest : HasTotal LaneCall.credit (Function.update L.calls c .idle) (m + k) := by
    refine hm.update ?_
    rw [hc]
    simp only [LaneCall.credit]
    omega
  have hle : m + k ≤ 0 :=
    Lane.Settled.credit_nonpos (L := { L with calls := Function.update L.calls c .idle })
      (hset.setCall rfl) hrest
  omega

omit [DecidableEq κ] in
/-- What a worker has in its queue or in its hands is covered by the context. -/
theorem Lane.Counts.covers_worker (h : L.Counts) (hset : L.Settled) (w : Nat) :
    ((L.queue w).length : Int) + (L.exec w).owed ≤ ctxCount L.ctx := by
  obtain ⟨q, e, m, hq, he, hm, heq⟩ := h.balance
  have hqueue : (L.queue w).length ≤ q := hq.le w
  have hexec : (L.exec w).owed ≤ e := he.le w
  have hcredit := hset.credit_nonpos hm
  omega

omit [DecidableEq κ] in
/-- The count of a lane fits an `int`. -/
theorem Lane.Counts.count_lt (h : L.Counts) : ctxCount L.ctx < 2 ^ 31 := by
  cases hctx : L.ctx with
  | none => exact (by decide : (0 : Int) < 2 ^ 31)
  | some ctx => exact (h.counts ctx hctx).2

/-- No count-down finds less than it takes away. -/
theorem drift_eq_zero (h : L.Counts) (hok : SubmitsIdle L l) (hs : LaneStep r L l L') :
    L.drift l = 0 := by
  cases hs with
  | @record c w k alloc cb hc =>
    obtain rfl : alloc = true := hok
    have hsub := h.submitted (c := c) (by rw [hc]; rfl)
    obtain ⟨hpos, hlt⟩ := hsub.loaded w k hc
    have hcount : ctxCount L.ctx = 0 := by
      rw [hsub.ctx]
      rfl
    simp only [Lane.drift, hc]
    rw [(h.counts.recorded hpos (by omega)).2]
    omega
  -- fewer than 2^31 tasks are freed, so their 32-bit count is their count
  | @cancelQueue c w hc =>
    have hset : L.Settled := h.settled (by rw [hc]; simp) (by rw [hc]; rfl)
    have hcover := h.covers_worker hset w
    have hlt := h.count_lt
    simp only [Lane.drift, hc]
    split <;> omega
  | @uncount c k hc =>
    have hcover := h.covers hc
    simp only [Lane.drift, hc]
    cases hctx : L.ctx with
    | none =>
      rw [hctx] at hcover
      simp only [cancelledContext, ctxCount] at hcover ⊢
      omega
    | some ctx =>
      rw [hctx] at hcover
      obtain ⟨hpos, hlt⟩ := h.counts ctx hctx
      simp only [ctxCount] at hcover
      rw [cancelledContext_of_fits (by omega) hlt (by omega)]
      split <;> simp only [ctxCount] <;> omega
  | @account w task ret hexec =>
    have hcover : 1 ≤ ctxCount L.ctx := by
      rcases h.stage with hset | ⟨c, hsub⟩
      · have hle := h.covers_worker hset w
        rw [hexec] at hle
        simp only [Exec.owed] at hle
        omega
      · rw [hsub.exec w] at hexec
        cases hexec
    simp only [Lane.drift]
    cases hctx : L.ctx with
    | none =>
      rw [hctx] at hcover
      simp only [ctxCount] at hcover
      omega
    | some ctx =>
      obtain ⟨hpos, hlt⟩ := h.counts ctx hctx
      rw [accountedContext_of_fits (by omega) hlt]
      split <;> simp only [ctxCount] <;> omega
  | _ => rfl

/-! A context, a wake-up and a task in hand are all of a submission that is over. -/

omit [DecidableEq κ] in
/-- With a context nobody submits. -/
theorem Lane.Counts.settled_of_ctx (h : L.Counts) {ctx : RequestContext} (hctx : L.ctx = some ctx) :
    L.Settled := by
  rcases h.stage with hset | ⟨c, hsub⟩
  · exact hset
  · rw [hsub.ctx] at hctx
    cases hctx

omit [DecidableEq κ] in
/-- Nor does anybody with a wake-up pending, -/
theorem Lane.Counts.settled_of_wake (h : L.Counts) {w : Nat} {u : BitVec 64}
    {wakes : List (BitVec 64)} (hwake : L.wakes w = u :: wakes) : L.Settled := by
  rcases h.stage with hset | ⟨c, hsub⟩
  · exact hset
  · rw [hsub.wakes w] at hwake
    cases hwake

omit [DecidableEq κ] in
/-- nor with a worker at the id. -/
theorem Lane.Counts.settled_of_exec (h : L.Counts) {w : Nat} (hexec : L.exec w ≠ .loop) :
    L.Settled := by
  rcases h.stage with hset | ⟨c, hsub⟩
  · exact hset
  · exact absurd (hsub.exec w) hexec

/-- The call that starts on an idle id is the only one. -/
theorem Lane.Idle.submit (h : L.Idle) (c : κ) :
    Lane.SubmittedBy { L with calls := Function.update L.calls c .submitting } c where
  ctx := h.ctx
  wakes := h.wakes
  exec := h.exec
  submits := by
    simp only [Function.update_self]
    rfl
  loaded := by
    intro w k hrec
    simp only [Function.update_self] at hrec
    cases hrec
  others := by
    intro c' hc'
    simp only [Function.update_of_ne hc']
    exact h.calls c'

/-- It stays the only one when it has queued its tasks, as nobody finds a context. -/
theorem Lane.SubmittedBy.attach {c : κ} (h : L.SubmittedBy c) {queue : Nat → List (TaskNode α)}
    {w k : Nat} (hpos : 0 < k) (hlt : k < 2 ^ 31) :
    Lane.SubmittedBy { L with
      queue := queue
      calls := Function.update L.calls c (.recording w k) } c where
  ctx := h.ctx
  wakes := h.wakes
  exec := h.exec
  submits := by
    simp only [Function.update_self]
    rfl
  loaded := by
    intro w' k' hrec
    simp only [Function.update_self, LaneCall.recording.injEq] at hrec
    obtain ⟨-, rfl⟩ := hrec
    exact ⟨hpos, hlt⟩
  others := by
    intro c' hc'
    simp only [Function.update_of_ne hc']
    exact h.others c' hc'

/-- The count stays within an `int`. -/
theorem countFits_step (h : L.Counts) (hok : SubmitsIdle L l) (hs : LaneStep r L l L') :
    CountFits L'.ctx := by
  cases hs with
  | @record c w k alloc cb hc =>
    have hsub := h.submitted (c := c) (by rw [hc]; rfl)
    obtain rfl : alloc = true := hok
    obtain ⟨hpos, hlt⟩ := hsub.loaded w k hc
    -- the count begins at the number of tasks queued
    have hcount : ctxCount L.ctx = 0 := by
      rw [hsub.ctx]
      rfl
    exact (h.counts.recorded hpos (by omega)).1
  | @uncount c k => exact (h.counts.cancelled k).1
  | account => exact h.counts.accounted.1
  | _ => exact h.counts

/-- At most one submission is in progress, and nothing else with it. -/
theorem stage_step (h : L.Counts) (hok : SubmitsIdle L l) (hs : LaneStep r L l L') :
    L'.Settled ∨ ∃ c, L'.SubmittedBy c := by
  cases hs with
  | tau => exact h.stage
  | @submit c hc =>
    have hidle : L.Idle := hok
    exact .inr ⟨c, hidle.submit c⟩
  | @attach c w nodes hc hid =>
    have hsub := h.submitted (c := c) (by rw [hc]; rfl)
    exact .inr ⟨c, hsub.attach (List.length_pos_of_ne_nil hok.1) hok.2⟩
  | giveUp hc | record hc => exact .inl (h.submitted (by rw [hc]; rfl)).ended
  | lookWake hc hctx | lookCancel hc hctx => exact .inl ((h.settled_of_ctx hctx).setCall rfl)
  | pushWake hc | dropWake hc | uncount hc =>
    exact .inl ((h.settled (by rw [hc]; simp) (by rw [hc]; rfl)).setCall rfl)
  | cancelQueue hc =>
    have hset := h.settled (by rw [hc]; simp) (by rw [hc]; rfl)
    exact .inl (hset.setCall (by split <;> rfl))
  | take hexec hwake | miss hexec hwake => exact .inl (h.settled_of_wake hwake)
  | finish hexec | account hexec =>
    exact .inl (h.settled_of_exec (by rw [hexec]; simp))

/-- **One step keeps the count**: the balance has no drift, the count stays an `int`, and the lane is
    in one of its two stages. -/
theorem counts_step (h : L.Counts) (hok : SubmitsIdle L l) (hs : LaneStep r L l L') :
    L'.Counts := by
  refine ⟨?_, countFits_step h hok hs, stage_step h hok hs⟩
  have hstep := balance_step hs h.balance
  rwa [drift_eq_zero h hok hs, Int.add_zero] at hstep

/-- In every run of a lane that is idle at each submission the counts are right. -/
theorem counts_reach (h : (laneSystem κ α r).Reach SubmitsIdle L) : L.Counts := by
  refine h.invariant ?_ ?_
  · rintro L rfl
    exact ⟨balance_empty, countFits_none, .inl fun c => rfl⟩
  · intro L l L' _ hL hok hs
    exact counts_step hL hok hs

end Lane

/-! ## In the pool

The terms of the count read off the pool's state, and the guard: a submission of the id starts when
nothing of it is left. -/

/-- What a call still owes a context: the tasks it removed and has not counted off. -/
def LaneCall.removed : LaneCall → Nat
  | .uncounting k => k
  | _ => 0

/-- `n` tasks of `r` are queued, executing and not counted down, or removed by a cancel that has not
    counted them off. -/
def Outstanding (r : ReqId) (s : PoolSys κ α) (n : Nat) : Prop :=
  ∃ queued executing removed : Nat,
    HasTotal (fun worker => (laneQueue r worker.queue).length) s.workers queued ∧
    HasTotal (fun worker => (laneExec r worker.exec).owed) s.workers executing ∧
    HasTotal (fun call => (laneCall r call).removed) s.calls removed ∧
    n = queued + executing + removed

/-- Submissions of `r` start when nothing of `r` is in the pool and no call of it is in progress,
    bring fewer than 2^31 tasks, and get the memory for their context. -/
def SubmitsOnIdle (r : ReqId) (s : PoolSys κ α) : PoolAction κ α → Prop
  | .submit _ sub _ => sub.requestId = r → (lane r s).Idle ∧ sub.tasks.length < 2 ^ 31
  | .advance c alloc =>
    match s.calls c with
    | .recording sub _ _ => sub.requestId = r → sub.single = true ∨ alloc = .ok
    | _ => True
  | _ => True

/-- No submission of `r` is between queueing its tasks and recording its context. -/
def NoneRecording (r : ReqId) (s : PoolSys κ α) : Prop :=
  ∀ c sub w nodes, s.calls c = .recording sub w nodes → sub.requestId ≠ r

section Pool

variable [DecidableEq κ] {workerCount : Nat} {r : ReqId} {s : PoolSys κ α}

/-- There is one number of tasks outstanding. -/
theorem Outstanding.unique {n m : Nat} (h : Outstanding r s n) (h' : Outstanding r s m) : n = m := by
  obtain ⟨q, e, k, hq, he, hk, rfl⟩ := h
  obtain ⟨q', e', k', hq', he', hk', rfl⟩ := h'
  rw [hq.unique hq', he.unique he', hk.unique hk']

omit [DecidableEq κ] in
/-- With no submission about to record, the credit of the calls is what cancels have removed. -/
theorem removed_of_credit {m : Int} (hm : HasTotal LaneCall.credit (lane r s).calls m)
    (hnone : NoneRecording r s) :
    ∃ k : Nat, HasTotal (fun call => (laneCall r call).removed) s.calls k ∧ m = -k := by
  have hcredit : ∀ c, ((laneCall r (s.calls c)).removed : Int) =
      -(laneCall r (s.calls c)).credit := by
    intro c
    cases hc : laneCall r (s.calls c) with
    | recording w k =>
      obtain ⟨sub, nodes, hcall, hr, -⟩ := laneCall_recording hc
      exact absurd hr (hnone c sub w nodes hcall)
    | _ => simp [LaneCall.removed, LaneCall.credit]
  have hneg := hm.map (negAddMonoidHom : Int →+ Int)
  obtain ⟨k, hk, heq⟩ := HasTotal.natCast (g := fun call => (laneCall r call).removed)
    (hneg.congr hcredit)
  refine ⟨k, hk, ?_⟩
  have : -m = (k : Int) := heq
  omega

omit [DecidableEq κ] in
/-- What the pool grants a submission of `r` when it attaches its nodes. -/
theorem submitsIdle_of_explains {a : PoolAction κ α} {l : LaneLabel κ α}
    (hcarry : s.Carries)
    (hcall : ∀ c sub, (s.calls c).submission = some sub →
      sub.tasks ≠ [] ∧ (sub.requestId = r → sub.tasks.length < 2 ^ 31))
    (h : SubmitsOnIdle r s a) (hexp : Explains r s a l) : SubmitsIdle (lane r s) l := by
  cases l with
  | submit c =>
    obtain ⟨sub, alloc, rfl, hr⟩ := hexp
    exact (h hr).1
  | attach c w nodes =>
    obtain ⟨sub, alloc, rfl, hc, hr⟩ := hexp
    obtain ⟨hne, hlen⟩ := hcall c sub (by rw [hc]; rfl)
    have hcreated := hcarry c
    rw [hc] at hcreated
    have heq : sub.tasks.length = nodes.length := hcreated.2.length_eq
    constructor
    · rintro rfl
      exact hne (List.eq_nil_of_length_eq_zero heq)
    · rw [← heq]
      exact hlen hr
  | record c ok =>
    obtain ⟨sub, w, nodes, alloc, rfl, hc, hr, rfl⟩ := hexp
    simp only [SubmitsOnIdle, hc] at h
    rcases h hr with hsingle | halloc
    · simp [SubmitsIdle, hsingle]
    · simp [SubmitsIdle, halloc]
  | _ => trivial

/-- In every run of the pool whose submissions find the lane idle they are. -/
theorem lane_counts (h : (poolSystem κ α workerCount).Reach (SubmitsOnIdle r) s) :
    (lane r s).Counts := by
  have hgrant : ∀ s, (poolSystem κ α workerCount).Reach (SubmitsOnIdle r) s →
      s.Carries ∧ ∀ c sub, (s.calls c).submission = some sub →
        sub.tasks ≠ [] ∧ (sub.requestId = r → sub.tasks.length < 2 ^ 31) := by
    intro s hs
    refine ⟨PoolSys.carries_reach hs, fun c sub hc => ?_⟩
    refine PoolSys.submission_reach (P := fun sub => sub.requestId = r → sub.tasks.length < 2 ^ 31)
      ?_ hs hc
    intro s c sub alloc hok hr
    exact (hok hr).2
  have hlane : (laneSystem κ α r).Reach SubmitsIdle (lane r s) := by
    refine lane_reach ?_ (h.strengthen hgrant)
    rintro s a l ⟨hok, hcarry, hcall⟩ hexp
    exact submitsIdle_of_explains hcarry hcall hok hexp
  exact counts_reach hlane

/-- In every run in which submissions of `r` start on an idle id: a context owes at least one task,
    and when no submission of `r` is between queueing its tasks and recording its context, a
    context of `r` exists exactly while tasks of `r` are outstanding, and its count is their number;
    when none is outstanding, a wake-up of `r` is rejected. -/
theorem context_count (h : (poolSystem κ α workerCount).Reach (SubmitsOnIdle r) s) :
    (∀ ctx, s.reqHash.find r = some ctx → 0 < ctx.pendingCount ∧ ctx.pendingCount < 2 ^ 31) ∧
    ∃ n, Outstanding r s n ∧ (NoneRecording r s →
      ((∃ ctx, s.reqHash.find r = some ctx) ↔ 0 < n) ∧
      (∀ ctx, s.reqHash.find r = some ctx → ctx.pendingCount = n) ∧
      (n = 0 → ∀ c userData s', s.step (.wake c r userData) = some s' →
        s'.calls c = .done .err)) := by
  have hcounts := lane_counts h
  refine ⟨hcounts.counts, ?_⟩
  obtain ⟨q, e, m, hq, he, hm, heq⟩ := hcounts.balance
  obtain ⟨k, hk⟩ : ∃ k, HasTotal (fun call => (laneCall r call).removed) s.calls k := by
    have hzero : ∀ call : LaneCall, call.credit = 0 → call.removed = 0 := by
      intro call hcall
      cases call with
      | uncounting k =>
        simp only [LaneCall.credit] at hcall
        show k = 0
        omega
      | _ => rfl
    obtain ⟨k, hk⟩ := hm.exists_of_zero hzero
    exact ⟨k, hk.congr fun c => rfl⟩
  refine ⟨q + e + k, ⟨q, e, k, hq.congr fun w => rfl, he.congr fun w => rfl, hk, rfl⟩, ?_⟩
  intro hnone
  obtain ⟨k', hk', rfl⟩ := removed_of_credit hm hnone
  obtain rfl : k' = k := hk'.unique hk
  have hcount : ctxCount (s.reqHash.find r) = (q + e + k' : Nat) := by
    have : (lane r s).ctx = s.reqHash.find r := rfl
    rw [← this]
    omega
  refine ⟨?_, ?_, ?_⟩
  · constructor
    · rintro ⟨ctx, hctx⟩
      have hpos := (hcounts.counts ctx hctx).1
      rw [hctx] at hcount
      simp only [ctxCount] at hcount
      omega
    · intro hpos
      cases hctx : s.reqHash.find r with
      | some ctx => exact ⟨ctx, rfl⟩
      | none =>
        rw [hctx] at hcount
        simp only [ctxCount] at hcount
        omega
  · intro ctx hctx
    rw [hctx] at hcount
    exact hcount
  · intro hzero c userData s' hs
    have hfind : s.reqHash.find r = none := by
      cases hctx : s.reqHash.find r with
      | none => rfl
      | some ctx =>
        have hpos := (hcounts.counts ctx hctx).1
        rw [hctx] at hcount
        simp only [ctxCount] at hcount
        omega
    obtain ⟨-, hs⟩ := Option.ite_none_right_eq_some.mp hs
    rw [hfind] at hs
    cases hs
    exact PoolSys.calls_setCall_self _

end Pool

/-- Three tasks of request 7 without match key. -/
def threeTasks : Submission Unit := ⟨false, List.replicate 3 ⟨0#64, 7#64, (), false, 0#64⟩, none, none⟩

/-- The steps of one caller that are allowed once the first submission has begun: there is no
    further one, and memory for the context. -/
def PoolAction.joinsIn : PoolAction κ α → Bool
  | .submit _ _ _ => false
  | .advance _ alloc => alloc == .ok
  | _ => true

/-- The batch is queued and woken up once; a worker has taken a task and not returned from it when a
    cancel takes the two others out of the queue. -/
def cancelBeforeCountDown : List (PoolAction Unit Unit) :=
  List.replicate 6 (.advance () .ok) ++ [.collect (), .wake () 7#64 0#64, .advance () .ok,
    .collect (), .pop 0, .cancel () 7#64, .advance () .ok]

/-- One task in hand and two removed and not yet counted off: the context counts all three. -/
theorem context_count_cancelled : ∃ s : PoolSys Unit Unit,
    (poolSystem Unit Unit 1).Reach (SubmitsOnIdle 7#64) s ∧
      (s.workers 0).exec.owed = 1 ∧ laneCall 7#64 (s.calls ()) = .uncounting 2 ∧
      ∃ ctx, s.reqHash.find 7#64 = some ctx ∧ Outstanding 7#64 s 3 ∧ ctx.pendingCount = 3 := by
  have hok : ∀ (s : PoolSys Unit Unit) a, PoolAction.joinsIn a = true → SubmitsOnIdle 7#64 s a := by
    intro s a h
    cases a with
    | submit => cases h
    | advance c alloc =>
      simp only [PoolAction.joinsIn, beq_iff_eq] at h
      subst h
      show SubmitsOnIdle _ _ _
      unfold SubmitsOnIdle
      simp only
      split
      · simp
      · trivial
    | _ => trivial
  -- the submission starts in the empty pool
  have hidle : SubmitsOnIdle 7#64 (PoolSys.start 1 : PoolSys Unit Unit)
      (.submit () threeTasks .ok) := by
    intro _
    exact ⟨⟨rfl, fun _ => rfl, fun _ => rfl, fun _ => rfl, fun _ => rfl⟩, by decide⟩
  have hr₁ := System.Reach.step (M := poolSystem Unit Unit 1) (.init rfl) hidle
    (rfl : (PoolSys.start 1 : PoolSys Unit Unit).step (.submit () threeTasks .ok) = some _)
  have hany : (exec (fun _ a => PoolAction.joinsIn a) PoolSys.step
      (PoolSys.setCall (PoolSys.start 1) () (beginSubmission true threeTasks .ok))
      cancelBeforeCountDown).any
        (fun s => decide ((s.workers 0).exec.owed = 1) &&
          decide (laneCall 7#64 (s.calls ()) = .uncounting 2) &&
          decide ((s.reqHash.find 7#64).map RequestContext.pendingCount = some 3)) = true := by
    decide +kernel
  obtain ⟨s, hrun, hdone⟩ := exec_any hany
  have hr := exec_reach hok _ _ _ hr₁ hrun
  simp only [Bool.and_eq_true, decide_eq_true_eq] at hdone
  obtain ⟨⟨howed, hcall⟩, hfind⟩ := hdone
  obtain ⟨ctx, hctx, hthree⟩ := Option.map_eq_some_iff.mp hfind
  obtain ⟨-, n, hn, hall⟩ := context_count hr
  obtain ⟨-, hcount, -⟩ := hall (by
    rintro ⟨⟩ sub w nodes hrec hid
    rw [hrec, laneCall, if_pos hid] at hcall
    cases hcall)
  obtain rfl : n = 3 := by
    have hsame := (hcount ctx hctx).symm.trans hthree
    omega
  exact ⟨s, hr, howed, hcall, ctx, hctx, hn, hthree⟩

end OsTransport
