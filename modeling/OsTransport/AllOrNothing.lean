/-
  A submission registers all of its tasks or none.

  A call of `thread_pool_submit_batch_tasks` or `thread_pool_submit_task` is followed through its own
  sections, with anything the other threads do in between.  Up to the section that queues the
  nodes nothing of the pool has changed, so every failing allocation before it is harmless.  After
  it the nodes are visible, and three things can still go wrong (`all_or_nothing_iff`):

  * CONTEXT — `update_batch_context` allocates the missing context of a batch under
              `req_hash_mutex`, and the call ignores that this failed.  A single task has allocated
              its context before;
  * COUNT   — the count of the context is an `int`, which wraps at 2^31;
  * READ    — a single call returns the id it finds in its task, which another thread may have freed
              by then: what it finds may be 0, the sign of a failure.

  How the iff is proved:

  1. `CallRun` collects the call's own sections, each with the pool it found and the pool it left;
     whatever others do in between is a step of `other` and is not collected;
  2. `Submitted` says what the sections so far have done, by the place the call has come to.  It is
     an invariant of `CallRun` (`CallRun.submitted`): the call's own sections move it on
     (`Submitted.advance`), and nobody else's step touches the place (`Submitted.other`);
  3. at the end the place is `.done`, and the two constructors that end there are the two answers:
     refused, with every section harmless, or accepted, with one section that queued and one that
     recorded (`raises_of_record` says when the second did its work);
  4. what the caller is handed is `PoolSys.given`, which reads the id where the source reads it, so
     a single call may be handed a 0 for a task that was queued (`given_submitResult`).

  `all_or_nothing_iff_pair` runs a batch of two alone; `batch_without_context` is the same batch
  with no memory for its context.
-/
import OsTransport.PoolBooks

namespace OsTransport

open Transition

variable {κ α : Type*}

/-! ## The sections of one call

A call is a list of sections, each given with the pool it found and the pool it left.
`AllOrNothing` speaks of these alone, so it is the same whatever others do in between. -/

/-- A section of a call: the pool it found, its allocations, the pool it left. -/
structure CallSection (κ α : Type*) where
  before : PoolSys κ α
  alloc : Alloc
  after : PoolSys κ α

namespace CallSection

/-- No queue and no context is changed.  Calls may move and ids may be drawn: neither can be seen by
    another request. -/
def Keeps (x : CallSection κ α) : Prop :=
  x.after.workers = x.before.workers ∧ x.after.reqHash = x.before.reqHash

/-- `nodes` are appended to the queue of worker `w`. -/
def Appends (x : CallSection κ α) (w : Nat) (nodes : List (TaskNode α)) : Prop :=
  x.after.workers = Function.update x.before.workers w (attachNodesToWorker (x.before.workers w) nodes) ∧
    x.after.reqHash = x.before.reqHash

/-- The count of `r` is raised by `k`, in a new context if there was none. -/
def Raises (x : CallSection κ α) (r : ReqId) (w k : Nat) : Prop :=
  x.after.workers = x.before.workers ∧ (∀ r', r' ≠ r → x.after.reqHash.find r' = x.before.reqHash.find r') ∧
    ∃ ctx, x.after.reqHash.find r = some ctx ∧
      match x.before.reqHash.find r with
      | some old => ctx = { old with pendingCount := old.pendingCount + k }
      | none => ctx.requestId = r ∧ ctx.workerIdx = w ∧ ctx.pendingCount = k

/-- A request with context `found` can be counted up by `k`: the context is there, or there is memory
    for one, and the sum is an `int`. -/
def CountsUp (found : Option RequestContext) (memory : Prop) (k : Nat) : Prop :=
  match found with
  | some old => -2 ^ 31 ≤ old.pendingCount + k ∧ old.pendingCount + k < 2 ^ 31
  | none => memory ∧ k < 2 ^ 31

instance (found : Option RequestContext) (memory : Prop) [Decidable memory] (k : Nat) :
    Decidable (CountsUp found memory k) :=
  match found with
  | some _ => inferInstanceAs (Decidable (_ ∧ _))
  | none => inferInstanceAs (Decidable (_ ∧ _))

/-- The section does not queue a single task under the id 0, which the caller takes for a failure,
    and does not leave a queued batch without a context or with a wrong count. -/
def Sound (c : κ) (x : CallSection κ α) : Prop :=
  match x.before.calls c with
  | .attaching sub _ nodes =>
    ¬ (sub.single = true ∧ x.alloc = .ok ∧ nodes.map ThreadPoolTask.taskId = [0#64])
  | .recording sub _ nodes =>
    CountsUp (x.before.reqHash.find sub.requestId) (sub.single = true ∨ x.alloc = .ok) nodes.length
  | _ => True

end CallSection

/-- The caller sees a failure: `NULL`, or `0` for the id of a single task.  A caller cannot tell a
    task that was queued under the id 0 from one that was not queued. -/
def Submission.Failed (sub : Submission α) (given : List (BitVec 64)) : Prop :=
  given = [] ∨ sub.single = true ∧ given = [0#64]

/-- What a submission owes the caller it gives these ids: nothing done, or all of it.  The sections
    are those of the call alone; between them anybody may have done anything. -/
structure AllOrNothing (sub : Submission α) (own : List (CallSection κ α))
    (given : List (BitVec 64)) : Prop where
  nothing : sub.Failed given → ∀ x ∈ own, x.Keeps
  all : ¬ sub.Failed given → ∃ earlier attach record w nodes, own = earlier ++ [attach, record] ∧
    (∀ x ∈ earlier, x.Keeps) ∧ attach.Appends w nodes ∧ record.Raises sub.requestId w sub.tasks.length ∧
    List.Forall₂ sub.Created sub.tasks nodes ∧ given = nodes.map ThreadPoolTask.taskId

section Call

variable [DecidableEq κ]

/-- A run in which process `c` makes the call `sub` in `h₀`; `own` are the sections of the call so
    far, between which other threads do anything. -/
inductive CallRun (c : κ) (sub : Submission α) (h₀ : PoolHistory κ α) :
    List (CallSection κ α) → PoolHistory κ α → Prop
  | call {alloc : Alloc} {h : PoolHistory κ α} (hs : h₀.step (.pool (.submit c sub alloc)) = some h) :
      CallRun c sub h₀ [⟨h₀.pool, alloc, h.pool⟩] h
  | own {own : List (CallSection κ α)} {h h' : PoolHistory κ α} {alloc : Alloc}
      (hrun : CallRun c sub h₀ own h) (hs : h.step (.pool (.advance c alloc)) = some h') :
      CallRun c sub h₀ (own ++ [⟨h.pool, alloc, h'.pool⟩]) h'
  | other {own : List (CallSection κ α)} {h h' : PoolHistory κ α} {a : HistoryAction κ α}
      (hrun : CallRun c sub h₀ own h) (ha : a.proc ≠ some c) (hs : h.step a = some h') :
      CallRun c sub h₀ own h'

/-! ## Where a call is

Before the section that queues its nodes a call has changed nothing (`Submitted`); it is followed
from there to its answer. -/

/-- What a call has done, by where it is.  Up to `queued` every section so far was harmless, so
    giving up leaves nothing behind. -/
inductive Submitted (c : κ) (sub : Submission α) (s : PoolSys κ α) : List (CallSection κ α) → Prop
  | pending {own : List (CallSection κ α)} (hph : (s.calls c).submitPhase = .pending sub)
      (hkeep : ∀ x ∈ own, x.Keeps ∧ x.Sound c) : Submitted c sub s own
  | refused {own : List (CallSection κ α)} (hc : s.calls c = .done .null)
      (hkeep : ∀ x ∈ own, x.Keeps ∧ x.Sound c) : Submitted c sub s own
  | queued {earlier : List (CallSection κ α)} {attach : CallSection κ α} {w : Nat}
      {nodes : List (TaskNode α)} (hc : s.calls c = .recording sub w nodes)
      (hkeep : ∀ x ∈ earlier, x.Keeps ∧ x.Sound c)
      (happend : attach.Appends w nodes)
      (hsound : attach.Sound c ↔ ¬ (sub.single = true ∧ nodes.map ThreadPoolTask.taskId = [0#64])) :
      Submitted c sub s (earlier ++ [attach])
  | accepted {earlier : List (CallSection κ α)} {attach record : CallSection κ α} {w : Nat}
      {nodes : List (TaskNode α)}
      (hc : s.calls c = .done (submitResult sub w nodes)) (hne : sub.tasks ≠ [])
      (hkeep : ∀ x ∈ earlier, x.Keeps ∧ x.Sound c) (happend : attach.Appends w nodes)
      (hnodes : List.Forall₂ sub.Created sub.tasks nodes)
      (hsound : attach.Sound c ↔ ¬ (sub.single = true ∧ nodes.map ThreadPoolTask.taskId = [0#64]))
      (hraise : record.Sound c → record.Raises sub.requestId w sub.tasks.length)
      (hback : ∀ w', record.Raises sub.requestId w' sub.tasks.length → record.Sound c) :
      Submitted c sub s (earlier ++ [attach, record])

omit [DecidableEq κ] in
/-- The section that records a context raises the count exactly if it is sound: the context is there
    or gets memory, and the `int` does not wrap. -/
theorem raises_of_record {x : CallSection κ α} {c : κ} {sub : Submission α} {w : Nat}
    {nodes : List (TaskNode α)} {batchCb : Option Nat} (hc : x.before.calls c = .recording sub w nodes)
    (hworkers : x.after.workers = x.before.workers)
    (hhash : x.after.reqHash = updateBatchContext x.before.reqHash (sub.single || x.alloc == .ok)
      sub.requestId w nodes.length batchCb) :
    (x.Sound c → x.Raises sub.requestId w nodes.length) ∧
      ∀ w', x.Raises sub.requestId w' nodes.length → x.Sound c := by
  have hothers : ∀ r', r' ≠ sub.requestId →
      x.after.reqHash.find r' = x.before.reqHash.find r' := by
    intro r' hr'
    rw [hhash, find_updateBatchContext, if_neg hr']
  have hown : x.after.reqHash.find sub.requestId = recordedContext (sub.single || x.alloc == .ok)
      sub.requestId w nodes.length batchCb (x.before.reqHash.find sub.requestId) := by
    rw [hhash, find_updateBatchContext, if_pos rfl]
  unfold CallSection.Raises CallSection.Sound
  rw [hc]
  show (CallSection.CountsUp _ _ _ → _) ∧ ∀ w', _ → CallSection.CountsUp _ _ _
  cases hold : x.before.reqHash.find sub.requestId with
  | some old =>
    rw [hold] at hown
    constructor
    · rintro ⟨hlo, hhi⟩
      exact ⟨hworkers, hothers, _, hown, RequestContext.add_of_fits hlo hhi⟩
    · rintro w' ⟨-, -, ctx, hctx, hraised⟩
      obtain rfl := Option.some.inj (hown.symm.trans hctx)
      exact cInt_eq_iff.mp (congrArg RequestContext.pendingCount hraised)
  | none =>
    rw [hold] at hown
    cases hok : sub.single || x.alloc == .ok with
    | true =>
      rw [hok, recordedContext, if_pos rfl] at hown
      rw [Bool.or_eq_true, beq_iff_eq] at hok
      constructor
      · rintro ⟨-, hfits⟩
        have hlt : nodes.length < 2 ^ 31 := hfits
        have hcount : cInt (nodes.length : Int) = nodes.length := cInt_eq (by omega) (by omega)
        exact ⟨hworkers, hothers, _, hown, rfl, rfl, hcount⟩
      · rintro w' ⟨-, -, ctx, hctx, -, -, hcount⟩
        obtain rfl := Option.some.inj (hown.symm.trans hctx)
        have hsame : cInt (nodes.length : Int) = nodes.length := hcount
        have hfits := (cInt_eq_iff.mp hsame).2
        have hlt : nodes.length < 2 ^ 31 := by omega
        exact ⟨hok, hlt⟩
    | false =>
      rw [hok] at hown
      rw [Bool.or_eq_false_iff, beq_eq_false_iff_ne] at hok
      constructor
      · rintro ⟨hs | ha, -⟩
        · rw [hok.1] at hs
          cases hs
        · exact absurd ha hok.2
      · rintro w' ⟨-, -, ctx, hctx, -⟩
        cases hown.symm.trans hctx

variable {c : κ} {sub : Submission α} {s s' : PoolSys κ α} {h h' h₀ : PoolHistory κ α}
  {own : List (CallSection κ α)}

/-- A section that leaves the call pending, or refuses it, is sound: it did not get as far as
    queueing anything. -/
theorem sound_of_pending {alloc : Alloc} (hs : s.advance c alloc = some s')
    (hph : (s.calls c).submitPhase = .pending sub)
    (hph' : (s'.calls c).submitPhase = .refused ∨ (s'.calls c).submitPhase = .pending sub) :
    CallSection.Sound c ⟨s, alloc, s'⟩ := by
  unfold CallSection.Sound
  split
  · rename_i sub' w nodes hc
    rintro ⟨hsingle, halloc, -⟩
    simp only at hc halloc
    simp only [PoolSys.advance, hc, halloc, ne_eq, not_true, and_false, if_false,
      Option.some.injEq] at hs
    subst hs
    rw [PoolSys.calls_setCall_self] at hph'
    rcases hph' with hph' | hph'
    · cases submitPhase_eq_refused.mp hph'
    · exact absurd hph' not_pending_of_recording
  · rename_i sub' w nodes hc
    simp only at hc
    rw [hc] at hph
    exact absurd hph not_pending_of_recording
  · trivial

/-- The section that attaches the nodes is sound unless it queues a single task under the id 0.  A
    single task still allocates its context there, and has got it if it is queued. -/
theorem sound_of_attach {alloc : Alloc} {w : Nat} {nodes : List (TaskNode α)}
    (hs : s.advance c alloc = some s') (hc : s.calls c = .attaching sub w nodes)
    (hc' : s'.calls c = .recording sub w nodes) :
    CallSection.Sound c ⟨s, alloc, s'⟩ ↔
      ¬ (sub.single = true ∧ nodes.map ThreadPoolTask.taskId = [0#64]) := by
  unfold CallSection.Sound
  simp only [hc]
  have hok : sub.single = true → alloc = .ok := by
    intro hsingle
    by_contra hne
    simp only [PoolSys.advance, hc, hsingle, ne_eq, hne, not_false_eq_true, and_self, if_true,
      Option.some.injEq] at hs
    rw [← hs, PoolSys.calls_setCall_self] at hc'
    cases hc'
  constructor
  · rintro hno ⟨hsingle, hids⟩
    exact hno ⟨hsingle, hok hsingle, hids⟩
  · rintro hno ⟨hsingle, -, hids⟩
    exact hno ⟨hsingle, hids⟩

/-- One section of the call. -/
theorem Submitted.advance (h : Submitted c sub s own) {workerCount : Nat}
    (hr : (poolSystem κ α workerCount).Reach (fun _ _ => True) s) {alloc : Alloc}
    (hs : s.step (.advance c alloc) = some s') : Submitted c sub s' (own ++ [⟨s, alloc, s'⟩]) := by
  have hadvance : s.advance c alloc = some s' := hs
  cases h with
  | pending hph hkeep =>
    rcases PoolSys.advance_pending hadvance hph with ⟨hsame, hph'⟩ | ⟨w, nodes, hc, rfl⟩
    -- a section before the attach, or the one that refuses
    · have hown : ∀ x ∈ own ++ [⟨s, alloc, s'⟩], x.Keeps ∧ x.Sound c := by
        intro x hx
        rcases List.mem_append.mp hx with hx | hx
        · exact hkeep x hx
        · rw [List.mem_singleton.mp hx]
          exact ⟨⟨hsame.workers, hsame.reqHash⟩, sound_of_pending hadvance hph hph'⟩
      rcases hph' with hph' | hph'
      · exact .refused (submitPhase_eq_refused.mp hph') hown
      · exact .pending hph' hown
    · exact .queued (PoolSys.calls_setCall_self _) hkeep ⟨rfl, rfl⟩
        (sound_of_attach hadvance hc (PoolSys.calls_setCall_self _))
  | refused hc => simp only [PoolSys.advance, hc] at hadvance; cases hadvance
  -- after the attach only the record of the context is left, which cannot refuse
  | @queued earlier attach w nodes hc hkeep happend hsound =>
    have hcreated := PoolSys.carries_reach hr c
    rw [hc] at hcreated
    have hsub : (s.calls c).submission = some sub := by
      rw [hc]
      rfl
    have hne := (PoolSys.submission_reach (P := fun _ => True) (fun _ _ _ _ _ => trivial) hr hsub).1
    have hlen := hcreated.2.length_eq
    simp only [PoolSys.advance, hc, Option.some.injEq] at hadvance
    have hworkers : s'.workers = s.workers := by
      rw [← hadvance]
      rfl
    have hhash : s'.reqHash = updateBatchContext s.reqHash (sub.single || alloc == .ok) sub.requestId w
        nodes.length (if sub.single = true then none else sub.batchCb) := by
      rw [← hadvance]
      rfl
    have hcall : s'.calls c = .done (submitResult sub w nodes) := by
      rw [← hadvance]
      exact PoolSys.calls_setCall_self _
    have hrecord := raises_of_record (x := ⟨s, alloc, s'⟩) hc hworkers hhash
    rw [← hlen] at hrecord
    rw [List.append_assoc]
    exact .accepted hcall hne hkeep happend hcreated.2 hsound hrecord.1 hrecord.2
  | accepted hc => simp only [PoolSys.advance, hc] at hadvance; cases hadvance

omit [DecidableEq κ] in
/-- What the others do does not concern it. -/
theorem Submitted.other (h : Submitted c sub s own) (hc : s'.calls c = s.calls c) :
    Submitted c sub s' own := by
  cases h with
  | pending hph hkeep => exact .pending (hc ▸ hph) hkeep
  | refused hd hkeep => exact .refused (hc.trans hd) hkeep
  | queued hd hkeep happend hsound => exact .queued (hc.trans hd) hkeep happend hsound
  | accepted hd hne hkeep happend hnodes hsound hraise hback =>
    exact .accepted (hc.trans hd) hne hkeep happend hnodes hsound hraise hback

theorem CallRun.reach {workerCount : Nat} {ok : PoolHistory κ α → HistoryAction κ α → Prop}
    (hrun : CallRun c sub h₀ own h) (hr : (historySystem κ α workerCount).Reach ok h₀) :
    (historySystem κ α workerCount).Reach (fun _ _ => True) h := by
  induction hrun with
  | call hs => exact .step (hr.mono fun _ _ _ => trivial) trivial hs
  | own _ hs ih => exact .step ih trivial hs
  | other _ _ hs ih => exact .step ih trivial hs

theorem CallRun.submitted {workerCount : Nat} {ok : PoolHistory κ α → HistoryAction κ α → Prop}
    (hrun : CallRun c sub h₀ own h) (hr : (historySystem κ α workerCount).Reach ok h₀) :
    Submitted c sub h.pool own := by
  induction hrun with
  | @call alloc h hs =>
    have hs := PoolHistory.step_pool hs
    have hsame := PoolSys.unchanged_submit hs
    obtain ⟨hidle, hcall⟩ := PoolSys.submit_calls hs
    have hkeep : ∀ x ∈ [(⟨h₀.pool, alloc, h.pool⟩ : CallSection κ α)], x.Keeps ∧ x.Sound c := by
      intro x hx
      rw [List.mem_singleton.mp hx]
      refine ⟨⟨hsame.workers, hsame.reqHash⟩, ?_⟩
      unfold CallSection.Sound
      split
      · rename_i hc
        simp only at hc
        simp [PoolSys.isIdle, hc] at hidle
      · rename_i hc
        simp only at hc
        simp [PoolSys.isIdle, hc] at hidle
      · trivial
    rcases submitPhase_beginSubmission h₀.pool.isRunning sub alloc with hph | hph
    · rw [← hcall] at hph
      exact .refused (submitPhase_eq_refused.mp hph) hkeep
    · rw [← hcall] at hph
      exact .pending hph hkeep
  | own hrun hs ih =>
    exact ih.advance (history_reach (hrun.reach hr)) (PoolHistory.step_pool hs)
  | other hrun ha hs ih => exact ih.other (PoolHistory.step_calls_of_ne hs ha)

omit [DecidableEq κ] in
/-- A queue that something was appended to has changed. -/
theorem not_keeps_of_appends {x : CallSection κ α} {w : Nat} {nodes : List (TaskNode α)}
    (h : x.Appends w nodes) (hne : nodes ≠ []) : ¬ x.Keeps := by
  rintro ⟨hworkers, -⟩
  have hqueue := congrArg (fun f => (f w).queue) (h.1.symm.trans hworkers)
  simp only [Function.update_self, attachNodesToWorker, List.append_right_eq_self] at hqueue
  exact hne hqueue

omit [DecidableEq κ] in
/-- What an accepted submission gives its caller: the ids of its nodes if it reads them in time, and
    possibly a 0 if it is a single one and does not. -/
theorem given_submitResult (hm : h.Minted) {w : Nat} {nodes : List (TaskNode α)}
    (hminted : ∀ t ∈ nodes, t.Minted) (hc : h.pool.calls c = .done (submitResult sub w nodes)) :
    (ReadsInTime h (.pool (.collect c)) ∧ h.pool.given h.unfreed (submitResult sub w nodes) =
        .taskIds (nodes.map ThreadPoolTask.taskId)) ∨
      (¬ ReadsInTime h (.pool (.collect c)) ∧ sub.single = true ∧
        h.pool.given h.unfreed (submitResult sub w nodes) = .unknown) := by
  cases hsingle : sub.single with
  | false =>
    have hbatch := submitResult_batch hsingle w nodes
    refine .inl ⟨fun w' tasks hc' => ?_, by rw [hbatch]; rfl⟩
    rw [hc, hbatch] at hc'
    cases hc'
  | true =>
    have hone : submitResult sub w nodes = .ofTasks w (nodes.map fun t => t.taskArg.serial) :=
      if_pos hsingle
    rw [hone] at hc ⊢
    by_cases hread : ReadsInTime h (.pool (.collect c))
    · refine .inl ⟨hread, ?_⟩
      rw [hm.given_ofTasks (hread w _ hc), List.map_map]
      exact congrArg Answer.taskIds (List.map_congr_left fun t ht => (hminted t ht).symm)
    · refine .inr ⟨hread, rfl, ?_⟩
      refine (h.pool.given_ofTasks h.unfreed w _).resolve_right fun hall => hread ?_
      intro w' tasks hc'
      rw [hc] at hc'
      cases hc'
      exact hall

/-- **All or nothing.**  A finished submission of any tasks, made in any reachable pool, with any
    allocations failing and anything else going on, has done all of its work if it returned ids, and
    none if it returned `NULL` or `0`, exactly if its sections were sound and it read its id in time. -/
theorem all_or_nothing_iff {workerCount : Nat} {ok : PoolHistory κ α → HistoryAction κ α → Prop}
    {result : CallResult} (hr : (historySystem κ α workerCount).Reach ok h₀)
    (hrun : CallRun c sub h₀ own h) (hdone : h.pool.calls c = .done result) :
    (∀ given, (h.pool.given h.unfreed result).MayBe given → AllOrNothing sub own given) ↔
      (∀ x ∈ own, x.Sound c) ∧ ReadsInTime h (.pool (.collect c)) := by
  have hreach := hrun.reach hr
  cases hrun.submitted hr with
  | pending hph =>
    rw [hdone] at hph
    cases result <;> cases hph
  | refused hc hkeep =>
    obtain rfl : result = .null := by
      rw [hdone] at hc
      exact Call.done.inj hc
    have hread : ReadsInTime h (.pool (.collect c)) := by
      intro w tasks hc'
      rw [hdone] at hc'
      cases hc'
    refine iff_of_true ?_ ⟨fun x hx => (hkeep x hx).2, hread⟩
    rintro given hgiven
    obtain rfl : given = [] := hgiven
    exact ⟨fun _ x hx => (hkeep x hx).1, fun hno => absurd (.inl rfl) hno⟩
  | queued hc =>
    rw [hdone] at hc
    cases hc
  | @accepted earlier attach record w nodes hc htasks hkeep happend hnodes hsound hraise hback =>
    obtain rfl : result = submitResult sub w nodes := by
      rw [hdone] at hc
      exact Call.done.inj hc
    have hne : nodes ≠ [] := by
      have hlen := hnodes.length_eq
      have hpos := List.length_pos_of_ne_nil htasks
      exact List.ne_nil_of_length_pos (by omega)
    -- the nodes are in a queue: the caller must not be told of a failure
    have hfailed : ∀ {given}, AllOrNothing sub (earlier ++ [attach, record]) given →
        ¬ sub.Failed given := fun hall hfail =>
      not_keeps_of_appends happend hne (hall.nothing hfail attach (by simp))
    have hids : nodes.map ThreadPoolTask.taskId ≠ [] := by simpa using hne
    rcases given_submitResult (minted_reach hreach) (minted_of_created hnodes) hc with
      ⟨hread, hgiven⟩ | ⟨hlate, hsingle, hgiven⟩
    · rw [hgiven]
      constructor
      · intro hall
        have hown := hall _ rfl
        have hno := hfailed hown
        refine ⟨fun x hx => ?_, hread⟩
        rcases List.mem_append.mp hx with hx | hx
        · exact (hkeep x hx).2
        · rcases List.mem_cons.mp hx with rfl | hx
          · exact hsound.mpr fun hzero => hno (.inr hzero)
          · obtain rfl := List.mem_singleton.mp hx
            obtain ⟨_, _, _, w', _, heq, -, -, hraise', -⟩ := hown.all hno
            obtain ⟨-, htail⟩ := List.append_inj' heq rfl
            obtain ⟨-, hlast⟩ := List.cons.inj htail
            obtain rfl := List.singleton_inj.mp hlast
            exact hback w' hraise'
      · rintro ⟨hall, -⟩ given hmay
        obtain rfl : given = nodes.map ThreadPoolTask.taskId := hmay
        have hno := hsound.mp (hall attach (by simp))
        refine ⟨fun hfail => ?_, fun _ => ?_⟩
        · rcases hfail with hnil | hzero
          · exact absurd hnil hids
          · exact absurd hzero hno
        · exact ⟨earlier, attach, record, w, nodes, rfl, fun x hx => (hkeep x hx).1, happend,
            hraise (hall record (by simp)), hnodes, rfl⟩
    -- the task has been freed, and a 0 may be read from it
    · rw [hgiven]
      refine iff_of_false (fun hall => ?_) fun hboth => hlate hboth.2
      exact hfailed (hall [0#64] ⟨0#64, rfl⟩) (.inr ⟨hsingle, rfl⟩)

/-! ## Two calls nobody gets in between of

A batch that is recorded, and one whose context cannot be allocated. -/

/-- Such a call may be evaluated. -/
theorem CallRun.solo {okb : PoolHistory κ α → HistoryAction κ α → Bool} (allocs : List Alloc)
    (hrun : CallRun c sub h₀ own h) (hlast : own.getLast?.map CallSection.after = some h.pool)
    (hexec : exec okb PoolHistory.step h (allocs.map fun alloc => .pool (.advance c alloc)) =
      some h') :
    ∃ own', CallRun c sub h₀ own' h' ∧ own'.getLast?.map CallSection.after = some h'.pool ∧
      ∀ x ∈ own', x ∈ own ∨ ∃ g, g.pool = x.before ∧ okb g (.pool (.advance c x.alloc)) = true := by
  induction allocs generalizing h own with
  | nil =>
    obtain rfl : h = h' := by simpa [exec] using hexec
    exact ⟨own, hrun, hlast, fun x hx => .inl hx⟩
  | cons alloc allocs ih =>
    rw [List.map_cons, exec] at hexec
    split at hexec
    · rename_i h₁ hok hs
      obtain ⟨own', hown', hlast', hall⟩ := ih (hrun.own hs) (by simp) hexec
      refine ⟨own', hown', hlast', fun x hx => ?_⟩
      rcases hall x hx with hx | hx
      · rcases List.mem_append.mp hx with hx | hx
        · exact .inl hx
        · rw [List.mem_singleton.mp hx]
          exact .inr ⟨h, rfl, hok⟩
      · exact .inr hx
    · cases hexec

/-- `CallSection.Sound` of a section about to begin. -/
def soundSection (c : κ) (h : PoolHistory κ α) : HistoryAction κ α → Bool
  | .pool (.advance _ alloc) =>
    match h.pool.calls c with
    | .attaching sub _ nodes =>
      !(sub.single && alloc == .ok && nodes.map ThreadPoolTask.taskId == [0#64])
    | .recording sub _ nodes =>
      decide (CallSection.CountsUp (h.pool.reqHash.find sub.requestId)
        (sub.single = true ∨ alloc = .ok) nodes.length)
    | _ => true
  | _ => true

omit [DecidableEq κ] in
theorem sound_of_section {x : CallSection κ α} (hpool : h.pool = x.before)
    (hsound : soundSection c h (.pool (.advance c x.alloc)) = true) : x.Sound c := by
  unfold CallSection.Sound
  simp only [soundSection, hpool] at hsound
  split
  · rename_i hc
    rw [hc] at hsound
    simp only [Bool.not_eq_true', Bool.and_eq_false_iff, beq_eq_false_iff_ne] at hsound
    rintro ⟨hsingle, halloc, hids⟩
    rcases hsound with (hs | ha) | hi
    · rw [hsingle] at hs
      cases hs
    · exact ha halloc
    · exact hi hids
  · rename_i hc
    rw [hc] at hsound
    exact of_decide_eq_true hsound
  · trivial

/-- Two tasks without match key, of one id. -/
def pairBatch : Submission Nat :=
  ⟨false, [⟨1#64, 7#64, 10, false, 0#64⟩, ⟨2#64, 7#64, 11, false, 0#64⟩], none, none⟩

/-- The result of a call that has returned. -/
def Call.result : Call α → Option CallResult
  | .done result => some result
  | _ => none

omit [DecidableEq κ] in
theorem calls_of_result {result : CallResult} (hc : (s.calls c).result = some result) :
    s.calls c = .done result := by
  cases hcall : s.calls c <;> rw [hcall] at hc <;> cases hc
  rfl

/-- Its call in a fresh pool of one worker, with these allocations. -/
theorem run_pairBatch (okb : PoolHistory Nat Nat → HistoryAction Nat Nat → Bool) (allocs : List Alloc)
    (P : PoolHistory Nat Nat → Bool)
    (hexec : ((PoolHistory.step (κ := Nat) (.start 1) (.pool (.submit 0 pairBatch .ok))).bind
      fun h => exec okb PoolHistory.step h (allocs.map fun alloc => .pool (.advance 0 alloc))).any P
        = true) :
    ∃ own h, CallRun 0 pairBatch (.start 1) own h ∧ P h = true ∧
      own.getLast?.map CallSection.after = some h.pool ∧
      ∀ x ∈ own, x.before = PoolSys.start 1 ∨
        ∃ g, g.pool = x.before ∧ okb g (.pool (.advance 0 x.alloc)) = true := by
  obtain ⟨h, hsome, hP⟩ := (Option.any_eq_true _ _).mp hexec
  obtain ⟨h₁, hcall, hs⟩ := Option.bind_eq_some_iff.mp hsome
  obtain ⟨own, hown, hlast, hall⟩ := (CallRun.call hcall).solo allocs rfl hs
  refine ⟨own, h, hown, hP, hlast, fun x hx => ?_⟩
  rcases hall x hx with hx | hx
  · rw [List.mem_singleton.mp hx]
    exact .inl rfl
  · exact .inr hx

/-- Two tasks are queued, with a new context. -/
theorem all_or_nothing_iff_pair : ∃ own h, CallRun 0 pairBatch (.start 1) own h ∧
    h.pool.calls 0 = .done (.taskIds [1#64, 2#64]) ∧ AllOrNothing pairBatch own [1#64, 2#64] := by
  obtain ⟨own, h, hown, hdone, -, hall⟩ := run_pairBatch (soundSection 0) [.ok, .ok, .ok, .ok, .ok]
    (fun h => (h.pool.calls 0).result == some (.taskIds [1#64, 2#64])) (by decide +kernel)
  have hstart : (historySystem Nat Nat 1).Reach (fun _ _ => True) (.start 1) := .init rfl
  have hresult := calls_of_result (beq_iff_eq.mp hdone)
  refine ⟨own, h, hown, hresult, (all_or_nothing_iff hstart hown hresult).mpr ⟨fun x hx => ?_, ?_⟩ _ rfl⟩
  · rcases hall x hx with hx | ⟨g, hg, hx⟩
    · unfold CallSection.Sound
      rw [hx]
      trivial
    · exact sound_of_section hg hx
  · intro w tasks hc
    rw [hresult] at hc
    cases hc

/-- The context of a batch cannot be allocated: the call returns its ids all the same. -/
theorem batch_without_context : ¬ ∀ (h₀ h : PoolHistory Nat Nat) (c : Nat) (sub : Submission Nat)
    (own : List (CallSection Nat Nat)) (result : CallResult) (given : List (BitVec 64)),
    (historySystem Nat Nat 1).Reach (fun _ _ => True) h₀ → CallRun c sub h₀ own h →
    h.pool.calls c = .done result → (h.pool.given h.unfreed result).MayBe given →
    AllOrNothing sub own given := by
  intro hall
  obtain ⟨own, h, hown, hP, hlast, -⟩ := run_pairBatch (fun _ _ => true) [.ok, .ok, .ok, .ok, .fail]
    (fun h => (h.pool.calls 0).result == some (.taskIds [1#64, 2#64]) &&
      (h.pool.reqHash.find 7#64).isNone) (by decide +kernel)
  simp only [Bool.and_eq_true, beq_iff_eq] at hP
  have hown' := hall _ h 0 _ own _ [1#64, 2#64] (.init rfl) hown (calls_of_result hP.1) rfl
  obtain ⟨earlier, attach, record, w, nodes, rfl, -, -, hraise, -⟩ := hown'.all (by
    rintro (hnil | ⟨hsingle, -⟩)
    · cases hnil
    · cases hsingle)
  have hafter : record.after = h.pool := by simpa using hlast
  obtain ⟨-, -, ctx, hctx, -⟩ := hraise
  rw [hafter, show pairBatch.requestId = 7#64 from rfl] at hctx
  simp [hctx] at hP

end Call

end OsTransport
