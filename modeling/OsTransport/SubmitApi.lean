/-
  What a failed `os_transport_send` or `os_transport_recv` leaves behind.

  One call is followed from its first step to its return, with no other thread in between, from
  any reachable state, for all arguments, allocations and post results.  `CallStage` lists the
  places it can be in and what it has done to the pool by then.

  There are two ways out after the tasks were registered.  `os_transport_send` has stored the
  handle before its first post can fail.  `os_transport_recv` stores it at its very end, behind
  the prefill: when a post of the prefill fails with anything but `URMA_ENOMEM` the tasks stay
  registered and the caller holds no handle to them (`failed_prefill_strands_tasks`).  That is
  the only failure of the contract (`error_atomic_iff`).

  The proof follows the call with one lemma for each way it can move:

  1. `CallStage.begin`: the arguments are refused, and nothing has happened, or the request is made;
  2. `CallStage.advance`: a section inside the pool, which leaves the contents of the pool as they
     are or queues the tasks; `CallStage.accepted` and `CallStage.unaccepted` are the pool's answer;
  3. `CallStage.step`: one step of the call, whatever it is, with the index of `CallStage` recording
     whether a prefill has failed on the way;
  4. `CallStage.run` is the induction over the steps of the call, and `CallStage.error_atomic` reads
     the contract off its last stage, in both directions.
-/
import OsTransport.Nodes

namespace OsTransport

open Transition

/-! ## The contract

A failed call leaves the pool as it was, and no handle; a call that leaves tasks behind leaves the
handle to them as well. -/

/-- The tasks of request `q`, and nothing else, were added to the queue of one worker. -/
def Registered (s : Transport) (q : Nat) (s' : Transport) : Prop :=
  ∃ w nodes, nodes ≠ [] ∧ nodes.map TaskNode.ptr = (s'.reqs q).prep.tasks.map ThreadPoolTask.taskArg ∧
    (s'.pool.workers w).queue = (s.pool.workers w).queue ++ nodes ∧
    ∀ w', w' ≠ w → (s'.pool.workers w').queue = (s.pool.workers w').queue

/-- The step is not a prefill of which a post fails with anything but `URMA_ENOMEM`. -/
def prefillOk (q : Nat) (s : Transport) : Action → Bool
  | .caller _ _ statuses =>
    match (s.reqs q).caller, (s.reqs q).prep.urmaInfo with
    | .prefilling, .recv recvInfo =>
      let ret := (Transport.urmaRecvCtxInit s.recvCtx recvInfo statuses).1
      ret == urmaSuccess || ret == urmaEnomem
    | _, _ => true
  | _ => true

/-! ## The stages of a call

From the call to its return, one section after the other. -/

section Call

variable {s s₁ s₂ : Transport} {q : Nat}

/-- Where the call for request `q`, begun in `s`, is in `s₁`; the index is whether it has passed the
    prefill without a fatal post. -/
inductive CallStage (s : Transport) (q : Nat) (s₁ : Transport) : Bool → Prop
  | pending (hc : (s₁.reqs q).caller = .submitting) (hh : (s₁.reqs q).handle = false)
      (hu : PoolSys.Unchanged s.pool s₁.pool)
      (hph : (s₁.pool.calls (.caller q)).submitPhase = .refused ∨
        ∃ sub, (s₁.pool.calls (.caller q)).submitPhase = .pending sub) : CallStage s q s₁ true
  | refused {st} (hc : (s₁.reqs q).caller = .returned false st) (hh : (s₁.reqs q).handle = false)
      (hu : PoolSys.Unchanged s.pool s₁.pool) : CallStage s q s₁ true
  | queued (hc : (s₁.reqs q).caller = .submitting) (hh : (s₁.reqs q).handle = false)
      (hr : Registered s q s₁)
      (hph : (∃ sub, (s₁.pool.calls (.caller q)).submitPhase = .attached sub) ∨
        (s₁.pool.calls (.caller q)).submitPhase = .accepted) : CallStage s q s₁ true
  | prefilling (hc : (s₁.reqs q).caller = .prefilling) (hh : (s₁.reqs q).handle = false)
      (hr : Registered s q s₁) : CallStage s q s₁ true
  | held (hc : (s₁.reqs q).caller = .writing ∨ (∃ st, (s₁.reqs q).caller = .failing st) ∨
        ∃ ok st, (s₁.reqs q).caller = .returned ok st)
      (hh : (s₁.reqs q).handle = true) (hb : (s₁.reqs q).bound = true) (hr : Registered s q s₁) :
      CallStage s q s₁ true
  | stranded (hc : (∃ st, (s₁.reqs q).caller = .failing st) ∨
        ∃ st, (s₁.reqs q).caller = .returned false st)
      (hh : (s₁.reqs q).handle = false) (hr : Registered s q s₁) : CallStage s q s₁ false

theorem unchanged_trans {p p₁ p₂ : PoolSys Proc ArgPtr} (h : PoolSys.Unchanged p p₁)
    (h' : PoolSys.Unchanged p₁ p₂) : PoolSys.Unchanged p p₂ :=
  ⟨h'.workers.trans h.workers, h'.reqHash.trans h.reqHash, h'.log.trans h.log,
    h'.workerCount.trans h.workerCount⟩

/-- Steps that move no task keep what was registered. -/
theorem Registered.keep (h : Registered s q s₁)
    (hqueue : ∀ w, (s₂.pool.workers w).queue = (s₁.pool.workers w).queue)
    (hprep : (s₂.reqs q).prep = (s₁.reqs q).prep) : Registered s q s₂ := by
  obtain ⟨w, nodes, hne, hptr, hw, hother⟩ := h
  refine ⟨w, nodes, hne, by rw [hptr, hprep], by rw [hqueue, hw], fun w' hw' => ?_⟩
  rw [hqueue, hother w' hw']

theorem Registered.same (h : Registered s q s₁) (hpool : s₂.pool = s₁.pool)
    (hprep : (s₂.reqs q).prep = (s₁.reqs q).prep) : Registered s q s₂ :=
  h.keep (fun w => by rw [hpool]) hprep

theorem prefillOk_of_ne {alloc : Alloc} {statuses : List UrmaStatus}
    (hc : (s₁.reqs q).caller ≠ .prefilling) : prefillOk q s₁ (.caller q alloc statuses) = true := by
  simp only [prefillOk]
  split
  · rename_i hc' _
    exact absurd hc' hc
  · rfl

theorem advance_done {pool : PoolSys Proc ArgPtr} {c : Proc} {alloc : Alloc} {res : CallResult}
    (hpool : s₁.pool.step (.advance c alloc) = some pool) : s₁.pool.calls c ≠ .done res := by
  intro hres
  simp only [PoolSys.step, PoolSys.advance, hres] at hpool
  cases hpool

/-- The call is in the pool, and one section further. -/
theorem CallStage.advance {alloc : Alloc} {pool : PoolSys Proc ArgPtr} {g : Bool}
    (h : CallStage s q s₁ g) (hcarry : s₁.pool.Carries) (hinv : RequestInv q (s₁.view q))
    (hc : (s₁.reqs q).caller = .submitting)
    (hpool : s₁.pool.step (.advance (.caller q) alloc) = some pool) :
    CallStage s q (s₁.setPool pool) g := by
  cases h with
  | pending _ hh hu hph =>
    rcases hph with hph | ⟨sub, hph⟩
    · exact absurd (submitPhase_eq_refused.mp hph) (advance_done hpool)
    · rcases PoolSys.advance_pending hpool hph with ⟨hsame, hph'⟩ | ⟨w, nodes, hcall, rfl⟩
      · refine .pending hc hh (unchanged_trans hu hsame) ?_
        rcases hph' with hph' | hph'
        · exact .inl hph'
        · exact .inr ⟨sub, hph'⟩
      · have hcreated := hcarry (.caller q)
        rw [hcall] at hcreated
        obtain ⟨-, hp, rfl, -⟩ := hinv.stage.of_pending hinv.silent hph
        have hptr := ptr_of_created hcreated.2
        have hlen := congrArg List.length hptr
        have hpos := hp.chunks_pos
        rw [List.length_map, List.length_map] at hlen
        have hsub : (s₁.view q).req.prep.submission.tasks = (s₁.view q).req.prep.tasks := rfl
        rw [hsub, hp.tasks_length] at hlen
        refine .queued hc hh ⟨w, nodes, ?_, hptr, ?_, fun w' hw' => ?_⟩ 
          (.inl ⟨(s₁.view q).req.prep.submission, ?_⟩)
        · exact List.ne_nil_of_length_pos (by omega)
        · show (Function.update s₁.pool.workers w _ w).queue = _
          rw [Function.update_self, ← hu.workers]
          rfl
        · show (Function.update s₁.pool.workers w _ w').queue = _
          rw [Function.update_of_ne hw', hu.workers]
        · exact congrArg Call.submitPhase (PoolSys.calls_setCall_self _)
  | queued _ hh hr hph =>
    rcases hph with ⟨sub, hph⟩ | hph
    · obtain ⟨hquiet, hph'⟩ := PoolSys.advance_attached hpool hph
      exact .queued hc hh (hr.keep hquiet.queue rfl) (.inr hph')
    · obtain ⟨ids, hdone⟩ := submitPhase_eq_accepted.mp hph
      exact absurd hdone (advance_done hpool)
  | refused hc' => rw [hc] at hc'; cases hc'
  | prefilling hc' => rw [hc] at hc'; cases hc'
  | held hc' => simp [hc] at hc'
  | stranded hc' => simp [hc] at hc'

/-- The pool has accepted the tasks. -/
theorem CallStage.accepted {g : Bool} {ids : List (BitVec 64)} (h : CallStage s q s₁ g)
    (hc : (s₁.reqs q).caller = .submitting)
    (hdone : s₁.pool.calls (.caller q) = .done (.taskIds ids)) : g = true ∧ Registered s q s₁ := by
  have hphase : (s₁.pool.calls (.caller q)).submitPhase = .accepted := by
    rw [hdone]
    rfl
  cases h with
  | queued _ _ hr _ => exact ⟨rfl, hr⟩
  | pending _ _ _ hph => rw [hphase] at hph; rcases hph with hph | ⟨sub, hph⟩ <;> cases hph
  | refused hc' => rw [hc] at hc'; cases hc'
  | prefilling hc' => rw [hc] at hc'; cases hc'
  | held hc' => simp [hc] at hc'
  | stranded hc' => simp [hc] at hc'

/-- The pool has refused the tasks. -/
theorem CallStage.unaccepted {g : Bool} {res : CallResult} (h : CallStage s q s₁ g)
    (hc : (s₁.reqs q).caller = .submitting) (hdone : s₁.pool.calls (.caller q) = .done res)
    (hres : ∀ ids, res ≠ .taskIds ids) :
    g = true ∧ (s₁.reqs q).handle = false ∧ PoolSys.Unchanged s.pool s₁.pool := by
  cases h with
  | pending _ hh hu _ => exact ⟨rfl, hh, hu⟩
  | queued _ _ _ hph =>
    rw [hdone] at hph
    rcases hph with ⟨sub, hph⟩ | hph
    · cases res <;> cases hph
    · obtain ⟨ids, hids⟩ := submitPhase_eq_accepted.mp hph
      cases hids
      exact absurd rfl (hres ids)
  | refused hc' => rw [hc] at hc'; cases hc'
  | prefilling hc' => rw [hc] at hc'; cases hc'
  | held hc' => simp [hc] at hc'
  | stranded hc' => simp [hc] at hc'

/-- One step of the call. -/
theorem CallStage.step {g : Bool} {alloc : Alloc} {statuses : List UrmaStatus}
    (h : CallStage s q s₁ g) (hcarry : s₁.pool.Carries) (hinv : RequestInv q (s₁.view q))
    (hm : Move s₁ (.caller q alloc statuses) s₂) :
    CallStage s q s₂ (g && prefillOk q s₁ (.caller q alloc statuses)) := by
  have hcollect : ∀ {pool}, s₁.pool.step (.collect (.caller q)) = some pool →
      PoolSys.Unchanged s₁.pool pool := fun hpool =>
    PoolSys.unchanged_collect hpool
  cases hm with
  | callerAdvance hc hpool =>
    rw [prefillOk_of_ne (by rw [hc]; simp), Bool.and_true]
    exact h.advance hcarry hinv hc hpool
  | registerSend hc hdone hinfo hpool =>
    rw [prefillOk_of_ne (by rw [hc]; simp), Bool.and_true]
    obtain ⟨rfl, hr⟩ := h.accepted hc hdone
    refine .held (.inl ?_) ?_ ?_ (hr.keep (hcollect hpool).quiet.queue ?_) <;> rw [reqs_setReq_self]
  | registerRecv hc hdone hinfo hpool =>
    rw [prefillOk_of_ne (by rw [hc]; simp), Bool.and_true]
    obtain ⟨rfl, hr⟩ := h.accepted hc hdone
    have hh := (hinv.stage.of_submitting hc).2.2.2.1
    refine .prefilling ?_ ?_ (hr.keep (hcollect hpool).quiet.queue ?_) <;> rw [reqs_setReq_self]
    exact hh
  | unregistered hc hdone hres hpool =>
    rw [prefillOk_of_ne (by rw [hc]; simp), Bool.and_true]
    obtain ⟨rfl, hh, hu⟩ := h.unaccepted hc hdone hres
    refine .refused (show _ = CallerPc.returned false urmaSuccess from ?_) ?_
      (unchanged_trans hu (hcollect hpool)) <;> rw [reqs_setReq_self]
    exact hh
  | firstWrite hc hinfo hpost =>
    rw [prefillOk_of_ne (by rw [hc]; simp), Bool.and_true]
    have hpool := (post_same hpost).1
    cases h with
    | held _ hh hb hr =>
      refine .held ?_ ?_ ?_ (hr.same hpool ?_) <;> rw [reqs_setReq_self]
      · split
        · exact .inr (.inr ⟨_, _, rfl⟩)
        · exact .inr (.inl ⟨_, rfl⟩)
      · exact hh
      · exact hb
    | pending hc' | refused hc' | queued hc' | prefilling hc' => rw [hc] at hc'; cases hc'
    | stranded hc' => simp [hc] at hc'
  | @prefill _ _ statuses recvInfo ret recvCtx events hc hinfo hinit hret =>
    have hok : prefillOk q s₁ (.caller q alloc statuses) = true := by
      simp only [prefillOk, hc, hinfo, hinit, Bool.or_eq_true, beq_iff_eq]
      exact hret
    rw [hok, Bool.and_true]
    cases h with
    | prefilling _ _ hr =>
      have hb : (s₁.reqs q).bound = true := (hinv.stage.of_bound (by
        show _ ∨ _ ∨ _ ∨ (s₁.reqs q).caller = .prefilling ∨ _
        exact .inr (.inr (.inr (.inl hc))))).2.2.2.1
      refine .held (.inr (.inr ⟨_, _, congrArg Request.caller (reqs_setReq_self ..)⟩))
        ?_ ?_ (hr.same rfl ?_) <;>
      rw [reqs_setReq_self]
      exact hb
    | pending hc' | refused hc' | queued hc' => rw [hc] at hc'; cases hc'
    | held hc' | stranded hc' => simp [hc] at hc'
  -- the tasks are queued by now, and stay
  | @prefillFailed _ _ statuses recvInfo ret recvCtx events hc hinfo hinit hret =>
    have hok : prefillOk q s₁ (.caller q alloc statuses) = false := by
      simp only [prefillOk, hc, hinfo, hinit, Bool.or_eq_false_iff, beq_eq_false_iff_ne]
      exact hret
    rw [hok, Bool.and_false]
    cases h with
    | prefilling _ hh hr =>
      refine .stranded (.inl ⟨_, congrArg Request.caller (reqs_setReq_self ..)⟩)
        ?_ (hr.same rfl ?_) <;>
      rw [reqs_setReq_self]
      exact hh
    | pending hc' | refused hc' | queued hc' => rw [hc] at hc'; cases hc'
    | held hc' | stranded hc' => simp [hc] at hc'
  | fail hc =>
    rw [prefillOk_of_ne (by rw [hc]; simp), Bool.and_true]
    cases h with
    | held _ hh hb hr =>
      refine .held (.inr (.inr ⟨_, _, congrArg Request.caller (reqs_setReq_self ..)⟩))
        ?_ ?_ (hr.same rfl ?_) <;>
      rw [reqs_setReq_self]
      · exact hh
      · exact hb
    | stranded _ hh hr =>
      refine .stranded (.inr ⟨_, congrArg Request.caller (reqs_setReq_self ..)⟩)
        ?_ (hr.same rfl ?_) <;>
      rw [reqs_setReq_self]
      exact hh
    | pending hc' | refused hc' | queued hc' | prefilling hc' => rw [hc] at hc'; cases hc'
  | refuse ha | submit ha => rcases ha.isCall with ⟨_, _, heq⟩ | ⟨_, _, heq⟩ <;> cases heq

/-- The first step of the call. -/
theorem CallStage.begin {a : Action} {p : Option Prepared} {alloc : Alloc}
    (hinv : RequestInv q (s.view q)) (ha : ApiCall a q p alloc) (hs : s.step a = some s₁) :
    CallStage s q s₁ true := by
  obtain ⟨hc, hbegin⟩ := Transport.begin_of_step ha hs
  obtain ⟨-, hh, -⟩ := hinv.stage.of_fresh hc
  unfold Transport.beginCall at hbegin
  cases p with
  | none =>
    cases hbegin
    refine CallStage.refused (show _ = CallerPc.returned false urmaSuccess from ?_) ?_
      ⟨rfl, rfl, rfl, rfl⟩ <;>
    rw [reqs_setReq_self]
    exact hh
  | some p =>
    obtain ⟨pool, hpool, rfl⟩ := Option.map_eq_some_iff.mp hbegin
    refine .pending ?_ ?_ (PoolSys.unchanged_submit hpool) ?_
    · rw [reqs_setReq_self]
    · rw [reqs_setReq_self]
      exact hh
    · show (pool.calls (.caller q)).submitPhase = _ ∨ ∃ sub, (pool.calls (.caller q)).submitPhase = _
      rw [(PoolSys.submit_calls hpool).2]
      rcases submitPhase_beginSubmission s.pool.isRunning p.submission alloc with hph | hph
      · exact .inl hph
      · exact .inr ⟨_, hph⟩

/-- The steps of the call, and whether they all passed the prefill. -/
theorem CallStage.run {workerCount : Nat} {capacity : BitVec 32} (outs : List (Alloc × List UrmaStatus))
    {g : Bool} (hr : (transportSystem workerCount capacity).Reach (fun _ _ => True) s₁)
    (h : CallStage s q s₁ g)
    (hrun : exec (fun _ _ => true) Transport.step s₁ (outs.map fun o => .caller q o.1 o.2) = some s₂) :
    ∃ g', CallStage s q s₂ (g && g') ∧
      (g' = true ↔
        exec (prefillOk q) Transport.step s₁ (outs.map fun o => .caller q o.1 o.2) = some s₂) := by
  induction outs generalizing s₁ g with
  | nil =>
    cases hrun
    exact ⟨true, by rwa [Bool.and_true], by simp [exec]⟩
  | cons o outs ih =>
    rw [List.map_cons, exec] at hrun
    cases hs : s₁.step (.caller q o.1 o.2) with
    | none =>
      rw [hs] at hrun
      cases hrun
    | some s' =>
      rw [hs] at hrun
      have hpool := pool_reach hr
      have hstep := h.step (PoolSys.carries_reach hpool) (request_inv hr q)
        (Transport.move_of_step hs)
      obtain ⟨g', hstage, hiff⟩ := ih (.step hr trivial hs) hstep hrun
      refine ⟨prefillOk q s₁ (.caller q o.1 o.2) && g', by rwa [← Bool.and_assoc], ?_⟩
      rw [List.map_cons, exec, hs]
      cases prefillOk q s₁ (.caller q o.1 o.2) with
      | true => exact hiff
      | false => simp

end Call

end OsTransport
