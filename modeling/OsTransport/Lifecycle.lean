/-
  The transport refines the life of each of its requests.

  `Transport.view s q` is what the state `s` holds about request `q`, and `view_move` says that
  a step of the transport is a step of that request or does not concern it.  So what
  `OsTransport.RequestView` proves of one request on its own holds of every request in every run
  of the transport (`request_inv`), and with the ledger the numbers of the view account for every
  task (`Ledger.request`).

  The other direction of the refinement is not needed: `RequestStep` allows more than the transport
  does, and only its invariant is used.

  1. A step that belongs to the caller, the owner or a worker of `q` is a step of the view
     (`view_caller`, `view_owner`, `view_mark`, `view_workerFree`); one of another request leaves the
     view alone (`view_other`, `view_quiet`);
  2. what a submission or a cancel does inside the pool is seen in the view as the tasks attached or
     removed (`view_callerAdvance`, `view_ownerAdvance`, `view_cancelAdvance`);
  3. `view_move` goes through `Move`, and `request_inv` is the induction; the assumption `Fits` of
     the small machine is discharged by the ledger at each step (`Ledger.fits`).
-/
import OsTransport.Ledger
import OsTransport.RequestView

namespace OsTransport

open Transition Total

/-! ## The view

What each setter of the transport does to the view of a request. -/

/-- The worker took the object of request `q` for freeing and has not freed it. -/
def freerOf (q : Nat) (x : WorkerThread ArgPtr × Body) : Bool :=
  match x.1.exec, x.2 with
  | .running task _ _, .free _ => task.ptr.sync == q
  | _, _ => false

/-- What the transport holds about request `q`.  Calls by their phase, tasks by what the histories
    say of them, and whether a worker is about to free the object. -/
def Transport.view (s : Transport) (q : Nat) : RequestView where
  req := s.reqs q
  submit := (s.pool.calls (.caller q)).submitPhase
  cancel := (s.pool.calls (.owner q)).cancelPhase
  attached := (attachedList s.pool.log).filter fun p => p.sync == q
  removedByOwner := (removals s.pool.log).countP fun x => x.1 == .owner q
  ownRemoved := (removals s.pool.log).countP fun x => x.1 == .owner q && x.2.sync == q
  removed := (removals s.pool.log).countP fun x => x.2.sync == q
  succeeded := (marks s.trace).countP fun x => x.1.sync == q && x.2
  failed := (marks s.trace).countP fun x => x.1.sync == q && !x.2
  freer w := freerOf q (s.running w)

section Frame

variable {s s' : Transport} {q q' : Nat} {pool : PoolSys Proc ArgPtr}

theorem view_setReq_self (r : Request) : (s.setReq q r).view q = { s.view q with req := r } := by
  unfold Transport.view Transport.setReq
  simp only [Function.update_self]
  rfl

theorem view_setReq_of_ne (hq : q ≠ q') (r : Request) : (s.setReq q' r).view q = s.view q := by
  unfold Transport.view Transport.setReq
  simp only [Function.update_of_ne hq]
  rfl

/-- A step that moves no task and frees nothing changes the calls of the request at most.  Most
    lemmas of this section are cases of it. -/
theorem view_quiet (hattached : attachedList s'.pool.log = attachedList s.pool.log)
    (hremoved : removals s'.pool.log = removals s.pool.log) (hmarks : marks s'.trace = marks s.trace)
    (hfreer : ∀ w, freerOf q (s'.running w) = freerOf q (s.running w)) :
    s'.view q = { s.view q with
      req := s'.reqs q
      submit := (s'.pool.calls (.caller q)).submitPhase
      cancel := (s'.pool.calls (.owner q)).cancelPhase } := by
  unfold Transport.view
  simp only [hattached, hremoved, hmarks, hfreer]

/-- A step outside the pool that marks nothing.  It may post, call back or change where another call
    is. -/
theorem view_same (hpool : s'.pool = s.pool) (hreqs : s'.reqs q = s.reqs q) (hbody : s'.body = s.body)
    (hmarks : marks s'.trace = marks s.trace) : s'.view q = s.view q := by
  rw [view_quiet (by rw [hpool]) (by rw [hpool]) hmarks (fun w => ?_), hpool, hreqs]
  · rfl
  · unfold Transport.running
    rw [hpool, hbody]

/-- A worker that goes on inside its task function.  Where it is inside is not seen, except that it
    is about to free the object. -/
theorem view_setBody {w : Nat} {b : Body} (hb : ∀ ret, b ≠ .free ret)
    (hb' : ∀ ret, s.body w ≠ .free ret) : (s.setBody w b).view q = s.view q := by
  have hfreer : (fun w' => freerOf q ((s.setBody w b).running w')) = fun w' => freerOf q (s.running w') := by
    funext w'
    unfold Transport.running freerOf Transport.setBody
    by_cases hw : w' = w
    · subst hw
      simp only [Function.update_self]
      split
      · exact absurd rfl (hb _)
      · split
        · rename_i h
          exact absurd h (hb' _)
        · rfl
    · simp only [Function.update_of_ne hw]
  show { s.view q with freer := fun w' => freerOf q ((s.setBody w b).running w') } = s.view q
  rw [hfreer]
  rfl

/-- The same, after it has posted or called back. -/
theorem view_goesOn {s₁ : Transport} {w : Nat} {b₀ b : Body} (hpool : s₁.pool = s.pool)
    (hreqs : s₁.reqs = s.reqs) (hbody : s₁.body = s.body) (hmarks : marks s₁.trace = marks s.trace)
    (hw : s.body w = b₀) (hb : ∀ ret, b ≠ .free ret) (hb₀ : ∀ ret, b₀ ≠ .free ret) :
    (s₁.setBody w b).view q = s.view q := by
  have hw₁ : s₁.body w = b₀ := by rw [hbody, hw]
  rw [view_setBody hb (by rw [hw₁]; exact hb₀)]
  exact view_same hpool (by rw [hreqs]) hbody hmarks

/-- A quiet step of the pool, seen through a request.  Tasks stay where they are, and only the two
    calls about the request can have moved. -/
theorem view_setPool (hq : PoolSys.Quiet s.pool pool) :
    (s.setPool pool).view q = { s.view q with
      submit := (pool.calls (.caller q)).submitPhase
      cancel := (pool.calls (.owner q)).cancelPhase } := by
  refine view_quiet (by rw [← hq.log]; rfl) (by rw [← hq.log]; rfl) rfl fun w => ?_
  unfold Transport.running freerOf
  rw [show (s.setPool pool).pool.workers w = pool.workers w from rfl, hq.exec w]
  rfl

theorem view_setPool_of_ne {pa : PoolAction Proc ArgPtr} (hq : PoolSys.Quiet s.pool pool)
    (hpool : s.pool.step pa = some pool) (hc : pa.proc ≠ some (.caller q))
    (ho : pa.proc ≠ some (.owner q)) : (s.setPool pool).view q = s.view q := by
  rw [view_setPool hq, PoolSys.step_calls_of_ne hpool hc, PoolSys.step_calls_of_ne hpool ho]
  rfl

/-- A step of its caller in the pool is seen in how far the submission is.  The owner's call is
    another process. -/
theorem view_setPool_caller {pa : PoolAction Proc ArgPtr} (hq : PoolSys.Quiet s.pool pool)
    (hpool : s.pool.step pa = some pool) (hc : pa.proc = some (.caller q)) :
    (s.setPool pool).view q =
      { s.view q with submit := (pool.calls (.caller q)).submitPhase } := by
  have hother : pool.calls (.owner q) = s.pool.calls (.owner q) :=
    PoolSys.step_calls_of_ne hpool (by simp [hc])
  rw [view_setPool hq, hother]
  rfl

/-- A step of its owner in the pool is seen in how far the cancel is.  Likewise, the caller's is
    another. -/
theorem view_setPool_owner {pa : PoolAction Proc ArgPtr} (hq : PoolSys.Quiet s.pool pool)
    (hpool : s.pool.step pa = some pool) (ho : pa.proc = some (.owner q)) :
    (s.setPool pool).view q =
      { s.view q with cancel := (pool.calls (.owner q)).cancelPhase } := by
  have hother : pool.calls (.caller q) = s.pool.calls (.caller q) :=
    PoolSys.step_calls_of_ne hpool (by simp [ho])
  rw [view_setPool hq, hother]
  rfl

/-- A worker's step whose events move no task. -/
theorem view_passive {events : List (PoolEvent Proc ArgPtr)} {w : Nat}
    {x : WorkerThread ArgPtr × Body} (hlog : s'.pool.log = s.pool.log ++ events)
    (hev : ∀ e ∈ events, e.passive = true) (hreqs : s'.reqs = s.reqs)
    (hcalls : s'.pool.calls = s.pool.calls) (htrace : s'.trace = s.trace)
    (hrun : s'.running = Function.update s.running w x)
    (hfreer : freerOf q x = freerOf q (s.running w)) : s'.view q = s.view q := by
  obtain ⟨hattached, hremoved⟩ := log_passive hev
  have hview := view_quiet (s := s) (q := q)
    (by rw [hlog, attachedList_append, hattached, List.append_nil])
    (by rw [hlog, removals_append, hremoved, List.append_nil]) (by rw [htrace]) (fun w' => by
      rw [hrun]
      by_cases hw : w' = w
      · subst hw
        rw [Function.update_self, hfreer]
      · rw [Function.update_of_ne hw])
  rw [hview, hreqs, hcalls]
  rfl

/-- A caller queues the nodes of its request, as a batch.  For the request they are its tasks,
    attached; for any other request nothing has happened. -/
theorem view_attach {sub : Submission ArgPtr} {w : Nat} {nodes : List (TaskNode ArgPtr)}
    (hbatch : sub.single = false) (hnodes : ∀ t ∈ nodes, t.ptr.sync = q') :
    (s.setPool (((s.pool.setWorker w (attachNodesToWorker (s.pool.workers w) nodes)).record
        (nodes.map (.attached (.caller q') w))).setCall (.caller q') (.recording sub w nodes))).view q
      = if q = q' then { s.view q with
          submit := .attached sub
          attached := (s.view q).attached ++ nodes.map TaskNode.ptr }
        else s.view q := by
  set s' := s.setPool (((s.pool.setWorker w (attachNodesToWorker (s.pool.workers w) nodes)).record
        (nodes.map (.attached (.caller q') w))).setCall (.caller q') (.recording sub w nodes)) with hs'
  have hremoved : removals s'.pool.log = removals s.pool.log := by
    show removals (s.pool.log ++ _) = _
    rw [removals_append, removals_attached, List.append_nil]
  have hattached : attachedList s'.pool.log = attachedList s.pool.log ++ nodes.map TaskNode.ptr := by
    show attachedList (s.pool.log ++ _) = _
    rw [attachedList_append, attachedList_attached]
  have hfilter : ((nodes.map TaskNode.ptr).filter fun p => p.sync == q)
      = if q = q' then nodes.map TaskNode.ptr else [] := by
    split
    · rename_i hq
      refine List.filter_eq_self.mpr fun p hp => ?_
      obtain ⟨t, ht, rfl⟩ := List.mem_map.mp hp
      rw [hnodes t ht, hq, beq_self_eq_true]
    · rename_i hq
      refine List.filter_eq_nil_iff.mpr fun p hp => ?_
      obtain ⟨t, ht, rfl⟩ := List.mem_map.mp hp
      rw [hnodes t ht, beq_iff_eq]
      exact fun h => hq h.symm
  have hfreer : ∀ w', freerOf q (s'.running w') = freerOf q (s.running w') := by
    intro w'
    show freerOf q (Function.update s.pool.workers w _ w', s.body w') = freerOf q (s.running w')
    by_cases hw : w' = w
    · subst hw
      rw [Function.update_self]
      rfl
    · rw [Function.update_of_ne hw]
      rfl
  have hcancel : s'.pool.calls (.owner q) = s.pool.calls (.owner q) :=
    PoolSys.calls_setCall_of_ne (by simp) _
  unfold Transport.view
  rw [hattached, List.filter_append, hfilter, hremoved, hcancel]
  simp only [hfreer]
  split
  · rename_i hq
    subst hq
    have hcall : s'.pool.calls (.caller q) = .recording sub w nodes := PoolSys.calls_setCall_self _
    rw [hcall, submitPhase_recording hbatch]
    rfl
  · rename_i hq
    have hcall : s'.pool.calls (.caller q) = s.pool.calls (.caller q) :=
      PoolSys.calls_setCall_of_ne (by simpa using hq) _
    rw [hcall, List.append_nil]
    rfl

/-- A cancel removes the tasks of an id.  They are counted request by request: an id that is shared
    has tasks of several. -/
theorem view_remove {c : Proc} {w : Nat} {reqId : ReqId}
    (hworkers : pool.workers = Function.update s.pool.workers w
      (cancelInWorkerQueue (s.pool.workers w) reqId))
    (hlog : pool.log = s.pool.log ++ (cancelledNodes (s.pool.workers w) reqId).map (.cancelled c))
    (hcalls : pool.calls (.caller q) = s.pool.calls (.caller q)) :
    (s.setPool pool).view q = { s.view q with
      cancel := (pool.calls (.owner q)).cancelPhase
      removedByOwner := (s.view q).removedByOwner +
        (if c = .owner q then (cancelledNodes (s.pool.workers w) reqId).length else 0)
      ownRemoved := (s.view q).ownRemoved + (if c = .owner q then
        (cancelledNodes (s.pool.workers w) reqId).countP (fun t => t.ptr.sync == q) else 0)
      removed := (s.view q).removed +
        (cancelledNodes (s.pool.workers w) reqId).countP (fun t => t.ptr.sync == q) } := by
  have hattached : attachedList pool.log = attachedList s.pool.log := by
    rw [hlog, attachedList_append, attachedList_cancelled, List.append_nil]
  have hremoved : removals pool.log = removals s.pool.log ++
      (cancelledNodes (s.pool.workers w) reqId).map fun t => (c, t.ptr) := by
    rw [hlog, removals_append, removals_cancelled]
  have hfreer : ∀ w', freerOf q ((s.setPool pool).running w') = freerOf q (s.running w') := by
    intro w'
    show freerOf q (pool.workers w', s.body w') = freerOf q (s.running w')
    rw [hworkers]
    by_cases hw : w' = w
    · subst hw
      rw [Function.update_self]
      rfl
    · rw [Function.update_of_ne hw]
      rfl
  unfold Transport.view
  simp only [hfreer]
  show RequestView.mk _ (pool.calls (.caller q)).submitPhase _
    ((attachedList pool.log).filter _) ((removals pool.log).countP _) ((removals pool.log).countP _)
    ((removals pool.log).countP _) _ _ _ = _
  rw [hattached, hremoved, hcalls]
  simp only [List.countP_append, List.countP_map, Function.comp_def]
  by_cases hc : c = .owner q
  · subst hc
    simp [Transport.setPool]
  · simp [Transport.setPool, hc]

/-- After its mark a worker frees the object iff it has been told to. -/
theorem free_iff (f : Bool) (taskRet : Int) :
    (∃ ret, (if f then Body.free taskRet else .finish taskRet) = .free ret) ↔ f = true := by
  cases f <;> simp

/-- Who does not free is no freer. -/
theorem freer_eq_false {w : Nat} (hb : ∀ ret, s.body w ≠ .free ret) : (s.view q).freer w = false := by
  show freerOf q (s.running w) = false
  unfold freerOf Transport.running
  split
  · rename_i hf
    exact absurd hf (hb _)
  · rfl

/-- A task of request `q'` runs `mark_task_group_completed`.  One task more has succeeded or failed,
    and the worker may have to free the object. -/
theorem view_mark {w i : Nat} {success taken : Bool} {sync : TaskSync} {b : Body}
    {task : TaskNode ArgPtr} {reqId : ReqId} {userData : BitVec 64}
    (hexec : (s.pool.workers w).exec = .running task reqId userData) (hq : task.ptr.sync = q')
    (hb : ∀ ret, s.body w ≠ .free ret) (hb' : (∃ ret, b = .free ret) ↔ taken = true) :
    (((s.setReq q' { s.reqs q' with sync }).emit [.mark q' i success]).setBody w b).view q
      = if q = q' then { (s.view q).setSync sync with
          succeeded := (s.view q).succeeded + success.toNat
          failed := (s.view q).failed + (!success).toNat
          freer := Function.update (s.view q).freer w taken }
        else s.view q := by
  have hmarks : marks (s.trace ++ [.mark q' i success]) = marks s.trace ++ [(⟨q', i⟩, success)] := by
    rw [marks_append]
    rfl
  have hfreer : ∀ w', freerOf q (s.pool.workers w', Function.update s.body w b w')
      = if q = q' then Function.update (s.view q).freer w taken w' else (s.view q).freer w' := by
    intro w'
    by_cases hw : w' = w
    · subst hw
      rw [Function.update_self, Function.update_self]
      by_cases htaken : taken = true
      · obtain ⟨ret, rfl⟩ := hb'.mpr htaken
        simp only [Transport.view, Transport.running, freerOf, hexec, hq, htaken]
        split
        · rename_i hqq
          simp [hqq]
        · rename_i hqq
          split
          · rename_i hf
            exact absurd hf (hb _)
          · simpa using fun h => hqq h.symm
      · have hne : ∀ ret, b ≠ .free ret := fun ret h => htaken (hb'.mp ⟨ret, h⟩)
        have hleft : freerOf q (s.pool.workers w', b) = false := by
          unfold freerOf
          rw [hexec]
          cases b <;> first | rfl | exact absurd rfl (hne _)
        rw [hleft, freer_eq_false hb, Bool.eq_false_iff.mpr htaken, ite_self]
    · rw [Function.update_of_ne hw, Function.update_of_ne hw]
      simp [Transport.view, Transport.running]
  by_cases hqq : q = q'
  · subst hqq
    simp only [if_true] at hfreer
    rw [if_pos rfl]
    refine RequestView.ext (Function.update_self ..) rfl rfl rfl rfl rfl rfl ?_ ?_ (funext hfreer)
    · show (marks (s.trace ++ _)).countP _ = (s.view q).succeeded + success.toNat
      rw [hmarks, List.countP_append]
      cases success <;> simp [Transport.view]
    · show (marks (s.trace ++ _)).countP _ = (s.view q).failed + (!success).toNat
      rw [hmarks, List.countP_append]
      cases success <;> simp [Transport.view]
  · simp only [if_neg hqq] at hfreer
    have hne : (q' == q) = false := by simpa using fun h => hqq h.symm
    rw [if_neg hqq]
    refine RequestView.ext (Function.update_of_ne hqq ..) rfl rfl rfl rfl rfl rfl ?_ ?_ (funext hfreer)
    · show (marks (s.trace ++ _)).countP _ = (s.view q).succeeded
      rw [hmarks, List.countP_append]
      simp [Transport.view, hne]
    · show (marks (s.trace ++ _)).countP _ = (s.view q).failed
      rw [hmarks, List.countP_append]
      simp [Transport.view, hne]

/-- A worker frees the object of request `q'`.  It was seen as the freer before, and is not
    after. -/
theorem view_workerFree {w : Nat} {taskRet : Int} {task : TaskNode ArgPtr} {reqId : ReqId}
    {userData : BitVec 64} (hexec : (s.pool.workers w).exec = .running task reqId userData)
    (hq : task.ptr.sync = q') (hb : s.body w = .free taskRet) :
    (s.view q').freer w = true ∧
    ((s.setReq q' { s.reqs q' with freed := (s.reqs q').freed + 1 }).setBody w
        (.finish taskRet)).view q
      = if q = q' then { s.view q with
          req := { (s.view q).req with freed := (s.view q).req.freed + 1 }
          freer := Function.update (s.view q).freer w false }
        else s.view q := by
  have hold : ∀ q, (s.view q).freer w = (q' == q) := by
    intro q
    show freerOf q (s.running w) = _
    unfold freerOf Transport.running
    simp only [hexec, hb, hq]
  refine ⟨by rw [hold, beq_self_eq_true], ?_⟩
  have hfreer : ∀ w', freerOf q (s.pool.workers w', Function.update s.body w (.finish taskRet) w')
      = Function.update (s.view q).freer w false w' := by
    intro w'
    by_cases hw : w' = w
    · subst hw
      rw [Function.update_self, Function.update_self]
      unfold freerOf
      simp only [hexec]
    · rw [Function.update_of_ne hw, Function.update_of_ne hw]
      rfl
  show RequestView.mk (Function.update s.reqs q' _ q) _ _ _ _ _ _ _ _
      (fun w' => freerOf q (s.pool.workers w', Function.update s.body w (.finish taskRet) w')) = _
  simp only [hfreer]
  by_cases hqq : q = q'
  · subst hqq
    rw [if_pos rfl, Function.update_self]
    rfl
  · rw [if_neg hqq, Function.update_of_ne hqq]
    have hfalse : (s.view q).freer w = false := by
      rw [hold]
      simpa using fun h => hqq h.symm
    have hsame : Function.update (s.view q).freer w false = (s.view q).freer := by
      rw [← hfalse, Function.update_eq_self]
    rw [hsame]
    rfl

end Frame

/-! ## Every step is a step of each request, or none of its

By cases on `Move`, and for the steps inside the pool by what they do to the worker lists. -/

section Simulation

variable {s s' : Transport} {q q' : Nat} {pool : PoolSys Proc ArgPtr} {r : Request}

/-- A step that edits request `q'`.  The other requests do not see it. -/
theorem view_request (hown : RequestStep q' (s.view q') { s.view q' with req := r }) :
    (s.setReq q' r).view q = s.view q ∨ RequestStep q (s.view q) ((s.setReq q' r).view q) := by
  by_cases hq : q = q'
  · subst hq
    rw [view_setReq_self]
    exact .inr hown
  · exact .inl (view_setReq_of_ne hq r)

/-- A step that edits request `q'`, after something no request sees. -/
theorem view_request_of_same {s₁ : Transport} (hview : ∀ q, s₁.view q = s.view q)
    (hown : RequestStep q' (s.view q') { s.view q' with req := r }) :
    (s₁.setReq q' r).view q = s.view q ∨ RequestStep q (s.view q) ((s₁.setReq q' r).view q) := by
  rw [← hview q]
  refine view_request ?_
  rw [hview]
  exact hown

/-- A step of the caller of `q'` that calls or leaves the pool.  Its own request sees where the call
    is now, and no other request sees anything. -/
theorem view_caller {pa : PoolAction Proc ArgPtr} (hquiet : PoolSys.Quiet s.pool pool)
    (hpool : s.pool.step pa = some pool) (hproc : pa.proc = some (.caller q'))
    (hown : RequestStep q' (s.view q')
      { s.view q' with req := r, submit := (pool.calls (.caller q')).submitPhase }) :
    ((s.setPool pool).setReq q' r).view q = s.view q ∨
      RequestStep q (s.view q) (((s.setPool pool).setReq q' r).view q) := by
  by_cases hq : q = q'
  · subst hq
    rw [view_setReq_self, view_setPool_caller hquiet hpool hproc]
    exact .inr hown
  · rw [view_setReq_of_ne hq]
    exact .inl (view_setPool_of_ne hquiet hpool (by simpa [hproc] using fun h => hq h.symm)
      (by simp [hproc]))

/-- A step of the owner of `q'` that calls or leaves the pool. -/
theorem view_owner {pa : PoolAction Proc ArgPtr} (hquiet : PoolSys.Quiet s.pool pool)
    (hpool : s.pool.step pa = some pool) (hproc : pa.proc = some (.owner q'))
    (hown : RequestStep q' (s.view q')
      { s.view q' with req := r, cancel := (pool.calls (.owner q')).cancelPhase }) :
    ((s.setPool pool).setReq q' r).view q = s.view q ∨
      RequestStep q (s.view q) (((s.setPool pool).setReq q' r).view q) := by
  by_cases hq : q = q'
  · subst hq
    rw [view_setReq_self, view_setPool_owner hquiet hpool hproc]
    exact .inr hown
  · rw [view_setReq_of_ne hq]
    exact .inl (view_setPool_of_ne hquiet hpool (by simp [hproc])
      (by simpa [hproc] using fun h => hq h.symm))

/-- Neither the caller nor the owner of a request.  Wake-ups, and cancels without a handle, are made
    by processes that no request sees. -/
theorem view_other {pa : PoolAction Proc ArgPtr} (hquiet : PoolSys.Quiet s.pool pool)
    (hpool : s.pool.step pa = some pool) (hproc : ∀ q, pa.proc ≠ some (.caller q) ∧ pa.proc ≠ some (.owner q)) :
    (s.setPool pool).view q = s.view q :=
  view_setPool_of_ne hquiet hpool (hproc q).1 (hproc q).2

/-- The nodes a submission queues are its tasks. -/
theorem ptr_of_created {sub : Submission ArgPtr} {tasks : List (ThreadPoolTask ArgPtr)}
    {nodes : List (TaskNode ArgPtr)} (h : List.Forall₂ sub.Created tasks nodes) :
    nodes.map TaskNode.ptr = tasks.map ThreadPoolTask.taskArg := by
  induction h with
  | nil => rfl
  | cons hnode _ ih =>
    obtain ⟨id, rfl⟩ := hnode
    rw [List.map_cons, List.map_cons, ih]
    rfl

/-- The caller's submission goes on.  It gives up, moves towards the queue, queues its tasks, or is
    accepted. -/
theorem view_callerAdvance {alloc : Alloc} (hcarry : s.pool.Carries)
    (hinv : RequestInv q' (s.view q')) (hc : (s.reqs q').caller = .submitting)
    (hpool : s.pool.step (.advance (.caller q') alloc) = some pool) :
    (s.setPool pool).view q = s.view q ∨ RequestStep q (s.view q) ((s.setPool pool).view q) := by
  have hfinish : ∀ {submit}, PoolSys.Quiet s.pool pool →
      (pool.calls (.caller q')).submitPhase = submit →
      RequestStep q' (s.view q') { s.view q' with submit } →
      (s.setPool pool).view q = s.view q ∨ RequestStep q (s.view q) ((s.setPool pool).view q) := by
    rintro submit hquiet rfl hown
    by_cases hq : q = q'
    · subst hq
      rw [view_setPool_caller hquiet hpool rfl]
      exact .inr hown
    · exact .inl (view_setPool_of_ne hquiet hpool (by simpa [PoolAction.proc] using fun h => hq h.symm)
        (by simp [PoolAction.proc]))
  have hnotdone : ∀ res, s.pool.calls (.caller q') ≠ .done res := by
    intro res hres
    simp only [PoolSys.step, PoolSys.advance, hres] at hpool
    cases hpool
  obtain ⟨hp, -, -, -, ⟨-, hph⟩ | ⟨-, hph⟩⟩ := hinv.stage.of_submitting hc
  · rcases hph with hph | hph
    · exact absurd (submitPhase_eq_refused.mp hph) (hnotdone _)
    · rcases PoolSys.advance_pending hpool hph with ⟨hquiet, hph'⟩ | ⟨w, nodes, hcall, rfl⟩
      · exact hfinish hquiet.quiet rfl (.select hc hph hph')
      · have hcreated := hcarry (.caller q')
        rw [hcall] at hcreated
        have hptr := ptr_of_created hcreated.2
        rw [view_attach rfl ?_]
        · split
          · rename_i hq
            subst hq
            rw [hptr]
            exact .inr (.attach hc hph)
          · exact .inl rfl
        · intro t ht
          have hmem : t.ptr ∈ nodes.map TaskNode.ptr := List.mem_map_of_mem ht
          rw [hptr] at hmem
          exact hp.sync_eq hmem
  · rcases hph with ⟨sub, hph⟩ | hph
    · obtain ⟨hquiet, hph'⟩ := PoolSys.advance_attached hpool hph
      exact hfinish hquiet hph' (.record hc hph)
    · obtain ⟨ids, hdone⟩ := submitPhase_eq_accepted.mp hph
      exact absurd hdone (hnotdone _)

/-- The owner's cancel goes on.  It removes tasks in one section and counts them off in the next. -/
theorem view_ownerAdvance {wait : Option WaitRet} (hinv : RequestInv q' (s.view q'))
    (ho : (s.reqs q').owner = .cancelling wait)
    (hpool : s.pool.step (.advance (.owner q') .ok) = some pool) :
    (s.setPool pool).view q = s.view q ∨ RequestStep q (s.view q) ((s.setPool pool).view q) := by
  obtain ⟨-, -, -, hph⟩ := hinv.owned.stage.of_cancelling ho
  have hne : (s.pool.calls (.owner q')).cancelPhase ≠ .other := by
    show (s.view q').cancel ≠ .other
    rcases hph with ⟨hph | hph, -⟩ | hph <;> rw [hph] <;> simp
  have hcaller : pool.calls (.caller q) = s.pool.calls (.caller q) :=
    PoolSys.step_calls_of_ne hpool (by simp [PoolAction.proc])
  rcases PoolSys.advance_cancel hpool hne with
    ⟨reqId, w, hcall, hworkers, hlog, hph'⟩ | ⟨n, hn, hquiet, hn'⟩
  · rw [view_remove hworkers hlog hcaller]
    by_cases hq : q = q'
    · subst hq
      have hlooked : (s.view q).cancel = .looked := by
        show (s.pool.calls (.owner q)).cancelPhase = _
        rw [hcall]
        rfl
      rw [hph', if_pos rfl, if_pos rfl]
      exact .inr (.remove ho hlooked List.countP_le_length)
    · have howner : (Proc.owner q' = Proc.owner q) = False := by
        simpa using fun h => hq h.symm
      have hcalls : pool.calls (.owner q) = s.pool.calls (.owner q) :=
        PoolSys.step_calls_of_ne hpool (by simpa [PoolAction.proc] using fun h => hq h.symm)
      rw [hcalls]
      simp only [howner, if_false, Nat.add_zero]
      exact .inr .removeOther
  · refine .inl ?_
    by_cases hq : q = q'
    · subst hq
      rw [view_setPool_owner hquiet hpool rfl, hn', ← hn]
      rfl
    · exact view_setPool_of_ne hquiet hpool (by simp [PoolAction.proc])
        (by simpa [PoolAction.proc] using fun h => hq h.symm)

/-- A cancel without a handle goes on.  It may remove tasks of any request with the id, and nobody
    adds them to the object: this is how a waiter may be left waiting. -/
theorem view_cancelAdvance {k : Nat} (hroles : Roles s.pool)
    (hpool : s.pool.step (.advance (.cancel k) .ok) = some pool) :
    (s.setPool pool).view q = s.view q ∨ RequestStep q (s.view q) ((s.setPool pool).view q) := by
  have hcalls : ∀ c, c ≠ .cancel k → pool.calls c = s.pool.calls c := fun c hc =>
    PoolSys.step_calls_of_ne hpool (by simpa [PoolAction.proc] using fun h => hc h.symm)
  rcases PoolSys.advance_effect hpool with hquiet | ⟨sub, w, nodes, hcall, -⟩ |
    ⟨reqId, w, pc, hcall, rfl, -⟩
  · exact .inl (view_other hquiet hpool (by simp [PoolAction.proc]))
  · obtain ⟨q₁, hq₁⟩ := hroles.submits (.cancel k) (by rw [hcall]; rfl)
    cases hq₁
  · rw [view_remove (c := .cancel k) rfl rfl (hcalls _ (by simp))]
    rw [hcalls (.owner q) (by simp)]
    simp only [reduceCtorEq, if_false, Nat.add_zero]
    exact .inr .removeOther

/-- A cancel that is called has begun. -/
theorem begun_of_cancel {reqId : ReqId} (hpool : s.pool.step (.cancel (.owner q) reqId) = some pool) :
    (pool.calls (.owner q)).cancelPhase.Begun := by
  obtain ⟨-, hcall | hcall | ⟨w, hcall⟩⟩ := PoolSys.cancel_calls hpool <;> rw [hcall]
  · exact .inr (.inr rfl)
  · exact .inr (.inl rfl)
  · exact .inl rfl

/-- Who has collected his result is in the pool no more. -/
theorem collected_other {c : Proc} (hpool : s.pool.step (.collect c) = some pool) :
    (pool.calls c).submitPhase = .other ∧ (pool.calls c).cancelPhase = .other := by
  rw [(PoolSys.collect_calls hpool).2]
  exact ⟨rfl, rfl⟩

/-- A completed cancel that removed nothing was refused.  A cancel that was let in returns a number,
    be it 0. -/
theorem refused_of_done {res : CallResult} {wait : Option WaitRet} (hinv : RequestInv q (s.view q))
    (ho : (s.reqs q).owner = .cancelling wait) (hdone : s.pool.calls (.owner q) = .done res)
    (hres : ∀ n, res ≠ .removed n) : (s.view q).cancel = .refused := by
  obtain ⟨-, -, -, hph⟩ := hinv.owned.stage.of_cancelling ho
  have hcancel : (s.view q).cancel = (Call.done (α := ArgPtr) res).cancelPhase := by
    rw [← hdone]
    rfl
  rw [hcancel] at hph ⊢
  have hne : (Call.done (α := ArgPtr) res).cancelPhase ≠ .other := by
    rcases hph with ⟨hph | hph, -⟩ | hph <;> rw [hph] <;> simp
  rcases cancelPhase_done hne with rfl | ⟨n, rfl⟩
  · rfl
  · exact absurd rfl (hres n)

/-- A completed submission that returned no ids was refused. -/
theorem submit_refused_of_done {res : CallResult} (hinv : RequestInv q (s.view q))
    (hc : (s.reqs q).caller = .submitting) (hdone : s.pool.calls (.caller q) = .done res)
    (hres : ∀ ids, res ≠ .taskIds ids) : (s.view q).submit = .refused := by
  obtain ⟨-, -, -, -, hph⟩ := hinv.stage.of_submitting hc
  have hsubmit : (s.view q).submit = (Call.done (α := ArgPtr) res).submitPhase := by
    rw [← hdone]
    rfl
  rw [hsubmit] at hph ⊢
  have hne : (Call.done (α := ArgPtr) res).submitPhase ≠ .other := by
    rcases hph with ⟨-, hph | hph⟩ | ⟨-, ⟨_, hph⟩ | hph⟩ <;> rw [hph] <;> simp
  rcases submitPhase_done hne with rfl | ⟨ids, rfl⟩
  · rfl
  · exact absurd rfl (hres ids)

/-- One iteration of a worker's loop is no step of a request.  A task that is taken goes from the
    queue to the worker, and the view does not tell these apart. -/
theorem view_pop {w : Nat} (hpool : s.pool.step (.pop w) = some pool) :
    ((s.setPool pool).setBody w .start).view q = s.view q := by
  obtain ⟨hexec, -, hcases⟩ := pop_cases hpool
  have hidle : ∀ b, freerOf q (s.running w) = freerOf q ((s.pool.workers w), b) := by
    intro b
    unfold freerOf Transport.running
    simp only [hexec]
  have hstart : ∀ wk : WorkerThread ArgPtr, freerOf q (wk, .start) = freerOf q (s.running w) := by
    intro wk
    rw [hidle .start]
    unfold freerOf
    simp only [hexec]
    cases wk.exec <;> rfl
  rcases hcases with ⟨hpend, rfl⟩ | ⟨p, pending, task, queue, hpend, hpop, rfl⟩ |
    ⟨p, pending, hpend, hpop, rfl⟩
  · exact view_passive (List.append_nil _).symm (by simp) rfl rfl rfl (running_update rfl rfl)
      (hstart _)
  · exact view_passive rfl (by simp [PoolEvent.passive]) rfl rfl rfl (running_update rfl rfl)
      (hstart _)
  · exact view_passive rfl (by simp [PoolEvent.passive]) rfl rfl rfl (running_update rfl rfl)
      (hstart _)

/-- A task function that returns is no step of a request. -/
theorem view_finish {w : Nat} {ret taskRet : Int} (hbody : s.body w = .finish taskRet)
    (hpool : s.pool.step (.finish w ret) = some pool) : (s.setPool pool).view q = s.view q := by
  simp only [PoolSys.step, PoolSys.finish] at hpool
  split at hpool
  · rename_i task reqId userData hexec
    cases hpool
    refine view_passive rfl (PoolSys.passive_finishEvents w task ret) rfl rfl rfl
      (running_setPool rfl) ?_
    unfold freerOf Transport.running
    simp only [hbody, hexec]
  · cases hpool

/-- Nor is the count-down of a context. -/
theorem view_account {w : Nat} (hpool : s.pool.step (.account w) = some pool) :
    (s.setPool pool).view q = s.view q := by
  simp only [PoolSys.step, PoolSys.account] at hpool
  split at hpool
  · rename_i task reqId ret hexec
    cases hpool
    refine view_passive rfl (passive_batchCb _) rfl rfl rfl (running_setPool rfl) ?_
    unfold freerOf Transport.running
    simp only [hexec]
  · cases hpool

/-- A prefill is no step of a request, whatever it has posted. -/
theorem view_prefill {ctx : UrmaRecvCtx} {recvInfo : UrmaRecvInfo} {statuses : List UrmaStatus}
    {ret : UrmaStatus} {events : List Event}
    (hinit : Transport.urmaRecvCtxInit s.recvCtx recvInfo statuses = (ret, ctx, events)) (q : Nat) :
    Transport.view { s.emit events with recvCtx := ctx } q = s.view q :=
  view_same rfl rfl rfl (marks_emit (prefill_events hinit))

/-- The thread that makes a wake-up neither submits nor cancels, so its sections touch no queue of
    tasks. -/
theorem quiet_wakeAdvance {k : Nat} {alloc : Alloc} (hroles : Roles s.pool)
    (hpool : s.pool.step (.advance (.wake k) alloc) = some pool) : PoolSys.Quiet s.pool pool := by
  have hsub : (s.pool.calls (.wake k)).submits = false := by
    by_contra hne
    obtain ⟨q₁, hq₁⟩ := hroles.submits (.wake k) (by simpa using hne)
    cases hq₁
  have hcan : (s.pool.calls (.wake k)).cancels = false := by
    by_contra hne
    rcases hroles.cancels (.wake k) (by simpa using hne) with ⟨_, h⟩ | ⟨_, h⟩ <;> cases h
  exact PoolSys.advance_quiet hpool hsub hcan

/-- A worker records the status of its task. -/
theorem view_statusStep {w q' : Nat} {st : UrmaStatus} (hbody : s.body w = .status st) :
    let s' := (s.setReq q'
      { s.reqs q' with sync := (s.reqs q').sync.updateUrmaStatus st }).setBody w (.mark st)
    s'.view q = s.view q ∨ RequestStep q (s.view q) (s'.view q) := by
  intro s'
  have hview : s'.view q = (s.setReq q'
      { s.reqs q' with sync := (s.reqs q').sync.updateUrmaStatus st }).view q := by
    refine view_setBody (fun ret => by simp) fun ret => ?_
    show s.body w ≠ _
    rw [hbody]
    simp
  rw [hview]
  have hstep : RequestStep q' (s.view q') ((s.view q').setSync
      ((s.view q').req.sync.updateUrmaStatus st)) := .status
  exact view_request hstep

/-- A worker marks its task. -/
theorem view_markStep {w : Nat} {task : TaskNode ArgPtr} {r : ReqId} {u : BitVec 64} {taskRet : Int}
    {sync : TaskSync} {shouldFree : Bool}
    (hexec : (s.pool.workers w).exec = .running task r u) (hbody : s.body w = .mark taskRet)
    (hsync : (s.reqs task.taskArg.userArg.sync).sync.markTaskGroupCompleted (taskRet == 0)
      = (sync, shouldFree)) :
    let s' := ((s.setReq task.taskArg.userArg.sync
      { s.reqs task.taskArg.userArg.sync with sync }).emit
        [.mark task.taskArg.userArg.sync task.taskArg.userArg.index (taskRet == 0)]).setBody w
          (if shouldFree then .free taskRet else .finish taskRet)
    s'.view q = s.view q ∨ RequestStep q (s.view q) (s'.view q) := by
  intro s'
  have hne : ∀ ret, s.body w ≠ .free ret := fun ret => by rw [hbody]; simp
  have hptr : task.ptr.sync = task.taskArg.userArg.sync := rfl
  rw [view_mark hexec hptr hne (free_iff shouldFree taskRet)]
  split
  · rename_i hq
    rw [← hq] at hsync
    have hstep := RequestStep.mark (q := q) (v := s.view q) (freer_eq_false hne) hsync
    exact .inr hstep
  · exact .inl rfl

/-- A step of the transport is a step of request `q` or leaves it alone. -/
theorem view_move {a : Action} (hcarry : s.pool.Carries) (hroles : Roles s.pool)
    (hinv : ∀ q, RequestInv q (s.view q)) (hm : Move s a s') :
    s'.view q = s.view q ∨ RequestStep q (s.view q) (s'.view q) := by
  cases hm with
  -- the caller
  | refuse ha hc => exact view_request (.refuse hc)
  | submit ha hc hpool =>
    refine view_caller (PoolSys.unchanged_submit hpool).quiet hpool rfl (.submit hc ha.wellFormed ?_)
    rw [(PoolSys.submit_calls hpool).2]
    exact submitPhase_beginSubmission ..
  | callerAdvance hc hpool => exact view_callerAdvance hcarry (hinv _) hc hpool
  | registerSend hc hdone hinfo hpool =>
    refine view_caller (PoolSys.unchanged_collect hpool).quiet hpool rfl ?_
    rw [(collected_other hpool).1]
    exact .register hc (submitPhase_eq_accepted.mpr ⟨_, hdone⟩) (.inl rfl)
  | registerRecv hc hdone hinfo hpool =>
    refine view_caller (PoolSys.unchanged_collect hpool).quiet hpool rfl ?_
    rw [(collected_other hpool).1]
    exact .register hc (submitPhase_eq_accepted.mpr ⟨_, hdone⟩) (.inr rfl)
  | unregistered hc hdone hres hpool =>
    refine view_caller (PoolSys.unchanged_collect hpool).quiet hpool rfl ?_
    rw [(collected_other hpool).1]
    exact .unregistered hc (submit_refused_of_done (hinv _) hc hdone hres)
  | @firstWrite q' _ _ _ s₁ ret hc hinfo hpost =>
    obtain ⟨hp, hr, hb, -, ht⟩ := post_same hpost
    refine view_request_of_same (fun q => view_same hp (by rw [hr]) hb ht) (.post (.inl hc) ?_)
    split
    · exact .inl ⟨_, _, rfl⟩
    · exact .inr ⟨_, rfl⟩
  | prefill hc hinfo hinit hret =>
    exact view_request_of_same (view_prefill hinit) (.post (.inr hc) (.inl ⟨_, _, rfl⟩))
  | prefillFailed hc hinfo hinit hret =>
    exact view_request_of_same (view_prefill hinit) (.post (.inr hc) (.inr ⟨_, rfl⟩))
  | fail hc => exact view_request (.fail hc)
  -- the call on the handle
  | callWait ho =>
    obtain ⟨hh, hc, ho⟩ := ownable_iff.mp ho
    exact view_request (.callWait hh hc ho)
  | callCancel ho hpool =>
    obtain ⟨hh, hc, ho⟩ := ownable_iff.mp ho
    exact view_owner (PoolSys.unchanged_cancel hpool).quiet hpool rfl
      (.callCancel hh hc ho (begun_of_cancel hpool))
  | enter ho hb => exact view_request (.check (.inl ho))
  | woken ho => exact view_request (.check (.inr ho))
  | unbound ho hb => exact view_request (.unbound ho hb)
  | timeout ho => exact view_request (.timeout ho)
  | condError ho => exact view_request (.condError ho)
  | beginCancel ho htask hpool =>
    exact view_owner (PoolSys.unchanged_cancel hpool).quiet hpool rfl
      (.beginCancel ho (begun_of_cancel hpool))
  | ownerAdvance ho hpool => exact view_ownerAdvance (hinv _) ho hpool
  | @counted q' _ _ n _ ho hdone hpool =>
    refine view_owner (PoolSys.unchanged_collect hpool).quiet hpool rfl ?_
    rw [(collected_other hpool).2]
    refine .counted ho ?_
    show (s.pool.calls (.owner q')).cancelPhase = _
    rw [hdone]
    rfl
  | refusedWait ho hdone hres hpool =>
    refine view_owner (PoolSys.unchanged_collect hpool).quiet hpool rfl ?_
    rw [(collected_other hpool).2]
    exact .refusedWait ho (refused_of_done (hinv _) ho hdone hres)
  | refusedCancel ho hdone hres hpool =>
    refine view_owner (PoolSys.unchanged_collect hpool).quiet hpool rfl ?_
    rw [(collected_other hpool).2]
    exact .refusedCancel ho (refused_of_done (hinv _) ho hdone hres)
  | @add q' _ n wait sync shouldFree ho hsync =>
    have hstep := RequestStep.add (q := q') (v := s.view q') ho hsync
    exact view_request hstep
  | addFree ho => exact view_request (.addFree ho)
  | @release q' _ wait sync shouldFree ho hsync =>
    have hstep := RequestStep.release (q := q') (v := s.view q') ho hsync
    exact view_request hstep
  | request ho => exact view_request (.request ho)
  | @recheck q' _ sync _ ho hsync =>
    have ht : sync.totalTasks = (s.view q').req.sync.totalTasks := by
      rw [(TaskSync.freeIfReady_eq hsync).1]
      rfl
    exact view_request (.recheck ho ht)
  | ownerFree ho => exact view_request (.ownerFree ho)
  -- completions, wake-ups and cancels by id: no request sees them, but the task of a cancel
  | ignored hidle hcr hev hout => exact .inl (view_same rfl rfl rfl (marks_emit hev.no_mark))
  | completion hidle hcr hpool hev hout =>
    refine .inl ?_
    rw [← view_other (PoolSys.unchanged_wake hpool).quiet hpool (by simp [PoolAction.proc])]
    exact view_same rfl rfl rfl (marks_emit hev.no_mark)
  | wakeStep hpa hpool =>
    refine .inl ?_
    rcases hpa with rfl | rfl
    · exact view_other (quiet_wakeAdvance hroles hpool) hpool (by simp [PoolAction.proc])
    · exact view_other (PoolSys.unchanged_collect hpool).quiet hpool (by simp [PoolAction.proc])
  | cancelId hpool =>
    exact .inl (view_other (PoolSys.unchanged_cancel hpool).quiet hpool (by simp [PoolAction.proc]))
  | cancelStep hpa hpool =>
    rcases hpa with rfl | rfl
    · exact view_cancelAdvance hroles hpool
    · exact .inl (view_other (PoolSys.unchanged_collect hpool).quiet hpool (by simp [PoolAction.proc]))
  -- workers: only a status, a mark and a release are seen
  | pop hexec hpool => exact .inl (view_pop hpool)
  | @notify w _ _ _ _ _ s₁ st hexec hbody harg hpost =>
    obtain ⟨hp, hr, hb, -, ht⟩ := post_same hpost
    refine .inl (view_goesOn hp hr hb ht hbody (fun ret => ?_) (by simp))
    split <;> simp
  | @write w _ _ _ _ _ s₁ st hexec hbody harg hpost =>
    obtain ⟨hp, hr, hb, -, ht⟩ := post_same hpost
    exact .inl (view_goesOn hp hr hb ht hbody (by simp) (by simp))
  | callback hexec hbody harg hcb =>
    exact .inl (view_goesOn rfl rfl rfl (marks_emit (by simp)) hbody (by simp) (by simp))
  | noCallback hexec hbody harg hcb =>
    exact .inl (view_setBody (fun ret => by simp) (fun ret => by rw [hbody]; simp))
  | status hexec hbody => exact view_statusStep hbody
  | mark hexec hbody hsync => exact view_markStep hexec hbody hsync
  | @workerFree w _ task _ _ _ hexec hbody =>
    have hptr : task.ptr.sync = task.taskArg.userArg.sync := rfl
    obtain ⟨hw, hview⟩ := view_workerFree (q := q) hexec hptr hbody
    rw [hview]
    split
    · rename_i hq
      rw [← hq] at hw
      exact .inr (.workerFree hw)
    · exact .inl rfl
  | finish hexec hbody hpool => exact .inl (view_finish hbody hpool)
  | account hexec hpool => exact .inl (view_account hpool)

end Simulation

/-! ## Every run

The ledger says that the books of every request fit, which is all the machine of
`OsTransport.RequestView` asks. -/

section Runs

variable {workerCount : Nat} {capacity : BitVec 32} {ok : Transport → Action → Prop}
  {s s' : Transport} {Q E : Multiset ArgPtr}

/-- The ledger of one request: every queued task of it is still queued, executing, done or removed.
    It is the ledger of all tasks, filtered by the object they belong to. -/
theorem Ledger.request (h : Ledger s Q E) (q : Nat) :
    Q.countP (·.sync = q) + E.countP (·.sync = q) + (s.view q).succeeded + (s.view q).failed
      + (s.view q).removed = (s.view q).attached.length := by
  have hcount := congrArg (Multiset.countP (·.sync = q)) h.balance
  simp only [Multiset.countP_add, Multiset.coe_countP, List.countP_map] at hcount
  have hmarks : ∀ l : List (ArgPtr × Bool),
      l.countP (fun x => x.1.sync == q && x.2) + l.countP (fun x => x.1.sync == q && !x.2)
        = l.countP ((fun p : ArgPtr => decide (p.sync = q)) ∘ Prod.fst) := by
    intro l
    induction l with
    | nil => rfl
    | cons x l ih =>
      obtain ⟨p, b⟩ := x
      simp only [List.countP_cons, Function.comp_apply, ← ih]
      cases b <;> by_cases hp : p.sync = q <;> simp [hp] <;> omega
  have hremoved : (removals s.pool.log).countP ((fun p : ArgPtr => decide (p.sync = q)) ∘ Prod.snd)
      = (s.view q).removed := rfl
  have hattached : (attachedList s.pool.log).countP (fun p => decide (p.sync = q))
      = (s.view q).attached.length := List.countP_eq_length_filter
  rw [← hmarks, hremoved, hattached] at hcount
  show _ + _ + (marks s.trace).countP _ + (marks s.trace).countP _ + _ = _
  omega

/-- The ledger leaves room for what has ended.  No more tasks have ended than were attached. -/
theorem Ledger.fits (h : Ledger s Q E) (q : Nat) : (s.view q).Fits := by
  have hrequest := h.request q
  unfold RequestView.Fits
  omega

/-- In every run of the transport, each request is on a run of its own. -/
theorem view_reach (h : (transportSystem workerCount capacity).Reach ok s) :
    ∀ q, (requestSystem q).Reach (fun _ _ => True) (s.view q) := by
  refine System.Reach.invariant
    (I := fun s => ∀ q, (requestSystem q).Reach (fun _ _ => True) (s.view q)) ?_ ?_ h
  · rintro s rfl q
    exact .init rfl
  · intro s a s' hr hI ha hs q
    obtain ⟨Q, E, hL⟩ := ledger_reach (.step hr ha hs)
    have hpool := pool_reach hr
    rcases view_move (q := q) (PoolSys.carries_reach hpool) (roles_reach hpool)
      (fun q => requestInv_reach (hI q)) (Transport.move_of_step hs) with heq | hstep
    · rw [heq]
      exact hI q
    · exact .step (hI q) (a := ()) trivial ⟨hstep, hL.fits q⟩

/-- **In every run of the transport each request satisfies its invariant.**  What is proved about
    one request in `OsTransport.RequestView` holds of each of them here. -/
theorem request_inv (h : (transportSystem workerCount capacity).Reach ok s) (q : Nat) :
    RequestInv q (s.view q) :=
  requestInv_reach (view_reach h q)

/-- A step of a run is a step of each request, or nothing at all to it. -/
theorem view_step {a : Action} (hr : (transportSystem workerCount capacity).Reach ok s)
    (hs : s.step a = some s') (q : Nat) :
    s'.view q = s.view q ∨ RequestStep q (s.view q) (s'.view q) := by
  have hpool := pool_reach hr
  exact view_move (PoolSys.carries_reach hpool) (roles_reach hpool) (request_inv hr)
    (Transport.move_of_step hs)

end Runs

end OsTransport
