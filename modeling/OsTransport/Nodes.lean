/-
  What the workers hold.

  Every task in a queue or in execution was built by the submission of the request its argument
  names: it carries that request's id and the match key of its index, and a task in execution
  answers the wake-up it was taken for (`Nodes`).  So a worker's queue can be read request by
  request, although the pool only knows ids.

  `Transport.Built` is proved where a node is attached (`built_of_attaching`) and kept by every step
  because what a call has prepared is not changed any more (`Transport.Built.move`); taking a node
  from a queue needs nothing but that it was there.  `wellFormed_of_made` gives the facts about the
  prepared tasks of a request that later modules start from.

  The second half is for the modules whose results are about a request with an id of its own
  (`OwnsId`): runs with a single request meet that condition, and short runs of one chunk are
  evaluated.
-/
import OsTransport.Lifecycle

namespace OsTransport

open Transition

/-- `t` was built for a task of the request it names. -/
def Transport.Built (s : Transport) (t : TaskNode ArgPtr) : Prop :=
  ∃ src ∈ (s.reqs t.ptr.sync).prep.tasks, ∃ taskId,
    t = createBatchNode taskId (s.reqs t.ptr.sync).prep.requestId none src

structure Nodes (s : Transport) : Prop where
  fresh : ∀ q, (s.reqs q).caller = .fresh → (s.reqs q).prep.tasks = []
  queued : ∀ w, ∀ t ∈ (s.pool.workers w).queue, s.Built t
  running : ∀ w t r u, (s.pool.workers w).exec = .running t r u →
    s.Built t ∧ answersWakeUp r u t = true

section Nodes

variable {s s' : Transport} {t : TaskNode ArgPtr}

theorem Transport.Built.requestId (h : s.Built t) :
    t.requestId = (s.reqs t.ptr.sync).prep.requestId := by
  obtain ⟨src, -, id, heq⟩ := h
  exact congrArg ThreadPoolTask.requestId heq

/-- Only a made request has tasks. -/
theorem Transport.Built.made (h : s.Built t) : (s.reqs t.ptr.sync).prep.tasks ≠ [] := by
  obtain ⟨src, hsrc, -⟩ := h
  exact List.ne_nil_of_mem hsrc

theorem Prepared.WellFormed.submission_requestId {q : Nat} {p : Prepared} (h : p.WellFormed q) :
    p.submission.requestId = p.requestId := by
  have hpos : 0 < p.tasks.length := by
    rw [h.tasks_length]
    exact h.chunks_pos
  unfold Submission.requestId Prepared.submission
  cases ht : p.tasks with
  | nil => rw [ht] at hpos; cases hpos
  | cons t ts => exact h.requestId_eq t (by rw [ht]; exact List.mem_cons_self)

/-- What a submission is about to queue was built for its tasks. -/
theorem built_of_attaching {c : Proc} {sub : Submission ArgPtr} {w : Nat}
    {nodes : List (TaskNode ArgPtr)} (hcarry : s.pool.Carries) (hroles : Roles s.pool)
    (hinv : ∀ q, RequestInv q (s.view q)) (hcall : s.pool.calls c = .attaching sub w nodes) :
    ∃ q, c = .caller q ∧ (s.reqs q).caller = .submitting ∧ (s.reqs q).prep.WellFormed q ∧
      sub = (s.reqs q).prep.submission ∧ (s.view q).attached = [] ∧
      ∀ t ∈ nodes, t.ptr.sync = q ∧ s.Built t := by
  obtain ⟨q, rfl⟩ := hroles.submits c (by rw [hcall]; rfl)
  have hphase : (s.view q).submit = .pending sub := by
    show (s.pool.calls (.caller q)).submitPhase = _
    rw [hcall]
    rfl
  obtain ⟨hc, hp, rfl, ha⟩ := (hinv q).stage.of_pending (hinv q).silent hphase
  have hcreated := hcarry (.caller q)
  rw [hcall] at hcreated
  refine ⟨q, rfl, hc, hp, rfl, ha, fun t ht => ?_⟩
  obtain ⟨src, hsrc, taskId, rfl⟩ := created_of_mem hcreated.2 ht
  have hsync : src.taskArg.sync = q := hp.sync_eq (List.mem_map_of_mem hsrc)
  refine ⟨hsync, ?_⟩
  show ∃ x ∈ (s.reqs src.taskArg.sync).prep.tasks, ∃ id, _ = createBatchNode id
    (s.reqs src.taskArg.sync).prep.requestId none x
  rw [hsync]
  refine ⟨src, hsrc, taskId, ?_⟩
  rw [hp.submission_requestId]
  rfl

/-- The tasks of a made request stay what they are. -/
theorem prep_step {workerCount : Nat} {capacity : BitVec 32} {ok : Transport → Action → Prop}
    {a : Action} (hr : (transportSystem workerCount capacity).Reach ok s)
    (hs : s.step a = some s') (q : Nat) :
    ((s'.reqs q).prep = (s.reqs q).prep ∧
      ((s'.reqs q).caller = .fresh → (s.reqs q).caller = .fresh)) ∨
    ((s.reqs q).caller = .fresh ∧ (s'.reqs q).caller = .submitting) := by
  rcases view_step hr hs q with heq | hstep
  · have hreq : s'.reqs q = s.reqs q := congrArg RequestView.req heq
    rw [hreq]
    exact .inl ⟨rfl, id⟩
  · exact hstep.prep

theorem Transport.Built.move (h : s.Built t) (hn : Nodes s)
    (hprep : ∀ q, ((s'.reqs q).prep = (s.reqs q).prep ∧
      ((s'.reqs q).caller = .fresh → (s.reqs q).caller = .fresh)) ∨
      ((s.reqs q).caller = .fresh ∧ (s'.reqs q).caller = .submitting)) : s'.Built t := by
  rcases hprep t.ptr.sync with ⟨heq, -⟩ | ⟨hfresh, -⟩
  · obtain ⟨src, hsrc, id, ht⟩ := h
    exact ⟨src, by rwa [heq], id, by rwa [heq]⟩
  · exact absurd (hn.fresh _ hfresh) h.made

theorem Nodes.step {workerCount : Nat} {capacity : BitVec 32} {ok : Transport → Action → Prop}
    {a : Action} (h : Nodes s) (hr : (transportSystem workerCount capacity).Reach ok s)
    (hs : s.step a = some s') : Nodes s' := by
  have hprep := prep_step hr hs
  have hm := Transport.move_of_step hs
  have hpool := pool_reach hr
  refine ⟨fun q hfresh => ?_, fun w t ht => ?_, fun w t r u hexec => ?_⟩
  · rcases hprep q with ⟨heq, hback⟩ | ⟨-, hsub⟩
    · rw [heq]
      exact h.fresh q (hback hfresh)
    · rw [hfresh] at hsub
      cases hsub
  · rcases hm.pool with hsame | ⟨pa, -, hpa⟩
    · rw [hsame] at ht
      exact (h.queued w t ht).move h hprep
    · rcases PoolSys.queue_effect hpa ht with hold | ⟨c, al, sub, nodes, -, hcall, hmem⟩
      · exact (h.queued w t hold).move h hprep
      · obtain ⟨q, -, -, -, -, -, hbuilt⟩ :=
          built_of_attaching (PoolSys.carries_reach hpool) (roles_reach hpool) (request_inv hr) hcall
        exact (hbuilt t hmem).2.move h hprep
  · rcases hm.pool with hsame | ⟨pa, -, hpa⟩
    · rw [hsame] at hexec
      obtain ⟨hbuilt, hanswer⟩ := h.running w t r u hexec
      exact ⟨hbuilt.move h hprep, hanswer⟩
    · rcases PoolSys.exec_effect hpa hexec with hold | ⟨-, hmem, hanswer⟩
      · obtain ⟨hbuilt, hanswer⟩ := h.running w t r u hold
        exact ⟨hbuilt.move h hprep, hanswer⟩
      · exact ⟨(h.queued w t hmem).move h hprep, hanswer⟩

/-- In every run the workers hold what was built for the requests. -/
theorem nodes_reach {workerCount : Nat} {capacity : BitVec 32} {ok : Transport → Action → Prop}
    (h : (transportSystem workerCount capacity).Reach ok s) : Nodes s := by
  refine h.invariant ?_ ?_
  · rintro s rfl
    exact ⟨fun q _ => rfl, fun w t ht => (by cases ht), fun w t r u hexec => by cases hexec⟩
  · intro s a s' hr hI _ hs
    exact hI.step hr hs

/-- In every run a request with tasks is what a call of the API prepared. -/
theorem made_reach {workerCount : Nat} {capacity : BitVec 32} {ok : Transport → Action → Prop}
    (h : (transportSystem workerCount capacity).Reach ok s) {q : Nat} :
    (s.reqs q).prep.tasks ≠ [] → ∃ a alloc, ApiCall a q (some (s.reqs q).prep) alloc := by
  refine System.Reach.invariant (I := fun s => (s.reqs q).prep.tasks ≠ [] →
    ∃ a alloc, ApiCall a q (some (s.reqs q).prep) alloc) ?_ ?_ h
  · rintro s rfl hne
    exact absurd rfl hne
  · intro s a s' hr hI _ hs hne
    have hm := Transport.move_of_step hs
    rcases prep_step hr hs q with ⟨heq, -⟩ | ⟨hfresh, hsub⟩
    · rw [heq] at hne ⊢
      exact hI hne
    · -- only a call of the API makes a request
      have hcall : ∀ prep alloc, ApiCall a q prep alloc →
          ∃ a alloc, ApiCall a q (some (s'.reqs q).prep) alloc := by
        intro prep alloc ha
        obtain ⟨-, hbegin⟩ := Transport.begin_of_step ha hs
        cases prep with
        | none =>
          cases hbegin
          simp only [Transport.setReq, Function.update_self] at hsub
          cases hsub
        | some p =>
          obtain ⟨pool, -, rfl⟩ := Option.map_eq_some_iff.mp hbegin
          refine ⟨a, alloc, ?_⟩
          simp only [Transport.setReq, Function.update_self]
          exact ha
      by_cases hmade : a.madeBy = some q
      · cases a with
        | callSend q' call mem alloc =>
          obtain rfl : q' = q := Option.some.inj hmade
          exact hcall _ _ (.send ..)
        | callRecv q' call mem alloc =>
          obtain rfl : q' = q := Option.some.inj hmade
          exact hcall _ _ (.recv ..)
        | caller q' alloc statuses =>
          obtain rfl : q' = q := Option.some.inj hmade
          have hstep : s.callerStep q' alloc statuses = some s' := hs
          simp only [Transport.callerStep, hfresh] at hstep
          cases hstep
        | _ => cases hmade
      · have hframe := congrArg (fun x => x.2.1) (hm.frame hmade)
        exact absurd (hsub.symm.trans (hframe.trans hfresh)) (by simp)

/-- In every run a request with tasks is well formed. -/
theorem wellFormed_of_made {workerCount : Nat} {capacity : BitVec 32}
    {ok : Transport → Action → Prop} (h : (transportSystem workerCount capacity).Reach ok s)
    {q : Nat} (hmade : (s.reqs q).prep.tasks ≠ []) : (s.reqs q).prep.WellFormed q := by
  obtain ⟨a, alloc, hcall⟩ := made_reach h hmade
  exact hcall.wellFormed

end Nodes

/-! ## Runs with one request

A run in which a single request is made: its id is its own. -/

/-- `r` is the id of request `q` and of no other. -/
def Transport.OwnsId (s : Transport) (q : Nat) (r : ReqId) : Prop :=
  ∀ q', (s.reqs q').prep.tasks ≠ [] → ((s.reqs q').prep.requestId = r ↔ q' = q)

section Single

variable {s s' : Transport} {workerCount : Nat} {capacity : BitVec 32} {q : Nat}

/-- An id that is not shared now has not been shared before. -/
theorem OwnsId.back {ok : Transport → Action → Prop} {a : Action} {r : ReqId}
    (hr : (transportSystem workerCount capacity).Reach ok s) (hs : s.step a = some s')
    (h : s'.OwnsId q r) : s.OwnsId q r := by
  intro q' hmade
  rcases prep_step hr hs q' with ⟨heq, -⟩ | ⟨hfresh, -⟩
  · have hid := h q'
    rw [heq] at hid
    exact hid hmade
  · exact absurd ((nodes_reach hr).fresh q' hfresh) hmade

/-- Only request `q` is ever made. -/
def SingleRequest (q : Nat) (_ : Transport) : Action → Prop
  | .callSend q' _ _ _ => q' = q
  | .callRecv q' _ _ _ => q' = q
  | _ => True

/-- A request nobody makes has no caller. -/
theorem fresh_of_unmade {ok : Transport → Action → Prop} {q' : Nat}
    (hok : ∀ s a, ok s a → (∀ call mem alloc, a ≠ .callSend q' call mem alloc) ∧
      ∀ call mem alloc, a ≠ .callRecv q' call mem alloc)
    (h : (transportSystem workerCount capacity).Reach ok s) : (s.reqs q').caller = .fresh := by
  refine System.Reach.invariant (I := fun s => (s.reqs q').caller = .fresh) ?_ ?_ h
  · rintro s rfl
    rfl
  · intro s a s' _ hI ha hs
    have hmade : a.madeBy ≠ some q' := by
      cases a with
      | callSend =>
        rintro hm
        cases hm
        exact (hok _ _ ha).1 _ _ _ rfl
      | callRecv =>
        rintro hm
        cases hm
        exact (hok _ _ ha).2 _ _ _ rfl
      | caller q'' =>
        rintro hm
        obtain rfl : q'' = q' := Option.some.inj hm
        have hstep : s.callerStep q'' _ _ = some s' := hs
        simp only [Transport.callerStep, hI] at hstep
        cases hstep
      | _ => exact fun hm => by cases hm
    have hframe := (Transport.move_of_step hs).frame hmade
    exact (congrArg (fun x => x.2.1) hframe).trans hI

/-- In such a run no other request has a caller. -/
theorem fresh_of_single (h : (transportSystem workerCount capacity).Reach (SingleRequest q) s)
    {q' : Nat} (hq : q' ≠ q) : (s.reqs q').caller = .fresh := by
  refine fresh_of_unmade (fun s a ha => ⟨?_, ?_⟩) h
  · rintro call mem alloc rfl
    exact hq ha
  · rintro call mem alloc rfl
    exact hq ha

/-- In such a run the id of the request is its own. -/
theorem ownsId_of_single (h : (transportSystem workerCount capacity).Reach (SingleRequest q) s) :
    s.OwnsId q (s.reqs q).prep.requestId := by
  intro q' hmade
  refine ⟨fun _ => ?_, fun hq => by rw [hq]⟩
  by_contra hne
  exact hmade ((nodes_reach h).fresh q' (fresh_of_single h hne))

end Single

/-! ### One chunk

Concrete calls and steps, from which runs are put together. -/

/-- A run of the transport may be evaluated. -/
theorem transportSystem_exec (workerCount : Nat) (capacity : BitVec 32)
    (okb : Transport → Action → Bool) {ok : Transport → Action → Prop}
    (hok : ∀ s a, okb s a = true → ok s a) (as : List Action) (P : Transport → Bool)
    (h : (exec okb Transport.step (Transport.start workerCount capacity) as).any P = true) :
    ∃ s, (transportSystem workerCount capacity).Reach ok s ∧ P s = true :=
  System.Reach.of_exec (· = Transport.start workerCount capacity) okb hok rfl as P h

theorem transportSystem_run (workerCount : Nat) (capacity : BitVec 32) (as : List Action)
    (P : Transport → Bool)
    (h : (exec (fun _ _ => true) Transport.step (Transport.start workerCount capacity) as).any P
      = true) :
    ∃ s, (transportSystem workerCount capacity).Reach (fun _ _ => True) s ∧ P s = true :=
  transportSystem_exec workerCount capacity (fun _ _ => true) (fun _ _ _ => trivial) as P h

/-- A receive of one chunk, with the client key 7. -/
def oneChunk : RecvCall where
  handle := true
  hostSrc := some ⟨0#64, some 1⟩
  deviceDst := some ⟨none, some 2, 64#64⟩
  len := 16#32
  clientKey := 7#64
  retSyncHandle := true
  notifyCallback := some 0

/-- The completion of its chunk. -/
def oneChunkCr : UrmaCr :=
  ⟨0, true, urmaCrOpcSendWithImm, 0#64,
    (⟨(encodeRequestId 7#64).setWidth 60, ChunkType.lastChunk.bits, 0#3⟩ : UserData).userCtx⟩

/-- `os_transport_recv` of `oneChunk` as request 0, up to its return. -/
def registerOne : List Action := .callRecv 0 oneChunk true .ok :: List.replicate 6 (.caller 0 .ok [])

/-- The chunk arrives and wakes its task; the task runs and its callback returns `ret`. -/
def executeOne (ret : Int) : List Action :=
  [.completion 0 oneChunkCr urmaSuccess, .wake 0 .ok, .wake 0 .ok] ++
    List.replicate 5 (.worker 0 ret)

/-- `wait_and_free_sync` on request 0, `n` steps of it. -/
def waitOne (n : Nat) : List Action := .callWait 0 false :: List.replicate n (.owner 0 .woken)

/-- `os_transport_send` of two chunks. -/
def twoChunks : SendCall where
  handle := true
  jettyInfo := some ⟨none, some 3, some 4⟩
  localSrc := some ⟨0#64, some 1⟩
  remoteDst := some ⟨64#64, some 2⟩
  len := 2097153#32
  serverKey := 7#64
  clientKey := 9#64
  retSyncHandle := true

/-- The local completion of the write of its first chunk. -/
def firstWriteCr : UrmaCr :=
  ⟨0, false, 0, (⟨7#60, ChunkType.middleChunk.bits, 0#3⟩ : UserData).userCtx, 0#64⟩

/-- The call as request 0, up to its return. -/
def sendTwo : List Action := .callSend 0 twoChunks true .ok :: List.replicate 7 (.caller 0 .ok [])

/-- Only request 0 is made, nobody cancels, and no task fails. -/
def undisturbed (s : Transport) : Action → Bool
  | .callSend q _ _ _ => q == 0
  | .callRecv q _ _ _ => q == 0
  | .callCancel _ _ => false
  | .callCancelId _ _ => false
  | .canceller _ => false
  | .owner q _ => q == 0
  | .worker w _ =>
    match s.body w with
    | .mark ret => ret == 0
    | _ => true
  | _ => true

/-- `oneChunk` is received, waited for and freed. -/
def receivedOne (s : Transport) : Bool :=
  (s.reqs 0).bound && (s.reqs 0).owner == .returned (.waited .ok urmaSuccess) &&
    (s.reqs 0).prep.requestId == 7#64 && (s.reqs 0).freed == 1

end OsTransport
