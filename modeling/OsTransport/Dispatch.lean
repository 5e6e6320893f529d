/-
  Receive completions may arrive in any order, twice, or by mistake.

  The tasks of a receive carry match keys, one expected immediate per chunk, and no two chunks have
  the same key.  A wake-up takes the task whose key it is, if that task is still queued, and
  nothing otherwise.  So the queue of the request is a function of the SET of immediates
  processed so far: the tasks whose key is not among them (`Lane.Dispatches`).  Order, duplicates
  and foreign immediates leave no trace in it, and neither does anything the other requests on
  the worker do.

  1. `dispatches_step` — a step of the lane other than a cancel keeps that; only taking and missing
     touch the queue, and `pop_keyed` says what either does to it.
  2. `dispatches_reach` — so it holds in every run from the moment the tasks are queued.
  3. `Ledger` places a task that left the queue: nobody cancels, so it is executed or has been
     marked, and `Effects` gives the invocations of its callback.

  `dispatch` puts the three together.
-/
import OsTransport.Fifo
import OsTransport.Release

namespace OsTransport

open Transition Total

variable {κ α : Type*}

/-! ## The lane of a receive

The queue is what the set of processed immediates has left of the tasks. -/

/-- Nodes of `r` with a match key each, no two the same.  The keys are the immediates expected for
    the chunks, which differ in the chunk id. -/
structure Keyed (r : ReqId) (nodes : List (TaskNode α)) : Prop where
  requestId : ∀ t ∈ nodes, t.requestId = r
  matched : ∀ t ∈ nodes, t.hasMatchUserCtx = true
  distinct : (nodes.map fun t => t.matchUserCtx).Nodup

/-- The lane of keyed nodes on worker `w₀`: what waits there is what no wake-up has named.  So the
    queue is known from the SET of the wake-ups served, whatever their order. -/
structure Lane.Dispatches (L : Lane κ α) (nodes : List (TaskNode α)) (w₀ : Nat) : Prop where
  home : L.At w₀
  calm : ∀ c, (L.calls c).cancels = false
  queue : L.queue w₀ = nodes.filter fun t => decide (t.matchUserCtx ∉ L.served)

section Lane

variable [DecidableEq κ] {r : ReqId} {L L' : Lane κ α} {l : LaneLabel κ α} {w₀ : Nat}
  {nodes : List (TaskNode α)}

omit [DecidableEq κ] in
/-- Nodes keyed apart are so in any part. -/
theorem Keyed.filter (h : Keyed r nodes) (p : TaskNode α → Bool) : Keyed r (nodes.filter p) where
  requestId t ht := h.requestId t (List.mem_of_mem_filter ht)
  matched t ht := h.matched t (List.mem_of_mem_filter ht)
  distinct := h.distinct.sublist (List.filter_sublist.map _)

omit [DecidableEq κ] in
/-- A wake-up of `r` takes the node with its key. -/
theorem pop_keyed (h : Keyed r nodes) (u : BitVec 64) :
    workerQueuePopByReqAndUserData nodes r u
      = Queue.popFirst (fun t => t.matchUserCtx == u) nodes := by
  apply Queue.popFirst_congr
  intro t ht
  simp [answersWakeUp, h.requestId t ht, h.matched t ht]

omit [DecidableEq κ] in
/-- One more wake-up processed is one more key gone. -/
theorem filter_served (served : List (BitVec 64)) (u : BitVec 64) :
    (nodes.filter fun t => decide (t.matchUserCtx ∉ served ++ [u]))
      = (nodes.filter fun t => decide (t.matchUserCtx ∉ served)).filter
          fun t => t.matchUserCtx != u := by
  rw [List.filter_filter]
  apply List.filter_congr
  intro t _
  by_cases hu : t.matchUserCtx = u <;> simp [hu]

/-- No cancel gets under way while none finds the context. -/
theorem calls_calm_step (h : ∀ c, (L.calls c).cancels = false) (hs : LaneStep r L l L')
    (hcancel : ∀ c, l = .lookCancel c → L.ctx = none) : ∀ c, (L'.calls c).cancels = false := by
  have hset : ∀ {c : κ} {pc : LaneCall}, pc.cancels = false →
      ∀ c', (Function.update L.calls c pc c').cancels = false := fun hpc =>
    (Function.forall_update_iff L.calls fun _ pc => pc.cancels = false).mpr ⟨hpc, fun c _ => h c⟩
  cases hs with
  | submit | giveUp | attach | record | lookWake | pushWake | dropWake => exact hset rfl
  | lookCancel hc hctx =>
    rw [hcancel _ rfl] at hctx
    cases hctx
  | @cancelQueue c _ hc | @uncount c _ hc =>
    have hcalm := h c
    rw [hc] at hcalm
    cases hcalm
  | _ => exact h

/-- Every step of the lane but a cancel keeps what waits. -/
theorem dispatches_step (h : L.Dispatches nodes w₀) (hkey : Keyed r nodes)
    (hs : LaneStep r L l L') (hatt : ∀ c w nodes, l ≠ .attach c w nodes)
    (hcancel : ∀ c, l = .lookCancel c → L.ctx = none) : L'.Dispatches nodes w₀ := by
  refine ⟨at_step h.home hs hatt, calls_calm_step h.calm hs hcancel, ?_⟩
  -- a wake-up is answered by the task that carries its key
  have hpop : ∀ u, workerQueuePopByReqAndUserData (L.queue w₀) r u
      = Queue.popFirst (fun t => t.matchUserCtx == u) (L.queue w₀) := by
    intro u
    rw [h.queue]
    exact pop_keyed (hkey.filter _) u
  cases hs with
  | attach => exact absurd rfl (hatt _ _ _)
  | @cancelQueue c _ hc =>
    have hcalm := h.calm c
    rw [hc] at hcalm
    cases hcalm
  | @take w u us task queue hexec hw hq =>
    obtain rfl := h.home.worker_of_wake hw
    rw [hpop u, h.queue] at hq
    show Function.update L.queue w queue w
      = nodes.filter fun t => decide (t.matchUserCtx ∉ L.served ++ [u])
    rw [Function.update_self, filter_served]
    exact (Queue.popFirst_keyed (hkey.filter _).distinct hq).2
  | @miss w u us hexec hw hq =>
    obtain rfl := h.home.worker_of_wake hw
    rw [hpop u, h.queue] at hq
    show L.queue w = nodes.filter fun t => decide (t.matchUserCtx ∉ L.served ++ [u])
    rw [filter_served, Queue.filter_of_popFirst_none hq]
    exact h.queue
  | _ => exact h.queue

end Lane

/-! ## The tasks of a receive

Their keys are the expected immediates, and differ. -/

/-- The keys of the tasks are the keys of their nodes. -/
theorem matchUserCtx_of_created {sub : Submission α} {tasks : List (ThreadPoolTask α)}
    {nodes : List (TaskNode α)} (h : List.Forall₂ sub.Created tasks nodes) :
    (nodes.map fun t => t.matchUserCtx) = tasks.map fun t => t.matchUserCtx := by
  induction h with
  | nil => rfl
  | cons hnode _ ih =>
    obtain ⟨id, rfl⟩ := hnode
    rw [List.map_cons, List.map_cons, ih]
    rfl

/-- The keys of a receive of `n` chunks. -/
theorem recv_keys (recvInfo : UrmaRecvInfo) (chunks : List ChunkInfo) (q : Nat) :
    ((registerRecvTasks recvInfo chunks q).map fun t => t.matchUserCtx)
      = (List.range chunks.length).map (expectedImm64 recvInfo.requestId chunks.length) := by
  unfold registerRecvTasks
  rw [List.map_map]
  rfl

/-- No two of them are the same. -/
theorem expectedImm64_nodup {r : ReqId} (hr : isRequestIdValid r = true) {n : Nat}
    (hn : n ≤ maxChunkNum) : ((List.range n).map (expectedImm64 r n)).Nodup := by
  apply List.Nodup.map_on _ List.nodup_range
  intro i hi j hj heq
  have hi' := List.mem_range.mp hi
  have hj' := List.mem_range.mp hj
  have hmax : maxChunkNum ≤ 8 := by decide
  exact (expectedImm64_inj hr hr (by omega) (by omega) heq).2

/-- What a receive was made with. -/
structure Receives (q : Nat) (call : RecvCall) (p : Prepared) (cb : Nat) : Prop where
  wellFormed : p.WellFormed q
  requestId : p.requestId = call.clientKey
  callback : call.notifyCallback = some cb
  tasks : ∀ t ∈ p.tasks, t.hasMatchUserCtx = true ∧ ∃ i, i < p.chunks.length ∧
    t.taskArg = ⟨q, i⟩ ∧ t.matchUserCtx = expectedImm64 call.clientKey p.chunks.length i
  keys : (p.tasks.map fun t => t.matchUserCtx)
    = (List.range p.chunks.length).map (expectedImm64 call.clientKey p.chunks.length)
  args : ∀ (i : Nat) (arg : TaskArg), p.args[i]? = some arg →
    ∃ recvArg : RecvTaskArg, arg = .recv recvArg ∧ recvArg.notifyCallback = some cb

/-- What a receive prepares: the tasks of its chunks, with its callback. -/
theorem receives {q : Nat} {call : RecvCall} {alloc : Bool} {p : Prepared}
    (h : prepareRecv q true call alloc = some p) : ∃ cb, Receives q call p cb := by
  have hwf := prepareRecv_wellFormed h
  obtain ⟨hvalid, -, hostSrc, deviceDst, chunks, -, -, -, -, rfl⟩ := prepareRecv_eq_some h
  simp only [validateRecvInput, Bool.and_eq_true] at hvalid
  obtain ⟨cb, hcb⟩ := Option.isSome_iff_exists.mp hvalid.1.1.2
  refine ⟨cb, hwf, rfl, hcb, ?_, recv_keys _ chunks q, ?_⟩
  · intro t ht
    obtain ⟨i, hi, rfl⟩ := List.mem_map.mp ht
    exact ⟨rfl, i, List.mem_range.mp hi, rfl, rfl⟩
  · intro i arg harg
    simp only [recvRequest, registerRecvArgs, List.getElem?_map, List.getElem?_mapIdx,
      Option.map_eq_some_iff] at harg
    obtain ⟨recvArg, ⟨chunk, -, rfl⟩, rfl⟩ := harg
    exact ⟨_, rfl, hcb⟩

/-- They are keyed apart, by the ids of their chunks. -/
theorem Receives.keyed {q : Nat} {call : RecvCall} {p : Prepared} {cb : Nat}
    (h : Receives q call p cb) {nodes : List (TaskNode ArgPtr)}
    (hnodes : List.Forall₂ p.submission.Created p.tasks nodes) : Keyed call.clientKey nodes where
  requestId t ht := by
    rw [requestId_of_created hnodes t ht, h.wellFormed.submission_requestId, h.requestId]
  matched t ht := by
    obtain ⟨src, hsrc, taskId, rfl⟩ := created_of_mem hnodes ht
    exact (h.tasks src hsrc).1
  distinct := by
    rw [matchUserCtx_of_created hnodes, h.keys]
    apply expectedImm64_nodup
    · exact h.requestId ▸ h.wellFormed.requestId_valid
    · exact h.wellFormed.chunks_le

/-- A task of the receive is told by its key. -/
theorem Receives.taskArg_iff {q : Nat} {call : RecvCall} {p : Prepared} {cb : Nat}
    (h : Receives q call p cb) {src : ThreadPoolTask ArgPtr} (hsrc : src ∈ p.tasks) {i : Nat}
    (hi : i < p.chunks.length) :
    src.taskArg = ⟨q, i⟩ ↔ src.matchUserCtx = expectedImm64 call.clientKey p.chunks.length i := by
  obtain ⟨-, j, hj, harg, hkey⟩ := h.tasks src hsrc
  rw [harg, hkey]
  constructor
  · rintro heq
    rw [(ArgPtr.mk.inj heq).2]
  · intro heq
    have hle : p.chunks.length ≤ 8 := h.wellFormed.chunks_le.trans (by decide)
    have hvalid := h.requestId ▸ h.wellFormed.requestId_valid
    rw [(expectedImm64_inj hvalid hvalid (by omega) (by omega) heq).2]

/-! ## In every run

From the lane to the transport: a run in which the id is not cancelled. -/

/-- The step is no cancel that finds the context of `r`.  A cancel that finds none does nothing to
    the tasks. -/
def NotCancelled (r : ReqId) (s : Transport) (a : Action) : Prop :=
  ∀ c, Calls s a (.cancel c r) → s.pool.reqHash.find r = none

section Run

variable {workerCount : Nat} {capacity : BitVec 32} {s s' : Transport} {q : Nat} {r : ReqId}
  {call : RecvCall} {cb : Nat}

/-- Until it is cancelled, the queue of a receive holds the tasks no processed wake-up has named. -/
theorem dispatches_reach (h : (transportSystem workerCount capacity).Reach (NotCancelled r) s)
    (hid : s.OwnsId q r) (hrecv : Receives q call (s.reqs q).prep cb) (hr : call.clientKey = r)
    (hb : (s.reqs q).bound = true) :
    ∃ nodes w₀, List.Forall₂ (s.reqs q).prep.submission.Created (s.reqs q).prep.tasks nodes ∧
      (lane r s.pool).Dispatches nodes w₀ := by
  let okLane : Lane Proc ArgPtr → LaneLabel Proc ArgPtr → Prop := fun L l =>
    ∀ c, l = .lookCancel c → L.ctx = none
  let J : Prepared → Lane Proc ArgPtr → Prop := fun p L =>
    ∀ cb, Receives q call p cb → ∃ nodes w₀,
      List.Forall₂ p.submission.Created p.tasks nodes ∧ L.Dispatches nodes w₀
  have hreach := own_lane_reach okLane (J := J) ?_ ?_ ?_ h hid
  · rcases hreach with ⟨ha, -⟩ | ⟨-, hJ⟩
    · exact absurd ha ((request_inv h q).attached_ne_nil hb)
    · exact hJ cb hrecv
  · rintro s a l s' ha ⟨-, ⟨-, hl⟩ | ⟨pa, hpa, -, -, hexp⟩⟩ c rfl
    · cases hl
    · obtain rfl : pa = .cancel c r := hexp
      exact ha c hpa
  · intro a p alloc L w nodes _ _ hL hnodes cb _
    have hserved : (L.attached (.caller q) w nodes).served = [] := hL.served
    refine ⟨nodes, w, hnodes, hL.at_attached _ w nodes, ?_, ?_⟩
    · refine (Function.forall_update_iff _ fun _ pc => LaneCall.cancels pc = false).mpr
        ⟨rfl, fun c' _ => ?_⟩
      rcases hL.calls c' with hc' | hc' <;> rw [hc'] <;> rfl
    · show Function.update L.queue w (L.queue w ++ nodes) w = _
      rw [Function.update_self, hL.queue, hserved]
      simp
  · intro p L l L' hJ hs hatt hl cb hp
    obtain ⟨nodes, w₀, hnodes, hdisp⟩ := hJ cb hp
    exact ⟨nodes, w₀, hnodes, dispatches_step hdisp (hr ▸ hp.keyed hnodes) hs hatt hl⟩

/-- In every run in which nothing of the id is cancelled no call cancels it. -/
theorem calls_calm_reach (h : (transportSystem workerCount capacity).Reach (NotCancelled r) s) :
    ∀ c, ((lane r s.pool).calls c).cancels = false := by
  refine h.invariant (I := fun s => ∀ c, ((lane r s.pool).calls c).cancels = false) ?_ ?_
  · rintro s rfl c
    rfl
  · intro s a s' hr hI ha hs
    rcases (Transport.move_of_step hs).pool with hpool | ⟨pa, hpa, hpool⟩
    · rw [hpool]
      exact hI
    · obtain ⟨l, hl, hexp⟩ := lane_step (r := r) (PoolSys.carries_reach (pool_reach hr)) hpool
      apply calls_calm_step hI hl
      rintro c rfl
      obtain rfl : pa = .cancel c r := hexp
      exact ha c hpa

/-- And nothing of it has been removed. -/
theorem unremoved_reach (h : (transportSystem workerCount capacity).Reach (NotCancelled r) s)
    (hid : s.OwnsId q r) : ∀ c t, .cancelled c t ∈ s.pool.log → t.ptr.sync ≠ q := by
  refine System.Reach.invariant_while (P := fun s => s.OwnsId q r)
    (I := fun s => ∀ c t, .cancelled c t ∈ s.pool.log → t.ptr.sync ≠ q) ?_ ?_ ?_ h hid
  · intro s a s' hr hs hid'
    exact OwnsId.back hr hs hid'
  · rintro s rfl - c t ht
    cases ht
  · intro s a s' hr hid' hI _ hs c t ht
    have hid := OwnsId.back hr hs hid'
    rcases (Transport.move_of_step hs).pool with hpool | ⟨pa, -, hpool⟩
    · rw [hpool] at ht
      exact hI c t ht
    · rcases PoolSys.cancelled_effect hpool ht with hold | ⟨al, reqId, w, -, hcall, hmem, hreq⟩
      · exact hI c t hold
      · -- a cancel of another id removes no task of `q`
        intro hq
        have hbuilt := (nodes_reach hr).queued w t hmem
        obtain rfl : reqId = r := by
          rw [← hreq, hbuilt.requestId]
          exact (hid _ hbuilt.made).mpr hq
        have hcalm := calls_calm_reach hr c
        rw [lane_calls, laneCall_cancelling.mpr hcall] at hcalm
        cases hcalm

/-- What a worker holds of a receive. -/
theorem Receives.built (h : Receives q call (s.reqs q).prep cb) {t : TaskNode ArgPtr}
    (ht : s.Built t) (hq : t.ptr.sync = q) :
    t.requestId = call.clientKey ∧ t.hasMatchUserCtx = true ∧
      t.ptr.index < (s.reqs q).prep.chunks.length ∧
      t.matchUserCtx
        = expectedImm64 call.clientKey (s.reqs q).prep.chunks.length t.ptr.index := by
  obtain ⟨src, hsrc, taskId, heq⟩ := ht
  rw [hq] at hsrc heq
  obtain ⟨hmatch, i, hi, harg, hkey⟩ := h.tasks src hsrc
  have hptr : t.ptr = ⟨q, i⟩ := by
    rw [heq]
    exact harg
  rw [hptr, heq]
  exact ⟨h.requestId, hmatch, hi, hkey⟩

/-- A task of a request is queued. -/
def Transport.Waits (s : Transport) (p : ArgPtr) : Prop :=
  ∃ w, ∃ t ∈ (s.pool.workers w).queue, t.ptr = p

/-- A task waits if its immediate has not been processed. -/
theorem waits_iff (h : (transportSystem workerCount capacity).Reach (NotCancelled r) s)
    (hid : s.OwnsId q r) (hrecv : Receives q call (s.reqs q).prep cb) (hr : call.clientKey = r)
    (hb : (s.reqs q).bound = true) {i : Nat} (hi : i < (s.reqs q).prep.chunks.length) :
    s.Waits ⟨q, i⟩ ↔
      expectedImm64 r (s.reqs q).prep.chunks.length i ∉ servedOf r s.pool.log := by
  obtain ⟨nodes, w₀, hnodes, hdisp⟩ := dispatches_reach h hid hrecv hr hb
  have hqueue : laneQueue r (s.pool.workers w₀).queue
      = nodes.filter fun t => decide (t.matchUserCtx ∉ servedOf r s.pool.log) := hdisp.queue
  constructor
  · rintro ⟨w, t, ht, hptr⟩
    obtain ⟨hreq, -, -, hkey⟩ := hrecv.built ((nodes_reach h).queued w t ht) (by rw [hptr])
    have hlane : t ∈ (lane r s.pool).queue w :=
      List.mem_filter.mpr ⟨ht, beq_iff_eq.mpr (hreq.trans hr)⟩
    obtain rfl : w = w₀ := by
      by_contra hne
      rw [hdisp.home.queue w hne] at hlane
      cases hlane
    rw [hdisp.queue] at hlane
    have hno := of_decide_eq_true (List.mem_filter.mp hlane).2
    rwa [hkey, hptr, hr] at hno
  · intro hno
    have hkey : expectedImm64 r (s.reqs q).prep.chunks.length i ∈ nodes.map fun t => t.matchUserCtx := by
      rw [matchUserCtx_of_created hnodes, hrecv.keys, hr]
      exact List.mem_map_of_mem (List.mem_range.mpr hi)
    obtain ⟨t, ht, heq⟩ := List.mem_map.mp hkey
    have hmem : t ∈ laneQueue r (s.pool.workers w₀).queue := by
      rw [hqueue]
      refine List.mem_filter.mpr ⟨ht, decide_eq_true ?_⟩
      rwa [heq]
    refine ⟨w₀, t, List.mem_of_mem_filter hmem, ?_⟩
    obtain ⟨src, hsrc, taskId, rfl⟩ := created_of_mem hnodes ht
    exact (hrecv.taskArg_iff hsrc hi).mpr (by rw [hr]; exact heq)

end Run

/-! ## Callbacks

What a receive task calls back with, and when. -/

/-- The invocations for one task: the callback, what it was given and what it returned. -/
def callbacksOf (p : ArgPtr) (trace : List Event) : List (Nat × UserData × Int) :=
  trace.filterMap fun
    | .callback q i cb userData ret =>
      if (⟨q, i⟩ : ArgPtr) = p then some (cb, userData, ret) else none
    | _ => none

/-- The callbacks of a task are among its events. -/
theorem callbacksOf_taskEvents (p : ArgPtr) (trace : List Event) :
    callbacksOf p (taskEvents p trace) = callbacksOf p trace := by
  unfold callbacksOf taskEvents
  rw [List.filterMap_filter]
  apply List.filterMap_congr
  intro e _
  cases e with
  | callback q i cb userData ret => by_cases h : (⟨q, i⟩ : ArgPtr) = p <;> simp [Event.task, h]
  | _ => simp

/-- Executing a receive task is calling back, once. -/
theorem TaskRun.of_recv {p : ArgPtr} {userData : BitVec 64} {arg : RecvTaskArg} {cb : Nat}
    {es : List Event} {b : Body} (hcb : arg.notifyCallback = some cb)
    (h : TaskRun p userData (.recv arg) es b) :
    b = .start ∧ es = [] ∨
      ∃ ret, b = .mark ret ∧ es = [.callback p.sync p.index cb (UserData.ofUserCtx userData) ret] := by
  cases h with
  | start => exact .inl ⟨rfl, rfl⟩
  | called hcb' =>
    obtain rfl := Option.some.inj (hcb.symm.trans hcb')
    exact .inr ⟨_, rfl, rfl⟩
  | uncalled hcb' =>
    rw [hcb] at hcb'
    cases hcb'
  | status h =>
    -- a receive task has no URMA status
    cases h

/-- A receive task that has run has called back once. -/
theorem callbacksOf_recv {p : ArgPtr} {trace : List Event} {cb : Nat} {userData : UserData}
    {ret : Int} (h : taskEvents p trace = [.callback p.sync p.index cb userData ret]) :
    callbacksOf p trace = [(cb, userData, ret)] := by
  rw [← callbacksOf_taskEvents, h]
  simp [callbacksOf]

/-- What the callback is told of chunk `i` of `n`: the id, the chunk and whether it is the last. -/
theorem ofUserCtx_expectedImm64 (r : ReqId) (n i : Nat) :
    UserData.ofUserCtx (expectedImm64 r n i) = chunkTag (r.setWidth 60) n i := by
  unfold expectedImm64 makeTransportUserDataRaw64
  rw [UserData.ofUserCtx_userCtx]
  rfl

theorem callbacksOf_append (p : ArgPtr) (trace events : List Event) :
    callbacksOf p (trace ++ events) = callbacksOf p trace ++ callbacksOf p events :=
  List.filterMap_append ..

/-- The last worker step for the `i`-th immediate of receive `q` is past: it has been processed,
    and the task that was taken for it has been executed. -/
def Transport.Processed (s : Transport) (q : Nat) (r : ReqId) (n i : Nat) : Prop :=
  expectedImm64 r n i ∈ servedOf r s.pool.log ∧ ∀ w, ¬ s.Executes w ⟨q, i⟩

section Place

variable {workerCount : Nat} {capacity : BitVec 32} {ok : Transport → Action → Prop}
  {s : Transport} {q i : Nat} {call : RecvCall} {cb : Nat} {Q E : Multiset ArgPtr}

/-- A task that a worker executes has not called back, and will with the next step, or it has. -/
theorem executes_recv (h : (transportSystem workerCount capacity).Reach ok s)
    (hrecv : Receives q call (s.reqs q).prep cb) {w : Nat} (hx : s.Executes w ⟨q, i⟩) :
    i < (s.reqs q).prep.chunks.length ∧
    ((callbacksOf ⟨q, i⟩ s.trace = [] ∧ ∀ ret, ∃ s', s.step (.worker w ret) = some s' ∧
        callbacksOf ⟨q, i⟩ s'.trace = [(cb, chunkTag (call.clientKey.setWidth 60)
          (s.reqs q).prep.chunks.length i, ret)]) ∨
      ∃ ret, callbacksOf ⟨q, i⟩ s.trace = [(cb, chunkTag (call.clientKey.setWidth 60)
        (s.reqs q).prep.chunks.length i, ret)]) := by
  obtain ⟨t, r, u, hexec, hptr, hun⟩ := hx
  obtain ⟨hbuilt, hanswer⟩ := (nodes_reach h).running w t r u hexec
  obtain ⟨-, hmatch, hi, hkey⟩ := hrecv.built hbuilt (by rw [hptr])
  obtain ⟨arg, harg, hrun⟩ := (effects_reach h).running w t r u hexec hun
  rw [hptr] at hi hkey harg hrun
  obtain ⟨recvArg, rfl, hcb⟩ := hrecv.args i arg harg
  obtain rfl : t.matchUserCtx = u := by
    simpa [answersWakeUp, hmatch] using (Bool.and_eq_true_iff.mp hanswer).2
  have htag := ofUserCtx_expectedImm64 call.clientKey (s.reqs q).prep.chunks.length i
  rw [← hkey] at htag
  refine ⟨hi, ?_⟩
  rcases hrun.of_recv hcb with ⟨hbody, hes⟩ | ⟨ret, hbody, hes⟩
  · left
    have hnone : callbacksOf ⟨q, i⟩ s.trace = [] := by
      rw [← callbacksOf_taskEvents, hes]
      rfl
    refine ⟨hnone, fun ret => ⟨(s.emit [.callback q i cb (UserData.ofUserCtx t.matchUserCtx) ret]).setBody
      w (.mark ret), ?_, ?_⟩⟩
    · have hp : t.taskArg.userArg = ⟨q, i⟩ := hptr
      simp only [Transport.step, Transport.workerStep, hexec, Transport.bodyStep, hp, hbody, harg,
        prepareRecvTaskUserData, hcb]
    · show callbacksOf ⟨q, i⟩ (s.trace ++ _) = _
      rw [callbacksOf_append, hnone, htag]
      simp [callbacksOf]
  · exact .inr ⟨ret, by rw [← htag]; exact callbacksOf_recv hes⟩

/-- A task that has ended has called back, and failed if the callback did. -/
theorem marked_recv (h : (transportSystem workerCount capacity).Reach ok s)
    (hrecv : Receives q call (s.reqs q).prep cb) {b : Bool} (hmark : (⟨q, i⟩, b) ∈ marks s.trace) :
    i < (s.reqs q).prep.chunks.length ∧
    ∃ ret, b = (ret == 0) ∧ callbacksOf ⟨q, i⟩ s.trace = [(cb, chunkTag (call.clientKey.setWidth 60)
      (s.reqs q).prep.chunks.length i, ret)] := by
  obtain ⟨arg, u, ret, harg, ⟨src, hsrc, hptr, hwake⟩, hrun, rfl⟩ := (effects_reach h).marked _ b hmark
  obtain ⟨hmatch, j, hj, hptr', hkey⟩ := hrecv.tasks src hsrc
  obtain rfl : i = j := (ArgPtr.mk.inj (hptr.symm.trans hptr')).2
  obtain ⟨recvArg, rfl, hcb⟩ := hrecv.args i arg harg
  refine ⟨hj, ret, rfl, ?_⟩
  rcases hrun.of_recv hcb with ⟨hbody, -⟩ | ⟨ret', hbody, hes⟩
  · cases hbody
  · cases hbody
    rw [← ofUserCtx_expectedImm64, ← hkey, hwake hmatch]
    exact callbacksOf_recv hes

/-- While nothing is removed, a task waits, is executed or has ended. -/
theorem placed_recv (hL : Ledger s Q E) (hinv : RequestInv q (s.view q))
    (hb : (s.reqs q).bound = true) (hi : i < (s.reqs q).prep.tasks.length)
    (hno : ∀ c t, .cancelled c t ∈ s.pool.log → t.ptr.sync ≠ q) :
    s.Waits ⟨q, i⟩ ∨ (∃ w, s.Executes w ⟨q, i⟩) ∨ ∃ b, (⟨q, i⟩, b) ∈ marks s.trace := by
  have hmem : (⟨q, i⟩ : ArgPtr) ∈ (attachedList s.pool.log : Multiset ArgPtr) := by
    rw [Multiset.mem_coe, ← List.count_pos_iff, attached_count hinv hb hi]
    exact Nat.one_pos
  rw [← hL.balance] at hmem
  simp only [Multiset.mem_add, Multiset.mem_coe] at hmem
  rcases hmem with ((hQ | hE) | hmark) | hremoved
  · obtain ⟨w, hw⟩ := hL.queued.exists_mem hQ
    obtain ⟨t, ht, hptr⟩ := List.mem_map.mp (Multiset.mem_coe.mp hw)
    exact .inl ⟨w, t, ht, hptr⟩
  · obtain ⟨w, hw⟩ := hL.executing.exists_mem hE
    refine .inr (.inl ⟨w, ?_⟩)
    unfold executingBag at hw
    split at hw
    · rename_i t r u hexec
      split at hw
      · rename_i hun
        exact ⟨t, r, u, hexec, (Multiset.mem_singleton.mp hw).symm, hun⟩
      · cases hw
    · cases hw
  · obtain ⟨⟨x, b⟩, hb', rfl⟩ := List.mem_map.mp hmark
    exact .inr (.inr ⟨b, hb'⟩)
  · obtain ⟨x, hx, hptr⟩ := List.mem_map.mp hremoved
    obtain ⟨t, ht, htptr⟩ := mem_removals.mp hx
    refine absurd ?_ (hno _ _ ht)
    rw [htptr, hptr]

end Place

/-! ## Exact dispatch

One callback for each chunk whose immediate was processed, with that chunk's data, and nothing else.
-/

/-- What holds of receive `q` of `n` chunks whatever wake-ups have been processed, in whatever
    order.  A chunk is reported once if its immediate was processed, not at all otherwise; with all
    of them reported the request is complete. -/
structure Dispatched (s : Transport) (q : Nat) (call : RecvCall) (cb n : Nat) : Prop where
  /-- A task waits until its own immediate is processed. -/
  waits : ∀ i, i < n → (s.Waits ⟨q, i⟩ ↔
    expectedImm64 call.clientKey n i ∉ servedOf call.clientKey s.pool.log)
  /-- A wake-up with a foreign immediate, or with one processed before, takes no task. -/
  spare : ∀ w p rest ret s', (s.pool.workers w).exec = .loop →
    (s.pool.workers w).pending = p :: rest → p.requestId = call.clientKey →
    (∀ i, i < n → p.userData = expectedImm64 call.clientKey n i →
      p.userData ∈ servedOf call.clientKey s.pool.log) →
    s.step (.worker w ret) = some s' →
    (s'.pool.workers w).queue = (s.pool.workers w).queue ∧ (s'.pool.workers w).exec = .loop
  /-- The callback is not invoked for a chunk whose immediate has not been processed. -/
  never : ∀ i, (i < n → expectedImm64 call.clientKey n i ∉ servedOf call.clientKey s.pool.log) →
    callbacksOf ⟨q, i⟩ s.trace = []
  /-- A worker that has taken the task is about to invoke it, or has invoked it once. -/
  underway : ∀ w i, s.Executes w ⟨q, i⟩ →
    (callbacksOf ⟨q, i⟩ s.trace = [] ∧ ∀ ret, ∃ s', s.step (.worker w ret) = some s' ∧
      callbacksOf ⟨q, i⟩ s'.trace = [(cb, chunkTag (call.clientKey.setWidth 60) n i, ret)]) ∨
    ∃ ret, callbacksOf ⟨q, i⟩ s.trace = [(cb, chunkTag (call.clientKey.setWidth 60) n i, ret)]
  /-- It is invoked exactly once for each chunk whose immediate has been. -/
  once : ∀ i, i < n → s.Processed q call.clientKey n i →
    ∃ ret, callbacksOf ⟨q, i⟩ s.trace = [(cb, chunkTag (call.clientKey.setWidth 60) n i, ret)]
  /-- After all of them the request is completed, and says whether all callbacks succeeded. -/
  completed : (∀ i, i < n → s.Processed q call.clientKey n i) →
    (s.reqs q).sync.requestCompleted = true ∧
    ((s.reqs q).sync.completedTasks = n ↔ ∀ i, i < n →
      callbacksOf ⟨q, i⟩ s.trace = [(cb, chunkTag (call.clientKey.setWidth 60) n i, 0)])

section Main

variable {workerCount : Nat} {capacity : BitVec 32} {s : Transport} {q : Nat} {call : RecvCall}
  {cb : Nat}

/-- A wake-up of the receive that names no waiting task finds none. -/
theorem spare_wakeUp
    (h : (transportSystem workerCount capacity).Reach (NotCancelled call.clientKey) s)
    (hid : s.OwnsId q call.clientKey) (hrecv : Receives q call (s.reqs q).prep cb)
    (hb : (s.reqs q).bound = true) {w : Nat} {p : PendingReqNode} {rest : List PendingReqNode}
    {ret : Int} {s' : Transport} (hexec : (s.pool.workers w).exec = .loop)
    (hpending : (s.pool.workers w).pending = p :: rest) (hp : p.requestId = call.clientKey)
    (hspare : ∀ i, i < (s.reqs q).prep.chunks.length →
      p.userData = expectedImm64 call.clientKey (s.reqs q).prep.chunks.length i →
      p.userData ∈ servedOf call.clientKey s.pool.log)
    (hs : s.step (.worker w ret) = some s') :
    (s'.pool.workers w).queue = (s.pool.workers w).queue ∧ (s'.pool.workers w).exec = .loop := by
  simp only [Transport.step, Transport.workerStep, hexec] at hs
  obtain ⟨pool, hpool, rfl⟩ := Option.map_eq_some_iff.mp hs
  show (pool.workers w).queue = _ ∧ (pool.workers w).exec = .loop
  obtain ⟨-, -, ⟨hnil, -⟩ | ⟨p', rest', task, queue, hcons, hpop, -⟩ | ⟨p', rest', -, -, rfl⟩⟩ :=
    pop_cases hpool
  · rw [hpending] at hnil
    cases hnil
  · rw [hpending] at hcons
    obtain ⟨rfl, rfl⟩ := List.cons.inj hcons
    -- the task it would take waits for this very immediate
    obtain ⟨hmem, hanswer⟩ := Queue.popFirst_mem hpop
    have hbuilt := (nodes_reach h).queued w task hmem
    have hreq : task.requestId = call.clientKey := (answersWakeUp_requestId hanswer).trans hp
    have hq : task.ptr.sync = q := (hid _ hbuilt.made).mp (hbuilt.requestId.symm.trans hreq)
    obtain ⟨-, hmatch, hi, hkey⟩ := hrecv.built hbuilt hq
    have hu : task.matchUserCtx = p.userData := by
      simpa [answersWakeUp, hmatch] using (Bool.and_eq_true_iff.mp hanswer).2
    have hwaits : s.Waits ⟨q, task.ptr.index⟩ := ⟨w, task, hmem, by rw [← hq]⟩
    have hnot := (waits_iff h hid hrecv rfl hb hi).mp hwaits
    rw [← hkey, hu] at hnot
    exact absurd (hspare _ hi (hu.symm.trans hkey)) hnot
  · have hw : ((s.pool.setWorker w { s.pool.workers w with pending := rest', state := .idle }).record
        [.missed w p'.requestId p'.userData]).workers w
          = { s.pool.workers w with pending := rest', state := .idle } := Function.update_self ..
    rw [hw]
    exact ⟨rfl, hexec⟩

/-- When every task of the receive has been processed, each has ended. -/
theorem counts_recv
    (h : (transportSystem workerCount capacity).Reach (NotCancelled call.clientKey) s)
    (hid : s.OwnsId q call.clientKey) (hrecv : Receives q call (s.reqs q).prep cb)
    (hb : (s.reqs q).bound = true)
    (hall : ∀ i, i < (s.reqs q).prep.chunks.length →
      s.Processed q call.clientKey (s.reqs q).prep.chunks.length i) :
    (s.view q).succeeded + (s.view q).failed = (s.reqs q).prep.chunks.length := by
  obtain ⟨Q, E, hL⟩ := ledger_reach h
  obtain ⟨-, hp, -, -, ha⟩ := (request_inv h q).stage.of_bound (.inl hb)
  have hlen : (s.view q).attached.length = (s.reqs q).prep.chunks.length := by
    rw [ha, List.length_map]
    exact hp.tasks_length
  have hQ : Q.countP (·.sync = q) = 0 := by
    refine (hL.queuedTasks q).unique (.zero fun w => List.countP_eq_zero.mpr fun t ht hq => ?_)
    obtain ⟨-, -, hi, -⟩ := hrecv.built ((nodes_reach h).queued w t ht) (beq_iff_eq.mp hq)
    refine (waits_iff h hid hrecv rfl hb hi).mp ⟨w, t, ht, ?_⟩ (hall _ hi).1
    rw [← beq_iff_eq.mp hq]
  have hE : E.countP (·.sync = q) = 0 := by
    refine (hL.executingTasks q).unique (.zero fun w => ?_)
    show (executes q (s.pool.workers w, s.body w)).toNat = 0
    unfold executes
    cases hexec : (s.pool.workers w).exec with
    | running t r u =>
      by_contra hne
      simp only [Bool.toNat_eq_zero, Bool.not_eq_false, Bool.and_eq_true, beq_iff_eq] at hne
      obtain ⟨hun, hq⟩ := hne
      have hx : s.Executes w ⟨q, t.ptr.index⟩ := ⟨t, r, u, hexec, by rw [← hq], hun⟩
      exact (hall _ (executes_recv h hrecv hx).1).2 w hx
    | _ => rfl
  have hremoved : (s.view q).removed = 0 := by
    refine List.countP_eq_zero.mpr fun x hx hq => ?_
    obtain ⟨t, ht, hptr⟩ := mem_removals.mp hx
    refine unremoved_reach h hid _ t ht ?_
    rw [hptr]
    exact beq_iff_eq.mp hq
  have hsum := hL.request q
  omega

/-- A task whose immediate has been processed has ended, and its callback has been invoked once. -/
theorem processed_recv
    (h : (transportSystem workerCount capacity).Reach (NotCancelled call.clientKey) s)
    (hid : s.OwnsId q call.clientKey) (hrecv : Receives q call (s.reqs q).prep cb)
    (hb : (s.reqs q).bound = true) {i : Nat} (hi : i < (s.reqs q).prep.chunks.length)
    (hdone : s.Processed q call.clientKey (s.reqs q).prep.chunks.length i) :
    ∃ ret, (⟨q, i⟩, ret == 0) ∈ marks s.trace ∧ callbacksOf ⟨q, i⟩ s.trace
      = [(cb, chunkTag (call.clientKey.setWidth 60) (s.reqs q).prep.chunks.length i, ret)] := by
  obtain ⟨Q, E, hL⟩ := ledger_reach h
  have hlen : i < (s.reqs q).prep.tasks.length := by rwa [hrecv.wellFormed.tasks_length]
  rcases placed_recv hL (request_inv h q) hb hlen (unremoved_reach h hid) with hq | ⟨w, hx⟩ | ⟨b, hm⟩
  · exact absurd hdone.1 ((waits_iff h hid hrecv rfl hb hi).mp hq)
  · exact absurd hx (hdone.2 w)
  · obtain ⟨-, ret, rfl, hcall⟩ := marked_recv h hrecv hm
    exact ⟨ret, hm, hcall⟩

/-- **Exact dispatch of out-of-order receive completions.**  For a receive whose id is its own, from
    the return of its registration until it is cancelled, in every run: the processed wake-ups
    decide which chunks have been reported, each once and with its own tag, and their order and
    number do not matter. -/
theorem dispatch (h : (transportSystem workerCount capacity).Reach (NotCancelled call.clientKey) s)
    (hid : s.OwnsId q call.clientKey) {alloc : Bool}
    (hcall : prepareRecv q true call alloc = some (s.reqs q).prep)
    (hb : (s.reqs q).bound = true) :
    ∃ cb, call.notifyCallback = some cb ∧
      Dispatched s q call cb (s.reqs q).prep.chunks.length := by
  obtain ⟨cb, hrecv⟩ := receives hcall
  have hinv := request_inv h q
  refine ⟨cb, hrecv.callback, ?_, ?_, ?_, ?_, ?_, ?_⟩
  · intro i hi
    exact waits_iff h hid hrecv rfl hb hi
  · intro w p rest ret s' hexec hpending hp hspare hs
    exact spare_wakeUp h hid hrecv hb hexec hpending hp hspare hs
  · intro i hno
    -- no worker has had the task
    have hnot : (∀ b, (⟨q, i⟩, b) ∉ marks s.trace) ∧ ∀ w, ¬ s.Executes w ⟨q, i⟩ := by
      by_cases hi : i < (s.reqs q).prep.chunks.length
      · obtain ⟨Q, E, hL⟩ := ledger_reach h
        obtain ⟨w, t, ht, hptr⟩ := (waits_iff h hid hrecv rfl hb hi).mpr (hno hi)
        rw [← hptr]
        exact hL.untouched (request_inv h) ht
      · exact ⟨fun b hm => hi (marked_recv h hrecv hm).1, fun w hx => hi (executes_recv h hrecv hx).1⟩
    rw [← callbacksOf_taskEvents, (effects_reach h).untouched _ hnot.1 hnot.2]
    rfl
  · intro w i hx
    exact (executes_recv h hrecv hx).2
  · intro i hi hdone
    obtain ⟨ret, -, hcalls⟩ := processed_recv h hid hrecv hb hi hdone
    exact ⟨ret, hcalls⟩
  · intro hall
    have hcount := counts_recv h hid hrecv hb hall
    have hcompleted : (s.reqs q).sync.completedTasks = (s.view q).succeeded := hinv.counted.completed
    obtain ⟨-, -, ht, -, -⟩ := hinv.stage.of_bound (.inl hb)
    have htotal : (s.reqs q).sync.totalTasks = (s.reqs q).prep.chunks.length :=
      ht.trans hrecv.wellFormed.tasks_length
    have hpos := hrecv.wellFormed.chunks_pos
    have hfailed : (s.view q).failed = 0 ↔ ∀ i, i < (s.reqs q).prep.chunks.length →
        callbacksOf ⟨q, i⟩ s.trace = [(cb, chunkTag (call.clientKey.setWidth 60)
          (s.reqs q).prep.chunks.length i, 0)] := by
      constructor
      · intro hzero i hi
        obtain ⟨ret, hm, hcalls⟩ := processed_recv h hid hrecv hb hi (hall i hi)
        have hret := List.countP_eq_zero.mp hzero _ hm
        rw [hcalls, show ret = 0 by simpa using hret]
      · intro hok
        refine List.countP_eq_zero.mpr ?_
        rintro ⟨⟨q', i⟩, b⟩ hm hfail
        simp only [Bool.and_eq_true, beq_iff_eq, Bool.not_eq_true'] at hfail
        obtain ⟨rfl, rfl⟩ := hfail
        obtain ⟨hi, ret, hret, hcalls⟩ := marked_recv h hrecv hm
        rw [hok i hi] at hcalls
        obtain rfl : 0 = ret := by simpa using hcalls
        cases hret
    constructor
    · by_cases hzero : (s.view q).failed = 0
      · apply hinv.counted.accounted (hinv.attached_ne_nil hb)
        show (s.reqs q).sync.allTasksAccounted = true
        apply (TaskSync.allTasksAccounted_iff (by omega)).mpr
        omega
      · exact hinv.counted.failed (by omega)
    · rw [← hfailed, hcompleted]
      omega

end Main

/-- Request 0 is the only one, and nobody cancels. -/
def noCancel (_ : Transport) : Action → Bool
  | .callSend q _ _ _ => q == 0
  | .callRecv q _ _ _ => q == 0
  | .callCancel _ _ => false
  | .callCancelId _ _ => false
  | .owner _ _ => false
  | _ => true

/-- The test that there is one request, and that nobody cancels it. -/
theorem noCancel_ok {r : ReqId} (s : Transport) (a : Action) (h : noCancel s a = true) :
    SingleRequest 0 s a ∧ NotCancelled r s a := by
  have hcancel : NotCancelled r s a := by
    rintro c (⟨q, -, rfl | ⟨cond, wait, task, tasks, rfl, -⟩⟩ | ⟨k, -, rfl⟩) <;> cases h
  refine ⟨?_, hcancel⟩
  cases a with
  | callSend | callRecv => exact beq_iff_eq.mp h
  | _ => trivial

/-- A receive of three chunks. -/
def recvThree : RecvCall := { oneChunk with len := 4194305#32 }

/-- The completion of its chunk `i`. -/
def recvThreeCr (i : Nat) : UrmaCr :=
  ⟨0, true, urmaCrOpcSendWithImm, 0#64,
    (chunkTag ((encodeRequestId 7#64).setWidth 60) 3 i).userCtx⟩

/-- The chunks arrive last first, one of them twice, and one that it does not have in between. -/
def outOfOrder : List Action :=
  .callRecv 0 recvThree true .ok :: List.replicate 8 (.caller 0 .ok []) ++
    [2, 0, 2, 5, 1].flatMap (fun i =>
      [.completion 0 (recvThreeCr i) urmaSuccess, .wake 0 .ok, .wake 0 .ok]) ++
    List.replicate 17 (.worker 0 0)

/-- The receive was made, and all its chunks have been reported. -/
def reportedThree (s : Transport) : Bool :=
  decide (prepareRecv 0 true recvThree true = some (s.reqs 0).prep) && (s.reqs 0).bound &&
    (s.reqs 0).sync.completedTasks == 3

/-- Three chunks that arrive in the wrong order, each called back with its own data. -/
theorem dispatch_out_of_order : ∃ (s : Transport) (cb : Nat),
    Dispatched s 0 recvThree cb (s.reqs 0).prep.chunks.length ∧
      (s.reqs 0).sync.completedTasks = 3 := by
  obtain ⟨s, hr, hP⟩ := transportSystem_exec 1 1#32 noCancel (noCancel_ok (r := 7#64)) outOfOrder
    reportedThree (by decide +kernel)
  simp only [reportedThree, Bool.and_eq_true, beq_iff_eq, decide_eq_true_eq] at hP
  obtain ⟨⟨hcall, hb⟩, hcompleted⟩ := hP
  have hown := ownsId_of_single (hr.mono fun _ _ h => h.1)
  rw [(receives hcall).choose_spec.requestId] at hown
  have hreach : (transportSystem 1 1#32).Reach (NotCancelled recvThree.clientKey) s :=
    hr.mono fun _ _ h => h.2
  obtain ⟨cb, -, hdisp⟩ := dispatch hreach hown hcall hb
  exact ⟨s, cb, hdisp, hcompleted⟩

end OsTransport
