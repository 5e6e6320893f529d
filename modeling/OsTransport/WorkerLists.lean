/-
  A worker's two lists in memory.

  `queue_head`, `queue_tail`, `queue_size` and the three fields of the pending list, with the
  functions that change them, as `OsTransport.Lib.Linked` has such lists.  `OsTransport.Pool` keeps
  plain lists instead; `worker_lists_refine` says that this is no simplification: in every run of
  calls the chains hold the lists of `WorkerThread`, and every call has the result it has there.

  `malloc` answers with the address of a cell that is not allocated, or with NULL.

  Every function here is one or two operations of `OsTransport.Lib.Linked`, and what it does to the
  values is one rule of that library (`Carries.pushBack`, `Carries.popWhere`, …).  What remains is the
  arithmetic of the counts: as long as a list has fewer than 2^32 nodes the `uint32_t` beside it is
  its length (`toNat_count`).  `call_refines` goes through the functions, `refines_reach` is the
  induction, and `workerRoutine_lists` says that an iteration of the worker is two of these calls.
-/
import OsTransport.Pool
import OsTransport.Lib.Linked
import OsTransport.Lib.Transition

namespace OsTransport

open Transition Linked

variable {α : Type*}

/-- The rounds a loop over a list is given: more than fewer than 2^32 nodes can take. -/
def maxRounds : Nat := 2 ^ 32

/-- The list fields of `WorkerThread`.  The nodes of either list are in a heap of their own. -/
structure WorkerLists (α : Type*) where
  queue : Linked 32 (TaskNode α)
  pending : Linked 32 PendingReqNode

namespace WorkerLists

def fresh : WorkerLists α := ⟨.empty fun _ => none, .empty fun _ => none⟩

variable (s : WorkerLists α)

/-! ## The functions

As the source has them, on the lists of `OsTransport.Lib.Linked`. -/

/-- `worker_queue_push`.  `node` is what `malloc` returns. -/
def workerQueuePush (node : Option Addr) (task : TaskNode α) : Option (WorkerLists α × Bool) :=
  match node with
  | none => some (s, false)
  | some a => (s.queue.pushBack a task).map fun queue => ({ s with queue }, true)

/-- `attach_nodes_to_worker`. -/
def attachNodesToWorker (head tail : Addr) (created : BitVec 32) : Option (WorkerLists α) :=
  (s.queue.link head tail created).map fun queue => { s with queue }

/-- What `thread_pool_submit_batch_tasks` does with its nodes: `build_batch_nodes` chains them up,
    the last one is looked for, and the chain is attached. -/
def attachBatch (nodes : List (Addr × TaskNode α)) : Option (WorkerLists α) := do
  let batch : Linked 32 (TaskNode α) ← build s.queue.heap nodes
  match batch.head with
  | none => none
  | some head =>
    match walk batch.heap maxRounds head with
    | none => none
    | some tail =>
      attachNodesToWorker { s with queue := { s.queue with heap := batch.heap } } head tail batch.size

/-- `thread_pool_user_data_raw64`. -/
def userDataRaw64 (data : Option (BitVec 64)) : BitVec 64 := data.getD 0#64

/-- `worker_queue_pop_by_req_and_user_data`. -/
def workerQueuePopByReqAndUserData (reqId : ReqId) (notifyData : Option (BitVec 64)) :
    Option (WorkerLists α × Option (TaskNode α)) :=
  (s.queue.popWhere (answersWakeUp reqId (userDataRaw64 notifyData)) maxRounds).map fun r =>
    ({ s with queue := r.2 }, r.1)

/-- `worker_pending_req_push`. -/
def workerPendingReqPush (node : Option Addr) (reqId : ReqId) (userData : Option (BitVec 64)) :
    Option (WorkerLists α × Bool) :=
  match node with
  | none => some (s, false)
  | some a => (s.pending.pushBack a ⟨reqId, userDataRaw64 userData⟩).map fun pending =>
      ({ s with pending }, true)

/-- `worker_pending_req_pop`. -/
def workerPendingReqPop : Option (WorkerLists α × Option PendingReqNode) :=
  s.pending.popFront.map fun r => ({ s with pending := r.2 }, r.1)

/-- `worker_pending_req_clear`. -/
def workerPendingReqClear : Option (WorkerLists α) :=
  (s.pending.clear maxRounds).map fun pending => { s with pending }

/-- `worker_pending_req_remove_by_req`. -/
def workerPendingReqRemoveByReq (reqId : ReqId) : Option (WorkerLists α × BitVec 32) :=
  (s.pending.removeWhere (fun p => p.requestId == reqId) maxRounds).map fun r =>
    ({ s with pending := r.1 }, r.2)

/-- `cancel_in_worker_queue`. -/
def cancelInWorkerQueue (reqId : ReqId) : Option (WorkerLists α × BitVec 32) := do
  let r ← s.queue.removeWhere (fun t => t.requestId == reqId) maxRounds
  let r' ← workerPendingReqRemoveByReq { s with queue := r.1 } reqId
  some (r'.1, r.2)

end WorkerLists

/-! ## Calls, in memory and on the lists

The same calls, with the same results, on both. -/

inductive ListCall (α : Type*)
  | queuePush (node : Option Addr) (task : TaskNode α)
  | attach (nodes : List (Addr × TaskNode α))
  | queuePop (reqId : ReqId) (notifyData : Option (BitVec 64))
  | cancel (reqId : ReqId)
  | pendingPush (node : Option Addr) (reqId : ReqId) (userData : Option (BitVec 64))
  | pendingPop
  | pendingRemove (reqId : ReqId)
  | pendingClear

inductive ListResult (α : Type*)
  | void
  | done (ok : Bool)
  | task (found : Option (TaskNode α))
  | wakeUp (found : Option PendingReqNode)
  | removed (n : Nat)
  deriving DecidableEq

/-- A call on the lists in memory. -/
def WorkerLists.call (s : WorkerLists α) : ListCall α → Option (WorkerLists α × ListResult α)
  | .queuePush node task => (s.workerQueuePush node task).map fun r => (r.1, .done r.2)
  | .attach nodes => (s.attachBatch nodes).map fun s' => (s', .void)
  | .queuePop reqId data => (s.workerQueuePopByReqAndUserData reqId data).map fun r => (r.1, .task r.2)
  | .cancel reqId => (s.cancelInWorkerQueue reqId).map fun r => (r.1, .removed r.2.toNat)
  | .pendingPush node reqId data => (s.workerPendingReqPush node reqId data).map fun r => (r.1, .done r.2)
  | .pendingPop => s.workerPendingReqPop.map fun r => (r.1, .wakeUp r.2)
  | .pendingRemove reqId => (s.workerPendingReqRemoveByReq reqId).map fun r => (r.1, .removed r.2.toNat)
  | .pendingClear => s.workerPendingReqClear.map fun s' => (s', .void)

/-- The same call on the plain lists of the pool. -/
def WorkerThread.call (w : WorkerThread α) : ListCall α → WorkerThread α × ListResult α
  | .queuePush none _ => (w, .done false)
  | .queuePush (some _) task => (attachNodesToWorker w [task], .done true)
  | .attach nodes => (attachNodesToWorker w (nodes.map Prod.snd), .void)
  | .queuePop reqId data =>
    match workerQueuePopByReqAndUserData w.queue reqId (data.getD 0#64) with
    | some (task, queue) => ({ w with queue }, .task (some task))
    | none => (w, .task none)
  | .cancel reqId => (cancelInWorkerQueue w reqId, .removed (cancelledNodes w reqId).length)
  | .pendingPush none _ _ => (w, .done false)
  | .pendingPush (some _) reqId data => (workerPendingReqPush w reqId (data.getD 0#64), .done true)
  | .pendingPop => ({ w with pending := w.pending.tail }, .wakeUp w.pending.head?)
  | .pendingRemove reqId =>
    ({ w with pending := w.pending.filter fun p => !(p.requestId == reqId) },
      .removed (w.pending.filter fun p => p.requestId == reqId).length)
  | .pendingClear => ({ w with pending := [] }, .void)

/-- The addresses are those of cells that `malloc` may return, and the chain is not empty. -/
def ListCall.Fresh (s : WorkerLists α) : ListCall α → Prop
  | .queuePush node _ => ∀ a, node = some a → s.queue.heap a = none
  | .attach nodes => nodes ≠ [] ∧ (addrs nodes).Nodup ∧ ∀ a ∈ addrs nodes, s.queue.heap a = none
  | .pendingPush node _ _ => ∀ a, node = some a → s.pending.heap a = none
  | _ => True

/-- Fewer than 2^32 nodes.  The counts beside the lists are `uint32_t`. -/
def WorkerThread.Room (w : WorkerThread α) : Prop := w.queue.length < 2 ^ 32 ∧ w.pending.length < 2 ^ 32

/-- All sequences of calls, in memory and on the lists side by side. -/
def listSystem : System (WorkerLists α × WorkerThread α) (ListCall α) :=
  .ofFun (· = (.fresh, .fresh)) fun s c => (s.1.call c).map fun r => (r.1, (s.2.call c).1)

/-- A call with addresses from `malloc` that leaves fewer than 2^32 nodes. -/
def Fits (s : WorkerLists α × WorkerThread α) (c : ListCall α) : Prop :=
  c.Fresh s.1 ∧ (s.2.call c).1.Room

/-! ## Refinement

Each call keeps the refinement; counts are those of the lists modulo 2^32. -/

/-- The lists in memory are those of the worker.  Order and values agree; addresses are nobody's
    business. -/
structure WorkerLists.Refines (s : WorkerLists α) (w : WorkerThread α) : Prop where
  queue : s.queue.Carries w.queue
  pending : s.pending.Carries w.pending
  room : w.Room

theorem refines_fresh : (WorkerLists.fresh : WorkerLists α).Refines .fresh :=
  ⟨carries_empty _, carries_empty _, Nat.two_pow_pos 32, Nat.two_pow_pos 32⟩

/-- The number a function counts in a `uint32_t` is the number it removed. -/
theorem toNat_count {n m : Nat} (hle : n ≤ m) (hroom : m < 2 ^ 32) : (BitVec.ofNat 32 n).toNat = n :=
  Nat.mod_eq_of_lt (Nat.lt_of_le_of_lt hle hroom)

section Calls

variable {s : WorkerLists α} {w : WorkerThread α}

/-- The pending list alone is changed by `worker_pending_req_remove_by_req`. -/
theorem pendingRemove_refines (h : s.Refines w) (reqId : ReqId) :
    ∃ s', s.workerPendingReqRemoveByReq reqId = some (s', BitVec.ofNat 32
        (w.pending.filter fun p => p.requestId == reqId).length) ∧ s'.queue = s.queue ∧
      s'.pending.Carries (w.pending.filter fun p => !(p.requestId == reqId)) := by
  obtain ⟨pending, hremove, hcarries⟩ :=
    h.pending.removeWhere (fun p => p.requestId == reqId) (show _ < maxRounds from h.room.2)
  exact ⟨{ s with pending }, by rw [WorkerLists.workerPendingReqRemoveByReq, hremove]; rfl, rfl, hcarries⟩

theorem cancel_refines (h : s.Refines w) (reqId : ReqId) :
    ∃ s', s.cancelInWorkerQueue reqId = some (s', BitVec.ofNat 32 (cancelledNodes w reqId).length) ∧
      s'.queue.Carries (cancelInWorkerQueue w reqId).queue ∧
      s'.pending.Carries (cancelInWorkerQueue w reqId).pending := by
  obtain ⟨queue, hremove, hcarries⟩ :=
    h.queue.removeWhere (fun t => t.requestId == reqId) (show _ < maxRounds from h.room.1)
  have hwithout : WorkerLists.Refines { s with queue }
      { w with queue := w.queue.filter fun t => !(t.requestId == reqId) } :=
    ⟨hcarries, h.pending, Nat.lt_of_le_of_lt (List.length_filter_le ..) h.room.1, h.room.2⟩
  obtain ⟨s', hpending, hqueue, hcarries'⟩ := pendingRemove_refines hwithout reqId
  refine ⟨s', ?_, hqueue ▸ hcarries, hcarries'⟩
  simp only [WorkerLists.cancelInWorkerQueue, hremove, hpending, Option.bind_eq_bind, Option.bind_some]
  rfl

theorem attach_refines (h : s.Refines w) {nodes : List (Addr × TaskNode α)}
    (hfresh : (ListCall.attach nodes).Fresh s) (hlen : nodes.length < 2 ^ 32) :
    ∃ s', s.attachBatch nodes = some s' ∧ s'.queue.Carries (w.queue ++ nodes.map Prod.snd) ∧
      s'.pending = s.pending := by
  obtain ⟨hne, hnodup, hfree⟩ := hfresh
  obtain ⟨batch, queue, head, tail, hbuild, hhead, hwalk, hlink, hcarries⟩ :=
    h.queue.link hne hnodup hfree (show _ ≤ maxRounds from Nat.le_of_lt hlen)
  refine ⟨{ s with queue }, ?_, hcarries, rfl⟩
  simp only [WorkerLists.attachBatch, hbuild, hhead, hwalk, WorkerLists.attachNodesToWorker, hlink,
    Option.bind_eq_bind, Option.bind_some, Option.map_some]

/-- The plain list loses the first task that answers, if there is one. -/
theorem call_queuePop (w : WorkerThread α) (reqId : ReqId) (data : Option (BitVec 64)) :
    w.call (.queuePop reqId data) =
      ({ w with queue :=
          ((Queue.popFirst (answersWakeUp reqId (data.getD 0#64)) w.queue).map Prod.snd).getD w.queue },
        .task ((Queue.popFirst (answersWakeUp reqId (data.getD 0#64)) w.queue).map Prod.fst)) := by
  rw [WorkerThread.call, workerQueuePopByReqAndUserData]
  cases Queue.popFirst (answersWakeUp reqId (data.getD 0#64)) w.queue with
  | none => rfl
  | some r => rfl

/-- Every call has its result, the one it has on the plain lists. -/
theorem call_refines {c : ListCall α} (h : s.Refines w) (hfits : Fits (s, w) c) :
    ∃ s', s.call c = some (s', (w.call c).2) ∧ s'.Refines (w.call c).1 := by
  obtain ⟨hfresh, hroom⟩ := hfits
  cases c with
  | queuePush node task =>
    cases node with
    | none => exact ⟨s, rfl, h⟩
    | some a =>
      obtain ⟨queue, hpush, hcarries⟩ := h.queue.pushBack (hfresh a rfl) task
      refine ⟨{ s with queue }, ?_, hcarries, h.pending, hroom⟩
      simp only [WorkerLists.call, WorkerLists.workerQueuePush, hpush, Option.map_some]
      rfl
  | attach nodes =>
    have hlen : nodes.length < 2 ^ 32 := by
      have htotal := hroom.1
      simp only [WorkerThread.call, attachNodesToWorker, List.length_append, List.length_map] at htotal
      omega
    obtain ⟨s', hattach, hqueue, hpending⟩ := attach_refines h hfresh hlen
    refine ⟨s', ?_, hqueue, hpending ▸ h.pending, hroom⟩
    simp only [WorkerLists.call, hattach, Option.map_some]
    rfl
  | queuePop reqId data =>
    obtain ⟨queue, hpop, hcarries⟩ := h.queue.popWhere
      (answersWakeUp reqId (WorkerLists.userDataRaw64 data)) (show _ < maxRounds from h.room.1)
    rw [call_queuePop] at hroom ⊢
    refine ⟨{ s with queue }, ?_, hcarries, h.pending, hroom⟩
    simp only [WorkerLists.call, WorkerLists.workerQueuePopByReqAndUserData, hpop, Option.map_some]
    rfl
  | cancel reqId =>
    obtain ⟨s', hcancel, hqueue, hpending⟩ := cancel_refines h reqId
    refine ⟨s', ?_, hqueue, hpending, hroom⟩
    simp only [WorkerLists.call, hcancel, Option.map_some, WorkerThread.call,
      toNat_count (List.length_filter_le _ w.queue) h.room.1, cancelledNodes]
  | pendingPush node reqId data =>
    cases node with
    | none => exact ⟨s, rfl, h⟩
    | some a =>
      obtain ⟨pending, hpush, hcarries⟩ := h.pending.pushBack (hfresh a rfl) ⟨reqId, data.getD 0#64⟩
      refine ⟨{ s with pending }, ?_, h.queue, hcarries, hroom⟩
      simp only [WorkerLists.call, WorkerLists.workerPendingReqPush, WorkerLists.userDataRaw64, hpush,
        Option.map_some]
      rfl
  | pendingPop =>
    obtain ⟨pending, hpop, hcarries⟩ := h.pending.popFront
    refine ⟨{ s with pending }, ?_, h.queue, hcarries, hroom⟩
    simp only [WorkerLists.call, WorkerLists.workerPendingReqPop, hpop, Option.map_some]
    rfl
  | pendingRemove reqId =>
    obtain ⟨s', hremove, hqueue, hcarries⟩ := pendingRemove_refines h reqId
    refine ⟨s', ?_, hqueue ▸ h.queue, hcarries, hroom⟩
    simp only [WorkerLists.call, hremove, Option.map_some, WorkerThread.call,
      toNat_count (List.length_filter_le _ w.pending) h.room.2]
  | pendingClear =>
    obtain ⟨pending, hclear, hcarries⟩ := h.pending.clear (show _ < maxRounds from h.room.2)
    refine ⟨{ s with pending }, ?_, h.queue, hcarries, hroom⟩
    simp only [WorkerLists.call, WorkerLists.workerPendingReqClear, hclear, Option.map_some]
    rfl

theorem refines_reach {p : WorkerLists α × WorkerThread α} (h : listSystem.Reach Fits p) :
    p.1.Refines p.2 := by
  refine h.invariant (I := fun p => p.1.Refines p.2) ?_ ?_
  · rintro p rfl
    exact refines_fresh
  · rintro ⟨s, w⟩ c p' _ hI hfits hs
    obtain ⟨s', hcall, href⟩ := call_refines hI hfits
    obtain ⟨r, hr, rfl⟩ := Option.map_eq_some_iff.mp hs
    rw [hcall] at hr
    obtain rfl := Option.some.inj hr
    exact href

end Calls

/-- Serving a wake-up is a pop of either list. -/
theorem workerRoutine_lists (w : WorkerThread α) {p : PendingReqNode} (hp : w.pending.head? = some p) :
    let w' := ((w.call .pendingPop).1.call (.queuePop p.requestId (some p.userData))).1
    (workerRoutine w).queue = w'.queue ∧ (workerRoutine w).pending = w'.pending := by
  obtain ⟨rest, hw⟩ := List.head?_eq_some_iff.mp hp
  rw [call_queuePop]
  simp only [workerRoutine, hw, WorkerThread.call, List.tail_cons, workerQueuePopByReqAndUserData,
    Option.getD_some]
  cases Queue.popFirst (answersWakeUp p.requestId p.userData) w.queue with
  | none => exact ⟨rfl, rfl⟩
  | some r => exact ⟨rfl, rfl⟩

/-- **Worker lists refine plain lists.**  In every run of calls the chains hold the lists of the
    worker, and every further call ends, with the result and the lists it has there. -/
theorem worker_lists_refine {s : WorkerLists α} {w : WorkerThread α} (h : listSystem.Reach Fits (s, w)) :
    (s.queue.Represents w.queue ∧ s.pending.Represents w.pending) ∧
      ∀ c, Fits (s, w) c → ∃ s', s.call c = some (s', (w.call c).2) ∧
        s'.queue.Represents (w.call c).1.queue ∧ s'.pending.Represents (w.call c).1.pending := by
  have hrefines := refines_reach h
  refine ⟨⟨hrefines.queue.represents hrefines.room.1, hrefines.pending.represents hrefines.room.2⟩, ?_⟩
  intro c hfits
  obtain ⟨s', hcall, href⟩ := call_refines hrefines hfits
  exact ⟨s', hcall, href.queue.represents href.room.1, href.pending.represents href.room.2⟩

/-- A task of the id, without match key. -/
def keyless (reqId : ReqId) : TaskNode Unit := ⟨1#64, reqId, ⟨(), none, 1#64, reqId, 1⟩, false, 0#64⟩

def fitsb (s : WorkerLists Unit × WorkerThread Unit) (c : ListCall Unit) : Bool :=
  (match c with
    | .queuePush node _ => node.all fun a => (s.1.queue.heap a).isNone
    | .attach nodes => !nodes.isEmpty && decide (addrs nodes).Nodup &&
        (addrs nodes).all fun a => (s.1.queue.heap a).isNone
    | .pendingPush node _ _ => node.all fun a => (s.1.pending.heap a).isNone
    | _ => true) &&
  decide ((s.2.call c).1.queue.length < 2 ^ 32 ∧ (s.2.call c).1.pending.length < 2 ^ 32)

theorem fits_of_b (s : WorkerLists Unit × WorkerThread Unit) (c : ListCall Unit) (h : fitsb s c = true) :
    Fits s c := by
  obtain ⟨hfresh, hroom⟩ := Bool.and_eq_true_iff.mp h
  have hroom' := of_decide_eq_true hroom
  refine ⟨?_, hroom'⟩
  cases c with
  | queuePush node task =>
    rintro a rfl
    exact Option.isNone_iff_eq_none.mp hfresh
  | attach nodes =>
    simp only [Bool.and_eq_true, Bool.not_eq_true', List.isEmpty_eq_false_iff, decide_eq_true_eq,
      List.all_eq_true, Option.isNone_iff_eq_none] at hfresh
    exact ⟨hfresh.1.1, hfresh.1.2, hfresh.2⟩
  | pendingPush node reqId data =>
    rintro a rfl
    exact Option.isNone_iff_eq_none.mp hfresh
  | _ => trivial

/-- Four tasks; the second is taken, its node is used again, and the other three go at once. -/
theorem worker_lists_refine_cancel : ∃ (s : WorkerLists Unit) (w : WorkerThread Unit),
    (s.queue.Represents w.queue ∧ s.pending.Represents w.pending) ∧ w.queue = [keyless 9#64] ∧
      w.pending = [⟨8#64, 5#64⟩] := by
  have hrun : (exec fitsb (fun s c => (s.1.call c).map fun r => (r.1, (s.2.call c).1)) (.fresh, .fresh)
      [.attach [(1, keyless 7#64), (2, keyless 8#64), (3, keyless 7#64)], .queuePush (some 4) (keyless 7#64),
        .pendingPush (some 1) 7#64 none, .pendingPush (some 2) 8#64 (some 5#64), .queuePop 8#64 none,
        .queuePush (some 2) (keyless 9#64), .queuePush none (keyless 9#64), .cancel 7#64]).any
      (fun s => decide (s.2.queue = [keyless 9#64] ∧ s.2.pending = [⟨8#64, 5#64⟩])) = true := by
    decide +kernel
  obtain ⟨⟨s, w⟩, hr, hP⟩ :=
    System.Reach.of_exec (· = (WorkerLists.fresh, WorkerThread.fresh)) _ fits_of_b rfl _ _ hrun
  obtain ⟨hqueue, hpending⟩ := of_decide_eq_true hP
  exact ⟨s, w, (worker_lists_refine hr).1, hqueue, hpending⟩

end OsTransport
