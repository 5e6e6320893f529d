/-
  Tasks without match key are executed in the order they were submitted in.

  A batch that shares its id with no other submission, and that nobody cancels, lives on one worker.
  Its queue there is what the wake-ups processed so far have left of it, its pending wake-ups are the
  accepted ones that are still to be processed, and a wake-up takes the first task whatever its user
  data are.  So with `m` wake-ups processed the queue is the batch without its first `m` tasks
  (`Lane.InOrder`), however the other requests move in the two lists the worker shares.

  `fifo` is the statement about every run of the pool.

  `inOrder_step` goes through the steps of the lane.  Only taking and missing touch the queue, and
  `pop_keyless` says that either is a matter of its head.  The other steps move a call or append to
  the pending wake-ups, which `Lane.InOrder.setCall` and the fields of the invariant cover.

  The order is one of the story of the pool (`OsTransport.Story`), which keeps for each id what was
  queued, what was taken, and for which wake-up; nothing about times or other requests is in it.
-/
import OsTransport.Story

namespace OsTransport

open Transition

variable {κ α : Type*}

/-! ## The statement

The k-th wake-up processed takes the k-th task. -/

/-- The tasks of `r` that workers execute right now: none, or one on one worker. -/
inductive PoolSys.Executing (s : PoolSys κ α) (r : ReqId) : List (TaskNode α) → Prop
  | none (hno : ∀ w t u, (s.workers w).exec ≠ .running t r u) : Executing s r []
  | one {w : Nat} {t : TaskNode α} {u : BitVec 64} (hrun : (s.workers w).exec = .running t r u)
      (honly : ∀ w' t' u', (s.workers w').exec = .running t' r u' → w' = w) : Executing s r [t]

/-- The batch is executed first in, first out.  Wake-ups are counted as they are processed, and
    tasks as they were submitted. -/
structure Fifo (batch : Submission α) (st : Story κ α) : Prop where
  /-- Before the batch is queued no wake-up of it is processed. -/
  built : queuedOf batch.requestId st.pool.log = [] ∧ servedOf batch.requestId st.pool.log = [] ∨
    List.Forall₂ batch.Created batch.tasks (queuedOf batch.requestId st.pool.log)
  /-- Wake-ups are processed in the order they were accepted in. -/
  order : servedOf batch.requestId st.pool.log <+: entriesOf batch.requestId st.woken
  /-- The `k`-th one processed finds the `k`-th task, and none past the last. -/
  outcome : outcomesOf batch.requestId st.pool.log =
    (List.range (servedOf batch.requestId st.pool.log).length).map
      fun k => (queuedOf batch.requestId st.pool.log)[k]?
  /-- The tasks they found have been executed in order, all but the one a worker executes now. -/
  ran : ∃ now, st.pool.Executing batch.requestId now ∧
    doneOf batch.requestId st.pool.log ++ now =
      (queuedOf batch.requestId st.pool.log).take (servedOf batch.requestId st.pool.log).length

/-- Tasks of the batch's id are queued once, by the batch, and nobody cancels them. -/
def OnlyBatch (batch : Submission α) (st : Story κ α) : PoolAction κ α → Prop
  | .advance c _ => ∀ sub w nodes, st.pool.calls c = .attaching sub w nodes →
      sub.requestId = batch.requestId →
      sub = batch ∧ queuedOf batch.requestId st.pool.log = []
  | .cancel _ reqId => reqId ≠ batch.requestId
  | _ => True

/-! ## The lane of the batch

Without match keys a wake-up takes the head of the queue. -/

/-- The call removes tasks of the lane. -/
def LaneCall.cancels : LaneCall → Bool
  | .cancelling _ => true
  | .uncounting _ => true
  | _ => false

/-- The task a worker executes. -/
def Exec.now : Exec α → List (TaskNode α)
  | .running t _ _ => [t]
  | _ => []

/-- The lane of a batch on worker `w₀`, in order.  What has been taken is a beginning of the batch,
    as long as the wake-ups served, and the rest is the queue. -/
structure Lane.InOrder (L : Lane κ α) (B : LaneBook α) (w₀ : Nat) : Prop where
  home : L.At w₀
  calm : ∀ c, (L.calls c).cancels = false
  queue : L.queue w₀ = B.queued.drop L.served.length
  wakes : B.woken = L.served ++ L.wakes w₀
  outcome : B.outcomes = (List.range L.served.length).map fun k => B.queued[k]?
  ran : B.done ++ (L.exec w₀).now = B.queued.take L.served.length

section Lane

variable [DecidableEq κ] {r : ReqId} {L L' : Lane κ α} {l : LaneLabel κ α} {w₀ : Nat}
  {B : LaneBook α}

omit [DecidableEq κ] in
/-- Without match keys a wake-up takes the first task. -/
theorem pop_keyless {queue : List (TaskNode α)} (hid : ∀ t ∈ queue, t.requestId = r)
    (hkey : ∀ t ∈ queue, t.hasMatchUserCtx = false) (u : BitVec 64) :
    workerQueuePopByReqAndUserData queue r u = queue.head?.map fun t => (t, queue.tail) := by
  cases queue with
  | nil => rfl
  | cons t queue =>
    have hans : answersWakeUp r u t = true := by
      simp [answersWakeUp, hid t List.mem_cons_self, hkey t List.mem_cons_self]
    rw [workerQueuePopByReqAndUserData, Queue.popFirst, if_pos hans]
    rfl

/-- A call that is no cancel leaves the order. -/
theorem Lane.InOrder.setCall (h : L.InOrder B w₀) {c : κ} {pc : LaneCall}
    (hat : Lane.At { L with calls := Function.update L.calls c pc } w₀) (hpc : pc.cancels = false) :
    Lane.InOrder { L with calls := Function.update L.calls c pc } B w₀ where
  home := hat
  calm := (Function.forall_update_iff L.calls fun _ pc => pc.cancels = false).mpr
    ⟨hpc, fun c _ => h.calm c⟩
  queue := h.queue
  wakes := h.wakes
  outcome := h.outcome
  ran := h.ran

omit [DecidableEq κ] in
/-- Without keys every wake-up is answered by the head of the queue. -/
theorem Lane.InOrder.pop (h : L.InOrder B w₀) (hid : ∀ t ∈ B.queued, t.requestId = r)
    (hkey : ∀ t ∈ B.queued, t.hasMatchUserCtx = false) (u : BitVec 64) :
    workerQueuePopByReqAndUserData (L.queue w₀) r u
      = (L.queue w₀).head?.map fun t => (t, (L.queue w₀).tail) := by
  refine pop_keyless ?_ ?_ u <;> rw [h.queue]
  · exact fun t ht => hid t (List.mem_of_mem_drop ht)
  · exact fun t ht => hkey t (List.mem_of_mem_drop ht)

/-- An accepted wake-up goes to the end of the wake-ups. -/
theorem Lane.InOrder.pushWake (h : L.InOrder B w₀) {c : κ} (hat : L'.At w₀)
    (hs : LaneStep r L (.pushWake c) L') : L'.InOrder (B.next L (.pushWake c)) w₀ := by
  cases hs with
  | @pushWake _ u w hc =>
    obtain rfl : w = w₀ := h.home.calls c w (by rw [hc]; rfl)
    rw [show B.next L (.pushWake c) = { B with woken := B.woken ++ [u] } by
      simp only [LaneBook.next, hc]]
    refine ⟨hat, (Function.forall_update_iff L.calls fun _ pc => pc.cancels = false).mpr
      ⟨rfl, fun c _ => h.calm c⟩, h.queue, ?_, h.outcome, h.ran⟩
    show B.woken ++ [u] = L.served ++ Function.update L.wakes w (L.wakes w ++ [u]) w
    rw [Function.update_self, h.wakes, List.append_assoc]

/-- One wake-up more is served, and one task more has left the queue. -/
theorem Lane.InOrder.take (h : L.InOrder B w₀) (hid : ∀ t ∈ B.queued, t.requestId = r)
    (hkey : ∀ t ∈ B.queued, t.hasMatchUserCtx = false) {w : Nat} {task : TaskNode α}
    {u : BitVec 64} (hat : L'.At w₀) (hs : LaneStep r L (.take w task u) L') :
    L'.InOrder (B.next L (.take w task u)) w₀ := by
  cases hs with
  | @take _ _ us _ queue hexec hw hq =>
    obtain rfl := h.home.worker_of_wake hw
    rw [h.pop hid hkey u] at hq
    have hran := h.ran
    rw [hexec] at hran
    have hqueue := h.queue
    cases hcons : L.queue w with
    | nil =>
      rw [hcons] at hq
      cases hq
    | cons t rest =>
      rw [hcons] at hq hqueue
      cases hq
      have hget : B.queued[L.served.length]? = some task := by
        rw [← List.head?_drop, ← hqueue]
        rfl
      have hlen : (L.served ++ [u]).length = L.served.length + 1 := by simp
      refine ⟨hat, h.calm, ?_, ?_, ?_, ?_⟩
      · show Function.update L.queue w _ w = B.queued.drop (L.served ++ [u]).length
        rw [Function.update_self, hlen, ← List.drop_drop, ← hqueue]
        rfl
      · show B.woken = (L.served ++ [u]) ++ Function.update L.wakes w us w
        rw [Function.update_self, h.wakes, hw, List.append_assoc, List.singleton_append]
      · show B.outcomes ++ [some task]
          = (List.range (L.served ++ [u]).length).map fun k => B.queued[k]?
        rw [hlen, List.range_succ, List.map_append, ← h.outcome, List.map_singleton, hget]
      · show B.done ++ (Function.update L.exec w (.running task r u) w).now
          = B.queued.take (L.served ++ [u]).length
        rw [Function.update_self, hlen, List.take_add_one, hget, ← hran]
        simp [Exec.now]

/-- One wake-up more is served and finds nothing.  The queue is used up, so every task has been
    taken. -/
theorem Lane.InOrder.miss (h : L.InOrder B w₀) (hid : ∀ t ∈ B.queued, t.requestId = r)
    (hkey : ∀ t ∈ B.queued, t.hasMatchUserCtx = false) {w : Nat} {u : BitVec 64} (hat : L'.At w₀)
    (hs : LaneStep r L (.miss w u) L') : L'.InOrder (B.next L (.miss w u)) w₀ := by
  cases hs with
  | @miss _ _ us hexec hw hq =>
    obtain rfl := h.home.worker_of_wake hw
    rw [h.pop hid hkey u] at hq
    have hnil : B.queued.drop L.served.length = [] := by
      rw [← h.queue]
      cases hcons : L.queue w with
      | nil => rfl
      | cons t rest =>
        rw [hcons] at hq
        cases hq
    have hlong : B.queued.length ≤ L.served.length := List.drop_eq_nil_iff.mp hnil
    have hlen : (L.served ++ [u]).length = L.served.length + 1 := by simp
    refine ⟨hat, h.calm, ?_, ?_, ?_, ?_⟩
    · show L.queue w = B.queued.drop (L.served ++ [u]).length
      rw [hlen, h.queue, hnil, List.drop_eq_nil_of_le (by omega)]
    · show B.woken = (L.served ++ [u]) ++ Function.update L.wakes w us w
      rw [Function.update_self, h.wakes, hw, List.append_assoc, List.singleton_append]
    · show B.outcomes ++ [none]
        = (List.range (L.served ++ [u]).length).map fun k => B.queued[k]?
      rw [hlen, List.range_succ, List.map_append, ← h.outcome, List.map_singleton,
        List.getElem?_eq_none hlong]
    · show B.done ++ (L.exec w).now = B.queued.take (L.served ++ [u]).length
      rw [h.ran, hlen, List.take_of_length_le hlong, List.take_of_length_le (by omega)]

/-- The task that has run goes from its worker to the end of the list of done tasks. -/
theorem Lane.InOrder.finish (h : L.InOrder B w₀) {w : Nat} {ret : Int} (hat : L'.At w₀)
    (hs : LaneStep r L (.finish w ret) L') : L'.InOrder (B.next L (.finish w ret)) w₀ := by
  cases hs with
  | @finish _ task u _ hexec =>
    obtain rfl := h.home.worker_of_exec (w := w) (by rw [hexec]; simp)
    have hran := h.ran
    rw [hexec] at hran
    rw [show B.next L (.finish w ret) = { B with done := B.done ++ [task] } by
      simp only [LaneBook.next, hexec]]
    refine ⟨hat, h.calm, h.queue, h.wakes, h.outcome, ?_⟩
    show (B.done ++ [task]) ++ (Function.update L.exec w (.returned task r ret) w).now = _
    rw [Function.update_self, ← hran]
    simp [Exec.now]

/-- Every step of the lane but a cancel keeps the order. -/
theorem inOrder_step (h : L.InOrder B w₀) (hid : ∀ t ∈ B.queued, t.requestId = r)
    (hkey : ∀ t ∈ B.queued, t.hasMatchUserCtx = false) (hs : LaneStep r L l L')
    (hatt : ∀ c w nodes, l ≠ .attach c w nodes) (hcancel : ∀ c, l ≠ .lookCancel c) :
    L'.InOrder (B.next L l) w₀ := by
  have hat : L'.At w₀ := at_step h.home hs hatt
  cases hs with
  | tau => exact h
  | submit hc | giveUp hc | lookWake hc | dropWake hc => exact h.setCall hat rfl
  | attach => exact absurd rfl (hatt _ _ _)
  | lookCancel => exact absurd rfl (hcancel _)
  | @cancelQueue c _ hc | @uncount c _ hc =>
    have hcalm := h.calm c
    rw [hc] at hcalm
    cases hcalm
  | record hc =>
    exact ⟨hat, (Function.forall_update_iff L.calls fun _ pc => pc.cancels = false).mpr
      ⟨rfl, fun c _ => h.calm c⟩, h.queue, h.wakes, h.outcome, h.ran⟩
  | pushWake hc => exact h.pushWake hat (r := r) (.pushWake hc)
  | take hexec hw hq => exact h.take hid hkey hat (.take hexec hw hq)
  | miss hexec hw hq => exact h.miss hid hkey hat (.miss hexec hw hq)
  | finish hexec => exact h.finish hat (r := r) (.finish hexec)
  | @account w task ret hexec =>
    -- the task is done already, the worker only lets go of it
    obtain rfl := h.home.worker_of_exec (w := w) (by rw [hexec]; simp)
    have hran := h.ran
    rw [hexec] at hran
    refine ⟨hat, h.calm, h.queue, h.wakes, h.outcome, ?_⟩
    show B.done ++ (Function.update L.exec w .loop w).now = _
    rw [Function.update_self]
    exact hran

end Lane

/-! ## Every run

The lane along a run. -/

section Run

variable [DecidableEq κ] {workerCount : Nat} {st : Story κ α} {batch : Submission α}

omit [DecidableEq κ] in
/-- What the lane executes at its worker is what the pool executes. -/
theorem Lane.At.executing {r : ReqId} {s : PoolSys κ α} {w₀ : Nat} (h : (lane r s).At w₀) :
    s.Executing r ((lane r s).exec w₀).now := by
  have hlane : ∀ {w t u}, (s.workers w).exec = .running t r u →
      (lane r s).exec w = .running t r u := by
    intro w t u hrun
    rw [lane_exec, hrun, laneExec, if_pos rfl]
  have hhome : ∀ w t u, (s.workers w).exec = .running t r u → w = w₀ := by
    intro w t u hrun
    exact h.worker_of_exec (by rw [hlane hrun]; simp)
  cases hexec : (s.workers w₀).exec with
  | running t reqId u =>
    by_cases hr : reqId = r
    · rw [lane_exec, hexec, laneExec, if_pos hr]
      exact .one (by rw [hexec, hr]) fun w' t' u' hrun => hhome w' t' u' hrun
    · rw [lane_exec, hexec, laneExec, if_neg hr]
      refine .none fun w t' u' hrun => ?_
      obtain rfl := hhome w t' u' hrun
      rw [hexec] at hrun
      cases hrun
      exact hr rfl
  | loop =>
    rw [lane_exec, hexec]
    refine .none fun w t' u' hrun => ?_
    obtain rfl := hhome w t' u' hrun
    rw [hexec] at hrun
    cases hrun
  | returned t reqId ret =>
    have hnow : ((lane r s).exec w₀).now = [] := by
      rw [lane_exec, hexec, laneExec]
      split <;> rfl
    rw [hnow]
    refine .none fun w t' u' hrun => ?_
    obtain rfl := hhome w t' u' hrun
    rw [hexec] at hrun
    cases hrun

/-- **Per-request FIFO execution.**  Whatever the number of workers and however the wake-ups of the
    batch interleave with submissions, wake-ups, executions and cancels of other requests, its tasks
    are executed one at a time in submission order, the `k`-th processed wake-up for the `k`-th
    task; only wake-ups past the last task find none. -/
theorem fifo (hkey : ∀ t ∈ batch.tasks, t.hasMatchUserCtx = false)
    (h : (storySystem κ α workerCount).Reach (OnlyBatch batch) st) : Fifo batch st := by
  have hkeep : bookOf batch.requestId st = .blank ∧ (lane batch.requestId st.pool).Untouched ∨
      queuedOf batch.requestId st.pool.log ≠ [] ∧
        List.Forall₂ batch.Created batch.tasks (bookOf batch.requestId st).queued ∧
        ∃ w₀, (lane batch.requestId st.pool).InOrder (bookOf batch.requestId st) w₀ := by
    refine sole_reach (J := fun B L => List.Forall₂ batch.Created batch.tasks B.queued ∧
      ∃ w₀, L.InOrder B w₀) ?_ ?_ ?_ ?_ ?_ h
    · intro st a ha
      cases a with
      | advance c alloc => exact fun sub w nodes hc hid => (ha sub w nodes hc hid).2
      | _ => trivial
    · exact fun st c ha => absurd rfl ha
    · rintro st a alloc c w nodes sub ha rfl hc hid hnodes hne hL
      obtain ⟨rfl, -⟩ := ha sub w nodes hc hid
      have hserved : ((lane sub.requestId st.pool).attached c w nodes).served = [] := hL.served
      refine ⟨hnodes, w, hL.at_attached c w nodes, ?_, ?_, ?_, ?_, ?_⟩
      · refine (Function.forall_update_iff _ fun _ pc => LaneCall.cancels pc = false).mpr
          ⟨rfl, fun c' _ => ?_⟩
        rcases hL.calls c' with hc' | hc' <;> rw [hc'] <;> rfl
      · show Function.update (lane sub.requestId st.pool).queue w _ w = _
        rw [Function.update_self, hL.queue, hserved]
        rfl
      · rw [hserved]
        exact (hL.wakes w).symm
      · rw [hserved]
        rfl
      · rw [hserved]
        show [] ++ ((lane sub.requestId st.pool).exec w).now = _
        rw [hL.exec w]
        rfl
    · rintro st a l L' ha hexp ⟨hnodes, w₀, hord⟩ hl hatt
      rw [next_queued _ _ hatt]
      refine ⟨hnodes, w₀, inOrder_step hord (requestId_of_created hnodes) ?_ hl hatt ?_⟩
      · intro t ht
        obtain ⟨src, hsrc, taskId, rfl⟩ := created_of_mem hnodes ht
        exact hkey src hsrc
      · rintro c rfl
        cases hexp
        exact ha rfl
    · exact fun st c ha => absurd rfl ha
  rcases hkeep with ⟨hblank, hL⟩ | ⟨-, hnodes, w₀, hord⟩
  · have hserved : servedOf batch.requestId st.pool.log = [] := hL.served
    have hqueued : queuedOf batch.requestId st.pool.log = [] := congrArg LaneBook.queued hblank
    refine ⟨.inl ⟨hqueued, hserved⟩, ?_, ?_, [], .none fun w t u hrun => ?_, ?_⟩
    · rw [hserved]
      exact List.nil_prefix
    · rw [hserved]
      exact congrArg LaneBook.outcomes hblank
    · have hloop := hL.exec w
      rw [lane_exec, hrun, laneExec, if_pos rfl] at hloop
      cases hloop
    · rw [hqueued, List.take_nil, List.append_nil]
      exact congrArg LaneBook.done hblank
  · exact ⟨.inr hnodes, ⟨_, hord.wakes.symm⟩, hord.outcome, _, hord.home.executing, hord.ran⟩

end Run

/-- Two tasks without match key, and one of an id in the same bucket of the request table. -/
def keylessPair : Submission Nat :=
  ⟨false, [⟨0#64, 7#64, 1, false, 0#64⟩, ⟨0#64, 7#64, 2, false, 0#64⟩], none, none⟩

def neighbour : Submission Nat := ⟨true, [⟨0#64, 1031#64, 3, false, 0#64⟩], none, none⟩

deriving instance DecidableEq for Submission

/-- `OnlyBatch`, decided. -/
def onlyBatchb (batch : Submission Nat) (st : Story Nat Nat) : PoolAction Nat Nat → Bool
  | .advance c _ =>
    match st.pool.calls c with
    | .attaching sub _ _ => sub.requestId != batch.requestId ||
        (decide (sub = batch) && (queuedOf batch.requestId st.pool.log).isEmpty)
    | _ => true
  | .cancel _ reqId => reqId != batch.requestId
  | _ => true

theorem onlyBatch_of_b {batch : Submission Nat} (st : Story Nat Nat) (a : PoolAction Nat Nat)
    (h : onlyBatchb batch st a = true) : OnlyBatch batch st a := by
  cases a with
  | advance c alloc =>
    intro sub w nodes hc hid
    simpa [onlyBatchb, hc, hid] using h
  | cancel c reqId => simpa [onlyBatchb, OnlyBatch] using h
  | _ => trivial

/-- Both are queued on the one worker; three wake-ups of the pair are accepted, one of the neighbour
    between them, and all are processed. -/
def threeWakeUps : List (PoolAction Nat Nat) :=
  .submit 0 keylessPair .ok :: List.replicate 5 (.advance 0 .ok) ++
  .submit 1 neighbour .ok :: List.replicate 5 (.advance 1 .ok) ++
  [.wake 2 7#64 5#64, .advance 2 .ok, .collect 2, .wake 2 1031#64 9#64, .advance 2 .ok, .collect 2,
    .wake 2 7#64 6#64, .wake 3 7#64 8#64, .advance 3 .ok, .advance 2 .ok] ++
  (List.replicate 4 [.pop 0, .finish 0 0, .account 0]).flatten.dropLast.dropLast

theorem fifo_three_wakeUps : ∃ st : Story Nat Nat, Fifo keylessPair st ∧
    (outcomesOf 7#64 st.pool.log).map (Option.map fun t => t.taskArg.userArg)
      = [some 1, some 2, none] := by
  obtain ⟨st, hr, hout⟩ := storySystem_exec (n := 1) (onlyBatchb keylessPair)
    onlyBatch_of_b threeWakeUps (fun st => decide ((outcomesOf 7#64 st.pool.log).map
      (Option.map fun t => t.taskArg.userArg) = [some 1, some 2, none])) (by decide +kernel)
  exact ⟨st, fifo (by decide) hr, of_decide_eq_true hout⟩

end OsTransport
