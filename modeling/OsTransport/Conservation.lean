/-
  No task of the pool is lost or duplicated.

  A submitted task that the pool accepts is, from then on, in exactly one place: in the queue of
  one worker, in the hands of one worker, executed, or cancelled.  The tasks held by workers, the
  executed and the cancelled ones are together the accepted ones (`Placed`).  This is an equation of
  bags; the task ids make the tasks distinct (`OsTransport.PoolBooks`), so that it says of each
  single task where it is.

  What callers are told agrees with it in the runs in which a single submission reads the id of its
  task before the task is freed, and no cancel removes 2^31 tasks (`conserved`).  Nothing in the
  source makes a single submission do so: `id_read_too_late` is a run in which the task has been
  executed and freed by then, and whatever is in that memory is returned as its id.

  The proof has one invariant for each thing `Conserved` says:

  1. `placed_step`: each section moves a bag of tasks from one place to another, and the sum is
     kept.  `Placed.attach` is the only one that adds to it, and adds what the history records;
  2. the ids that the history records are distinct and not 0 (`Numbered`, of `PoolBooks`), so a bag
     without repetitions is a set: `Placed.exists_place` gives a place and `Placed.place_unique`
     says that it is the only one;
  3. a completion callback is called by the worker that has executed the task or by the cancel that
     has removed it, with the outcome of the place (`filter_completions`);
  4. what callers were told is compared with the history in `Answered`, also of `PoolBooks`.

  `books_reach` is the induction over runs, with 1, 2 and 4 side by side.
-/
import OsTransport.PoolBooks

namespace OsTransport

open Transition Total

variable {κ α : Type*}

/-! ## Places

What the workers hold, against the three lists the log keeps. -/

/-- The tasks a worker holds: those in its queue, and the one it executes. -/
def heldTasks (worker : WorkerThread α) : Multiset (TaskNode α) :=
  worker.queue +
    match worker.exec with
    | .running task _ _ => {task}
    | _ => 0

/-- The workers hold the tasks `T`; with the executed and the cancelled ones they are the accepted
    tasks, and every executed task had its completion callback. -/
structure Placed (s : PoolSys κ α) (T : Multiset (TaskNode α)) : Prop where
  held : HasTotal heldTasks s.workers T
  places : T + ((executed s.log).map Prod.fst : List (TaskNode α)) + (removedTasks s.log)
    = (accepted s.log : Multiset (TaskNode α))
  completed : completions s.log = (executed s.log).flatMap completionOf

section Places

variable {s s' : PoolSys κ α} {T : Multiset (TaskNode α)}

/-- A step that moves no task. -/
theorem Placed.same (h : Placed s T) (hheld : ∀ w, heldTasks (s'.workers w) = heldTasks (s.workers w))
    {events : List (PoolEvent κ α)} (hlog : s'.log = s.log ++ events)
    (hev : accepted events = [] ∧ executed events = [] ∧ removedTasks events = [] ∧
      completions events = []) : Placed s' T := by
  obtain ⟨hacc, hexe, hrem, hcomp⟩ := hev
  refine ⟨h.held.congr hheld, ?_, ?_⟩
  · rw [hlog, accepted_append, executed_append, removedTasks_append, hacc, hexe, hrem]
    simpa using h.places
  · rw [hlog, completions_append, executed_append, hcomp, hexe]
    simpa using h.completed

/-- A step that touches no queue moves no task. -/
theorem Placed.quiet (h : Placed s T) (hq : PoolSys.Quiet s s') : Placed s' T := by
  refine h.same (fun w => ?_) (hq.log.trans (List.append_nil _).symm) ⟨rfl, rfl, rfl, rfl⟩
  unfold heldTasks
  rw [hq.queue, hq.exec]

/-- A worker has the nodes that are appended to its queue. -/
theorem heldTasks_attach (worker : WorkerThread α) (nodes : List (TaskNode α)) :
    heldTasks (attachNodesToWorker worker nodes) = heldTasks worker + (nodes : Multiset (TaskNode α)) := by
  unfold heldTasks attachNodesToWorker
  rw [← Multiset.coe_add]
  ac_rfl

/-- What is cancelled leaves the worker. -/
theorem heldTasks_cancel (worker : WorkerThread α) (reqId : ReqId) :
    heldTasks worker = heldTasks (cancelInWorkerQueue worker reqId)
      + (cancelledNodes worker reqId : Multiset (TaskNode α)) := by
  have hperm : (worker.queue : Multiset (TaskNode α)) =
      (cancelledNodes worker reqId : Multiset (TaskNode α)) +
        ((cancelInWorkerQueue worker reqId).queue : Multiset (TaskNode α)) :=
    (Multiset.coe_eq_coe.mpr (List.filter_append_perm
      (fun t : TaskNode α => t.requestId == reqId) worker.queue)).symm
  unfold heldTasks
  rw [hperm]
  show _ = ((cancelInWorkerQueue worker reqId).queue : Multiset (TaskNode α)) + _ + _
  ac_rfl

/-- A task that is taken stays with its worker. -/
theorem heldTasks_take {worker : WorkerThread α} {queue : List (TaskNode α)} {task : TaskNode α}
    {r : ReqId} {u : BitVec 64} {pending : List PendingReqNode} (hexec : worker.exec = .loop)
    (hpop : workerQueuePopByReqAndUserData worker.queue r u = some (task, queue)) :
    heldTasks ⟨queue, pending, .busy, .running task r u⟩ = heldTasks worker := by
  obtain ⟨l₁, l₂, hl, rfl, -, -⟩ := Queue.popFirst_some hpop
  unfold heldTasks
  rw [hexec, hl]
  show ((l₁ ++ l₂ : List (TaskNode α)) : Multiset (TaskNode α)) + {task}
    = (l₁ ++ task :: l₂ : List (TaskNode α)) + 0
  rw [← Multiset.coe_add, ← Multiset.coe_add, ← Multiset.cons_coe, ← Multiset.singleton_add]
  simp only [add_zero]
  ac_rfl

/-- A task that has returned leaves it. -/
theorem heldTasks_finish {worker : WorkerThread α} {task : TaskNode α} {r : ReqId} {u : BitVec 64}
    (ret : Int) (hexec : worker.exec = .running task r u) :
    heldTasks worker = heldTasks { worker with exec := .returned task r ret } + {task} := by
  unfold heldTasks
  rw [hexec]
  simp

/-- The count-down holds no task any more. -/
theorem heldTasks_account {worker : WorkerThread α} {task : TaskNode α} {r : ReqId} {ret : Int}
    (hexec : worker.exec = .returned task r ret) :
    heldTasks { worker with exec := .loop } = heldTasks worker := by
  unfold heldTasks
  rw [hexec]

/-- Nodes attached to a queue become accepted. -/
theorem Placed.attach (h : Placed s T) {c : κ} {w : Nat} {nodes : List (TaskNode α)}
    (hwork : s'.workers = Function.update s.workers w (attachNodesToWorker (s.workers w) nodes))
    (hlog : s'.log = s.log ++ nodes.map (.attached c w)) :
    Placed s' (T + (nodes : Multiset (TaskNode α))) := by
  obtain ⟨hacc, hexe, hrem, hcomp⟩ := log_attached c w nodes
  refine ⟨?_, ?_, ?_⟩
  · rw [hwork]
    refine h.held.update ?_
    rw [heldTasks_attach]
    ac_rfl
  · rw [hlog, accepted_append, executed_append, removedTasks_append, hacc, hexe, hrem,
      List.append_nil, List.append_nil, ← Multiset.coe_add, ← h.places]
    ac_rfl
  · rw [hlog, completions_append, executed_append, hcomp, hexe]
    simpa using h.completed

/-- Removed tasks leave the queue. -/
theorem Placed.remove (h : Placed s T) {c : κ} {w : Nat} {reqId : ReqId}
    (hwork : s'.workers = Function.update s.workers w (cancelInWorkerQueue (s.workers w) reqId))
    (hlog : s'.log = s.log ++ (cancelledNodes (s.workers w) reqId).map (.cancelled c)) :
    ∃ T', Placed s' T' := by
  obtain ⟨rest, rfl, hrest⟩ := h.held.replace w
  obtain ⟨hacc, hexe, hrem, hcomp⟩ := log_cancelled c (cancelledNodes (s.workers w) reqId)
  refine ⟨rest + heldTasks (cancelInWorkerQueue (s.workers w) reqId), ?_, ?_, ?_⟩
  · rw [hwork]
    exact hrest _
  · rw [hlog, accepted_append, executed_append, removedTasks_append, hacc, hexe, hrem,
      List.append_nil, List.append_nil, ← Multiset.coe_add, ← h.places,
      heldTasks_cancel (s.workers w) reqId]
    ac_rfl
  · rw [hlog, completions_append, executed_append, hcomp, hexe]
    simpa using h.completed

/-- A task whose function returns is executed, and its callback is called. -/
theorem Placed.finish (h : Placed s T) {w : Nat} {task : TaskNode α} {r : ReqId} {u : BitVec 64}
    {ret : Int} (hexec : (s.workers w).exec = .running task r u)
    (hwork : s'.workers =
      Function.update s.workers w { s.workers w with exec := .returned task r ret })
    (hlog : s'.log = s.log ++ PoolSys.finishEvents w task ret) : ∃ T', Placed s' T' := by
  obtain ⟨rest, rfl, hrest⟩ := h.held.replace w
  obtain ⟨hacc, hexe, hrem, hcomp⟩ := log_finished (κ := κ) w task ret
  refine ⟨rest + heldTasks { s.workers w with exec := .returned task r ret }, ?_, ?_, ?_⟩
  · rw [hwork]
    exact hrest _
  · rw [hlog, accepted_append, executed_append, removedTasks_append, hacc, hexe, hrem,
      List.append_nil, List.append_nil, List.map_append, ← Multiset.coe_add, ← h.places,
      heldTasks_finish ret hexec]
    show _ + (_ + ({task} : Multiset (TaskNode α))) + _ = _
    ac_rfl
  · rw [hlog, completions_append, executed_append, hcomp, hexe, List.flatMap_append, h.completed]
    simp

/-- An update that keeps the tasks of one worker keeps everybody's. -/
theorem heldTasks_update {w : Nat} {wk : WorkerThread α} (hwk : heldTasks wk = heldTasks (s.workers w))
    (w' : Nat) : heldTasks (Function.update s.workers w wk w') = heldTasks (s.workers w') := by
  by_cases hw : w' = w
  · subst hw
    rw [Function.update_self, hwk]
  · rw [Function.update_of_ne hw]

/-- **One step keeps every accepted task in its place**, or moves it. -/
theorem placed_step [DecidableEq κ] {a : PoolAction κ α} (h : Placed s T) (hs : s.step a = some s') :
    ∃ T', Placed s' T' := by
  cases a with
  | submit c sub alloc => exact ⟨T, h.quiet (PoolSys.unchanged_submit hs).quiet⟩
  | wake c r u => exact ⟨T, h.quiet (PoolSys.unchanged_wake hs).quiet⟩
  | cancel c r => exact ⟨T, h.quiet (PoolSys.unchanged_cancel hs).quiet⟩
  | collect c => exact ⟨T, h.quiet (PoolSys.unchanged_collect hs).quiet⟩
  | advance c alloc =>
    rcases PoolSys.advance_effect hs with hq | ⟨sub, w, nodes, -, rfl⟩ | ⟨reqId, w, pc, -, rfl, -⟩
    · exact ⟨T, h.quiet hq⟩
    · exact ⟨_, h.attach (c := c) (w := w) rfl rfl⟩
    · have hremove : ∃ T', Placed (((s.setWorker w (cancelInWorkerQueue (s.workers w) reqId)).record
          ((cancelledNodes (s.workers w) reqId).map (.cancelled c))).setCall c pc) T' :=
        h.remove rfl rfl
      exact hremove
  | pop w =>
    obtain ⟨hexec, -, ⟨-, rfl⟩ | ⟨p, pending, task, queue, -, hpop, rfl⟩ | ⟨p, pending, -, -, rfl⟩⟩ :=
      pop_cases hs
    · exact ⟨T, h.same (heldTasks_update rfl) (List.append_nil _).symm ⟨rfl, rfl, rfl, rfl⟩⟩
    · exact ⟨T, h.same (heldTasks_update (heldTasks_take hexec hpop)) rfl ⟨rfl, rfl, rfl, rfl⟩⟩
    · exact ⟨T, h.same (heldTasks_update rfl) rfl ⟨rfl, rfl, rfl, rfl⟩⟩
  | finish w ret =>
    simp only [PoolSys.step, PoolSys.finish] at hs
    split at hs
    · rename_i task r u hexec
      cases hs
      exact h.finish hexec rfl rfl
    · cases hs
  | account w =>
    simp only [PoolSys.step, PoolSys.account] at hs
    split at hs
    · rename_i task r ret hexec
      cases hs
      exact ⟨T, h.same (heldTasks_update (heldTasks_account hexec)) rfl (log_batchCb _)⟩
    · cases hs

end Places

/-! ## Every run

From bags to single tasks: ids tell tasks apart, so what is in a bag once is in one place. -/

/-- Where an accepted task can be. -/
inductive Place
  | queued (w : Nat)
  | executing (w : Nat)
  | executed
  | cancelled
  deriving DecidableEq, Repr

/-- Task `t` is at `p`. -/
def PoolSys.TaskAt (s : PoolSys κ α) (t : TaskNode α) : Place → Prop
  | .queued w => t ∈ (s.workers w).queue
  | .executing w => ∃ r u, (s.workers w).exec = .running t r u
  | .executed => ∃ ret, (t, ret) ∈ executed s.log
  | .cancelled => t ∈ removedTasks s.log

/-- Whether a worker executes a task. -/
def Exec.runs : Exec α → Nat
  | .running _ _ _ => 1
  | _ => 0

/-- What is true of the tasks of a pool that has not been given too many.  Where a task is, that it
    is nowhere else, what its callback was told and what its submitter was. -/
structure Conserved (h : PoolHistory κ α) : Prop where
  /-- An accepted task is in exactly one place, -/
  place : ∀ t ∈ accepted h.pool.log, ∃! p, h.pool.TaskAt t p
  /-- in a queue once, executed once, cancelled once. -/
  once : (∀ w, (h.pool.workers w).queue.Nodup) ∧ ((executed h.pool.log).map Prod.fst).Nodup ∧
    (removedTasks h.pool.log).Nodup
  /-- Whatever is in one of the places was accepted. -/
  only : ∀ t p, h.pool.TaskAt t p → t ∈ accepted h.pool.log
  /-- The numbers add up, the counts of cancels included. -/
  numbers : ∃ queued executing removed : Nat,
    HasTotal (fun worker => worker.queue.length) h.pool.workers queued ∧
    HasTotal (fun worker => worker.exec.runs) h.pool.workers executing ∧
    HasTotal Call.dueRemoved h.pool.calls removed ∧
    ((accepted h.pool.log).length : Int) = queued + executing + (executed h.pool.log).length
      + (returnedCounts h.results + removed)
  /-- An executed task has had its callback, once, with success exactly if it returned 0; -/
  callback : ∀ x ∈ executed h.pool.log,
    (completions h.pool.log).filter (fun e => e.2.1 == x.1.taskId) =
      x.1.taskArg.completeCb.toList.map fun cb => (cb, x.1.taskId, x.2 == 0)
  /-- no other task has had one. -/
  silent : ∀ t ∈ accepted h.pool.log, ¬ h.pool.TaskAt t .executed →
    (completions h.pool.log).filter (fun e => e.2.1 == t.taskId) = []
  /-- The ids callers were given, or are about to be given, are those of the accepted tasks, and
      they are distinct and not zero. -/
  ids : ∃ due, HasTotal (fun call => (Call.dueIds call : Multiset (BitVec 64))) h.pool.calls due ∧
    (∀ given, Given h.results given →
      (given : Multiset (BitVec 64)) + due = idBag (accepted h.pool.log)) ∧
    (idBag (accepted h.pool.log)).Nodup ∧ 0#64 ∉ idBag (accepted h.pool.log)

section Run

variable {s : PoolSys κ α} {T : Multiset (TaskNode α)} {t : TaskNode α}

theorem mem_heldTasks {worker : WorkerThread α} :
    t ∈ heldTasks worker ↔ t ∈ worker.queue ∨ ∃ r u, worker.exec = .running t r u := by
  unfold heldTasks
  rw [Multiset.mem_add]
  cases hexec : worker.exec with
  | running task r u =>
    simp only [Multiset.mem_coe, Multiset.mem_singleton, Exec.running.injEq]
    constructor
    · rintro (hq | rfl)
      · exact .inl hq
      · exact .inr ⟨r, u, rfl, rfl, rfl⟩
    · rintro (hq | ⟨_, _, rfl, _⟩)
      · exact .inl hq
      · exact .inr rfl
  | _ => simp

/-- A task is in the hands of a worker, executed or cancelled. -/
theorem Placed.exists_place (h : Placed s T) (ht : t ∈ accepted s.log) : ∃ p, s.TaskAt t p := by
  have hmem : t ∈ (accepted s.log : Multiset (TaskNode α)) := ht
  rw [← h.places, Multiset.mem_add, Multiset.mem_add] at hmem
  rcases hmem with (hT | hexe) | hrem
  · obtain ⟨w, hw⟩ := h.held.exists_mem hT
    rcases mem_heldTasks.mp hw with hq | hx
    · exact ⟨.queued w, hq⟩
    · exact ⟨.executing w, hx⟩
  · obtain ⟨⟨t', ret⟩, hret, rfl⟩ := List.mem_map.mp (Multiset.mem_coe.mp hexe)
    exact ⟨.executed, ret, hret⟩
  · exact ⟨.cancelled, hrem⟩

/-- With ids of their own, no task is held, executed or removed twice. -/
theorem Placed.nodup (h : Placed s T) (hids : (idBag (accepted s.log)).Nodup) :
    (T + ((executed s.log).map Prod.fst : List (TaskNode α)) +
      (removedTasks s.log : Multiset (TaskNode α))).Nodup := by
  rw [h.places]
  exact Multiset.coe_nodup.mpr (List.Nodup.of_map _ (Multiset.coe_nodup.mp hids))

/-- In a sum without repetition the parts are disjoint. -/
theorem disjoint_of_nodup {β : Type*} {A B : Multiset β} (h : (A + B).Nodup) {x : β} (hA : x ∈ A) :
    x ∉ B := fun hB => Multiset.disjoint_left.mp (Multiset.nodup_add.mp h).2.2 hA hB

/-- Two workers do not hold one task. -/
theorem Placed.worker_eq (h : Placed s T) (hT : T.Nodup) {w w' : Nat}
    (hw : t ∈ heldTasks (s.workers w)) (hw' : t ∈ heldTasks (s.workers w')) : w = w' := by
  by_contra hne
  exact disjoint_of_nodup (Multiset.nodup_of_le (h.held.add_le hne) hT) hw hw'

/-- Nor does one worker hold it twice. -/
theorem Placed.not_both (h : Placed s T) (hT : T.Nodup) {w : Nat} {r : ReqId} {u : BitVec 64}
    (hexec : (s.workers w).exec = .running t r u) : t ∉ (s.workers w).queue := by
  have hnodup := Multiset.nodup_of_le (h.held.le w) hT
  unfold heldTasks at hnodup
  rw [hexec] at hnodup
  intro hq
  exact disjoint_of_nodup hnodup hq (Multiset.mem_singleton_self t)

/-- So every task is in one place. -/
theorem Placed.place_unique (h : Placed s T) (hids : (idBag (accepted s.log)).Nodup) {p p' : Place}
    (hp : s.TaskAt t p) (hp' : s.TaskAt t p') : p = p' := by
  have hall := h.nodup hids
  have hTX := (Multiset.nodup_add.mp hall).1
  have hT := (Multiset.nodup_add.mp hTX).1
  -- the three bags are disjoint
  have hheld : ∀ {w}, t ∈ heldTasks (s.workers w) → ¬ s.TaskAt t .executed ∧ ¬ s.TaskAt t .cancelled := by
    intro w hw
    have hmem : t ∈ T := Multiset.mem_of_le (h.held.le w) hw
    constructor
    · rintro ⟨ret, hret⟩
      exact disjoint_of_nodup hTX hmem (List.mem_map.mpr ⟨_, hret, rfl⟩)
    · exact disjoint_of_nodup hall (Multiset.mem_add.mpr (.inl hmem))
  have hexe : s.TaskAt t .executed → ¬ s.TaskAt t .cancelled := by
    rintro ⟨ret, hret⟩
    exact disjoint_of_nodup hall
      (Multiset.mem_add.mpr (.inr (List.mem_map.mpr ⟨_, hret, rfl⟩)))
  have hqueued : ∀ {w}, s.TaskAt t (.queued w) → t ∈ heldTasks (s.workers w) :=
    fun hq => mem_heldTasks.mpr (.inl hq)
  have hrun : ∀ {w}, s.TaskAt t (.executing w) → t ∈ heldTasks (s.workers w) :=
    fun hx => mem_heldTasks.mpr (.inr hx)
  cases p with
  | queued w =>
    cases p' with
    | queued w' => rw [h.worker_eq hT (hqueued hp) (hqueued hp')]
    | executing w' =>
      obtain rfl := h.worker_eq hT (hqueued hp) (hrun hp')
      obtain ⟨r, u, hexec⟩ := hp'
      exact absurd hp (h.not_both hT hexec)
    | executed => exact absurd hp' (hheld (hqueued hp)).1
    | cancelled => exact absurd hp' (hheld (hqueued hp)).2
  | executing w =>
    cases p' with
    | queued w' =>
      obtain rfl := h.worker_eq hT (hrun hp) (hqueued hp')
      obtain ⟨r, u, hexec⟩ := hp
      exact absurd hp' (h.not_both hT hexec)
    | executing w' => rw [h.worker_eq hT (hrun hp) (hrun hp')]
    | executed => exact absurd hp' (hheld (hrun hp)).1
    | cancelled => exact absurd hp' (hheld (hrun hp)).2
  | executed =>
    cases p' with
    | queued w' => exact absurd hp (hheld (hqueued hp')).1
    | executing w' => exact absurd hp (hheld (hrun hp')).1
    | executed => rfl
    | cancelled => exact absurd hp' (hexe hp)
  | cancelled =>
    cases p' with
    | queued w' => exact absurd hp (hheld (hqueued hp')).2
    | executing w' => exact absurd hp (hheld (hrun hp')).2
    | executed => exact absurd hp (hexe hp')
    | cancelled => rfl

/-- A task that is anywhere has been accepted. -/
theorem Placed.accepted_of_at (h : Placed s T) {p : Place} (hp : s.TaskAt t p) :
    t ∈ accepted s.log := by
  have hmem : t ∈ (accepted s.log : Multiset (TaskNode α)) := by
    rw [← h.places, Multiset.mem_add, Multiset.mem_add]
    cases p with
    | queued w => exact .inl (.inl (Multiset.mem_of_le (h.held.le w) (mem_heldTasks.mpr (.inl hp))))
    | executing w =>
      exact .inl (.inl (Multiset.mem_of_le (h.held.le w) (mem_heldTasks.mpr (.inr hp))))
    | executed =>
      obtain ⟨ret, hret⟩ := hp
      exact .inl (.inr (List.mem_map.mpr ⟨_, hret, rfl⟩))
    | cancelled => exact .inr hp
  exact hmem

/-- As numbers: the accepted tasks are the queued, the executing, the executed and the removed. -/
theorem Placed.numbers (h : Placed s T) :
    ∃ queued executing : Nat, HasTotal (fun worker => worker.queue.length) s.workers queued ∧
      HasTotal (fun worker => worker.exec.runs) s.workers executing ∧
      (accepted s.log).length =
        queued + executing + (executed s.log).length + (removedTasks s.log).length := by
  have hcard : ∀ worker : WorkerThread α,
      (heldTasks worker).card = worker.queue.length + worker.exec.runs := by
    intro worker
    unfold heldTasks
    rw [Multiset.card_add, Multiset.coe_card]
    cases worker.exec <;> rfl
  have hzero : ∀ worker : WorkerThread α, heldTasks worker = 0 →
      worker.queue.length = 0 ∧ worker.exec.runs = 0 := by
    intro worker hw
    have := hcard worker
    rw [hw, Multiset.card_zero] at this
    omega
  obtain ⟨q, hq⟩ := h.held.exists_of_zero fun worker hw => (hzero worker hw).1
  obtain ⟨e, he⟩ := h.held.exists_of_zero fun worker hw => (hzero worker hw).2
  refine ⟨q, e, hq, he, ?_⟩
  have hsum : T.card = q + e :=
    (h.held.map Multiset.cardHom).unique ((hq.add he).congr fun w => hcard _)
  have hlen := congrArg Multiset.card h.places
  rw [Multiset.card_add, Multiset.card_add, Multiset.coe_card, Multiset.coe_card, Multiset.coe_card,
    List.length_map, hsum] at hlen
  omega

end Run

/-! ### Completion callbacks

A completion callback is told the id of its task and whether the task function returned 0. -/

/-- The wrapper of a task has the id of the task.  The completion callback is given the id in the
    wrapper, and the caller the id of the task. -/
def TaskNode.Wrapped (t : TaskNode α) : Prop := t.taskArg.taskId = t.taskId

/-- A completion callback is told of its own task. -/
theorem filter_completionOf {x : TaskNode α × Int} (hx : x.1.Wrapped) (id : BitVec 64) :
    (completionOf x).filter (fun e => e.2.1 == id) =
      if x.1.taskId = id then completionOf x else [] := by
  have hid : x.1.taskArg.taskId = x.1.taskId := hx
  unfold completionOf
  by_cases h : x.1.taskId = id <;> cases x.1.taskArg.completeCb <;> simp [hid, h]

/-- No executed task has the id: no callback does. -/
theorem filter_completions_none {id : BitVec 64} : ∀ {l : List (TaskNode α × Int)},
    (∀ x ∈ l, x.1.Wrapped) → (∀ x ∈ l, x.1.taskId ≠ id) →
      (l.flatMap completionOf).filter (fun e => e.2.1 == id) = []
  | [], _, _ => rfl
  | x :: l, hw, hne => by
      rw [List.flatMap_cons, List.filter_append, filter_completionOf (hw x List.mem_cons_self),
        if_neg (hne x List.mem_cons_self)]
      exact filter_completions_none (fun y hy => hw y (List.mem_cons_of_mem _ hy))
        (fun y hy => hne y (List.mem_cons_of_mem _ hy))

/-- The callbacks with the id of an executed task are those of this task. -/
theorem filter_completions {x : TaskNode α × Int} : ∀ {l : List (TaskNode α × Int)},
    (∀ y ∈ l, y.1.Wrapped) → (l.map fun y => y.1.taskId).Nodup → x ∈ l →
      (l.flatMap completionOf).filter (fun e => e.2.1 == x.1.taskId) = completionOf x
  | y :: l, hw, hnodup, hx => by
      obtain ⟨hnot, hnodup⟩ := List.nodup_cons.mp hnodup
      have htail : ∀ z ∈ l, z.1.Wrapped := fun z hz => hw z (List.mem_cons_of_mem _ hz)
      rw [List.flatMap_cons, List.filter_append, filter_completionOf (hw y List.mem_cons_self)]
      rcases List.mem_cons.mp hx with rfl | hx
      · rw [if_pos rfl, filter_completions_none htail, List.append_nil]
        intro z hz heq
        exact hnot (List.mem_map.mpr ⟨z, hz, heq⟩)
      · rw [if_neg fun heq => hnot (List.mem_map.mpr ⟨x, hx, heq.symm⟩), List.nil_append]
        exact filter_completions htail hnodup hx

section Reached

variable [DecidableEq κ] {workerCount : Nat} {h : PoolHistory κ α}

/-- Accepted tasks are wrapped under their own id. -/
theorem wrapped_reach {s : PoolSys κ α} {ok : PoolSys κ α → PoolAction κ α → Prop}
    (hr : (poolSystem κ α workerCount).Reach ok s) : ∀ t ∈ accepted s.log, t.Wrapped := by
  refine System.Reach.invariant (I := fun s : PoolSys κ α => ∀ t ∈ accepted s.log, t.Wrapped) ?_ ?_ hr
  · rintro s rfl t ht
    cases ht
  · intro s a s' hr hI _ hs t ht
    obtain ⟨events, hlog, hev⟩ := PoolSys.log_effect hs
    rw [hlog, accepted_append] at ht
    rcases List.mem_append.mp ht with hold | hnew
    · exact hI t hold
    · rcases hev with hpass | ⟨c, al, sub, w, nodes, -, hcall, rfl⟩ | ⟨c, al, r, w, -, -, rfl⟩
      · obtain ⟨e, he, heq⟩ := List.mem_filterMap.mp hnew
        have hp := hpass e he
        cases e with
        | attached c w t' => cases hp
        | _ => cases heq
      · rw [(log_attached c w nodes).1] at hnew
        have hcarry := PoolSys.carries_reach hr c
        rw [hcall] at hcarry
        obtain ⟨src, -, id, rfl⟩ := created_of_mem hcarry.2 hnew
        rfl
      · rw [(log_cancelled c _).1] at hnew
        cases hnew

/-- A step of a pool that is not given too many tasks, whose single submissions return in time and
    whose cancels find few tasks. -/
def KeepsBooks (h : PoolHistory κ α) (a : HistoryAction κ α) : Prop :=
  FewTasks h a ∧ ReadsInTime h a ∧ CancelsFew h a

/-- The three books, in every run. -/
theorem books_reach (hr : (historySystem κ α workerCount).Reach KeepsBooks h) :
    (∃ T, Placed h.pool T) ∧ (∃ drawn ahead M, Numbered h drawn ahead M) ∧ ∃ R k, Answered h R k := by
  refine System.Reach.invariant (I := fun h : PoolHistory κ α => (∃ T, Placed h.pool T) ∧
    (∃ drawn ahead M, Numbered h drawn ahead M) ∧ ∃ R k, Answered h R k) ?_ ?_ hr
  · rintro h rfl
    refine ⟨⟨0, .zero fun _ => rfl, rfl, rfl⟩, ⟨0, 0, 0, ?_⟩, ⟨0, 0, ?_⟩⟩
    · exact ⟨.zero fun _ => rfl, .zero fun _ => rfl, rfl, Nat.le_refl _, (by decide : 0 < 2 ^ 64 - 1),
        Multiset.nodup_zero, fun id hid => absurd hid (Multiset.notMem_zero id), fun _ => trivial⟩
    · exact ⟨.zero fun _ => rfl, rfl, .zero fun _ => rfl, rfl, fun _ => Nat.two_pow_pos 31,
        List.not_mem_nil⟩
  · rintro h a h' hr ⟨⟨T, hT⟩, ⟨drawn, ahead, M, hn⟩, R, k, ha⟩ ⟨hfew, hread, hcancel⟩ hstep
    refine ⟨?_, numbered_step hn hfew hstep, answered_step ha (minted_reach hr)
      (PoolSys.carries_reach (history_reach hr)) hread hcancel hstep⟩
    rcases PoolHistory.step_cases hstep with ⟨b, s', -, hs, rfl⟩ | ⟨w, -, rfl⟩
    · exact placed_step hT hs
    · exact ⟨T, hT⟩

/-- In every run of the pool in which fewer than 2^64 - 1 tasks are submitted, single submissions
    read the ids of their tasks in time and no cancel removes 2^31 tasks, no task is lost or
    duplicated, and callers are told the truth. -/
theorem conserved (hr : (historySystem κ α workerCount).Reach KeepsBooks h) : Conserved h := by
  obtain ⟨⟨T, hT⟩, ⟨drawn, ahead, M, hn⟩, R, k, ha⟩ := books_reach hr
  have hids : (idBag (accepted h.pool.log)).Nodup :=
    Multiset.nodup_of_le (Multiset.le_add_left _ _) hn.distinct
  have hinj : ∀ t ∈ accepted h.pool.log, ∀ t' ∈ accepted h.pool.log, t.taskId = t'.taskId → t = t' :=
    fun t ht t' ht' => List.inj_on_of_nodup_map (Multiset.coe_nodup.mp hids) ht ht'
  have hwrapped := wrapped_reach (history_reach hr)
  have hexecuted : ∀ x ∈ executed h.pool.log, x.1 ∈ accepted h.pool.log :=
    fun x hx => hT.accepted_of_at (p := .executed) ⟨x.2, hx⟩
  have hall := hT.nodup hids
  have hTX := (Multiset.nodup_add.mp hall).1
  have honce : ((executed h.pool.log).map Prod.fst).Nodup :=
    Multiset.coe_nodup.mp (Multiset.nodup_add.mp hTX).2.1
  constructor
  · intro t ht
    obtain ⟨p, hp⟩ := hT.exists_place ht
    exact ⟨p, hp, fun p' hp' => hT.place_unique hids hp' hp⟩
  · refine ⟨fun w => ?_, honce, Multiset.coe_nodup.mp (Multiset.nodup_add.mp hall).2.1⟩
    have hw := Multiset.nodup_of_le (hT.held.le w) (Multiset.nodup_add.mp hTX).1
    exact Multiset.coe_nodup.mp (Multiset.nodup_add.mp hw).1
  · intro t p hp
    exact hT.accepted_of_at hp
  · obtain ⟨q, e, hq, he, hlen⟩ := hT.numbers
    refine ⟨q, e, k, hq, he, ha.dueRemoved, ?_⟩
    have hcounts := ha.counts
    omega
  · intro x hx
    have hnodup : ((executed h.pool.log).map fun y => y.1.taskId).Nodup := by
      have := honce.map_on (f := ThreadPoolTask.taskId) ?_
      · rwa [List.map_map] at this
      · intro t ht t' ht' heq
        obtain ⟨y, hy, rfl⟩ := List.mem_map.mp ht
        obtain ⟨y', hy', rfl⟩ := List.mem_map.mp ht'
        exact hinj _ (hexecuted y hy) _ (hexecuted y' hy') heq
    rw [hT.completed, filter_completions (fun y hy => hwrapped _ (hexecuted y hy)) hnodup hx]
    have hid : x.1.taskArg.taskId = x.1.taskId := hwrapped _ (hexecuted x hx)
    unfold completionOf
    rw [hid]
  · intro t ht hnot
    rw [hT.completed]
    refine filter_completions_none (fun y hy => hwrapped _ (hexecuted y hy)) ?_
    intro y hy heq
    obtain rfl := hinj _ (hexecuted y hy) _ ht heq
    exact hnot ⟨y.2, hy⟩
  · refine ⟨R, ha.due, fun given hgiven => given_eq ha.known hgiven ▸ ha.ids, hids, fun hzero => ?_⟩
    have := (hn.within _ (Multiset.mem_add.mpr (.inr hzero))).1
    exact absurd this (by decide)

end Reached

/-! ## Two runs

One in which the books are right, and one in which a task is freed before its id is read. -/

section Runs

/-- Whether a step meets the three conditions. -/
def keepsBooks (h : PoolHistory κ α) (a : HistoryAction κ α) : Bool :=
  decide (FewTasks h a) &&
  match a with
  | .pool (.collect c) =>
    match h.pool.calls c with
    | .done (.ofTasks w tasks) =>
      tasks.all fun n => (h.pool.allocated h.unfreed w).any fun t => t.taskArg.serial == n
    | _ => true
  | .pool (.advance c _) =>
    match h.pool.calls c with
    | .cancelling r w => decide ((cancelledNodes (h.pool.workers w) r).length < 2 ^ 31)
    | _ => true
  | _ => true

/-- The test of a step against the condition of the books. -/
theorem keepsBooks_sound (h : PoolHistory κ α) (a : HistoryAction κ α)
    (hok : keepsBooks h a = true) : KeepsBooks h a := by
  obtain ⟨hfew, hok⟩ := Bool.and_eq_true_iff.mp hok
  refine ⟨of_decide_eq_true hfew, ?_⟩
  cases a with
  | free w => exact ⟨trivial, trivial⟩
  | pool a =>
    cases a with
    | collect c =>
      refine ⟨fun w tasks hc n hn => ?_, trivial⟩
      simp only [hc] at hok
      obtain ⟨t, ht, hserial⟩ := List.any_eq_true.mp (List.all_eq_true.mp hok n hn)
      exact ⟨t, ht, beq_iff_eq.mp hserial⟩
    | advance c alloc =>
      refine ⟨trivial, fun r w hc => ?_⟩
      simp only [hc] at hok
      exact of_decide_eq_true hok
    | _ => exact ⟨trivial, trivial⟩

/-- A single task of request 7. -/
def onlyTask : Submission Unit := ⟨true, [⟨0#64, 7#64, (), false, 0#64⟩], some 4, none⟩

/-- Two tasks of request 7 without match key, in one batch. -/
def twoTasks : Submission Unit :=
  ⟨false, [⟨0#64, 7#64, (), false, 0#64⟩, ⟨0#64, 7#64, (), false, 0#64⟩], some 5, none⟩

/-- A single task is submitted and its id read; a batch follows, the first of the three tasks is
    executed and returns -1, the others are cancelled. -/
def runAndCancel : List (HistoryAction Unit Unit) :=
  [.pool (.submit () onlyTask .ok), .pool (.advance () .ok), .pool (.advance () .ok),
    .pool (.advance () .ok), .pool (.advance () .ok), .pool (.collect ()),
    .pool (.submit () twoTasks .ok), .pool (.advance () .ok), .pool (.advance () .ok),
    .pool (.advance () .ok), .pool (.advance () .ok), .pool (.advance () .ok),
    .pool (.advance () .ok), .pool (.collect ()),
    .pool (.wake () 7#64 0#64), .pool (.advance () .ok), .pool (.collect ()), .pool (.pop 0),
    .pool (.cancel () 7#64), .pool (.advance () .ok), .pool (.finish 0 (-1)),
    .pool (.advance () .ok), .pool (.collect ()), .pool (.account 0), .free 0]

/-- One task executed, two cancelled, one callback, three ids. -/
theorem conserved_three_tasks :
    ∃ h : PoolHistory Unit Unit, (historySystem Unit Unit 1).Reach KeepsBooks h ∧
      completions h.pool.log = [(4, 1#64, false)] ∧
      h.results = [.taskIds [1#64], .taskIds [2#64, 3#64], .ok, .removed 2] ∧ Conserved h := by
  have hany : (exec keepsBooks PoolHistory.step (PoolHistory.start 1) runAndCancel).any
      (fun h => decide (completions h.pool.log = [(4, 1#64, false)]) &&
        decide (h.results = [.taskIds [1#64], .taskIds [2#64, 3#64], .ok, .removed 2])) = true := by
    decide +kernel
  obtain ⟨h, hrun, hend⟩ := exec_any hany
  have hr : (historySystem Unit Unit 1).Reach KeepsBooks h :=
    exec_reach keepsBooks_sound _ _ _ (.init rfl) hrun
  rw [Bool.and_eq_true, decide_eq_true_eq, decide_eq_true_eq] at hend
  exact ⟨h, hr, hend.1, hend.2, conserved hr⟩

/-- Caller `false` is about to return the id of its task when caller `true` wakes the request up; the
    task is executed, counted down and freed, and only then is its id read. -/
def freedBeforeRead : List (HistoryAction Bool Unit) :=
  [.pool (.submit false onlyTask .ok), .pool (.advance false .ok), .pool (.advance false .ok),
    .pool (.advance false .ok), .pool (.advance false .ok), .pool (.wake true 7#64 0#64),
    .pool (.advance true .ok), .pool (.collect true), .pool (.pop 0), .pool (.finish 0 0),
    .pool (.account 0), .free 0, .pool (.collect false)]

/-- The bound on the number of tasks is not enough: a task may be freed before its id is read. -/
theorem id_read_too_late : ¬ ∀ h : PoolHistory Bool Unit,
    (historySystem Bool Unit 1).Reach FewTasks h → Conserved h := by
  intro hall
  have hany : (exec (fun h a => decide (FewTasks h a)) PoolHistory.step (PoolHistory.start 1)
      freedBeforeRead).any
      (fun h => decide (h.results = [.ok, .unknown]) &&
        decide ((accepted h.pool.log).map ThreadPoolTask.taskId = [1#64])) = true := by
    decide +kernel
  obtain ⟨h, hrun, hend⟩ := exec_any hany
  have hr : (historySystem Bool Unit 1).Reach FewTasks h :=
    exec_reach (fun _ _ => of_decide_eq_true) _ _ _ (.init rfl) hrun
  rw [Bool.and_eq_true, decide_eq_true_eq, decide_eq_true_eq] at hend
  obtain ⟨due, -, hids, -, hzero⟩ := (hall h hr).ids
  -- the freed memory may hold a zero
  have hgiven : Given h.results [0#64] :=
    ⟨[[], [0#64]], hend.1 ▸ .cons rfl (.cons ⟨0#64, rfl⟩ .nil), rfl⟩
  refine hzero (hids _ hgiven ▸ Multiset.mem_add.mpr (.inl ?_))
  exact List.mem_singleton_self _

end Runs

end OsTransport
