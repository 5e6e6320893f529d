/-
  What a step of the pool changes, for whoever looks at it from outside one request id.

  `lane_step` describes a step through the eyes of one id.  Here the same steps are described by
  what they do to the worker lists, to the history and to the call they belong to:

  * a step made by one process leaves the calls of all others alone (`step_calls_of_ne`);
  * an advance either touches no queue, appends the nodes of a submission, or removes the tasks
    of a cancelled id (`advance_effect`);
  * a submission is refused without a trace, or it attaches the nodes it built and is then
    accepted (`SubmitPhase`); a cancel removes tasks once and reports how many (`CancelPhase`).

  The phases are what a call looks like to the one who waits for it: `pending` until the nodes are in
  a queue, `attached` until the context of a batch is recorded, then `accepted`; or `refused` once it
  has failed.  The lemmas `advance_pending`, `advance_attached` and `advance_cancel` are the arrows
  between them, and they are all that the transport uses of the inside of a call.

  The last section goes the other way: a task found in a queue or in the hands of a worker was there
  before the step, or this step has put it there (`queue_effect`, `exec_effect`, `task_effect`), and
  what the history says of it was said before or is said by this step (`log_effect`).
-/
import OsTransport.Lane

namespace OsTransport

variable {κ α : Type*}

/-! ## Whose step it is

A step belongs to a process or to a worker.  Most steps touch no list at all (`Quiet`), and many not
even the table (`Unchanged`). -/

/-- The process an action of the pool belongs to. -/
def PoolAction.proc : PoolAction κ α → Option κ
  | .submit c _ _ => some c
  | .wake c _ _ => some c
  | .cancel c _ => some c
  | .advance c _ => some c
  | .collect c => some c
  | _ => none

/-- The event neither queues nor cancels a task. -/
def PoolEvent.passive : PoolEvent κ α → Bool
  | .attached _ _ _ => false
  | .cancelled _ _ => false
  | _ => true

/-- A batch callback is passive. -/
theorem passive_batchCb (cb : Option Nat) :
    ∀ e ∈ cb.toList.map (PoolSys.batchCbEvent (κ := κ) (α := α)), e.passive = true := by
  intro e he
  obtain ⟨b, -, rfl⟩ := List.mem_map.mp he
  rfl

namespace PoolSys

/-- So is all that the end of a task records. -/
theorem passive_finishEvents (w : Nat) (task : TaskNode α) (ret : Int) :
    ∀ e ∈ (finishEvents w task ret : List (PoolEvent κ α)), e.passive = true := by
  intro e he
  rcases List.mem_cons.mp he with rfl | he
  · rfl
  · split at he
    · rw [List.mem_singleton.mp he]
      rfl
    · cases he

section Effect

variable [DecidableEq κ] {s s' : PoolSys κ α} {c : κ} {alloc : Alloc}

/-- Nothing but calls, tables and accepted wake-ups has changed.  Whoever counts tasks need not look
    at such a step. -/
structure Quiet (s s' : PoolSys κ α) : Prop where
  queue : ∀ w, (s'.workers w).queue = (s.workers w).queue
  exec : ∀ w, (s'.workers w).exec = (s.workers w).exec
  log : s'.log = s.log
  workerCount : s'.workerCount = s.workerCount

omit [DecidableEq κ] in
/-- Nothing has happened to the queues. -/
theorem Quiet.refl (s : PoolSys κ α) : Quiet s s := ⟨fun _ => rfl, fun _ => rfl, rfl, rfl⟩

/-- Nothing but calls and the task-id counter has changed.  Such a step cannot be told from no step
    by anything but the call it belongs to. -/
structure Unchanged (s s' : PoolSys κ α) : Prop where
  workers : s'.workers = s.workers
  reqHash : s'.reqHash = s.reqHash
  log : s'.log = s.log
  workerCount : s'.workerCount = s.workerCount

omit [DecidableEq κ] in
/-- Where only calls have moved, no queue has. -/
theorem Unchanged.quiet (h : Unchanged s s') : Quiet s s' :=
  ⟨fun w => by rw [h.workers], fun w => by rw [h.workers], h.log, h.workerCount⟩

/-- A call that moves changes nothing else. -/
theorem unchanged_setCall (pc : Call α) : Unchanged s (s.setCall c pc) := ⟨rfl, rfl, rfl, rfl⟩

/-- In particular no queue. -/
theorem quiet_setCall (pc : Call α) : Quiet s (s.setCall c pc) := (unchanged_setCall pc).quiet

/-- What one section of a call does to the worker lists and the history.  Only two sections touch a
    queue, and both write to the history what they have done. -/
theorem advance_effect (h : s.advance c alloc = some s') :
    Quiet s s' ∨
    (∃ sub w nodes, s.calls c = .attaching sub w nodes ∧
      s' = ((s.setWorker w (attachNodesToWorker (s.workers w) nodes)).record
        (nodes.map (.attached c w))).setCall c (.recording sub w nodes)) ∨
    (∃ reqId w pc, s.calls c = .cancelling reqId w ∧
      s' = ((s.setWorker w (cancelInWorkerQueue (s.workers w) reqId)).record
        ((cancelledNodes (s.workers w) reqId).map (.cancelled c))).setCall c pc ∧
      pc = if (cancelledNodes (s.workers w) reqId).length % 2 ^ 32 > 0 then
        .uncounting reqId (cancelledNodes (s.workers w) reqId).length
        else .done (.removed (cancelledNodes (s.workers w) reqId).length)) := by
  unfold advance at h
  split at h
  · cases h
  · cases h
  · simp only at h
    split at h
    · split at h <;> cases h <;> exact .inl (quiet_setCall _)
    · split at h <;> cases h <;> exact .inl (quiet_setCall _)
  · split at h
    · cases h
    · cases h
      exact .inl (quiet_setCall _)
    · split at h <;> cases h <;> exact .inl ⟨fun _ => rfl, fun _ => rfl, rfl, rfl⟩
  · rename_i sub w nodes hc
    split at h <;> cases h
    · exact .inl (quiet_setCall _)
    · exact .inr (.inl ⟨sub, w, nodes, hc, rfl⟩)
  · cases h
    exact .inl ⟨fun _ => rfl, fun _ => rfl, rfl, rfl⟩
  · rename_i reqId userData w hc
    split at h <;> cases h
    · refine .inl ⟨fun w' => ?_, fun w' => ?_, rfl, rfl⟩
      · show (Function.update s.workers w _ w').queue = _
        by_cases hw : w' = w
        · subst hw
          rw [Function.update_self]
          rfl
        · rw [Function.update_of_ne hw]
      · show (Function.update s.workers w _ w').exec = _
        by_cases hw : w' = w
        · subst hw
          rw [Function.update_self]
          rfl
        · rw [Function.update_of_ne hw]
    · exact .inl (quiet_setCall _)
  · rename_i reqId w hc
    cases h
    exact .inr (.inr ⟨reqId, w, _, hc, rfl, rfl⟩)
  · cases h
    exact .inl ⟨fun _ => rfl, fun _ => rfl, rfl, rfl⟩

/-- Starting a submission touches no list.  All a call does to the pool it does in its sections. -/
theorem unchanged_submit {sub : Submission α} (h : s.step (.submit c sub alloc) = some s') :
    Unchanged s s' := by
  obtain ⟨-, h⟩ := Option.ite_none_right_eq_some.mp h
  cases h
  exact unchanged_setCall _

/-- Nor does the lookup of a wake-up, -/
theorem unchanged_wake {r : ReqId} {u : BitVec 64} (h : s.step (.wake c r u) = some s') :
    Unchanged s s' := by
  obtain ⟨-, h⟩ := Option.ite_none_right_eq_some.mp h
  split at h <;> cases h <;> exact unchanged_setCall _

/-- that of a cancel, -/
theorem unchanged_cancel {r : ReqId} (h : s.step (.cancel c r) = some s') : Unchanged s s' := by
  obtain ⟨-, h⟩ := Option.ite_none_right_eq_some.mp h
  split at h
  · cases h
    exact unchanged_setCall _
  · split at h <;> cases h <;> exact unchanged_setCall _

/-- or the caller taking a result away. -/
theorem unchanged_collect (h : s.step (.collect c) = some s') : Unchanged s s' := by
  simp only [step] at h
  split at h <;> cases h
  exact unchanged_setCall _

theorem calls_setCall_of_ne {c' : κ} (hc : c' ≠ c) (pc : Call α) : (s.setCall c pc).calls c' = s.calls c' :=
  Function.update_of_ne hc _ _

@[simp] theorem calls_setCall_self (pc : Call α) : (s.setCall c pc).calls c = pc :=
  Function.update_self _ _ _

/-- A step leaves the calls of every process it does not belong to.  The worker's steps belong to no
    process, and leave all calls. -/
theorem step_calls_of_ne {a : PoolAction κ α} {c' : κ} (h : s.step a = some s')
    (hne : a.proc ≠ some c') : s'.calls c' = s.calls c' := by
  have hset : ∀ {c : κ} {pc : Call α} {s₁ : PoolSys κ α}, s₁.calls = s.calls → some c ≠ some c' →
      (s₁.setCall c pc).calls c' = s.calls c' := by
    intro c pc s₁ hs₁ hc
    rw [calls_setCall_of_ne (fun hcc => hc (by rw [hcc])), hs₁]
  cases a with
  | submit c sub al =>
    obtain ⟨-, h⟩ := Option.ite_none_right_eq_some.mp h
    cases h
    exact hset rfl hne
  | wake c r u =>
    obtain ⟨-, h⟩ := Option.ite_none_right_eq_some.mp h
    split at h <;> cases h <;> exact hset rfl hne
  | cancel c r =>
    obtain ⟨-, h⟩ := Option.ite_none_right_eq_some.mp h
    split at h
    · cases h
      exact hset rfl hne
    · split at h <;> cases h <;> exact hset rfl hne
  | collect c =>
    simp only [step] at h
    split at h <;> cases h
    exact hset rfl hne
  | advance c al =>
    simp only [step, advance] at h
    split at h
    · cases h
    · cases h
    · split at h
      · split at h <;> cases h <;> exact hset rfl hne
      · split at h <;> cases h <;> exact hset rfl hne
    · split at h
      · cases h
      · cases h
        exact hset rfl hne
      · split at h <;> cases h <;> exact hset rfl hne
    · split at h <;> cases h <;> exact hset rfl hne
    · cases h
      exact hset rfl hne
    · split at h <;> cases h <;> exact hset rfl hne
    · cases h
      exact hset rfl hne
    · cases h
      exact hset rfl hne
  | pop w =>
    obtain ⟨-, -, ⟨-, rfl⟩ | ⟨p, pending, task, queue, -, -, rfl⟩ | ⟨p, pending, -, -, rfl⟩⟩ :=
      pop_cases h
    · rfl
    · rfl
    · rfl
  | finish w ret =>
    simp only [step, finish] at h
    split at h <;> cases h
    rfl
  | account w =>
    simp only [step, account] at h
    split at h <;> cases h
    rfl

end Effect

end PoolSys

/-! ## Submissions and cancels by their phase

A submission is pending, attached, accepted or refused, and a cancel has looked up its worker or has
removed so many; whoever uses the pool need not know more of where a call is. -/

/-- How far a submission is, from outside.  A single one is followed up to the queue only: what it
    then makes of its task is the subject of `OsTransport.PoolBooks`. -/
inductive SubmitPhase (α : Type*)
  | pending (sub : Submission α)
  | attached (sub : Submission α)
  | accepted
  | refused
  | other

/-- The phase of a call that is a submission. -/
def Call.submitPhase : Call α → SubmitPhase α
  | .selecting sub _ _ _ => .pending sub
  | .building sub _ _ _ => .pending sub
  | .attaching sub _ _ => .pending sub
  | .recording sub _ _ => if sub.single then .other else .attached sub
  | .done (.taskIds _) => .accepted
  | .done .null => .refused
  | _ => .other

/-- The arguments of a submission on its way. -/
def Call.submission : Call α → Option (Submission α)
  | .selecting sub _ _ _ => some sub
  | .building sub _ _ _ => some sub
  | .attaching sub _ _ => some sub
  | .recording sub _ _ => some sub
  | _ => none

/-- How far a cancel is, and how many tasks it has removed.  The number is fixed in one section;
    after that it is only counted off and returned. -/
inductive CancelPhase
  | looked
  | removed (count : Nat)
  | refused
  | other
  deriving DecidableEq

/-- The phase of a call that is a cancel. -/
def Call.cancelPhase : Call α → CancelPhase
  | .cancelling _ _ => .looked
  | .uncounting _ n => .removed n
  | .done (.removed n) => .removed n
  | .done .err => .refused
  | _ => .other

/-- A batch that records its context has queued its tasks. -/
theorem submitPhase_recording {sub : Submission α} {w : Nat} {nodes : List (TaskNode α)}
    (hbatch : sub.single = false) : (Call.recording sub w nodes).submitPhase = .attached sub :=
  if_neg (by rw [hbatch]; exact Bool.false_ne_true)

/-- A submission that has queued its nodes is not on its way to the queue any more. -/
theorem not_pending_of_recording {sub sub' : Submission α} {w : Nat} {nodes : List (TaskNode α)} :
    (Call.recording sub' w nodes).submitPhase ≠ .pending sub := by
  intro h
  simp only [Call.submitPhase] at h
  split at h <;> cases h

/-- Only a batch can be seen between its two sections. -/
theorem recording_of_attached {sub sub' : Submission α} {w : Nat} {nodes : List (TaskNode α)}
    (h : (Call.recording sub' w nodes).submitPhase = .attached sub) :
    sub' = sub ∧ sub.single = false := by
  simp only [Call.submitPhase] at h
  split at h
  · cases h
  · rename_i hbatch
    obtain rfl := SubmitPhase.attached.inj h
    exact ⟨rfl, Bool.eq_false_iff.mpr hbatch⟩

/-- A submission on its way to the queue, by where it is.  It is scanning, building its nodes, or
    about to attach them. -/
theorem pending_cases {pc : Call α} {sub : Submission α} (h : pc.submitPhase = .pending sub) :
    (∃ made i best, pc = .selecting sub made i best) ∨
      (∃ worker made todo, pc = .building sub worker made todo) ∨
      ∃ w nodes, pc = .attaching sub w nodes := by
  cases pc with
  | selecting | building | attaching =>
    obtain rfl := SubmitPhase.pending.inj h
    simp
  | recording => exact absurd h not_pending_of_recording
  | done result => cases result <;> cases h
  | _ => cases h

/-- Refused is a call that has returned nothing. -/
theorem submitPhase_eq_refused {pc : Call α} : pc.submitPhase = .refused ↔ pc = .done .null := by
  constructor
  · intro h
    unfold Call.submitPhase at h
    split at h <;> first | rfl | cases h | (split at h <;> cases h)
  · rintro rfl
    rfl

/-- Accepted is a call that has returned its ids. -/
theorem submitPhase_eq_accepted {pc : Call α} :
    pc.submitPhase = .accepted ↔ ∃ ids, pc = .done (.taskIds ids) := by
  constructor
  · intro h
    unfold Call.submitPhase at h
    split at h <;> first | exact ⟨_, rfl⟩ | cases h | (split at h <;> cases h)
  · rintro ⟨ids, rfl⟩
    rfl

/-- The phase of a call that has returned. -/
theorem submitPhase_done {res : CallResult} (h : (Call.done (α := α) res).submitPhase ≠ .other) :
    res = .null ∨ ∃ ids, res = .taskIds ids := by
  cases res with
  | taskIds ids => exact .inr ⟨ids, rfl⟩
  | null => exact .inl rfl
  | _ => exact absurd rfl h

/-- A cancel that is over says how many it has removed, or that it was refused. -/
theorem cancelPhase_done {res : CallResult} (h : (Call.done (α := α) res).cancelPhase ≠ .other) :
    res = .err ∨ ∃ n, res = .removed n := by
  cases res with
  | removed n => exact .inr ⟨n, rfl⟩
  | err => exact .inl rfl
  | _ => exact absurd rfl h

/-- The call is a submission on its way, or a cancel on its way. -/
def Call.submits : Call α → Bool
  | .selecting _ _ _ _ => true
  | .building _ _ _ _ => true
  | .attaching _ _ _ => true
  | .recording _ _ _ => true
  | _ => false

def Call.cancels : Call α → Bool
  | .cancelling _ _ => true
  | .uncounting _ _ => true
  | _ => false

/-- A call that cancels is in a phase of its own. -/
theorem cancelPhase_of_cancels {pc : Call α} (h : pc.cancels = true) : pc.cancelPhase ≠ .other := by
  cases pc <;> simp [Call.cancels, Call.cancelPhase] at h ⊢

/-- A submission is refused at once, or pending. -/
theorem submitPhase_beginSubmission (b : Bool) (sub : Submission α) (alloc : Alloc) :
    (beginSubmission b sub alloc).submitPhase = .refused ∨
      (beginSubmission b sub alloc).submitPhase = .pending sub := by
  unfold beginSubmission
  split
  · exact .inl rfl
  · split <;> exact .inr rfl

/-- With a worker selected it is pending. -/
theorem submitPhase_selectedWorker (sub : Submission α) (made : List (TaskNode α)) (w : Nat) :
    (selectedWorker sub made w).submitPhase = .pending sub := by
  unfold selectedWorker
  split <;> rfl

/-- It is until the last node is allocated. -/
theorem submitPhase_builtNode (sub : Submission α) (w : Option Nat) (made : List (TaskNode α))
    (todo : List (ThreadPoolTask α)) : (builtNode sub w made todo).submitPhase = .pending sub := by
  unfold builtNode
  split
  · split <;> rfl
  · rfl

namespace PoolSys

variable [DecidableEq κ] {s s' : PoolSys κ α} {c : κ} {alloc : Alloc}

/-- A submission that has not queued its nodes gives up, goes on, or queues them.  In the first two
    cases the pool is unchanged, so a refused submission leaves no trace. -/
theorem advance_pending {sub : Submission α} (h : s.advance c alloc = some s')
    (hp : (s.calls c).submitPhase = .pending sub) :
    (Unchanged s s' ∧ ((s'.calls c).submitPhase = .refused ∨ (s'.calls c).submitPhase = .pending sub)) ∨
    ∃ w nodes, s.calls c = .attaching sub w nodes ∧
      s' = ((s.setWorker w (attachNodesToWorker (s.workers w) nodes)).record
        (nodes.map (.attached c w))).setCall c (.recording sub w nodes) := by
  unfold advance at h
  split at h
  · cases h
  · cases h
  · rename_i sub' made i best hc
    rw [hc] at hp
    cases hp
    left
    simp only at h
    split at h
    · split at h <;> cases h
      · exact ⟨unchanged_setCall _, .inr (by rw [calls_setCall_self, submitPhase_selectedWorker])⟩
      · exact ⟨unchanged_setCall _, .inr (by rw [calls_setCall_self]; rfl)⟩
    · split at h <;> cases h
      · exact ⟨unchanged_setCall _, .inl (by rw [calls_setCall_self]; rfl)⟩
      · exact ⟨unchanged_setCall _, .inr (by rw [calls_setCall_self, submitPhase_selectedWorker])⟩
  · rename_i sub' worker made todo hc
    rw [hc] at hp
    cases hp
    left
    split at h
    · cases h
    · cases h
      exact ⟨unchanged_setCall _, .inl (by rw [calls_setCall_self]; rfl)⟩
    · split at h <;> cases h
      · exact ⟨⟨rfl, rfl, rfl, rfl⟩, .inl (by rw [calls_setCall_self]; rfl)⟩
      · exact ⟨⟨rfl, rfl, rfl, rfl⟩,
          .inr (by rw [calls_setCall_self, submitPhase_builtNode])⟩
  · rename_i sub' w nodes hc
    rw [hc] at hp
    cases hp
    split at h <;> cases h
    · exact .inl ⟨unchanged_setCall _, .inl (by rw [calls_setCall_self]; rfl)⟩
    · exact .inr ⟨w, nodes, hc, rfl⟩
  · rename_i hc
    rw [hc] at hp
    exact absurd hp not_pending_of_recording
  all_goals
    rename_i hc
    rw [hc] at hp
    cases hp

/-- A submission that has queued its nodes has its result next.  Whether the context could be
    allocated makes no difference to it. -/
theorem advance_recording {sub : Submission α} {w : Nat} {nodes : List (TaskNode α)}
    (h : s.advance c alloc = some s') (hc : s.calls c = .recording sub w nodes) :
    Quiet s s' ∧ s'.calls c = .done (submitResult sub w nodes) := by
  simp only [advance, hc] at h
  cases h
  exact ⟨⟨fun _ => rfl, fun _ => rfl, rfl, rfl⟩, calls_setCall_self _⟩

/-- A batch that has queued its nodes is accepted next. -/
theorem advance_attached {sub : Submission α} (h : s.advance c alloc = some s')
    (hp : (s.calls c).submitPhase = .attached sub) :
    Quiet s s' ∧ (s'.calls c).submitPhase = .accepted := by
  cases hc : s.calls c with
  | recording sub' w nodes =>
    rw [hc] at hp
    obtain ⟨rfl, hbatch⟩ := recording_of_attached hp
    obtain ⟨hquiet, hdone⟩ := advance_recording h hc
    refine ⟨hquiet, ?_⟩
    rw [hdone, submitResult_batch hbatch]
    rfl
  | done result =>
    rw [hc] at hp
    cases result <;> cases hp
  | _ =>
    rw [hc] at hp
    cases hp

/-- A cancel removes tasks once; after that it only counts them off.  Its first section has only
    looked up the worker. -/
theorem advance_cancel (h : s.advance c alloc = some s') (hp : (s.calls c).cancelPhase ≠ .other) :
    (∃ reqId w, s.calls c = .cancelling reqId w ∧
      s'.workers = Function.update s.workers w (cancelInWorkerQueue (s.workers w) reqId) ∧
      s'.log = s.log ++ (cancelledNodes (s.workers w) reqId).map (.cancelled c) ∧
      (s'.calls c).cancelPhase = .removed (cancelledNodes (s.workers w) reqId).length) ∨
    ∃ n, (s.calls c).cancelPhase = .removed n ∧ Quiet s s' ∧
      (s'.calls c).cancelPhase = .removed n := by
  unfold advance at h
  split at h
  · cases h
  · cases h
  · rename_i hc
    rw [hc] at hp
    exact absurd rfl hp
  · rename_i hc
    rw [hc] at hp
    exact absurd rfl hp
  · rename_i hc
    rw [hc] at hp
    exact absurd rfl hp
  · rename_i hc
    rw [hc] at hp
    exact absurd rfl hp
  · rename_i hc
    rw [hc] at hp
    exact absurd rfl hp
  · rename_i reqId w hc
    cases h
    refine .inl ⟨reqId, w, hc, rfl, rfl, ?_⟩
    rw [calls_setCall_self]
    split <;> rfl
  · rename_i reqId n hc
    cases h
    refine .inr ⟨n, by rw [hc]; rfl, ⟨fun _ => rfl, fun _ => rfl, rfl, rfl⟩, ?_⟩
    rw [calls_setCall_self]
    rfl

/-- A call stays what it is: a submission or a cancel only comes from a call of its kind.  So what
    is known of how a call was begun stays true to its end. -/
theorem advance_kind (h : s.advance c alloc = some s') :
    ((s'.calls c).submits = true → (s.calls c).submits = true) ∧
    ((s'.calls c).cancels = true → (s.calls c).cancels = true) := by
  unfold advance at h
  split at h
  · cases h
  · cases h
  · rename_i hc
    rw [hc]
    refine ⟨fun _ => rfl, fun hx => ?_⟩
    simp only at h
    split at h
    · split at h <;> cases h <;> rw [calls_setCall_self] at hx
      · unfold selectedWorker at hx
        split at hx <;> cases hx
      · cases hx
    · split at h <;> cases h <;> rw [calls_setCall_self] at hx
      · cases hx
      · unfold selectedWorker at hx
        split at hx <;> cases hx
  · rename_i hc
    rw [hc]
    refine ⟨fun _ => rfl, fun hx => ?_⟩
    split at h
    · cases h
    · cases h
      rw [calls_setCall_self] at hx
      cases hx
    · split at h <;> cases h <;> rw [calls_setCall_self] at hx
      · cases hx
      · unfold builtNode at hx
        split at hx
        · split at hx <;> cases hx
        · cases hx
  · rename_i hc
    rw [hc]
    refine ⟨fun _ => rfl, fun hx => ?_⟩
    split at h <;> cases h <;> rw [calls_setCall_self] at hx <;> cases hx
  · cases h
    rw [calls_setCall_self]
    exact ⟨fun hx => (by cases hx), fun hx => by cases hx⟩
  · split at h <;> cases h <;> rw [calls_setCall_self] <;>
      exact ⟨fun hx => (by cases hx), fun hx => by cases hx⟩
  · rename_i hc
    rw [hc]
    cases h
    rw [calls_setCall_self]
    refine ⟨fun hx => ?_, fun _ => rfl⟩
    split at hx <;> cases hx
  · rename_i hc
    rw [hc]
    cases h
    rw [calls_setCall_self]
    exact ⟨fun hx => (by cases hx), fun hx => by cases hx⟩

/-- Neither a submission nor a cancel. -/
theorem advance_quiet (h : s.advance c alloc = some s') (hs : (s.calls c).submits = false)
    (hc : (s.calls c).cancels = false) : Quiet s s' := by
  rcases advance_effect h with hq | ⟨sub, w, nodes, hcall, -⟩ | ⟨reqId, w, pc, hcall, -⟩
  · exact hq
  · rw [hcall] at hs
    cases hs
  · rw [hcall] at hc
    cases hc

/-- A call starts in a process that has none, and starts as what it is called. -/
theorem submit_calls {sub : Submission α} (h : s.step (.submit c sub alloc) = some s') :
    s.isIdle c = true ∧ s'.calls c = beginSubmission s.isRunning sub alloc := by
  obtain ⟨hidle, h⟩ := Option.ite_none_right_eq_some.mp h
  cases h
  exact ⟨hidle, calls_setCall_self _⟩

/-- A cancel is refused, finds no context, or has looked up its worker.  It is refused where the
    pool is not running. -/
theorem cancel_calls {reqId : ReqId} (h : s.step (.cancel c reqId) = some s') :
    s.isIdle c = true ∧ (s'.calls c = .done .err ∨ s'.calls c = .done (.removed 0) ∨
      ∃ w, s'.calls c = .cancelling reqId w) := by
  obtain ⟨hidle, h⟩ := Option.ite_none_right_eq_some.mp h
  refine ⟨hidle, ?_⟩
  split at h
  · cases h
    exact .inl (calls_setCall_self _)
  · split at h <;> cases h
    · exact .inr (.inl (calls_setCall_self _))
    · exact .inr (.inr ⟨_, calls_setCall_self _⟩)

/-- A wake-up is refused, or has looked up its worker. -/
theorem wake_calls {reqId : ReqId} {userData : BitVec 64}
    (h : s.step (.wake c reqId userData) = some s') :
    s.isIdle c = true ∧ (s'.calls c = .done .err ∨ ∃ w, s'.calls c = .waking reqId userData w) := by
  obtain ⟨hidle, h⟩ := Option.ite_none_right_eq_some.mp h
  refine ⟨hidle, ?_⟩
  split at h <;> cases h
  · exact .inl (calls_setCall_self _)
  · exact .inr ⟨_, calls_setCall_self _⟩

/-- Who collects a result is in no call any more. -/
theorem collect_calls (h : s.step (.collect c) = some s') :
    (∃ res, s.calls c = .done res) ∧ s'.calls c = .idle := by
  simp only [step] at h
  split at h <;> cases h
  rename_i res hc
  exact ⟨⟨res, hc⟩, calls_setCall_self _⟩

/-! ## What a submission on its way was called with

A call keeps the submission it was made with. -/

/-- The submission stays the one that was begun. -/
theorem submission_selectedWorker (sub : Submission α) (made : List (TaskNode α)) (w : Nat) :
    (selectedWorker sub made w).submission = some sub := by
  unfold selectedWorker
  split <;> rfl

/-- It does while the nodes are allocated. -/
theorem submission_builtNode (sub : Submission α) (w : Option Nat) (made : List (TaskNode α))
    (todo : List (ThreadPoolTask α)) : (builtNode sub w made todo).submission = some sub := by
  unfold builtNode
  split
  · split <;> rfl
  · rfl

/-- A section of a submission keeps what it was called with.  The nodes it builds and the worker it
    finds come beside it. -/
theorem submission_advance {sub : Submission α} (h : s.advance c alloc = some s')
    (hsub : (s'.calls c).submission = some sub) : (s.calls c).submission = some sub := by
  unfold advance at h
  split at h
  · cases h
  · cases h
  · rename_i hc
    simp only at h
    split at h
    · split at h <;> cases h <;> rw [calls_setCall_self] at hsub
      · rw [submission_selectedWorker] at hsub
        rwa [hc]
      · rwa [hc]
    · split at h <;> cases h <;> rw [calls_setCall_self] at hsub
      · cases hsub
      · rw [submission_selectedWorker] at hsub
        rwa [hc]
  · rename_i hc
    split at h
    · cases h
    · cases h
      rw [calls_setCall_self] at hsub
      cases hsub
    · split at h <;> cases h <;> rw [calls_setCall_self] at hsub
      · cases hsub
      · rw [submission_builtNode] at hsub
        rwa [hc]
  · rename_i hc
    split at h <;> cases h <;> rw [calls_setCall_self] at hsub
    · cases hsub
    · rwa [hc]
  · cases h
    rw [calls_setCall_self] at hsub
    cases hsub
  · split at h <;> cases h <;> rw [calls_setCall_self] at hsub <;> cases hsub
  · cases h
    rw [calls_setCall_self] at hsub
    split at hsub <;> cases hsub
  · cases h
    rw [calls_setCall_self] at hsub
    cases hsub

/-- A submission on its way was called with at least one task, and with whatever the guard grants
    of the submissions that are called. -/
theorem submission_reach {workerCount : Nat} {ok : PoolSys κ α → PoolAction κ α → Prop}
    {P : Submission α → Prop} (hok : ∀ s c sub alloc, ok s (.submit c sub alloc) → P sub)
    (h : (poolSystem κ α workerCount).Reach ok s) {sub : Submission α}
    (hc : (s.calls c).submission = some sub) : sub.tasks ≠ [] ∧ P sub := by
  refine Transition.System.Reach.invariant (I := fun s : PoolSys κ α => ∀ c sub,
    (s.calls c).submission = some sub → sub.tasks ≠ [] ∧ P sub) ?_ ?_ h c sub hc
  · rintro s rfl c sub hc
    cases hc
  · rintro s a s' - hI hguard hs c sub hc
    by_cases hproc : a.proc = some c
    · cases a with
      | submit c' sub' alloc =>
        obtain rfl : c' = c := Option.some.inj hproc
        rw [(submit_calls hs).2] at hc
        unfold beginSubmission at hc
        split at hc
        · cases hc
        · rename_i hcheck
          obtain rfl : sub' = sub := by
            split at hc <;> exact Option.some.inj hc
          refine ⟨?_, hok _ _ _ _ hguard⟩
          intro hnil
          simp [hnil] at hcheck
      | wake c' r u =>
        obtain rfl : c' = c := Option.some.inj hproc
        obtain ⟨-, hcall | ⟨_, hcall⟩⟩ := wake_calls hs <;> rw [hcall] at hc <;> cases hc
      | cancel c' r =>
        obtain rfl : c' = c := Option.some.inj hproc
        obtain ⟨-, hcall | hcall | ⟨_, hcall⟩⟩ := cancel_calls hs <;> rw [hcall] at hc <;> cases hc
      | collect c' =>
        obtain rfl : c' = c := Option.some.inj hproc
        rw [(collect_calls hs).2] at hc
        cases hc
      | advance c' al =>
        obtain rfl : c' = c := Option.some.inj hproc
        exact hI c' sub (submission_advance hs hc)
      | pop | finish | account => cases hproc
    · rw [step_calls_of_ne hs hproc] at hc
      exact hI c sub hc

/-! ## Where queued and executing tasks come from

Backwards: a task that is queued, executed, removed or reported after a step was so before, or comes
from the section that has just run. -/

/-- A task in a queue was there before, or a submission has just queued it. -/
theorem queue_effect {pa : PoolAction κ α} {w : Nat} {t : TaskNode α} (h : s.step pa = some s')
    (ht : t ∈ (s'.workers w).queue) :
    t ∈ (s.workers w).queue ∨
      ∃ c al sub nodes, pa = .advance c al ∧ s.calls c = .attaching sub w nodes ∧ t ∈ nodes := by
  have hsub : ∀ {w' : Nat} {wk : WorkerThread α}, s'.workers = Function.update s.workers w' wk →
      (∀ t ∈ wk.queue, t ∈ (s.workers w').queue) → t ∈ (s.workers w).queue := by
    intro w' wk hworkers hwk
    rw [hworkers] at ht
    by_cases hw : w = w'
    · subst hw
      rw [Function.update_self] at ht
      exact hwk t ht
    · rwa [Function.update_of_ne hw] at ht
  cases pa with
  | submit c sub al => exact .inl (by rwa [(unchanged_submit h).quiet.queue] at ht)
  | wake c r u => exact .inl (by rwa [(unchanged_wake h).quiet.queue] at ht)
  | cancel c r =>
    exact .inl (by rwa [(unchanged_cancel h).quiet.queue] at ht)
  | collect c =>
    exact .inl (by rwa [(unchanged_collect h).quiet.queue] at ht)
  | advance c al =>
    rcases advance_effect h with hq | ⟨sub, w', nodes, hcall, rfl⟩ | ⟨reqId, w', pc, hcall, rfl, -⟩
    · exact .inl (by rwa [hq.queue] at ht)
    · have ht' : t ∈ (Function.update s.workers w' (attachNodesToWorker (s.workers w') nodes) w).queue :=
        ht
      by_cases hw : w = w'
      · subst hw
        rw [Function.update_self] at ht'
        rcases List.mem_append.mp ht' with hold | hnew
        · exact .inl hold
        · exact .inr ⟨c, al, sub, nodes, rfl, hcall, hnew⟩
      · rw [Function.update_of_ne hw] at ht'
        exact .inl ht'
    · exact .inl (hsub rfl fun t ht => (List.mem_filter.mp ht).1)
  | pop w' =>
    obtain ⟨-, -, ⟨-, rfl⟩ | ⟨p, pending, task, queue, -, hpop, rfl⟩ | ⟨p, pending, -, -, rfl⟩⟩ :=
      pop_cases h
    · exact .inl (hsub rfl fun t ht => ht)
    · exact .inl (hsub rfl fun t ht => Queue.popFirst_rest_subset hpop t ht)
    · exact .inl (hsub rfl fun t ht => ht)
  | finish w' ret =>
    simp only [step, finish] at h
    split at h <;> cases h
    exact .inl (hsub rfl fun t ht => ht)
  | account w' =>
    simp only [step, account] at h
    split at h <;> cases h
    exact .inl (hsub rfl fun t ht => ht)

/-- A task in execution was so before, or the worker has just taken it from its queue in answer to
    a wake-up. -/
theorem exec_effect {pa : PoolAction κ α} {w : Nat} {t : TaskNode α} {r : ReqId} {u : BitVec 64}
    (h : s.step pa = some s') (ht : (s'.workers w).exec = .running t r u) :
    (s.workers w).exec = .running t r u ∨
      pa = .pop w ∧ t ∈ (s.workers w).queue ∧ answersWakeUp r u t = true := by
  have hsame : ∀ {w' : Nat} {wk : WorkerThread α}, s'.workers = Function.update s.workers w' wk →
      (w = w' → wk.exec = .running t r u → (s.workers w').exec = .running t r u) →
      (s.workers w).exec = .running t r u := by
    intro w' wk hworkers hwk
    rw [hworkers] at ht
    by_cases hw : w = w'
    · subst hw
      rw [Function.update_self] at ht
      exact hwk rfl ht
    · rwa [Function.update_of_ne hw] at ht
  cases pa with
  | submit c sub al => exact .inl (by rwa [(unchanged_submit h).quiet.exec] at ht)
  | wake c r u => exact .inl (by rwa [(unchanged_wake h).quiet.exec] at ht)
  | cancel c r =>
    exact .inl (by rwa [(unchanged_cancel h).quiet.exec] at ht)
  | collect c =>
    exact .inl (by rwa [(unchanged_collect h).quiet.exec] at ht)
  | advance c al =>
    rcases advance_effect h with hq | ⟨sub, w', nodes, hcall, rfl⟩ | ⟨reqId, w', pc, hcall, rfl, -⟩
    · exact .inl (by rwa [hq.exec] at ht)
    · exact .inl (hsame rfl fun _ hexec => hexec)
    · exact .inl (hsame rfl fun _ hexec => hexec)
  | pop w' =>
    obtain ⟨hloop, -, ⟨-, rfl⟩ | ⟨p, pending, task, queue, -, hpop, rfl⟩ | ⟨p, pending, -, -, rfl⟩⟩ :=
      pop_cases h
    · exact .inl (hsame rfl fun _ hexec => hexec)
    · by_cases hw : w = w'
      · subst hw
        have ht' : (Function.update s.workers w _ w).exec = .running t r u := ht
        rw [Function.update_self] at ht'
        cases ht'
        exact .inr ⟨rfl, Queue.popFirst_mem hpop⟩
      · exact .inl (hsame rfl fun hww => absurd hww hw)
    · exact .inl (hsame rfl fun _ hexec => hexec)
  | finish w' ret =>
    simp only [step, finish] at h
    split at h <;> cases h
    exact .inl (hsame rfl fun _ hexec => by cases hexec)
  | account w' =>
    simp only [step, account] at h
    split at h <;> cases h
    exact .inl (hsame rfl fun _ hexec => by cases hexec)

/-- Only a worker changes what it executes. -/
theorem exec_same {pa : PoolAction κ α} (h : s.step pa = some s')
    (hpa : ∀ w, pa ≠ .pop w ∧ (∀ ret, pa ≠ .finish w ret) ∧ pa ≠ .account w) (w : Nat) :
    (s'.workers w).exec = (s.workers w).exec := by
  have hupdate : ∀ {w' : Nat} {wk : WorkerThread α}, wk.exec = (s.workers w').exec →
      (Function.update s.workers w' wk w).exec = (s.workers w).exec := by
    intro w' wk hexec
    by_cases hw : w = w'
    · subst hw
      rw [Function.update_self, hexec]
    · rw [Function.update_of_ne hw]
  cases pa with
  | submit c sub al => exact (unchanged_submit h).quiet.exec w
  | wake c r u => exact (unchanged_wake h).quiet.exec w
  | cancel c r => exact (unchanged_cancel h).quiet.exec w
  | collect c => exact (unchanged_collect h).quiet.exec w
  | advance c al =>
    rcases advance_effect h with hq | ⟨sub, w', nodes, -, rfl⟩ | ⟨reqId, w', pc, -, rfl, -⟩
    · exact hq.exec w
    · exact hupdate rfl
    · exact hupdate rfl
  | pop w' => exact absurd rfl (hpa w').1
  | finish w' ret => exact absurd rfl ((hpa w').2.1 ret)
  | account w' => exact absurd rfl (hpa w').2.2

/-- The steps of a worker leave what the others execute. -/
theorem exec_of_ne {pa : PoolAction κ α} (h : s.step pa = some s') {w w' : Nat}
    (hpa : pa = .pop w ∨ (∃ ret, pa = .finish w ret) ∨ pa = .account w) (hw : w' ≠ w) :
    (s'.workers w').exec = (s.workers w').exec := by
  rcases hpa with rfl | ⟨ret, rfl⟩ | rfl
  · obtain ⟨-, -, ⟨-, rfl⟩ | ⟨_, _, _, _, -, -, rfl⟩ | ⟨_, _, -, -, rfl⟩⟩ := pop_cases h <;>
      exact congrArg WorkerThread.exec (Function.update_of_ne hw _ _)
  · simp only [step, finish] at h
    split at h <;> cases h
    exact congrArg WorkerThread.exec (Function.update_of_ne hw _ _)
  · simp only [step, account] at h
    split at h <;> cases h
    exact congrArg WorkerThread.exec (Function.update_of_ne hw _ _)

/-- A worker that has counted its task off is back in its loop. -/
theorem account_exec {w : Nat} (h : s.step (.account w) = some s') : (s'.workers w).exec = .loop := by
  simp only [step, account] at h
  split at h <;> cases h
  show (Function.update s.workers w _ w).exec = .loop
  rw [Function.update_self]

/-- The task in the hands of a worker was there before, or has just been taken from the queue. -/
theorem task_effect {pa : PoolAction κ α} {w : Nat} {t : TaskNode α} (h : s.step pa = some s')
    (ht : (s'.workers w).exec.task = some t) :
    (s.workers w).exec.task = some t ∨ t ∈ (s.workers w).queue := by
  have hsame : (s'.workers w).exec = (s.workers w).exec → (s.workers w).exec.task = some t ∨
      t ∈ (s.workers w).queue := fun hexec => .inl (hexec ▸ ht)
  have hself : ∀ {wk : WorkerThread α}, s'.workers = Function.update s.workers w wk →
      wk.exec.task = some t := by
    intro wk hworkers
    rwa [hworkers, Function.update_self] at ht
  cases pa with
  | pop w' =>
    by_cases hw : w = w'
    · subst hw
      obtain ⟨-, -, ⟨-, rfl⟩ | ⟨p, pending, task, queue, -, hpop, rfl⟩ | ⟨p, pending, -, -, rfl⟩⟩ :=
        pop_cases h
      · have htask := hself rfl
        exact .inl htask
      · obtain rfl : task = t := Option.some.inj (hself rfl)
        exact .inr (Queue.popFirst_mem hpop).1
      · have htask := hself rfl
        exact .inl htask
    · exact hsame (exec_of_ne h (.inl rfl) hw)
  | finish w' ret =>
    by_cases hw : w = w'
    · subst hw
      simp only [step, finish] at h
      split at h <;> cases h
      rename_i hexec
      rw [hexec]
      exact .inl (hself rfl)
    · exact hsame (exec_of_ne h (.inr (.inl ⟨ret, rfl⟩)) hw)
  | account w' =>
    by_cases hw : w = w'
    · subst hw
      rw [account_exec h] at ht
      cases ht
    · exact hsame (exec_of_ne h (.inr (.inr rfl)) hw)
  | _ => exact hsame (exec_same h (fun _ => ⟨by rintro ⟨⟩, by rintro _ ⟨⟩, by rintro ⟨⟩⟩) w)

/-- The workers are as many as at the start. -/
theorem step_workerCount {pa : PoolAction κ α} (h : s.step pa = some s') :
    s'.workerCount = s.workerCount := by
  cases pa with
  | submit c sub al => exact (unchanged_submit h).quiet.workerCount
  | wake c r u => exact (unchanged_wake h).quiet.workerCount
  | cancel c r => exact (unchanged_cancel h).quiet.workerCount
  | collect c => exact (unchanged_collect h).quiet.workerCount
  | advance c al =>
    rcases advance_effect h with hq | ⟨sub, w', nodes, -, rfl⟩ | ⟨reqId, w', pc, -, rfl, -⟩
    · exact hq.workerCount
    · rfl
    · rfl
  | pop w =>
    obtain ⟨-, -, ⟨-, rfl⟩ | ⟨p, pending, task, queue, -, -, rfl⟩ | ⟨p, pending, -, -, rfl⟩⟩ :=
      pop_cases h <;> rfl
  | finish w ret =>
    simp only [step, finish] at h
    split at h <;> cases h
    rfl
  | account w =>
    simp only [step, account] at h
    split at h <;> cases h
    rfl

/-- Only the workers of the pool execute tasks. -/
theorem running_lt {workerCount : Nat} {ok : PoolSys κ α → PoolAction κ α → Prop}
    (h : (poolSystem κ α workerCount).Reach ok s) :
    s.workerCount = workerCount ∧
      ∀ w t r u, (s.workers w).exec = .running t r u → w < workerCount := by
  refine Transition.System.Reach.invariant (I := fun s : PoolSys κ α => s.workerCount = workerCount ∧
    ∀ w t r u, (s.workers w).exec = .running t r u → w < workerCount) ?_ ?_ h
  · rintro s rfl
    exact ⟨rfl, fun w t r u hexec => by cases hexec⟩
  · rintro s pa s' - ⟨hcount, hlt⟩ - hs
    refine ⟨(step_workerCount hs).trans hcount, fun w t r u hexec => ?_⟩
    rcases exec_effect hs hexec with hold | ⟨rfl, -, -⟩
    · exact hlt w t r u hold
    · obtain ⟨-, hw, -⟩ := pop_cases hs
      rwa [hcount] at hw

/-- A cancel about to edit a worker was looked up before, or has just begun. -/
theorem cancelling_effect {pa : PoolAction κ α} {c' : κ} {reqId : ReqId} {w : Nat}
    (h : s.step pa = some s') (hc : s'.calls c' = .cancelling reqId w) :
    s.calls c' = .cancelling reqId w ∨ pa = .cancel c' reqId := by
  by_cases hproc : pa.proc = some c'
  · cases pa with
    | submit c sub al =>
      obtain rfl : c = c' := Option.some.inj hproc
      rw [(submit_calls h).2] at hc
      unfold beginSubmission at hc
      split at hc
      · cases hc
      · split at hc <;> cases hc
    | wake c r u =>
      obtain rfl : c = c' := Option.some.inj hproc
      obtain ⟨-, hcall | ⟨_, hcall⟩⟩ := wake_calls h <;> rw [hcall] at hc <;> cases hc
    | cancel c r =>
      obtain rfl : c = c' := Option.some.inj hproc
      obtain ⟨-, hcall | hcall | ⟨_, hcall⟩⟩ := cancel_calls h <;> rw [hcall] at hc <;> cases hc
      exact .inr rfl
    | collect c =>
      obtain rfl : c = c' := Option.some.inj hproc
      rw [(collect_calls h).2] at hc
      cases hc
    | advance c al =>
      obtain rfl : c = c' := Option.some.inj hproc
      have hkind := (advance_kind h).2 (by rw [hc]; rfl)
      rcases advance_cancel h (cancelPhase_of_cancels hkind) with
          ⟨_, _, _, _, _, hn⟩ | ⟨n, _, _, hn⟩ <;>
        rw [hc] at hn <;> cases hn
    | pop | finish | account => cases hproc
  · rw [step_calls_of_ne h hproc] at hc
    exact .inl hc

/-- A submission comes to record its context by queueing its tasks. -/
theorem recording_effect {pa : PoolAction κ α} {c' : κ} {sub : Submission α} {w : Nat}
    {nodes : List (TaskNode α)} (h : s.step pa = some s')
    (hc : s'.calls c' = .recording sub w nodes) :
    s.calls c' = .recording sub w nodes ∨
      s.calls c' = .attaching sub w nodes ∧ ∃ al, pa = .advance c' al := by
  by_cases hproc : pa.proc = some c'
  · cases pa with
    | submit c sub al =>
      obtain rfl : c = c' := Option.some.inj hproc
      rw [(submit_calls h).2] at hc
      unfold beginSubmission at hc
      split at hc
      · cases hc
      · split at hc <;> cases hc
    | wake c r u =>
      obtain rfl : c = c' := Option.some.inj hproc
      obtain ⟨-, hcall | ⟨_, hcall⟩⟩ := wake_calls h <;> rw [hcall] at hc <;> cases hc
    | cancel c r =>
      obtain rfl : c = c' := Option.some.inj hproc
      obtain ⟨-, hcall | hcall | ⟨_, hcall⟩⟩ := cancel_calls h <;> rw [hcall] at hc <;> cases hc
    | collect c =>
      obtain rfl : c = c' := Option.some.inj hproc
      rw [(collect_calls h).2] at hc
      cases hc
    | advance c al =>
      obtain rfl : c = c' := Option.some.inj hproc
      have hsub := submission_advance h (c := c) (by rw [hc]; rfl)
      cases hcall : s.calls c with
      | recording sub' w' nodes' =>
        have hdone := (advance_recording h hcall).2
        rw [hc] at hdone
        cases hdone
      | selecting sub' | building sub' | attaching sub' =>
        have hpending : (s.calls c).submitPhase = .pending sub' := by rw [hcall]; rfl
        rcases advance_pending h hpending with ⟨-, hphase | hphase⟩ | ⟨w', nodes', hatt, hs'⟩
        · rw [submitPhase_eq_refused.mp hphase] at hc
          cases hc
        · rw [hc] at hphase
          exact absurd hphase not_pending_of_recording
        · rw [hs', calls_setCall_self] at hc
          cases hc
          exact .inr ⟨by rw [← hcall, hatt], al, rfl⟩
      | _ =>
        rw [hcall] at hsub
        cases hsub
    | pop | finish | account => cases hproc
  · rw [step_calls_of_ne h hproc] at hc
    exact .inl hc

/-- What a step adds to the history. -/
theorem log_effect {pa : PoolAction κ α} (h : s.step pa = some s') :
    ∃ events, s'.log = s.log ++ events ∧ ((∀ e ∈ events, e.passive = true) ∨
      (∃ c al sub w nodes, pa = .advance c al ∧ s.calls c = .attaching sub w nodes ∧
        events = nodes.map (.attached c w)) ∨
      ∃ c al reqId w, pa = .advance c al ∧ s.calls c = .cancelling reqId w ∧
        events = (cancelledNodes (s.workers w) reqId).map (.cancelled c)) := by
  have hquiet : Quiet s s' → ∃ events, s'.log = s.log ++ events ∧ ∀ e ∈ events, e.passive = true :=
    fun hq => ⟨[], by rw [hq.log, List.append_nil], by simp⟩
  cases pa with
  | submit c sub al =>
    obtain ⟨events, hlog, hev⟩ := hquiet (unchanged_submit h).quiet
    exact ⟨events, hlog, .inl hev⟩
  | wake c r u =>
    obtain ⟨events, hlog, hev⟩ := hquiet (unchanged_wake h).quiet
    exact ⟨events, hlog, .inl hev⟩
  | cancel c r =>
    obtain ⟨events, hlog, hev⟩ := hquiet (unchanged_cancel h).quiet
    exact ⟨events, hlog, .inl hev⟩
  | collect c =>
    obtain ⟨events, hlog, hev⟩ := hquiet (unchanged_collect h).quiet
    exact ⟨events, hlog, .inl hev⟩
  | advance c al =>
    rcases advance_effect h with hq | ⟨sub, w, nodes, hcall, rfl⟩ | ⟨reqId, w, pc, hcall, rfl, -⟩
    · obtain ⟨events, hlog, hev⟩ := hquiet hq
      exact ⟨events, hlog, .inl hev⟩
    · exact ⟨_, rfl, .inr (.inl ⟨c, al, sub, w, nodes, rfl, hcall, rfl⟩)⟩
    · exact ⟨_, rfl, .inr (.inr ⟨c, al, reqId, w, rfl, hcall, rfl⟩)⟩
  | pop w =>
    obtain ⟨-, -, ⟨-, rfl⟩ | ⟨p, pending, task, queue, -, -, rfl⟩ | ⟨p, pending, -, -, rfl⟩⟩ :=
      pop_cases h
    · exact ⟨[], (List.append_nil _).symm, .inl (by simp)⟩
    · exact ⟨_, rfl, .inl (by simp [PoolEvent.passive])⟩
    · exact ⟨_, rfl, .inl (by simp [PoolEvent.passive])⟩
  | finish w ret =>
    simp only [step, finish] at h
    split at h <;> cases h
    exact ⟨_, rfl, .inl (passive_finishEvents _ _ _)⟩
  | account w =>
    simp only [step, account] at h
    split at h <;> cases h
    exact ⟨_, rfl, .inl (passive_batchCb _)⟩

/-- A cancelled task was so before, or a cancel has just removed it from a queue. -/
theorem cancelled_effect {pa : PoolAction κ α} {c : κ} {t : TaskNode α} (h : s.step pa = some s')
    (ht : .cancelled c t ∈ s'.log) :
    .cancelled c t ∈ s.log ∨ ∃ al reqId w, pa = .advance c al ∧
      s.calls c = .cancelling reqId w ∧ t ∈ (s.workers w).queue ∧ t.requestId = reqId := by
  obtain ⟨events, hlog, hev⟩ := log_effect h
  rw [hlog] at ht
  rcases List.mem_append.mp ht with hold | hnew
  · exact .inl hold
  · rcases hev with hpass | ⟨c', al, sub, w, nodes, -, -, rfl⟩ | ⟨c', al, reqId, w, rfl, hcall, rfl⟩
    · have hp := hpass _ hnew
      cases hp
    · obtain ⟨_, -, heq⟩ := List.mem_map.mp hnew
      cases heq
    · obtain ⟨t', ht', heq⟩ := List.mem_map.mp hnew
      cases heq
      obtain ⟨hmem, hid⟩ := List.mem_filter.mp ht'
      exact .inr ⟨al, reqId, w, rfl, hcall, hmem, by simpa using hid⟩

end PoolSys

end OsTransport
