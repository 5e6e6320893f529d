/-
  Requests do not disturb each other in the pool.

  All requests share the worker lists and the chains of the request table, and every operation edits
  them in place: it unlinks from the head, from the middle and from the tail.  What an operation on
  `r` must not touch is, for any other id, its tasks in the queues, its wake-ups in the pending lists
  and its context; ids in one bucket of the table are no exception.

  The lane of `r'` is all a pool holds of `r'`, so the frame property is that a step of an operation
  on `r` is no step of the lane of `r'` (`lane_frame`).  `requests_undisturbed` says it of whole
  operations, one after the other or at the same time, in terms of the lists.

  What is proved about one operation is then a corollary: `lane_frame` is `lane_step` with the label
  excluded by the id of the operation (`Call.about`), and `undisturbed_of_lane` translates a lane
  that did not move into lists that were not touched.  No list is reasoned about here: that
  unlinking keeps the order of the others is in `OsTransport.Lib.Queue`, and for the pointers in
  `OsTransport.WorkerLists` and `OsTransport.HashChains`.
-/
import OsTransport.Fifo

namespace OsTransport

open Transition

variable {κ α : Type*}

/-! ## Operations on an id

Who operates on an id, and what the others see of it: nothing. -/

/-- The id a call in progress is about. -/
def Call.about : Call α → Option ReqId
  | .idle => none
  | .selecting sub _ _ _ => some sub.requestId
  | .building sub _ _ _ => some sub.requestId
  | .attaching sub _ _ => some sub.requestId
  | .recording sub _ _ => some sub.requestId
  | .waking reqId _ _ => some reqId
  | .cancelling reqId _ => some reqId
  | .uncounting reqId _ => some reqId
  | .done _ => none

/-- The step belongs to an operation on `r`: to a submission, a wake-up or a cancel, or to a worker
    that processes one of its wake-ups. -/
def OperatesOn (r : ReqId) (s : PoolSys κ α) : PoolAction κ α → Prop
  | .submit _ sub _ => sub.requestId = r
  | .wake _ reqId _ => reqId = r
  | .cancel _ reqId => reqId = r
  | .advance c _ => (s.calls c).about = some r
  | .collect _ => True
  | .pop w => ∃ p pending, (s.workers w).pending = p :: pending ∧ p.requestId = r
  | .finish w _ => ∃ t u, (s.workers w).exec = .running t r u
  | .account w => ∃ t ret, (s.workers w).exec = .returned t r ret

/-- What the pool holds of `r` is the same in both states.  Tasks and wake-ups of `r` are compared
    as lists: same ones, same order, same worker. -/
structure Undisturbed (r : ReqId) (s s' : PoolSys κ α) : Prop where
  /-- Its tasks, on every worker and in their order, -/
  queue : ∀ w, (s'.workers w).queue.filter (fun t => t.requestId == r) =
    (s.workers w).queue.filter fun t => t.requestId == r
  /-- its accepted wake-ups, -/
  pending : ∀ w, (s'.workers w).pending.filter (fun p => p.requestId == r) =
    (s.workers w).pending.filter fun p => p.requestId == r
  /-- and its context with all its fields. -/
  context : s'.reqHash.find r = s.reqHash.find r

section Frame

variable [DecidableEq κ] {r r' : ReqId} {s s' : PoolSys κ α} {a : PoolAction κ α}

omit [DecidableEq κ] in
/-- A call about another id looks idle. -/
theorem laneCall_of_about {pc : Call α} (h : pc.about = some r) (hne : r' ≠ r) :
    laneCall r' pc = .idle := by
  cases pc <;> simp_all [Call.about, laneCall, Ne.symm hne]

/-- A worker that serves a wake-up of `r` is in its loop for any other lane.  A step of that lane
    would have written the wake-up to its log as served. -/
theorem lane_frame_pop (hcarry : s.Carries) {w : Nat} {p : PendingReqNode}
    {pending : List PendingReqNode} (hs : s.step (.pop w) = some s')
    (hp : (s.workers w).pending = p :: pending) (hid : p.requestId = r) (hne : r' ≠ r) :
    lane r' s' = lane r' s := by
  obtain ⟨l, hl, hexp⟩ := lane_step (r := r') hcarry hs
  have hserved : (lane r' s').served = (lane r' s).served := by
    obtain ⟨-, -, ⟨hnil, -⟩ | ⟨p', pending', task, queue, hp', hq, rfl⟩ |
      ⟨p', pending', hp', -, rfl⟩⟩ := pop_cases hs
    · rw [hp] at hnil
      cases hnil
    · rw [hp] at hp'
      cases hp'
      have htask : task.requestId = r :=
        (answersWakeUp_requestId (Queue.popFirst_mem hq).2).trans hid
      rw [lane_record]
      simp [servedOf, htask, Ne.symm hne, PoolSys.setWorker]
    · rw [hp] at hp'
      cases hp'
      rw [lane_record]
      simp [servedOf, hid, Ne.symm hne, PoolSys.setWorker]
  rcases label_of_pop hexp hl with ⟨-, hsame⟩ | ⟨_, _, -, -, hgrow⟩ | ⟨_, -, -, -, hgrow⟩
  · exact hsame
  all_goals
    rw [hserved] at hgrow
    simp at hgrow

/-- **The frame rule**: an operation on `r` is no step of any other lane. -/
theorem lane_frame (hcarry : s.Carries) (hs : s.step a = some s') (ha : OperatesOn r s a)
    (hne : r' ≠ r) : lane r' s' = lane r' s := by
  obtain ⟨l, hl, hexp⟩ := lane_step (r := r') hcarry hs
  cases a with
  | submit c sub alloc =>
    cases l with
    | tau => exact lane_tau hl
    | submit =>
      obtain ⟨_, _, hact, hid⟩ := hexp
      cases hact
      exact absurd (hid.symm.trans ha) hne
    | _ => simp [Explains] at hexp
  | wake c reqId u =>
    cases l with
    | tau => exact lane_tau hl
    | lookWake =>
      cases hexp
      exact absurd ha hne
    | _ => simp [Explains] at hexp
  | cancel c reqId =>
    cases l with
    | tau => exact lane_tau hl
    | lookCancel =>
      cases hexp
      exact absurd ha hne
    | _ => simp [Explains] at hexp
  | collect c =>
    cases l with
    | tau => exact lane_tau hl
    | _ => simp [Explains] at hexp
  | advance c alloc =>
    have hidle : (lane r' s).calls c = .idle := laneCall_of_about ha hne
    rcases label_of_advance hexp hl with ⟨-, hsame⟩ | ⟨hc, -⟩ | ⟨_, _, _, hc, -⟩ | ⟨_, _, hc, -⟩ |
      ⟨_, hc, -⟩ | ⟨_, hc, -⟩
    · exact hsame
    all_goals
      rw [hidle] at hc
      cases hc
  | pop w =>
    obtain ⟨p, pending, hp, hid⟩ := ha
    exact lane_frame_pop hcarry hs hp hid hne
  | finish w ret =>
    obtain ⟨t, u, hrun⟩ := ha
    have hloop : (lane r' s).exec w = .loop := by
      rw [lane_exec, hrun, laneExec, if_neg (Ne.symm hne)]
    cases l with
    | tau => exact lane_tau hl
    | finish w' ret' =>
      cases hexp
      generalize lane r' s' = L' at hl
      cases hl with
      | finish hexec =>
        rw [hloop] at hexec
        cases hexec
    | _ => simp [Explains] at hexp
  | account w =>
    obtain ⟨t, ret, hret⟩ := ha
    have hloop : (lane r' s).exec w = .loop := by
      rw [lane_exec, hret, laneExec, if_neg (Ne.symm hne)]
    cases l with
    | tau => exact lane_tau hl
    | account w' =>
      cases hexp
      generalize lane r' s' = L' at hl
      cases hl with
      | account hexec =>
        rw [hloop] at hexec
        cases hexec
    | _ => simp [Explains] at hexp

omit [DecidableEq κ] in
/-- The wake-ups of `r` are their user data, with the id `r`. -/
theorem filter_pending (r : ReqId) (pending : List PendingReqNode) :
    pending.filter (fun p => p.requestId == r) = (laneWakes r pending).map fun u => ⟨r, u⟩ := by
  induction pending with
  | nil => rfl
  | cons p pending ih =>
    rw [laneWakes_cons]
    by_cases hp : p.requestId = r
    · rw [if_pos hp, List.filter_cons_of_pos (by simpa using hp), List.map_cons, ih, ← hp]
    · rw [if_neg hp, List.filter_cons_of_neg (by simpa using hp), ih]

omit [DecidableEq κ] in
/-- The lane holds all of it. -/
theorem undisturbed_of_lane (h : lane r s' = lane r s) : Undisturbed r s s' where
  queue w := congrFun (congrArg Lane.queue h) w
  pending w := by
    have hwakes := congrFun (congrArg Lane.wakes h) w
    rw [lane_wakes, lane_wakes] at hwakes
    rw [filter_pending, filter_pending, hwakes]
  context := congrArg Lane.ctx h

/-- **Requests do not disturb each other.**  From any reachable state of the pool, however many steps
    operations on `r` take, what the pool holds of any other id stays as it is, in content and in
    order, whether or not the two ids share a bucket of the table. -/
theorem requests_undisturbed {workerCount : Nat} {ok : PoolSys κ α → PoolAction κ α → Prop}
    (h : (poolSystem κ α workerCount).Reach ok s)
    (hop : (System.ofFun (· = s) PoolSys.step).Reach (OperatesOn r) s') (hne : r' ≠ r) :
    Undisturbed r' s s' := by
  apply undisturbed_of_lane
  have hkeep : s'.Carries ∧ lane r' s' = lane r' s := by
    refine hop.invariant (I := fun s' => s'.Carries ∧ lane r' s' = lane r' s) ?_ ?_
    · rintro s₁ rfl
      exact ⟨PoolSys.carries_reach h, rfl⟩
    · rintro s₁ a s₂ - ⟨hcarry, hlane⟩ ha hs
      exact ⟨PoolSys.carries_step hcarry hs, (lane_frame hcarry hs ha hne).trans hlane⟩
  exact hkeep.2

end Frame

/-- `OperatesOn`, decided. -/
def operatesOnb (r : ReqId) (s : PoolSys Nat Nat) : PoolAction Nat Nat → Bool
  | .submit _ sub _ => sub.requestId == r
  | .wake _ reqId _ => reqId == r
  | .cancel _ reqId => reqId == r
  | .advance c _ => (s.calls c).about == some r
  | .collect _ => true
  | .pop w => (s.workers w).pending.head?.any fun p => p.requestId == r
  | .finish w _ => match (s.workers w).exec with
    | .running _ reqId _ => reqId == r
    | _ => false
  | .account w => match (s.workers w).exec with
    | .returned _ reqId _ => reqId == r
    | _ => false

theorem operatesOn_of_b {r : ReqId} (s : PoolSys Nat Nat) (a : PoolAction Nat Nat)
    (h : operatesOnb r s a = true) : OperatesOn r s a := by
  cases a with
  | submit | wake | cancel | advance => simpa [operatesOnb, OperatesOn] using h
  | collect => trivial
  | pop w =>
    simp only [operatesOnb] at h
    cases hp : (s.workers w).pending with
    | nil => simp [hp] at h
    | cons p pending => exact ⟨p, pending, hp, by simpa [hp] using h⟩
  | finish w ret =>
    simp only [operatesOnb] at h
    split at h
    · rename_i t reqId u hexec
      obtain rfl := beq_iff_eq.mp h
      exact ⟨t, u, hexec⟩
    · cases h
  | account w =>
    simp only [operatesOnb] at h
    split at h
    · rename_i t reqId ret hexec
      obtain rfl := beq_iff_eq.mp h
      exact ⟨t, ret, hexec⟩
    · cases h

/-- The neighbour is queued and woken up. -/
def neighbourWaits : List (PoolAction Nat Nat) :=
  .submit 1 neighbour .ok :: List.replicate 4 (.advance 1 .ok) ++
    [.wake 2 1031#64 9#64, .advance 2 .ok, .collect 2]

/-- The pair, on the same worker and in the same bucket: submitted, cancelled. -/
def pairComesAndGoes : List (PoolAction Nat Nat) :=
  .submit 0 keylessPair .ok :: List.replicate 6 (.advance 0 .ok) ++
    [.wake 2 7#64 5#64, .advance 2 .ok, .cancel 3 7#64, .advance 3 .ok, .advance 3 .ok]

theorem requests_undisturbed_neighbour : ∃ s s' : PoolSys Nat Nat,
    Undisturbed 1031#64 s s' ∧ hashReqId 1031#64 = hashReqId 7#64 ∧
      s'.log.length = s.log.length + 4 := by
  have hrun : (exec (fun _ _ => true) PoolSys.step (PoolSys.start 1) neighbourWaits).any
      (fun s => (exec (operatesOnb 7#64) PoolSys.step s pairComesAndGoes).any fun s' =>
        s'.log.length == s.log.length + 4) = true := by
    decide +kernel
  obtain ⟨s, hr, hend⟩ := poolSystem_exec _ (fun _ _ _ => trivial) neighbourWaits _ hrun
  obtain ⟨s', hop, hlog⟩ := exec_any hend
  exact ⟨s, s', requests_undisturbed hr (exec_reach operatesOn_of_b _ s s' (.init rfl) hop)
    (by decide), by decide, by simpa using hlog⟩

end OsTransport
