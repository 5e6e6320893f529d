/-
  The story of one request id.

  The log of a pool tells which tasks were queued, taken and executed, and which wake-ups found
  none.  Two things it does not tell: which wake-ups were accepted, and what cancels returned.
  `Story` is the pool with these two written down beside it; no step reads them.

  `bookOf r` is the story of the id `r` alone.  As the lane of `r` takes its steps the book is
  continued by what the step says (`LaneBook.next`), and `book_step` is that statement.  One entry
  is invisible in the lane: a cancel that finds no context returns 0 at once.

  `sole_reach` is the induction for an id under which tasks are queued once.  Nothing happens to
  such a lane before its tasks are queued; what the attach establishes and every later step keeps,
  book and lane together, holds from then on.

  `book_step` is proved section by section, as `lane_step` is, and each of its lemmas names the label
  of the lane's step and the entry it makes (`book_advance`, `book_pop`, `book_finish`).  A section of
  another id makes no entry (`book_no_event`).

  What a book is good for: an invariant may relate the lane to everything that has happened to the
  id, and is still proved over the rules of `LaneStep` alone.  `OsTransport.Fifo` and
  `OsTransport.Quiesce` do so.
-/
import OsTransport.Solo
import OsTransport.Conservation

namespace OsTransport

open Transition

variable {κ α : Type*}

/-! ## Stories

The pool with two lists beside it: the wake-ups accepted, and the answers of cancels. -/

/-- A pool, the wake-ups it has accepted, and the values its cancels have returned.  Both are lists,
    oldest first, of an id and what belongs to it.  The log has no entry for either, as neither
    moves a task. -/
structure Story (κ α : Type*) where
  pool : PoolSys κ α
  woken : List (ReqId × BitVec 64)
  removed : List (ReqId × Int)

/-- The wake-up that is put on a pending list.  Without memory for its node it is not, and the
    caller is told so. -/
def PoolSys.wokenBy (s : PoolSys κ α) : PoolAction κ α → List (ReqId × BitVec 64)
  | .advance c alloc =>
    match s.calls c with
    | .waking reqId userData _ => if alloc = .ok then [(reqId, userData)] else []
    | _ => []
  | _ => []

/-- The cancel that returns, with its value: `(int)removed`.  A cancel of a running pool has three
    ways out: no context, nothing removed, or something counted off. -/
def PoolSys.removedBy (s : PoolSys κ α) : PoolAction κ α → List (ReqId × Int)
  | .cancel _ reqId =>
    if s.isRunning then
      match s.reqHash.find reqId with
      | none => [(reqId, 0)]
      | some _ => []
    else []
  | .advance c _ =>
    match s.calls c with
    | .cancelling reqId w =>
      if (cancelledNodes (s.workers w) reqId).length % 2 ^ 32 > 0 then []
      else [(reqId, cInt (cancelledNodes (s.workers w) reqId).length)]
    | .uncounting reqId removed => [(reqId, cInt removed)]
    | _ => []
  | _ => []

/-- A step of the pool, and what it writes down. -/
def Story.step [DecidableEq κ] (st : Story κ α) (a : PoolAction κ α) : Option (Story κ α) :=
  (st.pool.step a).map fun s' =>
    ⟨s', st.woken ++ st.pool.wokenBy a, st.removed ++ st.pool.removedBy a⟩

/-- All runs of a pool, with their stories. -/
def storySystem (κ α : Type*) [DecidableEq κ] (workerCount : Nat) :
    System (Story κ α) (PoolAction κ α) :=
  .ofFun (· = ⟨PoolSys.start workerCount, [], []⟩) Story.step

/-- A run of the pool and its story may be evaluated. -/
theorem storySystem_exec [DecidableEq κ] {n : Nat}
    (okb : Story κ α → PoolAction κ α → Bool) {ok : Story κ α → PoolAction κ α → Prop}
    (hok : ∀ st a, okb st a = true → ok st a) (as : List (PoolAction κ α)) (P : Story κ α → Bool)
    (h : (exec okb Story.step ⟨PoolSys.start n, [], []⟩ as).any P = true) :
    ∃ st, (storySystem κ α n).Reach ok st ∧ P st = true :=
  System.Reach.of_exec (· = (⟨PoolSys.start n, [], []⟩ : Story κ α)) okb hok rfl as P h

/-! ## The book of an id

What the story says of one id. -/

/-- The tasks of `r` that were queued. -/
def queuedOf (r : ReqId) (log : List (PoolEvent κ α)) : List (TaskNode α) :=
  (accepted log).filter fun t => t.requestId == r

/-- What the processed wake-ups of `r` found.  One entry each, in the order in which workers served
    them. -/
def outcomesOf (r : ReqId) (log : List (PoolEvent κ α)) : List (Option (TaskNode α)) :=
  log.filterMap fun
    | .taken _ task _ => if task.requestId = r then some (some task) else none
    | .missed _ reqId _ => if reqId = r then some none else none
    | _ => none

/-- The tasks of `r` whose function has returned.  In the order in which they returned, whatever
    they returned. -/
def doneOf (r : ReqId) (log : List (PoolEvent κ α)) : List (TaskNode α) :=
  ((executed log).map Prod.fst).filter fun t => t.requestId == r

/-- The entries of `r` in a list of pairs. -/
def entriesOf {β : Type*} (r : ReqId) (l : List (ReqId × β)) : List β :=
  (l.filter fun e => e.1 == r).map Prod.snd

/-- What was written down of one id.  Each part is a list that only grows. -/
@[ext] structure LaneBook (α : Type*) where
  queued : List (TaskNode α)
  woken : List (BitVec 64)
  outcomes : List (Option (TaskNode α))
  done : List (TaskNode α)
  removed : List Int

/-- The book of an id of which nothing has happened. -/
def LaneBook.blank : LaneBook α := ⟨[], [], [], [], []⟩

/-- The book of `r`: its share of the log and of the two lists. -/
def bookOf (r : ReqId) (st : Story κ α) : LaneBook α where
  queued := queuedOf r st.pool.log
  woken := entriesOf r st.woken
  outcomes := outcomesOf r st.pool.log
  done := doneOf r st.pool.log
  removed := entriesOf r st.removed

namespace LaneBook

variable (B : LaneBook α)

/-- The entry of a cancel that has returned. -/
def returned (k : Int) : LaneBook α := { B with removed := B.removed ++ [k] }

/-- The book after a step of the lane.  It needs the lane before the step, where the wake-up, the
    task or the count is found that is written down. -/
def next (L : Lane κ α) : LaneLabel κ α → LaneBook α
  | .attach _ _ nodes => { B with queued := B.queued ++ nodes }
  | .pushWake c =>
    match L.calls c with
    | .waking userData _ => { B with woken := B.woken ++ [userData] }
    | _ => B
  | .take _ task _ => { B with outcomes := B.outcomes ++ [some task] }
  | .miss _ _ => { B with outcomes := B.outcomes ++ [none] }
  | .finish w _ =>
    match L.exec w with
    | .running task _ _ => { B with done := B.done ++ [task] }
    | _ => B
  | .cancelQueue c =>
    match L.calls c with
    | .cancelling w =>
      if (L.queue w).length % 2 ^ 32 > 0 then B else B.returned (cInt (L.queue w).length)
    | _ => B
  | .uncount c =>
    match L.calls c with
    | .uncounting k => B.returned (cInt k)
    | _ => B
  | _ => B

end LaneBook

section Lists

variable (r : ReqId)

@[simp] theorem queuedOf_append (l l' : List (PoolEvent κ α)) :
    queuedOf r (l ++ l') = queuedOf r l ++ queuedOf r l' := by
  simp [queuedOf]

@[simp] theorem outcomesOf_append (l l' : List (PoolEvent κ α)) :
    outcomesOf r (l ++ l') = outcomesOf r l ++ outcomesOf r l' := List.filterMap_append

@[simp] theorem doneOf_append (l l' : List (PoolEvent κ α)) :
    doneOf r (l ++ l') = doneOf r l ++ doneOf r l' := by
  simp [doneOf]

@[simp] theorem entriesOf_append {β : Type*} (l l' : List (ReqId × β)) :
    entriesOf r (l ++ l') = entriesOf r l ++ entriesOf r l' := by
  simp [entriesOf]

@[simp] theorem entriesOf_nil {β : Type*} : entriesOf r ([] : List (ReqId × β)) = [] := rfl

/-- One entry is in the book of its own id only. -/
theorem entriesOf_single {β : Type*} (r' : ReqId) (x : β) :
    entriesOf r [(r', x)] = if r' = r then [x] else [] := by
  by_cases h : r' = r <;> simp [entriesOf, h]

end Lists

/-! ## What a step writes down

Each label of the lane continues the book by what it says. -/

/-- The wake-up a worker serves and the task it executes for it have one id.  So the log, which
    names the task, and the lane, which names the wake-up, agree on whose execution it is. -/
def PoolSys.ExecMatches (s : PoolSys κ α) : Prop :=
  ∀ w t r u, (s.workers w).exec = .running t r u → t.requestId = r

section Step

variable [DecidableEq κ] {r : ReqId} {s s' : PoolSys κ α} {st st' : Story κ α} {a : PoolAction κ α}
  {l : LaneLabel κ α} {L' : Lane κ α} {c : κ} {alloc : Alloc}

/-- A worker that takes a task takes one that answers the wake-up. -/
theorem execMatches_step (hI : s.ExecMatches) (h : s.step a = some s') : s'.ExecMatches := by
  intro w t r u ht
  rcases PoolSys.exec_effect h ht with hold | ⟨-, -, hans⟩
  · exact hI w t r u hold
  · exact answersWakeUp_requestId hans

/-- A step of the pool continues the book by the events it logs.  The two lists beside the log are
    continued by what `Story.step` writes down. -/
theorem book_of_events (h : st.step a = some st') (events : List (PoolEvent κ α))
    (hlog : st'.pool.log = st.pool.log ++ events) :
    bookOf r st' = ⟨(bookOf r st).queued ++ queuedOf r events,
      (bookOf r st).woken ++ entriesOf r (st.pool.wokenBy a),
      (bookOf r st).outcomes ++ outcomesOf r events,
      (bookOf r st).done ++ doneOf r events,
      (bookOf r st).removed ++ entriesOf r (st.pool.removedBy a)⟩ := by
  obtain ⟨s', -, rfl⟩ := Option.map_eq_some_iff.mp h
  have hlog : s'.log = st.pool.log ++ events := hlog
  simp only [bookOf, hlog, queuedOf_append, outcomesOf_append, doneOf_append, entriesOf_append]

/-- The book stays as it is when nothing is written down. -/
theorem book_same (h : st.step a = some st') (hlog : st'.pool.log = st.pool.log)
    (hwoken : entriesOf r (st.pool.wokenBy a) = [])
    (hremoved : entriesOf r (st.pool.removedBy a) = []) : bookOf r st' = bookOf r st := by
  rw [book_of_events h [] (by rw [hlog, List.append_nil]), hwoken, hremoved]
  simp [queuedOf, outcomesOf, doneOf, accepted, executed]

/-- The steps of the lane that a section of call `c` may be, by where the lane sees the call.  It is
    `Explains` and `LaneStep` read together, so that the lemmas below split on the place of one
    call. -/
theorem label_of_advance {L : Lane κ α} (hexp : Explains r s (.advance c alloc) l)
    (hl : LaneStep r L l L') : l = .tau ∧ L' = L ∨
      L.calls c = .submitting ∧ (l = .giveUp c ∧ L'.calls c = .idle ∨
        ∃ w nodes, l = .attach c w nodes ∧ L'.calls c = .recording w nodes.length) ∨
      (∃ w k ok, L.calls c = .recording w k ∧ l = .record c ok) ∨
      (∃ u w, L.calls c = .waking u w ∧ (l = .dropWake c ∧ alloc ≠ .ok ∨
        l = .pushWake c ∧ L'.wakes w = L.wakes w ++ [u])) ∨
      (∃ w, L.calls c = .cancelling w ∧ l = .cancelQueue c) ∨
      ∃ k, L.calls c = .uncounting k ∧ l = .uncount c := by
  cases hl with
  | tau => exact .inl ⟨rfl, rfl⟩
  | giveUp hc =>
    obtain ⟨_, ha⟩ := hexp
    cases ha
    exact .inr (.inl ⟨hc, .inl ⟨rfl, Function.update_self ..⟩⟩)
  | attach hc =>
    obtain ⟨_, _, ha, -⟩ := hexp
    cases ha
    exact .inr (.inl ⟨hc, .inr ⟨_, _, rfl, Function.update_self ..⟩⟩)
  | record hc =>
    obtain ⟨_, _, _, _, ha, -⟩ := hexp
    cases ha
    exact .inr (.inr (.inl ⟨_, _, _, hc, rfl⟩))
  | pushWake hc =>
    obtain ⟨_, ha⟩ := hexp
    cases ha
    exact .inr (.inr (.inr (.inl ⟨_, _, hc, .inr ⟨rfl, Function.update_self ..⟩⟩)))
  | dropWake hc =>
    obtain ⟨_, ha, halloc⟩ := hexp
    cases ha
    exact .inr (.inr (.inr (.inl ⟨_, _, hc, .inl ⟨rfl, halloc⟩⟩)))
  | cancelQueue hc =>
    obtain ⟨_, ha⟩ := hexp
    cases ha
    exact .inr (.inr (.inr (.inr (.inl ⟨_, hc, rfl⟩))))
  | uncount hc =>
    obtain ⟨_, ha⟩ := hexp
    cases ha
    exact .inr (.inr (.inr (.inr (.inr ⟨_, hc, rfl⟩))))
  | submit =>
    obtain ⟨_, _, ha, -⟩ := hexp
    cases ha
  | _ => cases hexp

/-- The steps of the lane that a turn of worker `w` may be.  What it serves is added to `served` in
    either case. -/
theorem label_of_pop {L L' : Lane κ α} {w : Nat} (hexp : Explains r s (.pop w) l)
    (hl : LaneStep r L l L') : l = .tau ∧ L' = L ∨
      (∃ task u, l = .take w task u ∧ L'.exec w = .running task r u ∧
        L'.served = L.served ++ [u]) ∨
      ∃ u, l = .miss w u ∧ L.exec w = .loop ∧ L'.exec w = L.exec w ∧ L'.served = L.served ++ [u] := by
  cases hl with
  | tau => exact .inl ⟨rfl, rfl⟩
  | take =>
    cases hexp
    exact .inr (.inl ⟨_, _, rfl, Function.update_self .., rfl⟩)
  | miss hexec =>
    cases hexp
    exact .inr (.inr ⟨_, rfl, hexec, rfl, rfl⟩)
  | _ => simp [Explains] at hexp

/-- Nothing is written down where the lane sees no call, a submission that does not queue its tasks,
    or the record of its context. -/
theorem next_quiet {L : Lane κ α} (B : LaneBook α) (hexp : Explains r s (.advance c alloc) l)
    (hl : LaneStep r L l L') (hc : L.calls c = .idle ∨
      L.calls c = .submitting ∧ (∀ w k, L'.calls c ≠ .recording w k) ∨
      ∃ w k, L.calls c = .recording w k) : B.next L l = B := by
  rcases label_of_advance hexp hl with ⟨rfl, -⟩ | ⟨hc', ⟨rfl, -⟩ | ⟨w, nodes, rfl, hrec⟩⟩ |
      ⟨w, k, ok, -, rfl⟩ | ⟨u, w, hc', -⟩ | ⟨w, hc', -⟩ | ⟨k, hc', -⟩
  · rfl
  · rfl
  · rw [hc'] at hc
    rcases hc with hc | ⟨-, hno⟩ | ⟨w', k, hc⟩
    · cases hc
    · exact absurd hrec (hno _ _)
    · cases hc
  · rfl
  all_goals
    rw [hc'] at hc
    rcases hc with hc | ⟨hc, -⟩ | ⟨_, _, hc⟩ <;> cases hc

omit [DecidableEq κ] in
/-- A submission about `r` that has not queued its tasks, and any other, through the lane. -/
theorem laneCall_of_pending {pc : Call α} {sub : Submission α} (hp : pc.submitPhase = .pending sub) :
    laneCall r pc = if sub.requestId = r then .submitting else .idle := by
  rcases pending_cases hp with ⟨_, _, _, rfl⟩ | ⟨_, _, _, rfl⟩ | ⟨_, _, rfl⟩ <;> rfl

/-- A submission writes down the tasks it queues.  It is the one section that queues; scanning and
    building leave the book alone. -/
theorem book_pending {sub : Submission α} (hcarry : st.pool.Carries)
    (hp : (st.pool.calls c).submitPhase = .pending sub)
    (h : st.step (.advance c alloc) = some st') (hs : st.pool.advance c alloc = some st'.pool)
    (hl : LaneStep r (lane r st.pool) l (lane r st'.pool))
    (hexp : Explains r st.pool (.advance c alloc) l) :
    bookOf r st' = (bookOf r st).next (lane r st.pool) l := by
  have hlane : (lane r st.pool).calls c = if sub.requestId = r then .submitting else .idle := by
    rw [lane_calls, laneCall_of_pending hp]
  have hwoken : st.pool.wokenBy (.advance c alloc) = [] := by
    rcases pending_cases hp with ⟨_, _, _, hc⟩ | ⟨_, _, _, hc⟩ | ⟨_, _, hc⟩ <;>
      simp only [PoolSys.wokenBy, hc]
  have hremoved : st.pool.removedBy (.advance c alloc) = [] := by
    rcases pending_cases hp with ⟨_, _, _, hc⟩ | ⟨_, _, _, hc⟩ | ⟨_, _, hc⟩ <;>
      simp only [PoolSys.removedBy, hc]
  rcases PoolSys.advance_pending hs hp with ⟨hun, hphase⟩ | ⟨w, nodes, hc, hs'⟩
  · rw [book_same h hun.log (by rw [hwoken]; rfl) (by rw [hremoved]; rfl), next_quiet _ hexp hl]
    by_cases hr : sub.requestId = r
    · rw [if_pos hr] at hlane
      refine .inr (.inl ⟨hlane, fun w k hrec => ?_⟩)
      obtain ⟨sub', nodes, hrec, -⟩ := laneCall_recording hrec
      rw [hrec] at hphase
      rcases hphase with hphase | hphase
      · cases submitPhase_eq_refused.mp hphase
      · exact absurd hphase not_pending_of_recording
    · rw [if_neg hr] at hlane
      exact .inl hlane
  · have hlog : st'.pool.log = st.pool.log ++ nodes.map (.attached c w) := by rw [hs']; rfl
    have hid : ∀ t ∈ nodes, t.requestId = sub.requestId := by
      have := hcarry c
      rw [hc] at this
      exact requestId_of_created this.2
    obtain ⟨hacc, hexe, -, -⟩ := log_attached c w nodes
    have hout : outcomesOf r (nodes.map (PoolEvent.attached c w)) = [] := by
      simp [outcomesOf, List.filterMap_map]
    rw [book_of_events h _ hlog, hwoken, hremoved, hout, doneOf, hexe, queuedOf, hacc]
    by_cases hr : sub.requestId = r
    · rw [if_pos hr] at hlane
      have hrec : (lane r st'.pool).calls c = .recording w nodes.length := by
        rw [lane_calls, hs', PoolSys.calls_setCall_self, laneCall, if_pos hr]
      rcases label_of_advance hexp hl with ⟨rfl, hsame⟩ | ⟨-, ⟨-, hidle⟩ | ⟨w', nodes', rfl, -⟩⟩ |
        ⟨_, _, _, hc', -⟩ | ⟨_, _, hc', -⟩ | ⟨_, hc', -⟩ | ⟨_, hc', -⟩
      · rw [hsame, hlane] at hrec
        cases hrec
      · rw [hidle] at hrec
        cases hrec
      · obtain ⟨sub', alloc', -, hc', -⟩ := hexp
        rw [hc] at hc'
        cases hc'
        rw [List.filter_eq_self.mpr fun t ht => by simpa [hr] using hid t ht]
        simp [LaneBook.next]
      all_goals
        rw [hlane] at hc'
        cases hc'
    · rw [if_neg hr] at hlane
      rw [next_quiet _ hexp hl (.inl hlane),
        List.filter_eq_nil_iff.mpr fun t ht => by simpa [hid t ht] using hr]
      simp

omit [DecidableEq κ] in
/-- A book in which a step writes down no task. -/
theorem book_no_event (B : LaneBook α) (woken : List (BitVec 64)) (removed : List Int) :
    (⟨B.queued ++ queuedOf r ([] : List (PoolEvent κ α)), B.woken ++ woken,
      B.outcomes ++ outcomesOf r ([] : List (PoolEvent κ α)),
      B.done ++ doneOf r ([] : List (PoolEvent κ α)), B.removed ++ removed⟩ : LaneBook α) =
    { B with woken := B.woken ++ woken, removed := B.removed ++ removed } := by
  simp [queuedOf, outcomesOf, doneOf, accepted, executed]

/-- A wake-up is written down when it is accepted.  For another id than `r` it is written down too,
    but not in the book of `r`. -/
theorem book_waking {reqId : ReqId} {u : BitVec 64} {w : Nat}
    (hc : st.pool.calls c = .waking reqId u w) (h : st.step (.advance c alloc) = some st')
    (hs : st.pool.advance c alloc = some st'.pool)
    (hl : LaneStep r (lane r st.pool) l (lane r st'.pool))
    (hexp : Explains r st.pool (.advance c alloc) l) :
    bookOf r st' = (bookOf r st).next (lane r st.pool) l := by
  have hlane : (lane r st.pool).calls c = laneCall r (st.pool.calls c) := rfl
  have hlog : st'.pool.log = st.pool.log :=
    (PoolSys.advance_quiet hs (by rw [hc]; rfl) (by rw [hc]; rfl)).log
  have hwoken : st.pool.wokenBy (.advance c alloc) = if alloc = .ok then [(reqId, u)] else [] := by
    simp only [PoolSys.wokenBy, hc]
  have hremoved : st.pool.removedBy (.advance c alloc) = [] := by
    simp only [PoolSys.removedBy, hc]
  rw [book_of_events h [] (by rw [hlog, List.append_nil]), hwoken, hremoved,
    book_no_event]
  by_cases hr : reqId = r
  · rw [hc, laneCall, if_pos hr] at hlane
    have hpool : (lane r st'.pool).calls c = .idle ∧
        (alloc ≠ .ok → (lane r st'.pool).wakes = (lane r st.pool).wakes) := by
      simp only [PoolSys.advance, hc] at hs
      split at hs
      · rename_i halloc
        rw [← Option.some.inj hs, lane_calls, PoolSys.calls_setCall_self]
        exact ⟨rfl, fun hne => absurd halloc hne⟩
      · rw [← Option.some.inj hs, lane_calls, PoolSys.calls_setCall_self]
        exact ⟨rfl, fun _ => rfl⟩
    rcases label_of_advance hexp hl with ⟨rfl, hsame⟩ | ⟨hc', -⟩ | ⟨_, _, _, hc', -⟩ |
      ⟨u', w', hc', ⟨rfl, halloc⟩ | ⟨rfl, hpush⟩⟩ | ⟨_, hc', -⟩ | ⟨_, hc', -⟩
    · have hidle := hpool.1
      rw [hsame, hlane] at hidle
      cases hidle
    · rw [hlane] at hc'
      cases hc'
    · rw [hlane] at hc'
      cases hc'
    · rw [if_neg halloc]
      simp [LaneBook.next]
    · have halloc : alloc = .ok := by
        by_contra hne
        -- a wake-up that is not accepted leaves the lists
        rw [hpool.2 hne] at hpush
        simp at hpush
      rw [hlane] at hc'
      cases hc'
      rw [if_pos halloc, entriesOf_single, if_pos hr]
      simp only [LaneBook.next, hlane, entriesOf_nil, List.append_nil]
    all_goals
      rw [hlane] at hc'
      cases hc'
  · rw [hc, laneCall, if_neg hr] at hlane
    have hnone : entriesOf r (if alloc = .ok then [(reqId, u)] else []) = [] := by
      split
      · rw [entriesOf_single, if_neg hr]
      · rfl
    rw [next_quiet _ hexp hl (.inl hlane), hnone]
    simp

/-- A cancel that removes nothing is written down at once.  Nothing is to be counted off, so it has
    no third section. -/
theorem book_cancelling {reqId : ReqId} {w : Nat} (hc : st.pool.calls c = .cancelling reqId w)
    (h : st.step (.advance c alloc) = some st') (hs : st.pool.advance c alloc = some st'.pool)
    (hl : LaneStep r (lane r st.pool) l (lane r st'.pool))
    (hexp : Explains r st.pool (.advance c alloc) l) :
    bookOf r st' = (bookOf r st).next (lane r st.pool) l := by
  have hlane : (lane r st.pool).calls c = laneCall r (st.pool.calls c) := rfl
  have hpool : st'.pool.log
        = st.pool.log ++ (cancelledNodes (st.pool.workers w) reqId).map (.cancelled c) ∧
      st'.pool.calls c = if (cancelledNodes (st.pool.workers w) reqId).length % 2 ^ 32 > 0 then
        .uncounting reqId (cancelledNodes (st.pool.workers w) reqId).length
        else .done (.removed (cancelledNodes (st.pool.workers w) reqId).length) := by
    simp only [PoolSys.advance, hc] at hs
    rw [← Option.some.inj hs, PoolSys.calls_setCall_self]
    exact ⟨rfl, rfl⟩
  obtain ⟨hacc, hexe, -, -⟩ := log_cancelled c (cancelledNodes (st.pool.workers w) reqId)
  have hout : outcomesOf r ((cancelledNodes (st.pool.workers w) reqId).map
      (PoolEvent.cancelled c)) = [] := by
    simp [outcomesOf, List.filterMap_map]
  have hwoken : st.pool.wokenBy (.advance c alloc) = [] := by simp only [PoolSys.wokenBy, hc]
  have hremoved : st.pool.removedBy (.advance c alloc) =
      if (cancelledNodes (st.pool.workers w) reqId).length % 2 ^ 32 > 0 then []
      else [(reqId, cInt (cancelledNodes (st.pool.workers w) reqId).length)] := by
    simp only [PoolSys.removedBy, hc]
  rw [book_of_events h _ hpool.1, hout, queuedOf, hacc, doneOf, hexe, hwoken, hremoved]
  by_cases hr : reqId = r
  · rw [hc, laneCall, if_pos hr] at hlane
    have hleft : (lane r st'.pool).calls c ≠ .cancelling w := by
      rw [lane_calls, hpool.2]
      split <;> simp [laneCall, hr]
    rcases label_of_advance hexp hl with ⟨rfl, hsame⟩ | ⟨hc', -⟩ | ⟨_, _, _, hc', -⟩ |
      ⟨_, _, hc', -⟩ | ⟨w', hc', rfl⟩ | ⟨_, hc', -⟩
    · exact absurd (hsame ▸ hlane) hleft
    · rw [hlane] at hc'
      cases hc'
    · rw [hlane] at hc'
      cases hc'
    · rw [hlane] at hc'
      cases hc'
    · have hqueue : (lane r st.pool).queue w = cancelledNodes (st.pool.workers w) reqId := by
        rw [hr]
        rfl
      simp only [LaneBook.next, hlane, hqueue]
      split
      · simp
      · rw [entriesOf_single, if_pos hr]
        simp [LaneBook.returned]
    · rw [hlane] at hc'
      cases hc'
  · rw [hc, laneCall, if_neg hr] at hlane
    have hnone : entriesOf r (if (cancelledNodes (st.pool.workers w) reqId).length % 2 ^ 32 > 0
        then [] else [(reqId, cInt (cancelledNodes (st.pool.workers w) reqId).length)]) = [] := by
      split
      · rfl
      · rw [entriesOf_single, if_neg hr]
    rw [next_quiet _ hexp hl (.inl hlane), hnone]
    simp

/-- Any other cancel is written down when it has counted off what it removed.  That is its last
    section, and after it the caller has its answer. -/
theorem book_uncounting {reqId : ReqId} {removed : Nat}
    (hc : st.pool.calls c = .uncounting reqId removed) (h : st.step (.advance c alloc) = some st')
    (hs : st.pool.advance c alloc = some st'.pool)
    (hl : LaneStep r (lane r st.pool) l (lane r st'.pool))
    (hexp : Explains r st.pool (.advance c alloc) l) :
    bookOf r st' = (bookOf r st).next (lane r st.pool) l := by
  have hlane : (lane r st.pool).calls c = laneCall r (st.pool.calls c) := rfl
  have hpool : st'.pool.log = st.pool.log ∧ (lane r st'.pool).calls c = .idle := by
    simp only [PoolSys.advance, hc] at hs
    rw [← Option.some.inj hs, lane_calls, PoolSys.calls_setCall_self]
    exact ⟨rfl, rfl⟩
  have hwoken : st.pool.wokenBy (.advance c alloc) = [] := by simp only [PoolSys.wokenBy, hc]
  have hremoved : st.pool.removedBy (.advance c alloc) = [(reqId, cInt removed)] := by
    simp only [PoolSys.removedBy, hc]
  rw [book_of_events h [] (by rw [hpool.1, List.append_nil]), hwoken, hremoved,
    book_no_event, entriesOf_single]
  by_cases hr : reqId = r
  · rw [hc, laneCall, if_pos hr] at hlane
    rcases label_of_advance hexp hl with ⟨rfl, hsame⟩ | ⟨hc', -⟩ | ⟨_, _, _, hc', -⟩ |
      ⟨_, _, hc', -⟩ | ⟨_, hc', -⟩ | ⟨k, hc', rfl⟩
    · have hidle := hpool.2
      rw [hsame, hlane] at hidle
      cases hidle
    · rw [hlane] at hc'
      cases hc'
    · rw [hlane] at hc'
      cases hc'
    · rw [hlane] at hc'
      cases hc'
    · rw [hlane] at hc'
      cases hc'
    · rw [if_pos hr]
      simp only [LaneBook.next, hlane, LaneBook.returned, entriesOf_nil, List.append_nil]
  · rw [hc, laneCall, if_neg hr] at hlane
    rw [next_quiet _ hexp hl (.inl hlane), if_neg hr]
    simp

/-- A section of a call writes down what it is in the lane.  The cases are the places of a call;
    each has its own lemma above. -/
theorem book_advance (hcarry : st.pool.Carries) (h : st.step (.advance c alloc) = some st')
    (hs : st.pool.advance c alloc = some st'.pool)
    (hl : LaneStep r (lane r st.pool) l (lane r st'.pool))
    (hexp : Explains r st.pool (.advance c alloc) l) :
    bookOf r st' = (bookOf r st).next (lane r st.pool) l := by
  cases hc : st.pool.calls c with
  | idle => simp [PoolSys.advance, hc] at hs
  | done result => simp [PoolSys.advance, hc] at hs
  | selecting | building | attaching =>
    exact book_pending hcarry (by rw [hc]; rfl) h hs hl hexp
  | recording sub w nodes =>
    obtain ⟨hq, -⟩ := PoolSys.advance_recording hs hc
    rw [book_same h hq.log (by simp [PoolSys.wokenBy, hc]) (by simp [PoolSys.removedBy, hc]),
      next_quiet _ hexp hl]
    rw [lane_calls, hc, laneCall]
    by_cases hr : sub.requestId = r
    · rw [if_pos hr]
      exact .inr (.inr ⟨_, _, rfl⟩)
    · rw [if_neg hr]
      exact .inl rfl
  | waking => exact book_waking hc h hs hl hexp
  | cancelling => exact book_cancelling hc h hs hl hexp
  | uncounting => exact book_uncounting hc h hs hl hexp

/-- A worker writes down what it finds for a wake-up.  The log names the task that was taken, and
    for a miss the id of the wake-up. -/
theorem book_pop {w : Nat} (h : st.step (.pop w) = some st') (hs : st.pool.pop w = some st'.pool)
    (hl : LaneStep r (lane r st.pool) l (lane r st'.pool)) (hexp : Explains r st.pool (.pop w) l) :
    bookOf r st' = (bookOf r st).next (lane r st.pool) l := by
  have hlabel := label_of_pop hexp hl
  have hserved : (lane r st'.pool).served = servedOf r st'.pool.log := rfl
  obtain ⟨-, -, ⟨-, hs'⟩ | ⟨p, pending, task, queue, -, hq, hs'⟩ | ⟨p, pending, -, -, hs'⟩⟩ :=
    pop_cases hs
  · have hlog : st'.pool.log = st.pool.log := by
      rw [hs']
      rfl
    rw [book_same h hlog rfl rfl]
    rcases hlabel with ⟨rfl, -⟩ | ⟨task, u, rfl, -, hgrow⟩ | ⟨u, rfl, -, -, hgrow⟩
    · rfl
    · rw [hserved, hlog] at hgrow
      simp at hgrow
    · rw [hserved, hlog] at hgrow
      simp at hgrow
  · have hlog : st'.pool.log = st.pool.log ++ [.taken w task p.userData] := by
      rw [hs']
      rfl
    have hexec : (lane r st'.pool).exec w
        = laneExec r (.running task p.requestId p.userData) := by
      rw [hs', lane_exec]
      show laneExec r (Function.update st.pool.workers w _ w).exec = _
      rw [Function.update_self]
    have htask : task.requestId = p.requestId :=
      answersWakeUp_requestId (Queue.popFirst_mem hq).2
    rw [book_of_events h _ hlog]
    simp only [PoolSys.wokenBy, PoolSys.removedBy, entriesOf_nil, List.append_nil]
    rcases hlabel with ⟨rfl, hsame⟩ | ⟨task', u, rfl, hrun, hgrow⟩ | ⟨u, rfl, hloop, hkeep, hgrow⟩
    -- the wake-up is of another id: the log says nothing about `r`
    · have hr : p.requestId ≠ r := by
        intro hr
        have hserved' : (lane r st'.pool).served = (lane r st.pool).served := by rw [hsame]
        rw [hserved, hlog] at hserved'
        simp [servedOf, htask, hr] at hserved'
      simp [queuedOf, outcomesOf, doneOf, accepted, executed, htask, hr, LaneBook.next]
    · have hr : p.requestId = r := by
        by_contra hr
        rw [hexec, laneExec, if_neg hr] at hrun
        cases hrun
      rw [hexec, laneExec, if_pos hr] at hrun
      cases hrun
      simp [queuedOf, outcomesOf, doneOf, accepted, executed, htask, LaneBook.next]
    · have hr : p.requestId = r := by
        by_contra hr
        rw [hserved, hlog] at hgrow
        simp [servedOf, htask, hr] at hgrow
      rw [hexec, laneExec, if_pos hr, hloop] at hkeep
      cases hkeep
  · have hlog : st'.pool.log = st.pool.log ++ [.missed w p.requestId p.userData] := by
      rw [hs']
      rfl
    have hexec : (lane r st'.pool).exec w = (lane r st.pool).exec w := by
      rw [hs', lane_exec]
      show laneExec r (Function.update st.pool.workers w _ w).exec = _
      rw [Function.update_self]
      rfl
    rw [book_of_events h _ hlog]
    simp only [PoolSys.wokenBy, PoolSys.removedBy, entriesOf_nil, List.append_nil]
    rcases hlabel with ⟨rfl, hsame⟩ | ⟨task', u, rfl, hrun, hgrow⟩ | ⟨u, rfl, hloop, hkeep, hgrow⟩
    -- likewise for a wake-up that is missed
    · have hr : p.requestId ≠ r := by
        intro hr
        have hserved' : (lane r st'.pool).served = (lane r st.pool).served := by rw [hsame]
        rw [hserved, hlog] at hserved'
        simp [servedOf, hr] at hserved'
      simp [queuedOf, outcomesOf, doneOf, accepted, executed, hr, LaneBook.next]
    · rw [hexec, lane_exec, (pop_cases hs).1] at hrun
      cases hrun
    · have hr : p.requestId = r := by
        by_contra hr
        rw [hserved, hlog] at hgrow
        simp [servedOf, hr] at hgrow
      simp [queuedOf, outcomesOf, doneOf, accepted, executed, hr, LaneBook.next]

/-- A worker writes down the task whose function has returned.  Whose it is the lane tells by the
    wake-up, and `ExecMatches` says that this is the id of the task. -/
theorem book_finish {w : Nat} {ret : Int} (hmatch : st.pool.ExecMatches)
    (h : st.step (.finish w ret) = some st') (hs : st.pool.finish w ret = some st'.pool)
    (hl : LaneStep r (lane r st.pool) l (lane r st'.pool))
    (hexp : Explains r st.pool (.finish w ret) l) :
    bookOf r st' = (bookOf r st).next (lane r st.pool) l := by
  unfold PoolSys.finish at hs
  split at hs
  · rename_i task reqId u hexec
    have hs' := (Option.some.inj hs).symm
    have hlog : st'.pool.log = st.pool.log ++ PoolSys.finishEvents w task ret := by
      rw [hs']
      rfl
    have htask : task.requestId = reqId := hmatch w task reqId u hexec
    have hlane : (lane r st.pool).exec w
        = if reqId = r then .running task reqId u else .loop := by
      rw [lane_exec, hexec]
      rfl
    have hlane' : (lane r st'.pool).exec w
        = if reqId = r then .returned task reqId ret else .loop := by
      rw [hs', lane_exec]
      show laneExec r (Function.update st.pool.workers w _ w).exec = _
      rw [Function.update_self]
      rfl
    obtain ⟨hacc, hexe, -, -⟩ := log_finished (κ := κ) w task ret
    have hout : outcomesOf r (PoolSys.finishEvents (κ := κ) w task ret) = [] := by
      unfold PoolSys.finishEvents
      cases task.taskArg.completeCb <;> rfl
    rw [book_of_events h _ hlog, queuedOf, hacc, hout, doneOf, hexe]
    simp only [PoolSys.wokenBy, PoolSys.removedBy, entriesOf_nil, List.append_nil]
    generalize lane r st'.pool = L' at hl hlane'
    cases l with
    | tau =>
      cases hl
      by_cases hr : reqId = r
      · rw [if_pos hr] at hlane hlane'
        rw [hlane] at hlane'
        cases hlane'
      · simp [LaneBook.next, htask, hr]
    | finish w' ret' =>
      cases hexp
      cases hl with
      | finish hrun =>
        rw [hlane] at hrun
        by_cases hr : reqId = r
        · rw [if_pos hr] at hlane
          simp only [LaneBook.next, hlane]
          simp [htask, hr]
        · rw [if_neg hr] at hrun
          cases hrun
    | _ => simp [Explains] at hexp
  · cases hs

/-- Accounting for a task writes nothing to the book.  The callback that may be due is an event of
    the log, but none of the four the book is made from. -/
theorem book_account {w : Nat} (h : st.step (.account w) = some st')
    (hs : st.pool.step (.account w) = some st'.pool) (hexp : Explains r st.pool (.account w) l) :
    bookOf r st' = (bookOf r st).next (lane r st.pool) l := by
  simp only [PoolSys.step, PoolSys.account] at hs
  split at hs
  · rename_i task reqId ret hexec
    have hlog : st'.pool.log = st.pool.log
        ++ (accountBatchCb st.pool.reqHash reqId).toList.map PoolSys.batchCbEvent := by
      rw [← Option.some.inj hs]
      rfl
    obtain ⟨hacc, hexe, -, -⟩ := log_batchCb (κ := κ) (α := α)
      (accountBatchCb st.pool.reqHash reqId)
    have hout : outcomesOf r ((accountBatchCb st.pool.reqHash reqId).toList.map
        (PoolSys.batchCbEvent (κ := κ) (α := α))) = [] := by
      cases accountBatchCb st.pool.reqHash reqId <;> rfl
    rw [book_of_events h _ hlog, queuedOf, hacc, hout, doneOf, hexe]
    simp only [PoolSys.wokenBy, PoolSys.removedBy, entriesOf_nil, List.append_nil]
    cases l with
    | tau | account => simp [LaneBook.next]
    | _ => simp [Explains] at hexp
  · cases hs

/-- A cancel that finds a context writes nothing yet; one that finds none answers `0` without a step
    of the lane. -/
theorem book_cancel {c : κ} {reqId : ReqId} (h : st.step (.cancel c reqId) = some st')
    (hs : st.pool.step (.cancel c reqId) = some st'.pool)
    (hl : LaneStep r (lane r st.pool) l (lane r st'.pool))
    (hexp : Explains r st.pool (.cancel c reqId) l) :
    bookOf r st' = (bookOf r st).next (lane r st.pool) l ∨
      lane r st'.pool = lane r st.pool ∧ reqId = r ∧ (lane r st.pool).ctx = none ∧
        bookOf r st' = (bookOf r st).returned 0 := by
  have hlog := (PoolSys.unchanged_cancel hs).quiet.log
  have hnext : (bookOf r st).next (lane r st.pool) l = bookOf r st := by
    cases l with
    | tau | lookCancel => rfl
    | _ => simp [Explains] at hexp
  rw [hnext]
  by_cases hnone : reqId = r ∧ st.pool.isRunning = true ∧ st.pool.reqHash.find r = none
  · right
    obtain ⟨rfl, hrun, hfind⟩ := hnone
    refine ⟨?_, rfl, hfind, ?_⟩
    · cases l with
      | tau => exact lane_tau hl
      | lookCancel =>
        exfalso
        generalize lane reqId st'.pool = L' at hl
        cases hl with
        | lookCancel _ hctx =>
          rw [lane_ctx, hfind] at hctx
          cases hctx
      | _ => simp [Explains] at hexp
    · rw [book_of_events h [] (by rw [hlog, List.append_nil]), book_no_event]
      simp [PoolSys.wokenBy, PoolSys.removedBy, hrun, hfind, entriesOf_single, LaneBook.returned]
  · left
    refine book_same h hlog rfl ?_
    unfold PoolSys.removedBy
    simp only
    split
    · rename_i hrun
      split
      · rename_i hfind
        rw [entriesOf_single, if_neg]
        rintro rfl
        exact hnone ⟨rfl, hrun, hfind⟩
      · rfl
    · rfl

/-- **The book of `r` is continued by the steps of its lane**, and by cancels that find no context.
    So an invariant about book and lane together is proved over `LaneStep` and one extra entry. -/
theorem book_step (hcarry : st.pool.Carries) (hmatch : st.pool.ExecMatches)
    (h : st.step a = some st') :
    ∃ l, LaneStep r (lane r st.pool) l (lane r st'.pool) ∧ Explains r st.pool a l ∧
      (bookOf r st' = (bookOf r st).next (lane r st.pool) l ∨
        lane r st'.pool = lane r st.pool ∧ (∃ c, a = .cancel c r) ∧
          (lane r st.pool).ctx = none ∧ bookOf r st' = (bookOf r st).returned 0) := by
  obtain ⟨s', hs, hst⟩ := Option.map_eq_some_iff.mp h
  obtain rfl : st'.pool = s' := by rw [← hst]
  obtain ⟨l, hl, hexp⟩ := lane_step (r := r) hcarry hs
  refine ⟨l, hl, hexp, ?_⟩
  cases a with
  | advance c alloc => exact .inl (book_advance hcarry h hs hl hexp)
  | pop w => exact .inl (book_pop h hs hl hexp)
  | finish w ret => exact .inl (book_finish hmatch h hs hl hexp)
  | account w => exact .inl (book_account h hs hexp)
  | submit c sub alloc =>
    rw [book_same h (PoolSys.unchanged_submit hs).quiet.log rfl rfl]
    left
    cases l with
    | tau | submit => rfl
    | _ => simp [Explains] at hexp
  | wake c reqId u =>
    rw [book_same h (PoolSys.unchanged_wake hs).quiet.log rfl rfl]
    left
    cases l with
    | tau | lookWake => rfl
    | _ => simp [Explains] at hexp
  | collect c =>
    rw [book_same h (PoolSys.unchanged_collect hs).quiet.log rfl rfl]
    left
    cases l with
    | tau => rfl
    | _ => simp [Explains] at hexp
  | cancel c reqId =>
    rcases book_cancel h hs hl hexp with hsame | ⟨hlane, rfl, hnone, hbook⟩
    · exact .inl hsame
    · exact .inr ⟨hlane, ⟨c, rfl⟩, hnone, hbook⟩

end Step

/-! ## An id under which tasks are queued once

The induction for such an id. -/

section Sole

variable [DecidableEq κ] {r : ReqId} {workerCount : Nat} {st : Story κ α}
  {ok : Story κ α → PoolAction κ α → Prop}

/-- A run of the story is a run of the pool. -/
theorem story_pool_reach (h : (storySystem κ α workerCount).Reach ok st) :
    (poolSystem κ α workerCount).Reach (fun _ _ => True) st.pool := by
  refine h.simulate Story.pool ?_ ?_
  · rintro st rfl
    rfl
  · intro st a st' _ _ _ hs
    obtain ⟨s', hpool, rfl⟩ := Option.map_eq_some_iff.mp hs
    exact .inr ⟨a, trivial, hpool⟩

/-- In every run. -/
theorem story_execMatches (h : (storySystem κ α workerCount).Reach ok st) :
    st.pool.ExecMatches := by
  refine h.invariant (I := fun st => st.pool.ExecMatches) ?_ ?_
  · rintro st rfl w t r u ht
    cases ht
  · intro st a st' _ hI _ hs
    obtain ⟨s', hpool, rfl⟩ := Option.map_eq_some_iff.mp hs
    exact execMatches_step hI hpool

omit [DecidableEq κ] in
/-- Only an attach writes down queued tasks. -/
theorem next_queued (B : LaneBook α) (L : Lane κ α) {l : LaneLabel κ α}
    (hatt : ∀ c w nodes, l ≠ .attach c w nodes) : (B.next L l).queued = B.queued := by
  unfold LaneBook.next
  cases l with
  | attach c w nodes => exact absurd rfl (hatt c w nodes)
  | cancelQueue c =>
    dsimp only
    split
    · split <;> rfl
    · rfl
  | pushWake | finish | uncount =>
    dsimp only
    split <;> rfl
  | _ => rfl

/-- Nothing is written down of an untouched lane.  There is no task to be queued, found or executed,
    and no call that could return anything. -/
theorem Lane.Untouched.next {L L' : Lane κ α} {l : LaneLabel κ α} (h : L.Untouched)
    (hl : LaneStep r L l L') (hatt : ∀ c w nodes, l ≠ .attach c w nodes) (B : LaneBook α) :
    B.next L l = B := by
  cases hl with
  | attach => exact absurd rfl (hatt _ _ _)
  | pushWake hc | cancelQueue hc | uncount hc => exact (h.not_loaded hc (by simp) (by simp)).elim
  | @take w _ _ _ _ _ hwake | @miss w _ _ _ hwake =>
    rw [h.wakes w] at hwake
    cases hwake
  | @finish w _ _ _ hexec =>
    rw [h.exec w] at hexec
    cases hexec
  | _ => rfl

/-- Tasks of `r` are queued only if none was queued before.  The condition is on the step that
    queues, so submissions that fail before it do not count. -/
def QueuedOnce (r : ReqId) (st : Story κ α) : PoolAction κ α → Prop
  | .advance c _ => ∀ sub w nodes, st.pool.calls c = .attaching sub w nodes → sub.requestId = r →
      queuedOf r st.pool.log = []
  | _ => True

/-- **Induction over the story of an id under which tasks are queued once.** -/
theorem sole_reach {J : LaneBook α → Lane κ α → Prop}
    (honce : ∀ st a, ok st a → QueuedOnce r st a)
    (hcancel : ∀ st c, ok st (.cancel c r) → queuedOf r st.pool.log ≠ [])
    (hattach : ∀ st a alloc c w nodes sub, ok st a → a = .advance c alloc →
      st.pool.calls c = .attaching sub w nodes → sub.requestId = r →
      List.Forall₂ sub.Created sub.tasks nodes → nodes ≠ [] → (lane r st.pool).Untouched →
      J { LaneBook.blank with queued := nodes } ((lane r st.pool).attached c w nodes))
    (hstep : ∀ st a l L', ok st a → Explains r st.pool a l → J (bookOf r st) (lane r st.pool) →
      LaneStep r (lane r st.pool) l L' → (∀ c w nodes, l ≠ .attach c w nodes) →
      J ((bookOf r st).next (lane r st.pool) l) L')
    (hnone : ∀ st c, ok st (.cancel c r) → J (bookOf r st) (lane r st.pool) →
      (lane r st.pool).ctx = none → J ((bookOf r st).returned 0) (lane r st.pool))
    (h : (storySystem κ α workerCount).Reach ok st) :
    bookOf r st = .blank ∧ (lane r st.pool).Untouched ∨
      queuedOf r st.pool.log ≠ [] ∧ J (bookOf r st) (lane r st.pool) := by
  refine h.invariant (I := fun st => bookOf r st = .blank ∧ (lane r st.pool).Untouched ∨
      queuedOf r st.pool.log ≠ [] ∧ J (bookOf r st) (lane r st.pool)) ?_ ?_
  · rintro st rfl
    exact .inl ⟨rfl, rfl, fun _ => rfl, fun _ => rfl, fun _ => rfl, fun _ => .inl rfl, rfl⟩
  intro st a st' hr hI ha hs
  have hpool := story_pool_reach hr
  obtain ⟨l, hl, hexp, hbook⟩ :=
    book_step (r := r) (PoolSys.carries_reach hpool) (story_execMatches hr) hs
  rcases hI with ⟨hblank, hL⟩ | ⟨hqueued, hJ⟩
  -- nothing has been queued yet
  · rcases hbook with hbook | ⟨-, ⟨c, rfl⟩, -, -⟩
    · rcases untouched_step hL hl with hL' | ⟨c, w, nodes, rfl, -, -, hlane⟩
      · refine .inl ⟨?_, hL'⟩
        rw [hbook, hblank]
        refine hL.next hl ?_ _
        rintro c w nodes rfl
        generalize lane r st'.pool = L' at hl hL'
        cases hl
        exact hL'.not_loaded (c := c) (Function.update_self ..) (by simp) (by simp)
      · right
        obtain ⟨sub, alloc, hact, hcall, hsub⟩ := hexp
        have hcarry := PoolSys.carries_reach hpool c
        rw [hcall] at hcarry
        have hne : nodes ≠ [] := by
          rintro rfl
          exact (PoolSys.submission_reach (P := fun _ => True) (fun _ _ _ _ _ => trivial) hpool
            (by rw [hcall]; rfl)).1 (List.forall₂_nil_right_iff.mp hcarry.2)
        have hbook' : bookOf r st' = { LaneBook.blank with queued := nodes } := by
          rw [hbook, hblank]
          rfl
        refine ⟨?_, ?_⟩
        · show (bookOf r st').queued ≠ []
          rw [hbook']
          exact hne
        · rw [hbook', hlane]
          exact hattach st a alloc c w nodes sub ha hact hcall hsub hcarry.2 hne hL
    · exact absurd (congrArg LaneBook.queued hblank) (hcancel st c ha)
  · right
    -- the tasks are queued, and no submission queues under `r` again
    have hatt : ∀ c w nodes, l ≠ .attach c w nodes := by
      rintro c w nodes rfl
      obtain ⟨sub, alloc, rfl, hcall, hsub⟩ := hexp
      exact hqueued (honce st _ ha sub w nodes hcall hsub)
    rcases hbook with hbook | ⟨hsame, ⟨c, rfl⟩, hctx, hbook⟩
    · refine ⟨?_, hbook ▸ hstep st a l _ ha hexp hJ hl hatt⟩
      show (bookOf r st').queued ≠ []
      rw [hbook, next_queued _ _ hatt]
      exact hqueued
    · refine ⟨?_, by rw [hbook, hsame]; exact hnone st c ha hJ hctx⟩
      show (bookOf r st').queued ≠ []
      rw [hbook]
      exact hqueued

end Sole

end OsTransport
