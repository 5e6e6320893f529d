/-
  What a cancel leaves behind.

  A cancel reads the context, edits the queue and the wake-up list of the worker it names, and takes
  what it removed off the context's count: three sections, and wake-ups, the worker and other
  cancels come in between.  For an id under which tasks were queued once the lane passes through
  phases (`Lane.Winding`): the context counts what is queued or in execution; a cancel empties the
  queue and has still to count off what it removed; the context is gone and the lane is empty.  The
  queue never fills again, so at most one cancel is ever in the second phase, and what is executed,
  executing and returned by cancels adds up to what was submitted.

  The phases need the context, and its count.  If the context cannot be allocated the tasks stay in
  the queue and nobody can find them: a cancel returns 0 at once and the guarantee its caller relies on
  is void (`cancel_without_context`).  And what a cancel returns is its count as an `int`, which from
  2^31 tasks on is not the count.  `quiescent` holds of every run in which the context is allocated
  and fewer tasks are submitted.

  `winding_step` has one lemma for each thing that can happen to a phase (`record`, `cancelQueue`,
  `uncount`, `take`, `finish`, `account`), as the source has one section for each.  Two of them
  carry the argument:

  * `Lane.Winding.cancelQueue`: the queue is emptied, so a second cancel that comes in between finds
    nothing to remove and leaves the phase;
  * `Lane.Winding.uncount`: the number taken off is the number removed, and what is left on the count
    is the task in execution, if there is one.

  The sum in `Quiescent` is the balance of the phase (`hbal`), read when no cancel is under way.
-/
import OsTransport.Fifo
import OsTransport.ContextCount

namespace OsTransport

open Transition

variable {κ α : Type*}

/-! ## The statement

When all is quiet, everything that was submitted is accounted for. -/

/-- The tasks of `r` that wake-ups have found.  Those that found none are left out. -/
def takenOf (r : ReqId) (log : List (PoolEvent κ α)) : List (TaskNode α) :=
  (outcomesOf r log).filterMap id

/-- After a cancel of `r` has returned.  The sum is taken when no cancel of `r` is in progress: one
    that is knows what it has removed, and its caller does not yet. -/
structure Quiescent [DecidableEq κ] (r : ReqId) (st : Story κ α) : Prop where
  /-- No task of `r` is queued, -/
  empty : entriesOf r st.removed ≠ [] → ∀ w, ∀ t ∈ (st.pool.workers w).queue, t.requestId ≠ r
  /-- and whatever happens next takes none: a wake-up of `r` executes nothing. -/
  noneTaken : entriesOf r st.removed ≠ [] → ∀ a s', st.pool.step a = some s' →
    takenOf r s'.log = takenOf r st.pool.log
  /-- At most one is being executed, and with no cancel of `r` in progress the books balance. -/
  balance : ∃ now, st.pool.Executing r now ∧ (entriesOf r st.removed ≠ [] →
    (∀ c, (laneCall r (st.pool.calls c)).cancels = false) →
      ((doneOf r st.pool.log).length : Int) + now.length + (entriesOf r st.removed).sum
        = (queuedOf r st.pool.log).length)

/-- Tasks of `r` are queued by one submission, and cancels of `r` are called after it has
    returned. -/
def CancelledLater (r : ReqId) (st : Story κ α) : PoolAction κ α → Prop
  | .advance c _ => ∀ sub w nodes, st.pool.calls c = .attaching sub w nodes → sub.requestId = r →
      queuedOf r st.pool.log = []
  | .cancel _ reqId => reqId = r → queuedOf r st.pool.log ≠ [] ∧ NoneRecording r st.pool
  | _ => True

/-- A submission of `r` queues fewer than 2^31 tasks, and gets the memory for its context when it
    records it. -/
def ContextCounted (r : ReqId) (st : Story κ α) : PoolAction κ α → Prop
  | .advance c alloc =>
    (∀ sub w nodes, st.pool.calls c = .attaching sub w nodes → sub.requestId = r →
      nodes.length < 2 ^ 31) ∧
    ∀ sub w nodes, st.pool.calls c = .recording sub w nodes →
      sub.requestId = r → sub.single = true ∨ alloc = .ok
  | _ => True

/-! ## The phases of the lane

In each phase it is known what is queued, executing, removed and still to be counted off. -/

/-- The call has a part in the count of the context.  A submission is about to add to it, a cancel
    to take from it. -/
def LaneCall.counts : LaneCall → Bool
  | .recording _ _ => true
  | .uncounting _ => true
  | _ => false

/-- The lane at `w₀` of tasks that were queued once.  The balance of what was submitted is kept in
    every phase (`hbal`). -/
inductive Lane.Winding (L : Lane κ α) (B : LaneBook α) (w₀ : Nat) : Prop
  /-- The context is not yet recorded: nobody finds the tasks. -/
  | recording {c : κ} (hc : L.calls c = .recording w₀ B.queued.length) (hctx : L.ctx = none)
      (hqueue : L.queue w₀ = B.queued) (hwakes : L.wakes w₀ = []) (hexec : L.exec w₀ = .loop)
      (hother : ∀ c', c' ≠ c → L.calls c' = .idle ∨ L.calls c' = .submitting)
      (hdone : B.done = []) (hremoved : B.removed = [])
  /-- The context counts what is queued or in execution. -/
  | counting {ctx : RequestContext} (hctx : L.ctx = some ctx)
      (hcount : ctx.pendingCount = (L.queue w₀).length + (L.exec w₀).owed)
      (hpos : 0 < (L.queue w₀).length + (L.exec w₀).owed)
      (hle : (L.queue w₀).length + (L.exec w₀).owed ≤ B.queued.length)
      (hcalls : ∀ c, (L.calls c).counts = false)
      (hbal : (B.done.length : Int) + (L.exec w₀).now.length + (L.queue w₀).length + B.removed.sum
        = B.queued.length)
      (hret : B.removed ≠ [] → L.queue w₀ = [])
  /-- A cancel has emptied the queue and not yet counted off what it removed. -/
  | uncounting {ctx : RequestContext} {c : κ} {k : Nat} (hctx : L.ctx = some ctx)
      (hc : L.calls c = .uncounting k) (hk : 0 < k)
      (hcount : ctx.pendingCount = k + (L.exec w₀).owed)
      (hle : k + (L.exec w₀).owed ≤ B.queued.length) (hqueue : L.queue w₀ = [])
      (hother : ∀ c', c' ≠ c → (L.calls c').counts = false)
      (hbal : (B.done.length : Int) + (L.exec w₀).now.length + k + B.removed.sum = B.queued.length)
  | ended (hctx : L.ctx = none) (hqueue : L.queue w₀ = []) (hexec : L.exec w₀ = .loop)
      (hcalls : ∀ c, (L.calls c).counts = false)
      (hbal : (B.done.length : Int) + B.removed.sum = B.queued.length)

section Lane

variable [DecidableEq κ] {r : ReqId} {L L' : Lane κ α} {l : LaneLabel κ α} {w₀ : Nat}
  {B : LaneBook α}

/-- The calls but one have no part in the count, and a call that moves has none either. -/
theorem counts_update {f : κ → LaneCall} {c₀ c : κ} {pc : LaneCall}
    (h : ∀ c', c' ≠ c₀ → (f c').counts = false) (hpc : pc.counts = false) :
    ∀ c', c' ≠ c₀ → (Function.update f c pc c').counts = false := by
  intro c' hne
  by_cases hc : c' = c
  · rw [hc, Function.update_self]
    exact hpc
  · rw [Function.update_of_ne hc]
    exact h c' hne

/-- The same where the one call moves as well. -/
theorem counts_update_all {f : κ → LaneCall} {c : κ} {pc : LaneCall}
    (h : ∀ c', c' ≠ c → (f c').counts = false) (hpc : pc.counts = false) (c' : κ) :
    (Function.update f c pc c').counts = false := by
  by_cases hc : c' = c
  · rw [hc, Function.update_self]
    exact hpc
  · rw [Function.update_of_ne hc]
    exact h c' hc

/-- A call that has no part in the count leaves the phase.  Wake-ups come and go, and so do cancels
    that have not reached the queue. -/
theorem Lane.Winding.setCall (h : L.Winding B w₀) {c : κ} {pc : LaneCall}
    (hc : (L.calls c).counts = false) (hpc : pc.counts = false)
    (hnone : L.ctx = none → pc = .idle ∨ pc = .submitting) :
    Lane.Winding { L with calls := Function.update L.calls c pc } B w₀ := by
  cases h with
  | @recording c₀ hc₀ hctx hqueue hwakes hexec hother hdone hremoved =>
    have hne : c₀ ≠ c := by
      rintro rfl
      rw [hc₀] at hc
      cases hc
    refine .recording ((Function.update_of_ne hne _ _).trans hc₀) hctx hqueue hwakes hexec ?_ hdone
      hremoved
    intro c' hc'
    show Function.update L.calls c pc c' = .idle ∨ Function.update L.calls c pc c' = .submitting
    by_cases heq : c' = c
    · rw [heq, Function.update_self]
      exact hnone hctx
    · rw [Function.update_of_ne heq]
      exact hother c' hc'
  | counting hctx hcount hpos hle hcalls hbal hret =>
    exact .counting hctx hcount hpos hle (counts_update_all (fun c' _ => hcalls c') hpc) hbal hret
  | @uncounting ctx c₀ k hctx hc₀ hk hcount hle hqueue hother hbal =>
    have hne : c₀ ≠ c := by
      rintro rfl
      rw [hc₀] at hc
      cases hc
    exact .uncounting hctx ((Function.update_of_ne hne _ _).trans hc₀) hk hcount hle hqueue
      (counts_update hother hpc) hbal
  | ended hctx hqueue hexec hcalls hbal =>
    exact .ended hctx hqueue hexec (counts_update_all (fun c' _ => hcalls c') hpc) hbal

/-- The record of the context ends the first phase.  The count is the number of nodes, which as an
    `int` is that number, as they are fewer than 2^31. -/
theorem Lane.Winding.record (h : L.Winding B w₀) (hn : B.queued ≠ [])
    (hfew : B.queued.length < 2 ^ 31) {c : κ} {w k : Nat} {cb : Option Nat} (hc : L.calls c = .recording w k) :
    Lane.Winding { L with
      ctx := recordedContext true r w k cb L.ctx
      calls := Function.update L.calls c .idle } B w₀ := by
  cases h with
  | @recording c₀ hc₀ hctx hqueue hwakes hexec hother hdone hremoved =>
    obtain rfl : c = c₀ := by
      by_contra hne
      rcases hother c hne with h | h <;> rw [h] at hc <;> cases hc
    rw [hc₀] at hc
    cases hc
    have hlen : 0 < B.queued.length := List.length_pos_of_ne_nil hn
    have hctx' : recordedContext true r w₀ B.queued.length cb L.ctx
        = some ⟨r, w₀, B.queued.length, cb⟩ := by
      rw [hctx, recordedContext, if_pos rfl, cInt_eq (by omega) (by omega)]
    refine .counting hctx' ?_ ?_ ?_ ?_ ?_ ?_
    · rw [hqueue, hexec]
      simp [Exec.owed]
    · rw [hqueue]
      omega
    · rw [hqueue, hexec]
      exact Nat.le_refl _
    · refine counts_update_all (fun c' hc' => ?_) rfl
      rcases hother c' hc' with h | h <;> rw [h] <;> rfl
    · rw [hqueue, hexec, hdone, hremoved]
      simp [Exec.now]
    · exact fun hne => absurd hremoved hne
  | counting _ _ _ _ hcalls | ended _ _ _ hcalls =>
    have hcount := hcalls c
    rw [hc] at hcount
    cases hcount
  | @uncounting _ c₀ _ _ hc₀ _ _ _ _ hother =>
    by_cases hne : c = c₀
    · rw [hne, hc₀] at hc
      cases hc
    · have hcount := hother c hne
      rw [hc] at hcount
      cases hcount

/-- A cancel empties the queue.  If there was nothing in it the phase stays, and the cancel returns
    0; otherwise what it removed is now its own to count off. -/
theorem Lane.Winding.cancelQueue (h : L.Winding B w₀) (hfew : B.queued.length < 2 ^ 31) {c : κ}
    (hc : L.calls c = .cancelling w₀) :
    Lane.Winding { L with
      queue := Function.update L.queue w₀ []
      wakes := Function.update L.wakes w₀ []
      calls := Function.update L.calls c
        (if (L.queue w₀).length % 2 ^ 32 > 0 then .uncounting (L.queue w₀).length else .idle) }
      (if (L.queue w₀).length % 2 ^ 32 > 0 then B else B.returned (cInt (L.queue w₀).length))
      w₀ := by
  have hempty : Function.update L.queue w₀ [] w₀ = [] := Function.update_self ..
  have hnil : cInt ((0 : Nat) : Int) = 0 := cInt_eq (by decide) (by decide)
  have hsum : (B.returned 0).removed.sum = B.removed.sum := by simp [LaneBook.returned]
  cases h with
  | @recording c₀ hc₀ _ _ _ _ hother =>
    by_cases hne : c = c₀
    · rw [hne, hc₀] at hc
      cases hc
    · rcases hother c hne with h | h <;> rw [h] at hc <;> cases hc
  | @counting ctx hctx hcount hpos hle hcalls hbal hret =>
    -- fewer than 2^32 tasks are their own 32-bit count
    have hmod : (L.queue w₀).length % 2 ^ 32 = (L.queue w₀).length := Nat.mod_eq_of_lt (by omega)
    rw [hmod]
    by_cases hq : (L.queue w₀).length > 0
    · rw [if_pos hq, if_pos hq]
      exact .uncounting hctx (Function.update_self ..) hq hcount hle hempty
        (fun c' hc' => by
          show (Function.update L.calls c _ c').counts = false
          rw [Function.update_of_ne hc']
          exact hcalls c')
        hbal
    · have hlen : (L.queue w₀).length = 0 := by omega
      rw [if_neg hq, if_neg hq, hlen, hnil]
      rw [hlen] at hcount hpos hle hbal
      refine .counting hctx ?_ ?_ ?_ (counts_update_all (fun c' _ => hcalls c') rfl) ?_
        fun _ => hempty <;> dsimp only <;> rw [hempty]
      · exact hcount
      · exact hpos
      · exact hle
      · rw [hsum]
        exact hbal
  | @uncounting ctx c₀ k hctx hc₀ hk hcount hle hqueue hother hbal =>
    have hne : c₀ ≠ c := by
      rintro rfl
      rw [hc₀] at hc
      cases hc
    rw [hqueue, if_neg (by simp), if_neg (by simp), List.length_nil, hnil]
    exact .uncounting hctx ((Function.update_of_ne hne _ _).trans hc₀) hk hcount hle
      (Function.update_self ..) (counts_update hother rfl) (by rw [hsum]; exact hbal)
  | ended hctx hqueue hexec hcalls hbal =>
    rw [hqueue, if_neg (by simp), if_neg (by simp), List.length_nil, hnil]
    exact .ended hctx (Function.update_self ..) hexec (counts_update_all (fun c' _ => hcalls c') rfl)
      (by rw [hsum]; exact hbal)

/-- A cancel counts off what it removed.  The count falls to what is in execution; if that is
    nothing the context goes, and the lane has ended. -/
theorem Lane.Winding.uncount (h : L.Winding B w₀) (hfew : B.queued.length < 2 ^ 31) {c : κ}
    {k : Nat} (hc : L.calls c = .uncounting k) :
    Lane.Winding { L with
      ctx := cancelledContext k L.ctx
      calls := Function.update L.calls c .idle } (B.returned (cInt k)) w₀ := by
  cases h with
  | @recording c₀ hc₀ _ _ _ _ hother =>
    by_cases hne : c = c₀
    · rw [hne, hc₀] at hc
      cases hc
    · rcases hother c hne with h | h <;> rw [h] at hc <;> cases hc
  | counting _ _ _ _ hcalls | ended _ _ _ hcalls =>
    have hcount := hcalls c
    rw [hc] at hcount
    cases hcount
  | @uncounting ctx c₀ k' hctx hc₀ hk hcount hle hqueue hother hbal =>
    obtain rfl : c = c₀ := by
      by_contra hne
      have hcount := hother c hne
      rw [hc] at hcount
      cases hcount
    rw [hc₀] at hc
    cases hc
    have hk' : cInt (k : Int) = k := cInt_eq (by omega) (by omega)
    have hsum : (B.returned (cInt k)).removed.sum = B.removed.sum + k := by
      simp [LaneBook.returned, hk']
    have hdown : cancelledContext k (some ctx) = _ :=
      cancelledContext_of_fits (by omega) (by omega) (by omega)
    by_cases howed : (L.exec w₀).owed = 0
    · have hctx' : cancelledContext k L.ctx = none := by
        rw [hctx, hdown, if_pos (by omega)]
      have hloop : L.exec w₀ = .loop := by
        cases hexec : L.exec w₀ with
        | loop => rfl
        | _ => rw [hexec] at howed; cases howed
      refine .ended hctx' hqueue hloop (counts_update_all hother rfl) ?_
      rw [hloop] at hbal
      rw [hsum]
      show (B.done.length : Int) + _ = B.queued.length
      simp only [Exec.now, List.length_nil] at hbal
      omega
    · have hctx' : cancelledContext k L.ctx
          = some { ctx with pendingCount := ctx.pendingCount - k } := by
        rw [hctx, hdown, if_neg (by omega)]
      refine .counting hctx' ?_ ?_ ?_ (counts_update_all hother rfl) ?_ fun _ => hqueue
      · rw [hqueue]
        show ctx.pendingCount - k = _
        rw [hcount]
        simp
      · rw [hqueue]
        simpa using Nat.pos_of_ne_zero howed
      · rw [hqueue, List.length_nil, Nat.zero_add]
        exact (Nat.le_add_left _ _).trans hle
      · rw [hsum, hqueue]
        show (B.done.length : Int) + (L.exec w₀).now.length + (0 : Nat) + _ = B.queued.length
        omega

omit [DecidableEq κ] in
/-- A worker takes a task.  What it owes stays on the count: the task goes from the queue to its
    hands. -/
theorem Lane.Winding.take (h : L.Winding B w₀) {u : BitVec 64} {us : List (BitVec 64)}
    {task : TaskNode α} {queue : List (TaskNode α)} (hexec : L.exec w₀ = .loop)
    (hw : L.wakes w₀ = u :: us)
    (hq : workerQueuePopByReqAndUserData (L.queue w₀) r u = some (task, queue)) :
    Lane.Winding { L with
      queue := Function.update L.queue w₀ queue
      wakes := Function.update L.wakes w₀ us
      exec := Function.update L.exec w₀ (.running task r u)
      served := L.served ++ [u] } { B with outcomes := B.outcomes ++ [some task] } w₀ := by
  obtain ⟨l₁, l₂, hqueue', hrest, -, -⟩ := Queue.popFirst_some hq
  have hlen : (L.queue w₀).length = queue.length + 1 := by
    rw [hqueue', hrest, List.length_append, List.length_append, List.length_cons]
    omega
  cases h with
  | recording _ _ _ hwakes =>
    rw [hwakes] at hw
    cases hw
  | @counting ctx hctx hcount hpos hle hcalls hbal hret =>
    have hrun : Function.update L.exec w₀ (.running task r u) w₀ = .running task r u :=
      Function.update_self ..
    have hleft : Function.update L.queue w₀ queue w₀ = queue := Function.update_self ..
    rw [hlen, hexec] at hcount hle hbal
    refine .counting hctx ?_ ?_ ?_ hcalls ?_ ?_ <;> dsimp only
    · rw [hrun, hleft, hcount]
      simp [Exec.owed]
    · rw [hrun]
      simp [Exec.owed]
    · rw [hrun, hleft]
      exact hle
    · rw [hrun, hleft]
      simp only [Exec.now, List.length_nil, List.length_singleton] at hbal ⊢
      omega
    · intro hne
      rw [hret hne] at hlen
      simp at hlen
  | uncounting _ _ _ _ _ hnil | ended _ hnil =>
    rw [hnil] at hlen
    simp at hlen

omit [DecidableEq κ] in
/-- The task function returns.  The task is done and written down, and still owed. -/
theorem Lane.Winding.finish (h : L.Winding B w₀) {task : TaskNode α} {u : BitVec 64} {ret : Int}
    (hexec : L.exec w₀ = .running task r u) :
    Lane.Winding { L with exec := Function.update L.exec w₀ (.returned task r ret) }
      { B with done := B.done ++ [task] } w₀ := by
  have hret' : Function.update L.exec w₀ (.returned task r ret) w₀ = .returned task r ret :=
    Function.update_self ..
  cases h with
  | recording _ _ _ _ hloop | ended _ _ hloop =>
    rw [hloop] at hexec
    cases hexec
  | counting hctx hcount hpos hle hcalls hbal hret =>
    rw [hexec] at hcount hpos hle hbal
    refine .counting hctx ?_ ?_ ?_ hcalls ?_ hret <;> dsimp only <;> rw [hret']
    · exact hcount
    · exact hpos
    · exact hle
    · simp only [Exec.now, List.length_append, List.length_nil, List.length_singleton] at hbal ⊢
      omega
  | uncounting hctx hc hk hcount hle hqueue hother hbal =>
    rw [hexec] at hcount hle hbal
    refine .uncounting hctx hc hk ?_ ?_ hqueue hother ?_ <;> dsimp only <;> rw [hret']
    · exact hcount
    · exact hle
    · simp only [Exec.now, List.length_append, List.length_nil, List.length_singleton] at hbal ⊢
      omega

omit [DecidableEq κ] in
/-- The worker counts the task off.  The last one takes the context with it. -/
theorem Lane.Winding.account (h : L.Winding B w₀) (hfew : B.queued.length < 2 ^ 31)
    {task : TaskNode α} {ret : Int} (hexec : L.exec w₀ = .returned task r ret) :
    Lane.Winding { L with
      ctx := accountedContext L.ctx
      exec := Function.update L.exec w₀ .loop } B w₀ := by
  have hloop : Function.update L.exec w₀ .loop w₀ = Exec.loop := Function.update_self ..
  cases h with
  | recording _ _ _ _ hloop' | ended _ _ hloop' =>
    rw [hloop'] at hexec
    cases hexec
  | @counting ctx hctx hcount hpos hle hcalls hbal hret =>
    rw [hexec] at hcount hle hbal
    simp only [Exec.owed, Nat.cast_one, Exec.now, List.length_nil] at hcount hle hbal
    have hdown : accountedContext (some ctx) = _ := accountedContext_of_fits (by omega) (by omega)
    by_cases hzero : ctx.pendingCount - 1 = 0
    · have hlen : (L.queue w₀).length = 0 := by omega
      have hctx' : accountedContext L.ctx = none := by rw [hctx, hdown, if_pos hzero]
      refine .ended hctx' (List.length_eq_zero_iff.mp hlen) hloop hcalls ?_
      show (B.done.length : Int) + B.removed.sum = B.queued.length
      omega
    · have hctx' : accountedContext L.ctx
          = some { ctx with pendingCount := ctx.pendingCount - 1 } := by
        rw [hctx, hdown, if_neg hzero]
      refine .counting hctx' ?_ ?_ ?_ hcalls ?_ hret <;> dsimp only <;> rw [hloop]
      · show ctx.pendingCount - 1 = (L.queue w₀).length + (0 : Nat)
        omega
      · show 0 < (L.queue w₀).length + 0
        omega
      · show (L.queue w₀).length + 0 ≤ B.queued.length
        omega
      · show (B.done.length : Int) + (0 : Nat) + _ + _ = _
        omega
  | @uncounting ctx c k hctx hc hk hcount hle hqueue hother hbal =>
    rw [hexec] at hcount hle hbal
    simp only [Exec.owed, Nat.cast_one, Exec.now, List.length_nil] at hcount hle hbal
    have hctx' : accountedContext L.ctx
        = some { ctx with pendingCount := ctx.pendingCount - 1 } := by
      rw [hctx, accountedContext_of_fits (by omega) (by omega), if_neg (by omega)]
    refine .uncounting hctx' hc hk ?_ ?_ hqueue hother ?_ <;> dsimp only <;> rw [hloop]
    · show ctx.pendingCount - 1 = k + (0 : Nat)
      omega
    · show k + 0 ≤ B.queued.length
      omega
    · exact hbal

/-- The phases are kept by every step. -/
theorem winding_step (hat : L.At w₀) (hn : B.queued ≠ []) (hfew : B.queued.length < 2 ^ 31)
    (h : L.Winding B w₀) (hs : LaneStep r L l L') (hatt : ∀ c w nodes, l ≠ .attach c w nodes)
    (halloc : ∀ c, l ≠ .record c false) : L'.Winding (B.next L l) w₀ := by
  cases hs with
  | tau => exact h
  | submit hc => exact h.setCall (by rw [hc]; rfl) rfl fun _ => .inr rfl
  | giveUp hc | dropWake hc => exact h.setCall (by rw [hc]; rfl) rfl fun _ => .inl rfl
  | lookWake hc hctx | lookCancel hc hctx =>
    refine h.setCall (by rw [hc]; rfl) rfl fun hnone => ?_
    rw [hnone] at hctx
    cases hctx
  | attach => exact absurd rfl (hatt _ _ _)
  | @record c w k alloc cb hc =>
    cases alloc with
    | true => exact h.record hn hfew hc
    | false => exact absurd rfl (halloc c)
  | @pushWake c u w hc =>
    rw [show B.next L (.pushWake c) = { B with woken := B.woken ++ [u] } by
      simp only [LaneBook.next, hc]]
    cases h with
    | @recording c₀ hc₀ _ _ _ _ hother =>
      -- nobody finds a worker to wake before the context is recorded
      by_cases hne : c = c₀
      · rw [hne, hc₀] at hc
        cases hc
      · rcases hother c hne with h | h <;> rw [h] at hc <;> cases hc
    | counting hctx hcount hpos hle hcalls hbal hret =>
      exact .counting hctx hcount hpos hle (counts_update_all (fun c' _ => hcalls c') rfl) hbal hret
    | @uncounting ctx c₀ k hctx hc₀ hk hcount hle hqueue hother hbal =>
      have hne : c₀ ≠ c := by
        rintro rfl
        rw [hc₀] at hc
        cases hc
      exact .uncounting hctx ((Function.update_of_ne hne _ _).trans hc₀) hk hcount hle hqueue
        (counts_update hother rfl) hbal
    | ended hctx hqueue hexec hcalls hbal =>
      exact .ended hctx hqueue hexec (counts_update_all (fun c' _ => hcalls c') rfl) hbal
  | @cancelQueue c w hc =>
    obtain rfl : w = w₀ := hat.calls c w (by rw [hc]; rfl)
    rw [show B.next L (.cancelQueue c) = if (L.queue w).length % 2 ^ 32 > 0 then B
      else B.returned (cInt (L.queue w).length) by simp only [LaneBook.next, hc]]
    exact h.cancelQueue hfew hc
  | @uncount c k hc =>
    rw [show B.next L (.uncount c) = B.returned (cInt k) by simp only [LaneBook.next, hc]]
    exact h.uncount hfew hc
  | @take w u us task queue hexec hw hq =>
    obtain rfl := hat.worker_of_wake hw
    exact h.take hexec hw hq
  -- a wake-up that finds no task takes nothing off the count
  | @miss w u us hexec hw hq =>
    obtain rfl := hat.worker_of_wake hw
    cases h with
    | recording _ _ _ hwakes =>
      rw [hwakes] at hw
      cases hw
    | counting hctx hcount hpos hle hcalls hbal hret =>
      exact .counting hctx hcount hpos hle hcalls hbal hret
    | uncounting hctx hc hk hcount hle hqueue hother hbal =>
      exact .uncounting hctx hc hk hcount hle hqueue hother hbal
    | ended hctx hqueue hexec hcalls hbal => exact .ended hctx hqueue hexec hcalls hbal
  | @finish w task u ret hexec =>
    obtain rfl := hat.worker_of_exec (w := w) (by rw [hexec]; simp)
    rw [show B.next L (.finish w ret) = { B with done := B.done ++ [task] } by
      simp only [LaneBook.next, hexec]]
    exact h.finish hexec
  | @account w task ret hexec =>
    obtain rfl := hat.worker_of_exec (w := w) (by rw [hexec]; simp)
    exact h.account hfew hexec

end Lane

/-! ## Every run

The phases along a run, and the two runs of the header. -/

section Run

variable [DecidableEq κ] {r : ReqId} {workerCount : Nat} {st : Story κ α}

/-- An empty queue has no task to be taken.  So after a cancel the list of taken tasks no longer
    grows. -/
theorem next_taken {L L' : Lane κ α} {l : LaneLabel κ α} (B : LaneBook α)
    (hempty : ∀ w, L.queue w = []) (hl : LaneStep r L l L') :
    (B.next L l).outcomes.filterMap id = B.outcomes.filterMap id := by
  cases hl with
  | @take w u us task queue hexec hw hq =>
    rw [hempty w] at hq
    cases hq
  | miss => simp [LaneBook.next]
  | @cancelQueue c w hc =>
    simp only [LaneBook.next, hc]
    split <;> rfl
  | pushWake hc => simp only [LaneBook.next, hc]
  | uncount hc =>
    simp only [LaneBook.next, hc]
    rfl
  | finish hexec => simp only [LaneBook.next, hexec]
  | _ => rfl

/-- The lane of `r` is untouched, or goes through the phases.  It is `sole_reach` for the phases:
    the attach establishes the first, `winding_step` keeps them. -/
theorem winding_reach
    (h : (storySystem κ α workerCount).Reach
      (fun st a => CancelledLater r st a ∧ ContextCounted r st a) st) :
    bookOf r st = .blank ∧ (lane r st.pool).Untouched ∨
      (bookOf r st).queued ≠ [] ∧
        ∃ w₀, (lane r st.pool).At w₀ ∧ (lane r st.pool).Winding (bookOf r st) w₀ := by
  have hreach := sole_reach (r := r) (J := fun B L => B.queued ≠ [] ∧ B.queued.length < 2 ^ 31 ∧
    ∃ w₀, L.At w₀ ∧ L.Winding B w₀) ?_ ?_ ?_ ?_ ?_ h
  · exact hreach.imp_right fun hJ => ⟨hJ.1, hJ.2.2.2⟩
  · rintro st a ⟨ha, -⟩
    cases a with
    | advance c alloc => exact ha
    | _ => trivial
  · exact fun st c ha => (ha.1 rfl).1
  · rintro st a alloc c w nodes sub ⟨-, hctx⟩ rfl hc hid hnodes hne hL
    refine ⟨hne, hctx.1 sub w nodes hc hid, w, hL.at_attached c w nodes, ?_⟩
    refine .recording (Function.update_self ..) hL.ctx ?_ (hL.wakes w) (hL.exec w) ?_ rfl rfl
    · show Function.update (lane r st.pool).queue w _ w = nodes
      rw [Function.update_self, hL.queue, List.nil_append]
    · intro c' hc'
      show Function.update (lane r st.pool).calls c _ c' = .idle ∨
        Function.update (lane r st.pool).calls c _ c' = .submitting
      rw [Function.update_of_ne hc']
      exact hL.calls c'
  · rintro st a l L' ⟨-, ha⟩ hexp ⟨hn, hfew, w₀, hat, hwind⟩ hl hatt
    refine ⟨by rwa [next_queued _ _ hatt], by rwa [next_queued _ _ hatt], w₀, at_step hat hl hatt,
      winding_step hat hn hfew hwind hl hatt ?_⟩
    rintro c rfl
    obtain ⟨sub, w, nodes, alloc, rfl, hc, hid, hok⟩ := hexp
    rcases ha.2 sub w nodes hc hid with hsingle | rfl
    · simp [hsingle] at hok
    · simp at hok
  · rintro st c ⟨ha, -⟩ ⟨hn, hfew, w₀, hat, hwind⟩ hctx
    refine ⟨hn, hfew, w₀, hat, ?_⟩
    cases hwind with
    | recording hc =>
      obtain ⟨sub, nodes, hcall, hid, -⟩ := laneCall_recording hc
      exact absurd hid ((ha rfl).2 _ sub _ nodes hcall)
    | counting hsome | uncounting hsome =>
      rw [hsome] at hctx
      cases hctx
    | ended _ hqueue hexec hcalls hbal =>
      exact .ended hctx hqueue hexec hcalls (by simpa [LaneBook.returned] using hbal)

/-- **Quiescence after cancel.**  In every run in which the submission of `r` has fewer than 2^31
    tasks and gets the memory for its context, whatever the number of cancels of `r` and however
    they interleave with wake-ups and workers: once a cancel has returned no task of `r` is taken
    any more and at most one is still executing; and with no cancel in progress the tasks executed,
    executing and reported as cancelled are as many as were submitted. -/
theorem quiescent (h : (storySystem κ α workerCount).Reach
    (fun st a => CancelledLater r st a ∧ ContextCounted r st a) st) : Quiescent r st := by
  rcases winding_reach h with ⟨hblank, hL⟩ | ⟨-, w₀, hat, hwind⟩
  · have hremoved : entriesOf r st.removed = [] := congrArg LaneBook.removed hblank
    refine ⟨fun hne => absurd hremoved hne, fun hne => absurd hremoved hne, [],
      .none fun w t u hrun => ?_, fun hne => absurd hremoved hne⟩
    have hloop := hL.exec w
    rw [lane_exec, hrun, laneExec, if_pos rfl] at hloop
    cases hloop
  have hempty : entriesOf r st.removed ≠ [] → ∀ w, (lane r st.pool).queue w = [] := by
    intro hne w
    by_cases hw : w = w₀
    · subst hw
      cases hwind with
      | recording _ _ _ _ _ _ _ hremoved => exact absurd hremoved hne
      | counting _ _ _ _ _ _ hret => exact hret hne
      | uncounting _ _ _ _ _ hqueue | ended _ hqueue => exact hqueue
    · exact hat.queue w hw
  refine ⟨fun hne w t ht hid => ?_, fun hne a s' hs => ?_, _, hat.executing, fun hne hno => ?_⟩
  · exact laneQueue_ne_nil ht hid (hempty hne w)
  · have hstep : st.step a
        = some ⟨s', st.woken ++ st.pool.wokenBy a, st.removed ++ st.pool.removedBy a⟩ := by
      rw [Story.step, hs]
      rfl
    obtain ⟨l, hl, -, hbook⟩ := book_step (r := r)
      (PoolSys.carries_reach (story_pool_reach h)) (story_execMatches h) hstep
    have htaken := next_taken (bookOf r st) (hempty hne) hl
    rcases hbook with hbook | ⟨-, -, -, hbook⟩
    · rw [← hbook] at htaken
      exact htaken
    · exact congrArg (fun B => B.outcomes.filterMap id) hbook
  · cases hwind with
    | recording _ _ _ _ _ _ _ hremoved => exact absurd hremoved hne
    | counting _ _ _ _ _ hbal hret =>
      rw [hret hne, List.length_nil, Nat.cast_zero, add_zero] at hbal
      exact hbal
    | @uncounting _ c _ _ hc =>
      have hcancels := hno c
      rw [← lane_calls, hc] at hcancels
      cases hcancels
    | ended _ _ hexec _ hbal =>
      rw [hexec]
      show ((bookOf r st).done.length : Int) + (0 : Nat) + (bookOf r st).removed.sum
        = (bookOf r st).queued.length
      omega

end Run

/-- The assumption on a run and the condition, decided. -/
def cancelledLaterb (r : ReqId) (st : Story Bool Nat) : PoolAction Bool Nat → Bool
  | .advance c _ =>
    match st.pool.calls c with
    | .attaching sub _ _ => sub.requestId != r || (queuedOf r st.pool.log).isEmpty
    | _ => true
  | .cancel _ reqId => reqId != r || (!(queuedOf r st.pool.log).isEmpty &&
      [false, true].all fun c => match st.pool.calls c with
        | .recording sub _ _ => sub.requestId != r
        | _ => true)
  | _ => true

/-- See `ContextCounted`. -/
def contextCountedb (r : ReqId) (st : Story Bool Nat) : PoolAction Bool Nat → Bool
  | .advance c alloc =>
    match st.pool.calls c with
    | .attaching sub _ nodes => sub.requestId != r || decide (nodes.length < 2 ^ 31)
    | .recording sub _ _ => sub.requestId != r || sub.single || alloc == .ok
    | _ => true
  | _ => true

/-- What is decided is the assumption. -/
theorem cancelledLater_of_b {r : ReqId} (st : Story Bool Nat) (a : PoolAction Bool Nat)
    (h : cancelledLaterb r st a = true) : CancelledLater r st a := by
  cases a with
  | advance c alloc =>
    intro sub w nodes hc hid
    simpa [cancelledLaterb, hc, hid] using h
  | cancel c reqId =>
    rintro rfl
    simp only [cancelledLaterb, bne_self_eq_false, Bool.false_or, Bool.and_eq_true,
      List.all_eq_true] at h
    refine ⟨by simpa using h.1, fun c sub w nodes hc => ?_⟩
    have hall := h.2 c (by cases c <;> simp)
    rw [hc] at hall
    simpa using hall
  | _ => trivial

/-- What is decided is the condition. -/
theorem contextCounted_of_b {r : ReqId} (st : Story Bool Nat) (a : PoolAction Bool Nat)
    (h : contextCountedb r st a = true) : ContextCounted r st a := by
  cases a with
  | advance c alloc =>
    refine ⟨fun sub w nodes hc hid => ?_, fun sub w nodes hc hid => ?_⟩ <;>
      simpa [contextCountedb, hc, hid] using h
  | _ => trivial

/-- The pair is queued, its context allocated as `alloc` says. -/
def submitPair (alloc : Alloc) : List (PoolAction Bool Nat) :=
  .submit false keylessPair .ok :: List.replicate 4 (.advance false .ok) ++
    [.advance false alloc, .collect false]

/-- The first task is executing when the cancel reaches the queue, and a second wake-up that had
    looked up its worker before is accepted after. -/
def cancelRunningPair : List (PoolAction Bool Nat) :=
  submitPair .ok ++ [.wake true 7#64 5#64, .advance true .ok, .collect true, .wake true 7#64 6#64,
    .pop 0, .cancel false 7#64, .advance false .ok, .advance true .ok, .finish 0 0,
    .advance false .ok, .account 0, .pop 0]

/-- The cancel removes the task that waits and returns 1, while the other is executed. -/
theorem quiescent_running_pair : ∃ st : Story Bool Nat, Quiescent 7#64 st ∧
    entriesOf 7#64 st.removed = [1] ∧ (doneOf 7#64 st.pool.log).length = 1 := by
  have hok : ∀ (st : Story Bool Nat) (a : PoolAction Bool Nat),
      (cancelledLaterb 7#64 st a && contextCountedb 7#64 st a) = true →
        CancelledLater 7#64 st a ∧ ContextCounted 7#64 st a := by
    intro st a h
    rw [Bool.and_eq_true] at h
    exact ⟨cancelledLater_of_b st a h.1, contextCounted_of_b st a h.2⟩
  obtain ⟨st, hr, hend⟩ := storySystem_exec (n := 1) _ hok cancelRunningPair
    (fun st => decide (entriesOf 7#64 st.removed = [1] ∧ (doneOf 7#64 st.pool.log).length = 1))
    (by decide +kernel)
  exact ⟨st, quiescent hr, of_decide_eq_true hend⟩

/-- The context of the pair cannot be allocated: its cancel returns 0 and leaves both tasks. -/
theorem cancel_without_context : ¬ ∀ st : Story Bool Nat,
    (storySystem Bool Nat 1).Reach (CancelledLater 7#64) st → Quiescent 7#64 st := by
  intro hall
  obtain ⟨st, hr, hend⟩ := storySystem_exec (n := 1) (cancelledLaterb 7#64) cancelledLater_of_b
    (submitPair .fail ++ [.cancel true 7#64]) (fun st => decide (entriesOf 7#64 st.removed = [0]) &&
      (st.pool.workers 0).queue.any fun t => t.requestId == 7#64) (by decide +kernel)
  rw [Bool.and_eq_true, List.any_eq_true] at hend
  obtain ⟨hremoved, t, ht, hid⟩ := hend
  refine (hall st hr).empty ?_ 0 t ht (by simpa using hid)
  rw [of_decide_eq_true hremoved]
  simp

end OsTransport
