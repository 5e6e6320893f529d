/-
  The lane of a request that shares its id with no other.

  Such a lane sees one submission.  Before it the lane is `Untouched`: calls may be about to
  submit, and that is all.  The submission attaches its tasks to one worker `w₀`, and from then
  on everything of the request is `At w₀`: the context names `w₀`, calls that look it up go to
  `w₀`, and so tasks, wake-ups and execution stay there.

  `own_lane_reach` is the induction for such lanes: a property of the lane that the attach
  establishes and every other step of the lane machine keeps holds in every state of the
  transport after the attach.

  `Course` is the first use of it: while nobody cancels, the context counts the tasks that are
  queued or in execution, from the record of the submission until the last one is counted off.

  `At` is kept by every step of the lane but a second attach (`at_step`), and a request with an id of
  its own attaches once (`own_attach`): the caller's view says when (`recording_of_view`), and no
  other process submits under the id.  `own_reach` and `own_lane_reach` package that argument, so that
  the modules about a send or a receive give an attach lemma and a step lemma and nothing else.

  `course_step` is such a step lemma; its cases are the phases recording, counting and ended.
-/
import OsTransport.Effects
import OsTransport.Binding

namespace OsTransport

open Transition

variable {κ α : Type*}

/-! ## One submission

Before the attach the lane is untouched; after it all of it is at one worker. -/

/-- Calls may be about to submit, and nothing else has happened.  Wake-ups of the id find no context
    here, and are lost.  A cancel finds none either, and returns 0. -/
structure Lane.Untouched (L : Lane κ α) : Prop where
  ctx : L.ctx = none
  queue : ∀ w, L.queue w = []
  wakes : ∀ w, L.wakes w = []
  exec : ∀ w, L.exec w = .loop
  calls : ∀ c, L.calls c = .idle ∨ L.calls c = .submitting
  served : L.served = []

/-- Everything of the lane is at worker `w₀`.  The queues of the other workers are empty for the id,
    and so are their wake-up lists.  What holds it there is the context: wake-ups and cancels go
    where it says. -/
structure Lane.At (L : Lane κ α) (w₀ : Nat) : Prop where
  ctx : ∀ ctx, L.ctx = some ctx → ctx.workerIdx = w₀
  queue : ∀ w, w ≠ w₀ → L.queue w = []
  wakes : ∀ w, w ≠ w₀ → L.wakes w = []
  exec : ∀ w, w ≠ w₀ → L.exec w = .loop
  calls : ∀ c w, (L.calls c).target = some w → w = w₀

section Lane

variable [DecidableEq κ] {r : ReqId} {L L' : Lane κ α} {l : LaneLabel κ α} {w₀ : Nat}

/-- The lane once call `c` has attached `nodes` to worker `w`. -/
def Lane.attached (L : Lane κ α) (c : κ) (w : Nat) (nodes : List (TaskNode α)) : Lane κ α :=
  { L with
    queue := Function.update L.queue w (L.queue w ++ nodes)
    calls := Function.update L.calls c (.recording w nodes.length) }

omit [DecidableEq κ] in
theorem Lane.Untouched.not_loaded (h : L.Untouched) {c : κ} {pc : LaneCall} (hc : L.calls c = pc)
    (h₁ : pc ≠ .idle) (h₂ : pc ≠ .submitting) : False := by
  rcases h.calls c with hidle | hsub
  · exact h₁ (hc.symm.trans hidle)
  · exact h₂ (hc.symm.trans hsub)

/-- An untouched lane stays so until a submission attaches its tasks.  Every other step needs
    something the lane does not have. -/
theorem untouched_step (h : L.Untouched) (hs : LaneStep r L l L') :
    L'.Untouched ∨ ∃ c w nodes, l = .attach c w nodes ∧ L.calls c = .submitting ∧
      (∀ t ∈ nodes, t.requestId = r) ∧ L' = L.attached c w nodes := by
  have hcall : ∀ {c : κ} {pc : LaneCall}, pc = .idle ∨ pc = .submitting →
      Lane.Untouched { L with calls := Function.update L.calls c pc } := by
    intro c pc hpc
    refine ⟨h.ctx, h.queue, h.wakes, h.exec, fun c' => ?_, h.served⟩
    by_cases hc : c' = c
    · subst hc
      simpa only [Function.update_self] using hpc
    · simpa only [Function.update_of_ne hc] using h.calls c'
  cases hs with
  | tau => exact .inl h
  | submit hc => exact .inl (hcall (.inr rfl))
  | giveUp hc => exact .inl (hcall (.inl rfl))
  | attach hc hid => exact .inr ⟨_, _, _, rfl, hc, hid, rfl⟩
  | record hc => exact (h.not_loaded hc (by simp) (by simp)).elim
  | pushWake hc => exact (h.not_loaded hc (by simp) (by simp)).elim
  | dropWake hc => exact (h.not_loaded hc (by simp) (by simp)).elim
  | cancelQueue hc => exact (h.not_loaded hc (by simp) (by simp)).elim
  | uncount hc => exact (h.not_loaded hc (by simp) (by simp)).elim
  | lookWake hc hctx | lookCancel hc hctx =>
    rw [h.ctx] at hctx
    cases hctx
  | @take w userData wakes task queue hexec hwake hpop =>
    rw [h.wakes w] at hwake
    cases hwake
  | @miss w userData wakes hexec hwake hpop =>
    rw [h.wakes w] at hwake
    cases hwake
  | @finish w task userData ret hexec =>
    rw [h.exec w] at hexec
    cases hexec
  | @account w task ret hexec =>
    rw [h.exec w] at hexec
    cases hexec

/-- The attach puts everything at its worker.  The lane was empty, so what is there is what has just
    come. -/
theorem Lane.Untouched.at_attached (h : L.Untouched) (c : κ) (w : Nat) (nodes : List (TaskNode α)) :
    (L.attached c w nodes).At w where
  ctx ctx hctx := by
    rw [show (L.attached c w nodes).ctx = L.ctx from rfl, h.ctx] at hctx
    cases hctx
  queue w' hw := (Function.update_of_ne hw _ _).trans (h.queue w')
  wakes w' _ := h.wakes w'
  exec w' _ := h.exec w'
  calls c' w' ht := by
    by_cases hc : c' = c
    · subst hc
      have hself : (L.attached c' w nodes).calls c' = .recording w nodes.length :=
        Function.update_self ..
      rw [hself] at ht
      exact (Option.some.inj ht).symm
    · have hother : (L.attached c w nodes).calls c' = L.calls c' := Function.update_of_ne hc _ _
      rw [hother] at ht
      rcases h.calls c' with hidle | hsub
      · rw [hidle] at ht
        cases ht
      · rw [hsub] at ht
        cases ht

omit [DecidableEq κ] in
/-- The worker of a wake-up that is pending. -/
theorem Lane.At.worker_of_wake (h : L.At w₀) {w : Nat} {u : BitVec 64} {us : List (BitVec 64)}
    (hw : L.wakes w = u :: us) : w = w₀ := by
  by_contra hne
  rw [h.wakes w hne] at hw
  cases hw

omit [DecidableEq κ] in
/-- The worker that executes a task of the lane. -/
theorem Lane.At.worker_of_exec (h : L.At w₀) {w : Nat} (hw : L.exec w ≠ .loop) : w = w₀ := by
  by_contra hne
  exact hw (h.exec w hne)

/-- What is at one worker stays there, unless a submission attaches elsewhere.  Each step puts
    things where a call or the context points, and both point to `w₀`. -/
theorem at_step (h : L.At w₀) (hs : LaneStep r L l L') (hatt : ∀ c w nodes, l ≠ .attach c w nodes) :
    L'.At w₀ := by
  have hnames : ∀ w, L.Names w → w = w₀ := by
    rintro w ((⟨ctx, hctx, rfl⟩ | ⟨c, hc⟩ | hw) | hq)
    · exact h.ctx ctx hctx
    · exact h.calls c w hc
    · by_contra hne
      exact hw (h.wakes w hne)
    · by_contra hne
      exact hq (h.queue w hne)
  have hnames' : ∀ w, L'.Names w → w = w₀ := fun w hw => hnames w (names_step hs hatt hw)
  refine ⟨fun ctx hctx => ?_, fun w hw => ?_, fun w hw => ?_, fun w hw => ?_, fun c w hc => ?_⟩
  · exact hnames' _ (.inl (.inl ⟨ctx, hctx, rfl⟩))
  · by_contra hne
    exact hw (hnames' w (.inr hne))
  · by_contra hne
    exact hw (hnames' w (.inl (.inr (.inr hne))))
  · -- a worker only takes up a task of the lane on one of its wake-ups
    have hexec : ∀ {f : Nat → Exec α} {v : Nat} {x : Exec α}, f = Function.update L.exec v x →
        (v ≠ w₀ → x = .loop) → f w = .loop := by
      rintro f v x rfl hx
      by_cases hwv : w = v
      · subst hwv
        rw [Function.update_self]
        exact hx hw
      · rw [Function.update_of_ne hwv]
        exact h.exec w hw
    cases hs with
    | @take v userData wakes task queue he hwake hpop =>
      refine hexec rfl fun hv => ?_
      rw [h.wakes v hv] at hwake
      cases hwake
    | @finish v task userData ret he =>
      refine hexec rfl fun hv => ?_
      rw [h.exec v hv] at he
      cases he
    | account he => exact hexec rfl fun _ => rfl
    | _ => exact h.exec w hw
  · exact hnames' w (.inl (.inr (.inl ⟨c, hc⟩)))

end Lane

/-! ## The submission of a request with an id of its own

Which step of the transport attaches, with the tasks of which request. -/

section Own

variable {workerCount : Nat} {capacity : BitVec 32} {ok : Transport → Action → Prop}
  {s s' : Transport} {q : Nat} {r : ReqId}

/-- The tasks of a request are queued in one step of its submission.  `attached` is what the history
    says its call has put into queues. -/
theorem RequestStep.attached {v v' : RequestView} (hs : RequestStep q v v') :
    v'.attached = v.attached ∨ ∃ sub, v.submit = .pending sub ∧ v'.submit = .attached sub := by
  cases hs with
  | attach _ hs => exact .inr ⟨_, hs, rfl⟩
  | _ => exact .inl rfl

/-- A submission past that step has queued them. -/
theorem RequestInv.attached_of_phase {v : RequestView} (h : RequestInv q v) {sub : Submission ArgPtr}
    (hs : v.submit = .attached sub) : v.attached ≠ [] := by
  have hc : v.req.caller = .submitting := by
    by_contra hne
    rw [h.silent.submit hne] at hs
    cases hs
  obtain ⟨hp, -, -, -, ⟨-, hph⟩ | ⟨ha, -⟩⟩ := h.stage.of_submitting hc
  · rcases hph with hph | hph <;> rw [hs] at hph <;> cases hph
  · rw [ha]
    simpa using hp.tasks_ne_nil

/-- A call that records a context in the lane of `r` is a batch that has queued its tasks.  The pool
    sees the call as `recording`, and the view as `attached`. -/
theorem submit_of_recording (hr : (transportSystem workerCount capacity).Reach ok s) {w k : Nat}
    (hc : (lane r s.pool).calls (.caller q) = .recording w k) :
    ∃ sub, (s.view q).submit = .attached sub := by
  obtain ⟨sub, nodes, hcall, -⟩ := laneCall_recording hc
  have hbatch := batch_reach (pool_reach hr) (c := .caller q) (by rw [hcall]; rfl)
  refine ⟨sub, ?_⟩
  show (s.pool.calls (.caller q)).submitPhase = _
  rw [hcall, submitPhase_recording hbatch]

/-- A submission past its attach has queued the tasks of its request. -/
theorem attached_of_recording (hr : (transportSystem workerCount capacity).Reach ok s) {w k : Nat}
    (hc : (lane r s.pool).calls (.caller q) = .recording w k) : (s.view q).attached ≠ [] := by
  obtain ⟨sub, hph⟩ := submit_of_recording hr hc
  exact (request_inv hr q).attached_of_phase hph

/-- A call that attaches tasks with the id of request `q` is the one that makes `q`.  An id of its
    own belongs to one request, and a call attaches for the request it makes. -/
theorem own_attach (hr : (transportSystem workerCount capacity).Reach ok s) (hid : s.OwnsId q r)
    {pa : PoolAction Proc ArgPtr} {c : Proc} {w : Nat} {nodes : List (TaskNode ArgPtr)}
    (hexp : Explains r s.pool pa (.attach c w nodes)) :
    c = .caller q ∧ (s.view q).attached = [] ∧ (s.reqs q).prep.tasks ≠ [] ∧
      List.Forall₂ (s.reqs q).prep.submission.Created (s.reqs q).prep.tasks nodes := by
  have hpool := pool_reach hr
  obtain ⟨sub, alloc, -, hcall, hsub⟩ := hexp
  obtain ⟨q', rfl, -, hp, rfl, ha, -⟩ :=
    built_of_attaching (PoolSys.carries_reach hpool) (roles_reach hpool) (request_inv hr) hcall
  have hne := hp.tasks_ne_nil
  obtain rfl : q' = q := by
    rw [hp.submission_requestId] at hsub
    exact (hid q' hne).mp hsub
  have hcarry := PoolSys.carries_reach hpool (.caller q')
  rw [hcall] at hcarry
  exact ⟨rfl, ha, hne, hcarry.2⟩

/-- A submission of `q` between its two sections is seen in the lane of `q`. -/
theorem recording_of_view (hid : s.OwnsId q r) (hp : (s.reqs q).prep.WellFormed q)
    (hs : (s.view q).submit = .attached (s.reqs q).prep.submission) :
    ∃ w k, (lane r s.pool).calls (.caller q) = .recording w k := by
  have hphase : (s.pool.calls (.caller q)).submitPhase = .attached (s.reqs q).prep.submission := hs
  rw [lane_calls]
  cases hc : s.pool.calls (.caller q) with
  | recording sub w nodes =>
    rw [hc] at hphase
    obtain ⟨rfl, -⟩ := recording_of_attached hphase
    refine ⟨w, nodes.length, ?_⟩
    rw [laneCall, if_pos]
    rw [hp.submission_requestId]
    exact (hid q hp.tasks_ne_nil).mpr rfl
  | done res =>
    rw [hc] at hphase
    cases res <;> cases hphase
  | _ =>
    rw [hc] at hphase
    cases hphase

/-- What a step of the transport is in the lane of `r`.  Most steps make no step of the pool and are
    none of the lane (`tau`). -/
def SeesLane (r : ReqId) (s : Transport) (a : Action) (l : LaneLabel Proc ArgPtr)
    (s' : Transport) : Prop :=
  LaneStep r (lane r s.pool) l (lane r s'.pool) ∧
    (s'.pool = s.pool ∧ l = .tau ∨ ∃ pa, Calls s a pa ∧ Allocates a pa ∧
      s.pool.step pa = some s'.pool ∧ Explains r s.pool pa l)

/-- Every step of the transport is seen in the lane. -/
theorem seesLane_step {a : Action} (hr : (transportSystem workerCount capacity).Reach ok s)
    (hs : s.step a = some s') : ∃ l, SeesLane r s a l s' := by
  rcases (Transport.move_of_step hs).pool_alloc with heq | ⟨pa, hpa, halloc, hpool⟩
  · refine ⟨.tau, ?_, .inl ⟨heq, rfl⟩⟩
    rw [heq]
    exact .tau
  · obtain ⟨l, hl, hexp⟩ := lane_step (r := r) (PoolSys.carries_reach (pool_reach hr)) hpool
    exact ⟨l, hl, .inr ⟨pa, hpa, halloc, hpool, hexp⟩⟩

/-- **Induction over the lane of a request with an id of its own.**  Before the request's tasks
    are queued its lane is untouched; what the attach establishes and every later step, which is
    no attach in the lane, keeps holds from then on. -/
theorem own_reach {J : Transport → Prop}
    (hattach : ∀ s a s' w nodes, (transportSystem workerCount capacity).Reach ok s →
      s'.OwnsId q r → ok s a → s.step a = some s' → (lane r s.pool).Untouched →
      SeesLane r s a (.attach (.caller q) w nodes) s' →
      lane r s'.pool = (lane r s.pool).attached (.caller q) w nodes →
      List.Forall₂ (s.reqs q).prep.submission.Created (s.reqs q).prep.tasks nodes → J s')
    (hstep : ∀ s a s' l, (transportSystem workerCount capacity).Reach ok s → s'.OwnsId q r →
      ok s a → s.step a = some s' → (s.view q).attached ≠ [] → J s → SeesLane r s a l s' →
      (∀ c w nodes, l ≠ .attach c w nodes) → J s')
    (h : (transportSystem workerCount capacity).Reach ok s) (hid : s.OwnsId q r) :
    (s.view q).attached = [] ∧ (lane r s.pool).Untouched ∨ (s.view q).attached ≠ [] ∧ J s := by
  refine System.Reach.invariant_while (P := fun s => s.OwnsId q r)
    (I := fun s => (s.view q).attached = [] ∧ (lane r s.pool).Untouched ∨
      (s.view q).attached ≠ [] ∧ J s) ?_ ?_ ?_ h hid
  · intro s a s' hr hs hid'
    exact OwnsId.back hr hs hid'
  · rintro s rfl -
    exact .inl ⟨rfl, rfl, fun _ => rfl, fun _ => rfl, fun _ => rfl, fun _ => .inl rfl, rfl⟩
  intro s a s' hr hid' hI ha' hs
  have hid := OwnsId.back hr hs hid'
  have hinv' := request_inv (.step hr ha' hs) q
  -- what the step does to the tasks queued so far
  have hqueued : (s'.view q).attached = (s.view q).attached ∨
      (s'.reqs q).prep.WellFormed q ∧
        (s'.view q).submit = .attached (s'.reqs q).prep.submission ∧ (s'.view q).attached ≠ [] := by
    rcases view_step hr hs q with heq | hstep
    · exact .inl (congrArg RequestView.attached heq)
    · rcases hstep.attached with heq | ⟨sub, hpending, hsub⟩
      · exact .inl heq
      · have hinv := request_inv hr q
        obtain ⟨-, hp, rfl, -⟩ := hinv.stage.of_pending hinv.silent hpending
        have hkeep : (s'.reqs q).prep = (s.reqs q).prep := keepsMade_step hr hs q hp.tasks_ne_nil
        rw [hkeep]
        exact .inr ⟨hp, hsub, hinv'.attached_of_phase hsub⟩
  obtain ⟨l, hsees⟩ := seesLane_step (r := r) hr hs
  -- an attach in the lane is the one of `q`
  have hown : ∀ c w nodes, l = .attach c w nodes → c = .caller q ∧ (s.view q).attached = [] ∧
      List.Forall₂ (s.reqs q).prep.submission.Created (s.reqs q).prep.tasks nodes := by
    rintro c w nodes rfl
    obtain ⟨-, ⟨-, hl⟩ | ⟨pa, -, -, -, hexp⟩⟩ := hsees
    · cases hl
    · obtain ⟨hc, ha, -, hnodes⟩ := own_attach hr hid hexp
      exact ⟨hc, ha, hnodes⟩
  rcases hI with ⟨ha, hL⟩ | ⟨hne, hJ⟩
  · rcases untouched_step hL hsees.1 with hL' | ⟨c, w, nodes, rfl, -, -, hlane⟩
    · refine .inl ⟨?_, hL'⟩
      rcases hqueued with heq | ⟨hp, hsub, -⟩
      · rw [heq, ha]
      · -- a submission past its attach would be seen
        obtain ⟨w, k, hcall⟩ := recording_of_view hid' hp hsub
        exact (hL'.not_loaded hcall (by simp) (by simp)).elim
    · obtain ⟨rfl, -, hnodes⟩ := hown c w nodes rfl
      have hrec : (lane r s'.pool).calls (.caller q) = .recording w nodes.length := by
        rw [hlane]
        exact Function.update_self ..
      exact .inr ⟨attached_of_recording (.step hr ha' hs) hrec,
        hattach s a s' w nodes hr hid' ha' hs hL hsees hlane hnodes⟩
  · have hgrow : (s'.view q).attached ≠ [] := by
      rcases hqueued with heq | ⟨-, -, hne'⟩
      · rwa [heq]
      · exact hne'
    refine .inr ⟨hgrow, hstep s a s' l hr hid' ha' hs hne hJ hsees ?_⟩
    intro c w nodes hl
    exact hne (hown c w nodes hl).2.1

/-- The same for a property of the lane and of what the request was made with.  Here the transport
    no longer appears: attach and step are those of the lane machine. -/
theorem own_lane_reach (okLane : Lane Proc ArgPtr → LaneLabel Proc ArgPtr → Prop)
    {J : Prepared → Lane Proc ArgPtr → Prop}
    (hok : ∀ s a l s', ok s a → SeesLane r s a l s' → okLane (lane r s.pool) l)
    (hattach : ∀ a p alloc (L : Lane Proc ArgPtr) w nodes, ApiCall a q (some p) alloc →
      p.requestId = r → L.Untouched → List.Forall₂ p.submission.Created p.tasks nodes →
      J p (L.attached (.caller q) w nodes))
    (hstep : ∀ p L l L', J p L → LaneStep r L l L' → (∀ c w nodes, l ≠ .attach c w nodes) →
      okLane L l → J p L')
    (h : (transportSystem workerCount capacity).Reach ok s) (hid : s.OwnsId q r) :
    (s.view q).attached = [] ∧ (lane r s.pool).Untouched ∨
      (s.view q).attached ≠ [] ∧ J (s.reqs q).prep (lane r s.pool) := by
  refine own_reach (J := fun s => J (s.reqs q).prep (lane r s.pool)) ?_ ?_ h hid
  · intro s a s' w nodes hr hid' _ hs hL hsees hlane hnodes
    have hmade : (s.reqs q).prep.tasks ≠ [] := by
      obtain ⟨-, ⟨-, hl⟩ | ⟨pa, -, -, -, hexp⟩⟩ := hsees
      · cases hl
      · exact (own_attach hr (OwnsId.back hr hs hid') hexp).2.2.1
    obtain ⟨a₀, alloc, hcall⟩ := made_reach hr hmade
    rw [keepsMade_step hr hs q hmade, hlane]
    exact hattach a₀ _ alloc _ w nodes hcall
      ((OwnsId.back hr hs hid' q hmade).mpr rfl) hL hnodes
  · intro s a s' l hr _ ha hs hne hJ hsees hl
    rw [keepsMade_step hr hs q ((request_inv hr q).stage.attached_ne_nil hne).1.tasks_ne_nil]
    exact hstep _ _ l _ hJ hsees.1 hl (hok s a l s' ha hsees)

end Own

/-! ## While nobody cancels

The course of such a lane: recorded, counted down, and over. -/

/-- No call records, cancels or counts off.  A wake-up that has looked up its worker has found
    `w₀`. -/
def CalmCall (w₀ : Nat) (pc : LaneCall) : Prop :=
  pc = .idle ∨ pc = .submitting ∨ ∃ u, pc = .waking u w₀

/-- The course of a lane at worker `w₀` whose submission queued `n` tasks.  As nobody cancels, what
    the context counts is what is in the queue and in the worker's hands. -/
inductive Lane.Course (L : Lane κ α) (w₀ n : Nat) : Prop
  /-- The context is not yet recorded: nobody can wake the worker. -/
  | recording {c : κ} (hc : L.calls c = .recording w₀ n) (hctx : L.ctx = none)
      (hqueue : (L.queue w₀).length = n) (hwakes : L.wakes w₀ = []) (hexec : L.exec w₀ = .loop)
      (hother : ∀ c', c' ≠ c → L.calls c' = .idle ∨ L.calls c' = .submitting)
  /-- The context counts what is left. -/
  | counting {ctx : RequestContext} (hctx : L.ctx = some ctx)
      (hcount : ctx.pendingCount = (L.queue w₀).length + (L.exec w₀).owed)
      (hpos : 0 < (L.queue w₀).length + (L.exec w₀).owed)
      (hle : (L.queue w₀).length + (L.exec w₀).owed ≤ n)
      (hcalls : ∀ c, CalmCall w₀ (L.calls c))
  | ended (hctx : L.ctx = none) (hqueue : L.queue w₀ = []) (hexec : L.exec w₀ = .loop)
      (hcalls : ∀ c, CalmCall w₀ (L.calls c))

/-- A step of a lane that nobody cancels, and whose context is allocated.  A cancel is kept out at
    its first section, the lookup. -/
def Uncancelled (_ : Lane κ α) : LaneLabel κ α → Prop
  | .lookCancel _ => False
  | .record _ alloc => alloc = true
  | _ => True

section Course

variable [DecidableEq κ] {r : ReqId} {L L' : Lane κ α} {l : LaneLabel κ α} {w₀ n : Nat}

/-- A calm call takes the place of another. -/
theorem calm_update {f : κ → LaneCall} (h : ∀ c, CalmCall w₀ (f c)) {c : κ} {pc : LaneCall}
    (hpc : CalmCall w₀ pc) : ∀ c', CalmCall w₀ (Function.update f c pc c') :=
  (Function.forall_update_iff f fun _ => CalmCall w₀).mpr ⟨hpc, fun c _ => h c⟩

/-- A call between idle, submitting and waking leaves the course. -/
theorem Lane.Course.setCall (h : L.Course w₀ n) {c : κ} {pc : LaneCall}
    (hc : ∀ w k, L.calls c ≠ .recording w k) (hpc : CalmCall w₀ pc)
    (hwaking : ∀ u, pc = .waking u w₀ → ∃ ctx, L.ctx = some ctx) :
    Lane.Course { L with calls := Function.update L.calls c pc } w₀ n := by
  cases h with
  | @recording c₀ hc₀ hctx hqueue hwakes hexec hother =>
    have hne : c ≠ c₀ := fun heq => hc w₀ n (heq ▸ hc₀)
    refine .recording (c := c₀) ((Function.update_of_ne hne.symm _ _).trans hc₀) hctx hqueue hwakes
      hexec ?_
    intro c' hc'
    show Function.update L.calls c pc c' = .idle ∨ Function.update L.calls c pc c' = .submitting
    by_cases heq : c' = c
    · rw [heq, Function.update_self]
      rcases hpc with hpc | hpc | ⟨u, hpc⟩
      · exact .inl hpc
      · exact .inr hpc
      · obtain ⟨ctx, hsome⟩ := hwaking u hpc
        rw [hctx] at hsome
        cases hsome
    · rw [Function.update_of_ne heq]
      exact hother c' hc'
  | counting hctx hcount hpos hle hcalls =>
    exact .counting hctx hcount hpos hle (calm_update hcalls hpc)
  | ended hctx hqueue hexec hcalls => exact .ended hctx hqueue hexec (calm_update hcalls hpc)

omit [DecidableEq κ] in
theorem Lane.Course.not_cancels (h : L.Course w₀ n) (c : κ) :
    (∀ w, L.calls c ≠ .cancelling w) ∧ ∀ k, L.calls c ≠ .uncounting k := by
  have hno : L.calls c = .idle ∨ L.calls c = .submitting ∨ (∃ u, L.calls c = .waking u w₀) ∨
      L.calls c = .recording w₀ n := by
    cases h with
    | @recording c₀ hc₀ _ _ _ _ hother =>
      by_cases hc : c = c₀
      · exact .inr (.inr (.inr (hc ▸ hc₀)))
      · exact (hother c hc).imp_right .inl
    | counting _ _ _ _ hcalls | ended _ _ _ hcalls =>
      exact (hcalls c).imp_right (Or.imp_right .inl)
  rcases hno with h | h | ⟨u, h⟩ | h <;> rw [h] <;> exact ⟨fun w => by simp, fun k => by simp⟩

/-- The submission records its context, with memory: what is queued is counted from now on. -/
theorem Lane.Course.record (h : L.Course w₀ n) (hn : 0 < n) (hfew : n < 2 ^ 31) {c : κ}
    (hs : LaneStep r L (.record c true) L') : L'.Course w₀ n := by
  cases hs with
  | @record _ w k _ cb hc =>
    cases h with
    | @recording c₀ hc₀ hctx hqueue hwakes hexec hother =>
      obtain rfl : c = c₀ := by
        by_contra hne
        rcases hother c hne with h | h <;> rw [h] at hc <;> cases hc
      rw [hc₀] at hc
      cases hc
      have hctx' : recordedContext true r w₀ n cb L.ctx = some ⟨r, w₀, n, cb⟩ := by
        rw [hctx, recordedContext, if_pos rfl, cInt_eq (by omega) (by omega)]
      refine .counting hctx' ?_ ?_ ?_ ?_
      · rw [hqueue, hexec]
        rfl
      · rw [hqueue]
        omega
      · rw [hqueue, hexec]
        exact Nat.le_refl n
      · intro c'
        show CalmCall w₀ (Function.update L.calls c .idle c')
        by_cases hne : c' = c
        · rw [hne, Function.update_self]
          exact .inl rfl
        · rw [Function.update_of_ne hne]
          exact (hother c' hne).imp_right .inl
    | counting _ _ _ _ hcalls | ended _ _ _ hcalls =>
      rcases hcalls c with h | h | ⟨u, h⟩ <;> rw [h] at hc <;> cases hc

/-- A wake-up is accepted; without a context there is none to accept. -/
theorem Lane.Course.pushWake (h : L.Course w₀ n) {c : κ} (hs : LaneStep r L (.pushWake c) L') :
    L'.Course w₀ n := by
  cases hs with
  | @pushWake _ u w hc =>
    cases h with
    | @recording c₀ hc₀ _ _ _ _ hother =>
      -- nobody wakes a worker without a context
      have hne : c ≠ c₀ := by
        rintro rfl
        rw [hc₀] at hc
        cases hc
      rcases hother c hne with h | h <;> rw [h] at hc <;> cases hc
    | counting hctx hcount hpos hle hcalls =>
      exact .counting hctx hcount hpos hle (calm_update hcalls (.inl rfl))
    | ended hctx hqueue hexec hcalls =>
      exact .ended hctx hqueue hexec (calm_update hcalls (.inl rfl))

/-- A task goes from the queue to the worker, and is still owed. -/
theorem Lane.Course.take (h : L.Course w₀ n) (hat : L.At w₀) {w : Nat} {task : TaskNode α}
    {u : BitVec 64} (hs : LaneStep r L (.take w task u) L') : L'.Course w₀ n := by
  cases hs with
  | @take _ _ us _ queue hexec hw hpop =>
    obtain rfl := hat.worker_of_wake hw
    obtain ⟨l₁, l₂, hqueue', hrest, -, -⟩ := Queue.popFirst_some hpop
    have hlen : (L.queue w).length = queue.length + 1 := by
      rw [hqueue', hrest, List.length_append, List.length_append, List.length_cons]
      omega
    cases h with
    | recording _ _ _ hwakes =>
      rw [hwakes] at hw
      cases hw
    | counting hctx hcount hpos hle hcalls =>
      have howed : ∀ x : Exec α, (Function.update L.exec w x w).owed = x.owed := fun x => by
        rw [Function.update_self]
      refine .counting hctx ?_ ?_ ?_ hcalls
      · show _ = ((Function.update L.queue w queue w).length : Int) +
          (Function.update L.exec w _ w).owed
        rw [howed, Function.update_self, hcount, hlen, hexec]
        simp [Exec.owed]
      · show 0 < (Function.update L.queue w queue w).length + (Function.update L.exec w _ w).owed
        rw [howed]
        simp [Exec.owed]
      · show (Function.update L.queue w queue w).length + (Function.update L.exec w _ w).owed ≤ n
        rw [howed, Function.update_self]
        rw [hexec] at hle
        simp only [Exec.owed] at hle ⊢
        omega
    | ended hctx hqueue =>
      rw [hqueue] at hlen
      simp at hlen

/-- A wake-up that finds no task only leaves the list of wake-ups. -/
theorem Lane.Course.miss (h : L.Course w₀ n) (hat : L.At w₀) {w : Nat} {u : BitVec 64}
    (hs : LaneStep r L (.miss w u) L') : L'.Course w₀ n := by
  cases hs with
  | @miss _ _ us hexec hw hpop =>
    obtain rfl := hat.worker_of_wake hw
    cases h with
    | recording _ _ _ hwakes =>
      rw [hwakes] at hw
      cases hw
    | counting hctx hcount hpos hle hcalls => exact .counting hctx hcount hpos hle hcalls
    | ended hctx hqueue hexec hcalls => exact .ended hctx hqueue hexec hcalls

/-- A task that has returned is owed until it is counted off. -/
theorem Lane.Course.finish (h : L.Course w₀ n) (hat : L.At w₀) {w : Nat} {ret : Int}
    (hs : LaneStep r L (.finish w ret) L') : L'.Course w₀ n := by
  cases hs with
  | @finish _ task u _ hexec =>
    obtain rfl := hat.worker_of_exec (w := w) (by rw [hexec]; simp)
    cases h with
    | recording _ _ _ _ hloop | ended _ _ hloop =>
      rw [hloop] at hexec
      cases hexec
    | counting hctx hcount hpos hle hcalls =>
      have howed : (Function.update L.exec w (.returned task r ret) w).owed = (L.exec w).owed := by
        rw [Function.update_self, hexec]
        rfl
      refine .counting hctx ?_ ?_ ?_ hcalls
      · rw [hcount, howed]
      · rw [howed]
        exact hpos
      · rw [howed]
        exact hle

/-- A task is counted off, and the last one takes the context with it. -/
theorem Lane.Course.account (h : L.Course w₀ n) (hat : L.At w₀) (hfew : n < 2 ^ 31) {w : Nat}
    (hs : LaneStep r L (.account w) L') : L'.Course w₀ n := by
  cases hs with
  | @account _ task ret hexec =>
    obtain rfl := hat.worker_of_exec (w := w) (by rw [hexec]; simp)
    cases h with
    | recording _ _ _ _ hloop | ended _ _ hloop =>
      rw [hloop] at hexec
      cases hexec
    | @counting ctx hctx hcount hpos hle hcalls =>
      have hloop : (Function.update L.exec w .loop w) = Exec.loop := Function.update_self ..
      rw [hexec] at hcount hle
      simp only [Exec.owed, Nat.cast_one] at hcount hle
      have hdown : accountedContext (some ctx) = _ := accountedContext_of_fits (by omega) (by omega)
      by_cases hzero : ctx.pendingCount - 1 = 0
      · have hlen : (L.queue w).length = 0 := by omega
        refine .ended ?_ (List.length_eq_zero_iff.mp hlen) hloop hcalls
        show accountedContext L.ctx = none
        rw [hctx, hdown, if_pos hzero]
      · have hctx' : accountedContext L.ctx
            = some { ctx with pendingCount := ctx.pendingCount - 1 } := by
          rw [hctx, hdown, if_neg hzero]
        refine .counting hctx' ?_ ?_ ?_ hcalls
        · show ctx.pendingCount - 1 =
            (L.queue w).length + ((Function.update L.exec w .loop w).owed : Int)
          rw [hloop, hcount]
          simp [Exec.owed]
        · have hlen : 0 < (L.queue w).length := by omega
          show 0 < (L.queue w).length + (Function.update L.exec w .loop w).owed
          omega
        · show (L.queue w).length + (Function.update L.exec w .loop w).owed ≤ n
          rw [hloop]
          simp only [Exec.owed]
          omega

/-- No step of an uncancelled lane leaves its course. -/
theorem course_step (hat : L.At w₀) (hn : 0 < n) (hfew : n < 2 ^ 31) (h : L.Course w₀ n)
    (hs : LaneStep r L l L') (hatt : ∀ c w nodes, l ≠ .attach c w nodes)
    (hok : Uncancelled L l) : L'.Course w₀ n := by
  have hnone : ∀ {u : BitVec 64} {pc : LaneCall}, pc = .idle ∨ pc = .submitting →
      pc = .waking u w₀ → ∃ ctx, L.ctx = some ctx := by
    rintro u pc (rfl | rfl) hpc <;> cases hpc
  cases hs with
  | tau => exact h
  | submit hc => exact h.setCall (by simp [hc]) (.inr (.inl rfl)) fun u => hnone (.inr rfl)
  | giveUp hc => exact h.setCall (by simp [hc]) (.inl rfl) fun u => hnone (.inl rfl)
  | attach => exact absurd rfl (hatt _ _ _)
  | @record c w k alloc cb hc =>
    obtain rfl : alloc = true := hok
    exact h.record hn hfew (.record hc)
  | @lookWake c u ctx hc hctx =>
    refine h.setCall (by simp [hc]) (.inr (.inr ⟨u, ?_⟩)) fun _ _ => ⟨ctx, hctx⟩
    rw [hat.ctx ctx hctx]
  | pushWake hc => exact h.pushWake (r := r) (.pushWake hc)
  | dropWake hc => exact h.setCall (by simp [hc]) (.inl rfl) fun u => hnone (.inl rfl)
  | lookCancel => exact hok.elim
  | cancelQueue hc => exact absurd hc ((h.not_cancels _).1 _)
  | uncount hc => exact absurd hc ((h.not_cancels _).2 _)
  | take hexec hw hpop => exact h.take hat (.take hexec hw hpop)
  | miss hexec hw hpop => exact h.miss (r := r) hat (.miss hexec hw hpop)
  | finish hexec => exact h.finish hat (.finish hexec)
  | account hexec => exact h.account hat hfew (.account hexec)

omit [DecidableEq κ] in
/-- A recorded lane with tasks in its queue has a context.  So a wake-up that comes now finds its
    worker. -/
theorem Lane.Course.ctx_some (h : L.Course w₀ n) (hat : L.At w₀) {w : Nat} (hqueue : L.queue w ≠ [])
    (hrec : ∀ c w k, L.calls c ≠ .recording w k) : ∃ ctx, L.ctx = some ctx := by
  cases h with
  | recording hc => exact absurd hc (hrec _ _ _)
  | counting hctx => exact ⟨_, hctx⟩
  | ended _ hnil =>
    refine absurd ?_ hqueue
    by_cases hw : w = w₀
    · rw [hw, hnil]
    · exact hat.queue w hw

/-- Only attaching begins a recording. -/
theorem recording_step {c : κ} {w k : Nat} (hs : LaneStep r L l L')
    (hatt : ∀ c w nodes, l ≠ .attach c w nodes) (hc : L'.calls c = .recording w k) :
    L.calls c = .recording w k := by
  have hupd : ∀ {c' : κ} {pc : LaneCall}, (∀ w k, pc ≠ .recording w k) →
      Function.update L.calls c' pc c = .recording w k → L.calls c = .recording w k := by
    intro c' pc hpc hc
    by_cases hne : c = c'
    · rw [hne, Function.update_self] at hc
      exact absurd hc (hpc w k)
    · rwa [Function.update_of_ne hne] at hc
  cases hs with
  | attach => exact absurd rfl (hatt _ _ _)
  | cancelQueue =>
    refine hupd ?_ hc
    intro w' k'
    split <;> simp
  | submit | giveUp | record | lookWake | pushWake | dropWake | lookCancel | uncount =>
    exact hupd (by simp) hc
  | _ => exact hc

end Course

/-- The step neither cancels tasks of `r` nor fails an allocation of the call that makes `q`.
    Wake-ups may still fail for lack of memory. -/
def LeftAlone (q : Nat) (r : ReqId) (s : Transport) (a : Action) : Prop :=
  (∀ c, ¬ Calls s a (.cancel c r)) ∧ ∀ alloc statuses, a = .caller q alloc statuses → alloc = .ok

/-- A request with an id of its own that is left alone keeps to its course.  A call makes at most
    `maxChunkNum` tasks, so the count is far from the end of an `int`. -/
theorem course_reach {workerCount : Nat} {capacity : BitVec 32} {ok : Transport → Action → Prop}
    {s : Transport} {q : Nat} {r : ReqId} (hok : ∀ s a, ok s a → LeftAlone q r s a)
    (h : (transportSystem workerCount capacity).Reach ok s) (hid : s.OwnsId q r) :
    (s.view q).attached = [] ∧ (lane r s.pool).Untouched ∨ (s.view q).attached ≠ [] ∧
      (∀ c w k, (lane r s.pool).calls c = .recording w k → c = .caller q) ∧
      ∃ w₀, (lane r s.pool).At w₀ ∧ (lane r s.pool).Course w₀ (s.reqs q).prep.tasks.length := by
  let okLane : Lane Proc ArgPtr → LaneLabel Proc ArgPtr → Prop := fun _ l =>
    match l with
    | .lookCancel _ => False
    | .record c alloc => c = .caller q → alloc = true
    | _ => True
  let J : Prepared → Lane Proc ArgPtr → Prop := fun p L =>
    0 < p.tasks.length ∧ p.tasks.length < 2 ^ 31 ∧ (∀ c w k, L.calls c = .recording w k → c = .caller q) ∧
      ∃ w₀, L.At w₀ ∧ L.Course w₀ p.tasks.length
  have hreach := own_lane_reach okLane (J := J) ?_ ?_ ?_ h hid
  · exact hreach.imp_right (And.imp_right fun hJ => hJ.2.2)
  · intro s a l s' ha hsees
    obtain ⟨-, ⟨-, rfl⟩ | ⟨pa, hpa, halloc, -, hexp⟩⟩ := hsees
    · trivial
    · cases l with
      | lookCancel c =>
        obtain rfl : pa = .cancel c r := hexp
        exact (hok s a ha).1 c hpa
      | record c ok' =>
        rintro rfl
        obtain ⟨sub, w, nodes, alloc, rfl, -, -, rfl⟩ := hexp
        obtain ⟨statuses, rfl⟩ := halloc
        rw [(hok s _ ha).2 alloc statuses rfl]
        simp
      | _ => trivial
  · intro a p alloc L w nodes hcall _ hL hnodes
    have hlen : p.tasks.length = nodes.length := hnodes.length_eq
    have hself : (L.attached (.caller q) w nodes).calls (.caller q) = .recording w nodes.length :=
      Function.update_self ..
    have hother : ∀ c, c ≠ .caller q →
        (L.attached (.caller q) w nodes).calls c = .idle ∨
          (L.attached (.caller q) w nodes).calls c = .submitting := by
      intro c hc
      rw [show (L.attached (.caller q) w nodes).calls c = L.calls c from Function.update_of_ne hc _ _]
      exact hL.calls c
    have hfew := hcall.wellFormed.chunks_le
    rw [← hcall.wellFormed.tasks_length, show maxChunkNum = 7 from rfl] at hfew
    refine ⟨List.length_pos_of_ne_nil hcall.wellFormed.tasks_ne_nil, by omega, ?_, w, hL.at_attached _ w nodes, ?_⟩
    · intro c w' k hc
      by_contra hne
      rcases hother c hne with hidle | hsub
      · rw [hidle] at hc
        cases hc
      · rw [hsub] at hc
        cases hc
    · refine .recording (c := .caller q) (by rw [hlen]; exact hself) hL.ctx ?_ (hL.wakes w) (hL.exec w) hother
      show (Function.update L.queue w (L.queue w ++ nodes) w).length = _
      rw [Function.update_self, hL.queue w, List.nil_append, hlen]
  · rintro p L l L' ⟨hpos, hfew, hrec, w₀, hat, hcourse⟩ hs hatt hl
    refine ⟨hpos, hfew, fun c w k hc => hrec c w k (recording_step hs hatt hc), w₀, at_step hat hs hatt, ?_⟩
    refine course_step hat hpos hfew hcourse hs hatt ?_
    cases hs with
    | lookCancel => exact hl.elim
    | record hc => exact hl (hrec _ _ _ hc)
    | _ => trivial

end OsTransport
