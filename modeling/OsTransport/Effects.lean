/-
  What the task functions do to the outside.

  The events of a task are the posts and the callback made on its behalf.  `TaskRun` is the task
  function as seen by its events: which of them have happened when the worker stands at a given
  place of the body.  A task is taken at most once (`Ledger.unique`), so its events
  in the whole history are those of one run (`Effects`): none before it is taken, a beginning of
  the run while a worker is in it, a finished run once it is marked.

  The first consequence is what a wait may promise (`reported_success`).

  The layers, from the bottom:

  * `TaskRun` has one constructor for each place of the two task functions, so it is checked against
    the source line by line; `TaskRun.accomplished` is what a successful end of it means;
  * the bags of `Ledger` count each task at most once (`Ledger.unique`), so no two workers are in the
    same task (`Ledger.one_worker`) and a queued one has no events (`Ledger.untouched`);
  * `Effects.move` goes through the steps of the transport.  Only a worker inside a task adds to the
    events of one (`Effects.continues`, `Effects.mark`); all the rest is one frame lemma
    (`Effects.frame`), since what a call has made stays as it is (`KeepsMade`);
  * `effects_reach` is the induction over runs.

  `reported_success` is then a matter of counting: a wait returns `0` only if as many tasks were
  marked a success as there are, so each was marked once (`marked_once`), and a mark is the end of a
  run (`accomplished_of_mark`).
-/
import OsTransport.Nodes

namespace OsTransport

open Transition Total

/-! ## The run of a task function

`TaskRun` follows a task function from place to place, with the events so far. -/

/-- The task an event belongs to.  The first write of a request belongs to its caller.  A task
    notifies of its own chunk and writes the next. -/
def Event.task : Event → Option ArgPtr
  | .post q .sendImm i _ _ _ => some ⟨q, i⟩
  | .post q .write (i + 1) _ _ _ => some ⟨q, i⟩
  | .callback q i _ _ _ => some ⟨q, i⟩
  | _ => none

/-- The events of task `p`, oldest first. -/
def taskEvents (p : ArgPtr) (trace : List Event) : List Event :=
  trace.filter fun e => e.task == some p

/-- A post that ends with the status `st`, and what the library sees of it.  A post without a queue
    is refused before it reaches the library. -/
def Posts (q : Nat) (opcode : UrmaOpcode) (chunk : Nat) (attempt : Option (SendQueue × UrmaJfsWr))
    (events : List Event) (st : UrmaStatus) : Prop :=
  match attempt with
  | none => events = [] ∧ st = urmaFail
  | some (queue, wr) => events = [.post q opcode chunk queue wr st]

/-- `TaskRun p userData arg es b`: the function of task `p`, woken with `userData`, has caused the
    events `es` when its worker stands at `b`. -/
inductive TaskRun (p : ArgPtr) (userData : BitVec 64) : TaskArg → List Event → Body → Prop
  | start {arg} : TaskRun p userData arg [] .start
  | notified {arg es} (hp : Posts p.sync .sendImm p.index
      (urmaWriteNotify arg.writeInfo arg.chunkInfo) es urmaSuccess) (hc : arg.chunkInfo ≠ none) :
      TaskRun p userData (.send arg) es .write
  | announced {arg es st} (hp : Posts p.sync .sendImm p.index
      (urmaWriteNotify arg.writeInfo arg.chunkInfo) es st)
      (hst : st ≠ urmaSuccess ∨ arg.chunkInfo = none) :
      TaskRun p userData (.send arg) es (.status st)
  | written {arg es es' st} (h : TaskRun p userData (.send arg) es .write)
      (hp : Posts p.sync .write (p.index + 1) (urmaWriteChunk arg.writeInfo arg.chunkInfo) es' st) :
      TaskRun p userData (.send arg) (es ++ es') (.status st)
  | called {arg cb ret} (hcb : arg.notifyCallback = some cb) :
      TaskRun p userData (.recv arg)
        [.callback p.sync p.index cb (UserData.ofUserCtx userData) ret] (.mark ret)
  | uncalled {arg} (hcb : arg.notifyCallback = none) : TaskRun p userData (.recv arg) [] (.mark (-1))
  | status {arg es st} (h : TaskRun p userData arg es (.status st)) :
      TaskRun p userData arg es (.mark st)

section Runs

variable {p : ArgPtr} {userData : BitVec 64} {arg : TaskArg} {es : List Event} {b : Body}

/-- Its events are posts of that chunk. -/
theorem Posts.task {q chunk : Nat} {opcode : UrmaOpcode} {attempt : Option (SendQueue × UrmaJfsWr)}
    {st : UrmaStatus} (h : Posts q opcode chunk attempt es st) :
    ∀ e ∈ es, ∃ queue wr, e = .post q opcode chunk queue wr st := by
  intro e he
  cases attempt with
  | none =>
    obtain ⟨rfl, -⟩ := h
    cases he
  | some x =>
    obtain rfl : es = _ := h
    exact ⟨x.1, x.2, List.mem_singleton.mp he⟩

/-- A successful post was not refused. -/
theorem Posts.success {q chunk : Nat} {opcode : UrmaOpcode}
    {attempt : Option (SendQueue × UrmaJfsWr)} (h : Posts q opcode chunk attempt es urmaSuccess) :
    ∃ queue wr, attempt = some (queue, wr) ∧ es = [.post q opcode chunk queue wr urmaSuccess] := by
  cases attempt with
  | none =>
    obtain ⟨-, hst⟩ := h
    cases hst
  | some x => exact ⟨x.1, x.2, rfl, h⟩

/-- At the place of the write the notify has been posted. -/
theorem TaskRun.of_write (h : TaskRun p userData arg es .write) :
    ∃ sendArg, arg = .send sendArg ∧ sendArg.chunkInfo ≠ none ∧ Posts p.sync .sendImm p.index
      (urmaWriteNotify sendArg.writeInfo sendArg.chunkInfo) es urmaSuccess := by
  cases h with
  | notified hp hc => exact ⟨_, rfl, hc, hp⟩

/-- What a task that returned `0` has done: its notify and its write were posted, or its callback
    returned `0`.  The last task of a send has no chunk after its own, and only notifies. -/
def Accomplished (p : ArgPtr) : TaskArg → List Event → Prop
  | .send arg, es =>
    (∃ queue wr, urmaWriteNotify arg.writeInfo arg.chunkInfo = some (queue, wr) ∧
      arg.chunkInfo = none ∧ es = [.post p.sync .sendImm p.index queue wr urmaSuccess]) ∨
    (∃ queue wr queue' wr', urmaWriteNotify arg.writeInfo arg.chunkInfo = some (queue, wr) ∧
      urmaWriteChunk arg.writeInfo arg.chunkInfo = some (queue', wr') ∧
      es = [.post p.sync .sendImm p.index queue wr urmaSuccess,
        .post p.sync .write (p.index + 1) queue' wr' urmaSuccess])
  | .recv arg, es => ∃ cb userData, arg.notifyCallback = some cb ∧
      es = [.callback p.sync p.index cb (UserData.ofUserCtx userData) 0]

/-- A task whose post was accepted has done what it is for.  The status is that of its last post,
    and a task that failed earlier has not come so far. -/
theorem TaskRun.status_success (h : TaskRun p userData arg es (.status urmaSuccess)) :
    Accomplished p arg es := by
  cases h with
  | announced hp hst =>
    obtain ⟨queue, wr, hattempt, rfl⟩ := hp.success
    exact .inl ⟨queue, wr, hattempt, hst.resolve_left fun h => h rfl, rfl⟩
  | written h hp =>
    obtain ⟨sendArg, heq, -, hnotify⟩ := h.of_write
    cases heq
    obtain ⟨queue, wr, hattempt, rfl⟩ := hnotify.success
    obtain ⟨queue', wr', hattempt', rfl⟩ := hp.success
    exact .inr ⟨queue, wr, queue', wr', hattempt, hattempt', rfl⟩

/-- A task that is about to be marked as a success has done what it is for. -/
theorem TaskRun.accomplished (h : TaskRun p userData arg es (.mark 0)) : Accomplished p arg es := by
  cases h with
  | called hcb => exact ⟨_, userData, hcb, rfl⟩
  | status h => exact h.status_success

end Runs

/-! ## Taken at most once

An argument is attached once, so by the ledger its task is in one place. -/

section Unique

variable {s s' : Transport} {Q E : Multiset ArgPtr} {workerCount : Nat} {capacity : BitVec 32}
  {ok : Transport → Action → Prop}

/-- No task is attached twice. -/
theorem attached_nodup (hinv : ∀ q, RequestInv q (s.view q)) (p : ArgPtr) :
    (attachedList s.pool.log).count p ≤ 1 := by
  have hfilter : (attachedList s.pool.log).count p = (s.view p.sync).attached.count p := by
    show _ = ((attachedList s.pool.log).filter fun x => x.sync == p.sync).count p
    rw [List.count_filter (by simp)]
  rw [hfilter]
  by_cases hnil : (s.view p.sync).attached = []
  · rw [hnil]
    exact Nat.zero_le 1
  · have hnodup : (s.view p.sync).attached.Nodup := by
      have hstage := (hinv p.sync).stage
      have hmade : (s.view p.sync).attached
          = (s.view p.sync).req.prep.tasks.map ThreadPoolTask.taskArg := by
        cases hstage with
        | unmade _ _ _ ha => exact absurd ha hnil
        | pending _ _ _ _ _ ha => exact absurd ha hnil
        | queued _ _ _ _ _ ha => exact ha
        | bound _ _ _ _ ha => exact ha
      rw [hmade, (hstage.attached_ne_nil hnil).1.taskArgs]
      refine List.nodup_range.map fun i j hij => ?_
      simpa using hij
    exact List.nodup_iff_count_le_one.mp hnodup p

/-- Each task is in one place at most.  Queued, in execution, marked, or removed by a cancel: the
    four counts add up to at most one. -/
theorem Ledger.unique (h : Ledger s Q E) (hinv : ∀ q, RequestInv q (s.view q)) (p : ArgPtr) :
    Q.count p + E.count p + ((marks s.trace).map Prod.fst).count p
      + ((removals s.pool.log).map Prod.snd).count p ≤ 1 := by
  have hcount := congrArg (Multiset.count p) h.balance
  simp only [Multiset.count_add, Multiset.coe_count] at hcount
  have hle := attached_nodup hinv p
  omega

/-- A worker that executes task `p`. -/
def Transport.Executes (s : Transport) (w : Nat) (p : ArgPtr) : Prop :=
  ∃ t r u, (s.pool.workers w).exec = .running t r u ∧ t.ptr = p ∧ (s.body w).unmarked = true

/-- A worker in a task executes that task. -/
theorem executingBag_executes {w : Nat} {p : ArgPtr} (h : s.Executes w p) :
    executingBag (s.running w) = {p} := by
  obtain ⟨t, r, u, hexec, rfl, hb⟩ := h
  rw [executingBag_running (x := s.running w) hexec]
  exact if_pos hb

/-- Who executes a task holds it. -/
theorem Ledger.executing_count (h : Ledger s Q E) {w : Nat} {p : ArgPtr} (hx : s.Executes w p) :
    1 ≤ E.count p := by
  have hle := Multiset.count_le_of_le p (h.executing.le w)
  rw [executingBag_executes hx, Multiset.count_singleton_self] at hle
  exact hle

/-- No two workers execute the same task. -/
theorem Ledger.one_worker (h : Ledger s Q E) (hinv : ∀ q, RequestInv q (s.view q)) {w w' : Nat}
    {p : ArgPtr} (hx : s.Executes w p) (hx' : s.Executes w' p) : w = w' := by
  by_contra hne
  have hle := Multiset.count_le_of_le p (h.executing.add_le hne)
  rw [executingBag_executes hx, executingBag_executes hx', Multiset.count_add,
    Multiset.count_singleton_self] at hle
  have hunique := h.unique hinv p
  omega

/-- A task in execution is not marked. -/
theorem Ledger.not_marked (h : Ledger s Q E) (hinv : ∀ q, RequestInv q (s.view q)) {w : Nat}
    {p : ArgPtr} (hx : s.Executes w p) (b : Bool) : (p, b) ∉ marks s.trace := by
  intro hmem
  have hpos : 0 < ((marks s.trace).map Prod.fst).count p :=
    List.count_pos_iff.mpr (List.mem_map_of_mem hmem)
  have hexec := h.executing_count hx
  have hunique := h.unique hinv p
  omega

/-- A queued task is neither in execution nor marked. -/
theorem Ledger.untouched (h : Ledger s Q E) (hinv : ∀ q, RequestInv q (s.view q)) {w : Nat}
    {t : TaskNode ArgPtr} (ht : t ∈ (s.pool.workers w).queue) :
    (∀ b, (t.ptr, b) ∉ marks s.trace) ∧ ∀ w', ¬ s.Executes w' t.ptr := by
  have hqueued : 1 ≤ Q.count t.ptr := by
    refine le_trans ?_ (Multiset.count_le_of_le t.ptr (h.queued.le w))
    exact Multiset.one_le_count_iff_mem.mpr (Multiset.mem_coe.mpr (List.mem_map_of_mem ht))
  have hunique := h.unique hinv t.ptr
  refine ⟨fun b hmem => ?_, fun w' hx => ?_⟩
  · have hpos : 0 < ((marks s.trace).map Prod.fst).count t.ptr :=
      List.count_pos_iff.mpr (List.mem_map_of_mem hmem)
    omega
  · have hexec := h.executing_count hx
    omega

end Unique

/-! ## The events of a task are those of one run

Who executes a task has run its function so far; who has marked it has run it to the end. -/

/-- Task `p` may be woken with `userData`.  A receive task answers its own key only; a send task has
    no key, and answers any data. -/
def Transport.Wakes (s : Transport) (p : ArgPtr) (userData : BitVec 64) : Prop :=
  ∃ src ∈ (s.reqs p.sync).prep.tasks, src.taskArg = p ∧
    (src.hasMatchUserCtx = true → src.matchUserCtx = userData)

/-- The events of every task are those of one run of its function: none before it is taken, those up
    to its worker's place while it runs, and all of them once it is marked. -/
structure Effects (s : Transport) : Prop where
  untouched : ∀ p, (∀ b, (p, b) ∉ marks s.trace) → (∀ w, ¬ s.Executes w p) →
    taskEvents p s.trace = []
  running : ∀ w t r u, (s.pool.workers w).exec = .running t r u → (s.body w).unmarked = true →
    ∃ arg, (s.reqs t.ptr.sync).prep.args[t.ptr.index]? = some arg ∧
      TaskRun t.ptr u arg (taskEvents t.ptr s.trace) (s.body w)
  marked : ∀ p b, (p, b) ∈ marks s.trace →
    ∃ arg u ret, (s.reqs p.sync).prep.args[p.index]? = some arg ∧ s.Wakes p u ∧
      TaskRun p u arg (taskEvents p s.trace) (.mark ret) ∧ b = (ret == 0)

section Effects

variable {s s' : Transport} {Q E : Multiset ArgPtr}

/-- The events of a task in a longer history. -/
theorem taskEvents_append (p : ArgPtr) (t t' : List Event) :
    taskEvents p (t ++ t') = taskEvents p t ++ taskEvents p t' := List.filter_append ..

/-- Events of others are none of its own. -/
theorem taskEvents_none {p : ArgPtr} {events : List Event} (h : ∀ e ∈ events, e.task ≠ some p) :
    taskEvents p events = [] := by
  refine List.filter_eq_nil_iff.mpr fun e he => ?_
  simpa using h e he

/-- Events of its own are all of them. -/
theorem taskEvents_all {p : ArgPtr} {events : List Event} (h : ∀ e ∈ events, e.task = some p) :
    taskEvents p events = events := by
  refine List.filter_eq_self.mpr fun e he => ?_
  simpa using h e he

/-- What is in the pool was built for a task.  The match key of a node is that of the task, so a
    wake-up it answers carries the key. -/
theorem Transport.Built.wakes {t : TaskNode ArgPtr} {r : ReqId} {u : BitVec 64} (h : s.Built t)
    (ha : answersWakeUp r u t = true) : s.Wakes t.ptr u := by
  obtain ⟨src, hsrc, taskId, heq⟩ := h
  refine ⟨src, hsrc, ?_, fun hmatch => ?_⟩
  · rw [heq]
    rfl
  · rw [heq] at ha
    simp only [answersWakeUp, createBatchNode, hmatch, Bool.not_true, Bool.false_or,
      Bool.and_eq_true, beq_iff_eq] at ha
    exact ha.2

/-- A built node points to the arguments its request has for it. -/
theorem Transport.Built.arg {t : TaskNode ArgPtr} (h : s.Built t)
    (hwf : (s.reqs t.ptr.sync).prep.WellFormed t.ptr.sync) :
    ∃ arg, (s.reqs t.ptr.sync).prep.args[t.ptr.index]? = some arg := by
  obtain ⟨src, hsrc, taskId, heq⟩ := h
  have hptr : src.taskArg = t.ptr := by
    rw [heq]
    rfl
  have hmem : t.ptr ∈ (s.reqs t.ptr.sync).prep.tasks.map ThreadPoolTask.taskArg :=
    List.mem_map.mpr ⟨src, hsrc, hptr⟩
  rw [hwf.taskArgs] at hmem
  obtain ⟨i, hi, hptr⟩ := List.mem_map.mp hmem
  have hlt : t.ptr.index < (s.reqs t.ptr.sync).prep.args.length := by
    rw [hwf.args_length, ← hptr]
    exact List.mem_range.mp hi
  exact ⟨_, List.getElem?_eq_getElem hlt⟩

/-! ### Steps that execute nothing

They add no event of any task. -/

/-- A post writes at most its own event. -/
theorem post_posts {q chunk : Nat} {op : UrmaOpcode} {attempt : Option (SendQueue × UrmaJfsWr)}
    {status st : UrmaStatus} {s₁ : Transport} (h : s.post q op chunk attempt status = (s₁, st)) :
    ∃ es, Posts q op chunk attempt es st ∧ s₁.trace = s.trace ++ es := by
  unfold Transport.post at h
  split at h <;> cases h
  · exact ⟨[], ⟨rfl, rfl⟩, (List.append_nil _).symm⟩
  · exact ⟨_, rfl, rfl⟩

/-- An event of no task that marks nothing. -/
def Event.idle (e : Event) : Prop := e.task = none ∧ ∀ q i b, e ≠ .mark q i b

/-- Only workers execute tasks and cause their events.  The events of other steps are the caller's
    first write, prefills and completions. -/
theorem Move.other {a : Action} (hm : Move s a s') (ha : ∀ w ret, a ≠ .worker w ret) :
    (∀ w, (s'.pool.workers w).exec = (s.pool.workers w).exec) ∧ s'.body = s.body ∧
      ∃ events, s'.trace = s.trace ++ events ∧ ∀ e ∈ events, e.idle := by
  have hexec : ∀ w, (s'.pool.workers w).exec = (s.pool.workers w).exec := by
    intro w
    rcases hm.pool with hpool | ⟨pa, hpa, hpool⟩
    · rw [hpool]
    · refine PoolSys.exec_same hpool (fun w' => ⟨?_, fun ret => ?_, ?_⟩) w <;> rintro rfl <;>
        obtain ⟨ret', rfl⟩ := hpa <;> exact ha _ _ rfl
  have hnone : s'.trace = s.trace → ∃ events, s'.trace = s.trace ++ events ∧ ∀ e ∈ events, e.idle :=
    fun h => ⟨[], by rw [h, List.append_nil], by simp⟩
  cases hm with
  | firstWrite hc hinfo hpost =>
    obtain ⟨es, hposts, htrace⟩ := post_posts hpost
    refine ⟨hexec, (post_same hpost).2.2.1, es, htrace, fun e he => ?_⟩
    obtain ⟨queue, wr, rfl⟩ := hposts.task e he
    exact ⟨rfl, by simp⟩
  | prefill hc hinfo hinit | prefillFailed hc hinfo hinit =>
    refine ⟨hexec, rfl, _, rfl, fun e he => ?_⟩
    obtain ⟨status, rfl⟩ := prefill_recvPost hinit e he
    exact ⟨rfl, by simp⟩
  | ignored hidle hcr hev | completion hidle hcr hpool hev =>
    refine ⟨hexec, rfl, _, rfl, fun e he => ?_⟩
    obtain ⟨reposts, rfl, hre⟩ := hev
    rcases List.mem_cons.mp he with rfl | he
    · exact ⟨rfl, by simp⟩
    · obtain ⟨jetty, status, rfl⟩ := hre e he
      exact ⟨rfl, by simp⟩
  | pop | notify | write | callback | noCallback | status | mark | workerFree | finish | account =>
    exact absurd rfl (ha _ _)
  | _ => exact ⟨hexec, rfl, hnone rfl⟩

/-- The history only grows. -/
theorem Move.trace_append {a : Action} (hm : Move s a s') :
    ∃ events, s'.trace = s.trace ++ events := by
  by_cases ha : ∀ w ret, a ≠ .worker w ret
  · obtain ⟨-, -, events, htrace, -⟩ := hm.other ha
    exact ⟨events, htrace⟩
  cases hm with
  | notify _ _ _ hpost | write _ _ _ hpost =>
    obtain ⟨es, -, htrace⟩ := post_posts hpost
    exact ⟨es, htrace⟩
  | callback | mark => exact ⟨_, rfl⟩
  | refuse | submit | pop | noCallback | status | workerFree | finish | account =>
    exact ⟨[], (List.append_nil _).symm⟩
  | _ => exact absurd (by simp) ha

/-- A worker leaves what the others execute, and where they are in it.  Each worker has its own
    place in a body. -/
theorem Move.elsewhere {w w' : Nat} {ret : Int} (hm : Move s (.worker w ret) s') (hw : w' ≠ w) :
    (s'.pool.workers w').exec = (s.pool.workers w').exec ∧ s'.body w' = s.body w' := by
  generalize ha : Action.worker w ret = a at hm
  cases hm with
  | pop hexec hpool =>
    cases ha
    exact ⟨PoolSys.exec_of_ne hpool (.inl rfl) hw, Function.update_of_ne hw ..⟩
  | notify _ _ _ hpost | write _ _ _ hpost =>
    cases ha
    obtain ⟨hpool, -, hbody, -⟩ := post_same hpost
    refine ⟨?_, (Function.update_of_ne hw ..).trans (congrFun hbody w')⟩
    exact congrArg (fun p : PoolSys Proc ArgPtr => (p.workers w').exec) hpool
  | callback | noCallback | status | mark | workerFree =>
    cases ha
    exact ⟨rfl, Function.update_of_ne hw ..⟩
  | finish hexec hbody hpool =>
    cases ha
    exact ⟨PoolSys.exec_of_ne hpool (.inr (.inl ⟨_, rfl⟩)) hw, rfl⟩
  | account hexec hpool =>
    cases ha
    exact ⟨PoolSys.exec_of_ne hpool (.inr (.inr rfl)) hw, rfl⟩
  | refuse hcall | submit hcall =>
    have hmade := hcall.madeBy
    rw [← ha] at hmade
    cases hmade
  | _ => cases ha

/-- A request that has tasks keeps them.  What a call prepares is written once, when the request is
    made. -/
def KeepsMade (s s' : Transport) : Prop :=
  ∀ q, (s.reqs q).prep.tasks ≠ [] → (s'.reqs q).prep = (s.reqs q).prep

/-- What wakes a task wakes it from then on. -/
theorem Transport.Wakes.keep {p : ArgPtr} {u : BitVec 64} (h : s.Wakes p u) (hk : KeepsMade s s') :
    s'.Wakes p u := by
  obtain ⟨src, hsrc, hrest⟩ := h
  exact ⟨src, by rwa [hk p.sync (List.ne_nil_of_mem hsrc)], hrest⟩

/-- Steps outside the task functions.  A worker either stays where it is in its task or executes
    none before and after. -/
theorem Effects.frame (h : Effects s) (hn : Nodes s) (hk : KeepsMade s s')
    (hsame : ∀ w, ((s'.pool.workers w).exec = (s.pool.workers w).exec ∧ s'.body w = s.body w) ∨
      ((∀ p, ¬ s.Executes w p) ∧ ∀ p, ¬ s'.Executes w p))
    (htrace : ∃ events, s'.trace = s.trace ++ events ∧ ∀ e ∈ events, e.idle) : Effects s' := by
  obtain ⟨events, htrace, hidle⟩ := htrace
  have hmarks : marks s'.trace = marks s.trace := by
    rw [htrace]
    exact marks_emit fun e he => (hidle e he).2
  have hevents : ∀ p, taskEvents p s'.trace = taskEvents p s.trace := by
    intro p
    have hnone : taskEvents p events = [] :=
      taskEvents_none fun e he => by rw [(hidle e he).1]; simp
    rw [htrace, taskEvents_append, hnone, List.append_nil]
  refine ⟨fun p hmark hexec => ?_, fun w t r u hexec hb => ?_, fun p b hmem => ?_⟩
  · rw [hmarks] at hmark
    rw [hevents]
    refine h.untouched p hmark fun w hx => ?_
    rcases hsame w with ⟨he, hb⟩ | ⟨hno, -⟩
    · refine hexec w ?_
      unfold Transport.Executes at hx ⊢
      rwa [he, hb]
    · exact hno p hx
  · rcases hsame w with ⟨he, hb'⟩ | ⟨-, hno⟩
    · rw [he] at hexec
      rw [hb'] at hb ⊢
      obtain ⟨arg, harg, hrun⟩ := h.running w t r u hexec hb
      rw [hevents, hk t.ptr.sync (hn.running w t r u hexec).1.made]
      exact ⟨arg, harg, hrun⟩
    · exact absurd ⟨t, r, u, hexec, rfl, hb⟩ (hno t.ptr)
  · rw [hmarks] at hmem
    obtain ⟨arg, u, ret, harg, hwakes, hrun, hret⟩ := h.marked p b hmem
    have hmade : (s.reqs p.sync).prep.tasks ≠ [] := by
      obtain ⟨src, hsrc, -⟩ := hwakes
      exact List.ne_nil_of_mem hsrc
    refine ⟨arg, u, ret, by rwa [hk _ hmade], hwakes.keep hk, ?_, hret⟩
    rwa [hevents]

/-! ### Steps of a worker inside a task

One place further in the body; the events are those of its own task. -/

/-- Worker `w` goes on with task `t`, and causes events of `t` at most.  The pool and what the calls
    have prepared stay as they are, so all frames follow from it. -/
structure Continues (s : Transport) (w : Nat) (t : TaskNode ArgPtr) (es : List Event) (b : Body)
    (s' : Transport) : Prop where
  pool : s'.pool = s.pool
  prep : ∀ q, (s'.reqs q).prep = (s.reqs q).prep
  body : s'.body = Function.update s.body w b
  trace : s'.trace = s.trace ++ es
  events : ∀ e ∈ es, e.task = some t.ptr

/-- A step of a task function makes no request. -/
theorem Continues.keeps {w : Nat} {t : TaskNode ArgPtr} {es : List Event} {b : Body}
    (h : Continues s w t es b s') : KeepsMade s s' := fun q _ => h.prep q

/-- Short of its mark it marks nothing. -/
theorem Continues.marks {w : Nat} {t : TaskNode ArgPtr} {es : List Event} {b : Body}
    (h : Continues s w t es b s') : marks s'.trace = marks s.trace := by
  rw [h.trace]
  refine marks_emit fun e he q i b heq => ?_
  have htask := h.events e he
  rw [heq] at htask
  cases htask

/-- It goes on executing, and so do the others. -/
theorem Continues.executes {w : Nat} {t : TaskNode ArgPtr} {r : ReqId} {u : BitVec 64}
    {es : List Event} {b : Body} (h : Continues s w t es b s') (hb : (s.body w).unmarked = true)
    (hb' : b.unmarked = true) (hexec : (s.pool.workers w).exec = .running t r u) (w' : Nat)
    (p : ArgPtr) : s'.Executes w' p ↔ s.Executes w' p := by
  unfold Transport.Executes
  rw [h.pool, h.body]
  by_cases hw : w' = w
  · subst hw
    rw [Function.update_self, hb, hb']
  · rw [Function.update_of_ne hw]

/-- A step of a task function, short of its mark.  The run is longer by the events of the step, and
    no other task sees it. -/
theorem Effects.continues (h : Effects s) (hL : Ledger s Q E)
    (hinv : ∀ q, RequestInv q (s.view q)) {w : Nat} {t : TaskNode ArgPtr} {r : ReqId}
    {u : BitVec 64} {es : List Event} {b : Body} (hc : Continues s w t es b s')
    (hexec : (s.pool.workers w).exec = .running t r u) (hb : (s.body w).unmarked = true)
    (hb' : b.unmarked = true)
    (hrun : ∀ arg old, (s.reqs t.ptr.sync).prep.args[t.ptr.index]? = some arg →
      TaskRun t.ptr u arg old (s.body w) → TaskRun t.ptr u arg (old ++ es) b) : Effects s' := by
  have hx : s.Executes w t.ptr := ⟨t, r, u, hexec, rfl, hb⟩
  have hother : ∀ p, p ≠ t.ptr → taskEvents p s'.trace = taskEvents p s.trace := by
    intro p hp
    have hnone : taskEvents p es = [] := by
      refine taskEvents_none fun e he heq => hp ?_
      rw [hc.events e he] at heq
      exact (Option.some.inj heq).symm
    rw [hc.trace, taskEvents_append, hnone, List.append_nil]
  refine ⟨fun p hmark hidle => ?_, fun w' t' r' u' hexec' hb'' => ?_, fun p b' hmem => ?_⟩
  · rw [hc.marks] at hmark
    have hidle' : ∀ w', ¬ s.Executes w' p := fun w' hx' =>
      hidle w' ((hc.executes hb hb' hexec w' p).mpr hx')
    rw [hother p fun hp => hidle' w (hp ▸ hx)]
    exact h.untouched p hmark hidle'
  · rw [hc.pool] at hexec'
    by_cases hw : w' = w
    · subst hw
      rw [hexec] at hexec'
      cases hexec'
      obtain ⟨arg, harg, hold⟩ := h.running w' t r u hexec hb
      refine ⟨arg, by rwa [hc.prep], ?_⟩
      have hbody : s'.body w' = b := by
        rw [hc.body, Function.update_self]
      rw [hbody, hc.trace, taskEvents_append, taskEvents_all hc.events]
      exact hrun arg _ harg hold
    · have hbody : s'.body w' = s.body w' := by
        rw [hc.body, Function.update_of_ne hw]
      rw [hbody] at hb'' ⊢
      -- the other worker executes another task
      have hne : t'.ptr ≠ t.ptr := fun heq =>
        hw (hL.one_worker hinv ⟨t', r', u', hexec', heq, hb''⟩ hx)
      rw [hc.prep, hother _ hne]
      exact h.running w' t' r' u' hexec' hb''
  · rw [hc.marks] at hmem
    obtain ⟨arg, u', ret, harg, hwakes, hold, hret⟩ := h.marked p b' hmem
    have hne : p ≠ t.ptr := fun heq => hL.not_marked hinv hx b' (heq ▸ hmem)
    exact ⟨arg, u', ret, by rwa [hc.prep], hwakes.keep hc.keeps, by rwa [hother p hne], hret⟩

/-- A post made for task `t`. -/
theorem continues_post {w chunk : Nat} {t : TaskNode ArgPtr} {op : UrmaOpcode}
    {attempt : Option (SendQueue × UrmaJfsWr)} {status st : UrmaStatus} {s₁ : Transport} {b : Body}
    (h : s.post t.ptr.sync op chunk attempt status = (s₁, st))
    (htask : ∀ queue wr, (Event.post t.ptr.sync op chunk queue wr st).task = some t.ptr) :
    ∃ es, Posts t.ptr.sync op chunk attempt es st ∧ Continues s w t es b (s₁.setBody w b) := by
  obtain ⟨es, hposts, htrace⟩ := post_posts h
  obtain ⟨hpool, hreqs, hbody, -, -⟩ := post_same h
  refine ⟨es, hposts, hpool, fun q => congrArg (fun f => (f q).prep) hreqs, ?_, htrace, ?_⟩
  · show Function.update s₁.body w b = _
    rw [hbody]
  · intro e he
    obtain ⟨queue, wr, rfl⟩ := hposts.task e he
    exact htask queue wr

/-- The worker marks its task.  The run has come to its end, and what it returned is what the mark
    says. -/
theorem Effects.mark (h : Effects s) (hn : Nodes s) {w : Nat} {t : TaskNode ArgPtr} {r : ReqId}
    {u : BitVec 64} {ret : Int} {b : Body} (hexec : (s.pool.workers w).exec = .running t r u)
    (hbody : s.body w = .mark ret) (hb : b.unmarked = false) (hpool : s'.pool = s.pool)
    (hprep : ∀ q, (s'.reqs q).prep = (s.reqs q).prep) (hbody' : s'.body = Function.update s.body w b)
    (htrace : s'.trace = s.trace ++ [.mark t.ptr.sync t.ptr.index (ret == 0)]) : Effects s' := by
  have hun : (s.body w).unmarked = true := by
    rw [hbody]
    rfl
  have hmarks : marks s'.trace = marks s.trace ++ [(t.ptr, ret == 0)] := by
    rw [htrace, marks_append]
    rfl
  have hevents : ∀ p, taskEvents p s'.trace = taskEvents p s.trace := by
    intro p
    rw [htrace, taskEvents_append]
    exact List.append_nil _
  have hk : KeepsMade s s' := fun q _ => hprep q
  have hback : ∀ w' p, s'.Executes w' p → w' ≠ w ∧ s.Executes w' p := by
    rintro w' p ⟨t', r', u', he, hp, hu⟩
    rw [hpool] at he
    rw [hbody'] at hu
    by_cases hw : w' = w
    · subst hw
      rw [Function.update_self, hb] at hu
      cases hu
    · rw [Function.update_of_ne hw] at hu
      exact ⟨hw, t', r', u', he, hp, hu⟩
  refine ⟨fun p hmark hidle => ?_, fun w' t' r' u' hexec' hu => ?_, fun p b' hmem => ?_⟩
  · rw [hmarks] at hmark
    rw [hevents]
    have hne : p ≠ t.ptr := by
      rintro rfl
      exact hmark (ret == 0) (List.mem_append_right _ (List.mem_singleton_self _))
    refine h.untouched p (fun b' hmem => hmark b' (List.mem_append_left _ hmem)) ?_
    rintro w' ⟨t', r', u', he, hp, hu⟩
    by_cases hw : w' = w
    · subst hw
      rw [hexec] at he
      cases he
      exact hne hp.symm
    · refine hidle w' ⟨t', r', u', by rwa [hpool], hp, ?_⟩
      rwa [hbody', Function.update_of_ne hw]
  · obtain ⟨hw, t'', r'', u'', he, -, -⟩ := hback w' t'.ptr ⟨t', r', u', hexec', rfl, hu⟩
    rw [hpool] at hexec'
    have hbody'' : s'.body w' = s.body w' := by
      rw [hbody', Function.update_of_ne hw]
    rw [hbody''] at hu ⊢
    rw [hprep, hevents]
    exact h.running w' t' r' u' hexec' hu
  · rw [hmarks] at hmem
    rcases List.mem_append.mp hmem with hold | hnew
    · obtain ⟨arg, u', ret', harg, hwakes, hrun, hret⟩ := h.marked p b' hold
      exact ⟨arg, u', ret', by rwa [hprep], hwakes.keep hk, by rwa [hevents], hret⟩
    · obtain ⟨rfl, rfl⟩ := Prod.mk.inj (List.mem_singleton.mp hnew)
      obtain ⟨arg, harg, hrun⟩ := h.running w t r u hexec hun
      obtain ⟨hbuilt, hanswers⟩ := hn.running w t r u hexec
      rw [hbody] at hrun
      exact ⟨arg, u, ret, by rwa [hprep], (hbuilt.wakes hanswers).keep hk, by rwa [hevents], rfl⟩

/-- A worker that executes nothing before or after its step. -/
theorem Effects.settle (h : Effects s) (hn : Nodes s) (hk : KeepsMade s s') {w : Nat}
    (hno : ∀ p, ¬ s.Executes w p) (hno' : ∀ p, ¬ s'.Executes w p)
    (hother : ∀ w', w' ≠ w →
      (s'.pool.workers w').exec = (s.pool.workers w').exec ∧ s'.body w' = s.body w')
    (htrace : s'.trace = s.trace) : Effects s' := by
  refine h.frame hn hk (fun w' => ?_) ⟨[], by rw [htrace, List.append_nil], by simp⟩
  by_cases hw : w' = w
  · subst hw
    exact .inr ⟨hno, hno'⟩
  · exact .inl (hother w' hw)

/-- Who has marked his task does not execute it any more. -/
theorem not_executes_of_body {w : Nat} (hb : (s.body w).unmarked = false) (p : ArgPtr) :
    ¬ s.Executes w p := by
  rintro ⟨t, r, u, -, -, hu⟩
  rw [hb] at hu
  cases hu

/-- Nor does who runs none. -/
theorem not_executes_of_exec {w : Nat} (he : ∀ t r u, (s.pool.workers w).exec ≠ .running t r u)
    (p : ArgPtr) : ¬ s.Executes w p := by
  rintro ⟨t, r, u, hexec, -⟩
  exact he t r u hexec

/-- A worker in its loop takes a task, or none.  A task that is taken has no events yet, as it was
    queued. -/
theorem Effects.pop (h : Effects s) (hn : Nodes s) (hL : Ledger s Q E)
    (hinv : ∀ q, RequestInv q (s.view q))
    (hmade : ∀ q, (s.reqs q).prep.tasks ≠ [] → (s.reqs q).prep.WellFormed q) {w : Nat}
    {pool : PoolSys Proc ArgPtr} (hexec : (s.pool.workers w).exec = .loop)
    (hpool : s.pool.step (.pop w) = some pool) : Effects ((s.setPool pool).setBody w .start) := by
  have hidle : ∀ p, ¬ s.Executes w p := not_executes_of_exec (by rw [hexec]; simp)
  have hbody : ∀ w', w' ≠ w → ((s.setPool pool).setBody w .start).body w' = s.body w' :=
    fun w' hw => Function.update_of_ne hw _ _
  have hold : ∀ w', w' ≠ w → (pool.workers w').exec = (s.pool.workers w').exec :=
    fun w' hw => PoolSys.exec_of_ne hpool (.inl rfl) hw
  refine ⟨fun p hmark hno => ?_, fun w' t r u hexec' hu => ?_, fun p b hmem => ?_⟩
  · refine h.untouched p hmark fun w' hx => ?_
    have hw : w' ≠ w := fun hw => hidle p (hw ▸ hx)
    refine hno w' ?_
    obtain ⟨t, r, u, he, hp, hu⟩ := hx
    exact ⟨t, r, u, (hold w' hw).trans he, hp, by rwa [hbody w' hw]⟩
  · by_cases hw : w' = w
    · subst hw
      have hstart : ((s.setPool pool).setBody w' .start).body w' = .start := Function.update_self ..
      rw [hstart]
      rcases PoolSys.exec_effect hpool hexec' with he | ⟨-, hmem, -⟩
      · rw [hexec] at he
        cases he
      · have hbuilt := hn.queued w' t hmem
        obtain ⟨arg, harg⟩ := hbuilt.arg (hmade _ hbuilt.made)
        obtain ⟨hmark, hno⟩ := hL.untouched hinv hmem
        refine ⟨arg, harg, ?_⟩
        show TaskRun t.ptr u arg (taskEvents t.ptr s.trace) .start
        rw [h.untouched t.ptr hmark hno]
        exact .start
    · rw [hbody w' hw] at hu ⊢
      exact h.running w' t r u ((hold w' hw).symm.trans hexec') hu
  · exact h.marked p b hmem

/-- What the first step of a task function writes: the notify of a send, or the callback of a
    receive. -/
theorem Effects.first (h : Effects s) (hL : Ledger s Q E) (hinv : ∀ q, RequestInv q (s.view q))
    {w : Nat} {t : TaskNode ArgPtr} {r : ReqId} {u : BitVec 64} {arg : TaskArg}
    {es : List Event} {b : Body} (hexec : (s.pool.workers w).exec = .running t r u)
    (hbody : s.body w = .start)
    (harg : (s.reqs t.ptr.sync).prep.args[t.ptr.index]? = some arg)
    (hc : Continues s w t es b s') (hb : b.unmarked = true) (hrun : TaskRun t.ptr u arg es b) :
    Effects s' := by
  refine h.continues hL hinv hc hexec (by rw [hbody]; rfl) hb ?_
  intro arg' old harg' hold
  obtain rfl := Option.some.inj (harg.symm.trans harg')
  rw [hbody] at hold
  cases hold
  exact hrun

/-- A send notifies, and is done after that if the notify failed or was for the last chunk. -/
theorem Effects.notify (h : Effects s) (hL : Ledger s Q E) (hinv : ∀ q, RequestInv q (s.view q))
    {w : Nat} {t : TaskNode ArgPtr} {r : ReqId} {u : BitVec 64} {arg : SendTaskArg}
    {s₁ : Transport} {status st : UrmaStatus} (hexec : (s.pool.workers w).exec = .running t r u)
    (hbody : s.body w = .start)
    (harg : (s.reqs t.ptr.sync).prep.args[t.ptr.index]? = some (.send arg))
    (hpost : s.post t.ptr.sync .sendImm t.ptr.index (urmaWriteNotify arg.writeInfo arg.chunkInfo)
      status = (s₁, st)) :
    Effects (s₁.setBody w
      (if st ≠ urmaSuccess ∨ arg.chunkInfo = none then .status st else .write)) := by
  obtain ⟨es, hposts, hc⟩ := continues_post hpost fun _ _ => rfl
  refine h.first hL hinv hexec hbody harg hc (by split <;> rfl) ?_
  split
  · rename_i hst
    exact .announced hposts hst
  · rename_i hst
    obtain ⟨hst, hchunk⟩ := not_or.mp hst
    rw [not_not.mp hst] at hposts
    exact .notified hposts hchunk

/-- Every step of the transport keeps the account of the task's events. -/
theorem Effects.move {a : Action} (h : Effects s) (hn : Nodes s) (hL : Ledger s Q E)
    (hinv : ∀ q, RequestInv q (s.view q))
    (hmade : ∀ q, (s.reqs q).prep.tasks ≠ [] → (s.reqs q).prep.WellFormed q)
    (hk : KeepsMade s s') (hm : Move s a s') : Effects s' := by
  -- only a worker inside a task function adds to the events of a task
  by_cases ha : ∀ w ret, a ≠ .worker w ret
  · obtain ⟨hexec, hbody, htrace⟩ := hm.other ha
    exact h.frame hn hk (fun w => .inl ⟨hexec w, by rw [hbody]⟩) htrace
  have hun : ∀ {w b}, s.body w = b → b.unmarked = true → (s.body w).unmarked = true :=
    fun hb hu => by rw [hb, hu]
  cases hm with
  | pop hexec hpool => exact h.pop hn hL hinv hmade hexec hpool
  | notify hexec hbody harg hpost => exact h.notify hL hinv hexec hbody harg hpost
  | write hexec hbody harg hpost =>
    obtain ⟨es, hposts, hc⟩ := continues_post hpost fun _ _ => rfl
    refine h.continues hL hinv hc hexec (hun hbody rfl) rfl ?_
    intro arg old harg' hrun
    obtain rfl := Option.some.inj (harg.symm.trans harg')
    rw [hbody] at hrun
    exact .written hrun hposts
  | callback hexec hbody harg hcb =>
    refine h.first hL hinv hexec hbody harg ⟨rfl, fun _ => rfl, rfl, rfl, fun e he => ?_⟩ rfl
      (.called hcb)
    rw [List.mem_singleton.mp he]
    rfl
  -- no callback to invoke: the chunk counts as failed, and no event says so
  | noCallback hexec hbody harg hcb =>
    exact h.first hL hinv hexec hbody harg
      ⟨rfl, fun _ => rfl, rfl, (List.append_nil _).symm, by simp⟩ rfl (.uncalled hcb)
  -- the status to record is the one the last post returned
  | @status w ret t r u st hexec hbody =>
    have hc : Continues s w t [] (.mark st) ((s.setReq t.taskArg.userArg.sync
        { s.reqs t.taskArg.userArg.sync with
          sync := (s.reqs t.taskArg.userArg.sync).sync.updateUrmaStatus st }).setBody w (.mark st)) := by
      refine ⟨rfl, fun q => ?_, rfl, (List.append_nil _).symm, by simp⟩
      exact congrArg Prod.fst (setReq_made (s := s) (by rfl) q)
    refine h.continues hL hinv hc hexec (hun hbody rfl) rfl ?_
    intro arg old harg hrun
    rw [hbody] at hrun
    rw [List.append_nil]
    exact .status hrun
  | mark hexec hbody hsync =>
    refine h.mark hn hexec hbody (by split <;> rfl) rfl (fun q => ?_) rfl rfl
    exact congrArg Prod.fst (setReq_made (s := s) (by rfl) q)
  | @workerFree w ret t r u taskRet hexec hbody =>
    refine h.settle (w := w) hn hk (not_executes_of_body (by rw [hbody]; rfl))
      (not_executes_of_body ?_) (fun w' hw => ⟨rfl, Function.update_of_ne hw _ _⟩) rfl
    show (Function.update s.body w (.finish taskRet) w).unmarked = false
    rw [Function.update_self]
    rfl
  | finish hexec hbody hpool =>
    have hun : (s.body _).unmarked = false := congrArg Body.unmarked hbody
    exact h.settle hn hk (not_executes_of_body hun) (not_executes_of_body hun)
      (fun w' hw => ⟨PoolSys.exec_of_ne hpool (.inr (.inl ⟨_, rfl⟩)) hw, rfl⟩) rfl
  | account hexec hpool =>
    refine h.settle hn hk (not_executes_of_exec fun t r u he => ?_)
      (not_executes_of_exec fun t r u he => ?_)
      (fun w' hw => ⟨PoolSys.exec_of_ne hpool (.inr (.inr rfl)) hw, rfl⟩) rfl
    · rw [hexec] at he
      cases he
    · have hloop := PoolSys.account_exec hpool
      exact absurd (hloop.symm.trans he) (by simp)
  | refuse hcall | submit hcall =>
    refine absurd (fun w ret heq => ?_) ha
    have hmade := hcall.madeBy
    rw [heq] at hmade
    cases hmade
  | _ => exact absurd (by simp) ha

/-- What a call has made stays as it is, in every step. -/
theorem keepsMade_step {workerCount : Nat} {capacity : BitVec 32} {ok : Transport → Action → Prop}
    {a : Action} (hr : (transportSystem workerCount capacity).Reach ok s)
    (hs : s.step a = some s') : KeepsMade s s' := by
  intro q hmade
  rcases prep_step hr hs q with ⟨heq, -⟩ | ⟨hfresh, -⟩
  · exact heq
  · exact absurd ((nodes_reach hr).fresh q hfresh) hmade

/-- In every run the events of a task are those of one run of its function. -/
theorem effects_reach {workerCount : Nat} {capacity : BitVec 32} {ok : Transport → Action → Prop}
    (h : (transportSystem workerCount capacity).Reach ok s) : Effects s := by
  refine h.invariant ?_ ?_
  · rintro s rfl
    exact ⟨fun p _ _ => rfl, fun w t r u he => (by cases he), fun p b hmem => by cases hmem⟩
  · intro s a s' hr hI _ hs
    obtain ⟨Q, E, hL⟩ := ledger_reach hr
    exact hI.move (nodes_reach hr) hL (request_inv hr) (fun q => wellFormed_of_made hr)
      (keepsMade_step hr hs) (Transport.move_of_step hs)

end Effects

/-! ## A reported success

A wait answers `0` if all tasks have completed, and a task completes only by its mark of success. -/

section Success

variable {s : Transport} {Q E : Multiset ArgPtr} {q : Nat} {workerCount : Nat}
  {capacity : BitVec 32} {ok : Transport → Action → Prop}

/-- The tasks of a registered request are attached once each. -/
theorem attached_count {i : Nat} (hinv : RequestInv q (s.view q)) (hb : (s.reqs q).bound = true)
    (hi : i < (s.reqs q).prep.tasks.length) : (attachedList s.pool.log).count ⟨q, i⟩ = 1 := by
  obtain ⟨-, hp, -, -, ha⟩ := hinv.stage.of_bound (.inl hb)
  have hfilter : (attachedList s.pool.log).count ⟨q, i⟩ = (s.view q).attached.count ⟨q, i⟩ := by
    show _ = ((attachedList s.pool.log).filter fun x => x.sync == q).count _
    rw [List.count_filter (by simp)]
  have hp' : (s.reqs q).prep.WellFormed q := hp
  rw [hp'.tasks_length] at hi
  rw [hfilter, ha, hp.taskArgs]
  refine List.count_eq_one_of_mem (List.nodup_range.map fun i j hij => ?_) ?_
  · simpa using hij
  · exact List.mem_map.mpr ⟨i, List.mem_range.mpr hi, rfl⟩

/-- When all tasks of a request succeeded, none is left and none was removed. -/
theorem all_succeeded (hL : Ledger s Q E) (hinv : RequestInv q (s.view q))
    (hb : (s.reqs q).bound = true)
    (hall : (s.reqs q).sync.totalTasks ≤ (s.reqs q).sync.completedTasks) :
    Q.countP (·.sync = q) = 0 ∧ E.countP (·.sync = q) = 0 ∧ (s.view q).failed = 0 ∧
      (s.view q).removed = 0 := by
  obtain ⟨-, -, ht, -, ha⟩ := hinv.stage.of_bound (.inl hb)
  have hlen : (s.view q).attached.length = (s.view q).req.sync.totalTasks := by
    rw [ht, ha, List.length_map]
  have hledger := hL.request q
  have hcompleted := hinv.counted.completed
  have hall' : (s.view q).req.sync.totalTasks ≤ (s.view q).req.sync.completedTasks := hall
  omega

/-- A task that is neither queued, executing nor removed has been marked once. -/
theorem marked_once {p : ArgPtr} (hL : Ledger s Q E)
    (hattached : (attachedList s.pool.log).count p = 1) (hQ : Q.countP (·.sync = p.sync) = 0)
    (hE : E.countP (·.sync = p.sync) = 0) (hremoved : (s.view p.sync).removed = 0) :
    ((marks s.trace).map Prod.fst).count p = 1 := by
  have hbalance := congrArg (Multiset.count p) hL.balance
  simp only [Multiset.count_add, Multiset.coe_count] at hbalance
  have hzero : ∀ {B : Multiset ArgPtr}, B.countP (·.sync = p.sync) = 0 → B.count p = 0 := by
    intro B hB
    rw [Multiset.count_eq_zero]
    intro hmem
    exact Multiset.countP_eq_zero.mp hB p hmem rfl
  have hnone : ((removals s.pool.log).map Prod.snd).count p = 0 := by
    rw [List.count_eq_zero]
    intro hmem
    obtain ⟨x, hx, hxp⟩ := List.mem_map.mp hmem
    refine List.countP_eq_zero.mp hremoved x hx ?_
    rw [hxp]
    exact beq_self_eq_true _
  have hq := hzero hQ
  have he := hzero hE
  omega

/-- When a wait has returned `0`, every task was marked once, a success. -/
theorem marked_of_ok (h : (transportSystem workerCount capacity).Reach ok s) {st : UrmaStatus}
    (howner : (s.reqs q).owner = .returned (.waited .ok st)) {i : Nat}
    (hi : i < (s.reqs q).prep.tasks.length) :
    (marks s.trace).filter (fun x => x.1 == ⟨q, i⟩) = [(⟨q, i⟩, true)] := by
  obtain ⟨Q, E, hL⟩ := ledger_reach h
  have hinv := request_inv h q
  have howner' : (s.view q).req.owner = .returned (.waited .ok st) := howner
  obtain ⟨hh, -⟩ := hinv.owned.active_of howner' (by simp)
  obtain ⟨-, -, -, hb, -⟩ := hinv.stage.of_bound (.inr (.inl hh))
  obtain ⟨hok, -, -⟩ := hinv.owned.stage.of_released (.inr howner')
  obtain ⟨hQ, hE, hfailed, hremoved⟩ := all_succeeded hL hinv hb (hok st rfl).1
  have honce := marked_once hL (attached_count hinv hb hi) hQ hE hremoved
  have hsuccess : ∀ x ∈ (marks s.trace).filter (fun x => x.1 == ⟨q, i⟩), x = (⟨q, i⟩, true) := by
    rintro ⟨p, b⟩ hx
    obtain ⟨hmem, hpi⟩ := List.mem_filter.mp hx
    obtain rfl : p = ⟨q, i⟩ := by simpa using hpi
    cases b with
    | true => rfl
    | false => exact absurd (by simp) (List.countP_eq_zero.mp hfailed _ hmem)
  have hlen : ((marks s.trace).filter fun x => x.1 == ⟨q, i⟩).length = 1 := by
    rw [← honce, List.count, List.countP_map, List.countP_eq_length_filter]
    rfl
  obtain ⟨x, hx⟩ := List.length_eq_one_iff.mp hlen
  rw [hx, hsuccess x (by rw [hx]; exact List.mem_singleton_self x)]

/-- A task that was marked a success has done all it had to do. -/
theorem accomplished_of_mark (h : (transportSystem workerCount capacity).Reach ok s) {p : ArgPtr}
    (hmark : (p, true) ∈ marks s.trace) :
    ∃ arg, (s.reqs p.sync).prep.args[p.index]? = some arg ∧ Accomplished p arg (taskEvents p s.trace) := by
  obtain ⟨arg, u, ret, harg, -, hrun, hret⟩ := (effects_reach h).marked _ true hmark
  obtain rfl : ret = 0 := beq_iff_eq.mp hret.symm
  exact ⟨arg, harg, hrun.accomplished⟩

/-- **A reported success is real.**  When `wait_and_free_sync` or `wait_and_free_sync_timeout` has
    returned `0` for request `q`: `*urma_status` is a success, no task of the request was removed by
    a cancel, and every task ran exactly once to its end and did all it had to do — its notify
    and its write were posted, or its callback returned `0`. -/
theorem reported_success (h : (transportSystem workerCount capacity).Reach ok s)
    {st : UrmaStatus} (howner : (s.reqs q).owner = .returned (.waited .ok st)) :
    st = urmaSuccess ∧ (∀ c t, .cancelled c t ∈ s.pool.log → t.ptr.sync ≠ q) ∧
    0 < (s.reqs q).prep.tasks.length ∧
    ∀ i, i < (s.reqs q).prep.tasks.length →
      (marks s.trace).filter (fun x => x.1 == ⟨q, i⟩) = [(⟨q, i⟩, true)] ∧
      ∃ arg, (s.reqs q).prep.args[i]? = some arg ∧
        Accomplished ⟨q, i⟩ arg (taskEvents ⟨q, i⟩ s.trace) := by
  obtain ⟨Q, E, hL⟩ := ledger_reach h
  have hinv := request_inv h q
  have howner' : (s.view q).req.owner = .returned (.waited .ok st) := howner
  obtain ⟨hh, -⟩ := hinv.owned.active_of howner' (by simp)
  obtain ⟨-, hp, -, hb, -⟩ := hinv.stage.of_bound (.inr (.inl hh))
  obtain ⟨hok, -, -⟩ := hinv.owned.stage.of_released (.inr howner')
  obtain ⟨hall, hst⟩ := hok st rfl
  obtain ⟨hQ, hE, hfailed, hremoved⟩ := all_succeeded hL hinv hb hall
  refine ⟨hst, fun c t ht hq => ?_, ?_, fun i hi => ?_⟩
  · have hmem : (c, t.ptr) ∈ removals s.pool.log := List.mem_filterMap.mpr ⟨_, ht, rfl⟩
    exact List.countP_eq_zero.mp hremoved _ hmem (beq_iff_eq.mpr hq)
  · have hlen : (s.reqs q).prep.tasks.length = (s.reqs q).prep.chunks.length := hp.tasks_length
    rw [hlen]
    exact hp.chunks_pos
  · have hfilter := marked_of_ok h howner hi
    have hmem : ((⟨q, i⟩ : ArgPtr), true) ∈ marks s.trace := by
      refine (List.mem_filter (p := fun x => x.1 == (⟨q, i⟩ : ArgPtr)).mp ?_).1
      rw [hfilter]
      exact List.mem_singleton_self _
    exact ⟨hfilter, accomplished_of_mark h hmem⟩

end Success

/-- One chunk, received and waited for: the callback was invoked for it and returned `0`. -/
theorem reported_success_one_chunk : ∃ s, (transportSystem 1 1#32).Reach (fun _ _ => True) s ∧
    ∃ arg, (s.reqs 0).prep.args[0]? = some arg ∧
      Accomplished ⟨0, 0⟩ arg (taskEvents ⟨0, 0⟩ s.trace) := by
  obtain ⟨s, hr, hP⟩ := transportSystem_run 1 1#32 (registerOne ++ executeOne 0 ++ waitOne 3)
    receivedOne (by decide +kernel)
  simp only [receivedOne, Bool.and_eq_true, beq_iff_eq] at hP
  obtain ⟨⟨⟨-, howner⟩, -⟩, -⟩ := hP
  obtain ⟨-, -, hpos, htasks⟩ := reported_success hr howner
  exact ⟨s, hr, (htasks 0 hpos).2⟩

end OsTransport
