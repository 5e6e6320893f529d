/-
  Which completions execute which tasks.

  Send and receive tasks share one table, one list of wake-ups and one matching rule, and the
  64 bits of a receive completion are chosen by the peer.  What the pool does keep apart is the
  request id: a wake-up carries the id and the data of the record it was made from, nothing else
  makes a wake-up (`HasWakeUp.step`), and a worker takes a task only on a wake-up with the id of the
  task.  So a record executes tasks of the id it names and no others (`direction_isolation`).

  A send task has no match key, so the id is all that is compared: an immediate that decodes to the
  `server_key` of a send in progress executes its next task (`peer_immediate_announces`).

  Both halves are proved on the transport, for every run:

  1. `woken_reach`: behind each wake-up of the pool there is a completion that was handled and
     decodes to its id (`UrmaCr.Wakes`).  A wake-up enters the pool by the thread that handles the
     completion and is not changed afterwards;
  2. `Move.causes`: what is posted is posted by the caller of a send for its first chunk, or by a
     worker in a send task;
  3. `tagged_reach`: what a send posts carries its own id, so the local completion of a post
     decodes to the id of its request (`requestId_of_posted`).

  `direction_isolation` is 1 and 2 at the step in which a task is taken.
-/
import OsTransport.Effects
import OsTransport.PoolBooks

namespace OsTransport

open Transition

/-! ## Wake-ups of the pool

A wake-up is in the hands of the thread that makes it, pending, or served. -/

section Pool

variable {κ α : Type*} [DecidableEq κ] {s s' : PoolSys κ α} {r : ReqId} {u : BitVec 64}

/-- A wake-up with this id and these data is on its way to a worker, pending there, or being
    served. -/
inductive PoolSys.HasWakeUp (s : PoolSys κ α) (r : ReqId) (u : BitVec 64) : Prop
  | waking {c : κ} {w : Nat} (h : s.calls c = .waking r u w)
  | pending {w : Nat} {p : PendingReqNode} (h : p ∈ (s.workers w).pending)
      (hr : p.requestId = r) (hu : p.userData = u)
  | running {w : Nat} {t : TaskNode α} (h : (s.workers w).exec = .running t r u)

/-- A call is a wake-up only if it was called as one. -/
theorem waking_effect {pa : PoolAction κ α} {c : κ} {w : Nat} (h : s.step pa = some s')
    (hc : s'.calls c = .waking r u w) : s.calls c = .waking r u w ∨ pa = .wake c r u := by
  by_cases hproc : pa.proc = some c
  · cases pa with
    | submit c' sub al =>
      obtain rfl : c' = c := Option.some.inj hproc
      rw [(PoolSys.submit_calls h).2] at hc
      unfold beginSubmission at hc
      split at hc
      · cases hc
      · split at hc <;> cases hc
    | wake c' r' u' =>
      obtain rfl : c' = c := Option.some.inj hproc
      obtain ⟨-, hcall | ⟨_, hcall⟩⟩ := PoolSys.wake_calls h <;> rw [hcall] at hc <;> cases hc
      exact .inr rfl
    | cancel c' r' =>
      obtain rfl : c' = c := Option.some.inj hproc
      obtain ⟨-, hcall | hcall | ⟨_, hcall⟩⟩ := PoolSys.cancel_calls h <;> rw [hcall] at hc <;> cases hc
    | collect c' =>
      obtain rfl : c' = c := Option.some.inj hproc
      rw [(PoolSys.collect_calls h).2] at hc
      cases hc
    | advance c' al =>
      obtain rfl : c' = c := Option.some.inj hproc
      have hself : ∀ {s₁ : PoolSys κ α} {pc : Call α}, (s₁.setCall c' pc).calls c' = pc :=
        Function.update_self ..
      cases advances_of_advance h <;> rw [hself] at hc
      case select =>
        unfold selectedWorker at hc
        split at hc <;> cases hc
      case build todo _ =>
        unfold builtNode at hc
        split at hc
        · split at hc <;> cases hc
        · cases hc
      case remove => split at hc <;> cases hc
      all_goals cases hc
    | pop | finish | account => cases hproc
  · rw [PoolSys.step_calls_of_ne h hproc] at hc
    exact .inl hc

omit [DecidableEq κ] in
/-- A step that edits one worker and makes none of its wake-ups itself. -/
theorem PoolSys.HasWakeUp.worker {w : Nat} {wk : WorkerThread α} (h : s'.HasWakeUp r u)
    (hcalls : ∀ c w', s'.calls c = .waking r u w' → s.HasWakeUp r u)
    (hworkers : s'.workers = Function.update s.workers w wk)
    (hpending : ∀ p ∈ wk.pending, s.HasWakeUp p.requestId p.userData)
    (hexec : ∀ t, wk.exec = .running t r u → s.HasWakeUp r u) : s.HasWakeUp r u := by
  have hother : ∀ w', w' ≠ w → s'.workers w' = s.workers w' := by
    intro w' hw
    rw [hworkers, Function.update_of_ne hw]
  have hself : s'.workers w = wk := by rw [hworkers, Function.update_self]
  cases h with
  | waking hc => exact hcalls _ _ hc
  | @pending w' p hp hr hu =>
    by_cases hw : w' = w
    · rw [hw, hself] at hp
      subst hr hu
      exact hpending p hp
    · rw [hother w' hw] at hp
      exact .pending hp hr hu
  | @running w' t hrun =>
    by_cases hw : w' = w
    · rw [hw, hself] at hrun
      exact hexec t hrun
    · rw [hother w' hw] at hrun
      exact .running hrun

/-- Only `thread_pool_wake_up_worker_by_req_id` makes wake-ups. -/
theorem PoolSys.HasWakeUp.step {pa : PoolAction κ α} (hs : s.step pa = some s') (h : s'.HasWakeUp r u) :
    s.HasWakeUp r u ∨ ∃ c, pa = .wake c r u := by
  by_cases hnew : ∃ c, pa = .wake c r u
  · exact .inr hnew
  left
  have hcalls : ∀ c w, s'.calls c = .waking r u w → s.HasWakeUp r u := by
    intro c w hc
    rcases waking_effect hs hc with hc | rfl
    · exact .waking hc
    · exact absurd ⟨c, rfl⟩ hnew
  -- whatever a worker has pending or runs afterwards, it had pending before
  have hown : ∀ w, ∀ p ∈ (s.workers w).pending, s.HasWakeUp p.requestId p.userData :=
    fun w p hp => .pending hp rfl rfl
  have hsame : s'.workers = s.workers → s.HasWakeUp r u := by
    intro hworkers
    refine h.worker (w := 0) hcalls ?_ (hown 0) fun t ht => .running ht
    rw [hworkers, Function.update_eq_self]
  have hquiet : PoolSys.Unchanged s s' → s.HasWakeUp r u := fun hu => hsame hu.workers
  cases pa with
  | submit c sub alloc => exact hquiet (PoolSys.unchanged_submit hs)
  | wake c r u => exact hquiet (PoolSys.unchanged_wake hs)
  | cancel c r => exact hquiet (PoolSys.unchanged_cancel hs)
  | collect c => exact hquiet (PoolSys.unchanged_collect hs)
  | advance c alloc =>
    cases advances_of_advance hs with
    | scan | select | build | nodeFail | refuse | record | drop | uncount => exact hsame rfl
    | @attach sub w nodes hc => exact h.worker hcalls rfl (hown w) fun t ht => .running ht
    | @push r' u' w hc =>
      refine h.worker hcalls rfl ?_ fun t ht => .running ht
      intro p hp
      rcases List.mem_append.mp hp with hp | hp
      · exact hown w p hp
      · obtain rfl := List.mem_singleton.mp hp
        exact .waking hc
    | @remove r' w hc =>
      refine h.worker hcalls rfl ?_ fun t ht => .running ht
      intro p hp
      exact hown w p (List.mem_filter.mp hp).1
  | pop w =>
    obtain ⟨-, -, ⟨-, rfl⟩ | ⟨p, pending, task, queue, hpend, hpop, rfl⟩ | ⟨p, pending, hpend, -, rfl⟩⟩ :=
      pop_cases hs
    · exact h.worker hcalls rfl (hown w) fun t ht => .running ht
    · refine h.worker hcalls rfl ?_ ?_
      · intro p' hp'
        refine hown w p' ?_
        rw [hpend]
        exact List.mem_cons_of_mem _ hp'
      · intro t ht
        cases ht
        refine hown w p ?_
        rw [hpend]
        exact List.mem_cons_self
    · refine h.worker hcalls rfl ?_ fun t ht => .running ht
      intro p' hp'
      refine hown w p' ?_
      rw [hpend]
      exact List.mem_cons_of_mem _ hp'
  | finish w ret =>
    simp only [PoolSys.step, PoolSys.finish] at hs
    split at hs <;> cases hs
    exact h.worker hcalls rfl (hown w) fun t ht => by cases ht
  | account w =>
    simp only [PoolSys.step, PoolSys.account] at hs
    split at hs <;> cases hs
    exact h.worker hcalls rfl (hown w) fun t ht => by cases ht

end Pool

/-! ## The completions behind the wake-ups

Every wake-up was made from a completion record that the node has handled. -/

section Transport

variable {s s' : Transport} {workerCount : Nat} {capacity : BitVec 32}
  {ok : Transport → Action → Prop}

/-- A wake-up for `r` with the data `u` is what `os_transport_wake_up_task` makes of `cr`. -/
def UrmaCr.Wakes (cr : UrmaCr) (r : ReqId) (u : BitVec 64) : Prop :=
  ∃ tag, Transport.wakeUpUserData cr = some tag ∧ r = tag.requestId.setWidth 64 ∧ u = tag.userCtx

/-- Worker `w` is inside the function of task `t`, on a wake-up that is what `cr` makes. -/
def Transport.ExecutesOn (s : Transport) (w : Nat) (t : TaskNode ArgPtr) (cr : UrmaCr) : Prop :=
  ∃ r u, (s.pool.workers w).exec = .running t r u ∧ cr.Wakes r u

theorem handled_of_move {k : Nat} {cr : UrmaCr} {status : UrmaStatus}
    (hm : Move s (.completion k cr status) s') : .completion cr ∈ s'.trace := by
  cases hm with
  | refuse ha | submit ha => cases ha.madeBy
  | ignored _ _ hev | completion _ _ _ hev =>
    obtain ⟨reposts, rfl, -⟩ := hev
    exact List.mem_append_right _ List.mem_cons_self

/-- Every wake-up in the pool was made from a completion that was handled. -/
theorem woken_reach (h : (transportSystem workerCount capacity).Reach ok s) :
    ∀ r u, s.pool.HasWakeUp r u → ∃ cr, .completion cr ∈ s.trace ∧ cr.Wakes r u := by
  refine h.invariant (I := fun s => ∀ r u, s.pool.HasWakeUp r u →
    ∃ cr, .completion cr ∈ s.trace ∧ cr.Wakes r u) ?_ ?_
  · rintro s rfl r u hw
    cases hw with
    | waking hc | running hc => cases hc
    | pending hp => cases hp
  · intro s a s' _ hI _ hs r u hw
    have hm := Transport.move_of_step hs
    obtain ⟨events, htrace⟩ := hm.trace_append
    have hold : s.pool.HasWakeUp r u → ∃ cr, .completion cr ∈ s'.trace ∧ cr.Wakes r u := by
      intro hw
      obtain ⟨cr, hcr, hwakes⟩ := hI r u hw
      exact ⟨cr, by rw [htrace]; exact List.mem_append_left _ hcr, hwakes⟩
    rcases hm.pool with heq | ⟨pa, hpa, hpool⟩
    · exact hold (heq ▸ hw)
    · rcases PoolSys.HasWakeUp.step hpool hw with hw | ⟨c, rfl⟩
      · exact hold hw
      · obtain ⟨k, cr, status, tag, -, rfl, hcr, hr, hu⟩ := hpa
        refine ⟨cr, ?_, tag, hcr, hr, hu⟩
        exact handled_of_move hm

/-! ## Who posts, and what

Posts and callbacks have a cause: a call of the API, or a task in execution. -/

/-- A send-side work request, or a call of the notify callback. -/
def Event.outgoing : Event → Bool
  | .post _ _ _ _ _ _ => true
  | .callback _ _ _ _ _ => true
  | _ => false

/-- The step `a` causes the outgoing event: the caller posts the write of chunk 0, a worker inside a
    task what the function of that task posts or calls. -/
inductive Causes (s : Transport) : Action → Event → Prop
  | first {q alloc statuses writeInfo queue wr st} (hc : (s.reqs q).caller = .writing)
      (hinfo : (s.reqs q).prep.urmaInfo = .write writeInfo)
      (hwr : urmaWriteChunk writeInfo (s.reqs q).prep.chunks[0]? = some (queue, wr)) :
      Causes s (.caller q alloc statuses) (.post q .write 0 queue wr st)
  | notify {w ret t r u arg queue wr st} (hexec : (s.pool.workers w).exec = .running t r u)
      (hbody : s.body w = .start)
      (harg : (s.reqs t.ptr.sync).prep.args[t.ptr.index]? = some (.send arg))
      (hwr : urmaWriteNotify arg.writeInfo arg.chunkInfo = some (queue, wr)) :
      Causes s (.worker w ret) (.post t.ptr.sync .sendImm t.ptr.index queue wr st)
  | write {w ret t r u arg queue wr st} (hexec : (s.pool.workers w).exec = .running t r u)
      (hbody : s.body w = .write)
      (harg : (s.reqs t.ptr.sync).prep.args[t.ptr.index]? = some (.send arg))
      (hwr : urmaWriteChunk arg.writeInfo arg.chunkInfo = some (queue, wr)) :
      Causes s (.worker w ret) (.post t.ptr.sync .write (t.ptr.index + 1) queue wr st)
  | callback {w ret t r u arg cb} (hexec : (s.pool.workers w).exec = .running t r u)
      (hbody : s.body w = .start)
      (harg : (s.reqs t.ptr.sync).prep.args[t.ptr.index]? = some (.recv arg))
      (hcb : arg.notifyCallback = some cb) :
      Causes s (.worker w ret)
        (.callback t.ptr.sync t.ptr.index cb (UserData.ofUserCtx u) ret)

/-- A post, if it is not refused before it reaches the library. -/
theorem post_wire {q k : Nat} {op : UrmaOpcode} {attempt : Option (SendQueue × UrmaJfsWr)}
    {status st : UrmaStatus} {s₁ : Transport} (h : s.post q op k attempt status = (s₁, st)) :
    attempt = none ∧ st = urmaFail ∧ s₁ = s ∨
      ∃ queue wr, attempt = some (queue, wr) ∧ s₁.trace = s.trace ++ [.post q op k queue wr st] ∧
        s₁.outstanding = if st = urmaSuccess then s.outstanding ++ [wr.userCtx] else s.outstanding := by
  unfold Transport.post at h
  split at h <;> cases h
  · exact .inl ⟨rfl, rfl, rfl⟩
  · exact .inr ⟨_, _, rfl, rfl, rfl⟩

/-- What a step may add to the history. -/
inductive Adds (s : Transport) (a : Action) : List Event → Prop
  | nothing : Adds s a []
  | caused {e} (h : Causes s a e) : Adds s a [e]
  | marked {q i : Nat} {success : Bool} : Adds s a [.mark q i success]
  | prefilled {events} (h : ∀ e ∈ events, ∃ call jetty status, e = .recvPost call jetty status) :
      Adds s a events
  | handled {k cr status events} (ha : a = .completion k cr status) (h : Handles cr events) :
      Adds s a events

theorem Move.adds {a : Action} (hm : Move s a s') :
    ∃ events, s'.trace = s.trace ++ events ∧ Adds s a events := by
  have hnone : s'.trace = s.trace → ∃ events, s'.trace = s.trace ++ events ∧ Adds s a events :=
    fun h => ⟨[], by rw [h, List.append_nil], .nothing⟩
  cases hm with
  | firstWrite hc hinfo hpost =>
    rcases post_wire hpost with ⟨-, -, rfl⟩ | ⟨queue, wr, hwr, htrace, -⟩
    · exact hnone rfl
    · exact ⟨_, htrace, .caused (.first hc hinfo hwr)⟩
  | notify hexec hbody harg hpost =>
    rcases post_wire hpost with ⟨-, -, rfl⟩ | ⟨queue, wr, hwr, htrace, -⟩
    · exact hnone rfl
    · exact ⟨_, htrace, .caused (.notify hexec hbody harg hwr)⟩
  | write hexec hbody harg hpost =>
    rcases post_wire hpost with ⟨-, -, rfl⟩ | ⟨queue, wr, hwr, htrace, -⟩
    · exact hnone rfl
    · exact ⟨_, htrace, .caused (.write hexec hbody harg hwr)⟩
  | callback hexec hbody harg hcb => exact ⟨_, rfl, .caused (.callback hexec hbody harg hcb)⟩
  | mark => exact ⟨_, rfl, .marked⟩
  | prefill hc hinfo hinit | prefillFailed hc hinfo hinit =>
    refine ⟨_, rfl, .prefilled fun e he => ?_⟩
    obtain ⟨status, rfl⟩ := prefill_recvPost hinit e he
    exact ⟨_, _, _, rfl⟩
  | ignored hidle hcr hev | completion hidle hcr hpool hev => exact ⟨_, rfl, .handled rfl hev⟩
  | _ => exact hnone rfl

/-- Every outgoing event has its cause. -/
theorem Move.causes {a : Action} (hm : Move s a s') {e : Event} (he : e ∈ s'.trace)
    (hout : e.outgoing = true) : e ∈ s.trace ∨ Causes s a e := by
  obtain ⟨events, htrace, hadds⟩ := hm.adds
  rw [htrace] at he
  rcases List.mem_append.mp he with he | he
  · exact .inl he
  cases hadds with
  | nothing => cases he
  | caused hcause =>
    obtain rfl := List.mem_singleton.mp he
    exact .inr hcause
  | marked =>
    obtain rfl := List.mem_singleton.mp he
    cases hout
  | prefilled h =>
    obtain ⟨call, jetty, status, rfl⟩ := h e he
    cases hout
  | handled _ h =>
    obtain ⟨reposts, rfl, hre⟩ := h
    rcases List.mem_cons.mp he with rfl | he
    · cases hout
    · obtain ⟨jetty, status, rfl⟩ := hre e he
      cases hout

/-! ## What a send posts

The tags of a send are its own server key with a chunk. -/

/-- The work request for the write or the notify of chunk `i`, and where it is posted. -/
def sendWr (writeInfo : UrmaWriteInfo) (chunks : List ChunkInfo) :
    UrmaOpcode → Nat → Option (SendQueue × UrmaJfsWr)
  | .write, 0 => urmaWriteChunk writeInfo chunks[0]?
  | .write, i + 1 =>
    urmaWriteChunk (sendTaskArg writeInfo chunks i).writeInfo (sendTaskArg writeInfo chunks i).chunkInfo
  | .sendImm, i =>
    urmaWriteNotify (sendTaskArg writeInfo chunks i).writeInfo (sendTaskArg writeInfo chunks i).chunkInfo

/-- The argument of a send task tells that its request is a send, and which task it is. -/
theorem send_of_arg {a : Action} {q i : Nat} {p : Prepared} {alloc : Alloc} {arg : SendTaskArg}
    (h : ApiCall a q (some p) alloc) (harg : p.args[i]? = some (.send arg)) :
    i < p.chunks.length ∧
      ∃ writeInfo, p.urmaInfo = .write writeInfo ∧ arg = sendTaskArg writeInfo p.chunks i := by
  generalize hp : some p = o at h
  cases h with
  | send _ call mem =>
    obtain ⟨-, -, -, jettyInfo, localSrc, remoteDst, chunks, -, -, -, -, hn, rfl⟩ :=
      prepareSend_eq_some hp.symm
    obtain ⟨hi, harg⟩ := sendRequest_arg hn harg
    cases harg
    exact ⟨hi, _, rfl, rfl⟩
  | recv _ call mem =>
    obtain ⟨-, -, _, _, _, -, -, -, -, rfl⟩ := prepareRecv_eq_some hp.symm
    rw [recvRequest, List.getElem?_map] at harg
    obtain ⟨_, -, harg⟩ := Option.map_eq_some_iff.mp harg
    cases harg

/-- Whatever is posted is a work request of the send it is posted for. -/
theorem posted_reach (h : (transportSystem workerCount capacity).Reach ok s) :
    ∀ q op k queue wr st, .post q op k queue wr st ∈ s.trace →
      (s.reqs q).prep.tasks ≠ [] ∧ ∃ writeInfo, (s.reqs q).prep.urmaInfo = .write writeInfo ∧
        sendWr writeInfo (s.reqs q).prep.chunks op k = some (queue, wr) := by
  refine h.invariant (I := fun s => ∀ q op k queue wr st, .post q op k queue wr st ∈ s.trace →
    (s.reqs q).prep.tasks ≠ [] ∧ ∃ writeInfo, (s.reqs q).prep.urmaInfo = .write writeInfo ∧
      sendWr writeInfo (s.reqs q).prep.chunks op k = some (queue, wr)) ?_ ?_
  · rintro s rfl q op k queue wr st hmem
    cases hmem
  · intro s a s' hr hI _ hs q op k queue wr st hmem
    suffices hold : (s.reqs q).prep.tasks ≠ [] ∧ ∃ writeInfo,
        (s.reqs q).prep.urmaInfo = .write writeInfo ∧
        sendWr writeInfo (s.reqs q).prep.chunks op k = some (queue, wr) by
      rwa [keepsMade_step hr hs q hold.1]
    -- a task function in execution knows the argument of its task
    have htask : ∀ {w t r u arg}, (s.pool.workers w).exec = .running t r u →
        (s.reqs t.ptr.sync).prep.args[t.ptr.index]? = some (.send arg) →
        (s.reqs t.ptr.sync).prep.tasks ≠ [] ∧ ∃ writeInfo,
          (s.reqs t.ptr.sync).prep.urmaInfo = .write writeInfo ∧
          arg = sendTaskArg writeInfo (s.reqs t.ptr.sync).prep.chunks t.ptr.index := by
      intro w t r u arg hexec harg
      have hmade := ((nodes_reach hr).running w t r u hexec).1.made
      obtain ⟨a, alloc, hcall⟩ := made_reach hr hmade
      exact ⟨hmade, (send_of_arg hcall harg).2⟩
    rcases (Transport.move_of_step hs).causes hmem rfl with hmem | hcause
    · exact hI q op k queue wr st hmem
    · cases hcause with
      | first hc hinfo hwr =>
        obtain ⟨-, hwf, -⟩ := (request_inv hr q).stage.of_bound (.inr (.inr (.inl hc)))
        exact ⟨hwf.tasks_ne_nil, _, hinfo, hwr⟩
      | notify hexec hbody harg hwr | write hexec hbody harg hwr =>
        obtain ⟨hmade, writeInfo, hinfo, rfl⟩ := htask hexec harg
        exact ⟨hmade, writeInfo, hinfo, hwr⟩

/-- What is posted carries the request id of the tag it was posted with. -/
theorem requestId_of_posted {writeInfo : UrmaWriteInfo} {chunkInfo : Option ChunkInfo}
    {op : UrmaOpcode} {queue : SendQueue} {wr : UrmaJfsWr}
    (h : urmaWriteInternal writeInfo chunkInfo op = some (queue, wr)) :
    (UserData.ofUserCtx wr.userCtx).requestId = writeInfo.userCtxServer.requestId := by
  unfold urmaWriteInternal at h
  split at h
  · rename_i queue' wr' hq hwr
    cases h
    cases op with
    | write =>
      obtain ⟨chunk, -, rfl⟩ := Option.map_eq_some_iff.mp hwr
      rw [UserData.ofUserCtx_userCtx]
    | sendImm =>
      cases hwr
      rw [UserData.ofUserCtx_userCtx]
  · cases h

theorem requestId_of_sendWr {writeInfo : UrmaWriteInfo} {chunks : List ChunkInfo} {op : UrmaOpcode}
    {i : Nat} {queue : SendQueue} {wr : UrmaJfsWr}
    (h : sendWr writeInfo chunks op i = some (queue, wr)) :
    (UserData.ofUserCtx wr.userCtx).requestId = writeInfo.userCtxServer.requestId := by
  have htask : ∀ {i : Nat} {op : UrmaOpcode}, urmaWriteInternal (sendTaskArg writeInfo chunks i).writeInfo
      (sendTaskArg writeInfo chunks i).chunkInfo op = some (queue, wr) →
      (UserData.ofUserCtx wr.userCtx).requestId = writeInfo.userCtxServer.requestId := by
    intro i op h
    rw [requestId_of_posted h]
    rfl
  cases op with
  | sendImm => exact htask h
  | write =>
    cases i with
    | zero => exact requestId_of_posted h
    | succ i => exact htask h

/-- Every work request posted carries the `server_key` of its request. -/
theorem tagged_reach (h : (transportSystem workerCount capacity).Reach ok s) {q : Nat}
    {op : UrmaOpcode} {k : Nat} {queue : SendQueue} {wr : UrmaJfsWr} {st : UrmaStatus}
    (hpost : .post q op k queue wr st ∈ s.trace) :
    (∃ writeInfo, (s.reqs q).prep.urmaInfo = .write writeInfo) ∧
      (UserData.ofUserCtx wr.userCtx).requestId.setWidth 64 = (s.reqs q).prep.requestId := by
  obtain ⟨hmade, writeInfo, hinfo, hwr⟩ := posted_reach h q op k queue wr st hpost
  obtain ⟨a, alloc, hcall⟩ := made_reach h hmade
  obtain ⟨call, mem, hsend⟩ := hcall.of_write hinfo
  have hvalid := (wellFormed_of_made h hmade).requestId_valid
  obtain ⟨-, -, -, jettyInfo, localSrc, remoteDst, chunks, -, -, -, -, -, hp⟩ :=
    prepareSend_eq_some hsend
  refine ⟨⟨writeInfo, hinfo⟩, ?_⟩
  rw [requestId_of_sendWr hwr]
  rw [hp] at hinfo hvalid ⊢
  cases hinfo
  exact setWidth_valid hvalid

/-! ## Isolation

Both directions of the statement, and the run that refutes the stronger one. -/

/-- The request id a SEND_WITH_IMM completion decodes to. -/
def UrmaCr.decodedId (cr : UrmaCr) : ReqId :=
  decodeRequestId ((UserData.ofUserCtx cr.immData).requestId.setWidth 64)

/-- **Direction isolation.**  A worker executes a task only on a wake-up made from a completion that
    was handled.  A receive completion executes tasks only of requests whose id its immediate
    decodes to, whatever the immediate; so it makes a send post nothing unless it names the
    `server_key` of that send.  A send-side completion with the tag of a posted work request
    executes tasks only of requests with the id of the send that posted it; so it invokes no notify
    callback unless a receive shares that id.  And nothing but a worker inside the task posts a
    notify or a further chunk, or invokes the callback. -/
theorem direction_isolation (h : (transportSystem workerCount capacity).Reach ok s) :
    (∀ w t cr, s.ExecutesOn w t cr →
      (cr.sR = true → cr.decodedId = (s.reqs t.ptr.sync).prep.requestId) ∧
      (cr.sR = false → ∀ q op k queue wr st, .post q op k queue wr st ∈ s.trace →
        wr.userCtx = cr.userCtx →
        (s.reqs q).prep.requestId = (s.reqs t.ptr.sync).prep.requestId ∧
        ((∃ recvInfo, (s.reqs t.ptr.sync).prep.urmaInfo = .recv recvInfo) → q ≠ t.ptr.sync))) ∧
    (∀ w t r u, (s.pool.workers w).exec = .running t r u →
      ∃ cr, .completion cr ∈ s.trace ∧ s.ExecutesOn w t cr) ∧
    ∀ a s' e, s.step a = some s' → e ∈ s'.trace → e.outgoing = true → e ∈ s.trace ∨ Causes s a e := by
  refine ⟨?_, ?_, ?_⟩
  · intro w t cr hx
    obtain ⟨r, u, hexec, tag, htag, rfl, -⟩ := hx
    obtain ⟨hbuilt, hanswers⟩ := (nodes_reach h).running w t _ _ hexec
    have hid : tag.requestId.setWidth 64 = (s.reqs t.ptr.sync).prep.requestId := by
      rw [← hbuilt.requestId, answersWakeUp_requestId hanswers]
    unfold Transport.wakeUpUserData at htag
    constructor
    · intro hrecv
      rw [if_pos hrecv] at htag
      obtain ⟨-, htag⟩ := Option.ite_none_right_eq_some.mp htag
      cases htag
      rw [← hid]
      exact (setWidth_valid (decodeRequestId_valid _)).symm
    · intro hsend q op k queue wr st hpost huser
      obtain ⟨⟨writeInfo, hwrite⟩, hkey⟩ := tagged_reach h hpost
      rw [if_neg (by rw [hsend]; exact Bool.false_ne_true)] at htag
      obtain ⟨-, htag⟩ := Option.ite_none_left_eq_some.mp htag
      cases htag
      refine ⟨?_, ?_⟩
      · rw [← hkey, ← hid, huser]
      · rintro ⟨recvInfo, hrecv⟩ rfl
        rw [hwrite] at hrecv
        cases hrecv
  · intro w t r u hexec
    obtain ⟨cr, hcr, hwakes⟩ := woken_reach h r u (.running hexec)
    exact ⟨cr, hcr, r, u, hexec, hwakes⟩
  · intro a s' e hs he hout
    exact (Transport.move_of_step hs).causes he hout

end Transport

/-- Worker 0 is inside a task of a send (`sends`), or of a receive. -/
def insideTask (sends : Bool) (s : Transport) : Bool :=
  match (s.pool.workers 0).exec with
  | .running t _ _ =>
    match (s.reqs t.ptr.sync).prep.urmaInfo with
    | .write _ => sends
    | .recv _ => !sends
  | _ => false

theorem exec_of_insideTask {sends : Bool} {s : Transport} (h : insideTask sends s = true) :
    ∃ t r u, (s.pool.workers 0).exec = .running t r u ∧
      (sends = true → ∃ writeInfo, (s.reqs t.ptr.sync).prep.urmaInfo = .write writeInfo) ∧
      (sends = false → ∃ recvInfo, (s.reqs t.ptr.sync).prep.urmaInfo = .recv recvInfo) := by
  unfold insideTask at h
  split at h
  · rename_i t r u hexec
    refine ⟨t, r, u, hexec, ?_, ?_⟩ <;> rintro rfl <;> split at h
    · exact ⟨_, ‹_›⟩
    · cases h
    · cases h
    · exact ⟨_, ‹_›⟩
  · cases h

/-- A receive task is executed on the completion that names its request. -/
theorem direction_isolation_one_chunk : ∃ s w t cr,
    (transportSystem 1 1#32).Reach (fun _ _ => True) s ∧ s.ExecutesOn w t cr ∧
    (cr.sR = true → cr.decodedId = (s.reqs t.ptr.sync).prep.requestId) := by
  obtain ⟨s, hr, hP⟩ := transportSystem_run 1 1#32
    (registerOne ++ [.completion 0 oneChunkCr urmaSuccess, .wake 0 .ok, .wake 0 .ok, .worker 0 0])
    (insideTask false) (by decide +kernel)
  obtain ⟨t, r, u, hexec, -⟩ := exec_of_insideTask hP
  obtain ⟨hnames, hhandled, -⟩ := direction_isolation hr
  obtain ⟨cr, -, hx⟩ := hhandled 0 t r u hexec
  exact ⟨s, 0, t, cr, hr, hx, (hnames 0 t cr hx).1⟩

def singleRequestb (_ : Transport) : Action → Bool
  | .callSend q _ _ _ => q == 0
  | .callRecv q _ _ _ => q == 0
  | _ => true

theorem singleRequest_of_b (s : Transport) (a : Action) (h : singleRequestb s a = true) :
    SingleRequest 0 s a := by
  cases a with
  | callSend q | callRecv q => exact beq_iff_eq.mp h
  | _ => trivial

/-- One send is made; when its wait has returned, one receive. -/
def OneAfterTheOther (s : Transport) : Action → Prop
  | .callSend q _ _ _ => q = 0
  | .callRecv q _ _ _ => q = 1 ∧ ∃ ret, (s.reqs 0).owner = .returned ret
  | .completion _ cr _ => cr.sR = false → cr.userCtx ∈ s.outstanding
  | _ => True

def oneAfterTheOtherb (s : Transport) : Action → Bool
  | .callSend q _ _ _ => q == 0
  | .callRecv q _ _ _ =>
    q == 1 && match (s.reqs 0).owner with
      | .returned _ => true
      | _ => false
  | .completion _ cr _ => cr.sR || s.outstanding.contains cr.userCtx
  | _ => true

theorem oneAfterTheOther_of_b (s : Transport) (a : Action) (h : oneAfterTheOtherb s a = true) :
    OneAfterTheOther s a := by
  cases a with
  | callSend q => exact beq_iff_eq.mp h
  | callRecv q =>
    obtain ⟨hq, howner⟩ := Bool.and_eq_true_iff.mp h
    refine ⟨beq_iff_eq.mp hq, ?_⟩
    split at howner
    · exact ⟨_, ‹_›⟩
    · cases howner
  | completion k cr st =>
    intro hside
    simpa only [oneAfterTheOtherb, hside, Bool.false_or, List.contains_iff_mem] using h
  | _ => trivial

/-- The send times out and is cancelled while its first write is on its way; the receive that
    follows under the same id meets the completion of that write. -/
def lateWrite : List Action :=
  sendTwo ++ [.callWait 0 true, .owner 0 .woken, .owner 0 .etimedout] ++
    List.replicate 7 (.owner 0 .woken) ++
    (.callRecv 1 { oneChunk with len := 2097153#32 } true .ok :: List.replicate 7 (.caller 1 .ok [])) ++
    [.completion 0 firstWriteCr urmaSuccess, .wake 0 .ok, .wake 0 .ok, .worker 0 0]

/-- Every completion handled is a receive completion (`received`), or a send-side one. -/
def allCompletions (received : Bool) (s : Transport) : Bool :=
  s.trace.all fun
    | .completion cr => cr.sR == received
    | _ => true

theorem side_of_allCompletions {received : Bool} {s : Transport} {cr : UrmaCr}
    (h : allCompletions received s = true) (hcr : .completion cr ∈ s.trace) : cr.sR = received :=
  beq_iff_eq.mp (List.all_eq_true.mp h _ hcr)

/-- An immediate of the peer that decodes to the `server_key` of a send, the only request there is,
    executes its task.  And the completion of a write that outlives its send executes the task of a
    receive that uses the id next. -/
theorem peer_immediate_announces :
    (¬ ∀ s, (transportSystem 1 1#32).Reach (SingleRequest 0) s → ∀ w t cr,
      .completion cr ∈ s.trace → s.ExecutesOn w t cr → cr.sR = true →
      ¬ ∃ writeInfo, (s.reqs t.ptr.sync).prep.urmaInfo = .write writeInfo) ∧
    ¬ ∀ s, (transportSystem 1 1#32).Reach OneAfterTheOther s → ∀ w t cr,
      .completion cr ∈ s.trace → s.ExecutesOn w t cr → cr.sR = false →
      ¬ ∃ recvInfo, (s.reqs t.ptr.sync).prep.urmaInfo = .recv recvInfo := by
  constructor
  · intro hall
    obtain ⟨s, hr, hP⟩ := transportSystem_exec 1 1#32 singleRequestb singleRequest_of_b
      (sendTwo ++ [.completion 0 oneChunkCr urmaSuccess, .wake 0 .ok, .wake 0 .ok, .worker 0 0])
      (fun s => insideTask true s && allCompletions true s) (by decide +kernel)
    obtain ⟨hinside, hside⟩ := Bool.and_eq_true_iff.mp hP
    obtain ⟨t, r, u, hexec, hsend, -⟩ := exec_of_insideTask hinside
    obtain ⟨cr, hcr, hwakes⟩ := woken_reach hr r u (.running hexec)
    exact hall s hr 0 t cr hcr ⟨r, u, hexec, hwakes⟩ (side_of_allCompletions hside hcr) (hsend rfl)
  · intro hall
    obtain ⟨s, hr, hP⟩ := transportSystem_exec 1 1#32 oneAfterTheOtherb oneAfterTheOther_of_b
      lateWrite (fun s => insideTask false s && allCompletions false s) (by decide +kernel)
    obtain ⟨hinside, hside⟩ := Bool.and_eq_true_iff.mp hP
    obtain ⟨t, r, u, hexec, -, hrecv⟩ := exec_of_insideTask hinside
    obtain ⟨cr, hcr, hwakes⟩ := woken_reach hr r u (.running hexec)
    exact hall s hr 0 t cr hcr ⟨r, u, hexec, hwakes⟩ (side_of_allCompletions hside hcr) (hrecv rfl)

end OsTransport
