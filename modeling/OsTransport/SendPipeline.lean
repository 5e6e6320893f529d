/-
  The pipeline of a send: its writes and notifies come in order, each notify after the completion
  of its write.

  The order of the posts is read off the line (`line_reach`), and what they carry off the tags.
  `send_pipeline` collects both; its last part says that a send that nobody disturbs, and no post of
  which fails, gets to the end.

  The parts of the statement and where they come from:

  * the posts are a prefix of the schedule: `Fits.places` at the baton of the send;
  * the notify of a chunk follows the completion of its write: `Announced`, which `Wire` keeps;
  * what a notify carries is the tag the call has made for that chunk (`notify_payload`), and its own
    completion wakes nobody (`notify_completion`);
  * all of it is posted if nothing interferes (`pipeline_complete`): the baton stops at the end only;
    a task that has posted its notify is marked a success (`marked_of_notify`), and with all of them
    marked the request is complete (`completed_of_marked`).
-/
import OsTransport.Line

namespace OsTransport

open Transition

/-! ## The pipeline

From the history on the wire to what is promised of it. -/

section Pipeline

variable {workerCount : Nat} {capacity : BitVec 32} {ok : Transport → Action → Prop}
  {s s' : Transport} {q : Nat} {r : ReqId} {writeInfo : UrmaWriteInfo}

/-- The local completion of a notify wakes nobody.  Its tag has a chunk id that no task has, so
    `os_transport_wake_up_task` drops it. -/
theorem notify_completion (h : (transportSystem workerCount capacity).Reach ok s) {i k : Nat}
    {queue : SendQueue} {wr : UrmaJfsWr} {st status : UrmaStatus} {cr : UrmaCr}
    (hpost : .post q .sendImm i queue wr st ∈ s.trace) (hside : cr.sR = false)
    (htag : cr.userCtx = wr.userCtx) (hs : s.step (.completion k cr status) = some s') :
    s'.pool = s.pool ∧ s'.reqs = s.reqs ∧ s'.body = s.body := by
  obtain ⟨hmade, writeInfo, hinfo, hwr⟩ := posted_reach h q _ _ _ _ _ hpost
  have hchunk := chunkId_of_sendWr (sendReq_of_made h hmade hinfo).zero hwr
  have hnone : Transport.wakeUpUserData cr = none := by
    unfold Transport.wakeUpUserData
    rw [if_neg (by simp [hside]), htag]
    refine if_pos ?_
    rw [hchunk, if_neg (by simp)]
    decide
  have hm := Transport.move_of_step hs
  cases hm with
  | refuse ha | submit ha => cases ha
  | ignored => exact ⟨rfl, rfl, rfl⟩
  | completion _ hcr =>
    rw [hnone] at hcr
    cases hcr

/-- What a notify announces.  The tag of its chunk, under the key of the client: it is what the
    receiver decodes. -/
theorem notify_payload (h : (transportSystem workerCount capacity).Reach ok s) {call : SendCall}
    {mem : Bool} (hcall : prepareSend q true call mem = some (s.reqs q).prep) {i : Nat}
    {queue : SendQueue} {wr : UrmaJfsWr} {st : UrmaStatus}
    (hpost : .post q .sendImm i queue wr st ∈ s.trace) :
    wr.payload = .send (chunkTag ((encodeRequestId call.clientKey).setWidth 60)
      (s.reqs q).prep.chunks.length i).userCtx := by
  obtain ⟨hmade, writeInfo, hinfo, hwr⟩ := posted_reach h q _ _ _ _ _ hpost
  obtain ⟨wr', hwr', hpayload⟩ := urmaWriteNotify_sendTaskArg (sendQueue_of_sendWr hwr).1
    (s.reqs q).prep.chunks i
  obtain ⟨-, rfl⟩ := Prod.mk.inj (Option.some.inj (hwr.symm.trans hwr'))
  obtain ⟨-, -, -, jettyInfo, localSrc, remoteDst, chunks, -, -, -, -, -, hp⟩ :=
    prepareSend_eq_some hcall
  rw [hp] at hinfo
  cases hinfo
  exact hpayload

/-- A task of a send with nothing but accepted posts is marked a success.  The task of a posted
    notify was taken by a worker; with no wake-up left and no post failed it has gone all the way to
    its mark. -/
theorem marked_of_notify (h : (transportSystem workerCount capacity).Reach ok s)
    (hid : s.OwnsId q r) (hreq : SendReq s q writeInfo) (hquiet : ∀ u, ¬ s.pool.HasWakeUp r u)
    (haccepted : ∀ e ∈ sendPosts q s.trace, e.accepted = true) {i : Nat} {queue : SendQueue}
    {wr : UrmaJfsWr} {st : UrmaStatus} (hpost : .post q .sendImm i queue wr st ∈ s.trace) :
    ((⟨q, i⟩, true) : ArgPtr × Bool) ∈ marks s.trace := by
  have heffects := effects_reach h
  have hmarked : ∃ b, ((⟨q, i⟩, b) : ArgPtr × Bool) ∈ marks s.trace := by
    by_contra hno
    have hnone := heffects.untouched ⟨q, i⟩ (fun b hb => hno ⟨b, hb⟩) ?_
    · have hmem : Event.post q .sendImm i queue wr st ∈ taskEvents ⟨q, i⟩ s.trace :=
        List.mem_filter.mpr ⟨hpost, beq_self_eq_true _⟩
      rw [hnone] at hmem
      cases hmem
    · rintro w ⟨t, r', u, hexec, hptr, -⟩
      have hr : r' = r := (sync_of_running h hid hexec).mp (by rw [hptr])
      exact hquiet u (.running (hr ▸ hexec))
  obtain ⟨b, hb⟩ := hmarked
  obtain ⟨arg, u, ret, harg, -, hrun, rfl⟩ := heffects.marked _ _ hb
  obtain rfl := hreq.args i arg harg
  -- every post of the task was accepted
  have hposted : ∀ {es : List Event} {op : UrmaOpcode} {k : Nat} {wr : Option (SendQueue × UrmaJfsWr)}
      {st : UrmaStatus}, (∀ e ∈ es, e ∈ taskEvents ⟨q, i⟩ s.trace) → Posts q op k wr es st → wr ≠ none →
      st = urmaSuccess := by
    intro es op k wr st hes hposts hne
    obtain ⟨⟨queue, wr⟩, rfl⟩ := Option.ne_none_iff_exists'.mp hne
    obtain rfl : es = [.post q op k queue wr st] := hposts
    have hmem := (List.mem_filter.mp (hes _ (List.mem_singleton_self _))).1
    have hacc := haccepted _ (mem_sendPosts hmem (beq_self_eq_true q))
    exact beq_iff_eq.mp hacc
  obtain ⟨-, writeInfo', hinfo', hwr⟩ := posted_reach h q _ _ _ _ _ hpost
  rw [hreq.info] at hinfo'
  cases hinfo'
  have hqueue := (sendQueue_of_sendWr hwr).1
  suffices hret : ret = urmaSuccess by
    rw [hret] at hb
    exact hb
  generalize hes : taskEvents ⟨q, i⟩ s.trace = es at hrun hposted
  cases hrun with
  | status hrun =>
    cases hrun with
    | announced hp =>
      refine hposted (fun e he => he) hp ?_
      obtain ⟨wr', hwr'⟩ := sendWr_isSome (s.reqs q).prep.chunks .sendImm i
        hqueue (by simp)
      exact fun hnone => by
        have hnone' : sendWr writeInfo (s.reqs q).prep.chunks .sendImm i = none := hnone
        rw [hnone'] at hwr'
        cases hwr'
    | @written _ es es' _ hstart hp =>
      refine hposted (fun e he => List.mem_append_right _ he) hp ?_
      obtain ⟨sendArg, heq, hchunk, -⟩ := hstart.of_write
      cases heq
      obtain ⟨c, hc⟩ := Option.ne_none_iff_exists'.mp hchunk
      obtain ⟨wr', hwr'⟩ := sendWr_isSome (s.reqs q).prep.chunks .write (i + 1)
        hqueue fun _ => (List.getElem?_eq_some_iff.mp hc).1
      exact fun hnone => by
        have hnone' : sendWr writeInfo (s.reqs q).prep.chunks .write (i + 1) = none := hnone
        rw [hnone'] at hwr'
        cases hwr'

/-- The request is done when each of its tasks is marked a success.  The counter of completed tasks
    counts the marks, and there is one task for each chunk. -/
theorem completed_of_marked (h : (transportSystem workerCount capacity).Reach ok s)
    (hne : (s.view q).attached ≠ [])
    (hall : ∀ i, i < (s.reqs q).prep.chunks.length →
      ((⟨q, i⟩, true) : ArgPtr × Bool) ∈ marks s.trace) :
    (s.reqs q).sync.completedTasks = (s.reqs q).prep.chunks.length ∧
      (s.reqs q).sync.requestCompleted = true := by
  have hinv := request_inv h q
  obtain ⟨hwf, htotal, -⟩ := hinv.stage.attached_ne_nil hne
  have hpos : 0 < (s.reqs q).prep.chunks.length := hwf.chunks_pos
  have hlen : (s.view q).attached.length = (s.reqs q).prep.chunks.length := by
    have hattached : (s.view q).attached = (s.reqs q).prep.tasks.map ThreadPoolTask.taskArg := by
      have hstage := hinv.stage
      cases hstage with
      | unmade _ _ _ ha | pending _ _ _ _ _ ha => exact absurd ha hne
      | queued _ _ _ _ _ ha | bound _ _ _ _ ha => exact ha
    rw [hattached, List.length_map]
    exact hwf.tasks_length
  have hcompleted : (s.reqs q).sync.completedTasks = (s.view q).succeeded := hinv.counted.completed
  have hle : (s.reqs q).prep.chunks.length ≤ (s.view q).succeeded := by
    have hnodup : ((List.range (s.reqs q).prep.chunks.length).map
        fun i => ((⟨q, i⟩, true) : ArgPtr × Bool)).Nodup := by
      refine List.nodup_range.map ?_
      intro i j hij
      simpa using hij
    have hsub : ((List.range (s.reqs q).prep.chunks.length).map
        fun i => ((⟨q, i⟩, true) : ArgPtr × Bool)) ⊆
        (marks s.trace).filter (fun x => x.1.sync == q && x.2) := by
      intro x hx
      obtain ⟨i, hi, rfl⟩ := List.mem_map.mp hx
      exact List.mem_filter.mpr ⟨hall i (List.mem_range.mp hi), by simp⟩
    have hlength := (hnodup.subperm hsub).length_le
    rw [List.length_map, List.length_range, ← List.countP_eq_length_filter] at hlength
    exact hlength
  have hfits := hinv.fits
  unfold RequestView.Fits at hfits
  refine ⟨by omega, hinv.counted.accounted hne ?_⟩
  have htotal' : (s.reqs q).sync.totalTasks = (s.view q).attached.length := htotal
  show (s.reqs q).sync.allTasksAccounted = true
  rw [TaskSync.allTasksAccounted_iff (by omega)]
  omega

/-- A call that returned `0` has queued its tasks.  It collected the ids of its submission before
    its first write. -/
theorem attached_of_returned (h : (transportSystem workerCount capacity).Reach ok s)
    {st : UrmaStatus} (hret : (s.reqs q).caller = .returned true st) : (s.view q).attached ≠ [] := by
  have hbound : ∀ st, (s.reqs q).caller = .returned true st → (s.reqs q).bound = true := by
    refine h.invariant (I := fun s => ∀ st, (s.reqs q).caller = .returned true st →
      (s.reqs q).bound = true) ?_ ?_
    · rintro s rfl st hc
      cases hc
    intro s a s' hr hI _ hs st hc
    have hm := Transport.move_of_step hs
    have hself : ∀ {s₁ : Transport} {x : Request}, (s₁.setReq q x).reqs q = x :=
      Function.update_self ..
    by_cases ha : a.madeBy = some q
    · cases hm with
      | refuse hcall | submit hcall =>
        obtain rfl := Option.some.inj (hcall.madeBy.symm.trans ha)
        rw [hself] at hc
        cases hc
      | callerAdvance => exact hI st hc
      | registerSend | registerRecv | unregistered | fail | prefillFailed =>
        cases ha
        rw [hself] at hc
        cases hc
      | firstWrite hw | prefill hw =>
        cases ha
        rw [hself]
        obtain ⟨-, -, -, hb, -⟩ := (request_inv hr q).stage.of_bound (by
          first
          | exact .inr (.inr (.inl hw))
          | exact .inr (.inr (.inr (.inl hw))))
        exact hb
      | _ => cases ha
    · have hframe := hm.frame ha
      have hcaller : (s'.reqs q).caller = (s.reqs q).caller := congrArg (fun x => x.2.1) hframe
      have hb : (s'.reqs q).bound = (s.reqs q).bound := congrArg (fun x => x.2.2.1) hframe
      rw [hb]
      exact hI st (hcaller ▸ hc)
  obtain ⟨-, hwf, -, -, hattached⟩ := (request_inv h q).stage.of_bound (.inl (hbound st hret))
  intro hnil
  rw [hnil] at hattached
  exact hwf.tasks_ne_nil (List.map_eq_nil_iff.mp hattached.symm)

/-- Left alone, with every post accepted and every completion of a write handled, a send has posted
    its whole schedule and is complete.  The baton cannot be on the wire, nor in a wake-up, nor with
    a worker; it has stopped, and left alone it stops at the end only. -/
theorem pipeline_complete
    (h : (transportSystem workerCount capacity).Reach
      (fun s a => SendGuard r s a ∧ Untroubled q r s a) s)
    (hid : s.OwnsId q r) (hinfo : (s.reqs q).prep.urmaInfo = .write writeInfo)
    (haccepted : ∀ e ∈ sendPosts q s.trace, e.accepted = true) {st : UrmaStatus}
    (hret : (s.reqs q).caller = .returned true st)
    (hdue : ∀ k queue wr st, .post q .write k queue wr st ∈ s.trace → wr.userCtx ∉ s.outstanding)
    (hquiet : ∀ u, ¬ s.pool.HasWakeUp r u) :
    (sendPosts q s.trace).filterMap Event.place = schedule (s.reqs q).prep.chunks.length ∧
      (s.reqs q).sync.completedTasks = (s.reqs q).prep.chunks.length ∧
      (s.reqs q).sync.requestCompleted = true := by
  rcases line_reach True (fun _ _ hok => hok.1) (fun _ _ _ hok => hok.2) h hid hinfo with
    hnil | ⟨hne, w₀, nodes, b, hline⟩
  · exact absurd hnil (attached_of_returned h hret)
  have hmade := ((request_inv h q).stage.attached_ne_nil hne).1.tasks_ne_nil
  have hreq := sendReq_of_made h hmade hinfo
  have hlen := (hline.tasks hreq ((hid q hmade).mpr rfl)).1
  have hsent := hline.returned st hret
  -- no completion is due and no wake-up on its way, so nothing is under way
  have hstopped : b = .stopped := by
    have hsignal := hline.lane.signal
    cases b with
    | first =>
      obtain ⟨hplaces, -⟩ := hline.wire.sent (by simp)
      obtain ⟨e, he⟩ := List.exists_mem_of_ne_nil _ hsent
      have hplace := List.filterMap_eq_nil_iff.mp hplaces e he
      obtain ⟨-, hposts⟩ := List.mem_filter.mp he
      cases e with
      | post => cases hplace
      | _ => cases hposts
    | flight i x =>
      obtain ⟨queue, wr, hpost, rfl⟩ := hline.wire.flight i x rfl
      have hmem : wr.userCtx ∈ s.outstanding.filter (ownTag r) := by
        rw [hline.wire.own]
        exact List.mem_singleton_self _
      exact absurd (List.mem_filter.mp hmem).1 (hdue i queue wr _ hpost)
    | waking i c =>
      obtain ⟨⟨u, hc⟩, -⟩ := hsignal
      exact absurd (.waking (laneCall_waking.mp hc)) (hquiet u)
    | accepted i =>
      obtain ⟨-, u, hu⟩ := hsignal
      have hmem : u ∈ laneWakes r (s.pool.workers w₀).pending := by
        rw [← lane_wakes, hu]
        exact List.mem_singleton_self _
      obtain ⟨p, hp, rfl⟩ := List.mem_map.mp hmem
      obtain ⟨hp, hr⟩ := List.mem_filter.mp hp
      exact absurd (.pending hp (beq_iff_eq.mp hr) rfl) (hquiet _)
    | notifying i =>
      obtain ⟨-, -, t, u, hexec, -⟩ := hline.held i .start rfl
      exact absurd (.running hexec) (hquiet u)
    | writing i =>
      obtain ⟨-, -, t, u, hexec, -⟩ := hline.held i .write rfl
      exact absurd (.running hexec) (hquiet u)
    | stopped => rfl
  have hplaces : (sendPosts q s.trace).filterMap Event.place = schedule (s.reqs q).prep.chunks.length := by
    obtain ⟨-, -, hexact⟩ := hline.wire.halted hstopped
    rcases hexact trivial with hall | ⟨e, he, hrefused⟩ | hnil
    · rw [hall, hlen]
    · rw [haccepted e he] at hrefused
      cases hrefused
    · exact absurd hnil hsent
  refine ⟨hplaces, completed_of_marked h hne ?_⟩
  intro i hi
  have hmem : ((.sendImm, i) : UrmaOpcode × Nat) ∈ (sendPosts q s.trace).filterMap Event.place := by
    rw [hplaces]
    exact List.mem_flatMap.mpr ⟨i, List.mem_range.mpr hi, by simp⟩
  obtain ⟨e, he, hplace⟩ := List.mem_filterMap.mp hmem
  obtain ⟨hin, hposts⟩ := List.mem_filter.mp he
  cases e with
  | post q' op k queue wr st =>
    cases hplace
    obtain rfl : q' = q := beq_iff_eq.mp hposts
    exact marked_of_notify h hid hreq hquiet haccepted hin
  | _ => cases hposts

/-- **The send pipeline.**  For a send whose id is its own and is not what an immediate decodes to,
    whatever callers, completions, workers, failing posts, timeouts and cancels do: what is posted
    for it is a prefix of write, notify, write, notify, …; each notify carries the tag of its
    chunk, and is posted after the completion of the chunk's write was handled; the completion
    of a notify does nothing; nothing is posted after a post that failed, nor after the first write
    of a call that fails.  And if nobody disturbs it and no post fails, the whole schedule is posted
    once the completions of its writes are handled. -/
theorem send_pipeline {call : SendCall} {mem : Bool}
    (h : (transportSystem workerCount capacity).Reach (SendGuard r) s) (hid : s.OwnsId q r)
    (hcall : prepareSend q true call mem = some (s.reqs q).prep) :
    (sendPosts q s.trace).filterMap Event.place <+: schedule (s.reqs q).prep.chunks.length ∧
    (∀ e ∈ (sendPosts q s.trace).dropLast, e.accepted = true) ∧
    ((s.reqs q).caller.Fails → (sendPosts q s.trace).length ≤ 1) ∧
    (∀ i queue wr st, .post q .sendImm i queue wr st ∈ s.trace →
      wr.payload = .send (chunkTag ((encodeRequestId call.clientKey).setWidth 60)
        (s.reqs q).prep.chunks.length i).userCtx ∧
      Announced q i (.post q .sendImm i queue wr st) s.trace ∧
      ∀ k cr status s', cr.sR = false → cr.userCtx = wr.userCtx →
        s.step (.completion k cr status) = some s' →
        s'.pool = s.pool ∧ s'.reqs = s.reqs ∧ s'.body = s.body) ∧
    ((transportSystem workerCount capacity).Reach (fun s a => SendGuard r s a ∧ Untroubled q r s a) s →
      (∀ e ∈ sendPosts q s.trace, e.accepted = true) →
      ∀ st, (s.reqs q).caller = .returned true st →
      (∀ k queue wr st, .post q .write k queue wr st ∈ s.trace → wr.userCtx ∉ s.outstanding) →
      (∀ u, ¬ s.pool.HasWakeUp r u) →
      (sendPosts q s.trace).filterMap Event.place = schedule (s.reqs q).prep.chunks.length ∧
      (s.reqs q).sync.completedTasks = (s.reqs q).prep.chunks.length ∧
      (s.reqs q).sync.requestCompleted = true) := by
  obtain ⟨writeInfo, hinfo⟩ : ∃ writeInfo, (s.reqs q).prep.urmaInfo = .write writeInfo := by
    obtain ⟨-, -, -, jettyInfo, localSrc, remoteDst, chunks, -, -, -, -, -, hp⟩ :=
      prepareSend_eq_some hcall
    rw [hp]
    exact ⟨_, rfl⟩
  have hline := line_reach False (fun _ _ hok => hok) (fun hx => hx.elim) h hid hinfo
  have hposts : (sendPosts q s.trace).filterMap Event.place <+: schedule (s.reqs q).prep.chunks.length ∧
      (∀ e ∈ (sendPosts q s.trace).dropLast, e.accepted = true) ∧
      ((s.reqs q).caller.Fails → (sendPosts q s.trace).length ≤ 1) ∧
      ∀ i queue wr st, .post q .sendImm i queue wr st ∈ s.trace →
        Announced q i (.post q .sendImm i queue wr st) s.trace := by
    rcases hline with hnil | ⟨hne, w₀, nodes, b, hline⟩
    -- nothing is posted before the tasks are queued
    · have hnone := unposted_reach h hnil
      have hempty : sendPosts q s.trace = [] := by
        refine List.filter_eq_nil_iff.mpr ?_
        intro e he
        simp [hnone e he]
      rw [hempty]
      refine ⟨List.nil_prefix, by simp, by simp, ?_⟩
      intro i queue wr st hpost
      have hno := hnone _ hpost
      simp [Event.posts] at hno
    · have hmade := ((request_inv h q).stage.attached_ne_nil hne).1.tasks_ne_nil
      have hlen := (hline.tasks (sendReq_of_made h hmade hinfo) ((hid q hmade).mpr rfl)).1
      have hprefix : (sendPosts q s.trace).filterMap Event.place <+: schedule nodes.length ∧
          ∀ e ∈ (sendPosts q s.trace).dropLast, e.accepted = true := by
        by_cases hb : b = .stopped
        · obtain ⟨hpre, hacc, -⟩ := hline.wire.halted hb
          exact ⟨hpre, hacc⟩
        · obtain ⟨hplaces, hacc⟩ := hline.wire.sent hb
          exact ⟨hplaces ▸ hline.lane.fits.places hb, fun e he => hacc e (List.dropLast_subset _ he)⟩
      exact ⟨hlen ▸ hprefix.1, hprefix.2, fun hf => (hline.failed hf).2, hline.wire.announced⟩
  refine ⟨hposts.1, hposts.2.1, hposts.2.2.1, ?_, ?_⟩
  · intro i queue wr st hpost
    exact ⟨notify_payload h hcall hpost, hposts.2.2.2 i queue wr st hpost,
      fun k cr status s' hside htag hs => notify_completion h hpost hside htag hs⟩
  · intro hcalm haccepted st hret hdue hquiet
    exact pipeline_complete hcalm hid hinfo haccepted hret hdue hquiet

end Pipeline

/-- The local completion of the second write of `twoChunks`. -/
def secondWriteCr : UrmaCr :=
  ⟨0, false, 0, (⟨7#60, ChunkType.lastChunk.bits, 1#3⟩ : UserData).userCtx, 0#64⟩

/-- `twoChunks` is sent and both of its writes complete. -/
def sendAndAnnounceTwo : List Action :=
  sendTwo ++ [.completion 0 firstWriteCr urmaSuccess, .wake 0 .ok, .wake 0 .ok] ++
    List.replicate 7 (.worker 0 0) ++
    [.completion 0 secondWriteCr urmaSuccess, .wake 0 .ok, .wake 0 .ok] ++
    List.replicate 6 (.worker 0 0)

/-- Only request 0 is made, and completions come from posted work requests. -/
def sendGuardb (s : Transport) : Action → Bool
  | .callSend q _ _ _ => q == 0
  | .callRecv q _ _ _ => q == 0
  | .completion _ cr _ => !cr.sR && s.outstanding.contains cr.userCtx
  | _ => true

theorem sendGuard_of_b (s : Transport) (a : Action) (h : sendGuardb s a = true) :
    SingleRequest 0 s a ∧ SendGuard 7#64 s a := by
  cases a with
  | callSend q | callRecv q => exact ⟨beq_iff_eq.mp h, trivial⟩
  | completion k cr st =>
    obtain ⟨hside, hdue⟩ := Bool.and_eq_true_iff.mp h
    refine ⟨trivial, ?_, fun _ => List.contains_iff_mem.mp hdue⟩
    intro hrecv
    rw [hrecv] at hside
    cases hside
  | _ => exact ⟨trivial, trivial⟩

/-- Both chunks are written and announced, in order. -/
def announcedTwo (s : Transport) : Bool :=
  (sendPosts 0 s.trace).filterMap Event.place == schedule 2 && (s.reqs 0).prep.requestId == 7#64 &&
    prepareSend 0 true twoChunks true == some (s.reqs 0).prep

theorem send_pipeline_two_chunks : ∃ s, (transportSystem 1 1#32).Reach (SendGuard 7#64) s ∧
    (sendPosts 0 s.trace).filterMap Event.place = schedule 2 ∧
    ∀ i queue wr st, .post 0 .sendImm i queue wr st ∈ s.trace →
      Announced 0 i (.post 0 .sendImm i queue wr st) s.trace := by
  obtain ⟨s, hr, hP⟩ := transportSystem_exec 1 1#32 sendGuardb sendGuard_of_b sendAndAnnounceTwo
    announcedTwo (by decide +kernel)
  simp only [announcedTwo, Bool.and_eq_true, beq_iff_eq] at hP
  obtain ⟨⟨hplaces, hid⟩, hcall⟩ := hP
  have hown := ownsId_of_single (hr.mono fun _ _ h => h.1)
  rw [hid] at hown
  have hreach := hr.mono fun _ _ h => h.2
  obtain ⟨-, -, -, hnotify, -⟩ := send_pipeline hreach hown hcall
  exact ⟨s, hreach, hplaces, fun i queue wr st hpost => (hnotify i queue wr st hpost).2.1⟩

end OsTransport
