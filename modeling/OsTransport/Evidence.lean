/-
  What the history of one node is evidence of.

  A node of a cluster sees its own calls and completions and nothing else.  These are the
  conclusions its history allows:

  * a task of a receive runs, and calls back, only after the completion that carries its tag
    (`noticed`);
  * a notify is posted only after the completion of the write of the same chunk
    (`completed_of_notify`);
  * a write of a send with an id of its own is posted once, so its tag is accepted once
    (`accepted_once`);
  * the immediate of a notify names the client key of the call and the chunk
    (`announced_of_posted`).

  The first is `woken_reach` and `effects_reach` of the receiving node, joined at the key of the
  task: keys are distinct, so the completion that woke the task carries its own tag.  The other
  three are about a send with an id of its own and come from its baton (`line_reach`): what has been
  posted is a prefix of the schedule, so a post is found at one place of it (`schedule_nodup`), and
  two chunks of one send have two tags (`write_tag_inj`).
-/
import OsTransport.Dispatch
import OsTransport.Delivery

namespace OsTransport

open Transition

variable {workerCount : Nat} {capacity : BitVec 32} {ok : Transport → Action → Prop}
  {s : Transport} {q : Nat} {r : ReqId}

/-! ## The receiving side

Backwards from a callback: the task was taken on a wake-up, and the wake-up was made from a
completion with its tag. -/

/-- A callback is given the tag of a completion that was handled before. -/
theorem called_reach (h : (transportSystem workerCount capacity).Reach ok s) :
    ∀ q i cb tag ret, .callback q i cb tag ret ∈ s.trace →
      ∃ cr, .completion cr ∈ s.trace ∧ Transport.wakeUpUserData cr = some tag := by
  refine h.invariant (I := fun s => ∀ q i cb tag ret, .callback q i cb tag ret ∈ s.trace →
    ∃ cr, .completion cr ∈ s.trace ∧ Transport.wakeUpUserData cr = some tag) ?_ ?_
  · rintro s rfl q i cb tag ret hmem
    cases hmem
  · intro s a s' hr hI _ hs q i cb tag ret hmem
    have hm := Transport.move_of_step hs
    obtain ⟨events, htrace⟩ := hm.trace_append
    have hkeep : (∃ cr, .completion cr ∈ s.trace ∧ Transport.wakeUpUserData cr = some tag) →
        ∃ cr, .completion cr ∈ s'.trace ∧ Transport.wakeUpUserData cr = some tag := by
      rintro ⟨cr, hcr, htag⟩
      exact ⟨cr, htrace ▸ List.mem_append_left _ hcr, htag⟩
    rcases hm.causes hmem rfl with hold | hcause
    · exact hkeep (hI q i cb tag ret hold)
    · cases hcause with
      | callback hexec =>
        obtain ⟨cr, hcr, tag, htag, -, rfl⟩ := woken_reach hr _ _ (.running hexec)
        exact hkeep ⟨cr, hcr, by rw [htag, UserData.ofUserCtx_userCtx]⟩

/-- A task of a receive that runs or has called back was announced. -/
theorem noticed (h : (transportSystem workerCount capacity).Reach ok s) {call : RecvCall} {cb i : Nat}
    (hrecv : Receives q call (s.reqs q).prep cb)
    (hi : (∃ w, s.Executes w ⟨q, i⟩) ∨ callbacksOf ⟨q, i⟩ s.trace ≠ []) :
    i < (s.reqs q).prep.chunks.length ∧ ∃ cr, .completion cr ∈ s.trace ∧
      Transport.wakeUpUserData cr =
        some (chunkTag (call.clientKey.setWidth 60) (s.reqs q).prep.chunks.length i) := by
  have hrunning : ∀ w, s.Executes w ⟨q, i⟩ → i < (s.reqs q).prep.chunks.length ∧
      ∃ cr, .completion cr ∈ s.trace ∧ Transport.wakeUpUserData cr =
        some (chunkTag (call.clientKey.setWidth 60) (s.reqs q).prep.chunks.length i) := by
    rintro w ⟨t, r, u, hexec, hptr, -⟩
    obtain ⟨hbuilt, hanswer⟩ := (nodes_reach h).running w t r u hexec
    obtain ⟨-, hmatch, hlt, hkey⟩ := hrecv.built hbuilt (by rw [hptr])
    rw [hptr] at hlt hkey
    obtain ⟨cr, hcr, tag, htag, -, rfl⟩ := woken_reach h r u (.running hexec)
    have htagged : t.matchUserCtx = tag.userCtx := by
      simpa [answersWakeUp, hmatch] using (Bool.and_eq_true_iff.mp hanswer).2
    refine ⟨hlt, cr, hcr, ?_⟩
    rw [htag, ← ofUserCtx_expectedImm64, ← hkey, htagged, UserData.ofUserCtx_userCtx]
  have hcalled : ∀ ret, callbacksOf ⟨q, i⟩ s.trace =
      [(cb, chunkTag (call.clientKey.setWidth 60) (s.reqs q).prep.chunks.length i, ret)] →
      ∃ cr, .completion cr ∈ s.trace ∧ Transport.wakeUpUserData cr =
        some (chunkTag (call.clientKey.setWidth 60) (s.reqs q).prep.chunks.length i) := by
    intro ret hcalls
    have hmem : (cb, chunkTag (call.clientKey.setWidth 60) (s.reqs q).prep.chunks.length i, ret) ∈
        callbacksOf ⟨q, i⟩ s.trace := by rw [hcalls]; exact List.mem_singleton_self _
    obtain ⟨e, he, heq⟩ := List.mem_filterMap.mp hmem
    cases e with
    | callback q' i' cb' tag' ret' =>
      obtain ⟨-, heq⟩ := Option.ite_none_right_eq_some.mp heq
      cases heq
      exact called_reach h _ _ _ _ _ he
    | _ => cases heq
  rcases hi with ⟨w, hx⟩ | hne
  · exact hrunning w hx
  · by_cases hx : ∃ w, s.Executes w ⟨q, i⟩
    · obtain ⟨w, hx⟩ := hx
      exact hrunning w hx
    by_cases hmark : ∃ b, ((⟨q, i⟩, b) : ArgPtr × Bool) ∈ marks s.trace
    · obtain ⟨b, hmark⟩ := hmark
      obtain ⟨hlt, ret, -, hcalls⟩ := marked_recv h hrecv hmark
      exact ⟨hlt, hcalled ret hcalls⟩
    · -- a task that has not run has done nothing
      have hnone := (effects_reach h).untouched ⟨q, i⟩ (fun b hb => hmark ⟨b, hb⟩)
        (fun w hw => hx ⟨w, hw⟩)
      refine absurd ?_ hne
      rw [← callbacksOf_taskEvents, hnone]
      rfl

/-- A wait that reports success follows the success of every task. -/
theorem mark_of_ok (h : (transportSystem workerCount capacity).Reach ok s) {st : UrmaStatus}
    (hret : (s.reqs q).owner = .returned (.waited .ok st)) {i : Nat}
    (hi : i < (s.reqs q).prep.tasks.length) : ((⟨q, i⟩, true) : ArgPtr × Bool) ∈ marks s.trace := by
  have hmem : ((⟨q, i⟩, true) : ArgPtr × Bool) ∈
      (marks s.trace).filter fun x => x.1 == ⟨q, i⟩ := by
    rw [marked_of_ok h hret hi]
    exact List.mem_singleton_self _
  exact (List.mem_filter.mp hmem).1

/-! ## The sending side

Backwards from a notify, along the line of the send. -/

/-- No place of the schedule occurs twice. -/
theorem schedule_nodup (n : Nat) : (schedule n).Nodup := by
  refine List.nodup_flatMap.mpr ⟨fun i _ => by simp, ?_⟩
  refine List.nodup_range.imp ?_
  intro i j hij x hx hy
  simp only [List.mem_cons, List.not_mem_nil, or_false] at hx hy
  rcases hx with rfl | rfl <;> rcases hy with hy | hy <;> simp_all

/-- What a send has posted begins its schedule, and a notify follows the completion of its write. -/
theorem wire_reach {writeInfo : UrmaWriteInfo} (hguard : ∀ s a, ok s a → SendGuard r s a)
    (h : (transportSystem workerCount capacity).Reach ok s) (hid : s.OwnsId q r)
    (hinfo : (s.reqs q).prep.urmaInfo = .write writeInfo) :
    ((sendPosts q s.trace).filterMap Event.place).Nodup ∧
      ∀ i queue wr st, .post q .sendImm i queue wr st ∈ s.trace →
        Announced q i (.post q .sendImm i queue wr st) s.trace := by
  rcases line_reach False hguard (fun hx => hx.elim) h hid hinfo with hnil | ⟨-, w₀, nodes, b, hline⟩
  · have hnone := unposted_reach h hnil
    have hempty : sendPosts q s.trace = [] :=
      List.filter_eq_nil_iff.mpr fun e he => by simp [hnone e he]
    refine ⟨by rw [hempty]; exact .nil, fun i queue wr st hpost => ?_⟩
    have hno := hnone _ hpost
    simp [Event.posts] at hno
  · refine ⟨?_, hline.wire.announced⟩
    by_cases hb : b = .stopped
    · exact (schedule_nodup nodes.length).sublist (hline.wire.halted hb).1.sublist
    · rw [(hline.wire.sent hb).1]
      exact (schedule_nodup nodes.length).sublist (hline.lane.fits.places hb).sublist

theorem completed_of_notify {writeInfo : UrmaWriteInfo} (hguard : ∀ s a, ok s a → SendGuard r s a)
    (h : (transportSystem workerCount capacity).Reach ok s) (hid : s.OwnsId q r)
    (hinfo : (s.reqs q).prep.urmaInfo = .write writeInfo) {i : Nat} {queue : SendQueue}
    {wr : UrmaJfsWr} {st : UrmaStatus} (hpost : .post q .sendImm i queue wr st ∈ s.trace) :
    Completed q i s.trace := by
  obtain ⟨queue', wr', cr, hside, htag, hsub⟩ := (wire_reach hguard h hid hinfo).2 i queue wr st hpost
  refine ⟨queue', wr', cr, hside, htag, List.Sublist.trans ?_ hsub⟩
  exact .cons_cons _ (.cons_cons _ (.cons _ .slnil))

/-- The tag of a write tells its chunk. -/
theorem write_tag_inj (h : (transportSystem workerCount capacity).Reach ok s) {k k' : Nat}
    {queue queue' : SendQueue} {wr wr' : UrmaJfsWr} {st st' : UrmaStatus}
    (hpost : .post q .write k queue wr st ∈ s.trace)
    (hpost' : .post q .write k' queue' wr' st' ∈ s.trace) (htag : wr.userCtx = wr'.userCtx) :
    k = k' := by
  obtain ⟨hmade, writeInfo, hinfo, hwr⟩ := posted_reach h _ _ _ _ _ _ hpost
  obtain ⟨-, writeInfo', hinfo', hwr'⟩ := posted_reach h _ _ _ _ _ _ hpost'
  obtain rfl : writeInfo = writeInfo' := by
    rw [hinfo] at hinfo'
    exact UrmaInfo.write.inj hinfo'
  have hreq := sendReq_of_made h hmade hinfo
  have hle := hreq.wellFormed.chunks_le
  have hmax : maxChunkNum = 7 := rfl
  have hk := (sendQueue_of_sendWr hwr).2 rfl
  have hk' := (sendQueue_of_sendWr hwr').2 rfl
  have hchunk := chunkId_of_sendWr hreq.zero hwr
  rw [htag, chunkId_of_sendWr hreq.zero hwr', if_pos rfl, if_pos rfl] at hchunk
  have hnat := congrArg BitVec.toNat hchunk
  rw [BitVec.toNat_ofNat, BitVec.toNat_ofNat] at hnat
  omega

/-- The tag of a write of a send with an id of its own is accepted once. -/
theorem accepted_once {writeInfo : UrmaWriteInfo} (hguard : ∀ s a, ok s a → SendGuard r s a)
    (h : (transportSystem workerCount capacity).Reach ok s) (hid : s.OwnsId q r)
    (hinfo : (s.reqs q).prep.urmaInfo = .write writeInfo) {k : Nat} {queue : SendQueue}
    {wr : UrmaJfsWr} {st : UrmaStatus} (hpost : .post q .write k queue wr st ∈ s.trace) :
    (acceptedTags s.trace).count wr.userCtx ≤ 1 := by
  have hkey : ∀ q' op k' queue' wr' st', .post q' op k' queue' wr' st' ∈ s.trace →
      wr'.userCtx = wr.userCtx → q' = q ∧ op = .write ∧ k' = k := by
    intro q' op k' queue' wr' st' hpost' htag
    have hown := (ownTag_of_posted h hid hpost).mpr ⟨rfl, rfl⟩
    obtain ⟨rfl, rfl⟩ := (ownTag_of_posted h hid hpost').mp (htag ▸ hown)
    exact ⟨rfl, rfl, write_tag_inj h hpost' hpost htag⟩
  have hcount : ∀ t : List Event, (∀ e ∈ t, e ∈ s.trace) → (acceptedTags t).count wr.userCtx ≤
      ((sendPosts q t).filterMap Event.place).count (.write, k) := by
    intro t ht
    induction t with
    | nil => exact Nat.le_refl _
    | cons e t ih =>
      have hrest := ih fun e he => ht e (List.mem_cons_of_mem _ he)
      rw [show e :: t = [e] ++ t from rfl, acceptedTags_append, sendPosts, List.filter_append,
        List.filterMap_append, List.count_append, List.count_append]
      refine Nat.add_le_add ?_ hrest
      cases e with
      | post q' op k' queue' wr' st' =>
        by_cases htag : st' = urmaSuccess ∧ wr'.userCtx = wr.userCtx
        · obtain ⟨rfl, rfl, rfl⟩ := hkey _ _ _ _ _ _ (ht _ List.mem_cons_self) htag.2
          simp [acceptedTags, Event.posts, Event.place, htag.1, htag.2]
        · have hzero : (acceptedTags [.post q' op k' queue' wr' st']).count wr.userCtx = 0 := by
            refine List.count_eq_zero.mpr fun hmem => htag ?_
            obtain ⟨q'', op', k'', queue'', wr'', hmem, hx⟩ := mem_acceptedTags.mp hmem
            cases List.mem_singleton.mp hmem
            exact ⟨rfl, hx⟩
          omega
      | _ => exact Nat.zero_le _
  calc (acceptedTags s.trace).count wr.userCtx
      ≤ ((sendPosts q s.trace).filterMap Event.place).count (.write, k) := hcount _ fun _ he => he
    _ ≤ 1 := List.nodup_iff_count_le_one.mp (wire_reach hguard h hid hinfo).1 _

/-- A task that has posted or called back has an argument. -/
theorem arg_of_event (h : (transportSystem workerCount capacity).Reach ok s) {e : Event} {p : ArgPtr}
    (he : e ∈ s.trace) (htask : e.task = some p) :
    ∃ arg, (s.reqs p.sync).prep.args[p.index]? = some arg := by
  have heff := effects_reach h
  by_cases hx : ∃ w, s.Executes w p
  · obtain ⟨w, t, r, u, hexec, rfl, hun⟩ := hx
    obtain ⟨arg, harg, -⟩ := heff.running w t r u hexec hun
    exact ⟨arg, harg⟩
  by_cases hmark : ∃ b, (p, b) ∈ marks s.trace
  · obtain ⟨b, hmark⟩ := hmark
    obtain ⟨arg, u, ret, harg, -⟩ := heff.marked p b hmark
    exact ⟨arg, harg⟩
  · have hnone := heff.untouched p (fun b hb => hmark ⟨b, hb⟩) (fun w hw => hx ⟨w, hw⟩)
    have hmem : e ∈ taskEvents p s.trace := List.mem_filter.mpr ⟨he, by simp [htask]⟩
    rw [hnone] at hmem
    cases hmem

/-- All posts of a send go to the target jetty of the call. -/
theorem tjetty_of_posted (h : (transportSystem workerCount capacity).Reach ok s) {op : UrmaOpcode}
    {k : Nat} {queue : SendQueue} {wr : UrmaJfsWr} {st : UrmaStatus} {call : SendCall} {mem : Bool}
    {jettyInfo : UrmaJettyInfo} (hpost : .post q op k queue wr st ∈ s.trace)
    (hsend : prepareSend q true call mem = some (s.reqs q).prep)
    (hjetty : call.jettyInfo = some jettyInfo) : wr.tjetty = jettyInfo.tjetty := by
  obtain ⟨-, writeInfo, hinfo, hwr⟩ := posted_reach h _ _ _ _ _ _ hpost
  obtain ⟨-, -, -, jettyInfo', localSrc, remoteDst, chunks, hjetty', -, -, -, -, hp⟩ :=
    prepareSend_eq_some hsend
  obtain rfl := Option.some.inj (hjetty.symm.trans hjetty')
  have htarget : writeInfo.targetJfr = jettyInfo.tjetty := by
    rw [hp] at hinfo
    cases hinfo
    rfl
  rw [← htarget]
  rw [(sendWr_eq writeInfo _ op k).1] at hwr
  obtain ⟨-, hwr⟩ := urmaWriteInternal_eq_some.mp hwr
  cases op with
  | sendImm =>
    cases hwr
    rfl
  | write =>
    obtain ⟨c, -, rfl⟩ := Option.map_eq_some_iff.mp hwr
    cases k <;> rfl

theorem userCtx_chunkTag (r : ReqId) (n i : Nat) :
    (chunkTag (r.setWidth 60) n i).userCtx = expectedImm64 r n i := by
  rw [← ofUserCtx_expectedImm64, UserData.userCtx_ofUserCtx]

/-- What a receiver reads from the immediate of chunk `k`. -/
theorem receivedUserData_of_survives {key : ReqId} (hkey : isRequestIdValid key = true) {n k : Nat}
    {imm : BitVec 64}
    (h : Survives (chunkTag ((encodeRequestId key).setWidth 60) n k).userCtx imm) :
    receivedUserData imm = chunkTag (key.setWidth 60) n k := by
  have hexpected : (receivedUserData imm).userCtx = expectedImm64 key n k := by
    refine received_eq_expected hkey fun i hi => ?_
    by_cases hlt : i < 64
    · exact h i hlt hi
    · rw [BitVec.getLsbD_of_ge _ _ (by omega), BitVec.getLsbD_of_ge _ _ (by omega)]
  rw [← UserData.ofUserCtx_userCtx (receivedUserData imm), hexpected, ofUserCtx_expectedImm64]

/-- The immediate of an accepted notify. -/
theorem announced_of_posted (h : (transportSystem workerCount capacity).Reach ok s) {op : UrmaOpcode}
    {k : Nat} {queue : SendQueue} {wr : UrmaJfsWr} {st : UrmaStatus} {posted : BitVec 64}
    (hpost : .post q op k queue wr st ∈ s.trace) (hposted : posted ∈ wr.announces) :
    op = .sendImm ∧ k < (s.reqs q).prep.chunks.length ∧ ∃ call mem,
      prepareSend q true call mem = some (s.reqs q).prep ∧
      posted = (chunkTag ((encodeRequestId call.clientKey).setWidth 60)
        (s.reqs q).prep.chunks.length k).userCtx := by
  obtain ⟨hmade, writeInfo, hinfo, hwr⟩ := posted_reach h _ _ _ _ _ _ hpost
  obtain ⟨a, alloc, hcall⟩ := made_reach h hmade
  obtain ⟨call, mem, hsend⟩ := hcall.of_write hinfo
  cases op with
  | write =>
    rw [(sendWr_eq writeInfo _ .write k).1] at hwr
    obtain ⟨-, hwr⟩ := urmaWriteInternal_eq_some.mp hwr
    obtain ⟨c, -, rfl⟩ := Option.map_eq_some_iff.mp hwr
    cases hposted
  | sendImm =>
    obtain ⟨arg, harg⟩ := arg_of_event h hpost (p := ⟨q, k⟩) rfl
    have hlt := (List.getElem?_eq_some_iff.mp harg).1
    rw [hcall.wellFormed.args_length] at hlt
    rw [UrmaJfsWr.announces, notify_payload h hsend hpost] at hposted
    exact ⟨rfl, hlt, call, mem, hsend, List.mem_singleton.mp hposted⟩

end OsTransport
