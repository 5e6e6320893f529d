/-
  The work requests of a send, read off its tags.

  A send posts two work requests for each chunk, and the tag of each carries the `server_key` of
  the send and a chunk id: the chunk's own on a write, 7 on a notify.  So the completions that wake a
  task of the send are those of its writes (`ownTag_of_posted`), and nothing is posted, and no
  completion due, before its tasks are queued (`unposted_reach`, `due_reach`).

  A completion is known by its tag alone, so a send can be followed only in runs in which completions
  come from what was posted.  These lemmas say what can come then: `requestId_of_sendWr` and
  `chunkId_of_sendWr` read the two fields off a posted tag, and with an id of its own the request is
  told from all others by the first.
-/
import OsTransport.Baton

namespace OsTransport

open Transition

/-! ## A send and its tags

What a send posts is determined by its arguments; its tags are those of its chunks. -/

/-- Request `q` was made by `os_transport_send`.  What its posts carry is read off these fields;
    nothing else of the call is needed. -/
structure SendReq (s : Transport) (q : Nat) (writeInfo : UrmaWriteInfo) : Prop where
  wellFormed : (s.reqs q).prep.WellFormed q
  info : (s.reqs q).prep.urmaInfo = .write writeInfo
  /-- Its tags name it, and the first of them chunk 0. -/
  tag : writeInfo.userCtxServer.requestId.setWidth 64 = (s.reqs q).prep.requestId
  zero : writeInfo.userCtxServer.chunkId = 0#3
  /-- Its tasks have no match key. -/
  keyless : ∀ t ∈ (s.reqs q).prep.tasks, t.hasMatchUserCtx = false
  args : ∀ (i : Nat) (arg : TaskArg), (s.reqs q).prep.args[i]? = some arg →
    arg = .send (sendTaskArg writeInfo (s.reqs q).prep.chunks i)

section Send

variable {workerCount : Nat} {capacity : BitVec 32} {ok : Transport → Action → Prop}
  {s : Transport} {q : Nat} {r : ReqId} {writeInfo : UrmaWriteInfo}

/-- A request with tasks and the arguments of a write is one that `os_transport_send` has
    prepared. -/
theorem sendReq_of_made (h : (transportSystem workerCount capacity).Reach ok s)
    (hmade : (s.reqs q).prep.tasks ≠ []) (hinfo : (s.reqs q).prep.urmaInfo = .write writeInfo) :
    SendReq s q writeInfo := by
  obtain ⟨a, alloc, hcall⟩ := made_reach h hmade
  have hwf := hcall.wellFormed
  obtain ⟨call, mem, hsend⟩ := hcall.of_write hinfo
  obtain ⟨-, -, -, jettyInfo, localSrc, remoteDst, chunks, -, -, -, -, hn, hp⟩ :=
    prepareSend_eq_some hsend
  have hvalid := hwf.requestId_valid
  refine ⟨hwf, hinfo, ?_, ?_, ?_, ?_⟩
  · rw [hp] at hinfo hvalid ⊢
    cases hinfo
    exact setWidth_valid hvalid
  · rw [hp] at hinfo
    cases hinfo
    rfl
  · rw [hp]
    intro t ht
    simp only [sendRequest, registerSendTasks, List.mem_map] at ht
    obtain ⟨i, -, rfl⟩ := ht
    rfl
  · intro i arg harg
    rw [hp] at hinfo harg ⊢
    cases hinfo
    exact (sendRequest_arg hn harg).2

/-- It posts what it builds, and needs a queue for it. -/
theorem urmaWriteInternal_eq_some {info : UrmaWriteInfo} {chunk : Option ChunkInfo}
    {op : UrmaOpcode} {queue : SendQueue} {wr : UrmaJfsWr} :
    urmaWriteInternal info chunk op = some (queue, wr) ↔
      sendQueue info = some queue ∧ writeWr info chunk op = some wr := by
  unfold urmaWriteInternal
  constructor
  · intro h
    split at h
    · rename_i hq hwr
      cases h
      exact ⟨hq, hwr⟩
    · cases h
  · rintro ⟨hq, hwr⟩
    rw [hq, hwr]

/-- What `sendWr` hands to `urma_write_internal`.  The write of chunk 0 is posted by the call
    itself, every other post by a task with its own copy of the arguments. -/
def postArgs (writeInfo : UrmaWriteInfo) (chunks : List ChunkInfo) :
    UrmaOpcode → Nat → UrmaWriteInfo × Option ChunkInfo
  | .write, 0 => (writeInfo, chunks[0]?)
  | .write, i + 1 => ((sendTaskArg writeInfo chunks i).writeInfo, chunks[i + 1]?)
  | .sendImm, i => ((sendTaskArg writeInfo chunks i).writeInfo, chunks[i + 1]?)

/-- All posts of a send go to one queue, and a write is of the chunk it is named for. -/
theorem sendWr_eq (writeInfo : UrmaWriteInfo) (chunks : List ChunkInfo) (op : UrmaOpcode) (k : Nat) :
    sendWr writeInfo chunks op k = urmaWriteInternal (postArgs writeInfo chunks op k).1
      (postArgs writeInfo chunks op k).2 op ∧
    sendQueue (postArgs writeInfo chunks op k).1 = sendQueue writeInfo ∧
    (op = .write → (postArgs writeInfo chunks op k).2 = chunks[k]?) := by
  cases op with
  | sendImm => exact ⟨rfl, rfl, fun h => by cases h⟩
  | write => cases k <;> exact ⟨rfl, rfl, fun _ => rfl⟩

/-- A post is refused before it reaches the library only for want of a queue or of the chunk. -/
theorem sendWr_isSome (chunks : List ChunkInfo) (op : UrmaOpcode) (k : Nat) {queue : SendQueue}
    (hq : sendQueue writeInfo = some queue) (hk : op = .write → k < chunks.length) :
    ∃ wr, sendWr writeInfo chunks op k = some (queue, wr) := by
  obtain ⟨heq, hqueue, hchunk⟩ := sendWr_eq writeInfo chunks op k
  have hwr : ∃ wr, writeWr (postArgs writeInfo chunks op k).1 (postArgs writeInfo chunks op k).2 op
      = some wr := by
    cases op with
    | sendImm => exact ⟨_, rfl⟩
    | write =>
      rw [hchunk rfl, List.getElem?_eq_getElem (hk rfl)]
      exact ⟨_, rfl⟩
  obtain ⟨wr, hwr⟩ := hwr
  exact ⟨wr, heq.trans (urmaWriteInternal_eq_some.mpr ⟨hqueue.trans hq, hwr⟩)⟩

/-- The other way round: what was posted had a queue, and a write its chunk. -/
theorem sendQueue_of_sendWr {chunks : List ChunkInfo} {op : UrmaOpcode} {k : Nat}
    {queue : SendQueue} {wr : UrmaJfsWr} (h : sendWr writeInfo chunks op k = some (queue, wr)) :
    sendQueue writeInfo = some queue ∧ (op = .write → k < chunks.length) := by
  obtain ⟨heq, hqueue, hchunk⟩ := sendWr_eq writeInfo chunks op k
  obtain ⟨hq, hwr⟩ := urmaWriteInternal_eq_some.mp (heq.symm.trans h)
  refine ⟨hqueue.symm.trans hq, ?_⟩
  rintro rfl
  obtain ⟨c, hc, -⟩ := Option.map_eq_some_iff.mp hwr
  exact (List.getElem?_eq_some_iff.mp ((hchunk rfl).symm.trans hc)).1

/-- The chunk id in the tag of a post: the chunk's own on a write, 7 on a notify. -/
theorem chunkId_of_sendWr {chunks : List ChunkInfo} {op : UrmaOpcode} {k : Nat}
    {queue : SendQueue} {wr : UrmaJfsWr} (hzero : writeInfo.userCtxServer.chunkId = 0#3)
    (h : sendWr writeInfo chunks op k = some (queue, wr)) :
    (UserData.ofUserCtx wr.userCtx).chunkId =
      if op = .write then BitVec.ofNat 3 k else BitVec.ofNat 3 maxChunkNum := by
  obtain ⟨heq, -, -⟩ := sendWr_eq writeInfo chunks op k
  obtain ⟨-, hwr⟩ := urmaWriteInternal_eq_some.mp (heq.symm.trans h)
  cases op with
  | sendImm =>
    cases hwr
    rw [UserData.ofUserCtx_userCtx]
    rfl
  | write =>
    obtain ⟨c, -, rfl⟩ := Option.map_eq_some_iff.mp hwr
    rw [UserData.ofUserCtx_userCtx, if_pos rfl]
    cases k with
    | zero => exact hzero
    | succ k => rfl

/-- The completion of a write of the request wakes a task of it, that of a notify does not. -/
theorem ownTag_of_sendWr (hreq : SendReq s q writeInfo) {op : UrmaOpcode} {k : Nat}
    {queue : SendQueue} {wr : UrmaJfsWr}
    (h : sendWr writeInfo (s.reqs q).prep.chunks op k = some (queue, wr)) :
    ownTag r wr.userCtx = true ↔ (s.reqs q).prep.requestId = r ∧ op = .write := by
  have hlen := hreq.wellFormed.chunks_le
  unfold ownTag
  rw [Bool.and_eq_true, beq_iff_eq, decide_eq_true_eq, requestId_of_sendWr h, hreq.tag,
    chunkId_of_sendWr hreq.zero h]
  refine and_congr_right fun _ => ?_
  cases op with
  | sendImm => simp [maxChunkNum, maxChunkId, chunkIdBits]
  | write =>
    have hk := (sendQueue_of_sendWr h).2 rfl
    have hmax : maxChunkNum = 7 := rfl
    rw [if_pos rfl, BitVec.toNat_ofNat, Nat.mod_eq_of_lt (by omega)]
    simp only [iff_true]
    omega

/-- Of the posted work requests the writes of the request have a tag of its own, and no others.  It
    is what makes the completions of a send those of its writes. -/
theorem ownTag_of_posted (h : (transportSystem workerCount capacity).Reach ok s)
    (hid : s.OwnsId q r) {q' : Nat} {op : UrmaOpcode} {k : Nat} {queue : SendQueue}
    {wr : UrmaJfsWr} {st : UrmaStatus} (hpost : .post q' op k queue wr st ∈ s.trace) :
    ownTag r wr.userCtx = true ↔ q' = q ∧ op = .write := by
  obtain ⟨hmade, writeInfo, hinfo, hwr⟩ := posted_reach h q' op k queue wr st hpost
  rw [ownTag_of_sendWr (sendReq_of_made h hmade hinfo) hwr, hid q' hmade]

/-- Before its tasks are queued nothing is posted for a request.  Its call posts after its
    submission has returned, and its tasks after they were taken from a queue. -/
theorem unposted_reach (h : (transportSystem workerCount capacity).Reach ok s) :
    (s.view q).attached = [] → ∀ e ∈ s.trace, e.posts q = false := by
  refine h.invariant (I := fun s => (s.view q).attached = [] → ∀ e ∈ s.trace, e.posts q = false) ?_ ?_
  · rintro s rfl - e he
    cases he
  intro s a s' hr hI _ hs hnone e he
  have hm := Transport.move_of_step hs
  have hinv := request_inv hr
  have hold : (s.view q).attached = [] := by
    rcases view_step hr hs q with heq | hstep
    · exact (congrArg RequestView.attached heq).symm.trans hnone
    · rcases hstep.attached with heq | ⟨sub, hpending, -⟩
      · exact heq.symm.trans hnone
      · exact ((hinv q).stage.of_pending (hinv q).silent hpending).2.2.2
  -- a worker in the function of a task of `q` has taken it from the queue
  have htask : ∀ {w t r u}, (s.pool.workers w).exec = .running t r u →
      (s.body w).unmarked = true → t.ptr.sync ≠ q := by
    rintro w t r u hexec hbody rfl
    obtain ⟨Q, E, hL⟩ := ledger_reach hr
    have hcount := hL.executing_count ⟨t, r, u, hexec, rfl, hbody⟩
    have hmem : t.ptr ∈ attachedList s.pool.log := by
      have hle : t.ptr ∈ (attachedList s.pool.log : Multiset ArgPtr) := by
        rw [← hL.balance]
        have hE : t.ptr ∈ E := Multiset.one_le_count_iff_mem.mp hcount
        simp [hE]
      exact hle
    have hview : t.ptr ∈ (s.view t.ptr.sync).attached :=
      List.mem_filter.mpr ⟨hmem, beq_self_eq_true _⟩
    rw [hold] at hview
    cases hview
  by_contra hposts
  cases e with
  | post q' op k queue wr st =>
    have hq : q' = q := by simpa [Event.posts] using hposts
    rcases hm.causes he rfl with he | hcause
    · exact hposts (hI hold _ he)
    · cases hcause with
      | first hc =>
        obtain ⟨-, hwf, -, -, hattached⟩ := (hinv q').stage.of_bound (.inr (.inr (.inl hc)))
        rw [hq, hold] at hattached
        exact (hq ▸ hwf).tasks_ne_nil (List.map_eq_nil_iff.mp hattached.symm)
      | notify hexec hbody | write hexec hbody => exact htask hexec (by rw [hbody]; rfl) hq
  | _ => exact hposts rfl

/-- A completion is due only for a work request that was posted.  And accepted: one that is refused
    has no completion. -/
theorem due_reach (h : (transportSystem workerCount capacity).Reach ok s) :
    ∀ x ∈ s.outstanding, ∃ q op k queue wr,
      .post q op k queue wr urmaSuccess ∈ s.trace ∧ wr.userCtx = x := by
  refine h.invariant (I := fun s => ∀ x ∈ s.outstanding, ∃ q op k queue wr,
    .post q op k queue wr urmaSuccess ∈ s.trace ∧ wr.userCtx = x) ?_ ?_
  · rintro s rfl x hx
    cases hx
  intro s a s' _ hI _ hs x hx
  have hm := Transport.move_of_step hs
  obtain ⟨events, htrace⟩ := hm.trace_append
  have hkeep : x ∈ s.outstanding → ∃ q op k queue wr,
      .post q op k queue wr urmaSuccess ∈ s'.trace ∧ wr.userCtx = x := by
    intro hx
    obtain ⟨q, op, k, queue, wr, hpost, hwr⟩ := hI x hx
    exact ⟨q, op, k, queue, wr, by rw [htrace]; exact List.mem_append_left _ hpost, hwr⟩
  cases hm.wire with
  | quiet _ _ hout => exact hkeep (hout ▸ hx)
  | @post q op k queue wr st _ htrace hout =>
    rw [hout] at hx
    split at hx
    · rename_i hst
      rcases List.mem_append.mp hx with hx | hx
      · exact hkeep hx
      · refine ⟨q, op, k, queue, wr, ?_, (List.mem_singleton.mp hx).symm⟩
        rw [htrace, hst]
        exact List.mem_append_right _ (List.mem_singleton_self _)
    · exact hkeep hx
  | handled _ _ _ hout =>
    rw [hout] at hx
    split at hx
    · exact hkeep hx
    · exact hkeep (List.mem_of_mem_erase hx)

end Send

end OsTransport
