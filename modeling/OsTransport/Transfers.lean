/-
  Which transfers the two sides support, and what a send does to the memory.

  Both sides cut `len` bytes with `common_split_chunks`.  A receive takes 1 to `maxChunkNum` chunks.
  A send takes 2 to `maxChunkNum`: `register_send_tasks` refuses a single chunk, although the
  comment above `os_transport_send` says that such data is sent directly.  `same_transfers_iff` is
  that this is the only difference between the two.

  The bytes: the chunks tile the buffer (`range_tiles`), so the writes of a schedule that was
  posted to its end copy each byte once, and its notifies are the tags the receiver waits for.

  `prepareSend_isSome_iff` and `prepareRecv_isSome_iff` say for which arguments the two calls get as
  far as the pool; that they then return `0` in some run, and refuse otherwise, is `returns_iff` of
  `OsTransport.Returns`, so the comparison of the two sides comes down to their numbers of chunks.
-/
import OsTransport.Returns
import OsTransport.Chunks

namespace OsTransport

open Transition

/-! ## Calls without a reason to be refused

Valid arguments are those each side accepts, the number of chunks apart. -/

/-- The arguments of `os_transport_send`, apart from `len`, are what it asks for.  They pass
    `validate_send_input`, and both keys are valid. -/
structure SendCall.Valid (call : SendCall) : Prop where
  handle : call.handle = true
  jettyInfo : ∃ info, call.jettyInfo = some info ∧ (info.jfs.isSome = true ∨ info.jetty.isSome = true)
  localSrc : ∃ buffer, call.localSrc = some buffer
  remoteDst : ∃ buffer, call.remoteDst = some buffer
  serverKey : isRequestIdValid call.serverKey = true
  clientKey : isRequestIdValid call.clientKey = true
  retSyncHandle : call.retSyncHandle = true

/-- The arguments of `os_transport_recv`, apart from `len`, are what it asks for.  They pass
    `validate_recv_input`, and the key is valid. -/
structure RecvCall.Valid (call : RecvCall) : Prop where
  handle : call.handle = true
  hostSrc : ∃ buffer, call.hostSrc = some buffer
  deviceDst : ∃ device, call.deviceDst = some device ∧
    (device.jetty.isSome = true ∨ device.jfr.isSome = true)
  clientKey : isRequestIdValid call.clientKey = true
  retSyncHandle : call.retSyncHandle = true
  notifyCallback : call.notifyCallback.isSome = true

section Prepare

variable {q : Nat}

/-- A send is cut into at least two chunks.  `register_send_tasks` refuses fewer. -/
theorem prepareSend_isSome_iff {call : SendCall} (h : call.Valid) :
    (prepareSend q true call true).isSome = true ↔
      defaultChunkSize.toNat < call.len.toNat ∧
        call.len.toNat ≤ maxChunkNum * defaultChunkSize.toNat := by
  obtain ⟨info, hinfo, -⟩ := h.jettyInfo
  obtain ⟨localSrc, hsrc⟩ := h.localSrc
  obtain ⟨remoteDst, hdst⟩ := h.remoteDst
  have hcount := chunksNum_eq call.len
  have hpos := chunksNum_pos_iff call.len
  have hmax := maxLen_eq
  have hsize := defaultChunkSize_toNat
  constructor
  · intro hsome
    obtain ⟨p, hp⟩ := Option.isSome_iff_exists.mp hsome
    obtain ⟨-, -, -, _, _, _, chunks, -, -, -, hsplit, htwo, -⟩ := prepareSend_eq_some hp
    obtain ⟨h₁, h₂, hlength, -⟩ := commonSplitChunks_eq_some hsplit (by omega)
    omega
  · rintro ⟨hlow, hhigh⟩
    have hlt := call.len.isLt
    have htwo : ¬ chunksNum call.len < 2 := by omega
    have hne : call.len ≠ 0#32 := fun h0 => by
      have hzero : call.len.toNat = 0 := by rw [h0, BitVec.toNat_ofNat]
      omega
    obtain ⟨chunks, hsplit, hlength⟩ :=
      exists_split localSrc.addr remoteDst.addr (show chunksNum call.len ≤ _ by omega)
    have hinput : validateSendInput true call = true := by
      simp [validateSendInput, h.handle, hinfo, hsrc, hdst, h.retSyncHandle, hne]
    refine Option.isSome_iff_exists.mpr ⟨sendRequest q call.serverKey (buildWriteInfo info localSrc
      remoteDst call.serverKey call.clientKey) chunks, ?_⟩
    rw [prepareSend, if_neg (by simp [hinput, h.serverKey, h.clientKey])]
    refine Option.bind_eq_some_iff.mpr ⟨info, hinfo, Option.bind_eq_some_iff.mpr ⟨localSrc, hsrc,
      Option.bind_eq_some_iff.mpr ⟨remoteDst, hdst, Option.bind_eq_some_iff.mpr ⟨chunks, hsplit, ?_⟩⟩⟩⟩
    rw [if_neg (by omega)]

/-- A receive is cut into at least one.  `register_recv_tasks` accepts a single one. -/
theorem prepareRecv_isSome_iff {call : RecvCall} (h : call.Valid) :
    (prepareRecv q true call true).isSome = true ↔
      1 ≤ call.len.toNat ∧ call.len.toNat ≤ maxChunkNum * defaultChunkSize.toNat := by
  obtain ⟨hostSrc, hsrc⟩ := h.hostSrc
  obtain ⟨device, hdst, hjetty⟩ := h.deviceDst
  constructor
  · intro hsome
    obtain ⟨p, hp⟩ := Option.isSome_iff_exists.mp hsome
    obtain ⟨-, -, _, _, chunks, -, -, hsplit, hone, -⟩ := prepareRecv_eq_some hp
    obtain ⟨h₁, h₂, -⟩ := commonSplitChunks_eq_some hsplit hone
    exact ⟨h₁, h₂⟩
  · rintro ⟨hlow, hhigh⟩
    obtain ⟨hone, hle⟩ := (chunksNum_pos_iff call.len).mpr ⟨hlow, hhigh⟩
    have hne : call.len ≠ 0#32 := fun h0 => by
      have hzero : call.len.toNat = 0 := by rw [h0, BitVec.toNat_ofNat]
      omega
    obtain ⟨chunks, hsplit, hlength⟩ := exists_split hostSrc.addr device.dst hle
    have hzero : chunksNum call.len ≠ 0 := by omega
    have hinput : validateRecvInput true call = true := by
      simp [validateRecvInput, h.handle, hsrc, hdst, h.retSyncHandle, hne, h.notifyCallback, hjetty]
    refine Option.isSome_iff_exists.mpr ⟨recvRequest q
      ⟨device.jfr, device.jetty, hostSrc.tseg, device, call.clientKey⟩ call.notifyCallback chunks, ?_⟩
    rw [prepareRecv, if_neg (by simp [hinput, h.clientKey])]
    refine Option.bind_eq_some_iff.mpr ⟨hostSrc, hsrc, Option.bind_eq_some_iff.mpr ⟨device, hdst,
      Option.bind_eq_some_iff.mpr ⟨chunks, hsplit, ?_⟩⟩⟩
    rw [if_neg (by omega)]

/-- Its first chunk can be posted. -/
theorem postable_of_send {call : SendCall} (h : call.Valid) {p : Prepared}
    (hp : prepareSend q true call true = some p) : p.Postable := by
  obtain ⟨info, hinfo, hqueue⟩ := h.jettyInfo
  obtain ⟨-, -, -, info', localSrc, remoteDst, chunks, hinfo', -, -, -, htwo, rfl⟩ :=
    prepareSend_eq_some hp
  obtain rfl := Option.some.inj (hinfo.symm.trans hinfo')
  intro writeInfo hwrite
  cases hwrite
  have hsome : ∃ queue, sendQueue (buildWriteInfo info localSrc remoteDst call.serverKey
      call.clientKey) = some queue := by
    simp only [sendQueue, buildWriteInfo]
    cases hjfs : info.jfs with
    | some jfs => exact ⟨_, rfl⟩
    | none =>
      cases hjetty : info.jetty with
      | some jetty => exact ⟨_, rfl⟩
      | none => simp [hjfs, hjetty] at hqueue
  obtain ⟨queue, hqueue⟩ := hsome
  obtain ⟨wr, hwr⟩ := sendWr_isSome chunks .write 0 hqueue fun _ => by omega
  have hwr' : urmaWriteChunk _ chunks[0]? = some (queue, wr) := hwr
  exact Option.isSome_iff_exists.mpr ⟨_, hwr'⟩

/-- A receive writes nothing, so there is nothing to be refused. -/
theorem postable_of_recv {call : RecvCall} {p : Prepared}
    (hp : prepareRecv q true call true = some p) : p.Postable := by
  obtain ⟨-, -, _, _, _, -, -, -, -, rfl⟩ := prepareRecv_eq_some hp
  intro writeInfo hwrite
  cases hwrite

end Prepare

/-! ## What a send does to the memory

The bytes its writes copy, each once, and the chunks its notifies name. -/

/-- The bytes a work request copies: source and destination address of each.  Addresses are 64 bits
    and wrap. -/
def UrmaJfsWr.copies (wr : UrmaJfsWr) : List (BitVec 64 × BitVec 64) :=
  match wr.payload with
  | .rw src dst => (List.range src.len.toNat).map fun j =>
      (src.addr + BitVec.ofNat 64 j, dst.addr + BitVec.ofNat 64 j)
  | .send _ => []

/-- The immediate a work request carries. -/
def UrmaJfsWr.announces (wr : UrmaJfsWr) : List (BitVec 64) :=
  match wr.payload with
  | .rw _ _ => []
  | .send immData => [immData]

/-- What is posted for request `q`, in that order. -/
def Event.workRequest : Event → Option UrmaJfsWr
  | .post _ _ _ _ wr _ => some wr
  | _ => none

/-- The work requests request `q` has posted, oldest first. -/
def workRequests (q : Nat) (trace : List Event) : List UrmaJfsWr :=
  (sendPosts q trace).filterMap Event.workRequest

section Memory

variable {workerCount : Nat} {capacity : BitVec 32} {ok : Transport → Action → Prop}
  {s : Transport} {q : Nat}

/-- What the posts amount to is told by their places in the schedule.  The work request at a place
    is always the same, so nothing else of the history is needed. -/
theorem flatMap_of_places {α : Type*} (f : UrmaJfsWr → List α) (g : UrmaOpcode × Nat → List α)
    {trace : List Event} (h : ∀ op k queue wr st, .post q op k queue wr st ∈ trace → f wr = g (op, k)) :
    (workRequests q trace).flatMap f = ((sendPosts q trace).filterMap Event.place).flatMap g := by
  unfold workRequests
  have hall : ∀ e ∈ sendPosts q trace, ∃ op k queue wr st,
      e = .post q op k queue wr st ∧ f wr = g (op, k) := by
    intro e he
    obtain ⟨hmem, hposts⟩ := List.mem_filter.mp he
    cases e with
    | post q' op k queue wr st =>
      obtain rfl : q' = q := beq_iff_eq.mp hposts
      exact ⟨op, k, queue, wr, st, rfl, h op k queue wr st hmem⟩
    | _ => cases hposts
  generalize sendPosts q trace = posts at hall
  induction posts with
  | nil => rfl
  | cons e posts ih =>
    obtain ⟨op, k, queue, wr, st, rfl, hwr⟩ := hall e List.mem_cons_self
    have hrest := ih fun e he => hall e (List.mem_cons_of_mem _ he)
    show f wr ++ (posts.filterMap Event.workRequest).flatMap f =
      g (op, k) ++ (posts.filterMap Event.place).flatMap g
    rw [hwr, hrest]

/-- The bytes of chunk `i` of `n`. -/
theorem schedule_writes {α : Type*} (g : UrmaOpcode × Nat → List α) (n : Nat) :
    (schedule n).flatMap g = (List.range n).flatMap fun i => g (.write, i) ++ g (.sendImm, i) := by
  rw [schedule, List.flatMap_assoc]
  congr 1
  funext i
  simp

/-- The bytes from `src` on, each with the one at the same offset from `dst`. -/
def byteCopies (src dst : BitVec 64) (offsets : List Nat) : List (BitVec 64 × BitVec 64) :=
  offsets.map fun j => (src + BitVec.ofNat 64 j, dst + BitVec.ofNat 64 j)

/-- The bytes of a buffer from an offset on. -/
theorem byteCopies_shift (src dst : BitVec 64) (start : Nat) (offsets : List Nat) :
    byteCopies (src + BitVec.ofNat 64 start) (dst + BitVec.ofNat 64 start) offsets =
      byteCopies src dst (offsets.map (start + ·)) := by
  unfold byteCopies
  rw [List.map_map]
  refine List.map_congr_left fun j _ => ?_
  simp only [Function.comp_apply, BitVec.ofNat_add, BitVec.add_assoc]

/-- The bytes the post at a place of the schedule copies: those of its chunk, or none.  A notify has
    no bytes. -/
def placeCopies (chunks : List ChunkInfo) : UrmaOpcode × Nat → List (BitVec 64 × BitVec 64)
  | (.write, k) => (chunks[k]?.map fun c => byteCopies c.src c.dst (List.range c.len.toNat)).getD []
  | (.sendImm, _) => []

/-- What a post copies is told by its place in the schedule. -/
theorem copies_of_sendWr {writeInfo : UrmaWriteInfo} {chunks : List ChunkInfo} {op : UrmaOpcode}
    {k : Nat} {queue : SendQueue} {wr : UrmaJfsWr}
    (h : sendWr writeInfo chunks op k = some (queue, wr)) :
    wr.copies = placeCopies chunks (op, k) := by
  obtain ⟨heq, -, hchunk⟩ := sendWr_eq writeInfo chunks op k
  rw [heq] at h
  obtain ⟨-, hwr⟩ := urmaWriteInternal_eq_some.mp h
  cases op with
  | write =>
    rw [hchunk rfl] at hwr
    obtain ⟨c, hc, rfl⟩ := Option.map_eq_some_iff.mp hwr
    rw [placeCopies, hc]
    rfl
  | sendImm =>
    cases hwr
    rfl

/-- The immediate the post at a place of the schedule carries. -/
def placeAnnounces (clientKey : ReqId) (n : Nat) : UrmaOpcode × Nat → List (BitVec 64)
  | (.write, _) => []
  | (.sendImm, i) => [(chunkTag ((encodeRequestId clientKey).setWidth 60) n i).userCtx]

/-- Everything that is due for the send `call` of request `q` has happened.  Nobody disturbed it, each
    of its posts was accepted, the call returned `0`, the completions of its writes were
    handled, and what they woke is done. -/
structure Delivered (workerCount : Nat) (capacity : BitVec 32) (s : Transport) (q : Nat)
    (call : SendCall) : Prop where
  run : (transportSystem workerCount capacity).Reach
    (fun s a => SendGuard call.serverKey s a ∧ Untroubled q call.serverKey s a) s
  owns : s.OwnsId q call.serverKey
  made : prepareSend q true call true = some (s.reqs q).prep
  accepted : ∀ e ∈ sendPosts q s.trace, e.accepted = true
  returned : ∃ st, (s.reqs q).caller = .returned true st
  handled : ∀ k queue wr st, .post q .write k queue wr st ∈ s.trace → wr.userCtx ∉ s.outstanding
  served : ∀ u, ¬ s.pool.HasWakeUp call.serverKey u

namespace Delivered

variable {call : SendCall}

/-- The whole schedule is posted. -/
theorem places (h : Delivered workerCount capacity s q call) :
    (sendPosts q s.trace).filterMap Event.place = schedule (s.reqs q).prep.chunks.length := by
  obtain ⟨-, -, -, jettyInfo, localSrc, remoteDst, chunks, -, -, -, -, -, hp⟩ := prepareSend_eq_some h.made
  obtain ⟨st, hret⟩ := h.returned
  have hinfo : (s.reqs q).prep.urmaInfo =
      .write (buildWriteInfo jettyInfo localSrc remoteDst call.serverKey call.clientKey) := by
    rw [hp]
    rfl
  exact (pipeline_complete h.run h.owns hinfo h.accepted hret h.handled h.served).1

/-- Each byte is copied once, to the same offset.  The chunks of a send are consecutive, so their
    bytes put together are those of the whole buffer. -/
theorem copies (h : Delivered workerCount capacity s q call) {localSrc remoteDst : OstBufferInfo}
    (hsrc : call.localSrc = some localSrc) (hdst : call.remoteDst = some remoteDst) :
    (workRequests q s.trace).flatMap UrmaJfsWr.copies =
      byteCopies localSrc.addr remoteDst.addr (List.range call.len.toNat) := by
  obtain ⟨-, -, -, jettyInfo, localSrc', remoteDst', chunks, -, hsrc', hdst', hsplit, htwo, hp⟩ :=
    prepareSend_eq_some h.made
  obtain rfl := Option.some.inj (hsrc.symm.trans hsrc')
  obtain rfl := Option.some.inj (hdst.symm.trans hdst')
  have hchunks : (s.reqs q).prep.chunks = chunks := by
    rw [hp]
    rfl
  obtain ⟨h₁, h₂, hlength, hchunk⟩ := commonSplitChunks_eq_some hsplit (by omega)
  have hposts : ∀ op k queue wr st, .post q op k queue wr st ∈ s.trace →
      UrmaJfsWr.copies wr = placeCopies chunks (op, k) := by
    intro op k queue wr st hpost
    obtain ⟨-, writeInfo, -, hwr⟩ := posted_reach h.run q _ _ _ _ _ hpost
    rw [hchunks] at hwr
    exact copies_of_sendWr hwr
  rw [flatMap_of_places _ _ hposts, h.places, hchunks, schedule_writes]
  have hpiece : ∀ i ∈ List.range chunks.length,
      placeCopies chunks (.write, i) ++ placeCopies chunks (.sendImm, i) =
      byteCopies localSrc.addr remoteDst.addr
        ((List.range (min 2097152 (call.len.toNat - i * 2097152))).map (i * 2097152 + ·)) := by
    intro i hi
    have hget := List.getElem?_eq_getElem (List.mem_range.mp hi)
    obtain ⟨hs, hd, hl⟩ := hchunk i _ hget
    rw [placeCopies, placeCopies, hget, List.append_nil, ← byteCopies_shift, ← hs, ← hd, ← hl]
    rfl
  rw [List.flatMap_congr hpiece]
  show (List.range chunks.length).flatMap (fun i => List.map _ _) = _
  rw [← List.map_flatMap, range_tiles, hlength]
  have hmax := maxLen_eq
  rw [show min call.len.toNat ((call.len.toNat + 2097151) / 2097152 * 2097152) = call.len.toNat by omega]
  rfl

/-- One notification a chunk.  In the order of the chunks, each with its tag under the client's
    key. -/
theorem announces (h : Delivered workerCount capacity s q call) :
    (workRequests q s.trace).flatMap UrmaJfsWr.announces =
      (List.range (s.reqs q).prep.chunks.length).map fun i =>
        (chunkTag ((encodeRequestId call.clientKey).setWidth 60) (s.reqs q).prep.chunks.length i).userCtx := by
  have hposts : ∀ op k queue wr st, .post q op k queue wr st ∈ s.trace →
      UrmaJfsWr.announces wr =
        placeAnnounces call.clientKey (s.reqs q).prep.chunks.length (op, k) := by
    intro op k queue wr st hpost
    cases op with
    | write =>
      obtain ⟨-, writeInfo, -, hwr⟩ := posted_reach h.run q _ _ _ _ _ hpost
      rw [(sendWr_eq writeInfo _ .write k).1] at hwr
      obtain ⟨-, hwr⟩ := urmaWriteInternal_eq_some.mp hwr
      obtain ⟨c, -, rfl⟩ := Option.map_eq_some_iff.mp hwr
      rfl
    | sendImm =>
      unfold UrmaJfsWr.announces
      rw [notify_payload h.run h.made hpost]
      rfl
  rw [flatMap_of_places _ _ hposts, h.places, schedule_writes, List.map_eq_flatMap]
  rfl

/-- The notifications are what the receiver's tasks wait for. -/
theorem announces_recv (h : Delivered workerCount capacity s q call) {q' : Nat} {recv : RecvCall}
    {mem : Bool} {p : Prepared} (hlen : recv.len = call.len)
    (hrecv : prepareRecv q' true recv mem = some p) :
    ((workRequests q s.trace).flatMap UrmaJfsWr.announces).length = p.tasks.length ∧
      (recv.clientKey = call.clientKey →
        ((workRequests q s.trace).flatMap UrmaJfsWr.announces).map
          (fun imm => (receivedUserData imm).userCtx) = p.tasks.map ThreadPoolTask.matchUserCtx) := by
  obtain ⟨-, -, hkey, _, _, _, chunks, -, -, -, hsplit, -, hp⟩ := prepareSend_eq_some h.made
  obtain ⟨-, -, _, _, chunks', -, -, hsplit', -, rfl⟩ := prepareRecv_eq_some hrecv
  have hchunks : (s.reqs q).prep.chunks = chunks := by
    rw [hp]
    rfl
  rw [hlen] at hsplit'
  have hcount := commonSplitChunks_length_eq hsplit hsplit'
  rw [h.announces, hchunks]
  refine ⟨?_, ?_⟩
  · simp only [recvRequest, registerRecvTasks, List.length_map, List.length_range, hcount]
  · intro hclient
    simp only [recvRequest, registerRecvTasks, List.map_map, hcount]
    refine List.map_congr_left fun i _ => ?_
    show (receivedUserData _).userCtx = expectedImm64 recv.clientKey chunks.length i
    rw [hclient]
    exact received_eq_expected hkey fun _ _ => rfl

end Delivered

end Memory

/-! ## The same transfers

For which lengths both sides go through. -/

/-- A length the two sides treat alike.  Whatever else their libraries are doing, a send and a
    receive of that length both return `0`, or neither does, as the length is within the limit
    or not; and a send that is delivered has copied each byte once and notified each task of
    the receiver. -/
structure SameTransfers (len : BitVec 32) : Prop where
  returns : ∀ {workerCount workerCount' : Nat} {capacity capacity' : BitVec 32} {s s' : Transport}
    (q q' : Nat) {send : SendCall} {recv : RecvCall}, 0 < workerCount → 0 < workerCount' →
    (transportSystem workerCount capacity).Reach (fun _ _ => True) s →
    (transportSystem workerCount' capacity').Reach (fun _ _ => True) s' →
    (s.reqs q).caller = .fresh → (s'.reqs q').caller = .fresh →
    send.Valid → recv.Valid → send.len = len → recv.len = len →
    (s.Returns q (.callSend q send true .ok) true ↔
      s'.Returns q' (.callRecv q' recv true .ok) true) ∧
    (s'.Returns q' (.callRecv q' recv true .ok) true ↔
      1 ≤ len.toNat ∧ len.toNat ≤ maxChunkNum * defaultChunkSize.toNat)
  covers : ∀ {workerCount : Nat} {capacity : BitVec 32} {s : Transport} {q : Nat} {call : SendCall},
    Delivered workerCount capacity s q call → call.len = len →
    (∀ localSrc remoteDst, call.localSrc = some localSrc → call.remoteDst = some remoteDst →
      (workRequests q s.trace).flatMap UrmaJfsWr.copies =
        byteCopies localSrc.addr remoteDst.addr (List.range len.toNat)) ∧
    ∀ q' recv mem p, recv.len = len → prepareRecv q' true recv mem = some p →
      ((workRequests q s.trace).flatMap UrmaJfsWr.announces).length = p.tasks.length ∧
      (recv.clientKey = call.clientKey →
        ((workRequests q s.trace).flatMap UrmaJfsWr.announces).map
          (fun imm => (receivedUserData imm).userCtx) = p.tasks.map ThreadPoolTask.matchUserCtx)

/-- A send of `len` bytes. -/
def plainSend (len : BitVec 32) : SendCall :=
  ⟨true, some ⟨some 1, none, some 2⟩, some ⟨0x1000#64, some 3⟩, some ⟨0x2000#64, some 4⟩, len, 7#64,
    8#64, true⟩

/-- A receive of `len` bytes. -/
def plainRecv (len : BitVec 32) : RecvCall :=
  ⟨true, some ⟨0x1000#64, some 3⟩, some ⟨some 5, none, 0x2000#64⟩, len, 8#64, true, some 6⟩

/-- Its arguments are valid, whatever the length. -/
theorem plainSend_valid (len : BitVec 32) : (plainSend len).Valid where
  handle := rfl
  jettyInfo := ⟨_, rfl, .inl rfl⟩
  localSrc := ⟨_, rfl⟩
  remoteDst := ⟨_, rfl⟩
  serverKey := (by decide : isRequestIdValid 7#64 = true)
  clientKey := (by decide : isRequestIdValid 8#64 = true)
  retSyncHandle := rfl

/-- So are these. -/
theorem plainRecv_valid (len : BitVec 32) : (plainRecv len).Valid where
  handle := rfl
  hostSrc := ⟨_, rfl⟩
  deviceDst := ⟨_, rfl, .inr rfl⟩
  clientKey := (by decide : isRequestIdValid 8#64 = true)
  retSyncHandle := rfl
  notifyCallback := rfl

section Returns

variable {workerCount : Nat} {capacity : BitVec 32} {s : Transport} {q : Nat}

/-- A send returns `0` exactly when it is cut into 2 to 7 chunks. -/
theorem send_returns_iff (hpos : 0 < workerCount)
    (h : (transportSystem workerCount capacity).Reach (fun _ _ => True) s)
    (hfresh : (s.reqs q).caller = .fresh) {call : SendCall} (hcall : call.Valid) :
    s.Returns q (.callSend q call true .ok) true ↔
      defaultChunkSize.toNat < call.len.toNat ∧
        call.len.toNat ≤ maxChunkNum * defaultChunkSize.toNat := by
  rw [returns_iff h hpos (.send q call true .ok) hfresh fun p hp => postable_of_send hcall hp]
  exact prepareSend_isSome_iff hcall

/-- A receive returns `0` exactly when it is cut into 1 to 7 chunks. -/
theorem recv_returns_iff (hpos : 0 < workerCount)
    (h : (transportSystem workerCount capacity).Reach (fun _ _ => True) s)
    (hfresh : (s.reqs q).caller = .fresh) {call : RecvCall} (hcall : call.Valid) :
    s.Returns q (.callRecv q call true .ok) true ↔
      1 ≤ call.len.toNat ∧ call.len.toNat ≤ maxChunkNum * defaultChunkSize.toNat := by
  rw [returns_iff h hpos (.recv q call true .ok) hfresh fun p hp => postable_of_recv hp]
  exact prepareRecv_isSome_iff hcall

end Returns

/-- A single chunk can be received and cannot be sent.  So one side returns `0` and the other
    `-1`. -/
theorem not_sameTransfers_of_single {len : BitVec 32} (h₁ : 1 ≤ len.toNat)
    (h₂ : len.toNat ≤ defaultChunkSize.toNat) : ¬ SameTransfers len := by
  intro hsame
  have hstart : (transportSystem 1 1#32).Reach (fun _ _ => True) (Transport.start 1 1#32) := .init rfl
  obtain ⟨hboth, hrange⟩ := hsame.returns 0 1 Nat.one_pos Nat.one_pos hstart hstart rfl
    rfl (plainSend_valid len) (plainRecv_valid len) rfl rfl
  have hmax := maxLen_eq
  have hsize := defaultChunkSize_toNat
  have hsend := (send_returns_iff (q := 0) Nat.one_pos hstart rfl (plainSend_valid len)).mp
    (hboth.mpr (hrange.mpr ⟨h₁, by omega⟩))
  have hlow : defaultChunkSize.toNat < len.toNat := hsend.1
  omega

/-- **Send and receive support the same transfers**, exactly apart from those of a single chunk.
    Lengths of no byte and lengths above the limit are refused on both sides. -/
theorem same_transfers_iff (len : BitVec 32) :
    SameTransfers len ↔ ¬ (1 ≤ len.toNat ∧ len.toNat ≤ defaultChunkSize.toNat) := by
  constructor
  · rintro hsame ⟨h₁, h₂⟩
    exact not_sameTransfers_of_single h₁ h₂ hsame
  · intro hlen
    refine ⟨?_, ?_⟩
    · intro workerCount workerCount' capacity capacity' s s' q q' send recv hpos hpos' h h' hfresh
        hfresh' hsend hrecv hslen hrlen
      rw [send_returns_iff hpos h hfresh hsend, recv_returns_iff hpos' h' hfresh' hrecv, hslen, hrlen]
      have hsize := defaultChunkSize_toNat
      refine ⟨?_, Iff.rfl⟩
      constructor
      · rintro ⟨hlow, hhigh⟩
        exact ⟨by omega, hhigh⟩
      · rintro ⟨hlow, hhigh⟩
        exact ⟨by omega, hhigh⟩
    · rintro workerCount capacity s q call hdelivered rfl
      refine ⟨fun localSrc remoteDst hsrc hdst => hdelivered.copies hsrc hdst, ?_⟩
      intro q' recv mem p hrlen hp
      exact hdelivered.announces_recv hrlen hp

/-- 16 bytes are received and not sent. -/
theorem single_chunk_refused : ¬ SameTransfers 16#32 :=
  not_sameTransfers_of_single (by decide) (by decide)

end OsTransport
