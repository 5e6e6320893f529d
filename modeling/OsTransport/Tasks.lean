/-
  The tasks of a request and the work requests they post.

  A request of `n` chunks registers `n` tasks.  The argument of a task lives in the array
  `task_args` of its request, and what the pool carries is the address of one element:
  `ArgPtr`, the request and the index.  A pointer to an object of the URMA library is an
  opaque `Ptr`.

  The two sides of a transfer build their tags separately.  The sender first gives task `i` the
  tags of chunk `i + 1` and then moves every client tag one task up (`shiftClientTags`), so that
  task `i` announces chunk `i` and then writes chunk `i + 1`; the receiver computes the tag it
  expects from the index.  `registerSendArgs_getElem` and `registerRecvArgs_getElem` say what
  each ends up with, and `received_eq_expected` that the two agree through an encoding whose middle
  bits the network may overwrite.

  `wire_agreement` is the result: for each chunk, the immediate the sender posts, after any transit,
  is the key the receiver has given to the task of that chunk, and to no other of its tasks.  The
  bits are compared one by one, through the lemmas of `OsTransport.UserData`.
-/
import OsTransport.Pool

namespace OsTransport

/-! ## Data

What the arguments of tasks are made of, field by field as in the source. -/

/-- A pointer to an object of the URMA library; `none` is `NULL`. -/
abbrev Ptr := Option Nat

/-- `chunk_info_t`. -/
structure ChunkInfo where
  src : BitVec 64
  dst : BitVec 64
  len : BitVec 32
  deriving DecidableEq, Repr

/-- `urma_jetty_info_t`. -/
structure UrmaJettyInfo where
  jfs : Ptr
  jetty : Ptr
  tjetty : Ptr
  deriving DecidableEq, Repr

/-- `ost_buffer_info_t`. -/
structure OstBufferInfo where
  addr : BitVec 64
  tseg : Ptr
  deriving DecidableEq, Repr

/-- `ost_device_info_t`. -/
structure OstDeviceInfo where
  jfr : Ptr
  jetty : Ptr
  dst : BitVec 64
  deriving DecidableEq, Repr

/-- `urma_write_info_t`. -/
structure UrmaWriteInfo where
  jfs : Ptr
  jetty : Ptr
  targetJfr : Ptr
  dstTseg : Ptr
  srcTseg : Ptr
  userCtxServer : UserData
  userCtxClient : UserData
  deriving DecidableEq, Repr

/-- `urma_recv_info_t`. -/
structure UrmaRecvInfo where
  jfr : Ptr
  jetty : Ptr
  localTseg : Ptr
  deviceInfo : OstDeviceInfo
  requestId : ReqId
  deriving DecidableEq, Repr

/-- `&task_args[index]` of request `sync`. -/
structure ArgPtr where
  sync : Nat
  index : Nat
  deriving DecidableEq, Repr

/-- `send_task_arg_t`, without the pointer back to the request. -/
structure SendTaskArg where
  chunkInfo : Option ChunkInfo
  isLastChunk : Bool
  writeInfo : UrmaWriteInfo
  deriving DecidableEq, Repr

/-- `recv_task_arg_t`, without the pointer back to the request. -/
structure RecvTaskArg where
  chunkInfo : ChunkInfo
  isLastChunk : Bool
  recvInfo : UrmaRecvInfo
  notifyCallback : Option Nat
  expectedImm64 : BitVec 64
  notifyUserData : UserData
  deriving DecidableEq, Repr

/-! ## Splitting

`common_split_chunks`, with its 32-bit arithmetic and its limit. -/

/-- `common_split_chunks`, in the arithmetic of `uint32_t`.  `alloc` is whether the `malloc` of the
    chunk array succeeds. -/
def commonSplitChunks (srcAddr dstAddr : BitVec 64) (len : BitVec 32) (alloc : Bool) :
    Option (List ChunkInfo) :=
  let chunksNum := (len + defaultChunkSize - 1#32) / defaultChunkSize
  if chunksNum.toNat > maxChunkNum || !alloc then none
  else some <| (List.range chunksNum.toNat).map fun i =>
    let offset := BitVec.ofNat 32 i * defaultChunkSize
    { src := srcAddr + offset.setWidth 64
      dst := dstAddr + offset.setWidth 64
      len := if len - offset > defaultChunkSize then defaultChunkSize else len - offset }

theorem commonSplitChunks_length_le {srcAddr dstAddr : BitVec 64} {len : BitVec 32} {alloc : Bool}
    {chunks : List ChunkInfo} (h : commonSplitChunks srcAddr dstAddr len alloc = some chunks) :
    chunks.length ≤ maxChunkNum := by
  simp only [commonSplitChunks, Option.ite_none_left_eq_some, Bool.or_eq_true, not_or,
    decide_eq_true_eq, Option.some.injEq] at h
  obtain ⟨⟨hle, -⟩, rfl⟩ := h
  rw [List.length_map, List.length_range]
  omega

/-- The chunk count depends on the length alone. -/
theorem commonSplitChunks_length_eq {src dst src' dst' : BitVec 64} {len : BitVec 32}
    {alloc alloc' : Bool} {chunks chunks' : List ChunkInfo}
    (h : commonSplitChunks src dst len alloc = some chunks)
    (h' : commonSplitChunks src' dst' len alloc' = some chunks') :
    chunks'.length = chunks.length := by
  simp only [commonSplitChunks, Option.ite_none_left_eq_some, Option.some.injEq] at h h'
  obtain ⟨-, rfl⟩ := h
  obtain ⟨-, rfl⟩ := h'
  simp only [List.length_map, List.length_range]

/-! ## Arguments of send tasks

All arguments are built first, and then the client tags are moved up by one. -/

/-- `build_write_info`. -/
def buildWriteInfo (jettyInfo : UrmaJettyInfo) (localSrc remoteDst : OstBufferInfo)
    (serverKey clientKey : ReqId) : UrmaWriteInfo where
  jfs := jettyInfo.jfs
  jetty := jettyInfo.jetty
  targetJfr := jettyInfo.tjetty
  dstTseg := remoteDst.tseg
  srcTseg := localSrc.tseg
  userCtxServer := ⟨serverKey.setWidth 60, ChunkType.middleChunk.bits, 0#3⟩
  userCtxClient := ⟨(encodeRequestId clientKey).setWidth 60, ChunkType.middleChunk.bits, 0#3⟩

/-- `construct_send_task_arg`. -/
def constructSendTaskArg (writeInfo : UrmaWriteInfo) (chunkInfo : Option ChunkInfo) (chunkId : Nat)
    (isLastChunk : Bool) : SendTaskArg :=
  let chunkType := (ChunkType.ofLast isLastChunk).bits
  { chunkInfo
    isLastChunk
    writeInfo := { writeInfo with
      userCtxServer := ⟨writeInfo.userCtxServer.requestId, chunkType, BitVec.ofNat 3 chunkId⟩
      userCtxClient := ⟨writeInfo.userCtxClient.requestId, chunkType, BitVec.ofNat 3 chunkId⟩ } }

/-- `arg.write_info.user_ctx_client.bs = tag`. -/
def SendTaskArg.setClient (arg : SendTaskArg) (tag : UserData) : SendTaskArg :=
  { arg with writeInfo := { arg.writeInfo with userCtxClient := tag } }

/-- The loop of `register_send_tasks` that moves the client tags, from task `i` down to task 1. -/
def shiftClientTags : Nat → List SendTaskArg → List SendTaskArg
  | 0, args => args
  | i + 1, args =>
    match args[i]? with
    | some prev => shiftClientTags i (args.modify (i + 1) (·.setClient prev.writeInfo.userCtxClient))
    | none => args

/-- The arguments `register_send_tasks` leaves in `task_args`. -/
def registerSendArgs (writeInfo : UrmaWriteInfo) (chunks : List ChunkInfo) : List SendTaskArg :=
  let taskNum := chunks.length
  let args := (List.range taskNum).map fun i =>
    constructSendTaskArg writeInfo chunks[i + 1]? (i + 1) (decide (i + 1 ≥ taskNum - 1))
  (shiftClientTags (taskNum - 1) args).modify 0 (·.setClient writeInfo.userCtxClient)

/-- `construct_worker_task`. -/
def constructWorkerTask (taskId : Nat) (requestId : ReqId) (taskArg : ArgPtr) :
    ThreadPoolTask ArgPtr where
  taskId := BitVec.ofNat 64 taskId
  requestId := requestId
  taskArg := taskArg
  hasMatchUserCtx := false
  matchUserCtx := 0#64

/-- The tasks `register_send_tasks` submits. -/
def registerSendTasks (writeInfo : UrmaWriteInfo) (chunks : List ChunkInfo) (sync : Nat) :
    List (ThreadPoolTask ArgPtr) :=
  (List.range chunks.length).map fun i =>
    constructWorkerTask (i + 1) (writeInfo.userCtxServer.requestId.setWidth 64) ⟨sync, i⟩

/-! ## Arguments of receive tasks

The expected immediate of each chunk is the match key of its task. -/

/-- The tag task `i` of `n` expects: `expected_imm64` of `register_recv_tasks`. -/
def expectedImm64 (requestId : ReqId) (n i : Nat) : BitVec 64 :=
  makeTransportUserDataRaw64 requestId i (.ofLast (i == n - 1))

/-- The arguments `register_recv_tasks` leaves in `task_args` (`construct_recv_task_arg`). -/
def registerRecvArgs (recvInfo : UrmaRecvInfo) (chunks : List ChunkInfo)
    (notifyCallback : Option Nat) : List RecvTaskArg :=
  chunks.mapIdx fun i chunkInfo =>
    { chunkInfo
      isLastChunk := i == chunks.length - 1
      recvInfo
      notifyCallback
      expectedImm64 := expectedImm64 recvInfo.requestId chunks.length i
      notifyUserData := UserData.ofUserCtx 0#64 }

/-- The tasks `register_recv_tasks` submits. -/
def registerRecvTasks (recvInfo : UrmaRecvInfo) (chunks : List ChunkInfo) (sync : Nat) :
    List (ThreadPoolTask ArgPtr) :=
  (List.range chunks.length).map fun i =>
    { constructWorkerTask i recvInfo.requestId ⟨sync, i⟩ with
      hasMatchUserCtx := true
      matchUserCtx := expectedImm64 recvInfo.requestId chunks.length i }

/-- `prepare_recv_task_user_data`: a tag that is not the expected one is logged and used. -/
def prepareRecvTaskUserData (arg : RecvTaskArg) (userData : BitVec 64) : RecvTaskArg :=
  { arg with notifyUserData := UserData.ofUserCtx userData }

/-! ## Work requests

What `urma_write_*` make of an argument, before the library is called; a missing pointer is refused
there. -/

/-- `urma_status_t`. -/
abbrev UrmaStatus := Int

def urmaSuccess : UrmaStatus := 0

/-- `URMA_FAIL`. -/
def urmaFail : UrmaStatus := -1

/-- `URMA_ENOMEM`. -/
def urmaEnomem : UrmaStatus := -7

/-- The opcodes `urma_write_internal` is called with. -/
inductive UrmaOpcode
  | write
  | sendImm
  deriving DecidableEq, Repr

/-- `urma_sge_t`. -/
structure UrmaSge where
  addr : BitVec 64
  len : BitVec 32
  tseg : Ptr
  deriving DecidableEq, Repr

/-- The union in `urma_jfs_wr_t`: the two ends of a write, or the immediate of a send. -/
inductive UrmaPayload
  | rw (src dst : UrmaSge)
  | send (immData : BitVec 64)
  deriving DecidableEq, Repr

/-- `urma_jfs_wr_t`. -/
structure UrmaJfsWr where
  tjetty : Ptr
  userCtx : BitVec 64
  payload : UrmaPayload
  deriving DecidableEq, Repr

/-- Where a send-side work request is posted. -/
inductive SendQueue
  | jfs (jfs : Nat)
  | jetty (jetty : Nat)
  deriving DecidableEq, Repr

/-- `jfs` if there is one, else `jetty`. -/
def sendQueue (writeInfo : UrmaWriteInfo) : Option SendQueue :=
  match writeInfo.jfs, writeInfo.jetty with
  | some jfs, _ => some (.jfs jfs)
  | none, some jetty => some (.jetty jetty)
  | none, none => none

/-- The work request `urma_write_internal` builds; `none` for a write without a chunk. -/
def writeWr (writeInfo : UrmaWriteInfo) (chunkInfo : Option ChunkInfo) : UrmaOpcode → Option UrmaJfsWr
  | .write =>
    chunkInfo.map fun chunk =>
      { tjetty := writeInfo.targetJfr
        userCtx := writeInfo.userCtxServer.userCtx
        payload := .rw ⟨chunk.src, chunk.len, writeInfo.srcTseg⟩ ⟨chunk.dst, chunk.len, writeInfo.dstTseg⟩ }
  | .sendImm =>
    some
      { tjetty := writeInfo.targetJfr
        -- tells the local completion of a notify from that of a write
        userCtx := { writeInfo.userCtxServer with chunkId := BitVec.ofNat 3 maxChunkNum }.userCtx
        payload := .send writeInfo.userCtxClient.userCtx }

/-- `urma_write_internal` up to the post: what it posts where, or `none` if it returns `URMA_FAIL`
    without posting. -/
def urmaWriteInternal (writeInfo : UrmaWriteInfo) (chunkInfo : Option ChunkInfo)
    (opcode : UrmaOpcode) : Option (SendQueue × UrmaJfsWr) :=
  match sendQueue writeInfo, writeWr writeInfo chunkInfo opcode with
  | some queue, some wr => some (queue, wr)
  | _, _ => none

/-- `urma_write_chunk`. -/
def urmaWriteChunk (writeInfo : UrmaWriteInfo) (chunkInfo : Option ChunkInfo) :
    Option (SendQueue × UrmaJfsWr) :=
  urmaWriteInternal writeInfo chunkInfo .write

/-- `urma_write_notify`. -/
def urmaWriteNotify (writeInfo : UrmaWriteInfo) (chunkInfo : Option ChunkInfo) :
    Option (SendQueue × UrmaJfsWr) :=
  urmaWriteInternal writeInfo chunkInfo .sendImm

/-! ## What the arguments end up with

The loops of both sides, read off at one index. -/

@[simp] theorem shiftClientTags_length (i : Nat) (args : List SendTaskArg) :
    (shiftClientTags i args).length = args.length := by
  induction i generalizing args with
  | zero => rfl
  | succ i ih =>
    rw [shiftClientTags]
    split
    · rw [ih, List.length_modify]
    · rfl

/-- The loop leaves the argument it never reaches and those above its start. -/
theorem shiftClientTags_getElem_other (i : Nat) (args : List SendTaskArg) (k : Nat)
    (hk : k = 0 ∨ i < k) : (shiftClientTags i args)[k]? = args[k]? := by
  induction i generalizing args with
  | zero => rfl
  | succ i ih =>
    rw [shiftClientTags]
    split
    · rw [ih _ (by omega), List.getElem?_modify_ne _ _ (by omega)]
    · rfl

/-- Every argument in between receives the client tag its predecessor had before the loop. -/
theorem shiftClientTags_getElem_succ (i : Nat) (args : List SendTaskArg) {k : Nat} (hk : k + 1 ≤ i)
    {prev arg : SendTaskArg} (hprev : args[k]? = some prev) (harg : args[k + 1]? = some arg)
    (hi : i < args.length) :
    (shiftClientTags i args)[k + 1]? = some (arg.setClient prev.writeInfo.userCtxClient) := by
  induction i generalizing args with
  | zero => omega
  | succ i ih =>
    rw [shiftClientTags, List.getElem?_eq_getElem (show i < args.length by omega)]
    simp only
    by_cases hki : k = i
    · subst hki
      rw [shiftClientTags_getElem_other _ _ _ (.inr (Nat.lt_succ_self k)), List.getElem?_modify_eq, harg]
      rw [List.getElem?_eq_getElem (by omega)] at hprev
      rw [Option.some.inj hprev]
      rfl
    · refine ih _ (by omega) ?_ ?_ (by rw [List.length_modify]; omega)
      · rw [List.getElem?_modify_ne _ _ (by omega), hprev]
      · rw [List.getElem?_modify_ne _ _ (by omega), harg]

/-- The tag of chunk `i` of `n`. -/
def chunkTag (requestId : BitVec 60) (n i : Nat) : UserData :=
  ⟨requestId, (ChunkType.ofLast (i == n - 1)).bits, BitVec.ofNat 3 i⟩

/-- The send task `i` of `n`: it announces chunk `i` and then writes chunk `i + 1`, under the local
    tag of the latter.  The last task has no chunk to write. -/
def sendTaskArg (writeInfo : UrmaWriteInfo) (chunks : List ChunkInfo) (i : Nat) : SendTaskArg :=
  let n := chunks.length
  { chunkInfo := chunks[i + 1]?
    isLastChunk := decide (i + 1 ≥ n - 1)
    writeInfo := { writeInfo with
      userCtxServer :=
        ⟨writeInfo.userCtxServer.requestId, (ChunkType.ofLast (decide (i + 1 ≥ n - 1))).bits,
          BitVec.ofNat 3 (i + 1)⟩
      userCtxClient := chunkTag writeInfo.userCtxClient.requestId n i } }

theorem registerSendArgs_length (writeInfo : UrmaWriteInfo) (chunks : List ChunkInfo) :
    (registerSendArgs writeInfo chunks).length = chunks.length := by
  simp [registerSendArgs]

theorem registerSendArgs_getElem {jettyInfo : UrmaJettyInfo} {localSrc remoteDst : OstBufferInfo}
    {serverKey clientKey : ReqId} {chunks : List ChunkInfo} (hn : 2 ≤ chunks.length) {i : Nat}
    (hi : i < chunks.length) :
    (registerSendArgs (buildWriteInfo jettyInfo localSrc remoteDst serverKey clientKey) chunks)[i]?
      = some (sendTaskArg (buildWriteInfo jettyInfo localSrc remoteDst serverKey clientKey)
          chunks i) := by
  simp only [registerSendArgs]
  cases i with
  | zero =>
    rw [List.getElem?_modify_eq, shiftClientTags_getElem_other _ _ _ (.inl rfl),
      List.getElem?_map, List.getElem?_range hi]
    have hmid : ((0 : Nat) == chunks.length - 1) = false := by
      rw [beq_eq_false_iff_ne]; omega
    simp only [Option.map_some, sendTaskArg, chunkTag, hmid]
    rfl
  | succ k =>
    rw [List.getElem?_modify_ne _ _ (Nat.succ_ne_zero k).symm]
    rw [shiftClientTags_getElem_succ (chunks.length - 1) _ (k := k) (by omega)
      (by rw [List.getElem?_map, List.getElem?_range (by omega)]; rfl)
      (by rw [List.getElem?_map, List.getElem?_range (by omega)]; rfl)
      (by rw [List.length_map, List.length_range]; omega)]
    have hlast : decide (k + 1 ≥ chunks.length - 1) = (k + 1 == chunks.length - 1) := by
      rw [Bool.eq_iff_iff, decide_eq_true_eq, beq_iff_eq]
      omega
    simp only [SendTaskArg.setClient, constructSendTaskArg, sendTaskArg, chunkTag, hlast]

theorem registerRecvArgs_getElem {recvInfo : UrmaRecvInfo} {chunks : List ChunkInfo}
    {cb : Option Nat} {i : Nat} {arg : RecvTaskArg}
    (h : (registerRecvArgs recvInfo chunks cb)[i]? = some arg) :
    arg.expectedImm64 = expectedImm64 recvInfo.requestId chunks.length i := by
  simp only [registerRecvArgs, List.getElem?_mapIdx, Option.map_eq_some_iff] at h
  obtain ⟨chunk, -, rfl⟩ := h
  rfl

theorem registerRecvTasks_getElem {recvInfo : UrmaRecvInfo} {chunks : List ChunkInfo} {sync i : Nat}
    {task : ThreadPoolTask ArgPtr} (h : (registerRecvTasks recvInfo chunks sync)[i]? = some task) :
    i < chunks.length ∧ task.matchUserCtx = expectedImm64 recvInfo.requestId chunks.length i := by
  simp only [registerRecvTasks, List.getElem?_map, Option.map_eq_some_iff] at h
  obtain ⟨j, hj, rfl⟩ := h
  obtain ⟨hlt, rfl⟩ := List.getElem?_eq_some_iff.mp hj
  simp only [List.getElem_range, List.length_range] at hlt ⊢
  exact ⟨hlt, trivial⟩

/-! ## The two sides agree

The tag a receiver expects of a chunk is the tag its sender announces it with, whatever happened to
the bits between on the way. -/

theorem expectedImm64_inj {r r' : ReqId} (hr : isRequestIdValid r = true)
    (hr' : isRequestIdValid r' = true) {n n' i i' : Nat} (hi : i < 8) (hi' : i' < 8)
    (h : expectedImm64 r n i = expectedImm64 r' n' i') : r = r' ∧ i = i' := by
  unfold expectedImm64 makeTransportUserDataRaw64 at h
  obtain ⟨hid, -, hchunk⟩ := UserData.mk.inj (UserData.userCtx_inj.mp h)
  constructor
  · apply BitVec.eq_of_getLsbD_eq
    intro j hj
    by_cases h60 : j < 60
    · have hbit := congrArg (fun x => x.getLsbD j) hid
      simpa [BitVec.getLsbD_setWidth, h60] using hbit
    · rw [getLsbD_of_valid hr (by omega), getLsbD_of_valid hr' (by omega)]
  · have hnat := congrArg BitVec.toNat hchunk
    simp only [BitVec.toNat_ofNat] at hnat
    omega

/-- Decoding an id field that agrees with an encoded id outside bits 39..20 gives the id back. -/
theorem decode_of_agrees {r e : ReqId} (hr : isRequestIdValid r = true)
    (he : ∀ i, i < 60 → ¬(20 ≤ i ∧ i < 40) → e.getLsbD i = (encodeRequestId r).getLsbD i) :
    decodeRequestId e = r := by
  have hcongr : decodeRequestId e = decodeRequestId (encodeRequestId r) := by
    apply decodeRequestId_congr
    rintro i (hi | ⟨h40, h60⟩)
    · exact he i (by omega) (by omega)
    · exact he i h60 (by omega)
  rw [hcongr, decode_encode hr]

/-- The receive path recovers the tag the receiver expects, whatever the network put into bits
    39..20 of the immediate. -/
theorem received_eq_expected {clientKey : ReqId} (hkey : isRequestIdValid clientKey = true)
    {n k : Nat} {imm : BitVec 64}
    (himm : ∀ i, ¬(20 ≤ i ∧ i < 40) → imm.getLsbD i =
      (chunkTag ((encodeRequestId clientKey).setWidth 60) n k).userCtx.getLsbD i) :
    (receivedUserData imm).userCtx = expectedImm64 clientKey n k := by
  unfold expectedImm64 makeTransportUserDataRaw64
  rw [UserData.userCtx_inj]
  simp only [receivedUserData, UserData.ofUserCtx, UserData.mk.injEq]
  refine ⟨?_, ?_, ?_⟩
  · congr 1
    refine decode_of_agrees hkey fun i hi60 hi => ?_
    have hbit := himm i hi
    rw [UserData.userCtx_getLsbD, if_pos hi60] at hbit
    simpa [chunkTag, BitVec.getLsbD_setWidth, BitVec.getLsbD_extractLsb', hi60,
      show i < 64 by omega] using hbit
  · ext i hi
    obtain rfl : i = 0 := by omega
    have hbit := himm 60 (by omega)
    rw [UserData.userCtx_getLsbD, if_neg (by omega), if_pos (by omega)] at hbit
    simpa [chunkTag] using hbit
  · ext i hi
    have hbit := himm (61 + i) (by omega)
    rw [UserData.userCtx_getLsbD, if_neg (by omega), if_neg (by omega)] at hbit
    simpa [chunkTag, hi] using hbit

/-- The id of another valid request, or another chunk, gives another expected tag. -/
theorem expectedImm64_ne {r r' : ReqId} (hr : isRequestIdValid r = true)
    (hr' : isRequestIdValid r' = true) {n n' i i' : Nat} (hi : i < 8) (hi' : i' < 8)
    (hne : r ≠ r' ∨ i ≠ i') : expectedImm64 r n i ≠ expectedImm64 r' n' i' := by
  intro h
  obtain ⟨hrr, hii⟩ := expectedImm64_inj hr hr' hi hi' h
  rcases hne with hne | hne
  · exact hne hrr
  · exact hne hii

/-- What a send task posts with its notify, on a usable send queue. -/
theorem urmaWriteNotify_sendTaskArg {writeInfo : UrmaWriteInfo} {queue : SendQueue}
    (hq : sendQueue writeInfo = some queue) (chunks : List ChunkInfo) (k : Nat) :
    ∃ wr, urmaWriteNotify (sendTaskArg writeInfo chunks k).writeInfo
        (sendTaskArg writeInfo chunks k).chunkInfo = some (queue, wr) ∧
      wr.payload =
        .send (chunkTag writeInfo.userCtxClient.requestId chunks.length k).userCtx := by
  have hq' : sendQueue (sendTaskArg writeInfo chunks k).writeInfo = some queue := hq
  simp only [urmaWriteNotify, urmaWriteInternal, hq', writeWr]
  exact ⟨_, rfl, rfl⟩

/-- Wire agreement.  A transfer of one length is split by both sides.  Take the immediate that send
    task `k` posts with its notify, let the network overwrite bits 39..20, and decode it: the
    result is the match key and the expected immediate of receive task `k`, and of no other
    receive task of this request or of a request with another valid id.  Decoding undoes encoding
    on valid ids, and encoding undoes decoding exactly on encoded ids. -/
theorem wire_agreement {jettyInfo : UrmaJettyInfo} {localSrc remoteDst : OstBufferInfo}
    {serverKey clientKey : ReqId} {len : BitVec 32} {src dst src' dst' : BitVec 64}
    {chunks recvChunks : List ChunkInfo} {alloc alloc' : Bool} {recvInfo : UrmaRecvInfo}
    (cb : Option Nat) (sync : Nat) {queue : SendQueue}
    (hkey : isRequestIdValid clientKey = true)
    (hsplit : commonSplitChunks src dst len alloc = some chunks)
    (hsplit' : commonSplitChunks src' dst' len alloc' = some recvChunks)
    (hn : 2 ≤ chunks.length) (hrecv : recvInfo.requestId = clientKey)
    (hq : sendQueue (buildWriteInfo jettyInfo localSrc remoteDst serverKey clientKey) = some queue) :
    (∀ k, k < chunks.length →
      ∃ arg wr posted task recvArg,
        (registerSendArgs (buildWriteInfo jettyInfo localSrc remoteDst serverKey clientKey)
          chunks)[k]? = some arg ∧
        urmaWriteNotify arg.writeInfo arg.chunkInfo = some (queue, wr) ∧
        wr.payload = .send posted ∧
        (registerRecvTasks recvInfo recvChunks sync)[k]? = some task ∧
        (registerRecvArgs recvInfo recvChunks cb)[k]? = some recvArg ∧
        ∀ imm : BitVec 64, (∀ i, ¬(20 ≤ i ∧ i < 40) → imm.getLsbD i = posted.getLsbD i) →
          (receivedUserData imm).userCtx = task.matchUserCtx ∧
          (receivedUserData imm).userCtx = recvArg.expectedImm64 ∧
          (∀ j task', (registerRecvTasks recvInfo recvChunks sync)[j]? = some task' → j ≠ k →
            (receivedUserData imm).userCtx ≠ task'.matchUserCtx) ∧
          (∀ (recvInfo' : UrmaRecvInfo) (src'' dst'' : BitVec 64) (len' : BitVec 32)
            (alloc'' : Bool) (chunks' : List ChunkInfo) (sync' j : Nat)
            (task' : ThreadPoolTask ArgPtr),
            isRequestIdValid recvInfo'.requestId = true → recvInfo'.requestId ≠ clientKey →
            commonSplitChunks src'' dst'' len' alloc'' = some chunks' →
            (registerRecvTasks recvInfo' chunks' sync')[j]? = some task' →
            (receivedUserData imm).userCtx ≠ task'.matchUserCtx)) ∧
    (∀ id, isRequestIdValid id = true → decodeRequestId (encodeRequestId id) = id) ∧
    (∀ e, encodeRequestId (decodeRequestId e) = e ↔
      ∃ id, isRequestIdValid id = true ∧ encodeRequestId id = e) := by
  refine ⟨?_, fun id hid => decode_encode hid, encode_decode_iff⟩
  intro k hk
  have hlen : recvChunks.length = chunks.length := commonSplitChunks_length_eq hsplit hsplit'
  have hmax : maxChunkNum = 7 := rfl
  have hle := commonSplitChunks_length_le hsplit
  obtain ⟨wr, hpost, hwr⟩ := urmaWriteNotify_sendTaskArg hq chunks k
  obtain ⟨task, htask⟩ : ∃ task, (registerRecvTasks recvInfo recvChunks sync)[k]? = some task :=
    ⟨_, List.getElem?_eq_getElem (by simp [registerRecvTasks]; omega)⟩
  obtain ⟨recvArg, hrecvArg⟩ : ∃ arg, (registerRecvArgs recvInfo recvChunks cb)[k]? = some arg :=
    ⟨_, List.getElem?_eq_getElem (by simp [registerRecvArgs]; omega)⟩
  refine ⟨_, wr, _, task, recvArg, registerSendArgs_getElem hn hk, hpost, hwr, htask, hrecvArg, ?_⟩
  intro imm himm
  have heq : (receivedUserData imm).userCtx = expectedImm64 clientKey chunks.length k :=
    received_eq_expected hkey himm
  refine ⟨?_, ?_, ?_, ?_⟩
  · rw [heq, (registerRecvTasks_getElem htask).2, hrecv, hlen]
  · rw [heq, registerRecvArgs_getElem hrecvArg, hrecv, hlen]
  · intro j task' hj hjk
    obtain ⟨hj, hmatch⟩ := registerRecvTasks_getElem hj
    rw [heq, hmatch, hrecv]
    exact expectedImm64_ne hkey hkey (by omega) (by omega) (.inr hjk.symm)
  · intro recvInfo' src'' dst'' len' alloc'' chunks' sync' j task' hvalid hne hsp hj
    obtain ⟨hj, hmatch⟩ := registerRecvTasks_getElem hj
    have hle' := commonSplitChunks_length_le hsp
    rw [heq, hmatch]
    exact expectedImm64_ne hkey hvalid (by omega) (by omega) (.inl hne.symm)

/-- The chunks of a transfer of 5 MiB. -/
def threeChunks : List ChunkInfo :=
  [⟨0#64, 64#64, 2097152#32⟩, ⟨2097152#64, 2097216#64, 2097152#32⟩,
    ⟨4194304#64, 4194368#64, 1048576#32⟩]

/-- The last notification of that transfer, with bit 30 flipped on the way, is the tag of receive
    task 2. -/
theorem wire_agreement_three_chunks :
    (receivedUserData ((chunkTag ((encodeRequestId 5#64).setWidth 60) 3 2).userCtx |||
      BitVec.twoPow 64 30)).userCtx = expectedImm64 5#64 3 2 := by
  have hsplit : commonSplitChunks 0#64 64#64 5242880#32 true = some threeChunks := rfl
  have hrecv : UrmaRecvInfo.requestId
      ⟨none, some 3, none, ⟨none, some 3, 64#64⟩, 5#64⟩ = 5#64 := rfl
  have hq : sendQueue (buildWriteInfo ⟨some 1, none, some 2⟩ ⟨0#64, none⟩ ⟨64#64, none⟩ 9#64 5#64)
      = some (.jfs 1) := rfl
  obtain ⟨arg, wr, posted, task, recvArg, harg, hpost, hwr, htask, hrecvArg, hall⟩ :=
    (wire_agreement none 0 rfl hsplit hsplit (by decide) hrecv hq).1 2 (by decide)
  cases harg
  cases hpost
  cases hwr
  cases htask
  refine (hall _ ?_).1
  intro i hi
  have hbit : (BitVec.twoPow 64 30).getLsbD i = false := by
    rw [BitVec.getLsbD_twoPow]
    simp
    omega
  rw [BitVec.getLsbD_or, hbit, Bool.or_false]
  rfl

end OsTransport
