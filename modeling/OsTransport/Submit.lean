/-
  What `os_transport_send` and `os_transport_recv` do before they touch the pool.

  Both check their arguments, split the buffer into chunks and build the tasks of the request;
  nothing outside the call has changed by then, and every failure returns `-1` with
  `*ret_sync_handle` `NULL`.  `prepareSend` and `prepareRecv` are these prefixes: they yield the
  request to register, or `none` when the call has already failed.

  The arguments of a call are kept as the caller passed them, `NULL` pointers included.

  What later modules know of a prepared request is `WellFormed`: one argument and one task for each
  chunk, in order, at least one and at most seven, every task with the id of the request, and that id
  a valid one.  `prepareSend_eq_some` and `prepareRecv_eq_some` say where the parts come from.
-/
import OsTransport.Sync
import OsTransport.PoolSystem

namespace OsTransport

/-! ## Calls

The arguments of the two calls, and the checks on them. -/

/-- The arguments of `os_transport_send`. -/
structure SendCall where
  handle : Bool
  jettyInfo : Option UrmaJettyInfo
  localSrc : Option OstBufferInfo
  remoteDst : Option OstBufferInfo
  len : BitVec 32
  serverKey : ReqId
  clientKey : ReqId
  retSyncHandle : Bool
  deriving DecidableEq, Repr

/-- The arguments of `os_transport_recv`. -/
structure RecvCall where
  handle : Bool
  hostSrc : Option OstBufferInfo
  deviceDst : Option OstDeviceInfo
  len : BitVec 32
  clientKey : ReqId
  retSyncHandle : Bool
  notifyCallback : Option Nat
  deriving DecidableEq, Repr

/-- `validate_send_input`; `inited` is `g_inited`. -/
def validateSendInput (inited : Bool) (call : SendCall) : Bool :=
  call.handle && call.jettyInfo.isSome && call.localSrc.isSome && call.remoteDst.isSome
    && call.retSyncHandle && call.len != 0#32 && inited

/-- `validate_recv_input`. -/
def validateRecvInput (inited : Bool) (call : RecvCall) : Bool :=
  call.handle && call.hostSrc.isSome && call.deviceDst.isSome && call.retSyncHandle
    && call.len != 0#32 && call.notifyCallback.isSome
    && call.deviceDst.any (fun device => device.jetty.isSome || device.jfr.isSome) && inited

/-! ## Requests

What a call has built when it reaches the pool. -/

/-- An element of `task_args`. -/
inductive TaskArg
  | send (arg : SendTaskArg)
  | recv (arg : RecvTaskArg)
  deriving DecidableEq, Repr

/-- `urma_info_t`. -/
inductive UrmaInfo
  | write (writeInfo : UrmaWriteInfo)
  | recv (recvInfo : UrmaRecvInfo)
  deriving DecidableEq, Repr

/-- A request that is ready to be registered: its chunks and its task group. -/
structure Prepared where
  requestId : ReqId
  urmaInfo : UrmaInfo
  chunks : List ChunkInfo
  args : List TaskArg
  tasks : List (ThreadPoolTask ArgPtr)
  deriving DecidableEq, Repr

/-- The arguments of its `thread_pool_submit_batch_tasks`. -/
def Prepared.submission (p : Prepared) : Submission ArgPtr := ⟨false, p.tasks, none, none⟩

/-- The send request of index `q` over the chunks of its buffers. -/
def sendRequest (q : Nat) (serverKey : ReqId) (writeInfo : UrmaWriteInfo)
    (chunks : List ChunkInfo) : Prepared where
  requestId := serverKey
  urmaInfo := .write writeInfo
  chunks := chunks
  args := (registerSendArgs writeInfo chunks).map .send
  tasks := registerSendTasks writeInfo chunks q

/-- The receive request of index `q` over the chunks of its buffers. -/
def recvRequest (q : Nat) (recvInfo : UrmaRecvInfo) (notifyCallback : Option Nat)
    (chunks : List ChunkInfo) : Prepared where
  requestId := recvInfo.requestId
  urmaInfo := .recv recvInfo
  chunks := chunks
  args := (registerRecvArgs recvInfo chunks notifyCallback).map .recv
  tasks := registerRecvTasks recvInfo chunks q

/-- `os_transport_send` up to `thread_pool_submit_batch_tasks`, for request `q`.  `alloc` is whether
    the chunk array, the sync object and the task group can all be allocated. -/
def prepareSend (q : Nat) (inited : Bool) (call : SendCall) (alloc : Bool) : Option Prepared :=
  if !validateSendInput inited call || !isRequestIdValid call.serverKey
      || !isRequestIdValid call.clientKey then none
  else do
    let jettyInfo ← call.jettyInfo
    let localSrc ← call.localSrc
    let remoteDst ← call.remoteDst
    let chunks ← commonSplitChunks localSrc.addr remoteDst.addr call.len alloc
    -- `register_send_tasks` refuses a single chunk
    if chunks.length < 2 then none
    else some (sendRequest q call.serverKey
      (buildWriteInfo jettyInfo localSrc remoteDst call.serverKey call.clientKey) chunks)

/-- `os_transport_recv` up to `thread_pool_submit_batch_tasks`. -/
def prepareRecv (q : Nat) (inited : Bool) (call : RecvCall) (alloc : Bool) : Option Prepared :=
  if !validateRecvInput inited call || !isRequestIdValid call.clientKey then none
  else do
    let hostSrc ← call.hostSrc
    let deviceDst ← call.deviceDst
    let chunks ← commonSplitChunks hostSrc.addr deviceDst.dst call.len alloc
    -- `construct_and_register_worker_task` refuses an empty array
    if chunks.length = 0 then none
    else some (recvRequest q
      ⟨deviceDst.jfr, deviceDst.jetty, hostSrc.tseg, deviceDst, call.clientKey⟩
      call.notifyCallback chunks)

/-! ## What a prepared request looks like

The facts about a prepared request that everything after uses; the two calls are not looked at
again. -/

/-- A prepared request of index `q`: one task and one argument per chunk, in order, every task
    tagged with the request's id. -/
structure Prepared.WellFormed (q : Nat) (p : Prepared) : Prop where
  chunks_pos : 0 < p.chunks.length
  chunks_le : p.chunks.length ≤ maxChunkNum
  args_length : p.args.length = p.chunks.length
  taskArgs : p.tasks.map ThreadPoolTask.taskArg = (List.range p.chunks.length).map (⟨q, ·⟩)
  requestId_eq : ∀ t ∈ p.tasks, t.requestId = p.requestId
  requestId_valid : isRequestIdValid p.requestId = true

theorem Prepared.WellFormed.tasks_length {q : Nat} {p : Prepared} (h : p.WellFormed q) :
    p.tasks.length = p.chunks.length := by
  have hlen := congrArg List.length h.taskArgs
  simpa using hlen

theorem Prepared.WellFormed.tasks_ne_nil {q : Nat} {p : Prepared} (h : p.WellFormed q) :
    p.tasks ≠ [] := by
  have hpos := h.chunks_pos
  rw [← h.tasks_length] at hpos
  exact List.ne_nil_of_length_pos hpos

/-- The tasks of request `q` say so. -/
theorem Prepared.WellFormed.sync_eq {q : Nat} {p : Prepared} (h : p.WellFormed q) {x : ArgPtr}
    (hx : x ∈ p.tasks.map ThreadPoolTask.taskArg) : x.sync = q := by
  rw [h.taskArgs] at hx
  obtain ⟨i, -, rfl⟩ := List.mem_map.mp hx
  rfl

/-- A valid id survives the round trip through the 60-bit field. -/
theorem setWidth_valid {r : ReqId} (hr : isRequestIdValid r = true) :
    (r.setWidth 60).setWidth 64 = r := by
  apply BitVec.eq_of_getLsbD_eq
  intro i hi
  rw [BitVec.getLsbD_setWidth, BitVec.getLsbD_setWidth]
  by_cases h60 : i < 60
  · simp [hi, h60]
  · simp [h60, getLsbD_of_valid hr (show 40 ≤ i by omega)]

theorem sendRequest_wellFormed {q : Nat} {serverKey : ReqId} {writeInfo : UrmaWriteInfo}
    {chunks : List ChunkInfo} (hn : 2 ≤ chunks.length) (hmax : chunks.length ≤ maxChunkNum)
    (hvalid : isRequestIdValid serverKey = true)
    (hid : writeInfo.userCtxServer.requestId = serverKey.setWidth 60) :
    (sendRequest q serverKey writeInfo chunks).WellFormed q where
  chunks_pos := Nat.lt_of_lt_of_le Nat.two_pos hn
  chunks_le := hmax
  args_length := by simp only [sendRequest, List.length_map, registerSendArgs_length]
  taskArgs := by
    simp only [sendRequest, registerSendTasks, constructWorkerTask, List.map_map, Function.comp_def]
  requestId_eq := by
    intro t ht
    simp only [sendRequest, registerSendTasks, List.mem_map] at ht
    obtain ⟨i, -, rfl⟩ := ht
    simp only [constructWorkerTask, sendRequest, hid]
    exact setWidth_valid hvalid
  requestId_valid := hvalid

theorem recvRequest_wellFormed {q : Nat} {recvInfo : UrmaRecvInfo} {cb : Option Nat}
    {chunks : List ChunkInfo} (hn : 0 < chunks.length) (hmax : chunks.length ≤ maxChunkNum)
    (hvalid : isRequestIdValid recvInfo.requestId = true) :
    (recvRequest q recvInfo cb chunks).WellFormed q where
  chunks_pos := hn
  chunks_le := hmax
  args_length := by simp only [recvRequest, List.length_map, registerRecvArgs, List.length_mapIdx]
  taskArgs := by
    simp only [recvRequest, registerRecvTasks, constructWorkerTask, List.map_map, Function.comp_def]
  requestId_eq := by
    intro t ht
    simp only [recvRequest, registerRecvTasks, List.mem_map] at ht
    obtain ⟨i, -, rfl⟩ := ht
    rfl
  requestId_valid := hvalid

/-- What a successful preparation of a send says about the call. -/
theorem prepareSend_eq_some {q : Nat} {inited alloc : Bool} {call : SendCall} {p : Prepared}
    (h : prepareSend q inited call alloc = some p) :
    validateSendInput inited call = true ∧ isRequestIdValid call.serverKey = true ∧
    isRequestIdValid call.clientKey = true ∧
    ∃ jettyInfo localSrc remoteDst chunks, call.jettyInfo = some jettyInfo ∧
      call.localSrc = some localSrc ∧ call.remoteDst = some remoteDst ∧
      commonSplitChunks localSrc.addr remoteDst.addr call.len alloc = some chunks ∧
      2 ≤ chunks.length ∧
      p = sendRequest q call.serverKey
        (buildWriteInfo jettyInfo localSrc remoteDst call.serverKey call.clientKey) chunks := by
  unfold prepareSend at h
  rw [Option.ite_none_left_eq_some] at h
  obtain ⟨hvalid, h⟩ := h
  simp only [Bool.or_eq_true, not_or, Bool.not_eq_true', Bool.not_eq_false] at hvalid
  obtain ⟨⟨hinput, hserver⟩, hclient⟩ := hvalid
  obtain ⟨jettyInfo, hj, h⟩ := Option.bind_eq_some_iff.mp h
  obtain ⟨localSrc, hl, h⟩ := Option.bind_eq_some_iff.mp h
  obtain ⟨remoteDst, hr, h⟩ := Option.bind_eq_some_iff.mp h
  obtain ⟨chunks, hc, h⟩ := Option.bind_eq_some_iff.mp h
  rw [Option.ite_none_left_eq_some] at h
  obtain ⟨hn, h⟩ := h
  exact ⟨hinput, hserver, hclient, jettyInfo, localSrc, remoteDst, chunks, hj, hl, hr, hc,
    Nat.le_of_not_lt hn, (Option.some.inj h).symm⟩

theorem prepareRecv_eq_some {q : Nat} {inited alloc : Bool} {call : RecvCall} {p : Prepared}
    (h : prepareRecv q inited call alloc = some p) :
    validateRecvInput inited call = true ∧ isRequestIdValid call.clientKey = true ∧
    ∃ hostSrc deviceDst chunks, call.hostSrc = some hostSrc ∧ call.deviceDst = some deviceDst ∧
      commonSplitChunks hostSrc.addr deviceDst.dst call.len alloc = some chunks ∧
      0 < chunks.length ∧
      p = recvRequest q ⟨deviceDst.jfr, deviceDst.jetty, hostSrc.tseg, deviceDst, call.clientKey⟩
        call.notifyCallback chunks := by
  unfold prepareRecv at h
  rw [Option.ite_none_left_eq_some] at h
  obtain ⟨hvalid, h⟩ := h
  simp only [Bool.or_eq_true, not_or, Bool.not_eq_true', Bool.not_eq_false] at hvalid
  obtain ⟨hinput, hclient⟩ := hvalid
  obtain ⟨hostSrc, hh, h⟩ := Option.bind_eq_some_iff.mp h
  obtain ⟨deviceDst, hd, h⟩ := Option.bind_eq_some_iff.mp h
  obtain ⟨chunks, hc, h⟩ := Option.bind_eq_some_iff.mp h
  rw [Option.ite_none_left_eq_some] at h
  obtain ⟨hn, h⟩ := h
  exact ⟨hinput, hclient, hostSrc, deviceDst, chunks, hh, hd, hc, Nat.pos_of_ne_zero hn,
    (Option.some.inj h).symm⟩

/-- The argument of each task of a send. -/
theorem sendRequest_arg {q : Nat} {key clientKey serverKey : ReqId} {jettyInfo : UrmaJettyInfo}
    {localSrc remoteDst : OstBufferInfo} {chunks : List ChunkInfo} (hn : 2 ≤ chunks.length)
    {i : Nat} {arg : TaskArg}
    (h : (sendRequest q key (buildWriteInfo jettyInfo localSrc remoteDst serverKey clientKey)
      chunks).args[i]? = some arg) :
    i < chunks.length ∧ arg =
      .send (sendTaskArg (buildWriteInfo jettyInfo localSrc remoteDst serverKey clientKey) chunks i) := by
  have hi : i < chunks.length := by
    have hlt := (List.getElem?_eq_some_iff.mp h).1
    simpa only [sendRequest, List.length_map, registerSendArgs_length] using hlt
  refine ⟨hi, ?_⟩
  simp only [sendRequest, List.getElem?_map, registerSendArgs_getElem hn hi, Option.map_some,
    Option.some.injEq] at h
  exact h.symm

theorem prepareSend_wellFormed {q : Nat} {inited alloc : Bool} {call : SendCall} {p : Prepared}
    (h : prepareSend q inited call alloc = some p) : p.WellFormed q := by
  obtain ⟨-, hserver, -, jettyInfo, localSrc, remoteDst, chunks, -, -, -, hc, hn, rfl⟩ :=
    prepareSend_eq_some h
  exact sendRequest_wellFormed hn (commonSplitChunks_length_le hc) hserver rfl

theorem prepareRecv_wellFormed {q : Nat} {inited alloc : Bool} {call : RecvCall} {p : Prepared}
    (h : prepareRecv q inited call alloc = some p) : p.WellFormed q := by
  obtain ⟨-, hclient, hostSrc, deviceDst, chunks, -, -, hc, hn, rfl⟩ := prepareRecv_eq_some h
  exact recvRequest_wellFormed hn (commonSplitChunks_length_le hc) hclient

end OsTransport
