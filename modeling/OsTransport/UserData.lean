/-
  The 64-bit tag that ties a completion to a request and a chunk.

  `os_transport_user_data_t` is a union of one `uint64_t` with three bit fields: the request id
  in bits 59..0, the chunk type in bit 60 and the chunk id in bits 63..61.  The fields are the
  data here (`UserData`) and the integer is a function of them (`userCtx`); `ofUserCtx` reads the
  fields back, and the two are inverse to each other, so either side of the union may be written
  and the other read.

  An id travels to the peer in ENCODED form: the low 20 of its 40 bits stay in bits 19..0, the
  high 20 move to bits 59..40, and the 20 bits between are left to the transport.
  `encodeRequestId` / `decodeRequestId` are described bit by bit (`encodeRequestId_bit`,
  `decodeRequestId_bit`); everything else about them is read off these two lemmas.
-/
import Mathlib.Data.BitVec
import Mathlib.Tactic.IntervalCases
import Mathlib.Tactic.Ring

namespace OsTransport

/-- A request id as the API takes it (`uint64_t`). -/
abbrev ReqId := BitVec 64

/-! ## Limits of the tag

The constants of the header, and the test of an id. -/

/-- `DEFAULT_CHUNK_SIZE`: 2 MiB. -/
def defaultChunkSize : BitVec 32 := 2097152#32

/-- `REQUEST_ID_BITS`. -/
def requestIdBits : Nat := 60

/-- `REQUEST_ID_EFFECTIVE_BITS`. -/
def requestIdEffectiveBits : Nat := 40

/-- `CHUNK_ID_BITS`. -/
def chunkIdBits : Nat := 3

/-- `OS_TRANSPORT_MAX_CHUNK_ID`. -/
def maxChunkId : Nat := 2 ^ chunkIdBits - 2

/-- `OS_TRANSPORT_MAX_CHUNK_NUM`. -/
def maxChunkNum : Nat := maxChunkId + 1

/-- `OS_TRANSPORT_MAX_REQUEST_ID`. -/
def maxRequestId : Nat := 2 ^ requestIdEffectiveBits - 1

/-- `is_request_id_valid`. -/
def isRequestIdValid (requestId : ReqId) : Bool := requestId.toNat ≤ maxRequestId

/-! ## The union

Three bit fields in one word: written field by field, read as a word, and back. -/

/-- `os_transport_chunk_type_t`. -/
inductive ChunkType
  | middleChunk
  | lastChunk
  deriving DecidableEq, Repr

/-- The value of the one-bit field. -/
def ChunkType.bits : ChunkType → BitVec 1
  | .middleChunk => 0#1
  | .lastChunk => 1#1

/-- `is_last_chunk ? LAST_CHUNK : MIDDLE_CHUNK`. -/
def ChunkType.ofLast (isLastChunk : Bool) : ChunkType :=
  if isLastChunk then .lastChunk else .middleChunk

/-- The `bs` member of `os_transport_user_data_t`. -/
structure UserData where
  requestId : BitVec 60
  chunkType : BitVec 1
  chunkId : BitVec 3
  deriving DecidableEq, Repr

namespace UserData

/-- The `user_ctx` member: the same 64 bits as an integer. -/
def userCtx (u : UserData) : BitVec 64 := u.chunkId ++ u.chunkType ++ u.requestId

/-- Writing `user_ctx` and reading `bs`. -/
def ofUserCtx (x : BitVec 64) : UserData :=
  ⟨x.extractLsb' 0 60, x.extractLsb' 60 1, x.extractLsb' 61 3⟩

/-- The fields of the word, bit by bit. -/
theorem userCtx_getLsbD (u : UserData) (i : Nat) :
    u.userCtx.getLsbD i =
      if i < 60 then u.requestId.getLsbD i
      else if i < 61 then u.chunkType.getLsbD (i - 60)
      else u.chunkId.getLsbD (i - 61) := by
  unfold userCtx
  rw [BitVec.getLsbD_append, BitVec.getLsbD_append]
  simp only [show (i - 60 < 1) = (i < 61) by simp; omega, Nat.sub_sub]

/-- Reading back what was packed. -/
@[simp] theorem ofUserCtx_userCtx (u : UserData) : ofUserCtx u.userCtx = u := by
  obtain ⟨r, t, c⟩ := u
  simp only [ofUserCtx, UserData.mk.injEq]
  refine ⟨?_, ?_, ?_⟩
  · ext i hi
    simp [← BitVec.getLsbD_eq_getElem, BitVec.getLsbD_extractLsb', userCtx_getLsbD, hi]
  · ext i hi
    obtain rfl : i = 0 := by omega
    simp [← BitVec.getLsbD_eq_getElem, BitVec.getLsbD_extractLsb', userCtx_getLsbD]
  · ext i hi
    simp [← BitVec.getLsbD_eq_getElem, BitVec.getLsbD_extractLsb', userCtx_getLsbD, hi,
      show ¬ 61 + i < 60 by omega, show ¬ 61 + i < 61 by omega]

/-- Packing what was read. -/
@[simp] theorem userCtx_ofUserCtx (x : BitVec 64) : (ofUserCtx x).userCtx = x := by
  apply BitVec.eq_of_getLsbD_eq
  intro i hi
  simp only [userCtx_getLsbD, ofUserCtx, BitVec.getLsbD_extractLsb', Nat.zero_add]
  split
  · simp [*]
  · split
    · obtain rfl : i = 60 := by omega
      simp
    · simp [show i - 61 < 3 by omega, show 61 + (i - 61) = i by omega]

/-- Equal integers have equal fields: no two tags collide. -/
@[simp] theorem userCtx_inj {u v : UserData} : u.userCtx = v.userCtx ↔ u = v := by
  constructor
  · intro h
    rw [← ofUserCtx_userCtx u, h, ofUserCtx_userCtx]
  · rintro rfl; rfl

end UserData

/-- `make_transport_user_data_raw64`: the assignments to the bit fields truncate. -/
def makeTransportUserDataRaw64 (requestId : ReqId) (chunkId : Nat) (chunkType : ChunkType) :
    BitVec 64 :=
  UserData.userCtx ⟨requestId.setWidth 60, chunkType.bits, BitVec.ofNat 3 chunkId⟩

/-! ## The transit encoding of a request id

Only 40 of the 60 bits of the field are the library's own, and they are not next to each other. -/

/-- `URMA_REQ_ID_FIELD_MASK`. -/
def reqIdFieldMask : BitVec 64 := (1#64 <<< 20) - 1#64

/-- `encode_request_id`. -/
def encodeRequestId (rawRequestId : ReqId) : ReqId :=
  let lowField := rawRequestId &&& reqIdFieldMask
  let highField := (rawRequestId >>> 20) &&& reqIdFieldMask
  (highField <<< (requestIdBits - 20)) ||| lowField

/-- `decode_request_id`. -/
def decodeRequestId (encodedRequestId : ReqId) : ReqId :=
  let lowField := encodedRequestId &&& reqIdFieldMask
  let highField := (encodedRequestId >>> (requestIdBits - 20)) &&& reqIdFieldMask
  (highField <<< 20) ||| lowField

/-- The mask has the lowest 20 bits. -/
theorem reqIdFieldMask_bit (i : Nat) : reqIdFieldMask.getLsbD i = decide (i < 20) := by
  by_cases h : i < 64
  · interval_cases i <;> rfl
  · rw [BitVec.getLsbD_of_ge _ _ (by omega)]
    exact (decide_eq_false (by omega)).symm

/-- Encoding keeps the low 20 bits and moves the next 20 up to bit 40. -/
theorem encodeRequestId_bit (r : ReqId) (i : Nat) :
    (encodeRequestId r).getLsbD i =
      if i < 20 then r.getLsbD i else (decide (40 ≤ i ∧ i < 60) && r.getLsbD (i - 20)) := by
  simp only [encodeRequestId, requestIdBits, BitVec.getLsbD_or, BitVec.getLsbD_shiftLeft,
    BitVec.getLsbD_and, BitVec.getLsbD_ushiftRight, reqIdFieldMask_bit]
  by_cases h20 : i < 20
  · simp [h20, show i < 40 by omega]
  · by_cases h40 : i < 40
    · simp [h20, h40, show ¬ 40 ≤ i by omega]
    · by_cases h60 : i < 60
      · simp [h20, h40, h60, show i < 64 by omega, show i - 40 < 20 by omega,
          show 40 ≤ i by omega, show 20 + (i - 40) = i - 20 by omega]
      · simp [h20, h60, show ¬ i - 40 < 20 by omega]

/-- Decoding moves them back. -/
theorem decodeRequestId_bit (e : ReqId) (i : Nat) :
    (decodeRequestId e).getLsbD i =
      if i < 20 then e.getLsbD i else (decide (i < 40) && e.getLsbD (i + 20)) := by
  simp only [decodeRequestId, requestIdBits, BitVec.getLsbD_or, BitVec.getLsbD_shiftLeft,
    BitVec.getLsbD_and, BitVec.getLsbD_ushiftRight, reqIdFieldMask_bit]
  by_cases h20 : i < 20
  · simp [h20]
  · by_cases h40 : i < 40
    · simp [h20, h40, show i < 64 by omega, show i - 20 < 20 by omega,
        show 40 + (i - 20) = i + 20 by omega]
    · simp [h20, h40, show ¬ i - 20 < 20 by omega]

/-- Valid ids have 40 bits. -/
theorem isRequestIdValid_iff {r : ReqId} : isRequestIdValid r = true ↔ r.toNat < 2 ^ 40 := by
  have hmax : maxRequestId = 2 ^ 40 - 1 := rfl
  rw [isRequestIdValid, decide_eq_true_eq, hmax]
  omega

/-- A valid id has no bit at or above 40. -/
theorem getLsbD_of_valid {r : ReqId} (hr : isRequestIdValid r = true) {i : Nat} (hi : 40 ≤ i) :
    r.getLsbD i = false := by
  have hlt : r.toNat < 2 ^ i := by
    exact Nat.lt_of_lt_of_le (isRequestIdValid_iff.mp hr) (Nat.pow_le_pow_right (by decide) hi)
  exact Nat.testBit_lt_two_pow hlt

/-- A valid id is decoded to itself. -/
theorem decode_encode {r : ReqId} (hr : isRequestIdValid r = true) :
    decodeRequestId (encodeRequestId r) = r := by
  apply BitVec.eq_of_getLsbD_eq
  intro i hi
  rw [decodeRequestId_bit, encodeRequestId_bit, encodeRequestId_bit]
  by_cases h20 : i < 20
  · simp [h20]
  · by_cases h40 : i < 40
    · simp [h20, h40, show ¬ i + 20 < 20 by omega, show i + 20 < 60 by omega,
        show 20 ≤ i by omega]
    · simp [h20, h40, getLsbD_of_valid hr (show 40 ≤ i by omega)]

/-- What is decoded is always a valid id. -/
theorem decodeRequestId_valid (e : ReqId) : isRequestIdValid (decodeRequestId e) = true := by
  apply isRequestIdValid_iff.mpr
  apply Nat.lt_pow_two_of_testBit
  intro i hi
  have hbit := decodeRequestId_bit e i
  rw [if_neg (by omega), decide_eq_false (by omega), Bool.false_and] at hbit
  exact hbit

/-- A word is encoded back to itself if it is the code of a valid id. -/
theorem encode_decode_iff (e : ReqId) :
    encodeRequestId (decodeRequestId e) = e ↔
      ∃ r, isRequestIdValid r = true ∧ encodeRequestId r = e := by
  constructor
  · intro h
    exact ⟨decodeRequestId e, decodeRequestId_valid e, h⟩
  · rintro ⟨r, hr, rfl⟩
    rw [decode_encode hr]

/-- Decoding reads only the bits the encoding uses, whatever the transport did to bits 39..20. -/
theorem decodeRequestId_congr {e e' : ReqId}
    (h : ∀ i, i < 20 ∨ (40 ≤ i ∧ i < 60) → e.getLsbD i = e'.getLsbD i) :
    decodeRequestId e = decodeRequestId e' := by
  apply BitVec.eq_of_getLsbD_eq
  intro i _
  rw [decodeRequestId_bit, decodeRequestId_bit]
  by_cases h20 : i < 20
  · rw [if_pos h20, if_pos h20, h i (.inl h20)]
  · rw [if_neg h20, if_neg h20]
    by_cases h40 : i < 40
    · rw [h (i + 20) (.inr (by omega))]
    · simp [h40]

/-! ## The tag on the receive path

A receiver makes its tag from the immediate of the completion. -/

/-- What `os_transport_wake_up_task` makes of the immediate of a receive completion: the id field
    is decoded in place, the other fields are kept. -/
def receivedUserData (immData : BitVec 64) : UserData :=
  let userData := UserData.ofUserCtx immData
  { userData with requestId := (decodeRequestId (userData.requestId.setWidth 64)).setWidth 60 }

end OsTransport
