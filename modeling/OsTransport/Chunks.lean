/-
  Cutting a buffer into chunks.

  `common_split_chunks` rounds `len` up to a number of chunks in 32 bits.  For the last 2 MiB of
  the 32-bit range the sum in front of the division wraps: the count is 0, which is within the limit, so
  the call succeeds and hands out an array without a first element.  Everywhere else the chunks
  tile the buffer (`tiling_of_split`).

  The count is computed in two steps: `chunksNum_eq` takes the 32-bit arithmetic out of it, and
  `commonSplitChunks_eq_some_iff` says what the function returns in terms of the count.  That the
  pieces fit together is then a fact about numbers (`range_tiles`, `sum_tiles`), and
  `splits_exactly_iff` says for which lengths all of it holds.
-/
import OsTransport.Tasks

namespace OsTransport

/-! ## What `common_split_chunks` computes

The number of chunks and the `i`-th of them as functions, so that nothing below looks at the loop.
-/

theorem defaultChunkSize_toNat : defaultChunkSize.toNat = 2097152 := by decide

theorem maxLen_eq : maxChunkNum * defaultChunkSize.toNat = 14680064 := by
  rw [defaultChunkSize_toNat]
  decide

/-- The number of chunks. -/
def chunksNum (len : BitVec 32) : Nat := ((len + defaultChunkSize - 1#32) / defaultChunkSize).toNat

/-- Chunk `i`. -/
def chunkAt (srcAddr dstAddr : BitVec 64) (len : BitVec 32) (i : Nat) : ChunkInfo :=
  let offset := BitVec.ofNat 32 i * defaultChunkSize
  { src := srcAddr + offset.setWidth 64
    dst := dstAddr + offset.setWidth 64
    len := if len - offset > defaultChunkSize then defaultChunkSize else len - offset }

section Split

variable {src dst : BitVec 64} {len : BitVec 32} {alloc : Bool} {chunks : List ChunkInfo}

theorem commonSplitChunks_eq_some_iff :
    commonSplitChunks src dst len alloc = some chunks ↔
      chunksNum len ≤ maxChunkNum ∧ alloc = true ∧
        chunks = (List.range (chunksNum len)).map (chunkAt src dst len) := by
  unfold chunksNum
  simp only [commonSplitChunks, Option.ite_none_left_eq_some, Bool.or_eq_true, not_or,
    decide_eq_true_eq, Option.some.injEq, Nat.not_lt, Bool.not_eq_true', Bool.not_eq_false]
  constructor
  · rintro ⟨⟨hle, halloc⟩, rfl⟩
    exact ⟨hle, halloc, rfl⟩
  · rintro ⟨hle, halloc, rfl⟩
    exact ⟨⟨hle, halloc⟩, rfl⟩

theorem exists_split (src dst : BitVec 64) (h : chunksNum len ≤ maxChunkNum) :
    ∃ chunks, commonSplitChunks src dst len true = some chunks ∧ chunks.length = chunksNum len := by
  refine ⟨_, commonSplitChunks_eq_some_iff.mpr ⟨h, rfl, rfl⟩, ?_⟩
  rw [List.length_map, List.length_range]

theorem commonSplitChunks_isSome_iff :
    (commonSplitChunks src dst len true).isSome = true ↔ chunksNum len ≤ maxChunkNum := by
  rw [Option.isSome_iff_exists]
  constructor
  · rintro ⟨chunks, h⟩
    exact (commonSplitChunks_eq_some_iff.mp h).1
  · intro hle
    obtain ⟨chunks, hsplit, -⟩ := exists_split src dst hle
    exact ⟨chunks, hsplit⟩

theorem chunksNum_eq (len : BitVec 32) : chunksNum len = (len.toNat + 2097151) % 2 ^ 32 / 2097152 := by
  have hsum : (len + defaultChunkSize - 1#32).toNat = (len.toNat + 2097151) % 2 ^ 32 := by
    rw [BitVec.toNat_sub, BitVec.toNat_add, defaultChunkSize_toNat, BitVec.toNat_ofNat]
    omega
  rw [chunksNum, BitVec.toNat_udiv, hsum, defaultChunkSize_toNat]

/-- The lengths that are cut into 1 to `maxChunkNum` chunks. -/
theorem chunksNum_pos_iff (len : BitVec 32) :
    0 < chunksNum len ∧ chunksNum len ≤ maxChunkNum ↔
      1 ≤ len.toNat ∧ len.toNat ≤ maxChunkNum * defaultChunkSize.toNat := by
  have hlt := len.isLt
  rw [maxLen_eq, chunksNum_eq, show maxChunkNum = 7 from rfl]
  constructor
  · rintro ⟨h₁, h₂⟩
    omega
  · rintro ⟨h₁, h₂⟩
    omega

/-- Where a chunk lies, and how long it is. -/
theorem chunkAt_eq {i : Nat} (hi : i * 2097152 ≤ len.toNat) :
    (chunkAt src dst len i).src = src + BitVec.ofNat 64 (i * 2097152) ∧
    (chunkAt src dst len i).dst = dst + BitVec.ofNat 64 (i * 2097152) ∧
    (chunkAt src dst len i).len.toNat = min 2097152 (len.toNat - i * 2097152) := by
  have hoffset : (BitVec.ofNat 32 i * defaultChunkSize).toNat = i * 2097152 := by
    rw [BitVec.toNat_mul, BitVec.toNat_ofNat, defaultChunkSize_toNat]
    omega
  have hwide : (BitVec.ofNat 32 i * defaultChunkSize).setWidth 64 = BitVec.ofNat 64 (i * 2097152) := by
    apply BitVec.eq_of_toNat_eq
    rw [BitVec.toNat_setWidth, hoffset, BitVec.toNat_ofNat]
  have hrest : (len - BitVec.ofNat 32 i * defaultChunkSize).toNat = len.toNat - i * 2097152 := by
    rw [BitVec.toNat_sub, hoffset]
    omega
  refine ⟨congrArg (src + ·) hwide, congrArg (dst + ·) hwide, ?_⟩
  simp only [chunkAt]
  have hgt : len - BitVec.ofNat 32 i * defaultChunkSize > defaultChunkSize ↔
      2097152 < len.toNat - i * 2097152 := by
    rw [gt_iff_lt, BitVec.lt_def, hrest, defaultChunkSize_toNat]
  by_cases hbig : 2097152 < len.toNat - i * 2097152
  · rw [if_pos (hgt.mpr hbig), defaultChunkSize_toNat]
    omega
  · rw [if_neg (hgt.not.mpr hbig), hrest]
    omega

/-- The chunks, when there are any. -/
theorem commonSplitChunks_eq_some (h : commonSplitChunks src dst len alloc = some chunks)
    (hpos : 0 < chunks.length) :
    1 ≤ len.toNat ∧ len.toNat ≤ maxChunkNum * defaultChunkSize.toNat ∧
      chunks.length = (len.toNat + 2097151) / 2097152 ∧
      ∀ i chunk, chunks[i]? = some chunk →
        chunk.src = src + BitVec.ofNat 64 (i * 2097152) ∧
        chunk.dst = dst + BitVec.ofNat 64 (i * 2097152) ∧
        chunk.len.toNat = min 2097152 (len.toNat - i * 2097152) := by
  obtain ⟨hle, -, rfl⟩ := commonSplitChunks_eq_some_iff.mp h
  rw [List.length_map, List.length_range] at hpos ⊢
  obtain ⟨h₁, h₂⟩ := (chunksNum_pos_iff len).mp ⟨hpos, hle⟩
  have hmax := maxLen_eq
  have hcount := chunksNum_eq len
  refine ⟨h₁, h₂, by omega, ?_⟩
  intro i chunk hchunk
  obtain ⟨hi, rfl⟩ := List.getElem?_eq_some_iff.mp hchunk
  rw [List.length_map, List.length_range] at hi
  rw [List.getElem_map, List.getElem_range]
  exact chunkAt_eq (by omega)

end Split

/-! ## Tilings

Chunks that follow each other without a gap, from offset 0 to the length of the buffer. -/

/-- Pieces of size `size`, the last one cut off, lie side by side. -/
theorem range_tiles (len size n : Nat) :
    (List.range n).flatMap (fun i =>
      (List.range (min size (len - i * size))).map (i * size + ·)) = List.range (min len (n * size)) := by
  induction n with
  | zero => simp
  | succ n ih =>
    rw [List.range_succ, List.flatMap_append, ih, List.flatMap_singleton]
    by_cases hle : len ≤ n * size
    · have hnone : min size (len - n * size) = 0 := by omega
      have hmin : min len ((n + 1) * size) = min len (n * size) := by
        rw [Nat.add_mul]
        omega
      rw [hnone, hmin]
      simp
    · have hmin : min len (n * size) = n * size := by omega
      have hnext : min len ((n + 1) * size) = n * size + min size (len - n * size) := by
        rw [Nat.add_mul]
        omega
      rw [hnext, List.range_add, hmin]

/-- The pieces have the length of the whole. -/
theorem sum_tiles (len size n : Nat) :
    ((List.range n).map fun i => min size (len - i * size)).sum = min len (n * size) := by
  have hlength := congrArg List.length (range_tiles len size n)
  simpa only [List.length_flatMap, List.length_map, List.length_range] using hlength

/-- The chunks cut `len` bytes at `src` and `dst` into pieces side by side.  The addresses are 64
    bits wide and may wrap; offsets are what is compared. -/
structure Tiling (src dst : BitVec 64) (len : BitVec 32) (chunks : List ChunkInfo) : Prop where
  /-- There is a first chunk, and room for all. -/
  count : 1 ≤ chunks.length ∧ chunks.length ≤ maxChunkNum
  length : ∀ i chunk, chunks[i]? = some chunk →
    1 ≤ chunk.len.toNat ∧ chunk.len.toNat ≤ defaultChunkSize.toNat ∧
      (i + 1 < chunks.length → chunk.len = defaultChunkSize)
  place : ∀ i chunk, chunks[i]? = some chunk →
    chunk.src = src + BitVec.ofNat 64 (i * defaultChunkSize.toNat) ∧
      chunk.dst = dst + BitVec.ofNat 64 (i * defaultChunkSize.toNat)
  sum : (chunks.map (·.len.toNat)).sum = len.toNat
  /-- Every offset lies in exactly one chunk. -/
  once : ∀ offset < len.toNat, ∃! i, ∃ chunk, chunks[i]? = some chunk ∧
    i * defaultChunkSize.toNat ≤ offset ∧ offset < i * defaultChunkSize.toNat + chunk.len.toNat

/-- What `common_split_chunks` is for: it succeeds within the limit, and then with a tiling. -/
def SplitsExactly (src dst : BitVec 64) (len : BitVec 32) : Prop :=
  ((commonSplitChunks src dst len true).isSome = true ↔
      len.toNat ≤ maxChunkNum * defaultChunkSize.toNat) ∧
    ∀ chunks, commonSplitChunks src dst len true = some chunks → Tiling src dst len chunks

theorem tiling_of_split {src dst : BitVec 64} {len : BitVec 32} {alloc : Bool}
    {chunks : List ChunkInfo} (h : commonSplitChunks src dst len alloc = some chunks)
    (hpos : 0 < chunks.length) : Tiling src dst len chunks := by
  obtain ⟨h₁, h₂, hcount, hchunk⟩ := commonSplitChunks_eq_some h hpos
  obtain ⟨hle, -, hchunks⟩ := commonSplitChunks_eq_some_iff.mp h
  have hlength : chunks.length = chunksNum len := by rw [hchunks, List.length_map, List.length_range]
  have hlt : ∀ {i chunk}, chunks[i]? = some chunk → i < chunks.length := fun hi =>
    (List.getElem?_eq_some_iff.mp hi).1
  refine ⟨⟨hpos, hlength ▸ hle⟩, ?_, ?_, ?_, ?_⟩
  · intro i chunk hi
    obtain ⟨-, -, hlen⟩ := hchunk i chunk hi
    have hbound := hlt hi
    rw [defaultChunkSize_toNat]
    refine ⟨by omega, by omega, fun hlast => ?_⟩
    apply BitVec.eq_of_toNat_eq
    rw [defaultChunkSize_toNat]
    omega
  · intro i chunk hi
    rw [defaultChunkSize_toNat]
    exact ⟨(hchunk i chunk hi).1, (hchunk i chunk hi).2.1⟩
  · have hlens : chunks.map (·.len.toNat) =
        (List.range chunks.length).map fun i => min 2097152 (len.toNat - i * 2097152) := by
      apply List.ext_getElem (by simp)
      intro i hi _
      rw [List.length_map] at hi
      rw [List.getElem_map, List.getElem_map, List.getElem_range]
      exact (hchunk i _ (List.getElem?_eq_getElem hi)).2.2
    rw [hlens, sum_tiles]
    omega
  · intro offset hoffset
    rw [defaultChunkSize_toNat]
    have hi : offset / 2097152 < chunks.length := by omega
    refine ⟨offset / 2097152, ⟨_, List.getElem?_eq_getElem hi, by omega, ?_⟩, ?_⟩
    · rw [(hchunk _ _ (List.getElem?_eq_getElem hi)).2.2]
      omega
    · rintro j ⟨chunk, hj, hlow, hhigh⟩
      rw [(hchunk j chunk hj).2.2] at hhigh
      omega

/-- **Chunk splitting.**  For any addresses and any length, `common_split_chunks` succeeds within the
    limit and tiles the buffer, exactly if rounding the length up does not wrap. -/
theorem splits_exactly_iff (src dst : BitVec 64) {len : BitVec 32} (h : 1 ≤ len.toNat) :
    SplitsExactly src dst len ↔ len.toNat ≤ 2 ^ 32 - defaultChunkSize.toNat := by
  have hcount := chunksNum_eq len
  have hpos := chunksNum_pos_iff len
  have hmax := maxLen_eq
  have hsize := defaultChunkSize_toNat
  have hlt := len.isLt
  constructor
  · rintro ⟨hsome, -⟩
    by_contra hbig
    have hzero : chunksNum len = 0 := by omega
    have hlarge := hsome.mp (commonSplitChunks_isSome_iff.mpr (by omega))
    omega
  · intro hsmall
    have hn : 0 < chunksNum len := by omega
    refine ⟨?_, fun chunks hchunks => tiling_of_split hchunks ?_⟩
    · rw [commonSplitChunks_isSome_iff]
      omega
    · obtain ⟨-, -, rfl⟩ := commonSplitChunks_eq_some_iff.mp hchunks
      rw [List.length_map, List.length_range]
      exact hn

/-- Three chunks, the last of five bytes. -/
theorem splits_exactly_iff_three : SplitsExactly 0x1000#64 0x2000#64 4194309#32 :=
  (splits_exactly_iff 0x1000#64 0x2000#64 (by decide)).mpr (by decide)

/-- With the largest length the count wraps to 0: the call succeeds with no chunk at all. -/
theorem split_wraps : ¬ ∀ (src dst : BitVec 64) (len : BitVec 32), 1 ≤ len.toNat →
    SplitsExactly src dst len := by
  intro hall
  obtain ⟨hsome, -⟩ := hall 0#64 0#64 0xFFFFFFFF#32 (by decide)
  have hlarge := hsome.mp (commonSplitChunks_isSome_iff.mpr (by decide))
  exact absurd hlarge (by decide)

end OsTransport
