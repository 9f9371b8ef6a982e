import DeadKernel.Memory.HeapRequests
import DeadKernel.Memory.FreeingLive

/-! `palignedAlloc`: the chunk that `alloc` delivers is cut into a lead, the result and a remainder.
The slack of the request covers the longest lead, which starts eight bytes in front of a page. The
remainder is given back by `free`, with the branch for the end of the heap in it.
-/

namespace DeadKernel

open Words Rings

-----------------------------------------------------------------------------------------
-- The aligned chunk
-----------------------------------------------------------------------------------------

theorem alignedRequest_eq {nb : Nat} (fits : nb + 4119 < wordSize) (whole : nb % 8 = 0)
    : alignedRequest nb = nb + 4108 ∧ request2Size (alignedRequest nb) = nb + 4112 := by
  have request : alignedRequest nb = nb + 4108 := by
    rw [alignedRequest, u32_of_lt (by simp only [pageSize, minChunkSize, chunkOverhead]; omega)]
    simp only [pageSize, minChunkSize, chunkOverhead]
    omega
  refine ⟨request, ?_⟩
  rw [request, request2Size_eq (by omega), if_neg (by simp only [minRequest]; omega)]
  omega

/-- The chunk that `carveLead` moves up to. -/
def alignedChunk (mem : Nat) : Nat :=
  if mem % pageSize = 0 then mem2Chunk mem
  else
    let br := mem2Chunk (u32 ((mem &&& (wordSize - pageSize)) + pageSize))
    if minChunkSize ≤ sub32 br (mem2Chunk mem) then br else u32 (br + pageSize)

/-- It lies in front of a page, at the chunk itself or with room for a lead, and close enough. -/
theorem alignedChunk_spec {chunk : Nat} (aligned : chunk % 8 = 0) (fits : chunk + 4112 < wordSize)
    : (alignedChunk (chunk + 8) + 8) % pageSize = 0
      ∧ (alignedChunk (chunk + 8) = chunk ∧ (chunk + 8) % pageSize = 0
        ∨ (chunk + 8) % pageSize ≠ 0 ∧ chunk + minChunkSize ≤ alignedChunk (chunk + 8))
      ∧ alignedChunk (chunk + 8) ≤ chunk + 4104 ∧ alignedChunk (chunk + 8) % 8 = 0 := by
  have own : mem2Chunk (chunk + 8) = chunk := mem2Chunk_add (by omega)
  rw [alignedChunk]
  by_cases page : (chunk + 8) % pageSize = 0
  · rw [if_pos page, own]
    exact ⟨page, .inl ⟨rfl, page⟩, Nat.le_add_right _ _, aligned⟩
  · have down : (chunk + 8) &&& (wordSize - pageSize) = (chunk + 8) / 4096 * 4096 :=
      and_clear_low12 (by omega)
    simp only [pageSize, wordSize, minChunkSize] at page fits ⊢
    have next : u32 ((chunk + 8) / 4096 * 4096 + 4096) = (chunk + 8) / 4096 * 4096 + 4096 :=
      u32_of_lt (by simp only [wordSize]; omega)
    have br : mem2Chunk ((chunk + 8) / 4096 * 4096 + 4096) = (chunk + 8) / 4096 * 4096 + 4088 :=
      mem2Chunk_add (by simp only [wordSize]; omega)
    have lead : sub32 ((chunk + 8) / 4096 * 4096 + 4088) chunk
        = (chunk + 8) / 4096 * 4096 + 4088 - chunk :=
      sub32_of_le (by simp only [wordSize]; omega) (by omega)
    simp only [pageSize, wordSize] at down
    simp only [down, if_neg page, own, next, br, lead]
    split
    · omega
    · -- the lead is too short by eight bytes, and gets a page more
      have far : u32 ((chunk + 8) / 4096 * 4096 + 4088 + 4096)
          = (chunk + 8) / 4096 * 4096 + 8184 :=
        u32_of_lt (by simp only [wordSize]; omega)
      rw [far]
      omega

-----------------------------------------------------------------------------------------
-- The lead
-----------------------------------------------------------------------------------------

section Carving

variable {heap nb : Nat} {st : Kernel} {front back : List Block} {c : Block} {free : List Span}

/-- The walk behind `carveLead`: the lead, if there is one, is a free chunk. The flag of the
result in front of it is whatever stood in the payload.
-/
inductive Carved (c : Block) (back : List Block) (chunk : Nat) : List Block → Prop where
  | whole (same : chunk = c.addr) : Carved c back chunk (c :: back)
  | lead (flag : Bool) (room : c.addr + minChunkSize ≤ chunk)
      : Carved c back chunk (topBlock c.addr chunk
          :: ⟨⟨chunk, c.stop - chunk⟩, true, flag⟩ :: markFirst back)

theorem Carved.shape {chunk : Nat} {blocks : List Block} (h : Carved c back chunk blocks)
    (used : c.used = true) (inside : chunk ≤ c.stop)
    : ∃ d rest, blocks = trimmed c.addr chunk ++ d :: rest ∧ d.used = true ∧ d.addr = chunk
        ∧ d.stop = c.stop ∧ (rest = back ∨ rest = markFirst back)
        ∧ (chunk = c.addr ∨ c.addr + minChunkSize ≤ chunk) := by
  cases h with
  | whole same =>
      refine ⟨c, back, ?_, used, same.symm, rfl, .inl rfl, .inl same⟩
      rw [trimmed, if_neg (by omega), List.nil_append]
  | lead flag room =>
      refine ⟨⟨⟨chunk, c.stop - chunk⟩, true, flag⟩, markFirst back, ?_, rfl, rfl, ?_, .inr rfl,
        .inr room⟩
      · rw [trimmed, if_pos (by simp only [minChunkSize] at room; omega), List.singleton_append]
      · simp only [Span.stop] at *
        omega

/-- The header of the lead at the front of a gap, and its size where the result starts. -/
theorem Gap.writeLead {m : Mem} {head start low high stop pos : Nat}
    (h : Gap m head start low high stop front back free) (lead : low + minChunkSize ≤ pos)
    (rest : pos + minChunkSize ≤ high) (aligned : (pos - low) % 8 = 0)
    : Gap (store32 (setSizeAndPinuse low (pos - low) m) pos (pos - low)) head start low high stop
          front back free
        ∧ prevFoot (store32 (setSizeAndPinuse low (pos - low) m) pos (pos - low)) pos = pos - low
        ∧ headWord (store32 (setSizeAndPinuse low (pos - low) m) pos (pos - low)) low
          = pos - low + 1
        ∧ headWord (store32 (setSizeAndPinuse low (pos - low) m) pos (pos - low)) pos
          = headWord m pos
        ∧ Spares (front ++ back) m (store32 (setSizeAndPinuse low (pos - low) m) pos (pos - low))
        ∧ ChangedOnly (heapByte head start stop) m
          (store32 (setSizeAndPinuse low (pos - low) m) pos (pos - low)) := by
  have last := h.behind.le
  have fits := h.room.fits
  simp only [minChunkSize, wordSize] at lead rest fits
  obtain ⟨leadHeader, changed⟩ := setSizeAndPinuse_spec m low aligned
    (by simp only [wordSize]; omega)
  have inside : ∀ byte, wordAt (low + 4) byte → low + 4 ≤ byte ∧ byte < high := by
    intro byte on
    simp only [wordAt] at on
    omega
  have within := h.inside changed inside
  obtain ⟨gap, spares⟩ := h.write changed inside
  have resultKept : headWord (setSizeAndPinuse low (pos - low) m) pos = headWord m pos :=
    headWord_of_changed changed (fun byte word on => by simp only [wordAt] at word on; omega)
  generalize setSizeAndPinuse low (pos - low) m = m' at *
  have changed' : ChangedOnly (wordAt pos) m' (store32 m' pos (pos - low)) :=
    .store (fun _ above below => ⟨above, below⟩)
  have inside' : ∀ byte, wordAt pos byte → low + 4 ≤ byte ∧ byte < high := by
    intro byte on
    simp only [wordAt] at on
    omega
  obtain ⟨gap', spares'⟩ := gap.write changed' inside'
  refine ⟨gap', load32_store32 (by simp only [wordSize]; omega), ?_, ?_, spares.trans spares',
    within.trans (gap.inside changed' inside')⟩
  · rw [headWord_of_changed changed' (fun byte word on => by simp only [wordAt] at word on; omega),
      leadHeader]
  · rw [headWord_of_changed changed' (fun byte word on => by simp only [wordAt] at word on; omega),
      resultKept]

/-- A lead of the chunk becomes free, with the flags and sizes that `carveLead` writes. -/
theorem Layout.carve {m : Mem} {head start stop pos : Nat}
    (h : Layout m head start stop (front ++ c :: back) free) (used : c.used = true)
    (lead : c.addr + minChunkSize ≤ pos) (rest : pos + minChunkSize ≤ c.stop)
    (aligned : pos % 8 = 0)
    : ∃ m' free', insertChunk c.addr head
          (store32 (setSizeAndPinuse c.addr (pos - c.addr) (setInuse pos (c.stop - pos) m)) pos
            (pos - c.addr)) = some m'
        ∧ Layout m' head start stop (front ++ topBlock c.addr pos
          :: ⟨⟨pos, c.stop - pos⟩, true, pinuse m pos⟩ :: markFirst back) free'
        ∧ prevFoot m' pos = pos - c.addr ∧ Spares (front ++ back) m m'
        ∧ (back ≠ [] → ChangedOnly (heapByte head start stop) m m')
        ∧ (back = [] → headWord m' stop / 2 = headWord m stop / 2) := by
  obtain ⟨-, large, whole, -, behind⟩ := h.tiles.focus
  have own := h.tiles.aligned h.room.aligned (b := c) (by simp)
  have last := behind.le
  have fits := h.room.fits
  simp only [minChunkSize, wordSize, Span.stop] at lead rest large last fits
  have small : pos + (c.stop - pos) = c.stop := by
    simp only [Span.stop]
    omega
  -- the result is marked in use, and what is behind it too
  obtain ⟨gap₁, header₁, spares₁, within₁⟩ := (h.openUsed used).markUsed pos (c.stop - pos)
    (by omega) (by simp only [minChunkSize, Span.stop]; omega) (by simp only [Span.stop]; omega) small
  have end₁ : back = [] → headWord (setInuse pos (c.stop - pos) m) stop / 2 = headWord m stop / 2 := by
    rintro rfl
    have end_ : c.stop = stop := behind
    have marked := setInuse_next m pos (c.stop - pos) (by omega)
      (by simp only [Span.stop]; omega) (by rw [small]; simp only [Span.stop, wordSize]; omega)
    rw [small] at marked
    rw [← end_, marked]
    omega
  generalize setInuse pos (c.stop - pos) m = m₁ at *
  -- the lead gets its header, and its size is stored behind it
  obtain ⟨gap₂, foot₂, leadKept, resultKept, spares₂, within₂⟩ :=
    gap₁.writeLead (by simp only [minChunkSize]; omega)
      (by simp only [minChunkSize, Span.stop]; omega) (by omega : (pos - c.addr) % 8 = 0)
  rw [header₁] at resultKept
  generalize store32 (setSizeAndPinuse c.addr (pos - c.addr) m₁) pos (pos - c.addr) = m₂ at *
  -- both chunks go back into the walk
  let result : Block := ⟨⟨pos, c.stop - pos⟩, true, pinuse m pos⟩
  have resultHeader : headWord m₂ result.addr = result.header := by
    have bit := Nat.mod_two_eq_zero_or_one (headWord m pos)
    rw [resultKept]
    simp only [result, Block.header, pinuse_eq]
    rcases bit with zero | one
    · simp [zero]
    · simp [one]
  have gap₃ := gap₂.pushBack (b := result) small (by simp only [result, minChunkSize, Span.stop]; omega)
    (by simp only [result, Span.stop]; omega) resultHeader rfl
  have leadStop : (topBlock c.addr pos).stop = pos := by
    simp only [topBlock, Span.stop]
    omega
  obtain ⟨m', free', stored, gap₄, -, spares₃, within₃⟩ := gap₃.insertFront (b := topBlock c.addr pos) rfl
    (by simp only [topBlock, minChunkSize]; omega) (le_of_eq leadStop)
    (by simp only [topBlock]; omega) leadKept rfl
  rw [leadStop] at gap₄
  have marked : AmongChunks back (markFirst back) := fun _ member => markFirst_keeps member
  have behind_ : AmongChunks back (topBlock c.addr pos :: result :: markFirst back) := by
    intro b member
    obtain ⟨d, there, same⟩ := markFirst_keeps member
    exact ⟨d, by simp [there], same⟩
  refine ⟨m', free', stored, by simpa [result] using gap₄.close, ?_, ?_,
    fun some_ => ((within₁ some_).trans within₂).trans within₃, fun none => ?_⟩
  · rw [← foot₂]
    exact spares₃.prevFoot (b := result) (by simp)
  · exact (spares₁.trans (spares₂.of_among (marked.around front))).trans
      (spares₃.of_among (behind_.around front))
  · rw [h.room.headWord_end (by have walk := h.tiles.le; omega) (within₂.trans within₃), end₁ none]

/-- `carveLead` on a chunk that is long enough for the longest lead and `nb` bytes. -/
theorem HeapOk.carve (h : HeapOk heap st (front ++ c :: back) free) (used : c.used = true)
    (room : nb + 4112 ≤ c.size) (size : ChunkSize nb)
    : ∃ m free' blocks, carveLead (c.addr + 8) heap st
          = some (alignedChunk (c.addr + 8), { st with mem := m })
        ∧ Carved c back (alignedChunk (c.addr + 8)) blocks
        ∧ HeapOk heap { st with mem := m } (front ++ blocks) free'
        ∧ Spares (front ++ back) st.mem m
        ∧ (alignedChunk (c.addr + 8) ≠ c.addr
          → pinuse m (alignedChunk (c.addr + 8)) = pinuse st.mem (alignedChunk (c.addr + 8))
            ∧ prevFoot m (alignedChunk (c.addr + 8)) = alignedChunk (c.addr + 8) - c.addr)
        ∧ (back ≠ [] → ChangedOnly (heapByte (headOf heap) (st.heaps heap).startAddr
            (st.heaps heap).endAddr) st.mem m)
        ∧ (back = [] → headWord m (st.heaps heap).endAddr / 2
            = headWord st.mem (st.heaps heap).endAddr / 2) := by
  obtain ⟨-, -, whole, header, behind⟩ := h.layout.tiles.focus
  have own := h.layout.tiles.aligned h.layout.room.aligned (b := c) (by simp)
  have last := behind.le
  have fits := h.layout.room.fits
  obtain ⟨least, multiple⟩ := size
  simp only [minChunkSize, wordSize, Span.stop] at least last fits
  obtain ⟨-, places, near, aligned⟩ := alignedChunk_spec own (by simp only [wordSize]; omega)
  have chunk : mem2Chunk (c.addr + 8) = c.addr := mem2Chunk_add (by simp only [wordSize]; omega)
  rcases places with ⟨same, page⟩ | ⟨noPage, lead⟩
  · refine ⟨st.mem, free, _, ?_, .whole same, h, .refl _ _, fun other => absurd same other,
      fun _ => .refl _ _, fun _ => rfl⟩
    rw [carveLead, chunk, if_pos page, same]
  · have csize : chunksize st.mem c.addr = c.size := chunksize_of_header header whole
    have position : (if minChunkSize
        ≤ sub32 (mem2Chunk (u32 ((c.addr + 8 &&& (wordSize - pageSize)) + pageSize)))
            (mem2Chunk (c.addr + 8)) then
          mem2Chunk (u32 ((c.addr + 8 &&& (wordSize - pageSize)) + pageSize))
        else u32 (mem2Chunk (u32 ((c.addr + 8 &&& (wordSize - pageSize)) + pageSize)) + pageSize))
        = alignedChunk (c.addr + 8) := by
      rw [alignedChunk, if_neg noPage]
    generalize alignedChunk (c.addr + 8) = pos at *
    simp only [minChunkSize] at lead
    have leadSize : sub32 pos c.addr = pos - c.addr :=
      sub32_of_le (by simp only [wordSize]; omega) (by omega)
    have rest : sub32 c.size (pos - c.addr) = c.stop - pos := by
      rw [sub32_of_le (by simp only [wordSize]; omega) (by omega)]
      simp only [Span.stop]
      omega
    obtain ⟨m', free', stored, layout, foot, spares, within, end_⟩ := h.layout.carve used
      (by simp only [minChunkSize]; omega : c.addr + minChunkSize ≤ pos)
      (by simp only [minChunkSize, Span.stop]; omega) aligned
    have flag : pinuse m' pos = pinuse st.mem pos := by
      obtain ⟨-, -, -, header', -⟩ := (List.append_cons _ _ _ ▸ layout.tiles).focus
      exact pinuse_of_header header' (by dsimp only [Span.stop]; omega)
    refine ⟨m', free', _, ?_, .lead _ (by simp only [minChunkSize]; omega), h.setMem layout,
      spares, fun _ => ⟨flag, foot⟩, within, end_⟩
    rw [chunk] at position
    rw [carveLead, if_neg noPage]
    simp only [chunk, position, leadSize, csize, rest, stored, Option.bind_eq_bind, Option.bind_some]

/-- A chunk that is long enough has the aligned one in it, with `nb` bytes behind that. -/
theorem HeapOk.alignedChunk_near (h : HeapOk heap st (front ++ c :: back) free)
    (room : nb + 4112 ≤ c.size)
    : alignedChunk (c.addr + 8) ≤ c.stop ∧ alignedChunk (c.addr + 8) + nb ≤ c.stop := by
  obtain ⟨-, -, -, -, behind⟩ := h.layout.tiles.focus
  have own := h.layout.tiles.aligned h.layout.room.aligned (b := c) (by simp)
  have last := behind.le
  have fits := h.layout.room.fits
  simp only [minChunkSize, Span.stop] at last
  obtain ⟨-, -, near, -⟩ := alignedChunk_spec own (by omega)
  simp only [Span.stop]
  omega

end Carving

-----------------------------------------------------------------------------------------
-- The remainder
-----------------------------------------------------------------------------------------

section Trimming

variable {heap nb : Nat} {st st' : Kernel} {front back : List Block} {d : Block} {free : List Span}

/-- What the cuts of the chunk at `chunk` leave alone: the chunks in front of it, its own foot, and the
payloads behind it.
-/
structure CutSpares (front back : List Block) (chunk : Nat) (m m' : Mem) : Prop where
  front : Spares front m m'
  foot : prevFoot m' chunk = prevFoot m chunk
  back : SparesPayloads back m m'

theorem CutSpares.refl (front back : List Block) (chunk : Nat) (m : Mem)
    : CutSpares front back chunk m m :=
  ⟨.refl _ _, rfl, fun _ _ => rfl⟩

theorem CutSpares.trans {chunk : Nat} {m m' m'' : Mem} (h : CutSpares front back chunk m m')
    (h' : CutSpares front back chunk m' m'')
    : CutSpares front back chunk m m'' :=
  ⟨h.front.trans h'.front, h'.foot.trans h.foot, h.back.trans h'.back⟩

/-- What is freed behind the first part of the chunk spares that part's foot. -/
theorem CutSpares.of_behind {b : Block} {chunk : Nat} {m m' : Mem}
    (first : Spares (front ++ [b]) m m') (addr : b.addr = chunk)
    (rest : SparesPayloads (markFirst back) m m')
    : CutSpares front back chunk m m' :=
  ⟨first.mono (List.subset_append_left _ _), addr ▸ first.prevFoot (by simp),
    rest.of_among (fun _ member => markFirst_keeps member)⟩

/-- A chunk in use is cut in two, both in use. -/
theorem Layout.cut {m : Mem} {head start stop : Nat}
    (h : Layout m head start stop (front ++ d :: back) free) (used : d.used = true)
    (size : ChunkSize nb) (long : nb + minChunkSize < d.size)
    : Layout (setInuse (d.addr + nb) (d.size - nb) (setInuse d.addr nb m)) head start stop
          (front ++ ⟨⟨d.addr, nb⟩, true, d.prevUsed⟩
            :: ⟨⟨d.addr + nb, d.size - nb⟩, true, true⟩ :: markFirst back) free
        ∧ CutSpares front back d.addr m (setInuse (d.addr + nb) (d.size - nb) (setInuse d.addr nb m))
        ∧ (back ≠ [] → ChangedOnly (heapByte head start stop) m
            (setInuse (d.addr + nb) (d.size - nb) (setInuse d.addr nb m)))
        ∧ (back = [] → headWord (setInuse (d.addr + nb) (d.size - nb) (setInuse d.addr nb m)) stop
            = headWord m stop / 2 * 2 + 1) := by
  obtain ⟨-, large, whole, header, behind⟩ := h.tiles.focus
  have last := behind.le
  have fits := h.room.fits
  obtain ⟨least, multiple⟩ := size
  simp only [minChunkSize, wordSize, Span.stop] at least long large last fits
  -- the header of the first part, and the flag of the second
  have changed := setInuse_changed m multiple
    (by simp only [wordSize]; omega : d.addr + nb < wordSize)
  have first := setInuse_header m d.addr nb (by omega) multiple (by simp only [wordSize]; omega)
  have flag : headWord (setInuse d.addr nb m) (d.addr + nb) % 2 = 1 := by
    rw [setInuse_next m d.addr nb (by omega) multiple (by simp only [wordSize]; omega)]
    omega
  have inside : ∀ byte, wordAt (d.addr + 4) byte ∨ wordAt (d.addr + nb + 4) byte
      → d.addr + 4 ≤ byte ∧ byte < d.stop := by
    intro byte on
    simp only [wordAt, Span.stop] at *
    omega
  have within₁ := (h.openUsed used).inside changed inside
  obtain ⟨gap₁, spares₁⟩ := (h.openUsed used).write changed inside
  have foot₁ : prevFoot (setInuse d.addr nb m) d.addr = prevFoot m d.addr :=
    changed.load32 (fun byte above below on => by simp only [wordAt] at on; omega)
  have endKept : headWord (setInuse d.addr nb m) stop = headWord m stop :=
    h.room.headWord_end (by have walk := h.tiles.le; omega) within₁
  generalize setInuse d.addr nb m = m₁ at *
  -- the second part, and the flag of what is behind it
  obtain ⟨gap₂, second, spares₂, within₂⟩ := gap₁.markUsed (d.addr + nb) (d.size - nb) (by omega)
    (by simp only [minChunkSize]; omega) (by omega) (by simp only [Span.stop]; omega)
  have changed₂ := setInuse_changed m₁ (by omega : (d.size - nb) % 8 = 0)
    (by simp only [wordSize]; omega : d.addr + nb + (d.size - nb) < wordSize)
  have firstKept : headWord (setInuse (d.addr + nb) (d.size - nb) m₁) d.addr
      = headWord m₁ d.addr :=
    headWord_of_changed changed₂ (fun byte own on => by simp only [wordAt] at own on; omega)
  have foot₂ : prevFoot (setInuse (d.addr + nb) (d.size - nb) m₁) d.addr = prevFoot m₁ d.addr :=
    changed₂.load32 (fun byte above below on => by simp only [wordAt] at on; omega)
  have end₂ : back = [] → headWord (setInuse (d.addr + nb) (d.size - nb) m₁) stop
      = headWord m₁ stop / 2 * 2 + 1 := by
    rintro rfl
    have end_ : d.addr + d.size = stop := behind
    have same : d.addr + nb + (d.size - nb) = stop := by omega
    have marked := setInuse_next m₁ (d.addr + nb) (d.size - nb) (by omega) (by omega)
      (by rw [same]; simp only [wordSize]; omega)
    rwa [same] at marked
  generalize setInuse (d.addr + nb) (d.size - nb) m₁ = m₂ at *
  have bit : headWord m d.addr % 2 = d.prevUsed.toNat := by rw [header, Block.header_mod whole]
  have gap₃ := gap₂.pushBack (b := ⟨⟨d.addr + nb, d.size - nb⟩, true, true⟩)
    (by simp only [Span.stop]; omega) (by simp only [minChunkSize]; omega) (by dsimp only; omega)
    (by simp only [second, flag, Block.header, Bool.toNat_true]) rfl
  have gap₄ := gap₃.pushFront (b := ⟨⟨d.addr, nb⟩, true, d.prevUsed⟩) rfl least multiple
    (by simp only [firstKept, first, bit, Block.header, Bool.toNat_true]) rfl
  have spares := spares₁.trans spares₂
  refine ⟨by simpa using gap₄.close, ⟨spares.mono (List.subset_append_left _ _), foot₂.trans foot₁,
    (spares.mono (List.subset_append_right _ _)).payloads⟩,
    fun some_ => within₁.trans (within₂ some_), fun none => ?_⟩
  rw [end₂ none, endKept]

/-- `trimTail` gives back a remainder of more than the minimum. -/
theorem trimTail_eq {chunk size : Nat} (own : chunksize st.mem chunk = size)
    (fits : chunk + size + 16 < wordSize) (large : nb ≤ size)
    : trimTail nb chunk heap st
      = if nb + minChunkSize < size then
          DeadKernel.free (chunk + nb + 8) heap
            { st with mem := setInuse (chunk + nb) (size - nb) (setInuse chunk nb st.mem) }
        else some st := by
  simp only [wordSize] at fits
  have sum : u32 (nb + minChunkSize) = nb + minChunkSize :=
    u32_of_lt (by simp only [minChunkSize, wordSize]; omega)
  have rest : sub32 size nb = size - nb := sub32_of_le (by simp only [wordSize]; omega) large
  have place : chunkPlusOffset chunk nb = chunk + nb := u32_of_lt (by simp only [wordSize]; omega)
  have pointer : chunk2Mem (chunk + nb) = chunk + nb + 8 :=
    u32_of_lt (by simp only [wordSize]; omega)
  rw [trimTail]
  simp only [own, sum, rest, place, pointer]

/-- The header word behind the heap, as `free` looks at it for the last chunk: a chunk in use, or
one that reaches past the end, for which `free` panics.
-/
def BehindFine (m : Mem) (stop : Nat) : Prop :=
  cinuse m stop = true ∨ stop < chunkPlusOffset stop (chunksize m stop)

/-- `free` of the last chunk panics when what is behind it is not in use and reaches past the end. -/
theorem HeapOk.free_panics (h : HeapOk heap st (front ++ [d]) free)
    (used : d.used = true) (marked : d.prevUsed = true)
    (unused : cinuse st.mem (st.heaps heap).endAddr = false)
    (past : (st.heaps heap).endAddr < chunkPlusOffset (st.heaps heap).endAddr
      (chunksize st.mem (st.heaps heap).endAddr))
    : DeadKernel.free (d.addr + 8) heap st = none := by
  obtain ⟨m, _, equation, gap, -, within⟩ := h.free_merged used (.alone marked)
  obtain ⟨-, -, -, -, end_⟩ := h.layout.tiles.focus
  have end_ : d.stop = (st.heaps heap).endAddr := end_
  have same := h.layout.room.headWord_end h.bounds.le within
  rw [end_] at equation
  have outside : okAddress (st.heaps heap).endAddr (st.heaps heap) = false := by
    rw [okAddress, decide_eq_false_iff_not]
    omega
  have unused' : cinuse m (st.heaps heap).endAddr = false := by
    rw [cinuse, same]
    exact unused
  have past' : (st.heaps heap).endAddr < chunkPlusOffset (st.heaps heap).endAddr
      (chunksize m (st.heaps heap).endAddr) := by
    rw [chunksize, same]
    exact past
  rw [equation, mergeNext]
  simp only [outside, unused', past', Bool.false_eq_true, if_false, if_true]
  split
  · rfl
  · rfl

theorem HeapOk.trim_eq (h : HeapOk heap st (front ++ d :: back) free) (large : nb ≤ d.size)
    : trimTail nb d.addr heap st
      = if nb + minChunkSize < d.size then
          DeadKernel.free (d.addr + nb + 8) heap
            { st with mem := setInuse (d.addr + nb) (d.size - nb) (setInuse d.addr nb st.mem) }
        else some st := by
  obtain ⟨-, -, whole, header, behind⟩ := h.layout.tiles.focus
  have last := behind.le
  obtain ⟨-, fits, -, aligned⟩ := h.bounds
  simp only [minChunkSize, Span.stop] at last
  refine trimTail_eq (chunksize_of_header header whole) ?_ large
  simp only [wordSize, pageSize] at *
  omega

/-- Inside the heap `trimTail` returns, and leaves the result in front of the remainder. -/
theorem HeapOk.trim_inside (h : HeapOk heap st (front ++ d :: back) free) (used : d.used = true)
    (size : ChunkSize nb) (large : nb ≤ d.size) (some_ : back ≠ [])
    : ∃ m free' size rest, trimTail nb d.addr heap st = some { st with mem := m }
        ∧ HeapOk heap { st with mem := m } (front ++ ⟨⟨d.addr, size⟩, true, d.prevUsed⟩
          :: (trimmed (d.addr + size) d.stop ++ rest)) free'
        ∧ nb ≤ size ∧ d.addr + size ≤ d.stop ∧ (rest = back ∨ rest = markFirst back)
        ∧ CutSpares front back d.addr st.mem m
        ∧ ChangedOnly (heapByte (headOf heap) (st.heaps heap).startAddr (st.heaps heap).endAddr)
          st.mem m := by
  by_cases long : nb + minChunkSize < d.size
  · obtain ⟨layout, spares, within, -⟩ := h.layout.cut used size long
    have equation := h.trim_eq large
    rw [if_pos long] at equation
    generalize setInuse (d.addr + nb) (d.size - nb) (setInuse d.addr nb st.mem) = m at *
    have cut := h.setMem layout
    rw [List.append_cons] at cut
    have marked : markFirst back ≠ [] := fun none => some_ (markFirst_none (.inr rfl) none)
    obtain ⟨m', free', released, after, first, rest, within'⟩ :=
      cut.free_inside (b := ⟨⟨d.addr + nb, d.size - nb⟩, true, true⟩) rfl (.alone rfl) marked
    have end_ : d.addr + nb + (d.size - nb) = d.stop := by
      simp only [Span.stop, minChunkSize] at *
      omega
    have inner : d.addr + nb < d.stop := by
      simp only [Span.stop, minChunkSize] at *
      omega
    simp only [Span.stop] at after
    rw [end_] at after
    refine ⟨m', free', nb, markFirst back, equation.trans released, ?_, le_refl nb, inner.le,
      .inr rfl, spares.trans (.of_behind first rfl rest), (within some_).trans within'⟩
    rw [trimmed, if_pos inner]
    simpa using after
  · refine ⟨st.mem, free, d.size, back, ?_, ?_, large, le_refl _, .inl rfl, .refl _ _ _ _, .refl _ _⟩
    · rw [h.trim_eq large, if_neg long]
    · rw [trimmed, Span.stop, if_neg (lt_irrefl _), ← used]
      exact h

/-- The part of the last chunk that `trimTail` keeps for the result at `chunk`, and where the heap
ends then.
-/
def TrimmedEnd (nb start chunk stop size newStop : Nat) : Prop :=
  if nb + minChunkSize < stop - chunk then
    size = nb ∧ newStop = start + keptSize (shrunkSize (chunk + nb) start)
  else chunk + size = stop ∧ newStop = stop

/-- `trimTail` leaves the result in front of what the heap keeps of the remainder. -/
theorem HeapOk.trim (h : HeapOk heap st (front ++ d :: back) free) (used : d.used = true)
    (size : ChunkSize nb) (large : nb ≤ d.size)
    (least : (st.heaps heap).startAddr + heapMinSize ≤ (st.heaps heap).endAddr)
    (fine : back = [] → nb + minChunkSize < d.size
      → BehindFine st.mem (st.heaps heap).endAddr)
    (run : trimTail nb d.addr heap st = some st')
    : ∃ free' size stop rest, HeapOk heap st'
          (front ++ ⟨⟨d.addr, size⟩, true, d.prevUsed⟩
            :: (trimmed (d.addr + size) stop ++ rest)) free'
        ∧ nb ≤ size ∧ d.addr + size ≤ stop ∧ (rest = back ∨ rest = markFirst back)
        ∧ (stop = d.stop ∨ back = [] ∧ stop ≤ d.stop) ∧ CutSpares front back d.addr st.mem st'.mem
        ∧ HeapKept heap st st' ∧ (back ≠ [] → st'.heaps heap = st.heaps heap)
        ∧ (back = [] → TrimmedEnd nb (st.heaps heap).startAddr d.addr d.stop size stop) := by
  have own : d.stop - d.addr = d.size := Nat.add_sub_cancel_left _ _
  by_cases some_ : back ≠ []
  · obtain ⟨m, free', size, rest, trimmed_, after, enough, le, shape, spares, -⟩ :=
      h.trim_inside used size large some_
    obtain rfl := Option.some.inj (trimmed_.symm.trans run)
    exact ⟨free', size, d.stop, rest, after, enough, le, shape, .inl rfl, spares,
      .of_record rfl least, fun _ => rfl, fun none => absurd none some_⟩
  obtain rfl := not_not.mp some_
  have top : d.stop = (st.heaps heap).endAddr := h.layout.tiles.focus.2.2.2.2
  rw [h.trim_eq large] at run
  by_cases long : nb + minChunkSize < d.size
  · rw [if_pos long] at run
    obtain ⟨layout, spares, -, end_⟩ := h.layout.cut used size long
    generalize setInuse (d.addr + nb) (d.size - nb) (setInuse d.addr nb st.mem) = m at *
    have cut := h.setMem layout
    rw [List.append_cons] at cut
    let second : Block := ⟨⟨d.addr + nb, d.size - nb⟩, true, true⟩
    -- the word behind the heap keeps its CINUSE flag and its size, and gets PINUSE
    have word := end_ rfl
    have cinuse_ : cinuse m (st.heaps heap).endAddr = cinuse st.mem (st.heaps heap).endAddr := by
      rw [cinuse_eq, cinuse_eq, word, Bool.eq_iff_iff, decide_eq_true_eq, decide_eq_true_eq]
      omega
    have pinuse_ : pinuse m (st.heaps heap).endAddr = true := by
      rw [pinuse_eq, word, decide_eq_true_eq]
      omega
    cases inuse : cinuse st.mem (st.heaps heap).endAddr with
    | true =>
        obtain ⟨newEnd, free', above, below, left, record, shrunk, first, after⟩ :=
          cut.free_last (b := second) rfl (.alone rfl) ⟨pinuse_, cinuse_.trans inuse⟩ least run
        refine ⟨free', nb, newEnd, [], by simpa [second] using after, le_refl nb, left, .inl rfl,
          .inr ⟨rfl, below.trans top.ge⟩, spares.trans (.of_behind first rfl (fun _ none => ?_)),
          ⟨by rw [record], by rw [record]; exact above, by rw [record]; exact below⟩,
          fun none => absurd rfl none, fun _ => ?_⟩
        · exact absurd none not_ownedByte_nil
        · rw [TrimmedEnd, if_pos (by rwa [own])]
          exact ⟨rfl, shrunk⟩
    | false =>
        have size_ : chunksize m (st.heaps heap).endAddr
            = chunksize st.mem (st.heaps heap).endAddr := by
          rw [chunksize_eq, chunksize_eq, word]
          omega
        have past := (fine rfl long).resolve_left (by rw [inuse]; exact Bool.false_ne_true)
        rw [← size_] at past
        have panics := cut.free_panics (d := second) rfl rfl (cinuse_.trans inuse) past
        exact absurd (panics.symm.trans run) (by simp)
  · rw [if_neg long] at run
    obtain rfl := Option.some.inj run
    refine ⟨free, d.size, d.stop, [], ?_, large, le_refl _, .inl rfl, .inl rfl, .refl _ _ _ _,
      .of_record rfl least, fun _ => rfl, fun _ => ?_⟩
    · rw [trimmed, Span.stop, if_neg (lt_irrefl _), ← used]
      exact h
    · rw [TrimmedEnd, if_neg (by rwa [own])]
      exact ⟨rfl, rfl⟩

end Trimming

-----------------------------------------------------------------------------------------
-- palignedAlloc
-----------------------------------------------------------------------------------------

/-- If the hole is the last chunk, is taken whole and leaves a remainder to give back, then the
header word behind the heap is fine.
-/
def RemainderFine (nb heap hole : Nat) (st : Kernel) : Prop :=
  hole + chunksize st.mem hole = (st.heaps heap).endAddr
    → chunksize st.mem hole < request2Size (alignedRequest nb) + minChunkSize
    → nb + minChunkSize < (st.heaps heap).endAddr - alignedChunk (hole + 8)
    → BehindFine st.mem (st.heaps heap).endAddr

/-- The chunk `c` in front of `back` is cut into a lead, the result at `chunk` and a remainder. A
remainder at the end of the heap may have shrunk with it.
-/
structure Cut (c : Block) (back : List Block) (chunk : Nat) (pieces : List Block) : Prop where
  walk : ∃ size stop flag rest, pieces = trimmed c.addr chunk
      ++ ⟨⟨chunk, size⟩, true, flag⟩ :: (trimmed (chunk + size) stop ++ rest)
    ∧ chunk + size ≤ stop ∧ (stop = c.stop ∨ back = [] ∧ stop ≤ c.stop)
    ∧ (rest = back ∨ rest = markFirst back)
  lead : chunk = c.addr ∨ c.addr + minChunkSize ≤ chunk

theorem Cut.keepsUsed {c : Block} {back pieces : List Block} {chunk : Nat}
    (h : Cut c back chunk pieces)
    : KeepsUsed back pieces := by
  obtain ⟨⟨size, stop, flag, rest, rfl, -, -, same⟩, -⟩ := h
  have kept : KeepsUsed back rest := by
    rcases same with rfl | rfl
    · exact .of_subset (List.Subset.refl _)
    · exact keepsUsed_markFirst back
  exact kept.trans (.of_subset (fun b member => by simp [member]))

/-- What a call of `palignedAlloc` returns: a page in a chunk in use that is large enough, cut from
the chunk that `alloc` delivered.
-/
structure AlignedPart (fuel size heap : Nat) (st : Kernel) (p : Nat) (st' : Kernel) : Prop where
  page : p % pageSize = 0
  inuse : cinuse st'.mem (mem2Chunk p) = true
  large : request2Size size ≤ chunksize st'.mem (mem2Chunk p)
  tiles : ∃ delivered front c back pieces free free',
    alloc fuel (alignedRequest (request2Size size)) heap st = some (c.addr + 8, delivered)
      ∧ HeapOk heap delivered (front ++ c :: back) free ∧ c.used = true
      ∧ HeapOk heap st' (front ++ pieces) free' ∧ Cut c back (mem2Chunk p) pieces

section Aligning

variable {fuel size heap nb : Nat} {st st' : Kernel} {blocks : List Block} {free : List Span}

theorem BehindFine.of_half {m m' : Mem} {stop : Nat} (h : BehindFine m stop)
    (same : headWord m' stop / 2 = headWord m stop / 2)
    : BehindFine m' stop := by
  have size : chunksize m' stop = chunksize m stop := by
    rw [chunksize_eq, chunksize_eq]
    omega
  refine h.imp (fun inuse => ?_) (fun past => by rwa [size])
  rwa [cinuse_eq, same, ← cinuse_eq]

/-- What is behind the chunk that `alloc` takes. -/
theorem takenFrom_last (nb : Nat) (b : Block) (back : List Block)
    : ∃ c rest, takenFrom nb b back = c :: rest ∧ c.used = true ∧ c.addr = b.addr
        ∧ (nb ≤ b.size → nb ≤ c.size) ∧ KeepsUsed back rest
        ∧ (rest = [] → back = [] ∧ c.size = b.size ∧ b.size < nb + minChunkSize) := by
  rw [takenFrom]
  split
  · exact ⟨_, _, rfl, rfl, rfl, fun _ => le_refl nb, .of_subset (List.subset_cons_self _ _),
      fun none => absurd none (List.cons_ne_nil _ _)⟩
  · rename_i tight
    exact ⟨_, _, rfl, rfl, rfl, fun large => large, keepsUsed_markFirst back,
      fun none => ⟨markFirst_none (.inr rfl) none, rfl, not_le.mp tight⟩⟩

/-- Growing moves the end of a heap up only. -/
theorem AllocFrom.least {from_ : Kernel} {blocks' : List Block}
    (h : AllocFrom nb heap st blocks from_ blocks')
    (least : (st.heaps heap).startAddr + heapMinSize ≤ (st.heaps heap).endAddr)
    (aligned : (st.heaps heap).endAddr % pageSize = 0)
    : (from_.heaps heap).startAddr + heapMinSize ≤ (from_.heaps heap).endAddr := by
  cases h with
  | here => exact least
  | grown aside expanded record top le only within =>
      rw [record]
      simp only [grownEnd, pageSize] at *
      omega

/-- The chunk that `alloc` delivers for `palignedAlloc`, with the word behind the heap. -/
theorem HeapOk.delivered {mem : Nat} {delivered : Kernel} (h : HeapOk heap st blocks free)
    (least : (st.heaps heap).startAddr + heapMinSize ≤ (st.heaps heap).endAddr)
    (fits : nb + 4119 < wordSize) (chunk : ChunkSize nb)
    (aside : AllocAside fuel (alignedRequest nb) heap st)
    (fine : HoleIs (RemainderFine nb heap) fuel (alignedRequest nb) heap st)
    (run : DeadKernel.alloc fuel (alignedRequest nb) heap st = some (mem, delivered))
    : ∃ front c back free', HeapOk heap delivered (front ++ c :: back) free' ∧ c.used = true
        ∧ mem = c.addr + 8 ∧ nb + 4112 ≤ c.size
        ∧ (delivered.heaps heap).startAddr + heapMinSize ≤ (delivered.heaps heap).endAddr
        ∧ (back = [] → nb + minChunkSize < c.stop - alignedChunk (c.addr + 8)
          → BehindFine delivered.mem (delivered.heaps heap).endAddr)
        ∧ ∃ from_ b behind, AllocFrom (request2Size (alignedRequest nb)) heap st blocks from_
            (front ++ b :: behind)
          ∧ b.used = false ∧ c.addr = b.addr ∧ KeepsUsed behind back
          ∧ takenFrom (request2Size (alignedRequest nb)) b behind = c :: back
          ∧ delivered.heaps = from_.heaps
          ∧ (∃ free₁, HeapOk heap from_ (front ++ b :: behind) free₁)
          ∧ Spares (front ++ behind) from_.mem delivered.mem
          ∧ ∀ good, HoleIs good fuel (alignedRequest nb) heap st → good b.addr from_ := by
  obtain ⟨request, padded⟩ := alignedRequest_eq fits chunk.aligned
  obtain ⟨from_, front, b, back, _, free', source, ok, unused, large, rfl, took, after, good⟩ :=
    h.alloc (by rw [request]; omega) aside run
  have asked := good _ fine
  have kept := source.least least h.endAligned
  rw [padded] at large took after ⊢
  obtain ⟨m, _, taken, -, spares, -, half⟩ := ok.takeHole unused
    ⟨by simp only [minChunkSize]; omega, by have aligned := chunk.aligned; omega⟩ large
  obtain ⟨-, rfl⟩ := Prod.mk.inj (Option.some.inj (taken.symm.trans took))
  obtain ⟨-, own⟩ := ok.chunksize_mem (b := b) (by simp)
  obtain ⟨-, -, -, -, behind⟩ := ok.layout.tiles.focus
  obtain ⟨c, rest, first, used, addr, enough, keeps, last⟩ := takenFrom_last (nb + 4112) b back
  rw [padded] at source
  rw [first] at after
  refine ⟨front, c, rest, free', after, used, by rw [addr], enough large, kept, fun none long => ?_,
    from_, b, back, source, unused, addr, keeps, first, rfl, ⟨_, ok⟩, spares, good⟩
  obtain ⟨rfl, size, tight⟩ := last none
  have end_ : b.addr + b.size = (from_.heaps heap).endAddr := behind
  have stop : c.stop = (from_.heaps heap).endAddr := by rw [Span.stop, addr, size, end_]
  rw [RemainderFine, own, padded] at asked
  rw [addr, stop] at long
  exact (asked end_ tight long).of_half half

/-- The stages of `palignedAlloc` behind its `alloc`. -/
theorem HeapOk.cutUp {front back : List Block} {c : Block} {chunk : Nat} {carved : Kernel}
    (h : HeapOk heap st (front ++ c :: back) free) (used : c.used = true)
    (room : nb + 4112 ≤ c.size) (size : ChunkSize nb)
    (least : (st.heaps heap).startAddr + heapMinSize ≤ (st.heaps heap).endAddr)
    (fine : back = [] → nb + minChunkSize < c.stop - alignedChunk (c.addr + 8)
      → BehindFine st.mem (st.heaps heap).endAddr)
    (lead : carveLead (c.addr + 8) heap st = some (chunk, carved))
    (tail : trimTail nb chunk heap carved = some st')
    : ∃ pieces free' result, HeapOk heap st' (front ++ pieces) free' ∧ Cut c back chunk pieces
        ∧ (chunk + 8) % pageSize = 0 ∧ result ∈ pieces ∧ result.addr = chunk ∧ result.used = true
        ∧ nb ≤ result.size ∧ Spares front st.mem st'.mem ∧ SparesPayloads back st.mem st'.mem
        ∧ HeapKept heap st st' ∧ chunk = alignedChunk (c.addr + 8)
        ∧ (back ≠ [] → st'.heaps heap = st.heaps heap)
        ∧ (result.stop = (st'.heaps heap).endAddr → back = []
          ∧ TrimmedEnd nb (st.heaps heap).startAddr chunk c.stop result.size result.stop) := by
  obtain ⟨m, free₁, cut, moved, carved_, ok, spares, -, -, end_⟩ := h.carve used room size
  obtain ⟨rfl, rfl⟩ := Prod.mk.inj (Option.some.inj (moved.symm.trans lead))
  obtain ⟨-, -, -, -, behind⟩ := h.layout.tiles.focus
  have own := h.layout.tiles.aligned h.layout.room.aligned (b := c) (by simp)
  have last := behind.le
  have fits := h.layout.room.fits
  simp only [minChunkSize, Span.stop] at last
  obtain ⟨page, -, near, -⟩ := alignedChunk_spec own (by omega)
  generalize alignedChunk (c.addr + 8) = chunk at *
  simp only [Span.stop] at fine
  obtain ⟨d, rest, rfl, usedD, rfl, stop, same, place⟩ := carved_.shape used
    (by simp only [Span.stop]; omega)
  simp only [Span.stop] at stop
  rw [← List.append_assoc] at ok
  obtain ⟨free', newSize, newStop, rest', after, large, le, shape, end', cut, kept, record, last⟩ :=
    ok.trim usedD size (by omega) least (fun none long => by
      have bare := markFirst_none same none
      exact (fine bare (by omega)).of_half (end_ bare)) tail
  rw [List.append_assoc] at after
  refine ⟨_, free', _, after, ⟨⟨newSize, newStop, d.prevUsed, rest', rfl, le, ?_, ?_⟩, place⟩, page,
    List.mem_append_right _ List.mem_cons_self, rfl, rfl, large,
    (spares.mono (List.subset_append_left _ _)).trans (cut.front.mono (List.subset_append_left _ _)),
    (spares.mono (List.subset_append_right _ _)).payloads.trans (cut.back.of_among ?_),
    ⟨kept.startAddr, kept.least, kept.below⟩, rfl, fun some_ => record (fun none => some_ ?_),
    fun end_ => ?_⟩
  · have whole : d.stop = c.stop := stop
    rw [← whole]
    exact end'.imp_right (And.imp_left (markFirst_none same))
  · rcases same with rfl | rfl
    · exact shape
    · exact .inr (shape.elim id (fun twice => twice.trans (markFirst_markFirst back)))
  · rcases same with rfl | rfl
    · exact fun b member => ⟨b, member, rfl, rfl⟩
    · exact fun b member => markFirst_keeps member
  · exact markFirst_none same none
  · have walk := after.layout.tiles
    rw [← List.append_assoc] at walk
    obtain ⟨nothing, none⟩ := List.append_eq_nil_iff.mp (walk.none_behind end_)
    have bare : rest = [] := markFirst_none shape none
    have told := last bare
    have end' : newStop = d.addr + newSize := by
      rw [trimmed] at nothing
      split at nothing
      · exact absurd nothing (List.cons_ne_nil _ _)
      · omega
    have whole : d.stop = c.stop := stop
    rw [end', whole] at told
    exact ⟨markFirst_none same bare, told⟩

theorem palignedAlloc_of_stages {alloc : Alloc} {mem chunk : Nat} {delivered carved : Kernel}
    (took : alloc (alignedRequest (request2Size size)) heap st = some (mem, delivered))
    (some_ : mem ≠ 0) (lead : carveLead mem heap delivered = some (chunk, carved))
    (tail : trimTail (request2Size size) chunk heap carved = some st')
    (large : request2Size size ≤ chunksize st'.mem chunk) (page : chunk2Mem chunk % pageSize = 0)
    (inuse : cinuse st'.mem chunk = true)
    : palignedAllocWith alloc size heap st = some (chunk2Mem chunk, st') := by
  rw [palignedAllocWith]
  refine Option.bind_eq_some_iff.mpr ⟨(mem, delivered), took, ?_⟩
  dsimp only
  rw [if_neg some_]
  refine Option.bind_eq_some_iff.mpr ⟨(chunk, carved), lead, ?_⟩
  refine Option.bind_eq_some_iff.mpr ⟨st', tail, ?_⟩
  refine Option.bind_eq_some_iff.mpr ⟨(), (Option.guard_eq_some' ()).mpr large, ?_⟩
  refine Option.bind_eq_some_iff.mpr ⟨(), (Option.guard_eq_some' ()).mpr page, ?_⟩
  exact Option.bind_eq_some_iff.mpr ⟨(), (Option.guard_eq_some' ()).mpr inuse, rfl⟩

/-- A call of `palignedAlloc` that returns has gone through its stages. -/
theorem palignedAlloc_stages {alloc : Alloc} {p : Nat}
    (run : palignedAllocWith alloc size heap st = some (p, st'))
    : ∃ mem delivered, alloc (alignedRequest (request2Size size)) heap st = some (mem, delivered)
        ∧ (mem ≠ 0 → ∃ chunk carved, carveLead mem heap delivered = some (chunk, carved)
          ∧ trimTail (request2Size size) chunk heap carved = some st' ∧ p = chunk2Mem chunk) := by
  simp only [palignedAllocWith, Option.bind_eq_bind, Option.bind_eq_some_iff] at run
  obtain ⟨⟨mem, delivered⟩, took, run⟩ := run
  refine ⟨mem, delivered, took, fun some_ => ?_⟩
  rw [if_neg some_] at run
  simp only [Option.bind_eq_some_iff] at run
  obtain ⟨⟨chunk, carved⟩, lead, left, tail, -, -, -, -, -, -, same⟩ := run
  obtain ⟨rfl, rfl⟩ := Prod.mk.inj (Option.some.inj same)
  exact ⟨chunk, carved, lead, tail, rfl⟩

/-- The stages of `palignedAlloc` lead to its end. -/
theorem HeapOk.aligned {mem chunk : Nat} {delivered carved : Kernel}
    (h : HeapOk heap st blocks free)
    (least : (st.heaps heap).startAddr + heapMinSize ≤ (st.heaps heap).endAddr)
    (fits : size + pageSize + 64 < wordSize)
    (aside : AllocAside fuel (alignedRequest (request2Size size)) heap st)
    (fine : HoleIs (RemainderFine (request2Size size) heap) fuel
      (alignedRequest (request2Size size)) heap st)
    (took : DeadKernel.alloc fuel (alignedRequest (request2Size size)) heap st
      = some (mem, delivered))
    (lead : carveLead mem heap delivered = some (chunk, carved))
    (tail : trimTail (request2Size size) chunk heap carved = some st')
    : palignedAlloc fuel size heap st = some (chunk2Mem chunk, st')
        ∧ AlignedPart fuel size heap st (chunk2Mem chunk) st' := by
  simp only [pageSize] at fits
  obtain ⟨nb, -, most⟩ := request2Size_spec (by omega : size + 11 < wordSize)
  obtain ⟨front, c, back, free₁, ok, used, rfl, room, least', fine', -⟩ :=
    h.delivered least (by omega) nb aside fine took
  obtain ⟨pieces, free', result, after, cut, page, member, rfl, inuse, large, -⟩ :=
    ok.cutUp used room nb least' fine' lead tail
  obtain ⟨chunk, csize⟩ := after.chunksize_mem (List.mem_append_right front member)
  obtain ⟨-, below, least'', whole, header⟩ :=
    after.layout.tiles.block (List.mem_append_right front member)
  have cinuse_ : cinuse st'.mem result.addr = true := by rw [cinuse_of_header header whole, inuse]
  have pointer := after.chunk2Mem_mem (List.mem_append_right front member)
  rw [pointer]
  refine ⟨?_, ⟨page, by rwa [chunk], by rwa [chunk, csize], ?_⟩⟩
  · rw [← pointer] at page ⊢
    exact palignedAlloc_of_stages took (Nat.succ_ne_zero _) lead tail (by rwa [csize]) page cinuse_
  · rw [chunk]
    exact ⟨delivered, front, c, back, pieces, free₁, free', took, ok, used, after, cut⟩

end Aligning

end DeadKernel
