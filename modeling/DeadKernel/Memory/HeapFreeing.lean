import DeadKernel.Memory.HeapAllocating

/-! `free` on the layout of a heap. The flag of a chunk inside the heap that tells that the chunk
in front of it is in use is never cleared by `free`, so that a block is merged backwards only where
`palignedAlloc` left the flag clear; the forward branch is taken for the end of the heap only.
-/

namespace DeadKernel

open Words Rings

-----------------------------------------------------------------------------------------
-- Merging backwards
-----------------------------------------------------------------------------------------

/-- Where the block that `free` releases starts and what stays in front of it: at the chunk
itself, or at a free chunk in front that the chunk's foot tells the size of.
-/
inductive MergesAt (m : Mem) (b : Block) : List Block → List Block → Nat → Prop where
  | alone {front : List Block} (marked : b.prevUsed = true) : MergesAt m b front front b.addr
  | joined {front : List Block} {a : Block} (clear : b.prevUsed = false) (unused : a.used = false)
      (foot : prevFoot m b.addr = a.size)
      : MergesAt m b (front ++ [a]) front a.addr

section Merging

variable {heap addr : Nat} {st : Kernel} {before front back : List Block} {b : Block}
  {free : List Span}

theorem MergesAt.size {m : Mem} {start : Nat} (merges : MergesAt m b before front addr)
    (tiles : Tiles m start (before ++ b :: back) (st.heaps heap).endAddr)
    (aligned : start % 8 = 0)
    : start ≤ addr ∧ addr + minChunkSize ≤ b.stop ∧ addr % 8 = 0 ∧ b.stop % 8 = 0 := by
  have own := tiles.block (b := b) (by simp)
  have ownAligned := tiles.aligned aligned (b := b) (by simp)
  cases merges with
  | alone marked =>
      simp only [Span.stop]
      exact ⟨own.1, by omega, ownAligned, by omega⟩
  | @joined front a clear unused foot =>
      have other := tiles.block (b := a) (by simp)
      have otherAligned := tiles.aligned aligned (b := a) (by simp)
      have behind : a.stop ≤ b.addr := by
        have apart := tiles.apart
        simp only [List.append_assoc, List.singleton_append, List.pairwise_append,
          List.pairwise_cons] at apart
        exact apart.2.1.1 b (by simp)
      simp only [Span.stop] at *
      exact ⟨other.1, by omega, otherAligned, by omega⟩

/-- The backward branch opens a gap that ends behind the chunk. -/
theorem HeapOk.mergePrev (h : HeapOk heap st (before ++ b :: back) free) (used : b.used = true)
    (merges : MergesAt st.mem b before front addr)
    : ∃ m free', mergePrev b.addr b.size heap st = some (addr, b.stop - addr, { st with mem := m })
        ∧ Gap m (headOf heap) (st.heaps heap).startAddr addr b.stop (st.heaps heap).endAddr front
          back free'
        ∧ Spares (front ++ back) st.mem m
        ∧ ChangedOnly (heapByte (headOf heap) (st.heaps heap).startAddr (st.heaps heap).endAddr)
          st.mem m := by
  obtain ⟨below, fits, -, -⟩ := h.bounds
  obtain ⟨inside, behind, large, aligned, header⟩ := h.layout.tiles.block (b := b) (by simp)
  have flag : pinuse st.mem b.addr = b.prevUsed := pinuse_of_header header aligned
  cases merges with
  | alone marked =>
      refine ⟨st.mem, free, ?_, h.layout.openUsed used, .refl _ _, .refl _ _⟩
      rw [DeadKernel.mergePrev, flag, marked, if_pos rfl, Span.stop, Nat.add_sub_cancel_left]
  | @joined front a clear unused foot =>
      have walk := h.layout.tiles
      rw [List.append_assoc, List.singleton_append] at walk
      obtain ⟨left, largeA, alignedA, headerA, same, -⟩ := walk.focus
      have start := left.le
      have layout := h.layout
      rw [List.append_assoc, List.singleton_append] at layout
      obtain ⟨⟨free', gap⟩, -, spares, within⟩ := layout.openFree unused
      have spares : Spares (front ++ back) st.mem (removeChunk a.addr st.mem) :=
        spares.mono (List.append_subset.mpr
          ⟨List.subset_append_left _ _, fun c inside => by simp [inside]⟩)
      simp only [Span.stop, wordSize, minChunkSize] at *
      have prev : chunkMinusOffset b.addr a.size = a.addr := by
        rw [chunkMinusOffset, sub32_of_le (by simp only [wordSize]; omega) (by omega)]
        omega
      have okay : okAddress a.addr (st.heaps heap) = true := by
        rw [okAddress, decide_eq_true_eq]
        omega
      have size : u32 (b.size + a.size) = b.addr + b.size - a.addr := by
        rw [u32_of_lt (by simp only [wordSize]; omega)]
        omega
      refine ⟨removeChunk a.addr st.mem, free', ?_, gap.absorb used, spares, within⟩
      rw [DeadKernel.mergePrev, flag, clear, if_neg Bool.false_ne_true]
      simp only [foot, prev, okay, size, not_true_eq_false, if_false]

/-- `free` of a chunk of the walk, behind its backward branch. -/
theorem HeapOk.free_merged (h : HeapOk heap st (before ++ b :: back) free) (used : b.used = true)
    (merges : MergesAt st.mem b before front addr)
    : ∃ m free', DeadKernel.free (b.addr + 8) heap st
          = (mergeNext (b.stop - addr) b.stop heap { st with mem := m }).bind
            (fun merged => releaseBlock addr merged.1 heap merged.2)
        ∧ Gap m (headOf heap) (st.heaps heap).startAddr addr b.stop (st.heaps heap).endAddr front
          back free'
        ∧ Spares (front ++ back) st.mem m
        ∧ ChangedOnly (heapByte (headOf heap) (st.heaps heap).startAddr (st.heaps heap).endAddr)
          st.mem m := by
  obtain ⟨m, free', merged, gap, spares, within⟩ := h.mergePrev used merges
  refine ⟨m, free', ?_, gap, spares, within⟩
  obtain ⟨below, fits, -, -⟩ := h.bounds
  obtain ⟨inside, behind, large, aligned, header⟩ := h.layout.tiles.block (b := b) (by simp)
  obtain ⟨first, room, -, -⟩ := merges.size h.layout.tiles h.layout.room.aligned
  simp only [Span.stop, wordSize, minChunkSize] at *
  have chunk : mem2Chunk (b.addr + 8) = b.addr := by
    rw [mem2Chunk, sub32_of_le (by simp only [wordSize]; omega) (by omega), Nat.add_sub_cancel]
  have okay : okAddress (b.addr + 8) (st.heaps heap) = true := by
    rw [okAddress, decide_eq_true_eq]
    omega
  have inuse : okInuse st.mem b.addr = true := by
    rw [okInuse_eq, cinuse_of_header header aligned, used]
    rfl
  have size : chunksize st.mem b.addr = b.size := chunksize_of_header header aligned
  have next : chunkPlusOffset addr (b.addr + b.size - addr) = b.addr + b.size := by
    rw [chunkPlusOffset, u32_of_lt (by simp only [wordSize]; omega)]
    omega
  rw [DeadKernel.free, if_neg (Nat.succ_ne_zero _)]
  simp only [chunk, okay, inuse, size, merged, not_true_eq_false, if_false, Option.bind_some, next]

-----------------------------------------------------------------------------------------
-- Inside the heap
-----------------------------------------------------------------------------------------

/-- A gap becomes a free chunk, with its size behind it. -/
theorem Gap.release {m : Mem} {head start low high stop : Nat}
    (gap : Gap m head start low high stop front back free) (large : low + minChunkSize ≤ high)
    (aligned : (high - low) % 8 = 0) (some_ : back ≠ [])
    : ∃ m' free', insertChunk low head
          (setSizeAndPinuse low (high - low) (store32 m high (high - low))) = some m'
        ∧ Layout m' head start stop (front ++ topBlock low high :: back) free'
        ∧ Spares front m m' ∧ SparesPayloads back m m'
        ∧ ChangedOnly (heapByte head start stop) m m' := by
  have first := gap.before.le
  have last := gap.behind.le
  have away := gap.room.away
  have fits := gap.room.fits
  have length := List.length_pos_iff.mpr some_
  simp only [minChunkSize] at large last
  have foot : ChangedOnly (wordAt high) m (store32 m high (high - low)) :=
    .store (fun _ above below => ⟨above, below⟩)
  have footed := gap.change (fun byte kept => foot byte (fun on => by
    simp only [wordAt] at on
    omega))
  obtain ⟨header, changed⟩ := setSizeAndPinuse_spec (store32 m high (high - low)) low aligned
    (by omega)
  have inside : ∀ byte, wordAt (low + 4) byte → low + 4 ≤ byte ∧ byte < high := by
    intro byte on
    simp only [wordAt] at on
    omega
  have within := footed.inside changed inside
  obtain ⟨written, marked⟩ := footed.write changed inside
  have end_ : (topBlock low high).stop = high := by
    simp only [topBlock, Span.stop]
    omega
  obtain ⟨m', free', stored, closed, -, listed, within'⟩ := written.insertFront (b := topBlock low high)
    rfl (by simp only [topBlock, minChunkSize]; omega) (le_of_eq end_) aligned header rfl
  rw [end_] at closed
  refine ⟨m', free', stored, by simpa using closed.close, ?_, ?_,
    ((foot.mono ?_).trans within).trans within'⟩
  · refine (Spares.trans (fun byte spared => foot byte (fun on => ?_)) (marked.mono (by simp))).trans
      (listed.mono (by simp))
    have low_ := gap.before.spared_below spared
    simp only [wordAt] at on
    omega
  · refine (SparesPayloads.trans (fun byte owned => foot byte (fun on => ?_))
      (marked.mono (by simp)).payloads).trans (listed.mono (by simp)).payloads
    have above := gap.behind.owned_above owned
    simp only [wordAt] at on
    omega
  · intro byte on
    simp only [wordAt, heapByte] at *
    omega

/-- A chunk inside the heap is freed whatever lies around it. -/
theorem HeapOk.free_inside (h : HeapOk heap st (before ++ b :: back) free) (used : b.used = true)
    (merges : MergesAt st.mem b before front addr) (some_ : back ≠ [])
    : ∃ m free', DeadKernel.free (b.addr + 8) heap st = some { st with mem := m }
        ∧ HeapOk heap { st with mem := m } (front ++ topBlock addr b.stop :: back) free'
        ∧ Spares front st.mem m ∧ SparesPayloads back st.mem m
        ∧ ChangedOnly (heapByte (headOf heap) (st.heaps heap).startAddr (st.heaps heap).endAddr)
          st.mem m := by
  obtain ⟨m, _, run, gap, spares, within⟩ := h.free_merged used merges
  obtain ⟨below, fits, -, -⟩ := h.bounds
  obtain ⟨first, room, addrAligned, stopAligned⟩ := merges.size h.layout.tiles h.layout.room.aligned
  have last := gap.behind.le
  have length := List.length_pos_iff.mpr some_
  have positive := h.layout.room.positive
  obtain ⟨m', free', stored, layout, sparesFront, sparesBack, within'⟩ :=
    gap.release room (by omega) some_
  have sparesFront := (spares.mono (List.subset_append_left front back)).trans sparesFront
  have sparesBack := (spares.mono (List.subset_append_right front back)).payloads.trans sparesBack
  simp only [wordSize, minChunkSize] at *
  have okay : okAddress b.stop (st.heaps heap) = true := by
    rw [okAddress, decide_eq_true_eq]
    omega
  have next : chunkPlusOffset addr (b.stop - addr) = b.stop := by
    rw [chunkPlusOffset, u32_of_lt (by simp only [wordSize]; omega)]
    omega
  have inner : b.stop ≠ (st.heaps heap).endAddr := by omega
  have block : addr ≠ 0 ∧ b.stop - addr ≠ 0 := by omega
  refine ⟨m', free', ?_, h.setMem layout, sparesFront, sparesBack, within.trans within'⟩
  rw [run, DeadKernel.mergeNext, if_pos okay, Option.bind_some, releaseBlock]
  simp only [next, inner, if_false, listBlock, block, ne_eq, not_false_eq_true, and_self, if_true,
    setFoot, stored, Option.bind_some]

/-- A link of the free list, to its head or into the heap, then stands where the block began. -/
theorem HeapOk.free_links (h : HeapOk heap st (before ++ b :: back) free) (used : b.used = true)
    (marked : b.prevUsed = true) (some_ : back ≠ [])
    : ∃ m, DeadKernel.free (b.addr + 8) heap st = some { st with mem := m }
        ∧ (load32 m (b.addr + 8) = headOf heap
          ∨ (st.heaps heap).startAddr ≤ load32 m (b.addr + 8)) := by
  obtain ⟨m, free', run, ok, -⟩ := h.free_inside used (.alone marked) some_
  refine ⟨m, run, ?_⟩
  have listed : (topBlock b.addr b.stop).toSpan ∈ free' := by
    refine ok.layout.listed.mem_iff.mpr ?_
    simp [freeSpans, topBlock]
  obtain ⟨front, rest, split⟩ := List.append_of_mem listed
  have ring := ok.layout.list.ring
  rw [split, List.map_append, List.map_cons] at ring
  obtain ⟨-, -, next, behind, -, back_eq, next_eq, -⟩ := ring.around
  have same : load32 m (b.addr + 8) = next := next_eq
  have member : next ∈ rest.map Span.node ++ [headOf heap] := back_eq ▸ List.mem_cons_self
  rcases List.mem_append.mp member with node | head
  · obtain ⟨span, inside, rfl⟩ := List.mem_map.mp node
    have own : span ∈ free' := by
      rw [split]
      exact List.mem_append_right _ (List.mem_cons_of_mem _ inside)
    obtain ⟨other, placed, -, rfl⟩ := mem_freeSpans.mp (ok.layout.listed.mem_iff.mp own)
    have above := (ok.layout.tiles.block placed).1
    refine .inr ?_
    rw [same]
    exact above.trans (Nat.le_add_right _ 8)
  · exact .inl (same.trans (List.mem_singleton.mp head))

end Merging

-----------------------------------------------------------------------------------------
-- contract
-----------------------------------------------------------------------------------------

theorem freeFrame_keeps (ref : PageRef) (st : Kernel)
    : (freeFrame ref st).heaps = st.heaps ∧ (freeFrame ref st).mem = st.mem
      ∧ (freeFrame ref st).dirs = st.dirs := by
  rw [freeFrame]
  dsimp only
  split
  · exact ⟨rfl, rfl, rfl⟩
  · exact ⟨rfl, rfl, rfl⟩

/-- The loop of `contract` works on page tables and the bitmap, by induction on its rounds. -/
theorem contractPages_keeps {heap newSize fuel i : Nat} {st st' : Kernel}
    (run : contractPages heap newSize fuel i st = some st')
    : st'.heaps = st.heaps ∧ st'.mem = st.mem := by
  induction fuel generalizing i st with
  | zero => contradiction
  | succ fuel ih =>
      rw [contractPages] at run
      split at run
      · obtain ⟨⟨entry, seen⟩, looked, behind⟩ := Option.bind_eq_some_iff.mp run
        obtain ⟨ref, -, rest⟩ := Option.bind_eq_some_iff.mp behind
        obtain ⟨-, rfl⟩ := getPage_lookup looked
        obtain ⟨heaps, mem⟩ := ih rest
        obtain ⟨heaps', mem', -⟩ := freeFrame_keeps ref seen
        exact ⟨heaps.trans heaps', mem.trans mem'⟩
      · obtain rfl := Option.some.inj run
        exact ⟨rfl, rfl⟩

/-- The size that `contract` leaves of a heap. -/
def keptSize (newSize : Nat) : Nat :=
  if (newSize + 4095) / 4096 * 4096 < heapMinSize then heapMinSize
  else (newSize + 4095) / 4096 * 4096

theorem keptSize_spec {newSize size : Nat} (less : newSize ≤ size) (whole : size % 4096 = 0)
    (least : heapMinSize ≤ size)
    : newSize ≤ keptSize newSize ∧ keptSize newSize % 4096 = 0
      ∧ heapMinSize ≤ keptSize newSize ∧ keptSize newSize ≤ size := by
  simp only [keptSize, heapMinSize] at *
  split <;> omega

/-- `contract` moves the end of the heap and touches no memory. -/
theorem contract_effect {heap newSize kept : Nat} {st st' : Kernel} (h : HeapBounds heap st)
    (run : contract newSize heap st = some (kept, st'))
    : newSize < (st.heaps heap).endAddr - (st.heaps heap).startAddr ∧ kept = keptSize newSize
      ∧ st'.heaps heap = { st.heaps heap with endAddr := u32 ((st.heaps heap).startAddr + kept) }
      ∧ st'.mem = st.mem := by
  have oldSize := h.size
  obtain ⟨le, fits, startAligned, endAligned⟩ := h
  simp only [contract, oldSize, Option.bind_eq_bind, Option.bind_eq_some_iff,
    Option.guard_eq_some', Option.some.injEq, Prod.mk.injEq] at run
  obtain ⟨-, less, freed, loop, rfl, rfl⟩ := run
  have rounded : roundToPage newSize = (newSize + 4095) / 4096 * 4096 := by
    refine roundToPage_eq ?_
    simp only [wordSize, pageSize] at *
    omega
  obtain ⟨heaps, mem⟩ := contractPages_keeps loop
  refine ⟨less, ?_, ?_, mem⟩
  · rw [rounded, keptSize]
  · rw [Kernel.heaps_setHeap, heaps]

/-- The loop of `contract` returns over mapped pages, by induction on its rounds. -/
theorem contractPages_returns {heap newSize fuel i : Nat} {st : Kernel}
    (pages : HeapPages heap st) (startAligned : (st.heaps heap).startAddr % pageSize = 0)
    (aligned : i % pageSize = 0) (sizeAligned : newSize % pageSize = 0) (positive : 0 < newSize)
    (below : (st.heaps heap).startAddr + (i + pageSize) ≤ (st.heaps heap).maxAddr)
    (mapped : ∀ address, IsPage address → (st.heaps heap).startAddr ≤ address
      → address < (st.heaps heap).startAddr + (i + pageSize)
      → (st.pageOf (st.heaps heap).pageDir address).isSome = true)
    (enough : i / pageSize < fuel)
    : ∃ st', contractPages heap newSize fuel i st = some st' := by
  have fits := pages.fits
  simp only [pageSize, wordSize] at fits startAligned aligned sizeAligned below enough mapped
  induction fuel generalizing i st with
  | zero => exact absurd enough (Nat.not_lt_zero _)
  | succ fuel ih =>
      rw [contractPages]
      split
      · rename_i more
        have least : 4096 ≤ i :=
          (Nat.le_of_dvd positive (Nat.dvd_of_mod_eq_zero sizeAligned)).trans more
        obtain ⟨down, rfl⟩ := Nat.exists_eq_add_of_le' least
        rw [Nat.add_mod_right] at aligned
        rw [Nat.add_div_right _ (by decide)] at enough
        have place : u32 ((st.heaps heap).startAddr + (down + 4096))
            = (st.heaps heap).startAddr + (down + 4096) :=
          u32_of_lt (by simp only [wordSize]; omega)
        have next : sub32 (down + 4096) pageSize = down := by
          rw [sub32_of_le (by simp only [wordSize]; omega) least, Nat.add_sub_cancel]
        have page : IsPage ((st.heaps heap).startAddr + (down + 4096)) :=
          ⟨by simp only [pageSize]; omega, by simp only [wordSize]; omega⟩
        obtain ⟨ref, found⟩ := Option.isSome_iff_exists.mp
          (mapped _ page (by omega) (by omega))
        have looked := getPage_of_pageOf found (fun _ _ _ _ => none) false
        have freed := freeFrame_freed pages page (by omega) (by omega) found
        obtain ⟨heaps, -, dirs⟩ := freeFrame_keeps ref st
        have same (dir address : Nat) : (freeFrame ref st).pageOf dir address = st.pageOf dir address := by
          rw [Kernel.pageOf, Kernel.pageOf, dirs]
        rw [place, looked]
        simp only [Option.bind_eq_bind, Option.bind_some, next]
        have fewer : (st.heaps heap).startAddr + (down + 4096)
            ≤ (st.heaps heap).startAddr + (down + 4096 + 4096) :=
          Nat.add_le_add_left (Nat.le_add_right _ 4096) _
        refine ih freed.pages ?_ aligned ?_ ?_ (Nat.lt_of_succ_lt_succ enough) ?_
        · rw [heaps]
          exact startAligned
        · rw [heaps]
          exact fewer.trans below
        · intro address page above below
          rw [heaps] at above below ⊢
          rw [same]
          exact mapped address page above (below.trans_le fewer)
        · rw [heaps]
          exact fits
      · exact ⟨st, rfl⟩

/-- `contract` to a smaller size returns. -/
theorem contract_returns {heap newSize : Nat} {st : Kernel} (h : HeapBounds heap st)
    (extent : HeapExtent heap st)
    (pages : HeapPages heap st)
    (less : newSize < (st.heaps heap).endAddr - (st.heaps heap).startAddr)
    : ∃ kept st', contract newSize heap st = some (kept, st') := by
  have oldSize := h.size
  obtain ⟨le, fits, startAligned, endAligned⟩ := h
  have least := extent.least
  have most := extent.most
  have limit := pages.fits
  simp only [pageSize, wordSize, heapMinSize] at fits endAligned startAligned least limit
  have rounded : roundToPage newSize = (newSize + 4095) / 4096 * 4096 := by
    refine roundToPage_eq ?_
    simp only [wordSize, pageSize]
    omega
  obtain ⟨down, size⟩ := Nat.exists_eq_add_of_le'
    (by omega : 4096 ≤ (st.heaps heap).endAddr - (st.heaps heap).startAddr)
  have downAligned : down % 4096 = 0 := by
    have whole : ((st.heaps heap).endAddr - (st.heaps heap).startAddr) % 4096 = 0 := by omega
    rwa [size, Nat.add_mod_right] at whole
  have next : sub32 (down + 4096) pageSize = down := by
    rw [sub32_of_le (by simp only [wordSize]; omega) (Nat.le_add_left _ _), Nat.add_sub_cancel]
  obtain ⟨above, whole, positive, -⟩ := keptSize_spec less.le (by omega)
    (by simp only [heapMinSize]; omega)
  simp only [heapMinSize] at positive
  have top : (st.heaps heap).startAddr + (down + pageSize) = (st.heaps heap).endAddr := by
    rw [pageSize, ← size]
    omega
  have rounds : down / pageSize < pageLoopFuel := by
    simp only [pageSize, pageLoopFuel]
    omega
  obtain ⟨st', loop⟩ : ∃ st', contractPages heap (keptSize newSize) pageLoopFuel down st = some st' := by
    refine contractPages_returns pages startAligned downAligned whole (by omega) ?_ ?_ rounds
    · rw [top]
      exact most
    · intro address page low high
      rw [top] at high
      obtain ⟨ref, found, -⟩ := extent.mapped address page low high
      exact Option.isSome_iff_exists.mpr ⟨ref, found⟩
  have smaller : newSize < down + 4096 := size ▸ less
  rw [keptSize] at loop
  exact ⟨_, _, by
    simp only [contract, oldSize, size, next, rounded, smaller, guard_true, loop, Option.pure_def,
      Option.bind_eq_bind, Option.bind_some]
    rfl⟩

-----------------------------------------------------------------------------------------
-- At the end of the heap
-----------------------------------------------------------------------------------------

/-- The header word behind the heap has both flags of a chunk in use. `free` asks them of it before
it shrinks the heap.
-/
def EndMarked (m : Mem) (stop : Nat) : Prop := pinuse m stop = true ∧ cinuse m stop = true

/-- What shrinking to `stop` leaves of a block that was released at the end. -/
def trimmed (addr stop : Nat) : List Block :=
  if addr < stop then [topBlock addr stop] else []

theorem trimmed_marked {addr stop : Nat} {b : Block} (member : b ∈ trimmed addr stop)
    : b.prevUsed = true := by
  rw [trimmed] at member
  split at member
  · rw [List.mem_singleton.mp member]
    rfl
  · exact absurd member List.not_mem_nil

/-- The heap ends where it did or earlier, and has at least its minimum size. -/
structure HeapKept (heap : Nat) (st st' : Kernel) : Prop where
  startAddr : (st'.heaps heap).startAddr = (st.heaps heap).startAddr
  least : (st'.heaps heap).startAddr + heapMinSize ≤ (st'.heaps heap).endAddr
  below : (st'.heaps heap).endAddr ≤ (st.heaps heap).endAddr

theorem HeapKept.of_record {heap : Nat} {st st' : Kernel} (same : st'.heaps heap = st.heaps heap)
    (least : (st.heaps heap).startAddr + heapMinSize ≤ (st.heaps heap).endAddr)
    : HeapKept heap st st' :=
  ⟨by rw [same], by rw [same]; exact least, by rw [same]⟩

/-- The size that `free` asks `contract` for. -/
def shrunkSize (addr start : Nat) : Nat :=
  if (addr - start) % pageSize ≠ 0 then addr - start + minChunkSize else addr - start

section Ends

variable {heap addr : Nat} {st : Kernel} {before front : List Block} {b : Block}
  {free : List Span}

/-- What `free` does with the last chunk up to the call of `contract`. -/
theorem HeapOk.free_end (h : HeapOk heap st (before ++ [b]) free) (used : b.used = true)
    (merges : MergesAt st.mem b before front addr)
    (marked : EndMarked st.mem (st.heaps heap).endAddr)
    : ∃ m free', DeadKernel.free (b.addr + 8) heap st
          = (contract (shrunkSize addr (st.heaps heap).startAddr) heap { st with mem := m }).bind
            (fun shrunk =>
              if sub32 ((st.heaps heap).endAddr - (st.heaps heap).startAddr) shrunk.1
                  < (st.heaps heap).endAddr - addr then
                listBlock addr (sub32 ((st.heaps heap).endAddr - addr)
                  (sub32 ((st.heaps heap).endAddr - (st.heaps heap).startAddr) shrunk.1)) heap
                  shrunk.2
              else listBlock 0 0 heap shrunk.2)
        ∧ Gap m (headOf heap) (st.heaps heap).startAddr addr (st.heaps heap).endAddr
          (st.heaps heap).endAddr front [] free'
        ∧ Spares front st.mem m := by
  obtain ⟨m, free', run, gap, spares, within⟩ := h.free_merged used merges
  obtain ⟨below, fits, -, -⟩ := h.bounds
  obtain ⟨first, room, -, -⟩ := merges.size h.layout.tiles h.layout.room.aligned
  obtain ⟨-, -, -, -, end_⟩ := h.layout.tiles.focus
  have end_ : b.stop = (st.heaps heap).endAddr := end_
  have away := h.layout.room.away
  rw [end_] at run gap room
  simp only [wordSize, minChunkSize] at fits room
  have outside : okAddress (st.heaps heap).endAddr (st.heaps heap) = false := by
    rw [okAddress, decide_eq_false_iff_not]
    omega
  -- the header behind the heap is none of the words that the backward branch rewrites
  have same : headWord m (st.heaps heap).endAddr = headWord st.mem (st.heaps heap).endAddr :=
    headWord_of_changed within (fun byte word own => by
      simp only [wordAt, heapByte] at word own
      omega)
  have pinuse_ : pinuse m (st.heaps heap).endAddr = true := by
    rw [pinuse, same]
    exact marked.1
  have cinuse_ : cinuse m (st.heaps heap).endAddr = true := by
    rw [cinuse, same]
    exact marked.2
  have next : chunkPlusOffset addr ((st.heaps heap).endAddr - addr) = (st.heaps heap).endAddr := by
    rw [chunkPlusOffset, u32_of_lt (by simp only [wordSize]; omega)]
    omega
  have offset : sub32 addr (st.heaps heap).startAddr = addr - (st.heaps heap).startAddr :=
    sub32_of_le (by simp only [wordSize]; omega) first
  have asked : u32 (addr - (st.heaps heap).startAddr + minChunkSize)
      = addr - (st.heaps heap).startAddr + minChunkSize :=
    u32_of_lt (by simp only [wordSize, minChunkSize]; omega)
  refine ⟨clearPinuse (st.heaps heap).endAddr m, free', ?_, gap.change (fun byte kept => ?_),
    (spares.mono (List.subset_append_left front [])).trans (fun byte spared => ?_)⟩
  · rw [run, DeadKernel.mergeNext]
    simp only [outside, pinuse_, cinuse_, Bool.false_eq_true, if_false, not_true_eq_false, if_true,
      Option.bind_some, releaseBlock, next, offset, asked, h.bounds.size, shrunkSize]
  · exact setHeadWord_changed m _ _ byte (fun word => by
      simp only [wordAt] at word
      omega)
  · have below := gap.before.spared_below spared
    exact setHeadWord_changed m _ _ byte (fun word => by
      simp only [wordAt] at word
      omega)

/-- A block that does not start on a page keeps room for a header and a node. -/
theorem shrunkSize_left {addr start kept : Nat} (le : start ≤ addr) (whole : kept % 4096 = 0)
    (above : shrunkSize addr start ≤ kept)
    : addr ≤ start + kept ∧ (addr < start + kept → addr + minChunkSize ≤ start + kept) := by
  simp only [shrunkSize, pageSize, minChunkSize] at above ⊢
  split at above
  · omega
  · omega

/-- A heap whose walk ends at a new end, which its descriptor names. -/
theorem Layout.heapOk_end {newEnd : Nat} {m : Mem} {st' : Kernel} {blocks : List Block}
    (layout : Layout m (headOf heap) (st.heaps heap).startAddr newEnd blocks free)
    (record : st'.heaps heap = { st.heaps heap with endAddr := newEnd })
    (startAligned : (st.heaps heap).startAddr % pageSize = 0) (endAligned : newEnd % pageSize = 0)
    (maxAway : headOf heap + 8 ≤ (st.heaps heap).startAddr
      ∨ (st.heaps heap).maxAddr + 8 ≤ headOf heap)
    : HeapOk heap { st' with mem := m } blocks free := by
  refine ⟨?_, ?_, ?_, ?_⟩
  all_goals simp only [record]
  · exact layout
  · exact startAligned
  · exact endAligned
  · exact maxAway

/-- Behind `contract`, what is left of the block is the last chunk. -/
theorem Gap.list_end {kept : Nat} {st' : Kernel} {m : Mem}
    (gap : Gap m (headOf heap) (st.heaps heap).startAddr addr (st.heaps heap).endAddr
      (st.heaps heap).endAddr front [] free)
    (bounds : HeapBounds heap st)
    (maxAway : headOf heap + 8 ≤ (st.heaps heap).startAddr
      ∨ (st.heaps heap).maxAddr + 8 ≤ headOf heap)
    (least : (st.heaps heap).startAddr + heapMinSize ≤ (st.heaps heap).endAddr)
    (room : addr + minChunkSize ≤ (st.heaps heap).endAddr) (aligned : addr % 8 = 0)
    (run : contract (shrunkSize addr (st.heaps heap).startAddr) heap { st with mem := m }
      = some (kept, st'))
    : ∃ newEnd m' free', (if sub32 ((st.heaps heap).endAddr - (st.heaps heap).startAddr) kept
            < (st.heaps heap).endAddr - addr then
          listBlock addr (sub32 ((st.heaps heap).endAddr - addr)
            (sub32 ((st.heaps heap).endAddr - (st.heaps heap).startAddr) kept)) heap st'
        else listBlock 0 0 heap st') = some { st' with mem := m' }
      ∧ (st.heaps heap).startAddr + heapMinSize ≤ newEnd ∧ newEnd ≤ (st.heaps heap).endAddr
      ∧ addr ≤ newEnd ∧ st'.heaps heap = { st.heaps heap with endAddr := newEnd }
      ∧ newEnd = (st.heaps heap).startAddr + keptSize (shrunkSize addr (st.heaps heap).startAddr)
      ∧ Spares front m m'
      ∧ HeapOk heap { st' with mem := m' } (front ++ trimmed addr newEnd) free' := by
  have first := gap.before.le
  have away := gap.room.away
  have positive := gap.room.positive
  have bounds' : HeapBounds heap { st with mem := m } :=
    ⟨bounds.le, bounds.fits, bounds.startAligned, bounds.endAligned⟩
  obtain ⟨less, rfl, record, mem⟩ := contract_effect bounds' run
  obtain ⟨le, fits, startAligned, endAligned⟩ := bounds
  dsimp only at less record mem
  obtain ⟨above, whole, enough, below⟩ := keptSize_spec less.le
    (by simp only [pageSize] at startAligned endAligned; omega) (by omega)
  have least' : (st.heaps heap).startAddr + heapMinSize
      ≤ (st.heaps heap).startAddr + keptSize (shrunkSize addr (st.heaps heap).startAddr) := by omega
  have left := shrunkSize_left (Nat.le_trans (Nat.le_add_right _ _) first) whole above
  generalize keptSize (shrunkSize addr (st.heaps heap).startAddr) = kept at *
  simp only [wordSize, pageSize, heapMinSize, minChunkSize] at *
  have end_ : u32 ((st.heaps heap).startAddr + kept) = (st.heaps heap).startAddr + kept :=
    u32_of_lt (by simp only [wordSize]; omega)
  have given : sub32 ((st.heaps heap).endAddr - (st.heaps heap).startAddr) kept
      = (st.heaps heap).endAddr - (st.heaps heap).startAddr - kept :=
    sub32_of_le (by simp only [wordSize]; omega) below
  have rest : sub32 ((st.heaps heap).endAddr - addr)
      ((st.heaps heap).endAddr - (st.heaps heap).startAddr - kept)
      = (st.heaps heap).startAddr + kept - addr := by
    rw [sub32_of_le (by simp only [wordSize]; omega) (by omega)]
    omega
  have room' : Room (headOf heap) (st.heaps heap).startAddr ((st.heaps heap).startAddr + kept) :=
    ⟨positive, by omega, by simp only [wordSize]; omega, by omega⟩
  rw [end_] at record
  rw [given, rest]
  have newAligned : ((st.heaps heap).startAddr + kept) % 4096 = 0 := by omega
  by_cases inside : addr < (st.heaps heap).startAddr + kept
  · obtain ⟨m', free', stored, layout, spares, -⟩ := (gap.resize room').insertTop
      (by simp only [minChunkSize]; omega) (by omega)
    refine ⟨_, m', free', ?_, least', by omega, left.1, record, rfl, spares, ?_⟩
    · rw [if_pos (by omega), listBlock, if_pos (by omega), mem, stored]
      rfl
    · rw [trimmed, if_pos inside]
      exact layout.heapOk_end record startAligned newAligned maxAway
  · have same : addr = (st.heaps heap).startAddr + kept := by omega
    refine ⟨_, m, free, ?_, least', by omega, left.1, record, rfl, .refl _ _, ?_⟩
    · rw [if_neg (by omega), listBlock, if_neg (by simp), ← mem]
    · rw [trimmed, if_neg inside]
      have closed := gap.resize room'
      rw [same] at closed
      exact closed.close.heapOk_end record startAligned newAligned maxAway

/-- Where `free` of the last chunk returns, the heap is shorter and in good order. -/
theorem HeapOk.free_last {st' : Kernel} (h : HeapOk heap st (before ++ [b]) free)
    (used : b.used = true) (merges : MergesAt st.mem b before front addr)
    (marked : EndMarked st.mem (st.heaps heap).endAddr)
    (least : (st.heaps heap).startAddr + heapMinSize ≤ (st.heaps heap).endAddr)
    (run : DeadKernel.free (b.addr + 8) heap st = some st')
    : ∃ newEnd free', (st.heaps heap).startAddr + heapMinSize ≤ newEnd
        ∧ newEnd ≤ (st.heaps heap).endAddr ∧ addr ≤ newEnd
        ∧ st'.heaps heap = { st.heaps heap with endAddr := newEnd }
        ∧ newEnd = (st.heaps heap).startAddr + keptSize (shrunkSize addr (st.heaps heap).startAddr)
        ∧ Spares front st.mem st'.mem
        ∧ HeapOk heap st' (front ++ trimmed addr newEnd) free' := by
  obtain ⟨m, _, equation, gap, spares⟩ := h.free_end used merges marked
  obtain ⟨-, room, aligned, -⟩ := merges.size h.layout.tiles h.layout.room.aligned
  obtain ⟨-, -, -, -, end_⟩ := h.layout.tiles.focus
  have end_ : b.stop = (st.heaps heap).endAddr := end_
  rw [end_] at room
  rw [equation] at run
  obtain ⟨⟨kept, shrunk⟩, contracted, behind⟩ := Option.bind_eq_some_iff.mp run
  obtain ⟨newEnd, m', free', listed, above, below, left, record, kept_, spares', ok⟩ :=
    gap.list_end h.bounds h.maxAway least room aligned contracted
  obtain rfl := Option.some.inj (listed.symm.trans behind)
  exact ⟨newEnd, free', above, below, left, record, kept_, spares.trans spares', ok⟩

/-- It returns over mapped pages, unless a block of the minimum size that does not start on a page
leaves `contract` nothing to do.
-/
theorem HeapOk.free_last_returns (h : HeapOk heap st (before ++ [b]) free)
    (used : b.used = true) (merges : MergesAt st.mem b before front addr)
    (marked : EndMarked st.mem (st.heaps heap).endAddr) (extent : HeapExtent heap st)
    (pages : HeapPages heap st) (roomy : addr % pageSize = 0 ∨ addr + minChunkSize < b.stop)
    : ∃ st', DeadKernel.free (b.addr + 8) heap st = some st' := by
  obtain ⟨m, _, equation, gap, -⟩ := h.free_end used merges marked
  obtain ⟨first, room, aligned, -⟩ := merges.size h.layout.tiles h.layout.room.aligned
  obtain ⟨-, -, -, -, end_⟩ := h.layout.tiles.focus
  have end_ : b.stop = (st.heaps heap).endAddr := end_
  rw [end_] at room roomy
  have startAligned := extent.startAligned
  have less : shrunkSize addr (st.heaps heap).startAddr
      < (st.heaps heap).endAddr - (st.heaps heap).startAddr := by
    simp only [shrunkSize, pageSize, minChunkSize] at *
    split <;> omega
  have bounds' : HeapBounds heap { st with mem := m } :=
    ⟨h.bounds.le, h.bounds.fits, h.bounds.startAligned, h.bounds.endAligned⟩
  have grown := (OnlyMem.write st m).grown extent pages
  obtain ⟨kept, shrunk, contracted⟩ := contract_returns bounds' grown.extent grown.pages less
  obtain ⟨newEnd, m', free', listed, -⟩ :=
    gap.list_end h.bounds h.maxAway extent.least room aligned contracted
  refine ⟨{ shrunk with mem := m' }, ?_⟩
  rw [equation, contracted, Option.bind_some]
  exact listed

end Ends

end DeadKernel
