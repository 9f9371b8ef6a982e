import DeadKernel.Memory.HeapGaps

/-! The steps of `alloc` on the layout of a heap: taking a free chunk, whole or split, and
growing the heap at its end.
-/

namespace DeadKernel

open Words Rings

/-- A heap in good order: page-aligned bounds, apart from its list head for as far as it may
grow, and a layout with the chunks `blocks` and the free list `free`.
-/
structure HeapOk (heap : Nat) (st : Kernel) (blocks : List Block) (free : List Span) : Prop where
  layout : Layout st.mem (headOf heap) (st.heaps heap).startAddr (st.heaps heap).endAddr blocks free
  startAligned : (st.heaps heap).startAddr % pageSize = 0
  endAligned : (st.heaps heap).endAddr % pageSize = 0
  maxAway : headOf heap + 8 ≤ (st.heaps heap).startAddr ∨ (st.heaps heap).maxAddr + 8 ≤ headOf heap

/-- A size that `request2Size` can return for a request that does not wrap. -/
structure ChunkSize (nb : Nat) : Prop where
  least : minChunkSize ≤ nb
  aligned : nb % 8 = 0

theorem request2Size_eq {size : Nat} (fits : size + 11 < wordSize)
    : request2Size size = if size < minRequest then minChunkSize else (size + 11) / 8 * 8 := by
  rw [request2Size, padRequest, chunkOverhead, u32_of_lt (by omega), clearFlags_eq (by omega)]

theorem request2Size_spec {size : Nat} (fits : size + 11 < wordSize)
    : ChunkSize (request2Size size) ∧ size + 4 ≤ request2Size size
      ∧ request2Size size ≤ size + 16 := by
  rw [request2Size_eq fits]
  split
  · simp only [minRequest, minChunkSize] at *
    exact ⟨⟨by simp [minChunkSize], by decide⟩, by omega, by omega⟩
  · simp only [minRequest] at *
    exact ⟨⟨by simp only [minChunkSize]; omega, by omega⟩, by omega, by omega⟩

-----------------------------------------------------------------------------------------
-- Taking a chunk
-----------------------------------------------------------------------------------------

/-- What `alloc` leaves where it took `nb` bytes from the free chunk `b`. -/
def takenFrom (nb : Nat) (b : Block) (back : List Block) : List Block :=
  if nb + minChunkSize ≤ b.size then
    ⟨⟨b.addr, nb⟩, true, b.prevUsed⟩ :: ⟨⟨b.addr + nb, b.size - nb⟩, false, true⟩ :: back
  else ⟨b.toSpan, true, b.prevUsed⟩ :: markFirst back

theorem takenFrom_first (nb : Nat) (b : Block) (back : List Block)
    : ∃ rest, takenFrom nb b back
      = ⟨⟨b.addr, if nb + minChunkSize ≤ b.size then nb else b.size⟩, true, b.prevUsed⟩ :: rest := by
  rw [takenFrom]
  split
  · exact ⟨_, rfl⟩
  · exact ⟨_, rfl⟩

theorem mem_markFirst {blocks : List Block} {c : Block} (member : c ∈ markFirst blocks)
    : c.prevUsed = true ∨ c ∈ blocks := by
  cases blocks with
  | nil => exact absurd member List.not_mem_nil
  | cons b rest =>
      rcases List.mem_cons.mp member with rfl | inside
      · exact .inl rfl
      · exact .inr (List.mem_cons_of_mem b inside)

theorem markFirst_keeps {blocks : List Block} {b : Block} (member : b ∈ blocks)
    : ∃ c ∈ markFirst blocks, c.toSpan = b.toSpan ∧ c.used = b.used := by
  cases blocks with
  | nil => exact absurd member List.not_mem_nil
  | cons first rest =>
      rcases List.mem_cons.mp member with rfl | inside
      · exact ⟨{ b with prevUsed := true }, List.mem_cons_self, rfl, rfl⟩
      · exact ⟨b, List.mem_cons_of_mem _ inside, rfl, rfl⟩

theorem markFirst_markFirst (blocks : List Block)
    : markFirst (markFirst blocks) = markFirst blocks := by
  cases blocks with
  | nil => rfl
  | cons b rest => rfl

theorem markFirst_none {blocks rest : List Block} (same : rest = blocks ∨ rest = markFirst blocks)
    (none : rest = [])
    : blocks = [] := by
  rcases same with rfl | rfl
  · exact none
  · cases blocks with
    | nil => rfl
    | cons b behind => exact absurd none (List.cons_ne_nil _ _)

/-- The chunks around the one that is taken stay. -/
theorem takenFrom_keeps (nb : Nat) (b : Block) {c : Block} {back : List Block} (member : c ∈ back)
    : ∃ d ∈ takenFrom nb b back, d.toSpan = c.toSpan ∧ d.used = c.used := by
  rw [takenFrom]
  split
  · exact ⟨c, List.mem_cons_of_mem _ (List.mem_cons_of_mem _ member), rfl, rfl⟩
  · obtain ⟨d, there, same⟩ := markFirst_keeps member
    exact ⟨d, List.mem_cons_of_mem _ there, same⟩

/-- The chunks behind the one that is taken. -/
theorem takenFrom_among {nb : Nat} {b c : Block} {behind back : List Block}
    (first : takenFrom nb b behind = c :: back)
    : AmongChunks behind back := by
  rw [takenFrom] at first
  split at first
  · obtain ⟨-, rfl⟩ := List.cons.inj first
    exact fun d member => ⟨d, List.mem_cons_of_mem _ member, rfl, rfl⟩
  · obtain ⟨-, rfl⟩ := List.cons.inj first
    exact fun d member => markFirst_keeps member

theorem takenFrom_marked {nb : Nat} {b : Block} {back : List Block} (own : b.prevUsed = true)
    (marked : ∀ c ∈ back, c.prevUsed = true) {c : Block} (member : c ∈ takenFrom nb b back)
    : c.prevUsed = true := by
  rw [takenFrom] at member
  split at member
  · rcases List.mem_cons.mp member with rfl | rest
    · exact own
    · rcases List.mem_cons.mp rest with rfl | inside
      · rfl
      · exact marked c inside
  · rcases List.mem_cons.mp member with rfl | rest
    · exact own
    · exact (mem_markFirst rest).elim id (marked c)

-----------------------------------------------------------------------------------------
-- Owners
-----------------------------------------------------------------------------------------

/-- The live pointers belong to chunks in use. -/
def Owned (live : List Nat) (blocks : List Block) : Prop :=
  ∀ p ∈ live, ∃ b ∈ blocks, b.used = true ∧ p = b.addr + 8

/-- A later walk meets the chunks in use again. -/
def KeepsUsed (blocks blocks' : List Block) : Prop :=
  ∀ b ∈ blocks, b.used = true → ∃ c ∈ blocks', c.toSpan = b.toSpan ∧ c.used = true

section Owners

variable {blocks blocks' more more' : List Block} {b : Block} {live : List Nat}

theorem KeepsUsed.of_subset (sub : blocks ⊆ blocks') : KeepsUsed blocks blocks' :=
  fun b member used => ⟨b, sub member, rfl, used⟩

theorem KeepsUsed.trans {blocks'' : List Block} (h : KeepsUsed blocks blocks')
    (h' : KeepsUsed blocks' blocks'')
    : KeepsUsed blocks blocks'' := by
  intro b member used
  obtain ⟨c, inside, span, usedC⟩ := h b member used
  obtain ⟨d, there, span', usedD⟩ := h' c inside usedC
  exact ⟨d, there, span'.trans span, usedD⟩

theorem KeepsUsed.append (h : KeepsUsed blocks blocks') (h' : KeepsUsed more more')
    : KeepsUsed (blocks ++ more) (blocks' ++ more') := by
  intro b member used
  rcases List.mem_append.mp member with left | right
  · obtain ⟨c, inside, same⟩ := h b left used
    exact ⟨c, List.mem_append_left _ inside, same⟩
  · obtain ⟨c, inside, same⟩ := h' b right used
    exact ⟨c, List.mem_append_right _ inside, same⟩

/-- A free chunk may go. -/
theorem KeepsUsed.drop (unused : b.used = false) : KeepsUsed (blocks ++ b :: more) (blocks ++ more) := by
  intro c member used
  refine ⟨c, ?_, rfl, used⟩
  rcases List.mem_append.mp member with left | right
  · exact List.mem_append_left _ left
  · rcases List.mem_cons.mp right with rfl | inside
    · rw [unused] at used
      contradiction
    · exact List.mem_append_right _ inside

theorem keepsUsed_markFirst (blocks : List Block) : KeepsUsed blocks (markFirst blocks) := by
  intro b member used
  obtain ⟨c, inside, span, same⟩ := markFirst_keeps member
  exact ⟨c, inside, span, same.trans used⟩

theorem keepsUsed_takenFrom (nb : Nat) (b : Block) (back : List Block)
    : KeepsUsed back (takenFrom nb b back) := by
  intro c member used
  obtain ⟨d, inside, span, same⟩ := takenFrom_keeps nb b member
  exact ⟨d, inside, span, same.trans used⟩

theorem Owned.keeps (h : Owned live blocks) (kept : KeepsUsed blocks blocks')
    : Owned live blocks' := by
  intro p member
  obtain ⟨b, inside, used, rfl⟩ := h p member
  obtain ⟨c, there, span, usedC⟩ := kept b inside used
  exact ⟨c, there, usedC, by rw [span]⟩

/-- The chunk that is taken gets its owner. -/
theorem Owned.taken (h : Owned live (blocks ++ b :: more)) (unused : b.used = false) (nb : Nat)
    : Owned ((b.addr + 8) :: live) (blocks ++ takenFrom nb b more) := by
  intro p member
  rcases List.mem_cons.mp member with rfl | old
  · obtain ⟨rest, first⟩ := takenFrom_first nb b more
    rw [first]
    exact ⟨_, List.mem_append_right _ List.mem_cons_self, rfl, rfl⟩
  · exact h.keeps ((KeepsUsed.drop unused).trans
      ((KeepsUsed.of_subset (List.Subset.refl blocks)).append (keepsUsed_takenFrom nb b more))) p old

/-- The owner of a chunk gives it up. -/
theorem Owned.without (h : Owned live (blocks ++ b :: more))
    : Owned (live.filter (fun q => q ≠ b.addr + 8)) (blocks ++ more) := by
  intro q inside
  obtain ⟨old, other⟩ := List.mem_filter.mp inside
  obtain ⟨c, there, used, rfl⟩ := h q old
  refine ⟨c, ?_, used, rfl⟩
  rcases List.mem_append.mp there with left | right
  · exact List.mem_append_left _ left
  · rcases List.mem_cons.mp right with rfl | inMore
    · simp at other
    · exact List.mem_append_right _ inMore

end Owners

section Layout

variable {m : Mem} {head start stop : Nat} {front back : List Block} {free : List Span}
  {b : Block} {nb : Nat}

/-- The parity of a header is the PINUSE flag. -/
theorem Block.header_mod (aligned : b.size % 8 = 0) : b.header % 2 = b.prevUsed.toNat := by
  have prev := Bool.toNat_le b.prevUsed
  rw [Block.header]
  omega

/-- `takeHole` on a chunk that is large enough to be split. -/
theorem Layout.split (h : Layout m head start stop (front ++ b :: back) free)
    (unused : b.used = false) (size : ChunkSize nb) (fits : nb + minChunkSize ≤ b.size)
    : ∃ m' free', insertChunk (b.addr + nb) head
          (setHeadWord (removeChunk b.addr m) (b.addr + nb) (b.size - nb)) = some m'
        ∧ Layout (setInuse b.addr nb m') head start stop (front ++ takenFrom nb b back) free'
        ∧ Spares (front ++ back) m (setInuse b.addr nb m')
        ∧ ChangedOnly (heapByte head start stop) m (setInuse b.addr nb m') := by
  obtain ⟨-, large, aligned, -, behind⟩ := h.tiles.focus
  have last := behind.le
  have room := h.room.fits
  obtain ⟨⟨_, gap⟩, header, spares, within⟩ := h.openFree unused
  obtain ⟨least, whole⟩ := size
  simp only [minChunkSize, wordSize, Span.stop] at *
  -- the new chunk gets its header and a place in the list
  let new : Block := ⟨⟨b.addr + nb, b.size - nb⟩, false, false⟩
  have fitsWord : b.size - nb < wordSize := by
    simp only [wordSize]
    omega
  have changed := setHeadWord_changed (removeChunk b.addr m) (b.addr + nb) (b.size - nb)
  have inside : ∀ byte, wordAt (b.addr + nb + 4) byte → b.addr + 4 ≤ byte ∧ byte < b.stop := by
    intro byte on
    simp only [wordAt, Span.stop] at *
    omega
  have within := within.trans (gap.inside changed inside)
  obtain ⟨gap, written⟩ := gap.write changed inside
  obtain ⟨m', free', stored, gap, kept, listed, within'⟩ := gap.insertBack (b := new)
    (by simp only [new]; omega) (by simp only [new, minChunkSize]; omega)
    (by simp only [new, Span.stop]; omega) (by simp only [new]; omega)
    (headWord_set fitsWord) rfl
  -- the hole becomes a chunk in use
  obtain ⟨gap, own, marked, within''⟩ := gap.markUsed b.addr nb (le_refl _)
    least whole rfl
  rw [kept b.addr (le_refl _) (by simp only [new]; omega), headWord_set_other (by omega), header,
    Block.header_mod aligned] at own
  have closed := (gap.pushFront (b := ⟨⟨b.addr, nb⟩, true, b.prevUsed⟩) rfl least whole
    own rfl).close
  refine ⟨m', free', stored, ?_, ?_, (within.trans within').trans (within'' (List.cons_ne_nil _ _))⟩
  · rw [takenFrom, if_pos (by simpa only [minChunkSize] using fits)]
    simpa [markFirst, new] using closed
  · have sub : front ++ back ⊆ front ++ b :: back := by simp
    have subNew : front ++ back ⊆ front ++ new :: back := by simp
    exact (((spares.mono sub).trans written).trans (listed.mono subNew)).trans (marked.mono subNew)

/-- `takeHole` on a chunk that is used as it is. -/
theorem Layout.takeWhole (h : Layout m head start stop (front ++ b :: back) free)
    (unused : b.used = false) (tight : b.size < nb + minChunkSize)
    : ∃ free', Layout (setInuse b.addr b.size (removeChunk b.addr m)) head start stop
          (front ++ takenFrom nb b back) free'
        ∧ Spares (front ++ back) m (setInuse b.addr b.size (removeChunk b.addr m))
        ∧ (back ≠ [] → ChangedOnly (heapByte head start stop) m
          (setInuse b.addr b.size (removeChunk b.addr m)))
        ∧ (back = [] → headWord (setInuse b.addr b.size (removeChunk b.addr m)) stop
            = headWord m stop / 2 * 2 + 1) := by
  obtain ⟨before, large, aligned, -, behind⟩ := h.tiles.focus
  obtain ⟨⟨free', gap⟩, header, spares, within⟩ := h.openFree unused
  obtain ⟨gap, own, marked, within'⟩ := gap.markUsed b.addr b.size (le_refl _)
    large aligned rfl
  rw [header, Block.header_mod aligned] at own
  have closed := (gap.pushFront (b := ⟨b.toSpan, true, b.prevUsed⟩) rfl large aligned own rfl).close
  refine ⟨free', ?_, (spares.mono (by simp)).trans marked,
    fun some => within.trans (within' some), ?_⟩
  · rw [takenFrom, if_neg (by omega)]
    simpa using closed
  · rintro rfl
    have end_ : b.addr + b.size = stop := behind
    have first := before.le
    have fits := h.room.fits
    simp only [minChunkSize] at large
    rw [← end_, setInuse_next _ _ _ (by omega) aligned (by omega), end_,
      h.room.headWord_end (by omega) within]

end Layout

section HeapOk

variable {heap : Nat} {st : Kernel} {front back : List Block} {free : List Span}
  {b : Block} {nb : Nat}

/-- A new layout in the same bounds. -/
theorem HeapOk.setMem {blocks blocks' : List Block} {free' : List Span} {m : Mem}
    (h : HeapOk heap st blocks free)
    (layout : Layout m (headOf heap) (st.heaps heap).startAddr (st.heaps heap).endAddr blocks' free')
    : HeapOk heap { st with mem := m } blocks' free' :=
  ⟨layout, h.startAligned, h.endAligned, h.maxAway⟩

/-- `takeHole` takes the free chunk it is given. -/
theorem HeapOk.takeHole (h : HeapOk heap st (front ++ b :: back) free) (unused : b.used = false)
    (size : ChunkSize nb) (fits : nb ≤ b.size)
    : ∃ m' free', takeHole nb b.addr heap st = some (b.addr + 8, { st with mem := m' })
        ∧ HeapOk heap { st with mem := m' } (front ++ takenFrom nb b back) free'
        ∧ Spares (front ++ back) st.mem m'
        ∧ ((b.size < nb + minChunkSize → back ≠ [])
          → ChangedOnly (heapByte (headOf heap) (st.heaps heap).startAddr (st.heaps heap).endAddr)
            st.mem m')
        ∧ headWord m' (st.heaps heap).endAddr / 2
          = headWord st.mem (st.heaps heap).endAddr / 2 := by
  obtain ⟨front', large, aligned, header, behind⟩ := h.layout.tiles.focus
  have first := front'.le
  have last := behind.le
  have room := h.layout.room.fits
  have positive := h.layout.room.positive
  have page := h.startAligned
  obtain ⟨-, header', -, -⟩ := h.layout.openFree unused
  have before : chunksize st.mem b.addr = b.size := chunksize_of_header header aligned
  have after : chunksize (removeChunk b.addr st.mem) b.addr = b.size :=
    chunksize_of_header header' aligned
  simp only [minChunkSize, wordSize, pageSize, Span.stop] at large first last room page
  have mem : chunk2Mem b.addr = b.addr + 8 := u32_of_lt (by simp only [wordSize]; omega)
  have sum : u32 (nb + minChunkSize) = nb + minChunkSize :=
    u32_of_lt (by simp only [wordSize, minChunkSize]; omega)
  have rest : sub32 b.size nb = b.size - nb := sub32_of_le (by simp only [wordSize]; omega) fits
  have new : chunkPlusOffset b.addr nb = b.addr + nb := u32_of_lt (by simp only [wordSize]; omega)
  simp only [DeadKernel.takeHole, before, after, fits, mem, sum, rest, new, guard_true,
    Option.pure_def, Option.bind_eq_bind, Option.bind_some]
  by_cases split : nb + minChunkSize ≤ b.size
  · obtain ⟨m', free', stored, layout, spares, within⟩ := h.layout.split unused size split
    refine ⟨_, free', ?_, h.setMem layout, spares, fun _ => within, ?_⟩
    · rw [if_pos split, stored]
      rfl
    · rw [h.layout.room.headWord_end (by omega) within]
  · obtain ⟨free', layout, spares, within, end_⟩ := h.layout.takeWhole unused (not_le.mp split)
    refine ⟨_, free', by rw [if_neg split], h.setMem layout, spares,
      fun some => within (some (not_le.mp split)), ?_⟩
    by_cases last : back = []
    · rw [end_ last]
      omega
    · rw [h.layout.room.headWord_end (by omega) (within last)]

-----------------------------------------------------------------------------------------
-- Growing the heap
-----------------------------------------------------------------------------------------

/-- The free chunk up to `stop` that a growth leaves at the end of the heap, and `free` anywhere. -/
def topBlock (addr stop : Nat) : Block := ⟨⟨addr, stop - addr⟩, false, true⟩

/-- What growing leaves of the walk in front of the new top chunk, which starts at `addr`. -/
inductive TopOf (stop : Nat) : List Block → List Block → Nat → Prop where
  | reused {front : List Block} {b : Block} (unused : b.used = false)
      : TopOf stop (front ++ [b]) front b.addr
  | fresh {blocks : List Block} (last : ∀ front b, blocks = front ++ [b] → b.used = true)
      : TopOf stop blocks blocks stop

/-- The gap at the end of a heap becomes its top chunk. -/
theorem Gap.insertTop {m : Mem} {head start low stop : Nat} {front : List Block}
    {free : List Span} (h : Gap m head start low stop stop front [] free)
    (large : low + minChunkSize ≤ stop) (aligned : (stop - low) % 8 = 0)
    : ∃ m' free', insertChunk low head (setSizeAndPinuse low (stop - low) m) = some m'
        ∧ Layout m' head start stop (front ++ [topBlock low stop]) free'
        ∧ Spares front m m' ∧ ChangedOnly (heapByte head start stop) m m' := by
  have fits := h.room.fits
  obtain ⟨header, changed⟩ := setSizeAndPinuse_spec m low aligned (by omega)
  have inside : ∀ byte, wordAt (low + 4) byte → low + 4 ≤ byte ∧ byte < stop := by
    intro byte on
    simp only [wordAt, minChunkSize] at *
    omega
  have within := h.inside changed inside
  obtain ⟨gap, written⟩ := h.write changed inside
  have end_ : (topBlock low stop).stop = stop := by
    simp only [topBlock, Span.stop]
    omega
  obtain ⟨m', free', stored, gap, -, listed, within'⟩ := gap.insertFront (b := topBlock low stop) rfl
    (by simp only [topBlock]; omega) (le_of_eq end_) aligned header rfl
  rw [end_] at gap
  refine ⟨m', free', stored, by simpa using gap.close, ?_, within.trans within'⟩
  exact (written.mono (by simp)).trans (listed.mono (by simp))

/-- The highest chunk of the list is the last of the walk exactly when it ends the heap. -/
theorem Layout.last_of_stop {m : Mem} {head start stop : Nat} {blocks : List Block}
    {free : List Span} (h : Layout m head start stop blocks free) {s : Span} (member : s ∈ free)
    (end_ : s.stop = stop)
    : ∃ front b, blocks = front ++ [b] ∧ b.used = false ∧ b.toSpan = s := by
  obtain ⟨b, inside, unused, rfl⟩ := mem_freeSpans.mp (h.listed.subset member)
  obtain ⟨front, back, rfl⟩ := List.append_of_mem inside
  exact ⟨front, b, by rw [h.tiles.none_behind end_], unused, rfl⟩

/-- `growTop` when no listed chunk ends at the old end: the new pages are a chunk of their own. -/
theorem growTop_fresh {oldEndAddr : Nat} (list : FreeList st.mem (headOf heap) free)
    (inRange : ∀ s ∈ free, s.stop < wordSize)
    (unused : ∀ s ∈ free, cinuse st.mem s.addr = false) (none : ∀ s ∈ free, s.stop ≠ oldEndAddr)
    : growTop oldEndAddr heap st
      = putTop oldEndAddr (sub32 (st.heaps heap).endAddr oldEndAddr) heap st.mem st := by
  rcases list.topNode with ⟨-, found⟩ | ⟨s, member, found, -⟩
  · rw [growTop, found, Option.bind_some, growFrom, if_neg (fun both => both.1 rfl),
      if_neg (fun both => both.1 rfl)]
  · rw [growTop, found, Option.bind_some, growFrom, chunkOf_node (list.fits s member),
      if_neg, if_neg]
    · rw [list.sizes s member]
      exact fun both => none s member ((u32_of_lt (inRange s member)).symm.trans both.2)
    · rw [unused s member]
      exact fun both => Bool.false_ne_true both.2.2

/-- `growTop` when the last chunk of the heap is free: the new pages join it. -/
theorem growTop_reused {oldEndAddr : Nat} {s : Span} (list : FreeList st.mem (headOf heap) free)
    (member : s ∈ free) (positive : s.addr ≠ 0) (inRange : s.stop < wordSize)
    (unused : cinuse st.mem s.addr = false)
    (end_ : s.stop = oldEndAddr) (highest : ∀ t ∈ free, s.node ≤ t.node → t = s)
    : growTop oldEndAddr heap st
      = putTop s.addr (sub32 (st.heaps heap).endAddr s.addr) heap (removeChunk s.addr st.mem) st := by
  rcases list.topNode with ⟨rfl, -⟩ | ⟨t, there, found, bound⟩
  · exact absurd member List.not_mem_nil
  obtain rfl := highest t there (bound s member)
  rw [growTop, found, Option.bind_some, growFrom, chunkOf_node (list.fits t member), if_neg,
    if_pos, if_neg positive]
  · rw [list.sizes t member]
    refine ⟨?_, (u32_of_lt inRange).trans end_⟩
    simp only [Span.node, nodeOf]
    omega
  · rw [unused]
    exact fun both => Bool.false_ne_true both.2.2

/-- `growTop`, in a heap whose `endAddr` has moved up from `oldEndAddr`. -/
theorem growTop_spec {blocks : List Block} {oldEndAddr : Nat}
    (layout : Layout st.mem (headOf heap) (st.heaps heap).startAddr oldEndAddr blocks free)
    (room : Room (headOf heap) (st.heaps heap).startAddr (st.heaps heap).endAddr)
    (grown : oldEndAddr + minChunkSize ≤ (st.heaps heap).endAddr)
    (aligned : (st.heaps heap).endAddr % 8 = 0) (oldAligned : oldEndAddr % 8 = 0)
    : ∃ m' free' front addr, growTop oldEndAddr heap st = some { st with mem := m' }
        ∧ TopOf oldEndAddr blocks front addr ∧ addr ≤ oldEndAddr
        ∧ Layout m' (headOf heap) (st.heaps heap).startAddr (st.heaps heap).endAddr
          (front ++ [topBlock addr (st.heaps heap).endAddr]) free'
        ∧ Spares front st.mem m'
        ∧ ChangedOnly (heapByte (headOf heap) (st.heaps heap).startAddr (st.heaps heap).endAddr)
          st.mem m' := by
  have gap := layout.openEnd
  have fits := room.fits
  have unused : ∀ s ∈ free, cinuse st.mem s.addr = false := by
    intro s member
    obtain ⟨b, inside, unused, rfl⟩ := mem_freeSpans.mp (layout.listed.subset member)
    obtain ⟨-, -, -, size, header⟩ := layout.tiles.block inside
    rw [cinuse_of_header header size, unused]
  have inRange : ∀ s ∈ free, s.stop < wordSize := by
    intro s member
    obtain ⟨-, place⟩ := gap.listed_where member
    have first := layout.tiles.le
    simp only [Span.stop, minChunkSize, wordSize] at *
    omega
  have first := layout.tiles.le
  simp only [minChunkSize] at first grown
  by_cases last : ∃ s ∈ free, s.stop = oldEndAddr
  · obtain ⟨s, member, end_⟩ := last
    obtain ⟨front, b, rfl, free_, rfl⟩ := layout.last_of_stop member end_
    obtain ⟨before, large, size, header, -⟩ := layout.tiles.focus
    have start := before.le
    have positive := layout.room.positive
    have highest : ∀ t ∈ free, b.node ≤ t.node → t = b.toSpan := by
      intro t there above
      obtain ⟨c, inside, -, rfl⟩ := mem_freeSpans.mp (layout.listed.subset there)
      rcases layout.tiles.scattered.order inside (c := b) (by simp) with rfl | left | right
      · rfl
      · have size := (layout.tiles.block inside).2.2.1
        simp only [Span.stop, Span.node, nodeOf, minChunkSize] at *
        omega
      · obtain ⟨-, bound, size, -⟩ := layout.tiles.block inside
        simp only [Span.stop, minChunkSize] at *
        omega
    obtain ⟨⟨_, gap⟩, -, spares, within⟩ := layout.openFree free_
    have addr := layout.tiles.aligned layout.room.aligned (b := b) (by simp)
    obtain ⟨m', free', stored, layout', spares', within'⟩ := (gap.resize room).insertTop
      (by simp only [Span.stop, minChunkSize] at *; omega) (by omega)
    refine ⟨m', free', front, b.addr, ?_, .reused free_, ?_, layout',
      (spares.mono (by simp)).trans spares',
      (within.mono (fun _ on => on.imp_left (fun inside => ⟨inside.1, by omega⟩))).trans within'⟩
    · rw [growTop_reused layout.list member (by omega) (inRange _ member) (unused _ member)
        end_ highest, sub32_of_le (by omega) (by simp only [Span.stop] at *; omega), putTop, stored,
        Option.bind_some]
    · simp only [Span.stop] at *
      omega
  · have none : ∀ s ∈ free, s.stop ≠ oldEndAddr := fun s member end_ => last ⟨s, member, end_⟩
    obtain ⟨m', free', stored, layout', spares, within⟩ := (gap.resize room).insertTop
      (by simp only [minChunkSize]; omega) (by omega)
    refine ⟨m', free', blocks, oldEndAddr, ?_, .fresh ?_, le_refl _, layout', spares, within⟩
    · rw [growTop_fresh layout.list inRange unused none,
        sub32_of_le (by omega) (by omega), putTop, stored, Option.bind_some]
    · rintro front b rfl
      by_contra free_
      have free_ : b.used = false := by simpa using free_
      have member : b.toSpan ∈ free :=
        layout.listed.symm.subset (mem_freeSpans.mpr ⟨b, by simp, free_, rfl⟩)
      obtain ⟨-, -, -, -, end_⟩ := layout.tiles.focus
      exact none _ member end_

end HeapOk

end DeadKernel
