import DeadKernel.Memory.HeapExtent
import DeadKernel.Memory.HeapTaking

/-! `alloc` on the layout of a heap, with the growth in it. The page tables that a growth makes
come from the kernel heap; where that is the heap that grows, `expand` works on a heap that the
nested `alloc` has changed under it, and nothing is said here.
-/

namespace DeadKernel

open Words Rings

-----------------------------------------------------------------------------------------
-- Growing pages
-----------------------------------------------------------------------------------------

/-- The heap's record and its bytes up to `stop` are as before. -/
structure HeapSpared (heap stop : Nat) (st st' : Kernel) : Prop where
  record : st'.heaps heap = st.heaps heap
  bytes : ∀ byte, heapByte (headOf heap) (st.heaps heap).startAddr stop byte
    → st'.mem byte = st.mem byte

theorem HeapSpared.refl (heap stop : Nat) (st : Kernel) : HeapSpared heap stop st st :=
  ⟨rfl, fun _ _ => rfl⟩

theorem HeapSpared.trans {heap stop : Nat} {st st' st'' : Kernel}
    (h : HeapSpared heap stop st st') (h' : HeapSpared heap stop st' st'')
    : HeapSpared heap stop st st'' := by
  refine ⟨h'.record.trans h.record, fun byte own => ?_⟩
  have later := h'.bytes byte
  rw [h.record] at later
  rw [later own, h.bytes byte own]

/-- The page tables that the rounds of `expand` make spare the heap, each in the state that the
round starts from.
-/
def TablesSpare (kmalloc : Kmalloc) (heap stop size : Nat) : Nat → Nat → Kernel → Prop
  | 0, _, _ => True
  | fuel + 1, i, st =>
      i < size →
        ((st.dirs (st.heaps heap).pageDir).tables
            (pageIndex (u32 ((st.heaps heap).startAddr + i))) = 0
          → ∀ table physAddress made, kmalloc 4096 1 true st = some (table, physAddress, made)
            → HeapSpared heap stop st made)
        ∧ ∀ st', expandPage kmalloc heap i st = some st'
          → TablesSpare kmalloc heap stop size fuel (u32 (i + pageSize)) st'

section Growing

variable {kmalloc : Kmalloc} {heap stop : Nat} {st st' : Kernel}

theorem getPage_spares {address dir : Nat} {page : Option PageRef}
    (spares : (st.dirs dir).tables (pageIndex address) = 0
      → ∀ table physAddress made, kmalloc 4096 1 true st = some (table, physAddress, made)
        → HeapSpared heap stop st made)
    (run : getPage kmalloc address true dir st = some (page, st'))
    : HeapSpared heap stop st st' := by
  rw [getPage] at run
  split at run
  · injection run with same
    injection same with _ same
    exact same ▸ .refl heap stop st
  · rename_i none
    rw [if_pos rfl] at run
    obtain ⟨⟨table, physAddress, made⟩, allocated, same⟩ := Option.bind_eq_some_iff.mp run
    injection same with same
    injection same with _ same
    subst same
    have spared := spares (not_not.mp none) table physAddress made allocated
    exact ⟨spared.record, spared.bytes⟩

theorem allocFrame_spares {ref : PageRef} {isKernel isWriteable : Nat}
    (run : allocFrame ref isKernel isWriteable st = some st')
    : HeapSpared heap stop st st' := by
  rw [allocFrame] at run
  split at run
  · exact Option.some.inj run ▸ .refl heap stop st
  · by_cases full : firstFrame st = wordSize - 1
    · rw [if_pos full] at run
      contradiction
    · rw [if_neg full] at run
      obtain rfl := Option.some.inj run
      exact ⟨rfl, fun _ _ => rfl⟩

/-- A round of `expand` shows a page behind `stop`. -/
theorem expandPage_spares {i : Nat}
    (spares : (st.dirs (st.heaps heap).pageDir).tables
        (pageIndex (u32 ((st.heaps heap).startAddr + i))) = 0
      → ∀ table physAddress made, kmalloc 4096 1 true st = some (table, physAddress, made)
        → HeapSpared heap stop st made)
    (behind : stop ≤ u32 ((st.heaps heap).startAddr + i))
    (away : headOf heap + 8 ≤ u32 ((st.heaps heap).startAddr + i)
      ∨ u32 ((st.heaps heap).startAddr + i) + pageSize ≤ headOf heap)
    (run : expandPage kmalloc heap i st = some st')
    : HeapSpared heap stop st st' := by
  simp only [expandPage, Option.bind_eq_bind, Option.bind_eq_some_iff, Option.some.injEq] at run
  obtain ⟨⟨entry, made⟩, got, ref, -, linked, allocated, rfl⟩ := run
  have first := getPage_spares spares got
  have second := first.trans (allocFrame_spares allocated)
  refine second.trans ?_
  rw [showFrame]
  split
  · exact .refl heap stop linked
  · refine ⟨rfl, fun byte own => if_neg (fun shown => ?_)⟩
    simp only [heapByte] at own
    omega

/-- A round of `expand` behind `stop`, with a page table, if it makes one, that spares the heap. -/
inductive GrowRound (kmalloc : Kmalloc) (heap stop : Nat) (st st' : Kernel) : Prop where
  | page {i : Nat}
      (spares : (st.dirs (st.heaps heap).pageDir).tables
          (pageIndex (u32 ((st.heaps heap).startAddr + i))) = 0
        → ∀ table physAddress made, kmalloc 4096 1 true st = some (table, physAddress, made)
          → HeapSpared heap stop st made)
      (behind : stop ≤ u32 ((st.heaps heap).startAddr + i))
      (away : headOf heap + 8 ≤ u32 ((st.heaps heap).startAddr + i)
        ∨ u32 ((st.heaps heap).startAddr + i) + pageSize ≤ headOf heap)
      (run : expandPage kmalloc heap i st = some st')
      : GrowRound kmalloc heap stop st st'

theorem GrowRound.spares (h : GrowRound kmalloc heap stop st st') : HeapSpared heap stop st st' := by
  cases h with
  | page spares behind away run => exact expandPage_spares spares behind away run

theorem growRounds_spare (h : Relation.ReflTransGen (GrowRound kmalloc heap stop) st st')
    : HeapSpared heap stop st st' := by
  induction h with
  | refl => exact .refl heap stop st
  | tail _ round ih => exact ih.trans round.spares

/-- The loop of `expand` shows pages behind the old end only, by induction on its rounds. -/
theorem expandPages_rounds {size fuel i : Nat} (startAddr : (st.heaps heap).startAddr ≤ stop)
    (place : stop ≤ (st.heaps heap).startAddr + i)
    (aligned : i % pageSize = 0) (sizeAligned : size % pageSize = 0)
    (fits : (st.heaps heap).startAddr + size ≤ wordSize - pageSize)
    (away : headOf heap + 8 ≤ (st.heaps heap).startAddr
      ∨ (st.heaps heap).startAddr + size ≤ headOf heap)
    (spares : TablesSpare kmalloc heap stop size fuel i st)
    (run : forPages (expandPage kmalloc heap) size fuel i st = some st')
    : Relation.ReflTransGen (GrowRound kmalloc heap stop) st st' := by
  induction fuel generalizing i st with
  | zero => contradiction
  | succ fuel ih =>
      rw [forPages] at run
      split at run
      · rename_i round
        simp only [pageSize, wordSize] at aligned sizeAligned fits
        have at_ : u32 ((st.heaps heap).startAddr + i) = (st.heaps heap).startAddr + i :=
          u32_of_lt (by simp only [wordSize]; omega)
        have up : u32 (i + pageSize) = i + 4096 :=
          u32_of_lt (by simp only [wordSize, pageSize]; omega)
        obtain ⟨first, rest⟩ := spares round
        obtain ⟨next, body, later⟩ := Option.bind_eq_some_iff.mp run
        have one : GrowRound kmalloc heap stop st next :=
          .page first (by rw [at_]; exact place) (by rw [at_, pageSize]; omega) body
        have more := rest next body
        rw [up] at more later
        have record := one.spares.record
        refine .head one (ih ?_ ?_ ?_ ?_ ?_ more later)
        · rw [record]
          exact startAddr
        · rw [record]
          omega
        · simp only [pageSize]
          omega
        · rw [record]
          simp only [pageSize, wordSize]
          exact fits
        · rw [record]
          exact away
      · exact Option.some.inj run ▸ .refl

end Growing

-----------------------------------------------------------------------------------------
-- Growing heaps
-----------------------------------------------------------------------------------------

/-- A growth whose rounded end is an address, and whose page tables lie elsewhere. -/
structure GrowthAside (kmalloc : Kmalloc) (nb heap : Nat) (st : Kernel) : Prop where
  below : (st.heaps heap).endAddr + nb ≤ wordSize - pageSize
  spares : TablesSpare kmalloc heap (st.heaps heap).endAddr
    (roundToPage (u32 (sub32 (st.heaps heap).endAddr (st.heaps heap).startAddr + nb)))
    pageLoopFuel (sub32 (st.heaps heap).endAddr (st.heaps heap).startAddr) st

/-- The bounds of a heap. -/
structure HeapBounds (heap : Nat) (st : Kernel) : Prop where
  le : (st.heaps heap).startAddr ≤ (st.heaps heap).endAddr
  fits : (st.heaps heap).endAddr + 8 ≤ wordSize
  startAligned : (st.heaps heap).startAddr % pageSize = 0
  endAligned : (st.heaps heap).endAddr % pageSize = 0

section Heaps

variable {kmalloc : Kmalloc} {heap nb : Nat} {st st' : Kernel} {blocks : List Block}
  {free : List Span}

theorem HeapOk.bounds (h : HeapOk heap st blocks free) : HeapBounds heap st := by
  have walk := h.layout.tiles.le
  exact ⟨by omega, h.layout.room.fits, h.startAligned, h.endAligned⟩

theorem HeapBounds.size (h : HeapBounds heap st)
    : sub32 (st.heaps heap).endAddr (st.heaps heap).startAddr
      = (st.heaps heap).endAddr - (st.heaps heap).startAddr := by
  have fits := h.fits
  exact sub32_of_le (by simp only [wordSize] at *; omega) h.le

/-- The end that a growth by `nb` bytes moves the heap to. -/
def grownEnd (stop nb : Nat) : Nat := (stop + nb + 4095) / 4096 * 4096

/-- `expand` maps pages behind the heap and moves its end. -/
theorem HeapOk.expand (h : HeapOk heap st blocks free) (aside : GrowthAside kmalloc nb heap st)
    (run : expand kmalloc
      (u32 (sub32 (st.heaps heap).endAddr (st.heaps heap).startAddr + nb)) heap st = some st')
    : 0 < nb
      ∧ st'.heaps heap = { st.heaps heap with endAddr := grownEnd (st.heaps heap).endAddr nb }
      ∧ grownEnd (st.heaps heap).endAddr nb ≤ (st.heaps heap).maxAddr
      ∧ grownEnd (st.heaps heap).endAddr nb ≤ wordSize - pageSize
      ∧ (∀ byte, heapByte (headOf heap) (st.heaps heap).startAddr (st.heaps heap).endAddr byte
        → st'.mem byte = st.mem byte)
      ∧ ∃ mapped, Relation.ReflTransGen (GrowRound kmalloc heap (st.heaps heap).endAddr) st mapped
        ∧ st' = mapped.setHeap heap
          { st.heaps heap with endAddr := grownEnd (st.heaps heap).endAddr nb } := by
  obtain ⟨le, fits, startAligned, endAligned⟩ := h.bounds
  have maxAway := h.maxAway
  obtain ⟨below, spares⟩ := aside
  have oldSize := h.bounds.size
  rw [oldSize] at run spares
  generalize first : (st.heaps heap).startAddr = start at *
  generalize last : (st.heaps heap).endAddr = stop at *
  have asked : u32 (stop - start + nb) = stop - start + nb := by
    refine u32_of_lt ?_
    simp only [wordSize, pageSize] at *
    omega
  have rounded : roundToPage (stop - start + nb) = (stop - start + nb + 4095) / 4096 * 4096 := by
    refine roundToPage_eq ?_
    simp only [wordSize, pageSize] at *
    omega
  rw [asked, rounded] at spares
  rw [asked] at run
  generalize size : (stop - start + nb + 4095) / 4096 * 4096 = newSize at *
  have end_ : start + newSize = grownEnd stop nb := by
    simp only [grownEnd, pageSize] at *
    omega
  have top : u32 (start + newSize) = start + newSize := by
    refine u32_of_lt ?_
    simp only [wordSize, pageSize] at *
    omega
  simp only [DeadKernel.expand, first, last, oldSize, rounded, top, Option.bind_eq_bind,
    Option.bind_eq_some_iff, Option.guard_eq_some', Option.some.injEq] at run
  obtain ⟨-, more, -, inside, grown, loop, rfl⟩ := run
  have rounds : Relation.ReflTransGen (GrowRound kmalloc heap stop) st grown := by
    refine expandPages_rounds ?_ ?_ ?_ ?_ ?_ ?_ spares loop
    · rw [first]
      exact le
    · rw [first]
      omega
    · simp only [pageSize] at *
      omega
    · simp only [pageSize]
      omega
    · rw [first]
      simp only [wordSize, pageSize] at *
      omega
    · rw [first]
      omega
  have spared := growRounds_spare rounds
  have record := spared.record
  have moved : u32 ((st.heaps heap).startAddr + newSize) = grownEnd stop nb := by
    rw [first, top, end_]
  refine ⟨by omega, ?_, by omega, ?_, fun byte own => ?_, grown, rounds, by rw [record, moved]⟩
  · rw [Kernel.heaps_setHeap, record, moved]
  · rw [← end_]
    simp only [wordSize, pageSize] at *
    omega
  · exact spared.bytes byte (by rwa [first])

/-- A grown heap has its new pages in one chunk at its end. -/
theorem HeapOk.grow {grown : Kernel} (h : HeapOk heap st blocks free)
    (aside : GrowthAside kmalloc nb heap st)
    (expanded : DeadKernel.expand kmalloc
      (u32 (sub32 (st.heaps heap).endAddr (st.heaps heap).startAddr + nb)) heap st = some grown)
    : ∃ m free' front addr, growTop (st.heaps heap).endAddr heap grown
          = some { grown with mem := m }
        ∧ TopOf (st.heaps heap).endAddr blocks front addr ∧ addr ≤ (st.heaps heap).endAddr
        ∧ HeapOk heap { grown with mem := m }
          (front ++ [topBlock addr (grown.heaps heap).endAddr]) free'
        ∧ (∀ byte, byte < (st.heaps heap).endAddr → ownedByte front byte ∨ footByte front byte
          → m byte = st.mem byte)
        ∧ ChangedOnly (heapByte (headOf heap) (st.heaps heap).startAddr (grown.heaps heap).endAddr)
          grown.mem m := by
  obtain ⟨positive, record, most, fits, same, -⟩ := h.expand aside expanded
  have room := h.layout.room
  have endAligned := h.endAligned
  have maxAway := h.maxAway
  have startAddr : (grown.heaps heap).startAddr = (st.heaps heap).startAddr := by rw [record]
  have maxAddr : (grown.heaps heap).maxAddr = (st.heaps heap).maxAddr := by rw [record]
  have endAddr : (grown.heaps heap).endAddr = grownEnd (st.heaps heap).endAddr nb := by rw [record]
  have up : (st.heaps heap).endAddr + 4096 ≤ (grown.heaps heap).endAddr := by
    rw [endAddr, grownEnd]
    simp only [pageSize] at endAligned
    omega
  have whole : (grown.heaps heap).endAddr % pageSize = 0 := by
    rw [endAddr, grownEnd, pageSize]
    omega
  have layout : Layout grown.mem (headOf heap) (grown.heaps heap).startAddr
      (st.heaps heap).endAddr blocks free := by
    rw [startAddr]
    have gap : Gap grown.mem (headOf heap) (st.heaps heap).startAddr (st.heaps heap).endAddr
        (st.heaps heap).endAddr (st.heaps heap).endAddr blocks [] free :=
      h.layout.openEnd.change (fun byte inside => same byte (by
        simp only [heapByte]
        omega))
    simpa using gap.close
  have room' : Room (headOf heap) (grown.heaps heap).startAddr (grown.heaps heap).endAddr := by
    rw [startAddr]
    refine ⟨room.positive, room.aligned, ?_, ?_⟩
    · rw [endAddr]
      simp only [wordSize, pageSize] at *
      omega
    · rw [endAddr]
      omega
  simp only [pageSize] at endAligned whole
  obtain ⟨m, free', front, addr, top, shape, le, layout', spares, within⟩ := growTop_spec layout room'
    (by simp only [minChunkSize]; omega) (by omega) (by omega)
  refine ⟨m, free', front, addr, top, shape, le, ⟨layout', ?_, whole, ?_⟩, fun byte below spared => ?_,
    startAddr ▸ within⟩
  · change (grown.heaps heap).startAddr % pageSize = 0
    rw [startAddr]
    exact h.startAligned
  · change headOf heap + 8 ≤ (grown.heaps heap).startAddr ∨ (grown.heaps heap).maxAddr + 8 ≤ headOf heap
    rw [startAddr, maxAddr]
    exact maxAway
  · have above : (st.heaps heap).startAddr ≤ byte := by
      have walk := (tiles_append front _).mp layout'.tiles
      obtain ⟨_, left, -⟩ := walk
      rw [← startAddr]
      exact left.spared_above spared
    rw [spares byte spared, same byte (.inl ⟨above, below⟩)]

end Heaps

-----------------------------------------------------------------------------------------
-- alloc
-----------------------------------------------------------------------------------------

/-- A growth that the call makes is one that stays aside. -/
def AllocAside : Nat → Nat → Nat → Kernel → Prop
  | 0, _, _, _ => True
  | fuel + 1, size, heap, st =>
      findSmallestChunk (request2Size size) (headOf heap) st.mem = some 0
        → GrowthAside (kmallocWith (alloc fuel)) (request2Size size) heap st

/-- What is asked of the hole that the call takes, in the state that it takes it from. -/
def HoleIs (good : Nat → Kernel → Prop) : Nat → Nat → Nat → Kernel → Prop
  | 0, _, _, _ => True
  | fuel + 1, size, heap, st =>
      (findSmallestChunk (request2Size size) (headOf heap) st.mem = some 0
        → ∀ grown topped,
          expand (kmallocWith (alloc fuel))
            (u32 (sub32 (st.heaps heap).endAddr (st.heaps heap).startAddr + request2Size size))
            heap st = some grown
          → growTop (st.heaps heap).endAddr heap grown = some topped
          → HoleIs good fuel size heap topped)
        ∧ ∀ hole, hole ≠ 0
          → findSmallestChunk (request2Size size) (headOf heap) st.mem = some hole → good hole st

/-- What `alloc` takes its chunk from: the heap as it is, or the heap that it has grown first. -/
inductive AllocFrom (nb heap : Nat) (st : Kernel) (blocks : List Block)
    : Kernel → List Block → Prop where
  | here : AllocFrom nb heap st blocks st blocks
  | grown {fuel : Nat} {grown topped : Kernel} {front : List Block} {addr : Nat}
      (aside : GrowthAside (kmallocWith (alloc fuel)) nb heap st)
      (expanded : expand (kmallocWith (alloc fuel))
        (u32 (sub32 (st.heaps heap).endAddr (st.heaps heap).startAddr + nb)) heap st = some grown)
      (record : topped.heaps heap
        = { st.heaps heap with endAddr := grownEnd (st.heaps heap).endAddr nb })
      (top : TopOf (st.heaps heap).endAddr blocks front addr)
      (le : addr ≤ (st.heaps heap).endAddr) (only : OnlyMem grown topped)
      (within : ChangedOnly (heapByte (headOf heap) (st.heaps heap).startAddr
        (topped.heaps heap).endAddr) grown.mem topped.mem)
      (spares : ∀ byte, byte < (st.heaps heap).endAddr → ownedByte front byte ∨ footByte front byte
        → topped.mem byte = st.mem byte)
      : AllocFrom nb heap st blocks topped (front ++ [topBlock addr (topped.heaps heap).endAddr])

/-- What `alloc` takes its chunk from has the chunks in use of the heap, and marked ones. -/
theorem AllocFrom.keeps {nb heap : Nat} {st from_ : Kernel} {blocks blocks' : List Block}
    (h : AllocFrom nb heap st blocks from_ blocks')
    : KeepsUsed blocks blocks'
      ∧ ∀ b ∈ blocks', b ∈ blocks ∨ b.used = false ∧ b.prevUsed = true := by
  cases h with
  | here => exact ⟨.of_subset (List.Subset.refl blocks), fun b member => .inl member⟩
  | grown aside expanded record top le only within =>
      cases top with
      | @reused front c unused =>
          refine ⟨(KeepsUsed.drop unused).trans (.of_subset ?_), fun b member => ?_⟩
          · rw [List.append_nil]
            exact List.subset_append_left _ _
          · rcases List.mem_append.mp member with inFront | last
            · exact .inl (List.mem_append_left _ inFront)
            · rw [List.mem_singleton.mp last]
              exact .inr ⟨rfl, rfl⟩
      | fresh =>
          refine ⟨.of_subset (List.subset_append_left _ _), fun b member => ?_⟩
          rcases List.mem_append.mp member with inFront | last
          · exact .inl inFront
          · rw [List.mem_singleton.mp last]
            exact .inr ⟨rfl, rfl⟩

/-- A heap with all PINUSE flags set has them all when a chunk has been taken. -/
theorem AllocFrom.taken_marked {nb heap : Nat} {st from_ : Kernel} {blocks front back : List Block}
    {b : Block} (h : AllocFrom nb heap st blocks from_ (front ++ b :: back))
    (marked : ∀ c ∈ blocks, c.prevUsed = true)
    : ∀ c ∈ front ++ takenFrom nb b back, c.prevUsed = true := by
  have before : ∀ c ∈ front ++ b :: back, c.prevUsed = true := by
    intro c member
    exact (h.keeps.2 c member).elim (marked c) (fun new => new.2)
  intro c member
  rcases List.mem_append.mp member with inFront | taken
  · exact before c (List.mem_append_left _ inFront)
  · exact takenFrom_marked (before b (by simp)) (fun d inside => before d (by simp [inside])) taken

/-- A chunk that is large enough is found. -/
theorem HeapOk.find {heap : Nat} {st : Kernel} {blocks : List Block} {free : List Span}
    (h : HeapOk heap st blocks free) (nb : Nat)
    : (findSmallestChunk nb (headOf heap) st.mem = some 0
        ∧ ∀ b ∈ blocks, b.used = false → b.size < nb)
      ∨ ∃ front b back, blocks = front ++ b :: back ∧ b.used = false ∧ nb ≤ b.size ∧ b.addr ≠ 0
        ∧ findSmallestChunk nb (headOf heap) st.mem = some b.addr := by
  have positive := h.layout.room.positive
  rcases h.layout.list.findSmallestChunk nb with
      ⟨none, small⟩ | ⟨left, s, right, rfl, found, large, -⟩
  · refine .inl ⟨none, fun b member unused => small b.toSpan ?_⟩
    exact h.layout.listed.symm.subset (mem_freeSpans.mpr ⟨b, member, unused, rfl⟩)
  · obtain ⟨b, member, unused, rfl⟩ := mem_freeSpans.mp (h.layout.listed.subset
      (List.mem_append_right _ List.mem_cons_self))
    obtain ⟨front, back, rfl⟩ := List.append_of_mem member
    have place := (h.layout.tiles.block member).1
    exact .inr ⟨front, b, back, rfl, unused, large, by omega, found⟩

/-- An attempt that finds a chunk takes it. -/
theorem HeapOk.attempt {fuel size heap p : Nat} {st st' : Kernel} {front back : List Block}
    {b : Block} {free : List Span} (h : HeapOk heap st (front ++ b :: back) free)
    (fits : size + 11 < wordSize) (unused : b.used = false) (large : request2Size size ≤ b.size)
    (some_ : b.addr ≠ 0)
    (found : findSmallestChunk (request2Size size) (headOf heap) st.mem = some b.addr)
    (run : alloc (fuel + 1) size heap st = some (p, st'))
    : p = b.addr + 8 ∧ DeadKernel.takeHole (request2Size size) b.addr heap st = some (p, st')
      ∧ ∃ free', HeapOk heap st' (front ++ takenFrom (request2Size size) b back) free' := by
  obtain ⟨m', free', took, after, -⟩ := h.takeHole unused (request2Size_spec fits).1 large
  have taken : DeadKernel.takeHole (request2Size size) b.addr heap st = some (p, st') := by
    rw [alloc, found] at run
    have behind : (if b.addr = 0 then _
      else DeadKernel.takeHole (request2Size size) b.addr heap st) = some (p, st') := run
    rwa [if_neg some_] at behind
  obtain ⟨rfl, rfl⟩ := Prod.mk.inj (Option.some.inj (took.symm.trans taken))
  exact ⟨rfl, taken, free', after⟩

/-- `alloc` takes a free chunk, of the heap as it is or of the grown heap. -/
theorem HeapOk.alloc {fuel size heap p : Nat} {st st' : Kernel} {blocks : List Block}
    {free : List Span} (h : HeapOk heap st blocks free) (fits : size + 11 < wordSize)
    (aside : AllocAside fuel size heap st)
    (run : alloc fuel size heap st = some (p, st'))
    : ∃ from_ front b back free₁ free₂,
        AllocFrom (request2Size size) heap st blocks from_ (front ++ b :: back)
        ∧ HeapOk heap from_ (front ++ b :: back) free₁ ∧ b.used = false
        ∧ request2Size size ≤ b.size ∧ p = b.addr + 8
        ∧ DeadKernel.takeHole (request2Size size) b.addr heap from_ = some (p, st')
        ∧ HeapOk heap st' (front ++ takenFrom (request2Size size) b back) free₂
        ∧ ∀ good, HoleIs good fuel size heap st → good b.addr from_ := by
  cases fuel with
  | zero => contradiction
  | succ fuel =>
      have chunk := (request2Size_spec fits).1
      rw [DeadKernel.alloc] at run
      rcases h.find (request2Size size) with ⟨none, -⟩ | ⟨front, b, back, rfl, unused, large, some, found⟩
      · rw [none] at run
        have attempt : ((DeadKernel.expand (kmallocWith (DeadKernel.alloc fuel))
            (u32 (sub32 (st.heaps heap).endAddr (st.heaps heap).startAddr + request2Size size)) heap
              st).bind (fun st₁ => (growTop (st.heaps heap).endAddr heap st₁).bind
                (fun st₂ => DeadKernel.alloc fuel size heap st₂))) = some (p, st') := run
        obtain ⟨grown, expanded, behind⟩ := Option.bind_eq_some_iff.mp attempt
        obtain ⟨-, record, -⟩ := h.expand (aside none) expanded
        obtain ⟨m, free', front, addr, top, shape, le, topped, spares, within⟩ :=
          h.grow (aside none) expanded
        rw [top, Option.bind_some] at behind
        have from_ : AllocFrom (request2Size size) heap st blocks { grown with mem := m }
            (front ++ [topBlock addr (grown.heaps heap).endAddr]) := by
          exact .grown (aside none) expanded record shape le (.write grown m) within spares
        cases fuel with
        | zero => contradiction
        | succ fuel =>
            rcases topped.find (request2Size size)
              with ⟨-, small⟩ | ⟨front', b, back, split, unused, large, some_, found⟩
            · have short := small (topBlock addr (grown.heaps heap).endAddr) (by simp) rfl
              have endAddr : (grown.heaps heap).endAddr
                  = grownEnd (st.heaps heap).endAddr (request2Size size) := by rw [record]
              simp only [topBlock, endAddr, grownEnd] at short
              omega
            · rw [split] at topped from_
              obtain ⟨place, took, free₂, after⟩ :=
                topped.attempt fits unused large some_ found behind
              exact ⟨_, front', b, back, free', free₂, from_, topped, unused, large, place, took,
                after, fun good asked => (asked.1 none grown _ expanded top).2 b.addr some_ found⟩
      · obtain ⟨place, took, free₂, after⟩ := h.attempt fits unused large some found run
        exact ⟨st, front, b, back, free, free₂, .here, h, unused, large, place, took, after,
          fun good asked => asked.2 b.addr some found⟩

/-- The chunk that a pointer of the walk belongs to. -/
theorem mem2Chunk_add {chunk : Nat} (fits : chunk + 8 < wordSize) : mem2Chunk (chunk + 8) = chunk := by
  rw [mem2Chunk, sub32_of_le fits (Nat.le_add_left 8 chunk), Nat.add_sub_cancel]

theorem HeapOk.chunksize_mem {heap : Nat} {st : Kernel} {blocks : List Block} {free : List Span}
    (h : HeapOk heap st blocks free) {b : Block} (member : b ∈ blocks)
    : mem2Chunk (b.addr + 8) = b.addr ∧ chunksize st.mem b.addr = b.size := by
  obtain ⟨-, below, large, aligned, header⟩ := h.layout.tiles.block member
  have fits := h.layout.room.fits
  refine ⟨mem2Chunk_add ?_, chunksize_of_header header aligned⟩
  simp only [Span.stop, minChunkSize] at *
  omega

theorem HeapOk.chunk2Mem_mem {heap : Nat} {st : Kernel} {blocks : List Block} {free : List Span}
    (h : HeapOk heap st blocks free) {b : Block} (member : b ∈ blocks)
    : chunk2Mem b.addr = b.addr + 8 := by
  obtain ⟨-, below, large, -, -⟩ := h.layout.tiles.block member
  have fits := h.layout.room.fits
  refine u32_of_lt ?_
  simp only [Span.stop, minChunkSize] at *
  omega

-----------------------------------------------------------------------------------------
-- createHeap
-----------------------------------------------------------------------------------------

/-- A range that a heap can be made in: at least the minimum size, not from address 0 on, not up
to the end of the address space, and apart from its own descriptor.
-/
structure HeapRange (heap start stop max : Nat) : Prop where
  positive : 0 < start
  least : start + heapMinSize ≤ stop
  most : stop ≤ max
  fits : max + 8 ≤ wordSize
  away : headOf heap + 8 ≤ start ∨ max + 8 ≤ headOf heap
  headFits : headOf heap + 8 ≤ wordSize

/-- `INIT_LIST_HEAD` makes the empty list. -/
theorem freeList_init {head : Nat} (fits : head + 8 ≤ wordSize) (m : Mem)
    : FreeList (nodeLinks.setPrev (nodeLinks.setNext m head head) head head) head [] where
  ring := by
    have small : head < wordSize := by
      simp only [wordSize] at *
      omega
    refine ⟨?_, ?_, trivial⟩
    · rw [nodeLinks_lawful.next_setPrev, nodeLinks_lawful.next_setNext m head head small]
    · rw [nodeLinks_lawful.prev_setPrev _ head head small]
  sizes := fun _ none => absurd none List.not_mem_nil
  sorted := .nil
  apart := .nil
  headApart := fun _ none => absurd none List.not_mem_nil
  fits := fun _ none => absurd none List.not_mem_nil
  headFits := fits

/-- A new heap is one free chunk. -/
theorem createHeap_ok {heap dir start stop max supervisor readonly : Nat} {st made : Kernel}
    (range : HeapRange heap start stop max)
    (created : createHeap heap dir start stop max supervisor readonly st = some made)
    : ∃ free, HeapOk heap made [topBlock start stop] free := by
  obtain ⟨startAligned, stopAligned, record, -, -⟩ := createHeap_record created
  obtain ⟨positive, least, most, fits, away, headFits⟩ := range
  simp only [createHeap, Option.bind_eq_bind, Option.bind_eq_some_iff, Option.guard_eq_some',
    Option.some.injEq] at created
  obtain ⟨-, -, -, -, m, stored, rfl⟩ := created
  have room : Room (headOf heap) start stop := by
    simp only [heapMinSize, wordSize, pageSize] at *
    exact ⟨positive, by omega, by simp only [wordSize]; omega, by omega⟩
  have size : sub32 stop start = stop - start := by
    simp only [heapMinSize, wordSize] at *
    exact sub32_of_le (by simp only [wordSize]; omega) (by omega)
  have empty := freeList_init headFits st.mem
  have kept : ∀ byte, onNodes [headOf heap] byte
      → store32 (nodeLinks.setPrev (nodeLinks.setNext st.mem (headOf heap) (headOf heap))
          (headOf heap) (headOf heap)) start 0 byte
        = nodeLinks.setPrev (nodeLinks.setNext st.mem (headOf heap) (headOf heap))
          (headOf heap) (headOf heap) byte := by
    rintro byte ⟨node, inside, low, high⟩
    have same : node = headOf heap := List.mem_singleton.mp inside
    have away := room.away
    exact store32_other (by simp only [heapMinSize] at least; omega)
  have gap : Gap _ (headOf heap) start start stop stop [] [] [] :=
    ⟨rfl, rfl, empty.transport kept (fun b none => absurd none List.not_mem_nil), .nil, room⟩
  simp only [heapMinSize, pageSize] at least startAligned stopAligned
  obtain ⟨m', free, stored', layout, -, -⟩ := gap.insertTop
    (by simp only [minChunkSize]; omega) (by omega)
  rw [size] at stored
  obtain rfl := Option.some.inj (stored'.symm.trans stored)
  exact ⟨free, by rw [record]; exact layout, by rw [record]; exact startAligned,
    by rw [record]; exact stopAligned, by rw [record]; exact away⟩

end DeadKernel
