import DeadKernel.Memory.HeapMemory
import Mathlib.Data.Option.Basic
import Mathlib.Logic.Relation

/-! How far a heap reaches and which pages its calls map or give back. Nothing here depends on
what the chunks of the heap say.
-/

namespace DeadKernel

open Words

-----------------------------------------------------------------------------------------
-- Mapped pages
-----------------------------------------------------------------------------------------

/-- The page-table entry of an address, if the directory has a table for it. -/
def Kernel.pageOf (st : Kernel) (dir address : Nat) : Option PageRef :=
  if (st.dirs dir).tables (pageIndex address) ≠ 0 then
    some ((st.dirs dir).tables (pageIndex address), pageOffset address)
  else none

def Mapped (st : Kernel) (dir address : Nat) : Prop :=
  ∃ ref, st.pageOf dir address = some ref ∧ (st.page ref).present = true

/-- The address of a page. -/
structure IsPage (address : Nat) : Prop where
  aligned : address % pageSize = 0
  fits : address < wordSize

/-- The directory of a heap: no table serves two slots, and in the range of the heap a page is
present exactly when it has a frame.
-/
structure HeapPages (heap : Nat) (st : Kernel) : Prop where
  fits : (st.heaps heap).maxAddr < wordSize
  distinct : ∀ i < tablesInDir, ∀ j < tablesInDir,
    (st.dirs (st.heaps heap).pageDir).tables i ≠ 0
    → (st.dirs (st.heaps heap).pageDir).tables i = (st.dirs (st.heaps heap).pageDir).tables j
    → i = j
  linked : ∀ address ref, (st.heaps heap).startAddr ≤ address → address < (st.heaps heap).maxAddr
    → st.pageOf (st.heaps heap).pageDir address = some ref
    → ((st.page ref).present = true ↔ (st.page ref).frame ≠ 0)

/-- A heap of at least the minimum size, within its limit, on mapped pages. -/
structure HeapExtent (heap : Nat) (st : Kernel) : Prop where
  startAligned : (st.heaps heap).startAddr % pageSize = 0
  endAligned : (st.heaps heap).endAddr % pageSize = 0
  least : (st.heaps heap).startAddr + heapMinSize ≤ (st.heaps heap).endAddr
  most : (st.heaps heap).endAddr ≤ (st.heaps heap).maxAddr
  mapped : ∀ address, IsPage address → (st.heaps heap).startAddr ≤ address
    → address < (st.heaps heap).endAddr → Mapped st (st.heaps heap).pageDir address

/-- From a page's address on there is no other before the next page. -/
theorem IsPage.only {address other : Nat} (page : IsPage address) (otherPage : IsPage other)
    : (address ≤ other ∧ other < address + pageSize) ↔ other = address := by
  have aligned := page.aligned
  have otherAligned := otherPage.aligned
  simp only [pageSize] at *
  omega

theorem pageIndex_lt {address : Nat} (fits : address < wordSize)
    : pageIndex address < tablesInDir := by
  simp only [pageIndex, addr2Frame, pageSize, tablesInDir, wordSize] at *
  omega

theorem Kernel.pageOf_eq {st : Kernel} {dir address : Nat} {ref : PageRef}
    : st.pageOf dir address = some ref
      ↔ (st.dirs dir).tables (pageIndex address) ≠ 0
        ∧ ref = ((st.dirs dir).tables (pageIndex address), pageOffset address) := by
  rw [Kernel.pageOf]
  split
  · rename_i table
    rw [Option.some.injEq, eq_comm, and_iff_right table]
  · rename_i table
    exact ⟨fun none => by contradiction, fun both => absurd both.1 table⟩

/-- No two pages of the directory of a heap share their entry. -/
theorem HeapPages.pageOf_inj {heap : Nat} {st : Kernel} (h : HeapPages heap st)
    {address other : Nat} {ref : PageRef} (page : IsPage address) (otherPage : IsPage other)
    (at_page : st.pageOf (st.heaps heap).pageDir address = some ref)
    (at_other : st.pageOf (st.heaps heap).pageDir other = some ref)
    : other = address := by
  obtain ⟨table, rfl⟩ := Kernel.pageOf_eq.mp at_page
  obtain ⟨-, same⟩ := Kernel.pageOf_eq.mp at_other
  have slot := h.distinct _ (pageIndex_lt page.fits) _ (pageIndex_lt otherPage.fits) table
    (congrArg Prod.fst same)
  have offset : pageOffset address = pageOffset other := congrArg Prod.snd same
  have aligned := page.aligned
  have otherAligned := otherPage.aligned
  simp only [pageIndex, pageOffset, addr2Frame, pageSize] at slot offset aligned otherAligned
  omega

-----------------------------------------------------------------------------------------
-- Mapping pages
-----------------------------------------------------------------------------------------

/-- The pages from `low` to `high` have been mapped, and no others. -/
structure PagesMapped (heap low high : Nat) (st st' : Kernel) : Prop where
  record : st'.heaps heap = st.heaps heap
  pages : HeapPages heap st'
  mapped : ∀ address, IsPage address → (Mapped st' (st.heaps heap).pageDir address
    ↔ Mapped st (st.heaps heap).pageDir address ∨ low ≤ address ∧ address < high)

theorem PagesMapped.trans {heap low middle high : Nat} {st st' st'' : Kernel}
    (h : PagesMapped heap low middle st st') (h' : PagesMapped heap middle high st' st'')
    (lower : low ≤ middle) (upper : middle ≤ high)
    : PagesMapped heap low high st st'' := by
  refine ⟨h'.record.trans h.record, h'.pages, fun address page => ?_⟩
  have later := h'.mapped address page
  rw [h.record, h.mapped address page] at later
  rw [later, or_assoc]
  refine or_congr_right ?_
  omega

/-- A new page table is a block of its own, and making it moves neither the heap's record nor
an entry of its directory.
-/
structure TableMade (heap table : Nat) (st st' : Kernel) : Prop where
  positive : table ≠ 0
  record : st'.heaps heap = st.heaps heap
  dir : st'.dirs (st.heaps heap).pageDir = st.dirs (st.heaps heap).pageDir
  apart : ∀ i < tablesInDir, (st.dirs (st.heaps heap).pageDir).tables i ≠ 0
    → (st.dirs (st.heaps heap).pageDir).tables i ≠ table
      ∧ st'.tables ((st.dirs (st.heaps heap).pageDir).tables i)
        = st.tables ((st.dirs (st.heaps heap).pageDir).tables i)

/-- What one round of `expand` relies on: a page table that it makes is a block of its own,
and a page without a frame is not given frame 0.
-/
structure PageReady (kmalloc : Kmalloc) (heap address : Nat) (st : Kernel) : Prop where
  table : (st.dirs (st.heaps heap).pageDir).tables (pageIndex address) = 0
    → ∀ table physAddress made, kmalloc 4096 1 true st = some (table, physAddress, made)
      → TableMade heap table st made
  frame : ∀ ref made,
    getPage kmalloc address true (st.heaps heap).pageDir st = some (some ref, made)
    → (made.page ref).frame = 0 → firstFrame made % 1048576 ≠ 0

/-- The entries that a directory has besides those of a new table. -/
theorem TableMade.elsewhere {heap table slot : Nat} {st made now : Kernel}
    (h : TableMade heap table st made)
    (tables : now.tables = update made.tables table PageTable.zero)
    (slots : (now.dirs (st.heaps heap).pageDir).tables
      = update (st.dirs (st.heaps heap).pageDir).tables slot table)
    {address : Nat} (fits : address < wordSize) (other : pageIndex address ≠ slot)
    : now.pageOf (st.heaps heap).pageDir address = st.pageOf (st.heaps heap).pageDir address
      ∧ ∀ ref, st.pageOf (st.heaps heap).pageDir address = some ref
        → now.page ref = st.page ref := by
  refine ⟨by simp only [Kernel.pageOf, slots, update_other other], fun ref found => ?_⟩
  obtain ⟨present, rfl⟩ := Kernel.pageOf_eq.mp found
  obtain ⟨apart, same⟩ := h.apart _ (pageIndex_lt fits) present
  simp only [Kernel.page, tables, update_other apart, same]

/-- A new table has every entry zero. -/
theorem TableMade.here {heap table slot : Nat} {st made now : Kernel}
    (h : TableMade heap table st made)
    (tables : now.tables = update made.tables table PageTable.zero)
    (slots : (now.dirs (st.heaps heap).pageDir).tables
      = update (st.dirs (st.heaps heap).pageDir).tables slot table)
    {address : Nat} (same : pageIndex address = slot)
    : now.pageOf (st.heaps heap).pageDir address = some (table, pageOffset address)
      ∧ now.page (table, pageOffset address) = .zero := by
  refine ⟨?_, by simp only [Kernel.page, tables, update_self, PageTable.zero]⟩
  simp only [Kernel.pageOf, slots, same, update_self, ne_eq, h.positive, not_false_eq_true, if_true]

/-- A new page table maps nothing. -/
theorem TableMade.pagesMapped {heap table slot low : Nat} {st made now : Kernel}
    (h : TableMade heap table st made) (pages : HeapPages heap st)
    (none : (st.dirs (st.heaps heap).pageDir).tables slot = 0)
    (record : now.heaps heap = st.heaps heap)
    (tables : now.tables = update made.tables table PageTable.zero)
    (slots : (now.dirs (st.heaps heap).pageDir).tables
      = update (st.dirs (st.heaps heap).pageDir).tables slot table)
    : PagesMapped heap low low st now := by
  refine ⟨record, ⟨by rw [record]; exact pages.fits, ?_, ?_⟩, fun address page => ?_⟩
  · intro i iLt j jLt present same
    rw [record, slots] at present same
    by_cases hi : i = slot
    · by_cases hj : j = slot
      · rw [hi, hj]
      · rw [hi, update_self, update_other hj] at same
        exact absurd same.symm (h.apart j jLt (same ▸ h.positive)).1
    · rw [update_other hi] at present same
      by_cases hj : j = slot
      · rw [hj, update_self] at same
        exact absurd same (h.apart i iLt present).1
      · rw [update_other hj] at same
        exact pages.distinct i iLt j jLt present same
  · intro address ref above below found
    rw [record] at above below found
    by_cases here : pageIndex address = slot
    · obtain ⟨new, zero⟩ := h.here tables slots here
      obtain rfl := Option.some.inj (found.symm.trans new)
      rw [zero]
      decide
    · obtain ⟨same, kept⟩ := h.elsewhere tables slots (lt_trans below pages.fits) here
      rw [same] at found
      rw [kept ref found]
      exact pages.linked address ref above below found
  · have nowhere : ¬ (low ≤ address ∧ address < low) := by omega
    rw [or_iff_left nowhere]
    by_cases here : pageIndex address = slot
    · obtain ⟨new, zero⟩ := h.here tables slots here
      constructor
      · rintro ⟨ref, found, present⟩
        obtain rfl := Option.some.inj (found.symm.trans new)
        rw [zero] at present
        contradiction
      · rintro ⟨ref, found, -⟩
        exact absurd (here ▸ none) (Kernel.pageOf_eq.mp found).1
    · obtain ⟨same, kept⟩ := h.elsewhere tables slots page.fits here
      rw [Mapped, Mapped, same]
      constructor
      · rintro ⟨ref, found, present⟩
        exact ⟨ref, found, kept ref found ▸ present⟩
      · rintro ⟨ref, found, present⟩
        exact ⟨ref, found, (kept ref found).symm ▸ present⟩

/-- `getPage` finds the entry or makes its table; nothing is mapped by that. -/
theorem getPage_entry {kmalloc : Kmalloc} {heap address : Nat} {st st' : Kernel}
    {page : Option PageRef} (pages : HeapPages heap st)
    (ready : PageReady kmalloc heap address st)
    (run : getPage kmalloc address true (st.heaps heap).pageDir st = some (page, st'))
    : ∃ ref, page = some ref ∧ st'.pageOf (st.heaps heap).pageDir address = some ref
        ∧ PagesMapped heap address address st st' := by
  rw [getPage] at run
  split at run
  · rename_i table
    simp only [Option.some.injEq, Prod.mk.injEq] at run
    obtain ⟨rfl, rfl⟩ := run
    refine ⟨_, rfl, Kernel.pageOf_eq.mpr ⟨table, rfl⟩, rfl, pages, fun other _ => ?_⟩
    exact ⟨Or.inl, fun either => either.resolve_right (fun both => by omega)⟩
  · rename_i none
    rw [if_pos rfl] at run
    obtain ⟨⟨table, physAddress, made⟩, allocated, same⟩ := Option.bind_eq_some_iff.mp run
    simp only [Option.some.injEq, Prod.mk.injEq] at same
    obtain ⟨rfl, rfl⟩ := same
    have new := ready.table (not_not.mp none) table physAddress made allocated
    have here (now : Kernel) (heaps : now.heaps = made.heaps)
        (tables : now.tables = update made.tables table PageTable.zero)
        (slots : (now.dirs (st.heaps heap).pageDir).tables
          = update (made.dirs (st.heaps heap).pageDir).tables (pageIndex address) table)
        : now.pageOf (st.heaps heap).pageDir address = some (table, pageOffset address)
          ∧ PagesMapped heap address address st now := by
      rw [new.dir] at slots
      have record : now.heaps heap = st.heaps heap := by rw [heaps, new.record]
      refine ⟨?_, ?_⟩
      · exact (new.here tables slots rfl).1
      · exact new.pagesMapped pages (not_not.mp none) record tables slots
    refine ⟨_, rfl, here _ rfl rfl ?_⟩
    simp only [update_self]

/-- The frame that `allocFrame` finds makes the page present. -/
theorem allocFrame_mapped {heap address isKernel isWriteable : Nat} {ref : PageRef}
    {st st' : Kernel} (pages : HeapPages heap st) (page : IsPage address)
    (above : (st.heaps heap).startAddr ≤ address) (below : address < (st.heaps heap).maxAddr)
    (found : st.pageOf (st.heaps heap).pageDir address = some ref)
    (frame : (st.page ref).frame = 0 → firstFrame st % 1048576 ≠ 0)
    (run : allocFrame ref isKernel isWriteable st = some st')
    : PagesMapped heap address (address + pageSize) st st' := by
  rw [allocFrame] at run
  split at run
  · rename_i framed
    obtain rfl := Option.some.inj run
    have present := (pages.linked address ref above below found).mpr framed
    refine ⟨rfl, pages, fun other page' => ?_⟩
    rw [page.only page']
    refine ⟨Or.inl, fun either => either.elim id ?_⟩
    rintro rfl
    exact ⟨ref, found, present⟩
  · rename_i unframed
    by_cases full : firstFrame st = wordSize - 1
    · rw [if_pos full] at run
      contradiction
    rw [if_neg full] at run
    obtain rfl := Option.some.inj run
    have taken := frame (not_not.mp unframed)
    refine ⟨rfl, ⟨pages.fits, pages.distinct, fun other other' above' below' at_other => ?_⟩,
      fun other page' => ?_⟩
    · by_cases same : other' = ref
      · rw [same, Kernel.page_setPage]
        exact ⟨fun _ => taken, fun _ => rfl⟩
      · rw [Kernel.page_setPage_other same]
        exact pages.linked other other' above' below' at_other
    · rw [page.only page']
      constructor
      · rintro ⟨other', at_other, present⟩
        by_cases same : other' = ref
        · exact Or.inr (pages.pageOf_inj page page' found (same ▸ at_other))
        · rw [Kernel.page_setPage_other same] at present
          exact Or.inl ⟨other', at_other, present⟩
      · rintro (⟨other', at_other, present⟩ | rfl)
        · by_cases same : other' = ref
          · exact ⟨other', at_other, by rw [same, Kernel.page_setPage]⟩
          · exact ⟨other', at_other, by rw [Kernel.page_setPage_other same]; exact present⟩
        · exact ⟨ref, found, by rw [Kernel.page_setPage]⟩

/-- A page that shows its new frame is mapped as before. -/
theorem PagesMapped.showFrame {heap low high address : Nat} {before : Page} {ref : PageRef}
    {st st' : Kernel} (h : PagesMapped heap low high st st')
    : PagesMapped heap low high st (showFrame address before ref st') := by
  rw [DeadKernel.showFrame]
  split
  · exact h
  · exact ⟨h.record, ⟨h.pages.fits, h.pages.distinct, h.pages.linked⟩, h.mapped⟩

/-- One round of `expand` maps its page. -/
theorem expandPage_mapped {kmalloc : Kmalloc} {heap i address : Nat} {st st' : Kernel}
    (pages : HeapPages heap st) (place : u32 ((st.heaps heap).startAddr + i) = address)
    (page : IsPage address) (above : (st.heaps heap).startAddr ≤ address)
    (below : address < (st.heaps heap).maxAddr) (ready : PageReady kmalloc heap address st)
    (run : expandPage kmalloc heap i st = some st')
    : PagesMapped heap address (address + pageSize) st st' := by
  simp only [expandPage, place, Option.bind_eq_bind, Option.bind_eq_some_iff, Option.some.injEq]
    at run
  obtain ⟨⟨entry, made⟩, got, ref, rfl, linked, allocated, rfl⟩ := run
  obtain ⟨_, same, found, first⟩ := getPage_entry pages ready got
  obtain rfl := Option.some.inj same
  have record := first.record
  have second := allocFrame_mapped first.pages page (by rw [record]; exact above)
    (by rw [record]; exact below) (by rw [record]; exact found) (ready.frame _ _ got) allocated
  refine (first.trans second (le_refl address) ?_).showFrame
  simp only [pageSize]
  omega

/-- What the rounds of `expand` rely on, each in the state that it starts from. -/
def GrowthReady (kmalloc : Kmalloc) (heap stop : Nat) : Nat → Nat → Kernel → Prop
  | 0, _, _ => True
  | fuel + 1, i, st =>
      i < stop → PageReady kmalloc heap (u32 ((st.heaps heap).startAddr + i)) st
        ∧ ∀ st', expandPage kmalloc heap i st = some st'
          → GrowthReady kmalloc heap stop fuel (u32 (i + pageSize)) st'

/-- The loop of `expand` maps the pages it passes, by induction on its rounds. -/
theorem expandPages_mapped {kmalloc : Kmalloc} {heap start stop fuel i : Nat} {st st' : Kernel}
    (pages : HeapPages heap st) (startAddr : (st.heaps heap).startAddr = start)
    (startAligned : start % pageSize = 0) (aligned : i % pageSize = 0)
    (stopAligned : stop % pageSize = 0) (le : i ≤ stop)
    (below : start + stop ≤ (st.heaps heap).maxAddr)
    (ready : GrowthReady kmalloc heap stop fuel i st)
    (run : forPages (expandPage kmalloc heap) stop fuel i st = some st')
    : PagesMapped heap (start + i) (start + stop) st st' := by
  have fits := pages.fits
  simp only [pageSize, wordSize] at fits startAligned aligned stopAligned
  induction fuel generalizing i st with
  | zero => contradiction
  | succ fuel ih =>
      rw [forPages] at run
      split at run
      · rename_i round
        have place : u32 ((st.heaps heap).startAddr + i) = start + i := by
          rw [startAddr]
          exact u32_of_lt (by simp only [wordSize]; omega)
        have up : u32 (i + pageSize) = i + 4096 :=
          u32_of_lt (by simp only [wordSize, pageSize]; omega)
        obtain ⟨first, rest⟩ := ready round
        obtain ⟨next, body, later⟩ := Option.bind_eq_some_iff.mp run
        have page : IsPage (start + i) :=
          ⟨by simp only [pageSize]; omega, by simp only [wordSize]; omega⟩
        rw [place] at first
        have one := expandPage_mapped pages place page (by omega) (by omega) first body
        have more := rest next body
        rw [up] at more later
        have record := one.record
        have others := ih one.pages (by rw [record]; exact startAddr) (by omega) (by omega)
          (by rw [record]; exact below) more later (by rw [record]; exact fits)
        have next_page : start + i + pageSize = start + (i + 4096) := by
          simp only [pageSize]
          omega
        rw [next_page] at one
        exact one.trans others (by omega) (by omega)
      · obtain rfl := Option.some.inj run
        refine ⟨rfl, pages, fun address _ => ⟨Or.inl, fun either => either.resolve_right ?_⟩⟩
        omega

-----------------------------------------------------------------------------------------
-- Growing
-----------------------------------------------------------------------------------------

/-- What growing does: the end moves up within the limit, and the pages up to the new end are
mapped, no others.
-/
structure HeapGrown (heap : Nat) (st st' : Kernel) : Prop where
  record : st'.heaps heap = { st.heaps heap with endAddr := (st'.heaps heap).endAddr }
  le : (st.heaps heap).endAddr ≤ (st'.heaps heap).endAddr
  extent : HeapExtent heap st'
  pages : HeapPages heap st'
  mapped : ∀ address, IsPage address → (Mapped st' (st.heaps heap).pageDir address
    ↔ Mapped st (st.heaps heap).pageDir address
      ∨ (st.heaps heap).endAddr ≤ address ∧ address < (st'.heaps heap).endAddr)

theorem HeapGrown.startAddr {heap : Nat} {st st' : Kernel} (h : HeapGrown heap st st')
    : (st'.heaps heap).startAddr = (st.heaps heap).startAddr := by
  rw [h.record]

theorem HeapGrown.maxAddr {heap : Nat} {st st' : Kernel} (h : HeapGrown heap st st')
    : (st'.heaps heap).maxAddr = (st.heaps heap).maxAddr := by
  rw [h.record]

theorem HeapGrown.pageDir {heap : Nat} {st st' : Kernel} (h : HeapGrown heap st st')
    : (st'.heaps heap).pageDir = (st.heaps heap).pageDir := by
  rw [h.record]

/-- Writing to memory is no growth. -/
theorem OnlyMem.grown {heap : Nat} {st st' : Kernel} (h : OnlyMem st st')
    (extent : HeapExtent heap st) (pages : HeapPages heap st)
    : HeapGrown heap st st' := by
  obtain ⟨m, rfl⟩ := h
  refine ⟨rfl, le_refl _, ⟨extent.startAligned, extent.endAligned, extent.least, extent.most,
    extent.mapped⟩, ⟨pages.fits, pages.distinct, pages.linked⟩, fun address _ => ?_⟩
  exact ⟨Or.inl, fun either => either.resolve_right (fun both => absurd both.2 (not_lt.mpr both.1))⟩

theorem HeapGrown.trans {heap : Nat} {st st' st'' : Kernel} (h : HeapGrown heap st st')
    (h' : HeapGrown heap st' st'')
    : HeapGrown heap st st'' := by
  refine ⟨h'.record.trans (by rw [h.record]), h.le.trans h'.le, h'.extent, h'.pages,
    fun address page => ?_⟩
  have later := h'.mapped address page
  rw [h.pageDir, h.mapped address page] at later
  rw [later, or_assoc]
  refine or_congr_right ?_
  have first := h.le
  have second := h'.le
  omega

@[simp] theorem Kernel.heaps_setHeap (st : Kernel) (heap : Nat) (value : Heap)
    : (st.setHeap heap value).heaps heap = value := by
  simp only [Kernel.setHeap, update_self]

/-- A heap whose end moves up behind the pages that were mapped for it has grown. -/
theorem PagesMapped.grown {heap newEnd : Nat} {st st' : Kernel}
    (h : PagesMapped heap (st.heaps heap).endAddr newEnd st st') (extent : HeapExtent heap st)
    (up : (st.heaps heap).endAddr ≤ newEnd) (aligned : newEnd % pageSize = 0)
    (most : newEnd ≤ (st.heaps heap).maxAddr)
    : HeapGrown heap st (st'.setHeap heap { st'.heaps heap with endAddr := newEnd }) where
  record := by rw [Kernel.heaps_setHeap, h.record]
  le := by rw [Kernel.heaps_setHeap]; exact up
  extent := by
    refine ⟨?_, ?_, ?_, ?_, fun address page above below => ?_⟩
    · rw [Kernel.heaps_setHeap, h.record]
      exact extent.startAligned
    · rw [Kernel.heaps_setHeap]
      exact aligned
    · rw [Kernel.heaps_setHeap, h.record]
      exact extent.least.trans up
    · rw [Kernel.heaps_setHeap, h.record]
      exact most
    · rw [Kernel.heaps_setHeap, h.record] at *
      refine (h.mapped address page).mpr ?_
      by_cases old : address < (st.heaps heap).endAddr
      · exact Or.inl (extent.mapped address page above old)
      · exact Or.inr ⟨not_lt.mp old, below⟩
  pages := by
    have pages := h.pages
    refine ⟨?_, ?_, ?_⟩
    · rw [Kernel.heaps_setHeap]
      exact pages.fits
    · rw [Kernel.heaps_setHeap]
      exact pages.distinct
    · rw [Kernel.heaps_setHeap]
      exact pages.linked
  mapped := by
    rw [Kernel.heaps_setHeap]
    exact h.mapped

/-- Rounding to pages, for a size that a page end can still follow. -/
theorem roundToPage_eq {newSize : Nat} (fits : newSize ≤ wordSize - pageSize)
    : roundToPage newSize = (newSize + 4095) / 4096 * 4096 := by
  have down : newSize &&& (wordSize - pageSize) = newSize / 4096 * 4096 := by
    refine and_clear_low12 ?_
    simp only [wordSize, pageSize] at fits ⊢
    omega
  rw [roundToPage, down]
  simp only [pageSize, wordSize] at fits ⊢
  split
  · rw [u32_of_lt (by simp only [wordSize]; omega)]
    omega
  · omega

/-- What `alloc` relies on where it grows a heap for a chunk of `nb` bytes: the rounded end is
an address, and the rounds of `expand` find what they rely on.
-/
structure GrowthFits (kmalloc : Kmalloc) (nb heap : Nat) (st : Kernel) : Prop where
  below : (st.heaps heap).endAddr + nb ≤ wordSize - pageSize
  ready : GrowthReady kmalloc heap
    (roundToPage (u32 (sub32 (st.heaps heap).endAddr (st.heaps heap).startAddr + nb)))
    pageLoopFuel (sub32 (st.heaps heap).endAddr (st.heaps heap).startAddr) st

/-- `expand`, as `alloc` calls it, grows the heap. -/
theorem expand_grown {kmalloc : Kmalloc} {nb heap : Nat} {st st' : Kernel}
    (extent : HeapExtent heap st) (pages : HeapPages heap st)
    (fits : GrowthFits kmalloc nb heap st)
    (run : expand kmalloc
      (u32 (sub32 (st.heaps heap).endAddr (st.heaps heap).startAddr + nb)) heap st = some st')
    : HeapGrown heap st st' := by
  have startAligned := extent.startAligned
  have endAligned := extent.endAligned
  have least := extent.least
  have most := extent.most
  have limit := pages.fits
  obtain ⟨below, ready⟩ := fits
  generalize first : (st.heaps heap).startAddr = start at *
  generalize last : (st.heaps heap).endAddr = stop at *
  have oldSize : sub32 stop start = stop - start :=
    sub32_of_le (by simp only [wordSize] at *; omega) (by simp only [heapMinSize] at least; omega)
  have asked : u32 (stop - start + nb) = stop - start + nb := by
    refine u32_of_lt ?_
    simp only [wordSize, pageSize, heapMinSize] at *
    omega
  have rounded : roundToPage (stop - start + nb) = (stop - start + nb + 4095) / 4096 * 4096 := by
    refine roundToPage_eq ?_
    simp only [wordSize, pageSize, heapMinSize] at *
    omega
  rw [oldSize, asked, rounded] at ready
  rw [oldSize, asked] at run
  generalize size : (stop - start + nb + 4095) / 4096 * 4096 = newSize at *
  have top : u32 (start + newSize) = start + newSize := by
    refine u32_of_lt ?_
    simp only [wordSize, pageSize, heapMinSize] at *
    omega
  simp only [expand, first, last, oldSize, rounded, top, Option.bind_eq_bind,
    Option.bind_eq_some_iff, Option.guard_eq_some', Option.some.injEq] at run
  obtain ⟨-, more, -, inside, grown, loop, rfl⟩ := run
  have up : start + (stop - start) = stop := by omega
  have loopMapped := expandPages_mapped pages first startAligned
    (by simp only [pageSize] at *; omega) (by simp only [pageSize]; omega) (by omega)
    inside ready loop
  rw [up] at loopMapped
  have end_ : u32 ((grown.heaps heap).startAddr + newSize) = start + newSize := by
    rw [loopMapped.record, first, top]
  rw [end_]
  rw [← last] at loopMapped
  refine loopMapped.grown extent ?_ ?_ inside
  · rw [last]
    omega
  · simp only [pageSize] at *
    omega

/-- Each growth of an `alloc` call is one that fits. The second attempt may grow again. -/
def AllocFits : Nat → Nat → Nat → Kernel → Prop
  | 0, _, _, _ => True
  | fuel + 1, size, heap, st =>
      findSmallestChunk (request2Size size) (headOf heap) st.mem = some 0 →
        GrowthFits (kmallocWith (alloc fuel)) (request2Size size) heap st
          ∧ ∀ grown topped, expand (kmallocWith (alloc fuel))
              (u32 (sub32 (st.heaps heap).endAddr (st.heaps heap).startAddr + request2Size size))
              heap st = some grown
            → growTop (st.heaps heap).endAddr heap grown = some topped
            → AllocFits fuel size heap topped

/-- `alloc` grows the heap or leaves its extent alone, by induction on its attempts. -/
theorem alloc_grown {fuel size heap : Nat} {st : Kernel} {r : Nat × Kernel}
    (extent : HeapExtent heap st) (pages : HeapPages heap st)
    (fits : AllocFits fuel size heap st) (run : alloc fuel size heap st = some r)
    : HeapGrown heap st r.2 := by
  induction fuel generalizing st with
  | zero => contradiction
  | succ fuel ih =>
      rw [alloc] at run
      obtain ⟨hole, found, run⟩ := Option.bind_eq_some_iff.mp run
      by_cases none : hole = 0
      · rw [if_pos none] at run
        obtain ⟨grown, expanded, run⟩ := Option.bind_eq_some_iff.mp run
        obtain ⟨topped, top, again⟩ := Option.bind_eq_some_iff.mp run
        obtain ⟨growth, later⟩ := fits (none ▸ found)
        have first := expand_grown extent pages growth expanded
        have second := (growTop_onlyMem top).grown first.extent first.pages
        have both := first.trans second
        exact both.trans (ih both.extent both.pages (later grown topped expanded top) again)
      · rw [if_neg none] at run
        exact (takeHole_onlyMem run).grown extent pages

-----------------------------------------------------------------------------------------
-- Shrinking
-----------------------------------------------------------------------------------------

/-- What shrinking does: the end moves down to no less than the minimum size, and exactly the
pages behind the new end are given back.
-/
structure HeapShrunk (heap : Nat) (st st' : Kernel) : Prop where
  record : st'.heaps heap = { st.heaps heap with endAddr := (st'.heaps heap).endAddr }
  le : (st'.heaps heap).endAddr ≤ (st.heaps heap).endAddr
  extent : HeapExtent heap st'
  pages : HeapPages heap st'
  mapped : ∀ address, IsPage address → (Mapped st' (st.heaps heap).pageDir address
    ↔ Mapped st (st.heaps heap).pageDir address
      ∧ ¬ ((st'.heaps heap).endAddr ≤ address ∧ address < (st.heaps heap).endAddr))

/-- The pages from `low` to `high` have been given back, and no others. -/
structure PagesFreed (heap low high : Nat) (st st' : Kernel) : Prop where
  record : st'.heaps heap = st.heaps heap
  pages : HeapPages heap st'
  mapped : ∀ address, IsPage address → (Mapped st' (st.heaps heap).pageDir address
    ↔ Mapped st (st.heaps heap).pageDir address ∧ ¬ (low ≤ address ∧ address < high))

/-- The pages are passed downwards. -/
theorem PagesFreed.trans {heap low middle high : Nat} {st st' st'' : Kernel}
    (h : PagesFreed heap middle high st st') (h' : PagesFreed heap low middle st' st'')
    (lower : low ≤ middle) (upper : middle ≤ high)
    : PagesFreed heap low high st st'' := by
  refine ⟨h'.record.trans h.record, h'.pages, fun address page => ?_⟩
  have later := h'.mapped address page
  rw [h.record, h.mapped address page] at later
  rw [later, and_assoc]
  refine and_congr_right (fun _ => ?_)
  omega

/-- A page of the heap that is freed is no longer present. -/
theorem freeFrame_freed {heap address : Nat} {ref : PageRef} {st : Kernel}
    (pages : HeapPages heap st) (page : IsPage address)
    (above : (st.heaps heap).startAddr ≤ address) (below : address < (st.heaps heap).maxAddr)
    (found : st.pageOf (st.heaps heap).pageDir address = some ref)
    : PagesFreed heap address (address + pageSize) st (freeFrame ref st) := by
  rw [freeFrame]
  dsimp only
  split
  · rename_i unframed
    refine ⟨rfl, pages, fun other page' => ?_⟩
    rw [page.only page', iff_self_and]
    rintro ⟨other', at_other, present⟩ rfl
    obtain rfl := Option.some.inj (at_other.symm.trans found)
    exact (pages.linked _ _ above below found).mp present unframed
  · refine ⟨rfl, ⟨pages.fits, pages.distinct, fun other other' above' below' at_other => ?_⟩,
      fun other page' => ?_⟩
    · by_cases same : other' = ref
      · rw [same, Kernel.page_setPage]
        exact ⟨fun present => Bool.noConfusion present, fun framed => absurd rfl framed⟩
      · rw [Kernel.page_setPage_other same]
        exact pages.linked other other' above' below' at_other
    · rw [page.only page']
      constructor
      · rintro ⟨other', at_other, present⟩
        by_cases same : other' = ref
        · rw [same, Kernel.page_setPage] at present
          exact Bool.noConfusion present
        · rw [Kernel.page_setPage_other same] at present
          refine ⟨⟨other', at_other, present⟩, ?_⟩
          rintro rfl
          exact same (Option.some.inj (at_other.symm.trans found))
      · rintro ⟨⟨other', at_other, present⟩, notHere⟩
        by_cases same : other' = ref
        · exact absurd (pages.pageOf_inj page page' found (same ▸ at_other)) notHere
        · exact ⟨other', at_other, by rw [Kernel.page_setPage_other same]; exact present⟩

/-- Without `make`, `getPage` only looks. -/
theorem getPage_lookup {kmalloc : Kmalloc} {address dir : Nat} {st st' : Kernel}
    {page : Option PageRef} (run : getPage kmalloc address false dir st = some (page, st'))
    : page = st.pageOf dir address ∧ st' = st := by
  rw [getPage] at run
  rw [Kernel.pageOf]
  split at run
  · rename_i table
    simp only [Option.some.injEq, Prod.mk.injEq] at run
    rw [if_pos table]
    exact ⟨run.1.symm, run.2.symm⟩
  · rename_i none
    simp only [Bool.false_eq_true, if_false, Option.some.injEq, Prod.mk.injEq] at run
    rw [if_neg none]
    exact ⟨run.1.symm, run.2.symm⟩

/-- The loop of `contract` gives back the pages it passes, by induction on its rounds. -/
theorem contractPages_freed {heap start newSize fuel i : Nat} {st st' : Kernel}
    (pages : HeapPages heap st) (startAddr : (st.heaps heap).startAddr = start)
    (startAligned : start % pageSize = 0) (aligned : i % pageSize = 0)
    (sizeAligned : newSize % pageSize = 0) (positive : 0 < newSize) (le : newSize ≤ i + pageSize)
    (below : start + (i + pageSize) ≤ (st.heaps heap).maxAddr)
    (run : contractPages heap newSize fuel i st = some st')
    : PagesFreed heap (start + newSize) (start + (i + pageSize)) st st' := by
  have fits := pages.fits
  simp only [pageSize, wordSize] at fits startAligned aligned sizeAligned le below
  induction fuel generalizing i st with
  | zero => contradiction
  | succ fuel ih =>
      rw [contractPages] at run
      split at run
      · rename_i more
        have place : u32 ((st.heaps heap).startAddr + i) = start + i := by
          rw [startAddr]
          exact u32_of_lt (by simp only [wordSize]; omega)
        have enough : 4096 ≤ i :=
          (Nat.le_of_dvd positive (Nat.dvd_of_mod_eq_zero sizeAligned)).trans more
        obtain ⟨down, rfl⟩ := Nat.exists_eq_add_of_le' enough
        rw [Nat.add_mod_right] at aligned
        have next : sub32 (down + 4096) 4096 = down := by
          rw [sub32_of_le (by simp only [wordSize]; omega) enough, Nat.add_sub_cancel]
        obtain ⟨⟨entry, seen⟩, looked, behind⟩ := Option.bind_eq_some_iff.mp run
        obtain ⟨ref, rfl, rest⟩ := Option.bind_eq_some_iff.mp behind
        rw [place] at looked
        obtain ⟨found, same⟩ := getPage_lookup looked
        rw [same, pageSize, next] at rest
        have page : IsPage (start + (down + 4096)) :=
          ⟨by simp only [pageSize]; omega, by simp only [wordSize]; omega⟩
        have lower : start + (down + 4096) ≤ (st.heaps heap).maxAddr :=
          (Nat.add_le_add_left (Nat.le_add_right _ 4096) start).trans below
        have inside : start + (down + 4096) < (st.heaps heap).maxAddr := by omega
        have one := freeFrame_freed pages page (by omega) inside found.symm
        have record := one.record
        rw [Nat.add_assoc] at one
        have others := ih one.pages (by rw [record]; exact startAddr) aligned more
          (by rw [record]; exact lower) rest (by rw [record]; exact fits)
        exact one.trans others (Nat.add_le_add_left more start)
          (Nat.add_le_add_left (Nat.le_add_right _ pageSize) start)
      · obtain rfl := Option.some.inj run
        refine ⟨rfl, pages, fun address _ => (and_iff_left ?_).symm⟩
        simp only [pageSize]
        omega

/-- A heap whose end moves down over the pages that were given back has shrunk. -/
theorem PagesFreed.shrunk {heap newEnd : Nat} {st st' : Kernel}
    (h : PagesFreed heap newEnd (st.heaps heap).endAddr st st') (extent : HeapExtent heap st)
    (down : newEnd ≤ (st.heaps heap).endAddr) (aligned : newEnd % pageSize = 0)
    (least : (st.heaps heap).startAddr + heapMinSize ≤ newEnd)
    : HeapShrunk heap st (st'.setHeap heap { st'.heaps heap with endAddr := newEnd }) where
  record := by rw [Kernel.heaps_setHeap, h.record]
  le := by rw [Kernel.heaps_setHeap]; exact down
  extent := by
    refine ⟨?_, ?_, ?_, ?_, fun address page above below => ?_⟩
    · rw [Kernel.heaps_setHeap, h.record]
      exact extent.startAligned
    · rw [Kernel.heaps_setHeap]
      exact aligned
    · rw [Kernel.heaps_setHeap, h.record]
      exact least
    · rw [Kernel.heaps_setHeap, h.record]
      exact down.trans extent.most
    · rw [Kernel.heaps_setHeap, h.record] at *
      have old := extent.mapped address page above (lt_of_lt_of_le below down)
      exact (h.mapped address page).mpr ⟨old, fun between => absurd between.1 (not_le.mpr below)⟩
  pages := by
    have pages := h.pages
    refine ⟨?_, ?_, ?_⟩
    · rw [Kernel.heaps_setHeap]
      exact pages.fits
    · rw [Kernel.heaps_setHeap]
      exact pages.distinct
    · rw [Kernel.heaps_setHeap]
      exact pages.linked
  mapped := by
    rw [Kernel.heaps_setHeap]
    exact h.mapped

/-- Writing to memory is no shrinking. -/
theorem OnlyMem.shrunk {heap : Nat} {st st' : Kernel} (h : OnlyMem st st')
    (extent : HeapExtent heap st) (pages : HeapPages heap st)
    : HeapShrunk heap st st' := by
  have grown := h.grown extent pages
  obtain ⟨m, rfl⟩ := h
  refine ⟨rfl, le_refl _, grown.extent, grown.pages, fun address _ => (and_iff_left ?_).symm⟩
  exact fun between => absurd between.2 (not_lt.mpr between.1)

theorem HeapShrunk.pageDir {heap : Nat} {st st' : Kernel} (h : HeapShrunk heap st st')
    : (st'.heaps heap).pageDir = (st.heaps heap).pageDir := by
  rw [h.record]

theorem HeapShrunk.trans {heap : Nat} {st st' st'' : Kernel} (h : HeapShrunk heap st st')
    (h' : HeapShrunk heap st' st'')
    : HeapShrunk heap st st'' := by
  refine ⟨h'.record.trans (by rw [h.record]), h'.le.trans h.le, h'.extent, h'.pages,
    fun address page => ?_⟩
  have later := h'.mapped address page
  rw [h.pageDir, h.mapped address page] at later
  rw [later, and_assoc]
  refine and_congr_right (fun _ => ?_)
  have first := h.le
  have second := h'.le
  omega

/-- `contract` shrinks the heap, whatever size it is asked for. -/
theorem contract_shrunk {newSize heap kept : Nat} {st st' : Kernel}
    (extent : HeapExtent heap st) (pages : HeapPages heap st)
    (run : contract newSize heap st = some (kept, st'))
    : HeapShrunk heap st st' := by
  have startAligned := extent.startAligned
  have endAligned := extent.endAligned
  have least := extent.least
  have most := extent.most
  have limit := pages.fits
  generalize first : (st.heaps heap).startAddr = start at *
  generalize last : (st.heaps heap).endAddr = stop at *
  simp only [pageSize, wordSize, heapMinSize] at startAligned endAligned least limit
  have oldSize : sub32 stop start = stop - start :=
    sub32_of_le (by simp only [wordSize]; omega) (by omega)
  simp only [contract, first, last, oldSize, Option.bind_eq_bind, Option.bind_eq_some_iff,
    Option.guard_eq_some', Option.some.injEq, Prod.mk.injEq] at run
  obtain ⟨-, less, freed, loop, rfl, rfl⟩ := run
  have rounded : roundToPage newSize = (newSize + 4095) / 4096 * 4096 := by
    refine roundToPage_eq ?_
    simp only [wordSize, pageSize]
    omega
  rw [rounded] at loop
  rw [rounded]
  generalize size : (if (newSize + 4095) / 4096 * 4096 < heapMinSize then heapMinSize
    else (newSize + 4095) / 4096 * 4096) = kept at *
  have bounds : kept % 4096 = 0 ∧ heapMinSize ≤ kept ∧ kept ≤ stop - start := by
    rw [← size]
    simp only [heapMinSize]
    split <;> omega
  obtain ⟨aligned, enough, fewer⟩ := bounds
  have onePage : 4096 ≤ stop - start := by omega
  obtain ⟨down, downEq⟩ := Nat.exists_eq_add_of_le' onePage
  have downAligned : down % 4096 = 0 := by
    have whole : (stop - start) % 4096 = 0 := by omega
    rwa [downEq, Nat.add_mod_right] at whole
  have top : start + (down + pageSize) = stop := by
    rw [pageSize, ← downEq]
    omega
  have next : sub32 (stop - start) pageSize = down := by
    rw [sub32_of_le (by simp only [wordSize]; omega) onePage, downEq, Nat.add_sub_cancel]
  rw [next] at loop
  have loopFreed := contractPages_freed pages first startAligned downAligned aligned
    (lt_of_lt_of_le (by decide) enough) (downEq ▸ fewer) (by rw [top]; exact most) loop
  rw [top, ← last] at loopFreed
  have end_ : u32 ((freed.heaps heap).startAddr + kept) = start + kept := by
    rw [loopFreed.record, first]
    exact u32_of_lt (by simp only [wordSize]; omega)
  rw [end_]
  refine loopFreed.shrunk extent ?_ ?_ ?_
  · rw [last]
    omega
  · simp only [pageSize]
    omega
  · rw [first]
    exact Nat.add_le_add_left enough start

/-- So does `free`, whatever it is given. -/
theorem free_shrunk {ptr heap : Nat} {st st' : Kernel} (extent : HeapExtent heap st)
    (pages : HeapPages heap st) (run : free ptr heap st = some st')
    : HeapShrunk heap st st' := by
  rcases free_cases run with only | ⟨before, newSize, kept, after, first, shrunk, last⟩
  · exact only.shrunk extent pages
  · have one := first.shrunk extent pages
    have two := contract_shrunk one.extent one.pages shrunk
    exact (one.trans two).trans (last.shrunk two.extent two.pages)

-----------------------------------------------------------------------------------------
-- Runs
-----------------------------------------------------------------------------------------

/-- A call on a heap, or a write to memory between two calls. -/
inductive ExtentStep (heap : Nat) : Kernel → Kernel → Prop where
  | alloc {fuel size : Nat} {st : Kernel} {r : Nat × Kernel} (fits : AllocFits fuel size heap st)
      (run : alloc fuel size heap st = some r)
      : ExtentStep heap st r.2
  | free {ptr : Nat} {st st' : Kernel} (run : free ptr heap st = some st')
      : ExtentStep heap st st'
  | write (st : Kernel) (mem : Mem) : ExtentStep heap st { st with mem }

/-- What a call does to the pages of the heap's directory: those that it maps lie between the
old end and the new one, and those that it gives back are exactly the ones from the new end to
the old.
-/
structure PagesFollow (heap : Nat) (st st' : Kernel) : Prop where
  record : st'.heaps heap = { st.heaps heap with endAddr := (st'.heaps heap).endAddr }
  mapped : ∀ address, IsPage address → Mapped st' (st.heaps heap).pageDir address
    → ¬ Mapped st (st.heaps heap).pageDir address
    → (st.heaps heap).endAddr ≤ address ∧ address < (st'.heaps heap).endAddr
  givenBack : ∀ address, IsPage address
    → (Mapped st (st.heaps heap).pageDir address ∧ ¬ Mapped st' (st.heaps heap).pageDir address
      ↔ (st'.heaps heap).endAddr ≤ address ∧ address < (st.heaps heap).endAddr)

theorem HeapGrown.follow {heap : Nat} {st st' : Kernel} (h : HeapGrown heap st st')
    : PagesFollow heap st st' := by
  refine ⟨h.record, fun address page now before => ?_, fun address page => ⟨?_, ?_⟩⟩
  · exact ((h.mapped address page).mp now).resolve_left before
  · rintro ⟨before, gone⟩
    exact absurd ((h.mapped address page).mpr (Or.inl before)) gone
  · rintro ⟨above, below⟩
    exact absurd (h.le.trans above) (not_le.mpr below)

theorem HeapShrunk.follow {heap : Nat} {st st' : Kernel} (extent : HeapExtent heap st)
    (h : HeapShrunk heap st st')
    : PagesFollow heap st st' := by
  refine ⟨h.record, fun address page now before => ?_, fun address page => ⟨?_, ?_⟩⟩
  · exact absurd ((h.mapped address page).mp now).1 before
  · rintro ⟨before, gone⟩
    by_contra outside
    exact gone ((h.mapped address page).mpr ⟨before, outside⟩)
  · rintro ⟨above, below⟩
    have start : (st'.heaps heap).startAddr = (st.heaps heap).startAddr := by rw [h.record]
    have least := h.extent.least
    rw [start] at least
    have low : (st.heaps heap).startAddr ≤ address := by omega
    exact ⟨extent.mapped address page low below,
      fun now => ((h.mapped address page).mp now).2 ⟨above, below⟩⟩

/-- A call keeps the extent in order and the pages follow it. -/
theorem ExtentStep.keeps {heap : Nat} {st st' : Kernel} (step : ExtentStep heap st st')
    (extent : HeapExtent heap st) (pages : HeapPages heap st)
    : HeapExtent heap st' ∧ HeapPages heap st' ∧ PagesFollow heap st st' := by
  cases step with
  | alloc fits run =>
      have grown := alloc_grown extent pages fits run
      exact ⟨grown.extent, grown.pages, grown.follow⟩
  | free run =>
      have shrunk := free_shrunk extent pages run
      exact ⟨shrunk.extent, shrunk.pages, shrunk.follow extent⟩
  | write st mem =>
      have grown := (OnlyMem.write st mem).grown extent pages
      exact ⟨grown.extent, grown.pages, grown.follow⟩

/-- `createHeap` fills in the record and maps nothing. -/
theorem createHeap_record {heap dir start stop max supervisor readonly : Nat} {st made : Kernel}
    (created : createHeap heap dir start stop max supervisor readonly st = some made)
    : start % pageSize = 0 ∧ stop % pageSize = 0 ∧ made.heaps heap
        = { startAddr := start, endAddr := stop, maxAddr := max, supervisor, readonly
            pageDir := dir }
      ∧ made.tables = st.tables ∧ made.dirs = st.dirs := by
  simp only [createHeap, Option.bind_eq_bind, Option.bind_eq_some_iff, Option.guard_eq_some',
    Option.some.injEq] at created
  obtain ⟨-, startAligned, -, stopAligned, m, -, rfl⟩ := created
  exact ⟨startAligned, stopAligned, Kernel.heaps_setHeap st heap _, rfl, rfl⟩

/-- A heap of at least the minimum size that is made within its limit over mapped pages keeps
its extent in order as long as every growth fits, and each further call moves exactly the pages
between the old end and the new.
-/
theorem heapExtent_run {heap dir start stop max supervisor readonly : Nat} {st made st' : Kernel}
    (created : createHeap heap dir start stop max supervisor readonly st = some made)
    (least : start + heapMinSize ≤ stop) (most : stop ≤ max) (pages : HeapPages heap made)
    (mapped : ∀ address, IsPage address → start ≤ address → address < stop
      → Mapped made dir address)
    (run : Relation.ReflTransGen (ExtentStep heap) made st')
    : HeapExtent heap st'
      ∧ st'.heaps heap = { made.heaps heap with endAddr := (st'.heaps heap).endAddr }
      ∧ ∀ st'', ExtentStep heap st' st'' → PagesFollow heap st' st''
        ∧ ∀ address, IsPage address → max ≤ address → Mapped st'' dir address
          → Mapped st' dir address := by
  obtain ⟨startAligned, stopAligned, record, -, -⟩ := createHeap_record created
  have extent : HeapExtent heap made := by
    constructor
    all_goals rw [record]
    · exact startAligned
    · exact stopAligned
    · exact least
    · exact most
    · exact mapped
  have kept : HeapExtent heap st' ∧ HeapPages heap st'
      ∧ st'.heaps heap = { made.heaps heap with endAddr := (st'.heaps heap).endAddr } := by
    induction run with
    | refl => exact ⟨extent, pages, rfl⟩
    | tail _ step ih =>
        obtain ⟨before, beforePages, same⟩ := ih
        obtain ⟨after, afterPages, follow⟩ := step.keeps before beforePages
        exact ⟨after, afterPages, follow.record.trans (by rw [same])⟩
  obtain ⟨now, nowPages, same⟩ := kept
  refine ⟨now, same, fun st'' step => ?_⟩
  obtain ⟨after, -, follow⟩ := step.keeps now nowPages
  refine ⟨follow, fun address page above there => ?_⟩
  have dir_eq : (st'.heaps heap).pageDir = dir := by rw [same, record]
  have max_eq : (st''.heaps heap).maxAddr = max := by rw [follow.record, same, record]
  by_contra before
  rw [← dir_eq] at there before
  have below := (follow.mapped address page there before).2
  have bound := after.most
  omega

theorem getPage_of_pageOf {st : Kernel} {dir address : Nat} {ref : PageRef}
    (found : st.pageOf dir address = some ref) (kmalloc : Kmalloc) (make : Bool)
    : getPage kmalloc address make dir st = some (some ref, st) := by
  obtain ⟨table, rfl⟩ := Kernel.pageOf_eq.mp found
  rw [getPage, if_pos table]

/-- Over pages that have frames already, `expand` relies on nothing and changes nothing. -/
theorem GrowthReady.of_framed {kmalloc : Kmalloc} {heap stop : Nat} {st : Kernel}
    (framed : ∀ address, ∃ ref, st.pageOf (st.heaps heap).pageDir address = some ref
      ∧ (st.page ref).frame ≠ 0) (fuel i : Nat)
    : GrowthReady kmalloc heap stop fuel i st := by
  induction fuel generalizing i with
  | zero => trivial
  | succ fuel ih =>
      intro _
      obtain ⟨ref, found, frame⟩ := framed (u32 ((st.heaps heap).startAddr + i))
      have got := getPage_of_pageOf found kmalloc true
      refine ⟨⟨fun none => absurd none (Kernel.pageOf_eq.mp found).1, fun ref' made got' unframed => ?_⟩,
        fun st' body => ?_⟩
      · have same := Option.some.inj (got.symm.trans got')
        simp only [Prod.mk.injEq, Option.some.injEq] at same
        obtain ⟨rfl, rfl⟩ := same
        exact absurd unframed frame
      · have same : st' = st := by
          simp only [expandPage, got, Option.bind_eq_bind, Option.bind_some, allocFrame, frame,
            ne_eq, not_false_eq_true, if_true, showFrame, Option.some.injEq] at body
          exact body.symm
        rw [same]
        exact ih _

/-- Each slot of the directory has a table of its own, and every page has a frame. -/
def fullyMapped : Kernel where
  mem := fun _ => 0
  ram := fun _ _ => 0
  heaps := fun _ => ⟨0, 0, 0, 0, 0, 0⟩
  kernelHeap := 0
  placementAddress := 0
  frames := fun _ => 0xFFFFFFFF#32
  fallOff := 0
  tables := fun _ _ => ⟨true, true, true, false, false, false, 1⟩
  dirs := fun _ => ⟨fun slot => slot + 1, fun _ => 0, 0⟩
  kernelDir := 0
  currentDir := 0

theorem fullyMapped_page {made : Kernel} (tables : made.tables = fullyMapped.tables)
    (dirs : made.dirs = fullyMapped.dirs) (dir address : Nat)
    : ∃ ref, made.pageOf dir address = some ref ∧ (made.page ref).present = true
        ∧ (made.page ref).frame ≠ 0 := by
  refine ⟨(pageIndex address + 1, pageOffset address), ?_, ?_, ?_⟩
  · rw [Kernel.pageOf, dirs]
    exact if_pos (Nat.succ_ne_zero _)
  · rw [Kernel.page, tables]
    rfl
  · rw [Kernel.page, tables]
    exact one_ne_zero

theorem fullyMapped_heapPages {made : Kernel} {heap : Nat}
    (tables : made.tables = fullyMapped.tables) (dirs : made.dirs = fullyMapped.dirs)
    (fits : (made.heaps heap).maxAddr < wordSize)
    : HeapPages heap made := by
  refine ⟨fits, fun i _ j _ _ same => ?_, fun address ref _ _ found => ?_⟩
  · rw [dirs] at same
    exact Nat.succ.inj same
  · obtain ⟨ref', found', present, frame⟩ :=
      fullyMapped_page tables dirs (made.heaps heap).pageDir address
    obtain rfl := Option.some.inj (found.symm.trans found')
    exact ⟨fun _ => frame, fun _ => present⟩

/-- A heap of one megabyte on it. -/
def oneMegabyte : Option Kernel :=
  createHeap 4096 0 0x90000000 0x90100000 0xCFFFF000 1 0 fullyMapped

/-- The same in the last two megabytes of the address space. -/
def atTheTop : Option Kernel :=
  createHeap 4096 0 0xFFE00000 0xFFF00000 0xFFFFF000 1 0 fullyMapped

/-- A megabyte more is asked of the first one. It grows once, and the second attempt finds the
new chunk.
-/
theorem oneMegabyte_grows
    : ∃ made r, oneMegabyte = some made ∧ alloc 2 0x100000 4096 made = some r
        ∧ (r.2.heaps 4096).endAddr = 0x90201000
        ∧ ∀ grown topped, expand (kmallocWith (alloc 1)) 0x200008 4096 made = some grown
          → growTop 0x90100000 4096 grown = some topped
          → findSmallestChunk 0x100008 (headOf 4096) topped.mem = some 0x90000000 := by
  have run : (oneMegabyte.bind (fun made => (alloc 2 0x100000 4096 made).map (fun r =>
      (r.2.heaps 4096).endAddr))) = some 0x90201000 := by
    decide +kernel
  have second : (oneMegabyte.bind (fun made =>
      ((expand (kmallocWith (alloc 1)) 0x200008 4096 made).bind (growTop 0x90100000 4096)).map
        (fun topped => findSmallestChunk 0x100008 (headOf 4096) topped.mem)))
      = some (some 0x90000000) := by
    decide +kernel
  obtain ⟨made, created, rest⟩ := Option.bind_eq_some_iff.mp run
  obtain ⟨r, allocated, end_⟩ := Option.map_eq_some_iff.mp rest
  refine ⟨made, r, created, allocated, end_, fun grown topped expanded top => ?_⟩
  rw [created, Option.bind_some, expanded, Option.bind_some, top] at second
  exact Option.some.inj second

theorem oneMegabyte_extent
    : ∃ made r, oneMegabyte = some made ∧ alloc 2 0x100000 4096 made = some r
        ∧ (r.2.heaps 4096).endAddr = 0x90201000 ∧ HeapExtent 4096 r.2 := by
  obtain ⟨made, r, created, allocated, end_, second⟩ := oneMegabyte_grows
  obtain ⟨-, -, record, tables, dirs⟩ := createHeap_record created
  have pages : HeapPages 4096 made := fullyMapped_heapPages tables dirs (by rw [record]; decide)
  have mapped (address : Nat) : Mapped made 0 address := by
    obtain ⟨ref, found, present, -⟩ := fullyMapped_page tables dirs 0 address
    exact ⟨ref, found, present⟩
  have fits : AllocFits 2 0x100000 4096 made := by
    have nb : request2Size 0x100000 = 0x100008 := by decide
    have asked : u32 (sub32 0x90100000 0x90000000 + 0x100008) = 0x200008 := by decide
    have framed (address : Nat)
        : ∃ ref, made.pageOf (made.heaps 4096).pageDir address = some ref
          ∧ (made.page ref).frame ≠ 0 := by
      obtain ⟨ref, found, -, frame⟩ := fullyMapped_page tables dirs (made.heaps 4096).pageDir address
      exact ⟨ref, found, frame⟩
    intro _
    refine ⟨⟨?_, .of_framed framed _ _⟩, fun grown topped expanded top found => ?_⟩
    · rw [record, nb]
      decide
    · rw [record, nb] at *
      rw [asked] at expanded
      rw [second grown topped expanded top] at found
      contradiction
  have step : ExtentStep 4096 made r.2 := .alloc fits allocated
  exact ⟨made, r, created, allocated, end_,
    (heapExtent_run created (by decide) (by decide) pages (fun address _ _ _ => mapped address)
      (.single step)).1⟩

/-- At the top of the address space the new end wraps around. -/
theorem atTheTop_wraps
    : ∃ made r, atTheTop = some made ∧ alloc 2 0x100000 4096 made = some r
        ∧ (r.2.heaps 4096).startAddr = 0xFFE00000 ∧ (r.2.heaps 4096).endAddr = 0x1000 := by
  have run : (atTheTop.bind (fun made => (alloc 2 0x100000 4096 made).map (fun r =>
      ((r.2.heaps 4096).startAddr, (r.2.heaps 4096).endAddr)))) = some (0xFFE00000, 0x1000) := by
    decide +kernel
  obtain ⟨made, created, rest⟩ := Option.bind_eq_some_iff.mp run
  obtain ⟨r, allocated, both⟩ := Option.map_eq_some_iff.mp rest
  exact ⟨made, r, created, allocated, congrArg Prod.fst both, congrArg Prod.snd both⟩

theorem heapExtent_not_kept
    : ¬ ∀ (heap dir start stop max supervisor readonly fuel size : Nat) (st made : Kernel)
        (r : Nat × Kernel),
        createHeap heap dir start stop max supervisor readonly st = some made
        → start + heapMinSize ≤ stop → stop ≤ max → HeapPages heap made
        → (∀ address, IsPage address → start ≤ address → address < stop
          → Mapped made dir address)
        → alloc fuel size heap made = some r → HeapExtent heap r.2 := by
  intro kept
  obtain ⟨made, r, created, allocated, start, end_⟩ := atTheTop_wraps
  obtain ⟨-, -, record, tables, dirs⟩ := createHeap_record created
  have pages : HeapPages 4096 made := fullyMapped_heapPages tables dirs (by rw [record]; decide)
  have mapped (address : Nat) : Mapped made 0 address := by
    obtain ⟨ref, found, present, -⟩ := fullyMapped_page tables dirs 0 address
    exact ⟨ref, found, present⟩
  have least := (kept _ _ _ _ _ _ _ _ _ _ _ _ created (by decide) (by decide) pages
    (fun address _ _ _ => mapped address) allocated).least
  rw [start, end_] at least
  exact absurd least (by decide)

end DeadKernel
