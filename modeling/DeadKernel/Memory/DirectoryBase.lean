import DeadKernel.Memory.TableSharing

/-! The physical address of a page directory. `cloneDir` takes the physical address of the block,
which is that of its first page, and adds the offset of `tablesPhysical`, which lies in the second
page.
-/

namespace DeadKernel

open Words

-----------------------------------------------------------------------------------------
-- Physical addresses
-----------------------------------------------------------------------------------------

/-- The physical address that the kernel directory gives for a virtual one. -/
def Kernel.physicalOf (st : Kernel) (address : Nat) : Nat :=
  u32 ((st.entry st.kernelDir (address / pageSize)).frame * pageSize + address % pageSize)

/-- The kernel directory keeps the pages that it maps. -/
structure MappedKept (st st' : Kernel) : Prop where
  kernelDir : st'.kernelDir = st.kernelDir
  entries : ∀ page < addressPages, (st.entry st.kernelDir page).frame ≠ 0 →
    st'.entry st'.kernelDir page = st.entry st.kernelDir page

theorem MappedKept.trans {st st' st'' : Kernel} (h : MappedKept st st') (h' : MappedKept st' st'')
    : MappedKept st st'' where
  kernelDir := h'.kernelDir.trans h.kernelDir
  entries page small mapped := by
    have same := h.entries page small mapped
    rw [h'.entries page small (by rw [same]; exact mapped), same]

/-- Only the tables of the kernel directory count. -/
theorem MappedKept.of_tables {st st' : Kernel} (kernelDir : st'.kernelDir = st.kernelDir)
    (dirs : st'.dirs st.kernelDir = st.dirs st.kernelDir)
    (tables : ∀ slot < tablesInDir, st'.tables (st.kernelTables slot)
      = st.tables (st.kernelTables slot))
    : MappedKept st st' where
  kernelDir := kernelDir
  entries page small _ := by
    simp only [Kernel.entry, Kernel.entryRef, kernelDir, dirs]
    split
    · rfl
    · exact congrFun (tables _ (page_slot small)) _

section

variable {kmalloc : Kmalloc} {kfree : Kfree} {pool : BlockPool kmalloc kfree}
variable {live : Nat → Prop} {held : Blocks} {st st' : Kernel}

/-- What a kernel heap promises about its pages: its blocks lie in mapped pages, which stay where
they are while it serves requests, and physical addresses are read off the page tables.
-/
structure PagedPool (pool : BlockPool kmalloc kfree) : Prop where
  fits : ∀ {held st size align phys block physAddr st'}, pool.Holds held st →
    kmalloc size align phys st = some (block, physAddr, st') → block + size ≤ wordSize
  aligned : ∀ {held st size phys block physAddr st'}, pool.Holds held st →
    kmalloc size 1 phys st = some (block, physAddr, st') → block % pageSize = 0
  physical : ∀ {held st size align block physAddr st'}, pool.Holds held st →
    kmalloc size align true st = some (block, physAddr, st') → physAddr = st'.physicalOf block
  mapped : ∀ {held st size align phys block physAddr st'}, pool.Holds held st →
    kmalloc size align phys st = some (block, physAddr, st') → ∀ i < size,
    (st'.entry st'.kernelDir ((block + i) / pageSize)).frame ≠ 0
  stays : ∀ {held st size align phys block physAddr st' ref}, pool.Holds held st →
    kmalloc size align phys st = some (block, physAddr, st') → OwnEntry pool.own st ref →
    (st.page ref).frame ≠ 0 → st'.page ref = st.page ref

/-- `palignedAlloc` asserts that its block starts a page. -/
theorem kmallocWith_aligned {alloc : Alloc} {size block physAddr : Nat} {phys : Bool}
    (heap : st.kernelHeap ≠ 0)
    (run : kmallocWith alloc size 1 phys st = some (block, physAddr, st'))
    : block % pageSize = 0 := by
  rw [kmallocWith, if_pos heap] at run
  have took := (heapMalloc_stages heap run).1
  rw [if_pos Nat.one_ne_zero] at took
  simp only [palignedAllocWith, Option.bind_eq_bind, Option.bind_eq_some_iff] at took
  obtain ⟨⟨mem, taken⟩, -, rest⟩ := took
  dsimp only at rest
  split at rest
  · rename_i none
    obtain ⟨rfl, -⟩ := Prod.mk.inj (Option.some.inj rest)
    rw [none]
    exact Nat.zero_mod _
  · simp only [Option.bind_eq_some_iff, Option.guard_eq_some'] at rest
    obtain ⟨⟨chunk, carved⟩, -, trimmed, -, -, -, -, aligned, -, -, same⟩ := rest
    obtain ⟨rfl, -⟩ := Prod.mk.inj (Option.some.inj same)
    exact aligned

/-- `heap_malloc` looks the physical address up in the directory of the heap. -/
theorem kmallocWith_physical {alloc : Alloc} {size align block physAddr : Nat}
    (heap : st.kernelHeap ≠ 0) (directory : (st'.heaps st.kernelHeap).pageDir = st'.kernelDir)
    (run : kmallocWith alloc size align true st = some (block, physAddr, st'))
    : physAddr = st'.physicalOf block := by
  rw [kmallocWith, if_pos heap] at run
  obtain ⟨ref, there, physical⟩ := (heapMalloc_stages heap run).2 rfl
  rw [directory, Kernel.pageOf] at there
  split at there
  · rename_i table
    obtain rfl := Option.some.inj there
    have populated : (st'.dirs st'.kernelDir).tables (block / pageSize / 1024) ≠ 0 := table
    rw [physical, Kernel.physicalOf, Kernel.entry, if_neg populated]
    rfl
  · contradiction

theorem PagedPool.mappedKept (pages : PagedPool pool) (h : Spaces pool live held st)
    {size align block physAddr : Nat} {phys : Bool}
    (served : kmalloc size align phys st = some (block, physAddr, st'))
    : MappedKept st st' := by
  obtain ⟨held', -, out⟩ := h.request served
  refine ⟨out.kernelDir, fun page small mapped => ?_⟩
  have table : (st.dirs st.kernelDir).tables (page / 1024) ≠ 0 := by
    intro none
    rw [Kernel.entry, if_pos none] at mapped
    exact mapped rfl
  have slot : (st'.dirs st'.kernelDir).tables (page / 1024)
      = (st.dirs st.kernelDir).tables (page / 1024) := out.slots _ table
  rw [Kernel.entry, if_neg table] at mapped
  rw [Kernel.entry, Kernel.entry, Kernel.entryRef, slot, if_neg table, if_neg table]
  by_cases isOwn : OwnEntry pool.own st (st.entryRef st.kernelDir page)
  · exact pages.stays h.holds served isOwn mapped
  · exact out.pages _ (h.owned.tables _ h.owned.kernelDir _ (page_slot small) table).1 isOwn

/-- A slot is copied with the kernel directory's pages as they are. -/
theorem PagedPool.cloneSlot (pages : PagedPool pool) (h : Spaces pool live held st)
    {src dir i : Nat} (alive : live dir) (other : dir ≠ st.kernelDir)
    (run : cloneSlot kmalloc src dir i st = some st')
    : MappedKept st st' ∧ (st'.dirs dir).physicalAddr = (st.dirs dir).physicalAddr := by
  rw [DeadKernel.cloneSlot] at run
  split at run
  · obtain rfl := Option.some.inj run
    exact ⟨.of_tables rfl rfl (fun _ _ => rfl), rfl⟩
  split at run
  · obtain rfl := Option.some.inj run
    exact ⟨.of_tables rfl (update_other other.symm) (fun _ _ => rfl), by simp [Kernel.setSlot]⟩
  · obtain ⟨⟨table, phys, cloned⟩, copy, same⟩ := Option.bind_eq_some_iff.mp run
    obtain rfl := Option.some.inj same
    obtain ⟨served, request, dirs, kernelDir, tables⟩ := cloneTable_effect copy
    obtain ⟨held', spaces, out⟩ := h.request request
    have filled : MappedKept served cloned := .of_tables kernelDir (by rw [dirs])
      (fun slot below => tables _ (h.owned.unused out
        (out.kernelDir.symm ▸ h.owned.kernelDir) below))
    have other' : dir ≠ cloned.kernelDir := by
      rw [kernelDir, out.kernelDir]
      exact other
    refine ⟨((pages.mappedKept h request).trans filled).trans
      (.of_tables rfl (update_other other'.symm) (fun _ _ => rfl)), ?_⟩
    have here : cloned.dirs dir = st.dirs dir := by
      rw [dirs]
      exact out.dirs dir (h.owned.dirs dir alive) other
    simp [Kernel.setSlot, here]

end

-----------------------------------------------------------------------------------------
-- Kernel heaps in consecutive and in scattered frames
-----------------------------------------------------------------------------------------

end DeadKernel
