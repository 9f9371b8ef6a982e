import DeadKernel.Memory.DirectoryRelease
import DeadKernel.Memory.HeapExtent

/-! Clones and releases of directories over whole runs, in which tables and pages are added to the
directories in use and the kernel heap serves other requests.
-/

namespace DeadKernel

open Words

-----------------------------------------------------------------------------------------
-- Blocks before there is a kernel heap
-----------------------------------------------------------------------------------------

/-- The pages that the kernel heap may give back: those above its least size. -/
def spareHeapPages (st : Kernel) (page : Nat) : Prop :=
  ∃ i, heapMinSize ≤ i
    ∧ i < sub32 (st.heaps st.kernelHeap).endAddr (st.heaps st.kernelHeap).startAddr
    ∧ page = addr2Frame (u32 ((st.heaps st.kernelHeap).startAddr + i))

theorem TakenBack.refl (own : Nat → Prop) (st : Kernel) : TakenBack own st st :=
  ⟨rfl, rfl, rfl, rfl, fun _ _ => rfl, fun _ _ => Or.inl rfl, fun _ changed => absurd rfl changed⟩

theorem OnlyMem.takenBack {own : Nat → Prop} {st st' : Kernel} (h : OnlyMem st st')
    : TakenBack own st st' := by
  obtain ⟨m, rfl⟩ := h
  exact ⟨rfl, rfl, rfl, rfl, fun _ _ => rfl, fun _ _ => Or.inl rfl,
    fun _ changed => absurd rfl changed⟩

theorem TakenBack.trans {own : Nat → Prop} {st st' st'' : Kernel} (h : TakenBack own st st')
    (h' : TakenBack own st' st'')
    : TakenBack own st st'' := by
  have same {ref : PageRef} : OwnEntry own st' ref ↔ OwnEntry own st ref :=
    OwnEntry.congr h.kernelDir (by rw [h.dirs])
  refine ⟨h'.kernelDir.trans h.kernelDir, h'.currentDir.trans h.currentDir, h'.ram.trans h.ram,
    h'.dirs.trans h.dirs, fun ref other => ?_, fun ref isOwn => ?_, fun frame changed => ?_⟩
  · exact (h'.pages ref (fun isOwn => other (same.mp isOwn))).trans (h.pages ref other)
  · rcases h'.unmapped ref (same.mpr isOwn) with kept | none
    · rw [kept]
      exact h.unmapped ref isOwn
    · exact Or.inr none
  · by_cases first : frameBit st'.frames frame = frameBit st.frames frame
    · obtain ⟨ref, isOwn, here, nonzero⟩ := h'.bits frame (fun kept => changed (kept.trans first))
      have isOwn' := same.mp isOwn
      rcases h.unmapped ref isOwn' with kept | none
      · exact ⟨ref, isOwn', by rw [← kept, here], nonzero⟩
      · exact absurd (here.symm.trans none) nonzero
    · exact h.bits frame first

/-- Freeing the frame of a page of its own. -/
theorem freeFrame_takenBack {own : Nat → Prop} {st : Kernel} {ref : PageRef}
    (isOwn : OwnEntry own st ref)
    : TakenBack own st (freeFrame ref st) := by
  rw [freeFrame]
  dsimp only
  split
  · exact .refl own st
  · rename_i populated
    refine ⟨rfl, rfl, rfl, rfl, fun other notOwn => ?_, fun other _ => ?_, fun frame changed => ?_⟩
    · have elsewhere : other ≠ ref := by
        rintro rfl
        exact notOwn isOwn
      exact Kernel.page_setPage_other elsewhere
    · by_cases here : other = ref
      · subst here
        rw [Kernel.page_setPage]
        exact Or.inr rfl
      · exact Or.inl (Kernel.page_setPage_other here)
    · refine ⟨ref, isOwn, ?_⟩
      rw [Kernel.setPage_frames, frameBit_clearFrame, Nat.mul_div_cancel _ (by decide)] at changed
      by_cases here : frame = (st.page ref).frame
      · exact ⟨here.symm, here ▸ populated⟩
      · simp [here] at changed

/-- The loop of `contract` frees frames of the pages it passes, by induction on its rounds. -/
theorem contractPages_takenBack {heap newSize size fuel i : Nat} {own : Nat → Prop}
    {st st' : Kernel} (kernel : (st.heaps heap).pageDir = st.kernelDir) (small : size < wordSize)
    (pages : ∀ i, newSize ≤ i → i < size → own (addr2Frame (u32 ((st.heaps heap).startAddr + i))))
    (least : pageSize ≤ newSize) (below : i < size)
    (run : contractPages heap newSize fuel i st = some st')
    : TakenBack own st st' := by
  induction fuel generalizing i st with
  | zero => contradiction
  | succ fuel ih =>
      rw [contractPages] at run
      split at run
      · rename_i more
        obtain ⟨⟨entry, seen⟩, looked, behind⟩ := Option.bind_eq_some_iff.mp run
        obtain ⟨ref, rfl, rest⟩ := Option.bind_eq_some_iff.mp behind
        obtain ⟨found, rfl⟩ := getPage_lookup looked
        have isOwn : OwnEntry own seen ref := by
          rw [Kernel.pageOf, kernel] at found
          split at found
          · rename_i table
            exact ⟨_, pages i more below, table, Option.some.inj found⟩
          · contradiction
        have one := freeFrame_takenBack isOwn
        have heaps : (freeFrame ref seen).heaps = seen.heaps := by
          rw [freeFrame]
          dsimp only
          split <;> rfl
        have down : sub32 i pageSize = i - pageSize := sub32_of_le (by omega) (by omega)
        refine one.trans (ih ?_ ?_ ?_ rest)
        · rw [heaps, kernel, one.kernelDir]
        · rw [heaps]
          exact pages
        · rw [down]
          omega
      · exact Option.some.inj run ▸ .refl own st

theorem contract_takenBack {newSize kept : Nat} {st st' : Kernel}
    (kernel : (st.heaps st.kernelHeap).pageDir = st.kernelDir)
    (least : heapMinSize
      ≤ sub32 (st.heaps st.kernelHeap).endAddr (st.heaps st.kernelHeap).startAddr)
    (run : contract newSize st.kernelHeap st = some (kept, st'))
    : TakenBack (spareHeapPages st) st st' := by
  have fits := sub32_lt (st.heaps st.kernelHeap).endAddr (st.heaps st.kernelHeap).startAddr
  simp only [contract, Option.bind_eq_bind, Option.bind_eq_some_iff] at run
  obtain ⟨-, -, mid, loop, same⟩ := run
  obtain ⟨-, rfl⟩ := Prod.mk.inj (Option.some.inj same)
  have bounded : heapMinSize ≤ (if roundToPage newSize < heapMinSize then heapMinSize
      else roundToPage newSize) := by
    split
    · exact le_refl _
    · omega
  have top : sub32 (sub32 (st.heaps st.kernelHeap).endAddr (st.heaps st.kernelHeap).startAddr)
      pageSize < sub32 (st.heaps st.kernelHeap).endAddr (st.heaps st.kernelHeap).startAddr := by
    simp only [heapMinSize] at least
    rw [sub32_of_le fits (by simp only [pageSize]; omega)]
    simp only [pageSize]
    omega
  have freed : TakenBack (spareHeapPages st) st mid := by
    refine contractPages_takenBack kernel fits (fun i above below => ?_) ?_ top loop
    · exact ⟨i, bounded.trans above, below, rfl⟩
    · exact le_trans (by decide) bounded
  exact ⟨freed.kernelDir, freed.currentDir, freed.ram, freed.dirs, freed.pages, freed.unmapped,
    freed.bits⟩

/-- `kfree` does to directories, page tables and frames what is asked of a kernel heap. -/
theorem kfree_takenBack {addr : Nat} {st st' : Kernel}
    (kernel : (st.heaps st.kernelHeap).pageDir = st.kernelDir)
    (least : heapMinSize
      ≤ sub32 (st.heaps st.kernelHeap).endAddr (st.heaps st.kernelHeap).startAddr)
    (run : kfree addr st = some st')
    : TakenBack (spareHeapPages st) st st' := by
  rw [kfree] at run
  split at run
  · rcases free_cases run with only | ⟨before, newSize, kept, after, first, shrunk, last⟩
    · exact only.takenBack
    · have writes : TakenBack (spareHeapPages st) st before := first.takenBack
      obtain ⟨m, rfl⟩ := first
      refine (writes.trans ?_).trans last.takenBack
      change TakenBack (spareHeapPages { st with mem := m }) { st with mem := m } after
      exact contract_takenBack kernel least shrunk
  · exact Option.some.inj run ▸ .refl _ st

-----------------------------------------------------------------------------------------
-- Runs
-----------------------------------------------------------------------------------------

/-- Runs from a state where only the kernel directory is in use, with the directories in use
behind them. A directory is released only while the private frames are distinct; the kernel heap
makes the tables for its own pages itself.
-/
inductive SpaceRun (kmalloc : Kmalloc) (kfree : Kfree) (own : Nat → Prop) (first : Kernel)
    : (Nat → Prop) → Kernel → Prop where
  | start : SpaceRun kmalloc kfree own first (fun dir => dir = first.kernelDir) first
  | clone {live : Nat → Prop} {st st' : Kernel} {src dir : Nat}
      (run : SpaceRun kmalloc kfree own first live st) (alive : live src)
      (done : cloneDir kmalloc src st = some (dir, st'))
      : SpaceRun kmalloc kfree own first (fun other => live other ∨ other = dir) st'
  | map {live : Nat → Prop} {st st' : Kernel} {dir slot i isKernel isWriteable : Nat}
      (run : SpaceRun kmalloc kfree own first live st) (alive : live dir)
      (below : slot < tablesInDir) (table : (st.dirs dir).tables slot ≠ 0)
      (done : allocFrame ((st.dirs dir).tables slot, i) isKernel isWriteable st = some st')
      : SpaceRun kmalloc kfree own first live st'
  | table {live : Nat → Prop} {st st' : Kernel} {dir address : Nat} {page : Option PageRef}
      (run : SpaceRun kmalloc kfree own first live st) (alive : live dir)
      (small : address < wordSize)
      (elsewhere : dir = st.kernelDir → ∀ page, own page → page / 1024 ≠ pageIndex address)
      (done : getPage kmalloc address true dir st = some (page, st'))
      : SpaceRun kmalloc kfree own first live st'
  | request {live : Nat → Prop} {st st' : Kernel} {size align block physAddr : Nat} {phys : Bool}
      (run : SpaceRun kmalloc kfree own first live st)
      (done : kmalloc size align phys st = some (block, physAddr, st'))
      : SpaceRun kmalloc kfree own first live st'
  | release {live : Nat → Prop} {st st' : Kernel} {dir : Nat}
      (run : SpaceRun kmalloc kfree own first live st) (alive : live dir)
      (notKernel : dir ≠ st.kernelDir) (distinct : FramesDistinct live st)
      (done : freeDir kfree dir st = some st')
      : SpaceRun kmalloc kfree own first (fun other => live other ∧ other ≠ dir) st'

/-- Whose table is whose stays clear in every run. -/
theorem SpaceRun.spaces {kmalloc : Kmalloc} {kfree : Kfree} (pool : BlockPool kmalloc kfree)
    {held : Blocks} {first st : Kernel} {live : Nat → Prop}
    (boot : Spaces pool (fun dir => dir = first.kernelDir) held first)
    (run : SpaceRun kmalloc kfree pool.own first live st)
    : ∃ held', Spaces pool live held' st := by
  induction run with
  | start => exact ⟨held, boot⟩
  | clone _ _ done ih =>
      obtain ⟨held', spaces⟩ := ih
      obtain ⟨held'', spaces', -⟩ := spaces.cloneDir done
      exact ⟨held'', spaces'⟩
  | map _ alive below table done ih =>
      obtain ⟨held', spaces⟩ := ih
      exact ⟨held', spaces.allocFrame (spaces.owned.tables _ alive _ below table).1 done⟩
  | table _ alive small elsewhere done ih =>
      obtain ⟨held', spaces⟩ := ih
      obtain ⟨-, -, -, held'', spaces', -⟩ := spaces.getPage alive small elsewhere done
      exact ⟨held'', spaces'⟩
  | request _ done ih =>
      obtain ⟨held', spaces⟩ := ih
      obtain ⟨held'', spaces', -⟩ := spaces.request done
      exact ⟨held'', spaces'⟩
  | release _ alive notKernel distinct done ih =>
      obtain ⟨held', spaces⟩ := ih
      obtain ⟨st', released, -, held'', spaces'⟩ :=
        Releasable.freeDir ⟨spaces, alive, notKernel, distinct⟩
      obtain rfl := Option.some.inj (released.symm.trans done)
      exact ⟨held'', spaces'⟩

end DeadKernel
