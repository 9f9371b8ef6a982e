import DeadKernel.Loading.MirroredRange
import DeadKernel.Loading.SectionCoverage
import DeadKernel.Memory.FrameSafety

/-! What the kernel finds where it was when paging is turned on. Each part of `initPaging` that
mirrors a range leaves its pages at the frames of their own numbers, and nothing later moves them.
-/

namespace DeadKernel

open Words

-----------------------------------------------------------------------------------------
-- The kernel directory while booting
-----------------------------------------------------------------------------------------

/-- The page is present in the kernel directory, at the frame of its own number. -/
structure Mirrored (st : Kernel) (page : Nat) : Prop where
  present : (st.entry st.kernelDir page).present = true
  frame : (st.entry st.kernelDir page).frame = page

/-- The pages of `done` are mirrored, and every other page of the first gigabyte that has a frame
as well. No two slots share a table, and low memory is taken up to `reached`.
-/
structure KernelMap (limit dir reached : Nat) (done : Nat → Prop) (st : Kernel) : Prop where
  booting : Booting limit st
  kernelDir : st.kernelDir = dir
  reach : reached ≤ st.placementAddress
  sole : ∀ slot slot', (st.dirs st.kernelDir).tables slot ≠ 0 →
    (st.dirs st.kernelDir).tables slot = (st.dirs st.kernelDir).tables slot' → slot = slot'
  low : ∀ page < nframes, (st.entry st.kernelDir page).frame ≠ 0 → Mirrored st page
  done : ∀ page < nframes, done page → Mirrored st page

section

variable {limit dir reached : Nat} {done : Nat → Prop} {st st' : Kernel}

theorem Mirrored.congr {page : Nat} (h : Mirrored st page)
    (same : st'.entry st'.kernelDir page = st.entry st.kernelDir page)
    : Mirrored st' page :=
  ⟨(congrArg Page.present same).trans h.present, (congrArg Page.frame same).trans h.frame⟩

theorem KernelMap.weaken (h : KernelMap limit dir reached done st) {fewer : Nat → Prop}
    (less : ∀ page < nframes, fewer page → done page)
    : KernelMap limit dir reached fewer st :=
  { h with done := fun page low mem => h.done page low (less page low mem) }

/-- A new table is empty, like the slot before. -/
theorem Booting.bootTable_entry (h : Booting limit st) {slot table : Nat}
    (absent : (st.dirs st.kernelDir).tables slot = 0) (above : st.placementAddress < table)
    (page : Nat)
    : (st.bootTable slot table).entry st.kernelDir page = st.entry st.kernelDir page := by
  rw [Kernel.entry, Kernel.entry, Kernel.entryRef, Kernel.entryRef]
  by_cases here : page / 1024 = slot
  · rw [here, Kernel.bootTable_slot, if_neg (Nat.ne_zero_of_lt above), absent, if_pos rfl]
    change update st.tables table PageTable.zero table _ = _
    rw [update_self]
    rfl
  · rw [Kernel.bootTable_other here]
    have known := h.known (page / 1024)
    by_cases empty : (st.dirs st.kernelDir).tables (page / 1024) = 0
    · rw [if_pos empty, if_pos empty]
    · rw [if_neg empty, if_neg empty]
      change update st.tables table PageTable.zero _ _ = _
      rw [update_other (by omega)]
      rfl

theorem KernelMap.bootTable (h : KernelMap limit dir reached done st) {slot table : Nat}
    (slotLt : slot < tablesInDir) (absent : (st.dirs st.kernelDir).tables slot = 0)
    (above : st.placementAddress < table) (below : table ≤ st.placementAddress + pageSize)
    : KernelMap limit dir reached done (st.bootTable slot table) := by
  have entry := h.booting.bootTable_entry absent above
  have mirrored {page : Nat} (m : Mirrored st page) : Mirrored (st.bootTable slot table) page :=
    m.congr (entry page)
  refine {
    booting := h.booting.bootTable slotLt absent above below
    kernelDir := h.kernelDir
    reach := h.reach.trans (by
      change st.placementAddress ≤ table + 4096
      omega)
    sole := fun slot' other nonzero same => ?_
    low := fun page low populated => mirrored (h.low page low ?_)
    done := fun page low mem => mirrored (h.done page low mem) }
  · change ((st.bootTable slot table).dirs st.kernelDir).tables slot' ≠ 0 at nonzero
    change ((st.bootTable slot table).dirs st.kernelDir).tables slot'
      = ((st.bootTable slot table).dirs st.kernelDir).tables other at same
    by_cases here : slot' = slot
    · by_cases there : other = slot
      · rw [here, there]
      · rw [here, Kernel.bootTable_slot, Kernel.bootTable_other there] at same
        have := h.booting.known other
        omega
    · rw [Kernel.bootTable_other here] at nonzero same
      by_cases there : other = slot
      · rw [there, Kernel.bootTable_slot] at same
        have := h.booting.known slot'
        omega
      · rw [Kernel.bootTable_other there] at same
        exact h.sole slot' other nonzero same
  · rw [← entry page]
    exact populated

/-- The entry of an address, with a table. -/
theorem KernelMap.getPage (h : KernelMap limit dir reached done st) (fuel : Nat) {address : Nat}
    (small : address < wordSize)
    : ∃ made, getPage (kmalloc fuel) address true st.kernelDir st
          = some (some (made.entryRef made.kernelDir (address / pageSize)), made)
        ∧ KernelMap limit dir reached done made
        ∧ (made.dirs made.kernelDir).tables (address / pageSize / 1024) ≠ 0 := by
  by_cases present : (st.dirs st.kernelDir).tables (pageIndex address) ≠ 0
  · exact ⟨st, by rw [DeadKernel.getPage, if_pos present]; rfl, h, present⟩
  have high : st.placementAddress ≤ 0x60000000 := by
    have room := h.booting.room
    have bounded := h.booting.bounded
    omega
  obtain ⟨table, above, below, block⟩ :=
    placementKmalloc_aligned h.booting.floor high (by decide : 4096 ≤ 8196)
  have slotLt : pageIndex address < tablesInDir := by
    simp only [pageIndex, addr2Frame, pageSize, wordSize, tablesInDir] at small ⊢
    omega
  have slot : ((st.bootTable (pageIndex address) table).dirs st.kernelDir).tables
      (address / pageSize / 1024) = table :=
    Kernel.bootTable_slot
  refine ⟨st.bootTable (pageIndex address) table, ?_,
    h.bootTable slotLt (not_not.mp present) above below, ?_⟩
  · rw [DeadKernel.getPage, if_neg present]
    simp only [if_true, kmalloc_placement h.booting.noHeap, block, Option.bind_eq_bind,
      Option.bind_some]
    rw [Kernel.entryRef]
    change _ = some (some (((st.bootTable (pageIndex address) table).dirs st.kernelDir).tables
      (address / pageSize / 1024), _), _)
    rw [slot]
    rfl
  · exact slot.trans_ne (Nat.ne_zero_of_lt above)

/-- Writing an entry leaves the others. -/
theorem KernelMap.entry_other (h : KernelMap limit dir reached done st) {page other : Nat}
    (frames : Nat → BitVec 32) (entry : Page) (elsewhere : other ≠ page)
    : ({ st with frames }.setPage (st.entryRef st.kernelDir page) entry).entry st.kernelDir other
      = st.entry st.kernelDir other := by
  rw [Kernel.entry, Kernel.entry]
  change (if (st.dirs st.kernelDir).tables (other / 1024) = 0 then _ else _) = _
  by_cases empty : (st.dirs st.kernelDir).tables (other / 1024) = 0
  · rw [if_pos empty, if_pos empty]
  · rw [if_neg empty, if_neg empty]
    refine Kernel.page_setPage_other ?_
    intro same
    obtain ⟨tables, offset⟩ := Prod.mk.inj same
    have slot := h.sole _ _ empty tables
    omega

/-- An entry of the first gigabyte is only written with the frame of its page. -/
theorem KernelMap.setPage (h : KernelMap limit dir reached done st) {page : Nat}
    {frames : Nat → BitVec 32} {entry : Page}
    (table : (st.dirs st.kernelDir).tables (page / 1024) ≠ 0)
    (booting : Booting limit
      ({ st with frames }.setPage (st.entryRef st.kernelDir page) entry))
    (itself : page < nframes → entry.present = true ∧ entry.frame = page)
    : KernelMap limit dir reached (fun other => done other ∨ other = page)
        ({ st with frames }.setPage (st.entryRef st.kernelDir page) entry) := by
  have here : ({ st with frames }.setPage (st.entryRef st.kernelDir page) entry).entry
      st.kernelDir page = entry :=
    entry_setPage { st with frames } table entry
  have mirrored {other : Nat} (low : other < nframes) (m : other ≠ page → Mirrored st other)
      : Mirrored ({ st with frames }.setPage (st.entryRef st.kernelDir page) entry) other := by
    by_cases there : other = page
    · subst there
      exact ⟨(congrArg Page.present here).trans (itself low).1,
        (congrArg Page.frame here).trans (itself low).2⟩
    · exact (m there).congr (h.entry_other frames entry there)
  exact {
    booting
    kernelDir := h.kernelDir
    reach := h.reach
    sole := h.sole
    low := fun other low populated => mirrored low fun elsewhere => h.low other low (by
      rw [← h.entry_other _ _ elsewhere]
      exact populated)
    done := fun other low mem => mirrored low fun elsewhere =>
      h.done other low (mem.resolve_right elsewhere) }

/-- A page is linked to the frame of its number, or it was before. -/
theorem KernelMap.linkFrame (h : KernelMap limit dir reached done st)
    {i isKernel isWriteable : Nat}
    (table : (st.dirs st.kernelDir).tables (i / pageSize / 1024) ≠ 0)
    : KernelMap limit dir reached (fun page => done page ∨ page = i / pageSize)
        (linkFrame (st.entryRef st.kernelDir (i / pageSize)) i isKernel isWriteable st) := by
  have booting := @Booting.linkFrame limit st h.booting (st.entryRef st.kernelDir (i / pageSize))
    (h.booting.known _) i isKernel isWriteable
  have ref : st.page (st.entryRef st.kernelDir (i / pageSize))
      = st.entry st.kernelDir (i / pageSize) := by
    rw [Kernel.entry, if_neg table]
  rw [DeadKernel.linkFrame] at booting ⊢
  split at booting
  · rename_i populated
    rw [if_pos populated]
    rw [ref] at populated
    refine { h with done := fun page low mem => ?_ }
    cases mem with
    | inl mem => exact h.done page low mem
    | inr here => exact h.low page low (here ▸ populated)
  · rename_i empty
    rw [if_neg empty]
    exact h.setPage table booting (fun _ => ⟨rfl, rfl⟩)

/-- Pages behind the first gigabyte may get any frame. -/
theorem KernelMap.allocFrame (h : KernelMap limit dir reached done st)
    {page isKernel isWriteable : Nat}
    (table : (st.dirs st.kernelDir).tables (page / 1024) ≠ 0) (high : nframes ≤ page)
    (run : allocFrame (st.entryRef st.kernelDir page) isKernel isWriteable st = some st')
    : KernelMap limit dir reached done st' := by
  have booting := @Booting.allocFrame limit st st' h.booting (st.entryRef st.kernelDir page)
    (h.booting.known _) isKernel isWriteable run
  rcases allocFrame_cases run with rfl | ⟨-, address, entry, -, rfl⟩
  · exact h
  · exact (h.setPage table booting (fun low => by omega)).weaken (fun _ _ => .inl)

-----------------------------------------------------------------------------------------
-- Loops
-----------------------------------------------------------------------------------------

/-- The loop that mirrors, by induction on its rounds. -/
theorem KernelMap.mapPages {stop fuel rounds i isKernel isWriteable : Nat}
    (room : stop + pageSize ≤ wordSize) (h : KernelMap limit dir reached done st)
    (run : forPages (mapPage (kmalloc fuel)
        fun i ref st => some (DeadKernel.linkFrame ref i isKernel isWriteable st))
      stop rounds i st = some st')
    : KernelMap limit dir reached (fun page => done page ∨ pagesUp i stop page = true) st' := by
  induction rounds generalizing i st done with
  | zero => contradiction
  | succ rounds ih =>
      rw [forPages] at run
      split at run
      · rename_i more
        obtain ⟨mid, one, rest⟩ := Option.bind_eq_some_iff.mp run
        have small : i < wordSize := by omega
        have next : u32 (i + pageSize) = i + pageSize := u32_of_lt (by
          simp only [pageSize, wordSize] at room ⊢
          omega)
        obtain ⟨made, got, here, table⟩ := h.getPage fuel small
        simp only [mapPage, h.booting.sameDir, got, Option.bind_eq_bind, Option.bind_some,
          Option.some.injEq] at one
        subst one
        rw [next] at rest
        refine (ih (here.linkFrame table) rest).weaken (fun page _ mem => ?_)
        rw [pagesUp_step more, Bool.or_eq_true, decide_eq_true_eq] at mem
        exact or_assoc.mpr mem
      · rename_i behind
        obtain rfl := Option.some.inj run
        refine h.weaken (fun page _ mem => mem.resolve_right ?_)
        rw [pagesUp_none behind page]
        exact Bool.false_ne_true

/-- A range of the first gigabyte is mirrored from the page of its first address to that of its
last.
-/
theorem KernelMap.mirror {fuel start stop isKernel isWriteable : Nat}
    (h : KernelMap limit dir reached done st)
    (bounded : stop + 2 * pageSize ≤ nframes * pageSize)
    (run : allocFramesMirrored (kmalloc fuel) start stop true isKernel isWriteable st = some st')
    : KernelMap limit dir reached
        (fun page => done page ∨ start / pageSize ≤ page ∧ page ≤ stop / pageSize) st' := by
  rw [allocFramesMirrored_loop] at run
  refine (h.mapPages (mirroredStop_room bounded) run).weaken (fun page _ mem => ?_)
  refine mem.imp_right (fun inside => ?_)
  exact (mirrored_visited bounded page).mpr ⟨inside.1, .inl inside.2⟩

/-- The pages of the kernel heap, by induction on the rounds. -/
theorem KernelMap.allocPages {stop fuel rounds i isKernel isWriteable : Nat}
    (room : stop + pageSize ≤ wordSize) (high : kheapStart ≤ i)
    (h : KernelMap limit dir reached done st)
    (run : forPages (allocPage (kmalloc fuel) true isKernel isWriteable) stop rounds i st
      = some st')
    : KernelMap limit dir reached done st' := by
  induction rounds generalizing i st with
  | zero => contradiction
  | succ rounds ih =>
      rw [forPages] at run
      split at run
      · rename_i more
        obtain ⟨mid, one, rest⟩ := Option.bind_eq_some_iff.mp run
        have small : i < wordSize := by omega
        have next : u32 (i + pageSize) = i + pageSize := u32_of_lt (by
          simp only [pageSize, wordSize] at room ⊢
          omega)
        obtain ⟨made, got, here, table⟩ := h.getPage fuel small
        simp only [allocPage, h.booting.sameDir, got, Option.bind_eq_bind, Option.bind_some] at one
        have behind : nframes ≤ i / pageSize := by
          simp only [kheapStart, nframes, pageSize] at high ⊢
          omega
        rw [next] at rest
        exact ih (high.trans (Nat.le_add_right _ _)) (here.allocFrame table behind one) rest
      · exact Option.some.inj run ▸ h

end

-----------------------------------------------------------------------------------------
-- The parts of `initPaging`
-----------------------------------------------------------------------------------------

/-- The section lies behind the first page, and its frames have their bits in the 8192 bytes of the
bitmap.
-/
structure SectionHeader.Low (sec : SectionHeader) : Prop where
  first : pageSize ≤ sec.addr
  last : sec.addr + sec.size + 2 * pageSize ≤ 0x10000000

/-- The pages from that of the section's first byte to that of the byte behind it. -/
def SectionHeader.spans (sec : SectionHeader) (page : Nat) : Prop :=
  sec.addr / pageSize ≤ page ∧ page ≤ (sec.addr + sec.size) / pageSize

/-- What has to stay where it is: everything up to `start` and the sections that GRUB passed, or,
where it passed none, everything up to the end of the modules.
-/
def Boot.keeps (boot : Boot) (page : Nat) : Prop :=
  match boot.sections with
  | some lookup => page ≤ boot.start / pageSize
      ∨ ∃ name ∈ kernelSectionNames, ∃ sec, lookup name = some sec ∧ sec.spans page
  | none => page ≤ boot.placementAddress / pageSize

/-- The boot values under which the kernel, its modules and the tables made for them lie in frames
that have their bits in the 8192 bytes of the bitmap.
-/
structure Boot.Low (boot : Boot) : Prop where
  clear : boot.Clear
  placement : boot.placementAddress ≤ 0x0F000000
  start : boot.start ≤ 0x0F000000
  sections : ∀ lookup, boot.sections = some lookup →
    ∀ name ∈ kernelSectionNames, ∀ sec, lookup name = some sec → sec.Low

section

variable {limit dir reached fuel : Nat} {done : Nat → Prop} {st st' : Kernel}

theorem KernelMap.kernelSection {sec : SectionHeader} (low : sec.Low)
    (h : KernelMap limit dir reached done st)
    (run : allocKernelSection (kmalloc fuel) (some sec) st = some st')
    : KernelMap limit dir reached (fun page => done page ∨ sec.spans page) st' := by
  have first := low.first
  have last := low.last
  simp only [pageSize] at first last
  have small : sec.addr < wordSize := by
    simp only [wordSize]
    omega
  have small' : sec.addr + sec.size < wordSize := by
    simp only [wordSize]
    omega
  have mask : wordSize - 4095 = sectionMask := rfl
  have startAt := and_sectionMask small
  have stopAt := and_sectionMask small'
  simp only [allocKernelSection, mask, u32_of_lt small', startAt, stopAt] at run
  simp only [pageSize] at run startAt stopAt
  refine (h.mirror ?_ run).weaken (fun page _ mem => mem.imp_right (fun spans => ?_))
  · simp only [pageSize, nframes]
    omega
  · obtain ⟨above, below⟩ := spans
    simp only [pageSize] at above below ⊢
    split
    · rw [sub32_of_le (by simp only [wordSize]; omega) (by omega)]
      omega
    · omega

/-- The sections one after another, by induction on their names. -/
theorem KernelMap.kernelSections {lookup : String → Option SectionHeader} (names : List String)
    (low : ∀ name ∈ names, ∀ sec, lookup name = some sec → sec.Low)
    (h : KernelMap limit dir reached done st)
    (run : names.foldlM (fun st name => allocKernelSection (kmalloc fuel) (lookup name) st) st
      = some st')
    : KernelMap limit dir reached (fun page => done page
        ∨ ∃ name ∈ names, ∃ sec, lookup name = some sec ∧ sec.spans page) st' := by
  induction names generalizing st done with
  | nil =>
      obtain rfl := Option.some.inj run
      exact h.weaken (fun page _ mem => mem.resolve_right (fun ⟨_, mem, _⟩ =>
        absurd mem List.not_mem_nil))
  | cons name rest ih =>
      rw [List.foldlM_cons] at run
      obtain ⟨next, first, later⟩ := Option.bind_eq_some_iff.mp run
      have low' := fun name' mem => low name' (List.mem_cons_of_mem name mem)
      cases found : lookup name with
      | none =>
          rw [found] at first
          obtain rfl := Option.some.inj first
          refine (ih low' h later).weaken (fun page _ mem => mem.imp_right ?_)
          rintro ⟨name', mem, sec, found', spans⟩
          rcases List.mem_cons.mp mem with rfl | mem
          · rw [found] at found'
            contradiction
          · exact ⟨name', mem, sec, found', spans⟩
      | some sec =>
          rw [found] at first
          have here := h.kernelSection (low name List.mem_cons_self sec found) first
          refine (ih low' here later).weaken (fun page _ mem => ?_)
          rcases mem with before | ⟨name', mem, sec', found', spans⟩
          · exact .inl (.inl before)
          · rcases List.mem_cons.mp mem with rfl | mem
            · rw [found, Option.some.injEq] at found'
              subst found'
              exact .inl (.inr spans)
            · exact .inr ⟨name', mem, sec', found', spans⟩

theorem KernelMap.mirrorKernel {boot : Boot} (low : boot.Low)
    (behind : boot.placementAddress ≤ st.placementAddress)
    (bounded : st.placementAddress + 2 * pageSize ≤ nframes * pageSize)
    (h : KernelMap limit dir reached done st) (run : mirrorKernel boot st = some st')
    : KernelMap limit dir reached boot.keeps st' := by
  have start := low.start
  rw [DeadKernel.mirrorKernel] at run
  cases known : boot.sections with
  | none =>
      rw [known] at run
      refine (h.mirror bounded run).weaken (fun page _ mem => .inr ⟨?_, ?_⟩)
      · exact (Nat.zero_le _)
      · rw [Boot.keeps, known] at mem
        exact mem.trans (Nat.div_le_div_right behind)
  | some lookup =>
      rw [known] at run
      obtain ⟨next, zero, sections⟩ := Option.bind_eq_some_iff.mp run
      have fits : boot.start + 2 * pageSize ≤ nframes * pageSize := by
        simp only [pageSize, nframes]
        omega
      refine ((h.mirror fits zero).kernelSections _ (low.sections lookup known) sections).weaken
        (fun page _ mem => ?_)
      rw [Boot.keeps, known] at mem
      exact mem.imp_left (fun below => .inr ⟨Nat.zero_le _, below⟩)

/-- The record of the heap is placed behind what has been taken. -/
theorem KernelMap.block {size : Nat} (h : KernelMap limit dir reached done st)
    (fits : limit + size ≤ 0x60000000)
    : kmalloc fuel size 0 false st = some (st.placementAddress, st.placementAddress,
        { st with placementAddress := st.placementAddress + size })
      ∧ KernelMap (limit + size) dir (st.placementAddress + size) done
          { st with placementAddress := st.placementAddress + size } := by
  obtain ⟨address, phys, placed, booting⟩ := h.booting.block fits
  have taken := placed
  simp only [placementKmalloc, zero_ne_one, false_and, if_false] at taken
  obtain ⟨rfl, rest⟩ := Prod.mk.inj taken
  obtain ⟨rfl, -⟩ := Prod.mk.inj rest
  refine ⟨?_, {
    booting
    kernelDir := h.kernelDir
    reach := le_refl _
    sole := h.sole
    low := fun page low populated => (h.low page low populated).congr rfl
    done := fun page low mem => (h.done page low mem).congr rfl }⟩
  rw [kmalloc_placement h.booting.noHeap, placed]

theorem KernelMap.heapPages (h : KernelMap limit dir reached done st)
    (run : allocFrames (kmalloc fuel) kheapStart (kheapStart + heapMinSize) true 1 1 st = some st')
    : KernelMap limit dir reached done st' := by
  have loop : allocFrames (kmalloc fuel) kheapStart (kheapStart + heapMinSize) true 1 1 st
      = forPages (allocPage (kmalloc fuel) true 1 1)
          (u32 (kheapStart + sub32 (kheapStart + heapMinSize) kheapStart)) pageLoopFuel kheapStart
          st := rfl
  rw [loop, u32_add_sub32 (by decide)] at run
  exact h.allocPages (by decide) (le_refl _) run

end

end DeadKernel
