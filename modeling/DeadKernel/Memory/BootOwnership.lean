import DeadKernel.Memory.FrameOwnership
import Mathlib.Data.Nat.Bitwise

/-! Frame ownership right after `initPaging`.
The bitmap block gets an eighth of a byte count where it needs a bit count, so the words
above 2047 are whatever memory lies behind it; the results here assume these words clear.
-/

namespace DeadKernel

open Words

-----------------------------------------------------------------------------------------
-- Page loops
-----------------------------------------------------------------------------------------

/-- What every round of a page loop preserves, the loop preserves. -/
theorem forPages_invariant {P : Kernel → Prop} {body : Nat → Kernel → Option Kernel}
    {stop : Nat} (step : ∀ i st st', i < stop → P st → body i st = some st' → P st')
    (fuel i : Nat) (st st' : Kernel) (h : P st)
    (run : forPages body stop fuel i st = some st')
    : P st' := by
  induction fuel generalizing i st with
  | zero => contradiction
  | succ fuel ih =>
      rw [forPages] at run
      split at run
      · rename_i below
        obtain ⟨next, first, rest⟩ := Option.bind_eq_some_iff.mp run
        exact ih _ next (step i st next below h first) rest
      · exact Option.some.inj run ▸ h

/-- A page loop that stays below the last page ends when each of its rounds does. -/
theorem forPages_total {P : Kernel → Prop} {body : Nat → Kernel → Option Kernel}
    {stop : Nat} (room : stop + pageSize ≤ wordSize)
    (step : ∀ i st, i < stop → P st → ∃ st', body i st = some st' ∧ P st')
    (fuel i : Nat) (st : Kernel) (h : P st) (enough : stop ≤ i + pageSize * fuel)
    : ∃ st', forPages body stop (fuel + 1) i st = some st' ∧ P st' := by
  induction fuel generalizing i st with
  | zero =>
      have done : ¬ i < stop := by omega
      exact ⟨st, by rw [forPages, if_neg done], h⟩
  | succ fuel ih =>
      by_cases below : i < stop
      · obtain ⟨next, first, kept⟩ := step i st below h
        simp only [pageSize, wordSize] at room enough ih
        have up : u32 (i + 4096) = i + 4096 := u32_of_lt (by simp only [wordSize]; omega)
        obtain ⟨st', rest, kept'⟩ := ih (i + 4096) next kept (by omega)
        refine ⟨st', ?_, kept'⟩
        rw [forPages, if_pos below, first, Option.bind_some, pageSize, up, rest]
      · exact ⟨st, by rw [forPages, if_neg below], h⟩

/-- The source's loops have rounds enough for every such range. -/
theorem forPages_ends {P : Kernel → Prop} {body : Nat → Kernel → Option Kernel}
    {stop : Nat} (room : stop + pageSize ≤ wordSize)
    (step : ∀ i st, i < stop → P st → ∃ st', body i st = some st' ∧ P st')
    (i : Nat) (st : Kernel) (h : P st)
    : ∃ st', forPages body stop pageLoopFuel i st = some st' ∧ P st' := by
  have rounds : pageLoopFuel = 2097151 + 1 := rfl
  rw [rounds]
  refine forPages_total room step _ i st h ?_
  simp only [wordSize, pageSize] at room ⊢
  omega

-----------------------------------------------------------------------------------------
-- The state while `initPaging` runs
-----------------------------------------------------------------------------------------

/-- The entries of the kernel directory that have no page table yet. -/
def emptySlots (st : Kernel) : Finset Nat :=
  (Finset.range tablesInDir).filter (fun slot => (st.dirs st.kernelDir).tables slot = 0)

/-- The kernel directory's tables come from the placement address, one fresh table for each
slot, so no table overlaps another and the addresses stay below `limit`.
-/
structure Booting (limit : Nat) (st : Kernel) : Prop where
  bounded : limit ≤ 0x60000000
  noHeap : st.kernelHeap = 0
  exact : FramesExact st
  sameDir : st.currentDir = st.kernelDir
  floor : pageSize ≤ st.placementAddress
  room : st.placementAddress + 8192 * (emptySlots st).card ≤ limit
  known : ∀ slot, (st.dirs st.kernelDir).tables slot < st.placementAddress
  blank : ∀ table, st.placementAddress ≤ table → ∀ i, (st.tables table i).frame = 0

theorem kmalloc_placement {st : Kernel} (h : st.kernelHeap = 0) (fuel size align : Nat)
    (phys : Bool)
    : kmalloc fuel size align phys st = some (placementKmalloc size align st) := by
  simp [kmalloc, kmallocWith, h]

/-- An aligned block starts on the page behind the placement address. -/
theorem placementKmalloc_aligned {st : Kernel} {size : Nat}
    (low : pageSize ≤ st.placementAddress) (high : st.placementAddress ≤ 0x60000000)
    (small : size ≤ 8196)
    : ∃ address, st.placementAddress < address ∧ address ≤ st.placementAddress + pageSize
        ∧ placementKmalloc size 1 st
          = (address, address, { st with placementAddress := address + size }) := by
  simp only [pageSize] at low
  have lt : st.placementAddress < wordSize := by
    simp only [wordSize]
    omega
  have down : st.placementAddress &&& (wordSize - 4096) = st.placementAddress / 4096 * 4096 :=
    and_clear_low12 lt
  have nonzero : st.placementAddress / 4096 * 4096 ≠ 0 := by omega
  have up : u32 (st.placementAddress / 4096 * 4096 + 4096)
      = st.placementAddress / 4096 * 4096 + 4096 := u32_of_lt (by simp only [wordSize]; omega)
  refine ⟨st.placementAddress / 4096 * 4096 + 4096, by omega, by simp only [pageSize]; omega, ?_⟩
  simp only [placementKmalloc, pageSize, down, nonzero, ne_eq, not_false_eq_true, and_self,
    if_true, up]
  rw [u32_of_lt (by simp only [wordSize]; omega)]

/-- The state with a new, empty table from the placement address in the slot of the kernel
directory.
-/
def Kernel.bootTable (st : Kernel) (slot table : Nat) : Kernel := { st with
  placementAddress := table + 4096
  tables := update st.tables table PageTable.zero
  dirs := update st.dirs st.kernelDir { st.dirs st.kernelDir with
    tables := update (st.dirs st.kernelDir).tables slot table
    tablesPhysical := update (st.dirs st.kernelDir).tablesPhysical slot (table ||| 0x7) } }

section BootTable

variable {limit : Nat} {st : Kernel} {slot table : Nat}

theorem Kernel.bootTable_slot
    : ((st.bootTable slot table).dirs st.kernelDir).tables slot = table := by
  simp only [bootTable, update_self]

theorem Kernel.bootTable_other {other : Nat} (apart : other ≠ slot)
    : ((st.bootTable slot table).dirs st.kernelDir).tables other
      = (st.dirs st.kernelDir).tables other := by
  simp only [bootTable, update_self, update_other apart]

/-- Memory behind the placement address has no frames in it, and neither has the new table. -/
theorem Booting.bootTable_frame (h : Booting limit st) (above : st.placementAddress < table)
    (ref : PageRef)
    : ((st.bootTable slot table).page ref).frame = (st.page ref).frame := by
  change (update st.tables table PageTable.zero ref.1 ref.2).frame = (st.page ref).frame
  by_cases here : ref.1 = table
  · rw [here, update_self, Kernel.page, here, h.blank table (Nat.le_of_lt above)]
    rfl
  · rw [update_other here, Kernel.page]

/-- One slot fewer is empty. -/
theorem emptySlots_bootTable (slotLt : slot < tablesInDir)
    (absent : (st.dirs st.kernelDir).tables slot = 0) (nonzero : table ≠ 0)
    : (emptySlots (st.bootTable slot table)).card < (emptySlots st).card := by
  have member : slot ∈ emptySlots st :=
    Finset.mem_filter.mpr ⟨Finset.mem_range.mpr slotLt, absent⟩
  apply Finset.card_lt_card
  refine (Finset.ssubset_iff_of_subset (fun other inside => ?_)).mpr ⟨slot, member, ?_⟩
  · obtain ⟨inRange, empty⟩ := Finset.mem_filter.mp inside
    refine Finset.mem_filter.mpr ⟨inRange, ?_⟩
    by_cases here : other = slot
    · rwa [here]
    · rwa [← Kernel.bootTable_other here]
  · intro inside
    exact nonzero (Kernel.bootTable_slot.symm.trans (Finset.mem_filter.mp inside).2)

theorem Booting.bootTable (h : Booting limit st) (slotLt : slot < tablesInDir)
    (absent : (st.dirs st.kernelDir).tables slot = 0) (above : st.placementAddress < table)
    (below : table ≤ st.placementAddress + pageSize)
    : Booting limit (st.bootTable slot table) := by
  have fewer := emptySlots_bootTable slotLt absent (Nat.ne_zero_of_lt above)
  have place : (st.bootTable slot table).placementAddress = table + 4096 := rfl
  simp only [pageSize] at below
  exact {
    bounded := h.bounded
    noHeap := h.noHeap
    exact := by
      intro frame positive bound
      refine (h.exact frame positive bound).trans (exists_congr (fun ref => ?_))
      rw [h.bootTable_frame above]
    sameDir := h.sameDir
    floor := by
      have floor := h.floor
      simp only [pageSize] at floor ⊢
      omega
    room := by
      have room := h.room
      omega
    known := by
      intro other
      change ((st.bootTable slot table).dirs st.kernelDir).tables other < table + 4096
      by_cases here : other = slot
      · rw [here, Kernel.bootTable_slot]
        omega
      · rw [Kernel.bootTable_other here]
        exact lt_of_lt_of_le (h.known other) (by omega)
    blank := by
      intro other far i
      rw [place] at far
      change (update st.tables table PageTable.zero other i).frame = 0
      rw [update_other (by omega)]
      exact h.blank other (by omega) i
  }

end BootTable

/-- While booting, `getPage` always finds or makes an entry, and changes no entry's frame.
-/
theorem Booting.getPage {limit : Nat} {st : Kernel} (h : Booting limit st) (fuel : Nat)
    {address : Nat} (small : address < wordSize)
    : ∃ ref st', getPage (kmalloc fuel) address true st.kernelDir st = some (some ref, st')
        ∧ Booting limit st' ∧ ref.1 < st'.placementAddress
        ∧ st'.kernelDir = st.kernelDir ∧ st'.frames = st.frames ∧ st'.fallOff = st.fallOff
        ∧ ∀ other, (st'.page other).frame = (st.page other).frame := by
  by_cases present : (st.dirs st.kernelDir).tables (pageIndex address) ≠ 0
  · exact ⟨_, st, by rw [DeadKernel.getPage, if_pos present], h, h.known _, rfl, rfl, rfl,
      fun _ => rfl⟩
  have high : st.placementAddress ≤ 0x60000000 := by
    have room := h.room
    have bounded := h.bounded
    omega
  obtain ⟨table, above, below, block⟩ :=
    placementKmalloc_aligned h.floor high (by decide : 4096 ≤ 8196)
  have slotLt : pageIndex address < tablesInDir := by
    simp only [pageIndex, addr2Frame, pageSize, wordSize, tablesInDir] at small ⊢
    omega
  have run : DeadKernel.getPage (kmalloc fuel) address true st.kernelDir st
      = some (some (table, pageOffset address), st.bootTable (pageIndex address) table) := by
    rw [DeadKernel.getPage, if_neg present]
    simp only [if_true, kmalloc_placement h.noHeap, block, Option.bind_eq_bind,
      Option.bind_some, Kernel.bootTable]
  exact ⟨_, _, run, h.bootTable slotLt (not_not.mp present) above below,
    Nat.lt_add_of_pos_right (by decide), rfl, rfl, rfl, h.bootTable_frame above⟩

theorem Booting.mark {limit : Nat} {st : Kernel} (h : Booting limit st) {ref : PageRef}
    (low : ref.1 < st.placementAddress) (empty : (st.page ref).frame = 0) {address : Nat}
    {page : Page} (frame_eq : page.frame = address / pageSize)
    : Booting limit ({ st with frames := setFrame st.frames address }.setPage ref page) where
  bounded := h.bounded
  noHeap := h.noHeap
  exact := h.exact.mark empty frame_eq
  sameDir := h.sameDir
  floor := h.floor
  room := h.room
  known := h.known
  blank := by
    intro table far i
    have elsewhere : table ≠ ref.1 := by
      simp only [Kernel.setPage] at far
      omega
    simp only [Kernel.setPage, update_other elsewhere]
    exact h.blank table far i

theorem Booting.linkFrame {limit : Nat} {st : Kernel} (h : Booting limit st) {ref : PageRef}
    (low : ref.1 < st.placementAddress) (alignedAddress isKernel isWriteable : Nat)
    : Booting limit (linkFrame ref alignedAddress isKernel isWriteable st) := by
  rcases linkFrame_cases ref alignedAddress isKernel isWriteable st with
    same | ⟨empty, page, frame_eq, same⟩
  · rwa [same]
  · rw [same]
    exact h.mark low empty frame_eq

theorem Booting.allocFrame {limit : Nat} {st st' : Kernel} (h : Booting limit st)
    {ref : PageRef} (low : ref.1 < st.placementAddress) {isKernel isWriteable : Nat}
    (run : allocFrame ref isKernel isWriteable st = some st')
    : Booting limit st' := by
  rcases allocFrame_cases run with rfl | ⟨empty, address, page, frame_eq, rfl⟩
  · exact h
  · exact h.mark low empty frame_eq

-----------------------------------------------------------------------------------------
-- The parts of `initPaging`
-----------------------------------------------------------------------------------------

/-- Booting, with frame 0 already marked when `zero` says so. -/
def BootStage (limit : Nat) (zero : Bool) (st : Kernel) : Prop :=
  Booting limit st ∧ (zero = true → frameBit st.frames 0 = true)

/-- One round of `allocFramesMirrored` always ends. -/
theorem mirrorRound {limit : Nat} {zero : Bool} {st : Kernel} (fuel : Nat) {i : Nat}
    (isKernel isWriteable : Nat) (h : BootStage limit zero st) (small : i < wordSize)
    : ∃ st', (do
          let (page, st) ← getPage (kmalloc fuel) i true st.currentDir st
          let page ← page
          some (linkFrame page i isKernel isWriteable st)) = some st'
        ∧ BootStage limit zero st' ∧ st'.fallOff = st.fallOff := by
  obtain ⟨ref, made, got, booting, low, -, frames, fallOff, -⟩ := h.1.getPage fuel small
  refine ⟨linkFrame ref i isKernel isWriteable made, ?_, ⟨booting.linkFrame low _ _ _, ?_⟩, ?_⟩
  · simp only [h.1.sameDir, got, Option.bind_eq_bind, Option.bind_some]
  · exact fun known => linkFrame_marked (by rw [frames]; exact h.2 known) _ _ _ _
  · rcases linkFrame_cases ref i isKernel isWriteable made with same | ⟨-, page, -, same⟩
    · rw [same, fallOff]
    · rw [same]
      exact fallOff

/-- The boot values under which the bitmap is exact: kernel and modules lie in the first
gigabyte, and the words that the bitmap needs beyond its 8192 bytes read as clear.
-/
structure Boot.Clear (boot : Boot) : Prop where
  placementLow : boot.placementAddress < 0x40000000
  startLow : boot.start < 0x40000000
  behind : ∀ word, nframes / 32 / 4 ≤ word → word < nframes / 32 → boot.bitmap word = 0#32

/-- The state in which the kernel directory has just been set up. -/
def Boot.emptyDir (boot : Boot) (dir : Nat) : Kernel :=
  { boot.kernel with
    placementAddress := dir + 8196
    frames := fun word => if word < nframes / 32 / 4 then 0#32 else boot.bitmap word
    kernelDir := dir
    currentDir := dir
    dirs := update boot.kernel.dirs dir { PageDir.zero with physicalAddr := u32 (dir + 4096) } }

theorem Boot.Clear.booting {boot : Boot} (h : boot.Clear) {dir : Nat}
    (low : pageSize ≤ dir) (high : dir ≤ boot.placementAddress + 8192 + pageSize)
    : Booting 0x50000000 (boot.emptyDir dir) := by
  have placementLow := h.placementLow
  simp only [pageSize] at low high
  exact {
    bounded := by decide
    noHeap := rfl
    exact := by
      intro frame positive bound
      have word : frame / 32 < nframes / 32 := by
        simp only [nframes] at bound ⊢
        omega
      have clear : (boot.emptyDir dir).frames (frame / 32) = 0#32 := by
        by_cases inside : frame / 32 < nframes / 32 / 4
        · simp [Boot.emptyDir, inside]
        · simp only [Boot.emptyDir, inside, if_false]
          exact h.behind _ (by omega) word
      refine iff_of_false (by simp [frameBit, clear]) ?_
      rintro ⟨ref, maps⟩
      simp only [Kernel.page, Boot.emptyDir, Boot.kernel, PageTable.zero, Page.zero] at maps
      omega
    sameDir := rfl
    floor := by
      simp only [Boot.emptyDir, pageSize]
      omega
    room := by
      have slots : (emptySlots (boot.emptyDir dir)).card ≤ 1024 :=
        (Finset.card_filter_le _ _).trans (by simp)
      simp only [Boot.emptyDir] at slots ⊢
      omega
    known := by
      intro slot
      simp [Boot.emptyDir, PageDir.zero]
    blank := fun _ _ _ => rfl
  }

/-- The kernel directory is placed on the first page behind the bitmap. -/
theorem initKernelDir_placed {boot : Boot} (h : boot.Clear)
    : ∃ dir, boot.placementAddress + 8192 < dir
        ∧ dir ≤ boot.placementAddress + 8192 + pageSize
        ∧ initKernelDir boot = some (boot.emptyDir dir) := by
  have placementLow := h.placementLow
  have first : kmalloc 1 (nframes / 32) 0 false boot.kernel
      = some (boot.placementAddress, boot.placementAddress,
          { boot.kernel with placementAddress := boot.placementAddress + 8192 }) := by
    rw [kmalloc_placement rfl]
    simp only [placementKmalloc, Boot.kernel, zero_ne_one, false_and, if_false, nframes,
      Nat.reduceDiv]
    rw [u32_of_lt (by simp only [wordSize]; omega)]
  let cleared : Kernel := { boot.kernel with
    placementAddress := boot.placementAddress + 8192
    frames := fun word => if word < nframes / 32 / 4 then 0#32 else boot.bitmap word }
  have floor : pageSize ≤ cleared.placementAddress := by
    simp only [pageSize, cleared]
    omega
  obtain ⟨dir, above, below, second⟩ := placementKmalloc_aligned floor
    (by simp only [cleared]; omega) (le_refl 8196)
  refine ⟨dir, above, below, ?_⟩
  simp only [initKernelDir, first, Option.bind_eq_bind, Option.bind_some]
  rw [kmalloc_placement rfl]
  simp only [cleared] at second
  simp only [Boot.kernel] at second ⊢
  rw [second]
  rfl

/-- The bitmap starts clear, in front of an empty kernel directory. -/
theorem initKernelDir_eq {boot : Boot} (h : boot.Clear)
    : ∃ dir, boot.placementAddress + 8192 < dir ∧ initKernelDir boot = some (boot.emptyDir dir)
        ∧ Booting 0x50000000 (boot.emptyDir dir) := by
  obtain ⟨dir, above, below, started⟩ := initKernelDir_placed h
  refine ⟨dir, above, started, h.booting ?_ below⟩
  simp only [pageSize]
  omega

/-- The page tables of the kernel heap are made before anything is mapped. -/
theorem initKheapTables_stage {limit : Nat} {st st' : Kernel} (h : Booting limit st)
    (unmapped : ∀ ref, (st.page ref).frame = 0) (run : initKheapTables st = some st')
    : Booting limit st' ∧ ∀ ref, (st'.page ref).frame = 0 := by
  refine forPages_invariant (P := fun st => Booting limit st ∧ ∀ ref, (st.page ref).frame = 0)
    ?_ _ _ _ _ ⟨h, unmapped⟩ run
  intro i st next below h first
  simp only [kheapStart, heapMinSize] at below
  obtain ⟨ref, made, got, booting, -, -, -, -, frames⟩ :=
    h.1.getPage 1 (lt_trans below (by decide) : i < wordSize)
  simp only [got, Option.bind_eq_bind, Option.bind_some, Option.some.injEq] at first
  subst first
  exact ⟨booting, fun ref => by rw [frames, h.2]⟩

theorem createHeap_bitmap {st st' : Kernel}
    {placementAddr pageDir start stop max supervisor readonly : Nat}
    (run : createHeap placementAddr pageDir start stop max supervisor readonly st = some st')
    : st'.frames = st.frames ∧ st'.tables = st.tables := by
  simp only [createHeap, Option.bind_eq_bind, Option.bind_eq_some_iff, Option.some.injEq] at run
  obtain ⟨-, -, -, -, m, -, rfl⟩ := run
  exact ⟨rfl, rfl⟩

/-- Taking a small unaligned block only raises the placement address. -/
theorem Booting.block {limit size : Nat} {st : Kernel} (h : Booting limit st)
    (fits : limit + size ≤ 0x60000000)
    : ∃ address phys, placementKmalloc size 0 st
          = (address, phys, { st with placementAddress := st.placementAddress + size })
        ∧ Booting (limit + size) { st with placementAddress := st.placementAddress + size } := by
  have room := h.room
  have wrap : u32 (st.placementAddress + size) = st.placementAddress + size :=
    u32_of_lt (by simp only [wordSize]; omega)
  refine ⟨st.placementAddress, st.placementAddress, ?_, ?_⟩
  · simp only [placementKmalloc, zero_ne_one, false_and, if_false, wrap]
  · exact {
      bounded := fits
      noHeap := h.noHeap
      exact := h.exact
      sameDir := h.sameDir
      floor := le_trans h.floor (Nat.le_add_right _ _)
      room := by
        simp only [emptySlots] at room ⊢
        omega
      known := fun slot => lt_of_lt_of_le (h.known slot) (Nat.le_add_right _ _)
      blank := fun table far => h.blank table (le_trans (Nat.le_add_right _ _) far)
    }

end DeadKernel
