import DeadKernel.Foundation.Words

/-! The state that the memory management of the kernel works on.
Page tables, page directories and heap descriptors are typed objects kept by address;
heap chunks and their list nodes live in plain bytes, because their words overlap payloads.
-/

namespace DeadKernel

open Words

/-- One page-table entry. -/
structure Page where
  present : Bool
  rw : Bool
  user : Bool
  accessed : Bool
  dirty : Bool
  isKernel : Bool
  frame : Nat
deriving DecidableEq

/-- The entry that `memset` leaves behind. -/
def Page.zero : Page := ⟨false, false, false, false, false, false, 0⟩

abbrev PageTable := Nat → Page

def PageTable.zero : PageTable := fun _ => .zero

structure PageDir where
  tables : Nat → Nat
  tablesPhysical : Nat → Nat
  physicalAddr : Nat

def PageDir.zero : PageDir := ⟨fun _ => 0, fun _ => 0, 0⟩

/-- The fields of `Heap_t` before its list head, which lives in memory (`headOf`). -/
structure Heap where
  startAddr : Nat
  endAddr : Nat
  maxAddr : Nat
  supervisor : Nat
  readonly : Nat
  pageDir : Nat

/-- Memory-management state. `mem` is memory as the running address space shows it and `ram`
the contents of the physical frames; a page shows the contents of its frame from the moment
it is mapped. `fallOff` is what a caller of `firstFrame` finds in its result register when
the function runs off its end.
-/
structure Kernel where
  mem : Mem
  ram : Nat → Nat → UInt8
  heaps : Nat → Heap
  kernelHeap : Nat
  placementAddress : Nat
  frames : Nat → BitVec 32
  fallOff : Nat
  tables : Nat → PageTable
  dirs : Nat → PageDir
  kernelDir : Nat
  currentDir : Nat

/-- A `Page_t*`: the address of a page table and an index into it. -/
abbrev PageRef := Nat × Nat

abbrev pageSize : Nat := 4096
abbrev pagesInTable : Nat := 1024
abbrev tablesInDir : Nat := 1024

/-- The frames of the one gigabyte that `initPaging` assumes. -/
abbrev nframes : Nat := 262144

/-- Change one value of a total map. -/
def update {β : Type} (map : Nat → β) (key : Nat) (value : β) : Nat → β :=
  fun other => if other = key then value else map other

@[simp] theorem update_self {β : Type} (map : Nat → β) (key : Nat) (value : β)
    : update map key value key = value := by
  simp [update]

@[simp] theorem update_other {β : Type} {map : Nat → β} {key other : Nat} {value : β}
    (h : other ≠ key)
    : update map key value other = map other := by
  simp [update, h]

@[simp] theorem update_update {β : Type} (map : Nat → β) (key : Nat) (first value : β)
    : update (update map key first) key value = update map key value := by
  funext other
  by_cases h : other = key <;> simp [update, h]

/-- The entry behind a page reference. -/
def Kernel.page (st : Kernel) (ref : PageRef) : Page := st.tables ref.1 ref.2

/-- Overwrite the entry behind a page reference. -/
def Kernel.setPage (st : Kernel) (ref : PageRef) (page : Page) : Kernel :=
  { st with tables := update st.tables ref.1 (update (st.tables ref.1) ref.2 page) }

@[simp] theorem Kernel.page_setPage (st : Kernel) (ref : PageRef) (page : Page)
    : (st.setPage ref page).page ref = page := by
  simp [Kernel.page, Kernel.setPage]

@[simp] theorem Kernel.page_setPage_other {st : Kernel} {ref other : PageRef} {page : Page}
    (h : other ≠ ref)
    : (st.setPage ref page).page other = st.page other := by
  simp only [Kernel.page, Kernel.setPage, update]
  split
  · rename_i table
    have index : other.2 ≠ ref.2 := fun same => h (Prod.ext table same)
    rw [update_other index, table]
  · rfl

/-- Only the last of two writes to one entry counts. -/
@[simp] theorem Kernel.setPage_setPage (st : Kernel) (ref : PageRef) (first page : Page)
    : (st.setPage ref first).setPage ref page = st.setPage ref page := by
  simp [Kernel.setPage]

@[simp] theorem Kernel.setPage_frames (st : Kernel) (ref : PageRef) (page : Page)
    : (st.setPage ref page).frames = st.frames := rfl

end DeadKernel
