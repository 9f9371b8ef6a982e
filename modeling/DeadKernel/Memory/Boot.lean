import DeadKernel.Memory.Heap

/-! The state that `initPaging` leaves behind. -/

namespace DeadKernel

open Words

structure SectionHeader where
  addr : Nat
  size : Nat
  flags : Nat

abbrev shfWrite : Nat := 1
abbrev kheapStart : Nat := 0xC0000000
abbrev kheapMax : Nat := 0xCFFFF000

/-- What the kernel finds when it starts: the link symbols `start` and `end`, the placement
address behind the loaded modules, the section lookup when GRUB passed a section table, and
the contents of memory. `bitmap` holds the words found where `frames` is placed.
-/
structure Boot where
  start : Nat
  kernelEnd : Nat
  placementAddress : Nat
  sections : Option (String → Option SectionHeader)
  mem : Mem
  ram : Nat → Nat → UInt8
  bitmap : Nat → BitVec 32
  fallOff : Nat

/-- Nothing is allocated before `initPaging`. -/
def Boot.kernel (boot : Boot) : Kernel where
  mem := boot.mem
  ram := boot.ram
  heaps := fun _ => ⟨0, 0, 0, 0, 0, 0⟩
  kernelHeap := 0
  placementAddress := boot.placementAddress
  frames := boot.bitmap
  fallOff := boot.fallOff
  tables := fun _ => .zero
  dirs := fun _ => .zero
  kernelDir := 0
  currentDir := 0

/-- Allocates memory for a kernel section. The mask `-(PAGE_SIZE - 1)` keeps bit 0. -/
def allocKernelSection (kmalloc : Kmalloc) (sec : Option SectionHeader) (st : Kernel)
    : Option Kernel :=
  match sec with
  | none => some st
  | some sec =>
      let start := sec.addr &&& (wordSize - 4095)
      let stop := u32 (sec.addr + sec.size) &&& (wordSize - 4095)
      let start := if sec.addr &&& 4095 ≠ 0 then sub32 start pageSize else start
      allocFramesMirrored kmalloc start stop true 1
        (if sec.flags &&& shfWrite ≠ 0 then 1 else 0) st

def kernelSectionNames : List String :=
  [".text", ".data", ".bss", ".symtab", ".strtab", ".shstrtab"]

/-- The first part of `initPaging`: the bitmap gets `nframes / 32` bytes, of which all are
cleared, and an empty kernel directory is placed behind it.
-/
def initKernelDir (boot : Boot) : Option Kernel := do
  let (_, _, st) ← kmalloc 1 (nframes / 32) 0 false boot.kernel
  let st := { st with
    frames := fun word => if word < nframes / 32 / 4 then 0#32 else st.frames word }
  let (dir, _, st) ← kmalloc 1 8196 1 false st
  some { st with
    kernelDir := dir
    currentDir := dir
    dirs := update st.dirs dir { PageDir.zero with physicalAddr := u32 (dir + 4096) } }

/-- The page tables of the initial kernel heap are made before it is mapped. -/
def initKheapTables (st : Kernel) : Option Kernel :=
  forPages (fun i st => do
      let (_, st) ← getPage (kmalloc 1) i true st.kernelDir st
      some st)
    (kheapStart + heapMinSize) pageLoopFuel kheapStart st

/-- The memory below the kernel's end is mapped to itself: section by section when GRUB
passed a section table, as a whole otherwise.
-/
def mirrorKernel (boot : Boot) (st : Kernel) : Option Kernel :=
  match boot.sections with
  | some lookup =>
      (allocFramesMirrored (kmalloc 1) 0 boot.start true 0 0 st).bind
        (kernelSectionNames.foldlM
          (fun st name => allocKernelSection (kmalloc 1) (lookup name) st))
  | none => allocFramesMirrored (kmalloc 1) 0 st.placementAddress true 1 0 st

def initPaging (boot : Boot) : Option Kernel := do
  let st ← initKernelDir boot
  let st ← initKheapTables st
  let (kheapAddr, _, st) ← kmalloc 1 28 0 false st
  let st ← mirrorKernel boot st
  let st ← allocFramesMirrored (kmalloc 1) boot.kernelEnd (u32 (st.placementAddress + pageSize))
    true 1 0 st
  let st ← allocFrames (kmalloc 1) kheapStart (kheapStart + heapMinSize) true 1 1 st
  let st := { st with currentDir := st.kernelDir }
  let st ← createHeap kheapAddr st.kernelDir kheapStart (kheapStart + heapMinSize) kheapMax 1 0 st
  some { st with kernelHeap := kheapAddr }

end DeadKernel
