import DeadKernel.Memory.Boot
import DeadKernel.Memory.DirectoryRelease
import DeadKernel.Multitasking.Tasks

/-! Tasks from ELF images: how `makeTaskFromELF` builds an address space and fills it, and how
`destroyTask` takes it down again.
The kernel's own memory is `mem`, which all directories share; a task's pages are read and written
through its page tables, in `ram`.
-/

namespace DeadKernel

open Words

-----------------------------------------------------------------------------------------
-- ELF objects
-----------------------------------------------------------------------------------------

/-- A section header of an object that is loaded. -/
structure ImageSection extends SectionHeader where
  type : Nat
  addr_lt : addr < wordSize
  size_lt : size < wordSize

/-- A program header; the loader does not read `memsz`. -/
structure ProgramHeader where
  type : Nat
  offset : Nat
  vaddr : Nat
  filesz : Nat
  memsz : Nat
  vaddr_lt : vaddr < wordSize
  filesz_lt : filesz < wordSize
  memsz_lt : memsz < wordSize

/-- `image` are the bytes from `header` on, which the kernel has in its memory. -/
structure ElfObj where
  address : Nat
  entry : Nat
  sections : List ImageSection
  programs : List ProgramHeader
  image : Nat → UInt8

abbrev eshtProgbits : Nat := 1
abbrev eshtNobits : Nat := 8
abbrev ptLoad : Nat := 1

/-- `-(PAGE_SIZE - 1)`, which also keeps the lowest bit. -/
abbrev sectionMask : Nat := wordSize - (pageSize - 1)

def ImageSection.loaded (section_ : ImageSection) : Bool :=
  section_.type = eshtProgbits ∨ section_.type = eshtNobits

def ImageSection.writable (section_ : ImageSection) : Bool :=
  0 < section_.flags &&& shfWrite

/-- The bounds of the loop over the pages of a section. -/
def ImageSection.start (section_ : ImageSection) : Nat :=
  let start := section_.addr &&& sectionMask
  if section_.addr &&& (pageSize - 1) ≠ 0 then sub32 start pageSize else start

def ImageSection.stop (section_ : ImageSection) : Nat :=
  let stop := u32 (section_.addr + section_.size) &&& sectionMask
  if u32 (section_.addr + section_.size) &&& (pageSize - 1) ≠ 0 then u32 (stop + pageSize)
  else stop

-----------------------------------------------------------------------------------------
-- Address spaces of tasks
-----------------------------------------------------------------------------------------

abbrev baseProcessEsp : Nat := 0xB0000000
abbrev processStackSize : Nat := 0x4000
abbrev heapStart : Nat := 0x90000000
abbrev heapMax : Nat := 0xA0000000
abbrev sizeofTask : Nat := 108
abbrev sizeofHeap : Nat := 28

/-- `switchPageDir`: the directory that was in use, and the state. -/
def switchPageDir (dir : Nat) (st : Kernel) : Nat × Kernel :=
  (st.currentDir, { st with currentDir := dir })

/-- `for (i = start; i > stop; i -= PAGE_SIZE)`. -/
def forPagesDown (body : Nat → Kernel → Option Kernel) (stop : Nat)
    : Nat → Nat → Kernel → Option Kernel
  | 0, _, _ => none
  | fuel + 1, i, st =>
      if stop < i then (body i st).bind (forPagesDown body stop fuel (sub32 i pageSize))
      else some st

/-- The body of the loops of `allocFrames` and `allocFramesReversed`. -/
def allocPage (kmalloc : Kmalloc) (makePage : Bool) (isKernel isWriteable i : Nat) (st : Kernel)
    : Option Kernel := do
  let (page, st) ← getPage kmalloc i makePage st.currentDir st
  let page ← page
  allocFrame page isKernel isWriteable st

/-- Maps virtual memory to free physical frames (reversed). -/
def allocFramesReversed (kmalloc : Kmalloc) (start stop : Nat) (makePage : Bool)
    (isKernel isWriteable : Nat) (st : Kernel)
    : Option Kernel :=
  let len := sub32 stop start
  forPagesDown (allocPage kmalloc makePage isKernel isWriteable) start pageLoopFuel
    (u32 (start + len)) st

def createStack (kmalloc : Kmalloc) (newStart size : Nat) (isKernel : Bool) (st : Kernel)
    : Option Kernel :=
  allocFramesReversed kmalloc (sub32 newStart size) newStart true (if isKernel then 1 else 0) 1 st

/-- Where the running directory maps an address. -/
def Kernel.translate (st : Kernel) (address : Nat) : Option (Nat × Nat) :=
  let page := st.entry st.currentDir (address / pageSize)
  if page.present then some (page.frame, address % pageSize) else none

/-- A byte as an address space shows it. -/
def Kernel.virtByte (st : Kernel) (dir address : Nat) : Option UInt8 :=
  let page := st.entry dir (address / pageSize)
  if page.present then some (st.ram page.frame (address % pageSize)) else none

/-- The kernel writes read-only pages too, but an address without a page ends in a panic. -/
def storeByte (address : Nat) (byte : UInt8) (st : Kernel) : Option Kernel :=
  (st.translate address).map (fun (frame, offset) =>
    { st with ram := update st.ram frame (update (st.ram frame) offset byte) })

/-- The loop of `memcpy`, with `len` bytes to go and `k` bytes copied, to pages of the running
directory.
-/
def copyBytes (source : Nat → UInt8) : Nat → Nat → Nat → Kernel → Option Kernel
  | 0, _, _, st => some st
  | len + 1, k, dest, st =>
      (storeByte dest (source k) st).bind (copyBytes source len (k + 1) (u32 (dest + 1)))

/-- `createHeap` for a task: the header of its only chunk lies in the task's pages. -/
def createTaskHeap (heap dir : Nat) (st : Kernel) : Option Kernel := do
  let st ← createHeap heap dir heapStart (heapStart + heapMinSize) heapMax 0 0 st
  copyBytes (fun k => st.mem (heapStart + k)) minChunkSize 0 heapStart st

/-- The body of the loop over the sections. -/
def loadSection (kmalloc : Kmalloc) (section_ : ImageSection) (st : Kernel) : Option Kernel :=
  if section_.loaded then
    allocFrames kmalloc section_.start section_.stop true 0 (if section_.writable then 1 else 0) st
  else some st

/-- The body of the loop over the program headers. -/
def loadSegment (hdr : ElfObj) (ph : ProgramHeader) (st : Kernel) : Option Kernel :=
  if ph.type = ptLoad
  then copyBytes (fun k => hdr.image (u32 (ph.offset + k))) ph.filesz 0 ph.vaddr st
  else some st

/-- What `makeTaskFromELF` does in the new address space. -/
def fillSpace (kmalloc : Kmalloc) (hdr : ElfObj) (heap dir : Nat) (st : Kernel)
    : Option Kernel := do
  let st ← createStack kmalloc baseProcessEsp processStackSize false st
  let st ← allocFrames kmalloc heapStart (heapStart + heapMinSize) true 0 1 st
  let st ← createTaskHeap heap dir st
  let st ← hdr.sections.foldlM (fun st section_ => loadSection kmalloc section_ st) st
  hdr.programs.foldlM (fun st ph => loadSegment hdr ph st) st

/-- The blocks that a new task is given, and the memory behind `makeTaskFromELF`. -/
structure NewSpace where
  task : Nat
  dir : Nat
  heap : Nat
  memory : Kernel

/-- The memory side of `makeTaskFromELF`; `src` is the kernel task's directory. -/
def makeSpace (kmalloc : Kmalloc) (hdr : ElfObj) (src : Nat) (st : Kernel) : Option NewSpace := do
  let (task, _, st) ← kmalloc sizeofTask 0 false st
  let (dir, st) ← cloneDir kmalloc src st
  let (heap, _, st) ← kmalloc sizeofHeap 0 false st
  let (savedDir, st) := switchPageDir dir st
  let st ← fillSpace kmalloc hdr heap dir st
  some ⟨task, dir, heap, (switchPageDir savedDir st).2⟩

-----------------------------------------------------------------------------------------
-- Tasks and their memory
-----------------------------------------------------------------------------------------

structure System where
  memory : Kernel
  tasking : Tasking

abbrev userCodeSegment : Nat := 0x1B
abbrev userDataSegment : Nat := 0x23

/-- The bits `r0` and `IF`. -/
abbrev newFlags : Nat := 0x202

/-- What `makeTaskFromELF` stores in the new task. -/
def newTask (hdr : ElfObj) (space : NewSpace) : Task :=
  { Task.zero with
    elfObj := hdr.address
    status := .created
    time := 0
    pageDir := space.dir
    heap := space.heap
    regs := { CPURegisters.zero with
      eip := hdr.entry
      cr3 := (space.memory.dirs space.dir).physicalAddr
      val0 := baseProcessEsp
      cs := userCodeSegment
      ds := userDataSegment
      val1 := userDataSegment
      eflags := newFlags } }

def makeTaskFromELF (kmalloc : Kmalloc) (hdr : ElfObj) (sys : System) : Option (Nat × System) := do
  let src := (sys.tasking.tasks sys.tasking.kernelTask).pageDir
  let space ← makeSpace kmalloc hdr src sys.memory
  some (space.task, {
    memory := space.memory
    tasking := allocTask space.task (newTask hdr space) sys.tasking })

/-- `destroyTask`: the directory is released, and the task's own block. -/
def System.destroyTask (kfree : Kfree) (task : Nat) (sys : System) : Option System := do
  let memory ← freeDir kfree (sys.tasking.tasks (.task task)).pageDir sys.memory
  let memory ← kfree task memory
  some { memory, tasking := DeadKernel.destroyTask (.task task) sys.tasking }

end DeadKernel
