import DeadKernel.Memory.Machine

/-! The frame bitmap, page-table entries and page directories. -/

namespace DeadKernel

open Words

-----------------------------------------------------------------------------------------
-- The frame bitmap
-----------------------------------------------------------------------------------------

/-- `READ_FRAME`, for an address. -/
def readFrame (frames : Nat → BitVec 32) (address : Nat) : Bool :=
  decide (0#32 < frames (address / pageSize / 32) &&& (1#32 <<< (address / pageSize % 32)))

/-- `SET_FRAME`, for an address. -/
def setFrame (frames : Nat → BitVec 32) (address : Nat) : Nat → BitVec 32 :=
  update frames (address / pageSize / 32)
    (frames (address / pageSize / 32) ||| (1#32 <<< (address / pageSize % 32)))

/-- `CLEAR_FRAME`, for an address. -/
def clearFrame (frames : Nat → BitVec 32) (address : Nat) : Nat → BitVec 32 :=
  update frames (address / pageSize / 32)
    (frames (address / pageSize / 32) &&& ~~~ (1#32 <<< (address / pageSize % 32)))

/-- The inner loop of `firstFrame`: the lowest clear bit of one word. -/
def firstClearBit (word : BitVec 32) : Option Nat :=
  (List.range 32).find? (fun j => word &&& (1#32 <<< j) = 0#32)

/-- The first clear bit of the bitmap. The function has no `return` behind its loops, so
a full bitmap yields whatever its caller finds in the result register.
-/
def firstFrame (st : Kernel) : Nat :=
  ((List.range (nframes / 32)).findSome? (fun i =>
    if st.frames i ≠ 0xFFFFFFFF#32 then (firstClearBit (st.frames i)).map (i * 32 + ·)
    else none)).getD st.fallOff

-----------------------------------------------------------------------------------------
-- Page-table entries
-----------------------------------------------------------------------------------------

/-- Connects the page to the specified frame; a busy frame is not refused. -/
def linkFrame (ref : PageRef) (alignedAddress isKernel isWriteable : Nat) (st : Kernel)
    : Kernel :=
  if (st.page ref).frame ≠ 0 then st
  else
    let st := { st with frames := setFrame st.frames alignedAddress }
    st.setPage ref
      { st.page ref with
        present := true
        rw := isWriteable ≠ 0
        user := isKernel = 0
        frame := alignedAddress / pageSize
        isKernel := st.currentDir = st.kernelDir }

/-- Connects the page to the first free frame, or panics when `firstFrame` yields -1. -/
def allocFrame (ref : PageRef) (isKernel isWriteable : Nat) (st : Kernel) : Option Kernel :=
  if (st.page ref).frame ≠ 0 then some st
  else
    let frame := firstFrame st
    if frame = wordSize - 1 then none
    else
      let st := { st with frames := setFrame st.frames (u32 (frame * pageSize)) }
      some (st.setPage ref
        { st.page ref with
          present := true
          rw := isWriteable ≠ 0
          user := isKernel = 0
          frame := frame % 1048576
          isKernel := st.currentDir = st.kernelDir })

/-- Frees the frame from the page. -/
def freeFrame (ref : PageRef) (st : Kernel) : Kernel :=
  let frame := (st.page ref).frame
  if frame = 0 then st
  else
    let st := { st with frames := clearFrame st.frames (frame * pageSize) }
    st.setPage ref { st.page ref with present := false, frame := 0 }

-----------------------------------------------------------------------------------------
-- Page directories
-----------------------------------------------------------------------------------------

/-- `_kmalloc(size, align, phys)`: the block's address, the value stored through `phys` when
that pointer is given, and the state after the call, if the call returns.
-/
abbrev Kmalloc := Nat → Nat → Bool → Kernel → Option (Nat × Nat × Kernel)

def addr2Frame (address : Nat) : Nat := address / pageSize
def pageIndex (address : Nat) : Nat := addr2Frame address / 1024
def pageOffset (address : Nat) : Nat := addr2Frame address % 1024

/-- Retrieves a page from a page directory, making its table when asked to. The entry is
looked up again after the allocation, as the source does through `dir->tables`.
-/
def getPage (kmalloc : Kmalloc) (address : Nat) (make : Bool) (dir : Nat) (st : Kernel)
    : Option (Option PageRef × Kernel) :=
  if (st.dirs dir).tables (pageIndex address) ≠ 0 then
    some (some ((st.dirs dir).tables (pageIndex address), pageOffset address), st)
  else if make then do
    let (table, physAddress, st) ← kmalloc 4096 1 true st
    let st := { st with
      tables := update st.tables table PageTable.zero
      dirs := update st.dirs dir { st.dirs dir with
        tables := update (st.dirs dir).tables (pageIndex address) table
        tablesPhysical :=
          update (st.dirs dir).tablesPhysical (pageIndex address) (physAddress ||| 0x7) } }
    some (some (table, pageOffset address), st)
  else some (none, st)

/-- `for (i = start; i < stop; i += PAGE_SIZE)`. A loop of more than 2^21 rounds has wrapped
around the address space and never ends.
-/
def forPages (body : Nat → Kernel → Option Kernel) (stop : Nat)
    : Nat → Nat → Kernel → Option Kernel
  | 0, _, _ => none
  | fuel + 1, i, st =>
      if i < stop then (body i st).bind (forPages body stop fuel (u32 (i + pageSize)))
      else some st

def pageLoopFuel : Nat := 2097152

/-- Mirrors virtual memory to physical memory. Both bounds are rounded with an exclusive or,
not down.
-/
def allocFramesMirrored (kmalloc : Kmalloc) (start stop : Nat) (makePage : Bool)
    (isKernel isWriteable : Nat) (st : Kernel)
    : Option Kernel :=
  let start := start ^^^ (if start ≠ 0 then pageSize - 1 else 0)
  let stop := u32 ((stop ^^^ (pageSize - 1)) + pageSize)
  let len := sub32 stop start
  forPages (fun i st => do
      let (page, st) ← getPage kmalloc i makePage st.currentDir st
      let page ← page
      some (linkFrame page i isKernel isWriteable st))
    (u32 (start + len)) pageLoopFuel start st

/-- Maps virtual memory to free physical frames. -/
def allocFrames (kmalloc : Kmalloc) (start stop : Nat) (makePage : Bool)
    (isKernel isWriteable : Nat) (st : Kernel)
    : Option Kernel :=
  let len := sub32 stop start
  forPages (fun i st => do
      let (page, st) ← getPage kmalloc i makePage st.currentDir st
      let page ← page
      allocFrame page isKernel isWriteable st)
    (u32 (start + len)) pageLoopFuel start st

end DeadKernel
