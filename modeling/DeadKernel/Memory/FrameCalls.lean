import DeadKernel.Memory.FrameOwnership

/-! Which calls of the frame functions a call of the memory management makes, and in which
states, the growth and the shrinking of heaps included. The definitions follow the functions
they belong to, branch by branch.
-/

namespace DeadKernel

open Words

/-- Calls of the frame functions, each with the state it is made in. -/
abbrev FrameCalls := List (Kernel × FrameCall)

/-- The calls behind a part of the program: none when the part does not return. -/
def callsAfter {Result : Type} (result : Option Result) (calls : Result → FrameCalls) : FrameCalls :=
  result.elim [] calls

-----------------------------------------------------------------------------------------
-- Pages
-----------------------------------------------------------------------------------------

/-- The frame calls of a `_kmalloc` with the given size and alignment. -/
abbrev KmallocCalls := Nat → Nat → Kernel → FrameCalls

def getPageCalls (kmallocCalls : KmallocCalls) (address : Nat) (make : Bool) (dir : Nat)
    (st : Kernel)
    : FrameCalls :=
  if (st.dirs dir).tables (pageIndex address) ≠ 0 then []
  else if make then kmallocCalls 4096 1 st
  else []

def forPagesCalls (body : Nat → Kernel → Option Kernel) (calls : Nat → Kernel → FrameCalls)
    (stop : Nat)
    : Nat → Nat → Kernel → FrameCalls
  | 0, _, _ => []
  | fuel + 1, i, st =>
      if i < stop then
        calls i st
          ++ callsAfter (body i st) (forPagesCalls body calls stop fuel (u32 (i + pageSize)))
      else []

/-- A call on the entry that `getPage` yields. -/
def pageCall (call : Kernel → PageRef → FrameCall) (page : Option PageRef) (st : Kernel)
    : FrameCalls :=
  page.elim [] (fun page => [(st, call st page)])

/-- The round that maps one page with `call`. -/
def mapPageCalls (kmalloc : Kmalloc) (kmallocCalls : KmallocCalls) (makePage : Bool)
    (call : Kernel → PageRef → FrameCall) (i dir : Nat) (st : Kernel)
    : FrameCalls :=
  getPageCalls kmallocCalls i makePage dir st
    ++ callsAfter (getPage kmalloc i makePage dir st) (fun (page, st) => pageCall call page st)

def allocFramesMirroredCalls (kmalloc : Kmalloc) (kmallocCalls : KmallocCalls)
    (start stop : Nat) (makePage : Bool) (isKernel isWriteable : Nat) (st : Kernel)
    : FrameCalls :=
  let start := start ^^^ (if start ≠ 0 then pageSize - 1 else 0)
  let stop := u32 ((stop ^^^ (pageSize - 1)) + pageSize)
  let len := sub32 stop start
  forPagesCalls (fun i st => do
      let (page, st) ← getPage kmalloc i makePage st.currentDir st
      let page ← page
      some (linkFrame page i isKernel isWriteable st))
    (fun i st => mapPageCalls kmalloc kmallocCalls makePage
      (fun _ page => .link page i isKernel isWriteable) i st.currentDir st)
    (u32 (start + len)) pageLoopFuel start st

def allocFramesCalls (kmalloc : Kmalloc) (kmallocCalls : KmallocCalls)
    (start stop : Nat) (makePage : Bool) (isKernel isWriteable : Nat) (st : Kernel)
    : FrameCalls :=
  let len := sub32 stop start
  forPagesCalls (fun i st => do
      let (page, st) ← getPage kmalloc i makePage st.currentDir st
      let page ← page
      allocFrame page isKernel isWriteable st)
    (fun i st => mapPageCalls kmalloc kmallocCalls makePage
      (fun _ page => .alloc page isKernel isWriteable) i st.currentDir st)
    (u32 (start + len)) pageLoopFuel start st

-----------------------------------------------------------------------------------------
-- Heaps
-----------------------------------------------------------------------------------------

def expandPageCalls (kmalloc : Kmalloc) (kmallocCalls : KmallocCalls) (heap i : Nat)
    (st : Kernel)
    : FrameCalls :=
  mapPageCalls kmalloc kmallocCalls true
    (fun st page => .alloc page (if (st.heaps heap).supervisor ≠ 0 then 1 else 0)
      (if (st.heaps heap).readonly ≠ 0 then 0 else 1))
    (u32 ((st.heaps heap).startAddr + i)) (st.heaps heap).pageDir st

def expandCalls (kmalloc : Kmalloc) (kmallocCalls : KmallocCalls) (newSize heap : Nat)
    (st : Kernel)
    : FrameCalls :=
  let hp := st.heaps heap
  if newSize > sub32 hp.endAddr hp.startAddr
      ∧ u32 (hp.startAddr + roundToPage newSize) ≤ hp.maxAddr then
    forPagesCalls (expandPage kmalloc heap) (expandPageCalls kmalloc kmallocCalls heap)
      (roundToPage newSize) pageLoopFuel (sub32 hp.endAddr hp.startAddr) st
  else []

def contractPagesCalls (heap newSize : Nat) : Nat → Nat → Kernel → FrameCalls
  | 0, _, _ => []
  | fuel + 1, i, st =>
      if newSize ≤ i then
        callsAfter (getPage (fun _ _ _ _ => none) (u32 ((st.heaps heap).startAddr + i)) false
            (st.heaps heap).pageDir st)
          (fun (page, st) => page.elim [] (fun page => (st, FrameCall.free page)
            :: contractPagesCalls heap newSize fuel (sub32 i pageSize) (freeFrame page st)))
      else []

def contractCalls (newSize heap : Nat) (st : Kernel) : FrameCalls :=
  let hp := st.heaps heap
  let rounded := roundToPage newSize
  if newSize < sub32 hp.endAddr hp.startAddr then
    contractPagesCalls heap (if rounded < heapMinSize then heapMinSize else rounded) pageLoopFuel
      (sub32 (sub32 hp.endAddr hp.startAddr) pageSize) st
  else []

def releaseBlockCalls (block size heap : Nat) (st : Kernel) : FrameCalls :=
  let hp := st.heaps heap
  if chunkPlusOffset block size = hp.endAddr then
    let newSize := sub32 block hp.startAddr
    contractCalls (if newSize % pageSize ≠ 0 then u32 (newSize + minChunkSize) else newSize) heap st
  else []

def freeCalls (ptr heap : Nat) (st : Kernel) : FrameCalls :=
  if ptr = 0 then []
  else if ¬ okAddress ptr (st.heaps heap) then []
  else if ¬ okInuse st.mem (mem2Chunk ptr) then []
  else
    callsAfter (mergePrev (mem2Chunk ptr) (chunksize st.mem (mem2Chunk ptr)) heap st)
      (fun (block, size, st) =>
        callsAfter (mergeNext size (chunkPlusOffset block size) heap st)
          (fun (size, st) => releaseBlockCalls block size heap st))

def trimTailCalls (nb chunk heap : Nat) (st : Kernel) : FrameCalls :=
  let csize := chunksize st.mem chunk
  if u32 (nb + minChunkSize) < csize then
    let remainderSize := sub32 csize nb
    let remainder := chunkPlusOffset chunk nb
    let m := setInuse remainder remainderSize (setInuse chunk nb st.mem)
    freeCalls (chunk2Mem remainder) heap { st with mem := m }
  else []

/-- The frame calls of an `alloc` with the given size. -/
abbrev AllocCalls := Nat → Nat → Kernel → FrameCalls

def palignedAllocCalls (alloc : Alloc) (allocCalls : AllocCalls) (size heap : Nat) (st : Kernel)
    : FrameCalls :=
  let nb := request2Size size
  allocCalls (alignedRequest nb) heap st
    ++ callsAfter (alloc (alignedRequest nb) heap st) (fun (mem, st) =>
      if mem = 0 then []
      else callsAfter (carveLead mem heap st) (fun (chunk, st) => trimTailCalls nb chunk heap st))

def heapMallocCalls (alloc : Alloc) (allocCalls : AllocCalls) (heap size align : Nat)
    (st : Kernel)
    : FrameCalls :=
  if heap = 0 then []
  else if align ≠ 0 then palignedAllocCalls alloc allocCalls size heap st
  else allocCalls size heap st

def kmallocCallsWith (alloc : Alloc) (allocCalls : AllocCalls) : KmallocCalls :=
  fun size align st =>
    if st.kernelHeap ≠ 0 then heapMallocCalls alloc allocCalls st.kernelHeap size align st
    else []

def allocCalls : Nat → AllocCalls
  | 0, _, _, _ => []
  | fuel + 1, size, heap, st =>
      let nb := request2Size size
      callsAfter (findSmallestChunk nb (headOf heap) st.mem) (fun hole =>
        if hole = 0 then
          let hp := st.heaps heap
          let oldSize := sub32 hp.endAddr hp.startAddr
          expandCalls (kmallocWith (alloc fuel)) (kmallocCallsWith (alloc fuel) (allocCalls fuel))
              (u32 (oldSize + nb)) heap st
            ++ callsAfter (expand (kmallocWith (alloc fuel)) (u32 (oldSize + nb)) heap st)
              (fun st => callsAfter (growTop hp.endAddr heap st) (fun st =>
                allocCalls fuel size heap st))
        else [])

def kmallocCalls (fuel : Nat) : KmallocCalls := kmallocCallsWith (alloc fuel) (allocCalls fuel)

-----------------------------------------------------------------------------------------
-- `initPaging`
-----------------------------------------------------------------------------------------

def allocKernelSectionCalls (sec : Option SectionHeader) (st : Kernel) : FrameCalls :=
  match sec with
  | none => []
  | some sec =>
      let start := sec.addr &&& (wordSize - 4095)
      let stop := u32 (sec.addr + sec.size) &&& (wordSize - 4095)
      let start := if sec.addr &&& 4095 ≠ 0 then sub32 start pageSize else start
      allocFramesMirroredCalls (kmalloc 1) (kmallocCalls 1) start stop true 1
        (if sec.flags &&& shfWrite ≠ 0 then 1 else 0) st

def kernelSectionsCalls (lookup : String → Option SectionHeader)
    : List String → Kernel → FrameCalls
  | [], _ => []
  | name :: rest, st =>
      allocKernelSectionCalls (lookup name) st
        ++ callsAfter (allocKernelSection (kmalloc 1) (lookup name) st)
          (kernelSectionsCalls lookup rest)

def mirrorKernelCalls (boot : Boot) (st : Kernel) : FrameCalls :=
  match boot.sections with
  | some lookup =>
      allocFramesMirroredCalls (kmalloc 1) (kmallocCalls 1) 0 boot.start true 0 0 st
        ++ callsAfter (allocFramesMirrored (kmalloc 1) 0 boot.start true 0 0 st)
          (kernelSectionsCalls lookup kernelSectionNames)
  | none =>
      allocFramesMirroredCalls (kmalloc 1) (kmallocCalls 1) 0 st.placementAddress true 1 0 st

def initKernelDirCalls (boot : Boot) : FrameCalls :=
  kmallocCalls 1 (nframes / 32) 0 boot.kernel
    ++ callsAfter (kmalloc 1 (nframes / 32) 0 false boot.kernel) (fun (_, _, st) =>
      kmallocCalls 1 8196 1 { st with
        frames := fun word => if word < nframes / 32 / 4 then 0#32 else st.frames word })

def initKheapTablesCalls (st : Kernel) : FrameCalls :=
  forPagesCalls (fun i st => do
      let (_, st) ← getPage (kmalloc 1) i true st.kernelDir st
      some st)
    (fun i st => getPageCalls (kmallocCalls 1) i true st.kernelDir st)
    (kheapStart + heapMinSize) pageLoopFuel kheapStart st

def initPagingCalls (boot : Boot) : FrameCalls :=
  initKernelDirCalls boot ++ callsAfter (initKernelDir boot) (fun st =>
    initKheapTablesCalls st ++ callsAfter (initKheapTables st) (fun st =>
      kmallocCalls 1 28 0 st ++ callsAfter (kmalloc 1 28 0 false st) (fun (_, _, st) =>
        mirrorKernelCalls boot st ++ callsAfter (mirrorKernel boot st) (fun st =>
          allocFramesMirroredCalls (kmalloc 1) (kmallocCalls 1) boot.kernelEnd
              (u32 (st.placementAddress + pageSize)) true 1 0 st
            ++ callsAfter (allocFramesMirrored (kmalloc 1) boot.kernelEnd
                (u32 (st.placementAddress + pageSize)) true 1 0 st)
              (fun st => allocFramesCalls (kmalloc 1) (kmallocCalls 1) kheapStart
                (kheapStart + heapMinSize) true 1 1 st)))))

-----------------------------------------------------------------------------------------
-- Runs
-----------------------------------------------------------------------------------------

/-- The page fault handler, on the fields of the saved registers that it looks at. Only a fault
of the kernel in its own directory is resolved; every other one ends in a panic.
-/
def pageFault (kmalloc : Kmalloc) (faultingAddress errCode cr3 cs : Nat) (st : Kernel)
    : Option Kernel :=
  if errCode &&& 1 = 0 ∧ cr3 = (st.dirs st.currentDir).physicalAddr
      ∧ st.currentDir = st.kernelDir ∧ cs &&& 3 = 0 then
    allocFramesMirrored kmalloc faultingAddress (u32 (faultingAddress + pageSize)) true 0 0 st
  else none

inductive BitmapEvent where
  | call (made : FrameCall)
  | mirror (start stop : Nat) (makePage : Bool) (isKernel isWriteable : Nat)
  | fault (faultingAddress errCode cr3 cs : Nat)

def BitmapEvent.run (fuel : Nat) (st : Kernel) : BitmapEvent → Option Kernel
  | .call made => made.run st
  | .mirror start stop makePage isKernel isWriteable =>
      allocFramesMirrored (kmalloc fuel) start stop makePage isKernel isWriteable st
  | .fault faultingAddress errCode cr3 cs =>
      pageFault (kmalloc fuel) faultingAddress errCode cr3 cs st

def BitmapEvent.calls (fuel : Nat) (st : Kernel) : BitmapEvent → FrameCalls
  | .call made => [(st, made)]
  | .mirror start stop makePage isKernel isWriteable =>
      allocFramesMirroredCalls (kmalloc fuel) (kmallocCalls fuel) start stop makePage isKernel
        isWriteable st
  | .fault faultingAddress errCode cr3 cs =>
      if errCode &&& 1 = 0 ∧ cr3 = (st.dirs st.currentDir).physicalAddr
          ∧ st.currentDir = st.kernelDir ∧ cs &&& 3 = 0 then
        allocFramesMirroredCalls (kmalloc fuel) (kmallocCalls fuel) faultingAddress
          (u32 (faultingAddress + pageSize)) true 0 0 st
      else []

/-- The calls of a run, up to the event that does not return, if there is one. -/
def runCalls (fuel : Nat) : List BitmapEvent → Kernel → FrameCalls
  | [], _ => []
  | event :: rest, st => event.calls fuel st ++ callsAfter (event.run fuel st) (runCalls fuel rest)

/-- All calls from the start of `initPaging` on. -/
def bootCalls (boot : Boot) (fuel : Nat) (events : List BitmapEvent) : FrameCalls :=
  initPagingCalls boot ++ callsAfter (initPaging boot) (runCalls fuel events)

end DeadKernel
