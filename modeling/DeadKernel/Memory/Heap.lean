import DeadKernel.Memory.Paging

/-! The boundary-tag allocator: chunk headers, the sorted free list, growth and shrinking.
A chunk at `p` has its `prevFoot` word at `p`, its `head` word at `p + 4` and its list node at
`p + 8`; a node has its `next` word first and its `prev` word behind it.
-/

namespace DeadKernel

open Words Rings

-----------------------------------------------------------------------------------------
-- Chunk headers
-----------------------------------------------------------------------------------------

abbrev pinuseBit : Nat := 1
abbrev cinuseBit : Nat := 2
abbrev inuseBits : Nat := 3
abbrev minChunkSize : Nat := 16
abbrev chunkOverhead : Nat := 4
abbrev minRequest : Nat := 11
abbrev heapMinSize : Nat := 0x100000

/-- `& ~(FLAG_BITS)`, which is also `& ~KMALLOC_ALIGN_MASK`. -/
def clearFlags (word : Nat) : Nat := word &&& (wordSize - 8)

def headWord (m : Mem) (chunk : Nat) : Nat := load32 m (chunk + 4)
def setHeadWord (m : Mem) (chunk word : Nat) : Mem := store32 m (chunk + 4) word
def prevFoot (m : Mem) (chunk : Nat) : Nat := load32 m chunk

def chunksize (m : Mem) (chunk : Nat) : Nat := clearFlags (headWord m chunk)
def pinuse (m : Mem) (chunk : Nat) : Bool := headWord m chunk &&& pinuseBit ≠ 0
def cinuse (m : Mem) (chunk : Nat) : Bool := headWord m chunk &&& cinuseBit ≠ 0
def okInuse (m : Mem) (chunk : Nat) : Bool := headWord m chunk &&& inuseBits ≠ pinuseBit
def okAddress (address : Nat) (heap : Heap) : Bool :=
  heap.startAddr ≤ address ∧ address < heap.endAddr

def chunkPlusOffset (chunk size : Nat) : Nat := u32 (chunk + size)
def chunkMinusOffset (chunk size : Nat) : Nat := sub32 chunk size
def chunk2Mem (chunk : Nat) : Nat := u32 (chunk + 8)
def mem2Chunk (ptr : Nat) : Nat := sub32 ptr 8

def padRequest (req : Nat) : Nat := clearFlags (u32 (req + chunkOverhead + 7))
def request2Size (req : Nat) : Nat := if req < minRequest then minChunkSize else padRequest req

def setPinuse (chunk : Nat) (m : Mem) : Mem :=
  setHeadWord m chunk (headWord m chunk ||| pinuseBit)

/-- `head &= ~PINUSE_BIT`. -/
def clearPinuse (chunk : Nat) (m : Mem) : Mem :=
  setHeadWord m chunk (headWord m chunk &&& (wordSize - 2))

def setInuse (chunk size : Nat) (m : Mem) : Mem :=
  let m := setHeadWord m chunk ((headWord m chunk &&& pinuseBit) ||| cinuseBit ||| size)
  setPinuse (chunkPlusOffset chunk size) m

def setSizeAndPinuse (chunk size : Nat) (m : Mem) : Mem :=
  setHeadWord m chunk (size ||| pinuseBit)

def setFoot (chunk size : Nat) (m : Mem) : Mem :=
  store32 m (chunkPlusOffset chunk size) size

-----------------------------------------------------------------------------------------
-- The free list
-----------------------------------------------------------------------------------------

/-- List nodes in memory: the `next` word first, the `prev` word behind it. -/
def nodeLinks : LinkStore Mem Nat where
  next m node := load32 m node
  prev m node := load32 m (node + 4)
  setNext m node target := store32 m node target
  setPrev m node target := store32 m (node + 4) target

/-- The list head of a `Heap_t`. -/
def headOf (heap : Nat) : Nat := heap + 20

/-- `list_entry` and the node of a chunk. -/
def chunkOf (node : Nat) : Nat := sub32 node 8
def nodeOf (chunk : Nat) : Nat := chunk + 8

def listEmpty (head : Nat) (m : Mem) : Bool := nodeLinks.next m head = head

def listAddTail (new head : Nat) (m : Mem) : Mem :=
  nodeLinks.link new (nodeLinks.prev m head) head m

def listDelEntry (entry : Nat) (m : Mem) : Mem :=
  nodeLinks.join (nodeLinks.prev m entry) (nodeLinks.next m entry) m

/-- A walk of more than 2^32 nodes has entered a cycle that misses the list head. -/
def listFuel : Nat := 4294967296

/-- The loop of `findSmallestChunk` and `insertChunk`: the first node from `iter` on whose
chunk is large enough, or the list head.
-/
def firstFitting (size head : Nat) (m : Mem) : Nat → Nat → Option Nat
  | 0, _ => none
  | fuel + 1, iter =>
      if iter = head then some head
      else if size ≤ chunksize m (chunkOf iter) then some iter
      else firstFitting size head m fuel (nodeLinks.next m iter)

/-- The smallest chunk of at least `size` bytes, or 0. -/
def findSmallestChunk (size head : Nat) (m : Mem) : Option Nat := do
  let iter ← firstFitting size head m listFuel (nodeLinks.next m head)
  some (if iter = head then 0 else chunkOf iter)

def insertChunk (chunk head : Nat) (m : Mem) : Option Mem :=
  if listEmpty head m then some (listAddTail (nodeOf chunk) head m)
  else do
    let iter ← firstFitting (chunksize m chunk) head m listFuel (nodeLinks.next m head)
    some (listAddTail (nodeOf chunk) iter m)

def removeChunk (chunk : Nat) (m : Mem) : Mem := listDelEntry (nodeOf chunk) m

/-- The loop of `alloc` that looks for the free node of highest address. -/
def highestNode (head : Nat) (m : Mem) : Nat → Nat → Nat → Option Nat
  | 0, _, _ => none
  | fuel + 1, iter, top =>
      if iter = head then some top
      else highestNode head m fuel (nodeLinks.next m iter) (if top < iter then iter else top)

-----------------------------------------------------------------------------------------
-- Heaps
-----------------------------------------------------------------------------------------

def Kernel.setHeap (st : Kernel) (heap : Nat) (value : Heap) : Kernel :=
  { st with heaps := update st.heaps heap value }

def createHeap (placementAddr pageDir start stop max supervisor readonly : Nat) (st : Kernel)
    : Option Kernel := do
  guard (start % pageSize = 0)
  guard (stop % pageSize = 0)
  let st := st.setHeap placementAddr
    { startAddr := start, endAddr := stop, maxAddr := max, supervisor, readonly, pageDir }
  let head := headOf placementAddr
  let m := nodeLinks.setPrev (nodeLinks.setNext st.mem head head) head head
  let holeSize := sub32 stop start
  let m := store32 m start 0
  let m := setSizeAndPinuse start holeSize m
  let m ← insertChunk start head m
  some { st with mem := m }

/-- `newSize` rounded up to whole pages, as `expand` and `contract` do it. -/
def roundToPage (newSize : Nat) : Nat :=
  if newSize % pageSize ≠ 0 then u32 ((newSize &&& (wordSize - pageSize)) + pageSize)
  else newSize

/-- A page that had no frame shows the contents of the one it was given. -/
def showFrame (address : Nat) (before : Page) (ref : PageRef) (st : Kernel) : Kernel :=
  if before.frame ≠ 0 then st
  else
    { st with mem := fun byte =>
        if address ≤ byte ∧ byte < address + pageSize
        then st.ram (st.page ref).frame (byte - address)
        else st.mem byte }

/-- The body of `expand`'s loop, for the page at offset `i`. -/
def expandPage (kmalloc : Kmalloc) (heap i : Nat) (st : Kernel) : Option Kernel := do
  let address := u32 ((st.heaps heap).startAddr + i)
  let (page, st) ← getPage kmalloc address true (st.heaps heap).pageDir st
  let page ← page
  let before := st.page page
  let st ← allocFrame page (if (st.heaps heap).supervisor ≠ 0 then 1 else 0)
    (if (st.heaps heap).readonly ≠ 0 then 0 else 1) st
  some (showFrame address before page st)

def expand (kmalloc : Kmalloc) (newSize heap : Nat) (st : Kernel) : Option Kernel := do
  let hp := st.heaps heap
  guard (newSize > sub32 hp.endAddr hp.startAddr)
  let newSize := roundToPage newSize
  guard (u32 (hp.startAddr + newSize) ≤ hp.maxAddr)
  let oldSize := sub32 hp.endAddr hp.startAddr
  let st ← forPages (expandPage kmalloc heap) newSize pageLoopFuel oldSize st
  some (st.setHeap heap
    { st.heaps heap with endAddr := u32 ((st.heaps heap).startAddr + newSize) })

/-- The loop of `contract`, which counts pages downwards. A missing page table makes
`getPage` return a null pointer, which the source dereferences.
-/
def contractPages (heap newSize : Nat) : Nat → Nat → Kernel → Option Kernel
  | 0, _, _ => none
  | fuel + 1, i, st =>
      if newSize ≤ i then do
        let (page, st) ← getPage (fun _ _ _ _ => none) (u32 ((st.heaps heap).startAddr + i))
          false (st.heaps heap).pageDir st
        let page ← page
        contractPages heap newSize fuel (sub32 i pageSize) (freeFrame page st)
      else some st

def contract (newSize heap : Nat) (st : Kernel) : Option (Nat × Kernel) := do
  let hp := st.heaps heap
  guard (newSize < sub32 hp.endAddr hp.startAddr)
  let newSize := roundToPage newSize
  let newSize := if newSize < heapMinSize then heapMinSize else newSize
  let oldSize := sub32 hp.endAddr hp.startAddr
  let st ← contractPages heap newSize pageLoopFuel (sub32 oldSize pageSize) st
  some (newSize, st.setHeap heap
    { st.heaps heap with endAddr := u32 ((st.heaps heap).startAddr + newSize) })

/-- The free node of highest address, or 0 when there is none. -/
def topNode (head : Nat) (m : Mem) : Option Nat :=
  if listEmpty head m then some 0 else highestNode head m listFuel (nodeLinks.next m head) 0

/-- Put `topChunk` on the free list as the last chunk of the heap. -/
def putTop (topChunk csize heap : Nat) (m : Mem) (st : Kernel) : Option Kernel :=
  (insertChunk topChunk (headOf heap) (setSizeAndPinuse topChunk csize m)).bind
    (fun m => some { st with mem := m })

/-- The new pages join the chunk of the node `tmp` when it ends at the old end of the heap, or
become a chunk of their own.
-/
def growFrom (oldEndAddr heap : Nat) (st : Kernel) (tmp : Nat) : Option Kernel :=
  let endAddr := (st.heaps heap).endAddr
  let topChunk := chunkOf tmp
  if tmp ≠ 0 ∧ pinuse st.mem topChunk = false ∧ cinuse st.mem topChunk = true then none
  else if tmp ≠ 0 ∧ chunkPlusOffset topChunk (chunksize st.mem topChunk) = oldEndAddr then
    let m := removeChunk topChunk st.mem
    if topChunk = 0 then putTop oldEndAddr (sub32 endAddr oldEndAddr) heap m st
    else putTop topChunk (sub32 endAddr topChunk) heap m st
  else putTop oldEndAddr (sub32 endAddr oldEndAddr) heap st.mem st

/-- `alloc` behind `expand`: the chunk at the old end of the heap is that of the highest node,
if any.
-/
def growTop (oldEndAddr heap : Nat) (st : Kernel) : Option Kernel :=
  (topNode (headOf heap) st.mem).bind (growFrom oldEndAddr heap st)

/-- `alloc` behind `findSmallestChunk`: take `hole`, splitting off what is left of it. -/
def takeHole (nb hole heap : Nat) (st : Kernel) : Option (Nat × Kernel) := do
  let head := headOf heap
  guard (nb ≤ chunksize st.mem hole)
  let m := removeChunk hole st.mem
  if u32 (nb + minChunkSize) ≤ chunksize m hole then
    let nsize := sub32 (chunksize m hole) nb
    let new := chunkPlusOffset hole nb
    let m ← insertChunk new head (setHeadWord m new nsize)
    some (chunk2Mem hole, { st with mem := setInuse hole nb m })
  else
    some (chunk2Mem hole, { st with mem := setInuse hole (chunksize m hole) m })

abbrev Alloc := Nat → Nat → Kernel → Option (Nat × Kernel)

/-- The forward branch of `free`, taken when the next chunk lies outside the heap. -/
def mergeNext (size next heap : Nat) (st : Kernel) : Option (Nat × Kernel) :=
  if okAddress next (st.heaps heap) then some (size, st)
  else if ¬ pinuse st.mem next then none
  else if cinuse st.mem next then some (size, { st with mem := clearPinuse next st.mem })
  else
    let nextsize := chunksize st.mem next
    if (st.heaps heap).endAddr < chunkPlusOffset next nextsize then none
    else some (u32 (size + nextsize), { st with mem := removeChunk next st.mem })

/-- The end of `free`: a block that is left goes on the free list. -/
def listBlock (block size heap : Nat) (st : Kernel) : Option Kernel :=
  if block ≠ 0 ∧ size ≠ 0 then
    (insertChunk block (headOf heap) (setSizeAndPinuse block size st.mem)).bind
      (fun m => some { st with mem := m })
  else some st

/-- `free` behind the merges: shrink the heap when the block is its last one, and put what
is left of the block on the free list.
-/
def releaseBlock (block size heap : Nat) (st : Kernel) : Option Kernel :=
  let hp := st.heaps heap
  if chunkPlusOffset block size = hp.endAddr then
    let oldSize := sub32 hp.endAddr hp.startAddr
    let newSize := sub32 block hp.startAddr
    let newSize := if newSize % pageSize ≠ 0 then u32 (newSize + minChunkSize) else newSize
    (contract newSize heap st).bind (fun (newSize, st) =>
      if sub32 oldSize newSize < size then
        listBlock block (sub32 size (sub32 oldSize newSize)) heap st
      else listBlock 0 0 heap st)
  else listBlock block size heap { st with mem := setFoot block size st.mem }

/-- The backward branch of `free`, taken when the PINUSE flag of the block is clear. -/
def mergePrev (block size heap : Nat) (st : Kernel) : Option (Nat × Nat × Kernel) :=
  if pinuse st.mem block then some (block, size, st)
  else
    let prevsize := prevFoot st.mem block
    let prev := chunkMinusOffset block prevsize
    if ¬ okAddress prev (st.heaps heap) then none
    else some (prev, u32 (size + prevsize), { st with mem := removeChunk prev st.mem })

def free (ptr heap : Nat) (st : Kernel) : Option Kernel :=
  if ptr = 0 then some st
  else if ¬ okAddress ptr (st.heaps heap) then none
  else if ¬ okInuse st.mem (mem2Chunk ptr) then none
  else
    (mergePrev (mem2Chunk ptr) (chunksize st.mem (mem2Chunk ptr)) heap st).bind
      (fun (block, size, st) =>
        (mergeNext size (chunkPlusOffset block size) heap st).bind
          (fun (size, st) => releaseBlock block size heap st))

/-- `palignedAlloc` behind its `alloc`: move the chunk up to a page boundary and leave the
lead as a free chunk.
-/
def carveLead (mem heap : Nat) (st : Kernel) : Option (Nat × Kernel) :=
  let chunk := mem2Chunk mem
  if mem % pageSize = 0 then some (chunk, st)
  else do
    let br := mem2Chunk (u32 ((mem &&& (wordSize - pageSize)) + pageSize))
    let pos := if minChunkSize ≤ sub32 br chunk then br else u32 (br + pageSize)
    let leadsize := sub32 pos chunk
    let newSize := sub32 (chunksize st.mem chunk) leadsize
    let m := setInuse pos newSize st.mem
    let m := setSizeAndPinuse chunk leadsize m
    let m := store32 m pos leadsize
    let m ← insertChunk chunk (headOf heap) m
    some (pos, { st with mem := m })

/-- `palignedAlloc` behind the lead: give back what the chunk does not need. -/
def trimTail (nb chunk heap : Nat) (st : Kernel) : Option Kernel :=
  let csize := chunksize st.mem chunk
  if u32 (nb + minChunkSize) < csize then
    let remainderSize := sub32 csize nb
    let remainder := chunkPlusOffset chunk nb
    let m := setInuse remainder remainderSize (setInuse chunk nb st.mem)
    free (chunk2Mem remainder) heap { st with mem := m }
  else some st

/-- The request that `palignedAlloc` passes on to `alloc`. -/
def alignedRequest (nb : Nat) : Nat := u32 (nb + pageSize + minChunkSize - chunkOverhead)

/-- `palignedAlloc`, over the `alloc` it calls. -/
def palignedAllocWith (alloc : Alloc) (size heap : Nat) (st : Kernel)
    : Option (Nat × Kernel) := do
  let nb := request2Size size
  let (mem, st) ← alloc (alignedRequest nb) heap st
  if mem = 0 then some (mem, st)
  else
    let (chunk, st) ← carveLead mem heap st
    let st ← trimTail nb chunk heap st
    let mem := chunk2Mem chunk
    guard (nb ≤ chunksize st.mem chunk)
    guard (mem % pageSize = 0)
    guard (cinuse st.mem chunk)
    some (mem, st)

/-- `heap_malloc`, over the `alloc` it calls; `phys` says whether the caller wants the
physical address as well.
-/
def heapMallocWith (alloc : Alloc) (heap size align : Nat) (phys : Bool) (st : Kernel)
    : Option (Nat × Nat × Kernel) :=
  if heap = 0 then some (0, 0, st)
  else do
    let (addr, st) ←
      if align ≠ 0 then palignedAllocWith alloc size heap st else alloc size heap st
    if phys then do
      let (page, st) ← getPage (fun _ _ _ _ => none) addr false (st.heaps heap).pageDir st
      let page ← page
      some (addr, u32 ((st.page page).frame * pageSize + addr % pageSize), st)
    else some (addr, 0, st)

/-- `_kmalloc` before there is a kernel heap: memory is taken from the placement address. -/
def placementKmalloc (size align : Nat) (st : Kernel) : Nat × Nat × Kernel :=
  let aligned := st.placementAddress &&& (wordSize - pageSize)
  let address := if align = 1 ∧ aligned ≠ 0 then u32 (aligned + pageSize)
    else st.placementAddress
  (address, address, { st with placementAddress := u32 (address + size) })

/-- `_kmalloc`, over the `alloc` it calls. -/
def kmallocWith (alloc : Alloc) : Kmalloc := fun size align phys st =>
  if st.kernelHeap ≠ 0 then heapMallocWith alloc st.kernelHeap size align phys st
  else some (placementKmalloc size align st)

/-- `alloc`. Growing the heap may need a page table, which comes from the kernel heap, and
ends in a second attempt; `fuel` bounds the depth of these nested calls.
-/
def alloc : Nat → Alloc
  | 0, _, _, _ => none
  | fuel + 1, size, heap, st => do
      let nb := request2Size size
      let hole ← findSmallestChunk nb (headOf heap) st.mem
      if hole = 0 then
        let hp := st.heaps heap
        let oldSize := sub32 hp.endAddr hp.startAddr
        let st ← expand (kmallocWith (alloc fuel)) (u32 (oldSize + nb)) heap st
        let st ← growTop hp.endAddr heap st
        alloc fuel size heap st
      else takeHole nb hole heap st

def palignedAlloc (fuel : Nat) : Alloc := palignedAllocWith (alloc fuel)

def kmalloc (fuel : Nat) : Kmalloc := kmallocWith (alloc fuel)

end DeadKernel
