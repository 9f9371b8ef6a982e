import DeadKernel.Loading.AddedPages
import DeadKernel.Memory.BlocksAside

/-! What `makeTaskFromELF` has done to memory when it returns, part by part: the new directory, the
pages for stack, heap and sections, the header of the task's heap and the copied segments.
-/

namespace DeadKernel

open Words

-----------------------------------------------------------------------------------------
-- Bytes written through the page tables
-----------------------------------------------------------------------------------------

theorem u32_add (value offset : Nat) : u32 (u32 value + offset) = u32 (value + offset) := by
  simp only [u32, Nat.mod_add_mod]

/-- The frame and the offset behind an address. -/
def Kernel.place (st : Kernel) (dir address : Nat) : Nat × Nat :=
  ((st.entry dir (address / pageSize)).frame, address % pageSize)

theorem storeByte_spec {address : Nat} {byte : UInt8} {st st' : Kernel}
    (run : storeByte address byte st = some st')
    : (st.entry st.currentDir (address / pageSize)).present = true
      ∧ ∃ ram, st' = { st with ram }
        ∧ ∀ place : Nat × Nat, ram place.1 place.2
          = if place = st.place st.currentDir address then byte else st.ram place.1 place.2 := by
  obtain ⟨⟨frame, offset⟩, found, rfl⟩ := Option.map_eq_some_iff.mp run
  simp only [Kernel.translate, Option.ite_none_right_eq_some, Option.some.injEq,
    Prod.mk.injEq] at found
  obtain ⟨present, rfl, rfl⟩ := found
  refine ⟨present, _, rfl, fun ⟨frame, offset⟩ => ?_⟩
  simp only [Kernel.place, update, Prod.mk.injEq]
  split
  · rename_i here
    simp [here, update]
  · rename_i elsewhere
    simp [elsewhere]

/-- Only the bytes at the places written change, by induction on the bytes. -/
theorem copyBytes_places {source : Nat → UInt8} {len k dest : Nat} {st st' : Kernel}
    (small : dest < wordSize) (run : copyBytes source len k dest st = some st')
    : ∃ ram, st' = { st with ram } ∧ ∀ place : Nat × Nat,
        (∀ j < len, st.place st.currentDir (u32 (dest + j)) ≠ place) →
        ram place.1 place.2 = st.ram place.1 place.2 := by
  induction len generalizing k dest st with
  | zero => exact ⟨st.ram, (Option.some.inj run).symm, fun _ _ => rfl⟩
  | succ len ih =>
      obtain ⟨mid, one, rest⟩ := Option.bind_eq_some_iff.mp run
      obtain ⟨-, ram, rfl, stored⟩ := storeByte_spec one
      obtain ⟨ram', rfl, kept⟩ := ih (u32_lt _) rest
      refine ⟨ram', rfl, fun place apart => ?_⟩
      rw [kept place (fun j below => ?_)]
      · have first := apart 0 (Nat.succ_pos len)
        rw [Nat.add_zero, u32_of_lt small] at first
        exact (stored place).trans (if_neg first.symm)
      · have later := apart (j + 1) (Nat.succ_lt_succ below)
        rw [u32_add, Nat.add_assoc, Nat.add_comm 1 j]
        exact later

-----------------------------------------------------------------------------------------
-- The header of a task's heap
-----------------------------------------------------------------------------------------

/-- `createHeap` writes to the list head of the `Heap_t` and to the first chunk. -/
theorem createHeap_writes {heap dir start stop max supervisor readonly : Nat} {st made : Kernel}
    (fits : heap + sizeofHeap ≤ wordSize)
    (apart : heap + sizeofHeap ≤ start ∨ start + minChunkSize ≤ heap)
    (created : createHeap heap dir start stop max supervisor readonly st = some made)
    : ∃ value m, made = { st.setHeap heap value with mem := m }
        ∧ ChangedOnly (fun byte => heap ≤ byte ∧ byte < heap + sizeofHeap
            ∨ start ≤ byte ∧ byte < start + minChunkSize) st.mem m := by
  simp only [createHeap, Option.bind_eq_bind, Option.bind_eq_some_iff, Option.guard_eq_some',
    Option.some.injEq] at created
  obtain ⟨-, -, -, -, m, inserted, rfl⟩ := created
  simp only [sizeofHeap, minChunkSize] at fits apart
  refine ⟨_, m, rfl, ?_⟩
  let chunk := setSizeAndPinuse start (sub32 stop start) (store32
    (nodeLinks.setPrev (nodeLinks.setNext st.mem (headOf heap) (headOf heap)) (headOf heap)
      (headOf heap)) start 0)
  have next : nodeLinks.next chunk (headOf heap) = headOf heap := by
    simp only [chunk, nodeLinks, setSizeAndPinuse, setHeadWord, headOf]
    rw [load32_store32_other (by omega), load32_store32_other (by omega),
      load32_store32_other (by omega), load32_store32 (by omega)]
  have prev : nodeLinks.prev chunk (headOf heap) = headOf heap := by
    simp only [chunk, nodeLinks, setSizeAndPinuse, setHeadWord, headOf]
    rw [load32_store32_other (by omega), load32_store32_other (by omega),
      load32_store32 (by omega)]
  have empty : listEmpty (headOf heap) chunk = true := decide_eq_true next
  change insertChunk start (headOf heap) chunk = some m at inserted
  rw [insertChunk, if_pos empty, Option.some.injEq, listAddTail, prev] at inserted
  subst inserted
  simp only [chunk, Rings.LinkStore.link, nodeLinks, nodeOf, headOf, setSizeAndPinuse, setHeadWord,
    sizeofHeap, minChunkSize]
  refine .trans (.store fun byte _ _ => ?_) (.trans (.store fun byte _ _ => ?_)
    (.trans (.store fun byte _ _ => ?_) (.trans (.store fun byte _ _ => ?_)
    (.trans (.store fun byte _ _ => ?_) (.trans (.store fun byte _ _ => ?_)
    (.trans (.store fun byte _ _ => ?_) (.store fun byte _ _ => ?_)))))))
  all_goals omega

section

variable {kmalloc : Kmalloc} {kfree : Kfree} {pool : BlockPool kmalloc kfree}
variable {live : Nat → Prop} {known : Blocks} {dir spare heap : Nat} {first st st' : Kernel}
variable {ram : Nat → Nat → UInt8} {rights : Rights}

/-- The kernel's blocks and its own heap lie apart from a task's heap. -/
structure KernelLayout (pool : BlockPool kmalloc kfree) (st : Kernel) : Prop where
  blocks : ∀ {held st size align phys block physAddr st'}, pool.Holds held st →
    kmalloc size align phys st = some (block, physAddr, st') →
    block ≠ st.kernelHeap ∧ block + size ≤ wordSize
      ∧ (block + size ≤ heapStart ∨ heapStart + minChunkSize ≤ block)
  record : st.kernelHeap + sizeofHeap ≤ heapStart ∨ heapStart + minChunkSize ≤ st.kernelHeap
  heapPage : ¬ pool.own (heapStart / pageSize)

/-- The block for a task's `Heap_t`, after the request for it. -/
structure HeapBlock (known : Blocks) (first : Kernel) (heap : Nat) : Prop where
  isKnown : known heap = some sizeofHeap
  notKernel : heap ≠ first.kernelHeap
  fits : heap + sizeofHeap ≤ wordSize
  apart : heap + sizeofHeap ≤ heapStart ∨ heapStart + minChunkSize ≤ heap

/-- Contents of frames do not matter to the kernel heap. -/
theorem Spaces.withRam {held : Blocks} (h : Spaces pool live held st) (ram : Nat → Nat → UInt8)
    : Spaces pool live held { st with ram } where
  holds := pool.keeps h.holds ⟨rfl, rfl, rfl, rfl, fun _ _ _ => rfl, fun _ _ => rfl,
    fun _ _ => rfl, fun _ _ => rfl, fun _ _ _ => rfl, fun _ _ _ => id⟩
  owned := h.owned.of_dirs (fun _ => id) rfl (fun _ _ => rfl)

/-- Nor does the directory that is in use. -/
theorem Spaces.switch {held : Blocks} (h : Spaces pool live held st) (currentDir : Nat)
    : Spaces pool live held { st with currentDir } where
  holds := pool.keeps h.holds ⟨rfl, rfl, rfl, rfl, fun _ _ _ => rfl, fun _ _ => rfl,
    fun _ _ => rfl, fun _ _ => rfl, fun _ _ _ => rfl, fun _ _ _ => id⟩
  owned := h.owned.of_dirs (fun _ => id) rfl (fun _ _ => rfl)

theorem Filling.withRam (h : Filling pool live known first dir spare ram rights st)
    (ram' : Nat → Nat → UInt8)
    : Filling pool live known first dir spare ram' rights { st with ram := ram' } where
  spaces := by
    obtain ⟨held, spaces, grow⟩ := h.spaces
    exact ⟨held, spaces.withRam ram', grow⟩
  kernelHeap := h.kernelHeap
  kernelDir := h.kernelDir
  currentDir := h.currentDir
  ram := rfl
  marked := h.marked
  pages free := (h.pages free).congr (fun _ _ _ => rfl) (fun _ => id)

theorem KernelLayout.congr (h : KernelLayout pool st) (kernelHeap : st'.kernelHeap = st.kernelHeap)
    : KernelLayout pool st' where
  blocks := h.blocks
  record := by
    rw [kernelHeap]
    exact h.record
  heapPage := h.heapPage

/-- Of the kernel's blocks, `createHeap` writes to the one for the `Heap_t`. -/
theorem createHeap_spec {held : Blocks} {made : Kernel} (layout : KernelLayout pool st)
    (block : HeapBlock held st heap)
    (created : createHeap heap dir heapStart (heapStart + heapMinSize) heapMax 0 0 st = some made)
    : ∃ value m, made = { st.setHeap heap value with mem := m }
        ∧ ChangedOnly (fun byte => heap ≤ byte ∧ byte < heap + sizeofHeap
            ∨ heapStart ≤ byte ∧ byte < heapStart + minChunkSize) st.mem m
        ∧ Rewriting pool.own held st { st.setHeap heap value with mem := m } := by
  obtain ⟨value, m, rfl, changed⟩ := createHeap_writes block.fits block.apart created
  refine ⟨value, m, rfl, changed, ?_⟩
  have record : update st.heaps heap value st.kernelHeap = st.heaps st.kernelHeap :=
    update_other block.notKernel.symm
  refine ⟨rfl, record, rfl, rfl, fun address guarded unheld => changed address
    (fun touched => ?_), fun _ _ => rfl, fun _ _ => rfl, fun _ _ => rfl, fun _ _ _ => rfl,
    fun _ _ _ => id⟩
  rcases touched with inside | header
  · exact unheld heap _ block.isKnown inside
  · have page : address / pageSize = heapStart / pageSize := by
      simp only [heapStart, minChunkSize, pageSize] at header ⊢
      omega
    rcases guarded with isOwn | inRecord
    · rw [page] at isOwn
      exact layout.heapPage isOwn
    · have record := layout.record
      simp only [sizeofHeap] at record
      omega

/-- `createTaskHeap` writes to the block for the `Heap_t`, and to the first chunk of the task's heap
through the page tables.
-/
theorem createTaskHeap_spec {held : Blocks} (layout : KernelLayout pool st)
    (block : HeapBlock held st heap) (run : createTaskHeap heap dir st = some st')
    : ∃ value m ram', st' = { st.setHeap heap value with mem := m, ram := ram' }
        ∧ Rewriting pool.own held st { st.setHeap heap value with mem := m }
        ∧ ∀ place : Nat × Nat,
          (∀ j < minChunkSize, st.place st.currentDir (heapStart + j) ≠ place) →
          ram' place.1 place.2 = st.ram place.1 place.2 := by
  obtain ⟨made, created, copied⟩ := Option.bind_eq_some_iff.mp run
  obtain ⟨value, m, rfl, -, writes⟩ := createHeap_spec layout block created
  obtain ⟨ram', rfl, kept⟩ := copyBytes_places (by decide) copied
  refine ⟨value, m, ram', rfl, writes, fun place apart => kept place (fun j below => ?_)⟩
  rw [u32_of_lt (by simp only [heapStart, minChunkSize, wordSize] at below ⊢; omega)]
  exact apart j below

theorem HeapBlock.later {held : Blocks} (h : HeapBlock known first heap) (grow : known.Grow held)
    (kernelHeap : st.kernelHeap = first.kernelHeap)
    : HeapBlock held st heap where
  isKnown := by
    rw [grow heap (by rw [h.isKnown]; exact Option.some_ne_none _)]
    exact h.isKnown
  notKernel := kernelHeap ▸ h.notKernel
  fits := h.fits
  apart := h.apart

/-- The header goes to the frame of the first page of the task's heap. -/
theorem Filling.createTaskHeap (h : Filling pool live known first dir spare ram rights st)
    (layout : KernelLayout pool first) (block : HeapBlock known first heap)
    (run : createTaskHeap heap dir st = some st')
    : ∃ ram', Filling pool live known first dir spare ram' rights st'
        ∧ (∀ page, st'.entry dir page = st.entry dir page)
        ∧ ∀ place : Nat × Nat, (∀ j < minChunkSize, st.place dir (heapStart + j) ≠ place) →
          ram' place.1 place.2 = ram place.1 place.2 := by
  obtain ⟨held, spaces, grow⟩ := h.spaces
  obtain ⟨value, m, ram', rfl, writes, kept⟩ := createTaskHeap_spec
    (layout.congr h.kernelHeap) (block.later grow h.kernelHeap) run
  have headed : Filling pool live known first dir spare ram rights
      { st.setHeap heap value with mem := m } := {
    spaces := ⟨held, ⟨pool.keeps spaces.holds writes,
      spaces.owned.of_dirs (fun _ => id) rfl (fun _ _ => rfl)⟩, grow⟩
    kernelHeap := h.kernelHeap
    kernelDir := h.kernelDir
    currentDir := h.currentDir
    ram := h.ram
    marked := h.marked
    pages := fun free => (h.pages free).congr (fun _ _ _ => rfl) (fun _ => id)
  }
  refine ⟨ram', headed.withRam ram', fun _ => rfl, fun place apart => ?_⟩
  rw [h.currentDir] at kept
  rw [kept place apart, h.ram]

-----------------------------------------------------------------------------------------
-- The parts of the new address space
-----------------------------------------------------------------------------------------

/-- What the loader grants a page: stack and heap come first, then the sections in their order. -/
def taskRights (sections : List ImageSection) : Rights := fun page =>
  if stackPages page || heapPages page then some true else sectionRights sections page

abbrev Rights.none : Rights := fun _ => Option.none

theorem taskRights_eq (sections : List ImageSection)
    : (fun page => ((Rights.none.visit stackPages true).visit heapPages true page).or
        (sectionRights sections page))
      = taskRights sections := by
  funext page
  simp only [Rights.visit, taskRights]
  cases stackPages page <;> cases heapPages page <;> rfl

/-- What the visits keep, and the header of the task's heap, holds when the copying starts. -/
theorem KeptByVisits.fillSpace {P : Rights → Kernel → Prop} (kept : KeptByVisits kmalloc P)
    (header : ∀ {rights st st'}, P rights st → DeadKernel.createTaskHeap heap dir st = some st' →
      P rights st')
    {hdr : ElfObj} (h : P Rights.none first)
    (run : DeadKernel.fillSpace kmalloc hdr heap dir first = some st')
    : ∃ st, P (taskRights hdr.sections) st
        ∧ hdr.programs.foldlM (fun st ph => loadSegment hdr ph st) st = some st' := by
  simp only [DeadKernel.fillSpace, Option.bind_eq_bind, Option.bind_eq_some_iff] at run
  obtain ⟨stack, makeStack, paged, makePages, headed, makeHeap, st, loaded, copied⟩ := run
  have afterPages := kept.allocFrames (by decide) (by decide) (kept.createStack h makeStack) makePages
  have done := kept.loadSections (header afterPages makeHeap) loaded
  refine ⟨st, ?_, copied⟩
  rw [← taskRights_eq]
  exact done

theorem Filling.restart (h : Filling pool live known first dir spare ram rights st)
    : Filling pool live known st dir spare ram Rights.none st :=
  ⟨h.spaces, rfl, rfl, h.currentDir, h.ram, fun _ => id, fun _ => .start⟩

theorem FillingStart.later (h : FillingStart live first dir spare)
    (filling : Filling pool live known first dir spare ram rights st)
    : FillingStart live st dir spare :=
  ⟨h.alive, filling.kernelDir ▸ h.notKernel, filling.marked 0 h.zero, h.bounded⟩

/-- Everything is in place before the segments are copied. Of the contents of frames only the
header of the task's heap has changed.
-/
theorem Filling.fillSpace (start : FillingStart live first dir spare)
    (h : Filling pool live known first dir spare ram Rights.none first)
    (layout : KernelLayout pool first) (block : HeapBlock known first heap) {hdr : ElfObj}
    (run : fillSpace kmalloc hdr heap dir first = some st')
    : ∃ ram' st, Filling pool live known first dir spare ram' (taskRights hdr.sections) st
        ∧ hdr.programs.foldlM (fun st ph => loadSegment hdr ph st) st = some st'
        ∧ (frameBit st.frames spare = false → (first.entry dir (heapStart / pageSize)).frame = 0 →
            ∀ place : Nat × Nat, (∀ j < minChunkSize, st.place dir (heapStart + j) ≠ place) →
              ram' place.1 place.2 = ram place.1 place.2) := by
  simp only [DeadKernel.fillSpace, Option.bind_eq_bind, Option.bind_eq_some_iff] at run
  obtain ⟨stack, makeStack, paged, makePages, headed, header, st, loaded, copied⟩ := run
  have paging := KeptByVisits.createStack (Filling.visits start) h makeStack
  have afterPages := KeptByVisits.allocFrames (Filling.visits start) (by decide) (by decide) paging
    makePages
  obtain ⟨ram', afterHeader, entries, kept⟩ := afterPages.createTaskHeap layout block header
  have done := KeptByVisits.loadSections (Filling.visits start) afterHeader loaded
  have since := KeptByVisits.loadSections (Filling.visits (start.later afterHeader))
    afterHeader.restart loaded
  refine ⟨ram', st, ?_, copied, fun free empty place apart => kept place (fun j below => ?_)⟩
  · rw [← taskRights_eq]
    exact done
  · have before : frameBit headed.frames spare = false := by
      refine Bool.eq_false_iff.mpr (fun busy => ?_)
      rw [since.marked spare busy] at free
      exact Bool.false_ne_true free.symm
    have vacant : Vacant pool.own dir first (heapStart / pageSize) :=
      ⟨by decide, layout.heapPage, empty⟩
    have mapped := (afterHeader.pages before).added _ true vacant (by decide)
    have same := (since.pages free).steady _ (by decide) layout.heapPage mapped.frame
    have page : (heapStart + j) / pageSize = heapStart / pageSize := by
      simp only [minChunkSize, heapStart, pageSize] at below ⊢
      omega
    have other := apart j below
    rw [Kernel.place, page, same, entries, ← page] at other
    exact other

-----------------------------------------------------------------------------------------
-- The new directory
-----------------------------------------------------------------------------------------

/-- The kernel directory is cloned for a task, before the loader fills the clone. -/
structure OpenedSpace (pool : BlockPool kmalloc kfree) (live : Nat → Prop) (known : Blocks)
    (hdr : ElfObj) (st : Kernel) (space : NewSpace) (first filled : Kernel) : Prop where
  spaces : Spaces pool (fun other => live other ∨ other = space.dir) known first
  notLive : ¬ live space.dir
  kernelHeap : first.kernelHeap = st.kernelHeap
  kernelDir : first.kernelDir = st.kernelDir
  currentDir : first.currentDir = space.dir
  ram : first.ram = st.ram
  marked : ∀ frame, frameBit st.frames frame = true → frameBit first.frames frame = true
  entries : ∀ page < addressPages, ¬ pool.own page →
    first.entry space.dir page = st.entry st.kernelDir page
  block : HeapBlock known first space.heap
  fill : DeadKernel.fillSpace kmalloc hdr space.heap space.dir first = some filled
  memory : space.memory = { filled with currentDir := st.currentDir }

theorem entry_clone {value : PageDir} (copied : ∀ slot < tablesInDir,
    value.tables slot = st.kernelTables slot) {page : Nat} (small : page < addressPages)
    : ({ st with dirs := update st.dirs dir value } : Kernel).entry dir page
      = st.entry st.kernelDir page := by
  have same : value.tables (page / 1024) = (st.dirs st.kernelDir).tables (page / 1024) :=
    copied _ (page_slot small)
  simp only [Kernel.entry, Kernel.entryRef, update_self, same]
  rfl

/-- How the new directory comes about: requests for the task, for the directory and for the
`Heap_t`, and between the last two the slots of the kernel directory are copied.
-/
structure SpaceStages (kmalloc : Kmalloc) (hdr : ElfObj) (st : Kernel) (space : NewSpace)
    (taken served cloned given filled : Kernel)
    : Prop where
  task : ∃ phys, kmalloc sizeofTask 0 false st = some (space.task, phys, taken)
  dir : ∃ phys, kmalloc 8196 1 true taken = some (space.dir, phys, served)
  heap : ∃ phys, kmalloc sizeofHeap 0 false cloned = some (space.heap, phys, given)
  cloneDir : cloneDir kmalloc st.kernelDir taken = some (space.dir, cloned)
  clone : ∃ value : PageDir, cloned = { served with dirs := update served.dirs space.dir value }
    ∧ ∀ slot < tablesInDir, value.tables slot = served.kernelTables slot
  kernelDir : served.kernelDir = st.kernelDir
  fill : DeadKernel.fillSpace kmalloc hdr space.heap space.dir
    { given with currentDir := space.dir } = some filled
  memory : space.memory = { filled with currentDir := given.currentDir }

theorem Spaces.spaceStages {held : Blocks} (h : Spaces pool live held st) {hdr : ElfObj}
    {space : NewSpace} (run : makeSpace kmalloc hdr st.kernelDir st = some space)
    : ∃ taken served cloned given filled,
        SpaceStages kmalloc hdr st space taken served cloned given filled := by
  simp only [makeSpace, Option.bind_eq_bind, Option.bind_eq_some_iff] at run
  obtain ⟨⟨task, taskPhys, taken⟩, taskBlock, ⟨dir, cloned⟩, clone, ⟨heap, heapPhys, given⟩,
    heapBlock, filled, fill, same⟩ := run
  obtain rfl := Option.some.inj same
  obtain ⟨held₁, spaces₁, out₁⟩ := h.request taskBlock
  have request : ∃ phys served, kmalloc 8196 1 true taken = some (dir, phys, served) := by
    simp only [DeadKernel.cloneDir, Option.bind_eq_bind, Option.bind_eq_some_iff] at clone
    obtain ⟨⟨block, phys, served⟩, request, mid, -, result⟩ := clone
    obtain ⟨rfl, -⟩ := Prod.mk.inj (Option.some.inj result)
    exact ⟨phys, served, request⟩
  obtain ⟨phys, served, request⟩ := request
  obtain ⟨held₂, spaces₂, out₂⟩ := spaces₁.request request
  have kernelDir : served.kernelDir = st.kernelDir := out₂.kernelDir.trans out₁.kernelDir
  have notKernel : dir ≠ served.kernelDir := by
    rintro rfl
    exact spaces₁.owned.dirs _ (out₂.kernelDir ▸ spaces₁.owned.kernelDir) out₂.fresh
  obtain ⟨value, copy, copied, -⟩ := cloneDir_kernelDir request notKernel
  have same := (kernelDir ▸ clone : _ = some (dir, cloned)).symm.trans copy
  exact ⟨taken, served, cloned, given, filled, ⟨taskPhys, taskBlock⟩, ⟨phys, request⟩,
    ⟨heapPhys, heapBlock⟩, clone, ⟨value, (Prod.mk.inj (Option.some.inj same)).2, copied⟩, kernelDir,
    fill, rfl⟩

/-- The new directory when the loader starts to fill it. -/
theorem SpaceStages.opened {held : Blocks} {hdr : ElfObj} {space : NewSpace}
    {taken served cloned given filled : Kernel}
    (stages : SpaceStages kmalloc hdr st space taken served cloned given filled)
    (h : Spaces pool live held st) (layout : KernelLayout pool st)
    : ∃ known, held.Grow known
        ∧ OpenedSpace pool live known hdr st space { given with currentDir := space.dir } filled := by
  obtain ⟨_, taskBlock⟩ := stages.task
  obtain ⟨_, dirBlock⟩ := stages.dir
  obtain ⟨_, heapBlock⟩ := stages.heap
  obtain ⟨held₁, spaces₁, out₁⟩ := h.request taskBlock
  have calm₁ := out₁.undisturbed h.owned pool.bounded
  obtain ⟨held₂, spaces₂, grow₂, -, notLive, -⟩ :=
    spaces₁.cloneDir (calm₁.kernelDir ▸ stages.cloneDir)
  obtain ⟨held₃, spaces₃, out₃⟩ := spaces₂.request heapBlock
  have calm₃ := out₃.undisturbed spaces₂.owned pool.bounded
  have placed := layout.blocks spaces₂.holds heapBlock
  obtain ⟨held₄, -, out⟩ := spaces₁.request dirBlock
  have calm := out.undisturbed spaces₁.owned pool.bounded
  obtain ⟨value, rfl, copied⟩ := stages.clone
  have kernelHeap : served.kernelHeap = st.kernelHeap := calm.kernelHeap.trans calm₁.kernelHeap
  refine ⟨held₃, out₁.grow.trans (grow₂.trans out₃.grow), {
    spaces := spaces₃.switch space.dir
    notLive := notLive
    kernelHeap := calm₃.kernelHeap.trans kernelHeap
    kernelDir := calm₃.kernelDir.trans stages.kernelDir
    currentDir := rfl
    ram := calm₃.ram.trans (calm.ram.trans calm₁.ram)
    marked := fun frame busy => calm₃.marked frame (calm.marked frame (calm₁.marked frame busy))
    entries := ?_
    block := ⟨out₃.isHeld, fun same => placed.1 (same.trans calm₃.kernelHeap), placed.2.1,
      placed.2.2⟩
    fill := stages.fill
    memory := ?_ }⟩
  · intro page small notOwn
    have entry₃ := calm₃.entries space.dir (Or.inr rfl) page small notOwn
    refine Eq.trans entry₃ ((entry_clone copied small).trans ?_)
    rw [stages.kernelDir, calm.entries st.kernelDir h.owned.kernelDir page small notOwn]
    exact calm₁.entries st.kernelDir h.owned.kernelDir page small notOwn
  · have current : given.currentDir = st.currentDir :=
      calm₃.currentDir.trans (calm.currentDir.trans calm₁.currentDir)
    rw [stages.memory, current]

/-- The blocks for the task and its `Heap_t` are fresh, and no directory has them. -/
theorem Spaces.openAside {held kept : Blocks} (h : Spaces (pool.aside kept) live held st)
    (layout : KernelLayout pool st) {hdr : ElfObj} {space : NewSpace}
    (run : makeSpace kmalloc hdr st.kernelDir st = some space)
    : kept space.task = none ∧ kept space.heap = none ∧ space.heap ≠ space.task
      ∧ ∃ known first filled,
        Spaces (pool.aside (update (update kept space.task (some sizeofTask)) space.heap
          (some sizeofHeap))) (fun other => live other ∨ other = space.dir) known first
        ∧ OpenedSpace pool live (known.withAside (update (update kept space.task (some sizeofTask))
          space.heap (some sizeofHeap))) hdr st space first filled := by
  obtain ⟨taken, served, cloned, given, filled, stages⟩ := h.spaceStages run
  obtain ⟨_, -, opened⟩ := stages.opened h.takeIn layout
  obtain ⟨_, taskBlock⟩ := stages.task
  obtain ⟨_, heapBlock⟩ := stages.heap
  obtain ⟨taskFresh, -, held₁, spaces₁, out₁⟩ := h.lend taskBlock
  obtain ⟨held₂, spaces₂, -⟩ := spaces₁.cloneDir (out₁.kernelDir ▸ stages.cloneDir)
  obtain ⟨heapFresh, -, held₃, spaces₃, -⟩ := spaces₂.lend heapBlock
  have other : space.heap ≠ space.task := by
    intro same
    rw [same, update_self] at heapFresh
    contradiction
  rw [update_other other] at heapFresh
  have switched := spaces₃.switch space.dir
  exact ⟨taskFresh, heapFresh, other, held₃, _, filled, switched, { opened with
    spaces := switched.takeIn
    block := { opened.block with isKnown := Blocks.withAside_some (update_self _ _ _) } }⟩

/-- The new directory before the loader's first visit. -/
theorem OpenedSpace.start {hdr : ElfObj} {space : NewSpace} {filled : Kernel}
    (h : OpenedSpace pool live known hdr st space first filled)
    (zero : frameBit st.frames 0 = true) (kernel : live st.kernelDir) (bounded : spare < nframes)
    : FillingStart (fun other => live other ∨ other = space.dir) first space.dir spare
        ∧ Filling pool (fun other => live other ∨ other = space.dir) known first space.dir spare
          st.ram Rights.none first := by
  refine ⟨⟨Or.inr rfl, fun same => h.notLive ?_, h.marked 0 zero, bounded⟩,
    ⟨⟨known, h.spaces, .refl known⟩, rfl, rfl, h.currentDir, h.ram, fun _ => id, fun _ => .start⟩⟩
  rw [same, h.kernelDir]
  exact kernel

end

end DeadKernel
