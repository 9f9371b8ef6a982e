import DeadKernel.Loading.SectionCoverage
import DeadKernel.Memory.BlocksAside
import Mathlib.Logic.Relation

/-! What a task leaves behind when it is gone.
`makeTaskFromELF` asks the kernel heap for the task's own block, its directory, tables and a
`Heap_t`; `destroyTask` gives back all of them but the last.
-/

namespace DeadKernel

open Words

-----------------------------------------------------------------------------------------
-- Who has which block
-----------------------------------------------------------------------------------------

/-- A block that is no directory and no table: what it is for, a task or the kernel itself. -/
structure Loan where
  task : Option Nat
  size : Nat

abbrev Loans := Nat → Option Loan

def Loans.blocks (loans : Loans) : Blocks := fun block => (loans block).map Loan.size

@[simp] theorem Loans.blocks_update (loans : Loans) (block : Nat) (loan : Option Loan)
    : Loans.blocks (update loans block loan) = update loans.blocks block (loan.map Loan.size) := by
  funext other
  by_cases here : other = block
  · subst here
    simp [Loans.blocks]
  · simp [Loans.blocks, here]

theorem Loans.blocks_eq_none {loans : Loans} {block : Nat}
    : loans.blocks block = none ↔ loans block = none :=
  Option.map_eq_none_iff

/-- The kernel between two calls: the directories in use, and the other blocks in use. -/
structure Moment where
  live : Nat → Prop
  loans : Loans
  sys : System

def Moment.withMemory (s : Moment) (memory : Kernel) : Moment :=
  { s with sys := { s.sys with memory } }

/-- The `Heap_t` of a task. -/
def System.heap (sys : System) (task : Nat) : Nat := (sys.tasking.tasks (.task task)).heap

section

variable {kmalloc : Kmalloc} {kfree : Kfree} (pool : BlockPool kmalloc kfree)

/-- The kernel heap has handed out the directories in use, their tables, and the loans. -/
def Moment.Kept (s : Moment) : Prop :=
  ∃ held, Spaces (pool.aside s.loans.blocks) s.live held s.sys.memory

/-- `makeTaskFromELF` returns with a new task. -/
structure Created (hdr : ElfObj) (s : Moment) (task : Nat) (s' : Moment) : Prop where
  layout : KernelLayout pool s.sys.memory
  kernelTask : (s.sys.tasking.tasks s.sys.tasking.kernelTask).pageDir = s.sys.memory.kernelDir
  zero : frameBit s.sys.memory.frames 0 = true
  made : makeTaskFromELF kmalloc hdr s.sys = some (task, s'.sys)
  live : s'.live = fun other => s.live other ∨ other = s'.sys.pageDir task
  loans : s'.loans = update (update s.loans task (some ⟨some task, sizeofTask⟩))
    (s'.sys.heap task) (some ⟨some task, sizeofHeap⟩)

/-- What `destroyTask` is called with. No frame of the task's own pages is in the kernel heap. -/
structure Destroyable (s : Moment) (task : Nat) : Prop where
  known : s.loans task = some ⟨some task, sizeofTask⟩
  alive : s.live (s.sys.pageDir task)
  notKernel : s.sys.pageDir task ≠ s.sys.memory.kernelDir
  notOwnFrame : ∀ frame, PrivateFrame s.sys.memory (s.sys.pageDir task) tablesInDir frame →
    ¬ OwnFrame pool.own s.sys.memory frame

/-- `destroyTask` returns. -/
structure Destroyed (s : Moment) (task : Nat) (s' : Moment) : Prop where
  ready : Destroyable pool s task
  done : s.sys.destroyTask kfree task = some s'.sys
  live : s'.live = fun other => s.live other ∧ other ≠ s.sys.pageDir task
  loans : s'.loans = update s.loans task none

/-- What happens while a task is there: `tasks` is anything that is done to tasks, semaphores and
registers, `write` anything that is written to memory, `table`, `map` and `unmap` are what heaps of
tasks do as they grow and shrink. Of the calls of `kfree`, those for blocks that the kernel took for
itself, as its semaphores, are in `release`; the others are in `destroy`.
-/
inductive SystemStep : Moment → Moment → Prop where
  | tasks {s : Moment} (tasking : Tasking) : SystemStep s { s with sys := { s.sys with tasking } }
  | write {s : Moment} {memory : Kernel}
      (done : Rewriting pool.own s.loans.blocks s.sys.memory memory)
      : SystemStep s (s.withMemory memory)
  | table {s : Moment} {dir address : Nat} {page : Option PageRef} {memory : Kernel}
      (alive : s.live dir) (small : address < wordSize)
      (elsewhere : dir = s.sys.memory.kernelDir → ∀ page, pool.own page →
        page / 1024 ≠ pageIndex address)
      (done : getPage kmalloc address true dir s.sys.memory = some (page, memory))
      : SystemStep s (s.withMemory memory)
  | map {s : Moment} {dir slot i isKernel isWriteable : Nat} {memory : Kernel} (alive : s.live dir)
      (below : slot < tablesInDir) (table : (s.sys.memory.dirs dir).tables slot ≠ 0)
      (done : allocFrame ((s.sys.memory.dirs dir).tables slot, i) isKernel isWriteable s.sys.memory
        = some memory)
      : SystemStep s (s.withMemory memory)
  | unmap {s : Moment} {dir slot i : Nat} (alive : s.live dir) (below : slot < tablesInDir)
      (mine : PrivateTable s.sys.memory dir slot)
      (notOwn : ¬ OwnFrame pool.own s.sys.memory
        (s.sys.memory.page ((s.sys.memory.dirs dir).tables slot, i)).frame)
      : SystemStep s
          (s.withMemory (freeFrame ((s.sys.memory.dirs dir).tables slot, i) s.sys.memory))
  | request {s : Moment} {size align block physAddr : Nat} {phys : Bool} {memory : Kernel}
      (done : kmalloc size align phys s.sys.memory = some (block, physAddr, memory))
      : SystemStep s { s.withMemory memory with loans := update s.loans block (some ⟨none, size⟩) }
  | release {s : Moment} {block size : Nat} {memory : Kernel}
      (known : s.loans block = some ⟨none, size⟩) (done : kfree block s.sys.memory = some memory)
      : SystemStep s { s.withMemory memory with loans := update s.loans block none }
  | create {hdr : ElfObj} {s s' : Moment} {task : Nat} (created : Created pool hdr s task s')
      : SystemStep s s'
  | fork {s : Moment} {src dir task physAddr : Nat} {lent memory : Kernel} (alive : s.live src)
      (block : kmalloc sizeofTask 0 false s.sys.memory = some (task, physAddr, lent))
      (cloned : cloneDir kmalloc src lent = some (dir, memory))
      : SystemStep s { s.withMemory memory with
          live := fun other => s.live other ∨ other = dir
          loans := update s.loans task (some ⟨some task, sizeofTask⟩) }
  | destroy {s s' : Moment} {task : Nat} (destroyed : Destroyed pool s task s') : SystemStep s s'

end

section

variable {kmalloc : Kmalloc} {kfree : Kfree} {pool : BlockPool kmalloc kfree}
variable {live : Nat → Prop} {held kept : Blocks} {dir heap : Nat} {st st' : Kernel} {hdr : ElfObj}

/-- A directory in use that the loader is about to fill. -/
theorem Spaces.filling (h : Spaces pool live held st) (current : st.currentDir = dir)
    : Filling pool live held st dir 0 st.ram Rights.none st :=
  ⟨⟨held, h, .refl held⟩, rfl, rfl, current, rfl, fun _ => id, fun _ => .start⟩

/-- `createTaskHeap` writes to a block that was set aside. -/
theorem Spaces.createTaskHeap (h : Spaces (pool.aside kept) live held st)
    (layout : KernelLayout pool st) (block : HeapBlock kept st heap)
    (run : createTaskHeap heap dir st = some st')
    : Spaces (pool.aside kept) live held st' ∧ st'.kernelHeap = st.kernelHeap
        ∧ st'.kernelDir = st.kernelDir ∧ st'.currentDir = st.currentDir
        ∧ st'.frames = st.frames := by
  have known : held.withAside kept heap = some sizeofHeap := Blocks.withAside_some block.isKnown
  obtain ⟨value, m, ram', rfl, writes, -⟩ :=
    createTaskHeap_spec layout ⟨known, block.notKernel, block.fits, block.apart⟩ run
  have headed : Spaces (pool.aside kept) live held { st.setHeap heap value with mem := m } :=
    ⟨⟨h.holds.1, pool.keeps h.holds.2 writes⟩,
      h.owned.of_dirs (fun _ => id) rfl (fun _ _ => rfl)⟩
  exact ⟨headed.withRam ram', rfl, rfl, rfl, rfl⟩

theorem Spaces.fillSpace (h : Spaces (pool.aside kept) live held st) (alive : live dir)
    (notKernel : dir ≠ st.kernelDir) (zero : frameBit st.frames 0 = true)
    (current : st.currentDir = dir) (layout : KernelLayout pool st) (block : HeapBlock kept st heap)
    (run : fillSpace kmalloc hdr heap dir st = some st')
    : st'.kernelDir = st.kernelDir ∧ ∃ held', Spaces (pool.aside kept) live held' st' := by
  simp only [DeadKernel.fillSpace, Option.bind_eq_bind, Option.bind_eq_some_iff] at run
  obtain ⟨stack, makeStack, paged, makePages, headed, header, filled, loaded, copied⟩ := run
  have start : FillingStart live st dir 0 := ⟨alive, notKernel, zero, by decide⟩
  have paging := KeptByVisits.createStack (Filling.visits start) (h.filling current) makeStack
  have afterPages := KeptByVisits.allocFrames (Filling.visits start) (by decide) (by decide) paging
    makePages
  obtain ⟨held₁, spaces₁, -⟩ := afterPages.spaces
  obtain ⟨spaces₂, kernelHeap, kernelDir, currentDir, frames⟩ := spaces₁.createTaskHeap
    (layout.congr afterPages.kernelHeap)
    ⟨block.isKnown, afterPages.kernelHeap.symm ▸ block.notKernel, block.fits, block.apart⟩ header
  have start' : FillingStart live headed dir 0 := by
    refine ⟨alive, ?_, ?_, by decide⟩
    · rw [kernelDir, afterPages.kernelDir]
      exact notKernel
    · rw [frames]
      exact afterPages.marked 0 zero
  have done := KeptByVisits.loadSections (Filling.visits start')
    (spaces₂.filling (currentDir.trans afterPages.currentDir)) loaded
  obtain ⟨held₃, spaces₃, -⟩ := done.spaces
  obtain ⟨ram, rfl⟩ := loadSegments_only copied
  exact ⟨done.kernelDir.trans (kernelDir.trans afterPages.kernelDir), held₃, spaces₃.withRam ram⟩

/-- Writes to memory leave the directories in use and their tables alone. -/
theorem Spaces.rewrite (h : Spaces (pool.aside kept) live held st)
    (writes : Rewriting pool.own kept st st')
    : Spaces (pool.aside kept) live held st' where
  holds := ⟨h.holds.1, pool.keeps h.holds.2
    (writes.mono (fun _ _ known => Blocks.withAside_some known))⟩
  owned := by
    refine h.owned.of_dirs (fun _ => id) writes.kernelDir (fun dir alive => writes.dirs dir ?_)
    by_contra isKept
    exact h.owned.dirs dir alive (h.holds.1 dir isKept)

/-- A frame that is not the kernel heap's is taken from a private table. -/
theorem Spaces.freeFrame (h : Spaces pool live held st) {slot i : Nat} (alive : live dir)
    (below : slot < tablesInDir) (mine : PrivateTable st dir slot)
    (notOwn : ¬ OwnFrame pool.own st (st.page ((st.dirs dir).tables slot, i)).frame)
    : Spaces pool live held (freeFrame ((st.dirs dir).tables slot, i) st) := by
  rw [DeadKernel.freeFrame]
  dsimp only
  split
  · exact h
  · refine h.setPage (h.owned.tables dir alive slot below mine.1).1
      (fun isOwn => absurd isOwn (h.owned.notOwn pool.bounded alive below mine i))
      (fun other isOwn populated busy => ?_)
    rw [frameBit_clearFrame, busy, Nat.mul_div_cancel _ (by decide), Bool.and_true,
      decide_eq_true_eq]
    exact fun same => notOwn ⟨same ▸ populated, other, isOwn, same⟩

end

-----------------------------------------------------------------------------------------
-- Steps
-----------------------------------------------------------------------------------------

section

variable {kmalloc : Kmalloc} {kfree : Kfree} {pool : BlockPool kmalloc kfree}
variable {hdr : ElfObj} {s s' : Moment} {task : Nat}

/-- The blocks of a new task are fresh, and all different. -/
structure FreshTask (pool : BlockPool kmalloc kfree) (s : Moment) (task : Nat) (s' : Moment)
    : Prop where
  kept : s'.Kept pool
  taskFresh : s.loans task = none
  heapFresh : s.loans (s'.sys.heap task) = none
  apart : s'.sys.heap task ≠ task
  notLive : ¬ s.live (s'.sys.pageDir task)
  notKernel : s'.sys.pageDir task ≠ s'.sys.memory.kernelDir

theorem Created.fresh (kept : s.Kept pool) (h : Created pool hdr s task s')
    : FreshTask pool s task s' := by
  obtain ⟨held, spaces⟩ := kept
  have made := h.made
  simp only [makeTaskFromELF, Option.bind_eq_bind, Option.bind_eq_some_iff, h.kernelTask] at made
  obtain ⟨space, opened, same⟩ := made
  obtain ⟨rfl, sys⟩ := Prod.mk.inj (Option.some.inj same)
  have dir : s'.sys.pageDir space.task = space.dir := by
    simp [← sys, System.pageDir, allocTask, Tasking.setTask, newTask]
  have heap : s'.sys.heap space.task = space.heap := by
    simp [← sys, System.heap, allocTask, Tasking.setTask, newTask]
  obtain ⟨taskFresh, heapFresh, apart, known, first, filled, spaces', opening⟩ :=
    spaces.openAside h.layout opened
  have notKernel : space.dir ≠ first.kernelDir :=
    fun same => opening.notLive (same ▸ opening.kernelDir ▸ spaces.owned.kernelDir)
  obtain ⟨kernelDir, held', done⟩ := spaces'.fillSpace (Or.inr rfl) notKernel
    (opening.marked 0 h.zero) opening.currentDir (h.layout.congr opening.kernelHeap)
    ⟨update_self _ _ _, opening.block.notKernel, opening.block.fits, opening.block.apart⟩
    opening.fill
  have memory : s'.sys.memory = { filled with currentDir := s.sys.memory.currentDir } := by
    rw [← sys]
    exact opening.memory
  exact {
    kept := by
      refine ⟨held', ?_⟩
      rw [h.live, h.loans, dir, heap, memory, Loans.blocks_update, Loans.blocks_update]
      exact done.switch s.sys.memory.currentDir
    taskFresh := Loans.blocks_eq_none.mp taskFresh
    heapFresh := heap ▸ Loans.blocks_eq_none.mp heapFresh
    apart := heap ▸ apart
    notLive := dir ▸ opening.notLive
    notKernel := by
      rw [dir, memory]
      exact kernelDir ▸ notKernel
  }

/-- `destroyTask` gives back the tables of the directory, the directory and the task's own block,
and nothing else.
-/
theorem Destroyable.returns (kept : s.Kept pool) (h : Destroyable pool s task)
    : ∃ sys', s.sys.destroyTask kfree task = some sys'
        ∧ Frees kfree (privateTables s.sys.memory (s.sys.pageDir task) tablesInDir
          ++ [s.sys.pageDir task] ++ [task]) s.sys.memory sys'.memory
        ∧ ∃ held, Spaces (pool.aside (update s.loans.blocks task none))
          (fun other => s.live other ∧ other ≠ s.sys.pageDir task) held sys'.memory := by
  obtain ⟨held, spaces⟩ := kept
  obtain ⟨mid, released, held', run, slots, last, -, spaces'⟩ :=
    Detachable.stages ⟨spaces, h.alive, h.notKernel, h.notOwnFrame⟩
  have known : s.loans.blocks task = some sizeofTask := by
    rw [Loans.blocks, h.known, Option.map_some]
  obtain ⟨st', freed, -, spaces''⟩ := spaces'.giveBack known
  refine ⟨⟨st', destroyTask (.task task) s.sys.tasking⟩, ?_, (slots.calls.block last).block freed,
    _, spaces''⟩
  rw [System.pageDir] at run
  simp only [System.destroyTask, Option.bind_eq_bind, run, Option.bind_some, freed]

theorem Destroyed.kept (kept : s.Kept pool) (h : Destroyed pool s task s') : s'.Kept pool := by
  obtain ⟨sys', returned, -, held, spaces⟩ := h.ready.returns kept
  obtain rfl := Option.some.inj (returned.symm.trans h.done)
  refine ⟨held, ?_⟩
  rw [h.live, h.loans, Loans.blocks_update]
  exact spaces

theorem SystemStep.kept (kept : s.Kept pool) (step : SystemStep pool s s') : s'.Kept pool := by
  obtain ⟨held, spaces⟩ := kept
  cases step with
  | tasks tasking => exact ⟨held, spaces⟩
  | write done => exact ⟨held, spaces.rewrite done⟩
  | table alive small elsewhere done =>
      obtain ⟨-, -, -, held', spaces', -⟩ := spaces.getPage alive small elsewhere done
      exact ⟨held', spaces'⟩
  | map alive below table done =>
      exact ⟨held, spaces.allocFrame (spaces.owned.tables _ alive _ below table).1 done⟩
  | unmap alive below mine notOwn => exact ⟨held, spaces.freeFrame alive below mine notOwn⟩
  | request done =>
      obtain ⟨-, -, held', spaces', -⟩ := spaces.lend done
      refine ⟨held', ?_⟩
      rw [Loans.blocks_update]
      exact spaces'
  | release known done =>
      obtain ⟨st', freed, -, spaces'⟩ := spaces.giveBack (by rw [Loans.blocks, known]; rfl)
      obtain rfl := Option.some.inj (freed.symm.trans done)
      refine ⟨held, ?_⟩
      rw [Loans.blocks_update]
      exact spaces'
  | create created => exact (created.fresh ⟨held, spaces⟩).kept
  | fork alive block cloned =>
      obtain ⟨-, -, held₁, spaces₁, -⟩ := spaces.lend block
      obtain ⟨held₂, spaces₂, -⟩ := spaces₁.cloneDir cloned
      refine ⟨held₂, ?_⟩
      rw [Loans.blocks_update]
      exact spaces₂
  | destroy destroyed => exact destroyed.kept ⟨held, spaces⟩

/-- A block that is there for a task, but is not the task's own, stays where it is. -/
theorem SystemStep.lent (kept : s.Kept pool) (step : SystemStep pool s s') {block size : Nat}
    (lent : s.loans block = some ⟨some task, size⟩) (other : block ≠ task)
    : s'.loans block = some ⟨some task, size⟩ := by
  have elsewhere {fresh : Nat} (unused : s.loans fresh = none) : block ≠ fresh := by
    rintro rfl
    rw [unused] at lent
    contradiction
  obtain ⟨held, spaces⟩ := kept
  cases step with
  | tasks tasking => exact lent
  | write done => exact lent
  | table alive small elsewhere done => exact lent
  | map alive below table done => exact lent
  | unmap alive below mine notOwn => exact lent
  | request done =>
      have unused := (spaces.lend done).1
      exact (update_other (elsewhere (Loans.blocks_eq_none.mp unused))).trans lent
  | release known done =>
      refine (update_other ?_).trans lent
      rintro rfl
      simp [known] at lent
  | create created =>
      have fresh := created.fresh ⟨held, spaces⟩
      rw [created.loans, update_other (elsewhere fresh.heapFresh),
        update_other (elsewhere fresh.taskFresh)]
      exact lent
  | fork alive taken cloned =>
      have unused := (spaces.lend taken).1
      exact (update_other (elsewhere (Loans.blocks_eq_none.mp unused))).trans lent
  | destroy destroyed =>
      rw [destroyed.loans, update_other ?_]
      · exact lent
      · rintro rfl
        rw [destroyed.ready.known] at lent
        simp only [Option.some.injEq, Loan.mk.injEq] at lent
        exact other lent.1

-----------------------------------------------------------------------------------------
-- The whole life of a task
-----------------------------------------------------------------------------------------

end

-----------------------------------------------------------------------------------------
-- One life
-----------------------------------------------------------------------------------------

end DeadKernel
