import DeadKernel.Loading.FilledSpace
import DeadKernel.Memory.DirectoryBalance
import Mathlib.Data.List.Find

/-! Which pages of a task's sections are mapped, and which of them the task may write.
The loop over a section visits whole pages between two rounded bounds; page numbers count modulo
the size of the address space, and only the first section to visit a page decides its rights.
-/

namespace DeadKernel

open Words

-----------------------------------------------------------------------------------------
-- The pages of a section
-----------------------------------------------------------------------------------------

/-- The page has a byte of `[addr, addr + size)`. -/
def ImageSection.overlaps (section_ : ImageSection) (page : Nat) : Prop :=
  0 < section_.size ∧ section_.addr < (page + 1) * pageSize
    ∧ page * pageSize < section_.addr + section_.size

instance (section_ : ImageSection) (page : Nat) : Decidable (section_.overlaps page) :=
  inferInstanceAs (Decidable (_ ∧ _ ∧ _))

/-- A section that does not start on a page boundary is taken to start one page earlier. -/
def ImageSection.firstPage (section_ : ImageSection) : Nat :=
  if section_.addr % pageSize = 0 then section_.addr / pageSize
  else (section_.addr / pageSize + (addressPages - 1)) % addressPages

/-- The page behind the last one. -/
def ImageSection.endPage (section_ : ImageSection) : Nat :=
  (section_.addr + section_.size + (pageSize - 1)) / pageSize % addressPages

/-- The pages from the first to the last. An odd end adds one when the start is even. -/
def ImageSection.covers (section_ : ImageSection) (page : Nat) : Bool :=
  section_.firstPage ≤ page
    ∧ page * pageSize + section_.addr % 2
      < section_.endPage * pageSize + (section_.addr + section_.size) % 2

theorem and_sectionMask {value : Nat} (small : value < wordSize)
    : value &&& sectionMask = value / pageSize * pageSize + value % 2 := by
  have mask : sectionMask = (wordSize - 4096) ||| 1 := by decide
  have low : value % 2 < 2 ^ 12 := by omega
  rw [mask, Nat.and_or_distrib_left, and_clear_low12 small, Nat.and_one_is_mod, Nat.mul_comm]
  exact (Nat.two_pow_add_eq_or_of_lt low (value / 4096)).symm

/-- The sections lie outside the kernel's own mappings and do not wrap around. -/
def ElfObj.Outside (hdr : ElfObj) (own : Nat → Prop) (st : Kernel) : Prop :=
  ∀ section_ ∈ hdr.sections, section_.loaded → section_.addr + section_.size ≤ wordSize
    ∧ ∀ page, section_.overlaps page →
      ¬ own page ∧ (st.entry st.kernelDir page).present = false
        ∧ (st.entry st.kernelDir page).frame = 0

/-- The kernel when a task is made: nothing is mapped but what directories in use map, the kernel
task runs in the kernel directory, and frame 0 is taken.
-/
structure LoadReady {kmalloc : Kmalloc} {kfree : Kfree} (pool : BlockPool kmalloc kfree)
    (live : Nat → Prop) (held : Blocks) (sys : System)
    : Prop where
  spaces : Spaces pool live held sys.memory
  layout : KernelLayout pool sys.memory
  kernelTask : (sys.tasking.tasks sys.tasking.kernelTask).pageDir = sys.memory.kernelDir
  zero : frameBit sys.memory.frames 0 = true

/-- Frames have not run out. -/
def FramesLeft (st : Kernel) : Prop := ∃ frame < nframes, frameBit st.frames frame = false

/-- The directory of a task. -/
def System.pageDir (sys : System) (task : Nat) : Nat := (sys.tasking.tasks (.task task)).pageDir

section

variable {kmalloc : Kmalloc} {kfree : Kfree} {pool : BlockPool kmalloc kfree}
variable {live : Nat → Prop} {held : Blocks} {hdr : ElfObj} {sys sys' : System} {task : Nat}

theorem makeTaskFromELF_result (kernelTask : (sys.tasking.tasks sys.tasking.kernelTask).pageDir
      = sys.memory.kernelDir)
    (made : makeTaskFromELF kmalloc hdr sys = some (task, sys'))
    : ∃ space, makeSpace kmalloc hdr sys.memory.kernelDir sys.memory = some space
        ∧ task = space.task ∧ sys'.memory = space.memory
        ∧ sys'.tasking = allocTask space.task (newTask hdr space) sys.tasking := by
  simp only [makeTaskFromELF, Option.bind_eq_bind, Option.bind_eq_some_iff, kernelTask] at made
  obtain ⟨space, opened, same⟩ := made
  obtain ⟨rfl, rfl⟩ := Prod.mk.inj (Option.some.inj same)
  exact ⟨space, opened, rfl, rfl, rfl⟩

/-- The task's record, as `makeTaskFromELF` leaves it. -/
theorem allocTask_self (block : Nat) (value : Task) (tasking : Tasking)
    : (allocTask block value tasking).tasks (.task block) = { value with status := .created } := by
  simp [allocTask, Tasking.setTask]

/-- The segments only change contents of frames. -/
theorem loadSegment_only {ph : ProgramHeader} {st st' : Kernel}
    (run : loadSegment hdr ph st = some st')
    : ∃ ram, st' = { st with ram } := by
  rw [loadSegment] at run
  split at run
  · obtain ⟨ram, same, -⟩ := copyBytes_places ph.vaddr_lt run
    exact ⟨ram, same⟩
  · exact ⟨st.ram, (Option.some.inj run).symm⟩

theorem loadSegments_only {programs : List ProgramHeader} {st st' : Kernel}
    (run : programs.foldlM (fun st ph => loadSegment hdr ph st) st = some st')
    : ∃ ram, st' = { st with ram } := by
  induction programs generalizing st with
  | nil => exact ⟨st.ram, (Option.some.inj run).symm⟩
  | cons ph rest ih =>
      rw [List.foldlM_cons] at run
      obtain ⟨mid, one, others⟩ := Option.bind_eq_some_iff.mp run
      obtain ⟨ram, rfl⟩ := loadSegment_only one
      obtain ⟨ram', rfl⟩ := ih others
      exact ⟨ram', rfl⟩

theorem ElfObj.Outside.small {own : Nat → Prop} {st : Kernel} (outside : hdr.Outside own st)
    {section_ : ImageSection} (member : section_ ∈ hdr.sections) (loaded : section_.loaded)
    {page : Nat} (overlaps : section_.overlaps page)
    : page < addressPages := by
  have fits := (outside section_ member loaded).1
  have below := overlaps.2.2
  simp only [wordSize, pageSize, addressPages] at fits below ⊢
  omega

end

-----------------------------------------------------------------------------------------
-- Two sections on one page
-----------------------------------------------------------------------------------------

end DeadKernel
