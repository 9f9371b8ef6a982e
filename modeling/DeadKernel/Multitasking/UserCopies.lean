import DeadKernel.Loading.FilledSpace

/-! Copies between the kernel and the running task. The directory in force is known to the
processor, in `cr3`, and to the kernel, in `currentDir`; a copy saves the second and restores both
from it.
-/

namespace DeadKernel

open Words

-----------------------------------------------------------------------------------------
-- The processor and the directories
-----------------------------------------------------------------------------------------

/-- The kernel with the processor that runs it. -/
structure Execution where
  system : System
  cr0 : BitVec 32
  cr3 : Nat
  interruptsDisable : Nat

def Execution.currentDir (ex : Execution) : Nat := ex.system.memory.currentDir

def Execution.setMemory (ex : Execution) (memory : Kernel) : Execution :=
  { ex with system := { ex.system with memory } }

def disableInterrupts (ex : Execution) : Execution :=
  { ex with interruptsDisable := u32 (ex.interruptsDisable + 1) }

def enableInterrupts (ex : Execution) : Execution :=
  { ex with interruptsDisable := sub32 ex.interruptsDisable 1 }

/-- `switchPageDir` with what it does to the processor. -/
def loadPageDir (dir : Nat) (ex : Execution) : Nat × Execution :=
  let (oldDir, memory) := switchPageDir dir ex.system.memory
  (oldDir, { ex.setMemory memory with
    cr3 := (memory.dirs dir).physicalAddr
    cr0 := ex.cr0 ||| 0x80000000 })

-----------------------------------------------------------------------------------------
-- copyFromUser and copyToUser
-----------------------------------------------------------------------------------------

/-- `memcpy` from the pages of the running directory; a page that is not there ends in a panic. -/
def readBytes : Nat → Nat → Nat → Kernel → Option Kernel
  | 0, _, _, st => some st
  | size + 1, ptr0, userPtr, st =>
      (st.virtByte st.currentDir userPtr).bind fun byte =>
        readBytes size (u32 (ptr0 + 1)) (u32 (userPtr + 1))
          { st with mem := update st.mem ptr0 byte }

/-- Both copies: `memcpy` in the directory of the running task. -/
def inTaskDir (memcpy : Kernel → Option Kernel) (ex : Execution) : Option Execution := do
  let ex := disableInterrupts ex
  let task := ex.system.tasking.tasks ex.system.tasking.currentTask
  let (savedDir, ex) := loadPageDir task.pageDir ex
  let memory ← memcpy ex.system.memory
  let (_, ex) := loadPageDir savedDir (ex.setMemory memory)
  return enableInterrupts ex

def copyFromUser (ptr0 userPtr size : Nat) (ex : Execution) : Option Execution :=
  inTaskDir (readBytes size ptr0 userPtr) ex

def copyToUser (userPtr ptr0 size : Nat) (ex : Execution) : Option Execution :=
  inTaskDir (fun st => copyBytes (fun k => st.mem (u32 (ptr0 + k))) size 0 userPtr st) ex

-----------------------------------------------------------------------------------------
-- What a copy leaves
-----------------------------------------------------------------------------------------

/-- The directory in force is the same, for the processor and for the kernel. -/
structure SpaceRestored (before after : Execution) : Prop where
  cr3 : after.cr3 = before.cr3
  currentDir : after.currentDir = before.currentDir

/-- The processor runs in the directory that the kernel takes for the current one. -/
def InStep (ex : Execution) : Prop := (ex.system.memory.dirs ex.currentDir).physicalAddr = ex.cr3

/-- What `memcpy` leaves of the directories. -/
structure KeepsDirs (before after : Kernel) : Prop where
  dirs : after.dirs = before.dirs
  currentDir : after.currentDir = before.currentDir

section Copies

variable {ex after : Execution} {st st' : Kernel} {ptr0 userPtr size : Nat}

theorem readBytes_keeps (run : readBytes size ptr0 userPtr st = some st') : KeepsDirs st st' := by
  induction size generalizing ptr0 userPtr st with
  | zero =>
      obtain rfl := Option.some.inj run
      exact ⟨rfl, rfl⟩
  | succ size ih =>
      obtain ⟨byte, -, rest⟩ := Option.bind_eq_some_iff.mp run
      exact ⟨(ih rest).dirs, (ih rest).currentDir⟩

theorem copyBytes_keeps {source : Nat → UInt8} {k dest : Nat}
    (run : copyBytes source size k dest st = some st')
    : KeepsDirs st st' := by
  induction size generalizing k dest st with
  | zero =>
      obtain rfl := Option.some.inj run
      exact ⟨rfl, rfl⟩
  | succ size ih =>
      obtain ⟨mid, one, rest⟩ := Option.bind_eq_some_iff.mp run
      obtain ⟨-, ram, rfl, -⟩ := storeByte_spec one
      exact ⟨(ih rest).dirs, (ih rest).currentDir⟩

/-- A copy restores `currentDir`, and loads `cr3` from the directory that it saved. -/
theorem inTaskDir_leaves {memcpy : Kernel → Option Kernel}
    (keeps : ∀ {st st'}, memcpy st = some st' → KeepsDirs st st')
    (run : inTaskDir memcpy ex = some after)
    : after.currentDir = ex.currentDir
      ∧ after.cr3 = (ex.system.memory.dirs ex.currentDir).physicalAddr := by
  obtain ⟨memory, copied, ends⟩ := Option.bind_eq_some_iff.mp run
  obtain rfl := Option.some.inj ends
  exact ⟨rfl, congrArg (fun dirs => (dirs ex.currentDir).physicalAddr) (keeps copied).dirs⟩

/-- A copy restores the address space exactly if `currentDir` was the directory in force. -/
theorem user_copies_restore_iff
    (run : copyFromUser ptr0 userPtr size ex = some after
      ∨ copyToUser userPtr ptr0 size ex = some after)
    : SpaceRestored ex after ↔ InStep ex := by
  have leaves : after.currentDir = ex.currentDir
      ∧ after.cr3 = (ex.system.memory.dirs ex.currentDir).physicalAddr := by
    cases run with
    | inl fromUser => exact inTaskDir_leaves readBytes_keeps fromUser
    | inr toUser => exact inTaskDir_leaves copyBytes_keeps toUser
  constructor
  · intro restored
    exact leaves.2.symm.trans restored.cr3
  · intro same
    exact ⟨leaves.2.trans same, leaves.1⟩

end Copies

/-- A system call of a task whose directory is at 0x8000: its page at 0x403000 is there. -/
def sysCallOf (currentDir : Nat) : Execution where
  system := {
    memory := { twoDirs with
      dirs := fun dir => { twoDirs.dirs dir with physicalAddr := dir }
      currentDir }
    tasking := { Tasking.zero with
      tasks := fun _ => { Task.zero with pageDir := 0x8000 }
      currentTask := .task 0x20000 } }
  cr0 := 0x80000011
  cr3 := 0x8000
  interruptsDisable := 1

/-- The value that the system call `semctl` reads for its argument. -/
theorem copyFromUser_restores
    : ∃ after, copyFromUser 0x100 0x403000 4 (sysCallOf 0x8000) = some after
        ∧ SpaceRestored (sysCallOf 0x8000) after := by
  obtain ⟨after, run⟩ : ∃ after, copyFromUser 0x100 0x403000 4 (sysCallOf 0x8000) = some after :=
    Option.isSome_iff_exists.mp (by decide +kernel)
  exact ⟨after, run, (user_copies_restore_iff (.inl run)).mpr rfl⟩

/-- With the kernel's directory in `currentDir` the system call goes on in the kernel's. -/
theorem copyFromUser_leaves_kernelDir
    : ¬ ∀ after, copyFromUser 0x100 0x403000 4 (sysCallOf 0x1000) = some after →
        SpaceRestored (sysCallOf 0x1000) after := by
  intro restores
  obtain ⟨after, run⟩ : ∃ after, copyFromUser 0x100 0x403000 4 (sysCallOf 0x1000) = some after :=
    Option.isSome_iff_exists.mp (by decide +kernel)
  have cr3 := (restores after run).cr3
  rw [(inTaskDir_leaves readBytes_keeps run).2] at cr3
  exact absurd cr3 (by decide)

end DeadKernel
