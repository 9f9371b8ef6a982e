import DeadKernel.Foundation.Rings
import Mathlib.Logic.Function.Basic

/-! Tasks, semaphores and system calls.
Tasks and semaphores are linked through list nodes inside them. `list_entry` turns any node
into the object around it, so a scan that leaves its queue reads whatever lies around a node
that is not a task's; the maps below give every node an object for that reason.
-/

namespace DeadKernel

open Rings

-----------------------------------------------------------------------------------------
-- Tasks and semaphores
-----------------------------------------------------------------------------------------

/-- The frame that an interrupt leaves on the kernel stack. -/
structure CPURegisters where
  esp : Nat
  ds : Nat
  cr3 : Nat
  edi : Nat
  esi : Nat
  ebx : Nat
  edx : Nat
  ecx : Nat
  eax : Nat
  ebp : Nat
  intNo : Nat
  errCode : Nat
  eip : Nat
  cs : Nat
  eflags : Nat
  val0 : Nat
  val1 : Nat
deriving DecidableEq

def CPURegisters.zero : CPURegisters := ⟨0, 0, 0, 0, 0, 0, 0, 0, 0, 0, 0, 0, 0, 0, 0, 0, 0⟩

inductive Status where
  | created
  | idle
  | running
  | finished
  | yield
  | stopped
  | zombie
deriving DecidableEq

structure Task where
  regs : CPURegisters
  id : Nat
  pageDir : Nat
  status : Status
  exitcode : Nat
  time : Nat
  heap : Nat
  elfObj : Nat
deriving DecidableEq

/-- What `memset` leaves in a new task. -/
def Task.zero : Task := ⟨.zero, 0, 0, .created, 0, 0, 0, 0⟩

/-- A list node, by the object that contains it. -/
inductive Node where
  | null
  | mainQueue
  | semaphoreQueue
  | task (address : Nat)
  | semaphore (address : Nat)
  | waiters (address : Nat)
deriving DecidableEq

structure Semaphore where
  id : Nat
  initialValue : BitVec 32
  count : BitVec 32
deriving DecidableEq

/-- The head of a semaphore's own queue. Only semaphores are linked in `semaphore_queue`. -/
def Node.queue : Node → Node
  | .semaphore address => .waiters address
  | node => node

/-- The lines that the semaphore code prints, with the semaphore they are about. -/
inductive SemaphoreLine where
  | restore (semaphore task : Node)
  | signal (semaphore task : Node)
  | passing (semaphore task : Node)
  | moving (semaphore task : Node)
deriving DecidableEq

structure Tasking where
  links : Node → Node × Node
  tasks : Node → Task
  semaphores : Node → Semaphore
  kernelTask : Node
  currentTask : Node
  nextPID : Nat
  nextSemaphoreID : Nat
  semctlReady : Bool
  kernelStack : Nat
  destroyed : List Node
  serial : List SemaphoreLine

def queueLinks : LinkStore (Node → Node × Node) Node where
  next links node := (links node).1
  prev links node := (links node).2
  setNext links node target := Function.update links node (target, (links node).2)
  setPrev links node target := Function.update links node ((links node).1, target)

def Tasking.next (st : Tasking) (node : Node) : Node := queueLinks.next st.links node
def Tasking.prev (st : Tasking) (node : Node) : Node := queueLinks.prev st.links node

def initListHead (head : Node) (st : Tasking) : Tasking :=
  { st with links := queueLinks.setPrev (queueLinks.setNext st.links head head) head head }

def queueEmpty (head : Node) (st : Tasking) : Bool := st.next head = head

/-- `list_add`, behind the head. -/
def listAdd (new head : Node) (st : Tasking) : Tasking :=
  { st with links := queueLinks.link new head (st.next head) st.links }

/-- `list_add_tail`, in front of the head. -/
def queueAddTail (new head : Node) (st : Tasking) : Tasking :=
  { st with links := queueLinks.link new (st.prev head) head st.links }

/-- `__list_del_entry`, which leaves the entry's own links as they are. -/
def queueDelEntry (entry : Node) (st : Tasking) : Tasking :=
  { st with links := queueLinks.join (st.prev entry) (st.next entry) st.links }

def listMove (entry head : Node) (st : Tasking) : Tasking :=
  listAdd entry head (queueDelEntry entry st)

def listMoveTail (entry head : Node) (st : Tasking) : Tasking :=
  queueAddTail entry head (queueDelEntry entry st)

def Tasking.setTask (st : Tasking) (node : Node) (task : Task) : Tasking :=
  { st with tasks := Function.update st.tasks node task }

def Tasking.setSemaphore (st : Tasking) (node : Node) (semaphore : Semaphore) : Tasking :=
  { st with semaphores := Function.update st.semaphores node semaphore }

def Tasking.print (st : Tasking) (line : SemaphoreLine) : Tasking :=
  { st with serial := line :: st.serial }

-----------------------------------------------------------------------------------------
-- Running and stopping tasks
-----------------------------------------------------------------------------------------

def isTaskingInit (st : Tasking) : Bool := st.nextPID ≠ 0

/-- `-1`, as the unsigned word that a caller receives. -/
abbrev failure : Nat := 4294967295

/-- `allocTask` at a block, with what its caller stores in the new task. A released block that
is handed out again is no longer counted as destroyed.
-/
def allocTask (block : Nat) (task : Task) (st : Tasking) : Tasking :=
  let st := { st with
    links := Function.update st.links (.task block) (.null, .null)
    destroyed := st.destroyed.filter (· ≠ Node.task block) }
  st.setTask (.task block) { task with status := .created }

/-- `runTask`: the PID, or -1 for a task that is not new. -/
def runTask (task : Node) (st : Tasking) : Nat × Tasking :=
  if (st.tasks task).status ≠ .created ∨ (st.tasks task).status = .stopped then (failure, st)
  else
    let fresh := (st.tasks task).id = 0
    let id := if fresh then st.nextPID else (st.tasks task).id
    let st := { st with nextPID := if fresh then (st.nextPID + 1) % 4294967296 else st.nextPID }
    let st := st.setTask task { st.tasks task with id }
    let st := queueAddTail task .mainQueue st
    let st := if st.currentTask = .null then { st with currentTask := task } else st
    (id, st.setTask task { st.tasks task with status := .idle })

/-- The zeroed variables of the kernel before `initTasking`; semaphore ids start at 1. -/
def Tasking.zero : Tasking where
  links := fun _ => (.null, .null)
  tasks := fun _ => .zero
  semaphores := fun _ => ⟨0, 0, 0⟩
  kernelTask := .null
  currentTask := .null
  nextPID := 0
  nextSemaphoreID := 1
  semctlReady := false
  kernelStack := 0
  destroyed := []
  serial := []

/-- `initTasking`, for the kernel task that `allocTask` places at `block`; `task` holds what the
function stores in it.
-/
def initTasking (block : Nat) (task : Task) (st : Tasking) : Tasking :=
  let st := initListHead .mainQueue st
  let st := { initListHead .semaphoreQueue st with semctlReady := true }
  let kernelTask := Node.task block
  let st := { st with kernelTask, links := Function.update st.links kernelTask (.null, .null) }
  let st := st.setTask kernelTask { task with id := 0, status := .created, time := 0, exitcode := 0 }
  (runTask kernelTask st).2

/-- `stopTask`. Its assignment of `TS_STOPPED` is written as a comparison and has no effect.
-/
def stopTask (task : Node) (st : Tasking) : Tasking :=
  if (st.tasks task).status = .created then st else queueDelEntry task st

/-- `destroyTask` releases the task's directory and its own block. -/
def destroyTask (task : Node) (st : Tasking) : Tasking :=
  let st := stopTask task st
  { st with destroyed := task :: st.destroyed }

-----------------------------------------------------------------------------------------
-- Switching tasks
-----------------------------------------------------------------------------------------

/-- The body of `semctl_process`, for one semaphore. -/
def wakeFirst (semaphore : Node) (st : Tasking) : Tasking :=
  if 0 < (st.semaphores semaphore).count.toInt ∧ queueEmpty semaphore.queue st = false then
    let task := st.next semaphore.queue
    let st := st.print (.restore semaphore task)
    let st := st.setSemaphore semaphore
      { st.semaphores semaphore with count := (st.semaphores semaphore).count - 1 }
    listMoveTail task .mainQueue st
  else st

def processFrom : Nat → Node → Tasking → Option Tasking
  | 0, _, _ => none
  | fuel + 1, iter, st =>
      if iter = .semaphoreQueue then some st
      else
        let st := wakeFirst iter st
        processFrom fuel (st.next iter) st

/-- `semctl_process`, with `fuel` rounds at most. -/
def semctlProcess (fuel : Nat) (st : Tasking) : Option Tasking :=
  if st.semctlReady then processFrom fuel (st.next .semaphoreQueue) st else some st

def listPassEntry (st : Tasking) (node root : Node) : Node :=
  if st.next node = root then st.next root else st.next node

/-- The value of `ecx` with which a task asks to end. -/
abbrev exitMark : Nat := 0xFE11DEAD

/-- The `switch` in the loop of `switchTask`. -/
def visitTask (iter : Node) (st : Tasking) : Tasking :=
  let task := st.tasks iter
  match task.status with
  | .yield | .running =>
      if task.regs.ecx = exitMark then
        st.setTask iter { task with
          regs := { task.regs with ecx := 0 }
          status := .zombie
          exitcode := task.regs.eax }
      else st.setTask iter { task with status := .idle }
  | .idle => st.setTask iter { task with status := .running }
  | .zombie | .finished =>
      if iter = st.kernelTask then
        if queueEmpty .mainQueue st then
          st.setTask iter { task with
            regs := { task.regs with ebx := 0x50000000 }
            status := .running }
        else st
      else destroyTask iter st
  | .created | .stopped => st

/-- The loop of `switchTask`, which ends with a running task or an empty queue. It goes on
reading a task that it has just destroyed, whose block still has its old contents.
-/
def scanQueue : Nat → Node → Tasking → Option Tasking
  | 0, _, _ => none
  | fuel + 1, iter, st =>
      if st.next .mainQueue = .mainQueue ∨ st.prev .mainQueue = .mainQueue then some st
      else
        let st := visitTask iter st
        if (st.tasks iter).status = .running then some { st with currentTask := iter }
        else scanQueue fuel (listPassEntry st iter .mainQueue) st

/-- `switchTask`: the frame that it leaves behind, and the state. -/
def switchTask (fuel : Nat) (regs : CPURegisters) (st : Tasking)
    : Option (CPURegisters × Tasking) :=
  if ¬ isTaskingInit st then some (regs, st)
  else do
    let st := st.setTask st.currentTask { st.tasks st.currentTask with regs }
    let st ← semctlProcess fuel st
    let st ← scanQueue fuel (listPassEntry st st.currentTask .mainQueue) st
    let st := { st with kernelStack := (st.tasks st.kernelTask).regs.esp }
    some ((st.tasks st.currentTask).regs, st)

/-- `timerCallback`, less its tick counters. -/
def timerCallback (fuel : Nat) (regs : CPURegisters) (st : Tasking)
    : Option (CPURegisters × Tasking) :=
  switchTask fuel regs st

-----------------------------------------------------------------------------------------
-- System calls
-----------------------------------------------------------------------------------------

/-- What a system call meets outside this state: the word on its stack that `semctl` leaves
uninitialised, the word its argument points to, the block that `kmalloc` returns, the
directory that `cloneDir` returns and its physical address, the word left where a freed
semaphore had its id, and `eax` behind a function that returns nothing or belongs to another
part of the kernel.
-/
structure CallEnv where
  fuel : Nat
  stackWord : BitVec 32
  userWord : BitVec 32
  block : Nat
  dir : Nat
  dirPhysical : Nat
  freedWord : Nat
  eax : Nat

abbrev semaphoreInit : Nat := 0
abbrev semaphoreSignal : Nat := 1
abbrev semaphoreWait : Nat := 2
abbrev semaphoreFree : Nat := 3

/-- The search of `semctl`: the first semaphore with this id. -/
def findSemaphore (id : Nat) (st : Tasking) : Nat → Node → Option (Option Node)
  | 0, _ => none
  | fuel + 1, iter =>
      if iter = .semaphoreQueue then some none
      else if (st.semaphores iter).id = id then some (some iter)
      else findSemaphore id st fuel (st.next iter)

/-- `semctl(SEMAPHORE_INIT)`. -/
def semctlInit (env : CallEnv) (args : Nat) (st : Tasking) : Nat × Tasking :=
  if args = 0 then (failure, st)
  else
    let semaphore := Node.semaphore env.block
    let id := st.nextSemaphoreID
    let st := { st with nextSemaphoreID := (st.nextSemaphoreID + 1) % 4294967296 }
    let st := initListHead semaphore.queue st
    let st := st.setSemaphore semaphore ⟨id, env.userWord, env.userWord⟩
    (id, queueAddTail semaphore .semaphoreQueue st)

/-- `semctl(SEMAPHORE_SIGNAL)`. The bound is the local variable of the `INIT` branch, which
no other branch sets; the comparison converts the count to unsigned.
-/
def semctlSignal (env : CallEnv) (semaphore : Node) (st : Tasking) : Tasking :=
  let st := st.print (.signal semaphore st.currentTask)
  let count := (st.semaphores semaphore).count
  if count < env.stackWord then
    st.setSemaphore semaphore { st.semaphores semaphore with count := count + 1 }
  else st

/-- `semctl(SEMAPHORE_WAIT)`. The task is moved to the semaphore's queue only after another
task has been switched in.
-/
def semctlWait (env : CallEnv) (semaphore : Node) (regs : CPURegisters) (st : Tasking)
    : Option (CPURegisters × Tasking) :=
  let task := st.currentTask
  if 0 < (st.semaphores semaphore).count.toInt then
    let st := st.print (.passing semaphore task)
    some (regs, st.setSemaphore semaphore
      { st.semaphores semaphore with count := (st.semaphores semaphore).count - 1 })
  else do
    let st := st.print (.moving semaphore task)
    let (regs, st) ← switchTask env.fuel regs st
    some (regs, listMove task semaphore.queue st)

/-- `semctl(SEMAPHORE_FREE)`: the id it returns is read from the block it has just freed. -/
def semctlFree (env : CallEnv) (semaphore : Node) (st : Tasking) : Nat × Tasking :=
  if (st.semaphores semaphore).count ≠ (st.semaphores semaphore).initialValue
      ∨ queueEmpty semaphore.queue st = false then (failure, st)
  else (env.freedWord, queueDelEntry semaphore st)

/-- The semaphore that the commands other than `INIT` are about, if there is one. -/
def searchSemaphore (env : CallEnv) (id : Nat) (st : Tasking) : Option (Option Node) :=
  if id ≠ 0 then findSemaphore id st env.fuel (st.next .semaphoreQueue) else some none

/-- The `switch` of `semctl`, for the commands on an existing semaphore. -/
def semctlOn (env : CallEnv) (semaphore : Node) (command : Nat) (regs : CPURegisters)
    (st : Tasking)
    : Option (Nat × CPURegisters × Tasking) :=
  if command = semaphoreSignal then
    let st := semctlSignal env semaphore st
    some ((st.semaphores semaphore).id, regs, st)
  else if command = semaphoreWait then do
    let (regs, st) ← semctlWait env semaphore regs st
    some ((st.semaphores semaphore).id, regs, st)
  else if command = semaphoreFree then
    let (ret, st) := semctlFree env semaphore st
    some (ret, regs, st)
  else some (failure, regs, st)

/-- `semctl`: its result, and the interrupted frame after it. -/
def semctl (env : CallEnv) (id command args : Nat) (regs : CPURegisters) (st : Tasking)
    : Option (Nat × CPURegisters × Tasking) :=
  if st.semctlReady = false then some (failure, regs, st)
  else if command = semaphoreInit then
    let (ret, st) := semctlInit env args st
    some (ret, regs, st)
  else
    match searchSemaphore env id st with
    | none => none
    | some none => some (failure, regs, st)
    | some (some semaphore) => semctlOn env semaphore command regs st

/-- `mutex_init`, over a local variable at `initial` that holds 1; the semaphore's id is the
mutex.
-/
def mutexInit (env : CallEnv) (initial : Nat) (regs : CPURegisters) (st : Tasking)
    : Option (Nat × CPURegisters × Tasking) :=
  semctl { env with userWord := 1 } 0 semaphoreInit initial regs st

def mutexLock (env : CallEnv) (mutex : Nat) (regs : CPURegisters) (st : Tasking)
    : Option (Nat × CPURegisters × Tasking) :=
  semctl env mutex semaphoreWait 0 regs st

def mutexUnlock (env : CallEnv) (mutex : Nat) (regs : CPURegisters) (st : Tasking)
    : Option (Nat × CPURegisters × Tasking) :=
  semctl env mutex semaphoreSignal 0 regs st

/-- `fork`: a copy of the current task with its own directory and 0 in `eax`. -/
def fork (env : CallEnv) (regs : CPURegisters) (st : Tasking) : Nat × Tasking :=
  if ¬ isTaskingInit st then (failure, st)
  else
    let parent := st.tasks st.currentTask
    let child : Task := { Task.zero with
      elfObj := parent.elfObj
      heap := parent.heap
      pageDir := env.dir
      regs := { regs with cr3 := env.dirPhysical, eax := 0 } }
    runTask (.task env.block) (allocTask env.block child st)

def yield (env : CallEnv) (regs : CPURegisters) (st : Tasking)
    : Option (CPURegisters × Tasking) :=
  if ¬ isTaskingInit st then some (regs, st)
  else
    let task := st.tasks st.currentTask
    switchTask env.fuel regs (st.setTask st.currentTask { task with status := .yield })

def getPID (st : Tasking) : Nat :=
  if st.nextPID ≠ 0 then (st.tasks st.currentTask).id else failure

/-- The registered functions; `other` stands for those that leave tasks alone. -/
inductive SysCall where
  | getPID
  | yield
  | fork
  | semctl
  | other
deriving DecidableEq

/-- The table that `initSysCalls` fills. -/
def syscalls (num : Nat) : Option SysCall :=
  if num = 0x0 then some .getPID
  else if num = 0x1 then some .yield
  else if num = 0x2 then some .fork
  else if num ≤ 0xc then some .other
  else if num = 0xd then some .semctl
  else none

/-- The function that a system call runs: its result, and the interrupted frame after it. -/
def SysCall.run (env : CallEnv) (regs : CPURegisters) (st : Tasking)
    : SysCall → Option (Nat × CPURegisters × Tasking)
  | .getPID => some (DeadKernel.getPID st, regs, st)
  | .yield => do
      let (regs, st) ← DeadKernel.yield env regs st
      some (env.eax, regs, st)
  | .fork =>
      let (ret, st) := DeadKernel.fork env regs st
      some (ret, regs, st)
  | .semctl => DeadKernel.semctl env regs.ebx regs.ecx regs.edx regs st
  | .other => some (env.eax, regs, st)

/-- `SysCallHandler`. A number past the table's 256 entries takes a pointer from whatever lies
behind the table; no result is given for it.
-/
def sysCallHandler (env : CallEnv) (regs : CPURegisters) (st : Tasking)
    : Option (CPURegisters × Tasking) :=
  if 256 ≤ regs.eax then none
  else
    match syscalls regs.eax with
    | none => some (regs, st)
    | some call => do
        let (ret, regs, st) ← call.run env regs st
        some ({ regs with eax := ret }, st)

end DeadKernel
