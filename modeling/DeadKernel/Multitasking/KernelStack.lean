import DeadKernel.Foundation.Words
import DeadKernel.Multitasking.RegisterIsolation
import DeadKernel.Multitasking.Waiting

/-! The stack that the kernel task is interrupted on. An interrupt from ring 0 leaves a frame of
15 words, one from ring 3 a frame of 17, and `switchTask` copies 17 words either way.
-/

namespace DeadKernel

open Words

-----------------------------------------------------------------------------------------
-- Entering and leaving an interrupt
-----------------------------------------------------------------------------------------

/-- The registers that an interrupt saves. -/
structure Cpu where
  ds : Nat
  cr3 : Nat
  edi : Nat
  esi : Nat
  ebx : Nat
  edx : Nat
  ecx : Nat
  eax : Nat
  ebp : Nat
  eip : Nat
  cs : Nat
  eflags : Nat
  esp : Nat
  ss : Nat

/-- The processor, the words of the kernel stacks by their address, and the tasks. -/
structure Machine where
  cpu : Cpu
  words : Nat → Nat
  tasking : Tasking

/-- A stack that is being written: the words of memory and the stack pointer. -/
structure Stack where
  words : Nat → Nat
  esp : Nat

def Stack.push (value : Nat) (stack : Stack) : Stack :=
  ⟨Function.update stack.words (sub32 stack.esp 4) value, sub32 stack.esp 4⟩

/-- Words stored one behind the other. -/
def storeWords : List Nat → Nat → (Nat → Nat) → Nat → Nat
  | [], _, words => words
  | value :: rest, address, words =>
      storeWords rest (u32 (address + 4)) (Function.update words address value)

/-- The selector of the kernel's data segment. -/
abbrev kernelData : Nat := 0x10

/-- What the processor pushes. From ring 3 it changes to the stack that the task state segment
names and saves the old one first.
-/
def Machine.enter (m : Machine) : Stack :=
  let stack :=
    if m.cpu.cs &&& 3 = 0 then ⟨m.words, m.cpu.esp⟩
    else Stack.push m.cpu.esp (Stack.push m.cpu.ss ⟨m.words, m.tasking.kernelStack⟩)
  Stack.push m.cpu.eip (Stack.push m.cpu.cs (Stack.push m.cpu.eflags stack))

/-- The entry stub and the first half of `ASMInterruptPreHandler`. The stack pointer that it
leaves is the `CPURegisters_t*` of the handlers.
-/
def Machine.saveFrame (intNo errCode : Nat) (m : Machine) : Stack :=
  let stack := Stack.push intNo (Stack.push errCode m.enter)
  let esp := sub32 stack.esp 40
  ⟨storeWords [u32 (u32 (esp + 40) + 20), m.cpu.ds, m.cpu.cr3, m.cpu.edi, m.cpu.esi, m.cpu.ebx,
    m.cpu.edx, m.cpu.ecx, m.cpu.eax, m.cpu.ebp] esp stack.words, esp⟩

/-- The 17 words from `frame` on, as a `CPURegisters_t`. -/
def loadFrame (words : Nat → Nat) (frame : Nat) : CPURegisters where
  esp := words frame
  ds := words (u32 (frame + 4))
  cr3 := words (u32 (frame + 8))
  edi := words (u32 (frame + 12))
  esi := words (u32 (frame + 16))
  ebx := words (u32 (frame + 20))
  edx := words (u32 (frame + 24))
  ecx := words (u32 (frame + 28))
  eax := words (u32 (frame + 32))
  ebp := words (u32 (frame + 36))
  intNo := words (u32 (frame + 40))
  errCode := words (u32 (frame + 44))
  eip := words (u32 (frame + 48))
  cs := words (u32 (frame + 52))
  eflags := words (u32 (frame + 56))
  val0 := words (u32 (frame + 60))
  val1 := words (u32 (frame + 64))

def CPURegisters.toWords (regs : CPURegisters) : List Nat :=
  [regs.esp, regs.ds, regs.cr3, regs.edi, regs.esi, regs.ebx, regs.edx, regs.ecx, regs.eax,
    regs.ebp, regs.intNo, regs.errCode, regs.eip, regs.cs, regs.eflags, regs.val0, regs.val1]

/-- The second half of `ASMInterruptPreHandler`: the registers are loaded from the frame, the
stack pointer goes up by 48, and `iret` pops `eip`, `cs` and `eflags`, and a stack only when it
leaves ring 0.
-/
def leave (words : Nat → Nat) (frame : Nat) : Cpu :=
  let regs := loadFrame words frame
  { ds := regs.ds
    cr3 := regs.cr3
    edi := regs.edi
    esi := regs.esi
    ebx := regs.ebx
    edx := regs.edx
    ecx := regs.ecx
    eax := regs.eax
    ebp := regs.ebp
    eip := regs.eip
    cs := regs.cs
    eflags := regs.eflags
    esp := if regs.cs &&& 3 = 0 then u32 (u32 (frame + 48) + 12) else regs.val0
    ss := if regs.cs &&& 3 = 0 then kernelData else regs.val1 }

/-- The interrupts that may switch tasks. -/
inductive Vector where
  | timer (fuel : Nat)
  | sysCall (env : CallEnv)

def Vector.interrupt (regs : CPURegisters) : Vector → Interrupt
  | .timer fuel => .timer fuel regs
  | .sysCall env => .sysCall env regs

/-- An interrupt, from the instruction it arrives at to its `iret`. -/
def Machine.interrupt (vector : Vector) (intNo errCode : Nat) (m : Machine) : Option Machine := do
  let stack := m.saveFrame intNo errCode
  let (regs, tasking) ←
    (vector.interrupt (loadFrame stack.words stack.esp)).resume m.tasking
  let words := storeWords regs.toWords stack.esp stack.words
  some { cpu := leave words stack.esp, words, tasking }

-----------------------------------------------------------------------------------------
-- Addresses in a frame
-----------------------------------------------------------------------------------------

theorem sub32_sub32 (top down more : Nat)
    : sub32 (sub32 top down) more = sub32 top (down + more) := by
  simp only [sub32, wordSize] at *
  omega

theorem u32_sub32_add {top down up : Nat} (le : up ≤ down)
    : u32 (sub32 top down + up) = sub32 top (down - up) := by
  simp only [u32, sub32, wordSize] at *
  omega

theorem sub32_inj {top down down' : Nat} (h : down < wordSize) (h' : down' < wordSize)
    : sub32 top down = sub32 top down' ↔ down = down' := by
  simp only [sub32, wordSize] at *
  omega

theorem sub32_zero {top : Nat} (h : top < wordSize) : sub32 top 0 = top := by
  simp only [sub32, wordSize] at *
  omega

/-- The words stored above an address leave it alone, by induction on them. -/
theorem storeWords_below {top down other : Nat} (values : List Nat) (words : Nat → Nat)
    (below : down < other) (small : other < wordSize) (fits : 4 * values.length ≤ down + 4)
    : storeWords values (sub32 top down) words (sub32 top other) = words (sub32 top other) := by
  induction values generalizing down words with
  | nil => rfl
  | cons value rest ih =>
      have elsewhere : sub32 top other ≠ sub32 top down := by
        rw [Ne, sub32_inj small (by omega)]
        omega
      rw [storeWords, List.length_cons] at *
      cases rest with
      | nil => rw [storeWords, Function.update_of_ne elsewhere]
      | cons next rest =>
          rw [List.length_cons] at *
          rw [u32_sub32_add (by omega), ih _ (by omega) (by omega),
            Function.update_of_ne elsewhere]

/-- The words stored below an address leave it alone. -/
theorem storeWords_above {top down other : Nat} (values : List Nat) (words : Nat → Nat)
    (above : other + 4 * values.length ≤ down) (small : down < wordSize)
    : storeWords values (sub32 top down) words (sub32 top other) = words (sub32 top other) := by
  induction values generalizing down words with
  | nil => rfl
  | cons value rest ih =>
      rw [List.length_cons] at above
      have elsewhere : sub32 top other ≠ sub32 top down := by
        rw [Ne, sub32_inj (by omega) small]
        omega
      rw [storeWords, u32_sub32_add (by omega), ih _ (by omega) (by omega),
        Function.update_of_ne elsewhere]

/-- The first of the stored words is found again. -/
theorem storeWords_first {top down value : Nat} {rest : List Nat} (words : Nat → Nat)
    (small : down < wordSize) (fits : 4 * rest.length ≤ down)
    : storeWords (value :: rest) (sub32 top down) words (sub32 top down) = value := by
  rw [storeWords]
  cases rest with
  | nil => rw [storeWords, Function.update_self]
  | cons next rest =>
      rw [List.length_cons] at fits
      rw [u32_sub32_add (by omega), storeWords_below _ _ (by omega) small
        (by rw [List.length_cons]; omega), Function.update_self]

/-- So is any other, by induction on its place. -/
theorem storeWords_get {top down : Nat} {values : List Nat} (words : Nat → Nat)
    (small : down < wordSize) (fits : 4 * values.length ≤ down + 4) {i : Nat} {value : Nat}
    (at_i : values[i]? = some value)
    : storeWords values (sub32 top down) words (sub32 top (down - 4 * i)) = value := by
  induction values generalizing down words i with
  | nil => simp at at_i
  | cons first rest ih =>
      rw [List.length_cons] at fits
      cases i with
      | zero =>
          obtain rfl := Option.some.inj at_i
          rw [Nat.mul_zero, Nat.sub_zero, storeWords_first words small (by omega)]
      | succ i =>
          have inside := (List.getElem?_eq_some_iff.mp at_i).1
          rw [List.length_cons] at inside
          have place : down - 4 * (i + 1) = down - 4 - 4 * i := by omega
          rw [storeWords, u32_sub32_add (by omega), place]
          exact ih _ (by omega) (by omega) at_i

/-- The frame of an interrupt from ring 0 reaches up to the interrupted stack pointer, which it
holds in its first word.
-/
theorem Machine.saveFrame_ring0 {m : Machine} (ring : m.cpu.cs &&& 3 = 0)
    (small : m.cpu.esp < wordSize) (intNo errCode : Nat)
    : (m.saveFrame intNo errCode).esp = sub32 m.cpu.esp 60
      ∧ (loadFrame (m.saveFrame intNo errCode).words (m.saveFrame intNo errCode).esp).esp
        = m.cpu.esp
      ∧ (loadFrame (m.saveFrame intNo errCode).words (m.saveFrame intNo errCode).esp).cs
        = m.cpu.cs := by
  have place : (m.saveFrame intNo errCode).esp = sub32 m.cpu.esp 60 := by
    simp only [Machine.saveFrame, Machine.enter, ring, if_true, Stack.push, sub32_sub32,
      Nat.reduceAdd]
  rw [place]
  simp only [Machine.saveFrame, Machine.enter, ring, if_true, Stack.push, sub32_sub32,
    Nat.reduceAdd, loadFrame]
  refine ⟨trivial, ?_, ?_⟩
  · have top : u32 (u32 (sub32 m.cpu.esp 60 + 40) + 20) = m.cpu.esp := by
      rw [u32_sub32_add (by decide), u32_sub32_add (by decide)]
      exact sub32_zero small
    rw [storeWords_first _ (by decide) (by simp only [List.length_cons, List.length_nil]; decide),
      top]
  · have at_cs : u32 (sub32 m.cpu.esp 60 + 52) = sub32 m.cpu.esp 8 :=
      u32_sub32_add (by decide)
    have other (down : Nat) (small : down < wordSize) (distinct : 8 ≠ down)
        : sub32 m.cpu.esp 8 ≠ sub32 m.cpu.esp down :=
      fun same => distinct ((sub32_inj (by decide) small).mp same)
    rw [at_cs]
    refine (storeWords_above _ _ (by decide : 8 + 4 * 10 ≤ 60) (by decide)).trans ?_
    rw [Function.update_of_ne (other 20 (by decide) (by decide)),
      Function.update_of_ne (other 16 (by decide) (by decide)),
      Function.update_of_ne (other 12 (by decide) (by decide)), Function.update_self]

theorem Machine.saveFrame_ring3 {m : Machine} (ring : m.cpu.cs &&& 3 ≠ 0)
    (intNo errCode : Nat)
    : (m.saveFrame intNo errCode).esp = sub32 m.tasking.kernelStack 68 := by
  simp only [Machine.saveFrame, Machine.enter, ring, if_false, Stack.push, sub32_sub32,
    Nat.reduceAdd]

/-- The code segment that `iret` pops is the one of the frame that the handler left. -/
theorem loadFrame_storeWords (top : Nat) {down : Nat} (words : Nat → Nat)
    (regs : CPURegisters) (large : 68 ≤ down) (small : down < wordSize)
    : (loadFrame (storeWords regs.toWords (sub32 top down) words) (sub32 top down)).cs
      = regs.cs := by
  have at_cs : u32 (sub32 top down + 52) = sub32 top (down - 4 * 13) :=
    u32_sub32_add (by omega)
  have length : regs.toWords.length = 17 := rfl
  rw [loadFrame, at_cs]
  exact storeWords_get _ small (by omega) rfl

-----------------------------------------------------------------------------------------
-- What a handler does to the kernel task's frame
-----------------------------------------------------------------------------------------

/-- The stack pointer and the code segment of a frame. -/
def CPURegisters.context (regs : CPURegisters) : Nat × Nat := (regs.esp, regs.cs)

/-- What a handler may leave behind, as far as the kernel task's frame goes: the interrupted
task goes on, or `switchTask` has saved its frame, fetched one and set the kernel stack.
-/
inductive Handled (regs : CPURegisters) (st : Tasking) (regs' : CPURegisters) (st' : Tasking)
    : Prop where
  | stays (kernelTask : st'.kernelTask = st.kernelTask)
      (currentTask : st'.currentTask = st.currentTask)
      (kernelStack : st'.kernelStack = st.kernelStack)
      (frame : (st'.tasks st.kernelTask).regs.context = (st.tasks st.kernelTask).regs.context)
  | switches (kernelTask : st'.kernelTask = st.kernelTask)
      (kernelStack : st'.kernelStack = (st'.tasks st.kernelTask).regs.esp)
      (fetched : regs'.context = (st'.tasks st'.currentTask).regs.context)
      (frame : (st'.tasks st.kernelTask).regs.context
        = if st.currentTask = st.kernelTask then regs.context
          else (st.tasks st.kernelTask).regs.context)

/-- Nothing but links, states and the marks of finished tasks changes. -/
structure KeepsContexts (st st' : Tasking) : Prop where
  kernelTask : st'.kernelTask = st.kernelTask
  contexts : ∀ node, (st'.tasks node).regs.context = (st.tasks node).regs.context

theorem KeepsContexts.refl (st : Tasking) : KeepsContexts st st := ⟨rfl, fun _ => rfl⟩

theorem KeepsContexts.trans {st st' st'' : Tasking} (h : KeepsContexts st st')
    (h' : KeepsContexts st' st'')
    : KeepsContexts st st'' :=
  ⟨h'.kernelTask.trans h.kernelTask, fun node => (h'.contexts node).trans (h.contexts node)⟩

theorem KeepsContexts.setTask {st : Tasking} {node : Node} {task : Task}
    (same : task.regs.context = (st.tasks node).regs.context)
    : KeepsContexts st (st.setTask node task) := by
  refine ⟨rfl, fun other => ?_⟩
  by_cases here : other = node
  · simp only [Tasking.setTask, here, Function.update_self, same]
  · simp only [Tasking.setTask, Function.update_of_ne here]

theorem KeepsContexts.of_tasks {st st' : Tasking} (kernelTask : st'.kernelTask = st.kernelTask)
    (tasks : st'.tasks = st.tasks)
    : KeepsContexts st st' :=
  ⟨kernelTask, fun node => by rw [tasks]⟩

theorem destroyTask_contexts (task : Node) (st : Tasking)
    : KeepsContexts st (destroyTask task st) := by
  simp only [destroyTask, stopTask]
  split <;> exact .of_tasks rfl rfl

theorem visitTask_contexts (iter : Node) (st : Tasking)
    : KeepsContexts st (visitTask iter st) := by
  simp only [visitTask]
  split
  case h_4 | h_5 =>
    split
    · split
      · exact .setTask rfl
      · exact .refl st
    · exact destroyTask_contexts iter st
  case h_1 | h_2 => split <;> exact .setTask rfl
  case h_3 => exact .setTask rfl
  all_goals exact .refl st

theorem scanQueue_contexts {fuel : Nat} {iter : Node} {st st' : Tasking}
    (run : scanQueue fuel iter st = some st')
    : KeepsContexts st st' := by
  induction fuel generalizing iter st with
  | zero => contradiction
  | succ fuel ih =>
      rw [scanQueue] at run
      split at run
      · exact Option.some.inj run ▸ .refl st
      · dsimp only at run
        split at run
        · exact (visitTask_contexts iter st).trans (Option.some.inj run ▸ .of_tasks rfl rfl)
        · exact (visitTask_contexts iter st).trans (ih run)

theorem wakeFirst_same (semaphore : Node) (st : Tasking) : SameTasking st (wakeFirst semaphore st) := by
  rw [wakeFirst]
  split
  · exact ⟨rfl, rfl, rfl, rfl, rfl, rfl⟩
  · exact .refl st

theorem processFrom_same {fuel : Nat} {iter : Node} {st st' : Tasking}
    (run : processFrom fuel iter st = some st')
    : SameTasking st st' := by
  induction fuel generalizing iter st with
  | zero => contradiction
  | succ fuel ih =>
      rw [processFrom] at run
      split at run
      · exact Option.some.inj run ▸ .refl st
      · exact (wakeFirst_same iter st).trans (ih run)

theorem semctlProcess_same {fuel : Nat} {st st' : Tasking}
    (run : semctlProcess fuel st = some st')
    : SameTasking st st' := by
  rw [semctlProcess] at run
  split at run
  · exact processFrom_same run
  · exact Option.some.inj run ▸ .refl st

/-- `switchTask` saves the current task's frame and fetches one, or does nothing before tasking
is initialised.
-/
theorem switchTask_handled {fuel : Nat} {regs regs' : CPURegisters} {st st' : Tasking}
    (run : switchTask fuel regs st = some (regs', st'))
    : regs' = regs ∧ st' = st ∨ Handled regs st regs' st' := by
  rw [switchTask] at run
  split at run
  · simp only [Option.some.injEq, Prod.mk.injEq] at run
    exact Or.inl ⟨run.1.symm, run.2.symm⟩
  · simp only [Option.bind_eq_bind, Option.bind_eq_some_iff, Option.some.injEq,
      Prod.mk.injEq] at run
    obtain ⟨woken, processed, found, scanned, rfl, rfl⟩ := run
    have same := semctlProcess_same processed
    have kept := scanQueue_contexts scanned
    have kernelTask : found.kernelTask = st.kernelTask := kept.kernelTask.trans same.kernelTask
    refine Or.inr (.switches kernelTask ?_ rfl ?_)
    · rw [← kernelTask]
    · rw [kept.contexts, same.tasks]
      by_cases current : st.currentTask = st.kernelTask
      · simp only [Tasking.setTask, current, Function.update_self, if_true]
      · simp only [Tasking.setTask, Function.update_of_ne (Ne.symm current), if_neg current]

/-- A part of a handler that switches nothing. -/
structure Staying (st st' : Tasking) : Prop where
  contexts : KeepsContexts st st'
  currentTask : st'.currentTask = st.currentTask
  kernelStack : st'.kernelStack = st.kernelStack

theorem Staying.refl (st : Tasking) : Staying st st := ⟨.refl st, rfl, rfl⟩

theorem Staying.handled {regs regs' : CPURegisters} {st st' : Tasking} (h : Staying st st')
    : Handled regs st regs' st' :=
  .stays h.contexts.kernelTask h.currentTask h.kernelStack (h.contexts.contexts _)

/-- Nothing is switched before a handler does its work. -/
theorem Staying.before {regs regs' : CPURegisters} {st mid st' : Tasking} (h : Staying st mid)
    (later : Handled regs mid regs' st')
    : Handled regs st regs' st' := by
  have same := h.contexts.kernelTask
  cases later with
  | stays kernelTask currentTask kernelStack frame =>
      rw [same] at kernelTask frame
      exact .stays kernelTask (currentTask.trans h.currentTask) (kernelStack.trans h.kernelStack)
        (frame.trans (h.contexts.contexts _))
  | switches kernelTask kernelStack fetched frame =>
      rw [same] at kernelTask kernelStack frame
      rw [h.currentTask, h.contexts.contexts] at frame
      exact .switches kernelTask kernelStack fetched frame

/-- Nor after it. -/
theorem Handled.before {regs regs' : CPURegisters} {st mid st' : Tasking}
    (h : Handled regs st regs' mid) (later : Staying mid st')
    : Handled regs st regs' st' := by
  cases h with
  | stays kernelTask currentTask kernelStack frame =>
      exact .stays (later.contexts.kernelTask.trans kernelTask)
        (later.currentTask.trans currentTask) (later.kernelStack.trans kernelStack)
        ((later.contexts.contexts _).trans frame)
  | switches kernelTask kernelStack fetched frame =>
      have esp := congrArg Prod.fst (later.contexts.contexts st.kernelTask)
      refine .switches (later.contexts.kernelTask.trans kernelTask) ?_ ?_
        ((later.contexts.contexts _).trans frame)
      · exact (later.kernelStack.trans kernelStack).trans esp.symm
      · rw [later.currentTask, later.contexts.contexts]
        exact fetched

theorem switchTask_handled' {fuel : Nat} {regs regs' : CPURegisters} {st st' : Tasking}
    (run : switchTask fuel regs st = some (regs', st'))
    : Handled regs st regs' st' := by
  rcases switchTask_handled run with ⟨rfl, rfl⟩ | handled
  · exact (Staying.refl st').handled
  · exact handled

theorem runTask_staying {task : Node} {st : Tasking} (notNull : st.currentTask ≠ .null)
    (created : (st.tasks task).status = .created)
    : Staying st (runTask task st).2 := by
  rw [runTask_new created, if_neg notNull]
  refine ⟨?_, rfl, rfl⟩
  have queued : KeepsContexts st (queueAddTail task .mainQueue { st with
      nextPID := if (st.tasks task).id = 0 then (st.nextPID + 1) % 4294967296 else st.nextPID
      currentTask := st.currentTask }) := .of_tasks rfl rfl
  exact queued.trans (.setTask rfl)

/-- A new task in a block of its own is nothing to the kernel task. -/
theorem fork_handled (env : CallEnv) (regs : CPURegisters) {st : Tasking}
    (notNull : st.currentTask ≠ .null) (fresh : .task env.block ≠ st.kernelTask)
    : Handled regs st regs (fork env regs st).2 := by
  rw [fork]
  split
  · exact (Staying.refl st).handled
  · let child : Task := { Task.zero with
      elfObj := (st.tasks st.currentTask).elfObj
      heap := (st.tasks st.currentTask).heap
      pageDir := env.dir
      regs := { regs with cr3 := env.dirPhysical, eax := 0 } }
    have created : ((allocTask env.block child st).tasks (.task env.block)).status = .created := by
      simp only [allocTask, Tasking.setTask, Function.update_self]
    have made : Handled regs st regs (allocTask env.block child st) := by
      refine .stays rfl rfl rfl ?_
      simp only [allocTask, Tasking.setTask, Function.update_of_ne (Ne.symm fresh)]
    exact made.before (runTask_staying notNull created)

theorem semctl_handled {env : CallEnv} {id command args ret : Nat} {regs regs' : CPURegisters}
    {st st' : Tasking} (run : semctl env id command args regs st = some (ret, regs', st'))
    : Handled regs st regs' st' := by
  rw [semctl] at run
  split at run
  · simp only [Option.some.injEq, Prod.mk.injEq] at run
    obtain ⟨-, -, rfl⟩ := run
    exact (Staying.refl st).handled
  split at run
  · simp only [Option.some.injEq, Prod.mk.injEq] at run
    obtain ⟨-, -, rfl⟩ := run
    rw [semctlInit]
    split
    · exact (Staying.refl st).handled
    · exact Staying.handled ⟨.of_tasks rfl rfl, rfl, rfl⟩
  split at run
  · contradiction
  · simp only [Option.some.injEq, Prod.mk.injEq] at run
    obtain ⟨-, -, rfl⟩ := run
    exact (Staying.refl st).handled
  · rename_i semaphore _
    rw [semctlOn] at run
    split at run
    · simp only [Option.some.injEq, Prod.mk.injEq] at run
      obtain ⟨-, -, rfl⟩ := run
      simp only [semctlSignal]
      split <;> exact Staying.handled ⟨.of_tasks rfl rfl, rfl, rfl⟩
    split at run
    · simp only [semctlWait, Option.bind_eq_bind] at run
      obtain ⟨⟨switched, now⟩, waited, same⟩ := Option.bind_eq_some_iff.mp run
      simp only [Option.some.injEq, Prod.mk.injEq] at same
      obtain ⟨-, rfl, rfl⟩ := same
      split at waited
      · simp only [Option.some.injEq, Prod.mk.injEq] at waited
        obtain ⟨-, rfl⟩ := waited
        exact Staying.handled ⟨.of_tasks rfl rfl, rfl, rfl⟩
      · obtain ⟨⟨frame, moved⟩, switch, same⟩ := Option.bind_eq_some_iff.mp waited
        simp only [Option.some.injEq, Prod.mk.injEq] at same
        obtain ⟨rfl, rfl⟩ := same
        have printed : Staying st (st.print (.moving semaphore st.currentTask)) :=
          ⟨.of_tasks rfl rfl, rfl, rfl⟩
        exact (printed.before (switchTask_handled' switch)).before
          ⟨.of_tasks rfl rfl, rfl, rfl⟩
    split at run
    · simp only [Option.some.injEq, Prod.mk.injEq] at run
      obtain ⟨-, -, rfl⟩ := run
      rw [semctlFree]
      split
      · exact (Staying.refl st).handled
      · exact Staying.handled ⟨.of_tasks rfl rfl, rfl, rfl⟩
    · simp only [Option.some.injEq, Prod.mk.injEq] at run
      obtain ⟨-, -, rfl⟩ := run
      exact (Staying.refl st).handled

/-- `kmalloc` does not place a new task where the kernel task is. -/
def Vector.Fresh (st : Tasking) : Vector → Prop
  | .timer _ => True
  | .sysCall env => .task env.block ≠ st.kernelTask

/-- Every interrupt either goes on with the interrupted task or switches. -/
theorem Vector.handled {vector : Vector} {regs regs' : CPURegisters} {st st' : Tasking}
    (notNull : st.currentTask ≠ .null) (fresh : vector.Fresh st)
    (run : (vector.interrupt regs).resume st = some (regs', st'))
    : Handled regs st regs' st' := by
  cases vector with
  | timer fuel => exact switchTask_handled' run
  | sysCall env =>
      simp only [Vector.interrupt, Interrupt.resume, sysCallHandler] at run
      split at run
      · contradiction
      cases known : syscalls regs.eax with
      | none =>
          simp only [known, Option.some.injEq, Prod.mk.injEq] at run
          obtain ⟨-, rfl⟩ := run
          exact (Staying.refl st).handled
      | some call =>
          simp only [known, Option.bind_eq_bind, Option.bind_eq_some_iff, Option.some.injEq,
            Prod.mk.injEq] at run
          obtain ⟨⟨ret, switched, now⟩, called, rfl, rfl⟩ := run
          have handled : Handled regs st switched now := by
            cases call with
            | getPID =>
                simp only [SysCall.run, Option.some.injEq, Prod.mk.injEq] at called
                obtain ⟨-, -, rfl⟩ := called
                exact (Staying.refl st).handled
            | other =>
                simp only [SysCall.run, Option.some.injEq, Prod.mk.injEq] at called
                obtain ⟨-, -, rfl⟩ := called
                exact (Staying.refl st).handled
            | fork =>
                simp only [SysCall.run, Option.some.injEq, Prod.mk.injEq] at called
                obtain ⟨-, rfl, rfl⟩ := called
                exact fork_handled env regs notNull fresh
            | semctl => exact semctl_handled called
            | yield =>
                simp only [SysCall.run, Option.bind_eq_bind, Option.bind_eq_some_iff,
                  Option.some.injEq, Prod.mk.injEq] at called
                obtain ⟨⟨frame, moved⟩, yielded, -, rfl, rfl⟩ := called
                rw [DeadKernel.yield] at yielded
                split at yielded
                · simp only [Option.some.injEq, Prod.mk.injEq] at yielded
                  obtain ⟨-, rfl⟩ := yielded
                  exact (Staying.refl st).handled
                · have marked : Staying st (st.setTask st.currentTask
                      { st.tasks st.currentTask with status := .yield }) :=
                    ⟨.setTask rfl, rfl, rfl⟩
                  exact marked.before (switchTask_handled' yielded)
          cases handled with
          | stays kernelTask currentTask kernelStack frame =>
              exact .stays kernelTask currentTask kernelStack frame
          | switches kernelTask kernelStack fetched frame =>
              exact .switches kernelTask kernelStack fetched frame

-----------------------------------------------------------------------------------------
-- The kernel task's stack over a run
-----------------------------------------------------------------------------------------

/-- A task other than the kernel's runs, in ring 3. -/
structure UserRuns (m : Machine) : Prop where
  task : ∃ block, m.tasking.currentTask = .task block
  other : m.tasking.currentTask ≠ m.tasking.kernelTask
  ring : m.cpu.cs &&& 3 ≠ 0

/-- A task in ring 3 sets its registers, or it is interrupted and a task in ring 3 goes on. -/
inductive UserStep : Machine → Machine → Prop where
  | run {m : Machine} (cpu : Cpu) (user : UserRuns { m with cpu }) : UserStep m { m with cpu }
  | interrupt {m m' : Machine} (vector : Vector) (fresh : vector.Fresh m.tasking)
      (intNo errCode : Nat) (run : m.interrupt vector intNo errCode = some m')
      (user : UserRuns m')
      : UserStep m m'

/-- The kernel task is interrupted in ring 0, a task in ring 3 takes over, any number of
switches among such tasks follow, and an interrupt of one of them resumes the kernel task.
-/
inductive KernelResumed : Machine → Machine → Prop where
  | intro {before suspended interrupted after : Machine} {vector vector' : Vector}
      {intNo errCode intNo' errCode' : Nat}
      (kernel : before.tasking.currentTask = before.tasking.kernelTask)
      (task : ∃ block, before.tasking.kernelTask = .task block)
      (ring0 : before.cpu.cs &&& 3 = 0)
      (fresh : vector.Fresh before.tasking)
      (leaves : before.interrupt vector intNo errCode = some suspended)
      (user : UserRuns suspended)
      (runs : Relation.ReflTransGen UserStep suspended interrupted)
      (fresh' : vector'.Fresh interrupted.tasking)
      (back : interrupted.interrupt vector' intNo' errCode' = some after)
      (resumed : after.tasking.currentTask = after.tasking.kernelTask)
      : KernelResumed before after

/-- What the interruption owes the kernel task: its stack pointer, and the words from there
on.
-/
def KernelStackKept (before after : Machine) : Prop :=
  after.cpu.esp = before.cpu.esp
    ∧ ∀ address, before.cpu.esp ≤ address → after.words address = before.words address

/-- While other tasks run, the kernel task's frame and the stack of the task state segment
keep the interrupted stack pointer.
-/
structure KernelSuspended (block : Nat) (context : Nat × Nat) (m : Machine) : Prop where
  user : UserRuns m
  kernelTask : m.tasking.kernelTask = .task block
  frame : (m.tasking.tasks (.task block)).regs.context = context
  kernelStack : m.tasking.kernelStack = context.1

theorem UserRuns.notNull {m : Machine} (user : UserRuns m) : m.tasking.currentTask ≠ .null := by
  obtain ⟨block, current⟩ := user.task
  rw [current]
  exact Node.noConfusion

/-- What an interrupt ran: the handler on the saved frame, and `iret` on the frame it left. -/
theorem Machine.interrupt_some {vector : Vector} {intNo errCode : Nat} {m m' : Machine}
    (run : m.interrupt vector intNo errCode = some m')
    : ∃ regs frame, frame = m.saveFrame intNo errCode
      ∧ (vector.interrupt (loadFrame frame.words frame.esp)).resume m.tasking
        = some (regs, m'.tasking)
      ∧ m'.words = storeWords regs.toWords frame.esp frame.words
      ∧ m'.cpu = leave m'.words frame.esp := by
  rw [Machine.interrupt] at run
  generalize m.saveFrame intNo errCode = frame at run
  obtain ⟨⟨regs, tasking⟩, handled, same⟩ := Option.bind_eq_some_iff.mp run
  obtain rfl := Option.some.inj same
  exact ⟨regs, frame, rfl, handled, rfl, rfl⟩

/-- The interrupt that takes the processor from the kernel task saves the interrupted stack
pointer, in the task's frame and as the kernel stack.
-/
theorem KernelSuspended.intro {block : Nat} {m m' : Machine} {vector : Vector}
    {intNo errCode : Nat} (kernelTask : m.tasking.kernelTask = .task block)
    (kernel : m.tasking.currentTask = m.tasking.kernelTask)
    (ring0 : m.cpu.cs &&& 3 = 0) (fits : m.cpu.esp < wordSize) (fresh : vector.Fresh m.tasking)
    (leaves : m.interrupt vector intNo errCode = some m') (user : UserRuns m')
    : KernelSuspended block (m.cpu.esp, m.cpu.cs) m' := by
  obtain ⟨regs, frame, rfl, handled, -, -⟩ := Machine.interrupt_some leaves
  have notNull : m.tasking.currentTask ≠ .null := by
    rw [kernel, kernelTask]
    exact Node.noConfusion
  obtain ⟨-, esp, cs⟩ := Machine.saveFrame_ring0 ring0 fits intNo errCode
  generalize m.saveFrame intNo errCode = frame at handled esp cs
  cases vector.handled notNull fresh handled with
  | stays kernelTask' currentTask =>
      have still : m'.tasking.currentTask = m'.tasking.kernelTask := by
        rw [currentTask, kernelTask', kernel]
      exact absurd still user.other
  | switches kernelTask' kernelStack fetched saved =>
      rw [if_pos kernel, kernelTask] at saved
      rw [kernelTask] at kernelTask' kernelStack
      have context : (m'.tasking.tasks (.task block)).regs.context = (m.cpu.esp, m.cpu.cs) :=
        saved.trans (Prod.ext esp cs)
      exact ⟨user, kernelTask', context, kernelStack.trans (congrArg Prod.fst context)⟩

/-- A task in ring 3 leaves the suspended kernel task as it is. -/
theorem UserStep.suspended {block : Nat} {context : Nat × Nat} {m m' : Machine}
    (step : UserStep m m') (h : KernelSuspended block context m)
    : KernelSuspended block context m' := by
  cases step with
  | run cpu user => exact ⟨user, h.kernelTask, h.frame, h.kernelStack⟩
  | interrupt vector fresh intNo errCode run user =>
      obtain ⟨regs, frame, rfl, handled, -, -⟩ := Machine.interrupt_some run
      cases vector.handled h.user.notNull fresh handled with
      | stays kernelTask currentTask kernelStack saved =>
          rw [h.kernelTask] at kernelTask saved
          exact ⟨user, kernelTask, saved.trans h.frame, kernelStack.trans h.kernelStack⟩
      | switches kernelTask kernelStack fetched saved =>
          rw [if_neg h.user.other, h.kernelTask] at saved
          rw [h.kernelTask] at kernelTask kernelStack
          have frame := saved.trans h.frame
          exact ⟨user, kernelTask, frame, kernelStack.trans (congrArg Prod.fst frame)⟩

/-- So does any run of them, by induction on it. -/
theorem KernelSuspended.runs {block : Nat} {context : Nat × Nat} {m m' : Machine}
    (h : KernelSuspended block context m) (runs : Relation.ReflTransGen UserStep m m')
    : KernelSuspended block context m' := by
  induction runs with
  | refl => exact h
  | tail _ step ih => exact step.suspended ih

/-- The interrupt that resumes the kernel task has its frame of 17 words below the interrupted
stack pointer, and its `iret` pops 15 of them.
-/
theorem KernelSuspended.resumed {block esp cs : Nat} {m m' : Machine} {vector : Vector}
    {intNo errCode : Nat} (h : KernelSuspended block (esp, cs) m) (ring0 : cs &&& 3 = 0)
    (fresh : vector.Fresh m.tasking) (back : m.interrupt vector intNo errCode = some m')
    (resumed : m'.tasking.currentTask = m'.tasking.kernelTask)
    : m'.cpu.esp = sub32 esp 8 := by
  obtain ⟨regs, frame, rfl, handled, words, cpu⟩ := Machine.interrupt_some back
  have place : (m.saveFrame intNo errCode).esp = sub32 esp 68 := by
    rw [Machine.saveFrame_ring3 h.user.ring, h.kernelStack]
  generalize m.saveFrame intNo errCode = frame at handled words cpu place
  have popped : regs.cs = cs := by
    cases vector.handled h.user.notNull fresh handled with
    | stays kernelTask currentTask =>
        rw [currentTask, kernelTask] at resumed
        exact absurd resumed h.user.other
    | switches kernelTask kernelStack fetched saved =>
        rw [resumed, kernelTask, saved, if_neg h.user.other, h.kernelTask, h.frame] at fetched
        exact congrArg Prod.snd fetched
  have segment : (loadFrame m'.words frame.esp).cs = cs := by
    rw [words, place, loadFrame_storeWords esp frame.words regs (by decide) (by decide), popped]
  rw [cpu, leave]
  simp only [segment, ring0, if_true]
  rw [place, u32_sub32_add (by decide), u32_sub32_add (by decide)]

/-- Whenever the kernel task is resumed from ring 3, its stack pointer is 8 below the one that
it was interrupted with.
-/
theorem kernelStack_shifted {before after : Machine} (run : KernelResumed before after)
    (fits : before.cpu.esp < wordSize)
    : after.cpu.esp = sub32 before.cpu.esp 8 ∧ ¬ KernelStackKept before after := by
  cases run with
  | intro kernel task ring0 fresh leaves user runs fresh' back resumed =>
      obtain ⟨block, kernelTask⟩ := task
      have suspended := KernelSuspended.intro kernelTask kernel ring0 fits fresh leaves user
      have shifted := (suspended.runs runs).resumed ring0 fresh' back resumed
      refine ⟨shifted, fun kept => ?_⟩
      have same : sub32 before.cpu.esp 8 = sub32 before.cpu.esp 0 :=
        shifted.symm.trans (kept.1.trans (sub32_zero fits).symm)
      exact absurd ((sub32_inj (by decide) (by decide)).mp same) (by decide)

/-- Task 2 of `twoTasks` was started in ring 3, and the kernel task runs at 4096. -/
def kernelRuns : Machine where
  cpu :=
    { ds := 0x10, cr3 := 0, edi := 0, esi := 0, ebx := 0, edx := 0, ecx := 0, eax := 0, ebp := 0
      eip := 0x1000, cs := 8, eflags := 0x202, esp := 4096, ss := 0x10 }
  words := fun _ => 0
  tasking := twoTasks.setTask (.task 2)
    { twoTasks.tasks (.task 2) with
      regs := { CPURegisters.zero with cs := 0x1b, val0 := 8192, val1 := 0x23 } }

/-- The timer switches to task 2 and, one tick later, back. -/
theorem kernelRuns_resumed
    : ∃ after, KernelResumed kernelRuns after ∧ after.cpu.esp = 4088 := by
  have ticks : ∃ suspended, kernelRuns.interrupt (.timer 4) 32 0 = some suspended
      ∧ suspended.tasking.currentTask = .task 2 ∧ suspended.tasking.kernelTask = .task 1
      ∧ suspended.cpu.cs = 0x1b
      ∧ ∃ after, suspended.interrupt (.timer 4) 32 0 = some after
        ∧ after.tasking.currentTask = after.tasking.kernelTask ∧ after.cpu.esp = 4088 :=
    ⟨_, rfl, rfl, rfl, rfl, _, rfl, rfl, rfl⟩
  obtain ⟨suspended, leaves, current, kernelTask, segment, after, back, resumed, esp⟩ := ticks
  have other : suspended.tasking.currentTask ≠ suspended.tasking.kernelTask := by
    rw [current, kernelTask]
    decide
  have user : UserRuns suspended := ⟨⟨2, current⟩, other, by rw [segment]; decide⟩
  have freshFirst : (Vector.timer 4).Fresh kernelRuns.tasking := trivial
  have freshSecond : (Vector.timer 4).Fresh suspended.tasking := trivial
  exact ⟨after, .intro rfl ⟨1, rfl⟩ rfl freshFirst leaves user .refl freshSecond back resumed, esp⟩

theorem kernelRuns_shifted
    : 4096 < wordSize
      ∧ ∃ after, KernelResumed kernelRuns after ∧ after.cpu.esp = sub32 kernelRuns.cpu.esp 8 := by
  have fits : kernelRuns.cpu.esp < wordSize := by decide
  obtain ⟨after, run, -⟩ := kernelRuns_resumed
  exact ⟨fits, after, run, (kernelStack_shifted run fits).1⟩

/-- The kernel task does not get its stack back. -/
theorem kernelStack_not_kept
    : ¬ ∀ before after, KernelResumed before after → before.cpu.esp < wordSize
        → KernelStackKept before after := by
  intro kept
  obtain ⟨after, run, esp⟩ := kernelRuns_resumed
  have same : after.cpu.esp = 4096 := (kept _ _ run (by decide : 4096 < wordSize)).1
  rw [esp] at same
  contradiction

end DeadKernel
