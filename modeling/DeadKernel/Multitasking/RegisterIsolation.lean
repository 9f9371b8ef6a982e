import DeadKernel.Multitasking.RunQueue
import Mathlib.Logic.Relation

/-! Which frame a task is resumed with, over every sequence of timer interrupts and system
calls. `SysCallHandler` stores its result through the frame pointer after the call, when
`switchTask` may already have put another task's frame there.
-/

namespace DeadKernel

-----------------------------------------------------------------------------------------
-- What a resumed task may expect
-----------------------------------------------------------------------------------------

inductive Interrupt where
  | timer (fuel : Nat) (regs : CPURegisters)
  | sysCall (env : CallEnv) (regs : CPURegisters)

/-- The frame that the interrupt returns to, and the state. -/
def Interrupt.resume (st : Tasking) : Interrupt → Option (CPURegisters × Tasking)
  | .timer fuel regs => timerCallback fuel regs st
  | .sysCall env regs => sysCallHandler env regs st

/-- The frames that suspended tasks are to be resumed with: the interrupted task's own frame,
with the result of its system call, and for a new child its parent's frame.
-/
def Interrupt.saved (st : Tasking) (saved : Node → CPURegisters) : Interrupt → Node → CPURegisters
  | .timer _ regs => Function.update saved st.currentTask regs
  | .sysCall env regs =>
      match syscalls regs.eax with
      | none => Function.update saved st.currentTask regs
      | some call =>
          match call.run env regs st with
          | none => saved
          | some (ret, _, _) =>
              let saved := Function.update saved st.currentTask { regs with eax := ret }
              if call = .fork ∧ isTaskingInit st = true then
                Function.update saved (.task env.block)
                  { regs with cr3 := env.dirPhysical, eax := 0 }
              else saved

/-- The system call does not switch to another task: a yield finds no other task that could
go on, and a wait finds a unit.
-/
def Interrupt.StaysCurrent (st : Tasking) : Interrupt → Prop
  | .timer _ _ => True
  | .sysCall env regs =>
      (syscalls regs.eax = some .yield → ∀ node, st.LinkedIn .mainQueue node
        → node ≠ st.currentTask → ¬ st.Resumable node)
      ∧ (syscalls regs.eax = some .semctl → regs.ecx = semaphoreWait
        → ∀ semaphore, searchSemaphore env regs.ebx st = some (some semaphore)
        → 0 < (st.semaphores semaphore).count.toInt)

/-- `kmalloc` places a new task or semaphore in no block that holds a live one. -/
def Interrupt.Fresh (st : Tasking) : Interrupt → Prop
  | .timer _ _ => True
  | .sysCall env regs =>
      (syscalls regs.eax = some .fork → ¬ st.LinkedIn .mainQueue (.task env.block))
      ∧ (syscalls regs.eax = some .semctl → regs.ecx = semaphoreInit
        → ¬ st.LinkedIn .semaphoreQueue (.semaphore env.block))

/-- One interrupt that does not switch tasks inside a system call, or a new task started. -/
inductive IsolationStep
    : Tasking × (Node → CPURegisters) → Tasking × (Node → CPURegisters) → Prop where
  | interrupt {st st' : Tasking} {saved : Node → CPURegisters} {regs : CPURegisters}
      (interrupt : Interrupt) (stays : interrupt.StaysCurrent st) (fresh : interrupt.Fresh st)
      (run : interrupt.resume st = some (regs, st'))
      : IsolationStep (st, saved) (st', interrupt.saved st saved)
  | start {st : Tasking} {saved : Node → CPURegisters} (address : Nat)
      (created : (st.tasks (.task address)).status = .created)
      (fresh : ¬ st.LinkedIn .mainQueue (.task address))
      : IsolationStep (st, saved) ((runTask (.task address) st).2,
          Function.update saved (.task address) (st.tasks (.task address)).regs)

-----------------------------------------------------------------------------------------
-- The invariant
-----------------------------------------------------------------------------------------

/-- Run queue and semaphores are intact, and nobody waits. -/
structure Calm (st : Tasking) (nodes sems : List Node) : Prop where
  run : RunQueue st nodes
  current : st.currentTask ∈ nodes
  semaphores : Queue st .semaphoreQueue sems
  named : ∀ semaphore ∈ sems, ∃ address, semaphore = .semaphore address
  noWaiters : ∀ semaphore ∈ sems, st.next semaphore.queue = semaphore.queue

/-- All frames but that of the current task are good. -/
def OthersGood (good : Node → CPURegisters → Prop) (st : Tasking) (nodes : List Node) : Prop :=
  ∀ node ∈ nodes, node ≠ st.currentTask → st.Resumable node → good node (st.tasks node).regs

/-- Suspended tasks that can go on have the frames they are to be resumed with. -/
def Isolated (st : Tasking) (saved : Node → CPURegisters) : Prop :=
  ∃ nodes sems, Calm st nodes sems ∧ OthersGood (fun node regs => regs = saved node) st nodes

theorem RunQueue.outside {st : Tasking} {nodes : List Node} (h : RunQueue st nodes)
    {node : Node} (notHead : node ≠ .mainQueue) (notTask : ∀ address, node ≠ .task address)
    : node ∉ Node.mainQueue :: nodes := by
  intro inside
  rcases List.mem_cons.mp inside with same | member
  · exact notHead same
  · obtain ⟨address, same⟩ := h.tasks node member
    exact notTask address same

/-- The links of semaphores and their queues survive what is done to tasks only. -/
theorem Calm.of_tasks {st st' : Tasking} {nodes nodes' sems : List Node}
    (h : Calm st nodes sems) (run : RunQueue st' nodes') (current : st'.currentTask ∈ nodes')
    (links : ∀ node, node ≠ .mainQueue → (∀ address, node ≠ .task address)
      → st'.links node = st.links node)
    : Calm st' nodes' sems where
  run := run
  current := current
  semaphores := by
    refine h.semaphores.congr (fun node member => ?_)
    rcases List.mem_cons.mp member with rfl | inside
    · exact links _ Node.noConfusion (fun _ => Node.noConfusion)
    · obtain ⟨block, rfl⟩ := h.named node inside
      exact links _ Node.noConfusion (fun _ => Node.noConfusion)
  named := h.named
  noWaiters := by
    intro semaphore member
    obtain ⟨block, rfl⟩ := h.named semaphore member
    have same : st'.links (.waiters block) = st.links (.waiters block) :=
      links _ Node.noConfusion (fun _ => Node.noConfusion)
    exact (congrArg Prod.fst same).trans (h.noWaiters _ member)

/-- Without waiters `semctl_process` does nothing, by induction over its rounds. -/
theorem Calm.processFrom_eq {st st' : Tasking} {nodes sems : List Node} (h : Calm st nodes sems)
    {fuel : Nat} {iter : Node} (known : iter ∈ sems ∨ iter = .semaphoreQueue)
    (run : processFrom fuel iter st = some st')
    : st' = st := by
  induction fuel generalizing iter with
  | zero => contradiction
  | succ fuel ih =>
      rw [processFrom] at run
      split at run
      · exact (Option.some.inj run).symm
      · rename_i notHead
        have member := known.resolve_right notHead
        have asleep : wakeFirst iter st = st := by
          have empty : queueEmpty iter.queue st = true := decide_eq_true (h.noWaiters iter member)
          rw [wakeFirst, if_neg (fun woken => Bool.noConfusion (empty.symm.trans woken.2))]
        rw [asleep] at run
        exact ih (h.semaphores.next_mem member) run

theorem Calm.semctlProcess_eq {st st' : Tasking} {nodes sems : List Node}
    (h : Calm st nodes sems) {fuel : Nat} (run : semctlProcess fuel st = some st')
    : st' = st := by
  rw [semctlProcess] at run
  split at run
  · refine h.processFrom_eq ?_ run
    by_cases none : sems = []
    · subst none
      exact Or.inr h.semaphores.ring.next_head
    · exact Or.inl (h.semaphores.next_head_mem none)
  · exact (Option.some.inj run).symm

/-- Switching tasks hands out a good frame, if the frame it is given is good for the task it
interrupts.
-/
theorem Calm.switchTask_good {good : Node → CPURegisters → Prop} {st st' : Tasking}
    {nodes sems : List Node} (h : Calm st nodes sems) (others : OthersGood good st nodes)
    {fuel : Nat} {regs regs' : CPURegisters} (own : good st.currentTask regs)
    (run : switchTask fuel regs st = some (regs', st'))
    : ∃ nodes', Calm st' nodes' sems ∧ OthersGood good st' nodes'
        ∧ good st'.currentTask regs' := by
  rw [switchTask] at run
  split at run
  · obtain ⟨rfl, rfl⟩ := Prod.mk.inj (Option.some.inj run)
    exact ⟨nodes, h, others, own⟩
  · simp only [Option.bind_eq_bind, Option.bind_eq_some_iff, Option.some.injEq,
      Prod.mk.injEq] at run
    obtain ⟨woken, process, scanned, scan, rfl, rfl⟩ := run
    have saved : Calm (st.setTask st.currentTask { st.tasks st.currentTask with regs })
        nodes sems :=
      h.of_tasks (h.run.setTask _ _) h.current (fun _ _ _ => rfl)
    obtain rfl := saved.semctlProcess_eq process
    have frames : FramesGood good
        (st.setTask st.currentTask { st.tasks st.currentTask with regs }) nodes := by
      intro node member resumable
      by_cases same : node = st.currentTask
      · subst same
        simpa only [Tasking.setTask, Function.update_self] using own
      · simp only [Tasking.Resumable, Tasking.setTask, Function.update_of_ne same]
          at resumable ⊢
        exact others node member same resumable
    obtain ⟨nodes', run', -, outside, frames', current, goodFrame⟩ :=
      scanQueue_keeps saved.run frames
        (saved.run.queue.listPassEntry_mem saved.run.nonempty
          (saved.run.queue.next_mem saved.current)) scan
    have run'' : RunQueue { scanned with
        kernelStack := (scanned.tasks scanned.kernelTask).regs.esp } nodes' :=
      ⟨run'.queue.congr (fun _ _ => rfl), run'.tasks, run'.kernel⟩
    exact ⟨nodes', saved.of_tasks run'' current
      (fun node notHead notTask => outside.links node (saved.run.outside notHead notTask)),
      fun node member _ => frames' node member, goodFrame⟩

/-- A task that is started joins the queue with the frame it was made with. -/
theorem Calm.runTask_good {good : Node → CPURegisters → Prop} {st : Tasking}
    {nodes sems : List Node} (h : Calm st nodes sems) (others : OthersGood good st nodes)
    {address : Nat} (fresh : Node.task address ∉ nodes)
    (created : (st.tasks (.task address)).status = .created)
    (own : good (.task address) (st.tasks (.task address)).regs)
    : Calm (runTask (.task address) st).2 (nodes ++ [.task address]) sems
      ∧ OthersGood good (runTask (.task address) st).2 (nodes ++ [.task address])
      ∧ (runTask (.task address) st).2.currentTask = st.currentTask := by
  have notNull : st.currentTask ≠ .null := by
    intro null
    obtain ⟨other, same⟩ := h.run.tasks _ h.current
    rw [null] at same
    exact Node.noConfusion same
  obtain ⟨id, nextPID, same⟩ := runTask_created created
  rw [if_neg notNull] at same
  obtain ⟨queue, links⟩ := h.run.queue.addTail
    (List.not_mem_cons_of_ne_of_not_mem Node.noConfusion fresh)
  rw [same]
  refine ⟨h.of_tasks ⟨queue.congr (fun _ _ => rfl), ?_, ?_⟩ ?_ ?_, ?_, rfl⟩
  · intro node member
    rcases List.mem_append.mp member with old | new
    · exact h.run.tasks node old
    · exact ⟨address, List.mem_singleton.mp new⟩
  · exact List.mem_append_left _ h.run.kernel
  · exact List.mem_append_left _ h.current
  · intro node notHead notTask
    exact links node (List.not_mem_cons_of_ne_of_not_mem (notTask address)
      (h.run.outside notHead notTask))
  · intro node member notCurrent resumable
    by_cases new : node = .task address
    · subst new
      simpa only [Tasking.setTask, Function.update_self] using own
    · simp only [Tasking.Resumable, Tasking.setTask, Function.update_of_ne new] at resumable ⊢
      refine others node ?_ notCurrent resumable
      rcases List.mem_append.mp member with old | last
      · exact old
      · exact absurd (List.mem_singleton.mp last) new

-----------------------------------------------------------------------------------------
-- `semctl` without blocking
-----------------------------------------------------------------------------------------

/-- Tasks, their queue and the current task agree. -/
structure SameTasks (st st' : Tasking) : Prop where
  tasks : st'.tasks = st.tasks
  currentTask : st'.currentTask = st.currentTask
  kernelTask : st'.kernelTask = st.kernelTask
  queue : st'.links .mainQueue = st.links .mainQueue
  links : ∀ address, st'.links (.task address) = st.links (.task address)

theorem SameTasks.refl (st : Tasking) : SameTasks st st :=
  ⟨rfl, rfl, rfl, rfl, fun _ => rfl⟩

theorem SameTasks.others {good : Node → CPURegisters → Prop} {st st' : Tasking}
    {nodes : List Node} (same : SameTasks st st') (h : OthersGood good st nodes)
    : OthersGood good st' nodes := by
  intro node member notCurrent resumable
  rw [same.currentTask] at notCurrent
  rw [Tasking.Resumable, same.tasks] at resumable
  rw [same.tasks]
  exact h node member notCurrent resumable

theorem Calm.of_semaphores {st st' : Tasking} {nodes sems sems' : List Node}
    (h : Calm st nodes sems) (same : SameTasks st st') (queue : Queue st' .semaphoreQueue sems')
    (named : ∀ semaphore ∈ sems', ∃ address, semaphore = .semaphore address)
    (noWaiters : ∀ semaphore ∈ sems', st'.next semaphore.queue = semaphore.queue)
    : Calm st' nodes sems' where
  run := {
    queue := by
      refine h.run.queue.congr (fun node member => ?_)
      rcases List.mem_cons.mp member with rfl | inside
      · exact same.queue
      · obtain ⟨address, rfl⟩ := h.run.tasks node inside
        exact same.links address
    tasks := h.run.tasks
    kernel := by rw [same.kernelTask]; exact h.run.kernel }
  current := by rw [same.currentTask]; exact h.current
  semaphores := queue
  named := named
  noWaiters := noWaiters

theorem Calm.semctlInit {st : Tasking} {nodes sems : List Node} (h : Calm st nodes sems)
    {env : CallEnv} (fresh : Node.semaphore env.block ∉ sems) (args : Nat)
    : SameTasks st (semctlInit env args st).2
      ∧ ∃ sems', Calm (semctlInit env args st).2 nodes sems' := by
  rw [DeadKernel.semctlInit]
  split
  · exact ⟨.refl st, sems, h⟩
  · let made := initListHead (.waiters env.block)
      { st with nextSemaphoreID := (st.nextSemaphoreID + 1) % 4294967296 }
    let added := queueAddTail (.semaphore env.block) .semaphoreQueue
      (made.setSemaphore (.semaphore env.block)
        ⟨st.nextSemaphoreID, env.userWord, env.userWord⟩)
    change SameTasks st added ∧ ∃ sems', Calm added nodes sems'
    have joined := h.semaphores.addSemaphore h.named fresh
    have links (node : Node) (notWaiters : node ≠ .waiters env.block)
        (notHead : node ≠ .semaphoreQueue) (notSemaphore : ∀ address, node ≠ .semaphore address)
        : added.links node = st.links node :=
      joined.links node notWaiters notHead notSemaphore
    have same : SameTasks st added :=
      ⟨rfl, rfl, rfl,
        links _ Node.noConfusion Node.noConfusion (fun _ => Node.noConfusion),
        fun address => links _ Node.noConfusion Node.noConfusion (fun _ => Node.noConfusion)⟩
    have named : ∀ semaphore ∈ sems ++ [.semaphore env.block],
        ∃ address, semaphore = .semaphore address := by
      intro semaphore member
      rcases List.mem_append.mp member with inside | new
      · exact h.named _ inside
      · exact ⟨_, List.mem_singleton.mp new⟩
    have queue : Queue added .semaphoreQueue (sems ++ [.semaphore env.block]) :=
      joined.queue.congr (fun _ _ => rfl)
    refine ⟨same, sems ++ [.semaphore env.block], h.of_semaphores same queue named ?_⟩
    intro semaphore member
    obtain ⟨block, rfl⟩ := named semaphore member
    by_cases here : block = env.block
    · subst here
      exact congrArg Prod.fst joined.empty
    · have known : Node.semaphore block ∈ sems := by
        rcases List.mem_append.mp member with inside | new
        · exact inside
        · exact absurd (Node.semaphore.inj (List.mem_singleton.mp new)) here
      refine (congrArg Prod.fst (links (.waiters block) ?_ Node.noConfusion
        (fun _ => Node.noConfusion))).trans (h.noWaiters _ known)
      exact fun same => here (Node.waiters.inj same)

theorem Calm.semctlFree {st : Tasking} {nodes sems : List Node} (h : Calm st nodes sems)
    {semaphore : Node} (member : semaphore ∈ sems) (env : CallEnv)
    : SameTasks st (semctlFree env semaphore st).2
      ∧ ∃ sems', Calm (semctlFree env semaphore st).2 nodes sems' := by
  rw [DeadKernel.semctlFree]
  split
  · exact ⟨.refl st, sems, h⟩
  · obtain ⟨queue, -, links⟩ := h.semaphores.delete member
    have apart {node : Node} (notSemaphore : ∀ block, node ≠ .semaphore block)
        (notHead : node ≠ .semaphoreQueue)
        : node ∉ Node.semaphoreQueue :: sems := by
      refine List.not_mem_cons_of_ne_of_not_mem notHead (fun inside => ?_)
      obtain ⟨block, same⟩ := h.named _ inside
      exact notSemaphore block same
    have same : SameTasks st (queueDelEntry semaphore st) :=
      ⟨rfl, rfl, rfl, links _ (apart (fun _ => Node.noConfusion) Node.noConfusion),
        fun _ => links _ (apart (fun _ => Node.noConfusion) Node.noConfusion)⟩
    refine ⟨same, sems.erase semaphore, h.of_semaphores same queue
      (fun other inside => h.named other (List.mem_of_mem_erase inside)) ?_⟩
    intro other inside
    have old := List.mem_of_mem_erase inside
    obtain ⟨block, rfl⟩ := h.named other old
    exact (congrArg Prod.fst
      (links _ (apart (fun _ => Node.noConfusion) Node.noConfusion))).trans (h.noWaiters _ old)

theorem Calm.semctlOn {st st' : Tasking} {nodes sems : List Node} (h : Calm st nodes sems)
    {env : CallEnv} {semaphore : Node} {command ret : Nat} {regs regs' : CPURegisters}
    (member : semaphore ∈ sems)
    (passes : command = semaphoreWait → 0 < (st.semaphores semaphore).count.toInt)
    (run : semctlOn env semaphore command regs st = some (ret, regs', st'))
    : regs' = regs ∧ SameTasks st st' ∧ ∃ sems', Calm st' nodes sems' := by
  have kept {now : Tasking} (same : SameTasks st now) (links : now.links = st.links)
      : ∃ sems', Calm now nodes sems' :=
    ⟨sems, h.of_semaphores same (h.semaphores.congr (fun _ _ => by rw [links])) h.named
      (fun other inside => by rw [Tasking.next, links]; exact h.noWaiters other inside)⟩
  rw [DeadKernel.semctlOn] at run
  split at run
  · obtain ⟨-, rfl, rfl⟩ : _ ∧ regs = regs' ∧ semctlSignal env semaphore st = st' := by
      simpa using run
    have parts : SameTasks st (semctlSignal env semaphore st)
        ∧ (semctlSignal env semaphore st).links = st.links := by
      rw [semctlSignal]
      dsimp only
      split <;> exact ⟨⟨rfl, rfl, rfl, rfl, fun _ => rfl⟩, rfl⟩
    exact ⟨rfl, parts.1, kept parts.1 parts.2⟩
  split at run
  · rename_i wait
    have passing := passes wait
    simp only [semctlWait, if_pos passing, Option.bind_eq_bind, Option.bind_some,
      Option.some.injEq, Prod.mk.injEq] at run
    obtain ⟨-, rfl, rfl⟩ := run
    exact ⟨rfl, ⟨rfl, rfl, rfl, rfl, fun _ => rfl⟩,
      kept ⟨rfl, rfl, rfl, rfl, fun _ => rfl⟩ rfl⟩
  split at run
  · obtain ⟨-, rfl, rfl⟩ : _ ∧ regs = regs' ∧ (DeadKernel.semctlFree env semaphore st).2 = st' := by
      simpa using run
    exact ⟨rfl, h.semctlFree member env⟩
  · obtain ⟨-, rfl, rfl⟩ : _ ∧ regs = regs' ∧ st = st' := by simpa using run
    exact ⟨rfl, .refl st, sems, h⟩

/-- A call of `semctl` that does not block leaves the frame and all tasks alone. -/
theorem Calm.semctl {st st' : Tasking} {nodes sems : List Node} (h : Calm st nodes sems)
    {env : CallEnv} {id command args ret : Nat} {regs regs' : CPURegisters}
    (fresh : command = semaphoreInit → Node.semaphore env.block ∉ sems)
    (passes : command = semaphoreWait → ∀ semaphore,
      searchSemaphore env id st = some (some semaphore)
      → 0 < (st.semaphores semaphore).count.toInt)
    (run : semctl env id command args regs st = some (ret, regs', st'))
    : regs' = regs ∧ SameTasks st st' ∧ ∃ sems', Calm st' nodes sems' := by
  rw [DeadKernel.semctl] at run
  split at run
  · obtain ⟨-, rfl, rfl⟩ : _ ∧ regs = regs' ∧ st = st' := by simpa using run
    exact ⟨rfl, .refl st, sems, h⟩
  split at run
  · rename_i init
    obtain ⟨-, rfl, rfl⟩ : _ ∧ regs = regs' ∧ (DeadKernel.semctlInit env args st).2 = st' := by
      simpa using run
    exact ⟨rfl, h.semctlInit (fresh init) args⟩
  cases search : searchSemaphore env id st with
  | none =>
      rw [search] at run
      contradiction
  | some found =>
      rw [search] at run
      cases found with
      | none =>
          obtain ⟨-, rfl, rfl⟩ : _ ∧ regs = regs' ∧ st = st' := by simpa using run
          exact ⟨rfl, .refl st, sems, h⟩
      | some semaphore =>
          have member := h.semaphores.searchSemaphore_mem search
          exact h.semctlOn member (fun wait => passes wait semaphore search) run

-----------------------------------------------------------------------------------------
-- Runs
-----------------------------------------------------------------------------------------

/-- The frame of the current task is nobody's saved frame yet. -/
theorem OthersGood.update_current {st : Tasking} {nodes : List Node}
    {saved : Node → CPURegisters}
    (h : OthersGood (fun node regs => regs = saved node) st nodes) (frame : CPURegisters)
    : OthersGood (fun node regs => regs = Function.update saved st.currentTask frame node)
        st nodes := by
  intro node member notCurrent resumable
  rw [Function.update_of_ne notCurrent]
  exact h node member notCurrent resumable

/-- `fork` adds the child with its parent's frame. -/
theorem Calm.fork_good {good : Node → CPURegisters → Prop} {st : Tasking}
    {nodes sems : List Node} (h : Calm st nodes sems) (others : OthersGood good st nodes)
    {env : CallEnv} {regs : CPURegisters} (fresh : Node.task env.block ∉ nodes)
    (own : isTaskingInit st = true
      → good (.task env.block) { regs with cr3 := env.dirPhysical, eax := 0 })
    : ∃ nodes', Calm (fork env regs st).2 nodes' sems
        ∧ OthersGood good (fork env regs st).2 nodes'
        ∧ (fork env regs st).2.currentTask = st.currentTask := by
  rw [fork]
  split
  · exact ⟨nodes, h, others, rfl⟩
  · rename_i ready
    have apart {node : Node} (member : node ∈ nodes) : node ≠ .task env.block := by
      rintro rfl
      exact fresh member
    have linked {node : Node} (other : node ≠ .task env.block)
        : Function.update st.links (.task env.block) (.null, .null) node = st.links node :=
      Function.update_of_ne other _ _
    let child : Task := { Task.zero with
      elfObj := (st.tasks st.currentTask).elfObj
      heap := (st.tasks st.currentTask).heap
      pageDir := env.dir
      regs := { regs with cr3 := env.dirPhysical, eax := 0 } }
    let made : Tasking := allocTask env.block child st
    have calm : Calm made nodes sems := by
      refine h.of_tasks ⟨h.run.queue.congr (fun node member => linked ?_), h.run.tasks,
        h.run.kernel⟩ h.current (fun node _ notTask => linked (notTask _))
      rcases List.mem_cons.mp member with rfl | inside
      · exact Node.noConfusion
      · exact apart inside
    have others' : OthersGood good made nodes := by
      intro node member notCurrent resumable
      simp only [made, allocTask, Tasking.Resumable, Tasking.setTask,
        Function.update_of_ne (apart member)] at resumable ⊢
      exact others node member notCurrent resumable
    have child_eq : made.tasks (.task env.block) = child := Function.update_self _ _ _
    exact ⟨_, calm.runTask_good others' fresh (by rw [child_eq]; rfl)
      (by rw [child_eq]; exact own (not_not.mp ready))⟩

/-- A system call other than `fork` concerns the frame of its own task only. -/
theorem Interrupt.saved_of_call {st now : Tasking} {saved : Node → CPURegisters}
    {env : CallEnv} {regs switched : CPURegisters} {call : SysCall} {ret : Nat}
    (known : syscalls regs.eax = some call)
    (called : call.run env regs st = some (ret, switched, now)) (notFork : call ≠ .fork)
    : (Interrupt.sysCall env regs).saved st saved
      = Function.update saved st.currentTask { regs with eax := ret } := by
  simp only [Interrupt.saved, known, called]
  rw [if_neg (fun forks => notFork forks.1)]

/-- A call that leaves the frame and all tasks alone returns to its own task. -/
theorem OthersGood.returns {st now : Tasking} {saved : Node → CPURegisters}
    {nodes sems : List Node}
    (others : OthersGood (fun node regs => regs = saved node) st nodes)
    (calm : Calm now nodes sems) (same : SameTasks st now) (frame : CPURegisters)
    : frame = Function.update saved st.currentTask frame now.currentTask
      ∧ Isolated now (Function.update saved st.currentTask frame) := by
  refine ⟨by rw [same.currentTask, Function.update_self], nodes, sems, calm, ?_⟩
  exact same.others (others.update_current frame)

section SysCall

variable {st now : Tasking} {saved : Node → CPURegisters} {nodes sems : List Node} {env : CallEnv}
  {regs switched : CPURegisters} {ret : Nat}

/-- A `yield` of the only task that can go on comes back to it: the only frame that the scan can
find is the one saved a moment ago.
-/
theorem OthersGood.yieldCall
    (others : OthersGood (fun node regs => regs = saved node) st nodes) (calm : Calm st nodes sems)
    (alone : ∀ node ∈ nodes, node ≠ st.currentTask → ¬ st.Resumable node)
    (called : SysCall.yield.run env regs st = some (ret, switched, now))
    : { switched with eax := ret }
        = Function.update saved st.currentTask { regs with eax := ret } now.currentTask
      ∧ Isolated now (Function.update saved st.currentTask { regs with eax := ret }) := by
  simp only [SysCall.run, Option.bind_eq_bind, Option.bind_eq_some_iff, Option.some.injEq,
    Prod.mk.injEq] at called
  obtain ⟨⟨frame, back⟩, yielded, -, rfl, rfl⟩ := called
  rw [yield] at yielded
  split at yielded
  · obtain ⟨rfl, rfl⟩ := Prod.mk.inj (Option.some.inj yielded)
    exact others.returns calm (.refl st) _
  · have marked : Calm (st.setTask st.currentTask
        { st.tasks st.currentTask with status := .yield }) nodes sems :=
      calm.of_tasks (calm.run.setTask _ _) calm.current (fun _ _ _ => rfl)
    have lonely : OthersGood (fun node frame => node = st.currentTask ∧ frame = regs)
        (st.setTask st.currentTask { st.tasks st.currentTask with status := .yield }) nodes := by
      intro node member notCurrent resumable
      have other : node ≠ st.currentTask := notCurrent
      simp only [Tasking.Resumable, Tasking.setTask, Function.update_of_ne other] at resumable
      exact absurd resumable (alone node member other)
    obtain ⟨nodes', calm', others', same, rfl⟩ :=
      marked.switchTask_good lonely ⟨rfl, rfl⟩ yielded
    refine ⟨by rw [same, Function.update_self], nodes', sems, calm', ?_⟩
    intro node member notCurrent resumable
    have here := (others' node member notCurrent resumable).1
    rw [same] at notCurrent
    exact absurd here notCurrent

/-- A `fork` returns to its own task, and its child starts from the frame expected of it. -/
theorem OthersGood.forkCall
    (others : OthersGood (fun node regs => regs = saved node) st nodes) (calm : Calm st nodes sems)
    (known : syscalls regs.eax = some .fork)
    (unlinked : ¬ st.LinkedIn .mainQueue (.task env.block))
    (called : SysCall.fork.run env regs st = some (ret, switched, now))
    : { switched with eax := ret } = (Interrupt.sysCall env regs).saved st saved now.currentTask
      ∧ Isolated now ((Interrupt.sysCall env regs).saved st saved) := by
  have outside : Node.task env.block ∉ nodes :=
    fun member => unlinked ⟨nodes, calm.run.queue, member⟩
  have notChild : st.currentTask ≠ .task env.block := fun same => outside (same ▸ calm.current)
  obtain ⟨-, rfl, rfl⟩ : _ ∧ regs = switched ∧ (DeadKernel.fork env regs st).2 = now := by
    simpa [SysCall.run] using called
  have expected (node : Node) (old : node ≠ .task env.block)
      : (Interrupt.sysCall env regs).saved st saved node
        = Function.update saved st.currentTask { regs with eax := ret } node := by
    simp only [Interrupt.saved, known, called]
    split
    · rw [Function.update_of_ne old]
    · rfl
  have others' : OthersGood
      (fun node frame => frame = (Interrupt.sysCall env regs).saved st saved node) st nodes := by
    intro node member notCurrent resumable
    have old : node ≠ .task env.block := fun same => outside (same ▸ member)
    rw [expected node old]
    exact others.update_current _ node member notCurrent resumable
  obtain ⟨nodes', calm', good, same⟩ := calm.fork_good others' outside (fun ready => by
    simp only [Interrupt.saved, known, called]
    rw [if_pos ⟨trivial, ready⟩, Function.update_self])
  exact ⟨by rw [same, expected _ notChild, Function.update_self], nodes', sems, calm', good⟩

end SysCall

/-- A system call that stays with its task resumes it with its own frame and result. -/
theorem Isolated.sysCall {st now : Tasking} {saved : Node → CPURegisters} {nodes sems : List Node}
    (calm : Calm st nodes sems)
    (others : OthersGood (fun node regs => regs = saved node) st nodes) {env : CallEnv}
    {regs switched : CPURegisters} {call : SysCall} {ret : Nat}
    (known : syscalls regs.eax = some call)
    (stays : (Interrupt.sysCall env regs).StaysCurrent st)
    (fresh : (Interrupt.sysCall env regs).Fresh st)
    (called : call.run env regs st = some (ret, switched, now))
    : { switched with eax := ret } = (Interrupt.sysCall env regs).saved st saved now.currentTask
      ∧ Isolated now ((Interrupt.sysCall env regs).saved st saved) := by
  cases call with
  | getPID =>
      rw [Interrupt.saved_of_call known called SysCall.noConfusion]
      obtain ⟨-, rfl, rfl⟩ : _ ∧ regs = switched ∧ st = now := by
        simpa [SysCall.run] using called
      exact others.returns calm (.refl st) _
  | other =>
      rw [Interrupt.saved_of_call known called SysCall.noConfusion]
      obtain ⟨-, rfl, rfl⟩ : _ ∧ regs = switched ∧ st = now := by
        simpa [SysCall.run] using called
      exact others.returns calm (.refl st) _
  | semctl =>
      rw [Interrupt.saved_of_call known called SysCall.noConfusion]
      obtain ⟨rfl, same, sems', calm'⟩ := calm.semctl
        (fun init member => fresh.2 known init ⟨sems, calm.semaphores, member⟩)
        (fun wait => stays.2 known wait) called
      exact others.returns calm' same _
  | yield =>
      rw [Interrupt.saved_of_call known called SysCall.noConfusion]
      exact others.yieldCall calm
        (fun node member => stays.1 known node ⟨nodes, calm.run.queue, member⟩) called
  | fork => exact others.forkCall calm known (fresh.1 known) called

/-- An interrupt that stays with its task, or is the timer's, resumes a task with the frame
that it is to have.
-/
theorem Isolated.interrupt {st st' : Tasking} {saved : Node → CPURegisters}
    (h : Isolated st saved) {interrupt : Interrupt} (stays : interrupt.StaysCurrent st)
    (fresh : interrupt.Fresh st) {regs' : CPURegisters}
    (run : interrupt.resume st = some (regs', st'))
    : regs' = interrupt.saved st saved st'.currentTask
      ∧ Isolated st' (interrupt.saved st saved) := by
  obtain ⟨nodes, sems, calm, others⟩ := h
  cases interrupt with
  | timer fuel regs =>
      obtain ⟨nodes', calm', others', frame⟩ := calm.switchTask_good
        (others.update_current regs) (by rw [Function.update_self]) run
      exact ⟨frame, nodes', sems, calm', others'⟩
  | sysCall env regs =>
      simp only [Interrupt.resume, sysCallHandler] at run
      split at run
      · contradiction
      cases known : syscalls regs.eax with
      | none =>
          simp only [known, Option.some.injEq, Prod.mk.injEq] at run
          obtain ⟨rfl, rfl⟩ := run
          simp only [Interrupt.saved, known]
          exact others.returns calm (.refl st) _
      | some call =>
          simp only [known, Option.bind_eq_bind, Option.bind_eq_some_iff, Option.some.injEq,
            Prod.mk.injEq] at run
          obtain ⟨⟨ret, switched, now⟩, called, rfl, rfl⟩ := run
          exact Isolated.sysCall calm others known stays fresh called

theorem IsolationStep.isolated {st st' : Tasking} {saved saved' : Node → CPURegisters}
    (h : Isolated st saved) (step : IsolationStep (st, saved) (st', saved'))
    : Isolated st' saved' := by
  cases step with
  | interrupt interrupt stays fresh run => exact (h.interrupt stays fresh run).2
  | start address created fresh =>
      obtain ⟨nodes, sems, calm, others⟩ := h
      have outside : Node.task address ∉ nodes :=
        fun member => fresh ⟨nodes, calm.run.queue, member⟩
      have others' : OthersGood (fun node regs => regs = Function.update saved (.task address)
          (st.tasks (.task address)).regs node) st nodes := by
        intro node member notCurrent resumable
        have old : node ≠ .task address := fun same => outside (same ▸ member)
        rw [Function.update_of_ne old]
        exact others node member notCurrent resumable
      obtain ⟨calm', good, -⟩ := calm.runTask_good others' outside created
        (by rw [Function.update_self])
      exact ⟨_, sems, calm', good⟩

/-- Right after `initTasking` the kernel task is alone. -/
theorem initTasking_isolated (block : Nat) (kernel : Task) (saved : Node → CPURegisters)
    : Isolated (initTasking block kernel .zero) saved := by
  have booted := initTasking_booted block kernel
  refine ⟨[.task block], [], ⟨⟨booted.queue, ?_, ?_⟩, ?_, booted.semaphores, ?_, ?_⟩, ?_⟩
  · exact fun node member => ⟨block, List.mem_singleton.mp member⟩
  · exact List.mem_singleton.mpr booted.kernelTask
  · exact List.mem_singleton.mpr booted.currentTask
  · exact fun _ none => absurd none List.not_mem_nil
  · exact fun _ none => absurd none List.not_mem_nil
  · intro node member notCurrent
    rw [booted.currentTask] at notCurrent
    exact absurd (List.mem_singleton.mp member) notCurrent

/-- In every run from `initTasking` on in which no system call switches to another task, each
interrupt resumes a task with the frame it was suspended with, the result of its own system call
in `eax`.
-/
theorem frames_isolated {block : Nat} {kernel : Task} {before saved : Node → CPURegisters}
    {st : Tasking}
    (run : Relation.ReflTransGen IsolationStep (initTasking block kernel .zero, before)
      (st, saved))
    {interrupt : Interrupt} (stays : interrupt.StaysCurrent st) (fresh : interrupt.Fresh st)
    {regs : CPURegisters} {st' : Tasking} (resumed : interrupt.resume st = some (regs, st'))
    : regs = interrupt.saved st saved st'.currentTask := by
  have isolated : ∀ {point}, Relation.ReflTransGen IsolationStep
      (initTasking block kernel .zero, before) point → Isolated point.1 point.2 := by
    intro point run
    induction run with
    | refl => exact initTasking_isolated block kernel before
    | tail _ step ih => exact step.isolated ih
  exact ((isolated run).interrupt stays fresh resumed).1

-----------------------------------------------------------------------------------------
-- Two tasks
-----------------------------------------------------------------------------------------

/-- A node with null links is in no queue. -/
theorem Tasking.not_linkedIn_of_null {st : Tasking} {head node : Node} (notHead : head ≠ .null)
    (unlinked : st.next node = .null) (null : st.next .null = .null)
    : ¬ st.LinkedIn head node := by
  rintro ⟨nodes, queue, member⟩
  have inside : Node.null ∈ nodes := by
    rcases queue.next_mem member with next | next
    · exact unlinked ▸ next
    · exact absurd (next.symm.trans unlinked) notHead
  rcases queue.next_erase_mem inside with next | next
  · rw [null] at next
    exact (List.Nodup.not_mem_erase (List.nodup_cons.mp queue.distinct).2) next
  · exact notHead (next.symm.trans null)

/-- The kernel task is task 1; task 2 has just been started. -/
def twoTasks : Tasking := (runTask (.task 2) (initTasking 1 .zero .zero)).2

/-- The kernel task is interrupted with 7 in `eax`. -/
def kernelTick : Interrupt := .timer 4 { CPURegisters.zero with eax := 7 }

/-- A task calls `yield`, which leaves 0 in `eax`. -/
def yieldCall : Interrupt := .sysCall ⟨4, 0, 0, 0, 0, 0, 0, 0⟩ { CPURegisters.zero with eax := 1 }

theorem twoTasks_run (before : Node → CPURegisters)
    : Relation.ReflTransGen IsolationStep (initTasking 1 .zero .zero, before)
        (twoTasks, Function.update before (.task 2) .zero) :=
  .single (.start 2 rfl (Tasking.not_linkedIn_of_null Node.noConfusion rfl rfl))

/-- The timer resumes task 2 with the frame it was made with. -/
theorem frames_isolated_tick
    : ∃ regs st, kernelTick.resume twoTasks = some (regs, st) ∧ st.currentTask = .task 2
        ∧ regs = kernelTick.saved twoTasks
          (Function.update (fun _ => .zero) (.task 2) .zero) st.currentTask := by
  have stays : kernelTick.StaysCurrent twoTasks := trivial
  have fresh : kernelTick.Fresh twoTasks := trivial
  exact ⟨_, _, rfl, rfl, frames_isolated (twoTasks_run (fun _ => .zero)) stays fresh rfl⟩

/-- Then task 2 yields: the kernel task is resumed with the 0 that `yield` left in `eax`, where
it was interrupted with 7.
-/
theorem yield_overwrites
    : ∃ regs st, kernelTick.resume twoTasks = some (regs, st)
        ∧ ∃ regs' st', yieldCall.resume st = some (regs', st') ∧ st'.currentTask = .task 1
          ∧ regs'.eax = 0 ∧ (yieldCall.saved st (kernelTick.saved twoTasks
            (Function.update (fun _ => .zero) (.task 2) .zero)) st'.currentTask).eax = 7 :=
  ⟨_, _, rfl, _, _, rfl, rfl, rfl, rfl⟩

end DeadKernel
