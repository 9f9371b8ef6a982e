import DeadKernel.Multitasking.Tasks

/-! The queues of tasks and semaphores as rings, and what a scan of the run queue does to it. -/

namespace DeadKernel

open Rings

-----------------------------------------------------------------------------------------
-- Queues
-----------------------------------------------------------------------------------------

theorem queueLinks_lawful : queueLinks.Lawful (· ≠ ·) (fun _ => True) where
  irrefl := fun _ h => h rfl
  symm := Ne.symm
  next_setNext := fun m a v _ => by simp [queueLinks]
  prev_setPrev := fun m a v _ => by simp [queueLinks]
  prev_setNext := fun m a v => by simp [queueLinks]
  next_setPrev := fun m a v => by simp [queueLinks]
  next_setNext_apart := fun m a b v h => by simp [queueLinks, h.symm]
  prev_setNext_apart := fun m a b v h => by simp [queueLinks, h.symm]
  next_setPrev_apart := fun m a b v h => by simp [queueLinks, h.symm]
  prev_setPrev_apart := fun m a b v h => by simp [queueLinks, h.symm]

/-- The queue at `head` holds `nodes`, in this order. -/
structure Queue (st : Tasking) (head : Node) (nodes : List Node) : Prop where
  ring : Ring queueLinks st.links head nodes
  distinct : (head :: nodes).Nodup

/-- The node is linked in the queue at `head`. -/
def Tasking.LinkedIn (st : Tasking) (head node : Node) : Prop :=
  ∃ nodes, Queue st head nodes ∧ node ∈ nodes

/-- A queue depends on the links of its own nodes only. -/
theorem Queue.congr {st st' : Tasking} {head : Node} {nodes : List Node}
    (h : Queue st head nodes) (same : ∀ node ∈ head :: nodes, st'.links node = st.links node)
    : Queue st' head nodes where
  ring := h.ring.transport
    (fun node member => congrArg Prod.fst (same node member))
    (fun node member => congrArg Prod.snd (same node member))
  distinct := h.distinct

/-- Behind a member stands another member or the head. -/
theorem Queue.next_erase_mem {st : Tasking} {head node : Node} {nodes : List Node}
    (h : Queue st head nodes) (member : node ∈ nodes)
    : st.next node ∈ nodes.erase node ∨ st.next node = head := by
  obtain ⟨front, back, rfl⟩ := List.append_of_mem member
  obtain ⟨start, left, right, rest, -, back_eq, next_eq, -⟩ := h.ring.around
  have known : st.next node ∈ back ++ [head] := by
    rw [Tasking.next, next_eq, back_eq]
    exact List.mem_cons_self
  have distinct := (List.nodup_cons.mp (List.nodup_append.mp
    (List.nodup_cons.mp h.distinct).2).2.1).1
  rcases List.mem_append.mp known with inside | last
  · refine Or.inl ((List.mem_erase_of_ne ?_).mpr (by simp [inside]))
    rintro same
    rw [same] at inside
    exact distinct inside
  · exact Or.inr (List.mem_singleton.mp last)

theorem Queue.next_mem {st : Tasking} {head node : Node} {nodes : List Node}
    (h : Queue st head nodes) (member : node ∈ nodes)
    : st.next node ∈ nodes ∨ st.next node = head :=
  (h.next_erase_mem member).imp_left List.mem_of_mem_erase

theorem Queue.prev_mem {st : Tasking} {head node : Node} {nodes : List Node}
    (h : Queue st head nodes) (member : node ∈ nodes)
    : st.prev node ∈ head :: nodes := by
  obtain ⟨front, back, rfl⟩ := List.append_of_mem member
  obtain ⟨start, left, right, rest, front_eq, -, -, prev_eq, -⟩ := h.ring.around
  have known : st.prev node ∈ head :: front := by
    rw [Tasking.prev, prev_eq, front_eq]
    simp
  rcases List.mem_cons.mp known with first | inside
  · simp [first]
  · simp [inside]

/-- The head of a queue that is not empty leads to a member. -/
theorem Queue.next_head_mem {st : Tasking} {head : Node} {nodes : List Node}
    (h : Queue st head nodes) (some : nodes ≠ [])
    : st.next head ∈ nodes := by
  cases nodes with
  | nil => contradiction
  | cons first rest =>
      have next_eq := h.ring.next_head
      simp only [List.cons_append, List.head_cons] at next_eq
      rw [Tasking.next, next_eq]
      exact List.mem_cons_self

/-- The tail of a queue lies in it. -/
theorem Queue.prev_head_mem {st : Tasking} {head : Node} {nodes : List Node}
    (h : Queue st head nodes)
    : st.prev head ∈ head :: nodes ∧ (nodes ≠ [] → st.prev head ∈ nodes) := by
  have closed : Ring queueLinks st.links head (nodes ++ []) := by
    rw [List.append_nil]
    exact h.ring
  obtain ⟨start, left, right, rest, front_eq, back_eq, -, prev_eq, -⟩ := closed.at_gap
  obtain ⟨rfl, -⟩ := List.cons.inj back_eq
  have last : st.prev head = left := prev_eq
  refine ⟨by rw [last, front_eq]; simp, fun some => ?_⟩
  cases start with
  | nil =>
      obtain ⟨-, none⟩ := List.cons.inj front_eq
      exact absurd none some
  | cons first start =>
      obtain ⟨-, same⟩ := List.cons.inj front_eq
      rw [last, same]
      simp

/-- Joining changes no links but those of the nodes it joins. -/
theorem join_links_other (links : Node → Node × Node) {left right other : Node}
    (apartLeft : other ≠ left) (apartRight : other ≠ right)
    : queueLinks.join left right links other = links other := by
  simp only [LinkStore.join, queueLinks]
  rw [Function.update_of_ne apartLeft, Function.update_of_ne apartRight]

theorem Queue.delete {st : Tasking} {head node : Node} {nodes : List Node}
    (h : Queue st head nodes) (member : node ∈ nodes)
    : Queue (queueDelEntry node st) head (nodes.erase node)
      ∧ (queueDelEntry node st).next node = st.next node
      ∧ ∀ other, other ∉ head :: nodes → (queueDelEntry node st).links other = st.links other := by
  obtain ⟨front, back, rfl⟩ := List.append_of_mem member
  have notFront : node ∉ front := by
    have distinct := (List.nodup_append.mp (List.nodup_cons.mp h.distinct).2).2.2
    exact fun again => distinct node again node List.mem_cons_self rfl
  have erased : (front ++ node :: back).erase node = front ++ back := by
    rw [List.erase_append_right _ notFront, List.erase_cons_head]
  have prevMem := h.prev_mem member
  have nextMem := h.next_mem member
  have selfPrev : node ≠ st.prev node := by
    obtain ⟨start, left, right, rest, front_eq, -, -, prev_eq, -⟩ := h.ring.around
    have known : st.prev node ∈ head :: front := by
      rw [Tasking.prev, prev_eq, front_eq]
      simp
    intro same
    rw [← same] at known
    rcases List.mem_cons.mp known with rfl | inside
    · exact (List.nodup_cons.mp h.distinct).1 member
    · exact notFront inside
  refine ⟨?_, ?_, ?_⟩
  · rw [erased]
    refine ⟨h.ring.unlink queueLinks_lawful h.distinct (fun _ _ => trivial), ?_⟩
    exact h.distinct.sublist
      (((List.Sublist.refl front).append (List.sublist_cons_self node back)).cons_cons head)
  · simp only [queueDelEntry, Tasking.next, LinkStore.join, queueLinks]
    rw [Function.update_of_ne selfPrev]
    by_cases same : node = (st.links node).1
    · rw [← same, Function.update_self, ← same]
    · rw [Function.update_of_ne same]
  · intro other outside
    apply join_links_other
    · rintro rfl
      exact outside prevMem
    · rintro rfl
      rcases nextMem with inside | isHead
      · exact outside (List.mem_cons_of_mem _ inside)
      · rw [isHead] at outside
        exact outside List.mem_cons_self

theorem Queue.addTail {st : Tasking} {head new : Node} {nodes : List Node}
    (h : Queue st head nodes) (fresh : new ∉ head :: nodes)
    : Queue (queueAddTail new head st) head (nodes ++ [new])
      ∧ ∀ other, other ∉ new :: head :: nodes
        → (queueAddTail new head st).links other = st.links other := by
  have separate : (new :: head :: nodes).Nodup := List.nodup_cons.mpr ⟨fresh, h.distinct⟩
  constructor
  · have closed : Ring queueLinks st.links head (nodes ++ []) := by
      rw [List.append_nil]
      exact h.ring
    refine ⟨closed.link queueLinks_lawful rfl (by rw [List.append_nil]; exact separate)
      (fun _ _ => trivial), ?_⟩
    have perm : (head :: nodes ++ [new]).Perm ([new] ++ head :: nodes) := List.perm_append_comm
    exact perm.nodup_iff.mpr separate
  · intro other outside
    have prevMem := h.prev_head_mem.1
    have apart {node} (member : node ∈ new :: head :: nodes) : other ≠ node := by
      rintro rfl
      exact outside member
    simp only [queueAddTail, LinkStore.link, queueLinks]
    rw [Function.update_of_ne (apart (List.mem_cons_of_mem _ prevMem)),
      Function.update_of_ne (apart List.mem_cons_self),
      Function.update_of_ne (apart List.mem_cons_self),
      Function.update_of_ne (apart (by simp))]

/-- A new semaphore at `block` has joined the others. Its own queue is empty, and nothing but the
semaphores is linked in another way than before.
-/
structure SemaphoreAdded (block : Nat) (sems : List Node) (st st' : Tasking) : Prop where
  queue : Queue st' .semaphoreQueue (sems ++ [.semaphore block])
  empty : st'.links (.waiters block) = (.waiters block, .waiters block)
  links : ∀ node, node ≠ .waiters block → node ≠ .semaphoreQueue →
    (∀ address, node ≠ .semaphore address) → st'.links node = st.links node

theorem Queue.addSemaphore {st : Tasking} {sems : List Node} {block : Nat}
    (h : Queue st .semaphoreQueue sems)
    (named : ∀ semaphore ∈ sems, ∃ address, semaphore = .semaphore address)
    (fresh : Node.semaphore block ∉ sems)
    : SemaphoreAdded block sems st
        (queueAddTail (.semaphore block) .semaphoreQueue (initListHead (.waiters block) st)) := by
  have initial (node : Node) (other : node ≠ .waiters block)
      : (initListHead (.waiters block) st).links node = st.links node := by
    simp only [initListHead, queueLinks, Function.update_of_ne other]
  have old : Queue (initListHead (.waiters block) st) .semaphoreQueue sems := by
    refine h.congr (fun node inside => initial node ?_)
    rcases List.mem_cons.mp inside with rfl | semaphore
    · exact Node.noConfusion
    · obtain ⟨address, rfl⟩ := named node semaphore
      exact Node.noConfusion
  obtain ⟨queue, links⟩ :=
    old.addTail (List.not_mem_cons_of_ne_of_not_mem Node.noConfusion fresh)
  have away {node : Node} (notHead : node ≠ .semaphoreQueue)
      (notSemaphore : ∀ address, node ≠ .semaphore address)
      : node ∉ Node.semaphore block :: .semaphoreQueue :: sems := by
    refine List.not_mem_cons_of_ne_of_not_mem (notSemaphore block)
      (List.not_mem_cons_of_ne_of_not_mem notHead (fun inside => ?_))
    obtain ⟨address, same⟩ := named node inside
    exact notSemaphore address same
  have self : (initListHead (.waiters block) st).links (.waiters block)
      = (.waiters block, .waiters block) := by
    simp [initListHead, queueLinks]
  exact {
    queue
    empty := (links _ (away Node.noConfusion (fun _ => Node.noConfusion))).trans self
    links := fun node notWaiters notHead notSemaphore =>
      (links node (away notHead notSemaphore)).trans (initial node notWaiters)
  }

/-- The entry point of a walk through a queue. -/
theorem Queue.next_head_cases {st : Tasking} {head : Node} {nodes : List Node}
    (h : Queue st head nodes)
    : st.next head ∈ nodes ∨ st.next head = head := by
  by_cases none : nodes = []
  · subst none
    exact Or.inr h.ring.next_head
  · exact Or.inl (h.next_head_mem none)

/-- The search of `semctl` finds semaphores of the queue, by induction over its rounds. -/
theorem Queue.findSemaphore_mem {st : Tasking} {sems : List Node}
    (h : Queue st .semaphoreQueue sems) {id fuel : Nat} {iter found : Node}
    (known : iter ∈ sems ∨ iter = .semaphoreQueue)
    (run : findSemaphore id st fuel iter = some (some found))
    : found ∈ sems := by
  induction fuel generalizing iter with
  | zero => contradiction
  | succ fuel ih =>
      rw [findSemaphore] at run
      split at run
      · exact absurd run (by simp)
      · rename_i notHead
        have member := known.resolve_right notHead
        split at run
        · exact Option.some.inj (Option.some.inj run) ▸ member
        · exact ih (h.next_mem member) run

theorem Queue.searchSemaphore_mem {st : Tasking} {sems : List Node}
    (h : Queue st .semaphoreQueue sems) {env : CallEnv} {id : Nat} {found : Node}
    (run : searchSemaphore env id st = some (some found))
    : found ∈ sems := by
  rw [searchSemaphore] at run
  split at run
  · exact h.findSemaphore_mem h.next_head_cases run
  · exact absurd run (by simp)

/-- An entry passed from inside a queue that is not empty leads into it. -/
theorem Queue.listPassEntry_mem {st : Tasking} {head node : Node} {nodes : List Node}
    (h : Queue st head nodes) (some : nodes ≠ [])
    (next : st.next node ∈ nodes ∨ st.next node = head)
    : listPassEntry st node head ∈ nodes := by
  rw [listPassEntry]
  split
  · exact h.next_head_mem some
  · rename_i other
    exact next.resolve_right other

/-- `runTask` on a new task. -/
theorem runTask_new {task : Node} {st : Tasking} (created : (st.tasks task).status = .created)
    : (runTask task st).2
      = (queueAddTail task .mainQueue { st with
          nextPID := if (st.tasks task).id = 0 then (st.nextPID + 1) % 4294967296 else st.nextPID
          currentTask := if st.currentTask = .null then task else st.currentTask }).setTask task
        { st.tasks task with
          id := if (st.tasks task).id = 0 then st.nextPID else (st.tasks task).id
          status := .idle } := by
  have startable : ¬ ((st.tasks task).status ≠ .created ∨ (st.tasks task).status = .stopped) := by
    rw [created]
    decide
  rw [runTask, if_neg startable]
  by_cases null : st.currentTask = .null
  · simp [Tasking.setTask, queueAddTail, Tasking.prev, null]
  · simp [Tasking.setTask, queueAddTail, Tasking.prev, null]

/-- What `runTask` does with a new task. -/
theorem runTask_created {task : Node} {st : Tasking} (created : (st.tasks task).status = .created)
    : ∃ id nextPID, (runTask task st).2
        = (queueAddTail task .mainQueue { st with
            nextPID
            currentTask := if st.currentTask = .null then task else st.currentTask }).setTask task
          { st.tasks task with id, status := .idle } :=
  ⟨_, _, runTask_new created⟩

/-- The state right after `initTasking`: the kernel task is alone and waits for the first tick. -/
structure Booted (st : Tasking) (block : Nat) : Prop where
  queue : Queue st .mainQueue [.task block]
  semaphores : Queue st .semaphoreQueue []
  kernelTask : st.kernelTask = .task block
  currentTask : st.currentTask = .task block
  idle : (st.tasks (.task block)).status = .idle
  semctlReady : st.semctlReady = true
  nextPID : st.nextPID = 1
  destroyed : st.destroyed = []

theorem initTasking_booted (block : Nat) (kernel : Task)
    : Booted (initTasking block kernel .zero) block := by
  let ready := { initListHead .semaphoreQueue (initListHead .mainQueue .zero) with
    semctlReady := true }
  let made := { ready with
    kernelTask := Node.task block
    links := Function.update ready.links (.task block) (.null, .null) }.setTask (.task block)
      { kernel with id := 0, status := .created, time := 0, exitcode := 0 }
  have heads : made.links .mainQueue = (.mainQueue, .mainQueue)
      ∧ made.links .semaphoreQueue = (.semaphoreQueue, .semaphoreQueue) := by
    simp [made, ready, Tasking.setTask, initListHead, queueLinks]
  have empty : Queue made .mainQueue [] :=
    ⟨⟨congrArg Prod.fst heads.1, congrArg Prod.snd heads.1, trivial⟩, List.nodup_singleton _⟩
  have kernelNew : made.tasks (.task block)
      = { kernel with id := 0, status := .created, time := 0, exitcode := 0 } :=
    Function.update_self _ _ _
  have created : (made.tasks (.task block)).status = .created := by rw [kernelNew]
  have same : initTasking block kernel .zero = _ := runTask_new created
  obtain ⟨queue, links⟩ := empty.addTail (by simp : Node.task block ∉ [Node.mainQueue])
  have semaphoreHead : (queueAddTail (.task block) .mainQueue made).links .semaphoreQueue
      = (.semaphoreQueue, .semaphoreQueue) := (links _ (by simp)).trans heads.2
  rw [same]
  refine ⟨queue.congr (fun _ _ => rfl), ⟨⟨?_, ?_, trivial⟩, List.nodup_singleton _⟩, rfl, rfl, ?_,
    rfl, ?_, rfl⟩
  · exact congrArg Prod.fst semaphoreHead
  · exact congrArg Prod.snd semaphoreHead
  · simp [Tasking.setTask]
  · simp [Tasking.setTask, queueAddTail, initListHead, Tasking.zero]

-----------------------------------------------------------------------------------------
-- Scanning the run queue
-----------------------------------------------------------------------------------------

/-- The task goes on with its saved frame when the scan reaches it often enough. -/
def Tasking.Resumable (st : Tasking) (node : Node) : Prop :=
  (st.tasks node).status = .idle
    ∨ ((st.tasks node).status = .running ∨ (st.tasks node).status = .yield)
      ∧ (st.tasks node).regs.ecx ≠ exitMark

/-- The run queue holds tasks only, the kernel task among them. -/
structure RunQueue (st : Tasking) (nodes : List Node) : Prop where
  queue : Queue st .mainQueue nodes
  tasks : ∀ node ∈ nodes, ∃ address, node = .task address
  kernel : st.kernelTask ∈ nodes

theorem RunQueue.nonempty {st : Tasking} {nodes : List Node} (h : RunQueue st nodes)
    : nodes ≠ [] :=
  List.ne_nil_of_mem h.kernel

theorem RunQueue.queueEmpty_eq {st : Tasking} {nodes : List Node} (h : RunQueue st nodes)
    : queueEmpty .mainQueue st = false := by
  apply decide_eq_false
  intro same
  have member := h.queue.next_head_mem h.nonempty
  rw [same] at member
  exact (List.nodup_cons.mp h.queue.distinct).1 member

/-- The kernel's variables apart from tasks, and the links outside the run queue, agree. -/
structure SameOutside (nodes : List Node) (st st' : Tasking) : Prop where
  links : ∀ node, node ∉ Node.mainQueue :: nodes → st'.links node = st.links node
  semaphores : st'.semaphores = st.semaphores
  kernelTask : st'.kernelTask = st.kernelTask
  nextPID : st'.nextPID = st.nextPID
  semctlReady : st'.semctlReady = st.semctlReady

theorem SameOutside.refl (nodes : List Node) (st : Tasking) : SameOutside nodes st st :=
  ⟨fun _ _ => rfl, rfl, rfl, rfl, rfl⟩

theorem SameOutside.trans {nodes nodes' : List Node} {st st' st'' : Tasking}
    (h : SameOutside nodes st st') (h' : SameOutside nodes' st' st'') (sub : nodes' ⊆ nodes)
    : SameOutside nodes st st'' where
  links node outside := by
    rw [h'.links node (fun inside => outside ?_), h.links node outside]
    rcases List.mem_cons.mp inside with first | member
    · simp [first]
    · exact List.mem_cons_of_mem _ (sub member)
  semaphores := h'.semaphores.trans h.semaphores
  kernelTask := h'.kernelTask.trans h.kernelTask
  nextPID := h'.nextPID.trans h.nextPID
  semctlReady := h'.semctlReady.trans h.semctlReady

/-- What visiting a task can do to it. -/
inductive Visit (iter : Node) (st : Tasking) : Tasking → Prop where
  | resume (idle : (st.tasks iter).status = .idle)
      : Visit iter st (st.setTask iter { st.tasks iter with status := .running })
  | pause (active : (st.tasks iter).status = .running ∨ (st.tasks iter).status = .yield)
      (stays : (st.tasks iter).regs.ecx ≠ exitMark)
      : Visit iter st (st.setTask iter { st.tasks iter with status := .idle })
  | exit (task : Task) (zombie : task.status = .zombie) : Visit iter st (st.setTask iter task)
  | keep (done : (st.tasks iter).status ≠ .running) : Visit iter st st
  | collect (done : (st.tasks iter).status = .zombie ∨ (st.tasks iter).status = .finished)
      (user : iter ≠ st.kernelTask)
      : Visit iter st (destroyTask iter st)

theorem visitTask_visit {iter : Node} {st : Tasking} (some : queueEmpty .mainQueue st = false)
    : Visit iter st (visitTask iter st) := by
  have leaving (active : (st.tasks iter).status = .running ∨ (st.tasks iter).status = .yield)
      : Visit iter st (if (st.tasks iter).regs.ecx = exitMark then
          st.setTask iter { st.tasks iter with
            regs := { (st.tasks iter).regs with ecx := 0 }
            status := .zombie
            exitcode := (st.tasks iter).regs.eax }
        else st.setTask iter { st.tasks iter with status := .idle }) := by
    split
    · exact .exit _ rfl
    · rename_i stays
      exact .pause active stays
  have ended (done : (st.tasks iter).status = .zombie ∨ (st.tasks iter).status = .finished)
      : Visit iter st (if iter = st.kernelTask then
          if queueEmpty .mainQueue st then
            st.setTask iter { st.tasks iter with
              regs := { (st.tasks iter).regs with ebx := 0x50000000 }
              status := .running }
          else st
        else destroyTask iter st) := by
    split
    · rw [some]
      exact .keep (by rcases done with same | same <;> rw [same] <;> decide)
    · rename_i user
      exact .collect done user
  rw [visitTask]
  cases status : (st.tasks iter).status with
  | yield => exact leaving (Or.inr status)
  | running => exact leaving (Or.inl status)
  | idle => exact .resume status
  | zombie => exact ended (Or.inl status)
  | finished => exact ended (Or.inr status)
  | created => exact .keep (by rw [status]; decide)
  | stopped => exact .keep (by rw [status]; decide)

/-- The frames of all tasks that can go on satisfy `good`. -/
def FramesGood (good : Node → CPURegisters → Prop) (st : Tasking) (nodes : List Node) : Prop :=
  ∀ node ∈ nodes, st.Resumable node → good node (st.tasks node).regs

/-- Rewriting one task that stays in the queue. -/
theorem RunQueue.setTask {st : Tasking} {nodes : List Node} (h : RunQueue st nodes) (iter : Node)
    (task : Task)
    : RunQueue (st.setTask iter task) nodes :=
  ⟨h.queue.congr (fun _ _ => rfl), h.tasks, h.kernel⟩

theorem SameOutside.setTask (nodes : List Node) (st : Tasking) (iter : Node) (task : Task)
    : SameOutside nodes st (st.setTask iter task) :=
  ⟨fun _ _ => rfl, rfl, rfl, rfl, rfl⟩

theorem FramesGood.setTask {good : Node → CPURegisters → Prop} {st : Tasking}
    {nodes : List Node} (h : FramesGood good st nodes) {iter : Node} {task : Task}
    (here : (st.setTask iter task).Resumable iter → good iter task.regs)
    : FramesGood good (st.setTask iter task) nodes := by
  intro node member resumable
  by_cases same : node = iter
  · subst same
    simp only [Tasking.setTask, Function.update_self]
    exact here resumable
  · simp only [Tasking.Resumable, Tasking.setTask, Function.update_of_ne same] at resumable ⊢
    exact h node member resumable

/-- A visit keeps the queue and its frames, and makes only a task run that could go on. -/
theorem Visit.keeps {good : Node → CPURegisters → Prop} {iter : Node} {st st' : Tasking}
    {nodes : List Node} (visit : Visit iter st st') (h : RunQueue st nodes)
    (frames : FramesGood good st nodes) (member : iter ∈ nodes)
    : ∃ nodes', RunQueue st' nodes' ∧ nodes' ⊆ nodes ∧ SameOutside nodes st st'
        ∧ FramesGood good st' nodes'
        ∧ (st'.next iter ∈ nodes' ∨ st'.next iter = .mainQueue)
        ∧ ((st'.tasks iter).status = .running
          → iter ∈ nodes' ∧ good iter (st'.tasks iter).regs) := by
  have stays := h.queue.next_mem member
  cases visit with
  | resume idle =>
      have here : good iter (st.tasks iter).regs := frames iter member (Or.inl idle)
      refine ⟨nodes, h.setTask _ _, List.Subset.refl _, .setTask _ _ _ _,
        frames.setTask (fun _ => here), stays, fun _ => ⟨member, ?_⟩⟩
      simpa only [Tasking.setTask, Function.update_self] using here
  | pause active still =>
      have here : good iter (st.tasks iter).regs := frames iter member (Or.inr ⟨active, still⟩)
      refine ⟨nodes, h.setTask _ _, List.Subset.refl _, .setTask _ _ _ _,
        frames.setTask (fun _ => here), stays, fun running => ?_⟩
      simp [Tasking.setTask] at running
  | exit task zombie =>
      refine ⟨nodes, h.setTask _ _, List.Subset.refl _, .setTask _ _ _ _,
        frames.setTask (fun resumable => ?_), stays, fun running => ?_⟩
      · simp [Tasking.Resumable, Tasking.setTask, zombie] at resumable
      · simp [Tasking.setTask, zombie] at running
  | keep done =>
      exact ⟨nodes, h, List.Subset.refl _, .refl _ _, frames, stays,
        fun running => absurd running done⟩
  | collect done user =>
      obtain ⟨queue, next, links⟩ := h.queue.delete member
      have notNew : (st.tasks iter).status ≠ .created := by
        rcases done with same | same <;> rw [same] <;> decide
      have stopped : stopTask iter st = queueDelEntry iter st := by
        rw [stopTask, if_neg notNew]
      have tasks : (destroyTask iter st).tasks = st.tasks := by
        rw [destroyTask, stopped]
        rfl
      refine ⟨nodes.erase iter, ⟨?_, ?_, ?_⟩, List.erase_subset, ⟨?_, ?_, ?_, ?_, ?_⟩, ?_, ?_, ?_⟩
      · rw [destroyTask, stopped]
        exact queue.congr (fun _ _ => rfl)
      · exact fun node inside => h.tasks node (List.mem_of_mem_erase inside)
      · rw [destroyTask, stopped]
        exact (List.mem_erase_of_ne (Ne.symm user)).mpr h.kernel
      · rw [destroyTask, stopped]
        exact links
      · rw [destroyTask, stopped]; rfl
      · rw [destroyTask, stopped]; rfl
      · rw [destroyTask, stopped]; rfl
      · rw [destroyTask, stopped]; rfl
      · intro node inside resumable
        rw [tasks]
        rw [Tasking.Resumable, tasks] at resumable
        exact frames node (List.mem_of_mem_erase inside) resumable
      · have same : (destroyTask iter st).next iter = st.next iter := by
          rw [destroyTask, stopped]
          exact next
        rw [same]
        exact h.queue.next_erase_mem member
      · rw [tasks]
        intro running
        rcases done with same | same <;> rw [same] at running <;> contradiction

/-- A scan that ends has picked a task that could go on, and left the other frames good; by
induction over the rounds.
-/
theorem scanQueue_keeps {good : Node → CPURegisters → Prop} {fuel : Nat} {iter : Node}
    {st st' : Tasking} {nodes : List Node} (h : RunQueue st nodes)
    (frames : FramesGood good st nodes) (member : iter ∈ nodes)
    (run : scanQueue fuel iter st = some st')
    : ∃ nodes', RunQueue st' nodes' ∧ nodes' ⊆ nodes ∧ SameOutside nodes st st'
        ∧ FramesGood good st' nodes' ∧ st'.currentTask ∈ nodes'
        ∧ good st'.currentTask (st'.tasks st'.currentTask).regs := by
  induction fuel generalizing iter st nodes with
  | zero => contradiction
  | succ fuel ih =>
      have filled : ¬ (st.next .mainQueue = .mainQueue ∨ st.prev .mainQueue = .mainQueue) := by
        have notMember := (List.nodup_cons.mp h.queue.distinct).1
        rintro (first | last)
        · exact notMember (first ▸ h.queue.next_head_mem h.nonempty)
        · exact notMember (last ▸ h.queue.prev_head_mem.2 h.nonempty)
      rw [scanQueue, if_neg filled] at run
      obtain ⟨nodes', h', sub, outside, frames', next, picked⟩ :=
        (visitTask_visit h.queueEmpty_eq).keeps h frames member
      dsimp only at run
      split at run
      · rename_i running
        obtain ⟨inside, goodFrame⟩ := picked running
        obtain rfl := Option.some.inj run
        exact ⟨nodes', ⟨h'.queue.congr (fun _ _ => rfl), h'.tasks, h'.kernel⟩, sub,
          ⟨outside.links, outside.semaphores, outside.kernelTask, outside.nextPID,
            outside.semctlReady⟩, frames', inside, goodFrame⟩
      · obtain ⟨last, hl, sub', outside', rest⟩ :=
          ih h' frames' (h'.queue.listPassEntry_mem h'.nonempty next) run
        exact ⟨last, hl, List.Subset.trans sub' sub, outside.trans outside' sub, rest⟩

end DeadKernel
