import DeadKernel.Multitasking.RunQueue

/-! The run queue and the queues of tasks that wait for semaphores, and the moves between them. -/

namespace DeadKernel

open Rings

/-- Queueing at the front, behind the head. -/
theorem Queue.addHead {st : Tasking} {head new : Node} {nodes : List Node}
    (h : Queue st head nodes) (fresh : new ∉ head :: nodes)
    : Queue (listAdd new head st) head (new :: nodes)
      ∧ ∀ other, other ∉ new :: head :: nodes
        → (listAdd new head st).links other = st.links other := by
  have separate : (new :: head :: nodes).Nodup := List.nodup_cons.mpr ⟨fresh, h.distinct⟩
  obtain ⟨right, rest, right_eq⟩ : ∃ right rest, nodes ++ [head] = right :: rest :=
    List.exists_cons_of_ne_nil (by simp)
  have next : st.next head = right := by
    have first := h.ring.next_head
    simp only [right_eq, List.head_cons] at first
    exact first
  have prev : queueLinks.prev st.links right = head := by
    have gap : Rings.Ring queueLinks st.links head ([] ++ nodes) := h.ring
    obtain ⟨start, left, right', rest', front_eq, back_eq, -, prev_eq, -⟩ := gap.at_gap
    obtain ⟨-, rfl⟩ : start = [] ∧ head = left := by
      cases start with
      | nil => exact ⟨rfl, (List.cons.inj front_eq).1⟩
      | cons first start => simp at front_eq
    obtain ⟨rfl, -⟩ := List.cons.inj (right_eq.symm.trans back_eq)
    exact prev_eq
  constructor
  · have linked : Ring queueLinks (queueLinks.link new (queueLinks.prev st.links right) right
        st.links) head ([] ++ new :: nodes) :=
      Ring.link queueLinks_lawful h.ring right_eq separate (fun _ _ => trivial)
    rw [prev, ← next] at linked
    refine ⟨linked, ?_⟩
    exact (List.Perm.swap head new nodes).nodup_iff.mp separate
  · intro other outside
    have apart {node} (member : node ∈ new :: head :: nodes) : other ≠ node := by
      rintro rfl
      exact outside member
    have rightMem : right ∈ new :: head :: nodes := by
      have inside : right ∈ nodes ++ [head] := by simp [right_eq]
      rcases List.mem_append.mp inside with member | last
      · simp [member]
      · simp [List.mem_singleton.mp last]
    have nextMem : st.next head ∈ new :: head :: nodes := next ▸ rightMem
    simp only [listAdd, LinkStore.link, queueLinks]
    rw [Function.update_of_ne (apart (by simp)), Function.update_of_ne (apart (by simp)),
      Function.update_of_ne (apart (by simp)), Function.update_of_ne (apart nextMem)]

/-- Run queue, semaphores and their waiters are linked, and no task is in two places. -/
structure Queues (st : Tasking) (nodes sems : List Node) (waiting : Node → List Node) : Prop where
  run : Queue st .mainQueue nodes
  semaphores : Queue st .semaphoreQueue sems
  waiters : ∀ semaphore ∈ sems, Queue st semaphore.queue (waiting semaphore)
  named : ∀ semaphore ∈ sems, ∃ address, semaphore = .semaphore address
  tasks : ∀ node ∈ nodes, ∃ address, node = .task address
  blocked : ∀ semaphore ∈ sems, ∀ node ∈ waiting semaphore, ∃ address, node = .task address
  apart : ∀ semaphore ∈ sems, ∀ node ∈ waiting semaphore, node ∉ nodes
  separate : ∀ semaphore ∈ sems, ∀ semaphore' ∈ sems, ∀ node ∈ waiting semaphore,
    node ∈ waiting semaphore' → semaphore = semaphore'

section Queues

variable {st st' : Tasking} {nodes nodes' sems : List Node} {waiting : Node → List Node}
  {semaphore : Node}

theorem Queues.queue_eq (h : Queues st nodes sems waiting) (member : semaphore ∈ sems)
    : ∃ address, semaphore = .semaphore address ∧ semaphore.queue = .waiters address := by
  obtain ⟨address, rfl⟩ := h.named semaphore member
  exact ⟨address, rfl, rfl⟩

/-- A node that is neither a task nor the head is not in the run queue. -/
theorem Queues.not_run (h : Queues st nodes sems waiting) {node : Node}
    (notHead : node ≠ .mainQueue) (notTask : ∀ address, node ≠ .task address)
    : node ∉ Node.mainQueue :: nodes := by
  intro inside
  rcases List.mem_cons.mp inside with same | member
  · exact notHead same
  · obtain ⟨address, same⟩ := h.tasks node member
    exact notTask address same

/-- The nodes of a semaphore's queue are not in the run queue. -/
theorem Queues.waiters_apart (h : Queues st nodes sems waiting) (member : semaphore ∈ sems)
    {node : Node} (inside : node ∈ semaphore.queue :: waiting semaphore)
    : node ∉ Node.mainQueue :: nodes := by
  obtain ⟨address, -, queue⟩ := h.queue_eq member
  rcases List.mem_cons.mp inside with rfl | blocked
  · rw [queue]
    exact h.not_run Node.noConfusion (fun _ => Node.noConfusion)
  · obtain ⟨task, rfl⟩ := h.blocked _ member node blocked
    exact List.not_mem_cons_of_ne_of_not_mem Node.noConfusion (h.apart _ member _ blocked)

/-- The semaphores and their queue's head are neither tasks nor heads of other queues. -/
theorem Queues.semaphore_apart (h : Queues st nodes sems waiting) (member : semaphore ∈ sems)
    {node : Node} (inside : node ∈ Node.semaphoreQueue :: sems)
    : node ∉ Node.mainQueue :: nodes ∧ node ∉ semaphore.queue :: waiting semaphore := by
  obtain ⟨address, -, queue⟩ := h.queue_eq member
  have kind : node = .semaphoreQueue ∨ ∃ address, node = .semaphore address :=
    (List.mem_cons.mp inside).imp_right (h.named node)
  rw [queue]
  rcases kind with rfl | ⟨other, rfl⟩
  · refine ⟨h.not_run Node.noConfusion (fun _ => Node.noConfusion),
      List.not_mem_cons_of_ne_of_not_mem Node.noConfusion (fun blocked => ?_)⟩
    obtain ⟨task, same⟩ := h.blocked _ member _ blocked
    exact Node.noConfusion same
  · refine ⟨h.not_run Node.noConfusion (fun _ => Node.noConfusion),
      List.not_mem_cons_of_ne_of_not_mem Node.noConfusion (fun blocked => ?_)⟩
    obtain ⟨task, same⟩ := h.blocked _ member _ blocked
    exact Node.noConfusion same

/-- Two semaphores' queues share no node. -/
theorem Queues.waiters_separate (h : Queues st nodes sems waiting) {other : Node}
    (member : semaphore ∈ sems) (member' : other ∈ sems) (differs : other ≠ semaphore)
    {node : Node} (inside : node ∈ other.queue :: waiting other)
    : node ∉ semaphore.queue :: waiting semaphore := by
  obtain ⟨address, rfl, queue⟩ := h.queue_eq member
  obtain ⟨address', rfl, queue'⟩ := h.queue_eq member'
  rw [queue]
  rcases List.mem_cons.mp inside with rfl | blocked
  · rw [queue']
    refine List.not_mem_cons_of_ne_of_not_mem ?_ (fun blocked => ?_)
    · rintro again
      obtain rfl := Node.waiters.inj again
      exact differs rfl
    · obtain ⟨task, again⟩ := h.blocked _ member _ blocked
      exact Node.noConfusion again
  · obtain ⟨task, rfl⟩ := h.blocked _ member' node blocked
    exact List.not_mem_cons_of_ne_of_not_mem Node.noConfusion
      (fun again => differs (h.separate _ member' _ member _ blocked again))

/-- A change inside the run queue that only lets tasks go. -/
theorem Queues.of_run (h : Queues st nodes sems waiting) (run : Queue st' .mainQueue nodes')
    (sub : nodes' ⊆ nodes)
    (links : ∀ node, node ∉ Node.mainQueue :: nodes → st'.links node = st.links node)
    : Queues st' nodes' sems waiting where
  run := run
  semaphores := by
    refine h.semaphores.congr (fun node member => links node ?_)
    rcases List.mem_cons.mp member with rfl | inside
    · exact h.not_run Node.noConfusion (fun _ => Node.noConfusion)
    · obtain ⟨address, rfl⟩ := h.named node inside
      exact h.not_run Node.noConfusion (fun _ => Node.noConfusion)
  waiters semaphore member := (h.waiters semaphore member).congr
    (fun node inside => links node (h.waiters_apart member inside))
  named := h.named
  tasks node member := h.tasks node (sub member)
  blocked := h.blocked
  apart semaphore member node inside again := h.apart semaphore member node inside (sub again)
  separate := h.separate

theorem Queues.congr (h : Queues st nodes sems waiting) (links : st'.links = st.links)
    : Queues st' nodes sems waiting :=
  h.of_run (h.run.congr (fun node _ => congrFun links node)) (List.Subset.refl _)
    (fun node _ => congrFun links node)

/-- Tasks that move between the run queue and one semaphore's queue disturb nothing else. -/
theorem Queues.exchange (h : Queues st nodes sems waiting) (member : semaphore ∈ sems)
    {waiters : List Node} (run : Queue st' .mainQueue nodes')
    (queue : Queue st' semaphore.queue waiters)
    (known : nodes' ++ waiters ⊆ nodes ++ waiting semaphore)
    (disjoint : ∀ node ∈ waiters, node ∉ nodes')
    (links : ∀ node, node ∉ Node.mainQueue :: nodes → node ∉ semaphore.queue :: waiting semaphore
      → st'.links node = st.links node)
    : Queues st' nodes' sems (Function.update waiting semaphore waiters) := by
  have from_ {node : Node} (inside : node ∈ nodes' ∨ node ∈ waiters)
      : node ∈ nodes ∨ node ∈ waiting semaphore :=
    List.mem_append.mp (known (List.mem_append.mpr inside))
  have task {node : Node} (inside : node ∈ nodes' ∨ node ∈ waiters)
      : ∃ address, node = .task address :=
    (from_ inside).elim (h.tasks node) (h.blocked _ member node)
  have aside {other node : Node} (member' : other ∈ sems) (differs : other ≠ semaphore)
      (inside : node ∈ waiting other)
      : ¬ (node ∈ nodes' ∨ node ∈ waiters) := by
    intro again
    rcases from_ again with before | before
    · exact h.apart _ member' node inside before
    · exact differs (h.separate _ member' _ member node inside before)
  refine ⟨run, ?_, fun other member' => ?_, h.named, fun node inside => task (Or.inl inside),
    fun other member' node inside => ?_, fun other member' node inside => ?_,
    fun first firstMem second secondMem node inside again => ?_⟩
  · refine h.semaphores.congr (fun node inside => ?_)
    obtain ⟨notRun, notWaiting⟩ := h.semaphore_apart member inside
    exact links node notRun notWaiting
  · by_cases same : other = semaphore
    · subst same
      rw [Function.update_self]
      exact queue
    · rw [Function.update_of_ne same]
      exact (h.waiters other member').congr (fun node inside => links node
        (h.waiters_apart member' inside) (h.waiters_separate member member' same inside))
  · by_cases same : other = semaphore
    · subst same
      rw [Function.update_self] at inside
      exact task (Or.inr inside)
    · rw [Function.update_of_ne same] at inside
      exact h.blocked _ member' node inside
  · by_cases same : other = semaphore
    · subst same
      rw [Function.update_self] at inside
      exact disjoint node inside
    · rw [Function.update_of_ne same] at inside
      exact fun again => aside member' same inside (Or.inl again)
  · by_cases same : first = semaphore
    · by_cases same' : second = semaphore
      · rw [same, same']
      · subst same
        rw [Function.update_self] at inside
        rw [Function.update_of_ne same'] at again
        exact absurd (Or.inr inside) (aside secondMem same' again)
    · rw [Function.update_of_ne same] at inside
      by_cases same' : second = semaphore
      · subst same'
        rw [Function.update_self] at again
        exact absurd (Or.inr again) (aside firstMem same inside)
      · rw [Function.update_of_ne same'] at again
        exact h.separate _ firstMem _ secondMem node inside again

/-- The first waiter goes to the tail of the run queue. -/
theorem Queues.wake (h : Queues st nodes sems waiting) (member : semaphore ∈ sems) {task : Node}
    {rest : List Node} (first : waiting semaphore = task :: rest)
    : Queues (listMoveTail task .mainQueue st) (nodes ++ [task]) sems
        (Function.update waiting semaphore rest) := by
  have queue := h.waiters semaphore member
  have inside : task ∈ waiting semaphore := by simp [first]
  obtain ⟨queue', -, links⟩ := queue.delete inside
  rw [first, List.erase_cons_head] at queue'
  have run := h.run.congr (fun node run => links node (fun blocked =>
    h.waiters_apart member blocked run))
  have fresh : task ∉ Node.mainQueue :: nodes :=
    h.waiters_apart member (List.mem_cons_of_mem _ inside)
  obtain ⟨run', links'⟩ := run.addTail fresh
  have distinct : task ∉ rest := by
    have nodup := (List.nodup_cons.mp queue.distinct).2
    rw [first] at nodup
    exact (List.nodup_cons.mp nodup).1
  have notMoved {node : Node} (other : node ≠ task)
      (notRun : node ∉ Node.mainQueue :: nodes)
      : node ∉ task :: Node.mainQueue :: nodes :=
    List.not_mem_cons_of_ne_of_not_mem other notRun
  refine h.exchange member run' (queue'.congr (fun node left => links' node ?_)) ?_ ?_ ?_
  · have before : node ∈ semaphore.queue :: waiting semaphore := by
      rw [first]
      exact (List.mem_cons.mp left).elim (by simp +contextual) (by simp +contextual)
    refine notMoved ?_ (h.waiters_apart member before)
    rintro rfl
    rcases List.mem_cons.mp left with isHead | again
    · obtain ⟨address, -, queue_eq⟩ := h.queue_eq member
      obtain ⟨block, same⟩ := h.blocked _ member _ inside
      rw [same, queue_eq] at isHead
      exact Node.noConfusion isHead
    · exact distinct again
  · rw [first]
    simp
  · intro node left again
    rcases List.mem_append.mp again with before | last
    · exact h.apart _ member node (by simp [first, left]) before
    · exact distinct (List.mem_singleton.mp last ▸ left)
  · intro node notRun notWaiting
    rw [listMoveTail, links' node (notMoved ?_ notRun), links node notWaiting]
    rintro rfl
    exact notWaiting (List.mem_cons_of_mem _ inside)

/-- A task of the run queue goes to the front of a semaphore's queue. -/
theorem Queues.block (h : Queues st nodes sems waiting) (member : semaphore ∈ sems) {task : Node}
    (inside : task ∈ nodes)
    : Queues (listMove task semaphore.queue st) (nodes.erase task) sems
        (Function.update waiting semaphore (task :: waiting semaphore)) := by
  obtain ⟨run', -, links⟩ := h.run.delete inside
  have queue := (h.waiters semaphore member).congr (fun node blocked => links node
    (h.waiters_apart member blocked))
  have fresh : task ∉ semaphore.queue :: waiting semaphore :=
    fun blocked => h.waiters_apart member blocked (List.mem_cons_of_mem _ inside)
  obtain ⟨queue', links'⟩ := queue.addHead fresh
  have nodup := (List.nodup_cons.mp h.run.distinct).2
  have gone : task ∉ nodes.erase task := List.Nodup.not_mem_erase nodup
  refine h.exchange member (run'.congr (fun node left => links' node ?_)) queue' ?_ ?_ ?_
  · have before : node ∈ Node.mainQueue :: nodes :=
      (List.mem_cons.mp left).elim (by simp +contextual)
        (fun erased => List.mem_cons_of_mem _ (List.mem_of_mem_erase erased))
    refine List.not_mem_cons_of_ne_of_not_mem ?_ (fun blocked => h.waiters_apart member blocked before)
    rintro rfl
    rcases List.mem_cons.mp left with isHead | again
    · obtain ⟨address, same⟩ := h.tasks _ inside
      rw [same] at isHead
      exact Node.noConfusion isHead
    · exact gone again
  · intro node known
    rcases List.mem_append.mp known with left | blocked
    · exact List.mem_append_left _ (List.mem_of_mem_erase left)
    · rcases List.mem_cons.mp blocked with rfl | before
      · exact List.mem_append_left _ inside
      · exact List.mem_append_right _ before
  · intro node blocked left
    rcases List.mem_cons.mp blocked with rfl | before
    · exact gone left
    · exact h.apart _ member node before (List.mem_of_mem_erase left)
  · intro node notRun notWaiting
    rw [listMove, links' node ?_, links node notRun]
    refine List.not_mem_cons_of_ne_of_not_mem ?_ notWaiting
    rintro rfl
    exact notRun (List.mem_cons_of_mem _ inside)

/-- A block outside all queues can be made a task. -/
theorem Queues.allocTask (h : Queues st nodes sems waiting) {block : Nat}
    (notRun : .task block ∉ nodes)
    (notWaiting : ∀ semaphore ∈ sems, .task block ∉ waiting semaphore) (task : Task)
    : Queues (allocTask block task st) nodes sems waiting := by
  have links (node : Node) (other : node ≠ .task block)
      : (DeadKernel.allocTask block task st).links node = st.links node :=
    Function.update_of_ne other _ _
  refine ⟨h.run.congr (fun node inside => links node ?_),
    h.semaphores.congr (fun node inside => links node ?_),
    fun semaphore member => (h.waiters semaphore member).congr
      (fun node inside => links node ?_), h.named, h.tasks, h.blocked, h.apart, h.separate⟩
  · rintro rfl
    rcases List.mem_cons.mp inside with same | member
    · exact Node.noConfusion same
    · exact notRun member
  · rintro rfl
    rcases List.mem_cons.mp inside with same | member
    · exact Node.noConfusion same
    · obtain ⟨address, same⟩ := h.named _ member
      exact Node.noConfusion same
  · rintro rfl
    obtain ⟨address, -, queue⟩ := h.queue_eq member
    rw [queue] at inside
    rcases List.mem_cons.mp inside with same | blocked
    · exact Node.noConfusion same
    · exact notWaiting semaphore member blocked

/-- A task from elsewhere joins the run queue. -/
theorem Queues.addTask (h : Queues st nodes sems waiting) {block : Nat}
    (notRun : .task block ∉ nodes)
    (notWaiting : ∀ semaphore ∈ sems, .task block ∉ waiting semaphore)
    : Queues (queueAddTail (.task block) .mainQueue st) (nodes ++ [.task block]) sems waiting := by
  have fresh : Node.task block ∉ Node.mainQueue :: nodes :=
    List.not_mem_cons_of_ne_of_not_mem Node.noConfusion notRun
  obtain ⟨run, links⟩ := h.run.addTail fresh
  refine ⟨run, ?_, fun semaphore member => ?_, h.named, ?_, h.blocked, ?_, h.separate⟩
  · refine h.semaphores.congr (fun node inside => links node ?_)
    rcases List.mem_cons.mp inside with rfl | semaphore
    · exact List.not_mem_cons_of_ne_of_not_mem Node.noConfusion
        (h.not_run Node.noConfusion (fun _ => Node.noConfusion))
    · obtain ⟨address, rfl⟩ := h.named node semaphore
      exact List.not_mem_cons_of_ne_of_not_mem Node.noConfusion
        (h.not_run Node.noConfusion (fun _ => Node.noConfusion))
  · refine (h.waiters semaphore member).congr (fun node inside => links node ?_)
    refine List.not_mem_cons_of_ne_of_not_mem ?_ (h.waiters_apart member inside)
    rintro rfl
    rcases List.mem_cons.mp inside with isHead | blocked
    · obtain ⟨address, -, queue⟩ := h.queue_eq member
      rw [queue] at isHead
      exact Node.noConfusion isHead
    · exact notWaiting semaphore member blocked
  · intro node inside
    rcases List.mem_append.mp inside with before | last
    · exact h.tasks node before
    · exact ⟨block, List.mem_singleton.mp last⟩
  · intro semaphore member node inside again
    rcases List.mem_append.mp again with before | last
    · exact h.apart semaphore member node inside before
    · rw [List.mem_singleton.mp last] at inside
      exact notWaiting semaphore member inside

/-- A new semaphore has no waiters. -/
theorem Queues.addSemaphore (h : Queues st nodes sems waiting) {block : Nat}
    (fresh : Node.semaphore block ∉ sems)
    : Queues (queueAddTail (.semaphore block) .semaphoreQueue (initListHead (.waiters block) st))
        nodes (sems ++ [.semaphore block]) (Function.update waiting (.semaphore block) []) := by
  have added := h.semaphores.addSemaphore h.named fresh
  have cases_ {semaphore : Node} (member : semaphore ∈ sems ++ [.semaphore block])
      : semaphore = .semaphore block ∧ Function.update waiting (.semaphore block) [] semaphore = []
        ∨ semaphore ∈ sems ∧ semaphore ≠ .semaphore block
          ∧ Function.update waiting (.semaphore block) [] semaphore = waiting semaphore := by
    rcases List.mem_append.mp member with old | isNew
    · have other : semaphore ≠ .semaphore block := fun same => fresh (same ▸ old)
      exact Or.inr ⟨old, other, Function.update_of_ne other _ _⟩
    · rw [List.mem_singleton.mp isNew]
      exact Or.inl ⟨rfl, Function.update_self _ _ _⟩
  have task (address : Nat) := added.links (.task address) Node.noConfusion Node.noConfusion
    (fun _ => Node.noConfusion)
  refine ⟨?_, added.queue, fun semaphore member => ?_, ?_, h.tasks, fun semaphore member => ?_,
    fun semaphore member => ?_, fun first firstMem second secondMem node => ?_⟩
  · refine h.run.congr (fun node inside => ?_)
    rcases List.mem_cons.mp inside with rfl | running
    · exact added.links _ Node.noConfusion Node.noConfusion (fun _ => Node.noConfusion)
    · obtain ⟨address, rfl⟩ := h.tasks node running
      exact task address
  · rcases cases_ member with ⟨rfl, none⟩ | ⟨old, other, same⟩
    · rw [none]
      exact ⟨⟨congrArg Prod.fst added.empty, congrArg Prod.snd added.empty, trivial⟩,
        List.nodup_singleton _⟩
    · rw [same]
      refine (h.waiters semaphore old).congr (fun node inside => ?_)
      obtain ⟨address, rfl, queue⟩ := h.queue_eq old
      rw [queue] at inside
      rcases List.mem_cons.mp inside with rfl | blocked
      · refine added.links _ (fun same => other ?_) Node.noConfusion (fun _ => Node.noConfusion)
        rw [Node.waiters.inj same]
      · obtain ⟨address, rfl⟩ := h.blocked _ old node blocked
        exact task address
  · intro semaphore member
    rcases cases_ member with ⟨rfl, -⟩ | ⟨old, -⟩
    · exact ⟨block, rfl⟩
    · exact h.named semaphore old
  · rcases cases_ member with ⟨-, none⟩ | ⟨old, -, same⟩
    · simp [none]
    · rw [same]
      exact h.blocked semaphore old
  · rcases cases_ member with ⟨-, none⟩ | ⟨old, -, same⟩
    · simp [none]
    · rw [same]
      exact h.apart semaphore old
  · rcases cases_ firstMem with ⟨-, none⟩ | ⟨old, -, same⟩
    · simp [none]
    · rcases cases_ secondMem with ⟨-, none'⟩ | ⟨old', -, same'⟩
      · simp [none']
      · rw [same, same']
        exact h.separate _ old _ old' node

/-- A semaphore leaves with its queue. -/
theorem Queues.removeSemaphore (h : Queues st nodes sems waiting) (member : semaphore ∈ sems)
    : Queues (queueDelEntry semaphore st) nodes (sems.erase semaphore) waiting := by
  obtain ⟨semaphores, -, links⟩ := h.semaphores.delete member
  have old {other : Node} (inside : other ∈ sems.erase semaphore) : other ∈ sems :=
    List.mem_of_mem_erase inside
  refine ⟨?_, semaphores, fun other inside => ?_, fun other inside => h.named other (old inside),
    h.tasks, fun other inside => h.blocked other (old inside),
    fun other inside => h.apart other (old inside),
    fun first firstMem second secondMem => h.separate first (old firstMem) second (old secondMem)⟩
  · refine h.run.congr (fun node inside => links node (fun semaphore' => ?_))
    exact (h.semaphore_apart member semaphore').1 inside
  · refine (h.waiters other (old inside)).congr (fun node blocked => links node (fun again => ?_))
    exact (h.semaphore_apart (old inside) again).2 blocked

end Queues

-----------------------------------------------------------------------------------------
-- Waking
-----------------------------------------------------------------------------------------

/-- What `semctl_process` and `semctl` leave alone: everything but links and semaphores. -/
structure SameTasking (st st' : Tasking) : Prop where
  tasks : st'.tasks = st.tasks
  kernelTask : st'.kernelTask = st.kernelTask
  currentTask : st'.currentTask = st.currentTask
  nextPID : st'.nextPID = st.nextPID
  semctlReady : st'.semctlReady = st.semctlReady
  destroyed : st'.destroyed = st.destroyed

theorem SameTasking.refl (st : Tasking) : SameTasking st st :=
  ⟨rfl, rfl, rfl, rfl, rfl, rfl⟩

theorem SameTasking.trans {st st' st'' : Tasking} (h : SameTasking st st')
    (h' : SameTasking st' st'')
    : SameTasking st st'' :=
  ⟨h'.tasks.trans h.tasks, h'.kernelTask.trans h.kernelTask, h'.currentTask.trans h.currentTask,
    h'.nextPID.trans h.nextPID, h'.semctlReady.trans h.semctlReady,
    h'.destroyed.trans h.destroyed⟩

/-- The waiter that `semctl_process` takes from a semaphore's queue, if it takes one. -/
def wokenBy (st : Tasking) (waiting : Node → List Node) (semaphore : Node) : List Node :=
  if 0 < (st.semaphores semaphore).count.toInt then (waiting semaphore).take 1 else []

def stillWaiting (st : Tasking) (waiting : Node → List Node) (semaphore : Node) : List Node :=
  if 0 < (st.semaphores semaphore).count.toInt then (waiting semaphore).drop 1
  else waiting semaphore

/-- Who waits after `semctl_process` has gone through `sems`. -/
def waitingAfter (st : Tasking) (sems : List Node) (waiting : Node → List Node)
    (semaphore : Node)
    : List Node :=
  if semaphore ∈ sems then stillWaiting st waiting semaphore else waiting semaphore

section Waking

variable {st st' : Tasking} {nodes sems : List Node} {waiting : Node → List Node}
  {semaphore : Node}

theorem Queue.queueEmpty_iff {head : Node} (h : Queue st head nodes)
    : queueEmpty head st = true ↔ nodes = [] := by
  have outside := (List.nodup_cons.mp h.distinct).1
  constructor
  · intro empty
    by_contra some
    have self : st.next head = head := of_decide_eq_true empty
    exact outside (self ▸ h.next_head_mem some)
  · rintro rfl
    exact decide_eq_true h.ring.next_head

theorem Queues.first_semaphore (h : Queues st nodes sems waiting)
    : st.next .semaphoreQueue = sems.headD .semaphoreQueue := by
  have ring := h.semaphores.ring.next_head
  rw [Tasking.next, ring]
  cases sems <;> rfl

/-- The front of a semaphore's queue, when somebody waits. -/
theorem Queues.first_waiter (h : Queues st nodes sems waiting) (member : semaphore ∈ sems)
    {task : Node} {rest : List Node} (blocked : waiting semaphore = task :: rest)
    : queueEmpty semaphore.queue st = false ∧ st.next semaphore.queue = task := by
  have queue := h.waiters semaphore member
  constructor
  · rw [← Bool.not_eq_true, queue.queueEmpty_iff, blocked]
    exact List.cons_ne_nil _ _
  · have first := queue.ring.next_head
    simp only [blocked, List.cons_append, List.head_cons] at first
    exact first

theorem Queues.wakeFirst (h : Queues st nodes sems waiting) (member : semaphore ∈ sems)
    : Queues (wakeFirst semaphore st) (nodes ++ wokenBy st waiting semaphore) sems
        (Function.update waiting semaphore (stillWaiting st waiting semaphore))
      ∧ SameTasking st (DeadKernel.wakeFirst semaphore st)
      ∧ ∀ other, other ≠ semaphore
        → (DeadKernel.wakeFirst semaphore st).semaphores other = st.semaphores other := by
  have queue := h.waiters semaphore member
  rw [DeadKernel.wakeFirst, wokenBy, stillWaiting]
  by_cases unit : 0 < (st.semaphores semaphore).count.toInt
  · rw [if_pos unit, if_pos unit]
    cases blocked : waiting semaphore with
    | nil =>
        have empty := queue.queueEmpty_iff.mpr blocked
        rw [if_neg (by simp [empty]), List.take_nil, List.append_nil, List.drop_nil, ← blocked,
          Function.update_eq_self]
        exact ⟨h, .refl st, fun _ _ => rfl⟩
    | cons task rest =>
        obtain ⟨some, next⟩ := h.first_waiter member blocked
        rw [if_pos ⟨unit, some⟩]
        simp only [next]
        let st' := (st.print (.restore semaphore task)).setSemaphore semaphore
          { st.semaphores semaphore with count := (st.semaphores semaphore).count - 1 }
        have same : Queues st' nodes sems waiting := h.congr rfl
        exact ⟨same.wake member blocked, ⟨rfl, rfl, rfl, rfl, rfl, rfl⟩,
          fun other differs => Function.update_of_ne differs _ _⟩
  · rw [if_neg unit, if_neg unit, if_neg (fun both => unit both.1), List.append_nil,
      Function.update_eq_self]
    exact ⟨h, .refl st, fun _ _ => rfl⟩

theorem Queues.next_semaphore {done rest : List Node} (h : Queues st nodes sems waiting)
    (split : sems = done ++ semaphore :: rest)
    : semaphore ≠ .semaphoreQueue ∧ st.next semaphore = rest.headD .semaphoreQueue := by
  constructor
  · have member : semaphore ∈ sems := by simp [split]
    obtain ⟨address, rfl⟩ := h.named semaphore member
    exact Node.noConfusion
  · have ring := h.semaphores.ring
    rw [split] at ring
    obtain ⟨-, -, right, more, -, back_eq, next_eq, -⟩ := ring.around
    rw [Tasking.next, next_eq]
    cases rest with
    | nil => exact (List.cons.inj back_eq).1.symm
    | cons second rest => exact (List.cons.inj back_eq).1.symm

/-- A round of `semctl_process` wakes for one semaphore and goes on with the next one. -/
theorem Queues.processFrom_round {done rest : List Node} (h : Queues st nodes sems waiting)
    (split : sems = done ++ semaphore :: rest) (fuel : Nat)
    : processFrom (fuel + 1) semaphore st
      = processFrom fuel (rest.headD .semaphoreQueue) (DeadKernel.wakeFirst semaphore st) := by
  have member : semaphore ∈ sems := by simp [split]
  obtain ⟨woken, -, -⟩ := h.wakeFirst member
  rw [DeadKernel.processFrom, if_neg (h.next_semaphore split).1]
  simp only [(woken.next_semaphore split).2]

theorem Queues.round {done rest : List Node} (h : Queues st nodes sems waiting)
    (split : sems = done ++ semaphore :: rest) {fuel : Nat}
    (run : processFrom fuel semaphore st = some st')
    : ∃ fuel, processFrom fuel (rest.headD .semaphoreQueue) (DeadKernel.wakeFirst semaphore st)
        = some st' := by
  cases fuel with
  | zero => contradiction
  | succ fuel => exact ⟨fuel, (h.processFrom_round split fuel).symm.trans run⟩

/-- Every semaphore takes one round, by induction over those that are left. -/
theorem Queues.processFrom_ends {done rest : List Node} (h : Queues st nodes sems waiting)
    (split : sems = done ++ rest) {fuel : Nat} (enough : rest.length < fuel)
    : ∃ st', processFrom fuel (rest.headD .semaphoreQueue) st = some st' := by
  induction rest generalizing st nodes waiting done fuel with
  | nil =>
      obtain ⟨fuel, rfl⟩ := Nat.exists_eq_add_of_lt enough
      exact ⟨st, by rw [List.headD_nil, DeadKernel.processFrom, if_pos rfl]⟩
  | cons semaphore rest ih =>
      obtain ⟨fuel, rfl⟩ : ∃ more, fuel = more + 1 := ⟨fuel - 1, by omega⟩
      obtain ⟨woken, -, -⟩ := h.wakeFirst (by simp [split] : semaphore ∈ sems)
      rw [List.headD_cons, h.processFrom_round split]
      exact ih woken (by rw [split]; simp : sems = (done ++ [semaphore]) ++ rest)
        (Nat.lt_of_succ_lt_succ enough)

/-- When nobody is woken, the rounds change nothing. -/
theorem Queues.processFrom_quiet {done rest : List Node} (h : Queues st nodes sems waiting)
    (split : sems = done ++ rest) (quiet : ∀ other ∈ rest, wokenBy st waiting other = [])
    {fuel : Nat} (run : processFrom fuel (rest.headD .semaphoreQueue) st = some st')
    : st' = st := by
  induction rest generalizing done fuel with
  | nil =>
      cases fuel with
      | zero => contradiction
      | succ fuel =>
          rw [List.headD_nil, DeadKernel.processFrom, if_pos rfl] at run
          exact (Option.some.inj run).symm
  | cons semaphore rest ih =>
      have asleep : DeadKernel.wakeFirst semaphore st = st := by
        have none := quiet semaphore List.mem_cons_self
        have queue := h.waiters semaphore (by simp [split])
        refine if_neg (fun both => ?_)
        rw [wokenBy, if_pos both.1, List.take_eq_nil_iff] at none
        have empty := queue.queueEmpty_iff.mpr (none.resolve_left (by decide))
        exact Bool.noConfusion (both.2.symm.trans empty)
      obtain ⟨fuel, later⟩ := h.round split run
      rw [asleep] at later
      exact ih (by rw [split]; simp : sems = (done ++ [semaphore]) ++ rest)
        (fun other member => quiet other (List.mem_cons_of_mem _ member)) later

/-- The rounds of `semctl_process`, by induction over the semaphores that are left. -/
theorem Queues.processFrom {done rest : List Node} (h : Queues st nodes sems waiting)
    (split : sems = done ++ rest) {fuel : Nat}
    (run : processFrom fuel (rest.headD .semaphoreQueue) st = some st')
    : Queues st' (nodes ++ rest.flatMap (wokenBy st waiting)) sems
        (waitingAfter st rest waiting)
      ∧ SameTasking st st' := by
  induction rest generalizing st nodes waiting done fuel with
  | nil =>
      cases fuel with
      | zero => contradiction
      | succ fuel =>
          rw [List.headD_nil, DeadKernel.processFrom, if_pos rfl] at run
          obtain rfl := Option.some.inj run
          have same : waitingAfter st [] waiting = waiting := by
            funext semaphore
            exact if_neg List.not_mem_nil
          rw [same, List.flatMap_nil, List.append_nil]
          exact ⟨h, .refl st⟩
  | cons semaphore rest ih =>
      have member : semaphore ∈ sems := by simp [split]
      have fresh : semaphore ∉ rest := by
        have distinct := (List.nodup_cons.mp h.semaphores.distinct).2
        rw [split] at distinct
        exact (List.nodup_cons.mp (List.nodup_append.mp distinct).2.1).1
      obtain ⟨woken, same, others⟩ := h.wakeFirst member
      obtain ⟨fuel, run⟩ := h.round split run
      have kept {other : Node} (inside : other ∈ rest) : other ≠ semaphore := by
        rintro rfl
        exact fresh inside
      obtain ⟨last, same'⟩ := ih woken (by rw [split]; simp : sems = (done ++ [semaphore]) ++ rest)
        run
      refine ⟨?_, same.trans same'⟩
      have wakes : rest.flatMap (wokenBy (DeadKernel.wakeFirst semaphore st)
          (Function.update waiting semaphore (stillWaiting st waiting semaphore)))
          = rest.flatMap (wokenBy st waiting) := by
        refine List.flatMap_congr (fun other inside => ?_)
        rw [wokenBy, wokenBy, others other (kept inside), Function.update_of_ne (kept inside)]
      have left : waitingAfter (DeadKernel.wakeFirst semaphore st) rest
          (Function.update waiting semaphore (stillWaiting st waiting semaphore))
          = waitingAfter st (semaphore :: rest) waiting := by
        funext other
        rw [waitingAfter, waitingAfter]
        by_cases inside : other ∈ rest
        · rw [if_pos inside, if_pos (List.mem_cons_of_mem _ inside), stillWaiting,
            others other (kept inside), Function.update_of_ne (kept inside)]
          rfl
        · by_cases isThis : other = semaphore
          · subst isThis
            rw [if_neg inside, if_pos List.mem_cons_self, Function.update_self]
          · rw [if_neg inside, if_neg (by simp [inside, isThis]), Function.update_of_ne isThis]
      rw [wakes, left, List.append_assoc] at last
      exact last

theorem Queues.semctlProcess_quiet (h : Queues st nodes sems waiting)
    (quiet : ∀ semaphore ∈ sems, wokenBy st waiting semaphore = []) (fuel : Nat)
    : (sems.length < fuel → semctlProcess fuel st = some st)
      ∧ ∀ {st'}, semctlProcess fuel st = some st' → st' = st := by
  rw [semctlProcess]
  split
  · have same {st' : Tasking} (run : DeadKernel.processFrom fuel (st.next .semaphoreQueue) st
        = some st')
        : st' = st := by
      rw [h.first_semaphore] at run
      exact h.processFrom_quiet (List.nil_append _).symm quiet run
    refine ⟨fun enough => ?_, same⟩
    obtain ⟨st', run⟩ := h.processFrom_ends (List.nil_append _).symm enough
    rw [← h.first_semaphore] at run
    rw [run, same run]
  · exact ⟨fun _ => rfl, fun run => (Option.some.inj run).symm⟩

end Waking

end DeadKernel
