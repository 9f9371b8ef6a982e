import DeadKernel.Foundation.Rounds
import DeadKernel.Multitasking.RunQueue

/-! The scan of the run queue as visits around a circle of tasks. -/

namespace DeadKernel

open Rings Rounds

/-- A queue holds one sequence of nodes. -/
theorem Queue.unique {st : Tasking} {head : Node} {nodes nodes' : List Node}
    (h : Queue st head nodes) (h' : Queue st head nodes')
    : nodes = nodes' := by
  have long : nodes.length < nodes.length + nodes'.length + 1 := by omega
  have long' : nodes'.length < nodes.length + nodes'.length + 1 := by omega
  have walked := h.ring.forward (List.nodup_cons.mp h.distinct).1 long
  have walked' := h'.ring.forward (List.nodup_cons.mp h'.distinct).1 long'
  exact Option.some.inj (walked.symm.trans walked')

-----------------------------------------------------------------------------------------
-- The run queue as a circle
-----------------------------------------------------------------------------------------

/-- The run queue holds `order`, read in a circle from its first task on. -/
def Circle (st : Tasking) (order : List Node) : Prop :=
  ∃ front back, order = back ++ front ∧ Queue st .mainQueue (front ++ back)

section Circle

variable {st st' : Tasking} {order rest : List Node} {node : Node}

/-- A circle read from `node`, as the queue around it. -/
theorem Circle.around (h : Circle st (node :: rest))
    : ∃ front back, rest = back ++ front ∧ Queue st .mainQueue (front ++ node :: back) := by
  obtain ⟨front, back, same, queue⟩ := h
  cases back with
  | nil =>
      rw [List.nil_append] at same
      rw [List.append_nil, ← same] at queue
      exact ⟨[], rest, by simp, by simpa using queue⟩
  | cons first back =>
      obtain ⟨rfl, rfl⟩ := List.cons.inj same
      exact ⟨front, back, rfl, queue⟩

/-- A circle depends on the links of its own nodes only. -/
theorem Circle.congr (h : Circle st order)
    (same : ∀ node ∈ Node.mainQueue :: order, st'.links node = st.links node)
    : Circle st' order := by
  obtain ⟨front, back, rfl, queue⟩ := h
  refine ⟨front, back, rfl, queue.congr (fun node member => same node ?_)⟩
  simpa [or_comm] using member

theorem Circle.nodup (h : Circle st order) : order.Nodup := by
  obtain ⟨front, back, rfl, queue⟩ := h
  exact List.perm_append_comm.nodup_iff.mp (List.nodup_cons.mp queue.distinct).2

/-- A task in the run queue is in the circle. -/
theorem Circle.mem_of_linkedIn (h : Circle st order)
    (linked : st.LinkedIn .mainQueue node)
    : node ∈ order := by
  obtain ⟨nodes, queue, member⟩ := linked
  obtain ⟨front, back, rfl, same⟩ := h
  obtain rfl := queue.unique same
  simpa [or_comm] using member

theorem Circle.linkedIn_of_mem (h : Circle st order)
    (member : node ∈ order)
    : st.LinkedIn .mainQueue node := by
  obtain ⟨front, back, rfl, same⟩ := h
  exact ⟨front ++ back, same, by simpa [or_comm] using member⟩

theorem Circle.rotate (h : Circle st (node :: rest)) : Circle st (rest ++ [node]) := by
  obtain ⟨front, back, rfl, queue⟩ := h.around
  exact ⟨front ++ [node], back, by simp, by simpa using queue⟩

/-- Any other way to cut the same queue open. -/
theorem Circle.turn {part : List Node} (h : Circle st (part ++ rest)) : Circle st (rest ++ part) := by
  induction part generalizing rest with
  | nil => simpa using h
  | cons node part ih =>
      have rotated : Circle st (part ++ (rest ++ [node])) := by simpa using h.rotate
      simpa using ih rotated

/-- A new task joins the circle in front of the queue's head. -/
theorem Circle.addTail {new : Node} (h : Circle st order) (notHead : new ≠ .mainQueue)
    (fresh : new ∉ order)
    : ∃ order', Circle (queueAddTail new .mainQueue st) order' ∧ order'.Perm (new :: order)
        ∧ ∀ other, other ∉ new :: Node.mainQueue :: order
          → (queueAddTail new .mainQueue st).links other = st.links other := by
  obtain ⟨front, back, rfl, queue⟩ := h
  have outside : new ∉ Node.mainQueue :: (front ++ back) :=
    List.not_mem_cons_of_ne_of_not_mem notHead (by simpa [and_comm] using fresh)
  obtain ⟨queue', links⟩ := queue.addTail outside
  refine ⟨back ++ [new] ++ front, ⟨front, back ++ [new], rfl, by simpa using queue'⟩, ?_, ?_⟩
  · rw [List.append_assoc]
    exact List.perm_middle
  · intro other away
    refine links other (fun inside => away ?_)
    simpa [or_comm, or_left_comm] using inside

/-- Only an empty queue has a head linked to itself. -/
theorem Circle.empty_iff (h : Circle st order)
    : (st.next .mainQueue = .mainQueue ∨ st.prev .mainQueue = .mainQueue) ↔ order = [] := by
  obtain ⟨front, back, rfl, queue⟩ := h
  have outside := (List.nodup_cons.mp queue.distinct).1
  constructor
  · intro self
    by_contra filled
    have some : front ++ back ≠ [] := by
      intro none
      apply filled
      simpa [and_comm] using none
    rcases self with first | last
    · exact outside (first ▸ queue.next_head_mem some)
    · exact outside (last ▸ queue.prev_head_mem.2 some)
  · intro none
    have closed : front ++ back = [] := by simpa [and_comm] using none
    rw [closed] at queue
    exact Or.inl queue.ring.next_head

/-- `list_pass_entry` goes round the circle. -/
theorem Circle.listPassEntry_eq (h : Circle st (node :: rest))
    : listPassEntry st node .mainQueue = (rest ++ [node]).head (by simp) := by
  obtain ⟨front, back, rfl, queue⟩ := h.around
  have outside := (List.nodup_cons.mp queue.distinct).1
  obtain ⟨-, -, right, others, -, back_eq, next_eq, -⟩ := queue.ring.around
  have next : st.next node = right := next_eq
  rw [listPassEntry, next]
  cases back with
  | nil =>
      obtain ⟨rfl, -⟩ := List.cons.inj back_eq
      have first : st.next .mainQueue = (front ++ [node] ++ [Node.mainQueue]).head (by simp) :=
        queue.ring.next_head
      rw [if_pos rfl, first]
      cases front <;> rfl
  | cons second back =>
      obtain ⟨rfl, -⟩ := List.cons.inj back_eq
      rw [if_neg (fun same => outside (by simp [← same]))]
      rfl

/-- Where the scan goes on behind a task that stays. -/
theorem Circle.next_entry (h : Circle st (node :: rest))
    : (rest ++ [node]).headD (listPassEntry st node .mainQueue)
      = listPassEntry st node .mainQueue := by
  rw [h.listPassEntry_eq]
  cases rest <;> rfl

/-- Taking the first task out of the circle. Its own links are left, so the scan goes on behind
it.
-/
theorem Circle.delete (h : Circle st (node :: rest))
    : Circle (queueDelEntry node st) rest
      ∧ rest.headD (listPassEntry (queueDelEntry node st) node .mainQueue)
        = listPassEntry (queueDelEntry node st) node .mainQueue
      ∧ ∀ other, other ∉ Node.mainQueue :: node :: rest
        → (queueDelEntry node st).links other = st.links other := by
  obtain ⟨front, back, rfl, queue⟩ := h.around
  have member : node ∈ front ++ node :: back := by simp
  have notFront : node ∉ front := by
    have distinct := (List.nodup_append.mp (List.nodup_cons.mp queue.distinct).2).2.2
    exact fun again => distinct node again node List.mem_cons_self rfl
  have erased : (front ++ node :: back).erase node = front ++ back := by
    rw [List.erase_append_right _ notFront, List.erase_cons_head]
  obtain ⟨queue', next, links⟩ := queue.delete member
  rw [erased] at queue'
  obtain ⟨-, -, right, others, -, back_eq, next_eq, -⟩ := queue.ring.around
  have next : (queueDelEntry node st).next node = right := next.trans next_eq
  refine ⟨⟨front, back, rfl, queue'⟩, ?_, fun other outside => links other ?_⟩
  · rw [listPassEntry, next]
    cases back with
    | nil =>
        obtain ⟨rfl, -⟩ := List.cons.inj back_eq
        have first : (queueDelEntry node st).next .mainQueue
            = (front ++ [] ++ [Node.mainQueue]).head (by simp) := queue'.ring.next_head
        rw [if_pos rfl, first]
        cases front <;> rfl
    | cons second back =>
        obtain ⟨rfl, -⟩ := List.cons.inj back_eq
        have outside := (List.nodup_cons.mp queue.distinct).1
        have inner : second ≠ Node.mainQueue := fun same => outside (by simp [same])
        rw [if_neg inner]
        rfl
  · intro inside
    apply outside
    simpa [or_assoc, or_comm, or_left_comm] using inside

end Circle

-----------------------------------------------------------------------------------------
-- The scan as rounds
-----------------------------------------------------------------------------------------

theorem Tasking.tasks_setTask (st : Tasking) (node : Node) (task : Task)
    : (st.setTask node task).tasks node = task :=
  Function.update_self _ _ _

/-- What the scan does with a task of a queue that is not empty. -/
def scanVisitor (kernelTask : Node) : Visitor Node Task where
  verdict node task :=
    match task.status with
    | .idle => .pick
    | .zombie | .finished => if node = kernelTask then .stay else .leave
    | .yield | .running | .created | .stopped => .stay
  value _ task :=
    match task.status with
    | .yield | .running =>
        if task.regs.ecx = exitMark then
          { task with
            regs := { task.regs with ecx := 0 }
            status := .zombie
            exitcode := task.regs.eax }
        else { task with status := .idle }
    | .idle => { task with status := .running }
    | .zombie | .finished | .created | .stopped => task

/-- `visitTask` either destroys the task or rewrites it. -/
theorem visitTask_eq {st : Tasking} {iter : Node} (filled : queueEmpty .mainQueue st = false)
    : visitTask iter st
      = if (scanVisitor st.kernelTask).verdict iter (st.tasks iter) = .leave then destroyTask iter st
        else st.setTask iter ((scanVisitor st.kernelTask).value iter (st.tasks iter)) := by
  have same : st.setTask iter (st.tasks iter) = st := by
    rw [Tasking.setTask, Function.update_eq_self]
  rw [visitTask]
  cases status : (st.tasks iter).status with
  | yield =>
      simp only [scanVisitor, status]
      split <;> rfl
  | running =>
      simp only [scanVisitor, status]
      split <;> rfl
  | idle => simp only [scanVisitor, status]; rfl
  | zombie =>
      simp only [scanVisitor, status, filled, same]
      by_cases kernel : iter = st.kernelTask <;> simp [kernel]
  | finished =>
      simp only [scanVisitor, status, filled, same]
      by_cases kernel : iter = st.kernelTask <;> simp [kernel]
  | created => simp only [scanVisitor, status, same]; rfl
  | stopped => simp only [scanVisitor, status, same]; rfl

/-- The scan ends with a task exactly when it picks it. -/
theorem scanVisitor_running (kernelTask node : Node) (task : Task)
    : ((scanVisitor kernelTask).value node task).status = .running
      ↔ (scanVisitor kernelTask).verdict node task = .pick := by
  cases status : task.status with
  | yield =>
      simp only [scanVisitor, status]
      split <;> simp
  | running =>
      simp only [scanVisitor, status]
      split <;> simp
  | idle => simp [scanVisitor, status]
  | zombie =>
      simp only [scanVisitor, status]
      split <;> simp
  | finished =>
      simp only [scanVisitor, status]
      split <;> simp
  | created => simp [scanVisitor, status]
  | stopped => simp [scanVisitor, status]

/-- The task goes on with its saved frame when a scan reaches it often enough. -/
def Task.Resumable (task : Task) : Prop :=
  task.status = .idle
    ∨ (task.status = .running ∨ task.status = .yield) ∧ task.regs.ecx ≠ exitMark

/-- The statuses of tasks that are queued and have not ended. -/
def Status.Active (status : Status) : Prop :=
  status = .idle ∨ status = .running ∨ status = .yield

section Visits

variable {task : Task} (kernelTask node : Node)

theorem pick_iff_idle
    : (scanVisitor kernelTask).verdict node task = .pick ↔ task.status = .idle := by
  cases status : task.status with
  | zombie => simp only [scanVisitor, status]; split <;> simp
  | finished => simp only [scanVisitor, status]; split <;> simp
  | idle | yield | running | created | stopped => simp [scanVisitor, status]

/-- A task that is passed and can go on stays in the circle, idle. -/
theorem Task.Resumable.passed (h : task.Resumable) (notIdle : task.status ≠ .idle)
    : (scanVisitor kernelTask).verdict node task = .stay
      ∧ ((scanVisitor kernelTask).value node task).status = .idle
      ∧ ((scanVisitor kernelTask).value node task).regs = task.regs := by
  obtain ⟨active, stays⟩ := h.resolve_left notIdle
  rcases active with status | status <;> simp [scanVisitor, status, stays]

theorem value_of_idle (idle : task.status = .idle)
    : (scanVisitor kernelTask).value node task = { task with status := .running } := by
  simp [scanVisitor, idle]

/-- A visit picks a task that can go on, or leaves it where it can go on. -/
theorem Task.Resumable.kept (h : task.Resumable)
    : (scanVisitor kernelTask).verdict node task = .pick
      ∨ (scanVisitor kernelTask).verdict node task = .stay
        ∧ ((scanVisitor kernelTask).value node task).Resumable := by
  by_cases idle : task.status = .idle
  · exact Or.inl ((pick_iff_idle kernelTask node).mpr idle)
  · obtain ⟨stays, later, -⟩ := h.passed kernelTask node idle
    exact Or.inr ⟨stays, Or.inl later⟩

/-- The scan does not destroy the kernel task. -/
theorem kernelTask_kept
    : (scanVisitor kernelTask).verdict kernelTask task = .pick
      ∨ (scanVisitor kernelTask).verdict kernelTask task = .stay := by
  cases status : task.status <;> simp [scanVisitor, status]

/-- A task that cannot go on stays so. -/
theorem value_not_resumable (h : ¬ task.Resumable)
    : ¬ ((scanVisitor kernelTask).value node task).Resumable := by
  cases status : task.status with
  | idle => exact absurd (Or.inl status) h
  | yield =>
      have marked : task.regs.ecx = exitMark :=
        not_not.mp (fun stays => h (Or.inr ⟨Or.inr status, stays⟩))
      simp [scanVisitor, status, marked, Task.Resumable]
  | running =>
      have marked : task.regs.ecx = exitMark :=
        not_not.mp (fun stays => h (Or.inr ⟨Or.inl status, stays⟩))
      simp [scanVisitor, status, marked, Task.Resumable]
  | zombie | finished | created | stopped => simpa [scanVisitor, status] using h

/-- A task that leaves the queue is not rewritten. -/
theorem value_of_leave {kernelTask node : Node} {task : Task}
    (leaves : (scanVisitor kernelTask).verdict node task = .leave)
    : (scanVisitor kernelTask).value node task = task := by
  cases ended : task.status <;> simp [scanVisitor, ended] at leaves ⊢

/-- A visit does not make a task new. -/
theorem value_not_created (h : task.status ≠ .created)
    : ((scanVisitor kernelTask).value node task).status ≠ .created := by
  cases status : task.status with
  | idle => simp [scanVisitor, status]
  | yield => simp only [scanVisitor, status]; split <;> simp
  | running => simp only [scanVisitor, status]; split <;> simp
  | zombie | finished | stopped => simp [scanVisitor, status]
  | created => exact absurd status h

end Visits

/-- What a scan of `order` leaves when its rounds end with `result`. -/
structure Scanned (st st' : Tasking) (order : List Node)
    (result : List Node × (Node → Task)) : Prop where
  circle : Circle st' result.1
  tasks : st'.tasks = result.2
  current : st'.currentTask = result.1.headD st.currentTask
  destroyed : (result.1 ++ st'.destroyed).Perm (order ++ st.destroyed)
  outside : SameOutside order st st'

/-- A task that leaves the queue was not new. -/
theorem destroyTask_leaving {st : Tasking} {iter : Node}
    (leaves : (scanVisitor st.kernelTask).verdict iter (st.tasks iter) = .leave)
    : destroyTask iter st
      = { queueDelEntry iter st with destroyed := iter :: st.destroyed } := by
  have known : (st.tasks iter).status ≠ .created := by
    intro created
    simp [scanVisitor, created] at leaves
  rw [destroyTask, stopTask, if_neg known]
  rfl

/-- The scan ends with the task it has just picked. -/
theorem visitTask_running {iter : Node} {st : Tasking} (filled : queueEmpty .mainQueue st = false)
    : ((visitTask iter st).tasks iter).status = .running
      ↔ (scanVisitor st.kernelTask).verdict iter (st.tasks iter) = .pick := by
  rw [visitTask_eq filled]
  split
  · rename_i leaves
    rw [destroyTask_leaving leaves, leaves]
    constructor
    · intro status
      change (st.tasks iter).status = .running at status
      simp [scanVisitor, status] at leaves
    · intro same
      contradiction
  · rw [← scanVisitor_running, Tasking.tasks_setTask]

/-- One visit of the scan, in a queue that is not empty. -/
theorem scanQueue_visit {fuel : Nat} {iter : Node} {st : Tasking}
    (linked : ¬ (st.next .mainQueue = .mainQueue ∨ st.prev .mainQueue = .mainQueue))
    : scanQueue (fuel + 1) iter st
      = if (scanVisitor st.kernelTask).verdict iter (st.tasks iter) = .pick then
          some { visitTask iter st with currentTask := iter }
        else scanQueue fuel (listPassEntry (visitTask iter st) iter .mainQueue)
          (visitTask iter st) := by
  have filled : queueEmpty .mainQueue st = false :=
    decide_eq_false (fun same => linked (Or.inl same))
  rw [scanQueue, if_neg linked]
  simp only [visitTask_running filled]

private theorem rel_imp {α β : Type} {first second : α → β → Prop} {left : Option α}
    {right : Option β} (h : Option.Rel first left right) (imp : ∀ a b, first a b → second a b)
    : Option.Rel second left right := by
  cases h with
  | some related => exact .some (imp _ _ related)
  | none => exact .none

/-- The scan of the run queue is the rounds of its visitor, by induction over the visits. -/
theorem Circle.scanQueue {st : Tasking} {order : List Node} (h : Circle st order) (fuel : Nat)
    {iter : Node} (entry : order.headD iter = iter)
    : Option.Rel (fun st' result => Scanned st st' order result)
        (scanQueue fuel iter st) (rounds (scanVisitor st.kernelTask) fuel order st.tasks) := by
  induction fuel generalizing st order iter with
  | zero => exact .none
  | succ fuel ih =>
      cases order with
      | nil =>
          rw [DeadKernel.scanQueue, if_pos (h.empty_iff.mpr rfl), rounds]
          exact .some ⟨h, rfl, rfl, .refl _, .refl _ _⟩
      | cons node rest =>
          obtain rfl : node = iter := entry
          have linked := mt h.empty_iff.mp (List.cons_ne_nil _ _)
          have filled : queueEmpty .mainQueue st = false :=
            decide_eq_false (fun same => linked (Or.inl same))
          have visit : visitTask node st = _ := visitTask_eq filled
          rw [scanQueue_visit linked, rounds]
          cases verdict : (scanVisitor st.kernelTask).verdict node (st.tasks node) with
          | pick =>
              rw [verdict, if_neg (by decide)] at visit
              rw [if_pos rfl, visit]
              exact .some ⟨h.congr (fun _ _ => rfl), rfl, rfl, .refl _,
                ⟨fun _ _ => rfl, rfl, rfl, rfl, rfl⟩⟩
          | stay =>
              rw [verdict, if_neg (by decide)] at visit
              rw [if_neg (by decide), visit]
              let st' := st.setTask node ((scanVisitor st.kernelTask).value node (st.tasks node))
              have circle : Circle st' (node :: rest) := h.congr (fun _ _ => rfl)
              refine rel_imp (ih circle.rotate circle.next_entry) ?_
              rintro last result ⟨circle, tasks, current, destroyed, outside⟩
              refine ⟨circle, tasks, current, destroyed.trans ?_, ?_⟩
              · exact (List.perm_append_singleton node rest).append_right _
              · refine (SameOutside.setTask _ st _ _).trans outside ?_
                intro member inside
                simpa [or_comm] using inside
          | leave =>
              have same : (scanVisitor st.kernelTask).value node (st.tasks node)
                  = st.tasks node := value_of_leave verdict
              rw [verdict, if_pos rfl, destroyTask_leaving verdict] at visit
              rw [if_neg (by decide), visit, same, Function.update_eq_self]
              obtain ⟨circle, next, links⟩ := h.delete
              let st' := { queueDelEntry node st with destroyed := node :: st.destroyed }
              have circle' : Circle st' rest := circle.congr (fun _ _ => rfl)
              have outside : SameOutside (node :: rest) st st' := ⟨links, rfl, rfl, rfl, rfl⟩
              refine rel_imp (ih circle' next) ?_
              rintro last result ⟨circle, tasks, current, destroyed, others⟩
              exact ⟨circle, tasks, current, destroyed.trans List.perm_middle,
                outside.trans others (List.subset_cons_self _ _)⟩

/-- The interrupted task with its frame saved, which the scan then starts behind. -/
def Tasking.saved (st : Tasking) (regs : CPURegisters) : Tasking :=
  st.setTask st.currentTask { st.tasks st.currentTask with regs }

/-- What `switchTask` returns once a task is picked. -/
def Tasking.resumed (st : Tasking) : CPURegisters × Tasking :=
  ((st.tasks st.currentTask).regs,
    { st with kernelStack := (st.tasks st.kernelTask).regs.esp })

/-- Once tasks exist, a switch wakes tasks and scans the queue from behind the current task. -/
theorem switchTask_eq {st : Tasking} (tasking : isTaskingInit st = true) (fuel : Nat)
    (regs : CPURegisters)
    : switchTask fuel regs st
      = (semctlProcess fuel (st.saved regs)).bind (fun woken =>
          (DeadKernel.scanQueue fuel (listPassEntry woken woken.currentTask .mainQueue) woken).map
            Tasking.resumed) := by
  rw [switchTask, if_neg (not_not.mpr tasking)]
  simp only [Option.map_eq_bind]
  rfl

theorem switchTask_inv {st : Tasking} (tasking : isTaskingInit st = true) {fuel : Nat}
    {regs : CPURegisters} {r : CPURegisters × Tasking} (run : switchTask fuel regs st = some r)
    : ∃ woken last, semctlProcess fuel (st.saved regs) = some woken
      ∧ DeadKernel.scanQueue fuel (listPassEntry woken woken.currentTask .mainQueue) woken
        = some last
      ∧ r = last.resumed := by
  rw [switchTask_eq tasking] at run
  obtain ⟨woken, process, scanning⟩ := Option.bind_eq_some_iff.mp run
  obtain ⟨last, scan, resumed⟩ := Option.map_eq_some_iff.mp scanning
  exact ⟨woken, last, process, scan, resumed.symm⟩

/-- A scan whose rounds end, with any fuel. -/
theorem Circle.scan {st : Tasking} {order : List Node} (h : Circle st order) {iter : Node}
    (entry : order.headD iter = iter) {enough : Nat} {result : List Node × (Node → Task)}
    (found : rounds (scanVisitor st.kernelTask) enough order st.tasks = some result)
    : (∀ fuel, enough ≤ fuel → ∃ st', DeadKernel.scanQueue fuel iter st = some st')
      ∧ ∀ {fuel st'}, DeadKernel.scanQueue fuel iter st = some st'
        → Scanned st st' order result := by
  refine ⟨fun fuel le => ?_, fun {fuel st'} run => ?_⟩
  · have scan := h.scanQueue fuel entry
    rw [rounds_mono found le] at scan
    generalize DeadKernel.scanQueue fuel iter st = last at scan
    cases scan with
    | some _ => exact ⟨_, rfl⟩
  · have scan := h.scanQueue fuel entry
    rw [run] at scan
    generalize reached : rounds (scanVisitor st.kernelTask) fuel order st.tasks = last at scan
    cases scan with
    | some scanned => exact rounds_unique reached found ▸ scanned

/-- Where the scan starts that interrupts `node`. -/
theorem Circle.entry {st : Tasking} {others : List Node} {node : Node}
    (h : Circle st (others ++ [node]))
    : (others ++ [node]).headD (listPassEntry st node .mainQueue)
      = listPassEntry st node .mainQueue := by
  have turned : Circle st (node :: others) := h.turn
  exact turned.next_entry

/-- Any task of a circle can be made its last. -/
theorem Circle.last {st : Tasking} {order : List Node} {node : Node} (h : Circle st order)
    (member : node ∈ order)
    : ∃ others, Circle st (others ++ [node]) ∧ (others ++ [node]).Perm order := by
  obtain ⟨front, back, rfl⟩ := List.append_of_mem member
  have turned : Circle st (back ++ (front ++ [node])) := by
    apply Circle.turn
    simpa using h
  refine ⟨back ++ front, by simpa using turned, ?_⟩
  rw [List.append_assoc]
  refine List.perm_append_comm.trans ?_
  simp

end DeadKernel
