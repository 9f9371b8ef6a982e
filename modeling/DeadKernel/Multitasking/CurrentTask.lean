import DeadKernel.Multitasking.RegisterIsolation
import DeadKernel.Multitasking.Scan
import DeadKernel.Multitasking.Waiting

/-! Whether `currentTask` is a live task of the run queue. A task that waits is moved to its
semaphore's queue only after `switchTask` has picked a successor, which may be the task itself;
and a scan that destroys the last task of the queue ends without a successor.
-/

namespace DeadKernel

open Rings Rounds

-----------------------------------------------------------------------------------------
-- The invariant
-----------------------------------------------------------------------------------------

/-- `currentTask` is linked in the run queue and not released. -/
def CurrentScheduled (st : Tasking) : Prop :=
  st.LinkedIn .mainQueue st.currentTask ∧ st.currentTask ∉ st.destroyed

/-- The task is in one of the queues. -/
def Held (nodes sems : List Node) (waiting : Node → List Node) (node : Node) : Prop :=
  node ∈ nodes ∨ ∃ semaphore ∈ sems, node ∈ waiting semaphore

/-- The queues are intact, their tasks live, and the current task is in the run queue. -/
structure Scheduled (st : Tasking) (nodes sems : List Node) (waiting : Node → List Node)
    : Prop extends Queues st nodes sems waiting where
  ready : st.semctlReady = true
  current : st.currentTask ∈ nodes
  active : (st.tasks st.currentTask).status.Active
  live : ∀ node, Held nodes sems waiting node → node ∉ st.destroyed
  started : ∀ node, Held nodes sems waiting node → (st.tasks node).status ≠ .created

/-- A task that the next switch visits: one of the run queue, or one that it wakes first. -/
def Tasking.Candidate (st : Tasking) (node : Node) : Prop :=
  st.LinkedIn .mainQueue node
    ∨ ∃ semaphore, st.LinkedIn .semaphoreQueue semaphore
        ∧ 0 < (st.semaphores semaphore).count.toInt
        ∧ queueEmpty semaphore.queue st = false ∧ st.next semaphore.queue = node

section Candidates

variable {st st' : Tasking} {nodes sems : List Node} {waiting : Node → List Node} {node : Node}

theorem Queue.linkedIn_iff {head : Node} (h : Queue st head nodes)
    : st.LinkedIn head node ↔ node ∈ nodes := by
  constructor
  · rintro ⟨nodes', queue, member⟩
    rwa [h.unique queue]
  · exact fun member => ⟨nodes, h, member⟩

theorem Queues.candidate_iff (h : Queues st nodes sems waiting)
    : st.Candidate node ↔ node ∈ nodes ++ sems.flatMap (wokenBy st waiting) := by
  rw [Tasking.Candidate, h.run.linkedIn_iff, List.mem_append, List.mem_flatMap]
  refine or_congr_right (exists_congr (fun semaphore => ?_))
  rw [h.semaphores.linkedIn_iff]
  refine and_congr_right (fun member => ?_)
  have queue := h.waiters semaphore member
  rw [wokenBy]
  by_cases unit : 0 < (st.semaphores semaphore).count.toInt
  · rw [if_pos unit]
    cases blocked : waiting semaphore with
    | nil =>
        have empty := queue.queueEmpty_iff.mpr blocked
        simp [empty]
    | cons first rest =>
        obtain ⟨some, next⟩ := h.first_waiter member blocked
        simp [unit, some, next, eq_comm]
  · simp [unit]

end Candidates

-----------------------------------------------------------------------------------------
-- One switch
-----------------------------------------------------------------------------------------

/-- A switch wakes tasks, scans the circle that starts behind the current task, and goes on with
the task in front of what is left.
-/
structure SwitchOutcome (st st' : Tasking) (regs : CPURegisters) (nodes sems : List Node)
    (waiting : Node → List Node) (others : List Node) (result : List Node × (Node → Task))
    : Prop where
  order : (others ++ [st.currentTask]).Perm (nodes ++ sems.flatMap (wokenBy st waiting))
  run : ∃ fuel, rounds (scanVisitor st.kernelTask) fuel (others ++ [st.currentTask])
    (st.saved regs).tasks = some result
  queues : ∃ nodes', nodes'.Perm result.1
    ∧ Queues st' nodes' sems (waitingAfter st sems waiting)
  distinct : (others ++ [st.currentTask]).Nodup
  waits : ∀ semaphore ∈ sems, ∀ node ∈ waitingAfter st sems waiting semaphore,
    node ∉ others ++ [st.currentTask]
  tasks : st'.tasks = result.2
  current : st'.currentTask = result.1.headD st.currentTask
  destroyed : (result.1 ++ st'.destroyed).Perm (others ++ [st.currentTask] ++ st.destroyed)
  ready : st'.semctlReady = st.semctlReady

section Switch

variable {st st' : Tasking} {nodes sems : List Node} {waiting : Node → List Node}

theorem Queues.semctlProcess (h : Queues st nodes sems waiting) (ready : st.semctlReady = true)
    {fuel : Nat} (run : semctlProcess fuel st = some st')
    : Queues st' (nodes ++ sems.flatMap (wokenBy st waiting)) sems
        (waitingAfter st sems waiting)
      ∧ SameTasking st st' := by
  rw [DeadKernel.semctlProcess, if_pos ready] at run
  rw [h.first_semaphore] at run
  exact h.processFrom (List.nil_append _).symm run

theorem Queues.switchTask (h : Queues st nodes sems waiting) (ready : st.semctlReady = true)
    (current : st.currentTask ∈ nodes) (tasking : isTaskingInit st = true) {fuel : Nat}
    {regs : CPURegisters} {r : CPURegisters × Tasking} (run : switchTask fuel regs st = some r)
    : ∃ others result, SwitchOutcome st r.2 regs nodes sems waiting others result := by
  obtain ⟨woken, last, process, scan, rfl⟩ := switchTask_inv tasking run
  have saved : Queues (st.saved regs) nodes sems waiting := h.congr rfl
  obtain ⟨queues, same⟩ := saved.semctlProcess ready process
  have whole : Circle woken (nodes ++ sems.flatMap (wokenBy st waiting)) :=
    ⟨nodes ++ sems.flatMap (wokenBy st waiting), [], rfl, by
      rw [List.append_nil]
      exact queues.run⟩
  have inside : woken.currentTask ∈ nodes ++ sems.flatMap (wokenBy st waiting) := by
    rw [same.currentTask]
    exact List.mem_append_left _ current
  obtain ⟨others, circle, perm⟩ := whole.last inside
  have related := circle.scanQueue fuel circle.entry
  rw [scan] at related
  generalize found : rounds (scanVisitor woken.kernelTask) fuel (others ++ [woken.currentTask])
    woken.tasks = outcome at related
  cases related with
  | @some _ result scanned =>
      rw [same.currentTask, same.kernelTask, same.tasks] at found
      have currentTask : woken.currentTask = st.currentTask := same.currentTask
      rw [currentTask] at perm scanned
      obtain ⟨front, back, cut, queue⟩ := scanned.circle
      have left : (front ++ back).Perm result.1 := by
        rw [cut]
        exact List.perm_append_comm
      have sub : front ++ back ⊆ nodes ++ sems.flatMap (wokenBy st waiting) := by
        intro node member
        exact perm.subset (rounds_subset found (left.subset member))
      have queues' : Queues last (front ++ back) sems (waitingAfter st sems waiting) := by
        refine queues.of_run queue sub (fun node outside => scanned.outside.links node ?_)
        intro member
        refine outside ?_
        rcases List.mem_cons.mp member with rfl | member
        · exact List.mem_cons_self
        · exact List.mem_cons_of_mem _ (perm.subset member)
      refine ⟨others, result, perm, ⟨fuel, found⟩, ⟨_, left, queues'.congr rfl⟩,
        currentTask ▸ circle.nodup,
        fun semaphore member node blocked again =>
          queues.apart semaphore member node blocked (perm.subset again),
        scanned.tasks, ?_, ?_, ?_⟩
      · exact scanned.current.trans (by rw [currentTask])
      · have destroyed := scanned.destroyed
        rw [same.destroyed] at destroyed
        exact destroyed
      · exact scanned.outside.semctlReady.trans same.semctlReady

end Switch

section Outcome

variable {st st' : Tasking} {regs : CPURegisters} {nodes sems : List Node}
  {waiting : Node → List Node} {others : List Node} {result : List Node × (Node → Task)}

theorem saved_status (node : Node)
    : ((st.saved regs).tasks node).status = (st.tasks node).status := by
  by_cases same : node = st.currentTask
  · subst same
    exact congrArg (fun task => task.status) (Tasking.tasks_setTask _ _ _)
  · exact congrArg Task.status (Function.update_of_ne same _ _)

/-- Whoever is woken was waiting. -/
theorem held_of_woken {node : Node} (member : node ∈ nodes ++ sems.flatMap (wokenBy st waiting))
    : Held nodes sems waiting node := by
  rcases List.mem_append.mp member with run | woken
  · exact Or.inl run
  · obtain ⟨semaphore, inside, taken⟩ := List.mem_flatMap.mp woken
    rw [wokenBy] at taken
    split at taken
    · exact Or.inr ⟨semaphore, inside, List.mem_of_mem_take taken⟩
    · exact absurd taken List.not_mem_nil

/-- Whoever still waits was waiting. -/
theorem mem_of_waitingAfter {semaphore node : Node}
    (member : node ∈ waitingAfter st sems waiting semaphore)
    : node ∈ waiting semaphore := by
  rw [waitingAfter] at member
  split at member
  · rw [stillWaiting] at member
    split at member
    · exact List.mem_of_mem_drop member
    · exact member
  · exact member

/-- A switch that finds a task leaves everything in order. -/
theorem SwitchOutcome.scheduled (outcome : SwitchOutcome st st' regs nodes sems waiting others result)
    (h : Scheduled st nodes sems waiting) (filled : result.1 ≠ [])
    : ∃ nodes', nodes'.Perm result.1 ∧ Scheduled st' nodes' sems (waitingAfter st sems waiting) := by
  obtain ⟨nodes', perm, queues⟩ := outcome.queues
  obtain ⟨fuel, run⟩ := outcome.run
  obtain ⟨picked, rest, value, front, -, pick, last⟩ :=
    (rounds_picked (fun _ _ => True) (fun _ _ _ => trivial) (fun _ _ => trivial) run).resolve_left
      filled
  have current : st'.currentTask = picked := by
    rw [outcome.current, front]
    rfl
  have before {node : Node} (held : Held nodes' sems (waitingAfter st sems waiting) node)
      : Held nodes sems waiting node := by
    rcases held with member | ⟨semaphore, inside, blocked⟩
    · exact held_of_woken (outcome.order.subset (rounds_subset run (perm.subset member)))
    · exact Or.inr ⟨semaphore, inside, mem_of_waitingAfter blocked⟩
  refine ⟨nodes', perm, queues, outcome.ready.trans h.ready, ?_, ?_, fun node held => ?_,
    fun node held => ?_⟩
  · rw [current]
    exact perm.mem_iff.mpr (front ▸ List.mem_cons_self)
  · rw [current, outcome.tasks, last, value_of_idle _ _ ((pick_iff_idle _ _).mp pick)]
    exact Or.inr (Or.inl rfl)
  · -- a task is not destroyed, or in the circle, more often than before
    have count := outcome.destroyed.count_eq node
    have alive : List.count node st.destroyed = 0 :=
      List.count_eq_zero.mpr (h.live node (before held))
    rw [List.count_append, List.count_append, alive] at count
    refine List.count_eq_zero.mp ?_
    rcases held with member | ⟨semaphore, inside, blocked⟩
    · have left := List.count_pos_iff.mpr (perm.subset member)
      have once := List.nodup_iff_count_le_one.mp outcome.distinct node
      omega
    · have none := List.count_eq_zero.mpr (outcome.waits semaphore inside node blocked)
      omega
  · rw [outcome.tasks]
    refine rounds_value (fun task => task.status ≠ .created) (fun _ => value_not_created _ node) ?_
      run
    rw [saved_status]
    exact h.started node (before held)

/-- A switch that finds nobody leaves the current task where no scan can start. -/
theorem SwitchOutcome.not_scheduled
    (outcome : SwitchOutcome st st' regs nodes sems waiting others result) (none : result.1 = [])
    : ¬ CurrentScheduled st' := by
  rintro ⟨linked, -⟩
  obtain ⟨nodes', perm, queues⟩ := outcome.queues
  have member := queues.run.linkedIn_iff.mp linked
  rw [none] at perm
  exact absurd (perm.subset member) List.not_mem_nil

/-- A switch finds a task exactly if it visits the kernel task or one that can go on. -/
theorem SwitchOutcome.filled_iff
    (outcome : SwitchOutcome st st' regs nodes sems waiting others result)
    (h : Queues st nodes sems waiting)
    : result.1 ≠ [] ↔ ∃ node, st.Candidate node
        ∧ (node = st.kernelTask ∨ (st.saved regs).Resumable node) := by
  obtain ⟨fuel, run⟩ := outcome.run
  have visited {node : Node} : st.Candidate node ↔ node ∈ others ++ [st.currentTask] :=
    h.candidate_iff.trans outcome.order.symm.mem_iff
  constructor
  · intro filled
    by_contra nobody
    have stuck : ∀ node ∈ others ++ [st.currentTask],
        ¬ Task.Resumable ((st.saved regs).tasks node) :=
      fun node member resumable => nobody ⟨node, visited.mpr member, Or.inr resumable⟩
    obtain ⟨picked, rest, value, -, holds, pick, -⟩ :=
      (rounds_picked (fun _ task => ¬ task.Resumable)
        (fun node _ holds => value_not_resumable _ node holds) stuck run).resolve_left filled
    exact holds (Or.inl ((pick_iff_idle _ _).mp pick))
  · rintro ⟨node, candidate, rfl | resumable⟩ none
    · have stays := rounds_keeps (fun _ => True)
        (fun _ _ => (kernelTask_kept _).imp_right (fun stay => ⟨stay, trivial⟩))
        (visited.mp candidate) trivial run
      rw [none] at stays
      exact absurd stays List.not_mem_nil
    · have stays := rounds_keeps Task.Resumable
        (fun _ holds => Task.Resumable.kept _ node holds) (visited.mp candidate) resumable run
      rw [none] at stays
      exact absurd stays List.not_mem_nil

/-- Nobody but the interrupted task is picked when no other is idle and none can become so before
it.
-/
theorem rounds_only_task {kernelTask task : Node} {fuel : Nat} {tasks : Node → Task}
    (distinct : (others ++ [task]).Nodup)
    (nobody : ∀ node ∈ others, (tasks node).status ≠ .idle
      ∧ ((tasks task).status ≠ .idle → ¬ (tasks node).Resumable))
    (run : rounds (scanVisitor kernelTask) fuel (others ++ [task]) tasks = some result)
    {picked : Node} {rest : List Node} (first : result.1 = picked :: rest)
    : picked = task := by
  by_cases idle : (tasks task).status = .idle
  · have found := rounds_pick distinct
      (fun node member => mt (pick_iff_idle kernelTask node).mp (nobody node member).1)
      ((pick_iff_idle kernelTask task).mpr idle) []
    rw [rounds_unique run found] at first
    exact (List.cons.inj first).1.symm
  · have stuck : ∀ node ∈ others ++ [task], node = task ∨ ¬ (tasks node).Resumable := by
      intro node member
      rcases List.mem_append.mp member with inside | last
      · exact Or.inr ((nobody node inside).2 idle)
      · exact Or.inl (List.mem_singleton.mp last)
    have ends := rounds_picked (fun node now => node = task ∨ ¬ now.Resumable)
      (fun node _ holds => holds.imp_right (value_not_resumable _ node)) stuck run
    rcases ends with none | ⟨node, more, value, first', holds, pick, -⟩
    · rw [none] at first
      exact absurd first.symm (List.cons_ne_nil _ _)
    · obtain ⟨rfl, -⟩ := List.cons.inj (first.symm.trans first')
      rcases holds with same | stuck
      · exact same
      · exact absurd (Or.inl ((pick_iff_idle _ _).mp pick)) stuck

/-- When nobody is idle, a task that can go on becomes idle in the first round, and the second
one picks a task in front of the interrupted one.
-/
theorem rounds_second_round {kernelTask task : Node} {tasks : Node → Task}
    (distinct : (others ++ [task]).Nodup) (live : (tasks task).Resumable)
    (notIdle : ∀ node ∈ others ++ [task], (tasks node).status ≠ .idle) {node : Node}
    (member : node ∈ others) (resumable : (tasks node).Resumable)
    : ∃ fuel picked rest after, rounds (scanVisitor kernelTask) fuel (others ++ [task]) tasks
        = some (picked :: rest, after) ∧ picked ∈ others := by
  have passed : ∀ other ∈ others ++ [task],
      (scanVisitor kernelTask).verdict other (tasks other) ≠ .pick :=
    fun other inside => mt (pick_iff_idle kernelTask other).mp (notIdle other inside)
  let left := staying (scanVisitor kernelTask) tasks others
  have stays := live.passed kernelTask task (notIdle task (by simp))
  have circle : staying (scanVisitor kernelTask) tasks (others ++ [task]) = left ++ [task] := by
    simp [left, staying, stays.1]
  have later := resumable.passed kernelTask node (notIdle node (by simp [member]))
  have inside : node ∈ left := List.mem_filter.mpr ⟨member, decide_eq_true later.1⟩
  have idleNow : (visitAll (scanVisitor kernelTask) (others ++ [task]) tasks node).status
      = .idle := by
    rw [visitAll, if_pos (List.mem_append_left [task] member)]
    exact later.2.1
  have sub : left.Sublist others := List.filter_sublist
  obtain ⟨picked, rest, after, found, front⟩ :=
    rounds_pick_front ((List.nodup_append.mp distinct).1.sublist sub)
      ⟨node, inside, (pick_iff_idle kernelTask node).mpr idleNow⟩ [task]
  have round := rounds_pass distinct passed [] left.length
  rw [List.append_nil, List.nil_append, circle, found] at round
  exact ⟨_, picked, rest, after, round, sub.subset front⟩

/-- When the interrupted task could go on, the scan picks another one exactly if another is idle,
or can go on and the interrupted one is not idle itself.
-/
theorem rounds_other_iff {kernelTask task : Node} {fuel : Nat} {tasks : Node → Task}
    (distinct : (others ++ [task]).Nodup) (live : (tasks task).Resumable)
    (run : rounds (scanVisitor kernelTask) fuel (others ++ [task]) tasks = some result)
    : (∃ picked rest, result.1 = picked :: rest ∧ picked ≠ task)
      ↔ ∃ node ∈ others, (tasks node).status = .idle
          ∨ (tasks task).status ≠ .idle ∧ (tasks node).Resumable := by
  have apart {node : Node} (member : node ∈ others) : node ≠ task := by
    rintro rfl
    exact (List.nodup_append.mp distinct).2.2 _ member _ (by simp) rfl
  constructor
  · rintro ⟨picked, rest, first, other⟩
    by_contra nobody
    push Not at nobody
    exact other (rounds_only_task distinct nobody run first)
  · rintro ⟨node, member, ready⟩
    have picks : ∃ fuel picked rest after,
        rounds (scanVisitor kernelTask) fuel (others ++ [task]) tasks
          = some (picked :: rest, after) ∧ picked ∈ others := by
      by_cases someIdle : ∃ other ∈ others, (tasks other).status = .idle
      · obtain ⟨other, inside, idle⟩ := someIdle
        exact ⟨_, rounds_pick_front (List.nodup_append.mp distinct).1
          ⟨other, inside, (pick_iff_idle kernelTask other).mpr idle⟩ [task]⟩
      · push Not at someIdle
        obtain ⟨awake, resumable⟩ := ready.resolve_left (someIdle node member)
        refine rounds_second_round distinct live (fun other inside => ?_) member resumable
        rcases List.mem_append.mp inside with before | last
        · exact someIdle other before
        · rwa [List.mem_singleton.mp last]
    obtain ⟨fuel', picked, rest, after, found, front⟩ := picks
    exact ⟨picked, rest, congrArg Prod.fst (rounds_unique run found), apart front⟩

end Outcome

-----------------------------------------------------------------------------------------
-- Operations
-----------------------------------------------------------------------------------------

/-- The switch visits the kernel task or one that can go on. -/
def Tasking.FindsTask (st : Tasking) (regs : CPURegisters) : Prop :=
  isTaskingInit st = true → ∃ node, st.Candidate node
    ∧ (node = st.kernelTask ∨ (st.saved regs).Resumable node)

/-- The switch that blocks the current task finds another one before it comes back to it. -/
def Tasking.FindsOther (st : Tasking) : Prop :=
  isTaskingInit st = true ∧ ∃ node, node ≠ st.currentTask ∧ st.Candidate node
    ∧ ((st.tasks node).status = .idle
      ∨ (st.tasks st.currentTask).status ≠ .idle ∧ st.Resumable node)

/-- The state is in order, for some queues. -/
def Ordered (st : Tasking) : Prop :=
  ∃ nodes sems waiting, Scheduled st nodes sems waiting

/-- An operation leaves the state in order if its condition holds, and the current task outside
the run queue otherwise.
-/
def OrderedIff (cond : Prop) (st : Tasking) : Prop :=
  cond ∧ Ordered st ∨ ¬ cond ∧ ¬ CurrentScheduled st

theorem OrderedIff.congr {cond cond' : Prop} {st : Tasking} (h : OrderedIff cond st)
    (same : cond' ↔ cond)
    : OrderedIff cond' st := by
  rwa [OrderedIff, same]

theorem Ordered.scheduled {st : Tasking} (h : Ordered st) : CurrentScheduled st := by
  obtain ⟨nodes, sems, waiting, ok⟩ := h
  exact ⟨ok.run.linkedIn_iff.mpr ok.current, ok.live _ (Or.inl ok.current)⟩

section Operations

variable {st st' : Tasking} {nodes nodes' sems sems' : List Node}
  {waiting waiting' : Node → List Node}

/-- An operation on links and semaphores that brings in no new task. -/
theorem Scheduled.of_same (h : Scheduled st nodes sems waiting)
    (queues : Queues st' nodes' sems' waiting') (same : SameTasking st st')
    (current : st.currentTask ∈ nodes')
    (held : ∀ node, Held nodes' sems' waiting' node → Held nodes sems waiting node)
    : Scheduled st' nodes' sems' waiting' where
  toQueues := queues
  ready := same.semctlReady.trans h.ready
  current := by
    rw [same.currentTask]
    exact current
  active := by
    rw [same.currentTask, same.tasks]
    exact h.active
  live node inside := by
    rw [same.destroyed]
    exact h.live node (held node inside)
  started node inside := by
    rw [same.tasks]
    exact h.started node (held node inside)

/-- Rewriting the current task with a status it can be interrupted in. -/
theorem Scheduled.setCurrent (h : Scheduled st nodes sems waiting) {task : Task}
    (active : task.status.Active)
    : Scheduled (st.setTask st.currentTask task) nodes sems waiting where
  toQueues := h.toQueues.congr rfl
  ready := h.ready
  current := h.current
  active := by
    change ((st.setTask st.currentTask task).tasks st.currentTask).status.Active
    rwa [Tasking.tasks_setTask]
  live := h.live
  started node inside := by
    by_cases same : node = st.currentTask
    · subst same
      rw [Tasking.tasks_setTask]
      rcases active with status | status | status <;> rw [status] <;> decide
    · rw [show (st.setTask st.currentTask task).tasks node = st.tasks node from
        Function.update_of_ne same _ _]
      exact h.started node inside

theorem Scheduled.switchTask (h : Scheduled st nodes sems waiting) {fuel : Nat}
    {regs : CPURegisters} {r : CPURegisters × Tasking} (run : switchTask fuel regs st = some r)
    : OrderedIff (st.FindsTask regs) r.2 := by
  by_cases tasking : isTaskingInit st = true
  · obtain ⟨others, result, outcome⟩ := h.toQueues.switchTask h.ready h.current tasking run
    have found := outcome.filled_iff h.toQueues
    by_cases none : result.1 = []
    · exact Or.inr ⟨fun finds => found.mpr (finds tasking) none, outcome.not_scheduled none⟩
    · obtain ⟨nodes', -, ok⟩ := outcome.scheduled h none
      exact Or.inl ⟨fun _ => found.mp none, nodes', _, _, ok⟩
  · rw [DeadKernel.switchTask, if_pos tasking] at run
    obtain rfl := Option.some.inj run
    exact Or.inl ⟨fun ready => absurd ready tasking, nodes, sems, waiting, h⟩

/-- Moving the current task away leaves it outside the run queue. -/
theorem Queues.block_current (h : Queues st nodes sems waiting) {semaphore : Node}
    (member : semaphore ∈ sems) (current : st.currentTask ∈ nodes)
    : ¬ CurrentScheduled (listMove st.currentTask semaphore.queue st) := by
  rintro ⟨linked, -⟩
  have again := (h.block member current).run.linkedIn_iff.mp linked
  exact List.Nodup.not_mem_erase (List.nodup_cons.mp h.run.distinct).2 again

/-- Moving another task away keeps the state in order. -/
theorem Scheduled.block_other (h : Scheduled st nodes sems waiting) {semaphore task : Node}
    (member : semaphore ∈ sems) (inside : task ∈ nodes) (other : st.currentTask ≠ task)
    : Ordered (listMove task semaphore.queue st) := by
  refine ⟨_, _, _, h.of_same (h.toQueues.block member inside) ⟨rfl, rfl, rfl, rfl, rfl, rfl⟩
    ((List.mem_erase_of_ne other).mpr h.current) (fun node held => ?_)⟩
  rcases held with left | ⟨semaphore', member', blocked⟩
  · exact Or.inl (List.mem_of_mem_erase left)
  · by_cases same : semaphore' = semaphore
    · subst same
      rw [Function.update_self] at blocked
      rcases List.mem_cons.mp blocked with rfl | before
      · exact Or.inl inside
      · exact Or.inr ⟨_, member', before⟩
    · rw [Function.update_of_ne same] at blocked
      exact Or.inr ⟨_, member', blocked⟩

/-- A task that does not end can go on later. -/
theorem Scheduled.current_resumable (h : Scheduled st nodes sems waiting) {regs : CPURegisters}
    (stays : regs.ecx ≠ exitMark)
    : ((st.saved regs).tasks st.currentTask).Resumable := by
  have own : (st.saved regs).tasks st.currentTask = { st.tasks st.currentTask with regs } :=
    Tasking.tasks_setTask _ _ _
  rw [own]
  rcases h.active with idle | running | yield
  · exact Or.inl idle
  · exact Or.inr ⟨Or.inl running, stays⟩
  · exact Or.inr ⟨Or.inr yield, stays⟩

/-- It is still in the run queue behind the switch. -/
theorem SwitchOutcome.keeps_current {regs : CPURegisters} {others : List Node}
    {result : List Node × (Node → Task)}
    (outcome : SwitchOutcome st st' regs nodes sems waiting others result)
    (live : ((st.saved regs).tasks st.currentTask).Resumable)
    : st.currentTask ∈ result.1 := by
  obtain ⟨fuel, rounds⟩ := outcome.run
  exact rounds_keeps Task.Resumable (fun _ holds => Task.Resumable.kept _ st.currentTask holds)
    (List.mem_append_right _ List.mem_cons_self) live rounds

/-- The current task is moved to a semaphore's queue behind the switch. -/
theorem Scheduled.blockCurrent (h : Scheduled st nodes sems waiting) {semaphore : Node}
    (member : semaphore ∈ sems) {fuel : Nat} {regs : CPURegisters}
    (stays : regs.ecx ≠ exitMark) {r : CPURegisters × Tasking}
    (run : DeadKernel.switchTask fuel regs st = some r)
    : OrderedIff st.FindsOther (listMove st.currentTask semaphore.queue r.2) := by
  by_cases tasking : isTaskingInit st = true
  · obtain ⟨others, result, outcome⟩ := h.toQueues.switchTask h.ready h.current tasking run
    have live := h.current_resumable stays
    have kept := outcome.keeps_current live
    obtain ⟨fuel, rounds⟩ := outcome.run
    obtain ⟨nodes', perm, ok⟩ := outcome.scheduled h (List.ne_nil_of_mem kept)
    have inside : st.currentTask ∈ nodes' := perm.mem_iff.mpr kept
    have apart {node : Node} (other : node ∈ others) : node ≠ st.currentTask := by
      rintro rfl
      exact (List.nodup_append.mp outcome.distinct).2.2 _ other _ (by simp) rfl
    have untouched {node : Node} (other : node ≠ st.currentTask)
        : (st.saved regs).tasks node = st.tasks node :=
      Function.update_of_ne other _ _
    have finds : st.FindsOther
        ↔ ∃ picked rest, result.1 = picked :: rest ∧ picked ≠ st.currentTask := by
      rw [rounds_other_iff outcome.distinct live rounds, Tasking.FindsOther, saved_status]
      have visited {node : Node} : st.Candidate node ↔ node ∈ others ++ [st.currentTask] :=
        h.toQueues.candidate_iff.trans outcome.order.symm.mem_iff
      constructor
      · rintro ⟨-, node, other, candidate, ready⟩
        refine ⟨node, (List.mem_append.mp (visited.mp candidate)).resolve_right (by simpa using other),
          ?_⟩
        rw [untouched other]
        exact ready
      · rintro ⟨node, member, ready⟩
        rw [untouched (apart member)] at ready
        exact ⟨tasking, node, apart member, visited.mpr (List.mem_append_left _ member), ready⟩
    by_cases same : r.2.currentTask = st.currentTask
    · refine Or.inr ⟨fun other => ?_, ?_⟩
      · obtain ⟨picked, rest, first, differs⟩ := finds.mp other
        rw [outcome.current, first] at same
        exact differs same
      · rw [← same] at inside ⊢
        exact ok.toQueues.block_current member inside
    · refine Or.inl ⟨finds.mpr ?_, ok.block_other member inside same⟩
      obtain ⟨picked, rest, first⟩ := List.exists_cons_of_ne_nil (List.ne_nil_of_mem kept)
      rw [outcome.current, first] at same
      exact ⟨picked, rest, first, same⟩
  · rw [DeadKernel.switchTask, if_pos tasking] at run
    obtain rfl := Option.some.inj run
    exact Or.inr ⟨fun finds => tasking finds.1, h.toQueues.block_current member h.current⟩

/-- What is printed does not matter. -/
theorem Scheduled.print (h : Scheduled st nodes sems waiting) (line : SemaphoreLine)
    : Scheduled (st.print line) nodes sems waiting :=
  h.of_same (h.toQueues.congr rfl) ⟨rfl, rfl, rfl, rfl, rfl, rfl⟩ h.current (fun _ => id)

theorem Scheduled.setSemaphore (h : Scheduled st nodes sems waiting) (node : Node)
    (semaphore : Semaphore)
    : Scheduled (st.setSemaphore node semaphore) nodes sems waiting :=
  h.of_same (h.toQueues.congr rfl) ⟨rfl, rfl, rfl, rfl, rfl, rfl⟩ h.current (fun _ => id)

theorem Scheduled.wait (h : Scheduled st nodes sems waiting) {semaphore : Node}
    (member : semaphore ∈ sems) {env : CallEnv} {regs : CPURegisters}
    (stays : regs.ecx ≠ exitMark) {r : CPURegisters × Tasking}
    (run : semctlWait env semaphore regs st = some r)
    : OrderedIff (0 < (st.semaphores semaphore).count.toInt ∨ st.FindsOther) r.2 := by
  rw [semctlWait] at run
  split at run
  · rename_i unit
    obtain rfl := Option.some.inj run
    exact Or.inl ⟨Or.inl unit, nodes, sems, waiting, (h.print _).setSemaphore _ _⟩
  · rename_i unit
    obtain ⟨⟨frame, switched⟩, switch, moved⟩ := Option.bind_eq_some_iff.mp run
    obtain rfl := Option.some.inj moved
    have printed := h.print (.moving semaphore st.currentTask)
    have same : (st.print (.moving semaphore st.currentTask)).FindsOther ↔ st.FindsOther := by
      refine and_congr_right (fun _ => exists_congr (fun node => and_congr_right (fun _ => ?_)))
      exact and_congr_left (fun _ =>
        printed.toQueues.candidate_iff.trans h.toQueues.candidate_iff.symm)
    have outcome := printed.blockCurrent member stays switch
    rw [OrderedIff, same] at outcome
    rw [OrderedIff, or_iff_right unit]
    exact outcome

/-- A new semaphore. -/
theorem Scheduled.init (h : Scheduled st nodes sems waiting) {env : CallEnv}
    (fresh : Node.semaphore env.block ∉ sems) (args : Nat)
    : Ordered (semctlInit env args st).2 := by
  rw [semctlInit]
  split
  · exact ⟨nodes, sems, waiting, h⟩
  · refine ⟨_, _, _, h.of_same ((h.toQueues.addSemaphore fresh).congr rfl)
      ⟨rfl, rfl, rfl, rfl, rfl, rfl⟩ h.current (fun node held => ?_)⟩
    rcases held with run | ⟨semaphore, member, blocked⟩
    · exact Or.inl run
    · by_cases isNew : semaphore = .semaphore env.block
      · subst isNew
        rw [Function.update_self] at blocked
        exact absurd blocked List.not_mem_nil
      · rw [Function.update_of_ne isNew] at blocked
        refine Or.inr ⟨semaphore, ?_, blocked⟩
        exact (List.mem_append.mp member).resolve_right (by simpa using isNew)

theorem Scheduled.free (h : Scheduled st nodes sems waiting) {semaphore : Node}
    (member : semaphore ∈ sems) (env : CallEnv)
    : Ordered (semctlFree env semaphore st).2 := by
  rw [semctlFree]
  split
  · exact ⟨nodes, sems, waiting, h⟩
  · refine ⟨_, _, _, h.of_same (h.toQueues.removeSemaphore member) ⟨rfl, rfl, rfl, rfl, rfl, rfl⟩
      h.current (fun node held => held.imp_right ?_)⟩
    rintro ⟨other, inside, blocked⟩
    exact ⟨other, List.mem_of_mem_erase inside, blocked⟩

/-- A new task. -/
theorem Scheduled.start (h : Scheduled st nodes sems waiting) {block : Nat}
    (fresh : ¬ Held nodes sems waiting (.task block)) (task : Task)
    : Scheduled (runTask (.task block) (allocTask block task st)).2 (nodes ++ [.task block]) sems
        waiting := by
  let made := allocTask block task st
  have notRun : Node.task block ∉ nodes := fun member => fresh (Or.inl member)
  have notWaiting : ∀ semaphore ∈ sems, Node.task block ∉ waiting semaphore :=
    fun semaphore member blocked => fresh (Or.inr ⟨semaphore, member, blocked⟩)
  have made_eq : made.tasks (.task block) = { task with status := .created } :=
    Tasking.tasks_setTask _ _ _
  have created : (made.tasks (.task block)).status = .created := by rw [made_eq]
  have old {node : Node} (held : Held nodes sems waiting node) : node ≠ .task block := by
    rintro rfl
    exact fresh held
  have tasks {node : Node} (other : node ≠ .task block) : made.tasks node = st.tasks node :=
    Function.update_of_ne other _ _
  have notNull : made.currentTask ≠ .null := by
    obtain ⟨address, same⟩ := h.tasks _ h.current
    rw [show made.currentTask = st.currentTask from rfl, same]
    exact Node.noConfusion
  have queues := (h.toQueues.allocTask notRun notWaiting task).addTask notRun notWaiting
  rw [runTask_new created, if_neg notNull]
  have before {node : Node} (held : Held (nodes ++ [.task block]) sems waiting node)
      (other : node ≠ .task block)
      : Held nodes sems waiting node :=
    held.imp_left (fun member => (List.mem_append.mp member).resolve_right (by simpa using other))
  refine ⟨?_, h.ready, List.mem_append_left _ h.current, ?_, fun node held => ?_,
    fun node held => ?_⟩
  · exact queues.congr rfl
  · change ((Function.update made.tasks (.task block) _) st.currentTask).status.Active
    rw [Function.update_of_ne (old (Or.inl h.current)), tasks (old (Or.inl h.current))]
    exact h.active
  · change node ∉ st.destroyed.filter (· ≠ Node.task block)
    intro released
    obtain ⟨inside, other⟩ := List.mem_filter.mp released
    exact h.live node (before held (of_decide_eq_true other)) inside
  · change ((Function.update made.tasks (.task block) _) node).status ≠ .created
    by_cases same : node = .task block
    · subst same
      rw [Function.update_self]
      exact Status.noConfusion
    · rw [Function.update_of_ne same, tasks same]
      exact h.started node (before held same)

theorem Scheduled.signal (h : Scheduled st nodes sems waiting) (env : CallEnv)
    (semaphore : Node)
    : Scheduled (semctlSignal env semaphore st) nodes sems waiting := by
  rw [semctlSignal]
  dsimp only
  split
  · exact (h.print _).setSemaphore _ _
  · exact h.print _

end Operations

-----------------------------------------------------------------------------------------
-- Runs
-----------------------------------------------------------------------------------------

/-- A new task is made and started, a task is started again, or an interrupt is taken: a tick of
the timer or any system call, with any frame, an ending task's among them.
-/
inductive TaskEvent where
  | start (block : Nat) (task : Task)
  | again (node : Node)
  | interrupt (taken : Interrupt)

def TaskEvent.step (st : Tasking) : TaskEvent → Option Tasking
  | .start block task => some (runTask (.task block) (allocTask block task st)).2
  | .again node => some (runTask node st).2
  | .interrupt taken => (taken.resume st).map Prod.snd

/-- The node is in the run queue or waits for a semaphore. -/
def Tasking.Holds (st : Tasking) (node : Node) : Prop :=
  st.LinkedIn .mainQueue node
    ∨ ∃ semaphore, st.LinkedIn .semaphoreQueue semaphore ∧ st.LinkedIn semaphore.queue node

/-- `kmalloc` places a new task or semaphore in no block that holds a live one. -/
def TaskEvent.Proper (st : Tasking) : TaskEvent → Prop
  | .start block _ => ¬ st.Holds (.task block)
  | .again node => st.Holds node
  | .interrupt (.timer _ _) => True
  | .interrupt (.sysCall env regs) =>
      (syscalls regs.eax = some .fork → ¬ st.Holds (.task env.block))
      ∧ (syscalls regs.eax = some .semctl → regs.ecx = semaphoreInit
        → ¬ st.LinkedIn .semaphoreQueue (.semaphore env.block))

/-- A tick or a yield visits the kernel task or a task that can go on, and a wait that finds no
unit visits another task to go on with.
-/
def TaskEvent.Finds (st : Tasking) : TaskEvent → Prop
  | .start _ _ | .again _ => True
  | .interrupt (.timer _ regs) => st.FindsTask regs
  | .interrupt (.sysCall env regs) =>
      (syscalls regs.eax = some .yield
        → (st.setTask st.currentTask { st.tasks st.currentTask with status := .yield }).FindsTask
          regs)
      ∧ (syscalls regs.eax = some .semctl → regs.ecx = semaphoreWait
        → ∀ semaphore, searchSemaphore env regs.ebx st = some (some semaphore)
        → 0 < (st.semaphores semaphore).count.toInt ∨ st.FindsOther)

/-- Runs from `initTasking` on, of proper events that meet a condition. -/
inductive TaskRun (ok : Tasking → TaskEvent → Prop) (block : Nat) (kernel : Task)
    : Tasking → Prop where
  | init : TaskRun ok block kernel (initTasking block kernel .zero)
  | step {st st' : Tasking} (run : TaskRun ok block kernel st) (event : TaskEvent)
      (proper : event.Proper st) (holds : ok st event) (done : event.step st = some st')
      : TaskRun ok block kernel st'

-----------------------------------------------------------------------------------------
-- What an event does
-----------------------------------------------------------------------------------------

/-- The operation behind an event. A system call that is not listed leaves tasks alone. -/
inductive TaskEvent.Effect (st : Tasking) : TaskEvent → Tasking → Prop where
  | start (block : Nat) (task : Task)
      : Effect st (.start block task) (runTask (.task block) (allocTask block task st)).2
  | again (node : Node) : Effect st (.again node) (runTask node st).2
  | tick {fuel : Nat} {regs : CPURegisters} {r : CPURegisters × Tasking}
      (run : switchTask fuel regs st = some r)
      : Effect st (.interrupt (.timer fuel regs)) r.2
  | idle {env : CallEnv} {regs : CPURegisters} (notYield : syscalls regs.eax ≠ some .yield)
      (notWait : syscalls regs.eax = some .semctl → regs.ecx = semaphoreWait
        → ∀ semaphore, searchSemaphore env regs.ebx st ≠ some (some semaphore))
      : Effect st (.interrupt (.sysCall env regs)) st
  | fork {env : CallEnv} {regs : CPURegisters} (call : syscalls regs.eax = some .fork)
      : Effect st (.interrupt (.sysCall env regs)) (DeadKernel.fork env regs st).2
  | yield {env : CallEnv} {regs : CPURegisters} {r : CPURegisters × Tasking}
      (call : syscalls regs.eax = some .yield) (run : DeadKernel.yield env regs st = some r)
      : Effect st (.interrupt (.sysCall env regs)) r.2
  | init {env : CallEnv} {regs : CPURegisters} (call : syscalls regs.eax = some .semctl)
      (command : regs.ecx = semaphoreInit)
      : Effect st (.interrupt (.sysCall env regs)) (semctlInit env regs.edx st).2
  | signal {env : CallEnv} {regs : CPURegisters} {semaphore : Node}
      (call : syscalls regs.eax = some .semctl) (command : regs.ecx = semaphoreSignal)
      : Effect st (.interrupt (.sysCall env regs)) (semctlSignal env semaphore st)
  | wait {env : CallEnv} {regs : CPURegisters} {semaphore : Node}
      {r : CPURegisters × Tasking} (call : syscalls regs.eax = some .semctl)
      (command : regs.ecx = semaphoreWait)
      (found : searchSemaphore env regs.ebx st = some (some semaphore))
      (run : semctlWait env semaphore regs st = some r)
      : Effect st (.interrupt (.sysCall env regs)) r.2
  | free {env : CallEnv} {regs : CPURegisters} {semaphore : Node}
      (call : syscalls regs.eax = some .semctl) (command : regs.ecx = semaphoreFree)
      (found : searchSemaphore env regs.ebx st = some (some semaphore))
      : Effect st (.interrupt (.sysCall env regs)) (semctlFree env semaphore st).2

section Effects

variable {st st' : Tasking} {env : CallEnv} {regs : CPURegisters}

theorem semctl_effect (ready : st.semctlReady = true) (call : syscalls regs.eax = some .semctl)
    {r : Nat × CPURegisters × Tasking}
    (run : semctl env regs.ebx regs.ecx regs.edx regs st = some r)
    : (TaskEvent.interrupt (.sysCall env regs)).Effect st r.2.2 := by
  have notYield : syscalls regs.eax ≠ some .yield := by
    rw [call]
    simp
  rw [semctl, if_neg (by rw [ready]; exact Bool.noConfusion)] at run
  split at run
  · rename_i init
    obtain rfl := Option.some.inj run
    exact .init call init
  split at run
  · contradiction
  · rename_i none
    obtain rfl := Option.some.inj run
    refine .idle notYield (fun _ _ semaphore found => ?_)
    simp [none] at found
  · rename_i semaphore found
    rw [semctlOn] at run
    split at run
    · rename_i signal
      obtain rfl := Option.some.inj run
      exact .signal call signal
    split at run
    · rename_i wait
      obtain ⟨⟨frame, switched⟩, waited, returned⟩ := Option.bind_eq_some_iff.mp run
      obtain rfl := Option.some.inj returned
      exact .wait call wait found waited
    split at run
    · rename_i free
      obtain rfl := Option.some.inj run
      exact .free call free found
    · rename_i notWait _
      obtain rfl := Option.some.inj run
      exact .idle notYield (fun _ wait => absurd wait notWait)

theorem sysCallHandler_effect (ready : st.semctlReady = true) {r : CPURegisters × Tasking}
    (run : sysCallHandler env regs st = some r)
    : (TaskEvent.interrupt (.sysCall env regs)).Effect st r.2 := by
  rw [sysCallHandler] at run
  split at run
  · contradiction
  cases known : syscalls regs.eax with
  | none =>
      rw [known] at run
      obtain rfl := Option.some.inj run
      exact .idle (by simp [known]) (fun call => by simp [known] at call)
  | some call =>
      rw [known] at run
      obtain ⟨⟨ret, frame, now⟩, called, returned⟩ := Option.bind_eq_some_iff.mp run
      obtain rfl := Option.some.inj returned
      cases call with
      | getPID =>
          obtain rfl := congrArg (fun r => r.2.2) (Option.some.inj called)
          exact .idle (by simp [known]) (fun call => by simp [known] at call)
      | other =>
          obtain rfl := congrArg (fun r => r.2.2) (Option.some.inj called)
          exact .idle (by simp [known]) (fun call => by simp [known] at call)
      | fork =>
          obtain rfl := congrArg (fun r => r.2.2) (Option.some.inj called)
          exact .fork known
      | yield =>
          obtain ⟨⟨switched, last⟩, yielded, rest⟩ := Option.bind_eq_some_iff.mp called
          obtain rfl := congrArg (fun r => r.2.2) (Option.some.inj rest)
          exact .yield (r := (switched, last)) known yielded
      | semctl => exact semctl_effect ready known called

theorem TaskEvent.effect (ready : st.semctlReady = true) {event : TaskEvent}
    (done : event.step st = some st')
    : event.Effect st st' := by
  cases event with
  | start block task =>
      obtain rfl := Option.some.inj done
      exact .start block task
  | again node =>
      obtain rfl := Option.some.inj done
      exact .again node
  | interrupt taken =>
      obtain ⟨r, resumed, rfl⟩ := Option.map_eq_some_iff.mp done
      cases taken with
      | timer fuel regs => exact .tick resumed
      | sysCall env regs => exact sysCallHandler_effect ready resumed

/-- A condition on yields and waits only, as `Finds` states one. -/
def CallCondition (st : Tasking) (env : CallEnv) (regs : CPURegisters) (yields : Prop)
    (waits : Node → Prop)
    : Prop :=
  (syscalls regs.eax = some .yield → yields)
    ∧ (syscalls regs.eax = some .semctl → regs.ecx = semaphoreWait
      → ∀ semaphore, searchSemaphore env regs.ebx st = some (some semaphore) → waits semaphore)

theorem CallCondition.of_other {yields : Prop} {waits : Node → Prop} {call : SysCall}
    (known : syscalls regs.eax = some call) (notYield : call ≠ .yield)
    (notWait : call = .semctl → regs.ecx ≠ semaphoreWait)
    : CallCondition st env regs yields waits := by
  constructor
  · intro yield
    exact absurd (Option.some.inj (known.symm.trans yield)) notYield
  · intro semctl wait
    exact absurd wait (notWait (Option.some.inj (known.symm.trans semctl)))

theorem CallCondition.yield_iff {yields : Prop} {waits : Node → Prop}
    (known : syscalls regs.eax = some .yield)
    : CallCondition st env regs yields waits ↔ yields := by
  rw [CallCondition, known]
  simp

theorem CallCondition.wait_iff {yields : Prop} {waits : Node → Prop} {semaphore : Node}
    (known : syscalls regs.eax = some .semctl) (command : regs.ecx = semaphoreWait)
    (found : searchSemaphore env regs.ebx st = some (some semaphore))
    : CallCondition st env regs yields waits ↔ waits semaphore := by
  refine ⟨fun both => both.2 known command semaphore found, fun one => ⟨fun yield => ?_, ?_⟩⟩
  · rw [known] at yield
    simp at yield
  · intro _ _ other found'
    obtain rfl := Option.some.inj (Option.some.inj (found.symm.trans found'))
    exact one

end Effects

section Events

variable {st st' : Tasking} {nodes sems : List Node} {waiting : Node → List Node}

theorem Queues.holds_iff (h : Queues st nodes sems waiting) {node : Node}
    : st.Holds node ↔ Held nodes sems waiting node := by
  rw [Tasking.Holds, Held, h.run.linkedIn_iff]
  refine or_congr_right (exists_congr (fun semaphore => ?_))
  rw [h.semaphores.linkedIn_iff]
  exact and_congr_right (fun member => (h.waiters semaphore member).linkedIn_iff)

theorem Scheduled.fork (h : Scheduled st nodes sems waiting) {env : CallEnv}
    (fresh : ¬ st.Holds (.task env.block)) (regs : CPURegisters)
    : Ordered (fork env regs st).2 := by
  rw [DeadKernel.fork]
  split
  · exact ⟨nodes, sems, waiting, h⟩
  · exact ⟨_, _, _, h.start (mt h.toQueues.holds_iff.mpr fresh) _⟩

/-- A yield is a switch out of a task that has given up its turn. -/
theorem Scheduled.yield (h : Scheduled st nodes sems waiting) {env : CallEnv}
    {regs : CPURegisters} {r : CPURegisters × Tasking} (run : yield env regs st = some r)
    : OrderedIff ((st.setTask st.currentTask
        { st.tasks st.currentTask with status := .yield }).FindsTask regs) r.2 := by
  rw [DeadKernel.yield] at run
  split at run
  · rename_i idle
    obtain rfl := Option.some.inj run
    exact Or.inl ⟨fun ready => absurd ready idle, nodes, sems, waiting, h⟩
  · have yields : ({ st.tasks st.currentTask with status := .yield } : Task).status.Active :=
      Or.inr (Or.inr rfl)
    exact (h.setCurrent yields).switchTask run

/-- What one proper event does. -/
theorem Scheduled.event (h : Scheduled st nodes sems waiting) {event : TaskEvent}
    (proper : event.Proper st) (done : event.step st = some st')
    : OrderedIff (event.Finds st) st' := by
  have kept {env : CallEnv} {regs : CPURegisters} {call : SysCall}
      (known : syscalls regs.eax = some call) (notYield : call ≠ .yield)
      (notWait : call = .semctl → regs.ecx ≠ semaphoreWait) {st' : Tasking} (ordered : Ordered st')
      : OrderedIff ((TaskEvent.interrupt (.sysCall env regs)).Finds st) st' :=
    Or.inl ⟨CallCondition.of_other known notYield notWait, ordered⟩
  cases TaskEvent.effect h.ready done with
  | start block task =>
      exact Or.inl ⟨trivial, _, _, _, h.start (mt h.toQueues.holds_iff.mpr proper) task⟩
  | again node =>
      have known := h.started node (h.toQueues.holds_iff.mp proper)
      rw [runTask, if_pos (Or.inl known)]
      exact Or.inl ⟨trivial, nodes, sems, waiting, h⟩
  | tick run => exact h.switchTask run
  | idle notYield notWait =>
      refine Or.inl ⟨⟨fun call => absurd call notYield, ?_⟩, nodes, sems, waiting, h⟩
      exact fun call wait semaphore found => absurd found (notWait call wait semaphore)
  | fork call =>
      exact kept call (by decide) (fun same => by contradiction) (h.fork (proper.1 call) _)
  | yield call run => exact (h.yield run).congr (CallCondition.yield_iff call)
  | init call command =>
      refine kept call (by decide) (fun _ => ?_) (h.init ?_ _)
      · rw [command]
        decide
      · exact mt h.semaphores.linkedIn_iff.mpr (proper.2 call command)
  | signal call command =>
      refine kept call (by decide) (fun _ => ?_) ⟨nodes, sems, waiting, h.signal _ _⟩
      rw [command]
      decide
  | wait call command found run =>
      have member := h.semaphores.searchSemaphore_mem found
      exact (h.wait member (by rw [command]; decide) run).congr
        (CallCondition.wait_iff call command found)
  | free call command found =>
      refine kept call (by decide) (fun _ => ?_) (h.free (h.semaphores.searchSemaphore_mem found) _)
      rw [command]
      decide

end Events

theorem initTasking_scheduled (block : Nat) (kernel : Task)
    : Ordered (initTasking block kernel .zero) := by
  have booted := initTasking_booted block kernel
  have current := booted.currentTask
  have alone {node : Node} (held : Held [.task block] [] (fun _ => []) node)
      : node = .task block := by
    rcases held with run | ⟨semaphore, none, -⟩
    · exact List.mem_singleton.mp run
    · exact absurd none List.not_mem_nil
  refine ⟨[.task block], [], fun _ => [], ⟨booted.queue, booted.semaphores, by simp, by simp, by simp,
    by simp, by simp, by simp⟩, booted.semctlReady, ?_, ?_, fun node _ => ?_, fun node held => ?_⟩
  · exact List.mem_singleton.mpr current
  · rw [current, booted.idle]
    exact Or.inl rfl
  · rw [booted.destroyed]
    exact List.not_mem_nil
  · rw [alone held, booted.idle]
    exact Status.noConfusion

theorem TaskRun.ordered {block : Nat} {kernel : Task} {st : Tasking}
    (run : TaskRun (fun st event => event.Finds st) block kernel st)
    : Ordered st := by
  induction run with
  | init => exact initTasking_scheduled block kernel
  | step _ event proper holds done ih =>
      obtain ⟨nodes, sems, waiting, ok⟩ := ih
      rcases ok.event proper done with ⟨-, ordered⟩ | ⟨stuck, -⟩
      · exact ordered
      · exact absurd holds stuck

/-- In every run from `initTasking` on whose switches find a task to go on with, the current task
is in the run queue and not released, and it is so behind the next event exactly if this event
finds one too.
-/
theorem currentTask_scheduled {block : Nat} {kernel : Task} {st : Tasking}
    (run : TaskRun (fun st event => event.Finds st) block kernel st)
    : CurrentScheduled st ∧ ∀ (event : TaskEvent) (st' : Tasking), event.Proper st
        → event.step st = some st' → (CurrentScheduled st' ↔ event.Finds st) := by
  have ordered := run.ordered
  refine ⟨ordered.scheduled, fun event st' proper done => ?_⟩
  obtain ⟨nodes, sems, waiting, ok⟩ := ordered
  rcases ok.event proper done with ⟨holds, ordered⟩ | ⟨stuck, lost⟩
  · exact iff_of_true ordered.scheduled holds
  · exact iff_of_false lost stuck

-----------------------------------------------------------------------------------------
-- The kernel task alone
-----------------------------------------------------------------------------------------

def firstTick : TaskEvent := .interrupt (.timer 4 .zero)

/-- The kernel task finds itself. -/
theorem firstTick_finds : firstTick.Finds (initTasking 1 .zero .zero) := by
  have booted := initTasking_booted 1 .zero
  refine fun _ => ⟨.task 1, Or.inl ⟨_, booted.queue, List.mem_cons_self⟩, Or.inl ?_⟩
  exact booted.kernelTask.symm

theorem onlyKernel_run {ok : Tasking → TaskEvent → Prop}
    : TaskRun ok 1 .zero (initTasking 1 .zero .zero) :=
  .init

theorem currentTask_scheduled_tick
    : ∃ st, firstTick.step (initTasking 1 .zero .zero) = some st ∧ CurrentScheduled st := by
  obtain ⟨-, next⟩ := currentTask_scheduled onlyKernel_run
  exact ⟨_, rfl, (next firstTick _ trivial rfl).mpr firstTick_finds⟩

/-- Nothing is linked in an empty queue. -/
theorem Tasking.not_linkedIn_of_self {st : Tasking} {head node : Node} (empty : st.next head = head)
    : ¬ st.LinkedIn head node := by
  rintro ⟨nodes, queue, member⟩
  have first := queue.next_head_mem (List.ne_nil_of_mem member)
  rw [empty] at first
  exact (List.nodup_cons.mp queue.distinct).1 first

/-- `semctl(0, SEMAPHORE_INIT, &value)` with the value 0; the semaphore gets the id 1. -/
def makeSemaphore : TaskEvent :=
  .interrupt (.sysCall ⟨4, 0, 0, 5, 0, 0, 0, 0⟩
    { CPURegisters.zero with eax := 0xd, ecx := semaphoreInit, edx := 4096 })

/-- `semctl(1, SEMAPHORE_WAIT, 0)`. -/
def waitForIt : TaskEvent :=
  .interrupt (.sysCall ⟨4, 0, 0, 0, 0, 0, 0, 0⟩
    { CPURegisters.zero with eax := 0xd, ebx := 1, ecx := semaphoreWait })

/-- The kernel task waits while no other task can run: the scan comes back to it, and it is moved
out of the run queue while it is current.
-/
theorem wait_alone_unscheduled
    : ∃ first second third, firstTick.step (initTasking 1 .zero .zero) = some first
        ∧ makeSemaphore.step first = some second ∧ waitForIt.step second = some third
        ∧ TaskRun (fun _ _ => True) 1 .zero third ∧ ¬ CurrentScheduled third := by
  refine ⟨_, _, _, rfl, rfl, rfl, ?_, ?_⟩
  · refine .step (.step (.step .init firstTick trivial trivial rfl) makeSemaphore ?_ trivial rfl)
      waitForIt ?_ trivial rfl
    · exact ⟨fun call => by contradiction, fun _ _ => Tasking.not_linkedIn_of_self rfl⟩
    · exact ⟨fun call => by contradiction, fun _ init => by contradiction⟩
  · exact fun scheduled => Tasking.not_linkedIn_of_self rfl scheduled.1

end DeadKernel
