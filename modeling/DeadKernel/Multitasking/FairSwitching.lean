import DeadKernel.Foundation.Turns
import DeadKernel.Multitasking.CurrentTask
import DeadKernel.Multitasking.OneRunning

/-! Every task of an unchanging run queue gets its turn. A task that is passed over is idle from
then on, so the scan takes it the next time it comes by.
-/

namespace DeadKernel

open Rings Rounds

-----------------------------------------------------------------------------------------
-- An unchanging run queue
-----------------------------------------------------------------------------------------

/-- Tasks are running, idle or yielding in any way, none of them asks to end, and no semaphore
wakes a task.
-/
structure Unchanging (st : Tasking) (nodes sems : List Node) (waiting : Node → List Node)
    : Prop extends Queues st nodes sems waiting where
  quiet : ∀ semaphore ∈ sems, wokenBy st waiting semaphore = []
  tasking : isTaskingInit st = true
  current : st.currentTask ∈ nodes
  active : (st.tasks st.currentTask).status.Active
  resumable : ∀ node ∈ nodes, node ≠ st.currentTask → st.Resumable node

/-- How many calls of `switchTask` select the task at the latest, with `others` in front of the
current task.
-/
def Tasking.wait (st : Tasking) (others : List Node) (node : Node) : Nat :=
  Rounds.wait (scanVisitor st.kernelTask) st.tasks (others ++ [st.currentTask]) node

/-- A switch has gone on in the circle, and every other task is closer to its turn. -/
structure Advanced (st st' : Tasking) (others others' : List Node) : Prop where
  circle : Circle st' (others' ++ [st'.currentTask])
  perm : (others' ++ [st'.currentTask]).Perm (others ++ [st.currentTask])
  closer : ∀ node ∈ others ++ [st.currentTask], node ≠ st'.currentTask
    → st'.wait others' node < st.wait others node

section Switch

variable {st st' : Tasking} {nodes sems others : List Node} {waiting : Node → List Node}
  {regs : CPURegisters}

/-- The wait depends on where the task is, and on whether it is idle. -/
theorem Tasking.wait_congr {node : Node} (kernelTask : st'.kernelTask = st.kernelTask)
    (current : st'.currentTask = st.currentTask)
    (status : (st'.tasks node).status = (st.tasks node).status)
    : st'.wait others node = st.wait others node := by
  have idle : (scanVisitor st.kernelTask).verdict node (st'.tasks node) = .pick
      ↔ (scanVisitor st.kernelTask).verdict node (st.tasks node) = .pick := by
    rw [pick_iff_idle, pick_iff_idle, status]
  simp only [Tasking.wait, Rounds.wait, kernelTask, current, idle]

theorem Circle.perm {order : List Node} (circle : Circle st order)
    (queue : Queue st .mainQueue nodes)
    : order.Perm nodes := by
  obtain ⟨front, back, rfl, same⟩ := circle
  obtain rfl := queue.unique same
  exact List.perm_append_comm

/-- The run queue as a circle that ends with the current task. -/
theorem Unchanging.circle (h : Unchanging st nodes sems waiting)
    : ∃ others, Circle st (others ++ [st.currentTask]) := by
  have whole : Circle st nodes := ⟨nodes, [], rfl, by simpa using h.run⟩
  obtain ⟨others, circle, -⟩ := whole.last h.current
  exact ⟨others, circle⟩

/-- A passed task is idle, hence picked by the next visit. -/
theorem alternating_of_resumable {kernelTask : Node} {tasks : Node → Task} {order : List Node}
    (resumable : ∀ node ∈ order, (tasks node).Resumable)
    : Alternating (scanVisitor kernelTask) tasks order := by
  intro node member
  by_cases idle : (tasks node).status = .idle
  · exact Or.inl ((pick_iff_idle kernelTask node).mpr idle)
  · obtain ⟨stays, later, -⟩ := (resumable node member).passed kernelTask node idle
    exact Or.inr ⟨stays, (pick_iff_idle kernelTask node).mpr later⟩

/-- With the frame of the interrupted task saved, every task can go on. -/
theorem Unchanging.saved_resumable (h : Unchanging st nodes sems waiting)
    (stays : regs.ecx ≠ exitMark) {node : Node} (member : node ∈ nodes)
    : ((st.saved regs).tasks node).Resumable := by
  by_cases current : node = st.currentTask
  · have own : (st.saved regs).tasks node = { st.tasks node with regs } := by
      rw [current]
      exact Tasking.tasks_setTask _ _ _
    have active := h.active
    rw [← current] at active
    rw [own]
    rcases active with idle | running | yield
    · exact Or.inl idle
    · exact Or.inr ⟨Or.inl running, stays⟩
    · exact Or.inr ⟨Or.inr yield, stays⟩
  · have other : (st.saved regs).tasks node = st.tasks node := Function.update_of_ne current _ _
    rw [other]
    exact h.resumable node member current

/-- What one turn leaves of the tasks. -/
theorem Unchanging.turned (h : Unchanging st nodes sems waiting) (stays : regs.ecx ≠ exitMark)
    (circle : Circle st (others ++ [st.currentTask])) {picked : Node} {rest : List Node}
    {tasks : Node → Task}
    (turn : Turn (scanVisitor st.kernelTask) (st.saved regs).tasks (others ++ [st.currentTask])
      picked rest tasks)
    {last : Tasking}
    (scanned : Scanned (st.saved regs) last (others ++ [st.currentTask]) (picked :: rest, tasks))
    : (∃ nodes', Unchanging last.resumed.2 nodes' sems waiting)
      ∧ Advanced st last.resumed.2 others rest := by
  have known {node : Node} : node ∈ others ++ [st.currentTask] ↔ node ∈ nodes :=
    (circle.perm h.run).mem_iff
  have current : last.currentTask = picked := scanned.current
  have kernelTask : last.kernelTask = st.kernelTask := scanned.outside.kernelTask
  have taskOf (node : Node) : last.tasks node = tasks node := congrFun scanned.tasks node
  have kept {node : Node} (member : node ∈ nodes) (differs : node ≠ picked)
      : (last.tasks node).Resumable := by
    have before := h.saved_resumable stays member
    rw [taskOf]
    rcases turn.passed node (known.mpr member) differs with same | ⟨notPicked, same⟩
    · rw [same]
      exact before
    · rw [same]
      exact Or.inl (before.passed _ node (mt (pick_iff_idle _ node).mpr notPicked)).2.1
  obtain ⟨front, back, (cut : picked :: rest = back ++ front), queue⟩ := scanned.circle
  have inside {node : Node} : node ∈ front ++ back ↔ node ∈ nodes := by
    rw [← known, ← turn.perm.mem_iff, cut, List.mem_append, List.mem_append, or_comm]
  have queues : Queues last (front ++ back) sems waiting := by
    refine h.toQueues.of_run queue (fun node member => inside.mp member) (fun node away => ?_)
    refine scanned.outside.links node (fun member => away ?_)
    rcases List.mem_cons.mp member with rfl | member
    · exact List.mem_cons_self
    · exact List.mem_cons_of_mem _ (known.mp member)
  have first : picked ∈ others ++ [st.currentTask] := turn.perm.subset List.mem_cons_self
  have running : (last.tasks picked).status = .running := by
    obtain ⟨value, pick, -, same⟩ := turn.visited
    rw [taskOf, same, value_of_idle _ _ ((pick_iff_idle _ _).mp pick)]
  refine ⟨⟨front ++ back, queues.congr rfl, fun semaphore member => ?_, ?_, ?_, ?_, ?_⟩, ?_, ?_, ?_⟩
  · have semaphores : last.semaphores = st.semaphores := scanned.outside.semaphores
    have none := h.quiet semaphore member
    rw [wokenBy, ← semaphores] at none
    exact none
  · have started : last.nextPID = st.nextPID := scanned.outside.nextPID
    have tasking := h.tasking
    rw [isTaskingInit, ← started] at tasking
    exact tasking
  · change last.currentTask ∈ front ++ back
    rw [current]
    exact inside.mpr (known.mp first)
  · change (last.tasks last.currentTask).status.Active
    rw [current, running]
    exact Or.inr (Or.inl rfl)
  · intro node member differs
    exact kept (inside.mp member) (fun same => differs (same.trans current.symm))
  · have rotated : Circle last (rest ++ [last.currentTask]) := by
      rw [current]
      exact scanned.circle.rotate
    exact rotated.congr (fun _ _ => rfl)
  · change (rest ++ [last.currentTask]).Perm _
    rw [current]
    exact (List.perm_append_singleton picked rest).trans turn.perm
  · intro node member differs
    have closer := turn.closer node member (fun same => differs (same.trans current.symm))
    have after : last.resumed.2.wait rest node
        = Rounds.wait (scanVisitor st.kernelTask) tasks (rest ++ [picked]) node := by
      change Rounds.wait (scanVisitor last.kernelTask) last.tasks (rest ++ [last.currentTask]) node
        = _
      rw [kernelTask, current, scanned.tasks]
    have before : (st.saved regs).wait others node = st.wait others node :=
      Tasking.wait_congr rfl rfl (saved_status node)
    rw [after, ← before]
    exact closer

/-- A switch ends and goes on in the circle. -/
theorem Unchanging.switchTask (h : Unchanging st nodes sems waiting)
    (stays : regs.ecx ≠ exitMark) (circle : Circle st (others ++ [st.currentTask]))
    : (∃ enough, ∀ fuel, enough ≤ fuel → ∃ r, switchTask fuel regs st = some r)
      ∧ ∀ {fuel r}, switchTask fuel regs st = some r
        → (∃ nodes', Unchanging r.2 nodes' sems waiting)
          ∧ ∃ others', Advanced st r.2 others others' := by
  have saved : Queues (st.saved regs) nodes sems waiting := h.toQueues.congr rfl
  have circle' : Circle (st.saved regs) (others ++ [st.currentTask]) :=
    circle.congr (fun _ _ => rfl)
  have alternating : Alternating (scanVisitor st.kernelTask) (st.saved regs).tasks
      (others ++ [st.currentTask]) :=
    alternating_of_resumable
      (fun node member => h.saved_resumable stays ((circle.perm h.run).subset member))
  obtain ⟨picked, rest, tasks, turn, found⟩ := alternating.turn circle.nodup (by simp)
  obtain ⟨ends, scanned⟩ := circle'.scan circle'.entry found
  constructor
  · refine ⟨max (sems.length + 1) ((others ++ [st.currentTask]).length + 1), fun fuel enough => ?_⟩
    have woken := saved.semctlProcess_quiet h.quiet fuel
    obtain ⟨last, scan⟩ := ends fuel (by omega)
    have resumed := congrArg (Option.map Tasking.resumed) scan
    rw [switchTask_eq h.tasking, woken.1 (by omega)]
    exact ⟨last.resumed, resumed⟩
  · intro fuel r run
    obtain ⟨woken, last, process, scan, rfl⟩ := switchTask_inv h.tasking run
    obtain rfl := (saved.semctlProcess_quiet h.quiet fuel).2 process
    have next := h.turned stays circle turn (scanned scan)
    exact ⟨next.1, rest, next.2⟩

end Switch

-----------------------------------------------------------------------------------------
-- Calls of switchTask
-----------------------------------------------------------------------------------------

/-- Between two calls, the run queue, its tasks and the current task stay as they are, and no
waiting task becomes ready.
-/
structure Undisturbing (st st' : Tasking) : Prop where
  queue : ∀ nodes, Queue st .mainQueue nodes → Queue st' .mainQueue nodes
  tasks : ∀ node, st.LinkedIn .mainQueue node → st'.tasks node = st.tasks node
  current : st'.currentTask = st.currentTask
  kernelTask : st'.kernelTask = st.kernelTask
  tasking : isTaskingInit st' = isTaskingInit st
  quiet : ∃ nodes sems waiting, Queues st' nodes sems waiting
    ∧ ∀ semaphore ∈ sems, wokenBy st' waiting semaphore = []

/-- Calls of `switchTask` by tasks that do not end, with the tasks that they select. -/
inductive Switches : Tasking → List Node → Tasking → Prop where
  | done (st : Tasking) : Switches st [] st
  | call {st mid st' : Tasking} {picked : List Node} (event : SchedEvent)
      (switches : event.Switches) (proper : event.Proper st) (fuel : Nat)
      (ran : event.step fuel st = some mid) (later : Switches mid picked st')
      : Switches st (mid.currentTask :: picked) st'
  | between {st mid st' : Tasking} {picked : List Node} (same : Undisturbing st mid)
      (later : Switches mid picked st')
      : Switches st picked st'

section Calls

variable {st st' : Tasking} {nodes sems others picked : List Node} {waiting : Node → List Node}

/-- The queue is as before, and the semaphores may be others. -/
theorem Unchanging.undisturbed (h : Unchanging st nodes sems waiting) (same : Undisturbing st st')
    : ∃ sems' waiting', Unchanging st' nodes sems' waiting' := by
  obtain ⟨nodes', sems', waiting', queues, quiet⟩ := same.quiet
  obtain rfl := (same.queue nodes h.run).unique queues.run
  have task {node : Node} (member : node ∈ nodes) : st'.tasks node = st.tasks node :=
    same.tasks node (h.run.linkedIn_iff.mpr member)
  refine ⟨sems', waiting', queues, quiet, same.tasking.trans h.tasking, ?_, ?_, ?_⟩
  · rw [same.current]
    exact h.current
  · rw [same.current, task h.current]
    exact h.active
  · intro node member differs
    rw [same.current] at differs
    rw [Tasking.Resumable, task member]
    exact h.resumable node member differs

theorem Undisturbing.circle {order : List Node} (same : Undisturbing st st')
    (circle : Circle st order)
    : Circle st' order := by
  obtain ⟨front, back, cut, queue⟩ := circle
  exact ⟨front, back, cut, same.queue _ queue⟩

/-- A call is a switch out of the interrupted task, which may have given up its turn. -/
theorem Unchanging.call (h : Unchanging st nodes sems waiting)
    (circle : Circle st (others ++ [st.currentTask])) {event : SchedEvent}
    (switches : event.Switches) (proper : event.Proper st)
    : ∃ before, Unchanging before nodes sems waiting ∧ before.currentTask = st.currentTask
      ∧ before.kernelTask = st.kernelTask ∧ Circle before (others ++ [st.currentTask])
      ∧ (∀ node, node ≠ st.currentTask → (before.tasks node).status = (st.tasks node).status)
      ∧ ∃ regs, regs.ecx ≠ exitMark
        ∧ ∀ fuel, event.step fuel st = (DeadKernel.switchTask fuel regs before).map Prod.snd := by
  cases event with
  | start block task => contradiction
  | again node => contradiction
  | tick regs =>
      exact ⟨st, h, rfl, rfl, circle, fun _ _ => rfl, regs, proper, fun _ => rfl⟩
  | yield env regs =>
      let task : Task := { st.tasks st.currentTask with status := .yield }
      have other {node : Node} (differs : node ≠ st.currentTask)
          : (st.setTask st.currentTask task).tasks node = st.tasks node :=
        Function.update_of_ne differs _ _
      have own : (st.setTask st.currentTask task).tasks st.currentTask = task :=
        Tasking.tasks_setTask _ _ _
      refine ⟨st.setTask st.currentTask task, ⟨h.toQueues.congr rfl, h.quiet, h.tasking, h.current,
        ?_, fun node member differs => ?_⟩, rfl, rfl, circle.congr (fun _ _ => rfl),
        fun node differs => congrArg Task.status (other differs), regs, proper, fun fuel => ?_⟩
      · exact Or.inr (Or.inr (congrArg Task.status own))
      · rw [Tasking.Resumable, other differs]
        exact h.resumable node member differs
      · change Option.map Prod.snd (yield { env with fuel } regs st) = _
        rw [yield, if_neg (not_not.mpr h.tasking)]

/-- Whoever waits for fewer calls than there are is selected, by induction over the calls. The
current task may give up its turn in the first one, and waits for two rounds at most.
-/
theorem Switches.selects (run : Switches st picked st') (h : Unchanging st nodes sems waiting)
    (circle : Circle st (others ++ [st.currentTask])) {node : Node} (member : node ∈ nodes)
    (enough : node ≠ st.currentTask ∧ st.wait others node ≤ picked.length
      ∨ 2 * nodes.length ≤ picked.length)
    : node ∈ picked := by
  induction run generalizing nodes sems others waiting with
  | done st =>
      have filled := List.length_pos_of_mem member
      rw [Tasking.wait, Rounds.wait, List.length_nil] at enough
      omega
  | @call st mid st' picked event switches proper fuel ran later ih =>
      obtain ⟨before, h', current, kernelTask, circle', status, regs, stays, step⟩ :=
        h.call circle switches proper
      rw [step] at ran
      obtain ⟨r, switched, rfl⟩ := Option.map_eq_some_iff.mp ran
      rw [← current] at circle'
      obtain ⟨⟨nodes', next⟩, others', advanced⟩ := (h'.switchTask stays circle').2 switched
      have perm := circle'.perm h'.run
      have within : before.wait others node ≤ picked.length + 1 := by
        rcases enough with ⟨other, waits⟩ | rounds
        · rw [Tasking.wait_congr kernelTask current (status node other)]
          exact waits
        · have most : before.wait others node ≤ 2 * (others ++ [before.currentTask]).length :=
            wait_le (perm.mem_iff.mpr member)
          rw [perm.length_eq] at most
          exact most.trans rounds
      by_cases selected : node = r.2.currentTask
      · rw [selected]
        exact List.mem_cons_self
      · refine List.mem_cons_of_mem _ (ih next advanced.circle ?_ (Or.inl ⟨selected, ?_⟩))
        · have same := (advanced.circle.perm next.run).symm.trans (advanced.perm.trans perm)
          exact same.mem_iff.mpr member
        · have closer := advanced.closer node (perm.mem_iff.mpr member) selected
          omega
  | @between st mid st' picked same later ih =>
      obtain ⟨sems', waiting', next⟩ := h.undisturbed same
      have circle' := same.circle circle
      rw [← same.current] at circle'
      have status := congrArg Task.status (same.tasks node (h.run.linkedIn_iff.mpr member))
      rw [← same.current, ← Tasking.wait_congr same.kernelTask same.current status] at enough
      exact ih next circle' member enough

/-- The queue can go on unchanged behind any number of calls, by induction over them. -/
theorem Switches.unchanging (run : Switches st picked st') (h : Unchanging st nodes sems waiting)
    : ∃ nodes' sems' waiting', Unchanging st' nodes' sems' waiting' := by
  induction run generalizing nodes sems waiting with
  | done st => exact ⟨nodes, sems, waiting, h⟩
  | call event switches proper fuel ran later ih =>
      obtain ⟨others, circle⟩ := h.circle
      obtain ⟨before, h', current, -, circle', -, regs, stays, step⟩ :=
        h.call circle switches proper
      rw [step] at ran
      obtain ⟨r, switched, rfl⟩ := Option.map_eq_some_iff.mp ran
      rw [← current] at circle'
      obtain ⟨⟨nodes', next⟩, -⟩ := (h'.switchTask stays circle').2 switched
      exact ih next
  | between same later ih =>
      obtain ⟨sems', waiting', next⟩ := h.undisturbed same
      exact ih next

/-- In a run queue that stays as it is and whose tasks do not end, every call of `switchTask`
returns, and twice as many calls as there are tasks select every task.
-/
theorem switches_fair (h : Unchanging st nodes sems waiting) (run : Switches st picked st')
    : (∀ event : SchedEvent, event.Switches → event.Proper st'
        → ∃ enough, ∀ fuel, enough ≤ fuel → ∃ next, event.step fuel st' = some next)
      ∧ (2 * nodes.length ≤ picked.length → ∀ node ∈ nodes, node ∈ picked) := by
  constructor
  · intro event switches proper
    obtain ⟨nodes', sems', waiting', h'⟩ := run.unchanging h
    obtain ⟨others, circle⟩ := h'.circle
    obtain ⟨before, next, current, -, circle', -, regs, stays, step⟩ :=
      h'.call circle switches proper
    rw [← current] at circle'
    obtain ⟨enough, ends⟩ := (next.switchTask stays circle').1
    refine ⟨enough, fun fuel le => ?_⟩
    obtain ⟨r, switched⟩ := ends fuel le
    exact ⟨r.2, by rw [step, switched, Option.map_some]⟩
  · intro enough node member
    obtain ⟨others, circle⟩ := h.circle
    exact run.selects h circle member (Or.inr enough)

end Calls

def idleTick : SchedEvent := .tick .zero

/-- The timer can tick any number of times, by induction over the ticks. -/
theorem Unchanging.ticks {st : Tasking} {nodes sems : List Node} {waiting : Node → List Node}
    (h : Unchanging st nodes sems waiting) (count : Nat)
    : ∃ picked st', Switches st picked st' ∧ picked.length = count := by
  induction count generalizing st nodes sems waiting with
  | zero => exact ⟨[], st, .done st, rfl⟩
  | succ count ih =>
      have stays : CPURegisters.zero.ecx ≠ exitMark := by decide
      obtain ⟨others, circle⟩ := h.circle
      obtain ⟨⟨enough, ends⟩, next⟩ := h.switchTask stays circle
      obtain ⟨r, switched⟩ := ends enough le_rfl
      obtain ⟨⟨nodes', h'⟩, -⟩ := next switched
      obtain ⟨picked, st', later, length⟩ := ih h'
      have ran : idleTick.step enough st = some r.2 := congrArg (Option.map Prod.snd) switched
      exact ⟨r.2.currentTask :: picked, st', .call idleTick trivial stays enough ran later,
        congrArg Nat.succ length⟩

/-- Two tasks and four ticks. -/
theorem switches_fair_twoTasks
    : ∃ picked st, Switches twoTasks picked st ∧ picked.length = 4
        ∧ ∀ node ∈ [Node.task 1, .task 2], node ∈ picked := by
  have unchanging : Unchanging twoTasks [.task 1, .task 2] [] (fun _ => []) :=
    { run := ⟨⟨rfl, rfl, rfl, rfl, rfl, rfl, trivial⟩, by decide⟩
      semaphores := ⟨⟨rfl, rfl, trivial⟩, by decide⟩
      waiters := by simp
      named := by simp
      tasks := by simp
      blocked := by simp
      apart := by simp
      separate := by simp
      quiet := by simp
      tasking := rfl
      current := List.mem_cons_self
      active := Or.inl rfl
      resumable := by
        intro node member _
        rcases List.mem_cons.mp member with rfl | last
        · exact Or.inl rfl
        · rw [List.mem_singleton.mp last]
          exact Or.inl rfl }
  obtain ⟨picked, st, run, length⟩ := unchanging.ticks 4
  exact ⟨picked, st, run, length, (switches_fair unchanging run).2 (by simp [length])⟩

end DeadKernel
