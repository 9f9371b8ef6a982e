import DeadKernel.Foundation.Visits
import DeadKernel.Multitasking.LastTask

/-! What the loop of `switchTask` reads of a task that it destroys. A task is destroyed while the
loop's cursor is on it; the test that follows and the step to the next task go through the cursor.
-/

namespace DeadKernel

open Rings Rounds

-----------------------------------------------------------------------------------------
-- The accesses of the loop
-----------------------------------------------------------------------------------------

/-- What the loop reads of the task under its cursor, and the tasks that it destroys. -/
inductive Access where
  /-- `switch (task->status)` -/
  | visit (task : Node) (status : Status)
  /-- `destroyTask(task)`, which ends with `freeTask` -/
  | release (task : Node)
  /-- `if (task->status == TS_RUNNING)` -/
  | test (task : Node)
  /-- `list_pass_entry(iter, ..)` -/
  | next (task : Node)
deriving DecidableEq

def Access.released : Access → Option Node
  | .release task => some task
  | .visit _ _ | .test _ | .next _ => none

/-- The access reads a field of the task. -/
def Access.Reads (node : Node) : Access → Prop
  | .visit task _ | .test task | .next task => task = node
  | .release _ => False

/-- The tasks that `visitTask` destroys. -/
def collects (iter : Node) (st : Tasking) : Bool :=
  match (st.tasks iter).status with
  | .zombie | .finished => iter ≠ st.kernelTask
  | .created | .idle | .running | .yield | .stopped => false

/-- The accesses of the loop, as `scanQueue` goes through it. -/
def scanAccesses : Nat → Node → Tasking → List Access
  | 0, _, _ => []
  | fuel + 1, iter, st =>
      if st.next .mainQueue = .mainQueue ∨ st.prev .mainQueue = .mainQueue then []
      else
        let visit := Access.visit iter (st.tasks iter).status
        let released := if collects iter st then [Access.release iter] else []
        let st := visitTask iter st
        visit :: released ++ .test iter ::
          if (st.tasks iter).status = .running then []
          else .next iter :: scanAccesses fuel (listPassEntry st iter .mainQueue) st

/-- The accesses that the loop makes in `switchTask`. -/
def switchAccesses (fuel : Nat) (regs : CPURegisters) (st : Tasking) : List Access :=
  if ¬ isTaskingInit st then []
  else
    match semctlProcess fuel (st.saved regs) with
    | none => []
    | some woken => scanAccesses fuel (listPassEntry woken woken.currentTask .mainQueue) woken

/-- Every zombie that is visited, but the kernel task, is destroyed once. -/
def CollectsOnce (kernelTask : Node) (accesses : List Access) : Prop :=
  ∀ node, node ≠ kernelTask → .visit node .zombie ∈ accesses
    → accesses.count (.release node) = 1

/-- Moreover, nothing is read of a task behind its release. -/
structure CollectsSafely (kernelTask : Node) (accesses : List Access) : Prop where
  once : CollectsOnce kernelTask accesses
  unread : accesses.Pairwise
    (fun first later => ∀ node, first = .release node → ¬ later.Reads node)

/-- The accesses of one visit. -/
def visitAccesses (kernelTask : Node) (visit : Node × Task) : List Access :=
  .visit visit.1 visit.2.status
    :: match (scanVisitor kernelTask).verdict visit.1 visit.2 with
      | .pick => [.test visit.1]
      | .stay => [.test visit.1, .next visit.1]
      | .leave => [.release visit.1, .test visit.1, .next visit.1]

section Accesses

variable {st : Tasking} {order : List Node}

theorem collects_iff {iter : Node}
    : collects iter st = true ↔ (scanVisitor st.kernelTask).verdict iter (st.tasks iter) = .leave := by
  rw [collects]
  cases status : (st.tasks iter).status with
  | zombie => simp only [scanVisitor, status]; split <;> simp_all
  | finished => simp only [scanVisitor, status]; split <;> simp_all
  | created | idle | running | yield | stopped => simp [scanVisitor, status]

/-- One round of the loop, in a queue that is not empty. -/
theorem scanAccesses_visit {fuel : Nat} {iter : Node}
    (linked : ¬ (st.next .mainQueue = .mainQueue ∨ st.prev .mainQueue = .mainQueue))
    : scanAccesses (fuel + 1) iter st
      = visitAccesses st.kernelTask (iter, st.tasks iter)
        ++ if (scanVisitor st.kernelTask).verdict iter (st.tasks iter) = .pick then []
          else scanAccesses fuel (listPassEntry (visitTask iter st) iter .mainQueue)
            (visitTask iter st) := by
  have filled : queueEmpty .mainQueue st = false :=
    decide_eq_false (fun same => linked (Or.inl same))
  have collected : collects iter st = true
      ↔ (scanVisitor st.kernelTask).verdict iter (st.tasks iter) = .leave := collects_iff
  rw [scanAccesses, if_neg linked]
  simp only [visitTask_running filled, collected, visitAccesses]
  cases verdict : (scanVisitor st.kernelTask).verdict iter (st.tasks iter) with
  | pick => simp
  | stay => simp
  | leave => simp

/-- The accesses of the loop are those of its visits, by induction over the visits. -/
theorem Circle.scanAccesses (h : Circle st order) (fuel : Nat) {iter : Node}
    (entry : order.headD iter = iter)
    : scanAccesses fuel iter st
      = (visits (scanVisitor st.kernelTask) fuel order st.tasks).flatMap
          (visitAccesses st.kernelTask) := by
  induction fuel generalizing st order iter with
  | zero => rfl
  | succ fuel ih =>
      cases order with
      | nil =>
          rw [DeadKernel.scanAccesses, if_pos (h.empty_iff.mpr rfl), visits, List.flatMap_nil]
      | cons node rest =>
          obtain rfl : node = iter := entry
          have linked := mt h.empty_iff.mp (List.cons_ne_nil _ _)
          have filled : queueEmpty .mainQueue st = false :=
            decide_eq_false (fun same => linked (Or.inl same))
          have visit : visitTask node st = _ := visitTask_eq filled
          rw [scanAccesses_visit linked, visits, List.flatMap_cons]
          refine congrArg (visitAccesses st.kernelTask (node, st.tasks node) ++ ·) ?_
          cases verdict : (scanVisitor st.kernelTask).verdict node (st.tasks node) with
          | pick => rw [if_pos rfl, List.flatMap_nil]
          | stay =>
              rw [verdict, if_neg (by decide)] at visit
              rw [if_neg (by decide), visit]
              let st' := st.setTask node ((scanVisitor st.kernelTask).value node (st.tasks node))
              have circle : Circle st' (node :: rest) := h.congr (fun _ _ => rfl)
              exact ih circle.rotate circle.next_entry
          | leave =>
              have same : (scanVisitor st.kernelTask).value node (st.tasks node)
                  = st.tasks node := value_of_leave verdict
              rw [verdict, if_pos rfl, destroyTask_leaving verdict] at visit
              rw [if_neg (by decide), visit, same, Function.update_eq_self]
              obtain ⟨circle, next, -⟩ := h.delete
              let st' := { queueDelEntry node st with destroyed := node :: st.destroyed }
              have circle' : Circle st' rest := circle.congr (fun _ _ => rfl)
              exact ih circle' next

theorem visitAccesses_released (kernelTask node : Node) (task : Task)
    : (visitAccesses kernelTask (node, task)).filterMap Access.released
      = if (scanVisitor kernelTask).verdict node task = .leave then [node] else [] := by
  rw [visitAccesses]
  cases verdict : (scanVisitor kernelTask).verdict node task <;> rfl

/-- What the loop destroys is what `scanQueue` adds to the destroyed tasks, by induction over the
visits.
-/
theorem scanAccesses_released {fuel : Nat} {iter : Node} {last : Tasking}
    (run : scanQueue fuel iter st = some last)
    : last.destroyed
      = ((DeadKernel.scanAccesses fuel iter st).filterMap Access.released).reverse
        ++ st.destroyed := by
  induction fuel generalizing st iter with
  | zero => contradiction
  | succ fuel ih =>
      by_cases linked : st.next .mainQueue = .mainQueue ∨ st.prev .mainQueue = .mainQueue
      · rw [scanQueue, if_pos linked] at run
        obtain rfl := Option.some.inj run
        rw [DeadKernel.scanAccesses, if_pos linked]
        rfl
      · have filled : queueEmpty .mainQueue st = false :=
          decide_eq_false (fun same => linked (Or.inl same))
        have visit : visitTask iter st = _ := visitTask_eq filled
        rw [scanQueue_visit linked] at run
        rw [scanAccesses_visit linked, List.filterMap_append, visitAccesses_released]
        cases verdict : (scanVisitor st.kernelTask).verdict iter (st.tasks iter) with
        | pick =>
            rw [verdict, if_neg (by decide)] at visit
            rw [verdict, if_pos rfl, visit] at run
            obtain rfl := Option.some.inj run
            rfl
        | stay =>
            rw [verdict, if_neg (by decide)] at visit
            rw [verdict, if_neg (by decide)] at run
            rw [if_neg (by decide), ih run, visit]
            rfl
        | leave =>
            rw [verdict, if_pos rfl, destroyTask_leaving verdict] at visit
            rw [verdict, if_neg (by decide)] at run
            rw [if_pos rfl, if_neg (by decide), ih run, visit, List.reverse_append,
              List.append_assoc]
            rfl

end Accesses

-----------------------------------------------------------------------------------------
-- The visits that destroy a task
-----------------------------------------------------------------------------------------

/-- The scan of `order` comes to a task that it destroys: one that has ended, before the first idle
task; or, when no task is idle, one that asks to end, before the first that can go on.
-/
def MeetsEnded (kernelTask : Node) (tasks : Node → Task) (order : List Node) : Prop :=
  (∃ part node rest, order = part ++ node :: rest ∧ node ≠ kernelTask
    ∧ ((tasks node).status = .zombie ∨ (tasks node).status = .finished)
    ∧ ∀ other ∈ part, (tasks other).status ≠ .idle)
  ∨ (∀ node ∈ order, (tasks node).status ≠ .idle)
    ∧ ∃ part node rest, order = part ++ node :: rest ∧ node ≠ kernelTask
      ∧ ((tasks node).status = .running ∨ (tasks node).status = .yield)
      ∧ (tasks node).regs.ecx = exitMark ∧ ∀ other ∈ part, ¬ (tasks other).Resumable

section Visits

variable {kernelTask : Node} {tasks : Node → Task} {order : List Node} {visited : List (Node × Task)}

theorem leave_iff {node : Node} {task : Task}
    : (scanVisitor kernelTask).verdict node task = .leave
      ↔ node ≠ kernelTask ∧ (task.status = .zombie ∨ task.status = .finished) := by
  cases status : task.status <;> simp [scanVisitor, status]

/-- A visited task that was not idle is not running behind its visit. -/
theorem value_not_active (kernelTask node : Node) {task : Task} (notIdle : task.status ≠ .idle)
    : ((scanVisitor kernelTask).value node task).status ≠ .running
      ∧ ((scanVisitor kernelTask).value node task).status ≠ .yield := by
  cases status : task.status with
  | idle => exact absurd status notIdle
  | running => simp only [scanVisitor, status]; split <;> simp
  | yield => simp only [scanVisitor, status]; split <;> simp
  | zombie | finished | created | stopped => simp [scanVisitor, status]

theorem visit_of_access {node : Node} {status : Status}
    (inside : .visit node status ∈ visited.flatMap (visitAccesses kernelTask))
    : ∃ visit ∈ visited, visit.1 = node ∧ visit.2.status = status := by
  obtain ⟨visit, member, seen⟩ := List.mem_flatMap.mp inside
  refine ⟨visit, member, ?_⟩
  rw [visitAccesses] at seen
  rcases List.mem_cons.mp seen with first | later
  · simpa [eq_comm] using first
  · split at later <;> simp at later

theorem drops_of_release {node : Node}
    (inside : .release node ∈ visited.flatMap (visitAccesses kernelTask))
    : ∃ visit ∈ visited, visit.1 = node ∧ (scanVisitor kernelTask).Drops visit := by
  obtain ⟨visit, member, released⟩ := List.mem_flatMap.mp inside
  rw [visitAccesses] at released
  cases verdict : (scanVisitor kernelTask).verdict visit.1 visit.2 with
  | pick => simp [verdict] at released
  | stay => simp [verdict] at released
  | leave => exact ⟨visit, member, by simpa [verdict, eq_comm] using released, verdict⟩

/-- A task that is destroyed leaves the queue, so it is destroyed once. -/
theorem collectsOnce_of_visits
    (once : visited.Pairwise
      (fun first second => (scanVisitor kernelTask).Drops first → second.1 ≠ first.1))
    : CollectsOnce kernelTask (visited.flatMap (visitAccesses kernelTask)) := by
  intro node other inside
  obtain ⟨visit, member, rfl, zombie⟩ := visit_of_access inside
  have drops : (scanVisitor kernelTask).Drops visit := leave_iff.mpr ⟨other, Or.inl zombie⟩
  obtain ⟨front, back, rfl⟩ := List.append_of_mem member
  obtain ⟨-, later, across⟩ := List.pairwise_append.mp once
  have before : Access.release visit.1 ∉ front.flatMap (visitAccesses kernelTask) := by
    intro released
    obtain ⟨first, earlier, same, dropped⟩ := drops_of_release released
    exact across first earlier visit List.mem_cons_self dropped same.symm
  have behind : Access.release visit.1 ∉ back.flatMap (visitAccesses kernelTask) := by
    intro released
    obtain ⟨second, again, same, -⟩ := drops_of_release released
    exact (List.pairwise_cons.mp later).1 second again drops same
  have own : (visitAccesses kernelTask visit).count (.release visit.1) = 1 := by
    rw [visitAccesses, drops]
    simp
  rw [List.flatMap_append, List.flatMap_cons, List.count_append, List.count_append,
    List.count_eq_zero.mpr before, List.count_eq_zero.mpr behind, own]

/-- Destroying a task under the cursor is never safe. -/
theorem collectsSafely_iff_drops
    : CollectsSafely kernelTask (visited.flatMap (visitAccesses kernelTask))
      ↔ ∀ visit ∈ visited, ¬ (scanVisitor kernelTask).Drops visit := by
  constructor
  · intro safe visit member drops
    obtain ⟨front, back, rfl⟩ := List.append_of_mem member
    have unread := safe.unread
    rw [List.flatMap_append, List.flatMap_cons, List.pairwise_append] at unread
    have own := (List.pairwise_append.mp unread.2.1).1
    rw [visitAccesses, drops] at own
    have behind := (List.pairwise_cons.mp (List.pairwise_cons.mp own).2).1
    exact behind (.test visit.1) List.mem_cons_self visit.1 rfl rfl
  · intro calm
    refine ⟨fun node other inside => ?_, ?_⟩
    · obtain ⟨visit, member, rfl, zombie⟩ := visit_of_access inside
      exact absurd (leave_iff.mpr ⟨other, Or.inl zombie⟩) (calm visit member)
    · refine List.pairwise_iff_forall_sublist.mpr (fun sub node released => ?_)
      rw [released] at sub
      obtain ⟨visit, member, -, drops⟩ := drops_of_release (sub.subset List.mem_cons_self)
      exact absurd drops (calm visit member)

/-- The first round visits every task up to the first idle one. -/
theorem meetsEnded_drops (distinct : order.Nodup) (meets : MeetsEnded kernelTask tasks order)
    : ∃ fuel, ∃ visit ∈ visits (scanVisitor kernelTask) fuel order tasks,
        (scanVisitor kernelTask).Drops visit := by
  rcases meets with ⟨part, node, rest, rfl, other, ended, notIdle⟩
    | ⟨notIdle, part, node, rest, same, other, active, marked, stuck⟩
  · exact ⟨part.length + 1, _, visits_behind distinct
      (fun task member => mt (pick_iff_idle kernelTask task).mp (notIdle task member)),
      leave_iff.mpr ⟨other, ended⟩⟩
  · -- the task becomes a zombie in the first round, and is destroyed in the second
    have passed : ∀ task ∈ order, (scanVisitor kernelTask).verdict task (tasks task) ≠ .pick :=
      fun task member => mt (pick_iff_idle kernelTask task).mp (notIdle task member)
    let after := visitAll (scanVisitor kernelTask) order tasks
    let left := staying (scanVisitor kernelTask) tasks
    have stays : (scanVisitor kernelTask).verdict node (tasks node) = .stay := by
      rcases active with status | status <;> simp [scanVisitor, status]
    have zombie : (after node).status = .zombie := by
      have member : node ∈ order := by simp [same]
      simp only [after, visitAll, if_pos member]
      rcases active with status | status <;> simp [scanVisitor, status, marked]
    have round := visits_pass distinct passed [] ((left part).length + 1)
    have circle : left order = left part ++ node :: left rest := by
      rw [same]
      simp [left, staying, stays]
    rw [List.append_nil, List.nil_append] at round
    change _ = _ ++ visits _ _ (left order) after at round
    rw [circle] at round
    have distinct' : (left part ++ node :: left rest).Nodup := by
      rw [← circle]
      exact distinct.sublist List.filter_sublist
    have passed' : ∀ task ∈ left part,
        (scanVisitor kernelTask).verdict task (after task) ≠ .pick := by
      intro task member pick
      have inside : task ∈ part := List.mem_of_mem_filter member
      have value : after task = (scanVisitor kernelTask).value task (tasks task) :=
        if_pos (by simp [same, inside])
      rw [value] at pick
      exact value_not_resumable kernelTask task (stuck task inside)
        (Or.inl ((pick_iff_idle _ _).mp pick))
    refine ⟨order.length + ((left part).length + 1), (node, after node), ?_, leave_iff.mpr ⟨other, Or.inl zombie⟩⟩
    rw [round]
    exact List.mem_append_right _ (visits_behind distinct' passed')

/-- Only a task that asks to end is destroyed at its second visit. -/
theorem asked_of_second_leave {node : Node} {task : Task} (notIdle : task.status ≠ .idle)
    (stays : (scanVisitor kernelTask).verdict node task ≠ .leave)
    (leaves : (scanVisitor kernelTask).verdict node ((scanVisitor kernelTask).value node task)
      = .leave)
    : node ≠ kernelTask ∧ (task.status = .running ∨ task.status = .yield)
      ∧ task.regs.ecx = exitMark := by
  refine ⟨(leave_iff.mp leaves).1, ?_⟩
  by_cases resumable : task.Resumable
  · have later := (resumable.passed kernelTask node notIdle).2.1
    simp [leave_iff, later] at leaves
  · cases status : task.status with
    | running =>
        exact ⟨Or.inl rfl, not_not.mp (fun stays => resumable (Or.inr ⟨Or.inl status, stays⟩))⟩
    | yield =>
        exact ⟨Or.inr rfl, not_not.mp (fun stays => resumable (Or.inr ⟨Or.inr status, stays⟩))⟩
    | idle => exact absurd status notIdle
    | zombie | finished | created | stopped =>
        have same : (scanVisitor kernelTask).value node task = task := by simp [scanVisitor, status]
        rw [same] at leaves
        exact absurd leaves stays

/-- A task that cannot go on and is not destroyed stays as its second visit finds it. -/
theorem stuck_of_stay {node : Node} {task : Task} (notIdle : task.status ≠ .idle)
    (notActive : task.status ≠ .running ∧ task.status ≠ .yield)
    (stays : (scanVisitor kernelTask).verdict node task ≠ .leave)
    : (scanVisitor kernelTask).verdict node task = .stay
      ∧ (scanVisitor kernelTask).value node task = task := by
  cases status : task.status with
  | idle => exact absurd status notIdle
  | running => exact absurd status notActive.1
  | yield => exact absurd status notActive.2
  | zombie => simp_all [scanVisitor]
  | finished => simp_all [scanVisitor]
  | created | stopped => simp [scanVisitor, status]

/-- A round that picks a task destroys none if none before that one leaves. -/
theorem not_drops_of_pick (distinct : order.Nodup) {part rest : List Node} {picked : Node}
    (same : order = part ++ picked :: rest)
    (notIdle : ∀ node ∈ part, (tasks node).status ≠ .idle) (idle : (tasks picked).status = .idle)
    (remain : ∀ node ∈ part, (scanVisitor kernelTask).verdict node (tasks node) ≠ .leave)
    (fuel : Nat)
    : ∀ visit ∈ visits (scanVisitor kernelTask) fuel order tasks,
        ¬ (scanVisitor kernelTask).Drops visit := by
  have round := visits_pick (same ▸ distinct)
    (fun node member => mt (pick_iff_idle kernelTask node).mp (notIdle node member))
    ((pick_iff_idle kernelTask picked).mpr idle) fuel
  rw [← same] at round
  intro visit inside drops
  obtain ⟨node, member, rfl⟩ := List.mem_map.mp (round.subset inside)
  rcases List.mem_append.mp member with before | last
  · exact remain node before drops
  · rw [List.mem_singleton.mp last] at drops
    simp [leave_iff, Visitor.Drops, idle] at drops

/-- Up to the first idle task nobody leaves in the first round. -/
theorem remain_of_not_meets (calm : ¬ MeetsEnded kernelTask tasks order) {part rest : List Node}
    (same : order = part ++ rest) (notIdle : ∀ other ∈ part, (tasks other).status ≠ .idle)
    : ∀ node ∈ part, (scanVisitor kernelTask).verdict node (tasks node) ≠ .leave := by
  intro node member leaves
  obtain ⟨front, back, rfl⟩ := List.append_of_mem member
  obtain ⟨other, ended⟩ := leave_iff.mp leaves
  exact calm (Or.inl ⟨front, node, back ++ rest, by simp [same], other, ended,
    fun task inside => notIdle task (List.mem_append_left _ inside)⟩)

section SecondRound

variable (calm : ¬ MeetsEnded kernelTask tasks order)
  (notIdle : ∀ node ∈ order, (tasks node).status ≠ .idle)

include calm notIdle

/-- Whoever leaves in the second round has asked to end before anybody can go on. -/
theorem remain_again {part rest : List Node} (same : order = part ++ rest)
    (stuck : ∀ other ∈ part,
      (visitAll (scanVisitor kernelTask) order tasks other).status ≠ .idle)
    : ∀ node ∈ part, (scanVisitor kernelTask).verdict node
        (visitAll (scanVisitor kernelTask) order tasks node) ≠ .leave := by
  intro node member leaves
  obtain ⟨front, back, rfl⟩ := List.append_of_mem member
  have known : node ∈ order := by simp [same]
  rw [visitAll, if_pos known] at leaves
  have stays := remain_of_not_meets calm (List.append_nil order).symm notIdle node known
  obtain ⟨other, active, marked⟩ := asked_of_second_leave (notIdle node known) stays leaves
  refine calm (Or.inr ⟨notIdle, front, node, back ++ rest, by simp [same], other, active,
    marked, fun task inside resumable => ?_⟩)
  have earlier : task ∈ order := by simp [same, inside]
  refine stuck task (List.mem_append_left _ inside) ?_
  rw [visitAll, if_pos earlier]
  exact (resumable.passed kernelTask task (notIdle task earlier)).2.1

/-- The second round ends with the first task that can go on, or changes nothing. -/
theorem not_drops_again (distinct : order.Nodup) (fuel : Nat)
    : ∀ visit ∈ visits (scanVisitor kernelTask) fuel order
          (visitAll (scanVisitor kernelTask) order tasks),
        ¬ (scanVisitor kernelTask).Drops visit := by
  rcases first_or_none
      (fun node => (visitAll (scanVisitor kernelTask) order tasks node).status = .idle) order
    with ⟨part, picked, rest, same, stuck, idle⟩ | stuck
  · exact not_drops_of_pick distinct same stuck idle (remain_again calm notIdle same stuck) fuel
  · refine visits_stuck (fun node member => ?_) fuel
    refine stuck_of_stay (stuck node member) ?_
      (remain_again calm notIdle (List.append_nil order).symm stuck node member)
    rw [visitAll, if_pos member]
    exact value_not_active kernelTask node (notIdle node member)

end SecondRound

/-- A scan that meets no ended task destroys none. The first round ends with the first idle task;
when there is none, everybody stays for a second one.
-/
theorem not_drops_of_not_meets (distinct : order.Nodup) (calm : ¬ MeetsEnded kernelTask tasks order)
    (fuel : Nat)
    : ∀ visit ∈ visits (scanVisitor kernelTask) fuel order tasks,
        ¬ (scanVisitor kernelTask).Drops visit := by
  rcases first_or_none (fun node => (tasks node).status = .idle) order
    with ⟨part, picked, rest, same, notIdle, idle⟩ | notIdle
  · exact not_drops_of_pick distinct same notIdle idle (remain_of_not_meets calm same notIdle) fuel
  · have stays := remain_of_not_meets calm (List.append_nil order).symm notIdle
    have passed : ∀ node ∈ order, (scanVisitor kernelTask).verdict node (tasks node) ≠ .pick :=
      fun node member => mt (pick_iff_idle kernelTask node).mp (notIdle node member)
    have circle : staying (scanVisitor kernelTask) tasks order = order := by
      refine List.filter_eq_self.mpr (fun node member => decide_eq_true ?_)
      have leaves := stays node member
      have picks := passed node member
      cases verdict : (scanVisitor kernelTask).verdict node (tasks node) with
      | stay => rfl
      | leave => exact absurd verdict leaves
      | pick => exact absurd verdict picks
    intro visit inside
    have longer := (visits_start (by omega : fuel ≤ order.length + fuel)).subset inside
    have round := visits_pass distinct passed [] fuel
    rw [List.append_nil, List.nil_append, circle] at round
    rw [round] at longer
    rcases List.mem_append.mp longer with here | later
    · obtain ⟨node, member, rfl⟩ := List.mem_map.mp here
      exact stays node member
    · exact not_drops_again calm notIdle distinct fuel visit later

end Visits

-----------------------------------------------------------------------------------------
-- One call of switchTask
-----------------------------------------------------------------------------------------

/-- The accesses of a switch are those of the visits around the woken circle, or it has not come so
far.
-/
theorem Queues.switchAccesses {st : Tasking} {nodes sems front back : List Node}
    {waiting : Node → List Node} (h : Queues st nodes sems waiting)
    (ready : st.semctlReady = true) (tasking : isTaskingInit st = true)
    (around : nodes ++ sems.flatMap (wokenBy st waiting) = front ++ st.currentTask :: back)
    (regs : CPURegisters) (fuel : Nat)
    : (back ++ front ++ [st.currentTask]).Nodup
      ∧ (switchAccesses fuel regs st = [] ∧ fuel ≤ sems.length
        ∨ switchAccesses fuel regs st
          = (visits (scanVisitor st.kernelTask) fuel (back ++ front ++ [st.currentTask])
              (st.saved regs).tasks).flatMap (visitAccesses st.kernelTask)) := by
  have saved : Queues (st.saved regs) nodes sems waiting := h.congr rfl
  have ready' : (st.saved regs).semctlReady = true := ready
  have ends {fuel : Nat} (enough : sems.length < fuel)
      : ∃ woken, DeadKernel.semctlProcess fuel (st.saved regs) = some woken := by
    rw [DeadKernel.semctlProcess, if_pos ready', saved.first_semaphore]
    exact saved.processFrom_ends (List.nil_append _).symm enough
  have woke {fuel : Nat} {woken : Tasking}
      (process : DeadKernel.semctlProcess fuel (st.saved regs) = some woken)
      : Circle woken (back ++ front ++ [woken.currentTask]) ∧ SameTasking (st.saved regs) woken := by
    obtain ⟨queues, same⟩ := saved.semctlProcess ready' process
    have run := queues.run
    change Queue woken .mainQueue (nodes ++ sems.flatMap (wokenBy st waiting)) at run
    have current : woken.currentTask = st.currentTask := same.currentTask
    refine ⟨⟨front ++ [st.currentTask], back, by rw [current]; simp, ?_⟩, same⟩
    rw [around] at run
    simpa using run
  constructor
  · obtain ⟨woken, process⟩ := ends (Nat.lt_succ_self sems.length)
    obtain ⟨circle, same⟩ := woke process
    have current : woken.currentTask = st.currentTask := same.currentTask
    rw [← current]
    exact circle.nodup
  · rw [DeadKernel.switchAccesses, if_neg (not_not.mpr tasking)]
    cases process : DeadKernel.semctlProcess fuel (st.saved regs) with
    | none =>
        refine Or.inl ⟨rfl, Nat.le_of_not_lt (fun enough => ?_)⟩
        obtain ⟨woken, done⟩ := ends enough
        rw [process] at done
        contradiction
    | some woken =>
        obtain ⟨circle, same⟩ := woke process
        refine Or.inr ((circle.scanAccesses fuel circle.entry).trans ?_)
        rw [same.kernelTask, same.tasks, same.currentTask]
        rfl

/-- In every run queue, a call of `switchTask` destroys every zombie that it visits once, but the
kernel task; and it leaves destroyed tasks alone exactly if it comes to none.
-/
theorem collectsSafely_iff {st : Tasking} {nodes sems front back : List Node}
    {waiting : Node → List Node} (h : Queues st nodes sems waiting)
    (ready : st.semctlReady = true) (tasking : isTaskingInit st = true)
    (around : nodes ++ sems.flatMap (wokenBy st waiting) = front ++ st.currentTask :: back)
    (regs : CPURegisters)
    : (∀ fuel, CollectsOnce st.kernelTask (switchAccesses fuel regs st))
      ∧ ((∀ fuel, CollectsSafely st.kernelTask (switchAccesses fuel regs st))
        ↔ ¬ MeetsEnded st.kernelTask (st.saved regs).tasks
            (back ++ front ++ [st.currentTask])) := by
  have accesses := h.switchAccesses ready tasking around regs
  have distinct := (accesses 0).1
  refine ⟨fun fuel => ?_, fun safe meets => ?_, fun calm fuel => ?_⟩
  · rcases (accesses fuel).2 with ⟨none, -⟩ | same
    · rw [none]
      exact fun node _ inside => absurd inside List.not_mem_nil
    · rw [same]
      exact collectsOnce_of_visits (visits_leave_once distinct fuel)
  · obtain ⟨fuel, visit, member, drops⟩ := meetsEnded_drops distinct meets
    let more := max fuel (sems.length + 1)
    rcases (accesses more).2 with ⟨-, short⟩ | same
    · omega
    · have visited := safe more
      rw [same] at visited
      exact collectsSafely_iff_drops.mp visited visit
        ((visits_start (Nat.le_max_left _ _)).subset member) drops
  · rcases (accesses fuel).2 with ⟨none, -⟩ | same
    · rw [none]
      exact ⟨fun node _ inside => absurd inside List.not_mem_nil, List.Pairwise.nil⟩
    · rw [same]
      exact collectsSafely_iff_drops.mpr (not_drops_of_not_meets distinct calm fuel)

theorem twoTasks_queues : Queues twoTasks [.task 1, .task 2] [] (fun _ => []) :=
  ⟨⟨⟨rfl, rfl, rfl, rfl, rfl, rfl, trivial⟩, by decide⟩, ⟨⟨rfl, rfl, trivial⟩, by decide⟩,
    by simp, by simp, by simp, by simp, by simp, by simp⟩

/-- Two tasks of which none has ended. -/
theorem collectsSafely_iff_twoTasks
    : (∀ fuel, CollectsOnce (.task 1) (switchAccesses fuel .zero twoTasks))
      ∧ ∀ fuel, CollectsSafely (.task 1) (switchAccesses fuel .zero twoTasks) := by
  obtain ⟨once, safely⟩ := collectsSafely_iff twoTasks_queues rfl rfl
    (rfl : _ = [] ++ Node.task 1 :: [.task 2]) .zero
  refine ⟨once, safely.mpr ?_⟩
  have idle : ∀ node ∈ [Node.task 2, .task 1],
      ((twoTasks.saved .zero).tasks node).status = .idle := by
    intro node member
    rcases List.mem_cons.mp member with rfl | last
    · rfl
    · rw [List.mem_singleton.mp last]
      rfl
  rintro (⟨part, node, rest, same, -, ended, -⟩ | ⟨notIdle, -⟩)
  · have now := idle node (by rw [show [Node.task 2, .task 1] = _ from same]; simp)
    rw [now] at ended
    simp at ended
  · exact notIdle _ List.mem_cons_self (idle _ List.mem_cons_self)

/-- Task 2 runs and ends, so that the kernel task is switched in. -/
def secondEnds : Option Tasking :=
  (timerCallback 6 .zero twoTasks).bind
    (fun r => (timerCallback 6 endingFrame r.2).map Prod.snd)

theorem secondEnds_accesses
    : secondEnds.map (switchAccesses 6 .zero)
      = some [.visit (.task 2) .running, .test (.task 2), .next (.task 2),
          .visit (.task 1) .running, .test (.task 1), .next (.task 1),
          .visit (.task 2) .zombie, .release (.task 2), .test (.task 2), .next (.task 2),
          .visit (.task 1) .idle, .test (.task 1)] := by
  decide +kernel

/-- At the next tick task 2 is destroyed, and then its status and its link are read. -/
theorem destroyed_read
    : ∃ st, secondEnds = some st ∧ ¬ CollectsSafely st.kernelTask (switchAccesses 6 .zero st) := by
  obtain ⟨st, ended, accesses⟩ := Option.map_eq_some_iff.mp secondEnds_accesses
  refine ⟨st, ended, fun safe => ?_⟩
  have unread := safe.unread
  rw [accesses] at unread
  have pair : List.Pairwise _ [Access.release (.task 2), .test (.task 2)] :=
    unread.sublist (by decide)
  exact List.pairwise_pair.mp pair (.task 2) rfl rfl

end DeadKernel
