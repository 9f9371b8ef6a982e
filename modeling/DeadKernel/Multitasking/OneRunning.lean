import DeadKernel.Multitasking.Scan
import Mathlib.Data.List.Perm.Subperm

/-! Which tasks are marked as running. A scan ends at the first idle task and rewrites the status
of those before it only, so the interrupted task is still marked as running whenever another task
was idle.
-/

namespace DeadKernel

open Rings Rounds

-----------------------------------------------------------------------------------------
-- A scan over tasks that all can go on
-----------------------------------------------------------------------------------------

section Rounds

variable {st : Tasking} {part : List Node} (kernelTask : Node)

/-- Resumable tasks that are not idle all stay. -/
theorem staying_resumable (resumable : ∀ node ∈ part, st.Resumable node)
    (notIdle : ∀ node ∈ part, (st.tasks node).status ≠ .idle)
    : staying (scanVisitor kernelTask) st.tasks part = part :=
  List.filter_eq_self.mpr (fun node member =>
    decide_eq_true (Task.Resumable.passed kernelTask node (resumable node member)
      (notIdle node member)).1)

/-- The first idle task is picked. -/
theorem rounds_first_idle {picked : Node} {rest : List Node}
    (distinct : (part ++ picked :: rest).Nodup) (resumable : ∀ node ∈ part, st.Resumable node)
    (notIdle : ∀ node ∈ part, (st.tasks node).status ≠ .idle)
    (idle : (st.tasks picked).status = .idle)
    : rounds (scanVisitor kernelTask) (part.length + 1) (part ++ picked :: rest) st.tasks
      = some (picked :: (rest ++ part),
          visitAll (scanVisitor kernelTask) (part ++ [picked]) st.tasks) := by
  have front : (part ++ [picked]).Nodup :=
    distinct.sublist (List.Sublist.append_left (by simp) part)
  rw [rounds_pick front (fun node member => mt (pick_iff_idle kernelTask node).mp (notIdle node member))
    ((pick_iff_idle kernelTask picked).mpr idle), staying_resumable kernelTask resumable notIdle]

/-- When no task is idle, all become idle and the first is picked in the second round. -/
theorem rounds_no_idle {first : Node} (distinct : (first :: part).Nodup)
    (resumable : ∀ node ∈ first :: part, st.Resumable node)
    (notIdle : ∀ node ∈ first :: part, (st.tasks node).status ≠ .idle)
    : rounds (scanVisitor kernelTask) ((first :: part).length + 1) (first :: part) st.tasks
      = some (first :: part, visitAll (scanVisitor kernelTask) [first]
          (visitAll (scanVisitor kernelTask) (first :: part) st.tasks)) := by
  let again : Tasking :=
    { st with tasks := visitAll (scanVisitor kernelTask) (first :: part) st.tasks }
  have idle : (again.tasks first).status = .idle := by
    have here := Task.Resumable.passed kernelTask first (resumable first (by simp))
      (notIdle first (by simp))
    simpa [again, visitAll] using here.2.1
  have round := rounds_pass distinct
    (fun node member => mt (pick_iff_idle kernelTask node).mp (notIdle node member)) [] 1
  rw [List.append_nil, List.nil_append, staying_resumable kernelTask resumable notIdle] at round
  have whole : ([] ++ first :: part).Nodup := distinct
  have pick := rounds_first_idle kernelTask whole (by simp) (by simp) idle
  simpa using round.trans pick

end Rounds

-----------------------------------------------------------------------------------------
-- One switch
-----------------------------------------------------------------------------------------

/-- The current task closes the circle, all tasks can go on, and no other is running. -/
structure Steady (st : Tasking) (others : List Node) : Prop where
  circle : Circle st (others ++ [st.currentTask])
  current : (st.tasks st.currentTask).status.Active
  resumable : ∀ node ∈ others, st.Resumable node
  waiting : ∀ node ∈ others, (st.tasks node).status ≠ .running

/-- Exactly one task of the run queue is marked as running, the current one. -/
def OneRunning (st : Tasking) : Prop :=
  ∃ nodes, Queue st .mainQueue nodes ∧ st.currentTask ∈ nodes
    ∧ ∀ node ∈ nodes, (st.tasks node).status = .running ↔ node = st.currentTask

section Switch

variable {st : Tasking} {others : List Node}

/-- Whether exactly the current task is running, over the circle. -/
theorem Circle.oneRunning_iff (h : Circle st (others ++ [st.currentTask]))
    (running : (st.tasks st.currentTask).status = .running)
    : OneRunning st ↔ ∀ node ∈ others, (st.tasks node).status ≠ .running := by
  have distinct := h.nodup
  obtain ⟨front, back, same, queue⟩ := h
  have mem (node : Node) : node ∈ front ++ back ↔ node ∈ others ++ [st.currentTask] := by
    rw [same]
    simp [or_comm]
  have apart : st.currentTask ∉ others :=
    fun inside => (List.nodup_append.mp distinct).2.2 _ inside _ (by simp) rfl
  constructor
  · rintro ⟨nodes, queue', -, only⟩ node member again
    obtain rfl := queue.unique queue'
    have isCurrent := (only node ((mem node).mpr (by simp [member]))).mp again
    exact apart (isCurrent ▸ member)
  · intro waiting
    refine ⟨front ++ back, queue, (mem _).mpr (by simp), fun node member => ⟨?_, ?_⟩⟩
    · intro again
      rcases List.mem_append.mp ((mem node).mp member) with inside | last
      · exact absurd again (waiting node inside)
      · exact List.mem_singleton.mp last
    · rintro rfl
      exact running

/-- What a scan leaves that interrupts the last task of a circle: the picked task runs, and it
alone exactly if the interrupted task was not running while another was idle.
-/
structure Switched (st : Tasking) (others : List Node) (st' : Tasking) : Prop where
  picked : ∃ others', Circle st' (others' ++ [st'.currentTask])
    ∧ (others' ++ [st'.currentTask]).Perm (others ++ [st.currentTask])
    ∧ ∀ node ∈ others', st'.Resumable node
  running : (st'.tasks st'.currentTask).status = .running
  alone : OneRunning st' ↔ ((st.tasks st.currentTask).status = .running
    → ∀ node ∈ others, (st.tasks node).status ≠ .idle)
  outside : SameOutside (others ++ [st.currentTask]) st st'

/-- The last member of a circle stands behind every other one. -/
theorem last_mem_of_split {others part rest : List Node} {last picked : Node}
    (same : others ++ [last] = part ++ picked :: rest) (differs : last ≠ picked)
    : last ∈ rest := by
  induction rest using List.reverseRecOn with
  | nil => exact absurd (List.singleton_inj.mp (List.append_inj' same rfl).2) differs
  | append_singleton rest end_ _ =>
      rw [← List.cons_append, ← List.append_assoc] at same
      rw [List.singleton_inj.mp (List.append_inj' same rfl).2]
      exact List.mem_append_right rest List.mem_cons_self

/-- A scan that finds an idle task leaves the tasks behind it as they are. -/
theorem Steady.switched_idle (h : Steady st others) {part rest : List Node} {picked : Node}
    (same : others ++ [st.currentTask] = part ++ picked :: rest)
    (resumable : ∀ node ∈ others ++ [st.currentTask], st.Resumable node)
    (notIdle : ∀ node ∈ part, (st.tasks node).status ≠ .idle)
    (idle : (st.tasks picked).status = .idle) {st' : Tasking}
    (scanned : Scanned st st' (others ++ [st.currentTask]) (picked :: (rest ++ part),
      visitAll (scanVisitor st.kernelTask) (part ++ [picked]) st.tasks))
    : Switched st others st' := by
  have distinct := h.circle.nodup
  have current : st'.currentTask = picked := scanned.current
  have circle : Circle st' ((rest ++ part) ++ [st'.currentTask]) := by
    rw [current]
    exact scanned.circle.rotate
  have tasks (node : Node) : st'.tasks node
      = visitAll (scanVisitor st.kernelTask) (part ++ [picked]) st.tasks node :=
    congrFun scanned.tasks node
  have running : (st'.tasks st'.currentTask).status = .running := by
    rw [tasks, current]
    simp [visitAll, value_of_idle _ _ idle]
  have passed {node : Node} (member : node ∈ part) : (st'.tasks node).status = .idle := by
    have stays := Task.Resumable.passed st.kernelTask node (resumable node (by simp [same, member]))
      (notIdle node member)
    rw [tasks]
    simpa [visitAll, member] using stays.2.1
  have behind {node : Node} (member : node ∈ rest) : st'.tasks node = st.tasks node := by
    rw [same] at distinct
    have notPart : node ∉ part :=
      fun inside => (List.nodup_append.mp distinct).2.2 node inside node (by simp [member]) rfl
    have notPicked : node ≠ picked := by
      rintro rfl
      exact (List.nodup_cons.mp (List.nodup_append.mp distinct).2.1).1 member
    rw [tasks]
    simp [visitAll, notPart, notPicked]
  refine ⟨⟨rest ++ part, circle, ?_, ?_⟩, running, ?_, scanned.outside⟩
  · rw [current, same, List.append_assoc]
    exact List.perm_append_comm.trans (by simp)
  · intro node member
    rcases List.mem_append.mp member with later | before
    · rw [Tasking.Resumable, behind later]
      exact resumable node (by simp [same, later])
    · exact Or.inl (passed before)
  · rw [circle.oneRunning_iff running]
    constructor
    · intro alone wasRunning node member
      -- the interrupted task stands behind the picked one
      have notPicked : st.currentTask ≠ picked := by
        rintro isPicked
        rw [isPicked, idle] at wasRunning
        contradiction
      have last := last_mem_of_split same notPicked
      have changed := alone st.currentTask (by simp [last])
      rw [behind last] at changed
      exact absurd wasRunning changed
    · intro busy node member again
      rcases List.mem_append.mp member with later | before
      · rw [behind later] at again
        have known : node ∈ others ++ [st.currentTask] := by simp [same, later]
        rcases List.mem_append.mp known with inside | last
        · exact h.waiting node inside again
        · rw [List.mem_singleton.mp last] at again
          have pickedMem : picked ∈ others ++ [st.currentTask] := by simp [same]
          rcases List.mem_append.mp pickedMem with inside | isCurrent
          · exact busy again picked inside idle
          · rw [List.mem_singleton.mp isCurrent, again] at idle
            contradiction
      · rw [passed before] at again
        contradiction

/-- A scan that finds no idle task makes every task idle but the first. -/
theorem Steady.switched_first (h : Steady st others) {first : Node} {part : List Node}
    (same : others ++ [st.currentTask] = first :: part)
    (resumable : ∀ node ∈ others ++ [st.currentTask], st.Resumable node)
    (notIdle : ∀ node ∈ others ++ [st.currentTask], (st.tasks node).status ≠ .idle)
    {st' : Tasking}
    (scanned : Scanned st st' (others ++ [st.currentTask]) (first :: part,
      visitAll (scanVisitor st.kernelTask) [first]
        (visitAll (scanVisitor st.kernelTask) (first :: part) st.tasks)))
    : Switched st others st' := by
  have distinct := h.circle.nodup
  have current : st'.currentTask = first := scanned.current
  have circle : Circle st' (part ++ [st'.currentTask]) := by
    rw [current]
    exact scanned.circle.rotate
  have tasks (node : Node) : st'.tasks node = visitAll (scanVisitor st.kernelTask) [first]
      (visitAll (scanVisitor st.kernelTask) (first :: part) st.tasks) node :=
    congrFun scanned.tasks node
  have passed {node : Node} (member : node ∈ first :: part)
      : (visitAll (scanVisitor st.kernelTask) (first :: part) st.tasks node).status = .idle := by
    rw [← same] at member
    have stays := Task.Resumable.passed st.kernelTask node (resumable node member)
      (notIdle node member)
    rw [same] at member
    rw [visitAll, if_pos member]
    exact stays.2.1
  have running : (st'.tasks st'.currentTask).status = .running := by
    have idle := passed (List.mem_cons_self : first ∈ first :: part)
    rw [tasks, current, visitAll, if_pos (by simp), value_of_idle _ _ idle]
  have idle {node : Node} (member : node ∈ part) : (st'.tasks node).status = .idle := by
    have notFirst : node ≠ first := by
      rintro rfl
      rw [same] at distinct
      exact (List.nodup_cons.mp distinct).1 member
    rw [tasks, visitAll, if_neg (by simpa using notFirst)]
    exact passed (List.mem_cons_of_mem _ member)
  refine ⟨⟨part, circle, ?_, fun node member => Or.inl (idle member)⟩, running, ?_,
    scanned.outside⟩
  · rw [current, same]
    exact List.perm_append_singleton first part
  · rw [circle.oneRunning_iff running]
    refine ⟨fun _ _ node member => notIdle node (by simp [member]), fun _ node member again => ?_⟩
    rw [idle member] at again
    contradiction

/-- The scan of a switch ends, whichever task it finds. -/
theorem Steady.scan (h : Steady st others) (live : st.Resumable st.currentTask)
    : (∀ fuel, others.length + 2 ≤ fuel → ∃ st',
        scanQueue fuel (listPassEntry st st.currentTask .mainQueue) st = some st')
      ∧ ∀ {fuel st'}, scanQueue fuel (listPassEntry st st.currentTask .mainQueue) st = some st'
        → Switched st others st' := by
  have distinct := h.circle.nodup
  have resumable : ∀ node ∈ others ++ [st.currentTask], st.Resumable node := by
    intro node member
    rcases List.mem_append.mp member with inside | last
    · exact h.resumable node inside
    · rw [List.mem_singleton.mp last]
      exact live
  rcases first_or_none (fun node => (st.tasks node).status = .idle) (others ++ [st.currentTask])
    with ⟨part, picked, rest, same, notIdle, idle⟩ | notIdle
  · have found := rounds_first_idle st.kernelTask (same ▸ distinct)
      (fun node member => resumable node (by simp [same, member])) notIdle idle
    rw [← same] at found
    obtain ⟨ends, scanned⟩ := h.circle.scan h.circle.entry found
    refine ⟨fun fuel enough => ends fuel ?_, fun run => ?_⟩
    · have length := congrArg List.length same
      simp only [List.length_append, List.length_cons, List.length_nil] at length
      omega
    · exact h.switched_idle same resumable notIdle idle (scanned run)
  · obtain ⟨first, part, same⟩ := List.exists_cons_of_ne_nil
      (by simp : others ++ [st.currentTask] ≠ [])
    have found := rounds_no_idle st.kernelTask (same ▸ distinct) (same ▸ resumable)
      (same ▸ notIdle)
    rw [← same] at found
    obtain ⟨ends, scanned⟩ := h.circle.scan h.circle.entry found
    refine ⟨fun fuel enough => ends fuel ?_, fun run => ?_⟩
    · have length := congrArg List.length same
      simp only [List.length_append, List.length_cons, List.length_nil] at length ⊢
      omega
    · have last := scanned run
      rw [same] at last
      refine h.switched_first same resumable notIdle ?_
      rw [same]
      exact last

end Switch

-----------------------------------------------------------------------------------------
-- Runs
-----------------------------------------------------------------------------------------

/-- A new task is made and started, a task is started again, the timer ticks, or the current
task yields.
-/
inductive SchedEvent where
  | start (block : Nat) (task : Task)
  | again (node : Node)
  | tick (regs : CPURegisters)
  | yield (env : CallEnv) (regs : CPURegisters)

def SchedEvent.step (fuel : Nat) (st : Tasking) : SchedEvent → Option Tasking
  | .start block task => some (runTask (.task block) (allocTask block task st)).2
  | .again node => some (runTask node st).2
  | .tick regs => (timerCallback fuel regs st).map Prod.snd
  | .yield env regs => (DeadKernel.yield { env with fuel } regs st).map Prod.snd

def SchedEvent.Switches : SchedEvent → Prop
  | .tick _ | .yield _ _ => True
  | .start _ _ | .again _ => False

/-- New tasks get blocks of their own, and no task ends. -/
def SchedEvent.Proper (st : Tasking) : SchedEvent → Prop
  | .start block _ => 0 < block ∧ block < 4294967296 ∧ ¬ st.LinkedIn .mainQueue (.task block)
  | .again node => st.LinkedIn .mainQueue node
  | .tick regs | .yield _ regs => regs.ecx ≠ exitMark

/-- A tick finds no idle task in the run queue when it interrupts a running one. -/
def SchedEvent.NoneIdle (st : Tasking) : SchedEvent → Prop
  | .tick _ => (st.tasks st.currentTask).status = .running
      → ∀ node, st.LinkedIn .mainQueue node → (st.tasks node).status ≠ .idle
  | .start _ _ | .again _ | .yield _ _ => True

/-- Runs from `initTasking` on, of proper events that meet a condition. -/
inductive SchedRun (ok : Tasking → SchedEvent → Prop) (block : Nat) (kernel : Task)
    : Tasking → Prop where
  | init : SchedRun ok block kernel (initTasking block kernel .zero)
  | step {st st' : Tasking} (run : SchedRun ok block kernel st) (event : SchedEvent)
      (proper : event.Proper st) (holds : ok st event) (fuel : Nat)
      (done : event.step fuel st = some st')
      : SchedRun ok block kernel st'

/-- Tasks are live blocks of their own, and no more of them than words. -/
structure SchedOk (st : Tasking) (others : List Node) : Prop extends Steady st others where
  semaphores : Queue st .semaphoreQueue []
  placed : ∀ node ∈ others ++ [st.currentTask],
    ∃ block, node = .task block ∧ 0 < block ∧ block < 4294967296
  started : 0 < st.nextPID
  counted : st.nextPID ≤ (others ++ [st.currentTask]).length

/-- Distinct blocks below a bound are fewer than the bound. -/
theorem length_lt_of_placed {nodes : List Node} {bound : Nat} (distinct : nodes.Nodup)
    (positive : 0 < bound)
    (placed : ∀ node ∈ nodes, ∃ block, node = .task block ∧ 0 < block ∧ block < bound)
    : nodes.length < bound := by
  let address : Node → Nat := fun node => match node with
    | .task block => block
    | _ => 0
  have apart : (0 :: nodes.map address).Nodup := by
    refine List.nodup_cons.mpr ⟨?_, (List.nodup_map_iff_inj_on distinct).mpr ?_⟩
    · rw [List.mem_map]
      rintro ⟨node, member, zero⟩
      obtain ⟨block, rfl, above, -⟩ := placed node member
      exact absurd zero (Nat.pos_iff_ne_zero.mp above)
    · intro node member other member' same
      obtain ⟨block, rfl, -⟩ := placed node member
      obtain ⟨block', rfl, -⟩ := placed other member'
      exact congrArg Node.task same
  have within : 0 :: nodes.map address ⊆ List.range bound := by
    intro value member
    rcases List.mem_cons.mp member with rfl | inside
    · exact List.mem_range.mpr positive
    · obtain ⟨node, known, rfl⟩ := List.mem_map.mp inside
      obtain ⟨block, rfl, -, below⟩ := placed node known
      exact List.mem_range.mpr below
  have length := (List.subperm_of_subset apart within).length_le
  simpa [Nat.succ_le_iff] using length

section Steps

variable {st st' : Tasking} {others : List Node}

/-- No semaphore means nothing to wake. -/
theorem semctlProcess_none (h : Queue st .semaphoreQueue []) (fuel : Nat)
    : semctlProcess (fuel + 1) st = some st := by
  have self : st.next .semaphoreQueue = .semaphoreQueue := h.ring.next_head
  rw [semctlProcess, self, processFrom, if_pos rfl]
  exact ite_self _

theorem oneRunning_resumed (last : Tasking) : OneRunning last.resumed.2 ↔ OneRunning last := by
  constructor
  · rintro ⟨nodes, queue, current, only⟩
    exact ⟨nodes, queue.congr (fun _ _ => rfl), current, only⟩
  · rintro ⟨nodes, queue, current, only⟩
    exact ⟨nodes, queue.congr (fun _ _ => rfl), current, only⟩

/-- Without semaphores a switch is a scan. -/
theorem switchTask_none {fuel : Nat} {regs : CPURegisters} (ready : 0 < st.nextPID)
    (none : Queue st .semaphoreQueue [])
    : switchTask fuel regs st
      = (scanQueue fuel (listPassEntry (st.saved regs) st.currentTask .mainQueue)
          (st.saved regs)).map Tasking.resumed := by
  have tasking : isTaskingInit st = true := decide_eq_true (Nat.pos_iff_ne_zero.mp ready)
  rw [switchTask_eq tasking]
  cases fuel with
  | zero =>
      have stuck : semctlProcess 0 (st.saved regs) = Option.none
          ∨ semctlProcess 0 (st.saved regs) = some (st.saved regs) := by
        rw [semctlProcess]
        split
        · exact Or.inl rfl
        · exact Or.inr rfl
      rcases stuck with same | same
      · rw [same]
        rfl
      · rw [same]
        rfl
  | succ fuel =>
      have none' : Queue (st.saved regs) .semaphoreQueue [] := none.congr (fun _ _ => rfl)
      rw [semctlProcess_none none' fuel]
      rfl

theorem Steady.other (h : Steady st others) {node : Node} (member : node ∈ others) (task : Task)
    : (st.setTask st.currentTask task).tasks node = st.tasks node := by
  refine Function.update_of_ne ?_ _ _
  rintro rfl
  exact (List.nodup_append.mp h.circle.nodup).2.2 _ member _ (by simp) rfl

/-- Rewriting the current task leaves the other tasks of the circle alone. -/
theorem Steady.setCurrent (h : Steady st others) {task : Task} (active : task.status.Active)
    : Steady (st.setTask st.currentTask task) others := by
  refine ⟨h.circle.congr (fun _ _ => rfl), ?_, fun node member => ?_, fun node member => ?_⟩
  · change ((st.setTask st.currentTask task).tasks st.currentTask).status.Active
    rwa [Tasking.tasks_setTask]
  · rw [Tasking.Resumable, h.other member]
    exact h.resumable node member
  · rw [h.other member]
    exact h.waiting node member

theorem SchedOk.setCurrent (h : SchedOk st others) {task : Task} (active : task.status.Active)
    : SchedOk (st.setTask st.currentTask task) others :=
  ⟨h.toSteady.setCurrent active, h.semaphores.congr (fun _ _ => rfl), h.placed, h.started,
    h.counted⟩

/-- The state behind a switch that left one task running. -/
theorem SchedOk.of_switched (h : SchedOk st others) {last : Tasking}
    (switched : Switched st others last) (one : OneRunning last)
    : ∃ others', SchedOk last others' := by
  obtain ⟨others', circle, perm, resumable⟩ := switched.picked
  have waiting := (circle.oneRunning_iff switched.running).mp one
  have outside : ∀ node ∈ Node.semaphoreQueue :: [], last.links node = st.links node := by
    intro node member
    refine switched.outside.links node ?_
    rw [List.mem_singleton.mp member]
    intro inside
    rcases List.mem_cons.mp inside with same | task
    · exact Node.noConfusion same
    · obtain ⟨block, same, -⟩ := h.placed _ task
      exact Node.noConfusion same
  refine ⟨others', ⟨⟨circle, Or.inr (Or.inl switched.running), resumable, waiting⟩,
    h.semaphores.congr outside, fun node member => h.placed node (perm.mem_iff.mp member), ?_, ?_⟩⟩
  · rw [switched.outside.nextPID]
    exact h.started
  · rw [switched.outside.nextPID, perm.length_eq]
    exact h.counted

/-- A switch out of a live task ends; it leaves one running task exactly if the interrupted task
was not running while another was idle.
-/
theorem SchedOk.switchTask (h : SchedOk st others) {regs : CPURegisters}
    (live : regs.ecx ≠ exitMark)
    : (∀ fuel, others.length + 2 ≤ fuel → ∃ r, switchTask fuel regs st = some r)
      ∧ ∀ {fuel r}, DeadKernel.switchTask fuel regs st = some r
        → (OneRunning r.2 ↔ ((st.tasks st.currentTask).status = .running
            → ∀ node ∈ others, (st.tasks node).status ≠ .idle))
          ∧ (OneRunning r.2 → ∃ others', SchedOk r.2 others') := by
  have saved : SchedOk (st.saved regs) others := h.setCurrent h.current
  have own : ((st.saved regs).tasks st.currentTask) = { st.tasks st.currentTask with regs } :=
    Tasking.tasks_setTask _ _ _
  have resumable : (st.saved regs).Resumable st.currentTask := by
    rw [Tasking.Resumable, own]
    rcases h.current with idle | running | yield
    · exact Or.inl idle
    · exact Or.inr ⟨Or.inl running, live⟩
    · exact Or.inr ⟨Or.inr yield, live⟩
  obtain ⟨ends, switched⟩ := saved.toSteady.scan resumable
  refine ⟨fun fuel enough => ?_, fun {fuel r} run => ?_⟩
  · obtain ⟨last, scanned⟩ := ends fuel enough
    rw [switchTask_none h.started h.semaphores]
    exact ⟨last.resumed, congrArg (Option.map Tasking.resumed) scanned⟩
  · rw [switchTask_none h.started h.semaphores] at run
    obtain ⟨last, scan, rfl⟩ := Option.map_eq_some_iff.mp run
    have result := switched scan
    refine ⟨?_, fun one => ?_⟩
    · rw [oneRunning_resumed, result.alone]
      have status : ((st.saved regs).tasks (st.saved regs).currentTask).status
          = (st.tasks st.currentTask).status := congrArg (fun task => task.status) own
      have others_eq : (∀ node ∈ others, ((st.saved regs).tasks node).status ≠ .idle)
          ↔ ∀ node ∈ others, (st.tasks node).status ≠ .idle := by
        refine forall₂_congr (fun node member => ?_)
        rw [Tasking.saved, h.toSteady.other member]
      rw [status, others_eq]
    · obtain ⟨others', ok⟩ := saved.of_switched result ((oneRunning_resumed last).mp one)
      exact ⟨others', ⟨⟨ok.circle.congr (fun _ _ => rfl), ok.current, ok.resumable, ok.waiting⟩,
        ok.semaphores.congr (fun _ _ => rfl), ok.placed, ok.started, ok.counted⟩⟩

/-- A new task at `block` has joined the circle of `st` and waits. -/
structure Joined (st : Tasking) (others : List Node) (block : Nat) (next : Tasking)
    (others' : List Node) : Prop where
  circle : Circle next (others' ++ [st.currentTask])
  perm : (others' ++ [st.currentTask]).Perm (.task block :: (others ++ [st.currentTask]))
  currentTask : next.currentTask = st.currentTask
  own : (next.tasks (.task block)).status = .idle
  tasks : ∀ node ≠ .task block, next.tasks node = st.tasks node
  links : next.links .semaphoreQueue = st.links .semaphoreQueue
  nextPID : next.nextPID = st.nextPID ∨ next.nextPID = (st.nextPID + 1) % 4294967296

theorem allocTask_links {block : Nat} {task : Task} {node : Node} (apart : node ≠ .task block)
    : (allocTask block task st).links node = st.links node :=
  Function.update_of_ne apart _ _

/-- `allocTask` links the task to nothing yet. -/
theorem SchedOk.allocTask (h : SchedOk st others) {block : Nat}
    (fresh : Node.task block ∉ others ++ [st.currentTask]) (task : Task)
    : Circle (allocTask block task st) (others ++ [st.currentTask]) := by
  refine h.circle.congr (fun node member => allocTask_links ?_)
  rcases List.mem_cons.mp member with rfl | inside
  · exact Node.noConfusion
  · exact fun same => fresh (same ▸ inside)

/-- `runTask` puts a new task into the circle. -/
theorem SchedOk.join (h : SchedOk st others) {block : Nat}
    (fresh : Node.task block ∉ others ++ [st.currentTask]) (task : Task)
    : ∃ others', Joined st others block (runTask (.task block) (DeadKernel.allocTask block task st)).2
        others' := by
  have notNull : st.currentTask ≠ .null := by
    obtain ⟨address, same, -⟩ := h.placed st.currentTask (by simp)
    rw [same]
    exact Node.noConfusion
  have created : ((DeadKernel.allocTask block task st).tasks (.task block)).status = .created :=
    congrArg Task.status (Tasking.tasks_setTask _ _ _)
  obtain ⟨order, circle, perm, links⟩ :=
    (h.allocTask fresh task).addTail Node.noConfusion fresh
  rw [runTask_new created,
    if_neg (show (DeadKernel.allocTask block task st).currentTask ≠ .null from notNull)]
  obtain ⟨others', last, perm'⟩ := circle.last (perm.mem_iff.mpr (by simp) : st.currentTask ∈ order)
  refine ⟨others', ?_⟩
  exact {
    circle := last.congr (fun _ _ => rfl)
    perm := perm'.trans perm
    currentTask := rfl
    own := congrArg Task.status (Tasking.tasks_setTask _ _ _)
    tasks := fun node apart =>
      (Function.update_of_ne apart _ _).trans (Function.update_of_ne apart _ _)
    links := by
      refine (links _ (fun inside => ?_)).trans (allocTask_links Node.noConfusion)
      rcases List.mem_cons.mp inside with same | inside
      · exact Node.noConfusion same
      · rcases List.mem_cons.mp inside with same | inside
        · exact Node.noConfusion same
        · obtain ⟨address, same, -⟩ := h.placed _ inside
          exact Node.noConfusion same
    nextPID := by
      change (if _ then _ else _) = _ ∨ (if _ then _ else _) = _
      split
      · exact Or.inr rfl
      · exact Or.inl rfl
  }

section Joined

variable {block : Nat} {next : Tasking} {others' : List Node}

/-- Behind the current task stand the new one and those from before. -/
theorem Joined.cases (h : Joined st others block next others')
    (fresh : Node.task block ∉ others ++ [st.currentTask]) {node : Node} (member : node ∈ others')
    : node = .task block ∨ node ∈ others ∧ node ≠ .task block := by
  have notCurrent : node ≠ st.currentTask := by
    rintro rfl
    exact (List.nodup_append.mp h.circle.nodup).2.2 _ member _ (by simp) rfl
  rcases List.mem_cons.mp (h.perm.mem_iff.mp (List.mem_append_left _ member)) with isNew | inside
  · exact Or.inl isNew
  · exact Or.inr ⟨(List.mem_append.mp inside).resolve_right (by simpa using notCurrent),
      fun same => fresh (same ▸ inside)⟩

/-- With the new task the circle is as it should be. -/
theorem Joined.schedOk (h : Joined st others block next others') (ok : SchedOk st others)
    (positive : 0 < block) (below : block < 4294967296)
    (fresh : Node.task block ∉ others ++ [st.currentTask])
    : SchedOk next others' := by
  have current : st.currentTask ≠ .task block := fun same => fresh (by simp [same])
  have placed : ∀ node ∈ others' ++ [st.currentTask],
      ∃ block, node = .task block ∧ 0 < block ∧ block < 4294967296 := by
    intro node member
    rcases List.mem_cons.mp (h.perm.mem_iff.mp member) with rfl | inside
    · exact ⟨block, rfl, positive, below⟩
    · exact ok.placed node inside
  have small := length_lt_of_placed h.circle.nodup (by decide) placed
  have longer : (others' ++ [st.currentTask]).length
      = (others ++ [st.currentTask]).length + 1 := by
    rw [h.perm.length_eq, List.length_cons]
  have started := ok.started
  have counted := ok.counted
  exact {
    circle := h.currentTask ▸ h.circle
    current := by
      rw [h.currentTask, h.tasks _ current]
      exact ok.current
    resumable := by
      intro node member
      rcases h.cases fresh member with rfl | ⟨inside, apart⟩
      · exact Or.inl h.own
      · rw [Tasking.Resumable, h.tasks node apart]
        exact ok.resumable node inside
    waiting := by
      intro node member
      rcases h.cases fresh member with rfl | ⟨inside, apart⟩
      · rw [h.own]
        decide
      · rw [h.tasks node apart]
        exact ok.waiting node inside
    semaphores := ok.semaphores.congr (fun node member => by
      rw [List.mem_singleton.mp member]
      exact h.links)
    placed := h.currentTask ▸ placed
    started := by
      rcases h.nextPID with same | later
      · omega
      · omega
    counted := by
      rw [h.currentTask]
      rcases h.nextPID with same | later
      · omega
      · omega
  }

end Joined

/-- A new task joins the circle and waits. -/
theorem SchedOk.start (h : SchedOk st others) {block : Nat} (positive : 0 < block)
    (below : block < 4294967296) (fresh : Node.task block ∉ others ++ [st.currentTask])
    (task : Task)
    : ∃ others', SchedOk (runTask (.task block) (DeadKernel.allocTask block task st)).2 others' := by
  obtain ⟨others', joined⟩ := h.join fresh task
  exact ⟨others', joined.schedOk h positive below fresh⟩

theorem SchedOk.again (h : SchedOk st others) {node : Node}
    (linked : st.LinkedIn .mainQueue node)
    : (runTask node st).2 = st := by
  have known : (st.tasks node).status ≠ .created := by
    intro created
    rcases List.mem_append.mp (h.circle.mem_of_linkedIn linked) with inside | last
    · have live := h.resumable node inside
      simp [Tasking.Resumable, created] at live
    · have active := h.current
      rw [← List.mem_singleton.mp last, created] at active
      simp [Status.Active] at active
  rw [runTask, if_pos (Or.inl known)]

/-- Whether the interrupted task was running while another was idle, over the circle. -/
theorem SchedOk.noneIdle_iff (h : SchedOk st others) (regs : CPURegisters)
    : (SchedEvent.tick regs).NoneIdle st ↔ ((st.tasks st.currentTask).status = .running
        → ∀ node ∈ others, (st.tasks node).status ≠ .idle) := by
  refine imp_congr_right (fun running => ⟨fun none node member => ?_, fun none node linked => ?_⟩)
  · exact none node (h.circle.linkedIn_of_mem (by simp [member]))
  · rcases List.mem_append.mp (h.circle.mem_of_linkedIn linked) with inside | last
    · exact none node inside
    · rw [List.mem_singleton.mp last, running]
      decide

/-- A switching event ends; it leaves one running task exactly if its condition holds. -/
theorem SchedOk.switches (h : SchedOk st others) {event : SchedEvent}
    (proper : event.Proper st) (switching : event.Switches)
    : (∀ fuel, others.length + 2 ≤ fuel → ∃ st', event.step fuel st = some st')
      ∧ ∀ {fuel st'}, event.step fuel st = some st'
        → (OneRunning st' ↔ event.NoneIdle st) ∧ (OneRunning st' → ∃ others', SchedOk st' others')
    := by
  cases event with
  | start block task => exact switching.elim
  | again node => exact switching.elim
  | tick regs =>
      obtain ⟨ends, switched⟩ := h.switchTask proper
      refine ⟨fun fuel enough => ?_, fun {fuel st'} done => ?_⟩
      · obtain ⟨r, run⟩ := ends fuel enough
        exact ⟨r.2, by simp only [SchedEvent.step, timerCallback, run, Option.map_some]⟩
      · obtain ⟨r, run, rfl⟩ := Option.map_eq_some_iff.mp done
        obtain ⟨alone, ok⟩ := switched run
        exact ⟨alone.trans (h.noneIdle_iff regs).symm, ok⟩
  | yield env regs =>
      let task := { st.tasks st.currentTask with status := .yield }
      have yielding : SchedOk (st.setTask st.currentTask task) others :=
        h.setCurrent (Or.inr (Or.inr rfl))
      have tasking : isTaskingInit st = true :=
        decide_eq_true (Nat.pos_iff_ne_zero.mp h.started)
      have step (fuel : Nat) : (SchedEvent.yield env regs).step fuel st
          = (DeadKernel.switchTask fuel regs (st.setTask st.currentTask task)).map Prod.snd := by
        rw [SchedEvent.step, DeadKernel.yield, if_neg (not_not.mpr tasking)]
      have status : (st.setTask st.currentTask task).tasks st.currentTask = task :=
        Tasking.tasks_setTask _ _ _
      obtain ⟨ends, switched⟩ := yielding.switchTask proper
      refine ⟨fun fuel enough => ?_, fun {fuel st'} done => ?_⟩
      · obtain ⟨r, run⟩ := ends fuel enough
        rw [step, run]
        exact ⟨r.2, rfl⟩
      · rw [step] at done
        obtain ⟨r, run, rfl⟩ := Option.map_eq_some_iff.mp done
        obtain ⟨alone, ok⟩ := switched run
        refine ⟨alone.trans (iff_of_true (fun running => ?_) trivial), ok⟩
        have yields : Status.yield = .running :=
          (congrArg (fun now => now.status) status).symm.trans running
        contradiction

/-- What one proper event that meets the condition preserves. -/
theorem SchedOk.event (h : SchedOk st others) {event : SchedEvent} (proper : event.Proper st)
    (holds : event.NoneIdle st) {fuel : Nat} (done : event.step fuel st = some st')
    : ∃ others', SchedOk st' others' := by
  cases event with
  | start block task =>
      obtain ⟨positive, below, unlinked⟩ := proper
      obtain rfl := Option.some.inj done
      exact h.start positive below (fun member => unlinked (h.circle.linkedIn_of_mem member)) task
  | again node =>
      obtain rfl := Option.some.inj done
      rw [h.again proper]
      exact ⟨others, h⟩
  | tick regs =>
      obtain ⟨alone, ok⟩ := (h.switches proper trivial).2 done
      exact ok (alone.mpr holds)
  | yield env regs =>
      obtain ⟨alone, ok⟩ := (h.switches proper trivial).2 done
      exact ok (alone.mpr holds)

end Steps

theorem initTasking_schedOk {block : Nat} (positive : 0 < block) (below : block < 4294967296)
    (kernel : Task)
    : SchedOk (initTasking block kernel .zero) [] := by
  have booted := initTasking_booted block kernel
  have current := booted.currentTask
  refine ⟨⟨?_, ?_, by simp, by simp⟩, booted.semaphores, ?_, ?_, ?_⟩
  · rw [current]
    exact ⟨[.task block], [], rfl, by simpa using booted.queue⟩
  · rw [current, booted.idle]
    exact Or.inl rfl
  · intro node member
    rw [List.nil_append, current] at member
    exact ⟨block, List.mem_singleton.mp member, positive, below⟩
  · rw [booted.nextPID]
    decide
  · rw [booted.nextPID]
    exact le_of_eq rfl

theorem SchedRun.ok {block : Nat} (positive : 0 < block) (below : block < 4294967296)
    {kernel : Task} {st : Tasking}
    (run : SchedRun (fun st event => event.NoneIdle st) block kernel st)
    : ∃ others, SchedOk st others := by
  induction run with
  | init => exact ⟨[], initTasking_schedOk positive below kernel⟩
  | step _ event proper holds fuel done ih =>
      obtain ⟨others, ok⟩ := ih
      exact ok.event proper holds done

/-- In every run from `initTasking` on in which no tick interrupts a running task while another is
idle, the next tick or yield ends, and it leaves exactly one running task, the current one, if
and only if it meets that condition too.
-/
theorem switch_oneRunning_iff {block : Nat} (positive : 0 < block) (below : block < 4294967296)
    {kernel : Task} {st : Tasking}
    (run : SchedRun (fun st event => event.NoneIdle st) block kernel st) {event : SchedEvent}
    (proper : event.Proper st) (switching : event.Switches)
    : (∃ enough, ∀ fuel, enough ≤ fuel → ∃ st', event.step fuel st = some st')
      ∧ ∀ fuel st', event.step fuel st = some st' → (OneRunning st' ↔ event.NoneIdle st) := by
  obtain ⟨others, ok⟩ := run.ok positive below
  obtain ⟨ends, switched⟩ := ok.switches proper switching
  exact ⟨⟨others.length + 2, ends⟩, fun _ _ done => (switched done).1⟩

-----------------------------------------------------------------------------------------
-- Two tasks
-----------------------------------------------------------------------------------------

/-- The kernel task is task 1; task 2 has just been started. -/
def secondStarted : Tasking :=
  (runTask (.task 2) (allocTask 2 .zero (initTasking 1 .zero .zero))).2

theorem secondStarted_run {ok : Tasking → SchedEvent → Prop}
    (holds : ok (initTasking 1 .zero .zero) (.start 2 .zero))
    : SchedRun ok 1 .zero secondStarted := by
  have booted := initTasking_booted 1 .zero
  have unlinked : ¬ (initTasking 1 .zero .zero).LinkedIn .mainQueue (.task 2) := by
    rintro ⟨nodes, queue, member⟩
    rw [queue.unique booted.queue] at member
    simp at member
  exact .step .init (.start 2 .zero) ⟨by decide, by decide, unlinked⟩ holds 0 rfl

/-- The first tick starts task 2, and it alone. -/
theorem switch_oneRunning_first
    : ∃ st, (SchedEvent.tick .zero).step 4 secondStarted = some st ∧ OneRunning st := by
  let tick : SchedEvent := .tick .zero
  have live : CPURegisters.zero.ecx ≠ exitMark := by decide
  have proper : tick.Proper secondStarted := live
  have idle : (secondStarted.tasks secondStarted.currentTask).status = .idle := rfl
  have none : tick.NoneIdle secondStarted := by
    intro running
    rw [idle] at running
    contradiction
  obtain ⟨-, switched⟩ := switch_oneRunning_iff (by decide) (by decide)
    (secondStarted_run trivial) proper trivial
  exact ⟨_, rfl, (switched 4 _ rfl).mpr none⟩

/-- The second tick starts the kernel task too, and leaves task 2 marked as running. -/
theorem ticks_two_running
    : ∃ first second, (SchedEvent.tick .zero).step 4 secondStarted = some first
        ∧ (SchedEvent.tick .zero).step 4 first = some second
        ∧ SchedRun (fun _ _ => True) 1 .zero second ∧ ¬ OneRunning second := by
  have live : CPURegisters.zero.ecx ≠ exitMark := by decide
  refine ⟨_, _, rfl, rfl, ?_, ?_⟩
  · exact .step (.step (secondStarted_run trivial) (.tick .zero) live trivial 4 rfl)
      (.tick .zero) live trivial 4 rfl
  · rintro ⟨nodes, queue, current, only⟩
    have kernel := queue.next_head_mem (List.ne_nil_of_mem current)
    have second : Node.task 2 ∈ nodes :=
      (queue.next_mem kernel).resolve_right Node.noConfusion
    have same : Node.task 2 = .task 1 := (only (.task 2) second).mp rfl
    contradiction

end DeadKernel
