import DeadKernel.Multitasking.CurrentTask
import DeadKernel.Multitasking.SemaphoreConservation

/-! Whether the tasks that wait for a semaphore are woken in the order of their arrival. A task
that waits goes to the front of the semaphore's queue, and `semctl_process` takes from the front.
-/

namespace DeadKernel

-----------------------------------------------------------------------------------------
-- Arrivals
-----------------------------------------------------------------------------------------

/-- Waking `task` in its turn: it is the first of those who wait. -/
def serveFirst (task : Node) : List Node → Option (List Node)
  | [] => none
  | first :: rest => if first = task then some rest else none

/-- Who waits for `semaphore` after the line is printed, or `none` if the line wakes a task out
of turn.
-/
def SemaphoreLine.turn (semaphore : Node) (line : SemaphoreLine) (pending : List Node)
    : Option (List Node) :=
  match line with
  | .moving s task => some (if s = semaphore then pending ++ [task] else pending)
  | .restore s task => if s = semaphore then serveFirst task pending else some pending
  | .signal _ _ | .passing _ _ => some pending

/-- Who waits for `semaphore` by the lines printed so far, in the order of their arrival; `none`
once a task was woken before one that came earlier.
-/
def arrivals (semaphore : Node) : List SemaphoreLine → Option (List Node)
  | [] => some []
  | line :: earlier => (arrivals semaphore earlier).bind (line.turn semaphore)

/-- Waking tasks one after the other. -/
def serveAll (woken : List Node) (pending : Option (List Node)) : Option (List Node) :=
  woken.foldl (fun pending task => pending.bind (serveFirst task)) pending

/-- Every semaphore with a free unit has one waiter at most. -/
def ServesOne (st : Tasking) : Prop :=
  ∀ semaphore, st.LinkedIn .semaphoreQueue semaphore
    → 0 < (st.semaphores semaphore).count.toInt
    → st.next semaphore.queue = st.prev semaphore.queue

-----------------------------------------------------------------------------------------
-- Waking
-----------------------------------------------------------------------------------------

section Waking

variable {st st' : Tasking} {nodes sems : List Node} {waiting : Node → List Node}
  {semaphore : Node}

/-- The last node of a queue is in front of its head. -/
theorem Queue.prev_head {head : Node} (h : Queue st head nodes)
    : st.prev head = (head :: nodes).getLast (List.cons_ne_nil head nodes) := by
  have gap : Rings.Ring queueLinks st.links head (nodes ++ []) := by
    rw [List.append_nil]
    exact h.ring
  obtain ⟨start, left, right, rest, front_eq, back_eq, -, prev_eq, -⟩ := gap.at_gap
  obtain ⟨rfl, -⟩ := List.cons.inj back_eq
  simp only [front_eq, List.getLast_append_singleton]
  exact prev_eq

theorem Queue.next_eq_prev_iff {head : Node} (h : Queue st head nodes)
    : st.next head = st.prev head ↔ nodes.length ≤ 1 := by
  have next := h.ring.next_head
  rw [Tasking.next, next, h.prev_head]
  cases nodes with
  | nil => simp
  | cons first others =>
      cases others with
      | nil => simp
      | cons second rest =>
          have distinct := (List.nodup_cons.mp (List.nodup_cons.mp h.distinct).2).1
          refine iff_of_false (fun same => distinct ?_) (by simp)
          simp only [List.cons_append, List.head_cons, List.getLast_cons_cons] at same
          rw [same]
          exact List.getLast_mem (List.cons_ne_nil second rest)

/-- A line about another semaphore. -/
theorem turn_restore_other {other task : Node} (differs : other ≠ semaphore)
    (pending : Option (List Node))
    : pending.bind ((SemaphoreLine.restore other task).turn semaphore) = pending := by
  cases pending with
  | none => rfl
  | some pending => simp only [Option.bind_some, SemaphoreLine.turn, if_neg differs]

theorem turn_restore_self (task : Node) (pending : Option (List Node))
    : pending.bind ((SemaphoreLine.restore semaphore task).turn semaphore)
      = serveAll [task] pending := by
  cases pending with
  | none => rfl
  | some pending =>
      simp only [Option.bind_some, SemaphoreLine.turn, if_true, serveAll, List.foldl_cons,
        List.foldl_nil]

/-- What one round of `semctl_process` prints about a semaphore. -/
theorem Queues.wakeFirst_arrivals (h : Queues st nodes sems waiting) (member : semaphore ∈ sems)
    (other : Node)
    : arrivals other (DeadKernel.wakeFirst semaphore st).serial
      = if other = semaphore then
          serveAll (wokenBy st waiting semaphore) (arrivals other st.serial)
        else arrivals other st.serial := by
  have queue := h.waiters semaphore member
  rw [DeadKernel.wakeFirst, wokenBy]
  by_cases unit : 0 < (st.semaphores semaphore).count.toInt
  · cases blocked : waiting semaphore with
    | nil =>
        have empty := queue.queueEmpty_iff.mpr blocked
        rw [if_neg (by simp [empty]), if_pos unit]
        split <;> rfl
    | cons task rest =>
        obtain ⟨some, next⟩ := h.first_waiter member blocked
        rw [if_pos ⟨unit, some⟩, if_pos unit, next]
        change (arrivals other st.serial).bind
          ((SemaphoreLine.restore semaphore task).turn other) = _
        split
        · rename_i same
          rw [same, turn_restore_self]
          rfl
        · rename_i differs
          exact turn_restore_other (Ne.symm differs) _
  · rw [if_neg (fun both => unit both.1), if_neg unit]
    split <;> rfl

/-- What `semctl_process` prints, by induction over the semaphores that are left. -/
theorem Queues.processFrom_arrivals {done rest : List Node} (h : Queues st nodes sems waiting)
    (split : sems = done ++ rest) {fuel : Nat}
    (run : DeadKernel.processFrom fuel (rest.headD .semaphoreQueue) st = some st') (other : Node)
    : arrivals other st'.serial
      = if other ∈ rest then serveAll (wokenBy st waiting other) (arrivals other st.serial)
        else arrivals other st.serial := by
  induction rest generalizing st nodes waiting done fuel with
  | nil =>
      cases fuel with
      | zero => contradiction
      | succ fuel =>
          rw [List.headD_nil, DeadKernel.processFrom, if_pos rfl] at run
          obtain rfl := Option.some.inj run
          rw [if_neg List.not_mem_nil]
  | cons semaphore rest ih =>
      have member : semaphore ∈ sems := by simp [split]
      have fresh : semaphore ∉ rest := by
        have distinct := (List.nodup_cons.mp h.semaphores.distinct).2
        rw [split] at distinct
        exact (List.nodup_cons.mp (List.nodup_append.mp distinct).2.1).1
      obtain ⟨woken, -, others⟩ := h.wakeFirst member
      obtain ⟨fuel, run⟩ := h.round split run
      have later := ih woken (by rw [split]; simp : sems = (done ++ [semaphore]) ++ rest) run
      rw [later, h.wakeFirst_arrivals member]
      by_cases same : other = semaphore
      · subst same
        rw [if_neg fresh, if_pos rfl, if_pos List.mem_cons_self]
      · by_cases inside : other ∈ rest
        · rw [if_pos inside, if_neg same, if_pos (List.mem_cons_of_mem _ inside), wokenBy,
            wokenBy, others other same, Function.update_of_ne same]
        · rw [if_neg inside, if_neg same, if_neg (by simp [same, inside])]

/-- The front of the queue is the last who came, so that its turn comes only when it is alone. -/
theorem serveAll_woken (distinct : (waiting semaphore).Nodup)
    : serveAll (wokenBy st waiting semaphore) (some (waiting semaphore).reverse)
      = if 0 < (st.semaphores semaphore).count.toInt ∧ 1 < (waiting semaphore).length then none
        else some (stillWaiting st waiting semaphore).reverse := by
  rw [wokenBy, stillWaiting]
  by_cases unit : 0 < (st.semaphores semaphore).count.toInt
  · simp only [unit, true_and]
    cases blocked : waiting semaphore with
    | nil => rfl
    | cons task others =>
        cases others with
        | nil => simp [serveAll, serveFirst]
        | cons second rest =>
            rw [blocked] at distinct
            obtain ⟨last, rest', reversed⟩ := List.exists_cons_of_ne_nil
              (List.reverse_ne_nil_iff.mpr (List.cons_ne_nil second rest))
            have other : last ≠ task := by
              rintro rfl
              have inside : last ∈ (second :: rest).reverse := reversed ▸ List.mem_cons_self
              exact (List.nodup_cons.mp distinct).1 (List.mem_reverse.mp inside)
            rw [List.reverse_cons, reversed]
            simp [serveAll, serveFirst, other]
  · simp only [unit, false_and, if_false]
    rfl

theorem Queues.servesOne_iff (h : Queues st nodes sems waiting)
    : ServesOne st ↔ ∀ semaphore ∈ sems, 0 < (st.semaphores semaphore).count.toInt
        → (waiting semaphore).length ≤ 1 := by
  refine forall_congr' (fun semaphore => ?_)
  rw [h.semaphores.linkedIn_iff]
  refine forall_congr' (fun member => imp_congr_right (fun _ => ?_))
  exact (h.waiters semaphore member).next_eq_prev_iff

end Waking

-----------------------------------------------------------------------------------------
-- The invariant
-----------------------------------------------------------------------------------------

/-- Who waits is who came and was not woken, the last one in front. -/
structure Served (st : Tasking) (sems : List Node) (waiting : Node → List Node) : Prop where
  known : ∀ semaphore ∈ sems, arrivals semaphore st.serial = some (waiting semaphore).reverse
  gone : ∀ semaphore, semaphore ∉ sems → arrivals semaphore st.serial = some []

/-- The queues are intact and everybody was served in turn. -/
def AllServed (st : Tasking) : Prop :=
  ∃ nodes sems waiting, Queues st nodes sems waiting ∧ Served st sems waiting

/-- An operation serves all in turn if its condition holds, and passes somebody over otherwise. -/
def ServedIff (cond : Prop) (st : Tasking) : Prop :=
  cond ∧ AllServed st ∨ ¬ cond ∧ ∃ semaphore, arrivals semaphore st.serial = none

/-- The switch finds at most one waiter at every semaphore with a free unit. -/
def Tasking.SwitchServesOne (st : Tasking) : Prop :=
  isTaskingInit st = true → ServesOne st

section Operations

variable {st st' : Tasking} {nodes sems : List Node} {waiting : Node → List Node}

theorem Served.congr (h : Served st sems waiting) (serial : st'.serial = st.serial)
    : Served st' sems waiting where
  known semaphore member := by
    rw [serial]
    exact h.known semaphore member
  gone semaphore outside := by
    rw [serial]
    exact h.gone semaphore outside

/-- What a switch prints about a semaphore. -/
theorem Queues.switchTask_arrivals (h : Queues st nodes sems waiting)
    (ready : st.semctlReady = true) (tasking : isTaskingInit st = true) {fuel : Nat}
    {regs : CPURegisters} {r : CPURegisters × Tasking}
    (run : DeadKernel.switchTask fuel regs st = some r) (semaphore : Node)
    : arrivals semaphore r.2.serial
      = if semaphore ∈ sems then
          serveAll (wokenBy st waiting semaphore) (arrivals semaphore st.serial)
        else arrivals semaphore st.serial := by
  obtain ⟨woken, last, process, scan, rfl⟩ := switchTask_inv tasking run
  have saved : Queues (st.saved regs) nodes sems waiting := h.congr rfl
  have savedReady : (st.saved regs).semctlReady = true := ready
  rw [DeadKernel.semctlProcess, if_pos savedReady, saved.first_semaphore] at process
  have printed := saved.processFrom_arrivals (List.nil_append _).symm process semaphore
  have serial : last.resumed.2.serial = woken.serial := (scanQueue_semaphores scan).2
  rw [serial, printed]
  rfl

/-- The queue of a semaphore after a switch that serves one at most. -/
theorem Served.switched (served : Served st sems waiting) (h : Queues st nodes sems waiting)
    (one : ServesOne st) {semaphore : Node} (member : semaphore ∈ sems)
    : serveAll (wokenBy st waiting semaphore) (arrivals semaphore st.serial)
      = some (waitingAfter st sems waiting semaphore).reverse := by
  have distinct := (List.nodup_cons.mp (h.waiters semaphore member).distinct).2
  have few := h.servesOne_iff.mp one semaphore member
  rw [served.known semaphore member, serveAll_woken distinct, waitingAfter, if_pos member, if_neg]
  rintro ⟨unit, many⟩
  exact absurd (few unit) (Nat.not_le.mpr many)

/-- A switch that does not, passes somebody over. -/
theorem Served.passed_over (served : Served st sems waiting) (h : Queues st nodes sems waiting)
    (many : ¬ ServesOne st)
    : ∃ semaphore ∈ sems, 0 < (st.semaphores semaphore).count.toInt
        ∧ serveAll (wokenBy st waiting semaphore) (arrivals semaphore st.serial) = none := by
  rw [h.servesOne_iff] at many
  push Not at many
  obtain ⟨semaphore, member, unit, more⟩ := many
  have distinct := (List.nodup_cons.mp (h.waiters semaphore member).distinct).2
  refine ⟨semaphore, member, unit, ?_⟩
  rw [served.known semaphore member, serveAll_woken distinct, if_pos ⟨unit, more⟩]

theorem Scheduled.switchTask_served (h : Scheduled st nodes sems waiting)
    (served : Served st sems waiting) {fuel : Nat} {regs : CPURegisters}
    {r : CPURegisters × Tasking} (run : DeadKernel.switchTask fuel regs st = some r)
    : ServedIff st.SwitchServesOne r.2 := by
  by_cases tasking : isTaskingInit st = true
  · have printed := h.toQueues.switchTask_arrivals h.ready tasking run
    by_cases one : ServesOne st
    · obtain ⟨others, result, outcome⟩ := h.toQueues.switchTask h.ready h.current tasking run
      obtain ⟨nodes', -, queues⟩ := outcome.queues
      refine Or.inl ⟨fun _ => one, nodes', sems, _, queues, fun semaphore member => ?_,
        fun semaphore outside => ?_⟩
      · rw [printed, if_pos member, served.switched h.toQueues one member]
      · rw [printed, if_neg outside, served.gone semaphore outside]
    · obtain ⟨semaphore, member, -, passed⟩ := served.passed_over h.toQueues one
      refine Or.inr ⟨fun all => one (all tasking), semaphore, ?_⟩
      rw [printed, if_pos member, passed]
  · rw [DeadKernel.switchTask, if_pos tasking] at run
    obtain rfl := Option.some.inj run
    exact Or.inl ⟨fun ready => absurd ready tasking, nodes, sems, waiting, h.toQueues, served⟩

/-- Signals and passing tasks do not wait. -/
theorem arrivals_quiet {line : SemaphoreLine}
    (quiet : ∀ semaphore pending, line.turn semaphore pending = some pending) (semaphore : Node)
    (lines : List SemaphoreLine)
    : arrivals semaphore (line :: lines) = arrivals semaphore lines := by
  rw [arrivals]
  cases arrivals semaphore lines with
  | none => rfl
  | some pending => exact quiet semaphore pending

theorem Served.quiet (h : Served st sems waiting) {line : SemaphoreLine}
    (quiet : ∀ semaphore pending, line.turn semaphore pending = some pending)
    (serial : st'.serial = line :: st.serial)
    : Served st' sems waiting where
  known semaphore member := by
    rw [serial, arrivals_quiet quiet]
    exact h.known semaphore member
  gone semaphore outside := by
    rw [serial, arrivals_quiet quiet]
    exact h.gone semaphore outside

/-- A task begins to wait. -/
theorem arrivals_moving (semaphore task other : Node) (lines : List SemaphoreLine)
    : arrivals other (.moving semaphore task :: lines)
      = (arrivals other lines).map
        (fun pending => if semaphore = other then pending ++ [task] else pending) := by
  rw [arrivals]
  cases arrivals other lines with
  | none => rfl
  | some pending => rfl

/-- The turns once a task has begun to wait. -/
theorem Served.moving (served : Served st sems waiting) {semaphore : Node}
    (member : semaphore ∈ sems) (task other : Node)
    : arrivals other (.moving semaphore task :: st.serial)
      = if other = semaphore then some (task :: waiting other).reverse
        else arrivals other st.serial := by
  rw [arrivals_moving]
  by_cases same : other = semaphore
  · subst same
    rw [if_pos rfl, served.known other member, Option.map_some, if_pos rfl, List.reverse_cons]
  · rw [if_neg same]
    cases arrivals other st.serial with
    | none => rfl
    | some pending => exact congrArg some (if_neg (Ne.symm same))

section Wait

variable {semaphore : Node} {fuel : Nat} {regs frame : CPURegisters} {switched : Tasking}

/-- A task that waits comes last in turn and first in the queue, if the switch passes nobody
over.
-/
theorem Scheduled.wait_in_turn (h : Scheduled st nodes sems waiting)
    (served : Served st sems waiting) (member : semaphore ∈ sems)
    (unit : ¬ 0 < (st.semaphores semaphore).count.toInt) (stays : regs.ecx ≠ exitMark)
    (tasking : isTaskingInit st = true) (one : ServesOne st)
    (switch : DeadKernel.switchTask fuel regs (st.print (.moving semaphore st.currentTask))
      = some (frame, switched))
    : AllServed (listMove st.currentTask semaphore.queue switched) := by
  have printed := h.print (.moving semaphore st.currentTask)
  have lines := printed.toQueues.switchTask_arrivals printed.ready tasking switch
  obtain ⟨others, result, outcome⟩ :=
    printed.toQueues.switchTask printed.ready printed.current tasking switch
  have kept := outcome.keeps_current (printed.current_resumable stays)
  obtain ⟨nodes', perm, queues⟩ := outcome.queues
  refine ⟨_, sems, _, queues.block member (perm.mem_iff.mpr kept), fun other inside => ?_,
    fun other outside => ?_⟩
  · change arrivals other switched.serial = _
    rw [lines, if_pos inside]
    change serveAll (wokenBy st waiting other) (arrivals other (_ :: st.serial)) = _
    rw [served.moving member]
    by_cases same : other = semaphore
    · subst same
      have nobody : wokenBy st waiting other = [] := if_neg unit
      have still : waitingAfter st sems waiting other = waiting other := by
        rw [waitingAfter, if_pos member, stillWaiting, if_neg unit]
      rw [if_pos rfl, nobody, Function.update_self]
      exact congrArg (fun queue => some (st.currentTask :: queue).reverse) still.symm
    · rw [if_neg same, Function.update_of_ne same]
      exact served.switched h.toQueues one inside
  · change arrivals other switched.serial = _
    have differs : other ≠ semaphore := fun same => outside (same ▸ member)
    rw [lines, if_neg outside]
    change arrivals other (_ :: st.serial) = _
    rw [served.moving member, if_neg differs, served.gone other outside]

/-- The switch of a task that waits passes over those it would without the wait. -/
theorem Scheduled.wait_passes_over (h : Scheduled st nodes sems waiting)
    (served : Served st sems waiting) (member : semaphore ∈ sems)
    (unit : ¬ 0 < (st.semaphores semaphore).count.toInt) (tasking : isTaskingInit st = true)
    (many : ¬ ServesOne st)
    (switch : DeadKernel.switchTask fuel regs (st.print (.moving semaphore st.currentTask))
      = some (frame, switched))
    : ∃ other, arrivals other switched.serial = none := by
  have printed := h.print (.moving semaphore st.currentTask)
  have lines := printed.toQueues.switchTask_arrivals printed.ready tasking switch
  obtain ⟨other, inside, free, passed⟩ := served.passed_over h.toQueues many
  have differs : other ≠ semaphore := by
    rintro rfl
    exact unit free
  refine ⟨other, ?_⟩
  rw [lines, if_pos inside]
  change serveAll (wokenBy st waiting other) (arrivals other (_ :: st.serial)) = none
  rw [served.moving member, if_neg differs, passed]

/-- Before tasking has started nobody is switched to, and the task waits. -/
theorem Scheduled.wait_alone (h : Scheduled st nodes sems waiting)
    (served : Served st sems waiting) (member : semaphore ∈ sems)
    : AllServed (listMove st.currentTask semaphore.queue
        (st.print (.moving semaphore st.currentTask))) := by
  have printed := h.print (.moving semaphore st.currentTask)
  refine ⟨_, sems, _, printed.toQueues.block member h.current, fun other inside => ?_,
    fun other outside => ?_⟩
  · change arrivals other (_ :: st.serial) = _
    rw [served.moving member]
    by_cases same : other = semaphore
    · rw [if_pos same, same, Function.update_self]
    · rw [if_neg same, Function.update_of_ne same, served.known other inside]
  · have differs : other ≠ semaphore := fun same => outside (same ▸ member)
    change arrivals other (_ :: st.serial) = _
    rw [served.moving member, if_neg differs, served.gone other outside]

end Wait

/-- A task waits in turn, unless the switch away from it passes somebody over. -/
theorem Scheduled.wait_served (h : Scheduled st nodes sems waiting)
    (served : Served st sems waiting) {semaphore : Node} (member : semaphore ∈ sems)
    {env : CallEnv} {regs : CPURegisters} (stays : regs.ecx ≠ exitMark)
    {r : CPURegisters × Tasking} (run : semctlWait env semaphore regs st = some r)
    : ServedIff (¬ 0 < (st.semaphores semaphore).count.toInt → st.SwitchServesOne) r.2 := by
  rw [semctlWait] at run
  split at run
  · rename_i unit
    obtain rfl := Option.some.inj run
    exact Or.inl ⟨fun none => absurd unit none, nodes, sems, waiting, h.toQueues.congr rfl,
      served.quiet (fun _ _ => rfl) rfl⟩
  rename_i unit
  obtain ⟨⟨frame, switched⟩, switch, moved⟩ := Option.bind_eq_some_iff.mp run
  obtain rfl := Option.some.inj moved
  by_cases tasking : isTaskingInit st = true
  · by_cases one : ServesOne st
    · exact Or.inl ⟨fun _ _ => one,
        h.wait_in_turn served member unit stays tasking one switch⟩
    · obtain ⟨other, passed⟩ := h.wait_passes_over served member unit tasking one switch
      exact Or.inr ⟨fun all => one (all unit tasking), other, passed⟩
  · have idle : ¬ isTaskingInit (st.print (.moving semaphore st.currentTask)) = true := tasking
    rw [DeadKernel.switchTask, if_pos idle] at switch
    obtain ⟨rfl, rfl⟩ := Prod.mk.inj (Option.some.inj switch)
    exact Or.inl ⟨fun _ ready => absurd ready tasking, h.wait_alone served member⟩

end Operations

-----------------------------------------------------------------------------------------
-- Events
-----------------------------------------------------------------------------------------

/-- When the event wakes tasks, it finds at most one waiter at every semaphore with a free unit. -/
def TaskEvent.InTurn (st : Tasking) : TaskEvent → Prop
  | .start _ _ | .again _ => True
  | .interrupt (.timer _ _) => st.SwitchServesOne
  | .interrupt (.sysCall env regs) =>
      (syscalls regs.eax = some .yield → st.SwitchServesOne)
      ∧ (syscalls regs.eax = some .semctl → regs.ecx = semaphoreWait
        → ∀ semaphore, searchSemaphore env regs.ebx st = some (some semaphore)
        → ¬ 0 < (st.semaphores semaphore).count.toInt → st.SwitchServesOne)

section Events

variable {st st' : Tasking} {nodes sems : List Node} {waiting : Node → List Node}

/-- A new semaphore. -/
theorem Scheduled.init_served (h : Scheduled st nodes sems waiting)
    (served : Served st sems waiting) {env : CallEnv}
    (fresh : Node.semaphore env.block ∉ sems) (args : Nat)
    : AllServed (semctlInit env args st).2 := by
  rw [semctlInit]
  split
  · exact ⟨nodes, sems, waiting, h.toQueues, served⟩
  · refine ⟨_, _, _, (h.toQueues.addSemaphore fresh).congr rfl, fun semaphore member => ?_,
      fun semaphore outside => ?_⟩
    · change arrivals semaphore st.serial = _
      rcases List.mem_append.mp member with old | isNew
      · have other : semaphore ≠ .semaphore env.block := by
          rintro rfl
          exact fresh old
        rw [Function.update_of_ne other, served.known semaphore old]
      · obtain rfl := List.mem_singleton.mp isNew
        rw [Function.update_self, served.gone _ fresh]
        rfl
    · exact served.gone semaphore (fun old => outside (List.mem_append_left _ old))

/-- A semaphore that is freed has nobody waiting. -/
theorem Scheduled.free_served (h : Scheduled st nodes sems waiting)
    (served : Served st sems waiting) {semaphore : Node} (member : semaphore ∈ sems)
    (env : CallEnv)
    : AllServed (semctlFree env semaphore st).2 := by
  rw [semctlFree]
  split
  · exact ⟨nodes, sems, waiting, h.toQueues, served⟩
  · rename_i unused
    have empty : queueEmpty semaphore.queue st = true :=
      eq_true_of_ne_false (fun some => unused (Or.inr some))
    have nobody := (h.waiters semaphore member).queueEmpty_iff.mp empty
    refine ⟨_, _, _, h.toQueues.removeSemaphore member, fun other inside => ?_,
      fun other outside => ?_⟩
    · exact served.known other (List.mem_of_mem_erase inside)
    · by_cases same : other = semaphore
      · subst same
        have known := served.known other member
        rw [nobody] at known
        exact known
      · exact served.gone other (fun inside => outside ((List.mem_erase_of_ne same).mpr inside))

theorem Scheduled.start_served (h : Scheduled st nodes sems waiting)
    (served : Served st sems waiting) {block : Nat}
    (fresh : ¬ Held nodes sems waiting (.task block)) (task : Task)
    : AllServed (runTask (.task block) (allocTask block task st)).2 :=
  ⟨_, _, _, (h.start fresh task).toQueues,
    served.congr (runTask_semaphores (.task block) (allocTask block task st)).2⟩

theorem ServedIff.congr {cond cond' : Prop} (h : ServedIff cond st) (same : cond' ↔ cond)
    : ServedIff cond' st := by
  rwa [ServedIff, same]

/-- What one proper event does. -/
theorem Scheduled.event_served (h : Scheduled st nodes sems waiting)
    (served : Served st sems waiting) {event : TaskEvent} (proper : event.Proper st)
    (done : event.step st = some st')
    : ServedIff (event.InTurn st) st' := by
  have kept {env : CallEnv} {regs : CPURegisters} {call : SysCall}
      (known : syscalls regs.eax = some call) (notYield : call ≠ .yield)
      (notWait : call = .semctl → regs.ecx ≠ semaphoreWait) {st' : Tasking} (all : AllServed st')
      : ServedIff ((TaskEvent.interrupt (.sysCall env regs)).InTurn st) st' :=
    Or.inl ⟨CallCondition.of_other known notYield notWait, all⟩
  have same (serial : st'.serial = st.serial) (links : st'.links = st.links) : AllServed st' :=
    ⟨nodes, sems, waiting, h.toQueues.congr links, served.congr serial⟩
  cases TaskEvent.effect h.ready done with
  | start block task =>
      exact Or.inl ⟨trivial, h.start_served served (mt h.toQueues.holds_iff.mpr proper) task⟩
  | again node =>
      have known := h.started node (h.toQueues.holds_iff.mp proper)
      rw [runTask, if_pos (Or.inl known)]
      exact Or.inl ⟨trivial, nodes, sems, waiting, h.toQueues, served⟩
  | tick run => exact h.switchTask_served served run
  | idle notYield notWait =>
      refine Or.inl ⟨⟨fun call => absurd call notYield, ?_⟩, same rfl rfl⟩
      exact fun call wait semaphore found => absurd found (notWait call wait semaphore)
  | fork call =>
      refine kept call (by decide) (fun same => by contradiction) ?_
      rw [DeadKernel.fork]
      split
      · exact ⟨nodes, sems, waiting, h.toQueues, served⟩
      · exact h.start_served served (mt h.toQueues.holds_iff.mpr (proper.1 call)) _
  | yield call run =>
      rw [DeadKernel.yield] at run
      split at run
      · rename_i idle
        obtain rfl := Option.some.inj run
        refine Or.inl ⟨(CallCondition.yield_iff call).mpr ?_, nodes, sems, waiting, h.toQueues, served⟩
        exact fun ready => absurd ready idle
      · have yields : ({ st.tasks st.currentTask with status := .yield } : Task).status.Active :=
          Or.inr (Or.inr rfl)
        have marked := h.setCurrent yields
        have outcome := marked.switchTask_served (served.congr rfl) run
        have one : ServesOne (st.setTask st.currentTask
            { st.tasks st.currentTask with status := .yield }) ↔ ServesOne st :=
          marked.toQueues.servesOne_iff.trans h.toQueues.servesOne_iff.symm
        refine outcome.congr ((CallCondition.yield_iff call).trans ?_)
        exact imp_congr_right (fun _ => one.symm)
  | init call command =>
      refine kept call (by decide) (fun _ => ?_) (h.init_served served ?_ _)
      · rw [command]
        decide
      · exact mt h.semaphores.linkedIn_iff.mpr (proper.2 call command)
  | signal call command =>
      refine kept call (by decide) (fun _ => ?_)
        ⟨nodes, sems, waiting, (h.signal _ _).toQueues, ?_⟩
      · rw [command]
        decide
      · refine served.quiet (fun _ _ => rfl) (semctlSignal_self _ _ _).2
  | wait call command found run =>
      have member := h.semaphores.searchSemaphore_mem found
      exact (h.wait_served served member (by rw [command]; decide) run).congr
        (CallCondition.wait_iff call command found)
  | free call command found =>
      have member := h.semaphores.searchSemaphore_mem found
      refine kept call (by decide) (fun _ => ?_) (h.free_served served member _)
      rw [command]
      decide

end Events

/-- The queues of a state are determined by its links. -/
theorem Served.transfer {st : Tasking} {nodes nodes' sems sems' : List Node}
    {waiting waiting' : Node → List Node} (served : Served st sems waiting)
    (h : Queues st nodes sems waiting) (h' : Queues st nodes' sems' waiting')
    : Served st sems' waiting' := by
  obtain rfl := h.semaphores.unique h'.semaphores
  refine ⟨fun semaphore member => ?_, served.gone⟩
  rw [served.known semaphore member,
    (h.waiters semaphore member).unique (h'.waiters semaphore member)]

theorem initTasking_served (block : Nat) (kernel : Task)
    : AllServed (initTasking block kernel .zero) := by
  obtain ⟨nodes, sems, waiting, ok⟩ := initTasking_scheduled block kernel
  have booted := initTasking_booted block kernel
  obtain rfl := ok.semaphores.unique booted.semaphores
  have serial : (initTasking block kernel .zero).serial = [] := (runTask_semaphores _ _).2
  refine ⟨nodes, [], waiting, ok.toQueues, fun semaphore none => ?_, fun semaphore _ => ?_⟩
  · exact absurd none List.not_mem_nil
  · rw [serial]
    rfl

/-- By induction over the events. -/
theorem TaskRun.served {block : Nat} {kernel : Task} {st : Tasking}
    (run : TaskRun (fun st event => event.Finds st ∧ event.InTurn st) block kernel st)
    : Ordered st ∧ AllServed st := by
  induction run with
  | init => exact ⟨initTasking_scheduled block kernel, initTasking_served block kernel⟩
  | step _ event proper holds done ih =>
      obtain ⟨⟨nodes, sems, waiting, ok⟩, _, _, _, queues, served⟩ := ih
      have now := served.transfer queues ok.toQueues
      constructor
      · exact ((ok.event proper done).resolve_right (fun stuck => stuck.1 holds.1)).2
      · exact ((ok.event_served now proper done).resolve_right
          (fun passed => passed.1 holds.2)).2

end DeadKernel
