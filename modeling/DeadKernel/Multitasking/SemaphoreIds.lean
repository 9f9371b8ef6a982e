import DeadKernel.Multitasking.LastTask
import DeadKernel.Multitasking.SemaphoreUnits

/-! The ids of semaphores. They are counted up from 1, and as long as the counter has not reached
the number that stands for a failed call, no two live semaphores share one.
-/

namespace DeadKernel

open Rings

-----------------------------------------------------------------------------------------
-- What leaves ids alone
-----------------------------------------------------------------------------------------

/-- The next id and the ids given out agree. -/
structure SameIds (st st' : Tasking) : Prop where
  next : st'.nextSemaphoreID = st.nextSemaphoreID
  ids : ∀ node, (st'.semaphores node).id = (st.semaphores node).id

section Ids

variable {st st' st'' : Tasking}

theorem SameIds.refl (st : Tasking) : SameIds st st := ⟨rfl, fun _ => rfl⟩

theorem SameIds.trans (h : SameIds st st') (h' : SameIds st' st'') : SameIds st st'' :=
  ⟨h'.next.trans h.next, fun node => (h'.ids node).trans (h.ids node)⟩

/-- A semaphore that is written with its own id. -/
theorem SameIds.of_update {node : Node} {value : Semaphore}
    (next : st'.nextSemaphoreID = st.nextSemaphoreID)
    (updated : st'.semaphores = Function.update st.semaphores node value)
    (same : value.id = (st.semaphores node).id)
    : SameIds st st' := by
  refine ⟨next, fun other => ?_⟩
  rw [updated]
  by_cases own : other = node
  · rw [own, Function.update_self, same]
  · rw [Function.update_of_ne own]

theorem wakeFirst_ids (semaphore : Node) (st : Tasking) : SameIds st (wakeFirst semaphore st) := by
  rw [wakeFirst]
  split
  · exact .of_update rfl rfl rfl
  · exact .refl st

theorem processFrom_ids {fuel : Nat} {iter : Node} (run : processFrom fuel iter st = some st')
    : SameIds st st' := by
  induction fuel generalizing iter st with
  | zero => contradiction
  | succ fuel ih =>
      rw [processFrom] at run
      split at run
      · exact Option.some.inj run ▸ .refl st
      · exact (wakeFirst_ids iter st).trans (ih run)

theorem semctlProcess_ids {fuel : Nat} (run : semctlProcess fuel st = some st')
    : SameIds st st' := by
  rw [semctlProcess] at run
  split at run
  · exact processFrom_ids run
  · exact Option.some.inj run ▸ .refl st

theorem visitTask_next (iter : Node) (st : Tasking)
    : (visitTask iter st).nextSemaphoreID = st.nextSemaphoreID := by
  rw [visitTask]
  dsimp only
  split
  any_goals split
  any_goals split
  any_goals rfl
  all_goals
    rw [destroyTask, stopTask]
    split <;> rfl

theorem scanQueue_ids {fuel : Nat} {iter : Node} (run : scanQueue fuel iter st = some st')
    : SameIds st st' := by
  refine ⟨?_, fun node => by rw [(scanQueue_semaphores run).1]⟩
  induction fuel generalizing iter st with
  | zero => contradiction
  | succ fuel ih =>
      rw [scanQueue] at run
      split at run
      · exact Option.some.inj run ▸ rfl
      · dsimp only at run
        split at run
        · exact Option.some.inj run ▸ visitTask_next iter st
        · exact (ih run).trans (visitTask_next iter st)

theorem switchTask_ids {fuel : Nat} {regs : CPURegisters} {r : CPURegisters × Tasking}
    (run : switchTask fuel regs st = some r)
    : SameIds st r.2 := by
  by_cases tasking : isTaskingInit st = true
  · obtain ⟨woken, last, process, scan, rfl⟩ := switchTask_inv tasking run
    have saved : SameIds st (st.saved regs) := ⟨rfl, fun _ => rfl⟩
    have scanned := scanQueue_ids scan
    exact (saved.trans (semctlProcess_ids process)).trans ⟨scanned.next, scanned.ids⟩
  · rw [switchTask, if_pos tasking] at run
    exact Option.some.inj run ▸ .refl st

theorem runTask_ids (task : Node) (st : Tasking) : SameIds st (runTask task st).2 := by
  refine ⟨?_, fun node => by rw [(runTask_semaphores task st).1]⟩
  rw [runTask]
  split
  · rfl
  · dsimp only [Tasking.setTask, queueAddTail]
    split <;> rfl

theorem yield_ids {env : CallEnv} {regs : CPURegisters} {r : CPURegisters × Tasking}
    (run : yield env regs st = some r)
    : SameIds st r.2 := by
  rw [yield] at run
  split at run
  · exact Option.some.inj run ▸ .refl st
  · have marked : SameIds st (st.setTask st.currentTask
        { st.tasks st.currentTask with status := .yield }) := ⟨rfl, fun _ => rfl⟩
    exact marked.trans (switchTask_ids run)

theorem semctlSignal_ids (env : CallEnv) (semaphore : Node) (st : Tasking)
    : SameIds st (semctlSignal env semaphore st) := by
  rw [semctlSignal]
  dsimp only
  split
  · exact .of_update rfl rfl rfl
  · exact ⟨rfl, fun _ => rfl⟩

theorem semctlWait_ids {env : CallEnv} {semaphore : Node} {regs : CPURegisters}
    {r : CPURegisters × Tasking} (run : semctlWait env semaphore regs st = some r)
    : SameIds st r.2 := by
  rw [semctlWait] at run
  split at run
  · obtain rfl := Option.some.inj run
    exact .of_update rfl rfl rfl
  · obtain ⟨switched, switch, moved⟩ := Option.bind_eq_some_iff.mp run
    obtain rfl := Option.some.inj moved
    exact ⟨(switchTask_ids switch).next, (switchTask_ids switch).ids⟩

end Ids

-----------------------------------------------------------------------------------------
-- The semaphores that are left
-----------------------------------------------------------------------------------------

section Switches

variable {st : Tasking} {nodes sems : List Node} {waiting : Node → List Node}
  {regs : CPURegisters} {r : CPURegisters × Tasking}

/-- A switch makes and frees no semaphore. -/
theorem Scheduled.switchTask_sems (h : Scheduled st nodes sems waiting) {fuel : Nat}
    (run : DeadKernel.switchTask fuel regs st = some r)
    : ∃ nodes' waiting', Queues r.2 nodes' sems waiting' := by
  by_cases tasking : isTaskingInit st = true
  · obtain ⟨others, result, outcome⟩ := h.toQueues.switchTask h.ready h.current tasking run
    obtain ⟨nodes', -, queues⟩ := outcome.queues
    exact ⟨nodes', _, queues⟩
  · rw [DeadKernel.switchTask, if_pos tasking] at run
    exact Option.some.inj run ▸ ⟨nodes, waiting, h.toQueues⟩

theorem Scheduled.wait_sems (h : Scheduled st nodes sems waiting) {semaphore : Node}
    (member : semaphore ∈ sems) {env : CallEnv} (stays : regs.ecx ≠ exitMark)
    (run : semctlWait env semaphore regs st = some r)
    : ∃ nodes' waiting', Queues r.2 nodes' sems waiting' := by
  rw [semctlWait] at run
  split at run
  · obtain rfl := Option.some.inj run
    exact ⟨nodes, waiting, h.toQueues.congr rfl⟩
  obtain ⟨⟨frame, switched⟩, switch, moved⟩ := Option.bind_eq_some_iff.mp run
  obtain rfl := Option.some.inj moved
  have printed := h.print (.moving semaphore st.currentTask)
  by_cases tasking : isTaskingInit st = true
  · obtain ⟨others, result, outcome⟩ :=
      printed.toQueues.switchTask printed.ready printed.current tasking switch
    have kept := outcome.keeps_current (printed.current_resumable stays)
    obtain ⟨nodes', perm, queues⟩ := outcome.queues
    exact ⟨_, _, queues.block member (perm.mem_iff.mpr kept)⟩
  · have idle : ¬ isTaskingInit (st.print (.moving semaphore st.currentTask)) = true := tasking
    rw [DeadKernel.switchTask, if_pos idle] at switch
    obtain ⟨rfl, rfl⟩ := Prod.mk.inj (Option.some.inj switch)
    exact ⟨_, _, printed.toQueues.block member h.current⟩

end Switches

-----------------------------------------------------------------------------------------
-- Numbers
-----------------------------------------------------------------------------------------

/-- The live semaphores have different ids, which the counter has passed. -/
structure Numbered (st : Tasking) (sems : List Node) : Prop where
  started : 0 < st.nextSemaphoreID
  below : st.nextSemaphoreID ≤ failure
  given : ∀ semaphore ∈ sems, 0 < (st.semaphores semaphore).id
    ∧ (st.semaphores semaphore).id < st.nextSemaphoreID
  distinct : ∀ semaphore ∈ sems, ∀ other ∈ sems,
    (st.semaphores semaphore).id = (st.semaphores other).id → semaphore = other

/-- The queues are intact and the semaphores numbered. -/
def AllNumbered (st : Tasking) : Prop :=
  ∃ nodes sems waiting, Queues st nodes sems waiting ∧ Numbered st sems

/-- The number of a new semaphore does not stand for a failed call. -/
def TaskEvent.NumberLeft (st : Tasking) : TaskEvent → Prop
  | .start _ _ | .again _ | .interrupt (.timer _ _) => True
  | .interrupt (.sysCall _ regs) =>
      syscalls regs.eax = some .semctl → regs.ecx = semaphoreInit → regs.edx ≠ 0
        → st.nextSemaphoreID ≠ failure

section Numbers

variable {st st' : Tasking} {nodes sems : List Node} {waiting : Node → List Node}

theorem Numbered.congr (h : Numbered st sems) (same : SameIds st st') : Numbered st' sems := by
  refine ⟨?_, ?_, fun semaphore member => ?_, fun semaphore member other inside equal => ?_⟩
  · rw [same.next]
    exact h.started
  · rw [same.next]
    exact h.below
  · rw [same.ids, same.next]
    exact h.given semaphore member
  · rw [same.ids, same.ids] at equal
    exact h.distinct semaphore member other inside equal

theorem Numbered.subset {left : List Node} (h : Numbered st sems) (sub : left ⊆ sems)
    : Numbered st left :=
  ⟨h.started, h.below, fun semaphore member => h.given semaphore (sub member),
    fun semaphore member other inside => h.distinct semaphore (sub member) other (sub inside)⟩

/-- A new semaphore gets a number that no other one has. -/
theorem Scheduled.init_numbered (h : Scheduled st nodes sems waiting) (numbered : Numbered st sems)
    {env : CallEnv} (fresh : Node.semaphore env.block ∉ sems) {args : Nat}
    (left : args ≠ 0 → st.nextSemaphoreID ≠ failure)
    : AllNumbered (semctlInit env args st).2 := by
  rw [semctlInit]
  split
  · exact ⟨nodes, sems, waiting, h.toQueues, numbered⟩
  · rename_i some_
    have below : st.nextSemaphoreID ≤ 4294967295 := numbered.below
    have room : st.nextSemaphoreID ≠ 4294967295 := left some_
    have next : (st.nextSemaphoreID + 1) % 4294967296 = st.nextSemaphoreID + 1 :=
      Nat.mod_eq_of_lt (by omega)
    have old {semaphore : Node} (member : semaphore ∈ sems) : semaphore ≠ .semaphore env.block := by
      rintro rfl
      exact fresh member
    let records := Function.update st.semaphores (.semaphore env.block)
      ⟨st.nextSemaphoreID, env.userWord, env.userWord⟩
    let ids (node : Node) := (records node).id
    have newId : ids (.semaphore env.block) = st.nextSemaphoreID := by
      simp only [ids, records, Function.update_self]
    have oldId {semaphore : Node} (member : semaphore ∈ sems)
        : ids semaphore = (st.semaphores semaphore).id := by
      simp only [ids, records, Function.update_of_ne (old member)]
    have cases {semaphore : Node} (member : semaphore ∈ sems ++ [.semaphore env.block])
        : semaphore ∈ sems ∨ semaphore = .semaphore env.block :=
      (List.mem_append.mp member).imp_right List.mem_singleton.mp
    refine ⟨_, _, _, (h.toQueues.addSemaphore fresh).congr rfl, ?_, ?_, fun semaphore member => ?_,
      fun semaphore member other inside equal => ?_⟩
    · change 0 < (st.nextSemaphoreID + 1) % 4294967296
      omega
    · change (st.nextSemaphoreID + 1) % 4294967296 ≤ 4294967295
      omega
    · change 0 < ids semaphore ∧ ids semaphore < (st.nextSemaphoreID + 1) % 4294967296
      rw [next]
      rcases cases member with before | rfl
      · rw [oldId before]
        exact ⟨(numbered.given semaphore before).1,
          (numbered.given semaphore before).2.trans (Nat.lt_succ_self _)⟩
      · rw [newId]
        exact ⟨numbered.started, Nat.lt_succ_self _⟩
    · change ids semaphore = ids other at equal
      rcases cases member with before | rfl <;> rcases cases inside with before' | rfl
      · rw [oldId before, oldId before'] at equal
        exact numbered.distinct semaphore before other before' equal
      · rw [oldId before, newId] at equal
        exact absurd equal (numbered.given semaphore before).2.ne
      · rw [oldId before', newId] at equal
        exact absurd equal.symm (numbered.given other before').2.ne
      · rfl

/-- What one proper event does. -/
theorem Scheduled.event_numbered (h : Scheduled st nodes sems waiting) (numbered : Numbered st sems)
    {event : TaskEvent} (proper : event.Proper st) (left : event.NumberLeft st)
    (done : event.step st = some st')
    : AllNumbered st' := by
  have kept {now : Tasking} (queues : ∃ nodes' waiting', Queues now nodes' sems waiting')
      (same : SameIds st now)
      : AllNumbered now := by
    obtain ⟨nodes', waiting', queues⟩ := queues
    exact ⟨nodes', sems, waiting', queues, numbered.congr same⟩
  have started {block : Nat} (fresh : ¬ st.Holds (.task block)) (task : Task)
      : AllNumbered (runTask (.task block) (allocTask block task st)).2 := by
    have ran := runTask_ids (.task block) (allocTask block task st)
    exact kept ⟨_, _, (h.start (mt h.toQueues.holds_iff.mpr fresh) task).toQueues⟩
      ⟨ran.next, ran.ids⟩
  cases TaskEvent.effect h.ready done with
  | start block task => exact started proper task
  | again node =>
      have known := h.started node (h.toQueues.holds_iff.mp proper)
      rw [runTask, if_pos (Or.inl known)]
      exact kept ⟨nodes, waiting, h.toQueues⟩ (.refl st)
  | tick run => exact kept (h.switchTask_sems run) (switchTask_ids run)
  | idle => exact kept ⟨nodes, waiting, h.toQueues⟩ (.refl st)
  | fork call =>
      rw [DeadKernel.fork]
      split
      · exact kept ⟨nodes, waiting, h.toQueues⟩ (.refl st)
      · exact started (proper.1 call) _
  | yield call run =>
      refine kept ?_ (yield_ids run)
      rw [DeadKernel.yield] at run
      split at run
      · exact Option.some.inj run ▸ ⟨nodes, waiting, h.toQueues⟩
      · have yields : ({ st.tasks st.currentTask with status := .yield } : Task).status.Active :=
          Or.inr (Or.inr rfl)
        exact (h.setCurrent yields).switchTask_sems run
  | init call command =>
      exact h.init_numbered numbered (mt h.semaphores.linkedIn_iff.mpr (proper.2 call command))
        (left call command)
  | signal call command =>
      exact kept ⟨nodes, waiting, (h.signal _ _).toQueues⟩ (semctlSignal_ids _ _ st)
  | wait call command found run =>
      have member := h.semaphores.searchSemaphore_mem found
      exact kept (h.wait_sems member (by rw [command]; decide) run) (semctlWait_ids run)
  | @free _ _ semaphore call command found =>
      have member := h.semaphores.searchSemaphore_mem found
      rw [semctlFree]
      split
      · exact kept ⟨nodes, waiting, h.toQueues⟩ (.refl st)
      · have same : SameIds st (queueDelEntry semaphore st) := ⟨rfl, fun _ => rfl⟩
        exact ⟨_, _, _, h.toQueues.removeSemaphore member,
          (numbered.congr same).subset (fun _ => List.mem_of_mem_erase)⟩

/-- The queues of a state are determined by its links. -/
theorem Numbered.transfer {nodes' sems' : List Node} {waiting' : Node → List Node}
    (numbered : Numbered st sems) (h : Queues st nodes sems waiting)
    (h' : Queues st nodes' sems' waiting')
    : Numbered st sems' :=
  h.semaphores.unique h'.semaphores ▸ numbered

theorem initTasking_numbered (block : Nat) (kernel : Task)
    : AllNumbered (initTasking block kernel .zero) := by
  obtain ⟨nodes, sems, waiting, ok⟩ := initTasking_scheduled block kernel
  have booted := initTasking_booted block kernel
  obtain rfl := ok.semaphores.unique booted.semaphores
  have next : (initTasking block kernel .zero).nextSemaphoreID = 1 := (runTask_ids _ _).next
  refine ⟨nodes, [], waiting, ok.toQueues, ?_, ?_, fun semaphore none => ?_, fun semaphore none => ?_⟩
  · rw [next]
    exact Nat.one_pos
  · rw [next]
    decide
  · exact absurd none List.not_mem_nil
  · exact absurd none List.not_mem_nil

/-- By induction over the events. -/
theorem TaskRun.numbered {block : Nat} {kernel : Task}
    (run : TaskRun (fun st event => event.Finds st ∧ event.NumberLeft st) block kernel st)
    : ∃ nodes sems waiting, Scheduled st nodes sems waiting ∧ Numbered st sems := by
  have both : Ordered st ∧ AllNumbered st := by
    induction run with
    | init => exact ⟨initTasking_scheduled block kernel, initTasking_numbered block kernel⟩
    | step _ event proper holds done ih =>
        obtain ⟨⟨nodes, sems, waiting, ok⟩, _, _, _, queues, numbered⟩ := ih
        constructor
        · exact ((ok.event proper done).resolve_right (fun stuck => stuck.1 holds.1)).2
        · exact ok.event_numbered (numbered.transfer queues ok.toQueues) proper holds.2 done
  obtain ⟨⟨nodes, sems, waiting, ok⟩, _, _, _, queues, numbered⟩ := both
  exact ⟨nodes, sems, waiting, ok, numbered.transfer queues ok.toQueues⟩

end Numbers

end DeadKernel
