import DeadKernel.Multitasking.CurrentTask

/-! The end of the last task. The kernel task takes itself for the last one when `mainQueue` is
empty, but it is linked there itself, and nothing else makes an ended task run again. So the loop
of `switchTask` ends exactly when it visits a task that can go on.
-/

namespace DeadKernel

open Rings Rounds

-----------------------------------------------------------------------------------------
-- Switches that end
-----------------------------------------------------------------------------------------

/-- A task that the switch visits can go on. -/
def Tasking.CanGoOn (st : Tasking) (regs : CPURegisters) : Prop :=
  ∃ node, st.Candidate node ∧ (st.saved regs).Resumable node

section Switch

variable {st : Tasking} {nodes sems : List Node} {waiting : Node → List Node}
  {regs : CPURegisters}

/-- A resumable task is picked at its second visit at the latest. -/
theorem Task.Resumable.picks {task : Task} (h : task.Resumable) (kernelTask node : Node)
    : (scanVisitor kernelTask).verdict node task = .pick
      ∨ (scanVisitor kernelTask).verdict node task = .stay
        ∧ (scanVisitor kernelTask).verdict node ((scanVisitor kernelTask).value node task)
          = .pick := by
  by_cases idle : task.status = .idle
  · exact Or.inl ((pick_iff_idle kernelTask node).mpr idle)
  · obtain ⟨stays, later, -⟩ := h.passed kernelTask node idle
    exact Or.inr ⟨stays, (pick_iff_idle kernelTask node).mpr later⟩

/-- A switch ends that visits a task that can go on. -/
theorem Scheduled.switch_ends (h : Scheduled st nodes sems waiting)
    (tasking : isTaskingInit st = true) (live : st.CanGoOn regs)
    : ∃ enough, ∀ fuel, enough ≤ fuel → ∃ r, DeadKernel.switchTask fuel regs st = some r := by
  obtain ⟨node, candidate, resumable⟩ := live
  have visited := h.toQueues.candidate_iff.mp candidate
  let length := (nodes ++ sems.flatMap (wokenBy st waiting)).length
  refine ⟨sems.length + 1 + 2 * length, fun fuel enough => ?_⟩
  have saved : Queues (st.saved regs) nodes sems waiting := h.toQueues.congr rfl
  have ready : (st.saved regs).semctlReady = true := h.ready
  obtain ⟨woken, process⟩ : ∃ woken, semctlProcess fuel (st.saved regs) = some woken := by
    rw [semctlProcess, if_pos ready, saved.first_semaphore]
    exact saved.processFrom_ends (List.nil_append _).symm (by omega)
  obtain ⟨queues, same⟩ := saved.semctlProcess ready process
  have whole : Circle woken (nodes ++ sems.flatMap (wokenBy st waiting)) :=
    ⟨nodes ++ sems.flatMap (wokenBy st waiting), [], rfl, by
      rw [List.append_nil]
      exact queues.run⟩
  have inside : woken.currentTask ∈ nodes ++ sems.flatMap (wokenBy st waiting) := by
    rw [same.currentTask]
    exact List.mem_append_left _ h.current
  obtain ⟨others, circle, perm⟩ := whole.last inside
  have again : ((woken.tasks) node).Resumable := by
    rw [same.tasks]
    exact resumable
  obtain ⟨result, found⟩ := rounds_ends circle.nodup (perm.mem_iff.mpr visited)
    (again.picks woken.kernelTask node)
  have le : 2 * (others ++ [woken.currentTask]).length ≤ fuel := by
    rw [perm.length_eq]
    omega
  obtain ⟨last, scan⟩ := (circle.scan circle.entry found).1 fuel le
  refine ⟨last.resumed, ?_⟩
  rw [switchTask_eq tasking, process, Option.bind_some, scan, Option.map_some]

end Switch

-----------------------------------------------------------------------------------------
-- Runs
-----------------------------------------------------------------------------------------

/-- The state in which `yield` calls `switchTask`. -/
def Tasking.yielding (st : Tasking) : Tasking :=
  st.setTask st.currentTask { st.tasks st.currentTask with status := .yield }

/-- A frame with which a task asks to end. -/
def endingFrame : CPURegisters := { CPURegisters.zero with ecx := exitMark }

end DeadKernel
