import DeadKernel.Multitasking.Tasks
import Mathlib.Logic.Relation

/-! The units of a semaphore: how many it has left, and which tasks hold the others.
A task is admitted by passing through `semctl(SEMAPHORE_WAIT)` or when `semctl_process` wakes
it, and gives its unit back with `SEMAPHORE_SIGNAL`. The signal compares the count with a stack
word that it never sets, so all of this rests on what that word happens to be.
-/

namespace DeadKernel

-----------------------------------------------------------------------------------------
-- Units held
-----------------------------------------------------------------------------------------

/-- The units of `semaphore` that the line gives to `task`. -/
def SemaphoreLine.units (semaphore task : Node) : SemaphoreLine → Int
  | .restore s t | .passing s t => if s = semaphore ∧ t = task then 1 else 0
  | .signal s t => if s = semaphore ∧ t = task then -1 else 0
  | .moving _ _ => 0

/-- The units of `semaphore` that the line takes out of it. -/
def SemaphoreLine.taken (semaphore : Node) : SemaphoreLine → Int
  | .restore s _ | .passing s _ => if s = semaphore then 1 else 0
  | .signal s _ => if s = semaphore then -1 else 0
  | .moving _ _ => 0

/-- What the task was admitted for and has not signalled, by the lines printed so far. -/
def Tasking.held (st : Tasking) (semaphore task : Node) : Int :=
  st.serial.foldr (fun line rest => line.units semaphore task + rest) 0

/-- All admitted and not yet signalled units. -/
def Tasking.taken (st : Tasking) (semaphore : Node) : Int :=
  st.serial.foldr (fun line rest => line.taken semaphore + rest) 0

theorem Tasking.held_print (st : Tasking) (line : SemaphoreLine) (semaphore task : Node)
    : (st.print line).held semaphore task
      = line.units semaphore task + st.held semaphore task := by
  simp [Tasking.held, Tasking.print]

theorem Tasking.taken_print (st : Tasking) (line : SemaphoreLine) (semaphore : Node)
    : (st.print line).taken semaphore = line.taken semaphore + st.taken semaphore := by
  simp [Tasking.taken, Tasking.print]

-----------------------------------------------------------------------------------------
-- What a call can do to one semaphore
-----------------------------------------------------------------------------------------

/-- Nothing that concerns the semaphore, or one task admitted for one unit. -/
inductive Admission (semaphore : Node) (st st' : Tasking) : Prop where
  | quiet (record : st'.semaphores semaphore = st.semaphores semaphore)
      (held : ∀ task, st'.held semaphore task = st.held semaphore task)
      (taken : st'.taken semaphore = st.taken semaphore)
  | grant (task : Node) (positive : 0 < (st.semaphores semaphore).count.toInt)
      (record : st'.semaphores semaphore
        = { st.semaphores semaphore with count := (st.semaphores semaphore).count - 1 })
      (held : ∀ other, st'.held semaphore other
        = (if task = other then 1 else 0) + st.held semaphore other)
      (taken : st'.taken semaphore = 1 + st.taken semaphore)

abbrev Admissions (semaphore : Node) : Tasking → Tasking → Prop :=
  Relation.ReflTransGen (Admission semaphore)

/-- What leaves semaphores and their lines alone admits nobody. -/
theorem Admission.of_same {semaphore : Node} {st st' : Tasking}
    (semaphores : st'.semaphores = st.semaphores) (serial : st'.serial = st.serial)
    : Admission semaphore st st' :=
  .quiet (by rw [semaphores]) (fun _ => by rw [Tasking.held, serial, Tasking.held])
    (by rw [Tasking.taken, serial, Tasking.taken])

/-- Taking a unit of `other` for `task`, with either of the two lines that do so. -/
theorem Admission.take {other task : Node} {line : SemaphoreLine} (semaphore : Node) {st : Tasking}
    (positive : 0 < (st.semaphores other).count.toInt)
    (admits : line = .restore other task ∨ line = .passing other task)
    : Admission semaphore st ((st.print line).setSemaphore other
        { st.semaphores other with count := (st.semaphores other).count - 1 }) := by
  have units (t : Node)
      : line.units semaphore t = if other = semaphore ∧ task = t then 1 else 0 := by
    rcases admits with rfl | rfl <;> rfl
  have taken : line.taken semaphore = if other = semaphore then 1 else 0 := by
    rcases admits with rfl | rfl <;> rfl
  by_cases same : other = semaphore
  · subst same
    refine .grant task positive (Function.update_self _ _ _) (fun t => ?_) ?_
    · refine (st.held_print line other t).trans ?_
      simp only [units, true_and]
    · exact (st.taken_print line other).trans (by rw [taken, if_pos rfl])
  · refine .quiet (Function.update_of_ne (Ne.symm same) _ _) (fun t => ?_) ?_
    · refine (st.held_print line semaphore t).trans ?_
      rw [units, if_neg (fun both => same both.1), Int.zero_add]
    · refine (st.taken_print line semaphore).trans ?_
      rw [taken, if_neg same, Int.zero_add]

theorem wakeFirst_admission (semaphore node : Node) (st : Tasking)
    : Admission semaphore st (wakeFirst node st) := by
  rw [wakeFirst]
  split
  · rename_i woken
    have taken := Admission.take semaphore woken.1
      (Or.inl (rfl : SemaphoreLine.restore node (st.next node.queue) = _))
    cases taken with
    | quiet record held taken => exact .quiet record held taken
    | grant task positive record held taken => exact .grant task positive record held taken
  · exact .of_same rfl rfl

/-- One round of `semctl_process` after another, by induction over the rounds. -/
theorem processFrom_admissions (semaphore : Node) {fuel : Nat} {iter : Node} {st st' : Tasking}
    (run : processFrom fuel iter st = some st')
    : Admissions semaphore st st' := by
  induction fuel generalizing iter st with
  | zero => contradiction
  | succ fuel ih =>
      rw [processFrom] at run
      split at run
      · exact Option.some.inj run ▸ .refl
      · exact .head (wakeFirst_admission semaphore iter st) (ih run)

theorem semctlProcess_admissions (semaphore : Node) {fuel : Nat} {st st' : Tasking}
    (run : semctlProcess fuel st = some st')
    : Admissions semaphore st st' := by
  rw [semctlProcess] at run
  split at run
  · exact processFrom_admissions semaphore run
  · exact Option.some.inj run ▸ .refl

-----------------------------------------------------------------------------------------
-- Scheduling leaves semaphores alone
-----------------------------------------------------------------------------------------

/-- The semaphores and their lines of two states agree. -/
def SameSemaphores (st st' : Tasking) : Prop :=
  st'.semaphores = st.semaphores ∧ st'.serial = st.serial

theorem SameSemaphores.admissions {st st' : Tasking} (h : SameSemaphores st st')
    (semaphore : Node)
    : Admissions semaphore st st' :=
  .single (.of_same h.1 h.2)

theorem stopTask_semaphores (task : Node) (st : Tasking) : SameSemaphores st (stopTask task st) := by
  rw [stopTask]
  split <;> exact ⟨rfl, rfl⟩

theorem runTask_semaphores (task : Node) (st : Tasking)
    : SameSemaphores st (runTask task st).2 := by
  rw [runTask]
  split
  · exact ⟨rfl, rfl⟩
  · dsimp only [Tasking.setTask, queueAddTail]
    split <;> exact ⟨rfl, rfl⟩

theorem visitTask_semaphores (iter : Node) (st : Tasking)
    : SameSemaphores st (visitTask iter st) := by
  rw [visitTask]
  cases (st.tasks iter).status with
  | yield => dsimp only; split <;> exact ⟨rfl, rfl⟩
  | running => dsimp only; split <;> exact ⟨rfl, rfl⟩
  | idle => exact ⟨rfl, rfl⟩
  | zombie =>
      dsimp only
      split
      · split <;> exact ⟨rfl, rfl⟩
      · exact stopTask_semaphores iter st
  | finished =>
      dsimp only
      split
      · split <;> exact ⟨rfl, rfl⟩
      · exact stopTask_semaphores iter st
  | created => exact ⟨rfl, rfl⟩
  | stopped => exact ⟨rfl, rfl⟩

theorem scanQueue_semaphores {fuel : Nat} {iter : Node} {st st' : Tasking}
    (run : scanQueue fuel iter st = some st')
    : SameSemaphores st st' := by
  induction fuel generalizing iter st with
  | zero => contradiction
  | succ fuel ih =>
      rw [scanQueue] at run
      have visit := visitTask_semaphores iter st
      split at run
      · exact Option.some.inj run ▸ ⟨rfl, rfl⟩
      · dsimp only at run
        split at run
        · exact Option.some.inj run ▸ visit
        · obtain ⟨semaphores, serial⟩ := ih run
          exact ⟨semaphores.trans visit.1, serial.trans visit.2⟩

theorem switchTask_admissions (semaphore : Node) {fuel : Nat} {regs regs' : CPURegisters}
    {st st' : Tasking} (run : switchTask fuel regs st = some (regs', st'))
    : Admissions semaphore st st' := by
  rw [switchTask] at run
  split at run
  · exact (Prod.mk.inj (Option.some.inj run)).2 ▸ .refl
  · simp only [Option.bind_eq_bind, Option.bind_eq_some_iff, Option.some.injEq,
      Prod.mk.injEq] at run
    obtain ⟨woken, process, scanned, scan, -, rfl⟩ := run
    have saved : SameSemaphores st (st.setTask st.currentTask
        { st.tasks st.currentTask with regs }) := ⟨rfl, rfl⟩
    have last := scanQueue_semaphores scan
    exact (saved.admissions semaphore).trans ((semctlProcess_admissions semaphore process).tail
      (.of_same last.1 last.2))

theorem yield_admissions (semaphore : Node) {env : CallEnv} {regs regs' : CPURegisters}
    {st st' : Tasking} (run : yield env regs st = some (regs', st'))
    : Admissions semaphore st st' := by
  rw [yield] at run
  split at run
  · exact (Prod.mk.inj (Option.some.inj run)).2 ▸ .refl
  · have marked : SameSemaphores st (st.setTask st.currentTask
        { st.tasks st.currentTask with status := .yield }) := ⟨rfl, rfl⟩
    exact (marked.admissions semaphore).trans (switchTask_admissions semaphore run)

theorem fork_semaphores (env : CallEnv) (regs : CPURegisters) (st : Tasking)
    : SameSemaphores st (fork env regs st).2 := by
  rw [fork]
  split
  · exact ⟨rfl, rfl⟩
  · exact runTask_semaphores _ _

-----------------------------------------------------------------------------------------
-- `semctl`
-----------------------------------------------------------------------------------------

theorem semctlWait_admissions (semaphore : Node) {node : Node} {env : CallEnv}
    {regs regs' : CPURegisters} {st st' : Tasking}
    (run : semctlWait env node regs st = some (regs', st'))
    : Admissions semaphore st st' := by
  rw [semctlWait] at run
  dsimp only at run
  split at run
  · rename_i positive
    obtain ⟨-, rfl⟩ := Prod.mk.inj (Option.some.inj run)
    exact .single (.take semaphore positive (Or.inr rfl))
  · simp only [Option.bind_eq_bind, Option.bind_eq_some_iff, Option.some.injEq,
      Prod.mk.injEq] at run
    obtain ⟨⟨switched, now⟩, switch, -, rfl⟩ := run
    have said : Admission semaphore st (st.print (.moving node st.currentTask)) :=
      .quiet rfl (fun task => (st.held_print _ _ _).trans (Int.zero_add _))
        ((st.taken_print _ _).trans (Int.zero_add _))
    have moved : SameSemaphores now (listMove st.currentTask node.queue now) := ⟨rfl, rfl⟩
    exact .head said ((switchTask_admissions semaphore switch).trans (moved.admissions semaphore))

/-- Signalling another semaphore concerns this one in no way. -/
theorem semctlSignal_other {semaphore node : Node} (other : node ≠ semaphore) (env : CallEnv)
    (st : Tasking)
    : Admission semaphore st (semctlSignal env node st) := by
  have held (task : Node)
      : (st.print (.signal node st.currentTask)).held semaphore task = st.held semaphore task := by
    simp [Tasking.held_print, SemaphoreLine.units, other]
  have taken : (st.print (.signal node st.currentTask)).taken semaphore = st.taken semaphore := by
    simp [Tasking.taken_print, SemaphoreLine.taken, other]
  rw [semctlSignal]
  dsimp only
  split
  · exact .quiet (Function.update_of_ne other.symm _ _) held taken
  · exact .quiet rfl held taken

theorem semctlInit_admission {semaphore : Node} {env : CallEnv}
    (fresh : Node.semaphore env.block ≠ semaphore) (args : Nat) (st : Tasking)
    : Admission semaphore st (semctlInit env args st).2 := by
  rw [semctlInit]
  split
  · exact .of_same rfl rfl
  · exact .quiet (Function.update_of_ne fresh.symm _ _) (fun _ => rfl) rfl

theorem semctlFree_semaphores (env : CallEnv) (node : Node) (st : Tasking)
    : SameSemaphores st (semctlFree env node st).2 := by
  rw [semctlFree]
  split <;> exact ⟨rfl, rfl⟩

theorem semctlOn_cases (semaphore : Node) {node : Node} {env : CallEnv} {command ret : Nat}
    {regs regs' : CPURegisters} {st st' : Tasking}
    (run : semctlOn env node command regs st = some (ret, regs', st'))
    : Admissions semaphore st st'
      ∨ command = semaphoreSignal ∧ node = semaphore ∧ st' = semctlSignal env semaphore st := by
  rw [semctlOn] at run
  split at run
  · rename_i signal
    obtain rfl := (Prod.mk.inj (Prod.mk.inj (Option.some.inj run)).2).2
    by_cases same : node = semaphore
    · exact Or.inr ⟨signal, same, by rw [same]⟩
    · exact Or.inl (.single (semctlSignal_other same env st))
  split at run
  · obtain ⟨⟨switched, now⟩, wait, result⟩ := Option.bind_eq_some_iff.mp run
    obtain rfl := (Prod.mk.inj (Prod.mk.inj (Option.some.inj result)).2).2
    exact Or.inl (semctlWait_admissions semaphore wait)
  split at run
  · obtain rfl := (Prod.mk.inj (Prod.mk.inj (Option.some.inj run)).2).2
    exact Or.inl ((semctlFree_semaphores env node st).admissions semaphore)
  · obtain rfl := (Prod.mk.inj (Prod.mk.inj (Option.some.inj run)).2).2
    exact Or.inl .refl

-----------------------------------------------------------------------------------------
-- One step of any task
-----------------------------------------------------------------------------------------

/-- The kernel operations through which tasks and semaphores meet. -/
inductive TaskStep where
  | semctl (env : CallEnv) (id command args : Nat) (regs : CPURegisters)
  | process (fuel : Nat)
  | timer (fuel : Nat) (regs : CPURegisters)
  | yield (env : CallEnv) (regs : CPURegisters)
  | fork (env : CallEnv) (regs : CPURegisters)
  | start (task : Node)

def TaskStep.run (st : Tasking) : TaskStep → Option Tasking
  | .semctl env id command args regs => (DeadKernel.semctl env id command args regs st).map (·.2.2)
  | .process fuel => semctlProcess fuel st
  | .timer fuel regs => (timerCallback fuel regs st).map (·.2)
  | .yield env regs => (DeadKernel.yield env regs st).map (·.2)
  | .fork env regs => some (DeadKernel.fork env regs st).2
  | .start task => some (runTask task st).2

/-- The step is a signal, and `semctl` finds this semaphore for it. -/
def TaskStep.Signals (semaphore : Node) (st : Tasking) : TaskStep → Prop
  | .semctl env id command _ _ =>
      command = semaphoreSignal ∧ searchSemaphore env id st = some (some semaphore)
  | _ => False

/-- `kmalloc` gives a new semaphore no block that is in use. -/
def TaskStep.Fresh (semaphore : Node) : TaskStep → Prop
  | .semctl env _ command _ _ =>
      command = semaphoreInit → Node.semaphore env.block ≠ semaphore
  | _ => True

/-- A signal of the semaphore finds a stack word that the count compares with as it does with
the semaphore's own initial value.
-/
def TaskStep.BoundHolds (semaphore : Node) (st : Tasking) (step : TaskStep) : Prop :=
  match step with
  | .semctl env _ _ _ _ =>
      step.Signals semaphore st →
        ((st.semaphores semaphore).count < env.stackWord
          ↔ (st.semaphores semaphore).count < (st.semaphores semaphore).initialValue)
  | _ => True

/-- Every step admits tasks one after another, or is a signal of the semaphore. -/
theorem TaskStep.run_cases {step : TaskStep} {semaphore : Node} {st st' : Tasking}
    (fresh : step.Fresh semaphore) (run : step.run st = some st')
    : Admissions semaphore st st'
      ∨ ∃ env id command args regs, step = .semctl env id command args regs
        ∧ step.Signals semaphore st ∧ st' = semctlSignal env semaphore st := by
  cases step with
  | process fuel => exact Or.inl (semctlProcess_admissions semaphore run)
  | timer fuel regs =>
      obtain ⟨⟨regs', now⟩, switch, rfl⟩ := Option.map_eq_some_iff.mp run
      exact Or.inl (switchTask_admissions semaphore switch)
  | yield env regs =>
      obtain ⟨⟨regs', now⟩, switch, rfl⟩ := Option.map_eq_some_iff.mp run
      exact Or.inl (yield_admissions semaphore switch)
  | fork env regs =>
      obtain rfl := Option.some.inj run
      exact Or.inl ((fork_semaphores env regs st).admissions semaphore)
  | start task =>
      obtain rfl := Option.some.inj run
      exact Or.inl ((runTask_semaphores task st).admissions semaphore)
  | semctl env id command args regs =>
      obtain ⟨⟨ret, regs', now⟩, call, rfl⟩ := Option.map_eq_some_iff.mp run
      rw [DeadKernel.semctl] at call
      split at call
      · obtain rfl := (Prod.mk.inj (Prod.mk.inj (Option.some.inj call)).2).2
        exact Or.inl .refl
      split at call
      · rename_i init
        obtain rfl := (Prod.mk.inj (Prod.mk.inj (Option.some.inj call)).2).2
        exact Or.inl (.single (semctlInit_admission (fresh init) args st))
      · cases search : searchSemaphore env id st with
        | none =>
            rw [search] at call
            contradiction
        | some found =>
            rw [search] at call
            cases found with
            | none =>
                obtain rfl := (Prod.mk.inj (Prod.mk.inj (Option.some.inj call)).2).2
                exact Or.inl .refl
            | some node =>
                rcases semctlOn_cases semaphore call with admissions | ⟨signal, rfl, rfl⟩
                · exact Or.inl admissions
                · exact Or.inr ⟨env, id, command, args, regs, rfl, ⟨signal, search⟩, rfl⟩

end DeadKernel
