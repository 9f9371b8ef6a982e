import DeadKernel.Foundation.Permits
import DeadKernel.Multitasking.SemaphoreUnits

/-! Every run of a semaphore whose signals find the right bound on their stack keeps the
count between zero and the initial value, and, when no task signals a unit it does not hold,
keeps the sum of the count and the units held. With one unit this is mutual exclusion.
-/

namespace DeadKernel

open Permits

-----------------------------------------------------------------------------------------
-- Counts
-----------------------------------------------------------------------------------------

/-- A count that `atomic_load` finds positive goes down by one. -/
theorem count_pred {count : BitVec 32} (positive : 0 < count.toInt)
    : 0 < count.toNat ∧ (count - 1).toNat = count.toNat - 1 := by
  rw [BitVec.toInt_eq_toNat_cond] at positive
  have some : 0 < count.toNat := by
    split at positive <;> omega
  exact ⟨some, by bv_omega⟩

/-- A count below another word goes up by one. -/
theorem count_succ {count bound : BitVec 32} (below : count < bound)
    : (count + 1).toNat = count.toNat + 1 := by
  bv_omega

/-- The count lies between zero and the initial value. -/
structure Capped (semaphore : Node) (value : BitVec 32) (st : Tasking) : Prop where
  initial : (st.semaphores semaphore).initialValue = value
  cap : (st.semaphores semaphore).count.toNat ≤ value.toNat

theorem Capped.admission {semaphore : Node} {value : BitVec 32} {st st' : Tasking}
    (h : Capped semaphore value st) (step : Admission semaphore st st')
    : Capped semaphore value st' := by
  cases step with
  | quiet record => exact ⟨by rw [record, h.initial], by rw [record]; exact h.cap⟩
  | grant task positive record =>
      have lower := (count_pred positive).2
      have cap := h.cap
      refine ⟨by rw [record]; exact h.initial, ?_⟩
      rw [record]
      dsimp only
      omega

theorem Capped.admissions {semaphore : Node} {value : BitVec 32} {st st' : Tasking}
    (h : Capped semaphore value st) (steps : Admissions semaphore st st')
    : Capped semaphore value st' := by
  induction steps with
  | refl => exact h
  | tail _ step ih => exact ih.admission step

theorem semctlSignal_self (env : CallEnv) (semaphore : Node) (st : Tasking)
    : (semctlSignal env semaphore st).semaphores semaphore
        = { st.semaphores semaphore with
            count := if (st.semaphores semaphore).count < env.stackWord
              then (st.semaphores semaphore).count + 1 else (st.semaphores semaphore).count }
      ∧ (semctlSignal env semaphore st).serial
        = .signal semaphore st.currentTask :: st.serial := by
  by_cases below : (st.semaphores semaphore).count < env.stackWord
  · simp [semctlSignal, Tasking.print, Tasking.setSemaphore, below]
  · simp [semctlSignal, Tasking.print, below]

theorem Capped.signal {semaphore : Node} {value : BitVec 32} {st : Tasking} {env : CallEnv}
    (h : Capped semaphore value st)
    (bound : (st.semaphores semaphore).count < env.stackWord
      ↔ (st.semaphores semaphore).count < (st.semaphores semaphore).initialValue)
    : Capped semaphore value (semctlSignal env semaphore st) := by
  have record := (semctlSignal_self env semaphore st).1
  refine ⟨by rw [record]; exact h.initial, ?_⟩
  rw [record]
  dsimp only
  split
  · rename_i below
    have less : (st.semaphores semaphore).count < value := by
      rw [← h.initial]
      exact bound.mp below
    have less' : (st.semaphores semaphore).count.toNat < value.toNat := less
    rw [count_succ less]
    omega
  · exact h.cap

-----------------------------------------------------------------------------------------
-- The ledger behind a disciplined run
-----------------------------------------------------------------------------------------

/-- The ledger accounts for everything admitted and signalled since `base`. -/
structure Represents (semaphore : Node) (value : BitVec 32) (base st : Tasking)
    (ledger : Ledger Node value.toNat) : Prop where
  initial : (st.semaphores semaphore).initialValue = value
  free : (st.semaphores semaphore).count.toNat = ledger.free
  held : ∀ task, st.held semaphore task - base.held semaphore task = ledger.holders.count task
  taken : st.taken semaphore - base.taken semaphore = ledger.holders.length

theorem Represents.admission {semaphore : Node} {value : BitVec 32} {base st st' : Tasking}
    {ledger : Ledger Node value.toNat} (h : Represents semaphore value base st ledger)
    (step : Admission semaphore st st')
    : ∃ ledger', Represents semaphore value base st' ledger' := by
  cases step with
  | quiet record held taken =>
      exact ⟨ledger, by rw [record, h.initial], by rw [record, h.free],
        fun task => by rw [held, h.held], by rw [taken, h.taken]⟩
  | grant task positive record held taken =>
      obtain ⟨some, lower⟩ := count_pred positive
      have available : 0 < ledger.free := h.free ▸ some
      refine ⟨ledger.grant task available, by rw [record]; exact h.initial, ?_, ?_, ?_⟩
      · rw [record]
        dsimp only [Ledger.grant]
        rw [lower, h.free]
      · intro other
        have before := h.held other
        simp only [held, Ledger.grant, List.count_cons, beq_iff_eq]
        by_cases same : task = other
        · simp only [if_pos same]
          omega
        · simp only [if_neg same]
          omega
      · have before := h.taken
        simp only [taken, Ledger.grant, List.length_cons]
        omega

theorem Represents.admissions {semaphore : Node} {value : BitVec 32} {base st st' : Tasking}
    {ledger : Ledger Node value.toNat} (h : Represents semaphore value base st ledger)
    (steps : Admissions semaphore st st')
    : ∃ ledger', Represents semaphore value base st' ledger' := by
  induction steps with
  | refl => exact ⟨ledger, h⟩
  | tail _ step ih =>
      obtain ⟨between, represents⟩ := ih
      exact represents.admission step

/-- A signal by a holder gives its unit back: the count is below the initial value. -/
theorem Represents.signal {semaphore : Node} {value : BitVec 32} {base st : Tasking}
    {ledger : Ledger Node value.toNat} (h : Represents semaphore value base st ledger)
    {env : CallEnv}
    (bound : (st.semaphores semaphore).count < env.stackWord
      ↔ (st.semaphores semaphore).count < (st.semaphores semaphore).initialValue)
    (disciplined : 0 < st.held semaphore st.currentTask - base.held semaphore st.currentTask)
    : ∃ ledger', Represents semaphore value base (semctlSignal env semaphore st) ledger' := by
  obtain ⟨record, serial⟩ := semctlSignal_self env semaphore st
  have holds : st.currentTask ∈ ledger.holders := by
    rw [h.held] at disciplined
    exact List.count_pos_iff.mp (by exact_mod_cast disciplined)
  have less : (st.semaphores semaphore).count < value := by
    have room := ledger.free_lt_of_held holds
    rw [← h.free] at room
    exact room
  have below : (st.semaphores semaphore).count < env.stackWord :=
    bound.mpr (by rw [h.initial]; exact less)
  refine ⟨ledger.give st.currentTask holds, by rw [record]; exact h.initial, ?_, ?_, ?_⟩
  · rw [record]
    dsimp only [Ledger.give]
    rw [if_pos below, count_succ less, h.free]
  · intro other
    have before := h.held other
    have now : (semctlSignal env semaphore st).held semaphore other
        = (if st.currentTask = other then -1 else 0) + st.held semaphore other := by
      simp [Tasking.held, serial, SemaphoreLine.units]
    have some : 0 < ledger.holders.count st.currentTask := List.count_pos_iff.mpr holds
    rw [now]
    dsimp only [Ledger.give]
    rw [List.count_erase]
    by_cases same : st.currentTask = other
    · subst same
      simp only [if_true, beq_self_eq_true] at before ⊢
      omega
    · simp only [if_neg same, beq_iff_eq] at before ⊢
      omega
  · have before := h.taken
    have now : (semctlSignal env semaphore st).taken semaphore
        = -1 + st.taken semaphore := by
      simp [Tasking.taken, serial, SemaphoreLine.taken]
    have some := List.length_pos_of_mem holds
    rw [now]
    dsimp only [Ledger.give]
    rw [List.length_erase_of_mem holds]
    omega

-----------------------------------------------------------------------------------------
-- Runs
-----------------------------------------------------------------------------------------

/-- A step of any task, whose signals find the semaphore's own bound. -/
def SoundStep (semaphore : Node) (st st' : Tasking) : Prop :=
  ∃ step : TaskStep, step.Fresh semaphore ∧ step.BoundHolds semaphore st
    ∧ step.run st = some st'

/-- Such a step that signals only a unit its task was admitted for since `base`. -/
def DisciplinedStep (semaphore : Node) (base st st' : Tasking) : Prop :=
  ∃ step : TaskStep, step.Fresh semaphore ∧ step.BoundHolds semaphore st
    ∧ (step.Signals semaphore st
      → 0 < st.held semaphore st.currentTask - base.held semaphore st.currentTask)
    ∧ step.run st = some st'

theorem SoundStep.capped {semaphore : Node} {value : BitVec 32} {st st' : Tasking}
    (h : Capped semaphore value st) (step : SoundStep semaphore st st')
    : Capped semaphore value st' := by
  obtain ⟨step, fresh, bound, run⟩ := step
  rcases TaskStep.run_cases fresh run with
    admissions | ⟨env, id, command, args, regs, rfl, signals, rfl⟩
  · exact h.admissions admissions
  · exact h.signal (bound signals)

theorem DisciplinedStep.represents {semaphore : Node} {value : BitVec 32}
    {base st st' : Tasking} {ledger : Ledger Node value.toNat}
    (h : Represents semaphore value base st ledger)
    (step : DisciplinedStep semaphore base st st')
    : ∃ ledger', Represents semaphore value base st' ledger' := by
  obtain ⟨step, fresh, bound, disciplined, run⟩ := step
  rcases TaskStep.run_cases fresh run with
    admissions | ⟨env, id, command, args, regs, rfl, signals, rfl⟩
  · exact h.admissions admissions
  · exact h.signal (bound signals) (disciplined signals)

/-- `semctl(SEMAPHORE_INIT)` makes a semaphore with all of its units free. -/
theorem semctl_init {env : CallEnv} {id args ret : Nat} {regs regs' : CPURegisters}
    {st st' : Tasking}
    (created : semctl env id semaphoreInit args regs st = some (ret, regs', st'))
    (ready : st.semctlReady = true) (given : args ≠ 0)
    : ∃ named, st'.semaphores (.semaphore env.block) = ⟨named, env.userWord, env.userWord⟩ := by
  rw [semctl, ready, if_neg Bool.noConfusion, if_pos rfl, semctlInit, if_neg given] at created
  obtain rfl := (Prod.mk.inj (Prod.mk.inj (Option.some.inj created)).2).2
  exact ⟨_, Function.update_self _ _ _⟩

theorem disciplined_represents {semaphore : Node} {value : BitVec 32} {named : Nat}
    {base st : Tasking} (fresh : base.semaphores semaphore = ⟨named, value, value⟩)
    (run : Relation.ReflTransGen (DisciplinedStep semaphore base) base st)
    : ∃ ledger, Represents semaphore value base st ledger := by
  induction run with
  | refl =>
      exact ⟨.full value.toNat, by rw [fresh], by rw [fresh]; rfl,
        fun task => by simp [Ledger.full], by simp [Ledger.full]⟩
  | tail _ step ih =>
      obtain ⟨ledger, represents⟩ := ih
      exact step.represents represents

/-- With one unit, two holders are one task. -/
theorem Represents.exclusive {semaphore : Node} {base st : Tasking}
    {ledger : Ledger Node (1 : BitVec 32).toNat} (h : Represents semaphore 1 base st ledger)
    {task other : Node} (holds : 0 < st.held semaphore task - base.held semaphore task)
    (holds' : 0 < st.held semaphore other - base.held semaphore other)
    : task = other := by
  rw [h.held] at holds holds'
  exact ledger.exclusive (List.count_pos_iff.mp (by exact_mod_cast holds))
    (List.count_pos_iff.mp (by exact_mod_cast holds'))

/-- Every run of sound steps keeps the count between zero and the initial value, and every
disciplined one keeps the units: those left and those held are all there are, and one unit has
one holder at most.
-/
theorem semaphore_conserved {env : CallEnv} {id args ret : Nat} {regs regs' : CPURegisters}
    {before base : Tasking}
    (created : semctl env id semaphoreInit args regs before = some (ret, regs', base))
    (ready : before.semctlReady = true) (given : args ≠ 0)
    (small : env.userWord.toNat < 2147483648)
    : (∀ st, Relation.ReflTransGen (SoundStep (.semaphore env.block)) base st
        → 0 ≤ (st.semaphores (.semaphore env.block)).count.toInt
          ∧ (st.semaphores (.semaphore env.block)).count.toInt ≤ env.userWord.toNat)
      ∧ ∀ st, Relation.ReflTransGen (DisciplinedStep (.semaphore env.block) base) base st
        → (st.semaphores (.semaphore env.block)).count.toInt
            + (st.taken (.semaphore env.block) - base.taken (.semaphore env.block))
            = env.userWord.toNat
          ∧ (∀ task, 0 ≤ st.held (.semaphore env.block) task
            - base.held (.semaphore env.block) task)
          ∧ (env.userWord = 1 → ∀ task other,
            0 < st.held (.semaphore env.block) task - base.held (.semaphore env.block) task
            → 0 < st.held (.semaphore env.block) other - base.held (.semaphore env.block) other
            → task = other) := by
  obtain ⟨named, fresh⟩ := semctl_init created ready given
  have signed {count : BitVec 32} (cap : count.toNat ≤ env.userWord.toNat)
      : count.toInt = count.toNat := BitVec.toInt_eq_toNat_of_lt (by omega)
  constructor
  · intro st run
    have capped : Capped (.semaphore env.block) env.userWord st := by
      induction run with
      | refl => exact ⟨by rw [fresh], by rw [fresh]⟩
      | tail _ step ih => exact step.capped ih
    have cap := capped.cap
    rw [signed cap]
    omega
  · intro st run
    obtain ⟨ledger, represents⟩ := disciplined_represents fresh run
    have cap : (st.semaphores (.semaphore env.block)).count.toNat ≤ env.userWord.toNat := by
      rw [represents.free]
      exact ledger.free_le
    refine ⟨?_, fun task => ?_, ?_⟩
    · have balance := ledger.balance
      rw [signed cap, represents.free, represents.taken]
      omega
    · rw [represents.held]
      omega
    · intro single task other
      rw [single] at fresh
      obtain ⟨ledger, represents⟩ := disciplined_represents fresh run
      exact represents.exclusive

/-- A mutex made by `mutex_init` is held by one task at most. -/
theorem mutex_exclusive {env : CallEnv} {initial ret : Nat} {regs regs' : CPURegisters}
    {before base st : Tasking}
    (created : mutexInit env initial regs before = some (ret, regs', base))
    (ready : before.semctlReady = true) (given : initial ≠ 0)
    (run : Relation.ReflTransGen (DisciplinedStep (.semaphore env.block) base) base st)
    {task other : Node}
    (holds : 0 < st.held (.semaphore env.block) task - base.held (.semaphore env.block) task)
    (holds' : 0 < st.held (.semaphore env.block) other
      - base.held (.semaphore env.block) other)
    : task = other := by
  obtain ⟨named, fresh⟩ := semctl_init created ready given
  obtain ⟨ledger, represents⟩ := disciplined_represents fresh run
  exact represents.exclusive holds holds'

-----------------------------------------------------------------------------------------
-- One task and one semaphore
-----------------------------------------------------------------------------------------

/-- A kernel that runs task 1 alone and has no semaphore. -/
def loneTask : Tasking where
  links := fun node =>
    if node = .mainQueue then (.task 1, .task 1)
    else if node = .task 1 then (.mainQueue, .mainQueue)
    else (node, node)
  tasks := fun _ => { Task.zero with status := .running }
  semaphores := fun _ => ⟨0, 0, 0⟩
  kernelTask := .task 1
  currentTask := .task 1
  nextPID := 1
  nextSemaphoreID := 1
  semctlReady := true
  kernelStack := 0
  destroyed := []
  serial := []

/-- A call that finds `stackWord` on its stack and 1 as the value of a new semaphore. -/
def callWith (stackWord : BitVec 32) : CallEnv := ⟨2, stackWord, 1, 9, 0, 0, 0, 0⟩

/-- `loneTask` with a semaphore of one unit. -/
def oneUnit : Tasking := (semctlInit (callWith 0) 1 loneTask).2

/-- `oneUnit` behind `semctl(SEMAPHORE_WAIT)`. -/
def oneUnitTaken : Tasking :=
  (oneUnit.print (.passing (.semaphore 9) (.task 1))).setSemaphore (.semaphore 9) ⟨1, 1, 0⟩

theorem oneUnit_wait
    : (TaskStep.semctl (callWith 0) 1 semaphoreWait 0 .zero).run oneUnit = some oneUnitTaken :=
  rfl

/-- A unit taken by a wait: none is left and one is held. -/
theorem semaphore_conserved_wait
    : (oneUnitTaken.semaphores (.semaphore 9)).count.toInt
        + (oneUnitTaken.taken (.semaphore 9) - oneUnit.taken (.semaphore 9)) = 1 := by
  have created : semctl (callWith 0) 0 semaphoreInit 1 .zero loneTask
      = some (1, .zero, oneUnit) := rfl
  have conserved := semaphore_conserved created rfl (by decide) (by decide)
  refine (conserved.2 oneUnitTaken (.single ⟨_, ?_, ?_, ?_, oneUnit_wait⟩)).1
  · exact fun no => absurd no (by decide)
  · exact fun signals => absurd signals.1 (by decide)
  · exact fun signals => absurd signals.1 (by decide)

/-- A signal that finds 5 on its stack raises the count above the initial value 1, and one that
finds 0 loses the unit its task was admitted for.
-/
theorem semaphore_not_conserved
    : (∃ st, (TaskStep.semctl (callWith 5) 1 semaphoreSignal 0 .zero).run oneUnit = some st
        ∧ (st.semaphores (.semaphore 9)).count = 2)
      ∧ 0 < oneUnitTaken.held (.semaphore 9) (.task 1) - oneUnit.held (.semaphore 9) (.task 1)
      ∧ ∃ st, (TaskStep.semctl (callWith 0) 1 semaphoreSignal 0 .zero).run oneUnitTaken = some st
        ∧ (st.semaphores (.semaphore 9)).count = 0
        ∧ st.taken (.semaphore 9) - oneUnit.taken (.semaphore 9) = 0 :=
  ⟨⟨_, rfl, by decide⟩, by decide, _, rfl, by decide, by decide⟩

end DeadKernel
