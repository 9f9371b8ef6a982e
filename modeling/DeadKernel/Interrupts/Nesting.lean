import DeadKernel.Foundation.Words
import Mathlib.Tactic.IntervalCases

/-! The interrupt flag and the counter `__interruptsDisable`, instruction by instruction.
One counter serves all tasks and handlers, while the flag is saved in every frame.
-/

namespace DeadKernel

open Words

-----------------------------------------------------------------------------------------
-- Code
-----------------------------------------------------------------------------------------

/-- What the routines do to the flag and the counter. `other` is a run of instructions that touch
neither, and `jumpNonzero` tests the counter as it was loaded last. `call` enters the body of a
handler.
-/
inductive Instruction where
  | cli
  | sti
  | lockInc
  | lockDec
  | load
  | jumpNonzero (target : Nat)
  | pushf
  | popf
  | other
  | call
  | ret
  | iret
deriving DecidableEq

/-- `enter` and `leave` are the two halves of `ASMInterruptPreHandler`, `enter` with the stub in
front of it.
-/
inductive Routine where
  | disableInterrupts
  | enableInterrupts
  | copyPagePhysical
  | enter
  | leave
deriving DecidableEq

def Routine.code : Routine → List Instruction
  | .disableInterrupts =>
      [.cli, .lockInc, .other, .load, .jumpNonzero 7, .lockDec, .sti, .other, .ret]
  | .enableInterrupts =>
      [.cli, .other, .lockDec, .other, .load, .jumpNonzero 7, .sti, .other, .ret]
  | .copyPagePhysical => [.other, .pushf, .cli, .other, .sti, .popf, .other, .ret]
  | .enter => [.cli, .other, .lockInc, .other, .call]
  | .leave => [.other, .lockDec, .other, .sti, .iret]

-----------------------------------------------------------------------------------------
-- The processor
-----------------------------------------------------------------------------------------

/-- Between its calls, or at an instruction of a routine. -/
inductive Point where
  | body
  | inside (routine : Routine) (pc : Nat)
deriving DecidableEq

/-- A task or a handler: how many of its `__disableInterrupts` calls are open, where it is, and
what `eax` and the stack hold of the counter and the flag.
-/
structure Activity where
  handler : Bool
  depth : Nat
  point : Point
  loaded : Nat
  pushed : Bool
deriving DecidableEq

/-- An activity with the flag that its frame restores. -/
structure SavedFrame where
  activity : Activity
  flag : Bool
deriving DecidableEq

/-- `shadow` holds behind an STI until the next instruction is executed. `frames` are the
activities that were interrupted, the last one first, and `suspended` the other tasks.
-/
structure Processor where
  flag : Bool
  shadow : Bool
  counter : Nat
  current : Activity
  frames : List SavedFrame
  suspended : List SavedFrame
deriving DecidableEq

/-- What the running code does next where it has a choice: stay within a run of instructions, go
on, call a routine, or return to the frame of another task.
-/
inductive Choice where
  | stay
  | next
  | disable
  | enable
  | copy
  | switch (index : Nat)
deriving DecidableEq

inductive ProcessorEvent where
  | execute (choice : Choice)
  | interrupt
  | exception
deriving DecidableEq

def Processor.goto (point : Point) (cpu : Processor) : Processor :=
  { cpu with shadow := false, current := { cpu.current with point } }

/-- IRET, to the interrupted activity or to another task. -/
def Processor.iret (choice : Choice) (cpu : Processor) : Option Processor :=
  match cpu.frames with
  | [] => none
  | frame :: rest =>
      match choice with
      | .switch index =>
          match cpu.suspended[index]? with
          | none => none
          | some task =>
              some { cpu with
                flag := task.flag
                shadow := false
                current := task.activity
                frames := rest
                suspended := frame :: cpu.suspended.eraseIdx index }
      | _ =>
          some { cpu with
            flag := frame.flag
            shadow := false
            current := frame.activity
            frames := rest }

/-- One instruction of a routine. A call is open from its return on, until the return of the
call that closes it.
-/
def Processor.perform (choice : Choice) (routine : Routine) (pc : Nat) (cpu : Processor)
    : Instruction → Option Processor
  | .cli => some { cpu.goto (.inside routine (pc + 1)) with flag := false }
  | .sti => some { cpu.goto (.inside routine (pc + 1)) with flag := true, shadow := ! cpu.flag }
  | .lockInc =>
      some { cpu.goto (.inside routine (pc + 1)) with counter := u32 (cpu.counter + 1) }
  | .lockDec =>
      some { cpu.goto (.inside routine (pc + 1)) with
        counter := sub32 cpu.counter 1 }
  | .load =>
      some { cpu with
        shadow := false
        current := { cpu.current with
          point := .inside routine (pc + 1), loaded := cpu.counter } }
  | .jumpNonzero target =>
      some (cpu.goto (.inside routine (if cpu.current.loaded ≠ 0 then target else pc + 1)))
  | .pushf =>
      some { cpu with
        shadow := false
        current := { cpu.current with point := .inside routine (pc + 1), pushed := cpu.flag } }
  | .popf =>
      some { cpu.goto (.inside routine (pc + 1)) with flag := cpu.current.pushed }
  | .other => some (cpu.goto (.inside routine (if choice = .stay then pc else pc + 1)))
  | .call => some (cpu.goto .body)
  | .ret =>
      some { cpu with
        shadow := false
        current := { cpu.current with
          point := .body
          depth :=
            match routine with
            | .disableInterrupts => cpu.current.depth + 1
            | .enableInterrupts => cpu.current.depth - 1
            | _ => cpu.current.depth } }
  | .iret => cpu.iret choice

/-- The instruction of a routine that comes next. -/
def Processor.instruction (cpu : Processor) : Option Instruction :=
  match cpu.current.point with
  | .body => none
  | .inside routine pc => routine.code[pc]?

/-- In a body any instruction or call may come next that keeps the calls well nested; a handler
returns when it has no open calls.
-/
def Processor.execute (choice : Choice) (cpu : Processor) : Option Processor :=
  match cpu.current.point with
  | .inside routine pc => cpu.instruction.bind (cpu.perform choice routine pc)
  | .body =>
      match choice with
      | .stay => some (cpu.goto .body)
      | .disable => some (cpu.goto (.inside .disableInterrupts 0))
      | .enable =>
          if 0 < cpu.current.depth then some (cpu.goto (.inside .enableInterrupts 0)) else none
      | .copy => some (cpu.goto (.inside .copyPagePhysical 0))
      | .next =>
          if cpu.current.handler = true ∧ cpu.current.depth = 0 then
            some (cpu.goto (.inside .leave 0))
          else none
      | .switch _ => none

/-- Through an interrupt gate: the frame keeps the flag, and the handler starts with it clear. -/
def Processor.take (cpu : Processor) : Processor :=
  { cpu with
    flag := false
    shadow := false
    current := ⟨true, 0, .inside .enter 0, 0, false⟩
    frames := ⟨cpu.current, cpu.flag⟩ :: cpu.frames }

def Processor.step (cpu : Processor) : ProcessorEvent → Option Processor
  | .execute choice => cpu.execute choice
  | .interrupt => if cpu.flag = true ∧ cpu.shadow = false then some cpu.take else none
  | .exception => some cpu.take

def Activity.task : Activity := ⟨false, 0, .body, 0, false⟩

/-- A task that runs with interrupts enabled, beside others that were suspended so. -/
def Processor.start (others : Nat) : Processor where
  flag := true
  shadow := false
  counter := 0
  current := .task
  frames := []
  suspended := List.replicate others ⟨.task, true⟩

-----------------------------------------------------------------------------------------
-- What an activity adds to the counter
-----------------------------------------------------------------------------------------

/-- The activity's code runs with interrupts enabled: a task with no open call. -/
def Activity.plain (activity : Activity) : Bool := ! activity.handler && activity.depth = 0

/-- The increments of the counter that the activity has not taken back. -/
def Activity.level (activity : Activity) : Nat :=
  let own := activity.depth + (if activity.handler = true then 1 else 0)
  match activity.point with
  | .body => own
  | .inside .disableInterrupts pc => if 2 ≤ pc then own + 1 else own
  | .inside .enableInterrupts pc => if 3 ≤ pc then own - 1 else own
  | .inside .copyPagePhysical _ => own
  | .inside .enter pc => if 3 ≤ pc then 1 else 0
  | .inside .leave pc => if 2 ≤ pc then 0 else 1

/-- The flag while the activity runs. -/
def Activity.flagged (activity : Activity) : Bool :=
  match activity.point with
  | .body => activity.plain
  | .inside .disableInterrupts pc => pc = 0 && activity.plain
  | .inside .enableInterrupts pc => 7 ≤ pc && ! activity.handler && activity.depth = 1
  | .inside .copyPagePhysical pc => pc = 5 || (pc ≤ 2 || 6 ≤ pc) && activity.plain
  | .inside .enter _ => false
  | .inside .leave pc => pc = 4

/-- The flag is set by an STI whose next instruction restores it. -/
def Activity.shadowed (activity : Activity) : Bool :=
  activity.point = .inside .copyPagePhysical 5 || activity.point = .inside .leave 4

/-- Where the activity can be, and what it has loaded and pushed there. -/
def Activity.Ok (activity : Activity) : Prop :=
  match activity.point with
  | .body => True
  | .inside .disableInterrupts pc =>
      pc ≤ 8 ∧ pc ≠ 5 ∧ pc ≠ 6 ∧ (pc = 4 → activity.loaded ≠ 0)
  | .inside .enableInterrupts pc =>
      pc ≤ 8 ∧ 0 < activity.depth
        ∧ (pc = 5 → (activity.loaded = 0 ↔ activity.handler = false ∧ activity.depth = 1))
        ∧ (pc = 6 → activity.handler = false ∧ activity.depth = 1)
  | .inside .copyPagePhysical pc =>
      pc ≤ 7 ∧ (2 ≤ pc → pc ≤ 5 → activity.pushed = activity.plain)
  | .inside .enter pc | .inside .leave pc =>
      pc ≤ 4 ∧ activity.handler = true ∧ activity.depth = 0

structure SavedFrame.Ok (frame : SavedFrame) : Prop where
  activity : frame.activity.Ok
  flag : frame.flag = frame.activity.flagged
  open_ : frame.activity.shadowed = false

/-- A task has nothing below it, and everything above it is a handler. -/
def Stacked : Activity → List SavedFrame → Prop
  | activity, [] => activity.handler = false
  | activity, frame :: rest => activity.handler = true ∧ Stacked frame.activity rest

/-- The counter is what the running and the interrupted activities add to it, and every flag,
running or saved, is that of its activity.
-/
structure Nested (cpu : Processor) : Prop where
  counter : cpu.counter
    = cpu.current.level + (cpu.frames.map (fun frame => frame.activity.level)).sum
  below : cpu.counter < wordSize
  flag : cpu.flag = cpu.current.flagged
  shadow : cpu.current.shadowed = true → cpu.shadow = true
  current : cpu.current.Ok
  stacked : Stacked cpu.current cpu.frames
  frames : ∀ frame ∈ cpu.frames, frame.Ok
  suspended : ∀ frame ∈ cpu.suspended,
    frame.Ok ∧ frame.flag = true ∧ frame.activity.handler = false

theorem Activity.plain_iff {activity : Activity}
    : activity.plain = true ↔ activity.handler = false ∧ activity.depth = 0 := by
  simp only [Activity.plain, Bool.and_eq_true, Bool.not_eq_true', decide_eq_true_eq]

/-- Interrupts are enabled only in a task that adds nothing to the counter. -/
theorem Activity.Ok.of_flagged {activity : Activity} (h : activity.Ok)
    (flagged : activity.flagged = true) (settled : activity.shadowed = false)
    : activity.handler = false ∧ activity.level = 0 := by
  obtain ⟨handler, depth, point, loaded, pushed⟩ := activity
  cases point with
  | body =>
      obtain ⟨rfl, rfl⟩ := Activity.plain_iff.mp flagged
      exact ⟨rfl, rfl⟩
  | inside routine pc =>
      cases routine with
      | disableInterrupts =>
          obtain ⟨first, plain⟩ := Bool.and_eq_true_iff.mp flagged
          obtain rfl := of_decide_eq_true first
          obtain ⟨rfl, rfl⟩ := Activity.plain_iff.mp plain
          exact ⟨rfl, rfl⟩
      | enableInterrupts =>
          simp only [Activity.flagged, Bool.and_eq_true, decide_eq_true_eq,
            Bool.not_eq_true'] at flagged
          obtain ⟨⟨behind, rfl⟩, rfl⟩ := flagged
          refine ⟨rfl, ?_⟩
          simp only [Activity.level]
          rw [if_pos (by omega)]
          rfl
      | copyPagePhysical =>
          have plain : Activity.plain ⟨handler, depth, .body, loaded, pushed⟩ = true := by
            simp [Activity.flagged, Activity.shadowed] at flagged settled
            simp [Activity.plain] at flagged ⊢
            tauto
          obtain ⟨rfl, rfl⟩ := Activity.plain_iff.mp plain
          exact ⟨rfl, rfl⟩
      | enter => contradiction
      | leave =>
          obtain rfl : pc = 4 := of_decide_eq_true flagged
          contradiction

section Nested

variable {cpu cpu' : Processor}

/-- An instruction that moves the current activity within its code. -/
theorem Nested.moved (h : Nested cpu) (frames : cpu'.frames = cpu.frames)
    (suspended : cpu'.suspended = cpu.suspended)
    (handler : cpu'.current.handler = cpu.current.handler)
    (counter : cpu'.counter + cpu.current.level = cpu.counter + cpu'.current.level)
    (below : cpu'.counter < wordSize) (flag : cpu'.flag = cpu'.current.flagged)
    (shadow : cpu'.current.shadowed = true → cpu'.shadow = true) (current : cpu'.current.Ok)
    : Nested cpu' where
  counter := by
    have total := h.counter
    rw [frames]
    omega
  below := below
  flag := flag
  shadow := shadow
  current := current
  stacked := by
    have stacked := h.stacked
    rw [frames]
    generalize cpu.frames = below at stacked ⊢
    cases below with
    | nil => exact handler.trans stacked
    | cons frame rest => exact ⟨handler.trans stacked.1, stacked.2⟩
  frames := by
    rw [frames]
    exact h.frames
  suspended := by
    rw [suspended]
    exact h.suspended

/-- An interrupt or an exception puts a handler on top. -/
theorem Nested.take (h : Nested cpu) (settled : cpu.current.shadowed = false)
    : Nested cpu.take where
  counter := by
    have total := h.counter
    simp only [Processor.take, Activity.level, List.map_cons, List.sum_cons] at total ⊢
    rw [if_neg (by omega), Nat.zero_add]
    exact total
  below := h.below
  flag := rfl
  shadow shadowed := by contradiction
  current := ⟨Nat.zero_le 4, rfl, rfl⟩
  stacked := ⟨rfl, h.stacked⟩
  frames frame member := by
    rcases List.mem_cons.mp member with rfl | before
    · exact ⟨h.current, h.flag, settled⟩
    · exact h.frames frame before
  suspended := h.suspended

/-- An interrupt is taken with the counter at 0. -/
theorem Nested.interrupt (h : Nested cpu) (flag : cpu.flag = true) (shadow : cpu.shadow = false)
    : cpu.current.shadowed = false ∧ cpu.counter = 0 := by
  have settled : cpu.current.shadowed = false := by
    by_contra shadowed
    have held := h.shadow (eq_true_of_ne_false shadowed)
    rw [shadow] at held
    contradiction
  have flagged : cpu.current.flagged = true := by rw [← h.flag, flag]
  obtain ⟨task, level⟩ := h.current.of_flagged flagged settled
  have stacked := h.stacked
  have total := h.counter
  refine ⟨settled, ?_⟩
  cases none : cpu.frames with
  | nil =>
      rw [total, none, level]
      rfl
  | cons frame rest =>
      rw [none] at stacked
      exact absurd (stacked.1.symm.trans task) (by decide)

theorem Nested.level_le (h : Nested cpu) : cpu.current.level ≤ cpu.counter := by
  rw [h.counter]
  exact Nat.le_add_right _ _

/-- A run of other instructions stays where it is or goes on. -/
theorem Nested.other (h : Nested cpu) {routine : Routine} {pc : Nat}
    (here : cpu.current.point = .inside routine pc) (code : routine.code[pc]? = some .other)
    (settled : cpu.current.shadowed = false) {choice : Choice}
    (done : cpu.execute choice = some cpu')
    : Nested cpu' ∨ cpu' = cpu.goto (.inside routine (pc + 1)) := by
  simp only [Processor.execute, Processor.instruction, here, code] at done
  obtain rfl := Option.some.inj done
  by_cases stay : choice = .stay
  · rw [if_pos stay, ← here]
    refine Or.inl (h.moved rfl rfl rfl rfl h.below h.flag (fun shadowed => ?_) h.current)
    exact absurd (shadowed.symm.trans settled) (by decide)
  · rw [if_neg stay]
    exact Or.inr rfl

/-- Nothing is below a task. -/
theorem Nested.task_counter (h : Nested cpu) (task : cpu.current.handler = false)
    : cpu.counter = cpu.current.level := by
  have total := h.counter
  have stacked := h.stacked
  generalize cpu.frames = below at total stacked
  cases below with
  | nil => exact total
  | cons frame rest => exact absurd (stacked.1.symm.trans task) (by decide)

/-- The counter that `__enableInterrupts` loads. -/
theorem Nested.counter_zero_iff (h : Nested cpu)
    (here : cpu.current.point = .inside .enableInterrupts 4) (called : 0 < cpu.current.depth)
    : cpu.counter = 0 ↔ cpu.current.handler = false ∧ cpu.current.depth = 1 := by
  cases handler : cpu.current.handler with
  | false =>
      rw [h.task_counter handler]
      simp [Activity.level, here, handler]
      omega
  | true =>
      have level := h.level_le
      simp [Activity.level, here, handler] at level ⊢
      omega

-- Where the code is known, so are the level, the flag and what is loaded.
attribute [simp] Processor.goto Activity.plain Activity.level Activity.flagged Activity.shadowed
  Activity.Ok

/-- `__disableInterrupts`, by cases on its instructions. -/
theorem Nested.disableInterrupts (h : Nested cpu) {pc : Nat}
    (here : cpu.current.point = .inside .disableInterrupts pc)
    (bounded : cpu.instruction = some .lockInc → cpu.counter + 1 < wordSize)
    {choice : Choice} (done : cpu.execute choice = some cpu')
    : Nested cpu' := by
  have ok := h.current
  have flag := h.flag
  have level := h.level_le
  simp only [Activity.Ok, here] at ok
  simp only [Activity.flagged, here] at flag
  simp only [Activity.level, here] at level
  simp only [Processor.instruction, here] at bounded
  obtain ⟨bound, notDec, notSti, loaded⟩ := ok
  interval_cases pc
  · simp only [Processor.execute, Processor.instruction, here, Routine.code] at done
    obtain rfl := Option.some.inj done
    refine h.moved rfl rfl rfl ?_ h.below ?_ ?_ ?_
    all_goals simp [here]
  · simp only [Processor.execute, Processor.instruction, here, Routine.code] at done
    obtain rfl := Option.some.inj done
    have next := u32_of_lt (bounded rfl)
    refine h.moved rfl rfl rfl ?_ ?_ ?_ ?_ ?_
    all_goals simp [here, next, flag]
    · omega
    · exact bounded rfl
  · rcases h.other here rfl (by simp [here]) done with stays | rfl
    · exact stays
    refine h.moved rfl rfl rfl ?_ h.below ?_ ?_ ?_
    all_goals simp [here, flag]
  · simp only [Processor.execute, Processor.instruction, here, Routine.code] at done
    obtain rfl := Option.some.inj done
    have positive : cpu.counter ≠ 0 := by
      rw [if_pos (by decide)] at level
      omega
    refine h.moved rfl rfl rfl ?_ h.below ?_ ?_ ?_
    all_goals simp [here, flag, positive]
  · simp only [Processor.execute, Processor.instruction, here, Routine.code] at done
    obtain rfl := Option.some.inj done
    refine h.moved rfl rfl rfl ?_ h.below ?_ ?_ ?_
    all_goals simp [here, flag, loaded]
  · exact absurd rfl notDec
  · exact absurd rfl notSti
  · rcases h.other here rfl (by simp [here]) done with stays | rfl
    · exact stays
    refine h.moved rfl rfl rfl ?_ h.below ?_ ?_ ?_
    all_goals simp [here, flag]
  · simp only [Processor.execute, Processor.instruction, here, Routine.code] at done
    obtain rfl := Option.some.inj done
    refine h.moved rfl rfl rfl ?_ h.below ?_ ?_ ?_
    all_goals simp [here, flag]
    omega

/-- `__enableInterrupts`, which sets the flag when it has closed the last call of a task. -/
theorem Nested.enableInterrupts (h : Nested cpu) {pc : Nat}
    (here : cpu.current.point = .inside .enableInterrupts pc)
    {choice : Choice} (done : cpu.execute choice = some cpu')
    : Nested cpu' := by
  have ok := h.current
  have flag := h.flag
  have level := h.level_le
  simp only [Activity.Ok, here] at ok
  simp only [Activity.flagged, here] at flag
  simp only [Activity.level, here] at level
  obtain ⟨bound, called, loaded, last⟩ := ok
  interval_cases pc
  · simp only [Processor.execute, Processor.instruction, here, Routine.code] at done
    obtain rfl := Option.some.inj done
    refine h.moved rfl rfl rfl ?_ h.below ?_ ?_ ?_
    all_goals simp [here, called]
  · rcases h.other here rfl (by simp [here]) done with stays | rfl
    · exact stays
    refine h.moved rfl rfl rfl ?_ h.below ?_ ?_ ?_
    all_goals simp [here, called, flag]
  · simp only [Processor.execute, Processor.instruction, here, Routine.code] at done
    obtain rfl := Option.some.inj done
    rw [if_neg (by decide)] at level
    have taken := sub32_of_le h.below (by omega : 1 ≤ cpu.counter)
    refine h.moved rfl rfl rfl ?_ ?_ ?_ ?_ ?_
    all_goals simp [here, called, flag, taken]
    · omega
    · exact Nat.lt_of_le_of_lt (Nat.sub_le _ _) h.below
  · rcases h.other here rfl (by simp [here]) done with stays | rfl
    · exact stays
    refine h.moved rfl rfl rfl ?_ h.below ?_ ?_ ?_
    all_goals simp [here, called, flag]
  · simp only [Processor.execute, Processor.instruction, here, Routine.code] at done
    obtain rfl := Option.some.inj done
    have zero := h.counter_zero_iff here called
    refine h.moved rfl rfl rfl ?_ h.below ?_ ?_ ?_
    all_goals simp [here, called, flag, zero]
  · simp only [Processor.execute, Processor.instruction, here, Routine.code] at done
    obtain rfl := Option.some.inj done
    have zero := loaded rfl
    by_cases last : cpu.current.loaded = 0
    · obtain ⟨task, one⟩ := zero.mp last
      refine h.moved rfl rfl rfl ?_ h.below ?_ ?_ ?_
      all_goals simp [here, last, task, one, flag]
    · refine h.moved rfl rfl rfl ?_ h.below ?_ ?_ ?_
      all_goals simp [here, called, flag, last]
      exact fun task one => last (zero.mpr ⟨task, one⟩)
  · simp only [Processor.execute, Processor.instruction, here, Routine.code] at done
    obtain rfl := Option.some.inj done
    refine h.moved rfl rfl rfl ?_ h.below ?_ ?_ ?_
    all_goals simp [here, flag, last]
  · rcases h.other here rfl (by simp [here]) done with stays | rfl
    · exact stays
    refine h.moved rfl rfl rfl ?_ h.below ?_ ?_ ?_
    all_goals simp [here, called, flag]
  · simp only [Processor.execute, Processor.instruction, here, Routine.code] at done
    obtain rfl := Option.some.inj done
    have open_ : cpu.current.depth - 1 = 0 ↔ cpu.current.depth = 1 := by omega
    refine h.moved rfl rfl rfl ?_ h.below ?_ ?_ ?_
    all_goals simp [here, flag, open_]
    omega

/-- `copyPagePhysical`, whose STI lasts until the POPF behind it. -/
theorem Nested.copyPagePhysical (h : Nested cpu) {pc : Nat}
    (here : cpu.current.point = .inside .copyPagePhysical pc)
    {choice : Choice} (done : cpu.execute choice = some cpu')
    : Nested cpu' := by
  have ok := h.current
  have flag := h.flag
  have level := h.level_le
  simp only [Activity.Ok, here] at ok
  simp only [Activity.flagged, here] at flag
  simp only [Activity.level, here] at level
  obtain ⟨bound, pushed⟩ := ok
  interval_cases pc
  · rcases h.other here rfl (by simp [here]) done with stays | rfl
    · exact stays
    refine h.moved rfl rfl rfl ?_ h.below ?_ ?_ ?_
    all_goals simp [here, flag]
  · simp only [Processor.execute, Processor.instruction, here, Routine.code] at done
    obtain rfl := Option.some.inj done
    refine h.moved rfl rfl rfl ?_ h.below ?_ ?_ ?_
    all_goals simp [here, flag]
  · simp only [Processor.execute, Processor.instruction, here, Routine.code] at done
    obtain rfl := Option.some.inj done
    refine h.moved rfl rfl rfl ?_ h.below ?_ ?_ ?_
    all_goals simp [here, flag, pushed]
  · rcases h.other here rfl (by simp [here]) done with stays | rfl
    · exact stays
    refine h.moved rfl rfl rfl ?_ h.below ?_ ?_ ?_
    all_goals simp [here, flag, pushed]
  · simp only [Processor.execute, Processor.instruction, here, Routine.code] at done
    obtain rfl := Option.some.inj done
    refine h.moved rfl rfl rfl ?_ h.below ?_ ?_ ?_
    all_goals simp [here, flag, pushed]
  · simp only [Processor.execute, Processor.instruction, here, Routine.code] at done
    obtain rfl := Option.some.inj done
    refine h.moved rfl rfl rfl ?_ h.below ?_ ?_ ?_
    all_goals simp [here, flag, pushed]
  · rcases h.other here rfl (by simp [here]) done with stays | rfl
    · exact stays
    refine h.moved rfl rfl rfl ?_ h.below ?_ ?_ ?_
    all_goals simp [here, flag]
  · simp only [Processor.execute, Processor.instruction, here, Routine.code] at done
    obtain rfl := Option.some.inj done
    refine h.moved rfl rfl rfl ?_ h.below ?_ ?_ ?_
    all_goals simp [here, flag]

/-- The entry of a handler. -/
theorem Nested.enter (h : Nested cpu) {pc : Nat}
    (here : cpu.current.point = .inside .enter pc)
    (bounded : cpu.instruction = some .lockInc → cpu.counter + 1 < wordSize)
    {choice : Choice} (done : cpu.execute choice = some cpu')
    : Nested cpu' := by
  have ok := h.current
  have flag := h.flag
  have level := h.level_le
  simp only [Activity.Ok, here] at ok
  simp only [Activity.flagged, here] at flag
  simp only [Activity.level, here] at level
  simp only [Processor.instruction, here] at bounded
  obtain ⟨bound, handler, closed⟩ := ok
  interval_cases pc
  · simp only [Processor.execute, Processor.instruction, here, Routine.code] at done
    obtain rfl := Option.some.inj done
    refine h.moved rfl rfl rfl ?_ h.below ?_ ?_ ?_
    all_goals simp [here, handler, closed]
  · rcases h.other here rfl (by simp [here]) done with stays | rfl
    · exact stays
    refine h.moved rfl rfl rfl ?_ h.below ?_ ?_ ?_
    all_goals simp [here, handler, closed, flag]
  · simp only [Processor.execute, Processor.instruction, here, Routine.code] at done
    obtain rfl := Option.some.inj done
    have next := u32_of_lt (bounded rfl)
    refine h.moved rfl rfl rfl ?_ ?_ ?_ ?_ ?_
    all_goals simp [here, next, flag, handler, closed]
    exact bounded rfl
  · rcases h.other here rfl (by simp [here]) done with stays | rfl
    · exact stays
    refine h.moved rfl rfl rfl ?_ h.below ?_ ?_ ?_
    all_goals simp [here, handler, closed, flag]
  · simp only [Processor.execute, Processor.instruction, here, Routine.code] at done
    obtain rfl := Option.some.inj done
    refine h.moved rfl rfl rfl ?_ h.below ?_ ?_ ?_
    all_goals simp [here, handler, closed, flag]

/-- The way out of a handler, up to its IRET. -/
theorem Nested.leave (h : Nested cpu) {pc : Nat}
    (here : cpu.current.point = .inside .leave pc) (inside : pc ≠ 4)
    {choice : Choice} (done : cpu.execute choice = some cpu')
    : Nested cpu' := by
  have ok := h.current
  have flag := h.flag
  have level := h.level_le
  simp only [Activity.Ok, here] at ok
  simp only [Activity.flagged, here] at flag
  simp only [Activity.level, here] at level
  obtain ⟨bound, handler, closed⟩ := ok
  interval_cases pc
  · rcases h.other here rfl (by simp [here]) done with stays | rfl
    · exact stays
    refine h.moved rfl rfl rfl ?_ h.below ?_ ?_ ?_
    all_goals simp [here, handler, closed, flag]
  · simp only [Processor.execute, Processor.instruction, here, Routine.code] at done
    obtain rfl := Option.some.inj done
    rw [if_neg (by decide)] at level
    have taken := sub32_of_le h.below level
    refine h.moved rfl rfl rfl ?_ ?_ ?_ ?_ ?_
    all_goals simp [here, handler, closed, flag, taken]
    · omega
    · exact Nat.lt_of_le_of_lt (Nat.sub_le _ _) h.below
  · rcases h.other here rfl (by simp [here]) done with stays | rfl
    · exact stays
    refine h.moved rfl rfl rfl ?_ h.below ?_ ?_ ?_
    all_goals simp [here, handler, closed, flag]
  · simp only [Processor.execute, Processor.instruction, here, Routine.code] at done
    obtain rfl := Option.some.inj done
    refine h.moved rfl rfl rfl ?_ h.below ?_ ?_ ?_
    all_goals simp [here, handler, closed, flag]
  · exact absurd rfl inside

/-- IRET goes back to the interrupted activity, or from a task that could be interrupted to
another one.
-/
theorem Nested.iret (h : Nested cpu) (here : cpu.current.point = .inside .leave 4)
    {choice : Choice}
    (enabled : ∀ index, choice = .switch index → ∀ frame ∈ cpu.frames.head?, frame.flag = true)
    (done : cpu.execute choice = some cpu')
    : Nested cpu' := by
  have total := h.counter
  have stacked := h.stacked
  have known := h.frames
  have own : cpu.current.level = 0 := by simp [here]
  simp only [Processor.execute, Processor.instruction, here, Routine.code] at done
  change cpu.iret choice = some cpu' at done
  rw [own, Nat.zero_add] at total
  rw [Processor.iret] at done
  generalize same : cpu.frames = frames at done total stacked known enabled
  cases frames with
  | nil => contradiction
  | cons frame rest =>
      have saved := known frame List.mem_cons_self
      have back : Nested { cpu with
          flag := frame.flag, shadow := false, current := frame.activity, frames := rest } :=
        ⟨total, h.below, saved.flag, fun shadowed => absurd (shadowed.symm.trans saved.open_)
          (by decide), saved.activity, stacked.2, fun other member =>
          known other (List.mem_cons_of_mem _ member), h.suspended⟩
      cases choice with
      | switch index =>
          have flag := enabled index rfl frame rfl
          have flagged : frame.activity.flagged = true := saved.flag.symm.trans flag
          obtain ⟨task, level⟩ := saved.activity.of_flagged flagged saved.open_
          obtain rfl : rest = [] := by
            cases rest with
            | nil => rfl
            | cons below rest => exact absurd (stacked.2.1.symm.trans task) (by decide)
          have zero : cpu.counter = 0 := by
            rw [total, List.map_singleton, List.sum_singleton, level]
          dsimp only at done
          cases chosen : cpu.suspended[index]? with
          | none =>
              rw [chosen] at done
              contradiction
          | some other =>
              rw [chosen] at done
              obtain rfl := Option.some.inj done
              obtain ⟨ok, enabled, isTask⟩ := h.suspended other (List.mem_of_getElem? chosen)
              obtain ⟨-, nothing⟩ := ok.activity.of_flagged (ok.flag.symm.trans enabled) ok.open_
              refine ⟨?_, h.below, ok.flag, fun shadowed => absurd (shadowed.symm.trans ok.open_)
                (by decide), ok.activity, isTask, fun _ none => absurd none List.not_mem_nil,
                fun suspended member => ?_⟩
              · rw [nothing]
                exact zero
              · rcases List.mem_cons.mp member with rfl | before
                · exact ⟨saved, flag, task⟩
                · exact h.suspended suspended (List.mem_of_mem_eraseIdx before)
      | stay | next | disable | enable | copy =>
          obtain rfl := Option.some.inj done
          exact back

/-- A call, a return, or any other instruction of a task or a handler. -/
theorem Nested.body (h : Nested cpu) (here : cpu.current.point = .body) {choice : Choice}
    (done : cpu.execute choice = some cpu')
    : Nested cpu' := by
  have flag := h.flag
  simp only [Activity.flagged, here, Activity.plain] at flag
  simp only [Processor.execute, here] at done
  cases choice with
  | stay | disable | copy =>
      obtain rfl := Option.some.inj done
      refine h.moved rfl rfl rfl ?_ h.below ?_ ?_ ?_
      all_goals simp [here, flag]
  | enable =>
      obtain ⟨called, same⟩ := Option.ite_none_right_eq_some.mp done
      obtain rfl := Option.some.inj same
      have some : cpu.current.depth ≠ 0 := Nat.ne_of_gt called
      refine h.moved rfl rfl rfl ?_ h.below ?_ ?_ ?_
      all_goals simp [here, flag, called, some]
  | next =>
      obtain ⟨⟨handler, closed⟩, same⟩ := Option.ite_none_right_eq_some.mp done
      obtain rfl := Option.some.inj same
      refine h.moved rfl rfl rfl ?_ h.below ?_ ?_ ?_
      all_goals simp [here, flag, handler, closed]
  | switch index => contradiction

end Nested

-----------------------------------------------------------------------------------------
-- Runs
-----------------------------------------------------------------------------------------

/-- Fewer than 2^32 increments are open, a handler switches only from a task that was interrupted
with interrupts enabled, and no exception is raised by the instruction behind an STI that restores
the flag.
-/
def Processor.Disciplined (cpu : Processor) : ProcessorEvent → Prop
  | .execute choice =>
      (cpu.instruction = some .lockInc → cpu.counter + 1 < wordSize)
      ∧ (cpu.instruction = some .iret → ∀ index, choice = .switch index
        → ∀ frame ∈ cpu.frames.head?, frame.flag = true)
  | .interrupt => True
  | .exception => cpu.instruction ≠ some .popf ∧ cpu.instruction ≠ some .iret

/-- What one event keeps. -/
theorem Nested.step {cpu cpu' : Processor} (h : Nested cpu) {event : ProcessorEvent}
    (disciplined : cpu.Disciplined event) (done : cpu.step event = some cpu')
    : Nested cpu' := by
  cases event with
  | interrupt =>
      obtain ⟨⟨flag, shadow⟩, taken⟩ := Option.ite_none_right_eq_some.mp done
      obtain rfl := Option.some.inj taken
      exact h.take (h.interrupt flag shadow).1
  | exception =>
      obtain rfl := Option.some.inj done
      obtain ⟨notPopf, notIret⟩ := disciplined
      refine h.take ?_
      by_contra shadowed
      simp only [Activity.shadowed, Bool.or_eq_false_iff, decide_eq_false_iff_not, not_and_or,
        not_not] at shadowed
      rcases shadowed with here | here
      · exact notPopf (by rw [Processor.instruction, here]; rfl)
      · exact notIret (by rw [Processor.instruction, here]; rfl)
  | execute choice =>
      obtain ⟨bounded, enabled⟩ := disciplined
      cases here : cpu.current.point with
      | body => exact h.body here done
      | inside routine pc =>
          cases routine with
          | disableInterrupts => exact h.disableInterrupts here bounded done
          | enableInterrupts => exact h.enableInterrupts here done
          | copyPagePhysical => exact h.copyPagePhysical here done
          | enter => exact h.enter here bounded done
          | leave =>
              by_cases last : pc = 4
              · subst last
                refine h.iret here (enabled ?_) done
                rw [Processor.instruction, here]
                rfl
              · exact h.leave here last done

end DeadKernel
