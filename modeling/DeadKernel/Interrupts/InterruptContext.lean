import Mathlib.Data.List.Induction

/-! The interrupted context. `MainInterruptHandler` keeps the frame of its caller in one variable,
which it overwrites when it starts and clears when it ends, also where it returns to a handler.
-/

namespace DeadKernel

-----------------------------------------------------------------------------------------
-- Frames and handlers
-----------------------------------------------------------------------------------------

/-- The registers that `ASMInterruptPreHandler` pushes, by their address. -/
structure InterruptFrame where
  regs : Nat
  intNo : Nat
  regs_pos : regs ≠ 0
deriving DecidableEq

/-- `interruptContext` is 0 for `NULL`. `active` are the frames of the handlers that have started
and not ended, the innermost first, `ports` what they have written to ports, and `halted` is set
by `PANIC`.
-/
structure InterruptState where
  interruptContext : Nat
  interruptHandlers : Nat → Bool
  active : List InterruptFrame
  ports : List (Nat × Nat)
  halted : Bool

/-- The start of a handler up to the call of the registered one, its end from there on, changes of
the table of handlers, and a `PANIC` in a handler.
-/
inductive InterruptEvent where
  | start (frame : InterruptFrame)
  | finish
  | register (n : Nat)
  | unregister (n : Nat)
  | panic

def getInterruptedContext (state : InterruptState) : Nat := state.interruptContext

/-- The acknowledgements for the two interrupt controllers. -/
def acknowledge (intNo : Nat) : List (Nat × Nat) :=
  if 32 ≤ intNo ∧ intNo ≤ 47 then
    (if 40 ≤ intNo then [(0xA0, 0x20)] else []) ++ [(0x20, 0x20)]
  else []

/-- No state stands for an event that cannot happen. -/
def interruptStep (state : InterruptState) (event : InterruptEvent) : Option InterruptState :=
  if state.halted then none
  else match event with
    | .start frame => some { state with
        interruptContext := frame.regs
        active := frame :: state.active
        ports := state.ports ++ acknowledge frame.intNo
        halted := ! state.interruptHandlers frame.intNo && decide (frame.intNo ≤ 18) }
    | .finish => match state.active with
        | [] => none
        | _ :: outer => some { state with interruptContext := 0, active := outer }
    | .register n => some { state with
        interruptHandlers := fun m => if m = n then true else state.interruptHandlers m }
    | .unregister n => some { state with
        interruptHandlers := fun m => if m = n then false else state.interruptHandlers m }
    | .panic => some { state with halted := true }

def interruptRun (state : InterruptState) (events : List InterruptEvent) : Option InterruptState :=
  events.foldlM interruptStep state

-----------------------------------------------------------------------------------------
-- The context and the innermost handler
-----------------------------------------------------------------------------------------

/-- The context is the frame of the innermost handler that is active, if there is one. -/
def ContextFollows (state : InterruptState) : Prop :=
  ∀ frame outer, state.active = frame :: outer → getInterruptedContext state = frame.regs

/-- The context follows in every state of the run. -/
def ContextAlwaysFollows (start : InterruptState) (events : List InterruptEvent) : Prop :=
  ∀ front back state, events = front ++ back → interruptRun start front = some state →
    ContextFollows state

/-- No handler of the run returns to another one. -/
def HandlersEndOutermost (start : InterruptState) (events : List InterruptEvent) : Prop :=
  ∀ front back state, events = front ++ .finish :: back → interruptRun start front = some state →
    state.active.length ≤ 1

section Context

variable {state next start : InterruptState} {event : InterruptEvent}
  {events front : List InterruptEvent}

theorem interruptRun_snoc
    : interruptRun start (front ++ [event])
      = (interruptRun start front).bind fun state => interruptStep state event := by
  rw [interruptRun, List.foldlM_append, Option.bind_eq_bind]
  exact congrArg (Option.bind _) (funext fun state => bind_pure _)

/-- What a step does to the handlers and the context. -/
theorem interruptStep_cases (steps : interruptStep state event = some next)
    : (∃ frame, event = .start frame ∧ next.active = frame :: state.active
        ∧ next.interruptContext = frame.regs)
      ∨ (∃ frame, event = .finish ∧ state.active = frame :: next.active
        ∧ next.interruptContext = 0)
      ∨ (next.active = state.active ∧ next.interruptContext = state.interruptContext) := by
  obtain ⟨-, steps⟩ := Option.ite_none_left_eq_some.mp steps
  cases event with
  | start frame =>
      obtain rfl := Option.some.inj steps
      exact .inl ⟨frame, rfl, rfl, rfl⟩
  | finish =>
      rcases active : state.active with _ | ⟨frame, outer⟩
      · rw [active] at steps
        exact absurd steps (Option.some_ne_none next).symm
      · rw [active] at steps
        obtain rfl := Option.some.inj steps
        exact .inr (.inl ⟨frame, rfl, rfl, rfl⟩)
  | register n =>
      obtain rfl := Option.some.inj steps
      exact .inr (.inr ⟨rfl, rfl⟩)
  | unregister n =>
      obtain rfl := Option.some.inj steps
      exact .inr (.inr ⟨rfl, rfl⟩)
  | panic =>
      obtain rfl := Option.some.inj steps
      exact .inr (.inr ⟨rfl, rfl⟩)

/-- A step that is not a return to a handler keeps the context with the innermost one. -/
theorem ContextFollows.step (follows : ContextFollows state)
    (outermost : event = .finish → state.active.length ≤ 1)
    (steps : interruptStep state event = some next)
    : ContextFollows next := by
  intro inner outer active
  obtain ⟨frame, rfl, started, context⟩ | ⟨frame, rfl, finished, -⟩ | ⟨same, context⟩ :=
    interruptStep_cases steps
  · rw [active] at started
    exact context.trans (congrArg InterruptFrame.regs (List.cons.inj started).1).symm
  · have short := outermost rfl
    rw [finished, active] at short
    exact absurd short (by simp)
  · exact context.trans (follows inner outer (same.symm.trans active))

/-- A return to a handler loses its frame. -/
theorem finish_loses (nested : ¬ state.active.length ≤ 1)
    (steps : interruptStep state .finish = some next)
    : ¬ ContextFollows next := by
  intro follows
  obtain ⟨-, steps⟩ := Option.ite_none_left_eq_some.mp steps
  rcases active : state.active with _ | ⟨frame, _ | ⟨inner, outer⟩⟩
  · simp [active] at nested
  · simp [active] at nested
  · rw [active] at steps
    obtain rfl := Option.some.inj steps
    exact inner.regs_pos (follows inner outer rfl).symm

/-- The context follows the innermost handler in a whole run exactly if no handler of it returns to
another one.
-/
theorem context_follows_iff {final : InterruptState} (idle : start.active = [])
    (runs : interruptRun start events = some final)
    : ContextAlwaysFollows start events ↔ HandlersEndOutermost start events := by
  constructor
  · intro follows front back state split reached
    by_contra nested
    have whole : front ++ .finish :: back = front ++ [.finish] ++ back := by simp
    rw [split, whole, interruptRun, List.foldlM_append] at runs
    obtain ⟨next, reachedNext, -⟩ := Option.bind_eq_some_iff.mp runs
    have finished := reachedNext
    rw [← interruptRun, interruptRun_snoc, reached] at finished
    exact finish_loses nested finished (follows _ back next (split.trans whole) reachedNext)
  · intro outermost front back state split reached
    induction front using List.reverseRecOn generalizing back state with
    | nil =>
        obtain rfl := Option.some.inj reached
        intro frame outer active
        exact absurd (idle.symm.trans active) (List.cons_ne_nil frame outer).symm
    | append_singleton front event ih =>
        rw [interruptRun_snoc] at reached
        obtain ⟨before, reachedBefore, steps⟩ := Option.bind_eq_some_iff.mp reached
        rw [List.append_assoc] at split
        refine (ih (event :: back) before split reachedBefore).step ?_ steps
        rintro rfl
        exact outermost front back before split reachedBefore

end Context

/-- Nothing is interrupted, and the system calls, the timer and the page faults have handlers. -/
def servingState : InterruptState where
  interruptContext := 0
  interruptHandlers n := n = 14 ∨ n = 32 ∨ n = 128
  active := []
  ports := []
  halted := false

def sysCallFrame : InterruptFrame := ⟨0x9000, 128, by decide⟩

def pageFaultFrame : InterruptFrame := ⟨0x8F00, 14, by decide⟩

/-- A system call in which nothing faults. -/
theorem context_follows_sysCall
    : ContextAlwaysFollows servingState [.start sysCallFrame, .finish] := by
  refine (context_follows_iff rfl rfl).mpr fun front back state split reached => ?_
  rcases front with _ | ⟨first, _ | ⟨second, rest⟩⟩
  · simp at split
  · obtain ⟨rfl, -⟩ := List.cons.inj split
    obtain rfl := Option.some.inj reached
    decide
  · simp at split

/-- A page fault in a system call, after which the context of the system call is `NULL`. -/
theorem context_lost
    : ¬ ContextAlwaysFollows servingState
        [.start sysCallFrame, .start pageFaultFrame, .finish] := by
  intro follows
  have lost := follows [.start sysCallFrame, .start pageFaultFrame, .finish] [] _ rfl rfl
  exact sysCallFrame.regs_pos (lost sysCallFrame [] rfl).symm

end DeadKernel
