import DeadKernel.Io.Keyboard
import Mathlib.Logic.Function.Basic

/-! Tasks that read characters with `getch`, and the keyboard interrupts between their steps.
A system call is one step, since interrupts are off in it; so the check for a character and its
removal are steps of their own.
-/

namespace DeadKernel

/-- Where a task stands in `getch`. -/
inductive GetchPhase where
  | outside
  | check
  | recheck
  | yielding
  | reading
deriving DecidableEq

/-- `spinning` says that a task has entered `keyboardGetChar` and found no character; it keeps
the processor from then on.
-/
structure Console where
  keyboard : Keyboard
  phases : Nat → GetchPhase
  spinning : Bool

inductive ConsoleEvent where
  | key (scancode : UInt8)
  | task (id : Nat)
deriving DecidableEq

def Console.setPhase (id : Nat) (phase : GetchPhase) (st : Console) : Console :=
  { st with phases := Function.update st.phases id phase }

/-- The next step of a task in `getch`. -/
def getchStep (id : Nat) (st : Console) : Console :=
  match st.phases id with
  | .outside => st.setPhase id .check
  | .check => st.setPhase id (if keyboardReadReady st.keyboard then .reading else .recheck)
  | .recheck => st.setPhase id (if keyboardReadReady st.keyboard then .reading else .yielding)
  | .yielding => st.setPhase id .check
  | .reading =>
      match keyboardGetChar st.keyboard with
      | none => { st with spinning := true }
      | some (_, keyboard) => { st.setPhase id .outside with keyboard }

def Console.step (st : Console) (event : ConsoleEvent) : Console :=
  if st.spinning then st
  else
    match event with
    | .key scancode => { st with keyboard := keyboardHandler scancode st.keyboard }
    | .task id => getchStep id st

def Console.run (events : List ConsoleEvent) (st : Console) : Console :=
  events.foldl Console.step st

/-- No task is in `getch` yet. -/
def Console.start (keyboard : Keyboard) : Console :=
  ⟨keyboard, fun _ => .outside, false⟩

-----------------------------------------------------------------------------------------
-- Characters behind tasks that have seen one
-----------------------------------------------------------------------------------------

/-- No task takes the last character while another one has seen it and is about to take it. -/
def LeavesCharacter (st : Console) (event : ConsoleEvent) : Prop :=
  ∀ id, event = .task id → st.phases id = .reading → st.keyboard.charBuffer.count = 1
    → ∀ other, other ≠ id → st.phases other ≠ .reading

/-- Every event of a run meets the condition in the state it happens in. -/
def AllLeave : List ConsoleEvent → Console → Prop
  | [], _ => True
  | event :: rest, st => LeavesCharacter st event ∧ AllLeave rest (st.step event)

/-- Nobody spins, and a task that is about to take a character finds one. -/
structure Supplied (st : Console) : Prop where
  free : st.spinning = false
  filled : ∀ id, st.phases id = .reading → 0 < st.keyboard.charBuffer.count

/-- The keyboard interrupt takes no character away. -/
theorem count_le_keyboardHandler (scancode : UInt8) (kbd : Keyboard)
    : kbd.charBuffer.count ≤ (keyboardHandler scancode kbd).charBuffer.count := by
  have resend : (resendReply kbd).charBuffer = kbd.charBuffer := by
    rw [resendReply]
    split <;> rfl
  have ack : (ackReply kbd).charBuffer = kbd.charBuffer := by
    rw [ackReply]
    dsimp only
    split <;> rfl
  have pick {p : Prop} [Decidable p] {a b : Keyboard}
      (ha : kbd.charBuffer.count ≤ a.charBuffer.count)
      (hb : kbd.charBuffer.count ≤ b.charBuffer.count)
      : kbd.charBuffer.count ≤ (if p then a else b).charBuffer.count := by
    split
    · exact ha
    · exact hb
  have same : kbd.charBuffer.count ≤ kbd.charBuffer.count := le_refl _
  exact pick same (pick same (pick same (pick (by rw [resend]) (pick (by rw [ack]) (pick same
    (pick same (pick same (pick same (pick same (pick same (pick same (pick same
      (count_le_enqueue _ _)))))))))))))

/-- Moving one task to a phase in which it finds a character, or out of `reading`. -/
theorem Supplied.setPhase {st : Console} (h : Supplied st) {id : Nat} {phase : GetchPhase}
    (here : phase = .reading → 0 < st.keyboard.charBuffer.count)
    : Supplied (st.setPhase id phase) where
  free := h.free
  filled := fun other reading => by
    by_cases same : other = id
    · subst same
      simp only [Console.setPhase, Function.update_self] at reading
      exact here reading
    · simp only [Console.setPhase, Function.update_of_ne same] at reading
      exact h.filled other reading

/-- What one event preserves: a task takes a character that is there, and leaves one for every
other task that has seen one.
-/
theorem Supplied.step {st : Console} (h : Supplied st) {event : ConsoleEvent}
    (leaves : LeavesCharacter st event)
    : Supplied (st.step event) := by
  have ready {phase : GetchPhase} (other : phase ≠ .reading)
      (reading : (if keyboardReadReady st.keyboard then GetchPhase.reading else phase) = .reading)
      : 0 < st.keyboard.charBuffer.count := by
    by_cases some : keyboardReadReady st.keyboard = true
    · simpa [keyboardReadReady] using some
    · rw [if_neg some] at reading
      exact absurd reading other
  unfold Console.step
  rw [if_neg (by simp [h.free])]
  cases event with
  | key scancode =>
      refine ⟨h.free, fun id reading => ?_⟩
      exact (h.filled id reading).trans_le (count_le_keyboardHandler scancode st.keyboard)
  | task id =>
      dsimp only
      rw [getchStep]
      cases phase : st.phases id with
      | outside => exact h.setPhase (by simp)
      | check => exact h.setPhase (ready (by decide))
      | recheck => exact h.setPhase (ready (by decide))
      | yielding => exact h.setPhase (by simp)
      | reading =>
          have some := h.filled id phase
          simp only [keyboardGetChar, dequeue_eq some, Option.map_some]
          refine ⟨h.free, fun other reading => ?_⟩
          by_cases same : other = id
          · subst same
            simp [Console.setPhase] at reading
          · simp only [Console.setPhase, Function.update_of_ne same] at reading
            have more : st.keyboard.charBuffer.count ≠ 1 :=
              fun last => leaves id rfl phase last other same reading
            change 0 < st.keyboard.charBuffer.count - 1
            omega

theorem Supplied.run {events : List ConsoleEvent} {st : Console} (h : Supplied st)
    (leaves : AllLeave events st)
    : Supplied (st.run events) := by
  induction events generalizing st with
  | nil => exact h
  | cons event rest ih => exact ih (h.step leaves.1) leaves.2

/-- In every run that leaves characters to the tasks that have seen one, no task enters
`keyboardGetChar` while the buffer is empty.
-/
theorem getch_never_spins (keyboard : Keyboard) (events : List ConsoleEvent)
    (leaves : AllLeave events (.start keyboard))
    : ((Console.start keyboard).run events).spinning = false
      ∧ ∀ id, ((Console.start keyboard).run events).phases id = .reading
        → keyboardGetChar ((Console.start keyboard).run events).keyboard ≠ none := by
  have start : Supplied (.start keyboard) := ⟨rfl, fun _ reading => by simp [Console.start] at reading⟩
  obtain ⟨free, filled⟩ := start.run leaves
  refine ⟨free, fun id reading => ?_⟩
  rw [keyboardGetChar, dequeue_eq (filled id reading)]
  simp

/-- The condition is no stricter than it has to be: behind a step that takes the last character
from another task, the other task's next step spins.
-/
theorem take_last_spins {st : Console} {id other : Nat} (free : st.spinning = false)
    (different : other ≠ id) (reading : st.phases id = .reading)
    (otherReading : st.phases other = .reading) (last : st.keyboard.charBuffer.count = 1)
    : (st.run [.task id, .task other]).spinning = true := by
  simp [Console.run, Console.step, free, getchStep, reading, keyboardGetChar,
    Console.setPhase, different, otherReading, last, cyclicBufferDequeue]

/-- One key press, seen by one task, which then takes the character. -/
theorem getch_one_reader
    : ((Console.start (initKeyboard (fun _ => 0) (fun _ => 0))).run
        [.key 0x1E, .task 1, .task 1]).spinning = false
      ∧ ∀ id, ((Console.start (initKeyboard (fun _ => 0) (fun _ => 0))).run
          [.key 0x1E, .task 1, .task 1]).phases id = .reading
        → keyboardGetChar ((Console.start (initKeyboard (fun _ => 0) (fun _ => 0))).run
            [.key 0x1E, .task 1, .task 1]).keyboard ≠ none := by
  refine getch_never_spins _ _ ⟨?_, ?_, ?_, trivial⟩
  · exact fun id event => absurd event (by simp)
  · rintro id event reading
    exact absurd reading (by simp [Console.start, Console.step])
  · rintro id event reading
    obtain rfl : id = 1 := by simpa using event.symm
    exact absurd reading (by decide)

/-- One key press, seen by two tasks: the second one spins. -/
theorem getch_spins
    : ((Console.start (initKeyboard (fun _ => 0) (fun _ => 0))).run
        [.key 0x1E, .task 1, .task 1, .task 2, .task 2, .task 1, .task 2]).spinning = true := by
  decide

end DeadKernel
