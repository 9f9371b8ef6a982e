import DeadKernel.Foundation.Words
import Mathlib.Data.List.Induction
import Mathlib.Data.List.Count

/-! How long `sleep` waits. The deadline is the tick counter plus `ms` in 32 bits, and the loop
compares the counter with it every time the task is scheduled, so what counts is how often the
counter and the deadline have wrapped around by then.
-/

namespace DeadKernel

open Words

-----------------------------------------------------------------------------------------
-- The tick counter and the sleeping task
-----------------------------------------------------------------------------------------

/-- The counters of the system timer. -/
structure SysTimer where
  uptime : BitVec 32
  tick : BitVec 32

/-- What `timerCallback` counts; the `switchTask` behind it only says who is scheduled next. -/
def SysTimer.timerCallback (timer : SysTimer) : SysTimer where
  uptime := timer.uptime + 1
  tick := timer.tick + 1

def SysTimer.getSysTimerTicks (timer : SysTimer) : BitVec 32 := timer.tick

/-- A timer interrupt, or a time at which the sleeping task runs until it has compared the counter
with its deadline once.
-/
inductive SleepEvent where
  | interrupt
  | poll
deriving DecidableEq

/-- A call of `sleep` and the timer it waits for. -/
structure Sleeping where
  timer : SysTimer
  targetTicks : BitVec 32
  returned : Bool

/-- A call of `sleep` that has read the counter and computed its deadline. -/
def sleep (ms : BitVec 32) (timer : SysTimer) : Sleeping where
  timer
  targetTicks := timer.getSysTimerTicks + ms
  returned := false

namespace Sleeping

/-- The condition of the loop, evaluated once. -/
def poll (s : Sleeping) : Sleeping :=
  if s.timer.getSysTimerTicks < s.targetTicks then s else { s with returned := true }

def step (s : Sleeping) : SleepEvent → Sleeping
  | .interrupt => { s with timer := s.timer.timerCallback }
  | .poll => s.poll

def run (s : Sleeping) (events : List SleepEvent) : Sleeping := events.foldl step s

theorem run_append (s : Sleeping) (front back : List SleepEvent)
    : s.run (front ++ back) = (s.run front).run back :=
  List.foldl_append

theorem run_snoc (s : Sleeping) (front : List SleepEvent) (event : SleepEvent)
    : s.run (front ++ [event]) = (s.run front).step event := by
  rw [run_append]
  rfl

end Sleeping

/-- How many timer interrupts are among the events. -/
def interrupts (events : List SleepEvent) : Nat := events.count .interrupt

/-- The task compares the counter with its deadline after exactly `count` interrupts. -/
def PollsAt (events : List SleepEvent) (count : Nat) : Prop :=
  ∃ front back, events = front ++ .poll :: back ∧ interrupts front = count

@[simp] theorem interrupts_append (front back : List SleepEvent)
    : interrupts (front ++ back) = interrupts front + interrupts back :=
  List.count_append

@[simp] theorem interrupts_interrupt : interrupts [.interrupt] = 1 := rfl

@[simp] theorem interrupts_poll : interrupts [.poll] = 0 := rfl

/-- No poll comes after more interrupts than there are. -/
theorem PollsAt.le {events : List SleepEvent} {count : Nat} (h : PollsAt events count)
    : count ≤ interrupts events := by
  obtain ⟨front, back, rfl, rfl⟩ := h
  rw [interrupts_append]
  exact Nat.le_add_right _ _

theorem pollsAt_nil (count : Nat) : ¬ PollsAt [] count := by
  rintro ⟨front, back, split, -⟩
  exact absurd split.symm (by simp)

/-- The polls of a longer history are the earlier ones and its last event, if that is one. -/
theorem pollsAt_snoc {front : List SleepEvent} {event : SleepEvent} {count : Nat}
    : PollsAt (front ++ [event]) count
      ↔ PollsAt front count ∨ event = .poll ∧ interrupts front = count := by
  constructor
  · rintro ⟨before, back, split, rfl⟩
    induction back using List.reverseRecOn with
    | nil =>
      obtain ⟨rfl, same⟩ := List.append_inj' split rfl
      exact Or.inr ⟨List.singleton_inj.mp same, rfl⟩
    | append_singleton back last _ =>
      rw [← List.cons_append, ← List.append_assoc] at split
      exact Or.inl ⟨before, back, (List.append_inj' split rfl).1, rfl⟩
  · rintro (⟨before, back, rfl, rfl⟩ | ⟨rfl, rfl⟩)
    · exact ⟨before, back ++ [event], by simp, rfl⟩
    · exact ⟨front, [], rfl, rfl⟩

theorem pollsAt_poll (front : List SleepEvent)
    : PollsAt (front ++ [.poll]) (interrupts front) :=
  pollsAt_snoc.mpr (Or.inr ⟨rfl, rfl⟩)

/-- Among the polls that come late there is a first one. -/
theorem first_late {events : List SleepEvent} {bound : Nat}
    (late : ∃ count, PollsAt events count ∧ bound ≤ count)
    : ∃ front back, events = front ++ .poll :: back ∧ bound ≤ interrupts front
        ∧ ∀ earlier, PollsAt front earlier → earlier < bound := by
  induction events using List.reverseRecOn with
  | nil =>
    obtain ⟨count, polls, -⟩ := late
    exact absurd polls (pollsAt_nil count)
  | append_singleton front event ih =>
    by_cases before : ∃ earlier, PollsAt front earlier ∧ bound ≤ earlier
    · obtain ⟨first, back, rfl, least⟩ := ih before
      exact ⟨first, back ++ [event], by simp, least⟩
    · obtain ⟨count, polls, behind⟩ := late
      obtain polls | ⟨rfl, rfl⟩ := pollsAt_snoc.mp polls
      · exact absurd ⟨count, polls, behind⟩ before
      · refine ⟨front, [], rfl, behind, fun earlier polls => ?_⟩
        by_contra late
        exact before ⟨earlier, polls, Nat.le_of_not_lt late⟩

-----------------------------------------------------------------------------------------
-- When a call has returned
-----------------------------------------------------------------------------------------

section

variable {ms : BitVec 32} {timer : SysTimer}

/-- Polls leave the timer and the deadline as they are. -/
theorem Sleeping.poll_keeps (s : Sleeping)
    : s.poll.timer = s.timer ∧ s.poll.targetTicks = s.targetTicks := by
  rw [poll]
  split
  · exact ⟨rfl, rfl⟩
  · exact ⟨rfl, rfl⟩

/-- A poll lets the call return, unless the counter is below the deadline. -/
theorem Sleeping.poll_returned (s : Sleeping)
    : s.poll.returned = true ↔ s.returned = true ∨ s.targetTicks ≤ s.timer.tick := by
  rw [poll, SysTimer.getSysTimerTicks]
  split
  · rename_i below
    rw [or_iff_left (BitVec.not_le.mpr below)]
  · rename_i reached
    simp only [BitVec.not_lt.mp reached, or_true]

/-- The deadline stays and the counter has gone on by the interrupts, in 32 bits. -/
theorem sleep_run (ms : BitVec 32) (timer : SysTimer) (events : List SleepEvent)
    : ((sleep ms timer).run events).timer.tick = timer.tick + BitVec.ofNat 32 (interrupts events)
      ∧ ((sleep ms timer).run events).targetTicks = timer.tick + ms := by
  induction events using List.reverseRecOn with
  | nil => exact ⟨(BitVec.add_zero timer.tick).symm, rfl⟩
  | append_singleton front event ih =>
    rw [Sleeping.run_snoc, interrupts_append]
    obtain ⟨counter, deadline⟩ := ih
    cases event with
    | interrupt =>
      refine ⟨?_, deadline⟩
      rw [interrupts_interrupt, BitVec.ofNat_add, ← BitVec.add_assoc, ← counter]
      rfl
    | poll =>
      obtain ⟨sameTimer, sameDeadline⟩ := ((sleep ms timer).run front).poll_keeps
      rw [Sleeping.step, sameTimer, sameDeadline, interrupts_poll, Nat.add_zero]
      exact ⟨counter, deadline⟩

/-- A call has returned exactly if one of its polls found the counter at or above the deadline. -/
theorem sleep_returned_iff (events : List SleepEvent)
    : ((sleep ms timer).run events).returned = true
      ↔ ∃ count, PollsAt events count ∧ timer.tick + ms ≤ timer.tick + BitVec.ofNat 32 count := by
  induction events using List.reverseRecOn with
  | nil =>
    refine iff_of_false Bool.false_ne_true ?_
    rintro ⟨count, polls, -⟩
    exact pollsAt_nil count polls
  | append_singleton front event ih =>
    rw [Sleeping.run_snoc]
    simp only [pollsAt_snoc]
    cases event with
    | interrupt =>
      simp only [reduceCtorEq, false_and, or_false]
      exact ih
    | poll =>
      obtain ⟨counter, deadline⟩ := sleep_run ms timer front
      rw [Sleeping.step, Sleeping.poll_returned, ih, counter, deadline]
      constructor
      · rintro (⟨count, polls, reached⟩ | reached)
        · exact ⟨count, Or.inl polls, reached⟩
        · exact ⟨_, Or.inr ⟨rfl, rfl⟩, reached⟩
      · rintro ⟨count, polls | ⟨-, rfl⟩, reached⟩
        · exact Or.inl ⟨count, polls, reached⟩
        · exact Or.inr reached

-----------------------------------------------------------------------------------------
-- Sleeping long enough
-----------------------------------------------------------------------------------------

/-- The call is back only after `ms` interrupts, and it is back once it has been scheduled after
more of them.
-/
structure SleepsLongEnough (ms : BitVec 32) (timer : SysTimer) (events : List SleepEvent)
    : Prop where
  waits : ∀ front back, events = front ++ back →
    ((sleep ms timer).run front).returned = true → ms.toNat ≤ interrupts front
  returns : ∀ front back, events = front ++ .poll :: back → ms.toNat < interrupts front →
    ((sleep ms timer).run (front ++ [.poll])).returned = true

/-- After `count` interrupts the counter has wrapped around as often as the deadline has, or more
often and is at or above it again.
-/
def TickInStep (start ms count : Nat) : Prop :=
  (start + count) / wordSize = (start + ms) / wordSize
    ∨ (start + ms) / wordSize < (start + count) / wordSize
      ∧ (start + ms) % wordSize ≤ (start + count) % wordSize

/-- The counter is in step with the deadline whenever the call is scheduled, up to the first time
that is late enough.
-/
def PolledInStep (start ms : Nat) (events : List SleepEvent) : Prop :=
  ∀ front back, events = front ++ .poll :: back → (∀ count, PollsAt front count → count < ms) →
    TickInStep start ms (interrupts front)

/-- The comparison of the loop is right exactly if the counter is in step with the deadline. -/
theorem reached_iff_tickInStep (count : Nat)
    : (timer.tick + ms ≤ timer.tick + BitVec.ofNat 32 count ↔ ms.toNat ≤ count)
      ↔ TickInStep timer.tick.toNat ms.toNat count := by
  have word := timer.tick.isLt
  have length := ms.isLt
  rw [BitVec.le_def, BitVec.toNat_add, BitVec.toNat_add, BitVec.toNat_ofNat, Nat.add_mod_mod,
    TickInStep]
  simp only [wordSize]
  omega

/-- A deadline that is polled in step is kept. -/
theorem PolledInStep.sleepsLongEnough {events : List SleepEvent}
    (inStep : PolledInStep timer.tick.toNat ms.toNat events)
    : SleepsLongEnough ms timer events := by
  constructor
  · intro front back split returned
    obtain ⟨count, polls, reached⟩ := (sleep_returned_iff front).mp returned
    -- a poll before the deadline would be out of step, since all before it are early too
    by_contra early
    obtain ⟨before, behind, rfl, rfl⟩ := polls
    rw [interrupts_append] at early
    have right := (reached_iff_tickInStep _).mpr (inStep before (behind ++ back)
      (by rw [split, List.append_assoc, List.cons_append])
      (fun count polls => by have := polls.le; omega))
    have := right.mp reached
    omega
  · rintro front back rfl late
    -- the first poll that is late enough is in step and ends the loop
    obtain ⟨before, behind, split, behindDeadline, least⟩ :=
      first_late ⟨_, pollsAt_poll front, Nat.le_of_lt late⟩
    have right := (reached_iff_tickInStep _).mpr (inStep before (behind ++ back)
      (by rw [← List.cons_append, ← List.append_assoc, ← split, List.append_assoc]; rfl) least)
    exact (sleep_returned_iff _).mpr ⟨_, ⟨before, behind, split, rfl⟩, right.mpr behindDeadline⟩

/-- As long as neither the deadline nor the counter wraps around, the sleep is long enough. -/
theorem sleepsLongEnough_before_wrap {events : List SleepEvent}
    (deadline : timer.tick.toNat + ms.toNat < wordSize)
    (counter : timer.tick.toNat + interrupts events < wordSize)
    : SleepsLongEnough ms timer events := by
  apply PolledInStep.sleepsLongEnough
  rintro front back rfl -
  rw [interrupts_append] at counter
  refine Or.inl ?_
  rw [Nat.div_eq_of_lt deadline, Nat.div_eq_of_lt (by omega)]

/-- A poll that ends the loop is not early. -/
theorem SleepsLongEnough.late {front back : List SleepEvent}
    (sleeps : SleepsLongEnough ms timer (front ++ .poll :: back))
    (reached : timer.tick + ms ≤ timer.tick + BitVec.ofNat 32 (interrupts front))
    : ms.toNat ≤ interrupts front := by
  have returned : ((sleep ms timer).run (front ++ [.poll])).returned = true :=
    (sleep_returned_iff _).mpr ⟨_, pollsAt_poll front, reached⟩
  have waited := sleeps.waits (front ++ [.poll]) back
    (by rw [List.append_assoc, List.singleton_append]) returned
  rwa [interrupts_append, interrupts_poll, Nat.add_zero] at waited

/-- `sleep` waits long enough and not longer exactly if its polls, up to the first that is late
enough, see the counter in step with the deadline.
-/
theorem sleepsLongEnough_iff (ms : BitVec 32) (timer : SysTimer) (events : List SleepEvent)
    : SleepsLongEnough ms timer events ↔ PolledInStep timer.tick.toNat ms.toNat events := by
  constructor
  · rintro sleeps front back rfl early
    refine (reached_iff_tickInStep _).mp ⟨sleeps.late, fun late => ?_⟩
    rcases Nat.eq_or_lt_of_le late with same | later
    · rw [← same, BitVec.ofNat_toNat, BitVec.setWidth_eq]
      exact BitVec.le_refl _
    · obtain ⟨count, polls, reached⟩ :=
        (sleep_returned_iff _).mp (sleeps.returns front back rfl later)
      rcases pollsAt_snoc.mp polls with ⟨first, rest, rfl, rfl⟩ | ⟨-, rfl⟩
      · -- an earlier poll would have let the call return before its deadline
        rw [List.append_assoc, List.cons_append] at sleeps
        exact absurd (sleeps.late reached)
          (Nat.not_le_of_lt (early _ ⟨first, rest, rfl, rfl⟩))
      · exact reached
  · exact PolledInStep.sleepsLongEnough

end

/-- Sixteen ticks before the counter wraps around, the deadline of a sleep of 2000 is 1984, and
the first poll lets the call return at once.
-/
theorem sleep_returns_at_once
    : ¬ ∀ (ms : BitVec 32) (timer : SysTimer) (events : List SleepEvent),
        SleepsLongEnough ms timer events := by
  intro sleeps
  have waited := (sleeps 2000 ⟨0, 0xFFFFFFF0⟩ [.poll]).waits [.poll] [] rfl (by decide)
  exact absurd waited (by decide)

end DeadKernel
