import DeadKernel.Interrupts.Gates
import DeadKernel.Interrupts.InterruptContext

/-! From a line of a device to its handler. The two controllers number their lines from vector 32
on, and each interrupt is acknowledged before its handler runs. So nothing is ever left in service,
and no line waits for another one's handler.
-/

namespace DeadKernel

-----------------------------------------------------------------------------------------
-- The interrupt controllers
-----------------------------------------------------------------------------------------

/-- One of the two controllers. `awaited` counts the words that are missing to its initialization.
-/
structure Pic where
  base : BitVec 8
  cascade : BitVec 8
  mode : BitVec 8
  mask : BitVec 8
  inService : BitVec 8
  awaited : Nat
deriving DecidableEq

/-- A byte for the command port. Bit 4 begins an initialization; 0x20 ends the interrupt of the
highest priority, which is the lowest bit in service.
-/
def Pic.command (value : BitVec 8) (pic : Pic) : Pic :=
  if value.getLsbD 4 then { pic with inService := 0, mask := 0, awaited := 3 }
  else if value = 0x20 then { pic with inService := pic.inService &&& (pic.inService - 1) }
  else pic

def Pic.data (value : BitVec 8) (pic : Pic) : Pic :=
  match pic.awaited with
  | 3 => { pic with base := value &&& 0xF8, awaited := 2 }
  | 2 => { pic with cascade := value, awaited := 1 }
  | 1 => { pic with mode := value, awaited := 0 }
  | _ => { pic with mask := value }

/-- The controller passes a line on that is not masked and has priority over those in service. -/
def Pic.Free (line : Nat) (pic : Pic) : Prop :=
  pic.mask.getLsbD line = false ∧ ∀ i ≤ line, pic.inService.getLsbD i = false

instance (line : Nat) (pic : Pic) : Decidable (pic.Free line) :=
  inferInstanceAs (Decidable (_ ∧ ∀ i ≤ line, _))

def Pic.serve (line : Nat) (pic : Pic) : Pic :=
  { pic with inService := pic.inService ||| BitVec.twoPow 8 line }

structure Pics where
  master : Pic
  slave : Pic
deriving DecidableEq

/-- `outb` to the ports of the controllers. -/
def outPic (port : Nat) (value : BitVec 8) (pics : Pics) : Pics :=
  match port with
  | 0x20 => { pics with master := pics.master.command value }
  | 0x21 => { pics with master := pics.master.data value }
  | 0xA0 => { pics with slave := pics.slave.command value }
  | 0xA1 => { pics with slave := pics.slave.data value }
  | _ => pics

/-- What `InitIDT` sends. -/
def initPics (pics : Pics) : Pics :=
  let pics := outPic 0x20 0x11 pics
  let pics := outPic 0xA0 0x11 pics
  let pics := outPic 0x21 0x20 pics
  let pics := outPic 0xA1 0x28 pics
  let pics := outPic 0x21 0x04 pics
  let pics := outPic 0xA1 0x02 pics
  let pics := outPic 0x21 0x01 pics
  let pics := outPic 0xA1 0x01 pics
  let pics := outPic 0x21 0x0 pics
  outPic 0xA1 0x0 pics

/-- A device raises a line, and the processor takes the interrupt: its vector. The slave hangs on
line 2 of the master.
-/
def Pics.raise (line : Nat) (pics : Pics) : Option (Nat × Pics) :=
  if line < 8 then
    if pics.master.Free line then
      some (pics.master.base.toNat + line, { pics with master := pics.master.serve line })
    else none
  else if pics.master.Free 2 ∧ pics.slave.Free (line - 8) then
    some (pics.slave.base.toNat + (line - 8),
      { master := pics.master.serve 2, slave := pics.slave.serve (line - 8) })
  else none

-----------------------------------------------------------------------------------------
-- Handlers
-----------------------------------------------------------------------------------------

/-- The controllers, `interruptHandlers` with 0 for `NULL`, the calls of handlers so far with their
`int_no`, and whether the kernel has panicked.
-/
structure Dispatcher where
  pics : Pics
  handlers : Nat → Nat
  calls : List (Nat × Nat)
  halted : Bool

/-- Bytes for the ports of the controllers, in their order. -/
def sendPics (sent : List (Nat × Nat)) (pics : Pics) : Pics :=
  sent.foldl (fun pics out => outPic out.1 (.ofNat 8 out.2) pics) pics

def mainInterruptHandler (intNo : Nat) (d : Dispatcher) : Dispatcher :=
  let d := { d with pics := sendPics (acknowledge intNo) d.pics }
  if d.handlers intNo ≠ 0 then { d with calls := d.calls ++ [(d.handlers intNo, intNo)] }
  else if intNo ≤ 18 then { d with halted := true }
  else d

def registerInterruptHandler (n handler : Nat) (d : Dispatcher) : Dispatcher :=
  { d with handlers := Function.update d.handlers n handler }

def unregisterInterruptHandler (n : Nat) (d : Dispatcher) : Dispatcher :=
  { d with handlers := Function.update d.handlers n 0 }

/-- `initDescriptorTables`, as far as the dispatching goes. -/
def initDispatcher (pics : Pics) : Dispatcher where
  pics := initPics pics
  handlers := fun _ => 0
  calls := []
  halted := false

/-- A vector reaches `MainInterruptHandler` with the number that its stub pushes last. -/
def Dispatcher.take (vector : Nat) (d : Dispatcher) : Dispatcher :=
  match (stubPushes vector).bind List.getLast? with
  | some intNo => mainInterruptHandler intNo d
  | none => d

/-- What happens to the dispatching. A spurious interrupt is one whose line has dropped before the
processor asked for its vector.
-/
inductive IntEvent where
  | line (n : Nat)
  | spuriousMaster
  | spuriousSlave
  | int (vector : Nat)
  | register (n handler : Nat)
  | unregister (n : Nat)

/-- The lines of devices, and vectors of the processor's size. -/
def IntEvent.Possible : IntEvent → Prop
  | .line n => n < 16 ∧ n ≠ 2
  | .int vector => vector < 256
  | _ => True

def Dispatcher.step (d : Dispatcher) (event : IntEvent) : Dispatcher :=
  if d.halted then d
  else
    match event with
    | .line n =>
        match d.pics.raise n with
        | some (vector, pics) => Dispatcher.take vector { d with pics }
        | none => d
    | .spuriousMaster => d.take (d.pics.master.base.toNat + 7)
    | .spuriousSlave =>
        Dispatcher.take (d.pics.slave.base.toNat + 7)
          { d with pics := { d.pics with master := d.pics.master.serve 2 } }
    | .int vector => d.take vector
    | .register n handler => registerInterruptHandler n handler d
    | .unregister n => unregisterInterruptHandler n d

-----------------------------------------------------------------------------------------
-- What should be called
-----------------------------------------------------------------------------------------

/-- The vector of an event, if it has one that is open. -/
def IntEvent.vector : IntEvent → Option Nat
  | .line n => some (32 + n)
  | .spuriousMaster => some 39
  | .spuriousSlave => some 47
  | .int vector => if vector < 48 ∨ vector = 128 then some vector else none
  | _ => none

/-- What an event makes of the handler of a vector. -/
def IntEvent.handler (vector before : Nat) : IntEvent → Nat
  | .register n handler => if n = vector then handler else before
  | .unregister n => if n = vector then 0 else before
  | _ => before

/-- The last handler that is registered for a vector. -/
def latest (vector : Nat) (events : List IntEvent) : Nat :=
  events.foldl (fun before event => event.handler vector before) 0

/-- The call that is due for an event, if the last handler of its vector is one. -/
def dueCall (before : List IntEvent) (event : IntEvent) : List (Nat × Nat) :=
  (event.vector.toList.filter (fun vector => latest vector before ≠ 0)).map
    (fun vector => (latest vector before, vector))

/-- The calls that are due for the events behind `before`. -/
def dueCalls (before : List IntEvent) : List IntEvent → List (Nat × Nat)
  | [] => []
  | event :: rest => dueCall before event ++ dueCalls (before ++ [event]) rest

/-- The controllers with nothing in service. -/
def readyPics : Pics where
  master := ⟨0x20, 0x04, 0x01, 0x0, 0, 0⟩
  slave := ⟨0x28, 0x02, 0x01, 0x0, 0, 0⟩

section

variable {d : Dispatcher} {before : List IntEvent} {vector : Nat}

theorem initPics_ready (pics : Pics) : initPics pics = readyPics := rfl

/-- Every line is free, its vector follows those of the exceptions, and what it sets in service is
what the acknowledgement clears.
-/
theorem readyPics_raise {line : Nat} (inside : line < 16) (device : line ≠ 2)
    : ∃ pics, readyPics.raise line = some (32 + line, pics)
        ∧ sendPics (acknowledge (32 + line)) pics = readyPics := by
  have table : ∀ line < 16, line ≠ 2 →
      (readyPics.raise line).map (fun taken => (taken.1, sendPics (acknowledge taken.1) taken.2))
        = some (32 + line, readyPics) := by
    decide
  obtain ⟨⟨number, pics⟩, raised, same⟩ := Option.map_eq_some_iff.mp (table line inside device)
  obtain ⟨rfl, cleared⟩ := Prod.mk.inj same
  exact ⟨pics, raised, cleared⟩

/-- An acknowledgement that nothing waits for changes nothing. -/
theorem acknowledge_ready (intNo : Nat) : sendPics (acknowledge intNo) readyPics = readyPics := by
  rw [acknowledge]
  split_ifs <;> rfl

theorem acknowledge_cascade
    : sendPics (acknowledge 47) { readyPics with master := readyPics.master.serve 2 }
      = readyPics := by
  decide

/-- The state after the events `before`. -/
structure Dispatcher.After (before : List IntEvent) (d : Dispatcher) : Prop where
  pics : d.pics = readyPics
  handlers : ∀ vector, d.handlers vector = latest vector before
  running : d.halted = false

theorem latest_snoc (vector : Nat) (before : List IntEvent) (event : IntEvent)
    : latest vector (before ++ [event]) = event.handler vector (latest vector before) := by
  rw [latest, latest, List.foldl_append, List.foldl_cons, List.foldl_nil]

/-- A vector reaches its own handler, or none. -/
theorem Dispatcher.take_eq (d : Dispatcher) (inside : vector < 256)
    : d.take vector
      = if vector < 48 ∨ vector = 128 then mainInterruptHandler vector d else d := by
  have all : ∀ vector ∈ errCodeVectors, vector < 48 ∨ vector = 128 := by decide
  rw [Dispatcher.take, stubPushes_eq inside]
  by_cases counts : vector ∈ errCodeVectors
  · rw [if_pos counts, if_pos (all vector counts)]
    rfl
  · rw [if_neg counts]
    by_cases set : vector < 48 ∨ vector = 128
    · rw [if_pos set, if_pos set]
      rfl
    · rw [if_neg set, if_neg set]
      rfl

theorem dueCall_some {event : IntEvent} (same : event.vector = some vector)
    : dueCall before event
      = if latest vector before ≠ 0 then [(latest vector before, vector)] else [] := by
  rw [dueCall, same, Option.toList_some]
  by_cases some_ : latest vector before ≠ 0
  · rw [if_pos some_, List.filter_cons_of_pos (by simpa using some_)]
    rfl
  · rw [if_neg some_, List.filter_cons_of_neg (by simpa using some_)]
    rfl

theorem dueCall_none {event : IntEvent} (none_ : event.vector = none)
    : dueCall before event = [] := by
  rw [dueCall, none_]
  rfl

/-- The kernel goes on behind `MainInterruptHandler` with the call that is due. -/
theorem mainInterruptHandler_after {event : IntEvent}
    (handlers : ∀ vector, d.handlers vector = latest vector before)
    (ready : sendPics (acknowledge vector) d.pics = readyPics)
    (same : event.vector = some vector) (keeps : ∀ number old, event.handler number old = old)
    (running : d.halted = false) (runs : (mainInterruptHandler vector d).halted = false)
    : (mainInterruptHandler vector d).After (before ++ [event])
      ∧ (mainInterruptHandler vector d).calls = d.calls ++ dueCall before event := by
  have kept (number : Nat) : d.handlers number = latest number (before ++ [event]) := by
    rw [latest_snoc, keeps, handlers]
  rw [dueCall_some same, ← handlers]
  rw [mainInterruptHandler] at runs ⊢
  dsimp only at runs ⊢
  by_cases some_ : d.handlers vector ≠ 0
  · rw [if_pos some_, if_pos some_]
    exact ⟨⟨ready, kept, running⟩, rfl⟩
  · rw [if_neg some_] at runs ⊢
    rw [if_neg some_, List.append_nil]
    by_cases fatal : vector ≤ 18
    · rw [if_pos fatal] at runs
      simp at runs
    · rw [if_neg fatal]
      exact ⟨⟨ready, kept, running⟩, rfl⟩

/-- An event that comes to nothing. -/
theorem Dispatcher.After.skip {event : IntEvent} (h : d.After before) (none_ : event.vector = none)
    (keeps : ∀ number old, event.handler number old = old)
    : d.After (before ++ [event]) ∧ d.calls = d.calls ++ dueCall before event := by
  rw [dueCall_none none_, List.append_nil]
  refine ⟨⟨h.pics, fun number => ?_, h.running⟩, rfl⟩
  rw [latest_snoc, keeps, h.handlers]

/-- An interrupt that is taken. -/
theorem take_after {event : IntEvent} (inside : vector < 256)
    (handlers : ∀ vector, d.handlers vector = latest vector before)
    (ready : sendPics (acknowledge vector) d.pics = readyPics) (set : vector < 48 ∨ vector = 128)
    (same : event.vector = some vector) (keeps : ∀ number old, event.handler number old = old)
    (running : d.halted = false) (runs : (d.take vector).halted = false)
    : (d.take vector).After (before ++ [event])
      ∧ (d.take vector).calls = d.calls ++ dueCall before event := by
  rw [d.take_eq inside, if_pos set] at runs ⊢
  exact mainInterruptHandler_after handlers ready same keeps running runs

/-- A step of the dispatching that does not end in a panic. -/
theorem Dispatcher.After.step {event : IntEvent} (h : d.After before) (possible : event.Possible)
    (runs : (d.step event).halted = false)
    : (d.step event).After (before ++ [event])
      ∧ (d.step event).calls = d.calls ++ dueCall before event := by
  rw [Dispatcher.step.eq_def, h.running, if_neg Bool.false_ne_true] at runs ⊢
  cases event with
  | line n =>
      obtain ⟨inside, device⟩ := possible
      obtain ⟨pics, raised, cleared⟩ := readyPics_raise inside device
      simp only [h.pics, raised] at runs ⊢
      exact take_after (by omega) h.handlers cleared (.inl (by omega)) rfl (fun _ _ => rfl) rfl runs
  | spuriousMaster =>
      have vector : d.pics.master.base.toNat + 7 = 39 := by
        rw [h.pics]
        rfl
      simp only [vector] at runs ⊢
      refine take_after (by decide) h.handlers ?_ (.inl (by decide)) rfl (fun _ _ => rfl)
        h.running runs
      rw [h.pics, acknowledge_ready]
  | spuriousSlave =>
      have vector : d.pics.slave.base.toNat + 7 = 47 := by
        rw [h.pics]
        rfl
      simp only [vector] at runs ⊢
      refine take_after (by decide) h.handlers ?_ (.inl (by decide)) rfl (fun _ _ => rfl)
        rfl runs
      rw [h.pics]
      exact acknowledge_cascade
  | int vector =>
      by_cases set : vector < 48 ∨ vector = 128
      · refine take_after possible h.handlers ?_ set (if_pos set) (fun _ _ => rfl) h.running runs
        rw [h.pics, acknowledge_ready]
      · have closed : d.take vector = d := by
          rw [d.take_eq possible, if_neg set]
        dsimp only
        rw [closed]
        exact h.skip (if_neg set) fun _ _ => rfl
  | register n handler =>
      refine ⟨⟨h.pics, fun number => ?_, h.running⟩, (List.append_nil _).symm⟩
      rw [latest_snoc, IntEvent.handler, ← h.handlers]
      by_cases same : n = number
      · rw [if_pos same, same]
        exact Function.update_self _ _ _
      · rw [if_neg same]
        exact Function.update_of_ne (Ne.symm same) _ _
  | unregister n =>
      refine ⟨⟨h.pics, fun number => ?_, h.running⟩, (List.append_nil _).symm⟩
      rw [latest_snoc, IntEvent.handler, ← h.handlers]
      by_cases same : n = number
      · rw [if_pos same, same]
        exact Function.update_self _ _ _
      · rw [if_neg same]
        exact Function.update_of_ne (Ne.symm same) _ _

/-- A kernel that has panicked does nothing more. -/
theorem halted_stays (halted : d.halted = true) (events : List IntEvent)
    : events.foldl Dispatcher.step d = d := by
  induction events with
  | nil => rfl
  | cons event rest ih =>
      rw [List.foldl_cons, Dispatcher.step.eq_def, if_pos halted]
      exact ih

/-- A run of the dispatching, by induction on the events. -/
theorem Dispatcher.After.run (h : d.After before) (events : List IntEvent)
    (possible : ∀ event ∈ events, event.Possible)
    (runs : (events.foldl Dispatcher.step d).halted = false)
    : (events.foldl Dispatcher.step d).After (before ++ events)
      ∧ (events.foldl Dispatcher.step d).calls = d.calls ++ dueCalls before events := by
  induction events generalizing before d with
  | nil =>
      rw [List.append_nil, dueCalls, List.append_nil]
      exact ⟨h, rfl⟩
  | cons event rest ih =>
      rw [List.foldl_cons] at runs ⊢
      have running : (d.step event).halted = false := by
        by_contra halted
        rw [Bool.not_eq_false] at halted
        rw [halted_stays halted, halted] at runs
        exact absurd runs (by decide)
      obtain ⟨after, calls⟩ := h.step (possible event List.mem_cons_self) running
      obtain ⟨last, rest_⟩ :=
        ih after (fun other mem => possible other (List.mem_cons_of_mem event mem)) runs
      rw [List.append_assoc] at last
      rw [dueCalls, rest_, calls, List.append_assoc]
      exact ⟨last, rfl⟩

/-- However interrupts, exceptions, registrations and spurious interrupts follow one another: as
long as the kernel has not panicked, exactly the calls that are due have been made, each to the last
handler of its vector and in order. Nothing is in service, and every line is free.
-/
theorem interrupts_dispatched (pics : Pics) (events : List IntEvent)
    (possible : ∀ event ∈ events, event.Possible)
    (runs : (events.foldl Dispatcher.step (initDispatcher pics)).halted = false)
    : (events.foldl Dispatcher.step (initDispatcher pics)).calls = dueCalls [] events
      ∧ (events.foldl Dispatcher.step (initDispatcher pics)).pics = readyPics
      ∧ ∀ line < 16, line ≠ 2 →
        ∃ taken, (events.foldl Dispatcher.step (initDispatcher pics)).pics.raise line
          = some (32 + line, taken) := by
  have start : (initDispatcher pics).After [] := ⟨initPics_ready pics, fun _ => rfl, rfl⟩
  obtain ⟨after, calls⟩ := start.run events possible runs
  refine ⟨calls, after.pics, fun line inside device => ?_⟩
  obtain ⟨taken, raised, -⟩ := readyPics_raise inside device
  rw [after.pics]
  exact ⟨taken, raised⟩

end

/-- A timer and a keyboard interrupt, with a handler for the timer only. -/
theorem interrupts_dispatched_timer
    : ([IntEvent.register 32 7, .line 0, .line 1, .line 0].foldl Dispatcher.step
        (initDispatcher readyPics)).calls = [(7, 32), (7, 32)] := by
  refine (interrupts_dispatched readyPics [.register 32 7, .line 0, .line 1, .line 0] ?_
    (by decide)).1
  intro event mem
  simp only [List.mem_cons, List.not_mem_nil, or_false] at mem
  rcases mem with rfl | rfl | rfl | rfl
  · trivial
  · exact ⟨by decide, by decide⟩
  · exact ⟨by decide, by decide⟩
  · exact ⟨by decide, by decide⟩

end DeadKernel
