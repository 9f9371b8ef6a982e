import DeadKernel.Io.Getch
import DeadKernel.Io.RingContents

/-! From the keys to the readers. The characters of the keys wait in a buffer for 64 of them, and
`getch` hands them out. A key that finds 64 characters waiting is lost; all others come through,
each once and in their order, whichever tasks read.
-/

namespace DeadKernel

-----------------------------------------------------------------------------------------
-- Keys and characters
-----------------------------------------------------------------------------------------

/-- The lock keys, the modifiers and the code 0. -/
def silentKeys : List UInt8 := [0x3a, 0x45, 0x46, kbdRetError0, kbdKeyShift, kbdKeyCtrl, kbdKeyAlt]

/-- The character of a scan code: replies and releases have none. -/
def typedChar (shift : Bool) (scancode : UInt8) : Option UInt8 :=
  if scancode ∈ silentKeys ∨ scancode &&& 0x80 ≠ 0 then none
  else some (if shift then toupper (kbdus.getD scancode.toNat 0) else kbdus.getD scancode.toNat 0)

/-- The state of the shift key behind a scan code. -/
def shiftBehind (shift : Bool) (scancode : UInt8) : Bool :=
  if scancode = kbdKeyShift then true
  else if scancode = kbdKeyShift ||| kbdKeyReleased then false
  else shift

/-- The characters of all keys. -/
def typedOf : Bool → List ConsoleEvent → List UInt8
  | _, [] => []
  | shift, .task _ :: events => typedOf shift events
  | shift, .key scancode :: events =>
      (typedChar shift scancode).toList ++ typedOf (shiftBehind shift scancode) events

/-- The character of a key, unless 64 are waiting. -/
def keptChar (st : Console) (scancode : UInt8) : Option UInt8 :=
  if st.keyboard.charBuffer.count < keyboardCharBufferSize then
    typedChar st.keyboard.controlsState.shift scancode
  else none

/-- The characters of the keys that find room. -/
def keptOf : List ConsoleEvent → Console → List UInt8
  | [], _ => []
  | .task id :: events, st => keptOf events (st.step (.task id))
  | .key scancode :: events, st =>
      (keptChar st scancode).toList ++ keptOf events (st.step (.key scancode))

/-- What `getch` returns to a task in its next step. -/
def Console.returned (st : Console) (id : Nat) : Option UInt8 :=
  if st.phases id = .reading then (keyboardGetChar st.keyboard).map Prod.fst else none

/-- What all tasks get, in the order of time. -/
def returnedOf : List ConsoleEvent → Console → List UInt8
  | [], _ => []
  | .task id :: events, st => (st.returned id).toList ++ returnedOf events (st.step (.task id))
  | .key scancode :: events, st => returnedOf events (st.step (.key scancode))

/-- Every key that types finds room. -/
def RoomForAll : List ConsoleEvent → Console → Prop
  | [], _ => True
  | .task id :: events, st => RoomForAll events (st.step (.task id))
  | .key scancode :: events, st =>
      (typedChar st.keyboard.controlsState.shift scancode ≠ none →
          st.keyboard.charBuffer.count < keyboardCharBufferSize)
        ∧ RoomForAll events (st.step (.key scancode))

-----------------------------------------------------------------------------------------
-- One key
-----------------------------------------------------------------------------------------

/-- What a scan code does to the characters and to the shift key. -/
structure KeyTyped (shift : Bool) (scancode : UInt8) (buffer : CyclicBuffer) (kbd : Keyboard)
    : Prop where
  buffer : kbd.charBuffer = match typedChar shift scancode with
    | some c => enqueued buffer c
    | none => buffer
  shift : kbd.controlsState.shift = shiftBehind shift scancode

theorem keyboardHandler_types (scancode : UInt8) (kbd : Keyboard)
    : KeyTyped kbd.controlsState.shift scancode kbd.charBuffer (keyboardHandler scancode kbd) := by
  have resend : (resendReply kbd).charBuffer = kbd.charBuffer
      ∧ (resendReply kbd).controlsState = kbd.controlsState := by
    rw [resendReply]
    split <;> exact ⟨rfl, rfl⟩
  have ack : (ackReply kbd).charBuffer = kbd.charBuffer
      ∧ (ackReply kbd).controlsState = kbd.controlsState := by
    rw [ackReply]
    dsimp only
    split <;> exact ⟨rfl, rfl⟩
  have pick {p : Prop} [Decidable p] {a b : Keyboard}
      (ha : p → KeyTyped kbd.controlsState.shift scancode kbd.charBuffer a)
      (hb : ¬ p → KeyTyped kbd.controlsState.shift scancode kbd.charBuffer b)
      : KeyTyped kbd.controlsState.shift scancode kbd.charBuffer (if p then a else b) := by
    split
    · exact ha ‹_›
    · exact hb ‹_›
  have silent {a : Keyboard} (none_ : scancode ∈ silentKeys ∨ scancode &&& 0x80 ≠ 0)
      (same : a.charBuffer = kbd.charBuffer)
      (shift : a.controlsState.shift = shiftBehind kbd.controlsState.shift scancode)
      : KeyTyped kbd.controlsState.shift scancode kbd.charBuffer a := by
    refine ⟨?_, shift⟩
    rw [typedChar, if_pos none_]
    exact same
  have kept {a : Keyboard} (other : scancode ≠ kbdKeyShift)
      (other' : scancode ≠ kbdKeyShift ||| kbdKeyReleased)
      (same : a.controlsState.shift = kbd.controlsState.shift)
      : a.controlsState.shift = shiftBehind kbd.controlsState.shift scancode := by
    rw [shiftBehind, if_neg other, if_neg other']
    exact same
  rw [keyboardHandler]
  refine pick (fun caps => ?_) fun caps => pick (fun num => ?_) fun num => pick (fun scroll => ?_)
    fun scroll => pick (fun reply => ?_) fun reply => pick (fun reply' => ?_) fun reply' =>
    pick (fun error => ?_) fun error => pick (fun down => ?_) fun down => pick (fun up => ?_)
    fun up => pick (fun ctrl => ?_) fun ctrl => pick (fun unctrl => ?_) fun unctrl =>
    pick (fun alt => ?_) fun alt => pick (fun unalt => ?_) fun unalt => pick (fun release => ?_)
    fun press => ?_
  · exact silent (by rw [caps]; decide) rfl (kept (by rw [caps]; decide) (by rw [caps]; decide) rfl)
  · exact silent (by rw [num]; decide) rfl (kept (by rw [num]; decide) (by rw [num]; decide) rfl)
  · exact silent (by rw [scroll]; decide) rfl
      (kept (by rw [scroll]; decide) (by rw [scroll]; decide) rfl)
  · exact silent (by rw [reply]; decide) resend.1
      (kept (by rw [reply]; decide) (by rw [reply]; decide) (by rw [resend.2]))
  · exact silent (by rw [reply']; decide) ack.1
      (kept (by rw [reply']; decide) (by rw [reply']; decide) (by rw [ack.2]))
  · rcases error with error | error
    · exact silent (by rw [error]; decide) rfl
        (kept (by rw [error]; decide) (by rw [error]; decide) rfl)
    · exact silent (by rw [error]; decide) rfl
        (kept (by rw [error]; decide) (by rw [error]; decide) rfl)
  · exact silent (by rw [down]; decide) rfl (by rw [shiftBehind, if_pos down])
  · exact silent (by rw [up]; decide) rfl (by rw [shiftBehind, if_neg down, if_pos up])
  · exact silent (by rw [ctrl]; decide) rfl (kept down up rfl)
  · exact silent (by rw [unctrl]; decide) rfl (kept down up rfl)
  · exact silent (by rw [alt]; decide) rfl (kept down up rfl)
  · exact silent (by rw [unalt]; decide) rfl (kept down up rfl)
  · exact silent (.inr release) rfl (kept down up rfl)
  · have loud : ¬ (scancode ∈ silentKeys ∨ scancode &&& 0x80 ≠ 0) := by
      rw [not_or] at error
      simp only [silentKeys, List.mem_cons, List.not_mem_nil, or_false]
      tauto
    refine ⟨?_, kept down up rfl⟩
    rw [typedChar, if_neg loud]

-----------------------------------------------------------------------------------------
-- One step
-----------------------------------------------------------------------------------------

section Steps

variable {st : Console} {unread : List UInt8}

/-- A task that spins keeps the processor. -/
theorem spinning_run (events : List ConsoleEvent) (spins : st.spinning = true)
    : (st.run events).spinning = true := by
  induction events generalizing st with
  | nil => exact spins
  | cons event events ih =>
      refine ih ?_
      unfold Console.step
      rw [if_pos spins]
      exact spins

theorem free_before {event : ConsoleEvent} {events : List ConsoleEvent}
    (free : (st.run (event :: events)).spinning = false)
    : st.spinning = false ∧ ((st.step event).run events).spinning = false := by
  refine ⟨?_, free⟩
  by_contra spins
  have later := spinning_run (event :: events) (Bool.not_eq_false _ ▸ spins)
  rw [free] at later
  contradiction

/-- A key puts its character behind those that wait, if there is room. -/
theorem key_waits (holds : Holds keyboardCharBufferSize st.keyboard.charBuffer unread)
    (free : st.spinning = false) (scancode : UInt8)
    : Holds keyboardCharBufferSize (st.step (.key scancode)).keyboard.charBuffer
        (unread ++ (keptChar st scancode).toList)
      ∧ (st.step (.key scancode)).keyboard.controlsState.shift
        = shiftBehind st.keyboard.controlsState.shift scancode := by
  have step : st.step (.key scancode)
      = { st with keyboard := keyboardHandler scancode st.keyboard } := by
    rw [Console.step, if_neg (by simp [free])]
  obtain ⟨buffer, shift⟩ := keyboardHandler_types scancode st.keyboard
  rw [step]
  refine ⟨?_, shift⟩
  change Holds _ (keyboardHandler scancode st.keyboard).charBuffer _
  rw [buffer, keptChar]
  cases typedChar st.keyboard.controlsState.shift scancode with
  | none => simpa using holds
  | some c =>
      by_cases room : st.keyboard.charBuffer.count < keyboardCharBufferSize
      · rw [if_pos room]
        rw [holds.count] at room
        obtain ⟨buffer', done, holds'⟩ := holds.enqueue room c
        simpa [enqueued, done] using holds'
      · rw [if_neg room]
        rw [holds.count] at room
        simpa [enqueued, holds.enqueue_full room c] using holds

/-- A task takes the character that has waited longest, or leaves the keyboard alone. -/
theorem task_takes (holds : Holds keyboardCharBufferSize st.keyboard.charBuffer unread) (id : Nat)
    (free : (st.step (.task id)).spinning = false) (before : st.spinning = false)
    : ∃ unread', Holds keyboardCharBufferSize (st.step (.task id)).keyboard.charBuffer unread'
      ∧ (st.returned id).toList ++ unread' = unread
      ∧ (st.step (.task id)).keyboard.controlsState = st.keyboard.controlsState := by
  have step : st.step (.task id) = getchStep id st := by
    rw [Console.step, if_neg (by simp [before])]
  rw [step] at free ⊢
  rw [getchStep] at free ⊢
  cases phase : st.phases id with
  | outside => exact ⟨unread, holds, by simp [Console.returned, phase], rfl⟩
  | check => exact ⟨unread, holds, by simp [Console.returned, phase], rfl⟩
  | recheck => exact ⟨unread, holds, by simp [Console.returned, phase], rfl⟩
  | yielding => exact ⟨unread, holds, by simp [Console.returned, phase], rfl⟩
  | reading =>
      rw [phase] at free
      dsimp only at free ⊢
      cases unread with
      | nil =>
          have none_ : keyboardGetChar st.keyboard = none := by
            rw [keyboardGetChar, cyclicBufferDequeue, if_neg holds.empty]
            rfl
          rw [none_] at free
          exact absurd free (by simp)
      | cons first rest =>
          obtain ⟨buffer', done, holds'⟩ := holds.dequeue
          have some_ : keyboardGetChar st.keyboard
              = some (first, { st.keyboard with charBuffer := buffer' }) := by
            rw [keyboardGetChar, done]
            rfl
          rw [some_]
          exact ⟨rest, holds', by simp [Console.returned, phase, some_], rfl⟩

end Steps

-----------------------------------------------------------------------------------------
-- Runs
-----------------------------------------------------------------------------------------

section Runs

variable {st : Console} {unread : List UInt8}

/-- What is read and what still waits, by induction over the events. -/
theorem run_passes (events : List ConsoleEvent)
    (holds : Holds keyboardCharBufferSize st.keyboard.charBuffer unread)
    (free : (st.run events).spinning = false)
    : ∃ unread', Holds keyboardCharBufferSize (st.run events).keyboard.charBuffer unread'
      ∧ returnedOf events st ++ unread' = unread ++ keptOf events st := by
  induction events generalizing st unread with
  | nil => exact ⟨unread, holds, by simp [returnedOf, keptOf]⟩
  | cons event events ih =>
      obtain ⟨before, later⟩ := free_before free
      cases event with
      | key scancode =>
          obtain ⟨unread', holds', same⟩ := ih (key_waits holds before scancode).1 later
          refine ⟨unread', holds', ?_⟩
          rw [returnedOf, same, keptOf, List.append_assoc]
      | task id =>
          have next : (st.step (.task id)).spinning = false := by
            cases events with
            | nil => exact later
            | cons event events => exact (free_before later).1
          obtain ⟨unread₁, holds₁, taken, -⟩ := task_takes holds id next before
          obtain ⟨unread', holds', same⟩ := ih holds₁ later
          refine ⟨unread', holds', ?_⟩
          rw [returnedOf, keptOf, List.append_assoc, same, ← List.append_assoc, taken]

/-- The characters that are kept are some of those that are typed, and all of them exactly if every
key finds room, by induction over the events.
-/
theorem kept_typed (events : List ConsoleEvent)
    (holds : Holds keyboardCharBufferSize st.keyboard.charBuffer unread)
    (free : (st.run events).spinning = false)
    : (keptOf events st).Sublist (typedOf st.keyboard.controlsState.shift events)
      ∧ (keptOf events st = typedOf st.keyboard.controlsState.shift events
        ↔ RoomForAll events st) := by
  induction events generalizing st unread with
  | nil => exact ⟨.refl _, iff_of_true rfl trivial⟩
  | cons event events ih =>
      obtain ⟨before, later⟩ := free_before free
      cases event with
      | key scancode =>
          obtain ⟨holds', shift⟩ := key_waits holds before scancode
          obtain ⟨some_, all⟩ := ih holds' later
          rw [shift] at some_ all
          simp only [keptOf, typedOf, RoomForAll, ← all]
          cases typed : typedChar st.keyboard.controlsState.shift scancode with
          | none =>
              have none_ : keptChar st scancode = none := by simp [keptChar, typed]
              simpa [none_] using some_
          | some c =>
              by_cases room : st.keyboard.charBuffer.count < keyboardCharBufferSize
              · have kept : keptChar st scancode = some c := by simp [keptChar, typed, room]
                simpa [kept, room] using some_
              · have none_ : keptChar st scancode = none := by simp [keptChar, room]
                have shorter := some_.length_le
                simp only [none_, Option.toList_none, List.nil_append, Option.toList_some,
                  List.singleton_append]
                refine ⟨some_.cons c, iff_of_false (fun same => ?_) (fun fits => ?_)⟩
                · rw [same, List.length_cons] at shorter
                  omega
                · exact room (fits.1 (by simp))
      | task id =>
          have next : (st.step (.task id)).spinning = false := by
            cases events with
            | nil => exact later
            | cons event events => exact (free_before later).1
          obtain ⟨unread₁, holds₁, -, same⟩ := task_takes holds id next before
          have rest := ih holds₁ later
          rwa [same] at rest

end Runs

/-- Whichever tasks read and whenever the keys come, what `getch` has returned and what still waits
are together the characters of the keys that found fewer than 64 waiting, in their order. These
are all characters exactly if every key with a character found room.
-/
theorem typed_characters_pass (commandBlock charBlock : Nat → UInt8) (events : List ConsoleEvent)
    (free : ((Console.start (initKeyboard commandBlock charBlock)).run events).spinning = false)
    : ∃ unread,
        Holds keyboardCharBufferSize
          ((Console.start (initKeyboard commandBlock charBlock)).run events).keyboard.charBuffer
          unread
        ∧ (returnedOf events (.start (initKeyboard commandBlock charBlock)) ++ unread).Sublist
          (typedOf false events)
        ∧ (returnedOf events (.start (initKeyboard commandBlock charBlock)) ++ unread
            = typedOf false events
          ↔ RoomForAll events (.start (initKeyboard commandBlock charBlock))) := by
  have holds : Holds keyboardCharBufferSize (initKeyboard commandBlock charBlock).charBuffer [] :=
    cyclicBufferInit_holds charBlock (by decide)
  obtain ⟨unread, holds', same⟩ :=
    @run_passes (.start (initKeyboard commandBlock charBlock)) [] events holds free
  obtain ⟨some_, all⟩ :=
    @kept_typed (.start (initKeyboard commandBlock charBlock)) [] events holds free
  refine ⟨unread, holds', ?_⟩
  rw [same, List.nil_append]
  exact ⟨some_, all⟩

/-- Two tasks read what is typed with and without shift. -/
def typingEvents : List ConsoleEvent :=
  [.key 0x2a, .key 0x1e, .key 0xaa, .key 0x1e, .task 1, .task 1, .task 2, .task 2, .task 2, .task 1]

theorem typed_characters_pass_two
    : ∃ unread,
        Holds keyboardCharBufferSize ((Console.start (initKeyboard (fun _ => 0) fun _ => 0)).run
          typingEvents).keyboard.charBuffer unread
        ∧ returnedOf typingEvents (.start (initKeyboard (fun _ => 0) fun _ => 0)) ++ unread
          = [65, 97] := by
  obtain ⟨unread, holds, -, all⟩ :=
    typed_characters_pass (fun _ => 0) (fun _ => 0) typingEvents (by decide +kernel)
  refine ⟨unread, holds, all.mpr ?_⟩
  exact ⟨fun _ => by decide, fun _ => by decide, fun _ => by decide, fun _ => by decide, trivial⟩

end DeadKernel
