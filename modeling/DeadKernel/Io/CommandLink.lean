import DeadKernel.Io.Keyboard
import DeadKernel.Io.RingContents

/-! The command side of the keyboard driver, as a machine on the list of bytes in its queue. -/

namespace DeadKernel

open Words

/-- The bytes of a buffer, the oldest one first. -/
def cyclicBufferContents (buffer : CyclicBuffer) : List UInt8 :=
  (List.range buffer.count).map (fun i => buffer.data ((buffer.front + i) % buffer.size))

theorem Holds.contents_eq {size : Nat} {buffer : CyclicBuffer} {contents : List UInt8}
    (h : Holds size buffer contents)
    : cyclicBufferContents buffer = contents := by
  have count := h.count
  apply List.ext_getElem
  · simp only [cyclicBufferContents, List.length_map, List.length_range, count]
  · intro i inside inside'
    simp only [cyclicBufferContents, List.getElem_map, List.getElem_range, h.capacity]
    exact h.bytes i inside'

/-- The commands that an argument follows. -/
def takesArgument (byte : UInt8) : Bool :=
  byte = kbdCmdSetLeds || byte = kbdCmdSetScancodeTable || byte = kbdCmdSetRepeatSpeed

structure CommandLink where
  contents : List UInt8
  ledState : KeyboardLEDState
  resendCounter : Nat
  port : List UInt8

def CommandLink.offer (byte : UInt8) (link : CommandLink) : CommandLink :=
  if link.contents.length < keyboardCommandBufferSize then
    { link with contents := link.contents ++ [byte] }
  else link

def CommandLink.send (tmp : UInt8) (link : CommandLink) : CommandLink :=
  { link with port := link.contents.headD tmp :: link.port }

def CommandLink.lockKey (ledState : KeyboardLEDState) (link : CommandLink) : CommandLink :=
  ((({ link with ledState }).offer kbdCmdSetLeds).offer ledState.byte).send 0

/-- The first command, or the argument that is left of it. -/
def dropCommand : List UInt8 → List UInt8
  | [] => []
  | first :: rest => if takesArgument first then rest.tail else rest

def CommandLink.resend (link : CommandLink) : CommandLink :=
  if 2 ≤ link.resendCounter then
    { link with contents := dropCommand link.contents, resendCounter := 0 }
  else CommandLink.send 0 { link with resendCounter := (link.resendCounter + 1) % 256 }

def CommandLink.ack (link : CommandLink) : CommandLink :=
  let link := { link with contents := link.contents.tail }
  if link.contents = [] then link else link.send 0

/-- The locks that a scan code toggles. -/
def toggledLock (scancode : UInt8) (ledState : KeyboardLEDState) : Option KeyboardLEDState :=
  if scancode = 0x3a then some { ledState with capsLock := ! ledState.capsLock }
  else if scancode = 0x45 then some { ledState with numLock := ! ledState.numLock }
  else if scancode = 0x46 then some { ledState with scrollLock := ! ledState.scrollLock }
  else none

def isLockKey (scancode : UInt8) : Bool :=
  scancode = 0x3a || scancode = 0x45 || scancode = 0x46

theorem isLockKey_iff (scancode : UInt8) (ledState : KeyboardLEDState)
    : isLockKey scancode = true ↔ ∃ toggled, toggledLock scancode ledState = some toggled := by
  rw [toggledLock, isLockKey]
  by_cases caps : scancode = 0x3a
  · simp [caps]
  by_cases num : scancode = 0x45
  · simp [num]
  by_cases scroll : scancode = 0x46
  · simp [scroll]
  simp [caps, num, scroll]

def CommandLink.handle (scancode : UInt8) (link : CommandLink) : CommandLink :=
  match toggledLock scancode link.ledState with
  | some ledState => link.lockKey ledState
  | none =>
      if scancode = kbdRetResend then link.resend
      else if scancode = kbdRetAck then link.ack
      else link

/-- A lock key queues its command whole, without its argument, or not at all. -/
theorem CommandLink.lockKey_contents (link : CommandLink) (ledState : KeyboardLEDState)
    : (link.lockKey ledState).contents
      = if link.contents.length + 1 < keyboardCommandBufferSize then
          link.contents ++ [kbdCmdSetLeds, ledState.byte]
        else if link.contents.length < keyboardCommandBufferSize then
          link.contents ++ [kbdCmdSetLeds]
        else link.contents := by
  simp only [CommandLink.lockKey, CommandLink.send, CommandLink.offer]
  by_cases room : link.contents.length < keyboardCommandBufferSize
  · simp only [if_pos room, List.length_append, List.length_singleton]
    by_cases both : link.contents.length + 1 < keyboardCommandBufferSize
    · simp only [if_pos both, List.append_assoc, List.cons_append, List.nil_append]
    · simp only [if_neg both]
  · have full : ¬ link.contents.length + 1 < keyboardCommandBufferSize := by omega
    simp only [if_neg room, if_neg full]

/-- The bytes of a lock key's command that find room. -/
theorem CommandLink.lockKey_entering (link : CommandLink) (ledState : KeyboardLEDState)
    : (link.lockKey ledState).contents
      = link.contents
        ++ [kbdCmdSetLeds, ledState.byte].take
          (keyboardCommandBufferSize - link.contents.length) := by
  rw [CommandLink.lockKey_contents]
  by_cases both : link.contents.length + 1 < keyboardCommandBufferSize
  · rw [if_pos both, List.take_of_length_le]
    simp only [List.length_cons, List.length_nil]
    omega
  rw [if_neg both]
  by_cases one : link.contents.length < keyboardCommandBufferSize
  · have left : keyboardCommandBufferSize - link.contents.length = 1 := by omega
    rw [if_pos one, left]
    rfl
  · have left : keyboardCommandBufferSize - link.contents.length = 0 := by omega
    rw [if_neg one, left, List.take_zero, List.append_nil]

-----------------------------------------------------------------------------------------
-- The driver simulates the link
-----------------------------------------------------------------------------------------

/-- The driver's command buffer holds the link's bytes, and the rest agrees. -/
structure Drives (kbd : Keyboard) (link : CommandLink) : Prop where
  contents : Holds keyboardCommandBufferSize kbd.commandBuffer link.contents
  ledState : kbd.ledState = link.ledState
  resendCounter : kbd.resendCounter = link.resendCounter
  port : kbd.port = link.port

section Drives

variable {kbd : Keyboard} {link : CommandLink}

theorem Drives.enqueued (h : Drives kbd link) (byte : UInt8)
    : Drives { kbd with commandBuffer := enqueued kbd.commandBuffer byte }
        (link.offer byte) := by
  rw [CommandLink.offer]
  by_cases room : link.contents.length < keyboardCommandBufferSize
  · obtain ⟨buffer, stored, holds⟩ := h.contents.enqueue room byte
    rw [if_pos room, DeadKernel.enqueued, stored]
    exact ⟨holds, h.ledState, h.resendCounter, h.port⟩
  · rw [if_neg room, DeadKernel.enqueued, h.contents.enqueue_full room byte]
    exact h

theorem Drives.commandPutWithArg (h : Drives kbd link) (cmd arg : UInt8)
    : Drives (commandPutWithArg cmd arg kbd) ((link.offer cmd).offer arg) :=
  (h.enqueued cmd).enqueued arg

/-- What a read leaves in `tmp`. -/
theorem Holds.read_headD {size : Nat} {buffer : CyclicBuffer} {contents : List UInt8}
    (h : Holds size buffer contents) (tmp : UInt8)
    : (cyclicBufferRead buffer).getD tmp = contents.headD tmp := by
  cases contents with
  | nil =>
      rw [cyclicBufferRead, if_neg h.empty]
      rfl
  | cons first rest =>
      obtain ⟨some, oldest⟩ := h.first
      rw [cyclicBufferRead, if_pos some, oldest]
      rfl

theorem Drives.sendCommand (h : Drives kbd link) (tmp : UInt8)
    : Drives (sendCommand tmp kbd) (link.send tmp) where
  contents := h.contents
  ledState := h.ledState
  resendCounter := h.resendCounter
  port := by
    simp only [DeadKernel.sendCommand, kbdWrite, CommandLink.send, h.port,
      h.contents.read_headD tmp]

theorem Holds.dequeued {size : Nat} {buffer : CyclicBuffer} {contents : List UInt8}
    (h : Holds size buffer contents) (tmp : UInt8)
    : (dequeued buffer tmp).1 = contents.headD tmp
      ∧ Holds size (dequeued buffer tmp).2 contents.tail := by
  cases contents with
  | nil =>
      rw [DeadKernel.dequeued, cyclicBufferDequeue, if_neg h.empty]
      exact ⟨rfl, h⟩
  | cons first rest =>
      obtain ⟨buffer', taken, holds⟩ := h.dequeue
      rw [DeadKernel.dequeued, taken]
      exact ⟨rfl, holds⟩

theorem takesArgument_iff (byte : UInt8)
    : takesArgument byte = true ↔ byte = kbdCmdSetLeds ∨ byte = kbdCmdSetScancodeTable
        ∨ byte = kbdCmdSetRepeatSpeed := by
  simp only [takesArgument, Bool.or_eq_true, decide_eq_true_eq, or_assoc]

/-- Giving up takes the argument off as well, when the command has one. -/
theorem dropCommand_eq (contents : List UInt8)
    : dropCommand contents
      = if takesArgument (contents.headD 0) then contents.tail.tail else contents.tail := by
  cases contents with
  | nil => rfl
  | cons first rest => rfl

theorem Drives.resendReply (h : Drives kbd link) : Drives (resendReply kbd) link.resend := by
  rw [DeadKernel.resendReply, CommandLink.resend, h.resendCounter]
  by_cases third : 2 ≤ link.resendCounter
  · rw [if_pos third, if_pos third]
    obtain ⟨first, rest⟩ := h.contents.dequeued 0
    refine ⟨?_, h.ledState, rfl, h.port⟩
    simp only [first, ← takesArgument_iff]
    rw [dropCommand_eq]
    split
    · exact (rest.dequeued _).2
    · exact rest
  · rw [if_neg third, if_neg third]
    have counted : Drives { kbd with resendCounter := (link.resendCounter + 1) % 256 }
        { link with resendCounter := (link.resendCounter + 1) % 256 } :=
      ⟨h.contents, h.ledState, rfl, h.port⟩
    exact counted.sendCommand 0

theorem Drives.ackReply (h : Drives kbd link) : Drives (ackReply kbd) link.ack := by
  obtain ⟨-, rest⟩ := h.contents.dequeued 0
  have dropped : Drives { kbd with commandBuffer := (dequeued kbd.commandBuffer 0).2 }
      { link with contents := link.contents.tail } :=
    ⟨rest, h.ledState, h.resendCounter, h.port⟩
  rw [DeadKernel.ackReply, CommandLink.ack]
  dsimp only
  by_cases empty : link.contents.tail = []
  · rw [if_pos empty, if_pos (by rw [rest.count, empty, List.length_nil])]
    exact dropped
  · have some : ¬ (dequeued kbd.commandBuffer 0).2.count = 0 := by
      rw [rest.count]
      exact fun none => empty (List.length_eq_zero_iff.mp none)
    rw [if_neg empty, if_neg some]
    -- The queue is not empty, so that what is left in `tmp` does not matter.
    obtain ⟨first, later, same⟩ := List.exists_cons_of_ne_nil empty
    have sent := dropped.sendCommand (dequeued kbd.commandBuffer 0).1
    refine ⟨sent.contents, sent.ledState, sent.resendCounter, ?_⟩
    rw [sent.port]
    simp only [CommandLink.send, same, List.headD_cons]

theorem Drives.lockKey (h : Drives kbd link) (ledState : KeyboardLEDState)
    : Drives (lockKey ledState kbd) (link.lockKey ledState) := by
  have toggled : Drives { kbd with ledState } { link with ledState } :=
    ⟨h.contents, rfl, h.resendCounter, h.port⟩
  exact (toggled.commandPutWithArg kbdCmdSetLeds ledState.byte).sendCommand 0

/-- The bytes behind the replies only reach the other fields. -/
theorem Drives.other (h : Drives kbd link) (controlsState : KeyboardControlsState)
    (charBuffer : CyclicBuffer)
    : Drives { kbd with controlsState, charBuffer } link :=
  ⟨h.contents, h.ledState, h.resendCounter, h.port⟩

theorem Drives.ite {condition : Prop} [Decidable condition] {kbd' : Keyboard}
    (h : Drives kbd link) (h' : Drives kbd' link)
    : Drives (if condition then kbd else kbd') link := by
  split
  · exact h
  · exact h'

theorem Drives.keyboardHandler (h : Drives kbd link) (scancode : UInt8)
    : Drives (keyboardHandler scancode kbd) (link.handle scancode) := by
  rw [DeadKernel.keyboardHandler, CommandLink.handle, toggledLock, ← h.ledState]
  by_cases caps : scancode = 0x3a
  · rw [if_pos caps, if_pos caps]
    exact h.lockKey _
  rw [if_neg caps, if_neg caps]
  by_cases num : scancode = 0x45
  · rw [if_pos num, if_pos num]
    exact h.lockKey _
  rw [if_neg num, if_neg num]
  by_cases scroll : scancode = 0x46
  · rw [if_pos scroll, if_pos scroll]
    exact h.lockKey _
  rw [if_neg scroll, if_neg scroll]
  dsimp only
  by_cases resend : scancode = kbdRetResend
  · rw [if_pos resend, if_pos resend]
    exact h.resendReply
  rw [if_neg resend, if_neg resend]
  by_cases ack : scancode = kbdRetAck
  · rw [if_pos ack, if_pos ack]
    exact h.ackReply
  rw [if_neg ack, if_neg ack]
  apply Drives.ite h
  apply Drives.ite (h.other _ _)
  apply Drives.ite (h.other _ _)
  apply Drives.ite (h.other _ _)
  apply Drives.ite (h.other _ _)
  apply Drives.ite (h.other _ _)
  apply Drives.ite (h.other _ _)
  exact Drives.ite h (h.other _ _)

end Drives

/-- The link after `initKeyboard`: three commands are queued and the first byte is on its way. -/
def CommandLink.init : CommandLink where
  contents := [kbdCmdSetLeds, 0, kbdCmdSetLeds, 2, kbdCmdSetRepeatSpeed, 0x20]
  ledState := ⟨false, true, false⟩
  resendCounter := 0
  port := [kbdCmdSetLeds]

theorem initKeyboard_drives (commandBlock charBlock : Nat → UInt8)
    : Drives (initKeyboard commandBlock charBlock) CommandLink.init := by
  let fresh : Keyboard :=
    { ledState := ⟨false, false, false⟩
      controlsState := ⟨false, false, false⟩
      commandBuffer := cyclicBufferInit commandBlock keyboardCommandBufferSize
      charBuffer := cyclicBufferInit charBlock keyboardCharBufferSize
      resendCounter := 0
      port := [] }
  have start : Drives fresh ⟨[], ⟨false, false, false⟩, 0, []⟩ :=
    ⟨cyclicBufferInit_holds commandBlock (by decide), rfl, rfl, rfl⟩
  have leds := start.commandPutWithArg kbdCmdSetLeds 0
  have numLock : Drives { commandPutWithArg kbdCmdSetLeds 0 fresh with
      ledState := ⟨false, true, false⟩ } ⟨[kbdCmdSetLeds, 0], ⟨false, true, false⟩, 0, []⟩ :=
    ⟨leds.contents, rfl, leds.resendCounter, leds.port⟩
  have commands := (numLock.commandPutWithArg kbdCmdSetLeds 2).commandPutWithArg
    kbdCmdSetRepeatSpeed 0x20
  exact commands.sendCommand 0

-----------------------------------------------------------------------------------------
-- Runs
-----------------------------------------------------------------------------------------

/-- The interrupts of a run, one scan code each. -/
def keyboardRun (scancodes : List UInt8) (kbd : Keyboard) : Keyboard :=
  scancodes.foldl (fun kbd scancode => keyboardHandler scancode kbd) kbd

def CommandLink.run (scancodes : List UInt8) (link : CommandLink) : CommandLink :=
  scancodes.foldl (fun link scancode => link.handle scancode) link

theorem Drives.run {kbd : Keyboard} {link : CommandLink} (h : Drives kbd link)
    (scancodes : List UInt8)
    : Drives (keyboardRun scancodes kbd) (link.run scancodes) := by
  induction scancodes generalizing kbd link with
  | nil => exact h
  | cons scancode rest ih => exact ih (h.keyboardHandler scancode)

end DeadKernel
