import DeadKernel.Io.CyclicBuffer

/-! The keyboard driver: the interrupt handler with its two buffers, and the two functions that
tasks read characters with.
-/

namespace DeadKernel

abbrev kbdCmdSetLeds : UInt8 := 0xED
abbrev kbdCmdSetScancodeTable : UInt8 := 0xF0
abbrev kbdCmdSetRepeatSpeed : UInt8 := 0xF3
abbrev kbdRetError0 : UInt8 := 0x00
abbrev kbdRetAck : UInt8 := 0xFA
abbrev kbdRetResend : UInt8 := 0xFE
abbrev kbdRetError1 : UInt8 := 0xFF
abbrev kbdKeyReleased : UInt8 := 0x80
abbrev kbdKeyShift : UInt8 := 0x2A
abbrev kbdKeyCtrl : UInt8 := 0x1D
abbrev kbdKeyAlt : UInt8 := 0x38
abbrev keyboardCommandBufferSize : Nat := 16
abbrev keyboardCharBufferSize : Nat := 64

def bytesOf (chars : List Char) : List UInt8 := chars.map (fun c => c.toNat.toUInt8)

/-- The characters of the scan codes 0 to 127. -/
def kbdus : List UInt8 :=
  [0, 27]
    ++ bytesOf ['1', '2', '3', '4', '5', '6', '7', '8', '9', '0', '-', '='] ++ [8, 9]
    ++ bytesOf ['q', 'w', 'e', 'r', 't', 'y', 'u', 'i', 'o', 'p', '[', ']'] ++ [10, 0]
    ++ bytesOf ['a', 's', 'd', 'f', 'g', 'h', 'j', 'k', 'l'] ++ [59, 39, 96, 0]
    ++ [92] ++ bytesOf ['z', 'x', 'c', 'v', 'b', 'n', 'm', ',', '.', '/'] ++ [0]
    ++ [42, 0, 32, 0] ++ List.replicate 10 0
    ++ [0, 0, 0, 0, 0, 45, 0, 0, 0, 43] ++ List.replicate 49 0

example : kbdus.length = 128 := rfl

example : kbdus.getD 0x1E 0 = 97 := rfl

def toupper (ch : UInt8) : UInt8 := if 97 ≤ ch ∧ ch ≤ 122 then ch - 32 else ch

structure KeyboardLEDState where
  scrollLock : Bool
  numLock : Bool
  capsLock : Bool
deriving DecidableEq

/-- The state's only byte. -/
def KeyboardLEDState.byte (state : KeyboardLEDState) : UInt8 :=
  (if state.scrollLock then 1 else 0) + (if state.numLock then 2 else 0)
    + (if state.capsLock then 4 else 0)

structure KeyboardControlsState where
  shift : Bool
  alt : Bool
  ctrl : Bool
deriving DecidableEq

/-- `port` holds the bytes written to port 0x60, the last one first. -/
structure Keyboard where
  ledState : KeyboardLEDState
  controlsState : KeyboardControlsState
  commandBuffer : CyclicBuffer
  charBuffer : CyclicBuffer
  resendCounter : Nat
  port : List UInt8

/-- An enqueue whose result nobody reads. -/
def enqueued (buffer : CyclicBuffer) (value : UInt8) : CyclicBuffer :=
  (cyclicBufferEnqueue buffer value).getD buffer

/-- A dequeue whose result nobody reads: the byte left in `tmp`, and the buffer. -/
def dequeued (buffer : CyclicBuffer) (tmp : UInt8) : UInt8 × CyclicBuffer :=
  (cyclicBufferDequeue buffer).getD (tmp, buffer)

def commandPutWithArg (cmd arg : UInt8) (kbd : Keyboard) : Keyboard :=
  { kbd with commandBuffer := enqueued (enqueued kbd.commandBuffer cmd) arg }

def kbdWrite (byte : UInt8) (kbd : Keyboard) : Keyboard :=
  { kbd with port := byte :: kbd.port }

/-- The code behind the label `_send`. -/
def sendCommand (tmp : UInt8) (kbd : Keyboard) : Keyboard :=
  kbdWrite ((cyclicBufferRead kbd.commandBuffer).getD tmp) kbd

/-- A lock key: its new state goes to the keyboard at once. -/
def lockKey (ledState : KeyboardLEDState) (kbd : Keyboard) : Keyboard :=
  sendCommand 0 (commandPutWithArg kbdCmdSetLeds ledState.byte { kbd with ledState })

/-- The reply `KBD_RET_RESEND`: the third one in a row gives the command up. -/
def resendReply (kbd : Keyboard) : Keyboard :=
  if 2 ≤ kbd.resendCounter then
    let (tmp, commandBuffer) := dequeued kbd.commandBuffer 0
    let commandBuffer :=
      if tmp = kbdCmdSetLeds ∨ tmp = kbdCmdSetScancodeTable ∨ tmp = kbdCmdSetRepeatSpeed then
        (dequeued commandBuffer tmp).2
      else commandBuffer
    { kbd with commandBuffer, resendCounter := 0 }
  else sendCommand 0 { kbd with resendCounter := (kbd.resendCounter + 1) % 256 }

/-- The reply `KBD_RET_ACK`. -/
def ackReply (kbd : Keyboard) : Keyboard :=
  let (tmp, commandBuffer) := dequeued kbd.commandBuffer 0
  let kbd := { kbd with commandBuffer }
  if commandBuffer.count = 0 then kbd else sendCommand tmp kbd

/-- `keyboardHandler`, for the byte read from port 0x60. -/
def keyboardHandler (scancode : UInt8) (kbd : Keyboard) : Keyboard :=
  if scancode = 0x3a then
    lockKey { kbd.ledState with capsLock := ! kbd.ledState.capsLock } kbd
  else if scancode = 0x45 then
    lockKey { kbd.ledState with numLock := ! kbd.ledState.numLock } kbd
  else if scancode = 0x46 then
    lockKey { kbd.ledState with scrollLock := ! kbd.ledState.scrollLock } kbd
  else if scancode = kbdRetResend then resendReply kbd
  else if scancode = kbdRetAck then ackReply kbd
  else if scancode = kbdRetError0 ∨ scancode = kbdRetError1 then kbd
  else if scancode = kbdKeyShift then
    { kbd with controlsState := { kbd.controlsState with shift := true } }
  else if scancode = kbdKeyShift ||| kbdKeyReleased then
    { kbd with controlsState := { kbd.controlsState with shift := false } }
  else if scancode = kbdKeyCtrl then
    { kbd with controlsState := { kbd.controlsState with ctrl := true } }
  else if scancode = kbdKeyCtrl ||| kbdKeyReleased then
    { kbd with controlsState := { kbd.controlsState with ctrl := false } }
  else if scancode = kbdKeyAlt then
    { kbd with controlsState := { kbd.controlsState with alt := true } }
  else if scancode = kbdKeyAlt ||| kbdKeyReleased then
    { kbd with controlsState := { kbd.controlsState with alt := false } }
  else if scancode &&& 0x80 ≠ 0 then kbd
  else
    let ch := kbdus.getD scancode.toNat 0
    { kbd with
      charBuffer := enqueued kbd.charBuffer (if kbd.controlsState.shift then toupper ch else ch) }

/-- `initKeyboard`, over what lies in the blocks of the two buffers. -/
def initKeyboard (commandBlock charBlock : Nat → UInt8) : Keyboard :=
  let kbd : Keyboard :=
    { ledState := ⟨false, false, false⟩
      controlsState := ⟨false, false, false⟩
      commandBuffer := cyclicBufferInit commandBlock keyboardCommandBufferSize
      charBuffer := cyclicBufferInit charBlock keyboardCharBufferSize
      resendCounter := 0
      port := [] }
  let kbd := commandPutWithArg kbdCmdSetLeds kbd.ledState.byte kbd
  let kbd := { kbd with ledState := { kbd.ledState with numLock := true } }
  let kbd := commandPutWithArg kbdCmdSetLeds kbd.ledState.byte kbd
  let kbd := commandPutWithArg kbdCmdSetRepeatSpeed 0x20 kbd
  sendCommand 0 kbd

def keyboardReadReady (kbd : Keyboard) : Bool := 0 < kbd.charBuffer.count

/-- `keyboardGetChar`; on an empty buffer its loop does not end, since interrupts are off. -/
def keyboardGetChar (kbd : Keyboard) : Option (UInt8 × Keyboard) :=
  (cyclicBufferDequeue kbd.charBuffer).map
    (fun (ch, charBuffer) => (ch, { kbd with charBuffer }))

end DeadKernel
