import DeadKernel.Interrupts.FrameRoundTrip
import DeadKernel.Multitasking.SysCallTable

/-! System calls as their callers see them. A stub takes up to five arguments from the stack of its
caller into registers, `SysCallHandler` puts them on the kernel stack for the function of that
number, and what the function returns comes back in `eax`.
-/

namespace DeadKernel

open Words

-----------------------------------------------------------------------------------------
-- Stubs and functions
-----------------------------------------------------------------------------------------

/-- The functions that modules call, with what the kernel does for them under the same number. -/
inductive SysCallName where
  | getPID
  | yield
  | fork
  | screenGetColor
  | screenSetColor
  | screenPutChar
  | screenPutString
  | screenClear
  | keyboardReadReady
  | keyboardGetChar
  | malloc
  | free
  | PCIDirectScan
  | semctl
deriving DecidableEq

/-- The number that the stub puts in `eax`. -/
def SysCallName.stub : SysCallName → Nat
  | .getPID => 0x0
  | .yield => 0x1
  | .fork => 0x2
  | .screenGetColor => 0x3
  | .screenSetColor => 0x4
  | .screenPutChar => 0x5
  | .screenPutString => 0x6
  | .screenClear => 0x7
  | .keyboardReadReady => 0x8
  | .keyboardGetChar => 0x9
  | .malloc => 0xa
  | .free => 0xb
  | .PCIDirectScan => 0xc
  | .semctl => 0xd

/-- A function of the kernel: five argument words and memory, its result and memory. Functions with
fewer arguments do not look at the last ones.
-/
abbrev KernelFunction := Nat → Nat → Nat → Nat → Nat → (Nat → Nat) → Nat × (Nat → Nat)

/-- A word of the caller's stack; the return address is the first. -/
def Machine.argument (m : Machine) (k : Nat) : Nat := m.words (frameWord m.cpu.esp k)

/-- A stub up to `int 0x80`, behind which it goes on at `next`. -/
def sysCallStub (num next : Nat) (m : Machine) : Machine :=
  { m with cpu := { m.cpu with
      eax := num
      ebx := m.argument 1
      ecx := m.argument 2
      edx := m.argument 3
      esi := m.argument 4
      edi := m.argument 5
      eip := next } }

/-- `int 0x80`: the frame, `SysCallHandler` and the return. -/
def Machine.sysCall (function : Nat → KernelFunction) (table : Nat → Nat) (m : Machine) : Machine :=
  let stack := m.saveFrame 128 0
  let regs := loadFrame stack.words stack.esp
  match calledFunction table regs with
  | none => { m with cpu := leave stack.words stack.esp, words := stack.words }
  | some location =>
      let (ret, words) := function location regs.ebx regs.ecx regs.edx regs.esi regs.edi stack.words
      let words := Function.update words (frameWord stack.esp 8) ret
      { m with cpu := leave words stack.esp, words }

/-- `ret`. -/
def Machine.ret (m : Machine) : Machine :=
  { m with cpu := { m.cpu with eip := m.words m.cpu.esp, esp := u32 (m.cpu.esp + 4) } }

section

variable {address : SysCallName → Nat} {memory : Nat → Nat}

end

-----------------------------------------------------------------------------------------
-- The way there and back
-----------------------------------------------------------------------------------------

/-- Memory when a function of the kernel is called for a stub. -/
def Machine.entered (num next : Nat) (m : Machine) : Nat → Nat :=
  ((sysCallStub num next m).saveFrame 128 0).words

/-- What the function does with the caller's arguments. -/
def Machine.served (function : KernelFunction) (num next : Nat) (m : Machine)
    : Nat × (Nat → Nat) :=
  function (m.argument 1) (m.argument 2) (m.argument 3) (m.argument 4) (m.argument 5)
    (m.entered num next)

/-- A task in ring 3 with room for a frame on its kernel stack, which does not lie over the words
that a stub uses.
-/
structure CallsFromUser (m : Machine) : Prop where
  ring : m.cpu.cs &&& 3 ≠ 0
  esp : m.cpu.esp < wordSize
  kernelStack : m.tasking.kernelStack < wordSize
  room : 68 ≤ m.tasking.kernelStack
  apart : ∀ k < 6, ∀ i < 17,
    frameWord m.cpu.esp k ≠ frameWord (sub32 m.tasking.kernelStack 68) i

section

variable {m : Machine} {num next : Nat}

/-- The frame of a stub holds its number and the caller's arguments. -/
theorem CallsFromUser.saved (h : CallsFromUser m) (num next : Nat)
    : StackHolds m.tasking.kernelStack m.words ((sysCallStub num next m).frameValues 128 0)
        ((sysCallStub num next m).saveFrame 128 0)
      ∧ ((sysCallStub num next m).frameValues 128 0).length = 17
      ∧ ((sysCallStub num next m).saveFrame 128 0).esp = sub32 m.tasking.kernelStack 68 := by
  have top : (sysCallStub num next m).frameTop = m.tasking.kernelStack := if_neg h.ring
  have small : (sysCallStub num next m).frameTop < wordSize := top ▸ h.kernelStack
  have saved := (sysCallStub num next m).saveFrame_stacked 128 0 small
  have ring : (sysCallStub num next m).cpu.cs &&& 3 ≠ 0 := h.ring
  have length : ((sysCallStub num next m).frameValues 128 0).length = 17 := by
    rw [Machine.frameValues, Machine.pushed, if_neg ring]
    rfl
  rw [top] at saved
  refine ⟨saved, length, ?_⟩
  rw [saved.esp, length]

/-- Outside the frame, a function of the kernel sees the memory of its caller. -/
theorem CallsFromUser.entered (h : CallsFromUser m) (num next : Nat) {address : Nat}
    (outside : ∀ i < 17, address ≠ frameWord (sub32 m.tasking.kernelStack 68) i)
    : m.entered num next address = m.words address := by
  obtain ⟨saved, length, -⟩ := h.saved num next
  refine saved.others address fun i inside => ?_
  rw [length] at inside ⊢
  rw [← frameWord_sub32 (by omega)]
  exact outside i inside

/-- What `SysCallHandler` reads from the frame. -/
theorem CallsFromUser.loaded (h : CallsFromUser m) (num next : Nat)
    : let regs := loadFrame (m.entered num next) (sub32 m.tasking.kernelStack 68)
      regs.eax = num ∧ regs.ebx = m.argument 1 ∧ regs.ecx = m.argument 2
        ∧ regs.edx = m.argument 3 ∧ regs.esi = m.argument 4 ∧ regs.edi = m.argument 5 := by
  obtain ⟨saved, -, place⟩ := h.saved num next
  have word (i value : Nat) (at_i : ((sysCallStub num next m).frameValues 128 0)[i]? = some value)
      : m.entered num next (frameWord (sub32 m.tasking.kernelStack 68) i) = value :=
    place ▸ saved.word at_i
  generalize m.entered num next = words at word ⊢
  generalize sub32 m.tasking.kernelStack 68 = frame at word ⊢
  exact ⟨word 8 _ rfl, word 5 _ rfl, word 7 _ rfl, word 6 _ rfl, word 4 _ rfl, word 3 _ rfl⟩

end

end DeadKernel
