import DeadKernel.Interrupts.DescriptorTables
import DeadKernel.Interrupts.FrameRoundTrip
import Mathlib.Data.List.Find
import Mathlib.Data.List.Nodup

/-! From a vector to a frame. Which words lie below the saved instruction pointer is agreed upon by
the processor, which pushes an error code or none, and the stub behind the gate, which makes up for
it or not. Every gate is open to tasks, so a task can break the agreement.
-/

namespace DeadKernel

open Words

-----------------------------------------------------------------------------------------
-- Gates and stubs
-----------------------------------------------------------------------------------------

/-- The entry points of `interrupts.s`. -/
inductive Label where
  | isr (n : Nat)
  | irq (n : Nat)
deriving DecidableEq

/-- A stub: what it pushes before it jumps to `ASMInterruptPreHandler`. -/
structure Stub where
  label : Label
  pushes : List Nat

def isrNoErrCode (n : Nat) : Stub := ⟨.isr n, [0, n]⟩

def isrErrCode (n : Nat) : Stub := ⟨.isr n, [n]⟩

def irq (n vector : Nat) : Stub := ⟨.irq n, [0, vector]⟩

def stubs : List Stub :=
  [isrNoErrCode 0, isrNoErrCode 1, isrNoErrCode 2, isrNoErrCode 3, isrNoErrCode 4, isrNoErrCode 5,
    isrNoErrCode 6, isrNoErrCode 7, isrErrCode 8, isrNoErrCode 9, isrErrCode 10, isrErrCode 11,
    isrErrCode 12, isrErrCode 13, isrErrCode 14, isrNoErrCode 15, isrNoErrCode 16, isrNoErrCode 17,
    isrNoErrCode 18, isrNoErrCode 19, isrNoErrCode 20, isrNoErrCode 21, isrNoErrCode 22,
    isrNoErrCode 23, isrNoErrCode 24, isrNoErrCode 25, isrNoErrCode 26, isrNoErrCode 27,
    isrNoErrCode 28, isrNoErrCode 29, isrNoErrCode 30, isrNoErrCode 31, isrNoErrCode 128,
    irq 0 32, irq 1 33, irq 2 34, irq 3 35, irq 4 36, irq 5 37, irq 6 38, irq 7 39, irq 8 40,
    irq 9 41, irq 10 42, irq 11 43, irq 12 44, irq 13 45, irq 14 46, irq 15 47]

/-- The vectors that `InitIDT` sets and where they lead, in its order. -/
def gateLabels : List (Nat × Label) :=
  (List.range 32).map (fun n => (n, .isr n)) ++ (128, .isr 128)
    :: (List.range 16).map (fun n => (32 + n, .irq n))

/-- A gate, as the processor reads it. -/
structure Gate where
  offset : BitVec 32
  selector : BitVec 16
  type : BitVec 5
  dpl : BitVec 2
  present : Bool

def IDTEntry.gate (entry : IDTEntry) : Gate where
  offset := entry.baseHigh ++ entry.baseLow
  selector := entry.sel
  type := entry.flags.extractLsb' 0 5
  dpl := entry.flags.extractLsb' 5 2
  present := entry.flags.getLsbD 7

/-- What makes the processor look at a vector: a device or a fault, and then the error code that it
pushes or not, or an `int` instruction.
-/
inductive Cause where
  | hardware (errCode : Option Nat)
  | int

def Cause.errCode : Cause → Option Nat
  | .hardware errCode => errCode
  | .int => none

/-- An `int` passes a gate whose privilege level is high enough. -/
def Cause.passes (cs : Nat) (gate : Gate) : Cause → Bool
  | .hardware _ => true
  | .int => decide (cs &&& 3 ≤ gate.dpl.toNat)

/-- The block of registers that `ASMInterruptPreHandler` stores below the stack pointer. -/
def Cpu.preHandler (cpu : Cpu) (stack : Stack) : Stack :=
  let esp := sub32 stack.esp 40
  ⟨storeWords [u32 (u32 (esp + 40) + 20), cpu.ds, cpu.cr3, cpu.edi, cpu.esi, cpu.ebx, cpu.edx,
    cpu.ecx, cpu.eax, cpu.ebp] esp stack.words, esp⟩

/-- What lies on the stack when the stub begins. -/
def Machine.trap (cause : Cause) (m : Machine) : Stack :=
  match cause.errCode with
  | some errCode => Stack.push errCode m.enter
  | none => m.enter

section

variable {address : Label → BitVec 32} {tables : DescriptorTables} {vector : Nat}

/-- The gate of a vector that is set. -/
def openGate (offset : BitVec 32) : Gate := ⟨offset, 0x08, 0b01110, 3, true⟩

/-- The vectors for which the stub counts on an error code. -/
def errCodeVectors : List Nat := [8, 10, 11, 12, 13, 14]

/-- What the stub behind the gate of a vector pushes. -/
def stubPushes (vector : Nat) : Option (List Nat) := do
  let label ← gateLabels.lookup vector
  let stub ← stubs.find? (fun stub => stub.label = label)
  some stub.pushes

theorem stubPushes_eq (inside : vector < 256)
    : stubPushes vector
      = if vector ∈ errCodeVectors then some [vector]
        else if vector < 48 ∨ vector = 128 then some [0, vector] else none := by
  have table : ∀ vector < 256, stubPushes vector
      = if vector ∈ errCodeVectors then some [vector]
        else if vector < 48 ∨ vector = 128 then some [0, vector] else none := by
    decide +kernel
  exact table vector inside

end

-----------------------------------------------------------------------------------------
-- Delivery
-----------------------------------------------------------------------------------------

section

variable {address : Label → BitVec 32} {tables : DescriptorTables} {vector : Nat} {cause : Cause}
  {m : Machine}

/-- The stubs lie at different addresses. -/
def Apart (address : Label → BitVec 32) : Prop :=
  (stubs.map fun stub => address stub.label).Nodup

instance (address : Label → BitVec 32) : Decidable (Apart address) :=
  inferInstanceAs (Decidable (List.Nodup _))

/-- An address finds the stub of its label. -/
theorem Apart.find (apart : Apart address) {label : Label}
    (found : gateLabels.lookup vector = some label)
    : stubs.find? (fun stub => address stub.label = (openGate (address label)).offset)
      = stubs.find? (fun stub => stub.label = label) := by
  have listed : ∀ gate ∈ gateLabels, ∃ stub ∈ stubs, stub.label = gate.2 := by decide
  obtain ⟨before, after, split, _⟩ := List.lookup_eq_some_iff.mp found
  obtain ⟨own, member, rfl⟩ := listed (vector, label) (by rw [split]; simp)
  refine List.find?_congr fun stub other => ?_
  rw [decide_eq_decide]
  constructor
  · intro same
    exact congrArg Stub.label (List.inj_on_of_nodup_map apart other member same)
  · intro same
    exact congrArg address same

/-- A processor saved on top of other words. -/
theorem StackHolds.preHandler {top : Nat} {words : Nat → Nat} {values : List Nat} {stack : Stack}
    (h : StackHolds top words values stack) (cpu : Cpu) (few : 10 + values.length < 64)
    : StackHolds top words ([u32 (stack.esp + 20), cpu.ds, cpu.cr3, cpu.edi, cpu.esi, cpu.ebx,
        cpu.edx, cpu.ecx, cpu.eax, cpu.ebp] ++ values) (cpu.preHandler stack) := by
  have small : stack.esp < wordSize := by
    rw [h.esp]
    exact Nat.mod_lt _ (by decide)
  have same : u32 (sub32 stack.esp 40 + 40) = stack.esp := by
    rw [u32_sub32_add (le_refl _)]
    exact sub32_zero small
  rw [Cpu.preHandler, same]
  exact h.store _ (by rw [List.length_append]; exact few)

/-- A word behind the registers. -/
theorem StackHolds.behind {top : Nat} {words : Nat → Nat} {values : List Nat} {stack : Stack}
    (h : StackHolds top words values stack) (cpu : Cpu)
    (few : 10 + values.length < 64) {i value : Nat}
    (at_i : values[i]? = some value)
    : (cpu.preHandler stack).words (frameWord (cpu.preHandler stack).esp (10 + i)) = value := by
  refine (h.preHandler cpu few).word ?_
  rw [List.getElem?_append_right (by simp)]
  simpa using at_i

end

end DeadKernel
