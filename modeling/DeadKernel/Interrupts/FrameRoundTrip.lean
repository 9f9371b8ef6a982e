import DeadKernel.Multitasking.KernelStack

/-! An interrupt that nobody notices. The stub and the first half of `ASMInterruptPreHandler` save
the processor in the words of a frame, the second half loads it from there. What is interrupted goes
on as if nothing had been, as long as the handler leaves the words of the frame alone.
-/

namespace DeadKernel

open Words

-----------------------------------------------------------------------------------------
-- Words on a stack
-----------------------------------------------------------------------------------------

/-- The address of a word of a frame. -/
def frameWord (frame i : Nat) : Nat := u32 (frame + 4 * i)

/-- Values lie on the stack below `top`, the last one highest, and nothing else was written. -/
structure StackHolds (top : Nat) (words : Nat → Nat) (values : List Nat) (stack : Stack)
    : Prop where
  esp : stack.esp = sub32 top (4 * values.length)
  field : ∀ i value, values[i]? = some value →
    stack.words (sub32 top (4 * values.length - 4 * i)) = value
  others : ∀ address, (∀ i < values.length, address ≠ sub32 top (4 * values.length - 4 * i)) →
    stack.words address = words address

section

variable {top down frame : Nat} {words : Nat → Nat} {values : List Nat} {stack : Stack}

theorem frameWord_sub32 {i : Nat} (inside : 4 * i ≤ down)
    : frameWord (sub32 top down) i = sub32 top (down - 4 * i) :=
  u32_sub32_add inside

theorem StackHolds.nothing (small : top < wordSize) : StackHolds top words [] ⟨words, top⟩ where
  esp := (sub32_zero small).symm
  field i value at_i := by simp at at_i
  others _ _ := rfl

theorem StackHolds.push (h : StackHolds top words values stack) (few : values.length < 64)
    (value : Nat)
    : StackHolds top words (value :: values) (stack.push value) := by
  have small : 4 * values.length + 4 < wordSize := by
    simp only [wordSize]
    omega
  have place : sub32 stack.esp 4 = sub32 top (4 * (value :: values).length) := by
    rw [h.esp, sub32_sub32, List.length_cons]
    congr 1
  have lower (i : Nat)
      : 4 * (value :: values).length - 4 * (i + 1) = 4 * values.length - 4 * i := by
    rw [List.length_cons]
    omega
  have pushed : (stack.push value).words = Function.update stack.words (sub32 stack.esp 4) value :=
    rfl
  refine ⟨place, fun i other at_i => ?_, fun address elsewhere => ?_⟩
  · cases i with
    | zero =>
        obtain rfl := Option.some.inj at_i
        rw [Nat.mul_zero, Nat.sub_zero, ← place, pushed, Function.update_self]
    | succ i =>
        have apart : sub32 top (4 * values.length - 4 * i) ≠ sub32 stack.esp 4 := by
          rw [place, List.length_cons, Ne, sub32_inj (by omega) (by omega)]
          omega
        rw [lower, pushed, Function.update_of_ne apart]
        exact h.field i other at_i
  · have first := elsewhere 0 (Nat.zero_lt_succ _)
    rw [Nat.mul_zero, Nat.sub_zero, ← place] at first
    rw [pushed, Function.update_of_ne first]
    refine h.others address fun i inside => ?_
    rw [← lower i]
    exact elsewhere (i + 1) (Nat.succ_lt_succ inside)

/-- Words that are stored nowhere else leave an address alone, by induction on them. -/
theorem storeWords_elsewhere {address : Nat} (values : List Nat) (down : Nat) (words : Nat → Nat)
    (fits : 4 * values.length ≤ down)
    (elsewhere : ∀ i < values.length, address ≠ sub32 top (down - 4 * i))
    : storeWords values (sub32 top down) words address = words address := by
  induction values generalizing down words with
  | nil => rfl
  | cons value rest ih =>
      rw [List.length_cons] at fits elsewhere
      have first := elsewhere 0 (Nat.zero_lt_succ _)
      rw [Nat.mul_zero, Nat.sub_zero] at first
      rw [storeWords, u32_sub32_add (by omega), ih _ _ (by omega) (fun i inside => ?_),
        Function.update_of_ne first]
      have next := elsewhere (i + 1) (by omega)
      rwa [Nat.mul_add, Nat.add_comm, ← Nat.sub_sub] at next

/-- A whole block is stored below what lies on the stack. -/
theorem StackHolds.store (h : StackHolds top words values stack) (block : List Nat)
    (few : (block ++ values).length < 64)
    : StackHolds top words (block ++ values)
        ⟨storeWords block (sub32 stack.esp (4 * block.length)) stack.words,
          sub32 stack.esp (4 * block.length)⟩ := by
  rw [List.length_append] at few
  have small : 4 * (block.length + values.length) < wordSize := by
    simp only [wordSize]
    omega
  have place : sub32 stack.esp (4 * block.length) = sub32 top (4 * (block ++ values).length) := by
    rw [h.esp, sub32_sub32, List.length_append]
    congr 1
    omega
  rw [place]
  refine ⟨rfl, fun i value at_i => ?_, fun address elsewhere => ?_⟩
  · rw [List.length_append]
    by_cases inside : i < block.length
    · rw [List.getElem?_append_left inside] at at_i
      exact storeWords_get _ (by omega) (by omega) at_i
    · rw [List.getElem?_append_right (by omega)] at at_i
      have lower : 4 * (block.length + values.length) - 4 * i
          = 4 * values.length - 4 * (i - block.length) := by
        omega
      have bound := (List.getElem?_eq_some_iff.mp at_i).1
      rw [lower]
      refine (storeWords_above block stack.words ?_ (by omega)).trans (h.field _ value at_i)
      omega
  · rw [List.length_append] at elsewhere ⊢
    refine (storeWords_elsewhere _ _ _ (by omega) fun i inside => ?_).trans
      (h.others address fun i inside => ?_)
    · exact elsewhere i (by omega)
    · have higher := elsewhere (block.length + i) (by omega)
      have same : 4 * (block.length + values.length) - 4 * (block.length + i)
          = 4 * values.length - 4 * i := by
        omega
      rwa [same] at higher

/-- A value on the stack is a word of the frame that begins at the stack pointer. -/
theorem StackHolds.word (h : StackHolds top words values stack) {i value : Nat}
    (at_i : values[i]? = some value)
    : stack.words (frameWord stack.esp i) = value := by
  have inside := (List.getElem?_eq_some_iff.mp at_i).1
  rw [h.esp, frameWord_sub32 (by omega)]
  exact h.field i value at_i

end

-----------------------------------------------------------------------------------------
-- Saving
-----------------------------------------------------------------------------------------

/-- The stack that a frame is saved on: the interrupted one, or that of the task state segment. -/
def Machine.frameTop (m : Machine) : Nat :=
  if m.cpu.cs &&& 3 = 0 then m.cpu.esp else m.tasking.kernelStack

/-- What the processor pushes, from its stack pointer on. -/
def Machine.pushed (m : Machine) : List Nat :=
  [m.cpu.eip, m.cpu.cs, m.cpu.eflags] ++ if m.cpu.cs &&& 3 = 0 then [] else [m.cpu.esp, m.cpu.ss]

/-- The words of a frame, from its address on. The first points 20 bytes above the registers. -/
def Machine.frameValues (intNo errCode : Nat) (m : Machine) : List Nat :=
  [sub32 m.frameTop (4 * m.pushed.length - 12), m.cpu.ds, m.cpu.cr3, m.cpu.edi, m.cpu.esi,
    m.cpu.ebx, m.cpu.edx, m.cpu.ecx, m.cpu.eax, m.cpu.ebp] ++ intNo :: errCode :: m.pushed

section

variable {m : Machine} {words' : Nat → Nat}

/-- The block that `ASMInterruptPreHandler` stores; its first word points 20 bytes above it. -/
theorem saveFrame_eq (m : Machine) (intNo errCode : Nat)
    : m.saveFrame intNo errCode
      = (let stack := Stack.push intNo (Stack.push errCode m.enter)
        let block := [u32 (stack.esp + 20), m.cpu.ds, m.cpu.cr3, m.cpu.edi, m.cpu.esi, m.cpu.ebx,
          m.cpu.edx, m.cpu.ecx, m.cpu.eax, m.cpu.ebp]
        ⟨storeWords block (sub32 stack.esp (4 * block.length)) stack.words,
          sub32 stack.esp (4 * block.length)⟩) := by
  have small : (Stack.push intNo (Stack.push errCode m.enter)).esp < wordSize := by
    rw [Stack.push]
    exact Nat.mod_lt _ (by decide)
  have same : u32 (sub32 (Stack.push intNo (Stack.push errCode m.enter)).esp 40 + 40)
      = (Stack.push intNo (Stack.push errCode m.enter)).esp := by
    rw [u32_sub32_add (le_refl _)]
    exact sub32_zero small
  simp only [Machine.saveFrame, same, List.length_cons, List.length_nil, Nat.reduceAdd,
    Nat.reduceMul]

theorem Machine.enter_stacked (small : m.frameTop < wordSize)
    : StackHolds m.frameTop m.words m.pushed m.enter := by
  have start : StackHolds m.frameTop m.words [] ⟨m.words, m.frameTop⟩ := .nothing small
  rw [Machine.pushed, Machine.enter]
  by_cases ring : m.cpu.cs &&& 3 = 0
  · have top : m.frameTop = m.cpu.esp := if_pos ring
    rw [if_pos ring, if_pos ring, ← top]
    exact ((start.push (by simp) m.cpu.eflags).push (by simp) m.cpu.cs).push (by simp) m.cpu.eip
  · have top : m.frameTop = m.tasking.kernelStack := if_neg ring
    rw [if_neg ring, if_neg ring, ← top]
    have own := (start.push (by simp) m.cpu.ss).push (by simp) m.cpu.esp
    exact ((own.push (by simp) m.cpu.eflags).push (by simp) m.cpu.cs).push (by simp) m.cpu.eip

/-- What the processor and the entry code leave on the stack. -/
theorem Machine.saveFrame_stacked (intNo errCode : Nat) (small : m.frameTop < wordSize)
    : StackHolds m.frameTop m.words (m.frameValues intNo errCode) (m.saveFrame intNo errCode) := by
  have length : m.pushed.length = 3 ∨ m.pushed.length = 5 := by
    rw [Machine.pushed]
    split
    · exact Or.inl rfl
    · exact Or.inr rfl
  have entered := ((m.enter_stacked small).push (by omega) errCode).push
    (by rw [List.length_cons]; omega) intNo
  have first : u32 ((Stack.push intNo (Stack.push errCode m.enter)).esp + 20)
      = sub32 m.frameTop (4 * m.pushed.length - 12) := by
    rw [entered.esp, u32_sub32_add (by simp only [List.length_cons]; omega)]
    congr 1
  rw [saveFrame_eq, Machine.frameValues]
  dsimp only
  rw [first]
  refine entered.store _ ?_
  simp only [List.length_append, List.length_cons, List.length_nil]
  omega

end

-----------------------------------------------------------------------------------------
-- Nested interrupts
-----------------------------------------------------------------------------------------

/-- The processor when `MainInterruptHandler` is called. -/
def Machine.serving (intNo errCode : Nat) (m : Machine) : Machine :=
  let stack := m.saveFrame intNo errCode
  { m with
    cpu := { m.cpu with esp := stack.esp, cs := 0x08, ss := kernelData }
    words := stack.words }

/-- A handler at work on a kernel stack that ends at `base`: whatever it computes, it writes nothing
from `top` to there, and it is interrupted any number of times, each time with a handler of this
kind.
-/
inductive HandlerRun (base : Nat) : Nat → Machine → Machine → Prop where
  | done {top : Nat} {m : Machine} : HandlerRun base top m m
  | work {top : Nat} {m m' m'' : Machine}
      (kept : ∀ address, top ≤ address → address < base → m'.words address = m.words address)
      (rest : HandlerRun base top m' m'')
      : HandlerRun base top m m''
  | interrupt {top : Nat} {m inner m'' : Machine} (intNo errCode : Nat)
      (ring : m.cpu.cs &&& 3 = 0) (room : 68 ≤ m.cpu.esp) (below : m.cpu.esp ≤ top)
      (small : m.cpu.esp < wordSize)
      (served : HandlerRun base (m.saveFrame intNo errCode).esp (m.serving intNo errCode) inner)
      (rest : HandlerRun base top
        { inner with cpu := leave inner.words (m.saveFrame intNo errCode).esp } m'')
      : HandlerRun base top m m''

section

variable {base top intNo errCode : Nat} {m m' : Machine}

theorem sub32_of_le {top down : Nat} (small : top < wordSize) (le : down ≤ top)
    : sub32 top down = top - down := by
  simp only [sub32, wordSize] at *
  omega

/-- A frame lies right below the stack pointer, or the end of the kernel stack. -/
theorem Machine.saveFrame_below (intNo errCode : Nat) (small : m.frameTop < wordSize)
    (room : 68 ≤ m.frameTop)
    : (m.saveFrame intNo errCode).esp ≤ m.frameTop
      ∧ ∀ address, m.frameTop ≤ address →
        (m.saveFrame intNo errCode).words address = m.words address := by
  have saved := m.saveFrame_stacked intNo errCode small
  have few : (m.frameValues intNo errCode).length ≤ 17 := by
    rw [Machine.frameValues, Machine.pushed]
    split <;> simp
  refine ⟨?_, fun address above => saved.others address fun i inside => ?_⟩
  · rw [saved.esp, sub32_of_le small (by omega)]
    omega
  · rw [sub32_of_le small (by omega)]
    omega

/-- What lies above a handler stays, by induction on its interruptions. -/
theorem HandlerRun.kept (run : HandlerRun base top m m') {address : Nat} (above : top ≤ address)
    (below : address < base)
    : m'.words address = m.words address := by
  induction run with
  | done => rfl
  | work kept _ ih => exact (ih above).trans (kept address above below)
  | @interrupt top m inner m'' intNo errCode ring room under small _ _ served rest =>
      have onStack : m.frameTop = m.cpu.esp := if_pos ring
      obtain ⟨lower, saved⟩ := m.saveFrame_below intNo errCode (onStack.symm ▸ small)
          (onStack.symm ▸ room)
      rw [onStack] at lower saved
      rw [rest above]
      exact (served (by omega)).trans (saved address (by omega))

end

end DeadKernel
