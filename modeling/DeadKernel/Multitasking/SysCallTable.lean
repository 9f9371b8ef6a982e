import DeadKernel.Multitasking.Tasks

/-! The table of system calls, and which numbers reach it.
Memory is seen here as 32-bit words, counted from the start of `syscalls`: the table is the first
256 of them. The address of `syscalls[num]` wraps around the address space like any other.
-/

namespace DeadKernel

-----------------------------------------------------------------------------------------
-- Registration
-----------------------------------------------------------------------------------------

/-- The entries of `syscalls`. -/
abbrev syscallEntries : Nat := 256

/-- `sizeof(syscalls)`, which counts bytes. -/
abbrev sizeofSyscalls : Nat := 1024

/-- The word that `syscalls[num]` stands for. -/
def syscallWord (num : Nat) : Nat := 4 * num % 4294967296 / 4

structure WordStore where
  index : Nat
  value : Nat
deriving DecidableEq

def WordStore.run (store : WordStore) (memory : Nat → Nat) : Nat → Nat :=
  Function.update memory store.index store.value

/-- `addSysCall`: the store that it makes, unless it refuses the number. -/
def addSysCall (num call : Nat) : Option WordStore :=
  if sizeofSyscalls ≤ num then none else some ⟨syscallWord num, call⟩

/-- Memory after one registration. -/
def registerCall (memory : Nat → Nat) (entry : Nat × Nat) : Nat → Nat :=
  match addSysCall entry.1 entry.2 with
  | none => memory
  | some store => store.run memory

/-- The `memset` of `initSysCalls`. -/
def clearSyscalls (memory : Nat → Nat) : Nat → Nat :=
  fun index => if index < syscallEntries then 0 else memory index

/-- Memory after a sequence of registrations in a cleared table. -/
def registerCalls (entries : List (Nat × Nat)) (memory : Nat → Nat) : Nat → Nat :=
  entries.foldl registerCall (clearSyscalls memory)

/-- The function that `SysCallHandler` calls for a frame. -/
def calledFunction (memory : Nat → Nat) (regs : CPURegisters) : Option Nat :=
  let location := memory (syscallWord regs.eax)
  if location = 0 then none else some location

/-- `SysCallHandler`, over the effect of calling a function with the frame's five arguments: its
result, and the frame behind it.
-/
def dispatchSysCall (invoke : Nat → CPURegisters → Nat × CPURegisters) (memory : Nat → Nat)
    (regs : CPURegisters)
    : CPURegisters :=
  match calledFunction memory regs with
  | none => regs
  | some location => { (invoke location regs).2 with eax := (invoke location regs).1 }

/-- Registrations stay in the table; a call reaches a function registered under its own number,
and with a number that has no entry of the table it reaches none and leaves the frame alone.
-/
structure DispatchExact (entries : List (Nat × Nat)) (memory : Nat → Nat) (regs : CPURegisters)
    : Prop where
  inside : ∀ entry ∈ entries, ∀ store ∈ addSysCall entry.1 entry.2, store.index < syscallEntries
  registered : ∀ location ∈ calledFunction (registerCalls entries memory) regs,
    (regs.eax, location) ∈ entries
  unregistered : (∀ entry ∈ entries, entry.1 = regs.eax → syscallEntries ≤ entry.1)
    → calledFunction (registerCalls entries memory) regs = none
      ∧ ∀ invoke, dispatchSysCall invoke (registerCalls entries memory) regs = regs

theorem syscallWord_eq {num : Nat} (small : num < sizeofSyscalls) : syscallWord num = num := by
  simp only [sizeofSyscalls] at small
  rw [syscallWord]
  omega

/-- One registration writes the word of its number or nothing. -/
theorem registerCall_apply (memory : Nat → Nat) (entry : Nat × Nat) (index : Nat)
    : registerCall memory entry index
      = if entry.1 < sizeofSyscalls ∧ index = entry.1 then entry.2 else memory index := by
  rw [registerCall, addSysCall]
  by_cases small : entry.1 < sizeofSyscalls
  · rw [if_neg (not_le.mpr small)]
    by_cases same : index = entry.1
    · rw [if_pos ⟨small, same⟩]
      simp [WordStore.run, syscallWord_eq small, same]
    · rw [if_neg (fun both => same both.2)]
      simp [WordStore.run, syscallWord_eq small, same]
  · rw [if_pos (not_lt.mp small), if_neg (fun both => small both.1)]

/-- A word behind registrations is the one before them, or the value of a registration under the
word's own number; by induction over the registrations.
-/
theorem foldl_registerCall (entries : List (Nat × Nat)) (memory : Nat → Nat) (index : Nat)
    : entries.foldl registerCall memory index = memory index
      ∨ index < sizeofSyscalls ∧ (index, entries.foldl registerCall memory index) ∈ entries := by
  induction entries generalizing memory with
  | nil => exact Or.inl rfl
  | cons entry rest ih =>
      rw [List.foldl_cons]
      rcases ih (registerCall memory entry) with same | ⟨small, member⟩
      · rw [same, registerCall_apply]
        split
        · rename_i hit
          refine Or.inr ⟨hit.2 ▸ hit.1, ?_⟩
          rw [hit.2]
          exact List.mem_cons_self
        · exact Or.inl rfl
      · exact Or.inr ⟨small, List.mem_cons_of_mem _ member⟩

theorem calledFunction_eq_none {memory : Nat → Nat} {regs : CPURegisters}
    : calledFunction memory regs = none ↔ memory (syscallWord regs.eax) = 0 := by
  rw [calledFunction]
  split <;> simp_all

theorem mem_calledFunction {memory : Nat → Nat} {regs : CPURegisters} {location : Nat}
    : location ∈ calledFunction memory regs
      ↔ location ≠ 0 ∧ memory (syscallWord regs.eax) = location := by
  rw [calledFunction, Option.mem_def]
  split
  · rename_i zero
    simp only [zero, reduceCtorEq, false_iff, not_and]
    exact fun some same => some same.symm
  · rename_i some
    simp only [Option.some.injEq]
    exact ⟨fun same => ⟨same ▸ some, same⟩, fun h => h.2⟩

/-- Dispatch is exact exactly when no registration is for a number between the entries of the
table and its size in bytes, and the frame's number is that of an entry or finds a null pointer.
-/
theorem dispatchExact_iff (entries : List (Nat × Nat)) (memory : Nat → Nat) (regs : CPURegisters)
    : DispatchExact entries memory regs
      ↔ (∀ entry ∈ entries, entry.1 < syscallEntries ∨ sizeofSyscalls ≤ entry.1)
        ∧ (regs.eax < syscallEntries
          ∨ registerCalls entries memory (syscallWord regs.eax) = 0) := by
  constructor
  · intro h
    have numbers : ∀ entry ∈ entries, entry.1 < syscallEntries ∨ sizeofSyscalls ≤ entry.1 := by
      intro entry member
      by_cases small : entry.1 < sizeofSyscalls
      · have stored : addSysCall entry.1 entry.2 = some ⟨syscallWord entry.1, entry.2⟩ := by
          rw [addSysCall, if_neg (not_le.mpr small)]
        have inside := h.inside entry member _ stored
        rw [syscallWord_eq small] at inside
        exact Or.inl inside
      · exact Or.inr (not_lt.mp small)
    refine ⟨numbers, ?_⟩
    by_cases entry : regs.eax < syscallEntries
    · exact Or.inl entry
    · refine Or.inr (calledFunction_eq_none.mp (h.unregistered ?_).1)
      exact fun e _ same => same ▸ not_lt.mp entry
  · rintro ⟨numbers, number⟩
    -- a registration is found only through its own number, since the table was cleared
    have found (small : regs.eax < syscallEntries)
        : registerCalls entries memory (syscallWord regs.eax) = 0
          ∨ (regs.eax, registerCalls entries memory (syscallWord regs.eax)) ∈ entries := by
      rw [syscallWord_eq (by simp only [syscallEntries, sizeofSyscalls] at *; omega)]
      rcases foldl_registerCall entries (clearSyscalls memory) regs.eax with same | ⟨-, member⟩
      · left
        rw [registerCalls, same, clearSyscalls, if_pos small]
      · exact Or.inr member
    refine ⟨fun entry member store stored => ?_, fun location called => ?_, fun fresh => ?_⟩
    · rw [addSysCall] at stored
      split at stored
      · exact absurd stored (by simp)
      · rename_i small
        obtain rfl := Option.some.inj stored
        rw [syscallWord_eq (not_le.mp small)]
        exact (numbers entry member).resolve_right small
    · obtain ⟨some, location_eq⟩ := mem_calledFunction.mp called
      subst location_eq
      exact (found (number.resolve_right some)).resolve_left some
    · have null : registerCalls entries memory (syscallWord regs.eax) = 0 := by
        rcases number with small | null
        · refine (found small).resolve_right (fun member => ?_)
          exact absurd (fresh _ member rfl) (not_le.mpr small)
        · exact null
      have none := calledFunction_eq_none.mpr null
      exact ⟨none, fun invoke => by rw [dispatchSysCall, none]⟩

/-- The number 2^30 names the first entry again, for its byte offset wraps to zero. -/
theorem dispatch_wraps
    : ¬ DispatchExact [(0, 4096)] (fun _ => 0) { CPURegisters.zero with eax := 1073741824 } := by
  intro h
  have called := h.registered 4096 (by decide)
  simp at called

end DeadKernel
