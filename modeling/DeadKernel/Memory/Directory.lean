import DeadKernel.Memory.Bitmap
import DeadKernel.Memory.Heap
import Mathlib.Data.Finset.Card

/-! Page directories as a process gets them: the copy of a physical page, of a page table and
of a whole directory.
-/

namespace DeadKernel

open Words

-----------------------------------------------------------------------------------------
-- Loops over an index
-----------------------------------------------------------------------------------------

/-- `for (i = 0; i < n; i++)`, over a body that may fail. -/
def forIndices {State : Type} (body : Nat → State → Option State) : Nat → State → Option State
  | 0, st => some st
  | n + 1, st => (forIndices body n st).bind (body n)

/-- An invariant that each round establishes for the next index holds when the loop ends, and
the loop does end.
-/
theorem forIndices_spec {State : Type} {body : Nat → State → Option State}
    {P : Nat → State → Prop} {n : Nat} {st : State} (start : P 0 st)
    (round : ∀ i < n, ∀ st, P i st → ∃ st', body i st = some st' ∧ P (i + 1) st')
    : ∃ st', forIndices body n st = some st' ∧ P n st' := by
  induction n with
  | zero => exact ⟨st, rfl, start⟩
  | succ n ih =>
      obtain ⟨mid, run, kept⟩ := ih (fun i below => round i (by omega))
      obtain ⟨st', last, done⟩ := round n (by omega) mid kept
      exact ⟨st', by rw [forIndices, run, Option.bind_some, last], done⟩

-----------------------------------------------------------------------------------------
-- Physical pages
-----------------------------------------------------------------------------------------

/-- The byte at a physical address. -/
def physByte (ram : Nat → Nat → UInt8) (address : Nat) : UInt8 :=
  ram (address / pageSize) (address % pageSize)

/-- One round of the loop of `copyPagePhysical`: a word goes through `eax`. -/
def copyWordPhysical (source target : Nat) (ram : Nat → Nat → UInt8) : Nat → Nat → UInt8 :=
  fun frame offset =>
    if target ≤ frame * pageSize + offset ∧ frame * pageSize + offset < target + 4 then
      physByte ram (source + (frame * pageSize + offset - target))
    else ram frame offset

/-- The loop of `copyPagePhysical`, with `edx` rounds to go. -/
def copyWordsPhysical : Nat → Nat → Nat → (Nat → Nat → UInt8) → Nat → Nat → UInt8
  | 0, _, _, ram => ram
  | edx + 1, ebx, ecx, ram =>
      copyWordsPhysical edx (u32 (ebx + 4)) (u32 (ecx + 4)) (copyWordPhysical ebx ecx ram)

/-- Copies a page with paging switched off, so that both addresses are physical. -/
def copyPagePhysical (source target : Nat) (st : Kernel) : Kernel :=
  { st with ram := copyWordsPhysical 1024 source target st.ram }

/-- One word of a page reaches the same place of the other page, and nothing else changes. -/
theorem copyWordPhysical_page {ram : Nat → Nat → UInt8} {source target word frame offset : Nat}
    (hw : word < 1024) (ho : offset < pageSize)
    : copyWordPhysical (source * pageSize + 4 * word) (target * pageSize + 4 * word) ram frame
        offset
      = if frame = target ∧ 4 * word ≤ offset ∧ offset < 4 * word + 4 then ram source offset
        else ram frame offset := by
  simp only [pageSize] at ho
  have inside : (target * 4096 + 4 * word ≤ frame * 4096 + offset
        ∧ frame * 4096 + offset < target * 4096 + 4 * word + 4)
      ↔ frame = target ∧ 4 * word ≤ offset ∧ offset < 4 * word + 4 := by
    omega
  simp only [copyWordPhysical, pageSize, inside]
  by_cases here : frame = target ∧ 4 * word ≤ offset ∧ offset < 4 * word + 4
  · have place : source * 4096 + 4 * word + (frame * 4096 + offset - (target * 4096 + 4 * word))
        = source * 4096 + offset := by
      omega
    have frame_eq : (source * 4096 + offset) / 4096 = source := by omega
    have offset_eq : (source * 4096 + offset) % 4096 = offset := by omega
    rw [if_pos here, if_pos here, place, physByte, frame_eq, offset_eq]
  · rw [if_neg here, if_neg here]

/-- What the last `edx` rounds copy, by induction on them. The addresses may wrap around only
behind the last round, where they are no longer used.
-/
theorem copyWordsPhysical_page {source target : Nat} (hs : source < 1048576)
    (ht : target < 1048576) (distinct : source ≠ target) {frame offset : Nat}
    (ho : offset < pageSize) (edx : Nat) {word ebx ecx : Nat} {ram : Nat → Nat → UInt8}
    (total : word + edx = 1024)
    (places : 0 < edx → ebx = source * pageSize + 4 * word ∧ ecx = target * pageSize + 4 * word)
    : copyWordsPhysical edx ebx ecx ram frame offset
      = if frame = target ∧ 4 * word ≤ offset then ram source offset else ram frame offset := by
  induction edx generalizing word ebx ecx ram with
  | zero =>
      have behind : ¬ (frame = target ∧ 4 * word ≤ offset) := by
        simp only [pageSize] at ho
        omega
      rw [copyWordsPhysical, if_neg behind]
  | succ edx ih =>
      obtain ⟨rfl, rfl⟩ := places (Nat.succ_pos _)
      have hw : word < 1024 := by omega
      have unread : copyWordPhysical (source * pageSize + 4 * word)
          (target * pageSize + 4 * word) ram source offset = ram source offset := by
        rw [copyWordPhysical_page hw ho, if_neg (fun inside => distinct inside.1)]
      have next : word + 1 + edx = 1024 := by omega
      rw [copyWordsPhysical, ih next, unread, copyWordPhysical_page hw ho]
      · by_cases here : frame = target
        · by_cases later : 4 * (word + 1) ≤ offset
          · have low : 4 * word ≤ offset := by omega
            rw [if_pos ⟨here, later⟩, if_pos ⟨here, low⟩]
          · by_cases low : 4 * word ≤ offset
            · have inside : offset < 4 * word + 4 := by omega
              rw [if_neg (fun both => later both.2), if_pos ⟨here, low, inside⟩,
                if_pos ⟨here, low⟩]
            · rw [if_neg (fun both => later both.2), if_neg (fun both => low both.2.1),
                if_neg (fun both => low both.2)]
        · simp [here]
      · intro more
        simp only [u32, pageSize, wordSize]
        omega

/-- Two frames hold the same page. -/
def SamePage (ram : Nat → Nat → UInt8) (frame : Nat) (ram' : Nat → Nat → UInt8) (frame' : Nat)
    : Prop :=
  ∀ offset < pageSize, ram frame offset = ram' frame' offset

/-- The target frame gets the page of the source frame, and nothing else changes. -/
theorem copyPagePhysical_page {source target : Nat} (hs : source < 1048576)
    (ht : target < 1048576) (distinct : source ≠ target) (st : Kernel)
    : ∃ ram, copyPagePhysical (source * pageSize) (target * pageSize) st = { st with ram }
        ∧ SamePage ram target st.ram source
        ∧ ∀ other ≠ target, SamePage ram other st.ram other := by
  have copied {frame offset : Nat} (ho : offset < pageSize)
      : copyWordsPhysical 1024 (source * pageSize) (target * pageSize) st.ram frame offset
        = if frame = target ∧ 4 * 0 ≤ offset then st.ram source offset
          else st.ram frame offset :=
    copyWordsPhysical_page hs ht distinct ho 1024 (Nat.zero_add 1024)
      (fun _ => ⟨(Nat.add_zero _).symm, (Nat.add_zero _).symm⟩)
  refine ⟨_, rfl, fun offset ho => ?_, fun other elsewhere offset ho => ?_⟩
  · rw [copied ho, if_pos ⟨rfl, Nat.zero_le _⟩]
  · rw [copied ho, if_neg (fun here => elsewhere here.1)]

-----------------------------------------------------------------------------------------
-- Copies of tables and directories
-----------------------------------------------------------------------------------------

/-- Store a page table and its physical address in a slot of a directory. -/
def Kernel.setSlot (st : Kernel) (dir slot table physical : Nat) : Kernel :=
  { st with dirs := update st.dirs dir { st.dirs dir with
      tables := update (st.dirs dir).tables slot table
      tablesPhysical := update (st.dirs dir).tablesPhysical slot physical } }

/-- The body of `cloneTable`'s loop. -/
def cloneEntry (src table i : Nat) (st : Kernel) : Option Kernel :=
  if (st.page (src, i)).frame = 0 then some st
  else do
    let st ← allocFrame (table, i) 0 0 st
    let st := st.setPage (table, i)
      { st.page (table, i) with
        present := (st.page (src, i)).present
        rw := (st.page (src, i)).rw
        user := (st.page (src, i)).user
        accessed := (st.page (src, i)).accessed
        dirty := (st.page (src, i)).dirty
        isKernel := (st.page (src, i)).isKernel }
    some (copyPagePhysical ((st.page (src, i)).frame * pageSize)
      ((st.page (table, i)).frame * pageSize) st)

/-- Clones the page table; the second value is what goes to `physAddr`. -/
def cloneTable (kmalloc : Kmalloc) (src : Nat) (st : Kernel) : Option (Nat × Nat × Kernel) := do
  let (table, physAddr, st) ← kmalloc 4096 1 true st
  let st := { st with tables := update st.tables table PageTable.zero }
  let st ← forIndices (cloneEntry src table) pagesInTable st
  some (table, physAddr, st)

/-- The body of `cloneDir`'s loop. -/
def cloneSlot (kmalloc : Kmalloc) (src dir i : Nat) (st : Kernel) : Option Kernel :=
  if (st.dirs src).tables i = 0 then some st
  else if (st.dirs st.kernelDir).tables i = (st.dirs src).tables i then
    some (st.setSlot dir i ((st.dirs src).tables i) ((st.dirs src).tablesPhysical i))
  else do
    let (table, phys, st) ← cloneTable kmalloc ((st.dirs src).tables i) st
    some (st.setSlot dir i table (phys ||| 0x07))

/-- Clones the page directory: tables that it shares with the kernel directory are shared
with the clone too, the others are copied.
-/
def cloneDir (kmalloc : Kmalloc) (src : Nat) (st : Kernel) : Option (Nat × Kernel) := do
  let (dir, phys, st) ← kmalloc 8196 1 true st
  let st := { st with
    dirs := update st.dirs dir { PageDir.zero with physicalAddr := u32 (phys + 4096) } }
  let st ← forIndices (cloneSlot kmalloc src dir) tablesInDir st
  some (dir, st)

end DeadKernel
