import DeadKernel.Memory.DirectoryClone

/-! Blocks of the kernel heap: who hands them out, who takes them back, and which of them the page
directories own.
The kernel heap enters through its promise; `own` are the pages of the address space that it
maps for itself, in tables of the kernel directory.
-/

namespace DeadKernel

open Words

-----------------------------------------------------------------------------------------
-- What the kernel heap promises
-----------------------------------------------------------------------------------------

/-- `kfree(addr)`, if the call returns. -/
abbrev Kfree := Nat → Kernel → Option Kernel

/-- The blocks in use, with their sizes. -/
abbrev Blocks := Nat → Option Nat

/-- More blocks are in use, and those in use before are so still. -/
def Blocks.Grow (held held' : Blocks) : Prop := ∀ block, held block ≠ none → held' block = held block

/-- The tables of the kernel directory. -/
def Kernel.kernelTables (st : Kernel) : Nat → Nat := (st.dirs st.kernelDir).tables

/-- An entry of the kernel directory that maps a page of the kernel heap. -/
def OwnEntry (own : Nat → Prop) (st : Kernel) (ref : PageRef) : Prop :=
  ∃ page, own page ∧ st.kernelTables (page / 1024) ≠ 0
    ∧ ref = (st.kernelTables (page / 1024), page % 1024)

/-- The bytes that are the kernel heap's: its pages and its `Heap_t`. -/
def Guarded (own : Nat → Prop) (st : Kernel) (address : Nat) : Prop :=
  own (address / pageSize) ∨ st.kernelHeap ≤ address ∧ address < st.kernelHeap + 28

/-- What the rest of the kernel does between two calls: it writes to blocks in use and outside the
kernel heap, gives the kernel directory new tables and maps pages that are not mapped yet.
-/
structure Rewriting (own : Nat → Prop) (held : Blocks) (st st' : Kernel) : Prop where
  kernelHeap : st'.kernelHeap = st.kernelHeap
  record : st'.heaps st.kernelHeap = st.heaps st.kernelHeap
  placement : st'.placementAddress = st.placementAddress
  kernelDir : st'.kernelDir = st.kernelDir
  mem : ∀ address, Guarded own st address →
    (∀ block size, held block = some size → ¬ (block ≤ address ∧ address < block + size)) →
    st'.mem address = st.mem address
  tables : ∀ table, held table = none → st'.tables table = st.tables table
  dirs : ∀ dir, held dir = none → st'.dirs dir = st.dirs dir
  slots : ∀ slot, st.kernelTables slot ≠ 0 → st'.kernelTables slot = st.kernelTables slot
  entries : ∀ ref, OwnEntry own st ref → (st.page ref).frame ≠ 0 → st'.page ref = st.page ref
  marked : ∀ ref, OwnEntry own st ref → (st.page ref).frame ≠ 0 →
    frameBit st.frames (st.page ref).frame = true → frameBit st'.frames (st.page ref).frame = true

/-- A table that the kernel directory got between two states. -/
def NewTable (st st' : Kernel) (slot table : Nat) : Prop :=
  slot < tablesInDir ∧ st.kernelTables slot = 0 ∧ st'.kernelTables slot = table ∧ table ≠ 0

/-- A request is served with a fresh block. The kernel heap may grow for it: it then marks frames,
maps pages of its own and gives the kernel directory tables for them.
-/
structure HandedOut (own : Nat → Prop) (held : Blocks) (st : Kernel) (block size : Nat)
    (held' : Blocks) (st' : Kernel)
    : Prop where
  nonzero : block ≠ 0
  fresh : held block = none
  isHeld : held' block = some size
  tableHeld : ∀ slot table, NewTable st st' slot table →
    held table = none ∧ table ≠ block ∧ held' table = some 4096
  region : ∀ slot table, NewTable st st' slot table → ∃ page, own page ∧ page / 1024 = slot
  apart : ∀ slot slot' table, NewTable st st' slot table → NewTable st st' slot' table →
    slot = slot'
  others : ∀ other, other ≠ block → (∀ slot, ¬ NewTable st st' slot other) →
    held' other = held other
  kernelHeap : st'.kernelHeap = st.kernelHeap
  kernelDir : st'.kernelDir = st.kernelDir
  currentDir : st'.currentDir = st.currentDir
  ram : st'.ram = st.ram
  fallOff : st'.fallOff = st.fallOff
  slots : ∀ slot, st.kernelTables slot ≠ 0 →
    st'.kernelTables slot = st.kernelTables slot
  dirs : ∀ dir, held dir ≠ none → dir ≠ st.kernelDir → st'.dirs dir = st.dirs dir
  pages : ∀ ref, held ref.1 ≠ none → ¬ OwnEntry own st ref → st'.page ref = st.page ref
  blank : ∀ slot table i, NewTable st st' slot table → ¬ own (slot * 1024 + i) → i < 1024 →
    st'.page (table, i) = .zero
  marked : ∀ frame, frameBit st.frames frame = true → frameBit st'.frames frame = true

/-- A block is taken back. The kernel heap may shrink: it then unmaps pages of its own and frees
their frames.
-/
structure TakenBack (own : Nat → Prop) (st st' : Kernel) : Prop where
  kernelDir : st'.kernelDir = st.kernelDir
  currentDir : st'.currentDir = st.currentDir
  ram : st'.ram = st.ram
  dirs : st'.dirs = st.dirs
  pages : ∀ ref, ¬ OwnEntry own st ref → st'.page ref = st.page ref
  unmapped : ∀ ref, OwnEntry own st ref →
    st'.page ref = st.page ref ∨ (st'.page ref).frame = 0
  bits : ∀ frame, frameBit st'.frames frame ≠ frameBit st.frames frame →
    ∃ ref, OwnEntry own st ref ∧ (st.page ref).frame = frame ∧ frame ≠ 0

/-- A kernel heap that hands out fresh blocks and takes blocks in use back, whatever the rest of
the kernel does in between.
-/
structure BlockPool (kmalloc : Kmalloc) (kfree : Kfree) where
  own : Nat → Prop
  bounded : ∀ page, own page → page < 1048576
  Holds : Blocks → Kernel → Prop
  handsOut : ∀ {held st size align phys block physAddr st'}, Holds held st →
    kmalloc size align phys st = some (block, physAddr, st') →
    ∃ held', HandedOut own held st block size held' st' ∧ Holds held' st'
  takesBack : ∀ {held st block size}, Holds held st → held block = some size →
    ∃ st', kfree block st = some st' ∧ TakenBack own st st'
      ∧ Holds (update held block none) st'
  keeps : ∀ {held st st'}, Holds held st → Rewriting own held st st' → Holds held st'

theorem Blocks.Grow.refl (held : Blocks) : held.Grow held := fun _ _ => rfl

theorem Blocks.Grow.more {held held' : Blocks} (h : held.Grow held') {block : Nat}
    (known : held block ≠ none)
    : held' block ≠ none := by
  rw [h block known]
  exact known

theorem Blocks.Grow.trans {held held' held'' : Blocks} (h : held.Grow held')
    (h' : held'.Grow held'')
    : held.Grow held'' :=
  fun block known => (h' block (h.more known)).trans (h block known)

theorem HandedOut.grow {own : Nat → Prop} {held held' : Blocks} {st st' : Kernel}
    {block size : Nat} (h : HandedOut own held st block size held' st')
    : held.Grow held' := by
  intro other known
  have elsewhere : other ≠ block := by
    rintro rfl
    exact known h.fresh
  exact h.others other elsewhere (fun slot new => known (h.tableHeld slot other new).1)

/-- A slot of the kernel directory keeps its table, or gets a new one. -/
theorem HandedOut.slot {own : Nat → Prop} {held held' : Blocks} {st st' : Kernel}
    {block size slot : Nat} (h : HandedOut own held st block size held' st')
    (below : slot < tablesInDir)
    : st'.kernelTables slot = st.kernelTables slot
      ∨ NewTable st st' slot (st'.kernelTables slot) := by
  by_cases before : st.kernelTables slot = 0
  · by_cases now : st'.kernelTables slot = 0
    · exact Or.inl (now.trans before.symm)
    · exact Or.inr ⟨below, before, rfl, now⟩
  · exact Or.inl (h.slots slot before)

theorem OwnEntry.congr {own : Nat → Prop} {st st' : Kernel}
    (kernelDir : st'.kernelDir = st.kernelDir)
    (dirs : st'.dirs st.kernelDir = st.dirs st.kernelDir) {ref : PageRef}
    : OwnEntry own st' ref ↔ OwnEntry own st ref := by
  simp only [OwnEntry, Kernel.kernelTables, kernelDir, dirs]

/-- Writing one entry that is not a mapped page of the kernel heap, and marking frames. -/
theorem Rewriting.setPage {own : Nat → Prop} {held : Blocks} {st : Kernel} {ref : PageRef}
    {page : Page} {frames : Nat → BitVec 32} {ram : Nat → Nat → UInt8}
    (mine : held ref.1 ≠ none) (empty : OwnEntry own st ref → (st.page ref).frame = 0)
    (marked : ∀ other, OwnEntry own st other → (st.page other).frame ≠ 0 →
      frameBit st.frames (st.page other).frame = true →
      frameBit frames (st.page other).frame = true)
    : Rewriting own held st ({ st with frames, ram }.setPage ref page) where
  kernelHeap := rfl
  record := rfl
  placement := rfl
  kernelDir := rfl
  mem := fun _ _ _ => rfl
  tables := by
    intro table unused
    refine update_other ?_
    rintro rfl
    exact mine unused
  dirs := fun _ _ => rfl
  slots := fun _ _ => rfl
  entries := by
    intro other isOwn populated
    have elsewhere : other ≠ ref := by
      rintro rfl
      exact populated (empty isOwn)
    exact Kernel.page_setPage_other elsewhere
  marked := marked

-----------------------------------------------------------------------------------------
-- Whose blocks they are
-----------------------------------------------------------------------------------------

/-- The directories `live` are in use with their tables. The kernel directory has each of its tables
once, and a table that a directory does not share with it is in no other slot.
-/
structure Ownership (live : Nat → Prop) (held : Blocks) (st : Kernel) : Prop where
  kernelDir : live st.kernelDir
  dirs : ∀ dir, live dir → held dir ≠ none
  tables : ∀ dir, live dir → ∀ slot < tablesInDir, (st.dirs dir).tables slot ≠ 0 →
    held ((st.dirs dir).tables slot) ≠ none ∧ ¬ live ((st.dirs dir).tables slot)
  apart : ∀ slot < tablesInDir, ∀ slot' < tablesInDir, st.kernelTables slot ≠ 0 →
    st.kernelTables slot' = st.kernelTables slot → slot' = slot
  sole : ∀ dir, live dir → ∀ slot < tablesInDir, PrivateTable st dir slot →
    ∀ dir', live dir' → ∀ slot' < tablesInDir,
    (st.dirs dir').tables slot' = (st.dirs dir).tables slot → dir' = dir ∧ slot' = slot

section

variable {own : Nat → Prop} {live : Nat → Prop} {held : Blocks} {st st' : Kernel}

/-- The kernel directory has no tables of its own. -/
theorem PrivateTable.notKernel {dir slot : Nat} (h : PrivateTable st dir slot)
    : dir ≠ st.kernelDir := by
  rintro rfl
  exact h.2 rfl

/-- An entry of a private table is none of the kernel heap's. -/
theorem Ownership.notOwn (h : Ownership live held st) (bounded : ∀ page, own page → page < 1048576)
    {dir slot : Nat} (alive : live dir) (below : slot < tablesInDir)
    (mine : PrivateTable st dir slot) (i : Nat)
    : ¬ OwnEntry own st ((st.dirs dir).tables slot, i) := by
  rintro ⟨page, isOwn, -, same⟩
  have small := bounded page isOwn
  have inside : page / 1024 < tablesInDir := by
    simp only [tablesInDir]
    omega
  have kernel : st.kernelDir = dir ∧ page / 1024 = slot :=
    h.sole dir alive slot below mine st.kernelDir h.kernelDir (page / 1024) inside
      (Prod.mk.inj same).1.symm
  exact mine.notKernel kernel.1.symm

/-- Only the directories in use matter. -/
theorem Ownership.of_dirs (h : Ownership live held st) {held' : Blocks}
    (more : ∀ block, held block ≠ none → held' block ≠ none)
    (kernelDir : st'.kernelDir = st.kernelDir)
    (dirs : ∀ dir, live dir → st'.dirs dir = st.dirs dir)
    : Ownership live held' st' where
  kernelDir := kernelDir ▸ h.kernelDir
  dirs dir alive := more dir (h.dirs dir alive)
  tables dir alive slot below populated := by
    rw [dirs dir alive] at populated ⊢
    obtain ⟨known, notLive⟩ := h.tables dir alive slot below populated
    exact ⟨more _ known, notLive⟩
  apart := by
    simp only [Kernel.kernelTables, kernelDir, dirs _ h.kernelDir]
    exact h.apart
  sole dir alive slot below mine dir' alive' slot' below' same := by
    rw [PrivateTable, kernelDir, dirs dir alive, dirs _ h.kernelDir] at mine
    rw [dirs dir alive, dirs dir' alive'] at same
    exact h.sole dir alive slot below mine dir' alive' slot' below' same

/-- A request leaves everybody's tables alone; the kernel directory may get new ones. -/
theorem Ownership.handedOut (h : Ownership live held st) {held' : Blocks} {block size : Nat}
    (out : HandedOut own held st block size held' st')
    : Ownership live held' st' where
  kernelDir := out.kernelDir ▸ h.kernelDir
  dirs dir alive := out.grow.more (h.dirs dir alive)
  tables dir alive slot below populated := by
    by_cases kernel : dir = st.kernelDir
    · subst kernel
      rw [← out.kernelDir] at populated ⊢
      rcases out.slot below with same | new
      · change st'.kernelTables slot ≠ 0 at populated
        change held' (st'.kernelTables slot) ≠ none ∧ ¬ live (st'.kernelTables slot)
        rw [same] at populated ⊢
        obtain ⟨known, notLive⟩ := h.tables st.kernelDir h.kernelDir slot below populated
        exact ⟨out.grow.more known, notLive⟩
      · obtain ⟨fresh, -, known⟩ := out.tableHeld slot _ new
        refine ⟨?_, fun alive' => h.dirs _ alive' fresh⟩
        change held' (st'.kernelTables slot) ≠ none
        rw [known]
        exact Option.some_ne_none _
    · have same := out.dirs dir (h.dirs dir alive) kernel
      rw [same] at populated ⊢
      obtain ⟨known, notLive⟩ := h.tables dir alive slot below populated
      exact ⟨out.grow.more known, notLive⟩
  apart slot below slot' below' populated same := by
    rcases out.slot below with old | new <;> rcases out.slot below' with old' | new'
    · rw [old] at populated same
      rw [old'] at same
      exact h.apart slot below slot' below' populated same
    · have fresh := (out.tableHeld slot' _ new').1
      rw [same, old] at fresh
      rw [old] at populated
      exact absurd fresh (h.tables st.kernelDir h.kernelDir slot below populated).1
    · have fresh := (out.tableHeld slot _ new).1
      rw [← same, old'] at fresh
      rw [← same, old'] at populated
      exact absurd fresh (h.tables st.kernelDir h.kernelDir slot' below' populated).1
    · rw [same] at new'
      exact out.apart slot' slot _ new' new
  sole dir alive slot below mine dir' alive' slot' below' same := by
    have notKernel : dir ≠ st.kernelDir := out.kernelDir ▸ mine.notKernel
    have unchanged := out.dirs dir (h.dirs dir alive) notKernel
    have populated : (st.dirs dir).tables slot ≠ 0 := unchanged ▸ mine.1
    have own' : PrivateTable st dir slot := by
      refine ⟨populated, fun shared => mine.2 ?_⟩
      rw [unchanged, ← shared]
      exact out.slots slot (fun none => populated (shared ▸ none))
    rw [unchanged] at same
    by_cases kernel : dir' = st.kernelDir
    · subst kernel
      rw [← out.kernelDir] at same
      rcases out.slot below' with old | new
      · exact h.sole dir alive slot below own' st.kernelDir h.kernelDir slot' below'
          (old.symm.trans same)
      · have fresh := (out.tableHeld slot' _ new).1
        change st'.kernelTables slot' = _ at same
        rw [same] at fresh
        exact absurd fresh (h.tables dir alive slot below populated).1
    · rw [out.dirs dir' (h.dirs dir' alive') kernel] at same
      exact h.sole dir alive slot below own' dir' alive' slot' below' same

/-- What a directory has in its slots after one of them is filled. -/
theorem setSlot_table (st : Kernel) (dir slot table physical dir' slot' : Nat)
    : ((st.setSlot dir slot table physical).dirs dir').tables slot'
      = if dir' = dir ∧ slot' = slot then table else (st.dirs dir').tables slot' := by
  by_cases here : dir' = dir
  · subst here
    rw [Kernel.setSlot_tables]
    by_cases there : slot' = slot
    · subst there
      simp
    · simp [there]
  · simp [Kernel.setSlot, here]

/-- An empty slot gets a fresh table. -/
theorem Ownership.setSlot_fresh (h : Ownership live held st) {dir slot table physical : Nat}
    (alive : live dir) (empty : (st.dirs dir).tables slot = 0) (isHeld : held table ≠ none)
    (notLive : ¬ live table)
    (unused : ∀ dir', live dir' → ∀ slot' < tablesInDir, (st.dirs dir').tables slot' ≠ table)
    : Ownership live held (st.setSlot dir slot table physical) where
  kernelDir := h.kernelDir
  dirs := h.dirs
  tables dir' alive' slot' below' populated := by
    rw [setSlot_table] at populated ⊢
    split at populated
    · rename_i here
      rw [if_pos here]
      exact ⟨isHeld, notLive⟩
    · rename_i elsewhere
      rw [if_neg elsewhere]
      exact h.tables dir' alive' slot' below' populated
  apart := by
    intro slot₁ below₁ slot₂ below₂ populated same
    change ((st.setSlot dir slot table physical).dirs st.kernelDir).tables slot₁ ≠ 0 at populated
    change ((st.setSlot dir slot table physical).dirs st.kernelDir).tables slot₂
      = ((st.setSlot dir slot table physical).dirs st.kernelDir).tables slot₁ at same
    rw [setSlot_table] at populated same
    rw [setSlot_table] at same
    by_cases first : st.kernelDir = dir ∧ slot₁ = slot
    · by_cases second : st.kernelDir = dir ∧ slot₂ = slot
      · exact second.2.trans first.2.symm
      · rw [if_pos first, if_neg second] at same
        exact absurd same (unused st.kernelDir h.kernelDir slot₂ below₂)
    · rw [if_neg first] at populated same
      by_cases second : st.kernelDir = dir ∧ slot₂ = slot
      · rw [if_pos second] at same
        exact absurd same.symm (unused st.kernelDir h.kernelDir slot₁ below₁)
      · rw [if_neg second] at same
        exact h.apart slot₁ below₁ slot₂ below₂ populated same
  sole := by
    intro dir₁ alive₁ slot₁ below₁ mine dir₂ alive₂ slot₂ below₂ same
    rw [PrivateTable, setSlot_table, setSlot_table] at mine
    rw [setSlot_table, setSlot_table] at same
    change _ ∧ (if st.kernelDir = dir ∧ slot₁ = slot then table
      else (st.dirs st.kernelDir).tables slot₁) ≠ _ at mine
    by_cases first : dir₁ = dir ∧ slot₁ = slot
    · by_cases second : dir₂ = dir ∧ slot₂ = slot
      · exact ⟨second.1.trans first.1.symm, second.2.trans first.2.symm⟩
      · rw [if_pos first, if_neg second] at same
        exact absurd same (unused dir₂ alive₂ slot₂ below₂)
    · rw [if_neg first] at mine same
      by_cases second : dir₂ = dir ∧ slot₂ = slot
      · rw [if_pos second] at same
        exact absurd same.symm (unused dir₁ alive₁ slot₁ below₁)
      · rw [if_neg second] at same
        refine h.sole dir₁ alive₁ slot₁ below₁ ⟨mine.1, ?_⟩ dir₂ alive₂ slot₂ below₂ same
        by_cases kernel : st.kernelDir = dir ∧ slot₁ = slot
        · obtain ⟨rfl, rfl⟩ := kernel
          rw [empty]
          exact fun none => mine.1 none.symm
        · rw [if_neg kernel] at mine
          exact mine.2

/-- A slot that is filled with the kernel directory's table for it. -/
theorem Ownership.setSlot_shared (h : Ownership live held st) {dir slot physical : Nat}
    (below : slot < tablesInDir) (other : dir ≠ st.kernelDir) (some : st.kernelTables slot ≠ 0)
    : Ownership live held (st.setSlot dir slot (st.kernelTables slot) physical) where
  kernelDir := h.kernelDir
  dirs := h.dirs
  tables dir' alive' slot' below' populated := by
    rw [setSlot_table] at populated ⊢
    split at populated
    · rename_i here
      rw [if_pos here]
      exact h.tables st.kernelDir h.kernelDir slot below some
    · rename_i elsewhere
      rw [if_neg elsewhere]
      exact h.tables dir' alive' slot' below' populated
  apart := by
    have same (slot' : Nat) : (st.setSlot dir slot (st.kernelTables slot) physical).kernelTables slot'
        = st.kernelTables slot' := by
      refine (setSlot_table _ _ _ _ _ st.kernelDir slot').trans (if_neg (fun both => ?_))
      exact other both.1.symm
    simp only [same]
    exact h.apart
  sole := by
    intro dir₁ alive₁ slot₁ below₁ mine dir₂ alive₂ slot₂ below₂ same
    have kernel (slot' : Nat) : ¬ (st.kernelDir = dir ∧ slot' = slot) :=
      fun both => other both.1.symm
    rw [PrivateTable, setSlot_table, setSlot_table] at mine
    change _ ∧ (if st.kernelDir = dir ∧ slot₁ = slot then _
      else (st.dirs st.kernelDir).tables slot₁) ≠ _ at mine
    rw [if_neg (kernel slot₁)] at mine
    rw [setSlot_table, setSlot_table] at same
    by_cases first : dir₁ = dir ∧ slot₁ = slot
    · rw [if_pos first, first.2] at mine
      exact absurd rfl mine.2
    · rw [if_neg first] at mine same
      by_cases second : dir₂ = dir ∧ slot₂ = slot
      · rw [if_pos second] at same
        have back := h.sole dir₁ alive₁ slot₁ below₁ mine st.kernelDir h.kernelDir slot below same
        exact absurd back.1.symm (PrivateTable.notKernel mine)
      · rw [if_neg second] at same
        exact h.sole dir₁ alive₁ slot₁ below₁ mine dir₂ alive₂ slot₂ below₂ same

/-- A fresh directory has no tables yet. -/
theorem Ownership.withDir (h : Ownership live held st) {dir : Nat} {value : PageDir}
    (isHeld : held dir ≠ none) (notLive : ¬ live dir)
    (unused : ∀ dir', live dir' → ∀ slot' < tablesInDir, (st.dirs dir').tables slot' ≠ dir)
    (empty : value.tables = fun _ => 0)
    : Ownership (fun other => live other ∨ other = dir) held
        { st with dirs := update st.dirs dir value } := by
  have old {dir' : Nat} (alive : live dir') : update st.dirs dir value dir' = st.dirs dir' :=
    update_other (fun same => notLive (same ▸ alive))
  exact {
    kernelDir := Or.inl h.kernelDir
    dirs := by
      rintro dir' (alive | rfl)
      · exact h.dirs dir' alive
      · exact isHeld
    tables := by
      rintro dir' (alive | rfl) slot below populated
      · dsimp only at populated ⊢
        rw [old alive] at populated ⊢
        obtain ⟨known, apart⟩ := h.tables dir' alive slot below populated
        refine ⟨known, ?_⟩
        rintro (alive' | same)
        · exact apart alive'
        · exact unused dir' alive slot below same
      · simp [empty] at populated
    apart := by
      simp only [Kernel.kernelTables, old h.kernelDir]
      exact h.apart
    sole := by
      rintro dir₁ (alive₁ | rfl) slot₁ below₁ mine dir₂ (alive₂ | rfl) slot₂ below₂ same
      · dsimp only [PrivateTable] at mine same
        rw [old alive₁, old h.kernelDir] at mine
        rw [old alive₁, old alive₂] at same
        exact h.sole dir₁ alive₁ slot₁ below₁ mine dir₂ alive₂ slot₂ below₂ same
      · dsimp only [PrivateTable] at mine same
        rw [old alive₁] at mine same
        simp only [update_self, empty] at same
        exact absurd same.symm mine.1
      · simp [PrivateTable, empty] at mine
      · simp [PrivateTable, empty] at mine
  }

end

end DeadKernel
