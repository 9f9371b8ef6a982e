import DeadKernel.Foundation.Lineage
import DeadKernel.Loading.TaskLife
import DeadKernel.Multitasking.MemoryLifetimes

/-! Address spaces as memories that know nothing of each other. The kernel keeps the pages of all
tasks in one set of frames; to each directory its private pages are a memory of its own, which
begins as a copy of another one and then changes by the stores and mappings in that directory alone.
-/

namespace DeadKernel

open Words Lineage

-----------------------------------------------------------------------------------------
-- Memories without page tables
-----------------------------------------------------------------------------------------

/-- The private bytes of one address space. -/
abbrev PrivateMemory := Nat → Option UInt8

inductive MemoryChange where
  | store (address : Nat) (byte : UInt8)
  | map (page : Nat) (bytes : Nat → UInt8)
  | unmap (page : Nat)

def MemoryChange.apply : MemoryChange → PrivateMemory → PrivateMemory
  | .store address byte, memory => update memory address (some byte)
  | .map page bytes, memory => fun address =>
      if address / pageSize = page then some (bytes (address % pageSize)) else memory address
  | .unmap page, memory => fun address =>
      if address / pageSize = page then none else memory address

theorem MemoryChange.apply_map {page address : Nat} {bytes : Nat → UInt8} {memory : PrivateMemory}
    : (MemoryChange.map page bytes).apply memory address
      = if address / pageSize = page then some (bytes (address % pageSize)) else memory address :=
  rfl

theorem MemoryChange.apply_unmap {page address : Nat} {memory : PrivateMemory}
    : (MemoryChange.unmap page).apply memory address
      = if address / pageSize = page then none else memory address :=
  rfl

abbrev MemoryEvent := Event Nat MemoryChange

/-- No directory has a private page before the first is cloned. -/
def noMemories : Nat → PrivateMemory := fun _ _ => none

section

variable {kmalloc : Kmalloc} {kfree : Kfree} {pool : BlockPool kmalloc kfree}
variable {live : Nat → Prop} {held : Blocks} {st st' : Kernel} {dir slot i : Nat}

-----------------------------------------------------------------------------------------
-- One page
-----------------------------------------------------------------------------------------

/-- The page of an entry of a table in a slot. -/
theorem slot_page {address : Nat} (inside : i < pagesInTable)
    : address / pageSize = slot * 1024 + i
      ↔ address / pageSize / 1024 = slot ∧ address / pageSize % 1024 = i := by
  simp only [pagesInTable] at inside
  omega

/-- Writing an entry of a private table concerns the page of that entry alone. -/
theorem Ownership.privateByte_setPage (h : Ownership live held st) (alive : live dir)
    (below : slot < tablesInDir) (mine : PrivateTable st dir slot) (inside : i < pagesInTable)
    {frames : Nat → BitVec 32} {page : Page} {other address : Nat} (alive' : live other)
    (small : address < wordSize)
    : ({ st with frames }.setPage ((st.dirs dir).tables slot, i) page).privateByte other address
      = if other = dir ∧ address / pageSize = slot * 1024 + i then
          if page.present = true then some (st.ram page.frame (address % pageSize)) else none
        else st.privateByte other address := by
  by_cases here : other = dir ∧ address / pageSize = slot * 1024 + i
  · obtain ⟨rfl, place⟩ := here
    obtain ⟨slot', index⟩ := (slot_page inside).mp place
    have mine' : PrivateTable
        ({ st with frames }.setPage ((st.dirs other).tables slot, i) page) other
        (address / pageSize / 1024) := slot' ▸ mine
    have entry : ({ st with frames }.setPage ((st.dirs other).tables slot, i) page).page
        ((st.dirs other).tables (address / pageSize / 1024), address / pageSize % 1024) = page := by
      rw [slot', index, Kernel.page_setPage]
    have dirs : ({ st with frames }.setPage ((st.dirs other).tables slot, i) page).dirs
        = st.dirs := rfl
    rw [if_pos ⟨rfl, place⟩, privateByte_eq mine', dirs, entry]
    rfl
  · rw [if_neg here]
    by_cases mine' : PrivateTable st other (address / pageSize / 1024)
    · have elsewhere : ((st.dirs other).tables (address / pageSize / 1024),
          address / pageSize % 1024) ≠ ((st.dirs dir).tables slot, i) := by
        intro same
        obtain ⟨table, index⟩ := Prod.mk.inj same
        obtain ⟨sameDir, sameSlot⟩ := h.sole dir alive slot below mine other alive' _
          (page_slot (address_page small)) table
        exact here ⟨sameDir, (slot_page inside).mpr ⟨sameSlot, index⟩⟩
      have entry : ({ st with frames }.setPage ((st.dirs dir).tables slot, i) page).page
          ((st.dirs other).tables (address / pageSize / 1024), address / pageSize % 1024)
          = st.page ((st.dirs other).tables (address / pageSize / 1024),
              address / pageSize % 1024) :=
        Kernel.page_setPage_other elsewhere
      have dirs : ({ st with frames }.setPage ((st.dirs dir).tables slot, i) page).dirs
          = st.dirs := rfl
      rw [privateByte_eq mine', privateByte_eq (by exact mine'), dirs, entry]
      rfl
    · rw [privateByte_none mine']
      exact privateByte_none mine'

/-- A private byte, with other contents in the frames. -/
theorem privateByte_withRam {ram : Nat → Nat → UInt8} {address : Nat}
    (mine : PrivateTable st dir (address / pageSize / 1024))
    : ({ st with ram } : Kernel).privateByte dir address
      = if (st.page (st.entryRef dir (address / pageSize))).present = true then
          some (ram (st.page (st.entryRef dir (address / pageSize))).frame (address % pageSize))
        else none := by
  have mine' : PrivateTable { st with ram } dir (address / pageSize / 1024) := mine
  exact privateByte_eq mine'

theorem privateRef_entry {address : Nat} (alive : live dir) (small : address < wordSize)
    (mine : PrivateTable st dir (address / pageSize / 1024))
    : PrivateRef live noTable st (st.entryRef dir (address / pageSize)) :=
  ⟨Nat.mod_lt _ (by decide),
    Or.inr ⟨dir, alive, _, page_slot (address_page small), mine, rfl⟩⟩

/-- A frame that is private to a directory is behind one page of it only. -/
theorem SoleFrames.samePlace (sole : SoleFrames pool.own live noTable st)
    (owned : Ownership live held st) {dir' address address' : Nat} (alive : live dir)
    (small : address < wordSize) (mine : PrivateTable st dir (address / pageSize / 1024))
    (present : (st.page (st.entryRef dir (address / pageSize))).present = true)
    (alive' : live dir') (small' : address' < wordSize)
    (populated : (st.dirs dir').tables (address' / pageSize / 1024) ≠ 0)
    : ((st.page (st.entryRef dir (address / pageSize))).frame, address % pageSize)
        = st.place dir' address'
      ↔ dir' = dir ∧ address' = address := by
  have holder := privateRef_entry alive small mine
  have nonzero := sole.present _ holder present
  have entry : st.entry dir' (address' / pageSize)
      = st.page (st.entryRef dir' (address' / pageSize)) :=
    if_neg populated
  have used : InUse live noTable st (st.entryRef dir' (address' / pageSize)) :=
    ⟨Nat.mod_lt _ (by decide), Or.inr ⟨_, alive', _, page_slot (address_page small'), populated,
        rfl⟩⟩
  rw [Kernel.place, entry, Prod.mk.injEq]
  constructor
  · rintro ⟨frame, offset⟩
    have ref := sole.exclusive.alone _ _ _ holder.inUse (Or.inl holder)
      (frameOf_eq_some.mpr ⟨rfl, nonzero⟩) used (frameOf_eq_some.mpr ⟨frame.symm, nonzero⟩)
    obtain ⟨table, number⟩ := Prod.mk.inj ref
    obtain ⟨same, slot⟩ := owned.sole dir alive _
        (page_slot (address_page small)) mine dir' alive' _
      (page_slot (address_page small')) table
    refine ⟨same, ?_⟩
    simp only [pageSize] at slot number offset
    omega
  · rintro ⟨rfl, rfl⟩
    exact ⟨rfl, rfl⟩

/-- A store reaches one byte of the directory in force, and no private byte of another one. -/
theorem SoleFrames.storeByte (sole : SoleFrames pool.own live noTable st)
    (owned : Ownership live held st) (alive : live st.currentDir) {address : Nat} {byte : UInt8}
    (small : address < wordSize) (run : DeadKernel.storeByte address byte st = some st')
    {other address' : Nat} (alive' : live other) (small' : address' < wordSize)
    : st'.privateByte other address'
      = if (st.currentDir = other ∧ address = address')
          ∧ PrivateTable st other (address' / pageSize / 1024) then some byte
        else st.privateByte other address' := by
  obtain ⟨present, ram, rfl, stored⟩ := storeByte_spec run
  have populated : (st.dirs st.currentDir).tables (address / pageSize / 1024) ≠ 0 := by
    intro none
    rw [Kernel.entry, if_pos none] at present
    contradiction
  by_cases mine : PrivateTable st other (address' / pageSize / 1024)
  · have before : st.privateByte other address' = _ := privateByte_eq mine
    rw [privateByte_withRam mine, before]
    by_cases present' : (st.page (st.entryRef other (address' / pageSize))).present = true
    · have same := sole.samePlace owned alive' small' mine present' alive small populated
      have read := stored ((st.page (st.entryRef other (address' / pageSize))).frame,
        address' % pageSize)
      dsimp only at read
      rw [if_pos present', read]
      by_cases here : st.currentDir = other ∧ address = address'
      · rw [if_pos (same.mpr here), if_pos ⟨here, mine⟩]
      · rw [if_neg (fun place => here (same.mp place)), if_neg (fun both => here both.1)]
        exact (if_pos present').symm
    · rw [if_neg present', if_neg]
      · exact (if_neg present').symm
      · rintro ⟨⟨rfl, rfl⟩, -⟩
        rw [Kernel.entry, if_neg populated] at present
        exact present' present
  · rw [privateByte_none mine, if_neg (fun both => mine both.2)]
    exact privateByte_none mine

-----------------------------------------------------------------------------------------
-- Runs
-----------------------------------------------------------------------------------------

/-- What mapping an entry means for the memory of its directory: an empty private one comes to show
what its frame held.
-/
def mapEvents (st st' : Kernel) (dir slot i : Nat) : List MemoryEvent :=
  if PrivateTable st dir slot ∧ (st.page ((st.dirs dir).tables slot, i)).frame = 0 then
    [.change dir (.map (slot * 1024 + i)
      (st.ram (st'.page ((st.dirs dir).tables slot, i)).frame))]
  else []

/-- Stores to pages that are shared with the kernel directory change no private byte. -/
def storeEvents (st : Kernel) (address : Nat) (byte : UInt8) : List MemoryEvent :=
  if PrivateTable st st.currentDir (address / pageSize / 1024) then
    [.change st.currentDir (.store address byte)]
  else []

/-- The directories in use hold what a history of memories apart from each other makes of them. -/
structure Replayed (pool : BlockPool kmalloc kfree) (live : Nat → Prop) (kept : Blocks)
    (history : List MemoryEvent) (st : Kernel)
    : Prop where
  spaces : ∃ held, Spaces (pool.aside kept) live held st
  sole : SoleFrames pool.own live noTable st
  memories : ∀ dir, live dir → ∀ address < wordSize,
    st.privateByte dir address = after MemoryChange.apply noMemories history dir address

-----------------------------------------------------------------------------------------
-- Steps
-----------------------------------------------------------------------------------------

variable {kept : Blocks} {history : List MemoryEvent} {src : Nat}

/-- A frame of a private table is none of the kernel heap's. -/
theorem SoleFrames.notOwnFrame (sole : SoleFrames pool.own live noTable st)
    (owned : Ownership live held st) (alive : live dir) (below : slot < tablesInDir)
    (mine : PrivateTable st dir slot) (inside : i < pagesInTable)
    : ¬ OwnFrame pool.own st (st.page ((st.dirs dir).tables slot, i)).frame := by
  rintro ⟨nonzero, ref, isOwn, same⟩
  have isPrivate : PrivateRef live noTable st ((st.dirs dir).tables slot, i) :=
    ⟨inside, Or.inr ⟨dir, alive, slot, below, mine, rfl⟩⟩
  have here := sole.exclusive.alone _ ref _ isPrivate.inUse (Or.inl isPrivate)
    (frameOf_eq_some.mpr ⟨rfl, nonzero⟩) (isOwn.inUse pool.bounded owned.kernelDir)
    (frameOf_eq_some.mpr ⟨same, nonzero⟩)
  exact owned.notOwn pool.bounded alive below mine i (here ▸ isOwn)

/-- The history goes on without an event when no private byte changes. -/
theorem Replayed.quiet {live' : Nat → Prop} {kept' : Blocks}
    (h : Replayed pool live kept history st) (fewer : ∀ dir, live' dir → live dir)
    (spaces : ∃ held, Spaces (pool.aside kept') live' held st')
    (sole : SoleFrames pool.own live' noTable st') (memories : MemoriesKept live' st st')
    : Replayed pool live' kept' history st' where
  spaces := spaces
  sole := sole
  memories dir alive address small :=
    (memories dir alive address small).trans (h.memories dir (fewer dir alive) address small)

theorem Replayed.fork (h : Replayed pool live kept history st) (frugal : FrugalPool pool)
    (alive : live src) (done : cloneDir kmalloc src st = some (dir, st')) (room : Roomy st')
    : Replayed pool (fun other => live other ∨ other = dir) kept (.copy src dir :: history)
      st' := by
  obtain ⟨held, spaces⟩ := h.spaces
  obtain ⟨held', spaces', -, -, notLive, -⟩ := spaces.cloneDir done
  obtain ⟨sole, before, copied⟩ := spaces.takeIn.cloneDir_copies frugal h.sole alive room done
  refine ⟨⟨held', spaces'⟩, sole, ?_⟩
  rintro other (alive' | rfl) address small
  · have apart : other ≠ dir := fun same => notLive (same ▸ alive')
    rw [after_copy_other apart, before other alive' address small,
      h.memories other alive' address small]
  · rw [after_copy_target, copied address small, h.memories src alive address small]

theorem Replayed.request (h : Replayed pool live kept history st) (frugal : FrugalPool pool)
    {size align block physAddr : Nat} {phys : Bool}
    (done : kmalloc size align phys st = some (block, physAddr, st')) (room : Roomy st')
    : Replayed pool live (update kept block (some size)) history st' := by
  obtain ⟨held, spaces⟩ := h.spaces
  obtain ⟨-, -, held', spaces', -⟩ := spaces.lend done
  exact h.quiet (fun _ => id) ⟨held', spaces'⟩
    (h.sole.request frugal spaces.takeIn room done) (spaces.request_memories done)

theorem Replayed.giveBack (h : Replayed pool live kept history st) (frugal : FrugalPool pool)
    {block size : Nat} (known : kept block = some size) (done : kfree block st = some st')
    : Replayed pool live (update kept block none) history st' := by
  obtain ⟨held, spaces⟩ := h.spaces
  obtain ⟨after, freed, back, spaces'⟩ := spaces.giveBack known
  obtain rfl := Option.some.inj (done.symm.trans freed)
  exact h.quiet (fun _ => id) ⟨held, spaces'⟩
    (h.sole.takenBack spaces.takeIn back
      (frugal.shrinks spaces.holds.2 (Blocks.withAside_some known) freed))
    (back.memories spaces.owned)

theorem Replayed.table (h : Replayed pool live kept history st) (frugal : FrugalPool pool)
    {address : Nat} {page : Option PageRef} (alive : live dir) (small : address < wordSize)
    (elsewhere : dir = st.kernelDir → ∀ page, pool.own page → page / 1024 ≠ pageIndex address)
    (done : getPage kmalloc address true dir st = some (page, st')) (room : Roomy st')
    : Replayed pool live kept history st' := by
  obtain ⟨held, spaces⟩ := h.spaces
  obtain ⟨-, -, -, held', spaces', -⟩ := spaces.getPage alive small elsewhere done
  obtain ⟨sole, memories⟩ :=
    spaces.takeIn.getPage_memories frugal h.sole alive small elsewhere room done
  exact h.quiet (fun _ => id) ⟨held', spaces'⟩ sole memories

/-- Mapping an entry of a table that is the kernel directory's shows in no private memory. -/
theorem Ownership.sharedEntry_kept (h : Ownership live held st) (alive : live dir)
    (below : slot < tablesInDir) (shared : ¬ PrivateTable st dir slot) {frames : Nat → BitVec 32}
    {page : Page}
    : MemoriesKept live st ({ st with frames }.setPage ((st.dirs dir).tables slot, i) page) := by
  refine .of_slots fun other alive' slot' below' => .of_dirs rfl rfl rfl (fun mine j _ => ?_)
    (fun _ _ _ _ _ _ => rfl)
  refine Kernel.page_setPage_other fun same => shared ?_
  obtain ⟨rfl, rfl⟩ := h.sole other alive' slot' below' mine dir alive slot below
    (Prod.mk.inj same).1.symm
  exact mine

theorem Replayed.map (h : Replayed pool live kept history st) {isKernel isWriteable : Nat}
    (alive : live dir) (below : slot < tablesInDir) (populated : (st.dirs dir).tables slot ≠ 0)
    (inside : i < pagesInTable)
    (done : allocFrame ((st.dirs dir).tables slot, i) isKernel isWriteable st = some st')
    (room : Roomy st')
    : Replayed pool live kept (mapEvents st st' dir slot i ++ history) st' := by
  obtain ⟨held, spaces⟩ := h.spaces
  have owned := spaces.owned
  have spaces' := spaces.allocFrame (owned.tables dir alive slot below populated).1 done
  have sole' := h.sole.allocFrame room done
  rcases allocFrame_whileRoom h.sole.zero room done with
    ⟨mapped, rfl⟩ | ⟨empty, frame, -, -, -, rfl⟩
  · rw [mapEvents, if_neg (fun both => mapped both.2), List.nil_append]
    exact h
  by_cases mine : PrivateTable st dir slot
  · refine ⟨⟨held, spaces'⟩, sole', fun other alive' address small => ?_⟩
    rw [owned.privateByte_setPage alive below mine inside alive' small, mapEvents,
      if_pos (And.intro mine empty), Kernel.page_setPage, List.singleton_append]
    by_cases here : other = dir
    · subst here
      rw [after_change_self, MemoryChange.apply_map]
      by_cases page : address / pageSize = slot * 1024 + i
      · rw [if_pos ⟨rfl, page⟩, if_pos page]
        rfl
      · rw [if_neg (fun both => page both.2), if_neg page, h.memories other alive' address small]
    · rw [after_change_other here, if_neg (fun both => here both.1),
        h.memories other alive' address small]
  · rw [mapEvents, if_neg (fun both => mine both.1), List.nil_append]
    exact h.quiet (fun _ => id) ⟨held, spaces'⟩ sole'
      (owned.sharedEntry_kept alive below mine)

theorem Replayed.unmap (h : Replayed pool live kept history st) (alive : live dir)
    (below : slot < tablesInDir) (mine : PrivateTable st dir slot) (inside : i < pagesInTable)
    : Replayed pool live kept (.change dir (.unmap (slot * 1024 + i)) :: history)
        (freeFrame ((st.dirs dir).tables slot, i) st) := by
  obtain ⟨held, spaces⟩ := h.spaces
  have owned := spaces.owned
  have isPrivate : PrivateRef live noTable st ((st.dirs dir).tables slot, i) :=
    ⟨inside, Or.inr ⟨dir, alive, slot, below, mine, rfl⟩⟩
  refine ⟨⟨held, spaces.freeFrame alive below mine
      (h.sole.notOwnFrame owned alive below mine inside)⟩, h.sole.freeFrame isPrivate, ?_⟩
  intro other alive' address small
  have byte : (freeFrame ((st.dirs dir).tables slot, i) st).privateByte other address
      = if other = dir ∧ address / pageSize = slot * 1024 + i then none
        else st.privateByte other address := by
    rw [DeadKernel.freeFrame]
    dsimp only
    split
    · rename_i empty
      split
      · rename_i here
        obtain ⟨rfl, place⟩ := here
        obtain ⟨slot', index⟩ := (slot_page inside).mp place
        rw [privateByte_eq (slot' ▸ mine), slot', index, if_neg]
        exact fun present => h.sole.present _ isPrivate present empty
      · rfl
    · rw [owned.privateByte_setPage alive below mine inside alive' small]
      rfl
  rw [byte]
  by_cases here : other = dir
  · subst here
    rw [after_change_self, MemoryChange.apply_unmap]
    by_cases page : address / pageSize = slot * 1024 + i
    · rw [if_pos ⟨rfl, page⟩, if_pos page]
    · rw [if_neg (fun both => page both.2), if_neg page, h.memories other alive' address small]
  · rw [after_change_other here, if_neg (fun both => here both.1),
      h.memories other alive' address small]

theorem Replayed.store (h : Replayed pool live kept history st) {address : Nat} {byte : UInt8}
    (alive : live st.currentDir) (small : address < wordSize)
    (done : storeByte address byte st = some st')
    : Replayed pool live kept (storeEvents st address byte ++ history) st' := by
  obtain ⟨held, spaces⟩ := h.spaces
  have stored {other address' : Nat} (alive' : live other) (small' : address' < wordSize) :=
    h.sole.storeByte spaces.owned alive small done alive' small'
  obtain ⟨-, ram, rfl, -⟩ := storeByte_spec done
  refine ⟨⟨held, spaces.withRam ram⟩, h.sole.contents _ ram _,
    fun other alive' address' small' => ?_⟩
  rw [stored alive' small', h.memories other alive' address' small', storeEvents]
  by_cases mine : PrivateTable st st.currentDir (address / pageSize / 1024)
  · rw [if_pos mine, List.singleton_append]
    by_cases here : other = st.currentDir
    · subst here
      rw [after_change_self, MemoryChange.apply, update]
      by_cases same : address' = address
      · rw [if_pos ⟨⟨rfl, same.symm⟩, same ▸ mine⟩, if_pos same]
      · rw [if_neg (fun all => same all.1.2.symm), if_neg same]
    · rw [after_change_other here, if_neg (fun all => here all.1.1.symm)]
  · rw [if_neg mine, List.nil_append, if_neg]
    rintro ⟨⟨rfl, rfl⟩, private_⟩
    exact mine private_

theorem Replayed.release (h : Replayed pool live kept history st) (frugal : FrugalPool pool)
    (alive : live dir) (notKernel : dir ≠ st.kernelDir) (done : freeDir kfree dir st = some st')
    : Replayed pool (fun other => live other ∧ other ≠ dir) kept history st' := by
  obtain ⟨held, spaces⟩ := h.spaces
  have start : Releasable (pool.aside kept) live held st dir :=
    ⟨spaces, alive, notKernel, h.sole.distinct⟩
  obtain ⟨after, run, -, held', spaces'⟩ := start.freeDir
  obtain rfl := Option.some.inj (done.symm.trans run)
  obtain ⟨sole, memories⟩ := spaces.takeIn.freeDir_memories frugal h.sole alive notKernel done
  exact h.quiet (fun _ => And.left) ⟨held', spaces'⟩ sole memories

end

-----------------------------------------------------------------------------------------
-- A parent and its child
-----------------------------------------------------------------------------------------

end DeadKernel
