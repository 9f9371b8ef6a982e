import DeadKernel.Memory.AlignedAllocation
import DeadKernel.Memory.DirectoryBalance

/-! Tables of the kernel directory in the other directories. A clone shares the tables that the
kernel directory has when it is made; a table that the kernel directory gets later is put into no
other directory, so the clones made before lack it.
-/

namespace DeadKernel

open Words

-----------------------------------------------------------------------------------------
-- Slots that have a table
-----------------------------------------------------------------------------------------

/-- Slots with a table keep it, with its physical address. -/
def SlotsKept (st st' : Kernel) : Prop :=
  ∀ dir slot, (st.dirs dir).tables slot ≠ 0 →
    (st'.dirs dir).tables slot = (st.dirs dir).tables slot
    ∧ (st'.dirs dir).tablesPhysical slot = (st.dirs dir).tablesPhysical slot

theorem SlotsKept.of_dirs {st st' : Kernel} (same : st'.dirs = st.dirs) : SlotsKept st st' := by
  intro dir slot _
  rw [same]
  exact ⟨rfl, rfl⟩

theorem SlotsKept.trans {st st' st'' : Kernel} (h : SlotsKept st st') (h' : SlotsKept st' st'')
    : SlotsKept st st'' := by
  intro dir slot populated
  obtain ⟨table, physical⟩ := h dir slot populated
  obtain ⟨table', physical'⟩ := h' dir slot (by rw [table]; exact populated)
  exact ⟨table'.trans table, physical'.trans physical⟩

theorem OnlyMem.slotsKept {st st' : Kernel} (h : OnlyMem st st') : SlotsKept st st' := by
  obtain ⟨m, rfl⟩ := h
  exact .of_dirs rfl

/-- Requests keep all tables where they are. -/
def KeepsSlots (kmalloc : Kmalloc) : Prop :=
  ∀ size align phys st r, kmalloc size align phys st = some r → SlotsKept st r.2.2

def AllocKeepsSlots (alloc : Alloc) : Prop :=
  ∀ size heap st r, alloc size heap st = some r → SlotsKept st r.2

section

variable {kmalloc : Kmalloc} {alloc : Alloc} {st st' : Kernel}

/-- `getPage` fills a slot that is empty. -/
theorem KeepsSlots.getPage (keeps : KeepsSlots kmalloc) {address dir : Nat} {make : Bool}
    {page : Option PageRef} (run : getPage kmalloc address make dir st = some (page, st'))
    : SlotsKept st st' := by
  rw [DeadKernel.getPage] at run
  split at run
  · obtain ⟨-, rfl⟩ := Prod.mk.inj (Option.some.inj run)
    exact .of_dirs rfl
  · rename_i empty
    split at run
    · obtain ⟨⟨table, physAddress, served⟩, request, same⟩ := Option.bind_eq_some_iff.mp run
      obtain ⟨-, rfl⟩ := Prod.mk.inj (Option.some.inj same)
      intro other slot populated
      by_cases here : other = dir
      · subst here
        have elsewhere : slot ≠ pageIndex address := by
          rintro rfl
          exact empty populated
        have kept := keeps _ _ _ _ _ request other slot populated
        simpa [elsewhere] using kept
      · have kept := keeps _ _ _ _ _ request other slot populated
        simpa [here] using kept
    · obtain ⟨-, rfl⟩ := Prod.mk.inj (Option.some.inj run)
      exact .of_dirs rfl

theorem allocFrame_dirs {ref : PageRef} {isKernel isWriteable : Nat}
    (run : allocFrame ref isKernel isWriteable st = some st')
    : st'.dirs = st.dirs ∧ st'.kernelDir = st.kernelDir := by
  rcases allocFrame_spec run with ⟨-, rfl⟩ | ⟨-, rfl⟩
  · exact ⟨rfl, rfl⟩
  · exact ⟨rfl, rfl⟩

theorem KeepsSlots.expand (keeps : KeepsSlots kmalloc) {newSize heap : Nat}
    (run : expand kmalloc newSize heap st = some st')
    : SlotsKept st st' := by
  simp only [DeadKernel.expand, Option.bind_eq_bind, Option.bind_eq_some_iff] at run
  obtain ⟨-, -, -, -, mid, loop, same⟩ := run
  obtain rfl := Option.some.inj same
  have grown : SlotsKept st mid := by
    refine forPages_invariant ?_ _ _ _ _ (.of_dirs rfl) loop
    intro i before after _ kept round
    simp only [expandPage, Option.bind_eq_bind, Option.bind_eq_some_iff] at round
    obtain ⟨⟨page, found⟩, look, ref, -, taken, allocated, shown⟩ := round
    obtain rfl := Option.some.inj shown
    refine (kept.trans (keeps.getPage look)).trans (.of_dirs ?_)
    rw [← (allocFrame_dirs allocated).1, showFrame]
    split <;> rfl
  exact grown.trans (.of_dirs rfl)

theorem contractPages_dirs {heap newSize fuel i : Nat}
    (run : contractPages heap newSize fuel i st = some st')
    : st'.dirs = st.dirs := by
  induction fuel generalizing i st with
  | zero => contradiction
  | succ fuel ih =>
      rw [contractPages] at run
      split at run
      · obtain ⟨⟨entry, seen⟩, looked, behind⟩ := Option.bind_eq_some_iff.mp run
        obtain ⟨ref, -, rest⟩ := Option.bind_eq_some_iff.mp behind
        obtain ⟨-, rfl⟩ := getPage_lookup looked
        exact (ih rest).trans (freeFrame_keeps ref seen).2.2
      · exact Option.some.inj run ▸ rfl

theorem free_slotsKept {ptr heap : Nat} (run : free ptr heap st = some st') : SlotsKept st st' := by
  rcases free_cases run with only | ⟨before, newSize, kept, after, first, shrunk, last⟩
  · exact only.slotsKept
  · simp only [contract, Option.bind_eq_bind, Option.bind_eq_some_iff] at shrunk
    obtain ⟨-, -, mid, loop, same⟩ := shrunk
    obtain ⟨-, rfl⟩ := Prod.mk.inj (Option.some.inj same)
    exact (first.slotsKept.trans (.of_dirs (contractPages_dirs loop))).trans last.slotsKept

theorem AllocKeepsSlots.palignedAlloc (keeps : AllocKeepsSlots alloc)
    : AllocKeepsSlots (palignedAllocWith alloc) := by
  intro size heap st r run
  obtain ⟨p, st'⟩ := r
  obtain ⟨mem, delivered, took, stages⟩ := palignedAlloc_stages run
  have first := keeps _ _ _ _ took
  by_cases none : mem = 0
  · simp only [palignedAllocWith, took, Option.bind_eq_bind, Option.bind_some, if_pos none] at run
    obtain ⟨-, rfl⟩ := Prod.mk.inj (Option.some.inj run)
    exact first
  · obtain ⟨chunk, carved, lead, tail, -⟩ := stages none
    refine (first.trans (carveLead_onlyMem lead).slotsKept).trans ?_
    rw [trimTail] at tail
    dsimp only at tail
    split at tail
    · exact (OnlyMem.write carved _).slotsKept.trans (free_slotsKept tail)
    · exact Option.some.inj tail ▸ .of_dirs rfl

/-- `heap_malloc` allocates, and looks the block up in the directory of the heap. -/
theorem heapMalloc_stages {heap size align addr physAddr : Nat} {phys : Bool} (some_ : heap ≠ 0)
    (run : heapMallocWith alloc heap size align phys st = some (addr, physAddr, st'))
    : (if align ≠ 0 then palignedAllocWith alloc size heap st else alloc size heap st)
        = some (addr, st')
      ∧ (phys = true → ∃ ref, st'.pageOf (st'.heaps heap).pageDir addr = some ref
          ∧ physAddr = u32 ((st'.page ref).frame * pageSize + addr % pageSize)) := by
  have staged : Option.bind
      (if align ≠ 0 then palignedAllocWith alloc size heap st else alloc size heap st)
      (fun taken =>
        if phys then
          (getPage (fun _ _ _ _ => none) taken.1 false (taken.2.heaps heap).pageDir taken.2).bind
            (fun found => found.1.bind (fun ref =>
              some (taken.1, u32 ((found.2.page ref).frame * pageSize + taken.1 % pageSize),
                found.2)))
        else some (taken.1, 0, taken.2)) = some (addr, physAddr, st') := by
    rw [heapMallocWith, if_neg some_] at run
    by_cases aligned : align ≠ 0
    · rw [if_pos aligned] at run ⊢
      exact run
    · rw [if_neg aligned] at run ⊢
      exact run
  obtain ⟨⟨taken, made⟩, took, rest⟩ := Option.bind_eq_some_iff.mp staged
  dsimp only at rest
  split at rest
  · obtain ⟨⟨page, found⟩, look, rest⟩ := Option.bind_eq_some_iff.mp rest
    obtain ⟨ref, there, same⟩ := Option.bind_eq_some_iff.mp rest
    obtain ⟨entry, rfl⟩ := getPage_lookup look
    obtain ⟨rfl, pair⟩ := Prod.mk.inj (Option.some.inj same)
    obtain ⟨rfl, rfl⟩ := Prod.mk.inj pair
    exact ⟨took, fun _ => ⟨ref, entry.symm.trans there, rfl⟩⟩
  · rename_i unasked
    obtain ⟨rfl, pair⟩ := Prod.mk.inj (Option.some.inj rest)
    obtain ⟨-, rfl⟩ := Prod.mk.inj pair
    exact ⟨took, fun asked => absurd asked unasked⟩

theorem AllocKeepsSlots.kmallocWith (keeps : AllocKeepsSlots alloc)
    : KeepsSlots (DeadKernel.kmallocWith alloc) := by
  rintro size align phys st ⟨block, physAddr, st'⟩ run
  rw [DeadKernel.kmallocWith] at run
  split at run
  · rename_i some_
    obtain ⟨took, -⟩ := heapMalloc_stages some_ run
    split at took
    · exact keeps.palignedAlloc _ _ _ (block, st') took
    · exact keeps _ _ _ (block, st') took
  · obtain ⟨-, rest⟩ := Prod.mk.inj (Option.some.inj run)
    obtain ⟨-, rfl⟩ := Prod.mk.inj rest
    exact .of_dirs rfl

end

-----------------------------------------------------------------------------------------
-- New tables of the kernel directory
-----------------------------------------------------------------------------------------

/-- The kernel directory keeps its tables, and those it gets were not in use before. Of the blocks
in use no other directory changes.
-/
structure TablesAdded (held : Blocks) (st st' : Kernel) : Prop where
  kernelDir : st'.kernelDir = st.kernelDir
  slots : ∀ slot, st.kernelTables slot ≠ 0 → st'.kernelTables slot = st.kernelTables slot
    ∧ (st'.dirs st.kernelDir).tablesPhysical slot = (st.dirs st.kernelDir).tablesPhysical slot
  fresh : ∀ slot < tablesInDir, st.kernelTables slot = 0 → st'.kernelTables slot ≠ 0 →
    held (st'.kernelTables slot) = none
  dirs : ∀ dir, held dir ≠ none → dir ≠ st.kernelDir → st'.dirs dir = st.dirs dir

/-- A table that the directory shares with the kernel directory has the same physical address. -/
def SamePhysical (st : Kernel) (dir slot : Nat) : Prop :=
  (st.dirs dir).tables slot = st.kernelTables slot →
    (st.dirs dir).tablesPhysical slot = (st.dirs st.kernelDir).tablesPhysical slot

section

variable {kmalloc : Kmalloc} {kfree : Kfree} {pool : BlockPool kmalloc kfree}
variable {live : Nat → Prop} {held held' : Blocks} {st mid st' : Kernel} {src dir slot : Nat}

theorem TablesAdded.of_kernel (kernelDir : st'.kernelDir = st.kernelDir)
    (kernel : st'.dirs st.kernelDir = st.dirs st.kernelDir)
    (dirs : ∀ dir, held dir ≠ none → dir ≠ st.kernelDir → st'.dirs dir = st.dirs dir)
    : TablesAdded held st st' where
  kernelDir := kernelDir
  slots slot _ := by
    rw [Kernel.kernelTables, Kernel.kernelTables, kernelDir, kernel]
    exact ⟨rfl, rfl⟩
  fresh slot _ none some := by
    rw [Kernel.kernelTables, kernelDir, kernel] at some
    exact absurd none some
  dirs := dirs

theorem TablesAdded.of_dirs (kernelDir : st'.kernelDir = st.kernelDir) (same : st'.dirs = st.dirs)
    : TablesAdded held st st' :=
  .of_kernel kernelDir (by rw [same]) (fun _ _ _ => by rw [same])

/-- A directory that was not in use may change. -/
theorem TablesAdded.unused {value : PageDir} (other : dir ≠ st.kernelDir) (unused : held dir = none)
    : TablesAdded held st { st with dirs := update st.dirs dir value } := by
  refine .of_kernel rfl (update_other other.symm) (fun dir' known _ => update_other ?_)
  rintro rfl
  exact known unused

theorem TablesAdded.of_grow (h : TablesAdded held' st st') (grow : held.Grow held')
    : TablesAdded held st st' where
  kernelDir := h.kernelDir
  slots := h.slots
  fresh slot below none some := by
    by_contra known
    exact grow.more known (h.fresh slot below none some)
  dirs dir known := h.dirs dir (grow.more known)

theorem TablesAdded.trans (h : TablesAdded held st mid) (h' : TablesAdded held mid st')
    : TablesAdded held st st' where
  kernelDir := h'.kernelDir.trans h.kernelDir
  slots slot populated := by
    obtain ⟨table, physical⟩ := h.slots slot populated
    obtain ⟨table', physical'⟩ := h'.slots slot (by rw [table]; exact populated)
    rw [h.kernelDir] at physical'
    exact ⟨table'.trans table, physical'.trans physical⟩
  fresh slot below none some := by
    by_cases early : mid.kernelTables slot = 0
    · exact h'.fresh slot below early some
    · rw [(h'.slots slot early).1]
      exact h.fresh slot below none early
  dirs dir known other :=
    (h'.dirs dir known (by rw [h.kernelDir]; exact other)).trans (h.dirs dir known other)

theorem HandedOut.added {own : Nat → Prop} {block size : Nat}
    (out : HandedOut own held st block size held' st') (kept : SlotsKept st st')
    : TablesAdded held st st' where
  kernelDir := out.kernelDir
  slots slot populated := ⟨out.slots slot populated, (kept st.kernelDir slot populated).2⟩
  fresh slot below none some :=
    (out.tableHeld slot _ ⟨below, none, rfl, some⟩).1
  dirs := out.dirs

/-- The table of a directory in use is none that the kernel directory has just got. -/
theorem SamePhysical.added (h : SamePhysical st dir slot) (added : TablesAdded held st st')
    (alive : held dir ≠ none) (other : dir ≠ st.kernelDir) (below : slot < tablesInDir)
    (populated : (st.dirs dir).tables slot ≠ 0) (known : held ((st.dirs dir).tables slot) ≠ none)
    : SamePhysical st' dir slot := by
  intro same
  rw [added.dirs dir alive other] at same ⊢
  rw [added.kernelDir]
  by_cases early : st.kernelTables slot = 0
  · by_cases late : st'.kernelTables slot = 0
    · exact absurd (same.trans late) populated
    · rw [same] at known
      exact absurd (added.fresh slot below early late) known
  · obtain ⟨table, physical⟩ := added.slots slot early
    rw [physical]
    exact h (same.trans table)

-----------------------------------------------------------------------------------------
-- The invariant
-----------------------------------------------------------------------------------------

/-- Where the kernel directory has a table every directory in use has one, with the same physical
address if it is the same.
-/
def TablesShared (live : Nat → Prop) (st : Kernel) : Prop :=
  ∀ dir, live dir → ∀ slot < tablesInDir, st.kernelTables slot ≠ 0 →
    (st.dirs dir).tables slot ≠ 0 ∧ SamePhysical st dir slot

/-- A slot in which the kernel directory gets a table has one in every other directory in use. -/
def TablesSettled (live : Nat → Prop) (st st' : Kernel) : Prop :=
  ∀ slot < tablesInDir, st.kernelTables slot = 0 → st'.kernelTables slot ≠ 0 →
    ∀ dir, live dir → dir ≠ st.kernelDir → (st.dirs dir).tables slot ≠ 0

theorem TablesShared.samePhysical (h : TablesShared live st) (alive : live dir)
    (below : slot < tablesInDir) (populated : (st.dirs dir).tables slot ≠ 0)
    : SamePhysical st dir slot := by
  intro same
  exact (h dir alive slot below (by rw [← same]; exact populated)).2 same

/-- A step that only adds tables keeps the sharing if they are settled. -/
theorem TablesShared.added (h : TablesShared live st) (owned : Ownership live held st)
    (added : TablesAdded held st st') (settled : TablesSettled live st st')
    : TablesShared live st' := by
  intro dir alive slot below some
  by_cases kernel : dir = st.kernelDir
  · rw [← added.kernelDir] at kernel
    subst kernel
    exact ⟨some, fun _ => rfl⟩
  · have known := owned.dirs dir alive
    have populated : (st.dirs dir).tables slot ≠ 0 := by
      by_cases early : st.kernelTables slot = 0
      · exact settled slot below early some dir alive kernel
      · exact (h dir alive slot below early).1
    rw [added.dirs dir known kernel]
    exact ⟨populated, (h.samePhysical alive below populated).added added known kernel below
      populated (owned.tables dir alive slot below populated).1⟩

theorem setSlot_elsewhere {table physical dir' slot' : Nat} (other : ¬ (dir' = dir ∧ slot' = slot))
    : ((st.setSlot dir slot table physical).dirs dir').tables slot' = (st.dirs dir').tables slot'
      ∧ ((st.setSlot dir slot table physical).dirs dir').tablesPhysical slot'
        = (st.dirs dir').tablesPhysical slot' := by
  by_cases here : dir' = dir
  · subst here
    have apart : slot' ≠ slot := fun same => other ⟨rfl, same⟩
    simp [Kernel.setSlot, apart]
  · simp [Kernel.setSlot, here]

theorem kernelTables_setSlot (st : Kernel) (dir slot table physical slot' : Nat)
    : (st.setSlot dir slot table physical).kernelTables slot'
      = if st.kernelDir = dir ∧ slot' = slot then table else st.kernelTables slot' :=
  setSlot_table st dir slot table physical st.kernelDir slot'

/-- The kernel directory gets a block that was not in use. -/
theorem TablesAdded.kernelSlot {table physical : Nat} (h : TablesAdded held st st')
    (empty : st.kernelTables slot = 0) (fresh : held table = none)
    : TablesAdded held st (st'.setSlot st'.kernelDir slot table physical) where
  kernelDir := h.kernelDir
  slots slot' populated := by
    have apart (dir' : Nat) : ¬ (dir' = st'.kernelDir ∧ slot' = slot) := by
      rintro ⟨-, rfl⟩
      exact populated empty
    obtain ⟨kept, physical⟩ := h.slots slot' populated
    rw [kernelTables_setSlot, if_neg (apart _)]
    exact ⟨kept, (setSlot_elsewhere (apart _)).2.trans physical⟩
  fresh slot' below none some := by
    rw [kernelTables_setSlot] at some ⊢
    split
    · exact fresh
    · rename_i apart
      rw [if_neg apart] at some
      exact h.fresh slot' below none some
  dirs dir' known other :=
    (update_other (h.kernelDir.symm ▸ other)).trans (h.dirs dir' known other)

/-- A directory other than the kernel's gets a table in an empty slot. -/
theorem TablesShared.setSlot {table physical : Nat} (h : TablesShared live st) (alive : live dir)
    (other : dir ≠ st.kernelDir) (below : slot < tablesInDir)
    (empty : (st.dirs dir).tables slot = 0)
    : TablesShared live (st.setSlot dir slot table physical) := by
  intro dir' alive' slot' below' some
  have kernel (slot' : Nat) : ¬ (st.kernelDir = dir ∧ slot' = slot) := fun both => other both.1.symm
  rw [kernelTables_setSlot, if_neg (kernel slot')] at some
  have apart : ¬ (dir' = dir ∧ slot' = slot) := by
    rintro ⟨rfl, rfl⟩
    exact (h dir' alive' slot' below' some).1 empty
  obtain ⟨table', physical'⟩ := setSlot_elsewhere apart
  obtain ⟨populated, same⟩ := h dir' alive' slot' below' some
  rw [table']
  refine ⟨populated, fun shared => ?_⟩
  rw [table', kernelTables_setSlot, if_neg (kernel slot')] at shared
  rw [physical']
  exact (same shared).trans (setSlot_elsewhere (kernel slot')).2.symm

/-- `getPage` gives an empty slot a block that was not in use. -/
theorem TablesShared.getPage (h : TablesShared live st) (spaces : Spaces pool live held st)
    (keeps : KeepsSlots kmalloc) {address : Nat} {page : Option PageRef} (alive : live dir)
    (small : address < wordSize)
    (run : getPage kmalloc address true dir st = some (page, st'))
    (settled : TablesSettled live st st')
    : TablesShared live st' := by
  have below : pageIndex address < tablesInDir := by
    simp only [pageIndex, addr2Frame, pageSize, tablesInDir, wordSize] at small ⊢
    omega
  rw [DeadKernel.getPage] at run
  split at run
  · obtain ⟨-, rfl⟩ := Prod.mk.inj (Option.some.inj run)
    exact h
  rename_i empty
  rw [not_not] at empty
  simp only [if_true, Option.bind_eq_bind, Option.bind_eq_some_iff] at run
  obtain ⟨⟨table, physAddress, served⟩, request, same⟩ := run
  obtain ⟨-, rfl⟩ := Prod.mk.inj (Option.some.inj same)
  obtain ⟨held', -, out⟩ := spaces.request request
  have added : TablesAdded held st
      { served with tables := update served.tables table PageTable.zero } :=
    (out.added (keeps _ _ _ _ _ request)).trans (.of_dirs rfl rfl)
  by_cases kernel : dir = st.kernelDir
  · rw [kernel] at empty
    rw [kernel, ← added.kernelDir] at settled ⊢
    exact h.added spaces.owned (added.kernelSlot empty out.fresh) settled
  · have kernel' : dir ≠ served.kernelDir := out.kernelDir ▸ kernel
    have empty' : (served.dirs dir).tables (pageIndex address) = 0 := by
      rw [out.dirs dir (spaces.owned.dirs dir alive) kernel]
      exact empty
    have shared := h.added spaces.owned added (fun slot less none some =>
      settled slot less none (fun now => some (by
        rw [← now]
        exact ((kernelTables_setSlot _ dir _ table _ slot).trans
          (if_neg (fun both => kernel' both.1.symm))).symm)))
    exact shared.setSlot alive kernel' below empty'

-----------------------------------------------------------------------------------------
-- Clones
-----------------------------------------------------------------------------------------

/-- A slot of a clone that has been copied from `src`. -/
structure SlotCopied (st : Kernel) (src dir slot : Nat) : Prop where
  empty : (st.dirs dir).tables slot = 0 → (st.dirs src).tables slot = 0
  physical : (st.dirs dir).tables slot ≠ 0 → SamePhysical st dir slot

theorem SlotCopied.added (h : SlotCopied st src dir slot) (owned : Ownership live held st)
    (added : TablesAdded held st st') (alive : live dir) (aliveSrc : live src)
    (other : dir ≠ st.kernelDir) (otherSrc : src ≠ st.kernelDir) (below : slot < tablesInDir)
    : SlotCopied st' src dir slot where
  empty none := by
    rw [added.dirs dir (owned.dirs dir alive) other] at none
    rw [added.dirs src (owned.dirs src aliveSrc) otherSrc]
    exact h.empty none
  physical populated := by
    have known := owned.dirs dir alive
    rw [added.dirs dir known other] at populated
    exact (h.physical populated).added added known other below populated
      (owned.tables dir alive slot below populated).1

theorem SlotCopied.setSlot (h : SlotCopied st src dir slot) {i table physical : Nat}
    (apart : src ≠ dir) (elsewhere : slot ≠ i)
    : SlotCopied (st.setSlot dir i table physical) src dir slot := by
  obtain ⟨table', physical'⟩ := setSlot_elsewhere (fun both => elsewhere both.2)
  have kernel : ¬ (st.kernelDir = dir ∧ slot = i) := fun both => elsewhere both.2
  refine ⟨fun none => ?_, fun populated same => ?_⟩
  · rw [table'] at none
    rw [(setSlot_elsewhere (fun both => apart both.1)).1]
    exact h.empty none
  · rw [table'] at populated
    rw [table', kernelTables_setSlot, if_neg kernel] at same
    rw [physical']
    exact (h.physical populated same).trans (setSlot_elsewhere kernel).2.symm

theorem cloneTable_added (h : Spaces pool live held st) (keeps : KeepsSlots kmalloc)
    {table physAddr : Nat} (run : cloneTable kmalloc src st = some (table, physAddr, st'))
    : TablesAdded held st st' ∧ table ≠ 0 := by
  obtain ⟨served, request, dirs, kernelDir, -⟩ := cloneTable_effect run
  obtain ⟨held', -, out⟩ := h.request request
  exact ⟨(out.added (keeps _ _ _ _ _ request)).trans (.of_dirs kernelDir dirs), out.nonzero⟩

/-- One round of `cloneDir`'s loop copies a slot and leaves those before it copied. -/
theorem cloneSlot_copied (h : Spaces pool live held st) (keeps : KeepsSlots kmalloc)
    {old : Blocks} {i : Nat} (grow : old.Grow held) (unused : old dir = none)
    (below : i < tablesInDir) (alive : live dir) (aliveSrc : live src)
    (other : dir ≠ st.kernelDir) (apart : src ≠ dir) (empty : (st.dirs dir).tables i = 0)
    (physical : (st.dirs src).tables i ≠ 0 → SamePhysical st src i)
    (copied : ∀ slot < i, SlotCopied st src dir slot)
    (run : cloneSlot kmalloc src dir i st = some st')
    : TablesAdded old st st' ∧ ∀ slot < i + 1, SlotCopied st' src dir slot := by
  rw [DeadKernel.cloneSlot] at run
  split at run
  · rename_i none
    obtain rfl := Option.some.inj run
    refine ⟨.of_dirs rfl rfl, fun slot less => ?_⟩
    rcases Nat.lt_succ_iff_lt_or_eq.mp less with before | rfl
    · exact copied slot before
    · exact ⟨fun _ => none, fun populated => absurd empty populated⟩
  rename_i populated
  split at run
  · rename_i shared
    obtain rfl := Option.some.inj run
    refine ⟨.unused other unused, fun slot less => ?_⟩
    rcases Nat.lt_succ_iff_lt_or_eq.mp less with before | rfl
    · exact (copied slot before).setSlot apart before.ne
    · have kernel : ¬ (st.kernelDir = dir ∧ slot = slot) := fun both => other both.1.symm
      refine ⟨fun none => absurd (Eq.trans (by simp [Kernel.setSlot]) none) populated,
        fun _ _ => ?_⟩
      have source := physical populated shared.symm
      refine Eq.trans ?_ (source.trans (setSlot_elsewhere kernel).2.symm)
      simp [Kernel.setSlot]
  · rename_i private_
    obtain ⟨⟨table, phys, cloned⟩, copy, same⟩ := Option.bind_eq_some_iff.mp run
    obtain rfl := Option.some.inj same
    have otherSrc : src ≠ st.kernelDir := by
      rintro rfl
      exact private_ rfl
    obtain ⟨added, nonzero⟩ := cloneTable_added h keeps copy
    obtain ⟨held', spaces, -, target, kernelDir, -⟩ := h.cloneTable copy
    have other' : dir ≠ cloned.kernelDir := kernelDir ▸ other
    refine ⟨(added.of_grow grow).trans (.unused other' unused), fun slot less => ?_⟩
    rcases Nat.lt_succ_iff_lt_or_eq.mp less with before | rfl
    · exact ((copied slot before).added h.owned added alive aliveSrc other otherSrc
        (before.trans below)).setSlot apart before.ne
    · have here : ((cloned.setSlot dir slot table (phys ||| 0x07)).dirs dir).tables slot
          = table := by
        simp [Kernel.setSlot]
      refine ⟨fun none => absurd (here.symm.trans none) nonzero, fun _ shared => ?_⟩
      rw [here, kernelTables_setSlot, if_neg (fun both => other' both.1.symm)] at shared
      exact absurd shared.symm (target.unused cloned.kernelDir spaces.owned.kernelDir slot below)

/-- A clone shares the kernel directory's tables if its source does. -/
theorem TablesShared.cloneDir (h : TablesShared live st) (spaces : Spaces pool live held st)
    (keeps : KeepsSlots kmalloc) (alive : live src)
    (run : cloneDir kmalloc src st = some (dir, st')) (settled : TablesSettled live st st')
    : TablesShared (fun other => live other ∨ other = dir) st' := by
  simp only [DeadKernel.cloneDir, Option.bind_eq_bind, Option.bind_eq_some_iff] at run
  obtain ⟨⟨block, phys, served⟩, request, filled, loop, same⟩ := run
  obtain ⟨rfl, rfl⟩ := Prod.mk.inj (Option.some.inj same)
  obtain ⟨held', -, out⟩ := spaces.request request
  have notLive : ¬ live block := fun alive => spaces.owned.dirs block alive out.fresh
  have apart : src ≠ block := fun same => notLive (same ▸ alive)
  have notKernel : block ≠ served.kernelDir := by
    rintro same
    exact notLive (same ▸ out.kernelDir ▸ spaces.owned.kernelDir)
  -- the clone has copied the slots before `n`, of which the source still has what it had
  obtain ⟨-, added, copied⟩ := spaces.cloneDir_rounds
    (P := fun n mid => TablesAdded held st mid ∧ ∀ slot < n, SlotCopied mid src block slot)
    request loop
    ⟨(out.added (keeps _ _ _ _ _ request)).trans (.unused notKernel out.fresh),
      fun slot none => absurd none (Nat.not_lt_zero slot)⟩
    (by
      rintro i below held₁ mid next grow ready kernelDir empty ⟨added, copied⟩ round
      have other : block ≠ mid.kernelDir := by
        rw [kernelDir, ← out.kernelDir]
        exact notKernel
      have physical (populated : (mid.dirs src).tables i ≠ 0) : SamePhysical mid src i := by
        by_cases kernel : src = st.kernelDir
        · rw [kernel, ← kernelDir]
          exact fun _ => rfl
        · have known := spaces.owned.dirs src alive
          rw [added.dirs src known kernel] at populated
          exact (h.samePhysical alive below populated).added added known kernel below populated
            (spaces.owned.tables src alive i below populated).1
      obtain ⟨added', copied'⟩ := cloneSlot_copied ready keeps grow out.fresh below (Or.inr rfl)
        (Or.inl alive) other apart empty physical copied round
      exact ⟨added.trans added', copied'⟩)
  have before := h.added spaces.owned added settled
  rintro dir (alive' | rfl) slot below some
  · exact before dir alive' slot below some
  · have populated : (filled.dirs dir).tables slot ≠ 0 :=
      fun none => (before src alive slot below some).1 ((copied slot below).empty none)
    exact ⟨populated, (copied slot below).physical populated⟩

end

-----------------------------------------------------------------------------------------
-- Runs
-----------------------------------------------------------------------------------------

/-- Runs from a state where only the kernel directory is in use: directories are cloned, `getPage`
makes tables in them, and requests let the kernel heap grow. Each step is settled.
-/
inductive SettledRun (kmalloc : Kmalloc) (own : Nat → Prop) (first : Kernel)
    : (Nat → Prop) → Kernel → Prop where
  | start : SettledRun kmalloc own first (fun dir => dir = first.kernelDir) first
  | clone {live : Nat → Prop} {st st' : Kernel} {src dir : Nat}
      (run : SettledRun kmalloc own first live st) (alive : live src)
      (done : cloneDir kmalloc src st = some (dir, st')) (settled : TablesSettled live st st')
      : SettledRun kmalloc own first (fun other => live other ∨ other = dir) st'
  | table {live : Nat → Prop} {st st' : Kernel} {dir address : Nat} {page : Option PageRef}
      (run : SettledRun kmalloc own first live st) (alive : live dir) (small : address < wordSize)
      (elsewhere : dir = st.kernelDir → ∀ page, own page → page / 1024 ≠ pageIndex address)
      (done : getPage kmalloc address true dir st = some (page, st'))
      (settled : TablesSettled live st st')
      : SettledRun kmalloc own first live st'
  | request {live : Nat → Prop} {st st' : Kernel} {size align block physAddr : Nat} {phys : Bool}
      (run : SettledRun kmalloc own first live st)
      (done : kmalloc size align phys st = some (block, physAddr, st'))
      (settled : TablesSettled live st st')
      : SettledRun kmalloc own first live st'

section

variable {kmalloc : Kmalloc} {kfree : Kfree} {live : Nat → Prop} {held : Blocks}
variable {first st : Kernel}

theorem SettledRun.spaceRun {own : Nat → Prop} (run : SettledRun kmalloc own first live st)
    : SpaceRun kmalloc kfree own first live st := by
  induction run with
  | start => exact .start
  | clone _ alive done _ ih => exact ih.clone alive done
  | table _ alive small elsewhere done _ ih => exact ih.table alive small elsewhere done
  | request _ done _ ih => exact ih.request done

/-- By induction on the run. -/
theorem SettledRun.shared {pool : BlockPool kmalloc kfree} (keeps : KeepsSlots kmalloc)
    (boot : Spaces pool (fun dir => dir = first.kernelDir) held first)
    (run : SettledRun kmalloc pool.own first live st)
    : TablesShared live st := by
  induction run with
  | start =>
      rintro dir rfl slot - some
      exact ⟨some, fun _ => rfl⟩
  | clone before alive done settled ih =>
      obtain ⟨held', spaces⟩ := SpaceRun.spaces pool boot before.spaceRun
      exact ih.cloneDir spaces keeps alive done settled
  | table before alive small _ done settled ih =>
      obtain ⟨held', spaces⟩ := SpaceRun.spaces pool boot before.spaceRun
      exact ih.getPage spaces keeps alive small done settled
  | request before done settled ih =>
      obtain ⟨held', spaces⟩ := SpaceRun.spaces pool boot before.spaceRun
      obtain ⟨_, -, out⟩ := spaces.request done
      exact ih.added spaces.owned (out.added (keeps _ _ _ _ _ done)) settled

end

end DeadKernel
