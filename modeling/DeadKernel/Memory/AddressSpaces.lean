import DeadKernel.Memory.KernelBlocks

/-! Directories, their tables and the kernel heap together, through the operations on them.
A directory maps a page by an entry of the page's table; where it has no table yet, the page
counts as one with an empty entry.
-/

namespace DeadKernel

open Words

-----------------------------------------------------------------------------------------
-- Entries by page
-----------------------------------------------------------------------------------------

/-- An invariant that each round keeps holds when the loop ends. -/
theorem forIndices_invariant {State : Type} {body : Nat → State → Option State}
    {P : Nat → State → Prop} {n : Nat} {st st' : State} (start : P 0 st)
    (round : ∀ i < n, ∀ st st', P i st → body i st = some st' → P (i + 1) st')
    (run : forIndices body n st = some st')
    : P n st' := by
  induction n generalizing st' with
  | zero => exact Option.some.inj run ▸ start
  | succ n ih =>
      obtain ⟨mid, before, last⟩ := Option.bind_eq_some_iff.mp run
      exact round n (Nat.lt_succ_self n) mid st'
        (ih (fun i below => round i (Nat.lt_succ_of_lt below)) before) last

/-- The entry of a page in a directory, if its table is there. -/
def Kernel.entryRef (st : Kernel) (dir page : Nat) : PageRef :=
  ((st.dirs dir).tables (page / 1024), page % 1024)

/-- How a directory maps a page. -/
def Kernel.entry (st : Kernel) (dir page : Nat) : Page :=
  if (st.dirs dir).tables (page / 1024) = 0 then .zero else st.page (st.entryRef dir page)

/-- The pages of the address space. -/
abbrev addressPages : Nat := 1048576

theorem page_slot {page : Nat} (small : page < addressPages) : page / 1024 < tablesInDir := by
  simp only [addressPages, tablesInDir] at small ⊢
  omega

section

variable {own : Nat → Prop} {live : Nat → Prop} {held held' : Blocks} {st st' : Kernel}

/-- A table in two slots is a table of the kernel directory, in the same slot of each. -/
theorem Ownership.sameSlot (h : Ownership live held st) {dir dir' slot slot' : Nat}
    (alive : live dir) (below : slot < tablesInDir) (alive' : live dir')
    (below' : slot' < tablesInDir) (populated : (st.dirs dir).tables slot ≠ 0)
    (same : (st.dirs dir').tables slot' = (st.dirs dir).tables slot)
    : slot' = slot := by
  by_cases mine : st.kernelTables slot = (st.dirs dir).tables slot
  · by_cases mine' : st.kernelTables slot' = (st.dirs dir').tables slot'
    · refine h.apart slot below slot' below' ?_ ?_
      · rwa [mine]
      · rw [mine, mine', same]
    · exact (h.sole dir' alive' slot' below' ⟨same ▸ populated, mine'⟩ dir alive slot below
        same.symm).2.symm
  · exact (h.sole dir alive slot below ⟨populated, mine⟩ dir' alive' slot' below' same).2

/-- An entry of a directory is the kernel heap's only for a page of the kernel heap. -/
theorem Ownership.entry_notOwn (h : Ownership live held st)
    (bounded : ∀ page, own page → page < addressPages) {dir page : Nat} (alive : live dir)
    (small : page < addressPages) (other : ¬ own page)
    : ¬ OwnEntry own st (st.entryRef dir page) := by
  rintro ⟨page', isOwn, populated, same⟩
  obtain ⟨table, offset⟩ := Prod.mk.inj same
  have slot := h.sameSlot h.kernelDir (page_slot (bounded page' isOwn)) alive (page_slot small)
    populated table
  have : page = page' := by omega
  exact other (this ▸ isOwn)

/-- A step that adds tables to directories but changes no entry, except those of the kernel
heap's own pages.
-/
structure Undisturbed (own : Nat → Prop) (live : Nat → Prop) (st st' : Kernel) : Prop where
  kernelHeap : st'.kernelHeap = st.kernelHeap
  kernelDir : st'.kernelDir = st.kernelDir
  currentDir : st'.currentDir = st.currentDir
  ram : st'.ram = st.ram
  fallOff : st'.fallOff = st.fallOff
  marked : ∀ frame, frameBit st.frames frame = true → frameBit st'.frames frame = true
  entries : ∀ dir, live dir → ∀ page < addressPages, ¬ own page →
    st'.entry dir page = st.entry dir page

theorem Undisturbed.refl (own live : Nat → Prop) (st : Kernel) : Undisturbed own live st st :=
  ⟨rfl, rfl, rfl, rfl, rfl, fun _ => id, fun _ _ _ _ _ => rfl⟩

theorem Undisturbed.trans {st'' : Kernel} (h : Undisturbed own live st st')
    (h' : Undisturbed own live st' st'')
    : Undisturbed own live st st'' where
  kernelHeap := h'.kernelHeap.trans h.kernelHeap
  kernelDir := h'.kernelDir.trans h.kernelDir
  currentDir := h'.currentDir.trans h.currentDir
  ram := h'.ram.trans h.ram
  fallOff := h'.fallOff.trans h.fallOff
  marked frame busy := h'.marked frame (h.marked frame busy)
  entries dir alive page small other :=
    (h'.entries dir alive page small other).trans (h.entries dir alive page small other)

theorem HandedOut.undisturbed {block size : Nat} (out : HandedOut own held st block size held' st')
    (h : Ownership live held st) (bounded : ∀ page, own page → page < addressPages)
    : Undisturbed own live st st' where
  kernelHeap := out.kernelHeap
  kernelDir := out.kernelDir
  currentDir := out.currentDir
  ram := out.ram
  fallOff := out.fallOff
  marked := out.marked
  entries dir alive page small other := by
    have inside := page_slot small
    have kept (table : (st.dirs dir).tables (page / 1024) ≠ 0)
        : st'.page (st.entryRef dir page) = st.page (st.entryRef dir page) :=
      out.pages _ (h.tables dir alive _ inside table).1 (h.entry_notOwn bounded alive small other)
    have unchanged (same : (st'.dirs dir).tables (page / 1024) = (st.dirs dir).tables (page / 1024))
        : st'.entry dir page = st.entry dir page := by
      simp only [Kernel.entry, Kernel.entryRef, same]
      split
      · rfl
      · rename_i table
        exact kept table
    by_cases kernel : dir = st.kernelDir
    · subst kernel
      rcases out.slot inside with same | new
      · simp only [Kernel.kernelTables, out.kernelDir] at same
        exact unchanged same
      · have before : (st.dirs st.kernelDir).tables (page / 1024) = 0 := new.2.1
        have now : (st'.dirs st.kernelDir).tables (page / 1024) ≠ 0 := by
          have nonzero := new.2.2.2
          simp only [Kernel.kernelTables, out.kernelDir] at nonzero
          exact nonzero
        have blank := out.blank _ _ (page % 1024) new
          (by rwa [Nat.div_add_mod' page 1024]) (Nat.mod_lt _ (by decide))
        simp only [Kernel.kernelTables, out.kernelDir] at blank
        rw [Kernel.entry, if_neg now, Kernel.entry, if_pos before]
        exact blank
    · exact unchanged (by rw [out.dirs dir (h.dirs dir alive) kernel])

end

-----------------------------------------------------------------------------------------
-- Address spaces over a kernel heap
-----------------------------------------------------------------------------------------

section

variable {kmalloc : Kmalloc} {kfree : Kfree} {pool : BlockPool kmalloc kfree}
variable {live : Nat → Prop} {held : Blocks} {st st' : Kernel}

/-- The directories `live` are in use over a kernel heap that has handed out `held`. -/
structure Spaces (pool : BlockPool kmalloc kfree) (live : Nat → Prop) (held : Blocks)
    (st : Kernel)
    : Prop where
  holds : pool.Holds held st
  owned : Ownership live held st

theorem Spaces.request (h : Spaces pool live held st) {size align block physAddr : Nat}
    {phys : Bool} (served : kmalloc size align phys st = some (block, physAddr, st'))
    : ∃ held', Spaces pool live held' st' ∧ HandedOut pool.own held st block size held' st' := by
  obtain ⟨held', out, holds⟩ := pool.handsOut h.holds served
  exact ⟨held', ⟨holds, h.owned.handedOut out⟩, out⟩

/-- Writing an entry of a table in use that is not a mapped page of the kernel heap. -/
theorem Spaces.setPage (h : Spaces pool live held st) {ref : PageRef} {page : Page}
    {frames : Nat → BitVec 32} {ram : Nat → Nat → UInt8} (mine : held ref.1 ≠ none)
    (empty : OwnEntry pool.own st ref → (st.page ref).frame = 0)
    (marked : ∀ other, OwnEntry pool.own st other → (st.page other).frame ≠ 0 →
      frameBit st.frames (st.page other).frame = true →
      frameBit frames (st.page other).frame = true)
    : Spaces pool live held ({ st with frames, ram }.setPage ref page) where
  holds := pool.keeps h.holds (.setPage mine empty marked)
  owned := h.owned.of_dirs (fun _ => id) rfl (fun _ _ => rfl)

/-- `allocFrame` returns at once, or it maps an empty entry and marks a frame. -/
theorem allocFrame_spec {ref : PageRef} {isKernel isWriteable : Nat}
    (run : allocFrame ref isKernel isWriteable st = some st')
    : (st.page ref).frame ≠ 0 ∧ st' = st
      ∨ (st.page ref).frame = 0
        ∧ st' = { st with
            frames := setFrame st.frames (u32 (firstFrame st * pageSize)) }.setPage ref
          { st.page ref with
            present := true
            rw := isWriteable ≠ 0
            user := isKernel = 0
            frame := firstFrame st % 1048576
            isKernel := st.currentDir = st.kernelDir } := by
  by_cases populated : (st.page ref).frame ≠ 0
  · rw [allocFrame, if_pos populated] at run
    exact Or.inl ⟨populated, (Option.some.inj run).symm⟩
  · simp only [allocFrame, if_neg populated, Option.ite_none_left_eq_some] at run
    exact Or.inr ⟨not_not.mp populated, (Option.some.inj run.2).symm⟩

theorem frameBit_setFrame_of {frames : Nat → BitVec 32} {address frame : Nat}
    (busy : frameBit frames frame = true)
    : frameBit (setFrame frames address) frame = true := by
  rw [frameBit_setFrame, busy, Bool.or_true]

theorem Spaces.allocFrame (h : Spaces pool live held st) {ref : PageRef}
    {isKernel isWriteable : Nat} (mine : held ref.1 ≠ none)
    (run : allocFrame ref isKernel isWriteable st = some st')
    : Spaces pool live held st' := by
  rcases allocFrame_spec run with ⟨-, rfl⟩ | ⟨empty, rfl⟩
  · exact h
  · exact h.setPage mine (fun _ => empty) (fun _ _ _ busy => frameBit_setFrame_of busy)

/-- A table that was just handed out is in no directory yet. -/
theorem Ownership.unused {own : Nat → Prop} {held' : Blocks} {block size : Nat}
    (h : Ownership live held st) (out : HandedOut own held st block size held' st') {dir slot : Nat}
    (alive : live dir) (below : slot < tablesInDir)
    : (st'.dirs dir).tables slot ≠ block := by
  intro same
  have known (populated : (st.dirs dir).tables slot ≠ 0)
      : held ((st.dirs dir).tables slot) ≠ none := (h.tables dir alive slot below populated).1
  by_cases kernel : dir = st.kernelDir
  · subst kernel
    rw [← out.kernelDir] at same
    rcases out.slot below with old | new
    · have same' : (st.dirs st.kernelDir).tables slot = block := old.symm.trans same
      rw [same'] at known
      exact known out.nonzero out.fresh
    · exact (out.tableHeld slot _ new).2.1 same
  · rw [out.dirs dir (h.dirs dir alive) kernel] at same
    rw [same] at known
    exact known out.nonzero out.fresh

/-- Clearing a block that is in use but in no directory. -/
theorem Spaces.clearTable (h : Spaces pool live held st) {table : Nat} (mine : held table ≠ none)
    (unused : ∀ dir, live dir → ∀ slot < tablesInDir, (st.dirs dir).tables slot ≠ table)
    : Spaces pool live held { st with tables := update st.tables table PageTable.zero } where
  holds := by
    refine pool.keeps h.holds ⟨rfl, rfl, rfl, rfl, fun _ _ _ => rfl, fun other none => ?_,
      fun _ _ => rfl, fun _ _ => rfl, ?_, fun _ _ _ => id⟩
    · refine update_other ?_
      rintro rfl
      exact mine none
    · rintro ref ⟨page, isOwn, populated, rfl⟩ -
      have elsewhere := unused st.kernelDir h.owned.kernelDir _ (page_slot (pool.bounded page isOwn))
      exact congrFun (update_other elsewhere) _
  owned := h.owned.of_dirs (fun _ => id) rfl (fun _ _ => rfl)

/-- An empty slot of a directory gets a block that is in no directory. -/
theorem Spaces.setSlot (h : Spaces pool live held st) {dir slot table physical : Nat}
    (alive : live dir) (empty : (st.dirs dir).tables slot = 0)
    (mine : held table ≠ none) (notLive : ¬ live table)
    (unused : ∀ dir', live dir' → ∀ slot' < tablesInDir, (st.dirs dir').tables slot' ≠ table)
    : Spaces pool live held (st.setSlot dir slot table physical) where
  holds := by
    refine pool.keeps h.holds ⟨rfl, rfl, rfl, rfl, fun _ _ _ => rfl, fun _ _ => rfl,
      fun other none => ?_, fun slot' populated => ?_, fun _ _ _ => rfl, fun _ _ _ => id⟩
    · refine update_other ?_
      rintro rfl
      exact h.owned.dirs _ alive none
    · refine (setSlot_table st dir slot table physical st.kernelDir slot').trans (if_neg ?_)
      rintro ⟨rfl, rfl⟩
      exact populated empty
  owned := h.owned.setSlot_fresh alive empty mine notLive unused

-----------------------------------------------------------------------------------------
-- Tables for pages
-----------------------------------------------------------------------------------------

/-- A directory that got an empty table in an empty slot maps every page as before. -/
theorem entry_newTable {dir slot table physical : Nat} (empty : (st.dirs dir).tables slot = 0)
    (unused : ∀ dir', live dir' → ∀ slot' < tablesInDir, (st.dirs dir').tables slot' ≠ table)
    {dir' page : Nat} (alive : live dir') (small : page < addressPages)
    : ({ st with tables := update st.tables table PageTable.zero }.setSlot dir slot table
        physical).entry dir' page = st.entry dir' page := by
  have elsewhere := unused dir' alive (page / 1024) (page_slot small)
  simp only [Kernel.entry, Kernel.entryRef, setSlot_table]
  by_cases here : dir' = dir ∧ page / 1024 = slot
  · rw [if_pos here, here.1, here.2, if_pos empty]
    split
    · rfl
    · exact congrFun (update_self st.tables table PageTable.zero) _
  · rw [if_neg here]
    split
    · rfl
    · exact congrFun (update_other elsewhere) _

/-- `getPage` finds the table of a page in its directory, or puts an empty one there. The tables
for its own pages the kernel heap makes itself.
-/
theorem Spaces.getPage (h : Spaces pool live held st) {dir address : Nat} (alive : live dir)
    (small : address < wordSize)
    (elsewhere : dir = st.kernelDir → ∀ page, pool.own page → page / 1024 ≠ pageIndex address)
    {page : Option PageRef} (run : getPage kmalloc address true dir st = some (page, st'))
    : page = some (st'.entryRef dir (addr2Frame address))
      ∧ (st'.dirs dir).tables (addr2Frame address / 1024) ≠ 0
      ∧ Undisturbed pool.own live st st'
      ∧ ∃ held', Spaces pool live held' st' ∧ held.Grow held' := by
  have inside : addr2Frame address < addressPages := by
    simp only [addr2Frame, pageSize, wordSize, addressPages] at small ⊢
    omega
  rw [DeadKernel.getPage] at run
  by_cases there : (st.dirs dir).tables (pageIndex address) ≠ 0
  · rw [if_pos there] at run
    obtain ⟨rfl, rfl⟩ := Prod.mk.inj (Option.some.inj run)
    exact ⟨rfl, there, .refl _ _ _, held, h, .refl held⟩
  · simp only [if_neg there, if_true, Option.bind_eq_bind, Option.bind_eq_some_iff] at run
    obtain ⟨⟨table, physAddress, served⟩, request, run⟩ := run
    obtain ⟨rfl, rfl⟩ := Prod.mk.inj (Option.some.inj run)
    obtain ⟨held', spaces, out⟩ := h.request request
    have unused : ∀ dir', live dir' → ∀ slot' < tablesInDir,
        (served.dirs dir').tables slot' ≠ table :=
      fun dir' alive' slot' below => h.owned.unused out alive' below
    have empty : (served.dirs dir).tables (pageIndex address) = 0 := by
      by_cases kernel : dir = st.kernelDir
      · rcases out.slot (page_slot inside) with same | new
        · simp only [Kernel.kernelTables, out.kernelDir, ← kernel] at same
          exact same.trans (not_not.mp there)
        · obtain ⟨page, isOwn, slot⟩ := out.region _ _ new
          exact absurd slot (elsewhere kernel page isOwn)
      · rw [out.dirs dir (h.owned.dirs dir alive) kernel]
        exact not_not.mp there
    have isHeld : held' table ≠ none := by
      rw [out.isHeld]
      exact Option.some_ne_none _
    have notLive : ¬ live table := fun alive' => h.owned.dirs table alive' out.fresh
    have cleared := spaces.clearTable isHeld unused
    refine ⟨?_, ?_, (out.undisturbed h.owned pool.bounded).trans ?_, held',
      cleared.setSlot alive empty isHeld notLive unused, out.grow⟩
    · simp [Kernel.entryRef, pageIndex, pageOffset]
    · simpa [pageIndex] using out.nonzero
    · exact ⟨rfl, rfl, rfl, rfl, rfl, fun _ => id,
        fun dir' alive' page small _ => entry_newTable empty unused alive' small⟩

-----------------------------------------------------------------------------------------
-- Clones
-----------------------------------------------------------------------------------------

/-- A block in use that no directory has in a slot. -/
structure Unattached (live : Nat → Prop) (held : Blocks) (st : Kernel) (table : Nat) : Prop where
  isHeld : held table ≠ none
  notLive : ¬ live table
  unused : ∀ dir, live dir → ∀ slot < tablesInDir, (st.dirs dir).tables slot ≠ table

theorem Unattached.notOwn {table : Nat} (h : Unattached live held st table)
    (kernelDir : live st.kernelDir) (i : Nat)
    : ¬ OwnEntry pool.own st (table, i) := by
  rintro ⟨page, isOwn, -, same⟩
  exact h.unused st.kernelDir kernelDir _ (page_slot (pool.bounded page isOwn))
    (Prod.mk.inj same).1.symm

/-- `cloneEntry` writes to the new table only. -/
theorem cloneEntry_effect {src table i : Nat} (run : cloneEntry src table i st = some st')
    : st'.dirs = st.dirs ∧ st'.kernelDir = st.kernelDir
      ∧ ∀ other ≠ table, st'.tables other = st.tables other := by
  rw [DeadKernel.cloneEntry] at run
  split at run
  · exact Option.some.inj run ▸ ⟨rfl, rfl, fun _ _ => rfl⟩
  · obtain ⟨taken, alloc, copied⟩ := Option.bind_eq_some_iff.mp run
    obtain rfl := Option.some.inj copied
    have before : taken.dirs = st.dirs ∧ taken.kernelDir = st.kernelDir
        ∧ ∀ other ≠ table, taken.tables other = st.tables other := by
      rcases allocFrame_spec alloc with ⟨-, rfl⟩ | ⟨-, rfl⟩
      · exact ⟨rfl, rfl, fun _ _ => rfl⟩
      · exact ⟨rfl, rfl, fun _ elsewhere => update_other elsewhere⟩
    rw [copyPagePhysical]
    generalize copyWordsPhysical 1024 _ _ _ = ram
    exact ⟨before.1, before.2.1,
      fun other elsewhere => (update_other elsewhere).trans (before.2.2 other elsewhere)⟩

/-- `cloneTable` gets a block, and writes to it only. -/
theorem cloneTable_effect {src table physAddr : Nat}
    (run : cloneTable kmalloc src st = some (table, physAddr, st'))
    : ∃ served, kmalloc 4096 1 true st = some (table, physAddr, served)
        ∧ st'.dirs = served.dirs ∧ st'.kernelDir = served.kernelDir
        ∧ ∀ other ≠ table, st'.tables other = served.tables other := by
  simp only [DeadKernel.cloneTable, Option.bind_eq_bind, Option.bind_eq_some_iff] at run
  obtain ⟨⟨block, phys, served⟩, request, filled, loop, same⟩ := run
  obtain ⟨rfl, rest⟩ := Prod.mk.inj (Option.some.inj same)
  obtain ⟨rfl, rfl⟩ := Prod.mk.inj rest
  refine ⟨served, request, ?_⟩
  refine forIndices_invariant (P := fun _ mid => mid.dirs = served.dirs
    ∧ mid.kernelDir = served.kernelDir
    ∧ ∀ other ≠ block, mid.tables other = served.tables other) ?_ ?_ loop
  · exact ⟨rfl, rfl, fun _ elsewhere => update_other elsewhere⟩
  · rintro i - mid next ⟨dirs, kernelDir, tables⟩ round
    obtain ⟨dirs', kernelDir', tables'⟩ := cloneEntry_effect round
    exact ⟨dirs'.trans dirs, kernelDir'.trans kernelDir,
      fun other elsewhere => (tables' other elsewhere).trans (tables other elsewhere)⟩

theorem Spaces.cloneEntry (h : Spaces pool live held st) {src table i : Nat}
    (target : Unattached live held st table) (run : cloneEntry src table i st = some st')
    : Spaces pool live held st' ∧ st'.dirs = st.dirs ∧ st'.kernelDir = st.kernelDir := by
  rw [DeadKernel.cloneEntry] at run
  split at run
  · exact Option.some.inj run ▸ ⟨h, rfl, rfl⟩
  · obtain ⟨taken, alloc, copied⟩ := Option.bind_eq_some_iff.mp run
    obtain rfl := Option.some.inj copied
    have spaces := h.allocFrame target.isHeld alloc
    have same : taken.dirs = st.dirs ∧ taken.kernelDir = st.kernelDir := by
      rcases allocFrame_spec alloc with ⟨-, rfl⟩ | ⟨-, rfl⟩
      · exact ⟨rfl, rfl⟩
      · exact ⟨rfl, rfl⟩
    have notOwn : ¬ OwnEntry pool.own taken (table, i) := by
      rw [OwnEntry.congr same.2 (by rw [same.1])]
      exact target.notOwn h.owned.kernelDir i
    rw [copyPagePhysical]
    generalize copyWordsPhysical 1024 _ _ _ = ram
    exact ⟨spaces.setPage target.isHeld (fun isOwn => absurd isOwn notOwn) (fun _ _ _ => id), same⟩

/-- `cloneTable` fills a block that no directory has. -/
theorem Spaces.cloneTable (h : Spaces pool live held st) {src table physAddr : Nat}
    (run : cloneTable kmalloc src st = some (table, physAddr, st'))
    : ∃ held', Spaces pool live held' st' ∧ held.Grow held' ∧ Unattached live held' st' table
        ∧ st'.kernelDir = st.kernelDir
        ∧ ∀ dir, live dir → dir ≠ st.kernelDir → st'.dirs dir = st.dirs dir := by
  simp only [DeadKernel.cloneTable, Option.bind_eq_bind, Option.bind_eq_some_iff] at run
  obtain ⟨⟨block, phys, served⟩, request, filled, loop, same⟩ := run
  obtain ⟨rfl, rest⟩ := Prod.mk.inj (Option.some.inj same)
  obtain ⟨-, rfl⟩ := Prod.mk.inj rest
  obtain ⟨held', spaces, out⟩ := h.request request
  have target : Unattached live held' served block := {
    isHeld := by
      rw [out.isHeld]
      exact Option.some_ne_none _
    notLive := fun alive => h.owned.dirs block alive out.fresh
    unused := fun dir alive slot below => h.owned.unused out alive below
  }
  have copied : Spaces pool live held' filled ∧ filled.dirs = served.dirs
      ∧ filled.kernelDir = served.kernelDir := by
    refine forIndices_invariant (P := fun _ mid => Spaces pool live held' mid
      ∧ mid.dirs = served.dirs ∧ mid.kernelDir = served.kernelDir) ?_ ?_ loop
    · exact ⟨spaces.clearTable target.isHeld target.unused, rfl, rfl⟩
    · rintro i - mid next ⟨ready, dirs, kernelDir⟩ round
      obtain ⟨ready', dirs', kernelDir'⟩ :=
        ready.cloneEntry ⟨target.isHeld, target.notLive, dirs ▸ target.unused⟩ round
      exact ⟨ready', dirs'.trans dirs, kernelDir'.trans kernelDir⟩
  obtain ⟨done, dirs, kernelDir⟩ := copied
  refine ⟨held', done, out.grow, ⟨target.isHeld, target.notLive, dirs ▸ target.unused⟩,
    kernelDir.trans out.kernelDir, fun dir alive other => ?_⟩
  rw [dirs]
  exact out.dirs dir (h.owned.dirs dir alive) other

/-- A slot of a clone gets a table of the kernel directory, or a block of its own. -/
theorem Spaces.cloneSlot (h : Spaces pool live held st) {src dir i : Nat} (below : i < tablesInDir)
    (alive : live dir) (notKernel : dir ≠ st.kernelDir) (empty : (st.dirs dir).tables i = 0)
    (run : cloneSlot kmalloc src dir i st = some st')
    : ∃ held', Spaces pool live held' st' ∧ held.Grow held' ∧ st'.kernelDir = st.kernelDir
        ∧ ∀ slot ≠ i, (st'.dirs dir).tables slot = (st.dirs dir).tables slot := by
  rw [DeadKernel.cloneSlot] at run
  split at run
  · exact Option.some.inj run ▸ ⟨held, h, .refl held, rfl, fun _ _ => rfl⟩
  rename_i populated
  split at run
  · rename_i shared
    obtain rfl := Option.some.inj run
    have elsewhere (slot : Nat) (other : slot ≠ i) := setSlot_table st dir i
      ((st.dirs src).tables i) ((st.dirs src).tablesPhysical i) dir slot
    rw [← shared] at populated elsewhere ⊢
    refine ⟨held, ⟨pool.keeps h.holds ⟨rfl, rfl, rfl, rfl, fun _ _ _ => rfl, fun _ _ => rfl,
      fun other none => ?_, fun slot _ => ?_, fun _ _ _ => rfl, fun _ _ _ => id⟩,
      h.owned.setSlot_shared below notKernel populated⟩, .refl held, rfl, fun slot other => ?_⟩
    · refine update_other ?_
      rintro rfl
      exact h.owned.dirs _ alive none
    · exact (setSlot_table _ _ _ _ _ st.kernelDir slot).trans
        (if_neg (fun both => notKernel both.1.symm))
    · rw [elsewhere slot other, if_neg (fun both => other both.2)]
  · obtain ⟨⟨table, phys, cloned⟩, copy, same⟩ := Option.bind_eq_some_iff.mp run
    obtain rfl := Option.some.inj same
    obtain ⟨held', spaces, grow, target, kernelDir, dirs⟩ := h.cloneTable copy
    have unchanged := dirs dir alive notKernel
    refine ⟨held', spaces.setSlot alive (by rw [unchanged]; exact empty) target.isHeld
      target.notLive target.unused, grow, kernelDir, fun slot other => ?_⟩
    rw [setSlot_table, if_neg (fun both => other both.2), unchanged]

/-- A block in use that no directory has becomes a directory without tables. -/
theorem Spaces.openDir (h : Spaces pool live held st) {dir : Nat} (physical : Nat)
    (isHeld : held dir ≠ none) (notLive : ¬ live dir)
    (unused : ∀ dir', live dir' → ∀ slot < tablesInDir, (st.dirs dir').tables slot ≠ dir)
    : Spaces pool (fun other => live other ∨ other = dir) held
        { st with dirs := update st.dirs dir { PageDir.zero with physicalAddr := physical } } where
  holds := by
    have notKernel : st.kernelDir ≠ dir := fun same => notLive (same ▸ h.owned.kernelDir)
    refine pool.keeps h.holds ⟨rfl, rfl, rfl, rfl, fun _ _ _ => rfl, fun _ _ => rfl,
      fun other none => ?_, fun slot _ => ?_, fun _ _ _ => rfl, fun _ _ _ => id⟩
    · refine update_other ?_
      rintro rfl
      exact isHeld none
    · exact congrArg (fun value : PageDir => value.tables slot) (update_other notKernel)
  owned := h.owned.withDir isHeld notLive unused rfl

/-- The loop of `cloneDir`: what holds of the new directory while it is empty, and is kept by each
round, holds of the clone. The slots that the loop has not reached are empty.
-/
theorem Spaces.cloneDir_rounds (h : Spaces pool live held st) {src dir phys : Nat} {served : Kernel}
    {P : Nat → Kernel → Prop} (request : kmalloc 8196 1 true st = some (dir, phys, served))
    (loop : forIndices (DeadKernel.cloneSlot kmalloc src dir) tablesInDir
      { served with
        dirs := update served.dirs dir { PageDir.zero with physicalAddr := u32 (phys + 4096) } }
      = some st')
    (start : P 0 { served with
      dirs := update served.dirs dir { PageDir.zero with physicalAddr := u32 (phys + 4096) } })
    (round : ∀ i < tablesInDir, ∀ held' mid next, held.Grow held'
      → Spaces pool (fun other => live other ∨ other = dir) held' mid → mid.kernelDir = st.kernelDir
      → (mid.dirs dir).tables i = 0 → P i mid → DeadKernel.cloneSlot kmalloc src dir i mid = some next
      → P (i + 1) next)
    : (∃ held', Spaces pool (fun other => live other ∨ other = dir) held' st' ∧ held.Grow held'
        ∧ st'.kernelDir = st.kernelDir) ∧ P tablesInDir st' := by
  obtain ⟨held', spaces, out⟩ := h.request request
  have isHeld : held' dir ≠ none := by
    rw [out.isHeld]
    exact Option.some_ne_none _
  have notLive : ¬ live dir := fun alive => h.owned.dirs dir alive out.fresh
  have unused : ∀ dir', live dir' → ∀ slot < tablesInDir, (served.dirs dir').tables slot ≠ dir :=
    fun dir' alive slot below => h.owned.unused out alive below
  have notKernel : dir ≠ st.kernelDir := fun same => notLive (same ▸ h.owned.kernelDir)
  have cloned : (∃ held'', Spaces pool (fun other => live other ∨ other = dir) held'' st'
      ∧ held.Grow held'' ∧ st'.kernelDir = st.kernelDir
      ∧ ∀ slot, tablesInDir ≤ slot → (st'.dirs dir).tables slot = 0) ∧ P tablesInDir st' := by
    refine forIndices_invariant (P := fun n mid => (∃ held'',
      Spaces pool (fun other => live other ∨ other = dir) held'' mid ∧ held.Grow held''
      ∧ mid.kernelDir = st.kernelDir
      ∧ ∀ slot, n ≤ slot → (mid.dirs dir).tables slot = 0) ∧ P n mid) ?_ ?_ loop
    · refine ⟨⟨held', spaces.openDir _ isHeld notLive unused, out.grow, out.kernelDir,
        fun slot _ => ?_⟩, start⟩
      simp [PageDir.zero]
    · rintro i below mid next ⟨⟨held₁, ready, grow, kernelDir, empty⟩, holds⟩ step
      obtain ⟨held₂, ready', grow', kernelDir', others⟩ := ready.cloneSlot below (Or.inr rfl)
        (kernelDir ▸ notKernel) (empty i (le_refl i)) step
      refine ⟨⟨held₂, ready', grow.trans grow', kernelDir'.trans kernelDir, fun slot later => ?_⟩,
        round i below held₁ mid next grow ready kernelDir (empty i (le_refl i)) holds step⟩
      rw [others slot (by omega)]
      exact empty slot (by omega)
  obtain ⟨⟨held'', done, grow, kernelDir, -⟩, holds⟩ := cloned
  exact ⟨⟨held'', done, grow, kernelDir⟩, holds⟩

/-- `cloneDir` adds a directory to those in use. -/
theorem Spaces.cloneDir (h : Spaces pool live held st) {src dir : Nat}
    (run : cloneDir kmalloc src st = some (dir, st'))
    : ∃ held', Spaces pool (fun other => live other ∨ other = dir) held' st' ∧ held.Grow held'
        ∧ st'.kernelDir = st.kernelDir ∧ ¬ live dir ∧ held dir = none := by
  simp only [DeadKernel.cloneDir, Option.bind_eq_bind, Option.bind_eq_some_iff] at run
  obtain ⟨⟨block, phys, served⟩, request, filled, loop, same⟩ := run
  obtain ⟨rfl, rfl⟩ := Prod.mk.inj (Option.some.inj same)
  obtain ⟨held', -, out⟩ := h.request request
  obtain ⟨⟨held'', done, grow, kernelDir⟩, -⟩ := h.cloneDir_rounds (P := fun _ _ => True) request
    loop trivial (fun _ _ _ _ _ _ _ _ _ _ _ => trivial)
  exact ⟨held'', done, grow, kernelDir, fun alive => h.owned.dirs block alive out.fresh, out.fresh⟩

/-- A clone of the kernel directory shares all its tables. -/
theorem cloneDir_kernelDir {dir phys : Nat}
    (request : kmalloc 8196 1 true st = some (dir, phys, st')) (notKernel : dir ≠ st'.kernelDir)
    : ∃ value : PageDir, cloneDir kmalloc st'.kernelDir st
          = some (dir, { st' with dirs := update st'.dirs dir value })
        ∧ (∀ slot < tablesInDir, value.tables slot = st'.kernelTables slot)
        ∧ value.physicalAddr = u32 (phys + 4096) := by
  have looped : ∃ filled, forIndices (cloneSlot kmalloc st'.kernelDir dir) tablesInDir
        { st' with
          dirs := update st'.dirs dir { PageDir.zero with physicalAddr := u32 (phys + 4096) } }
      = some filled
      ∧ ∃ value : PageDir, filled = { st' with dirs := update st'.dirs dir value }
        ∧ (∀ slot < tablesInDir, value.tables slot = st'.kernelTables slot)
        ∧ (∀ slot, tablesInDir ≤ slot → value.tables slot = 0)
        ∧ value.physicalAddr = u32 (phys + 4096) := by
    refine forIndices_spec (P := fun n filled => ∃ value : PageDir,
      filled = { st' with dirs := update st'.dirs dir value }
        ∧ (∀ slot < n, value.tables slot = st'.kernelTables slot)
        ∧ (∀ slot, n ≤ slot → value.tables slot = 0)
        ∧ value.physicalAddr = u32 (phys + 4096)) ?_ ?_
    · exact ⟨_, rfl, fun slot none => absurd none (Nat.not_lt_zero slot), fun _ _ => rfl, rfl⟩
    · rintro n - _ ⟨value, rfl, copied, blank, physical⟩
      have kernel : ({ st' with dirs := update st'.dirs dir value } : Kernel).dirs st'.kernelDir
          = st'.dirs st'.kernelDir := update_other notKernel.symm
      rw [cloneSlot, kernel]
      by_cases none : (st'.dirs st'.kernelDir).tables n = 0
      · rw [if_pos none]
        refine ⟨_, rfl, value, rfl, fun slot below => ?_, fun slot above => blank slot (by omega),
          physical⟩
        rcases Nat.lt_succ_iff_lt_or_eq.mp below with before | rfl
        · exact copied slot before
        · exact (blank slot (le_refl slot)).trans none.symm
      · rw [if_neg none, if_pos rfl]
        refine ⟨_, rfl, { value with
          tables := update value.tables n (st'.kernelTables n)
          tablesPhysical := update value.tablesPhysical n
            ((st'.dirs st'.kernelDir).tablesPhysical n) }, ?_, fun slot below => ?_,
          fun slot above => ?_, physical⟩
        · simp [Kernel.setSlot, Kernel.kernelTables]
        · rcases Nat.lt_succ_iff_lt_or_eq.mp below with before | rfl
          · exact (update_other (Nat.ne_of_lt before)).trans (copied slot before)
          · exact update_self _ _ _
        · exact (update_other (by omega)).trans (blank slot (by omega))
  obtain ⟨filled, loop, value, rfl, copied, -, physical⟩ := looped
  refine ⟨value, ?_, copied, physical⟩
  simp only [cloneDir, request, Option.bind_eq_bind, Option.bind_some, loop]

end

end DeadKernel
