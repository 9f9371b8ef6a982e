import DeadKernel.Memory.AddressSpaces

/-! A directory given back: the frames of its private tables, the tables and the directory itself.
Which tables are private is read off the kernel directory as it is then, which has gained tables
since the clone was made.
-/

namespace DeadKernel

open Words

-----------------------------------------------------------------------------------------
-- Releasing tables and directories
-----------------------------------------------------------------------------------------

/-- `kfree`: before there is a kernel heap nothing is taken back. -/
def kfree (addr : Nat) (st : Kernel) : Option Kernel :=
  if st.kernelHeap ≠ 0 then free addr st.kernelHeap st else some st

/-- The body of `freeTable`'s loop. -/
def freeEntry (table i : Nat) (st : Kernel) : Option Kernel :=
  some (if (st.page (table, i)).frame ≠ 0 then freeFrame (table, i) st else st)

/-- Releases all frames occupied by the page table. -/
def freeTable (kfree : Kfree) (table : Nat) (st : Kernel) : Option Kernel :=
  (forIndices (freeEntry table) pagesInTable st).bind (kfree table)

/-- The body of `freeDir`'s loop. -/
def freeSlot (kfree : Kfree) (dir i : Nat) (st : Kernel) : Option Kernel :=
  if (st.dirs dir).tables i ≠ 0 then
    if (st.dirs dir).tables i ≠ (st.dirs st.kernelDir).tables i
    then freeTable kfree ((st.dirs dir).tables i) st
    else some st
  else some st

/-- Releases all resources occupied by the page directory. -/
def freeDir (kfree : Kfree) (dir : Nat) (st : Kernel) : Option Kernel :=
  (forIndices (freeSlot kfree dir) tablesInDir st).bind (kfree dir)

/-- The calls of `kfree` on the way from one state to another, with nothing but calls of
`freeFrame` between them.
-/
inductive Frees (kfree : Kfree) : List Nat → Kernel → Kernel → Prop where
  | done {st : Kernel} : Frees kfree [] st st
  | frame {blocks : List Nat} {st st' : Kernel} (before : Frees kfree blocks st st')
      (ref : PageRef)
      : Frees kfree blocks st (freeFrame ref st')
  | block {blocks : List Nat} {st mid st' : Kernel} (before : Frees kfree blocks st mid)
      {block : Nat} (freed : kfree block mid = some st')
      : Frees kfree (blocks ++ [block]) st st'

/-- The private tables among the first `n` slots of a directory. -/
def privateTables (st : Kernel) (dir n : Nat) : List Nat :=
  ((List.range n).filter (fun slot => PrivateTable st dir slot)).map (st.dirs dir).tables

theorem mem_privateTables {st : Kernel} {dir n table : Nat}
    : table ∈ privateTables st dir n
      ↔ ∃ slot < n, PrivateTable st dir slot ∧ (st.dirs dir).tables slot = table := by
  simp [privateTables, and_assoc]

theorem privateTables_succ (st : Kernel) (dir n : Nat)
    : privateTables st dir (n + 1)
      = privateTables st dir n
        ++ (if PrivateTable st dir n then [(st.dirs dir).tables n] else []) := by
  rw [privateTables, List.range_succ, List.filter_append, List.map_append]
  by_cases mine : PrivateTable st dir n
  · simp [privateTables, mine]
  · simp [privateTables, mine]

/-- A frame that the first `n` slots of a directory map in private tables. -/
def PrivateFrame (st : Kernel) (dir n frame : Nat) : Prop :=
  frame ≠ 0 ∧ ∃ slot < n, PrivateTable st dir slot ∧ ∃ i < pagesInTable,
    (st.page ((st.dirs dir).tables slot, i)).frame = frame

/-- A frame that the kernel heap maps in its own pages. -/
def OwnFrame (own : Nat → Prop) (st : Kernel) (frame : Nat) : Prop :=
  frame ≠ 0 ∧ ∃ ref, OwnEntry own st ref ∧ (st.page ref).frame = frame

/-- The private frames of the directories in use are distinct: no other entry of a directory in
use, the kernel directory among them, has a frame that a private table maps.
-/
def FramesDistinct (live : Nat → Prop) (st : Kernel) : Prop :=
  ∀ dir, live dir → ∀ slot < tablesInDir, PrivateTable st dir slot → ∀ i < pagesInTable,
    (st.page ((st.dirs dir).tables slot, i)).frame ≠ 0 →
    ∀ dir', live dir' → ∀ slot' < tablesInDir, (st.dirs dir').tables slot' ≠ 0 →
    ∀ i' < pagesInTable, (st.page ((st.dirs dir').tables slot', i')).frame
      = (st.page ((st.dirs dir).tables slot, i)).frame →
    (st.dirs dir').tables slot' = (st.dirs dir).tables slot ∧ i' = i

/-- What `freeDir` does. Everything that is the kernel heap's own is left out of the frame
conditions: the heap may shrink when it takes blocks back.
-/
structure DirReleased (kfree : Kfree) (own : Nat → Prop) (live : Nat → Prop) (st : Kernel)
    (dir : Nat) (st' : Kernel)
    : Prop where
  calls : Frees kfree (privateTables st dir tablesInDir ++ [dir]) st st'
  once : (privateTables st dir tablesInDir ++ [dir]).Nodup
  cleared : ∀ frame, PrivateFrame st dir tablesInDir frame → frameBit st'.frames frame = false
  bits : ∀ frame, ¬ PrivateFrame st dir tablesInDir frame → ¬ OwnFrame own st frame →
    frameBit st'.frames frame = frameBit st.frames frame
  kernelDir : st'.kernelDir = st.kernelDir
  dirs : ∀ other, live other → other ≠ dir → st'.dirs other = st.dirs other
  reachable : ∀ other, live other → other ≠ dir → ∀ slot < tablesInDir,
    (st.dirs other).tables slot ≠ 0 → ∀ i < pagesInTable,
    ¬ OwnFrame own st (st.page ((st.dirs other).tables slot, i)).frame →
    frameBit st'.frames (st.page ((st.dirs other).tables slot, i)).frame
      = frameBit st.frames (st.page ((st.dirs other).tables slot, i)).frame
  entries : ∀ other, live other → other ≠ dir → ∀ slot < tablesInDir,
    (st.dirs other).tables slot ≠ 0 → ∀ i, ¬ OwnEntry own st ((st.dirs other).tables slot, i) →
    st'.page ((st.dirs other).tables slot, i) = st.page ((st.dirs other).tables slot, i)
  contents : st'.ram = st.ram

-----------------------------------------------------------------------------------------
-- One table
-----------------------------------------------------------------------------------------

/-- The first `n` entries of a table are freed. -/
structure EntriesFreed (table n : Nat) (st st' : Kernel) : Prop where
  kernelDir : st'.kernelDir = st.kernelDir
  currentDir : st'.currentDir = st.currentDir
  ram : st'.ram = st.ram
  dirs : st'.dirs = st.dirs
  others : ∀ ref, ref.1 ≠ table ∨ n ≤ ref.2 → st'.page ref = st.page ref
  bits : ∀ frame, frameBit st'.frames frame = true
    ↔ frameBit st.frames frame = true
      ∧ ¬ (frame ≠ 0 ∧ ∃ i < n, (st.page (table, i)).frame = frame)

section

variable {kmalloc : Kmalloc} {kfree : Kfree} {pool : BlockPool kmalloc kfree}
variable {live : Nat → Prop} {held : Blocks} {first st st' : Kernel}

theorem EntriesFreed.next {table n : Nat} (h : EntriesFreed table n st st')
    : EntriesFreed table (n + 1) st
        (if (st'.page (table, n)).frame ≠ 0 then freeFrame (table, n) st' else st') := by
  have same : st'.page (table, n) = st.page (table, n) := h.others _ (Or.inr (le_refl n))
  have more (frame : Nat) : (∃ i < n + 1, (st.page (table, i)).frame = frame)
      ↔ (∃ i < n, (st.page (table, i)).frame = frame) ∨ (st.page (table, n)).frame = frame := by
    constructor
    · rintro ⟨i, below, here⟩
      rcases Nat.lt_succ_iff_lt_or_eq.mp below with before | rfl
      · exact Or.inl ⟨i, before, here⟩
      · exact Or.inr here
    · rintro (⟨i, below, here⟩ | here)
      · exact ⟨i, by omega, here⟩
      · exact ⟨n, by omega, here⟩
  by_cases empty : (st'.page (table, n)).frame = 0
  · rw [if_neg (not_not.mpr empty)]
    refine { h with
      others := fun ref outside => h.others ref (outside.imp id (by omega))
      bits := fun frame => ?_ }
    rw [h.bits, more, ← same, empty]
    by_cases zero : frame = 0
    · simp [zero]
    · simp [zero, Ne.symm zero]
  · rw [if_pos empty, freeFrame]
    simp only [if_neg empty]
    refine ⟨h.kernelDir, h.currentDir, h.ram, h.dirs, fun ref outside => ?_, fun frame => ?_⟩
    · have elsewhere : ref ≠ (table, n) := by
        rintro rfl
        rcases outside with other | above
        · exact other rfl
        · exact absurd above (by simp)
      rw [Kernel.page_setPage_other elsewhere]
      exact h.others ref (outside.imp id (by omega))
    · rw [Kernel.setPage_frames, frameBit_clearFrame, Nat.mul_div_cancel _ (by decide),
        Bool.and_eq_true, h.bits, more, ← same, decide_eq_true_eq]
      by_cases here : frame = (st'.page (table, n)).frame
      · simp [← here, here ▸ empty]
      · simp [here, Ne.symm here]

/-- The frames of a table are freed, none of which the kernel heap maps. -/
theorem BlockPool.freeEntries (holds : pool.Holds held st) {table : Nat} {blocks : List Nat}
    (mine : held table ≠ none) (notOwn : ∀ i, ¬ OwnEntry pool.own st (table, i))
    (apart : ∀ i < pagesInTable, ∀ ref, OwnEntry pool.own st ref → (st.page ref).frame ≠ 0 →
      (st.page (table, i)).frame ≠ (st.page ref).frame)
    (calls : Frees kfree blocks first st)
    : ∃ st', forIndices (freeEntry table) pagesInTable st = some st' ∧ pool.Holds held st'
        ∧ EntriesFreed table pagesInTable st st' ∧ Frees kfree blocks first st' := by
  refine forIndices_spec (P := fun n mid => pool.Holds held mid ∧ EntriesFreed table n st mid
    ∧ Frees kfree blocks first mid) ?_ ?_
  · refine ⟨holds, ⟨rfl, rfl, rfl, rfl, fun _ _ => rfl, fun frame => ?_⟩, calls⟩
    simp
  · rintro n below mid ⟨ready, freed, calls⟩
    refine ⟨_, rfl, ?_, freed.next, ?_⟩
    · by_cases empty : (mid.page (table, n)).frame = 0
      · rw [if_neg (not_not.mpr empty)]
        exact ready
      · rw [if_pos empty, freeFrame]
        simp only [if_neg empty]
        have ownSame {ref : PageRef} : OwnEntry pool.own mid ref ↔ OwnEntry pool.own st ref :=
          OwnEntry.congr freed.kernelDir (by rw [freed.dirs])
        refine pool.keeps ready (.setPage mine (fun isOwn => ?_) ?_)
        · exact absurd (ownSame.mp isOwn) (notOwn n)
        · intro ref isOwn populated busy
          have isOwn' := ownSame.mp isOwn
          have other : ref.1 ≠ table := by
            rintro rfl
            exact notOwn ref.2 isOwn'
          rw [freed.others ref (Or.inl other)] at populated
          have distinct := apart n below ref isOwn' populated
          rw [frameBit_clearFrame, busy, Nat.mul_div_cancel _ (by decide),
            freed.others ref (Or.inl other), freed.others (table, n) (Or.inr (le_refl n))]
          simp [distinct.symm]
    · split
      · exact calls.frame _
      · exact calls

-----------------------------------------------------------------------------------------
-- The whole directory
-----------------------------------------------------------------------------------------

/-- What `freeDir` is called with. -/
structure Releasable (pool : BlockPool kmalloc kfree) (live : Nat → Prop) (held : Blocks)
    (st : Kernel) (dir : Nat)
    : Prop where
  spaces : Spaces pool live held st
  alive : live dir
  notKernel : dir ≠ st.kernelDir
  distinct : FramesDistinct live st

/-- What its loop needs: no frame of a private table is in the kernel heap. -/
structure Detachable (pool : BlockPool kmalloc kfree) (live : Nat → Prop) (held : Blocks)
    (st : Kernel) (dir : Nat)
    : Prop where
  spaces : Spaces pool live held st
  alive : live dir
  notKernel : dir ≠ st.kernelDir
  notOwnFrame : ∀ frame, PrivateFrame st dir tablesInDir frame → ¬ OwnFrame pool.own st frame

/-- The first `n` slots are released. -/
structure SlotsFreed (pool : BlockPool kmalloc kfree) (held : Blocks) (first : Kernel)
    (dir n : Nat) (held' : Blocks) (st : Kernel)
    : Prop where
  holds : pool.Holds held' st
  books : ∀ block, block ∉ privateTables first dir n → held' block = held block
  kernelDir : st.kernelDir = first.kernelDir
  ram : st.ram = first.ram
  dirs : st.dirs = first.dirs
  pages : ∀ ref, ref.1 ∉ privateTables first dir n → ¬ OwnEntry pool.own first ref →
    st.page ref = first.page ref
  ownPages : ∀ ref, OwnEntry pool.own first ref →
    st.page ref = first.page ref ∨ (st.page ref).frame = 0
  cleared : ∀ frame, PrivateFrame first dir n frame → frameBit st.frames frame = false
  bits : ∀ frame, ¬ PrivateFrame first dir n frame → ¬ OwnFrame pool.own first frame →
    frameBit st.frames frame = frameBit first.frames frame
  calls : Frees kfree (privateTables first dir n) first st

theorem privateFrame_succ {dir n frame : Nat}
    : PrivateFrame first dir (n + 1) frame
      ↔ PrivateFrame first dir n frame
        ∨ frame ≠ 0 ∧ PrivateTable first dir n ∧ ∃ i < pagesInTable,
          (first.page ((first.dirs dir).tables n, i)).frame = frame := by
  constructor
  · rintro ⟨nonzero, slot, below, here⟩
    rcases Nat.lt_succ_iff_lt_or_eq.mp below with before | rfl
    · exact Or.inl ⟨nonzero, slot, before, here⟩
    · exact Or.inr ⟨nonzero, here⟩
  · rintro (⟨nonzero, slot, below, here⟩ | ⟨nonzero, here⟩)
    · exact ⟨nonzero, slot, by omega, here⟩
    · exact ⟨nonzero, n, by omega, here⟩

theorem PrivateFrame.mono {dir n n' frame : Nat} (h : PrivateFrame first dir n frame)
    (more : n ≤ n')
    : PrivateFrame first dir n' frame := by
  obtain ⟨nonzero, slot, below, here⟩ := h
  exact ⟨nonzero, slot, by omega, here⟩

theorem Releasable.detachable {dir : Nat} (h : Releasable pool live held first dir)
    : Detachable pool live held first dir where
  spaces := h.spaces
  alive := h.alive
  notKernel := h.notKernel
  notOwnFrame := by
    rintro frame ⟨nonzero, slot, below, isPrivate, i, inside, rfl⟩
    rintro ⟨-, ref, ⟨page, isOwn, populated, rfl⟩, same⟩
    obtain ⟨table, index⟩ := h.distinct dir h.alive slot below isPrivate i inside nonzero
      first.kernelDir h.spaces.owned.kernelDir (page / 1024) (page_slot (pool.bounded page isOwn))
      populated (page % 1024) (Nat.mod_lt _ (by decide)) same
    exact h.spaces.owned.notOwn pool.bounded h.alive below isPrivate i
      ⟨page, isOwn, populated, by rw [Kernel.kernelTables, table, index]⟩

/-- A private table is in one slot only. -/
theorem Detachable.notBefore {dir slot n : Nat} (h : Detachable pool live held first dir)
    (below : slot < tablesInDir) (mine : PrivateTable first dir slot) (before : n ≤ slot)
    : (first.dirs dir).tables slot ∉ privateTables first dir n := by
  intro member
  obtain ⟨slot', earlier, -, same⟩ := mem_privateTables.mp member
  have := (h.spaces.owned.sole dir h.alive slot below mine dir h.alive slot' (by omega) same).2
  omega

theorem SlotsFreed.start {dir : Nat} (h : Detachable pool live held first dir)
    : SlotsFreed pool held first dir 0 held first where
  holds := h.spaces.holds
  books _ _ := rfl
  kernelDir := rfl
  ram := rfl
  dirs := rfl
  pages _ _ _ := rfl
  ownPages _ _ := Or.inl rfl
  cleared := by
    rintro frame ⟨-, slot, none, -⟩
    exact absurd none (Nat.not_lt_zero slot)
  bits _ _ _ := rfl
  calls := .done

/-- A slot without a private table is passed over. -/
theorem SlotsFreed.skip {dir n : Nat} {held' : Blocks}
    (h : SlotsFreed pool held first dir n held' st) (shared : ¬ PrivateTable first dir n)
    : SlotsFreed pool held first dir (n + 1) held' st := by
  have tables : privateTables first dir (n + 1) = privateTables first dir n := by
    rw [privateTables_succ, if_neg shared, List.append_nil]
  have frames (frame : Nat) : PrivateFrame first dir (n + 1) frame ↔ PrivateFrame first dir n frame := by
    rw [privateFrame_succ]
    exact or_iff_left (fun here => shared here.2.1)
  exact {
    holds := h.holds
    books := tables ▸ h.books
    kernelDir := h.kernelDir
    ram := h.ram
    dirs := h.dirs
    pages := tables ▸ h.pages
    ownPages := h.ownPages
    cleared := fun frame mine => h.cleared frame ((frames frame).mp mine)
    bits := fun frame other => h.bits frame (fun mine => other ((frames frame).mpr mine))
    calls := tables ▸ h.calls
  }

/-- A block that is taken back changes the bits of the kernel heap's own frames at most. -/
theorem TakenBack.bit {own : Nat → Prop} {mid : Kernel} (h : TakenBack own mid st')
    (ownSame : ∀ ref, OwnEntry own mid ref ↔ OwnEntry own first ref)
    (ownPages : ∀ ref, OwnEntry own first ref →
      mid.page ref = first.page ref ∨ (mid.page ref).frame = 0)
    {frame : Nat} (other : ¬ OwnFrame own first frame)
    : frameBit st'.frames frame = frameBit mid.frames frame := by
  by_contra changed
  obtain ⟨ref, isOwn, here, nonzero⟩ := h.bits frame changed
  have isOwn' := (ownSame ref).mp isOwn
  rcases ownPages ref isOwn' with same | none
  · exact other ⟨nonzero, ref, isOwn', by rw [← same, here]⟩
  · exact nonzero (here.symm.trans none)

section Release

variable {dir n : Nat} {held' : Blocks}

/-- The entries of the next table to release are untouched. -/
theorem SlotsFreed.entry (start : Detachable pool live held first dir) (below : n < tablesInDir)
    (h : SlotsFreed pool held first dir n held' st) (mine : PrivateTable first dir n) (i : Nat)
    : st.page ((first.dirs dir).tables n, i) = first.page ((first.dirs dir).tables n, i) :=
  h.pages _ (start.notBefore below mine (le_refl n))
    (start.spaces.owned.notOwn pool.bounded start.alive below mine i)

theorem SlotsFreed.ownSame (h : SlotsFreed pool held first dir n held' st) (ref : PageRef)
    : OwnEntry pool.own st ref ↔ OwnEntry pool.own first ref :=
  OwnEntry.congr h.kernelDir (by rw [h.dirs])

/-- The frames of a private table are freed. -/
theorem SlotsFreed.freeEntries (start : Detachable pool live held first dir)
    (below : n < tablesInDir) (h : SlotsFreed pool held first dir n held' st)
    (mine : PrivateTable first dir n) (isHeld : held' ((first.dirs dir).tables n) ≠ none)
    : ∃ mid, forIndices (freeEntry ((first.dirs dir).tables n)) pagesInTable st = some mid
        ∧ pool.Holds held' mid ∧ EntriesFreed ((first.dirs dir).tables n) pagesInTable st mid
        ∧ Frees kfree (privateTables first dir n) first mid := by
  refine pool.freeEntries h.holds isHeld (fun i isOwn => ?_)
    (fun i inside ref isOwn populated same => ?_) h.calls
  · exact start.spaces.owned.notOwn pool.bounded start.alive below mine i
      ((h.ownSame _).mp isOwn)
  · have isOwn' := (h.ownSame ref).mp isOwn
    have page := (h.ownPages ref isOwn').resolve_right populated
    rw [page] at same populated
    rw [h.entry start below mine i] at same
    exact start.notOwnFrame _ ⟨populated, n, below, mine, i, inside, same⟩
      ⟨populated, ref, isOwn', rfl⟩

/-- A private table is released with the frames that it maps. -/
theorem SlotsFreed.release (start : Detachable pool live held first dir) (below : n < tablesInDir)
    (h : SlotsFreed pool held first dir n held' st) (mine : PrivateTable first dir n)
    : ∃ held'' st', freeTable kfree ((first.dirs dir).tables n) st = some st'
        ∧ SlotsFreed pool held first dir (n + 1) held'' st' := by
  have notOwn := start.spaces.owned.notOwn pool.bounded start.alive below mine
  have entry := h.entry start below mine
  obtain ⟨size, isHeld⟩ : ∃ size, held' ((first.dirs dir).tables n) = some size := by
    rw [h.books _ (start.notBefore below mine (le_refl n))]
    exact Option.ne_none_iff_exists'.mp
      (start.spaces.owned.tables dir start.alive n below mine.1).1
  obtain ⟨mid, loop, holds, freed, calls⟩ :=
    h.freeEntries start below mine (by rw [isHeld]; exact Option.some_ne_none _)
  obtain ⟨st', released, back, holds'⟩ := pool.takesBack holds isHeld
  have ownMid (ref : PageRef) : OwnEntry pool.own mid ref ↔ OwnEntry pool.own first ref :=
    (OwnEntry.congr freed.kernelDir (by rw [freed.dirs])).trans (h.ownSame ref)
  have ownPages (ref : PageRef) (isOwn : OwnEntry pool.own first ref)
      : mid.page ref = first.page ref ∨ (mid.page ref).frame = 0 := by
    rw [freed.others ref (Or.inl (fun same => notOwn ref.2 (same ▸ isOwn)))]
    exact h.ownPages ref isOwn
  have midBit {frame : Nat} (other : ¬ OwnFrame pool.own first frame) :=
    back.bit ownMid ownPages other
  have tables : privateTables first dir (n + 1)
      = privateTables first dir n ++ [(first.dirs dir).tables n] := by
    rw [privateTables_succ, if_pos mine]
  refine ⟨update held' ((first.dirs dir).tables n) none, st',
    by rw [freeTable, loop, Option.bind_some, released], ?_⟩
  exact {
    holds := holds'
    books := by
      intro block outside
      rw [tables, List.mem_append, not_or, List.mem_singleton] at outside
      rw [update_other outside.2]
      exact h.books block outside.1
    kernelDir := back.kernelDir.trans (freed.kernelDir.trans h.kernelDir)
    ram := back.ram.trans (freed.ram.trans h.ram)
    dirs := back.dirs.trans (freed.dirs.trans h.dirs)
    pages := by
      intro ref outside other
      rw [tables, List.mem_append, not_or, List.mem_singleton] at outside
      rw [back.pages ref (fun isOwn => other ((ownMid ref).mp isOwn)),
        freed.others ref (Or.inl outside.2)]
      exact h.pages ref outside.1 other
    ownPages := by
      intro ref isOwn
      rcases back.unmapped ref ((ownMid ref).mpr isOwn) with same | none
      · rw [same]
        exact ownPages ref isOwn
      · exact Or.inr none
    cleared := by
      intro frame isPrivate
      rw [midBit (start.notOwnFrame _ (isPrivate.mono below)), ← Bool.not_eq_true, freed.bits]
      rintro ⟨busy, others⟩
      rcases privateFrame_succ.mp isPrivate with before | ⟨nonzero, -, i, inside, here⟩
      · exact Bool.false_ne_true ((h.cleared frame before).symm.trans busy)
      · exact others ⟨nonzero, i, inside, (congrArg Page.frame (entry i)).trans here⟩
    bits := by
      intro frame other notOwnFrame
      rw [privateFrame_succ, not_or] at other
      rw [midBit notOwnFrame, ← h.bits frame other.1 notOwnFrame, Bool.eq_iff_iff, freed.bits]
      refine and_iff_left ?_
      rintro ⟨nonzero, i, inside, here⟩
      exact other.2 ⟨nonzero, mine, i, inside, (congrArg Page.frame (entry i)).symm.trans here⟩
    calls := by
      rw [tables]
      exact calls.block released
  }

end Release

/-- One round of `freeDir`'s loop. -/
theorem SlotsFreed.freeSlot {dir n : Nat} {held' : Blocks}
    (start : Detachable pool live held first dir) (below : n < tablesInDir)
    (h : SlotsFreed pool held first dir n held' st)
    : ∃ st', DeadKernel.freeSlot kfree dir n st = some st'
        ∧ ∃ held'', SlotsFreed pool held first dir (n + 1) held'' st' := by
  rw [DeadKernel.freeSlot, h.dirs, h.kernelDir]
  by_cases populated : (first.dirs dir).tables n ≠ 0
  · rw [if_pos populated]
    by_cases mine : (first.dirs dir).tables n ≠ (first.dirs first.kernelDir).tables n
    · rw [if_pos mine]
      obtain ⟨held'', st', run, next⟩ := h.release start below ⟨populated, mine.symm⟩
      exact ⟨st', run, held'', next⟩
    · rw [if_neg mine]
      exact ⟨st, rfl, held', h.skip (fun isPrivate => mine isPrivate.2.symm)⟩
  · rw [if_neg populated]
    exact ⟨st, rfl, held', h.skip (fun isPrivate => populated isPrivate.1)⟩

/-- The tables of the other directories are none of those that a directory gives back. -/
theorem Ownership.notReleased (h : Ownership live held st) {dir other slot : Nat}
    (alive : live dir) (alive' : live other) (apart : other ≠ dir) (below : slot < tablesInDir)
    (populated : (st.dirs other).tables slot ≠ 0)
    : (st.dirs other).tables slot ∉ privateTables st dir tablesInDir ++ [dir] := by
  rw [List.mem_append, List.mem_singleton, mem_privateTables, not_or]
  refine ⟨?_, fun same => (h.tables other alive' slot below populated).2 (same ▸ alive)⟩
  rintro ⟨slot', below', mine, same⟩
  exact apart (h.sole dir alive slot' below' mine other alive' slot below same.symm).1

/-- No directory is among them but the one itself. -/
theorem Ownership.notTable (h : Ownership live held st) {dir other : Nat} (alive : live dir)
    (alive' : live other)
    : other ∉ privateTables st dir tablesInDir := by
  intro member
  obtain ⟨slot, below, mine, rfl⟩ := mem_privateTables.mp member
  exact (h.tables dir alive slot below mine.1).2 alive'

/-- A directory out of use concerns none of the others. -/
theorem Ownership.without (h : Ownership live held st) {dir : Nat} {held' : Blocks}
    (alive : live dir) (notKernel : dir ≠ st.kernelDir) (kernelDir : st'.kernelDir = st.kernelDir)
    (dirs : st'.dirs = st.dirs)
    (books : ∀ block, block ∉ privateTables st dir tablesInDir ++ [dir] →
      held' block = held block)
    : Ownership (fun other => live other ∧ other ≠ dir) held' st' where
  kernelDir := ⟨kernelDir ▸ h.kernelDir, kernelDir ▸ notKernel.symm⟩
  dirs other both := by
    rw [books other (by
      rw [List.mem_append, List.mem_singleton, not_or]
      exact ⟨h.notTable alive both.1, both.2⟩)]
    exact h.dirs other both.1
  tables other both slot below populated := by
    rw [dirs] at populated ⊢
    obtain ⟨known, notLive⟩ := h.tables other both.1 slot below populated
    rw [books _ (h.notReleased alive both.1 both.2 below populated)]
    exact ⟨known, fun both' => notLive both'.1⟩
  apart := by
    simp only [Kernel.kernelTables, kernelDir, dirs]
    exact h.apart
  sole other both slot below mine other' both' slot' below' same := by
    rw [PrivateTable, kernelDir, dirs] at mine
    rw [dirs] at same
    exact h.sole other both.1 slot below mine other' both'.1 slot' below' same

/-- The private tables of a directory and the directory itself are different blocks. -/
theorem Ownership.releasedOnce (h : Ownership live held st) {dir : Nat} (alive : live dir)
    : (privateTables st dir tablesInDir ++ [dir]).Nodup := by
  refine List.nodup_append.mpr ⟨?_, List.nodup_singleton dir, ?_⟩
  · refine List.Nodup.map_on ?_ (List.nodup_range.filter _)
    intro slot member slot' member' same
    obtain ⟨below, mine⟩ := List.mem_filter.mp member
    obtain ⟨below', -⟩ := List.mem_filter.mp member'
    exact (h.sole dir alive slot (List.mem_range.mp below) (of_decide_eq_true mine) dir alive slot'
      (List.mem_range.mp below') same.symm).2.symm
  · intro table member other single same
    rw [same, List.mem_singleton.mp single] at member
    exact h.notTable alive alive member

/-- `freeDir` runs to its end: the slots one after another, and then the directory itself. -/
theorem Detachable.stages {dir : Nat} (start : Detachable pool live held st dir)
    : ∃ mid st' held', DeadKernel.freeDir kfree dir st = some st'
        ∧ SlotsFreed pool held st dir tablesInDir held' mid
        ∧ kfree dir mid = some st' ∧ TakenBack pool.own mid st'
        ∧ Spaces pool (fun other => live other ∧ other ≠ dir) (update held' dir none) st' := by
  obtain ⟨mid, loop, held', freed⟩ : ∃ mid,
      forIndices (freeSlot kfree dir) tablesInDir st = some mid
      ∧ ∃ held', SlotsFreed pool held st dir tablesInDir held' mid := by
    refine forIndices_spec (P := fun n mid => ∃ held', SlotsFreed pool held st dir n held' mid)
      ⟨held, .start start⟩ ?_
    rintro n below mid ⟨held', freed⟩
    exact freed.freeSlot start below
  have owned := start.spaces.owned
  have dirHeld : held' dir = held dir := freed.books dir (owned.notTable start.alive start.alive)
  obtain ⟨size, isHeld⟩ := Option.ne_none_iff_exists'.mp (owned.dirs dir start.alive)
  obtain ⟨st', released, back, holds⟩ := pool.takesBack freed.holds (dirHeld.trans isHeld)
  refine ⟨mid, st', held', by rw [DeadKernel.freeDir, loop, Option.bind_some, released], freed,
    released, back, holds, ?_⟩
  refine owned.without start.alive start.notKernel (back.kernelDir.trans freed.kernelDir)
    (back.dirs.trans freed.dirs) (fun block outside => ?_)
  rw [List.mem_append, not_or, List.mem_singleton] at outside
  rw [update_other outside.2]
  exact freed.books block outside.1

/-- `freeDir` releases what belongs to the directory alone, and nothing else. -/
theorem Releasable.freeDir {dir : Nat} (start : Releasable pool live held st dir)
    : ∃ st', DeadKernel.freeDir kfree dir st = some st'
        ∧ DirReleased kfree pool.own live st dir st'
        ∧ ∃ held', Spaces pool (fun other => live other ∧ other ≠ dir) held' st' := by
  obtain ⟨mid, st', held', run, freed, released, back, spaces⟩ := start.detachable.stages
  have owned := start.spaces.owned
  have bit {frame : Nat} (other : ¬ OwnFrame pool.own st frame) :=
    back.bit freed.ownSame freed.ownPages other
  have bits {frame : Nat} (other : ¬ PrivateFrame st dir tablesInDir frame)
      (notOwn : ¬ OwnFrame pool.own st frame)
      : frameBit st'.frames frame = frameBit st.frames frame :=
    (bit notOwn).trans (freed.bits frame other notOwn)
  refine ⟨st', run, ?_, _, spaces⟩
  exact {
    calls := freed.calls.block released
    once := owned.releasedOnce start.alive
    cleared := fun frame mine => by
      rw [bit (start.detachable.notOwnFrame frame mine)]
      exact freed.cleared frame mine
    bits := fun frame => bits
    reachable := by
      intro other alive apart slot below populated i inside notOwn
      refine bits ?_ notOwn
      rintro ⟨nonzero, slot', below', mine, i', inside', same⟩
      have table := (start.distinct dir start.alive slot' below' mine i' inside'
        (by rw [same]; exact nonzero) other alive slot below populated i inside same.symm).1
      exact apart (owned.sole dir start.alive slot' below' mine other alive slot below table).1
    kernelDir := back.kernelDir.trans freed.kernelDir
    dirs := fun other _ _ => by rw [back.dirs, freed.dirs]
    entries := by
      intro other alive apart slot below populated i notOwn
      have outside := owned.notReleased start.alive alive apart below populated
      rw [List.mem_append, not_or] at outside
      rw [back.pages _ (fun isOwn => notOwn ((freed.ownSame _).mp isOwn))]
      exact freed.pages _ outside.1 notOwn
    contents := back.ram.trans freed.ram
  }

end

end DeadKernel
