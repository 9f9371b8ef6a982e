import DeadKernel.Memory.Cloning

/-! A whole directory cloned: slot by slot, empty slots stay empty, tables shared with the kernel
directory stay shared and all others are copied.
-/

namespace DeadKernel

open Words

section

variable {kmalloc : Kmalloc} {live : Nat → Prop} {source : BlockSource kmalloc live}
variable {limit blocks spent : Nat} {first st : Kernel} {taken : Nat → Prop}
variable {copies : PageRef → PageRef → Prop}

-----------------------------------------------------------------------------------------
-- Slots
-----------------------------------------------------------------------------------------

/-- A table that the directory shares with the kernel directory. -/
def SharedTable (st : Kernel) (src slot : Nat) : Prop :=
  (st.dirs src).tables slot ≠ 0
    ∧ (st.dirs st.kernelDir).tables slot = (st.dirs src).tables slot

/-- A table of the directory alone. -/
def PrivateTable (st : Kernel) (src slot : Nat) : Prop :=
  (st.dirs src).tables slot ≠ 0
    ∧ (st.dirs st.kernelDir).tables slot ≠ (st.dirs src).tables slot

instance (st : Kernel) (src slot : Nat) : Decidable (PrivateTable st src slot) :=
  inferInstanceAs (Decidable (_ ∧ _))

/-- The blocks and the frames that cloning one slot takes. -/
def slotBlocks (st : Kernel) (src slot : Nat) : Nat := if PrivateTable st src slot then 1 else 0

def slotCost (source : BlockSource kmalloc live) (st : Kernel) (src slot : Nat) : Nat :=
  if PrivateTable st src slot
  then source.cost + tableCost st ((st.dirs src).tables slot) pagesInTable
  else 0

/-- What `cloneDir` is called with: every mapped frame is busy, and the directory, its tables
and the kernel directory are in use. Frame 0 is the kernel's, whose page 0 maps it.
-/
structure Cloneable (source : BlockSource kmalloc live) (st : Kernel) (src : Nat) : Prop where
  zero : frameBit st.frames 0 = true
  busy : ∀ ref, 0 < (st.page ref).frame → (st.page ref).frame < nframes →
    frameBit st.frames (st.page ref).frame = true
  fits : ∀ ref, (st.page ref).frame < 1048576
  dir : live src
  kernelDir : live st.kernelDir
  tables : ∀ slot < tablesInDir, (st.dirs src).tables slot ≠ 0 →
    live ((st.dirs src).tables slot)
  still : ∀ slot < tablesInDir, PrivateTable st src slot →
    ∀ i, ¬ source.grown ((st.dirs src).tables slot, i)

theorem Cloneable.copyable {src slot : Nat} (h : Cloneable source st src)
    (below : slot < tablesInDir) (own : PrivateTable st src slot) (i : Nat)
    : Copyable source st ((st.dirs src).tables slot, i) where
  alive := h.tables slot below own.1
  still := h.still slot below own i
  fits := h.fits _
  busy := by
    intro low
    rcases Nat.eq_zero_or_pos (st.page ((st.dirs src).tables slot, i)).frame with none | some
    · rw [none]
      exact h.zero
    · exact h.busy _ some low

/-- The slots below `n` of a directory are cloned. -/
structure SlotsCloned (first : Kernel) (src dir n : Nat) (taken : Nat → Prop)
    (copies : PageRef → PageRef → Prop) (st : Kernel)
    : Prop where
  mine : taken dir
  blank : ∀ slot, n ≤ slot → (st.dirs dir).tables slot = 0
  empty : ∀ slot < n, (first.dirs src).tables slot = 0 → (st.dirs dir).tables slot = 0
  shared : ∀ slot < n, SharedTable first src slot →
    (st.dirs dir).tables slot = (first.dirs src).tables slot
      ∧ (st.dirs dir).tablesPhysical slot = (first.dirs src).tablesPhysical slot
  copied : ∀ slot < n, PrivateTable first src slot →
    (st.dirs dir).tables slot ≠ 0 ∧ taken ((st.dirs dir).tables slot)
      ∧ ∀ i < pagesInTable,
        copies ((st.dirs dir).tables slot, i) ((first.dirs src).tables slot, i)
  distinct : ∀ slot < n, ∀ slot' < n, PrivateTable first src slot →
    PrivateTable first src slot' → slot ≠ slot' →
    (st.dirs dir).tables slot ≠ (st.dirs dir).tables slot'

@[simp] theorem Kernel.setSlot_tables (st : Kernel) (dir slot table physical : Nat)
    : ((st.setSlot dir slot table physical).dirs dir).tables
      = update (st.dirs dir).tables slot table := by
  simp [Kernel.setSlot]

@[simp] theorem Kernel.setSlot_tablesPhysical (st : Kernel) (dir slot table physical : Nat)
    : ((st.setSlot dir slot table physical).dirs dir).tablesPhysical
      = update (st.dirs dir).tablesPhysical slot physical := by
  simp [Kernel.setSlot]

/-- Filling a slot of the clone, which lies in a block that was handed out. -/
theorem CloneState.setSlot (h : CloneState source limit first blocks spent taken copies st)
    {dir : Nat} (mine : taken dir) (slot table physical : Nat)
    : CloneState source limit first blocks spent taken copies
        (st.setSlot dir slot table physical) := by
  refine h.writes ⟨rfl, fun _ _ => rfl, fun other unused => ?_⟩ rfl rfl (fun _ _ _ => rfl)
  exact update_other (fun same => unused (same ▸ mine))

/-- One more slot is cloned, and the slots before it stay as they are. -/
theorem SlotsCloned.next {src dir n : Nat} (h : SlotsCloned first src dir n taken copies st)
    {st' : Kernel} {taken' : Nat → Prop} {copies' : PageRef → PageRef → Prop}
    (moreTaken : ∀ block, taken block → taken' block)
    (moreCopies : ∀ ref original, copies ref original → copies' ref original)
    (tables : ∀ slot ≠ n, (st'.dirs dir).tables slot = (st.dirs dir).tables slot)
    (physical : ∀ slot ≠ n, (st'.dirs dir).tablesPhysical slot = (st.dirs dir).tablesPhysical slot)
    (empty : (first.dirs src).tables n = 0 → (st'.dirs dir).tables n = 0)
    (shared : SharedTable first src n →
      (st'.dirs dir).tables n = (first.dirs src).tables n
        ∧ (st'.dirs dir).tablesPhysical n = (first.dirs src).tablesPhysical n)
    (copied : PrivateTable first src n →
      (st'.dirs dir).tables n ≠ 0 ∧ taken' ((st'.dirs dir).tables n)
        ∧ ∀ i < pagesInTable, copies' ((st'.dirs dir).tables n, i) ((first.dirs src).tables n, i))
    (fresh : PrivateTable first src n → ¬ taken ((st'.dirs dir).tables n))
    : SlotsCloned first src dir (n + 1) taken' copies' st' := by
  have old {slot : Nat} (below : slot < n) : (st'.dirs dir).tables slot = (st.dirs dir).tables slot :=
    tables slot (Nat.ne_of_lt below)
  exact {
    mine := moreTaken dir h.mine
    blank := by
      intro slot above
      rw [tables slot (by omega), h.blank slot (by omega)]
    empty := by
      intro slot below none
      rcases Nat.lt_succ_iff_lt_or_eq.mp below with before | rfl
      · rw [old before, h.empty slot before none]
      · exact empty none
    shared := by
      intro slot below both
      rcases Nat.lt_succ_iff_lt_or_eq.mp below with before | rfl
      · rw [old before, physical slot (by omega)]
        exact h.shared slot before both
      · exact shared both
    copied := by
      intro slot below own
      rcases Nat.lt_succ_iff_lt_or_eq.mp below with before | rfl
      · obtain ⟨nonzero, known, entries⟩ := h.copied slot before own
        rw [old before]
        exact ⟨nonzero, moreTaken _ known, fun i inside => moreCopies _ _ (entries i inside)⟩
      · exact copied own
    distinct := by
      intro slot below slot' below' own own' apart
      rcases Nat.lt_succ_iff_lt_or_eq.mp below with before | rfl
      · rcases Nat.lt_succ_iff_lt_or_eq.mp below' with before' | rfl
        · rw [old before, old before']
          exact h.distinct slot before slot' before' own own' apart
        · rw [old before]
          exact fun same => fresh own' (same ▸ (h.copied slot before own).2.1)
      · rcases Nat.lt_succ_iff_lt_or_eq.mp below' with before' | rfl
        · rw [old before']
          exact fun same => fresh own (same ▸ (h.copied slot' before' own').2.1)
        · contradiction
  }

/-- One round of `cloneDir`'s loop clones one slot. -/
theorem CloneState.cloneSlot {src dir n : Nat} (ok : Cloneable source first src)
    (bounded : limit ≤ nframes) (below : n < tablesInDir)
    (h : CloneState source limit first (blocks + slotBlocks first src n) spent taken copies st)
    (slots : SlotsCloned first src dir n taken copies st)
    (enough : spent + slotCost source first src n ≤ freeFrames limit first)
    : ∃ st' taken' copies', DeadKernel.cloneSlot kmalloc src dir n st = some st'
        ∧ CloneState source limit first blocks (spent + slotCost source first src n) taken' copies'
          st'
        ∧ SlotsCloned first src dir (n + 1) taken' copies' st' := by
  have srcDir : st.dirs src = first.dirs src := h.dirs src ok.dir
  have kernel : st.dirs st.kernelDir = first.dirs first.kernelDir := by
    rw [h.kernelDir, h.dirs _ ok.kernelDir]
  by_cases none : (first.dirs src).tables n = 0
  · have notPrivate : ¬ PrivateTable first src n := fun own => own.1 none
    have notShared : ¬ SharedTable first src n := fun both => both.1 none
    refine ⟨st, taken, copies, by rw [DeadKernel.cloneSlot, srcDir, if_pos none], ?_, ?_⟩
    · simpa only [slotBlocks, slotCost, if_neg notPrivate, Nat.add_zero] using h
    · exact slots.next (fun _ => id) (fun _ _ => id) (fun _ _ => rfl) (fun _ _ => rfl)
        (fun _ => slots.blank n (le_refl n)) (fun both => absurd both notShared)
        (fun own => absurd own notPrivate) (fun own => absurd own notPrivate)
  · by_cases both : (first.dirs first.kernelDir).tables n = (first.dirs src).tables n
    · have notPrivate : ¬ PrivateTable first src n := fun own => own.2 both
      refine ⟨st.setSlot dir n ((first.dirs src).tables n) ((first.dirs src).tablesPhysical n),
        taken, copies, by rw [DeadKernel.cloneSlot, srcDir, kernel, if_neg none, if_pos both],
        ?_, ?_⟩
      · simpa only [slotBlocks, slotCost, if_neg notPrivate, Nat.add_zero]
          using h.setSlot slots.mine n _ _
      · refine slots.next (fun _ => id) (fun _ _ => id) (fun slot other => ?_)
          (fun slot other => ?_) (fun none' => absurd none' none) (fun _ => ⟨?_, ?_⟩)
          (fun own => absurd own notPrivate) (fun own => absurd own notPrivate)
        · rw [Kernel.setSlot_tables, update_other other]
        · rw [Kernel.setSlot_tablesPhysical, update_other other]
        · rw [Kernel.setSlot_tables, update_self]
        · rw [Kernel.setSlot_tablesPhysical, update_self]
    · have own : PrivateTable first src n := ⟨none, both⟩
      simp only [slotBlocks, slotCost, if_pos own, ← Nat.add_assoc] at h enough ⊢
      obtain ⟨table, phys, cloned, run, nonzero, notLive, notTaken, state, dirs⟩ :=
        h.cloneTable bounded ok.zero (fun i _ => ok.copyable below own i) enough
      refine ⟨cloned.setSlot dir n table (phys ||| 0x07), _, _, ?_,
        state.setSlot (Or.inl slots.mine) n table _, ?_⟩
      · rw [DeadKernel.cloneSlot, srcDir, kernel, if_neg none, if_neg both, run]
        rfl
      · refine slots.next (fun _ => Or.inl) (fun _ _ => Or.inl) (fun slot other => ?_)
          (fun slot other => ?_) (fun none' => absurd none' none)
          (fun shared => absurd shared.2 both) (fun _ => ?_) (fun _ => ?_)
        · rw [Kernel.setSlot_tables, update_other other, dirs dir slots.mine]
        · rw [Kernel.setSlot_tablesPhysical, update_other other, dirs dir slots.mine]
        · rw [Kernel.setSlot_tables, update_self]
          exact ⟨nonzero, Or.inr rfl, fun i inside => Or.inr ⟨i, inside, rfl, rfl⟩⟩
        · rwa [Kernel.setSlot_tables, update_self]

/-- What `cloneDir` yields: `st` is the state before it, `dir` the clone of `src` and `st'` the
state behind it.
-/
structure DirCloned (source : BlockSource kmalloc live) (limit : Nat) (st : Kernel)
    (src dir : Nat) (st' : Kernel)
    : Prop where
  fresh : ¬ live dir
  empty : ∀ slot < tablesInDir, (st.dirs src).tables slot = 0 → (st'.dirs dir).tables slot = 0
  shared : ∀ slot < tablesInDir, SharedTable st src slot →
    (st'.dirs dir).tables slot = (st.dirs src).tables slot
      ∧ (st'.dirs dir).tablesPhysical slot = (st.dirs src).tablesPhysical slot
  freshTables : ∀ slot < tablesInDir, PrivateTable st src slot →
    (st'.dirs dir).tables slot ≠ 0 ∧ ¬ live ((st'.dirs dir).tables slot)
  distinctTables : ∀ slot < tablesInDir, ∀ slot' < tablesInDir, PrivateTable st src slot →
    PrivateTable st src slot' → slot ≠ slot' →
    (st'.dirs dir).tables slot ≠ (st'.dirs dir).tables slot'
  entries : ∀ slot < tablesInDir, PrivateTable st src slot → ∀ i < pagesInTable,
    EntryCopied limit st st' ((st'.dirs dir).tables slot, i) ((st.dirs src).tables slot, i)
  distinctFrames : ∀ slot < tablesInDir, ∀ slot' < tablesInDir, PrivateTable st src slot →
    PrivateTable st src slot' → ∀ i < pagesInTable, ∀ i' < pagesInTable,
    (slot, i) ≠ (slot', i') → (st'.page ((st'.dirs dir).tables slot, i)).frame ≠ 0 →
    (st'.page ((st'.dirs dir).tables slot, i)).frame
      ≠ (st'.page ((st'.dirs dir).tables slot', i')).frame
  samePages : ∀ slot < tablesInDir, PrivateTable st src slot → ∀ i < pagesInTable,
    (st.page ((st.dirs src).tables slot, i)).frame ≠ 0 →
    SamePage st'.ram (st'.page ((st'.dirs dir).tables slot, i)).frame
      st'.ram (st'.page ((st.dirs src).tables slot, i)).frame
  kernelDir : st'.kernelDir = st.kernelDir
  dirs : ∀ other, live other → st'.dirs other = st.dirs other
  tables : ∀ ref, live ref.1 → ¬ source.grown ref → st'.page ref = st.page ref
  contents : ∀ ref, 0 < (st.page ref).frame →
    SamePage st'.ram (st.page ref).frame st.ram (st.page ref).frame

/-- Nothing is copied before the first request. -/
theorem CloneState.start (ready : source.Ready blocks (fun _ => False) first)
    : CloneState source limit first blocks 0 (fun _ => False) (fun _ _ => False) first where
  ready := ready
  notLive := fun _ none => none.elim
  marked := fun _ => id
  room := le_refl _
  contents := fun _ _ _ _ => rfl
  kernelDir := rfl
  dirs := fun _ _ => rfl
  pages := fun _ _ _ => rfl
  owned := fun _ _ none => none.elim
  copied := fun _ _ none => none.elim
  apart := fun _ _ _ _ none => none.elim

/-- When all slots are cloned, so is the directory. -/
theorem SlotsCloned.done {src dir : Nat} (ok : Cloneable source first src)
    (h : CloneState source limit first blocks spent taken copies st)
    (slots : SlotsCloned first src dir tablesInDir taken copies st)
    : DirCloned source limit first src dir st := by
  have known : ∀ ref, 0 < (first.page ref).frame →
      SamePage st.ram (first.page ref).frame first.ram (first.page ref).frame := by
    intro ref positive
    refine h.contents _ ?_
    rcases Nat.lt_or_ge (first.page ref).frame nframes with low | high
    · exact Or.inl (ok.busy ref positive low)
    · exact Or.inr high
  exact {
    fresh := h.notLive dir slots.mine
    empty := slots.empty
    shared := slots.shared
    freshTables := fun slot below own =>
      ⟨(slots.copied slot below own).1, h.notLive _ (slots.copied slot below own).2.1⟩
    distinctTables := slots.distinct
    entries := fun slot below own i inside =>
      h.copied _ _ ((slots.copied slot below own).2.2 i inside)
    distinctFrames := by
      intro slot below slot' below' own own' i inside i' inside' distinct
      refine h.apart _ _ _ _ ((slots.copied slot below own).2.2 i inside)
        ((slots.copied slot' below' own').2.2 i' inside') (fun same => ?_)
      obtain ⟨tables, rfl⟩ := Prod.mk.inj same
      by_cases same : slot = slot'
      · exact distinct (by rw [same])
      · exact slots.distinct slot below slot' below' own own' same tables
    samePages := by
      intro slot below own i inside populated
      have entry := h.copied _ _ ((slots.copied slot below own).2.2 i inside)
      have original := ok.copyable below own i
      rw [h.pages _ original.alive original.still]
      refine (entry.copied populated).contents.trans (fun offset low => ?_)
      exact (known _ (Nat.pos_of_ne_zero populated) offset low).symm
    kernelDir := h.kernelDir
    dirs := h.dirs
    tables := h.pages
    contents := known
  }

end

-----------------------------------------------------------------------------------------
-- Blocks from the placement address
-----------------------------------------------------------------------------------------

/-- The state before a kernel heap exists, with a directory at 0x8000 that shares one table with
the kernel directory and has one of its own, which maps frame 7.
-/
def twoDirs : Kernel where
  mem := fun _ => 0
  ram := fun frame _ => UInt8.ofNat frame
  heaps := fun _ => ⟨0, 0, 0, 0, 0, 0⟩
  kernelHeap := 0
  placementAddress := 0x10000
  frames := fun word => if word = 0 then 0x81#32 else 0#32
  fallOff := 0
  tables := fun table i =>
    if table = 0x5000 ∧ i = 3 then ⟨true, true, true, false, false, false, 7⟩ else .zero
  dirs := fun dir =>
    if dir = 0x8000 then
      { PageDir.zero with tables := fun slot =>
          if slot = 0 then 0x4000 else if slot = 1 then 0x5000 else 0 }
    else { PageDir.zero with tables := fun slot => if slot = 0 then 0x4000 else 0 }
  kernelDir := 0x1000
  currentDir := 0x1000

end DeadKernel
