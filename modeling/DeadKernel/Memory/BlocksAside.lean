import DeadKernel.Memory.DirectoryRelease

/-! Blocks of the kernel heap that are neither directories nor tables: a task's own block, its
`Heap_t`, the semaphores. To the page directories such blocks do not exist, so what is known about
directories holds over the kernel heap without them.
-/

namespace DeadKernel

open Words

-----------------------------------------------------------------------------------------
-- A kernel heap without some of its blocks
-----------------------------------------------------------------------------------------

/-- The blocks in use with those that were set aside. -/
def Blocks.withAside (held kept : Blocks) : Blocks := fun block => (kept block).or (held block)

/-- The blocks in use without those that were set aside. -/
def Blocks.without (held kept : Blocks) : Blocks := fun block =>
  if kept block = none then held block else none

section

variable {held held' kept : Blocks} {block size : Nat}

theorem Blocks.withAside_none (none_ : kept block = none)
    : held.withAside kept block = held block := by
  rw [Blocks.withAside, none_, Option.none_or]

theorem Blocks.withAside_some (known : kept block = some size)
    : held.withAside kept block = some size := by
  rw [Blocks.withAside, known, Option.some_or]

theorem Blocks.withAside_eq_none
    : held.withAside kept block = none ↔ kept block = none ∧ held block = none :=
  Option.or_eq_none_iff

/-- A block in use that was not set aside. -/
theorem Blocks.withAside_held (apart : ∀ block, kept block ≠ none → held block = none)
    (known : held block = some size)
    : held.withAside kept block = some size := by
  rw [Blocks.withAside_none (by_contra fun other => ?_), known]
  rw [apart block other] at known
  contradiction

/-- A block in use is set aside. -/
theorem Blocks.withAside_putAside (fresh : kept block = none) (known : held block = some size)
    : Blocks.withAside (update held block none) (update kept block (some size))
      = held.withAside kept := by
  funext other
  by_cases here : other = block
  · subst here
    rw [withAside_none fresh, known]
    exact withAside_some (update_self _ _ _)
  · simp only [withAside, update_other here]

/-- A block that was set aside is given back. -/
theorem Blocks.withAside_giveBack (apart : ∀ block, kept block ≠ none → held block = none)
    (known : kept block = some size)
    : held.withAside (update kept block none) = update (held.withAside kept) block none := by
  funext other
  by_cases here : other = block
  · subst here
    rw [withAside_none (update_self _ _ _), update_self]
    exact apart other (by rw [known]; exact Option.some_ne_none _)
  · simp only [withAside, update_other here]

theorem Rewriting.mono {own : Nat → Prop} {st st' : Kernel} (h : Rewriting own held st st')
    (more : ∀ block size, held block = some size → held' block = some size)
    : Rewriting own held' st st' := by
  have none_ {block : Nat} (unused : held' block = none) : held block = none := by
    cases known : held block with
    | none => rfl
    | some size => exact absurd (more block size known) (by rw [unused]; exact nofun)
  exact { h with
    mem := fun address guarded outside => h.mem address guarded
      (fun block size known => outside block size (more block size known))
    tables := fun table unused => h.tables table (none_ unused)
    dirs := fun dir unused => h.dirs dir (none_ unused) }

end

section

variable {kmalloc : Kmalloc} {kfree : Kfree}

/-- A block is handed out to somebody who does not know of the blocks that were set aside. -/
theorem HandedOut.without {own : Nat → Prop} {held held' kept : Blocks} {st st' : Kernel}
    {block size : Nat} (h : HandedOut own (held.withAside kept) st block size held' st')
    (apart : ∀ block, kept block ≠ none → held block = none)
    : HandedOut own held st block size (held'.without kept) st' := by
  have outside {other : Nat} (unused : held.withAside kept other = none)
      : held'.without kept other = held' other :=
    if_pos (Blocks.withAside_eq_none.mp unused).1
  have more {other : Nat} (known : held other ≠ none) : held.withAside kept other ≠ none :=
    fun unused => known (Blocks.withAside_eq_none.mp unused).2
  exact {
    nonzero := h.nonzero
    fresh := (Blocks.withAside_eq_none.mp h.fresh).2
    isHeld := (outside h.fresh).trans h.isHeld
    tableHeld := fun slot table new => by
      obtain ⟨fresh, apart, known⟩ := h.tableHeld slot table new
      exact ⟨(Blocks.withAside_eq_none.mp fresh).2, apart, (outside fresh).trans known⟩
    region := h.region
    apart := h.apart
    others := fun other elsewhere noTable => by
      rw [Blocks.without]
      split
      · rename_i none_
        rw [h.others other elsewhere noTable, Blocks.withAside_none none_]
      · rename_i isKept
        exact (apart other isKept).symm
    kernelHeap := h.kernelHeap
    kernelDir := h.kernelDir
    currentDir := h.currentDir
    ram := h.ram
    fallOff := h.fallOff
    slots := h.slots
    dirs := fun dir known => h.dirs dir (more known)
    pages := fun ref known => h.pages ref (more known)
    blank := h.blank
    marked := h.marked
  }

/-- The kernel heap as it looks to those who do not know of the blocks that were set aside. -/
def BlockPool.aside (pool : BlockPool kmalloc kfree) (kept : Blocks) : BlockPool kmalloc kfree where
  own := pool.own
  bounded := pool.bounded
  Holds held st :=
    (∀ block, kept block ≠ none → held block = none) ∧ pool.Holds (held.withAside kept) st
  handsOut := by
    rintro held st size align phys block physAddr st' ⟨apart, holds⟩ served
    obtain ⟨held', out, holds'⟩ := pool.handsOut holds served
    have same : (held'.without kept).withAside kept = held' := by
      funext other
      cases known : kept other with
      | none => rw [Blocks.withAside_none known, Blocks.without, if_pos known]
      | some size' =>
          have before : held.withAside kept other = some size' := Blocks.withAside_some known
          rw [Blocks.withAside_some known,
            out.grow other (by rw [before]; exact Option.some_ne_none _), before]
    exact ⟨held'.without kept, out.without apart, fun other isKept => if_neg isKept,
      same.symm ▸ holds'⟩
  takesBack := by
    rintro held st block size ⟨apart, holds⟩ isHeld
    obtain ⟨st', freed, back, holds'⟩ :=
      pool.takesBack holds (Blocks.withAside_held apart isHeld)
    have notKept : kept block = none := by
      by_contra isKept
      rw [apart block isKept] at isHeld
      contradiction
    have same : update (held.withAside kept) block none
        = Blocks.withAside (update held block none) kept := by
      funext other
      by_cases here : other = block
      · subst here
        rw [update_self, Blocks.withAside_none notKept, update_self]
      · simp only [Blocks.withAside, update_other here]
    refine ⟨st', freed, back, fun other isKept => ?_, same ▸ holds'⟩
    by_cases here : other = block
    · rw [here, update_self]
    · rw [update_other here]
      exact apart other isKept
  keeps := by
    rintro held st st' ⟨apart, holds⟩ writes
    exact ⟨apart, pool.keeps holds
      (writes.mono (fun block size known => Blocks.withAside_held apart known))⟩

variable {pool : BlockPool kmalloc kfree} {live : Nat → Prop} {held kept : Blocks}
variable {st st' : Kernel}

-----------------------------------------------------------------------------------------
-- Blocks set aside and given back
-----------------------------------------------------------------------------------------

/-- A block of no directory is set aside. -/
theorem Spaces.putAside (h : Spaces (pool.aside kept) live held st) {block size : Nat}
    (isHeld : held block = some size) (notLive : ¬ live block)
    (unused : ∀ dir, live dir → ∀ slot < tablesInDir, (st.dirs dir).tables slot ≠ block)
    : Spaces (pool.aside (update kept block (some size))) live (update held block none) st where
  holds := by
    obtain ⟨apart, holds⟩ := h.holds
    have fresh : kept block = none := by
      by_contra isKept
      rw [apart block isKept] at isHeld
      contradiction
    refine ⟨fun other isKept => ?_, (Blocks.withAside_putAside fresh isHeld).symm ▸ holds⟩
    by_cases here : other = block
    · rw [here, update_self]
    · rw [update_other here] at isKept ⊢
      exact apart other isKept
  owned := {
    kernelDir := h.owned.kernelDir
    dirs := by
      intro dir alive
      rw [update_other (by rintro rfl; exact notLive alive)]
      exact h.owned.dirs dir alive
    tables := by
      intro dir alive slot below populated
      rw [update_other (unused dir alive slot below)]
      exact h.owned.tables dir alive slot below populated
    apart := h.owned.apart
    sole := h.owned.sole
  }

/-- All blocks together. -/
theorem Spaces.takeIn (h : Spaces (pool.aside kept) live held st)
    : Spaces pool live (held.withAside kept) st where
  holds := h.holds.2
  owned := h.owned.of_dirs
    (fun _ known unused => known (Blocks.withAside_eq_none.mp unused).2) rfl (fun _ _ => rfl)

/-- A request by somebody who uses the block for himself. -/
theorem Spaces.lend (h : Spaces (pool.aside kept) live held st) {size align block physAddr : Nat}
    {phys : Bool} (served : kmalloc size align phys st = some (block, physAddr, st'))
    : kept block = none ∧ ¬ live block
      ∧ ∃ held', Spaces (pool.aside (update kept block (some size))) live held' st'
        ∧ HandedOut pool.own held st block size (update held' block (some size)) st' := by
  obtain ⟨held', spaces, out⟩ := h.request served
  have notLive : ¬ live block := fun alive => h.owned.dirs block alive out.fresh
  have notKept : kept block = none := by
    by_contra isKept
    have known := out.isHeld
    rw [spaces.holds.1 block isKept] at known
    contradiction
  refine ⟨notKept, notLive, _, spaces.putAside out.isHeld notLive
    (fun dir alive slot below => h.owned.unused out alive below), ?_⟩
  have same : update (update held' block none) block (some size) = held' := by
    rw [update_update]
    funext other
    by_cases here : other = block
    · rw [here, update_self, out.isHeld]
    · rw [update_other here]
  rw [same]
  exact out

/-- A block that was set aside is taken back. -/
theorem Spaces.giveBack (h : Spaces (pool.aside kept) live held st) {block size : Nat}
    (known : kept block = some size)
    : ∃ st', kfree block st = some st' ∧ TakenBack pool.own st st'
        ∧ Spaces (pool.aside (update kept block none)) live held st' := by
  obtain ⟨apart, holds⟩ := h.holds
  obtain ⟨st', freed, back, holds'⟩ := pool.takesBack holds (Blocks.withAside_some known)
  refine ⟨st', freed, back, ⟨fun other isKept => ?_, ?_⟩, ?_⟩
  · by_cases here : other = block
    · rw [here, update_self] at isKept
      contradiction
    · rw [update_other here] at isKept
      exact apart other isKept
  · rw [Blocks.withAside_giveBack apart known]
    exact holds'
  · exact h.owned.of_dirs (fun _ => id) back.kernelDir (fun dir _ => by rw [back.dirs])

end
end DeadKernel
