import DeadKernel.Memory.AddressSpaces

/-! What the users of some directories and of blocks of the kernel heap see of what is done for
others. The kernel heap may grow meanwhile: it then maps pages of its own in tables that all
directories share.
-/

namespace DeadKernel

open Words

-----------------------------------------------------------------------------------------
-- What others see
-----------------------------------------------------------------------------------------

/-- An entry is as before, or the kernel heap has mapped a page of its own with it. -/
def EntryKept (own : Nat → Prop) (page : Nat) (before after : Page) : Prop :=
  after = before ∨ own page ∧ before.frame = 0 ∧ after.user = false

/-- The directories `live`, the bytes and the `Heap_t` records are as before; the kernel heap may
have got pages and tables for them.
-/
structure OthersKept (own live bytes records : Nat → Prop) (st st' : Kernel) : Prop where
  kernelHeap : st'.kernelHeap = st.kernelHeap
  kernelDir : st'.kernelDir = st.kernelDir
  slots : ∀ dir, live dir → ∀ slot < tablesInDir, (st.dirs dir).tables slot ≠ 0 →
    (st'.dirs dir).tables slot = (st.dirs dir).tables slot
  unshared : ∀ slot < tablesInDir, st.kernelTables slot = 0 →
    (∀ page, own page → page / 1024 ≠ slot) → st'.kernelTables slot = 0
  entries : ∀ dir, live dir → ∀ page < addressPages,
    EntryKept own page (st.entry dir page) (st'.entry dir page)
  mem : ∀ address, bytes address → st'.mem address = st.mem address
  heaps : ∀ record, records record → st'.heaps record = st.heaps record

/-- The address lies in a block in use. -/
def Blocks.Contain (held : Blocks) (address : Nat) : Prop :=
  ∃ block size, held block = some size ∧ block ≤ address ∧ address < block + size

theorem Blocks.Contain.grow {held held' : Blocks} {address : Nat} (h : held.Contain address)
    (grow : held.Grow held')
    : held'.Contain address := by
  obtain ⟨block, size, known, inside⟩ := h
  refine ⟨block, size, ?_, inside⟩
  rw [grow block (by rw [known]; exact Option.some_ne_none _), known]

section

variable {own live live' bytes records : Nat → Prop} {page : Nat} {st st' st'' : Kernel}

theorem EntryKept.trans {first second third : Page} (h : EntryKept own page first second)
    (h' : EntryKept own page second third)
    : EntryKept own page first third := by
  rcases h with rfl | grown
  · exact h'
  · rcases h' with rfl | later
    · exact Or.inr grown
    · exact Or.inr ⟨grown.1, grown.2.1, later.2.2⟩

theorem EntryKept.same {before after : Page} (h : EntryKept own page before after)
    (steady : ¬ own page ∨ before.frame ≠ 0)
    : after = before := by
  rcases h with same | ⟨isOwn, empty, -⟩
  · exact same
  · rcases steady with notOwn | populated
    · exact absurd isOwn notOwn
    · exact absurd empty populated

theorem OthersKept.refl (own live bytes records : Nat → Prop) (st : Kernel)
    : OthersKept own live bytes records st st :=
  ⟨rfl, rfl, fun _ _ _ _ _ => rfl, fun _ _ none _ => none, fun _ _ _ _ => Or.inl rfl,
    fun _ _ => rfl, fun _ _ => rfl⟩

theorem OthersKept.trans (h : OthersKept own live bytes records st st')
    (h' : OthersKept own live bytes records st' st'')
    : OthersKept own live bytes records st st'' where
  kernelHeap := h'.kernelHeap.trans h.kernelHeap
  kernelDir := h'.kernelDir.trans h.kernelDir
  slots dir alive slot below populated := by
    have same := h.slots dir alive slot below populated
    rw [h'.slots dir alive slot below (by rw [same]; exact populated), same]
  unshared slot below none elsewhere :=
    h'.unshared slot below (h.unshared slot below none elsewhere) elsewhere
  entries dir alive page small :=
    (h.entries dir alive page small).trans (h'.entries dir alive page small)
  mem address kept := (h'.mem address kept).trans (h.mem address kept)
  heaps record kept := (h'.heaps record kept).trans (h.heaps record kept)

theorem OthersKept.switch (h : OthersKept own live bytes records st st') (currentDir : Nat)
    : OthersKept own live bytes records st { st' with currentDir } :=
  ⟨h.kernelHeap, h.kernelDir, h.slots, h.unshared, h.entries, h.mem, h.heaps⟩

theorem OthersKept.mono (h : OthersKept own live' bytes records st st')
    (fewer : ∀ dir, live dir → live' dir)
    : OthersKept own live bytes records st st' :=
  { h with
    slots := fun dir alive => h.slots dir (fewer dir alive)
    entries := fun dir alive => h.entries dir (fewer dir alive) }

/-- A directory that is not in use is nobody else's. -/
theorem OthersKept.newDir {dir : Nat} (kernel : live st.kernelDir) (notLive : ¬ live dir)
    (value : PageDir)
    : OthersKept own live bytes records st { st with dirs := update st.dirs dir value } := by
  have same (other : Nat) (alive : live other) : update st.dirs dir value other = st.dirs other :=
    update_other (fun new => notLive (new ▸ alive))
  refine { OthersKept.refl own live bytes records st with
    slots := fun other alive slot _ _ => congrArg (fun dir => dir.tables slot) (same other alive)
    unshared := fun slot _ none _ =>
      (congrArg (fun dir => dir.tables slot) (same st.kernelDir kernel)).trans none
    entries := fun other alive page _ => Or.inl ?_ }
  simp only [Kernel.entry, Kernel.entryRef, same other alive]
  rfl

/-- Directories with the same table map a page alike. -/
theorem entry_shared {dir dir' : Nat}
    (same : (st.dirs dir).tables (page / 1024) = (st.dirs dir').tables (page / 1024))
    : st.entry dir page = st.entry dir' page := by
  rw [Kernel.entry, Kernel.entry, Kernel.entryRef, Kernel.entryRef, same]

end

-----------------------------------------------------------------------------------------
-- Requests
-----------------------------------------------------------------------------------------

/-- What a kernel heap promises those who have blocks of it: blocks lie apart, serving a request
changes nothing in them and nothing outside the kernel heap, and pages that are mapped for it are
not for users.
-/
structure QuietPool {kmalloc : Kmalloc} {kfree : Kfree} (pool : BlockPool kmalloc kfree) : Prop where
  apart : ∀ {held st size align phys block physAddr st'}, pool.Holds held st →
    kmalloc size align phys st = some (block, physAddr, st') →
    ∀ other size', held other = some size' → other + size' ≤ block ∨ block + size ≤ other
  grows : ∀ {held st size align phys block physAddr st'}, pool.Holds held st →
    kmalloc size align phys st = some (block, physAddr, st') → ∀ page, pool.own page →
    EntryKept pool.own page (st.entry st.kernelDir page) (st'.entry st'.kernelDir page)
  mem : ∀ {held st size align phys block physAddr st'}, pool.Holds held st →
    kmalloc size align phys st = some (block, physAddr, st') → ∀ address,
    held.Contain address ∨ ¬ Guarded pool.own st address → st'.mem address = st.mem address
  heaps : ∀ {held st size align phys block physAddr st'}, pool.Holds held st →
    kmalloc size align phys st = some (block, physAddr, st') → ∀ record,
    record ≠ st.kernelHeap → st'.heaps record = st.heaps record

section

variable {kmalloc : Kmalloc} {kfree : Kfree} {pool : BlockPool kmalloc kfree}
variable {live bytes records : Nat → Prop} {held : Blocks} {st st' : Kernel}

/-- The bytes lie in blocks in use or outside the kernel heap, and the records are not its own. -/
structure Untouchable (own bytes records : Nat → Prop) (held : Blocks) (st : Kernel) : Prop where
  bytes : ∀ address, bytes address → held.Contain address ∨ ¬ Guarded own st address
  records : ∀ record, records record → record ≠ st.kernelHeap

theorem Untouchable.later {own : Nat → Prop} {held' : Blocks}
    (h : Untouchable own bytes records held st) (grow : held.Grow held')
    (kernelHeap : st'.kernelHeap = st.kernelHeap)
    : Untouchable own bytes records held' st' where
  bytes address kept := by
    rw [Guarded, kernelHeap]
    exact (h.bytes address kept).imp_left (·.grow grow)
  records := by
    rw [kernelHeap]
    exact h.records

theorem QuietPool.request (quiet : QuietPool pool) (h : Spaces pool live held st)
    (safe : Untouchable pool.own bytes records held st) {size align block physAddr : Nat}
    {phys : Bool} (served : kmalloc size align phys st = some (block, physAddr, st'))
    : OthersKept pool.own live bytes records st st' := by
  obtain ⟨held', -, out⟩ := h.request served
  have slots (dir : Nat) (alive : live dir) (slot : Nat)
      (populated : (st.dirs dir).tables slot ≠ 0)
      : (st'.dirs dir).tables slot = (st.dirs dir).tables slot := by
    by_cases kernel : dir = st.kernelDir
    · subst kernel
      have same := out.slots slot populated
      rw [Kernel.kernelTables, out.kernelDir] at same
      exact same
    · rw [out.dirs dir (h.owned.dirs dir alive) kernel]
  refine ⟨out.kernelHeap, out.kernelDir, fun dir alive slot _ => slots dir alive slot,
    fun slot below none elsewhere => ?_, fun dir alive page small => ?_,
    fun address kept => quiet.mem h.holds served address (safe.bytes address kept),
    fun record kept => quiet.heaps h.holds served record (safe.records record kept)⟩
  · rcases out.slot below with same | new
    · exact same.trans none
    · obtain ⟨page, isOwn, there⟩ := out.region slot _ new
      exact absurd there (elsewhere page isOwn)
  · by_cases isOwn : pool.own page
    · by_cases kernel : dir = st.kernelDir
      · have grown := quiet.grows h.holds served page isOwn
        rw [out.kernelDir, ← kernel] at grown
        exact grown
      · have unchanged := out.dirs dir (h.owned.dirs dir alive) kernel
        by_cases none : (st.dirs dir).tables (page / 1024) = 0
        · left
          rw [Kernel.entry, Kernel.entry, if_pos none, if_pos (by rw [unchanged]; exact none)]
        · by_cases shared : (st.dirs st.kernelDir).tables (page / 1024)
              = (st.dirs dir).tables (page / 1024)
          · have later : (st'.dirs st'.kernelDir).tables (page / 1024)
                = (st'.dirs dir).tables (page / 1024) := by
              rw [out.kernelDir, slots _ h.owned.kernelDir _ (shared ▸ none), unchanged, shared]
            rw [← entry_shared shared, ← entry_shared later]
            exact quiet.grows h.holds served page isOwn
          · left
            rw [Kernel.entry, Kernel.entry, Kernel.entryRef, Kernel.entryRef, unchanged,
              if_neg none, if_neg none]
            exact out.pages _ (h.owned.tables dir alive _ (page_slot small) none).1
              (h.owned.notOwn pool.bounded alive (page_slot small) ⟨none, shared⟩ _)
    · left
      exact (out.undisturbed h.owned pool.bounded).entries dir alive page small isOwn

/-- A table for a page of a directory that is not the kernel's. -/
theorem QuietPool.getPage (quiet : QuietPool pool) (h : Spaces pool live held st)
    (safe : Untouchable pool.own bytes records held st) {dir address : Nat} (alive : live dir)
    (other : dir ≠ st.kernelDir) {page : Option PageRef}
    (run : getPage kmalloc address true dir st = some (page, st'))
    : OthersKept pool.own live bytes records st st' := by
  rw [DeadKernel.getPage] at run
  by_cases there : (st.dirs dir).tables (pageIndex address) ≠ 0
  · rw [if_pos there] at run
    obtain ⟨-, rfl⟩ := Prod.mk.inj (Option.some.inj run)
    exact .refl _ _ _ _ _
  · simp only [if_neg there, if_true, Option.bind_eq_bind, Option.bind_eq_some_iff] at run
    obtain ⟨⟨table, physAddress, served⟩, request, run⟩ := run
    obtain ⟨-, rfl⟩ := Prod.mk.inj (Option.some.inj run)
    obtain ⟨held', spaces, out⟩ := h.request request
    have unused : ∀ dir', live dir' → ∀ slot < tablesInDir, (served.dirs dir').tables slot ≠ table :=
      fun dir' alive' slot below => h.owned.unused out alive' below
    have empty : (served.dirs dir).tables (pageIndex address) = 0 := by
      rw [out.dirs dir (h.owned.dirs dir alive) other]
      exact not_not.mp there
    refine (quiet.request h safe request).trans ⟨rfl, rfl, fun dir' alive' slot below populated => ?_,
      fun slot below none _ => ?_, fun dir' alive' page small => Or.inl ?_, fun _ _ => rfl,
      fun _ _ => rfl⟩
    · refine (setSlot_table served dir (pageIndex address) table _ dir' slot).trans (if_neg ?_)
      rintro ⟨rfl, rfl⟩
      exact populated empty
    · refine (setSlot_table served dir (pageIndex address) table _ served.kernelDir slot).trans
        ((if_neg ?_).trans none)
      exact fun here => other (here.1.symm.trans out.kernelDir)
    · exact entry_newTable empty unused alive' small

/-- `getPage` fills empty slots only. -/
theorem Spaces.getPage_slots (h : Spaces pool live held st)
    {dir address : Nat} (alive : live dir) (other : dir ≠ st.kernelDir) {page : Option PageRef}
    (run : DeadKernel.getPage kmalloc address true dir st = some (page, st')) {slot : Nat}
    (populated : (st.dirs dir).tables slot ≠ 0)
    : (st'.dirs dir).tables slot = (st.dirs dir).tables slot := by
  rw [DeadKernel.getPage] at run
  by_cases there : (st.dirs dir).tables (pageIndex address) ≠ 0
  · rw [if_pos there] at run
    obtain ⟨-, rfl⟩ := Prod.mk.inj (Option.some.inj run)
    rfl
  · simp only [if_neg there, if_true, Option.bind_eq_bind, Option.bind_eq_some_iff] at run
    obtain ⟨⟨table, physAddress, served⟩, request, run⟩ := run
    obtain ⟨-, rfl⟩ := Prod.mk.inj (Option.some.inj run)
    obtain ⟨held', -, out⟩ := h.request request
    refine (setSlot_table served dir (pageIndex address) table _ dir slot).trans ?_
    rw [if_neg, out.dirs dir (h.owned.dirs dir alive) other]
    rintro ⟨-, rfl⟩
    exact there populated

/-- An entry of a table that a directory has for itself is in no other directory. -/
theorem Ownership.entry_setPage_elsewhere (h : Ownership live held st) {dir page dir' : Nat}
    (alive : live dir) (small : page < addressPages)
    (mine : PrivateTable st dir (page / 1024)) (alive' : live dir') (other : dir' ≠ dir)
    {frames : Nat → BitVec 32} {entry : Page} {page' : Nat} (small' : page' < addressPages)
    : ({ st with frames }.setPage (st.entryRef dir page) entry).entry dir' page'
      = st.entry dir' page' := by
  have elsewhere : st.entryRef dir' page' ≠ st.entryRef dir page := by
    intro same
    exact other (h.sole dir alive _ (page_slot small) mine dir' alive' _ (page_slot small')
      (Prod.mk.inj same).1).1
  have kept : ({ st with frames }.setPage (st.entryRef dir page) entry).page (st.entryRef dir' page')
      = { st with frames }.page (st.entryRef dir' page') := Kernel.page_setPage_other elsewhere
  rw [Kernel.entry, Kernel.entry]
  split
  · rename_i none
    rw [if_pos (by exact none)]
  · rename_i some
    rw [if_neg (by exact some)]
    exact kept

end

end DeadKernel
