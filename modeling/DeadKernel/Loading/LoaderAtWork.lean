import DeadKernel.Loading.SectionCoverage
import DeadKernel.Memory.OthersKept

/-! The loader at work in a new directory, as the others see it. A new directory has all tables of
the kernel directory, so an entry that the loader fills there is filled in every address space; and
the loader goes wherever the image tells it to.
-/

namespace DeadKernel

open Words

-----------------------------------------------------------------------------------------
-- The loader at work
-----------------------------------------------------------------------------------------

/-- A visit leaves the entry alone, or goes to a table of the directory's own. -/
def MayVisit (own : Nat → Prop) (st : Kernel) (dir page : Nat) : Prop :=
  (st.entry dir page).frame ≠ 0
    ∨ st.kernelTables (page / 1024) = 0 ∧ ∀ other, own other → other / 1024 ≠ page / 1024

/-- Nothing is there yet that a byte could be written to. -/
def MayWrite (own : Nat → Prop) (st : Kernel) (dir page : Nat) : Prop :=
  ¬ own page ∧ (st.entry dir page).present = false

/-- The new directory beside the others, before the loader's first visit. -/
structure SecludedStart (own others bytes records : Nat → Prop) (known : Blocks) (first : Kernel)
    (dir spare heap : Nat)
    : Prop where
  filling : FillingStart (fun other => others other ∨ other = dir) first dir spare
  kernel : others first.kernelDir
  notOther : ¬ others dir
  safe : Untouchable own bytes records known first
  header : ∀ address, bytes address → ¬ (heap ≤ address ∧ address < heap + sizeofHeap)
    ∧ ¬ (heapStart ≤ address ∧ address < heapStart + minChunkSize)
  record : ∀ record, records record → record ≠ heap

/-- The loader at work in the directory `dir`, beside the directories `others`. -/
structure AtWork {kmalloc : Kmalloc} {kfree : Kfree} (pool : BlockPool kmalloc kfree)
    (others : Nat → Prop) (known : Blocks) (first : Kernel) (dir : Nat) (st : Kernel)
    : Prop where
  spaces : ∃ held, Spaces pool (fun other => others other ∨ other = dir) held st ∧ known.Grow held
  currentDir : st.currentDir = dir
  kernelHeap : st.kernelHeap = first.kernelHeap
  kernelDir : st.kernelDir = first.kernelDir
  shares : ∀ slot < tablesInDir, (first.dirs dir).tables slot ≠ 0 →
    (st.dirs dir).tables slot = (first.dirs dir).tables slot

/-- What the others see of it. As long as the frame `spare` is free, the new pages have frames that
were free, and no other frames are written to.
-/
structure Secluded {kmalloc : Kmalloc} {kfree : Kfree} (pool : BlockPool kmalloc kfree)
    (others bytes records : Nat → Prop) (known : Blocks) (first : Kernel) (dir spare : Nat)
    (st : Kernel)
    : Prop extends AtWork pool others known first dir st where
  kept : OthersKept pool.own others bytes records first st
  steady : ∀ page < addressPages, (first.entry dir page).frame ≠ 0 →
    st.entry dir page = first.entry dir page
  marked : ∀ frame, frameBit first.frames frame = true → frameBit st.frames frame = true
  fresh : frameBit st.frames spare = false → ∀ page < addressPages, ¬ pool.own page →
    st.entry dir page = first.entry dir page
      ∨ frameBit first.frames (st.entry dir page).frame = false
  ram : frameBit st.frames spare = false → ∀ frame, frameBit first.frames frame = true →
    st.ram frame = first.ram frame

section

variable {kmalloc : Kmalloc} {kfree : Kfree} {pool : BlockPool kmalloc kfree}
variable {others bytes records : Nat → Prop} {known : Blocks} {dir spare heap : Nat}
variable {first st st' : Kernel}

theorem AtWork.getPage (h : AtWork pool others known first dir st)
    (notKernel : dir ≠ first.kernelDir) {address : Nat} (small : address < wordSize)
    {page : Option PageRef} (run : getPage kmalloc address true dir st = some (page, st'))
    : AtWork pool others known first dir st'
      ∧ page = some (st'.entryRef dir (addr2Frame address))
      ∧ (st'.dirs dir).tables (addr2Frame address / 1024) ≠ 0
      ∧ Undisturbed pool.own (fun other => others other ∨ other = dir) st st' := by
  obtain ⟨held, spaces, grow⟩ := h.spaces
  have other : dir ≠ st.kernelDir := by
    rw [h.kernelDir]
    exact notKernel
  obtain ⟨here, table, calm, held', spaces', grow'⟩ := spaces.getPage (Or.inr rfl) small
    (fun kernel => absurd kernel other) run
  refine ⟨⟨⟨held', spaces', grow.trans grow'⟩, calm.currentDir.trans h.currentDir,
    calm.kernelHeap.trans h.kernelHeap, calm.kernelDir.trans h.kernelDir,
    fun slot below populated => ?_⟩, here, table, calm⟩
  have same := h.shares slot below populated
  rw [spaces.getPage_slots (Or.inr rfl) other run (by rw [same]; exact populated), same]

theorem AtWork.allocFrame (h : AtWork pool others known first dir st) {page isWriteable : Nat}
    (small : page < addressPages) (table : (st.dirs dir).tables (page / 1024) ≠ 0)
    (run : allocFrame (st.entryRef dir page) 0 isWriteable st = some st')
    : AtWork pool others known first dir st' := by
  obtain ⟨held, spaces, grow⟩ := h.spaces
  have mine : held (st.entryRef dir page).1 ≠ none :=
    (spaces.owned.tables dir (Or.inr rfl) _ (page_slot small) table).1
  have next := spaces.allocFrame mine run
  rcases allocFrame_spec run with ⟨-, rfl⟩ | ⟨-, rfl⟩
  · exact h
  · exact ⟨⟨held, next, grow⟩, h.currentDir, h.kernelHeap, h.kernelDir, h.shares⟩

theorem AtWork.withRam (h : AtWork pool others known first dir st) (ram : Nat → Nat → UInt8)
    : AtWork pool others known first dir { st with ram } := by
  obtain ⟨held, spaces, grow⟩ := h.spaces
  exact ⟨⟨held, spaces.withRam ram, grow⟩, h.currentDir, h.kernelHeap, h.kernelDir, h.shares⟩

/-- A mark that is not there was never there. -/
theorem unmarked_before {frames frames' : Nat → BitVec 32} {frame : Nat}
    (marked : ∀ frame, frameBit frames frame = true → frameBit frames' frame = true)
    (free : frameBit frames' frame = false)
    : frameBit frames frame = false := by
  refine Bool.eq_false_iff.mpr (fun busy => ?_)
  rw [marked frame busy] at free
  exact Bool.false_ne_true free.symm

theorem Secluded.getPage (h : Secluded pool others bytes records known first dir spare st)
    (start : SecludedStart pool.own others bytes records known first dir spare heap)
    (quiet : QuietPool pool) {address : Nat} (small : address < wordSize) {page : Option PageRef}
    (run : getPage kmalloc address true dir st = some (page, st'))
    : Secluded pool others bytes records known first dir spare st' := by
  obtain ⟨held, spaces, grow⟩ := h.spaces
  have other : dir ≠ st.kernelDir := by
    rw [h.kernelDir]
    exact start.filling.notKernel
  obtain ⟨work, -, -, calm⟩ := h.toAtWork.getPage start.filling.notKernel small run
  have more := quiet.getPage spaces (start.safe.later grow h.kernelHeap) (Or.inr rfl) other run
  have before (free : frameBit st'.frames spare = false) : frameBit st.frames spare = false :=
    unmarked_before calm.marked free
  refine { work with
    kept := h.kept.trans (more.mono (fun _ => Or.inl))
    steady := fun page small populated => ?_
    marked := fun frame busy => calm.marked frame (h.marked frame busy)
    fresh := fun free page small notOwn => ?_
    ram := fun free => ?_ }
  · have same := h.steady page small populated
    rw [(more.entries dir (Or.inr rfl) page small).same (Or.inr (by rw [same]; exact populated)),
      same]
  · rw [calm.entries dir (Or.inr rfl) page small notOwn]
    exact h.fresh (before free) page small notOwn
  · rw [calm.ram]
    exact h.ram (before free)

/-- `allocFrame` leaves an entry with a frame alone; another one gets a frame that is free, as long
as there are any.
-/
theorem allocFrame_fresh {ref : PageRef} {isKernel isWriteable : Nat}
    (zero : frameBit st.frames 0 = true) (bounded : spare < nframes)
    (run : allocFrame ref isKernel isWriteable st = some st')
    : (st.page ref).frame ≠ 0 ∧ st' = st
      ∨ (st.page ref).frame = 0 ∧ ∃ frames entry, st' = { st with frames }.setPage ref entry
        ∧ (∀ frame, frameBit st.frames frame = true → frameBit frames frame = true)
        ∧ (frameBit frames spare = false → frameBit st.frames entry.frame = false) := by
  rcases allocFrame_spec run with populated | ⟨empty, rfl⟩
  · exact Or.inl populated
  · refine Or.inr ⟨empty, _, _, rfl, fun frame busy => frameBit_setFrame_of busy, fun free => ?_⟩
    rw [frameBit_setFrame, Bool.or_eq_false_iff] at free
    obtain ⟨-, bound, clear⟩ := firstFrame_free zero bounded free.2
    have whole : firstFrame st % 1048576 = firstFrame st := by
      simp only [nframes] at bound
      exact Nat.mod_eq_of_lt (by omega)
    dsimp only
    rw [whole]
    exact clear

theorem Secluded.allocFrame (h : Secluded pool others bytes records known first dir spare st)
    (start : SecludedStart pool.own others bytes records known first dir spare heap)
    {page isWriteable : Nat} (small : page < addressPages)
    (table : (st.dirs dir).tables (page / 1024) ≠ 0) (may : MayVisit pool.own first dir page)
    (run : allocFrame (st.entryRef dir page) 0 isWriteable st = some st')
    : Secluded pool others bytes records known first dir spare st' := by
  obtain ⟨held, spaces, grow⟩ := h.spaces
  have work := h.toAtWork.allocFrame small table run
  have entry : st.entry dir page = st.page (st.entryRef dir page) := by
    rw [Kernel.entry, if_neg table]
  rcases allocFrame_fresh (h.marked 0 start.filling.zero) start.filling.bounded run with
    ⟨-, rfl⟩ | ⟨empty, frames, value, rfl, marked, taken⟩
  · exact h
  rw [← entry] at empty
  have unmapped : (first.entry dir page).frame = 0 := by
    by_contra populated
    rw [h.steady page small populated] at empty
    exact populated empty
  obtain ⟨none, elsewhere⟩ := may.resolve_left (not_not.mpr unmapped)
  have kernelNone : st.kernelTables (page / 1024) = 0 :=
    h.kept.unshared _ (page_slot small) none elsewhere
  have alone : PrivateTable st dir (page / 1024) :=
    ⟨table, fun same => table (same.symm.trans kernelNone)⟩
  have same (page' : Nat) (small' : page' < addressPages) (other : page' ≠ page)
      : ({ st with frames }.setPage (st.entryRef dir page) value).entry dir page'
        = st.entry dir page' :=
    spaces.owned.entry_setPage_other (Or.inr rfl) small table value other small'
  have here : ({ st with frames }.setPage (st.entryRef dir page) value).entry dir page = value :=
    entry_setPage { st with frames } table value
  have before (free : frameBit frames spare = false) : frameBit st.frames spare = false :=
    unmarked_before marked free
  refine { work with
    kept := h.kept.trans { OthersKept.refl pool.own others bytes records st with
      entries := fun dir' alive page' small' => Or.inl ?_ }
    steady := fun page' small' populated => ?_
    marked := fun frame busy => marked frame (h.marked frame busy)
    fresh := fun free page' small' notOwn => ?_
    ram := fun free => h.ram (before free) }
  · exact spaces.owned.entry_setPage_elsewhere (Or.inr rfl) small alone (Or.inl alive)
      (fun same => start.notOther (same ▸ alive)) small'
  · rw [same page' small' (fun there => populated (there ▸ unmapped))]
    exact h.steady page' small' populated
  · by_cases there : page' = page
    · rw [there, here]
      exact Or.inr (unmarked_before h.marked (taken free))
    · rw [same page' small' there]
      exact h.fresh (before free) page' small' notOwn

theorem page_inside {address : Nat} (small : address < wordSize)
    : address / pageSize < addressPages := by
  simp only [wordSize, pageSize, addressPages] at small ⊢
  omega

/-- A round of the loader's loops looks an entry up and maps it. -/
theorem AtWork.allocPage_stages (h : AtWork pool others known first dir st)
    (notKernel : dir ≠ first.kernelDir) {i isWriteable : Nat} (small : i < wordSize)
    (run : allocPage kmalloc true 0 isWriteable i st = some st')
    : ∃ page found, DeadKernel.getPage kmalloc i true dir st = some (page, found)
        ∧ AtWork pool others known first dir found
        ∧ (found.dirs dir).tables (i / pageSize / 1024) ≠ 0
        ∧ DeadKernel.allocFrame (found.entryRef dir (i / pageSize)) 0 isWriteable found
          = some st' := by
  simp only [DeadKernel.allocPage, Option.bind_eq_bind, Option.bind_eq_some_iff] at run
  obtain ⟨⟨page, found⟩, look, ref, there, run⟩ := run
  rw [h.currentDir] at look
  obtain ⟨mid, here, table, -⟩ := h.getPage notKernel small look
  dsimp only at there
  rw [here, Option.some.injEq] at there
  subst there
  exact ⟨page, found, look, mid, table, run⟩

theorem AtWork.visits (notKernel : dir ≠ first.kernelDir)
    : KeptByVisits kmalloc (fun _ st => AtWork pool others known first dir st) := by
  refine ⟨fun small h run => ?_⟩
  obtain ⟨page, found, -, mid, table, taken⟩ := h.allocPage_stages notKernel small run
  exact mid.allocFrame (page_inside small) table taken

theorem Secluded.visits (quiet : QuietPool pool)
    (start : SecludedStart pool.own others bytes records known first dir spare heap)
    : KeptByVisits kmalloc (fun rights st =>
        (∀ page, rights page ≠ none → MayVisit pool.own first dir page) →
        Secluded pool others bytes records known first dir spare st) := by
  refine ⟨fun small h run may => ?_⟩
  have secluded := h (fun page visited =>
    may page (fun unvisited => visited (Rights.visit_none.mp unvisited).1))
  obtain ⟨page, found, look, -, table, taken⟩ :=
    secluded.allocPage_stages start.filling.notKernel small run
  refine (secluded.getPage start quiet small look).allocFrame start (page_inside small) table
    (may _ (fun unvisited => ?_)) taken
  simpa using (Rights.visit_none.mp unvisited).2

-----------------------------------------------------------------------------------------
-- Bytes written to pages
-----------------------------------------------------------------------------------------

/-- A copy that ends has found all its pages. -/
theorem copyBytes_present {source : Nat → UInt8} {len k dest : Nat} (small : dest < wordSize)
    (run : copyBytes source len k dest st = some st')
    : ∀ j < len, (st.entry st.currentDir (u32 (dest + j) / pageSize)).present = true := by
  induction len generalizing k dest st with
  | zero => exact fun j none => absurd none (Nat.not_lt_zero j)
  | succ len ih =>
      obtain ⟨mid, one, rest⟩ := Option.bind_eq_some_iff.mp run
      obtain ⟨present, ram, rfl, -⟩ := storeByte_spec one
      intro j below
      cases j with
      | zero =>
          rw [Nat.add_zero, u32_of_lt small]
          exact present
      | succ j =>
          have later := ih (u32_lt _) rest j (Nat.lt_of_succ_lt_succ below)
          rw [u32_add, Nat.add_assoc, Nat.add_comm 1 j] at later
          exact later

/-- A copy to pages where nothing was before goes to frames that were free. -/
theorem Secluded.copyBytes (h : Secluded pool others bytes records known first dir spare st)
    {source : Nat → UInt8} {len k dest : Nat} (small : dest < wordSize)
    (may : ∀ j < len, MayWrite pool.own first dir (u32 (dest + j) / pageSize))
    (run : copyBytes source len k dest st = some st')
    : Secluded pool others bytes records known first dir spare st' := by
  have present := copyBytes_present small run
  obtain ⟨ram, rfl, kept⟩ := copyBytes_places small run
  refine { h.toAtWork.withRam ram with
    kept := h.kept.trans { OthersKept.refl pool.own others bytes records st with
      entries := fun _ _ _ _ => Or.inl rfl }
    steady := h.steady
    marked := h.marked
    fresh := h.fresh
    ram := fun free frame busy => ?_ }
  rw [← h.ram free frame busy]
  funext offset
  refine kept (frame, offset) (fun j below same => ?_)
  obtain ⟨notOwn, absent⟩ := may j below
  have there := present j below
  have frames : (st.entry st.currentDir (u32 (dest + j) / pageSize)).frame = frame :=
    (Prod.mk.inj same).1
  rw [h.currentDir] at there frames
  rcases h.fresh free _ (page_inside (u32_lt _)) notOwn with before | taken
  · rw [before, absent] at there
    exact Bool.false_ne_true there
  · rw [frames, busy] at taken
    exact Bool.false_ne_true taken.symm

theorem AtWork.createHeap (h : AtWork pool others known first dir st)
    (layout : KernelLayout pool first) (block : HeapBlock known first heap) {made : Kernel}
    (created : createHeap heap dir heapStart (heapStart + heapMinSize) heapMax 0 0 st = some made)
    : ∃ value m, made = { st.setHeap heap value with mem := m }
        ∧ ChangedOnly (fun byte => heap ≤ byte ∧ byte < heap + sizeofHeap
            ∨ heapStart ≤ byte ∧ byte < heapStart + minChunkSize) st.mem m
        ∧ AtWork pool others known first dir { st.setHeap heap value with mem := m } := by
  obtain ⟨held, spaces, grow⟩ := h.spaces
  obtain ⟨value, m, rfl, changed, writes⟩ := createHeap_spec (layout.congr h.kernelHeap)
    (block.later grow h.kernelHeap) created
  exact ⟨value, m, rfl, changed, ⟨held, ⟨pool.keeps spaces.holds writes,
    spaces.owned.of_dirs (fun _ => id) rfl (fun _ _ => rfl)⟩, grow⟩, h.currentDir, h.kernelHeap,
    h.kernelDir, h.shares⟩

theorem AtWork.createTaskHeap (h : AtWork pool others known first dir st)
    (layout : KernelLayout pool first) (block : HeapBlock known first heap)
    (run : createTaskHeap heap dir st = some st')
    : AtWork pool others known first dir st' := by
  obtain ⟨made, created, copied⟩ := Option.bind_eq_some_iff.mp run
  obtain ⟨value, m, rfl, -, work⟩ := h.createHeap layout block created
  obtain ⟨ram, rfl, -⟩ := copyBytes_places (by decide) copied
  exact work.withRam ram

theorem Secluded.createTaskHeap (h : Secluded pool others bytes records known first dir spare st)
    (start : SecludedStart pool.own others bytes records known first dir spare heap)
    (layout : KernelLayout pool first) (block : HeapBlock known first heap)
    (may : MayWrite pool.own first dir (heapStart / pageSize))
    (run : createTaskHeap heap dir st = some st')
    : Secluded pool others bytes records known first dir spare st' := by
  obtain ⟨made, created, copied⟩ := Option.bind_eq_some_iff.mp run
  obtain ⟨value, m, rfl, changed, work⟩ := h.toAtWork.createHeap layout block created
  have headed : Secluded pool others bytes records known first dir spare
      { st.setHeap heap value with mem := m } := { work with
    kept := h.kept.trans { OthersKept.refl pool.own others bytes records st with
      entries := fun _ _ _ _ => Or.inl rfl
      mem := fun address kept => changed address (fun touched =>
        touched.elim (start.header address kept).1 (start.header address kept).2)
      heaps := fun record kept => update_other (start.record record kept) }
    steady := h.steady
    marked := h.marked
    fresh := h.fresh
    ram := h.ram }
  refine headed.copyBytes (by decide) (fun j below => ?_) copied
  have page : u32 (heapStart + j) / pageSize = heapStart / pageSize := by
    simp only [minChunkSize, heapStart, pageSize, u32, wordSize] at below ⊢
    omega
  rw [page]
  exact may

/-- The loop over the segments, by induction on them. -/
theorem Secluded.loadSegments {hdr : ElfObj} {programs : List ProgramHeader}
    (h : Secluded pool others bytes records known first dir spare st)
    (may : ∀ ph ∈ programs, ph.type = ptLoad → ∀ k < ph.filesz,
      MayWrite pool.own first dir (u32 (ph.vaddr + k) / pageSize))
    (run : programs.foldlM (fun st ph => loadSegment hdr ph st) st = some st')
    : Secluded pool others bytes records known first dir spare st'
      ∧ ∀ ph ∈ programs, ph.type = ptLoad → ∀ k < ph.filesz,
        (st'.entry dir (u32 (ph.vaddr + k) / pageSize)).present = true := by
  induction programs generalizing st with
  | nil =>
      obtain rfl := Option.some.inj run
      exact ⟨h, fun ph none => absurd none List.not_mem_nil⟩
  | cons ph rest ih =>
      rw [List.foldlM_cons] at run
      obtain ⟨mid, one, others⟩ := Option.bind_eq_some_iff.mp run
      have later := fun ph' member => may ph' (List.mem_cons_of_mem ph member)
      obtain ⟨ram, rfl⟩ := loadSegment_only one
      obtain ⟨ram', rfl⟩ := loadSegments_only others
      rw [loadSegment] at one
      split at one
      · rename_i load
        have present := copyBytes_present ph.vaddr_lt one
        rw [h.currentDir] at present
        obtain ⟨done, there⟩ := ih
          (h.copyBytes ph.vaddr_lt (may ph List.mem_cons_self load) one) later others
        refine ⟨done, fun ph' member load' k below => ?_⟩
        rcases List.mem_cons.mp member with rfl | member
        · exact present k below
        · exact there ph' member load' k below
      · rename_i ignored
        obtain ⟨done, there⟩ := ih (Option.some.inj one ▸ h) later others
        refine ⟨done, fun ph' member load' k below => ?_⟩
        rcases List.mem_cons.mp member with rfl | member
        · exact absurd load' ignored
        · exact there ph' member load' k below

theorem AtWork.fillSpace (h : AtWork pool others known first dir first)
    (notKernel : dir ≠ first.kernelDir) (layout : KernelLayout pool first)
    (block : HeapBlock known first heap) {hdr : ElfObj}
    (run : fillSpace kmalloc hdr heap dir first = some st')
    : AtWork pool others known first dir st' := by
  have rule : KeptByVisits kmalloc (fun _ st => AtWork pool others known first dir st) :=
    AtWork.visits notKernel
  obtain ⟨st, mid, copied⟩ := KeptByVisits.fillSpace rule
    (fun work run => work.createTaskHeap layout block run) h run
  obtain ⟨ram, rfl⟩ := loadSegments_only copied
  exact mid.withRam ram

theorem Secluded.fillSpace (h : Secluded pool others bytes records known first dir spare first)
    (start : SecludedStart pool.own others bytes records known first dir spare heap)
    (quiet : QuietPool pool) (layout : KernelLayout pool first) (block : HeapBlock known first heap)
    {hdr : ElfObj}
    (visits : ∀ page, taskRights hdr.sections page ≠ none → MayVisit pool.own first dir page)
    (header : MayWrite pool.own first dir (heapStart / pageSize))
    (segments : ∀ ph ∈ hdr.programs, ph.type = ptLoad → ∀ k < ph.filesz,
      MayWrite pool.own first dir (u32 (ph.vaddr + k) / pageSize))
    (run : fillSpace kmalloc hdr heap dir first = some st')
    : Secluded pool others bytes records known first dir spare st'
      ∧ ∀ ph ∈ hdr.programs, ph.type = ptLoad → ∀ k < ph.filesz,
        (st'.entry dir (u32 (ph.vaddr + k) / pageSize)).present = true := by
  have rule : KeptByVisits kmalloc (fun rights st =>
      (∀ page, rights page ≠ none → MayVisit pool.own first dir page) →
      Secluded pool others bytes records known first dir spare st) :=
    Secluded.visits quiet start
  obtain ⟨st, mid, copied⟩ := KeptByVisits.fillSpace rule
    (fun work run may => (work may).createTaskHeap start layout block header run) (fun _ => h) run
  exact (mid visits).loadSegments segments copied

end

end DeadKernel
