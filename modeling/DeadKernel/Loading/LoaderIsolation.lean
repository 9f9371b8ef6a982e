import DeadKernel.Loading.LoaderAtWork
import DeadKernel.Memory.DirectoryBase

/-! Which images are loaded without a trace in the address spaces of others. The modules that come
with the kernel are not: their linker script puts `.module_info` at address 0, where the kernel maps
frame 0, and an entry with that frame counts as one that is not mapped.
-/

namespace DeadKernel

open Words

-----------------------------------------------------------------------------------------
-- The new directory and the others
-----------------------------------------------------------------------------------------

section

variable {kmalloc : Kmalloc} {kfree : Kfree} {pool : BlockPool kmalloc kfree}
variable {bytes records : Nat → Prop} {st : Kernel}

/-- While the new directory comes about, nothing happens to the others, and it shows the pages that
the kernel directory maps. The block for the `Heap_t` lies apart from those in use before.
-/
theorem SpaceStages.kept {live : Nat → Prop} {held : Blocks} {hdr : ElfObj} {space : NewSpace}
    {taken served cloned given filled : Kernel}
    (stages : SpaceStages kmalloc hdr st space taken served cloned given filled)
    (quiet : QuietPool pool) (h : Spaces pool live held st)
    (safe : Untouchable pool.own bytes records held st)
    : OthersKept pool.own live bytes records st given
      ∧ (∀ page < addressPages, (st.entry st.kernelDir page).frame ≠ 0 →
        given.entry space.dir page = st.entry st.kernelDir page)
      ∧ (∀ slot < tablesInDir, st.kernelTables slot ≠ 0 →
        (given.dirs space.dir).tables slot = st.kernelTables slot)
      ∧ held space.heap = none
      ∧ ∀ other size, held other = some size →
        other + size ≤ space.heap ∨ space.heap + sizeofHeap ≤ other := by
  obtain ⟨_, taskBlock⟩ := stages.task
  obtain ⟨_, dirBlock⟩ := stages.dir
  obtain ⟨_, heapBlock⟩ := stages.heap
  obtain ⟨value, rfl, copied⟩ := stages.clone
  obtain ⟨held₁, spaces₁, out₁⟩ := h.request taskBlock
  obtain ⟨held₂, spaces₂, grow₂, -, notLive, -⟩ :=
    spaces₁.cloneDir (out₁.kernelDir ▸ stages.cloneDir)
  obtain ⟨held₃, -, out₃⟩ := spaces₂.request heapBlock
  have kept₁ := quiet.request h safe taskBlock
  have kept₂ := kept₁.trans
    (quiet.request spaces₁ (safe.later out₁.grow kept₁.kernelHeap) dirBlock)
  have copying : OthersKept pool.own live bytes records served
      { served with dirs := update served.dirs space.dir value } :=
    .newDir (stages.kernelDir ▸ h.owned.kernelDir) notLive value
  have grow : held.Grow held₂ := out₁.grow.trans grow₂
  have kept₃ := kept₂.trans copying
  have last := quiet.request spaces₂ (safe.later grow kept₃.kernelHeap) heapBlock
  refine ⟨kept₃.trans (last.mono (fun _ => Or.inl)), fun page small populated => ?_,
    fun slot below populated => ?_, ?_, ?_⟩
  · have before := (kept₂.entries st.kernelDir h.owned.kernelDir page small).same (Or.inr populated)
    have clone : ({ served with dirs := update served.dirs space.dir value } : Kernel).entry
        space.dir page = st.entry st.kernelDir page := by
      rw [entry_clone copied small, stages.kernelDir, before]
    rw [(last.entries space.dir (Or.inr rfl) page small).same (Or.inr (by rw [clone]; exact populated)),
      clone]
  · have before : served.kernelTables slot = st.kernelTables slot := by
      rw [Kernel.kernelTables, stages.kernelDir]
      exact kept₂.slots st.kernelDir h.owned.kernelDir slot below populated
    have clone : (update served.dirs space.dir value space.dir).tables slot
        = st.kernelTables slot := by
      rw [update_self, copied slot below, before]
    exact (last.slots space.dir (Or.inr rfl) slot below (by rw [clone]; exact populated)).trans
      clone
  · by_contra known
    exact grow.more known out₃.fresh
  · intro other size known
    refine quiet.apart spaces₂.holds heapBlock other size ?_
    rw [grow other (by rw [known]; exact Option.some_ne_none _), known]

end

-----------------------------------------------------------------------------------------
-- Isolation
-----------------------------------------------------------------------------------------

/-- A byte that the kernel directory maps and that is neither the kernel heap's own nor in the
`Heap_t` that it hands out.
-/
def ForeignByte (own : Nat → Prop) (held : Blocks) (st : Kernel) (heap address : Nat) : Prop :=
  (st.entry st.kernelDir (address / pageSize)).present = true
    ∧ (held.Contain address
      ∨ ¬ Guarded own st address ∧ ¬ (heap ≤ address ∧ address < heap + sizeofHeap))

/-- A `Heap_t` in use that is not the kernel heap's own. -/
def ForeignRecord (held : Blocks) (st : Kernel) (record : Nat) : Prop :=
  held record ≠ none ∧ record ≠ st.kernelHeap

/-- Making a task changes nothing that the kernel directory or the directory of another task maps,
apart from pages that the kernel heap gets. What is mapped for the task is in tables of its own, and
the bytes of its segments are in frames of its own.
-/
structure LoadIsolated (own live : Nat → Prop) (held : Blocks) (hdr : ElfObj) (task : Nat)
    (sys sys' : System)
    : Prop where
  slots : ∀ dir, live dir → ∀ slot < tablesInDir, (sys.memory.dirs dir).tables slot ≠ 0 →
    (sys'.memory.dirs dir).tables slot = (sys.memory.dirs dir).tables slot
  entries : ∀ dir, live dir → ∀ page < addressPages,
    EntryKept own page (sys.memory.entry dir page) (sys'.memory.entry dir page)
  frames : ∀ dir, live dir → ∀ page < addressPages, (sys.memory.entry dir page).present = true →
    sys'.memory.ram (sys.memory.entry dir page).frame
      = sys.memory.ram (sys.memory.entry dir page).frame
  bytes : ∀ address,
    ForeignByte own held sys.memory (sys'.tasking.tasks (.task task)).heap address →
    sys'.memory.mem address = sys.memory.mem address
  heaps : ∀ record, ForeignRecord held sys.memory record →
    sys'.memory.heaps record = sys.memory.heaps record
  tasks : ∀ node, node ≠ .task task →
    sys'.tasking.tasks node = sys.tasking.tasks node
      ∧ sys'.tasking.links node = sys.tasking.links node
  mappings : ∀ page < addressPages,
    EntryKept own page (sys.memory.entry sys.memory.kernelDir page)
        (sys'.memory.entry (sys'.pageDir task) page)
      ∨ PrivateTable sys'.memory (sys'.pageDir task) (page / 1024)
  segments : ∀ ph ∈ hdr.programs, ph.type = ptLoad → ∀ k < ph.filesz, ∀ dir, live dir →
    ∀ page < addressPages, (sys.memory.entry dir page).present = true →
    (sys'.memory.entry (sys'.pageDir task) (u32 (ph.vaddr + k) / pageSize)).frame
      ≠ (sys.memory.entry dir page).frame

/-- The image has the loader visit only pages that are mapped already, or lie where the kernel has
no table, and write only where the kernel maps nothing.
-/
structure ElfObj.LoadsApart (hdr : ElfObj) (own : Nat → Prop) (st : Kernel) : Prop where
  visits : ∀ page, taskRights hdr.sections page ≠ none → MayVisit own st st.kernelDir page
  header : MayWrite own st st.kernelDir (heapStart / pageSize)
  segments : ∀ ph ∈ hdr.programs, ph.type = ptLoad → ∀ k < ph.filesz,
    MayWrite own st st.kernelDir (u32 (ph.vaddr + k) / pageSize)

/-- The frames of the pages that are there are marked. -/
def Kernel.PresentMarked (st : Kernel) (live : Nat → Prop) : Prop :=
  ∀ dir, live dir → ∀ page < addressPages, (st.entry dir page).present = true →
    frameBit st.frames (st.entry dir page).frame = true

/-- The loops stay in the address space. -/
theorem taskRights_small {sections : List ImageSection} {page : Nat}
    (visited : taskRights sections page ≠ none)
    : page < addressPages := by
  have up {start stop : Nat} (fits : stop < wordSize) (there : pagesUp start stop page = true)
      : page < addressPages := by
    simp only [pagesUp, decide_eq_true_eq, pageSize, wordSize, addressPages] at fits there ⊢
    omega
  rw [taskRights] at visited
  split at visited
  · rename_i there
    rcases Bool.or_eq_true_iff.mp there with stack | heap
    · simp only [stackPages, pagesDown, decide_eq_true_eq, baseProcessEsp, pageSize, addressPages]
        at stack ⊢
      omega
    · exact up (by decide) heap
  · rw [sectionRights, ne_eq, Option.map_eq_none_iff] at visited
    obtain ⟨section_, found⟩ := Option.ne_none_iff_exists'.mp visited
    have there := List.find?_some found
    exact up section_.stop_lt (Bool.and_eq_true_iff.mp there).2

section

variable {kmalloc : Kmalloc} {kfree : Kfree} {pool : BlockPool kmalloc kfree}
variable {live : Nat → Prop} {held : Blocks} {hdr : ElfObj} {sys sys' : System} {task : Nat}

theorem MayVisit.later {own live bytes records : Nat → Prop} {st st' : Kernel} {dir page : Nat}
    (h : MayVisit own st st.kernelDir page) (small : page < addressPages)
    (kept : OthersKept own live bytes records st st')
    (steady : (st.entry st.kernelDir page).frame ≠ 0 →
      st'.entry dir page = st.entry st.kernelDir page)
    : MayVisit own st' dir page := by
  rcases h with populated | ⟨none, elsewhere⟩
  · left
    rw [steady populated]
    exact populated
  · exact Or.inr ⟨kept.unshared _ (page_slot small) none elsewhere, elsewhere⟩

theorem LoadReady.secluded (ready : LoadReady pool live held sys) (quiet : QuietPool pool)
    (apart : hdr.LoadsApart pool.own sys.memory) {space : NewSpace}
    (opened : makeSpace kmalloc hdr sys.memory.kernelDir sys.memory = some space) {spare : Nat}
    (bounded : spare < nframes)
    : ∃ known first filled, OpenedSpace pool live known hdr sys.memory space first filled
        ∧ OthersKept pool.own live (ForeignByte pool.own held sys.memory space.heap)
          (ForeignRecord held sys.memory) sys.memory first
        ∧ Secluded pool live (ForeignByte pool.own held sys.memory space.heap)
          (ForeignRecord held sys.memory) known first space.dir spare filled
        ∧ (∀ ph ∈ hdr.programs, ph.type = ptLoad → ∀ k < ph.filesz,
          (filled.entry space.dir (u32 (ph.vaddr + k) / pageSize)).present = true)
        ∧ ∀ slot < tablesInDir, sys.memory.kernelTables slot ≠ 0 →
          (filled.dirs space.dir).tables slot = sys.memory.kernelTables slot := by
  obtain ⟨taken, served, cloned, given, filled, stages⟩ := ready.spaces.spaceStages opened
  obtain ⟨known, grow, h⟩ := stages.opened ready.spaces ready.layout
  have safe : Untouchable pool.own (ForeignByte pool.own held sys.memory space.heap)
      (ForeignRecord held sys.memory) held sys.memory :=
    ⟨fun address foreign => foreign.2.imp_right And.left, fun record foreign => foreign.2⟩
  obtain ⟨kept, steady, shares, fresh, heapApart⟩ := stages.kept quiet ready.spaces safe
  obtain ⟨filling, -⟩ := h.start ready.zero ready.spaces.owned.kernelDir bounded
  have start : SecludedStart pool.own live (ForeignByte pool.own held sys.memory space.heap)
      (ForeignRecord held sys.memory) known { given with currentDir := space.dir } space.dir spare
      space.heap := {
    filling
    kernel := h.kernelDir ▸ ready.spaces.owned.kernelDir
    notOther := h.notLive
    safe := safe.later grow h.kernelHeap
    header := by
      rintro address ⟨present, foreign⟩
      constructor
      · rintro inside
        rcases foreign with ⟨block, size, isHeld, within⟩ | ⟨-, outside⟩
        · have := heapApart block size isHeld
          omega
        · exact outside inside
      · intro chunk
        have page : address / pageSize = heapStart / pageSize := by
          simp only [heapStart, minChunkSize, pageSize] at chunk ⊢
          omega
        rw [page, apart.header.2] at present
        exact Bool.false_ne_true present
    record := fun record foreign same => foreign.1 (same ▸ fresh)
  }
  have secluded : Secluded pool live (ForeignByte pool.own held sys.memory space.heap)
      (ForeignRecord held sys.memory) known { given with currentDir := space.dir } space.dir spare
      { given with currentDir := space.dir } := {
    spaces := ⟨known, h.spaces, .refl known⟩
    currentDir := rfl
    kernelHeap := rfl
    kernelDir := rfl
    shares := fun _ _ _ => rfl
    kept := .refl _ _ _ _ _
    steady := fun _ _ _ => rfl
    marked := fun _ => id
    fresh := fun _ _ _ _ => Or.inl rfl
    ram := fun _ _ _ => rfl
  }
  have write {page : Nat} (small : page < addressPages)
      (may : MayWrite pool.own sys.memory sys.memory.kernelDir page)
      : MayWrite pool.own { given with currentDir := space.dir } space.dir page := by
    rw [MayWrite, h.entries page small may.1]
    exact may
  obtain ⟨done, present⟩ := secluded.fillSpace start quiet (ready.layout.congr h.kernelHeap) h.block
    (fun page visited => (apart.visits page visited).later (taskRights_small visited)
      (kept.switch _) (steady page (taskRights_small visited)))
    (write (by decide) apart.header)
    (fun ph member load k below => write (page_inside (u32_lt _))
      (apart.segments ph member load k below)) h.fill
  refine ⟨known, _, filled, h, kept.switch _, done, present, fun slot below populated => ?_⟩
  have same := shares slot below populated
  exact (done.shares slot below (by dsimp only; rw [same]; exact populated)).trans same

/-- Images that keep apart are loaded in isolation. -/
theorem ElfObj.LoadsApart.isolated (apart : hdr.LoadsApart pool.own sys.memory)
    (ready : LoadReady pool live held sys) (quiet : QuietPool pool)
    (marked : sys.memory.PresentMarked live)
    (made : makeTaskFromELF kmalloc hdr sys = some (task, sys')) (left : FramesLeft sys'.memory)
    : LoadIsolated pool.own live held hdr task sys sys' := by
  obtain ⟨space, opened, rfl, memory, tasking⟩ := makeTaskFromELF_result ready.kernelTask made
  obtain ⟨spare, bounded, free⟩ := left
  obtain ⟨known, first, filled, h, kept, done, present, shares⟩ :=
    ready.secluded quiet apart opened bounded
  rw [memory, h.memory] at free
  have record : (sys'.tasking.tasks (.task space.task)).heap = space.heap := by
    rw [tasking, allocTask_self]
    rfl
  have dir : sys'.pageDir space.task = space.dir := by
    rw [System.pageDir, tasking, allocTask_self]
    rfl
  have all : OthersKept pool.own live (ForeignByte pool.own held sys.memory space.heap)
      (ForeignRecord held sys.memory) sys.memory sys'.memory := by
    rw [memory, h.memory]
    exact (kept.trans done.kept).switch _
  have entry (dir page : Nat) : sys'.memory.entry dir page = filled.entry dir page := by
    rw [memory, h.memory]
    rfl
  have tables (dir : Nat) : sys'.memory.dirs dir = filled.dirs dir := by
    rw [memory, h.memory]
  have busy {other : Nat} (alive : live other) {page : Nat} (small : page < addressPages)
      (there : (sys.memory.entry other page).present = true)
      : frameBit first.frames (sys.memory.entry other page).frame = true :=
    h.marked _ (marked other alive page small there)
  refine ⟨all.slots, all.entries, fun other alive page small there => ?_,
    fun address foreign => all.mem address (record ▸ foreign), all.heaps, fun node other => ?_,
    fun page small => ?_, fun ph member load k below other alive page small there => ?_⟩
  · rw [memory, h.memory, ← h.ram]
    exact done.ram free _ (busy alive small there)
  · rw [tasking]
    exact ⟨Function.update_of_ne other _ _, Function.update_of_ne other _ _⟩
  · rw [dir]
    by_cases none : (sys'.memory.dirs space.dir).tables (page / 1024) = 0
    · have before : sys.memory.kernelTables (page / 1024) = 0 := by
        by_contra populated
        rw [tables, shares _ (page_slot small) populated] at none
        exact populated none
      refine Or.inl (Or.inl ?_)
      rw [Kernel.entry, if_pos none, Kernel.entry, if_pos (by exact before)]
    · by_cases shared : (sys'.memory.dirs sys'.memory.kernelDir).tables (page / 1024)
          = (sys'.memory.dirs space.dir).tables (page / 1024)
      · left
        rw [← entry_shared shared, all.kernelDir]
        exact all.entries _ ready.spaces.owned.kernelDir page small
      · exact Or.inr ⟨none, shared⟩
  · obtain ⟨notOwn, absent⟩ := apart.segments ph member load k below
    have inside : u32 (ph.vaddr + k) / pageSize < addressPages := page_inside (u32_lt _)
    intro same
    rw [dir, entry] at same
    rcases done.fresh free _ inside notOwn with before | taken
    · have now := present ph member load k below
      rw [before, h.entries _ inside notOwn, absent] at now
      exact Bool.false_ne_true now
    · rw [same, busy alive small there] at taken
      exact Bool.false_ne_true taken.symm

/-- Isolation is lost when the loader visits a page that is not mapped yet in a table that the kernel
directory has.
-/
theorem LoadIsolated.visits (isolated : LoadIsolated pool.own live held hdr task sys sys')
    (ready : LoadReady pool live held sys) (quiet : QuietPool pool)
    (made : makeTaskFromELF kmalloc hdr sys = some (task, sys')) (left : FramesLeft sys'.memory)
    {page : Nat} (visited : taskRights hdr.sections page ≠ none) (notOwn : ¬ pool.own page)
    : (sys.memory.entry sys.memory.kernelDir page).frame ≠ 0
      ∨ sys.memory.kernelTables (page / 1024) = 0 := by
  by_contra neither
  obtain ⟨mapped, populated⟩ := not_or.mp neither
  have small := taskRights_small visited
  have slot := page_slot small
  have kernel := ready.spaces.owned.kernelDir
  obtain ⟨space, opened, rfl, memory, -⟩ := makeTaskFromELF_result ready.kernelTask made
  obtain ⟨taken, served, cloned, given, filled, stages⟩ := ready.spaces.spaceStages opened
  obtain ⟨known, -, h⟩ := stages.opened ready.spaces ready.layout
  have safe : Untouchable pool.own (fun _ => False) (fun _ => False) held sys.memory :=
    ⟨fun _ => False.elim, fun _ => False.elim⟩
  obtain ⟨-, -, shares, -⟩ := stages.kept quiet ready.spaces safe
  obtain ⟨spare, bounded, free⟩ := left
  rw [memory, h.memory] at free
  obtain ⟨start, filling⟩ := h.start ready.zero kernel bounded
  have layout := ready.layout.congr h.kernelHeap
  have work : AtWork pool live known { given with currentDir := space.dir } space.dir
      { given with currentDir := space.dir } :=
    ⟨⟨known, h.spaces, .refl known⟩, rfl, rfl, rfl, fun _ _ _ => rfl⟩
  have done := work.fillSpace start.notKernel layout h.block h.fill
  have same := shares _ slot populated
  have mine : (sys'.memory.dirs space.dir).tables (page / 1024)
      = sys.memory.kernelTables (page / 1024) := by
    rw [memory, h.memory]
    exact (done.shares _ slot (by dsimp only; rw [same]; exact populated)).trans same
  have shared : sys'.memory.entry space.dir page = sys'.memory.entry sys.memory.kernelDir page :=
    entry_shared (mine.trans (isolated.slots _ kernel _ slot populated).symm)
  rw [(isolated.entries _ kernel page small).same (Or.inl notOwn), memory, h.memory] at shared
  obtain ⟨ram', st, pages, copied, -⟩ := filling.fillSpace start layout h.block h.fill
  obtain ⟨ram, rfl⟩ := loadSegments_only copied
  have vacant : Vacant pool.own space.dir { given with currentDir := space.dir } page := by
    refine ⟨small, notOwn, ?_⟩
    rw [h.entries page small notOwn]
    exact not_not.mp mapped
  obtain ⟨writable, granted⟩ := Option.ne_none_iff_exists'.mp visited
  have added := (pages.pages free).added page writable vacant granted
  refine mapped (fun empty => added.frame ?_)
  rw [← empty, ← shared]
  rfl

end

-----------------------------------------------------------------------------------------
-- An image that keeps apart
-----------------------------------------------------------------------------------------

end DeadKernel
