import DeadKernel.Foundation.SoleHolders
import DeadKernel.Memory.BlocksAside

/-! The frames of private tables and of the kernel heap, each mapped by one entry only as long as
`firstFrame` finds a clear one. Frames from `nframes` on count as taken: no allocation yields them.
-/

namespace DeadKernel

open Words SoleHolders

-----------------------------------------------------------------------------------------
-- Frames and entries
-----------------------------------------------------------------------------------------

/-- A frame is left. -/
def Roomy (st : Kernel) : Prop := ∃ frame < nframes, frameBit st.frames frame = false

/-- The frame that an entry maps. -/
def Kernel.frameOf (st : Kernel) (ref : PageRef) : Option Nat :=
  if (st.page ref).frame = 0 then none else some (st.page ref).frame

/-- A frame that no allocation yields. -/
def Taken (st : Kernel) (frame : Nat) : Prop :=
  nframes ≤ frame ∨ frameBit st.frames frame = true

/-- An entry of a table of a directory in use, or of a table `spare` that no directory has yet. -/
def InUse (live spare : Nat → Prop) (st : Kernel) (ref : PageRef) : Prop :=
  ref.2 < pagesInTable ∧ (spare ref.1 ∨ ∃ dir, live dir ∧ ∃ slot < tablesInDir,
    (st.dirs dir).tables slot ≠ 0 ∧ (st.dirs dir).tables slot = ref.1)

/-- An entry of a table that one directory has for itself, or of a spare one. -/
def PrivateRef (live spare : Nat → Prop) (st : Kernel) (ref : PageRef) : Prop :=
  ref.2 < pagesInTable ∧ (spare ref.1 ∨ ∃ dir, live dir ∧ ∃ slot < tablesInDir,
    PrivateTable st dir slot ∧ (st.dirs dir).tables slot = ref.1)

/-- No spare tables. -/
abbrev noTable : Nat → Prop := fun _ => False

/-- Mapped frames are marked; those of private entries and of the kernel heap's pages are mapped by
one entry, and a private entry that is present has a frame.
-/
structure SoleFrames (own live spare : Nat → Prop) (st : Kernel) : Prop where
  zero : frameBit st.frames 0 = true
  exclusive : Exclusive (InUse live spare st)
    (fun ref => PrivateRef live spare st ref ∨ OwnEntry own st ref) st.frameOf (Taken st)
  present : ∀ ref, PrivateRef live spare st ref → (st.page ref).present = true →
    (st.page ref).frame ≠ 0
  fits : ∀ ref, PrivateRef live spare st ref → (st.page ref).frame < nframes

section

variable {own live spare : Nat → Prop} {st st' : Kernel} {ref : PageRef}

theorem Roomy.back (h : Roomy st')
    (marked : ∀ frame, frameBit st.frames frame = true → frameBit st'.frames frame = true)
    : Roomy st := by
  obtain ⟨frame, below, clear⟩ := h
  refine ⟨frame, below, Bool.eq_false_iff.mpr fun busy => ?_⟩
  rw [marked frame busy] at clear
  contradiction

theorem Taken.later {frame : Nat} (h : Taken st frame)
    (marked : ∀ frame, frameBit st.frames frame = true → frameBit st'.frames frame = true)
    : Taken st' frame :=
  h.imp_right (marked frame)

theorem frameOf_eq_some {frame : Nat}
    : st.frameOf ref = some frame ↔ (st.page ref).frame = frame ∧ frame ≠ 0 := by
  rw [Kernel.frameOf]
  split
  · rename_i none
    exact ⟨nofun, fun both => absurd (both.1.symm.trans none) both.2⟩
  · rename_i some
    rw [Option.some.injEq]
    exact ⟨fun same => ⟨same, same ▸ some⟩, And.left⟩

theorem frameOf_congr {other : PageRef} (same : st'.page other = st.page ref)
    : st'.frameOf other = st.frameOf ref := by
  rw [Kernel.frameOf, Kernel.frameOf, same]

theorem PrivateRef.inUse (h : PrivateRef live spare st ref) : InUse live spare st ref :=
  ⟨h.1, h.2.imp_right fun ⟨dir, alive, slot, below, mine, table⟩ =>
    ⟨dir, alive, slot, below, mine.1, table⟩⟩

theorem OwnEntry.inUse (bounded : ∀ page, own page → page < addressPages)
    (kernelDir : live st.kernelDir) (h : OwnEntry own st ref)
    : InUse live spare st ref := by
  obtain ⟨page, isOwn, populated, rfl⟩ := h
  exact ⟨Nat.mod_lt _ (by decide), Or.inr ⟨_, kernelDir, _, page_slot (bounded page isOwn),
    populated, rfl⟩⟩

/-- The frames of private entries are not mapped elsewhere. -/
theorem SoleFrames.distinct (h : SoleFrames own live spare st) : FramesDistinct live st := by
  intro dir alive slot below mine i inside nonzero dir' alive' slot' below' populated i'
    inside' same
  have isPrivate : PrivateRef live spare st ((st.dirs dir).tables slot, i) :=
    ⟨inside, Or.inr ⟨dir, alive, slot, below, mine, rfl⟩⟩
  have both := h.exclusive.alone _ ((st.dirs dir').tables slot', i') _ isPrivate.inUse
    (Or.inl isPrivate) (frameOf_eq_some.mpr ⟨rfl, nonzero⟩)
    ⟨inside', Or.inr ⟨dir', alive', slot', below', populated, rfl⟩⟩
    (frameOf_eq_some.mpr ⟨same, nonzero⟩)
  exact Prod.mk.inj both

theorem SoleFrames.busy (h : SoleFrames own live spare st) (used : InUse live spare st ref)
    (nonzero : (st.page ref).frame ≠ 0)
    : Taken st (st.page ref).frame :=
  h.exclusive.marked ref _ used (frameOf_eq_some.mpr ⟨rfl, nonzero⟩)

/-- Neither what frames and heaps hold nor the directory in use matters. -/
theorem SoleFrames.contents (h : SoleFrames own live spare st) (mem : Mem)
    (ram : Nat → Nat → UInt8) (currentDir : Nat)
    : SoleFrames own live spare { st with mem, ram, currentDir } :=
  ⟨h.zero, ⟨h.exclusive.marked, h.exclusive.alone⟩, h.present, h.fits⟩

-----------------------------------------------------------------------------------------
-- Steps that map no frame
-----------------------------------------------------------------------------------------

/-- A step that maps nothing new and leaves the marks of what is still mapped. -/
theorem SoleFrames.fewer {live' spare' : Nat → Prop} (h : SoleFrames own live spare st)
    (zero : frameBit st'.frames 0 = true)
    (entries : ∀ ref, InUse live' spare' st' ref → (st'.page ref).frame ≠ 0 →
      InUse live spare st ref ∧ st'.page ref = st.page ref
      ∧ (OwnEntry own st' ref → OwnEntry own st ref)
      ∧ (Taken st (st.page ref).frame → Taken st' (st.page ref).frame))
    (mine : ∀ ref, PrivateRef live' spare' st' ref →
      st'.page ref = .zero ∨ (st'.page ref).present = false ∧ (st'.page ref).frame = 0
      ∨ PrivateRef live spare st ref ∧ st'.page ref = st.page ref)
    : SoleFrames own live' spare' st' where
  zero := zero
  exclusive := by
    refine h.exclusive.step (fun ref frame used maps => ?_) (fun ref frame used maps _ => ?_)
      (fun ref other frame used _ maps used' maps' notTaken => ?_)
    · obtain ⟨rfl, nonzero⟩ := frameOf_eq_some.mp maps
      obtain ⟨before, same, -, marked⟩ := entries ref used nonzero
      rw [same] at nonzero ⊢
      exact marked (h.busy before nonzero)
    · obtain ⟨rfl, nonzero⟩ := frameOf_eq_some.mp maps
      obtain ⟨before, same, more, -⟩ := entries ref used nonzero
      refine ⟨before, (frameOf_congr same).symm.trans maps, ?_⟩
      rintro (isPrivate | isOwn)
      · rcases mine ref isPrivate with blank | ⟨-, none⟩ | ⟨isPrivate', -⟩
        · exact absurd (congrArg Page.frame blank) nonzero
        · exact absurd none nonzero
        · exact Or.inl isPrivate'
      · exact Or.inr (more isOwn)
    · obtain ⟨rfl, nonzero⟩ := frameOf_eq_some.mp maps
      obtain ⟨before, same, -⟩ := entries ref used nonzero
      rw [same] at nonzero notTaken
      exact absurd (h.busy before nonzero) notTaken
  present ref isPrivate present := by
    rcases mine ref isPrivate with blank | ⟨none, -⟩ | ⟨isPrivate', same⟩
    · rw [blank] at present
      contradiction
    · rw [none] at present
      contradiction
    · rw [same] at present ⊢
      exact h.present ref isPrivate' present
  fits ref isPrivate := by
    rcases mine ref isPrivate with blank | ⟨-, none⟩ | ⟨isPrivate', same⟩
    · rw [blank]
      decide
    · rw [none]
      decide
    · rw [same]
      exact h.fits ref isPrivate'

-----------------------------------------------------------------------------------------
-- One more frame, and one less
-----------------------------------------------------------------------------------------

/-- An empty entry gets a frame that was clear. -/
theorem SoleFrames.map (h : SoleFrames own live spare st) {frame : Nat} {page : Page}
    (ram : Nat → Nat → UInt8) (positive : 0 < frame) (below : frame < nframes)
    (clear : frameBit st.frames frame = false) (empty : (st.page ref).frame = 0)
    (maps : page.frame = frame)
    : SoleFrames own live spare
        ({ st with frames := setFrame st.frames (frame * pageSize), ram }.setPage ref page) := by
  have number : frame * pageSize / pageSize = frame := Nat.mul_div_cancel _ (by decide)
  have marked (other : Nat) (busy : frameBit st.frames other = true)
      : frameBit (setFrame st.frames (frame * pageSize)) other = true :=
    frameBit_setFrame_of busy
  have elsewhere {other : PageRef} (apart : other ≠ ref)
      : ({ st with frames := setFrame st.frames (frame * pageSize), ram }.setPage ref page).page
          other = st.page other :=
    Kernel.page_setPage_other apart
  have here : (({ st with frames := setFrame st.frames (frame * pageSize), ram }.setPage ref
      page).page ref).frame = frame := by
    rw [Kernel.page_setPage, maps]
  have notTaken : ¬ Taken st frame := by
    rintro (above | busy)
    · omega
    · rw [clear] at busy
      contradiction
  refine ⟨marked 0 h.zero, ?_, fun other isPrivate present => ?_, fun other isPrivate => ?_⟩
  · refine h.exclusive.step (fun other frame' used holds => ?_)
      (fun other frame' used holds known => ?_)
      (fun one other frame' used _ holds used' holds' unknown => ?_)
    · obtain ⟨rfl, nonzero⟩ := frameOf_eq_some.mp holds
      by_cases same : other = ref
      · subst same
        rw [here]
        refine Or.inr ?_
        rw [Kernel.setPage_frames, frameBit_setFrame, number]
        simp
      · rw [elsewhere same] at nonzero ⊢
        exact (h.busy used nonzero).later marked
    · obtain ⟨rfl, nonzero⟩ := frameOf_eq_some.mp holds
      by_cases same : other = ref
      · subst same
        rw [here] at known
        exact absurd known notTaken
      · exact ⟨used, (frameOf_congr (elsewhere same)).symm.trans holds, id⟩
    · have only {other : PageRef} (used : InUse live spare st other)
          (holds : ({ st with frames := setFrame st.frames (frame * pageSize), ram }.setPage ref
            page).frameOf other = some frame')
          : other = ref := by
        by_contra apart
        obtain ⟨rfl, nonzero⟩ := frameOf_eq_some.mp holds
        rw [elsewhere apart] at nonzero unknown
        exact unknown (h.busy used nonzero)
      rw [only used holds, only used' holds']
  · by_cases same : other = ref
    · subst same
      rw [here]
      omega
    · rw [elsewhere same] at present ⊢
      exact h.present other isPrivate present
  · by_cases same : other = ref
    · subst same
      rw [here]
      exact below
    · rw [elsewhere same]
      exact h.fits other isPrivate

/-- `allocFrame` leaves a populated entry alone, and gives an empty one a clear frame as long as
there is one.
-/
theorem allocFrame_whileRoom {isKernel isWriteable : Nat} (zero : frameBit st.frames 0 = true)
    (room : Roomy st') (run : allocFrame ref isKernel isWriteable st = some st')
    : (st.page ref).frame ≠ 0 ∧ st' = st
      ∨ (st.page ref).frame = 0 ∧ ∃ frame, 0 < frame ∧ frame < nframes
        ∧ frameBit st.frames frame = false
        ∧ st' = { st with frames := setFrame st.frames (frame * pageSize) }.setPage ref
          { st.page ref with
            present := true
            rw := isWriteable ≠ 0
            user := isKernel = 0
            frame := frame
            isKernel := st.currentDir = st.kernelDir } := by
  rcases allocFrame_spec run with same | ⟨empty, rfl⟩
  · exact Or.inl same
  · have room' : Roomy st := room.back fun _ => frameBit_setFrame_of
    obtain ⟨other, inside, free⟩ := room'
    obtain ⟨below, clear, -⟩ := firstFrame_spec inside free
    have positive : 0 < firstFrame st := by
      refine Nat.pos_of_ne_zero fun none => ?_
      rw [none, zero] at clear
      exact Bool.noConfusion clear
    have address : u32 (firstFrame st * pageSize) = firstFrame st * pageSize := by
      refine u32_of_lt ?_
      simp only [nframes, pageSize, wordSize] at below ⊢
      omega
    have number : firstFrame st % 1048576 = firstFrame st := by
      refine Nat.mod_eq_of_lt ?_
      simp only [nframes] at below
      omega
    rw [address, number]
    exact Or.inr ⟨empty, _, positive, below, clear, rfl⟩

theorem SoleFrames.allocFrame (h : SoleFrames own live spare st) {isKernel isWriteable : Nat}
    (room : Roomy st') (run : allocFrame ref isKernel isWriteable st = some st')
    : SoleFrames own live spare st' := by
  rcases allocFrame_whileRoom h.zero room run with
    ⟨-, rfl⟩ | ⟨empty, frame, positive, below, clear, rfl⟩
  · exact h
  · exact h.map st.ram positive below clear empty rfl

/-- A private entry gives its frame back. -/
theorem SoleFrames.freeFrame (h : SoleFrames own live spare st)
    (isPrivate : PrivateRef live spare st ref)
    : SoleFrames own live spare (freeFrame ref st) := by
  rw [DeadKernel.freeFrame]
  dsimp only
  split
  · exact h
  rename_i populated
  have elsewhere {other : PageRef} {page : Page} (apart : other ≠ ref)
      : ({ st with frames := clearFrame st.frames ((st.page ref).frame * pageSize) }.setPage ref
          page).page other = st.page other :=
    Kernel.page_setPage_other apart
  refine h.fewer ?_ (fun other used nonzero => ?_) (fun other isPrivate' => ?_)
  · rw [Kernel.setPage_frames, frameBit_clearFrame, h.zero, Nat.mul_div_cancel _ (by decide)]
    simp [Ne.symm populated]
  · have apart : other ≠ ref := by
      rintro rfl
      rw [Kernel.page_setPage] at nonzero
      exact nonzero rfl
    rw [elsewhere apart] at nonzero ⊢
    refine ⟨used, rfl, id, Or.imp_right fun busy => ?_⟩
    rw [Kernel.setPage_frames, frameBit_clearFrame, busy, Nat.mul_div_cancel _ (by decide),
      Bool.and_true, decide_eq_true_eq]
    intro same
    exact apart (h.exclusive.alone ref other _ isPrivate.inUse (Or.inl isPrivate)
      (frameOf_eq_some.mpr ⟨rfl, populated⟩) used (frameOf_eq_some.mpr ⟨same, populated⟩))
  · by_cases here : other = ref
    · subst here
      rw [Kernel.page_setPage]
      exact Or.inr (Or.inl ⟨rfl, rfl⟩)
    · exact Or.inr (Or.inr ⟨isPrivate', elsewhere here⟩)

end

-----------------------------------------------------------------------------------------
-- The kernel heap
-----------------------------------------------------------------------------------------

section

variable {kmalloc : Kmalloc} {kfree : Kfree} {pool : BlockPool kmalloc kfree}
variable {live : Nat → Prop} {held held' : Blocks} {st st' : Kernel} {dir slot : Nat}

/-- What a kernel heap promises about the frames of its pages: as long as one is left, a page that
it maps gets a frame that was clear, and with a page that it unmaps it frees that page's frame
alone.
-/
structure FrugalPool (pool : BlockPool kmalloc kfree) : Prop where
  grows : ∀ {held st size align phys block physAddr st'}, pool.Holds held st →
    kmalloc size align phys st = some (block, physAddr, st') → Roomy st' →
    ∀ page, pool.own page → (st'.entry st'.kernelDir page).frame ≠ 0 →
    st'.entry st'.kernelDir page = st.entry st.kernelDir page
      ∨ ¬ Taken st (st'.entry st'.kernelDir page).frame
        ∧ Taken st' (st'.entry st'.kernelDir page).frame
        ∧ ∀ other, pool.own other → (st'.entry st'.kernelDir other).frame
            = (st'.entry st'.kernelDir page).frame → other = page
  shrinks : ∀ {held st block size st'}, pool.Holds held st → held block = some size →
    kfree block st = some st' → ∀ ref, OwnEntry pool.own st ref → (st'.page ref).frame ≠ 0 →
    frameBit st.frames (st'.page ref).frame = true → frameBit st'.frames (st'.page ref).frame = true

/-- A request makes no table private and none shared. -/
theorem HandedOut.privateTable {own : Nat → Prop} {block size : Nat}
    (out : HandedOut own held st block size held' st') (h : Ownership live held st)
    (alive : live dir) (below : slot < tablesInDir)
    : PrivateTable st' dir slot ↔ PrivateTable st dir slot := by
  by_cases kernel : dir = st.kernelDir
  · exact iff_of_false (fun mine => mine.notKernel (kernel.trans out.kernelDir.symm))
      (fun mine => mine.notKernel kernel)
  have tables := out.dirs dir (h.dirs dir alive) kernel
  have same : (st'.dirs st'.kernelDir).tables slot = st'.kernelTables slot := rfl
  rw [PrivateTable, PrivateTable, tables, same]
  refine and_congr_right fun populated => ?_
  rcases out.slot below with old | new
  · rw [old]
    rfl
  · have fresh := (out.tableHeld slot _ new).1
    have known := (h.tables dir alive slot below populated).1
    have none : (st.dirs st.kernelDir).tables slot = 0 := new.2.1
    refine iff_of_true (fun shared => ?_) (fun shared => populated (shared.symm.trans none))
    rw [shared] at fresh
    exact known fresh

/-- After a request, an entry in use is none of the kernel heap's and as it was, or it maps nothing,
or it is the kernel heap's.
-/
theorem HandedOut.inUse {own : Nat → Prop} {block size : Nat} {ref : PageRef}
    (out : HandedOut own held st block size held' st') (h : Ownership live held st)
    (used : InUse live noTable st' ref)
    : OwnEntry own st' ref ∨ (st'.page ref).frame = 0
      ∨ InUse live noTable st ref ∧ st'.page ref = st.page ref := by
  by_cases isOwn : OwnEntry own st' ref
  · exact Or.inl isOwn
  obtain ⟨inside, none | ⟨dir, alive, slot, below, populated, table⟩⟩ := used
  · exact none.elim
  have before (populated' : (st.dirs dir).tables slot ≠ 0)
      (same : (st'.dirs dir).tables slot = (st.dirs dir).tables slot)
      : InUse live noTable st ref ∧ st'.page ref = st.page ref := by
    have there : (st.dirs dir).tables slot = ref.1 := same.symm.trans table
    refine ⟨⟨inside, Or.inr ⟨dir, alive, slot, below, populated', there⟩⟩,
      out.pages ref ?_ (fun own => isOwn ?_)⟩
    · rw [← there]
      exact (h.tables dir alive slot below populated').1
    · obtain ⟨page, mine, some, rfl⟩ := own
      have slot' := out.slots _ some
      exact ⟨page, mine, slot' ▸ some, by rw [slot']⟩
  by_cases kernel : dir = st.kernelDir
  · subst kernel
    rw [← out.kernelDir] at populated table
    rcases out.slot below with old | new
    · have old' : (st'.dirs st.kernelDir).tables slot = (st.dirs st.kernelDir).tables slot := by
        rw [Kernel.kernelTables, out.kernelDir] at old
        exact old
      refine Or.inr (Or.inr (before ?_ old'))
      rw [← old', ← out.kernelDir]
      exact populated
    · have place : ref = (st'.kernelTables slot, ref.2) := Prod.ext table.symm rfl
      refine Or.inr (Or.inl ?_)
      have notOwn : ¬ own (slot * 1024 + ref.2) := by
        intro mine
        simp only [pagesInTable] at inside
        have page : (slot * 1024 + ref.2) / 1024 = slot := by omega
        have offset : (slot * 1024 + ref.2) % 1024 = ref.2 := by omega
        exact isOwn ⟨_, mine, by rw [page]; exact populated, by rw [page, offset]; exact place⟩
      rw [place, out.blank slot _ ref.2 new notOwn inside]
      rfl
  · have same := out.dirs dir (h.dirs dir alive) kernel
    refine Or.inr (Or.inr (before ?_ (by rw [same])))
    rwa [same] at populated

theorem SoleFrames.request (frugal : FrugalPool pool) (h : SoleFrames pool.own live noTable st)
    (spaces : Spaces pool live held st) {size align block physAddr : Nat} {phys : Bool}
    (room : Roomy st') (served : kmalloc size align phys st = some (block, physAddr, st'))
    : SoleFrames pool.own live noTable st' := by
  obtain ⟨held', -, out⟩ := spaces.request served
  have owned := spaces.owned
  have entry {page : Nat} (some : st'.kernelTables (page / 1024) ≠ 0)
      : st'.entry st'.kernelDir page = st'.page (st'.kernelTables (page / 1024), page % 1024) :=
    if_neg some
  -- an entry that maps a frame maps what it mapped before, or a fresh frame for the kernel heap
  have cases_ (ref : PageRef) (used : InUse live noTable st' ref)
      (nonzero : (st'.page ref).frame ≠ 0)
      : InUse live noTable st ref ∧ st'.page ref = st.page ref
          ∧ (OwnEntry pool.own st' ref → OwnEntry pool.own st ref)
        ∨ ¬ Taken st (st'.page ref).frame ∧ Taken st' (st'.page ref).frame
          ∧ ∀ other, OwnEntry pool.own st' other → (st'.page other).frame = (st'.page ref).frame →
            other = ref := by
    by_cases isOwn : OwnEntry pool.own st' ref
    · obtain ⟨page, mine, some, rfl⟩ := isOwn
      rcases frugal.grows spaces.holds served room page mine (by rw [entry some]; exact nonzero)
        with
        same | ⟨unknown, taken, only⟩
      · have before : st.kernelTables (page / 1024) ≠ 0 := by
          intro none
          have zero : st.entry st.kernelDir page = .zero := if_pos none
          rw [← entry some, same, zero] at nonzero
          exact nonzero rfl
        have slot := out.slots _ before
        have mine' : OwnEntry pool.own st (st'.kernelTables (page / 1024), page % 1024) :=
          ⟨page, mine, before, by rw [slot]⟩
        refine Or.inl ⟨mine'.inUse pool.bounded owned.kernelDir, ?_, fun _ => mine'⟩
        rw [← entry some, same, slot]
        exact if_neg before
      · rw [entry some] at unknown taken only
        refine Or.inr ⟨unknown, taken, ?_⟩
        rintro other ⟨page', mine', some', rfl⟩ same
        rw [only page' mine' (by rw [entry some']; exact same)]
    · rcases out.inUse owned used with own | none | ⟨before, same⟩
      · exact absurd own isOwn
      · exact absurd none nonzero
      · exact Or.inl ⟨before, same, fun own => absurd own isOwn⟩
  have isPrivate {ref : PageRef} (mine : PrivateRef live noTable st' ref)
      : PrivateRef live noTable st ref ∧ st'.page ref = st.page ref := by
    obtain ⟨inside, none | ⟨dir, alive, slot, below, mine, table⟩⟩ := mine
    · exact none.elim
    have mine' := (out.privateTable owned alive below).mp mine
    rw [out.dirs dir (owned.dirs dir alive) (PrivateTable.notKernel mine')] at table
    have place : ref = ((st.dirs dir).tables slot, ref.2) := Prod.ext table.symm rfl
    refine ⟨⟨inside, Or.inr ⟨dir, alive, slot, below, mine', table⟩⟩, ?_⟩
    rw [place]
    exact out.pages _ (owned.tables dir alive slot below mine'.1).1
      (owned.notOwn pool.bounded alive below mine' _)
  refine ⟨out.marked 0 h.zero, ?_, fun ref mine present => ?_, fun ref mine => ?_⟩
  · refine h.exclusive.step (fun ref frame used maps => ?_) (fun ref frame used maps known => ?_)
      (fun ref other frame used _ maps used' maps' unknown => ?_)
    · obtain ⟨rfl, nonzero⟩ := frameOf_eq_some.mp maps
      rcases cases_ ref used nonzero with ⟨before, same, -⟩ | ⟨-, taken, -⟩
      · rw [same] at nonzero ⊢
        exact (h.busy before nonzero).later out.marked
      · exact taken
    · obtain ⟨rfl, nonzero⟩ := frameOf_eq_some.mp maps
      rcases cases_ ref used nonzero with ⟨before, same, own⟩ | ⟨unknown, -⟩
      · exact ⟨before, (frameOf_congr same).symm.trans maps,
          Or.imp (fun mine => (isPrivate mine).1) own⟩
      · exact absurd known unknown
    · obtain ⟨rfl, nonzero⟩ := frameOf_eq_some.mp maps
      obtain ⟨same', nonzero'⟩ := frameOf_eq_some.mp maps'
      rw [← same'] at nonzero'
      rcases cases_ ref used nonzero with ⟨before, same, -⟩ | ⟨-, -, only⟩
      · rw [same] at nonzero unknown
        exact absurd (h.busy before nonzero) unknown
      · rcases out.inUse owned used' with own | none | ⟨before, same⟩
        · exact only other own same'
        · exact absurd none nonzero'
        · rw [← same', same] at unknown
          rw [same] at nonzero'
          exact absurd (h.busy before nonzero') unknown
  · obtain ⟨before, same⟩ := isPrivate mine
    rw [same] at present ⊢
    exact h.present ref before present
  · obtain ⟨before, same⟩ := isPrivate mine
    rw [same]
    exact h.fits ref before

/-- A block is given back that is neither a directory nor a table. -/
theorem SoleFrames.takenBack (h : SoleFrames pool.own live noTable st)
    (spaces : Spaces pool live held st) (back : TakenBack pool.own st st')
    (shrinks : ∀ ref, OwnEntry pool.own st ref → (st'.page ref).frame ≠ 0 →
      frameBit st.frames (st'.page ref).frame = true →
      frameBit st'.frames (st'.page ref).frame = true)
    : SoleFrames pool.own live noTable st' := by
  have ownSame (ref : PageRef) : OwnEntry pool.own st' ref ↔ OwnEntry pool.own st ref :=
    OwnEntry.congr back.kernelDir (by rw [back.dirs])
  have used' {ref : PageRef} (used : InUse live noTable st' ref) : InUse live noTable st ref := by
    rwa [InUse, back.dirs] at used
  have private' {ref : PageRef} (mine : PrivateRef live noTable st' ref)
      : PrivateRef live noTable st ref := by
    simp only [PrivateRef, PrivateTable, back.dirs, back.kernelDir] at mine
    exact mine
  -- the frames that are cleared belong to pages that are unmapped
  have cleared {frame : Nat} (busy : frameBit st.frames frame = true)
      (changed : frameBit st'.frames frame ≠ true)
      : ∃ ref, OwnEntry pool.own st ref ∧ (st.page ref).frame = frame ∧ frame ≠ 0
        ∧ (st'.page ref).frame = 0 := by
    obtain ⟨ref, isOwn, here, nonzero⟩ := back.bits frame (by rwa [busy])
    refine ⟨ref, isOwn, here, nonzero, ?_⟩
    rcases back.unmapped ref isOwn with same | none
    · by_contra still
      have frame' : (st'.page ref).frame = frame := by rw [same, here]
      exact changed (frame' ▸ shrinks ref isOwn still (by rwa [frame']))
    · exact none
  refine h.fewer ?_ (fun ref used nonzero => ?_) (fun ref mine => ?_)
  · by_contra changed
    obtain ⟨-, -, -, nonzero, -⟩ := cleared h.zero changed
    exact nonzero rfl
  · have same : st'.page ref = st.page ref := by
      by_cases isOwn : OwnEntry pool.own st ref
      · exact (back.unmapped ref isOwn).resolve_right nonzero
      · exact back.pages ref isOwn
    refine ⟨used' used, same, (ownSame ref).mp, Or.imp_right fun busy => ?_⟩
    by_contra changed
    obtain ⟨other, isOwn, here, positive, none⟩ := cleared busy changed
    have apart := h.exclusive.alone other ref _ (isOwn.inUse pool.bounded spaces.owned.kernelDir)
      (Or.inr isOwn) (frameOf_eq_some.mpr ⟨here, positive⟩) (used' used)
      (frameOf_eq_some.mpr ⟨rfl, positive⟩)
    rw [apart] at nonzero
    exact nonzero none
  · refine Or.inr (Or.inr ⟨private' mine, back.pages ref fun isOwn => ?_⟩)
    obtain ⟨-, none | ⟨dir, alive, slot, below, mine, table⟩⟩ := private' mine
    · exact none
    · exact spaces.owned.notOwn pool.bounded alive below mine ref.2 (by rw [table]; exact isOwn)

end

end DeadKernel
