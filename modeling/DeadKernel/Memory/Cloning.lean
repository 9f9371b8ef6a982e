import DeadKernel.Memory.BootOwnership
import DeadKernel.Memory.Directory
import Mathlib.Algebra.Order.BigOperators.Group.Finset

/-! A page table cloned: every populated entry is copied into a frame that nobody owned, and
nothing that was in use changes.
The kernel heap enters through what a source of fresh blocks promises.
-/

namespace DeadKernel

open Words

-----------------------------------------------------------------------------------------
-- Free frames
-----------------------------------------------------------------------------------------

/-- The frames below `limit` that the bitmap shows as free. -/
def clearFrames (limit : Nat) (frames : Nat → BitVec 32) : Finset Nat :=
  (Finset.range limit).filter (fun frame => frameBit frames frame = false)

def freeFrames (limit : Nat) (st : Kernel) : Nat := (clearFrames limit st.frames).card

theorem mem_clearFrames {limit frame : Nat} {frames : Nat → BitVec 32}
    : frame ∈ clearFrames limit frames ↔ frame < limit ∧ frameBit frames frame = false := by
  simp [clearFrames]

/-- Marking one frame uses up one free frame at most. -/
theorem clearFrames_setFrame (limit : Nat) (frames : Nat → BitVec 32) (frame : Nat)
    : (clearFrames limit frames).card
      ≤ (clearFrames limit (setFrame frames (frame * pageSize))).card + 1 := by
  have less : (clearFrames limit frames).erase frame
      ⊆ clearFrames limit (setFrame frames (frame * pageSize)) := by
    intro other member
    obtain ⟨distinct, member⟩ := Finset.mem_erase.mp member
    obtain ⟨below, clear⟩ := mem_clearFrames.mp member
    refine mem_clearFrames.mpr ⟨below, ?_⟩
    rw [frameBit_setFrame, Nat.mul_div_cancel _ (by decide), clear]
    simp [distinct]
  have card := Finset.card_le_card less
  have erased := Finset.pred_card_le_card_erase (s := clearFrames limit frames) (a := frame)
  omega

/-- An empty entry gets the first free frame, which lies below every bound that has one. -/
theorem allocFrame_takes {limit : Nat} {st : Kernel} {ref : PageRef}
    (isKernel isWriteable : Nat) (bounded : limit ≤ nframes) (zero : frameBit st.frames 0 = true)
    (room : 0 < freeFrames limit st) (empty : (st.page ref).frame = 0)
    : ∃ frame page, 0 < frame ∧ frame < limit ∧ frameBit st.frames frame = false
        ∧ page.frame = frame
        ∧ allocFrame ref isKernel isWriteable st
          = some ({ st with frames := setFrame st.frames (frame * pageSize) }.setPage ref page)
    := by
  obtain ⟨other, member⟩ := Finset.card_pos.mp room
  obtain ⟨below, clear⟩ := mem_clearFrames.mp member
  obtain ⟨-, firstClear, first⟩ := firstFrame_spec (lt_of_lt_of_le below bounded) clear
  simp only [nframes] at bounded
  have small : firstFrame st < 262144 := by omega
  have notPanic : firstFrame st ≠ wordSize - 1 := by
    simp only [wordSize]
    omega
  have fits : u32 (firstFrame st * pageSize) = firstFrame st * pageSize := by
    refine u32_of_lt ?_
    simp only [wordSize, pageSize]
    omega
  have positive : 0 < firstFrame st := by
    refine Nat.pos_of_ne_zero (fun none => ?_)
    rw [none, zero] at firstClear
    contradiction
  refine ⟨firstFrame st,
    { st.page ref with
      present := true
      rw := isWriteable ≠ 0
      user := isKernel = 0
      frame := firstFrame st % 1048576
      isKernel := st.currentDir = st.kernelDir },
    positive, lt_of_le_of_lt first below, firstClear, Nat.mod_eq_of_lt (by omega), ?_⟩
  simp only [allocFrame, empty, ne_eq, not_true_eq_false, if_false, notPanic, fits]
  rfl

-----------------------------------------------------------------------------------------
-- One copied entry
-----------------------------------------------------------------------------------------

/-- The flag bits that `cloneTable` copies. -/
structure SameFlags (page page' : Page) : Prop where
  present : page.present = page'.present
  rw : page.rw = page'.rw
  user : page.user = page'.user
  accessed : page.accessed = page'.accessed
  dirty : page.dirty = page'.dirty
  isKernel : page.isKernel = page'.isKernel

/-- A populated entry is copied into a frame that was free, flags and contents alike. -/
theorem cloneEntry_takes {limit : Nat} {st : Kernel} {src table i : Nat}
    (bounded : limit ≤ nframes) (zero : frameBit st.frames 0 = true)
    (room : 0 < freeFrames limit st) (empty : (st.page (table, i)).frame = 0)
    (distinct : src ≠ table) (populated : (st.page (src, i)).frame ≠ 0)
    (fits : (st.page (src, i)).frame < 1048576)
    (busy : frameBit st.frames (st.page (src, i)).frame = true
      ∨ nframes ≤ (st.page (src, i)).frame)
    : ∃ frame page ram, 0 < frame ∧ frame < limit ∧ frameBit st.frames frame = false
        ∧ page.frame = frame ∧ SameFlags page (st.page (src, i))
        ∧ SamePage ram frame st.ram (st.page (src, i)).frame
        ∧ (∀ other ≠ frame, SamePage ram other st.ram other)
        ∧ cloneEntry src table i st = some (
            { st with frames := setFrame st.frames (frame * pageSize), ram }.setPage (table, i)
              page) := by
  obtain ⟨frame, first, positive, below, clear, frame_eq, taken⟩ :=
    allocFrame_takes 0 0 bounded zero room empty
  have apart : (st.page (src, i)).frame ≠ frame := by
    intro same
    rw [same, clear] at busy
    exact busy.elim Bool.noConfusion (fun high => by omega)
  have target : frame < 1048576 := by
    simp only [nframes] at bounded
    omega
  let page : Page := { st.page (src, i) with frame := frame }
  let marked : Kernel := { st with frames := setFrame st.frames (frame * pageSize) }
  have source (page' : Page) : (marked.setPage (table, i) page').page (src, i)
      = st.page (src, i) := by
    rw [Kernel.page_setPage_other (fun same => distinct (Prod.mk.inj same).1)]
    rfl
  obtain ⟨ram, copied, contents, others⟩ := copyPagePhysical_page fits target apart
    ((marked.setPage (table, i) first).setPage (table, i) page)
  refine ⟨frame, page, ram, positive, below, clear, rfl, ⟨rfl, rfl, rfl, rfl, rfl, rfl⟩,
    contents, others, ?_⟩
  have flagged : (⟨(st.page (src, i)).present, (st.page (src, i)).rw, (st.page (src, i)).user,
      (st.page (src, i)).accessed, (st.page (src, i)).dirty, (st.page (src, i)).isKernel,
      first.frame⟩ : Page) = page := by
    simp only [page, frame_eq]
  rw [Kernel.setPage_setPage] at copied
  simp only [cloneEntry, if_neg populated, taken, Option.bind_eq_bind, Option.bind_some,
    Kernel.page_setPage, Kernel.setPage_setPage]
  simp only [marked] at source
  simp only [source, flagged]
  rw [frame_eq, copied]
  rfl

-----------------------------------------------------------------------------------------
-- Where page tables and directories come from
-----------------------------------------------------------------------------------------

/-- Writes to the blocks `taken`, marks in the bitmap and page copies. -/
structure Writing (taken : Nat → Prop) (st st' : Kernel) : Prop where
  rest : st' = { st with
    frames := st'.frames
    ram := st'.ram
    tables := st'.tables
    dirs := st'.dirs }
  tables : ∀ table, ¬ taken table → st'.tables table = st.tables table
  dirs : ∀ dir, ¬ taken dir → st'.dirs dir = st.dirs dir

/-- A request is served with a fresh block. The kernel heap may grow for it: it then marks
frames and maps pages of its own, the entries `grown`.
-/
structure Serving (live taken : Nat → Prop) (grown : PageRef → Prop) (cost : Nat)
    (st : Kernel) (block : Nat) (st' : Kernel)
    : Prop where
  nonzero : block ≠ 0
  notLive : ¬ live block
  notTaken : ¬ taken block
  ram : st'.ram = st.ram
  kernelDir : st'.kernelDir = st.kernelDir
  marked : ∀ frame, frameBit st.frames frame = true → frameBit st'.frames frame = true
  room : ∀ limit, freeFrames limit st ≤ freeFrames limit st' + cost
  dirs : ∀ dir, live dir ∨ taken dir → st'.dirs dir = st.dirs dir
  livePages : ∀ ref, live ref.1 → ¬ grown ref → st'.page ref = st.page ref
  takenPages : ∀ ref, taken ref.1 → st'.page ref = st.page ref

/-- A kernel heap that hands out fresh blocks. `live` are the objects in use beforehand; ready
for `n` more requests, with the blocks `taken` handed out so far, it stays ready whatever is
written to these blocks. Each request may use up to `cost` free frames.
-/
structure BlockSource (kmalloc : Kmalloc) (live : Nat → Prop) where
  Ready : Nat → (Nat → Prop) → Kernel → Prop
  grown : PageRef → Prop
  cost : Nat
  serves : ∀ {n taken st size}, 0 < size → size ≤ 8196 → Ready (n + 1) taken st →
    cost ≤ freeFrames nframes st →
    ∃ block phys st', kmalloc size 1 true st = some (block, phys, st')
      ∧ Serving live taken grown cost st block st'
      ∧ Ready n (fun other => taken other ∨ other = block) st'
  keeps : ∀ {n taken st st'}, Ready n taken st → Writing taken st st' → Ready n taken st'

-----------------------------------------------------------------------------------------
-- The state while a directory is cloned
-----------------------------------------------------------------------------------------

/-- `ref` holds a copy of what the populated entry `original` held in the state `first`, in a
frame that was free there.
-/
structure FreshCopy (limit : Nat) (first st : Kernel) (ref original : PageRef) : Prop where
  populated : (st.page ref).frame ≠ 0
  below : (st.page ref).frame < limit
  free : frameBit first.frames (st.page ref).frame = false
  busy : frameBit st.frames (st.page ref).frame = true
  flags : SameFlags (st.page ref) (first.page original)
  contents : SamePage st.ram (st.page ref).frame first.ram (first.page original).frame

/-- An empty entry is copied as an empty one, every other one as a fresh copy. -/
structure EntryCopied (limit : Nat) (first st : Kernel) (ref original : PageRef) : Prop where
  empty : (first.page original).frame = 0 → st.page ref = .zero
  copied : (first.page original).frame ≠ 0 → FreshCopy limit first st ref original

/-- What holds between `first`, the state before `cloneDir`, and a later one. The entries that
are copied so far are related to their originals by `copies`.
-/
structure CloneState {kmalloc : Kmalloc} {live : Nat → Prop} (source : BlockSource kmalloc live)
    (limit : Nat) (first : Kernel) (blocks spent : Nat) (taken : Nat → Prop)
    (copies : PageRef → PageRef → Prop) (st : Kernel)
    : Prop where
  ready : source.Ready blocks taken st
  notLive : ∀ block, taken block → ¬ live block
  marked : ∀ frame, frameBit first.frames frame = true → frameBit st.frames frame = true
  room : freeFrames limit first ≤ freeFrames limit st + spent
  contents : ∀ frame, frameBit first.frames frame = true ∨ nframes ≤ frame →
    SamePage st.ram frame first.ram frame
  kernelDir : st.kernelDir = first.kernelDir
  dirs : ∀ dir, live dir → st.dirs dir = first.dirs dir
  pages : ∀ ref, live ref.1 → ¬ source.grown ref → st.page ref = first.page ref
  owned : ∀ ref original, copies ref original → taken ref.1
  copied : ∀ ref original, copies ref original → EntryCopied limit first st ref original
  apart : ∀ ref original ref' original', copies ref original → copies ref' original' →
    ref ≠ ref' → (st.page ref).frame ≠ 0 → (st.page ref).frame ≠ (st.page ref').frame

/-- A step that leaves the live objects and the copies alone. -/
structure Progress (live : Nat → Prop) (grown : PageRef → Prop)
    (copies : PageRef → PageRef → Prop) (limit cost : Nat) (st st' : Kernel)
    : Prop where
  marked : ∀ frame, frameBit st.frames frame = true → frameBit st'.frames frame = true
  room : freeFrames limit st ≤ freeFrames limit st' + cost
  contents : ∀ frame, frameBit st.frames frame = true ∨ nframes ≤ frame →
    SamePage st'.ram frame st.ram frame
  kernelDir : st'.kernelDir = st.kernelDir
  dirs : ∀ dir, live dir → st'.dirs dir = st.dirs dir
  livePages : ∀ ref, live ref.1 → ¬ grown ref → st'.page ref = st.page ref
  copiedPages : ∀ ref original, copies ref original → st'.page ref = st.page ref

theorem SamePage.trans {ram ram' ram'' : Nat → Nat → UInt8} {frame frame' frame'' : Nat}
    (h : SamePage ram frame ram' frame') (h' : SamePage ram' frame' ram'' frame'')
    : SamePage ram frame ram'' frame'' :=
  fun offset inside => (h offset inside).trans (h' offset inside)

/-- A copy survives a step that leaves it alone. -/
theorem EntryCopied.progress {limit : Nat} {first st st' : Kernel} {ref original : PageRef}
    (h : EntryCopied limit first st ref original) (page : st'.page ref = st.page ref)
    (marked : ∀ frame, frameBit st.frames frame = true → frameBit st'.frames frame = true)
    (contents : ∀ frame, frameBit st.frames frame = true ∨ nframes ≤ frame →
      SamePage st'.ram frame st.ram frame)
    : EntryCopied limit first st' ref original where
  empty := fun none => by rw [page, h.empty none]
  copied := by
    intro some
    have copy := h.copied some
    exact {
      populated := by rw [page]; exact copy.populated
      below := by rw [page]; exact copy.below
      free := by rw [page]; exact copy.free
      busy := by rw [page]; exact marked _ copy.busy
      flags := by rw [page]; exact copy.flags
      contents := by
        rw [page]
        exact (contents _ (Or.inl copy.busy)).trans copy.contents
    }

section

variable {kmalloc : Kmalloc} {live : Nat → Prop} {source : BlockSource kmalloc live}
variable {limit blocks spent : Nat} {first st : Kernel} {taken : Nat → Prop}
variable {copies : PageRef → PageRef → Prop}

/-- The state may be told with fewer copies. -/
theorem CloneState.fewer (h : CloneState source limit first blocks spent taken copies st)
    {less : PageRef → PageRef → Prop}
    (sub : ∀ ref original, less ref original → copies ref original)
    : CloneState source limit first blocks spent taken less st :=
  { h with
    owned := fun ref original copy => h.owned ref original (sub ref original copy)
    copied := fun ref original copy => h.copied ref original (sub ref original copy)
    apart := fun ref original ref' original' copy copy' =>
      h.apart ref original ref' original' (sub ref original copy) (sub ref' original' copy') }

/-- A step that leaves everything alone keeps the state, up to the frames it uses. -/
theorem CloneState.progress (h : CloneState source limit first blocks spent taken copies st)
    {st' : Kernel} {cost blocks' : Nat} {taken' : Nat → Prop}
    (step : Progress live source.grown copies limit cost st st')
    (ready : source.Ready blocks' taken' st') (more : ∀ block, taken block → taken' block)
    (notLive : ∀ block, taken' block → ¬ live block)
    : CloneState source limit first blocks' (spent + cost) taken' copies st' where
  ready := ready
  notLive := notLive
  marked := fun frame busy => step.marked frame (h.marked frame busy)
  room := by
    have before := h.room
    have now := step.room
    omega
  contents := fun frame known =>
    (step.contents frame (known.imp (h.marked frame) id)).trans (h.contents frame known)
  kernelDir := step.kernelDir.trans h.kernelDir
  dirs := fun dir alive => (step.dirs dir alive).trans (h.dirs dir alive)
  pages := fun ref alive still =>
    (step.livePages ref alive still).trans (h.pages ref alive still)
  owned := fun ref original copy => more _ (h.owned ref original copy)
  copied := fun ref original copy => (h.copied ref original copy).progress
    (step.copiedPages ref original copy) step.marked step.contents
  apart := by
    intro ref original ref' original' copy copy' distinct populated
    rw [step.copiedPages ref original copy] at populated ⊢
    rw [step.copiedPages ref' original' copy']
    exact h.apart ref original ref' original' copy copy' distinct populated

-----------------------------------------------------------------------------------------
-- One entry, one table
-----------------------------------------------------------------------------------------

/-- The frames that copying an entry takes. -/
def entryCost (st : Kernel) (original : PageRef) : Nat :=
  if (st.page original).frame = 0 then 0 else 1

/-- The entry can be copied: it keeps still while the heap grows, and its frame is busy. -/
structure Copyable (source : BlockSource kmalloc live) (first : Kernel) (original : PageRef)
    : Prop where
  alive : live original.1
  still : ¬ source.grown original
  fits : (first.page original).frame < 1048576
  busy : (first.page original).frame < nframes →
    frameBit first.frames (first.page original).frame = true

/-- One more pair of entries. -/
def withCopy (copies : PageRef → PageRef → Prop) (ref original : PageRef)
    : PageRef → PageRef → Prop :=
  fun ref' original' => copies ref' original' ∨ ref' = ref ∧ original' = original

/-- A new entry joins the copies, in a frame that no earlier copy has. -/
theorem CloneState.join (h : CloneState source limit first blocks spent taken copies st)
    {ref original : PageRef} (mine : taken ref.1)
    (copied : EntryCopied limit first st ref original)
    (alone : (st.page ref).frame ≠ 0 → ∀ ref' original', copies ref' original' →
      (st.page ref').frame ≠ (st.page ref).frame)
    : CloneState source limit first blocks spent taken (withCopy copies ref original) st :=
  { h with
    owned := by
      rintro ref' original' (copy | ⟨rfl, rfl⟩)
      · exact h.owned ref' original' copy
      · exact mine
    copied := by
      rintro ref' original' (copy | ⟨rfl, rfl⟩)
      · exact h.copied ref' original' copy
      · exact copied
    apart := by
      rintro ref' original' ref'' original'' (copy | ⟨rfl, rfl⟩) (copy' | ⟨rfl, rfl⟩) distinct
        populated
      · exact h.apart ref' original' ref'' original'' copy copy' distinct populated
      · intro same
        exact alone (same ▸ populated) ref' original' copy same
      · exact fun same => alone populated ref'' original'' copy' same.symm
      · contradiction }

/-- Writing an entry of a block that was handed out is nothing to the kernel heap. -/
theorem writing_setPage {ref : PageRef} (mine : taken ref.1) {page : Page}
    {frames : Nat → BitVec 32} {ram : Nat → Nat → UInt8}
    : Writing taken st ({ st with frames, ram }.setPage ref page) where
  rest := rfl
  tables := by
    intro table other
    have elsewhere : table ≠ ref.1 := by
      rintro rfl
      exact other mine
    exact update_other elsewhere
  dirs := fun _ _ => rfl

/-- The entry `ref` got the frame `frame`, which was free, with what `original` holds. -/
structure EntryFilled (limit : Nat) (ref original : PageRef) (frame : Nat) (st st' : Kernel)
    : Prop where
  positive : 0 < frame
  below : frame < limit
  clear : frameBit st.frames frame = false
  frame_eq : (st'.page ref).frame = frame
  flags : SameFlags (st'.page ref) (st.page original)
  contents : SamePage st'.ram frame st.ram (st.page original).frame
  others : ∀ other ≠ frame, SamePage st'.ram other st.ram other
  frames : st'.frames = setFrame st.frames (frame * pageSize)
  elsewhere : ∀ other ≠ ref, st'.page other = st.page other
  dirs : st'.dirs = st.dirs
  kernelDir : st'.kernelDir = st.kernelDir

section EntryFilled

variable {ref original : PageRef} {frame : Nat} {st' : Kernel}

/-- Busy frames and frames that the bitmap does not know are other ones. -/
theorem EntryFilled.fresh (filled : EntryFilled limit ref original frame st st')
    (bounded : limit ≤ nframes) {other : Nat} (known : frameBit st.frames other = true ∨ nframes ≤ other)
    : other ≠ frame := by
  have below := filled.below
  rintro rfl
  rcases known with marked | high
  · simp [filled.clear] at marked
  · omega

/-- Filling an entry of a block that was handed out leaves the copies alone. -/
theorem CloneState.fillProgress (h : CloneState source limit first blocks spent taken copies st)
    (filled : EntryFilled limit ref original frame st st') (bounded : limit ≤ nframes)
    (mine : taken ref.1) (unused : ∀ original', ¬ copies ref original')
    : Progress live source.grown copies limit 1 st st' where
  marked := by
    intro other marked
    rw [filled.frames, frameBit_setFrame, marked, Bool.or_true]
  room := by
    rw [freeFrames, freeFrames, filled.frames]
    exact clearFrames_setFrame limit st.frames frame
  contents := fun other known => filled.others other (filled.fresh bounded known)
  kernelDir := filled.kernelDir
  dirs := fun dir _ => by rw [filled.dirs]
  livePages := by
    intro other alive _
    refine filled.elsewhere other ?_
    rintro rfl
    exact h.notLive other.1 mine alive
  copiedPages := by
    intro other original' copied
    refine filled.elsewhere other ?_
    rintro rfl
    exact unused original' copied

/-- The entry now holds a copy of what the original held before the clone. -/
theorem CloneState.fillCopied (h : CloneState source limit first blocks spent taken copies st)
    (filled : EntryFilled limit ref original frame st st')
    (copyable : Copyable source first original) (populated : (first.page original).frame ≠ 0)
    : EntryCopied limit first st' ref original where
  empty := fun none => absurd none populated
  copied := by
    intro _
    have page : st.page original = first.page original :=
      h.pages original copyable.alive copyable.still
    have positive := filled.positive
    have free : frameBit first.frames frame = false := by
      by_contra marked
      have marked' := h.marked frame (by simpa using marked)
      simp [filled.clear] at marked'
    exact {
      populated := by
        rw [filled.frame_eq]
        omega
      below := by
        rw [filled.frame_eq]
        exact filled.below
      free := by rwa [filled.frame_eq]
      busy := by
        rw [filled.frames, frameBit_setFrame, filled.frame_eq, Nat.mul_div_cancel _ (by decide)]
        simp
      flags := by
        rw [← page]
        exact filled.flags
      contents := by
        rw [filled.frame_eq]
        refine filled.contents.trans ?_
        rw [page]
        refine h.contents _ ?_
        rcases Nat.lt_or_ge (first.page original).frame nframes with low | high
        · exact Or.inl (copyable.busy low)
        · exact Or.inr high
    }

/-- No earlier copy has the frame. -/
theorem CloneState.fillAlone (h : CloneState source limit first blocks spent taken copies st)
    (filled : EntryFilled limit ref original frame st st') (bounded : limit ≤ nframes)
    (unused : ∀ original', ¬ copies ref original') {ref' original' : PageRef}
    (copied : copies ref' original')
    : (st'.page ref').frame ≠ (st'.page ref).frame := by
  intro same
  have other : ref' ≠ ref := by
    rintro rfl
    exact unused original' copied
  rw [filled.elsewhere ref' other, filled.frame_eq] at same
  have entry := h.copied ref' original' copied
  by_cases none : (first.page original').frame = 0
  · rw [entry.empty none] at same
    exact absurd same (Nat.ne_of_lt filled.positive)
  · exact filled.fresh bounded (Or.inl (entry.copied none).busy) same

end EntryFilled

/-- A round of `cloneTable`'s loop at a populated entry fills the new one. -/
theorem CloneState.cloneEntry_fills (h : CloneState source limit first blocks spent taken copies st)
    {src table i : Nat} (bounded : limit ≤ nframes) (zero : frameBit first.frames 0 = true)
    (mine : taken table) (original : Copyable source first (src, i))
    (blank : st.page (table, i) = .zero) (room : 0 < freeFrames limit st)
    (populated : (first.page (src, i)).frame ≠ 0)
    : ∃ frame st', DeadKernel.cloneEntry src table i st = some st'
        ∧ EntryFilled limit (table, i) (src, i) frame st st' ∧ Writing taken st st' := by
  have page : st.page (src, i) = first.page (src, i) :=
    h.pages (src, i) original.alive original.still
  have distinct : src ≠ table := by
    rintro rfl
    exact h.notLive src mine original.alive
  have busy : frameBit st.frames (st.page (src, i)).frame = true
      ∨ nframes ≤ (st.page (src, i)).frame := by
    rw [page]
    rcases Nat.lt_or_ge (first.page (src, i)).frame nframes with low | high
    · exact Or.inl (h.marked _ (original.busy low))
    · exact Or.inr high
  obtain ⟨frame, copy, ram, positive, below, clear, frame_eq, flags, contents, others, run⟩ :=
    cloneEntry_takes bounded (h.marked 0 zero) room (by rw [blank]; rfl) distinct
      (by rw [page]; exact populated) (by rw [page]; exact original.fits) busy
  exact ⟨frame, _, run, {
    positive
    below
    clear
    frame_eq := by rwa [Kernel.page_setPage]
    flags := by rwa [Kernel.page_setPage]
    contents
    others
    frames := rfl
    elsewhere := fun _ other => Kernel.page_setPage_other other
    dirs := rfl
    kernelDir := rfl
  }, writing_setPage mine⟩

/-- One round of `cloneTable`'s loop adds one copy. -/
theorem CloneState.cloneEntry (h : CloneState source limit first blocks spent taken copies st)
    {src table i : Nat} (bounded : limit ≤ nframes) (zero : frameBit first.frames 0 = true)
    (mine : taken table) (original : Copyable source first (src, i))
    (blank : st.page (table, i) = .zero) (unused : ∀ original', ¬ copies (table, i) original')
    (enough : spent + entryCost first (src, i) ≤ freeFrames limit first)
    : ∃ st', DeadKernel.cloneEntry src table i st = some st'
        ∧ CloneState source limit first blocks (spent + entryCost first (src, i)) taken
          (withCopy copies (table, i) (src, i)) st'
        ∧ (∀ ref ≠ (table, i), st'.page ref = st.page ref) ∧ st'.dirs = st.dirs := by
  by_cases populated : (first.page (src, i)).frame = 0
  · have page : st.page (src, i) = first.page (src, i) :=
      h.pages (src, i) original.alive original.still
    have cost : entryCost first (src, i) = 0 := if_pos populated
    refine ⟨st, by rw [DeadKernel.cloneEntry, if_pos (by rw [page]; exact populated)], ?_,
      fun _ _ => rfl, rfl⟩
    rw [cost, Nat.add_zero]
    refine h.join mine ⟨fun _ => blank, fun some => absurd populated some⟩ (fun some => ?_)
    exact absurd (by rw [blank]; rfl) some
  · have cost : entryCost first (src, i) = 1 := if_neg populated
    have before := h.room
    obtain ⟨frame, st', run, filled, writing⟩ :=
      h.cloneEntry_fills bounded zero mine original blank (by omega) populated
    refine ⟨st', run, ?_, filled.elsewhere, filled.dirs⟩
    rw [cost]
    have step := h.fillProgress filled bounded mine unused
    exact (h.progress step (source.keeps h.ready writing) (fun _ => id) h.notLive).join mine
      (h.fillCopied filled original populated)
      (fun _ _ _ copied => h.fillAlone filled bounded unused copied)

/-- The frames that copying the first `n` entries of a table takes. -/
def tableCost (st : Kernel) (table n : Nat) : Nat :=
  ∑ i ∈ Finset.range n, entryCost st (table, i)

theorem freeFrames_mono {limit limit' : Nat} (h : limit ≤ limit') (st : Kernel)
    : freeFrames limit st ≤ freeFrames limit' st := by
  refine Finset.card_le_card (fun frame member => ?_)
  obtain ⟨below, clear⟩ := mem_clearFrames.mp member
  exact mem_clearFrames.mpr ⟨by omega, clear⟩

/-- A served request leaves the clone under construction alone. -/
theorem CloneState.serves (h : CloneState source limit first (blocks + 1) spent taken copies st)
    {size : Nat} (positive : 0 < size) (small : size ≤ 8196) (bounded : limit ≤ nframes)
    (enough : spent + source.cost ≤ freeFrames limit first)
    : ∃ block phys st', kmalloc size 1 true st = some (block, phys, st')
        ∧ Serving live taken source.grown source.cost st block st'
        ∧ CloneState source limit first blocks (spent + source.cost)
          (fun other => taken other ∨ other = block) copies st' := by
  have before := h.room
  have more := freeFrames_mono bounded st
  obtain ⟨block, phys, st', run, serving, ready⟩ := source.serves positive small h.ready (by omega)
  refine ⟨block, phys, st', run, serving, h.progress ?_ ready (fun _ => Or.inl) ?_⟩
  · exact {
      marked := serving.marked
      room := serving.room limit
      contents := fun _ _ _ _ => by rw [serving.ram]
      kernelDir := serving.kernelDir
      dirs := fun dir alive => serving.dirs dir (Or.inl alive)
      livePages := serving.livePages
      copiedPages := fun ref original copy => serving.takenPages ref (h.owned ref original copy)
    }
  · rintro other (known | rfl)
    · exact h.notLive other known
    · exact serving.notLive

/-- Clearing a block that holds no copy yet, or setting up a directory in it. -/
theorem CloneState.writes (h : CloneState source limit first blocks spent taken copies st)
    {st' : Kernel} (writing : Writing taken st st') (frames : st'.frames = st.frames)
    (ram : st'.ram = st.ram)
    (copied : ∀ ref original, copies ref original → st'.page ref = st.page ref)
    : CloneState source limit first blocks spent taken copies st' := by
  have step : Progress live source.grown copies limit 0 st st' := {
    marked := fun frame busy => by rwa [frames]
    room := by simp only [freeFrames, frames, Nat.add_zero, le_refl]
    contents := fun _ _ _ _ => by rw [ram]
    kernelDir := by rw [writing.rest]
    dirs := fun dir alive => writing.dirs dir (fun mine => h.notLive dir mine alive)
    livePages := by
      intro ref alive _
      rw [Kernel.page, writing.tables _ (fun mine => h.notLive _ mine alive), Kernel.page]
    copiedPages := copied
  }
  exact h.progress step (source.keeps h.ready writing) (fun _ => id) h.notLive

/-- The entries below `n` of one table are copied to another. -/
def tableCopies (copies : PageRef → PageRef → Prop) (src table n : Nat)
    : PageRef → PageRef → Prop :=
  fun ref original => copies ref original ∨ ∃ i < n, ref = (table, i) ∧ original = (src, i)

/-- `cloneTable` copies a whole table into a fresh block. -/
theorem CloneState.cloneTable
    (h : CloneState source limit first (blocks + 1) spent taken copies st) {src : Nat}
    (bounded : limit ≤ nframes) (zero : frameBit first.frames 0 = true)
    (originals : ∀ i < pagesInTable, Copyable source first (src, i))
    (enough : spent + source.cost + tableCost first src pagesInTable ≤ freeFrames limit first)
    : ∃ table phys st', DeadKernel.cloneTable kmalloc src st = some (table, phys, st')
        ∧ table ≠ 0 ∧ ¬ live table ∧ ¬ taken table
        ∧ CloneState source limit first blocks
          (spent + source.cost + tableCost first src pagesInTable)
          (fun other => taken other ∨ other = table) (tableCopies copies src table pagesInTable)
          st'
        ∧ ∀ dir, taken dir → st'.dirs dir = st.dirs dir := by
  obtain ⟨table, phys, served, run, serving, served'⟩ :=
    h.serves (by decide : 0 < 4096) (by decide) bounded (by omega)
  have mine : taken table ∨ table = table := Or.inr rfl
  have copiedElsewhere : ∀ ref original, copies ref original → ref.1 ≠ table := by
    rintro ref original copy rfl
    exact serving.notTaken (h.owned ref original copy)
  let cleared : Kernel := { served with tables := update served.tables table PageTable.zero }
  have started : CloneState source limit first blocks (spent + source.cost)
      (fun other => taken other ∨ other = table) copies cleared := by
    refine served'.writes ⟨rfl, fun other unused => ?_, fun _ _ => rfl⟩ rfl rfl ?_
    · exact update_other (fun same => unused (Or.inr same))
    · intro ref original copy
      simp only [cleared, Kernel.page, update_other (copiedElsewhere ref original copy)]
  have copying : ∃ st', forIndices (DeadKernel.cloneEntry src table) pagesInTable cleared = some st'
      ∧ CloneState source limit first blocks
        (spent + source.cost + tableCost first src pagesInTable)
        (fun other => taken other ∨ other = table) (tableCopies copies src table pagesInTable) st'
      ∧ (∀ j, pagesInTable ≤ j → st'.page (table, j) = .zero) ∧ st'.dirs = cleared.dirs := by
    refine forIndices_spec (P := fun i st => CloneState source limit first blocks
        (spent + source.cost + tableCost first src i) (fun other => taken other ∨ other = table)
        (tableCopies copies src table i) st
      ∧ (∀ j, i ≤ j → st.page (table, j) = .zero) ∧ st.dirs = cleared.dirs) ?_ ?_
    · refine ⟨?_, fun j _ => ?_, rfl⟩
      · exact started.fewer (fun ref original copy => copy.elim id (by simp))
      · simp only [cleared, Kernel.page, update_self]
        rfl
    · rintro i below st ⟨state, blank, dirs⟩
      have cost : tableCost first src (i + 1)
          = tableCost first src i + entryCost first (src, i) := Finset.sum_range_succ _ _
      have partial' : tableCost first src (i + 1) ≤ tableCost first src pagesInTable :=
        Finset.sum_le_sum_of_subset (Finset.range_mono below)
      obtain ⟨st', run, state', elsewhere, dirs'⟩ := state.cloneEntry bounded zero mine
        (originals i below) (blank i (le_refl i)) (by
          rintro original (copy | ⟨j, earlier, same, -⟩)
          · exact copiedElsewhere _ original copy rfl
          · have index := (Prod.mk.inj same).2
            omega)
        (by omega)
      refine ⟨st', run, ?_, fun j later => ?_, dirs'.trans dirs⟩
      · rw [cost, ← Nat.add_assoc]
        refine state'.fewer ?_
        rintro ref original (copy | ⟨j, earlier, rfl, rfl⟩)
        · exact Or.inl (Or.inl copy)
        · rcases Nat.lt_succ_iff_lt_or_eq.mp earlier with before | rfl
          · exact Or.inl (Or.inr ⟨j, before, rfl, rfl⟩)
          · exact Or.inr ⟨rfl, rfl⟩
      · rw [elsewhere (table, j) (fun same => by
          have index := (Prod.mk.inj same).2
          omega)]
        exact blank j (by omega)
  obtain ⟨st', loop, done, -, dirs⟩ := copying
  refine ⟨table, phys, st', ?_, serving.nonzero, serving.notLive, serving.notTaken, done, ?_⟩
  · simp only [DeadKernel.cloneTable, run, Option.bind_eq_bind, Option.bind_some]
    rw [loop, Option.bind_some]
  · intro dir known
    rw [dirs]
    exact serving.dirs dir (Or.inr known)

end

end DeadKernel
