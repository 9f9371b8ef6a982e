import DeadKernel.Loading.Image

/-! The pages that the loader gives a new directory: which pages its loops visit, and what is in an
entry after the visits. Only the first visit to a page counts; a later one finds a frame and leaves
the entry as it is.
-/

namespace DeadKernel

open Words

-----------------------------------------------------------------------------------------
-- Entries of one directory
-----------------------------------------------------------------------------------------

section

variable {live : Nat → Prop} {held : Blocks} {st : Kernel} {dir page : Nat}

theorem entry_setPage (st : Kernel) (table : (st.dirs dir).tables (page / 1024) ≠ 0) (entry : Page)
    : (st.setPage (st.entryRef dir page) entry).entry dir page = entry := by
  rw [Kernel.entry, if_neg (by exact table)]
  exact Kernel.page_setPage st _ entry

/-- Pages of one directory have different entries. -/
theorem Ownership.entry_setPage_other (h : Ownership live held st) (alive : live dir)
    (small : page < addressPages) (table : (st.dirs dir).tables (page / 1024) ≠ 0) (entry : Page)
    {frames : Nat → BitVec 32} {other : Nat} (elsewhere : other ≠ page)
    (small' : other < addressPages)
    : ({ st with frames }.setPage (st.entryRef dir page) entry).entry dir other
      = st.entry dir other := by
  have apart : st.entryRef dir other ≠ st.entryRef dir page := by
    intro same
    obtain ⟨tables, offset⟩ := Prod.mk.inj same
    have slot := h.sameSlot alive (page_slot small) alive (page_slot small') table tables
    exact elsewhere (by omega)
  have kept : ({ st with frames }.setPage (st.entryRef dir page) entry).page (st.entryRef dir other)
      = { st with frames }.page (st.entryRef dir other) := Kernel.page_setPage_other apart
  rw [Kernel.entry, Kernel.entry]
  split
  · rename_i none
    rw [if_pos (by exact none)]
  · rename_i some
    rw [if_neg (by exact some)]
    exact kept

end

-----------------------------------------------------------------------------------------
-- Visits
-----------------------------------------------------------------------------------------

/-- For each page that a loop has visited, whether the first visit made it writable. -/
abbrev Rights := Nat → Option Bool

def Rights.visit (rights : Rights) (pages : Nat → Bool) (writable : Bool) : Rights :=
  fun page => (rights page).or (if pages page then some writable else none)

/-- The pages of `for (i = start; i < stop; i += PAGE_SIZE)`. -/
def pagesUp (start stop page : Nat) : Bool :=
  start / pageSize ≤ page ∧ page * pageSize + start % pageSize < stop

/-- The pages of `for (i = start; i > stop; i -= PAGE_SIZE)`. -/
def pagesDown (start stop page : Nat) : Bool :=
  page ≤ start / pageSize ∧ stop < page * pageSize + start % pageSize

/-- A page that the directory maps nowhere yet, and that is none of the kernel heap's. -/
structure Vacant (own : Nat → Prop) (dir : Nat) (first : Kernel) (page : Nat) : Prop where
  small : page < addressPages
  notOwn : ¬ own page
  empty : (first.entry dir page).frame = 0

/-- An entry as `allocFrame` leaves it for a task, with a frame that was free. -/
structure AddedPage (first : Kernel) (writable : Bool) (entry : Page) : Prop where
  present : entry.present = true
  user : entry.user = true
  rw : entry.rw = writable
  frame : entry.frame ≠ 0
  small : entry.frame < nframes
  free : frameBit first.frames entry.frame = false

/-- What the visits have left in the entries of the pages that were vacant, and of the others. -/
structure PagesAdded (own : Nat → Prop) (dir : Nat) (first : Kernel) (rights : Rights) (st : Kernel)
    : Prop where
  steady : ∀ page < addressPages, ¬ own page → (first.entry dir page).frame ≠ 0 →
    st.entry dir page = first.entry dir page
  kept : ∀ page, Vacant own dir first page → rights page = none →
    st.entry dir page = first.entry dir page
  added : ∀ page writable, Vacant own dir first page → rights page = some writable →
    AddedPage first writable (st.entry dir page)
  busy : ∀ page, Vacant own dir first page → rights page ≠ none →
    frameBit st.frames (st.entry dir page).frame = true
  apart : ∀ page page', Vacant own dir first page → Vacant own dir first page' →
    rights page ≠ none → rights page' ≠ none →
    (st.entry dir page).frame = (st.entry dir page').frame → page = page'

section

variable {own live : Nat → Prop} {held : Blocks} {dir page : Nat} {first st st' : Kernel}
variable {rights : Rights} {writable : Bool}

theorem PagesAdded.start : PagesAdded own dir first (fun _ => none) first where
  steady _ _ _ _ := rfl
  kept _ _ _ := rfl
  added _ _ _ visited := nomatch visited
  busy _ _ visited := absurd rfl visited
  apart _ _ _ _ visited := absurd rfl visited

/-- Entries and marks are all that counts. -/
theorem PagesAdded.congr (h : PagesAdded own dir first rights st)
    (entries : ∀ page < addressPages, ¬ own page → st'.entry dir page = st.entry dir page)
    (marked : ∀ frame, frameBit st.frames frame = true → frameBit st'.frames frame = true)
    : PagesAdded own dir first rights st' where
  steady page small notOwn populated := by
    rw [entries page small notOwn]
    exact h.steady page small notOwn populated
  kept page vacant unvisited := by
    rw [entries page vacant.small vacant.notOwn]
    exact h.kept page vacant unvisited
  added page writable vacant visited := by
    rw [entries page vacant.small vacant.notOwn]
    exact h.added page writable vacant visited
  busy page vacant visited := by
    rw [entries page vacant.small vacant.notOwn]
    exact marked _ (h.busy page vacant visited)
  apart page page' vacant vacant' visited visited' same := by
    rw [entries page vacant.small vacant.notOwn, entries page' vacant'.small vacant'.notOwn] at same
    exact h.apart page page' vacant vacant' visited visited' same

theorem Rights.visit_none {pages : Nat → Bool}
    : rights.visit pages writable page = none ↔ rights page = none ∧ pages page = false := by
  rw [Rights.visit, Option.or_eq_none_iff]
  cases pages page <;> simp

theorem Rights.visit_some {pages : Nat → Bool} {value : Bool} (visited : rights page = some value)
    : rights.visit pages writable page = some value := by
  rw [Rights.visit, visited, Option.some_or]

theorem Rights.visit_one_other {q : Nat} (elsewhere : page ≠ q)
    : rights.visit (· = q) writable page = rights page := by
  simp [Rights.visit, elsewhere]

/-- A page with a frame is left as it is. -/
theorem PagesAdded.skip (h : PagesAdded own dir first rights st)
    (populated : (st.entry dir page).frame ≠ 0)
    : PagesAdded own dir first (rights.visit (· = page) writable) st := by
  have same (other : Nat) (vacant : Vacant own dir first other)
      : rights.visit (· = page) writable other = rights other := by
    by_cases here : other = page
    · subst here
      cases visited : rights other with
      | none =>
          have empty := vacant.empty
          rw [← h.kept other vacant visited] at empty
          exact absurd empty populated
      | some value => exact Rights.visit_some visited
    · exact Rights.visit_one_other here
  exact {
    steady := h.steady
    kept := fun other vacant => by
      rw [same other vacant]
      exact h.kept other vacant
    added := fun other value vacant => by
      rw [same other vacant]
      exact h.added other value vacant
    busy := fun other vacant => by
      rw [same other vacant]
      exact h.busy other vacant
    apart := fun other other' vacant vacant' => by
      rw [same other vacant, same other' vacant']
      exact h.apart other other' vacant vacant'
  }

/-- A page without a frame gets one that no other page has. -/
theorem PagesAdded.take (h : PagesAdded own dir first rights st)
    (empty : (st.entry dir page).frame = 0)
    (marked : ∀ frame, frameBit first.frames frame = true → frameBit st.frames frame = true)
    {entry : Page} (present : entry.present = true) (user : entry.user = true)
    (rw : entry.rw = writable) (frame : entry.frame ≠ 0) (small : entry.frame < nframes)
    (clear : frameBit st.frames entry.frame = false)
    (here : st'.entry dir page = entry)
    (others : ∀ other < addressPages, other ≠ page → st'.entry dir other = st.entry dir other)
    (kept : ∀ frame, frameBit st.frames frame = true → frameBit st'.frames frame = true)
    (set : frameBit st'.frames entry.frame = true)
    : PagesAdded own dir first (rights.visit (· = page) writable) st' := by
  have unvisited (vacant : Vacant own dir first page) : rights page = none := by
    cases visited : rights page with
    | none => rfl
    | some value => exact absurd empty (h.added page value vacant visited).frame
  have granted (vacant : Vacant own dir first page)
      : rights.visit (· = page) writable page = some writable := by
    simp [Rights.visit, unvisited vacant]
  have distinct {other : Nat} (vacant : Vacant own dir first other) (visited : rights other ≠ none)
      : (st.entry dir other).frame ≠ entry.frame := by
    intro same
    have busy := h.busy other vacant visited
    rw [same, clear] at busy
    exact Bool.false_ne_true busy
  exact {
    steady := by
      intro other small' notOwn populated
      have before := h.steady other small' notOwn populated
      by_cases same : other = page
      · rw [← before, same] at populated
        exact absurd empty populated
      · rw [others other small' same]
        exact before
    kept := by
      intro other vacant none
      obtain ⟨before, elsewhere⟩ := Rights.visit_none.mp none
      rw [others other vacant.small (by simpa using elsewhere)]
      exact h.kept other vacant before
    added := by
      intro other value vacant visited
      by_cases same : other = page
      · subst same
        rw [granted vacant, Option.some.injEq] at visited
        subst visited
        rw [here]
        refine ⟨present, user, rw, frame, small, Bool.eq_false_iff.mpr (fun was => ?_)⟩
        rw [marked _ was] at clear
        exact Bool.false_ne_true clear.symm
      · rw [Rights.visit_one_other same] at visited
        rw [others other vacant.small same]
        exact h.added other value vacant visited
    busy := by
      intro other vacant visited
      by_cases same : other = page
      · rw [same, here]
        exact set
      · rw [Rights.visit_one_other same] at visited
        rw [others other vacant.small same]
        exact kept _ (h.busy other vacant visited)
    apart := by
      intro other other' vacant vacant' visited visited' same
      by_cases one : other = page
      · by_cases two : other' = page
        · exact one.trans two.symm
        · rw [Rights.visit_one_other two] at visited'
          rw [one, here, others other' vacant'.small two] at same
          exact absurd same.symm (distinct vacant' visited')
      · rw [Rights.visit_one_other one] at visited
        by_cases two : other' = page
        · rw [two, here, others other vacant.small one] at same
          exact absurd same (distinct vacant visited)
        · rw [Rights.visit_one_other two] at visited'
          rw [others other vacant.small one, others other' vacant'.small two] at same
          exact h.apart other other' vacant vacant' visited visited' same
  }

end

-----------------------------------------------------------------------------------------
-- The loader's loops
-----------------------------------------------------------------------------------------

section

variable {kmalloc : Kmalloc} {kfree : Kfree} {pool : BlockPool kmalloc kfree}
variable {live : Nat → Prop} {known : Blocks} {dir spare : Nat} {first st st' : Kernel}
variable {ram : Nat → Nat → UInt8} {rights : Rights}

/-- The loader at work in the directory `dir`. As long as the frame `spare` is free, frames have not
run out and the pages are as the visits leave them.
-/
structure Filling (pool : BlockPool kmalloc kfree) (live : Nat → Prop) (known : Blocks)
    (first : Kernel) (dir spare : Nat) (ram : Nat → Nat → UInt8) (rights : Rights) (st : Kernel)
    : Prop where
  spaces : ∃ held, Spaces pool live held st ∧ known.Grow held
  kernelHeap : st.kernelHeap = first.kernelHeap
  kernelDir : st.kernelDir = first.kernelDir
  currentDir : st.currentDir = dir
  ram : st.ram = ram
  marked : ∀ frame, frameBit first.frames frame = true → frameBit st.frames frame = true
  pages : frameBit st.frames spare = false → PagesAdded pool.own dir first rights st

/-- The directory is not the kernel's, frame 0 is taken and `spare` is a frame. -/
structure FillingStart (live : Nat → Prop) (first : Kernel) (dir spare : Nat) : Prop where
  alive : live dir
  notKernel : dir ≠ first.kernelDir
  zero : frameBit first.frames 0 = true
  bounded : spare < nframes

/-- With a free frame, `firstFrame` yields one that is not frame 0. -/
theorem firstFrame_free (zero : frameBit st.frames 0 = true) (bounded : spare < nframes)
    (free : frameBit st.frames spare = false)
    : firstFrame st ≠ 0 ∧ firstFrame st < nframes
        ∧ frameBit st.frames (firstFrame st) = false := by
  obtain ⟨small, clear, -⟩ := firstFrame_spec bounded free
  refine ⟨fun none => ?_, small, clear⟩
  rw [none, zero] at clear
  exact Bool.false_ne_true clear.symm

theorem Filling.undisturbed (h : Filling pool live known first dir spare ram rights st)
    (alive : live dir) (calm : Undisturbed pool.own live st st')
    (spaces : ∃ held, Spaces pool live held st' ∧ known.Grow held)
    : Filling pool live known first dir spare ram rights st' where
  spaces := spaces
  kernelHeap := calm.kernelHeap.trans h.kernelHeap
  kernelDir := calm.kernelDir.trans h.kernelDir
  currentDir := calm.currentDir.trans h.currentDir
  ram := calm.ram.trans h.ram
  marked frame busy := calm.marked frame (h.marked frame busy)
  pages := by
    intro free
    refine (h.pages (Bool.eq_false_iff.mpr (fun busy => ?_))).congr
      (fun page small notOwn => calm.entries dir alive page small notOwn) calm.marked
    rw [calm.marked spare busy] at free
    exact Bool.false_ne_true free.symm

theorem Filling.allocFrame (h : Filling pool live known first dir spare ram rights st)
    (start : FillingStart live first dir spare) {page isWriteable : Nat}
    (small : page < addressPages) (table : (st.dirs dir).tables (page / 1024) ≠ 0)
    (run : allocFrame (st.entryRef dir page) 0 isWriteable st = some st')
    : Filling pool live known first dir spare ram (rights.visit (· = page) (isWriteable ≠ 0))
        st' := by
  obtain ⟨held, spaces, grow⟩ := h.spaces
  have mine : held (st.entryRef dir page).1 ≠ none :=
    (spaces.owned.tables dir start.alive _ (page_slot small) table).1
  have next := spaces.allocFrame mine run
  have entry : st.entry dir page = st.page (st.entryRef dir page) := by
    rw [Kernel.entry, if_neg table]
  rcases allocFrame_spec run with ⟨populated, rfl⟩ | ⟨empty, rfl⟩
  · rw [← entry] at populated
    exact { h with pages := fun free => (h.pages free).skip populated }
  · rw [← entry] at empty
    exact {
      spaces := ⟨held, next, grow⟩
      kernelHeap := h.kernelHeap
      kernelDir := h.kernelDir
      currentDir := h.currentDir
      ram := h.ram
      marked := fun frame busy => frameBit_setFrame_of (h.marked frame busy)
      pages := by
        intro free
        rw [Kernel.setPage_frames, frameBit_setFrame, Bool.or_eq_false_iff] at free
        obtain ⟨nonzero, bound, clear⟩ :=
          firstFrame_free (h.marked 0 start.zero) start.bounded free.2
        simp only [nframes] at bound
        have whole : firstFrame st % 1048576 = firstFrame st := Nat.mod_eq_of_lt (by omega)
        have fits : u32 (firstFrame st * pageSize) = firstFrame st * pageSize := by
          refine u32_of_lt ?_
          simp only [wordSize, pageSize]
          omega
        refine (h.pages free.2).take empty h.marked rfl rfl rfl ?_ ?_ ?_
          (entry_setPage _ table _)
          (fun other small' elsewhere =>
            spaces.owned.entry_setPage_other start.alive small table _ elsewhere small')
          (fun frame busy => frameBit_setFrame_of busy) ?_
        · dsimp only
          rw [whole]
          exact nonzero
        · dsimp only
          rw [whole]
          exact bound
        · dsimp only
          rw [whole]
          exact clear
        · dsimp only
          rw [Kernel.setPage_frames, whole, fits, frameBit_setFrame,
            Nat.mul_div_cancel _ (by decide)]
          simp
    }

/-- One round of the loops of `allocFrames` and `allocFramesReversed`. -/
theorem Filling.allocPage (h : Filling pool live known first dir spare ram rights st)
    (start : FillingStart live first dir spare) {i isWriteable : Nat} (small : i < wordSize)
    (run : allocPage kmalloc true 0 isWriteable i st = some st')
    : Filling pool live known first dir spare ram
        (rights.visit (· = i / pageSize) (isWriteable ≠ 0)) st' := by
  simp only [DeadKernel.allocPage, Option.bind_eq_bind, Option.bind_eq_some_iff] at run
  obtain ⟨⟨page, found⟩, look, ref, there, run⟩ := run
  obtain ⟨held, spaces, grow⟩ := h.spaces
  rw [h.currentDir] at look
  obtain ⟨here, table, calm, held', spaces', grow'⟩ := spaces.getPage start.alive small
    (fun kernel => absurd (kernel.trans h.kernelDir) start.notKernel) look
  have inside : i / pageSize < addressPages := by
    simp only [wordSize, pageSize, addressPages] at small ⊢
    omega
  have mid := h.undisturbed start.alive calm ⟨held', spaces', grow.trans grow'⟩
  dsimp only at there
  rw [here, Option.some.injEq] at there
  subst there
  exact mid.allocFrame start inside table run

-----------------------------------------------------------------------------------------
-- Whole loops
-----------------------------------------------------------------------------------------

theorem Rights.visit_visit {pages more : Nat → Bool} {writable : Bool}
    : (rights.visit pages writable).visit more writable
      = rights.visit (fun page => pages page || more page) writable := by
  funext page
  rw [Rights.visit, Rights.visit, Rights.visit, Option.or_assoc]
  by_cases one : pages page = true
  · simp [one]
  · simp [one]

theorem Rights.visit_nothing {pages : Nat → Bool} {writable : Bool}
    (none : ∀ page, pages page = false)
    : rights.visit pages writable = rights := by
  funext page
  simp [Rights.visit, none]

theorem pagesUp_step {i stop : Nat} (more : i < stop)
    : pagesUp i stop = fun page => decide (page = i / pageSize) || pagesUp (i + pageSize) stop page
    := by
  funext page
  rw [Bool.eq_iff_iff]
  simp only [pagesUp, pageSize, Bool.or_eq_true, decide_eq_true_eq]
  omega

theorem pagesDown_step {i stop : Nat} (more : stop < i) (low : pageSize ≤ i)
    : pagesDown i stop
      = fun page => decide (page = i / pageSize) || pagesDown (i - pageSize) stop page := by
  funext page
  rw [Bool.eq_iff_iff]
  simp only [pagesDown, pageSize, Bool.or_eq_true, decide_eq_true_eq] at low ⊢
  omega

/-- Behind the last address of its kind the loop starts over at the bottom and never ends. -/
theorem forPages_wraps {body : Nat → Kernel → Option Kernel} {stop fuel i : Nat}
    (small : i < wordSize) (high : wordSize - pageSize + i % pageSize < stop)
    : forPages body stop fuel i st = none := by
  induction fuel generalizing i st with
  | zero => rfl
  | succ fuel ih =>
      have more : i < stop := by
        simp only [wordSize, pageSize] at small high
        omega
      rw [forPages, if_pos more]
      cases body i st with
      | none => rfl
      | some next =>
          refine ih (u32_lt _) ?_
          have same : u32 (i + pageSize) % pageSize = i % pageSize := by
            simp only [u32, wordSize, pageSize]
            omega
          rw [same]
          exact high

/-- Each round of the loader's loops takes `P` from the pages visited before to those and its own. -/
structure KeptByVisits (kmalloc : Kmalloc) (P : Rights → Kernel → Prop) : Prop where
  round : ∀ {rights st st' i isWriteable}, i < wordSize → P rights st →
    DeadKernel.allocPage kmalloc true 0 isWriteable i st = some st' →
    P (rights.visit (· = i / pageSize) (isWriteable ≠ 0)) st'

section

variable {P : Rights → Kernel → Prop} (kept : KeptByVisits kmalloc P)

include kept

/-- A loop that ends has visited the pages from its start to its end. -/
theorem KeptByVisits.forPages {stop fuel i isWriteable : Nat} (small : i < wordSize)
    (h : P rights st)
    (run : forPages (DeadKernel.allocPage kmalloc true 0 isWriteable) stop fuel i st = some st')
    : P (rights.visit (pagesUp i stop) (isWriteable ≠ 0)) st' := by
  induction fuel generalizing i st rights with
  | zero => contradiction
  | succ fuel ih =>
      have ends : ¬ wordSize - pageSize + i % pageSize < stop := by
        intro high
        rw [forPages_wraps small high] at run
        contradiction
      rw [DeadKernel.forPages] at run
      split at run
      · rename_i more
        obtain ⟨mid, one, rest⟩ := Option.bind_eq_some_iff.mp run
        have next : u32 (i + pageSize) = i + pageSize := by
          refine u32_of_lt ?_
          simp only [wordSize, pageSize] at ends ⊢
          omega
        have done := ih (u32_lt _) (kept.round small h one) rest
        rw [next, Rights.visit_visit, ← pagesUp_step more] at done
        exact done
      · rename_i behind
        obtain rfl := Option.some.inj run
        rw [Rights.visit_nothing]
        · exact h
        · intro page
          simp only [pagesUp, pageSize, decide_eq_false_iff_not]
          omega

theorem KeptByVisits.allocFrames {low high isWriteable : Nat} (small : low < wordSize)
    (small' : high < wordSize) (h : P rights st)
    (run : allocFrames kmalloc low high true 0 isWriteable st = some st')
    : P (rights.visit (pagesUp low high) (isWriteable ≠ 0)) st' := by
  have loop : DeadKernel.forPages (DeadKernel.allocPage kmalloc true 0 isWriteable)
      (u32 (low + sub32 high low)) pageLoopFuel low st = some st' := run
  rw [u32_add_sub32 small'] at loop
  exact kept.forPages small h loop

theorem KeptByVisits.forPagesDown {stop fuel i isWriteable : Nat} (low : pageSize ≤ stop)
    (small : i < wordSize) (h : P rights st)
    (run : forPagesDown (DeadKernel.allocPage kmalloc true 0 isWriteable) stop fuel i st = some st')
    : P (rights.visit (pagesDown i stop) (isWriteable ≠ 0)) st' := by
  induction fuel generalizing i st rights with
  | zero => contradiction
  | succ fuel ih =>
      rw [DeadKernel.forPagesDown] at run
      split at run
      · rename_i more
        obtain ⟨mid, one, rest⟩ := Option.bind_eq_some_iff.mp run
        have next : sub32 i pageSize = i - pageSize := sub32_of_le small (by omega)
        have done := ih (sub32_lt _ _) (kept.round small h one) rest
        rw [next, Rights.visit_visit, ← pagesDown_step more (by omega)] at done
        exact done
      · rename_i behind
        obtain rfl := Option.some.inj run
        rw [Rights.visit_nothing]
        · exact h
        · intro page
          simp only [pagesDown, pageSize, decide_eq_false_iff_not]
          omega

end

/-- The pages of a task's stack, of which the last lies above its top. -/
abbrev stackPages : Nat → Bool := pagesDown baseProcessEsp (baseProcessEsp - processStackSize)

theorem KeptByVisits.createStack {P : Rights → Kernel → Prop} (kept : KeptByVisits kmalloc P)
    (h : P rights st) (run : createStack kmalloc baseProcessEsp processStackSize false st = some st')
    : P (rights.visit stackPages true) st' := by
  have loop : DeadKernel.forPagesDown (DeadKernel.allocPage kmalloc true 0 1)
      (sub32 baseProcessEsp processStackSize) pageLoopFuel
      (u32 (sub32 baseProcessEsp processStackSize
        + sub32 baseProcessEsp (sub32 baseProcessEsp processStackSize))) st = some st' := run
  rw [u32_add_sub32 (by decide), sub32_of_le (by decide) (by decide)] at loop
  exact kept.forPagesDown (by decide) (by decide) h loop

/-- The pages of a task's initial heap. -/
abbrev heapPages : Nat → Bool := pagesUp heapStart (heapStart + heapMinSize)

theorem ImageSection.start_lt (section_ : ImageSection) : section_.start < wordSize := by
  rw [ImageSection.start]
  split
  · exact sub32_lt _ _
  · exact lt_of_le_of_lt Nat.and_le_left section_.addr_lt

theorem ImageSection.stop_lt (section_ : ImageSection) : section_.stop < wordSize := by
  rw [ImageSection.stop]
  split
  · exact u32_lt _
  · exact lt_of_le_of_lt Nat.and_le_left (u32_lt _)

/-- The pages that the loop over a section visits. -/
def ImageSection.visits (section_ : ImageSection) (page : Nat) : Bool :=
  section_.loaded && pagesUp section_.start section_.stop page

theorem KeptByVisits.loadSection {P : Rights → Kernel → Prop} (kept : KeptByVisits kmalloc P)
    {section_ : ImageSection} (h : P rights st) (run : loadSection kmalloc section_ st = some st')
    : P (rights.visit section_.visits section_.writable) st' := by
  rw [DeadKernel.loadSection] at run
  split at run
  · rename_i loaded
    have done := kept.allocFrames section_.start_lt section_.stop_lt h run
    have visits : section_.visits = pagesUp section_.start section_.stop := by
      funext page
      rw [ImageSection.visits, loaded, Bool.true_and]
    rw [visits]
    cases writable : section_.writable with
    | true => simpa [writable] using done
    | false => simpa [writable] using done
  · rename_i ignored
    obtain rfl := Option.some.inj run
    rw [Rights.visit_nothing]
    · exact h
    · intro page
      rw [ImageSection.visits, Bool.eq_false_iff.mpr ignored, Bool.false_and]

/-- What the loop over the sections grants a page: the first section to visit it counts. -/
def sectionRights (sections : List ImageSection) : Rights := fun page =>
  (sections.find? (fun section_ => section_.visits page)).map ImageSection.writable

theorem Rights.visit_sections (section_ : ImageSection) (rest : List ImageSection)
    : (fun page => (rights.visit section_.visits section_.writable page).or
        (sectionRights rest page))
      = fun page => (rights page).or (sectionRights (section_ :: rest) page) := by
  funext page
  rw [Rights.visit, sectionRights, sectionRights, List.find?_cons]
  cases rights page <;> cases section_.visits page <;> rfl

/-- The loop over the sections, by induction on them. -/
theorem KeptByVisits.loadSections {P : Rights → Kernel → Prop} (kept : KeptByVisits kmalloc P)
    {sections : List ImageSection} (h : P rights st)
    (run : sections.foldlM
      (fun st section_ => DeadKernel.loadSection kmalloc section_ st) st = some st')
    : P (fun page => (rights page).or (sectionRights sections page)) st' := by
  induction sections generalizing st rights with
  | nil =>
      obtain rfl := Option.some.inj run
      have same : (fun page => (rights page).or (sectionRights [] page)) = rights := by
        funext page
        exact Option.or_none
      rw [same]
      exact h
  | cons section_ rest ih =>
      rw [List.foldlM_cons] at run
      obtain ⟨mid, one, others⟩ := Option.bind_eq_some_iff.mp run
      have done := ih (kept.loadSection h one) others
      rw [Rights.visit_sections] at done
      exact done

theorem Filling.visits (start : FillingStart live first dir spare)
    : KeptByVisits kmalloc (Filling pool live known first dir spare ram) :=
  ⟨fun small h run => h.allocPage start small run⟩

end

end DeadKernel
