import DeadKernel.Loading.AddedPages

/-! Loops that map a range of pages into the running directory, upwards or downwards, whatever it is
that a round puts into an empty entry.
-/

namespace DeadKernel

open Words

-----------------------------------------------------------------------------------------
-- Rounds that fill an entry
-----------------------------------------------------------------------------------------

/-- What a page's entry holds when it has been filled, next to the bitmap. -/
abbrev Contents := Nat → Page → (Nat → BitVec 32) → Prop

/-- A call leaves an entry with a frame alone; one without a frame it fills. -/
structure Fills (fill : Nat → PageRef → Kernel → Option Kernel) (contents : Contents) : Prop where
  call : ∀ {i ref st st'}, fill i ref st = some st' →
    (st.page ref).frame ≠ 0 ∧ st' = st
    ∨ (st.page ref).frame = 0 ∧ ∃ frames entry, st' = { st with frames }.setPage ref entry
      ∧ (∀ frame, frameBit st.frames frame = true → frameBit frames frame = true)
      ∧ contents (i / pageSize) entry frames
  mono : ∀ {page entry frames frames'},
    (∀ frame, frameBit frames frame = true → frameBit frames' frame = true) →
    contents page entry frames → contents page entry frames'

/-- The body of the loops over pages. -/
def mapPage (kmalloc : Kmalloc) (fill : Nat → PageRef → Kernel → Option Kernel) (i : Nat)
    (st : Kernel)
    : Option Kernel := do
  let (page, st) ← getPage kmalloc i true st.currentDir st
  let page ← page
  fill i page st

/-- No table of the kernel heap's own pages is that of the page, where the running directory is the
kernel's.
-/
def ClearOfHeap (own : Nat → Prop) (st : Kernel) (page : Nat) : Prop :=
  st.currentDir = st.kernelDir → ∀ other, own other → other / 1024 ≠ page / 1024

/-- From one state to the next, pages that were visited without a frame have been filled, and the
others are as before.
-/
structure PagesFilled (own : Nat → Prop) (contents : Contents) (visited : Nat → Bool)
    (st st' : Kernel)
    : Prop where
  kernelDir : st'.kernelDir = st.kernelDir
  currentDir : st'.currentDir = st.currentDir
  marked : ∀ frame, frameBit st.frames frame = true → frameBit st'.frames frame = true
  kept : ∀ page < addressPages, ¬ own page →
    visited page = false ∨ (st.entry st.currentDir page).frame ≠ 0 →
    st'.entry st.currentDir page = st.entry st.currentDir page
  filled : ∀ page < addressPages, ¬ own page → visited page = true →
    (st.entry st.currentDir page).frame = 0 →
    contents page (st'.entry st.currentDir page) st'.frames

section

variable {kmalloc : Kmalloc} {kfree : Kfree} {pool : BlockPool kmalloc kfree}
variable {own live : Nat → Prop} {held : Blocks} {st mid st' : Kernel}
variable {fill : Nat → PageRef → Kernel → Option Kernel} {contents : Contents}
variable {visited more : Nat → Bool}

theorem PagesFilled.none (nothing : ∀ page, visited page = false)
    : PagesFilled own contents visited st st where
  kernelDir := rfl
  currentDir := rfl
  marked _ := id
  kept _ _ _ _ := rfl
  filled page _ _ there := by
    rw [nothing page] at there
    contradiction

/-- Visits that come later find the entries as the earlier ones left them. -/
theorem PagesFilled.trans (fills : Fills fill contents)
    (h : PagesFilled own contents visited st mid) (h' : PagesFilled own contents more mid st')
    : PagesFilled own contents (fun page => visited page || more page) st st' where
  kernelDir := h'.kernelDir.trans h.kernelDir
  currentDir := h'.currentDir.trans h.currentDir
  marked frame busy := h'.marked frame (h.marked frame busy)
  kept page small notOwn steady := by
    have first := h.kept page small notOwn (steady.imp_left (by
      intro neither
      exact (Bool.or_eq_false_iff.mp neither).1))
    have second := h'.kept page small notOwn
    rw [h.currentDir, first] at second
    refine second (steady.imp_left (fun neither => ?_))
    exact (Bool.or_eq_false_iff.mp neither).2
  filled page small notOwn there empty := by
    have kept := h'.kept page small notOwn
    have filled := h'.filled page small notOwn
    rw [h.currentDir] at kept filled
    cases first : visited page with
    | true =>
        have now := h.filled page small notOwn first empty
        by_cases again : more page = true ∧ (mid.entry st.currentDir page).frame = 0
        · exact filled again.1 again.2
        · rw [kept (by
            rw [← Bool.not_eq_true]
            exact not_and_or.mp again)]
          exact fills.mono h'.marked now
    | false =>
        rw [first, Bool.false_or] at there
        rw [← h.kept page small notOwn (.inl first)] at empty
        exact filled there empty

/-- One round visits the page of its address. -/
theorem mapPage_fills (fills : Fills fill contents) (h : Spaces pool live held st)
    (alive : live st.currentDir) {i : Nat} (small : i < wordSize)
    (clear : ClearOfHeap pool.own st (i / pageSize)) (run : mapPage kmalloc fill i st = some st')
    : (∃ held', Spaces pool live held' st')
      ∧ PagesFilled pool.own contents (· = i / pageSize) st st' := by
  simp only [mapPage, Option.bind_eq_bind, Option.bind_eq_some_iff] at run
  obtain ⟨⟨page, found⟩, look, ref, there, run⟩ := run
  obtain ⟨here, table, calm, held', spaces, -⟩ := h.getPage alive small clear look
  simp only [addr2Frame] at here table
  dsimp only at there run
  rw [here, Option.some.injEq] at there
  subst there
  have inside : i / pageSize < addressPages := by
    simp only [wordSize, pageSize, addressPages] at small ⊢
    omega
  have entry : found.entry st.currentDir (i / pageSize)
      = found.page (found.entryRef st.currentDir (i / pageSize)) := by
    rw [Kernel.entry, if_neg table]
  have before := calm.entries st.currentDir alive
  rcases fills.call run with ⟨populated, rfl⟩ | ⟨empty, frames, value, rfl, marked, value_spec⟩
  · refine ⟨⟨held', spaces⟩, calm.kernelDir, calm.currentDir, calm.marked,
      fun page small notOwn _ => before page small notOwn, fun page small notOwn same none => ?_⟩
    obtain rfl := of_decide_eq_true same
    rw [← before _ small notOwn, entry] at none
    exact absurd none populated
  · have mine : held' (found.entryRef st.currentDir (i / pageSize)).1 ≠ none :=
      (spaces.owned.tables _ alive _ (page_slot inside) table).1
    have others (page : Nat) (small : page < addressPages) (elsewhere : page ≠ i / pageSize)
        : ({ found with frames }.setPage (found.entryRef st.currentDir (i / pageSize))
            value).entry st.currentDir page = found.entry st.currentDir page :=
      spaces.owned.entry_setPage_other alive inside table value elsewhere small
    have here : ({ found with frames }.setPage (found.entryRef st.currentDir (i / pageSize))
        value).entry st.currentDir (i / pageSize) = value :=
      entry_setPage { found with frames } table value
    refine ⟨⟨held', spaces.setPage mine (fun _ => empty) (fun _ _ _ busy => marked _ busy)⟩,
      calm.kernelDir, calm.currentDir, fun frame busy => marked frame (calm.marked frame busy),
      fun page small notOwn steady => ?_, fun page small notOwn same none => ?_⟩
    · have elsewhere : page ≠ i / pageSize := by
        rintro rfl
        rcases steady with other | populated
        · exact of_decide_eq_false other rfl
        · rw [← before _ small notOwn, entry] at populated
          exact populated empty
      exact (others page small elsewhere).trans (before page small notOwn)
    · obtain rfl := of_decide_eq_true same
      rw [here]
      exact value_spec

-----------------------------------------------------------------------------------------
-- Loops over ranges
-----------------------------------------------------------------------------------------

theorem ClearOfHeap.later {page : Nat} (h : ClearOfHeap own st page)
    (filled : PagesFilled own contents visited st mid)
    : ClearOfHeap own mid page := by
  rw [ClearOfHeap, filled.currentDir, filled.kernelDir]
  exact h

theorem pagesUp_none {i stop : Nat} (behind : ¬ i < stop) (page : Nat)
    : pagesUp i stop page = false := by
  simp only [pagesUp, pageSize, decide_eq_false_iff_not]
  omega

theorem pagesDown_none {i stop : Nat} (below : ¬ stop < i) (page : Nat)
    : pagesDown i stop page = false := by
  simp only [pagesDown, pageSize, decide_eq_false_iff_not]
  omega

/-- The loop that runs up, by induction on its rounds. -/
theorem forPages_fills (fills : Fills fill contents) {stop fuel i : Nat}
    (room : stop + pageSize ≤ wordSize) (h : Spaces pool live held st) (alive : live st.currentDir)
    (clear : ∀ page, pagesUp i stop page = true → ClearOfHeap pool.own st page)
    (run : forPages (mapPage kmalloc fill) stop fuel i st = some st')
    : PagesFilled pool.own contents (pagesUp i stop) st st' := by
  induction fuel generalizing i st held with
  | zero => contradiction
  | succ fuel ih =>
      rw [forPages] at run
      split at run
      · rename_i more
        obtain ⟨mid, one, rest⟩ := Option.bind_eq_some_iff.mp run
        have small : i < wordSize := by omega
        have next : u32 (i + pageSize) = i + pageSize := u32_of_lt (by
          simp only [pageSize, wordSize] at room ⊢
          omega)
        rw [pagesUp_step more] at clear ⊢
        obtain ⟨⟨held', spaces⟩, first⟩ :=
          mapPage_fills fills h alive small (clear _ (by simp)) one
        rw [next] at rest
        refine first.trans fills (ih spaces ?_ (fun page there => ?_) rest)
        · rw [first.currentDir]
          exact alive
        · exact (clear page (by simp [there])).later first
      · rename_i behind
        obtain rfl := Option.some.inj run
        exact .none (pagesUp_none behind)

/-- The loop that runs down from an address with the offset of its bound. -/
theorem forPagesDown_fills (fills : Fills fill contents) {stop fuel i : Nat} (small : i < wordSize)
    (aligned : i % pageSize = stop % pageSize) (h : Spaces pool live held st)
    (alive : live st.currentDir)
    (clear : ∀ page, pagesDown i stop page = true → ClearOfHeap pool.own st page)
    (run : forPagesDown (mapPage kmalloc fill) stop fuel i st = some st')
    : PagesFilled pool.own contents (pagesDown i stop) st st' := by
  induction fuel generalizing i st held with
  | zero => contradiction
  | succ fuel ih =>
      rw [forPagesDown] at run
      split at run
      · rename_i more
        obtain ⟨mid, one, rest⟩ := Option.bind_eq_some_iff.mp run
        have low : pageSize ≤ i := by
          simp only [pageSize] at aligned ⊢
          omega
        have next : sub32 i pageSize = i - pageSize := sub32_of_le small low
        rw [pagesDown_step more low] at clear ⊢
        obtain ⟨⟨held', spaces⟩, first⟩ :=
          mapPage_fills fills h alive small (clear _ (by simp)) one
        rw [next] at rest
        refine first.trans fills (ih (by omega) ?_ spaces ?_ (fun page there => ?_) rest)
        · rw [← aligned, Nat.mod_eq_sub_mod low]
        · rw [first.currentDir]
          exact alive
        · exact (clear page (by simp [there])).later first
      · rename_i below
        obtain rfl := Option.some.inj run
        exact .none (pagesDown_none below)

-----------------------------------------------------------------------------------------
-- Loops that do not return
-----------------------------------------------------------------------------------------

/-- A page loop below the last page returns unless one of its rounds does not. -/
theorem forPages_refused {body : Nat → Kernel → Option Kernel} {stop i : Nat}
    (room : stop + pageSize ≤ wordSize) (refused : forPages body stop pageLoopFuel i st = none)
    : ∃ j mid, j < stop ∧ body j mid = none := by
  by_contra never
  push Not at never
  obtain ⟨done, run, -⟩ := @forPages_ends (fun _ => True) body stop room
    (fun j mid below _ =>
      ⟨_, (Option.some_get (Option.isSome_iff_ne_none.mpr (never j mid below))).symm, trivial⟩)
    i st trivial
  rw [refused] at run
  contradiction

theorem forPagesDown_refused {body : Nat → Kernel → Option Kernel} {stop fuel i : Nat}
    (small : i < wordSize) (aligned : i % pageSize = stop % pageSize)
    (enough : i ≤ stop + pageSize * fuel) (refused : forPagesDown body stop (fuel + 1) i st = none)
    : ∃ j mid, stop < j ∧ j ≤ i ∧ body j mid = none := by
  induction fuel generalizing i st with
  | zero =>
      rw [forPagesDown, if_neg (by omega)] at refused
      contradiction
  | succ fuel ih =>
      rw [forPagesDown] at refused
      split at refused
      · rename_i more
        cases one : body i st with
        | none => exact ⟨i, st, more, le_rfl, one⟩
        | some mid =>
            have low : pageSize ≤ i := by
              simp only [pageSize] at aligned ⊢
              omega
            have next : sub32 i pageSize = i - pageSize := sub32_of_le small low
            rw [one, Option.bind_some, next] at refused
            have aligned' : (i - pageSize) % pageSize = stop % pageSize := by
              rw [← aligned, ← Nat.mod_eq_sub_mod low]
            obtain ⟨j, mid', above, below, none⟩ :=
              ih (by omega) aligned' (by simp only [pageSize] at enough ⊢; omega) refused
            exact ⟨j, mid', above, by omega, none⟩
      · contradiction

/-- A round returns unless the request for a table is refused, or the call on the entry. -/
theorem mapPage_refused {i : Nat} (refused : mapPage kmalloc fill i st = none)
    : kmalloc 4096 1 true st = none ∨ ∃ ref mid, fill i ref mid = none := by
  by_cases there : (st.dirs st.currentDir).tables (pageIndex i) ≠ 0
  · refine .inr ⟨((st.dirs st.currentDir).tables (pageIndex i), pageOffset i), st, ?_⟩
    simpa [mapPage, getPage, there] using refused
  · cases request : kmalloc 4096 1 true st with
    | none => exact .inl rfl
    | some served =>
        refine .inr ?_
        simp only [mapPage, getPage, if_neg there, if_true, request, Option.bind_eq_bind,
          Option.bind_some] at refused
        exact ⟨_, _, refused⟩

end

end DeadKernel
