import DeadKernel.Loading.PageRanges
import DeadKernel.Memory.DirectoryBalance

/-! The two loops that map a range to free frames. Running up over `[start, stop)` the loop visits
the pages of the range; running down it visits those of `(start, stop]`, so it leaves out the lowest
page and takes the one behind the range. The difference does not show where both were mapped before.
-/

namespace DeadKernel

open Words

-----------------------------------------------------------------------------------------
-- What the loops leave in the entries
-----------------------------------------------------------------------------------------

/-- An entry as `allocFrame` fills it. -/
def allocContents (isKernel isWriteable : Nat) : Contents := fun _ entry _ =>
  entry.present = true ∧ entry.rw = decide (isWriteable ≠ 0)
    ∧ entry.user = decide (isKernel = 0)

theorem allocFrame_fills (isKernel isWriteable : Nat)
    : Fills (fun _ ref => allocFrame ref isKernel isWriteable)
        (allocContents isKernel isWriteable) where
  call run := by
    rcases allocFrame_spec run with ⟨populated, rfl⟩ | ⟨empty, rfl⟩
    · exact .inl ⟨populated, rfl⟩
    · exact .inr ⟨empty, _, _, rfl, fun _ busy => frameBit_setFrame_of busy, rfl, rfl, rfl⟩
  mono _ := id

/-- A range of whole pages. Neither they nor the page behind them are the kernel heap's. -/
structure PageRange (own : Nat → Prop) (st : Kernel) (start stop : Nat) : Prop where
  startAligned : start % pageSize = 0
  stopAligned : stop % pageSize = 0
  ascending : start < stop
  small : stop < wordSize
  notOwn : ∀ page, start / pageSize ≤ page → page ≤ stop / pageSize → ¬ own page
  clear : ∀ page, start / pageSize ≤ page → page ≤ stop / pageSize → ClearOfHeap own st page

section

variable {kmalloc : Kmalloc} {kfree : Kfree} {pool : BlockPool kmalloc kfree}
variable {live : Nat → Prop} {held : Blocks} {st st' : Kernel}
variable {start stop isKernel isWriteable : Nat}

theorem PageRange.visited_up (range : PageRange pool.own st start stop) (page : Nat)
    : pagesUp start stop page = true ↔ start / pageSize ≤ page ∧ page < stop / pageSize := by
  have startAligned := range.startAligned
  have stopAligned := range.stopAligned
  simp only [pagesUp, decide_eq_true_eq, pageSize] at startAligned stopAligned ⊢
  omega

/-- The loop that runs down visits other pages than those of the range. -/
theorem PageRange.visited_down (range : PageRange pool.own st start stop) (page : Nat)
    : pagesDown stop start page = true ↔ start / pageSize < page ∧ page ≤ stop / pageSize := by
  have startAligned := range.startAligned
  have stopAligned := range.stopAligned
  simp only [pagesDown, decide_eq_true_eq, pageSize] at startAligned stopAligned ⊢
  omega

theorem PageRange.room (range : PageRange pool.own st start stop)
    : stop + pageSize ≤ wordSize := by
  have small := range.small
  have aligned := range.stopAligned
  simp only [pageSize, wordSize] at small aligned ⊢
  omega

theorem PageRange.allocFrames (range : PageRange pool.own st start stop)
    (h : Spaces pool live held st) (alive : live st.currentDir)
    (run : allocFrames kmalloc start stop true isKernel isWriteable st = some st')
    : PagesFilled pool.own (allocContents isKernel isWriteable) (pagesUp start stop) st st' := by
  have loop : forPages (mapPage kmalloc fun _ ref => allocFrame ref isKernel isWriteable)
      (u32 (start + sub32 stop start)) pageLoopFuel start st = some st' := run
  rw [u32_add_sub32 range.small] at loop
  refine forPages_fills (allocFrame_fills isKernel isWriteable) range.room h alive
    (fun page there => ?_) loop
  obtain ⟨above, below⟩ := (range.visited_up page).mp there
  exact range.clear page above (Nat.le_of_lt below)

theorem PageRange.allocFramesReversed (range : PageRange pool.own st start stop)
    (h : Spaces pool live held st) (alive : live st.currentDir)
    (run : allocFramesReversed kmalloc start stop true isKernel isWriteable st = some st')
    : PagesFilled pool.own (allocContents isKernel isWriteable) (pagesDown stop start) st st' := by
  have loop : forPagesDown (mapPage kmalloc fun _ ref => allocFrame ref isKernel isWriteable)
      start pageLoopFuel (u32 (start + sub32 stop start)) st = some st' := run
  rw [u32_add_sub32 range.small] at loop
  refine forPagesDown_fills (allocFrame_fills isKernel isWriteable) range.small
    (range.stopAligned.trans range.startAligned.symm) h alive (fun page there => ?_) loop
  obtain ⟨above, below⟩ := (range.visited_down page).mp there
  exact range.clear page (Nat.le_of_lt above) below

/-- Both loops return unless a table is refused or `allocFrame` finds no frame and panics. -/
theorem allocFrames_refused (range : PageRange pool.own st start stop)
    (refused : allocFrames kmalloc start stop true isKernel isWriteable st = none
      ∨ allocFramesReversed kmalloc start stop true isKernel isWriteable st = none)
    : ∃ mid, kmalloc 4096 1 true mid = none
        ∨ ∃ ref, allocFrame ref isKernel isWriteable mid = none := by
  have round : ∃ (j : Nat) (mid : Kernel),
      mapPage kmalloc (fun _ ref => allocFrame ref isKernel isWriteable) j mid = none := by
    rcases refused with refused | refused
    · have loop : forPages (mapPage kmalloc fun _ ref => allocFrame ref isKernel isWriteable)
          (u32 (start + sub32 stop start)) pageLoopFuel start st = none := refused
      rw [u32_add_sub32 range.small] at loop
      obtain ⟨j, mid, -, none⟩ := forPages_refused range.room loop
      exact ⟨j, mid, none⟩
    · have loop : forPagesDown (mapPage kmalloc fun _ ref => allocFrame ref isKernel isWriteable)
          start (2097151 + 1) (u32 (start + sub32 stop start)) st = none := refused
      rw [u32_add_sub32 range.small] at loop
      have small := range.small
      obtain ⟨j, mid, -, -, none⟩ := forPagesDown_refused range.small
        (range.stopAligned.trans range.startAligned.symm)
        (by simp only [wordSize, pageSize] at small ⊢; omega) loop
      exact ⟨j, mid, none⟩
  obtain ⟨j, mid, none⟩ := round
  rcases mapPage_refused none with table | ⟨ref, found, entry⟩
  · exact ⟨mid, .inl table⟩
  · exact ⟨found, .inr ⟨ref, entry⟩⟩

/-- What holds of every filled entry holds of a page if it was visited empty or held it before. -/
theorem PagesFilled.holds_iff {own : Nat → Prop} {contents : Contents} {visited : Nat → Bool}
    (h : PagesFilled own contents visited st st') (Q : Page → Prop)
    (good : ∀ page entry frames, contents page entry frames → Q entry) {page : Nat}
    (small : page < addressPages) (notOwn : ¬ own page)
    : Q (st'.entry st.currentDir page)
      ↔ visited page = true ∧ (st.entry st.currentDir page).frame = 0
        ∨ Q (st.entry st.currentDir page) := by
  by_cases empty : visited page = true ∧ (st.entry st.currentDir page).frame = 0
  · have now := good _ _ _ (h.filled page small notOwn empty.1 empty.2)
    exact iff_of_true now (.inl empty)
  · have same : st'.entry st.currentDir page = st.entry st.currentDir page := by
      refine h.kept page small notOwn ?_
      rw [← Bool.not_eq_true]
      exact not_and_or.mp empty
    rw [same, or_iff_right empty]

-----------------------------------------------------------------------------------------
-- When the loops agree
-----------------------------------------------------------------------------------------

/-- The stack that `createStack` makes below its top. -/
theorem PageRange.createStack (range : PageRange pool.own st start stop)
    (h : Spaces pool live held st) (alive : live st.currentDir) {kernelStack : Bool}
    (run : createStack kmalloc stop (stop - start) kernelStack st = some st')
    : PagesFilled pool.own (allocContents (if kernelStack then 1 else 0) 1) (pagesDown stop start)
        st st' := by
  have bottom : sub32 stop (stop - start) = start := by
    rw [sub32_of_le range.small (Nat.sub_le _ _), Nat.sub_sub_self range.ascending.le]
  rw [DeadKernel.createStack, bottom] at run
  exact range.allocFramesReversed h alive run

end

-----------------------------------------------------------------------------------------
-- A task's stack
-----------------------------------------------------------------------------------------

end DeadKernel
