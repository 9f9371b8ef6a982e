import DeadKernel.Memory.FrameSafety

/-! Which frame `allocFrame` takes, and what it does when there is none. `firstFrame` has no
`return` behind its loops, so its caller compares whatever the result register holds with -1.
-/

namespace DeadKernel

open Words

-----------------------------------------------------------------------------------------
-- Bitmaps with and without a clear bit
-----------------------------------------------------------------------------------------

/-- The frame is the lowest one below `nframes` whose bit is clear. -/
structure FirstClear (frames : Nat → BitVec 32) (frame : Nat) : Prop where
  below : frame < nframes
  clear : frameBit frames frame = false
  least : ∀ other < frame, frameBit frames other = true

/-- Every frame is taken. -/
def Exhausted (frames : Nat → BitVec 32) : Prop := ∀ frame < nframes, frameBit frames frame = true

/-- A bitmap that is not exhausted has a first clear bit, and `firstFrame` finds it. -/
theorem firstFrame_firstClear {st : Kernel} (some_ : ¬ Exhausted st.frames)
    : FirstClear st.frames (firstFrame st) := by
  rw [Exhausted] at some_
  push Not at some_
  obtain ⟨frame, below, clear⟩ := some_
  obtain ⟨small, first, -⟩ := firstFrame_spec below (Bool.eq_false_iff.mpr clear)
  refine ⟨small, first, fun other before => ?_⟩
  by_contra clear'
  have least := (firstFrame_spec (before.trans small) (Bool.eq_false_iff.mpr clear')).2.2
  omega

theorem FirstClear.unique {frames : Nat → BitVec 32} {frame other : Nat}
    (h : FirstClear frames frame) (h' : FirstClear frames other)
    : frame = other := by
  rcases Nat.lt_trichotomy frame other with before | same | behind
  · exact absurd (h'.least frame before) (Bool.eq_false_iff.mp h.clear)
  · exact same
  · exact absurd (h.least other behind) (Bool.eq_false_iff.mp h'.clear)

/-- The words of an exhausted bitmap are all full, so that both loops run to their ends. -/
theorem firstFrame_exhausted {st : Kernel} (full : Exhausted st.frames)
    : firstFrame st = st.fallOff := by
  have word {i : Nat} (member : i ∈ List.range (nframes / 32)) : st.frames i = 0xFFFFFFFF#32 := by
    by_contra other
    obtain ⟨position, low, clear⟩ := clear_of_ne_full other
    have below : i * 32 + position < nframes := by
      have := List.mem_range.mp member
      simp only [nframes] at this ⊢
      omega
    have busy := full _ below
    have parts : (i * 32 + position) / 32 = i ∧ (i * 32 + position) % 32 = position := by omega
    rw [frameBit, parts.1, parts.2, clear] at busy
    exact Bool.false_ne_true busy
  have none : (List.range (nframes / 32)).findSome? (fun i =>
      if st.frames i ≠ 0xFFFFFFFF#32 then (firstClearBit (st.frames i)).map (i * 32 + ·)
      else none) = none := by
    rw [List.findSome?_eq_none_iff]
    intro i member
    rw [if_neg (not_not.mpr (word member))]
  rw [firstFrame, none, Option.getD_none]

-----------------------------------------------------------------------------------------
-- Allocation
-----------------------------------------------------------------------------------------

section

variable {ref : PageRef} {isKernel isWriteable : Nat} {st : Kernel}

/-- The entry gets the first clear frame, whose bit is the only one that changes, and no other
entry does. Without a clear frame the call panics before it changes anything.
-/
structure TakesFirst (ref : PageRef) (isKernel isWriteable : Nat) (st : Kernel) : Prop where
  takes : ∀ frame, FirstClear st.frames frame →
    ∃ st', allocFrame ref isKernel isWriteable st = some st' ∧ (st'.page ref).frame = frame
      ∧ (∀ other, frameBit st'.frames other = (decide (other = frame) || frameBit st.frames other))
      ∧ ∀ other ≠ ref, st'.page other = st.page other
  panics : Exhausted st.frames → allocFrame ref isKernel isWriteable st = none

/-- With a clear frame, `allocFrame` takes the first one. -/
theorem allocFrame_takes_first (empty : (st.page ref).frame = 0) {frame : Nat}
    (first : FirstClear st.frames frame)
    : ∃ st', allocFrame ref isKernel isWriteable st = some st' ∧ (st'.page ref).frame = frame
        ∧ (∀ other, frameBit st'.frames other
          = (decide (other = frame) || frameBit st.frames other))
        ∧ ∀ other ≠ ref, st'.page other = st.page other := by
  have some_ : ¬ Exhausted st.frames := fun full =>
    absurd (full frame first.below) (Bool.eq_false_iff.mp first.clear)
  have found : firstFrame st = frame := (firstFrame_firstClear some_).unique first
  have below := first.below
  simp only [nframes] at below
  have notPanic : frame ≠ wordSize - 1 := by
    simp only [wordSize]
    omega
  have address : u32 (frame * pageSize) = frame * pageSize :=
    u32_of_lt (by simp only [pageSize, wordSize]; omega)
  refine ⟨_, by rw [allocFrame, if_neg (not_not.mpr empty), found, if_neg notPanic], ?_,
    fun other => ?_, fun other elsewhere => ?_⟩
  · rw [Kernel.page_setPage]
    exact Nat.mod_eq_of_lt (by omega)
  · rw [Kernel.setPage_frames, frameBit_setFrame, address, Nat.mul_div_cancel _ (by decide)]
  · exact Kernel.page_setPage_other elsewhere

/-- An exhausted bitmap ends in a panic exactly if the result register happens to hold -1. -/
theorem allocFrame_panics_iff (empty : (st.page ref).frame = 0) (full : Exhausted st.frames)
    : allocFrame ref isKernel isWriteable st = none ↔ st.fallOff = wordSize - 1 := by
  rw [allocFrame, if_neg (not_not.mpr empty), firstFrame_exhausted full]
  dsimp only
  split
  · rename_i minusOne
    simp only [minusOne]
  · rename_i other
    simp only [reduceCtorEq, other]

/-- `allocFrame` does what it should exactly if a frame is free, or none is and the register that
`firstFrame` leaves unset holds -1.
-/
theorem allocFrame_takesFirst_iff (empty : (st.page ref).frame = 0)
    : TakesFirst ref isKernel isWriteable st
      ↔ (∃ frame < nframes, frameBit st.frames frame = false) ∨ st.fallOff = wordSize - 1 := by
  by_cases full : Exhausted st.frames
  · have noneFree : ¬ ∃ frame < nframes, frameBit st.frames frame = false := by
      rintro ⟨frame, below, clear⟩
      exact absurd (full frame below) (Bool.eq_false_iff.mp clear)
    rw [or_iff_right noneFree, ← allocFrame_panics_iff empty full]
    refine ⟨fun takes => takes.panics full, fun panics => ⟨fun frame first => ?_, fun _ => panics⟩⟩
    exact absurd (full frame first.below) (Bool.eq_false_iff.mp first.clear)
  · have free : ∃ frame < nframes, frameBit st.frames frame = false :=
      ⟨_, (firstFrame_firstClear full).below, (firstFrame_firstClear full).clear⟩
    exact iff_of_true ⟨fun _ => allocFrame_takes_first empty, fun all => absurd all full⟩
      (Or.inl free)

end

/-- A kernel with nothing but a bitmap; `fallOff` is what the loop counter of `firstFrame` ends
with.
-/
def bitmapOnly (frames : Nat → BitVec 32) : Kernel where
  mem := fun _ => 0
  ram := fun _ _ => 0
  heaps := fun _ => ⟨0, 0, 0, 0, 0, 0⟩
  kernelHeap := 0
  placementAddress := 0
  frames
  fallOff := 8192
  tables := fun _ => PageTable.zero
  dirs := fun _ => PageDir.zero
  kernelDir := 0
  currentDir := 0

/-- Only the last frame of the last word is free. -/
theorem allocFrame_takesFirst_iff_last
    : TakesFirst (0, 0) 0 1
        (bitmapOnly fun word => if word = 8191 then 0x7FFFFFFF#32 else 0xFFFFFFFF#32) :=
  (allocFrame_takesFirst_iff rfl).mpr (Or.inl ⟨262143, by decide, by decide⟩)

/-- With every frame taken, frame 8192 is handed out a second time. -/
theorem allocFrame_exhausted_takes
    : ¬ ∀ (ref : PageRef) (isKernel isWriteable : Nat) (st : Kernel), (st.page ref).frame = 0
        → TakesFirst ref isKernel isWriteable st := by
  intro takes
  have full : Exhausted (bitmapOnly fun _ => 0xFFFFFFFF#32).frames := by
    intro frame _
    have bits : ∀ p < 32, (0xFFFFFFFF#32).getLsbD p = true := by decide
    exact bits (frame % 32) (Nat.mod_lt frame (by decide))
  have panics := (takes (0, 0) 0 1 (bitmapOnly fun _ => 0xFFFFFFFF#32) rfl).panics full
  exact absurd ((allocFrame_panics_iff rfl full).mp panics) (by decide)

end DeadKernel
