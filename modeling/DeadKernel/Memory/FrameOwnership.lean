import DeadKernel.Memory.Bitmap
import DeadKernel.Memory.Boot
import Mathlib.Data.Finset.Card
import Mathlib.Logic.Relation

/-! Which frames the bitmap marks as taken, over every sequence of link, allocate and free.
Linking does not stop at a busy frame, so two entries may come to share one; the bitmap
keeps no count, and freeing either entry clears the bit for both.
-/

namespace DeadKernel

open Words

/-- Some page-table entry maps the frame. -/
def Kernel.Maps (st : Kernel) (frame : Nat) : Prop := ∃ ref, (st.page ref).frame = frame

/-- Above frame 0 and below `nframes`, exactly the mapped frames are marked. -/
def FramesExact (st : Kernel) : Prop :=
  ∀ frame, 0 < frame → frame < nframes → (frameBit st.frames frame = true ↔ st.Maps frame)

/-- The bitmap is exact, and frame 0 always counts as owned. -/
def FramesOwned (st : Kernel) : Prop :=
  frameBit st.frames 0 = true ∧ FramesExact st

-----------------------------------------------------------------------------------------
-- One call
-----------------------------------------------------------------------------------------

/-- Marking the frame that an empty entry is about to map keeps the bitmap exact. -/
theorem FramesExact.mark {st : Kernel} (h : FramesExact st) {ref : PageRef}
    (empty : (st.page ref).frame = 0) {address : Nat} {page : Page}
    (frame_eq : page.frame = address / pageSize)
    : FramesExact ({ st with frames := setFrame st.frames address }.setPage ref page) := by
  intro frame positive bound
  rw [Kernel.setPage_frames, frameBit_setFrame, Bool.or_eq_true, decide_eq_true_eq,
    h frame positive bound]
  constructor
  · rintro (same | ⟨other, maps⟩)
    · exact ⟨ref, by rw [Kernel.page_setPage, frame_eq, same]⟩
    · have elsewhere : other ≠ ref := by
        rintro rfl
        omega
      exact ⟨other, by rw [Kernel.page_setPage_other elsewhere]; exact maps⟩
  · rintro ⟨other, maps⟩
    by_cases here : other = ref
    · subst here
      rw [Kernel.page_setPage, frame_eq] at maps
      exact Or.inl maps.symm
    · rw [Kernel.page_setPage_other here] at maps
      exact Or.inr ⟨other, maps⟩

/-- An entry without a frame either is marked and mapped together, or stays as it is. -/
theorem linkFrame_cases (ref : PageRef) (alignedAddress isKernel isWriteable : Nat)
    (st : Kernel)
    : linkFrame ref alignedAddress isKernel isWriteable st = st
      ∨ (st.page ref).frame = 0 ∧ ∃ page, page.frame = alignedAddress / pageSize
        ∧ linkFrame ref alignedAddress isKernel isWriteable st
          = { st with frames := setFrame st.frames alignedAddress }.setPage ref page := by
  by_cases mapped : (st.page ref).frame ≠ 0
  · exact Or.inl (by rw [linkFrame, if_pos mapped])
  · exact Or.inr ⟨not_not.mp mapped, _, rfl, by rw [linkFrame, if_neg mapped]⟩

theorem allocFrame_cases {ref : PageRef} {isKernel isWriteable : Nat} {st st' : Kernel}
    (run : allocFrame ref isKernel isWriteable st = some st')
    : st' = st
      ∨ (st.page ref).frame = 0 ∧ ∃ address page, page.frame = address / pageSize
        ∧ st' = { st with frames := setFrame st.frames address }.setPage ref page := by
  by_cases mapped : (st.page ref).frame ≠ 0
  · rw [allocFrame, if_pos mapped] at run
    exact Or.inl (Option.some.inj run).symm
  · simp only [allocFrame, if_neg mapped] at run
    by_cases panic : firstFrame st = wordSize - 1
    · rw [if_pos panic] at run
      contradiction
    · rw [if_neg panic] at run
      refine Or.inr ⟨not_not.mp mapped, _, _, ?_, (Option.some.inj run).symm⟩
      simp only [u32, pageSize, wordSize]
      omega

theorem linkFrame_exact {st : Kernel} (h : FramesExact st) (ref : PageRef)
    (alignedAddress isKernel isWriteable : Nat)
    : FramesExact (linkFrame ref alignedAddress isKernel isWriteable st) := by
  rcases linkFrame_cases ref alignedAddress isKernel isWriteable st with
    same | ⟨empty, page, frame_eq, same⟩
  · rwa [same]
  · rw [same]
    exact h.mark empty frame_eq

theorem allocFrame_exact {st st' : Kernel} (h : FramesExact st) {ref : PageRef}
    {isKernel isWriteable : Nat} (run : allocFrame ref isKernel isWriteable st = some st')
    : FramesExact st' := by
  rcases allocFrame_cases run with rfl | ⟨empty, address, page, frame_eq, rfl⟩
  · exact h
  · exact h.mark empty frame_eq

/-- Linking and allocating only ever set bits. -/
theorem linkFrame_marked {st : Kernel} {frame : Nat} (h : frameBit st.frames frame = true)
    (ref : PageRef) (alignedAddress isKernel isWriteable : Nat)
    : frameBit (linkFrame ref alignedAddress isKernel isWriteable st).frames frame = true := by
  rcases linkFrame_cases ref alignedAddress isKernel isWriteable st with
    same | ⟨-, page, -, same⟩
  · rwa [same]
  · rw [same, Kernel.setPage_frames, frameBit_setFrame, h, Bool.or_true]

theorem allocFrame_marked {st st' : Kernel} {frame : Nat}
    (h : frameBit st.frames frame = true) {ref : PageRef} {isKernel isWriteable : Nat}
    (run : allocFrame ref isKernel isWriteable st = some st')
    : frameBit st'.frames frame = true := by
  rcases allocFrame_cases run with rfl | ⟨-, address, page, -, rfl⟩
  · exact h
  · rw [Kernel.setPage_frames, frameBit_setFrame, h, Bool.or_true]

/-- No other entry maps the frame that freeing `ref` would mark as free. -/
def FreesAlone (st : Kernel) (ref : PageRef) : Prop :=
  (st.page ref).frame = 0 ∨ nframes ≤ (st.page ref).frame
    ∨ ∀ other ≠ ref, (st.page other).frame ≠ (st.page ref).frame

/-- Freeing an entry keeps the bitmap exact if and only if no other entry shares its frame.
-/
theorem freeFrame_owned_iff {st : Kernel} (h : FramesOwned st) (ref : PageRef)
    : FramesOwned (freeFrame ref st) ↔ FreesAlone st ref := by
  by_cases empty : (st.page ref).frame = 0
  · simp [freeFrame, empty, FreesAlone, h]
  have bit (frame : Nat) : frameBit (freeFrame ref st).frames frame
      = (decide (frame ≠ (st.page ref).frame) && frameBit st.frames frame) := by
    simp only [freeFrame, if_neg empty, Kernel.setPage_frames, frameBit_clearFrame]
    rw [Nat.mul_div_cancel _ (by decide)]
  have self : ((freeFrame ref st).page ref).frame = 0 := by
    simp [freeFrame, empty]
  have others {other} (distinct : other ≠ ref)
      : (freeFrame ref st).page other = st.page other := by
    simp only [freeFrame, if_neg empty]
    exact Kernel.page_setPage_other distinct
  constructor
  · intro owned
    by_contra shared
    simp only [FreesAlone, empty, false_or, not_or, not_forall, not_le, not_not] at shared
    obtain ⟨bound, other, distinct, same⟩ := shared
    have marked := (owned.2 _ (Nat.pos_of_ne_zero empty) bound).mpr
      ⟨other, by rw [others distinct, same]⟩
    simp [bit] at marked
  · intro alone
    refine ⟨by simp [bit, h.1, Ne.symm empty], fun frame positive bound => ?_⟩
    rw [bit, Bool.and_eq_true, decide_eq_true_eq, h.2 frame positive bound]
    constructor
    · rintro ⟨distinct, other, maps⟩
      have elsewhere : other ≠ ref := fun here => distinct (here ▸ maps).symm
      exact ⟨other, by rw [others elsewhere]; exact maps⟩
    · rintro ⟨other, maps⟩
      by_cases here : other = ref
      · rw [here, self] at maps
        omega
      · rw [others here] at maps
        refine ⟨fun same => ?_, other, maps⟩
        rcases alone with none | above | unshared
        · exact empty none
        · omega
        · exact unshared other here (maps.trans same)

-----------------------------------------------------------------------------------------
-- Sequences of calls
-----------------------------------------------------------------------------------------

inductive FrameCall where
  | alloc (ref : PageRef) (isKernel isWriteable : Nat)
  | link (ref : PageRef) (alignedAddress isKernel isWriteable : Nat)
  | free (ref : PageRef)

def FrameCall.run (st : Kernel) : FrameCall → Option Kernel
  | .alloc ref isKernel isWriteable => allocFrame ref isKernel isWriteable st
  | .link ref alignedAddress isKernel isWriteable =>
      some (linkFrame ref alignedAddress isKernel isWriteable st)
  | .free ref => some (freeFrame ref st)

/-- When a call keeps frames and bitmap together: an allocation that needs a frame finds a
clear one, and a freed frame has no second owner.
-/
def FrameCall.Sound (st : Kernel) : FrameCall → Prop
  | .alloc ref _ _ =>
      (st.page ref).frame ≠ 0 ∨ ∃ frame < nframes, frameBit st.frames frame = false
  | .link .. => True
  | .free ref => FreesAlone st ref

def SoundFrameStep (st st' : Kernel) : Prop :=
  ∃ call : FrameCall, call.Sound st ∧ call.run st = some st'

theorem SoundFrameStep.owned {st st' : Kernel} (h : FramesOwned st)
    (step : SoundFrameStep st st')
    : FramesOwned st' := by
  obtain ⟨call, sound, run⟩ := step
  cases call with
  | alloc ref isKernel isWriteable =>
      exact ⟨allocFrame_marked h.1 run, allocFrame_exact h.2 run⟩
  | link ref alignedAddress isKernel isWriteable =>
      obtain rfl := Option.some.inj run
      exact ⟨linkFrame_marked h.1 ref _ _ _, linkFrame_exact h.2 ref _ _ _⟩
  | free ref => exact Option.some.inj run ▸ (freeFrame_owned_iff h ref).mpr sound

end DeadKernel
