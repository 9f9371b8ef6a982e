import DeadKernel.Loading.PageRanges
import DeadKernel.Memory.DirectoryBalance

/-! Identity mapping of a range. `allocFramesMirrored` rounds its bounds with an exclusive or, which
turns the offset of an address into its complement; so the loop runs over addresses inside the
pages, and whether it takes a page behind that of its bound depends on how the two offsets compare.
-/

namespace DeadKernel

open Words

-----------------------------------------------------------------------------------------
-- The pages that are visited
-----------------------------------------------------------------------------------------

/-- The bounds of the loop. -/
def mirroredStart (start : Nat) : Nat := start ^^^ (if start ≠ 0 then pageSize - 1 else 0)

def mirroredStop (stop : Nat) : Nat := u32 ((stop ^^^ (pageSize - 1)) + pageSize)

theorem xor_pageMask (address : Nat)
    : address ^^^ (pageSize - 1)
      = address / pageSize * pageSize + (pageSize - 1 - address % pageSize) :=
  xor_low_ones address 12

/-- The offset at which the loop runs over its pages. -/
def mirroredOffset (start : Nat) : Nat := if start = 0 then 0 else pageSize - 1 - start % pageSize

theorem mirroredStart_eq (start : Nat)
    : mirroredStart start = start / pageSize * pageSize + mirroredOffset start := by
  rw [mirroredStart, mirroredOffset]
  by_cases zero : start = 0
  · rw [if_neg (not_not.mpr zero), if_pos zero, zero]
    rfl
  · rw [if_pos zero, if_neg zero, xor_pageMask]

theorem mirroredOffset_lt (start : Nat) : mirroredOffset start < pageSize := by
  rw [mirroredOffset]
  split
  · decide
  · simp only [pageSize]
    omega

/-- The bound lies in the page behind that of the address. -/
theorem mirroredStop_eq {stop : Nat} (bounded : stop + 2 * pageSize ≤ nframes * pageSize)
    : mirroredStop stop
      = (stop / pageSize + 1) * pageSize + (pageSize - 1 - stop % pageSize) := by
  rw [mirroredStop, xor_pageMask]
  simp only [u32, wordSize, pageSize, nframes] at bounded ⊢
  omega

/-- For all alignments: the loop visits the pages of its range, and one more exactly if the offset
of the upper bound lies below that of the lower one.
-/
theorem mirrored_visited {start stop : Nat} (bounded : stop + 2 * pageSize ≤ nframes * pageSize)
    (page : Nat)
    : pagesUp (mirroredStart start) (mirroredStop stop) page = true
      ↔ start / pageSize ≤ page
        ∧ (page ≤ stop / pageSize
          ∨ page = stop / pageSize + 1
            ∧ mirroredOffset start + stop % pageSize < pageSize - 1) := by
  have offset := mirroredOffset_lt start
  rw [pagesUp, mirroredStart_eq, mirroredStop_eq bounded, decide_eq_true_eq]
  generalize mirroredOffset start = low at offset
  simp only [pageSize] at offset ⊢
  omega

-----------------------------------------------------------------------------------------
-- The entries behind them
-----------------------------------------------------------------------------------------

section

variable {kmalloc : Kmalloc} {kfree : Kfree} {pool : BlockPool kmalloc kfree}
variable {live : Nat → Prop} {held : Blocks} {st st' : Kernel}
variable {start stop isKernel isWriteable : Nat}

/-- The loop behind `allocFramesMirrored`. -/
theorem allocFramesMirrored_loop
    : allocFramesMirrored kmalloc start stop true isKernel isWriteable st
      = forPages (mapPage kmalloc fun i ref st => some (linkFrame ref i isKernel isWriteable st))
          (mirroredStop stop) pageLoopFuel (mirroredStart start) st := by
  have below : mirroredStop stop < wordSize := u32_lt _
  have same : allocFramesMirrored kmalloc start stop true isKernel isWriteable st
      = forPages (mapPage kmalloc fun i ref st => some (linkFrame ref i isKernel isWriteable st))
          (u32 (mirroredStart start + sub32 (mirroredStop stop) (mirroredStart start)))
          pageLoopFuel (mirroredStart start) st := rfl
  rw [same, u32_add_sub32 below]

theorem mirroredStop_room (bounded : stop + 2 * pageSize ≤ nframes * pageSize)
    : mirroredStop stop + pageSize ≤ wordSize := by
  rw [mirroredStop_eq bounded]
  simp only [pageSize, nframes, wordSize] at bounded ⊢
  omega

end

end DeadKernel
