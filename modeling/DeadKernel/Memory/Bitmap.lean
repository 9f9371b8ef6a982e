import DeadKernel.Memory.Paging
import Mathlib.Order.Basic

/-! What the bitmap macros and `firstFrame` do, as facts about single frames. -/

namespace DeadKernel

open Words

/-- The bit that the bitmap keeps for a frame. -/
def frameBit (frames : Nat → BitVec 32) (frame : Nat) : Bool :=
  (frames (frame / 32)).getLsbD (frame % 32)

/-- A single shifted bit is set exactly at its position. -/
theorem getLsbD_oneBit {position other : Nat} (h : other < 32)
    : (1#32 <<< position).getLsbD other = decide (other = position) := by
  rw [BitVec.getLsbD_shiftLeft]
  simp only [BitVec.getLsbD_one]
  by_cases same : other = position
  · simp [same]
    omega
  · by_cases below : other < position
    · simp [same, below]
    · have : other - position ≠ 0 := by omega
      simp [same, this]

theorem frameBit_setFrame (frames : Nat → BitVec 32) (address frame : Nat)
    : frameBit (setFrame frames address) frame
      = (decide (frame = address / pageSize) || frameBit frames frame) := by
  by_cases word : frame / 32 = address / pageSize / 32
  · simp only [frameBit, setFrame, word, update_self, BitVec.getLsbD_or,
      getLsbD_oneBit (Nat.mod_lt frame (by decide : 0 < 32))]
    have : (frame % 32 = address / pageSize % 32) ↔ frame = address / pageSize := by omega
    rw [Bool.or_comm]
    simp [this]
  · have : frame ≠ address / pageSize := fun same => word (by rw [same])
    simp [frameBit, setFrame, update_other word, this]

theorem frameBit_clearFrame (frames : Nat → BitVec 32) (address frame : Nat)
    : frameBit (clearFrame frames address) frame
      = (decide (frame ≠ address / pageSize) && frameBit frames frame) := by
  have low : frame % 32 < 32 := Nat.mod_lt frame (by decide)
  by_cases word : frame / 32 = address / pageSize / 32
  · simp only [frameBit, clearFrame, word, update_self, BitVec.getLsbD_and, BitVec.getLsbD_not,
      getLsbD_oneBit low]
    have : (frame % 32 = address / pageSize % 32) ↔ frame = address / pageSize := by omega
    rw [Bool.and_comm]
    simp [this, low]
  · have : frame ≠ address / pageSize := fun same => word (by rw [same])
    simp [frameBit, clearFrame, update_other word, this]

/-- A masked word is zero exactly when the bit is clear. -/
theorem and_oneBit_eq_zero {word : BitVec 32} {position : Nat} (h : position < 32)
    : word &&& (1#32 <<< position) = 0#32 ↔ word.getLsbD position = false := by
  constructor
  · intro zero
    have bit := congrArg (fun w => w.getLsbD position) zero
    simpa [BitVec.getLsbD_and, getLsbD_oneBit h] using bit
  · intro clear
    apply BitVec.eq_of_getLsbD_eq
    intro i hi
    rw [BitVec.getLsbD_and, getLsbD_oneBit hi]
    by_cases same : i = position
    · simp [same, clear]
    · simp [same]

theorem readFrame_eq (frames : Nat → BitVec 32) (address : Nat)
    : readFrame frames address = frameBit frames (address / pageSize) := by
  have zero : frames (address / pageSize / 32) &&& (1#32 <<< (address / pageSize % 32)) = 0#32
      ↔ (frames (address / pageSize / 32)).getLsbD (address / pageSize % 32) = false :=
    and_oneBit_eq_zero (Nat.mod_lt _ (by decide))
  rw [Bool.eq_iff_iff]
  simp only [readFrame, decide_eq_true_eq, BitVec.pos_iff_ne_zero, ne_eq, zero, frameBit,
    Bool.not_eq_false]

/-- A word with a clear bit has a first clear bit. -/
theorem firstClearBit_some {word : BitVec 32} {position : Nat} (h : position < 32)
    (clear : word.getLsbD position = false)
    : ∃ first, firstClearBit word = some first ∧ first < 32 ∧ first ≤ position
        ∧ word.getLsbD first = false := by
  have found : (firstClearBit word).isSome := by
    rw [firstClearBit, List.find?_isSome]
    exact ⟨position, List.mem_range.mpr h, by simpa using (and_oneBit_eq_zero h).mpr clear⟩
  obtain ⟨first, hf⟩ := Option.isSome_iff_exists.mp found
  have member := List.mem_range.mp (List.mem_of_find?_eq_some hf)
  have zero := List.find?_some hf
  simp only [decide_eq_true_eq] at zero
  refine ⟨first, hf, member, ?_, (and_oneBit_eq_zero member).mp zero⟩
  by_contra later
  rw [firstClearBit, List.find?_range_eq_some] at hf
  have skipped := hf.2.2 position (by omega)
  simp [(and_oneBit_eq_zero h).mpr clear] at skipped

/-- A search through a range stops at the first hit, by induction over the range. -/
private theorem findSome?_range {β : Type} {f : Nat → Option β} {n i : Nat} {b : β}
    (hi : i < n) (hit : f i = some b) (before : ∀ j < i, f j = none)
    : (List.range n).findSome? f = some b := by
  have front : (List.range i).findSome? f = none := by
    rw [List.findSome?_eq_none_iff]
    intro j member
    exact before j (List.mem_range.mp member)
  obtain ⟨more, rfl⟩ : ∃ more, n = i + (more + 1) := ⟨n - i - 1, by omega⟩
  rw [List.range_add, List.findSome?_append, front, List.range_succ_eq_map]
  simp [hit]

/-- A clear bit makes its word differ from the full one. -/
theorem ne_full_of_clear {word : BitVec 32} {position : Nat} (h : position < 32)
    (clear : word.getLsbD position = false)
    : word ≠ 0xFFFFFFFF#32 := by
  rintro rfl
  have full : (0xFFFFFFFF#32).getLsbD position = true := by
    have : ∀ p < 32, (0xFFFFFFFF#32).getLsbD p = true := by decide
    exact this position h
  simp [full] at clear

/-- A word other than the full one has a clear bit. -/
theorem clear_of_ne_full {word : BitVec 32} (h : word ≠ 0xFFFFFFFF#32)
    : ∃ position < 32, word.getLsbD position = false := by
  by_contra none
  push Not at none
  apply h
  apply BitVec.eq_of_getLsbD_eq
  intro i hi
  have full : ∀ p < 32, (0xFFFFFFFF#32).getLsbD p = true := by decide
  rw [full i hi]
  simpa using none i hi

/-- `firstFrame` yields the lowest clear frame when there is one.
Witness: the first word that is not full, and its first clear bit.
-/
theorem firstFrame_spec {st : Kernel} {frame : Nat} (h : frame < nframes)
    (clear : frameBit st.frames frame = false)
    : firstFrame st < nframes ∧ frameBit st.frames (firstFrame st) = false
      ∧ firstFrame st ≤ frame := by
  have low : frame % 32 < 32 := Nat.mod_lt frame (by decide)
  have open' : ∃ i, st.frames i ≠ 0xFFFFFFFF#32 := ⟨frame / 32, ne_full_of_clear low clear⟩
  classical
  obtain ⟨word, hword, least⟩ : ∃ word, st.frames word ≠ 0xFFFFFFFF#32
      ∧ ∀ j < word, st.frames j = 0xFFFFFFFF#32 :=
    ⟨Nat.find open', Nat.find_spec open', fun j hj => by simpa using Nat.find_min open' hj⟩
  have first : word ≤ frame / 32 := by
    by_contra later
    exact ne_full_of_clear low clear (least _ (by omega))
  obtain ⟨position, hp, hclear⟩ := clear_of_ne_full hword
  obtain ⟨bit, found, bitLt, -, bitClear⟩ := firstClearBit_some hp hclear
  have result : firstFrame st = word * 32 + bit := by
    rw [firstFrame, findSome?_range (i := word) (b := word * 32 + bit)]
    · rfl
    · simp only [nframes] at h ⊢
      omega
    · simp [hword, found]
    · intro j hj
      simp [least j hj]
  have parts : (word * 32 + bit) / 32 = word ∧ (word * 32 + bit) % 32 = bit := by omega
  rw [result]
  refine ⟨by simp only [nframes] at h ⊢; omega, ?_, ?_⟩
  · rw [frameBit, parts.1, parts.2, bitClear]
  · by_contra later
    have sameWord : frame / 32 = word := by omega
    have clear' : (st.frames word).getLsbD (frame % 32) = false := sameWord ▸ clear
    obtain ⟨other, found', -, before, -⟩ := firstClearBit_some low clear'
    rw [Option.some.inj (found.symm.trans found')] at later
    omega

end DeadKernel
