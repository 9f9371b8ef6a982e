import Mathlib.Data.BitVec

/-! A memory of bytes with 32-bit addresses that wrap around, and the little-endian values in it.
-/

namespace ByteMemory

abbrev Memory := BitVec 32 → UInt8

-----------------------------------------------------------------------------------------
-- Reading
-----------------------------------------------------------------------------------------

def readHalf (memory : Memory) (address : BitVec 32) : BitVec 16 :=
  (memory (address + 1)).toBitVec ++ (memory address).toBitVec

def readWord (memory : Memory) (address : BitVec 32) : BitVec 32 :=
  (memory (address + 3)).toBitVec ++ (memory (address + 2)).toBitVec
    ++ (memory (address + 1)).toBitVec ++ (memory address).toBitVec

/-- The addresses of the entries of a table. -/
def entries (table width : BitVec 32) (count : Nat) : List (BitVec 32) :=
  (List.range count).map fun i => table + width * BitVec.ofNat 32 i

theorem append_byte_inj {n : Nat} {high high' : BitVec n} {low low' : BitVec 8}
    : high ++ low = high' ++ low' ↔ high = high' ∧ low = low' := by
  constructor
  · intro same
    refine ⟨?_, ?_⟩
    · simpa only [BitVec.extractLsb'_append_eq_left] using congrArg (·.extractLsb' 8 n) same
    · simpa only [BitVec.extractLsb'_append_eq_right] using congrArg (·.extractLsb' 0 8) same
  · rintro ⟨rfl, rfl⟩
    rfl

/-- A word is known by its bytes. -/
theorem readWord_eq_iff {memory : Memory} {address : BitVec 32} {b0 b1 b2 b3 : UInt8}
    : readWord memory address = b3.toBitVec ++ b2.toBitVec ++ b1.toBitVec ++ b0.toBitVec
      ↔ memory address = b0 ∧ memory (address + 1) = b1 ∧ memory (address + 2) = b2
        ∧ memory (address + 3) = b3 := by
  rw [readWord, append_byte_inj, append_byte_inj, append_byte_inj]
  simp only [UInt8.toBitVec_inj]
  tauto

end ByteMemory
