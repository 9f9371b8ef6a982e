import DeadKernel.Foundation.ByteMemory
import Mathlib.Tactic.Ring

/-! A memory of which only some addresses can be accessed: bytes, words and copies. -/

namespace ByteMemory

-----------------------------------------------------------------------------------------
-- Words that are written
-----------------------------------------------------------------------------------------

/-- The address is one of `size` from `start` on, around the top of the address space. -/
def Covers (start : BitVec 32) (size : Nat) (address : BitVec 32) : Prop :=
  (address - start).toNat < size

instance (start : BitVec 32) (size : Nat) (address : BitVec 32)
    : Decidable (Covers start size address) :=
  inferInstanceAs (Decidable (_ < _))

def writeByte (memory : Memory) (address : BitVec 32) (byte : UInt8) : Memory := fun other =>
  if other = address then byte else memory other

def writeWord (memory : Memory) (address value : BitVec 32) : Memory := fun other =>
  if Covers address 4 other then ⟨value.extractLsb' (8 * (other - address).toNat) 8⟩
  else memory other

theorem not_covers_zero (start address : BitVec 32) : ¬ Covers start 0 address :=
  Nat.not_lt_zero _

theorem covers_add {start address : BitVec 32} {size : Nat} (offset : BitVec 32)
    : Covers (start + offset) size (address + offset) ↔ Covers start size address := by
  rw [Covers, Covers, add_sub_add_right_eq_sub]

theorem covers_succ {start address : BitVec 32} {size : Nat}
    : Covers start (size + 1) address ↔ address = start ∨ Covers (start + 1) size address := by
  rw [Covers, Covers]
  constructor
  · intro inside
    by_cases first : address = start
    · exact .inl first
    · right
      bv_omega
  · rintro (rfl | inside)
    · bv_omega
    · bv_omega

section Words

variable {memory : Memory} {address other value : BitVec 32}

theorem writeWord_apart (apart : ¬ Covers address 4 other)
    : writeWord memory address value other = memory other :=
  if_neg apart

theorem readWord_congr {memory' : Memory} {address' : BitVec 32}
    (same : ∀ k < 4, memory' (address' + BitVec.ofNat 32 k) = memory (address + BitVec.ofNat 32 k))
    : readWord memory' address' = readWord memory address := by
  have first : memory' address' = memory address := by
    have zero (start : BitVec 32) : start + BitVec.ofNat 32 0 = start := BitVec.add_zero start
    simpa only [zero] using same 0 (by decide)
  have second : memory' (address' + 1) = memory (address + 1) := same 1 (by decide)
  have third : memory' (address' + 2) = memory (address + 2) := same 2 (by decide)
  have fourth : memory' (address' + 3) = memory (address + 3) := same 3 (by decide)
  rw [readWord, readWord, first, second, third, fourth]

theorem readWord_writeWord : readWord (writeWord memory address value) address = value := by
  have byte (k : Nat) (less : k < 4) (other : BitVec 32)
      (there : other = address + BitVec.ofNat 32 k)
      : (writeWord memory address value other).toBitVec = value.extractLsb' (8 * k) 8 := by
    subst there
    have offset : (address + BitVec.ofNat 32 k - address).toNat = k := by bv_omega
    rw [writeWord, if_pos (by rw [Covers, offset]; exact less), offset]
  have upper : value.extractLsb' 24 8 ++ value.extractLsb' 16 8 = value.extractLsb' 16 16 :=
    BitVec.extractLsb'_append_extractLsb'_eq_extractLsb' rfl
  have middle : value.extractLsb' 16 16 ++ value.extractLsb' 8 8 = value.extractLsb' 8 24 :=
    BitVec.extractLsb'_append_extractLsb'_eq_extractLsb' rfl
  have lower : value.extractLsb' 8 24 ++ value.extractLsb' 0 8 = value.extractLsb' 0 32 :=
    BitVec.extractLsb'_append_extractLsb'_eq_extractLsb' rfl
  rw [readWord, byte 3 (by decide) (address + 3) rfl, byte 2 (by decide) (address + 2) rfl,
    byte 1 (by decide) (address + 1) rfl,
    byte 0 (by decide) address (BitVec.add_zero address).symm]
  exact (congrArg (· ++ _ ++ _) upper).trans
    ((congrArg (· ++ _) middle).trans (lower.trans BitVec.extractLsb'_eq_self))

theorem readWord_writeWord_apart
    (apart : ∀ k < 4, ¬ Covers address 4 (other + BitVec.ofNat 32 k))
    : readWord (writeWord memory address value) other = readWord memory other :=
  readWord_congr fun k less => writeWord_apart (apart k less)

end Words

-----------------------------------------------------------------------------------------
-- Guarded accesses
-----------------------------------------------------------------------------------------

/-- A memory with the addresses that can be accessed; an access anywhere else has no result. -/
structure Space where
  bytes : Memory
  mapped : BitVec 32 → Bool

/-- All `size` addresses from `start` on can be accessed. -/
def Space.Mapped (space : Space) (start : BitVec 32) (size : Nat) : Prop :=
  ∀ address, Covers start size address → space.mapped address = true

def Space.load (space : Space) (address : BitVec 32) : Option UInt8 :=
  if space.mapped address then some (space.bytes address) else none

def Space.store (space : Space) (address : BitVec 32) (byte : UInt8) : Option Space :=
  if space.mapped address then some { space with bytes := writeByte space.bytes address byte }
  else none

/-- The four bytes of a word can be accessed. -/
def Space.mappedWord (space : Space) (address : BitVec 32) : Bool :=
  space.mapped address && space.mapped (address + 1) && space.mapped (address + 2)
    && space.mapped (address + 3)

def Space.loadWord (space : Space) (address : BitVec 32) : Option (BitVec 32) :=
  if space.mappedWord address then some (readWord space.bytes address) else none

def Space.storeWord (space : Space) (address value : BitVec 32) : Option Space :=
  if space.mappedWord address then
    some { space with bytes := writeWord space.bytes address value }
  else none

/-- Copies bytes upwards, one after the other. -/
def copy : Nat → BitVec 32 → BitVec 32 → Space → Option Space
  | 0, _, _, space => some space
  | len + 1, dest, src, space =>
      (space.load src).bind fun byte =>
        (space.store dest byte).bind (copy len (dest + 1) (src + 1))

section Guarded

variable {space : Space} {start address dest src : BitVec 32} {size len : Nat}

theorem Space.Mapped.word (mapped : space.Mapped start size)
    (inside : ∀ k < 4, Covers start size (address + BitVec.ofNat 32 k))
    : space.mappedWord address = true := by
  have first : space.mapped address = true := by
    simpa only [show address + BitVec.ofNat 32 0 = address from BitVec.add_zero address]
      using mapped _ (inside 0 (by decide))
  have second : space.mapped (address + 1) = true := mapped _ (inside 1 (by decide))
  have third : space.mapped (address + 2) = true := mapped _ (inside 2 (by decide))
  have fourth : space.mapped (address + 3) = true := mapped _ (inside 3 (by decide))
  rw [Space.mappedWord, first, second, third, fourth]
  rfl

theorem Space.loadWord_eq (mapped : space.mappedWord address = true)
    : space.loadWord address = some (readWord space.bytes address) :=
  if_pos mapped

theorem Space.storeWord_eq {value : BitVec 32} (mapped : space.mappedWord address = true)
    : space.storeWord address value
      = some { space with bytes := writeWord space.bytes address value } :=
  if_pos mapped

/-- A copy to another region arrives, and changes nothing outside that region. The induction is on
the number of bytes, and the first byte is not written again.
-/
theorem copy_spec (source : space.Mapped src len) (target : space.Mapped dest len)
    (apart : ∀ address, Covers src len address → ¬ Covers dest len address)
    : ∃ bytes, copy len dest src space = some { space with bytes }
        ∧ ∀ address, bytes address
          = if Covers dest len address then space.bytes (address - dest + src)
            else space.bytes address := by
  induction len generalizing dest src space with
  | zero =>
      exact ⟨space.bytes, rfl, fun address => (if_neg (not_covers_zero dest address)).symm⟩
  | succ len ih =>
      have load : space.load src = some (space.bytes src) :=
        if_pos (source src (covers_succ.mpr (.inl rfl)))
      have store : space.store dest (space.bytes src)
          = some { space with bytes := writeByte space.bytes dest (space.bytes src) } :=
        if_pos (target dest (covers_succ.mpr (.inl rfl)))
      let stored : Space := { space with bytes := writeByte space.bytes dest (space.bytes src) }
      have source' : stored.Mapped (src + 1) len := fun address inside =>
        source address (covers_succ.mpr (.inr inside))
      have target' : stored.Mapped (dest + 1) len := fun address inside =>
        target address (covers_succ.mpr (.inr inside))
      obtain ⟨bytes, copies, after⟩ := ih source' target'
        fun address inside other => apart address (covers_succ.mpr (.inr inside))
          (covers_succ.mpr (.inr other))
      refine ⟨bytes, ?_, fun address => ?_⟩
      · rw [copy, load, Option.bind_some, store, Option.bind_some]
        exact copies
      · rw [after]
        by_cases later : Covers (dest + 1) len address
        · have place : address - (dest + 1) + (src + 1) = address - dest + src := by ring
          have inside : Covers src (len + 1) (address - dest + src) := by
            have covered : Covers dest (len + 1) address := covers_succ.mpr (.inr later)
            rw [Covers] at covered ⊢
            rwa [add_sub_cancel_right]
          have other : address - dest + src ≠ dest := fun same =>
            apart _ inside (covers_succ.mpr (.inl same))
          rw [if_pos later, if_pos (covers_succ.mpr (.inr later)), place]
          exact if_neg other
        · rw [if_neg later]
          by_cases first : address = dest
          · subst first
            rw [if_pos (covers_succ.mpr (.inl rfl)), sub_self, zero_add]
            exact if_pos rfl
          · have outside : ¬ Covers dest (len + 1) address := fun covered =>
              (covers_succ.mp covered).elim first later
            rw [if_neg outside]
            exact if_neg first

end Guarded

end ByteMemory
