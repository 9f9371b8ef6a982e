import DeadKernel.Foundation.Rings
import Mathlib.Tactic.Ring
import Mathlib.Data.Nat.Bitwise

/-! A byte-addressed memory with little-endian 32-bit words, and the 32-bit arithmetic of
the programs that run on it. Addresses and words are natural numbers; wherever a result
can leave the range of a machine word the reduction modulo 2^32 is written out.
-/

namespace Words

/-- One byte at each address. -/
abbrev Mem := Nat → UInt8

/-- The number of values of a machine word. -/
abbrev wordSize : Nat := 4294967296

/-- The machine word that a computed value wraps to. -/
def u32 (value : Nat) : Nat := value % wordSize

/-- Machine subtraction: a negative difference wraps around. -/
def sub32 (left right : Nat) : Nat := (left + (wordSize - right % wordSize)) % wordSize

/-- A value in range is its own machine word. -/
theorem u32_of_lt {value : Nat} (h : value < wordSize) : u32 value = value :=
  Nat.mod_eq_of_lt h

/-- Every machine word is in range. -/
theorem u32_lt (value : Nat) : u32 value < wordSize :=
  Nat.mod_lt _ (by decide)

/-- Every machine difference is in range. -/
theorem sub32_lt (left right : Nat) : sub32 left right < wordSize :=
  Nat.mod_lt _ (by decide)

/-- Machine subtraction is exact when the difference is not negative. -/
theorem sub32_of_le {left right : Nat} (hl : left < wordSize) (h : right ≤ left)
    : sub32 left right = left - right := by
  simp only [sub32, wordSize] at *
  omega

/-- Adding a machine difference back gives the word it was taken from. -/
theorem u32_add_sub32 {left : Nat} (h : left < wordSize) (right : Nat)
    : u32 (right + sub32 left right) = left := by
  simp only [u32, sub32, wordSize] at *
  omega

/-! ### Words in memory -/

/-- The word stored at the four bytes from `address`. -/
def load32 (m : Mem) (address : Nat) : Nat :=
  (m address).toNat + (m (address + 1)).toNat * 256 + (m (address + 2)).toNat * 65536
    + (m (address + 3)).toNat * 16777216

/-- Store a word at the four bytes from `address`. -/
def store32 (m : Mem) (address value : Nat) : Mem := fun byte =>
  if byte = address then UInt8.ofNat value
  else if byte = address + 1 then UInt8.ofNat (value / 256)
  else if byte = address + 2 then UInt8.ofNat (value / 65536)
  else if byte = address + 3 then UInt8.ofNat (value / 16777216)
  else m byte

/-- A loaded word is in range, since each of its bytes is. -/
theorem load32_lt (m : Mem) (address : Nat) : load32 m address < wordSize := by
  have h0 := (m address).toNat_lt
  have h1 := (m (address + 1)).toNat_lt
  have h2 := (m (address + 2)).toNat_lt
  have h3 := (m (address + 3)).toNat_lt
  simp only [load32, wordSize]
  omega

/-- A store changes no byte outside its word. -/
theorem store32_other {m : Mem} {address value byte : Nat}
    (h : byte < address ∨ address + 4 ≤ byte)
    : store32 m address value byte = m byte := by
  have h0 : byte ≠ address := by omega
  have h1 : byte ≠ address + 1 := by omega
  have h2 : byte ≠ address + 2 := by omega
  have h3 : byte ≠ address + 3 := by omega
  simp only [store32, h0, h1, h2, h3, if_false]

/-- A load sees only the four bytes of its word. -/
theorem load32_congr {m m' : Mem} {address : Nat}
    (h : ∀ byte, address ≤ byte → byte < address + 4 → m' byte = m byte)
    : load32 m' address = load32 m address := by
  simp only [load32, h address (by omega) (by omega), h (address + 1) (by omega) (by omega),
    h (address + 2) (by omega) (by omega), h (address + 3) (by omega) (by omega)]

/-- A load after a store to a word that does not overlap it. -/
theorem load32_store32_other {m : Mem} {address other value : Nat}
    (h : other + 4 ≤ address ∨ address + 4 ≤ other)
    : load32 (store32 m address value) other = load32 m other :=
  load32_congr (fun byte _ _ => store32_other (by omega))

/-- A load gives back the word just stored there. -/
theorem load32_store32 {m : Mem} {address value : Nat} (h : value < wordSize)
    : load32 (store32 m address value) address = value := by
  have h1 : address + 1 ≠ address := by omega
  have h2 : address + 2 ≠ address ∧ address + 2 ≠ address + 1 := by omega
  have h3 : address + 3 ≠ address ∧ address + 3 ≠ address + 1 ∧ address + 3 ≠ address + 2 := by
    omega
  simp only [load32, store32, h1, h2, h3, if_true, if_false, UInt8.toNat_ofNat']
  simp only [wordSize] at h
  omega

/-! ### Memory that changes only in known places -/

/-- `m'` differs from `m` at most on the bytes of `touched`. -/
def ChangedOnly (touched : Nat → Prop) (m m' : Mem) : Prop :=
  ∀ byte, ¬ touched byte → m' byte = m byte

/-- The bytes of the word at `address`. -/
def wordAt (address : Nat) (byte : Nat) : Prop := address ≤ byte ∧ byte < address + 4

/-- Unchanged memory differs nowhere. -/
theorem ChangedOnly.refl (touched : Nat → Prop) (m : Mem) : ChangedOnly touched m m :=
  fun _ _ => rfl

/-- Consecutive changes touch what either of them touches. -/
theorem ChangedOnly.trans {touched : Nat → Prop} {m m' m'' : Mem}
    (h : ChangedOnly touched m m') (h' : ChangedOnly touched m' m'')
    : ChangedOnly touched m m'' :=
  fun byte out => (h' byte out).trans (h byte out)

/-- A larger allowance is weaker. -/
theorem ChangedOnly.mono {touched more : Nat → Prop} {m m' : Mem}
    (h : ChangedOnly touched m m') (sub : ∀ byte, touched byte → more byte)
    : ChangedOnly more m m' :=
  fun byte out => h byte (fun inside => out (sub byte inside))

/-- A store touches the word it writes. -/
theorem ChangedOnly.store {touched : Nat → Prop} {m : Mem} {address value : Nat}
    (h : ∀ byte, address ≤ byte → byte < address + 4 → touched byte)
    : ChangedOnly touched m (store32 m address value) := by
  intro byte out
  apply store32_other
  by_contra inside
  exact out (h byte (by omega) (by omega))

/-- A word with no touched byte reads as before. -/
theorem ChangedOnly.load32 {touched : Nat → Prop} {m m' : Mem} {address : Nat}
    (h : ChangedOnly touched m m')
    (out : ∀ byte, address ≤ byte → byte < address + 4 → ¬ touched byte)
    : load32 m' address = load32 m address :=
  load32_congr (fun byte hl hu => h byte (out byte hl hu))

/-! ### Bit masks on words -/

/-- Clearing the `low` lowest bits of a word rounds it down to a multiple of `2 ^ low`.
Witness: compare bits, the kept ones lie from position `low` up.
-/
theorem and_clear_low {value low : Nat} (h : value < wordSize) (hlow : low ≤ 32)
    : value &&& ((2 ^ (32 - low) - 1) * 2 ^ low) = value / 2 ^ low * 2 ^ low := by
  apply Nat.eq_of_testBit_eq
  intro i
  rw [Nat.testBit_and, Nat.testBit_mul_two_pow, Nat.testBit_mul_two_pow,
    Nat.testBit_two_pow_sub_one, Nat.testBit_div_two_pow]
  by_cases above : low ≤ i
  · have back : i - low + low = i := by omega
    by_cases kept : i - low < 32 - low
    · simp [above, kept, back]
    · have zero : value.testBit i = false := by
        apply Nat.testBit_lt_two_pow (lt_of_lt_of_le h _)
        have wide : 2 ^ 32 ≤ 2 ^ i := Nat.pow_le_pow_right (by decide) (by omega)
        simpa [wordSize] using wide
      simp [zero, back]
  · simp [above]

theorem and_clear_low3 {value : Nat} (h : value < wordSize)
    : value &&& (wordSize - 8) = value / 8 * 8 :=
  and_clear_low h (by decide : 3 ≤ 32)

theorem and_clear_low12 {value : Nat} (h : value < wordSize)
    : value &&& (wordSize - 4096) = value / 4096 * 4096 :=
  and_clear_low h (by decide : 12 ≤ 32)

/-- An exclusive or with `low` ones complements the `low` lowest bits and keeps the others. -/
theorem xor_low_ones (value low : Nat)
    : value ^^^ (2 ^ low - 1) = value / 2 ^ low * 2 ^ low + (2 ^ low - 1 - value % 2 ^ low) := by
  have positive : 0 < 2 ^ low := Nat.two_pow_pos low
  have high : (value ^^^ (2 ^ low - 1)) / 2 ^ low = value / 2 ^ low := by
    rw [Nat.xor_div_two_pow, Nat.div_eq_of_lt (by omega : 2 ^ low - 1 < 2 ^ low), Nat.xor_zero]
  have complement : (value ^^^ (2 ^ low - 1)) % 2 ^ low = 2 ^ low - 1 - value % 2 ^ low := by
    have flipped := @BitVec.toNat_not low (BitVec.ofNat low value)
    rw [← BitVec.xor_allOnes, BitVec.toNat_xor, BitVec.toNat_allOnes, BitVec.toNat_ofNat] at flipped
    rw [Nat.xor_mod_two_pow, Nat.mod_eq_of_lt (by omega : 2 ^ low - 1 < 2 ^ low)]
    exact flipped
  rw [← high, ← complement, Nat.div_add_mod']

end Words
