import Mathlib.Data.Nat.Log
import Mathlib.Tactic.IntervalCases

/-! Numbers as text. `itoa` divides its signed value by an unsigned base, so that the value is
taken as unsigned, and gives a minus sign to the last quotient instead of to the value.
-/

namespace DeadKernel

/-- A character as the byte that the kernel stores. -/
abbrev chr (c : Char) : UInt8 := c.toUInt8

-----------------------------------------------------------------------------------------
-- itoa
-----------------------------------------------------------------------------------------

/-- The table in `itoa`, with 0 in its middle and the NUL of the literal at its end. -/
def digitTable : List Char :=
  ['z', 'y', 'x', 'w', 'v', 'u', 't', 's', 'r', 'q', 'p', 'o', 'n', 'm', 'l', 'k', 'j', 'i',
    'h', 'g', 'f', 'e', 'd', 'c', 'b', 'a', '9', '8', '7', '6', '5', '4', '3', '2', '1', '0',
    '1', '2', '3', '4', '5', '6', '7', '8', '9', 'a', 'b', 'c', 'd', 'e', 'f', 'g', 'h', 'i',
    'j', 'k', 'l', 'm', 'n', 'o', 'p', 'q', 'r', 's', 't', 'u', 'v', 'w', 'x', 'y', 'z', '\x00']

/-- The loop of `itoa`: the digits, the last one in front, and `tmp_value` behind the loop. No
result stands for a division by zero, a read outside the table, or too many rounds.
-/
def itoaDigits (base : BitVec 32) : Nat → BitVec 32 → Option (List UInt8 × BitVec 32)
  | 0, _ => none
  | fuel + 1, value =>
      if base = 0 then none
      else
        let tmp := value
        let value := value / base
        match digitTable[(35 + (tmp - value * base)).toNat]? with
        | none => none
        | some digit =>
            if value = 0 then some ([chr digit], tmp)
            else do
              let (digits, last) ← itoaDigits base fuel value
              some (chr digit :: digits, last)

/-- `itoa`: the string that it leaves in the buffer. -/
def itoa (fuel : Nat) (base value : BitVec 32) : Option (List UInt8) := do
  let (digits, tmp) ← itoaDigits base fuel value
  some (digits ++ if tmp.toInt < 0 then [chr '-'] else []).reverse

-----------------------------------------------------------------------------------------
-- Numerals
-----------------------------------------------------------------------------------------

/-- A number in a base, the most significant digit first. -/
def numeral (base n : Nat) : List UInt8 := (Nat.toDigits base n).map chr

theorem numeral_eq {base n : Nat} (valid : 1 < base)
    : numeral base n
      = if n < base then [chr n.digitChar]
        else numeral base (n / base) ++ [chr (n % base).digitChar] := by
  rw [numeral, Nat.toDigits_eq_if valid]
  split
  · rfl
  · rw [List.map_append]
    rfl

theorem numeral_length_pos (base n : Nat) : 0 < (numeral base n).length := by
  rw [numeral, List.length_map]
  exact Nat.length_toDigits_pos

theorem numeral_length_le {base n k : Nat} (valid : 1 < base) (small : n < base ^ (k + 1))
    : (numeral base n).length ≤ k + 1 := by
  rw [numeral, List.length_map, Nat.length_toDigits_le_iff valid (Nat.succ_pos k)]
  exact small

/-- The text of an integer, with its sign. -/
def signedNumeral (n : Int) : List UInt8 :=
  if n < 0 then chr '-' :: numeral 10 n.natAbs else numeral 10 n.natAbs

theorem digitTable_digit {digit : Nat} (small : digit < 16)
    : digitTable[35 + digit]? = some digit.digitChar := by
  interval_cases digit <;> rfl

section Itoa

variable {base value : BitVec 32}

/-- Quotient and remainder of a round. -/
theorem round_values (value : BitVec 32) (valid : 1 < base.toNat)
    : (value / base).toNat = value.toNat / base.toNat
      ∧ (value - value / base * base).toNat = value.toNat % base.toNat
      ∧ (value / base = 0 ↔ value.toNat < base.toNat) ∧ base ≠ 0 := by
  have quotient : (value / base).toNat = value.toNat / base.toNat := BitVec.toNat_udiv
  have whole := Nat.div_add_mod' value.toNat base.toNat
  have small := value.isLt
  have product : (value / base * base).toNat = value.toNat / base.toNat * base.toNat := by
    rw [BitVec.toNat_mul, quotient]
    exact Nat.mod_eq_of_lt (by omega)
  have le : value / base * base ≤ value := by
    rw [BitVec.le_def, product]
    omega
  refine ⟨quotient, ?_, ?_, ?_⟩
  · rw [BitVec.toNat_sub_of_le le, product]
    omega
  · rw [← BitVec.toNat_inj, quotient]
    simp [Nat.div_eq_zero_iff]
    omega
  · rintro rfl
    simp at valid

/-- The index of a digit. -/
theorem itoa_index (valid : 1 < base.toNat) (hex : base.toNat ≤ 16)
    : (35 + (value - value / base * base)).toNat = 35 + value.toNat % base.toNat := by
  obtain ⟨-, difference, -, -⟩ := round_values value valid
  have rest := Nat.mod_lt value.toNat (by omega : 0 < base.toNat)
  rw [BitVec.toNat_add, difference]
  exact Nat.mod_eq_of_lt (by simp; omega)

/-- One round of the loop, which is the last one for a digit. -/
theorem itoaDigits_round (valid : 1 < base.toNat) (hex : base.toNat ≤ 16) (fuel : Nat)
    : itoaDigits base (fuel + 1) value
      = if value.toNat < base.toNat then some ([chr value.toNat.digitChar], value)
        else (itoaDigits base fuel (value / base)).map
          (fun later => (chr (value.toNat % base.toNat).digitChar :: later.1, later.2)) := by
  obtain ⟨-, -, done, notZero⟩ := round_values value valid
  have digit : value.toNat % base.toNat < 16 := (Nat.mod_lt _ (by omega)).trans_le hex
  rw [itoaDigits, if_neg notZero]
  simp only [itoa_index valid hex, digitTable_digit digit, done]
  split
  · rename_i small
    rw [Nat.mod_eq_of_lt small]
  · cases itoaDigits base fuel (value / base) <;> rfl

/-- For a base up to 16 the loop writes the digits of the unsigned value, by induction over its
rounds, and ends with a quotient below the base.
-/
theorem itoaDigits_eq (valid : 1 < base.toNat) (hex : base.toNat ≤ 16) {fuel : Nat}
    (enough : value.toNat < base.toNat ^ (fuel + 1))
    : ∃ last, last.toNat < base.toNat
      ∧ itoaDigits base (fuel + 1) value
        = some ((numeral base.toNat value.toNat).reverse, last) := by
  induction fuel generalizing value with
  | zero =>
      have small : value.toNat < base.toNat := by simpa using enough
      refine ⟨value, small, ?_⟩
      rw [itoaDigits_round valid hex, if_pos small, numeral_eq valid, if_pos small]
      rfl
  | succ fuel ih =>
      rw [itoaDigits_round valid hex, numeral_eq valid]
      by_cases small : value.toNat < base.toNat
      · refine ⟨value, small, ?_⟩
        rw [if_pos small, if_pos small]
        rfl
      · have quotient : (value / base).toNat = value.toNat / base.toNat := BitVec.toNat_udiv
        have less : (value / base).toNat < base.toNat ^ (fuel + 1) := by
          rw [quotient]
          exact Nat.div_lt_of_lt_mul (by rwa [← Nat.pow_succ'])
        obtain ⟨last, below, digits⟩ := ih less
        refine ⟨last, below, ?_⟩
        rw [if_neg small, if_neg small, digits, quotient, List.reverse_append]
        rfl

/-- The text of a number is that of its unsigned value: the quotient that gets the sign is never
negative.
-/
theorem itoa_eq (valid : 1 < base.toNat) (hex : base.toNat ≤ 16) {fuel : Nat}
    (enough : 32 ≤ fuel)
    : itoa fuel base value = some (numeral base.toNat value.toNat) := by
  obtain ⟨fuel, rfl⟩ : ∃ more, fuel = more + 1 := ⟨fuel - 1, by omega⟩
  have power : value.toNat < base.toNat ^ (fuel + 1) :=
    calc value.toNat < 2 ^ 32 := value.isLt
      _ ≤ 2 ^ (fuel + 1) := Nat.pow_le_pow_right (by decide) enough
      _ ≤ base.toNat ^ (fuel + 1) := Nat.pow_le_pow_left valid _
  obtain ⟨last, below, digits⟩ := itoaDigits_eq valid hex power
  have positive : ¬ last.toInt < 0 := by
    rw [BitVec.toInt_eq_toNat_cond]
    omega
  rw [itoa, digits]
  change some _ = _
  rw [if_neg positive, List.append_nil, List.reverse_reverse]

end Itoa

end DeadKernel
