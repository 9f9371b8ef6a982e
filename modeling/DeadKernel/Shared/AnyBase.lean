import DeadKernel.Shared.Stdlib
import Mathlib.Data.Nat.Digits.Defs

/-! `itoa` for any base. Its check of the base stores a NUL and goes on: base 0 divides by zero,
base 1 never comes to an end, and above 36 the table is read at what the digits are. The string is
empty there only where the first digit reads the NUL of the literal.
-/

namespace DeadKernel

/-- The characters of a buffer in front of its first NUL. -/
def cString (text : List UInt8) : List UInt8 := text.takeWhile (fun c => c ≠ 0)

/-- `itoa` returns, with reads inside its table, writes at most 34 bytes with the NUL, and leaves
the empty string for a base that it does not know.
-/
def ItoaFine (base value : BitVec 32) : Prop :=
  ∃ text least, (∀ fuel, least ≤ fuel → itoa fuel base value = some text)
    ∧ text.length + 1 ≤ 34 ∧ (base.toNat < 2 ∨ 36 < base.toNat → cString text = [])

/-- No digit is above 36, and the first is 36. -/
def LeadsWithNul (base n : Nat) : Prop :=
  (∀ digit ∈ Nat.digits base n, digit ≤ 36) ∧ (Nat.digits base n).getLast? = some 36

section AnyBase

variable {base value : BitVec 32}

/-- More rounds than needed change nothing. -/
theorem itoaDigits_more {fuel : Nat} {r : List UInt8 × BitVec 32}
    (run : itoaDigits base fuel value = some r)
    : itoaDigits base (fuel + 1) value = some r := by
  induction fuel generalizing value r with
  | zero => contradiction
  | succ fuel ih =>
      rw [itoaDigits] at run ⊢
      by_cases zero : base = 0
      · rw [if_pos zero] at run
        contradiction
      · rw [if_neg zero] at run ⊢
        cases digit : digitTable[(35 + (value - value / base * base)).toNat]? with
        | none =>
            simp only [digit] at run
            contradiction
        | some c =>
            simp only [digit] at run ⊢
            by_cases done : value / base = 0
            · rwa [if_pos done] at run ⊢
            · rw [if_neg done] at run ⊢
              obtain ⟨later, rounds, same⟩ := Option.bind_eq_some_iff.mp run
              exact Option.bind_eq_some_iff.mpr ⟨later, ih rounds, same⟩

theorem itoa_more {fuel more : Nat} {text : List UInt8} (run : itoa fuel base value = some text)
    (le : fuel ≤ more)
    : itoa more base value = some text := by
  induction more, le using Nat.le_induction with
  | base => exact run
  | succ more _ ih =>
      obtain ⟨r, digits, same⟩ := Option.bind_eq_some_iff.mp ih
      exact Option.bind_eq_some_iff.mpr ⟨r, itoaDigits_more digits, same⟩

/-- One round of the loop, with its digit read from the table. -/
theorem itoaDigits_step (valid : 1 < base.toNat) (fuel : Nat)
    : itoaDigits base (fuel + 1) value
      = (digitTable[(35 + (value - value / base * base)).toNat]?).bind (fun digit =>
        if value.toNat < base.toNat then some ([chr digit], value)
        else (itoaDigits base fuel (value / base)).map
          (fun later => (chr digit :: later.1, later.2))) := by
  obtain ⟨-, -, done, notZero⟩ := round_values value valid
  rw [itoaDigits, if_neg notZero]
  cases read : digitTable[(35 + (value - value / base * base)).toNat]? with
  | none =>
      simp only [read]
      rfl
  | some c =>
      simp only [read, done, Option.bind_some]
      split
      · rfl
      · cases itoaDigits base fuel (value / base) <;> rfl

theorem digits_step {n : Nat} (valid : 1 < base.toNat) (large : base.toNat ≤ n)
    : Nat.digits base.toNat n = n % base.toNat :: Nat.digits base.toNat (n / base.toNat) :=
  Nat.digits_def' valid (by omega)

/-- The digits of a number are read one after another, and the last quotient is the leading one. -/
theorem itoaDigits_leads (valid : 1 < base.toNat) {fuel : Nat} {digits : List UInt8}
    {last : BitVec 32} (run : itoaDigits base fuel value = some (digits, last))
    : (∃ c, digitTable[(35 + last).toNat]? = some c ∧ digits.getLast? = some (chr c))
      ∧ (value.toNat < base.toNat → last = value)
      ∧ (0 < value.toNat → (Nat.digits base.toNat value.toNat).getLast? = some last.toNat)
      ∧ (base.toNat ≤ value.toNat → last.toNat * base.toNat ≤ value.toNat)
      ∧ (∀ digit ∈ Nat.digits base.toNat value.toNat, (35 + digit) % 2 ^ 32 < 72) := by
  induction fuel generalizing value digits last with
  | zero => contradiction
  | succ fuel ih =>
      obtain ⟨quotient, difference, -, -⟩ := round_values value valid
      rw [itoaDigits_step valid] at run
      obtain ⟨c, read, rest⟩ := Option.bind_eq_some_iff.mp run
      have inside : (35 + value.toNat % base.toNat) % 2 ^ 32 < 72 := by
        obtain ⟨bound, -⟩ := List.getElem?_eq_some_iff.mp read
        rwa [BitVec.toNat_add, difference] at bound
      by_cases small : value.toNat < base.toNat
      · rw [if_pos small] at rest
        cases rest
        have whole : value - value / base * base = value := by
          rw [← BitVec.toNat_inj, difference, Nat.mod_eq_of_lt small]
        rw [whole] at read
        rw [Nat.mod_eq_of_lt small] at inside
        refine ⟨⟨c, read, rfl⟩, fun _ => rfl, fun positive => ?_, fun large => by omega, ?_⟩
        · rw [Nat.digits_of_lt _ _ (by omega) small]
          rfl
        · intro digit mem
          have positive : value.toNat ≠ 0 := by
            rintro zero
            simp [zero] at mem
          rw [Nat.digits_of_lt _ _ positive small, List.mem_singleton] at mem
          rwa [mem]
      · rw [if_neg small] at rest
        obtain ⟨later, rounds, same⟩ := Option.map_eq_some_iff.mp rest
        cases same
        obtain ⟨⟨leading, found, isLast⟩, -, lastDigit, above, allInside⟩ := ih rounds
        have large : base.toNat ≤ value.toNat := by omega
        have positive : 0 < (value / base).toNat := by
          rw [quotient]
          exact Nat.div_pos large (by omega)
        have unfolded := digits_step valid large
        rw [← quotient] at unfolded
        refine ⟨⟨leading, found, ?_⟩, fun _ => by omega, fun _ => ?_, fun _ => ?_, ?_⟩
        · rw [List.getLast?_cons, isLast]
          rfl
        · rw [unfolded, List.getLast?_cons, lastDigit positive]
          rfl
        · have le := Nat.div_mul_le_self value.toNat base.toNat
          rw [← quotient] at le
          by_cases more : base.toNat ≤ (value / base).toNat
          · have whole := Nat.le_mul_of_pos_right (value / base).toNat (by omega : 0 < base.toNat)
            have := above more
            omega
          · have only := lastDigit positive
            rw [Nat.digits_of_lt _ _ (by omega) (by omega), List.getLast?_singleton] at only
            rwa [← Option.some.inj only]
        · intro digit mem
          rw [unfolded] at mem
          rcases List.mem_cons.mp mem with rfl | mem
          · exact inside
          · exact allInside digit mem

theorem digit_read (valid : 1 < base.toNat)
    (small : ∀ digit ∈ Nat.digits base.toNat value.toNat, digit ≤ 36)
    : ∃ c, digitTable[(35 + (value - value / base * base)).toNat]? = some c := by
  obtain ⟨-, difference, -, -⟩ := round_values value valid
  have le : value.toNat % base.toNat ≤ 36 := by
    by_cases zero : value.toNat = 0
    · simp [zero]
    · refine small _ ?_
      rw [Nat.digits_def' valid (by omega)]
      exact List.mem_cons_self
  have index : (35 + (value - value / base * base)).toNat < digitTable.length := by
    rw [BitVec.toNat_add, difference]
    refine (Nat.mod_le _ _).trans_lt ?_
    change 35 + _ < 72
    omega
  exact ⟨_, List.getElem?_eq_getElem index⟩

/-- Digits up to 36 are all in the table. -/
theorem itoaDigits_returns (valid : 1 < base.toNat)
    (small : ∀ digit ∈ Nat.digits base.toNat value.toNat, digit ≤ 36) {fuel : Nat}
    (enough : value.toNat < base.toNat ^ (fuel + 1))
    : ∃ digits last, itoaDigits base (fuel + 1) value = some (digits, last)
        ∧ digits.length ≤ fuel + 1 := by
  induction fuel generalizing value with
  | zero =>
      have below : value.toNat < base.toNat := by simpa using enough
      obtain ⟨c, read⟩ := digit_read valid small
      rw [itoaDigits_step valid, read, Option.bind_some, if_pos below]
      exact ⟨_, _, rfl, Nat.le_refl 1⟩
  | succ fuel ih =>
      obtain ⟨c, read⟩ := digit_read valid small
      rw [itoaDigits_step valid, read, Option.bind_some]
      by_cases below : value.toNat < base.toNat
      · rw [if_pos below]
        exact ⟨_, _, rfl, by simp⟩
      · obtain ⟨quotient, -, -, -⟩ := round_values value valid
        have unfolded := digits_step valid (by omega : base.toNat ≤ value.toNat)
        have less : (value / base).toNat < base.toNat ^ (fuel + 1) := by
          rw [quotient]
          exact Nat.div_lt_of_lt_mul (by rwa [← Nat.pow_succ'])
        have rest : ∀ digit ∈ Nat.digits base.toNat (value / base).toNat, digit ≤ 36 := by
          intro digit mem
          refine small digit ?_
          rw [unfolded, ← quotient]
          exact List.mem_cons_of_mem _ mem
        obtain ⟨digits, last, rounds, short⟩ := ih rest less
        rw [if_neg below, rounds]
        exact ⟨_, _, rfl, by simpa using short⟩

/-- A base below 2 never gives a number: it divides by zero, or the value stays what it is. -/
theorem itoaDigits_low (low : base.toNat < 2) (notBoth : base ≠ 1 ∨ value ≠ 0) (fuel : Nat)
    : itoaDigits base fuel value = none := by
  induction fuel with
  | zero => rfl
  | succ fuel ih =>
      rw [itoaDigits]
      by_cases zero : base = 0
      · exact if_pos zero
      · have one : base = 1 := by
          rw [← BitVec.toNat_inj] at zero ⊢
          simp at zero ⊢
          omega
        have some : value ≠ 0 := notBoth.resolve_left (fun other => other one)
        have same : value / base = value := by
          rw [one]
          exact BitVec.udiv_one
        rw [if_neg zero]
        simp only [same, if_neg some, ih]
        cases digitTable[(35 + (value - value * base)).toNat]? <;> rfl

/-- The table has its NUL at 71 only. -/
theorem digitTable_nul {index : Nat} {c : Char} (read : digitTable[index]? = some c)
    : chr c = 0 ↔ index = 71 := by
  obtain ⟨bound, rfl⟩ := List.getElem?_eq_some_iff.mp read
  have all : ∀ i : Fin 72, chr (digitTable.get i) = 0 ↔ i.val = 71 := by decide +kernel
  exact all ⟨index, bound⟩

/-- The text begins with a NUL exactly when the last quotient is 36: a minus sign is none, and only
a last quotient gets it.
-/
theorem text_empty_iff {c : Char} {digits : List UInt8} {last : BitVec 32}
    (read : digitTable[(35 + last).toNat]? = some c) (isLast : digits.getLast? = some (chr c))
    : cString (digits ++ if last.toInt < 0 then [chr '-'] else []).reverse = []
      ↔ last.toNat = 36 := by
  obtain ⟨front, rfl⟩ := List.getLast?_eq_some_iff.mp isLast
  have position : (35 + last).toNat = 71 ↔ last.toNat = 36 := by
    have bound := last.isLt
    rw [BitVec.toNat_add]
    change (35 + _) % 2 ^ 32 = 71 ↔ _
    omega
  have nul : chr c = 0 ↔ last.toNat = 36 := (digitTable_nul read).trans position
  by_cases negative : last.toInt < 0
  · rw [if_pos negative, List.reverse_append, cString]
    have other : last.toNat ≠ 36 := by
      rw [BitVec.toInt_eq_toNat_cond] at negative
      omega
    simp only [List.reverse_singleton, List.singleton_append, other, iff_false]
    rw [List.takeWhile_cons_of_pos (by decide)]
    exact List.cons_ne_nil _ _
  · rw [if_neg negative, List.append_nil, List.reverse_append, cString, List.reverse_singleton,
      List.singleton_append, List.takeWhile_cons]
    split
    · rename_i notNul
      simp only [List.cons_ne_nil, false_iff]
      exact fun leads => (decide_eq_true_eq.mp notNul) (nul.mpr leads)
    · rename_i isNul
      have zero : chr c = 0 := by simpa using isNul
      exact iff_of_true rfl (nul.mp zero)

/-- What a run with digits up to 36 leaves behind. -/
theorem itoa_returns (valid : 1 < base.toNat)
    (small : ∀ digit ∈ Nat.digits base.toNat value.toNat, digit ≤ 36)
    : ∃ digits last, itoaDigits base 32 value = some (digits, last)
        ∧ ∀ fuel, 32 ≤ fuel → itoa fuel base value
            = some (digits ++ if last.toInt < 0 then [chr '-'] else []).reverse
          ∧ (digits ++ if last.toInt < 0 then [chr '-'] else []).reverse.length + 1 ≤ 34 := by
  have enough : value.toNat < base.toNat ^ (31 + 1) :=
    calc value.toNat < 2 ^ 32 := value.isLt
      _ ≤ base.toNat ^ (31 + 1) := Nat.pow_le_pow_left valid _
  obtain ⟨digits, last, rounds, short⟩ := itoaDigits_returns valid small enough
  refine ⟨digits, last, rounds, fun fuel le => ⟨?_, ?_⟩⟩
  · exact itoa_more (Option.bind_eq_some_iff.mpr ⟨_, rounds, rfl⟩) le
  · rw [List.length_reverse, List.length_append]
    split
    · simp only [List.length_singleton]
      omega
    · simp only [List.length_nil]
      omega

/-- `itoa` is in order exactly for the bases that it knows, and above them where the first digit
reads the NUL behind the table.
-/
theorem itoa_fine_iff (base value : BitVec 32)
    : ItoaFine base value
      ↔ (2 ≤ base.toNat ∧ base.toNat ≤ 36)
        ∨ (36 < base.toNat ∧ LeadsWithNul base.toNat value.toNat) := by
  by_cases low : base.toNat < 2
  · have outside : ¬ ((2 ≤ base.toNat ∧ base.toNat ≤ 36)
        ∨ (36 < base.toNat ∧ LeadsWithNul base.toNat value.toNat)) := by omega
    refine iff_of_false ?_ outside
    rintro ⟨text, least, runs, -, empty⟩
    by_cases notBoth : base ≠ 1 ∨ value ≠ 0
    · have run := runs least (Nat.le_refl _)
      rw [itoa, itoaDigits_low low notBoth] at run
      contradiction
    · obtain ⟨rfl, rfl⟩ : base = 1 ∧ value = 0 := by
        simpa only [not_or, ne_eq, not_not] using notBoth
      have run := runs (least + 1) (Nat.le_add_right _ _)
      have zero : itoa (least + 1) 1 0 = some [chr '0'] := rfl
      rw [zero] at run
      cases run
      have := empty (Or.inl low)
      have notNul : ('0'.toUInt8 : UInt8) ≠ 0 := by decide
      simp [cString, chr, notNul] at this
  · have valid : 1 < base.toNat := by omega
    constructor
    · rintro ⟨text, least, runs, -, empty⟩
      by_cases known : base.toNat ≤ 36
      · exact Or.inl ⟨valid, known⟩
      · refine Or.inr ⟨by omega, ?_⟩
        obtain ⟨⟨digits, last⟩, rounds, same⟩ :=
          Option.bind_eq_some_iff.mp (runs least (Nat.le_refl _))
        cases same
        obtain ⟨⟨c, read, isLast⟩, only, leads, above, inside⟩ :=
          itoaDigits_leads valid rounds
        have nul := (text_empty_iff read isLast).mp (empty (Or.inr (by omega)))
        have positive : 0 < value.toNat := by
          by_contra zero
          have same := only (by omega)
          rw [same] at nul
          omega
        refine ⟨fun digit mem => ?_, nul ▸ leads positive⟩
        by_cases one : value.toNat < base.toNat
        · rw [Nat.digits_of_lt _ _ (by omega) one, List.mem_singleton, ← only one, nul] at mem
          omega
        · have far := above (by omega)
          have below := Nat.digits_lt_base valid mem
          have bound := value.isLt
          have index := inside digit mem
          rw [nul] at far
          omega
    · rintro (⟨-, known⟩ | ⟨unknown, small, leads⟩)
      · have small : ∀ digit ∈ Nat.digits base.toNat value.toNat, digit ≤ 36 := by
          intro digit mem
          have := Nat.digits_lt_base valid mem
          omega
        obtain ⟨digits, last, -, all⟩ := itoa_returns valid small
        exact ⟨_, 32, fun fuel le => (all fuel le).1, (all 32 (Nat.le_refl _)).2,
          fun unknown => by omega⟩
      · obtain ⟨digits, last, rounds, all⟩ := itoa_returns valid small
        refine ⟨_, 32, fun fuel le => (all fuel le).1, (all 32 (Nat.le_refl _)).2, fun _ => ?_⟩
        obtain ⟨⟨c, read, isLast⟩, -, lastDigit, -, -⟩ := itoaDigits_leads valid rounds
        refine (text_empty_iff read isLast).mpr ?_
        have positive : 0 < value.toNat := by
          by_contra zero
          rw [show value.toNat = 0 by omega, Nat.digits_zero] at leads
          contradiction
        exact Option.some.inj ((lastDigit positive).symm.trans leads)

end AnyBase

/-- Base 0 stores its NUL and then divides by zero. -/
theorem itoa_base_zero
    : ¬ ItoaFine 0 5 := by
  rintro ⟨text, least, runs, -, -⟩
  have run := runs least (Nat.le_refl _)
  rw [itoa, itoaDigits_low (by decide) (Or.inr (by decide))] at run
  contradiction

end DeadKernel
