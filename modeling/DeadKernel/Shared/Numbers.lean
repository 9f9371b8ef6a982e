import DeadKernel.Shared.Stdlib
import Mathlib.Data.List.TakeWhile

/-! Text read as numbers. `atoi` asks in front of each digit whether the next value would overflow,
with one last digit for both signs, and walks with an `int` index. `strtoi` lets its result wrap.
-/

namespace DeadKernel

-----------------------------------------------------------------------------------------
-- atoi
-----------------------------------------------------------------------------------------

abbrev intMax : Int := 2147483647
abbrev intMin : Int := -intMax - 1

/-- A computation in `int`, which has no result when it overflows. -/
def checked (n : Int) : Option Int := if intMin ≤ n ∧ n ≤ intMax then some n else none

def isdigit (ch : UInt8) : Bool := chr '0' ≤ ch ∧ ch ≤ chr '9'

/-- `ch - '0'`. -/
def digitOf (ch : UInt8) : Nat := (ch - chr '0').toNat

/-- `while (str[i] == ' ') i++`: what is left of the string, and `i`. -/
def skipSpaces : List UInt8 → Int → Option (List UInt8 × Int)
  | [], i => some ([], i)
  | c :: rest, i =>
      if c = chr ' ' then (checked (i + 1)).bind (skipSpaces rest) else some (c :: rest, i)

/-- The loop over the digits. -/
def atoiDigits (sign : Int) : List UInt8 → Int → Int → Option Int
  | [], _, base => checked (base * sign)
  | c :: rest, i, base =>
      if isdigit c then
        if intMax / 10 < base ∨ base = intMax / 10 ∧ 7 < digitOf c then
          some (if sign = 1 then intMax else intMin)
        else do
          let product ← checked (10 * base)
          let base ← checked (product + digitOf c)
          let i ← checked (i + 1)
          atoiDigits sign rest i base
      else checked (base * sign)

/-- `atoi` behind the spaces: the sign, which may be left out, and the digits. -/
def atoiSigned (rest : List UInt8) (i : Int) : Option Int :=
  if rest.head? = some (chr '-') ∨ rest.head? = some (chr '+') then do
    let i ← checked (i + 1)
    atoiDigits (1 - 2 * (if rest.head? = some (chr '-') then 1 else 0)) rest.tail i 0
  else atoiDigits 1 rest i 0

/-- `atoi` of the string in front of the NUL. -/
def atoi (str : List UInt8) : Option Int := do
  let (rest, i) ← skipSpaces str 0
  atoiSigned rest i

-----------------------------------------------------------------------------------------
-- What atoi reads
-----------------------------------------------------------------------------------------

/-- The number that a run of digits goes on to from `base`. -/
def decimalFrom (base : Nat) (digits : List UInt8) : Nat :=
  digits.foldl (fun n c => 10 * n + digitOf c) base

/-- The leading spaces of a string, a sign behind them, and the run of digits behind that. -/
structure Parts where
  spaces : Nat
  signed : Bool
  negative : Bool
  digits : List UInt8

/-- The parts of what stands behind the spaces. -/
def partsBehind (spaces : Nat) (body : List UInt8) : Parts :=
  let signed := body.head? = some (chr '-') ∨ body.head? = some (chr '+')
  { spaces
    signed
    negative := body.head? = some (chr '-')
    digits := (if signed then body.tail else body).takeWhile isdigit }

def partsOf (str : List UInt8) : Parts :=
  partsBehind (str.takeWhile (· = chr ' ')).length (str.dropWhile (· = chr ' '))

/-- The integer that a string denotes. -/
def Parts.value (parts : Parts) : Int :=
  if parts.negative then - (decimalFrom 0 parts.digits) else decimalFrom 0 parts.digits

def clamp (n : Int) : Int := max intMin (min intMax n)

/-- The index reaches the digit that is too much, or the end of the run, without an overflow. -/
def Indexed (base : Nat) (i : Int) (digits : List UInt8) : Prop :=
  ∀ count ≤ digits.length, (decimalFrom base (digits.take count) : Int) ≤ intMax
    → i + count ≤ intMax

/-- The characters that `atoi` steps over are at most `INT_MAX` many. -/
def Parts.Indexed (parts : Parts) : Prop :=
  DeadKernel.Indexed 0 (parts.spaces + parts.signed.toNat) parts.digits

theorem decimalFrom_cons (base : Nat) (c : UInt8) (digits : List UInt8)
    : decimalFrom base (c :: digits) = decimalFrom (10 * base + digitOf c) digits := rfl

theorem decimalFrom_append (base : Nat) (left right : List UInt8)
    : decimalFrom base (left ++ right) = decimalFrom (decimalFrom base left) right :=
  List.foldl_append

theorem le_decimalFrom (base : Nat) (digits : List UInt8) : base ≤ decimalFrom base digits := by
  induction digits generalizing base with
  | nil => exact le_refl base
  | cons c rest ih =>
      have step := ih (10 * base + digitOf c)
      rw [decimalFrom_cons]
      omega

theorem digitOf_le {c : UInt8} (digit : isdigit c = true) : digitOf c ≤ 9 := by
  rw [isdigit, decide_eq_true_eq] at digit
  obtain ⟨low, high⟩ := digit
  rw [UInt8.le_iff_toNat_le] at low high
  rw [digitOf, UInt8.toNat_sub_of_le _ _ (UInt8.le_iff_toNat_le.mpr low)]
  have nine : (chr '9').toNat = 57 := rfl
  have zero : (chr '0').toNat = 48 := rfl
  omega

theorem intMin_neg : intMin < 0 := by decide

theorem checked_some {n : Int} (low : intMin ≤ n) (high : n ≤ intMax) : checked n = some n :=
  if_pos ⟨low, high⟩

theorem checked_none {n : Int} (high : intMax < n) : checked n = none :=
  if_neg (fun both => absurd both.2 (not_le.mpr high))

/-- The leading spaces are stepped over, by induction over them. -/
theorem skipSpaces_eq (str : List UInt8) {i : Int} (low : 0 ≤ i)
    (high : i ≤ intMax)
    : skipSpaces str i
      = if i + (str.takeWhile (· = chr ' ')).length ≤ intMax then
          some (str.dropWhile (· = chr ' '), i + (str.takeWhile (· = chr ' ')).length)
        else none := by
  have negative := intMin_neg
  induction str generalizing i with
  | nil => simpa [skipSpaces] using high
  | cons c rest ih =>
      rw [skipSpaces]
      by_cases space : c = chr ' '
      · rw [if_pos space, List.takeWhile_cons_of_pos (by simpa using space),
          List.dropWhile_cons_of_pos (by simpa using space)]
        simp only [List.length_cons, Nat.cast_add, Nat.cast_one]
        by_cases fits : i + 1 ≤ intMax
        · rw [checked_some (by omega) fits, Option.bind_some, ih (by omega) fits]
          simp only [add_assoc, add_comm (1 : Int)]
        · rw [checked_none (by omega), Option.bind_none, if_neg (by omega)]
      · rw [if_neg space, List.takeWhile_cons_of_neg (by simpa using space),
          List.dropWhile_cons_of_neg (by simpa using space)]
        simpa using high

-----------------------------------------------------------------------------------------
-- The digits
-----------------------------------------------------------------------------------------

section Digits

variable {sign i : Int} {base : Nat} {c : UInt8} {digits rest : List UInt8}

/-- A digit that is too much ends the walk, another one goes on. -/
theorem indexed_cons (high : i ≤ intMax)
    : Indexed base i (c :: digits)
      ↔ ((10 * base + digitOf c : Nat) : Int) ≤ intMax
        → i + 1 ≤ intMax ∧ Indexed (10 * base + digitOf c) (i + 1) digits := by
  constructor
  · intro fits more
    have tail : Indexed (10 * base + digitOf c) (i + 1) digits := by
      intro count le small
      have step := fits (count + 1) (Nat.succ_le_succ le) small
      rw [Nat.cast_add, Nat.cast_one] at step
      omega
    exact ⟨fits 1 (Nat.succ_le_succ (Nat.zero_le _)) more, tail⟩
  · rintro step (_ | count) le small
    · rwa [Nat.cast_zero, add_zero]
    · rw [List.take_succ_cons, decimalFrom_cons] at small
      have grows := le_decimalFrom (10 * base + digitOf c) (digits.take count)
      have later := (step (by omega)).2 count (Nat.le_of_succ_le_succ le) small
      rw [Nat.cast_add, Nat.cast_one]
      omega

theorem clamp_of_small {n : Int} (low : intMin ≤ n) (high : n ≤ intMax) : clamp n = n := by
  rw [clamp, min_eq_right high, max_eq_right low]

/-- The test in front of a digit asks whether the next value is too large. -/
theorem tooMuch_iff (digit : isdigit c = true)
    : intMax / 10 < (base : Int) ∨ (base : Int) = intMax / 10 ∧ 7 < digitOf c
      ↔ intMax < ((10 * base + digitOf c : Nat) : Int) := by
  have nine := digitOf_le digit
  simp only [intMax]
  omega

/-- Saturation at a value that is too large, whatever digits follow. -/
theorem saturated {n : Nat} (unit : sign = 1 ∨ sign = -1) (large : intMax < (n : Int))
    : (if sign = 1 then intMax else intMin) = clamp (n * sign) := by
  rcases unit with rfl | rfl
  · rw [if_pos rfl, mul_one, clamp, min_eq_left large.le, max_eq_right (by decide)]
  · rw [if_neg (by decide), clamp, min_eq_right (by simp only [intMax] at *; omega),
      max_eq_left (by simp only [intMin, intMax] at *; omega)]

/-- The loop over a run of digits, by induction over it: the value is in range up to the digit that
is too much.
-/
theorem atoiDigits_eq (unit : sign = 1 ∨ sign = -1) (run : ∀ c ∈ digits, isdigit c = true)
    (stop : ∀ c, rest.head? = some c → isdigit c = false) (low : 0 ≤ i) (high : i ≤ intMax)
    (small : (base : Int) ≤ intMax)
    : (Indexed base i digits
        → atoiDigits sign (digits ++ rest) i base = some (clamp (decimalFrom base digits * sign)))
      ∧ (¬ Indexed base i digits → atoiDigits sign (digits ++ rest) i base = none) := by
  have negative := intMin_neg
  induction digits generalizing i base with
  | nil =>
      have fits : Indexed base i [] := by
        intro count le _
        obtain rfl := Nat.le_zero.mp le
        rwa [Nat.cast_zero, add_zero]
      refine ⟨fun _ => ?_, fun none => absurd fits none⟩
      have inRange : intMin ≤ (base : Int) * sign ∧ (base : Int) * sign ≤ intMax := by
        rcases unit with rfl | rfl
        · simp only [intMin, intMax] at *
          omega
        · simp only [intMin, intMax] at *
          omega
      have result : checked (base * sign) = some (clamp (base * sign)) := by
        rw [checked_some inRange.1 inRange.2, clamp_of_small inRange.1 inRange.2]
      cases rest with
      | nil => exact result
      | cons c behind =>
          rw [List.nil_append, atoiDigits, stop c rfl]
          exact result
  | cons c digits ih =>
      have digit := run c List.mem_cons_self
      rw [List.cons_append, atoiDigits, if_pos digit, indexed_cons high, decimalFrom_cons]
      by_cases much : intMax < ((10 * base + digitOf c : Nat) : Int)
      · rw [if_pos ((tooMuch_iff digit).mpr much)]
        have large : intMax < ((decimalFrom (10 * base + digitOf c) digits : Nat) : Int) :=
          much.trans_le (by exact_mod_cast le_decimalFrom _ digits)
        exact ⟨fun _ => congrArg some (saturated unit large),
          fun none => absurd (fun le => absurd much (not_lt.mpr le)) none⟩
      · rw [if_neg (fun test => much ((tooMuch_iff digit).mp test))]
        have next := not_lt.mp much
        have sum : (10 * base : Int) + digitOf c = ((10 * base + digitOf c : Nat) : Int) := by
          push_cast
          rfl
        have product : checked (10 * (base : Int)) = some (10 * (base : Int)) :=
          checked_some (by omega) (by push_cast at next; omega)
        have added : checked ((10 * base : Int) + digitOf c)
            = some ((10 * base + digitOf c : Nat) : Int) := by
          rw [sum]
          exact checked_some (by omega) next
        simp only [product, added, Option.bind_eq_bind, Option.bind_some, next, true_implies]
        by_cases index : i + 1 ≤ intMax
        · obtain ⟨left, right⟩ := ih (fun d member => run d (List.mem_cons_of_mem c member))
            (i := i + 1) (by omega) index next
          rw [checked_some (by omega) index, Option.bind_some]
          exact ⟨fun both => left both.2, fun fails => right (fun fits => fails ⟨index, fits⟩)⟩
        · rw [checked_none (by omega), Option.bind_none]
          exact ⟨fun both => absurd both.1 index, fun _ => rfl⟩

theorem atoiDigits_run (sign : Int) (unit : sign = 1 ∨ sign = -1) (low : 0 ≤ i)
    (high : i ≤ intMax) (tail : List UInt8)
    : (Indexed 0 i (tail.takeWhile isdigit)
        → atoiDigits sign tail i 0
          = some (clamp (decimalFrom 0 (tail.takeWhile isdigit) * sign)))
      ∧ (¬ Indexed 0 i (tail.takeWhile isdigit) → atoiDigits sign tail i 0 = none) := by
  have run : ∀ c ∈ tail.takeWhile isdigit, isdigit c = true :=
    fun c member => List.mem_takeWhile_imp member
  have stop : ∀ c, (tail.dropWhile isdigit).head? = some c → isdigit c = false := by
    intro c first
    have stop := List.head?_dropWhile_not isdigit tail
    rwa [first] at stop
  have none : ((0 : Nat) : Int) ≤ intMax := by decide
  have split := atoiDigits_eq unit run stop low high none
  rw [List.takeWhile_append_dropWhile] at split
  exact split

theorem not_indexed (large : intMax < i) (digits : List UInt8) : ¬ Indexed 0 i digits := by
  intro fits
  have first := fits 0 (Nat.zero_le _) (by simp [decimalFrom])
  rw [Nat.cast_zero, add_zero] at first
  exact absurd first (not_le.mpr large)

theorem atoiSigned_eq {n : Nat} (fits : (n : Int) ≤ intMax) (body : List UInt8)
    : ((partsBehind n body).Indexed
        → atoiSigned body n = some (clamp (partsBehind n body).value))
      ∧ (¬ (partsBehind n body).Indexed → atoiSigned body n = none) := by
  have negative := intMin_neg
  rw [atoiSigned]
  by_cases signed : body.head? = some (chr '-') ∨ body.head? = some (chr '+')
  · simp only [partsBehind, Parts.Indexed, Parts.value, signed, if_true, decide_true,
      Bool.toNat_true, Nat.cast_one]
    by_cases index : (n : Int) + 1 ≤ intMax
    · rw [checked_some (by omega) index, Option.bind_eq_bind, Option.bind_some]
      by_cases minus : body.head? = some (chr '-')
      · have digits := atoiDigits_run (1 - 2 * 1) (.inr (by decide)) (by omega) index body.tail
        simpa [minus] using digits
      · have digits := atoiDigits_run (1 - 2 * 0) (.inl (by decide)) (by omega) index body.tail
        simpa [minus] using digits
    · rw [checked_none (by omega), Option.bind_eq_bind, Option.bind_none]
      exact ⟨fun fine => absurd fine (not_indexed (by omega) _), fun _ => rfl⟩
  · have plain : ¬ body.head? = some (chr '-') := fun minus => signed (.inl minus)
    have plus : ¬ body.head? = some (chr '+') := fun plus => signed (.inr plus)
    have digits := atoiDigits_run 1 (.inl rfl) (Int.natCast_nonneg n) fits body
    simpa [partsBehind, Parts.Indexed, Parts.value, plain, plus] using digits

/-- The value of the parts of every string, saturated, is what `atoi` returns, unless its index
overflows.
-/
theorem atoi_eq (str : List UInt8)
    : ((partsOf str).Indexed → atoi str = some (clamp (partsOf str).value))
      ∧ (¬ (partsOf str).Indexed → atoi str = none) := by
  have spaces := skipSpaces_eq str (le_refl 0) (by decide)
  rw [zero_add] at spaces
  rw [atoi, partsOf, spaces]
  by_cases fits : ((str.takeWhile (· = chr ' ')).length : Int) ≤ intMax
  · rw [if_pos fits]
    exact atoiSigned_eq fits _
  · rw [if_neg fits]
    refine ⟨fun fine => absurd fine (not_indexed ?_ _), fun _ => rfl⟩
    simp only [partsBehind]
    omega

end Digits

-----------------------------------------------------------------------------------------
-- Saturation
-----------------------------------------------------------------------------------------

/-- `atoi` returns what the string denotes, saturated, exactly if its index does not overflow; no
other computation of it does.
-/
theorem atoi_saturates_iff (str : List UInt8)
    : atoi str = some (clamp (partsOf str).value) ↔ (partsOf str).Indexed := by
  obtain ⟨fits, overflows⟩ := atoi_eq str
  refine ⟨fun run => ?_, fits⟩
  by_contra fails
  rw [overflows fails] at run
  contradiction

theorem atoi_spaces {n : Nat} (many : intMax < n) : atoi (List.replicate n (chr ' ')) = none := by
  refine (atoi_eq _).2 (not_indexed ?_ _)
  simp only [partsOf, partsBehind, List.takeWhile_replicate, decide_true, if_true,
    List.length_replicate]
  omega

/-- The index of 2^31 spaces is no `int`. -/
theorem atoi_index_overflows : atoi (List.replicate 2147483648 (chr ' ')) = none :=
  atoi_spaces (by decide)

-----------------------------------------------------------------------------------------
-- Decimals there and back
-----------------------------------------------------------------------------------------

theorem decimal_digit {digit : Nat} (small : digit < 10)
    : isdigit (chr digit.digitChar) = true ∧ digitOf (chr digit.digitChar) = digit := by
  interval_cases digit <;> exact ⟨rfl, rfl⟩

/-- The digits of a numeral, by induction over its number. -/
theorem numeral_decimal (n : Nat)
    : (∀ c ∈ numeral 10 n, isdigit c = true) ∧ decimalFrom 0 (numeral 10 n) = n := by
  induction n using Nat.strong_induction_on with
  | h n ih =>
      rw [numeral_eq (by decide)]
      split
      · rename_i small
        obtain ⟨digit, value⟩ := decimal_digit small
        refine ⟨fun c member => ?_, ?_⟩
        · rw [List.mem_singleton.mp member]
          exact digit
        · simp [decimalFrom, value]
      · obtain ⟨front, value⟩ := ih (n / 10) (by omega)
        obtain ⟨digit, last⟩ := decimal_digit (Nat.mod_lt n (by decide : 10 > 0))
        refine ⟨fun c member => ?_, ?_⟩
        · rcases List.mem_append.mp member with inFront | inLast
          · exact front c inFront
          · rw [List.mem_singleton.mp inLast]
            exact digit
        · rw [decimalFrom_append, value, decimalFrom_cons, last]
          change 10 * (n / 10) + n % 10 = n
          omega

theorem partsOf_digits {digits : List UInt8} (run : ∀ c ∈ digits, isdigit c = true)
    : partsOf digits = ⟨0, false, false, digits⟩ := by
  have whole : digits.takeWhile isdigit = digits := List.takeWhile_eq_self_iff.mpr run
  cases digits with
  | nil => rfl
  | cons c rest =>
      have digit := run c List.mem_cons_self
      have other (mark : UInt8) (no : isdigit mark = false) : c ≠ mark := by
        rintro rfl
        rw [no] at digit
        contradiction
      have space := other (chr ' ') (by decide)
      have minus := other (chr '-') (by decide)
      have plus := other (chr '+') (by decide)
      simp only [partsOf, partsBehind]
      rw [List.takeWhile_cons_of_neg (by simpa using space),
        List.dropWhile_cons_of_neg (by simpa using space)]
      simp [minus, plus, whole]

/-- `atoi` reads the numeral of an `int` back. -/
theorem atoi_numeral {n : Nat} (small : (n : Int) ≤ intMax)
    : atoi (numeral 10 n) = some (n : Int) := by
  obtain ⟨run, value⟩ := numeral_decimal n
  have parts := partsOf_digits run
  have length : (numeral 10 n).length ≤ 9 + 1 := by
    refine numeral_length_le (by decide) ?_
    simp only [intMax] at small
    omega
  have indexed : (partsOf (numeral 10 n)).Indexed := by
    rw [parts]
    intro count le _
    simp only [Bool.toNat_false, intMax] at *
    omega
  rw [(atoi_eq _).1 indexed, parts, Parts.value, if_neg Bool.false_ne_true, value,
    clamp_of_small (by have negative := intMin_neg; omega) small]

theorem numeral_head (n : Nat) : (numeral 10 n).head? ≠ some (chr '-') := by
  intro first
  have digit := (numeral_decimal n).1 _ (List.mem_of_mem_head? first)
  exact absurd digit (by decide)

/-- `itoa` writes the decimal of an `int`, and `atoi` reads it back, exactly if it is not negative:
the other half is written as if it were unsigned.
-/
theorem decimal_round_trip_iff (fuel : Nat) (v : BitVec 32)
    : (itoa (fuel + 32) 10 v = some (signedNumeral v.toInt)
        ∧ atoi (signedNumeral v.toInt) = some v.toInt) ↔ 0 ≤ v.toInt := by
  have text : itoa (fuel + 32) 10 v = some (numeral 10 v.toNat) :=
    itoa_eq (by decide) (by decide) (Nat.le_add_left 32 fuel)
  rw [text]
  constructor
  · rintro ⟨same, -⟩
    by_contra negative
    rw [signedNumeral, if_pos (not_le.mp negative)] at same
    refine numeral_head v.toNat ?_
    rw [Option.some.inj same, List.head?_cons]
  · intro positive
    have number : (v.toNat : Int) = v.toInt := by
      have range := v.isLt
      rw [BitVec.toInt_eq_toNat_cond] at positive ⊢
      split at positive
      · rw [if_pos (by assumption)]
      · omega
    have range := BitVec.toInt_lt (x := v)
    have abs : v.toInt.natAbs = v.toNat := by omega
    rw [signedNumeral, if_neg (not_lt.mpr positive), abs]
    refine ⟨rfl, ?_⟩
    rw [← number]
    refine atoi_numeral ?_
    simp only [intMax]
    norm_num at range
    omega

/-- -1 is written as 4294967295, which `atoi` saturates. -/
theorem itoa_minus_one
    : itoa 32 10 (-1) = some (numeral 10 4294967295)
        ∧ itoa 32 10 (-1) ≠ some (signedNumeral (-1))
        ∧ atoi (numeral 10 4294967295) = some intMax := by
  have text : itoa 32 10 (-1) = some (numeral 10 4294967295) :=
    itoa_eq (by decide) (by decide) (le_refl 32)
  refine ⟨text, ?_, by decide⟩
  rw [text]
  decide

-----------------------------------------------------------------------------------------
-- strtoi
-----------------------------------------------------------------------------------------

def isspace (ch : UInt8) : Bool :=
  ch = chr ' ' ∨ ch = chr '\t' ∨ ch = chr '\n' ∨ ch = chr '\r' ∨ ch = chr '\x0b' ∨ ch = chr '\x0c'

def tolower (ch : UInt8) : UInt8 :=
  if chr 'A' ≤ ch ∧ ch ≤ chr 'Z' then ch + (chr 'a' - chr 'A') else ch

/-- A character that the digit loop of `strtoi` goes on with. -/
def isHexDigit (ch : UInt8) : Bool :=
  isdigit ch ∨ (chr 'a' ≤ ch ∧ ch ≤ chr 'f') ∨ (chr 'A' ≤ ch ∧ ch ≤ chr 'F')

def strtoiDigit (ch : UInt8) : BitVec 32 :=
  if isdigit ch then (ch - chr '0').toBitVec.setWidth 32
  else (tolower ch - chr 'a').toBitVec.setWidth 32 + 10

/-- The digit loop: the result, and where it stops. -/
def strtoiDigits (base : BitVec 32) : List UInt8 → BitVec 32 → BitVec 32 × List UInt8
  | [], result => (result, [])
  | c :: rest, result =>
      if isHexDigit c then
        if base.sle (strtoiDigit c) then (result, c :: rest)
        else strtoiDigits base rest (result * base + strtoiDigit c)
      else (result, c :: rest)

/-- The base, and what is left behind a prefix. -/
def strtoiPrefix (base : BitVec 32) (str : List UInt8) : BitVec 32 × List UInt8 :=
  let hex := str.head? = some (chr '0') ∧ (str[1]? = some (chr 'x') ∨ str[1]? = some (chr 'X'))
  if base = 0 then
    if str.head? = some (chr '0') then if hex then (16, str.drop 2) else (8, str.drop 1)
    else (10, str)
  else if base = 16 ∧ hex then (base, str.drop 2)
  else (base, str)

/-- `strtoi` of a null pointer or of the string in front of the NUL: the result, and what `endptr`
points to.
-/
def strtoi (str : Option (List UInt8)) (base : BitVec 32) : BitVec 32 × Option (List UInt8) :=
  match str with
  | none => (0, none)
  | some str =>
      let str := str.dropWhile isspace
      let signed := str.head? = some (chr '+') ∨ str.head? = some (chr '-')
      let sign : BitVec 32 := if str.head? = some (chr '-') then -1 else 1
      let start := strtoiPrefix base (if signed then str.tail else str)
      let read := strtoiDigits start.1 start.2 0
      (read.1 * sign, some read.2)

section Radix

variable {base : BitVec 32}

theorem hex_digit {digit : Nat} (small : digit < 16)
    : isHexDigit (chr digit.digitChar) = true
      ∧ strtoiDigit (chr digit.digitChar) = BitVec.ofNat 32 digit := by
  interval_cases digit <;> exact ⟨rfl, rfl⟩

theorem sle_digit (hex : base.toNat ≤ 16) {digit : Nat} (small : digit < base.toNat)
    : base.sle (BitVec.ofNat 32 digit) = false := by
  have own : base.toInt = base.toNat := BitVec.toInt_eq_toNat_of_lt (by omega)
  have other : (BitVec.ofNat 32 digit).toInt = digit := by
    rw [BitVec.toInt_eq_toNat_of_lt, BitVec.toNat_ofNat, Nat.mod_eq_of_lt (by omega)]
    rw [BitVec.toNat_ofNat]
    omega
  rw [BitVec.sle, own, other, decide_eq_false_iff_not]
  omega

/-- The digits of a numeral are read from left to right, by induction over its number. -/
theorem strtoiDigits_numeral (valid : 1 < base.toNat) (hex : base.toNat ≤ 16) (n : Nat)
    (rest : List UInt8)
    : strtoiDigits base (numeral base.toNat n ++ rest) 0
      = strtoiDigits base rest (BitVec.ofNat 32 n) := by
  induction n using Nat.strong_induction_on generalizing rest with
  | h n ih =>
      rw [numeral_eq valid]
      split
      · rename_i small
        obtain ⟨digit, value⟩ := hex_digit (small.trans_le hex)
        have first : (0 : BitVec 32) * base + BitVec.ofNat 32 n = BitVec.ofNat 32 n := by simp
        rw [List.singleton_append, strtoiDigits, if_pos digit, value, sle_digit hex small,
          if_neg Bool.false_ne_true, first]
      · rename_i large
        have rest_ := Nat.mod_lt n (Nat.zero_lt_of_lt valid)
        obtain ⟨digit, value⟩ := hex_digit (rest_.trans_le hex)
        have whole : BitVec.ofNat 32 (n / base.toNat) * base + BitVec.ofNat 32 (n % base.toNat)
            = BitVec.ofNat 32 n := by
          have own : base = BitVec.ofNat 32 base.toNat := by simp
          calc BitVec.ofNat 32 (n / base.toNat) * base + BitVec.ofNat 32 (n % base.toNat)
              = BitVec.ofNat 32 (n / base.toNat) * BitVec.ofNat 32 base.toNat
                + BitVec.ofNat 32 (n % base.toNat) := by rw [← own]
            _ = BitVec.ofNat 32 (n / base.toNat * base.toNat + n % base.toNat) := by
                rw [BitVec.ofNat_add, BitVec.ofNat_mul]
            _ = BitVec.ofNat 32 n := by rw [Nat.div_add_mod']
        rw [List.append_assoc, List.singleton_append,
          ih (n / base.toNat) (Nat.div_lt_self (by omega) valid), strtoiDigits, if_pos digit, value,
          sle_digit hex rest_, if_neg Bool.false_ne_true, whole]

theorem numeral_hex (valid : 1 < base.toNat) (hex : base.toNat ≤ 16) (n : Nat)
    : ∀ c ∈ numeral base.toNat n, isHexDigit c = true := by
  induction n using Nat.strong_induction_on with
  | h n ih =>
      intro c member
      rw [numeral_eq valid] at member
      split at member
      · rename_i small
        rw [List.mem_singleton.mp member]
        exact (hex_digit (small.trans_le hex)).1
      · rename_i large
        rcases List.mem_append.mp member with inFront | inLast
        · exact ih (n / base.toNat) (Nat.div_lt_self (by omega) valid) c inFront
        · rw [List.mem_singleton.mp inLast]
          exact (hex_digit ((Nat.mod_lt n (Nat.zero_lt_of_lt valid)).trans_le hex)).1

/-- Digits alone have no spaces, no sign and no prefix in front of them. -/
theorem strtoi_digits (some_ : base ≠ 0) {digits : List UInt8}
    (run : ∀ c ∈ digits, isHexDigit c = true)
    : strtoi (some digits) base
      = ((strtoiDigits base digits 0).1, some (strtoiDigits base digits 0).2) := by
  have other {c mark : UInt8} (member : c ∈ digits) (no : isHexDigit mark = false) : c ≠ mark := by
    rintro rfl
    rw [run c member] at no
    contradiction
  have noSpace : digits.dropWhile isspace = digits := by
    cases digits with
    | nil => rfl
    | cons c rest =>
        refine List.dropWhile_cons_of_neg ?_
        have inside : c ∈ c :: rest := List.mem_cons_self
        simp only [isspace, decide_eq_true_eq, not_or]
        refine ⟨?_, ?_, ?_, ?_, ?_, ?_⟩
        all_goals exact other inside (by decide)
  have noSign (mark : UInt8) (no : isHexDigit mark = false) : digits.head? ≠ some mark :=
    fun first => other (List.mem_of_mem_head? first) no rfl
  have noPrefix (mark : UInt8) (no : isHexDigit mark = false) : digits[1]? ≠ some mark :=
    fun second => other (List.mem_of_getElem? second) no rfl
  have plus := noSign (chr '+') (by decide)
  have minus := noSign (chr '-') (by decide)
  have lower := noPrefix (chr 'x') (by decide)
  have upper := noPrefix (chr 'X') (by decide)
  have single (result : BitVec 32) : result * 1 = result := by simp
  simp only [strtoi, noSpace, plus, minus, lower, upper, strtoiPrefix, some_, or_self, and_false,
    if_false, single]

/-- `strtoi` reads back what `itoa` wrote, up to the NUL. -/
theorem radix_round_trip (fuel : Nat) {base : BitVec 32} (valid : 1 < base.toNat)
    (hex : base.toNat ≤ 16) (v : BitVec 32)
    : ∃ text, itoa (fuel + 32) base v = some text ∧ strtoi (some text) base = (v, some []) := by
  refine ⟨numeral base.toNat v.toNat, itoa_eq valid hex (Nat.le_add_left 32 fuel), ?_⟩
  have some_ : base ≠ 0 := by
    rintro rfl
    exact absurd valid (by decide)
  have read := strtoiDigits_numeral valid hex v.toNat []
  rw [List.append_nil, BitVec.ofNat_toNat, BitVec.setWidth_eq] at read
  rw [strtoi_digits some_ (numeral_hex valid hex v.toNat), read]
  rfl

theorem radix_round_trip_hex
    : ∃ text, itoa (0 + 32) 16 0xDEADBEEF = some text
        ∧ strtoi (some text) 16 = (0xDEADBEEF, some []) :=
  radix_round_trip 0 (by decide) (by decide) 0xDEADBEEF

end Radix

end DeadKernel
