import DeadKernel.Io.Printf

/-! What `printf` puts for a format of ordinary characters and specifications. Padding is right for
numbers and strings, whatever stands in front of them; but the width parser stops at a 0, `%c`
leaves its width unused and in `num`, and a negative number is put as its unsigned value.
-/

namespace DeadKernel

-----------------------------------------------------------------------------------------
-- Formats and arguments
-----------------------------------------------------------------------------------------

inductive Fill where
  | zero
  | space
  | dot
deriving DecidableEq

def Fill.char : Fill → UInt8
  | .zero => chr '0'
  | .space => chr ' '
  | .dot => chr '.'

inductive Letter where
  | d
  | u
  | x
  | s
  | c
deriving DecidableEq

def Letter.char : Letter → UInt8
  | .d => chr 'd'
  | .u => chr 'u'
  | .x => chr 'x'
  | .s => chr 's'
  | .c => chr 'c'

/-- A specification; the width 0 stands for none. -/
structure Spec where
  fill : Option Fill
  right : Bool
  width : Nat
  letter : Letter
  small : width < 128

def Spec.digits (spec : Spec) : List UInt8 :=
  if spec.width = 0 then [] else numeral 10 spec.width

/-- What stands between the percent sign and the letter. -/
def Spec.flags (spec : Spec) : List UInt8 :=
  (spec.fill.map Fill.char).toList ++ (if spec.right then [chr '-'] else []) ++ spec.digits

def Spec.bytes (spec : Spec) : List UInt8 := chr '%' :: (spec.flags ++ [spec.letter.char])

/-- An argument word, with the string it points to. -/
structure Argument where
  word : BitVec 32
  string : List UInt8

/-- The argument of a specification: a string ends with a NUL, and `strlen` can measure it. -/
def Argument.Matches (memory : CharMemory) (letter : Letter) (arg : Argument) : Prop :=
  letter = .s → arg.string.length < 2147483648
    ∧ (arg.word = 0 ∧ arg.string = nullText
      ∨ arg.word ≠ 0 ∧ BytesAt memory arg.word (arg.string ++ [0]) ∧ 0 ∉ arg.string)

/-- A character other than a percent sign, or a specification with its argument. -/
inductive Item where
  | char (c : UInt8)
  | conversion (spec : Spec) (arg : Argument)

def Item.bytes : Item → List UInt8
  | .char c => [c]
  | .conversion spec _ => spec.bytes

/-- Ordinary characters, and arguments that match their specifications and come one after another.
-/
def ItemsMatch (memory : CharMemory) (args : Nat → BitVec 32) : Nat → List Item → Prop
  | _, [] => True
  | index, .char c :: rest => c ≠ 0 ∧ c ≠ chr '%' ∧ ItemsMatch memory args index rest
  | index, .conversion spec arg :: rest =>
      args index = arg.word ∧ arg.Matches memory spec.letter
        ∧ ItemsMatch memory args (index + 1) rest

-----------------------------------------------------------------------------------------
-- What is to be put
-----------------------------------------------------------------------------------------

/-- The text of an argument. -/
def Letter.text (letter : Letter) (arg : Argument) : List UInt8 :=
  match letter with
  | .d => signedNumeral arg.word.toInt
  | .u => numeral 10 arg.word.toNat
  | .x => numeral 16 arg.word.toNat
  | .s => arg.string
  | .c => [⟨arg.word.setWidth 8⟩]

/-- Padding to a width, on the left or on the right. -/
def pad (sym : UInt8) (right : Bool) (width : Nat) (text : List UInt8) : List UInt8 :=
  let padding := List.replicate (width - text.length) sym
  if right then text ++ padding else padding ++ text

def Spec.fillChar (spec : Spec) : UInt8 := (spec.fill.map Fill.char).getD (chr ' ')

def Item.expected : Item → List UInt8
  | .char c => [c]
  | .conversion spec arg => pad spec.fillChar spec.right spec.width (spec.letter.text arg)

/-- A specification that consists of its letter. -/
def Spec.Plain (spec : Spec) : Prop := spec.flags = []

/-- The specification alone is put as it should be. -/
def Spec.Honoured (spec : Spec) (arg : Argument) : Prop :=
  chr '0' ∉ spec.digits ∧ (spec.letter = .c → spec.width ≤ 1)
    ∧ (spec.letter = .d → 0 ≤ arg.word.toInt)

instance (spec : Spec) : Decidable spec.Plain := inferInstanceAs (Decidable (_ = _))

instance (spec : Spec) (arg : Argument) : Decidable (spec.Honoured arg) :=
  inferInstanceAs (Decidable (_ ∧ _))

/-- Whether a `%1c` has left its width behind. -/
def Spec.leaves (spec : Spec) (pending : Bool) : Bool :=
  if spec.letter = .c then if spec.Plain then pending else spec.width = 1 else false

/-- Every specification is put as it should be alone, and no plain `%s` puts an empty string behind
a `%1c` with only characters and plain `%c` between them.
-/
def AllHonoured : Bool → List Item → Prop
  | _, [] => True
  | pending, .char _ :: rest => AllHonoured pending rest
  | pending, .conversion spec arg :: rest =>
      spec.Honoured arg
        ∧ (pending = true → spec.Plain → spec.letter = .s → arg.string ≠ [])
        ∧ AllHonoured (spec.leaves pending) rest

instance AllHonoured.decidable : ∀ pending items, Decidable (AllHonoured pending items)
  | _, [] => isTrue trivial
  | pending, .char _ :: rest => AllHonoured.decidable pending rest
  | pending, .conversion spec arg :: rest =>
      have := AllHonoured.decidable (spec.leaves pending) rest
      inferInstanceAs (Decidable (spec.Honoured arg
        ∧ (pending = true → spec.Plain → spec.letter = .s → arg.string ≠ [])
        ∧ AllHonoured (spec.leaves pending) rest))

-----------------------------------------------------------------------------------------
-- Padding
-----------------------------------------------------------------------------------------

/-- What `num` may hold in front of a plain specification. -/
def Stale (pending : Bool) (num : BitVec 8) : Prop :=
  if pending then num = 1 else num = 0 ∨ num = -1

theorem stale_start : Stale false 0 := Or.inl rfl

section Padding

variable {sym : UInt8} {right : Bool} {text : List UInt8} {width : Nat}

theorem toInt_length (measured : text.length < 2147483648)
    : (BitVec.ofNat 32 text.length).toInt = text.length := by
  rw [BitVec.toInt_eq_toNat_of_lt, BitVec.toNat_ofNat, Nat.mod_eq_of_lt (by omega)]
  rw [BitVec.toNat_ofNat]
  omega

/-- What the code leaves of a width for padding. -/
theorem width_left (small : width < 128) (measured : text.length < 2147483648)
    : BitVec.ofNat 8 width - BitVec.ofInt 8
        (if (BitVec.ofNat 8 width).toInt < (BitVec.ofNat 32 text.length).toInt
          then (BitVec.ofNat 8 width).toInt else (BitVec.ofNat 32 text.length).toInt)
      = BitVec.ofNat 8 (width - text.length) := by
  have own : (BitVec.ofNat 8 width).toInt = width := by
    rw [BitVec.toInt_eq_toNat_of_lt, BitVec.toNat_ofNat, Nat.mod_eq_of_lt (by omega)]
    rw [BitVec.toNat_ofNat]
    omega
  rw [toInt_length measured, own]
  split
  · rename_i longer
    rw [Nat.sub_eq_zero_of_le (by omega), BitVec.ofInt_natCast, BitVec.sub_self]
  · rename_i shorter
    rw [BitVec.ofInt_natCast]
    apply BitVec.eq_of_toNat_eq
    simp only [BitVec.toNat_sub, BitVec.toNat_ofNat]
    omega

/-- A width that has just been read is used as it should be. -/
theorem putString_eq (small : width < 128) (measured : text.length < 2147483648)
    : (putString sym right text (BitVec.ofNat 8 width)).1 = pad sym right width text
      ∧ Stale false (putString sym right text (BitVec.ofNat 8 width)).2 := by
  rw [putString]
  dsimp only
  rw [width_left small measured]
  have left : (BitVec.ofNat 8 (width - text.length)).toNat = width - text.length := by
    rw [BitVec.toNat_ofNat]
    omega
  have none : BitVec.ofNat 8 (width - text.length) = 0 ↔ width - text.length = 0 := by
    rw [← BitVec.toNat_inj, left]
    rfl
  by_cases zero : width = 0
  · subst zero
    simp [pad, Stale]
  · have some : BitVec.ofNat 8 width ≠ 0 := by
      rw [Ne, ← BitVec.toNat_inj, BitVec.toNat_ofNat]
      simp
      omega
    rw [if_neg some]
    cases right with
    | false => simp [countDown, pad, Stale, left]
    | true =>
        by_cases fits : width - text.length = 0
        · simp [pad, fits, Stale]
        · have filled := mt none.mp fits
          rw [if_pos rfl, if_pos ⟨filled, rfl⟩]
          simp [countDown, pad, Stale, left]

/-- What an earlier specification has left in `num` pads an empty string only. -/
theorem putString_stale {pending : Bool} {num : BitVec 8} (stale : Stale pending num)
    (measured : text.length < 2147483648)
    : (putString sym false text num).1
        = (if pending = true ∧ text = [] then [sym] else text)
      ∧ Stale false (putString sym false text num).2 := by
  have width {left : Nat} (small : left < 128) (same : num = BitVec.ofNat 8 left) :=
    same ▸ (putString_eq small measured : (putString sym false text _).1 = _ ∧ _)
  cases pending with
  | true =>
      obtain ⟨put, after⟩ := width (by decide : 1 < 128) stale
      refine ⟨put.trans ?_, after⟩
      cases text with
      | nil => rfl
      | cons c rest => simp [pad]
  | false =>
      rcases stale with rfl | rfl
      · obtain ⟨put, after⟩ := width (by decide : 0 < 128) rfl
        exact ⟨put.trans (by simp [pad]), after⟩
      · -- the loop for the padding has left -1, from which it is taken away again
        have less : (-1 : BitVec 8).toInt < (BitVec.ofNat 32 text.length).toInt := by
          rw [toInt_length measured]
          exact (by decide : (-1 : BitVec 8).toInt < 0).trans_le (Int.natCast_nonneg _)
        rw [putString]
        dsimp only
        rw [if_neg (by decide), if_pos less]
        simp [countDown, Stale]

end Padding

-----------------------------------------------------------------------------------------
-- One specification
-----------------------------------------------------------------------------------------

/-- The reading whose character stands at an address. -/
def readAt (memory : CharMemory) (address : BitVec 32) : Reading := ⟨memory address, address + 1⟩

/-- The text that the code takes an argument for: numbers as unsigned ones. -/
def Letter.printed (letter : Letter) (arg : Argument) : List UInt8 :=
  match letter with
  | .d | .u => numeral 10 arg.word.toNat
  | .x => numeral 16 arg.word.toNat
  | .s => arg.string
  | .c => [⟨arg.word.setWidth 8⟩]

/-- What the code puts at a letter. -/
def Letter.put (letter : Letter) (sym : UInt8) (right : Bool) (arg : Argument) (num : BitVec 8)
    : List UInt8 × BitVec 8 :=
  if letter = .c then (letter.printed arg, num) else putString sym right (letter.printed arg) num

section Conversion

variable {memory : CharMemory} {args : Nat → BitVec 32} {sym : UInt8} {right : Bool}
  {index : Nat} {num : BitVec 8} {address : BitVec 32}

/-- A string is read up to its NUL, by induction over its characters. -/
theorem stringFrom_eq {text : List UInt8} (at_ : BytesAt memory address (text ++ [0]))
    (noNul : 0 ∉ text) {fuel : Nat} (enough : text.length < fuel)
    : stringFrom memory fuel address = some text := by
  induction text generalizing address fuel with
  | nil =>
      obtain ⟨fuel, rfl⟩ : ∃ more, fuel = more + 1 := ⟨fuel - 1, by omega⟩
      rw [stringFrom, if_pos at_.1]
  | cons c rest ih =>
      obtain ⟨fuel, rfl⟩ : ∃ more, fuel = more + 1 := ⟨fuel - 1, by omega⟩
      obtain ⟨here, later⟩ := at_
      rw [List.mem_cons, not_or] at noNul
      have some : memory address ≠ 0 := by
        rw [here]
        exact Ne.symm noNul.1
      rw [stringFrom, if_neg some, ih later noNul.2 (by simp at enough; omega), here]
      rfl

/-- A letter takes its argument. -/
theorem convert_letter {letter : Letter} {arg : Argument} (word : args index = arg.word)
    (matching : arg.Matches memory letter) {fuel : Nat} (enough : 32 + arg.string.length < fuel)
    : convert memory args (fuel + 1) sym right index num ⟨letter.char, address⟩
      = some ((letter.put sym right arg num).1,
          ⟨address, index + 1, (letter.put sym right arg num).2⟩) := by
  have decimal : itoa fuel 10 arg.word = some (numeral 10 arg.word.toNat) :=
    itoa_eq (by decide) (by decide) (by omega)
  have hexadecimal : itoa fuel 16 arg.word = some (numeral 16 arg.word.toNat) :=
    itoa_eq (by decide) (by decide) (by omega)
  rw [convert]
  dsimp only
  cases letter with
  | d =>
      rw [if_pos (by decide), if_neg (by decide), word, decimal]
      rfl
  | u =>
      rw [if_pos (by decide), if_neg (by decide), word, decimal]
      rfl
  | x =>
      rw [if_pos (by decide), if_pos (by decide), word, hexadecimal]
      rfl
  | s =>
      obtain ⟨-, ⟨null, text⟩ | ⟨notNull, at_, noNul⟩⟩ := matching rfl
      · rw [if_neg (by decide), if_pos (by decide), word]
        simp only [null, if_true]
        rw [← text]
        rfl
      · rw [if_neg (by decide), if_pos (by decide), word]
        simp only [notNull, if_false]
        rw [stringFrom_eq at_ noNul (by omega)]
        rfl
  | c =>
      rw [if_neg (by decide), if_neg (by decide), if_pos (by decide), word]
      rfl

/-- The decimal digits of a width, the first of which is not 0. -/
theorem width_digits {width : Nat} (some : 0 < width) (small : width < 128)
    : ∃ first rest, numeral 10 width = (first :: rest).map (fun digit => chr digit.digitChar)
      ∧ 0 < first ∧ (∀ digit ∈ first :: rest, digit < 10)
      ∧ (first :: rest).foldl (fun value digit => value * 10 + digit) 0 = width := by
  by_cases one : width < 10
  · refine ⟨width, [], ?_, some, by simpa using one, by simp⟩
    rw [numeral_eq (by decide), if_pos one]
    rfl
  · by_cases two : width < 100
    · refine ⟨width / 10, [width % 10], ?_, by omega, ?_, ?_⟩
      · rw [numeral_eq (by decide), if_neg one, numeral_eq (by decide), if_pos (by omega)]
        rfl
      · intro digit member
        simp only [List.mem_cons, List.not_mem_nil, or_false] at member
        omega
      · simp only [List.foldl_cons, List.foldl_nil]
        omega
    · refine ⟨width / 10 / 10, [width / 10 % 10, width % 10], ?_, by omega, ?_, ?_⟩
      · rw [numeral_eq (by decide), if_neg one, numeral_eq (by decide), if_neg (by omega),
          numeral_eq (by decide), if_pos (by omega)]
        rfl
      · intro digit member
        simp only [List.mem_cons, List.not_mem_nil, or_false] at member
        omega
      · simp only [List.foldl_cons, List.foldl_nil]
        omega

theorem digitChar_value {digit : Nat} (small : digit < 10)
    : (chr digit.digitChar - chr '0').toBitVec = BitVec.ofNat 8 digit
      ∧ (chr '1' ≤ chr digit.digitChar ∧ chr digit.digitChar ≤ chr '9' ↔ 0 < digit) := by
  interval_cases digit <;> decide

/-- The digits of a width are read up to a character that is none, a 0 for instance, by induction
over them.
-/
theorem readWidth_eq {digits : List Nat} (nonzero : ∀ digit ∈ digits, 0 < digit ∧ digit < 10)
    {c : UInt8} (stop : ¬ (chr '1' ≤ c ∧ c ≤ chr '9'))
    (at_ : BytesAt memory address (digits.map (fun digit => chr digit.digitChar) ++ [c]))
    {fuel value : Nat} (enough : digits.length < fuel)
    : readWidth memory fuel (BitVec.ofNat 8 value) (readAt memory address)
      = some (BitVec.ofNat 8 (digits.foldl (fun value digit => value * 10 + digit) value),
          readAt memory (address + BitVec.ofNat 32 digits.length)) := by
  induction digits generalizing address fuel value with
  | nil =>
      obtain ⟨fuel, rfl⟩ : ∃ more, fuel = more + 1 := ⟨fuel - 1, by omega⟩
      have here : (readAt memory address).c = c := at_.1
      rw [readWidth, here, if_neg stop]
      simp
  | cons digit rest ih =>
      obtain ⟨fuel, rfl⟩ : ∃ more, fuel = more + 1 := ⟨fuel - 1, by omega⟩
      obtain ⟨here, later⟩ := at_
      have here : (readAt memory address).c = chr digit.digitChar := here
      obtain ⟨positive, small⟩ := nonzero digit List.mem_cons_self
      obtain ⟨same, isDigit⟩ := digitChar_value small
      have next : (readAt memory address).next memory = readAt memory (address + 1) := rfl
      have sum : BitVec.ofNat 8 value * 10 + BitVec.ofNat 8 digit
          = BitVec.ofNat 8 (value * 10 + digit) := by
        rw [BitVec.ofNat_add, BitVec.ofNat_mul]
        rfl
      have length : address + 1 + BitVec.ofNat 32 rest.length
          = address + BitVec.ofNat 32 (digit :: rest).length := by
        rw [List.length_cons, BitVec.add_assoc, Nat.add_comm, BitVec.ofNat_add]
        rfl
      rw [readWidth, here, if_pos (isDigit.mpr positive), same, next, sum,
        ih (fun other member => nonzero other (List.mem_cons_of_mem _ member)) later
          (by simp at enough; omega), length]
      rfl

/-- The fill character is read, if there is one. -/
theorem fill_read {fill : Option Fill} {next : UInt8} {rest : List UInt8}
    (at_ : BytesAt memory address ((fill.map Fill.char).toList ++ next :: rest))
    (other : ∀ fill : Fill, next ≠ fill.char)
    : (if (readAt memory address).c = chr '0' ∨ (readAt memory address).c = chr ' '
          ∨ (readAt memory address).c = chr '.' then (readAt memory address).c else chr ' ')
        = (fill.map Fill.char).getD (chr ' ')
      ∧ (if (readAt memory address).c = chr '0' ∨ (readAt memory address).c = chr ' '
          ∨ (readAt memory address).c = chr '.'
          then (readAt memory address).next memory else readAt memory address)
        = readAt memory (address + BitVec.ofNat 32 (fill.map Fill.char).toList.length) := by
  have here : (readAt memory address).c = (fill.map Fill.char).getD next := by
    cases fill with
    | none => exact at_.1
    | some fill => exact at_.1
  rw [here]
  cases fill with
  | none =>
      have none : ¬ (next = chr '0' ∨ next = chr ' ' ∨ next = chr '.') := by
        rintro (zero | space | dot)
        · exact other .zero zero
        · exact other .space space
        · exact other .dot dot
      rw [Option.map_none, Option.getD_none, if_neg none, if_neg none]
      simp
  | some fill =>
      have some : fill.char = chr '0' ∨ fill.char = chr ' ' ∨ fill.char = chr '.' := by
        cases fill <;> decide
      rw [Option.map_some, Option.getD_some, if_pos some, if_pos some]
      exact ⟨rfl, rfl⟩

/-- The minus sign is read, if there is one. -/
theorem right_read {right : Bool} {next : UInt8} {rest : List UInt8}
    (at_ : BytesAt memory address ((if right then [chr '-'] else []) ++ next :: rest))
    (other : next ≠ chr '-')
    : (if (readAt memory address).c = chr '-' then true else false) = right
      ∧ (if (readAt memory address).c = chr '-'
          then (readAt memory address).next memory else readAt memory address)
        = readAt memory (address
            + BitVec.ofNat 32 (if right then [chr '-'] else []).length) := by
  cases right with
  | false =>
      have here : (readAt memory address).c = next := at_.1
      rw [here, if_neg other, if_neg other]
      simp
  | true =>
      have here : (readAt memory address).c = chr '-' := at_.1
      rw [if_pos here, if_pos here]
      exact ⟨rfl, rfl⟩

/-- The digits of a width are neither fill characters nor minus signs nor letters. -/
theorem digitChar_other {digit : Nat} (positive : 0 < digit) (small : digit < 10)
    : (∀ fill : Fill, chr digit.digitChar ≠ fill.char) ∧ chr digit.digitChar ≠ chr '-'
      ∧ ∀ letter : Letter, chr digit.digitChar ≠ letter.char := by
  refine ⟨?_, ?_, ?_⟩
  · intro fill
    cases fill <;> interval_cases digit <;> decide
  · interval_cases digit <;> decide
  · intro letter
    cases letter <;> interval_cases digit <;> decide

theorem Letter.char_other (letter : Letter)
    : (∀ fill : Fill, letter.char ≠ fill.char) ∧ letter.char ≠ chr '-'
      ∧ ¬ (chr '1' ≤ letter.char ∧ letter.char ≤ chr '9') := by
  refine ⟨?_, ?_, ?_⟩
  · intro fill
    cases fill <;> cases letter <;> decide
  · cases letter <;> decide
  · cases letter <;> decide

/-- The fill character, the minus sign and the digits before the first 0 have been read. -/
structure FlagsAt (memory : CharMemory) (address : BitVec 32) (fill : Option Fill) (right : Bool)
    (digits : List Nat) (c : UInt8)
    : Prop where
  percent : memory address = chr '%'
  bytes : BytesAt memory (address + 1) ((fill.map Fill.char).toList
    ++ ((if right then [chr '-'] else [])
      ++ (digits.map (fun digit => chr digit.digitChar) ++ [c])))
  nonzero : ∀ digit ∈ digits, 0 < digit ∧ digit < 10
  last : (∃ letter : Letter, c = letter.char) ∧ (fill ≠ none ∨ right = true ∨ digits ≠ [])
    ∨ c = chr '0' ∧ digits ≠ []

section Flags

variable {fill : Option Fill} {digits : List Nat} {c : UInt8}

theorem FlagsAt.stop (flags : FlagsAt memory address fill right digits c)
    : ¬ (chr '1' ≤ c ∧ c ≤ chr '9') := by
  rcases flags.last with ⟨⟨letter, rfl⟩, -⟩ | ⟨rfl, -⟩
  · exact letter.char_other.2.2
  · decide

/-- The character behind the minus sign. -/
theorem FlagsAt.digits_first (flags : FlagsAt memory address fill right digits c)
    : ∃ next rest, digits.map (fun digit => chr digit.digitChar) ++ [c] = next :: rest
      ∧ next ≠ chr '-' ∧ (right = false → ∀ fill : Fill, next ≠ fill.char)
      ∧ (digits = [] ∨ ∀ letter : Letter, next ≠ letter.char) := by
  cases digits with
  | nil =>
      obtain ⟨⟨letter, rfl⟩, -⟩ | ⟨-, some⟩ := flags.last
      · exact ⟨_, _, rfl, letter.char_other.2.1, fun _ => letter.char_other.1, .inl rfl⟩
      · exact absurd rfl some
  | cons digit rest =>
      obtain ⟨positive, small⟩ := flags.nonzero digit List.mem_cons_self
      obtain ⟨fills, minus, letters⟩ := digitChar_other positive small
      exact ⟨_, _, rfl, minus, fun _ => fills, .inr letters⟩

/-- The character behind the fill character. -/
theorem FlagsAt.right_first (flags : FlagsAt memory address fill right digits c)
    : ∃ next rest, (if right then [chr '-'] else [])
        ++ (digits.map (fun digit => chr digit.digitChar) ++ [c]) = next :: rest
      ∧ (∀ fill : Fill, next ≠ fill.char)
      ∧ (right = false ∧ digits = [] ∨ ∀ letter : Letter, next ≠ letter.char) := by
  cases right with
  | true =>
      refine ⟨_, _, rfl, ?_, .inr ?_⟩
      · intro fill
        cases fill <;> decide
      · intro letter
        cases letter <;> decide
  | false =>
      obtain ⟨next, rest, first, -, fills, letters⟩ := flags.digits_first
      refine ⟨next, rest, first, fills rfl, ?_⟩
      rcases letters with none | letters
      · exact .inl ⟨rfl, none⟩
      · exact .inr letters

/-- The first of the characters is no letter. -/
theorem FlagsAt.first_other (flags : FlagsAt memory address fill right digits c)
    (letter : Letter)
    : (readAt memory (address + 1)).c ≠ letter.char := by
  have bytes := flags.bytes
  cases fill with
  | some fill =>
      have here : (readAt memory (address + 1)).c = fill.char := bytes.1
      rw [here]
      exact fun same => letter.char_other.1 fill same.symm
  | none =>
      obtain ⟨next, rest, first, -, none | letters⟩ := flags.right_first
      · obtain ⟨-, some⟩ | ⟨-, some⟩ := flags.last
        · simp [none] at some
        · exact absurd none.2 some
      · rw [first] at bytes
        have here : (readAt memory (address + 1)).c = next := bytes.1
        rw [here]
        exact letters letter

/-- The parser reads up to the letter, or up to the first 0 of the width. -/
theorem FlagsAt.convert (flags : FlagsAt memory address fill right digits c) {fuel : Nat}
    (enough : digits.length < fuel)
    : DeadKernel.convert memory args (fuel + 1) (chr ' ') false index num
        (readAt memory (address + 1))
      = DeadKernel.convert memory args fuel ((fill.map Fill.char).getD (chr ' ')) right index
          (BitVec.ofNat 8 (digits.foldl (fun value digit => value * 10 + digit) 0))
          (readAt memory (address + 1 + BitVec.ofNat 32 ((fill.map Fill.char).toList.length
            + (if right then [chr '-'] else []).length + digits.length))) := by
  have other := flags.first_other
  have bytes := flags.bytes
  obtain ⟨next, rest, first, fills, -⟩ := flags.right_first
  rw [first] at bytes
  obtain ⟨symRead, symAt⟩ := fill_read bytes fills
  have later := (bytesAt_append.mp flags.bytes).2
  obtain ⟨digit, behind, digitFirst, minus, -, -⟩ := flags.digits_first
  obtain ⟨rightRead, rightAt⟩ := right_read (digitFirst ▸ later) minus
  have number := (bytesAt_append.mp later).2
  have back : (readAt memory (address + 1)).format - 2 = address := by
    show address + 1 + 1 - 2 = address
    bv_omega
  have width : readWidth memory fuel 0 (readAt memory (address + 1
        + BitVec.ofNat 32 (fill.map Fill.char).toList.length
        + BitVec.ofNat 32 (if right then [chr '-'] else []).length)) = _ :=
    readWidth_eq flags.nonzero flags.stop number enough
  have string : (readAt memory (address + 1)).c ≠ chr 's' := other .s
  have character : (readAt memory (address + 1)).c ≠ chr 'c' := other .c
  rw [DeadKernel.convert]
  dsimp only
  rw [if_neg (by
      rintro (d | u | x)
      · exact other .d d
      · exact other .u u
      · exact other .x x),
    if_neg string, if_neg character, back, if_pos flags.percent, symRead, symAt, rightAt,
    rightRead, width]
  rw [BitVec.ofNat_add, BitVec.ofNat_add, ← BitVec.add_assoc, ← BitVec.add_assoc]
  rfl

end Flags

end Conversion

end DeadKernel
