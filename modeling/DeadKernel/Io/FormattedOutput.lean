import DeadKernel.Io.FormattedText

/-! Whole formats: every specification is put as it should be exactly if each one is put so alone
and no `%s` with an empty string meets the width of a `%1c`.
-/

namespace DeadKernel

-----------------------------------------------------------------------------------------
-- The digits of a width
-----------------------------------------------------------------------------------------

theorem digitChar_zero {digit : Nat} (small : digit < 10)
    : chr digit.digitChar = chr '0' ↔ digit = 0 := by
  interval_cases digit <;> decide

/-- The decimal digits of a specification's width: one that holds a 0 has something in front of
it.
-/
theorem Spec.digits_eq (spec : Spec)
    : ∃ digits : List Nat, spec.digits = digits.map (fun digit => chr digit.digitChar)
      ∧ (∀ digit ∈ digits, digit < 10)
      ∧ digits.foldl (fun value digit => value * 10 + digit) 0 = spec.width
      ∧ (0 ∈ digits → 10 ≤ spec.width
        ∧ ∃ front back, digits = front ++ 0 :: back ∧ front ≠ [] ∧ 0 ∉ front) := by
  by_cases none : spec.width = 0
  · refine ⟨[], ?_, by simp, none.symm, by simp⟩
    rw [Spec.digits, if_pos none]
    rfl
  · obtain ⟨first, rest, digits, positive, small, value⟩ :=
      width_digits (by omega : 0 < spec.width) spec.small
    refine ⟨first :: rest, ?_, small, value, ?_⟩
    · rw [Spec.digits, if_neg none, digits]
    · intro zero
      obtain ⟨front, back, split, before⟩ := List.eq_append_cons_of_mem zero
      have some : front ≠ [] := by
        rintro rfl
        injection split with same
        omega
      refine ⟨?_, front, back, split, some, before⟩
      by_contra below
      have one := numeral_eq (n := spec.width) (by decide : 1 < 10)
      rw [if_pos (by omega), digits] at one
      have alone : rest = [] := by simpa using congrArg List.length one
      subst alone
      have : first = 0 := (List.mem_singleton.mp zero).symm
      omega

/-- Whether the width holds a 0. -/
theorem zero_digit {digits : List Nat} (small : ∀ digit ∈ digits, digit < 10)
    : chr '0' ∈ digits.map (fun digit => chr digit.digitChar) ↔ 0 ∈ digits := by
  rw [List.mem_map]
  constructor
  · rintro ⟨digit, member, same⟩
    rwa [← (digitChar_zero (small digit member)).mp same]
  · intro member
    exact ⟨0, member, rfl⟩

-----------------------------------------------------------------------------------------
-- What the code puts for one specification
-----------------------------------------------------------------------------------------

section Conversion

variable {memory : CharMemory} {args : Nat → BitVec 32} {index : Nat} {num : BitVec 8}
  {address : BitVec 32} {spec : Spec} {arg : Argument}

/-- What is put from the percent sign on. -/
def Converts (memory : CharMemory) (args : Nat → BitVec 32) (address : BitVec 32) (index : Nat)
    (num : BitVec 8) (put : List UInt8) (position : Position)
    : Prop :=
  ∃ least, ∀ fuel, least ≤ fuel →
    convert memory args fuel (chr ' ') false index num (readAt memory (address + 1))
      = some (put, position)

/-- A letter alone. -/
theorem converts_plain (bytes : BytesAt memory address spec.bytes) (plain : spec.Plain)
    (word : args index = arg.word) (matching : arg.Matches memory spec.letter)
    : Converts memory args address index num (spec.letter.put (chr ' ') false arg num).1
        ⟨address + BitVec.ofNat 32 spec.bytes.length, index + 1,
          (spec.letter.put (chr ' ') false arg num).2⟩ := by
  have length : address + BitVec.ofNat 32 spec.bytes.length = address + 1 + 1 := by
    rw [Spec.bytes, plain, BitVec.add_assoc]
    rfl
  rw [Spec.bytes, plain] at bytes
  have letter : memory (address + 1) = spec.letter.char := bytes.2.1
  refine ⟨34 + arg.string.length, fun fuel enough => ?_⟩
  obtain ⟨fuel, rfl⟩ : ∃ more, fuel = more + 1 := ⟨fuel - 1, by omega⟩
  rw [readAt, letter, convert_letter word matching (by omega), length]

/-- A width without a 0. -/
theorem converts_flags (bytes : BytesAt memory address spec.bytes) (flags : ¬ spec.Plain)
    (nonzero : chr '0' ∉ spec.digits) (word : args index = arg.word)
    (matching : arg.Matches memory spec.letter)
    : Converts memory args address index num
        (spec.letter.put spec.fillChar spec.right arg (BitVec.ofNat 8 spec.width)).1
        ⟨address + BitVec.ofNat 32 spec.bytes.length, index + 1,
          (spec.letter.put spec.fillChar spec.right arg (BitVec.ofNat 8 spec.width)).2⟩ := by
  obtain ⟨digits, same, small, value, -⟩ := spec.digits_eq
  rw [same, zero_digit small] at nonzero
  have flagsAt : FlagsAt memory address spec.fill spec.right digits spec.letter.char := by
    refine ⟨bytes.1, ?_, ?_, .inl ⟨⟨_, rfl⟩, ?_⟩⟩
    · have later := bytes.2
      rwa [Spec.flags, same, List.append_assoc, List.append_assoc] at later
    · intro digit member
      refine ⟨Nat.pos_of_ne_zero ?_, small digit member⟩
      rintro rfl
      exact nonzero member
    · by_contra bare
      obtain ⟨fill, left, width⟩ : spec.fill = none ∧ spec.right = false ∧ digits = [] := by
        simpa [not_or] using bare
      apply flags
      rw [Spec.Plain, Spec.flags, same, fill, left, width]
      rfl
  have length : address + 1 + BitVec.ofNat 32 ((spec.fill.map Fill.char).toList.length
        + (if spec.right then [chr '-'] else []).length + digits.length) + 1
      = address + BitVec.ofNat 32 spec.bytes.length := by
    rw [Spec.bytes, Spec.flags, same]
    simp only [List.length_cons, List.length_append, List.length_map, List.length_nil,
      BitVec.ofNat_add, BitVec.add_assoc]
    rw [BitVec.add_comm 1]
    simp only [BitVec.add_assoc]
    rfl
  have letter : memory (address + 1 + BitVec.ofNat 32 ((spec.fill.map Fill.char).toList.length
      + (if spec.right then [chr '-'] else []).length + digits.length)) = spec.letter.char := by
    have all := flagsAt.bytes
    rw [← List.append_assoc, ← List.append_assoc, bytesAt_append] at all
    simpa [BytesAt, Nat.add_assoc] using all.2
  refine ⟨35 + arg.string.length + digits.length, fun fuel enough => ?_⟩
  obtain ⟨fuel, rfl⟩ : ∃ more, fuel = more + 2 := ⟨fuel - 2, by omega⟩
  rw [flagsAt.convert (by omega), value, readAt, letter,
    convert_letter word matching (by omega), length]
  rfl

/-- A width with a 0, at which the parser gives up and puts the argument as a character. -/
theorem converts_zero (bytes : BytesAt memory address spec.bytes) (zero : chr '0' ∈ spec.digits)
    (word : args index = arg.word)
    : ∃ position, Converts memory args address index num [⟨arg.word.setWidth 8⟩] position := by
  obtain ⟨digits, same, small, -, split⟩ := spec.digits_eq
  rw [same, zero_digit small] at zero
  obtain ⟨-, front, back, rfl, some, nonzero⟩ := split zero
  obtain ⟨init, last, rfl⟩ : ∃ init last, front = init ++ [last] :=
    ⟨_, _, (List.dropLast_append_getLast some).symm⟩
  have positive : ∀ digit ∈ init ++ [last], 0 < digit ∧ digit < 10 := by
    intro digit member
    refine ⟨Nat.pos_of_ne_zero ?_, small digit (List.mem_append_left _ member)⟩
    rintro rfl
    exact nonzero member
  have all : BytesAt memory (address + 1) (((spec.fill.map Fill.char).toList
        ++ ((if spec.right then [chr '-'] else [])
          ++ ((init ++ [last]).map (fun digit => chr digit.digitChar) ++ [chr '0'])))
      ++ (back.map (fun digit => chr digit.digitChar) ++ [spec.letter.char])) := by
    have later := bytes.2
    have zeroChar : chr (Nat.digitChar 0) = chr '0' := rfl
    rw [Spec.flags, same] at later
    simpa [zeroChar] using later
  have flagsAt : FlagsAt memory address spec.fill spec.right (init ++ [last]) (chr '0') :=
    ⟨bytes.1, (bytesAt_append.mp all).1, positive, .inr ⟨rfl, some⟩⟩
  -- the digit in front of the 0 stands where the parser looks for a percent sign
  obtain ⟨stop, zeroAt, before⟩ : ∃ stop, memory (stop + 1) = chr '0'
      ∧ memory stop = chr last.digitChar
      ∧ address + 1 + BitVec.ofNat 32 ((spec.fill.map Fill.char).toList.length
          + (if spec.right then [chr '-'] else []).length + (init ++ [last]).length)
        = stop + 1 := by
    refine ⟨address + 1 + BitVec.ofNat 32 ((spec.fill.map Fill.char).toList.length
      + (if spec.right then [chr '-'] else []).length + init.length), ?_⟩
    have digits := (bytesAt_append.mp (bytesAt_append.mp flagsAt.bytes).2).2
    rw [List.map_append, List.append_assoc, bytesAt_append] at digits
    obtain ⟨-, lastAt, zeroAt, -⟩ := digits
    simp only [List.length_map, BitVec.add_assoc, BitVec.ofNat_add, List.length_append,
      List.length_singleton] at lastAt zeroAt ⊢
    exact ⟨zeroAt, lastAt, rfl⟩
  obtain ⟨before, length⟩ := before
  have notPercent : memory stop ≠ chr '%' := by
    obtain ⟨above, below⟩ := positive last (by simp)
    rw [before]
    interval_cases last <;> decide
  refine ⟨⟨stop + 1 + 1, index + 1, BitVec.ofNat 8
    ((init ++ [last]).foldl (fun value digit => value * 10 + digit) 0)⟩,
    (init ++ [last]).length + 2, fun fuel enough => ?_⟩
  obtain ⟨fuel, rfl⟩ : ∃ more, fuel = more + 2 := ⟨fuel - 2, by omega⟩
  rw [flagsAt.convert (by omega), length, readAt, zeroAt, convert]
  have back : stop + 1 + 1 - 2 = stop := by bv_omega
  dsimp only
  rw [if_neg (by decide), if_neg (by decide), if_neg (by decide), back, if_neg notPercent, word]

end Conversion

-----------------------------------------------------------------------------------------
-- When it is what should be put
-----------------------------------------------------------------------------------------

section Texts

variable {memory : CharMemory} {pending : Bool} {num : BitVec 8} {spec : Spec} {arg : Argument}

theorem word_numeral_length {base : Nat} (valid : 1 < base) (word : BitVec 32)
    : (numeral base word.toNat).length ≤ 32 :=
  numeral_length_le valid (word.isLt.trans_le (Nat.pow_le_pow_left valid 32))

/-- A numeral is not empty and holds no minus sign. -/
theorem minus_numeral (n : Nat) : chr '-' ∉ numeral 10 n := by
  intro member
  obtain ⟨digit, member, same⟩ := List.mem_map.mp member
  have isDigit := Nat.isDigit_of_mem_toDigits (by decide) (by decide) member
  have value : digit.val.toUInt8.toNat = 45 := congrArg UInt8.toNat same
  rw [UInt32.toNat_toUInt8] at value
  simp only [Char.isDigit, Bool.and_eq_true, decide_eq_true_eq] at isDigit
  have lower : 48 ≤ digit.val.toNat := isDigit.1
  have upper : digit.val.toNat ≤ 57 := isDigit.2
  omega

theorem printed_length {letter : Letter} (matching : arg.Matches memory letter)
    : (letter.printed arg).length < 2147483648 := by
  cases letter with
  | d => exact (word_numeral_length (by decide) _).trans_lt (by decide)
  | u => exact (word_numeral_length (by decide) _).trans_lt (by decide)
  | x => exact (word_numeral_length (by decide) _).trans_lt (by decide)
  | s => exact (matching rfl).1
  | c => simp [Letter.printed]

/-- An empty text is that of a string. -/
theorem printed_empty {letter : Letter} (empty : letter.printed arg = [])
    : letter = .s ∧ arg.string = [] := by
  cases letter with
  | d => exact absurd empty (List.ne_nil_of_length_pos (numeral_length_pos _ _))
  | u => exact absurd empty (List.ne_nil_of_length_pos (numeral_length_pos _ _))
  | x => exact absurd empty (List.ne_nil_of_length_pos (numeral_length_pos _ _))
  | s => exact ⟨rfl, empty⟩
  | c => simp [Letter.printed] at empty

theorem mem_pad {sym c : UInt8} {right : Bool} {width : Nat} {text : List UInt8}
    (other : c ≠ sym)
    : c ∈ pad sym right width text ↔ c ∈ text := by
  cases right <;> simp [pad, other]

/-- The text is the right one except for a negative number. -/
theorem printed_eq {sym : UInt8} (other : chr '-' ≠ sym) {right : Bool} {width : Nat}
    {letter : Letter}
    : pad sym right width (letter.text arg) = pad sym right width (letter.printed arg)
      ↔ (letter = .d → 0 ≤ arg.word.toInt) := by
  cases letter with
  | d =>
      by_cases negative : arg.word.toInt < 0
      · have minus : chr '-' ∈ Letter.text .d arg := by
          rw [Letter.text, signedNumeral, if_pos negative]
          exact List.mem_cons_self
        refine iff_of_false ?_ (fun positive => absurd (positive rfl) (by omega))
        intro same
        rw [← mem_pad other, same, mem_pad other] at minus
        exact minus_numeral _ minus
      · have same : arg.word.toInt.natAbs = arg.word.toNat := by
          have := BitVec.toInt_eq_toNat_cond arg.word
          omega
        refine iff_of_true ?_ (fun _ => by omega)
        rw [Letter.text, signedNumeral, if_neg negative, same]
        rfl
  | u => simp [Letter.text, Letter.printed]
  | x => simp [Letter.text, Letter.printed]
  | s => simp [Letter.text, Letter.printed]
  | c => simp [Letter.text, Letter.printed]

theorem Spec.Plain.parts (plain : spec.Plain)
    : spec.fillChar = chr ' ' ∧ spec.right = false ∧ spec.digits = [] ∧ spec.width = 0 := by
  obtain ⟨⟨fill, right⟩, digits⟩ : (spec.fill = none ∧ spec.right = false) ∧ spec.digits = [] := by
    simpa [Spec.Plain, Spec.flags, and_assoc] using plain
  refine ⟨by rw [Spec.fillChar, fill]; rfl, right, digits, ?_⟩
  by_contra some
  rw [Spec.digits, if_neg some] at digits
  exact List.ne_nil_of_length_pos (numeral_length_pos _ _) digits

theorem Spec.fillChar_other (spec : Spec) : chr '-' ≠ spec.fillChar := by
  rw [Spec.fillChar]
  rcases spec.fill with _ | fill
  · decide
  · cases fill <;> decide

/-- The condition on a specification behind what the earlier ones have left. -/
def Spec.Fine (spec : Spec) (arg : Argument) (pending : Bool) : Prop :=
  spec.Honoured arg ∧ (pending = true → spec.Plain → spec.letter = .s → arg.string ≠ [])

/-- A plain specification may meet what an earlier one has left. -/
theorem put_plain (stale : Stale pending num) (plain : spec.Plain)
    (matching : arg.Matches memory spec.letter)
    : ((Item.conversion spec arg).expected = (spec.letter.put (chr ' ') false arg num).1
        ↔ spec.Fine arg pending)
      ∧ Stale (spec.leaves pending) (spec.letter.put (chr ' ') false arg num).2 := by
  obtain ⟨fill, right, digits, width⟩ := plain.parts
  have fine : spec.Fine arg pending ↔ (spec.letter = .d → 0 ≤ arg.word.toInt)
      ∧ (pending = true → spec.letter = .s → arg.string ≠ []) := by
    simp [Spec.Fine, Spec.Honoured, digits, width, plain]
  have text : pad (chr ' ') false 0 (spec.letter.text arg)
        = pad (chr ' ') false 0 (spec.letter.printed arg)
      ↔ (spec.letter = .d → 0 ≤ arg.word.toInt) := printed_eq (by decide)
  rw [fine, Item.expected, fill, right, width, ← text, Letter.put]
  have bare (text : List UInt8) : pad (chr ' ') false 0 text = text := by simp [pad]
  by_cases character : spec.letter = .c
  · rw [if_pos character, character]
    simp [bare, Letter.text, Letter.printed, Spec.leaves, character, plain, stale]
  · rw [if_neg character]
    rw [(putString_stale stale (printed_length matching)).1, Spec.leaves, if_neg character]
    refine ⟨?_, (putString_stale stale (printed_length matching)).2⟩
    simp only [bare]
    split
    · rename_i empty
      obtain ⟨pending, empty⟩ := empty
      obtain ⟨letter, string⟩ := printed_empty empty
      simp [pending, letter, string, Letter.text]
    · rename_i filled
      refine ⟨fun same => ⟨same, ?_⟩, fun fine => fine.1⟩
      intro pending letter empty
      refine filled ⟨pending, ?_⟩
      rw [letter]
      exact empty

/-- A specification with flags uses its own width, except for a character. -/
theorem put_flags (pending : Bool) (flags : ¬ spec.Plain) (nonzero : chr '0' ∉ spec.digits)
    (matching : arg.Matches memory spec.letter)
    : ((Item.conversion spec arg).expected
          = (spec.letter.put spec.fillChar spec.right arg (BitVec.ofNat 8 spec.width)).1
        ↔ spec.Fine arg pending)
      ∧ (spec.Fine arg pending → Stale (spec.leaves pending)
          (spec.letter.put spec.fillChar spec.right arg (BitVec.ofNat 8 spec.width)).2) := by
  have fine : spec.Fine arg pending
      ↔ (spec.letter = .c → spec.width ≤ 1) ∧ (spec.letter = .d → 0 ≤ arg.word.toInt) := by
    simp [Spec.Fine, Spec.Honoured, nonzero, flags]
  rw [fine, Item.expected, Letter.put]
  by_cases character : spec.letter = .c
  · rw [if_pos character]
    simp only [character, true_implies, reduceCtorEq, false_implies, and_true]
    refine ⟨⟨?_, ?_⟩, ?_⟩
    · intro same
      have length := congrArg List.length same
      simp only [pad, Letter.text, Letter.printed] at length
      split at length <;> simp at length <;> omega
    · intro small
      have none : spec.width - 1 = 0 := by omega
      simp [pad, Letter.text, Letter.printed, none]
    · intro small
      rw [Spec.leaves, if_pos character, if_neg flags, Stale]
      obtain zero | one : spec.width = 0 ∨ spec.width = 1 := by omega
      · simp [zero]
      · simp [one]
  · rw [if_neg character]
    rw [(putString_eq spec.small (printed_length matching)).1, printed_eq spec.fillChar_other,
      Spec.leaves, if_neg character]
    exact ⟨by simp [character], fun _ => (putString_eq spec.small (printed_length matching)).2⟩

/-- One character is not enough for a width of two digits. -/
theorem put_zero (pending : Bool) (zero : chr '0' ∈ spec.digits) (byte : UInt8)
    : (Item.conversion spec arg).expected ≠ [byte] ∧ ¬ spec.Fine arg pending := by
  refine ⟨?_, fun fine => fine.1.1 zero⟩
  obtain ⟨digits, same, small, -, split⟩ := spec.digits_eq
  rw [same, zero_digit small] at zero
  have wide := (split zero).1
  intro single
  have length := congrArg List.length single
  simp only [Item.expected, pad] at length
  split at length <;> simp at length <;> omega

end Texts

-----------------------------------------------------------------------------------------
-- Whole formats
-----------------------------------------------------------------------------------------

section Formats

variable {memory : CharMemory} {args : Nat → BitVec 32} {position : Position}
  {chunks : List (List UInt8)}

/-- What the call puts from a position on, a chunk for each round of the outer loop. -/
def Prints (memory : CharMemory) (args : Nat → BitVec 32) (position : Position)
    (chunks : List (List UInt8))
    : Prop :=
  ∃ enough, ∀ fuel, enough ≤ fuel → formatted memory args fuel position = some chunks

theorem prints_end (nul : memory position.format = 0)
    : Prints memory args position chunks ↔ chunks = [] := by
  have ends (fuel : Nat) : formatted memory args (fuel + 1) position = some [] := by
    rw [formatted, if_pos nul]
  constructor
  · rintro ⟨enough, prints⟩
    have printed := prints (enough + 1) (by omega)
    rw [ends] at printed
    exact (Option.some.inj printed).symm
  · rintro rfl
    refine ⟨1, fun fuel enough => ?_⟩
    obtain ⟨fuel, rfl⟩ : ∃ more, fuel = more + 1 := ⟨fuel - 1, by omega⟩
    exact ends fuel

/-- A round that ends puts its chunk in front of the rest. -/
theorem prints_round {position' : Position} {put e : List UInt8} (least : Nat)
    (round : ∀ fuel, least ≤ fuel → formatted memory args (fuel + 1) position
      = (formatted memory args fuel position').map (put :: ·))
    : Prints memory args position (e :: chunks)
      ↔ e = put ∧ Prints memory args position' chunks := by
  constructor
  · rintro ⟨enough, prints⟩
    have later (fuel : Nat) (more : enough + least ≤ fuel)
        : put = e ∧ formatted memory args fuel position' = some chunks := by
      have printed := prints (fuel + 1) (by omega)
      rw [round fuel (by omega), Option.map_eq_some_iff] at printed
      obtain ⟨rest, prints, same⟩ := printed
      injection same with put rest
      exact ⟨put, by rw [prints, rest]⟩
    exact ⟨(later _ le_rfl).1.symm, enough + least, fun fuel more => (later fuel more).2⟩
  · rintro ⟨rfl, enough, prints⟩
    refine ⟨enough + least + 1, fun fuel more => ?_⟩
    obtain ⟨fuel, rfl⟩ : ∃ rest, fuel = rest + 1 := ⟨fuel - 1, by omega⟩
    rw [round fuel (by omega), prints fuel (by omega)]
    rfl

/-- A character is put as it is. -/
theorem prints_char {e : List UInt8} (some : memory position.format ≠ 0)
    (ordinary : memory position.format ≠ chr '%')
    : Prints memory args position (e :: chunks)
      ↔ e = [memory position.format]
        ∧ Prints memory args { position with format := position.format + 1 } chunks := by
  refine prints_round 0 (fun fuel _ => ?_)
  rw [formatted, if_neg some, if_pos ordinary]

/-- A specification puts what its conversion gives. -/
theorem prints_conversion {address : BitVec 32} {index : Nat} {num : BitVec 8}
    {position' : Position} {put e : List UInt8} (percent : memory address = chr '%')
    (converts : Converts memory args address index num put position')
    : Prints memory args ⟨address, index, num⟩ (e :: chunks)
      ↔ e = put ∧ Prints memory args position' chunks := by
  obtain ⟨least, converts⟩ := converts
  refine prints_round least (fun fuel enough => ?_)
  have some : memory address ≠ 0 := by
    rw [percent]
    decide
  have first : (⟨memory (address + 1), address + 1 + 1⟩ : Reading) = readAt memory (address + 1) :=
    rfl
  rw [formatted]
  dsimp only
  rw [if_neg some, if_neg (not_not.mpr percent), first, converts fuel enough]
  rfl

/-- One specification: what is put is right exactly under its condition, and then the next item is
met as the condition for it assumes.
-/
theorem prints_spec {address : BitVec 32} {index : Nat} {num : BitVec 8} {pending : Bool}
    {spec : Spec} {arg : Argument} (chunks : List (List UInt8)) (stale : Stale pending num)
    (bytes : BytesAt memory address spec.bytes) (word : args index = arg.word)
    (matching : arg.Matches memory spec.letter)
    : ∃ num', (spec.Fine arg pending → Stale (spec.leaves pending) num')
      ∧ (Prints memory args ⟨address, index, num⟩
            ((Item.conversion spec arg).expected :: chunks)
          ↔ spec.Fine arg pending ∧ Prints memory args
            ⟨address + BitVec.ofNat 32 spec.bytes.length, index + 1, num'⟩ chunks) := by
  by_cases zero : chr '0' ∈ spec.digits
  · obtain ⟨position, converts⟩ : ∃ position,
        Converts memory args address index num [⟨arg.word.setWidth 8⟩] position :=
      converts_zero bytes zero word
    obtain ⟨other, notFine⟩ := put_zero pending zero ⟨arg.word.setWidth 8⟩
    refine ⟨num, fun fine => absurd fine notFine, ?_⟩
    rw [prints_conversion bytes.1 converts]
    exact iff_of_false (fun prints => other prints.1) (fun fine => notFine fine.1)
  · by_cases plain : spec.Plain
    · obtain ⟨right, after⟩ := put_plain stale plain matching
      refine ⟨_, fun _ => after, ?_⟩
      rw [prints_conversion bytes.1 (converts_plain bytes plain word matching), right]
    · obtain ⟨right, after⟩ := put_flags pending plain zero matching
      refine ⟨_, after, ?_⟩
      rw [prints_conversion bytes.1 (converts_flags bytes plain zero word matching), right]

/-- Every item is put as it should be exactly under the condition, by induction over the items. -/
theorem prints_iff {items : List Item} {address : BitVec 32} {index : Nat} {num : BitVec 8}
    {pending : Bool} (stale : Stale pending num)
    (bytes : BytesAt memory address (items.flatMap Item.bytes ++ [0]))
    (matching : ItemsMatch memory args index items)
    : Prints memory args ⟨address, index, num⟩ (items.map Item.expected)
      ↔ AllHonoured pending items := by
  induction items generalizing address index num pending with
  | nil =>
      rw [prints_end bytes.1]
      exact iff_of_true rfl trivial
  | cons item rest ih =>
      rw [List.flatMap_cons, List.append_assoc, bytesAt_append] at bytes
      obtain ⟨here, later⟩ := bytes
      cases item with
      | char c =>
          obtain ⟨some, ordinary, matching⟩ := matching
          have same : memory address = c := here.1
          rw [List.map_cons, prints_char (by rwa [same]) (by rwa [same]), AllHonoured]
          have put : (Item.char c).expected = [memory address] := by
            rw [same]
            rfl
          rw [← ih stale later matching]
          exact and_iff_right put
      | conversion spec arg =>
          obtain ⟨word, matches_, matching⟩ := matching
          obtain ⟨num', after, prints⟩ :=
            prints_spec (rest.map Item.expected) stale here word matches_
          rw [List.map_cons, prints, AllHonoured, Spec.Fine, and_assoc]
          refine and_congr_right (fun honoured => and_congr_right (fun pendingFine => ?_))
          exact ih (after ⟨honoured, pendingFine⟩) later matching

/-- Where the condition holds, the screen and the port get the expected text. -/
theorem printf_honoured {items : List Item} {format : BitVec 32}
    (bytes : BytesAt memory format (items.flatMap Item.bytes ++ [0]))
    (matching : ItemsMatch memory args 0 items) (honoured : AllHonoured false items)
    : ∃ enough, ∀ fuel, enough ≤ fuel →
        serialprintf fuel memory format args = some (items.flatMap Item.expected)
          ∧ ∀ screen, printf fuel memory format args screen
            = some ((items.flatMap Item.expected).foldl
              (fun screen c => screenPutChar c screen) screen) := by
  obtain ⟨enough, prints⟩ := (prints_iff stale_start bytes matching).mpr honoured
  refine ⟨enough, fun fuel more => ?_⟩
  have chunks : formattedAt fuel memory format args = some (items.map Item.expected) :=
    prints fuel more
  refine ⟨?_, fun screen => ?_⟩
  · rw [serialprintf, chunks, Option.map_some, List.flatMap_def]
  · rw [printf, chunks, Option.map_some, List.flatMap_def]

/-- What the call puts is right, item by item, exactly when no width holds a 0, no `%c` has a width
above 1, no `%d` is negative, and no width is left to a `%s` with an empty string.
-/
theorem formatted_items_iff {items : List Item} {format : BitVec 32}
    (bytes : BytesAt memory format (items.flatMap Item.bytes ++ [0]))
    (matching : ItemsMatch memory args 0 items)
    : (∃ enough, ∀ fuel, enough ≤ fuel →
        formattedAt fuel memory format args = some (items.map Item.expected))
      ↔ AllHonoured false items :=
  prints_iff stale_start bytes matching

/-- `"<%.-5d%c>"` with 42 and x. -/
def dottedItems : List Item :=
  [.char (chr '<'), .conversion ⟨some .dot, true, 5, .d, by decide⟩ ⟨42, []⟩,
    .conversion ⟨none, false, 0, .c, by decide⟩ ⟨120, []⟩, .char (chr '>')]

theorem formatted_items_iff_dotted
    : (∃ enough, ∀ fuel, enough ≤ fuel →
        formattedAt fuel (stringMemory ['<', '%', '.', '-', '5', 'd', '%', 'c', '>']) 0
          (fun index => if index = 0 then 42 else 120)
          = some (dottedItems.map Item.expected))
      ∧ dottedItems.flatMap Item.expected
        = ['<', '4', '2', '.', '.', '.', 'x', '>'].map chr := by
  refine ⟨(formatted_items_iff (by decide) ?_).mpr (by decide), by decide⟩
  simp [dottedItems, ItemsMatch, Argument.Matches]
  decide

/-- `"%10d"` with 5: the parser stops at the 0 and puts the byte 5, then the d. -/
theorem formatted_width_ten
    : ∃ items, BytesAt (stringMemory ['%', '1', '0', 'd']) 0 (items.flatMap Item.bytes ++ [0])
      ∧ ItemsMatch (stringMemory ['%', '1', '0', 'd']) (fun _ => 5) 0 items
      ∧ items.flatMap Item.expected
        = [' ', ' ', ' ', ' ', ' ', ' ', ' ', ' ', ' ', '5'].map chr
      ∧ serialprintf 40 (stringMemory ['%', '1', '0', 'd']) 0 (fun _ => 5) = some [5, chr 'd']
      ∧ ¬ ∃ enough, ∀ fuel, enough ≤ fuel →
        formattedAt fuel (stringMemory ['%', '1', '0', 'd']) 0 (fun _ => 5)
          = some (items.map Item.expected) := by
  have matching : ItemsMatch (stringMemory ['%', '1', '0', 'd']) (fun _ => 5) 0
      [.conversion ⟨none, false, 10, .d, by decide⟩ ⟨5, []⟩] := by
    simp [ItemsMatch, Argument.Matches]
  refine ⟨[.conversion ⟨none, false, 10, .d, by decide⟩ ⟨5, []⟩], by decide, matching, by decide,
    by decide, ?_⟩
  have fails : Prints (stringMemory ['%', '1', '0', 'd']) (fun _ => 5) ⟨0, 0, 0⟩ _
      ↔ AllHonoured false _ := prints_iff stale_start (by decide) matching
  exact mt fails.mp (by decide)

end Formats

end DeadKernel
