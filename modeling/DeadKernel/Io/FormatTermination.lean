import DeadKernel.Io.FormattedText
import DeadKernel.Shared.Tokens

/-! When `printf` comes to an end. The parser goes back to its switch as long as the percent sign
stands in front of the character it has read, which is forever when that character is neither a
letter nor a flag; and behind flags it takes the NUL for a letter.
-/

namespace DeadKernel

-----------------------------------------------------------------------------------------
-- The reads of the format
-----------------------------------------------------------------------------------------

/-- A reading, and the addresses of the format that the specification has read. -/
structure Traced where
  reading : Reading
  reads : List (BitVec 32)

def Traced.next (memory : CharMemory) (traced : Traced) : Traced :=
  ⟨traced.reading.next memory, traced.reading.format :: traced.reads⟩

def Traced.skip (memory : CharMemory) (flag : Prop) [Decidable flag] (traced : Traced) : Traced :=
  if flag then traced.next memory else traced

/-- `*(format - 2)`. -/
def Traced.lookBack (traced : Traced) : Traced :=
  { traced with reads := (traced.reading.format - 2) :: traced.reads }

/-- `readWidth` with its reads. -/
def readWidthTraced (memory : CharMemory) : Nat → BitVec 8 → Traced → Option (BitVec 8 × Traced)
  | 0, _, _ => none
  | fuel + 1, num, traced =>
      let c := traced.reading.c
      if chr '1' ≤ c ∧ c ≤ chr '9' then
        readWidthTraced memory fuel (num * 10 + (c - chr '0').toBitVec) (traced.next memory)
      else some (num, traced)

/-- `convert` with its reads. -/
def convertTraced (memory : CharMemory) (args : Nat → BitVec 32)
    : Nat → UInt8 → Bool → Nat → BitVec 8 → Traced
      → Option (List UInt8 × Position × List (BitVec 32))
  | 0, _, _, _, _, _ => none
  | fuel + 1, sym, padRight, arg, num, traced =>
      let c := traced.reading.c
      let format := traced.reading.format
      if c = chr 'd' ∨ c = chr 'u' ∨ c = chr 'x' then do
        let text ← itoa fuel (if c = chr 'x' then 16 else 10) (args arg)
        let put := putString sym padRight text num
        some (put.1, ⟨format, arg + 1, put.2⟩, traced.reads)
      else if c = chr 's' then do
        let p := args arg
        let text ← if p = 0 then some nullText else stringFrom memory fuel p
        let put := putString sym padRight text num
        some (put.1, ⟨format, arg + 1, put.2⟩, traced.reads)
      else if c = chr 'c' then
        some ([⟨(args arg).setWidth 8⟩], ⟨format, arg + 1, num⟩, traced.reads)
      else if memory (format - 2) = chr '%' then do
        let filled := c = chr '0' ∨ c = chr ' ' ∨ c = chr '.'
        let sym := if filled then c else sym
        let traced := traced.lookBack.skip memory filled
        let right := traced.reading.c = chr '-'
        let padRight := if right then true else padRight
        let traced := traced.skip memory right
        let (num, traced) ← readWidthTraced memory fuel 0 traced
        convertTraced memory args fuel sym padRight arg num traced
      else
        some ([⟨(args arg).setWidth 8⟩], ⟨format, arg + 1, num⟩, traced.lookBack.reads)

/-- `formatted` with its reads. -/
def formattedTraced (memory : CharMemory) (args : Nat → BitVec 32)
    : Nat → Position → Option (List (List UInt8) × List (BitVec 32))
  | 0, _ => none
  | fuel + 1, position =>
      let c := memory position.format
      let format := position.format + 1
      if c = 0 then some ([], [position.format])
      else if c ≠ chr '%' then
        (formattedTraced memory args fuel { position with format }).map
          (fun run => ([c] :: run.1, position.format :: run.2))
      else do
        let traced : Traced := ⟨⟨memory format, format + 1⟩, [format]⟩
        let (put, next, reads) ← convertTraced memory args fuel (chr ' ') false position.arg
          position.num traced
        (formattedTraced memory args fuel next).map
          (fun run => (put :: run.1, position.format :: reads ++ run.2))

section Erasure

variable (memory : CharMemory) (args : Nat → BitVec 32)

theorem skip_reading (flag : Prop) [Decidable flag] (traced : Traced)
    : (traced.skip memory flag).reading
      = if flag then traced.reading.next memory else traced.reading :=
  apply_ite Traced.reading flag _ _

theorem readWidthTraced_erased (fuel : Nat) (num : BitVec 8) (traced : Traced)
    : (readWidthTraced memory fuel num traced).map (fun read => (read.1, read.2.reading))
      = readWidth memory fuel num traced.reading := by
  induction fuel generalizing num traced with
  | zero => rfl
  | succ fuel ih =>
      rw [readWidthTraced, readWidth]
      split
      · exact ih _ _
      · rfl

theorem convertTraced_erased (fuel : Nat) (sym : UInt8) (padRight : Bool) (arg : Nat)
    (num : BitVec 8) (traced : Traced)
    : (convertTraced memory args fuel sym padRight arg num traced).map
        (fun result => (result.1, result.2.1))
      = convert memory args fuel sym padRight arg num traced.reading := by
  induction fuel generalizing sym padRight num traced with
  | zero => rfl
  | succ fuel ih =>
      rw [convertTraced, convert]
      dsimp only
      split
      · cases itoa fuel (if traced.reading.c = chr 'x' then 16 else 10) (args arg) <;> rfl
      · split
        · split
          · rfl
          · cases stringFrom memory fuel (args arg) <;> rfl
        · split
          · rfl
          · split
            · have erased (traced' : Traced) (sym : UInt8) (padRight : Bool)
                  : ((readWidthTraced memory fuel 0 traced').bind (fun read =>
                      convertTraced memory args fuel sym padRight arg read.1 read.2)).map
                      (fun result => (result.1, result.2.1))
                    = (readWidth memory fuel 0 traced'.reading).bind (fun read =>
                      convert memory args fuel sym padRight arg read.1 read.2) := by
                rw [← readWidthTraced_erased memory fuel 0 traced']
                cases readWidthTraced memory fuel 0 traced' with
                | none => rfl
                | some read => exact ih sym padRight read.1 read.2
              refine (erased _ _ _).trans ?_
              simp only [skip_reading, Traced.lookBack]
              rfl
            · rfl

theorem formattedTraced_erased (fuel : Nat) (position : Position)
    : (formattedTraced memory args fuel position).map Prod.fst
      = formatted memory args fuel position := by
  induction fuel generalizing position with
  | zero => rfl
  | succ fuel ih =>
      rw [formattedTraced, formatted]
      dsimp only
      split
      · rfl
      · split
        · rw [← ih, Option.map_map, Option.map_map]
          rfl
        · rw [← convertTraced_erased memory args fuel (chr ' ') false position.arg position.num
            ⟨⟨memory (position.format + 1), position.format + 1 + 1⟩, [position.format + 1]⟩]
          cases convertTraced memory args fuel (chr ' ') false position.arg position.num
            ⟨⟨memory (position.format + 1), position.format + 1 + 1⟩, [position.format + 1]⟩ with
          | none => rfl
          | some result =>
              change ((formattedTraced memory args fuel result.2.1).map _).map _
                = (formatted memory args fuel result.2.1).map _
              rw [← ih, Option.map_map, Option.map_map]
              rfl

end Erasure

-----------------------------------------------------------------------------------------
-- Formats that end
-----------------------------------------------------------------------------------------

def isConversion (c : UInt8) : Bool :=
  c = chr 'd' ∨ c = chr 'u' ∨ c = chr 'x' ∨ c = chr 's' ∨ c = chr 'c'

def isFill (c : UInt8) : Bool := c = chr '0' ∨ c = chr ' ' ∨ c = chr '.'

def isWidth (c : UInt8) : Bool := chr '1' ≤ c ∧ c ≤ chr '9'

/-- Where a character of a format stands. -/
inductive Stage where
  | outside
  | percent
  | filled
  | width
deriving DecidableEq

/-- Behind the percent sign stands a letter, or at least one flag; behind the flags any character
ends the specification.
-/
def Stage.next : Stage → UInt8 → Option Stage
  | .outside, c => some (if c = chr '%' then .percent else .outside)
  | .percent, c =>
      if isConversion c then some .outside
      else if isFill c then some .filled
      else if c = chr '-' ∨ isWidth c then some .width
      else none
  | .filled, c => some (if c = chr '-' ∨ isWidth c then .width else .outside)
  | .width, c => some (if isWidth c then .width else .outside)

/-- Every specification ends before the string does. -/
def Stage.closes (stage : Stage) : List UInt8 → Bool
  | [] => stage = .outside
  | c :: rest =>
      match stage.next c with
      | some stage => stage.closes rest
      | none => false

/-- The first and the last address of the format. -/
structure Extent where
  first : Nat
  last : Nat

def Extent.Holds (extent : Extent) (address : BitVec 32) : Prop :=
  extent.first ≤ address.toNat ∧ address.toNat ≤ extent.last

/-- The call returns, and it reads no character that is not in the format or its NUL. -/
def FormatEnds (memory : CharMemory) (format : BitVec 32) (text : List UInt8)
    (args : Nat → BitVec 32)
    : Prop :=
  ∃ enough, ∀ fuel, enough ≤ fuel →
    (∀ screen, (printf fuel memory format args screen).isSome)
    ∧ (serialprintf fuel memory format args).isSome
    ∧ ∃ run, formattedTraced memory args fuel ⟨format, 0, 0⟩ = some run
      ∧ ∀ read ∈ run.2, Extent.Holds ⟨format.toNat, format.toNat + text.length⟩ read

-----------------------------------------------------------------------------------------
-- Flags
-----------------------------------------------------------------------------------------

/-- What the character behind the flags leaves. -/
def closesBehind : List UInt8 → Bool
  | [] => false
  | _ :: rest => Stage.outside.closes rest

def dropOne (p : UInt8 → Bool) : List UInt8 → List UInt8
  | [] => []
  | c :: rest => if p c then rest else c :: rest

def isDash (c : UInt8) : Bool := c = chr '-'

def behindFlags (text : List UInt8) : List UInt8 :=
  (dropOne isDash (dropOne isFill text)).dropWhile isWidth

theorem dropOne_length_le (p : UInt8 → Bool) (text : List UInt8)
    : (dropOne p text).length ≤ text.length := by
  cases text with
  | nil => exact le_rfl
  | cons c rest =>
      rw [dropOne, List.length_cons]
      split
      · exact Nat.le_succ _
      · exact le_rfl

theorem closes_width (text : List UInt8)
    : Stage.width.closes text = closesBehind (text.dropWhile isWidth) := by
  induction text with
  | nil => rfl
  | cons c rest ih =>
      rw [Stage.closes, Stage.next, List.dropWhile_cons]
      cases isWidth c with
      | true => exact ih
      | false => rfl

theorem closes_filled (text : List UInt8)
    : Stage.filled.closes text = closesBehind ((dropOne isDash text).dropWhile isWidth) := by
  cases text with
  | nil => rfl
  | cons c rest =>
      rw [Stage.closes, Stage.next, dropOne]
      by_cases dash : c = chr '-'
      · rw [isDash, decide_eq_true dash, if_pos (.inl dash), if_pos rfl]
        exact closes_width rest
      · rw [isDash, decide_eq_false dash, if_neg Bool.false_ne_true, List.dropWhile_cons]
        cases width : isWidth c with
        | true =>
            rw [if_pos (.inr rfl)]
            exact closes_width rest
        | false =>
            rw [if_neg (fun flag => flag.elim dash Bool.false_ne_true)]
            rfl

def isFlag (c : UInt8) : Bool := isFill c || isDash c || isWidth c

theorem behindFlags_shorter {c : UInt8} (flag : isFlag c = true) (rest : List UInt8)
    : (behindFlags (c :: rest)).length < (c :: rest).length := by
  have behind (text : List UInt8) : (text.dropWhile isWidth).length ≤ text.length :=
    (List.dropWhile_suffix isWidth).length_le
  rw [List.length_cons, Nat.lt_succ_iff, behindFlags, dropOne]
  cases fill : isFill c with
  | true => exact (behind _).trans (dropOne_length_le isDash rest)
  | false =>
      rw [if_neg Bool.false_ne_true, dropOne]
      cases dash : isDash c with
      | true => exact behind rest
      | false =>
          rw [isFlag, fill, dash] at flag
          change isWidth c = true at flag
          rw [if_neg Bool.false_ne_true, List.dropWhile_cons, if_pos flag]
          exact behind rest

/-- Without a letter behind the percent sign the format ends if there are flags, and a character
behind them.
-/
theorem closes_percent {c : UInt8} (other : isConversion c = false) (rest : List UInt8)
    : Stage.percent.closes (c :: rest) = (isFlag c && closesBehind (behindFlags (c :: rest))) := by
  rw [Stage.closes, Stage.next, if_neg (other ▸ Bool.false_ne_true), behindFlags, dropOne, isFlag]
  cases fill : isFill c with
  | true =>
      rw [if_pos rfl, if_pos rfl]
      exact closes_filled rest
  | false =>
      rw [if_neg Bool.false_ne_true, if_neg Bool.false_ne_true, dropOne]
      by_cases dash : c = chr '-'
      · rw [isDash, decide_eq_true dash, if_pos (.inl dash), if_pos rfl]
        exact closes_width rest
      · rw [isDash, decide_eq_false dash, if_neg Bool.false_ne_true, List.dropWhile_cons]
        cases width : isWidth c with
        | true =>
            rw [if_pos (.inr rfl)]
            exact closes_width rest
        | false =>
            rw [if_neg (fun flag => flag.elim dash Bool.false_ne_true)]
            rfl

section Flags

variable {memory : CharMemory} {extent : Extent} {text : List UInt8} {traced : Traced}

/-- A character that has been read with what stands behind it up to the NUL. -/
structure ReadsAt (memory : CharMemory) (extent : Extent) (traced : Traced) (text : List UInt8)
    : Prop where
  string : ∃ address, traced.reading = readAt memory address ∧ StringAt memory address text
    ∧ address.toNat + text.length = extent.last ∧ extent.first ≤ address.toNat
  fits : extent.last < 2 ^ 32
  reads : ∀ read ∈ traced.reads, extent.Holds read

theorem ReadsAt.read {c : UInt8} {rest : List UInt8}
    (at_ : ReadsAt memory extent traced (c :: rest))
    : traced.reading.c = c ∧ c ≠ 0 ∧ memory (traced.reading.format - 1) = c
      ∧ ReadsAt memory extent (traced.next memory) rest := by
  obtain ⟨⟨address, reading, string, last, first⟩, fits, reads⟩ := at_
  obtain ⟨here, some_, later⟩ := string.cons
  rw [List.length_cons] at last
  have number : (address + 1).toNat = address.toNat + 1 := toNat_next (by omega)
  have format : traced.reading.format = address + 1 := congrArg Reading.format reading
  refine ⟨(congrArg Reading.c reading).trans here, some_, ?_,
    ⟨address + 1, ?_, later, by omega, by omega⟩, fits, ?_⟩
  · rw [format, BitVec.add_sub_cancel, here]
  · change Reading.next memory traced.reading = _
    rw [reading]
    rfl
  · intro read mem
    rcases List.mem_cons.mp mem with rfl | mem
    · rw [Extent.Holds, format]
      omega
    · exact reads read mem

theorem ReadsAt.nul (at_ : ReadsAt memory extent traced [])
    : traced.reading.c = 0 := by
  obtain ⟨⟨address, reading, string, -, -⟩, -, -⟩ := at_
  exact (congrArg Reading.c reading).trans string.nul

/-- Behind the NUL there is nothing of the format. -/
theorem ReadsAt.beyond (at_ : ReadsAt memory extent traced []) (notNull : extent.first ≠ 0)
    : ¬ extent.Holds traced.reading.format := by
  obtain ⟨⟨address, reading, -, last, -⟩, -, -⟩ := at_
  have format : traced.reading.format = address + 1 := congrArg Reading.format reading
  have bound := address.isLt
  rw [List.length_nil] at last
  rw [Extent.Holds, format, BitVec.toNat_add]
  change ¬ (extent.first ≤ (address.toNat + 1) % 2 ^ 32 ∧ (address.toNat + 1) % 2 ^ 32 ≤ _)
  omega

/-- What the flags have done: nothing, or the character in front is a flag. -/
structure Skipped (memory : CharMemory) (extent : Extent) (traced : Traced) (text : List UInt8)
    (traced' : Traced) (text' : List UInt8)
    : Prop where
  at_ : ReadsAt memory extent traced' text'
  flags : traced' = traced ∧ text' = text
    ∨ memory (traced'.reading.format - 2) ≠ chr '%' ∧ extent.Holds (traced'.reading.format - 2)
      ∧ text'.length < text.length

theorem Skipped.trans {traced' traced'' : Traced} {text' text'' : List UInt8}
    (first : Skipped memory extent traced text traced' text')
    (second : Skipped memory extent traced' text' traced'' text'')
    : Skipped memory extent traced text traced'' text'' := by
  refine ⟨second.at_, ?_⟩
  rcases second.flags with ⟨rfl, rfl⟩ | ⟨flag, holds, shorter⟩
  · exact first.flags
  · refine .inr ⟨flag, holds, ?_⟩
    rcases first.flags with ⟨-, rfl⟩ | ⟨-, -, shorter'⟩
    · exact shorter
    · exact shorter.trans shorter'

theorem Skipped.one {c : UInt8} {rest : List UInt8}
    (at_ : ReadsAt memory extent traced (c :: rest)) (other : c ≠ chr '%')
    : Skipped memory extent traced (c :: rest) (traced.next memory) rest := by
  obtain ⟨-, -, here, later⟩ := at_.read
  obtain ⟨⟨address, reading, -, last, first⟩, fits, -⟩ := at_
  have format : traced.reading.format = address + 1 := congrArg Reading.format reading
  have back : (traced.next memory).reading.format - 2 = traced.reading.format - 1 := by
    change traced.reading.format + 1 - 2 = _
    bv_omega
  rw [List.length_cons] at last
  refine ⟨later, .inr ⟨?_, ?_, by simp⟩⟩
  · rw [back, here]
    exact other
  · rw [back, format, BitVec.add_sub_cancel, Extent.Holds]
    omega

theorem Skipped.skip (at_ : ReadsAt memory extent traced text) {p : UInt8 → Bool}
    (nul : p 0 = false) (percent : p (chr '%') = false) {flag : Prop} [Decidable flag]
    (same : flag ↔ p traced.reading.c = true)
    : Skipped memory extent traced text (traced.skip memory flag) (dropOne p text) := by
  cases text with
  | nil =>
      have stays : ¬ flag := by rw [same, at_.nul, nul]; exact Bool.false_ne_true
      rw [Traced.skip, if_neg stays]
      exact ⟨at_, .inl ⟨rfl, rfl⟩⟩
  | cons c rest =>
      rw [at_.read.1] at same
      rw [Traced.skip, dropOne]
      by_cases skips : flag
      · rw [if_pos skips, if_pos (same.mp skips)]
        refine .one at_ ?_
        rintro rfl
        exact absurd (same.mp skips) (by rw [percent]; exact Bool.false_ne_true)
      · rw [if_neg skips, if_neg (mt same.mpr skips)]
        exact ⟨at_, .inl ⟨rfl, rfl⟩⟩

/-- The digits of the width, by induction over what is left. -/
theorem readWidth_skips (at_ : ReadsAt memory extent traced text) (num : BitVec 8)
    : ∃ num' traced', Skipped memory extent traced text traced' (text.dropWhile isWidth)
      ∧ ∀ fuel, text.length < fuel →
        readWidthTraced memory fuel num traced = some (num', traced') := by
  induction text generalizing traced num with
  | nil =>
      refine ⟨num, traced, ⟨at_, .inl ⟨rfl, rfl⟩⟩, fun fuel enough => ?_⟩
      obtain ⟨fuel, rfl⟩ : ∃ more, fuel = more + 1 := ⟨fuel - 1, by simp at enough; omega⟩
      rw [readWidthTraced, at_.nul, if_neg (by decide)]
  | cons c rest ih =>
      obtain ⟨here, -, -, later⟩ := at_.read
      rw [List.dropWhile_cons]
      by_cases digit : chr '1' ≤ c ∧ c ≤ chr '9'
      · obtain ⟨num', traced', skipped, runs⟩ :=
          ih later (num * 10 + (traced.reading.c - chr '0').toBitVec)
        have other : c ≠ chr '%' := by
          rintro rfl
          exact absurd digit (by decide)
        rw [isWidth, decide_eq_true digit, if_pos rfl]
        refine ⟨num', traced', (Skipped.one at_ other).trans skipped, fun fuel enough => ?_⟩
        rw [List.length_cons] at enough
        obtain ⟨fuel, rfl⟩ : ∃ more, fuel = more + 1 := ⟨fuel - 1, by omega⟩
        rw [readWidthTraced, if_pos (here ▸ digit)]
        exact runs fuel (by omega)
      · rw [isWidth, decide_eq_false digit, if_neg Bool.false_ne_true]
        refine ⟨num, traced, ⟨at_, .inl ⟨rfl, rfl⟩⟩, fun fuel enough => ?_⟩
        obtain ⟨fuel, rfl⟩ : ∃ more, fuel = more + 1 := ⟨fuel - 1, by omega⟩
        rw [readWidthTraced, if_neg (here ▸ digit)]

end Flags

-----------------------------------------------------------------------------------------
-- One specification
-----------------------------------------------------------------------------------------

section Conversion

variable {memory : CharMemory} {extent : Extent} {text : List UInt8} {traced : Traced}

/-- From any address on a string begins, when there is a NUL in memory, by induction over the
distance to it.
-/
theorem string_anywhere {nul : BitVec 32} (here : memory nul = 0) (address : BitVec 32)
    : ∃ text, StringAt memory address text := by
  obtain ⟨distance, eq⟩ : ∃ distance, (nul - address).toNat = distance := ⟨_, rfl⟩
  induction distance generalizing address with
  | zero =>
      have same : address = nul := by bv_omega
      exact ⟨[], ⟨by rw [same, here], trivial⟩, List.not_mem_nil⟩
  | succ distance ih =>
      obtain ⟨text, later, noNul⟩ := ih (address + 1) (by bv_omega)
      by_cases ends : memory address = 0
      · exact ⟨[], ⟨ends, trivial⟩, List.not_mem_nil⟩
      · refine ⟨memory address :: text, ⟨rfl, later⟩, ?_⟩
        rw [List.mem_cons, not_or]
        exact ⟨Ne.symm ends, noNul⟩

/-- A number is put out with its digits. -/
theorem convert_number (number : traced.reading.c = chr 'd' ∨ traced.reading.c = chr 'u'
      ∨ traced.reading.c = chr 'x')
    (args : Nat → BitVec 32) (sym : UInt8) (padRight : Bool) (arg : Nat) (num : BitVec 8)
    : ∃ least put position,
      (∀ fuel, least ≤ fuel → convertTraced memory args fuel sym padRight arg num traced
        = some (put, position, traced.reads))
      ∧ position.format = traced.reading.format := by
  have base : ∃ base : BitVec 32, (if traced.reading.c = chr 'x' then 16 else 10) = base
      ∧ 1 < base.toNat ∧ base.toNat ≤ 16 := by
    refine ⟨_, rfl, ?_⟩
    split <;> decide
  obtain ⟨base, same, valid, hex⟩ := base
  let put := putString sym padRight (numeral base.toNat (args arg).toNat) num
  refine ⟨34, put.1, ⟨traced.reading.format, arg + 1, put.2⟩, fun fuel enough => ?_, rfl⟩
  obtain ⟨fuel, rfl⟩ : ∃ more, fuel = more + 1 := ⟨fuel - 1, by omega⟩
  rw [convertTraced]
  dsimp only
  rw [if_pos number, same, itoa_eq valid hex (by omega)]
  rfl

/-- A string is put out up to its NUL. -/
theorem convert_string (strings : ∀ p, ∃ text, StringAt memory p text)
    (number : ¬ (traced.reading.c = chr 'd' ∨ traced.reading.c = chr 'u'
      ∨ traced.reading.c = chr 'x'))
    (string : traced.reading.c = chr 's')
    (args : Nat → BitVec 32) (sym : UInt8) (padRight : Bool) (arg : Nat) (num : BitVec 8)
    : ∃ least put position,
      (∀ fuel, least ≤ fuel → convertTraced memory args fuel sym padRight arg num traced
        = some (put, position, traced.reads))
      ∧ position.format = traced.reading.format := by
  obtain ⟨text, at_⟩ := strings (args arg)
  obtain ⟨shown, takes⟩ : ∃ shown, ∀ fuel, text.length < fuel →
      (if args arg = 0 then some nullText else stringFrom memory fuel (args arg))
        = some shown := by
    by_cases null : args arg = 0
    · exact ⟨nullText, fun _ _ => if_pos null⟩
    · exact ⟨text, fun fuel enough =>
        (if_neg null).trans (stringFrom_eq at_.bytes at_.noNul enough)⟩
  let put := putString sym padRight shown num
  refine ⟨text.length + 2, put.1, ⟨traced.reading.format, arg + 1, put.2⟩,
    fun fuel enough => ?_, rfl⟩
  obtain ⟨fuel, rfl⟩ : ∃ more, fuel = more + 1 := ⟨fuel - 1, by omega⟩
  rw [convertTraced]
  dsimp only
  rw [if_neg number, if_pos string]
  have taken := takes fuel (by omega)
  split at taken
  · rename_i null
    cases taken
    rw [if_pos null]
    rfl
  · rename_i notNull
    rw [if_neg notNull, taken]
    rfl

/-- A letter, or any character behind a flag, ends the conversion where the format stands. -/
theorem convert_ends (strings : ∀ p, ∃ text, StringAt memory p text) (args : Nat → BitVec 32)
    (sym : UInt8) (padRight : Bool) (arg : Nat) (num : BitVec 8)
    (ends : isConversion traced.reading.c = true ∨ memory (traced.reading.format - 2) ≠ chr '%')
    : ∃ least put position reads,
      (∀ fuel, least ≤ fuel → convertTraced memory args fuel sym padRight arg num traced
        = some (put, position, reads))
      ∧ position.format = traced.reading.format
      ∧ (reads = traced.reads
        ∨ reads = traced.lookBack.reads
          ∧ memory (traced.reading.format - 2) ≠ chr '%') := by
  by_cases number : traced.reading.c = chr 'd' ∨ traced.reading.c = chr 'u'
      ∨ traced.reading.c = chr 'x'
  · obtain ⟨least, put, position, converts, format⟩ :=
      convert_number number args sym padRight arg num
    exact ⟨least, put, position, _, converts, format, .inl rfl⟩
  by_cases string : traced.reading.c = chr 's'
  · obtain ⟨least, put, position, converts, format⟩ :=
      convert_string strings number string args sym padRight arg num
    exact ⟨least, put, position, _, converts, format, .inl rfl⟩
  by_cases char : traced.reading.c = chr 'c'
  · refine ⟨1, [⟨(args arg).setWidth 8⟩], ⟨traced.reading.format, arg + 1, num⟩, traced.reads,
      fun fuel enough => ?_, rfl, .inl rfl⟩
    obtain ⟨fuel, rfl⟩ : ∃ more, fuel = more + 1 := ⟨fuel - 1, by omega⟩
    rw [convertTraced]
    dsimp only
    rw [if_neg number, if_neg string, if_pos char]
  · have flag : memory (traced.reading.format - 2) ≠ chr '%' := by
      refine ends.resolve_left ?_
      rw [isConversion, decide_eq_true_eq]
      rintro (d | u | x | s | c)
      · exact number (.inl d)
      · exact number (.inr (.inl u))
      · exact number (.inr (.inr x))
      · exact string s
      · exact char c
    refine ⟨1, [⟨(args arg).setWidth 8⟩], ⟨traced.reading.format, arg + 1, num⟩,
      traced.lookBack.reads, fun fuel enough => ?_, rfl, .inr ⟨rfl, flag⟩⟩
    obtain ⟨fuel, rfl⟩ : ∃ more, fuel = more + 1 := ⟨fuel - 1, by omega⟩
    rw [convertTraced]
    dsimp only
    rw [if_neg number, if_neg string, if_neg char, if_neg flag]

def Traced.behindFill (memory : CharMemory) (traced : Traced) : Traced :=
  traced.lookBack.skip memory (traced.reading.c = chr '0' ∨ traced.reading.c = chr ' '
    ∨ traced.reading.c = chr '.')

def Traced.behindDash (memory : CharMemory) (traced : Traced) : Traced :=
  (traced.behindFill memory).skip memory ((traced.behindFill memory).reading.c = chr '-')

/-- The flags are read, and the switch is entered again. -/
theorem convert_again (other : isConversion traced.reading.c = false)
    (percent : memory (traced.reading.format - 2) = chr '%') (args : Nat → BitVec 32)
    (sym : UInt8) (padRight : Bool) (arg : Nat) (num : BitVec 8)
    : ∃ sym' padRight', ∀ fuel, convertTraced memory args (fuel + 1) sym padRight arg num traced
      = (readWidthTraced memory fuel 0 (traced.behindDash memory)).bind
        (fun read => convertTraced memory args fuel sym' padRight' arg read.1 read.2) := by
  simp only [isConversion, decide_eq_false_iff_not, not_or] at other
  obtain ⟨d, u, x, s, c⟩ := other
  refine ⟨if traced.reading.c = chr '0' ∨ traced.reading.c = chr ' ' ∨ traced.reading.c = chr '.'
      then traced.reading.c else sym,
    if (traced.behindFill memory).reading.c = chr '-' then true else padRight, fun fuel => ?_⟩
  rw [convertTraced]
  dsimp only
  rw [if_neg (by rintro (e | e | e); exacts [d e, u e, x e]), if_neg s, if_neg c, if_pos percent]
  rfl

/-- A character that is neither a letter nor a flag is looked at forever. -/
theorem convert_stuck (other : isConversion traced.reading.c = false)
    (percent : memory (traced.reading.format - 2) = chr '%')
    (flag : isFlag traced.reading.c = false) (args : Nat → BitVec 32) (sym : UInt8)
    (padRight : Bool) (arg : Nat) (num : BitVec 8) (fuel : Nat)
    : convertTraced memory args fuel sym padRight arg num traced = none := by
  simp only [isFlag, Bool.or_eq_false_iff] at flag
  obtain ⟨⟨fill, dash⟩, width⟩ := flag
  have stays {traced' : Traced} (same : traced'.reading = traced.reading)
      : traced'.behindDash memory = traced'.lookBack := by
    have behind : traced'.behindFill memory = traced'.lookBack := by
      refine if_neg ?_
      rw [same]
      exact of_decide_eq_false fill
    rw [Traced.behindDash, behind]
    refine if_neg ?_
    change traced'.reading.c ≠ _
    rw [same]
    exact of_decide_eq_false dash
  obtain ⟨traced', eq, same⟩ : ∃ traced' : Traced, traced' = traced
      ∧ traced'.reading = traced.reading := ⟨traced, rfl, rfl⟩
  rw [← eq]
  clear eq
  induction fuel generalizing sym padRight num traced' with
  | zero => rfl
  | succ fuel ih =>
      obtain ⟨sym', padRight', again⟩ := convert_again (by rw [same]; exact other)
        (by rw [same]; exact percent) args sym padRight arg num
      rw [again fuel, stays same]
      cases fuel with
      | zero => rfl
      | succ fuel =>
          rw [readWidthTraced, if_neg]
          · exact ih _ _ _ _ same
          · change ¬ (chr '1' ≤ traced'.reading.c ∧ traced'.reading.c ≤ chr '9')
            rw [same]
            exact of_decide_eq_false width

/-- The address of what stands behind a character. -/
def Behind (memory : CharMemory) (extent : Extent) (position : Position) (text : List UInt8)
    : Prop :=
  ∃ traced, ReadsAt memory extent traced text ∧ position.format = traced.reading.format

theorem ReadsAt.lookBack (at_ : ReadsAt memory extent traced text)
    (holds : extent.Holds (traced.reading.format - 2))
    : ReadsAt memory extent traced.lookBack text := by
  refine ⟨at_.string, at_.fits, fun read mem => ?_⟩
  rcases List.mem_cons.mp mem with rfl | mem
  · exact holds
  · exact at_.reads read mem

/-- One specification: its conversion never ends, or it ends behind the first character that is no
flag.
-/
theorem percent_cases (strings : ∀ p, ∃ text, StringAt memory p text)
    (at_ : ReadsAt memory extent traced text)
    (percent : memory (traced.reading.format - 2) = chr '%')
    (holds : extent.Holds (traced.reading.format - 2)) (args : Nat → BitVec 32) (sym : UInt8)
    (padRight : Bool) (arg : Nat) (num : BitVec 8)
    : (Stage.percent.closes text = false
        ∧ ∀ fuel, convertTraced memory args fuel sym padRight arg num traced = none)
      ∨ ∃ least put position reads text',
        (∀ fuel, least ≤ fuel → convertTraced memory args fuel sym padRight arg num traced
          = some (put, position, reads))
        ∧ (∀ read ∈ reads, extent.Holds read)
        ∧ Behind memory extent position text' ∧ text'.length ≤ text.length
        ∧ Stage.percent.closes text = closesBehind text' := by
  cases text with
  | nil =>
      refine .inl ⟨rfl, convert_stuck ?_ percent ?_ args sym padRight arg num⟩
      all_goals
        rw [at_.nul]
        decide
  | cons c rest =>
      have here := at_.read.1
      cases letter : isConversion c with
      | true =>
          obtain ⟨least, put, position, reads, converts, format, read⟩ :=
            convert_ends strings args sym padRight arg num (.inl (here ▸ letter))
          have reads_eq := read.resolve_right (fun looked => looked.2 percent)
          refine .inr ⟨least, put, position, reads, c :: rest, converts, ?_, ⟨traced, at_, format⟩,
            le_rfl, ?_⟩
          · rw [reads_eq]
            exact at_.reads
          · rw [Stage.closes, Stage.next, letter, if_pos rfl]
            rfl
      | false =>
          rw [closes_percent letter]
          cases flag : isFlag c with
          | false =>
              exact .inl ⟨rfl, convert_stuck (here ▸ letter) percent (here ▸ flag) args sym padRight
                arg num⟩
          | true =>
              have fill : Skipped memory extent traced.lookBack (c :: rest)
                  (traced.behindFill memory) (dropOne isFill (c :: rest)) :=
                .skip (at_.lookBack holds) rfl rfl decide_eq_true_iff.symm
              have dash : Skipped memory extent (traced.behindFill memory)
                  (dropOne isFill (c :: rest)) (traced.behindDash memory)
                  (dropOne isDash (dropOne isFill (c :: rest))) :=
                .skip fill.at_ rfl rfl decide_eq_true_iff.symm
              obtain ⟨num', traced', width, widthRuns⟩ := readWidth_skips dash.at_ 0
              have skipped := (fill.trans dash).trans width
              have shorter := behindFlags_shorter flag rest
              obtain ⟨other, holds', -⟩ := skipped.flags.resolve_left
                (fun stays => absurd shorter (by rw [behindFlags, stays.2]; exact lt_irrefl _))
              obtain ⟨sym', padRight', again⟩ := convert_again
                (here ▸ letter : isConversion traced.reading.c = false) percent args sym padRight
                arg num
              obtain ⟨least, put, position, reads, converts, format, read⟩ :=
                convert_ends strings args sym' padRight' arg num' (.inr other)
              refine .inr ⟨least + (dropOne isDash (dropOne isFill (c :: rest))).length + 2, put,
                position, reads, behindFlags (c :: rest), fun fuel enough => ?_, ?_,
                ⟨traced', skipped.at_, format⟩, shorter.le, rfl⟩
              · obtain ⟨fuel, rfl⟩ : ∃ more, fuel = more + 1 := ⟨fuel - 1, by omega⟩
                rw [again fuel, widthRuns fuel (by omega)]
                exact converts fuel (by omega)
              · rcases read with rfl | ⟨rfl, -⟩
                · exact skipped.at_.reads
                · exact (skipped.at_.lookBack holds').reads

end Conversion

-----------------------------------------------------------------------------------------
-- Whole formats
-----------------------------------------------------------------------------------------

section Formats

variable {memory : CharMemory} {args : Nat → BitVec 32} {extent : Extent} {position : Position}

/-- From a position on the call returns and stays in the format. -/
def Ends (memory : CharMemory) (args : Nat → BitVec 32) (extent : Extent) (position : Position)
    : Prop :=
  ∃ enough, ∀ fuel, enough ≤ fuel →
    ∃ run, formattedTraced memory args fuel position = some run ∧ ∀ read ∈ run.2, extent.Holds read

/-- Each round reads the character it stands at. -/
theorem ends_holds (ends : Ends memory args extent position) : extent.Holds position.format := by
  obtain ⟨enough, ends⟩ := ends
  obtain ⟨run, runs, reads⟩ := ends (enough + 1) (by omega)
  refine reads _ ?_
  rw [formattedTraced] at runs
  dsimp only at runs
  split at runs
  · cases runs
    exact List.mem_singleton_self _
  · split at runs
    · obtain ⟨rest, -, rfl⟩ := Option.map_eq_some_iff.mp runs
      exact List.mem_cons_self
    · obtain ⟨result, -, runs⟩ := Option.bind_eq_some_iff.mp runs
      obtain ⟨rest, -, rfl⟩ := Option.map_eq_some_iff.mp runs
      exact List.mem_cons_self

/-- A round that ends leaves the rest to the next one. -/
theorem ends_round {position' : Position} {put : List UInt8} {reads : List (BitVec 32)}
    (least : Nat) (holds : ∀ read ∈ reads, extent.Holds read)
    (round : ∀ fuel, least ≤ fuel → formattedTraced memory args (fuel + 1) position
      = (formattedTraced memory args fuel position').map
          (fun run => (put :: run.1, reads ++ run.2)))
    : Ends memory args extent position ↔ Ends memory args extent position' := by
  constructor
  · rintro ⟨enough, ends⟩
    refine ⟨enough + least, fun fuel more => ?_⟩
    obtain ⟨run, runs, read⟩ := ends (fuel + 1) (by omega)
    rw [round fuel (by omega)] at runs
    obtain ⟨rest, later, rfl⟩ := Option.map_eq_some_iff.mp runs
    exact ⟨rest, later, fun address mem => read address (List.mem_append_right _ mem)⟩
  · rintro ⟨enough, ends⟩
    refine ⟨enough + least + 1, fun fuel more => ?_⟩
    obtain ⟨fuel, rfl⟩ : ∃ rest, fuel = rest + 1 := ⟨fuel - 1, by omega⟩
    obtain ⟨run, runs, read⟩ := ends fuel (by omega)
    refine ⟨_, by rw [round fuel (by omega), runs, Option.map_some], fun address mem => ?_⟩
    rcases List.mem_append.mp mem with mem | mem
    · exact holds address mem
    · exact read address mem

/-- The outer loop stands at a position with a text in front of it. -/
def Standing (memory : CharMemory) (extent : Extent) (position : Position) (text : List UInt8)
    : Prop :=
  ReadsAt memory extent ⟨readAt memory position.format, []⟩ text

theorem Standing.holds {text : List UInt8} (standing : Standing memory extent position text)
    : extent.Holds position.format := by
  obtain ⟨⟨address, reading, -, last, first⟩, -, -⟩ := standing
  have next : position.format + 1 = address + 1 := congrArg Reading.format reading
  have same : position.format = address := by bv_omega
  rw [Extent.Holds, same]
  omega

theorem Behind.standing {c : UInt8} {rest : List UInt8}
    (behind : Behind memory extent position (c :: rest))
    : Standing memory extent position rest := by
  obtain ⟨traced, at_, format⟩ := behind
  obtain ⟨-, -, -, later⟩ := at_.read
  refine ⟨?_, later.fits, fun _ mem => absurd mem List.not_mem_nil⟩
  rw [format]
  exact later.string

/-- At the NUL the call returns. -/
theorem ends_nul (nul : memory position.format = 0) (holds : extent.Holds position.format)
    : Ends memory args extent position := by
  refine ⟨1, fun fuel enough => ?_⟩
  obtain ⟨fuel, rfl⟩ : ∃ more, fuel = more + 1 := ⟨fuel - 1, by omega⟩
  refine ⟨([], [position.format]), by rw [formattedTraced, if_pos nul], fun read mem => ?_⟩
  rw [List.mem_singleton.mp mem]
  exact holds

/-- A character that is no percent sign is put out. -/
theorem ends_plain (some_ : memory position.format ≠ 0) (plain : memory position.format ≠ chr '%')
    (holds : extent.Holds position.format)
    : Ends memory args extent position
      ↔ Ends memory args extent { position with format := position.format + 1 } := by
  have round (fuel : Nat) (_ : 0 ≤ fuel)
      : formattedTraced memory args (fuel + 1) position
        = (formattedTraced memory args fuel { position with format := position.format + 1 }).map
          (fun run => ([memory position.format] :: run.1, [position.format] ++ run.2)) := by
    rw [formattedTraced]
    dsimp only
    rw [if_neg some_, if_pos plain]
    rfl
  exact ends_round 0 (List.forall_mem_singleton.mpr holds) round

/-- A percent sign starts a conversion. -/
theorem formattedTraced_percent (sign : memory position.format = chr '%') (fuel : Nat)
    : formattedTraced memory args (fuel + 1) position
      = (convertTraced memory args fuel (chr ' ') false position.arg position.num
          ((⟨readAt memory position.format, []⟩ : Traced).next memory)).bind
        (fun result => (formattedTraced memory args fuel result.2.1).map
          (fun run => (result.1 :: run.1, position.format :: result.2.2 ++ run.2))) := by
  have some_ : memory position.format ≠ 0 := by
    rw [sign]
    decide
  rw [formattedTraced]
  dsimp only
  rw [if_neg some_, if_neg (not_not.mpr sign)]
  rfl

/-- The call is stuck in a specification, or goes on behind it. -/
theorem ends_percent (strings : ∀ p, ∃ text, StringAt memory p text)
    (sign : memory position.format = chr '%') (holds : extent.Holds position.format)
    {rest : List UInt8}
    (later : ReadsAt memory extent ((⟨readAt memory position.format, []⟩ : Traced).next memory)
      rest)
    : (Stage.percent.closes rest = false ∧ ¬ Ends memory args extent position)
      ∨ ∃ position' text', Behind memory extent position' text' ∧ text'.length ≤ rest.length
        ∧ Stage.percent.closes rest = closesBehind text'
        ∧ (Ends memory args extent position ↔ Ends memory args extent position') := by
  have back : position.format + 1 + 1 - 2 = position.format := by bv_omega
  rcases percent_cases strings later ((congrArg memory back).trans sign)
      ((congrArg extent.Holds back).mpr holds) args (chr ' ') false position.arg position.num
    with ⟨open_, stuck⟩
      | ⟨least, put, position', reads, text', converts, read, behind, shorter, closes⟩
  · refine Or.inl ⟨open_, ?_⟩
    rintro ⟨enough, ends⟩
    obtain ⟨run, runs, -⟩ := ends (enough + 1) (by omega)
    rw [formattedTraced_percent sign, stuck] at runs
    contradiction
  · have round (fuel : Nat) (enough : least ≤ fuel)
        : formattedTraced memory args (fuel + 1) position
          = (formattedTraced memory args fuel position').map
            (fun run => (put :: run.1, position.format :: reads ++ run.2)) := by
      rw [formattedTraced_percent sign, converts fuel enough]
      rfl
    exact Or.inr ⟨position', text', behind, shorter, closes,
      ends_round least (List.forall_mem_cons.mpr ⟨holds, read⟩) round⟩

/-- The whole format, by induction over the length of what is left of it. -/
theorem ends_iff (strings : ∀ p, ∃ text, StringAt memory p text) (notNull : extent.first ≠ 0)
    {text : List UInt8} (standing : Standing memory extent position text)
    : Ends memory args extent position ↔ Stage.outside.closes text = true := by
  obtain ⟨size, length⟩ : ∃ size, text.length = size := ⟨_, rfl⟩
  induction size using Nat.strong_induction_on generalizing text position with
  | h size ih =>
      have holds := standing.holds
      cases text with
      | nil => exact iff_of_true (ends_nul standing.nul holds) rfl
      | cons c rest =>
          obtain ⟨read, some_, -, later⟩ := ReadsAt.read standing
          have here : memory position.format = c := read
          rw [List.length_cons] at length
          by_cases percent : c = chr '%'
          · have closes : Stage.outside.closes (c :: rest) = Stage.percent.closes rest := by
              rw [Stage.closes, Stage.next, if_pos percent]
            rw [closes]
            rcases ends_percent strings (here.trans percent) holds later
              with ⟨open_, stuck⟩ | ⟨position', text', behind, shorter, closes', round⟩
            · exact iff_of_false stuck (by rw [open_]; exact Bool.false_ne_true)
            · rw [closes', round]
              cases text' with
              | nil =>
                  refine iff_of_false (fun ends => ?_) Bool.false_ne_true
                  obtain ⟨traced, at_, format⟩ := behind
                  refine at_.beyond notNull ?_
                  rw [← format]
                  exact ends_holds ends
              | cons c' rest' =>
                  rw [List.length_cons] at shorter
                  exact ih rest'.length (by omega) behind.standing rfl
          · have closes : Stage.outside.closes (c :: rest) = Stage.outside.closes rest := by
              rw [Stage.closes, Stage.next, if_neg percent]
            rw [closes, ends_plain (here ▸ some_) (here ▸ percent) holds]
            refine ih rest.length (by omega) ⟨later.string, later.fits, ?_⟩ rfl
            exact fun _ mem => absurd mem List.not_mem_nil

/-- `printf` and `serialprintf` come to an end exactly if every percent sign that begins a
specification is followed by a letter, or by flags and one more character.
-/
theorem format_ends_iff {format : BitVec 32} {text : List UInt8}
    (placed : Placed memory format text) (args : Nat → BitVec 32)
    : FormatEnds memory format text args ↔ Stage.outside.closes text = true := by
  obtain ⟨string, notNull, fits⟩ := placed
  have nul : memory (format + BitVec.ofNat 32 text.length) = 0 :=
    (bytesAt_append.mp string.bytes).2.1
  have standing : Standing memory ⟨format.toNat, format.toNat + text.length⟩ ⟨format, 0, 0⟩ text :=
    ⟨⟨format, rfl, string, rfl, le_rfl⟩, fits, fun _ mem => absurd mem List.not_mem_nil⟩
  have first : format.toNat ≠ 0 := fun zero => notNull (BitVec.eq_of_toNat_eq zero)
  rw [← ends_iff (string_anywhere nul) first standing]
  constructor
  · rintro ⟨enough, ends⟩
    exact ⟨enough, fun fuel more => (ends fuel more).2.2⟩
  · rintro ⟨enough, ends⟩
    refine ⟨enough, fun fuel more => ?_⟩
    obtain ⟨run, runs, reads⟩ := ends fuel more
    have put : formattedAt fuel memory format args = some run.1 := by
      rw [formattedAt, ← formattedTraced_erased, runs, Option.map_some]
    refine ⟨fun screen => ?_, ?_, run, runs, reads⟩
    · rw [printf, put]
      rfl
    · rw [serialprintf, put]
      rfl

theorem format_ends_iff_filled
    : FormatEnds (stringMemory [' ', '%', '0', '5', 'd']) 1 (['%', '0', '5', 'd'].map chr)
        (fun _ => 7) :=
  (format_ends_iff ⟨⟨by decide, by decide⟩, by decide, by decide⟩ _).mpr (by decide)

/-- `"%%"`: the second percent sign is looked at forever. -/
theorem format_percent_percent
    : Placed (stringMemory [' ', '%', '%']) 1 (['%', '%'].map chr)
      ∧ ¬ FormatEnds (stringMemory [' ', '%', '%']) 1 (['%', '%'].map chr) (fun _ => 0) := by
  refine ⟨⟨⟨by decide, by decide⟩, by decide, by decide⟩, ?_⟩
  rintro ⟨enough, ends⟩
  obtain ⟨-, -, run, runs, -⟩ := ends (enough + 1) (by omega)
  obtain ⟨result, converts, -⟩ := Option.bind_eq_some_iff.mp runs
  rw [convert_stuck (by decide) (by decide) (by decide)] at converts
  contradiction

end Formats

end DeadKernel
