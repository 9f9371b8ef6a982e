import DeadKernel.Io.PrintedItems
import DeadKernel.Shared.Numbers

/-! The dump of memory that `memPrint` puts, 8 bytes a line in the shell and 16 in the kernel. The
bytes of the lines can be read back; a last line that is not full is left out.
-/

namespace DeadKernel

open Settling

-----------------------------------------------------------------------------------------
-- memPrint
-----------------------------------------------------------------------------------------

/-- `for (uint32_t i = 0; i < bound; i++)`, with what its rounds put. -/
def forLoop (bound : BitVec 32) (body : Nat → BitVec 32 → Option (List UInt8))
    : Nat → BitVec 32 → Option (List UInt8)
  | 0, _ => none
  | fuel + 1, i =>
      if i < bound then do
        let put ← body fuel i
        let rest ← forLoop bound body fuel (i + 1)
        some (put ++ rest)
      else some []

/-- The formats of `memPrint`. -/
inductive DumpFormat where
  | start
  | column
  | byte
  | bar
  | char
  | dot
  | newLine
  | last
deriving DecidableEq

theorem two_small : 2 < 128 := by decide

theorem one_small : 1 < 128 := by decide

def DumpFormat.pieces : DumpFormat → List Piece
  | .start =>
      ['-', '-', '-', '-', ' ', 'm', 'e', 'm', 'o', 'r', 'y', ' ', 's', 't', 'a', 'r', 't', ' ',
        'a', 't', ' ', '0', 'x'].map .char
      ++ [wordSpec] ++ [' ', '-', '-', '-', '-', '\n'].map .char
  | .column => [wordSpec] ++ [' ', '|', ' '].map .char
  | .byte => [.conversion ⟨some .zero, false, 2, .x, two_small⟩] ++ [' '].map .char
  | .bar => ['|', ' '].map .char
  | .char => [.conversion ⟨some .dot, false, 1, .c, one_small⟩]
  | .dot => ['.'].map .char
  | .newLine => ['\n'].map .char
  | .last =>
      ['-', '-', '-', '-', ' ', 'm', 'e', 'm', 'o', 'r', 'y', ' ', 'e', 'n', 'd', ' ', 'a', 't',
        ' ', '0', 'x'].map .char
      ++ [wordSpec] ++ [' ', '-', '-', '-', '-', '\n'].map .char

/-- The formats stand in memory. -/
def FormatsLinked (address : DumpFormat → BitVec 32) (memory : CharMemory) : Prop :=
  ∀ format, BytesAt memory (address format) (formatBytes format.pieces ++ [0])

section Dump

variable (address : DumpFormat → BitVec 32) (outW : BitVec 32) (memory : CharMemory)

/-- The byte `mem[(OUT_W * i) + j]`. -/
def dumpByte (mem i j : BitVec 32) : UInt8 := memory (mem + (outW * i + j))

/-- A round of the outer loop of `memPrint`. -/
def dumpLine (mem : BitVec 32) (fuel : Nat) (i : BitVec 32) : Option (List UInt8) := do
  let word (j : BitVec 32) : BitVec 32 := (dumpByte outW memory mem i j).toBitVec.setWidth 32
  let column ← putBy fuel memory (address .column) [mem + outW * i]
  let bytes ← forLoop outW (fun fuel j => putBy fuel memory (address .byte) [word j]) fuel 0
  let bar ← putBy fuel memory (address .bar) []
  let chars ← forLoop outW
    (fun fuel j =>
      if 31 < dumpByte outW memory mem i j then putBy fuel memory (address .char) [word j]
      else putBy fuel memory (address .dot) [])
    fuel 0
  let newLine ← putBy fuel memory (address .newLine) []
  some (column ++ bytes ++ bar ++ chars ++ newLine)

/-- `memPrint`, with its `OUT_W` and where its formats stand: what it puts. -/
def memPrint (mem size : BitVec 32) (fuel : Nat) : Option (List UInt8) := do
  let start ← putBy fuel memory (address .start) [mem]
  let lines ← forLoop (size / outW) (dumpLine address outW memory mem) fuel 0
  let last ← putBy fuel memory (address .last) [mem + size]
  some (start ++ lines ++ last)

end Dump

-----------------------------------------------------------------------------------------
-- Lines and their bytes
-----------------------------------------------------------------------------------------

/-- A number in hexadecimal, filled with zeros. -/
def hexColumn (width n : Nat) : List UInt8 := pad (chr '0') false width (numeral 16 n)

/-- What stands in the right column for a byte. -/
def visible (byte : UInt8) : UInt8 := if 31 < byte then byte else chr '.'

/-- The line of a dump for a row of bytes. -/
def lineText (at_ : BitVec 32) (row : List UInt8) : List UInt8 :=
  hexColumn 8 at_.toNat ++ [' ', '|', ' '].map chr
    ++ row.flatMap (fun byte => hexColumn 2 byte.toNat ++ [chr ' ']) ++ ['|', ' '].map chr
    ++ row.map visible ++ [chr '\n']

/-- The row of a line: the bytes from `mem + outW * i` on. -/
def rowAt (outW : BitVec 32) (memory : CharMemory) (mem : BitVec 32) (i : Nat) : List UInt8 :=
  (List.range outW.toNat).map (fun j => memory (mem + BitVec.ofNat 32 (outW.toNat * i + j)))

/-- The address in front of a line, read by `strtoi`. -/
def readAddress (line : List UInt8) : BitVec 32 := (strtoi (some (line.take 8)) 16).1

/-- The bytes in the middle of a line, read by `strtoi`. -/
def readRow (count : Nat) (line : List UInt8) : List UInt8 :=
  (List.range count).map
    (fun j => ⟨((strtoi (some ((line.drop (11 + 3 * j)).take 2)) 16).1).setWidth 8⟩)

/-- The first line of a dump and the last one. -/
def startText (mem : BitVec 32) : List UInt8 := putText DumpFormat.start.pieces [⟨mem, []⟩]

def lastText (mem : BitVec 32) : List UInt8 := putText DumpFormat.last.pieces [⟨mem, []⟩]

-----------------------------------------------------------------------------------------
-- What the loops put
-----------------------------------------------------------------------------------------

section Loops

variable {bound : BitVec 32} {body : Nat → BitVec 32 → Option (List UInt8)}
  {text : Nat → List UInt8}

/-- The rounds that are left, by induction over their number. -/
theorem forLoop_from (left : Nat) {i : BitVec 32} (count : i.toNat + left = bound.toNat)
    (puts : ∀ k, k < bound.toNat →
      Settles (fun fuel => body fuel (BitVec.ofNat 32 k)) (text k))
    : Settles (fun fuel => forLoop bound body fuel i)
        ((List.range' i.toNat left).flatMap text) := by
  induction left generalizing i with
  | zero =>
      refine .succ (.pure []) 0 (fun fuel _ => if_neg ?_)
      rw [BitVec.not_lt, BitVec.le_def]
      omega
  | succ left ih =>
      have less : i < bound := by
        rw [BitVec.lt_def]
        omega
      have next : (i + 1).toNat = i.toNat + 1 := by
        have small := bound.isLt
        rw [BitVec.toNat_add]
        exact Nat.mod_eq_of_lt (by simp; omega)
      have here := puts i.toNat (by omega)
      rw [BitVec.ofNat_toNat, BitVec.setWidth_eq] at here
      have later := @ih (i + 1) (by omega)
      rw [next] at later
      rw [List.range'_succ, List.flatMap_cons]
      refine .shift ?_
      simp only [forLoop, if_pos less]
      exact .bind here (.bind later (.pure _))

/-- All rounds. -/
theorem forLoop_settles
    (puts : ∀ k, k < bound.toNat →
      Settles (fun fuel => body fuel (BitVec.ofNat 32 k)) (text k))
    : Settles (fun fuel => forLoop bound body fuel 0)
        ((List.range bound.toNat).flatMap text) := by
  rw [List.range_eq_range']
  exact forLoop_from bound.toNat (by simp) puts

end Loops

-----------------------------------------------------------------------------------------
-- What memPrint puts
-----------------------------------------------------------------------------------------

section Puts

variable {address : DumpFormat → BitVec 32} {outW : BitVec 32} {memory : CharMemory}

theorem putBy_format (linked : FormatsLinked address memory) {format : DumpFormat}
    (other : format ≠ .char) {args : List (BitVec 32)}
    (enough : ArgsMatch memory format.pieces (args.map (fun word => ⟨word, []⟩)))
    : Settles (fun fuel => putBy fuel memory (address format) args)
        (putText format.pieces (args.map (fun word => ⟨word, []⟩))) := by
  have whole : ∀ piece ∈ format.pieces, piece.Whole := by
    revert other
    cases format <;> decide
  have puts := putBy_whole whole (linked format) enough
  rwa [List.map_map, List.map_id''] at puts
  exact fun _ => rfl

/-- `%.1c` puts the byte. -/
theorem putBy_char (linked : FormatsLinked address memory) (byte : UInt8)
    : Settles (fun fuel => putBy fuel memory (address .char) [byte.toBitVec.setWidth 32])
        [byte] := by
  have honoured : AllHonoured false [.conversion ⟨some .dot, false, 1, .c, one_small⟩
      ⟨byte.toBitVec.setWidth 32, []⟩] := by
    refine ⟨⟨by decide, fun _ => le_refl 1, fun d => absurd d (by decide)⟩, fun pending => ?_,
      trivial⟩
    contradiction
  have matching : ItemsMatch memory (fun index => [byte.toBitVec.setWidth 32].getD index 0) 0
      [.conversion ⟨some .dot, false, 1, .c, one_small⟩ ⟨byte.toBitVec.setWidth 32, []⟩] :=
    ⟨rfl, matches_word _ _ (by decide), trivial⟩
  have prints := (prints_iff stale_start (linked .char) matching).mpr honoured
  have text : [byte] = (List.map Item.expected [.conversion ⟨some .dot, false, 1, .c, one_small⟩
      ⟨byte.toBitVec.setWidth 32, []⟩]).flatten := by
    simp [Item.expected, pad, Letter.text]
  rw [text]
  exact Settles.map prints List.flatten

/-- A line of the dump. -/
theorem dumpLine_settles (linked : FormatsLinked address memory) (mem : BitVec 32) (k : Nat)
    : Settles (fun fuel => dumpLine address outW memory mem fuel (BitVec.ofNat 32 k))
        (lineText (mem + outW * BitVec.ofNat 32 k) (rowAt outW memory mem k)) := by
  let byte (j : Nat) : UInt8 := dumpByte outW memory mem (BitVec.ofNat 32 k) (BitVec.ofNat 32 j)
  have row : rowAt outW memory mem k = (List.range outW.toNat).map byte := by
    refine List.map_congr_left fun j _ => ?_
    have product : outW * BitVec.ofNat 32 k = BitVec.ofNat 32 (outW.toNat * k) := by
      rw [BitVec.ofNat_mul, BitVec.ofNat_toNat, BitVec.setWidth_eq]
    change _ = memory (mem + (outW * BitVec.ofNat 32 k + BitVec.ofNat 32 j))
    rw [product, ← BitVec.ofNat_add]
  have column : Settles
      (fun fuel => putBy fuel memory (address .column) [mem + outW * BitVec.ofNat 32 k])
      (hexColumn 8 (mem + outW * BitVec.ofNat 32 k).toNat ++ [' ', '|', ' '].map chr) :=
    putBy_format linked (by decide) ⟨matches_word _ _ (by decide), trivial⟩
  have bytes (j : Nat) : Settles
      (fun fuel => putBy fuel memory (address .byte) [(byte j).toBitVec.setWidth 32])
      (hexColumn 2 ((byte j).toBitVec.setWidth 32 : BitVec 32).toNat ++ [chr ' ']) :=
    putBy_format linked (by decide) ⟨matches_word _ _ (by decide), trivial⟩
  have bar : Settles (fun fuel => putBy fuel memory (address .bar) []) (['|', ' '].map chr) :=
    putBy_format linked (by decide) trivial
  have dot : Settles (fun fuel => putBy fuel memory (address .dot) []) [chr '.'] :=
    putBy_format linked (by decide) trivial
  have newLine : Settles (fun fuel => putBy fuel memory (address .newLine) []) [chr '\n'] :=
    putBy_format linked (by decide) trivial
  have chars (j : Nat) : Settles
      (fun fuel =>
        if 31 < byte j then
          putBy fuel memory (address .char) [(byte j).toBitVec.setWidth 32]
        else putBy fuel memory (address .dot) [])
      [visible (byte j)] := by
    rw [visible]
    split
    · exact putBy_char linked (byte j)
    · exact dot
  have text : lineText (mem + outW * BitVec.ofNat 32 k) (rowAt outW memory mem k)
      = hexColumn 8 (mem + outW * BitVec.ofNat 32 k).toNat ++ [' ', '|', ' '].map chr
        ++ (List.range outW.toNat).flatMap
          (fun j => hexColumn 2 ((byte j).toBitVec.setWidth 32 : BitVec 32).toNat ++ [chr ' '])
        ++ ['|', ' '].map chr
        ++ (List.range outW.toNat).flatMap (fun j => [visible (byte j)]) ++ [chr '\n'] := by
    have small (j : Nat) : ((byte j).toBitVec.setWidth 32 : BitVec 32).toNat = (byte j).toNat := by
      rw [BitVec.toNat_setWidth]
      exact Nat.mod_eq_of_lt ((byte j).toNat_lt.trans (by decide))
    simp only [lineText, row, List.flatMap_map, List.map_map, small, ← List.map_eq_flatMap]
    rfl
  rw [text]
  unfold dumpLine
  dsimp only
  exact .bind column <| .bind (forLoop_settles fun j _ => bytes j) <| .bind bar <|
    .bind (forLoop_settles fun j _ => chars j) <| .bind newLine (.pure _)

/-- The lines of a dump. -/
def dumpLines (outW : BitVec 32) (memory : CharMemory) (mem size : BitVec 32)
    : List (List UInt8) :=
  (List.range (size.toNat / outW.toNat)).map fun i =>
    lineText (mem + BitVec.ofNat 32 (outW.toNat * i)) (rowAt outW memory mem i)

/-- The call ends, and puts the lines between the first and the last one. -/
theorem memPrint_settles (linked : FormatsLinked address memory) (mem size : BitVec 32)
    : Settles (fun fuel => memPrint address outW memory mem size fuel)
        (startText mem ++ (dumpLines outW memory mem size).flatten ++ lastText (mem + size)) := by
  have start : Settles (fun fuel => putBy fuel memory (address .start) [mem]) (startText mem) :=
    putBy_format linked (by decide) ⟨matches_word _ _ (by decide), trivial⟩
  have last : Settles (fun fuel => putBy fuel memory (address .last) [mem + size])
      (lastText (mem + size)) :=
    putBy_format linked (by decide) ⟨matches_word _ _ (by decide), trivial⟩
  have lines : Settles
      (fun fuel => forLoop (size / outW) (dumpLine address outW memory mem) fuel 0) _ :=
    forLoop_settles fun k _ => dumpLine_settles linked mem k
  have text : (dumpLines outW memory mem size).flatten
      = (List.range (size / outW).toNat).flatMap fun k =>
        lineText (mem + outW * BitVec.ofNat 32 k) (rowAt outW memory mem k) := by
    rw [dumpLines, ← List.flatMap_def, BitVec.toNat_udiv]
    simp only [BitVec.ofNat_mul, BitVec.ofNat_toNat, BitVec.setWidth_eq]
  rw [text]
  exact start.bind (.bind lines (.bind last (.pure _)))

end Puts

-----------------------------------------------------------------------------------------
-- Reading a dump back
-----------------------------------------------------------------------------------------

section Reading

/-- Zeros in front of digits do not count. -/
theorem strtoiDigits_zeros (count : Nat) (digits : List UInt8)
    : strtoiDigits 16 (List.replicate count (chr '0') ++ digits) 0 = strtoiDigits 16 digits 0 := by
  induction count with
  | zero => rfl
  | succ count ih =>
      rw [List.replicate_succ, List.cons_append, strtoiDigits, if_pos (by decide),
        if_neg (by decide)]
      exact ih

theorem strtoi_hexColumn (width : Nat) (word : BitVec 32)
    : (strtoi (some (hexColumn width word.toNat)) 16).1 = word := by
  have digits : ∀ c ∈ hexColumn width word.toNat, isHexDigit c = true := by
    intro c member
    rw [hexColumn, pad, if_neg Bool.false_ne_true, List.mem_append] at member
    rcases member with padding | digit
    · rw [List.eq_of_mem_replicate padding]
      decide
    · exact numeral_hex (by decide : 1 < (16 : BitVec 32).toNat) (by decide) _ c digit
  have read := strtoiDigits_numeral (by decide : 1 < (16 : BitVec 32).toNat)
      (by decide) word.toNat []
  rw [List.append_nil, BitVec.ofNat_toNat, BitVec.setWidth_eq] at read
  rw [strtoi_digits (by decide) digits, hexColumn, pad, if_neg Bool.false_ne_true]
  dsimp only
  rw [strtoiDigits_zeros]
  exact congrArg Prod.fst read

theorem hexColumn_length {width n : Nat} (small : n < 16 ^ (width + 1))
    : (hexColumn (width + 1) n).length = width + 1 := by
  have digits := numeral_length_le (by decide : 1 < 16) small
  rw [hexColumn, pad, if_neg Bool.false_ne_true, List.length_append, List.length_replicate]
  omega

/-- The digits of a byte in the middle of a line, by induction over the bytes in front. -/
theorem cell_at (row tail : List UInt8) {j : Nat} (less : j < row.length)
    : ((row.flatMap (fun byte => hexColumn 2 byte.toNat ++ [chr ' ']) ++ tail).drop (3 * j)).take 2
      = hexColumn 2 (row.get ⟨j, less⟩).toNat := by
  have length (byte : UInt8) : (hexColumn 2 byte.toNat).length = 2 :=
    hexColumn_length (byte.toNat_lt.trans_le (by decide))
  induction row generalizing j with
  | nil => exact absurd less (Nat.not_lt_zero j)
  | cons byte row ih =>
      rw [List.flatMap_cons]
      cases j with
      | zero =>
          rw [Nat.mul_zero, List.drop_zero, List.append_assoc, List.append_assoc,
            List.take_append_of_le_length (by rw [length]), List.take_of_length_le (by rw [length])]
          rfl
      | succ j =>
          have first : (hexColumn 2 byte.toNat ++ [chr ' ']).length = 3 := by
            rw [List.length_append, length]
            rfl
          have skip : 3 * (j + 1) = (hexColumn 2 byte.toNat ++ [chr ' ']).length + 3 * j := by
            rw [first]
            omega
          rw [List.append_assoc, skip, List.drop_length_add_append]
          exact ih (Nat.lt_of_succ_lt_succ less)

variable {row : List UInt8} {at_ : BitVec 32}

theorem readRow_line {count : Nat} (all : row.length = count)
    : readRow count (lineText at_ row) = row := by
  have column : (hexColumn 8 at_.toNat).length = 8 :=
    hexColumn_length (at_.isLt.trans_le (by decide))
  refine List.ext_get (by rw [readRow, List.length_map, List.length_range, all]) fun j _ less => ?_
  simp only [readRow, List.get_eq_getElem, List.getElem_map, List.getElem_range]
  have skip : 11 + 3 * j = (hexColumn 8 at_.toNat ++ [' ', '|', ' '].map chr).length + 3 * j := by
    rw [List.length_append, column]
    rfl
  rw [lineText, List.append_assoc, List.append_assoc, List.append_assoc, skip,
    List.drop_length_add_append, cell_at row _ less]
  have small := (row.get ⟨j, less⟩).toNat_lt
  have own : (BitVec.ofNat 32 (row.get ⟨j, less⟩).toNat).toNat = (row.get ⟨j, less⟩).toNat := by
    rw [BitVec.toNat_ofNat]
    exact Nat.mod_eq_of_lt (small.trans (by decide))
  have read := strtoi_hexColumn 2 (BitVec.ofNat 32 (row.get ⟨j, less⟩).toNat)
  rw [own] at read
  rw [read, ← UInt8.toNat_inj]
  change ((BitVec.ofNat 32 _).setWidth 8).toNat = _
  rw [BitVec.toNat_setWidth, own]
  exact Nat.mod_eq_of_lt small

theorem readAddress_line : readAddress (lineText at_ row) = at_ := by
  have column : (hexColumn 8 at_.toNat).length = 8 :=
    hexColumn_length (at_.isLt.trans_le (by decide))
  rw [readAddress, lineText]
  simp only [List.append_assoc]
  rw [List.take_append_of_le_length (by rw [column]), List.take_of_length_le (by rw [column]),
    strtoi_hexColumn]

/-- Rows one behind the other, by induction over their number. -/
theorem rows_range (outW : BitVec 32) (memory : CharMemory) (mem : BitVec 32) (count : Nat)
    : (List.range count).flatMap (rowAt outW memory mem)
      = (List.range (count * outW.toNat)).map (fun k => memory (mem + BitVec.ofNat 32 k)) := by
  induction count with
  | zero => simp
  | succ count ih =>
      rw [List.range_succ, List.flatMap_append, ih, Nat.succ_mul, List.range_add, List.map_append,
        List.map_map, List.flatMap_singleton, rowAt, Nat.mul_comm]
      rfl

/-- `memPrint` ends for every memory, address and size. Its dump can be read back: the lines give
their addresses, and the bytes from `mem` on, except those that do not fill a line.
-/
theorem memPrint_readable {address : DumpFormat → BitVec 32} {memory : CharMemory}
    (linked : FormatsLinked address memory) (outW mem size : BitVec 32)
    : Settles (fun fuel => memPrint address outW memory mem size fuel)
        (startText mem ++ (dumpLines outW memory mem size).flatten ++ lastText (mem + size))
      ∧ (dumpLines outW memory mem size).map readAddress
        = (List.range (size.toNat / outW.toNat)).map
          (fun i => mem + BitVec.ofNat 32 (outW.toNat * i))
      ∧ (dumpLines outW memory mem size).flatMap (readRow outW.toNat)
        = (List.range (size.toNat / outW.toNat * outW.toNat)).map
          (fun k => memory (mem + BitVec.ofNat 32 k)) := by
  refine ⟨memPrint_settles linked mem size, ?_, ?_⟩
  · rw [dumpLines, List.map_map]
    exact List.map_congr_left fun i _ => readAddress_line
  · rw [← rows_range, dumpLines, List.flatMap_map]
    refine congrArg (fun f => List.flatMap f _) (funext fun i => readRow_line ?_)
    rw [rowAt, List.length_map, List.length_range]

/-- A memory that holds the formats at its bottom. -/
def dumpMemory : CharMemory := fun address =>
  ([.start, .column, .byte, .bar, .char, .dot, .newLine, .last].flatMap
    (fun format : DumpFormat => formatBytes format.pieces ++ [0])).getD address.toNat 0

def dumpAddress : DumpFormat → BitVec 32
  | .start => 0
  | .column => 34
  | .byte => 42
  | .bar => 48
  | .char => 51
  | .dot => 56
  | .newLine => 58
  | .last => 60

theorem memPrint_readable_formats
    : Settles (fun fuel => memPrint dumpAddress 8 dumpMemory 34 20 fuel)
        (startText 34 ++ (dumpLines 8 dumpMemory 34 20).flatten ++ lastText (34 + 20))
      ∧ (dumpLines 8 dumpMemory 34 20).flatMap (readRow 8)
        = (formatBytes DumpFormat.column.pieces ++ 0 :: formatBytes DumpFormat.byte.pieces
          ++ 0 :: formatBytes DumpFormat.bar.pieces) := by
  have linked : FormatsLinked dumpAddress dumpMemory := by
    intro format
    cases format <;> decide +kernel
  obtain ⟨prints, -, bytes⟩ := memPrint_readable linked 8 34 20
  exact ⟨prints, bytes.trans (by decide +kernel)⟩

end Reading

end DeadKernel
