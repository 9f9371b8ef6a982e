import DeadKernel.Foundation.Settling
import DeadKernel.Io.FormattedOutput

/-! What a call of `printf` puts for a format without a `%c` and without a width that holds a 0.
Then no item reaches into the next one, and a negative `%d` is put as its unsigned value.
-/

namespace DeadKernel

open Settling

-----------------------------------------------------------------------------------------
-- Formats
-----------------------------------------------------------------------------------------

/-- A part of a format. -/
inductive Piece where
  | char (c : Char)
  | conversion (spec : Spec)

def Piece.bytes : Piece → List UInt8
  | .char c => [chr c]
  | .conversion spec => spec.bytes

/-- The piece is put as a whole and leaves nothing behind. -/
def Piece.Whole : Piece → Prop
  | .char c => chr c ≠ 0 ∧ chr c ≠ chr '%'
  | .conversion spec => chr '0' ∉ spec.digits ∧ spec.letter ≠ .c

instance : ∀ piece : Piece, Decidable piece.Whole
  | .char c => inferInstanceAs (Decidable (chr c ≠ 0 ∧ chr c ≠ chr '%'))
  | .conversion spec => inferInstanceAs (Decidable (chr '0' ∉ spec.digits ∧ spec.letter ≠ .c))

theorem zero_small : 0 < 128 := by decide

theorem eight_small : 8 < 128 := by decide

/-- `%d`, `%s` and the like. -/
def bare (letter : Letter) : Piece := .conversion ⟨none, false, 0, letter, zero_small⟩

/-- `%08x`. -/
def wordSpec : Piece := .conversion ⟨some .zero, false, 8, .x, eight_small⟩

/-- The bytes of a format in memory. -/
def formatBytes (pieces : List Piece) : List UInt8 := pieces.flatMap Piece.bytes

/-- The arguments match the specifications and come one after another. -/
def ArgsMatch (memory : CharMemory) : List Piece → List Argument → Prop
  | [], _ => True
  | .char _ :: rest, args => ArgsMatch memory rest args
  | .conversion _ :: _, [] => False
  | .conversion spec :: rest, arg :: args =>
      arg.Matches memory spec.letter ∧ ArgsMatch memory rest args

/-- Only a `%s` asks for something. -/
theorem matches_word (memory : CharMemory) (arg : Argument) {letter : Letter} (other : letter ≠ .s)
    : arg.Matches memory letter :=
  fun same => absurd same other

/-- What the code puts for a specification. -/
def Spec.put (spec : Spec) (arg : Argument) : List UInt8 :=
  pad spec.fillChar spec.right spec.width (spec.letter.printed arg)

/-- What the code puts for a format, a chunk for each piece. -/
def chunksOf : List Piece → List Argument → List (List UInt8)
  | [], _ => []
  | .char c :: rest, args => [chr c] :: chunksOf rest args
  | .conversion _ :: _, [] => []
  | .conversion spec :: rest, arg :: args => spec.put arg :: chunksOf rest args

def putText (pieces : List Piece) (args : List Argument) : List UInt8 :=
  (chunksOf pieces args).flatten

/-- What a call with the format at `format` puts, on the screen or on a port. -/
def putBy (fuel : Nat) (memory : CharMemory) (format : BitVec 32) (args : List (BitVec 32))
    : Option (List UInt8) :=
  (formattedAt fuel memory format (fun index => args.getD index 0)).map List.flatten

-----------------------------------------------------------------------------------------
-- Pieces that are put as a whole
-----------------------------------------------------------------------------------------

section

variable {memory : CharMemory} {words : Nat → BitVec 32}

/-- A specification is put with its own width. -/
theorem converts_whole {address : BitVec 32} {index : Nat} {num : BitVec 8} {spec : Spec}
    {arg : Argument} (stale : Stale false num) (whole : (Piece.conversion spec).Whole)
    (bytes : BytesAt memory address spec.bytes) (word : words index = arg.word)
    (matching : arg.Matches memory spec.letter)
    : ∃ num', Stale false num'
      ∧ Converts memory words address index num (spec.put arg)
        ⟨address + BitVec.ofNat 32 spec.bytes.length, index + 1, num'⟩ := by
  obtain ⟨nonzero, letter⟩ := whole
  have measured := printed_length matching
  by_cases plain : spec.Plain
  · obtain ⟨put, after⟩ : (putString (chr ' ') false (spec.letter.printed arg) num).1 = _ ∧ _ :=
      putString_stale stale measured
    have converts : Converts memory words address index num _ _ :=
      converts_plain bytes plain word matching
    obtain ⟨fill, right, -, width⟩ := plain.parts
    rw [Letter.put, if_neg letter, put] at converts
    refine ⟨_, after, ?_⟩
    simpa [Spec.put, fill, right, width, pad] using converts
  · obtain ⟨put, after⟩ : (putString spec.fillChar spec.right (spec.letter.printed arg)
        (BitVec.ofNat 8 spec.width)).1 = _ ∧ _ := putString_eq spec.small measured
    have converts : Converts memory words address index num _ _ :=
      converts_flags bytes plain nonzero word matching
    rw [Letter.put, if_neg letter, put] at converts
    exact ⟨_, after, converts⟩

/-- The pieces are put one after another, by induction over them. -/
theorem prints_whole {pieces : List Piece} {args : List Argument} {address : BitVec 32}
    {index : Nat} {num : BitVec 8} (stale : Stale false num)
    (whole : ∀ piece ∈ pieces, piece.Whole)
    (bytes : BytesAt memory address (formatBytes pieces ++ [0]))
    (matching : ArgsMatch memory pieces args)
    (passed : ∀ k, words (index + k) = ((args.map Argument.word).getD k 0))
    : Prints memory words ⟨address, index, num⟩ (chunksOf pieces args) := by
  induction pieces generalizing args address index num with
  | nil => exact (prints_end bytes.1).mpr rfl
  | cons piece rest ih =>
      rw [formatBytes, List.flatMap_cons, List.append_assoc, bytesAt_append] at bytes
      obtain ⟨here, later⟩ := bytes
      have behind : ∀ piece ∈ rest, piece.Whole :=
        fun piece member => whole piece (List.mem_cons_of_mem _ member)
      have first := whole piece List.mem_cons_self
      cases piece with
      | char c =>
          obtain ⟨some, ordinary⟩ := first
          have same : memory address = chr c := here.1
          refine (prints_char (by rwa [same]) (by rwa [same])).mpr ⟨?_, ?_⟩
          · exact congrArg (fun c => [c]) same.symm
          · exact ih stale behind later matching passed
      | conversion spec =>
          cases args with
          | nil => exact matching.elim
          | cons arg args =>
              obtain ⟨matches_, matching⟩ := matching
              obtain ⟨num', after, converts⟩ :=
                converts_whole stale first here (passed 0) matches_
              refine (prints_conversion here.1 converts).mpr ⟨rfl, ?_⟩
              refine ih after behind later matching (fun k => ?_)
              rw [Nat.add_assoc, Nat.add_comm 1 k]
              exact passed (k + 1)

end

/-- What a call puts. -/
theorem putBy_whole {memory : CharMemory} {format : BitVec 32} {pieces : List Piece}
    {args : List Argument} (whole : ∀ piece ∈ pieces, piece.Whole)
    (bytes : BytesAt memory format (formatBytes pieces ++ [0]))
    (matching : ArgsMatch memory pieces args)
    : Settles (fun fuel => putBy fuel memory format (args.map Argument.word))
        (putText pieces args) := by
  have prints : Prints memory (fun index => (args.map Argument.word).getD index 0) ⟨format, 0, 0⟩
      (chunksOf pieces args) :=
    prints_whole stale_start whole bytes matching (fun k => by rw [Nat.zero_add])
  exact Settles.map prints List.flatten

end DeadKernel
