import DeadKernel.Io.Screen
import DeadKernel.Shared.Strings

/-! `printf`, as the kernel and its modules have it, and `serialprintf`. The three have the same
body and differ in where they put a character.
-/

namespace DeadKernel

/-- `while (*p) ... *p++`: the characters of a string. -/
def stringFrom (memory : CharMemory) : Nat → BitVec 32 → Option (List UInt8)
  | 0, _ => none
  | fuel + 1, p =>
      if memory p = 0 then some [] else (stringFrom memory fuel (p + 1)).map (memory p :: ·)

/-- The text for a null pointer. -/
def nullText : List UInt8 := ['(', 'n', 'u', 'l', 'l', ')'].map chr

/-- `while (num--) put(sym)`, which leaves -1 in `num`. -/
def countDown (sym : UInt8) (num : BitVec 8) : List UInt8 × BitVec 8 :=
  (List.replicate num.toNat sym, -1)

/-- The label `string`: what is put, and `num` behind it. -/
def putString (sym : UInt8) (padRight : Bool) (text : List UInt8) (num : BitVec 8)
    : List UInt8 × BitVec 8 :=
  let length := (BitVec.ofNat 32 text.length).toInt
  let front : List UInt8 × BitVec 8 :=
    if num = 0 then ([], num)
    else
      let num := num - BitVec.ofInt 8 (if num.toInt < length then num.toInt else length)
      if padRight then ([], num) else countDown sym num
  let back : List UInt8 × BitVec 8 :=
    if front.2 ≠ 0 ∧ padRight then countDown sym front.2 else ([], front.2)
  (front.1 ++ text ++ back.1, back.2)

/-- `format`, `arg` and `num`, the variables that outlive a specification. -/
structure Position where
  format : BitVec 32
  arg : Nat
  num : BitVec 8

/-- The character read last, which may be followed by `*format++`. -/
structure Reading where
  c : UInt8
  format : BitVec 32

def Reading.next (memory : CharMemory) (reading : Reading) : Reading :=
  ⟨memory reading.format, reading.format + 1⟩

/-- `while (c >= '1' && c <= '9')`, in 8 bits. -/
def readWidth (memory : CharMemory) : Nat → BitVec 8 → Reading → Option (BitVec 8 × Reading)
  | 0, _, _ => none
  | fuel + 1, num, reading =>
      if chr '1' ≤ reading.c ∧ reading.c ≤ chr '9' then
        readWidth memory fuel (num * 10 + (reading.c - chr '0').toBitVec) (reading.next memory)
      else some (num, reading)

/-- The label `back`: what one specification puts. The character in front of `c` tells whether `c`
follows the percent sign.
-/
def convert (memory : CharMemory) (args : Nat → BitVec 32)
    : Nat → UInt8 → Bool → Nat → BitVec 8 → Reading → Option (List UInt8 × Position)
  | 0, _, _, _, _, _ => none
  | fuel + 1, sym, padRight, arg, num, reading =>
      let c := reading.c
      if c = chr 'd' ∨ c = chr 'u' ∨ c = chr 'x' then do
        let text ← itoa fuel (if c = chr 'x' then 16 else 10) (args arg)
        let put := putString sym padRight text num
        some (put.1, ⟨reading.format, arg + 1, put.2⟩)
      else if c = chr 's' then do
        let p := args arg
        let text ← if p = 0 then some nullText else stringFrom memory fuel p
        let put := putString sym padRight text num
        some (put.1, ⟨reading.format, arg + 1, put.2⟩)
      else if c = chr 'c' then
        some ([⟨(args arg).setWidth 8⟩], ⟨reading.format, arg + 1, num⟩)
      else if memory (reading.format - 2) = chr '%' then do
        let filled := c = chr '0' ∨ c = chr ' ' ∨ c = chr '.'
        let sym := if filled then c else sym
        let reading := if filled then reading.next memory else reading
        let right := reading.c = chr '-'
        let padRight := if right then true else padRight
        let reading := if right then reading.next memory else reading
        let (num, reading) ← readWidth memory fuel 0 reading
        convert memory args fuel sym padRight arg num reading
      else
        some ([⟨(args arg).setWidth 8⟩], ⟨reading.format, arg + 1, num⟩)

/-- The outer loop: what each of its rounds puts. -/
def formatted (memory : CharMemory) (args : Nat → BitVec 32)
    : Nat → Position → Option (List (List UInt8))
  | 0, _ => none
  | fuel + 1, position =>
      let c := memory position.format
      let format := position.format + 1
      if c = 0 then some []
      else if c ≠ chr '%' then
        (formatted memory args fuel { position with format }).map ([c] :: ·)
      else do
        let reading : Reading := ⟨memory format, format + 1⟩
        let (put, position) ← convert memory args fuel (chr ' ') false position.arg position.num
          reading
        (formatted memory args fuel position).map (put :: ·)

/-- What a call with the format at `format` puts. -/
def formattedAt (fuel : Nat) (memory : CharMemory) (format : BitVec 32)
    (args : Nat → BitVec 32)
    : Option (List (List UInt8)) :=
  formatted memory args fuel ⟨format, 0, 0⟩

def printf (fuel : Nat) (memory : CharMemory) (format : BitVec 32) (args : Nat → BitVec 32)
    (screen : Screen)
    : Option Screen :=
  (formattedAt fuel memory format args).map
    (fun put => put.flatten.foldl (fun screen c => screenPutChar c screen) screen)

/-- `serialprintf`: the bytes that go out of the port. -/
def serialprintf (fuel : Nat) (memory : CharMemory) (format : BitVec 32)
    (args : Nat → BitVec 32)
    : Option (List UInt8) :=
  (formattedAt fuel memory format args).map List.flatten

end DeadKernel
