import DeadKernel.Shared.Stdlib

/-! Strings in memory and their comparison. `strncmp` tells from what is left of `n` whether a loop
stopped early, and it also stops early at the end of two equal strings.
-/

namespace DeadKernel

-----------------------------------------------------------------------------------------
-- Characters in memory
-----------------------------------------------------------------------------------------

abbrev CharMemory := BitVec 32 → UInt8

/-- The bytes stand in memory from an address on. -/
def BytesAt (memory : CharMemory) : BitVec 32 → List UInt8 → Prop
  | _, [] => True
  | address, byte :: rest => memory address = byte ∧ BytesAt memory (address + 1) rest

instance BytesAt.decidable (memory : CharMemory)
    : ∀ address bytes, Decidable (BytesAt memory address bytes)
  | _, [] => isTrue trivial
  | address, byte :: rest =>
      have := BytesAt.decidable memory (address + 1) rest
      inferInstanceAs (Decidable (memory address = byte ∧ BytesAt memory (address + 1) rest))

/-- A NUL-terminated string. -/
structure StringAt (memory : CharMemory) (address : BitVec 32) (text : List UInt8) : Prop where
  bytes : BytesAt memory address (text ++ [0])
  noNul : 0 ∉ text

/-- A memory that holds a string at its bottom. -/
def stringMemory (text : List Char) : CharMemory := fun address =>
  (text.map chr).getD address.toNat 0

section Memory

variable {memory : CharMemory} {address : BitVec 32}

theorem address_add (address : BitVec 32) (count : Nat)
    : address + 1 + BitVec.ofNat 32 count = address + BitVec.ofNat 32 (count + 1) := by
  rw [BitVec.add_assoc, Nat.add_comm count, BitVec.ofNat_add]
  rfl

theorem bytesAt_append {front back : List UInt8}
    : BytesAt memory address (front ++ back)
      ↔ BytesAt memory address front
        ∧ BytesAt memory (address + BitVec.ofNat 32 front.length) back := by
  induction front generalizing address with
  | nil => simp [BytesAt]
  | cons byte rest ih =>
      rw [List.cons_append, BytesAt, BytesAt, ih, address_add, and_assoc, List.length_cons]

theorem bytesAt_get {bytes : List UInt8} (stands : BytesAt memory address bytes) (k : Nat)
    (less : k < bytes.length)
    : memory (address + BitVec.ofNat 32 k) = bytes.get ⟨k, less⟩ := by
  induction bytes generalizing address k with
  | nil => exact absurd less (Nat.not_lt_zero k)
  | cons byte rest ih =>
      cases k with
      | zero => exact (congrArg memory (BitVec.add_zero address)).trans stands.1
      | succ k =>
          rw [← address_add, ih stands.2 k (Nat.lt_of_succ_lt_succ less)]
          rfl

theorem StringAt.nul (string : StringAt memory address []) : memory address = 0 := string.bytes.1

theorem StringAt.cons {c : UInt8} {rest : List UInt8}
    (string : StringAt memory address (c :: rest))
    : memory address = c ∧ c ≠ 0 ∧ StringAt memory (address + 1) rest := by
  obtain ⟨⟨here, later⟩, noNul⟩ := string
  rw [List.mem_cons, not_or] at noNul
  exact ⟨here, Ne.symm noNul.1, later, noNul.2⟩

end Memory

-----------------------------------------------------------------------------------------
-- strcmp and strncmp
-----------------------------------------------------------------------------------------

/-- `strcmp`; no result stands for too few rounds. -/
def strcmp (memory : CharMemory) : Nat → BitVec 32 → BitVec 32 → Option Int
  | 0, _, _ => none
  | fuel + 1, str1, str2 =>
      if memory str1 = 0 ∨ memory str1 ≠ memory str2 then
        some ((memory str1).toNat - (memory str2).toNat)
      else strcmp memory fuel (str1 + 1) (str2 + 1)

/-- What the loop of `strncmp` leaves of `n`, and what it read. -/
structure Comparison where
  left : Nat
  reads1 : List (BitVec 32)
  reads2 : List (BitVec 32)

def strncmpLoop (memory : CharMemory) : Nat → BitVec 32 → BitVec 32 → Comparison
  | 0, _, _ => ⟨0, [], []⟩
  | n + 1, str1, str2 =>
      if memory str1 = 0 then ⟨n + 1, [str1], []⟩
      else if memory str1 ≠ memory str2 then ⟨n + 1, [str1], [str2]⟩
      else
        let later := strncmpLoop memory n (str1 + 1) (str2 + 1)
        ⟨later.left, str1 :: later.reads1, str2 :: later.reads2⟩

/-- `strncmp`: `n != 0`. -/
def strncmp (memory : CharMemory) (str1 str2 n : BitVec 32) : Int :=
  if (strncmpLoop memory n.toNat str1 str2).left ≠ 0 then 1 else 0

/-- The index is not beyond `n` characters, the first NUL and the first difference. -/
structure Reached (a b : List UInt8) (n k : Nat) : Prop where
  bound : k < n
  left : k ≤ a.length
  right : k ≤ b.length
  same : a.take k = b.take k

/-- `strncmp` agrees with `strcmp` on the first `n` characters, which are at `cut1` and `cut2`, and
reads no more than it has to.
-/
structure ComparesBounded (memory : CharMemory) (str1 str2 n : BitVec 32) (a b : List UInt8)
    (cuts : CharMemory) (cut1 cut2 : BitVec 32)
    : Prop where
  agrees : ∃ difference, (∀ fuel, n.toNat < fuel → strcmp cuts fuel cut1 cut2 = some difference)
    ∧ (strncmp memory str1 str2 n = 0 ↔ difference = 0)
  reads1 : ∀ address ∈ (strncmpLoop memory n.toNat str1 str2).reads1,
    ∃ k, address = str1 + BitVec.ofNat 32 k ∧ Reached a b n.toNat k
  reads2 : ∀ address ∈ (strncmpLoop memory n.toNat str1 str2).reads2,
    ∃ k, address = str2 + BitVec.ofNat 32 k ∧ Reached a b n.toNat k

section Comparing

variable {memory : CharMemory} {str1 str2 : BitVec 32} {a b : List UInt8}

theorem memory_ne_zero {c : UInt8} (string : StringAt memory str1 (c :: a))
    : memory str1 ≠ 0 := by
  obtain ⟨here, some, -⟩ := string.cons
  rwa [here]

/-- `strcmp` returns, and gives 0 for equal strings only, by induction over both. -/
theorem strcmp_spec (left : StringAt memory str1 a) (right : StringAt memory str2 b)
    : ∃ difference, (∀ fuel, a.length < fuel → strcmp memory fuel str1 str2 = some difference)
        ∧ (difference = 0 ↔ a = b) := by
  induction a generalizing b str1 str2 with
  | nil =>
      refine ⟨(memory str1).toNat - (memory str2).toNat, fun fuel enough => ?_, ?_⟩
      · obtain ⟨fuel, rfl⟩ : ∃ more, fuel = more + 1 := ⟨fuel - 1, by omega⟩
        rw [strcmp, if_pos (.inl left.nul)]
      · rw [left.nul]
        cases b with
        | nil => simp [right.nul]
        | cons d rest =>
            have some := memory_ne_zero right
            rw [ne_eq, ← UInt8.toNat_inj] at some
            simp
            simpa using some
  | cons c a ih =>
      obtain ⟨here, some, later⟩ := left.cons
      by_cases same : memory str1 = memory str2
      · cases b with
        | nil =>
            rw [right.nul, here] at same
            contradiction
        | cons d b =>
            obtain ⟨there, -, laterRight⟩ := right.cons
            obtain ⟨difference, returns, zero⟩ := ih later laterRight
            refine ⟨difference, fun fuel enough => ?_, ?_⟩
            · obtain ⟨fuel, rfl⟩ : ∃ more, fuel = more + 1 := ⟨fuel - 1, by omega⟩
              have goesOn : ¬ (memory str1 = 0 ∨ memory str1 ≠ memory str2) := by
                rw [not_or, not_not]
                exact ⟨memory_ne_zero left, same⟩
              rw [strcmp, if_neg goesOn, returns fuel (by simpa using enough)]
            · rw [zero, List.cons.injEq, ← here, ← there]
              simp [same]
      · refine ⟨(memory str1).toNat - (memory str2).toNat, fun fuel enough => ?_, ?_⟩
        · obtain ⟨fuel, rfl⟩ : ∃ more, fuel = more + 1 := ⟨fuel - 1, by omega⟩
          rw [strcmp, if_pos (.inr same)]
        · have differ : (memory str1).toNat ≠ (memory str2).toNat :=
            fun equal => same (UInt8.toNat_inj.mp equal)
          have other : c :: a ≠ b := by
            rintro rfl
            exact same (here.trans right.cons.1.symm)
          simp only [other, iff_false]
          omega

/-- The second string alone ends the loop, and `strcmp` gives 0 exactly if its bytes stand first. -/
theorem strcmp_bytes (right : StringAt memory str2 b) {fuel : Nat} (enough : b.length < fuel)
    : ∃ difference, strcmp memory fuel str1 str2 = some difference
        ∧ (difference = 0 ↔ BytesAt memory str1 (b ++ [0])) := by
  induction b generalizing fuel str1 str2 with
  | nil =>
      obtain ⟨fuel, rfl⟩ : ∃ more, fuel = more + 1 := ⟨fuel - 1, by omega⟩
      refine ⟨_, by rw [strcmp, if_pos (by rw [right.nul]; exact em _)], ?_⟩
      rw [right.nul, List.nil_append, BytesAt, BytesAt, and_true, ← UInt8.toNat_inj]
      simp only [UInt8.toNat_zero]
      omega
  | cons d b ih =>
      obtain ⟨fuel, rfl⟩ : ∃ more, fuel = more + 1 := ⟨fuel - 1, by omega⟩
      obtain ⟨there, some, later⟩ := right.cons
      rw [List.cons_append, BytesAt, strcmp]
      by_cases same : memory str1 = d
      · rw [there, same, if_neg (by simp [some])]
        obtain ⟨difference, returns, zero⟩ := ih later (Nat.lt_of_succ_lt_succ enough)
        exact ⟨difference, returns, by rw [zero, and_iff_right rfl]⟩
      · refine ⟨_, by rw [there, if_pos (.inr same)], iff_of_false ?_ fun bytes => same bytes.1⟩
        intro zero
        exact same (UInt8.toNat_inj.mp (by omega))

/-- So does the first string alone. -/
theorem strcmp_left (left : StringAt memory str1 a) {fuel : Nat} (enough : a.length < fuel)
    : ∃ difference, strcmp memory fuel str1 str2 = some difference
        ∧ (difference = 0 ↔ BytesAt memory str2 (a ++ [0])) := by
  induction a generalizing fuel str1 str2 with
  | nil =>
      obtain ⟨fuel, rfl⟩ : ∃ more, fuel = more + 1 := ⟨fuel - 1, by omega⟩
      refine ⟨_, by rw [strcmp, if_pos (.inl left.nul)], ?_⟩
      rw [left.nul, List.nil_append, BytesAt, BytesAt, and_true, ← UInt8.toNat_inj]
      simp only [UInt8.toNat_zero]
      omega
  | cons c a ih =>
      obtain ⟨fuel, rfl⟩ : ∃ more, fuel = more + 1 := ⟨fuel - 1, by omega⟩
      obtain ⟨here, some, later⟩ := left.cons
      rw [List.cons_append, BytesAt, strcmp]
      by_cases same : memory str2 = c
      · rw [here, same, if_neg (by simp [some])]
        obtain ⟨difference, returns, zero⟩ := ih later (Nat.lt_of_succ_lt_succ enough)
        exact ⟨difference, returns, by rw [zero, and_iff_right rfl]⟩
      · refine ⟨_, by rw [here, if_pos (.inr (Ne.symm same))],
          iff_of_false ?_ fun bytes => same bytes.1⟩
        intro zero
        exact same (UInt8.toNat_inj.mp (by omega))

theorem Reached.first {n : Nat} : Reached a b (n + 1) 0 where
  bound := Nat.succ_pos n
  left := Nat.zero_le _
  right := Nat.zero_le _
  same := rfl

theorem reached_first {n : Nat} {read start : BitVec 32} (mem : read ∈ [start])
    : ∃ k, read = start + BitVec.ofNat 32 k ∧ Reached a b (n + 1) k :=
  ⟨0, by simpa using mem, Reached.first⟩

theorem Reached.next {n k : Nat} (c : UInt8) (reached : Reached a b n k)
    : Reached (c :: a) (c :: b) (n + 1) (k + 1) where
  bound := Nat.succ_lt_succ reached.bound
  left := Nat.succ_le_succ reached.left
  right := Nat.succ_le_succ reached.right
  same := by rw [List.take_succ_cons, List.take_succ_cons, reached.same]

/-- The loop of `strncmp`, by induction over `n`: nothing is left for `n` equal characters, and
each read is at an index that has been reached.
-/
theorem strncmpLoop_spec (left : StringAt memory str1 a) (right : StringAt memory str2 b)
    (n : Nat)
    : ((strncmpLoop memory n str1 str2).left = 0 ↔ n ≤ a.length ∧ a.take n = b.take n)
      ∧ (∀ address ∈ (strncmpLoop memory n str1 str2).reads1,
        ∃ k, address = str1 + BitVec.ofNat 32 k ∧ Reached a b n k)
      ∧ ∀ address ∈ (strncmpLoop memory n str1 str2).reads2,
        ∃ k, address = str2 + BitVec.ofNat 32 k ∧ Reached a b n k := by
  induction n generalizing a b str1 str2 with
  | zero => simp [strncmpLoop]
  | succ n ih =>
      rw [strncmpLoop]
      cases a with
      | nil =>
          rw [if_pos left.nul]
          exact ⟨by simp, fun _ => reached_first, by simp⟩
      | cons c a =>
          rw [if_neg (memory_ne_zero left)]
          obtain ⟨here, -, laterLeft⟩ := left.cons
          by_cases same : memory str1 = memory str2
          · rw [if_neg (not_not.mpr same)]
            cases b with
            | nil => exact absurd (same.trans right.nul) (memory_ne_zero left)
            | cons d b =>
                obtain ⟨there, -, laterRight⟩ := right.cons
                obtain rfl : c = d := here.symm.trans (same.trans there)
                obtain ⟨nothing, reads1, reads2⟩ := ih laterLeft laterRight
                have behind {start read : BitVec 32}
                    (found : ∃ k, read = start + 1 + BitVec.ofNat 32 k ∧ Reached a b n k)
                    : ∃ k, read = start + BitVec.ofNat 32 k
                      ∧ Reached (c :: a) (c :: b) (n + 1) k := by
                  obtain ⟨k, rfl, reached⟩ := found
                  exact ⟨k + 1, address_add start k, reached.next c⟩
                refine ⟨?_, fun read mem => ?_, fun read mem => ?_⟩
                · dsimp only
                  rw [nothing]
                  simp
                · rcases List.mem_cons.mp mem with rfl | mem
                  · exact reached_first List.mem_cons_self
                  · exact behind (reads1 read mem)
                · rcases List.mem_cons.mp mem with rfl | mem
                  · exact reached_first List.mem_cons_self
                  · exact behind (reads2 read mem)
          · rw [if_pos same]
            refine ⟨?_, fun _ => reached_first, fun _ => reached_first⟩
            have differ : (c :: a).take (n + 1) ≠ b.take (n + 1) := by
              intro equal
              cases b with
              | nil => contradiction
              | cons d b =>
                  rw [List.take_succ_cons, List.take_succ_cons, List.cons.injEq] at equal
                  exact same (here.trans (equal.1.trans right.cons.1.symm))
            exact iff_of_false (Nat.succ_ne_zero n) (fun both => differ both.2)

/-- `strncmp` gives 0 only for `n` equal characters, none of which is NUL. -/
theorem strncmp_zero_iff {n : BitVec 32}
    : strncmp memory str1 str2 n = 0
      ↔ ∀ k < n.toNat, memory (str1 + BitVec.ofNat 32 k) ≠ 0
        ∧ memory (str1 + BitVec.ofNat 32 k) = memory (str2 + BitVec.ofNat 32 k) := by
  have nothing (count : Nat) {str1 str2 : BitVec 32}
      : (strncmpLoop memory count str1 str2).left = 0
        ↔ ∀ k < count, memory (str1 + BitVec.ofNat 32 k) ≠ 0
          ∧ memory (str1 + BitVec.ofNat 32 k) = memory (str2 + BitVec.ofNat 32 k) := by
    induction count generalizing str1 str2 with
    | zero => simp [strncmpLoop]
    | succ count ih =>
        have here (address : BitVec 32) : address + BitVec.ofNat 32 0 = address :=
          BitVec.add_zero address
        rw [Nat.forall_lt_succ_left, here, here, strncmpLoop]
        split
        case isTrue nul => simp [nul]
        case isFalse some =>
          split
          case isTrue differ => simp [differ]
          case isFalse same =>
            simp only [← address_add]
            rw [ih, and_iff_right ⟨some, not_not.mp same⟩]
  rw [strncmp, ← nothing]
  split
  case isTrue some => exact iff_of_false one_ne_zero some
  case isFalse none_ => exact iff_of_true rfl (not_not.mp none_)

/-- `strncmp` compares as it should exactly if the strings are not equal and shorter than `n`. -/
theorem strncmp_agrees_iff {cuts : CharMemory} {cut1 cut2 : BitVec 32} (n : BitVec 32)
    (left : StringAt memory str1 a) (right : StringAt memory str2 b)
    (leftCut : StringAt cuts cut1 (a.take n.toNat))
    (rightCut : StringAt cuts cut2 (b.take n.toNat))
    : ComparesBounded memory str1 str2 n a b cuts cut1 cut2
      ↔ ¬ (a = b ∧ a.length < n.toNat) := by
  obtain ⟨difference, returns, zero⟩ := strcmp_spec leftCut rightCut
  obtain ⟨nothing, reads1, reads2⟩ := strncmpLoop_spec left right n.toNat
  have enough {fuel : Nat} (more : n.toNat < fuel) : (a.take n.toNat).length < fuel :=
    (List.length_take_le _ _).trans_lt more
  have agrees : (strncmp memory str1 str2 n = 0 ↔ difference = 0)
      ↔ ¬ (a = b ∧ a.length < n.toNat) := by
    have result : strncmp memory str1 str2 n = 0
        ↔ n.toNat ≤ a.length ∧ a.take n.toNat = b.take n.toNat := by
      rw [← nothing, strncmp]
      split <;> simp_all
    rw [result, zero]
    constructor
    · rintro same ⟨rfl, short⟩
      exact absurd (same.mpr rfl).1 (by omega)
    · intro fine
      refine ⟨fun both => both.2, fun equal => ⟨?_, equal⟩⟩
      by_contra short
      refine fine ⟨?_, by omega⟩
      have length := congrArg List.length equal
      rw [List.length_take, List.length_take] at length
      rwa [List.take_of_length_le (by omega), List.take_of_length_le (by omega)] at equal
  constructor
  · rintro ⟨⟨other, also, same⟩, -, -⟩
    have unique : other = difference := Option.some.inj
      ((also (n.toNat + 1) (by omega)).symm.trans (returns (n.toNat + 1) (enough (by omega))))
    exact agrees.mp (unique ▸ same)
  · intro fine
    exact ⟨⟨difference, fun fuel more => returns fuel (enough more), agrees.mpr fine⟩, reads1,
      reads2⟩

end Comparing

/-- "ab" and "abc" differ within five characters, and "ab" is read up to its NUL. -/
theorem strncmp_agrees_prefix
    : ComparesBounded (stringMemory ['a', 'b', '\x00', 'a', 'b', 'c']) 0 3 5
        [chr 'a', chr 'b'] [chr 'a', chr 'b', chr 'c']
        (stringMemory ['a', 'b', '\x00', 'a', 'b', 'c']) 0 3 := by
  have left : StringAt (stringMemory ['a', 'b', '\x00', 'a', 'b', 'c']) 0 [chr 'a', chr 'b'] :=
    ⟨by decide, by decide⟩
  have right : StringAt (stringMemory ['a', 'b', '\x00', 'a', 'b', 'c']) 3
      [chr 'a', chr 'b', chr 'c'] :=
    ⟨by decide, by decide⟩
  exact (strncmp_agrees_iff 5 left right left right).mpr (by decide)

/-- "ab" compared with itself within five characters gives 1. -/
theorem strncmp_equal_strings
    : ¬ ComparesBounded (stringMemory ['a', 'b']) 0 0 5 [chr 'a', chr 'b'] [chr 'a', chr 'b']
        (stringMemory ['a', 'b']) 0 0 := by
  rintro ⟨⟨difference, returns, same⟩, -, -⟩
  have zero : strcmp (stringMemory ['a', 'b']) 6 0 0 = some 0 := by decide
  have one : strncmp (stringMemory ['a', 'b']) 0 0 5 ≠ 0 := by decide
  have none_ : difference = 0 := Option.some.inj ((returns 6 (by decide)).symm.trans zero)
  exact one (same.mpr none_)

end DeadKernel
