import DeadKernel.Memory.Heap

/-! How a heap lies in memory: the flags in a header word, the walk over the chunks, and the
words that the steps of the allocator rewrite.
-/

namespace DeadKernel

open Words Rings

-----------------------------------------------------------------------------------------
-- Header words
-----------------------------------------------------------------------------------------

/-- A size has its three lowest bits free for the flags. -/
theorem or_flags {size flags : Nat} (aligned : size % 8 = 0) (small : flags < 8)
    : size ||| flags = size + flags := by
  have shape : size = 2 ^ 3 * (size / 8) := by omega
  rw [shape, ← Nat.two_pow_add_eq_or_of_lt small]

theorem clearFlags_eq {word : Nat} (h : word < wordSize) : clearFlags word = word / 8 * 8 :=
  and_clear_low3 h

theorem headWord_lt (m : Mem) (chunk : Nat) : headWord m chunk < wordSize :=
  load32_lt m (chunk + 4)

theorem chunksize_eq (m : Mem) (chunk : Nat) : chunksize m chunk = headWord m chunk / 8 * 8 :=
  clearFlags_eq (headWord_lt m chunk)

theorem and_pinuse (word : Nat) : word &&& pinuseBit = word % 2 :=
  Nat.and_one_is_mod word

theorem and_cinuse (word : Nat) : word &&& cinuseBit = word / 2 % 2 * 2 := by
  have bit : word &&& 2 ^ 1 = (word.testBit 1).toNat * 2 ^ 1 := Nat.and_two_pow word 1
  rw [Nat.toNat_testBit] at bit
  exact bit

theorem pinuse_eq (m : Mem) (chunk : Nat)
    : pinuse m chunk = decide (headWord m chunk % 2 = 1) := by
  rw [pinuse, and_pinuse, Bool.eq_iff_iff, decide_eq_true_eq, decide_eq_true_eq]
  omega

theorem cinuse_eq (m : Mem) (chunk : Nat)
    : cinuse m chunk = decide (headWord m chunk / 2 % 2 = 1) := by
  rw [cinuse, and_cinuse, Bool.eq_iff_iff, decide_eq_true_eq, decide_eq_true_eq]
  omega

/-- `ok_inuse` looks for anything but the pattern of a free chunk behind one in use. -/
theorem okInuse_eq (m : Mem) (chunk : Nat)
    : okInuse m chunk = (cinuse m chunk || ! pinuse m chunk) := by
  have bits : headWord m chunk &&& inuseBits = headWord m chunk % 4 :=
    Nat.and_two_pow_sub_one_eq_mod (headWord m chunk) 2
  rw [okInuse, bits, cinuse_eq, pinuse_eq, Bool.eq_iff_iff]
  simp only [decide_eq_true_eq, Bool.or_eq_true, Bool.not_eq_true', decide_eq_false_iff_not,
    pinuseBit]
  omega

/-- `head |= PINUSE_BIT`. -/
theorem or_pinuse (word : Nat) : word ||| pinuseBit = word / 2 * 2 + 1 := by
  have even (half : Nat) : half * 2 ||| 1 = half * 2 + 1 := by
    have sum : 2 ^ 1 * half + 1 = 2 ^ 1 * half ||| 1 := Nat.two_pow_add_eq_or_of_lt (by decide) half
    have shape : half * 2 = 2 ^ 1 * half := Nat.mul_comm half 2
    rw [shape, sum]
  rcases Nat.mod_two_eq_zero_or_one word with low | low
  · have shape : word = word / 2 * 2 := by omega
    calc word ||| 1 = word / 2 * 2 ||| 1 := congrArg (· ||| 1) shape
      _ = word / 2 * 2 + 1 := even _
  · have shape : word = word / 2 * 2 ||| 1 := by
      rw [even]
      omega
    calc word ||| 1 = (word / 2 * 2 ||| 1) ||| 1 := congrArg (· ||| 1) shape
      _ = word / 2 * 2 ||| 1 := by rw [Nat.or_assoc, Nat.or_self]
      _ = word / 2 * 2 + 1 := even _

/-- The word that `set_inuse` stores. -/
theorem inuseWord_eq {word size : Nat} (aligned : size % 8 = 0)
    : (word &&& pinuseBit) ||| cinuseBit ||| size = size + (2 + word % 2) := by
  have low : word % 2 ||| 2 = 2 + word % 2 := by
    rcases Nat.mod_two_eq_zero_or_one word with even | odd
    · rw [even]
      rfl
    · rw [odd]
      rfl
  rw [and_pinuse, cinuseBit, low, Nat.or_comm, or_flags aligned (by omega)]

/-- Reading a header that was just written. -/
theorem headWord_set {m : Mem} {chunk word : Nat} (h : word < wordSize)
    : headWord (setHeadWord m chunk word) chunk = word :=
  load32_store32 h

theorem headWord_set_other {m : Mem} {chunk other word : Nat}
    (h : other + 4 ≤ chunk ∨ chunk + 4 ≤ other)
    : headWord (setHeadWord m chunk word) other = headWord m other :=
  load32_store32_other (by omega)

/-- A header whose word is untouched reads as before. -/
theorem headWord_of_changed {touched : Nat → Prop} {m m' : Mem} {chunk : Nat}
    (h : ChangedOnly touched m m') (out : ∀ byte, wordAt (chunk + 4) byte → ¬ touched byte)
    : headWord m' chunk = headWord m chunk :=
  h.load32 (fun byte low high => out byte ⟨low, high⟩)

theorem setHeadWord_changed (m : Mem) (chunk word : Nat)
    : ChangedOnly (wordAt (chunk + 4)) m (setHeadWord m chunk word) :=
  .store (fun _ low high => ⟨low, high⟩)

/-- `set_pinuse` touches one header only. -/
theorem setPinuse_spec (m : Mem) (chunk : Nat)
    : headWord (setPinuse chunk m) chunk = headWord m chunk / 2 * 2 + 1
      ∧ ChangedOnly (wordAt (chunk + 4)) m (setPinuse chunk m) := by
  have bound := headWord_lt m chunk
  rw [setPinuse, or_pinuse]
  exact ⟨headWord_set (by simp only [wordSize] at *; omega), setHeadWord_changed _ _ _⟩

/-- `set_pinuse` changes no header but that of its own chunk. -/
theorem setPinuse_other (m : Mem) {chunk other : Nat} (off : other + 4 ≤ chunk ∨ chunk + 4 ≤ other)
    : headWord (setPinuse chunk m) other = headWord m other :=
  headWord_of_changed (setPinuse_spec m chunk).2
    (fun byte own on => by simp only [wordAt] at own on; omega)

/-- `set_inuse` writes the chunk's own header, keeping PINUSE, and marks the next one. -/
theorem setInuse_eq (m : Mem) {chunk size : Nat} (aligned : size % 8 = 0)
    (fits : chunk + size < wordSize)
    : setInuse chunk size m
      = setPinuse (chunk + size) (setHeadWord m chunk (size + (2 + headWord m chunk % 2))) := by
  rw [setInuse, inuseWord_eq aligned, chunkPlusOffset, u32_of_lt fits]

/-- `set_inuse` touches the chunk's own header and the next one. -/
theorem setInuse_changed (m : Mem) {chunk size : Nat} (aligned : size % 8 = 0)
    (fits : chunk + size < wordSize)
    : ChangedOnly (fun byte => wordAt (chunk + 4) byte ∨ wordAt (chunk + size + 4) byte) m
        (setInuse chunk size m) := by
  rw [setInuse_eq m aligned fits]
  exact ((setHeadWord_changed m chunk _).mono (fun _ => .inl)).trans
    ((setPinuse_spec _ (chunk + size)).2.mono (fun _ => .inr))

/-- The header that `set_inuse` leaves in the chunk. -/
theorem setInuse_header (m : Mem) (chunk size : Nat) (large : 4 ≤ size) (aligned : size % 8 = 0)
    (fits : chunk + size < wordSize)
    : headWord (setInuse chunk size m) chunk = size + (2 + headWord m chunk % 2) := by
  rw [setInuse_eq m aligned fits, setPinuse_other _ (Or.inl (by omega)),
    headWord_set (by simp only [wordSize] at *; omega)]

/-- What `set_inuse` leaves of the header behind the chunk. -/
theorem setInuse_next (m : Mem) (chunk size : Nat) (large : 4 ≤ size) (aligned : size % 8 = 0)
    (fits : chunk + size < wordSize)
    : headWord (setInuse chunk size m) (chunk + size) = headWord m (chunk + size) / 2 * 2 + 1 := by
  rw [setInuse_eq m aligned fits, (setPinuse_spec _ _).1, headWord_set_other (by omega)]

/-- The header that `set_size_and_pinuse` writes is that of a free chunk. -/
theorem setSizeAndPinuse_spec (m : Mem) (chunk : Nat) {size : Nat} (aligned : size % 8 = 0)
    (small : size < wordSize)
    : headWord (setSizeAndPinuse chunk size m) chunk = size + 1
      ∧ ChangedOnly (wordAt (chunk + 4)) m (setSizeAndPinuse chunk size m) := by
  have word : size ||| pinuseBit = size + 1 := or_flags aligned (by decide)
  have fits : size + 1 < wordSize := by
    simp only [wordSize] at *
    omega
  rw [setSizeAndPinuse, word]
  exact ⟨headWord_set fits, setHeadWord_changed _ _ _⟩

-----------------------------------------------------------------------------------------
-- The walk
-----------------------------------------------------------------------------------------

/-- The bytes of a chunk, from one `prevFoot` word up to the next. -/
structure Span where
  addr : Nat
  size : Nat
deriving DecidableEq

def Span.stop (s : Span) : Nat := s.addr + s.size

/-- The list node of the chunk. -/
def Span.node (s : Span) : Nat := nodeOf s.addr

/-- A chunk as the walk over the heap meets it, with the CINUSE and PINUSE flags. -/
structure Block extends Span where
  used : Bool
  prevUsed : Bool
deriving DecidableEq

/-- The header word of the chunk. -/
def Block.header (b : Block) : Nat := b.size + (b.used.toNat * 2 + b.prevUsed.toNat)

/-- Walking from `start` in steps of the chunk sizes meets `blocks` and reaches `stop`. -/
def Tiles (m : Mem) (start : Nat) : List Block → Nat → Prop
  | [], stop => start = stop
  | b :: rest, stop =>
      b.addr = start ∧ minChunkSize ≤ b.size ∧ b.size % 8 = 0
        ∧ headWord m b.addr = b.header ∧ Tiles m b.stop rest stop

section Headers

variable {m : Mem} {chunk : Nat} {b : Block}

theorem chunksize_of_header (h : headWord m chunk = b.header) (aligned : b.size % 8 = 0)
    : chunksize m chunk = b.size := by
  have used := Bool.toNat_le b.used
  have prev := Bool.toNat_le b.prevUsed
  rw [chunksize_eq, h, Block.header]
  omega

theorem cinuse_of_header (h : headWord m chunk = b.header) (aligned : b.size % 8 = 0)
    : cinuse m chunk = b.used := by
  rw [cinuse_eq, h, Block.header, Bool.eq_iff_iff, decide_eq_true_eq]
  cases b.used <;> cases b.prevUsed <;> simp <;> omega

theorem pinuse_of_header (h : headWord m chunk = b.header) (aligned : b.size % 8 = 0)
    : pinuse m chunk = b.prevUsed := by
  rw [pinuse_eq, h, Block.header, Bool.eq_iff_iff, decide_eq_true_eq]
  cases b.used <;> cases b.prevUsed <;> simp <;> omega

end Headers

/-- A walk splits at any of its chunks, by induction over the front. -/
theorem tiles_append {m : Mem} {start stop : Nat} (front back : List Block)
    : Tiles m start (front ++ back) stop
      ↔ ∃ middle, Tiles m start front middle ∧ Tiles m middle back stop := by
  induction front generalizing start with
  | nil => simp [Tiles]
  | cons first rest ih =>
      simp only [List.cons_append, Tiles, ih]
      constructor
      · rintro ⟨addr, large, aligned, header, middle, left, right⟩
        exact ⟨middle, ⟨addr, large, aligned, header, left⟩, right⟩
      · rintro ⟨middle, ⟨addr, large, aligned, header, left⟩, right⟩
        exact ⟨addr, large, aligned, header, middle, left, right⟩

/-- A walk survives every change that keeps the headers of its chunks. -/
theorem Tiles.transport {m m' : Mem} {start stop : Nat} {blocks : List Block}
    (h : Tiles m start blocks stop)
    (same : ∀ b ∈ blocks, headWord m' b.addr = headWord m b.addr)
    : Tiles m' start blocks stop := by
  induction blocks generalizing start with
  | nil => exact h
  | cons first rest ih =>
      obtain ⟨addr, large, aligned, header, tail⟩ := h
      exact ⟨addr, large, aligned, (same first List.mem_cons_self).trans header,
        ih tail (fun b member => same b (List.mem_cons_of_mem _ member))⟩

theorem Tiles.le {m : Mem} {start stop : Nat} {blocks : List Block}
    (h : Tiles m start blocks stop)
    : start + minChunkSize * blocks.length ≤ stop := by
  induction blocks generalizing start with
  | nil =>
      have same : start = stop := h
      simp [same]
  | cons first rest ih =>
      obtain ⟨addr, large, -, -, tail⟩ := h
      have bound := ih tail
      simp only [Span.stop, minChunkSize, List.length_cons] at *
      omega

/-- Where a chunk of the walk lies, and what its header says. -/
theorem Tiles.block {m : Mem} {start stop : Nat} {blocks : List Block}
    (h : Tiles m start blocks stop) {b : Block} (member : b ∈ blocks)
    : start ≤ b.addr ∧ b.stop ≤ stop ∧ minChunkSize ≤ b.size ∧ b.size % 8 = 0
      ∧ headWord m b.addr = b.header := by
  obtain ⟨front, back, rfl⟩ := List.append_of_mem member
  obtain ⟨middle, left, right⟩ := (tiles_append front (b :: back)).mp h
  obtain ⟨rfl, large, aligned, header, tail⟩ := right
  have before := left.le
  have behind := tail.le
  exact ⟨by omega, by omega, large, aligned, header⟩

/-- Only the last chunk reaches the end. -/
theorem Tiles.none_behind {m : Mem} {start stop : Nat} {front back : List Block} {b : Block}
    (h : Tiles m start (front ++ b :: back) stop) (end_ : b.stop = stop)
    : back = [] := by
  obtain ⟨middle, -, -, -, -, -, behind⟩ := (tiles_append front (b :: back)).mp h
  cases back with
  | nil => rfl
  | cons c rest =>
      have bound := behind.le
      simp only [List.length_cons, minChunkSize] at bound
      omega

/-- The headers in memory determine the walk, by induction over it. -/
theorem Tiles.unique {m : Mem} {start stop : Nat} {blocks blocks' : List Block}
    (h : Tiles m start blocks stop) (h' : Tiles m start blocks' stop)
    : blocks = blocks' := by
  induction blocks generalizing start blocks' with
  | nil =>
      have same : start = stop := h
      have bound := h'.le
      cases blocks' with
      | nil => rfl
      | cons b rest =>
          simp only [List.length_cons, minChunkSize] at bound
          omega
  | cons b rest ih =>
      cases blocks' with
      | nil =>
          have same : start = stop := h'
          have bound := h.le
          simp only [List.length_cons, minChunkSize] at bound
          omega
      | cons c rest' =>
          obtain ⟨rfl, -, aligned, header, tail⟩ := h
          obtain ⟨addr, -, aligned', header', tail'⟩ := h'
          rw [addr] at header'
          have size := (chunksize_of_header header aligned).symm.trans
            (chunksize_of_header header' aligned')
          have used := (cinuse_of_header header aligned).symm.trans (cinuse_of_header header' aligned')
          have prev := (pinuse_of_header header aligned).symm.trans (pinuse_of_header header' aligned')
          obtain ⟨⟨place, length⟩, flag, mark⟩ := b
          obtain ⟨⟨place', length'⟩, flag', mark'⟩ := c
          dsimp only at addr size used prev
          subst addr size used prev
          rw [ih tail tail']

/-- Chunks of the walk do not overlap. -/
theorem Tiles.apart {m : Mem} {start stop : Nat} {blocks : List Block}
    (h : Tiles m start blocks stop)
    : blocks.Pairwise (fun b c => b.stop ≤ c.addr) := by
  induction blocks generalizing start with
  | nil => exact .nil
  | cons first rest ih =>
      obtain ⟨-, -, -, -, tail⟩ := h
      exact .cons (fun c member => (tail.block member).1) (ih tail)

/-- The chunk addresses keep the alignment of the first. -/
theorem Tiles.aligned {m : Mem} {start stop : Nat} {blocks : List Block}
    (h : Tiles m start blocks stop) (first : start % 8 = 0) {b : Block} (member : b ∈ blocks)
    : b.addr % 8 = 0 := by
  induction blocks generalizing start with
  | nil => exact absurd member List.not_mem_nil
  | cons head rest ih =>
      obtain ⟨addr, -, aligned, -, tail⟩ := h
      rcases List.mem_cons.mp member with rfl | inside
      · rw [addr]
        exact first
      · refine ih tail ?_ inside
        simp only [Span.stop]
        omega

end DeadKernel
