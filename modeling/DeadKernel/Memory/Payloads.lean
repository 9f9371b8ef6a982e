import DeadKernel.Memory.HeapRuns

/-! The payloads of live allocations: what the callers may use. A payload may reach four bytes into
the chunk behind its own, over that chunk's `prevFoot`. Behind the last chunk of a heap there is none,
and a request that uses its last four bytes leaves the heap.
-/

namespace DeadKernel

open Words

-----------------------------------------------------------------------------------------
-- Payloads
-----------------------------------------------------------------------------------------

/-- A pointer that a call has returned, with the size that was asked for. -/
structure Payload where
  mem : Nat
  size : Nat
deriving DecidableEq

def Payload.Covers (q : Payload) (byte : Nat) : Prop := q.mem ≤ byte ∧ byte < q.mem + q.size

/-- The live payloads lie in the heap and have no byte in common. -/
structure AllocationSafe (heap : Nat) (st : Kernel) (live : List Payload) : Prop where
  apart : live.Pairwise (fun q r => ∀ byte, q.Covers byte → ¬ r.Covers byte)
  inside : ∀ q ∈ live, (st.heaps heap).startAddr ≤ q.mem ∧ q.mem + q.size ≤ (st.heaps heap).endAddr

/-- A step leaves every byte of the payloads as it was. -/
def Untouched (live : List Payload) (m m' : Mem) : Prop :=
  ∀ q ∈ live, ∀ byte, q.Covers byte → m' byte = m byte

/-- The payloads belong to chunks in use that are large enough for them. -/
def Sized (live : List Payload) (blocks : List Block) : Prop :=
  ∀ q ∈ live, ∃ b ∈ blocks, b.used = true ∧ q.mem = b.addr + 8 ∧ q.size + 4 ≤ b.size

/-- A heap in good order with the payloads of its live pointers. -/
structure SafeHeap (heap : Nat) (st : Kernel) (live : List Payload) (blocks : List Block)
    (free : List Span) : Prop where
  good : GoodHeap heap st (live.map Payload.mem) blocks free
  sized : Sized live blocks
  distinct : live.Pairwise (fun q r => q.mem ≠ r.mem)
  below : ∀ q ∈ live, q.mem + q.size ≤ (st.heaps heap).endAddr

section Payloads

variable {heap : Nat} {st st' from_ : Kernel} {live : List Payload}
  {blocks blocks' front back pieces : List Block} {b c : Block} {free : List Span}

theorem Sized.keeps (h : Sized live blocks) (kept : KeepsUsed blocks blocks')
    : Sized live blocks' := by
  intro q member
  obtain ⟨b, inside, used, place, large⟩ := h q member
  obtain ⟨c, there, span, usedC⟩ := kept b inside used
  exact ⟨c, there, usedC, by rw [span]; exact place, by rw [span]; exact large⟩

/-- A byte of a payload belongs to the owner of its chunk. -/
theorem Sized.owned {q : Payload} {byte : Nat} (h : Sized live blocks) (member : q ∈ live)
    (covers : q.Covers byte)
    : ownedByte blocks byte := by
  obtain ⟨b, inside, used, place, large⟩ := h q member
  obtain ⟨above, below⟩ := covers
  refine ⟨b, inside, used, by omega, ?_⟩
  simp only [Span.stop]
  omega

/-- There is room for a chunk behind every one but the last. -/
theorem Tiles.room_behind {m : Mem} {start stop : Nat} (h : Tiles m start (front ++ pieces) stop)
    (some_ : pieces ≠ []) (member : b ∈ front)
    : b.stop + minChunkSize ≤ stop := by
  obtain ⟨middle, left, right⟩ := (tiles_append front pieces).mp h
  have inside := (left.block member).2.1
  have length := List.length_pos_of_ne_nil some_
  have walk := right.le
  simp only [minChunkSize] at *
  omega

/-- A payload ends in the heap, unless its chunk is the last one. -/
theorem Tiles.payload_below {m : Mem} {start stop size : Nat}
    (h : Tiles m start (front ++ c :: back) stop) (large : size + 4 ≤ c.size)
    (last : back = [] → c.addr + 8 + size ≤ stop)
    : c.addr + 8 + size ≤ stop := by
  by_cases none : back = []
  · exact last none
  · rw [List.append_cons] at h
    have room := h.room_behind none (b := c) (by simp)
    simp only [Span.stop, minChunkSize] at room
    omega

/-- A pointer into a free chunk is not live. -/
theorem Sized.fresh {m : Mem} {start stop chunk : Nat} (h : Sized live (front ++ b :: back))
    (tiles : Tiles m start (front ++ b :: back) stop) (unused : b.used = false)
    (inside : b.addr ≤ chunk ∧ chunk < b.stop)
    : ∀ r ∈ live, chunk + 8 ≠ r.mem := by
  intro r member same
  obtain ⟨d, there, used, place, -⟩ := h r member
  have large := (tiles.block there).2.2.1
  rcases tiles.scattered.order there (c := b) (by simp) with rfl | left | right
  · rw [used] at unused
    contradiction
  · simp only [Span.stop, minChunkSize] at *
    omega
  · omega

theorem SafeHeap.safe (h : SafeHeap heap st live blocks free) : AllocationSafe heap st live := by
  refine ⟨List.Pairwise.imp_of_mem (fun {q r} inside there other byte covers covers' => ?_) h.distinct,
    fun q member => ?_⟩
  · obtain ⟨b, memberB, -, place, large⟩ := h.sized q inside
    obtain ⟨c, memberC, -, place', large'⟩ := h.sized r there
    obtain ⟨above, below⟩ := covers
    obtain ⟨above', below'⟩ := covers'
    rcases h.good.ok.layout.tiles.scattered.order memberB memberC with rfl | left | right
    · exact other (place.trans place'.symm)
    · simp only [Span.stop] at left
      omega
    · simp only [Span.stop] at right
      omega
  · obtain ⟨b, inside, -, place, -⟩ := h.sized q member
    have start := (h.good.ok.layout.tiles.block inside).1
    exact ⟨by omega, h.below q member⟩

/-- A growth moves the end of the heap up and keeps the payloads. -/
theorem AllocFrom.payloads {nb : Nat} (source : AllocFrom nb heap st blocks from_ blocks')
    : (st.heaps heap).endAddr ≤ (from_.heaps heap).endAddr
      ∧ ∀ byte, byte < (st.heaps heap).endAddr → ownedByte blocks byte
        → from_.mem byte = st.mem byte := by
  cases source with
  | here => exact ⟨le_refl _, fun _ _ _ => rfl⟩
  | grown aside expanded record top le only within spares =>
      refine ⟨?_, fun byte below owned => spares byte below (.inl ?_)⟩
      · rw [record]
        simp only [grownEnd]
        omega
      · cases top with
        | reused unused =>
            obtain ⟨b, member, used, rest⟩ := owned
            rcases List.mem_append.mp member with left | last
            · exact ⟨b, left, used, rest⟩
            · rw [List.mem_singleton.mp last, unused] at used
              contradiction
        | fresh => exact owned

theorem ownedByte_append {byte : Nat} (owned : ownedByte (front ++ back) byte)
    : ownedByte front byte ∨ ownedByte back byte := by
  obtain ⟨c, member, rest⟩ := owned
  exact (List.mem_append.mp member).imp (fun left => ⟨c, left, rest⟩) (fun right => ⟨c, right, rest⟩)

/-- The owner of a chunk gives it up. -/
theorem Sized.without {p : Payload} (h : Sized live (front ++ b :: back)) (place : p.mem = b.addr + 8)
    : Sized (live.filter (fun q => q.mem ≠ p.mem)) (front ++ back) := by
  intro q member
  obtain ⟨old, other⟩ := List.mem_filter.mp member
  have other : q.mem ≠ p.mem := of_decide_eq_true other
  obtain ⟨c, there, used, at_, large⟩ := h q old
  refine ⟨c, ?_, used, at_, large⟩
  rcases List.mem_append.mp there with left | right
  · exact List.mem_append_left _ left
  · rcases List.mem_cons.mp right with rfl | behind
    · exact absurd (at_.trans place.symm) other
    · exact List.mem_append_right _ behind

/-- The chunk that a call takes lies in the hole. -/
theorem takenFrom_within {nb : Nat} (first : takenFrom nb b back = c :: pieces)
    : c.stop ≤ b.stop := by
  rw [takenFrom] at first
  split at first
  all_goals
    obtain ⟨rfl, -⟩ := List.cons_eq_cons.mp first
    simp only [Span.stop]
    omega

end Payloads

-----------------------------------------------------------------------------------------
-- Steps
-----------------------------------------------------------------------------------------

/-- A request that takes the last chunk of the heap as a whole leaves its last four bytes unused. -/
def HoleSpare (size heap hole : Nat) (st : Kernel) : Prop :=
  hole + chunksize st.mem hole = (st.heaps heap).endAddr
    → chunksize st.mem hole < request2Size size + minChunkSize
    → size + 8 ≤ chunksize st.mem hole

/-- So does a request for a page, of what it keeps of the last chunk; where a remainder is given back,
only if the heap shrinks to the chunk of the result.
-/
def ResultSpare (size heap hole : Nat) (st : Kernel) : Prop :=
  hole + chunksize st.mem hole = (st.heaps heap).endAddr
    → chunksize st.mem hole < request2Size (alignedRequest (request2Size size)) + minChunkSize
    → if request2Size size + minChunkSize < (st.heaps heap).endAddr - alignedChunk (hole + 8) then
        alignedChunk (hole + 8) + request2Size size = (st.heaps heap).startAddr
            + keptSize (shrunkSize (alignedChunk (hole + 8) + request2Size size)
              (st.heaps heap).startAddr)
          → size + 8 ≤ request2Size size
      else alignedChunk (hole + 8) + 8 + size ≤ (st.heaps heap).endAddr

/-- Where the chunk starts that `free` makes of the one at `chunk` and the one in front of it. -/
def mergedStart (m : Mem) (chunk : Nat) : Nat :=
  if pinuse m chunk then chunk else chunk - prevFoot m chunk

/-- If the last chunk is freed and goes as a whole when the heap shrinks, then the payload in front of
it does not reach over its start.
-/
def FrontSpare (p heap : Nat) (st : Kernel) (live : List Payload) : Prop :=
  mem2Chunk p + chunksize st.mem (mem2Chunk p) = (st.heaps heap).endAddr
    → mergedStart st.mem (mem2Chunk p) = (st.heaps heap).startAddr
      + keptSize (shrunkSize (mergedStart st.mem (mem2Chunk p)) (st.heaps heap).startAddr)
    → ∀ q ∈ live, q.mem < mergedStart st.mem (mem2Chunk p)
      → q.mem + q.size ≤ mergedStart st.mem (mem2Chunk p)

/-- A call on a heap whose payloads stay apart and inside. -/
inductive SafeMove (heap : Nat) : Kernel × List Payload → Kernel × List Payload → Prop where
  | alloc {fuel size p : Nat} {st st' : Kernel} {live : List Payload} (fits : size + 11 < wordSize)
      (aside : AllocAside fuel size heap st) (spare : HoleIs (HoleSpare size heap) fuel size heap st)
      (run : alloc fuel size heap st = some (p, st'))
      : SafeMove heap (st, live) (st', ⟨p, size⟩ :: live)
  | palignedAlloc {fuel size p : Nat} {st st' : Kernel} {live : List Payload}
      (fits : size + pageSize + 64 < wordSize)
      (aside : AllocAside fuel (alignedRequest (request2Size size)) heap st)
      (fine : HoleIs (RemainderFine (request2Size size) heap) fuel
        (alignedRequest (request2Size size)) heap st)
      (spare : HoleIs (ResultSpare size heap) fuel (alignedRequest (request2Size size)) heap st)
      (run : palignedAlloc fuel size heap st = some (p, st'))
      : SafeMove heap (st, live) (st', ⟨p, size⟩ :: live)
  | free {p : Payload} {st st' : Kernel} {live : List Payload} (member : p ∈ live)
      (sound : FreeSound p.mem heap st) (spare : FrontSpare p.mem heap st live)
      (run : free p.mem heap st = some st')
      : SafeMove heap (st, live) (st', live.filter (fun q => q.mem ≠ p.mem))

/-- Writes of the owners to their payloads, and of anyone to memory outside the heap. -/
inductive PayloadWrites (heap : Nat) : Kernel × List Payload → Kernel × List Payload → Prop where
  | write {st : Kernel} {live : List Payload} {m : Mem}
      (kept : ∀ byte, heapByte (headOf heap) (st.heaps heap).startAddr (st.heaps heap).endAddr byte
        → (∀ q ∈ live, ¬ q.Covers byte) → m byte = st.mem byte)
      : PayloadWrites heap (st, live) ({ st with mem := m }, live)

section Steps

variable {heap : Nat} {st st' : Kernel} {live : List Payload} {blocks : List Block}
  {free : List Span}

theorem SafeHeap.alloc {fuel size p : Nat} (h : SafeHeap heap st live blocks free)
    (fits : size + 11 < wordSize) (aside : AllocAside fuel size heap st)
    (spare : HoleIs (HoleSpare size heap) fuel size heap st)
    (run : alloc fuel size heap st = some (p, st'))
    : (∃ blocks' free', SafeHeap heap st' (⟨p, size⟩ :: live) blocks' free')
      ∧ Untouched live st.mem st'.mem := by
  obtain ⟨from_, front, b, back, free', source, unused, large, rfl, heaps, ⟨free₁, ok⟩, spares, good,
    after⟩ := h.good.alloc fits aside run
  obtain ⟨-, enough, -⟩ := request2Size_spec fits
  obtain ⟨grown, keeps⟩ := source.payloads
  have before : Sized live (front ++ b :: back) := h.sized.keeps source.keeps.1
  obtain ⟨-, own⟩ := ok.chunksize_mem (b := b) (by simp)
  obtain ⟨-, wide, -, -, behind⟩ := ok.layout.tiles.focus
  obtain ⟨c, rest, first, used, addr, taken, -, last⟩ := takenFrom_last (request2Size size) b back
  have kept : KeepsUsed (front ++ b :: back) (front ++ c :: rest) := by
    rw [← first]
    exact (KeepsUsed.drop unused).trans ((KeepsUsed.of_subset (List.Subset.refl front)).append
      (keepsUsed_takenFrom _ b back))
  rw [first] at after
  have holds : size + 4 ≤ c.size := enough.trans (taken large)
  refine ⟨⟨_, free', after, fun q member => ?_, ?_, fun q member => ?_⟩, fun q member byte covers => ?_⟩
  · rcases List.mem_cons.mp member with rfl | old
    · exact ⟨c, by simp, used, by rw [addr], holds⟩
    · exact before.keeps kept q old
  · refine List.pairwise_cons.mpr ⟨before.fresh ok.layout.tiles unused ⟨le_refl _, ?_⟩, h.distinct⟩
    simp only [Span.stop, minChunkSize] at *
    omega
  · rw [heaps]
    rcases List.mem_cons.mp member with rfl | old
    · have inside := after.ok.layout.tiles.payload_below holds (fun none => ?_)
      · rw [heaps, addr] at inside
        exact inside
      · obtain ⟨rfl, size, tight⟩ := last none
        have end_ : b.stop = (from_.heaps heap).endAddr := behind
        have spare := good _ spare
        rw [HoleSpare, own] at spare
        have room := spare end_ tight
        rw [heaps, addr, ← end_]
        simp only [Span.stop]
        omega
    · exact (h.below q old).trans grown
  · have below := h.below q member
    have kept := keeps byte (covers.2.trans_le below) (h.sized.owned member covers)
    exact (spares byte (.inl ((before.keeps (.drop unused)).owned member covers))).trans kept

/-- Where a page that becomes the last chunk ends. -/
theorem ResultSpare.below {size : Nat} {from_ : Kernel} {b c result : Block} {back : List Block}
    {chunk : Nat} (spare : ResultSpare size heap b.addr from_)
    (own : chunksize from_.mem b.addr = b.size) (end_ : b.stop = (from_.heaps heap).endAddr)
    (tight : b.size < request2Size (alignedRequest (request2Size size)) + minChunkSize)
    (addr : c.addr = b.addr) (stop : c.stop = b.stop)
    (res : AlignedResult (request2Size size) heap from_ st' c back chunk result)
    (last : result.stop = (st'.heaps heap).endAddr)
    : chunk + 8 + size ≤ (st'.heaps heap).endAddr := by
  obtain ⟨-, trimmed⟩ := res.last last
  have place := res.place
  rw [ResultSpare, own, ← addr, ← place] at spare
  have spare := spare (by rw [addr]; exact end_) tight
  rw [TrimmedEnd, stop, end_] at trimmed
  rw [← last]
  split at spare
  · rename_i long
    rw [if_pos long] at trimmed
    obtain ⟨size_, shrunk⟩ := trimmed
    have stop_ : result.stop = chunk + request2Size size := by rw [Span.stop, res.addr, size_]
    have room := spare (stop_.symm.trans shrunk)
    omega
  · rename_i short
    rw [if_neg short] at trimmed
    omega

theorem SafeHeap.aligned {fuel size p : Nat} (h : SafeHeap heap st live blocks free)
    (fits : size + pageSize + 64 < wordSize)
    (aside : AllocAside fuel (alignedRequest (request2Size size)) heap st)
    (fine : HoleIs (RemainderFine (request2Size size) heap) fuel
      (alignedRequest (request2Size size)) heap st)
    (spare : HoleIs (ResultSpare size heap) fuel (alignedRequest (request2Size size)) heap st)
    (run : palignedAlloc fuel size heap st = some (p, st'))
    : (∃ blocks' free', SafeHeap heap st' (⟨p, size⟩ :: live) blocks' free')
      ∧ Untouched live st.mem st'.mem := by
  obtain ⟨from_, front, b, behind, c, back, chunk, pieces, free', source, unused, addr, first, cut, rfl,
    -, ⟨free₁, ok⟩, sparesFront, sparesBehind, good, ⟨result, there, res⟩, after⟩ :=
    h.good.aligned fits aside fine run
  simp only [pageSize] at fits
  obtain ⟨-, enough, -⟩ := request2Size_spec (by omega : size + 11 < wordSize)
  obtain ⟨grown, keeps⟩ := source.payloads
  have before : Sized live (front ++ b :: behind) := h.sized.keeps source.keeps.1
  have others : Sized live (front ++ behind) := before.keeps (.drop unused)
  obtain ⟨-, own⟩ := ok.chunksize_mem (b := b) (by simp)
  obtain ⟨-, wide, -, -, rest⟩ := ok.layout.tiles.focus
  obtain ⟨_, _, first', -, -, -, keeps', last⟩ :=
    takenFrom_last (request2Size (alignedRequest (request2Size size))) b behind
  obtain ⟨rfl, rfl⟩ := List.cons_eq_cons.mp (first.symm.trans first')
  have within := takenFrom_within first
  have holds : size + 4 ≤ result.size := enough.trans res.large
  have sized : Sized live (front ++ pieces) := others.keeps
    ((KeepsUsed.of_subset (List.Subset.refl front)).append (keeps'.trans cut.keepsUsed))
  have place : b.addr ≤ chunk ∧ chunk < b.stop := by
    obtain ⟨total, stop, flag, more, shape, room, end_, -⟩ := cut.walk
    have large := (after.ok.layout.tiles.block (b := ⟨⟨chunk, total⟩, true, flag⟩)
      (by rw [shape]; simp)).2.2.1
    have start := cut.lead
    simp only [minChunkSize] at *
    omega
  refine ⟨⟨_, free', after, fun q member => ?_, ?_, fun q member => ?_⟩, fun q member byte covers => ?_⟩
  · rcases List.mem_cons.mp member with rfl | old
    · exact ⟨result, List.mem_append_right _ there, res.used, by rw [res.addr], holds⟩
    · exact sized q old
  · exact List.pairwise_cons.mpr ⟨before.fresh ok.layout.tiles unused place, h.distinct⟩
  · rcases List.mem_cons.mp member with rfl | old
    · obtain ⟨left, right, rfl⟩ := List.append_of_mem there
      have walk := after.ok.layout.tiles
      rw [← List.append_assoc] at walk
      have below := walk.payload_below holds (fun none => ?_)
      · rw [res.addr] at below
        exact below
      · subst none
        have end_ : result.stop = (st'.heaps heap).endAddr := walk.focus.2.2.2.2
        obtain ⟨rfl, size_, tight⟩ := last (res.last end_).1
        have whole : b.stop = (from_.heaps heap).endAddr := rest
        rw [res.addr]
        exact (good _ spare).below own whole tight addr (by simp only [Span.stop, addr, size_]) res end_
    · by_cases none : back = []
      · obtain ⟨rfl, -⟩ := last none
        obtain ⟨d, inside, -, at_, large⟩ := others q old
        rw [List.append_nil] at inside
        have room := after.ok.layout.tiles.room_behind (List.ne_nil_of_mem there) inside
        simp only [Span.stop, minChunkSize] at room
        omega
      · rw [res.kept none]
        exact (h.below q old).trans grown
  · have below := h.below q member
    have kept := keeps byte (covers.2.trans_le below) (h.sized.owned member covers)
    refine Eq.trans ?_ kept
    exact (ownedByte_append (others.owned member covers)).elim
      (fun owned => sparesFront byte (.inl owned)) (fun owned => sparesBehind byte owned)

theorem MergesAt.mergedStart {before front back : List Block} {b : Block} {addr : Nat}
    (merges : MergesAt st.mem b before front addr) (ok : HeapOk heap st (before ++ b :: back) free)
    : mergedStart st.mem (mem2Chunk (b.addr + 8)) = addr := by
  have flag := ok.pinuse_mem (b := b) (by simp)
  have chunk := (ok.chunksize_mem (b := b) (by simp)).1
  rw [DeadKernel.mergedStart, flag, chunk]
  cases merges with
  | alone marked => rw [if_pos marked]
  | joined clear unused foot =>
      have walk := ok.layout.tiles
      rw [List.append_assoc, List.singleton_append] at walk
      obtain ⟨-, -, -, -, meets, -⟩ := walk.focus
      rw [if_neg (by rw [clear]; exact Bool.false_ne_true), foot, meets, Span.stop,
        Nat.add_sub_cancel]

theorem SafeHeap.freed {p : Payload} (h : SafeHeap heap st live blocks free) (member : p ∈ live)
    (sound : FreeSound p.mem heap st) (spare : FrontSpare p.mem heap st live)
    (run : DeadKernel.free p.mem heap st = some st')
    : (∃ blocks' free', SafeHeap heap st' (live.filter (fun q => q.mem ≠ p.mem)) blocks' free')
      ∧ Untouched (live.filter (fun q => q.mem ≠ p.mem)) st.mem st'.mem := by
  obtain ⟨before, b, back, front, addr, left, free', rfl, used, place, merges, shape, kept, spares,
    sparesBack, after⟩ := h.good.freed (List.mem_map_of_mem member) sound run
  have others : Sized (live.filter (fun q => q.mem ≠ p.mem)) (front ++ back) :=
    (h.sized.without place).keeps (merges.keepsUsed.append (.of_subset (List.Subset.refl back)))
  rw [List.filter_map] at after
  refine ⟨⟨_, free', after, ?_, h.distinct.filter _, fun q inside => ?_⟩, fun q inside byte covers => ?_⟩
  · refine others.keeps ((KeepsUsed.of_subset (List.Subset.refl front)).append (.of_subset ?_))
    rcases shape with ⟨-, rfl, -⟩ | ⟨rfl, -⟩
    · exact List.subset_cons_self _ _
    · exact List.nil_subset _
  · obtain ⟨old, -⟩ := List.mem_filter.mp inside
    rcases shape with ⟨-, -, end_⟩ | ⟨rfl, rfl, reach, end_⟩
    · rw [end_]
      exact h.below q old
    · obtain ⟨d, there, -, place', large⟩ := others q inside
      rw [List.append_nil] at there
      by_cases short : addr < (st'.heaps heap).endAddr
      · have room := after.ok.layout.tiles.room_behind
          (by rw [trimmed, if_pos short]; exact List.cons_ne_nil _ _) there
        simp only [Span.stop, minChunkSize] at room
        omega
      · -- the heap shrinks to the start of the merged chunk
        have whole : addr = (st'.heaps heap).endAddr := by omega
        have start := merges.mergedStart h.good.ok
        rw [← place] at start
        obtain ⟨-, inside, least, -⟩ := after.ok.layout.tiles.block (List.mem_append_left _ there)
        have spare := spare (by
          rw [place, (h.good.ok.chunksize_mem (b := b) (by simp)).1,
            (h.good.ok.chunksize_mem (b := b) (by simp)).2]
          exact h.good.ok.layout.tiles.focus.2.2.2.2)
        rw [start, ← end_] at spare
        rw [← whole]
        refine spare whole q old ?_
        simp only [Span.stop, minChunkSize] at inside least
        omega
  · exact (ownedByte_append (others.owned inside covers)).elim (fun owned => spares byte (.inl owned))
      (fun owned => sparesBack byte owned)

theorem SafeHeap.write {m : Mem} (h : SafeHeap heap st live blocks free)
    (kept : ∀ byte, heapByte (headOf heap) (st.heaps heap).startAddr (st.heaps heap).endAddr byte
      → (∀ q ∈ live, ¬ q.Covers byte) → m byte = st.mem byte)
    : SafeHeap heap { st with mem := m } live blocks free := by
  refine ⟨h.good.write (fun byte inside none => kept byte inside (fun q member covers => ?_)), h.sized,
    h.distinct, h.below⟩
  refine none q.mem (List.mem_map_of_mem member) ⟨covers.1, ?_⟩
  obtain ⟨b, there, -, place, large⟩ := h.sized q member
  rw [place, (h.good.ok.chunksize_mem there).1, (h.good.ok.chunksize_mem there).2, ← place]
  have below := covers.2
  omega

end Steps

-----------------------------------------------------------------------------------------
-- Runs
-----------------------------------------------------------------------------------------

section Runs

variable {heap : Nat} {s s' : Kernel × List Payload}

/-- Every call keeps the payloads apart and inside, and changes none of the others. -/
theorem SafeMove.keeps (move : SafeMove heap s s')
    (h : ∃ blocks free, SafeHeap heap s.1 s.2 blocks free)
    : (∃ blocks free, SafeHeap heap s'.1 s'.2 blocks free)
      ∧ ∀ q ∈ s.2, q ∈ s'.2 → ∀ byte, q.Covers byte → s'.1.mem byte = s.1.mem byte := by
  obtain ⟨blocks, free, h⟩ := h
  cases move with
  | alloc fits aside spare run =>
      obtain ⟨safe, untouched⟩ := h.alloc fits aside spare run
      exact ⟨safe, fun q member _ => untouched q member⟩
  | palignedAlloc fits aside fine spare run =>
      obtain ⟨safe, untouched⟩ := h.aligned fits aside fine spare run
      exact ⟨safe, fun q member _ => untouched q member⟩
  | free member sound spare run =>
      obtain ⟨safe, untouched⟩ := h.freed member sound spare run
      exact ⟨safe, fun q _ left => untouched q left⟩

theorem PayloadWrites.keeps (writes : PayloadWrites heap s s')
    (h : ∃ blocks free, SafeHeap heap s.1 s.2 blocks free)
    : ∃ blocks free, SafeHeap heap s'.1 s'.2 blocks free := by
  obtain ⟨blocks, free, h⟩ := h
  cases writes with
  | write kept => exact ⟨blocks, free, h.write kept⟩

end Runs

/-- In every run in which no request uses the last four bytes of the heap, the live payloads are apart
and inside the heap, and the next call changes no byte of them.
-/
theorem allocation_safe {heap dir start stop max supervisor readonly : Nat} {st made : Kernel}
    {s : Kernel × List Payload} (range : HeapRange heap start stop max)
    (created : createHeap heap dir start stop max supervisor readonly st = some made)
    (run : Relation.ReflTransGen (fun s s' => SafeMove heap s s' ∨ PayloadWrites heap s s')
      (made, []) s)
    : AllocationSafe heap s.1 s.2
      ∧ ∀ s', SafeMove heap s s' → ∀ q ∈ s.2, q ∈ s'.2 → ∀ byte, q.Covers byte
        → s'.1.mem byte = s.1.mem byte := by
  have safe : ∃ blocks free, SafeHeap heap s.1 s.2 blocks free := by
    induction run with
    | refl =>
        obtain ⟨free, good⟩ := createHeap_good range created
        exact ⟨_, free, good, fun q none => absurd none List.not_mem_nil, .nil,
          fun q none => absurd none List.not_mem_nil⟩
    | tail _ step ih => exact step.elim (fun move => (move.keeps ih).1) (fun writes => writes.keeps ih)
  refine ⟨?_, fun s' move => (move.keeps safe).2⟩
  obtain ⟨blocks, free, h⟩ := safe
  exact h.safe

/-- Two blocks of 100 bytes. Freeing the first leaves the payload of the second alone. -/
theorem allocation_safe_two
    : ∃ made r₁ r₂ st', oneMegabyte = some made ∧ alloc 1 100 4096 made = some r₁
        ∧ alloc 1 100 4096 r₁.2 = some r₂ ∧ free r₁.1 4096 r₂.2 = some st'
        ∧ AllocationSafe 4096 r₂.2 [⟨r₂.1, 100⟩, ⟨r₁.1, 100⟩]
        ∧ ∀ byte, Payload.Covers ⟨r₂.1, 100⟩ byte → st'.mem byte = r₂.2.mem byte := by
  have run : (oneMegabyte.bind (fun made => (alloc 1 100 4096 made).bind (fun r₁ =>
      (alloc 1 100 4096 r₁.2).bind (fun r₂ => (free r₁.1 4096 r₂.2).map (fun _ =>
        ((findSmallestChunk (request2Size 100) (headOf 4096) made.mem, chunksize made.mem 0x90000000,
          findSmallestChunk (request2Size 100) (headOf 4096) r₁.2.mem,
            chunksize r₁.2.mem 0x90000068),
          (r₁.1, r₂.1), headWord r₂.2.mem 0x90000000, (r₂.2.heaps 4096).endAddr))))))
      = some ((some 0x90000000, 0x100000, some 0x90000068, 0xFFF98), (0x90000008, 0x90000070), 107,
        0x90100000) := by
    decide +kernel
  obtain ⟨made, created, rest⟩ := Option.bind_eq_some_iff.mp run
  obtain ⟨r₁, first, rest⟩ := Option.bind_eq_some_iff.mp rest
  obtain ⟨r₂, second, rest⟩ := Option.bind_eq_some_iff.mp rest
  obtain ⟨st', freed, all⟩ := Option.map_eq_some_iff.mp rest
  simp only [Prod.mk.injEq] at all
  obtain ⟨⟨found₁, size₁, found₂, size₂⟩, ⟨pointer₁, pointer₂⟩, word, end_⟩ := all
  have aside {st : Kernel} {hole : Nat} (some_ : 0 ≠ hole)
      (found : findSmallestChunk (request2Size 100) (headOf 4096) st.mem = some hole)
      : AllocAside 1 100 4096 st := by
    intro none
    exact absurd (Option.some.inj (none.symm.trans found)) some_
  have spare {st : Kernel} {hole : Nat} (some_ : 0 ≠ hole)
      (found : findSmallestChunk (request2Size 100) (headOf 4096) st.mem = some hole)
      (large : request2Size 100 + minChunkSize ≤ chunksize st.mem hole)
      : HoleIs (HoleSpare 100 4096) 1 100 4096 st := by
    refine ⟨fun none => absurd (Option.some.inj (none.symm.trans found)) some_, fun hole' _ same => ?_⟩
    obtain rfl := Option.some.inj (found.symm.trans same)
    exact fun _ tight => absurd tight (by omega)
  have chunk : mem2Chunk r₁.1 = 0x90000000 := by
    rw [pointer₁]
    decide
  have inside : mem2Chunk r₁.1 + chunksize r₂.2.mem (mem2Chunk r₁.1) ≠ (r₂.2.heaps 4096).endAddr := by
    rw [chunk, chunksize_eq, word, end_]
    decide
  have move₁ : SafeMove 4096 (made, []) (r₁.2, [⟨r₁.1, 100⟩]) :=
    .alloc (by decide) (aside (by decide) found₁)
      (spare (by decide) found₁ (by rw [size₁]; decide)) first
  have move₂ : SafeMove 4096 (r₁.2, [⟨r₁.1, 100⟩]) (r₂.2, [⟨r₂.1, 100⟩, ⟨r₁.1, 100⟩]) :=
    .alloc (by decide) (aside (by decide) found₂)
      (spare (by decide) found₂ (by rw [size₂]; decide)) second
  have flag : pinuse r₂.2.mem (mem2Chunk r₁.1) = true := by
    rw [chunk, pinuse_eq, word]
    decide
  let rest : List Payload :=
    List.filter (fun q => q.mem ≠ r₁.1) [⟨r₂.1, 100⟩, ⟨r₁.1, 100⟩]
  have move₃ : SafeMove 4096 (r₂.2, [⟨r₂.1, 100⟩, ⟨r₁.1, 100⟩]) (st', rest) :=
    .free (p := ⟨r₁.1, 100⟩) (by simp) (.of_marked flag (fun last => absurd last inside))
      (fun last => absurd last inside) freed
  obtain ⟨safe, untouched⟩ := allocation_safe oneMegabyte_range created
    ((Relation.ReflTransGen.single (.inl move₁)).tail (.inl move₂))
  refine ⟨made, r₁, r₂, st', created, first, second, freed, safe, ?_⟩
  refine untouched (st', rest) move₃ ⟨r₂.1, 100⟩ List.mem_cons_self ?_
  simp [rest, pointer₁, pointer₂]

/-- The whole heap, as a block whose payload reaches four bytes behind its end. -/
theorem allocation_not_inside
    : ∃ made r, oneMegabyte = some made ∧ alloc 1 0xFFFFC 4096 made = some r
        ∧ ¬ AllocationSafe 4096 r.2 [⟨r.1, 0xFFFFC⟩] := by
  have run : (oneMegabyte.bind (fun made => (alloc 1 0xFFFFC 4096 made).map (fun r =>
      (r.1, (r.2.heaps 4096).endAddr)))) = some (0x90000008, 0x90100000) := by
    decide +kernel
  obtain ⟨made, created, rest⟩ := Option.bind_eq_some_iff.mp run
  obtain ⟨r, allocated, all⟩ := Option.map_eq_some_iff.mp rest
  obtain ⟨pointer, end_⟩ := Prod.mk.inj all
  refine ⟨made, r, created, allocated, fun safe => ?_⟩
  have inside := (safe.inside _ List.mem_cons_self).2
  rw [pointer, end_] at inside
  exact absurd inside (by decide)

end DeadKernel
