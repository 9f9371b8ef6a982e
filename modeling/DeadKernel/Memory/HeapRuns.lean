import DeadKernel.Memory.AlignedAllocation

/-! Runs over a heap: calls of `alloc`, `palignedAlloc` and `free` in any order, with writes of the
owners in between, and the chunks that each call leaves.
-/

namespace DeadKernel

open Words Rings

-----------------------------------------------------------------------------------------
-- Calls
-----------------------------------------------------------------------------------------

/-- The pointers that calls have returned: those in use, and those freed and not returned since. -/
structure Pointers where
  live : List Nat
  freed : List Nat

def Pointers.returned (p : Nat) (ps : Pointers) : Pointers :=
  ⟨p :: ps.live, ps.freed.filter (fun q => q ≠ p)⟩

def Pointers.givenBack (p : Nat) (ps : Pointers) : Pointers :=
  ⟨ps.live.filter (fun q => q ≠ p), p :: ps.freed⟩

/-- A block whose PINUSE flag is clear has a free chunk in front of it, of the size in its foot, and
behind the last chunk of the heap stands the header of a chunk in use.
-/
structure FreeSound (p heap : Nat) (st : Kernel) : Prop where
  merges : ∀ free before b back, HeapOk heap st (before ++ b :: back) free → p = b.addr + 8
    → ∃ front addr, MergesAt st.mem b before front addr
  last : mem2Chunk p + chunksize st.mem (mem2Chunk p) = (st.heaps heap).endAddr
    → EndMarked st.mem (st.heaps heap).endAddr

/-- The flag of the chunk that a pointer of the walk belongs to. -/
theorem HeapOk.pinuse_mem {heap : Nat} {st : Kernel} {blocks : List Block} {free : List Span}
    (h : HeapOk heap st blocks free) {b : Block} (member : b ∈ blocks)
    : pinuse st.mem (mem2Chunk (b.addr + 8)) = b.prevUsed := by
  obtain ⟨chunk, -⟩ := h.chunksize_mem member
  obtain ⟨-, -, -, aligned, header⟩ := h.layout.tiles.block member
  rw [chunk, pinuse_of_header header aligned]

/-- A block whose PINUSE flag is set is not merged with anything in front of it. -/
theorem FreeSound.of_marked {p heap : Nat} {st : Kernel}
    (flag : pinuse st.mem (mem2Chunk p) = true)
    (last : mem2Chunk p + chunksize st.mem (mem2Chunk p) = (st.heaps heap).endAddr
      → EndMarked st.mem (st.heaps heap).endAddr)
    : FreeSound p heap st := by
  refine ⟨fun free before b back ok place => ⟨before, b.addr, .alone ?_⟩, last⟩
  rw [← ok.pinuse_mem (List.mem_append_right before List.mem_cons_self), ← place]
  exact flag

/-- What else is asked of the calls: of `alloc`, also inside `palignedAlloc`, with its fuel, its
request and the freed pointers, and of `free` with its pointer.
-/
structure Asked where
  alloc : Nat → Nat → Kernel → List Nat → Prop
  free : Nat → Kernel → Prop

/-- A call on a heap in good order that keeps it so. -/
inductive HeapMove (heap : Nat) (asked : Asked) : Kernel × Pointers → Kernel × Pointers → Prop where
  | alloc {fuel size p : Nat} {st st' : Kernel} {ps : Pointers} (fits : size + 11 < wordSize)
      (aside : AllocAside fuel size heap st) (asks : asked.alloc fuel size st ps.freed)
      (run : alloc fuel size heap st = some (p, st'))
      : HeapMove heap asked (st, ps) (st', ps.returned p)
  | palignedAlloc {fuel size p : Nat} {st st' : Kernel} {ps : Pointers}
      (fits : size + pageSize + 64 < wordSize)
      (aside : AllocAside fuel (alignedRequest (request2Size size)) heap st)
      (fine : HoleIs (RemainderFine (request2Size size) heap) fuel
        (alignedRequest (request2Size size)) heap st)
      (asks : asked.alloc fuel (alignedRequest (request2Size size)) st ps.freed)
      (run : palignedAlloc fuel size heap st = some (p, st'))
      : HeapMove heap asked (st, ps) (st', ps.returned p)
  | free {p : Nat} {st st' : Kernel} {ps : Pointers} (member : p ∈ ps.live)
      (sound : FreeSound p heap st) (asks : asked.free p st) (run : free p heap st = some st')
      : HeapMove heap asked (st, ps) (st', ps.givenBack p)

/-- Writes of the owners to their payloads, and of anyone to memory outside the heap. -/
inductive OwnerWrites (heap : Nat) : Kernel × Pointers → Kernel × Pointers → Prop where
  | write {st : Kernel} {ps : Pointers} {m : Mem}
      (kept : ∀ byte, heapByte (headOf heap) (st.heaps heap).startAddr (st.heaps heap).endAddr byte
        → (∀ p ∈ ps.live, ¬ payloadByte p st.mem byte) → m byte = st.mem byte)
      : OwnerWrites heap (st, ps) ({ st with mem := m }, ps)

/-- A run over a heap. -/
def HeapRun (heap : Nat) (asked : Asked) : Kernel × Pointers → Kernel × Pointers → Prop :=
  Relation.ReflTransGen (fun s s' => HeapMove heap asked s s' ∨ OwnerWrites heap s s')

/-- A heap in good order whose live pointers belong to chunks in use. -/
structure GoodHeap (heap : Nat) (st : Kernel) (live : List Nat) (blocks : List Block)
    (free : List Span) : Prop where
  ok : HeapOk heap st blocks free
  owned : Owned live blocks
  least : (st.heaps heap).startAddr + heapMinSize ≤ (st.heaps heap).endAddr

section Steps

variable {heap : Nat} {st st' : Kernel} {live : List Nat} {blocks : List Block} {free : List Span}

/-- The chunks that `alloc` leaves, and where the hole was. -/
theorem GoodHeap.alloc {fuel size p : Nat} (h : GoodHeap heap st live blocks free)
    (fits : size + 11 < wordSize) (aside : AllocAside fuel size heap st)
    (run : alloc fuel size heap st = some (p, st'))
    : ∃ from_ front b back free',
        AllocFrom (request2Size size) heap st blocks from_ (front ++ b :: back)
        ∧ b.used = false ∧ request2Size size ≤ b.size ∧ p = b.addr + 8 ∧ st'.heaps = from_.heaps
        ∧ (∃ free₁, HeapOk heap from_ (front ++ b :: back) free₁)
        ∧ Spares (front ++ back) from_.mem st'.mem
        ∧ (∀ good, HoleIs good fuel size heap st → good b.addr from_)
        ∧ GoodHeap heap st' (p :: live) (front ++ takenFrom (request2Size size) b back) free' := by
  obtain ⟨from_, front, b, back, _, free', source, ok, unused, large, rfl, took, after, good⟩ :=
    h.ok.alloc fits aside run
  obtain ⟨m, _, taken, -, spares, -⟩ := ok.takeHole unused (request2Size_spec fits).1 large
  obtain ⟨-, rfl⟩ := Prod.mk.inj (Option.some.inj (taken.symm.trans took))
  exact ⟨from_, front, b, back, free', source, unused, large, rfl, rfl, ⟨_, ok⟩, spares, good, after,
    (h.owned.keeps source.keeps.1).taken unused _, source.least h.least h.ok.endAligned⟩

/-- The result of `palignedAlloc` at `chunk`, cut from `c`. If it becomes the last chunk, the heap ends
where `trimTail` leaves it.
-/
structure AlignedResult (nb heap : Nat) (from_ st' : Kernel) (c : Block) (back : List Block)
    (chunk : Nat) (result : Block) : Prop where
  addr : result.addr = chunk
  place : chunk = alignedChunk (c.addr + 8)
  used : result.used = true
  large : nb ≤ result.size
  kept : back ≠ [] → st'.heaps heap = from_.heaps heap
  last : result.stop = (st'.heaps heap).endAddr → back = []
    ∧ TrimmedEnd nb (from_.heaps heap).startAddr chunk c.stop result.size result.stop

/-- The chunks that `palignedAlloc` leaves, and where the hole was. -/
theorem GoodHeap.aligned {fuel size p : Nat} (h : GoodHeap heap st live blocks free)
    (fits : size + pageSize + 64 < wordSize)
    (aside : AllocAside fuel (alignedRequest (request2Size size)) heap st)
    (fine : HoleIs (RemainderFine (request2Size size) heap) fuel
      (alignedRequest (request2Size size)) heap st)
    (run : palignedAlloc fuel size heap st = some (p, st'))
    : ∃ from_ front b behind c back chunk pieces free',
        AllocFrom (request2Size (alignedRequest (request2Size size))) heap st blocks from_
          (front ++ b :: behind)
        ∧ b.used = false ∧ c.addr = b.addr
        ∧ takenFrom (request2Size (alignedRequest (request2Size size))) b behind = c :: back
        ∧ Cut c back chunk pieces ∧ p = chunk + 8
        ∧ (st'.heaps heap).endAddr ≤ (from_.heaps heap).endAddr
        ∧ (∃ free₁, HeapOk heap from_ (front ++ b :: behind) free₁)
        ∧ Spares front from_.mem st'.mem ∧ SparesPayloads behind from_.mem st'.mem
        ∧ (∀ good, HoleIs good fuel (alignedRequest (request2Size size)) heap st → good b.addr from_)
        ∧ (∃ result ∈ pieces, AlignedResult (request2Size size) heap from_ st' c back chunk result)
        ∧ GoodHeap heap st' (p :: live) (front ++ pieces) free' := by
  simp only [pageSize] at fits
  obtain ⟨nb, -, most⟩ := request2Size_spec (by omega : size + 11 < wordSize)
  obtain ⟨mem, delivered, took, stages⟩ := palignedAlloc_stages run
  obtain ⟨front, c, back, _, ok, used, rfl, room, least, fine', from_, b, behind, source, unused,
    addr, kept, first, heaps, before, spares, good⟩ := h.ok.delivered h.least (by omega) nb aside fine took
  obtain ⟨chunk, carved, lead, tail, rfl⟩ := stages (Nat.succ_ne_zero _)
  obtain ⟨pieces, free', result, after, cut, -, member, rfl, inuse, large, sparesFront, sparesBack,
    shrunk, place, kept', last⟩ := ok.cutUp used room nb least fine' lead tail
  have pointer := after.chunk2Mem_mem (List.mem_append_right front member)
  have below := shrunk.below
  rw [heaps] at below
  have among : AmongChunks behind back := takenFrom_among first
  refine ⟨from_, front, b, behind, c, back, result.addr, pieces, free', source, unused, addr, first,
    cut, pointer, below, before, (spares.mono (List.subset_append_left _ _)).trans sparesFront,
    (spares.mono (List.subset_append_right _ _)).payloads.trans (sparesBack.of_among among), good,
    ⟨result, member, rfl, place, inuse, large, fun some_ => by rw [kept' some_, heaps],
      fun end_ => by rw [← heaps]; exact last end_⟩, after, fun q old => ?_, shrunk.least⟩
  rcases List.mem_cons.mp old with rfl | old
  · exact ⟨result, List.mem_append_right front member, inuse, pointer⟩
  · have others : Owned live (front ++ behind) :=
      (h.owned.keeps source.keeps.1).keeps (KeepsUsed.drop unused)
    exact others.keeps ((KeepsUsed.of_subset (List.Subset.refl front)).append
      (kept.trans cut.keepsUsed)) q old

/-- The chunk of a live pointer in the walk. -/
theorem GoodHeap.chunk {p : Nat} (h : GoodHeap heap st live blocks free) (member : p ∈ live)
    (sound : FreeSound p heap st)
    : ∃ before b back front addr, blocks = before ++ b :: back ∧ b.used = true ∧ p = b.addr + 8
        ∧ MergesAt st.mem b before front addr
        ∧ (back = [] → EndMarked st.mem (st.heaps heap).endAddr) := by
  obtain ⟨b, inside, used, rfl⟩ := h.owned p member
  obtain ⟨chunk, size⟩ := h.ok.chunksize_mem inside
  obtain ⟨before, back, rfl⟩ := List.append_of_mem inside
  obtain ⟨front, addr, merges⟩ := sound.merges free before b back h.ok rfl
  refine ⟨before, b, back, front, addr, rfl, used, rfl, merges, ?_⟩
  rintro rfl
  have end_ : b.stop = (st.heaps heap).endAddr := h.ok.layout.tiles.focus.2.2.2.2
  have last := sound.last
  rw [chunk, size] at last
  exact last end_

/-- The merge of a free chunk in front of the freed one leaves the chunks in use. -/
theorem MergesAt.keepsUsed {m : Mem} {before front : List Block} {b : Block} {addr : Nat}
    (h : MergesAt m b before front addr)
    : KeepsUsed before front := by
  cases h with
  | alone marked => exact .of_subset (List.Subset.refl before)
  | joined clear unused foot =>
      refine (KeepsUsed.drop unused).trans (.of_subset ?_)
      rw [List.append_nil]
      exact List.Subset.refl _

/-- The chunks that `free` leaves. -/
theorem GoodHeap.freed {p : Nat} (h : GoodHeap heap st live blocks free) (member : p ∈ live)
    (sound : FreeSound p heap st) (run : DeadKernel.free p heap st = some st')
    : ∃ before b back front addr left free', blocks = before ++ b :: back ∧ b.used = true
        ∧ p = b.addr + 8 ∧ MergesAt st.mem b before front addr
        ∧ (back ≠ [] ∧ left = topBlock addr b.stop :: back
            ∧ (st'.heaps heap).endAddr = (st.heaps heap).endAddr
          ∨ back = [] ∧ left = trimmed addr (st'.heaps heap).endAddr
            ∧ addr ≤ (st'.heaps heap).endAddr
            ∧ (st'.heaps heap).endAddr = (st.heaps heap).startAddr
              + keptSize (shrunkSize addr (st.heaps heap).startAddr))
        ∧ HeapKept heap st st' ∧ Spares front st.mem st'.mem ∧ SparesPayloads back st.mem st'.mem
        ∧ GoodHeap heap st' (live.filter (fun q => q ≠ p)) (front ++ left) free' := by
  obtain ⟨before, b, back, front, addr, rfl, used, rfl, merges, last⟩ := h.chunk member sound
  have others := h.owned.without
  cases back with
  | nil =>
      obtain ⟨newEnd, free', above, below, reach, record, size, spares, ok⟩ :=
        h.ok.free_last used merges (last rfl) h.least run
      have endAddr : (st'.heaps heap).endAddr = newEnd := by rw [record]
      have kept : HeapKept heap st st' :=
        ⟨by rw [record], by rw [record]; exact above, by rw [record]; exact below⟩
      rw [← endAddr] at ok reach size
      rw [List.append_nil] at others
      exact ⟨before, b, [], front, addr, _, free', rfl, used, rfl, merges, .inr ⟨rfl, rfl, reach, size⟩, kept,
        spares, fun _ none => absurd none not_ownedByte_nil,
        ok, others.keeps (merges.keepsUsed.trans (.of_subset (List.subset_append_left _ _))),
        kept.least⟩
  | cons next rest =>
      obtain ⟨m, free', released, ok, spares, rest_, -⟩ :=
        h.ok.free_inside used merges (List.cons_ne_nil next rest)
      obtain rfl := Option.some.inj (released.symm.trans run)
      exact ⟨before, b, next :: rest, front, addr, _, free', rfl, used, rfl, merges,
        .inl ⟨List.cons_ne_nil _ _, rfl, rfl⟩,
        .of_record rfl h.least, spares, rest_, ok,
        others.keeps (merges.keepsUsed.append (.of_subset (List.subset_cons_self _ _))), h.least⟩

theorem GoodHeap.write {m : Mem} (h : GoodHeap heap st live blocks free)
    (kept : ∀ byte, heapByte (headOf heap) (st.heaps heap).startAddr (st.heaps heap).endAddr byte
      → (∀ p ∈ live, ¬ payloadByte p st.mem byte) → m byte = st.mem byte)
    : GoodHeap heap { st with mem := m } live blocks free :=
  ⟨h.ok.ownerWrites h.owned kept, h.owned, h.least⟩

end Steps

-----------------------------------------------------------------------------------------
-- Runs
-----------------------------------------------------------------------------------------

section Runs

variable {heap : Nat} {asked : Asked} {s s' : Kernel × Pointers}

/-- Every call keeps the heap in good order. -/
theorem HeapMove.keeps (move : HeapMove heap asked s s')
    (h : ∃ blocks free, GoodHeap heap s.1 s.2.live blocks free)
    : ∃ blocks free, GoodHeap heap s'.1 s'.2.live blocks free := by
  obtain ⟨blocks, free, h⟩ := h
  cases move with
  | alloc fits aside asks run =>
      obtain ⟨_, _, _, _, free', -, -, -, -, -, -, -, -, after⟩ := h.alloc fits aside run
      exact ⟨_, free', after⟩
  | palignedAlloc fits aside fine asks run =>
      obtain ⟨_, _, _, _, _, _, _, _, free', -, -, -, -, -, -, -, -, -, -, -, -, after⟩ :=
        h.aligned fits aside fine run
      exact ⟨_, free', after⟩
  | free member sound asks run =>
      obtain ⟨_, _, _, _, _, _, free', -, -, -, -, -, -, -, -, after⟩ := h.freed member sound run
      exact ⟨_, free', after⟩

theorem OwnerWrites.keeps (writes : OwnerWrites heap s s')
    (h : ∃ blocks free, GoodHeap heap s.1 s.2.live blocks free)
    : ∃ blocks free, GoodHeap heap s'.1 s'.2.live blocks free := by
  obtain ⟨blocks, free, h⟩ := h
  cases writes with
  | write kept => exact ⟨blocks, free, h.write kept⟩

/-- The heap is in good order all along a run, by induction over it. -/
theorem HeapRun.keeps (run : HeapRun heap asked s s')
    (h : ∃ blocks free, GoodHeap heap s.1 s.2.live blocks free)
    : ∃ blocks free, GoodHeap heap s'.1 s'.2.live blocks free := by
  induction run with
  | refl => exact h
  | tail _ step ih => exact step.elim (fun move => move.keeps ih) (fun writes => writes.keeps ih)

/-- A new heap is in good order. -/
theorem createHeap_good {dir start stop max supervisor readonly : Nat} {st made : Kernel}
    (range : HeapRange heap start stop max)
    (created : createHeap heap dir start stop max supervisor readonly st = some made)
    : ∃ free, GoodHeap heap made [] [topBlock start stop] free := by
  obtain ⟨free, ok⟩ := createHeap_ok range created
  obtain ⟨-, -, record, -, -⟩ := createHeap_record created
  exact ⟨free, ok, fun p none => absurd none List.not_mem_nil, by
    rw [record]
    exact range.least⟩

end Runs

end DeadKernel
