import DeadKernel.Memory.HeapFreeing

/-! Freeing live blocks of a heap that only `alloc` and `free` work on. Every chunk keeps its PINUSE
flag there, so that `free` merges nothing and a chunk inside the heap is freed in any case. The last
chunk of the heap is another matter: the word behind the heap decides.
-/

namespace DeadKernel

open Words Rings

-----------------------------------------------------------------------------------------
-- Writing around a heap
-----------------------------------------------------------------------------------------

/-- Writes to payloads and outside the heap leave the layout alone. -/
theorem HeapOk.writes {heap : Nat} {st : Kernel} {blocks : List Block} {free : List Span} {m : Mem}
    (h : HeapOk heap st blocks free)
    (kept : ∀ byte, heapByte (headOf heap) (st.heaps heap).startAddr (st.heaps heap).endAddr byte
      → ¬ ownedByte blocks byte → m byte = st.mem byte)
    : HeapOk heap { st with mem := m } blocks free := by
  have scattered := h.layout.tiles.scattered
  have room := h.layout.room
  have header : ∀ b ∈ blocks, headWord m b.addr = headWord st.mem b.addr := by
    intro b member
    refine load32_congr (fun byte low high => kept byte (.inl ?_) ?_)
    · obtain ⟨above, below, large⟩ := scattered.within b member
      simp only [Span.stop, minChunkSize] at *
      omega
    · rintro ⟨c, there, used, above, below⟩
      obtain ⟨-, -, large⟩ := scattered.within b member
      rcases scattered.order member there with rfl | left | right
      · omega
      · simp only [Span.stop, minChunkSize] at *
        omega
      · omega
  refine h.setMem ⟨h.layout.tiles.transport header, ?_, h.layout.listed, room⟩
  refine h.layout.list.transport (fun byte on => ?_) (fun s member => ?_)
  · have on' : onNodes (headOf heap :: (freeSpans blocks).map Span.node) byte :=
      on.mono (List.cons_subset_cons _ (List.map_subset _ h.layout.listed.subset))
    exact kept byte (scattered.nodes_within on') (scattered.off_nodes room on').2.1
  · obtain ⟨b, inside, -, rfl⟩ := mem_freeSpans.mp (h.layout.listed.subset member)
    rw [chunksize, chunksize, header b inside]

-----------------------------------------------------------------------------------------
-- Calls
-----------------------------------------------------------------------------------------

/-- A request that does not wrap, and whose growth, if any, ends below the top of the address
space, finds frames other than 0 and takes its page tables from elsewhere.
-/
structure AllocFine (fuel size heap : Nat) (st : Kernel) : Prop where
  request : size + 11 < wordSize
  fits : AllocFits fuel size heap st
  aside : AllocAside fuel size heap st

/-- The chunk of `p` is not the last one of the heap; or the header word behind the heap is that of
a chunk in use behind one in use, and the chunk starts on a page or is longer than the minimum.
-/
def FreeFine (p heap : Nat) (st : Kernel) : Prop :=
  mem2Chunk p + chunksize st.mem (mem2Chunk p) = (st.heaps heap).endAddr →
    EndMarked st.mem (st.heaps heap).endAddr
      ∧ (mem2Chunk p % pageSize = 0 ∨ minChunkSize < chunksize st.mem (mem2Chunk p))

/-- The bytes that the owner of `p` may write. -/
def payloadByte (p : Nat) (m : Mem) (byte : Nat) : Prop :=
  p ≤ byte ∧ byte + 4 < p + chunksize m (mem2Chunk p)

/-- Owners of chunks in use, and others outside the heap, write where the layout does not look. -/
theorem HeapOk.ownerWrites {heap : Nat} {st : Kernel} {live : List Nat} {blocks : List Block}
    {free : List Span} {m : Mem} (h : HeapOk heap st blocks free) (owned : Owned live blocks)
    (kept : ∀ byte, heapByte (headOf heap) (st.heaps heap).startAddr (st.heaps heap).endAddr byte
      → (∀ p ∈ live, ¬ payloadByte p st.mem byte) → m byte = st.mem byte)
    : HeapOk heap { st with mem := m } blocks free := by
  refine h.writes (fun byte inside out => kept byte inside (fun p member own => out ?_))
  obtain ⟨b, there, used, rfl⟩ := owned p member
  obtain ⟨chunk, size⟩ := h.chunksize_mem there
  obtain ⟨above, below⟩ := own
  rw [chunk, size] at below
  refine ⟨b, there, used, above, ?_⟩
  simp only [Span.stop]
  omega

/-- A call on the heap, or writes of the owners and outside the heap, with the live pointers. -/
inductive HeapCall (heap : Nat) : Kernel × List Nat → Kernel × List Nat → Prop where
  | alloc {fuel size p : Nat} {st st' : Kernel} {live : List Nat}
      (fine : AllocFine fuel size heap st) (run : alloc fuel size heap st = some (p, st'))
      : HeapCall heap (st, live) (st', p :: live)
  | free {p : Nat} {st st' : Kernel} {live : List Nat} (member : p ∈ live)
      (fine : FreeFine p heap st) (run : free p heap st = some st')
      : HeapCall heap (st, live) (st', live.filter (fun q => q ≠ p))
  | write {st : Kernel} {live : List Nat} {m : Mem}
      (kept : ∀ byte, heapByte (headOf heap) (st.heaps heap).startAddr (st.heaps heap).endAddr byte
        → (∀ p ∈ live, ¬ payloadByte p st.mem byte) → m byte = st.mem byte)
      : HeapCall heap (st, live) ({ st with mem := m }, live)

/-- Live pointers belong to chunks in use, and every chunk has its PINUSE flag. -/
structure LiveHeap (heap : Nat) (st : Kernel) (live : List Nat) (blocks : List Block)
    (free : List Span) : Prop where
  ok : HeapOk heap st blocks free
  marked : ∀ b ∈ blocks, b.prevUsed = true
  owned : ∀ p ∈ live, ∃ b ∈ blocks, b.used = true ∧ p = b.addr + 8
  extent : HeapExtent heap st
  pages : HeapPages heap st

section Steps

variable {heap : Nat} {st st' : Kernel} {live : List Nat} {blocks : List Block} {free : List Span}

theorem LiveHeap.alloc {fuel size p : Nat} (h : LiveHeap heap st live blocks free)
    (fine : AllocFine fuel size heap st) (run : alloc fuel size heap st = some (p, st'))
    : ∃ blocks' free', LiveHeap heap st' (p :: live) blocks' free' := by
  have grown := alloc_grown h.extent h.pages fine.fits run
  obtain ⟨from_, front, b, back, _, free', source, -, unused, -, rfl, -, after, -⟩ :=
    h.ok.alloc fine.request fine.aside run
  exact ⟨_, free', after, source.taken_marked h.marked,
    Owned.taken (Owned.keeps h.owned source.keeps.1) unused (request2Size size), grown.extent,
    grown.pages⟩

/-- The chunk of a live pointer in the walk. -/
theorem LiveHeap.chunk {p : Nat} (h : LiveHeap heap st live blocks free) (member : p ∈ live)
    : ∃ before b back, blocks = before ++ b :: back ∧ b.used = true ∧ p = b.addr + 8
        ∧ MergesAt st.mem b before before b.addr
        ∧ (FreeFine p heap st → back = [] → EndMarked st.mem (st.heaps heap).endAddr
          ∧ (b.addr % pageSize = 0 ∨ b.addr + minChunkSize < b.stop)) := by
  obtain ⟨b, inside, used, rfl⟩ := h.owned p member
  obtain ⟨chunk, size⟩ := h.ok.chunksize_mem inside
  obtain ⟨before, back, rfl⟩ := List.append_of_mem inside
  refine ⟨before, b, back, rfl, used, rfl, .alone (h.marked b inside), ?_⟩
  rintro fine rfl
  obtain ⟨-, -, -, -, end_⟩ := h.ok.layout.tiles.focus
  rw [FreeFine, chunk, size] at fine
  refine (fine end_).imp_right (Or.imp_right (fun large => ?_))
  simp only [Span.stop]
  omega

theorem LiveHeap.freed {p : Nat} (h : LiveHeap heap st live blocks free) (member : p ∈ live)
    (fine : FreeFine p heap st) (run : DeadKernel.free p heap st = some st')
    : ∃ blocks' free', LiveHeap heap st' (live.filter (fun q => q ≠ p)) blocks' free' := by
  have shrunk := free_shrunk h.extent h.pages run
  obtain ⟨before, b, back, rfl, used, rfl, merges, last⟩ := h.chunk member
  have others : Owned (live.filter (fun q => q ≠ b.addr + 8)) (before ++ back) := Owned.without h.owned
  have marked : ∀ c ∈ before ++ back, c.prevUsed = true := by
    intro c inside
    refine h.marked c ?_
    rcases List.mem_append.mp inside with inFront | inBack
    · exact List.mem_append_left _ inFront
    · exact List.mem_append_right _ (List.mem_cons_of_mem _ inBack)
  cases back with
  | nil =>
      obtain ⟨newEnd, free', -, -, -, -, -, -, ok⟩ :=
        h.ok.free_last used merges (last fine rfl).1 h.extent.least run
      refine ⟨_, free', ok, ?_, ?_, shrunk.extent, shrunk.pages⟩
      · intro c inside
        rcases List.mem_append.mp inside with inFront | new
        · exact marked c (List.mem_append_left _ inFront)
        · exact trimmed_marked new
      · rw [List.append_nil] at others
        exact others.keeps (.of_subset (List.subset_append_left _ _))
  | cons next rest =>
      obtain ⟨m, free', released, ok, -⟩ :=
        h.ok.free_inside used merges (List.cons_ne_nil next rest)
      obtain rfl := Option.some.inj (released.symm.trans run)
      refine ⟨_, free', ok, ?_, ?_, shrunk.extent, shrunk.pages⟩
      · intro c inside
        rcases List.mem_append.mp inside with inFront | new
        · exact marked c (List.mem_append_left _ inFront)
        · rcases List.mem_cons.mp new with rfl | inBack
          · rfl
          · exact marked c (List.mem_append_right _ inBack)
      · exact others.keeps ((KeepsUsed.of_subset (List.Subset.refl before)).append
          (.of_subset (List.subset_cons_self _ _)))

theorem LiveHeap.write {m : Mem} (h : LiveHeap heap st live blocks free)
    (kept : ∀ byte, heapByte (headOf heap) (st.heaps heap).startAddr (st.heaps heap).endAddr byte
      → (∀ p ∈ live, ¬ payloadByte p st.mem byte) → m byte = st.mem byte)
    : LiveHeap heap { st with mem := m } live blocks free := by
  have grown := (OnlyMem.write st m).grown h.extent h.pages
  exact ⟨h.ok.ownerWrites h.owned kept, h.marked, h.owned, grown.extent, grown.pages⟩

/-- Every call keeps the heap in good order. -/
theorem HeapCall.keeps {s s' : Kernel × List Nat} (call : HeapCall heap s s')
    (h : ∃ blocks free, LiveHeap heap s.1 s.2 blocks free)
    : ∃ blocks free, LiveHeap heap s'.1 s'.2 blocks free := by
  obtain ⟨blocks, free, h⟩ := h
  cases call with
  | alloc fine run => exact h.alloc fine run
  | free member fine run => exact h.freed member fine run
  | write kept => exact ⟨blocks, free, h.write kept⟩

/-- A live pointer under the condition is freed. -/
theorem LiveHeap.free_returns {p : Nat} (h : LiveHeap heap st live blocks free)
    (member : p ∈ live) (fine : FreeFine p heap st)
    : ∃ st', DeadKernel.free p heap st = some st' := by
  obtain ⟨before, b, back, rfl, used, rfl, merges, last⟩ := h.chunk member
  cases back with
  | nil =>
      obtain ⟨marked, roomy⟩ := last fine rfl
      exact h.ok.free_last_returns used merges marked h.extent h.pages roomy
  | cons next rest =>
      obtain ⟨m, free', released, -⟩ := h.ok.free_inside used merges (List.cons_ne_nil next rest)
      exact ⟨_, released⟩

end Steps

-----------------------------------------------------------------------------------------
-- Runs
-----------------------------------------------------------------------------------------

/-- A heap made over mapped pages in a range of its own. -/
structure HeapMade (heap : Nat) (made : Kernel) : Prop where
  created : ∃ dir start stop max supervisor readonly st,
    createHeap heap dir start stop max supervisor readonly st = some made
      ∧ HeapRange heap start stop max
  pages : HeapPages heap made
  mapped : ∀ address, IsPage address → (made.heaps heap).startAddr ≤ address
    → address < (made.heaps heap).endAddr → Mapped made (made.heaps heap).pageDir address

theorem HeapMade.live {heap : Nat} {made : Kernel} (h : HeapMade heap made)
    : ∃ blocks free, LiveHeap heap made [] blocks free := by
  obtain ⟨dir, start, stop, max, supervisor, readonly, st, created, range⟩ := h.created
  obtain ⟨free, ok⟩ := createHeap_ok range created
  obtain ⟨-, -, record, -, -⟩ := createHeap_record created
  refine ⟨_, free, ok, ?_, fun p none => absurd none List.not_mem_nil, ?_, h.pages⟩
  · intro b member
    rw [List.mem_singleton.mp member]
    rfl
  · exact ⟨ok.startAligned, ok.endAligned, by rw [record]; exact range.least,
      by rw [record]; exact range.most, h.mapped⟩

/-- In every run of calls under their conditions, `free` of a live pointer under its condition
returns, by induction over the run.
-/
theorem free_live_returns {heap p : Nat} {made st : Kernel} {live : List Nat}
    (made_ : HeapMade heap made)
    (run : Relation.ReflTransGen (HeapCall heap) (made, []) (st, live)) (member : p ∈ live)
    (fine : FreeFine p heap st)
    : ∃ st', free p heap st = some st' := by
  have kept {s : Kernel × List Nat} (run : Relation.ReflTransGen (HeapCall heap) (made, []) s)
      : ∃ blocks free, LiveHeap heap s.1 s.2 blocks free := by
    induction run with
    | refl => exact made_.live
    | tail _ call ih => exact call.keeps ih
  obtain ⟨blocks, free, h⟩ := kept run
  exact h.free_returns member fine

theorem oneMegabyte_made {made : Kernel} (created : oneMegabyte = some made) : HeapMade 4096 made := by
  obtain ⟨-, -, record, tables, dirs⟩ := createHeap_record created
  refine ⟨⟨_, _, _, _, _, _, _, created, by constructor <;> decide⟩,
    fullyMapped_heapPages tables dirs (by rw [record]; decide), fun address _ _ _ => ?_⟩
  obtain ⟨ref, found, present, -⟩ := fullyMapped_page tables dirs (made.heaps 4096).pageDir address
  exact ⟨ref, found, present⟩

/-- The whole heap is taken by one block. Behind the heap stands the header of a chunk in use. -/
theorem free_live_returns_whole
    : ∃ made r st', oneMegabyte = some made ∧ alloc 1 0xFFFFC 4096 made = some r
        ∧ r.1 = 0x90000008
        ∧ free 0x90000008 4096 { r.2 with mem := store32 r.2.mem 0x90100004 3 } = some st' := by
  have run : (oneMegabyte.bind (fun made => (alloc 1 0xFFFFC 4096 made).map (fun r =>
      (r.1, (r.2.heaps 4096).startAddr, (r.2.heaps 4096).endAddr,
        findSmallestChunk (request2Size 0xFFFFC) (headOf 4096) made.mem))))
      = some (0x90000008, 0x90000000, 0x90100000, some 0x90000000) := by
    decide +kernel
  obtain ⟨made, created, rest⟩ := Option.bind_eq_some_iff.mp run
  obtain ⟨r, allocated, all⟩ := Option.map_eq_some_iff.mp rest
  simp only [Prod.mk.injEq] at all
  obtain ⟨pointer, start, end_, found⟩ := all
  have fine : AllocFine 1 0xFFFFC 4096 made := by
    refine ⟨by decide, fun none => ?_, fun none => ?_⟩
    all_goals
      rw [none] at found
      exact absurd (Option.some.inj found) (by decide)
  have first : HeapCall 4096 (made, []) (r.2, [r.1]) := .alloc fine allocated
  have second : HeapCall 4096 (r.2, [r.1])
      ({ r.2 with mem := store32 r.2.mem 0x90100004 3 }, [r.1]) := by
    refine .write (fun byte own _ => store32_other ?_)
    rw [start, end_, headOf, heapByte] at own
    omega
  have behind : headWord (store32 r.2.mem 0x90100004 3) 0x90100000 = 3 :=
    load32_store32 (by decide)
  obtain ⟨st', freed⟩ := free_live_returns (oneMegabyte_made created)
    ((Relation.ReflTransGen.single first).tail second) List.mem_cons_self (fun _ => by
      refine ⟨?_, .inl (by rw [pointer]; decide)⟩
      change EndMarked _ (r.2.heaps 4096).endAddr
      rw [end_, EndMarked, pinuse_eq, cinuse_eq, behind]
      decide)
  rw [pointer] at freed
  exact ⟨made, r, st', created, allocated, pointer, freed⟩

/-- The last 16 bytes of the heap cannot be given back: the size that `contract` is asked for is
the one that the heap has.
-/
theorem free_live_halts
    : ∃ made r₁ r₂, oneMegabyte = some made ∧ alloc 1 0xFFFEC 4096 made = some r₁
        ∧ alloc 1 4 4096 r₁.2 = some r₂ ∧ r₂.1 = 0x900FFFF8 ∧ free r₂.1 4096 r₂.2 = none := by
  have run : (oneMegabyte.bind (fun made => (alloc 1 0xFFFEC 4096 made).bind (fun r₁ =>
      (alloc 1 4 4096 r₁.2).map (fun r₂ => (r₂.1, (free r₂.1 4096 r₂.2).isNone)))))
      = some (0x900FFFF8, true) := by
    decide +kernel
  obtain ⟨made, created, rest⟩ := Option.bind_eq_some_iff.mp run
  obtain ⟨r₁, first, rest⟩ := Option.bind_eq_some_iff.mp rest
  obtain ⟨r₂, second, both⟩ := Option.map_eq_some_iff.mp rest
  obtain ⟨pointer, halts⟩ := Prod.mk.inj both
  exact ⟨made, r₁, r₂, created, first, second, pointer, Option.isNone_iff_eq_none.mp halts⟩

end DeadKernel
