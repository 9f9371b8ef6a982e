import DeadKernel.Memory.FreeList

/-! The layout of a heap, and the layout with a gap in it.
Each operation of the allocator opens a gap in the walk by taking a chunk out, rewrites headers
inside the gap, and closes it again by putting chunks back. The lemmas here are these moves.
-/

namespace DeadKernel

open Words Rings

-----------------------------------------------------------------------------------------
-- Layouts
-----------------------------------------------------------------------------------------

/-- The chunks of the walk that are not in use. -/
def freeSpans (blocks : List Block) : List Span :=
  (blocks.filter (fun b => ! b.used)).map Block.toSpan

@[simp] theorem freeSpans_nil : freeSpans [] = [] := rfl

@[simp] theorem freeSpans_append (front back : List Block)
    : freeSpans (front ++ back) = freeSpans front ++ freeSpans back := by
  simp [freeSpans]

theorem freeSpans_cons_used {b : Block} (h : b.used = true) (rest : List Block)
    : freeSpans (b :: rest) = freeSpans rest := by
  simp [freeSpans, h]

theorem freeSpans_cons_free {b : Block} (h : b.used = false) (rest : List Block)
    : freeSpans (b :: rest) = b.toSpan :: freeSpans rest := by
  simp [freeSpans, h]

theorem mem_freeSpans {blocks : List Block} {s : Span}
    : s ∈ freeSpans blocks ↔ ∃ b ∈ blocks, b.used = false ∧ b.toSpan = s := by
  simp [freeSpans, and_assoc]

/-- `set_pinuse` on the first chunk of the rest of a walk. -/
def markFirst : List Block → List Block
  | [] => []
  | b :: rest => { b with prevUsed := true } :: rest

@[simp] theorem freeSpans_markFirst (blocks : List Block)
    : freeSpans (markFirst blocks) = freeSpans blocks := by
  cases blocks with
  | nil => rfl
  | cons b rest => cases h : b.used <;> simp [markFirst, freeSpans, h]

/-- Where a heap may lie: not at address zero, with room for the header behind its end, and
apart from its list head.
-/
structure Room (head start stop : Nat) : Prop where
  positive : 0 < start
  aligned : start % 8 = 0
  fits : stop + 8 ≤ wordSize
  away : head + 8 ≤ start ∨ stop + 8 ≤ head

/-- The walk from `start` to `stop` meets `blocks`, and the list at `head` holds exactly those
of them that are not in use.
-/
structure Layout (m : Mem) (head start stop : Nat) (blocks : List Block) (free : List Span)
    : Prop where
  tiles : Tiles m start blocks stop
  list : FreeList m head free
  listed : free.Perm (freeSpans blocks)
  room : Room head start stop

/-- A layout in which nothing is known of the bytes from `low` to `high`. -/
structure Gap (m : Mem) (head start low high stop : Nat) (front back : List Block)
    (free : List Span) : Prop where
  before : Tiles m start front low
  behind : Tiles m high back stop
  list : FreeList m head free
  listed : free.Perm (freeSpans (front ++ back))
  room : Room head start stop

-----------------------------------------------------------------------------------------
-- Bytes that an operation spares
-----------------------------------------------------------------------------------------

/-- The owner of a chunk in use may write from its node up to the next header: the payload
covers the `prevFoot` word behind the chunk.
-/
def ownedByte (blocks : List Block) (byte : Nat) : Prop :=
  ∃ b ∈ blocks, b.used = true ∧ b.addr + 8 ≤ byte ∧ byte < b.stop + 4

theorem not_ownedByte_nil {byte : Nat} : ¬ ownedByte [] byte := by
  rintro ⟨b, member, -⟩
  exact absurd member List.not_mem_nil

def footByte (blocks : List Block) (byte : Nat) : Prop := ∃ b ∈ blocks, wordAt b.addr byte

/-- The bytes that a heap consists of: from its start to its end, and the list head. -/
def heapByte (head start stop byte : Nat) : Prop :=
  (start ≤ byte ∧ byte < stop) ∨ (head ≤ byte ∧ byte < head + 8)

/-- Writes to the heap keep the header word behind it. -/
theorem Room.headWord_end {head start stop : Nat} {m m' : Mem} (room : Room head start stop)
    (le : start ≤ stop) (changed : ChangedOnly (heapByte head start stop) m m')
    : headWord m' stop = headWord m stop := by
  have away := room.away
  refine headWord_of_changed changed (fun byte word own => ?_)
  simp only [wordAt, heapByte] at word own
  omega

/-- Neither the payload of a chunk nor a `prevFoot` word changes. -/
def Spares (blocks : List Block) (m m' : Mem) : Prop :=
  ∀ byte, ownedByte blocks byte ∨ footByte blocks byte → m' byte = m byte

theorem Spares.refl (blocks : List Block) (m : Mem) : Spares blocks m m :=
  fun _ _ => rfl

theorem Spares.trans {blocks : List Block} {m m' m'' : Mem} (h : Spares blocks m m')
    (h' : Spares blocks m' m'')
    : Spares blocks m m'' :=
  fun byte spared => (h' byte spared).trans (h byte spared)

theorem ownedByte.mono {blocks more : List Block} (sub : blocks ⊆ more) {byte : Nat}
    (h : ownedByte blocks byte)
    : ownedByte more byte := by
  obtain ⟨b, member, rest⟩ := h
  exact ⟨b, sub member, rest⟩

theorem footByte.mono {blocks more : List Block} (sub : blocks ⊆ more) {byte : Nat}
    (h : footByte blocks byte)
    : footByte more byte := by
  obtain ⟨b, member, rest⟩ := h
  exact ⟨b, sub member, rest⟩

theorem Spares.mono {blocks more : List Block} {m m' : Mem} (h : Spares more m m')
    (sub : blocks ⊆ more)
    : Spares blocks m m' :=
  fun byte spared => h byte (spared.imp (·.mono sub) (·.mono sub))

/-- The chunks are among the others, where their PINUSE flags may be different. -/
def AmongChunks (blocks more : List Block) : Prop :=
  ∀ b ∈ blocks, ∃ c ∈ more, c.toSpan = b.toSpan ∧ c.used = b.used

theorem AmongChunks.around {back more : List Block} (h : AmongChunks back more) (front : List Block)
    : AmongChunks (front ++ back) (front ++ more) := by
  intro b member
  rcases List.mem_append.mp member with left | right
  · exact ⟨b, List.mem_append_left _ left, rfl, rfl⟩
  · obtain ⟨c, there, same⟩ := h b right
    exact ⟨c, List.mem_append_right _ there, same⟩

theorem Spares.of_among {blocks more : List Block} {m m' : Mem} (h : Spares more m m')
    (kept : AmongChunks blocks more)
    : Spares blocks m m' := by
  rintro byte (⟨b, member, used, above, below⟩ | ⟨b, member, foot⟩)
  · obtain ⟨c, inside, span, same⟩ := kept b member
    refine h byte (.inl ⟨c, inside, same.trans used, ?_, ?_⟩)
    · rw [span]
      exact above
    · rw [span]
      exact below
  · obtain ⟨c, inside, span, -⟩ := kept b member
    refine h byte (.inr ⟨c, inside, ?_⟩)
    rw [span]
    exact foot

theorem Spares.prevFoot {blocks : List Block} {m m' : Mem} (h : Spares blocks m m') {b : Block}
    (member : b ∈ blocks)
    : prevFoot m' b.addr = prevFoot m b.addr :=
  load32_congr (fun byte above below => h byte (.inr ⟨b, member, above, below⟩))

/-- The payloads of chunks in use do not change. -/
def SparesPayloads (blocks : List Block) (m m' : Mem) : Prop :=
  ∀ byte, ownedByte blocks byte → m' byte = m byte

theorem Spares.payloads {blocks : List Block} {m m' : Mem} (h : Spares blocks m m')
    : SparesPayloads blocks m m' :=
  fun byte owned => h byte (.inl owned)

theorem SparesPayloads.of_among {blocks more : List Block} {m m' : Mem} (h : SparesPayloads more m m')
    (kept : AmongChunks blocks more)
    : SparesPayloads blocks m m' := by
  rintro byte ⟨b, member, used, above, below⟩
  obtain ⟨c, inside, span, same⟩ := kept b member
  refine h byte ⟨c, inside, same.trans used, ?_, ?_⟩
  · rw [span]
    exact above
  · rw [span]
    exact below

theorem SparesPayloads.trans {blocks : List Block} {m m' m'' : Mem}
    (h : SparesPayloads blocks m m') (h' : SparesPayloads blocks m' m'')
    : SparesPayloads blocks m m'' :=
  fun byte owned => (h' byte owned).trans (h byte owned)

-----------------------------------------------------------------------------------------
-- Geometry of a gap
-----------------------------------------------------------------------------------------

section Gap

variable {m m' : Mem} {head start low high stop : Nat} {front back : List Block}
  {free : List Span}

theorem Tiles.focus {b : Block} (h : Tiles m start (front ++ b :: back) stop)
    : Tiles m start front b.addr ∧ minChunkSize ≤ b.size ∧ b.size % 8 = 0
      ∧ headWord m b.addr = b.header ∧ Tiles m b.stop back stop := by
  obtain ⟨middle, left, rfl, large, aligned, header, right⟩ := (tiles_append front _).mp h
  exact ⟨left, large, aligned, header, right⟩

/-- Chunks in ascending order within `[start, stop)`, without overlaps. -/
structure Scattered (start stop : Nat) (blocks : List Block) : Prop where
  within : ∀ b ∈ blocks, start ≤ b.addr ∧ b.stop ≤ stop ∧ minChunkSize ≤ b.size
  apart : blocks.Pairwise (fun b c => b.stop ≤ c.addr)

theorem Tiles.scattered {blocks : List Block} (h : Tiles m start blocks stop)
    : Scattered start stop blocks where
  within := fun _ member => ⟨(h.block member).1, (h.block member).2.1, (h.block member).2.2.1⟩
  apart := h.apart

section Scattered

variable {blocks : List Block}

/-- The payloads and feet of the chunks lie below the foot of what follows them. -/
theorem Tiles.spared_below (h : Tiles m start blocks stop) {byte : Nat}
    (spared : ownedByte blocks byte ∨ footByte blocks byte)
    : byte < stop + 4 := by
  rcases spared with ⟨b, member, -, -, below⟩ | ⟨b, member, foot⟩
  · have end_ := (h.block member).2.1
    omega
  · obtain ⟨-, end_, large, -⟩ := h.block member
    simp only [wordAt, Span.stop, minChunkSize] at *
    omega

theorem Tiles.spared_above (h : Tiles m start blocks stop) {byte : Nat}
    (spared : ownedByte blocks byte ∨ footByte blocks byte)
    : start ≤ byte := by
  rcases spared with ⟨b, member, -, above, -⟩ | ⟨b, member, foot⟩
  · have first := (h.block member).1
    omega
  · have first := (h.block member).1
    exact first.trans foot.1

/-- The payloads lie behind the first header. -/
theorem Tiles.owned_above (h : Tiles m start blocks stop) {byte : Nat} (owned : ownedByte blocks byte)
    : start + 8 ≤ byte := by
  obtain ⟨b, member, -, above, -⟩ := owned
  have first := (h.block member).1
  omega

/-- Two of the chunks are the same or lie apart. -/
theorem Scattered.order (h : Scattered start stop blocks) {b c : Block} (hb : b ∈ blocks)
    (hc : c ∈ blocks)
    : b = c ∨ b.stop ≤ c.addr ∨ c.stop ≤ b.addr := by
  by_cases same : b = c
  · exact Or.inl same
  · have sym : Std.Symm (fun b c : Block => b.stop ≤ c.addr ∨ c.stop ≤ b.addr) :=
      ⟨fun _ _ => Or.symm⟩
    have apart : blocks.Pairwise (fun b c => b.stop ≤ c.addr ∨ c.stop ≤ b.addr) :=
      h.apart.imp Or.inl
    exact Or.inr (apart.forall hb hc same)

/-- The nodes of the free chunks lie on no header, no payload and no foot. -/
theorem Scattered.off_nodes (h : Scattered start stop blocks) (room : Room head start stop)
    {byte : Nat} (on : onNodes (head :: (freeSpans blocks).map Span.node) byte)
    : (∀ b ∈ blocks, ¬ wordAt (b.addr + 4) byte) ∧ ¬ ownedByte blocks byte
      ∧ ¬ footByte blocks byte := by
  have away := room.away
  have apart {b : Block} (member : b ∈ blocks)
      : ¬ (b.addr ≤ byte ∧ byte < b.addr + 8)
        ∧ ¬ (b.used = true ∧ b.addr + 8 ≤ byte ∧ byte < b.stop + 4) := by
    obtain ⟨above, below, large⟩ := h.within b member
    obtain ⟨node, inside, low, high⟩ := on
    rcases List.mem_cons.mp inside with rfl | known
    · simp only [Span.stop, minChunkSize] at *
      omega
    · obtain ⟨s, listed, rfl⟩ := List.mem_map.mp known
      obtain ⟨c, there, unused, rfl⟩ := mem_freeSpans.mp listed
      obtain ⟨-, -, largeC⟩ := h.within c there
      simp only [Span.node, nodeOf, minChunkSize] at *
      rcases h.order member there with rfl | left | right
      · refine ⟨by omega, fun owned => ?_⟩
        rw [unused] at owned
        exact absurd owned.1 (by decide)
      · simp only [Span.stop] at *
        omega
      · simp only [Span.stop] at *
        omega
  refine ⟨fun b member word => (apart member).1 ?_, ?_, ?_⟩
  · simp only [wordAt] at word
    omega
  · rintro ⟨b, member, owned⟩
    exact (apart member).2 owned
  · rintro ⟨b, member, word⟩
    simp only [wordAt] at word
    exact (apart member).1 (by omega)

/-- The nodes of the free chunks lie in the heap. -/
theorem Scattered.nodes_within (h : Scattered start stop blocks) {byte : Nat}
    (on : onNodes (head :: (freeSpans blocks).map Span.node) byte)
    : heapByte head start stop byte := by
  obtain ⟨node, inside, low, high⟩ := on
  rcases List.mem_cons.mp inside with rfl | known
  · exact .inr ⟨low, high⟩
  · obtain ⟨s, listed, rfl⟩ := List.mem_map.mp known
    obtain ⟨b, member, -, rfl⟩ := mem_freeSpans.mp listed
    obtain ⟨above, below, large⟩ := h.within b member
    refine .inl ?_
    simp only [Span.node, nodeOf, Span.stop, minChunkSize] at *
    omega

/-- A change of list nodes spares payloads and feet, and no header changes. -/
theorem Scattered.change_nodes (h : Scattered start stop blocks) (room : Room head start stop)
    (changed : ChangedOnly (onNodes (head :: (freeSpans blocks).map Span.node)) m m')
    : (∀ b ∈ blocks, headWord m' b.addr = headWord m b.addr) ∧ Spares blocks m m' := by
  refine ⟨fun b member => headWord_of_changed changed (fun byte word on => ?_),
    fun byte spared => changed byte (fun on => ?_)⟩
  · exact (h.off_nodes room on).1 b member word
  · obtain ⟨-, owned, foot⟩ := h.off_nodes room on
    exact spared.elim owned foot

end Scattered

/-- Any chunk within a gap lies apart from those around it. -/
theorem Gap.scattered (h : Gap m head start low high stop front back free) {b : Block}
    (above : low ≤ b.addr) (large : minChunkSize ≤ b.size) (below : b.stop ≤ high)
    : Scattered start stop (front ++ b :: back) := by
  have first := h.before.le
  have last := h.behind.le
  refine ⟨fun c member => ?_, List.pairwise_append.mpr ⟨h.before.apart,
    .cons (fun c member => ?_) h.behind.apart, fun c inFront d inBack => ?_⟩⟩
  · rcases List.mem_append.mp member with left | inside
    · obtain ⟨addr, end_, size, -⟩ := h.before.block left
      simp only [Span.stop] at *
      omega
    · rcases List.mem_cons.mp inside with rfl | right
      · simp only [Span.stop] at *
        omega
      · obtain ⟨addr, end_, size, -⟩ := h.behind.block right
        simp only [Span.stop] at *
        omega
  · have addr := (h.behind.block member).1
    omega
  · have end_ := (h.before.block inFront).2.1
    rcases List.mem_cons.mp inBack with rfl | right
    · omega
    · have addr := (h.behind.block right).1
      simp only [Span.stop] at *
      omega

/-- A listed chunk lies in front of the gap or behind it. -/
theorem Gap.listed_where (h : Gap m head start low high stop front back free) {s : Span}
    (member : s ∈ free)
    : minChunkSize ≤ s.size
      ∧ (start ≤ s.addr ∧ s.stop ≤ low ∨ high ≤ s.addr ∧ s.stop ≤ stop) := by
  obtain ⟨b, inside, -, rfl⟩ := mem_freeSpans.mp (h.listed.subset member)
  rcases List.mem_append.mp inside with left | right
  · obtain ⟨above, below, large, -⟩ := h.before.block left
    exact ⟨large, Or.inl ⟨above, below⟩⟩
  · obtain ⟨above, below, large, -⟩ := h.behind.block right
    exact ⟨large, Or.inr ⟨above, below⟩⟩

/-- What a write inside the gap touches belongs to the heap. -/
theorem Gap.inside (h : Gap m head start low high stop front back free) {touched : Nat → Prop}
    (changed : ChangedOnly touched m m')
    (inside : ∀ byte, touched byte → low + 4 ≤ byte ∧ byte < high)
    : ChangedOnly (heapByte head start stop) m m' := by
  have left := h.before.le
  have right := h.behind.le
  refine changed.mono (fun byte on => .inl ?_)
  have place := inside byte on
  omega

/-- A gap does not feel any change of its own bytes, of the `prevFoot` word behind it, or of
bytes outside the heap and its list head.
-/
theorem Gap.change (h : Gap m head start low high stop front back free)
    (keep : ∀ byte, (start ≤ byte ∧ byte < low) ∨ (high + 4 ≤ byte ∧ byte < stop)
      ∨ (head ≤ byte ∧ byte < head + 8) → m' byte = m byte)
    : Gap m' head start low high stop front back free := by
  have header {b : Block} (member : b ∈ front ++ back)
      : headWord m' b.addr = headWord m b.addr := by
    refine load32_congr (fun byte above below => keep byte ?_)
    rcases List.mem_append.mp member with left | right
    · obtain ⟨addr, end_, large, -⟩ := h.before.block left
      simp only [Span.stop, minChunkSize] at *
      omega
    · obtain ⟨addr, end_, large, -⟩ := h.behind.block right
      simp only [Span.stop, minChunkSize] at *
      omega
  exact {
    before := h.before.transport (fun b member => header (List.mem_append_left _ member))
    behind := h.behind.transport (fun b member => header (List.mem_append_right _ member))
    list := by
      refine h.list.transport (fun byte on => keep byte ?_) (fun s member => ?_)
      · obtain ⟨node, inside, above, below⟩ := on
        rcases List.mem_cons.mp inside with rfl | listed
        · exact Or.inr (Or.inr ⟨above, below⟩)
        · obtain ⟨s, member, rfl⟩ := List.mem_map.mp listed
          have place := h.listed_where member
          simp only [Span.stop, Span.node, nodeOf, minChunkSize] at *
          omega
      · obtain ⟨b, inside, -, rfl⟩ := mem_freeSpans.mp (h.listed.subset member)
        rw [chunksize, chunksize, header inside]
    listed := h.listed
    room := h.room
  }

/-- Writes inside the gap, behind its own `prevFoot` word. -/
theorem Gap.write (h : Gap m head start low high stop front back free)
    {touched : Nat → Prop} (changed : ChangedOnly touched m m')
    (inside : ∀ byte, touched byte → low + 4 ≤ byte ∧ byte < high)
    : Gap m' head start low high stop front back free ∧ Spares (front ++ back) m m' := by
  have left := h.before.le
  have right := h.behind.le
  have away := h.room.away
  refine ⟨h.change (fun byte kept => changed byte (fun on => ?_)),
    fun byte spared => changed byte (fun on => ?_)⟩
  · have place := inside byte on
    omega
  · have place := inside byte on
    have apart {b : Block} (member : b ∈ front ++ back) : b.stop ≤ low ∨ high ≤ b.addr := by
      rcases List.mem_append.mp member with inFront | inBack
      · exact Or.inl (h.before.block inFront).2.1
      · exact Or.inr (h.behind.block inBack).1
    have large {b : Block} (member : b ∈ front ++ back) : minChunkSize ≤ b.size := by
      rcases List.mem_append.mp member with inFront | inBack
      · exact (h.before.block inFront).2.2.1
      · exact (h.behind.block inBack).2.2.1
    rcases spared with ⟨b, member, -, owned⟩ | ⟨b, member, foot⟩
    · have gap := apart member
      omega
    · have gap := apart member
      have size := large member
      simp only [wordAt, Span.stop, minChunkSize] at *
      omega

-----------------------------------------------------------------------------------------
-- Opening and closing
-----------------------------------------------------------------------------------------

/-- A chunk in use can be taken out of the walk as it is. -/
theorem Layout.openUsed {b : Block} (h : Layout m head start stop (front ++ b :: back) free)
    (used : b.used = true)
    : Gap m head start b.addr b.stop stop front back free where
  before := h.tiles.focus.1
  behind := h.tiles.focus.2.2.2.2
  list := h.list
  listed := by simpa [freeSpans_cons_used used] using h.listed
  room := h.room

/-- The end of the heap is an empty gap. -/
theorem Layout.openEnd (h : Layout m head start stop front free)
    : Gap m head start stop stop stop front [] free where
  before := h.tiles
  behind := rfl
  list := h.list
  listed := by simpa using h.listed
  room := h.room

/-- `removeChunk` takes a free chunk out of the list and the walk. -/
theorem Layout.openFree {b : Block} (h : Layout m head start stop (front ++ b :: back) free)
    (unused : b.used = false)
    : (∃ free', Gap (removeChunk b.addr m) head start b.addr b.stop stop front back free')
      ∧ headWord (removeChunk b.addr m) b.addr = b.header
      ∧ Spares (front ++ b :: back) m (removeChunk b.addr m)
      ∧ ChangedOnly (heapByte head start stop) m (removeChunk b.addr m) := by
  have listed : free.Perm (b.toSpan :: freeSpans (front ++ back)) := by
    refine h.listed.trans ?_
    rw [freeSpans_append, freeSpans_cons_free unused, freeSpans_append]
    exact List.perm_middle
  obtain ⟨left, right, rfl⟩ := List.append_of_mem (listed.mem_iff.mpr List.mem_cons_self)
  obtain ⟨list, changed⟩ := h.list.removeChunk
  have rest : (left ++ right).Perm (freeSpans (front ++ back)) :=
    (List.perm_middle.symm.trans listed).cons_inv
  have nodes : ChangedOnly (onNodes (head :: (freeSpans (front ++ b :: back)).map Span.node)) m
      (removeChunk b.addr m) := by
    refine changed.mono (fun byte on => on.mono (List.cons_subset_cons _ ?_))
    refine List.map_subset _ (fun s member => h.listed.subset ?_)
    rcases List.mem_append.mp member with inLeft | inRight
    · exact List.mem_append_left _ inLeft
    · exact List.mem_append_right _ (List.mem_cons_of_mem _ inRight)
  obtain ⟨headers, spares⟩ := h.tiles.scattered.change_nodes h.room nodes
  obtain ⟨before, -, -, header, behind⟩ := h.tiles.focus
  refine ⟨⟨left ++ right, ?_, ?_, list, rest, h.room⟩, ?_, spares,
    nodes.mono (fun _ on => h.tiles.scattered.nodes_within on)⟩
  · exact before.transport (fun c member => headers c (List.mem_append_left _ member))
  · exact behind.transport
      (fun c member => headers c (List.mem_append_right _ (List.mem_cons_of_mem _ member)))
  · rw [headers b (by simp), header]

/-- A gap that has shrunk to nothing is closed. -/
theorem Gap.close (h : Gap m head start low low stop front back free)
    : Layout m head start stop (front ++ back) free where
  tiles := (tiles_append front back).mpr ⟨low, h.before, h.behind⟩
  list := h.list
  listed := h.listed
  room := h.room

/-- The chunk in use behind a gap joins the gap. -/
theorem Gap.absorb {b : Block} (h : Gap m head start low high stop front (b :: back) free)
    (used : b.used = true)
    : Gap m head start low b.stop stop front back free := by
  obtain ⟨-, -, -, -, behind⟩ := h.behind
  exact ⟨h.before, behind, h.list, by simpa [freeSpans_cons_used used] using h.listed, h.room⟩

/-- A gap at the end of the heap moves the end. -/
theorem Gap.resize (h : Gap m head start low high stop front [] free) {stop' : Nat}
    (room : Room head start stop')
    : Gap m head start low stop' stop' front [] free :=
  ⟨h.before, rfl, h.list, h.listed, room⟩

/-- A chunk in use fills the front of a gap. -/
theorem Gap.pushFront {b : Block} (h : Gap m head start low high stop front back free)
    (addr : b.addr = low) (large : minChunkSize ≤ b.size) (aligned : b.size % 8 = 0)
    (header : headWord m b.addr = b.header) (used : b.used = true)
    : Gap m head start b.stop high stop (front ++ [b]) back free where
  before := (tiles_append front [b]).mpr ⟨low, h.before, addr, large, aligned, header, rfl⟩
  behind := h.behind
  list := h.list
  listed := by simpa [freeSpans_cons_used used] using h.listed
  room := h.room

/-- A chunk in use fills the back of a gap. -/
theorem Gap.pushBack {b : Block} (h : Gap m head start low high stop front back free)
    (end_ : b.stop = high) (large : minChunkSize ≤ b.size) (aligned : b.size % 8 = 0)
    (header : headWord m b.addr = b.header) (used : b.used = true)
    : Gap m head start low b.addr stop front (b :: back) free where
  before := h.before
  behind := ⟨rfl, large, aligned, header, end_ ▸ h.behind⟩
  list := h.list
  listed := by simpa [freeSpans_cons_used used] using h.listed
  room := h.room

/-- `insertChunk` lists a chunk that lies in the gap. No header changes but where the chunk's
own node is.
-/
theorem Gap.insert {b : Block} (h : Gap m head start low high stop front back free)
    (above : low ≤ b.addr) (large : minChunkSize ≤ b.size) (below : b.stop ≤ high)
    (aligned : b.size % 8 = 0) (header : headWord m b.addr = b.header) (unused : b.used = false)
    : ∃ m' free', insertChunk b.addr head m = some m' ∧ FreeList m' head free'
        ∧ free'.Perm (freeSpans (front ++ b :: back))
        ∧ Tiles m' start front low ∧ Tiles m' high back stop
        ∧ (∀ chunk, low ≤ chunk → chunk + 8 ≤ high →
            chunk + 8 ≤ b.node ∨ b.node + 4 ≤ chunk → headWord m' chunk = headWord m chunk)
        ∧ Spares (front ++ b :: back) m m' ∧ ChangedOnly (heapByte head start stop) m m' := by
  have scattered := h.scattered above large below
  have first := h.before.le
  have last := h.behind.le
  have away := h.room.away
  have fits := h.room.fits
  have apart : ∀ c ∈ free, chunksApart b.toSpan c := by
    intro c member
    obtain ⟨size, place⟩ := h.listed_where member
    simp only [chunksApart, Span.stop, minChunkSize] at *
    omega
  obtain ⟨m', left, right, stored, rfl, list, changed⟩ := h.list.insertChunk apart
    (by simp only [headApart, Span.stop, minChunkSize] at *; omega)
    (by simp only [Span.stop, minChunkSize] at *; omega)
    (chunksize_of_header header aligned)
  have listed : (left ++ b.toSpan :: right).Perm (freeSpans (front ++ b :: back)) := by
    rw [freeSpans_append, freeSpans_cons_free unused]
    refine List.perm_middle.trans ((List.Perm.cons _ ?_).trans List.perm_middle.symm)
    simpa using h.listed
  have nodes : ChangedOnly (onNodes (head :: (freeSpans (front ++ b :: back)).map Span.node)) m m' :=
    changed.mono (fun byte on => on.mono (List.cons_subset_cons _ (List.map_subset _
      (fun s member => listed.subset (List.perm_middle.symm.subset member)))))
  obtain ⟨headers, spares⟩ := scattered.change_nodes h.room nodes
  refine ⟨m', _, stored, list, listed, ?_, ?_, ?_, spares,
    nodes.mono (fun _ on => scattered.nodes_within on)⟩
  · exact h.before.transport (fun c member => headers c (List.mem_append_left _ member))
  · exact h.behind.transport
      (fun c member => headers c (List.mem_append_right _ (List.mem_cons_of_mem _ member)))
  · intro chunk low_le le_high off
    refine headWord_onNodes changed (fun node member => ?_)
    rcases List.mem_cons.mp member with rfl | inside
    · simp only [Span.stop] at *
      omega
    · rcases List.mem_cons.mp inside with rfl | known
      · omega
      · obtain ⟨s, there, rfl⟩ := List.mem_map.mp known
        obtain ⟨size, place⟩ := h.listed_where there
        simp only [Span.stop, Span.node, nodeOf, minChunkSize] at *
        omega

/-- A free chunk fills the front of a gap. -/
theorem Gap.insertFront {b : Block} (h : Gap m head start low high stop front back free)
    (addr : b.addr = low) (large : minChunkSize ≤ b.size) (below : b.stop ≤ high)
    (aligned : b.size % 8 = 0) (header : headWord m b.addr = b.header) (unused : b.used = false)
    : ∃ m' free', insertChunk b.addr head m = some m'
        ∧ Gap m' head start b.stop high stop (front ++ [b]) back free'
        ∧ (∀ chunk, b.stop ≤ chunk → chunk + 8 ≤ high → headWord m' chunk = headWord m chunk)
        ∧ Spares (front ++ b :: back) m m' ∧ ChangedOnly (heapByte head start stop) m m' := by
  obtain ⟨m', free', stored, list, listed, before, behind, inside, spares⟩ :=
    h.insert (le_of_eq addr.symm) large below aligned header unused
  refine ⟨m', free', stored, ⟨?_, behind, list, by simpa using listed, h.room⟩, ?_, spares⟩
  · refine (tiles_append front [b]).mpr ⟨low, before, addr, large, aligned, ?_, rfl⟩
    rw [inside b.addr (le_of_eq addr.symm) (by simp only [Span.stop, minChunkSize] at *; omega)
      (by simp only [Span.node, nodeOf]; omega), header]
  · intro chunk above fits
    exact inside chunk (by simp only [Span.stop] at *; omega) fits
      (by simp only [Span.stop, Span.node, nodeOf, minChunkSize] at *; omega)

/-- A free chunk fills the back of a gap. -/
theorem Gap.insertBack {b : Block} (h : Gap m head start low high stop front back free)
    (above : low ≤ b.addr) (large : minChunkSize ≤ b.size) (end_ : b.stop = high)
    (aligned : b.size % 8 = 0) (header : headWord m b.addr = b.header) (unused : b.used = false)
    : ∃ m' free', insertChunk b.addr head m = some m'
        ∧ Gap m' head start low b.addr stop front (b :: back) free'
        ∧ (∀ chunk, low ≤ chunk → chunk + 8 ≤ b.addr → headWord m' chunk = headWord m chunk)
        ∧ Spares (front ++ b :: back) m m' ∧ ChangedOnly (heapByte head start stop) m m' := by
  obtain ⟨m', free', stored, list, listed, before, behind, inside, spares⟩ :=
    h.insert above large (le_of_eq end_) aligned header unused
  refine ⟨m', free', stored, ⟨before, ?_, list, listed, h.room⟩, ?_, spares⟩
  · refine ⟨rfl, large, aligned, ?_, end_ ▸ behind⟩
    rw [inside b.addr above (by simp only [Span.stop, minChunkSize] at *; omega)
      (by simp only [Span.node, nodeOf]; omega), header]
  · intro chunk low_le fits
    exact inside chunk low_le (by simp only [Span.stop] at *; omega)
      (by simp only [Span.node, nodeOf]; omega)

/-- A block in front of the gap has its header there. -/
theorem Gap.off_front (h : Gap m head start low high stop front back free) (le : low ≤ high)
    {b : Block} (member : b ∈ front)
    : b.addr + 4 ≤ high := by
  obtain ⟨-, end_, large, -⟩ := h.before.block member
  simp only [Span.stop, minChunkSize] at *
  omega

/-- A block behind the gap is the first one there or lies behind that one. -/
theorem Gap.off_back (h : Gap m head start low high stop front back free) {b : Block}
    (member : b ∈ back)
    : b.addr = high ∨ high + minChunkSize ≤ b.addr := by
  cases back with
  | nil => exact absurd member List.not_mem_nil
  | cons c rest =>
      obtain ⟨addr, large, -, -, tail⟩ := h.behind
      rcases List.mem_cons.mp member with rfl | inside
      · exact Or.inl addr
      · have behind := (tail.block inside).1
        simp only [Span.stop] at *
        omega

/-- The walk from a chunk sees its new flag. -/
theorem Tiles.markFirst (h : Tiles m high back stop)
    : Tiles (setPinuse high m) high (DeadKernel.markFirst back) stop := by
  cases back with
  | nil => exact h
  | cons c rest =>
      obtain ⟨addr, large, aligned, header, tail⟩ := h
      refine ⟨addr, large, aligned, ?_,
        tail.transport (fun b member => setPinuse_other m (Or.inr ?_))⟩
      · have prev := Bool.toNat_le c.prevUsed
        change headWord (setPinuse high m) c.addr = c.size + (c.used.toNat * 2 + 1)
        rw [addr, (setPinuse_spec m high).1, ← addr, header, Block.header]
        omega
      · have behind := (tail.block member).1
        simp only [Span.stop, minChunkSize] at *
        omega

/-- No node of the list is in the header behind a gap, and the flag is no part of a size. -/
theorem Gap.mark_list (h : Gap m head start low high stop front back free) (le : low ≤ high)
    : FreeList (setPinuse high m) head free := by
  have away := h.room.away
  have first := h.before.le
  obtain ⟨word, changed⟩ := setPinuse_spec m high
  refine h.list.transport (fun byte on => changed byte (fun own => ?_)) (fun s member => ?_)
  · obtain ⟨node, inside, above, below⟩ := on
    simp only [wordAt] at own
    rcases List.mem_cons.mp inside with rfl | known
    · have last := h.behind.le
      omega
    · obtain ⟨s, there, rfl⟩ := List.mem_map.mp known
      obtain ⟨b, place, -, rfl⟩ := mem_freeSpans.mp (h.listed.subset there)
      simp only [Span.node, nodeOf, minChunkSize] at *
      rcases List.mem_append.mp place with left | right
      · obtain ⟨-, end_, large, -⟩ := h.before.block left
        simp only [Span.stop, minChunkSize] at *
        omega
      · have := h.off_back right
        omega
  · obtain ⟨b, place, -, rfl⟩ := mem_freeSpans.mp (h.listed.subset member)
    rw [chunksize_eq, chunksize_eq]
    rcases List.mem_append.mp place with left | right
    · rw [setPinuse_other m (Or.inl (h.off_front le left))]
    · rcases h.off_back right with same | above
      · rw [same, word]
        omega
      · rw [setPinuse_other m (by simp only [minChunkSize] at above; omega)]

/-- The header behind a gap belongs to no block's payload and to no footer. -/
theorem Gap.mark_spares (h : Gap m head start low high stop front back free) (le : low ≤ high)
    : Spares (front ++ back) m (setPinuse high m) := by
  intro byte spared
  refine (setPinuse_spec m high).2 byte (fun on => ?_)
  rcases spared with ⟨b, member, -, above, below⟩ | ⟨b, member, foot⟩
  · rcases List.mem_append.mp member with left | right
    · have end_ := (h.before.block left).2.1
      simp only [wordAt] at on
      omega
    · have := h.off_back right
      simp only [wordAt, minChunkSize] at *
      omega
  · rcases List.mem_append.mp member with left | right
    · have := h.off_front le left
      simp only [wordAt] at *
      omega
    · have := h.off_back right
      simp only [wordAt, minChunkSize] at *
      omega

/-- `set_pinuse` on the chunk behind a gap. -/
theorem Gap.mark (h : Gap m head start low high stop front back free) (le : low ≤ high)
    : Gap (setPinuse high m) head start low high stop front (markFirst back) free
      ∧ Spares (front ++ back) m (setPinuse high m)
      ∧ (back ≠ [] → ChangedOnly (heapByte head start stop) m (setPinuse high m)) := by
  have before : Tiles (setPinuse high m) start front low :=
    h.before.transport (fun b member => setPinuse_other m (Or.inl (h.off_front le member)))
  refine ⟨⟨before, h.behind.markFirst, h.mark_list le, by simpa using h.listed, h.room⟩,
    h.mark_spares le, fun some_ => (setPinuse_spec m high).2.mono (fun byte on => .inl ?_)⟩
  have first := h.before.le
  have last := h.behind.le
  have length := List.length_pos_iff.mpr some_
  simp only [wordAt, minChunkSize] at *
  omega

/-- `set_inuse` on the last chunk of a gap marks the chunk behind it as well. -/
theorem Gap.markUsed (h : Gap m head start low high stop front back free) (chunk size : Nat)
    (above : low ≤ chunk) (large : minChunkSize ≤ size) (aligned : size % 8 = 0)
    (end_ : chunk + size = high)
    : Gap (setInuse chunk size m) head start low high stop front (markFirst back) free
      ∧ headWord (setInuse chunk size m) chunk = size + (2 + headWord m chunk % 2)
      ∧ Spares (front ++ back) m (setInuse chunk size m)
      ∧ (back ≠ [] → ChangedOnly (heapByte head start stop) m (setInuse chunk size m)) := by
  have last := h.behind.le
  have fits := h.room.fits
  have small : size + (2 + headWord m chunk % 2) < wordSize := by
    simp only [minChunkSize, wordSize] at *
    omega
  rw [setInuse_eq m aligned (by omega), end_]
  have header := setHeadWord_changed m chunk (size + (2 + headWord m chunk % 2))
  have inside : ∀ byte, wordAt (chunk + 4) byte → low + 4 ≤ byte ∧ byte < high := by
    intro byte on
    simp only [wordAt, minChunkSize] at *
    omega
  obtain ⟨written, spares⟩ := h.write header inside
  obtain ⟨marked, spares', within⟩ := written.mark (by omega)
  refine ⟨marked, ?_, spares.trans spares', fun some => (h.inside header inside).trans (within some)⟩
  rw [setPinuse_other _ (Or.inl (by simp only [minChunkSize] at large; omega)),
    headWord_set small]

end Gap

end DeadKernel
