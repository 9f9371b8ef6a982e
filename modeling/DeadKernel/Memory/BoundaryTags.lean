import DeadKernel.Memory.Coalescing

/-! The PINUSE flags and the sizes in `prevFoot`. `alloc` and the lead of `palignedAlloc` keep them;
`free` stores the size behind the block but never clears a flag inside the heap, and a hole that is
split leaves the old size behind it. So the tags tell the truth as long as only the last chunk of the
heap is freed or split.
-/

namespace DeadKernel

open Words

-----------------------------------------------------------------------------------------
-- Tags
-----------------------------------------------------------------------------------------

/-- What the header and the foot of a chunk tell of the chunk in front of it. -/
def TagTells (m : Mem) (prev chunk : Nat) : Prop :=
  pinuse m chunk = cinuse m prev ∧ (pinuse m chunk = false → prevFoot m chunk = chunksize m prev)

/-- All chunks of the walk but the first have tags that tell the truth. -/
def HeapTagged (heap : Nat) (st : Kernel) : Prop :=
  ∃ chunks, ChunkWalk st.mem (st.heaps heap).startAddr chunks (st.heaps heap).endAddr
    ∧ chunks.IsChain (TagTells st.mem)

/-- The same of the chunks of a layout; besides, a free chunk stands behind one in use. -/
structure TagAfter (m : Mem) (b c : Block) : Prop where
  flag : c.prevUsed = b.used
  foot : c.prevUsed = false → prevFoot m c.addr = b.size
  marked : c.used = false → c.prevUsed = true

/-- What stands in front of the first chunk counts as in use. -/
def fence : Block := ⟨⟨0, 0⟩, true, true⟩

def Tagged (m : Mem) (blocks : List Block) : Prop := (fence :: blocks).IsChain (TagAfter m)

section Tags

variable {m m' : Mem} {front back blocks : List Block} {b c : Block} {addr stop : Nat}

theorem TagAfter.of_marked (used : b.used = true) (marked : c.prevUsed = true) : TagAfter m b c :=
  ⟨marked.trans used.symm, fun clear => by rw [marked] at clear; contradiction, fun _ => marked⟩

/-- Only the feet of chunks whose flag is clear count. -/
theorem Tagged.transport (h : Tagged m blocks)
    (feet : ∀ c ∈ blocks, c.prevUsed = false → prevFoot m' c.addr = prevFoot m c.addr)
    : Tagged m' blocks := by
  refine List.IsChain.imp_of_mem_tail_imp (fun b c _ inside tag => ?_) h
  exact ⟨tag.flag, fun clear => (feet c inside clear).trans (tag.foot clear), tag.marked⟩

/-- The tags of a chunk, behind whatever stands in front of it. -/
theorem Tagged.tag (h : Tagged m (front ++ b :: back)) : ∃ a, TagAfter m a b := by
  rw [Tagged, ← List.cons_append] at h
  have split := List.isChain_append.mp h
  obtain ⟨a, last⟩ := Option.isSome_iff_exists.mp
    (List.getLast?_isSome.mpr (List.cons_ne_nil fence front))
  exact ⟨a, split.2.2 a last b rfl⟩

theorem Tagged.marked_of_free (h : Tagged m (front ++ b :: back)) (unused : b.used = false)
    : b.prevUsed = true := by
  obtain ⟨a, tag⟩ := h.tag
  exact tag.marked unused

theorem Tagged.from_ (h : Tagged m (front ++ b :: back)) : (b :: back).IsChain (TagAfter m) := by
  rw [Tagged, ← List.cons_append] at h
  exact h.right_of_append

theorem Tagged.left (h : Tagged m (front ++ back)) : Tagged m front := by
  rw [Tagged, ← List.cons_append] at h
  exact h.left_of_append

/-- Another chunk may stand behind the front, with the tags of the first. -/
theorem Tagged.replace (h : Tagged m (front ++ b :: back))
    (same : ∀ a, TagAfter m a b → TagAfter m a c) (rest : (c :: blocks).IsChain (TagAfter m))
    : Tagged m (front ++ c :: blocks) := by
  rw [Tagged, ← List.cons_append] at h ⊢
  have split := List.isChain_split.mp h
  refine List.isChain_split.mpr ⟨?_, rest⟩
  have left := List.isChain_append.mp split.1
  refine List.isChain_append.mpr ⟨left.1, .singleton _, fun a last d first => ?_⟩
  rw [← Option.some.inj first]
  exact same a (left.2.2 a last b rfl)

/-- The flag of the chunk behind one that is in use now. -/
theorem isChain_markFirst (used : c.used = true) (rest : (b :: back).IsChain (TagAfter m))
    : (c :: markFirst back).IsChain (TagAfter m) := by
  cases back with
  | nil => exact .singleton _
  | cons first behind =>
      have tail := (List.isChain_cons_cons.mp rest).2
      refine List.isChain_cons_cons.mpr ⟨.of_marked used rfl, ?_⟩
      cases behind with
      | nil => exact .singleton _
      | cons second more =>
          obtain ⟨tag, others⟩ := List.isChain_cons_cons.mp tail
          exact List.isChain_cons_cons.mpr ⟨⟨tag.flag, tag.foot, tag.marked⟩, others⟩

/-- The last chunk of `blocks`, or the fence, is in use. -/
theorem Tagged.append_top (h : Tagged m blocks)
    (last : ∀ front b, blocks = front ++ [b] → b.used = true)
    : Tagged m (blocks ++ [topBlock addr stop]) := by
  rw [Tagged, ← List.cons_append]
  refine List.isChain_append.mpr ⟨h, .singleton _, fun a end_ d first => ?_⟩
  rw [← Option.some.inj first]
  refine .of_marked ?_ rfl
  rcases List.eq_nil_or_concat blocks with rfl | ⟨front, b, rfl⟩
  · rw [← Option.some.inj end_]
    rfl
  · rw [List.concat_eq_append, ← List.cons_append, List.getLast?_concat] at end_
    rw [← Option.some.inj end_]
    exact last front b (List.concat_eq_append)

/-- A chunk whose flag is set stands behind one in use. -/
theorem Tagged.last_used (h : Tagged m (front ++ b :: back)) (marked : b.prevUsed = true)
    : ∀ before a, front = before ++ [a] → a.used = true := by
  rintro before a rfl
  rw [Tagged, List.append_assoc, List.singleton_append, ← List.cons_append] at h
  obtain ⟨-, tag, -⟩ := List.isChain_append_cons_cons.mp h
  exact tag.flag.symm.trans marked

/-- A free chunk at the end, where there was one that had its flag set. -/
theorem Tagged.trimmed (h : Tagged m front) (last : ∀ before a, front = before ++ [a] → a.used = true)
    : Tagged m (front ++ trimmed addr stop) := by
  rw [DeadKernel.trimmed]
  split
  · exact h.append_top last
  · rwa [List.append_nil]

end Tags

theorem HeapOk.tagged {heap : Nat} {st : Kernel} {blocks : List Block} {free : List Span}
    (h : HeapOk heap st blocks free) (tagged : Tagged st.mem blocks)
    : HeapTagged heap st := by
  refine ⟨_, h.layout.tiles.chunkWalk, (List.isChain_map _).mpr ?_⟩
  have chain : blocks.IsChain (TagAfter st.mem) := List.IsChain.tail tagged
  refine List.IsChain.imp_of_mem_imp (fun b c inside there tag => ?_) chain
  obtain ⟨-, -, -, aligned, header⟩ := h.layout.tiles.block inside
  obtain ⟨-, -, -, aligned', header'⟩ := h.layout.tiles.block there
  rw [TagTells, pinuse_of_header header' aligned', cinuse_of_header header aligned,
    chunksize_of_header header aligned]
  exact ⟨tag.flag, tag.foot⟩

-----------------------------------------------------------------------------------------
-- Steps
-----------------------------------------------------------------------------------------

section Steps

variable {heap nb : Nat} {st st' from_ : Kernel} {blocks blocks' front back : List Block}
  {b c : Block} {free : List Span}

/-- A growth keeps the tags. -/
theorem AllocFrom.tagged (source : AllocFrom nb heap st blocks from_ blocks')
    (h : HeapOk heap st blocks free) (tagged : Tagged st.mem blocks)
    : Tagged from_.mem blocks' := by
  cases source with
  | here => exact tagged
  | @grown _ grown _ front addr aside expanded record top le only within spares =>
      have feet {more : List Block} (same : blocks = front ++ more)
          : Tagged from_.mem front := by
        subst same
        refine tagged.left.transport (fun c inside _ => load32_congr (fun byte above below =>
          spares byte ?_ (.inr ⟨c, inside, above, below⟩)))
        obtain ⟨-, end_, large, -⟩ := h.layout.tiles.block (List.mem_append_left more inside)
        simp only [Span.stop, minChunkSize] at *
        omega
      cases top with
      | @reused _ c unused =>
          exact (feet rfl).append_top (tagged.last_used (tagged.marked_of_free unused))
      | fresh last => exact (feet (List.append_nil _).symm).append_top last

/-- A hole that is the last chunk or is taken whole keeps the tags. -/
theorem Tagged.taken (tagged : Tagged st.mem (front ++ b :: back)) (unused : b.used = false)
    (spares : Spares (front ++ back) st.mem st'.mem)
    (whole : b.size < nb + minChunkSize ∨ back = [])
    : Tagged st'.mem (front ++ takenFrom nb b back) := by
  have marked : b.prevUsed = true := tagged.marked_of_free unused
  have kept : Tagged st'.mem (front ++ b :: back) := by
    refine tagged.transport (fun c inside clear => ?_)
    rcases List.mem_append.mp inside with left | right
    · exact spares.prevFoot (List.mem_append_left _ left)
    · rcases List.mem_cons.mp right with rfl | behind
      · rw [marked] at clear
        contradiction
      · exact spares.prevFoot (List.mem_append_right _ behind)
  have same (size : Nat) : ∀ a, TagAfter st'.mem a b
      → TagAfter st'.mem a ⟨⟨b.addr, size⟩, true, b.prevUsed⟩ :=
    fun a tag => ⟨tag.flag, tag.foot, fun free => by contradiction⟩
  rw [takenFrom]
  split
  · rename_i split
    obtain rfl := whole.resolve_left (by omega)
    exact kept.replace (same nb) (List.isChain_pair.mpr (.of_marked rfl rfl))
  · exact kept.replace (same b.size) (isChain_markFirst rfl kept.from_)

/-- The cuts of `palignedAlloc` keep the tags, if the word where the header of the result comes to
stand has its lowest bit clear, and a remainder that is given back is the last chunk.
-/
theorem HeapOk.cut_tagged {chunk : Nat} {carved : Kernel}
    (h : HeapOk heap st (front ++ c :: back) free) (used : c.used = true) (marked : c.prevUsed = true)
    (tagged : Tagged st.mem (front ++ c :: back)) (room : nb + 4112 ≤ c.size) (size : ChunkSize nb)
    (least : (st.heaps heap).startAddr + heapMinSize ≤ (st.heaps heap).endAddr)
    (fine : back = [] → nb + minChunkSize < c.stop - alignedChunk (c.addr + 8)
      → BehindFine st.mem (st.heaps heap).endAddr)
    (clear : alignedChunk (c.addr + 8) ≠ c.addr → pinuse st.mem (alignedChunk (c.addr + 8)) = false)
    (ends : nb + minChunkSize < c.stop - alignedChunk (c.addr + 8) → back = [])
    (lead : carveLead (c.addr + 8) heap st = some (chunk, carved))
    (tail : trimTail nb chunk heap carved = some st')
    : ∃ blocks free', HeapOk heap st' blocks free' ∧ Tagged st'.mem blocks := by
  obtain ⟨m, free₁, pieces, moved, carved_, ok, spares, written, -, half⟩ := h.carve used room size
  obtain ⟨rfl, rfl⟩ := Prod.mk.inj (Option.some.inj (moved.symm.trans lead))
  have near := h.alignedChunk_near room
  generalize alignedChunk (c.addr + 8) = chunk at *
  have kept : Tagged m (front ++ c :: back) := by
    refine tagged.transport (fun d inside flag => ?_)
    rcases List.mem_append.mp inside with left | right
    · exact spares.prevFoot (List.mem_append_left _ left)
    · rcases List.mem_cons.mp right with rfl | behind
      · rw [marked] at flag
        contradiction
      · exact spares.prevFoot (List.mem_append_right _ behind)
  have first : Tagged m (front ++ pieces) := by
    cases carved_ with
    | whole same => exact kept
    | lead flag room =>
        have other : chunk ≠ c.addr := by
          simp only [minChunkSize] at room
          omega
        obtain ⟨same, foot⟩ := written other
        have result := (List.append_cons _ _ _ ▸ ok.layout.tiles).focus
        have told : pinuse m chunk = flag := pinuse_of_header result.2.2.2.1 result.2.2.1
        have own : flag = false := by
          rw [← told, same]
          exact clear other
        refine kept.replace (fun a tag => .of_marked (tag.flag.symm.trans marked) rfl) ?_
        refine List.isChain_cons_cons.mpr ⟨⟨own, fun _ => foot, fun free => by contradiction⟩, ?_⟩
        exact isChain_markFirst rfl kept.from_
  obtain ⟨d, rest, rfl, usedD, rfl, stop, same, -⟩ := carved_.shape used near.1
  rw [← List.append_assoc] at ok first
  simp only [Span.stop] at stop near fine ends
  by_cases long : nb + minChunkSize < d.size
  · have bare := ends (by omega)
    have none : rest = [] := by
      rcases same with rfl | rfl
      · exact bare
      · rw [bare]
        rfl
    subst none
    obtain ⟨free', newSize, newStop, rest', after, -, -, shape, -, cut, -, -, -⟩ :=
      ok.trim usedD size (by omega) least (fun _ _ => (fine bare (by omega)).of_half (half bare)) tail
    obtain rfl : rest' = [] := shape.elim id id
    have second : Tagged st'.mem (front ++ trimmed c.addr d.addr ++ [d]) := by
      refine first.transport (fun e inside _ => ?_)
      rcases List.mem_append.mp inside with left | own
      · exact cut.front.prevFoot left
      · rw [List.mem_singleton.mp own]
        exact cut.foot
    let part : Block := ⟨⟨d.addr, newSize⟩, true, d.prevUsed⟩
    have third : Tagged st'.mem (front ++ trimmed c.addr d.addr ++ [part]) :=
      second.replace (fun a tag => ⟨tag.flag, tag.foot, fun free => by contradiction⟩) (.singleton _)
    refine ⟨_, free', after, ?_⟩
    rw [List.append_nil, List.append_cons]
    refine third.trimmed (fun before a same => ?_)
    obtain ⟨-, last⟩ := List.append_inj' same rfl
    rw [← List.singleton_inj.mp last]
  · rw [ok.trim_eq (by omega), if_neg long] at tail
    obtain rfl := Option.some.inj tail
    exact ⟨_, free₁, ok, first⟩

end Steps

-----------------------------------------------------------------------------------------
-- Runs
-----------------------------------------------------------------------------------------

/-- A hole that is split is the last chunk. -/
def SplitLast (nb heap hole : Nat) (st : Kernel) : Prop :=
  nb + minChunkSize ≤ chunksize st.mem hole
    → hole + chunksize st.mem hole = (st.heaps heap).endAddr

/-- What is asked of the chunk that `alloc` delivers for `palignedAlloc`: in the word where the header
behind a lead comes to stand the PINUSE bit is clear, and a remainder is the last chunk.
-/
structure CutTagged (nb heap mem : Nat) (st : Kernel) : Prop where
  lead : alignedChunk mem ≠ mem2Chunk mem → pinuse st.mem (alignedChunk mem) = false
  remainder : nb + minChunkSize
      < mem2Chunk mem + chunksize st.mem (mem2Chunk mem) - alignedChunk mem
    → mem2Chunk mem + chunksize st.mem (mem2Chunk mem) = (st.heaps heap).endAddr

/-- A call on a heap whose tags tell the truth that keeps them so. -/
inductive TagMove (heap : Nat) : Kernel × Pointers → Kernel × Pointers → Prop where
  | alloc {fuel size p : Nat} {st st' : Kernel} {ps : Pointers} (fits : size + 11 < wordSize)
      (aside : AllocAside fuel size heap st)
      (hole : HoleIs (SplitLast (request2Size size) heap) fuel size heap st)
      (run : alloc fuel size heap st = some (p, st'))
      : TagMove heap (st, ps) (st', ps.returned p)
  | palignedAlloc {fuel size p : Nat} {st st' : Kernel} {ps : Pointers}
      (fits : size + pageSize + 64 < wordSize)
      (aside : AllocAside fuel (alignedRequest (request2Size size)) heap st)
      (fine : HoleIs (RemainderFine (request2Size size) heap) fuel
        (alignedRequest (request2Size size)) heap st)
      (hole : HoleIs (SplitLast (request2Size (alignedRequest (request2Size size))) heap) fuel
        (alignedRequest (request2Size size)) heap st)
      (cut : ∀ mem delivered,
        DeadKernel.alloc fuel (alignedRequest (request2Size size)) heap st = some (mem, delivered)
        → CutTagged (request2Size size) heap mem delivered)
      (run : palignedAlloc fuel size heap st = some (p, st'))
      : TagMove heap (st, ps) (st', ps.returned p)
  | free {p : Nat} {st st' : Kernel} {ps : Pointers} (member : p ∈ ps.live)
      (last : mem2Chunk p + chunksize st.mem (mem2Chunk p) = (st.heaps heap).endAddr)
      (behind : EndMarked st.mem (st.heaps heap).endAddr)
      (run : free p heap st = some st')
      : TagMove heap (st, ps) (st', ps.givenBack p)

/-- A heap in good order whose tags tell the truth. -/
structure TaggedHeap (heap : Nat) (st : Kernel) (live : List Nat) (blocks : List Block)
    (free : List Span) : Prop where
  good : GoodHeap heap st live blocks free
  tagged : Tagged st.mem blocks

section Runs

variable {heap : Nat} {st st' from_ : Kernel} {live : List Nat} {blocks front back : List Block}
  {b : Block} {free : List Span} {s s' : Kernel × Pointers}

/-- A hole that `SplitLast` is about. -/
theorem SplitLast.whole {nb : Nat} (hole : SplitLast nb heap b.addr from_)
    (ok : HeapOk heap from_ (front ++ b :: back) free)
    : b.size < nb + minChunkSize ∨ back = [] := by
  obtain ⟨-, size⟩ := ok.chunksize_mem (b := b) (by simp)
  rw [SplitLast, size] at hole
  by_cases long : nb + minChunkSize ≤ b.size
  · exact .inr (ok.layout.tiles.none_behind (hole long))
  · exact .inl (not_le.mp long)

theorem TaggedHeap.alloc {fuel size p : Nat} (h : TaggedHeap heap st live blocks free)
    (fits : size + 11 < wordSize) (aside : AllocAside fuel size heap st)
    (hole : HoleIs (SplitLast (request2Size size) heap) fuel size heap st)
    (run : alloc fuel size heap st = some (p, st'))
    : ∃ blocks' free', TaggedHeap heap st' (p :: live) blocks' free' := by
  obtain ⟨from_, front, b, back, free', source, unused, -, -, -, ⟨free₁, ok⟩, spares, good, after⟩ :=
    h.good.alloc fits aside run
  exact ⟨_, free', after, (source.tagged h.good.ok h.tagged).taken unused spares
    ((good _ hole).whole ok)⟩

/-- The chunk that a call takes keeps the flag of the hole. -/
theorem takenFrom_prevUsed {nb : Nat} {c : Block} {rest : List Block}
    (first : takenFrom nb b back = c :: rest)
    : c.prevUsed = b.prevUsed := by
  rw [takenFrom] at first
  split at first
  all_goals
    obtain ⟨rfl, -⟩ := List.cons_eq_cons.mp first
    rfl

theorem TaggedHeap.aligned {fuel size p : Nat} (h : TaggedHeap heap st live blocks free)
    (fits : size + pageSize + 64 < wordSize)
    (aside : AllocAside fuel (alignedRequest (request2Size size)) heap st)
    (fine : HoleIs (RemainderFine (request2Size size) heap) fuel
      (alignedRequest (request2Size size)) heap st)
    (hole : HoleIs (SplitLast (request2Size (alignedRequest (request2Size size))) heap) fuel
      (alignedRequest (request2Size size)) heap st)
    (cut : ∀ mem delivered,
      DeadKernel.alloc fuel (alignedRequest (request2Size size)) heap st = some (mem, delivered)
      → CutTagged (request2Size size) heap mem delivered)
    (run : palignedAlloc fuel size heap st = some (p, st'))
    : ∃ blocks' free', TaggedHeap heap st' (p :: live) blocks' free' := by
  obtain ⟨_, _, _, _, _, _, _, _, free', -, -, -, -, -, -, -, -, -, -, -, -, after⟩ :=
    h.good.aligned fits aside fine run
  obtain ⟨mem, delivered, took, stages⟩ := palignedAlloc_stages run
  simp only [pageSize] at fits
  obtain ⟨nb, -, most⟩ := request2Size_spec (by omega : size + 11 < wordSize)
  obtain ⟨front, c, back, _, ok, used, rfl, room, least, fine', from_, b, behind, source, unused,
    addr, -, first, heaps, ⟨free₁, before⟩, spares, good⟩ :=
    h.good.ok.delivered h.good.least (by omega) nb aside fine took
  obtain ⟨chunk, carved, lead, tail, rfl⟩ := stages (Nat.succ_ne_zero _)
  obtain ⟨leads, remainder⟩ := cut _ _ took
  obtain ⟨own, size⟩ := ok.chunksize_mem (b := c) (by simp)
  rw [own, size] at remainder
  rw [own] at leads
  have old : Tagged from_.mem (front ++ b :: behind) := source.tagged h.good.ok h.tagged
  have taken : Tagged delivered.mem (front ++ c :: back) := by
    rw [← first]
    exact old.taken unused spares ((good _ hole).whole before)
  have marked : c.prevUsed = true := (takenFrom_prevUsed first).trans (old.marked_of_free unused)
  obtain ⟨blocks', free'', ok', tagged⟩ := ok.cut_tagged used marked taken room nb least fine' leads
    (fun long => ok.layout.tiles.none_behind (remainder long)) lead tail
  obtain rfl := ok'.layout.tiles.unique after.ok.layout.tiles
  exact ⟨_, free', after, tagged⟩

/-- In front of a chunk whose flag is clear stands a free chunk of the size in its foot. -/
theorem Tagged.in_front {m : Mem} (h : Tagged m (front ++ b :: back)) (clear : b.prevUsed = false)
    : ∃ before a, front = before ++ [a] ∧ a.used = false ∧ prevFoot m b.addr = a.size
        ∧ Tagged m (before ++ a :: b :: back) := by
  rcases List.eq_nil_or_concat front with rfl | ⟨before, a, rfl⟩
  · obtain ⟨tag, -⟩ := List.isChain_cons_cons.mp h
    rw [tag.flag] at clear
    contradiction
  · rw [List.concat_eq_append, List.append_assoc, List.singleton_append] at h
    have chain := h
    rw [Tagged, ← List.cons_append] at chain
    obtain ⟨-, tag, -⟩ := List.isChain_append_cons_cons.mp chain
    exact ⟨before, a, List.concat_eq_append, tag.flag.symm.trans clear, tag.foot clear, h⟩

theorem TaggedHeap.sound {p : Nat} (h : TaggedHeap heap st live blocks free)
    (behind : EndMarked st.mem (st.heaps heap).endAddr)
    : FreeSound p heap st := by
  refine ⟨fun free' before b back ok _ => ?_, fun _ => behind⟩
  obtain rfl := ok.layout.tiles.unique h.good.ok.layout.tiles
  cases flag : b.prevUsed with
  | true => exact ⟨_, _, .alone flag⟩
  | false =>
      obtain ⟨front, a, rfl, unused, foot, -⟩ := h.tagged.in_front flag
      exact ⟨_, _, .joined flag unused foot⟩

/-- The chunks in front of the freed block, less the one it is merged with, end with one in use. -/
theorem Tagged.merged {m : Mem} {before : List Block} {addr : Nat}
    (h : Tagged m (before ++ b :: back)) (merges : MergesAt m b before front addr)
    : Tagged m front ∧ ∀ rest a, front = rest ++ [a] → a.used = true := by
  cases merges with
  | alone marked => exact ⟨h.left, h.last_used marked⟩
  | joined clear unused foot =>
      rw [List.append_assoc, List.singleton_append] at h
      exact ⟨h.left, h.last_used (h.marked_of_free unused)⟩

theorem TaggedHeap.freed {p : Nat} (h : TaggedHeap heap st live blocks free) (member : p ∈ live)
    (last : mem2Chunk p + chunksize st.mem (mem2Chunk p) = (st.heaps heap).endAddr)
    (behind : EndMarked st.mem (st.heaps heap).endAddr)
    (run : DeadKernel.free p heap st = some st')
    : ∃ blocks' free', TaggedHeap heap st' (live.filter (fun q => q ≠ p)) blocks' free' := by
  obtain ⟨before, b, back, front, addr, left, free', rfl, used, rfl, merges, shape, -, spares, -, after⟩ :=
    h.good.freed member (h.sound behind) run
  obtain ⟨own, size⟩ := h.good.ok.chunksize_mem (b := b) (by simp)
  rw [own, size] at last
  obtain rfl := h.good.ok.layout.tiles.none_behind last
  obtain ⟨some_, -⟩ | ⟨-, rfl, -⟩ := shape
  · exact absurd rfl some_
  · obtain ⟨tagged, inUse⟩ := h.tagged.merged merges
    exact ⟨_, free', after, (tagged.transport (fun c inside _ => spares.prevFoot inside)).trimmed inUse⟩

/-- The feet that count lie behind free chunks, where no owner writes. -/
theorem TaggedHeap.write {m : Mem} (h : TaggedHeap heap st live blocks free)
    (kept : ∀ byte, heapByte (headOf heap) (st.heaps heap).startAddr (st.heaps heap).endAddr byte
      → (∀ p ∈ live, ¬ payloadByte p st.mem byte) → m byte = st.mem byte)
    : TaggedHeap heap { st with mem := m } live blocks free := by
  refine ⟨h.good.write kept, h.tagged.transport (fun c inside clear => ?_)⟩
  obtain ⟨start, end_, large, -⟩ := h.good.ok.layout.tiles.block inside
  obtain ⟨front, back, rfl⟩ := List.append_of_mem inside
  obtain ⟨before, a, rfl, unused, -, chain⟩ := h.tagged.in_front clear
  have walk := h.good.ok.layout.tiles
  rw [List.append_assoc, List.singleton_append] at walk
  obtain ⟨-, large', -, -, meets, -⟩ := walk.focus
  simp only [Span.stop, minChunkSize] at *
  refine load32_congr (fun byte above below => kept byte (.inl (by omega)) (fun p live own => ?_))
  obtain ⟨d, there, used, rfl⟩ := h.good.owned p live
  obtain ⟨chunk, size⟩ := h.good.ok.chunksize_mem there
  obtain ⟨low, high⟩ := own
  rw [chunk, size] at high
  rcases h.good.ok.layout.tiles.scattered.order there (c := a) (by simp) with rfl | left | right
  · exact Bool.false_ne_true (unused.symm.trans used)
  · simp only [Span.stop] at left
    omega
  · simp only [Span.stop] at right
    omega

theorem OwnerWrites.keepsTagged (writes : OwnerWrites heap s s')
    (h : ∃ blocks free, TaggedHeap heap s.1 s.2.live blocks free)
    : ∃ blocks free, TaggedHeap heap s'.1 s'.2.live blocks free := by
  obtain ⟨blocks, free, h⟩ := h
  cases writes with
  | write kept => exact ⟨blocks, free, h.write kept⟩

theorem TagMove.keeps (move : TagMove heap s s')
    (h : ∃ blocks free, TaggedHeap heap s.1 s.2.live blocks free)
    : ∃ blocks free, TaggedHeap heap s'.1 s'.2.live blocks free := by
  obtain ⟨blocks, free, h⟩ := h
  cases move with
  | alloc fits aside hole run => exact h.alloc fits aside hole run
  | palignedAlloc fits aside fine hole cut run => exact h.aligned fits aside fine hole cut run
  | free member last behind run => exact h.freed member last behind run

end Runs

/-- In every run in which only the last chunk is freed or split, the tags tell the truth. -/
theorem heap_tagged {heap dir start stop max supervisor readonly : Nat} {st made : Kernel}
    {s : Kernel × Pointers} (range : HeapRange heap start stop max)
    (created : createHeap heap dir start stop max supervisor readonly st = some made)
    (run : Relation.ReflTransGen (fun s s' => TagMove heap s s' ∨ OwnerWrites heap s s')
      (made, ⟨[], []⟩) s)
    : HeapTagged heap s.1 := by
  have tagged : ∃ blocks free, TaggedHeap heap s.1 s.2.live blocks free := by
    induction run with
    | refl =>
        obtain ⟨free, good⟩ := createHeap_good range created
        exact ⟨_, free, good, List.isChain_pair.mpr (.of_marked rfl rfl)⟩
    | tail _ step ih => exact step.elim (fun move => move.keeps ih) (fun writes => writes.keepsTagged ih)
  obtain ⟨blocks, free, h⟩ := tagged
  exact h.good.ok.tagged h.tagged

/-- A block up to 16 bytes below the end of the page, and 100 bytes on a page behind it: in front of
these stays a free lead.
-/
theorem heap_tagged_lead
    : ∃ made r₁ r₂, oneMegabyte = some made ∧ alloc 1 4072 4096 made = some r₁
        ∧ palignedAlloc 1 100 4096 r₁.2 = some r₂ ∧ r₂.1 = 0x90002000
        ∧ HeapTagged 4096 r₂.2 := by
  have run : (oneMegabyte.bind (fun made => (alloc 1 4072 4096 made).bind (fun r₁ =>
      (alloc 1 (alignedRequest (request2Size 100)) 4096 r₁.2).bind (fun part =>
      (palignedAlloc 1 100 4096 r₁.2).map (fun r₂ =>
        (((findSmallestChunk (request2Size 4072) (headOf 4096) made.mem,
            chunksize made.mem 0x90000000, (made.heaps 4096).endAddr),
          findSmallestChunk (request2Size (alignedRequest (request2Size 100))) (headOf 4096)
              r₁.2.mem,
            chunksize r₁.2.mem 0x90000FF0, (r₁.2.heaps 4096).endAddr),
          (part.1, pinuse part.2.mem (alignedChunk part.1),
            chunksize part.2.mem (mem2Chunk part.1)), r₂.1))))))
      = some (((some 0x90000000, 0x100000, 0x90100000), some 0x90000FF0, 0xFF010, 0x90100000),
        (0x90000FF8, false, 4216), 0x90002000) := by
    decide +kernel
  obtain ⟨made, created, rest⟩ := Option.bind_eq_some_iff.mp run
  obtain ⟨r₁, first, rest⟩ := Option.bind_eq_some_iff.mp rest
  obtain ⟨part, delivered, rest⟩ := Option.bind_eq_some_iff.mp rest
  obtain ⟨r₂, second, all⟩ := Option.map_eq_some_iff.mp rest
  simp only [Prod.mk.injEq] at all
  obtain ⟨⟨⟨found₁, size₁, end₁⟩, found₂, size₂, end₂⟩, ⟨pointer, flag, size⟩, page⟩ := all
  have some_ {size hole : Nat} {st : Kernel} (some_ : hole ≠ 0)
      (found : findSmallestChunk (request2Size size) (headOf 4096) st.mem = some hole)
      (none : findSmallestChunk (request2Size size) (headOf 4096) st.mem = some 0) : False :=
    some_ (Option.some.inj (found.symm.trans none))
  have aside {size hole : Nat} {st : Kernel} (other : hole ≠ 0)
      (found : findSmallestChunk (request2Size size) (headOf 4096) st.mem = some hole)
      : AllocAside 1 size 4096 st := by
    intro none
    exact (some_ other found none).elim
  have holes {good : Nat → Kernel → Prop} {size hole : Nat} {st : Kernel} (other : hole ≠ 0)
      (found : findSmallestChunk (request2Size size) (headOf 4096) st.mem = some hole)
      (fine : good hole st) : HoleIs good 1 size 4096 st := by
    refine ⟨fun none => (some_ other found none).elim, fun hole' _ same => ?_⟩
    obtain rfl := Option.some.inj (found.symm.trans same)
    exact fine
  have last₁ : SplitLast (request2Size 4072) 4096 0x90000000 made := by
    intro _
    rw [size₁, end₁]
  have last₂ : SplitLast (request2Size (alignedRequest (request2Size 100))) 4096 0x90000FF0 r₁.2 := by
    intro _
    rw [size₂, end₂]
  have fine : RemainderFine (request2Size 100) 4096 0x90000FF0 r₁.2 := by
    intro _ tight
    rw [size₂] at tight
    exact absurd tight (by decide)
  have cut : CutTagged (request2Size 100) 4096 part.1 part.2 := by
    refine ⟨fun _ => flag, fun long => ?_⟩
    rw [size, pointer] at long
    exact absurd long (by decide)
  let ps : Pointers := .returned r₁.1 ⟨[], []⟩
  have move₁ : TagMove 4096 (made, ⟨[], []⟩) (r₁.2, ps) :=
    .alloc (by decide) (aside (by decide) found₁) (holes (by decide) found₁ last₁) first
  have move₂ : TagMove 4096 (r₁.2, ps) (r₂.2, ps.returned r₂.1) := by
    refine .palignedAlloc (by decide) (aside (by decide) found₂) (holes (by decide) found₂ fine)
      (holes (by decide) found₂ last₂) (fun mem st' took => ?_) second
    obtain ⟨rfl, rfl⟩ := Prod.mk.inj (Option.some.inj (delivered.symm.trans took))
    exact cut
  exact ⟨made, r₁, r₂, created, first, second, page, heap_tagged oneMegabyte_range created
    ((Relation.ReflTransGen.single (.inl move₁)).tail (.inl move₂))⟩

/-- Two blocks of 100 bytes. The first is freed, and the flag of the second still says that it is in
use.
-/
theorem heap_not_tagged
    : ∃ made r₁ r₂ st', oneMegabyte = some made ∧ alloc 1 100 4096 made = some r₁
        ∧ alloc 1 100 4096 r₁.2 = some r₂ ∧ free r₁.1 4096 r₂.2 = some st'
        ∧ ¬ HeapTagged 4096 st' := by
  have run : (oneMegabyte.bind (fun made => (alloc 1 100 4096 made).bind (fun r₁ =>
      (alloc 1 100 4096 r₁.2).bind (fun r₂ => (free r₁.1 4096 r₂.2).map (fun st' =>
        ((st'.heaps 4096).startAddr, (st'.heaps 4096).endAddr,
          headWord st'.mem 0x90000000, headWord st'.mem 0x90000068))))))
      = some (0x90000000, 0x90100000, 105, 107) := by
    decide +kernel
  obtain ⟨made, created, rest⟩ := Option.bind_eq_some_iff.mp run
  obtain ⟨r₁, first, rest⟩ := Option.bind_eq_some_iff.mp rest
  obtain ⟨r₂, second, rest⟩ := Option.bind_eq_some_iff.mp rest
  obtain ⟨st', freed, all⟩ := Option.map_eq_some_iff.mp rest
  simp only [Prod.mk.injEq] at all
  obtain ⟨start, end_, word₁, word₂⟩ := all
  refine ⟨made, r₁, r₂, st', created, first, second, freed, ?_⟩
  rintro ⟨chunks, walk, chain⟩
  rw [start, end_] at walk
  cases chunks with
  | nil =>
      have same : 0x90000000 = 0x90100000 := walk
      exact absurd same (by decide)
  | cons chunk rest =>
      obtain ⟨rfl, walk⟩ := walk
      rw [chunksize_eq, word₁] at walk
      cases rest with
      | nil =>
          have same : 0x90000000 + 105 / 8 * 8 = 0x90100000 := walk
          exact absurd same (by decide)
      | cons next rest =>
          obtain ⟨rfl, -⟩ := walk
          have told := (List.isChain_cons_cons.mp chain).1.1
          rw [pinuse_eq, cinuse_eq, word₁, word₂] at told
          exact absurd told (by decide)

end DeadKernel
