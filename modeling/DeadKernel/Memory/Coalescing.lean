import DeadKernel.Memory.FreedPointers
import DeadKernel.Memory.HeapRepresentation

/-! Free chunks side by side. Without `palignedAlloc` every PINUSE flag of a heap is set, so that
`free` merges no block backwards, and its forward branch is taken for the end of the heap only: what
is freed beside a free chunk stays a chunk of its own.
-/

namespace DeadKernel

open Words

-----------------------------------------------------------------------------------------
-- Neighbours
-----------------------------------------------------------------------------------------

/-- Of two chunks that follow each other in the walk, one is in use. -/
def HeapCoalesced (heap : Nat) (st : Kernel) : Prop :=
  ∃ chunks, ChunkWalk st.mem (st.heaps heap).startAddr chunks (st.heaps heap).endAddr
    ∧ chunks.IsChain (fun chunk next => cinuse st.mem chunk = true ∨ cinuse st.mem next = true)

def Coalesced (blocks : List Block) : Prop :=
  blocks.IsChain (fun b c => b.used = true ∨ c.used = true)

section Neighbours

variable {front back : List Block} {b : Block}

/-- Around a chunk in use. -/
theorem coalesced_used (used : b.used = true)
    : Coalesced (front ++ b :: back) ↔ Coalesced front ∧ Coalesced back := by
  rw [Coalesced, List.isChain_append, List.isChain_cons]
  constructor
  · rintro ⟨left, ⟨-, right⟩, -⟩
    exact ⟨left, right⟩
  · rintro ⟨left, right⟩
    refine ⟨left, ⟨fun c _ => .inl used, right⟩, fun a _ c first => .inr ?_⟩
    rwa [← Option.some.inj first]

/-- Around a free chunk. -/
theorem coalesced_free (unused : b.used = false)
    : Coalesced (front ++ b :: back)
      ↔ Coalesced front ∧ Coalesced back ∧ (∀ a ∈ front.getLast?, a.used = true)
        ∧ ∀ c ∈ back.head?, c.used = true := by
  have not_used : ¬ b.used = true := by
    rw [unused]
    exact Bool.false_ne_true
  rw [Coalesced, List.isChain_append, List.isChain_cons]
  constructor
  · rintro ⟨left, ⟨next, right⟩, prev⟩
    exact ⟨left, right, fun a last => (prev a last b rfl).resolve_right not_used,
      fun c first => (next c first).resolve_left not_used⟩
  · rintro ⟨left, right, prev, next⟩
    refine ⟨left, ⟨fun c first => .inr (next c first), right⟩, fun a last c first => .inl (prev a last)⟩

theorem coalesced_markFirst (h : Coalesced back) : Coalesced (markFirst back) := by
  cases back with
  | nil => exact h
  | cons c rest => exact List.isChain_cons.mpr (List.isChain_cons.mp h)

/-- A free chunk is taken. -/
theorem Coalesced.taken (h : Coalesced (front ++ b :: back)) (unused : b.used = false) (nb : Nat)
    : Coalesced (front ++ takenFrom nb b back) := by
  obtain ⟨left, right, -, next⟩ := (coalesced_free unused).mp h
  rw [takenFrom]
  split
  · have rest : Coalesced ([] ++ ⟨⟨b.addr + nb, b.size - nb⟩, false, true⟩ :: back) :=
      (coalesced_free rfl).mpr ⟨.nil, right, fun a none => by contradiction, next⟩
    exact (coalesced_used rfl).mpr ⟨left, rest⟩
  · exact (coalesced_used rfl).mpr ⟨left, coalesced_markFirst right⟩

/-- The last chunk grows, or gets one behind it. -/
theorem Coalesced.grown {nb heap : Nat} {st from_ : Kernel} {blocks blocks' : List Block}
    (h : Coalesced blocks) (source : AllocFrom nb heap st blocks from_ blocks')
    : Coalesced blocks' := by
  cases source with
  | here => exact h
  | grown aside expanded record top le only within =>
      cases top with
      | reused unused =>
          obtain ⟨left, -, prev, -⟩ := (coalesced_free unused).mp h
          exact (coalesced_free rfl).mpr ⟨left, .nil, prev, fun c none => by contradiction⟩
      | fresh last =>
          refine (coalesced_free rfl).mpr ⟨h, .nil, fun a member => ?_, fun c none => by contradiction⟩
          obtain ⟨front, rfl⟩ := List.getLast?_eq_some_iff.mp member
          exact last front a rfl

/-- A block between chunks in use is freed. -/
theorem Coalesced.freed (h : Coalesced (front ++ b :: back)) (used : b.used = true) (addr stop : Nat)
    (prev : ∀ a ∈ front.getLast?, a.used = true) (next : ∀ c ∈ back.head?, c.used = true)
    : Coalesced (front ++ topBlock addr stop :: back) := by
  obtain ⟨left, right⟩ := (coalesced_used used).mp h
  exact (coalesced_free rfl).mpr ⟨left, right, prev, next⟩

end Neighbours

theorem HeapOk.coalesced {heap : Nat} {st : Kernel} {blocks : List Block} {free : List Span}
    (h : HeapOk heap st blocks free) (coalesced : Coalesced blocks)
    : HeapCoalesced heap st := by
  refine ⟨_, h.layout.tiles.chunkWalk, (List.isChain_map _).mpr ?_⟩
  refine List.IsChain.imp_of_mem_imp (fun b c inside there => ?_) coalesced
  obtain ⟨-, -, -, aligned, header⟩ := h.layout.tiles.block inside
  obtain ⟨-, -, -, aligned', header'⟩ := h.layout.tiles.block there
  rw [cinuse_of_header header aligned, cinuse_of_header header' aligned']
  exact id

-----------------------------------------------------------------------------------------
-- Runs of alloc and free
-----------------------------------------------------------------------------------------

/-- No free chunk stands behind the block, and none in front of it either, unless the block is the
last one and goes as a whole when the heap shrinks.
-/
def FreedApart (p heap : Nat) (st : Kernel) : Prop :=
  ∀ before b back free, HeapOk heap st (before ++ b :: back) free → p = b.addr + 8
    → (∀ c ∈ back.head?, c.used = true)
      ∧ ((∀ a ∈ before.getLast?, a.used = true)
        ∨ back = [] ∧ (st.heaps heap).startAddr
          + keptSize (shrunkSize b.addr (st.heaps heap).startAddr) = b.addr)

/-- A call of `alloc` or `free`. Behind the last chunk, when that is freed, stands the header of a
chunk in use.
-/
inductive PlainMove (heap : Nat) : Kernel × Pointers → Kernel × Pointers → Prop where
  | alloc {fuel size p : Nat} {st st' : Kernel} {ps : Pointers} (fits : size + 11 < wordSize)
      (aside : AllocAside fuel size heap st) (run : alloc fuel size heap st = some (p, st'))
      : PlainMove heap (st, ps) (st', ps.returned p)
  | free {p : Nat} {st st' : Kernel} {ps : Pointers} (member : p ∈ ps.live)
      (last : mem2Chunk p + chunksize st.mem (mem2Chunk p) = (st.heaps heap).endAddr
        → EndMarked st.mem (st.heaps heap).endAddr)
      (apart : FreedApart p heap st) (run : free p heap st = some st')
      : PlainMove heap (st, ps) (st', ps.givenBack p)

/-- A heap in good order with all its PINUSE flags, where no free chunks stand side by side. -/
structure PlainHeap (heap : Nat) (st : Kernel) (live : List Nat) (blocks : List Block)
    (free : List Span) : Prop where
  good : GoodHeap heap st live blocks free
  marked : ∀ b ∈ blocks, b.prevUsed = true
  coalesced : Coalesced blocks

section Runs

variable {heap : Nat} {s s' : Kernel × Pointers}

theorem PlainHeap.freed {p : Nat} {st st' : Kernel} {live : List Nat} {blocks : List Block}
    {free : List Span} (h : PlainHeap heap st live blocks free) (member : p ∈ live)
    (last : mem2Chunk p + chunksize st.mem (mem2Chunk p) = (st.heaps heap).endAddr
      → EndMarked st.mem (st.heaps heap).endAddr)
    (apart : FreedApart p heap st) (run : DeadKernel.free p heap st = some st')
    : ∃ blocks' free', PlainHeap heap st' (live.filter (fun q => q ≠ p)) blocks' free' := by
  obtain ⟨c, inside, -, place⟩ := h.good.owned p member
  have flag : pinuse st.mem (mem2Chunk p) = true := by
    rw [place, h.good.ok.pinuse_mem inside]
    exact h.marked c inside
  obtain ⟨before, b, back, front, addr, left, free', rfl, used, rfl, merges, shape, -, -, -, after⟩ :=
    h.good.freed member (.of_marked flag last) run
  obtain ⟨rfl, rfl⟩ := merges.not_joined (h.marked b (by simp))
  obtain ⟨next, prev⟩ := apart before b back free h.good.ok rfl
  have marked : ∀ d ∈ before ++ left, d.prevUsed = true := by
    intro d member
    rcases List.mem_append.mp member with inFront | new
    · exact h.marked d (List.mem_append_left _ inFront)
    · rcases shape with ⟨-, rfl, -⟩ | ⟨-, rfl, -⟩
      · rcases List.mem_cons.mp new with rfl | inBack
        · rfl
        · exact h.marked d (by simp [inBack])
      · exact trimmed_marked new
  refine ⟨_, free', after, marked, ?_⟩
  rcases shape with ⟨some_, rfl, -⟩ | ⟨rfl, rfl, -, end_⟩
  · exact h.coalesced.freed used _ _ (prev.resolve_right (fun whole => some_ whole.1)) next
  · have front := ((coalesced_used used).mp h.coalesced).1
    rw [trimmed]
    split
    · rename_i short
      refine h.coalesced.freed used _ _ (prev.resolve_right (fun whole => ?_)) next
      rw [end_, whole.2] at short
      exact absurd short (lt_irrefl _)
    · rw [List.append_nil]
      exact front

theorem OwnerWrites.keepsPlain (writes : OwnerWrites heap s s')
    (h : ∃ blocks free, PlainHeap heap s.1 s.2.live blocks free)
    : ∃ blocks free, PlainHeap heap s'.1 s'.2.live blocks free := by
  obtain ⟨blocks, free, good, marked, coalesced⟩ := h
  cases writes with
  | write kept => exact ⟨blocks, free, good.write kept, marked, coalesced⟩

theorem PlainMove.keeps (move : PlainMove heap s s')
    (h : ∃ blocks free, PlainHeap heap s.1 s.2.live blocks free)
    : ∃ blocks free, PlainHeap heap s'.1 s'.2.live blocks free := by
  obtain ⟨blocks, free, good, marked, coalesced⟩ := h
  cases move with
  | alloc fits aside run =>
      obtain ⟨from_, front, b, back, free', source, unused, -, -, -, -, -, -, after⟩ :=
        good.alloc fits aside run
      exact ⟨_, free', after, source.taken_marked marked, (coalesced.grown source).taken unused _⟩
  | free member last apart run =>
      exact PlainHeap.freed ⟨good, marked, coalesced⟩ member last apart run

end Runs

/-- In every run of `alloc` and `free` in which each block is freed apart from free ones, no two free
chunks stand side by side.
-/
theorem heap_coalesced {heap dir start stop max supervisor readonly : Nat} {st made : Kernel}
    {s : Kernel × Pointers} (range : HeapRange heap start stop max)
    (created : createHeap heap dir start stop max supervisor readonly st = some made)
    (run : Relation.ReflTransGen (fun s s' => PlainMove heap s s' ∨ OwnerWrites heap s s')
      (made, ⟨[], []⟩) s)
    : HeapCoalesced heap s.1 := by
  have plain : ∃ blocks free, PlainHeap heap s.1 s.2.live blocks free := by
    induction run with
    | refl =>
        obtain ⟨free, good⟩ := createHeap_good range created
        refine ⟨_, free, good, fun b single => ?_, .singleton _⟩
        rw [List.mem_singleton.mp single]
        rfl
    | tail _ step ih => exact step.elim (fun move => move.keeps ih) (fun writes => writes.keepsPlain ih)
  obtain ⟨blocks, free, h⟩ := plain
  exact h.good.ok.coalesced h.coalesced

/-- Two blocks of 100 bytes, and the first of them freed. -/
theorem heap_coalesced_first
    : ∃ made r₁ r₂ st', oneMegabyte = some made ∧ alloc 1 100 4096 made = some r₁
        ∧ alloc 1 100 4096 r₁.2 = some r₂ ∧ free r₁.1 4096 r₂.2 = some st'
        ∧ HeapCoalesced 4096 st' := by
  have run : (oneMegabyte.bind (fun made => (alloc 1 100 4096 made).bind (fun r₁ =>
      (alloc 1 100 4096 r₁.2).bind (fun r₂ => (free r₁.1 4096 r₂.2).map (fun _ =>
        ((findSmallestChunk (request2Size 100) (headOf 4096) made.mem,
          findSmallestChunk (request2Size 100) (headOf 4096) r₁.2.mem, r₁.1),
          headWord r₂.2.mem 0x90000000, headWord r₂.2.mem 0x90000068,
          (r₂.2.heaps 4096).startAddr, (r₂.2.heaps 4096).endAddr))))))
      = some ((some 0x90000000, some 0x90000068, 0x90000008), 107, 107, 0x90000000, 0x90100000) := by
    decide +kernel
  obtain ⟨made, created, rest⟩ := Option.bind_eq_some_iff.mp run
  obtain ⟨r₁, first, rest⟩ := Option.bind_eq_some_iff.mp rest
  obtain ⟨r₂, second, rest⟩ := Option.bind_eq_some_iff.mp rest
  obtain ⟨st', freed, all⟩ := Option.map_eq_some_iff.mp rest
  simp only [Prod.mk.injEq] at all
  obtain ⟨⟨found₁, found₂, pointer⟩, word₁, word₂, start, end_⟩ := all
  have aside {st : Kernel} {hole : Nat} (some_ : 0 ≠ hole)
      (found : findSmallestChunk (request2Size 100) (headOf 4096) st.mem = some hole)
      : AllocAside 1 100 4096 st := by
    intro none
    exact absurd (Option.some.inj (none.symm.trans found)) some_
  have chunk : mem2Chunk r₁.1 = 0x90000000 := by
    rw [pointer]
    decide
  have apart : FreedApart r₁.1 4096 r₂.2 := by
    intro before b back free ok place
    obtain ⟨left, -, -, header, right⟩ := ok.layout.tiles.focus
    have addr : b.addr = 0x90000000 := by omega
    have size : b.size = 104 := by
      have own := (ok.chunksize_mem (b := b) (by simp)).2
      rwa [chunksize_eq, addr, word₁, eq_comm] at own
    refine ⟨fun c first => ?_, .inl (fun a last => ?_)⟩
    · obtain ⟨rest, rfl⟩ := List.head?_eq_some_iff.mp first
      obtain ⟨next, -, aligned, behind, -⟩ := right
      rw [← cinuse_of_header behind aligned, next, Span.stop, addr, size, cinuse_eq, word₂]
      rfl
    · obtain ⟨front, rfl⟩ := List.getLast?_eq_some_iff.mp last
      have walk := left.le
      rw [start, addr] at walk
      simp at walk
  let ps : Pointers := .returned r₁.1 ⟨[], []⟩
  have move₁ : PlainMove 4096 (made, ⟨[], []⟩) (r₁.2, ps) :=
    .alloc (by decide) (aside (by decide) found₁) first
  have move₂ : PlainMove 4096 (r₁.2, ps) (r₂.2, ps.returned r₂.1) :=
    .alloc (by decide) (aside (by decide) found₂) second
  have move₃ : PlainMove 4096 (r₂.2, ps.returned r₂.1) (st', (ps.returned r₂.1).givenBack r₁.1) := by
    refine .free (List.mem_cons_of_mem _ List.mem_cons_self) (fun last => ?_) apart freed
    rw [chunk, chunksize_eq, word₁, end_] at last
    exact absurd last (by decide)
  exact ⟨made, r₁, r₂, st', created, first, second, freed, heap_coalesced oneMegabyte_range created
    (((Relation.ReflTransGen.single (.inl move₁)).tail (.inl move₂)).tail (.inl move₃))⟩

/-- A block of 100 bytes at the start of the heap, freed in front of the free rest of it. -/
theorem heap_not_coalesced
    : ∃ made r st', oneMegabyte = some made ∧ alloc 1 100 4096 made = some r
        ∧ free r.1 4096 r.2 = some st' ∧ ¬ HeapCoalesced 4096 st' := by
  have run : (oneMegabyte.bind (fun made => (alloc 1 100 4096 made).bind (fun r =>
      (free r.1 4096 r.2).map (fun st' => ((st'.heaps 4096).startAddr, (st'.heaps 4096).endAddr,
        headWord st'.mem 0x90000000, headWord st'.mem 0x90000068)))))
      = some (0x90000000, 0x90100000, 105, 0xFFF99) := by
    decide +kernel
  obtain ⟨made, created, rest⟩ := Option.bind_eq_some_iff.mp run
  obtain ⟨r, allocated, rest⟩ := Option.bind_eq_some_iff.mp rest
  obtain ⟨st', freed, all⟩ := Option.map_eq_some_iff.mp rest
  simp only [Prod.mk.injEq] at all
  obtain ⟨start, end_, word₁, word₂⟩ := all
  refine ⟨made, r, st', created, allocated, freed, ?_⟩
  rintro ⟨chunks, walk, chain⟩
  rw [start, end_] at walk
  cases chunks with
  | nil =>
      have same : 0x90000000 = 0x90100000 := walk
      exact absurd same (by decide)
  | cons first rest =>
      obtain ⟨rfl, walk⟩ := walk
      rw [chunksize_eq, word₁] at walk
      cases rest with
      | nil =>
          have same : 0x90000000 + 105 / 8 * 8 = 0x90100000 := walk
          exact absurd same (by decide)
      | cons second rest =>
          obtain ⟨rfl, -⟩ := walk
          have pair := (List.isChain_cons_cons.mp chain).1
          rw [cinuse_eq, cinuse_eq, word₁, word₂] at pair
          exact absurd pair (by decide)

end DeadKernel
