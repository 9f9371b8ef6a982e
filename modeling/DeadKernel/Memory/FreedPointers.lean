import DeadKernel.Memory.HeapRequests
import DeadKernel.Memory.HeapRuns

/-! Freeing a pointer twice. `free` looks at nothing but the address and the two flags in the header
word in front of the pointer. A chunk that was merged into the free one before it keeps that word as
it was in use; and where the heap has shrunk and grown again, the word is part of another chunk.
-/

namespace DeadKernel

open Words

-----------------------------------------------------------------------------------------
-- What free looks at
-----------------------------------------------------------------------------------------

/-- The first two tests of `free`, which stand in front of all of its writes, lead to its PANIC. -/
def CaughtAtOnce (p heap : Nat) (st : Kernel) : Prop :=
  p ≠ 0 ∧ (okAddress p (st.heaps heap) = false ∨ okInuse st.mem (mem2Chunk p) = false)

theorem CaughtAtOnce.halts {p heap : Nat} {st : Kernel} (h : CaughtAtOnce p heap st)
    : free p heap st = none := by
  obtain ⟨some_, outside | unused⟩ := h
  · rw [free, if_neg some_, outside]
    rfl
  · rw [free, if_neg some_, unused]
    split
    · rfl
    · rfl

/-- No free chunk ends the heap. -/
def LastUsed (heap : Nat) (st : Kernel) : Prop :=
  ∀ front b free, HeapOk heap st (front ++ [b]) free → b.used = true

/-- A growth in the call stays below the freed pointers behind the heap; only the chunk that the new
pages become may start where a freed one did. A block is freed with its PINUSE flag set.
-/
def freshAsked (heap : Nat) : Asked where
  alloc fuel size st freed :=
    HoleIs (fun _ from_ => ∀ q ∈ freed, (st.heaps heap).endAddr ≤ q
      → (from_.heaps heap).endAddr ≤ q ∨ q = (st.heaps heap).endAddr + 8 ∧ LastUsed heap st)
      fuel size heap st
  free p st := pinuse st.mem (mem2Chunk p) = true

-----------------------------------------------------------------------------------------
-- Where freed pointers point
-----------------------------------------------------------------------------------------

/-- A chunk that `free` takes for a free one. -/
def Released (b : Block) : Prop := b.used = false ∧ b.prevUsed = true

/-- The pointer is that of a released chunk of the walk, or lies behind the heap. -/
def Retired (blocks : List Block) (stop q : Nat) : Prop :=
  (∃ b ∈ blocks, Released b ∧ q = b.addr + 8) ∨ stop ≤ q

/-- A later walk meets the released chunks again, shorter or longer perhaps. -/
def KeepsReleased (blocks blocks' : List Block) : Prop :=
  ∀ b ∈ blocks, Released b → ∃ c ∈ blocks', Released c ∧ c.addr = b.addr

section Places

variable {blocks blocks' front behind back pieces : List Block} {b c : Block} {stop q : Nat}

theorem KeepsReleased.of_subset (sub : blocks ⊆ blocks') : KeepsReleased blocks blocks' :=
  fun b member released => ⟨b, sub member, released, rfl⟩

theorem keepsReleased_markFirst (blocks : List Block) : KeepsReleased blocks (markFirst blocks) := by
  intro b member released
  cases blocks with
  | nil => exact absurd member List.not_mem_nil
  | cons first rest =>
      rcases List.mem_cons.mp member with rfl | inside
      · exact ⟨_, List.mem_cons_self, ⟨released.1, rfl⟩, rfl⟩
      · exact ⟨b, List.mem_cons_of_mem _ inside, released, rfl⟩

theorem Retired.keeps {stop' : Nat} (h : Retired blocks stop q) (kept : KeepsReleased blocks blocks')
    (below : stop' ≤ stop)
    : Retired blocks' stop' q := by
  rcases h with ⟨b, member, released, rfl⟩ | outside
  · obtain ⟨c, inside, same, addr⟩ := kept b member released
    exact .inl ⟨c, inside, same, by rw [addr]⟩
  · exact .inr (below.trans outside)

/-- The chunks around one in use. -/
theorem KeepsReleased.around (used : b.used = true) (sub : back ⊆ pieces)
    : KeepsReleased (front ++ b :: back) (front ++ pieces) := by
  intro d member released
  refine ⟨d, ?_, released, rfl⟩
  rcases List.mem_append.mp member with left | right
  · exact List.mem_append_left _ left
  · rcases List.mem_cons.mp right with rfl | inside
    · rw [released.1] at used
      contradiction
    · exact List.mem_append_right _ (sub inside)

/-- Behind the chunk that is taken, the released ones stay. -/
theorem takenFrom_released {nb : Nat} (first : takenFrom nb b behind = c :: back)
    : KeepsReleased behind back := by
  rw [takenFrom] at first
  split at first
  · obtain ⟨-, rfl⟩ := List.cons.inj first
    exact .of_subset (List.subset_cons_self _ _)
  · obtain ⟨-, rfl⟩ := List.cons.inj first
    exact keepsReleased_markFirst behind

/-- The chunk at `b` is taken, and what is around it stays. -/
theorem Retired.taken (h : Retired (front ++ b :: behind) stop q) (other : q ≠ b.addr + 8)
    (kept : KeepsReleased behind back)
    : Retired (front ++ back) stop q := by
  rcases h with ⟨d, member, released, rfl⟩ | outside
  · rcases List.mem_append.mp member with left | right
    · exact .inl ⟨d, List.mem_append_left _ left, released, rfl⟩
    · rcases List.mem_cons.mp right with rfl | inside
      · exact absurd rfl other
      · obtain ⟨e, there, same, addr⟩ := kept d inside released
        exact .inl ⟨e, List.mem_append_right _ there, same, by rw [addr]⟩
  · exact .inr outside

theorem Cut.keepsReleased {chunk : Nat} (h : Cut c back chunk pieces) : KeepsReleased back pieces := by
  obtain ⟨⟨size, stop, flag, rest, rfl, -, -, same⟩, -⟩ := h
  have kept : KeepsReleased back rest := by
    rcases same with rfl | rfl
    · exact .of_subset (List.Subset.refl _)
    · exact keepsReleased_markFirst back
  intro b member released
  obtain ⟨d, inside, rest_⟩ := kept b member released
  exact ⟨d, by simp [inside], rest_⟩

/-- The lead, if there is one, is a released chunk where the hole was. -/
theorem Cut.lead_released {chunk : Nat} (h : Cut c back chunk pieces) (other : chunk ≠ c.addr)
    : ∃ d ∈ pieces, Released d ∧ d.addr = c.addr := by
  obtain ⟨⟨size, stop, flag, rest, rfl, -⟩, same | room⟩ := h
  · exact absurd same other
  · simp only [minChunkSize] at room
    refine ⟨topBlock c.addr chunk, List.mem_append_left _ ?_, ⟨rfl, rfl⟩, rfl⟩
    rw [trimmed, if_pos (by omega)]
    exact List.mem_singleton_self _

/-- What `free` leaves of the last chunk: a released chunk in its place, or an end in front of it. -/
theorem retired_trimmed (addr stop : Nat) : Retired (trimmed addr stop) stop (addr + 8) := by
  rw [trimmed]
  split
  · exact .inl ⟨_, List.mem_singleton_self _, ⟨rfl, rfl⟩, rfl⟩
  · exact .inr (by omega)

end Places

/-- A block whose PINUSE flag is set is not merged backwards. -/
theorem MergesAt.not_joined {m : Mem} {before front : List Block} {b : Block} {addr : Nat}
    (h : MergesAt m b before front addr) (marked : b.prevUsed = true)
    : before = front ∧ b.addr = addr := by
  cases h with
  | alone _ => exact ⟨rfl, rfl⟩
  | joined clear unused foot =>
      rw [marked] at clear
      contradiction

section Steps

variable {heap : Nat} {st st' : Kernel} {blocks : List Block} {free : List Span}

/-- Growing leaves the released chunks, the last one longer than before. -/
theorem AllocFrom.retired {nb q : Nat} {from_ : Kernel} {blocks' : List Block}
    (h : AllocFrom nb heap st blocks from_ blocks') (ok : HeapOk heap st blocks free)
    (retired : Retired blocks (st.heaps heap).endAddr q)
    (fresh : (st.heaps heap).endAddr ≤ q
      → (from_.heaps heap).endAddr ≤ q ∨ q = (st.heaps heap).endAddr + 8 ∧ LastUsed heap st)
    : Retired blocks' (from_.heaps heap).endAddr q := by
  cases h with
  | here => exact retired
  | grown aside expanded record top le only within =>
      cases top with
      | @reused front c unused =>
          rcases retired with ⟨b, member, released, rfl⟩ | outside
          · rcases List.mem_append.mp member with left | last
            · exact .inl ⟨b, List.mem_append_left _ left, released, rfl⟩
            · rw [List.mem_singleton.mp last]
              exact .inl ⟨topBlock c.addr _, List.mem_append_right _ (List.mem_singleton_self _),
                ⟨rfl, rfl⟩, rfl⟩
          · rcases fresh outside with behind | ⟨-, lastUsed⟩
            · exact .inr behind
            · rw [lastUsed _ _ _ ok] at unused
              contradiction
      | fresh last =>
          rcases retired with ⟨b, member, released, rfl⟩ | outside
          · exact .inl ⟨b, List.mem_append_left _ member, released, rfl⟩
          · rcases fresh outside with behind | ⟨rfl, -⟩
            · exact .inr behind
            · exact .inl ⟨_, List.mem_append_right _ (List.mem_singleton_self _), ⟨rfl, rfl⟩, rfl⟩

/-- A retired pointer is caught. -/
theorem HeapOk.caught {q : Nat} (h : HeapOk heap st blocks free)
    (retired : Retired blocks (st.heaps heap).endAddr q)
    : CaughtAtOnce q heap st := by
  have positive := h.layout.room.positive
  have walk := h.layout.tiles.le
  rcases retired with ⟨b, member, ⟨unused, marked⟩, rfl⟩ | outside
  · obtain ⟨chunk, -⟩ := h.chunksize_mem member
    obtain ⟨-, -, -, aligned, header⟩ := h.layout.tiles.block member
    refine ⟨Nat.succ_ne_zero _, .inr ?_⟩
    rw [chunk, okInuse_eq, cinuse_of_header header aligned, pinuse_of_header header aligned, unused,
      marked]
    rfl
  · refine ⟨by omega, .inl ?_⟩
    rw [okAddress, decide_eq_false_iff_not]
    omega

end Steps

-----------------------------------------------------------------------------------------
-- Runs
-----------------------------------------------------------------------------------------

/-- A heap in good order whose freed pointers are caught. -/
structure SoundPointers (heap : Nat) (st : Kernel) (ps : Pointers) (blocks : List Block)
    (free : List Span) : Prop where
  good : GoodHeap heap st ps.live blocks free
  retired : ∀ q ∈ ps.freed, Retired blocks (st.heaps heap).endAddr q

section Runs

variable {heap : Nat} {s s' : Kernel × Pointers}

theorem HeapMove.retires (move : HeapMove heap (freshAsked heap) s s')
    (h : ∃ blocks free, SoundPointers heap s.1 s.2 blocks free)
    : ∃ blocks free, SoundPointers heap s'.1 s'.2 blocks free := by
  obtain ⟨blocks, free, good, retired⟩ := h
  cases move with
  | alloc fits aside asks run =>
      obtain ⟨from_, front, b, back, free', source, -, -, rfl, heaps, -, -, found, after⟩ :=
        good.alloc fits aside run
      have fresh := found _ asks
      refine ⟨_, free', after, fun q member => ?_⟩
      obtain ⟨freed, other⟩ := List.mem_filter.mp member
      obtain ⟨rest, first⟩ := takenFrom_first (request2Size _) b back
      have kept := takenFrom_released first
      have there := source.retired good.ok (retired q freed) (fresh q freed)
      rw [heaps, first, List.append_cons]
      refine (there.taken (of_decide_eq_true other) kept).keeps (.of_subset ?_) (le_refl _)
      simp
  | palignedAlloc fits aside fine asks run =>
      obtain ⟨from_, front, b, behind, c, back, chunk, pieces, free', source, unused, addr, first, cut,
        rfl, below, -, -, -, found, -, after⟩ := good.aligned fits aside fine run
      have fresh := found _ asks
      refine ⟨_, free', after, fun q member => ?_⟩
      obtain ⟨freed, other⟩ := List.mem_filter.mp member
      have other : q ≠ chunk + 8 := of_decide_eq_true other
      have there := source.retired good.ok (retired q freed) (fresh q freed)
      by_cases hole : q = b.addr + 8
      · obtain ⟨d, inside, released, same⟩ := cut.lead_released (fun none => other (by
          rw [hole, none, addr]))
        exact .inl ⟨d, List.mem_append_right _ inside, released, by rw [same, addr, hole]⟩
      · have kept : KeepsReleased behind pieces := by
          intro d member released
          obtain ⟨e, inside, same, place⟩ := takenFrom_released first d member released
          obtain ⟨g, last, same', place'⟩ := cut.keepsReleased e inside same
          exact ⟨g, last, same', place'.trans place⟩
        exact (there.taken hole kept).keeps (.of_subset (List.Subset.refl _)) below
  | free member sound asks run =>
      obtain ⟨before, b, back, front, addr, left, free', rfl, used, rfl, merges, shape, kept, -, -,
        after⟩ :=
        good.freed member sound run
      obtain ⟨rfl, rfl⟩ := merges.not_joined ((good.ok.pinuse_mem (by simp)).symm.trans asks)
      have others : KeepsReleased (before ++ b :: back) (before ++ left) := by
        refine KeepsReleased.around used ?_
        rcases shape with ⟨-, rfl, -⟩ | ⟨rfl, -⟩
        · exact List.subset_cons_self _ _
        · exact List.nil_subset _
      refine ⟨_, free', after, fun q member => ?_⟩
      rcases List.mem_cons.mp member with rfl | freed
      · rcases shape with ⟨-, rfl, -⟩ | ⟨-, rfl, -⟩
        · exact .inl ⟨topBlock b.addr b.stop, by simp, ⟨rfl, rfl⟩, rfl⟩
        · exact (retired_trimmed b.addr _).keeps (.of_subset (List.subset_append_right _ _))
            (le_refl _)
      · exact (retired q freed).keeps others kept.below

theorem OwnerWrites.retires (writes : OwnerWrites heap s s')
    (h : ∃ blocks free, SoundPointers heap s.1 s.2 blocks free)
    : ∃ blocks free, SoundPointers heap s'.1 s'.2 blocks free := by
  obtain ⟨blocks, free, good, retired⟩ := h
  cases writes with
  | write kept => exact ⟨blocks, free, good.write kept, retired⟩

end Runs

/-- In every run whose growths stay below the freed pointers and whose frees find the PINUSE flag set,
a pointer that was freed, and not returned since, is caught when it is freed again.
-/
theorem double_free_caught {heap dir start stop max supervisor readonly p : Nat} {st made : Kernel}
    {s : Kernel × Pointers} (range : HeapRange heap start stop max)
    (created : createHeap heap dir start stop max supervisor readonly st = some made)
    (run : HeapRun heap (freshAsked heap) (made, ⟨[], []⟩) s) (freed : p ∈ s.2.freed)
    : CaughtAtOnce p heap s.1 ∧ free p heap s.1 = none := by
  have sound : ∃ blocks free, SoundPointers heap s.1 s.2 blocks free := by
    clear freed
    induction run with
    | refl =>
        obtain ⟨free, good⟩ := createHeap_good range created
        exact ⟨_, free, good, fun q none => absurd none List.not_mem_nil⟩
    | tail _ step ih => exact step.elim (fun move => move.retires ih) (fun writes => writes.retires ih)
  obtain ⟨blocks, free, good, retired⟩ := sound
  have caught := good.ok.caught (retired p freed)
  exact ⟨caught, caught.halts⟩

/-- 100 bytes of the heap of one megabyte, freed, and freed again. -/
theorem double_free_caught_plain
    : ∃ made r st', oneMegabyte = some made ∧ alloc 1 100 4096 made = some r
        ∧ free r.1 4096 r.2 = some st' ∧ CaughtAtOnce r.1 4096 st' ∧ free r.1 4096 st' = none := by
  have run : (oneMegabyte.bind (fun made => (alloc 1 100 4096 made).bind (fun r =>
      (free r.1 4096 r.2).map (fun _ => (findSmallestChunk (request2Size 100) (headOf 4096) made.mem,
        mem2Chunk r.1, headWord r.2.mem (mem2Chunk r.1), (r.2.heaps 4096).endAddr)))))
      = some (some 0x90000000, 0x90000000, 107, 0x90100000) := by
    decide +kernel
  obtain ⟨made, created, rest⟩ := Option.bind_eq_some_iff.mp run
  obtain ⟨r, allocated, rest⟩ := Option.bind_eq_some_iff.mp rest
  obtain ⟨st', freed, all⟩ := Option.map_eq_some_iff.mp rest
  simp only [Prod.mk.injEq] at all
  obtain ⟨found, chunk, word, end_⟩ := all
  have some_ (none : findSmallestChunk (request2Size 100) (headOf 4096) made.mem = some 0)
      : False := by
    rw [none] at found
    exact absurd (Option.some.inj found) (by decide)
  have flag : pinuse r.2.mem (mem2Chunk r.1) = true := by
    rw [pinuse_eq, word]
    rfl
  have aside : AllocAside 1 100 4096 made := fun none => (some_ none).elim
  have asks : (freshAsked 4096).alloc 1 100 made [] :=
    ⟨fun none => (some_ none).elim, fun _ _ _ q none => absurd none List.not_mem_nil⟩
  have first : HeapMove 4096 (freshAsked 4096) (made, ⟨[], []⟩) (r.2, Pointers.returned r.1 ⟨[], []⟩) :=
    .alloc (by decide) aside asks allocated
  have sound : FreeSound r.1 4096 r.2 := by
    refine .of_marked flag (fun last => ?_)
    rw [chunksize_eq, word, chunk, end_] at last
    exact absurd last (by decide)
  have second : HeapMove 4096 (freshAsked 4096) (r.2, Pointers.returned r.1 ⟨[], []⟩)
      (st', (Pointers.returned r.1 ⟨[], []⟩).givenBack r.1) :=
    .free List.mem_cons_self sound flag freed
  exact ⟨made, r, st', created, allocated, freed, double_free_caught oneMegabyte_range created
    ((Relation.ReflTransGen.single (.inl first)).tail (.inl second)) List.mem_cons_self⟩

/-- 100 bytes on a page. The result is merged into the lead when it is freed, and its header word is
left as it was: a second `free` of it goes through.
-/
theorem double_free_returns
    : ∃ made r st₁ st₂, oneMegabyte = some made ∧ palignedAlloc 1 100 4096 made = some r
        ∧ free r.1 4096 r.2 = some st₁ ∧ free r.1 4096 st₁ = some st₂
        ∧ headWord st₁.mem 0x90000000 = 4193 ∧ headWord st₂.mem 0x90000000 = 4193 := by
  have run : (oneMegabyte.bind (fun made => (palignedAlloc 1 100 4096 made).bind (fun r =>
      (free r.1 4096 r.2).bind (fun st₁ => (free r.1 4096 st₁).map (fun st₂ =>
        (headWord st₁.mem 0x90000000, headWord st₂.mem 0x90000000)))))) = some (4193, 4193) := by
    decide +kernel
  obtain ⟨made, created, rest⟩ := Option.bind_eq_some_iff.mp run
  obtain ⟨r, aligned, rest⟩ := Option.bind_eq_some_iff.mp rest
  obtain ⟨st₁, first, rest⟩ := Option.bind_eq_some_iff.mp rest
  obtain ⟨st₂, second, both⟩ := Option.map_eq_some_iff.mp rest
  obtain ⟨before, after⟩ := Prod.mk.inj both
  exact ⟨made, r, st₁, st₂, created, aligned, first, second, before, after⟩

end DeadKernel
