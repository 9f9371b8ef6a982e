import DeadKernel.Memory.HeapRequests
import DeadKernel.Memory.HeapRuns

/-! A heap as its memory shows it: the walk over the chunks by their sizes, and the free list by its
links. A request whose padding wraps leaves a chunk of size 0, which the walk does not get past.
-/

namespace DeadKernel

open Words Rings

-----------------------------------------------------------------------------------------
-- What memory shows
-----------------------------------------------------------------------------------------

/-- Steps of `chunksize` from `start` on meet `chunks` and reach `stop`. -/
def ChunkWalk (m : Mem) (start : Nat) : List Nat → Nat → Prop
  | [], stop => start = stop
  | chunk :: rest, stop => chunk = start ∧ ChunkWalk m (start + chunksize m start) rest stop

/-- The walk reaches the end of the heap, and the ring of nodes at the list head consists of the
chunks of the walk whose CINUSE bit is clear, each of them once, in ascending order of their sizes.
-/
def HeapShown (heap : Nat) (st : Kernel) : Prop :=
  ∃ chunks listed : List Nat, ChunkWalk st.mem (st.heaps heap).startAddr chunks (st.heaps heap).endAddr
    ∧ Ring nodeLinks st.mem (headOf heap) (listed.map nodeOf)
    ∧ listed.Perm (chunks.filter (fun chunk => ! cinuse st.mem chunk)) ∧ listed.Nodup
    ∧ listed.Pairwise (fun chunk other => chunksize st.mem chunk ≤ chunksize st.mem other)

/-- A walk does not leave a chunk of size 0. -/
theorem ChunkWalk.stuck {m : Mem} {start stop : Nat} {chunks : List Nat}
    (h : ChunkWalk m start chunks stop) (zero : chunksize m start = 0)
    : start = stop := by
  induction chunks with
  | nil => exact h
  | cons chunk rest ih =>
      obtain ⟨-, behind⟩ := h
      rw [zero, Nat.add_zero] at behind
      exact ih behind

section Shown

variable {m : Mem} {start stop : Nat} {blocks : List Block}

/-- The walk over the chunks of a layout, by induction over them. -/
theorem Tiles.chunkWalk (h : Tiles m start blocks stop)
    : ChunkWalk m start (blocks.map (fun b => b.addr)) stop := by
  induction blocks generalizing start with
  | nil => exact h
  | cons b rest ih =>
      obtain ⟨rfl, -, aligned, header, behind⟩ := h
      refine ⟨rfl, ?_⟩
      rw [chunksize_of_header header aligned]
      exact ih behind

/-- The free chunks of a layout are those without CINUSE. -/
theorem Tiles.freeChunks (h : Tiles m start blocks stop)
    : (blocks.map (fun b => b.addr)).filter (fun chunk => ! cinuse m chunk)
      = (freeSpans blocks).map Span.addr := by
  have flags : blocks.filter ((fun chunk => ! cinuse m chunk) ∘ fun b => b.addr)
      = blocks.filter (fun b => ! b.used) := by
    refine List.filter_congr (fun b member => ?_)
    obtain ⟨-, -, -, aligned, header⟩ := h.block member
    rw [Function.comp_apply, cinuse_of_header header aligned]
  rw [List.filter_map, flags, freeSpans, List.map_map]
  rfl

theorem Tiles.nodup (h : Tiles m start blocks stop) : (blocks.map (fun b => b.addr)).Nodup := by
  refine List.pairwise_map.mpr (h.apart.imp_of_mem ?_)
  intro b c member _ apart same
  have large := (h.block member).2.2.1
  simp only [Span.stop, minChunkSize] at *
  omega

end Shown

theorem HeapOk.shown {heap : Nat} {st : Kernel} {blocks : List Block} {free : List Span}
    (h : HeapOk heap st blocks free)
    : HeapShown heap st := by
  obtain ⟨tiles, list, listed, -⟩ := h.layout
  have perm : (free.map Span.addr).Perm
      ((blocks.map (fun b => b.addr)).filter (fun chunk => ! cinuse st.mem chunk)) := by
    rw [tiles.freeChunks]
    exact listed.map Span.addr
  refine ⟨_, free.map Span.addr, tiles.chunkWalk, ?_, perm, ?_, ?_⟩
  · rw [List.map_map]
    exact list.ring
  · exact perm.nodup_iff.mpr (tiles.nodup.filter _)
  · refine List.pairwise_map.mpr (list.sorted.imp_of_mem ?_)
    intro s t first second le
    rwa [list.sizes s first, list.sizes t second]

-----------------------------------------------------------------------------------------
-- Runs
-----------------------------------------------------------------------------------------

/-- All along a run, the memory of the heap shows a heap in order. -/
theorem heap_shown {heap dir start stop max supervisor readonly : Nat} {st made : Kernel}
    {asked : Asked} {s : Kernel × Pointers} (range : HeapRange heap start stop max)
    (created : createHeap heap dir start stop max supervisor readonly st = some made)
    (run : HeapRun heap asked (made, ⟨[], []⟩) s)
    : HeapShown heap s.1 := by
  obtain ⟨_, _, good⟩ := run.keeps ⟨_, createHeap_good range created⟩
  exact good.ok.shown

/-- 100 bytes of the heap of one megabyte. -/
theorem heap_shown_split
    : ∃ made r, oneMegabyte = some made ∧ alloc 1 100 4096 made = some r ∧ HeapShown 4096 r.2 := by
  have run : (oneMegabyte.bind (fun made => (alloc 1 100 4096 made).map (fun _ =>
      findSmallestChunk (request2Size 100) (headOf 4096) made.mem))) = some (some 0x90000000) := by
    decide +kernel
  obtain ⟨made, created, rest⟩ := Option.bind_eq_some_iff.mp run
  obtain ⟨r, allocated, found⟩ := Option.map_eq_some_iff.mp rest
  have aside : AllocAside 1 100 4096 made := by
    intro none
    rw [none] at found
    exact absurd (Option.some.inj found) (by decide)
  let anything : Asked := ⟨fun _ _ _ _ => True, fun _ _ => True⟩
  have move : HeapMove 4096 anything (made, ⟨[], []⟩) (r.2, Pointers.returned r.1 ⟨[], []⟩) :=
    .alloc (by decide) aside trivial allocated
  exact ⟨made, r, created, allocated, heap_shown oneMegabyte_range created (.single (.inl move))⟩

/-- The padding of `0xFFFFFFF5` wraps to 0: the chunk returned is of size 0, and it is the first. -/
theorem heap_shown_wraps
    : ∃ made r, oneMegabyte = some made ∧ alloc 1 0xFFFFFFF5 4096 made = some r
        ∧ ¬ HeapShown 4096 r.2 := by
  have run : (oneMegabyte.bind (fun made => (alloc 1 0xFFFFFFF5 4096 made).map (fun r =>
      ((r.2.heaps 4096).startAddr, (r.2.heaps 4096).endAddr, chunksize r.2.mem 0x90000000))))
      = some (0x90000000, 0x90100000, 0) := by
    decide +kernel
  obtain ⟨made, created, rest⟩ := Option.bind_eq_some_iff.mp run
  obtain ⟨r, allocated, all⟩ := Option.map_eq_some_iff.mp rest
  simp only [Prod.mk.injEq] at all
  obtain ⟨start, end_, zero⟩ := all
  refine ⟨made, r, created, allocated, ?_⟩
  rintro ⟨chunks, -, walk, -⟩
  rw [start, end_] at walk
  exact absurd (walk.stuck zero) (by decide)

end DeadKernel
