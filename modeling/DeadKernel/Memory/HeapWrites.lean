import DeadKernel.Memory.HeapRuns

/-! Where the heap operations write. Inside the heap and its list head, as long as they leave the
last chunk alone: taking that one whole sets a flag in the header word behind the heap, and so does
cutting it; `free` of it clears one there, or unlinks what it finds.
-/

namespace DeadKernel

open Words Rings

/-- A part of an operation on the heap by what it touches: words of the heap as it is bounded then,
or of its list head; a page table from the kernel's allocator; a frame for a page; a page behind the
heap that shows the frame it was given, without any write; the bounds of the heap.
-/
inductive HeapStage (heap : Nat) : Kernel → Kernel → Prop where
  | write {st : Kernel} {m : Mem}
      (inside : ChangedOnly (heapByte (headOf heap) (st.heaps heap).startAddr
        (st.heaps heap).endAddr) st.mem m)
      : HeapStage heap st { st with mem := m }
  | table {fuel dir address : Nat} {st st' : Kernel} {entry : Option PageRef}
      (run : getPage (kmalloc fuel) address true dir st = some (entry, st'))
      : HeapStage heap st st'
  | frame {ref : PageRef} {isKernel isWriteable : Nat} {st st' : Kernel}
      (run : allocFrame ref isKernel isWriteable st = some st')
      : HeapStage heap st st'
  | shown {address : Nat} {before : Page} {ref : PageRef} {st : Kernel}
      (behind : (st.heaps heap).endAddr ≤ address)
      : HeapStage heap st (showFrame address before ref st)
  | bounds {value : Heap} {st : Kernel} : HeapStage heap st (st.setHeap heap value)

/-- All that an operation touches. -/
def HeapWrites (heap : Nat) : Kernel → Kernel → Prop :=
  Relation.ReflTransGen (HeapStage heap)

section Stages

variable {heap nb fuel : Nat} {st st' : Kernel} {blocks : List Block} {free : List Span}

theorem HeapWrites.inside {m : Mem} (changed : ChangedOnly (heapByte (headOf heap)
      (st.heaps heap).startAddr (st.heaps heap).endAddr) st.mem m)
    : HeapWrites heap st { st with mem := m } :=
  .single (.write changed)

theorem GrowRound.writes {stop : Nat} (h : GrowRound (kmalloc fuel) heap stop st st')
    (end_ : (st.heaps heap).endAddr ≤ stop)
    : HeapWrites heap st st' := by
  cases h with
  | @page i spares behind away run =>
      simp only [expandPage, Option.bind_eq_bind, Option.bind_eq_some_iff, Option.some.injEq] at run
      obtain ⟨⟨entry, made⟩, got, ref, -, linked, allocated, rfl⟩ := run
      have record := ((getPage_spares spares got).trans (allocFrame_spares allocated)).record
      have last : (linked.heaps heap).endAddr ≤ u32 ((st.heaps heap).startAddr + i) := by
        rw [record]
        exact end_.trans behind
      exact .tail (.tail (.single (.table got)) (.frame allocated)) (.shown last)

/-- Growing touches pages behind the heap only, by induction over the rounds. -/
theorem growRounds_writes {stop : Nat}
    (h : Relation.ReflTransGen (GrowRound (kmalloc fuel) heap stop) st st')
    (end_ : (st.heaps heap).endAddr ≤ stop)
    : HeapWrites heap st st' := by
  induction h with
  | refl => exact .refl
  | tail rounds round ih =>
      have record := (growRounds_spare rounds).record
      exact ih.trans (round.writes (by rw [record]; exact end_))

theorem AllocFrom.writes {from_ : Kernel} {blocks' : List Block} (h : HeapOk heap st blocks free)
    (source : AllocFrom nb heap st blocks from_ blocks')
    : HeapWrites heap st from_ := by
  cases source with
  | here => exact .refl
  | grown aside expanded record top le only within =>
      obtain ⟨-, -, -, -, -, mapped, rounds, rfl⟩ := h.expand aside expanded
      obtain ⟨m, rfl⟩ := only
      refine ((growRounds_writes rounds (le_refl _)).tail .bounds).trans (HeapWrites.inside ?_)
      rw [Kernel.heaps_setHeap]
      rw [record] at within
      exact within

end Stages

end DeadKernel
