import DeadKernel.Memory.Heap

/-! The parts of the allocator that write plain memory and nothing else. -/

namespace DeadKernel

open Words

/-- Nothing changes but memory. -/
def OnlyMem (st st' : Kernel) : Prop := ∃ m, st' = { st with mem := m }

theorem OnlyMem.write (st : Kernel) (m : Mem) : OnlyMem st { st with mem := m } := ⟨m, rfl⟩

theorem OnlyMem.refl (st : Kernel) : OnlyMem st st := .write st st.mem

theorem OnlyMem.trans {st st' st'' : Kernel} (h : OnlyMem st st') (h' : OnlyMem st' st'')
    : OnlyMem st st'' := by
  obtain ⟨m, rfl⟩ := h
  obtain ⟨m', rfl⟩ := h'
  exact ⟨m', rfl⟩

theorem putTop_onlyMem {topChunk csize heap : Nat} {m : Mem} {st st' : Kernel}
    (run : putTop topChunk csize heap m st = some st')
    : OnlyMem st st' := by
  obtain ⟨m', -, same⟩ := Option.bind_eq_some_iff.mp run
  exact Option.some.inj same ▸ .write st m'

theorem growTop_onlyMem {oldEndAddr heap : Nat} {st st' : Kernel}
    (run : growTop oldEndAddr heap st = some st')
    : OnlyMem st st' := by
  obtain ⟨tmp, -, run⟩ := Option.bind_eq_some_iff.mp run
  rw [growFrom] at run
  split at run
  · contradiction
  · split at run
    · dsimp only at run
      split at run
      · exact putTop_onlyMem run
      · exact putTop_onlyMem run
    · exact putTop_onlyMem run

theorem takeHole_onlyMem {nb hole heap : Nat} {st : Kernel} {r : Nat × Kernel}
    (run : takeHole nb hole heap st = some r)
    : OnlyMem st r.2 := by
  simp only [takeHole, Option.bind_eq_bind, Option.bind_eq_some_iff] at run
  obtain ⟨-, -, run⟩ := run
  split at run
  · obtain ⟨m, -, same⟩ := Option.bind_eq_some_iff.mp run
    exact Option.some.inj same ▸ .write st _
  · exact Option.some.inj run ▸ .write st _

theorem carveLead_onlyMem {mem heap : Nat} {st : Kernel} {r : Nat × Kernel}
    (run : carveLead mem heap st = some r)
    : OnlyMem st r.2 := by
  rw [carveLead] at run
  split at run
  · exact Option.some.inj run ▸ .refl st
  · obtain ⟨m, -, same⟩ := Option.bind_eq_some_iff.mp run
    exact Option.some.inj same ▸ .write st _

theorem listBlock_onlyMem {block size heap : Nat} {st st' : Kernel}
    (run : listBlock block size heap st = some st')
    : OnlyMem st st' := by
  rw [listBlock] at run
  split at run
  · obtain ⟨m, -, same⟩ := Option.bind_eq_some_iff.mp run
    exact Option.some.inj same ▸ .write st m
  · exact Option.some.inj run ▸ .refl st

theorem mergePrev_onlyMem {block size heap : Nat} {st : Kernel} {r : Nat × Nat × Kernel}
    (run : mergePrev block size heap st = some r)
    : OnlyMem st r.2.2 := by
  rw [mergePrev] at run
  split at run
  · exact Option.some.inj run ▸ .refl st
  · simp only [ite_not, Option.ite_none_right_eq_some] at run
    exact Option.some.inj run.2 ▸ .write st _

theorem mergeNext_onlyMem {size next heap : Nat} {st : Kernel} {r : Nat × Kernel}
    (run : mergeNext size next heap st = some r)
    : OnlyMem st r.2 := by
  rw [mergeNext] at run
  split at run
  · exact Option.some.inj run ▸ .refl st
  · split at run
    · contradiction
    · split at run
      · exact Option.some.inj run ▸ .write st _
      · simp only [Option.ite_none_left_eq_some] at run
        exact Option.some.inj run.2 ▸ .write st _

/-- `free` shrinks the heap between two writes to memory, or it only writes memory. -/
theorem free_cases {ptr heap : Nat} {st st' : Kernel} (run : free ptr heap st = some st')
    : OnlyMem st st' ∨ ∃ before newSize kept after, OnlyMem st before
        ∧ contract newSize heap before = some (kept, after) ∧ OnlyMem after st' := by
  rw [free] at run
  split at run
  · exact Or.inl (Option.some.inj run ▸ .refl st)
  split at run
  · contradiction
  split at run
  · contradiction
  obtain ⟨⟨block, size, merged⟩, prev, run⟩ := Option.bind_eq_some_iff.mp run
  obtain ⟨⟨size', merged'⟩, next, run⟩ := Option.bind_eq_some_iff.mp run
  have before := (mergePrev_onlyMem prev).trans (mergeNext_onlyMem next)
  dsimp only at before run
  rw [releaseBlock] at run
  dsimp only at run
  split at run
  · obtain ⟨⟨kept, after⟩, shrunk, run⟩ := Option.bind_eq_some_iff.mp run
    refine Or.inr ⟨merged', _, kept, after, before, shrunk, ?_⟩
    dsimp only at run
    split at run
    · exact listBlock_onlyMem run
    · exact listBlock_onlyMem run
  · exact Or.inl ((before.trans (.write merged' _)).trans (listBlock_onlyMem run))

end DeadKernel
