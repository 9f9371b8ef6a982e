import DeadKernel.Memory.BootOwnership

/-! Frame ownership from the end of `initPaging` on: what every run keeps that never frees a
shared frame, and the run of two links and one free that breaks it.
-/

namespace DeadKernel

open Words Rings

-----------------------------------------------------------------------------------------
-- `initPaging` ends
-----------------------------------------------------------------------------------------

/-- `firstFrame` yields a frame of the bitmap, or what it falls off with. -/
theorem firstFrame_cases (st : Kernel) : firstFrame st < nframes ∨ firstFrame st = st.fallOff := by
  rw [firstFrame]
  cases found : (List.range (nframes / 32)).findSome? (fun i =>
    if st.frames i ≠ 0xFFFFFFFF#32 then (firstClearBit (st.frames i)).map (i * 32 + ·)
    else none) with
  | none => exact Or.inr rfl
  | some frame =>
      refine Or.inl ?_
      obtain ⟨i, member, hit⟩ := List.exists_of_findSome?_eq_some found
      have hi := List.mem_range.mp member
      split at hit
      · obtain ⟨bit, first, rfl⟩ := Option.map_eq_some_iff.mp hit
        have hb := List.mem_range.mp (List.mem_of_find?_eq_some first)
        simp only [Option.getD_some, nframes] at hi ⊢
        omega
      · exact absurd hit.symm (Option.some_ne_none _)

theorem allocFramesMirrored_total {limit : Nat} {zero : Bool} {st : Kernel}
    (fuel isKernel isWriteable : Nat) {start stop : Nat} (h : BootStage limit zero st)
    (startLt : start < 2 ^ 31) (stopLt : stop < 2 ^ 31)
    : ∃ st', allocFramesMirrored (kmalloc fuel) start stop true isKernel isWriteable st = some st'
        ∧ BootStage limit zero st' ∧ st'.fallOff = st.fallOff := by
  have low : start ^^^ (if start ≠ 0 then pageSize - 1 else 0) < 2 ^ 31 :=
    Nat.xor_lt_two_pow startLt (by split <;> decide)
  have high : stop ^^^ (pageSize - 1) < 2 ^ 31 := Nat.xor_lt_two_pow stopLt (by decide)
  have upper : u32 ((stop ^^^ (pageSize - 1)) + pageSize) = (stop ^^^ (pageSize - 1)) + pageSize :=
    u32_of_lt (by simp only [wordSize, pageSize] at *; omega)
  simp only [allocFramesMirrored, upper]
  rw [u32_add_sub32 (by simp only [wordSize, pageSize] at *; omega)]
  refine forPages_ends (P := fun now => BootStage limit zero now ∧ now.fallOff = st.fallOff)
    (by simp only [wordSize, pageSize] at *; omega) ?_ _ st ⟨h, rfl⟩
  rintro i now below ⟨stage, same⟩
  obtain ⟨next, round, kept, fallOff⟩ := mirrorRound fuel isKernel isWriteable stage
    (by simp only [wordSize, pageSize] at *; omega : i < wordSize)
  exact ⟨next, round, kept, fallOff.trans same⟩

theorem allocFrames_total {limit : Nat} {zero : Bool} {st : Kernel}
    (fuel isKernel isWriteable start : Nat) {stop : Nat} (h : BootStage limit zero st)
    (returns : st.fallOff = 0) (stopLt : stop + pageSize ≤ wordSize)
    : ∃ st', allocFrames (kmalloc fuel) start stop true isKernel isWriteable st = some st' := by
  simp only [allocFrames]
  rw [u32_add_sub32 (by simp only [wordSize, pageSize] at *; omega)]
  suffices ∃ st', forPages _ stop pageLoopFuel start st = some st'
      ∧ BootStage limit zero st' ∧ st'.fallOff = 0 by
    obtain ⟨st', run, -⟩ := this
    exact ⟨st', run⟩
  refine forPages_ends (P := fun now => BootStage limit zero now ∧ now.fallOff = 0)
    stopLt ?_ _ st ⟨h, returns⟩
  rintro i now below ⟨stage, fallOff⟩
  obtain ⟨ref, made, got, booting, low, -, frames, same, -⟩ := stage.1.getPage fuel
    (by simp only [wordSize, pageSize] at *; omega : i < wordSize)
  have notPanic : firstFrame made ≠ wordSize - 1 := by
    have bound := firstFrame_cases made
    rw [same, fallOff] at bound
    simp only [nframes, wordSize] at bound ⊢
    omega
  obtain ⟨next, call⟩ : ∃ next, allocFrame ref isKernel isWriteable made = some next := by
    rw [allocFrame]
    by_cases mapped : (made.page ref).frame ≠ 0
    · exact ⟨made, if_pos mapped⟩
    · simp only [if_neg mapped, if_neg notPanic, Option.some.injEq, exists_eq']
  refine ⟨next, ?_, ⟨booting.allocFrame low call, ?_⟩, ?_⟩
  · simp only [stage.1.sameDir, got, Option.bind_eq_bind, Option.bind_some, call]
  · exact fun known => allocFrame_marked (by rw [frames]; exact stage.2 known) call
  · rcases allocFrame_cases call with rfl | ⟨-, address, page, -, rfl⟩
    · rw [same, fallOff]
    · exact same.trans fallOff

theorem initKheapTables_total {limit : Nat} {st : Kernel} (h : Booting limit st)
    : ∃ st', initKheapTables st = some st' ∧ Booting limit st' ∧ st'.fallOff = st.fallOff := by
  refine forPages_ends (P := fun now => Booting limit now ∧ now.fallOff = st.fallOff)
    (by decide) ?_ _ st ⟨h, rfl⟩
  rintro i now below ⟨booting, same⟩
  simp only [kheapStart, heapMinSize] at below
  obtain ⟨ref, made, got, kept, -, -, -, fallOff, -⟩ :=
    booting.getPage 1 (lt_trans below (by decide) : i < wordSize)
  refine ⟨made, ?_, kept, fallOff.trans same⟩
  simp only [got, Option.bind_eq_bind, Option.bind_some]

/-- A heap whose descriptor lies below its pages is always created: its list is empty. -/
theorem createHeap_total {placementAddr start stop : Nat} (pageDir max supervisor readonly : Nat)
    (st : Kernel) (startAligned : start % pageSize = 0) (stopAligned : stop % pageSize = 0)
    (below : headOf placementAddr + 8 ≤ start) (small : start < wordSize)
    : ∃ st', createHeap placementAddr pageDir start stop max supervisor readonly st
        = some st' := by
  have empty (m : Mem) : listEmpty (headOf placementAddr)
      (setSizeAndPinuse start (sub32 stop start) (store32
        (nodeLinks.setPrev (nodeLinks.setNext m (headOf placementAddr) (headOf placementAddr))
          (headOf placementAddr) (headOf placementAddr)) start 0)) = true := by
    apply decide_eq_true
    simp only [nodeLinks, setSizeAndPinuse, setHeadWord]
    rw [load32_store32_other (by omega), load32_store32_other (by omega),
      load32_store32_other (by omega), load32_store32 (by omega)]
  simp only [createHeap, Option.bind_eq_bind, startAligned, stopAligned, guard_true,
    Option.pure_def, Option.bind_some, Kernel.setHeap, insertChunk, empty, if_true,
    Option.some.injEq, exists_eq']

/-- Without a section table `initPaging` always ends, if `firstFrame` falls off with 0. -/
theorem initPaging_total {boot : Boot} (h : boot.Clear) (plain : boot.sections = none)
    (returns : boot.fallOff = 0) (endLow : boot.kernelEnd < 2 ^ 31)
    : ∃ st, initPaging boot = some st := by
  obtain ⟨dir, -, started, booting⟩ := initKernelDir_eq h
  obtain ⟨st1, tables, booting1, fallOff1⟩ := initKheapTables_total booting
  have unmapped := (initKheapTables_stage booting (fun _ => rfl) tables).2
  obtain ⟨address, phys, placed, booting2⟩ :=
    booting1.block (by decide : 0x50000000 + 28 ≤ 0x60000000)
  have room := booting2.room
  simp only at room
  have kheapLow : address + 28 ≤ 0x60000000 := by
    simp only [placementKmalloc, zero_ne_one, false_and, if_false] at placed
    have same := (Prod.mk.inj placed).1
    omega
  have stage2 : BootStage (0x50000000 + 28) false
      { st1 with placementAddress := st1.placementAddress + 28 } :=
    ⟨booting2, fun no => Bool.noConfusion no⟩
  obtain ⟨st3, mirrored, stage3, fallOff3⟩ :=
    allocFramesMirrored_total 1 1 0 stage2 (by decide : 0 < 2 ^ 31)
      (by omega : st1.placementAddress + 28 < 2 ^ 31)
  have room3 := stage3.1.room
  have wrap : u32 (st3.placementAddress + pageSize) = st3.placementAddress + pageSize :=
    u32_of_lt (by simp only [wordSize, pageSize]; omega)
  obtain ⟨st4, modules, stage4, fallOff4⟩ :=
    allocFramesMirrored_total 1 1 0 stage3 endLow
      (by rw [wrap]; simp only [pageSize]; omega
        : u32 (st3.placementAddress + pageSize) < 2 ^ 31)
  have fallOff : st4.fallOff = 0 := by
    rw [fallOff4, fallOff3]
    exact fallOff1.trans returns
  obtain ⟨st5, heapPages⟩ := allocFrames_total 1 1 1 kheapStart stage4 fallOff
    (by decide : kheapStart + heapMinSize + pageSize ≤ wordSize)
  obtain ⟨st6, heap⟩ := createHeap_total st5.kernelDir kheapMax 1 0
    { st5 with currentDir := st5.kernelDir } (by decide : kheapStart % pageSize = 0)
    (by decide : (kheapStart + heapMinSize) % pageSize = 0)
    (by simp only [headOf, kheapStart]; omega : headOf address + 8 ≤ kheapStart) (by decide)
  have block : kmalloc 1 28 0 false st1 = _ := (kmalloc_placement booting1.noHeap 1 28 0 false).trans
    (congrArg some placed)
  have kernel : mirrorKernel boot { st1 with placementAddress := st1.placementAddress + 28 }
      = some st3 := by
    rw [mirrorKernel, plain]
    exact mirrored
  refine ⟨{ st6 with kernelHeap := address }, ?_⟩
  rw [initPaging]
  simp only [Option.bind_eq_bind, Option.bind_eq_some_iff]
  exact ⟨_, started, _, tables, _, block, _, kernel, _, modules, _, heapPages, _, heap, rfl⟩

/-- A machine whose kernel ends at 0x120000, with no section table and zeroed memory. -/
def plainBoot : Boot where
  start := 0x100000
  kernelEnd := 0x120000
  placementAddress := 0x120000
  sections := none
  mem := fun _ => 0
  ram := fun _ _ => 0
  bitmap := fun _ => 0#32
  fallOff := 0

theorem plainBoot_clear : plainBoot.Clear where
  placementLow := by decide
  startLow := by decide
  behind := fun _ _ _ => rfl

theorem plainBoot_boots : ∃ st, initPaging plainBoot = some st :=
  initPaging_total plainBoot_clear rfl rfl (by decide)

-----------------------------------------------------------------------------------------
-- Runs after `initPaging`
-----------------------------------------------------------------------------------------

theorem freeFrame_empties (ref : PageRef) (st : Kernel)
    : ((freeFrame ref st).page ref).frame = 0
      ∧ ∀ other ≠ ref, (freeFrame ref st).page other = st.page other := by
  by_cases empty : (st.page ref).frame = 0
  · rw [freeFrame, if_pos empty]
    exact ⟨empty, fun _ _ => rfl⟩
  · rw [freeFrame, if_neg empty]
    exact ⟨by rw [Kernel.page_setPage], fun _ distinct => Kernel.page_setPage_other distinct⟩

end DeadKernel
