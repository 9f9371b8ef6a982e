import DeadKernel.Multitasking.PrivateMemories

/-! What the other operations on directories do to the private bytes: new tables and pages, pages
and whole directories that are given back, and stores.
-/

namespace DeadKernel

open Words SoleHolders

section

variable {kmalloc : Kmalloc} {kfree : Kfree} {pool : BlockPool kmalloc kfree}
variable {live : Nat → Prop} {held : Blocks} {st st' : Kernel} {dir slot i : Nat}

-----------------------------------------------------------------------------------------
-- New tables
-----------------------------------------------------------------------------------------

/-- The kernel directory gets an empty table in a slot without pages of the kernel heap. -/
theorem SoleFrames.kernelSlot {own : Nat → Prop} {table physical : Nat}
    (h : SoleFrames own live (fun other => other = table) st)
    (empty : st.kernelTables i = 0) (elsewhere : ∀ page, own page → page / 1024 ≠ i)
    : SoleFrames own live noTable (st.setSlot st.kernelDir i table physical) := by
  have tables (slot : Nat) (other : slot ≠ i)
      : (st.setSlot st.kernelDir i table physical).kernelTables slot = st.kernelTables slot :=
    (setSlot_table st st.kernelDir i table physical st.kernelDir slot).trans
      (if_neg fun both => other both.2)
  have isOwn {ref : PageRef} (mine : OwnEntry own (st.setSlot st.kernelDir i table physical) ref)
      : OwnEntry own st ref := by
    obtain ⟨page, mine, some, place⟩ := mine
    rw [tables _ (elsewhere page mine)] at some place
    exact ⟨page, mine, some, place⟩
  refine h.fewer h.zero (fun ref used nonzero => ⟨?_, rfl, isOwn, id⟩) (fun ref mine => ?_)
  · obtain ⟨inside, none | ⟨other, alive, slot, below, populated, there⟩⟩ := used
    · exact none.elim
    rw [setSlot_table] at populated there
    by_cases here : other = st.kernelDir ∧ slot = i
    · rw [if_pos here] at there
      exact ⟨inside, Or.inl there.symm⟩
    · rw [if_neg here] at populated there
      exact ⟨inside, Or.inr ⟨other, alive, slot, below, populated, there⟩⟩
  · obtain ⟨inside, none | ⟨other, alive, slot, below, mine, there⟩⟩ := mine
    · exact none.elim
    have notKernel : other ≠ (st.setSlot st.kernelDir i table physical).kernelDir := mine.notKernel
    have same : ((st.setSlot st.kernelDir i table physical).dirs other) = st.dirs other :=
      update_other notKernel
    rw [PrivateTable, same] at mine
    rw [same] at there
    refine Or.inr (Or.inr ⟨⟨inside, Or.inr ⟨other, alive, slot, below, ⟨mine.1, ?_⟩, there⟩⟩, rfl⟩)
    by_cases here : slot = i
    · intro shared
      refine mine.1 (shared.symm.trans ?_)
      rw [here]
      exact empty
    · intro shared
      exact mine.2 ((tables slot here).trans shared)

theorem memories_kernelSlot {table physical : Nat} (empty : st.kernelTables i = 0)
    (unused : ∀ dir, live dir → ∀ slot < tablesInDir, (st.dirs dir).tables slot ≠ table)
    : MemoriesKept live st (st.setSlot st.kernelDir i table physical) := by
  refine .of_slots fun other alive slot below => ?_
  by_cases kernel : other = st.kernelDir
  · subst kernel
    have shared : ¬ PrivateTable st st.kernelDir slot := fun mine => mine.notKernel rfl
    exact ⟨iff_of_false (fun mine => PrivateTable.notKernel mine rfl) shared,
      fun mine => absurd mine shared, fun mine => absurd mine shared,
      fun mine => absurd mine shared⟩
  have same : (st.setSlot st.kernelDir i table physical).dirs other = st.dirs other :=
    update_other kernel
  refine ⟨?_, fun _ => by rw [same], fun _ _ _ => rfl, fun _ _ _ _ _ _ => rfl⟩
  have kernelDir : (st.setSlot st.kernelDir i table physical).kernelDir = st.kernelDir := rfl
  rw [PrivateTable, PrivateTable, same, kernelDir, setSlot_table]
  refine and_congr_right fun populated => ?_
  split
  · rename_i here
    have none : (st.dirs st.kernelDir).tables slot = 0 := here.2 ▸ empty
    rw [none]
    exact iff_of_true (unused other alive slot below).symm populated.symm
  · rfl

/-- An empty table in an empty slot of another directory shows nothing. -/
theorem memories_emptyTable {table physical : Nat} (notKernel : dir ≠ st.kernelDir)
    (empty : (st.dirs dir).tables i = 0) (blank : ∀ j, st.page (table, j) = .zero)
    : MemoriesKept live st (st.setSlot dir i table physical) := by
  intro other alive address small
  by_cases here : other = dir
  · subst here
    by_cases slot : address / pageSize / 1024 = i
    · have none : st.privateByte other address = none :=
        privateByte_none fun mine => mine.1 (slot ▸ empty)
      rw [none]
      by_cases mine : PrivateTable (st.setSlot other i table physical) other
          (address / pageSize / 1024)
      · have place : ((st.setSlot other i table physical).dirs other).tables
            (address / pageSize / 1024) = table := by
          rw [setSlot_table, if_pos ⟨rfl, slot⟩]
        have page : (st.setSlot other i table physical).page (table, address / pageSize % 1024)
            = .zero := blank _
        rw [privateByte_eq mine, place, page]
        rfl
      · exact privateByte_none mine
    · exact (SlotKept.setSlot_other notKernel slot).byte
  · exact memories_setSlot notKernel other ⟨alive, here⟩ address small

/-- A table for a page shows no bytes yet. -/
theorem Spaces.getPage_memories (h : Spaces pool live held st) (frugal : FrugalPool pool)
    (sole : SoleFrames pool.own live noTable st) {address : Nat} (alive : live dir)
    (small : address < wordSize)
    (elsewhere : dir = st.kernelDir → ∀ page, pool.own page → page / 1024 ≠ pageIndex address)
    {page : Option PageRef} (room : Roomy st')
    (run : DeadKernel.getPage kmalloc address true dir st = some (page, st'))
    : SoleFrames pool.own live noTable st' ∧ MemoriesKept live st st' := by
  rw [DeadKernel.getPage] at run
  by_cases there : (st.dirs dir).tables (pageIndex address) ≠ 0
  · rw [if_pos there] at run
    obtain ⟨-, rfl⟩ := Prod.mk.inj (Option.some.inj run)
    exact ⟨sole, .refl _ _⟩
  simp only [if_neg there, if_true, Option.bind_eq_bind, Option.bind_eq_some_iff] at run
  obtain ⟨⟨table, physAddress, served⟩, request, run⟩ := run
  obtain ⟨-, rfl⟩ := Prod.mk.inj (Option.some.inj run)
  obtain ⟨held', spaces, out⟩ := h.request request
  have unused : ∀ dir', live dir' → ∀ slot' < tablesInDir,
      (served.dirs dir').tables slot' ≠ table :=
    fun dir' alive' slot' below => h.owned.unused out alive' below
  have room' : Roomy served := room
  let cleared : Kernel := { served with tables := update served.tables table PageTable.zero }
  have blank (j : Nat) : cleared.page (table, j) = .zero :=
    congrFun (update_self served.tables table PageTable.zero) j
  have spare : SoleFrames pool.own live (fun other => other = table) cleared :=
    (sole.request frugal h room' request).clearTable table
  have before : MemoriesKept live st cleared :=
    (h.request_memories request).trans (memories_newTable unused)
  by_cases kernel : dir = served.kernelDir
  · subst kernel
    have elsewhere' := elsewhere out.kernelDir
    have empty : cleared.kernelTables (pageIndex address) = 0 := by
      have below : pageIndex address < tablesInDir := page_slot (address_page small)
      rcases out.slot below with old | new
      · refine Eq.trans old ?_
        rw [Kernel.kernelTables, ← out.kernelDir]
        exact not_not.mp there
      · obtain ⟨page, isOwn, slot⟩ := out.region _ _ new
        exact absurd slot (elsewhere' page isOwn)
    exact ⟨spare.kernelSlot empty elsewhere',
      before.trans (memories_kernelSlot empty unused)⟩
  · have notKernel : dir ≠ cleared.kernelDir := kernel
    have empty : (cleared.dirs dir).tables (pageIndex address) = 0 := by
      have same : served.dirs dir = st.dirs dir :=
        out.dirs dir (h.owned.dirs dir alive) (out.kernelDir ▸ kernel)
      exact (congrArg (fun dir => dir.tables (pageIndex address)) same).trans (not_not.mp there)
    exact ⟨spare.setSlot notKernel (fun j inside => ⟨inside, Or.inl rfl⟩) (fun _ => rfl),
      before.trans (memories_emptyTable notKernel empty blank)⟩

-----------------------------------------------------------------------------------------
-- Blocks and directories given back
-----------------------------------------------------------------------------------------

/-- The private bytes do not depend on what is taken back. -/
theorem TakenBack.memories (back : TakenBack pool.own st st') (owned : Ownership live held st)
    : MemoriesKept live st st' := by
  refine .of_slots fun other alive slot below => ?_
  exact .of_dirs back.kernelDir (by rw [back.dirs]) (by rw [back.dirs])
    (fun mine i _ => back.pages _ (owned.notOwn pool.bounded alive below mine i))
    (fun _ _ _ _ _ _ => by rw [back.ram])

/-- While a directory is given back, what is left of the kernel heap's pages keeps its marks. -/
theorem SlotsFreed.ownMarked (frugal : FrugalPool pool) (start : Detachable pool live held st dir)
    (marked : ∀ ref, OwnEntry pool.own st ref → (st.page ref).frame ≠ 0 →
      Taken st (st.page ref).frame)
    {mid : Kernel} (loop : forIndices (DeadKernel.freeSlot kfree dir) tablesInDir st = some mid)
    : ∃ held', SlotsFreed pool held st dir tablesInDir held' mid
        ∧ ∀ ref, OwnEntry pool.own st ref → (mid.page ref).frame ≠ 0 →
          Taken mid (mid.page ref).frame := by
  refine forIndices_invariant (P := fun n mid => ∃ held', SlotsFreed pool held st dir n held' mid
    ∧ ∀ ref, OwnEntry pool.own st ref → (mid.page ref).frame ≠ 0 →
      Taken mid (mid.page ref).frame) ⟨held, .start start, marked⟩ ?_ loop
  rintro n below now next ⟨held', freed, marked'⟩ round
  by_cases mine : PrivateTable st dir n
  · obtain ⟨held'', after, run, freed'⟩ := freed.release start below mine
    have same : DeadKernel.freeSlot kfree dir n now
        = freeTable kfree ((st.dirs dir).tables n) now := by
      rw [DeadKernel.freeSlot, freed.dirs, freed.kernelDir, if_pos mine.1, if_pos (Ne.symm mine.2)]
    rw [same] at round
    obtain rfl := Option.some.inj (run.symm.trans round)
    refine ⟨held'', freed', fun ref isOwn nonzero => ?_⟩
    obtain ⟨size, isHeld⟩ : ∃ size, held' ((st.dirs dir).tables n) = some size := by
      rw [freed.books _ (start.notBefore below mine (le_refl n))]
      exact Option.ne_none_iff_exists'.mp
        (start.spaces.owned.tables dir start.alive n below mine.1).1
    obtain ⟨cleared, loop', holds, entries, -⟩ :=
      freed.freeEntries start below mine (by rw [isHeld]; exact Option.some_ne_none _)
    rw [freeTable, loop', Option.bind_some] at run
    obtain ⟨after', released, back, -⟩ := pool.takesBack holds isHeld
    obtain rfl := Option.some.inj (run.symm.trans released)
    have notOwn := start.spaces.owned.notOwn pool.bounded start.alive below mine
    have ownNow : OwnEntry pool.own cleared ref :=
      (OwnEntry.congr entries.kernelDir (by rw [entries.dirs])).mpr ((freed.ownSame ref).mpr isOwn)
    have page : after.page ref = cleared.page ref :=
        (back.unmapped ref ownNow).resolve_right nonzero
    have page' : cleared.page ref = now.page ref :=
      entries.others ref (Or.inl fun here => notOwn ref.2 (here ▸ isOwn))
    have nonzero' : (now.page ref).frame ≠ 0 := by rwa [page, page'] at nonzero
    rcases marked' ref isOwn nonzero' with above | busy
    · rw [page, page']
      exact Or.inl above
    · refine Or.inr (frugal.shrinks holds isHeld released ref ownNow nonzero ?_)
      rw [page, page', entries.bits]
      refine ⟨busy, ?_⟩
      rintro ⟨-, i, inside, here⟩
      have was : now.page ref = st.page ref := (freed.ownPages ref isOwn).resolve_right nonzero'
      rw [freed.entry start below mine, was] at here
      exact start.notOwnFrame _ ⟨was ▸ nonzero', n, below, mine, i, inside, here⟩
        ⟨was ▸ nonzero', ref, isOwn, rfl⟩
  · have skip : DeadKernel.freeSlot kfree dir n now = some now := by
      rw [DeadKernel.freeSlot, freed.dirs, freed.kernelDir]
      split
      · rename_i populated
        exact if_neg fun apart => mine ⟨populated, Ne.symm apart⟩
      · rfl
    obtain rfl := Option.some.inj (skip.symm.trans round)
    exact ⟨held', freed.skip mine, marked'⟩

/-- A directory that is given back takes no other directory's bytes, frames or marks with it. -/
theorem Spaces.freeDir_memories (h : Spaces pool live held st) (frugal : FrugalPool pool)
    (sole : SoleFrames pool.own live noTable st) (alive : live dir) (notKernel : dir ≠ st.kernelDir)
    (run : DeadKernel.freeDir kfree dir st = some st')
    : SoleFrames pool.own (fun other => live other ∧ other ≠ dir) noTable st'
        ∧ MemoriesKept (fun other => live other ∧ other ≠ dir) st st' := by
  have start : Releasable pool live held st dir := ⟨h, alive, notKernel, sole.distinct⟩
  obtain ⟨after, run', released, held', spaces⟩ := start.freeDir
  obtain rfl := Option.some.inj (run.symm.trans run')
  obtain ⟨mid, loop, ended⟩ := Option.bind_eq_some_iff.mp run
  obtain ⟨held₁, freed, marked⟩ := SlotsFreed.ownMarked frugal start.detachable
    (fun ref isOwn nonzero => sole.busy (isOwn.inUse pool.bounded h.owned.kernelDir) nonzero) loop
  obtain ⟨size, isHeld⟩ : ∃ size, held₁ dir = some size := by
    rw [freed.books dir (h.owned.notTable alive alive)]
    exact Option.ne_none_iff_exists'.mp (h.owned.dirs dir alive)
  obtain ⟨after', freedDir, back, -⟩ := pool.takesBack freed.holds isHeld
  obtain rfl := Option.some.inj (ended.symm.trans freedDir)
  have dirs : st'.dirs = st.dirs := back.dirs.trans freed.dirs
  have kernelDir : st'.kernelDir = st.kernelDir := released.kernelDir
  have ownSame (ref : PageRef) : OwnEntry pool.own st' ref ↔ OwnEntry pool.own st ref :=
    OwnEntry.congr kernelDir (by rw [dirs])
  have isPrivate {ref : PageRef}
      (mine : PrivateRef (fun other => live other ∧ other ≠ dir) noTable st' ref)
      : PrivateRef live noTable st ref ∧ st'.page ref = st.page ref := by
    obtain ⟨inside, none | ⟨other, both, slot, below, mine, there⟩⟩ := mine
    · exact none.elim
    rw [PrivateTable, dirs, kernelDir] at mine
    rw [dirs] at there
    have place : ref = ((st.dirs other).tables slot, ref.2) := Prod.ext there.symm rfl
    refine ⟨⟨inside, Or.inr ⟨other, both.1, slot, below, mine, there⟩⟩, ?_⟩
    rw [place]
    exact released.entries other both.1 both.2 slot below mine.1 _
      (h.owned.notOwn pool.bounded both.1 below mine _)
  refine ⟨sole.fewer ?_ (fun ref used nonzero => ?_) (fun ref mine => ?_), .of_slots ?_⟩
  · rw [released.bits 0 (fun mine => mine.1 rfl) (fun isOwn => isOwn.1 rfl)]
    exact sole.zero
  · obtain ⟨inside, none | ⟨other, both, slot, below, populated, there⟩⟩ := used
    · exact none.elim
    rw [dirs] at populated there
    have used : InUse live noTable st ref :=
      ⟨inside, Or.inr ⟨other, both.1, slot, below, populated, there⟩⟩
    by_cases isOwn : OwnEntry pool.own st ref
    · have ownMid := (freed.ownSame ref).mpr isOwn
      have last : st'.page ref = mid.page ref := (back.unmapped ref ownMid).resolve_right nonzero
      have nonzero' : (mid.page ref).frame ≠ 0 := by rwa [last] at nonzero
      have same : mid.page ref = st.page ref := (freed.ownPages ref isOwn).resolve_right nonzero'
      refine ⟨used, last.trans same, (ownSame ref).mp, fun _ => ?_⟩
      have taken := marked ref isOwn nonzero'
      rw [← last] at taken
      rw [← same, ← last]
      exact taken.imp_right fun busy =>
        frugal.shrinks freed.holds isHeld freedDir ref ownMid nonzero busy
    · have place : ref = ((st.dirs other).tables slot, ref.2) := Prod.ext there.symm rfl
      have same : st'.page ref = st.page ref := by
        rw [place] at isOwn ⊢
        exact released.entries other both.1 both.2 slot below populated _ isOwn
      refine ⟨used, same, (ownSame ref).mp, Or.imp_right fun busy => ?_⟩
      rw [same] at nonzero
      have alone {holder : PageRef} (used' : InUse live noTable st holder)
          (isSole : PrivateRef live noTable st holder ∨ OwnEntry pool.own st holder)
          (holds : (st.page holder).frame = (st.page ref).frame)
          : ref = holder :=
        sole.exclusive.alone holder ref _ used' isSole (frameOf_eq_some.mpr ⟨holds, nonzero⟩) used
          (frameOf_eq_some.mpr ⟨rfl, nonzero⟩)
      rw [released.bits, busy]
      · rintro ⟨-, slot', below', mine, i, inside', holds⟩
        have holder : PrivateRef live noTable st ((st.dirs dir).tables slot', i) :=
          ⟨inside', Or.inr ⟨dir, alive, slot', below', mine, rfl⟩⟩
        have table := (Prod.mk.inj (place.symm.trans (alone holder.inUse (Or.inl holder) holds))).1
        exact both.2 (h.owned.sole dir alive slot' below' mine other both.1 slot below table).1
      · rintro ⟨-, holder, isOwn', holds⟩
        have same := alone (isOwn'.inUse pool.bounded h.owned.kernelDir) (Or.inr isOwn') holds
        exact isOwn (same ▸ isOwn')
  · obtain ⟨mine', same⟩ := isPrivate mine
    exact Or.inr (Or.inr ⟨mine', same⟩)
  · intro other both slot below
    refine .of_dirs kernelDir (by rw [dirs]) (by rw [dirs]) (fun mine i _ => ?_)
      (fun _ _ _ _ _ _ => by rw [released.contents])
    exact released.entries other both.1 both.2 slot below mine.1 _
      (h.owned.notOwn pool.bounded both.1 below mine i)

end

end DeadKernel
