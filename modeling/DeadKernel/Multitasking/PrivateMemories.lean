import DeadKernel.Loading.Image
import DeadKernel.Memory.SoleFrames

/-! What the pages of a directory alone hold, and what `cloneDir` does to it: the clone starts with
the same bytes in frames of its own.
-/

namespace DeadKernel

open Words

-----------------------------------------------------------------------------------------
-- The bytes of a directory alone
-----------------------------------------------------------------------------------------

/-- A byte in a page that the directory shares with no other, if there is one at the address. -/
def Kernel.privateByte (st : Kernel) (dir address : Nat) : Option UInt8 :=
  if PrivateTable st dir (address / pageSize / 1024) then st.virtByte dir address else none

/-- The private pages of one slot of a directory are where they were and hold what they held. -/
structure SlotKept (dir slot : Nat) (st st' : Kernel) : Prop where
  mine : PrivateTable st' dir slot ↔ PrivateTable st dir slot
  table : PrivateTable st dir slot → (st'.dirs dir).tables slot = (st.dirs dir).tables slot
  pages : PrivateTable st dir slot → ∀ i < pagesInTable,
    st'.page ((st.dirs dir).tables slot, i) = st.page ((st.dirs dir).tables slot, i)
  bytes : PrivateTable st dir slot → ∀ i < pagesInTable,
    (st.page ((st.dirs dir).tables slot, i)).present = true →
    SamePage st'.ram (st.page ((st.dirs dir).tables slot, i)).frame st.ram
      (st.page ((st.dirs dir).tables slot, i)).frame

/-- The directories `live` hold what they held. -/
def MemoriesKept (live : Nat → Prop) (st st' : Kernel) : Prop :=
  ∀ dir, live dir → ∀ address < wordSize, st'.privateByte dir address = st.privateByte dir address

section

variable {own live spare : Nat → Prop} {st st' : Kernel} {dir address : Nat}

theorem address_page (small : address < wordSize) : address / pageSize < addressPages := by
  simp only [pageSize, addressPages, wordSize] at small ⊢
  omega

/-- What the table of a private page says about an address. -/
theorem privateByte_eq (mine : PrivateTable st dir (address / pageSize / 1024))
    : st.privateByte dir address
      = if (st.page ((st.dirs dir).tables (address / pageSize / 1024),
            address / pageSize % 1024)).present = true then
          some (st.ram (st.page ((st.dirs dir).tables (address / pageSize / 1024),
            address / pageSize % 1024)).frame (address % pageSize))
        else none := by
  rw [Kernel.privateByte, if_pos mine, Kernel.virtByte, Kernel.entry, if_neg mine.1]
  rfl

theorem SlotKept.byte (h : SlotKept dir (address / pageSize / 1024) st st')
    : st'.privateByte dir address = st.privateByte dir address := by
  by_cases mine : PrivateTable st dir (address / pageSize / 1024)
  · have inside : address / pageSize % 1024 < pagesInTable := Nat.mod_lt _ (by decide)
    rw [privateByte_eq mine, privateByte_eq (h.mine.mpr mine), h.table mine, h.pages mine _ inside]
    split
    · rename_i present
      exact congrArg some (h.bytes mine _ inside present _ (Nat.mod_lt _ (by decide)))
    · rfl
  · rw [Kernel.privateByte, Kernel.privateByte, if_neg mine,
      if_neg (fun mine' => mine (h.mine.mp mine'))]

/-- A directory keeps what it holds if neither it nor the kernel directory is written, and its
entries and taken frames are not either.
-/
theorem SlotKept.of_dirs {slot : Nat} (kernelDir : st'.kernelDir = st.kernelDir)
    (kernel : st'.dirs st.kernelDir = st.dirs st.kernelDir) (same : st'.dirs dir = st.dirs dir)
    (pages : PrivateTable st dir slot → ∀ i < pagesInTable,
      st'.page ((st.dirs dir).tables slot, i) = st.page ((st.dirs dir).tables slot, i))
    (bytes : PrivateTable st dir slot → ∀ i < pagesInTable,
      (st.page ((st.dirs dir).tables slot, i)).present = true →
      SamePage st'.ram (st.page ((st.dirs dir).tables slot, i)).frame st.ram
        (st.page ((st.dirs dir).tables slot, i)).frame)
    : SlotKept dir slot st st' where
  mine := by
    rw [PrivateTable, PrivateTable, same, kernelDir, kernel]
  table _ := by rw [same]
  pages := pages
  bytes := bytes

theorem MemoriesKept.of_slots
    (h : ∀ dir, live dir → ∀ slot < tablesInDir, SlotKept dir slot st st')
    : MemoriesKept live st st' :=
  fun dir alive _ small => (h dir alive _ (page_slot (address_page small))).byte

theorem MemoriesKept.refl (live : Nat → Prop) (st : Kernel) : MemoriesKept live st st :=
  fun _ _ _ _ => rfl

theorem MemoriesKept.trans {st'' : Kernel} (h : MemoriesKept live st st')
    (h' : MemoriesKept live st' st'')
    : MemoriesKept live st st'' :=
  fun dir alive address small => (h' dir alive address small).trans (h dir alive address small)

/-- A private entry that is present maps a frame that no allocation yields. -/
theorem SoleFrames.taken (h : SoleFrames own live spare st) {ref : PageRef}
    (mine : PrivateRef live spare st ref) (present : (st.page ref).present = true)
    : Taken st (st.page ref).frame :=
  h.busy mine.inUse (h.present ref mine present)

end

section

variable {kmalloc : Kmalloc} {kfree : Kfree} {pool : BlockPool kmalloc kfree}
variable {live spare : Nat → Prop} {held held' : Blocks} {st st' : Kernel} {dir slot : Nat}

/-- What the directories hold does not depend on what is requested. -/
theorem Spaces.request_memories (spaces : Spaces pool live held st)
    {size align block physAddr : Nat} {phys : Bool}
    (served : kmalloc size align phys st = some (block, physAddr, st'))
    : MemoriesKept live st st' := by
  obtain ⟨held', -, out⟩ := spaces.request served
  have owned := spaces.owned
  have same {dir slot : Nat} (alive : live dir) (mine : PrivateTable st dir slot)
      : st'.dirs dir = st.dirs dir :=
    out.dirs dir (owned.dirs dir alive) mine.notKernel
  refine .of_slots fun dir alive slot below => ⟨out.privateTable owned alive below,
    fun mine => by rw [same alive mine], fun mine i _ => ?_, fun _ _ _ _ _ _ => by rw [out.ram]⟩
  exact out.pages _ (owned.tables dir alive slot below mine.1).1
    (owned.notOwn pool.bounded alive below mine i)

/-- Writing a table that no directory has. -/
theorem memories_newTable {table : Nat} {value : PageTable}
    (unused : ∀ dir, live dir → ∀ slot < tablesInDir, (st.dirs dir).tables slot ≠ table)
    : MemoriesKept live st { st with tables := update st.tables table value } := by
  refine .of_slots fun dir alive slot below => .of_dirs rfl rfl rfl (fun _ i _ => ?_)
    (fun _ _ _ _ _ _ => rfl)
  exact congrFun (update_other (unused dir alive slot below)) _

/-- Filling a slot of one directory concerns no other one. -/
theorem memories_setSlot {table physical : Nat} (notKernel : dir ≠ st.kernelDir)
    : MemoriesKept (fun other => live other ∧ other ≠ dir) st
        (st.setSlot dir slot table physical) := by
  refine .of_slots fun other both _ _ => ?_
  exact .of_dirs rfl (update_other notKernel.symm) (update_other both.2) (fun _ _ _ => rfl)
    (fun _ _ _ _ _ _ => rfl)

/-- A new directory without tables holds nothing, and concerns no other one. -/
theorem memories_newDir {physical : Nat} (notLive : ¬ live dir) (kernelDir : live st.kernelDir)
    : MemoriesKept live st
        { st with dirs := update st.dirs dir { PageDir.zero with physicalAddr := physical } } := by
  have old {other : Nat} (alive : live other)
      : update st.dirs dir { PageDir.zero with physicalAddr := physical } other = st.dirs other :=
    update_other (fun same => notLive (same ▸ alive))
  exact .of_slots fun other alive _ _ => .of_dirs rfl (old kernelDir) (old alive)
    (fun _ _ _ => rfl) (fun _ _ _ _ _ _ => rfl)

end

-----------------------------------------------------------------------------------------
-- A table copied
-----------------------------------------------------------------------------------------

/-- An entry is as present as its original was, and shows the same bytes. -/
structure PageCopied (first : Kernel) (original : PageRef) (st : Kernel) (copy : PageRef)
    : Prop where
  present : (st.page copy).present = (first.page original).present
  bytes : (first.page original).present = true →
    SamePage st.ram (st.page copy).frame first.ram (first.page original).frame

section

variable {own live spare : Nat → Prop} {st st' : Kernel} {src table i : Nat}

theorem cloneEntry_marked (run : cloneEntry src table i st = some st') {frame : Nat}
    (busy : frameBit st.frames frame = true)
    : frameBit st'.frames frame = true := by
  rw [cloneEntry] at run
  split at run
  · exact Option.some.inj run ▸ busy
  · obtain ⟨taken, alloc, copied⟩ := Option.bind_eq_some_iff.mp run
    obtain rfl := Option.some.inj copied
    have marked := allocFrame_marked busy alloc
    rw [copyPagePhysical]
    generalize copyWordsPhysical 1024 _ _ _ = ram
    exact marked

theorem Roomy.free (h : Roomy st) : 0 < freeFrames nframes st := by
  obtain ⟨frame, below, clear⟩ := h
  have member : frame ∈ clearFrames nframes st.frames := mem_clearFrames.mpr ⟨below, clear⟩
  exact Finset.card_pos.mpr ⟨frame, member⟩

/-- A private entry is copied to an empty one of a spare table; no taken frame is written. -/
theorem SoleFrames.cloneEntry (h : SoleFrames own live spare st)
    (source : PrivateRef live spare st (src, i)) (apart : src ≠ table)
    (blank : st.page (table, i) = .zero) (room : Roomy st')
    (run : cloneEntry src table i st = some st')
    : SoleFrames own live spare st' ∧ PageCopied st (src, i) st' (table, i)
        ∧ (∀ other ≠ (table, i), st'.page other = st.page other)
        ∧ ∀ frame, Taken st frame → SamePage st'.ram frame st.ram frame := by
  by_cases empty : (st.page (src, i)).frame = 0
  · rw [DeadKernel.cloneEntry, if_pos empty] at run
    obtain rfl := Option.some.inj run
    have absent : (st.page (src, i)).present = false :=
      Bool.eq_false_iff.mpr fun present => h.present _ source present empty
    refine ⟨h, ⟨?_, fun present => ?_⟩, fun _ _ => rfl, fun _ _ _ _ => rfl⟩
    · rw [blank, absent]
      rfl
    · rw [absent] at present
      contradiction
  · have room' : Roomy st := room.back fun _ => cloneEntry_marked run
    have fits := h.fits _ source
    obtain ⟨frame, page, ram, positive, below, clear, maps, flags, contents, others, done⟩ :=
      cloneEntry_takes (le_refl nframes) h.zero room'.free (by rw [blank]; rfl) apart empty
        (lt_trans fits (by decide)) (h.busy source.inUse empty).symm
    obtain rfl := Option.some.inj (done.symm.trans run)
    refine ⟨h.map ram positive below clear (by rw [blank]; rfl) maps, ⟨?_, fun _ => ?_⟩,
      fun other elsewhere => Kernel.page_setPage_other elsewhere,
        fun other taken => others other ?_⟩
    · rw [Kernel.page_setPage]
      exact flags.present
    · rw [Kernel.page_setPage, maps]
      exact contents
    · rintro rfl
      rcases taken with above | busy
      · exact absurd above (Nat.not_le.mpr below)
      · rw [clear] at busy
        contradiction

/-- The first `n` entries of a spare table are copies; the frames that were taken hold what they
held.
-/
structure EntriesCopied (own live spare : Nat → Prop) (first : Kernel) (src table n : Nat)
    (st : Kernel)
    : Prop where
  sole : SoleFrames own live spare st
  others : ∀ ref, ref.1 ≠ table → st.page ref = first.page ref
  bytes : ∀ frame, Taken first frame → SamePage st.ram frame first.ram frame
  copied : ∀ i < n, PageCopied first (src, i) st (table, i)
  blank : ∀ i, n ≤ i → st.page (table, i) = .zero

theorem EntriesCopied.next {first : Kernel} {n : Nat}
    (h : EntriesCopied own live spare first src table n st) (inside : n < pagesInTable)
    (source : ∀ i < pagesInTable, PrivateRef live spare first (src, i)) (isSpare : spare table)
    (start : SoleFrames own live spare first) (dirs : st.dirs = first.dirs)
    (kernelDir : st.kernelDir = first.kernelDir)
    (marked : ∀ frame, frameBit first.frames frame = true → frameBit st.frames frame = true)
    (apart : src ≠ table) (room : Roomy st') (run : cloneEntry src table n st = some st')
    : EntriesCopied own live spare first src table (n + 1) st' := by
  have source' : PrivateRef live spare st (src, n) := by
    simp only [PrivateRef, PrivateTable, dirs, kernelDir]
    exact source n inside
  have same : st.page (src, n) = first.page (src, n) := h.others _ apart
  obtain ⟨sole, copy, others, kept⟩ :=
    h.sole.cloneEntry source' apart (h.blank n (le_refl n)) room run
  have later {frame : Nat} (taken : Taken first frame) : SamePage st'.ram frame st.ram frame :=
    kept frame (taken.later marked)
  refine ⟨sole, fun ref elsewhere => ?_, fun frame taken =>
    (later taken).trans (h.bytes frame taken),
    fun i below => ?_, fun i above => ?_⟩
  · rw [others ref (fun here => elsewhere (congrArg Prod.fst here)), h.others ref elsewhere]
  · rcases Nat.lt_succ_iff_lt_or_eq.mp below with before | rfl
    · have page : st'.page (table, i) = st.page (table, i) :=
        others _ (fun here => Nat.ne_of_lt before (Prod.mk.inj here).2)
      have was := h.copied i before
      refine ⟨by rw [page, was.present], fun present => ?_⟩
      have inTable : PrivateRef live spare st (table, i) :=
        ⟨lt_trans before inside, Or.inl isSpare⟩
      rw [page]
      exact (kept _ (h.sole.taken inTable (was.present.trans present))).trans (was.bytes present)
    · refine ⟨by rw [copy.present, same], fun present => ?_⟩
      rw [← same] at present
      have contents := copy.bytes present
      rw [same] at contents present
      exact contents.trans (h.bytes _ (start.taken (source i inside) present))
  · rw [others _ (fun here => Nat.ne_of_gt above (Prod.mk.inj here).2)]
    exact h.blank i (by omega)

end

section

variable {kmalloc : Kmalloc} {kfree : Kfree} {pool : BlockPool kmalloc kfree}
variable {live : Nat → Prop} {held : Blocks} {st st' : Kernel} {dir slot : Nat}

/-- A block becomes an empty spare table. -/
theorem SoleFrames.clearTable (h : SoleFrames pool.own live noTable st) (table : Nat)
    : SoleFrames pool.own live (fun other => other = table)
        { st with tables := update st.tables table PageTable.zero } := by
  have blank (i : Nat)
      : ({ st with tables := update st.tables table PageTable.zero } : Kernel).page (table, i)
        = .zero :=
    congrFun (update_self st.tables table PageTable.zero) i
  have others {ref : PageRef} (elsewhere : ref.1 ≠ table)
      : ({ st with tables := update st.tables table PageTable.zero } : Kernel).page ref
        = st.page ref :=
    congrFun (update_other elsewhere) _
  refine h.fewer h.zero (fun ref used nonzero => ?_) (fun ref mine => ?_)
  · have elsewhere : ref.1 ≠ table := by
      intro here
      rw [show ref = (table, ref.2) from Prod.ext here rfl, blank] at nonzero
      exact nonzero rfl
    exact ⟨⟨used.1, Or.inr (used.2.resolve_left elsewhere)⟩, others elsewhere, id, id⟩
  · by_cases here : ref.1 = table
    · rw [show ref = (table, ref.2) from Prod.ext here rfl]
      exact Or.inl (blank _)
    · exact Or.inr (Or.inr ⟨⟨mine.1, Or.inr (mine.2.resolve_left here)⟩, others here⟩)

/-- `cloneTable` copies a private table to a spare one, and nobody's bytes change. -/
theorem Spaces.cloneTable_copies (h : Spaces pool live held st) (frugal : FrugalPool pool)
    (sole : SoleFrames pool.own live noTable st) (alive : live dir) (below : slot < tablesInDir)
    (mine : PrivateTable st dir slot) {table physAddr : Nat} (room : Roomy st')
    (run : DeadKernel.cloneTable kmalloc ((st.dirs dir).tables slot) st
      = some (table, physAddr, st'))
    : SoleFrames pool.own live (fun other => other = table) st' ∧ MemoriesKept live st st'
        ∧ (∀ i < pagesInTable, PageCopied st ((st.dirs dir).tables slot, i) st' (table, i))
        ∧ table ≠ 0 := by
  simp only [DeadKernel.cloneTable, Option.bind_eq_bind, Option.bind_eq_some_iff] at run
  obtain ⟨⟨block, phys, served⟩, request, filled, loop, same⟩ := run
  obtain ⟨rfl, rest⟩ := Prod.mk.inj (Option.some.inj same)
  obtain ⟨-, rfl⟩ := Prod.mk.inj rest
  obtain ⟨held', spaces, out⟩ := h.request request
  have owned := h.owned
  have unattached : Unattached live held' served block := {
    isHeld := by
      rw [out.isHeld]
      exact Option.some_ne_none _
    notLive := fun alive => owned.dirs block alive out.fresh
    unused := fun dir alive slot below => owned.unused out alive below
  }
  let cleared : Kernel := { served with tables := update served.tables block PageTable.zero }
  have dirs : served.dirs dir = st.dirs dir := out.dirs dir (owned.dirs dir alive) mine.notKernel
  have elsewhere : (st.dirs dir).tables slot ≠ block := by
    rw [← dirs]
    exact unattached.unused dir alive slot below
  have original (i : Nat)
      : cleared.page ((st.dirs dir).tables slot, i) = st.page ((st.dirs dir).tables slot, i) :=
    (congrFun (update_other elsewhere) i).trans
      (out.pages _ (owned.tables dir alive slot below mine.1).1
        (owned.notOwn pool.bounded alive below mine i))
  have source : ∀ i < pagesInTable, PrivateRef live (fun other => other = block) cleared
      ((st.dirs dir).tables slot, i) := fun i inside =>
    ⟨inside, Or.inr ⟨dir, alive, slot, below, (out.privateTable owned alive below).mpr mine,
      congrArg (fun dir => dir.tables slot) dirs⟩⟩
  -- marks are never taken away, so a frame that is left in the end was left all along
  have copies : (∀ frame, frameBit cleared.frames frame = true →
      frameBit filled.frames frame = true)
      ∧ filled.dirs = cleared.dirs ∧ filled.kernelDir = cleared.kernelDir
      ∧ (Roomy filled → SoleFrames pool.own live (fun other => other = block) cleared →
        EntriesCopied pool.own live (fun other => other = block) cleared
          ((st.dirs dir).tables slot) block pagesInTable filled) := by
    refine forIndices_invariant (P := fun n mid =>
      (∀ frame, frameBit cleared.frames frame = true → frameBit mid.frames frame = true)
        ∧ mid.dirs = cleared.dirs ∧ mid.kernelDir = cleared.kernelDir
        ∧ (Roomy mid → SoleFrames pool.own live (fun other => other = block) cleared →
          EntriesCopied pool.own live (fun other => other = block) cleared
            ((st.dirs dir).tables slot) block n mid)) ?_ ?_ loop
    · refine ⟨fun _ => id, rfl, rfl, fun _ start => ⟨start, fun _ _ => rfl, fun _ _ _ _ => rfl,
        fun i none => absurd none (Nat.not_lt_zero i), fun i _ => ?_⟩⟩
      exact congrFun (update_self served.tables block PageTable.zero) i
    · rintro n inside mid next ⟨marked, dirs', kernelDir, copied⟩ round
      obtain ⟨dirs'', kernelDir', -⟩ := cloneEntry_effect round
      refine ⟨fun frame busy => cloneEntry_marked round (marked frame busy), dirs''.trans dirs',
        kernelDir'.trans kernelDir, fun left start => ?_⟩
      have before : Roomy mid := left.back fun _ => cloneEntry_marked round
      exact (copied before start).next inside source rfl start dirs' kernelDir marked elsewhere
        left round
  obtain ⟨marked, filledDirs, kernelDir, copied⟩ := copies
  have room' : Roomy served := room.back marked
  have start := (sole.request frugal h room' request).clearTable block
  have done := copied room start
  have clears : MemoriesKept live served cleared := memories_newTable unattached.unused
  have fills : MemoriesKept live cleared filled := by
    refine .of_slots fun other alive' slot' below' => ?_
    have apart : (cleared.dirs other).tables slot' ≠ block :=
      unattached.unused other alive' slot' below'
    refine .of_dirs kernelDir (by rw [filledDirs]) (by rw [filledDirs])
      (fun _ i _ => done.others _ apart) (fun mine' i inside present => done.bytes _ ?_)
    exact start.taken ⟨inside, Or.inr ⟨other, alive', slot', below', mine', rfl⟩⟩ present
  refine ⟨done.sole, (h.request_memories request).trans (clears.trans fills), fun i inside => ?_,
    out.nonzero⟩
  · have copy := done.copied i inside
    refine ⟨by rw [copy.present, original], fun present => ?_⟩
    rw [← original i] at present ⊢
    have contents := copy.bytes present
    rwa [show cleared.ram = st.ram from out.ram] at contents

end

-----------------------------------------------------------------------------------------
-- A directory copied
-----------------------------------------------------------------------------------------

section

variable {kmalloc : Kmalloc} {kfree : Kfree} {pool : BlockPool kmalloc kfree}
variable {live : Nat → Prop} {held : Blocks} {st st' : Kernel} {src dir slot : Nat}

/-- A slot that is not private shows no private bytes. -/
theorem privateByte_none {address : Nat}
    (shared : ¬ PrivateTable st dir (address / pageSize / 1024))
    : st.privateByte dir address = none :=
  if_neg shared

theorem setSlot_kernelTables {i table physical : Nat} (notKernel : dir ≠ st.kernelDir)
    : (st.setSlot dir i table physical).kernelTables = st.kernelTables :=
  congrArg PageDir.tables (update_other notKernel.symm)

/-- Which slots are private after one of them is filled. -/
theorem setSlot_private {i table physical other : Nat} (notKernel : dir ≠ st.kernelDir)
    : PrivateTable (st.setSlot dir i table physical) other slot
      ↔ if other = dir ∧ slot = i then table ≠ 0 ∧ st.kernelTables slot ≠ table
        else PrivateTable st other slot := by
  have kernel : ((st.setSlot dir i table physical).dirs
      (st.setSlot dir i table physical).kernelDir).tables slot = st.kernelTables slot :=
    congrFun (setSlot_kernelTables notKernel) slot
  rw [PrivateTable, kernel, setSlot_table]
  split
  · rfl
  · rfl

theorem SlotKept.setSlot_other {table physical i : Nat} (notKernel : dir ≠ st.kernelDir)
    (other : slot ≠ i)
    : SlotKept dir slot st (st.setSlot dir i table physical) := by
  have elsewhere : ¬ (dir = dir ∧ slot = i) := fun both => other both.2
  refine ⟨(setSlot_private notKernel).trans (iff_of_eq (if_neg elsewhere)), fun _ => ?_,
    fun _ _ _ => rfl, fun _ _ _ _ _ _ => rfl⟩
  rw [setSlot_table, if_neg elsewhere]

/-- A table that is spare or the kernel directory's, put in a slot, maps nothing new. -/
theorem SoleFrames.setSlot {own spare : Nat → Prop} (h : SoleFrames own live spare st)
    {table i physical : Nat} (notKernel : dir ≠ st.kernelDir)
    (known : ∀ j < pagesInTable, InUse live spare st (table, j))
    (attached : st.kernelTables i ≠ table → spare table)
    : SoleFrames own live noTable (st.setSlot dir i table physical) := by
  have kernel : (st.setSlot dir i table physical).dirs st.kernelDir = st.dirs st.kernelDir :=
    update_other notKernel.symm
  have isOwn (ref : PageRef) : OwnEntry own (st.setSlot dir i table physical) ref
      ↔ OwnEntry own st ref :=
    OwnEntry.congr (by rfl) kernel
  refine h.fewer h.zero (fun ref used _ => ⟨?_, rfl, (isOwn ref).mp, id⟩) (fun ref mine => ?_)
  · obtain ⟨inside, none | ⟨other, alive, slot, below, populated, there⟩⟩ := used
    · exact none.elim
    rw [setSlot_table] at populated there
    by_cases here : other = dir ∧ slot = i
    · rw [if_pos here] at there
      have used := known ref.2 inside
      rwa [there] at used
    · rw [if_neg here] at populated there
      exact ⟨inside, Or.inr ⟨other, alive, slot, below, populated, there⟩⟩
  · obtain ⟨inside, none | ⟨other, alive, slot, below, mine, there⟩⟩ := mine
    · exact none.elim
    refine Or.inr (Or.inr ⟨⟨inside, ?_⟩, rfl⟩)
    rw [setSlot_private notKernel] at mine
    rw [setSlot_table] at there
    by_cases here : other = dir ∧ slot = i
    · rw [if_pos here] at there mine
      exact Or.inl (there ▸ attached (here.2 ▸ mine.2))
    · rw [if_neg here] at mine there
      exact Or.inr ⟨other, alive, slot, below, mine, there⟩

/-- What a slot of a clone shows. -/
structure SlotCloned (own live : Nat → Prop) (src dir i : Nat) (st st' : Kernel) : Prop where
  sole : SoleFrames own live noTable st'
  others : MemoriesKept (fun other => live other ∧ other ≠ dir) st st'
  slot : ∀ address < wordSize, address / pageSize / 1024 = i →
    st'.privateByte dir address = st.privateByte src address
  before : ∀ address < wordSize, address / pageSize / 1024 ≠ i →
    st'.privateByte dir address = st.privateByte dir address

theorem Spaces.cloneSlot_copies (h : Spaces pool live held st) (frugal : FrugalPool pool)
    (sole : SoleFrames pool.own live noTable st) {i : Nat} (below : i < tablesInDir)
    (source : live src) (alive : live dir) (notKernel : dir ≠ st.kernelDir)
    (empty : (st.dirs dir).tables i = 0) (room : Roomy st')
    (run : DeadKernel.cloneSlot kmalloc src dir i st = some st')
    : SlotCloned pool.own live src dir i st st' := by
  have unmapped : ¬ PrivateTable st dir i := fun mine => mine.1 empty
  rw [DeadKernel.cloneSlot] at run
  split at run
  · rename_i none
    obtain rfl := Option.some.inj run
    refine ⟨sole, .refl _ _, fun address _ here => ?_, fun _ _ _ => rfl⟩
    rw [privateByte_none (here ▸ unmapped), privateByte_none (fun mine => mine.1 (here ▸ none))]
  rename_i populated
  split at run
  · rename_i shared
    obtain rfl := Option.some.inj run
    have kernelTable : st.kernelTables i = (st.dirs src).tables i := shared
    rw [← kernelTable] at populated ⊢
    have used (j : Nat) (inside : j < pagesInTable)
        : InUse live noTable st (st.kernelTables i, j) :=
      ⟨inside, Or.inr ⟨_, h.owned.kernelDir, i, below, populated, rfl⟩⟩
    refine ⟨sole.setSlot notKernel used (fun other => absurd rfl other),
      memories_setSlot notKernel, fun address _ here => ?_,
      fun address _ other => (SlotKept.setSlot_other notKernel other).byte⟩
    subst here
    have none : st.privateByte src address = none := privateByte_none fun mine => mine.2 shared
    rw [none]
    refine privateByte_none fun mine => ?_
    rw [setSlot_private notKernel, if_pos ⟨rfl, rfl⟩] at mine
    exact mine.2 rfl
  · rename_i other
    obtain ⟨⟨table, phys, cloned⟩, copy, same⟩ := Option.bind_eq_some_iff.mp run
    obtain rfl := Option.some.inj same
    have room' : Roomy cloned := room
    obtain ⟨filled, kept, copied, nonzero⟩ :=
      h.cloneTable_copies frugal sole source below ⟨populated, other⟩ room' copy
    obtain ⟨held', spaces, grow, unattached, kernelDir, dirs⟩ := h.cloneTable copy
    have notKernel' : dir ≠ cloned.kernelDir := kernelDir ▸ notKernel
    refine ⟨filled.setSlot notKernel' (fun j inside => ⟨inside, Or.inl rfl⟩) (fun _ => rfl),
      fun other both address small => ?_, fun address small here => ?_,
      fun address small other => ?_⟩
    · have attached : MemoriesKept (fun other => live other ∧ other ≠ dir) cloned
          (cloned.setSlot dir i table (phys ||| 0x07)) := memories_setSlot notKernel'
      exact (attached other both address small).trans (kept other both.1 address small)
    · subst here
      have attached : PrivateTable (cloned.setSlot dir (address / pageSize / 1024) table
          (phys ||| 0x07)) dir (address / pageSize / 1024) := by
        rw [setSlot_private notKernel', if_pos ⟨rfl, rfl⟩]
        exact ⟨nonzero, unattached.unused _ spaces.owned.kernelDir _ below⟩
      have inside : address / pageSize % 1024 < pagesInTable := Nat.mod_lt _ (by decide)
      have page : (cloned.setSlot dir (address / pageSize / 1024) table (phys ||| 0x07)).page
          (table, address / pageSize % 1024) = cloned.page (table, address / pageSize % 1024) := rfl
      have place : ((cloned.setSlot dir (address / pageSize / 1024) table (phys ||| 0x07)).dirs
          dir).tables (address / pageSize / 1024) = table := by
        rw [setSlot_table, if_pos ⟨rfl, rfl⟩]
      have mine : PrivateTable st src (address / pageSize / 1024) := ⟨populated, other⟩
      rw [privateByte_eq attached, privateByte_eq mine, place, page, (copied _ inside).present]
      split
      · rename_i present
        exact congrArg some ((copied _ inside).bytes present _ (Nat.mod_lt _ (by decide)))
      · rfl
    · rw [(SlotKept.setSlot_other notKernel' other).byte]
      exact kept dir alive address small

/-- No mark is taken away while a slot is copied. -/
theorem Spaces.cloneSlot_marked (h : Spaces pool live held st) {i : Nat}
    (run : DeadKernel.cloneSlot kmalloc src dir i st = some st') {frame : Nat}
    (busy : frameBit st.frames frame = true)
    : frameBit st'.frames frame = true := by
  rw [DeadKernel.cloneSlot] at run
  split at run
  · exact Option.some.inj run ▸ busy
  split at run
  · exact Option.some.inj run ▸ busy
  obtain ⟨⟨table, phys, cloned⟩, copy, same⟩ := Option.bind_eq_some_iff.mp run
  obtain rfl := Option.some.inj same
  simp only [DeadKernel.cloneTable, Option.bind_eq_bind, Option.bind_eq_some_iff] at copy
  obtain ⟨⟨block, phys', served⟩, request, filled, loop, same⟩ := copy
  obtain ⟨-, rest⟩ := Prod.mk.inj (Option.some.inj same)
  obtain ⟨-, rfl⟩ := Prod.mk.inj rest
  obtain ⟨held', -, out⟩ := h.request request
  exact forIndices_invariant (P := fun _ mid => frameBit mid.frames frame = true)
    (out.marked frame busy) (fun _ _ _ _ busy' round => cloneEntry_marked round busy') loop

/-- A new directory has no entries. -/
theorem SoleFrames.openDir {own : Nat → Prop} (h : SoleFrames own live noTable st) {physical : Nat}
    (notLive : ¬ live dir) (kernelDir : live st.kernelDir)
    : SoleFrames own (fun other => live other ∨ other = dir) noTable
        { st with dirs := update st.dirs dir { PageDir.zero with physicalAddr := physical } } := by
  have old {other : Nat} (alive : live other)
      : update st.dirs dir { PageDir.zero with physicalAddr := physical } other = st.dirs other :=
    update_other (fun same => notLive (same ▸ alive))
  have isOwn (ref : PageRef) : OwnEntry own
      { st with dirs := update st.dirs dir { PageDir.zero with physicalAddr := physical } } ref
      ↔ OwnEntry own st ref :=
    OwnEntry.congr (by rfl) (old kernelDir)
  refine h.fewer h.zero (fun ref used _ => ⟨?_, rfl, (isOwn ref).mp, id⟩) (fun ref mine => ?_)
  · obtain ⟨inside, none | ⟨other, alive | rfl, slot, below, populated, there⟩⟩ := used
    · exact none.elim
    · dsimp only at populated there
      rw [old alive] at populated there
      exact ⟨inside, Or.inr ⟨other, alive, slot, below, populated, there⟩⟩
    · dsimp only at populated
      rw [update_self] at populated
      exact absurd rfl populated
  · obtain ⟨inside, none | ⟨other, alive | rfl, slot, below, mine, there⟩⟩ := mine
    · exact none.elim
    · dsimp only [PrivateTable] at mine there
      rw [old alive] at mine there
      rw [old kernelDir] at mine
      exact Or.inr (Or.inr ⟨⟨inside, Or.inr ⟨other, alive, slot, below, mine, there⟩⟩, rfl⟩)
    · dsimp only [PrivateTable] at mine
      rw [update_self] at mine
      exact absurd rfl mine.1

/-- A clone starts with the bytes of its source, in frames of its own, and the directories in use
keep theirs.
-/
theorem Spaces.cloneDir_copies (h : Spaces pool live held st) (frugal : FrugalPool pool)
    (sole : SoleFrames pool.own live noTable st) (source : live src) (room : Roomy st')
    (run : DeadKernel.cloneDir kmalloc src st = some (dir, st'))
    : SoleFrames pool.own (fun other => live other ∨ other = dir) noTable st'
        ∧ MemoriesKept live st st'
        ∧ ∀ address < wordSize, st'.privateByte dir address = st.privateByte src address := by
  simp only [DeadKernel.cloneDir, Option.bind_eq_bind, Option.bind_eq_some_iff] at run
  obtain ⟨⟨block, phys, served⟩, request, filled, loop, same⟩ := run
  obtain ⟨rfl, rfl⟩ := Prod.mk.inj (Option.some.inj same)
  obtain ⟨held', spaces, out⟩ := h.request request
  have notLive : ¬ live block := fun alive => h.owned.dirs block alive out.fresh
  have kernelDir : live served.kernelDir := out.kernelDir.symm ▸ h.owned.kernelDir
  have copied : Roomy filled →
      SoleFrames pool.own (fun other => live other ∨ other = block) noTable filled
      ∧ MemoriesKept live st filled
      ∧ ∀ address < wordSize, filled.privateByte block address
        = if address / pageSize / 1024 < tablesInDir then st.privateByte src address else none := by
    refine (h.cloneDir_rounds (P := fun n mid => Roomy mid →
      SoleFrames pool.own (fun other => live other ∨ other = block) noTable mid
        ∧ MemoriesKept live st mid
        ∧ ∀ address < wordSize, mid.privateByte block address
          = if address / pageSize / 1024 < n then st.privateByte src address else none)
      request loop (fun left => ?_) ?_).2
    · have left' : Roomy served := left
      refine ⟨(sole.request frugal h left' request).openDir notLive kernelDir,
        (h.request_memories request).trans (memories_newDir notLive kernelDir), fun address _ => ?_⟩
      rw [if_neg (Nat.not_lt_zero _)]
      refine privateByte_none fun mine => mine.1 ?_
      simp [PageDir.zero]
    · rintro i below held'' mid next - ready sameKernel empty before round left
      obtain ⟨sole', kept, copied⟩ := before (left.back fun _ => ready.cloneSlot_marked round)
      have notKernel : block ≠ mid.kernelDir := by
        rw [sameKernel]
        exact fun same => notLive (same ▸ h.owned.kernelDir)
      have slot := ready.cloneSlot_copies frugal sole' below (Or.inl source) (Or.inr rfl) notKernel
        empty left round
      refine ⟨slot.sole, fun other alive address small => ?_, fun address small => ?_⟩
      · have apart : other ≠ block := fun same => notLive (same ▸ alive)
        exact (slot.others other ⟨Or.inl alive, apart⟩ address small).trans
          (kept other alive address small)
      · by_cases here : address / pageSize / 1024 = i
        · rw [slot.slot address small here, if_pos (by omega)]
          exact kept src source address small
        · rw [slot.before address small here, copied address small]
          by_cases earlier : address / pageSize / 1024 < i
          · rw [if_pos earlier, if_pos (by omega)]
          · rw [if_neg earlier, if_neg (by omega)]
  obtain ⟨sole', kept, same⟩ := copied room
  refine ⟨sole', kept, fun address small => ?_⟩
  rw [same address small, if_pos (page_slot (address_page small))]

end

end DeadKernel
