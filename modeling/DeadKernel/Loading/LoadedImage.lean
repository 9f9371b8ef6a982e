import DeadKernel.Loading.SectionCoverage

/-! What a task finds in its segments.
The loader copies the bytes of the file and clears nothing; the frames it maps hold whatever they
held before.
-/

namespace DeadKernel

open Words

-----------------------------------------------------------------------------------------
-- Copies to pages with frames of their own
-----------------------------------------------------------------------------------------

/-- The byte behind an address, if its page is present. -/
def Kernel.byteAt (st : Kernel) (dir address : Nat) : UInt8 :=
  st.ram (st.place dir address).1 (st.place dir address).2

/-- Different addresses in `pages` show different bytes. -/
def Separate (pages : Nat → Prop) (dir : Nat) (st : Kernel) : Prop :=
  ∀ address address', pages (address / pageSize) → pages (address' / pageSize) →
    st.place dir address = st.place dir address' → address = address'

section

variable {pages : Nat → Prop} {st st' : Kernel} {dir : Nat}

/-- A copy changes the bytes it goes to and no others, by induction on the bytes. -/
theorem copyBytes_content {source : Nat → UInt8} {len k dest : Nat}
    (current : st.currentDir = dir) (separate : Separate pages dir st)
    (fits : dest + len ≤ wordSize)
    (inside : ∀ j < len, (st.entry dir ((dest + j) / pageSize)).present = true →
      pages ((dest + j) / pageSize))
    (run : copyBytes source len k dest st = some st')
    : ∃ ram, st' = { st with ram }
        ∧ (∀ j < len, (st.entry dir ((dest + j) / pageSize)).present = true)
        ∧ ∀ address, pages (address / pageSize) → st'.byteAt dir address
          = if dest ≤ address ∧ address < dest + len then source (k + (address - dest))
            else st.byteAt dir address := by
  induction len generalizing k dest st with
  | zero =>
      obtain rfl := Option.some.inj run
      refine ⟨st.ram, rfl, fun j none => absurd none (Nat.not_lt_zero j), fun address _ => ?_⟩
      rw [if_neg (by omega)]
  | succ len ih =>
      obtain ⟨mid, one, rest⟩ := Option.bind_eq_some_iff.mp run
      obtain ⟨present, ram, rfl, stored⟩ := storeByte_spec one
      subst current
      have next : u32 (dest + 1) = dest + 1 ∨ len = 0 := by
        by_cases last : len = 0
        · exact Or.inr last
        · exact Or.inl (u32_of_lt (by omega))
      have later {j : Nat} (below : j < len) : u32 (dest + 1) + j = dest + (j + 1) := by
        omega
      have bound : u32 (dest + 1) + len ≤ wordSize := by
        have := u32_lt (dest + 1)
        omega
      have separate' : Separate pages st.currentDir { st with ram } := separate
      obtain ⟨ram', rfl, others, content⟩ := ih (by rfl) separate' bound
        (by
          intro j below there
          rw [later below] at there ⊢
          exact inside (j + 1) (Nat.succ_lt_succ below) there) rest
      refine ⟨ram', rfl, fun j below => ?_, fun address there => ?_⟩
      · cases j with
        | zero => exact present
        | succ j =>
            have now := others j (Nat.lt_of_succ_lt_succ below)
            rw [later (Nat.lt_of_succ_lt_succ below)] at now
            exact now
      · rw [content address there]
        have first : ({ st with ram } : Kernel).byteAt st.currentDir address
            = if address = dest then source k else st.byteAt st.currentDir address := by
          refine (stored (st.place st.currentDir address)).trans ?_
          by_cases here : address = dest
          · rw [if_pos (by rw [here]), if_pos here]
          · rw [if_neg (fun same => here ?_), if_neg here]
            · rfl
            · exact separate address dest there (inside 0 (Nat.succ_pos len) present) same
        rw [first]
        by_cases here : address = dest
        · rw [if_neg (by omega), if_pos here, if_pos (by omega), here, Nat.sub_self, Nat.add_zero]
        · by_cases range : dest ≤ address ∧ address < dest + (len + 1)
          · have offset : k + 1 + (address - u32 (dest + 1)) = k + (address - dest) := by omega
            rw [if_pos (by omega), if_pos range, offset]
          · rw [if_neg (by omega), if_neg here, if_neg range]

-----------------------------------------------------------------------------------------
-- Segments
-----------------------------------------------------------------------------------------

/-- Where a segment ends in memory. -/
def ProgramHeader.extent (ph : ProgramHeader) : Nat := max ph.filesz ph.memsz

/-- Segments that are loaded do not overlap. -/
def ProgramHeader.Apart (ph ph' : ProgramHeader) : Prop :=
  ph.type = ptLoad → ph'.type = ptLoad →
    ph.vaddr + ph.extent ≤ ph'.vaddr ∨ ph'.vaddr + ph'.extent ≤ ph.vaddr

instance : Std.Symm ProgramHeader.Apart where
  symm _ _ apart load load' := (apart load' load).symm

def ElfObj.SegmentsApart (hdr : ElfObj) : Prop := hdr.programs.Pairwise ProgramHeader.Apart

/-- The segments lie in pages of the sections. -/
def ElfObj.SegmentsInside (hdr : ElfObj) : Prop :=
  ∀ ph ∈ hdr.programs, ph.type = ptLoad → ph.vaddr + ph.extent ≤ wordSize
    ∧ ∀ k < ph.extent, ∃ section_ ∈ hdr.sections, section_.loaded
      ∧ section_.overlaps ((ph.vaddr + k) / pageSize)

end

-----------------------------------------------------------------------------------------
-- The new address space when the copying starts
-----------------------------------------------------------------------------------------

def System.withRam (sys : System) (ram : Nat → Nat → UInt8) : System :=
  { sys with memory := { sys.memory with ram } }

section

variable {kmalloc : Kmalloc} {kfree : Kfree} {pool : BlockPool kmalloc kfree}
variable {live : Nat → Prop} {held : Blocks} {hdr : ElfObj} {sys sys' : System} {task : Nat}

theorem LoadReady.withRam (h : LoadReady pool live held sys) (ram : Nat → Nat → UInt8)
    : LoadReady pool live held (sys.withRam ram) :=
  ⟨h.spaces.withRam ram, h.layout.congr rfl, h.kernelTask, h.zero⟩

/-- The zeros that a segment asks for do not all lie in the header of the task's heap. -/
def ElfObj.ZerosClear (hdr : ElfObj) : Prop :=
  ∀ ph ∈ hdr.programs, ph.type = ptLoad → ph.filesz < ph.memsz →
    ∃ k, ph.filesz ≤ k ∧ k < ph.memsz
      ∧ (ph.vaddr + k < heapStart ∨ heapStart + minChunkSize ≤ ph.vaddr + k)

/-- What the loader is promised about the segments of an object. -/
structure ElfObj.Placed (hdr : ElfObj) : Prop where
  apart : hdr.SegmentsApart
  inside : hdr.SegmentsInside
  clear : hdr.ZerosClear

/-- The zeros of a segment are in no segment's bytes. -/
theorem ElfObj.Placed.behind (h : hdr.Placed) {ph : ProgramHeader} (member : ph ∈ hdr.programs)
    (load : ph.type = ptLoad) {k : Nat} (above : ph.filesz ≤ k) (below : k < ph.memsz)
    : ∀ other ∈ hdr.programs, other.type = ptLoad →
        ¬ (other.vaddr ≤ ph.vaddr + k ∧ ph.vaddr + k < other.vaddr + other.filesz) := by
  intro other member' load' within
  by_cases same : other = ph
  · subst same
    omega
  · have apart := h.apart.forall member' member same load' load
    have reach : other.filesz ≤ other.extent := Nat.le_max_left _ _
    have reach' : ph.memsz ≤ ph.extent := Nat.le_max_right _ _
    omega

end

end DeadKernel
