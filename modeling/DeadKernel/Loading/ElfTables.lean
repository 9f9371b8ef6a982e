import DeadKernel.Foundation.ByteMemory
import DeadKernel.Loading.NearestSymbol
import DeadKernel.Shared.Strings

/-! ELF objects as `ELFLoad` sets them up from an image in memory, and the lookups in their tables.
A magic number with more bits than the right one is accepted, and without a symbol table the number
of symbols is read from where a section at address 0 would have its size.
-/

namespace DeadKernel

open ByteMemory

-----------------------------------------------------------------------------------------
-- The records of the format
-----------------------------------------------------------------------------------------

abbrev elfMagic : BitVec 32 := 0x464C457F
abbrev eshtSymtab : UInt8 := 2
abbrev eshtStrtab : UInt8 := 3
abbrev sttNotype : UInt8 := 0

structure Elf32Header where
  magic : BitVec 32
  phoff : BitVec 32
  shoff : BitVec 32
  phnum : BitVec 16
  shnum : BitVec 16
  shstrndx : BitVec 16

structure Elf32SectionHeader where
  type : BitVec 32
  addr : BitVec 32
  offset : BitVec 32
  size : BitVec 32
  link : BitVec 32

structure Elf32Symbol where
  name : BitVec 32
  value : BitVec 32
  info : UInt8

def headerAt (memory : CharMemory) (header : BitVec 32) : Elf32Header where
  magic := readWord memory header
  phoff := readWord memory (header + 28)
  shoff := readWord memory (header + 32)
  phnum := readHalf memory (header + 44)
  shnum := readHalf memory (header + 48)
  shstrndx := readHalf memory (header + 50)

def sectionAt (memory : CharMemory) (section_ : BitVec 32) : Elf32SectionHeader where
  type := readWord memory (section_ + 4)
  addr := readWord memory (section_ + 12)
  offset := readWord memory (section_ + 16)
  size := readWord memory (section_ + 20)
  link := readWord memory (section_ + 24)

def symbolAt (memory : CharMemory) (symbol : BitVec 32) : Elf32Symbol where
  name := readWord memory symbol
  value := readWord memory (symbol + 4)
  info := memory (symbol + 12)

/-- The symbol as the lookups by address see it. -/
def Elf32Symbol.entry (symbol : Elf32Symbol) : Symbol where
  value := symbol.value.toNat
  info := symbol.info
  value_lt := symbol.value.isLt

-----------------------------------------------------------------------------------------
-- Objects and lookups
-----------------------------------------------------------------------------------------

structure Elf32SectionObj where
  sectabHead : BitVec 32
  sectabSize : BitVec 32
  progtabHead : BitVec 32
  progtabSize : BitVec 32
  symtabHead : BitVec 32
  symtabSize : BitVec 32
  strtabHead : BitVec 32
  strtabSize : BitVec 32
  hstrtabHead : BitVec 32
deriving DecidableEq

structure Elf32Obj where
  header : BitVec 32
  sections : Elf32SectionObj
  start : BitVec 32
  stop : BitVec 32
deriving DecidableEq

def elf32CheckMagic (header : Elf32Header) : Bool := header.magic &&& elfMagic = elfMagic

def sectabEntries (hdr : Elf32Obj) : List (BitVec 32) :=
  entries hdr.sections.sectabHead 40 hdr.sections.sectabSize.toNat

def symtabEntries (hdr : Elf32Obj) : List (BitVec 32) :=
  entries hdr.sections.symtabHead 16 hdr.sections.symtabSize.toNat

def hasType (memory : CharMemory) (type : UInt8) (section_ : BitVec 32) : Bool :=
  (sectionAt memory section_).type = type.toBitVec.setWidth 32

def elfLookupSectionByType (memory : CharMemory) (hdr : Elf32Obj) (type : UInt8)
    : Option (BitVec 32) :=
  (sectabEntries hdr).find? (hasType memory type)

/-- No result stands for a `strcmp` that has too few rounds; `some none` is `NULL`. -/
def elfLookupSymbolByName (memory : CharMemory) (fuel : Nat) (hdr : Elf32Obj) (type : UInt8)
    (name : BitVec 32)
    : Option (Option (BitVec 32)) :=
  if hdr.sections.sectabSize = 0 then some none
  else if hdr.sections.symtabSize = 0 then some none
  else if hdr.sections.strtabSize = 0 then some none
  else (symtabEntries hdr).findM? fun symbol =>
    if sttCheckType (symbolAt memory symbol).entry type then
      (strcmp memory fuel (hdr.sections.strtabHead + (symbolAt memory symbol).name) name).map
        fun difference => difference = 0
    else some false

-----------------------------------------------------------------------------------------
-- ELFLoad and initKernelTable
-----------------------------------------------------------------------------------------

/-- Where the literals "__code" and "__end" stand. -/
structure BoundNames where
  code : BitVec 32
  stop : BitVec 32

/-- `symbol ? symbol->value : 0`. -/
def valueOrZero (memory : CharMemory) (symbol : Option (BitVec 32)) : BitVec 32 :=
  symbol.elim 0 fun symbol => (symbolAt memory symbol).value

/-- The end of `ELFLoad` and of `initKernelTable`: `start` and `end` are looked up by name. -/
def lookupBounds (memory : CharMemory) (names : BoundNames) (fuel : Nat) (out : Elf32Obj)
    : Option Elf32Obj := do
  let startsym ← elfLookupSymbolByName memory fuel out sttNotype names.code
  let out := { out with start := valueOrZero memory startsym }
  let endsym ← elfLookupSymbolByName memory fuel out sttNotype names.stop
  return { out with stop := valueOrZero memory endsym }

/-- `ELFLoad` up to the string table. The size of the symbol table is read without a test whether
there is one.
-/
def loadTables (memory : CharMemory) (address : BitVec 32) (out : Elf32Obj) : Elf32Obj :=
  let header := headerAt memory address
  let sectab := address + header.shoff
  let names := sectab + 40 * header.shstrndx.setWidth 32
  let out := { out with
    header := address
    sections := { out.sections with
      sectabHead := sectab
      sectabSize := header.shnum.setWidth 32
      progtabHead := address + header.phoff
      progtabSize := header.phnum.setWidth 32
      hstrtabHead := address + (sectionAt memory names).offset } }
  let symtab := elfLookupSectionByType memory out eshtSymtab
  let out := { out with
    sections := { out.sections with
      symtabHead := symtab.elim 0 fun symtab => address + (sectionAt memory symtab).offset
      symtabSize := (sectionAt memory (symtab.getD 0)).size / 16 } }
  let strtab := elfLookupSectionByType memory out eshtStrtab
  { out with
    sections := { out.sections with
      strtabHead := strtab.elim 0 fun strtab => address + (sectionAt memory strtab).offset
      strtabSize := strtab.elim 0 fun strtab => (sectionAt memory strtab).size } }

def elfLoad (memory : CharMemory) (names : BoundNames) (fuel : Nat) (address : BitVec 32)
    (out : Elf32Obj)
    : Option (Bool × Elf32Obj) :=
  if ¬ elf32CheckMagic (headerAt memory address) then some (false, out)
  else (lookupBounds memory names fuel (loadTables memory address out)).map fun out => (true, out)

/-- `initKernelTable` up to the string table: the tables lie at their addresses, and both sizes are
0 without a table.
-/
def kernelTables (memory : CharMemory) (sectab size shindex : BitVec 32) (out : Elf32Obj)
    : Elf32Obj :=
  let out := { out with
    header := 0
    sections := { out.sections with
      sectabHead := sectab
      sectabSize := size
      hstrtabHead := (sectionAt memory (sectab + 40 * shindex)).addr } }
  let symtab := elfLookupSectionByType memory out eshtSymtab
  let out := { out with
    sections := { out.sections with
      symtabHead := symtab.elim 0 fun symtab => (sectionAt memory symtab).addr
      symtabSize := symtab.elim 0 fun symtab => (sectionAt memory symtab).size / 16 } }
  let strtab := elfLookupSectionByType memory out eshtStrtab
  { out with
    sections := { out.sections with
      strtabHead := strtab.elim 0 fun strtab => (sectionAt memory strtab).addr
      strtabSize := strtab.elim 0 fun strtab => (sectionAt memory strtab).size } }

def initKernelTable (memory : CharMemory) (names : BoundNames) (fuel : Nat)
    (sectab size shindex : BitVec 32) (out : Elf32Obj)
    : Option Elf32Obj :=
  lookupBounds memory names fuel (kernelTables memory sectab size shindex out)

-----------------------------------------------------------------------------------------
-- What the lookups find
-----------------------------------------------------------------------------------------

/-- The symbol has the type, and its name in the string table is the text. -/
abbrev Named (memory : CharMemory) (strtab : BitVec 32) (type : UInt8) (text : List UInt8)
    (symbol : BitVec 32)
    : Prop :=
  sttCheckType (symbolAt memory symbol).entry type = true
  ∧ BytesAt memory (strtab + (symbolAt memory symbol).name) (text ++ [0])

/-- The first of the symbols with the type and the name. -/
def firstNamed (memory : CharMemory) (strtab : BitVec 32) (symbols : List (BitVec 32))
    (type : UInt8) (text : List UInt8)
    : Option (BitVec 32) :=
  symbols.find? fun symbol => Named memory strtab type text symbol

/-- The lookup does not go through the symbols: a table is empty. -/
def Elf32Obj.Stripped (hdr : Elf32Obj) : Prop :=
  hdr.sections.sectabSize = 0 ∨ hdr.sections.symtabSize = 0 ∨ hdr.sections.strtabSize = 0

instance Elf32Obj.stripped_decidable (hdr : Elf32Obj) : Decidable hdr.Stripped :=
  inferInstanceAs (Decidable (_ ∨ _ ∨ _))

/-- What the lookup by name gives with the tables as they are. -/
def Elf32Obj.named (hdr : Elf32Obj) (memory : CharMemory) (type : UInt8) (text : List UInt8)
    : Option (BitVec 32) :=
  if hdr.Stripped then none
  else firstNamed memory hdr.sections.strtabHead (symtabEntries hdr) type text

/-- "__code" -/
def codeText : List UInt8 := ['_', '_', 'c', 'o', 'd', 'e'].map chr

/-- "__end" -/
def endText : List UInt8 := ['_', '_', 'e', 'n', 'd'].map chr

/-- The object with the bounds that its own tables give. -/
def Elf32Obj.withBounds (hdr : Elf32Obj) (memory : CharMemory) : Elf32Obj :=
  { hdr with
    start := valueOrZero memory (hdr.named memory sttNotype codeText)
    stop := valueOrZero memory (hdr.named memory sttNotype endText) }

/-- The literals of the two loaders stand in memory. -/
structure BoundNames.At (names : BoundNames) (memory : CharMemory) : Prop where
  code : StringAt memory names.code codeText
  stop : StringAt memory names.stop endText

section Lookups

variable {memory : CharMemory} {hdr out : Elf32Obj} {names : BoundNames} {fuel : Nat}
  {name : BitVec 32} {text : List UInt8} {type : UInt8}

theorem findM?_eq_find? {α : Type} {list : List α} {test : α → Option Bool} {found : α → Bool}
    (tests : ∀ entry ∈ list, test entry = some (found entry))
    : list.findM? test = some (list.find? found) := by
  induction list with
  | nil => rfl
  | cons entry rest ih =>
      rw [List.findM?, tests entry List.mem_cons_self, List.find?_cons]
      have later := ih fun other mem => tests other (List.mem_cons_of_mem entry mem)
      cases found entry with
      | true => rfl
      | false => exact later

theorem elfLookupSymbolByName_eq (string : StringAt memory name text)
    (enough : text.length < fuel)
    : elfLookupSymbolByName memory fuel hdr type name = some (hdr.named memory type text) := by
  rw [elfLookupSymbolByName, Elf32Obj.named]
  by_cases stripped : hdr.Stripped
  · rw [if_pos stripped]
    obtain sections | symbols | strings := stripped
    · rw [if_pos sections]
    · rw [if_pos symbols, ite_self]
    · rw [if_pos strings, ite_self, ite_self]
  · rw [if_neg stripped]
    rw [Elf32Obj.Stripped, not_or, not_or] at stripped
    rw [if_neg stripped.1, if_neg stripped.2.1, if_neg stripped.2.2, firstNamed]
    apply findM?_eq_find?
    intro symbol _
    split
    case isTrue typed =>
      obtain ⟨difference, returns, zero⟩ := strcmp_bytes string enough
      rw [returns]
      simp [Named, typed, zero]
    case isFalse typed => simp [Named, typed]

/-- Both bounds are looked up in the tables as they are, and nothing else changes. -/
theorem lookupBounds_eq (literals : names.At memory) (enough : 6 < fuel)
    : lookupBounds memory names fuel out = some (out.withBounds memory) := by
  have code : codeText.length < fuel := enough
  have stop : endText.length < fuel := Nat.lt_of_succ_lt enough
  rw [lookupBounds, elfLookupSymbolByName_eq literals.code code, Option.bind_eq_bind,
    Option.bind_some]
  dsimp only
  rw [elfLookupSymbolByName_eq literals.stop stop]
  rfl

end Lookups

-----------------------------------------------------------------------------------------
-- The sections of an image
-----------------------------------------------------------------------------------------

def imageSections (memory : CharMemory) (address : BitVec 32) : List (BitVec 32) :=
  entries (address + (headerAt memory address).shoff) 40 (headerAt memory address).shnum.toNat

/-- The first section of the image with the type. -/
def firstSection (memory : CharMemory) (address : BitVec 32) (type : UInt8)
    : Option (BitVec 32) :=
  (imageSections memory address).find? (hasType memory type)

/-- 7F, then "ELF". -/
def IsElf (memory : CharMemory) (address : BitVec 32) : Prop :=
  BytesAt memory address [0x7F, 0x45, 0x4C, 0x46]

section Sections

variable {memory : CharMemory} {address : BitVec 32} {out : Elf32Obj}

theorem isElf_iff : IsElf memory address ↔ (headerAt memory address).magic = elfMagic := by
  have bytes : elfMagic = (0x46 : UInt8).toBitVec ++ (0x4C : UInt8).toBitVec
      ++ (0x45 : UInt8).toBitVec ++ (0x7F : UInt8).toBitVec := by decide
  rw [headerAt, bytes, readWord_eq_iff, IsElf]
  simp only [BytesAt, and_true, BitVec.add_assoc]
  rfl

theorem IsElf.accepted (elf : IsElf memory address)
    : elf32CheckMagic (headerAt memory address) = true := by
  rw [elf32CheckMagic, isElf_iff.mp elf]
  rfl

theorem sectab_loadTables
    : sectabEntries (loadTables memory address out) = imageSections memory address := by
  rw [sectabEntries, imageSections]
  simp only [loadTables]
  rw [BitVec.toNat_setWidth_of_le (by decide)]

/-- The lookups of `loadTables` go through the sections of the image. -/
theorem sections_loadTables
    : (loadTables memory address out).sections
      = { sectabHead := address + (headerAt memory address).shoff
          sectabSize := (headerAt memory address).shnum.setWidth 32
          progtabHead := address + (headerAt memory address).phoff
          progtabSize := (headerAt memory address).phnum.setWidth 32
          symtabHead := (firstSection memory address eshtSymtab).elim 0 fun symtab =>
            address + (sectionAt memory symtab).offset
          symtabSize :=
            (sectionAt memory ((firstSection memory address eshtSymtab).getD 0)).size / 16
          strtabHead := (firstSection memory address eshtStrtab).elim 0 fun strtab =>
            address + (sectionAt memory strtab).offset
          strtabSize := (firstSection memory address eshtStrtab).elim 0 fun strtab =>
            (sectionAt memory strtab).size
          hstrtabHead := address + (sectionAt memory (address + (headerAt memory address).shoff
            + 40 * (headerAt memory address).shstrndx.setWidth 32)).offset } := by
  have count : ((headerAt memory address).shnum.setWidth 32).toNat
      = (headerAt memory address).shnum.toNat := BitVec.toNat_setWidth_of_le (by decide)
  simp only [loadTables, elfLookupSectionByType, sectabEntries, count, firstSection,
    imageSections]

end Sections

-----------------------------------------------------------------------------------------
-- What ELFLoad accepts, and the sizes it leaves
-----------------------------------------------------------------------------------------

/-- The sizes are those of the first sections of the two types, or 0, and no symbol of a stripped
image is found.
-/
structure LoadedTables (memory : CharMemory) (address : BitVec 32) (obj : Elf32Obj) : Prop where
  symtab : obj.sections.symtabSize = (firstSection memory address eshtSymtab).elim 0
    fun symtab => (sectionAt memory symtab).size / 16
  strtab : obj.sections.strtabSize = (firstSection memory address eshtStrtab).elim 0
    fun strtab => (sectionAt memory strtab).size
  stripped : firstSection memory address eshtSymtab = none
      ∨ firstSection memory address eshtStrtab = none →
    ∀ type name text, StringAt memory name text → ∀ fuel, text.length < fuel →
      elfLookupSymbolByName memory fuel obj type name = some none

/-- `ELFLoad` returns `result`: it accepts ELF images only, with the right tables, and leaves the
object alone otherwise.
-/
structure LoadsProperly (memory : CharMemory) (address : BitVec 32) (out : Elf32Obj)
    (result : Bool × Elf32Obj)
    : Prop where
  accepts : result.1 = true ↔ IsElf memory address
  unchanged : result.1 = false → result.2 = out
  tables : result.1 = true → LoadedTables memory address result.2

/-- The magic number has no more bits than it should, and where there is no symbol table, the word
that is read for its size is less than the size of a symbol.
-/
structure LoadCondition (memory : CharMemory) (address : BitVec 32) : Prop where
  magic : (headerAt memory address).magic &&& elfMagic = elfMagic → IsElf memory address
  symtab : IsElf memory address → firstSection memory address eshtSymtab = none →
    readWord memory 20 < 16

section Accepting

variable {memory : CharMemory} {address : BitVec 32} {out obj : Elf32Obj} {names : BoundNames}
  {fuel : Nat}

theorem elfLoad_accepted (out : Elf32Obj)
    (accepted : elf32CheckMagic (headerAt memory address) = true)
    (literals : names.At memory) (enough : 6 < fuel)
    : elfLoad memory names fuel address out
        = some (true, (loadTables memory address out).withBounds memory) := by
  rw [elfLoad, if_neg (not_not.mpr accepted), lookupBounds_eq literals enough, Option.map_some]

/-- The symbol table has the right size unless a missing one is read. -/
theorem symtabSize_right (tables : obj.sections = (loadTables memory address out).sections)
    (small : firstSection memory address eshtSymtab = none → readWord memory 20 < 16)
    : obj.sections.symtabSize = (firstSection memory address eshtSymtab).elim 0
        fun symtab => (sectionAt memory symtab).size / 16 := by
  rw [tables, sections_loadTables]
  cases found : firstSection memory address eshtSymtab with
  | some symtab => rfl
  | none =>
      have less : (readWord memory 20).toNat < 16 := small found
      apply BitVec.eq_of_toNat_eq
      exact (BitVec.toNat_udiv ..).trans (Nat.div_eq_of_lt less)

theorem symtabSize_small (tables : obj.sections = (loadTables memory address out).sections)
    (missing : firstSection memory address eshtSymtab = none)
    (right : obj.sections.symtabSize = 0)
    : readWord memory 20 < 16 := by
  rw [tables, sections_loadTables, missing] at right
  have zero : (readWord memory 20).toNat / 16 = 0 :=
    (BitVec.toNat_udiv ..).symm.trans (congrArg BitVec.toNat right)
  exact Nat.lt_of_div_eq_zero (by decide) zero

theorem strtabSize_right (tables : obj.sections = (loadTables memory address out).sections)
    : obj.sections.strtabSize = (firstSection memory address eshtStrtab).elim 0
        fun strtab => (sectionAt memory strtab).size := by
  rw [tables, sections_loadTables]

theorem loadedTables (tables : obj.sections = (loadTables memory address out).sections)
    (small : firstSection memory address eshtSymtab = none → readWord memory 20 < 16)
    : LoadedTables memory address obj where
  symtab := symtabSize_right tables small
  strtab := strtabSize_right tables
  stripped := by
    intro missing type name text string fuel enough
    have stripped : obj.Stripped := by
      cases missing with
      | inl symtab =>
          refine .inr (.inl ?_)
          rw [symtabSize_right tables small, symtab]
          rfl
      | inr strtab =>
          refine .inr (.inr ?_)
          rw [strtabSize_right tables, strtab]
          rfl
    rw [elfLookupSymbolByName_eq string enough, Elf32Obj.named, if_pos stripped]

/-- `ELFLoad` accepts exactly the ELF images and sets the right sizes, exactly if the magic number
is right where its test passes and a missing symbol table is read as an empty one.
-/
theorem elfLoad_proper_iff (memory : CharMemory) (address : BitVec 32) (out : Elf32Obj)
    (literals : names.At memory) (enough : 6 < fuel)
    : (∃ result, elfLoad memory names fuel address out = some result
        ∧ LoadsProperly memory address out result)
      ↔ LoadCondition memory address := by
  by_cases accepted : elf32CheckMagic (headerAt memory address) = true
  · have loads := elfLoad_accepted out accepted literals enough
    constructor
    · rintro ⟨result, same, proper⟩
      obtain rfl := Option.some.inj (loads.symm.trans same)
      refine ⟨fun _ => proper.accepts.mp rfl, fun _ missing => ?_⟩
      have right := (proper.tables rfl).symtab
      rw [missing] at right
      exact symtabSize_small rfl missing right
    · intro condition
      have elf := condition.magic (of_decide_eq_true accepted)
      refine ⟨_, loads, iff_of_true rfl elf,
        fun no => absurd no.symm Bool.false_ne_true, fun _ => ?_⟩
      exact loadedTables rfl (condition.symtab elf)
  · have refused : elfLoad memory names fuel address out = some (false, out) := by
      rw [elfLoad, if_pos accepted]
    have other : ¬ IsElf memory address := fun elf => accepted elf.accepted
    refine iff_of_true ⟨_, refused, iff_of_false Bool.false_ne_true other, fun _ => rfl, ?_⟩
      ⟨fun masked => absurd (decide_eq_true masked) accepted, fun elf => absurd elf other⟩
    exact fun yes => absurd yes Bool.false_ne_true

/-- The tables of the kernel get the right sizes whether they are there or not. -/
theorem kernelTables_sizes (memory : CharMemory) (sectab size shindex : BitVec 32)
    (out : Elf32Obj)
    : (kernelTables memory sectab size shindex out).sections.symtabSize
        = ((entries sectab 40 size.toNat).find? (hasType memory eshtSymtab)).elim 0
          (fun symtab => (sectionAt memory symtab).size / 16)
      ∧ (kernelTables memory sectab size shindex out).sections.strtabSize
        = ((entries sectab 40 size.toNat).find? (hasType memory eshtStrtab)).elim 0
          (fun strtab => (sectionAt memory strtab).size) :=
  ⟨rfl, rfl⟩

end Accepting

/-- The fields of an ELF header without sections and segments. -/
def bareHeader : List UInt8 :=
  [0x7F, 0x45, 0x4C, 0x46, 1, 1, 1, 0, 0, 0, 0, 0, 0, 0, 0, 0, 2, 0, 3, 0, 1, 0, 0, 0, 0, 0, 0, 0,
    0, 0, 0, 0, 0, 0, 0, 0, 0, 0, 0, 0, 52, 0, 32, 0, 0, 0, 40, 0, 0, 0, 0, 0]

/-- The word at address 20, an image of a header alone at address 64, and the two literals. -/
def strippedMemory (word : List UInt8) : CharMemory := fun address =>
  (List.replicate 20 0 ++ word ++ List.replicate 40 0 ++ bareHeader ++ codeText ++ [0]
    ++ endText ++ [0]).getD address.toNat 0

def emptyObj : Elf32Obj := ⟨0, ⟨0, 0, 0, 0, 0, 0, 0, 0, 0⟩, 0, 0⟩

theorem elfLoad_proper_stripped
    : ∃ result, elfLoad (strippedMemory [0, 0, 0, 0]) ⟨116, 123⟩ 7 64 emptyObj = some result
        ∧ LoadsProperly (strippedMemory [0, 0, 0, 0]) 64 emptyObj result := by
  have literals : BoundNames.At ⟨116, 123⟩ (strippedMemory [0, 0, 0, 0]) :=
    ⟨⟨by decide, by decide⟩, ⟨by decide, by decide⟩⟩
  refine (elfLoad_proper_iff _ 64 emptyObj literals (by decide)).mpr ⟨fun _ => ?_, fun _ _ => ?_⟩
  · show BytesAt _ _ _
    decide
  · decide

/-- Interrupt vector 5 of the BIOS stands where the size of a missing symbol table is read. -/
theorem elfLoad_improper
    : ¬ ∃ result, elfLoad (strippedMemory [0x54, 0xFF, 0x00, 0xF0]) ⟨116, 123⟩ 7 64 emptyObj
          = some result
        ∧ LoadsProperly (strippedMemory [0x54, 0xFF, 0x00, 0xF0]) 64 emptyObj result := by
  rintro ⟨result, loads, proper⟩
  have sizes : (elfLoad (strippedMemory [0x54, 0xFF, 0x00, 0xF0]) ⟨116, 123⟩ 7 64 emptyObj).map
      (fun result => (result.1, result.2.sections.symtabSize)) = some (true, 0x0F000FF5) := by
    decide +kernel
  rw [loads] at sizes
  obtain ⟨accepted, size⟩ := Prod.mk.inj (Option.some.inj sizes)
  have right := (proper.tables accepted).symtab
  have missing : firstSection (strippedMemory [0x54, 0xFF, 0x00, 0xF0]) 64 eshtSymtab = none := by
    decide +kernel
  rw [missing, size] at right
  exact absurd right (by decide)

end DeadKernel
