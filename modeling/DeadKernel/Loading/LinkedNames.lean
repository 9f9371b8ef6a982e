import DeadKernel.Loading.ElfTables

/-! Symbols by name. A symbol table names its string table in its link, and `ELFLoad` takes the
first string table of the image, so that a name may be read in the wrong one.
-/

namespace DeadKernel

open ByteMemory

-----------------------------------------------------------------------------------------
-- Images with a symbol table
-----------------------------------------------------------------------------------------

abbrev eshtNobits32 : BitVec 32 := 8

/-- The section has its bytes in the image. -/
def InImage (memory : CharMemory) (imageSize : Nat) (section_ : BitVec 32) : Prop :=
  (sectionAt memory section_).type = eshtNobits32
  ∨ (sectionAt memory section_).offset.toNat + (sectionAt memory section_).size.toNat ≤ imageSize

/-- The entry of the section table with an index. -/
def sectionEntry (memory : CharMemory) (address index : BitVec 32) : BitVec 32 :=
  address + (headerAt memory address).shoff + 40 * index

/-- Where the string table that the symbol table is linked to stands. -/
def linkedStrings (memory : CharMemory) (address symtab : BitVec 32) : BitVec 32 :=
  address + (sectionAt memory
    (sectionEntry memory address (sectionAt memory symtab).link)).offset

def imageSymbols (memory : CharMemory) (address symtab : BitVec 32) : List (BitVec 32) :=
  entries (address + (sectionAt memory symtab).offset) 16
    ((sectionAt memory symtab).size.toNat / 16)

/-- The name of the symbol in a string table. -/
def NameIs (memory : CharMemory) (strtab symbol : BitVec 32) (text : List UInt8) : Prop :=
  StringAt memory (strtab + (symbolAt memory symbol).name) text

/-- An ELF image of `imageSize` bytes, with the tables inside, whose one symbol table is linked to a
string table with the names of all its symbols.
-/
structure SymbolImage (memory : CharMemory) (address : BitVec 32) (imageSize : Nat)
    (symtab : BitVec 32)
    : Prop where
  elf : IsElf memory address
  fits : address.toNat + imageSize ≤ 2 ^ 32
  sectab : (headerAt memory address).shoff.toNat + 40 * (headerAt memory address).shnum.toNat
    ≤ imageSize
  sections : ∀ section_ ∈ imageSections memory address, InImage memory imageSize section_
  listed : symtab ∈ imageSections memory address
  symbols : hasType memory eshtSymtab symtab = true
  unique : ∀ section_ ∈ imageSections memory address,
    hasType memory eshtSymtab section_ = true → section_ = symtab
  linked : (sectionAt memory symtab).link.toNat < (headerAt memory address).shnum.toNat
  strings : hasType memory eshtStrtab
    (sectionEntry memory address (sectionAt memory symtab).link) = true
  names : ∀ symbol ∈ imageSymbols memory address symtab, ∃ text,
    NameIs memory (linkedStrings memory address symtab) symbol text
    ∧ (symbolAt memory symbol).name.toNat + text.length < (sectionAt memory
      (sectionEntry memory address (sectionAt memory symtab).link)).size.toNat

-----------------------------------------------------------------------------------------
-- Names from the linked table
-----------------------------------------------------------------------------------------

/-- The symbol of `obj` by type and name is the first one whose name in the linked table it is, and
the bounds are the values of "__code" and "__end".
-/
structure NamesResolved (memory : CharMemory) (address symtab : BitVec 32) (obj : Elf32Obj)
    : Prop where
  lookup : ∀ type name text, StringAt memory name text → ∀ fuel, text.length < fuel →
    elfLookupSymbolByName memory fuel obj type name
      = some (firstNamed memory (linkedStrings memory address symtab)
          (imageSymbols memory address symtab) type text)
  start : obj.start = valueOrZero memory (firstNamed memory
    (linkedStrings memory address symtab) (imageSymbols memory address symtab) sttNotype
    codeText)
  stop : obj.stop = valueOrZero memory (firstNamed memory
    (linkedStrings memory address symtab) (imageSymbols memory address symtab) sttNotype
    endText)

/-- No earlier symbol of its type has the name of the symbol in the string table. -/
def LeadsName (memory : CharMemory) (strtab : BitVec 32) (symbols : List (BitVec 32))
    (symbol : BitVec 32) (text : List UInt8)
    : Prop :=
  NameIs memory strtab symbol text
  ∧ ∃ front back, symbols = front ++ symbol :: back ∧ ∀ other ∈ front,
      (symbolAt memory other).info &&& 0xF = (symbolAt memory symbol).info &&& 0xF →
        ¬ NameIs memory strtab other text

/-- There are no symbols, or the first string table is not empty and has the same name as the linked
one for every symbol that comes first with its name in one of them.
-/
def SameLeaders (memory : CharMemory) (symbols : List (BitVec 32))
    (linked first : BitVec 32) (firstSize : BitVec 32)
    : Prop :=
  symbols = [] ∨ firstSize ≠ 0 ∧ ∀ symbol text,
    (LeadsName memory linked symbols symbol text → NameIs memory first symbol text)
    ∧ (LeadsName memory first symbols symbol text → NameIs memory linked symbol text)

/-- Two searches end at the same entry if each one's entry passes the other's test. -/
theorem find?_agree {α : Type} {list : List α} {left right : α → Bool}
    (leftToo : ∀ entry, list.find? left = some entry → right entry = true)
    (rightToo : ∀ entry, list.find? right = some entry → left entry = true)
    : list.find? left = list.find? right := by
  induction list with
  | nil => rfl
  | cons entry rest ih =>
      simp only [List.find?_cons] at leftToo rightToo ⊢
      cases goesLeft : left entry with
      | true =>
          rw [goesLeft] at leftToo
          rw [leftToo entry rfl]
      | false =>
          rw [goesLeft] at leftToo
          cases goesRight : right entry with
          | true =>
              rw [goesRight] at rightToo
              exact absurd (goesLeft.symm.trans (rightToo entry rfl)) Bool.false_ne_true
          | false =>
              rw [goesRight] at rightToo
              exact ih leftToo rightToo

section Leaders

variable {memory : CharMemory} {strtab symbol first linked size : BitVec 32}
  {symbols : List (BitVec 32)} {text : List UInt8} {type : UInt8}

theorem sttCheckType_iff
    : sttCheckType (symbolAt memory symbol).entry type = true
      ↔ (symbolAt memory symbol).info &&& 0xF = type :=
  decide_eq_true_iff

/-- The search by type and name ends at the symbol that leads with its name. -/
theorem firstNamed_eq_some (noNul : 0 ∉ text)
    : firstNamed memory strtab symbols type text = some symbol
      ↔ (symbolAt memory symbol).info &&& 0xF = type
        ∧ LeadsName memory strtab symbols symbol text := by
  have named (other : BitVec 32) : Named memory strtab type text other
      ↔ (symbolAt memory other).info &&& 0xF = type ∧ NameIs memory strtab other text :=
    and_congr sttCheckType_iff ⟨fun bytes => ⟨bytes, noNul⟩, StringAt.bytes⟩
  rw [firstNamed, List.find?_eq_some_iff_append, LeadsName]
  simp only [decide_eq_true_eq, named, Bool.not_eq_true', decide_eq_false_iff_not, not_and]
  constructor
  · rintro ⟨⟨typed, name⟩, front, back, split, before⟩
    exact ⟨typed, name, front, back, split, fun other mem same =>
      before other mem (same.trans typed)⟩
  · rintro ⟨typed, name, front, back, split, before⟩
    exact ⟨⟨typed, name⟩, front, back, split, fun other mem same =>
      before other mem (same.trans typed.symm)⟩

theorem firstNamed_nil : firstNamed memory strtab [] type text = none := rfl

/-- With the same leaders both tables give the same symbol. -/
theorem SameLeaders.agree (leaders : SameLeaders memory symbols linked first size)
    (noNul : 0 ∉ text)
    : (if size = 0 then none else firstNamed memory first symbols type text)
      = firstNamed memory linked symbols type text := by
  obtain rfl | ⟨some, names⟩ := leaders
  · rw [firstNamed_nil, firstNamed_nil, ite_self]
  · rw [if_neg some]
    refine find?_agree (fun symbol found => ?_) (fun symbol found => ?_)
    · obtain ⟨typed, leads⟩ := (firstNamed_eq_some noNul).mp found
      exact decide_eq_true ⟨sttCheckType_iff.mpr typed, ((names symbol text).2 leads).bytes⟩
    · obtain ⟨typed, leads⟩ := (firstNamed_eq_some noNul).mp found
      exact decide_eq_true ⟨sttCheckType_iff.mpr typed, ((names symbol text).1 leads).bytes⟩

/-- If the tables always give the same symbol, they have the same leaders. -/
theorem sameLeaders (named : ∀ symbol ∈ symbols, ∃ text, NameIs memory linked symbol text)
    (agree : ∀ type name text, StringAt memory name text →
      (if size = 0 then none else firstNamed memory first symbols type text)
        = firstNamed memory linked symbols type text)
    : SameLeaders memory symbols linked first size := by
  cases symbols with
  | nil => exact .inl rfl
  | cons head rest =>
      right
      have some : size ≠ 0 := by
        intro zero
        obtain ⟨text, name⟩ := named head List.mem_cons_self
        have same := agree ((symbolAt memory head).info &&& 0xF) _ text name
        have leads : LeadsName memory linked (head :: rest) head text :=
          ⟨name, [], rest, rfl, fun other mem => absurd mem List.not_mem_nil⟩
        rw [if_pos zero, (firstNamed_eq_some name.noNul).mpr ⟨rfl, leads⟩] at same
        exact absurd same (Option.some_ne_none head).symm
      refine ⟨some, fun symbol text => ⟨fun leads => ?_, fun leads => ?_⟩⟩
      · have same := agree ((symbolAt memory symbol).info &&& 0xF) _ text leads.1
        rw [if_neg some, (firstNamed_eq_some leads.1.noNul).mpr ⟨rfl, leads⟩] at same
        exact ((firstNamed_eq_some leads.1.noNul).mp same).2.1
      · have same := agree ((symbolAt memory symbol).info &&& 0xF) _ text leads.1
        rw [if_neg some, (firstNamed_eq_some leads.1.noNul).mpr ⟨rfl, leads⟩] at same
        exact ((firstNamed_eq_some leads.1.noNul).mp same.symm).2.1

end Leaders

section Loading

variable {memory : CharMemory} {address symtab strtab : BitVec 32} {imageSize fuel : Nat}
  {names : BoundNames} {out obj : Elf32Obj} {text : List UInt8} {type : UInt8}

theorem SymbolImage.firstSymtab (image : SymbolImage memory address imageSize symtab)
    : firstSection memory address eshtSymtab = some symtab := by
  cases found : firstSection memory address eshtSymtab with
  | none =>
      exact absurd image.symbols (List.find?_eq_none.mp found symtab image.listed)
  | some section_ =>
      rw [image.unique section_ (List.mem_of_find?_eq_some found) (List.find?_some found)]

theorem SymbolImage.shnum (image : SymbolImage memory address imageSize symtab)
    : (headerAt memory address).shnum.setWidth 32 ≠ 0 := by
  intro zero
  have none_ : (headerAt memory address).shnum.toNat = 0 := by
    rw [← BitVec.toNat_setWidth_of_le (show 16 ≤ 32 by decide), zero]
    rfl
  have some := image.linked
  omega

/-- The lookups go through the symbols of the image with the names of its first string table. -/
theorem lookup_loaded (image : SymbolImage memory address imageSize symtab)
    (first : firstSection memory address eshtStrtab = some strtab)
    (tables : obj.sections = (loadTables memory address out).sections)
    : obj.named memory type text
      = if (sectionAt memory strtab).size = 0 then none
        else firstNamed memory (address + (sectionAt memory strtab).offset)
          (imageSymbols memory address symtab) type text := by
  have symbols : symtabEntries obj = imageSymbols memory address symtab := by
    rw [symtabEntries, tables, sections_loadTables, image.firstSymtab]
    rfl
  have strings : obj.sections.strtabHead = address + (sectionAt memory strtab).offset := by
    rw [tables, sections_loadTables, first]
    rfl
  have size : obj.sections.strtabSize = (sectionAt memory strtab).size := by
    rw [tables, sections_loadTables, first]
    rfl
  rw [Elf32Obj.named, symbols, strings]
  by_cases empty : (sectionAt memory strtab).size = 0
  · rw [if_pos empty, if_pos (.inr (.inr (size.trans empty)))]
  · rw [if_neg empty]
    by_cases none_ : obj.sections.symtabSize = 0
    · rw [if_pos (.inr (.inl none_)), ← symbols, symtabEntries, none_]
      rfl
    · have sections : obj.sections.sectabSize ≠ 0 := by
        rw [tables, sections_loadTables]
        exact image.shnum
      rw [if_neg (by rw [Elf32Obj.Stripped, size]; tauto)]

/-- Names resolve through the linked string table exactly if the first string table of the image has
the same leading names.
-/
theorem names_resolved_iff (out : Elf32Obj)
    (image : SymbolImage memory address imageSize symtab)
    (first : firstSection memory address eshtStrtab = some strtab)
    (literals : names.At memory) (enough : 6 < fuel)
    : (∃ obj, elfLoad memory names fuel address out = some (true, obj)
        ∧ NamesResolved memory address symtab obj)
      ↔ SameLeaders memory (imageSymbols memory address symtab)
          (linkedStrings memory address symtab) (address + (sectionAt memory strtab).offset)
          (sectionAt memory strtab).size := by
  have loads := elfLoad_accepted out image.elf.accepted literals enough
  constructor
  · rintro ⟨obj, same, resolved⟩
    obtain ⟨-, rfl⟩ := Prod.mk.inj (Option.some.inj (loads.symm.trans same))
    refine sameLeaders (fun symbol mem => ?_) (fun type name text string => ?_)
    · obtain ⟨text, name, -⟩ := image.names symbol mem
      exact ⟨text, name⟩
    · rw [← lookup_loaded image first rfl]
      have found := resolved.lookup type name text string (text.length + 1) (Nat.lt_succ_self _)
      rw [elfLookupSymbolByName_eq string (Nat.lt_succ_self _)] at found
      exact Option.some.inj found
  · intro leaders
    have found {obj : Elf32Obj} (tables : obj.sections = (loadTables memory address out).sections)
        {type : UInt8} {text : List UInt8} (noNul : 0 ∉ text)
        : obj.named memory type text = firstNamed memory (linkedStrings memory address symtab)
          (imageSymbols memory address symtab) type text :=
      (lookup_loaded image first tables).trans (leaders.agree noNul)
    refine ⟨_, loads, fun type name text string fuel enough => ?_, ?_, ?_⟩
    · exact (elfLookupSymbolByName_eq string enough).trans
        (congrArg some (found rfl string.noNul))
    · exact congrArg (valueOrZero memory) (found rfl literals.code.noNul)
    · exact congrArg (valueOrZero memory) (found rfl literals.stop.noNul)

end Loading

-----------------------------------------------------------------------------------------
-- Two orders of the same sections
-----------------------------------------------------------------------------------------

/-- The symbol table, its strings and the names of the sections, in one of two orders. -/
def orderedSections (namesFirst : Bool) : List (List Nat) :=
  let symtab := [11, 2, 0, 0, 212, 48, if namesFirst then 3 else 2, 1, 4, 16]
  let strtab := [19, 3, 0, 0, 260, 14, 0, 0, 1, 0]
  let names := [1, 3, 0, 0, 274, 27, 0, 0, 1, 0]
  List.replicate 10 0 :: if namesFirst then [names, symtab, strtab] else [symtab, strtab, names]

/-- The header, the sections and the symbols. -/
def orderedWords (namesFirst : Bool) : List Nat :=
  [0x464C457F, 0x00010101, 0, 0, 0x00030002, 1, 0, 0, 52, 0, 0x00200034, 0x00280000,
    if namesFirst then 0x00010004 else 0x00030004]
  ++ (orderedSections namesFirst).flatten
  ++ [0, 0, 0, 0, 1, 0x08048000, 0, 0xFFF10010, 8, 0x0804A000, 0, 0xFFF10010]

/-- The names of the symbols, those of the sections, and the two literals. -/
def orderedStrings : List UInt8 :=
  0 :: codeText ++ 0 :: endText ++ [0]
  ++ ['\x00', '.', 's', 'h', 's', 't', 'r', 't', 'a', 'b', '\x00', '.', 's', 'y', 'm', 't', 'a',
    'b', '\x00', '.', 's', 't', 'r', 't', 'a', 'b', '\x00'].map chr
  ++ codeText ++ 0 :: endText ++ [0]

/-- The image at address 64 with its strings behind its words. -/
def orderedMemory (namesFirst : Bool) : CharMemory := fun address =>
  let offset := (address - 64).toNat
  if offset < 260 then
    UInt8.ofNat ((orderedWords namesFirst).getD (offset / 4) 0 >>> (8 * (offset % 4)))
  else orderedStrings.getD (offset - 260) 0

def orderedSymtab (namesFirst : Bool) : BitVec 32 := if namesFirst then 196 else 156

/-- Both orders are ELF images with the same symbols and names. -/
theorem orderedMemory_image (namesFirst : Bool)
    : SymbolImage (orderedMemory namesFirst) 64 301 (orderedSymtab namesFirst) := by
  have sections : imageSections (orderedMemory namesFirst) 64 = [116, 156, 196, 236] := by
    cases namesFirst <;> decide +kernel
  have symbols : imageSymbols (orderedMemory namesFirst) 64 (orderedSymtab namesFirst)
      = [276, 292, 308] := by
    cases namesFirst <;> decide +kernel
  have strings : linkedStrings (orderedMemory namesFirst) 64 (orderedSymtab namesFirst) = 324 := by
    cases namesFirst <;> decide +kernel
  have size : (sectionAt (orderedMemory namesFirst) (sectionEntry (orderedMemory namesFirst) 64
      (sectionAt (orderedMemory namesFirst) (orderedSymtab namesFirst)).link)).size = 14 := by
    cases namesFirst <;> decide +kernel
  have named (symbol : BitVec 32) (text : List UInt8)
      (stands : BytesAt (orderedMemory namesFirst)
          (324 + (symbolAt (orderedMemory namesFirst) symbol).name) (text ++ [0])
        ∧ (symbolAt (orderedMemory namesFirst) symbol).name.toNat + text.length < 14
        ∧ 0 ∉ text)
      : ∃ text, NameIs (orderedMemory namesFirst) 324 symbol text
        ∧ (symbolAt (orderedMemory namesFirst) symbol).name.toNat + text.length
          < (14 : BitVec 32).toNat :=
    ⟨text, ⟨stands.1, stands.2.2⟩, stands.2.1⟩
  constructor
  case elf => cases namesFirst <;> exact isElf_iff.mpr (by decide +kernel)
  case fits => decide
  case sectab => cases namesFirst <;> decide +kernel
  case sections =>
    rw [sections]
    simp only [InImage, List.forall_mem_cons, List.not_mem_nil, false_imp_iff, implies_true,
      and_true]
    cases namesFirst <;> decide +kernel
  case listed =>
    rw [sections]
    cases namesFirst <;> decide
  case symbols => cases namesFirst <;> decide +kernel
  case unique =>
    rw [sections]
    simp only [List.forall_mem_cons, List.not_mem_nil, false_imp_iff, implies_true, and_true]
    cases namesFirst <;> decide +kernel
  case linked => cases namesFirst <;> decide +kernel
  case strings => cases namesFirst <;> decide +kernel
  case names =>
    rw [symbols, strings, size]
    simp only [List.forall_mem_cons, List.not_mem_nil, false_imp_iff, implies_true, and_true]
    refine ⟨named _ [] ?_, named _ codeText ?_, named _ endText ?_⟩
    all_goals cases namesFirst <;> decide +kernel

theorem orderedMemory_literals (namesFirst : Bool)
    : BoundNames.At ⟨365, 372⟩ (orderedMemory namesFirst) := by
  refine ⟨⟨?_, by decide⟩, ⟨?_, by decide⟩⟩
  all_goals cases namesFirst <;> decide +kernel

/-- The string table of the symbols comes first. -/
theorem names_resolved_usual_order
    : ∃ obj, elfLoad (orderedMemory false) ⟨365, 372⟩ 7 64 emptyObj = some (true, obj)
        ∧ NamesResolved (orderedMemory false) 64 156 obj := by
  have first : firstSection (orderedMemory false) 64 eshtStrtab = some 196 := by decide +kernel
  have same : linkedStrings (orderedMemory false) 64 156
      = 64 + (sectionAt (orderedMemory false) 196).offset := by
    decide +kernel
  have some : (sectionAt (orderedMemory false) 196).size ≠ 0 := by decide +kernel
  refine (names_resolved_iff emptyObj (orderedMemory_image false) first
    (orderedMemory_literals false) (by decide)).mpr (.inr ⟨some, fun symbol text => ?_⟩)
  show (LeadsName _ (linkedStrings (orderedMemory false) 64 156) _ _ _ → _) ∧ _
  rw [same]
  exact ⟨fun leads => leads.1, fun leads => leads.1⟩

/-- The names of the sections come first: `__code` is not found, and `start` is 0. -/
theorem names_not_resolved
    : ¬ ∃ obj, elfLoad (orderedMemory true) ⟨365, 372⟩ 7 64 emptyObj = some (true, obj)
        ∧ NamesResolved (orderedMemory true) 64 196 obj := by
  rintro ⟨obj, loads, resolved⟩
  have start : (elfLoad (orderedMemory true) ⟨365, 372⟩ 7 64 emptyObj).map
      (fun result => result.2.start) = some 0 := by
    decide +kernel
  rw [loads] at start
  have zero : obj.start = 0 := Option.some.inj start
  have code : valueOrZero (orderedMemory true) (firstNamed (orderedMemory true)
      (linkedStrings (orderedMemory true) 64 196) (imageSymbols (orderedMemory true) 64 196)
      sttNotype codeText) = 0x08048000 := by
    decide +kernel
  exact absurd (zero.symm.trans (resolved.start.trans code)) (by decide)

end DeadKernel
