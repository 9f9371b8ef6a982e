import DeadKernel.Loading.ElfTables

/-! The modules that the boot loader has loaded, and the search for one by its name. A module that
is no ELF image or does not say its name is passed over, and so is one whose name is another.
-/

namespace DeadKernel

open ByteMemory

-----------------------------------------------------------------------------------------
-- Sections and names
-----------------------------------------------------------------------------------------

/-- No result stands for a `strcmp` that has too few rounds; `some none` is `NULL`. -/
def elfLookupSectionByName (memory : CharMemory) (fuel : Nat) (hdr : Elf32Obj) (name : BitVec 32)
    : Option (Option (BitVec 32)) :=
  (sectabEntries hdr).findM? fun section_ =>
    (strcmp memory fuel (hdr.sections.hstrtabHead + readWord memory section_) name).map
      fun difference => difference = 0

/-- Where the literals of `ELFLoad` and `getModuleName` stand. -/
structure ModuleLiterals where
  bounds : BoundNames
  moduleInfo : BitVec 32

/-- The name is the first field of the section ".module_info". -/
def getModuleName (memory : CharMemory) (literals : ModuleLiterals) (fuel : Nat)
    (module : Elf32Obj)
    : Option (Option (BitVec 32)) := do
  let section_ ← elfLookupSectionByName memory fuel module literals.moduleInfo
  return section_.map fun section_ => module.header + (sectionAt memory section_).offset

-----------------------------------------------------------------------------------------
-- getModuleByName
-----------------------------------------------------------------------------------------

/-- An object that `memset` has cleared. -/
def zeroObj : Elf32Obj := ⟨0, ⟨0, 0, 0, 0, 0, 0, 0, 0, 0⟩, 0, 0⟩

/-- The loop over the modules that are left, by their `mod_start`. -/
def searchModules (memory : CharMemory) (literals : ModuleLiterals) (fuel : Nat) (name : BitVec 32)
    : List (BitVec 32) → Elf32Obj → Option (Bool × Elf32Obj)
  | [], module => some (false, module)
  | start :: rest, _ => do
      let (loaded, module) ← elfLoad memory literals.bounds fuel start zeroObj
      if loaded = false then searchModules memory literals fuel name rest module
      else
        let moduleName ← getModuleName memory literals fuel module
        match moduleName with
        | none => searchModules memory literals fuel name rest module
        | some moduleName =>
            let difference ← strcmp memory fuel name moduleName
            if difference ≠ 0 then searchModules memory literals fuel name rest module
            else some (true, module)

/-- `__modules` and `__modules_count`. -/
structure BootModules where
  modules : BitVec 32
  count : BitVec 32

/-- `__modules[i].mod_start` for each `i`. -/
def BootModules.starts (boot : BootModules) (memory : CharMemory) : List (BitVec 32) :=
  (entries boot.modules 16 boot.count.toNat).map (readWord memory)

/-- The answer, and the object that is left to the caller. -/
def getModuleByName (memory : CharMemory) (literals : ModuleLiterals) (fuel : Nat)
    (boot : BootModules) (name : BitVec 32) (module : Elf32Obj)
    : Option (Bool × Elf32Obj) :=
  searchModules memory literals fuel name (boot.starts memory) module

-----------------------------------------------------------------------------------------
-- Modules that bear a name
-----------------------------------------------------------------------------------------

/-- ".module_info" -/
def moduleInfoText : List UInt8 :=
  ['.', 'm', 'o', 'd', 'u', 'l', 'e', '_', 'i', 'n', 'f', 'o'].map chr

/-- The object that `ELFLoad` makes of an image. -/
def loadedModule (memory : CharMemory) (start : BitVec 32) : Elf32Obj :=
  (loadTables memory start zeroObj).withBounds memory

/-- The first section of an object with the name. -/
def Elf32Obj.sectionNamed (hdr : Elf32Obj) (memory : CharMemory) (text : List UInt8)
    : Option (BitVec 32) :=
  (sectabEntries hdr).find? fun section_ =>
    BytesAt memory (hdr.sections.hstrtabHead + readWord memory section_) (text ++ [0])

/-- An image that is accepted and whose section ".module_info" begins with the name. -/
def BearsName (memory : CharMemory) (text : List UInt8) (start : BitVec 32) : Prop :=
  elf32CheckMagic (headerAt memory start) = true
  ∧ ∃ section_, (loadedModule memory start).sectionNamed memory moduleInfoText = some section_
    ∧ BytesAt memory (start + (sectionAt memory section_).offset) (text ++ [0])

/-- The literals stand in memory. -/
structure ModuleLiterals.At (literals : ModuleLiterals) (memory : CharMemory) : Prop where
  bounds : literals.bounds.At memory
  moduleInfo : StringAt memory literals.moduleInfo moduleInfoText

section

variable {memory : CharMemory} {literals : ModuleLiterals} {fuel : Nat} {hdr module : Elf32Obj}
  {name start : BitVec 32} {text : List UInt8}

theorem elfLookupSectionByName_eq (string : StringAt memory name text)
    (enough : text.length < fuel)
    : elfLookupSectionByName memory fuel hdr name = some (hdr.sectionNamed memory text) := by
  rw [elfLookupSectionByName, Elf32Obj.sectionNamed]
  apply findM?_eq_find?
  intro section_ _
  obtain ⟨difference, returns, zero⟩ := strcmp_bytes string enough
  rw [returns, Option.map_some, decide_eq_decide.mpr zero]

/-- What is made of an image: it is accepted or not, and then the tables are its own. -/
theorem elfLoad_module (placed : literals.At memory) (enough : 12 < fuel)
    : elfLoad memory literals.bounds fuel start zeroObj
      = some (if elf32CheckMagic (headerAt memory start) = true
        then (true, loadedModule memory start) else (false, zeroObj)) := by
  rw [elfLoad, lookupBounds_eq placed.bounds (by omega)]
  by_cases accepted : elf32CheckMagic (headerAt memory start) = true
  · rw [if_neg (not_not.mpr accepted), if_pos accepted]
    rfl
  · rw [if_pos accepted, if_neg accepted]

theorem getModuleName_module (placed : literals.At memory) (enough : 12 < fuel)
    : getModuleName memory literals fuel (loadedModule memory start)
      = some (((loadedModule memory start).sectionNamed memory moduleInfoText).map
        fun section_ => start + (sectionAt memory section_).offset) := by
  rw [getModuleName, elfLookupSectionByName_eq placed.moduleInfo enough]
  rfl

/-- A round of the search: the module bears the name and ends it, or the search goes on. -/
theorem searchModules_round (placed : literals.At memory) (string : StringAt memory name text)
    (enough : 12 < fuel) (enough' : text.length < fuel) (rest : List (BitVec 32))
    : (BearsName memory text start
        → searchModules memory literals fuel name (start :: rest) module
          = some (true, loadedModule memory start))
      ∧ (¬ BearsName memory text start
        → ∃ left, searchModules memory literals fuel name (start :: rest) module
          = searchModules memory literals fuel name rest left) := by
  rw [searchModules, elfLoad_module placed enough, Option.bind_eq_bind, Option.bind_some]
  by_cases accepted : elf32CheckMagic (headerAt memory start) = true
  · rw [if_pos accepted]
    dsimp only
    rw [if_neg (by decide), getModuleName_module placed enough, Option.bind_eq_bind,
      Option.bind_some]
    cases found : (loadedModule memory start).sectionNamed memory moduleInfoText with
    | none =>
        constructor
        · rintro ⟨-, section_, other, -⟩
          exact absurd (found.symm.trans other) (Option.some_ne_none _).symm
        · intro _
          exact ⟨_, rfl⟩
    | some section_ =>
        obtain ⟨difference, returns, zero⟩ := @strcmp_left memory name
          (start + (sectionAt memory section_).offset) text string fuel enough'
        simp only [Option.map_some, returns, Option.bind_eq_bind, Option.bind_some]
        constructor
        · rintro ⟨-, other, same, bytes⟩
          obtain rfl := Option.some.inj (found.symm.trans same)
          exact if_neg (not_not.mpr (zero.mpr bytes))
        · intro nameless
          have differ : difference ≠ 0 := fun same =>
            nameless ⟨accepted, section_, found, zero.mp same⟩
          exact ⟨_, if_pos differ⟩
  · rw [if_neg accepted]
    constructor
    · intro bears
      exact absurd bears.1 accepted
    · intro _
      exact ⟨_, rfl⟩

/-- Of a list of modules the first one with the name is found, by induction on the list. -/
theorem searchModules_first (placed : literals.At memory) (string : StringAt memory name text)
    (enough : 12 < fuel) (enough' : text.length < fuel) (starts : List (BitVec 32))
    (module : Elf32Obj)
    : ∃ answer left, searchModules memory literals fuel name starts module = some (answer, left)
        ∧ ∀ obj, (answer = true ∧ left = obj)
          ↔ ∃ before start after, starts = before ++ start :: after
            ∧ (∀ other ∈ before, ¬ BearsName memory text other) ∧ BearsName memory text start
            ∧ obj = loadedModule memory start := by
  induction starts generalizing module with
  | nil =>
      refine ⟨false, module, rfl, fun obj => iff_of_false (fun both => ?_) ?_⟩
      · exact Bool.false_ne_true both.1
      · rintro ⟨before, start, after, split, -⟩
        simp at split
  | cons first rest ih =>
      obtain ⟨ends, goesOn⟩ := @searchModules_round memory literals fuel module name first text
        placed string enough enough' rest
      by_cases bears : BearsName memory text first
      · refine ⟨true, loadedModule memory first, ends bears, fun obj => ?_⟩
        constructor
        · rintro ⟨-, rfl⟩
          exact ⟨[], first, rest, rfl, fun other mem => absurd mem List.not_mem_nil, bears, rfl⟩
        · rintro ⟨before, start, after, split, skipped, -, rfl⟩
          cases before with
          | nil =>
              obtain ⟨rfl, -⟩ := List.cons.inj split
              exact ⟨rfl, rfl⟩
          | cons other before =>
              obtain ⟨rfl, -⟩ := List.cons.inj split
              exact absurd bears (skipped first List.mem_cons_self)
      · obtain ⟨left, next⟩ := goesOn bears
        obtain ⟨answer, result, run, found⟩ := ih left
        refine ⟨answer, result, next.trans run, fun obj => (found obj).trans ?_⟩
        constructor
        · rintro ⟨before, start, after, rfl, skipped, named, same⟩
          refine ⟨first :: before, start, after, rfl, fun other mem => ?_, named, same⟩
          rcases List.mem_cons.mp mem with rfl | mem
          · exact bears
          · exact skipped other mem
        · rintro ⟨before, start, after, split, skipped, named, same⟩
          cases before with
          | nil =>
              obtain ⟨rfl, -⟩ := List.cons.inj split
              exact absurd named bears
          | cons other before =>
              obtain ⟨-, rfl⟩ := List.cons.inj split
              exact ⟨before, start, after, rfl,
                fun other mem => skipped other (List.mem_cons_of_mem _ mem), named, same⟩

/-- `getModuleByName` ends, and gives exactly the first module that bears the name, as `ELFLoad`
loads it.
-/
theorem getModuleByName_first (placed : literals.At memory) (string : StringAt memory name text)
    (enough : 12 < fuel) (enough' : text.length < fuel) (boot : BootModules) (module : Elf32Obj)
    : ∃ answer left,
        getModuleByName memory literals fuel boot name module = some (answer, left)
        ∧ ∀ obj, (answer = true ∧ left = obj)
          ↔ ∃ before start after, boot.starts memory = before ++ start :: after
            ∧ (∀ other ∈ before, ¬ BearsName memory text other) ∧ BearsName memory text start
            ∧ obj = loadedModule memory start :=
  searchModules_first placed string enough enough' _ module

end

/-- An image at address 64 with one section, which is the names of the sections and the name of the
module "a" at the same time, the literals, and two modules, of which the first is no image.
-/
def oneModule : CharMemory := fun address =>
  (List.replicate 64 0 ++ [0x7F, 0x45, 0x4C, 0x46] ++ List.replicate 28 0 ++ [52, 0, 0, 0]
    ++ List.replicate 12 0 ++ [1, 0, 0, 0] ++ [2, 0, 0, 0] ++ List.replicate 12 0 ++ [92, 0, 0, 0]
    ++ List.replicate 20 0 ++ [97, 0] ++ moduleInfoText ++ [0] ++ codeText ++ [0] ++ endText ++ [0]
    ++ List.replicate 16 0 ++ [64, 0, 0, 0]).getD address.toNat 0

theorem getModuleByName_first_second
    : ∃ left, getModuleByName oneModule ⟨⟨171, 178⟩, 158⟩ 13 ⟨184, 2⟩ 156 zeroObj
        = some (true, left) := by
  have placed : ModuleLiterals.At ⟨⟨171, 178⟩, 158⟩ oneModule :=
    ⟨⟨⟨by decide +kernel, by decide⟩, ⟨by decide +kernel, by decide⟩⟩,
      ⟨by decide +kernel, by decide⟩⟩
  have string : StringAt oneModule 156 [97] := ⟨by decide +kernel, by decide⟩
  have nameless : ∀ other ∈ [(0 : BitVec 32)], ¬ BearsName oneModule [97] other := by
    intro other mem bears
    rw [List.mem_singleton.mp mem] at bears
    exact absurd bears.1 (by decide +kernel)
  have named : BearsName oneModule [97] 64 :=
    ⟨by decide +kernel, 116, by decide +kernel, by decide +kernel⟩
  obtain ⟨answer, left, run, found⟩ := getModuleByName_first placed string
    (by decide : 12 < 13) (by decide : 1 < 13) ⟨184, 2⟩ zeroObj
  obtain ⟨yes, -⟩ := (found _).mpr ⟨[0], 64, [], by decide +kernel, nameless, named, rfl⟩
  exact ⟨left, yes ▸ run⟩

end DeadKernel
