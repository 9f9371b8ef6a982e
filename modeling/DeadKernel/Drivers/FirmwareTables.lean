import DeadKernel.Drivers.Acpi
import Mathlib.Data.List.Find

/-! The search for the firmware's entry points. Both searches stop at the first signature in the ROM
area. What is found there is checked, and where the check fails a valid one behind it is not found.
-/

namespace DeadKernel

open ByteMemory

-----------------------------------------------------------------------------------------
-- ll_find_rsdp and find_bios32
-----------------------------------------------------------------------------------------

/-- `check_loop` of both searches: `eax` goes up to `edx` in steps of 4. The result is 0 where
nothing is `supported`; no result stands for too few rounds.
-/
def checkLoop (supported : BitVec 32 → Bool) (edx : BitVec 32)
    : Nat → BitVec 32 → Option (BitVec 32)
  | 0, _ => none
  | fuel + 1, eax =>
      if edx.slt eax then some 0
      else if supported eax then some eax
      else checkLoop supported edx fuel (eax + 4)

/-- `'RSD '` and `'PTR '`. -/
def rsdWord : BitVec 32 := 0x20445352
def ptrWord : BitVec 32 := 0x20525450

/-- `'_32_'`. -/
def bios32Word : BitVec 32 := 0x5F32335F

def llFindRsdp (memory : CharMemory) (fuel : Nat) : Option (BitVec 32) :=
  checkLoop (fun eax => readWord memory eax = rsdWord ∧ readWord memory (eax + 4) = ptrWord)
    0x0FFFFF fuel 0x0E0000

def findBios32 (memory : CharMemory) (fuel : Nat) : Option (BitVec 32) :=
  checkLoop (fun eax => readWord memory eax = bios32Word) 0x0FFFFF fuel 0x0E0000

-----------------------------------------------------------------------------------------
-- The checks
-----------------------------------------------------------------------------------------

/-- `sizeof(RSDP_t)` and `sizeof(RSDP2_t)`. -/
abbrev rsdpSize : BitVec 32 := 20
abbrev rsdp2Size : BitVec 32 := 36

/-- `findRSDP`; `rsdpSignature` is where the literal "RSD PTR " stands. -/
def findRSDP (memory : CharMemory) (rsdpSignature : BitVec 32) (fuel : Nat)
    : Option (BitVec 32) := do
  let ptr ← llFindRsdp memory fuel
  if ptr = 0 then some 0
  else if strncmp memory ptr rsdpSignature 8 = 0 ∧ checksum memory ptr rsdpSize = 0 then some ptr
  else some 0

def findRSDP2 (memory : CharMemory) (rsdp : BitVec 32) : BitVec 32 :=
  if rsdp = 0 then 0
  else if memory (rsdp + 15) ≠ 2 then 0
  else if checksum memory rsdp rsdp2Size = 0 then rsdp else 0

/-- The test that `findRSDT` and `findXSDT` make. -/
def checkedTable (memory : CharMemory) (signature header : BitVec 32) : BitVec 32 :=
  if strncmp memory header signature 4 = 0 ∧ doChecksum memory header = true then header else 0

def findRSDT (memory : CharMemory) (rsdtSignature rsdp : BitVec 32) : BitVec 32 :=
  if rsdp = 0 then 0 else checkedTable memory rsdtSignature (readWord memory (rsdp + 16))

def findXSDT (memory : CharMemory) (xsdtSignature rsdp2 : BitVec 32) : BitVec 32 :=
  if rsdp2 = 0 then 0 else checkedTable memory xsdtSignature (readWord memory (rsdp2 + 24))

/-- The loop of `BIOS32Find` over the 16 bytes is that of `checksum`. The result is
`BIOS32Indirect.address`, if it is set.
-/
def bios32Find (memory : CharMemory) (fuel : Nat) : Option (Option (BitVec 32)) := do
  let ptr ← findBios32 memory fuel
  let entry := readWord memory (ptr + 4)
  if ptr = 0 then some none
  else if readWord memory ptr ≠ bios32Word then some none
  else if 0x100000 ≤ entry then some none
  else if memory (ptr + 8) ≠ 0x00 then some none
  else if memory (ptr + 9) ≠ 0x01 then some none
  else if checksum memory ptr 16 ≠ 0 then some none
  else some (some entry)

/-- Where the literals of `kernel_main` and of the functions it calls stand. -/
structure AcpiLiterals where
  rsdp : BitVec 32
  rsdt : BitVec 32
  xsdt : BitVec 32
  facp : BitVec 32
  hpet : BitVec 32

/-- What `kernel_main` learns: `rsdt`, `fadt` and `hpet`, with `NULL` for those it does not come to.
-/
structure AcpiTables where
  rsdt : BitVec 32
  fadt : BitVec 32
  hpet : BitVec 32

def acpiTables (memory : CharMemory) (literals : AcpiLiterals) (fuel : Nat)
    : Option AcpiTables := do
  let rsdp ← findRSDP memory literals.rsdp fuel
  if rsdp = 0 then some ⟨0, 0, 0⟩
  else
    let rsdt := findRSDT memory literals.rsdt rsdp
    if rsdt = 0 then some ⟨0, 0, 0⟩
    else
      some
        { rsdt
          fadt := (findInSDT memory literals.xsdt literals.facp rsdt).result
          hpet := (findInSDT memory literals.xsdt literals.hpet rsdt).result }

-----------------------------------------------------------------------------------------
-- The first signature
-----------------------------------------------------------------------------------------

/-- The addresses at which the searches look. -/
def romAddress (i : Nat) : BitVec 32 := 0x0E0000 + BitVec.ofNat 32 (4 * i)

/-- The text stands at the address, and at none of those that are looked at before. -/
structure FirstInRom (memory : CharMemory) (text : List UInt8) (address : BitVec 32) : Prop where
  stands : BytesAt memory address text
  first : ∃ i < 0x8000, address = romAddress i
    ∧ ∀ j < i, ¬ BytesAt memory (romAddress j) text

def rsdpText : List UInt8 := ['R', 'S', 'D', ' ', 'P', 'T', 'R', ' '].map chr

def bios32Text : List UInt8 := ['_', '3', '2', '_'].map chr

section

variable {memory : CharMemory} {supported : BitVec 32 → Bool} {address : BitVec 32}

theorem romAddress_next (i : Nat) : romAddress i + 4 = romAddress (i + 1) := by
  rw [romAddress, romAddress, BitVec.add_assoc, Nat.mul_add, BitVec.ofNat_add]
  rfl

theorem romAddress_toNat {i : Nat} (inside : i ≤ 0x8000)
    : (romAddress i).toNat = 0x0E0000 + 4 * i := by
  rw [romAddress, BitVec.toNat_add, BitVec.toNat_ofNat]
  change (0x0E0000 + _) % _ = _
  omega

/-- The loop stops behind the last address. -/
theorem romAddress_slt {i : Nat} (inside : i ≤ 0x8000)
    : (0x0FFFFF : BitVec 32).slt (romAddress i) = decide (0x8000 ≤ i) := by
  have place := romAddress_toNat inside
  have bound : (romAddress i).toInt = 0x0E0000 + 4 * i := by
    rw [BitVec.toInt_eq_toNat_of_lt (by omega), place]
    rfl
  rw [BitVec.slt, bound]
  change decide ((0x0FFFFF : Int) < _) = _
  rw [decide_eq_decide]
  omega

/-- The loop finds the first address that is supported, by induction on those that are left. -/
theorem checkLoop_eq (supported : BitVec 32 → Bool) {left i fuel : Nat} (inside : i + left = 0x8000)
    (enough : left < fuel)
    : checkLoop supported 0x0FFFFF fuel (romAddress i)
      = some ((((List.range' i left).map romAddress).find? supported).getD 0) := by
  induction left generalizing i fuel with
  | zero =>
      obtain ⟨fuel, rfl⟩ : ∃ less, fuel = less + 1 := ⟨fuel - 1, by omega⟩
      rw [checkLoop, romAddress_slt (by omega), if_pos (by simp; omega)]
      rfl
  | succ left ih =>
      obtain ⟨fuel, rfl⟩ : ∃ less, fuel = less + 1 := ⟨fuel - 1, by omega⟩
      rw [checkLoop, romAddress_slt (by omega), if_neg (by simp; omega), romAddress_next,
        ih (by omega) (by omega), List.range'_succ, List.map_cons, List.find?_cons]
      cases supported (romAddress i) with
      | true => rfl
      | false => rfl

/-- With enough rounds, what is found is the first place of a text. -/
theorem checkLoop_first {text : List UInt8} {fuel : Nat}
    (means : ∀ address, supported address = true ↔ BytesAt memory address text)
    (enough : 0x8000 < fuel)
    : ∃ result, checkLoop supported 0x0FFFFF fuel 0x0E0000 = some result
        ∧ ∀ p, (result = p ∧ p ≠ 0) ↔ FirstInRom memory text p := by
  have loop := checkLoop_eq supported (Nat.zero_add 0x8000) enough
  refine ⟨_, loop, fun p => ?_⟩
  have found (p : BitVec 32)
      : ((List.range' 0 0x8000).map romAddress).find? supported = some p
        ↔ FirstInRom memory text p := by
    rw [List.find?_eq_some_iff_getElem]
    simp only [List.length_map, List.length_range', List.getElem_map, List.getElem_range',
      Nat.one_mul, Nat.zero_add, Bool.not_eq_true', ← Bool.not_eq_true, means]
    constructor
    · rintro ⟨stands, i, inside, rfl, before⟩
      exact ⟨stands, i, inside, rfl, before⟩
    · rintro ⟨stands, i, inside, rfl, before⟩
      exact ⟨stands, i, inside, rfl, before⟩
  have nonzero (h : FirstInRom memory text p) : p ≠ 0 := by
    obtain ⟨_, i, inside, rfl, _⟩ := h
    intro zero
    have place := romAddress_toNat inside.le
    rw [zero] at place
    change 0 = _ at place
    omega
  rw [← found]
  constructor
  · rintro ⟨rfl, some_⟩
    cases search : ((List.range' 0 0x8000).map romAddress).find? supported with
    | none =>
        rw [search] at some_
        exact absurd rfl some_
    | some q => rfl
  · intro search
    rw [search]
    exact ⟨rfl, nonzero ((found p).mp search)⟩

theorem readWord_text (b0 b1 b2 b3 : UInt8)
    : readWord memory address = b3.toBitVec ++ b2.toBitVec ++ b1.toBitVec ++ b0.toBitVec
      ↔ BytesAt memory address [b0, b1, b2, b3] := by
  rw [readWord_eq_iff]
  simp only [BytesAt, and_true, BitVec.add_assoc]
  rfl

theorem bios32Word_iff : readWord memory address = bios32Word ↔ BytesAt memory address bios32Text :=
  readWord_text 0x5F 0x33 0x32 0x5F

theorem rsdpWords_iff
    : readWord memory address = rsdWord ∧ readWord memory (address + 4) = ptrWord
      ↔ BytesAt memory address rsdpText := by
  have halves : rsdpText = [0x52, 0x53, 0x44, 0x20] ++ [0x50, 0x54, 0x52, 0x20] := rfl
  rw [halves, bytesAt_append]
  exact and_congr (readWord_text 0x52 0x53 0x44 0x20) (readWord_text 0x50 0x54 0x52 0x20)

/-- A checksum is that of the numbers modulo 256. -/
theorem checksum_iff (size : BitVec 32)
    : checksum memory address size = 0
      ↔ (∑ i ∈ Finset.range size.toNat,
        (memory (address + BitVec.ofNat 32 i)).toNat) % 256 = 0 := by
  rw [← UInt8.toNat_inj, checksum, checksumLoop_sum, UInt8.toNat_zero, Nat.zero_add]

/-- A BIOS32 header that is taken: it says where its entry point is. -/
structure Bios32Valid (memory : CharMemory) (header : BitVec 32) : Prop where
  low : (readWord memory (header + 4)).toNat < 0x100000
  revision : memory (header + 8) = 0
  length : memory (header + 9) = 1
  sum : (∑ i ∈ Finset.range 16, (memory (header + BitVec.ofNat 32 i)).toNat) % 256 = 0

theorem findRSDP_first {rsdpSignature : BitVec 32} {fuel : Nat}
    (literal : BytesAt memory rsdpSignature rsdpText) (enough : 0x8000 < fuel)
    : ∃ rsdp, findRSDP memory rsdpSignature fuel = some rsdp
        ∧ ∀ p, (rsdp = p ∧ p ≠ 0) ↔ FirstInRom memory rsdpText p
          ∧ (∑ i ∈ Finset.range 20, (memory (p + BitVec.ofNat 32 i)).toNat) % 256 = 0 := by
  have means (address : BitVec 32)
      : decide (readWord memory address = rsdWord ∧ readWord memory (address + 4) = ptrWord) = true
        ↔ BytesAt memory address rsdpText := by
    rw [decide_eq_true_iff, rsdpWords_iff]
  obtain ⟨ptr, search, first⟩ := checkLoop_first means enough
  have same (h : FirstInRom memory rsdpText ptr) : strncmp memory ptr rsdpSignature 8 = 0 := by
    rw [strncmp_zero_iff]
    intro k less
    have noNul : (0 : UInt8) ∉ rsdpText := by decide
    rw [bytesAt_get h.stands k less, bytesAt_get literal k less]
    exact ⟨fun nul => noNul (nul ▸ List.get_mem _ _), rfl⟩
  rw [findRSDP, llFindRsdp, search, Option.bind_eq_bind, Option.bind_some]
  by_cases nothing : ptr = 0
  · rw [if_pos nothing]
    refine ⟨0, rfl, fun p => ?_⟩
    constructor
    · rintro ⟨rfl, some_⟩
      exact absurd rfl some_
    · rintro ⟨inRom, -⟩
      obtain ⟨here, some_⟩ := (first p).mpr inRom
      exact absurd (here.symm.trans nothing) some_
  · have inRom := (first ptr).mp ⟨rfl, nothing⟩
    rw [if_neg nothing]
    by_cases sum : checksum memory ptr rsdpSize = 0
    · rw [if_pos ⟨same inRom, sum⟩]
      refine ⟨ptr, rfl, fun p => ?_⟩
      constructor
      · rintro ⟨rfl, -⟩
        exact ⟨inRom, (checksum_iff rsdpSize).mp sum⟩
      · rintro ⟨other, -⟩
        exact (first p).mpr other
    · rw [if_neg (fun both => sum both.2)]
      refine ⟨0, rfl, fun p => ?_⟩
      constructor
      · rintro ⟨rfl, some_⟩
        exact absurd rfl some_
      · rintro ⟨other, valid⟩
        obtain ⟨rfl, -⟩ := (first p).mpr other
        exact absurd ((checksum_iff rsdpSize).mpr valid) sum

/-- The checks of `BIOS32Find` are those of a valid header. -/
theorem bios32Valid_iff
    : Bios32Valid memory address
      ↔ ¬ 0x100000 ≤ readWord memory (address + 4) ∧ ¬ memory (address + 8) ≠ 0x00
        ∧ ¬ memory (address + 9) ≠ 0x01 ∧ ¬ checksum memory address 16 ≠ 0 := by
  rw [not_not, not_not, not_not, checksum_iff, BitVec.le_def, Nat.not_le]
  constructor
  · intro valid
    exact ⟨valid.low, valid.revision, valid.length, valid.sum⟩
  · rintro ⟨low, revision, length, sum⟩
    exact ⟨low, revision, length, sum⟩

theorem bios32Find_first {fuel : Nat} (enough : 0x8000 < fuel)
    : ∃ result, bios32Find memory fuel = some result
        ∧ ∀ entry, result = some entry ↔ ∃ header, FirstInRom memory bios32Text header
          ∧ Bios32Valid memory header ∧ entry = readWord memory (header + 4) := by
  have means (address : BitVec 32)
      : decide (readWord memory address = bios32Word) = true
        ↔ BytesAt memory address bios32Text := by
    rw [decide_eq_true_iff, bios32Word_iff]
  obtain ⟨ptr, search, first⟩ := checkLoop_first means enough
  rw [bios32Find, findBios32, search, Option.bind_eq_bind, Option.bind_some]
  by_cases found : ptr ≠ 0 ∧ Bios32Valid memory ptr
  · obtain ⟨some_, valid⟩ := found
    have inRom := (first ptr).mp ⟨rfl, some_⟩
    obtain ⟨low, revision, length, sum⟩ := bios32Valid_iff.mp valid
    have signature := bios32Word_iff.mpr inRom.stands
    rw [if_neg some_, if_neg (not_not.mpr signature), if_neg low, if_neg revision, if_neg length,
      if_neg sum]
    refine ⟨_, rfl, fun entry => ?_⟩
    constructor
    · intro same
      exact ⟨ptr, inRom, valid, (Option.some.inj same).symm⟩
    · rintro ⟨header, other, -, rfl⟩
      obtain ⟨rfl, -⟩ := (first header).mpr other
      rfl
  · have refused : ∀ entry, ¬ ∃ header, FirstInRom memory bios32Text header
        ∧ Bios32Valid memory header ∧ entry = readWord memory (header + 4) := by
      rintro entry ⟨header, inRom, valid, -⟩
      obtain ⟨rfl, some_⟩ := (first header).mpr inRom
      exact found ⟨some_, valid⟩
    refine ⟨none, ?_, fun entry => iff_of_false (Option.some_ne_none entry).symm (refused entry)⟩
    dsimp only
    split_ifs with nothing signature low revision length sum
    all_goals first | rfl | skip
    exact absurd ⟨nothing, bios32Valid_iff.mpr ⟨low, revision, length, sum⟩⟩ found

/-- A table that passes has the signature and sums to 0. -/
theorem checkedTable_iff {signature header table : BitVec 32}
    (noNul : ∀ k < 4, memory (signature + BitVec.ofNat 32 k) ≠ 0)
    : (checkedTable memory signature header = table ∧ table ≠ 0)
      ↔ table = header ∧ table ≠ 0 ∧ ValidTable memory signature table := by
  have test : (strncmp memory header signature 4 = 0 ∧ doChecksum memory header = true)
      ↔ ValidTable memory signature header := by
    have matching := @sdtMatches_iff memory signature header
    rw [sdtMatches, decide_eq_true_iff] at matching
    exact matching.trans (and_iff_right noNul)
  rw [checkedTable]
  by_cases valid : ValidTable memory signature header
  · rw [if_pos (test.mpr valid)]
    constructor
    · rintro ⟨rfl, some_⟩
      exact ⟨rfl, some_, valid⟩
    · rintro ⟨rfl, some_, -⟩
      exact ⟨rfl, some_⟩
  · rw [if_neg (fun both => valid (test.mp both))]
    constructor
    · rintro ⟨rfl, some_⟩
      exact absurd rfl some_
    · rintro ⟨rfl, -, passed⟩
      exact absurd passed valid

/-- What a search in a table returns is valid, by induction on the entries that are left. -/
theorem searchEntries_valid {signature table width : BitVec 32} (left i : Nat)
    (found : (searchEntries memory signature table width left i).result ≠ 0)
    : ValidTable memory signature (searchEntries memory signature table width left i).result := by
  induction left generalizing i with
  | zero => exact absurd rfl found
  | succ left ih =>
      rw [searchEntries] at found ⊢
      by_cases matching : sdtMatches memory signature (sdtEntry memory table width i) = true
      · rw [if_pos matching]
        exact (sdtMatches_iff.mp matching).2
      · rw [if_neg matching] at found ⊢
        exact ih (i + 1) found

theorem findInSDT_valid {xsdtSignature signature header : BitVec 32}
    (found : (findInSDT memory xsdtSignature signature header).result ≠ 0)
    : ValidTable memory signature (findInSDT memory xsdtSignature signature header).result := by
  rw [findInSDT] at found ⊢
  split_ifs at found ⊢
  · exact searchEntries_valid _ _ found
  · exact searchEntries_valid _ _ found

end

-----------------------------------------------------------------------------------------
-- What the kernel learns
-----------------------------------------------------------------------------------------

/-- The literals stand where they are looked for. -/
structure AcpiLiterals.At (literals : AcpiLiterals) (memory : CharMemory) : Prop where
  rsdp : BytesAt memory literals.rsdp rsdpText
  rsdt : BytesAt memory literals.rsdt SdtKind.rsdt.signature

/-- The RSDP that the firmware has to offer: the first signature in the ROM area, if it sums to 0.
-/
structure OfferedRsdp (memory : CharMemory) (rsdp : BitVec 32) : Prop where
  first : FirstInRom memory rsdpText rsdp
  sum : (∑ i ∈ Finset.range 20, (memory (rsdp + BitVec.ofNat 32 i)).toNat) % 256 = 0

/-- The BIOS32 entry point and the root table are found exactly if the first signature in the ROM
area leads to them, and every table that is found is valid.
-/
theorem firmware_found_iff {memory : CharMemory} {literals : AcpiLiterals} {fuel : Nat}
    (placed : literals.At memory) (enough : 0x8000 < fuel)
    : (∃ result, bios32Find memory fuel = some result
        ∧ ∀ entry, result = some entry ↔ ∃ header, FirstInRom memory bios32Text header
          ∧ Bios32Valid memory header ∧ entry = readWord memory (header + 4))
      ∧ ∃ tables, acpiTables memory literals fuel = some tables
        ∧ (∀ rsdt, (tables.rsdt = rsdt ∧ rsdt ≠ 0)
          ↔ ∃ rsdp, OfferedRsdp memory rsdp ∧ rsdt = readWord memory (rsdp + 16) ∧ rsdt ≠ 0
            ∧ ValidTable memory literals.rsdt rsdt)
        ∧ (tables.fadt ≠ 0 → ValidTable memory literals.facp tables.fadt)
        ∧ (tables.hpet ≠ 0 → ValidTable memory literals.hpet tables.hpet) := by
  refine ⟨bios32Find_first enough, ?_⟩
  obtain ⟨rsdp, search, offered⟩ := findRSDP_first placed.rsdp enough
  have noNul : ∀ k < 4, memory (literals.rsdt + BitVec.ofNat 32 k) ≠ 0 := by
    intro k less nul
    have absent : (0 : UInt8) ∉ SdtKind.rsdt.signature := by decide
    rw [bytesAt_get placed.rsdt k less] at nul
    exact absent (nul ▸ List.get_mem _ _)
  have nothing (table : BitVec 32) : ((0 : BitVec 32) = table ∧ table ≠ 0) ↔ False := by
    constructor
    · rintro ⟨rfl, some_⟩
      exact some_ rfl
    · exact False.elim
  rw [acpiTables, search, Option.bind_eq_bind, Option.bind_some]
  by_cases missing : rsdp = 0
  · rw [if_pos missing]
    refine ⟨_, rfl, fun rsdt => (nothing rsdt).trans (iff_of_false id ?_), absurd rfl, absurd rfl⟩
    rintro ⟨other, valid, -⟩
    obtain ⟨rfl, some_⟩ := (offered other).mpr ⟨valid.first, valid.sum⟩
    exact some_ missing
  · obtain ⟨first, sum⟩ := (offered rsdp).mp ⟨rfl, missing⟩
    have root (rsdt : BitVec 32)
        : (findRSDT memory literals.rsdt rsdp = rsdt ∧ rsdt ≠ 0)
          ↔ ∃ rsdp, OfferedRsdp memory rsdp ∧ rsdt = readWord memory (rsdp + 16) ∧ rsdt ≠ 0
            ∧ ValidTable memory literals.rsdt rsdt := by
      rw [findRSDT, if_neg missing, checkedTable_iff noNul]
      constructor
      · intro valid
        exact ⟨rsdp, ⟨first, sum⟩, valid⟩
      · rintro ⟨other, offer, valid⟩
        obtain ⟨rfl, -⟩ := (offered other).mpr ⟨offer.first, offer.sum⟩
        exact valid
    rw [if_neg missing]
    by_cases rootless : findRSDT memory literals.rsdt rsdp = 0
    · dsimp only
      rw [if_pos rootless]
      rw [rootless] at root
      exact ⟨_, rfl, root, absurd rfl, absurd rfl⟩
    · dsimp only
      rw [if_neg rootless]
      exact ⟨_, rfl, root, findInSDT_valid, findInSDT_valid⟩

/-- A ROM area that begins with an RSDP whose sum is 31 and one whose sum is 0. -/
def twoRsdps : CharMemory := fun address =>
  (rsdpText ++ List.replicate 12 0 ++ rsdpText ++ 225 :: List.replicate 11 0
    ++ SdtKind.rsdt.signature).getD (address - 0x0E0000).toNat 0

def romLiterals : AcpiLiterals := ⟨0x0E0000, 0x0E0028, 0x0E0028, 0x0E0028, 0x0E0028⟩

/-- The second RSDP is valid but not found. -/
theorem firmware_found_iff_hidden
    : (∑ i ∈ Finset.range 20, (twoRsdps (0x0E0014 + BitVec.ofNat 32 i)).toNat) % 256 = 0
      ∧ ∃ tables, acpiTables twoRsdps romLiterals 0x8001 = some tables ∧ tables.rsdt = 0 := by
  refine ⟨by decide +kernel, ?_⟩
  have placed : romLiterals.At twoRsdps := ⟨by decide +kernel, by decide +kernel⟩
  obtain ⟨-, tables, run, rsdt, -⟩ := firmware_found_iff placed (by decide : 0x8000 < 0x8001)
  refine ⟨tables, run, ?_⟩
  by_contra found
  obtain ⟨rsdp, ⟨⟨-, i, -, place, before⟩, sum⟩, -⟩ := (rsdt tables.rsdt).mp ⟨rfl, found⟩
  have here : BytesAt twoRsdps (romAddress 0) rsdpText := by decide +kernel
  have first : i = 0 := by
    by_contra later
    exact before 0 (Nat.pos_of_ne_zero later) here
  rw [place, first] at sum
  revert sum
  decide +kernel

end DeadKernel
