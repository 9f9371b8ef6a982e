import DeadKernel.Foundation.ByteMemory
import DeadKernel.Shared.Strings
import Mathlib.Algebra.BigOperators.Group.Finset.Basic

/-! The search in the tables of ACPI. `findInSDT` subtracts the size of an entry from the length of
the table where it should subtract that of the header, and so goes on behind the end of the table.
-/

namespace DeadKernel

open ByteMemory

-----------------------------------------------------------------------------------------
-- Tables and their checksum
-----------------------------------------------------------------------------------------

/-- The two kinds of tables of tables. -/
inductive SdtKind where
  | rsdt
  | xsdt

def SdtKind.signature : SdtKind → List UInt8
  | .rsdt => ['R', 'S', 'D', 'T'].map chr
  | .xsdt => ['X', 'S', 'D', 'T'].map chr

/-- The size of an entry. -/
def SdtKind.width : SdtKind → BitVec 32
  | .rsdt => 4
  | .xsdt => 8

def sdtLength (memory : CharMemory) (header : BitVec 32) : BitVec 32 := readWord memory (header + 4)

/-- `&rsdt->entry0` or `&xsdt->entry0`. -/
def entry0 (header : BitVec 32) : BitVec 32 := header + 36

def checksumLoop (memory : CharMemory) : Nat → BitVec 32 → UInt8 → UInt8
  | 0, _, sum => sum
  | left + 1, ptr, sum => checksumLoop memory left (ptr + 1) (sum + memory ptr)

def checksum (memory : CharMemory) (ptr size : BitVec 32) : UInt8 :=
  checksumLoop memory size.toNat ptr 0

def doChecksum (memory : CharMemory) (header : BitVec 32) : Bool :=
  checksum memory header (sdtLength memory header) = 0

-----------------------------------------------------------------------------------------
-- findInSDT
-----------------------------------------------------------------------------------------

/-- The header that is returned, and the indices of the entries that were examined. -/
structure SdtSearch where
  result : BitVec 32
  examined : List Nat

/-- `table[i]`, or its low half. -/
def sdtEntry (memory : CharMemory) (table width : BitVec 32) (i : Nat) : BitVec 32 :=
  readWord memory (table + width * BitVec.ofNat 32 i)

def sdtMatches (memory : CharMemory) (signature header : BitVec 32) : Bool :=
  strncmp memory header signature 4 = 0 ∧ doChecksum memory header

/-- The loop of `findInSDT` over the entries from index `i` on. -/
def searchEntries (memory : CharMemory) (signature table width : BitVec 32) : Nat → Nat → SdtSearch
  | 0, _ => ⟨0, []⟩
  | left + 1, i =>
      if sdtMatches memory signature (sdtEntry memory table width i) then
        ⟨sdtEntry memory table width i, [i]⟩
      else
        let later := searchEntries memory signature table width left (i + 1)
        ⟨later.result, i :: later.examined⟩

/-- `xsdtSignature` is where the literal "XSDT" stands. -/
def findInSDT (memory : CharMemory) (xsdtSignature signature header : BitVec 32) : SdtSearch :=
  if strncmp memory header xsdtSignature 4 = 0 then
    let entries := ((sdtLength memory header - 8) / 8).toInt
    searchEntries memory signature (entry0 header) 8 entries.toNat 0
  else
    let entries := ((sdtLength memory header - 4) / 4).toInt
    searchEntries memory signature (entry0 header) 4 entries.toNat 0

-----------------------------------------------------------------------------------------
-- A search that stays in the table
-----------------------------------------------------------------------------------------

/-- The number of entries behind the header of a table. -/
def sdtCount (memory : CharMemory) (kind : SdtKind) (header : BitVec 32) : Nat :=
  ((sdtLength memory header).toNat - 36) / kind.width.toNat

/-- The header has the four characters of the signature, and its table sums to 0. -/
structure ValidTable (memory : CharMemory) (signature header : BitVec 32) : Prop where
  signature : ∀ k < 4, memory (header + BitVec.ofNat 32 k) = memory (signature + BitVec.ofNat 32 k)
  sum : (∑ i ∈ Finset.range (sdtLength memory header).toNat,
    (memory (header + BitVec.ofNat 32 i)).toNat) % 256 = 0

/-- Only entries of the table are examined, and the first valid one is returned, or `NULL`. -/
structure SearchesTable (memory : CharMemory) (kind : SdtKind) (signature header : BitVec 32)
    (search : SdtSearch)
    : Prop where
  examined : ∀ i ∈ search.examined, i < sdtCount memory kind header
  found : (∃ i < sdtCount memory kind header,
      search.result = sdtEntry memory (entry0 header) kind.width i
      ∧ ValidTable memory signature (sdtEntry memory (entry0 header) kind.width i)
      ∧ ∀ j < i, ¬ ValidTable memory signature (sdtEntry memory (entry0 header) kind.width j))
    ∨ (∀ i < sdtCount memory kind header,
      ¬ ValidTable memory signature (sdtEntry memory (entry0 header) kind.width i))
      ∧ search.result = 0

section Searching

variable {memory : CharMemory} {signature header ptr table width : BitVec 32} {kind : SdtKind}

theorem checksumLoop_sum (size : Nat) (sum : UInt8)
    : (checksumLoop memory size ptr sum).toNat
      = (sum.toNat + ∑ i ∈ Finset.range size, (memory (ptr + BitVec.ofNat 32 i)).toNat) % 256 := by
  induction size generalizing ptr sum with
  | zero => exact (Nat.mod_eq_of_lt sum.toNat_lt).symm
  | succ size ih =>
      rw [checksumLoop, ih, Finset.sum_range_succ', UInt8.toNat_add]
      simp only [address_add]
      rw [BitVec.add_zero]
      omega

theorem doChecksum_iff
    : doChecksum memory header = true
      ↔ (∑ i ∈ Finset.range (sdtLength memory header).toNat,
          (memory (header + BitVec.ofNat 32 i)).toNat) % 256 = 0 := by
  rw [doChecksum, decide_eq_true_iff, ← UInt8.toNat_inj, checksum, checksumLoop_sum,
    UInt8.toNat_zero, Nat.zero_add]

/-- The test of the loop is the right one for a signature without a NUL. -/
theorem sdtMatches_iff
    : sdtMatches memory signature header = true
      ↔ (∀ k < 4, memory (signature + BitVec.ofNat 32 k) ≠ 0)
        ∧ ValidTable memory signature header := by
  rw [sdtMatches, decide_eq_true_iff, strncmp_zero_iff, doChecksum_iff]
  constructor
  · rintro ⟨same, sum⟩
    exact ⟨fun k less => (same k less).2 ▸ (same k less).1, fun k less => (same k less).2, sum⟩
  · rintro ⟨some, valid⟩
    exact ⟨fun k less => ⟨valid.signature k less ▸ some k less, valid.signature k less⟩, valid.sum⟩

/-- As long as no entry matches, the loop goes on to the next one. -/
theorem searchEntries_examines {left k : Nat} (less : k < left) (i : Nat)
    (before : ∀ m < k, ¬ sdtMatches memory signature (sdtEntry memory table width (i + m)) = true)
    : i + k ∈ (searchEntries memory signature table width left i).examined := by
  induction k generalizing left i with
  | zero =>
      obtain ⟨left, rfl⟩ : ∃ more, left = more + 1 := ⟨left - 1, by omega⟩
      rw [searchEntries]
      split <;> exact List.mem_cons_self
  | succ k ih =>
      obtain ⟨left, rfl⟩ : ∃ more, left = more + 1 := ⟨left - 1, by omega⟩
      have skipped : ¬ sdtMatches memory signature (sdtEntry memory table width i) = true :=
        before 0 (Nat.succ_pos k)
      rw [searchEntries, if_neg skipped]
      have later := ih (Nat.lt_of_succ_lt_succ less) (i + 1) fun m before_ => by
        rw [Nat.add_assoc, Nat.add_comm 1]
        exact before (m + 1) (Nat.succ_lt_succ before_)
      rw [show i + (k + 1) = i + 1 + k by omega]
      exact List.mem_cons_of_mem i later

/-- The loop ends at the first entry that matches. -/
theorem searchEntries_first {left k : Nat} (less : k < left) (i : Nat)
    (before : ∀ m < k, ¬ sdtMatches memory signature (sdtEntry memory table width (i + m)) = true)
    (found : sdtMatches memory signature (sdtEntry memory table width (i + k)) = true)
    : (searchEntries memory signature table width left i).result
        = sdtEntry memory table width (i + k)
      ∧ ∀ j ∈ (searchEntries memory signature table width left i).examined, j ≤ i + k := by
  induction k generalizing left i with
  | zero =>
      obtain ⟨left, rfl⟩ : ∃ more, left = more + 1 := ⟨left - 1, by omega⟩
      have here : sdtMatches memory signature (sdtEntry memory table width i) = true := found
      rw [searchEntries, if_pos here]
      exact ⟨rfl, fun j mem => (List.mem_singleton.mp mem).le⟩
  | succ k ih =>
      obtain ⟨left, rfl⟩ : ∃ more, left = more + 1 := ⟨left - 1, by omega⟩
      have next (m : Nat) : i + 1 + m = i + (m + 1) := by omega
      obtain ⟨result, examined⟩ := ih (Nat.lt_of_succ_lt_succ less) (i + 1)
        (fun m before_ => by rw [next]; exact before (m + 1) (Nat.succ_lt_succ before_))
        (by rw [next]; exact found)
      have skipped : ¬ sdtMatches memory signature (sdtEntry memory table width i) = true :=
        before 0 (Nat.succ_pos k)
      rw [searchEntries, if_neg skipped]
      rw [next] at result examined
      refine ⟨result, fun j mem => ?_⟩
      rcases List.mem_cons.mp mem with rfl | mem
      · omega
      · exact examined j mem

/-- The signature of a table tells its kind. -/
theorem strncmp_xsdt {xsdtSignature : BitVec 32}
    (literal : BytesAt memory xsdtSignature SdtKind.xsdt.signature)
    (signed : BytesAt memory header kind.signature)
    : strncmp memory header xsdtSignature 4 = 0 ↔ kind = .xsdt := by
  rw [strncmp_zero_iff]
  cases kind with
  | rsdt =>
      refine iff_of_false (fun same => ?_) SdtKind.noConfusion
      have first := (same 0 (by decide)).2
      rw [BitVec.add_zero, BitVec.add_zero, signed.1, literal.1] at first
      exact absurd first (by decide)
  | xsdt =>
      refine iff_of_true (fun k less => ?_) rfl
      rw [bytesAt_get signed k less, bytesAt_get literal k less]
      have noNul : (0 : UInt8) ∉ SdtKind.xsdt.signature := by decide
      exact ⟨fun nul => noNul (nul ▸ List.get_mem _ _), rfl⟩

theorem SdtKind.width_cases (kind : SdtKind) : kind.width.toNat = 4 ∨ kind.width.toNat = 8 := by
  cases kind with
  | rsdt => exact .inl rfl
  | xsdt => exact .inr rfl

/-- `entries` is not negative as an `int`. -/
theorem loopBound {length : BitVec 32} (kind : SdtKind) (long : 36 ≤ length.toNat)
    : ((length - kind.width) / kind.width).toInt.toNat
      = (length.toNat - kind.width.toNat) / kind.width.toNat := by
  have width := kind.width_cases
  have difference : (length - kind.width).toNat = length.toNat - kind.width.toNat :=
    BitVec.toNat_sub_of_le (BitVec.le_def.mpr (by omega))
  have bound := length.isLt
  have half : 2 * ((length - kind.width) / kind.width).toNat < 2 ^ 32 := by
    rw [BitVec.toNat_udiv, difference]
    rcases width with four | eight
    · rw [four]
      omega
    · rw [eight]
      omega
  rw [BitVec.toInt_eq_toNat_of_lt half, Int.toNat_natCast, BitVec.toNat_udiv, difference]

/-- The bound of the loop is more than the number of entries of the table. -/
theorem findInSDT_eq {xsdtSignature : BitVec 32}
    (literal : BytesAt memory xsdtSignature SdtKind.xsdt.signature)
    (signed : BytesAt memory header kind.signature) (long : 36 ≤ (sdtLength memory header).toNat)
    : ∃ bound, sdtCount memory kind header < bound
        ∧ findInSDT memory xsdtSignature signature header
          = searchEntries memory signature (entry0 header) kind.width bound 0 := by
  refine ⟨((sdtLength memory header - kind.width) / kind.width).toInt.toNat, ?_, ?_⟩
  · rw [loopBound kind long, sdtCount]
    rcases kind.width_cases with four | eight
    · rw [four]
      omega
    · rw [eight]
      omega
  · have isXsdt := strncmp_xsdt literal signed
    rw [findInSDT]
    cases kind with
    | rsdt => exact if_neg fun same => SdtKind.noConfusion (isXsdt.mp same)
    | xsdt => exact if_pos (isXsdt.mpr rfl)

/-- The search stays in the table exactly if the table has a valid entry with the signature, which
has no NUL among its four characters.
-/
theorem findInSDT_searches_iff {xsdtSignature : BitVec 32}
    (literal : BytesAt memory xsdtSignature SdtKind.xsdt.signature)
    (signed : BytesAt memory header kind.signature) (long : 36 ≤ (sdtLength memory header).toNat)
    : SearchesTable memory kind signature header (findInSDT memory xsdtSignature signature header)
      ↔ (∀ k < 4, memory (signature + BitVec.ofNat 32 k) ≠ 0)
        ∧ ∃ i < sdtCount memory kind header,
          ValidTable memory signature (sdtEntry memory (entry0 header) kind.width i) := by
  classical
  obtain ⟨bound, more, search⟩ := findInSDT_eq literal signed long
  rw [search]
  have nth (i : Nat) : sdtEntry memory (entry0 header) kind.width (0 + i)
      = sdtEntry memory (entry0 header) kind.width i := by
    rw [Nat.zero_add]
  constructor
  · intro searches
    by_contra missing
    have skipped : ∀ m < sdtCount memory kind header,
        ¬ sdtMatches memory signature
          (sdtEntry memory (entry0 header) kind.width (0 + m)) = true := by
      intro m less matching
      obtain ⟨some, valid⟩ := sdtMatches_iff.mp matching
      exact missing ⟨some, m, less, nth m ▸ valid⟩
    have beyond := searches.examined _ (searchEntries_examines more 0 skipped)
    omega
  · rintro ⟨some, found⟩
    obtain ⟨less, valid⟩ := Nat.find_spec found
    have before : ∀ m < Nat.find found,
        ¬ ValidTable memory signature (sdtEntry memory (entry0 header) kind.width m) :=
      fun m earlier other => Nat.find_min found earlier ⟨earlier.trans less, other⟩
    obtain ⟨result, examined⟩ := searchEntries_first (less.trans more) 0
      (fun m earlier matching => before m earlier (nth m ▸ (sdtMatches_iff.mp matching).2))
      (sdtMatches_iff.mpr ⟨some, (nth _).symm ▸ valid⟩)
    refine ⟨fun j mem => ?_, .inl ⟨Nat.find found, less, result.trans (nth _), valid, before⟩⟩
    have bounded := examined j mem
    omega

end Searching

/-- An RSDT at address 64 with the address of a FACP table at its entry, that table at address 160,
and the two literals behind it.
-/
def acpiMemory (length check : UInt8) : CharMemory := fun address =>
  (['R', 'S', 'D', 'T'].map chr ++ [length, 0, 0, 0, 1, check] ++ List.replicate 26 0
    ++ [160, 0, 0, 0] ++ List.replicate 56 0
    ++ ['F', 'A', 'C', 'P'].map chr ++ [36, 0, 0, 0, 1, 193] ++ List.replicate 26 0
    ++ ['X', 'S', 'D', 'T', 'F', 'A', 'C', 'P', '\x00'].map chr).getD (address - 64).toNat 0

theorem findInSDT_one_entry
    : SearchesTable (acpiMemory 40 250) .rsdt 200 64
        (findInSDT (acpiMemory 40 250) 196 200 64) := by
  refine (findInSDT_searches_iff ?_ ?_ ?_).mpr ⟨?_, 0, ?_, ?_, ?_⟩
  all_goals decide +kernel

/-- A table of 36 bytes has no entry, and what stands behind it is taken for one. -/
theorem findInSDT_beyond
    : ¬ SearchesTable (acpiMemory 36 158) .rsdt 200 64
        (findInSDT (acpiMemory 36 158) 196 200 64) := by
  intro searches
  have examined : (findInSDT (acpiMemory 36 158) 196 200 64).examined = [0] := by decide +kernel
  have none_ : sdtCount (acpiMemory 36 158) .rsdt 64 = 0 := by decide +kernel
  have inside := searches.examined 0 (examined ▸ List.mem_singleton_self 0)
  rw [none_] at inside
  exact absurd inside (Nat.lt_irrefl 0)

end DeadKernel
