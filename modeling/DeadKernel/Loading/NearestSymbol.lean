import DeadKernel.Loading.Image

/-! Symbols and sections by address. The loops rank the entries by `address - value` in 32 bits, and
that puts an entry above the address behind every entry below it.
-/

namespace DeadKernel

open Words

-----------------------------------------------------------------------------------------
-- The tables and the loops
-----------------------------------------------------------------------------------------

structure Symbol where
  value : Nat
  info : UInt8
  value_lt : value < wordSize

/-- An object with its symbols, and the addresses between which its sections lie. -/
structure SymbolObj extends ElfObj where
  symbols : List Symbol
  start : Nat
  stop : Nat
  stop_lt : stop < wordSize

def sttCheckType (symbol : Symbol) (type : UInt8) : Bool := symbol.info &&& 0xF = type

section Scan

variable {α : Type} (position : α → Nat) (wanted : α → Bool) (address : Nat)

/-- A round of the loop: an entry of the table with its index, and the nearest entry so far. -/
def nearer (nearest : Option (α × Nat)) (entry : α × Nat) : Option (α × Nat) :=
  if wanted entry.1 then
    let nearest := nearest.getD entry
    if sub32 address (position entry.1) < sub32 address (position nearest.1) then some entry
    else some nearest
  else nearest

/-- The index of the entry that the loop ends with. -/
def findNearest (table : List α) : Option Nat :=
  (table.zipIdx.foldl (nearer position wanted address) none).map Prod.snd

end Scan

def elfFindNearestSectionByAddress (hdr : SymbolObj) (address : Nat) : Option Nat :=
  if hdr.sections.length = 0 then none
  else if hdr.symbols.length = 0 then none
  else if address < hdr.start ∨ hdr.stop < address then none
  else findNearest (fun section_ => section_.addr) (fun _ => true) address hdr.sections

def elfFindNearestSymbolByAddress (hdr : SymbolObj) (type : UInt8) (address : Nat)
    : Option Nat :=
  if hdr.sections.length = 0 then none
  else if hdr.symbols.length = 0 then none
  else if address < hdr.start ∨ hdr.stop < address then none
  else findNearest Symbol.value (fun symbol => sttCheckType symbol type) address hdr.symbols

-----------------------------------------------------------------------------------------
-- The scan
-----------------------------------------------------------------------------------------

section Scan

variable {α : Type} {position : α → Nat} {wanted : α → Bool} {address : Nat}

/-- The index is that of the first wanted entry among the highest that are not above the address.
-/
def NearestBelow (position : α → Nat) (wanted : α → Bool) (address : Nat) (table : List α)
    (i : Nat)
    : Prop :=
  ∃ entry, table[i]? = some entry ∧ wanted entry = true ∧ position entry ≤ address
    ∧ ∀ j other, table[j]? = some other → wanted other = true → position other ≤ address →
      position other ≤ position entry ∧ (position other = position entry → i ≤ j)

/-- The first of the wanted entries with the least distance. -/
structure FirstNearest (position : α → Nat) (wanted : α → Bool) (address : Nat)
    (seen : List (α × Nat)) (found : α × Nat)
    : Prop where
  mem : found ∈ seen
  accepted : wanted found.1 = true
  least : ∀ entry ∈ seen, wanted entry.1 = true →
    sub32 address (position found.1) ≤ sub32 address (position entry.1)
  first : ∀ entry ∈ seen, wanted entry.1 = true →
    sub32 address (position entry.1) = sub32 address (position found.1) → found.2 ≤ entry.2

/-- What the loop knows when it has seen some entries. -/
structure TableScanned (position : α → Nat) (wanted : α → Bool) (address : Nat)
    (seen : List (α × Nat)) (nearest : Option (α × Nat))
    : Prop where
  unwanted : nearest = none → ∀ entry ∈ seen, wanted entry.1 = false
  nearest : ∀ found, nearest = some found → FirstNearest position wanted address seen found

variable {seen : List (α × Nat)} {entry found : α × Nat}

/-- An entry behind the others that is unwanted, or no nearer, changes nothing. -/
theorem FirstNearest.append (old : FirstNearest position wanted address seen found)
    (behind : found.2 < entry.2)
    (farther : wanted entry.1 = true →
      sub32 address (position found.1) ≤ sub32 address (position entry.1))
    : FirstNearest position wanted address (seen ++ [entry]) found where
  mem := List.mem_append_left _ old.mem
  accepted := old.accepted
  least := by
    intro other mem accepted
    rcases List.mem_append.mp mem with mem | mem
    · exact old.least other mem accepted
    · cases List.mem_singleton.mp mem
      exact farther accepted
  first := by
    intro other mem accepted same
    rcases List.mem_append.mp mem with mem | mem
    · exact old.first other mem accepted same
    · cases List.mem_singleton.mp mem
      exact behind.le

/-- A wanted entry that is nearer than the others is the nearest one. -/
theorem FirstNearest.last (accepted : wanted entry.1 = true)
    (nearer : ∀ other ∈ seen, wanted other.1 = true →
      sub32 address (position entry.1) < sub32 address (position other.1))
    : FirstNearest position wanted address (seen ++ [entry]) entry where
  mem := List.mem_append_right _ List.mem_cons_self
  accepted := accepted
  least := by
    intro other mem other_accepted
    rcases List.mem_append.mp mem with mem | mem
    · exact (nearer other mem other_accepted).le
    · cases List.mem_singleton.mp mem
      exact Nat.le_refl _
  first := by
    intro other mem other_accepted same
    rcases List.mem_append.mp mem with mem | mem
    · exact absurd same (nearer other mem other_accepted).ne'
    · cases List.mem_singleton.mp mem
      exact Nat.le_refl _

theorem tableScanned_some (nearest : FirstNearest position wanted address seen found)
    : TableScanned position wanted address seen (some found) where
  unwanted := by
    intro none_
    contradiction
  nearest := by
    rintro found ⟨⟩
    exact nearest

/-- A round keeps what the loop knows, for an entry behind those that were seen. -/
theorem TableScanned.round {nearest : Option (α × Nat)}
    (scanned : TableScanned position wanted address seen nearest)
    (behind : ∀ before ∈ seen, before.2 < entry.2)
    : TableScanned position wanted address (seen ++ [entry])
        (nearer position wanted address nearest entry) := by
  rw [nearer]
  cases accepted : wanted entry.1 with
  | false =>
      rw [if_neg Bool.false_ne_true]
      refine ⟨fun none_ other mem => ?_, fun found here => ?_⟩
      · rcases List.mem_append.mp mem with mem | mem
        · exact scanned.unwanted none_ other mem
        · rwa [List.mem_singleton.mp mem]
      · have old := scanned.nearest found here
        refine old.append (behind found old.mem) (fun yes => ?_)
        rw [accepted] at yes
        contradiction
  | true =>
      rw [if_pos rfl]
      cases nearest with
      | none =>
          simp only [Option.getD_none, lt_self_iff_false, if_false]
          refine tableScanned_some (FirstNearest.last accepted (fun other mem yes => ?_))
          rw [scanned.unwanted rfl other mem] at yes
          contradiction
      | some best =>
          have old := scanned.nearest best rfl
          simp only [Option.getD_some]
          split
          · rename_i closer
            refine tableScanned_some (FirstNearest.last accepted (fun other mem yes => ?_))
            exact closer.trans_le (old.least other mem yes)
          · rename_i farther
            exact tableScanned_some (old.append (behind best old.mem) (fun _ => not_lt.mp farther))

/-- The whole loop, by induction over the table from its end. -/
theorem scanned_table (position : α → Nat) (wanted : α → Bool) (address : Nat) (table : List α)
    : TableScanned position wanted address table.zipIdx
        (table.zipIdx.foldl (nearer position wanted address) none) := by
  induction table using List.reverseRecOn with
  | nil =>
      refine ⟨fun _ _ mem => ?_, fun _ none_ => ?_⟩
      · contradiction
      · contradiction
  | append_singleton table last ih =>
      rw [List.zipIdx_append, List.foldl_append]
      refine TableScanned.round ih (fun before mem => ?_)
      have here := List.mem_zipIdx_iff_getElem?.mp mem
      simpa using (List.getElem?_eq_some_iff.mp here).1

/-- An entry above the address is farther than any entry can be that is not. -/
theorem distance_above {place : Nat} (fits : place < wordSize) (above : address < place)
    : address < sub32 address place := by
  simp only [sub32, wordSize] at *
  omega

/-- The nearest entry is the highest one below, if there is one below. -/
theorem FirstNearest.below {table : List α}
    (nearest : FirstNearest position wanted address table.zipIdx found)
    (fits : address < wordSize) (places : ∀ entry, position entry < wordSize)
    (some_ : ∃ entry ∈ table, wanted entry = true ∧ position entry ≤ address)
    : NearestBelow position wanted address table found.2 := by
  have distance {entry : α} (low : position entry ≤ address)
      : sub32 address (position entry) = address - position entry := sub32_of_le fits low
  have low : position found.1 ≤ address := by
    obtain ⟨entry, mem, accepted, low⟩ := some_
    obtain ⟨j, here⟩ := List.mem_iff_getElem?.mp mem
    have le := nearest.least (entry, j) (List.mem_zipIdx_iff_getElem?.mpr here) accepted
    by_contra above
    have far := distance_above (places found.1) (not_le.mp above)
    rw [distance low] at le
    omega
  refine ⟨found.1, List.mem_zipIdx_iff_getElem?.mp nearest.mem, nearest.accepted, low, ?_⟩
  intro j other here accepted otherLow
  have mem : (other, j) ∈ table.zipIdx := List.mem_zipIdx_iff_getElem?.mpr here
  have le := nearest.least (other, j) mem accepted
  rw [distance low, distance otherLow] at le
  refine ⟨by omega, fun same => ?_⟩
  exact nearest.first (other, j) mem accepted (congrArg (sub32 address) same)

/-- The loop ends with the highest wanted entry below the address, and with none only if none is
wanted.
-/
theorem findNearest_spec (wanted : α → Bool) (table : List α) (fits : address < wordSize)
    (places : ∀ entry, position entry < wordSize)
    : ((∃ entry ∈ table, wanted entry = true ∧ position entry ≤ address) →
        ∃ i, findNearest position wanted address table = some i
          ∧ NearestBelow position wanted address table i)
      ∧ (findNearest position wanted address table = none →
        ∀ entry ∈ table, wanted entry = false) := by
  have scanned := scanned_table position wanted address table
  have none_ (ends : table.zipIdx.foldl (nearer position wanted address) none = none)
      (entry : α) (mem : entry ∈ table)
      : wanted entry = false := by
    obtain ⟨j, here⟩ := List.mem_iff_getElem?.mp mem
    exact scanned.unwanted ends (entry, j) (List.mem_zipIdx_iff_getElem?.mpr here)
  rw [findNearest]
  refine ⟨fun some_ => ?_, fun ends => none_ (Option.map_eq_none_iff.mp ends)⟩
  cases ends : table.zipIdx.foldl (nearer position wanted address) none with
  | none =>
      obtain ⟨entry, mem, accepted, -⟩ := some_
      rw [none_ ends entry mem] at accepted
      contradiction
  | some found => exact ⟨found.2, rfl, (scanned.nearest found ends).below fits places some_⟩

end Scan

-----------------------------------------------------------------------------------------
-- Symbols and sections
-----------------------------------------------------------------------------------------

/-- Both lookups give the first of the highest entries that are not above the address, where there
is one, and no entry only if the table has none of the type.
-/
theorem nearest_by_address (hdr : SymbolObj) (type : UInt8) {address : Nat}
    (someSection : hdr.sections ≠ []) (someSymbol : hdr.symbols ≠ [])
    (low : hdr.start ≤ address) (high : address ≤ hdr.stop)
    : (((∃ symbol ∈ hdr.symbols, sttCheckType symbol type = true ∧ symbol.value ≤ address) →
          ∃ i, elfFindNearestSymbolByAddress hdr type address = some i
            ∧ NearestBelow Symbol.value (fun symbol => sttCheckType symbol type) address
              hdr.symbols i)
        ∧ (elfFindNearestSymbolByAddress hdr type address = none →
          ∀ symbol ∈ hdr.symbols, sttCheckType symbol type = false))
      ∧ ((∃ section_ ∈ hdr.sections, section_.addr ≤ address) →
          ∃ i, elfFindNearestSectionByAddress hdr address = some i
            ∧ NearestBelow (fun section_ => section_.addr) (fun _ => true) address
              hdr.sections i)
        ∧ elfFindNearestSectionByAddress hdr address ≠ none := by
  have sections : ¬ hdr.sections.length = 0 := by simpa using someSection
  have symbols : ¬ hdr.symbols.length = 0 := by simpa using someSymbol
  have between : ¬ (address < hdr.start ∨ hdr.stop < address) := by omega
  have fits : address < wordSize := high.trans_lt hdr.stop_lt
  rw [elfFindNearestSymbolByAddress, elfFindNearestSectionByAddress]
  simp only [if_neg sections, if_neg symbols, if_neg between]
  refine ⟨findNearest_spec _ hdr.symbols fits Symbol.value_lt, ?_⟩
  obtain ⟨found, never⟩ := findNearest_spec (fun _ => true) hdr.sections fits
    (fun section_ => section_.addr_lt)
  constructor
  · rintro ⟨section_, mem, below⟩
    exact found ⟨section_, mem, rfl, below⟩
  · intro ends
    obtain ⟨section_, mem⟩ := List.exists_mem_of_ne_nil _ someSection
    have unwanted := never ends section_ mem
    contradiction

/-- Two functions at one address, and one above the address that is asked for. -/
def threeFunctions : SymbolObj where
  address := 0xC0100000
  entry := 0xC0101000
  sections := [⟨⟨0xC0101000, 0x2000, 6⟩, 1, by decide, by decide⟩]
  programs := []
  image := fun _ => 0
  symbols := [⟨0xC0101000, 0x12, by decide⟩, ⟨0xC0101000, 0x02, by decide⟩,
    ⟨0xC0101200, 0x12, by decide⟩, ⟨0xC0101080, 0x11, by decide⟩]
  start := 0xC0101000
  stop := 0xC0103000
  stop_lt := by decide

theorem nearest_by_address_first
    : ∃ i, elfFindNearestSymbolByAddress threeFunctions 2 0xC0101100 = some i
        ∧ NearestBelow Symbol.value (fun symbol => sttCheckType symbol 2) 0xC0101100
          threeFunctions.symbols i :=
  (nearest_by_address threeFunctions 2 (by decide) (by decide) (by decide) (by decide)).1.1
    (by decide)

end DeadKernel
