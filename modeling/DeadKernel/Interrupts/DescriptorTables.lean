import Mathlib.Data.BitVec
import Mathlib.Tactic.NormNum

/-! The descriptor tables as the processor reads them. The segments cover all of memory. The limit
of the task state segment is computed from its address instead of its size, and its fields are read
as the bits that open and close ports to tasks.
-/

namespace DeadKernel

-----------------------------------------------------------------------------------------
-- Bits
-----------------------------------------------------------------------------------------

theorem toNat_join {n m : Nat} (high : BitVec n) (low : BitVec m)
    : (high ++ low).toNat = high.toNat * 2 ^ m + low.toNat := by
  rw [BitVec.toNat_append, ← Nat.shiftLeft_add_eq_or_of_lt low.isLt, Nat.shiftLeft_eq]

/-- A field of a word. -/
theorem toNat_field (word : BitVec 32) (start count : Nat) (fits : count ≤ 32)
    : ((word >>> start) &&& BitVec.ofNat 32 (2 ^ count - 1)).toNat
      = word.toNat / 2 ^ start % 2 ^ count := by
  have most := Nat.pow_le_pow_right (by decide : 0 < 2) fits
  have least : 1 ≤ 2 ^ count := Nat.one_le_two_pow
  rw [BitVec.toNat_and, BitVec.toNat_ofNat, Nat.mod_eq_of_lt (by omega),
    Nat.and_two_pow_sub_one_eq_mod, BitVec.toNat_ushiftRight, Nat.shiftRight_eq_div_pow]

/-- The lower bits of a shifted word are clear if and only if its bits are, one by one. -/
theorem shiftRight_and_eq_zero {n : Nat} (word : BitVec n) (start count : Nat) (fits : count ≤ n)
    : (word >>> start) &&& BitVec.ofNat n (2 ^ count - 1) = 0
      ↔ ∀ i < count, word.getLsbD (start + i) = false := by
  have mask (i : Nat) (inside : i < n)
      : (BitVec.ofNat n (2 ^ count - 1)).getLsbD i = decide (i < count) := by
    rw [BitVec.getLsbD_ofNat, Nat.testBit_two_pow_sub_one, decide_eq_true inside, Bool.true_and]
  constructor
  · intro clear i inside
    have bit := congrArg (BitVec.getLsbD · i) clear
    simp only [BitVec.getLsbD_and, BitVec.getLsbD_ushiftRight, mask i (by omega), inside,
      decide_true, Bool.and_true] at bit
    simpa using bit
  · intro clear
    apply BitVec.eq_of_getLsbD_eq
    intro i inside
    rw [BitVec.getLsbD_and, BitVec.getLsbD_ushiftRight, mask i inside]
    by_cases lower : i < count
    · simp [clear i lower]
    · simp [lower]

-----------------------------------------------------------------------------------------
-- The tables
-----------------------------------------------------------------------------------------

structure GDTEntry where
  limitLow : BitVec 16
  baseLow : BitVec 16
  baseMiddle : BitVec 8
  access : BitVec 8
  granularity : BitVec 8
  baseHigh : BitVec 8

structure IDTEntry where
  baseLow : BitVec 16
  sel : BitVec 16
  always0 : BitVec 8
  flags : BitVec 8
  baseHigh : BitVec 16

structure TSSEntry where
  prevTSS : BitVec 32 := 0
  esp0 : BitVec 32 := 0
  ss0 : BitVec 32 := 0
  esp1 : BitVec 32 := 0
  ss1 : BitVec 32 := 0
  esp2 : BitVec 32 := 0
  ss2 : BitVec 32 := 0
  cr3 : BitVec 32 := 0
  eip : BitVec 32 := 0
  eflags : BitVec 32 := 0
  eax : BitVec 32 := 0
  ecx : BitVec 32 := 0
  edx : BitVec 32 := 0
  ebx : BitVec 32 := 0
  esp : BitVec 32 := 0
  ebp : BitVec 32 := 0
  esi : BitVec 32 := 0
  edi : BitVec 32 := 0
  es : BitVec 32 := 0
  cs : BitVec 32 := 0
  ss : BitVec 32 := 0
  ds : BitVec 32 := 0
  fs : BitVec 32 := 0
  gs : BitVec 32 := 0
  ldt : BitVec 32 := 0
  trap : BitVec 32 := 0
  iomapBase : BitVec 32 := 0

/-- `GDTEntries`, `IDTEntries` and `TSSEntry0`. -/
structure DescriptorTables where
  gdtEntries : Nat → GDTEntry
  idtEntries : Nat → IDTEntry
  tssEntry0 : TSSEntry

/-- The tables as the loader leaves them. -/
def DescriptorTables.zero : DescriptorTables :=
  ⟨fun _ => ⟨0, 0, 0, 0, 0, 0⟩, fun _ => ⟨0, 0, 0, 0, 0⟩, {}⟩

def packAccess (type dt dpl p : BitVec 8) : BitVec 8 :=
  (((0x00 ||| (type &&& 0b1111)) ||| (dt &&& 0b1) <<< 4) ||| (dpl &&& 0b11) <<< 5)
    ||| (p &&& 0b1) <<< 7

def packGranularity (a d g : BitVec 8) : BitVec 8 :=
  ((0x00 ||| (a &&& 0b1) <<< 4) ||| (d &&& 0b1) <<< 6) ||| (g &&& 0b1) <<< 7

/-- `GDT_DESC_SEG`. -/
def gdtDescSeg (n cpl : Nat) : Nat := 0x8 * n ||| cpl

/-- `sizeof(TSSEntry_t)`. -/
abbrev tssSize : BitVec 32 := 108

def gdtSetGate (num : Nat) (base limit : BitVec 32) (access granularity : BitVec 8)
    (tables : DescriptorTables)
    : DescriptorTables :=
  { tables with
    gdtEntries := Function.update tables.gdtEntries num
      { baseLow := (base &&& 0xFFFF).setWidth 16
        baseMiddle := ((base >>> 16) &&& 0xFF).setWidth 8
        baseHigh := ((base >>> 24) &&& 0xFF).setWidth 8
        limitLow := (limit &&& 0xFFFF).setWidth 16
        granularity := ((limit >>> 16) &&& 0x0F).setWidth 8 ||| granularity &&& 0xF0
        access } }

/-- `writeTSS`; `address` is that of `TSSEntry0`. -/
def writeTSS (address : BitVec 32) (num : Nat) (ss0 : BitVec 16) (esp0 : BitVec 32)
    (tables : DescriptorTables)
    : DescriptorTables :=
  let base := address
  -- an address where a size is due
  let limit := base + tssSize
  let tables :=
    gdtSetGate num base limit (packAccess 0b1001 0b0 3 0b1) (packGranularity 0 0 0) tables
  { tables with
    tssEntry0 :=
      { ss0 := ss0.setWidth 32
        esp0
        cs := BitVec.ofNat 32 (gdtDescSeg 1 3)
        ss := BitVec.ofNat 32 (gdtDescSeg 2 3)
        ds := BitVec.ofNat 32 (gdtDescSeg 2 3)
        es := BitVec.ofNat 32 (gdtDescSeg 2 3)
        fs := BitVec.ofNat 32 (gdtDescSeg 2 3)
        gs := BitVec.ofNat 32 (gdtDescSeg 2 3) } }

def initGDT (address : BitVec 32) (tables : DescriptorTables) : DescriptorTables :=
  let code := packAccess 0b1010 0b1
  let data := packAccess 0b0010 0b1
  let pages := packGranularity 0b0 0b1 0b1
  let tables := gdtSetGate 0 0 0 0 0 tables
  let tables := gdtSetGate 1 0 0xFFFFFFFF (code 0 0b1) pages tables
  let tables := gdtSetGate 2 0 0xFFFFFFFF (data 0 0b1) pages tables
  let tables := gdtSetGate 3 0 0xFFFFFFFF (code 3 0b1) pages tables
  let tables := gdtSetGate 4 0 0xFFFFFFFF (data 3 0b1) pages tables
  writeTSS address 5 (BitVec.ofNat 16 (gdtDescSeg 2 0)) 0 tables

def setKernelStack (stack : BitVec 32) (tables : DescriptorTables) : DescriptorTables :=
  { tables with tssEntry0 := { tables.tssEntry0 with esp0 := stack } }

-----------------------------------------------------------------------------------------
-- Segments
-----------------------------------------------------------------------------------------

/-- A descriptor, as the processor reads it: `limit` is the last offset. -/
structure Segment where
  base : BitVec 32
  limit : Nat
  type : BitVec 4
  codeOrData : Bool
  dpl : BitVec 2
  present : Bool

def GDTEntry.segment (entry : GDTEntry) : Segment :=
  let limit : BitVec 20 := entry.granularity.extractLsb' 0 4 ++ entry.limitLow
  { base := entry.baseHigh ++ (entry.baseMiddle ++ entry.baseLow)
    limit := if entry.granularity.getLsbD 7 then limit.toNat * 4096 + 4095 else limit.toNat
    type := entry.access.extractLsb' 0 4
    codeOrData := entry.access.getLsbD 4
    dpl := entry.access.extractLsb' 5 2
    present := entry.access.getLsbD 7 }

/-- The segment that a selector names. -/
def DescriptorTables.segment (selector : Nat) (tables : DescriptorTables) : Segment :=
  (tables.gdtEntries (selector / 8)).segment

section

variable {tables : DescriptorTables} {base limit : BitVec 32} {access granularity : BitVec 8}

/-- The processor finds the base that was set. -/
theorem segment_base (num : Nat)
    : ((gdtSetGate num base limit access granularity tables).gdtEntries num).segment.base
      = base := by
  have low : (base &&& 0xFFFF).toNat = base.toNat / 1 % 65536 := toNat_field base 0 16 (by decide)
  have middle : ((base >>> 16) &&& 0xFF).toNat = base.toNat / 65536 % 256 :=
    toNat_field base 16 8 (by decide)
  have high : ((base >>> 24) &&& 0xFF).toNat = base.toNat / 16777216 % 256 :=
    toNat_field base 24 8 (by decide)
  have whole := base.isLt
  simp only [gdtSetGate, Function.update_self]
  apply BitVec.eq_of_toNat_eq
  simp only [GDTEntry.segment, toNat_join, BitVec.toNat_setWidth, low, middle, high]
  omega

/-- Of a limit the lower 20 bits are left, in units of a byte or of a page. -/
theorem segment_limit (num : Nat)
    : ((gdtSetGate num base limit access granularity tables).gdtEntries num).segment.limit
      = if granularity.getLsbD 7 then limit.toNat % 2 ^ 20 * 4096 + 4095
        else limit.toNat % 2 ^ 20 := by
  have nothing : (0xF0 : BitVec 8).extractLsb' 0 4 = 0#4 := rfl
  have nibble : (((limit >>> 16) &&& 0x0F).setWidth 8 ||| granularity &&& 0xF0).extractLsb' 0 4
      = (((limit >>> 16) &&& 0x0F).setWidth 8).extractLsb' 0 4 := by
    rw [BitVec.extractLsb'_or, BitVec.extractLsb'_and, nothing, BitVec.and_zero, BitVec.or_zero]
  have unit : (((limit >>> 16) &&& 0x0F).setWidth 8 ||| granularity &&& 0xF0).getLsbD 7
      = granularity.getLsbD 7 := by
    rw [BitVec.getLsbD_or, BitVec.getLsbD_and]
    simp
  have low : (limit &&& 0xFFFF).toNat = limit.toNat / 1 % 65536 :=
    toNat_field limit 0 16 (by decide)
  have high : ((limit >>> 16) &&& 0x0F).toNat = limit.toNat / 65536 % 16 :=
    toNat_field limit 16 4 (by decide)
  have small := limit.isLt
  have joined : ((((limit >>> 16) &&& 0x0F).setWidth 8).extractLsb' 0 4
      ++ (limit &&& 0xFFFF).setWidth 16 : BitVec 20).toNat = limit.toNat % 2 ^ 20 := by
    simp only [toNat_join, BitVec.toNat_setWidth, BitVec.extractLsb'_toNat, low, high,
      Nat.shiftRight_zero]
    omega
  simp only [gdtSetGate, Function.update_self, GDTEntry.segment, nibble, unit, joined]

end

/-- A segment that covers all of memory, and who may use it. -/
structure Segment.Flat (segment : Segment) (type : BitVec 4) (dpl : BitVec 2) : Prop where
  base : segment.base = 0
  limit : segment.limit = 2 ^ 32 - 1
  type : segment.type = type
  codeOrData : segment.codeOrData = true
  dpl : segment.dpl = dpl
  present : segment.present = true

/-- The segment of a descriptor with the highest limit in pages. -/
theorem DescriptorTables.flat {tables : DescriptorTables} {selector : Nat} {access : BitVec 8}
    (entry : tables.gdtEntries (selector / 8) = ⟨0xFFFF, 0, 0, access, 0xCF, 0⟩)
    (codeOrData : access.getLsbD 4 = true) (present : access.getLsbD 7 = true)
    : (tables.segment selector).Flat (access.extractLsb' 0 4) (access.extractLsb' 5 2) := by
  rw [DescriptorTables.segment, entry]
  have base : (0#8 ++ (0#8 ++ 0#16) : BitVec 32) = 0 := by decide
  have highest : (BitVec.extractLsb' 0 4 0xCF#8 ++ 0xFFFF#16).toNat * 4096 + 4095 = 2 ^ 32 - 1 := by
    decide
  have limit : (GDTEntry.mk 0xFFFF 0 0 access 0xCF 0).segment.limit = 2 ^ 32 - 1 :=
    (if_pos (by decide : (0xCF#8).getLsbD 7 = true)).trans highest
  exact ⟨base, limit, rfl, codeOrData, rfl, present⟩

/-- The last offset of the task state segment. -/
def tssLimit (address : BitVec 32) : Nat := (address.toNat + 108) % 2 ^ 20

/-- What `InitGDT` leaves to the processor. -/
structure DescriptorTables.Initialized (address : BitVec 32) (tables : DescriptorTables)
    : Prop where
  kernelCode : (tables.segment 0x08).Flat 0b1010 0
  kernelData : (tables.segment 0x10).Flat 0b0010 0
  userCode : (tables.segment 0x1B).Flat 0b1010 3
  userData : (tables.segment 0x23).Flat 0b0010 3
  tssBase : (tables.segment 0x2B).base = address
  tssLimit : (tables.segment 0x2B).limit = tssLimit address

theorem initGDT_initialized (address : BitVec 32) (tables : DescriptorTables)
    : (initGDT address tables).Initialized address := by
  have base (before : DescriptorTables)
      : ((writeTSS address 5 (BitVec.ofNat 16 (gdtDescSeg 2 0)) 0 before).segment 0x2B).base
        = address :=
    @segment_base before address (address + tssSize) (packAccess 0b1001 0b0 3 0b1)
      (packGranularity 0 0 0) 5
  have limit (before : DescriptorTables)
      : ((writeTSS address 5 (BitVec.ofNat 16 (gdtDescSeg 2 0)) 0 before).segment 0x2B).limit
        = tssLimit address := by
    have set := @segment_limit before address (address + tssSize) (packAccess 0b1001 0b0 3 0b1)
      (packGranularity 0 0 0) 5
    rw [if_neg (by decide), BitVec.toNat_add] at set
    have small := address.isLt
    refine set.trans ?_
    simp only [DeadKernel.tssLimit, tssSize, BitVec.reduceToNat]
    omega
  exact
    { kernelCode := @DescriptorTables.flat (initGDT address tables) 0x08 0x9A rfl rfl rfl
      kernelData := @DescriptorTables.flat (initGDT address tables) 0x10 0x92 rfl rfl rfl
      userCode := @DescriptorTables.flat (initGDT address tables) 0x1B 0xFA rfl rfl rfl
      userData := @DescriptorTables.flat (initGDT address tables) 0x23 0xF2 rfl rfl rfl
      tssBase := base _
      tssLimit := limit _ }

-----------------------------------------------------------------------------------------
-- The task state segment
-----------------------------------------------------------------------------------------

def TSSEntry.dwords (entry : TSSEntry) : List (BitVec 32) :=
  [entry.prevTSS, entry.esp0, entry.ss0, entry.esp1, entry.ss1, entry.esp2, entry.ss2, entry.cr3,
    entry.eip, entry.eflags, entry.eax, entry.ecx, entry.edx, entry.ebx, entry.esp, entry.ebp,
    entry.esi, entry.edi, entry.es, entry.cs, entry.ss, entry.ds, entry.fs, entry.gs, entry.ldt,
    entry.trap, entry.iomapBase]

/-- The bytes from `TSSEntry0` on, and those that lie behind it. -/
def TSSEntry.bytes (behind : Nat → BitVec 8) (entry : TSSEntry) (offset : Nat) : BitVec 8 :=
  match entry.dwords[offset / 4]? with
  | some dword => (dword >>> (8 * (offset % 4))).setWidth 8
  | none => behind offset

def bytesWord (bytes : Nat → BitVec 8) (offset : Nat) : BitVec 16 :=
  bytes (offset + 1) ++ bytes offset

def bytesDword (bytes : Nat → BitVec 8) (offset : Nat) : BitVec 32 :=
  bytesWord bytes (offset + 2) ++ bytesWord bytes offset

/-- The stack (`ss` and `esp`) that the processor changes to from ring 3, unless it finds the six
bytes outside of the segment and has an invalid task state segment to report.
-/
def DescriptorTables.ring0Stack (behind : Nat → BitVec 8) (tables : DescriptorTables)
    : Option (BitVec 16 × BitVec 32) :=
  let bytes := tables.tssEntry0.bytes behind
  if 4 + 5 ≤ (tables.segment 0x2B).limit then some (bytesWord bytes 8, bytesDword bytes 4)
  else none

/-- The processor lets a task at `size` ports from `port` on: the offset of the map is in the word
at 102, the two bytes of the map are in the segment, and the bits of the ports are clear.
-/
def DescriptorTables.Opens (behind : Nat → BitVec 8) (port size : Nat) (tables : DescriptorTables)
    : Prop :=
  let bytes := tables.tssEntry0.bytes behind
  let limit := (tables.segment 0x2B).limit
  let map := (bytesWord bytes 102).toNat
  103 ≤ limit ∧ map + port / 8 + 1 ≤ limit
    ∧ (bytesWord bytes (map + port / 8) >>> (port % 8)) &&& BitVec.ofNat 16 (2 ^ size - 1) = 0

section

variable {behind : Nat → BitVec 8} {entry : TSSEntry}

/-- A bit of a word that is read from any two bytes. -/
theorem bytesWord_bit (bytes : Nat → BitVec 8) (offset : Nat) {i : Nat} (inside : i < 16)
    : (bytesWord bytes offset).getLsbD i = (bytes (offset + i / 8)).getLsbD (i % 8) := by
  rw [bytesWord, BitVec.getLsbD_append]
  by_cases lower : i < 8
  · rw [if_pos lower, Nat.div_eq_of_lt lower, Nat.mod_eq_of_lt lower, Nat.add_zero]
  · have next : i / 8 = 1 := by omega
    have rest : i % 8 = i - 8 := by omega
    rw [if_neg lower, next, rest]

/-- A bit of the entry, in the byte that it lies in. -/
theorem bytes_bit {i : Nat} {dword : BitVec 32} (found : entry.dwords[i / 32]? = some dword)
    : (entry.bytes behind (i / 8)).getLsbD (i % 8) = dword.getLsbD (i % 32) := by
  have place : i / 8 / 4 = i / 32 := Nat.div_div_eq_div_mul i 8 4
  have low : i % 8 < 8 := Nat.mod_lt i (by decide)
  have bit : 8 * (i / 8 % 4) + i % 8 = i % 32 := by omega
  simp only [TSSEntry.bytes, place, found]
  rw [BitVec.getLsbD_setWidth, BitVec.getLsbD_ushiftRight, bit, decide_eq_true low, Bool.true_and]

/-- A double word of the entry is read as it is. -/
theorem bytesDword_bytes {i : Nat} {dword : BitVec 32} (found : entry.dwords[i]? = some dword)
    : bytesDword (entry.bytes behind) (4 * i) = dword := by
  have byte (j : Nat) (few : j < 4)
      : (entry.bytes behind (4 * i + j)).toNat = dword.toNat / 2 ^ (8 * j) % 256 := by
    have place : (4 * i + j) / 4 = i := by omega
    have within : (4 * i + j) % 4 = j := by omega
    simp only [TSSEntry.bytes, place, found, within]
    rw [BitVec.toNat_setWidth, BitVec.toNat_ushiftRight, Nat.shiftRight_eq_div_pow]
  have first := byte 0 (by decide)
  have second := byte 1 (by decide)
  have third := byte 2 (by decide)
  have fourth := byte 3 (by decide)
  have whole := dword.isLt
  apply BitVec.eq_of_toNat_eq
  rw [bytesDword, toNat_join, bytesWord, bytesWord, toNat_join, toNat_join, Nat.add_assoc _ 2 1,
    second,
    third, fourth, ← Nat.add_zero (4 * i), first]
  omega

end

-----------------------------------------------------------------------------------------
-- Kernel stacks and ports
-----------------------------------------------------------------------------------------

/-- The tables after kernel stacks have been set, one after the other. -/
def DescriptorTables.withStacks (tops : List (BitVec 32)) (tables : DescriptorTables)
    : DescriptorTables :=
  tops.foldl (fun tables stack => setKernelStack stack tables) tables

/-- The ports below 864 whose bits `InitGDT` sets in the fields of the entry. -/
def closedPorts : List Nat :=
  [68, 576, 577, 580, 608, 609, 611, 640, 641, 644, 672, 673, 676, 704, 705, 708, 736, 737, 740]

/-- The port is closed by a bit of a selector, or by one of the address of the kernel stack. -/
def Closed (esp0 : BitVec 32) (port : Nat) : Prop :=
  port ∈ closedPorts ∨ 32 ≤ port ∧ port < 64 ∧ esp0.getLsbD (port - 32) = true

instance (esp0 : BitVec 32) (port : Nat) : Decidable (Closed esp0 port) :=
  inferInstanceAs (Decidable (_ ∨ _))

/-- The entry that `writeTSS` writes, with a kernel stack. -/
def initialTSS (esp0 : BitVec 32) : TSSEntry :=
  { esp0, ss0 := 0x10, cs := 0x0B, ss := 0x13, ds := 0x13, es := 0x13, fs := 0x13, gs := 0x13 }

section

variable {behind : Nat → BitVec 8} {address esp0 : BitVec 32} {tables : DescriptorTables}
  {tops : List (BitVec 32)}

/-- Only the last stack is left, by induction on them. -/
theorem withStacks_eq (tops : List (BitVec 32)) (tables : DescriptorTables)
    : tables.withStacks tops
      = setKernelStack (tops.getLast?.getD tables.tssEntry0.esp0) tables := by
  induction tops generalizing tables with
  | nil => rfl
  | cons stack rest ih =>
      have later := ih (setKernelStack stack tables)
      rw [DescriptorTables.withStacks] at later ⊢
      rw [List.foldl_cons, later, List.getLast?_cons, Option.getD_some]
      rfl

theorem tssEntry0_withStacks
    : ((initGDT address tables).withStacks tops).tssEntry0
      = initialTSS (tops.getLast?.getD 0) := by
  rw [withStacks_eq]
  rfl

theorem segment_withStacks (selector : Nat)
    : ((initGDT address tables).withStacks tops).segment selector
      = (initGDT address tables).segment selector := by
  rw [withStacks_eq]
  rfl

theorem withStacks_initialized (address : BitVec 32) (tables : DescriptorTables)
    (tops : List (BitVec 32))
    : ((initGDT address tables).withStacks tops).Initialized address := by
  have start := initGDT_initialized address tables
  constructor
  all_goals rw [segment_withStacks]
  · exact start.kernelCode
  · exact start.kernelData
  · exact start.userCode
  · exact start.userData
  · exact start.tssBase
  · exact start.tssLimit

theorem initialTSS_ss0 : bytesWord ((initialTSS esp0).bytes behind) 8 = 0x10 := by
  have whole := congrArg BitVec.toNat (@bytesDword_bytes behind (initialTSS esp0) 2 0x10 rfl)
  have small := (bytesWord ((initialTSS esp0).bytes behind) 8).isLt
  have halves : (bytesWord ((initialTSS esp0).bytes behind) 10).toNat * 2 ^ 16
      + (bytesWord ((initialTSS esp0).bytes behind) 8).toNat = 16 :=
    (toNat_join _ _).symm.trans whole
  apply BitVec.eq_of_toNat_eq
  change _ = 16
  omega

/-- The map begins at the entry itself. -/
theorem initialTSS_map : (bytesWord ((initialTSS esp0).bytes behind) 102).toNat = 0 := by
  have whole := congrArg BitVec.toNat (@bytesDword_bytes behind (initialTSS esp0) 25 0 rfl)
  have halves : (bytesWord ((initialTSS esp0).bytes behind) 102).toNat * 2 ^ 16
      + (bytesWord ((initialTSS esp0).bytes behind) 100).toNat = 0 :=
    (toNat_join _ _).symm.trans whole
  omega

/-- The segments stay flat and the stack of the processor is the last one that was set, unless the
address of the entry cuts its segment off below the sixth byte of the stack.
-/
theorem ring0Stack_withStacks (address : BitVec 32) (tables : DescriptorTables)
    (behind : Nat → BitVec 8) (tops : List (BitVec 32))
    : ((initGDT address tables).withStacks tops).Initialized address
      ∧ ((initGDT address tables).withStacks tops).ring0Stack behind
        = if 9 ≤ (address.toNat + 108) % 2 ^ 20 then some (0x10, tops.getLast?.getD 0)
          else none := by
  have kept := withStacks_initialized address tables tops
  have esp : bytesDword ((initialTSS (tops.getLast?.getD 0)).bytes behind) 4
      = tops.getLast?.getD 0 :=
    @bytesDword_bytes behind (initialTSS (tops.getLast?.getD 0)) 1 _ rfl
  refine ⟨kept, ?_⟩
  simp only [DescriptorTables.ring0Stack, kept.tssLimit, tssEntry0_withStacks, initialTSS_ss0,
    esp, tssLimit, Nat.reduceAdd]

/-- A bit of the entry closes a port or not. -/
theorem initialTSS_bit {port : Nat} (inside : port < 864)
    : ((initialTSS esp0).bytes behind (port / 8)).getLsbD (port % 8) = true
      ↔ Closed esp0 port := by
  -- the double words but the second are known
  have table : ∀ port < 864, port / 32 ≠ 1 →
      ((initialTSS 0).dwords[port / 32]?.map (BitVec.getLsbD · (port % 32)))
        = some (decide (port ∈ closedPorts)) := by
    decide +kernel
  have stack : ∀ port ∈ closedPorts, port / 32 ≠ 1 := by decide
  by_cases second : port / 32 = 1
  · have found : (initialTSS esp0).dwords[port / 32]? = some esp0 := by
      rw [second]
      rfl
    have rest : port % 32 = port - 32 := by omega
    rw [bytes_bit found, Closed, rest]
    constructor
    · intro closed
      exact Or.inr ⟨by omega, by omega, closed⟩
    · rintro (listed | ⟨_, _, closed⟩)
      · exact absurd second (stack port listed)
      · exact closed
  · have same : (initialTSS esp0).dwords[port / 32]? = (initialTSS 0).dwords[port / 32]? := by
      have set : (initialTSS esp0).dwords = (initialTSS 0).dwords.set 1 esp0 := rfl
      rw [set, List.getElem?_set_ne (Ne.symm second)]
    have known := table port inside second
    rw [Option.map_eq_some_iff] at known
    obtain ⟨dword, found, bit⟩ := known
    rw [bytes_bit (same.trans found), Closed]
    constructor
    · intro closed
      exact Or.inl (of_decide_eq_true (bit.symm.trans closed))
    · rintro (listed | ⟨_, _, _⟩)
      · exact bit.trans (decide_eq_true listed)
      · omega

/-- A task may use ports if and only if none of them is closed and the segment holds their bits: the
fields of the entry are the map, whatever kernel tops were set.
-/
theorem opens_iff (address : BitVec 32) (tables : DescriptorTables) (behind : Nat → BitVec 8)
    (tops : List (BitVec 32)) {port size : Nat} (few : size ≤ 4) (inside : port + size ≤ 864)
    : ((initGDT address tables).withStacks tops).Opens behind port size
      ↔ 103 ≤ (address.toNat + 108) % 2 ^ 20
        ∧ port / 8 + 1 ≤ (address.toNat + 108) % 2 ^ 20
        ∧ ∀ i < size, ¬ Closed (tops.getLast?.getD 0) (port + i) := by
  have kept := withStacks_initialized address tables tops
  have bits : (bytesWord ((initialTSS (tops.getLast?.getD 0)).bytes behind) (port / 8)
        >>> (port % 8)) &&& BitVec.ofNat 16 (2 ^ size - 1) = 0
      ↔ ∀ i < size, ¬ Closed (tops.getLast?.getD 0) (port + i) := by
    rw [shiftRight_and_eq_zero _ _ _ (by omega)]
    refine forall_congr' fun i => forall_congr' fun within => ?_
    have place : port / 8 + (port % 8 + i) / 8 = (port + i) / 8 := by omega
    have bit : (port % 8 + i) % 8 = (port + i) % 8 := by omega
    rw [bytesWord_bit _ _ (by omega), place, bit, ← initialTSS_bit (by omega),
      Bool.not_eq_true]
  simp only [DescriptorTables.Opens, kept.tssLimit, tssEntry0_withStacks, initialTSS_map,
    Nat.zero_add, bits, tssLimit]

end

/-- The command port of the keyboard controller is open. -/
theorem opens_iff_keyboard
    : ((initGDT 0xC0110020 .zero).withStacks [0xC0203000, 0xC0301FFC]).Opens
        (fun _ => 0xFF) 0x64 1 := by
  refine (opens_iff 0xC0110020 .zero (fun _ => 0xFF) [0xC0203000, 0xC0301FFC] (by decide)
    (by decide)).mpr ⟨by decide, by decide, ?_⟩
  decide

end DeadKernel
