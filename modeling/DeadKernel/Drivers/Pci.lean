import Mathlib.Data.BitVec
import Mathlib.Tactic.NormNum

/-! The configuration space of PCI behind its two ports. `PCIDirectRead` shifts the place that is
read down to the bottom of the dword, and `PCIDirectWrite` always writes the bottom.
-/

namespace DeadKernel

-----------------------------------------------------------------------------------------
-- The two ports
-----------------------------------------------------------------------------------------

/-- What was last written to port 0xCF8, and the dwords of the configuration space, which are plain
storage. A dword is selected by bits 2 to 23 of the address.
-/
structure PciPorts where
  address : BitVec 32
  space : BitVec 22 → BitVec 32

def PciPorts.enabled (pci : PciPorts) : Bool := pci.address.getLsbD 31

def PciPorts.selected (pci : PciPorts) : BitVec 22 := pci.address.extractLsb' 2 22

def outl (port : BitVec 16) (value : BitVec 32) (pci : PciPorts) : PciPorts :=
  if port = 0xCF8 then { pci with address := value }
  else if port = 0xCFC ∧ pci.enabled then
    { pci with space := Function.update pci.space pci.selected value }
  else pci

def inl (port : BitVec 16) (pci : PciPorts) : BitVec 32 :=
  if port = 0xCF8 then pci.address
  else if port = 0xCFC ∧ pci.enabled then pci.space pci.selected
  else 0xFFFFFFFF

-----------------------------------------------------------------------------------------
-- PCIDirectRead and PCIDirectWrite
-----------------------------------------------------------------------------------------

def pciConf1Address (bus dev fn reg : BitVec 8) : BitVec 32 :=
  (0x80000000 : BitVec 32) ||| bus.setWidth 32 <<< 16 ||| dev.setWidth 32 <<< 11
    ||| fn.setWidth 32 <<< 8 ||| reg.setWidth 32 &&& 0xFC

/-- The arguments that both functions reject. -/
def pciRejects (bus dev fn reg : BitVec 8) : Bool :=
  255 < bus.toNat ∨ 31 < dev.toNat ∨ 7 < fn.toNat ∨ 255 < reg.toNat

/-- The value that is stored, or none for `PCI_OP_FAIL`. -/
def pciDirectRead (bus dev fn reg len : BitVec 8) (pci : PciPorts)
    : Option (BitVec 32) × PciPorts :=
  if pciRejects bus dev fn reg then (none, pci)
  else
    let pci := outl 0xCF8 (pciConf1Address bus dev fn reg) pci
    if len = 1 then (some (inl 0xCFC pci >>> ((reg &&& 3).toNat * 8) &&& 0x000000FF), pci)
    else if len = 2 then (some (inl 0xCFC pci >>> ((reg &&& 2).toNat * 8) &&& 0x0000FFFF), pci)
    else if len = 4 then (some (inl 0xCFC pci &&& 0xFFFFFFFF), pci)
    else (none, pci)

/-- `data &= ~mask; data |= value & mask;` -/
def putMasked (data value mask : BitVec 32) : BitVec 32 := data &&& ~~~mask ||| value &&& mask

/-- Whether the write succeeds. -/
def pciDirectWrite (bus dev fn reg len : BitVec 8) (value : BitVec 32) (pci : PciPorts)
    : Bool × PciPorts :=
  if pciRejects bus dev fn reg then (false, pci)
  else
    let pci := outl 0xCF8 (pciConf1Address bus dev fn reg) pci
    let data := inl 0xCFC pci
    let written : Option (BitVec 32) :=
      if len = 1 then some (putMasked data value 0x000000FF)
      else if len = 2 then some (putMasked data value 0x0000FFFF)
      else if len = 4 then some (putMasked data value 0xFFFFFFFF)
      else none
    match written with
    | none => (false, pci)
    | some data => (true, outl 0xCFC data (outl 0xCF8 (pciConf1Address bus dev fn reg) pci))

-----------------------------------------------------------------------------------------
-- Bytes of the configuration space
-----------------------------------------------------------------------------------------

/-- The number of a byte of the configuration space. -/
def pciPlace (bus dev fn reg : BitVec 8) : Nat :=
  bus.toNat * 65536 + dev.toNat * 2048 + fn.toNat * 256 + reg.toNat

def byteOf (data : BitVec 32) (k : Nat) : BitVec 8 := data.extractLsb' (8 * k) 8

def configByte (space : BitVec 22 → BitVec 32) (place : Nat) : BitVec 8 :=
  byteOf (space (BitVec.ofNat 22 (place / 4))) (place % 4)

/-- The mask of the lowest `len` bytes. -/
def byteMask (len : Nat) : BitVec 32 := BitVec.ofNat 32 (2 ^ (8 * len) - 1)

section Bytes

variable {data value : BitVec 32} {len k : Nat}

theorem getLsbD_byteOf {i : Nat} (less : i < 8)
    : (byteOf data k).getLsbD i = data.getLsbD (8 * k + i) := by
  rw [byteOf, BitVec.getLsbD_extractLsb', decide_eq_true less, Bool.true_and]

theorem getLsbD_byteMask (i : Nat) (less : i < 32)
    : (byteMask len).getLsbD i = decide (i < 8 * len) := by
  rw [byteMask, BitVec.getLsbD_ofNat, Nat.testBit_two_pow_sub_one, decide_eq_true less,
    Bool.true_and]

/-- A masked write puts the lowest bytes of the value and keeps the others. -/
theorem byteOf_putMasked (less : k < 4)
    : byteOf (putMasked data value (byteMask len)) k
      = if k < len then byteOf value k else byteOf data k := by
  apply BitVec.eq_of_getLsbD_eq
  intro i inside
  have bound : 8 * k + i < 32 := by omega
  rw [getLsbD_byteOf inside, putMasked, BitVec.getLsbD_or, BitVec.getLsbD_and, BitVec.getLsbD_and,
    BitVec.getLsbD_not, getLsbD_byteMask _ bound, decide_eq_true bound, Bool.true_and]
  split
  case isTrue low =>
    rw [decide_eq_true (by omega : 8 * k + i < 8 * len), getLsbD_byteOf inside]
    simp
  case isFalse high =>
    rw [decide_eq_false (by omega : ¬ 8 * k + i < 8 * len), getLsbD_byteOf inside]
    simp

/-- A shifted and masked dword is known by its bytes. -/
theorem shifted_eq_iff {s : Nat} (fits : len ≤ 4)
    : data >>> (s * 8) &&& byteMask len = value &&& byteMask len
      ↔ ∀ k < len, byteOf data (s + k) = byteOf value k := by
  constructor
  · intro same k less
    apply BitVec.eq_of_getLsbD_eq
    intro i inside
    have bit := congrArg (fun bits => bits.getLsbD (8 * k + i)) same
    simp only [BitVec.getLsbD_and, getLsbD_byteMask _ (by omega : 8 * k + i < 32),
      decide_eq_true (by omega : 8 * k + i < 8 * len), Bool.and_true,
      BitVec.getLsbD_ushiftRight] at bit
    rw [getLsbD_byteOf inside, getLsbD_byteOf inside, ← bit]
    congr 1
    omega
  · intro bytes
    apply BitVec.eq_of_getLsbD_eq
    intro i inside
    rw [BitVec.getLsbD_and, BitVec.getLsbD_and, getLsbD_byteMask i inside,
      BitVec.getLsbD_ushiftRight]
    by_cases low : i < 8 * len
    · have byte := congrArg (fun bits => bits.getLsbD (i % 8)) (bytes (i / 8) (by omega))
      simp only [getLsbD_byteOf (Nat.mod_lt i (by decide : 0 < 8))] at byte
      rw [show s * 8 + i = 8 * (s + i / 8) + i % 8 by omega, byte, Nat.div_add_mod]
    · rw [decide_eq_false low, Bool.and_false, Bool.and_false]

theorem toNat_masked (fits : len ≤ 4)
    : (value &&& byteMask len).toNat = value.toNat % 2 ^ (8 * len) := by
  have wide : 2 ^ (8 * len) ≤ 2 ^ 32 := Nat.pow_le_pow_right (by decide) (by omega)
  have some : 0 < 2 ^ (8 * len) := Nat.two_pow_pos _
  rw [BitVec.toNat_and, byteMask, BitVec.toNat_ofNat, Nat.mod_eq_of_lt (by omega),
    Nat.and_two_pow_sub_one_eq_mod]

end Bytes

-----------------------------------------------------------------------------------------
-- What is read and what is written
-----------------------------------------------------------------------------------------

/-- A place that both functions take: `reg` is aligned to `len`. -/
structure PciAccess (dev fn reg len : BitVec 8) : Prop where
  dev_lt : dev.toNat < 32
  fn_lt : fn.toNat < 8
  len_cases : len = 1 ∨ len = 2 ∨ len = 4
  aligned : reg.toNat % len.toNat = 0

/-- The dword of a place. -/
def pciDword (bus dev fn reg : BitVec 8) : BitVec 22 :=
  BitVec.ofNat 22 (pciPlace bus dev fn reg / 4)

section Access

variable {bus dev fn reg len : BitVec 8} {pci : PciPorts} {value : BitVec 32}

theorem toNat_masked_reg (reg : BitVec 8)
    : (reg.setWidth 32 &&& 0xFC : BitVec 32).toNat = reg.toNat / 4 * 4 := by
  revert reg
  decide

theorem shiftLeft_or {high low k : Nat} (less : low < 2 ^ k)
    : high <<< k ||| low = high * 2 ^ k + low := by
  rw [← Nat.shiftLeft_add_eq_or_of_lt less, Nat.shiftLeft_eq]

theorem shiftLeft_fits {high k : Nat} (less : high * 2 ^ k < 2 ^ 32)
    : (high % 2 ^ 32) <<< k % 2 ^ 32 = high <<< k := by
  have small : high < 2 ^ 32 := (Nat.le_mul_of_pos_right high (Nat.two_pow_pos k)).trans_lt less
  rw [Nat.mod_eq_of_lt small, Nat.shiftLeft_eq, Nat.mod_eq_of_lt less]

/-- The fields of an address do not overlap. -/
theorem toNat_conf1Address (dev_ : dev.toNat < 32) (fn_ : fn.toNat < 8)
    : (pciConf1Address bus dev fn reg).toNat
      = 2147483648 + pciPlace bus dev fn reg / 4 * 4 := by
  have busBound : bus.toNat < 256 := bus.isLt
  have regBound : reg.toNat < 256 := reg.isLt
  rw [pciConf1Address]
  simp only [BitVec.or_assoc, BitVec.toNat_or, BitVec.toNat_shiftLeft, BitVec.toNat_setWidth,
    toNat_masked_reg]
  have enable : (0x80000000 : BitVec 32).toNat = 1 <<< 31 := rfl
  have function_ : fn.toNat <<< 8 ||| reg.toNat / 4 * 4
      = fn.toNat * 2 ^ 8 + reg.toNat / 4 * 4 := shiftLeft_or (by omega)
  have device : dev.toNat <<< 11 ||| (fn.toNat * 2 ^ 8 + reg.toNat / 4 * 4)
      = dev.toNat * 2 ^ 11 + (fn.toNat * 2 ^ 8 + reg.toNat / 4 * 4) := shiftLeft_or (by omega)
  have bus_ : bus.toNat <<< 16 ||| (dev.toNat * 2 ^ 11 + (fn.toNat * 2 ^ 8 + reg.toNat / 4 * 4))
      = bus.toNat * 2 ^ 16 + (dev.toNat * 2 ^ 11 + (fn.toNat * 2 ^ 8 + reg.toNat / 4 * 4)) :=
    shiftLeft_or (by omega)
  rw [shiftLeft_fits (by omega), shiftLeft_fits (by omega), shiftLeft_fits (by omega), function_,
    device, bus_, enable, shiftLeft_or (by omega), pciPlace]
  omega

theorem enabled_conf1Address (bus reg : BitVec 8) (dev_ : dev.toNat < 32) (fn_ : fn.toNat < 8)
    : (pciConf1Address bus dev fn reg).getLsbD 31 = true := by
  have busBound : bus.toNat < 256 := bus.isLt
  have regBound : reg.toNat < 256 := reg.isLt
  rw [← BitVec.testBit_toNat, toNat_conf1Address dev_ fn_, Nat.testBit_eq_decide_div_mod_eq,
    pciPlace]
  exact decide_eq_true (by omega)

theorem selected_conf1Address (bus reg : BitVec 8) (dev_ : dev.toNat < 32) (fn_ : fn.toNat < 8)
    : (pciConf1Address bus dev fn reg).extractLsb' 2 22 = pciDword bus dev fn reg := by
  have busBound : bus.toNat < 256 := bus.isLt
  have regBound : reg.toNat < 256 := reg.isLt
  apply BitVec.eq_of_toNat_eq
  rw [BitVec.extractLsb'_toNat, toNat_conf1Address dev_ fn_, pciDword, BitVec.toNat_ofNat,
    Nat.shiftRight_eq_div_pow, pciPlace]
  omega

theorem inl_selected (dev_ : dev.toNat < 32) (fn_ : fn.toNat < 8)
    : inl 0xCFC (outl 0xCF8 (pciConf1Address bus dev fn reg) pci)
      = pci.space (pciDword bus dev fn reg) := by
  have enabled := enabled_conf1Address bus reg dev_ fn_
  have selected := selected_conf1Address bus reg dev_ fn_
  simp [inl, outl, PciPorts.enabled, PciPorts.selected, enabled, selected]

theorem outl_selected (dev_ : dev.toNat < 32) (fn_ : fn.toNat < 8)
    : (outl 0xCFC value (outl 0xCF8 (pciConf1Address bus dev fn reg) pci)).space
      = Function.update pci.space (pciDword bus dev fn reg) value := by
  have enabled := enabled_conf1Address bus reg dev_ fn_
  have selected := selected_conf1Address bus reg dev_ fn_
  simp [outl, PciPorts.enabled, PciPorts.selected, enabled, selected]

theorem PciAccess.accepted (access : PciAccess dev fn reg len)
    : pciRejects bus dev fn reg = false := by
  have busBound : bus.toNat < 256 := bus.isLt
  have regBound : reg.toNat < 256 := reg.isLt
  have devBound := access.dev_lt
  have fnBound := access.fn_lt
  exact decide_eq_false (by omega)

theorem low_two_bits (reg : BitVec 8) : (reg &&& 3).toNat = reg.toNat % 4 := by
  revert reg
  decide

theorem second_bit (reg : BitVec 8) : reg.toNat % 2 = 0 → (reg &&& 2).toNat = reg.toNat % 4 := by
  revert reg
  decide

/-- A read shifts the dword down to the place. -/
theorem pciDirectRead_eq (access : PciAccess dev fn reg len)
    : (pciDirectRead bus dev fn reg len pci).1
      = some (pci.space (pciDword bus dev fn reg) >>> (reg.toNat % 4 * 8)
          &&& byteMask len.toNat) := by
  rw [pciDirectRead, if_neg (by rw [access.accepted]; exact Bool.false_ne_true)]
  dsimp only
  rw [inl_selected access.dev_lt access.fn_lt]
  have aligned := access.aligned
  obtain rfl | rfl | rfl := access.len_cases
  · rw [if_pos rfl, low_two_bits]
    rfl
  · rw [if_neg (by decide), if_pos rfl, second_bit reg aligned]
    rfl
  · rw [if_neg (by decide), if_neg (by decide), if_pos rfl, show reg.toNat % 4 = 0 from aligned,
      Nat.zero_mul, BitVec.ushiftRight_zero]
    rfl

/-- A write puts the value at the bottom of the dword. -/
theorem pciDirectWrite_eq (access : PciAccess dev fn reg len)
    : (pciDirectWrite bus dev fn reg len value pci).2.space
      = Function.update pci.space (pciDword bus dev fn reg)
          (putMasked (pci.space (pciDword bus dev fn reg)) value (byteMask len.toNat)) := by
  rw [pciDirectWrite, if_neg (by rw [access.accepted]; exact Bool.false_ne_true)]
  dsimp only
  rw [inl_selected access.dev_lt access.fn_lt]
  obtain rfl | rfl | rfl := access.len_cases
  · exact outl_selected access.dev_lt access.fn_lt
  · exact outl_selected access.dev_lt access.fn_lt
  · exact outl_selected access.dev_lt access.fn_lt

theorem PciAccess.len_le (access : PciAccess dev fn reg len) : len.toNat ≤ 4 := by
  obtain rfl | rfl | rfl := access.len_cases <;> decide

/-- The bytes of a place do not go beyond its dword, and below the first of an unaligned dword there
is room for as many.
-/
theorem PciAccess.inside (access : PciAccess dev fn reg len)
    : reg.toNat % 4 + len.toNat ≤ 4
      ∧ (reg.toNat % 4 ≠ 0 → len.toNat ≤ reg.toNat % 4) := by
  have aligned := access.aligned
  obtain rfl | rfl | rfl := access.len_cases
  · change reg.toNat % 1 = 0 at aligned
    change reg.toNat % 4 + 1 ≤ 4 ∧ (_ → 1 ≤ _)
    omega
  · change reg.toNat % 2 = 0 at aligned
    change reg.toNat % 4 + 2 ≤ 4 ∧ (_ → 2 ≤ _)
    omega
  · change reg.toNat % 4 = 0 at aligned
    change reg.toNat % 4 + 4 ≤ 4 ∧ (_ → 4 ≤ _)
    omega

end Access

-----------------------------------------------------------------------------------------
-- The round trip
-----------------------------------------------------------------------------------------

/-- After the write the place reads as the value, and every other byte is as before. -/
structure PciRoundTrip (bus dev fn reg len : BitVec 8) (value : BitVec 32) (pci : PciPorts)
    (after : PciPorts)
    : Prop where
  read : ∃ result, (pciDirectRead bus dev fn reg len after).1 = some result
    ∧ result.toNat = value.toNat % 2 ^ (8 * len.toNat)
  others : ∀ other < 2 ^ 24, other < pciPlace bus dev fn reg
      ∨ pciPlace bus dev fn reg + len.toNat ≤ other →
    configByte after.space other = configByte pci.space other

/-- The register is at the bottom of its dword, or the place and the bottom both hold the value
already.
-/
def PciCondition (bus dev fn reg len : BitVec 8) (value : BitVec 32) (pci : PciPorts) : Prop :=
  reg.toNat % 4 = 0
  ∨ ∀ k < len.toNat, configByte pci.space (pciPlace bus dev fn reg + k) = byteOf value k
    ∧ configByte pci.space (pciPlace bus dev fn reg - reg.toNat % 4 + k) = byteOf value k

section RoundTrip

variable {bus dev fn reg len : BitVec 8} {pci : PciPorts} {value : BitVec 32}

theorem pciPlace_mod (bus dev fn reg : BitVec 8)
    : pciPlace bus dev fn reg % 4 = reg.toNat % 4 := by
  rw [pciPlace]
  omega

theorem pciPlace_lt (bus reg : BitVec 8) (dev_ : dev.toNat < 32) (fn_ : fn.toNat < 8)
    : pciPlace bus dev fn reg < 2 ^ 24 := by
  have busBound : bus.toNat < 256 := bus.isLt
  have regBound : reg.toNat < 256 := reg.isLt
  rw [pciPlace]
  omega

/-- The bytes of the dword of a place. -/
theorem configByte_dword {space : BitVec 22 → BitVec 32} {k : Nat} (less : k < 4)
    : configByte space (pciPlace bus dev fn reg - reg.toNat % 4 + k)
      = byteOf (space (pciDword bus dev fn reg)) k := by
  have offset := pciPlace_mod bus dev fn reg
  rw [configByte, pciDword, show (pciPlace bus dev fn reg - reg.toNat % 4 + k) / 4
      = pciPlace bus dev fn reg / 4 by omega,
    show (pciPlace bus dev fn reg - reg.toNat % 4 + k) % 4 = k by omega]

/-- The value is read back exactly if its bytes stand at the place. -/
theorem read_value_iff (access : PciAccess dev fn reg len)
    : (∃ result, (pciDirectRead bus dev fn reg len pci).1 = some result
        ∧ result.toNat = value.toNat % 2 ^ (8 * len.toNat))
      ↔ ∀ k < len.toNat, byteOf (pci.space (pciDword bus dev fn reg)) (reg.toNat % 4 + k)
          = byteOf value k := by
  rw [← shifted_eq_iff access.len_le, pciDirectRead_eq access]
  constructor
  · rintro ⟨result, read, same⟩
    apply BitVec.eq_of_toNat_eq
    rw [Option.some.inj read, same, toNat_masked access.len_le]
  · intro same
    exact ⟨_, rfl, by rw [same, toNat_masked access.len_le]⟩

/-- The other dwords are not written. -/
theorem configByte_other (access : PciAccess dev fn reg len) {other : Nat} (less : other < 2 ^ 24)
    (apart : other / 4 ≠ pciPlace bus dev fn reg / 4)
    : configByte (pciDirectWrite bus dev fn reg len value pci).2.space other
      = configByte pci.space other := by
  have bound := pciPlace_lt bus reg access.dev_lt access.fn_lt
  have different : BitVec.ofNat 22 (other / 4) ≠ pciDword bus dev fn reg := by
    intro same
    have numbers := congrArg BitVec.toNat same
    rw [pciDword, BitVec.toNat_ofNat, BitVec.toNat_ofNat] at numbers
    omega
  rw [configByte, pciDirectWrite_eq access, Function.update_of_ne different, configByte]

/-- What is written is read back, and nothing else changes, exactly at the bottom of a dword or
where the value stands already.
-/
theorem pci_round_trip_iff (pci : PciPorts) (value : BitVec 32)
    (access : PciAccess dev fn reg len)
    : PciRoundTrip bus dev fn reg len value pci
        (pciDirectWrite bus dev fn reg len value pci).2
      ↔ PciCondition bus dev fn reg len value pci := by
  have offset := pciPlace_mod bus dev fn reg
  have bound := pciPlace_lt bus reg access.dev_lt access.fn_lt
  obtain ⟨fits, room⟩ := access.inside
  have written : (pciDirectWrite bus dev fn reg len value pci).2.space (pciDword bus dev fn reg)
      = putMasked (pci.space (pciDword bus dev fn reg)) value (byteMask len.toNat) := by
    rw [pciDirectWrite_eq access, Function.update_self]
  have at_place (k : Nat) (less : k < len.toNat)
      : configByte pci.space (pciPlace bus dev fn reg + k)
        = byteOf (pci.space (pciDword bus dev fn reg)) (reg.toNat % 4 + k) := by
    rw [← configByte_dword (by omega)]
    congr 1
    omega
  constructor
  · intro trip
    by_cases bottom : reg.toNat % 4 = 0
    · exact .inl bottom
    · refine .inr fun k less => ⟨?_, ?_⟩
      · have read := (read_value_iff access).mp trip.read k less
        rw [written, byteOf_putMasked (by omega), if_neg (by omega)] at read
        rw [at_place k less, read]
      · have below := room bottom
        have kept := trip.others (pciPlace bus dev fn reg - reg.toNat % 4 + k) (by omega)
          (.inl (by omega))
        rw [configByte_dword (by omega), configByte_dword (by omega), written,
          byteOf_putMasked (by omega), if_pos less] at kept
        rw [configByte_dword (by omega), kept]
  · intro condition
    constructor
    case read =>
      rw [read_value_iff access, written]
      intro k less
      rw [byteOf_putMasked (by omega)]
      by_cases bottom : reg.toNat % 4 = 0
      · rw [bottom, Nat.zero_add, if_pos less]
      · have below := room bottom
        have stands := (condition.resolve_left bottom k less).1
        rw [if_neg (by omega), ← at_place k less, stands]
    case others =>
      intro other less outside
      by_cases same : other / 4 = pciPlace bus dev fn reg / 4
      · have here : other = pciPlace bus dev fn reg - reg.toNat % 4 + other % 4 := by omega
        have inside : other % 4 < 4 := Nat.mod_lt other (by decide)
        rw [here, configByte_dword inside, configByte_dword inside, written,
          byteOf_putMasked inside]
        split
        case isFalse => rfl
        case isTrue low =>
          by_cases bottom : reg.toNat % 4 = 0
          · omega
          · have stands := (condition.resolve_left bottom (other % 4) low).2
            rw [← stands, configByte_dword inside]
      · exact configByte_other access less same

end RoundTrip

theorem pci_round_trip_command
    : PciRoundTrip 0 0 0 4 2 7 ⟨0, fun _ => 0⟩ (pciDirectWrite 0 0 0 4 2 7 ⟨0, fun _ => 0⟩).2 := by
  have access : PciAccess 0 0 4 2 := ⟨by decide, by decide, .inr (.inl rfl), by decide⟩
  exact (pci_round_trip_iff _ _ access).mpr (.inl rfl)

/-- A write to the status register goes to the command register below it. -/
theorem pci_round_trip_status
    : ¬ PciRoundTrip 0 0 0 6 2 7 ⟨0, fun _ => 0⟩
        (pciDirectWrite 0 0 0 6 2 7 ⟨0, fun _ => 0⟩).2 := by
  intro trip
  obtain ⟨result, read, value⟩ := trip.read
  have zero : (pciDirectRead 0 0 0 6 2 (pciDirectWrite 0 0 0 6 2 7 ⟨0, fun _ => 0⟩).2).1
      = some 0 := by
    decide +kernel
  rw [← Option.some.inj (zero.symm.trans read)] at value
  exact absurd value (by decide)

end DeadKernel
