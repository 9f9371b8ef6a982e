import DeadKernel.Drivers.Pci

/-! The two scans of the PCI buses. `PCIDirectFindClass` counts the buses in eight bits, which never
reach 256, and leaves the device that it should fill in as `memset` left it.
-/

namespace DeadKernel

-----------------------------------------------------------------------------------------
-- Functions and devices
-----------------------------------------------------------------------------------------

structure PciFunction where
  bus : BitVec 8
  dev : BitVec 8
  fn : BitVec 8
deriving DecidableEq

structure PciDevice where
  vendor : BitVec 16
  device : BitVec 16
  classCode : BitVec 32
  baseAddr : BitVec 32
  bus : BitVec 8
  dev : BitVec 8
  fn : BitVec 8

def PciDevice.function (device : PciDevice) : PciFunction := ⟨device.bus, device.dev, device.fn⟩

def pciGetVendorID (f : PciFunction) (pci : PciPorts) : BitVec 16 × PciPorts :=
  let (value, pci) := pciDirectRead f.bus f.dev f.fn 0x00 2 pci
  ((value.getD 0).setWidth 16, pci)

def pciGetDeviceID (f : PciFunction) (pci : PciPorts) : BitVec 16 × PciPorts :=
  let (value, pci) := pciDirectRead f.bus f.dev f.fn 0x02 2 pci
  ((value.getD 0).setWidth 16, pci)

def pciGetClassCode (f : PciFunction) (pci : PciPorts) : BitVec 32 × PciPorts :=
  let (value, pci) := pciDirectRead f.bus f.dev f.fn 0x08 4 pci
  (value.getD 0 >>> 8, pci)

/-- The functions of a bus in the order of the two inner loops. -/
def busFunctions (bus : BitVec 8) : List PciFunction :=
  (List.range 32).flatMap fun dev =>
    (List.range 8).map fun fn => ⟨bus, BitVec.ofNat 8 dev, BitVec.ofNat 8 fn⟩

def pciFunctions : List PciFunction :=
  (List.range 256).flatMap fun bus => busFunctions (BitVec.ofNat 8 bus)

-----------------------------------------------------------------------------------------
-- PCIDirectFindClass and PCIDirectScan
-----------------------------------------------------------------------------------------

abbrev pciOpSucc : BitVec 32 := 1
abbrev pciOpFail : BitVec 32 := 0

/-- The two inner loops of `PCIDirectFindClass`, which return at the first match. -/
def findInFunctions (classCode : BitVec 32) : List PciFunction → PciPorts → Bool × PciPorts
  | [], pci => (false, pci)
  | f :: rest, pci =>
      let (code, pci) := pciGetClassCode f pci
      if code = classCode then (true, pci) else findInFunctions classCode rest pci

/-- The outer loop, with a bound on its rounds; no result stands for too few. -/
def findClassLoop (classCode : BitVec 32)
    : Nat → BitVec 8 → PciPorts → Option (BitVec 32 × PciPorts)
  | 0, _, _ => none
  | fuel + 1, bus, pci =>
      if bus.toNat < 256 then
        let (found, pci) := findInFunctions classCode (busFunctions bus) pci
        if found then some (pciOpSucc, pci) else findClassLoop classCode fuel (bus + 1) pci
      else some (pciOpFail, pci)

/-- The status, `*pd` and the ports. -/
def pciDirectFindClass (fuel : Nat) (classCode : BitVec 32) (pci : PciPorts)
    : Option (BitVec 32 × PciDevice × PciPorts) :=
  let pd : PciDevice := ⟨0, 0, 0, 0, 0, 0, 0⟩
  (findClassLoop classCode fuel 0 pci).map fun (status, pci) => (status, pd, pci)

/-- The loops of `PCIDirectScan` over the functions that are left: the devices that are filled in
from the index `counter` on.
-/
def scanFunctions (devices : Nat → PciDevice)
    : List PciFunction → Nat → PciPorts → List PciDevice × PciPorts
  | [], _, pci => ([], pci)
  | f :: rest, counter, pci =>
      let (vendorID, pci) := pciGetVendorID f pci
      if vendorID ≠ 0xFFFF then
        let (deviceID, pci) := pciGetDeviceID f pci
        let (code, pci) := pciGetClassCode f pci
        let device := { devices counter with
          vendor := vendorID, device := deviceID, classCode := code
          bus := f.bus, dev := f.dev, fn := f.fn }
        let (later, pci) := scanFunctions devices rest (counter + 1) pci
        (device :: later, pci)
      else scanFunctions devices rest counter pci

/-- The devices that are listed; their number is returned. -/
def pciDirectScan (devices : Nat → PciDevice) (pci : PciPorts) : List PciDevice × PciPorts :=
  scanFunctions devices pciFunctions 0 pci

-----------------------------------------------------------------------------------------
-- What the functions report
-----------------------------------------------------------------------------------------

abbrev ConfigSpace := BitVec 22 → BitVec 32

def classCodeOf (space : ConfigSpace) (f : PciFunction) : BitVec 32 :=
  space (pciDword f.bus f.dev f.fn 8) >>> 8

def vendorOf (space : ConfigSpace) (f : PciFunction) : BitVec 16 :=
  (space (pciDword f.bus f.dev f.fn 0)).setWidth 16

/-- The numbers that a function can have on its bus. -/
structure PciFunction.InRange (f : PciFunction) : Prop where
  dev_lt : f.dev.toNat < 32
  fn_lt : f.fn.toNat < 8

section Reports

variable {bus dev fn reg len : BitVec 8} {f : PciFunction} {pci : PciPorts}

theorem pciDirectRead_space : (pciDirectRead bus dev fn reg len pci).2.space = pci.space := by
  rw [pciDirectRead]
  dsimp only
  split_ifs <;> rfl

theorem PciFunction.InRange.access (inRange : f.InRange)
    (len_cases : len = 1 ∨ len = 2 ∨ len = 4) (aligned : reg.toNat % len.toNat = 0)
    : PciAccess f.dev f.fn reg len :=
  ⟨inRange.dev_lt, inRange.fn_lt, len_cases, aligned⟩

theorem pciGetClassCode_eq (inRange : f.InRange)
    : (pciGetClassCode f pci).1 = classCodeOf pci.space f := by
  have access : PciAccess f.dev f.fn 8 4 := inRange.access (.inr (.inr rfl)) rfl
  have all : byteMask 4 = BitVec.allOnes 32 := by decide
  rw [pciGetClassCode]
  dsimp only
  rw [pciDirectRead_eq access, Option.getD_some, show (4 : BitVec 8).toNat = 4 from rfl, all,
    BitVec.and_allOnes]
  rfl

theorem pciGetVendorID_eq (inRange : f.InRange)
    : (pciGetVendorID f pci).1 = vendorOf pci.space f := by
  have access : PciAccess f.dev f.fn 0 2 := inRange.access (.inr (.inl rfl)) rfl
  rw [pciGetVendorID]
  dsimp only
  rw [pciDirectRead_eq access, Option.getD_some]
  apply BitVec.eq_of_toNat_eq
  rw [BitVec.toNat_setWidth, toNat_masked (by decide), vendorOf, BitVec.toNat_setWidth]
  exact Nat.mod_mod _ _

theorem busFunctions_inRange {bus : BitVec 8} (mem : f ∈ busFunctions bus) : f.InRange := by
  simp only [busFunctions, List.mem_flatMap, List.mem_map, List.mem_range] at mem
  obtain ⟨dev, devBound, fn, fnBound, rfl⟩ := mem
  constructor
  · exact (Nat.mod_le dev _).trans_lt devBound
  · exact (Nat.mod_le fn _).trans_lt fnBound

theorem bus_busFunctions {bus : BitVec 8} (mem : f ∈ busFunctions bus) : f.bus = bus := by
  simp only [busFunctions, List.mem_flatMap, List.mem_map] at mem
  obtain ⟨dev, -, fn, -, rfl⟩ := mem
  rfl

theorem mem_pciFunctions : f ∈ pciFunctions ↔ f ∈ busFunctions f.bus := by
  simp only [pciFunctions, List.mem_flatMap, List.mem_range]
  constructor
  · rintro ⟨bus, -, mem⟩
    rwa [bus_busFunctions mem]
  · intro mem
    exact ⟨f.bus.toNat, f.bus.isLt, by rwa [BitVec.ofNat_toNat, BitVec.setWidth_eq]⟩

end Reports

-----------------------------------------------------------------------------------------
-- The search by class code
-----------------------------------------------------------------------------------------

section Finding

variable {classCode : BitVec 32} {pci : PciPorts}

theorem pciGetClassCode_space {f : PciFunction} : (pciGetClassCode f pci).2.space = pci.space :=
  pciDirectRead_space

theorem pciGetVendorID_space {f : PciFunction} : (pciGetVendorID f pci).2.space = pci.space :=
  pciDirectRead_space

theorem pciGetDeviceID_space {f : PciFunction} : (pciGetDeviceID f pci).2.space = pci.space :=
  pciDirectRead_space

/-- The inner loops find out whether some function of the bus reports the class. -/
theorem findInFunctions_spec (classCode : BitVec 32) (functions : List PciFunction)
    (inRange : ∀ f ∈ functions, f.InRange) (pci : PciPorts)
    : ((findInFunctions classCode functions pci).1 = true
        ↔ ∃ f ∈ functions, classCodeOf pci.space f = classCode)
      ∧ (findInFunctions classCode functions pci).2.space = pci.space := by
  induction functions generalizing pci with
  | nil => exact ⟨by simp [findInFunctions], rfl⟩
  | cons f rest ih =>
      have code : (pciGetClassCode f pci).1 = classCodeOf pci.space f :=
        pciGetClassCode_eq (inRange f List.mem_cons_self)
      obtain ⟨found, space⟩ := ih (fun other mem => inRange other (List.mem_cons_of_mem f mem))
        (pciGetClassCode f pci).2
      rw [pciGetClassCode_space] at found space
      rw [findInFunctions]
      dsimp only
      rw [code, List.exists_mem_cons_iff]
      split
      case isTrue same => exact ⟨iff_of_true rfl (.inl same), pciGetClassCode_space⟩
      case isFalse other => exact ⟨found.trans (or_iff_right other).symm, space⟩

/-- A round of the outer loop ends the search at a bus with the class, and goes on otherwise: the
test of the loop is always true.
-/
theorem findClassLoop_round (classCode : BitVec 32) (bus : BitVec 8) (pci : PciPorts)
    : ∃ after : PciPorts, after.space = pci.space ∧ ∀ fuel,
        ((∃ f ∈ busFunctions bus, classCodeOf pci.space f = classCode) →
          findClassLoop classCode (fuel + 1) bus pci = some (pciOpSucc, after))
        ∧ ((¬ ∃ f ∈ busFunctions bus, classCodeOf pci.space f = classCode) →
          findClassLoop classCode (fuel + 1) bus pci
            = findClassLoop classCode fuel (bus + 1) after) := by
  obtain ⟨found, space⟩ := findInFunctions_spec classCode (busFunctions bus)
    (fun f mem => busFunctions_inRange mem) pci
  refine ⟨_, space, fun fuel => ⟨fun some => ?_, fun none_ => ?_⟩⟩
  · rw [findClassLoop, if_pos bus.isLt]
    exact if_pos (found.mpr some)
  · rw [findClassLoop, if_pos bus.isLt]
    exact if_neg fun yes => none_ (found.mp yes)

/-- Without a function of the class the buses are gone through again and again. -/
theorem findClassLoop_none (missing : ∀ f ∈ pciFunctions, classCodeOf pci.space f ≠ classCode)
    (fuel : Nat) (bus : BitVec 8)
    : findClassLoop classCode fuel bus pci = none := by
  induction fuel generalizing bus pci with
  | zero => rfl
  | succ fuel ih =>
      obtain ⟨after, space, round⟩ := findClassLoop_round classCode bus pci
      rw [(round fuel).2]
      · exact ih (space ▸ missing) (bus + 1)
      · rintro ⟨f, mem, reports⟩
        exact missing f (mem_pciFunctions.mpr (bus_busFunctions mem ▸ mem)) reports

/-- With a function of the class the search reaches its bus. -/
theorem findClassLoop_some (distance : Nat) (bus : BitVec 8)
    (reports : ∃ f ∈ busFunctions (bus + BitVec.ofNat 8 distance),
      classCodeOf pci.space f = classCode)
    : ∃ fuel after, findClassLoop classCode fuel bus pci = some (pciOpSucc, after) := by
  induction distance generalizing bus pci with
  | zero =>
      obtain ⟨after, -, round⟩ := findClassLoop_round classCode bus pci
      rw [show bus + BitVec.ofNat 8 0 = bus from BitVec.add_zero bus] at reports
      exact ⟨1, after, (round 0).1 reports⟩
  | succ distance ih =>
      obtain ⟨between, space, round⟩ := findClassLoop_round classCode bus pci
      by_cases here : ∃ f ∈ busFunctions bus, classCodeOf pci.space f = classCode
      · exact ⟨1, between, (round 0).1 here⟩
      · rw [Nat.add_comm, BitVec.ofNat_add, ← BitVec.add_assoc, ← space] at reports
        obtain ⟨fuel, after, ends⟩ := ih (bus + 1) reports
        exact ⟨fuel + 1, after, ((round fuel).2 here).trans ends⟩

/-- The search ends exactly if some function reports the class. -/
theorem pciDirectFindClass_ends_iff
    : (∃ fuel result, pciDirectFindClass fuel classCode pci = some result)
      ↔ ∃ f ∈ pciFunctions, classCodeOf pci.space f = classCode := by
  constructor
  · rintro ⟨fuel, result, ends⟩
    by_contra missing
    have none_ := findClassLoop_none (fun f mem reports => missing ⟨f, mem, reports⟩) fuel 0
    rw [pciDirectFindClass, none_] at ends
    exact absurd ends (Option.some_ne_none result).symm
  · rintro ⟨f, mem, reports⟩
    obtain ⟨fuel, after, ends⟩ := findClassLoop_some f.bus.toNat 0 ⟨f, by
      rw [BitVec.ofNat_toNat, BitVec.setWidth_eq, show 0 + f.bus = f.bus from BitVec.zero_add _]
      exact mem_pciFunctions.mp mem, reports⟩
    exact ⟨fuel, _, congrArg (Option.map _) ends⟩

end Finding

-----------------------------------------------------------------------------------------
-- The first function of a class
-----------------------------------------------------------------------------------------

/-- The first function with the class in scan order. -/
def firstOfClass (space : ConfigSpace) (classCode : BitVec 32) : Option PciFunction :=
  pciFunctions.find? fun f => classCodeOf space f = classCode

/-- The status tells whether there is a function of the class, and `pd` has the numbers of the first
one, which `PCIDirectScan` lists first with the class unless it has no vendor.
-/
structure FindsClass (classCode : BitVec 32) (pci : PciPorts) (status : BitVec 32)
    (pd : PciDevice)
    : Prop where
  status : status = pciOpSucc ↔ ∃ f ∈ pciFunctions, classCodeOf pci.space f = classCode
  first : ∀ f, firstOfClass pci.space classCode = some f → pd.function = f
  listed : ∀ f, firstOfClass pci.space classCode = some f → vendorOf pci.space f ≠ 0xFFFF →
    ∀ devices, (((pciDirectScan devices pci).1.find? fun device => device.classCode = classCode).map
      PciDevice.function) = some pd.function

section Scanning

variable {classCode : BitVec 32} {pci : PciPorts}

/-- The first device of a class in the list is the first function with the class and a vendor. -/
theorem scanFunctions_first (devices : Nat → PciDevice) (functions : List PciFunction)
    (inRange : ∀ f ∈ functions, f.InRange) (counter : Nat) (pci : PciPorts)
    : ((scanFunctions devices functions counter pci).1.find?
        fun device => device.classCode = classCode).map PciDevice.function
      = functions.find? fun f =>
          vendorOf pci.space f ≠ 0xFFFF ∧ classCodeOf pci.space f = classCode := by
  induction functions generalizing counter pci with
  | nil => rfl
  | cons f rest ih =>
      have vendor : (pciGetVendorID f pci).1 = vendorOf pci.space f :=
        pciGetVendorID_eq (inRange f List.mem_cons_self)
      have later := ih fun other mem => inRange other (List.mem_cons_of_mem f mem)
      rw [scanFunctions]
      dsimp only
      rw [vendor, List.find?_cons]
      split
      case isTrue some =>
        have code : (pciGetClassCode f (pciGetDeviceID f (pciGetVendorID f pci).2).2).1
            = classCodeOf pci.space f := by
          rw [pciGetClassCode_eq (inRange f List.mem_cons_self), pciGetDeviceID_space,
            pciGetVendorID_space]
        rw [List.find?_cons, code]
        by_cases same : classCodeOf pci.space f = classCode
        · rw [decide_eq_true same, decide_eq_true ⟨some, same⟩]
          rfl
        · rw [decide_eq_false same, decide_eq_false fun both => same both.2]
          dsimp only
          rw [later, pciGetClassCode_space, pciGetDeviceID_space, pciGetVendorID_space]
      case isFalse none_ =>
        rw [decide_eq_false fun both => none_ both.1, later, pciGetVendorID_space]

/-- A first function with a vendor is listed first. -/
theorem pciDirectScan_first {f : PciFunction} (devices : Nat → PciDevice)
    (first : firstOfClass pci.space classCode = some f) (vendor : vendorOf pci.space f ≠ 0xFFFF)
    : ((pciDirectScan devices pci).1.find? fun device => device.classCode = classCode).map
        PciDevice.function = some f := by
  rw [pciDirectScan, scanFunctions_first devices pciFunctions fun f mem =>
    busFunctions_inRange (mem_pciFunctions.mp mem)]
  obtain ⟨code, front, back, split, before⟩ := List.find?_eq_some_iff_append.mp first
  refine List.find?_eq_some_iff_append.mpr ⟨?_, front, back, split, fun other mem => ?_⟩
  · exact decide_eq_true ⟨vendor, of_decide_eq_true code⟩
  · have skipped := before other mem
    simp only [Bool.not_eq_true', decide_eq_false_iff_not] at skipped ⊢
    exact fun both => skipped both.2

theorem pciFunctions_head : ∃ rest, pciFunctions = ⟨0, 0, 0⟩ :: rest := ⟨pciFunctions.tail, rfl⟩

/-- No place is ever filled in. -/
theorem function_of_ends {fuel : Nat} {status : BitVec 32} {pd : PciDevice} {after : PciPorts}
    (ends : pciDirectFindClass fuel classCode pci = some (status, pd, after))
    : pd.function = ⟨0, 0, 0⟩ := by
  obtain ⟨found, -, same⟩ := Option.map_eq_some_iff.mp ends
  obtain ⟨-, rfl, -⟩ : _ ∧ _ ∧ _ := by simpa only [Prod.mk.injEq] using same
  rfl

/-- The search finds the class properly exactly if the very first function reports it: it does not
end if no function does, and it never fills in another place.
-/
theorem pciDirectFindClass_iff (pci : PciPorts) (classCode : BitVec 32)
    : (∃ fuel status pd after, pciDirectFindClass fuel classCode pci = some (status, pd, after)
        ∧ FindsClass classCode pci status pd)
      ↔ classCodeOf pci.space ⟨0, 0, 0⟩ = classCode := by
  obtain ⟨rest, functions⟩ := pciFunctions_head
  constructor
  · rintro ⟨fuel, status, pd, after, ends, finds⟩
    obtain ⟨f, mem, reports⟩ := pciDirectFindClass_ends_iff.mp ⟨fuel, _, ends⟩
    cases found : firstOfClass pci.space classCode with
    | none =>
        have skipped := List.find?_eq_none.mp found f mem
        exact absurd (decide_eq_true reports) skipped
    | some first =>
        have place := (function_of_ends ends).symm.trans (finds.first first found)
        obtain ⟨reported, -⟩ := List.find?_eq_some_iff_append.mp found
        rw [place]
        exact of_decide_eq_true reported
  · intro reports
    have found : firstOfClass pci.space classCode = some ⟨0, 0, 0⟩ := by
      rw [firstOfClass, functions, List.find?_cons, decide_eq_true reports]
    have mem : (⟨0, 0, 0⟩ : PciFunction) ∈ pciFunctions := functions ▸ List.mem_cons_self
    obtain ⟨after, -, round⟩ := findClassLoop_round classCode 0 pci
    have ends : findClassLoop classCode 1 0 pci = some (pciOpSucc, after) :=
      (round 0).1 ⟨_, mem_pciFunctions.mp mem, reports⟩
    refine ⟨1, pciOpSucc, ⟨0, 0, 0, 0, 0, 0, 0⟩, after, congrArg (Option.map _) ends, ?_⟩
    constructor
    case status => exact iff_of_true rfl ⟨_, mem, reports⟩
    case first =>
      intro f first
      exact Option.some.inj (found.symm.trans first)
    case listed =>
      intro f first vendor devices
      rw [pciDirectScan_first devices first vendor, ← first, found]
      rfl

end Scanning

/-- A host bridge at 0:0.0, and an IDE controller at 0:1.1. -/
def bridgeAndIde : PciPorts where
  address := 0
  space dword :=
    if dword = pciDword 0 0 0 8 then 0x06000000
    else if dword = pciDword 0 1 1 8 then 0x01018000
    else 0xFFFFFFFF

/-- The search for the IDE controller ends, and says that it is at 0:0.0. -/
theorem pciDirectFindClass_ide
    : ¬ ∃ fuel status pd after,
        pciDirectFindClass fuel 0x010180 bridgeAndIde = some (status, pd, after)
        ∧ FindsClass 0x010180 bridgeAndIde status pd := by
  rintro ⟨fuel, status, pd, after, ends, finds⟩
  have first : firstOfClass bridgeAndIde.space 0x010180 = some ⟨0, 1, 1⟩ := by decide +kernel
  have place := (function_of_ends ends).symm.trans (finds.first _ first)
  exact absurd place (by decide)

-----------------------------------------------------------------------------------------
-- The list of all functions
-----------------------------------------------------------------------------------------

def deviceOf (space : ConfigSpace) (f : PciFunction) : BitVec 16 :=
  (space (pciDword f.bus f.dev f.fn 2) >>> 16).setWidth 16

/-- The functions that have a vendor, in the order of the loops. -/
def presentFunctions (space : ConfigSpace) (functions : List PciFunction) : List PciFunction :=
  functions.filter fun f => vendorOf space f ≠ 0xFFFF

/-- An entry of the list: the numbers and the answers of a function, and what the caller's buffer
held before where nothing is filled in.
-/
def listedDevice (space : ConfigSpace) (before : PciDevice) (f : PciFunction) : PciDevice :=
  { before with
    vendor := vendorOf space f, device := deviceOf space f, classCode := classCodeOf space f
    bus := f.bus, dev := f.dev, fn := f.fn }

section Listing

variable {pci : PciPorts} {f : PciFunction}

theorem pciGetDeviceID_eq (inRange : f.InRange)
    : (pciGetDeviceID f pci).1 = deviceOf pci.space f := by
  have access : PciAccess f.dev f.fn 2 2 := inRange.access (.inr (.inl rfl)) rfl
  rw [pciGetDeviceID]
  dsimp only
  rw [pciDirectRead_eq access, Option.getD_some]
  apply BitVec.eq_of_toNat_eq
  rw [BitVec.toNat_setWidth, toNat_masked (by decide), deviceOf, BitVec.toNat_setWidth]
  exact Nat.mod_mod _ _

/-- The scan lists the functions with a vendor one behind the other, by induction on the functions
that are left.
-/
theorem scanFunctions_eq (devices : Nat → PciDevice) (functions : List PciFunction)
    (inRange : ∀ f ∈ functions, f.InRange) (counter : Nat) (pci : PciPorts)
    : (scanFunctions devices functions counter pci).1
        = (presentFunctions pci.space functions).mapIdx fun i f =>
          listedDevice pci.space (devices (counter + i)) f := by
  induction functions generalizing counter pci with
  | nil => rfl
  | cons f rest ih =>
      have here := inRange f List.mem_cons_self
      have later := ih fun other mem => inRange other (List.mem_cons_of_mem f mem)
      rw [scanFunctions, presentFunctions, List.filter_cons]
      dsimp only
      rw [pciGetVendorID_eq here]
      by_cases present : vendorOf pci.space f ≠ 0xFFFF
      · rw [if_pos present, if_pos (decide_eq_true present), List.mapIdx_cons, later,
          pciGetClassCode_space, pciGetDeviceID_space, pciGetVendorID_space,
          pciGetClassCode_eq here, pciGetDeviceID_eq here, pciGetDeviceID_space,
          pciGetVendorID_space]
        simp only [presentFunctions, listedDevice, Nat.add_zero, Nat.add_assoc, Nat.add_comm 1]
      · rw [if_neg present, if_neg (by simpa using present), later, pciGetVendorID_space]
        rfl

theorem scanFunctions_space (devices : Nat → PciDevice) (functions : List PciFunction)
    (counter : Nat) (pci : PciPorts)
    : (scanFunctions devices functions counter pci).2.space = pci.space := by
  induction functions generalizing counter pci with
  | nil => rfl
  | cons f rest ih =>
      rw [scanFunctions]
      dsimp only
      split_ifs
      · rw [ih, pciGetClassCode_space, pciGetDeviceID_space, pciGetVendorID_space]
      · rw [ih, pciGetVendorID_space]

theorem mem_pciFunctions_iff : f ∈ pciFunctions ↔ f.InRange := by
  rw [mem_pciFunctions]
  constructor
  · exact busFunctions_inRange
  · intro inRange
    simp only [busFunctions, List.mem_flatMap, List.mem_map, List.mem_range]
    refine ⟨f.dev.toNat, inRange.dev_lt, f.fn.toNat, inRange.fn_lt, ?_⟩
    rw [BitVec.ofNat_toNat, BitVec.ofNat_toNat, BitVec.setWidth_eq, BitVec.setWidth_eq]

/-- The order of the loops. -/
def PciFunction.Before (f other : PciFunction) : Prop :=
  pciPlace f.bus f.dev f.fn 0 < pciPlace other.bus other.dev other.fn 0

theorem busFunctions_ordered (bus : BitVec 8) : (busFunctions bus).Pairwise PciFunction.Before := by
  rw [busFunctions, List.pairwise_flatMap]
  constructor
  · intro dev _
    rw [List.pairwise_map]
    refine List.pairwise_lt_range.imp_of_mem fun {fn other} _ mem less => ?_
    have small := List.mem_range.mp mem
    simp only [PciFunction.Before, pciPlace, BitVec.toNat_ofNat]
    omega
  · refine List.pairwise_lt_range.imp_of_mem fun {dev other} _ mem less => ?_
    have small := List.mem_range.mp mem
    intro f inDev g inOther
    obtain ⟨fn, fnBound, rfl⟩ := List.mem_map.mp inDev
    obtain ⟨fn', -, rfl⟩ := List.mem_map.mp inOther
    have bound := List.mem_range.mp fnBound
    simp only [PciFunction.Before, pciPlace, BitVec.toNat_ofNat]
    omega

/-- The functions are gone through in the order of their numbers, each once. -/
theorem pciFunctions_ordered : pciFunctions.Pairwise PciFunction.Before := by
  rw [pciFunctions, List.pairwise_flatMap]
  constructor
  · intro bus _
    exact busFunctions_ordered _
  · refine List.pairwise_lt_range.imp_of_mem fun {bus other} _ mem less => ?_
    have small := List.mem_range.mp mem
    intro f inBus g inOther
    have inRange := busFunctions_inRange inBus
    have devBound := inRange.dev_lt
    have fnBound := inRange.fn_lt
    simp only [PciFunction.Before, pciPlace, bus_busFunctions inBus, bus_busFunctions inOther,
      BitVec.toNat_ofNat]
    omega

theorem mem_presentFunctions {space : ConfigSpace}
    : f ∈ presentFunctions space pciFunctions ↔ f.InRange ∧ vendorOf space f ≠ 0xFFFF := by
  rw [presentFunctions, List.mem_filter, mem_pciFunctions_iff, decide_eq_true_eq]

/-- The scan lists exactly the functions with a vendor, in order and each once, with what they
report. Of an entry of the caller's buffer the base address stays what it was.
-/
theorem pciDirectScan_lists (devices : Nat → PciDevice) (pci : PciPorts)
    : ∃ listed : List PciFunction,
        (pciDirectScan devices pci).1
          = listed.mapIdx (fun i f => listedDevice pci.space (devices i) f)
        ∧ (∀ f, f ∈ listed ↔ f.InRange ∧ vendorOf pci.space f ≠ 0xFFFF)
        ∧ listed.Pairwise PciFunction.Before
        ∧ (pciDirectScan devices pci).2.space = pci.space := by
  have inRange : ∀ f ∈ pciFunctions, f.InRange := fun f mem => mem_pciFunctions_iff.mp mem
  have list := scanFunctions_eq devices pciFunctions inRange 0 pci
  simp only [Nat.zero_add] at list
  exact ⟨presentFunctions pci.space pciFunctions, list, fun f => mem_presentFunctions,
    pciFunctions_ordered.filter _, scanFunctions_space devices pciFunctions 0 pci⟩

end Listing

end DeadKernel
