import DeadKernel.Drivers.PciScan
import DeadKernel.Loading.LoadedImage
import DeadKernel.Multitasking.UserCopies

/-! The scan of the buses as a system call. The list is made in an array on the kernel's stack and
copied to the task from there, along with whatever the scan does not fill in.
-/

namespace DeadKernel

open Words

-----------------------------------------------------------------------------------------
-- Devices in memory
-----------------------------------------------------------------------------------------

def shortAt (mem : Mem) (address : Nat) : BitVec 16 :=
  (mem (address + 1)).toBitVec ++ (mem address).toBitVec

def longAt (mem : Mem) (address : Nat) : BitVec 32 :=
  shortAt mem (address + 2) ++ shortAt mem address

/-- A `PCIDevice_t` of 16 bytes, the last of which belongs to no field. -/
def deviceAt (mem : Mem) (address : Nat) : PciDevice where
  vendor := shortAt mem address
  device := shortAt mem (address + 2)
  classCode := longAt mem (address + 4)
  baseAddr := longAt mem (address + 8)
  bus := (mem (address + 12)).toBitVec
  dev := (mem (address + 13)).toBitVec
  fn := (mem (address + 14)).toBitVec

def wordByte {n : Nat} (word : BitVec n) (k : Nat) : UInt8 :=
  .ofBitVec (word.extractLsb' (8 * k) 8)

/-- The bytes that the scan stores in an entry. -/
def PciDevice.stored (device : PciDevice) : Nat → Option UInt8
  | 0 => some (wordByte device.vendor 0)
  | 1 => some (wordByte device.vendor 1)
  | 2 => some (wordByte device.device 0)
  | 3 => some (wordByte device.device 1)
  | 4 => some (wordByte device.classCode 0)
  | 5 => some (wordByte device.classCode 1)
  | 6 => some (wordByte device.classCode 2)
  | 7 => some (wordByte device.classCode 3)
  | 12 => some (wordByte device.bus 0)
  | 13 => some (wordByte device.dev 0)
  | 14 => some (wordByte device.fn 0)
  | _ => none

/-- Memory with the devices filled in from an address on. -/
def fillDevices (listed : List PciDevice) (devices : Nat) (mem : Mem) : Mem := fun address =>
  if address < devices then mem address
  else
    let stored := listed[(address - devices) / 16]?.bind fun device =>
      device.stored ((address - devices) % 16)
    stored.getD (mem address)

/-- `user_PCIDirectScan`, with its array at `devices`. -/
def userPciDirectScan (userDevices devices : Nat) (pci : PciPorts) (ex : Execution)
    : Option (Nat × PciPorts × Execution) :=
  let memory := ex.system.memory
  let (listed, pci) := pciDirectScan (fun i => deviceAt memory.mem (devices + 16 * i)) pci
  let ex := ex.setMemory { memory with mem := fillDevices listed devices memory.mem }
  (copyToUser userDevices devices (16 * listed.length) ex).map fun ex =>
    (listed.length, pci, ex)

-----------------------------------------------------------------------------------------
-- Reading back
-----------------------------------------------------------------------------------------

section

variable {mem mem' : Mem} {listed : List PciDevice} {device : PciDevice}
variable {address address' devices i k : Nat}

theorem deviceAt_congr (same : ∀ k < 15, mem (address + k) = mem' (address' + k))
    : deviceAt mem address = deviceAt mem' address' := by
  have first : mem address = mem' address' := same 0 (by decide)
  simp only [deviceAt, longAt, shortAt, Nat.add_assoc, Nat.reduceAdd, first, same 1 (by decide),
    same 2 (by decide), same 3 (by decide), same 4 (by decide), same 5 (by decide),
    same 6 (by decide), same 7 (by decide), same 8 (by decide), same 9 (by decide),
    same 10 (by decide), same 11 (by decide), same 12 (by decide), same 13 (by decide),
    same 14 (by decide)]

theorem fillDevices_entry (found : listed[i]? = some device) (small : k < 16)
    : fillDevices listed devices mem (devices + 16 * i + k)
      = (device.stored k).getD (mem (devices + 16 * i + k)) := by
  have index : (devices + 16 * i + k - devices) / 16 = i := by omega
  have offset : (devices + 16 * i + k - devices) % 16 = k := by omega
  rw [fillDevices, if_neg (by omega)]
  dsimp only
  rw [index, offset, found, Option.bind_some]

theorem shortBytes (word : BitVec 16)
    : (wordByte word 1).toBitVec ++ (wordByte word 0).toBitVec = word :=
  BitVec.extractLsb'_append_extractLsb'

theorem longBytes (word : BitVec 32)
    : ((wordByte word 3).toBitVec ++ (wordByte word 2).toBitVec)
      ++ ((wordByte word 1).toBitVec ++ (wordByte word 0).toBitVec) = word := by
  simp only [wordByte, UInt8.toBitVec_ofBitVec]
  rw [BitVec.extractLsb'_append_extractLsb'_eq_extractLsb' (by rfl),
    BitVec.extractLsb'_append_extractLsb'_eq_extractLsb' (by rfl)]
  exact BitVec.extractLsb'_append_extractLsb'

theorem oneByte (word : BitVec 8) : (wordByte word 0).toBitVec = word := by
  simp only [wordByte, UInt8.toBitVec_ofBitVec, Nat.mul_zero, BitVec.extractLsb'_eq_self]

/-- What is filled in is read back, and the base address as it was. -/
theorem deviceAt_fillDevices (found : listed[i]? = some device)
    : deviceAt (fillDevices listed devices mem) (devices + 16 * i)
      = { device with baseAddr := longAt mem (devices + 16 * i + 8) } := by
  have first := @fillDevices_entry mem _ _ devices _ 0 found (by decide)
  have entry {k : Nat} (small : k < 16) := @fillDevices_entry mem _ _ devices _ _ found small
  simp only [deviceAt, longAt, shortAt, Nat.add_zero, Nat.add_assoc, Nat.reduceAdd]
    at first entry ⊢
  simp only [entry, first, Nat.reduceLT, PciDevice.stored, Option.getD_some, Option.getD_none,
    shortBytes, oneByte]
  simp only [PciDevice.mk.injEq, true_and, and_true]
  exact longBytes device.classCode

end

-----------------------------------------------------------------------------------------
-- What the task is given
-----------------------------------------------------------------------------------------

/-- The directory of the task that runs. -/
def Execution.taskDir (ex : Execution) : Nat :=
  (ex.system.tasking.tasks ex.system.tasking.currentTask).pageDir

/-- A buffer of the task that runs: its pages are present, and are among pages that show different
bytes at different addresses.
-/
structure TaskBuffer (pages : Nat → Prop) (ex : Execution) (start size : Nat) : Prop where
  fits : start + size ≤ wordSize
  separate : Separate pages ex.taskDir ex.system.memory
  inside : ∀ address, start ≤ address → address < start + size → pages (address / pageSize)
  present : ∀ address, start ≤ address → address < start + size →
    (ex.system.memory.entry ex.taskDir (address / pageSize)).present = true

section

variable {pages : Nat → Prop} {ex : Execution} {pci : PciPorts}
variable {userDevices devices ptr0 userPtr size : Nat}

/-- A copy to pages that are present comes back, by induction on the bytes. -/
theorem copyBytes_returns {source : Nat → UInt8} {len k dest : Nat} {st : Kernel}
    (present : ∀ j < len, (st.entry st.currentDir (u32 (dest + j) / pageSize)).present = true)
    (small : dest < wordSize)
    : ∃ st', copyBytes source len k dest st = some st' := by
  induction len generalizing k dest st with
  | zero => exact ⟨st, rfl⟩
  | succ len ih =>
      have first := present 0 (Nat.succ_pos len)
      rw [Nat.add_zero, u32_of_lt small] at first
      obtain ⟨mid, stored⟩ : ∃ mid, storeByte dest (source k) st = some mid := by
        apply Option.isSome_iff_exists.mp
        rw [storeByte, Kernel.translate]
        dsimp only
        rw [if_pos first]
        rfl
      obtain ⟨-, ram, rfl, -⟩ := storeByte_spec stored
      obtain ⟨st', rest⟩ := @ih (k + 1) (u32 (dest + 1)) { st with ram }
        (fun j below => by
          rw [u32_add, Nat.add_assoc, Nat.add_comm 1 j]
          exact present (j + 1) (Nat.succ_lt_succ below))
        (u32_lt _)
      exact ⟨st', Option.bind_eq_some_iff.mpr ⟨_, stored, rest⟩⟩

/-- A copy to a buffer changes its bytes and nothing else. -/
theorem copyToUser_content (buffer : TaskBuffer pages ex userPtr size)
    (room : ptr0 + size ≤ wordSize)
    : ∃ after, copyToUser userPtr ptr0 size ex = some after
        ∧ (∃ ram, after.system.memory = { ex.system.memory with ram })
        ∧ ∀ address, pages (address / pageSize) →
          after.system.memory.byteAt ex.taskDir address
            = if userPtr ≤ address ∧ address < userPtr + size
              then ex.system.memory.mem (ptr0 + (address - userPtr))
              else ex.system.memory.byteAt ex.taskDir address := by
  have fits := buffer.fits
  obtain ⟨memory, copied⟩ : ∃ memory,
      copyBytes (fun k => ex.system.memory.mem (u32 (ptr0 + k))) size 0 userPtr
        { ex.system.memory with currentDir := ex.taskDir } = some memory := by
    by_cases empty : size = 0
    · subst empty
      exact ⟨_, rfl⟩
    · refine copyBytes_returns (fun j below => ?_) (by omega)
      rw [u32_of_lt (by omega)]
      exact buffer.present (userPtr + j) (by omega) (by omega)
  have inside (j : Nat) (below : j < size)
      (_ : (ex.system.memory.entry ex.taskDir ((userPtr + j) / pageSize)).present = true)
      : pages ((userPtr + j) / pageSize) :=
    buffer.inside (userPtr + j) (by omega) (by omega)
  refine ⟨_, Option.bind_eq_some_iff.mpr ⟨memory, copied, rfl⟩, ?_⟩
  obtain ⟨ram, rfl, -, content⟩ := copyBytes_content rfl buffer.separate fits inside copied
  refine ⟨⟨ram, rfl⟩, fun address visited => ?_⟩
  refine (content address visited).trans ?_
  by_cases within : userPtr ≤ address ∧ address < userPtr + size
  · rw [if_pos within, if_pos within, Nat.zero_add, u32_of_lt (by omega)]
  · rw [if_neg within, if_neg within]
    rfl

/-- An entry of the task's list, as the task reads it: what the function reports, and five bytes of
the kernel's stack, the base address and the one behind the last field.
-/
structure Delivered (space : ConfigSpace) (stack : Mem) (devices : Nat) (task : Mem)
    (userDevices i : Nat) (f : PciFunction)
    : Prop where
  device : deviceAt task (userDevices + 16 * i)
    = listedDevice space (deviceAt stack (devices + 16 * i)) f
  padding : task (userDevices + 16 * i + 15) = stack (devices + 16 * i + 15)

/-- An entry is delivered when its bytes arrive as they stand in the array that was filled in. -/
theorem Delivered.of_filled {space : ConfigSpace} {stack task : Mem} {entries : List PciDevice}
    {i : Nat} {f : PciFunction}
    (entry : entries[i]? = some (listedDevice space (deviceAt stack (devices + 16 * i)) f))
    (arrived : ∀ k < 16, task (userDevices + 16 * i + k)
      = fillDevices entries devices stack (devices + 16 * i + k))
    : Delivered space stack devices task userDevices i f where
  device := by
    rw [deviceAt_congr fun k small => arrived k (Nat.lt_succ_of_lt small),
      deviceAt_fillDevices entry]
    rfl
  padding := by
    rw [arrived 15 (by decide), fillDevices_entry entry (by decide)]
    rfl

/-- The task is given exactly the functions that have a vendor, in order, if the array on the stack
and the task's buffer hold them. All its other bytes stay.
-/
theorem userPciDirectScan_delivers
    (few : (presentFunctions pci.space pciFunctions).length ≤ 256)
    (room : devices + 16 * 256 ≤ wordSize)
    (buffer : TaskBuffer pages ex userDevices
      (16 * (presentFunctions pci.space pciFunctions).length))
    : ∃ (listed : List PciFunction) (pci' : PciPorts) (after : Execution),
        userPciDirectScan userDevices devices pci ex = some (listed.length, pci', after)
        ∧ (∀ f, f ∈ listed ↔ f.InRange ∧ vendorOf pci.space f ≠ 0xFFFF)
        ∧ listed.Pairwise PciFunction.Before
        ∧ (∀ i f, listed[i]? = some f →
          Delivered pci.space ex.system.memory.mem devices
            (after.system.memory.byteAt ex.taskDir) userDevices i f)
        ∧ (∀ address, pages (address / pageSize) →
          address < userDevices ∨ userDevices + 16 * listed.length ≤ address →
          after.system.memory.byteAt ex.taskDir address
            = ex.system.memory.byteAt ex.taskDir address)
        ∧ (∀ page,
          after.system.memory.entry ex.taskDir page = ex.system.memory.entry ex.taskDir page)
        ∧ pci'.space = pci.space := by
  have inRange : ∀ f ∈ pciFunctions, f.InRange := fun f mem => mem_pciFunctions_iff.mp mem
  have list := scanFunctions_eq (fun i => deviceAt ex.system.memory.mem (devices + 16 * i))
    pciFunctions inRange 0 pci
  have space := scanFunctions_space (fun i => deviceAt ex.system.memory.mem (devices + 16 * i))
    pciFunctions 0 pci
  simp only [Nat.zero_add] at list
  rw [userPciDirectScan, pciDirectScan]
  generalize scanFunctions _ pciFunctions 0 pci = scanned at list space ⊢
  obtain ⟨entries, pci'⟩ := scanned
  dsimp only at list space ⊢
  have length : entries.length = (presentFunctions pci.space pciFunctions).length := by
    rw [list, List.length_mapIdx]
  rw [← length] at few buffer
  -- the copy is made with the array filled in
  obtain ⟨after, copied, ⟨ram, kept⟩, content⟩ := @copyToUser_content pages
    (ex.setMemory
      { ex.system.memory with mem := fillDevices entries devices ex.system.memory.mem })
    devices userDevices (16 * entries.length)
    ⟨buffer.fits, buffer.separate, buffer.inside, buffer.present⟩ (by omega)
  rw [copied, Option.map_some, length]
  refine ⟨presentFunctions pci.space pciFunctions, pci', after, rfl,
    fun f => mem_presentFunctions, pciFunctions_ordered.filter _, fun i f found => ?_,
    fun address visited outside => ?_, fun page => ?_, space⟩
  · have below : i < entries.length := by
      rw [length]
      exact (List.getElem?_eq_some_iff.mp found).1
    have entry : entries[i]?
        = some (listedDevice pci.space (deviceAt ex.system.memory.mem (devices + 16 * i)) f) := by
      rw [list, List.getElem?_mapIdx, found, Option.map_some]
    refine .of_filled entry fun k small => ?_
    have visited := buffer.inside (userDevices + 16 * i + k) (by omega) (by omega)
    have offset : devices + (userDevices + 16 * i + k - userDevices) = devices + 16 * i + k := by
      omega
    refine (content _ visited).trans ((if_pos (by omega)).trans ?_)
    rw [offset]
    rfl
  · rw [← length] at outside
    refine (content address visited).trans (if_neg ?_)
    omega
  · rw [kept]
    rfl

end

/-- A bus with a host bridge only. -/
def loneBridge : PciPorts where
  address := 0
  space dword := if dword = 0 then 0x12378086 else 0xFFFFFFFF

theorem loneBridge_vendor {f : PciFunction} (inRange : f.InRange)
    : vendorOf loneBridge.space f ≠ 0xFFFF ↔ f = ⟨0, 0, 0⟩ := by
  constructor
  · intro vendor
    by_contra other
    refine vendor ?_
    have dword : pciDword f.bus f.dev f.fn 0 ≠ 0 := by
      intro same
      refine other ?_
      have zero : pciPlace f.bus f.dev f.fn 0 / 4 % 2 ^ 22 = 0 := by
        have number := congrArg BitVec.toNat same
        rwa [pciDword, BitVec.toNat_ofNat] at number
      obtain ⟨dev, fn⟩ := inRange
      have bus := f.bus.isLt
      have none : (0 : BitVec 8).toNat = 0 := rfl
      simp only [pciPlace, none] at zero
      obtain ⟨bus', dev', fn'⟩ := f
      dsimp only at zero dev fn bus
      rw [PciFunction.mk.injEq]
      refine ⟨BitVec.eq_of_toNat_eq ?_, BitVec.eq_of_toNat_eq ?_, BitVec.eq_of_toNat_eq ?_⟩
      all_goals
        change BitVec.toNat _ = 0
        omega
    rw [vendorOf, loneBridge]
    dsimp only
    rw [if_neg dword]
    rfl
  · rintro rfl
    decide

theorem presentFunctions_loneBridge
    : presentFunctions loneBridge.space pciFunctions = [⟨0, 0, 0⟩] := by
  have only : presentFunctions loneBridge.space pciFunctions
      = pciFunctions.filter (· = ⟨0, 0, 0⟩) := by
    rw [presentFunctions]
    refine List.filter_congr fun f mem => ?_
    rw [decide_eq_decide]
    exact loneBridge_vendor (mem_pciFunctions_iff.mp mem)
  have once : pciFunctions.count ⟨0, 0, 0⟩ = 1 := by
    refine List.count_eq_one_of_mem ?_ (mem_pciFunctions_iff.mpr ⟨by decide, by decide⟩)
    exact pciFunctions_ordered.imp fun before same => by
      rw [same] at before
      exact Nat.lt_irrefl _ before
  rw [only, List.filter_eq, once]
  rfl

/-- A system call of a task, with a stack of the kernel that is not empty. -/
def usedStack : Execution :=
  (sysCallOf 0x8000).setMemory
    { (sysCallOf 0x8000).system.memory with mem := fun address => .ofNat address }

theorem usedStack_buffer : TaskBuffer (· = 0x403) usedStack 0x403000 16 where
  fits := by decide
  separate := by
    intro address address' here there same
    have offset : address % pageSize = address' % pageSize := (Prod.mk.inj same).2
    simp only [pageSize] at here there offset
    omega
  inside := by
    intro address above below
    simp only [pageSize]
    omega
  present := by
    intro address above below
    have page : address / pageSize = 0x403 := by
      simp only [pageSize]
      omega
    rw [page]
    decide +kernel

/-- The task reads the bridge's numbers, and four bytes of the kernel's stack. -/
theorem userPciDirectScan_delivers_bridge
    : ∃ pci' after,
        userPciDirectScan 0x403000 0x9000 loneBridge usedStack = some (1, pci', after)
        ∧ deviceAt (after.system.memory.byteAt 0x8000) 0x403000
          = ⟨0x8086, 0x1237, 0xFFFFFF, 0x0B0A0908, 0, 0, 0⟩ := by
  obtain ⟨listed, pci', after, run, members, ordered, entries, -⟩ :=
    @userPciDirectScan_delivers (· = 0x403) usedStack loneBridge 0x403000 0x9000
      (by rw [presentFunctions_loneBridge]; decide) (by decide)
      (by rw [presentFunctions_loneBridge]; exact usedStack_buffer)
  have only : ∀ f ∈ listed, f = ⟨0, 0, 0⟩ := by
    intro f mem
    obtain ⟨inRange, vendor⟩ := (members f).mp mem
    exact (loneBridge_vendor inRange).mp vendor
  have first : (⟨0, 0, 0⟩ : PciFunction) ∈ listed :=
    (members _).mpr ⟨⟨by decide, by decide⟩, by decide⟩
  cases listed with
  | nil => exact absurd first List.not_mem_nil
  | cons f rest =>
      cases rest with
      | nil =>
          refine ⟨pci', after, run, ?_⟩
          obtain rfl := only f List.mem_cons_self
          refine (entries 0 _ rfl).device.trans ?_
          simp only [listedDevice, PciDevice.mk.injEq]
          decide +kernel
      | cons other rest =>
          obtain rfl := only f List.mem_cons_self
          obtain rfl := only other (List.mem_cons_of_mem _ List.mem_cons_self)
          exact absurd (List.rel_of_pairwise_cons ordered List.mem_cons_self)
            (Nat.lt_irrefl _)

end DeadKernel
