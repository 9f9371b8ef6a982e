import DeadKernel.Foundation.MappedMemory

/-! Moving a stack to another place. `cloneStack` copies the words and then follows the saved `ebp`
of the new stack, correcting each one just before it is followed.
-/

namespace DeadKernel

open ByteMemory

-----------------------------------------------------------------------------------------
-- cloneStack
-----------------------------------------------------------------------------------------

/-- What `ESP` and `EBP` point to. -/
structure StackPointers where
  esp : BitVec 32
  ebp : BitVec 32
deriving DecidableEq

def memcpy (dest src len : BitVec 32) (space : Space) : Option Space :=
  copy len.toNat dest src space

/-- `while ((uint32_t)stk != newStart)`; no result stands for too few rounds. -/
def relocateFrames (offset newStart : BitVec 32) : Nat → BitVec 32 → Space → Option Space
  | 0, _, _ => none
  | fuel + 1, stk, space =>
      if stk ≠ newStart then do
        let ebp ← space.loadWord stk
        let space ← space.storeWord stk (ebp + offset)
        let next ← space.loadWord stk
        relocateFrames offset newStart fuel next space
      else some space

/-- `createStack` is what the function of that name does to the address space. -/
def cloneStack (createStack : BitVec 32 → BitVec 32 → Bool → Space → Option Space) (fuel : Nat)
    (oldStart newStart size : BitVec 32) (isKernel : Bool) (old : StackPointers) (space : Space)
    : Option (StackPointers × Space) := do
  let space ← createStack newStart size isKernel space
  let offset := newStart - oldStart
  let newESP := old.esp + offset
  let newEBP := old.ebp + offset
  let space ← memcpy newESP old.esp (oldStart - old.esp) space
  let space ← relocateFrames offset newStart fuel newEBP space
  return (⟨newESP, newEBP⟩, space)

/-- `while (stk->ebp)`, from the `ebp` of the caller. -/
def getStackBegin (bytes : Memory) : Nat → BitVec 32 → Option (BitVec 32)
  | 0, _ => none
  | fuel + 1, stk =>
      if readWord bytes stk ≠ 0 then getStackBegin bytes fuel (readWord bytes stk) else some stk

/-- `moveStack` clones the running stack and loads the new pointers. -/
def moveStack (createStack : BitVec 32 → BitVec 32 → Bool → Space → Option Space) (fuel : Nat)
    (oldStart newStart size : BitVec 32) (running : StackPointers) (space : Space)
    : Option (StackPointers × Space) :=
  cloneStack createStack fuel oldStart newStart size true running space

-----------------------------------------------------------------------------------------
-- Stacks and their frames
-----------------------------------------------------------------------------------------

/-- The saved `ebp` lead from an address over the frames to `stop`. -/
def Linked (bytes : Memory) (stop : BitVec 32) : BitVec 32 → List (BitVec 32) → Prop
  | stk, [] => stk = stop
  | stk, frame :: rest => stk = frame ∧ Linked bytes stop (readWord bytes stk) rest

/-- A stack from `esp` to `start`. Its frames, a saved `ebp` and a return address each, are linked
in ascending order and lie inside.
-/
structure FrameStack (bytes : Memory) (start : BitVec 32) (pointers : StackPointers)
    (frames : List (BitVec 32))
    : Prop where
  below : pointers.esp.toNat ≤ start.toNat
  linked : Linked bytes start pointers.ebp frames
  inside : ∀ frame ∈ frames,
    pointers.esp.toNat ≤ frame.toNat ∧ frame.toNat + 8 ≤ start.toNat
  ascending : frames.Pairwise fun frame next => frame.toNat + 8 ≤ next.toNat

/-- Between `esp` and `start`. -/
def OnStack (start : BitVec 32) (pointers : StackPointers) (address : BitVec 32) : Prop :=
  Covers pointers.esp (start - pointers.esp).toNat address

/-- After `createStack`, the old stack and the region for the new one can be accessed, they have no
address in common, and the old stack is as before.
-/
structure RoomForStack (before space : Space) (oldStart newStart : BitVec 32)
    (old : StackPointers)
    : Prop where
  unchanged : ∀ address, OnStack oldStart old address → space.bytes address = before.bytes address
  source : space.Mapped old.esp (oldStart - old.esp).toNat
  target : space.Mapped (old.esp + (newStart - oldStart)) (oldStart - old.esp).toNat
  apart : ∀ address, OnStack oldStart old address →
    ¬ Covers (old.esp + (newStart - oldStart)) (oldStart - old.esp).toNat address

/-- The new stack: the same frames at the same distance, with the same return addresses, all other
bytes as on the old one, which has not changed.
-/
structure StackCloned (before after : Space) (oldStart newStart : BitVec 32)
    (old new : StackPointers) (frames : List (BitVec 32))
    : Prop where
  esp : new.esp = old.esp + (newStart - oldStart)
  ebp : new.ebp = old.ebp + (newStart - oldStart)
  linked : Linked after.bytes newStart new.ebp (frames.map (· + (newStart - oldStart)))
  returns : ∀ frame ∈ frames, readWord after.bytes (frame + (newStart - oldStart) + 4)
    = readWord before.bytes (frame + 4)
  copied : ∀ address, OnStack oldStart old address → (∀ frame ∈ frames, ¬ Covers frame 4 address) →
    after.bytes (address + (newStart - oldStart)) = before.bytes address
  unchanged : ∀ address, OnStack oldStart old address → after.bytes address = before.bytes address

/-- The outermost frame, which links to nothing, is where the stack begins. -/
theorem getStackBegin_linked {bytes : Memory} {start stk : BitVec 32} {frames : List (BitVec 32)}
    {fuel : Nat} (linked : Linked bytes start stk frames) (outermost : readWord bytes start = 0)
    (inside : ∀ frame ∈ frames, frame.toNat + 8 ≤ start.toNat)
    (ascending : frames.Pairwise fun frame next => frame.toNat + 8 ≤ next.toNat)
    (enough : frames.length < fuel)
    : getStackBegin bytes fuel stk = some start := by
  induction frames generalizing stk fuel with
  | nil =>
      obtain ⟨fuel, rfl⟩ : ∃ more, fuel = more + 1 := ⟨fuel - 1, by omega⟩
      obtain rfl : stk = start := linked
      rw [getStackBegin, if_neg (not_not.mpr outermost)]
  | cons frame rest ih =>
      obtain ⟨fuel, rfl⟩ : ∃ more, fuel = more + 1 := ⟨fuel - 1, by omega⟩
      obtain ⟨rfl, later⟩ := linked
      obtain ⟨above, ascending⟩ := List.pairwise_cons.mp ascending
      obtain ⟨within, inside⟩ := List.forall_mem_cons.mp inside
      have goesOn : readWord bytes stk ≠ 0 := by
        cases rest with
        | nil =>
            have same : readWord bytes stk = start := later
            rw [same]
            bv_omega
        | cons next rest =>
            have higher := above next List.mem_cons_self
            rw [later.1]
            bv_omega
      rw [getStackBegin, if_pos goesOn]
      exact ih later inside ascending (Nat.lt_of_succ_lt_succ enough)

section Relocating

variable {bytes : Memory} {space : Space} {oldStart newStart stk offset : BitVec 32}
  {frames : List (BitVec 32)} {fuel : Nat}

/-- The words of two frames have no address in common, wherever both are moved to. -/
theorem frames_apart {frame next : BitVec 32} (offset : BitVec 32)
    (room : frame.toNat + 8 ≤ next.toNat) (below : next.toNat + 8 ≤ 2 ^ 32) {k : Nat} (less : k < 4)
    : ¬ Covers (frame + offset) 4 (next + offset + BitVec.ofNat 32 k)
      ∧ ¬ Covers (next + offset) 4 (frame + offset + BitVec.ofNat 32 k) := by
  rw [Covers, Covers]
  constructor
  · bv_omega
  · bv_omega

/-- The loop ends after as many rounds as there are frames, with the links moved and nothing else
changed, by induction on the frames: the link that a round corrects is not touched again.
-/
theorem relocateFrames_spec (moved : newStart = oldStart + offset)
    (linked : Linked bytes oldStart stk frames)
    (inside : ∀ frame ∈ frames, frame.toNat + 8 ≤ oldStart.toNat)
    (ascending : frames.Pairwise fun frame next => frame.toNat + 8 ≤ next.toNat)
    (words : ∀ frame ∈ frames, readWord space.bytes (frame + offset) = readWord bytes frame)
    (mapped : ∀ frame ∈ frames, space.mappedWord (frame + offset) = true)
    (enough : frames.length < fuel)
    : ∃ bytes', relocateFrames offset newStart fuel (stk + offset) space
          = some { space with bytes := bytes' }
        ∧ Linked bytes' newStart (stk + offset) (frames.map (· + offset))
        ∧ ∀ address, (∀ frame ∈ frames, ¬ Covers (frame + offset) 4 address) →
          bytes' address = space.bytes address := by
  induction frames generalizing stk space fuel with
  | nil =>
      obtain ⟨fuel, rfl⟩ : ∃ more, fuel = more + 1 := ⟨fuel - 1, by omega⟩
      obtain rfl : stk = oldStart := linked
      refine ⟨space.bytes, ?_, moved.symm, fun _ _ => rfl⟩
      rw [relocateFrames, if_neg (not_not.mpr moved.symm)]
  | cons frame rest ih =>
      obtain ⟨fuel, rfl⟩ : ∃ more, fuel = more + 1 := ⟨fuel - 1, by omega⟩
      obtain ⟨rfl, later⟩ := linked
      obtain ⟨above, ascending⟩ := List.pairwise_cons.mp ascending
      obtain ⟨within, inside⟩ := List.forall_mem_cons.mp inside
      obtain ⟨word, words⟩ := List.forall_mem_cons.mp words
      obtain ⟨mappedFirst, mapped⟩ := List.forall_mem_cons.mp mapped
      have below (next : BitVec 32) (mem : next ∈ rest) : next.toNat + 8 ≤ 2 ^ 32 :=
        (inside next mem).trans oldStart.isLt.le
      let space' : Space :=
        { space with bytes := writeWord space.bytes (stk + offset) (readWord bytes stk + offset) }
      have goesOn : stk + offset ≠ newStart := by
        rw [moved]
        intro same
        obtain rfl := add_right_cancel same
        omega
      have load : space.loadWord (stk + offset) = some (readWord bytes stk) :=
        (Space.loadWord_eq mappedFirst).trans (congrArg some word)
      have store : space.storeWord (stk + offset) (readWord bytes stk + offset) = some space' :=
        Space.storeWord_eq mappedFirst
      have mapped' : space'.mappedWord (stk + offset) = true := mappedFirst
      have written : readWord space'.bytes (stk + offset) = readWord bytes stk + offset :=
        readWord_writeWord
      have follow : space'.loadWord (stk + offset) = some (readWord bytes stk + offset) :=
        (Space.loadWord_eq mapped').trans (congrArg some written)
      have words' : ∀ next ∈ rest, readWord space'.bytes (next + offset) = readWord bytes next := by
        intro next mem
        rw [← words next mem]
        exact readWord_writeWord_apart fun k less =>
          (frames_apart offset (above next mem) (below next mem) less).1
      obtain ⟨bytes', runs, linked', kept⟩ :=
        ih later inside ascending words' mapped (Nat.lt_of_succ_lt_succ enough)
      refine ⟨bytes', ?_, ⟨rfl, ?_⟩, fun address outside => ?_⟩
      · rw [relocateFrames, if_pos goesOn]
        simp only [load, store, follow, Option.bind_eq_bind, Option.bind_some]
        exact runs
      · have link : readWord bytes' (stk + offset) = readWord bytes stk + offset := by
          rw [← written]
          exact readWord_congr fun k less => kept _ fun next mem =>
            (frames_apart offset (above next mem) (below next mem) less).2
        rw [link]
        exact linked'
      · obtain ⟨first, others⟩ := List.forall_mem_cons.mp outside
        exact (kept address others).trans (writeWord_apart first)

end Relocating

-----------------------------------------------------------------------------------------
-- The cloned stack
-----------------------------------------------------------------------------------------

section Cloning

variable {before space : Space} {oldStart newStart size : BitVec 32} {old : StackPointers}
  {frames : List (BitVec 32)} {frame address : BitVec 32} {isKernel : Bool} {fuel : Nat}
  {createStack : BitVec 32 → BitVec 32 → Bool → Space → Option Space}

/-- Both words of a frame lie on the stack. -/
theorem FrameStack.onStack (stack : FrameStack before.bytes oldStart old frames)
    (mem : frame ∈ frames) {k : Nat} (less : k < 8)
    : OnStack oldStart old (frame + BitVec.ofNat 32 k) := by
  have below := stack.below
  obtain ⟨above, within⟩ := stack.inside frame mem
  rw [OnStack, Covers]
  bv_omega

theorem FrameStack.link_onStack (stack : FrameStack before.bytes oldStart old frames)
    (mem : frame ∈ frames) (inLink : Covers frame 4 address)
    : OnStack oldStart old address := by
  have on := stack.onStack mem (inLink.trans (by decide : 4 < 8))
  rwa [BitVec.ofNat_toNat, BitVec.setWidth_eq, add_sub_cancel] at on

/-- The frames are the same, or do not overlap. -/
def FramesApart (frame link : BitVec 32) : Prop :=
  frame = link ∨ frame.toNat + 8 ≤ link.toNat ∨ link.toNat + 8 ≤ frame.toNat

/-- A return address is not a link of the chain. -/
theorem FrameStack.return_apart (stack : FrameStack before.bytes oldStart old frames)
    (mem : frame ∈ frames) {link : BitVec 32} (linkMem : link ∈ frames) {k : Nat} (less : k < 4)
    : ¬ Covers link 4 (frame + 4 + BitVec.ofNat 32 k) := by
  have upwards : frames.Pairwise FramesApart := stack.ascending.imp fun room => .inr (.inl room)
  have downwards : frames.Pairwise (flip FramesApart) :=
    stack.ascending.imp fun room => .inr (.inr room)
  have ordered : FramesApart frame link :=
    upwards.forall_of_forall_of_flip (fun _ _ => .inl rfl) downwards mem linkMem
  have within := (stack.inside frame mem).2
  have linkWithin := (stack.inside link linkMem).2
  rw [Covers]
  obtain rfl | before | after := ordered
  · bv_omega
  · bv_omega
  · bv_omega

/-- `cloneStack` ends and leaves the frames at the same distance from each other, for every number
of frames.
-/
theorem cloneStack_clones (created : createStack newStart size isKernel before = some space)
    (stack : FrameStack before.bytes oldStart old frames)
    (room : RoomForStack before space oldStart newStart old) (enough : frames.length < fuel)
    : ∃ new after,
        cloneStack createStack fuel oldStart newStart size isKernel old before = some (new, after)
        ∧ StackCloned before after oldStart newStart old new frames := by
  obtain ⟨bytes, copies, copied⟩ := copy_spec room.source room.target room.apart
  -- what the copy leaves on both stacks
  have onNew (address : BitVec 32) (on : OnStack oldStart old address)
      : bytes (address + (newStart - oldStart)) = before.bytes address := by
    rw [copied, if_pos ((covers_add _).mpr on), add_sub_add_right_eq_sub, sub_add_cancel,
      room.unchanged _ on]
  have onOld (address : BitVec 32) (on : OnStack oldStart old address)
      : bytes address = before.bytes address := by
    rw [copied, if_neg (room.apart address on), room.unchanged _ on]
  have moved (frame : BitVec 32) (k : Nat)
      : frame + (newStart - oldStart) + BitVec.ofNat 32 k
        = frame + BitVec.ofNat 32 k + (newStart - oldStart) := add_right_comm _ _ _
  let middle : Space := { space with bytes }
  have words : ∀ frame ∈ frames, readWord middle.bytes (frame + (newStart - oldStart))
      = readWord before.bytes frame := by
    intro frame mem
    refine readWord_congr fun k less => ?_
    rw [moved]
    exact onNew _ (stack.onStack mem (by omega))
  have target : middle.Mapped (old.esp + (newStart - oldStart)) (oldStart - old.esp).toNat :=
    room.target
  have mapped : ∀ frame ∈ frames, middle.mappedWord (frame + (newStart - oldStart)) = true := by
    intro frame mem
    refine target.word fun k less => ?_
    rw [moved, covers_add]
    exact stack.onStack mem (by omega)
  obtain ⟨bytes', runs, linked, kept⟩ := relocateFrames_spec
    (add_sub_cancel oldStart newStart).symm stack.linked
    (fun frame mem => (stack.inside frame mem).2) stack.ascending words mapped enough
  refine ⟨⟨old.esp + (newStart - oldStart), old.ebp + (newStart - oldStart)⟩,
    { middle with bytes := bytes' }, ?_, rfl, rfl, linked, fun frame mem => ?_,
    fun address on noLink => ?_, fun address on => ?_⟩
  · simp only [cloneStack, created, memcpy, Option.bind_eq_bind, Option.bind_some, copies]
    exact congrArg (fun result => Option.bind result _) runs
  · refine readWord_congr fun k less => ?_
    have place : frame + (newStart - oldStart) + 4 + BitVec.ofNat 32 k
        = frame + 4 + BitVec.ofNat 32 k + (newStart - oldStart) := by ring
    have on : OnStack oldStart old (frame + 4 + BitVec.ofNat 32 k) := by
      rw [add_assoc, show (4 : BitVec 32) + BitVec.ofNat 32 k = BitVec.ofNat 32 (4 + k) from
        (BitVec.ofNat_add 4 k).symm]
      exact stack.onStack mem (by omega)
    rw [place]
    refine (kept _ fun link linkMem => ?_).trans (onNew _ on)
    rw [covers_add]
    exact stack.return_apart mem linkMem less
  · refine (kept _ fun frame mem => ?_).trans (onNew address on)
    rw [covers_add]
    exact noLink frame mem
  · refine (kept _ fun frame mem inLink => ?_).trans (onOld address on)
    refine room.apart address on ?_
    rw [← sub_add_cancel address (newStart - oldStart), covers_add] at inLink ⊢
    exact stack.link_onStack mem inLink

end Cloning

/-- A stack of one frame at 0x1004, between 0x1000 and 0x1010. -/
def oneFrame : Space where
  bytes := writeWord (fun _ => 0) 0x1004 0x1010
  mapped address := Covers 0x1000 16 address

/-- Makes the new region accessible. -/
def mapRegion (newStart size : BitVec 32) (_ : Bool) (space : Space) : Option Space :=
  some { space with
    mapped := fun address =>
      space.mapped address || decide (Covers (newStart - size) size.toNat address) }

theorem cloneStack_oneFrame
    : ∃ new after, cloneStack mapRegion 2 0x1010 0x2010 16 true ⟨0x1000, 0x1004⟩ oneFrame
          = some (new, after)
        ∧ StackCloned oneFrame after 0x1010 0x2010 ⟨0x1000, 0x1004⟩ new [0x1004] := by
  have stack : FrameStack oneFrame.bytes 0x1010 ⟨0x1000, 0x1004⟩ [0x1004] := by
    refine ⟨by decide, ⟨rfl, readWord_writeWord⟩, ?_, List.pairwise_singleton _ _⟩
    intro frame mem
    obtain rfl := List.mem_singleton.mp mem
    decide
  refine cloneStack_clones rfl stack ⟨fun _ _ => rfl, ?_, ?_, ?_⟩ (by decide)
  · intro address on
    exact Bool.or_eq_true_iff.mpr (.inl (decide_eq_true on))
  · intro address on
    exact Bool.or_eq_true_iff.mpr (.inr (decide_eq_true on))
  · intro address on
    simp only [OnStack, Covers] at on ⊢
    bv_omega

end DeadKernel
