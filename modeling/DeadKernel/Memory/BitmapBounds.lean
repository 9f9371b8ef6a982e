import DeadKernel.Memory.FrameCalls
import DeadKernel.Memory.FrameSafety
import DeadKernel.Memory.HeapMemory

/-! Which words of the frame bitmap are accessed. `initPaging` asks for a byte for every 32
frames where the macros index words, so the block holds a quarter of the words that
`firstFrame` scans: the marks of the frames below 65536.
-/

namespace DeadKernel

open Words

/-- The words of the block that `initPaging` gets for `frames`. -/
abbrev storedWords : Nat := nframes / 32 / 4

/-- The frames whose marks lie in that block. -/
abbrev storedFrames : Nat := 32 * storedWords

-----------------------------------------------------------------------------------------
-- Accesses of one call
-----------------------------------------------------------------------------------------

/-- The words that `firstFrame` reads from word `i` on, with `n` words to go. -/
def scannedWords (frames : Nat → BitVec 32) : Nat → Nat → List Nat
  | 0, _ => []
  | n + 1, i =>
      i :: if frames i ≠ 0xFFFFFFFF#32 ∧ (firstClearBit (frames i)).isSome then []
        else scannedWords frames n (i + 1)

def firstFrameWords (st : Kernel) : List Nat := scannedWords st.frames (nframes / 32) 0

/-- The words that `READ_FRAME`, `SET_FRAME` and `CLEAR_FRAME` access for an address. -/
def addressWord (address : Nat) : Nat := address / pageSize / 32

/-- The words of the bitmap that a call reads or writes. -/
def FrameCall.words (st : Kernel) : FrameCall → List Nat
  | .alloc ref _ _ =>
      if (st.page ref).frame ≠ 0 then []
      else
        firstFrameWords st ++ if firstFrame st = wordSize - 1 then []
          else [addressWord (u32 (firstFrame st * pageSize))]
  | .link ref alignedAddress _ _ =>
      if (st.page ref).frame ≠ 0 then []
      else [addressWord alignedAddress, addressWord alignedAddress]
  | .free ref =>
      if (st.page ref).frame = 0 then [] else [addressWord ((st.page ref).frame * pageSize)]

/-- A call writes none but its own words. -/
theorem FrameCall.run_otherWords {st st' : Kernel} {call : FrameCall}
    (run : call.run st = some st') {word : Nat} (other : word ∉ call.words st)
    : st'.frames word = st.frames word := by
  cases call with
  | alloc ref isKernel isWriteable =>
      simp only [FrameCall.run, allocFrame] at run
      by_cases mapped : (st.page ref).frame ≠ 0
      · rw [if_pos mapped] at run
        rw [← Option.some.inj run]
      · rw [if_neg mapped] at run
        by_cases panic : firstFrame st = wordSize - 1
        · rw [if_pos panic] at run
          contradiction
        · rw [if_neg panic] at run
          rw [← Option.some.inj run, Kernel.setPage_frames]
          simp only [FrameCall.words, if_neg mapped, if_neg panic, List.mem_append,
            List.mem_singleton, not_or] at other
          exact update_other other.2
  | link ref alignedAddress isKernel isWriteable =>
      simp only [FrameCall.run, Option.some.injEq] at run
      rw [← run, linkFrame]
      by_cases mapped : (st.page ref).frame ≠ 0
      · rw [if_pos mapped]
      · rw [if_neg mapped, Kernel.setPage_frames]
        simp only [FrameCall.words, if_neg mapped, List.mem_cons, List.not_mem_nil, or_false,
          or_self] at other
        exact update_other other
  | free ref =>
      simp only [FrameCall.run, Option.some.injEq] at run
      rw [← run, freeFrame]
      by_cases empty : (st.page ref).frame = 0
      · simp only [if_pos empty]
      · simp only [if_neg empty, Kernel.setPage_frames]
        simp only [FrameCall.words, if_neg empty, List.mem_singleton] at other
        exact update_other other

/-- When a call keeps to the block: what it links lies below 256 MiB, and what it allocates is
found among the frames whose marks the block holds.
-/
def FrameCall.Within (st : Kernel) : FrameCall → Prop
  | .alloc ref _ _ =>
      (st.page ref).frame ≠ 0 ∨ ∃ frame < storedFrames, frameBit st.frames frame = false
  | .link ref alignedAddress _ _ =>
      (st.page ref).frame ≠ 0 ∨ alignedAddress < storedFrames * pageSize
  | .free _ => True

/-- No entry maps a frame whose mark lies behind the block. -/
def FramesLow (st : Kernel) : Prop := ∀ ref, (st.page ref).frame < storedFrames

/-- The scan stops at the word of a clear frame at the latest. -/
theorem scannedWords_le {frames : Nat → BitVec 32} {last : Nat}
    (clear : ∃ position < 32, (frames last).getLsbD position = false) (n : Nat) {i : Nat}
    (le : i ≤ last)
    : ∀ word ∈ scannedWords frames n i, word ≤ last := by
  induction n generalizing i with
  | zero => simp [scannedWords]
  | succ n ih =>
      intro word member
      rw [scannedWords, List.mem_cons] at member
      rcases member with rfl | member
      · exact le
      · by_cases stops : frames i ≠ 0xFFFFFFFF#32 ∧ (firstClearBit (frames i)).isSome
        · rw [if_pos stops] at member
          contradiction
        · rw [if_neg stops] at member
          have elsewhere : i ≠ last := by
            rintro rfl
            obtain ⟨position, bound, clearBit⟩ := clear
            obtain ⟨first, found, -⟩ := firstClearBit_some bound clearBit
            exact stops ⟨ne_full_of_clear bound clearBit, by rw [found]; rfl⟩
          exact ih (by omega) word member

/-- A scan over full words gets as far as there are full words. -/
theorem scannedWords_full {frames : Nat → BitVec 32} {last : Nat}
    (full : ∀ word < last, frames word = 0xFFFFFFFF#32) (n : Nat) {i : Nat} (le : i ≤ last)
    (enough : last < i + n)
    : last ∈ scannedWords frames n i := by
  induction n generalizing i with
  | zero => omega
  | succ n ih =>
      rw [scannedWords, List.mem_cons]
      by_cases here : last = i
      · exact Or.inl here
      · have filled := full i (by omega)
        rw [if_neg (fun stops => stops.1 filled)]
        exact Or.inr (ih (by omega) (by omega))

theorem addressWord_frame (frame : Nat) : addressWord (frame * pageSize) = frame / 32 := by
  rw [addressWord, Nat.mul_div_cancel _ (by decide)]

/-- A scan with a clear frame below 65536 stays in the block. -/
theorem firstFrame_within {st : Kernel} {frame : Nat} (below : frame < storedFrames)
    (clear : frameBit st.frames frame = false)
    : firstFrame st < storedFrames ∧ ∀ word ∈ firstFrameWords st, word < storedWords := by
  simp only [storedFrames, storedWords, nframes] at below ⊢
  obtain ⟨-, -, le⟩ := firstFrame_spec (by simp only [nframes]; omega) clear
  refine ⟨by omega, fun word member => ?_⟩
  have scanned : word ≤ frame / 32 := scannedWords_le
    ⟨frame % 32, Nat.mod_lt _ (by decide), clear⟩ _ (Nat.zero_le _) word member
  omega

/-- A call that keeps to the block meets its condition: a high address leads outside, and a
scan without a clear frame in the block runs past it.
-/
theorem FrameCall.within_of_inside {st : Kernel} {call : FrameCall}
    (inside : ∀ word ∈ call.words st, word < storedWords)
    : call.Within st := by
  cases call with
  | alloc ref isKernel isWriteable =>
      by_cases empty : (st.page ref).frame = 0
      · simp only [FrameCall.words, empty, ne_eq, not_true_eq_false, if_false] at inside
        refine Or.inr ?_
        by_contra none
        push Not at none
        have full : ∀ word < storedWords, st.frames word = 0xFFFFFFFF#32 := by
          intro word below
          by_contra open'
          obtain ⟨position, bound, clear⟩ := clear_of_ne_full open'
          have parts : (32 * word + position) / 32 = word
              ∧ (32 * word + position) % 32 = position := by omega
          refine none (32 * word + position) (by simp only [storedFrames]; omega) ?_
          rw [frameBit, parts.1, parts.2, clear]
        have reached : storedWords ∈ firstFrameWords st :=
          scannedWords_full full _ (Nat.zero_le _) (by decide)
        exact lt_irrefl _ (inside storedWords (List.mem_append_left _ reached))
      · exact Or.inl empty
  | link ref alignedAddress isKernel isWriteable =>
      by_cases empty : (st.page ref).frame = 0
      · simp only [FrameCall.words, empty, ne_eq, not_true_eq_false, if_false, List.mem_cons,
          List.not_mem_nil, or_false, or_self, forall_eq, addressWord, storedWords, pageSize,
          nframes] at inside
        refine Or.inr ?_
        simp only [storedFrames, storedWords, pageSize, nframes]
        omega
      · exact Or.inl empty
  | free ref => trivial

/-- In a state whose frames are low, a call that meets its condition keeps to the block. -/
theorem FrameCall.inside_of_within {st : Kernel} (low : FramesLow st) {call : FrameCall}
    (within : call.Within st)
    : ∀ word ∈ call.words st, word < storedWords := by
  intro word member
  cases call with
  | alloc ref isKernel isWriteable =>
      by_cases empty : (st.page ref).frame = 0
      · obtain ⟨frame, below, clear⟩ := within.resolve_left (not_not.mpr empty)
        obtain ⟨first, scanned⟩ := firstFrame_within below clear
        simp only [storedFrames, storedWords, nframes] at first
        have fits : u32 (firstFrame st * pageSize) = firstFrame st * pageSize := by
          refine u32_of_lt ?_
          simp only [wordSize, pageSize]
          omega
        have notPanic : firstFrame st ≠ wordSize - 1 := by
          simp only [wordSize]
          omega
        simp only [FrameCall.words, empty, ne_eq, not_true_eq_false, if_false, notPanic, fits,
          addressWord_frame, List.mem_append, List.mem_singleton] at member
        rcases member with read | rfl
        · exact scanned word read
        · simp only [storedWords, nframes]
          omega
      · simp [FrameCall.words, empty] at member
  | link ref alignedAddress isKernel isWriteable =>
      by_cases empty : (st.page ref).frame = 0
      · have below := within.resolve_left (not_not.mpr empty)
        simp only [FrameCall.words, empty, ne_eq, not_true_eq_false, if_false, List.mem_cons,
          List.not_mem_nil, or_false, or_self, addressWord] at member
        simp only [storedFrames, storedWords, pageSize, nframes] at below member ⊢
        omega
      · simp [FrameCall.words, empty] at member
  | free ref =>
      have bound := low ref
      by_cases empty : (st.page ref).frame = 0
      · simp [FrameCall.words, empty] at member
      · simp only [FrameCall.words, if_neg empty, List.mem_singleton, addressWord_frame] at member
        simp only [storedFrames] at bound
        omega

/-- What a part of a run leaves alone when its calls keep to the block: the frames stay low
and the words behind the block keep their values.
-/
structure Bounded (st st' : Kernel) : Prop where
  low : FramesLow st'
  behind : ∀ word, storedWords ≤ word → st'.frames word = st.frames word

theorem FramesLow.setPage {st : Kernel} (h : FramesLow st) (ref : PageRef) {page : Page}
    (below : page.frame < storedFrames)
    : FramesLow (st.setPage ref page) := by
  intro other
  by_cases here : other = ref
  · rw [here, Kernel.page_setPage]
    exact below
  · rw [Kernel.page_setPage_other here]
    exact h other

theorem FrameCall.bounded {st st' : Kernel} (low : FramesLow st) {call : FrameCall}
    (within : call.Within st) (run : call.run st = some st')
    : Bounded st st' where
  behind := by
    intro word behind
    refine FrameCall.run_otherWords run (fun member => ?_)
    exact absurd (FrameCall.inside_of_within low within word member) (not_lt.mpr behind)
  low := by
    cases call with
    | alloc ref isKernel isWriteable =>
        rcases allocFrame_cases run with rfl | ⟨empty, -⟩
        · exact low
        · obtain ⟨frame, below, clear⟩ := within.resolve_left (not_not.mpr empty)
          obtain ⟨first, -⟩ := firstFrame_within below clear
          have notPanic : firstFrame st ≠ wordSize - 1 := by
            simp only [storedFrames, storedWords, nframes, wordSize] at first ⊢
            omega
          simp only [FrameCall.run, allocFrame, empty, ne_eq, not_true_eq_false, if_false,
            notPanic, Option.some.injEq] at run
          rw [← run]
          refine FramesLow.setPage (fun other => low other) ref ?_
          exact lt_of_le_of_lt (Nat.mod_le _ _) first
    | link ref alignedAddress isKernel isWriteable =>
        obtain rfl := Option.some.inj run
        rcases linkFrame_cases ref alignedAddress isKernel isWriteable st with
          same | ⟨empty, page, frame_eq, same⟩
        · rwa [same]
        · rw [same]
          refine FramesLow.setPage (fun other => low other) ref ?_
          rw [frame_eq]
          exact Nat.div_lt_of_lt_mul (Nat.mul_comm _ _ ▸
            within.resolve_left (not_not.mpr empty))
    | free ref =>
        obtain rfl := Option.some.inj run
        rw [freeFrame]
        by_cases empty : (st.page ref).frame = 0
        · rwa [if_pos empty]
        · rw [if_neg empty]
          exact FramesLow.setPage (fun other => low other) ref (by decide : 0 < storedFrames)

-----------------------------------------------------------------------------------------
-- Parts of a run
-----------------------------------------------------------------------------------------

def FrameCalls.Within (calls : FrameCalls) : Prop := ∀ made ∈ calls, made.2.Within made.1

/-- Every word that the calls access lies in the block. -/
def FrameCalls.Inside (calls : FrameCalls) : Prop :=
  ∀ made ∈ calls, ∀ word ∈ made.2.words made.1, word < storedWords

/-- Calls whose conditions hold keep to the block, and so does what they leave behind. -/
def Safe {Result : Type} (calls : FrameCalls) (result : Option Result)
    (state : Result → Kernel) (st : Kernel)
    : Prop :=
  FramesLow st → calls.Within →
    calls.Inside ∧ ∀ r, result = some r → Bounded st (state r)

theorem Bounded.refl {st : Kernel} (low : FramesLow st) : Bounded st st := ⟨low, fun _ _ => rfl⟩

theorem Bounded.trans {st st' st'' : Kernel} (h : Bounded st st') (h' : Bounded st' st'')
    : Bounded st st'' :=
  ⟨h'.low, fun word behind => (h'.behind word behind).trans (h.behind word behind)⟩

/-- A step that accesses nothing keeps low frames low and the bitmap as it is. -/
def Keeps (st st' : Kernel) : Prop := FramesLow st → Bounded st st'

theorem Keeps.of_same {st st' : Kernel} (tables : st'.tables = st.tables)
    (frames : st'.frames = st.frames)
    : Keeps st st' := by
  intro low
  refine ⟨fun ref => ?_, fun word _ => by rw [frames]⟩
  rw [Kernel.page, tables]
  exact low ref

theorem Keeps.trans {st st' st'' : Kernel} (h : Keeps st st') (h' : Keeps st' st'')
    : Keeps st st'' :=
  fun low => (h low).trans (h' (h low).low)

theorem Safe.quiet {Result : Type} {result : Option Result} {state : Result → Kernel}
    {st : Kernel} (h : ∀ r, result = some r → Keeps st (state r))
    : Safe [] result state st :=
  fun low _ => ⟨fun _ none => absurd none List.not_mem_nil, fun r run => h r run low⟩

theorem Safe.none {Result : Type} {state : Result → Kernel} {st : Kernel}
    : Safe [] none state st :=
  Safe.quiet (fun r none => absurd none.symm (Option.some_ne_none r))

theorem Safe.call (st : Kernel) (call : FrameCall) : Safe [(st, call)] (call.run st) id st := by
  intro low within
  have condition := within (st, call) (List.mem_singleton_self _)
  refine ⟨?_, fun r run => FrameCall.bounded low condition run⟩
  rintro made member
  obtain rfl := List.mem_singleton.mp member
  exact FrameCall.inside_of_within low condition

/-- Parts that follow each other. -/
theorem Safe.bind {First Result : Type} {calls : FrameCalls} {first : Option First}
    {state : First → Kernel} {st : Kernel} {later : First → FrameCalls}
    {next : First → Option Result} {state' : Result → Kernel}
    (h : Safe calls first state st)
    (h' : ∀ r, first = some r → Safe (later r) (next r) state' (state r))
    : Safe (calls ++ callsAfter first later) (first.bind next) state' st := by
  intro low within
  obtain ⟨inside, bounded⟩ := h low (fun made member => within made (List.mem_append_left _ member))
  cases run : first with
  | none =>
      rw [run] at within
      refine ⟨?_, fun r none => absurd none.symm (Option.some_ne_none r)⟩
      simpa [callsAfter] using inside
  | some r =>
      rw [run] at within
      obtain ⟨inside', bounded'⟩ := h' r run (bounded r run).low
        (fun made member => within made (List.mem_append_right _ member))
      refine ⟨fun made member => ?_, fun r' run' => (bounded r run).trans (bounded' r' run')⟩
      exact (List.mem_append.mp member).elim (inside made) (inside' made)

/-- A first part without calls. -/
theorem Safe.after {First Result : Type} {first : Option First} {state : First → Kernel}
    {st : Kernel} {later : First → FrameCalls} {next : First → Option Result}
    {state' : Result → Kernel} (h : ∀ r, first = some r → Keeps st (state r))
    (h' : ∀ r, first = some r → Safe (later r) (next r) state' (state r))
    : Safe (callsAfter first later) (first.bind next) state' st :=
  (Safe.quiet h).bind h'

/-- A last part without calls. -/
theorem Safe.last {First Result : Type} {calls : FrameCalls} {first : Option First}
    {state : First → Kernel} {st : Kernel} {next : First → Option Result}
    {state' : Result → Kernel} (h : Safe calls first state st)
    (h' : ∀ r, first = some r → ∀ r', next r = some r' → Keeps (state r) (state' r'))
    : Safe calls (first.bind next) state' st := by
  intro low within
  obtain ⟨inside, bounded⟩ := h low within
  refine ⟨inside, fun r' run => ?_⟩
  obtain ⟨r, first', last⟩ := Option.bind_eq_some_iff.mp run
  exact (bounded r first').trans (h' r first' r' last (bounded r first').low)

/-- A page loop is safe when its rounds are, by induction on the rounds. -/
theorem Safe.forPages {body : Nat → Kernel → Option Kernel} {calls : Nat → Kernel → FrameCalls}
    (round : ∀ i st, Safe (calls i st) (body i st) id st) (stop fuel i : Nat) (st : Kernel)
    : Safe (forPagesCalls body calls stop fuel i st) (forPages body stop fuel i st) id st := by
  induction fuel generalizing i st with
  | zero => exact Safe.none
  | succ fuel ih =>
      rw [forPagesCalls, DeadKernel.forPages]
      by_cases below : i < stop
      · rw [if_pos below, if_pos below]
        exact (round i st).bind (fun next _ => ih _ next)
      · rw [if_neg below, if_neg below]
        exact Safe.quiet (fun r same => Keeps.of_same (by rw [← Option.some.inj same]; rfl)
          (by rw [← Option.some.inj same]; rfl))

-----------------------------------------------------------------------------------------
-- Pages
-----------------------------------------------------------------------------------------

/-- Every `_kmalloc` keeps to the block when its frame calls do. -/
def KmallocSafe (kmalloc : Kmalloc) (kmallocCalls : KmallocCalls) : Prop :=
  ∀ size align phys st,
    Safe (kmallocCalls size align st) (kmalloc size align phys st) (fun r => r.2.2) st

/-- A new page table maps nothing. -/
theorem keeps_newTable (st : Kernel) (table : Nat) (dirs : Nat → PageDir)
    : Keeps st { st with tables := update st.tables table PageTable.zero, dirs } := by
  refine fun low => ⟨fun ref => ?_, fun _ _ => rfl⟩
  by_cases here : ref.1 = table
  · simp only [Kernel.page, here, update_self, PageTable.zero, Page.zero]
    decide
  · simp only [Kernel.page, update_other here]
    exact low ref

theorem Safe.getPage {kmalloc : Kmalloc} {kmallocCalls : KmallocCalls}
    (h : KmallocSafe kmalloc kmallocCalls) (address : Nat) (make : Bool) (dir : Nat)
    (st : Kernel)
    : Safe (getPageCalls kmallocCalls address make dir st)
        (DeadKernel.getPage kmalloc address make dir st) (fun r => r.2) st := by
  rw [getPageCalls, DeadKernel.getPage]
  by_cases present : (st.dirs dir).tables (pageIndex address) ≠ 0
  · rw [if_pos present, if_pos present]
    exact Safe.quiet (fun r same => Option.some.inj same ▸ Keeps.of_same rfl rfl)
  · rw [if_neg present, if_neg present]
    cases make with
    | false => exact Safe.quiet (fun r same => Option.some.inj same ▸ Keeps.of_same rfl rfl)
    | true =>
        refine (h 4096 1 true st).last ?_
        rintro ⟨table, physAddress, made⟩ - r' same
        exact Option.some.inj same ▸ keeps_newTable made table _

/-- A round that fetches a page and makes one call on it. -/
theorem Safe.mapPage {kmalloc : Kmalloc} {kmallocCalls : KmallocCalls}
    (h : KmallocSafe kmalloc kmallocCalls) (make : Bool) (call : Kernel → PageRef → FrameCall)
    (i dir : Nat) (st : Kernel)
    : Safe (mapPageCalls kmalloc kmallocCalls make call i dir st)
        ((DeadKernel.getPage kmalloc i make dir st).bind
          (fun r => r.1.bind (fun page => (call r.2 page).run r.2))) id st := by
  refine (Safe.getPage h i make dir st).bind ?_
  rintro ⟨page, st'⟩ -
  cases page with
  | none => exact Safe.none
  | some page => exact Safe.call st' (call st' page)

theorem Safe.allocFramesMirrored {kmalloc : Kmalloc} {kmallocCalls : KmallocCalls}
    (h : KmallocSafe kmalloc kmallocCalls) (start stop : Nat) (makePage : Bool)
    (isKernel isWriteable : Nat) (st : Kernel)
    : Safe (allocFramesMirroredCalls kmalloc kmallocCalls start stop makePage isKernel
          isWriteable st)
        (DeadKernel.allocFramesMirrored kmalloc start stop makePage isKernel isWriteable st) id
        st := by
  refine Safe.forPages (fun i st => ?_) _ _ _ st
  exact Safe.mapPage h makePage (fun _ page => .link page i isKernel isWriteable) i st.currentDir st

theorem Safe.allocFrames {kmalloc : Kmalloc} {kmallocCalls : KmallocCalls}
    (h : KmallocSafe kmalloc kmallocCalls) (start stop : Nat) (makePage : Bool)
    (isKernel isWriteable : Nat) (st : Kernel)
    : Safe (allocFramesCalls kmalloc kmallocCalls start stop makePage isKernel isWriteable st)
        (DeadKernel.allocFrames kmalloc start stop makePage isKernel isWriteable st) id st := by
  refine Safe.forPages (fun i st => ?_) _ _ _ st
  exact Safe.mapPage h makePage (fun _ page => .alloc page isKernel isWriteable) i st.currentDir st

-----------------------------------------------------------------------------------------
-- Heaps
-----------------------------------------------------------------------------------------

theorem Safe.expandPage {kmalloc : Kmalloc} {kmallocCalls : KmallocCalls}
    (h : KmallocSafe kmalloc kmallocCalls) (heap i : Nat) (st : Kernel)
    : Safe (expandPageCalls kmalloc kmallocCalls heap i st)
        (DeadKernel.expandPage kmalloc heap i st) id st := by
  refine (Safe.getPage h _ true _ st).bind ?_
  rintro ⟨page, made⟩ -
  cases page with
  | none => exact Safe.none
  | some page =>
      refine (Safe.call made _).last (fun r _ r' shown => ?_)
      rw [← Option.some.inj shown, showFrame]
      split
      · exact Keeps.of_same rfl rfl
      · exact Keeps.of_same rfl rfl

theorem Safe.expand {kmalloc : Kmalloc} {kmallocCalls : KmallocCalls}
    (h : KmallocSafe kmalloc kmallocCalls) (newSize heap : Nat) (st : Kernel)
    : Safe (expandCalls kmalloc kmallocCalls newSize heap st)
        (DeadKernel.expand kmalloc newSize heap st) id st := by
  rw [expandCalls, DeadKernel.expand]
  by_cases larger : newSize > sub32 (st.heaps heap).endAddr (st.heaps heap).startAddr
  · by_cases fits : u32 ((st.heaps heap).startAddr + roundToPage newSize)
        ≤ (st.heaps heap).maxAddr
    · rw [if_pos ⟨larger, fits⟩]
      simp only [guard, if_pos larger, if_pos fits, Option.bind_eq_bind, Option.pure_def,
        Option.bind_some]
      refine (Safe.forPages (Safe.expandPage h heap) _ _ _ st).last (fun r _ r' same => ?_)
      exact Option.some.inj same ▸ Keeps.of_same rfl rfl
    · rw [if_neg (fun both => fits both.2)]
      simp only [guard, if_pos larger, if_neg fits, Option.bind_eq_bind, Option.pure_def,
        Option.bind_some, Option.failure_eq_none, Option.bind_none]
      exact Safe.none
  · rw [if_neg (fun both => larger both.1)]
    simp only [guard, if_neg larger, Option.bind_eq_bind, Option.failure_eq_none,
      Option.bind_none]
    exact Safe.none

/-- Looking a page up changes nothing. -/
theorem keeps_lookup {kmalloc : Kmalloc} {address dir : Nat} {st : Kernel}
    {r : Option PageRef × Kernel} (run : getPage kmalloc address false dir st = some r)
    : Keeps st r.2 := by
  rw [getPage] at run
  split at run
  · exact Option.some.inj run ▸ Keeps.of_same rfl rfl
  · exact Option.some.inj run ▸ Keeps.of_same rfl rfl

theorem Safe.contractPages (heap newSize fuel i : Nat) (st : Kernel)
    : Safe (contractPagesCalls heap newSize fuel i st)
        (DeadKernel.contractPages heap newSize fuel i st) id st := by
  induction fuel generalizing i st with
  | zero => exact Safe.none
  | succ fuel ih =>
      rw [contractPagesCalls, DeadKernel.contractPages]
      by_cases more : newSize ≤ i
      · rw [if_pos more, if_pos more]
        refine Safe.after (fun r run => keeps_lookup run) ?_
        rintro ⟨page, found⟩ -
        cases page with
        | none => exact Safe.none
        | some page =>
            refine (Safe.call found (.free page)).bind (fun freed run => ?_)
            obtain rfl := Option.some.inj run
            exact ih _ _
      · rw [if_neg more, if_neg more]
        exact Safe.quiet (fun r same => Option.some.inj same ▸ Keeps.of_same rfl rfl)

theorem Safe.contract (newSize heap : Nat) (st : Kernel)
    : Safe (contractCalls newSize heap st) (DeadKernel.contract newSize heap st) (fun r => r.2) st
    := by
  rw [contractCalls, DeadKernel.contract]
  by_cases smaller : newSize < sub32 (st.heaps heap).endAddr (st.heaps heap).startAddr
  · rw [if_pos smaller]
    simp only [guard, if_pos smaller, Option.bind_eq_bind, Option.pure_def, Option.bind_some]
    refine (Safe.contractPages heap _ _ _ st).last (fun r _ r' same => ?_)
    exact Option.some.inj same ▸ Keeps.of_same rfl rfl
  · rw [if_neg smaller]
    simp only [guard, if_neg smaller, Option.bind_eq_bind, Option.failure_eq_none,
      Option.bind_none]
    exact Safe.none

/-- Writing to plain memory accesses nothing. -/
theorem OnlyMem.keeps {st st' : Kernel} (h : OnlyMem st st') : Keeps st st' := by
  obtain ⟨m, rfl⟩ := h
  exact Keeps.of_same rfl rfl

/-- A part behind a step that accesses nothing. -/
theorem Safe.behind {Result : Type} {calls : FrameCalls} {result : Option Result}
    {state : Result → Kernel} {st st' : Kernel} (h : Safe calls result state st')
    (step : Keeps st st')
    : Safe calls result state st := by
  intro low within
  obtain ⟨inside, bounded⟩ := h (step low).low within
  exact ⟨inside, fun r run => (step low).trans (bounded r run)⟩

theorem Safe.releaseBlock (block size heap : Nat) (st : Kernel)
    : Safe (releaseBlockCalls block size heap st) (DeadKernel.releaseBlock block size heap st) id
        st := by
  rw [releaseBlockCalls, DeadKernel.releaseBlock]
  dsimp only
  by_cases last : chunkPlusOffset block size = (st.heaps heap).endAddr
  · rw [if_pos last, if_pos last]
    refine (Safe.contract _ heap st).last ?_
    rintro ⟨newSize, shrunk⟩ - r' run
    dsimp only at run
    split at run
    · exact (listBlock_onlyMem run).keeps
    · exact (listBlock_onlyMem run).keeps
  · rw [if_neg last, if_neg last]
    exact Safe.quiet (fun r run => (OnlyMem.write st _).keeps.trans (listBlock_onlyMem run).keeps)

theorem Safe.free (ptr heap : Nat) (st : Kernel)
    : Safe (freeCalls ptr heap st) (DeadKernel.free ptr heap st) id st := by
  rw [freeCalls, DeadKernel.free]
  by_cases null : ptr = 0
  · rw [if_pos null, if_pos null]
    exact Safe.quiet (fun r same => Option.some.inj same ▸ (OnlyMem.refl st).keeps)
  rw [if_neg null, if_neg null]
  by_cases outside : ¬ okAddress ptr (st.heaps heap)
  · rw [if_pos outside, if_pos outside]
    exact Safe.none
  rw [if_neg outside, if_neg outside]
  by_cases unused : ¬ okInuse st.mem (mem2Chunk ptr)
  · rw [if_pos unused, if_pos unused]
    exact Safe.none
  rw [if_neg unused, if_neg unused]
  refine Safe.after (fun r run => (mergePrev_onlyMem run).keeps) ?_
  rintro ⟨block, size, merged⟩ -
  refine Safe.after (fun r run => (mergeNext_onlyMem run).keeps) ?_
  rintro ⟨size', merged'⟩ -
  exact Safe.releaseBlock block size' heap merged'

theorem Safe.trimTail (nb chunk heap : Nat) (st : Kernel)
    : Safe (trimTailCalls nb chunk heap st) (DeadKernel.trimTail nb chunk heap st) id st := by
  rw [trimTailCalls, DeadKernel.trimTail]
  dsimp only
  by_cases rest : u32 (nb + minChunkSize) < chunksize st.mem chunk
  · rw [if_pos rest, if_pos rest]
    exact (Safe.free _ heap _).behind (OnlyMem.write st _).keeps
  · rw [if_neg rest, if_neg rest]
    exact Safe.quiet (fun r same => Option.some.inj same ▸ (OnlyMem.refl st).keeps)

/-- Every `alloc` keeps to the block when its frame calls do. -/
def AllocSafe (alloc : Alloc) (allocCalls : AllocCalls) : Prop :=
  ∀ size heap st, Safe (allocCalls size heap st) (alloc size heap st) (fun r => r.2) st

theorem Safe.palignedAlloc {alloc : Alloc} {allocCalls : AllocCalls}
    (h : AllocSafe alloc allocCalls) (size heap : Nat) (st : Kernel)
    : Safe (palignedAllocCalls alloc allocCalls size heap st)
        (palignedAllocWith alloc size heap st) (fun r => r.2) st := by
  rw [palignedAllocCalls, palignedAllocWith]
  refine (h _ heap st).bind ?_
  rintro ⟨mem, taken⟩ -
  dsimp only
  by_cases null : mem = 0
  · rw [if_pos null, if_pos null]
    exact Safe.quiet (fun r same => Option.some.inj same ▸ (OnlyMem.refl taken).keeps)
  · rw [if_neg null, if_neg null]
    refine Safe.after (fun r run => (carveLead_onlyMem run).keeps) ?_
    rintro ⟨chunk, carved⟩ -
    refine (Safe.trimTail _ chunk heap carved).last (fun trimmed _ r run => ?_)
    simp only [Option.bind_eq_bind, Option.bind_eq_some_iff, Option.some.injEq] at run
    obtain ⟨-, -, -, -, -, -, rfl⟩ := run
    exact (OnlyMem.refl trimmed).keeps

/-- The end of `heap_malloc`, which looks up the physical address when it is asked for. -/
theorem keeps_physical {addr heap : Nat} {phys : Bool} {st : Kernel} {r : Nat × Nat × Kernel}
    (run : (if phys then do
        let (page, st) ← getPage (fun _ _ _ _ => none) addr false (st.heaps heap).pageDir st
        let page ← page
        some (addr, u32 ((st.page page).frame * pageSize + addr % pageSize), st)
      else some (addr, 0, st)) = some r)
    : Keeps st r.2.2 := by
  split at run
  · simp only [Option.bind_eq_bind, Option.bind_eq_some_iff, Option.some.injEq] at run
    obtain ⟨⟨page, found⟩, lookup, -, -, rfl⟩ := run
    exact keeps_lookup lookup
  · exact Option.some.inj run ▸ (OnlyMem.refl st).keeps

theorem Safe.heapMalloc {alloc : Alloc} {allocCalls : AllocCalls}
    (h : AllocSafe alloc allocCalls) (heap size align : Nat) (phys : Bool) (st : Kernel)
    : Safe (heapMallocCalls alloc allocCalls heap size align st)
        (heapMallocWith alloc heap size align phys st) (fun r => r.2.2) st := by
  rw [heapMallocCalls, heapMallocWith]
  by_cases null : heap = 0
  · rw [if_pos null, if_pos null]
    exact Safe.quiet (fun r same => Option.some.inj same ▸ (OnlyMem.refl st).keeps)
  rw [if_neg null, if_neg null]
  by_cases aligned : align ≠ 0
  · rw [if_pos aligned, if_pos aligned]
    exact (Safe.palignedAlloc h size heap st).last (fun r _ r' run => keeps_physical run)
  · rw [if_neg aligned, if_neg aligned]
    exact (h size heap st).last (fun r _ r' run => keeps_physical run)

theorem AllocSafe.kmalloc {alloc : Alloc} {allocCalls : AllocCalls}
    (h : AllocSafe alloc allocCalls)
    : KmallocSafe (kmallocWith alloc) (kmallocCallsWith alloc allocCalls) := by
  intro size align phys st
  rw [kmallocCallsWith, kmallocWith]
  by_cases ready : st.kernelHeap ≠ 0
  · rw [if_pos ready, if_pos ready]
    exact Safe.heapMalloc h _ size align phys st
  · rw [if_neg ready, if_neg ready]
    exact Safe.quiet (fun r same => Option.some.inj same ▸ Keeps.of_same rfl rfl)

/-- `alloc` keeps to the block when its frame calls do, by induction on the depth of its
nested calls.
-/
theorem alloc_safe (fuel : Nat) : AllocSafe (alloc fuel) (allocCalls fuel) := by
  induction fuel with
  | zero => exact fun _ _ _ => Safe.none
  | succ fuel ih =>
      intro size heap st
      rw [allocCalls, alloc]
      dsimp only
      generalize findSmallestChunk (request2Size size) (headOf heap) st.mem = found
      cases found with
      | none => exact Safe.none
      | some hole =>
          show Safe (if hole = 0 then _ else _) (if hole = 0 then _ else _) _ st
          by_cases full : hole = 0
          · rw [if_pos full, if_pos full]
            refine (Safe.expand ih.kmalloc _ heap st).bind (fun grown _ => ?_)
            refine Safe.after (fun r run => (growTop_onlyMem run).keeps) (fun topped _ => ?_)
            exact ih size heap topped
          · rw [if_neg full, if_neg full]
            exact Safe.quiet (fun r run => (takeHole_onlyMem run).keeps)

theorem kmalloc_safe (fuel : Nat) : KmallocSafe (kmalloc fuel) (kmallocCalls fuel) :=
  (alloc_safe fuel).kmalloc

-----------------------------------------------------------------------------------------
-- Booting
-----------------------------------------------------------------------------------------

theorem Safe.allocKernelSection (sec : Option SectionHeader) (st : Kernel)
    : Safe (allocKernelSectionCalls sec st) (DeadKernel.allocKernelSection (kmalloc 1) sec st) id
        st := by
  cases sec with
  | none => exact Safe.quiet (fun r same => Option.some.inj same ▸ (OnlyMem.refl st).keeps)
  | some sec => exact Safe.allocFramesMirrored (kmalloc_safe 1) _ _ true 1 _ st

theorem Safe.kernelSections (lookup : String → Option SectionHeader) (names : List String)
    (st : Kernel)
    : Safe (kernelSectionsCalls lookup names st)
        (names.foldlM (fun st name =>
          DeadKernel.allocKernelSection (kmalloc 1) (lookup name) st) st) id st := by
  induction names generalizing st with
  | nil => exact Safe.quiet (fun r same => Option.some.inj same ▸ (OnlyMem.refl st).keeps)
  | cons name rest ih =>
      rw [kernelSectionsCalls, List.foldlM_cons]
      exact (Safe.allocKernelSection (lookup name) st).bind (fun next _ => ih next)

theorem Safe.mirrorKernel (boot : Boot) (st : Kernel)
    : Safe (mirrorKernelCalls boot st) (DeadKernel.mirrorKernel boot st) id st := by
  rw [mirrorKernelCalls, DeadKernel.mirrorKernel]
  cases boot.sections with
  | none => exact Safe.allocFramesMirrored (kmalloc_safe 1) _ _ true 1 0 st
  | some lookup =>
      refine (Safe.allocFramesMirrored (kmalloc_safe 1) _ _ true 0 0 st).bind (fun next _ => ?_)
      exact Safe.kernelSections lookup _ next

theorem Safe.initKheapTables (st : Kernel)
    : Safe (initKheapTablesCalls st) (DeadKernel.initKheapTables st) id st := by
  refine Safe.forPages (fun i st => ?_) _ _ _ st
  refine (Safe.getPage (kmalloc_safe 1) i true st.kernelDir st).last ?_
  rintro ⟨page, made⟩ - r same
  exact Option.some.inj same ▸ (OnlyMem.refl made).keeps

/-- Setting up the bitmap clears the words of the block and no others. -/
theorem Safe.initKernelDir (boot : Boot)
    : Safe (initKernelDirCalls boot) (DeadKernel.initKernelDir boot) id boot.kernel := by
  rw [initKernelDirCalls, DeadKernel.initKernelDir]
  refine (kmalloc_safe 1 (nframes / 32) 0 false boot.kernel).bind ?_
  rintro ⟨block, phys, st⟩ -
  have clears : Keeps st { st with
      frames := fun word => if word < nframes / 32 / 4 then 0#32 else st.frames word } :=
    fun low => ⟨fun ref => low ref, fun word behind => if_neg (not_lt.mpr behind)⟩
  refine ((kmalloc_safe 1 8196 1 false _).last ?_).behind clears
  rintro ⟨dir, phys', placed⟩ - r same
  exact Option.some.inj same ▸ Keeps.of_same rfl rfl

theorem Safe.initPaging (boot : Boot)
    : Safe (initPagingCalls boot) (DeadKernel.initPaging boot) id boot.kernel := by
  rw [initPagingCalls, DeadKernel.initPaging]
  refine (Safe.initKernelDir boot).bind (fun st _ => ?_)
  refine (Safe.initKheapTables st).bind (fun st _ => ?_)
  refine (kmalloc_safe 1 28 0 false st).bind ?_
  rintro ⟨kheapAddr, phys, st⟩ -
  refine (Safe.mirrorKernel boot st).bind (fun st _ => ?_)
  refine (Safe.allocFramesMirrored (kmalloc_safe 1) boot.kernelEnd _ true 1 0 st).bind
    (fun st _ => ?_)
  refine (Safe.allocFrames (kmalloc_safe 1) kheapStart _ true 1 1 st).last (fun st _ r run => ?_)
  simp only [Option.bind_eq_bind, Option.bind_eq_some_iff, Option.some.injEq] at run
  obtain ⟨made, created, rfl⟩ := run
  obtain ⟨frames, tables⟩ := createHeap_bitmap created
  exact Keeps.of_same tables frames

-----------------------------------------------------------------------------------------
-- Whole runs
-----------------------------------------------------------------------------------------

theorem Safe.event (fuel : Nat) (event : BitmapEvent) (st : Kernel)
    : Safe (event.calls fuel st) (event.run fuel st) id st := by
  cases event with
  | call made => exact Safe.call st made
  | mirror start stop makePage isKernel isWriteable =>
      exact Safe.allocFramesMirrored (kmalloc_safe fuel) start stop makePage isKernel isWriteable st
  | fault faultingAddress errCode cr3 cs =>
      simp only [BitmapEvent.calls, BitmapEvent.run, pageFault]
      split
      · exact Safe.allocFramesMirrored (kmalloc_safe fuel) _ _ true 0 0 st
      · exact Safe.none

theorem Safe.run (fuel : Nat) (events : List BitmapEvent) (st : Kernel)
    : Safe (runCalls fuel events st) (events.foldlM (BitmapEvent.run fuel) st) id st := by
  induction events generalizing st with
  | nil => exact Safe.quiet (fun r same => Option.some.inj same ▸ Keeps.of_same rfl rfl)
  | cons event rest ih =>
      rw [runCalls, List.foldlM_cons]
      exact (Safe.event fuel event st).bind (fun next _ => ih next)

/-- Before `initPaging` nothing is mapped. -/
theorem Boot.kernel_low (boot : Boot) : FramesLow boot.kernel := fun _ => by
  simp only [Kernel.page, Boot.kernel, PageTable.zero, Page.zero]
  decide

theorem Safe.boot (boot : Boot) (fuel : Nat) (events : List BitmapEvent)
    : Safe (bootCalls boot fuel events)
        ((DeadKernel.initPaging boot).bind (events.foldlM (BitmapEvent.run fuel))) id
        boot.kernel :=
  (Safe.initPaging boot).bind (fun st _ => Safe.run fuel events st)

/-- In every run from the start of `initPaging` on, all accesses to the bitmap stay in the
block obtained for it if and only if every linked address lies below 256 MiB and every
allocation is made while one of the first 65536 frames is free. The words behind the block
then never change.
-/
theorem bitmap_inside_iff (boot : Boot) (fuel : Nat) (events : List BitmapEvent)
    : ((bootCalls boot fuel events).Inside ↔ (bootCalls boot fuel events).Within)
      ∧ ((bootCalls boot fuel events).Within →
          ∀ st, (initPaging boot).bind (events.foldlM (BitmapEvent.run fuel)) = some st →
            ∀ word, storedWords ≤ word → st.frames word = boot.bitmap word) := by
  have safe := Safe.boot boot fuel events boot.kernel_low
  refine ⟨⟨fun inside made member => ?_, fun within => (safe within).1⟩, fun within st run => ?_⟩
  · exact FrameCall.within_of_inside (inside made member)
  · exact ((safe within).2 st run).behind

/-- A link at 256 MiB accesses the word behind the block, here after booting a machine whose
kernel ends at 0x120000.
-/
theorem bitmap_outside
    : ∃ events : List BitmapEvent, ¬ (bootCalls plainBoot 1 events).Inside := by
  obtain ⟨start, booted⟩ := plainBoot_boots
  let ref : PageRef := ((start.dirs start.kernelDir).tables 0x300, 512)
  have empty : ((freeFrame ref start).page ref).frame = 0 := (freeFrame_empties ref start).1
  refine ⟨[.call (.free ref), .call (.link ref 0x10000000 1 1)], fun inside => ?_⟩
  have member : (freeFrame ref start, FrameCall.link ref 0x10000000 1 1)
      ∈ bootCalls plainBoot 1 [.call (.free ref), .call (.link ref 0x10000000 1 1)] := by
    rw [bootCalls, booted]
    exact List.mem_append_right _ (by simp [callsAfter, runCalls, BitmapEvent.calls,
      BitmapEvent.run, FrameCall.run])
  have word := inside _ member (addressWord 0x10000000) (by simp [FrameCall.words, empty])
  exact absurd word (by decide)

end DeadKernel
