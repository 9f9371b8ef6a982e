import DeadKernel.Shared.Strings

/-! Tokens of a string. `strtok` keeps where it stopped in a static pointer, but not when it finds
no token in a new string: then the next call goes on in the string before.
-/

namespace DeadKernel

-----------------------------------------------------------------------------------------
-- strtok
-----------------------------------------------------------------------------------------

/-- Memory, and the static pointer of `strtok`. -/
structure Tokenizer where
  memory : CharMemory
  backupString : BitVec 32

/-- `is_delim`. Here and below no result stands for too few rounds. -/
def isDelim (memory : CharMemory) (c : UInt8) : Nat → BitVec 32 → Option Bool
  | 0, _ => none
  | fuel + 1, delim =>
      if memory delim = 0 then some false
      else if c = memory delim then some true
      else isDelim memory c fuel (delim + 1)

/-- `srcString++`, which does not leave the address space. -/
def advance (srcString : BitVec 32) : Option (BitVec 32) :=
  if srcString + 1 = 0 then none else some (srcString + 1)

/-- The first loop of `strtok`: the first character that is no delimiter. -/
def skipDelims (memory : CharMemory) (delim : BitVec 32) : Nat → BitVec 32 → Option (BitVec 32)
  | 0, _ => none
  | fuel + 1, srcString => do
      let delimiter ← isDelim memory (memory srcString) fuel delim
      if delimiter then (advance srcString).bind (skipDelims memory delim fuel)
      else some srcString

/-- The second loop of `strtok`: the end of the token. -/
def cutToken (memory : CharMemory) (delim : BitVec 32) : Nat → BitVec 32 → Option Tokenizer
  | 0, _ => none
  | fuel + 1, srcString =>
      if memory srcString = 0 then some ⟨memory, srcString⟩
      else do
        let delimiter ← isDelim memory (memory srcString) fuel delim
        if delimiter then some ⟨Function.update memory srcString 0, srcString + 1⟩
        else (advance srcString).bind (cutToken memory delim fuel)

/-- `strtok`: the pointer that it returns, and the state. -/
def strtok (fuel : Nat) (srcString delim : BitVec 32) (st : Tokenizer)
    : Option (BitVec 32 × Tokenizer) :=
  let srcString := if srcString = 0 then st.backupString else srcString
  if srcString = 0 then some (0, st)
  else do
    let ret ← skipDelims st.memory delim fuel srcString
    if st.memory ret = 0 then some (0, st)
    else do
      let st ← cutToken st.memory delim fuel ret
      some (ret, st)

-----------------------------------------------------------------------------------------
-- Runs and calls
-----------------------------------------------------------------------------------------

/-- The maximal runs without a delimiter. -/
def runsOf (d text : List UInt8) : List (List UInt8) :=
  (text.splitOnP (fun c => c ∈ d)).filter (fun run => run ≠ [])

/-- A string that does not go round the address space, nor begins at the null pointer. -/
structure Placed (memory : CharMemory) (address : BitVec 32) (text : List UInt8) : Prop
    extends StringAt memory address text where
  some_ : address ≠ 0
  fits : address.toNat + text.length < 2 ^ 32

/-- A call of `strtok` that returns. -/
def Returns (srcString delim : BitVec 32) (st : Tokenizer) (ret : BitVec 32) (st' : Tokenizer)
    : Prop :=
  ∃ enough, ∀ fuel, enough ≤ fuel → strtok fuel srcString delim st = some (ret, st')

/-- What a call has to return: the next run, or the null pointer. -/
def Serves (runs : List (List UInt8)) (ret : BitVec 32) (st : Tokenizer) : Prop :=
  match runs.head? with
  | none => ret = 0
  | some run => ret ≠ 0 ∧ StringAt st.memory ret run

/-- A number of calls, the first with `srcString` and the later ones with the null pointer, return
the runs and then null pointers. Each call has the delimiters wherever they stand.
-/
def Tokenised (d : List UInt8) : Nat → BitVec 32 → List (List UInt8) → Tokenizer → Prop
  | 0, _, _, _ => True
  | calls + 1, srcString, runs, st =>
      ∀ delim, StringAt st.memory delim d →
        ∃ ret st', Returns srcString delim st ret st' ∧ Serves runs ret st'
          ∧ Tokenised d calls 0 runs.tail st'

section Runs

variable {d text : List UInt8}

theorem runsOf_delim {c : UInt8} (mem : c ∈ d) (rest : List UInt8)
    : runsOf d (c :: rest) = runsOf d rest := by
  simp [runsOf, List.splitOnP_cons_eq_if_modifyHead, mem]

theorem runsOf_delims (all : ∀ c ∈ text, c ∈ d) : runsOf d text = [] := by
  induction text with
  | nil => simp [runsOf]
  | cons c rest ih =>
      rw [runsOf_delim (all c List.mem_cons_self)]
      exact ih (fun c mem => all c (List.mem_cons_of_mem _ mem))

theorem runsOf_last {run : List UInt8} (some_ : run ≠ []) (none_ : ∀ c ∈ run, c ∉ d)
    : runsOf d run = [run] := by
  rw [runsOf, List.splitOnP_eq_singleton (by simpa using none_)]
  simp [some_]

theorem runsOf_run {run : List UInt8} {c : UInt8} (some_ : run ≠ []) (none_ : ∀ c ∈ run, c ∉ d)
    (mem : c ∈ d) (rest : List UInt8)
    : runsOf d (run ++ c :: rest) = run :: runsOf d rest := by
  rw [runsOf, List.splitOnP_append_cons_of_forall_mem (by simpa using none_) c (by simpa using mem)]
  simp [runsOf, some_]

/-- Delimiters in front of a string change nothing about its runs. -/
theorem runsOf_dropWhile (d text : List UInt8)
    : runsOf d (text.dropWhile (fun c => c ∈ d)) = runsOf d text := by
  induction text with
  | nil => rfl
  | cons c rest ih =>
      rw [List.dropWhile_cons]
      split
      · rename_i mem
        rw [ih, runsOf_delim (by simpa using mem)]
      · rfl

end Runs

-----------------------------------------------------------------------------------------
-- The loops
-----------------------------------------------------------------------------------------

section Loops

variable {memory : CharMemory} {srcString delim : BitVec 32} {d text : List UInt8}

/-- The address behind one that is not the last. -/
theorem toNat_next {address : BitVec 32} (fits : address.toNat + 1 < 2 ^ 32)
    : (address + 1).toNat = address.toNat + 1 := by
  rw [BitVec.toNat_add]
  exact Nat.mod_eq_of_lt fits

theorem advance_eq {address : BitVec 32} (fits : address.toNat + 1 < 2 ^ 32)
    : advance address = some (address + 1) := by
  refine if_neg (fun zero => ?_)
  have next := toNat_next fits
  rw [zero] at next
  contradiction

theorem advance_some {address next : BitVec 32} (goes : advance address = some next)
    : next = address + 1 ∧ next ≠ 0 ∧ next.toNat = address.toNat + 1 := by
  rw [advance] at goes
  split at goes
  · contradiction
  · rename_i some_
    cases goes
    refine ⟨rfl, some_, toNat_next ?_⟩
    by_contra last
    refine some_ ?_
    have bound := address.isLt
    rw [← BitVec.toNat_inj, BitVec.toNat_add]
    change (_ + 1) % 2 ^ 32 = 0
    omega

theorem Placed.next {c : UInt8} {rest : List UInt8} (placed : Placed memory srcString (c :: rest))
    : memory srcString = c ∧ c ≠ 0 ∧ advance srcString = some (srcString + 1)
      ∧ (srcString + 1).toNat = srcString.toNat + 1 ∧ Placed memory (srcString + 1) rest := by
  obtain ⟨string, some_, fits⟩ := placed
  rw [List.length_cons] at fits
  obtain ⟨here, notNul, later⟩ := string.cons
  have goes := advance_eq (by omega : srcString.toNat + 1 < 2 ^ 32)
  obtain ⟨-, notNull, number⟩ := advance_some goes
  exact ⟨here, notNul, goes, number, later, notNull, by omega⟩

/-- A character in front of a string is not part of it. -/
theorem Placed.written (placed : Placed memory srcString text) {address : BitVec 32}
    (before : address.toNat < srcString.toNat) (c : UInt8)
    : Placed (Function.update memory address c) srcString text := by
  have apart : srcString ≠ address := by
    rintro rfl
    omega
  induction text generalizing srcString with
  | nil =>
      refine ⟨⟨⟨?_, trivial⟩, placed.noNul⟩, placed.some_, placed.fits⟩
      rw [Function.update_of_ne apart]
      exact placed.toStringAt.nul
  | cons x rest ih =>
      obtain ⟨here, -, -, number, later⟩ := placed.next
      have behind : address.toNat < (srcString + 1).toNat := by omega
      have rest := ih later behind (fun same => by rw [same] at behind; omega)
      refine ⟨⟨⟨?_, rest.bytes⟩, placed.noNul⟩, placed.some_, placed.fits⟩
      rw [Function.update_of_ne apart, here]

/-- What `is_delim` gives is right, and it comes to an end, by induction over the delimiters. -/
theorem isDelim_some (at_ : StringAt memory delim d) {c : UInt8} {fuel : Nat} {b : Bool}
    (run : isDelim memory c fuel delim = some b)
    : b = decide (c ∈ d) := by
  induction d generalizing delim fuel with
  | nil =>
      cases fuel with
      | zero => contradiction
      | succ fuel =>
          rw [isDelim, if_pos at_.nul] at run
          cases run
          simp
  | cons x rest ih =>
      cases fuel with
      | zero => contradiction
      | succ fuel =>
          obtain ⟨here, some_, later⟩ := at_.cons
          rw [isDelim, if_neg (by rwa [here]), here] at run
          by_cases same : c = x
          · rw [if_pos same] at run
            cases run
            simp [same]
          · rw [if_neg same] at run
            rw [ih later run]
            simp [same]

theorem isDelim_eq (at_ : StringAt memory delim d) (c : UInt8) {fuel : Nat}
    (enough : d.length < fuel)
    : isDelim memory c fuel delim = some (decide (c ∈ d)) := by
  have returns : ∃ b, isDelim memory c fuel delim = some b := by
    induction d generalizing delim fuel with
    | nil =>
        obtain ⟨fuel, rfl⟩ : ∃ more, fuel = more + 1 := ⟨fuel - 1, by omega⟩
        exact ⟨false, by rw [isDelim, if_pos at_.nul]⟩
    | cons x rest ih =>
        obtain ⟨fuel, rfl⟩ : ∃ more, fuel = more + 1 := ⟨fuel - 1, by omega⟩
        obtain ⟨here, some_, later⟩ := at_.cons
        rw [isDelim, if_neg (by rwa [here]), here]
        by_cases same : c = x
        · exact ⟨true, if_pos same⟩
        · rw [if_neg same]
          exact ih later (by simpa using enough)
  obtain ⟨b, run⟩ := returns
  rw [run, isDelim_some at_ run]

/-- The first loop stops behind the delimiters in front. -/
theorem skipDelims_eq (at_ : StringAt memory delim d) (placed : Placed memory srcString text)
    : ∃ ret, (∀ fuel, text.length + d.length + 1 < fuel →
        skipDelims memory delim fuel srcString = some ret)
      ∧ Placed memory ret (text.dropWhile (fun c => c ∈ d)) := by
  induction text generalizing srcString with
  | nil =>
      refine ⟨srcString, fun fuel enough => ?_, placed⟩
      obtain ⟨fuel, rfl⟩ : ∃ more, fuel = more + 1 := ⟨fuel - 1, by omega⟩
      rw [skipDelims, placed.toStringAt.nul, isDelim_eq at_ 0 (by simp at enough; omega)]
      simp [at_.noNul]
  | cons c rest ih =>
      obtain ⟨here, -, goes, -, later⟩ := placed.next
      by_cases mem : c ∈ d
      · obtain ⟨ret, runs, there⟩ := ih later
        rw [List.dropWhile_cons_of_pos (by simpa using mem)]
        refine ⟨ret, fun fuel enough => ?_, there⟩
        rw [List.length_cons] at enough
        obtain ⟨fuel, rfl⟩ : ∃ more, fuel = more + 1 := ⟨fuel - 1, by omega⟩
        rw [skipDelims, here, isDelim_eq at_ c (by omega), goes]
        simpa [mem] using runs fuel (by omega)
      · rw [List.dropWhile_cons_of_neg (by simpa using mem)]
        refine ⟨srcString, fun fuel enough => ?_, placed⟩
        obtain ⟨fuel, rfl⟩ : ∃ more, fuel = more + 1 := ⟨fuel - 1, by omega⟩
        rw [skipDelims, here, isDelim_eq at_ c (by omega)]
        simp [mem]

/-- Where the first loop ends at a NUL, it has passed a string of delimiters. -/
theorem skipDelims_some (at_ : StringAt memory delim d) {fuel : Nat} {ret : BitVec 32}
    (some_ : srcString ≠ 0) (run : skipDelims memory delim fuel srcString = some ret)
    : ret ≠ 0 ∧ (memory ret = 0 →
        ∃ rest, Placed memory srcString rest ∧ ∀ c ∈ rest, c ∈ d) := by
  induction fuel generalizing srcString with
  | zero => contradiction
  | succ fuel ih =>
      rw [skipDelims] at run
      obtain ⟨delimiter, is, run⟩ := Option.bind_eq_some_iff.mp run
      have right := isDelim_some at_ is
      cases delimiter with
      | false =>
          cases run
          refine ⟨some_, fun nul => ⟨[], ⟨⟨⟨nul, trivial⟩, by simp⟩, some_, ?_⟩, by simp⟩⟩
          simpa using ret.isLt
      | true =>
          obtain ⟨next, goes, run⟩ := Option.bind_eq_some_iff.mp run
          obtain ⟨rfl, notNull, number⟩ := advance_some goes
          obtain ⟨found, passed⟩ := ih notNull run
          refine ⟨found, fun nul => ?_⟩
          obtain ⟨rest, placed, all⟩ := passed nul
          have mem : memory srcString ∈ d := by simpa using right.symm
          have notNul : memory srcString ≠ 0 := fun zero => at_.noNul (zero ▸ mem)
          refine ⟨memory srcString :: rest, ⟨⟨⟨rfl, placed.bytes⟩, ?_⟩, some_, ?_⟩, ?_⟩
          · simp [Ne.symm notNul, placed.noNul]
          · have fits := placed.fits
            rw [List.length_cons]
            omega
          · simpa [mem] using all

/-- The second loop cuts off the characters up to the next delimiter, and changes nothing in front
of them.
-/
theorem cutToken_eq (at_ : StringAt memory delim d) (placed : Placed memory srcString text)
    : ∃ run rest st, (∀ fuel, text.length + d.length + 1 < fuel →
        cutToken memory delim fuel srcString = some st)
      ∧ (∀ c ∈ run, c ∉ d) ∧ ((text = run ∧ rest = []) ∨ ∃ c ∈ d, text = run ++ c :: rest)
      ∧ StringAt st.memory srcString run ∧ Placed st.memory st.backupString rest
      ∧ ∀ address : BitVec 32, address.toNat < srcString.toNat →
        st.memory address = memory address := by
  induction text generalizing srcString with
  | nil =>
      refine ⟨[], [], ⟨memory, srcString⟩, fun fuel enough => ?_, by simp, .inl ⟨rfl, rfl⟩,
        placed.toStringAt, placed, fun _ _ => rfl⟩
      obtain ⟨fuel, rfl⟩ : ∃ more, fuel = more + 1 := ⟨fuel - 1, by omega⟩
      rw [cutToken, if_pos placed.toStringAt.nul]
  | cons c rest ih =>
      obtain ⟨here, notNul, goes, number, later⟩ := placed.next
      have goesOn : ¬ memory srcString = 0 := by rwa [here]
      by_cases mem : c ∈ d
      · refine ⟨[], rest, ⟨Function.update memory srcString 0, srcString + 1⟩,
          fun fuel enough => ?_, by simp, .inr ⟨c, mem, rfl⟩, ?_, ?_, fun address before => ?_⟩
        · rw [List.length_cons] at enough
          obtain ⟨fuel, rfl⟩ : ∃ more, fuel = more + 1 := ⟨fuel - 1, by omega⟩
          rw [cutToken, if_neg goesOn, here, isDelim_eq at_ c (by omega)]
          simp [mem]
        · exact ⟨⟨Function.update_self _ _ _, trivial⟩, by simp⟩
        · exact later.written (by omega) 0
        · refine Function.update_of_ne ?_ _ _
          rintro rfl
          omega
      · obtain ⟨run, rest', st, runs, none_, parts, token, behind, kept⟩ := ih later
        refine ⟨c :: run, rest', st, fun fuel enough => ?_, ?_, ?_, ?_, behind,
          fun address before => kept address (by omega)⟩
        · rw [List.length_cons] at enough
          obtain ⟨fuel, rfl⟩ : ∃ more, fuel = more + 1 := ⟨fuel - 1, by omega⟩
          rw [cutToken, if_neg goesOn, here, isDelim_eq at_ c (by omega), goes]
          simpa [mem] using runs fuel (by omega)
        · simpa [mem] using none_
        · rcases parts with ⟨rfl, rfl⟩ | ⟨sep, isSep, rfl⟩
          · exact .inl ⟨rfl, rfl⟩
          · exact .inr ⟨sep, isSep, rfl⟩
        · refine ⟨⟨?_, token.bytes⟩, by simp [Ne.symm notNul, token.noNul]⟩
          rw [kept srcString (by omega), here]

end Loops

-----------------------------------------------------------------------------------------
-- Calls
-----------------------------------------------------------------------------------------

section Calls

variable {st : Tokenizer} {srcString delim src : BitVec 32} {d text : List UInt8}

/-- A call that goes on at a string: it returns the null pointer if the string has no run, and else
the first run, with the rest of the string for the next call.
-/
theorem strtok_spec (resolved : (if srcString = 0 then st.backupString else srcString) = src)
    (placed : Placed st.memory src text) (at_ : StringAt st.memory delim d)
    : (runsOf d text = [] ∧ Returns srcString delim st 0 st)
      ∨ ∃ run rest ret st', runsOf d text = run :: runsOf d rest
        ∧ Returns srcString delim st ret st' ∧ ret ≠ 0 ∧ StringAt st'.memory ret run
        ∧ Placed st'.memory st'.backupString rest := by
  obtain ⟨ret, skips, there⟩ := skipDelims_eq at_ placed
  rw [← runsOf_dropWhile]
  cases left : text.dropWhile (fun c => c ∈ d) with
  | nil =>
      rw [left] at there
      refine .inl ⟨runsOf_delims (by simp), text.length + d.length + 2, fun fuel enough => ?_⟩
      simp only [strtok, resolved, if_neg placed.some_, skips fuel (by omega)]
      exact if_pos there.toStringAt.nul
  | cons c rest =>
      rw [left] at there
      have starts : c ∉ d := by
        have some_ : text.dropWhile (fun c => c ∈ d) ≠ [] := by
          rw [left]
          exact List.cons_ne_nil _ _
        have first := List.head_dropWhile_not (fun c => decide (c ∈ d)) some_
        simpa [left] using first
      obtain ⟨run, rest', st', cuts, none_, parts, token, behind, -⟩ := cutToken_eq at_ there
      have some_ : run ≠ [] := by
        rintro rfl
        rcases parts with ⟨empty, -⟩ | ⟨sep, isSep, same⟩
        · contradiction
        · rw [List.nil_append, List.cons.injEq] at same
          exact starts (same.1 ▸ isSep)
      have runs : runsOf d (c :: rest) = run :: runsOf d rest' := by
        rcases parts with ⟨same, rfl⟩ | ⟨sep, isSep, same⟩
        · rw [same, runsOf_last some_ none_, runsOf_delims (by simp)]
        · rw [same, runsOf_run some_ none_ isSep]
      refine .inr ⟨run, rest', ret, st', runs,
        ⟨text.length + (c :: rest).length + d.length + 2, fun fuel enough => ?_⟩, there.some_,
        token, behind⟩
      have notNul : ¬ st.memory ret = 0 := by
        obtain ⟨here, notNul, -⟩ := there.next
        rwa [here]
      simp only [strtok, resolved, if_neg placed.some_, skips fuel (by omega)]
      change (if st.memory ret = 0 then _ else _) = _
      rw [if_neg notNul, cuts fuel (by omega)]
      rfl

/-- The null pointer stays what a call returns when there is no string to go on with. -/
theorem tokenised_null (none_ : st.backupString = 0) (calls : Nat)
    : Tokenised d calls 0 [] st := by
  induction calls with
  | zero => trivial
  | succ calls ih =>
      refine fun delim at_ => ⟨0, st, ⟨0, fun fuel _ => ?_⟩, rfl, ih⟩
      simp [strtok, none_]

/-- The calls after the first return the runs of the rest, by induction over the calls. -/
theorem tokenised_rest (placed : Placed st.memory st.backupString text) (calls : Nat)
    : Tokenised d calls 0 (runsOf d text) st := by
  induction calls generalizing st text with
  | zero => trivial
  | succ calls ih =>
      intro delim at_
      rcases strtok_spec (if_pos rfl) placed at_ with
        ⟨empty, returns⟩ | ⟨run, rest, ret, st', runs, returns, some_, token, behind⟩
      · have more := ih placed
        rw [empty] at more ⊢
        exact ⟨0, st, returns, rfl, more⟩
      · rw [runs]
        exact ⟨ret, st', returns, ⟨some_, token⟩, ih behind⟩

theorem Returns.unique {ret ret' : BitVec 32} {st' st'' : Tokenizer}
    (left : Returns srcString delim st ret st') (right : Returns srcString delim st ret' st'')
    : ret = ret' ∧ st' = st'' := by
  obtain ⟨enough, runs⟩ := left
  obtain ⟨enough', runs'⟩ := right
  have same := (runs (max enough enough') (Nat.le_max_left _ _)).symm.trans
    (runs' (max enough enough') (Nat.le_max_right _ _))
  simpa using same

/-- A call with the null pointer returns it only where the string before is used up. -/
theorem strtok_null {st' : Tokenizer} (some_ : st.backupString ≠ 0)
    (at_ : StringAt st.memory delim d) (returns : Returns 0 delim st 0 st')
    : ∃ rest, Placed st.memory st.backupString rest ∧ ∀ c ∈ rest, c ∈ d := by
  obtain ⟨enough, runs⟩ := returns
  have run := runs enough (Nat.le_refl _)
  simp only [strtok, if_true, if_neg some_] at run
  obtain ⟨ret, skips, run⟩ := Option.bind_eq_some_iff.mp run
  obtain ⟨found, passed⟩ := skipDelims_some at_ some_ skips
  by_cases nul : st.memory ret = 0
  · exact passed nul
  · rw [if_neg nul] at run
    obtain ⟨st'', -, same⟩ := Option.bind_eq_some_iff.mp run
    cases same
    contradiction

/-- The calls return the runs of a string and then null pointers for ever, exactly if the string has
a run or there is none left in the string before.
-/
theorem strtok_complete_iff (placed : Placed st.memory srcString text)
    (at_ : StringAt st.memory delim d)
    : (∀ calls, Tokenised d calls srcString (runsOf d text) st)
      ↔ runsOf d text ≠ [] ∨ st.backupString = 0
        ∨ ∃ rest, Placed st.memory st.backupString rest ∧ ∀ c ∈ rest, c ∈ d := by
  constructor
  · intro complete
    by_contra fails
    obtain ⟨empty, some_, more⟩ : runsOf d text = [] ∧ st.backupString ≠ 0
        ∧ ¬ ∃ rest, Placed st.memory st.backupString rest ∧ ∀ c ∈ rest, c ∈ d := by
      simpa only [not_or, ne_eq, not_not] using fails
    obtain ⟨ret, st', returns, -, later⟩ := complete 2 delim at_
    rcases strtok_spec (if_neg placed.some_) placed at_ with
      ⟨-, returnsNull⟩ | ⟨run, rest, -, -, runs, -⟩
    · obtain ⟨rfl, rfl⟩ := returns.unique returnsNull
      rw [empty] at later
      obtain ⟨ret, st'', again, null, -⟩ := later delim at_
      obtain rfl : ret = 0 := null
      exact more (strtok_null some_ at_ again)
    · rw [runs] at empty
      contradiction
  · intro fine calls
    cases calls with
    | zero => trivial
    | succ calls =>
        intro delim at_
        rcases strtok_spec (if_neg placed.some_) placed at_ with
          ⟨empty, returns⟩ | ⟨run, rest, ret, st', runs, returns, some_, token, behind⟩
        · refine ⟨0, st, returns, ?_, ?_⟩
          · rw [empty]
            rfl
          · rw [empty] at fine ⊢
            rcases fine with some_ | null | ⟨rest, left, all⟩
            · contradiction
            · exact tokenised_null null calls
            · have rest := tokenised_rest (d := d) left calls
              rwa [runsOf_delims all] at rest
        · rw [runs]
          exact ⟨ret, st', returns, ⟨some_, token⟩, tokenised_rest behind calls⟩

end Calls

/-- A memory with "a b" at 1, an empty string at 5 and " " at 6. -/
def threeStrings : Tokenizer :=
  ⟨stringMemory ['x', 'a', ' ', 'b', '\x00', '\x00', ' '], 0⟩

theorem strtok_complete_words
    : runsOf [chr ' '] [chr 'a', chr ' ', chr 'b'] = [[chr 'a'], [chr 'b']]
      ∧ ∀ calls, Tokenised [chr ' '] calls 1 (runsOf [chr ' '] [chr 'a', chr ' ', chr 'b'])
        threeStrings := by
  have placed : Placed threeStrings.memory 1 [chr 'a', chr ' ', chr 'b'] :=
    ⟨⟨by decide, by decide⟩, by decide, by decide⟩
  have at_ : StringAt threeStrings.memory 6 [chr ' '] := ⟨by decide, by decide⟩
  exact ⟨by decide, (strtok_complete_iff placed at_).mpr (.inl (by decide))⟩

/-- The state behind `strtok("a b", " ")`. -/
def firstTaken : Tokenizer := ⟨Function.update threeStrings.memory 2 0, 3⟩

/-- After that, the empty string gets the "b" of the string before. -/
theorem strtok_goes_back
    : strtok 9 1 6 threeStrings = some (1, firstTaken) ∧ StringAt firstTaken.memory 5 []
        ∧ ¬ ∀ calls, Tokenised [chr ' '] calls 5 (runsOf [chr ' '] []) firstTaken := by
  have empty : StringAt firstTaken.memory 5 [] := ⟨by decide, by decide⟩
  refine ⟨rfl, empty, fun complete => ?_⟩
  have placed : Placed firstTaken.memory 5 [] := ⟨empty, by decide, by decide⟩
  have at_ : StringAt firstTaken.memory 6 [chr ' '] := ⟨by decide, by decide⟩
  have resolved : (if (5 : BitVec 32) = 0 then firstTaken.backupString else 5) = 5 := by decide
  obtain ⟨ret, st, returns, -, later⟩ := complete 2 6 at_
  rcases strtok_spec resolved placed at_ with ⟨-, null⟩ | ⟨run, rest, -, -, runs, -⟩
  · obtain ⟨rfl, rfl⟩ := returns.unique null
    obtain ⟨ret, st, again, zero, -⟩ := later 6 at_
    obtain rfl : ret = 0 := zero
    obtain ⟨rest, left, all⟩ := strtok_null (by decide) at_ again
    cases rest with
    | nil => exact absurd left.toStringAt.nul (by decide)
    | cons c rest =>
        obtain ⟨here, -⟩ := left.next
        have mem := all c List.mem_cons_self
        rw [← here] at mem
        exact absurd mem (by decide)
  · exact absurd runs (by simp [runsOf])

end DeadKernel
