import DeadKernel.Foundation.Settling
import DeadKernel.Shared.Tokens

/-! Where the tokens of a string lie. A call of `strtok` writes between the token that it returns
and the string that it leaves, so the tokens before it stay as they are.
-/

namespace DeadKernel

open Settling

/-- A string and the place of a token in it: the token begins behind `src`, ends in front of what is
left, and nothing outside the two was written.
-/
structure TokenAt (src : BitVec 32) (text : List UInt8) (ret : BitVec 32) (run : List UInt8)
    (memory : CharMemory) (st : Tokenizer) (rest : List UInt8)
    : Prop where
  token : StringAt st.memory ret run
  behind : Placed st.memory st.backupString rest
  first : src.toNat ≤ ret.toNat
  between : ret.toNat + run.length < st.backupString.toNat ∨ rest = []
  last : ret.toNat + run.length ≤ st.backupString.toNat
  inside : st.backupString.toNat + rest.length ≤ src.toNat + text.length
  kept : ∀ address : BitVec 32,
    address.toNat < ret.toNat ∨ src.toNat + text.length ≤ address.toNat →
    st.memory address = memory address

section

variable {memory memory' : CharMemory}

/-- Bytes stay where their memory stays. -/
theorem bytesAt_same {address : BitVec 32} {bytes : List UInt8}
    (stands : BytesAt memory address bytes)
    (same : ∀ k < bytes.length,
      memory' (address + BitVec.ofNat 32 k) = memory (address + BitVec.ofNat 32 k))
    : BytesAt memory' address bytes := by
  induction bytes generalizing address with
  | nil => trivial
  | cons byte rest ih =>
      have here := same 0 (Nat.succ_pos _)
      rw [BitVec.add_zero] at here
      refine ⟨here.trans stands.1, ih stands.2 fun k less => ?_⟩
      rw [address_add]
      exact same (k + 1) (Nat.succ_lt_succ less)

/-- A string stays where its memory stays. -/
theorem StringAt.same {p : BitVec 32} {text : List UInt8} (string : StringAt memory p text)
    (fits : p.toNat + text.length < 2 ^ 32)
    (same : ∀ address : BitVec 32, p.toNat ≤ address.toNat →
      address.toNat ≤ p.toNat + text.length → memory' address = memory address)
    : StringAt memory' p text := by
  refine ⟨bytesAt_same string.bytes fun k less => ?_, string.noNul⟩
  rw [List.length_append, List.length_singleton] at less
  have number : (p + BitVec.ofNat 32 k).toNat = p.toNat + k := by
    rw [BitVec.toNat_add, BitVec.toNat_ofNat, Nat.add_mod_mod]
    exact Nat.mod_eq_of_lt (by omega)
  exact same _ (by omega) (by omega)

/-- A token stays while only what is left behind it changes. -/
theorem TokenAt.stays {src ret : BitVec 32} {text run rest : List UInt8} {st : Tokenizer}
    (token : TokenAt src text ret run memory st rest) (fits : src.toNat + text.length < 2 ^ 32)
    (kept : ∀ address : BitVec 32,
      address.toNat < st.backupString.toNat
        ∨ st.backupString.toNat + rest.length ≤ address.toNat →
      memory' address = st.memory address)
    : StringAt memory' ret run := by
  have last := token.last
  have inside := token.inside
  refine token.token.same (by omega) fun address low high => kept address ?_
  rcases token.between with apart | rfl
  · exact .inl (by omega)
  · rw [List.length_nil]
    omega

end

section

variable {memory : CharMemory} {srcString delim : BitVec 32} {d text : List UInt8}

/-- The first loop passes the delimiters in front and no more. -/
theorem skipDelims_place (at_ : StringAt memory delim d) (placed : Placed memory srcString text)
    : ∃ ret, Settles (fun fuel => skipDelims memory delim fuel srcString) ret
      ∧ Placed memory ret (text.dropWhile (fun c => c ∈ d))
      ∧ ret.toNat + (text.dropWhile (fun c => c ∈ d)).length = srcString.toNat + text.length := by
  induction text generalizing srcString with
  | nil =>
      refine ⟨srcString, .of_le (d.length + 2) fun fuel enough => ?_, placed, rfl⟩
      obtain ⟨fuel, rfl⟩ : ∃ more, fuel = more + 1 := ⟨fuel - 1, by omega⟩
      rw [skipDelims, placed.toStringAt.nul, isDelim_eq at_ 0 (by omega)]
      simp [at_.noNul]
  | cons c rest ih =>
      obtain ⟨here, -, goes, number, later⟩ := placed.next
      by_cases mem : c ∈ d
      · obtain ⟨ret, settled, there, sum⟩ := ih later
        rw [List.dropWhile_cons_of_pos (by simpa using mem)]
        refine ⟨ret, ?_, there, by rw [sum, number, List.length_cons]; omega⟩
        refine settled.succ (d.length + 1) fun fuel enough => ?_
        rw [skipDelims, here, isDelim_eq at_ c (by omega), goes]
        simp [mem]
      · rw [List.dropWhile_cons_of_neg (by simpa using mem)]
        refine ⟨srcString, .of_le (d.length + 2) fun fuel enough => ?_, placed, rfl⟩
        obtain ⟨fuel, rfl⟩ : ∃ more, fuel = more + 1 := ⟨fuel - 1, by omega⟩
        rw [skipDelims, here, isDelim_eq at_ c (by omega)]
        simp [mem]

/-- The second loop cuts a token off that begins where the loop does, by induction on the string. -/
theorem cutToken_place (at_ : StringAt memory delim d) (placed : Placed memory srcString text)
    : ∃ run rest st, Settles (fun fuel => cutToken memory delim fuel srcString) st
      ∧ (∀ c ∈ run, c ∉ d) ∧ ((text = run ∧ rest = []) ∨ ∃ c ∈ d, text = run ++ c :: rest)
      ∧ TokenAt srcString text srcString run memory st rest := by
  induction text generalizing srcString with
  | nil =>
      refine ⟨[], [], ⟨memory, srcString⟩, .of_le 1 fun fuel enough => ?_, by simp,
        .inl ⟨rfl, rfl⟩, placed.toStringAt, placed, le_refl _, .inr rfl, le_refl _, le_refl _,
        fun _ _ => rfl⟩
      obtain ⟨fuel, rfl⟩ : ∃ more, fuel = more + 1 := ⟨fuel - 1, by omega⟩
      rw [cutToken, if_pos placed.toStringAt.nul]
  | cons c rest ih =>
      obtain ⟨here, notNul, goes, number, later⟩ := placed.next
      have goesOn : ¬ memory srcString = 0 := by rwa [here]
      by_cases mem : c ∈ d
      · refine ⟨[], rest, ⟨Function.update memory srcString 0, srcString + 1⟩,
          .of_le (d.length + 2) fun fuel enough => ?_, by simp, .inr ⟨c, mem, rfl⟩, ?_⟩
        · obtain ⟨fuel, rfl⟩ : ∃ more, fuel = more + 1 := ⟨fuel - 1, by omega⟩
          rw [cutToken, if_neg goesOn, here, isDelim_eq at_ c (by omega)]
          simp [mem]
        · refine ⟨⟨⟨Function.update_self _ _ _, trivial⟩, by simp⟩, later.written (by omega) 0,
            le_refl _, .inl ?_, ?_, ?_, fun address outside => Function.update_of_ne ?_ _ _⟩
          · simp only [List.length_nil, number]
            omega
          · simp only [List.length_nil, number]
            omega
          · simp only [List.length_cons, number]
            omega
          · rintro rfl
            simp only [List.length_cons] at outside
            omega
      · obtain ⟨run, rest', st, settled, none_, parts, token⟩ := ih later
        refine ⟨c :: run, rest', st, ?_, ?_, ?_, ?_⟩
        · refine settled.succ (d.length + 1) fun fuel enough => ?_
          rw [cutToken, if_neg goesOn, here, isDelim_eq at_ c (by omega), goes]
          simp [mem]
        · simpa [mem] using none_
        · rcases parts with ⟨rfl, rfl⟩ | ⟨sep, isSep, rfl⟩
          · exact .inl ⟨rfl, rfl⟩
          · exact .inr ⟨sep, isSep, rfl⟩
        · have between := token.between
          have last := token.last
          have inside := token.inside
          have before : st.memory srcString = memory srcString := token.kept _ (.inl (by omega))
          refine ⟨⟨⟨before.trans here, token.token.bytes⟩, ?_⟩, token.behind, le_refl _, ?_, ?_, ?_,
            fun address outside => token.kept address ?_⟩
          · simp [Ne.symm notNul, token.token.noNul]
          · rw [List.length_cons]
            exact between.imp_left (by omega)
          · rw [List.length_cons]
            omega
          · rw [List.length_cons]
            omega
          · rw [List.length_cons] at outside
            omega

end

section

variable {st : Tokenizer} {srcString delim src : BitVec 32} {d text : List UInt8}

/-- A call of `strtok`, with the place of the token. -/
theorem strtok_place (resolved : (if srcString = 0 then st.backupString else srcString) = src)
    (placed : Placed st.memory src text) (at_ : StringAt st.memory delim d)
    : (runsOf d text = [] ∧ Settles (fun fuel => strtok fuel srcString delim st) (0, st))
      ∨ ∃ run rest ret st', runsOf d text = run :: runsOf d rest
        ∧ Settles (fun fuel => strtok fuel srcString delim st) (ret, st') ∧ ret ≠ 0
        ∧ TokenAt src text ret run st.memory st' rest := by
  obtain ⟨ret, skips, there, sum⟩ := skipDelims_place at_ placed
  rw [← runsOf_dropWhile]
  have steps (fuel : Nat) : strtok fuel srcString delim st
      = (skipDelims st.memory delim fuel src).bind fun ret =>
          if st.memory ret = 0 then some (0, st)
          else (cutToken st.memory delim fuel ret).bind fun st => some (ret, st) := by
    simp only [strtok, resolved, if_neg placed.some_]
    rfl
  cases left : text.dropWhile (fun c => c ∈ d) with
  | nil =>
      rw [left] at there
      refine .inl ⟨runsOf_delims (by simp), .congr (.bind skips ?_) 0 (fun fuel _ => steps fuel)⟩
      exact .congr (.pure (0, st)) 0 (fun _ _ => if_pos there.toStringAt.nul)
  | cons c rest =>
      rw [left] at there sum
      have starts : c ∉ d := by
        have some_ : text.dropWhile (fun c => c ∈ d) ≠ [] := by
          rw [left]
          exact List.cons_ne_nil _ _
        have first := List.head_dropWhile_not (fun c => decide (c ∈ d)) some_
        simpa [left] using first
      obtain ⟨run, rest', st', cuts, none_, parts, token⟩ := cutToken_place at_ there
      have some_ : run ≠ [] := by
        rintro rfl
        rcases parts with ⟨empty, -⟩ | ⟨sep, isSep, same⟩
        · contradiction
        · rw [List.nil_append, List.cons.injEq] at same
          exact starts (same.1 ▸ isSep)
      have runs : runsOf d (c :: rest) = run :: runsOf d rest' := by
        rcases parts with ⟨same, rfl⟩ | ⟨sep, isSep, same⟩
        · rw [same, runsOf_last some_ none_, runsOf_delims (by simp)]
        · rw [same, runsOf_run some_ none_ isSep]
      have notNul : ¬ st.memory ret = 0 := by
        obtain ⟨here, notNul, -⟩ := there.next
        rwa [here]
      refine .inr ⟨run, rest', ret, st', runs, .congr (.bind skips ?_) 0 (fun fuel _ => steps fuel),
        there.some_, token.token, token.behind, ?_, token.between, token.last, ?_,
        fun address outside => token.kept address ?_⟩
      · exact .congr (cuts.map (fun st => (ret, st))) 0 fun fuel _ => by
          rw [if_neg notNul, Option.map_eq_bind]
          rfl
      · have length : (c :: rest).length ≤ text.length := by
          rw [← left]
          exact (List.dropWhile_sublist _).length_le
        omega
      · have inside := token.inside
        omega
      · omega

end

end DeadKernel
