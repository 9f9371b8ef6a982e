import DeadKernel.Foundation.Rounds

/-! Visitors that pick every member at its second visit at the latest. Whoever is not picked comes
closer to being picked with every turn.
-/

namespace Rounds

variable {α β : Type} [DecidableEq α]

/-- Every member is picked now, or stays and is picked at its next visit. -/
def Alternating (visitor : Visitor α β) (values : α → β) (order : List α) : Prop :=
  ∀ node ∈ order, visitor.verdict node (values node) = .pick
    ∨ visitor.verdict node (values node) = .stay
      ∧ visitor.verdict node (visitor.value node (values node)) = .pick

/-- How many visits it takes at most until the member is picked. -/
def wait (visitor : Visitor α β) (values : α → β) (order : List α) (node : α) : Nat :=
  order.idxOf node + 1
    + if visitor.verdict node (values node) = .pick then 0 else order.length

/-- The visits up to a pick, after which the next ones start behind the picked member. -/
structure Turn (visitor : Visitor α β) (values : α → β) (order : List α) (picked : α)
    (rest : List α) (values' : α → β)
    : Prop where
  perm : (picked :: rest).Perm order
  visited : ∃ value, visitor.verdict picked value = .pick
    ∧ (value = values picked ∨ value = visitor.value picked (values picked))
    ∧ values' picked = visitor.value picked value
  passed : ∀ node ∈ order, node ≠ picked → values' node = values node
    ∨ visitor.verdict node (values node) ≠ .pick
      ∧ values' node = visitor.value node (values node)
  outside : ∀ node, node ∉ order → values' node = values node
  closer : ∀ node ∈ order, node ≠ picked
    → wait visitor values' (rest ++ [picked]) node < wait visitor values order node

section Turns

variable {visitor : Visitor α β} {values : α → β} {order part rest : List α} {picked node : α}

theorem wait_le (member : node ∈ order)
    : wait visitor values order node ≤ 2 * order.length := by
  have index := List.idxOf_lt_length_of_mem member
  rw [wait]
  split <;> omega

omit [DecidableEq α] in
theorem Alternating.all_stay (h : Alternating visitor values part)
    (passed : ∀ other ∈ part, visitor.verdict other (values other) ≠ .pick)
    : staying visitor values part = part := by
  refine List.filter_eq_self.mpr (fun other member => decide_eq_true ?_)
  exact ((h other member).resolve_left (passed other member)).1

/-- The first member to be picked comes up in the first round. -/
theorem Alternating.turn_first (h : Alternating visitor values order) (distinct : order.Nodup)
    (same : order = part ++ picked :: rest)
    (passed : ∀ other ∈ part, visitor.verdict other (values other) ≠ .pick)
    (pick : visitor.verdict picked (values picked) = .pick)
    : Turn visitor values order picked (rest ++ part)
        (visitAll visitor (part ++ [picked]) values) := by
  subst same
  have notPart : picked ∉ part := fun member =>
    (List.nodup_append.mp distinct).2.2 picked member picked (by simp) rfl
  have notRest : picked ∉ rest := (List.nodup_cons.mp (List.nodup_append.mp distinct).2.1).1
  have apart {other : α} (member : other ∈ part) : other ∉ rest := fun again =>
    (List.nodup_append.mp distinct).2.2 other member other (by simp [again]) rfl
  have before {other : α} (member : other ∈ part)
      : visitAll visitor (part ++ [picked]) values other = visitor.value other (values other) := by
    simp [visitAll, member]
  have behind {other : α} (differs : other ≠ picked) (outside : other ∉ part)
      : visitAll visitor (part ++ [picked]) values other = values other := by
    simp [visitAll, differs, outside]
  refine ⟨?_, ⟨values picked, pick, Or.inl rfl, by simp [visitAll]⟩, ?_, ?_, ?_⟩
  · exact (List.perm_append_comm.cons picked).trans List.perm_middle.symm
  · intro other member differs
    by_cases inside : other ∈ part
    · exact Or.inr ⟨passed other inside, before inside⟩
    · exact Or.inl (behind differs inside)
  · intro other outside
    simp only [List.mem_append, List.mem_cons, not_or] at outside
    exact behind outside.2.1 outside.1
  · intro other member differs
    by_cases inside : other ∈ part
    · -- a passed member is picked in the next round
      have next := ((h other member).resolve_left (passed other inside)).2
      have index : (rest ++ part ++ [picked]).idxOf other = rest.length + part.idxOf other := by
        rw [List.append_assoc, List.idxOf_append_of_notMem (apart inside),
          List.idxOf_append_of_mem inside]
      rw [wait, wait, before inside, if_pos next, if_neg (passed other inside), index,
        List.idxOf_append_of_mem inside]
      simp only [List.length_append, List.length_cons]
      omega
    · have later : other ∈ rest := by simpa [inside, differs] using member
      have index : (rest ++ part ++ [picked]).idxOf other = rest.idxOf other := by
        rw [List.append_assoc, List.idxOf_append_of_mem later]
      have index' : (part ++ picked :: rest).idxOf other
          = part.length + (rest.idxOf other + 1) := by
        rw [List.idxOf_append_of_notMem inside, List.idxOf_cons_ne _ differs.symm]
      rw [wait, wait, behind differs inside, index, index']
      have length : (rest ++ part ++ [picked]).length = (part ++ picked :: rest).length := by
        simp only [List.length_append, List.length_cons, List.length_nil]
        omega
      rw [length]
      omega

/-- When nobody is picked in the first round, the first member is picked in the second. -/
theorem Alternating.turn_again (h : Alternating visitor values order)
    (same : order = picked :: rest)
    (passed : ∀ other ∈ order, visitor.verdict other (values other) ≠ .pick)
    : Turn visitor values order picked rest
        (visitAll visitor [picked] (visitAll visitor order values)) := by
  have first : picked ∈ order := by simp [same]
  have second {other : α} (member : other ∈ order) :=
    ((h other member).resolve_left (passed other member)).2
  have round {other : α} (member : other ∈ order)
      : visitAll visitor order values other = visitor.value other (values other) :=
    if_pos member
  have others {other : α} (differs : other ≠ picked)
      : visitAll visitor [picked] (visitAll visitor order values) other
        = visitAll visitor order values other :=
    if_neg (by simpa using differs)
  refine ⟨.of_eq same.symm, ⟨visitor.value picked (values picked), second first, Or.inr rfl, ?_⟩,
    ?_, ?_, ?_⟩
  · rw [visitAll, if_pos (by simp), round first]
  · intro other member differs
    exact Or.inr ⟨passed other member, (others differs).trans (round member)⟩
  · intro other outside
    have differs : other ≠ picked := fun isPicked => outside (isPicked ▸ first)
    exact (others differs).trans (if_neg outside)
  · intro other member differs
    have later : other ∈ rest := by
      rw [same] at member
      exact (List.mem_cons.mp member).resolve_left differs
    rw [wait, wait, others differs, round member, if_pos (second member),
      if_neg (passed other member), List.idxOf_append_of_mem later, same,
      List.idxOf_cons_ne _ differs.symm]
    omega

/-- The visits around an alternating circle end with a turn. -/
theorem Alternating.turn (h : Alternating visitor values order) (distinct : order.Nodup)
    (filled : order ≠ [])
    : ∃ picked rest values', Turn visitor values order picked rest values'
      ∧ rounds visitor (order.length + 1) order values = some (picked :: rest, values') := by
  rcases first_or_none (fun node => visitor.verdict node (values node) = .pick) order
    with ⟨part, picked, rest, same, passed, pick⟩ | passed
  · have front : (part ++ [picked]).Nodup := by
      rw [same] at distinct
      exact distinct.sublist (List.Sublist.append_left (by simp) part)
    have sub : Alternating visitor values part :=
      fun other member => h other (by simp [same, member])
    have found := rounds_pick front passed pick rest
    rw [← same, sub.all_stay passed] at found
    refine ⟨picked, _, _, h.turn_first distinct same passed pick, rounds_mono found ?_⟩
    have length := congrArg List.length same
    simp only [List.length_append, List.length_cons] at length
    omega
  · obtain ⟨picked, rest, same⟩ := List.exists_cons_of_ne_nil filled
    have first : picked ∈ order := by simp [same]
    have round := rounds_pass distinct passed [] 1
    rw [List.append_nil, List.nil_append, h.all_stay passed] at round
    have pick : visitor.verdict picked (visitAll visitor order values picked) = .pick := by
      rw [visitAll, if_pos first]
      exact ((h picked first).resolve_left (passed picked first)).2
    have alone : ([] ++ [picked]).Nodup := by simp
    have found := rounds_pick alone (by simp) pick rest
    rw [List.nil_append, ← same] at found
    refine ⟨picked, rest, _, h.turn_again same passed, round.trans (found.trans ?_)⟩
    rw [Rounds.staying, List.filter_nil, List.append_nil, List.nil_append]

end Turns

end Rounds
