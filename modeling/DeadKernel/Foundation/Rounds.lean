import Mathlib.Data.List.Nodup
import Mathlib.Logic.Function.Basic

/-! Visits around a circle of members until one of them is picked.
Every member has a value, which a visit rewrites. A visited member goes to the end of the
circle, or leaves it, or ends the visits.
-/

namespace Rounds

variable {α β : Type} [DecidableEq α]

/-- What a visit decides about a member. -/
inductive Verdict where
  | pick
  | stay
  | leave
deriving DecidableEq

/-- A visit: its decision, and the value it leaves to the member. -/
structure Visitor (α β : Type) where
  verdict : α → β → Verdict
  value : α → β → β

/-- At most `fuel` visits around the circle. The picked member is left in front. -/
def rounds (visitor : Visitor α β) : Nat → List α → (α → β) → Option (List α × (α → β))
  | 0, _, _ => none
  | _ + 1, [], values => some ([], values)
  | fuel + 1, node :: rest, values =>
      let visited := Function.update values node (visitor.value node (values node))
      match visitor.verdict node (values node) with
      | .pick => some (node :: rest, visited)
      | .stay => rounds visitor fuel (rest ++ [node]) visited
      | .leave => rounds visitor fuel rest visited

/-- The values after visits to each node of `part`. -/
def visitAll (visitor : Visitor α β) (part : List α) (values : α → β) (node : α) : β :=
  if node ∈ part then visitor.value node (values node) else values node

/-- The nodes of `part` that are still in the circle after a visit to each. -/
def staying (visitor : Visitor α β) (values : α → β) (part : List α) : List α :=
  part.filter (fun node => visitor.verdict node (values node) = .stay)

variable {visitor : Visitor α β}

section Results

variable {fuel fuel' : Nat} {order : List α} {values : α → β} {result result' : List α × (α → β)}

/-- More fuel does not change a result, by induction over the visits. -/
theorem rounds_mono (run : rounds visitor fuel order values = some result) (le : fuel ≤ fuel')
    : rounds visitor fuel' order values = some result := by
  induction fuel generalizing fuel' order values with
  | zero => contradiction
  | succ fuel ih =>
      obtain ⟨fuel', rfl⟩ : ∃ more, fuel' = more + 1 := ⟨fuel' - 1, by omega⟩
      have less : fuel ≤ fuel' := by omega
      cases order with
      | nil => exact run
      | cons node rest =>
          rw [rounds] at run ⊢
          cases verdict : visitor.verdict node (values node) with
          | pick =>
              rw [verdict] at run
              exact run
          | stay =>
              rw [verdict] at run
              exact ih run less
          | leave =>
              rw [verdict] at run
              exact ih run less

theorem rounds_unique (run : rounds visitor fuel order values = some result)
    (run' : rounds visitor fuel' order values = some result')
    : result = result' := by
  have most := rounds_mono run (Nat.le_max_left fuel fuel')
  exact Option.some.inj (most.symm.trans (rounds_mono run' (Nat.le_max_right fuel fuel')))

/-- The members that are left come from the circle, by induction over the visits. -/
theorem rounds_subset (run : rounds visitor fuel order values = some result)
    : result.1 ⊆ order := by
  induction fuel generalizing order values with
  | zero => contradiction
  | succ fuel ih =>
      cases order with
      | nil =>
          obtain rfl := Option.some.inj run
          exact List.Subset.refl _
      | cons node rest =>
          rw [rounds] at run
          split at run
          · obtain rfl := Option.some.inj run
            exact List.Subset.refl _
          · refine List.Subset.trans (ih run) ?_
            intro member inside
            simpa [or_comm] using inside
          · exact List.Subset.trans (ih run) (List.subset_cons_self _ _)

/-- A node that every visit picks or keeps in the circle is in the result, by induction over the
visits.
-/
theorem rounds_keeps (bound : β → Prop) {node : α}
    (keep : ∀ value, bound value → visitor.verdict node value = .pick
      ∨ visitor.verdict node value = .stay ∧ bound (visitor.value node value))
    (member : node ∈ order) (holds : bound (values node))
    (run : rounds visitor fuel order values = some result)
    : node ∈ result.1 := by
  induction fuel generalizing order values with
  | zero => contradiction
  | succ fuel ih =>
      cases order with
      | nil => exact absurd member List.not_mem_nil
      | cons front rest =>
          rw [rounds] at run
          by_cases same : node = front
          · subst same
            rcases keep _ holds with picked | ⟨stays, later⟩
            · rw [picked] at run
              obtain rfl := Option.some.inj run
              exact List.mem_cons_self
            · rw [stays] at run
              exact ih (by simp) (by rwa [Function.update_self]) run
          · have inside := (List.mem_cons.mp member).resolve_left same
            have later : bound (Function.update values front
                (visitor.value front (values front)) node) := by
              rwa [Function.update_of_ne same]
            split at run
            · obtain rfl := Option.some.inj run
              exact member
            · exact ih (List.mem_append_left _ inside) later run
            · exact ih inside later run

/-- What every visit preserves of a node's value holds in the end. -/
theorem rounds_value (bound : β → Prop) {node : α}
    (keep : ∀ value, bound value → bound (visitor.value node value)) (holds : bound (values node))
    (run : rounds visitor fuel order values = some result)
    : bound (result.2 node) := by
  induction fuel generalizing order values with
  | zero => contradiction
  | succ fuel ih =>
      cases order with
      | nil =>
          obtain rfl := Option.some.inj run
          exact holds
      | cons front rest =>
          have later : bound (Function.update values front
              (visitor.value front (values front)) node) := by
            by_cases same : node = front
            · subst same
              rw [Function.update_self]
              exact keep _ holds
            · rwa [Function.update_of_ne same]
          rw [rounds] at run
          split at run
          · obtain rfl := Option.some.inj run
            exact later
          · exact ih later run
          · exact ih later run

/-- The rounds end with an empty circle, or with a node in front whose last visit picked it. -/
theorem rounds_picked (bound : α → β → Prop)
    (keep : ∀ node value, bound node value → bound node (visitor.value node value))
    (holds : ∀ node ∈ order, bound node (values node))
    (run : rounds visitor fuel order values = some result)
    : result.1 = [] ∨ ∃ node rest value, result.1 = node :: rest ∧ bound node value
        ∧ visitor.verdict node value = .pick ∧ result.2 node = visitor.value node value := by
  induction fuel generalizing order values with
  | zero => contradiction
  | succ fuel ih =>
      cases order with
      | nil =>
          obtain rfl := Option.some.inj run
          exact Or.inl rfl
      | cons front rest =>
          have later : ∀ node ∈ front :: rest, bound node (Function.update values front
              (visitor.value front (values front)) node) := by
            intro node member
            by_cases same : node = front
            · subst same
              rw [Function.update_self]
              exact keep _ _ (holds node member)
            · rw [Function.update_of_ne same]
              exact holds node member
          rw [rounds] at run
          split at run
          · rename_i picked
            obtain rfl := Option.some.inj run
            exact Or.inr ⟨front, rest, _, rfl, holds front List.mem_cons_self, picked,
              Function.update_self _ _ _⟩
          · refine ih (fun node member => later node ?_) run
            simpa [or_comm] using member
          · exact ih (fun node member => later node (List.mem_cons_of_mem _ member)) run

end Results

/-- The first element of a list that satisfies a predicate, if there is one. -/
theorem first_or_none {α : Type} (p : α → Prop) [DecidablePred p] (nodes : List α)
    : (∃ part node rest, nodes = part ++ node :: rest ∧ (∀ other ∈ part, ¬ p other) ∧ p node)
      ∨ ∀ node ∈ nodes, ¬ p node := by
  cases found : nodes.find? (fun node => p node) with
  | none => exact Or.inr (by simpa using found)
  | some node =>
      obtain ⟨holds, part, rest, same, before⟩ := List.find?_eq_some_iff_append.mp found
      exact Or.inl ⟨part, node, rest, same, by simpa using before, by simpa using holds⟩

/-- A visit in front of `part` leaves the visits to `part` as they are. -/
theorem visit_front {node : α} {part : List α} (fresh : node ∉ part) (values : α → β)
    {visited : α → β}
    (visit : visited = Function.update values node (visitor.value node (values node)))
    : (∀ other ∈ part, visited other = values other)
      ∧ staying visitor visited part = staying visitor values part
      ∧ visitAll visitor part visited = visitAll visitor (node :: part) values := by
  have unchanged {other : α} (member : other ∈ part) : visited other = values other := by
    rw [visit]
    refine Function.update_of_ne ?_ _ _
    rintro rfl
    exact fresh member
  refine ⟨fun other => unchanged,
    List.filter_congr (fun other member => by rw [unchanged member]), ?_⟩
  funext other
  by_cases member : other ∈ part
  · simp [visitAll, member, unchanged member]
  · by_cases same : other = node
    · subst same
      simp [visitAll, member, visit]
    · simp [visitAll, member, same, visit]

/-- Visits to nodes that are not picked, by induction over them. -/
theorem rounds_pass {part : List α} (distinct : part.Nodup) {values : α → β}
    (passed : ∀ node ∈ part, visitor.verdict node (values node) ≠ .pick) (rest : List α)
    (fuel : Nat)
    : rounds visitor (part.length + fuel) (part ++ rest) values
      = rounds visitor fuel (rest ++ staying visitor values part)
          (visitAll visitor part values) := by
  induction part generalizing rest values with
  | nil =>
      have same : visitAll visitor [] values = values := by
        funext node
        simp [visitAll]
      simp [same, staying]
  | cons node part ih =>
      obtain ⟨fresh, distinct⟩ := List.nodup_cons.mp distinct
      let visited := Function.update values node (visitor.value node (values node))
      obtain ⟨unchanged, stays, all⟩ := visit_front fresh values (rfl : visited = _)
      have later : ∀ other ∈ part, visitor.verdict other (visited other) ≠ .pick := by
        intro other member
        rw [unchanged other member]
        exact passed other (List.mem_cons_of_mem _ member)
      have length : (node :: part).length + fuel = (part.length + fuel) + 1 := by
        simp only [List.length_cons]
        omega
      rw [length, List.cons_append, rounds]
      cases verdict : visitor.verdict node (values node) with
      | pick => exact absurd verdict (passed node List.mem_cons_self)
      | stay =>
          rw [List.append_assoc, ih distinct later (rest ++ [node]), stays, all]
          simp [staying, verdict]
      | leave =>
          rw [ih distinct later rest, stays, all]
          simp [staying, verdict]

/-- The first node that is picked, and the circle behind it. -/
theorem rounds_pick {part : List α} {node : α} (distinct : (part ++ [node]).Nodup)
    {values : α → β} (passed : ∀ other ∈ part, visitor.verdict other (values other) ≠ .pick)
    (picked : visitor.verdict node (values node) = .pick) (rest : List α)
    : rounds visitor (part.length + 1) (part ++ node :: rest) values
      = some (node :: (rest ++ staying visitor values part),
          visitAll visitor (part ++ [node]) values) := by
  have fresh : node ∉ part :=
    fun member => (List.nodup_append.mp distinct).2.2 node member node (by simp) rfl
  have here : visitAll visitor part values node = values node := if_neg fresh
  have all : Function.update (visitAll visitor part values) node (visitor.value node (values node))
      = visitAll visitor (part ++ [node]) values := by
    funext other
    by_cases same : other = node
    · subst same
      simp [visitAll]
    · simp [visitAll, same]
  rw [rounds_pass (List.nodup_append.mp distinct).1 passed, List.cons_append, rounds]
  rw [here, picked, all]

/-- A circle whose front part has a node to pick picks one of that part. -/
theorem rounds_pick_front {front : List α} (distinct : front.Nodup) {values : α → β}
    (ready : ∃ node ∈ front, visitor.verdict node (values node) = .pick) (behind : List α)
    : ∃ picked rest after, rounds visitor front.length (front ++ behind) values
        = some (picked :: rest, after) ∧ picked ∈ front := by
  rcases first_or_none (fun node => visitor.verdict node (values node) = .pick) front
    with ⟨part, picked, rest, rfl, passed, pick⟩ | none
  · have prefix_ : (part ++ [picked]).Nodup :=
      distinct.sublist (List.Sublist.append_left (by simp) part)
    have found := rounds_pick prefix_ passed pick (rest ++ behind)
    rw [← List.cons_append, ← List.append_assoc] at found
    refine ⟨picked, _, _, rounds_mono found ?_, by simp⟩
    simp only [List.length_append, List.length_cons]
    omega
  · obtain ⟨node, member, pick⟩ := ready
    exact absurd pick (none node member)

theorem rounds_ends_first {order : List α} {values : α → β} (distinct : order.Nodup)
    (picks : ∃ node ∈ order, visitor.verdict node (values node) = .pick)
    : ∃ result, rounds visitor order.length order values = some result := by
  obtain ⟨picked, rest, after, run, -⟩ := rounds_pick_front distinct picks []
  rw [List.append_nil] at run
  exact ⟨_, run⟩

/-- The rounds end when some member is picked at its second visit at the latest. -/
theorem rounds_ends {order : List α} {node : α} {values : α → β} (distinct : order.Nodup)
    (member : node ∈ order)
    (picks : visitor.verdict node (values node) = .pick
      ∨ visitor.verdict node (values node) = .stay
        ∧ visitor.verdict node (visitor.value node (values node)) = .pick)
    : ∃ result, rounds visitor (2 * order.length) order values = some result := by
  by_cases first : ∃ node ∈ order, visitor.verdict node (values node) = .pick
  · obtain ⟨result, run⟩ := rounds_ends_first distinct first
    exact ⟨result, rounds_mono run (by omega)⟩
  · -- nobody is picked in the first round, and the node stays for the second
    have passed : ∀ other ∈ order, visitor.verdict other (values other) ≠ .pick :=
      fun other inside pick => first ⟨other, inside, pick⟩
    obtain ⟨stays, later⟩ := picks.resolve_left (passed node member)
    have kept : node ∈ staying visitor values order :=
      List.mem_filter.mpr ⟨member, decide_eq_true stays⟩
    have pick : visitor.verdict node (visitAll visitor order values node) = .pick := by
      rw [visitAll, if_pos member]
      exact later
    have left : (staying visitor values order).Nodup := distinct.sublist List.filter_sublist
    obtain ⟨result, run⟩ := rounds_ends_first left ⟨node, kept, pick⟩
    have length : (staying visitor values order).length ≤ order.length :=
      List.length_filter_le _ _
    have round := rounds_pass distinct passed [] order.length
    rw [List.append_nil, List.nil_append, rounds_mono run length] at round
    exact ⟨result, by rw [Nat.two_mul, round]⟩

end Rounds
