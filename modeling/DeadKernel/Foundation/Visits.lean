import DeadKernel.Foundation.Rounds

/-! The visits that the rounds consist of, in order and with the values they find. They are given
for every number of visits, so that they also describe rounds that never end.
-/

namespace Rounds

variable {α β : Type} [DecidableEq α]

/-- The members that at most `fuel` visits go to, each with the value it has then. -/
def visits (visitor : Visitor α β) : Nat → List α → (α → β) → List (α × β)
  | 0, _, _ => []
  | _ + 1, [], _ => []
  | fuel + 1, node :: rest, values =>
      let visited := Function.update values node (visitor.value node (values node))
      (node, values node) :: match visitor.verdict node (values node) with
        | .pick => []
        | .stay => visits visitor fuel (rest ++ [node]) visited
        | .leave => visits visitor fuel rest visited

/-- A visit after which the member has left the circle. -/
def Visitor.Drops (visitor : Visitor α β) (visit : α × β) : Prop :=
  visitor.verdict visit.1 visit.2 = .leave

section Visits

variable {visitor : Visitor α β} {order part rest : List α} {values : α → β} {node : α}

/-- Every visit goes to a member, by induction over the visits. -/
theorem visits_member {fuel : Nat} {visit : α × β} (inside : visit ∈ visits visitor fuel order values)
    : visit.1 ∈ order := by
  induction fuel generalizing order values with
  | zero => exact absurd inside List.not_mem_nil
  | succ fuel ih =>
      cases order with
      | nil => exact absurd inside List.not_mem_nil
      | cons node rest =>
          rw [visits] at inside
          rcases List.mem_cons.mp inside with rfl | later
          · exact List.mem_cons_self
          · split at later
            · exact absurd later List.not_mem_nil
            · simpa [or_comm] using ih later
            · exact List.mem_cons_of_mem _ (ih later)

/-- A member that has left is not visited again, by induction over the visits. -/
theorem visits_leave_once (distinct : order.Nodup) (fuel : Nat)
    : (visits visitor fuel order values).Pairwise
        (fun first second => visitor.Drops first → second.1 ≠ first.1) := by
  induction fuel generalizing order values with
  | zero => exact List.Pairwise.nil
  | succ fuel ih =>
      cases order with
      | nil => exact List.Pairwise.nil
      | cons node rest =>
          obtain ⟨fresh, others⟩ := List.nodup_cons.mp distinct
          rw [visits]
          cases verdict : visitor.verdict node (values node) with
          | pick => exact List.pairwise_singleton _ _
          | stay =>
              refine List.Pairwise.cons (fun second _ drops => ?_) (ih ?_)
              · exact absurd (verdict.symm.trans drops) (by decide)
              · exact List.nodup_append.mpr ⟨others, by simp, fun other inside again member => by
                  rw [List.mem_singleton.mp member]
                  rintro rfl
                  exact fresh inside⟩
          | leave =>
              refine List.Pairwise.cons (fun second later _ same => ?_) (ih others)
              have again := visits_member later
              rw [same] at again
              exact fresh again

/-- More fuel only adds visits at the end, by induction over them. -/
theorem visits_start {fuel fuel' : Nat} (le : fuel ≤ fuel')
    : visits visitor fuel order values <+: visits visitor fuel' order values := by
  induction fuel generalizing fuel' order values with
  | zero => exact List.nil_prefix
  | succ fuel ih =>
      obtain ⟨fuel', rfl⟩ : ∃ more, fuel' = more + 1 := ⟨fuel' - 1, by omega⟩
      have less : fuel ≤ fuel' := by omega
      cases order with
      | nil => exact List.prefix_refl _
      | cons node rest =>
          rw [visits, visits]
          cases verdict : visitor.verdict node (values node) with
          | pick => exact List.prefix_refl _
          | stay => exact (List.prefix_cons_inj _).mpr (ih less)
          | leave => exact (List.prefix_cons_inj _).mpr (ih less)

/-- Visits to nodes that are not picked, by induction over them. -/
theorem visits_pass (distinct : part.Nodup)
    (passed : ∀ node ∈ part, visitor.verdict node (values node) ≠ .pick) (rest : List α)
    (fuel : Nat)
    : visits visitor (part.length + fuel) (part ++ rest) values
      = part.map (fun node => (node, values node))
        ++ visits visitor fuel (rest ++ staying visitor values part)
          (visitAll visitor part values) := by
  induction part generalizing rest values with
  | nil =>
      have same : visitAll visitor [] values = values := by
        funext node
        simp [visitAll]
      simp [same, staying]
  | cons node part ih =>
      obtain ⟨fresh, distinct⟩ := List.nodup_cons.mp distinct
      let visited := Function.update values node (visitor.value node (values node))
      obtain ⟨unchanged, stays, all⟩ := visit_front fresh values (rfl : visited = _)
      have later : ∀ other ∈ part, visitor.verdict other (visited other) ≠ .pick := by
        intro other member
        rw [unchanged other member]
        exact passed other (List.mem_cons_of_mem _ member)
      have found : part.map (fun other => (other, visited other))
          = part.map (fun other => (other, values other)) :=
        List.map_congr_left (fun other member => by rw [unchanged other member])
      have length : (node :: part).length + fuel = (part.length + fuel) + 1 := by
        simp only [List.length_cons]
        omega
      rw [length, List.cons_append, visits]
      cases verdict : visitor.verdict node (values node) with
      | pick => exact absurd verdict (passed node List.mem_cons_self)
      | stay =>
          rw [List.append_assoc, ih distinct later (rest ++ [node]), stays, all, found]
          simp [staying, verdict]
      | leave =>
          rw [ih distinct later rest, stays, all, found]
          simp [staying, verdict]

/-- The visit to a node behind others that are passed. -/
theorem visits_behind (distinct : (part ++ node :: rest).Nodup)
    (passed : ∀ other ∈ part, visitor.verdict other (values other) ≠ .pick)
    : (node, values node) ∈ visits visitor (part.length + 1) (part ++ node :: rest) values := by
  have fresh : node ∉ part :=
    fun member => (List.nodup_append.mp distinct).2.2 node member node (by simp) rfl
  have here : visitAll visitor part values node = values node := if_neg fresh
  rw [visits_pass (List.nodup_append.mp distinct).1 passed, List.cons_append, visits, here]
  exact List.mem_append_right _ List.mem_cons_self

/-- The visits up to a node that is picked, however many there may be. -/
theorem visits_pick (distinct : (part ++ node :: rest).Nodup)
    (passed : ∀ other ∈ part, visitor.verdict other (values other) ≠ .pick)
    (pick : visitor.verdict node (values node) = .pick) (fuel : Nat)
    : visits visitor fuel (part ++ node :: rest) values
      <+: (part ++ [node]).map (fun other => (other, values other)) := by
  have fresh : node ∉ part :=
    fun member => (List.nodup_append.mp distinct).2.2 node member node (by simp) rfl
  have here : visitAll visitor part values node = values node := if_neg fresh
  have whole : visits visitor (part.length + (fuel + 1)) (part ++ node :: rest) values
      = (part ++ [node]).map (fun other => (other, values other)) := by
    rw [visits_pass (List.nodup_append.mp distinct).1 passed, List.cons_append, visits, here, pick,
      List.map_append, List.map_cons, List.map_nil]
  rw [← whole]
  exact visits_start (by omega)

/-- In a circle where every visit changes nothing, nobody leaves, by induction over the visits. -/
theorem visits_stuck (stuck : ∀ node ∈ order, visitor.verdict node (values node) = .stay
      ∧ visitor.value node (values node) = values node) (fuel : Nat)
    : ∀ visit ∈ visits visitor fuel order values, ¬ visitor.Drops visit := by
  induction fuel generalizing order with
  | zero => simp [visits]
  | succ fuel ih =>
      cases order with
      | nil => simp [visits]
      | cons node rest =>
          obtain ⟨stays, same⟩ := stuck node List.mem_cons_self
          intro visit inside
          rw [visits, stays, same, Function.update_eq_self] at inside
          rcases List.mem_cons.mp inside with rfl | later
          · rw [Visitor.Drops, stays]
            decide
          · refine ih (fun other member => stuck other ?_) visit later
            simpa [or_comm] using member

end Visits

end Rounds
