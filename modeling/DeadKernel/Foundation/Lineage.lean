/-! Memories that are copied from one another. Each goes by a name; a copy starts as what it is
copied from, and every other event changes the memory that it names and no other. What a memory
holds is then told by its ancestry alone: the changes to itself and, before it was copied, to what
it comes from.
-/

namespace Lineage

variable {Name Memory Change : Type}

inductive Event (Name Change : Type) where
  | copy (source target : Name)
  | change (name : Name) (change : Change)

section

variable [DecidableEq Name]

/-- All memories after a history, which has the last event first. -/
def after (apply : Change → Memory → Memory) (first : Name → Memory)
    : List (Event Name Change) → Name → Memory
  | [], name => first name
  | .copy source target :: before, name =>
      after apply first before (if name = target then source else name)
  | .change changed change :: before, name =>
      if name = changed then apply change (after apply first before name)
      else after apply first before name

variable {apply : Change → Memory → Memory} {first : Name → Memory}
variable {before : List (Event Name Change)} {name source target : Name} {change : Change}

theorem after_copy_target
    : after apply first (.copy source target :: before) target
      = after apply first before source := by
  rw [after, if_pos rfl]

theorem after_copy_other (other : name ≠ target)
    : after apply first (.copy source target :: before) name = after apply first before name := by
  rw [after, if_neg other]

theorem after_change_self
    : after apply first (.change name change :: before) name
      = apply change (after apply first before name) := by
  rw [after, if_pos rfl]

theorem after_change_other (other : name ≠ source)
    : after apply first (.change source change :: before) name = after apply first before name := by
  rw [after, if_neg other]

end

end Lineage
